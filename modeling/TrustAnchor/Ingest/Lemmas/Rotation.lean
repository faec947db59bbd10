import TrustAnchor.Ingest.Lemmas.Sources

/-!
# Signer rotation

What a verification returns is fixed by the document, so the signer set after a pivot does not depend on
the set it was verified under. A walk that catches up with another one's last pivot has its signer set.
-/

namespace TrustAnchor.Ingest

open Lib Tsl Trust

variable {rt : Runtime}

/-! ## Verified content -/

theorem verifyWith_eq_ok {clock : Time} {raw : Bytes} {signers : List Certificate}
    {r : Bytes × Certificate} :
    verifyWith rt clock raw signers = .ok r ↔
      signers ≠ [] ∧ rt.findEnvelopedSignature raw = none ∧
        rt.validateSignature clock raw signers = none ∧ signerCertificate rt raw = .ok r.2 ∧
        rt.verifiedRoot raw = .ok r.1 := by
  simp only [verifyWith, Result.bind_eq_ok, Result.require_eq_ok, Result.refuse_eq_ok,
    Option.map_eq_none_iff, Err.lift_eq_ok]
  constructor
  · rintro ⟨⟨⟩, hne, ⟨⟩, hfind, ⟨⟩, hvalid, signer, hsigner, verified, hverified, h⟩
    cases h
    exact ⟨hne, hfind, hvalid, hsigner, hverified⟩
  · rintro ⟨hne, hfind, hvalid, hsigner, hverified⟩
    exact ⟨(), hne, (), hfind, (), hvalid, r.2, hsigner, r.1, hverified, rfl⟩

/-- The pinned set and the clock decide whether something is returned, never what. -/
theorem verifyWith_unique {clock clock' : Time} {raw : Bytes} {signers signers' : List Certificate}
    {r r' : Bytes × Certificate} (h : verifyWith rt clock raw signers = .ok r)
    (h' : verifyWith rt clock' raw signers' = .ok r') : r = r' := by
  obtain ⟨-, -, -, hsigner, hverified⟩ := verifyWith_eq_ok.1 h
  obtain ⟨-, -, -, hsigner', hverified'⟩ := verifyWith_eq_ok.1 h'
  rw [hsigner] at hsigner'
  rw [hverified] at hverified'
  exact Prod.ext (Except.ok.inj hverified') (Except.ok.inj hsigner')

theorem processPivot_unique {seq : Nat} {raw : Bytes} {signers signers' next next' : List Certificate}
    (h : processPivot rt seq raw signers = .ok next)
    (h' : processPivot rt seq raw signers' = .ok next') : next = next' := by
  simp only [processPivot, Result.bind_eq_ok, orPivotErr_eq_ok, Result.require_eq_ok] at h h'
  obtain ⟨pre, hpre, r, hr, pivot, hp, -, -, -, -, -, -, self, hself, certs, hcerts, -, -, -, -, h⟩ := h
  obtain ⟨pre', hpre', r', hr', pivot', hp', -, -, -, -, -, -, self', hself', certs', hcerts', -, -, -,
    -, h'⟩ := h'
  cases h
  cases h'
  obtain rfl := verifyWith_unique hr hr'
  rw [hp] at hp'
  cases hp'
  rw [hself] at hself'
  cases hself'
  rw [hcerts] at hcerts'
  exact Except.ok.inj hcerts'

/-! ## Walks -/

variable {doc doc' : PivotRef → Except Err Bytes}

theorem walk_congr {refs : List PivotRef} (h : ∀ ref ∈ refs, doc ref = doc' ref)
    (signers : List Certificate) (last : Nat) :
    walk rt doc refs signers last = walk rt doc' refs signers last := by
  induction refs generalizing signers last with
  | nil => rfl
  | cons ref refs ih =>
      have hrefs : ∀ r ∈ refs, doc r = doc' r := fun r hr => h r (List.mem_cons_of_mem _ hr)
      simp only [walk, h ref List.mem_cons_self, ih hrefs]

/-- A walk that moved ends in the set that the document of its last pivot advertises. -/
theorem walk_last {refs : List PivotRef} {signers signers' : List Certificate} {last last' : Nat}
    (h : walk rt doc refs signers last = .ok (signers', last')) :
    (signers' = signers ∧ last' = last) ∨ (last < last' ∧ ∃ ref ∈ refs, ref.seq = last' ∧
      ∃ raw before, doc ref = .ok raw ∧ processPivot rt last' raw before = .ok signers') := by
  induction refs generalizing signers last with
  | nil =>
      cases h
      exact .inl ⟨rfl, rfl⟩
  | cons ref refs ih =>
      simp only [walk] at h
      split at h
      · rcases ih h with hsame | ⟨hlt, r, hr, hdoc⟩
        · exact .inl hsame
        · exact .inr ⟨hlt, r, List.mem_cons_of_mem _ hr, hdoc⟩
      · rename_i hnew
        obtain ⟨raw, hraw, h⟩ := Result.bind_eq_ok.1 h
        obtain ⟨next, hnext, h⟩ := Result.bind_eq_ok.1 h
        right
        rcases ih h with ⟨rfl, rfl⟩ | ⟨hlt, r, hr, hdoc⟩
        · exact ⟨by omega, ref, List.mem_cons_self, rfl, raw, signers, hraw, hnext⟩
        · exact ⟨by omega, r, List.mem_cons_of_mem _ hr, hdoc⟩

theorem walk_le {refs : List PivotRef} {signers signers' : List Certificate} {last last' : Nat}
    (h : walk rt doc refs signers last = .ok (signers', last')) :
    last ≤ last' ∧ ∀ ref ∈ refs, ref.seq ≤ last' := by
  induction refs generalizing signers last with
  | nil =>
      cases h
      simp
  | cons ref refs ih =>
      simp only [walk] at h
      simp only [List.forall_mem_cons]
      split at h
      · obtain ⟨hlast, hrefs⟩ := ih h
        exact ⟨hlast, by omega, hrefs⟩
      · obtain ⟨raw, -, h⟩ := Result.bind_eq_ok.1 h
        obtain ⟨next, -, h⟩ := Result.bind_eq_ok.1 h
        obtain ⟨hlast, hrefs⟩ := ih h
        exact ⟨by omega, hlast, hrefs⟩

theorem walk_of_processed {refs : List PivotRef} {last : Nat} (h : ∀ ref ∈ refs, ref.seq ≤ last)
    (signers : List Certificate) : walk rt doc refs signers last = .ok (signers, last) := by
  induction refs with
  | nil => rfl
  | cons ref refs ih =>
      rw [List.forall_mem_cons] at h
      simp only [walk, h.1, if_true]
      exact ih h.2

/-- A walk that starts before pivot `p` passes through it; from there on it is the walk that starts at
`p` with the set its document advertises. -/
theorem walk_resume {refs : List PivotRef} (hsorted : refs.Pairwise fun a b => a.seq ≤ b.seq)
    {p : Nat} {target : List Certificate}
    (htarget : ∀ ref ∈ refs, ref.seq = p → ∀ raw before next, doc ref = .ok raw →
      processPivot rt p raw before = .ok next → next = target)
    {signers : List Certificate} {last : Nat}
    (hstart : (last = p ∧ signers = target) ∨ (last < p ∧ ∃ ref ∈ refs, ref.seq = p))
    {r : List Certificate × Nat} (h : walk rt doc refs signers last = .ok r) :
    walk rt doc refs target p = .ok r := by
  induction refs generalizing signers last with
  | nil =>
      rcases hstart with ⟨rfl, rfl⟩ | ⟨-, ref, href, -⟩
      · exact h
      · cases href
  | cons ref refs ih =>
      rw [List.pairwise_cons] at hsorted
      have hrest := fun r hr => htarget r (List.mem_cons_of_mem ref hr)
      rcases hstart with ⟨rfl, rfl⟩ | ⟨hlt, w, hw, hwseq⟩
      · exact h
      -- the pivot `p` is not among those that the earlier start skips
      have hlater : ref.seq ≠ p → ∃ ref' ∈ refs, ref'.seq = p := by
        intro hne
        rcases List.mem_cons.1 hw with rfl | hw
        · exact absurd hwseq hne
        · exact ⟨w, hw, hwseq⟩
      have hle : ref.seq ≤ p := by
        rcases List.mem_cons.1 hw with rfl | hw
        · omega
        · have := hsorted.1 w hw
          omega
      simp only [walk, hle, if_true]
      simp only [walk] at h
      split at h
      · exact ih hsorted.2 hrest (.inr ⟨hlt, hlater (by omega)⟩) h
      · obtain ⟨raw, hraw, h⟩ := Result.bind_eq_ok.1 h
        obtain ⟨next, hnext, h⟩ := Result.bind_eq_ok.1 h
        by_cases hp : ref.seq = p
        · have hnext' := htarget ref List.mem_cons_self hp raw signers next hraw (hp ▸ hnext)
          exact ih hsorted.2 hrest (.inl ⟨hp, hnext'⟩) h
        · exact ih hsorted.2 hrest (.inr ⟨by omega, hlater hp⟩) h

theorem pivotRefs_sorted (uris : List String) :
    (pivotRefs rt uris).Pairwise fun a b => a.seq ≤ b.seq := by
  have : Std.Total fun a b : PivotRef => a.seq ≤ b.seq := ⟨fun a b => Nat.le_total a.seq b.seq⟩
  have : IsTrans PivotRef fun a b => a.seq ≤ b.seq := ⟨fun a b c => Nat.le_trans⟩
  exact rt.sortSlice.sorted _ _

theorem advertisedPivots_sorted (rt : Runtime) (raw : Bytes) :
    (advertisedPivots rt raw).Pairwise fun a b => a.seq ≤ b.seq := by
  unfold advertisedPivots
  split
  · exact pivotRefs_sorted _
  · exact .nil

theorem le_maxPivot {refs : List PivotRef} (hsorted : refs.Pairwise fun a b => a.seq ≤ b.seq)
    {ref : PivotRef} (h : ref ∈ refs) : ref.seq ≤ maxPivot refs := by
  unfold maxPivot
  split
  · rename_i hnone
    rw [List.getLast?_eq_none_iff.1 hnone] at h
    cases h
  · rename_i last hlast
    obtain ⟨refs', rfl⟩ := List.getLast?_eq_some_iff.1 hlast
    rcases List.mem_append.1 h with h | h
    · exact (List.pairwise_append.1 hsorted).2.2 ref h last (List.mem_singleton_self _)
    · rw [List.mem_singleton.1 h]

theorem maxPivot_le {refs : List PivotRef} {n : Nat} (h : ∀ ref ∈ refs, ref.seq ≤ n) :
    maxPivot refs ≤ n := by
  unfold maxPivot
  split
  · exact Nat.zero_le n
  · rename_i last hlast
    exact h last (List.mem_of_getLast? hlast)

/-! ## Acceptance -/

/-- The list verifies under the set. -/
def VerifiesUnder (rt : Runtime) (clock : Time) (raw : Bytes) (signers : List Certificate) : Prop :=
  ∃ r, Tsl.verify rt clock raw signers = .ok r

/-- The list's signer is in the list's own EU self-pointer set. -/
def SelfConsistent (rt : Runtime) (raw : Bytes) : Prop :=
  ∃ verified signer lotl, rt.verifiedRoot raw = .ok verified ∧ signerCertificate rt raw = .ok signer ∧
    parse rt verified = .ok lotl ∧ lotlSignerSelfConsistent rt signer lotl = .ok ()

variable {src : EULOTLSource} {clock : Time} {raw : Raw}

/-- Everything `Verify` asks of a list apart from signers: the unverified bytes parse, and the signed
content is an unexpired list of the lists. -/
def Publishable (rt : Runtime) (src : EULOTLSource) (raw : Bytes) : Prop :=
  (∃ pre, parse rt raw = .ok pre) ∧
    ∃ verified lotl, rt.verifiedRoot raw = .ok verified ∧ src.checkVerified rt verified = .ok lotl

theorem publishable_of_verify {net : Network} {pinned : List Bytes} {f : Fetcher} {v : LOTLState}
    (h : (src.verify rt clock net raw pinned f).1 = .ok v) : Publishable rt src raw.bytes := by
  obtain ⟨hpre, signers, -, ⟨verified, signer, hv, hacc⟩ | ⟨verr, -, hacc⟩⟩ :=
    EULOTLSource.verify_eq_ok.1 h
  · obtain ⟨hlist, -, -, -⟩ := EULOTLSource.acceptDirect_eq_ok.1 hacc
    exact ⟨hpre, verified, v.list, (verifyWith_eq_ok.1 hv).2.2.2.2, hlist⟩
  · obtain ⟨-, verified, signer, hv, hlist⟩ := EULOTLSource.acceptWalked_eq_ok.1 hacc
    exact ⟨hpre, verified, v.list, (verifyWith_eq_ok.1 hv).2.2.2.2, hlist⟩

/-- When `Verify` accepts a publishable list: it is self-consistent if the pinned set verifies it, and
if not, the pivot walk leads to a set that does. -/
theorem verify_accepts_iff {net : Network} {pinned : List Bytes} {signers : List Certificate}
    {f : Fetcher} (hpub : Publishable rt src raw.bytes) (hpinned : parseDERCerts rt pinned = .ok signers) :
    (∃ v, (src.verify rt clock net raw pinned f).1 = .ok v) ↔
      (VerifiesUnder rt clock raw.bytes signers → SelfConsistent rt raw.bytes) ∧
      (¬ VerifiesUnder rt clock raw.bytes signers → ∃ signers' last',
        walk rt (fun ref => (fetchPivot rt net ref f).1) (advertisedPivots rt raw.bytes) signers
          src.pivotSeq = .ok (signers', last') ∧ VerifiesUnder rt clock raw.bytes signers') := by
  obtain ⟨hpre, verified, lotl, hverified, hlotl⟩ := hpub
  have hparse := (EULOTLSource.checkVerified_eq_ok.1 hlotl).1
  constructor
  · rintro ⟨v, h⟩
    obtain ⟨-, signers', hs, hacc⟩ := EULOTLSource.verify_eq_ok.1 h
    rw [hpinned] at hs
    cases hs
    rcases hacc with ⟨ver, signer, hv, hacc⟩ | ⟨verr, hv, hacc⟩
    · obtain ⟨hlist, hself, -, -⟩ := EULOTLSource.acceptDirect_eq_ok.1 hacc
      obtain ⟨-, -, -, hsigner, hver⟩ := verifyWith_eq_ok.1 hv
      refine ⟨fun _ => ⟨ver, signer, v.list, hver, hsigner, ?_, hself⟩, fun hno => absurd ⟨_, hv⟩ hno⟩
      exact (EULOTLSource.checkVerified_eq_ok.1 hlist).1
    · obtain ⟨hwalk, ver, signer, hv', -⟩ := EULOTLSource.acceptWalked_eq_ok.1 hacc
      refine ⟨?_, fun _ => ⟨_, _, hwalk, _, hv'⟩⟩
      rintro ⟨r, hr⟩
      rw [hv] at hr
      cases hr
  · rintro ⟨hdirect, hwalked⟩
    cases hv : Tsl.verify rt clock raw.bytes signers with
    | ok r =>
        obtain ⟨ver, signer, lotl', hver, hsigner, hparse', hself⟩ := hdirect ⟨r, hv⟩
        obtain ⟨-, -, -, hr₂, hr₁⟩ := verifyWith_eq_ok.1 hv
        rw [hverified] at hver hr₁
        rw [hsigner] at hr₂
        cases hver
        rw [hparse] at hparse'
        cases hparse'
        obtain ⟨rfl, rfl⟩ : verified = r.1 ∧ signer = r.2 := ⟨Except.ok.inj hr₁, Except.ok.inj hr₂⟩
        refine ⟨⟨lotl, signers, max src.pivotSeq (maxPivot (advertisedPivots rt raw.bytes))⟩,
          EULOTLSource.verify_eq_ok.2
            ⟨hpre, signers, hpinned, .inl ⟨r.1, r.2, hv, EULOTLSource.acceptDirect_eq_ok.2 ?_⟩⟩⟩
        exact ⟨hlotl, hself, rfl, rfl⟩
    | error verr =>
        have hno : ¬ VerifiesUnder rt clock raw.bytes signers := by
          rintro ⟨r, hr⟩
          rw [hv] at hr
          cases hr
        obtain ⟨signers', last', hwalk, r, hr⟩ := hwalked hno
        have hr₁ := (verifyWith_eq_ok.1 hr).2.2.2.2
        rw [hverified] at hr₁
        refine ⟨⟨lotl, signers', last'⟩, EULOTLSource.verify_eq_ok.2
          ⟨hpre, signers, hpinned, .inr ⟨verr, hv, EULOTLSource.acceptWalked_eq_ok.2 ?_⟩⟩⟩
        exact ⟨hwalk, r.1, r.2, hr, Except.ok.inj hr₁ ▸ hlotl⟩

end TrustAnchor.Ingest
