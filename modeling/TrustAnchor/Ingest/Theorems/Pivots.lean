import TrustAnchor.Ingest.Lemmas.Grounded
import TrustAnchor.Ingest.Theorems.Rotation

/-!
# The pivot walk and accepting a list again
-/

namespace TrustAnchor.Ingest

open Lib Tsl Trust

variable {rt : Runtime}

/-! ## The walk as a chain -/

/-- The document is accepted as the pivot `seq` under `signers`, and `next` is its own set: it verifies at
the issue time that its verified content states, and its signer is in both sets. -/
structure AcceptedPivot (rt : Runtime) (raw : Bytes) (seq : Nat) (signers next : List Certificate)
    (signer : Certificate) (pre pivot : TrustedList) (verified : Bytes) (own : TSLPointer) : Prop where
  preParsed : parse rt raw = .ok pre
  verifies : verifyAt rt raw signers pivot.schemeInformation.listIssueDateTime = .ok (verified, signer)
  parsed : parse rt verified = .ok pivot
  issueTime : pivot.schemeInformation.listIssueDateTime = pre.schemeInformation.listIssueDateTime
  tslType : pivot.schemeInformation.tslType = tslTypeEUListOfTheLists
  sequence : pivot.schemeInformation.tslSequenceNumber = seq
  selfPointer : pivot.selfPointer = .ok own
  certificates : own.certificates rt = .ok next
  nonempty : next ≠ []
  signerBefore : certInSet signer signers
  signerAfter : certInSet signer next

theorem certInSet_of_verifyAt (hpins : PinsSigner rt) {raw verified : Bytes} {signers : List Certificate}
    {signer : Certificate} {time : Time} (h : verifyAt rt raw signers time = .ok (verified, signer)) :
    certInSet signer signers := by
  obtain ⟨-, -, hvalid, hsigner, -⟩ := verifyWith_eq_ok.1 h
  obtain ⟨c, hc, hraw⟩ := hpins.exists_mem hvalid hsigner
  exact List.any_eq_true.2 ⟨c, hc, decide_eq_true hraw⟩

theorem processPivot_eq_ok (hpins : PinsSigner rt) {seq : Nat} {raw : Bytes} {signers next : List Certificate} :
    processPivot rt seq raw signers = .ok next ↔
      ∃ signer pre pivot verified own, AcceptedPivot rt raw seq signers next signer pre pivot verified own := by
  simp only [processPivot, Result.bind_eq_ok, orPivotErr_eq_ok, Result.require_eq_ok]
  constructor
  · rintro ⟨pre, hpre, ⟨verified, signer⟩, hv, pivot, hp, -, htime, -, htype, -, hseq, self, hself, certs, hcerts,
      -, hne, -, hin, h⟩
    cases h
    exact ⟨signer, pre, pivot, verified, self, hpre, htime ▸ hv, hp, htime, htype, hseq, hself, hcerts, hne,
      certInSet_of_verifyAt hpins hv, hin⟩
  · rintro ⟨signer, pre, pivot, verified, own, h⟩
    exact ⟨pre, h.preParsed, (verified, signer), h.issueTime ▸ h.verifies, pivot, h.parsed, (), h.issueTime, (),
      h.tslType, (), h.sequence, own, h.selfPointer, next, h.certificates, (), h.nonempty, (), h.signerAfter, rfl⟩

/-- From `signers` after pivot `last`, the pivots of the references lead to `signers'` after pivot `last'`. -/
inductive PivotChain (rt : Runtime) (doc : PivotRef → Except Err Bytes) :
    List Certificate → Nat → List PivotRef → List Certificate → Nat → Prop
  | nil {signers last} : PivotChain rt doc signers last [] signers last
  | cons {signers last ref refs raw next signer pre pivot verified own signers' last'} :
      last < ref.seq → doc ref = .ok raw →
      AcceptedPivot rt raw ref.seq signers next signer pre pivot verified own →
      PivotChain rt doc next ref.seq refs signers' last' →
      PivotChain rt doc signers last (ref :: refs) signers' last'

/-- The references that a walk after pivot `last` consumes. -/
def unprocessed (last : Nat) : List PivotRef → List PivotRef
  | [] => []
  | ref :: refs => if ref.seq ≤ last then unprocessed last refs else ref :: unprocessed ref.seq refs

/-- The walk returns a set exactly if every reference that it has to consume is accepted in turn. -/
theorem walk_eq_ok (hpins : PinsSigner rt) {doc : PivotRef → Except Err Bytes} {refs : List PivotRef}
    {signers signers' : List Certificate} {last last' : Nat} :
    walk rt doc refs signers last = .ok (signers', last') ↔
      PivotChain rt doc signers last (unprocessed last refs) signers' last' := by
  induction refs generalizing signers last with
  | nil =>
      constructor
      · intro h
        cases h
        exact .nil
      · intro h
        cases h
        rfl
  | cons ref refs ih =>
      simp only [walk, unprocessed]
      split_ifs with hle
      · exact ih
      · constructor
        · intro h
          obtain ⟨raw, hraw, h⟩ := Result.bind_eq_ok.1 h
          obtain ⟨next, hnext, h⟩ := Result.bind_eq_ok.1 h
          obtain ⟨signer, pre, pivot, verified, own, hpivot⟩ := (processPivot_eq_ok hpins).1 hnext
          exact .cons (not_le.1 hle) hraw hpivot (ih.1 h)
        · intro h
          cases h with
          | cons hlt hraw hpivot hrest =>
              refine Result.bind_eq_ok.2 ⟨_, hraw, Result.bind_eq_ok.2 ⟨_, ?_, ih.2 hrest⟩⟩
              exact (processPivot_eq_ok hpins).2 ⟨_, _, _, _, _, hpivot⟩

theorem unprocessed_sublist (last : Nat) (refs : List PivotRef) : (unprocessed last refs).Sublist refs := by
  induction refs generalizing last with
  | nil => exact .slnil
  | cons ref refs ih =>
      unfold unprocessed
      split_ifs
      · exact (ih last).cons ref
      · exact (ih ref.seq).cons_cons ref

theorem unprocessed_increasing (last : Nat) (refs : List PivotRef) :
    (last :: (unprocessed last refs).map PivotRef.seq).Pairwise (· < ·) := by
  induction refs generalizing last with
  | nil => simp [unprocessed]
  | cons ref refs ih =>
      unfold unprocessed
      split_ifs with hle
      · exact ih last
      · have hrest := ih ref.seq
        refine List.pairwise_cons.2 ⟨fun seq hseq => ?_, hrest⟩
        rcases List.mem_cons.1 hseq with rfl | hseq
        · omega
        · have := (List.pairwise_cons.1 hrest).1 seq hseq
          omega

/-- In ascending order no sequence number is left out. -/
theorem mem_unprocessed {last : Nat} {refs : List PivotRef} (hsorted : refs.Pairwise fun a b => a.seq ≤ b.seq)
    {seq : Nat} : seq ∈ (unprocessed last refs).map PivotRef.seq ↔ seq ∈ refs.map PivotRef.seq ∧ last < seq := by
  induction refs generalizing last with
  | nil => simp [unprocessed]
  | cons ref refs ih =>
      obtain ⟨hmin, hsorted⟩ := List.pairwise_cons.1 hsorted
      have hge : seq ∈ refs.map PivotRef.seq → ref.seq ≤ seq := by
        intro h
        obtain ⟨r, hr, rfl⟩ := List.mem_map.1 h
        exact hmin r hr
      unfold unprocessed
      split_ifs with hle
      · rw [ih hsorted, List.map_cons, List.mem_cons]
        constructor
        · rintro ⟨h, hlt⟩
          exact ⟨.inr h, hlt⟩
        · rintro ⟨rfl | h, hlt⟩
          · omega
          · exact ⟨h, hlt⟩
      · rw [List.map_cons, List.mem_cons, ih hsorted, List.map_cons, List.mem_cons]
        constructor
        · rintro (rfl | ⟨h, hlt⟩)
          · exact ⟨.inl rfl, by omega⟩
          · exact ⟨.inr h, by omega⟩
        · rintro ⟨rfl | h, hlt⟩
          · exact .inl rfl
          · have := hge h
            by_cases heq : seq = ref.seq
            · exact .inl heq
            · exact .inr ⟨h, by omega⟩

theorem PivotChain.last {doc : PivotRef → Except Err Bytes} {refs : List PivotRef}
    {signers signers' : List Certificate} {last last' : Nat}
    (h : PivotChain rt doc signers last refs signers' last') :
    last' = (refs.map PivotRef.seq).getLastD last := by
  induction h with
  | nil => rfl
  | cons _ _ _ _ ih => rw [ih, List.map_cons, List.getLastD_cons]

namespace Symbolic

/-- Two pivots in a row: the first retires `C` for `N`, the second, signed by `N`, retires `A`. -/
def twoPivots : World where
  documents :=
    [⟨ofText "P", ofText "A", lotl 1 [] ["A", "N"] []⟩, ⟨ofText "Q", ofText "N", lotl 2 [] ["N"] []⟩]
  urls := [("https://eu/eu-lotl-pivot-1.xml", ⟨"https", "eu"⟩), ("https://eu/eu-lotl-pivot-2.xml", ⟨"https", "eu"⟩)]

end Symbolic

variable {src src' : EULOTLSource} {clock clock' : Time} {net net' : Network} {raw : Raw} {pinned : List Bytes}
  {signers : List Certificate} {f f' : Fetcher} {v : LOTLState}

/-- A list that was accepted is accepted again exactly if its signer is in its own self-pointer set, or it
was accepted without a walk: only then was that checked. -/
theorem verify_accepted_again_iff (h : (src.verify rt clock net raw pinned f).1 = .ok v)
    (hsigners : parseDERCerts rt pinned = .ok signers) (hseq : src'.pivotSeq = v.pivotSeq)
    (hunexpired : ∀ nu ∈ v.list.schemeInformation.nextUpdate, src'.now ≤ nu)
    (hverdict : rt.validateSignature clock' raw.bytes v.signers = rt.validateSignature clock raw.bytes v.signers) :
    (src'.verify rt clock' net' raw (certsDER v.signers) f').1 = .ok v ↔
      (¬ VerifiesUnder rt clock raw.bytes signers → SelfConsistent rt raw.bytes) := by
  obtain ⟨-, verified, signer, -, -, hparsed, hverify, hlist⟩ := EULOTLSource.verify_ok h
  obtain ⟨hpre, verified', lotl, hverified', hchecked⟩ := publishable_of_verify h
  obtain ⟨hne, hfind, hvalid, hsigner, hverified⟩ := verifyWith_eq_ok.1 hverify
  -- the set that the first acceptance left verifies the list
  have hunder : VerifiesUnder rt clock' raw.bytes v.signers :=
    ⟨(verified, signer), verifyWith_eq_ok.2 ⟨hne, hfind, hverdict.trans hvalid, hsigner, hverified⟩⟩
  have hpub : Publishable rt src' raw.bytes := by
    refine ⟨hpre, verified, v.list, hverified, EULOTLSource.checkVerified_eq_ok.2 ⟨hlist, ?_, hunexpired⟩⟩
    rw [hverified] at hverified'
    cases hverified'
    obtain ⟨hlotl, htype, -⟩ := EULOTLSource.checkVerified_eq_ok.1 hchecked
    rw [hlist] at hlotl
    cases hlotl
    exact htype
  have hcerts := parseDERCerts_certsDER hparsed
  have hagain : (src'.verify rt clock' net' raw (certsDER v.signers) f').1 = .ok v ↔ SelfConsistent rt raw.bytes := by
    constructor
    · intro hv
      exact ((verify_accepts_iff hpub hcerts).1 ⟨v, hv⟩).1 hunder
    · intro hself
      obtain ⟨v', hv'⟩ : ∃ v', (src'.verify rt clock' net' raw (certsDER v.signers) f').1 = .ok v' :=
        (verify_accepts_iff hpub hcerts).2 ⟨fun _ => hself, fun hno => absurd hunder hno⟩
      rw [hv', EULOTLSource.verify_again (signedList_of_verify hverify hlist) hparsed (EULOTLSource.verify_pivots h)
        hseq hv']
  rw [hagain]
  refine ⟨fun hself _ => hself, fun hwalked => ?_⟩
  by_cases hdirect : VerifiesUnder rt clock raw.bytes signers
  · exact ((verify_accepts_iff (publishable_of_verify h) hsigners).1 ⟨v, h⟩).1 hdirect
  · exact hwalked hdirect

namespace Symbolic

/-- Pivot 1 adds `N`. The list is signed by `N`, and its own self-pointer has only `A`. -/
def unadvertised : World where
  documents :=
    [⟨ofText "P", ofText "A", lotl 1 [] ["A", "N"] []⟩,
      ⟨ofText "0", ofText "N", lotl 2 ["https://eu/eu-lotl-pivot-1.xml"] ["A"] []⟩]
  urls := [("https://eu/eu-lotl-pivot-1.xml", ⟨"https", "eu"⟩)]

/-- What accepting the list from the bootstrap set leaves. -/
def walked : LOTLState :=
  ⟨lotl 2 ["https://eu/eu-lotl-pivot-1.xml"] ["A"] [], [certificate "A", certificate "N"], 1⟩

end Symbolic

open Symbolic in
/-- The list is accepted after the pivot walk, and the next cycle, which takes the direct branch, refuses
the same bytes. -/
theorem verify_accepted_again_unadvertised :
    (source.verify unadvertised.runtime 0 rotatingPages ⟨ofText "0", ""⟩ [ofText "A"] (newFetcher 100)).1 =
        .ok walked ∧
      ({ source with pivotSeq := walked.pivotSeq }.verify unadvertised.runtime 0 rotatingPages ⟨ofText "0", ""⟩
        (certsDER walked.signers) (newFetcher 100)).1.isOk = false := by
  decide +kernel

open Symbolic in
/-- A list whose self-pointer has its signer is accepted again. -/
theorem verify_accepted_again_rotated :
    ({ source with pivotSeq := rotated.pivotSeq }.verify rotating.runtime 0 rotatingPages ⟨ofText "0", ""⟩
      (certsDER rotated.signers) (newFetcher 100)).1 = .ok rotated := by
  have h : (source.verify rotating.runtime 0 rotatingPages ⟨ofText "0", ""⟩ [ofText "A", ofText "C"]
      (newFetcher 100)).1 = .ok rotated := by decide +kernel
  have hcerts : parseDERCerts rotating.runtime [ofText "A", ofText "C"] =
      .ok [certificate "A", certificate "C"] := by decide +kernel
  refine (verify_accepted_again_iff h hcerts rfl (by decide +kernel) rfl).2 fun _ => ?_
  exact ⟨ofText "0", certificate "N", lotl 2 ["https://eu/eu-lotl-pivot-1.xml"] ["A", "N"] [],
    by decide +kernel, by decide +kernel, by decide +kernel, by decide +kernel⟩

end TrustAnchor.Ingest
