import TrustAnchor.Ingest.Lemmas.Provenance
import TrustAnchor.Ingest.Lemmas.Rotation
import TrustAnchor.Ingest.Symbolic

/-!
# Rotation of the signers of the list of the lists
-/

namespace TrustAnchor.Ingest

open Lib Tsl Trust

/-! ## Earlier cycles and later lists -/

section Resume

variable {rt : Runtime}

/-- The pivots that the list advertises are served as `doc`. -/
def PivotsServed (rt : Runtime) (net : Network) (f : Fetcher) (raw : Bytes)
    (doc : PivotRef → Except Err Bytes) : Prop :=
  ∀ ref ∈ advertisedPivots rt raw, (fetchPivot rt net ref f).1 = doc ref

/-- Where the two lists advertise the same pivot, it is the same document, and every pivot of the
earlier list is advertised by the later one. -/
structure SamePivots (rt : Runtime) (raw₀ raw₁ : Bytes) (doc : PivotRef → Except Err Bytes) : Prop where
  document : ∀ r₀ ∈ advertisedPivots rt raw₀, ∀ r₁ ∈ advertisedPivots rt raw₁, r₀.seq = r₁.seq →
    ∀ b₀ b₁, doc r₀ = .ok b₀ → doc r₁ = .ok b₁ → b₀ = b₁
  advertised : ∀ r₀ ∈ advertisedPivots rt raw₀, ∃ r₁ ∈ advertisedPivots rt raw₁, r₁.seq = r₀.seq

variable {src₀ src : EULOTLSource} {clock₀ clock : Time} {net₀ net₁ net : Network} {raw₀ raw₁ : Raw}
  {pinned : List Bytes} {certs : List Certificate} {f₀ f₁ f : Fetcher} {v₀ v₁ : LOTLState}
  {doc : PivotRef → Except Err Bytes}

theorem walk_served {raw : Bytes} {g : Fetcher} {nt : Network} (h : PivotsServed rt nt g raw doc)
    (signers : List Certificate) (last : Nat) :
    walk rt (fun ref => (fetchPivot rt nt ref g).1) (advertisedPivots rt raw) signers last =
      walk rt doc (advertisedPivots rt raw) signers last :=
  walk_congr h signers last

/-- A list accepted from pivot 0 leaves the pinned set, or the set of the newest pivot it walked. -/
theorem verify_from_zero (hcerts : parseDERCerts rt pinned = .ok certs)
    (h : (src.verify rt clock net raw₁ pinned f).1 = .ok v₀) (hseq : src.pivotSeq = 0) :
    (VerifiesUnder rt clock raw₁.bytes certs ∧ v₀.signers = certs ∧
        v₀.pivotSeq = maxPivot (advertisedPivots rt raw₁.bytes)) ∨
      (¬ VerifiesUnder rt clock raw₁.bytes certs ∧ 0 < v₀.pivotSeq ∧
        walk rt (fun ref => (fetchPivot rt net ref f).1) (advertisedPivots rt raw₁.bytes) certs 0 =
          .ok (v₀.signers, v₀.pivotSeq)) := by
  obtain ⟨-, signers, hs, ⟨verified, signer, hv, hacc⟩ | ⟨verr, hv, hacc⟩⟩ :=
    EULOTLSource.verify_eq_ok.1 h
  · rw [hcerts] at hs
    cases hs
    obtain ⟨-, -, hsigners, hpivot⟩ := EULOTLSource.acceptDirect_eq_ok.1 hacc
    exact .inl ⟨⟨_, hv⟩, hsigners, by rw [hpivot, hseq, Nat.zero_max]⟩
  · rw [hcerts] at hs
    cases hs
    obtain ⟨hwalk, verified, signer, hv', -⟩ := EULOTLSource.acceptWalked_eq_ok.1 hacc
    have hno : ¬ VerifiesUnder rt clock raw₁.bytes certs := by
      rintro ⟨r, hr⟩
      rw [hv] at hr
      cases hr
    rw [hseq] at hwalk
    refine .inr ⟨hno, ?_, hwalk⟩
    rcases walk_last hwalk with ⟨heq, -⟩ | ⟨hlt, -⟩
    · -- the walk did not move, so the list would have verified directly
      exact absurd ⟨_, heq ▸ hv'⟩ hno
    · exact hlt

/-- A walk of the later list passes through the state that the earlier list's walk ended in. -/
theorem walk_catches_up (hsame : SamePivots rt raw₀.bytes raw₁.bytes doc)
    {signers₀ : List Certificate} {last₀ : Nat} (hpos : 0 < last₀)
    (h₀ : walk rt doc (advertisedPivots rt raw₀.bytes) certs 0 = .ok (signers₀, last₀))
    {r : List Certificate × Nat}
    (h₁ : walk rt doc (advertisedPivots rt raw₁.bytes) certs 0 = .ok r) :
    walk rt doc (advertisedPivots rt raw₁.bytes) signers₀ last₀ = .ok r := by
  rcases walk_last h₀ with ⟨-, rfl⟩ | ⟨-, r₀, hr₀, hseq₀, b₀, before₀, hdoc₀, hset₀⟩
  · exact absurd hpos (lt_irrefl _)
  · obtain ⟨r₁, hr₁, hseq₁⟩ := hsame.advertised r₀ hr₀
    refine walk_resume (advertisedPivots_sorted rt raw₁.bytes) ?_
      (.inr ⟨hpos, r₁, hr₁, hseq₁.trans hseq₀⟩) h₁
    intro ref href hrefseq b before next hdoc hnext
    obtain rfl := hsame.document r₀ hr₀ ref href (hseq₀.trans hrefseq.symm) b₀ b hdoc₀ hdoc
    exact processPivot_unique hnext hset₀

/-- An instance that accepted `raw₀` and continues from the state it left, against a fresh one that
accepts `raw₁` with the same bootstrap set. Without pivots in the first list, or when the bootstrap set
verifies both lists, it accepts too. When the first list was accepted through the pivot walk, it
accepts exactly if the set it holds, where that verifies the list, finds it self-consistent, and if a
list that only the bootstrap set verifies is reached by newer pivots. -/
theorem verify_resumed (hcerts : parseDERCerts rt pinned = .ok certs)
    (h₀ : (src₀.verify rt clock₀ net₀ raw₀ pinned f₀).1 = .ok v₀) (hseq₀ : src₀.pivotSeq = 0)
    (h₁ : (src.verify rt clock net₁ raw₁ pinned f₁).1 = .ok v₁) (hseq₁ : src.pivotSeq = 0)
    (hdoc₀ : PivotsServed rt net₀ f₀ raw₀.bytes doc) (hdoc₁ : PivotsServed rt net₁ f₁ raw₁.bytes doc)
    (hdoc : PivotsServed rt net f raw₁.bytes doc) (hsame : SamePivots rt raw₀.bytes raw₁.bytes doc) :
    let resumed := ({ src with pivotSeq := v₀.pivotSeq }.verify rt clock net raw₁
      (certsDER v₀.signers) f).1
    (maxPivot (advertisedPivots rt raw₀.bytes) = 0 → ∃ v, resumed = .ok v) ∧
    (VerifiesUnder rt clock₀ raw₀.bytes certs → VerifiesUnder rt clock raw₁.bytes certs →
      ∃ v, resumed = .ok v) ∧
    (¬ VerifiesUnder rt clock₀ raw₀.bytes certs →
      ((∃ v, resumed = .ok v) ↔
        (VerifiesUnder rt clock raw₁.bytes v₀.signers → SelfConsistent rt raw₁.bytes) ∧
        (¬ VerifiesUnder rt clock raw₁.bytes v₀.signers → VerifiesUnder rt clock raw₁.bytes certs →
          ∃ signers last, walk rt doc (advertisedPivots rt raw₁.bytes) v₀.signers v₀.pivotSeq =
            .ok (signers, last) ∧ VerifiesUnder rt clock raw₁.bytes signers))) := by
  intro resumed
  have hpub : Publishable rt src raw₁.bytes := publishable_of_verify h₁
  -- the pivot progress of the source has no part in what is publishable
  have hpub' : Publishable rt { src with pivotSeq := v₀.pivotSeq } raw₁.bytes := hpub
  obtain ⟨-, -, -, -, -, hparsed₀, -⟩ := EULOTLSource.verify_ok h₀
  have hresumed : (∃ v, resumed = .ok v) ↔ _ := verify_accepts_iff hpub' (parseDERCerts_certsDER hparsed₀)
  have hfresh := (verify_accepts_iff hpub hcerts).1 ⟨v₁, h₁⟩
  rw [hseq₁, walk_served hdoc₁] at hfresh
  rw [walk_served hdoc] at hresumed
  rcases verify_from_zero hcerts h₀ hseq₀ with ⟨hdirect, hsigners, hpivot⟩ | ⟨hwalked, hpos, hwalk⟩
  · refine ⟨?_, ?_, fun hno => absurd hdirect hno⟩
    · intro hnone
      rw [hresumed, hsigners, hpivot, hnone]
      exact hfresh
    · intro _ hv
      rw [hresumed, hsigners]
      exact ⟨fun _ => hfresh.1 hv, fun hno => absurd hv hno⟩
  · rw [walk_served hdoc₀] at hwalk
    refine ⟨?_, fun hdirect => absurd hdirect hwalked, fun _ => ?_⟩
    · intro hnone
      -- a walk that moved has a pivot to end in
      rcases walk_last hwalk with ⟨-, hlast⟩ | ⟨-, ref, href, hrefseq, -⟩
      · omega
      · have := le_maxPivot (advertisedPivots_sorted rt raw₀.bytes) href
        omega
    · rw [hresumed]
      refine and_congr_right fun _ => ⟨fun h hno _ => h hno, fun h hno => ?_⟩
      by_cases hv : VerifiesUnder rt clock raw₁.bytes certs
      · exact h hno hv
      · obtain ⟨signers, last, hwalk₁, hv₁⟩ := hfresh.2 hv
        exact ⟨signers, last, walk_catches_up hsame hpos hwalk hwalk₁, hv₁⟩

end Resume

namespace Symbolic

/-- The bootstrap set is `A` and `C`. Pivot 1, signed by `A`, retires `C` for `N`. -/
def rotating : World where
  documents :=
    [⟨ofText "P", ofText "A", lotl 1 [] ["A", "N"] []⟩,
      ⟨ofText "0", ofText "N", lotl 2 ["https://eu/eu-lotl-pivot-1.xml"] ["A", "N"] []⟩,
      ⟨ofText "1", ofText "C", lotl 3 ["https://eu/eu-lotl-pivot-1.xml"] ["C"] []⟩,
      ⟨ofText "2", ofText "N", lotl 3 ["https://eu/eu-lotl-pivot-1.xml"] ["N"] []⟩]
  urls := [("https://eu/eu-lotl-pivot-1.xml", ⟨"https", "eu"⟩)]

def rotatingPages : Network := network [("https://eu/eu-lotl-pivot-1.xml", ofText "P")]

/-- The certificate with the given bytes, as the runtime parses it. -/
def certificate (s : String) : Certificate :=
  { subject := "", commonName := "", notBefore := 0, notAfter := 0, raw := ofText s }

def source : EULOTLSource := { url := "", now := 0 }

/-- What accepting the list `0` from the bootstrap set leaves. -/
def rotated : LOTLState :=
  ⟨lotl 2 ["https://eu/eu-lotl-pivot-1.xml"] ["A", "N"] [], [certificate "A", certificate "N"], 1⟩

theorem rotating_pivots (n : String)
    (h : advertisedPivots rotating.runtime (ofText n) = [⟨"https://eu/eu-lotl-pivot-1.xml", 1⟩])
    (doc : PivotRef → Except Err Bytes) :
    SamePivots rotating.runtime (ofText "0") (ofText n) doc := by
  have h₀ : advertisedPivots rotating.runtime (ofText "0") = [⟨"https://eu/eu-lotl-pivot-1.xml", 1⟩] := by
    decide +kernel
  constructor
  · rw [h₀, h]
    simp only [List.mem_singleton]
    rintro r₀ rfl r₁ rfl - b₀ b₁ hb₀ hb₁
    rw [hb₀] at hb₁
    exact Except.ok.inj hb₁
  · rw [h₀, h]
    exact fun r₀ hr₀ => ⟨r₀, hr₀, rfl⟩

end Symbolic

open Symbolic in
/-- A fresh install accepts a list signed by `C`; an instance that walked the pivot has retired `C` and
does not. -/
theorem verify_resumed_retired :
    let doc := fun ref => (fetchPivot rotating.runtime rotatingPages ref (newFetcher 100)).1
    (source.verify rotating.runtime 0 rotatingPages ⟨ofText "0", ""⟩ [ofText "A", ofText "C"]
      (newFetcher 100)).1 = .ok rotated ∧
    (∃ v₁, (source.verify rotating.runtime 0 rotatingPages ⟨ofText "1", ""⟩ [ofText "A", ofText "C"]
      (newFetcher 100)).1 = .ok v₁) ∧
    PivotsServed rotating.runtime rotatingPages (newFetcher 100) (ofText "0") doc ∧
    PivotsServed rotating.runtime rotatingPages (newFetcher 100) (ofText "1") doc ∧
    SamePivots rotating.runtime (ofText "0") (ofText "1") doc ∧
    ¬ ∃ v, ({ source with pivotSeq := rotated.pivotSeq }.verify rotating.runtime 0 rotatingPages
      ⟨ofText "1", ""⟩ (certsDER rotated.signers) (newFetcher 100)).1 = .ok v := by
  refine ⟨by decide +kernel, ⟨⟨lotl 3 ["https://eu/eu-lotl-pivot-1.xml"] ["C"] [],
    [certificate "A", certificate "C"], 1⟩, by decide +kernel⟩, fun _ _ => rfl, fun _ _ => rfl,
    rotating_pivots "1" (by decide +kernel) _, ?_⟩
  rintro ⟨v, hv⟩
  have hfails : ({ source with pivotSeq := rotated.pivotSeq }.verify rotating.runtime 0 rotatingPages
      ⟨ofText "1", ""⟩ (certsDER rotated.signers) (newFetcher 100)).1.isOk = false := by decide +kernel
  rw [hv] at hfails
  cases hfails

open Symbolic in
/-- A list signed by the certificate that the pivot added is accepted by both. -/
theorem verify_resumed_rotated :
    ∃ v, ({ source with pivotSeq := rotated.pivotSeq }.verify rotating.runtime 0 rotatingPages
      ⟨ofText "2", ""⟩ (certsDER rotated.signers) (newFetcher 100)).1 = .ok v := by
  have hcerts : parseDERCerts rotating.runtime [ofText "A", ofText "C"] =
      .ok [certificate "A", certificate "C"] := by decide +kernel
  have h₀ : (source.verify rotating.runtime 0 rotatingPages ⟨ofText "0", ""⟩ [ofText "A", ofText "C"]
      (newFetcher 100)).1 = .ok rotated := by decide +kernel
  have h₁ : (source.verify rotating.runtime 0 rotatingPages ⟨ofText "2", ""⟩ [ofText "A", ofText "C"]
      (newFetcher 100)).1 = .ok ⟨lotl 3 ["https://eu/eu-lotl-pivot-1.xml"] ["N"] [],
        [certificate "A", certificate "N"], 1⟩ := by decide +kernel
  have hserved (n : String) : PivotsServed rotating.runtime rotatingPages (newFetcher 100) (ofText n)
      fun ref => (fetchPivot rotating.runtime rotatingPages ref (newFetcher 100)).1 := fun _ _ => rfl
  have hno : ¬ VerifiesUnder rotating.runtime 0 (ofText "0") [certificate "A", certificate "C"] := by
    rintro ⟨r, hr⟩
    have hfails : (Tsl.verify rotating.runtime 0 (ofText "0")
      [certificate "A", certificate "C"]).isOk = false := by decide +kernel
    rw [hr] at hfails
    cases hfails
  have hresumed := verify_resumed hcerts h₀ rfl h₁ rfl (hserved "0") (hserved "2") (hserved "2")
    (rotating_pivots "2" (by decide +kernel) _)
  refine (hresumed.2.2 hno).2 ⟨fun _ => ?_, fun hno' => absurd ?_ hno'⟩
  · exact ⟨ofText "2", certificate "N", lotl 3 ["https://eu/eu-lotl-pivot-1.xml"] ["N"] [],
      by decide +kernel, by decide +kernel, by decide +kernel, by decide +kernel⟩
  · exact ⟨(ofText "2", certificate "N"), by decide +kernel⟩

/-! ## Signer set and pivot progress -/

section InStep

variable {rt : Runtime} {cfg : Config} {cy : Cycle} {prev : Option Snapshot} {boot : Bootstrap}
  {f f' : Fetcher}

/-- The pinned set verifies the downloaded list, and the list advertises a pivot that was not processed. -/
def skipsPivot (rt : Runtime) (cfg : Config) (boot : Bootstrap) (cy : Cycle) (prev : Option Snapshot)
    (f : Fetcher) : Bool :=
  match (fetchLOTL rt cfg cy prev f).1, pinnedSigners rt prev boot with
  | .ok raw, .ok (pinned, seq) =>
    match parseDERCerts rt pinned with
    | .ok signers => (Tsl.verify rt (cy.clock .lotl) raw.bytes signers).isOk &&
        decide (seq < maxPivot (advertisedPivots rt raw.bytes))
    | .error _ => false
  | _, _ => false

/-- Pivot progress that has moved comes with the set that the pivot advertises. -/
def InStep (rt : Runtime) (boot : Bootstrap) (seq : Nat) (signersDER : List Bytes) : Prop :=
  seq ≠ 0 → ∃ certs before set, bootstrapCertificates rt boot = .ok certs ∧ SignersFrom rt certs before ∧
    VerifiedPivot rt before seq set ∧ signersDER = certsDER set

/-- A signature validates only under a set that holds the certificate it names. -/
def PinsSigner (rt : Runtime) : Prop :=
  ∀ clock raw signers der, rt.validateSignature clock raw signers = none →
    rt.keyInfoCertificate raw = .ok der → ∃ c ∈ signers, c.raw = der

theorem PinsSigner.exists_mem (hpins : PinsSigner rt) {clock : Time} {raw : Bytes} {signers : List Certificate}
    {signer : Certificate} (hvalid : rt.validateSignature clock raw signers = none)
    (hsigner : signerCertificate rt raw = .ok signer) : ∃ c ∈ signers, c.raw = signer.raw := by
  unfold signerCertificate at hsigner
  split at hsigner
  · cases hsigner
  · rename_i der hder
    split at hsigner
    · cases hsigner
    · rename_i cert hcert
      cases hsigner
      rw [parseCertificate_raw hcert]
      exact hpins _ _ _ _ hvalid hder

theorem maxPivot_le_of_not_skipsPivot (h : skipsPivot rt cfg boot cy prev f = false) {raw : Raw}
    {g : Fetcher} (hraw : fetchLOTL rt cfg cy prev f = (.ok raw, g)) {pinned : List Bytes} {seq : Nat}
    (hpinned : pinnedSigners rt prev boot = .ok (pinned, seq)) {signers : List Certificate}
    (hsigners : parseDERCerts rt pinned = .ok signers) {r : Bytes × Certificate}
    (hv : Tsl.verify rt (cy.clock .lotl) raw.bytes signers = .ok r) :
    maxPivot (advertisedPivots rt raw.bytes) ≤ seq := by
  simpa [skipsPivot, hraw, hpinned, hsigners, hv, Except.isOk, Except.toBool] using h

theorem pinnedSigners_inStep {pinned : List Bytes} {seq : Nat}
    (hprev : ∀ p ∈ prev, InStep rt boot p.lotlPivotSeq p.lotlSignersDER)
    (h : pinnedSigners rt prev boot = .ok (pinned, seq)) : InStep rt boot seq pinned := by
  unfold pinnedSigners at h
  split at h
  · rename_i p hp
    cases h
    exact hprev p (Option.filter_eq_some_iff.1 hp).1
  · obtain ⟨certs, -, h⟩ := Result.bind_eq_ok.1 h
    cases h
    exact fun hne => absurd rfl hne

/-- The accepted list is signed from the set that goes with the pivot progress. -/
theorem ingestLOTL_signer (hpins : PinsSigner rt) {raw : Raw} {g : Fetcher} {res : LOTLResult}
    (hraw : fetchLOTL rt cfg cy prev f = (.ok raw, g))
    (h : ingestLOTL rt cfg cy prev boot f = (.ok res, f')) {signer : Certificate}
    (hsigner : signerCertificate rt raw.bytes = .ok signer) : signer.raw ∈ res.signersDER := by
  obtain ⟨p, e, g', -, herr, -⟩ | ⟨raw', g', pinned, seq, v, hraw', -, hv, rfl⟩ := ingestLOTL_ok h
  · rw [hraw] at herr
    cases herr
  · rw [hraw] at hraw'
    cases hraw'
    obtain ⟨-, verified, signer', -, -, -, hverify, -⟩ := EULOTLSource.verify_ok hv
    obtain ⟨-, -, hvalid, -, -⟩ := verifyWith_eq_ok.1 hverify
    obtain ⟨c, hc, hraw⟩ := hpins.exists_mem hvalid hsigner
    rw [← hraw]
    exact List.mem_map_of_mem hc

theorem ingestLOTL_inStep (hfrom : ∀ p ∈ prev, SnapshotFrom rt boot p)
    (hprev : ∀ p ∈ prev, InStep rt boot p.lotlPivotSeq p.lotlSignersDER)
    (hskip : skipsPivot rt cfg boot cy prev f = false) {res : LOTLResult}
    (h : ingestLOTL rt cfg cy prev boot f = (.ok res, f')) :
    InStep rt boot res.pivotSeq res.signersDER := by
  obtain ⟨p, -, -, rfl, -, rfl⟩ | ⟨raw, g, pinned, seq, v, hraw, hpinned, hv, rfl⟩ := ingestLOTL_ok h
  · exact hprev p rfl
  · have hstart := pinnedSigners_inStep hprev hpinned
    obtain ⟨-, signers, hsigners, ⟨verified, signer, hverify, hacc⟩ | ⟨verr, -, hacc⟩⟩ :=
      EULOTLSource.verify_eq_ok.1 hv
    · obtain ⟨-, -, hset, hseq⟩ := EULOTLSource.acceptDirect_eq_ok.1 hacc
      have hle := maxPivot_le_of_not_skipsPivot hskip hraw hpinned hsigners hverify
      simp only [freshLOTL, hset, hseq, max_eq_left hle, certsDER_of_parseDERCerts hsigners]
      exact hstart
    · obtain ⟨hwalk, -⟩ := EULOTLSource.acceptWalked_eq_ok.1 hacc
      obtain ⟨-, ⟨hset, hseq⟩ | ⟨before, hbefore, hpivot, -⟩⟩ := walk_ok hwalk
      · simp only [freshLOTL, hset, hseq, certsDER_of_parseDERCerts hsigners]
        exact hstart
      · obtain ⟨certs, start, hcerts, hreach, hparsed, rfl⟩ := pinnedSigners_from hfrom hpinned
        rw [parseDERCerts_certsDER hparsed] at hsigners
        cases hsigners
        exact fun _ => ⟨certs, before, v.signers, hcerts, hreach.trans hbefore, hpivot, rfl⟩

theorem inStep_stable (rt : Runtime) (cfg : Config) :
    Stable rt cfg (fun b cy prev f => skipsPivot rt cfg b cy prev f = false)
      (fun b s => SnapshotFrom rt b s ∧ InStep rt b s.lotlPivotSeq s.lotlSignersDER) where
  sameUpstream heq h :=
    ⟨h.1.sameUpstream heq, by rw [heq.lotlPivotSeq, heq.lotlSignersDER]; exact h.2⟩
  cycle hprev hskip h := by
    refine ⟨refresh_from (fun p hp => (hprev p hp).1) h, ?_⟩
    obtain ⟨res, f₁, outs, hres, -, -, -, rfl⟩ := refresh_ok h
    simpa using ingestLOTL_inStep (fun p hp => (hprev p hp).1) (fun p hp => (hprev p hp).2) hskip hres
  approve h hpa := ⟨h.1.approve hpa, h.2⟩

/-- In every run in which no cycle skips a pivot, the signer set of what is served is that of the last
processed pivot, and so it is for the next list that is accepted, whose signer is in the set. -/
theorem lotlSigners_inStep (hpins : PinsSigner rt) (ops : List (Config × Op)) (maxSize : Int)
    (hops : CyclesMeet rt (fun cfg b cy prev f => skipsPivot rt cfg b cy prev f = false) ops
      (Service.empty maxSize))
    (s : Snapshot) (hs : ((Service.empty maxSize).run rt ops).active = some s) :
    ∃ boot, ((Service.empty maxSize).run rt ops).store.bootstrap = some boot ∧
      InStep rt boot s.lotlPivotSeq s.lotlSignersDER ∧
      ∀ cfg cy f raw g res f', skipsPivot rt cfg boot cy (some s) f = false →
        fetchLOTL rt cfg cy (some s) f = (.ok raw, g) →
        ingestLOTL rt cfg cy (some s) boot f = (.ok res, f') →
        InStep rt boot res.pivotSeq res.signersDER ∧
          ∀ signer, signerCertificate rt raw.bytes = .ok signer → signer.raw ∈ res.signersDER := by
  obtain ⟨boot, hboot, hfrom, hstep⟩ := (Holds.run (inStep_stable rt) (.empty maxSize) hops).active s hs
  refine ⟨boot, hboot, hstep, fun cfg cy f raw g res f' hskip hraw hres => ⟨?_, fun signer => ?_⟩⟩
  · exact ingestLOTL_inStep (by simpa using hfrom) (by simpa using hstep) hskip hres
  · exact ingestLOTL_signer hpins hraw hres

end InStep

namespace Symbolic

/-- The bootstrap set is `A` and `C`. The list is first signed by `C`, then by `N`; pivot 2, signed by
`A`, retires `C` for `N`. -/
def retiring : World where
  documents :=
    [⟨ofText "P", ofText "A", lotl 2 [] ["A", "N"] []⟩,
      ⟨ofText "0", ofText "C", lotl 1 [] ["C"] [pointer "EE" "" "https://ee/tl.xml" ["S"]]⟩,
      ⟨ofText "1", ofText "C", lotl 3 ["https://eu/eu-lotl-pivot-2.xml"] ["C"]
        [pointer "EE" "" "https://ee/tl.xml" ["S"]]⟩,
      ⟨ofText "2", ofText "N", lotl 3 ["https://eu/eu-lotl-pivot-2.xml"] ["A", "N"]
        [pointer "EE" "" "https://ee/tl.xml" ["S"]]⟩,
      ⟨ofText "T", ofText "S", national "EE" 1 (some 100) ["K"]⟩]
  urls := [("https://eu/lotl.xml", ⟨"https", "eu"⟩), ("https://ee/tl.xml", ⟨"https", "ee"⟩),
    ("https://eu/eu-lotl-pivot-2.xml", ⟨"https", "eu"⟩)]

/-- The pages while the list of the lists has the issue `n`. -/
def retiringPages (n : String) : List (String × Bytes) :=
  [("https://eu/lotl.xml", ofText n), ("https://ee/tl.xml", ofText "T"),
    ("https://eu/eu-lotl-pivot-2.xml", ofText "P")]

theorem World.pinsSigner (w : World) : PinsSigner w.runtime := by
  intro clock raw signers der hvalid hder
  simp only [runtime, validate] at hvalid hder
  cases hd : w.find raw with
  | error e => simp [hd] at hvalid
  | ok d =>
      simp only [hd, Except.map, Except.ok.injEq] at hder
      subst hder
      simpa [hd] using hvalid

end Symbolic

open Symbolic in
/-- The list `1` is accepted under the bootstrap set, which is kept, while the pivot counts as processed. -/
theorem lotlSigners_inStep_skipped :
    ∃ s, (retiring.run (config ["EE"] .auto 0)
        [install ["A", "C"], Symbolic.refresh 5 (retiringPages "1")]).active = some s ∧
      s.lotlPivotSeq = 2 ∧ s.lotlSignersDER = [ofText "A", ofText "C"] ∧
      ∀ before set, VerifiedPivot retiring.runtime before 2 set → s.lotlSignersDER ≠ certsDER set := by
  have hrun : (retiring.run (config ["EE"] .auto 0)
      [install ["A", "C"], Symbolic.refresh 5 (retiringPages "1")]).active.any fun s =>
        s.lotlPivotSeq = 2 ∧ s.lotlSignersDER = [ofText "A", ofText "C"] := by decide +kernel
  obtain ⟨s, hs, h⟩ := (Option.any_eq_true _ _).1 hrun
  obtain ⟨hseq, hsigners⟩ := of_decide_eq_true h
  refine ⟨s, hs, hseq, hsigners, ?_⟩
  rintro before set ⟨raw, time, verified, signer, pivot, self, -, hparse, htype, hpseq, hself, hcerts⟩
  -- the document `P` is the only one that is the pivot
  have hpivot : pivot = lotl 2 [] ["A", "N"] [] := by
    have hall : ∀ tl ∈ retiring.documents.map Document.list,
        tl.schemeInformation.tslSequenceNumber = 2 → tl = lotl 2 [] ["A", "N"] [] := by decide +kernel
    exact hall pivot (World.parse_mem hparse) hpseq
  have hset : (pivot.selfPointer >>= fun self => self.certificates retiring.runtime) =
      .ok [certificate "A", certificate "N"] := by
    rw [hpivot]
    decide +kernel
  rw [hself, Result.ok_bind, hcerts] at hset
  cases hset
  rw [hsigners]
  decide +kernel

open Symbolic in
/-- After the list `0`, the list `2` is accepted through the pivot. -/
theorem lotlSigners_inStep_walked :
    let run := retiring.run (config ["EE"] .auto 0)
      [install ["A", "C"], Symbolic.refresh 5 (retiringPages "0"), Symbolic.refresh 6 (retiringPages "2")]
    ∃ s, run.active = some s ∧ s.lotlPivotSeq = 2 ∧ s.lotlSignersDER = [ofText "A", ofText "N"] ∧
      ∃ boot, run.store.bootstrap = some boot ∧
        InStep retiring.runtime boot s.lotlPivotSeq s.lotlSignersDER := by
  intro run
  have hmeets : CyclesMeet retiring.runtime
      (fun cfg b cy prev f => skipsPivot retiring.runtime cfg b cy prev f = false)
      ([install ["A", "C"], Symbolic.refresh 5 (retiringPages "0"),
        Symbolic.refresh 6 (retiringPages "2")].map fun op => (config ["EE"] .auto 0, op))
      (Service.empty 100) := by decide +kernel
  have hrun : run.active.any fun s =>
      s.lotlPivotSeq = 2 ∧ s.lotlSignersDER = [ofText "A", ofText "N"] := by decide +kernel
  obtain ⟨s, hs, h⟩ := (Option.any_eq_true _ _).1 hrun
  obtain ⟨hseq, hsigners⟩ := of_decide_eq_true h
  obtain ⟨boot, hboot, hstep, -⟩ :=
    lotlSigners_inStep retiring.pinsSigner _ _ hmeets s hs
  exact ⟨s, hs, hseq, hsigners, boot, hboot, hstep⟩

end TrustAnchor.Ingest
