import TrustAnchor.Ingest.Lemmas.Fetching
import TrustAnchor.Ingest.Provenance

/-!
# What a source accepts

One statement for each function of the two sources: what a success passed through. The pivot walk is
first brought into a form without the fetcher, over the documents it is served.
-/

namespace TrustAnchor.Ingest

open Lib Tsl Trust

variable {rt : Runtime}

@[simp] theorem orErr_eq_ok {α : Type} {before : String} {x : Except Err α} {a : α} :
    orErr before x = .ok a ↔ x = .ok a := by
  cases x <;> simp [orErr]

@[simp] theorem orPivotErr_eq_ok {α : Type} {seq : Nat} {what : String} {x : Except Err α} {a : α} :
    orPivotErr seq what x = .ok a ↔ x = .ok a := by
  cases x <;> simp [orPivotErr]

/-! ## Certificates keep the bytes they are parsed from -/

/-- Every certificate of the set is what the parser makes of its own bytes. -/
def Parsed (rt : Runtime) (certs : List Certificate) : Prop :=
  ∀ c ∈ certs, rt.parseCertificate c.raw = .ok c

theorem parseCertificate_raw {der : Bytes} {c : Certificate} (h : rt.parseCertificate der = .ok c) :
    c.raw = der := by
  unfold Runtime.parseCertificate at h
  split at h
  · cases h
    rfl
  · cases h

theorem parseDERCerts_certsDER {certs : List Certificate} (h : Parsed rt certs) :
    parseDERCerts rt (certsDER certs) = .ok certs := by
  refine Result.mapM_eq_ok.2 ?_
  rw [certsDER, List.forall₂_map_left_iff]
  exact List.forall₂_same.2 h

theorem parseDERCerts_parsed {ders : List Bytes} {certs : List Certificate}
    (h : parseDERCerts rt ders = .ok certs) : Parsed rt certs := by
  intro c hc
  obtain ⟨der, -, hder⟩ := Result.exists_of_mapM_ok h hc
  rw [parseCertificate_raw hder]
  exact hder

theorem certsDER_of_parseDERCerts {ders : List Bytes} {certs : List Certificate}
    (h : parseDERCerts rt ders = .ok certs) : certsDER certs = ders := by
  have hall := Result.mapM_eq_ok.1 h
  clear h
  induction hall with
  | nil => rfl
  | cons hc _ ih => simpa [certsDER, parseCertificate_raw hc] using ih

/-- The parser's error text is all that `Bootstrap.Certificates` adds to `parseDERCerts`. -/
theorem bootstrapCertificates_eq_ok {boot : Bootstrap} {certs : List Certificate} :
    bootstrapCertificates rt boot = .ok certs ↔ parseDERCerts rt boot.certsDER = .ok certs := by
  simp [bootstrapCertificates, parseDERCerts, Result.mapM_eq_ok]

theorem pointer_certificates_parsed {ptr : TSLPointer} {certs : List Certificate}
    (h : ptr.certificates rt = .ok certs) : Parsed rt certs := by
  obtain ⟨sets, hsets, hcerts⟩ := Result.bind_eq_ok.1 h
  cases hcerts
  intro c hc
  obtain ⟨set, hset, hc⟩ := List.mem_flatten.1 hc
  obtain ⟨sdi, -, hsdi⟩ := Result.exists_of_mapM_ok hsets hset
  obtain ⟨ders, -, hset⟩ := Result.bind_eq_ok.1 hsdi
  obtain ⟨der, -, hder⟩ := Result.exists_of_mapM_ok hset hc
  split at hder
  · rename_i c' hc'
    cases hder
    rw [parseCertificate_raw hc']
    exact hc'
  · cases hder

/-! ## Pivots -/

theorem processPivot_ok {seq : Nat} {raw : Bytes} {signers next : List Certificate}
    (h : processPivot rt seq raw signers = .ok next) :
    VerifiedPivot rt signers seq next ∧ next ≠ [] ∧ Parsed rt next := by
  simp only [processPivot, Result.bind_eq_ok, orPivotErr_eq_ok, Result.require_eq_ok] at h
  obtain ⟨pre, -, ⟨verified, signer⟩, hv, pivot, hp, -, -, -, htype, -, hseq, self, hself, certs, hcerts,
    -, hne, -, -, h⟩ := h
  cases h
  exact ⟨⟨raw, _, verified, signer, pivot, self, hv, hp, htype, hseq, hself, hcerts⟩, hne,
    pointer_certificates_parsed hcerts⟩

/-- The walk over documents already at hand. -/
def walk (rt : Runtime) (doc : PivotRef → Except Err Bytes) :
    List PivotRef → List Certificate → Nat → Except Err (List Certificate × Nat)
  | [], signers, last => .ok (signers, last)
  | ref :: refs, signers, last =>
    if ref.seq ≤ last then walk rt doc refs signers last
    else do
      let raw ← doc ref
      let next ← processPivot rt ref.seq raw signers
      walk rt doc refs next ref.seq

/-- The walk's answer is that of the walk over the documents that the fetcher is served at its start. -/
theorem walkPivots_fst (net : Network) (refs : List PivotRef) (signers : List Certificate) (last : Nat)
    (f : Fetcher) : (walkPivots rt net refs signers last f).1 =
      walk rt (fun ref => (fetchPivot rt net ref f).1) refs signers last := by
  induction refs generalizing signers last f with
  | nil => rfl
  | cons ref refs ih =>
      simp only [walkPivots, walk]
      split
      · exact ih ..
      · have hrules : (fetchPivot rt net ref f).2.PivotRules f := Fetcher.fetchPivot_pivotRules ..
        rw [Fallible.bind_run]
        rcases hraw : fetchPivot rt net ref f with ⟨e | raw, f₁⟩
        · rfl
        · rw [hraw] at hrules
          have hdoc : (fun ref => (fetchPivot rt net ref f₁).1) = fun ref => (fetchPivot rt net ref f).1 :=
            funext fun ref' => Fetcher.fetchPivot_fst net ref' hrules
          cases hnext : processPivot rt ref.seq raw signers with
          | error e => simp [hnext]
          | ok next => simp [hnext, ih, hdoc]

/-- A walk either processed no pivot or ended in the set of the newest one it processed. -/
theorem walk_ok {doc : PivotRef → Except Err Bytes} {refs : List PivotRef}
    {signers signers' : List Certificate} {last last' : Nat}
    (h : walk rt doc refs signers last = .ok (signers', last')) :
    SignersFrom rt signers signers' ∧
      ((signers' = signers ∧ last' = last) ∨
        ∃ before, SignersFrom rt signers before ∧ VerifiedPivot rt before last' signers' ∧
          Parsed rt signers') := by
  induction refs generalizing signers last with
  | nil =>
      cases h
      exact ⟨.refl, .inl ⟨rfl, rfl⟩⟩
  | cons ref refs ih =>
      simp only [walk] at h
      split at h
      · exact ih h
      · obtain ⟨raw, -, h⟩ := Result.bind_eq_ok.1 h
        obtain ⟨next, hnext, h⟩ := Result.bind_eq_ok.1 h
        obtain ⟨hpivot, -, hparsed⟩ := processPivot_ok hnext
        obtain ⟨hreach, hlast⟩ := ih h
        refine ⟨.head ⟨_, hpivot⟩ hreach, .inr ?_⟩
        rcases hlast with ⟨rfl, rfl⟩ | ⟨before, hbefore, hp⟩
        · exact ⟨signers, .refl, hpivot, hparsed⟩
        · exact ⟨before, .head ⟨_, hpivot⟩ hbefore, hp⟩

/-! ## The list of the lists -/

/-- The pivots that unverified bytes advertise. -/
def advertisedPivots (rt : Runtime) (raw : Bytes) : List PivotRef :=
  match parse rt raw with
  | .ok pre => pivotRefs rt pre.schemeInformation.schemeInformationURI
  | .error _ => []

namespace EULOTLSource

variable {s : EULOTLSource}

theorem checkVerified_eq_ok {verified : Bytes} {lotl : TrustedList} :
    s.checkVerified rt verified = .ok lotl ↔ parse rt verified = .ok lotl ∧
      lotl.schemeInformation.tslType = tslTypeEUListOfTheLists ∧
      ∀ nu ∈ lotl.schemeInformation.nextUpdate, s.now ≤ nu := by
  simp only [checkVerified, Result.bind_eq_ok, orErr_eq_ok, Result.require_eq_ok]
  constructor
  · rintro ⟨lotl', hp, -, htype, -, hnu, h⟩
    cases h
    exact ⟨hp, htype, hnu⟩
  · rintro ⟨hp, htype, hnu⟩
    exact ⟨lotl, hp, (), htype, (), hnu, rfl⟩

/-- What `Verify` accepts: a list that verifies under the pinned set and is self-consistent, or one
that fails under it and verifies under the set a pivot walk ends in. -/
theorem verify_eq_ok {clock : Time} {net : Network} {raw : Raw} {pinned : List Bytes} {f : Fetcher}
    {v : LOTLState} :
    (s.verify rt clock net raw pinned f).1 = .ok v ↔
      (∃ pre, parse rt raw.bytes = .ok pre) ∧ ∃ signers, parseDERCerts rt pinned = .ok signers ∧
        ((∃ verified signer, Tsl.verify rt clock raw.bytes signers = .ok (verified, signer) ∧
            s.acceptDirect rt (advertisedPivots rt raw.bytes) signers verified signer = .ok v) ∨
          (∃ verr, Tsl.verify rt clock raw.bytes signers = .error verr ∧
            s.acceptWalked rt clock raw.bytes verr
              (walk rt (fun ref => (fetchPivot rt net ref f).1) (advertisedPivots rt raw.bytes) signers
                s.pivotSeq) = .ok v)) := by
  unfold verify
  cases hpre : parse rt raw.bytes with
  | error e => simp [orErr]
  | ok pre =>
      cases hsigners : parseDERCerts rt pinned with
      | error e => simp [orErr]
      | ok signers =>
          cases hv : Tsl.verify rt clock raw.bytes signers with
          | error verr => simp [orErr, hv, hpre, advertisedPivots, walkPivots_fst]
          | ok r =>
              obtain ⟨verified, signer⟩ := r
              simp [orErr, hv, hpre, advertisedPivots]

theorem acceptDirect_eq_ok {refs : List PivotRef} {signers : List Certificate} {verified : Bytes}
    {signer : Certificate} {v : LOTLState} :
    s.acceptDirect rt refs signers verified signer = .ok v ↔
      s.checkVerified rt verified = .ok v.list ∧ lotlSignerSelfConsistent rt signer v.list = .ok () ∧
        v.signers = signers ∧ v.pivotSeq = max s.pivotSeq (maxPivot refs) := by
  simp only [acceptDirect, Result.bind_eq_ok]
  constructor
  · rintro ⟨lotl, hlotl, ⟨⟩, hself, h⟩
    cases h
    refine ⟨hlotl, hself, rfl, ?_⟩
    simp only
    split <;> omega
  · rintro ⟨hlotl, hself, rfl, hseq⟩
    refine ⟨v.list, hlotl, (), hself, ?_⟩
    have hmax : (if s.pivotSeq < maxPivot refs then maxPivot refs else s.pivotSeq) = v.pivotSeq := by
      split <;> omega
    rw [hmax]
    rfl

theorem acceptWalked_eq_ok {clock : Time} {raw : Bytes} {verr : Err}
    {walked : Except Err (List Certificate × Nat)} {v : LOTLState} :
    s.acceptWalked rt clock raw verr walked = .ok v ↔
      walked = .ok (v.signers, v.pivotSeq) ∧ ∃ verified signer,
        Tsl.verify rt clock raw v.signers = .ok (verified, signer) ∧
        s.checkVerified rt verified = .ok v.list := by
  cases walked with
  | error e => simp [acceptWalked]
  | ok r =>
      simp only [acceptWalked, Result.bind_eq_ok, orErr_eq_ok]
      constructor
      · rintro ⟨⟨verified, signer⟩, hv, lotl, hlotl, h⟩
        cases h
        exact ⟨rfl, verified, signer, hv, hlotl⟩
      · rintro ⟨h, verified, signer, hv, hlotl⟩
        cases h
        exact ⟨(verified, signer), hv, v.list, hlotl, rfl⟩

/-- The accepted list verifies under the resulting set, which pivots lead to from the pinned one. -/
theorem verify_ok {clock : Time} {net : Network} {raw : Raw} {pinned : List Bytes} {f : Fetcher}
    {v : LOTLState} (h : (s.verify rt clock net raw pinned f).1 = .ok v) :
    ∃ signers verified signer, parseDERCerts rt pinned = .ok signers ∧
      SignersFrom rt signers v.signers ∧ Parsed rt v.signers ∧
      Tsl.verify rt clock raw.bytes v.signers = .ok (verified, signer) ∧
      parse rt verified = .ok v.list := by
  obtain ⟨-, signers, hsigners, ⟨verified, signer, hv, hacc⟩ | ⟨verr, -, hacc⟩⟩ := verify_eq_ok.1 h
  · obtain ⟨hlist, -, rfl, -⟩ := acceptDirect_eq_ok.1 hacc
    exact ⟨_, verified, signer, hsigners, .refl, parseDERCerts_parsed hsigners, hv,
      (checkVerified_eq_ok.1 hlist).1⟩
  · obtain ⟨hwalk, verified, signer, hv, hlist⟩ := acceptWalked_eq_ok.1 hacc
    obtain ⟨hreach, hlast⟩ := walk_ok hwalk
    refine ⟨signers, verified, signer, hsigners, hreach, ?_, hv, (checkVerified_eq_ok.1 hlist).1⟩
    rcases hlast with ⟨heq, -⟩ | ⟨-, -, -, hparsed⟩
    · rw [heq]
      exact parseDERCerts_parsed hsigners
    · exact hparsed

end EULOTLSource

/-! ## National lists -/

/-- A 200 answer for the site reads as the digest, if its body is read up to some size. -/
def Publishes (rt : Runtime) (net : Network) (site : Site) (digest : String) : Prop :=
  ∃ n url body k, net site n url = .response 200 (.ok body) ∧
    rt.toLower (trimSpace (textOf (body.take k))) = digest

theorem fetchDigest_publishes {net : Network} {site : Site} {url digest : String} {f : Fetcher}
    (h : (Fetcher.fetchDigest rt net site url f).1 = .ok digest) : Publishes rt net site digest := by
  unfold Fetcher.fetchDigest at h
  rw [Fallible.bind_run] at h
  cases hfetch : Fetcher.fetch rt net site (Fetcher.digestURL url) f with
  | mk r g =>
      rw [hfetch] at h
      cases r with
      | error e => cases h
      | ok raw =>
          obtain ⟨n, u, body, k, hnet, rfl⟩ := Fetcher.fetch_response (congrArg Prod.fst hfetch)
          exact ⟨n, u, body, k, hnet, Except.ok.inj h⟩

/-- What is held is confirmed as unchanged. -/
structure Confirmed (rt : Runtime) (net : Network) (site : Site) (prevFresh : Bool) (l : Raw) : Prop where
  fresh : prevFresh = true
  digest : l.digest ≠ ""
  published : Publishes rt net site l.digest

theorem digestUnchanged_true {net : Network} {site : Site} {url : String} {prevFresh : Bool}
    {last : Option Raw} {f : Fetcher}
    (h : (digestUnchanged rt net site url prevFresh last f).1 = .ok true) :
    ∃ l, last = some l ∧ Confirmed rt net site prevFresh l := by
  cases last with
  | none => cases h
  | some l =>
      unfold digestUnchanged at h
      simp only at h
      split_ifs at h with hfresh
      · rw [Fallible.attempt_bind_run] at h
        obtain ⟨hfresh, hne⟩ := (Bool.and_eq_true _ _).mp hfresh
        cases hdigest : (Fetcher.fetchDigest rt net site url f).1 with
        | error e =>
            rw [hdigest] at h
            cases h
        | ok digest =>
            rw [hdigest] at h
            have heq : digest = l.digest := of_decide_eq_true (Except.ok.inj h)
            exact ⟨l, rfl, hfresh, of_decide_eq_true hne, heq ▸ fetchDigest_publishes hdigest⟩
      · cases h

theorem digestUnchanged_fails (net : Network) (site : Site) (url : String) (prevFresh : Bool)
    (last : Option Raw) (E : Err → Prop) :
    Fallible.FailsWith E (digestUnchanged rt net site url prevFresh last) := by
  unfold digestUnchanged
  split
  · exact .pure _
  · split_ifs
    · refine .bind (.attempt _) fun r => ?_
      split <;> exact .pure _
    · exact .pure _

/-- A download fails with a text; it fails as unchanged only if the list that is held is confirmed. -/
theorem NationalTLSource.fetch_fails (s : NationalTLSource) (net : Network) (last : Option Raw) :
    Fallible.FailsWith (fun e => e.msg ≠ "" ∧
      (e.unchanged = true → ∃ l, last = some l ∧ Confirmed rt net (.tlDigest s.code) s.prevFresh l))
      (s.fetch rt net last) := by
  have hother : ∀ {e : Err}, Fetcher.Failure e → e.msg ≠ "" ∧
      (e.unchanged = true → ∃ l, last = some l ∧ Confirmed rt net (.tlDigest s.code) s.prevFresh l) := by
    rintro e ⟨hfalse, hmsg⟩
    refine ⟨hmsg, fun htrue => ?_⟩
    rw [hfalse] at htrue
    cases htrue
  refine .bind ?_ fun _ => .bind (fun g e hg => hother (Fetcher.allowURL_fails _ g e hg)) fun _ =>
    .bind_of_ok (digestUnchanged_fails _ _ _ _ _ _) fun unchanged g hg => ?_
  · unfold optInHTTP
    split_ifs
    · exact fun g e hg => hother (Fetcher.allowHTTPFor_fails _ g e hg)
    · exact .pure _
  · split_ifs with hunchanged
    · exact .fail ⟨by decide, fun _ => digestUnchanged_true (hunchanged ▸ hg)⟩
    · exact .bind (fun g e hg => hother (Fetcher.fetch_fails _ _ _ g e hg)) fun _ => .pure _

theorem NationalTLSource.verify_ok {s : NationalTLSource} {clock : Time} {raw : Raw}
    {pinned : List Bytes} {tl : TrustedList} (h : s.verify rt clock raw pinned = .ok tl) :
    (∃ signers verified signer, parseDERCerts rt pinned = .ok signers ∧
      Tsl.verify rt clock raw.bytes signers = .ok (verified, signer) ∧ parse rt verified = .ok tl) ∧
    tl.schemeInformation.schemeTerritory = s.code ∧
    ∀ prevSeq ∈ s.prevSeq, prevSeq ≤ tl.schemeInformation.tslSequenceNumber := by
  simp only [verify, Result.bind_eq_ok, orErr_eq_ok, Result.require_eq_ok] at h
  obtain ⟨signers, hsigners, ⟨verified, signer⟩, hv, tl', hp, -, hcode, -, hseq, h⟩ := h
  cases h
  exact ⟨⟨signers, verified, signer, hsigners, hv, hp⟩, hcode, hseq⟩

end TrustAnchor.Ingest
