import TrustAnchor.Ingest.Pivot

/-!
# The list of the lists as a source
-/

namespace TrustAnchor.Ingest

open Lib Tsl

variable (rt : Runtime)

/-- `source.Raw`: a payload and its digest. -/
structure Raw where
  bytes : Bytes
  digest : String
deriving DecidableEq

/-- `fmt.Errorf(before + "%w", err)` on failure. -/
def orErr {α : Type} (before : String) : Except Err α → Except Err α
  | .ok a => .ok a
  | .error e => .error (e.wrap before "")

/-- The digest pre-check of a source: the published digest names the list already held. A digest that
cannot be fetched decides nothing. -/
def digestUnchanged (net : Network) (site : Site) (url : String) (prevFresh : Bool)
    (last : Option Raw) : Fetching Bool :=
  match last with
  | none => pure false
  | some last =>
    if prevFresh && last.digest ≠ "" then do
      match ← Fallible.attempt (Fetcher.fetchDigest rt net site url) with
      | .ok digest => pure (digest = last.digest)
      | .error _ => pure false
    else pure false

/-- A fetch that failed: with `errors.Is(err, source.ErrUnchanged)` what is held is reused. -/
def reuseUnchanged {α β : Type} (held : Option α) (reuse : α → β) (e : Err) : Except Err β :=
  match e.unchanged, held with
  | true, some a => .ok (reuse a)
  | _, _ => .error e

/-- `euLOTLSource`, as `ingestLOTL` builds it. -/
structure EULOTLSource where
  url : String
  now : Time
  /-- The last processed pivot. -/
  pivotSeq : Nat := 0
  prevFresh : Bool := false

/-- What `euLOTLSource.Verify` leaves in the source: the parsed list, the signer set and the pivot
progress. -/
structure LOTLState where
  list : TrustedList
  signers : List Certificate
  pivotSeq : Nat
deriving DecidableEq

/-- `lotlSignerSelfConsistent` -/
def lotlSignerSelfConsistent (signer : Certificate) (lotl : TrustedList) : Except Err Unit := do
  let self ← orErr "ingest: LOTL self-consistency: " lotl.selfPointer
  let own ← orErr "ingest: LOTL self-consistency: " (self.certificates rt)
  Result.require (certInSet signer own)
    (.failure ("ingest: LOTL_SIGNER_CERT_NOT_AUTHENTICATED_BY_LOTL: the LOTL's signing " ++
      "certificate (" ++ signer.commonName ++ ") is not in the LOTL's own EU self-pointer set"))

/-- `refs[len(refs)-1].seq`, 0 without pivots. -/
def maxPivot (refs : List PivotRef) : Nat :=
  match refs.getLast? with
  | none => 0
  | some ref => ref.seq

namespace EULOTLSource

/-- `Fetch` -/
def fetch (s : EULOTLSource) (net : Network) (last : Option Raw) : Fetching Raw := do
  Fetcher.allowURL rt s.url
  if ← digestUnchanged rt net .lotlDigest s.url s.prevFresh last then .fail .errUnchanged
  else do
    let answer ← Fallible.attempt (Fetcher.fetch rt net .lotl s.url)
    let raw ← Fallible.ofExcept (orErr "ingest: fetch LOTL: " answer)
    return ⟨raw, rt.sha256hex raw⟩

/-- The checks on the verified bytes that both ways of verifying share. -/
def checkVerified (s : EULOTLSource) (verified : Bytes) : Except Err TrustedList := do
  let lotl ← orErr "ingest: parse verified LOTL: " (parse rt verified)
  Result.require (lotl.schemeInformation.tslType = tslTypeEUListOfTheLists)
    (.failure ("ingest: LOTL has unexpected TSLType " ++ lotl.schemeInformation.tslType.quote))
  -- an expired list of the lists no longer authenticates
  Result.require (∀ nu ∈ lotl.schemeInformation.nextUpdate, s.now ≤ nu)
    (.failure ("ingest: LOTL_NEXTUPDATE_PASSED: the LOTL's NextUpdate " ++
      (lotl.schemeInformation.nextUpdate.map rt.formatTime).getD "" ++
      " has passed — refusing to authenticate an expired list"))
  return lotl

/-- The list verified under the set at hand: the set is kept, and the pivots the list advertises
count as processed. -/
def acceptDirect (s : EULOTLSource) (refs : List PivotRef) (signers : List Certificate)
    (verified : Bytes) (lotlSigner : Certificate) : Except Err LOTLState := do
  let lotl ← s.checkVerified rt verified
  lotlSignerSelfConsistent rt lotlSigner lotl
  return ⟨lotl, signers, if s.pivotSeq < maxPivot refs then maxPivot refs else s.pivotSeq⟩

/-- The end of the pivot walk: the list has to verify under the set it ended in. -/
def acceptWalked (s : EULOTLSource) (clock : Time) (raw : Bytes) (verr : Err) :
    Except Err (List Certificate × Nat) → Except Err LOTLState
  | .error e =>
    .error (e.wrap "ingest: pivot chain: " (" (after direct verification failed: " ++ verr.msg ++ ")"))
  | .ok (signers, pivotSeq) => do
    let (verified, _) ←
      orErr "ingest: LOTL verification failed after pivot processing: " (verify rt clock raw signers)
    let lotl ← s.checkVerified rt verified
    return ⟨lotl, signers, pivotSeq⟩

/-- `Verify`; `clock` is the wall clock that `tsl.Verify` reads. -/
def verify (s : EULOTLSource) (clock : Time) (net : Network) (raw : Raw)
    (pinnedSignersDER : List Bytes) : Fetching LOTLState := do
  -- unverified: only the pivot URLs are read off it
  let pre ← Fallible.ofExcept (orErr "ingest: pre-parse LOTL: " (parse rt raw.bytes))
  let refs := pivotRefs rt pre.schemeInformation.schemeInformationURI
  let signers ← Fallible.ofExcept (parseDERCerts rt pinnedSignersDER)
  match Tsl.verify rt clock raw.bytes signers with
  | .ok (verified, lotlSigner) => Fallible.ofExcept (s.acceptDirect rt refs signers verified lotlSigner)
  | .error verr => do
    let walked ← Fallible.attempt (walkPivots rt net refs signers s.pivotSeq)
    Fallible.ofExcept (s.acceptWalked rt clock raw.bytes verr walked)

end EULOTLSource

end TrustAnchor.Ingest
