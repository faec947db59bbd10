import TrustAnchor.Ingest.Fetcher
import TrustAnchor.Lib.Result
import TrustAnchor.Tsl.Verify

/-!
# The pivot chain

Pivots are LOTL-shaped documents. Each is verified under the signer set before it, at the issue time
it states itself, and its EU self-pointer is the signer set after it.
-/

namespace TrustAnchor.Ingest

open Lib Tsl

variable (rt : Runtime)

structure PivotRef where
  url : String
  seq : Nat
deriving DecidableEq

/-- The value of a decimal numeral. -/
def decimal (ds : List Char) : Nat := ds.foldl (fun n c => 10 * n + (c.toNat - 48)) 0

/-- The sequence number in a pivot URL, matched by `/eu-lotl-pivot-(\d+)\.xml$` and read by
`strconv.ParseUint`. -/
def pivotURLSeq (url : String) : Option Nat :=
  let r := url.toList.reverse
  if ".xml".toList.reverse.isPrefixOf r then
    let digits := (r.drop 4).takeWhile Char.isDigit
    let before := (r.drop 4).dropWhile Char.isDigit
    if digits ≠ [] && "/eu-lotl-pivot-".toList.reverse.isPrefixOf before then
      let seq := decimal digits.reverse
      if seq < 2 ^ 64 then some seq else none
    else none
  else none

/-- `pivotRefs`: the pivots a list advertises, by ascending sequence number. -/
def pivotRefs (uris : List String) : List PivotRef :=
  rt.sortSlice.run (fun a b => a.seq ≤ b.seq) (uris.filterMap fun u => (pivotURLSeq u).map (PivotRef.mk u))

def pivotErr (seq : Nat) (detail : String) : Err :=
  .failure ("pivot " ++ toString seq ++ ": " ++ detail)

/-- `fmt.Errorf("pivot %d: " + what + "%w", seq, err)` on failure. -/
def orPivotErr {α : Type} (seq : Nat) (what : String) : Except Err α → Except Err α
  | .ok a => .ok a
  | .error e => .error (e.wrap ("pivot " ++ toString seq ++ ": " ++ what) "")

/-- The checks on one fetched pivot document, and the signer set it advertises. -/
def processPivot (seq : Nat) (raw : Bytes) (signers : List Certificate) :
    Except Err (List Certificate) := do
  let pre ← orPivotErr seq "pre-parse: " (parse rt raw)
  let (verified, pivotSigner) ←
    orPivotErr seq "" (verifyAt rt raw signers pre.schemeInformation.listIssueDateTime)
  let pivot ← orPivotErr seq "parse verified: " (parse rt verified)
  -- the issue time of the validity check came from unverified bytes
  Result.require
    (pivot.schemeInformation.listIssueDateTime = pre.schemeInformation.listIssueDateTime)
    (pivotErr seq "issue time differs between unverified and verified content")
  Result.require (pivot.schemeInformation.tslType = tslTypeEUListOfTheLists)
    (pivotErr seq ("unexpected TSLType " ++ pivot.schemeInformation.tslType.quote))
  Result.require (pivot.schemeInformation.tslSequenceNumber = seq)
    (pivotErr seq ("content sequence " ++ toString pivot.schemeInformation.tslSequenceNumber ++
      " does not match URL"))
  let self ← orPivotErr seq "" pivot.selfPointer
  let next ← orPivotErr seq "signer certs: " (self.certificates rt)
  Result.require (next ≠ []) (pivotErr seq "empty signer set")
  Result.require (certInSet pivotSigner next)
    (pivotErr seq ("PIVOT_SIGNER_CERT_NOT_AUTHENTICATED_BY_PIVOT: the pivot's signing " ++
      "certificate (" ++ pivotSigner.commonName ++ ") is not in the pivot's own EU self-pointer set"))
  return next

/-- Fetches one pivot. Its URL comes from unverified bytes, and `AllowURL` adds its host. -/
def fetchPivot (net : Network) (ref : PivotRef) : Fetching Bytes := do
  let allowed ← Fallible.attempt (Fetcher.allowURL rt ref.url)
  Fallible.ofExcept (orPivotErr ref.seq "" allowed)
  let raw ← Fallible.attempt (Fetcher.fetch rt net (.pivot ref.seq) ref.url)
  Fallible.ofExcept (orPivotErr ref.seq "" raw)

/-- `walkPivots`: the signer set after every pivot newer than `lastProcessed`, and the newest
processed sequence number. -/
def walkPivots (net : Network) :
    List PivotRef → List Certificate → Nat → Fetching (List Certificate × Nat)
  | [], signers, lastProcessed => pure (signers, lastProcessed)
  | ref :: refs, signers, lastProcessed =>
    if ref.seq ≤ lastProcessed then walkPivots net refs signers lastProcessed
    else do
      let raw ← fetchPivot rt net ref
      let next ← Fallible.ofExcept (processPivot rt ref.seq raw signers)
      walkPivots net refs next ref.seq

end TrustAnchor.Ingest
