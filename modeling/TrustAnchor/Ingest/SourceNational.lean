import TrustAnchor.Ingest.SourceLOTL
import TrustAnchor.Trust.Extract

/-!
# A national trusted list as a source
-/

namespace TrustAnchor.Ingest

open Lib Tsl Trust

/-- `nationalTLSource`, built for one territory and one cycle. -/
structure NationalTLSource where
  code : String
  url : String
  allowHTTP : Bool
  prevFresh : Bool := false
  /-- The sequence number that the list must not fall below, when there is a previous entry. -/
  prevSeq : Option Nat := none
  acceptedStatuses : List String
  acceptedTypes : List String

namespace NationalTLSource

variable (rt : Runtime)

/-- The opt-in of `Fetch` to plain http. -/
def optInHTTP (s : NationalTLSource) : Fetching Unit :=
  if s.allowHTTP then Fetcher.allowHTTPFor rt s.url else pure ()

/-- `Fetch` -/
def fetch (s : NationalTLSource) (net : Network) (last : Option Raw) : Fetching Raw := do
  s.optInHTTP rt
  Fetcher.allowURL rt s.url
  if ← digestUnchanged rt net (.tlDigest s.code) s.url s.prevFresh last then .fail .errUnchanged
  else do
    let raw ← Fetcher.fetch rt net (.tl s.code) s.url
    return ⟨raw, rt.sha256hex raw⟩

/-- `Verify`: the parsed list, which `Extract` reads. -/
def verify (s : NationalTLSource) (clock : Time) (raw : Raw) (pinnedSignersDER : List Bytes) :
    Except Err TrustedList := do
  let signers ← orErr ("pointer certs for " ++ s.code ++ ": ") (parseDERCerts rt pinnedSignersDER)
  let (verified, _) ← orErr ("territory " ++ s.code ++ ": ") (Tsl.verify rt clock raw.bytes signers)
  let tl ← orErr ("territory " ++ s.code ++ ": ") (parse rt verified)
  Result.require (tl.schemeInformation.schemeTerritory = s.code)
    (.failure ("territory " ++ s.code ++ ": list declares SchemeTerritory " ++
      tl.schemeInformation.schemeTerritory.quote))
  Result.require (∀ prevSeq ∈ s.prevSeq, prevSeq ≤ tl.schemeInformation.tslSequenceNumber)
    (.failure ("territory " ++ s.code ++ ": sequence regression: " ++
      toString tl.schemeInformation.tslSequenceNumber ++ " < " ++ toString (s.prevSeq.getD 0)))
  return tl

/-- `Extract` -/
def extract (s : NationalTLSource) (list : TrustedList) :
    Except Err (List Anchor × List ExtractionWarning) :=
  extractAnchors rt list s.code s.acceptedStatuses s.acceptedTypes

end NationalTLSource

end TrustAnchor.Ingest
