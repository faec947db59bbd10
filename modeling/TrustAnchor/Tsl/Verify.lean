import TrustAnchor.Lib.Result
import TrustAnchor.Runtime

/-!
# Parsing and verifying trusted lists
-/

namespace TrustAnchor.Tsl

open Lib

variable (rt : Runtime)

/-- `Parse`. It checks no signature. -/
def parse (raw : Bytes) : Except Err TrustedList :=
  match rt.unmarshalXML raw with
  | .error e => .error (.failure ("tsl: parse trusted list: " ++ e))
  | .ok tl =>
    if tl.schemeInformation.tslSequenceNumber = 0 then
      .error (.failure "tsl: document has no TSLSequenceNumber")
    else .ok tl

/-! ## Digital identities -/

/-- `b64WhiteSpace.ReplaceAllString(s, "")` -/
def stripWhiteSpace (s : String) : String :=
  String.ofList (s.toList.filter fun c => c ∉ ['\t', '\n', Char.ofNat 0x0C, '\r', ' '])

namespace ServiceDigitalIdentity

/-- `CertificateDERs`: the first identity that does not decode fails the whole list. -/
def certificateDERs (s : ServiceDigitalIdentity) : Except Err (List Bytes) :=
  (s.digitalIDs.filter fun id => id.x509Certificate ≠ "").mapM fun id =>
    match rt.decodeBase64 (stripWhiteSpace id.x509Certificate) with
    | .ok der => .ok der
    | .error e => .error (.failure ("tsl: decode X509Certificate digital identity: " ++ e))

def certificates (s : ServiceDigitalIdentity) : Except Err (List Certificate) := do
  let ders ← s.certificateDERs rt
  ders.mapM fun der =>
    match rt.parseCertificate der with
    | .ok cert => .ok cert
    | .error e => .error (e.wrap "tsl: parse X509Certificate digital identity: " "")

end ServiceDigitalIdentity

namespace TSLPointer

def certificates (p : TSLPointer) : Except Err (List Certificate) := do
  let certs ← p.serviceDigitalIdentities.mapM (·.certificates rt)
  return certs.flatten

def certificateDERs (p : TSLPointer) : Except Err (List Bytes) := do
  let ders ← p.serviceDigitalIdentities.mapM (·.certificateDERs rt)
  return ders.flatten

end TSLPointer

/-! ## Signatures -/

/-- `signerCertificate` -/
def signerCertificate (raw : Bytes) : Except Err Certificate :=
  match rt.keyInfoCertificate raw with
  | .error e => .error (.failure e)
  | .ok der =>
    match rt.parseCertificate der with
    | .error e => .error (e.wrap "tsl: parse KeyInfo certificate: " "")
    | .ok cert => .ok cert

/-- `verify`, with the clock that certificate validity is judged at. What it returns is read off the
document; the pinned set and the clock only decide whether it is returned. -/
def verifyWith (clock : Time) (raw : Bytes) (signers : List Certificate) :
    Except Err (Bytes × Certificate) := do
  Result.require (signers ≠ []) (.failure "tsl: no expected signer certificates configured")
  Result.refuse ((rt.findEnvelopedSignature raw).map Err.failure)
  Result.refuse ((rt.validateSignature clock raw signers).map fun e =>
    .failure ("tsl: XML signature verification failed: " ++ e))
  let signer ← signerCertificate rt raw
  let verified ← Err.lift (rt.verifiedRoot raw)
  return (verified, signer)

/-- `Verify`; `clock` is the wall clock during the call. -/
def verify (clock : Time) (raw : Bytes) (signers : List Certificate) :
    Except Err (Bytes × Certificate) := verifyWith rt clock raw signers

/-- `VerifyAt` -/
def verifyAt (raw : Bytes) (signers : List Certificate) (time : Time) :
    Except Err (Bytes × Certificate) := verifyWith rt time raw signers

/-- `parseDERCerts` -/
def parseDERCerts (der : List Bytes) : Except Err (List Certificate) :=
  der.mapM rt.parseCertificate

end TrustAnchor.Tsl
