import TrustAnchor.Runtime
import TrustAnchor.Trust.Vocabulary

/-!
# The structural certificate reader

Reads the fields of a TBSCertificate without interpreting the public key.
-/

namespace TrustAnchor.Trust

variable (rt : Runtime)

/-- `ObjectIdentifier.String` -/
def oidString (oid : List Nat) : String := ".".intercalate (oid.map toString)

def namedCurves : List (String × String) :=
  [("1.3.132.0.33", "P-224"),
    ("1.2.840.10045.3.1.7", "P-256"),
    ("1.3.132.0.34", "P-384"),
    ("1.3.132.0.35", "P-521"),
    ("1.3.36.3.3.2.8.1.1.1", "brainpoolP160r1"),
    ("1.3.36.3.3.2.8.1.1.2", "brainpoolP160t1"),
    ("1.3.36.3.3.2.8.1.1.3", "brainpoolP192r1"),
    ("1.3.36.3.3.2.8.1.1.4", "brainpoolP192t1"),
    ("1.3.36.3.3.2.8.1.1.5", "brainpoolP224r1"),
    ("1.3.36.3.3.2.8.1.1.6", "brainpoolP224t1"),
    ("1.3.36.3.3.2.8.1.1.7", "brainpoolP256r1"),
    ("1.3.36.3.3.2.8.1.1.8", "brainpoolP256t1"),
    ("1.3.36.3.3.2.8.1.1.9", "brainpoolP320r1"),
    ("1.3.36.3.3.2.8.1.1.10", "brainpoolP320t1"),
    ("1.3.36.3.3.2.8.1.1.11", "brainpoolP384r1"),
    ("1.3.36.3.3.2.8.1.1.12", "brainpoolP384t1"),
    ("1.3.36.3.3.2.8.1.1.13", "brainpoolP512r1"),
    ("1.3.36.3.3.2.8.1.1.14", "brainpoolP512t1")]

/-- A universal, compound SEQUENCE (tag 16). -/
def isSequence (v : RawValue) : Bool := v.cls = 0 && v.tag = 16 && v.isCompound

/-- `ecCurveName` -/
def ecCurveName (params : Bytes) : String :=
  if params = [] then ""
  else
    match rt.asn1OID params with
    | .ok (oid, _) => (namedCurves.lookup (oidString oid)).getD (oidString oid)
    | .error _ =>
      match rt.asn1Raw params with
      | .ok (raw, _) => if isSequence raw then "explicit" else ""
      | .error _ => ""

/-- `keyAlgorithmName`: the algorithm and, for an EC key, the curve. -/
def keyAlgorithmName (oid : List Nat) (params : Bytes) : String × String :=
  if oid = [1, 2, 840, 113549, 1, 1, 1] then ("rsa", "")
  else if oid = [1, 2, 840, 113549, 1, 1, 10] then ("rsassa-pss", "")
  else if oid = [1, 3, 101, 112] then ("ed25519", "")
  else if oid = [1, 3, 101, 113] then ("ed448", "")
  else if oid = [1, 2, 840, 10045, 2, 1] then (Anchor.keyAlgorithmECDSA, ecCurveName rt params)
  else (oidString oid, "")

def errNotACertificate (detail : String) : Err :=
  .failure ("trust: not a DER X.509 certificate: " ++ detail)

/-- `rdnString` -/
def rdnString (der : Bytes) : Except String String :=
  match rt.asn1Name der with
  | .error e => .error e
  | .ok (name, rest) => if rest ≠ [] then .error "trailing bytes after Name" else .ok name

/-- The next element, which has to be a SEQUENCE, and the bytes after it. -/
def nextSequence (rest : Bytes) (what : String) : Except Err (RawValue × Bytes) :=
  match rt.asn1Raw rest with
  | .error _ => .error (errNotACertificate what)
  | .ok (el, rest) => if isSequence el then .ok (el, rest) else .error (errNotACertificate what)

/-- The optional explicit version and the element of the serial number after it. -/
def versionAndSerial (tbs : Bytes) : Except Err (Int × RawValue × Bytes) :=
  match rt.asn1Raw tbs with
  | .error e => .error (errNotACertificate ("version/serial: " ++ e))
  | .ok (el, rest) =>
    -- class 2 is context-specific
    if el.cls = 2 && el.tag = 0 then
      match rt.asn1Int el.bytes with
      | .error _ => .error (errNotACertificate "version")
      | .ok (v, _) =>
        if v < 0 || 2 < v then .error (errNotACertificate "version")
        else
          match rt.asn1Raw rest with
          | .error e => .error (errNotACertificate ("serial: " ++ e))
          | .ok (serial, rest) => .ok (v + 1, serial, rest)
    else .ok (1, el, rest)

/-- An error of the underlying decoder, under the name of the element. -/
def orNotACertificate {α : Type} (what : String) : Except String α → Except Err α
  | .ok a => .ok a
  | .error e => .error (errNotACertificate (what ++ e))

/-- `decodeCertificateBody` -/
def decodeCertificateBody (der : Bytes) : Except Err CertificateBody := do
  let (cert, rest) ← orNotACertificate "" (rt.asn1Raw der)
  if rest ≠ [] || !isSequence cert then
    throw (errNotACertificate "trailing bytes or not a SEQUENCE")
  let (tbs, _) ← nextSequence rt cert.bytes "tbsCertificate"
  let (version, serial, rest) ← versionAndSerial rt tbs.bytes
  let (serialNumber, _) ← orNotACertificate "serial: " (rt.asn1BigInt serial.fullBytes)
  -- the signature algorithm is skipped
  let (_, rest) ← nextSequence rt rest "signature algorithm"
  let (issuerEl, rest) ← nextSequence rt rest "issuer"
  let issuer ← orNotACertificate "issuer: " (rdnString rt issuerEl.fullBytes)
  let (validityEl, rest) ← nextSequence rt rest "validity"
  let ((notBefore, notAfter), _) ← orNotACertificate "validity: " (rt.asn1Validity validityEl.fullBytes)
  let (subjectEl, rest) ← nextSequence rt rest "subject"
  let subject ← orNotACertificate "subject: " (rdnString rt subjectEl.fullBytes)
  let (spki, _) ← nextSequence rt rest "subjectPublicKeyInfo"
  let (alg, _) ← nextSequence rt spki.bytes "key algorithm"
  let (oid, params) ← orNotACertificate "key algorithm: " (rt.asn1OID alg.bytes)
  let (keyAlgorithm, curve) := keyAlgorithmName rt oid params
  return { version, serialNumber, issuer, subject, notBefore, notAfter, keyAlgorithm, curve }

/-- `spkiAlgorithm`: two empty texts for a certificate it cannot read. -/
def spkiAlgorithm (der : Bytes) : String × String :=
  match decodeCertificateBody rt der with
  | .ok body => (body.keyAlgorithm, body.curve)
  | .error _ => ("", "")

end TrustAnchor.Trust
