import TrustAnchor.Lib.Sorting
import TrustAnchor.Trust.Types

/-!
# What the service calls outside its own code

Parsers, the XML signature validation, SHA-256, the JSON and YAML coders. Every definition of the
model takes a `Runtime`, so a theorem about the service holds for whatever these functions answer;
a theorem that relies on their documented behaviour says so in a hypothesis.
-/

namespace TrustAnchor

open Lib Tsl Trust

/-- A parsed URL, as far as the fetcher and the HTTP client look at it; the host is with its port. -/
structure Url where
  scheme : String
  host : String
deriving DecidableEq

/-- The host before a port, which may be empty. -/
def withoutPort (host : String) : String :=
  let r := host.toList.reverse
  match r.dropWhile Char.isDigit with
  | ':' :: before => String.ofList before.reverse
  | _ => host

/-- `Hostname`: without the port, and without the brackets of an IPv6 address. -/
def Url.hostname (u : Url) : String :=
  match (withoutPort u.host).toList with
  | '[' :: rest =>
    if rest.getLast? = some ']' then String.ofList rest.dropLast else withoutPort u.host
  | _ => withoutPort u.host

structure Runtime where
  /-- `unicode.ToLower`, `unicode.ToUpper`, and whether `unicode.SimpleFold` leads from the one rune to
  the other -/
  lowerRune : Char → Char
  upperRune : Char → Char
  sameFold : Char → Char → Bool
  /-- `sort.Slice` -/
  sortSlice : Sorter
  /-- The capacity of a slice of strings after so many calls of `append` -/
  sliceCap : Nat → Nat
  /-- `url.Parse` -/
  parseURL : String → Except String Url
  /-- `xml.Unmarshal` into a `TrustedList` -/
  unmarshalXML : Bytes → Except String TrustedList
  /-- Reading a document as XML and finding the enveloped signature below its root: the error. -/
  findEnvelopedSignature : Bytes → Option String
  /-- `ValidateSignature` of that signature with the pinned certificates as roots, with certificate
  validity judged at the given time: the error. -/
  validateSignature : Time → Bytes → List Certificate → Option String
  /-- The first X509Certificate below the signature, decoded. -/
  keyInfoCertificate : Bytes → Except String Bytes
  /-- The document root among the digest-checked references, in exclusive canonical form. -/
  verifiedRoot : Bytes → Except String Bytes
  /-- `x509.ParseCertificate` -/
  parseX509 : Bytes → Except String CertificateInfo
  /-- `base64.StdEncoding.DecodeString` -/
  decodeBase64 : String → Except String Bytes
  sha256 : Bytes → Bytes
  /-- `json.Marshal` of the id projection -/
  marshalID : IDContent → Bytes
  /-- The error, if any, of a snapshot's JSON round trip. -/
  jsonError : Snapshot → Option String
  /-- `asn1.Unmarshal` into a `RawValue`, an `int`, a `*big.Int`, an `ObjectIdentifier`: the value
  and the rest. -/
  asn1Raw : Bytes → Except String (RawValue × Bytes)
  asn1Int : Bytes → Except String (Int × Bytes)
  asn1BigInt : Bytes → Except String (Int × Bytes)
  asn1OID : Bytes → Except String (List Nat × Bytes)
  /-- `asn1.Unmarshal` of a validity, in UTC -/
  asn1Validity : Bytes → Except String ((Time × Time) × Bytes)
  /-- `asn1.Unmarshal` of a Name, rendered as `pkix.Name.String` does -/
  asn1Name : Bytes → Except String (String × Bytes)
  /-- The blocks that successive `pem.Decode` calls find -/
  pemBlocks : Bytes → List PemBlock
  /-- `yaml.Unmarshal` into a node -/
  unmarshalYAML : Bytes → Except String YamlNode
  /-- `root.Decode` into the declaration file's entries -/
  decodeInternalFile : YamlNode → Except String (List InternalAnchor)
  /-- `Format(time.RFC3339)` -/
  formatTime : Time → String
  /-- `filepath.Dir` and `filepath.Join` -/
  pathDir : String → String
  pathJoin : String → String → String

namespace Runtime

variable (rt : Runtime)

/-- `strings.ToLower` -/
def toLower (s : String) : String := String.ofList (s.toList.map rt.lowerRune)

/-- `strings.ToUpper` -/
def toUpper (s : String) : String := String.ofList (s.toList.map rt.upperRune)

theorem toLower_eq_empty {s : String} : rt.toLower s = "" ↔ s = "" := by
  simp [toLower]

/-- `strings.EqualFold` -/
def equalFold (s t : String) : Bool :=
  s.toList.length = t.toList.length && (s.toList.zip t.toList).all fun p => rt.sameFold p.1 p.2

/-- `x509.ParseCertificate`: the parsed certificate keeps the bytes it was parsed from. -/
def parseCertificate (der : Bytes) : Except Err Certificate :=
  match rt.parseX509 der with
  | .ok info => .ok { info with raw := der }
  | .error e => .error (.failure e)

/-- `fingerprintDER`, also `sha256hex`: lowercase hex SHA-256. -/
def sha256hex (b : Bytes) : String := hexEncode (rt.sha256 b)

end Runtime

end TrustAnchor
