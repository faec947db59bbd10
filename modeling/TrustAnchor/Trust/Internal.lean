import TrustAnchor.Trust.CertBody

/-!
# The operator-declared anchors

One invalid entry rejects the whole file.
-/

namespace TrustAnchor.Trust

open Tsl

variable (rt : Runtime)

def grantedStatusURI : String := statusBase ++ "granted"

def untypedAlias : String := "tsl_ca"

def errMalformedSource : Err := .failure "trust: internal trust source: malformed YAML"

def fileKeys : List String := ["anchors"]

def entryKeys : List String :=
  ["name", "type", "types", "territory", "status", "certificate", "certificateFile", "validUntil",
    "useCases"]

/-- `errf`: an error that names the entry. -/
def InternalAnchor.errf (e : InternalAnchor) (detail : String) : Err :=
  .failure ("trust: internal anchor " ++ e.name.quote ++ ": " ++ detail)

/-! ## Nodes -/

namespace YamlNode

/-- The scalar's text, or the name of the anchor an alias refers to. -/
def value : YamlNode → String
  | scalar _ v => v
  | .alias _ v _ => v
  | _ => ""

def line : YamlNode → Nat
  | sequence l _ => l
  | mapping l _ => l
  | scalar l _ => l
  | .alias l _ _ => l
  | _ => 0

/-- `resolveAlias`, one level. -/
def resolveAlias : YamlNode → YamlNode
  | .alias _ _ target => target
  | n => n

/-- The value after the first key of a mapping's content with the text. -/
def lookupKey (key : String) : List YamlNode → Option YamlNode
  | k :: v :: rest => if k.value = key then some v else lookupKey key rest
  | _ => none

/-- `mappingValue` -/
def mappingValue (n : YamlNode) (key : String) : Option YamlNode :=
  match n.resolveAlias with
  | mapping _ content => lookupKey key content
  | _ => none

/-- `sequenceItems` -/
def sequenceItems (n : Option YamlNode) : List YamlNode :=
  match n.map resolveAlias with
  | some (sequence _ content) => content
  | _ => []

/-- The line of the first key of a mapping's content that is not accepted. -/
def unknownIn (accepted : List String) : List YamlNode → Option Nat
  | k :: rest =>
    if k.value ∉ accepted then some k.line
    else match rest with
      | _ :: rest => unknownIn accepted rest
      | [] => none
  | [] => none

/-- `unknownKey` -/
def unknownKey (n : YamlNode) (accepted : List String) : Option Nat :=
  match n with
  | mapping _ content => unknownIn accepted content
  | _ => none

end YamlNode

/-! ## Entries -/

/-- The roles of a `types` list, checked one by one against those before them. -/
def declaredRoles (e : InternalAnchor) : List String → List String → Except Err (List String)
  | out, [] => .ok out
  | out, raw :: rest =>
    let t := trimSpace raw
    if t = "" || t = untypedAlias then
      .error (e.errf
        "types lists EUDI anchor types only; declare an untyped CA in an entry without types")
    else if !validAnchorType t then .error (e.errf ("unknown type " ++ raw.quote))
    else if t ∈ out then .error (e.errf ("type " ++ t.quote ++ " listed twice"))
    else declaredRoles e (out ++ [t]) rest

/-- `declaredTypes` -/
def declaredTypes (e : InternalAnchor) : Except Err (List String) :=
  if !e.hasTypes then
    let t := trimSpace e.type
    let t := if t = untypedAlias then "" else t
    if t ≠ "" && !validAnchorType t then .error (e.errf ("unknown type " ++ e.type.quote))
    else .ok [t]
  else if e.hasType then .error (e.errf "set either type or types, not both")
  else if e.types = [] then
    .error (e.errf "types is empty (list at least one type, or use type)")
  else declaredRoles e [] e.types

/-- `validInternalTerritory` -/
def validInternalTerritory (t : String) : Bool :=
  t.toList.length = 2 && t.toList.all fun c => 'A' ≤ c && c ≤ 'Z'

/-- `filepath.IsAbs` -/
def isAbs (path : String) : Bool := ['/'].isPrefixOf path.toList

/-- `resolveInternalCertBytes` -/
def resolveInternalCertBytes (readFile : String → Except String Bytes) (e : InternalAnchor)
    (baseDir : String) : Except Err Bytes :=
  if e.certificate ≠ "" && e.certificateFile ≠ "" then
    .error (e.errf "exactly one of certificate/certificateFile must be set, both given")
  else if e.certificate ≠ "" then .ok e.certificate.toUTF8.toList
  else if e.certificateFile ≠ "" then
    let path := if isAbs e.certificateFile then e.certificateFile
      else rt.pathJoin baseDir e.certificateFile
    match readFile path with
    | .ok raw => .ok raw
    | .error err => .error (e.errf ("read certificateFile " ++ path ++ ": " ++ err))
  else .error (e.errf "missing certificate source (set certificate or certificateFile)")

/-- `parseCerts`: the PEM certificates, or one DER certificate. -/
def parseCerts (raw : Bytes) : Except Err (List Certificate) := do
  let certs ← ((rt.pemBlocks raw).filter fun b => b.type = "CERTIFICATE").mapM fun b =>
    rt.parseCertificate b.bytes
  if certs ≠ [] then return certs
  match rt.parseCertificate raw with
  | .ok cert => return [cert]
  | .error e => throw (e.wrap "neither PEM nor DER certificate: " "")

/-- `buildInternalAnchors`: one anchor for each declared type. -/
def buildInternalAnchors (readFile : String → Except String Bytes) (e : InternalAnchor)
    (baseDir : String) (now : Time) : Except Err (List Anchor) := do
  let types ← declaredTypes e
  let territory := rt.toUpper (trimSpace e.territory)
  if !validInternalTerritory territory then
    throw (e.errf ("invalid territory " ++ e.territory.quote ++ " (want a 2-letter code or EU)"))
  let certBytes ← resolveInternalCertBytes rt readFile e baseDir
  let certs ← match parseCerts rt certBytes with
    | .ok certs => .ok certs
    | .error err => .error (e.errf ("parse certificate: " ++ err.msg))
  match certs with
  | [cert] =>
    let fp := rt.sha256hex cert.raw
    if cert.notAfter < now then
      throw (e.errf ("certificate expired at " ++ rt.formatTime cert.notAfter ++ " (fingerprint " ++
        fp ++ ")"))
    -- an operator can shorten a certificate's life, never extend it
    let notAfter := if e.validUntil ≠ zeroTime && e.validUntil < cert.notAfter then e.validUntil
      else cert.notAfter
    let status := if e.status = "" then grantedStatusURI else e.status
    let (keyAlgorithm, curve) := spkiAlgorithm rt cert.raw
    return types.map fun t =>
      { territory, source := sourceInternal, tspName := e.name, serviceName := cert.commonName,
        serviceType := typeIdentifier t, status, statusStartingTime := cert.notBefore,
        certDER := cert.raw, fingerprintSHA256 := fp, subject := cert.subject,
        notBefore := cert.notBefore, notAfter, qualifiers := [], qcWithQSCD := false, uses := [],
        keyAlgorithm, curve, type := t, useCases := e.useCases, tlSequence := 0 }
  | _ => throw (e.errf ("expected exactly one certificate, got " ++ toString certs.length))

/-! ## The file -/

/-- `internalLess`, as an order: fingerprint, then type. -/
def internalLe (a b : Anchor) : Prop :=
  if a.fingerprintSHA256 ≠ b.fingerprintSHA256 then a.fingerprintSHA256 < b.fingerprintSHA256
  else a.type ≤ b.type

instance : DecidableRel internalLe := fun a b =>
  inferInstanceAs (Decidable (if a.fingerprintSHA256 ≠ b.fingerprintSHA256 then
    a.fingerprintSHA256 < b.fingerprintSHA256 else a.type ≤ b.type))

/-- The entries in file order; `seenBy` names the entry that declared a fingerprint. -/
def loadEntries (readFile : String → Except String Bytes) (baseDir : String) (now : Time) :
    List (String × String) → List (InternalAnchor × YamlNode) → Except Err (List Anchor)
  | _, [] => .ok []
  | seenBy, (e, node) :: rest => do
    let node := node.resolveAlias
    if let some line := node.unknownKey entryKeys then
      throw (e.errf ("unknown key at line " ++ toString line ++ " (accepted: " ++
        ", ".intercalate entryKeys ++ ")"))
    let e := { e with
      hasType := (node.mappingValue "type").isSome
      hasTypes := (node.mappingValue "types").isSome }
    let built ← buildInternalAnchors rt readFile e baseDir now
    let fp := (built.head?.map (·.fingerprintSHA256)).getD ""
    if let some declaredBy := seenBy.lookup fp then
      throw (e.errf ("duplicate certificate (fingerprint " ++ fp ++ " already declared by " ++
        declaredBy.quote ++ ")"))
    let later ← loadEntries readFile baseDir now ((fp, e.name) :: seenBy) rest
    return built ++ later

/-- `loadInternalBytes` -/
def loadInternalBytes (readFile : String → Except String Bytes) (raw : Bytes) (baseDir : String)
    (now : Time) : Except Err (List Anchor) :=
  match rt.unmarshalYAML raw with
  | .error _ => .error errMalformedSource
  | .ok doc =>
    let root := match doc with
      | .document content => content.head?
      | n => some n
    match root with
    -- an empty file, or comments only
    | none | some .empty => .ok []
    | some root => do
      match rt.decodeInternalFile root with
      | .error _ => throw errMalformedSource
      | .ok entries =>
        if let some line := root.unknownKey fileKeys then
          throw (.failure ("trust: internal trust source: unknown key at line " ++ toString line ++
            " (accepted: " ++ ", ".intercalate fileKeys ++ ")"))
        let entryNodes := YamlNode.sequenceItems (root.mappingValue "anchors")
        if entryNodes.length ≠ entries.length then throw errMalformedSource
        let anchors ← loadEntries rt readFile baseDir now [] (entries.zip entryNodes)
        return anchors.insertionSort internalLe

/-- `LoadInternal`: no path means no declared anchors. -/
def loadInternal (readFile : String → Except String Bytes) (path : String) (now : Time) :
    Except Err (List Anchor) :=
  if path = "" then .ok []
  else
    match readFile path with
    | .error e => .error (.failure ("trust: internal trust source: " ++ e))
    | .ok raw => loadInternalBytes rt readFile raw (rt.pathDir path) now

end TrustAnchor.Trust
