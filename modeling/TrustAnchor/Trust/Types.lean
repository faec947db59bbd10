import TrustAnchor.Tsl.Types

/-!
# The domain model

Anchors, territories, snapshots and the records that the declaration file decodes into.
-/

namespace TrustAnchor.Trust

def sourceTL : String := "tl"

def sourceInternal : String := "internal"

/-- One trusted CA certificate with the metadata consumers filter on. -/
structure Anchor where
  territory : String
  source : String
  tspName : String
  serviceName : String
  serviceType : String
  status : String
  statusStartingTime : Time
  certDER : Bytes
  fingerprintSHA256 : String
  subject : String
  notBefore : Time
  notAfter : Time
  qualifiers : List String
  qcWithQSCD : Bool
  /-- Empty means that the anchor is in the bundle of every use. -/
  uses : List String
  keyAlgorithm : String
  curve : String
  /-- `""` is the untyped CA/QC plane. -/
  type : String
  useCases : List String
  /-- 0 when the anchor is not from a trusted list. -/
  tlSequence : Int
deriving DecidableEq

structure SkippedService where
  tspName : String
  serviceName : String
  reason : String
  detail : String
  fingerprintSHA256 : String
  keyAlgorithm : String
  curve : String
deriving DecidableEq

/-- The part of a snapshot that belongs to one territory. -/
structure Territory where
  code : String
  tlSequence : Nat := 0
  issueTime : Time := zeroTime
  nextUpdate : Option Time := none
  /-- SHA-256 of the list as last fetched; it only decides whether to download again. -/
  sourceDigest : String := ""
  carriedOver : Bool := false
  carriedOverReason : String := ""
  /-- No list and no previous data: an entry that only names the territory. -/
  failed : Bool := false
  failureReason : String := ""
  anchors : List Anchor := []
  skipped : List SkippedService := []
deriving DecidableEq

/-- A hold-mode addition that awaits approval. -/
structure PendingAnchor where
  anchor : Anchor
  firstSeen : Time
deriving DecidableEq

/-- The operator-approved signer set of the list of the lists. -/
structure Bootstrap where
  version : Int
  ojReference : String
  certsDER : List Bytes
deriving DecidableEq

/-- A territory's pointer as the verified list of the lists publishes it. -/
structure ListPointer where
  territory : String
  url : String := ""
  signersDER : List Bytes := []
  failure : String := ""
deriving DecidableEq

inductive DiffKind where
  | added
  | removed
  | changed
deriving DecidableEq

/-- The text the diff is written and sorted under. -/
def DiffKind.name : DiffKind → String
  | added => "added"
  | removed => "removed"
  | changed => "changed"

structure DiffEntry where
  kind : DiffKind
  territory : String
  fingerprint : String
  type : String
  tspName : String
  serviceName : String
  status : String
  detail : String
  source : String
deriving DecidableEq

structure Diff where
  prevID : String
  entries : List DiffEntry
deriving DecidableEq

/-- The last load attempt of the operator-declared source. -/
structure DeclaredSourceState where
  configured : Bool
  carriedOver : Bool
  error : String
  count : Nat
deriving DecidableEq

/-- One versioned, content-addressed trust state. -/
structure Snapshot where
  id : String
  prevID : String
  generatedAt : Time
  lotlSequence : Nat
  lotlIssueTime : Time
  lotlNextUpdate : Option Time
  /-- The signer set of the list of the lists after pivot processing. -/
  lotlSignersDER : List Bytes
  /-- The sequence number of the last processed pivot. -/
  lotlPivotSeq : Nat
  lotlDigest : String
  lotlPointers : List ListPointer
  advertisedOJ : String
  bootstrapOJRef : String
  bootstrapVersion : Int
  territories : List Territory
  internal : List Anchor
  pending : List PendingAnchor
  diff : Option Diff
  /-- Not serialized: the load outcome of the cycle that built the snapshot. -/
  declaredLoad : Option DeclaredSourceState
deriving DecidableEq

/-- `Snapshot.Territory`: the first entry with the code. -/
def Snapshot.territory (s : Snapshot) (code : String) : Option Territory :=
  s.territories.find? fun t => t.code = code

/-- `Territory.StaleAt`: past `NextUpdate` and the grace after it. -/
def Territory.staleAt (t : Territory) (now : Time) (grace : Duration) : Bool :=
  match t.nextUpdate with
  | none => false
  | some nu => nu + grace < now

/-! ## The projection behind the snapshot id -/

structure IDAnchor where
  fingerprint : String
  status : String
  qscd : Bool
  uses : List String
  source : String
  type : String
  useCases : List String
deriving DecidableEq

structure IDTerritory where
  code : String
  tlSequence : Nat
  anchors : List IDAnchor
deriving DecidableEq

structure IDContent where
  lotlSequence : Nat
  territories : List IDTerritory
  internal : List IDAnchor
  pending : List String
deriving DecidableEq

/-! ## The declaration file -/

/-- A YAML node: a mapping's content lists keys and values in turn, and an alias names its anchor
and holds the anchored node. -/
inductive YamlNode where
  | document (content : List YamlNode)
  | sequence (line : Nat) (content : List YamlNode)
  | mapping (line : Nat) (content : List YamlNode)
  | scalar (line : Nat) (value : String)
  | alias (line : Nat) (value : String) (target : YamlNode)
  /-- `Kind == 0`: nothing was decoded into the node. -/
  | empty

/-- One operator-declared entry. -/
structure InternalAnchor where
  name : String
  type : String
  types : List String
  territory : String
  status : String
  certificate : String
  certificateFile : String
  validUntil : Time
  useCases : List String
  hasType : Bool
  hasTypes : Bool
deriving DecidableEq

/-- A PEM block: its type and its bytes. -/
structure PemBlock where
  type : String
  bytes : Bytes
deriving DecidableEq

/-! ## The structural view of a certificate -/

/-- `asn1.RawValue` -/
structure RawValue where
  cls : Nat
  tag : Nat
  isCompound : Bool
  bytes : Bytes
  fullBytes : Bytes
deriving DecidableEq

structure CertificateBody where
  version : Int
  serialNumber : Int
  issuer : String
  subject : String
  notBefore : Time
  notAfter : Time
  keyAlgorithm : String
  curve : String
deriving DecidableEq

end TrustAnchor.Trust
