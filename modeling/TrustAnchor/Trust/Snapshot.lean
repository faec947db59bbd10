import TrustAnchor.Runtime
import TrustAnchor.Trust.Vocabulary

/-!
# Snapshot id, bundle filter and diff
-/

namespace TrustAnchor.Trust

variable (rt : Runtime)

/-! ## The id -/

def idAnchor (a : Anchor) : IDAnchor :=
  { fingerprint := a.fingerprintSHA256, status := a.status, qscd := a.qcWithQSCD, uses := a.uses,
    source := a.source, type := a.type, useCases := a.useCases }

def idTerritory (t : Territory) : IDTerritory :=
  { code := t.code, tlSequence := t.tlSequence
    anchors := (t.anchors.map idAnchor).insertionSort fun a b => a.fingerprint ≤ b.fingerprint }

/-- Fingerprint, then type. -/
def idAnchorLe (a b : IDAnchor) : Prop :=
  if a.fingerprint ≠ b.fingerprint then a.fingerprint < b.fingerprint else a.type ≤ b.type

instance : DecidableRel idAnchorLe := fun a b =>
  inferInstanceAs (Decidable
    (if a.fingerprint ≠ b.fingerprint then a.fingerprint < b.fingerprint else a.type ≤ b.type))

/-- The projection that defines the content hash. A failed territory contributes nothing. -/
def idContent (s : Snapshot) : IDContent :=
  { lotlSequence := s.lotlSequence
    territories := ((s.territories.filter fun t => !t.failed).map idTerritory).insertionSort
      fun a b => a.code ≤ b.code
    internal := (s.internal.map idAnchor).insertionSort idAnchorLe
    pending := (s.pending.map fun p => p.anchor.fingerprintSHA256).insertionSort (· ≤ ·) }

/-- `ComputeID`: the hash; the callers store it in `id`. -/
def computeID (s : Snapshot) : String := rt.sha256hex (rt.marshalID (idContent s))

/-! ## Bundles -/

/-- The request of a bundle. -/
structure Query where
  territories : List String
  use : String
  qscdOnly : Bool
  anchorType : String
  keys : String
deriving DecidableEq

/-- `matches`: the type, QSCD and use dimensions. -/
def Query.matches (q : Query) (a : Anchor) : Bool :=
  a.type = q.anchorType && (!q.qscdOnly || a.qcWithQSCD) && a.matchesUse q.use

/-- `include`: no territory named means all of them. -/
def Query.includes (q : Query) (code : String) : Bool :=
  q.territories = [] || q.territories.any fun t => rt.equalFold t code

/-- `matches`, and the key dimension. -/
def Query.admits (q : Query) (a : Anchor) : Bool :=
  q.matches a && (q.keys = keysAll || a.keyCommon)

/-- `Filter` -/
def filter (s : Snapshot) (q : Query) : Except Err (List Anchor) :=
  if !validUse q.use then
    .error (.failure ("trust: invalid use " ++ q.use.quote ++ " (accepted: " ++
      ", ".intercalate validUses ++ ")"))
  else if q.anchorType ≠ "" && !validAnchorType q.anchorType then
    .error (.failure ("trust: invalid type " ++ q.anchorType.quote))
  else if !validKeys q.keys then
    .error (.failure ("trust: invalid keys " ++ q.keys.quote ++ " (accepted: " ++ keysCommon ++
      ", " ++ keysAll ++ ")"))
  else
    .ok (((s.territories.filter fun t => q.includes rt t.code).flatMap fun t =>
        t.anchors.filter q.admits) ++ s.internal.filter q.admits)

/-! ## The diff -/

structure IndexedAnchor where
  anchor : Anchor
  territory : String

/-- `m[key] = v` -/
def mapInsert {α : Type} (m : List (String × α)) (key : String) (v : α) : List (String × α) :=
  m.filter (fun e => e.1 ≠ key) ++ [(key, v)]

/-- `anchorIndex`: territory anchors by code and fingerprint, declared ones by fingerprint and
type. -/
def anchorIndex (s : Option Snapshot) : List (String × IndexedAnchor) :=
  match s with
  | none => []
  | some s =>
    let territories := s.territories.flatMap fun t => t.anchors.map fun a =>
      (t.code ++ "/" ++ a.fingerprintSHA256, IndexedAnchor.mk a t.code)
    let internal := s.internal.map fun a =>
      ("internal/" ++ a.fingerprintSHA256 ++ "/" ++ a.type, IndexedAnchor.mk a "internal")
    (territories ++ internal).foldl (fun m e => mapInsert m e.1 e.2) []

/-- `entry` -/
def diffEntry (kind : DiffKind) (ia : IndexedAnchor) (detail : String) : DiffEntry :=
  { kind, territory := ia.territory, fingerprint := ia.anchor.fingerprintSHA256,
    type := ia.anchor.type, tspName := ia.anchor.tspName, serviceName := ia.anchor.serviceName,
    status := ia.anchor.status, detail, source := ia.anchor.source }

/-- `metadataChange`: what changed on one certificate, `""` for nothing. -/
def metadataChange (old next : IndexedAnchor) : String :=
  if old.anchor.status ≠ next.anchor.status then
    "status: " ++ old.anchor.status ++ " -> " ++ next.anchor.status
  else if old.anchor.qcWithQSCD ≠ next.anchor.qcWithQSCD then "qcWithQscd changed"
  else if old.anchor.uses ≠ next.anchor.uses then "uses changed"
  else if old.anchor.serviceName ≠ next.anchor.serviceName then "service name changed"
  else ""

/-- Territory, kind, fingerprint, type. -/
def diffEntryLe (a b : DiffEntry) : Prop :=
  if a.territory ≠ b.territory then a.territory < b.territory
  else if a.kind.name ≠ b.kind.name then a.kind.name < b.kind.name
  else if a.fingerprint ≠ b.fingerprint then a.fingerprint < b.fingerprint
  else a.type ≤ b.type

instance : DecidableRel diffEntryLe := fun a b =>
  inferInstanceAs (Decidable (if a.territory ≠ b.territory then a.territory < b.territory
    else if a.kind.name ≠ b.kind.name then a.kind.name < b.kind.name
    else if a.fingerprint ≠ b.fingerprint then a.fingerprint < b.fingerprint
    else a.type ≤ b.type))

/-- `ComputeDiff` -/
def computeDiff (prev : Option Snapshot) (next : Snapshot) : Diff :=
  let prevSet := anchorIndex prev
  let nextSet := anchorIndex (some next)
  let fromNext := nextSet.filterMap fun e =>
    match prevSet.lookup e.1 with
    | none => some (diffEntry .added e.2 "")
    | some old =>
      let detail := metadataChange old e.2
      if detail ≠ "" then some (diffEntry .changed e.2 detail) else none
  let removed := prevSet.filterMap fun e =>
    if (nextSet.lookup e.1).isNone then some (diffEntry .removed e.2 "") else none
  { prevID := (prev.map (·.id)).getD ""
    entries := (fromNext ++ removed).insertionSort diffEntryLe }

end TrustAnchor.Trust
