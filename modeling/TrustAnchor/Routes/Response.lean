import TrustAnchor.Trust.Snapshot

/-!
# Response bodies
-/

namespace TrustAnchor.Routes

open Trust

/-- `response.Anchors` -/
structure Anchors where
  snapshot : String
  generatedAt : Time
  stale : Bool
  anchors : List Anchor
deriving DecidableEq

/-- `NewAnchors` -/
def newAnchors (snap : Snapshot) (anchors : List Anchor) (stale : Bool) : Anchors :=
  { snapshot := snap.id, generatedAt := snap.generatedAt, stale, anchors }

/-! ## The snapshot summary -/

structure TerritorySummary where
  code : String
  tlSequence : Nat
  issueTime : Time
  nextUpdate : Option Time
  stale : Bool
  carriedOver : Bool
  carriedOverReason : String
  failed : Bool
  failureReason : String
  anchorCount : Nat
  skippedCount : Nat
  skipped : List SkippedService
  heldCount : Nat
deriving DecidableEq

structure BootstrapSummary where
  version : Int
  ojReference : String
  fingerprints : List String
deriving DecidableEq

/-- `response.Snapshot` -/
structure SnapshotSummary where
  id : String
  prevID : String
  generatedAt : Time
  lotlSequence : Nat
  lotlIssueTime : Time
  lotlNextUpdate : Option Time
  lotlPivotSeq : Nat
  advertisedOJ : String
  territories : List TerritorySummary
  internalCount : Nat
  diff : Option Diff
  pending : List PendingAnchor
  bootstrap : Option BootstrapSummary
deriving DecidableEq

/-- `heldCount`: the anchors outside the default bundle. -/
def heldCount (anchors : List Anchor) : Nat := anchors.countP fun a => !a.keyCommon

def territorySummary (now : Time) (grace : Duration) (t : Territory) : TerritorySummary :=
  { code := t.code, tlSequence := t.tlSequence, issueTime := t.issueTime, nextUpdate := t.nextUpdate
    stale := t.staleAt now grace, carriedOver := t.carriedOver, carriedOverReason := t.carriedOverReason
    failed := t.failed, failureReason := t.failureReason, anchorCount := t.anchors.length
    skippedCount := t.skipped.length, skipped := t.skipped, heldCount := heldCount t.anchors }

/-- `Bootstrap.Fingerprints` -/
def bootstrapFingerprints (rt : Runtime) (boot : Bootstrap) : List String :=
  (boot.certsDER.map rt.sha256hex).insertionSort (· ≤ ·)

/-- `NewSnapshot` -/
def newSnapshot (rt : Runtime) (snap : Snapshot) (boot : Option Bootstrap) (now : Time) (grace : Duration) :
    SnapshotSummary :=
  { id := snap.id, prevID := snap.prevID, generatedAt := snap.generatedAt
    lotlSequence := snap.lotlSequence, lotlIssueTime := snap.lotlIssueTime
    lotlNextUpdate := snap.lotlNextUpdate, lotlPivotSeq := snap.lotlPivotSeq
    advertisedOJ := snap.advertisedOJ, internalCount := snap.internal.length, diff := snap.diff
    pending := snap.pending, territories := snap.territories.map (territorySummary now grace)
    bootstrap := boot.map fun b =>
      { version := b.version, ojReference := b.ojReference, fingerprints := bootstrapFingerprints rt b } }

/-! ## The refresh report -/

structure RefreshTerritories where
  ok : Nat := 0
  failed : List String := []
  carriedOver : List String := []
deriving DecidableEq

/-- `RefreshDeclared`, `RefreshCycle` and `Refresh` -/
structure Refresh where
  snapshot : String
  changed : Bool
  declaredChanged : Bool
  declaredCarriedOver : Bool
  declaredError : String
  cycleOK : Bool
  cycleError : String := ""
  territories : Option RefreshTerritories := none
deriving DecidableEq

/-- One round of the loop of `NewRefresh`. -/
def RefreshTerritories.add (terr : RefreshTerritories) (t : Territory) : RefreshTerritories :=
  if t.failed then { terr with failed := terr.failed ++ [t.code] }
  else if t.carriedOver then { terr with carriedOver := terr.carriedOver ++ [t.code] }
  else { terr with ok := terr.ok + 1 }

/-- `NewRefresh`: the territories are drawn from the served snapshot when the cycle completed. -/
def newRefresh (served : Snapshot) (changed declaredChanged declaredCarriedOver : Bool) (declaredErr : String)
    (cycleErr : Option Err) : Refresh :=
  let out : Refresh :=
    { snapshot := served.id, changed, declaredChanged, declaredCarriedOver, declaredError := declaredErr
      cycleOK := cycleErr.isNone }
  match cycleErr with
  | some e => { out with cycleError := e.msg }
  | none => { out with territories := some (served.territories.foldl RefreshTerritories.add {}) }

/-- `response.Approved` -/
structure Approved where
  snapshot : String
  fingerprint : String
deriving DecidableEq

end TrustAnchor.Routes
