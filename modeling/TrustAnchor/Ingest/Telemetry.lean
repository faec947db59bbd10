import TrustAnchor.Ingest.Manager
import TrustAnchor.Lib.Quote

/-!
# Gauges

The gauges that are recomputed whenever a snapshot becomes the served one. A series is named by its metric and its
quoted labels. A family of series is a map from names to readings that a process starts without.
-/

namespace TrustAnchor.Ingest

open Lib Tsl Trust

-- `strconv.IsPrint`, which decides what `%q` escapes
variable (isPrint : Char → Bool)

def metricAnchorsTotal : String := "trust_anchors_total"

def metricTerritoryFailed : String := "trust_territory_failed"

def metricServicesSkipped : String := "trust_services_skipped"

/-! ## Series -/

/-- The verb `%q`. -/
def quoted (s : String) : String := String.ofList (quote isPrint s)

def anchorSeries (source territory typ : String) : String :=
  metricAnchorsTotal ++ "\x7bsource=" ++ quoted isPrint source ++ ",territory=" ++ quoted isPrint territory ++
    ",type=" ++ quoted isPrint typ ++ "\x7d"

def failedSeries (territory : String) : String :=
  metricTerritoryFailed ++ "\x7bterritory=" ++ quoted isPrint territory ++ "\x7d"

def skippedSeries (territory reason : String) : String :=
  metricServicesSkipped ++ "\x7bterritory=" ++ quoted isPrint territory ++ ",reason=" ++ quoted isPrint reason ++ "\x7d"

/-- The series of each anchor that the snapshot serves. -/
def anchorNames (s : Snapshot) : List String :=
  (s.territories.flatMap fun t => t.anchors.map fun a => anchorSeries isPrint a.source t.code a.type) ++
    s.internal.map fun a => anchorSeries isPrint a.source a.territory a.type

/-- The series of each service that was skipped. -/
def skippedNames (s : Snapshot) : List String :=
  s.territories.flatMap fun t => t.skipped.map fun sk => skippedSeries isPrint t.code sk.reason

/-! ## Recomputing -/

/-- `setSkippedGauges` -/
def setSkippedGauges (s : Option Snapshot) (seen : Counter String) : Counter String :=
  Counter.publish (Counter.tally (s.elim [] (skippedNames isPrint))) seen

/-- `setTerritoryFailedGauges` -/
def setTerritoryFailedGauges (s : Option Snapshot) (seen : Counter String) : Counter String :=
  Counter.publish (Counter.store (fun t => failedSeries isPrint t.code) (fun t => if t.failed then 1 else 0)
    (s.elim [] Snapshot.territories) ∅) seen

/-- `setAnchorGauges` -/
def setAnchorGauges (s : Option Snapshot) (seen : Counter String) : Counter String :=
  Counter.publish (Counter.tally (s.elim [] (anchorNames isPrint))) seen

/-- The series of a process, by family. -/
structure Gauges where
  anchors : Counter String := ∅
  failed : Counter String := ∅
  skipped : Counter String := ∅

/-- What `activate` does to them. -/
def Gauges.activate (g : Gauges) (next : Snapshot) : Gauges where
  anchors := setAnchorGauges isPrint (some next) g.anchors
  failed := setTerritoryFailedGauges isPrint (some next) g.failed
  skipped := setSkippedGauges isPrint (some next) g.skipped

/-- The gauges after the activations of a process, the newest first. -/
def gauges (history : List Activation) : Gauges :=
  history.foldr (fun a g => g.activate isPrint a.snapshot) {}

end TrustAnchor.Ingest
