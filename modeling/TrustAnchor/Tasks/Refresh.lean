import TrustAnchor.Ingest.Concurrent

/-!
# The refresh task

The loop that runs a cycle every interval, earlier when a list is due, and on a trigger. It shares the manager with
everybody else who calls it; time passes and calls are made while it sleeps.
-/

namespace TrustAnchor.Trust.Snapshot

/-- One round of `EarliestNextUpdate`: an instant that is not known, or zero, is passed over. -/
def consider (earliest : Time) : Option Time → Time
  | none => earliest
  | some t => if t = zeroTime then earliest else if earliest = zeroTime ∨ t < earliest then t else earliest

/-- `EarliestNextUpdate`, which is zero when no update is known. -/
def earliestNextUpdate (s : Snapshot) : Time :=
  (s.territories.map Territory.nextUpdate).foldl consider (consider zeroTime s.lotlNextUpdate)

end TrustAnchor.Trust.Snapshot

namespace TrustAnchor.Tasks

open Trust Ingest

def minWake : Duration := 60 * 1000000000

variable (rt : Runtime) (cfg : Config) (interval : Duration)

/-- `nextWake` -/
def nextWake (now : Time) (active : Option Snapshot) : Duration :=
  let wake := match active with
    | none => interval
    | some snap =>
      let due := snap.earliestNextUpdate
      if due ≠ zeroTime ∧ timeSub due now < interval then timeSub due now else interval
  if wake < minWake then minWake else wake

/-- What makes the task run a cycle. -/
inductive Trigger where
  | first
  | kick
  | timer
deriving DecidableEq

/-- A cycle that the task has run. -/
structure Run where
  trigger : Trigger
  started : Time
  finished : Time

/-- Where the goroutine is. While it sleeps, it is kept when the timer was armed, on which snapshot, and when it
fires. -/
inductive Phase where
  | starting
  | arming
  | sleeping (armed : Time) (served : Option Snapshot) (wake : Time)
  | returned

structure Task where
  now : Time
  phase : Phase := .starting
  /-- The trigger channel holds a value; further ones are dropped. -/
  kicked : Bool := false
  cancelled : Bool := false
  service : Service
  /-- The cycles of the task, newest first. -/
  runs : List Run := []

/-- The cases of the `select`. -/
inductive Case where
  | done
  | kick
  | timer

/-- What happens next: time passes, somebody calls the manager or triggers the task, the task is stopped, or its
goroutine goes on. The runtime picks the case of the `select`; `inp` is what a cycle meets, and `took` how long it
takes. -/
inductive Happening where
  | passes (d : Nat)
  | call (c : Call)
  | triggerRefresh
  | stop
  | goes (pick : Case) (inp : Service.RefreshInput) (took : Nat)

namespace Task

/-- `run` -/
def cycle (t : Task) (trigger : Trigger) (inp : Service.RefreshInput) (took : Nat) : Task :=
  if t.cancelled then t
  else
    { t with now := t.now + took, service := t.service.step rt cfg (.refresh inp)
             runs := ⟨trigger, t.now, t.now + took⟩ :: t.runs }

/-- One step of the goroutine that `Start` launches. A case that is not ready is not taken. -/
def go (t : Task) (pick : Case) (inp : Service.RefreshInput) (took : Nat) : Task :=
  match t.phase with
  | .starting =>
    let t := if t.service.active.isNone then t.cycle rt cfg .first inp took else t
    { t with phase := .arming }
  | .arming =>
    { t with phase := .sleeping t.now t.service.active (t.now + nextWake interval t.now t.service.active) }
  | .sleeping _ _ wake =>
    match pick with
    | .done => if t.cancelled then { t with phase := .returned } else t
    | .kick =>
      if t.kicked then { ({ t with kicked := false }.cycle rt cfg .kick inp took) with phase := .arming } else t
    | .timer => if wake ≤ t.now then { (t.cycle rt cfg .timer inp took) with phase := .arming } else t
  | .returned => t

def step (h : Happening) (t : Task) : Task :=
  match h with
  | .passes d => { t with now := t.now + d }
  | .call c => { t with service := t.service.step rt cfg c.op }
  | .triggerRefresh => { t with kicked := true }
  | .stop => { t with cancelled := true }
  | .goes pick inp took => t.go rt cfg interval pick inp took

def run (t : Task) (hs : List Happening) : Task := Lib.runFrom (step rt cfg interval) hs t

end Task

end TrustAnchor.Tasks
