import TrustAnchor.Ingest.Manager
import TrustAnchor.Lib.Interleaving

/-!
# Goroutines on one manager

`ReconcileDeclared`, `Refresh` and `ApprovePending` lock the manager's mutex in their first line and defer
the unlock; `Active` and `Bootstrap` load an atomic pointer without it. A call is given here as the steps
that somebody else can see: the lock and the unlock, the loads, the write to the store, the swap of the
pointer. The pipeline's fetcher is only touched between lock and unlock, so a whole cycle is one step.
-/

namespace TrustAnchor.Ingest

open Lib Tsl Trust

/-- The calls that take the mutex, with everything the environment answers during them. -/
inductive Call where
  | reconcileDeclared (d : Service.Declared)
  | refresh (inp : Service.RefreshInput)
  | approvePending (fingerprint : String) (now : Time) (refused : Option String)

/-- What a call returns; a refresh without a bootstrap set does not run. -/
inductive Reply where
  | reconciled (changed : Bool)
  | refreshed (out : Option Service.RefreshOutcome)
  | approved (res : Except Err Snapshot)

abbrev Body := Prog Service Reply

variable (rt : Runtime) (cfg : Config)

/-! ## The calls, step by step -/

/-- `reconcileDeclared` on the loaded snapshot. What follows gets the snapshot to build on, whether
anything changed, and the load report. -/
def reconcileBody (d : Service.Declared) (prev : Option Snapshot)
    (k : Option Snapshot → Bool → Option DeclaredSourceState → Body) : Body :=
  match prev with
  | none => k none false none
  | some prev =>
    match refreshDeclared rt cfg d.readFile prev d.now with
    | .error _ => k (some prev) false none
    | .ok (none, rep) => k (some prev) false (some rep)
    | .ok (some next, rep) =>
      .step (·.saveSnapshot d.saveSnapshot next) fun _ =>
      .step (·.activate .declared next) fun _ => k (some next) true (some rep)

/-- The end of `Refresh`: the cycle's snapshot is written if it has to be, and served. -/
def activateBody (inp : Service.RefreshInput) (prev : Option Snapshot) (next : Snapshot) (k : Body) : Body :=
  if Service.persists prev next then
    .step (·.saveSnapshot inp.saveSnapshot next) fun _ =>
    .step (·.activate (.cycle inp.cycle.now) next) fun _ => k
  else .step (·.activate (.cycle inp.cycle.now) next) fun _ => k

/-- `Refresh` after its two loads. -/
def refreshBody (inp : Service.RefreshInput) (prev : Option Snapshot) (boot : Bootstrap) : Body :=
  reconcileBody rt cfg inp.declared prev fun prev declaredChanged rep =>
  .step (fun m => { m with fetcher := (Ingest.refresh rt cfg inp.cycle prev boot m.fetcher).2 }) fun m =>
    match (Ingest.refresh rt cfg inp.cycle prev boot m.fetcher).1 with
    | .error e =>
      .ret (.refreshed (some { snapshot := prev, changed := declaredChanged, declaredChanged,
                               declared := rep, cycleErr := some e }))
    | .ok next =>
      activateBody inp prev next
        (.ret (.refreshed (some { snapshot := some next
                                  changed := declaredChanged || Service.cycleChanged prev next
                                  declaredChanged, declared := next.declaredLoad, cycleErr := none })))

/-- `ApprovePending` after its load. -/
def approveBody (fingerprint : String) (now : Time) (refused : Option String) (cur : Option Snapshot) :
    Body :=
  match cur with
  | none => .ret (.approved (.error (.failure "ingest: no active snapshot")))
  | some cur =>
    match cur.pending.find? fun pa => pa.anchor.fingerprintSHA256 = fingerprint with
    | none =>
      .ret (.approved (.error (.failure ("ingest: no pending anchor with fingerprint " ++ fingerprint))))
    | some approved =>
      match cloneSnapshot rt cur with
      | .error e => .ret (.approved (.error e))
      | .ok next =>
        let next := Service.approve rt cur next approved.anchor now
        .step (·.saveSnapshot refused next) fun _ =>
          match refused with
          | some e => .ret (.approved (.error (.failure ("ingest: persist approved snapshot: " ++ e))))
          | none => .step (·.activate (.approve fingerprint) next) fun _ => .ret (.approved (.ok next))

/-- What a call does between its lock and its unlock. -/
def Call.steps : Call → Body
  | .reconcileDeclared d =>
    .step id fun m => reconcileBody rt cfg d m.active fun _ changed _ => .ret (.reconciled changed)
  | .refresh inp =>
    .step id fun m => .step id fun m' =>
      match m'.bootstrap with
      | none => .ret (.refreshed none)
      | some boot => refreshBody rt cfg inp m.active boot
  | .approvePending fp now refused => .step id fun m => approveBody rt fp now refused m.active

/-- A call: `m.mu.Lock()`, `defer m.mu.Unlock()` and what follows. -/
def Call.body (c : Call) : Body := .lock (c.steps rt cfg).deferUnlock

/-! ## Processes -/

/-- One process: its configuration, what its start meets, and what its goroutines do, in the order in
which it happens, until the process is stopped or killed. -/
structure Life where
  cfg : Config
  startup : Service.Startup
  events : List (Event Call)

/-- The process at the end of its events, on the store of `m`. -/
def Life.machine (l : Life) (m : Service) : Machine Call Service Reply :=
  Machine.run (Call.body rt l.cfg) l.events { shared := (m.newProcess.initializeManager l.startup).2 }

/-- Processes on one store, one after the other. -/
def lives (ls : List Life) (m : Service) : Service := runFrom (fun l m => (l.machine rt m).shared) ls m

/-! ## The same as operations -/

/-- The call with nobody else around. -/
def Call.op : Call → Op
  | .reconcileDeclared d => .reconcileDeclared d
  | .refresh inp => .refresh inp
  | .approvePending fp now refused => .approvePending fp now refused

/-- What the call returns when it is made in `m`. -/
def Call.reply (m : Service) : Call → Reply
  | .reconcileDeclared d => .reconciled (m.reconcileDeclared rt cfg d).1.1
  | .refresh inp => .refreshed (m.bootstrap.map fun boot => (m.refresh rt cfg boot inp).1)
  | .approvePending fp now refused => .approved (m.approvePending rt fp now refused).1

/-- The call as an operation that also replies. -/
def Call.exec (c : Call) (m : Service) : Reply × Service := (c.reply rt cfg m, m.step rt cfg c.op)

end TrustAnchor.Ingest
