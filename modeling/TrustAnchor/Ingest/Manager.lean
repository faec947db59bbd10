import TrustAnchor.Ingest.Pipeline
import TrustAnchor.Lib.Counter
import TrustAnchor.Lib.Run

/-!
# The manager

The served snapshot, the store behind it, and the operations that move them. A `Service` is one
manager together with the store that outlives it; it also keeps the history of what was served.
-/

namespace TrustAnchor.Ingest

open Lib Tsl Trust

/-- The persisted state: the two "latest" objects. -/
structure Store where
  bootstrap : Option Bootstrap := none
  snapshot : Option Snapshot := none

/-- Why a snapshot became the served one. -/
inductive Cause where
  | restore
  | declared
  | cycle (now : Time)
  | approve (fingerprint : String)
deriving DecidableEq

structure Activation where
  cause : Cause
  snapshot : Snapshot

structure Service where
  active : Option Snapshot := none
  bootstrap : Option Bootstrap := none
  store : Store := {}
  fetcher : Fetcher
  /-- Every activation of the process, newest first. -/
  history : List Activation := []

variable (rt : Runtime) (cfg : Config)

namespace Service

/-- `activate` -/
def activate (m : Service) (cause : Cause) (next : Snapshot) : Service :=
  { m with active := some next, history := ⟨cause, next⟩ :: m.history }

/-- `SaveSnapshot`, with the error the store answers, if any. A refused write leaves the latest
snapshot as it was; a stored one comes back without its load report. -/
def saveSnapshot (m : Service) (refused : Option String) (next : Snapshot) : Service :=
  match refused with
  | some _ => m
  | none => { m with store := { m.store with snapshot := some { next with declaredLoad := none } } }

/-! ## Startup -/

/-- What `Initialize` meets: errors of the two loads and of the bootstrap write, and the seed, which
is `none` when no path is configured. -/
structure Startup where
  loadBootstrap : Option String := none
  seed : Option (Except Err Bootstrap) := none
  saveBootstrap : Option String := none
  loadSnapshot : Option String := none

/-- The bootstrap set of `Initialize`; a new one is persisted first. -/
def loadBootstrap (m : Service) (st : Startup) : Except Err Bootstrap × Service :=
  match st.loadBootstrap with
  | some e => (.error (.failure ("ingest: load bootstrap from store: " ++ e)), m)
  | none =>
    match m.store.bootstrap with
    | some boot => (.ok boot, m)
    | none =>
      match st.seed with
      | none =>
        (.error (.failure ("ingest: no bootstrap in store and no LOTL_BOOTSTRAP_CERTS_PATH " ++
          "configured — the operator-pinned signer set is required at first install")), m)
      | some (.error e) => (.error e, m)
      | some (.ok boot) =>
        match st.saveBootstrap with
        | some e => (.error (.failure ("ingest: persist seeded bootstrap: " ++ e)), m)
        | none => (.ok boot, { m with store := { m.store with bootstrap := some boot } })

/-- `Initialize` -/
def initializeManager (m : Service) (st : Startup) : Except Err Unit × Service :=
  match m.loadBootstrap st with
  | (.error e, m) => (.error e, m)
  | (.ok boot, m) =>
    let m := { m with bootstrap := some boot }
    match st.loadSnapshot with
    | some e => (.error (.failure ("ingest: load snapshot from store: " ++ e)), m)
    | none =>
      match m.store.snapshot with
      | none => (.ok (), m)
      | some snap => (.ok (), m.activate .restore snap)

/-- A new process on the same store. The requests of earlier processes stay on record. -/
def newProcess (m : Service) : Service :=
  { store := m.store, fetcher := { newFetcher m.fetcher.maxSize with sent := m.fetcher.sent } }

/-! ## Declared sources -/

/-- What one reconcile of the declared sources meets. -/
structure Declared where
  now : Time
  readFile : String → Except String Bytes
  saveSnapshot : Option String := none

/-- `reconcileDeclared`: whether anything changed, and the load report. -/
def reconcileDeclared (m : Service) (d : Declared) :
    (Bool × Option DeclaredSourceState) × Service :=
  match m.active with
  | none => ((false, none), m)
  | some prev =>
    match refreshDeclared rt cfg d.readFile prev d.now with
    | .error _ => ((false, none), m)
    | .ok (none, rep) => ((false, some rep), m)
    | .ok (some next, rep) =>
      -- a refused write does not stop the activation
      ((true, some rep), (m.saveSnapshot d.saveSnapshot next).activate .declared next)

/-! ## Refresh -/

/-- `RefreshOutcome` -/
structure RefreshOutcome where
  snapshot : Option Snapshot
  changed : Bool
  declaredChanged : Bool
  declared : Option DeclaredSourceState
  cycleErr : Option Err

def pendingEqual (a b : List PendingAnchor) : Bool :=
  a.map (fun p => (p.anchor.fingerprintSHA256, p.anchor.territory)) =
    b.map fun p => (p.anchor.fingerprintSHA256, p.anchor.territory)

def skippedKey (s : SkippedService) : String :=
  s.tspName ++ "/" ++ s.serviceName ++ "/" ++ s.fingerprintSHA256 ++ "/" ++ s.reason

/-- `skippedEqual`: the keys of the one are counted, those of the other taken off. -/
def skippedEqual (a b : List SkippedService) : Bool :=
  if a.length ≠ b.length then false
  else Counter.takeAll (Counter.tally (a.map skippedKey)) (b.map skippedKey)

/-- `territoryStateChanged` -/
def territoryStateChanged (prev next : Snapshot) : Bool :=
  next.territories.any fun t =>
    match prev.territory t.code with
    | none => true
    | some pt =>
      pt.carriedOver ≠ t.carriedOver || pt.tlSequence ≠ t.tlSequence || pt.failed ≠ t.failed ||
        pt.failureReason ≠ t.failureReason || !skippedEqual pt.skipped t.skipped

def lotlInputChanged (prev next : Snapshot) : Bool := prev.lotlDigest ≠ next.lotlDigest

/-- `cycleChanged` -/
def cycleChanged (prev : Option Snapshot) (next : Snapshot) : Bool :=
  match prev with
  | none => true
  | some p => next.id ≠ p.id || !pendingEqual p.pending next.pending || territoryStateChanged p next

/-- The cycle writes its snapshot on a served change, or when the inputs of the next download skip
moved. -/
def persists (prev : Option Snapshot) (next : Snapshot) : Bool :=
  cycleChanged prev next || prev.any fun p => lotlInputChanged p next

/-- What one `Refresh` meets: the reconcile, the cycle, and the answer to the cycle's write. -/
structure RefreshInput where
  declared : Declared
  cycle : Cycle
  saveSnapshot : Option String := none

/-- The cycle half of `Refresh`, once it has a snapshot. -/
def activateCycle (m : Service) (inp : RefreshInput) (next : Snapshot) : Service :=
  let m' := if persists m.active next then m.saveSnapshot inp.saveSnapshot next else m
  m'.activate (.cycle inp.cycle.now) next

/-- `Refresh`. It has a bootstrap set to run on from a completed `Initialize` on. -/
def refresh (m : Service) (boot : Bootstrap) (inp : RefreshInput) : RefreshOutcome × Service :=
  let ((declaredChanged, rep), m) := m.reconcileDeclared rt cfg inp.declared
  match Ingest.refresh rt cfg inp.cycle m.active boot m.fetcher with
  | (.error e, fetcher) =>
    ({ snapshot := m.active, changed := declaredChanged, declaredChanged, declared := rep,
       cycleErr := some e }, { m with fetcher })
  | (.ok next, fetcher) =>
    ({ snapshot := some next, changed := declaredChanged || cycleChanged m.active next,
       declaredChanged, declared := next.declaredLoad, cycleErr := none },
      { m with fetcher }.activateCycle inp next)

/-! ## Approval -/

/-- Moves one held addition into its territory's served anchors; a territory that is missing is
added. -/
def moveToTerritory (s : Snapshot) (a : Anchor) : List Territory :=
  let add := fun t : Territory => { t with anchors := (t.anchors ++ [a]).insertionSort anchorLe }
  match s.territories.findIdx? fun t => t.code = a.territory with
  | some i => s.territories.modify i add
  | none =>
    (s.territories ++ [add { code := a.territory }]).insertionSort fun t u => t.code ≤ u.code

/-- The snapshot that approves the held addition `a` of `cur`. -/
def approve (cur next : Snapshot) (a : Anchor) (now : Time) : Snapshot :=
  stamp rt (some cur)
    { next with
      pending := next.pending.eraseP fun pa => pa.anchor.fingerprintSHA256 = a.fingerprintSHA256
      territories := moveToTerritory next a
      generatedAt := now }

/-- `ApprovePending`; the error of the write fails it. -/
def approvePending (m : Service) (fingerprint : String) (now : Time) (refused : Option String) :
    Except Err Snapshot × Service :=
  match m.active with
  | none => (.error (.failure "ingest: no active snapshot"), m)
  | some cur =>
    -- the first entry with the fingerprint, in whatever territory it is
    match cur.pending.find? fun pa => pa.anchor.fingerprintSHA256 = fingerprint with
    | none =>
      (.error (.failure ("ingest: no pending anchor with fingerprint " ++ fingerprint)), m)
    | some approved =>
      match cloneSnapshot rt cur with
      | .error e => (.error e, m)
      | .ok next =>
        let next := approve rt cur next approved.anchor now
        match refused with
        | some e => (.error (.failure ("ingest: persist approved snapshot: " ++ e)), m)
        | none => (.ok next, (m.saveSnapshot none next).activate (.approve fingerprint) next)

end Service

/-! ## Runs -/

/-- One operation on the manager, with everything the environment answers during it. -/
inductive Op where
  | restart (st : Service.Startup)
  | reconcileDeclared (d : Service.Declared)
  | refresh (inp : Service.RefreshInput)
  | approvePending (fingerprint : String) (now : Time) (refused : Option String)

/-- The state after one operation. Without a bootstrap set no refresh runs. -/
def Service.step (op : Op) (m : Service) : Service :=
  match op with
  | .restart st => (m.newProcess.initializeManager st).2
  | .reconcileDeclared d => (m.reconcileDeclared rt cfg d).2
  | .refresh inp =>
    match m.bootstrap with
    | none => m
    | some boot => (m.refresh rt cfg boot inp).2
  | .approvePending fp now refused => (m.approvePending rt fp now refused).2

/-- The state after a run: each operation comes with the configuration of its process. -/
def Service.run (ops : List (Config × Op)) (m : Service) : Service :=
  runFrom (fun i m => m.step rt i.1 i.2) ops m

/-- An empty store and a process that has not been started. -/
def Service.empty (maxSize : Int) : Service := { fetcher := newFetcher maxSize }

end TrustAnchor.Ingest
