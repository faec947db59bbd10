import TrustAnchor.Events.Types
import TrustAnchor.Ingest.Manager
import TrustAnchor.Lib.Emission

/-!
# Where events are emitted

The functions of the pipeline and of the manager once more, with the security events that they emit and in
the order in which they emit them. What a failed part has emitted stays emitted.
-/

namespace TrustAnchor.Ingest.Emission

open Lib Tsl Trust Events

variable (rt : Runtime) (cfg : Config)

/-! ## The pipeline -/

section Pipeline

variable {σ : Type}

/-- The event for a list that is past its next update. -/
def staleEvents (now : Time) (code : String) (t : Territory) : List SecurityEvent :=
  if t.staleAt now cfg.staleGrace then t.nextUpdate.toList.map (.stale code) else []

/-- `fetchTerritory`. A list that is confirmed unchanged is not looked at again. -/
def fetchTerritory (cy : Cycle) (ps : PointerSet) (code : String) (prev : Option Snapshot) :
    Emitting Fetcher SecurityEvent Err Territory := do
  let lp ← Fallible.ofExcept (ps.pointerFor code)
  let prevT := prev.bind (·.territory code)
  match ← Fallible.attempt (Emitting.quiet (fetchTL rt cfg cy code lp prevT)) with
  | .error e => .ofExcept (reuseUnchanged prevT (fun t => { t with carriedOver := false }) e)
  | .ok raw => do
    let t ← Fallible.ofExcept (readTerritory rt (nationalTLSource cfg cy.now code lp prevT)
      (cy.clock (.tl code)) raw lp.signersDER)
    Emitting.emit (staleEvents cfg cy.now code t)
    return t

/-- The event for a territory that failed. -/
def failureEvent (code : String) (e : Err) : SecurityEvent :=
  if e.egressBlocked then .egressBlocked code e.msg else .refreshFailure ("territory:" ++ code) e.msg

/-- `ingestTerritory` -/
def ingestTerritory (cy : Cycle) (ps : PointerSet) (code : String) (prev : Option Snapshot) :
    Emitting Fetcher SecurityEvent Err Territory := do
  match ← Fallible.attempt (fetchTerritory rt cfg cy ps code prev) with
  | .ok t => pure t
  | .error e => do
    Emitting.emit [failureEvent code e]
    let t ← Fallible.ofExcept (carryOver prev code e)
    Emitting.emit (staleEvents cfg cy.now code t)
    return t

/-- The territory loop of `Refresh`. -/
def ingestTerritories (cy : Cycle) (ps : PointerSet) (prev : Option Snapshot) :
    List String → Emitting Fetcher SecurityEvent Err (List Territory × Nat)
  | [] => pure ([], 0)
  | code :: codes => do
    match ← Fallible.attempt (ingestTerritory rt cfg cy ps code prev) with
    | .error e => do
      let (ts, withData) ← ingestTerritories cy ps prev codes
      return (failedTerritory code e :: ts, withData)
    | .ok t => do
      let (ts, withData) ← ingestTerritories cy ps prev codes
      return (t :: ts, withData + 1)

/-- The event for declared anchors that do not load. -/
def declaredEvents : Except Err (List Anchor) → List SecurityEvent
  | .error e => [.internalSourceError e.msg]
  | .ok _ => []

/-- `applyDeclaredSources` -/
def applyDeclaredSources (readFile : String → Except String Bytes) (prev : Option Snapshot) (next : Snapshot)
    (now : Time) : Emitting σ SecurityEvent Err (Snapshot × DeclaredSourceState) := do
  Emitting.emit (declaredEvents (loadInternal rt readFile cfg.internalTrustSource now))
  return Ingest.applyDeclaredSources rt cfg readFile prev next now

/-- The event for one anchor under hold mode: released, or held for the first time. -/
def holdEvent (prev : Option Snapshot) (now : Time) (code : String) (a : Anchor) : Option SecurityEvent :=
  match prev with
  | none => none
  | some p =>
    if holdKey code a.fingerprintSHA256 ∈ prevActive p then none
    else
      match prevPending p (holdKey code a.fingerprintSHA256) with
      | some pa =>
        if 0 < cfg.holdAutoRelease ∧ cfg.holdAutoRelease ≤ timeSub now pa.firstSeen then
          some (.pendingApproved a.fingerprintSHA256 "system" "auto-release")
        else none
      | none =>
        some (.anchorChange .added code a.fingerprintSHA256 a.type a.tspName a.serviceName a.status
          "held for approval" true)

/-- The events of `applyHoldMode`. -/
def holdEvents (prev : Option Snapshot) (next : Snapshot) (now : Time) : List SecurityEvent :=
  if cfg.activationMode ≠ .hold then []
  else next.territories.flatMap fun t => t.anchors.filterMap (holdEvent cfg prev now t.code)

/-- `applyHoldMode` -/
def applyHoldMode (prev : Option Snapshot) (next : Snapshot) (now : Time) :
    Emitting σ SecurityEvent Err Snapshot := do
  Emitting.emit (holdEvents cfg prev next now)
  return Ingest.applyHoldMode rt cfg prev next now

/-- The rest of `Refresh` once the list of the lists is known. -/
def assemble (cy : Cycle) (prev : Option Snapshot) (boot : Bootstrap) (res : LOTLResult) :
    Emitting Fetcher SecurityEvent Err Snapshot := do
  let territories := expandTerritories cfg.territories res.pointers
  let (ts, withData) ← ingestTerritories rt cfg cy res.pointers prev territories
  if territories ≠ [] ∧ withData = 0 then .fail errZeroVerified
  else do
    let (next, _) ← applyDeclaredSources rt cfg cy.readFile prev (buildSnapshot cy.now boot res ts) cy.now
    let next ← applyHoldMode rt cfg prev next cy.now
    return stamp rt prev next

/-- `Refresh` -/
def refresh (cy : Cycle) (prev : Option Snapshot) (boot : Bootstrap) :
    Emitting Fetcher SecurityEvent Err Snapshot := do
  let res ← Emitting.quiet (ingestLOTL rt cfg cy prev boot)
  Fallible.ofExcept (checkSequence prev res)
  assemble rt cfg cy prev boot res

/-- `RefreshDeclared` -/
def refreshDeclared (readFile : String → Except String Bytes) (prev : Snapshot) (now : Time) :
    Emitting σ SecurityEvent Err (Option Snapshot × DeclaredSourceState) := do
  let next ← Fallible.ofExcept (cloneSnapshot rt prev)
  let (next, rep) ← applyDeclaredSources rt cfg readFile (some prev) next now
  if computeID rt next = prev.id then return (none, rep)
  else return (some (stamp rt (some prev) { next with generatedAt := now }), rep)

end Pipeline

/-! ## The manager -/

namespace Manager

open Service

/-- The event for a write that the store refuses. -/
def persistEvents (refused : Option String) : List SecurityEvent :=
  refused.toList.map (.refreshFailure "persist")

/-- The event for an entry of the diff. -/
def changeEvent (e : DiffEntry) : SecurityEvent :=
  .anchorChange e.kind e.territory e.fingerprint e.type e.tspName e.serviceName e.status e.detail false

/-- The events for the diff of a snapshot that has become the served one. -/
def changeEvents (next : Snapshot) : List SecurityEvent :=
  ((next.diff.map Diff.entries).getD []).map changeEvent

/-- `reconcileDeclared` -/
def reconcileDeclared (m : Service) (d : Declared) :
    ((Bool × Option DeclaredSourceState) × Service) × List SecurityEvent :=
  match m.active with
  | none => (((false, none), m), [])
  | some prev =>
    match refreshDeclared rt cfg d.readFile prev d.now (m.fetcher, []) with
    | (.error _, _, es) => (((false, none), m), es)
    | (.ok (none, rep), _, es) => (((false, some rep), m), es)
    | (.ok (some next, rep), _, es) =>
      (((true, some rep), (m.saveSnapshot d.saveSnapshot next).activate .declared next),
        es ++ persistEvents d.saveSnapshot ++ changeEvents next)

/-- The events of the cycle half of `Refresh`, once it has a snapshot. -/
def cycleEvents (prev : Option Snapshot) (inp : RefreshInput) (next : Snapshot) : List SecurityEvent :=
  (if persists prev next then persistEvents inp.saveSnapshot else []) ++
    (if cycleChanged prev next then changeEvents next else [])

/-- `Refresh` -/
def refresh (m : Service) (boot : Bootstrap) (inp : RefreshInput) :
    (RefreshOutcome × Service) × List SecurityEvent :=
  let (((declaredChanged, rep), m), declared) := reconcileDeclared rt cfg m inp.declared
  match Emission.refresh rt cfg inp.cycle m.active boot (m.fetcher, declared) with
  | (.error e, fetcher, es) =>
    (({ snapshot := m.active, changed := declaredChanged, declaredChanged, declared := rep,
        cycleErr := some e }, { m with fetcher }), es ++ [.refreshFailure "cycle" e.msg])
  | (.ok next, fetcher, es) =>
    (({ snapshot := some next, changed := declaredChanged || cycleChanged m.active next,
        declaredChanged, declared := next.declaredLoad, cycleErr := none },
      { m with fetcher }.activateCycle inp next), es ++ cycleEvents m.active inp next)

/-- The events of a successful approval. -/
def approvalEvents (fingerprint actor : String) (a : Anchor) : List SecurityEvent :=
  [.pendingApproved fingerprint actor "api",
    .anchorChange .added a.territory a.fingerprintSHA256 a.type a.tspName a.serviceName a.status
      "approved from pending" false]

/-- `ApprovePending` -/
def approvePending (m : Service) (fingerprint actor : String) (now : Time) (refused : Option String) :
    (Except Err Snapshot × Service) × List SecurityEvent :=
  match m.active with
  | none => ((.error (.failure "ingest: no active snapshot"), m), [])
  | some cur =>
    match cur.pending.find? fun pa => pa.anchor.fingerprintSHA256 = fingerprint with
    | none =>
      ((.error (.failure ("ingest: no pending anchor with fingerprint " ++ fingerprint)), m), [])
    | some approved =>
      match cloneSnapshot rt cur with
      | .error e => ((.error e, m), [])
      | .ok next =>
        let next := approve rt cur next approved.anchor now
        match refused with
        | some e => ((.error (.failure ("ingest: persist approved snapshot: " ++ e)), m), [])
        | none =>
          ((.ok next, (m.saveSnapshot none next).activate (.approve fingerprint) next),
            approvalEvents fingerprint actor approved.anchor)

/-! ## Runs -/

/-- The state after one operation, and the events it emits; `actor` is who approves. -/
def step (actor : String) (op : Op) (m : Service) : Service × List SecurityEvent :=
  match op with
  | .restart st => ((m.newProcess.initializeManager st).2, [])
  | .reconcileDeclared d =>
    let ((_, m), es) := reconcileDeclared rt cfg m d
    (m, es)
  | .refresh inp =>
    match m.bootstrap with
    | none => (m, [])
    | some boot =>
      let ((_, m), es) := refresh rt cfg m boot inp
      (m, es)
  | .approvePending fp now refused =>
    let ((_, m), es) := approvePending rt m fp actor now refused
    (m, es)

end Manager

/-- An operation with the configuration of its process, and who asks for it. -/
structure Command where
  cfg : Config
  actor : String
  op : Op

/-- A run together with everything it emits. -/
def run : List Command → Service × List SecurityEvent → Service × List SecurityEvent
  | [], s => s
  | c :: cs, (m, es) =>
    let (m, es') := Manager.step rt c.cfg c.actor c.op m
    run cs (m, es ++ es')

end TrustAnchor.Ingest.Emission
