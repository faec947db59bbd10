import TrustAnchor.Ingest.Emission
import TrustAnchor.Ingest.Lemmas.Manager

/-!
# What is emitted

Emitting changes nothing: each function does what it does in the model without events. What it emits is a
function of where it starts.
-/

namespace TrustAnchor.Ingest.Emission

open Lib Lib.Emitting Tsl Trust Events

variable {rt : Runtime} {cfg : Config} {cy : Cycle} {prev : Option Snapshot} {boot : Bootstrap} {ps : PointerSet}
  {code : String} {m : Service}

/-! ## Territories -/

/-- What a territory emits before it fails or succeeds. -/
def readEvents (rt : Runtime) (cfg : Config) (cy : Cycle) (ps : PointerSet) (prev : Option Snapshot)
    (code : String) (f : Fetcher) : List SecurityEvent :=
  (readTL rt cfg cy ps prev code f).elim [] (staleEvents cfg cy.now code)

theorem fetchTerritory_reports : Reports (fetchTerritory rt cfg cy ps code prev)
    (Ingest.fetchTerritory rt cfg cy ps code prev) (readEvents rt cfg cy ps prev code) := by
  intro f es
  unfold fetchTerritory Ingest.fetchTerritory readEvents readTL
  cases hlp : ps.pointerFor code with
  | error e => simp
  | ok lp =>
      simp only [Fallible.ofExcept_ok_bind_run, Fallible.attempt_bind_run, quiet]
      cases (fetchTL rt cfg cy code lp (prev.bind (·.territory code)) f).1 with
      | error e => simp
      | ok raw =>
          simp only
          cases readTerritory rt (nationalTLSource cfg cy.now code lp (prev.bind (·.territory code)))
            (cy.clock (.tl code)) raw lp.signersDER with
          | error e => simp [Except.toOption]
          | ok t => rfl

/-- What a failed territory emits: the failure, and that the entry it falls back on is past its next update. -/
def fallbackEvents (cfg : Config) (cy : Cycle) (prev : Option Snapshot) (code : String) :
    Except Err Territory → List SecurityEvent
  | .ok _ => []
  | .error e => failureEvent code e :: (carryOver prev code e).toOption.elim [] (staleEvents cfg cy.now code)

/-- What a territory emits. -/
def territoryEvents (rt : Runtime) (cfg : Config) (cy : Cycle) (ps : PointerSet) (prev : Option Snapshot)
    (code : String) (f : Fetcher) : List SecurityEvent :=
  readEvents rt cfg cy ps prev code f ++
    fallbackEvents cfg cy prev code (Ingest.fetchTerritory rt cfg cy ps code prev f).1

theorem ingestTerritory_reports : Reports (ingestTerritory rt cfg cy ps code prev)
    (Ingest.ingestTerritory rt cfg cy ps code prev) (territoryEvents rt cfg cy ps prev code) := by
  refine fetchTerritory_reports.attempt_bind (v := fun r _ => fallbackEvents cfg cy prev code r) fun r => ?_
  cases r with
  | ok t => exact .pure t
  | error e =>
      intro f es
      simp only [fallbackEvents, emit, Fallible.modify_bind_run]
      cases carryOver prev code e with
      | error e' => rfl
      | ok t => simp [Except.toOption]

/-- What the territory loop emits. -/
def loopEvents (rt : Runtime) (cfg : Config) (cy : Cycle) (ps : PointerSet) (prev : Option Snapshot)
    (codes : List String) (f : Fetcher) : List SecurityEvent :=
  (loopFetchers rt cfg cy ps prev codes f).flatMap fun o => territoryEvents rt cfg cy ps prev o.1 o.2

theorem ingestTerritories_reports (codes : List String) : Reports (ingestTerritories rt cfg cy ps prev codes)
    (Ingest.ingestTerritories rt cfg cy ps prev codes) (loopEvents rt cfg cy ps prev codes) := by
  induction codes with
  | nil => exact .pure _
  | cons code codes ih =>
      have hterritory : Reports (ingestTerritory rt cfg cy ps code prev) (Ingest.ingestTerritory rt cfg cy ps code prev)
          (territoryEvents rt cfg cy ps prev code) := ingestTerritory_reports
      refine (hterritory.attempt_bind (v := fun _ => loopEvents rt cfg cy ps prev codes) fun r => ?_).congr
        fun _ => rfl
      have hrest : ∀ (g : List Territory × Nat → List Territory × Nat),
          Reports (ingestTerritories rt cfg cy ps prev codes >>= fun r => pure (g r))
            (Ingest.ingestTerritories rt cfg cy ps prev codes >>= fun r => pure (g r))
            (loopEvents rt cfg cy ps prev codes) := by
        intro g
        refine (ih.bind fun r => .pure (g r)).congr fun f => ?_
        rcases Ingest.ingestTerritories rt cfg cy ps prev codes f with ⟨e | r, f'⟩ <;> exact List.append_nil _
      cases r with
      | error e => exact hrest fun r => (failedTerritory code e :: r.1, r.2)
      | ok t => exact hrest fun r => (t :: r.1, r.2 + 1)

/-! ## The cycle -/

theorem applyDeclaredSources_reports {σ : Type} {readFile : String → Except String Bytes} {next : Snapshot}
    {now : Time} : Reports (applyDeclaredSources rt cfg readFile prev next now : Emitting σ _ _ _)
      (pure (Ingest.applyDeclaredSources rt cfg readFile prev next now))
      fun _ => declaredEvents (loadInternal rt readFile cfg.internalTrustSource now) :=
  .emit_return _ _

theorem applyHoldMode_reports {σ : Type} {next : Snapshot} {now : Time} :
    Reports (applyHoldMode rt cfg prev next now : Emitting σ _ _ _)
      (pure (Ingest.applyHoldMode rt cfg prev next now)) fun _ => holdEvents cfg prev next now :=
  .emit_return _ _

/-- What the cycle emits once the list of the lists is known. -/
def assembleEvents (rt : Runtime) (cfg : Config) (cy : Cycle) (prev : Option Snapshot) (boot : Bootstrap)
    (res : LOTLResult) (f : Fetcher) : List SecurityEvent :=
  let codes := expandTerritories cfg.territories res.pointers
  let outs := outcomes rt cfg cy res.pointers prev codes f
  loopEvents rt cfg cy res.pointers prev codes f ++
    if codes ≠ [] ∧ outs.countP (fun o => o.2.isOk) = 0 then []
    else declaredEvents (loadInternal rt cy.readFile cfg.internalTrustSource cy.now) ++
      holdEvents cfg prev (cycleBase rt cfg cy prev boot res (outs.map entryOf)) cy.now

theorem assemble_reports {res : LOTLResult} : Reports (assemble rt cfg cy prev boot res)
    (Ingest.assemble rt cfg cy prev boot res) (assembleEvents rt cfg cy prev boot res) := by
  refine ((ingestTerritories_reports _).bind (v := fun r _ =>
    if expandTerritories cfg.territories res.pointers ≠ [] ∧ r.2 = 0 then []
    else declaredEvents (loadInternal rt cy.readFile cfg.internalTrustSource cy.now) ++
      holdEvents cfg prev (cycleBase rt cfg cy prev boot res r.1) cy.now) ?_).congr fun f => ?_
  · rintro ⟨ts, withData⟩
    refine .ite (.fail _) ((applyDeclaredSources_reports.bind fun r => applyHoldMode_reports.bind fun next =>
      .pure (stamp rt prev next)).congr fun f => ?_)
    simp only [after, Fallible.pure_run, List.append_nil]
    rfl
  · have hloop : (Ingest.ingestTerritories rt cfg cy res.pointers prev
        (expandTerritories cfg.territories res.pointers) f).1 = _ := ingestTerritories_fst _ f
    rcases hrun : Ingest.ingestTerritories rt cfg cy res.pointers prev
      (expandTerritories cfg.territories res.pointers) f with ⟨r, f'⟩
    rw [hrun] at hloop
    obtain rfl := hloop
    rfl

/-- What the cycle emits. -/
def pipelineEvents (rt : Runtime) (cfg : Config) (cy : Cycle) (prev : Option Snapshot) (boot : Bootstrap)
    (f : Fetcher) : List SecurityEvent :=
  after (fun res f₁ => if (checkSequence prev res).isOk then assembleEvents rt cfg cy prev boot res f₁ else [])
    (ingestLOTL rt cfg cy prev boot f)

theorem refresh_reports : Reports (refresh rt cfg cy prev boot) (Ingest.refresh rt cfg cy prev boot)
    (pipelineEvents rt cfg cy prev boot) := by
  refine ((Reports.quiet _).bind fun res => ?_).congr fun f => List.nil_append _
  cases checkSequence prev res with
  | error e => exact .fail e
  | ok u => exact assemble_reports

/-- A completed cycle has run all of its parts. -/
theorem pipelineEvents_of_ok {next : Snapshot} {f f' : Fetcher}
    (h : Ingest.refresh rt cfg cy prev boot f = (.ok next, f')) :
    ∃ res f₁ outs, outs = outcomes rt cfg cy res.pointers prev (expandTerritories cfg.territories res.pointers) f₁ ∧
      next = stamp rt prev
        (Ingest.applyHoldMode rt cfg prev (cycleBase rt cfg cy prev boot res (outs.map entryOf)) cy.now) ∧
      pipelineEvents rt cfg cy prev boot f =
        loopEvents rt cfg cy res.pointers prev (expandTerritories cfg.territories res.pointers) f₁ ++
          (declaredEvents (loadInternal rt cy.readFile cfg.internalTrustSource cy.now) ++
            holdEvents cfg prev (cycleBase rt cfg cy prev boot res (outs.map entryOf)) cy.now) := by
  obtain ⟨res, f₁, outs, hlotl, hseq, houts, hdata, hnext⟩ := refresh_ok h
  have hchecked : (checkSequence prev res).isOk = true := by
    have hok : checkSequence prev res = .ok () := Result.require_eq_ok.2 hseq
    rw [hok]
    rfl
  refine ⟨res, f₁, outs, houts, hnext, ?_⟩
  rw [pipelineEvents, hlotl, after_ok, if_pos hchecked, assembleEvents, ← houts, if_neg fun h => hdata h.1 h.2]

/-- A failed cycle has got to the end of the territory loop at most. -/
theorem pipelineEvents_of_error {e : Err} {f f' : Fetcher}
    (h : Ingest.refresh rt cfg cy prev boot f = (.error e, f')) :
    pipelineEvents rt cfg cy prev boot f = [] ∨ ∃ (res : LOTLResult) (f₁ : Fetcher),
      pipelineEvents rt cfg cy prev boot f = loopEvents rt cfg cy res.pointers prev (expandTerritories cfg.territories res.pointers) f₁ := by
  unfold pipelineEvents
  simp only [Ingest.refresh, Fallible.bind_run] at h
  rcases hlotl : ingestLOTL rt cfg cy prev boot f with ⟨e' | res, f₁⟩ <;> rw [hlotl] at h
  · exact .inl rfl
  · rw [after_ok]
    cases hseq : checkSequence prev res with
    | error e' => exact .inl rfl
    | ok u =>
        have hchecked : (Except.ok u : Except Err Unit).isOk = true := rfl
        simp only [hseq, Fallible.ofExcept_run] at h
        rw [if_pos hchecked]
        refine .inr ⟨res, f₁, ?_⟩
        by_cases hnone : expandTerritories cfg.territories res.pointers ≠ [] ∧
            (outcomes rt cfg cy res.pointers prev (expandTerritories cfg.territories res.pointers) f₁).countP
              (fun o => o.2.isOk) = 0
        · rw [assembleEvents, if_pos hnone, List.append_nil]
        · have hloop : (Ingest.ingestTerritories rt cfg cy res.pointers prev
              (expandTerritories cfg.territories res.pointers) f₁).1 = _ := ingestTerritories_fst _ f₁
          rw [Ingest.assemble, Fallible.bind_run] at h
          rcases hrun : Ingest.ingestTerritories rt cfg cy res.pointers prev
            (expandTerritories cfg.territories res.pointers) f₁ with ⟨r, f₂⟩
          rw [hrun] at hloop h
          obtain rfl := hloop
          simp only [if_neg hnone] at h
          cases h

theorem refreshDeclared_reports {σ : Type} {readFile : String → Except String Bytes} {p : Snapshot} {now : Time} :
    Reports (refreshDeclared rt cfg readFile p now : Emitting σ _ _ _)
      (.ofExcept (Ingest.refreshDeclared rt cfg readFile p now))
      fun _ => if (cloneSnapshot rt p).isOk then
        declaredEvents (loadInternal rt readFile cfg.internalTrustSource now) else [] := by
  intro s es
  unfold refreshDeclared Ingest.refreshDeclared
  cases cloneSnapshot rt p with
  | error e => exact congrArg (fun l => (_, s, l)) (List.append_nil es).symm
  | ok c =>
      rw [Fallible.ofExcept_ok_bind_run, Fallible.bind_run, applyDeclaredSources_reports s es, Result.ok_bind]
      simp only [Fallible.pure_run]
      by_cases hid : computeID rt (Ingest.applyDeclaredSources rt cfg readFile (some p) c now).1 = p.id
      · simp only [if_pos hid]
        rfl
      · simp only [if_neg hid]
        rfl

/-! ## The manager -/

namespace Manager

/-- What a reconcile emits: a failed load, a refused write, and what changed. -/
def declaredReport (rt : Runtime) (cfg : Config) (m : Service) (d : Service.Declared) : List SecurityEvent :=
  m.active.elim [] fun p =>
    (if (cloneSnapshot rt p).isOk then
      declaredEvents (loadInternal rt d.readFile cfg.internalTrustSource d.now) else []) ++
    match Ingest.refreshDeclared rt cfg d.readFile p d.now with
    | .ok (some next, _) => persistEvents d.saveSnapshot ++ changeEvents next
    | _ => []

theorem reconcileDeclared_eq (d : Service.Declared) :
    reconcileDeclared rt cfg m d = (m.reconcileDeclared rt cfg d, declaredReport rt cfg m d) := by
  unfold reconcileDeclared Service.reconcileDeclared declaredReport
  cases m.active with
  | none => rfl
  | some p =>
      simp only [refreshDeclared_reports m.fetcher [], Fallible.ofExcept_run, List.nil_append, Option.elim_some]
      rcases Ingest.refreshDeclared rt cfg d.readFile p d.now with e | ⟨_ | next, rep⟩ <;> simp

/-- What follows the cycle: its failure, or a refused write and what changed. -/
def cycleReport (prev : Option Snapshot) (inp : Service.RefreshInput) : Except Err Snapshot → List SecurityEvent
  | .error e => [.refreshFailure "cycle" e.msg]
  | .ok next => cycleEvents prev inp next

/-- What a refresh emits. -/
def refreshEvents (rt : Runtime) (cfg : Config) (m : Service) (boot : Bootstrap) (inp : Service.RefreshInput) :
    List SecurityEvent :=
  let m₁ := (m.reconcileDeclared rt cfg inp.declared).2
  declaredReport rt cfg m inp.declared ++ pipelineEvents rt cfg inp.cycle m₁.active boot m₁.fetcher ++
    cycleReport m₁.active inp (Ingest.refresh rt cfg inp.cycle m₁.active boot m₁.fetcher).1

theorem refresh_eq (inp : Service.RefreshInput) :
    refresh rt cfg m boot inp = (m.refresh rt cfg boot inp, refreshEvents rt cfg m boot inp) := by
  unfold refresh Service.refresh refreshEvents
  rw [reconcileDeclared_eq]
  rcases m.reconcileDeclared rt cfg inp.declared with ⟨⟨changed, rep⟩, m₁⟩
  simp only [refresh_reports m₁.fetcher _]
  rcases Ingest.refresh rt cfg inp.cycle m₁.active boot m₁.fetcher with ⟨e | next, f⟩ <;> rfl

/-- What an approval emits. -/
def approvalReport (rt : Runtime) (m : Service) (fp actor : String) (now : Time) (refused : Option String) :
    List SecurityEvent :=
  match (m.approvePending rt fp now refused).1 with
  | .error _ => []
  | .ok _ => (m.active.bind fun cur => cur.pending.find? fun pa => pa.anchor.fingerprintSHA256 = fp).elim []
      fun pa => approvalEvents fp actor pa.anchor

theorem approvePending_eq (fp actor : String) (now : Time) (refused : Option String) :
    approvePending rt m fp actor now refused =
      (m.approvePending rt fp now refused, approvalReport rt m fp actor now refused) := by
  unfold approvePending approvalReport Service.approvePending
  cases m.active with
  | none => rfl
  | some cur =>
      simp only [Option.bind_some]
      cases cur.pending.find? fun pa => pa.anchor.fingerprintSHA256 = fp with
      | none => rfl
      | some pa =>
          simp only
          cases cloneSnapshot rt cur with
          | error e => rfl
          | ok s => cases refused <;> rfl

/-- What an operation emits. -/
def opEvents (rt : Runtime) (cfg : Config) (actor : String) (m : Service) : Op → List SecurityEvent
  | .restart _ => []
  | .reconcileDeclared d => declaredReport rt cfg m d
  | .refresh inp => m.bootstrap.elim [] fun boot => refreshEvents rt cfg m boot inp
  | .approvePending fp now refused => approvalReport rt m fp actor now refused

theorem step_eq (actor : String) (op : Op) :
    step rt cfg actor op m = (m.step rt cfg op, opEvents rt cfg actor m op) := by
  cases op with
  | restart st => rfl
  | reconcileDeclared d => simp only [step, Service.step, opEvents, reconcileDeclared_eq]
  | refresh inp =>
      simp only [step, Service.step, opEvents]
      cases m.bootstrap with
      | none => rfl
      | some boot => simp only [refresh_eq, Option.elim_some]
  | approvePending fp now refused => simp only [step, Service.step, opEvents, approvePending_eq]

end Manager

/-! ## Runs -/

def Command.toOp (c : Command) : Config × Op := (c.cfg, c.op)

/-- A run with events is the run. -/
theorem run_fst (cs : List Command) (m : Service) (es : List SecurityEvent) :
    (run rt cs (m, es)).1 = m.run rt (cs.map Command.toOp) := by
  induction cs generalizing m es with
  | nil => rfl
  | cons c cs ih =>
      unfold run
      rw [Manager.step_eq]
      exact ih _ _

/-- The state and the log after a command. -/
def Command.emit (rt : Runtime) (c : Command) (s : Service × List SecurityEvent) : Service × List SecurityEvent :=
  ((Manager.step rt c.cfg c.actor c.op s.1).1, s.2 ++ (Manager.step rt c.cfg c.actor c.op s.1).2)

theorem run_eq_runFrom (cs : List Command) (s : Service × List SecurityEvent) :
    run rt cs s = runFrom (Command.emit rt) cs s := by
  induction cs generalizing s with
  | nil => rfl
  | cons c cs ih => exact ih _

end TrustAnchor.Ingest.Emission
