import TrustAnchor.Events.Log
import TrustAnchor.Ingest.Lemmas.Emission

/-!
# What is heard of an operation

Each kind of envelope is looked for in the events of an operation: failed territories, failed stages, failed loads.
-/

namespace TrustAnchor.Ingest.Emission

open Lib Tsl Trust Events

variable {rt : Runtime} {cfg : Config} {cy : Cycle} {prev : Option Snapshot} {boot : Bootstrap} {ps : PointerSet}
  {code : String} {m : Service} {ft : Time → String} {β : Type} {g : Envelope → Option β} {e : SecurityEvent}

/-- What `g` reads off the envelopes of the events. -/
def heard (ft : Time → String) (g : Envelope → Option β) (es : List SecurityEvent) : List β :=
  (es.map (SecurityEvent.envelope ft)).filterMap g

@[simp] theorem heard_nil : heard ft g [] = [] := rfl

@[simp] theorem heard_cons (es : List SecurityEvent) :
    heard ft g (e :: es) = (g (e.envelope ft)).toList ++ heard ft g es := by
  unfold heard
  cases hg : g (e.envelope ft) <;> simp [hg]

@[simp] theorem heard_append (es es' : List SecurityEvent) :
    heard ft g (es ++ es') = heard ft g es ++ heard ft g es' := by
  simp [heard]

theorem heard_flatMap {α : Type} (l : List α) (f : α → List SecurityEvent) :
    heard ft g (l.flatMap f) = l.flatMap fun a => heard ft g (f a) := by
  induction l with
  | nil => rfl
  | cons a l ih => rw [List.flatMap_cons, heard_append, ih, List.flatMap_cons]

theorem heard_eq_nil {es : List SecurityEvent} (h : ∀ e ∈ es, g (e.envelope ft) = none) : heard ft g es = [] := by
  simpa [heard, List.filterMap_eq_nil_iff] using h

/-! ## What the events are -/

theorem mem_staleEvents {now : Time} {t : Territory} (h : e ∈ staleEvents cfg now code t) :
    ∃ nu, e = .stale code nu := by
  unfold staleEvents at h
  split at h
  · obtain ⟨nu, -, rfl⟩ := List.mem_map.1 h
    exact ⟨nu, rfl⟩
  · cases h

theorem mem_readEvents {f : Fetcher} (h : e ∈ readEvents rt cfg cy ps prev code f) : ∃ nu, e = .stale code nu := by
  unfold readEvents at h
  cases hread : readTL rt cfg cy ps prev code f with
  | none => simp [hread] at h
  | some t =>
      rw [hread] at h
      exact mem_staleEvents h

theorem mem_holdEvents {next : Snapshot} {now : Time} (h : e ∈ holdEvents cfg prev next now) :
    (∃ fp, e = .pendingApproved fp "system" "auto-release") ∨
      ∃ code, ∃ a : Anchor, e = .anchorChange .added code a.fingerprintSHA256 a.type a.tspName a.serviceName a.status
        "held for approval" true := by
  unfold holdEvents at h
  split at h
  · cases h
  · obtain ⟨t, -, h⟩ := List.mem_flatMap.1 h
    obtain ⟨a, -, h⟩ := List.mem_filterMap.1 h
    unfold holdEvent at h
    split at h
    · cases h
    · split_ifs at h
      split at h
      · split_ifs at h
        exact .inl ⟨_, (Option.some.inj h).symm⟩
      · exact .inr ⟨t.code, a, (Option.some.inj h).symm⟩

theorem mem_changeEvents {next : Snapshot} (h : e ∈ Manager.changeEvents next) : ∃ d, e = Manager.changeEvent d := by
  obtain ⟨d, -, rfl⟩ := List.mem_map.1 h
  exact ⟨d, rfl⟩

theorem failureEvent_cases (code : String) (err : Err) :
    failureEvent code err = .egressBlocked code err.msg ∨
      failureEvent code err = .refreshFailure ("territory:" ++ code) err.msg := by
  unfold failureEvent
  split
  · exact .inl rfl
  · exact .inr rfl

theorem mem_territoryEvents {f : Fetcher} (h : e ∈ territoryEvents rt cfg cy ps prev code f) :
    (∃ nu, e = .stale code nu) ∨ ∃ err, e = failureEvent code err := by
  unfold territoryEvents at h
  rcases List.mem_append.1 h with h | h
  · exact .inl (mem_readEvents h)
  · unfold fallbackEvents at h
    split at h
    · cases h
    · rename_i err _
      rcases List.mem_cons.1 h with rfl | h
      · exact .inr ⟨err, rfl⟩
      · cases hcarry : carryOver prev code err with
        | error e' => simp [hcarry, Except.toOption] at h
        | ok t =>
            rw [hcarry] at h
            exact .inl (mem_staleEvents h)

theorem mem_declaredEvents {load : Except Err (List Anchor)} (h : e ∈ declaredEvents load) :
    ∃ error, e = .internalSourceError error := by
  cases load with
  | error err => exact ⟨err.msg, List.mem_singleton.1 h⟩
  | ok set => cases h

/-- What the pipeline can emit. -/
theorem mem_pipelineEvents {f : Fetcher} (h : e ∈ pipelineEvents rt cfg cy prev boot f) :
    (∃ code nu, e = .stale code nu) ∨ (∃ code err, e = failureEvent code err) ∨
      (∃ error, e = .internalSourceError error) ∨ (∃ fp, e = .pendingApproved fp "system" "auto-release") ∨
      ∃ code, ∃ a : Anchor, e = .anchorChange .added code a.fingerprintSHA256 a.type a.tspName a.serviceName a.status
        "held for approval" true := by
  unfold pipelineEvents at h
  rcases hlotl : ingestLOTL rt cfg cy prev boot f with ⟨err | res, f₁⟩ <;> rw [hlotl] at h
  · simp at h
  · rw [Emitting.after_ok] at h
    split at h
    · simp only [assembleEvents, loopEvents, List.mem_append, List.mem_flatMap] at h
      rcases h with ⟨o, -, h⟩ | h
      · obtain ⟨nu, rfl⟩ | ⟨err, rfl⟩ := mem_territoryEvents h
        · exact .inl ⟨o.1, nu, rfl⟩
        · exact .inr (.inl ⟨o.1, err, rfl⟩)
      · split at h
        · cases h
        · rcases List.mem_append.1 h with h | h
          · exact .inr (.inr (.inl (mem_declaredEvents h)))
          · exact .inr (.inr (.inr (mem_holdEvents h)))
    · cases h

theorem mem_persistEvents {refused : Option String} (h : e ∈ Manager.persistEvents refused) :
    ∃ reason, e = .refreshFailure "persist" reason := by
  obtain ⟨reason, -, rfl⟩ := List.mem_map.1 h
  exact ⟨reason, rfl⟩

/-- What a reconcile can emit. -/
theorem mem_declaredReport {d : Service.Declared} (h : e ∈ Manager.declaredReport rt cfg m d) :
    (∃ error, e = .internalSourceError error) ∨ (∃ reason, e = .refreshFailure "persist" reason) ∨
      ∃ d, e = Manager.changeEvent d := by
  unfold Manager.declaredReport at h
  cases hactive : m.active with
  | none => simp [hactive] at h
  | some p =>
      rw [hactive, Option.elim_some, List.mem_append] at h
      rcases h with h | h
      · split at h
        · exact .inl (mem_declaredEvents h)
        · cases h
      · split at h
        · rcases List.mem_append.1 h with h | h
          · exact .inr (.inl (mem_persistEvents h))
          · exact .inr (.inr (mem_changeEvents h))
        · cases h

/-- What can follow a completed cycle. -/
theorem mem_cycleEvents {inp : Service.RefreshInput} {next : Snapshot} (h : e ∈ Manager.cycleEvents prev inp next) :
    (∃ reason, e = .refreshFailure "persist" reason) ∨ ∃ d, e = Manager.changeEvent d := by
  rcases List.mem_append.1 h with h | h
  · split at h
    · exact .inl (mem_persistEvents h)
    · cases h
  · split at h
    · exact .inr (mem_changeEvents h)
    · cases h

theorem stage_ne_territory (code : String) :
    "territory:" ++ code ≠ "cycle" ∧ "territory:" ++ code ≠ "persist" := by
  constructor <;> intro h <;> simpa using congrArg String.toList h

/-! ## Failed stages -/

section Stages

variable {stage : String} (hstage : stage = "cycle" ∨ stage = "persist")

include hstage in
theorem failedStage_failureEvent (code : String) (err : Err) :
    ((failureEvent code err).envelope ft).failedStage stage = none := by
  have hne := stage_ne_territory code
  rcases failureEvent_cases code err with h | h <;> rw [h]
  · simp
  · rcases hstage with rfl | rfl <;> simp [hne]

include hstage in
theorem failedStage_pipelineEvents (f : Fetcher) :
    heard ft (Envelope.failedStage stage) (pipelineEvents rt cfg cy prev boot f) = [] := by
  refine heard_eq_nil fun e he => ?_
  obtain ⟨code, nu, rfl⟩ | ⟨code, err, rfl⟩ | ⟨error, rfl⟩ | ⟨fp, rfl⟩ | ⟨code, a, rfl⟩ := mem_pipelineEvents he
  · simp
  · exact failedStage_failureEvent hstage code err
  · simp
  · simp
  · simp

end Stages

@[simp] theorem failedStage_persistEvents (refused : Option String) :
    heard ft (Envelope.failedStage "persist") (Manager.persistEvents refused) = refused.toList := by
  cases refused <;> simp [Manager.persistEvents]

/-- A refresh reports the failure of its cycle, once. -/
theorem failedCycle_refreshEvents (inp : Service.RefreshInput) :
    heard ft (Envelope.failedStage "cycle") (Manager.refreshEvents rt cfg m boot inp) =
      match (Ingest.refresh rt cfg inp.cycle (m.reconcileDeclared rt cfg inp.declared).2.active boot
        (m.reconcileDeclared rt cfg inp.declared).2.fetcher).1 with
      | .error e => [e.msg]
      | .ok _ => [] := by
  have hdeclared : heard ft (Envelope.failedStage "cycle") (Manager.declaredReport rt cfg m inp.declared) = [] := by
    refine heard_eq_nil fun e he => ?_
    obtain ⟨error, rfl⟩ | ⟨reason, rfl⟩ | ⟨d, rfl⟩ := mem_declaredReport he <;> simp [Manager.changeEvent]
  rw [Manager.refreshEvents, heard_append, heard_append, hdeclared, failedStage_pipelineEvents (.inl rfl)]
  cases (Ingest.refresh rt cfg inp.cycle (m.reconcileDeclared rt cfg inp.declared).2.active boot
    (m.reconcileDeclared rt cfg inp.declared).2.fetcher).1 with
  | error e => simp [Manager.cycleReport]
  | ok next =>
      refine heard_eq_nil fun e he => ?_
      obtain ⟨reason, rfl⟩ | ⟨d, rfl⟩ := mem_cycleEvents he <;> simp [Manager.changeEvent]

/-! ## Failed loads -/

@[simp] theorem loadError_declaredEvents (load : Except Err (List Anchor)) :
    heard ft Envelope.loadError (declaredEvents load) =
      match load with
      | .error e => [e.msg]
      | .ok _ => [] := by
  cases load <;> simp [declaredEvents]

theorem loadError_cycleEvents (inp : Service.RefreshInput) (next : Snapshot) :
    heard ft Envelope.loadError (Manager.cycleEvents prev inp next) = [] := by
  refine heard_eq_nil fun e he => ?_
  obtain ⟨reason, rfl⟩ | ⟨d, rfl⟩ := mem_cycleEvents he <;> simp [Manager.changeEvent]

theorem loadError_loopEvents (codes : List String) (f : Fetcher) :
    heard ft Envelope.loadError (loopEvents rt cfg cy ps prev codes f) = [] := by
  refine heard_eq_nil fun e he => ?_
  obtain ⟨o, -, he⟩ := List.mem_flatMap.1 he
  obtain ⟨nu, rfl⟩ | ⟨err, rfl⟩ := mem_territoryEvents he
  · simp
  · rcases failureEvent_cases o.1 err with h | h <;> rw [h] <;> simp

theorem loadError_holdEvents (next : Snapshot) (now : Time) :
    heard ft Envelope.loadError (holdEvents cfg prev next now) = [] := by
  refine heard_eq_nil fun e he => ?_
  obtain ⟨fp, rfl⟩ | ⟨code, a, rfl⟩ := mem_holdEvents he <;> simp

theorem stamp_declaredLoad {next : Snapshot} : (stamp rt prev next).declaredLoad = next.declaredLoad := rfl

theorem applyHoldMode_declaredLoad {next : Snapshot} {now : Time} :
    (Ingest.applyHoldMode rt cfg prev next now).declaredLoad = next.declaredLoad := by
  unfold Ingest.applyHoldMode
  split <;> rfl

/-- The failure that a load report states. -/
def loadFailure (rep : Option DeclaredSourceState) : List String :=
  if rep.any (·.carriedOver) then [(rep.map (·.error)).getD ""] else []

theorem loadFailure_declaredSet {configured : Bool} {prevSet : List Anchor} {load : Except Err (List Anchor)} :
    heard ft Envelope.loadError (declaredEvents load) = loadFailure (some (declaredSet configured prevSet load).2) := by
  cases load <;> simp [declaredSet, loadFailure]

/-- A load report that states no failure has no text for one. -/
def Consistent (rep : Option DeclaredSourceState) : Prop :=
  rep.any (·.carriedOver) = false → (rep.map (·.error)).getD "" = ""

theorem consistent_declaredSet {configured : Bool} {prevSet : List Anchor} {load : Except Err (List Anchor)} :
    Consistent (some (declaredSet configured prevSet load).2) := by
  cases load <;> simp [declaredSet, Consistent]

theorem refreshDeclared_rep {readFile : String → Except String Bytes} {p : Snapshot} {now : Time}
    {result : Option Snapshot} {rep : DeclaredSourceState}
    (h : Ingest.refreshDeclared rt cfg readFile p now = .ok (result, rep)) :
    (cloneSnapshot rt p).isOk = true ∧ rep = (declaredSet (cfg.internalTrustSource ≠ "") p.internal
      (loadInternal rt readFile cfg.internalTrustSource now)).2 := by
  unfold Ingest.refreshDeclared at h
  obtain ⟨s, hs, h⟩ := Result.bind_eq_ok.1 h
  refine ⟨by rw [hs]; rfl, ?_⟩
  simp only at h
  split at h <;> exact (Prod.mk.inj (Except.ok.inj h)).2.symm

theorem refreshDeclared_error {readFile : String → Except String Bytes} {p : Snapshot} {now : Time} {err : Err}
    (h : Ingest.refreshDeclared rt cfg readFile p now = .error err) : (cloneSnapshot rt p).isOk = false := by
  cases hclone : cloneSnapshot rt p with
  | error e => rfl
  | ok s =>
      unfold Ingest.refreshDeclared at h
      rw [hclone, Result.ok_bind] at h
      simp only at h
      split at h <;> cases h

theorem consistent_reconcileDeclared (d : Service.Declared) : Consistent (m.reconcileDeclared rt cfg d).1.2 := by
  unfold Service.reconcileDeclared
  cases m.active with
  | none => simp [Consistent]
  | some p =>
      simp only
      rcases hdeclared : Ingest.refreshDeclared rt cfg d.readFile p d.now with e | ⟨result, rep⟩
      · simp [Consistent]
      · obtain ⟨-, rfl⟩ := refreshDeclared_rep hdeclared
        cases result <;> exact consistent_declaredSet

/-- A reconcile has reported the failure that it returns, and no other. -/
theorem loadFailure_reconcileDeclared (d : Service.Declared) :
    heard ft Envelope.loadError (Manager.declaredReport rt cfg m d) =
      loadFailure (m.reconcileDeclared rt cfg d).1.2 := by
  unfold Service.reconcileDeclared Manager.declaredReport
  cases m.active with
  | none => simp [loadFailure]
  | some p =>
      have hquiet : ∀ next, heard ft Envelope.loadError
          (Manager.persistEvents d.saveSnapshot ++ Manager.changeEvents next) = [] := by
        refine fun next => heard_eq_nil fun e he => ?_
        rcases List.mem_append.1 he with he | he
        · obtain ⟨reason, rfl⟩ := mem_persistEvents he
          simp
        · obtain ⟨e, rfl⟩ := mem_changeEvents he
          simp [Manager.changeEvent]
      rcases hdeclared : Ingest.refreshDeclared rt cfg d.readFile p d.now with e | ⟨result, rep⟩
      · simp [refreshDeclared_error hdeclared, hdeclared, loadFailure]
      · obtain ⟨hclone, rfl⟩ := refreshDeclared_rep hdeclared
        simp only [Option.elim_some, if_pos hclone, heard_append, hdeclared]
        cases result with
        | none =>
            simp only [heard_nil, List.append_nil]
            exact loadFailure_declaredSet
        | some next =>
            simp only [hquiet, List.append_nil]
            exact loadFailure_declaredSet

section Refresh

variable {inp : Service.RefreshInput} {f f' : Fetcher}

theorem declaredLoad_of_ok {next : Snapshot} (hok : Ingest.refresh rt cfg cy prev boot f = (.ok next, f')) :
    next.declaredLoad = some (declaredSet (cfg.internalTrustSource ≠ "") ((prev.map (·.internal)).getD [])
      (loadInternal rt cy.readFile cfg.internalTrustSource cy.now)).2 := by
  obtain ⟨res, f₁, outs, -, rfl, -⟩ := pipelineEvents_of_ok hok
  rw [stamp_declaredLoad, applyHoldMode_declaredLoad]
  rfl

/-- A completed cycle has reported the failure that its snapshot states, and no other. -/
theorem loadFailure_of_ok {next : Snapshot} (hok : Ingest.refresh rt cfg inp.cycle prev boot f = (.ok next, f')) :
    heard ft Envelope.loadError (pipelineEvents rt cfg inp.cycle prev boot f ++ Manager.cycleEvents prev inp next) =
      loadFailure next.declaredLoad := by
  rw [declaredLoad_of_ok hok]
  obtain ⟨res, f₁, outs, -, rfl, hevents⟩ := pipelineEvents_of_ok hok
  rw [hevents, heard_append, heard_append, heard_append, loadError_loopEvents, loadError_holdEvents,
    loadError_cycleEvents, List.nil_append, List.append_nil, List.append_nil]
  exact loadFailure_declaredSet

end Refresh

end TrustAnchor.Ingest.Emission
