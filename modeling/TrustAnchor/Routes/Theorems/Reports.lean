import TrustAnchor.Ingest.Lemmas.Cluster
import TrustAnchor.Ingest.Lemmas.WellFormed
import TrustAnchor.Ingest.Symbolic
import TrustAnchor.Ingest.Theorems.Alerts
import TrustAnchor.Routes.Router

/-!
# The refresh report

What `/v1/refresh` answers is what was done: the report names the snapshot that is served, and it counts as failed
what the events of the request report as failed.
-/

namespace TrustAnchor.Routes

open Lib Tsl Trust Ingest Events Ingest.Emission

variable {rt : Runtime} {cfg : Config} {m : Service} {boot : Bootstrap} {inp : Service.RefreshInput}
  {ft : Time → String}

/-! ## The territories of the report -/

theorem foldl_add (ts : List Territory) (terr : RefreshTerritories) :
    ts.foldl RefreshTerritories.add terr =
      { ok := terr.ok + ts.countP fun t => !marked t
        failed := terr.failed ++ (ts.filter (·.failed)).map Territory.code
        carriedOver := terr.carriedOver ++ (ts.filter fun t => !t.failed && t.carriedOver).map Territory.code } := by
  induction ts generalizing terr with
  | nil => simp
  | cons t ts ih =>
      rw [List.foldl_cons, ih]
      cases hfailed : t.failed <;> cases hcarried : t.carriedOver <;>
        simp [RefreshTerritories.add, marked, hfailed, hcarried]
      omega

/-- Every territory is counted once, and the named ones are those with a mark. -/
theorem report_territories (ts : List Territory) :
    let terr := ts.foldl RefreshTerritories.add {}
    terr.ok + terr.failed.length + terr.carriedOver.length = ts.length ∧
      (terr.failed ++ terr.carriedOver).Perm ((ts.filter marked).map Territory.code) := by
  have hperm : ((ts.filter (·.failed)).map Territory.code ++
      (ts.filter fun t => !t.failed && t.carriedOver).map Territory.code).Perm
      ((ts.filter marked).map Territory.code) := by
    rw [← List.map_append]
    refine List.Perm.map _ ?_
    have hsplit := List.filter_append_perm (fun t : Territory => t.failed) (ts.filter marked)
    rw [List.filter_filter, List.filter_filter] at hsplit
    refine (List.Perm.of_eq ?_).trans hsplit
    refine congrArg₂ (· ++ ·) (List.filter_congr fun t _ => ?_) (List.filter_congr fun t _ => ?_)
    · cases hfailed : t.failed <;> simp [marked, hfailed]
    · cases hfailed : t.failed <;> simp [marked, hfailed]
  simp only [foldl_add, List.nil_append, Nat.zero_add]
  refine ⟨?_, hperm⟩
  have hlength := hperm.length_eq
  simp only [List.length_append, List.length_map, ← List.countP_eq_length_filter] at hlength ⊢
  have hall := List.length_eq_countP_add_countP marked (l := ts)
  simp only [Bool.not_eq_true, Bool.decide_eq_false] at hall
  omega

/-! ## Activations -/

/-- What the reconcile half of a refresh has activated, and whether it says so. -/
structure Reconciled (before : Option Snapshot) (declaredChanged : Bool) (acts : List Activation) : Prop where
  changed : declaredChanged = true ↔ acts ≠ []
  activated : ∀ a ∈ acts, a.cause = .declared ∧ ∀ p ∈ before, a.snapshot.id ≠ p.id

theorem exists_reconciled (d : Service.Declared) : ∃ acts,
    (m.reconcileDeclared rt cfg d).2.history = acts ++ m.history ∧
      Reconciled m.active (m.reconcileDeclared rt cfg d).1.1 acts := by
  unfold Service.reconcileDeclared
  cases hp : m.active with
  | none => exact ⟨[], rfl, by simp, by simp⟩
  | some p =>
      simp only
      split
      · exact ⟨[], rfl, by simp, by simp⟩
      · exact ⟨[], rfl, by simp, by simp⟩
      · rename_i next rep hnext
        refine ⟨[⟨.declared, next⟩], by simp [Service.activate], by simp, ?_⟩
        simpa using (refreshDeclared_eq hnext).2

/-- Nothing that was activated differs from what was served before, in what counts as a change. -/
def AllUnchanged (before : Option Snapshot) (acts : List Activation) : Prop :=
  ∃ p, before = some p ∧ ∀ a ∈ acts, Unchanged p a.snapshot

namespace Reconciled

variable {before : Option Snapshot} {declaredChanged : Bool} {acts : List Activation}

theorem eq_nil (h : Reconciled before declaredChanged acts) (hunchanged : declaredChanged = false) : acts = [] := by
  by_contra hne
  rw [h.changed.2 hne] at hunchanged
  cases hunchanged

theorem of_allUnchanged (h : Reconciled before declaredChanged acts) (hall : AllUnchanged before acts) :
    declaredChanged = false := by
  obtain ⟨p, hp, hall⟩ := hall
  by_contra hchanged
  obtain ⟨a, ha⟩ := List.exists_mem_of_ne_nil acts (h.changed.1 (by simpa using hchanged))
  exact (h.activated a ha).2 p hp (hall a ha).id

theorem declaredChanged_iff (h : Reconciled before declaredChanged acts) (cycleActs : List Activation)
    (hcycle : ∀ a ∈ cycleActs, a.cause ≠ .declared) : declaredChanged = true ↔
      ∃ a ∈ cycleActs ++ acts, a.cause = .declared ∧ ∀ p ∈ before, a.snapshot.id ≠ p.id := by
  rw [h.changed]
  constructor
  · intro hne
    obtain ⟨a, ha⟩ := List.exists_mem_of_ne_nil acts hne
    exact ⟨a, List.mem_append_right _ ha, h.activated a ha⟩
  · rintro ⟨a, ha, hcause, -⟩ rfl
    rw [List.append_nil] at ha
    exact hcycle a ha hcause

end Reconciled

/-! ## The report -/

/-- The report says what happened to what was served before: `acts` are the activations of the request, `declared` and
`cycle` the events of its two halves. -/
structure Truthful (ft : Time → String) (before : Option Snapshot) (acts : List Activation)
    (declared cycle : List SecurityEvent) (served : Snapshot) (report : Refresh) : Prop where
  snapshot : report.snapshot = served.id
  changed : report.changed = false ↔ AllUnchanged before acts
  declaredChanged : report.declaredChanged = true ↔
    ∃ a ∈ acts, a.cause = .declared ∧ ∀ p ∈ before, a.snapshot.id ≠ p.id
  loadFailed : heard ft Envelope.loadError (if report.cycleOK then cycle else declared) =
    if report.declaredCarriedOver then [report.declaredError] else []
  loaded : report.declaredCarriedOver = false → report.declaredError = ""
  cycleFailed : heard ft (Envelope.failedStage "cycle") (declared ++ cycle) =
    if report.cycleOK then [] else [report.cycleError]
  completed : report.cycleOK = true → ∃ terr, report.territories = some terr ∧
    terr.ok + terr.failed.length + terr.carriedOver.length = served.territories.length ∧
    (terr.failed ++ terr.carriedOver).Nodup ∧
    (terr.failed ++ terr.carriedOver).Perm (heard ft Envelope.failedTerritory (declared ++ cycle))
  broken : report.cycleOK = false → report.territories = none

/-- The events of the cycle half. -/
def cycleHalf (rt : Runtime) (cfg : Config) (m : Service) (boot : Bootstrap) (inp : Service.RefreshInput) :
    List SecurityEvent :=
  let m₁ := (m.reconcileDeclared rt cfg inp.declared).2
  pipelineEvents rt cfg inp.cycle m₁.active boot m₁.fetcher ++
    Manager.cycleReport m₁.active inp (Ingest.refresh rt cfg inp.cycle m₁.active boot m₁.fetcher).1

theorem refreshEvents_eq : Manager.refreshEvents rt cfg m boot inp =
    Manager.declaredReport rt cfg m inp.declared ++ cycleHalf rt cfg m boot inp := List.append_assoc _ _ _

section Cycle

variable {acts : List Activation} {f : Fetcher}
  (hacts : Reconciled m.active (m.reconcileDeclared rt cfg inp.declared).1.1 acts)

include hacts in
/-- Neither half has changed anything. -/
theorem changed_eq_false_iff (next : Snapshot) :
    ((m.reconcileDeclared rt cfg inp.declared).1.1 ||
        Service.cycleChanged (m.reconcileDeclared rt cfg inp.declared).2.active next) = false ↔
      AllUnchanged m.active (⟨.cycle inp.cycle.now, next⟩ :: acts) := by
  rw [Bool.or_eq_false_iff]
  constructor
  · rintro ⟨hunchanged, hcycle⟩
    rw [Service.reconcileDeclared_of_unchanged hunchanged] at hcycle
    rw [hacts.eq_nil hunchanged]
    cases hp : m.active with
    | none => simp [hp, Service.cycleChanged] at hcycle
    | some p =>
        rw [hp, cycleChanged_eq_false_iff] at hcycle
        exact ⟨p, rfl, by simpa using hcycle⟩
  · rintro ⟨p, hp, hall⟩
    obtain ⟨hnext, hall⟩ := List.forall_mem_cons.1 hall
    have hunchanged := hacts.of_allUnchanged ⟨p, hp, hall⟩
    refine ⟨hunchanged, ?_⟩
    rw [Service.reconcileDeclared_of_unchanged hunchanged, hp, cycleChanged_eq_false_iff]
    exact hnext

include hacts in
/-- The report after a completed cycle. -/
theorem truthful_of_ok {next : Snapshot}
    (hprev : ∀ p ∈ (m.reconcileDeclared rt cfg inp.declared).2.active, Undigested p)
    (hcodes : (next.territories.map Territory.code).Nodup)
    (hok : Ingest.refresh rt cfg inp.cycle (m.reconcileDeclared rt cfg inp.declared).2.active boot
      (m.reconcileDeclared rt cfg inp.declared).2.fetcher = (.ok next, f)) :
    Truthful ft m.active (⟨.cycle inp.cycle.now, next⟩ :: acts) (Manager.declaredReport rt cfg m inp.declared)
      (cycleHalf rt cfg m boot inp) next
      (newRefresh next ((m.reconcileDeclared rt cfg inp.declared).1.1 ||
          Service.cycleChanged (m.reconcileDeclared rt cfg inp.declared).2.active next)
        (m.reconcileDeclared rt cfg inp.declared).1.1 (next.declaredLoad.any (·.carriedOver))
        ((next.declaredLoad.map (·.error)).getD "") none) := by
  obtain ⟨hcount, hnamed⟩ := report_territories next.territories
  constructor
  case snapshot => rfl
  case changed => exact changed_eq_false_iff hacts next
  case declaredChanged => exact hacts.declaredChanged_iff [⟨.cycle inp.cycle.now, next⟩] (by simp)
  case loadFailed =>
      change heard ft Envelope.loadError (cycleHalf rt cfg m boot inp) = _
      rw [cycleHalf, hok]
      exact loadFailure_of_ok hok
  case loaded =>
      rw [declaredLoad_of_ok hok]
      exact consistent_declaredSet
  case cycleFailed =>
      rw [← refreshEvents_eq, failedCycle_refreshEvents, hok]
      rfl
  case completed =>
      intro _
      refine ⟨_, rfl, hcount, hnamed.nodup_iff.2 (hcodes.sublist (List.filter_sublist.map _)), ?_⟩
      rw [← refreshEvents_eq, failedTerritory_refreshEvents hprev hok]
      exact hnamed
  case broken =>
      intro h
      cases h

include hacts in
/-- The report after a failed cycle. -/
theorem truthful_of_error {served : Snapshot} {e : Err}
    (hserved : (m.reconcileDeclared rt cfg inp.declared).2.active = some served)
    (herr : Ingest.refresh rt cfg inp.cycle (m.reconcileDeclared rt cfg inp.declared).2.active boot
      (m.reconcileDeclared rt cfg inp.declared).2.fetcher = (.error e, f)) :
    Truthful ft m.active acts (Manager.declaredReport rt cfg m inp.declared) (cycleHalf rt cfg m boot inp) served
      (newRefresh served (m.reconcileDeclared rt cfg inp.declared).1.1 (m.reconcileDeclared rt cfg inp.declared).1.1
        ((m.reconcileDeclared rt cfg inp.declared).1.2.any (·.carriedOver))
        (((m.reconcileDeclared rt cfg inp.declared).1.2.map (·.error)).getD "") (some e)) := by
  constructor
  case snapshot => rfl
  case changed =>
      constructor
      · intro hunchanged
        rw [Service.reconcileDeclared_of_unchanged hunchanged] at hserved
        rw [hacts.eq_nil hunchanged]
        exact ⟨served, hserved, by simp⟩
      · exact hacts.of_allUnchanged
  case declaredChanged => exact hacts.declaredChanged_iff [] (by simp)
  case loadFailed => exact loadFailure_reconcileDeclared inp.declared
  case loaded => exact consistent_reconcileDeclared inp.declared
  case cycleFailed =>
      rw [← refreshEvents_eq, failedCycle_refreshEvents, herr]
      rfl
  case completed =>
      intro h
      cases h
  case broken => exact fun _ => rfl

end Cycle

theorem refresh_ok_outcome {next : Snapshot} {f : Fetcher}
    (hok : Ingest.refresh rt cfg inp.cycle (m.reconcileDeclared rt cfg inp.declared).2.active boot
      (m.reconcileDeclared rt cfg inp.declared).2.fetcher = (.ok next, f)) :
    (m.refresh rt cfg boot inp).1 =
      { snapshot := some next
        changed := (m.reconcileDeclared rt cfg inp.declared).1.1 ||
          Service.cycleChanged (m.reconcileDeclared rt cfg inp.declared).2.active next
        declaredChanged := (m.reconcileDeclared rt cfg inp.declared).1.1
        declared := next.declaredLoad, cycleErr := none } := by
  unfold Service.refresh
  simp only [hok]

theorem refresh_error_outcome {e : Err} {f : Fetcher}
    (herr : Ingest.refresh rt cfg inp.cycle (m.reconcileDeclared rt cfg inp.declared).2.active boot
      (m.reconcileDeclared rt cfg inp.declared).2.fetcher = (.error e, f)) :
    (m.refresh rt cfg boot inp).1 =
      { snapshot := (m.reconcileDeclared rt cfg inp.declared).2.active
        changed := (m.reconcileDeclared rt cfg inp.declared).1.1
        declaredChanged := (m.reconcileDeclared rt cfg inp.declared).1.1
        declared := (m.reconcileDeclared rt cfg inp.declared).1.2, cycleErr := some e } := by
  unfold Service.refresh
  simp only [herr]

section Growing

open Symbolic

def installed : Service := (Service.empty 100).run growing.runtime [(config ["EE"] .auto 0, install ["B"])]

def firstRefresh : Service.RefreshInput := refreshInput 5 (growingPages "1")

end Growing

end TrustAnchor.Routes
