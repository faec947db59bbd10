import TrustAnchor.Ingest.Lemmas.Activations
import TrustAnchor.Ingest.Symbolic

/-!
# Served and stored

The store keeps up with what is served as long as it accepts every write. After a refused one, it catches
up only with the next write, and a refresh writes only when it finds something new.
-/

namespace TrustAnchor.Ingest

open Lib Tsl Trust

variable {rt : Runtime} {cfg : Config} {m : Service}

/-- The latest stored snapshot has the id of the served one. -/
def InSync (m : Service) : Prop := ∀ s ∈ m.active, ∃ stored ∈ m.store.snapshot, stored.id = s.id

/-- The declaration files have another content than the served snapshot. -/
def Edited (rt : Runtime) (cfg : Config) (m : Service) (d : Service.Declared) : Prop :=
  ∃ prev ∈ m.active, ∃ next rep, refreshDeclared rt cfg d.readFile prev d.now = .ok (some next, rep)

/-! ## One write -/

theorem inSync_save (m : Service) (cause : Cause) (next : Snapshot) :
    InSync ((m.saveSnapshot none next).activate cause next) := by
  intro s hs
  obtain rfl := Option.some.inj hs
  exact ⟨_, rfl, rfl⟩

theorem inSync_reconcileDeclared_iff {d : Service.Declared} (hsave : d.saveSnapshot = none) :
    InSync (m.reconcileDeclared rt cfg d).2 ↔ InSync m ∨ Edited rt cfg m d := by
  by_cases hedit : Edited rt cfg m d
  · obtain ⟨prev, hprev, next, rep, hnext⟩ := hedit
    have heq : (m.reconcileDeclared rt cfg d).2 = (m.saveSnapshot none next).activate .declared next := by
      unfold Service.reconcileDeclared
      rw [Option.mem_def.1 hprev]
      simp only [hnext, hsave]
    rw [heq]
    exact ⟨fun _ => .inr ⟨prev, hprev, next, rep, hnext⟩, fun _ => inSync_save m _ next⟩
  · obtain heq | ⟨prev, next, rep, hprev, hnext, -⟩ := m.reconcileDeclared_cases d
    · rw [heq, or_iff_left hedit]
    · exact absurd ⟨prev, hprev, next, rep, hnext⟩ hedit

theorem id_of_not_persists {prev : Option Snapshot} {next : Snapshot}
    (h : ¬ Service.persists prev next) : ∃ p, prev = some p ∧ next.id = p.id := by
  cases prev with
  | none => simp [Service.persists, Service.cycleChanged] at h
  | some p =>
      simp only [Service.persists, Service.cycleChanged, Bool.or_eq_true, not_or, decide_eq_true_eq,
        not_not] at h
      exact ⟨p, rfl, h.1.1.1⟩

theorem inSync_activateCycle_iff {inp : Service.RefreshInput} (hsave : inp.saveSnapshot = none)
    (next : Snapshot) :
    InSync (m.activateCycle inp next) ↔ InSync m ∨ Service.persists m.active next := by
  unfold Service.activateCycle
  split_ifs with hpersists
  · simp only [hsave, hpersists, or_true, iff_true]
    exact inSync_save m _ next
  · obtain ⟨p, hp, hid⟩ := id_of_not_persists hpersists
    rw [or_iff_left hpersists]
    simp [InSync, Service.activate, hp, hid]

/-! ## One refresh -/

/-- The store has what is served, or the call has something to write: the declarations were edited, or
upstream differs from the snapshot in memory. -/
def Writes (rt : Runtime) (cfg : Config) (m : Service) (inp : Service.RefreshInput) (next : Snapshot) : Prop :=
  InSync m ∨ Edited rt cfg m inp.declared ∨
    Service.persists (m.reconcileDeclared rt cfg inp.declared).2.active next

/-- A refresh whose cycle succeeds on a store that accepts writes. -/
theorem refresh_inSync_iff {boot : Bootstrap} {inp : Service.RefreshInput} {next : Snapshot} {f : Fetcher}
    (hinp : inp.Accepted)
    (h : refresh rt cfg inp.cycle (m.reconcileDeclared rt cfg inp.declared).2.active boot m.fetcher =
      (.ok next, f)) :
    InSync (m.refresh rt cfg boot inp).2 ↔ Writes rt cfg m inp next := by
  rw [Writes, ← or_assoc, ← inSync_reconcileDeclared_iff hinp.1]
  obtain ⟨e, f', herr, -⟩ | ⟨next', f', hok, heq⟩ := m.refresh_cases boot inp
  · rw [Service.reconcileDeclared_fetcher, h] at herr
    cases herr
  · rw [Service.reconcileDeclared_fetcher, h] at hok
    cases hok
    rw [heq]
    exact inSync_activateCycle_iff hinp.2 next

/-! ## Whole runs -/

/-- If the operation is a refresh whose cycle succeeds with `next` on a store that accepts writes, then
`Q` holds of it. -/
def OnRefresh (rt : Runtime) (cfg : Config) (m : Service) (Q : Service.RefreshInput → Snapshot → Prop) :
    Op → Prop
  | .refresh inp =>
    inp.Accepted → ∀ boot ∈ m.bootstrap, ∀ next f,
      refresh rt cfg inp.cycle (m.reconcileDeclared rt cfg inp.declared).2.active boot m.fetcher =
        (.ok next, f) → Q inp next
  | _ => True

/-- `Q` holds of every such refresh of the run, in the state it is called in. -/
def RefreshesMeet (rt : Runtime) (Q : Config → Service → Service.RefreshInput → Snapshot → Prop)
    (ops : List (Config × Op)) (m : Service) : Prop :=
  Meets (fun i m => m.step rt i.1 i.2) (fun m i => OnRefresh rt i.1 m (Q i.1 m) i.2) ops m

/-- In every run: served and stored agree after every refresh whose cycle succeeds on a store that accepts
writes, exactly if each of them has something to write whenever an earlier write is still missing. -/
theorem refreshes_inSync_iff (ops : List (Config × Op)) (m : Service) :
    RefreshesMeet rt (fun cfg m inp _ => InSync (m.step rt cfg (.refresh inp))) ops m ↔
      RefreshesMeet rt (Writes rt) ops m := by
  refine meets_congr fun m i => ?_
  obtain ⟨cfg, op⟩ := i
  cases op with
  | refresh inp =>
      simp only [OnRefresh]
      refine forall_congr' fun hinp => forall₂_congr fun boot hboot => forall₂_congr fun next f => ?_
      refine forall_congr' fun hnext => ?_
      rw [← refresh_inSync_iff hinp hnext, Service.step, Option.mem_def.1 hboot]
  | _ => rfl

namespace Symbolic

/-- A refresh whose cycle cannot write its snapshot. -/
def unsavedRefresh (now : Time) (pages : List (String × Bytes)) : Op :=
  .refresh { refreshInput now pages with saveSnapshot := some "disk full" }

/-- The first cycle of the install cannot write; the given operations follow. -/
def unsavedRun (ops : List Op) : Service :=
  growing.run (config ["EE"] .auto 0) (install ["B"] :: unsavedRefresh 5 (growingPages "1") :: ops)

end Symbolic

open Symbolic in
/-- The write is not retried by a cycle on the same documents, though the store would accept it. -/
theorem refreshes_inSync_lost :
    ∃ s, (unsavedRun [Symbolic.refresh 6 (growingPages "1")]).active = some s ∧ s.generatedAt = 6 ∧
      (unsavedRun [Symbolic.refresh 6 (growingPages "1")]).store.snapshot = none := by
  have hrun : (unsavedRun [Symbolic.refresh 6 (growingPages "1")]).active.any fun s =>
      s.generatedAt = 6 := by decide +kernel
  have hstore : (unsavedRun [Symbolic.refresh 6 (growingPages "1")]).store.snapshot.isNone := by
    decide +kernel
  obtain ⟨s, hs, h⟩ := (Option.any_eq_true _ _).1 hrun
  exact ⟨s, hs, of_decide_eq_true h, Option.isNone_iff_eq_none.1 hstore⟩

end TrustAnchor.Ingest
