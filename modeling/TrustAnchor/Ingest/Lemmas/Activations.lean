import Mathlib.Data.List.Chain
import Mathlib.Logic.Relation
import TrustAnchor.Ingest.Lemmas.Manager

/-!
# From one served snapshot to the next

An operation is a few moves, and a move replaces the served snapshot in one of three ways. A property of
snapshots that these keep holds of everything a run serves or stores, and in the history of a process
each snapshot follows from the one before it.
-/

namespace TrustAnchor.Ingest

open Lib Tsl Trust

variable {rt : Runtime} {cfg : Config} {prev : Option Snapshot} {next : Snapshot}

/-! ## Snapshots -/

/-- The ways in which a snapshot follows from the served one. -/
inductive Advances (rt : Runtime) (cfg : Config) : Option Snapshot → Snapshot → Prop
  | cycle {cy : Cycle} {prev : Option Snapshot} {boot : Bootstrap} {f f' : Fetcher} {next : Snapshot} :
      refresh rt cfg cy prev boot f = (.ok next, f') → Advances rt cfg prev next
  | declared {readFile : String → Except String Bytes} {prev next : Snapshot} {now : Time}
      {rep : DeclaredSourceState} :
      refreshDeclared rt cfg readFile prev now = .ok (some next, rep) → Advances rt cfg (some prev) next
  | approve {cur : Snapshot} {fp : String} {pa : PendingAnchor} {now : Time} :
      cur.pending.find? (fun pa => pa.anchor.fingerprintSHA256 = fp) = some pa →
      Advances rt cfg (some cur) (Service.approve rt cur { cur with declaredLoad := none } pa.anchor now)

theorem refreshDeclared_eq {readFile : String → Except String Bytes} {prev : Snapshot} {now : Time}
    {rep : DeclaredSourceState} (h : refreshDeclared rt cfg readFile prev now = .ok (some next, rep)) :
    next = stamp rt (some prev)
      { prev with
        internal := (declaredSet (cfg.internalTrustSource ≠ "") prev.internal
          (loadInternal rt readFile cfg.internalTrustSource now)).1
        generatedAt := now
        declaredLoad := some rep } ∧ next.id ≠ prev.id := by
  unfold refreshDeclared at h
  obtain ⟨s, hs, h⟩ := Result.bind_eq_ok.1 h
  obtain rfl := cloneSnapshot_ok hs
  simp only at h
  split at h
  · cases h
  · rename_i hid
    cases h
    exact ⟨rfl, hid⟩

theorem Advances.stamped (h : Advances rt cfg prev next) : ∃ s, next = stamp rt prev s := by
  cases h with
  | cycle h =>
      obtain ⟨res, f₁, outs, -, -, -, -, rfl⟩ := refresh_ok h
      exact ⟨_, rfl⟩
  | declared h => exact ⟨_, (refreshDeclared_eq h).1⟩
  | approve h => exact ⟨_, rfl⟩

theorem Advances.prevID (h : Advances rt cfg prev next) : next.prevID = (prev.map Snapshot.id).getD "" := by
  obtain ⟨s, rfl⟩ := h.stamped
  rfl

theorem Advances.diff (h : Advances rt cfg prev next) : next.diff = some (computeDiff prev next) := by
  obtain ⟨s, rfl⟩ := h.stamped
  rfl

/-- Every way of making a snapshot under a configuration with `A` keeps `P`. -/
structure Kept (rt : Runtime) (A : Config → Prop) (P : Snapshot → Prop) : Prop where
  unloaded : ∀ {s}, P s → P { s with declaredLoad := none }
  advances : ∀ {cfg prev next}, A cfg → (∀ p ∈ prev, P p) → Advances rt cfg prev next → P next

/-- What every anchor read off a list has, every listed anchor of a run has, served or held. -/
theorem anchors_kept {A : Config → Prop} {P : Anchor → Prop}
    (hread : ∀ {src clock raw signersDER t}, readTerritory rt src clock raw signersDER = .ok t →
      ∀ a ∈ t.anchors, P a) :
    Kept rt A fun s => (∀ t ∈ s.territories, ∀ a ∈ t.anchors, P a) ∧ ∀ pa ∈ s.pending, P pa.anchor where
  unloaded h := h
  advances {cfg prev next} _ hprev h := by
    cases h with
    | @cycle cy prev boot f f' next h =>
        obtain ⟨res, f₁, outs, -, -, rfl, -, rfl⟩ := refresh_ok h
        have hentries : ∀ t ∈ (outcomes rt cfg cy res.pointers prev
            (expandTerritories cfg.territories res.pointers) f₁).map entryOf, ∀ a ∈ t.anchors, P a := by
          intro t ht
          obtain ⟨⟨c, r⟩, ho, rfl⟩ := List.mem_map.1 ht
          obtain ⟨g, -, hr⟩ := mem_outcomes ho
          cases r with
          | error e => simp [entryOf, failedTerritory]
          | ok t =>
              obtain ⟨p, pt, rfl, hpt, hsame⟩ | ⟨lp, raw, -, hok⟩ := ingestTerritory_ok hr.symm
              · simpa only [entryOf, hsame.anchors] using (hprev p rfl).1 pt (List.mem_of_find?_eq_some hpt)
              · exact hread hok
        constructor
        · intro t ht a ha
          obtain ⟨t₀, ht₀, -, hsub⟩ := mem_applyHoldMode_territories ht
          exact hentries t₀ ht₀ a (hsub a ha)
        · intro pa hpa
          obtain hnil | ⟨t, ht, ha⟩ := mem_applyHoldMode_pending hpa
          · cases hnil
          · exact hentries t ht _ ha
    | @declared readFile prev next now rep h =>
        obtain ⟨rfl, -⟩ := refreshDeclared_eq h
        exact hprev prev rfl
    | @approve cur fp pa now hpa =>
        obtain ⟨hlisted, hheld⟩ := hprev cur rfl
        constructor
        · intro t ht a ha
          obtain ht | ⟨t₀, ht₀, -, rfl⟩ := mem_moveToTerritory ht
          · exact hlisted t ht a ha
          · rcases mem_withAnchor.1 ha with ha | rfl
            · rcases ht₀ with ht₀ | rfl
              · exact hlisted t₀ ht₀ a ha
              · cases ha
            · exact hheld pa (List.mem_of_find?_eq_some hpa)
        · exact fun p hp => hheld p (List.mem_of_mem_eraseP hp)

/-! ## Moves -/

/-- The store accepts the writes of the call. -/
def Service.RefreshInput.Accepted (inp : Service.RefreshInput) : Prop :=
  inp.declared.saveSnapshot = none ∧ inp.saveSnapshot = none

/-- The store accepts what a reconcile or a refresh writes. A refused approval changes nothing. -/
def Op.Accepted : Op → Prop
  | .reconcileDeclared d => d.saveSnapshot = none
  | .refresh inp => inp.Accepted
  | _ => True

/-- A start reads the stored snapshot, if there is one. -/
def Op.Completes : Op → Prop
  | .restart st => st.loadSnapshot = none
  | _ => True

/-- One move of a service. `accepted` and `completes` say what is known of the store. -/
inductive Move (rt : Runtime) (cfg : Config) (accepted completes : Prop) : Service → Service → Prop
  | fetched (m : Service) (f : Fetcher) : Move rt cfg accepted completes m { m with fetcher := f }
  | stopped (m : Service) : Move rt cfg accepted completes m m.newProcess
  | started (m : Service) {b : Bootstrap} :
      (∀ b' ∈ m.store.bootstrap, b' = b) → (completes → m.store.snapshot = none) →
      Move rt cfg accepted completes m
        { m.newProcess with bootstrap := some b, store := { m.store with bootstrap := some b } }
  | restored (m : Service) {b : Bootstrap} {s : Snapshot} :
      (∀ b' ∈ m.store.bootstrap, b' = b) → m.store.snapshot = some s →
      Move rt cfg accepted completes m
        (Service.activate { m.newProcess with bootstrap := some b
                                              store := { m.store with bootstrap := some b } } .restore s)
  | advanced (m : Service) {next : Snapshot} {refused : Option String} (cause : Cause) :
      Advances rt cfg m.active next → (m.active = none → m.bootstrap ≠ none) →
      (accepted → refused = none ∨ Service.persists m.active next = false) →
      Move rt cfg accepted completes m ((m.saveSnapshot refused next).activate cause next)

namespace Service

variable {m : Service} {accepted completes : Prop}

/-- Any number of moves. -/
abbrev Moves (rt : Runtime) (cfg : Config) (accepted completes : Prop) : Service → Service → Prop :=
  Relation.ReflTransGen (Move rt cfg accepted completes)

theorem reconcileDeclared_moves (d : Declared) (hd : accepted → d.saveSnapshot = none) :
    Moves rt cfg accepted completes m (m.reconcileDeclared rt cfg d).2 := by
  obtain heq | ⟨prev, next, rep, hprev, hnext, heq⟩ := m.reconcileDeclared_cases d <;> rw [heq]
  refine .single (.advanced m .declared ?_ (by simp [hprev]) fun h => .inl (hd h))
  rw [hprev]
  exact .declared hnext

theorem activateCycle_move {inp : RefreshInput} {next : Snapshot} (hadv : Advances rt cfg m.active next)
    (hboot : m.bootstrap ≠ none) (hinp : accepted → inp.saveSnapshot = none) :
    Move rt cfg accepted completes m (m.activateCycle inp next) := by
  unfold activateCycle
  split
  · exact .advanced m _ hadv (fun _ => hboot) fun h => .inl (hinp h)
  · -- to the store a refused write and no write are the same
    rename_i hpersists
    have hmove : Move rt cfg accepted completes m
        ((m.saveSnapshot (some "") next).activate (.cycle inp.cycle.now) next) :=
      .advanced m _ hadv (fun _ => hboot) fun _ => .inr (by simpa using hpersists)
    exact hmove

theorem refresh_moves {boot : Bootstrap} (hboot : m.bootstrap = some boot) (inp : RefreshInput)
    (hinp : accepted → inp.Accepted) : Moves rt cfg accepted completes m (m.refresh rt cfg boot inp).2 := by
  have hfirst : Moves rt cfg accepted completes m (m.reconcileDeclared rt cfg inp.declared).2 :=
    reconcileDeclared_moves _ fun h => (hinp h).1
  obtain ⟨e, f, -, heq⟩ | ⟨next, f, hnext, heq⟩ := m.refresh_cases boot inp <;> rw [heq]
  · exact hfirst.tail (.fetched _ f)
  · refine (hfirst.tail (.fetched _ f)).tail (activateCycle_move (.cycle hnext) ?_ fun h => (hinp h).2)
    simp [hboot]

theorem approvePending_moves (fp : String) (now : Time) (refused : Option String) :
    Moves rt cfg accepted completes m (m.approvePending rt fp now refused).2 := by
  obtain ⟨e, heq⟩ | ⟨cur, pa, hcur, hpa, heq⟩ := m.approvePending_cases fp now refused <;> rw [heq]
  refine .single (.advanced m _ ?_ (by simp [hcur]) fun _ => .inl rfl)
  rw [hcur]
  exact .approve hpa

theorem restart_moves (st : Startup) (hst : completes → st.loadSnapshot = none) :
    Moves rt cfg accepted completes m (m.newProcess.initializeManager st).2 := by
  obtain heq | ⟨b, hb, ⟨hnone, heq⟩ | ⟨s, hs, heq⟩⟩ := m.restart_cases st <;> rw [heq]
  · exact .single (.stopped m)
  · exact .single (.started m hb fun h => hnone (hst h))
  · exact .single (.restored m hb hs)

theorem step_moves (op : Op) : Moves rt cfg op.Accepted op.Completes m (m.step rt cfg op) := by
  cases op with
  | restart st => exact restart_moves st id
  | reconcileDeclared d => exact reconcileDeclared_moves d id
  | refresh inp =>
      unfold step
      simp only
      split
      · exact .refl
      · rename_i boot hboot
        exact refresh_moves hboot inp id
  | approvePending fp now refused => exact approvePending_moves fp now refused

end Service

/-! ## Runs -/

/-- What each move keeps, every run keeps. -/
theorem run_of_move {I : Service → Prop} {C : Op → Prop} {A : Config → Prop}
    (hmove : ∀ {cfg op m m'}, A cfg → C op → Move rt cfg op.Accepted op.Completes m m' → I m → I m')
    {ops : List (Config × Op)} (hops : ∀ i ∈ ops, A i.1 ∧ C i.2) {m : Service} (hm : I m) :
    I (m.run rt ops) := by
  refine runFrom_keeps (C := fun _ i => A i.1 ∧ C i.2) ?_ hm (meets_of_forall hops m)
  rintro m ⟨cfg, op⟩ h ⟨hA, hC⟩
  have hmoves : Service.Moves rt cfg op.Accepted op.Completes m (m.step rt cfg op) := Service.step_moves op
  generalize m.step rt cfg op = m' at hmoves ⊢
  induction hmoves with
  | refl => exact h
  | tail _ hlast ih => exact hmove hA hC hlast ih

/-- The newer activation follows from the older one. -/
def Follows (rt : Runtime) (A : Config → Prop) (newer older : Activation) : Prop :=
  ∃ cfg, A cfg ∧ Advances rt cfg (some older.snapshot) newer.snapshot

/-- `P` holds of all that the process has served and of what is stored, and each served snapshot follows
from the one before it. -/
structure Traced (rt : Runtime) (A : Config → Prop) (P : Snapshot → Prop) (m : Service) : Prop where
  active : m.active = m.history.head?.map Activation.snapshot
  served : ∀ a ∈ m.history, P a.snapshot
  stored : ∀ s ∈ m.store.snapshot, P s
  steps : m.history.IsChain (Follows rt A)

namespace Traced

variable {A : Config → Prop} {P : Snapshot → Prop} {m m' : Service} {accepted completes : Prop}

theorem of_active (h : Traced rt A P m) : ∀ s ∈ m.active, P s := by
  intro s hs
  rw [h.active] at hs
  obtain ⟨a, ha, rfl⟩ := Option.mem_map.1 hs
  exact h.served a (List.mem_of_mem_head? ha)

theorem move (hP : Kept rt A P) (hA : A cfg) (hmove : Move rt cfg accepted completes m m')
    (h : Traced rt A P m) : Traced rt A P m' := by
  cases hmove with
  | fetched f => exact ⟨h.active, h.served, h.stored, h.steps⟩
  | stopped => exact ⟨rfl, by simp [Service.newProcess], h.stored, by simp [Service.newProcess]⟩
  | started _ _ => exact ⟨rfl, by simp [Service.newProcess], h.stored, by simp [Service.newProcess]⟩
  | @restored b s _ hs =>
      refine ⟨rfl, ?_, h.stored, by simp [Service.activate, Service.newProcess]⟩
      simpa [Service.activate, Service.newProcess] using h.stored s hs
  | @advanced next refused cause hnext _ _ =>
      have hprev := h.of_active
      have hPnext := hP.advances hA hprev hnext
      refine ⟨rfl, ?_, ?_, ?_⟩
      · simpa [Service.activate] using ⟨hPnext, h.served⟩
      · intro s hs
        rcases Service.mem_saveSnapshot hs with rfl | hs
        · exact hP.unloaded hPnext
        · exact h.stored s hs
      · simp only [Service.activate, Service.saveSnapshot_history]
        refine List.isChain_cons.2 ⟨fun older holder => ⟨cfg, hA, ?_⟩, h.steps⟩
        rw [h.active, Option.mem_def.1 holder] at hnext
        exact hnext

theorem restart (h : Traced rt A P m) (st : Service.Startup) :
    Traced rt A P (m.newProcess.initializeManager st).2 := by
  obtain heq | ⟨b, -, ⟨-, heq⟩ | ⟨s, hs, heq⟩⟩ := m.restart_cases st <;> rw [heq]
  · exact ⟨rfl, by simp [Service.newProcess], h.stored, by simp [Service.newProcess]⟩
  · exact ⟨rfl, by simp [Service.newProcess], h.stored, by simp [Service.newProcess]⟩
  · refine ⟨rfl, ?_, h.stored, by simp [Service.newProcess, Service.activate]⟩
    simpa [Service.newProcess, Service.activate] using h.stored s hs

theorem run (hP : Kept rt A P) {ops : List (Config × Op)} (hops : ∀ i ∈ ops, A i.1) (h : Traced rt A P m) :
    Traced rt A P (m.run rt ops) :=
  run_of_move (C := fun _ => True) (fun hA _ hmove h => h.move hP hA hmove) (fun i hi => ⟨hops i hi, trivial⟩) h

theorem of_run (hP : Kept rt A P) {ops : List (Config × Op)} (hops : ∀ i ∈ ops, A i.1) (maxSize : Int) :
    Traced rt A P ((Service.empty maxSize).run rt ops) :=
  .run hP hops ⟨rfl, by simp [Service.empty], by simp [Service.empty], .nil⟩

end Traced

end TrustAnchor.Ingest
