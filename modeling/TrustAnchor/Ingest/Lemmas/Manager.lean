import TrustAnchor.Ingest.Lemmas.Cycle

/-!
# What one operation of the manager can do

First the cases of each operation, then the rule for properties of snapshots: what is kept by a cycle,
by an approval and by everything that leaves the upstream content alone holds of whatever is served or
stored in a run.
-/

namespace TrustAnchor.Ingest

open Lib Tsl Trust

variable {rt : Runtime} {cfg : Config}

/-! ## Upstream content -/

/-- The two snapshots have the same content from upstream. -/
structure SameUpstream (s s' : Snapshot) : Prop where
  lotlSignersDER : s'.lotlSignersDER = s.lotlSignersDER
  lotlPivotSeq : s'.lotlPivotSeq = s.lotlPivotSeq
  lotlPointers : s'.lotlPointers = s.lotlPointers
  territories : s'.territories = s.territories
  pending : s'.pending = s.pending

theorem cloneSnapshot_ok {s s' : Snapshot} (h : cloneSnapshot rt s = .ok s') :
    s' = { s with declaredLoad := none } := by
  unfold cloneSnapshot at h
  split at h
  · cases h
  · exact (Except.ok.inj h).symm

theorem refreshDeclared_ok {readFile : String → Except String Bytes} {prev next : Snapshot} {now : Time}
    {rep : DeclaredSourceState} (h : refreshDeclared rt cfg readFile prev now = .ok (some next, rep)) :
    SameUpstream prev next ∧ next.id ≠ prev.id := by
  unfold refreshDeclared at h
  obtain ⟨s, hs, h⟩ := Result.bind_eq_ok.1 h
  obtain rfl := cloneSnapshot_ok hs
  simp only at h
  split at h
  · cases h
  · rename_i hid
    cases h
    exact ⟨⟨rfl, rfl, rfl, rfl, rfl⟩, hid⟩

namespace Service

variable {m : Service}

@[simp] theorem saveSnapshot_bootstrap (refused : Option String) (next : Snapshot) :
    (m.saveSnapshot refused next).bootstrap = m.bootstrap := by
  cases refused <;> rfl

@[simp] theorem saveSnapshot_storeBootstrap (refused : Option String) (next : Snapshot) :
    (m.saveSnapshot refused next).store.bootstrap = m.store.bootstrap := by
  cases refused <;> rfl

@[simp] theorem saveSnapshot_fetcher (refused : Option String) (next : Snapshot) :
    (m.saveSnapshot refused next).fetcher = m.fetcher := by
  cases refused <;> rfl

@[simp] theorem saveSnapshot_history (refused : Option String) (next : Snapshot) :
    (m.saveSnapshot refused next).history = m.history := by
  cases refused <;> rfl

theorem mem_saveSnapshot {refused : Option String} {next s : Snapshot}
    (h : s ∈ (m.saveSnapshot refused next).store.snapshot) :
    s = { next with declaredLoad := none } ∨ s ∈ m.store.snapshot := by
  cases refused with
  | some e => exact .inr h
  | none => exact .inl (Option.some.inj h).symm

/-! ## Cases -/

theorem reconcileDeclared_cases (d : Declared) :
    (m.reconcileDeclared rt cfg d).2 = m ∨
      ∃ prev next rep, m.active = some prev ∧
        refreshDeclared rt cfg d.readFile prev d.now = .ok (some next, rep) ∧
        (m.reconcileDeclared rt cfg d).2 =
          (m.saveSnapshot d.saveSnapshot next).activate .declared next := by
  unfold reconcileDeclared
  split
  · exact .inl rfl
  · rename_i prev hprev
    split
    · exact .inl rfl
    · exact .inl rfl
    · rename_i next rep hnext
      exact .inr ⟨prev, next, rep, hprev, hnext, rfl⟩

/-- The cycle runs on what the reconcile left; it fails and moves the fetcher only, or activates. -/
theorem refresh_cases (boot : Bootstrap) (inp : RefreshInput) :
    (∃ e f, Ingest.refresh rt cfg inp.cycle (m.reconcileDeclared rt cfg inp.declared).2.active boot
        (m.reconcileDeclared rt cfg inp.declared).2.fetcher = (.error e, f) ∧
      (m.refresh rt cfg boot inp).2 =
        { (m.reconcileDeclared rt cfg inp.declared).2 with fetcher := f }) ∨
    ∃ next f, Ingest.refresh rt cfg inp.cycle (m.reconcileDeclared rt cfg inp.declared).2.active boot
        (m.reconcileDeclared rt cfg inp.declared).2.fetcher = (.ok next, f) ∧
      (m.refresh rt cfg boot inp).2 =
        { (m.reconcileDeclared rt cfg inp.declared).2 with fetcher := f }.activateCycle inp next := by
  unfold refresh
  simp only
  split
  · rename_i e f h
    exact .inl ⟨e, f, h, rfl⟩
  · rename_i next f h
    exact .inr ⟨next, f, h, rfl⟩

theorem reconcileDeclared_of_unchanged {d : Declared} (h : (m.reconcileDeclared rt cfg d).1.1 = false) :
    (m.reconcileDeclared rt cfg d).2 = m := by
  unfold reconcileDeclared at h ⊢
  split at h
  · rfl
  · split at h
    · rfl
    · rfl
    · cases h

/-- A refresh that reports no change ran its cycle on the state it was called in. -/
theorem refresh_of_unchanged {boot : Bootstrap} {inp : RefreshInput}
    (h : (m.refresh rt cfg boot inp).1.changed = false) :
    (∃ e f, Ingest.refresh rt cfg inp.cycle m.active boot m.fetcher = (.error e, f) ∧
      (m.refresh rt cfg boot inp).2 = { m with fetcher := f }) ∨
    ∃ next f, Ingest.refresh rt cfg inp.cycle m.active boot m.fetcher = (.ok next, f) ∧
      cycleChanged m.active next = false ∧
      (m.refresh rt cfg boot inp).2 = { m with fetcher := f }.activateCycle inp next := by
  unfold refresh at h ⊢
  simp only at h ⊢
  have hreconcile : (m.reconcileDeclared rt cfg inp.declared).1.1 = false := by
    split at h
    · exact h
    · exact (Bool.or_eq_false_iff.1 h).1
  rw [reconcileDeclared_of_unchanged hreconcile] at h ⊢
  split at h
  · rename_i e f hcycle
    exact .inl ⟨e, f, hcycle, rfl⟩
  · rename_i next f hcycle
    exact .inr ⟨next, f, hcycle, (Bool.or_eq_false_iff.1 h).2, rfl⟩

/-- Approving fails without a trace, or moves the first held addition with the fingerprint. -/
theorem approvePending_cases (fp : String) (now : Time) (refused : Option String) :
    (∃ e, m.approvePending rt fp now refused = (.error e, m)) ∨
      ∃ cur pa, m.active = some cur ∧
        cur.pending.find? (fun pa => pa.anchor.fingerprintSHA256 = fp) = some pa ∧
        m.approvePending rt fp now refused =
          (.ok (approve rt cur { cur with declaredLoad := none } pa.anchor now),
            (m.saveSnapshot none (approve rt cur { cur with declaredLoad := none } pa.anchor now)).activate
              (.approve fp) (approve rt cur { cur with declaredLoad := none } pa.anchor now)) := by
  unfold approvePending
  split
  · exact .inl ⟨_, rfl⟩
  · rename_i cur hcur
    split
    · exact .inl ⟨_, rfl⟩
    · rename_i pa hpa
      split
      · exact .inl ⟨_, rfl⟩
      · rename_i next hnext
        obtain rfl := cloneSnapshot_ok hnext
        cases refused with
        | some e => exact .inl ⟨_, rfl⟩
        | none => exact .inr ⟨cur, pa, hcur, hpa, rfl⟩

/-- The bootstrap set handed on is the stored one; a stored one is never replaced. -/
theorem loadBootstrap_cases (st : Startup) :
    (∃ e, m.loadBootstrap st = (.error e, m)) ∨
      ∃ b, m.loadBootstrap st =
          (.ok b, { m with store := { m.store with bootstrap := some b } }) ∧
        ∀ b' ∈ m.store.bootstrap, b' = b := by
  unfold loadBootstrap
  split
  · exact .inl ⟨_, rfl⟩
  · split
    · rename_i b hb
      refine .inr ⟨b, ?_, fun b' hb' => (Option.some.inj (hb ▸ hb')).symm⟩
      rw [← hb]
    · rename_i hnone
      split
      · exact .inl ⟨_, rfl⟩
      · exact .inl ⟨_, rfl⟩
      · rename_i b _
        split
        · exact .inl ⟨_, rfl⟩
        · exact .inr ⟨b, rfl, by simp [hnone]⟩

/-- A start fails and leaves an idle process on the same store, or runs on the stored bootstrap set and
serves nothing or the stored snapshot. -/
theorem restart_cases (st : Startup) :
    (m.newProcess.initializeManager st).2 = m.newProcess ∨
      ∃ b, (∀ b' ∈ m.store.bootstrap, b' = b) ∧
        let m' : Service := { m.newProcess with bootstrap := some b
                                                store := { m.store with bootstrap := some b } }
        ((st.loadSnapshot = none → m.store.snapshot = none) ∧
            (m.newProcess.initializeManager st).2 = m') ∨
          ∃ s, m.store.snapshot = some s ∧
            (m.newProcess.initializeManager st).2 = m'.activate .restore s := by
  unfold initializeManager
  obtain ⟨e, h⟩ | ⟨b, h, hb⟩ := m.newProcess.loadBootstrap_cases st
  · rw [h]
    exact .inl rfl
  · rw [h]
    refine .inr ⟨b, hb, ?_⟩
    simp only
    split
    · rename_i hload
      exact .inl ⟨by simp [hload], rfl⟩
    · split
      · rename_i hnone
        exact .inl ⟨fun _ => hnone, rfl⟩
      · rename_i s hs
        exact .inr ⟨s, hs, rfl⟩

end Service

/-! ## Approval -/

/-- An entry with the approved anchor added. -/
def withAnchor (t : Territory) (a : Anchor) : Territory :=
  { t with anchors := (t.anchors ++ [a]).insertionSort anchorLe }

@[simp] theorem mem_withAnchor {t : Territory} {a x : Anchor} :
    x ∈ (withAnchor t a).anchors ↔ x ∈ t.anchors ∨ x = a := by
  simp [withAnchor]

@[simp] theorem withAnchor_code {t : Territory} {a : Anchor} : (withAnchor t a).code = t.code := rfl

/-- Approving adds the anchor to the first entry of its territory, or to a new one if there is none. -/
theorem moveToTerritory_cases (s : Snapshot) (a : Anchor) :
    (∃ ts t us, s.territories = ts ++ t :: us ∧ t.code = a.territory ∧
      Service.moveToTerritory s a = ts ++ withAnchor t a :: us) ∨
    (∀ t ∈ s.territories, t.code ≠ a.territory) ∧
      Service.moveToTerritory s a = (s.territories ++ [withAnchor { code := a.territory } a]).insertionSort
        fun t u => t.code ≤ u.code := by
  unfold Service.moveToTerritory
  simp only
  split
  · rename_i i hi
    obtain ⟨hlt, hcode, -⟩ := List.findIdx?_eq_some_iff_getElem.1 hi
    refine .inl ⟨s.territories.take i, s.territories[i], s.territories.drop (i + 1), ?_, by simpa using hcode, ?_⟩
    · simp
    · rw [List.modify_eq_take_cons_drop hlt]
      rfl
  · rename_i hnone
    exact .inr ⟨by simpa using List.findIdx?_eq_none_iff.1 hnone, rfl⟩

theorem mem_moveToTerritory {s : Snapshot} {a : Anchor} {t : Territory}
    (ht : t ∈ Service.moveToTerritory s a) :
    t ∈ s.territories ∨ ∃ t₀, (t₀ ∈ s.territories ∨ t₀ = { code := a.territory }) ∧
      t₀.code = a.territory ∧ t = withAnchor t₀ a := by
  obtain ⟨ts, t₀, us, hs, hcode, heq⟩ | ⟨-, heq⟩ := moveToTerritory_cases s a
  · rw [heq, List.mem_append, List.mem_cons] at ht
    rw [hs]
    rcases ht with ht | rfl | ht
    · simp [ht]
    · exact .inr ⟨t₀, by simp, hcode, rfl⟩
    · simp [ht]
  · rw [heq, List.mem_insertionSort, List.mem_append, List.mem_singleton] at ht
    exact ht.imp id fun ht => ⟨_, .inr rfl, rfl, ht⟩

/-- Approving leaves an entry for every territory, with the health, the sequence number and the anchors
it had. -/
theorem exists_mem_moveToTerritory {s : Snapshot} {a : Anchor} {t : Territory} (ht : t ∈ s.territories) :
    ∃ t' ∈ Service.moveToTerritory s a, t'.code = t.code ∧ t'.failed = t.failed ∧
      t'.tlSequence = t.tlSequence ∧ ∀ x ∈ t.anchors, x ∈ t'.anchors := by
  obtain ⟨ts, t₀, us, hs, -, heq⟩ | ⟨-, heq⟩ := moveToTerritory_cases s a <;> rw [heq]
  · rw [hs, List.mem_append, List.mem_cons] at ht
    rcases ht with ht | rfl | ht
    · exact ⟨t, by simp [ht], rfl, rfl, rfl, fun _ hx => hx⟩
    · exact ⟨withAnchor t a, by simp, rfl, rfl, rfl, fun x hx => mem_withAnchor.2 (.inl hx)⟩
    · exact ⟨t, by simp [ht], rfl, rfl, rfl, fun _ hx => hx⟩
  · exact ⟨t, by simp [ht], rfl, rfl, rfl, fun _ hx => hx⟩

theorem moveToTerritory_codes {s : Snapshot} {a : Anchor} (h : (s.territories.map Territory.code).Nodup) :
    ((Service.moveToTerritory s a).map Territory.code).Nodup := by
  obtain ⟨ts, t₀, us, hs, -, heq⟩ | ⟨hnone, heq⟩ := moveToTerritory_cases s a <;> rw [heq]
  · simpa [hs] using h
  · rw [((List.perm_insertionSort _ _).map _).nodup_iff, List.map_append, List.nodup_append]
    refine ⟨h, by simp, ?_⟩
    rintro code hcode code' hcode' rfl
    obtain ⟨t, ht, rfl⟩ := List.mem_map.1 hcode
    exact hnone t ht (by simpa using hcode')

/-! ## Properties of snapshots along a run -/

/-- A property of snapshots, relative to the bootstrap set, that every way of making a snapshot keeps;
a cycle has to meet the condition `C`. -/
structure Stable (rt : Runtime) (cfg : Config)
    (C : Bootstrap → Cycle → Option Snapshot → Fetcher → Prop)
    (P : Bootstrap → Snapshot → Prop) : Prop where
  sameUpstream : ∀ {b s s'}, SameUpstream s s' → P b s → P b s'
  cycle : ∀ {b cy prev f f' next}, (∀ p ∈ prev, P b p) → C b cy prev f →
    refresh rt cfg cy prev b f = (.ok next, f') → P b next
  approve : ∀ {b cur fp pa now}, P b cur →
    cur.pending.find? (fun pa => pa.anchor.fingerprintSHA256 = fp) = some pa →
    P b (Service.approve rt cur { cur with declaredLoad := none } pa.anchor now)

/-- The process runs on the stored bootstrap set, and `P` holds of what is served and stored. -/
structure Holds (P : Bootstrap → Snapshot → Prop) (m : Service) : Prop where
  bootstrap : ∀ b ∈ m.bootstrap, m.store.bootstrap = some b
  active : ∀ s ∈ m.active, ∃ b, m.store.bootstrap = some b ∧ P b s
  stored : ∀ s ∈ m.store.snapshot, ∃ b, m.store.bootstrap = some b ∧ P b s

/-- The cycle of a refresh meets `C` when it starts; other operations run no cycle. -/
def CycleMeets (rt : Runtime) (cfg : Config)
    (C : Bootstrap → Cycle → Option Snapshot → Fetcher → Prop) (m : Service) : Op → Prop
  | .refresh inp =>
    ∀ b ∈ m.bootstrap, C b inp.cycle (m.reconcileDeclared rt cfg inp.declared).2.active m.fetcher
  | _ => True

instance (rt : Runtime) (cfg : Config) (C : Bootstrap → Cycle → Option Snapshot → Fetcher → Prop)
    [∀ b cy prev f, Decidable (C b cy prev f)] (m : Service) (op : Op) :
    Decidable (CycleMeets rt cfg C m op) := by
  cases op <;> unfold CycleMeets <;> infer_instance

/-- All cycles of the run meet the condition of their configuration. -/
def CyclesMeet (rt : Runtime) (C : Config → Bootstrap → Cycle → Option Snapshot → Fetcher → Prop)
    (ops : List (Config × Op)) (m : Service) : Prop :=
  Meets (fun i m => m.step rt i.1 i.2) (fun m i => CycleMeets rt i.1 (C i.1) m i.2) ops m

instance (rt : Runtime) (C : Config → Bootstrap → Cycle → Option Snapshot → Fetcher → Prop)
    [∀ cfg b cy prev f, Decidable (C cfg b cy prev f)] (ops : List (Config × Op)) (m : Service) :
    Decidable (CyclesMeet rt C ops m) := by
  unfold CyclesMeet
  infer_instance

theorem CyclesMeet.imp {rt : Runtime} {C D : Config → Bootstrap → Cycle → Option Snapshot → Fetcher → Prop}
    (h : ∀ {cfg b cy prev f}, C cfg b cy prev f → D cfg b cy prev f) {ops : List (Config × Op)} {m : Service}
    (hC : CyclesMeet rt C ops m) : CyclesMeet rt D ops m := by
  refine Meets.imp (fun m i hi => ?_) hC
  obtain ⟨cfg, op⟩ := i
  cases op with
  | refresh inp => exact fun b hb => h (hi b hb)
  | _ => trivial

theorem Stable.stored {rt : Runtime} {cfg : Config}
    {C : Bootstrap → Cycle → Option Snapshot → Fetcher → Prop} {P : Bootstrap → Snapshot → Prop}
    (hP : Stable rt cfg C P) {b : Bootstrap} {s : Snapshot} (h : P b s) :
    P b { s with declaredLoad := none } := by
  have hsame : SameUpstream s { s with declaredLoad := none } := ⟨rfl, rfl, rfl, rfl, rfl⟩
  exact hP.sameUpstream hsame h

@[simp] theorem Service.reconcileDeclared_fetcher {rt : Runtime} {cfg : Config} {m : Service}
    (d : Service.Declared) : (m.reconcileDeclared rt cfg d).2.fetcher = m.fetcher := by
  obtain h | ⟨prev, next, rep, -, -, h⟩ := m.reconcileDeclared_cases d <;> rw [h]
  simp [Service.activate]

@[simp] theorem Service.reconcileDeclared_bootstrap {rt : Runtime} {cfg : Config} {m : Service}
    (d : Service.Declared) : (m.reconcileDeclared rt cfg d).2.bootstrap = m.bootstrap := by
  obtain h | ⟨prev, next, rep, -, -, h⟩ := m.reconcileDeclared_cases d <;> rw [h]
  simp [Service.activate]

@[simp] theorem Service.reconcileDeclared_storeBootstrap {rt : Runtime} {cfg : Config} {m : Service}
    (d : Service.Declared) :
    (m.reconcileDeclared rt cfg d).2.store.bootstrap = m.store.bootstrap := by
  obtain h | ⟨prev, next, rep, -, -, h⟩ := m.reconcileDeclared_cases d <;> rw [h]
  simp [Service.activate]

theorem Service.reconcileDeclared_active {rt : Runtime} {cfg : Config} {m : Service} (h : m.active ≠ none)
    (d : Service.Declared) : (m.reconcileDeclared rt cfg d).2.active ≠ none := by
  obtain heq | ⟨prev, next, rep, -, -, heq⟩ := m.reconcileDeclared_cases d <;> rw [heq]
  · exact h
  · exact Option.some_ne_none next

@[simp] theorem Service.activateCycle_fetcher {m : Service} (inp : Service.RefreshInput)
    (next : Snapshot) : (m.activateCycle inp next).fetcher = m.fetcher := by
  unfold activateCycle
  split <;> simp [activate]

theorem Service.activateCycle_history {m : Service} (inp : Service.RefreshInput) (next : Snapshot) :
    (m.activateCycle inp next).history = ⟨.cycle inp.cycle.now, next⟩ :: m.history := by
  unfold Service.activateCycle
  split <;> simp [Service.activate]

@[simp] theorem Service.activateCycle_storeBootstrap {m : Service} (inp : Service.RefreshInput)
    (next : Snapshot) : (m.activateCycle inp next).store.bootstrap = m.store.bootstrap := by
  unfold activateCycle
  split <;> simp [activate]

namespace Holds

variable {P : Bootstrap → Snapshot → Prop} {m : Service}

theorem empty (maxSize : Int) : Holds P (Service.empty maxSize) := by
  constructor <;> simp [Service.empty]

variable {rt : Runtime} {cfg : Config} {C : Bootstrap → Cycle → Option Snapshot → Fetcher → Prop}

theorem activate (hP : Stable rt cfg C P) (h : Holds P m) {next : Snapshot} (cause : Cause)
    (refused : Option String) {b : Bootstrap} (hb : m.store.bootstrap = some b) (hnext : P b next) :
    Holds P ((m.saveSnapshot refused next).activate cause next) := by
  refine ⟨?_, ?_, ?_⟩
  · simpa [Service.activate] using h.bootstrap
  · simpa [Service.activate] using ⟨b, hb, hnext⟩
  · intro s hs
    rcases Service.mem_saveSnapshot hs with rfl | hs
    · simpa [Service.activate] using ⟨b, hb, hP.stored hnext⟩
    · simpa [Service.activate] using h.stored s hs

theorem reconcileDeclared (hP : Stable rt cfg C P) (h : Holds P m) (d : Service.Declared) :
    Holds P (m.reconcileDeclared rt cfg d).2 := by
  obtain heq | ⟨prev, next, rep, hprev, hnext, heq⟩ := m.reconcileDeclared_cases d <;> rw [heq]
  · exact h
  · obtain ⟨b, hb, hprevP⟩ := h.active prev hprev
    exact h.activate hP _ _ hb (hP.sameUpstream (refreshDeclared_ok hnext).1 hprevP)

theorem fetcher (h : Holds P m) (f : Fetcher) : Holds P { m with fetcher := f } :=
  ⟨h.bootstrap, h.active, h.stored⟩

theorem activateCycle (hP : Stable rt cfg C P) (h : Holds P m) (inp : Service.RefreshInput)
    {next : Snapshot} {b : Bootstrap} (hb : m.store.bootstrap = some b) (hnext : P b next) :
    Holds P (m.activateCycle inp next) := by
  unfold Service.activateCycle
  split
  · exact h.activate hP _ _ hb hnext
  · -- to the store a refused write and no write are the same
    exact h.activate hP _ (some "") hb hnext

theorem refresh (hP : Stable rt cfg C P) (h : Holds P m) {boot : Bootstrap}
    (hboot : m.bootstrap = some boot) (inp : Service.RefreshInput)
    (hC : C boot inp.cycle (m.reconcileDeclared rt cfg inp.declared).2.active m.fetcher) :
    Holds P (m.refresh rt cfg boot inp).2 := by
  have h₁ := h.reconcileDeclared hP inp.declared
  obtain ⟨e, f, -, heq⟩ | ⟨next, f, hnext, heq⟩ := m.refresh_cases boot inp <;> rw [heq]
  · exact h₁.fetcher f
  · rw [Service.reconcileDeclared_fetcher] at hnext
    have hb := h₁.bootstrap boot (by simpa using hboot)
    refine (h₁.fetcher f).activateCycle hP inp hb (hP.cycle ?_ hC hnext)
    intro p hp
    obtain ⟨b, hb', hpP⟩ := h₁.active p hp
    rw [hb] at hb'
    cases hb'
    exact hpP

theorem approvePending (hP : Stable rt cfg C P) (h : Holds P m) (fp : String) (now : Time)
    (refused : Option String) : Holds P (m.approvePending rt fp now refused).2 := by
  obtain ⟨e, heq⟩ | ⟨cur, pa, hcur, hpa, heq⟩ := m.approvePending_cases fp now refused <;> rw [heq]
  · exact h
  · obtain ⟨b, hb, hcurP⟩ := h.active cur hcur
    exact h.activate hP _ _ hb (hP.approve hcurP hpa)

theorem restart (h : Holds P m) (st : Service.Startup) :
    Holds P (m.newProcess.initializeManager st).2 := by
  obtain heq | ⟨b, hb, hcase⟩ := m.restart_cases st
  · rw [heq]
    exact ⟨by simp [Service.newProcess], by simp [Service.newProcess], h.stored⟩
  · have hstored : ∀ s ∈ m.store.snapshot, P b s := by
      intro s hs
      obtain ⟨b', hb', hP⟩ := h.stored s hs
      exact hb b' hb' ▸ hP
    obtain ⟨-, heq⟩ | ⟨s, hs, heq⟩ := hcase <;> rw [heq]
    · exact ⟨by simp, by simp [Service.newProcess], fun s hs => ⟨b, rfl, hstored s hs⟩⟩
    · exact ⟨by simp [Service.activate], by simpa [Service.activate] using hstored s hs,
        fun s hs => ⟨b, rfl, hstored s hs⟩⟩

theorem step (hP : Stable rt cfg C P) (h : Holds P m) {op : Op} (hC : CycleMeets rt cfg C m op) :
    Holds P (m.step rt cfg op) := by
  cases op with
  | restart st => exact h.restart st
  | reconcileDeclared d => exact h.reconcileDeclared hP d
  | refresh inp =>
      unfold Service.step
      simp only
      split
      · exact h
      · rename_i boot hboot
        exact h.refresh hP hboot inp (hC boot hboot)
  | approvePending fp now refused => exact h.approvePending hP fp now refused

theorem run {C : Config → Bootstrap → Cycle → Option Snapshot → Fetcher → Prop}
    (hP : ∀ cfg, Stable rt cfg (C cfg) P) (h : Holds P m) {ops : List (Config × Op)}
    (hops : CyclesMeet rt C ops m) : Holds P (m.run rt ops) :=
  runFrom_keeps (fun _ i h hC => h.step (hP i.1) hC) h hops

theorem run_of_stable (hP : ∀ cfg, Stable rt cfg (fun _ _ _ _ => True) P) (h : Holds P m)
    (ops : List (Config × Op)) : Holds P (m.run rt ops) := by
  refine runFrom_invariant (I := Holds P) ?_ ops h
  rintro m ⟨cfg, op⟩ h
  refine h.step (hP cfg) ?_
  cases op <;> simp [CycleMeets]

/-- What every cycle keeps holds of whatever a run from an empty store serves or stores. -/
theorem of_run (hP : ∀ cfg, Stable rt cfg (fun _ _ _ _ => True) P) (ops : List (Config × Op))
    (maxSize : Int) : Holds P ((Service.empty maxSize).run rt ops) :=
  (Holds.empty maxSize).run_of_stable hP ops

end Holds

end TrustAnchor.Ingest
