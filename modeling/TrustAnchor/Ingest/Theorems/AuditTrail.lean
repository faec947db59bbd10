import TrustAnchor.Ingest.Lemmas.Served
import TrustAnchor.Ingest.Symbolic

/-!
# The audit trail

Every saved snapshot names the one saved before it and says what came and went. The saved snapshots
together tell the whole story, though not everything that is served is saved.
-/

namespace TrustAnchor.Ingest

open Lib Tsl Trust

variable {rt : Runtime} {cfg : Config} {m : Service} {saved : List Snapshot} {p next : Snapshot}

/-! ## What a run saves -/

namespace Service

variable (rt : Runtime) (cfg : Config)

/-- The snapshots that a reconcile hands to the store. -/
def declaredSaves (m : Service) (d : Declared) : List Snapshot :=
  match m.active with
  | none => []
  | some prev =>
    match refreshDeclared rt cfg d.readFile prev d.now with
    | .ok (some next, _) => [next]
    | _ => []

/-- The snapshots that the cycle of a refresh hands to the store. -/
def cycleSaves (m : Service) (boot : Bootstrap) (inp : RefreshInput) : List Snapshot :=
  match Ingest.refresh rt cfg inp.cycle m.active boot m.fetcher with
  | (.ok next, _) => if persists m.active next then [next] else []
  | (.error _, _) => []

/-- The snapshots that an operation saves, in order; a refused approval saves nothing. -/
def saves (m : Service) : Op → List Snapshot
  | .restart _ => []
  | .reconcileDeclared d => m.declaredSaves rt cfg d
  | .refresh inp =>
    match m.bootstrap with
    | none => []
    | some boot =>
      m.declaredSaves rt cfg inp.declared ++
        (m.reconcileDeclared rt cfg inp.declared).2.cycleSaves rt cfg boot inp
  | .approvePending fp now refused => (m.approvePending rt fp now refused).1.toOption.toList

/-- `Initialize` has succeeded: the process serves the stored snapshot, if there was one. -/
def Initialized (m : Service) : Prop := m.bootstrap ≠ none → m.active = none → m.store.snapshot = none

/-- The operation can be called, and the store accepts what it writes: a process whose `Initialize`
failed does nothing before the next start. -/
def Runs (m : Service) : Op → Prop
  | .restart _ => True
  | op => m.Initialized ∧ op.Accepted

end Service

/-- The snapshots that a run saves, in order. -/
def savedBy (rt : Runtime) : List (Config × Op) → Service → List Snapshot
  | [], _ => []
  | (cfg, op) :: ops, m => m.saves rt cfg op ++ savedBy rt ops (m.step rt cfg op)

/-- What comes and goes with a saved snapshot. -/
def changesOf (s : Snapshot) : List (Change Place) := (s.diff.map Diff.changes).getD []

/-! ## One save -/

/-- The saved snapshots tell the story of the last one, and that one stands for what is served. -/
structure Audited (rt : Runtime) (m : Service) (saved : List Snapshot) : Prop where
  stored : m.store.snapshot = saved.getLast?.map fun s => { s with declaredLoad := none }
  served : ∀ s ∈ m.active, WellFormed rt s ∧ ∃ last ∈ saved.getLast?, last.id = s.id
  wellFormed : ∀ s ∈ saved, WellFormed rt s
  links : saved.IsChain fun older newer => newer.prevID = older.id
  first : ∀ s ∈ saved.head?, s.prevID = ""
  replayed : ∀ π, π ∈ Change.replay [] (saved.flatMap changesOf) ↔ π ∈ places saved.getLast?

theorem Audited.nil_of_idle (h : Audited rt m saved) (hidle : m.store.snapshot = none) : saved = [] := by
  have hstored := h.stored
  rw [hidle] at hstored
  simpa using hstored.symm

/-- A snapshot that is served without being saved has the id of the one before it. -/
theorem Audited.keep (h : Audited rt m saved) (hp : m.active = some p) (hnext : Advances rt cfg m.active next)
    (hid : next.id = p.id) (cause : Cause) : Audited rt (m.activate cause next) saved := by
  refine ⟨h.stored, fun s hs => ?_, h.wellFormed, h.links, h.first, h.replayed⟩
  obtain rfl := Option.some.inj hs
  obtain ⟨-, last, hlast, hlastID⟩ := h.served p hp
  refine ⟨(wellFormed_kept rt).advances trivial (fun s hs => (h.served s hs).1) hnext, last, hlast, ?_⟩
  exact hlastID.trans hid.symm

theorem Audited.fetcher (h : Audited rt m saved) (f : Fetcher) : Audited rt { m with fetcher := f } saved :=
  ⟨h.stored, h.served, h.wellFormed, h.links, h.first, h.replayed⟩

section Save

variable (hsha : Function.Injective rt.sha256) (hne : ∀ b, rt.sha256 b ≠ [])
  (hjson : Function.Injective rt.marshalID)

include hsha hjson in
theorem Audited.places (h : Audited rt m saved) (hidle : m.active = none → saved = []) (π : Place) :
    π ∈ Change.replay [] (saved.flatMap changesOf) ↔ π ∈ places m.active := by
  rw [h.replayed]
  cases hactive : m.active with
  | none => rw [hidle hactive, List.getLast?_nil]
  | some s =>
      obtain ⟨hs, last, hlast, hid⟩ := h.served s hactive
      rw [Option.mem_def.1 hlast]
      exact (h.wellFormed last (List.mem_of_getLast? hlast)).places_eq hsha hjson hs hid π

include hsha hne hjson in
theorem Audited.save (h : Audited rt m saved) (hidle : m.active = none → saved = [])
    (hnext : Advances rt cfg m.active next) (cause : Cause) :
    Audited rt ((m.saveSnapshot none next).activate cause next) (saved ++ [next]) := by
  have hactive : ∀ s ∈ m.active, WellFormed rt s := fun s hs => (h.served s hs).1
  have hwell : WellFormed rt next := (wellFormed_kept rt).advances trivial hactive hnext
  have hprev : ∀ last ∈ saved.getLast?, next.prevID = last.id := by
    intro last hlast
    rw [hnext.prevID]
    cases hs : m.active with
    | none => simp [hidle hs] at hlast
    | some s =>
        obtain ⟨-, last', hlast', hid⟩ := h.served s hs
        obtain rfl := Option.some.inj (hlast.symm.trans hlast')
        exact hid.symm
  refine ⟨by simp [Service.activate, Service.saveSnapshot], ?_, ?_, ?_, ?_, ?_⟩
  · intro s hs
    obtain rfl := Option.some.inj hs
    exact ⟨hwell, next, by simp, rfl⟩
  · intro s hs
    rcases List.mem_append.1 hs with hs | hs
    · exact h.wellFormed s hs
    · rw [List.mem_singleton.1 hs]
      exact hwell
  · rw [List.isChain_append]
    exact ⟨h.links, by simp, by simpa using hprev⟩
  · intro s hs
    cases saved with
    | nil =>
        obtain rfl : next = s := by simpa using hs
        rw [hnext.prevID]
        cases hs : m.active with
        | none => rfl
        | some s =>
            obtain ⟨-, last, hlast, -⟩ := h.served s hs
            cases hlast
    | cons s' saved => exact h.first s hs
  · intro π
    rw [List.flatMap_append, Change.replay_append, List.flatMap_singleton, changesOf, hnext.diff,
      List.getLast?_concat]
    exact mem_replay_computeDiff (indexable_of_wellFormed hne hactive) (hwell.indexable hne)
      (h.places hsha hjson hidle)

/-! ## One operation -/

include hsha hne hjson in
theorem Audited.reconcileDeclared (h : Audited rt m saved) {d : Service.Declared} (hd : d.saveSnapshot = none) :
    Audited rt (m.reconcileDeclared rt cfg d).2 (saved ++ m.declaredSaves rt cfg d) := by
  unfold Service.reconcileDeclared Service.declaredSaves
  cases hp : m.active with
  | none => simpa using h
  | some p =>
      simp only
      rcases hnext : refreshDeclared rt cfg d.readFile p d.now with e | ⟨_ | next, rep⟩
      · simpa using h
      · simpa using h
      · simp only [hd]
        have hadvances : Advances rt cfg m.active next := hp ▸ .declared hnext
        exact h.save hsha hne hjson (by simp [hp]) hadvances .declared

include hsha hne hjson in
theorem Audited.cycle (h : Audited rt m saved) (hidle : m.active = none → saved = []) {boot : Bootstrap}
    {inp : Service.RefreshInput} {f : Fetcher} (hinp : inp.saveSnapshot = none)
    (hnext : refresh rt cfg inp.cycle m.active boot m.fetcher = (.ok next, f)) :
    Audited rt ({ m with fetcher := f }.activateCycle inp next) (saved ++ m.cycleSaves rt cfg boot inp) := by
  unfold Service.activateCycle Service.cycleSaves
  rw [hnext]
  simp only
  split
  · rw [hinp]
    exact (h.fetcher f).save hsha hne hjson hidle (.cycle hnext) _
  · rename_i hpersists
    cases hp : m.active with
    | none => simp [hp, Service.persists, Service.cycleChanged] at hpersists
    | some p =>
        have hid : next.id = p.id := by
          simp only [hp, Service.persists, Service.cycleChanged, Bool.or_eq_true, not_or, decide_eq_true_eq,
            not_not] at hpersists
          exact hpersists.1.1.1
        rw [List.append_nil]
        exact (h.fetcher f).keep hp (.cycle hnext) hid _

include hsha hne hjson in
theorem Audited.refresh (h : Audited rt m saved) (hidle : m.active = none → saved = []) {boot : Bootstrap}
    {inp : Service.RefreshInput} (hinp : inp.Accepted) :
    Audited rt (m.refresh rt cfg boot inp).2 (saved ++ (m.declaredSaves rt cfg inp.declared ++
      (m.reconcileDeclared rt cfg inp.declared).2.cycleSaves rt cfg boot inp)) := by
  have hfirst : Audited rt (m.reconcileDeclared rt cfg inp.declared).2 (saved ++ _) :=
    h.reconcileDeclared hsha hne hjson hinp.1
  have hidle' : (m.reconcileDeclared rt cfg inp.declared).2.active = none →
      saved ++ m.declaredSaves rt cfg inp.declared = [] := by
    intro hnone
    obtain heq | ⟨prev, next, rep, -, -, heq⟩ := m.reconcileDeclared_cases inp.declared <;> rw [heq] at hnone
    · simp [hidle hnone, Service.declaredSaves, hnone]
    · cases hnone
  rw [← List.append_assoc]
  obtain ⟨e, f, herr, heq⟩ | ⟨next, f, hok, heq⟩ := m.refresh_cases boot inp <;> rw [heq]
  · rw [Service.cycleSaves, herr, List.append_nil]
    exact hfirst.fetcher f
  · exact hfirst.cycle hsha hne hjson hidle' hinp.2 hok

include hsha hne hjson in
theorem Audited.approvePending (h : Audited rt m saved) (cfg : Config) (fp : String) (now : Time)
    (refused : Option String) : Audited rt (m.approvePending rt fp now refused).2
      (saved ++ (m.approvePending rt fp now refused).1.toOption.toList) := by
  have hsame : Audited rt m (saved ++ []) := by rwa [List.append_nil]
  unfold Service.approvePending
  cases hcur : m.active with
  | none => exact hsame
  | some cur =>
      simp only
      cases hpa : cur.pending.find? fun pa => pa.anchor.fingerprintSHA256 = fp with
      | none => exact hsame
      | some pa =>
          simp only
          cases hclone : cloneSnapshot rt cur with
          | error e => exact hsame
          | ok s =>
              obtain rfl := cloneSnapshot_ok hclone
              cases refused with
              | some e => exact hsame
              | none =>
                  have hadvances : Advances rt cfg m.active
                      (Service.approve rt cur { cur with declaredLoad := none } pa.anchor now) :=
                    hcur ▸ .approve hpa
                  exact h.save hsha hne hjson (by simp [hcur]) hadvances _

theorem Audited.restart (h : Audited rt m saved) (st : Service.Startup) :
    Audited rt (m.newProcess.initializeManager st).2 saved := by
  obtain heq | ⟨b, -, ⟨-, heq⟩ | ⟨s, hs, heq⟩⟩ := m.restart_cases st <;> rw [heq]
  · exact ⟨h.stored, by simp [Service.newProcess], h.wellFormed, h.links, h.first, h.replayed⟩
  · exact ⟨h.stored, by simp [Service.newProcess], h.wellFormed, h.links, h.first, h.replayed⟩
  · refine ⟨h.stored, fun s' hs' => ?_, h.wellFormed, h.links, h.first, h.replayed⟩
    obtain rfl := Option.some.inj hs'
    rw [h.stored] at hs
    obtain ⟨last, hlast, rfl⟩ := Option.map_eq_some_iff.1 hs
    exact ⟨(h.wellFormed last (List.mem_of_getLast? hlast)).unloaded, last, hlast, rfl⟩

include hsha hne hjson in
theorem Audited.step (h : Audited rt m saved) {op : Op} (hop : m.Runs op) :
    Audited rt (m.step rt cfg op) (saved ++ m.saves rt cfg op) := by
  cases op with
  | restart st =>
      rw [Service.saves, List.append_nil]
      exact h.restart st
  | reconcileDeclared d => exact h.reconcileDeclared hsha hne hjson hop.2
  | refresh inp =>
      unfold Service.step Service.saves
      cases hboot : m.bootstrap with
      | none => simpa using h
      | some boot =>
          refine h.refresh hsha hne hjson (fun hnone => h.nil_of_idle ?_) hop.2
          exact hop.1 (by simp [hboot]) hnone
  | approvePending fp now refused => exact h.approvePending hsha hne hjson cfg fp now refused

end Save

/-! ## Whole runs -/

theorem Audited.run (hsha : Function.Injective rt.sha256) (hne : ∀ b, rt.sha256 b ≠ [])
    (hjson : Function.Injective rt.marshalID) {ops : List (Config × Op)} (h : Audited rt m saved)
    (hops : Meets (fun i m => m.step rt i.1 i.2) (fun m i => m.Runs i.2) ops m) :
    Audited rt (m.run rt ops) (saved ++ savedBy rt ops m) := by
  induction ops generalizing m saved with
  | nil =>
      rw [savedBy, List.append_nil]
      exact h
  | cons i ops ih =>
      obtain ⟨cfg, op⟩ := i
      rw [savedBy, ← List.append_assoc]
      exact ih (h.step hsha hne hjson hops.1) hops.2

/-- In every run without refused writes: each saved snapshot names the one saved before it, the last one is
what the store has, and the additions and removals of the saved diffs, in order and from nothing, lead to
its places. -/
theorem savedBy_replays (hsha : Function.Injective rt.sha256) (hne : ∀ b, rt.sha256 b ≠ [])
    (hjson : Function.Injective rt.marshalID) {ops : List (Config × Op)} (maxSize : Int)
    (hops : Meets (fun i m => m.step rt i.1 i.2) (fun m i => m.Runs i.2) ops (Service.empty maxSize)) :
    ((savedBy rt ops (Service.empty maxSize)).IsChain fun older newer => newer.prevID = older.id) ∧
      ((Service.empty maxSize).run rt ops).store.snapshot =
        (savedBy rt ops (Service.empty maxSize)).getLast?.map (fun s => { s with declaredLoad := none }) ∧
      ∀ π, π ∈ Change.replay [] ((savedBy rt ops (Service.empty maxSize)).flatMap changesOf) ↔
        π ∈ places (savedBy rt ops (Service.empty maxSize)).getLast? := by
  have hempty : Audited rt (Service.empty maxSize) [] :=
    ⟨rfl, by simp [Service.empty], by simp, .nil, by simp, by simp [places, placed]⟩
  have haudited := hempty.run hsha hne hjson hops
  rw [List.nil_append] at haudited
  exact ⟨haudited.links, haudited.stored, haudited.replayed⟩

instance (m : Service) : Decidable m.Initialized :=
  inferInstanceAs (Decidable (m.bootstrap ≠ none → m.active = none → m.store.snapshot = none))

instance : (op : Op) → Decidable op.Accepted
  | .restart _ => inferInstanceAs (Decidable True)
  | .reconcileDeclared d => inferInstanceAs (Decidable (d.saveSnapshot = none))
  | .refresh inp =>
    inferInstanceAs (Decidable (inp.declared.saveSnapshot = none ∧ inp.saveSnapshot = none))
  | .approvePending _ _ _ => inferInstanceAs (Decidable True)

instance (m : Service) : (op : Op) → Decidable (m.Runs op)
  | .restart _ => inferInstanceAs (Decidable True)
  | .reconcileDeclared d => inferInstanceAs (Decidable (m.Initialized ∧ (Op.reconcileDeclared d).Accepted))
  | .refresh inp => inferInstanceAs (Decidable (m.Initialized ∧ (Op.refresh inp).Accepted))
  | .approvePending fp now refused =>
    inferInstanceAs (Decidable (m.Initialized ∧ (Op.approvePending fp now refused).Accepted))

namespace Symbolic

/-- Two saves with a cycle that saves nothing and a restart between them. -/
def interrupted : List (Config × Op) :=
  [install ["B"], refresh 5 (growingPages "1"), refresh 6 (growingPages "1"), .restart {},
    refresh 7 (growingPages "2")].map fun op => (config ["EE"] .auto 0, op)

end Symbolic

open Symbolic in
/-- Three cycles and two saved snapshots, whose diffs lead to the places of the second one. -/
theorem savedBy_replays_interrupted :
    ∃ older newer, savedBy growing.exact interrupted (Service.empty 100) = [older, newer] ∧
      newer.prevID = older.id ∧ (places (some newer)).length = 2 ∧
      ∀ π, π ∈ Change.replay [] (changesOf older ++ changesOf newer) ↔ π ∈ places (some newer) := by
  have hruns : Meets (fun i m => m.step growing.exact i.1 i.2) (fun m i => m.Runs i.2) interrupted
      (Service.empty 100) := by decide +kernel
  have hsaved : (savedBy growing.exact interrupted (Service.empty 100)).map
      (fun s => (places (some s)).length) = [1, 2] := by decide +kernel
  have hlength := congrArg List.length hsaved
  rw [List.length_map] at hlength
  obtain ⟨older, newer, heq⟩ := List.length_eq_two.1 hlength
  obtain ⟨hlinks, -, hreplay⟩ := savedBy_replays growing.exact_sha256_injective growing.exact_sha256_ne_nil
    growing.exact_marshalID_injective 100 hruns
  rw [heq] at hlinks hreplay hsaved
  refine ⟨older, newer, heq, by simpa using hlinks, ?_, fun π => by simpa using hreplay π⟩
  simpa using (List.cons.inj hsaved).2

end TrustAnchor.Ingest
