import TrustAnchor.Ingest.Lemmas.Concurrent

/-!
# Concurrent calls, lock-free reads and kills

Any number of goroutines call the manager in any order, read its pointers at any moment, and the
process may die at any moment. It all comes down to operations one after the other.
-/

namespace TrustAnchor.Ingest

open Lib Tsl Trust

variable {rt : Runtime} {cfg : Config}

/-! ## One process -/

theorem exec_body : Machine.exec (Call.body rt cfg) = Call.exec rt cfg := by
  funext c m
  rw [Machine.exec, Call.body, Prog.run_lock, Prog.run_deferUnlock]
  exact c.run_steps m

theorem serial_body (cs : List Call) (m : Service) :
    Machine.serial (Call.body rt cfg) cs m = m.run rt (cs.map fun c => (cfg, c.op)) := by
  unfold Machine.serial
  rw [exec_body]
  induction cs generalizing m with
  | nil => rfl
  | cons c cs ih => exact ih _

/-- What the calls of the goroutine `i` return if all calls are made one after the other. -/
def repliesTo (rt : Runtime) (cfg : Config) (i : Nat) (calls : List (Nat × Call)) (m : Service) :
    List (Call × Reply) :=
  ((calls.zip (replies (Call.exec rt cfg) (calls.map Prod.snd) m)).filter (·.1.1 = i)).map fun e => (e.1.2, e.2)

theorem ofThread_sequential (i : Nat) (calls : List (Nat × Call)) (m : Service) :
    Machine.ofThread i (Machine.sequential (Call.body rt cfg) calls m) = repliesTo rt cfg i calls m := by
  rw [Machine.ofThread, Machine.sequential, exec_body, List.filter_map, List.map_map]
  rfl

/-- The machine's invariant, for the calls of a manager. -/
theorem serial_run (rt : Runtime) (cfg : Config) (m : Service) (es : List (Event Call)) :
    Machine.Serial (Call.steps rt cfg) m (Machine.run (Call.body rt cfg) es { shared := m }) :=
  .run (Call.lockFree rt cfg) es m

/-- In whatever order goroutines call and are scheduled: the mutex is never given back by one that has not
taken it, at most one of them has it, each has been told, call by call, what its calls reply if all calls
are made one after the other in the order in which they gave the mutex back, and whenever the mutex is
free, the manager, the store and the fetcher are as those calls leave them in that order. -/
theorem concurrent_calls_serialize (cfg : Config) (m : Service) (es : List (Event Call)) :
    let y := Machine.run (Call.body rt cfg) es { shared := m }
    y.fatal = false ∧ (∀ i j, (y.thread i).Holding → (y.thread j).Holding → i = j) ∧
      (∀ i, y.returned i <+: repliesTo rt cfg i y.released m) ∧
      (y.locked = false → y.shared = m.run rt (y.released.map fun e => (cfg, e.2.op))) := by
  intro y
  have h : Machine.Serial (Call.steps rt cfg) m y := serial_run rt cfg m es
  refine ⟨h.sound, h.only, fun i => ?_, fun hfree => ?_⟩
  · rw [← ofThread_sequential]
    exact h.returned_sequential i
  · have hserial : y.shared = Machine.serial (Call.body rt cfg) (y.released.map Prod.snd) m := h.free hfree
    rw [hserial, serial_body, List.map_map]
    rfl

/-! ## Processes one after the other -/

/-- The operations that a process on the store of `m` stands for: its start, the calls that gave the mutex back, and a
part of the one that has it. No call that has returned is left out, and none is there that was not made. -/
structure Life.Log (rt : Runtime) (l : Life) (m : Service) (ops : List (Config × Op)) : Prop where
  operations : ∃ last : List Op, ops = (l.cfg, .restart l.startup) ::
      ((l.machine rt m).released.map (fun e => (l.cfg, e.2.op)) ++ last.map (l.cfg, ·)) ∧
    (last = [] ∨ ∃ i c p, (l.machine rt m).thread i = .running c p ∧ p.Holding ∧ last <+: c.parts)
  returned : ∀ i, ((l.machine rt m).returned i).map Prod.fst <+:
    ((l.machine rt m).released.filter (·.1 = i)).map Prod.snd
  made : ∀ e ∈ (l.machine rt m).released, .call e.1 e.2 ∈ l.events

/-- The operations of processes that run one after the other. -/
inductive Logs (rt : Runtime) : List Life → Service → List (List (Config × Op)) → Prop
  | nil (m : Service) : Logs rt [] m []
  | cons {l : Life} {ls : List Life} {m : Service} {ops : List (Config × Op)} {runs : List (List (Config × Op))} :
      l.Log rt m ops → Logs rt ls (l.machine rt m).shared runs → Logs rt (l :: ls) m (ops :: runs)

theorem map_repliesTo (i : Nat) (calls : List (Nat × Call)) (m : Service) :
    (repliesTo rt cfg i calls m).map Prod.fst = (calls.filter (·.1 = i)).map Prod.snd := by
  induction calls generalizing m with
  | nil => rfl
  | cons e calls ih =>
      have hrest := ih (advance (Call.exec rt cfg) e.2 m)
      unfold repliesTo at hrest ⊢
      by_cases he : e.1 = i <;> simp [replies, he, hrest]

/-- At the end of its events the process is amid the operations of one of its logs. -/
theorem Life.exists_log (rt : Runtime) (l : Life) (m : Service) :
    ∃ served stored, l.Log rt m ((l.cfg, .restart l.startup) :: stored) ∧ served <+: stored ∧
      stored.length ≤ served.length + 1 ∧
      Between ((m.newProcess.initializeManager l.startup).2.run rt served)
        ((m.newProcess.initializeManager l.startup).2.run rt stored) (l.machine rt m).shared := by
  have h : Machine.Serial (Call.steps rt l.cfg) (m.newProcess.initializeManager l.startup).2 (l.machine rt m) :=
    serial_run rt l.cfg _ l.events
  have hreturned : ∀ i, ((l.machine rt m).returned i).map Prod.fst <+:
      ((l.machine rt m).released.filter (·.1 = i)).map Prod.snd := by
    intro i
    have hprefix := (h.returned_sequential i).map Prod.fst
    rwa [show Machine.critical (Call.steps rt l.cfg) = Call.body rt l.cfg from rfl, ofThread_sequential,
      map_repliesTo] at hprefix
  have hmade : ∀ e ∈ (l.machine rt m).released, .call e.1 e.2 ∈ l.events := (Machine.Made.run l.events _).released
  have hserial : Machine.serial (Machine.critical (Call.steps rt l.cfg)) ((l.machine rt m).released.map Prod.snd)
      (m.newProcess.initializeManager l.startup).2 = (m.newProcess.initializeManager l.startup).2.run rt
        ((l.machine rt m).released.map fun e => (l.cfg, e.2.op)) := by
    have hbody := @serial_body rt l.cfg ((l.machine rt m).released.map Prod.snd)
      (m.newProcess.initializeManager l.startup).2
    rwa [List.map_map] at hbody
  cases hl : (l.machine rt m).locked with
  | false =>
      refine ⟨_, _, ⟨⟨[], by rw [List.map_nil, List.append_nil], .inl rfl⟩, hreturned, hmade⟩, List.prefix_rfl,
        by omega, ?_⟩
      rw [h.free hl, hserial]
      exact .refl _
  | true =>
      obtain ⟨i, hi⟩ := h.held hl
      have hposition := h.position i
      cases ht : (l.machine rt m).thread i with
      | idle =>
          rw [ht] at hi
          exact hi.elim
      | running c p =>
          rw [ht] at hi hposition
          obtain ⟨-, r, -, hreach⟩ := hposition.inside_of_holding hi
          rw [hserial] at hreach
          obtain ⟨served, stored, hserved, hstored, hlength, hbetween⟩ :=
            Prog.Always.of_reaches (c.always_amid _) hreach
          obtain ⟨last, hlast, rfl⟩ := List.prefix_map_iff.1 hstored
          refine ⟨_ ++ served, _ ++ last.map (l.cfg, ·), ⟨⟨last, rfl, .inr ⟨i, c, p, ht, hi, hlast⟩⟩, hreturned, hmade⟩,
            (List.prefix_append_right_inj _).2 hserved, by simp at hlength ⊢; omega, ?_⟩
          simpa [Service.run, runFrom] using hbetween

/-- The state is amid the operations from an empty store: readers find what they serve or what they served before the
last of them, and the store is as they leave it. -/
def StandsFor (rt : Runtime) (maxSize : Int) (ops : List (Config × Op)) (m : Service) : Prop :=
  ∃ served, served <+: ops ∧ ops.length ≤ served.length + 1 ∧
    Between ((Service.empty maxSize).run rt served) ((Service.empty maxSize).run rt ops) m

theorem Between.alike {m₁ m₁' m₂ m₂' t : Service} (h : Between m₁ m₂ t) (h₁ : m₁.Alike m₁') (h₂ : m₂.Alike m₂') :
    Between m₁' m₂' t :=
  ⟨h.active.trans h₁.active, h.history.trans h₁.history, h.store.trans h₂.store, h.maxSize.trans h₁.maxSize⟩

theorem StandsFor.life {maxSize : Int} {before : List (Config × Op)} {m : Service} (h : StandsFor rt maxSize before m)
    (l : Life) : ∃ ops, l.Log rt m ops ∧ StandsFor rt maxSize (before ++ ops) (l.machine rt m).shared := by
  obtain ⟨served, stored, hlog, hserved, hlength, hbetween⟩ := l.exists_log rt m
  -- the same life after the sequential run that the store is explained by
  have halike : ∀ ops, ((m.newProcess.initializeManager l.startup).2.run rt ops).Alike
      ((Service.empty maxSize).run rt (before ++ (l.cfg, .restart l.startup) :: ops)) := by
    intro ops
    obtain ⟨_, -, -, hm⟩ := h
    have hmax : m.fetcher.maxSize = ((Service.empty maxSize).run rt before).fetcher.maxSize := by
      rw [hm.maxSize, run_maxSize, run_maxSize]
    have hrun := (Service.restart_alike hm.store hmax l.startup).run rt ops
    simpa [Service.run, runFrom, Service.step] using hrun
  refine ⟨_, hlog, before ++ (l.cfg, .restart l.startup) :: served, ?_, ?_, hbetween.alike (halike _) (halike _)⟩
  · exact (List.prefix_append_right_inj _).2 (List.cons_prefix_cons.2 ⟨rfl, hserved⟩)
  · simp only [List.length_append, List.length_cons]
    omega

theorem StandsFor.lives {maxSize : Int} {before : List (Config × Op)} {m : Service}
    (h : StandsFor rt maxSize before m) (ls : List Life) :
    ∃ runs, Logs rt ls m runs ∧ StandsFor rt maxSize (before ++ runs.flatten) (lives rt ls m) := by
  induction ls generalizing before m with
  | nil => exact ⟨[], .nil m, by simpa [Ingest.lives] using h⟩
  | cons l ls ih =>
      obtain ⟨ops, hlog, hnext⟩ := h.life l
      obtain ⟨runs, hlogs, hlast⟩ := ih hnext
      refine ⟨ops :: runs, .cons hlog hlogs, ?_⟩
      simpa [Ingest.lives] using hlast

/-- Processes on one store, each with any number of goroutines in any order, each ended at any moment, in
the middle of a call as well, stand for one sequential run of whole operations: it has the calls that have
returned, in the order in which they gave the mutex back. The store is as the run leaves it, and readers
without the mutex find what the run serves or what it served before its last operation. -/
theorem lives_accounted (ls : List Life) (maxSize : Int) :
    ∃ runs, Logs rt ls (.empty maxSize) runs ∧
      ∃ served, served <+: runs.flatten ∧ runs.flatten.length ≤ served.length + 1 ∧
        (lives rt ls (.empty maxSize)).active = ((Service.empty maxSize).run rt served).active ∧
        (lives rt ls (.empty maxSize)).history = ((Service.empty maxSize).run rt served).history ∧
        (lives rt ls (.empty maxSize)).store = ((Service.empty maxSize).run rt runs.flatten).store := by
  have hstart : StandsFor rt maxSize [] (.empty maxSize) := ⟨[], List.prefix_rfl, by simp, .refl _⟩
  obtain ⟨runs, hlogs, served, hserved, hlength, hbetween⟩ := hstart.lives ls
  exact ⟨runs, hlogs, served, hserved, hlength, hbetween.active, hbetween.history, hbetween.store⟩

end TrustAnchor.Ingest
