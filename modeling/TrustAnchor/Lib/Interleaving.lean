import Mathlib.Logic.Function.Basic
import Mathlib.Logic.Relation
import TrustAnchor.Lib.Run

/-!
# Interleavings with a mutex

Threads run programs on shared memory, one atomic step at a time and in any order. There is one mutex, and a program
takes it and gives it back with instructions of its own. If every program is one critical section, then whatever the
order, the programs do what they do one after the other, in the order in which they gave the mutex back.
-/

namespace TrustAnchor.Lib

variable {κ σ ρ : Type}

/-! ## Programs -/

/-- Atomic steps on the shared memory and on the mutex, then a result. What follows a step may depend on the memory the
step was taken in. -/
inductive Prog (σ ρ : Type) where
  | ret (r : ρ)
  | step (f : σ → σ) (k : σ → Prog σ ρ)
  | lock (k : Prog σ ρ)
  | unlock (k : Prog σ ρ)

namespace Prog

/-- The program with nobody else around. -/
def run : Prog σ ρ → σ → ρ × σ
  | .ret r, s => (r, s)
  | .step f k, s => (k s).run (f s)
  | .lock k, s => k.run s
  | .unlock k, s => k.run s

@[simp] theorem run_ret (r : ρ) (s : σ) : (ret r).run s = (r, s) := rfl

@[simp] theorem run_step (f : σ → σ) (k : σ → Prog σ ρ) (s : σ) : (step f k).run s = (k s).run (f s) := rfl

@[simp] theorem run_lock (k : Prog σ ρ) (s : σ) : (lock k).run s = k.run s := rfl

/-- The program with the mutex given back before it returns. -/
def deferUnlock : Prog σ ρ → Prog σ ρ
  | .ret r => .unlock (.ret r)
  | .step f k => .step f fun s => (k s).deferUnlock
  | .lock k => .lock k.deferUnlock
  | .unlock k => .unlock k.deferUnlock

@[simp] theorem run_deferUnlock (p : Prog σ ρ) (s : σ) : p.deferUnlock.run s = p.run s := by
  induction p generalizing s with
  | ret r => rfl
  | step f k ih => exact ih s (f s)
  | lock k ih => exact ih s
  | unlock k ih => exact ih s

/-- No instruction for the mutex. -/
def LockFree : Prog σ ρ → Prop
  | .ret _ => True
  | .step _ k => ∀ s, (k s).LockFree
  | .lock _ | .unlock _ => False

/-- What is ahead is given back before it is taken: the program has the mutex. -/
def Holding : Prog σ ρ → Prop
  | .ret _ | .lock _ => False
  | .step _ k => ∀ s, (k s).Holding
  | .unlock _ => True

theorem LockFree.holding {p : Prog σ ρ} (h : p.LockFree) : p.deferUnlock.Holding := by
  induction p with
  | ret r => trivial
  | step f k ih => exact fun s => ih s (h s)
  | lock k | unlock k => exact h.elim

/-- One step of a program on the memory. -/
inductive Next : Prog σ ρ × σ → Prog σ ρ × σ → Prop
  | step (f : σ → σ) (k : σ → Prog σ ρ) (s : σ) : Next (.step f k, s) (k s, f s)

abbrev Reaches : Prog σ ρ × σ → Prog σ ρ × σ → Prop := Relation.ReflTransGen Next

theorem run_of_reaches {x y : Prog σ ρ × σ} (h : Reaches x y) : y.1.run y.2 = x.1.run x.2 := by
  induction h with
  | refl => rfl
  | tail _ hlast ih =>
      cases hlast
      exact ih

theorem LockFree.of_reaches {x y : Prog σ ρ × σ} (h : x.1.LockFree) (hxy : Reaches x y) : y.1.LockFree := by
  induction hxy with
  | refl => exact h
  | tail _ hlast ih =>
      cases hlast
      exact ih _

/-- `I` holds before the first step, between any two and after the last. -/
def Always (I : σ → Prop) : Prog σ ρ → σ → Prop
  | .ret _, s => I s
  | .step f k, s => I s ∧ (k s).Always I (f s)
  | .lock k, s => k.Always I s
  | .unlock k, s => k.Always I s

theorem Always.now {I : σ → Prop} {p : Prog σ ρ} {s : σ} (h : p.Always I s) : I s := by
  induction p generalizing s with
  | ret r => exact h
  | step f k _ => exact h.1
  | lock k ih | unlock k ih => exact ih h

theorem Always.of_reaches {I : σ → Prop} {x y : Prog σ ρ × σ} (h : x.1.Always I x.2) (hxy : Reaches x y) :
    I y.2 := by
  suffices hy : y.1.Always I y.2 from hy.now
  induction hxy with
  | refl => exact h
  | tail _ hlast ih =>
      cases hlast
      exact ih.2

end Prog

/-! ## Threads -/

inductive Thread (κ σ ρ : Type) where
  | idle
  /-- This much of the call is ahead. -/
  | running (c : κ) (p : Prog σ ρ)

/-- The thread has the mutex. -/
def Thread.Holding : Thread κ σ ρ → Prop
  | .idle => False
  | .running _ p => p.Holding

@[simp] theorem Thread.holding_running {c : κ} {p : Prog σ ρ} : (running c p).Holding ↔ p.Holding := .rfl

structure Machine (κ σ ρ : Type) where
  shared : σ
  locked : Bool := false
  /-- A mutex that was not taken has been given back, and all has stopped. -/
  fatal : Bool := false
  thread : Nat → Thread κ σ ρ := fun _ => .idle
  /-- Who gave the mutex back in which call, oldest first. -/
  released : List (Nat × κ) := []
  /-- What the calls of each thread have returned, oldest first. -/
  returned : Nat → List (κ × ρ) := fun _ => []

/-- What happens next: a thread makes a call, or the scheduler lets one take a step. -/
inductive Event (κ : Type) where
  | call (i : Nat) (c : κ)
  | sched (i : Nat)

namespace Machine

variable (prog : κ → Prog σ ρ)

/-- The thread `i` goes on with `p`. -/
def goOn (y : Machine κ σ ρ) (i : Nat) (c : κ) (p : Prog σ ρ) : Machine κ σ ρ :=
  { y with thread := Function.update y.thread i (.running c p) }

/-- The next instruction of the thread `i`. One that wants a taken mutex waits. -/
def instruction (y : Machine κ σ ρ) (i : Nat) (c : κ) : Prog σ ρ → Machine κ σ ρ
  | .ret r =>
    { y with thread := Function.update y.thread i .idle
             returned := Function.update y.returned i (y.returned i ++ [(c, r)]) }
  | .step f k => { y.goOn i c (k y.shared) with shared := f y.shared }
  | .lock k => if y.locked then y else { y.goOn i c k with locked := true }
  | .unlock k =>
    if y.locked then { y.goOn i c k with locked := false, released := y.released ++ [(i, c)] }
    else { y with fatal := true }

/-- A call by a busy thread and a step of an idle one are no events. -/
def step (e : Event κ) (y : Machine κ σ ρ) : Machine κ σ ρ :=
  if y.fatal then y
  else match e with
    | .call i c =>
      match y.thread i with
      | .idle => y.goOn i c (prog c)
      | .running _ _ => y
    | .sched i =>
      match y.thread i with
      | .idle => y
      | .running c p => y.instruction i c p

def run (es : List (Event κ)) (y : Machine κ σ ρ) : Machine κ σ ρ := runFrom (step prog) es y

/-! ## One after the other -/

/-- A call with nobody else around. -/
def exec (c : κ) (s : σ) : ρ × σ := (prog c).run s

/-- The memory after the calls `cs`, one after the other. -/
def serial (cs : List κ) (s : σ) : σ := runFrom (advance (exec prog)) cs s

@[simp] theorem serial_concat (cs : List κ) (c : κ) (s : σ) :
    serial prog (cs ++ [c]) s = ((prog c).run (serial prog cs s)).2 := by
  simp [serial, runFrom, advance, exec]

/-- The calls of the threads, one after the other, with what they return then. -/
def sequential (calls : List (Nat × κ)) (s : σ) : List (Nat × κ × ρ) :=
  (calls.zip (replies (exec prog) (calls.map Prod.snd) s)).map fun e => (e.1.1, e.1.2, e.2)

/-- The part of the thread `i`. -/
def ofThread (i : Nat) (es : List (Nat × κ × ρ)) : List (κ × ρ) := (es.filter (·.1 = i)).map Prod.snd

theorem sequential_concat (calls : List (Nat × κ)) (i : Nat) (c : κ) (s : σ) :
    sequential prog (calls ++ [(i, c)]) s =
      sequential prog calls s ++ [(i, c, ((prog c).run (serial prog (calls.map Prod.snd) s)).1)] := by
  have hlength : ∀ cs : List κ, ∀ s, (replies (exec prog) cs s).length = cs.length := by
    intro cs
    induction cs with
    | nil => exact fun _ => rfl
    | cons c cs ih => exact fun s => by simp [replies, ih]
  rw [sequential, sequential, List.map_append, List.map_singleton, replies_concat,
    List.zip_append (by rw [hlength, List.length_map]), List.map_append]
  rfl

/-! ## Critical sections -/

section Critical

/-- The whole call under the mutex. -/
def critical (body : κ → Prog σ ρ) (c : κ) : Prog σ ρ := .lock (body c).deferUnlock

variable {body : κ → Prog σ ρ}

@[simp] theorem run_critical (c : κ) (s : σ) : (critical body c).run s = (body c).run s := by simp [critical]

/-- Where a thread can be. `before` is the memory after the calls that gave the mutex back, `mine` what the calls of
the thread among them return. -/
inductive Position (body : κ → Prog σ ρ) (locked : Bool) (before shared : σ) (mine returned : List (κ × ρ)) :
    Thread κ σ ρ → Prop
  | idle : returned = mine → Position body locked before shared mine returned .idle
  | waiting (c : κ) : returned = mine → Position body locked before shared mine returned (.running c (critical body c))
  | inside (c : κ) {p : Prog σ ρ} : locked = true → Prog.Reaches (body c, before) (p, shared) → returned = mine →
      Position body locked before shared mine returned (.running c p.deferUnlock)
  | leaving (c : κ) (r : ρ) : mine = returned ++ [(c, r)] →
      Position body locked before shared mine returned (.running c (.ret r))

/-- A thread without the mutex does not notice what is done with it. -/
theorem Position.other {locked locked' : Bool} {before before' shared shared' : σ} {mine returned : List (κ × ρ)}
    {t : Thread κ σ ρ} (hbody : ∀ c, (body c).LockFree) (h : Position body locked before shared mine returned t)
    (ht : ¬ t.Holding) : Position body locked' before' shared' mine returned t := by
  cases h with
  | idle h => exact .idle h
  | waiting c h => exact .waiting c h
  | inside c _ hreach _ => exact absurd ((hbody c).of_reaches hreach).holding ht
  | leaving c r h => exact .leaving c r h

theorem Position.inside_of_holding {locked : Bool} {before shared : σ} {mine returned : List (κ × ρ)} {c : κ}
    {p : Prog σ ρ} (h : Position body locked before shared mine returned (.running c p)) (hp : p.Holding) :
    locked = true ∧ ∃ r, p = r.deferUnlock ∧ Prog.Reaches (body c, before) (r, shared) := by
  cases h with
  | waiting => exact hp.elim
  | inside _ hlocked hreach _ => exact ⟨hlocked, _, rfl, hreach⟩
  | leaving => exact hp.elim

/-- What the calls did and returned is what they do and return one after the other from `s₀`, in the order in which
they gave the mutex back; the one thread that has it, if there is one, has taken some steps of its own since. -/
structure Serial (body : κ → Prog σ ρ) (s₀ : σ) (y : Machine κ σ ρ) : Prop where
  sound : y.fatal = false
  free : y.locked = false → y.shared = serial (critical body) (y.released.map Prod.snd) s₀
  held : y.locked = true → ∃ i, (y.thread i).Holding
  only : ∀ i j, (y.thread i).Holding → (y.thread j).Holding → i = j
  position : ∀ i, Position body y.locked (serial (critical body) (y.released.map Prod.snd) s₀) y.shared
    (ofThread i (sequential (critical body) y.released s₀)) (y.returned i) (y.thread i)

namespace Serial

variable {s₀ : σ} {y : Machine κ σ ρ} {i : Nat} {c : κ}

theorem start (s₀ : σ) : Serial body s₀ { shared := s₀ } :=
  ⟨rfl, fun _ => rfl, nofun, nofun, fun _ => .idle rfl⟩

theorem not_holding (h : Serial body s₀ y) (hl : y.locked = false) (j : Nat) : ¬ (y.thread j).Holding := by
  intro hj
  have hposition := h.position j
  cases ht : y.thread j with
  | idle =>
      rw [ht] at hj
      exact hj
  | running c p =>
      rw [ht] at hj hposition
      rw [(hposition.inside_of_holding hj).1] at hl
      cases hl

/-- A thread without the mutex goes on without it. -/
theorem goOn (h : Serial body s₀ y) {v : Thread κ σ ρ} {returned : List (κ × ρ)}
    (hi : ¬ (y.thread i).Holding) (hv : ¬ v.Holding)
    (hposition : Position body y.locked (serial (critical body) (y.released.map Prod.snd) s₀) y.shared
      (ofThread i (sequential (critical body) y.released s₀)) returned v) :
    Serial body s₀ { y with thread := Function.update y.thread i v
                            returned := Function.update y.returned i returned } := by
  have hold : ∀ j, (Function.update y.thread i v j).Holding → (y.thread j).Holding := by
    intro j hj
    by_cases hji : j = i
    · subst hji
      rw [Function.update_self] at hj
      exact absurd hj hv
    · rwa [Function.update_of_ne hji] at hj
  refine ⟨h.sound, h.free, fun hl => ?_, fun j k hj hk => h.only j k (hold j hj) (hold k hk), fun j => ?_⟩
  · obtain ⟨j, hj⟩ := h.held hl
    have hji : j ≠ i := by
      rintro rfl
      exact hi hj
    refine ⟨j, ?_⟩
    simpa [hji] using hj
  · by_cases hji : j = i
    · subst hji
      simpa using hposition
    · simpa [hji] using h.position j

/-- A thread goes on with the mutex, which it had before or just took. -/
theorem inside (hbody : ∀ c, (body c).LockFree) (h : Serial body s₀ y) {p : Prog σ ρ} {shared : σ}
    (hothers : ∀ j ≠ i, ¬ (y.thread j).Holding)
    (hreach : Prog.Reaches (body c, serial (critical body) (y.released.map Prod.snd) s₀) (p, shared))
    (hmine : y.returned i = ofThread i (sequential (critical body) y.released s₀)) :
    Serial body s₀ { y with shared, locked := true
                            thread := Function.update y.thread i (.running c p.deferUnlock) } := by
  have honly : ∀ j, (Function.update y.thread i (.running c p.deferUnlock) j).Holding → j = i := by
    intro j hj
    by_contra hji
    rw [Function.update_of_ne hji] at hj
    exact hothers j hji hj
  refine ⟨h.sound, nofun, fun _ => ⟨i, ?_⟩, fun j k hj hk => (honly j hj).trans (honly k hk).symm, fun j => ?_⟩
  · simpa using ((hbody c).of_reaches hreach).holding
  · by_cases hji : j = i
    · subst hji
      simpa using Position.inside c rfl hreach hmine
    · simpa [hji] using (h.position j).other hbody (hothers j hji)

/-- The mutex is given back, with the result ready. -/
theorem release (hbody : ∀ c, (body c).LockFree) (h : Serial body s₀ y) {r : ρ}
    (hothers : ∀ j ≠ i, ¬ (y.thread j).Holding)
    (hreach : Prog.Reaches (body c, serial (critical body) (y.released.map Prod.snd) s₀) (.ret r, y.shared))
    (hmine : y.returned i = ofThread i (sequential (critical body) y.released s₀)) :
    Serial body s₀ { y with locked := false, thread := Function.update y.thread i (.running c (.ret r))
                            released := y.released ++ [(i, c)] } := by
  -- the memory and the result are those of the whole call
  have hrun : (r, y.shared) = (critical body c).run (serial (critical body) (y.released.map Prod.snd) s₀) := by
    rw [run_critical]
    exact Prog.run_of_reaches hreach
  have hsequential : sequential (critical body) (y.released ++ [(i, c)]) s₀ =
      sequential (critical body) y.released s₀ ++ [(i, c, r)] := by
    rw [sequential_concat, ← hrun]
  have hnone : ∀ j, ¬ (Function.update y.thread i (.running c (.ret r)) j).Holding := by
    intro j
    by_cases hji : j = i
    · subst hji
      rw [Function.update_self]
      exact id
    · rw [Function.update_of_ne hji]
      exact hothers j hji
  refine ⟨h.sound, fun _ => ?_, nofun, fun j k hj => absurd hj (hnone j), fun j => ?_⟩
  · rw [List.map_append, List.map_singleton, serial_concat, ← hrun]
  · simp only [hsequential]
    by_cases hji : j = i
    · subst hji
      rw [Function.update_self]
      refine .leaving c r ?_
      simp [ofThread, hmine]
    · have hsame : ofThread j (sequential (critical body) y.released s₀ ++ [(i, c, r)]) =
          ofThread j (sequential (critical body) y.released s₀) := by
        simp [ofThread, Ne.symm hji]
      rw [Function.update_of_ne hji, hsame]
      exact (h.position j).other hbody (hothers j hji)

theorem call (h : Serial body s₀ y) (i : Nat) (c : κ) :
    Serial body s₀ (y.step (critical body) (.call i c)) := by
  rw [step, if_neg (by simp [h.sound])]
  have hposition := h.position i
  cases hi : y.thread i with
  | running c' p => exact h
  | idle =>
      rw [hi] at hposition
      cases hposition with
      | idle hmine =>
          have hidle : ¬ (y.thread i).Holding := by
            rw [hi]
            exact id
          simpa [Machine.goOn] using h.goOn hidle id (.waiting c hmine)

theorem sched (hbody : ∀ c, (body c).LockFree) (h : Serial body s₀ y) (i : Nat) :
    Serial body s₀ (y.step (critical body) (.sched i)) := by
  rw [step, if_neg (by simp [h.sound])]
  have hposition := h.position i
  cases hi : y.thread i with
  | idle => exact h
  | running c p =>
      rw [hi] at hposition
      cases hposition with
      | waiting _ hmine =>
          simp only [critical, instruction]
          split
          · exact h
          · rename_i hl
            replace hl : y.locked = false := by simpa using hl
            have hreach : Prog.Reaches (body c, serial (critical body) (y.released.map Prod.snd) s₀)
                (body c, y.shared) := by rw [h.free hl]
            exact h.inside hbody (fun j _ => h.not_holding hl j) hreach hmine
      | @inside _ p hl hreach hmine =>
          have hothers : ∀ j ≠ i, ¬ (y.thread j).Holding := by
            intro j hji hj
            refine hji (h.only j i hj ?_)
            rw [hi]
            exact ((hbody c).of_reaches hreach).holding
          cases p with
          | ret r =>
              simp only [Prog.deferUnlock, instruction, hl, if_true]
              exact h.release hbody hothers hreach hmine
          | step f k =>
              have hnext := h.inside hbody hothers (hreach.tail (.step f k y.shared)) hmine
              simpa [Prog.deferUnlock, instruction, Machine.goOn, hl] using hnext
          | lock k | unlock k => exact (((hbody c).of_reaches hreach)).elim
      | leaving _ r hmine =>
          have hleft : ¬ (y.thread i).Holding := by
            rw [hi]
            exact id
          exact h.goOn hleft id (.idle hmine.symm)

theorem step (hbody : ∀ c, (body c).LockFree) (h : Serial body s₀ y) (e : Event κ) :
    Serial body s₀ (y.step (critical body) e) := by
  cases e with
  | call i c => exact h.call i c
  | sched i => exact h.sched hbody i

/-- In every order of events. -/
theorem run (hbody : ∀ c, (body c).LockFree) (es : List (Event κ)) (s₀ : σ) :
    Serial body s₀ (Machine.run (critical body) es { shared := s₀ }) :=
  runFrom_invariant (fun _ e h => h.step hbody e) es (.start s₀)

/-- Each thread has been told, call by call, what its calls return one after the other. -/
theorem returned_sequential (h : Serial body s₀ y) (i : Nat) :
    y.returned i <+: ofThread i (sequential (critical body) y.released s₀) := by
  have hposition := h.position i
  generalize y.thread i = t at hposition
  cases hposition with
  | idle hret => exact hret ▸ List.prefix_rfl
  | waiting _ hret => exact hret ▸ List.prefix_rfl
  | inside _ _ _ hret => exact hret ▸ List.prefix_rfl
  | leaving _ r hret => exact hret ▸ List.prefix_append _ _

end Serial

end Critical

/-! ## The calls of a run -/

variable {prog : κ → Prog σ ρ}

/-- Every call that runs or gave the mutex back has `C`. -/
structure Made (C : Nat → κ → Prop) (y : Machine κ σ ρ) : Prop where
  running : ∀ i c p, y.thread i = .running c p → C i c
  released : ∀ e ∈ y.released, C e.1 e.2

namespace Made

variable {C : Nat → κ → Prop} {y : Machine κ σ ρ} {i : Nat} {c : κ}

theorem goOn (h : Made C y) (hc : C i c) (p : Prog σ ρ) : Made C (y.goOn i c p) := by
  refine ⟨fun j c' p' hj => ?_, h.released⟩
  by_cases hji : j = i
  · subst hji
    have heq : Thread.running c p = .running c' p' := by simpa [Machine.goOn] using hj
    cases heq
    exact hc
  · exact h.running j c' p' (by simpa [Machine.goOn, hji] using hj)

theorem instruction (h : Made C y) (hc : C i c) (p : Prog σ ρ) : Made C (y.instruction i c p) := by
  cases p with
  | ret r =>
      refine ⟨fun j c' p' hj => ?_, h.released⟩
      by_cases hji : j = i
      · simp [Machine.instruction, hji] at hj
      · exact h.running j c' p' (by simpa [Machine.instruction, hji] using hj)
  | step f k => exact ⟨(h.goOn hc _).running, h.released⟩
  | lock k =>
      simp only [Machine.instruction]
      split
      · exact h
      · exact ⟨(h.goOn hc _).running, h.released⟩
  | unlock k =>
      simp only [Machine.instruction]
      split
      · refine ⟨(h.goOn hc _).running, fun e he => ?_⟩
        rcases List.mem_append.1 he with he | he
        · exact h.released e he
        · rw [List.mem_singleton.1 he]
          exact hc
      · exact ⟨h.running, h.released⟩

theorem step (h : Made C y) {e : Event κ} (he : ∀ i c, e = .call i c → C i c) : Made C (y.step prog e) := by
  unfold Machine.step
  split
  · exact h
  · cases e with
    | call i c =>
        simp only
        split
        · exact h.goOn (he i c rfl) _
        · exact h
    | sched i =>
        simp only
        split
        · exact h
        · rename_i c p hi
          exact h.instruction (h.running i c p hi) p

theorem run (es : List (Event κ)) (s₀ : σ) :
    Made (fun i c => .call i c ∈ es) (Machine.run prog es { shared := s₀ }) := by
  refine runFrom_keeps (C := fun _ e => e ∈ es) (fun _ e h he => h.step fun i c heq => heq ▸ he)
    ⟨nofun, nofun⟩ (meets_of_forall (fun _ he => he) _)

end Made

end Machine

end TrustAnchor.Lib
