import Mathlib.Logic.Basic

/-!
# Computations that change a state and may fail

A failed computation keeps the changes it made before it failed, as a Go function that returns an
error keeps what it already wrote to shared memory. The rules below take such a computation apart:
what a success passed through, and what every outcome leaves true of the state.
-/

namespace TrustAnchor.Lib

/-- A computation over the state `σ` that ends in an `α` or fails with an `ε`. -/
def Fallible (σ ε α : Type) : Type := σ → Except ε α × σ

namespace Fallible

variable {σ ε α β : Type}

def bind (x : Fallible σ ε α) (f : α → Fallible σ ε β) : Fallible σ ε β := fun s =>
  match x s with
  | (.ok a, s₁) => f a s₁
  | (.error e, s₁) => (.error e, s₁)

instance : Monad (Fallible σ ε) where
  pure a := fun s => (.ok a, s)
  bind := Fallible.bind

def get : Fallible σ ε σ := fun s => (.ok s, s)

def modify (f : σ → σ) : Fallible σ ε Unit := fun s => (.ok (), f s)

def fail (e : ε) : Fallible σ ε α := fun s => (.error e, s)

/-- A pure result, success or failure. -/
def ofExcept (r : Except ε α) : Fallible σ ε α := fun s => (r, s)

/-- Runs `x` and hands its outcome on as a value. -/
def attempt (x : Fallible σ ε α) : Fallible σ ε (Except ε α) := fun s => (.ok (x s).1, (x s).2)

/-! ## Running -/

@[simp] theorem pure_run (a : α) (s : σ) : (pure a : Fallible σ ε α) s = (.ok a, s) := rfl

@[simp] theorem get_run (s : σ) : (get : Fallible σ ε σ) s = (.ok s, s) := rfl

@[simp] theorem modify_run (f : σ → σ) (s : σ) :
    (modify f : Fallible σ ε Unit) s = (.ok (), f s) := rfl

@[simp] theorem fail_run (e : ε) (s : σ) : (fail e : Fallible σ ε α) s = (.error e, s) := rfl

@[simp] theorem ofExcept_run (r : Except ε α) (s : σ) :
    (ofExcept r : Fallible σ ε α) s = (r, s) := rfl

@[simp] theorem attempt_run (x : Fallible σ ε α) (s : σ) :
    attempt x s = (.ok (x s).1, (x s).2) := rfl

theorem bind_run (x : Fallible σ ε α) (f : α → Fallible σ ε β) (s : σ) :
    (x >>= f) s = match x s with
      | (.ok a, s₁) => f a s₁
      | (.error e, s₁) => (.error e, s₁) := rfl

@[simp] theorem get_bind_run (f : σ → Fallible σ ε β) (s : σ) : (get >>= f) s = f s s := rfl

@[simp] theorem modify_bind_run (g : σ → σ) (f : Unit → Fallible σ ε β) (s : σ) :
    (modify g >>= f) s = f () (g s) := rfl

@[simp] theorem attempt_bind_run (x : Fallible σ ε α) (f : Except ε α → Fallible σ ε β) (s : σ) :
    (attempt x >>= f) s = f (x s).1 (x s).2 := rfl

@[simp] theorem ofExcept_ok_bind_run (a : α) (f : α → Fallible σ ε β) (s : σ) :
    (ofExcept (.ok a) >>= f) s = f a s := rfl

@[simp] theorem ofExcept_error_bind_run (e : ε) (f : α → Fallible σ ε β) (s : σ) :
    (ofExcept (.error e) >>= f) s = (.error e, s) := rfl

/-- A successful sequence passed through a success of its first part. -/
theorem bind_eq_ok {x : Fallible σ ε α} {f : α → Fallible σ ε β} {s s' : σ} {b : β} :
    (x >>= f) s = (.ok b, s') ↔ ∃ a s₁, x s = (.ok a, s₁) ∧ f a s₁ = (.ok b, s') := by
  rw [bind_run]
  rcases x s with ⟨e | a, s₁⟩
  · simp
  · constructor
    · intro h
      exact ⟨a, s₁, rfl, h⟩
    · rintro ⟨a', s₂, h, hf⟩
      cases h
      exact hf

/-! ## What every outcome keeps -/

/-- Success or failure, `x` leaves a state with `I` when it starts in one. -/
def Keeps (I : σ → Prop) (x : Fallible σ ε α) : Prop := ∀ s, I s → I (x s).2

namespace Keeps

variable {I : σ → Prop}

theorem pure (a : α) : Keeps I (Pure.pure a : Fallible σ ε α) := fun _ h => h

theorem get : Keeps I (get : Fallible σ ε σ) := fun _ h => h

theorem fail (e : ε) : Keeps I (fail e : Fallible σ ε α) := fun _ h => h

theorem ofExcept (r : Except ε α) : Keeps I (ofExcept r : Fallible σ ε α) := fun _ h => h

theorem modify {f : σ → σ} (hf : ∀ s, I s → I (f s)) : Keeps I (modify f : Fallible σ ε Unit) := hf

theorem attempt {x : Fallible σ ε α} (hx : Keeps I x) : Keeps I (attempt x) := hx

theorem bind {x : Fallible σ ε α} {f : α → Fallible σ ε β} (hx : Keeps I x)
    (hf : ∀ a, Keeps I (f a)) : Keeps I (x >>= f) := by
  intro s hs
  have h₁ := hx s hs
  rw [bind_run]
  rcases hxs : x s with ⟨e | a, s₁⟩ <;> rw [hxs] at h₁
  · exact h₁
  · exact hf a s₁ h₁

theorem ofExcept_bind {r : Except ε α} {f : α → Fallible σ ε β} (hf : ∀ a, r = .ok a → Keeps I (f a)) :
    Keeps I (Fallible.ofExcept r >>= f) := by
  cases r with
  | error e => exact fun _ h => h
  | ok a => exact hf a rfl

/-- Reading the state: the rest knows what it has read. -/
theorem get_bind {f : σ → Fallible σ ε β} (h : ∀ s, I s → I (f s s).2) : Keeps I (Fallible.get >>= f) := h

end Keeps

/-- What the second part does not touch is as the first part left it. -/
theorem bind_keeps {ρ : Type} {π : σ → ρ} {x : Fallible σ ε α} {f : α → Fallible σ ε β}
    (hf : ∀ a s, π (f a s).2 = π s) (s : σ) : π ((x >>= f) s).2 = π (x s).2 := by
  rw [bind_run]
  rcases x s with ⟨e | a, s₁⟩
  · rfl
  · exact hf a s₁

/-! ## What every failure is -/

/-- Every error that `x` fails with has `E`. -/
def FailsWith (E : ε → Prop) (x : Fallible σ ε α) : Prop := ∀ s e, (x s).1 = .error e → E e

namespace FailsWith

variable {E : ε → Prop}

theorem pure (a : α) : FailsWith E (Pure.pure a : Fallible σ ε α) := by
  intro s e h
  cases h

theorem get : FailsWith E (get : Fallible σ ε σ) := by
  intro s e h
  cases h

theorem modify (f : σ → σ) : FailsWith E (modify f : Fallible σ ε Unit) := by
  intro s e h
  cases h

theorem attempt (x : Fallible σ ε α) : FailsWith E (attempt x : Fallible σ ε (Except ε α)) := by
  intro s e h
  cases h

theorem fail {e : ε} (he : E e) : FailsWith E (fail e : Fallible σ ε α) := by
  intro s e' h
  cases h
  exact he

theorem ofExcept {r : Except ε α} (hr : ∀ e, r = .error e → E e) :
    FailsWith E (ofExcept r : Fallible σ ε α) := fun _ e h => hr e h

/-- The second part may rely on what a success of the first one says. -/
theorem bind_of_ok {x : Fallible σ ε α} {f : α → Fallible σ ε β} (hx : FailsWith E x)
    (hf : ∀ a s, (x s).1 = .ok a → FailsWith E (f a)) : FailsWith E (x >>= f) := by
  intro s e h
  rw [bind_run] at h
  rcases hxs : x s with ⟨e' | a, s₁⟩ <;> rw [hxs] at h
  · cases h
    exact hx s e (by rw [hxs])
  · exact hf a s (by rw [hxs]) s₁ e h

theorem bind {x : Fallible σ ε α} {f : α → Fallible σ ε β} (hx : FailsWith E x)
    (hf : ∀ a, FailsWith E (f a)) : FailsWith E (x >>= f) := hx.bind_of_ok fun a _ _ => hf a

end FailsWith

/-! ## Two runs side by side -/

/-- From related states the two computations give the same answer and end in related states. -/
def Agree (R : σ → σ → Prop) (x y : Fallible σ ε α) : Prop :=
  ∀ s t, R s t → (x s).1 = (y t).1 ∧ R (x s).2 (y t).2

namespace Agree

variable {R : σ → σ → Prop}

theorem pure (a : α) : Agree R (Pure.pure a : Fallible σ ε α) (Pure.pure a) := fun _ _ h => ⟨rfl, h⟩

theorem fail (e : ε) : Agree R (fail e : Fallible σ ε α) (fail e) := fun _ _ h => ⟨rfl, h⟩

theorem ofExcept (r : Except ε α) : Agree R (ofExcept r : Fallible σ ε α) (ofExcept r) :=
  fun _ _ h => ⟨rfl, h⟩

theorem modify {f g : σ → σ} (h : ∀ s t, R s t → R (f s) (g t)) :
    Agree R (modify f : Fallible σ ε Unit) (modify g) := fun s t hst => ⟨rfl, h s t hst⟩

theorem attempt {x y : Fallible σ ε α} (h : Agree R x y) : Agree R (attempt x) (attempt y) := by
  intro s t hst
  obtain ⟨hans, hstate⟩ := h s t hst
  exact ⟨by rw [attempt_run, attempt_run, hans], hstate⟩

theorem bind {x y : Fallible σ ε α} {f g : α → Fallible σ ε β} (hx : Agree R x y)
    (hf : ∀ a, Agree R (f a) (g a)) : Agree R (x >>= f) (y >>= g) := by
  intro s t hst
  obtain ⟨hans, hstate⟩ := hx s t hst
  rw [bind_run, bind_run]
  rcases hxs : x s with ⟨e | a, s₁⟩ <;> rcases hyt : y t with ⟨e' | a', t₁⟩ <;>
    rw [hxs, hyt] at hans hstate <;> cases hans
  · exact ⟨rfl, hstate⟩
  · exact hf a s₁ t₁ hstate

/-- Reading the state: the rest has to agree on what related states are. -/
theorem get_bind {f g : σ → Fallible σ ε β} (h : ∀ s t, R s t → (f s s).1 = (g t t).1 ∧
    R (f s s).2 (g t t).2) : Agree R (get >>= f) (get >>= g) := h

end Agree

/-- From related states the two computations end in related states, whatever they answer. -/
def SameEffect (R : σ → σ → Prop) (x y : Fallible σ ε α) : Prop := ∀ s t, R s t → R (x s).2 (y t).2

namespace SameEffect

variable {R : σ → σ → Prop}

theorem attempt {x y : Fallible σ ε α} (h : SameEffect R x y) : SameEffect R (attempt x) (attempt y) := h

/-- After answers that agree, the rest may do its own. -/
theorem bind {x y : Fallible σ ε α} {f g : α → Fallible σ ε β} (hx : Agree R x y)
    (hf : ∀ a, SameEffect R (f a) (g a)) : SameEffect R (x >>= f) (y >>= g) := by
  intro s t hst
  obtain ⟨hans, hstate⟩ := hx s t hst
  rw [bind_run, bind_run]
  rcases hxs : x s with ⟨e | a, s₁⟩ <;> rcases hyt : y t with ⟨e' | a', t₁⟩ <;>
    rw [hxs, hyt] at hans hstate <;> cases hans
  · exact hstate
  · exact hf a s₁ t₁ hstate

/-- What follows may depend on the answers when it leaves the state alone. -/
theorem bind_of_eq {x y : Fallible σ ε α} {f g : α → Fallible σ ε β} (hx : SameEffect R x y)
    (hf : ∀ a s, (f a s).2 = s) (hg : ∀ a s, (g a s).2 = s) : SameEffect R (x >>= f) (y >>= g) := by
  intro s t hst
  have hs : ((x >>= f) s).2 = (x s).2 := bind_keeps (π := id) hf s
  have ht : ((y >>= g) t).2 = (y t).2 := bind_keeps (π := id) hg t
  rw [hs, ht]
  exact hx s t hst

end SameEffect

end Fallible

end TrustAnchor.Lib
