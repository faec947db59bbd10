import TrustAnchor.Lib.Fallible

/-!
# Computations that report while they run

A computation that may fail can emit events on the way, and those of a failed part stay emitted. Such a
computation is compared with one that emits nothing: it does the same, and what it emits is a function of
the state that it starts in.
-/

namespace TrustAnchor.Lib

/-- A computation over the state `σ` that emits events `ω`. -/
abbrev Emitting (σ ω ε α : Type) : Type := Fallible (σ × List ω) ε α

namespace Emitting

variable {σ ω ε α β : Type}

def emit (es : List ω) : Emitting σ ω ε Unit := .modify fun s => (s.1, s.2 ++ es)

/-- A computation that emits nothing. -/
def quiet (x : Fallible σ ε α) : Emitting σ ω ε α := fun s => ((x s.1).1, ((x s.1).2, s.2))

/-- From every state `x` does what `y` does and emits `w`. -/
def Reports (x : Emitting σ ω ε α) (y : Fallible σ ε α) (w : σ → List ω) : Prop :=
  ∀ s es, x (s, es) = ((y s).1, ((y s).2, es ++ w s))

/-- What the second part emits after an answer of the first one; nothing after a failure. -/
def after (v : α → σ → List ω) : Except ε α × σ → List ω
  | (.ok a, s) => v a s
  | (.error _, _) => []

@[simp] theorem after_ok (v : α → σ → List ω) (a : α) (s : σ) : after v ((.ok a, s) : Except ε α × σ) = v a s := rfl

@[simp] theorem after_error (v : α → σ → List ω) (e : ε) (s : σ) : after v (.error e, s) = [] := rfl

namespace Reports

variable {x : Emitting σ ω ε α} {y : Fallible σ ε α} {w w' : σ → List ω}

theorem quiet (y : Fallible σ ε α) : Reports (quiet y : Emitting σ ω ε α) y fun _ => [] := by
  intro s es
  rw [List.append_nil]
  rfl

theorem pure (a : α) : Reports (Pure.pure a : Emitting σ ω ε α) (Pure.pure a) fun _ => [] :=
  quiet (Pure.pure a)

theorem fail (e : ε) : Reports (.fail e : Emitting σ ω ε α) (.fail e) fun _ => [] :=
  quiet (.fail e)

theorem attempt (h : Reports x y w) : Reports (.attempt x) (.attempt y) w := by
  intro s es
  rw [Fallible.attempt_run, h s es]
  rfl

theorem bind {f : α → Emitting σ ω ε β} {g : α → Fallible σ ε β} {v : α → σ → List ω} (h : Reports x y w)
    (hf : ∀ a, Reports (f a) (g a) (v a)) :
    Reports (x >>= f) (y >>= g) fun s => w s ++ after v (y s) := by
  intro s es
  simp only [Fallible.bind_run, h s es]
  rcases y s with ⟨e | a, s₁⟩
  · simp only [after, List.append_nil]
  · simp only [after, hf a s₁ (es ++ w s), List.append_assoc]

theorem congr (h : Reports x y w) (hw : ∀ s, w s = w' s) : Reports x y w' := by
  intro s es
  rw [h s es, hw s]

theorem emit_return (es : List ω) (a : α) :
    Reports (Emitting.emit es >>= fun _ => Pure.pure a : Emitting σ ω ε α) (Pure.pure a) fun _ => es :=
  fun _ _ => rfl

theorem ite {c : Prop} [Decidable c] {x' : Emitting σ ω ε α} {y' : Fallible σ ε α} (h : Reports x y w)
    (h' : Reports x' y' w') :
    Reports (if c then x else x') (if c then y else y') fun s => if c then w s else w' s := by
  intro s es
  by_cases hc : c
  · simp only [if_pos hc, h s es]
  · simp only [if_neg hc, h' s es]

/-- The rest may rely on the outcome that it is handed. -/
theorem attempt_bind {f : Except ε α → Emitting σ ω ε β} {g : Except ε α → Fallible σ ε β}
    {v : Except ε α → σ → List ω} (h : Reports x y w) (hf : ∀ r, Reports (f r) (g r) (v r)) :
    Reports (.attempt x >>= f) (.attempt y >>= g) fun s => w s ++ v (y s).1 (y s).2 :=
  h.attempt.bind hf

end Reports

end Emitting

end TrustAnchor.Lib
