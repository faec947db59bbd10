import Mathlib.Data.List.Basic

/-!
# Runs of a state machine

The machine is a function `step : ι → σ → σ`; an input `ι` carries everything the environment
chooses. A run is a list of inputs, oldest first.
-/

namespace TrustAnchor.Lib

variable {ι σ : Type}

/-- The state after the inputs `ops`. -/
def runFrom (step : ι → σ → σ) (ops : List ι) (s : σ) : σ := ops.foldl (fun s i => step i s) s

@[simp] theorem runFrom_nil (step : ι → σ → σ) (s : σ) : runFrom step [] s = s := rfl

@[simp] theorem runFrom_cons (step : ι → σ → σ) (i : ι) (ops : List ι) (s : σ) :
    runFrom step (i :: ops) s = runFrom step ops (step i s) := rfl

/-- Every input of the run meets the condition `C` in the state it is taken in. -/
def Meets (step : ι → σ → σ) (C : σ → ι → Prop) : List ι → σ → Prop
  | [], _ => True
  | i :: ops, s => C s i ∧ Meets step C ops (step i s)

instance decidableMeets (step : ι → σ → σ) (C : σ → ι → Prop) [∀ s i, Decidable (C s i)]
    (ops : List ι) (s : σ) : Decidable (Meets step C ops s) :=
  match ops with
  | [] => isTrue trivial
  | i :: ops => @instDecidableAnd _ _ _ (decidableMeets step C ops (step i s))

theorem meets_of_forall {step : ι → σ → σ} {D : ι → Prop} {ops : List ι} (h : ∀ i ∈ ops, D i) (s : σ) :
    Meets step (fun _ => D) ops s := by
  induction ops generalizing s with
  | nil => trivial
  | cons i ops ih =>
      exact ⟨h i List.mem_cons_self, ih (fun j hj => h j (List.mem_cons_of_mem i hj)) (step i s)⟩

theorem meets_congr {step : ι → σ → σ} {C D : σ → ι → Prop} (h : ∀ s i, C s i ↔ D s i) {ops : List ι}
    {s : σ} : Meets step C ops s ↔ Meets step D ops s := by
  induction ops generalizing s with
  | nil => rfl
  | cons i ops ih => exact and_congr (h s i) ih

theorem Meets.imp {step : ι → σ → σ} {C D : σ → ι → Prop} (h : ∀ s i, C s i → D s i) {ops : List ι}
    {s : σ} (hC : Meets step C ops s) : Meets step D ops s := by
  induction ops generalizing s with
  | nil => trivial
  | cons i ops ih => exact ⟨h s i hC.1, ih hC.2⟩

theorem Meets.and {step : ι → σ → σ} {C D : σ → ι → Prop} {ops : List ι} {s : σ}
    (hC : Meets step C ops s) (hD : Meets step D ops s) :
    Meets step (fun s i => C s i ∧ D s i) ops s := by
  induction ops generalizing s with
  | nil => trivial
  | cons i ops ih => exact ⟨⟨hC.1, hD.1⟩, ih hC.2 hD.2⟩

/-- What each step keeps under `C`, a run keeps whose steps all meet `C`. -/
theorem runFrom_keeps {step : ι → σ → σ} {C : σ → ι → Prop} {I : σ → Prop}
    (hstep : ∀ s i, I s → C s i → I (step i s)) {ops : List ι} {s : σ} (hs : I s)
    (hops : Meets step C ops s) : I (runFrom step ops s) := by
  induction ops generalizing s with
  | nil => exact hs
  | cons i ops ih => exact ih (hstep s i hs hops.1) hops.2

/-- What every step keeps, every run keeps. -/
theorem runFrom_invariant {step : ι → σ → σ} {I : σ → Prop}
    (hstep : ∀ s i, I s → I (step i s)) (ops : List ι) {s : σ} (hs : I s) :
    I (runFrom step ops s) := by
  induction ops generalizing s with
  | nil => exact hs
  | cons i ops ih => exact ih (hstep s i hs)

/-! ## Replies -/

section Replies

variable {ρ τ : Type}

/-- The state after a step that also replies. -/
def advance (step : ι → σ → ρ × σ) (i : ι) (s : σ) : σ := (step i s).2

/-- What the machine replies during a run. -/
def replies (step : ι → σ → ρ × σ) : List ι → σ → List ρ
  | [], _ => []
  | i :: ops, s => (step i s).1 :: replies step ops (advance step i s)

theorem replies_concat (step : ι → σ → ρ × σ) (ops : List ι) (i : ι) (s : σ) :
    replies step (ops ++ [i]) s = replies step ops s ++ [(step i (runFrom (advance step) ops s)).1] := by
  induction ops generalizing s with
  | nil => rfl
  | cons j ops ih => simp [replies, ih]

/-- Two machines reply alike exactly if they do so to each input after the inputs before it. -/
theorem replies_eq_iff {step : ι → σ → ρ × σ} {step' : ι → τ → ρ × τ} {ops : List ι} {s : σ} {t : τ} :
    replies step ops s = replies step' ops t ↔ ∀ before i after, ops = before ++ i :: after →
      (step i (runFrom (advance step) before s)).1 = (step' i (runFrom (advance step') before t)).1 := by
  induction ops generalizing s t with
  | nil => simp [replies]
  | cons j ops ih =>
      rw [replies, replies, List.cons.injEq, ih]
      constructor
      · rintro ⟨hhead, htail⟩ before i after heq
        cases before with
        | nil =>
            obtain ⟨rfl, rfl⟩ := List.cons.inj heq
            exact hhead
        | cons b before =>
            obtain ⟨rfl, rfl⟩ := List.cons.inj heq
            exact htail before i after rfl
      · intro h
        refine ⟨h [] j ops rfl, ?_⟩
        rintro before i after rfl
        exact h (j :: before) i after rfl

end Replies

end TrustAnchor.Lib
