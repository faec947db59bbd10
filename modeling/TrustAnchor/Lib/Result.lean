import Mathlib.Data.List.Forall2

/-!
# Results that may be errors

Checks that fail with an error, what a successful chain of steps passed through, and what a successful
`mapM` computed.
-/

namespace TrustAnchor.Lib.Result

variable {ε α β : Type}

/-- Goes on when `p` holds and fails with `e` otherwise. -/
def require (p : Prop) [Decidable p] (e : ε) : Except ε Unit := if p then .ok () else .error e

@[simp] theorem require_eq_ok {p : Prop} [Decidable p] {e : ε} {u : Unit} :
    require p e = .ok u ↔ p := by
  unfold require
  split <;> simp_all

theorem require_eq_error {p : Prop} [Decidable p] {e e' : ε} : require p e = .error e' ↔ ¬ p ∧ e = e' := by
  unfold require
  split <;> simp_all

/-- Fails with the error, if there is one. -/
def refuse : Option ε → Except ε Unit
  | none => .ok ()
  | some e => .error e

@[simp] theorem refuse_eq_ok {o : Option ε} {u : Unit} : refuse o = .ok u ↔ o = none := by
  cases o <;> simp [refuse]

@[simp] theorem ok_bind (a : α) (f : α → Except ε β) : (Except.ok a >>= f) = f a := rfl

@[simp] theorem error_bind (e : ε) (f : α → Except ε β) : (Except.error e >>= f) = .error e := rfl

theorem toOption_eq_some {r : Except ε α} {a : α} : r.toOption = some a ↔ r = .ok a := by
  cases r <;> simp [Except.toOption]

/-- What the value of a success is said to have, a success has. -/
theorem exists_ok_of_any {r : Except ε α} {p : α → Bool} (h : r.toOption.any p = true) :
    ∃ a, r = .ok a ∧ p a = true := by
  cases r with
  | error e => cases h
  | ok a => exact ⟨a, rfl, h⟩

theorem bind_eq_ok {x : Except ε α} {f : α → Except ε β} {b : β} :
    (x >>= f) = .ok b ↔ ∃ a, x = .ok a ∧ f a = .ok b := by
  cases x with
  | error e =>
      constructor
      · intro h
        cases h
      · rintro ⟨a, h, -⟩
        cases h
  | ok a =>
      constructor
      · intro h
        exact ⟨a, rfl, h⟩
      · rintro ⟨a', h, hf⟩
        cases h
        exact hf

theorem bind_eq_error {x : Except ε α} {f : α → Except ε β} {e : ε} :
    (x >>= f) = .error e ↔ x = .error e ∨ ∃ a, x = .ok a ∧ f a = .error e := by
  cases x with
  | error e' => simp
  | ok a => simp

theorem mapM_eq_ok {f : α → Except ε β} {xs : List α} {ys : List β} :
    xs.mapM f = .ok ys ↔ List.Forall₂ (fun x y => f x = .ok y) xs ys := by
  induction xs generalizing ys with
  | nil =>
      rw [List.mapM_nil, List.forall₂_nil_left_iff]
      constructor
      · intro h
        cases h
        rfl
      · rintro rfl
        rfl
  | cons x xs ih =>
      rw [List.mapM_cons, List.forall₂_cons_left_iff]
      constructor
      · intro h
        obtain ⟨y, hy, h⟩ := bind_eq_ok.1 h
        obtain ⟨ys', hys, h⟩ := bind_eq_ok.1 h
        cases h
        exact ⟨y, ys', hy, ih.1 hys, rfl⟩
      · rintro ⟨y, ys', hy, hys, rfl⟩
        exact bind_eq_ok.2 ⟨y, hy, bind_eq_ok.2 ⟨ys', ih.2 hys, rfl⟩⟩

theorem exists_mapM_ok {f : α → Except ε β} {xs : List α} :
    (∃ ys, xs.mapM f = .ok ys) ↔ ∀ x ∈ xs, ∃ y, f x = .ok y := by
  simp only [mapM_eq_ok]
  induction xs with
  | nil => simp
  | cons x xs ih =>
      simp only [List.forall₂_cons_left_iff, List.forall_mem_cons, ← ih]
      constructor
      · rintro ⟨_, y, ys, hy, hys, rfl⟩
        exact ⟨⟨y, hy⟩, ys, hys⟩
      · rintro ⟨⟨y, hy⟩, ys, hys⟩
        exact ⟨_, y, ys, hy, hys, rfl⟩

theorem exists_left_of_forall₂ {R : α → β → Prop} {xs : List α} {ys : List β} (h : List.Forall₂ R xs ys)
    {y : β} (hy : y ∈ ys) : ∃ x ∈ xs, R x y := by
  induction h with
  | nil => cases hy
  | @cons x y' xs ys hx _ ih =>
      rcases List.mem_cons.1 hy with rfl | hy
      · exact ⟨x, List.mem_cons_self, hx⟩
      · obtain ⟨x', hx', hR⟩ := ih hy
        exact ⟨x', List.mem_cons_of_mem _ hx', hR⟩

theorem exists_right_of_forall₂ {R : α → β → Prop} {xs : List α} {ys : List β} (h : List.Forall₂ R xs ys)
    {x : α} (hx : x ∈ xs) : ∃ y ∈ ys, R x y := exists_left_of_forall₂ h.flip hx

theorem exists_of_mapM_ok {f : α → Except ε β} {xs : List α} {ys : List β} (h : xs.mapM f = .ok ys)
    {y : β} (hy : y ∈ ys) : ∃ x ∈ xs, f x = .ok y := exists_left_of_forall₂ (mapM_eq_ok.1 h) hy

end TrustAnchor.Lib.Result
