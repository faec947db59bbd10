import Mathlib.Data.List.Basic

/-!
# Keys made of parts

A separator that a part cannot contain makes the parts readable from the key.
-/

namespace TrustAnchor.Lib

variable {α : Type} {sep : α}

theorem append_cons_inj_of_notMem_left {a a' b b' : List α} (ha : sep ∉ a) (ha' : sep ∉ a') :
    a ++ sep :: b = a' ++ sep :: b' ↔ a = a' ∧ b = b' := by
  refine ⟨fun h => ?_, by rintro ⟨rfl, rfl⟩; rfl⟩
  induction a generalizing a' with
  | nil =>
      cases a' with
      | nil => simpa using h
      | cons x a' =>
          obtain ⟨rfl, -⟩ := List.cons.inj h
          exact absurd List.mem_cons_self ha'
  | cons x a ih =>
      cases a' with
      | nil =>
          obtain ⟨rfl, -⟩ := List.cons.inj h
          exact absurd List.mem_cons_self ha
      | cons x' a' =>
          obtain ⟨rfl, hrest⟩ := List.cons.inj h
          obtain ⟨rfl, rfl⟩ := ih (fun hm => ha (List.mem_cons_of_mem _ hm))
            (fun hm => ha' (List.mem_cons_of_mem _ hm)) hrest
          exact ⟨rfl, rfl⟩

theorem append_cons_inj_of_notMem_right {a a' b b' : List α} (hb : sep ∉ b) (hb' : sep ∉ b') :
    a ++ sep :: b = a' ++ sep :: b' ↔ a = a' ∧ b = b' := by
  rw [← List.reverse_inj]
  simp only [List.reverse_append, List.reverse_cons, List.append_assoc, List.singleton_append]
  rw [append_cons_inj_of_notMem_left (by simpa using hb) (by simpa using hb')]
  simp [and_comm]

theorem mem_intercalate {xs : List (List α)} {c : α} (h : c ∈ [sep].intercalate xs) :
    c = sep ∨ ∃ x ∈ xs, c ∈ x := by
  induction xs with
  | nil => simp at h
  | cons x xs ih =>
      cases xs with
      | nil => exact .inr ⟨x, by simp, by simpa using h⟩
      | cons y ys =>
          rw [List.intercalate_cons_cons, List.append_assoc, List.mem_append, List.singleton_append,
            List.mem_cons] at h
          rcases h with h | h | h
          · exact .inr ⟨x, by simp, h⟩
          · exact .inl h
          · rcases ih h with h | ⟨z, hz, hc⟩
            · exact .inl h
            · exact .inr ⟨z, List.mem_cons_of_mem x hz, hc⟩

end TrustAnchor.Lib
