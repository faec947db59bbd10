import Mathlib.Data.List.Perm.Basic
import Mathlib.Data.List.Rotate
import TrustAnchor.Lib.Order

/-!
# Sorting without stability

A sort that is not stable returns the elements in order, and which of two that compare equal comes first
is left open. What is proved of every such sort holds whatever the implementation does with ties.
-/

namespace TrustAnchor.Lib

structure Sorter where
  run : {α : Type} → (r : α → α → Prop) → [DecidableRel r] → List α → List α
  perm : ∀ {α : Type} (r : α → α → Prop) [DecidableRel r] (l : List α), (run r l).Perm l
  sorted : ∀ {α : Type} (r : α → α → Prop) [DecidableRel r] [Std.Total r] [IsTrans α r] (l : List α),
    (run r l).Pairwise r

namespace Sorter

variable {α : Type} {r : α → α → Prop} [DecidableRel r] {l : List α} {a : α}

@[simp] theorem mem_run (s : Sorter) : a ∈ s.run r l ↔ a ∈ l := (s.perm r l).mem_iff

@[simp] theorem length_run (s : Sorter) : (s.run r l).length = l.length := (s.perm r l).length_eq

/-- The stable sort. -/
def stable : Sorter where
  run r _ := List.insertionSort r
  perm r _ := List.perm_insertionSort r
  sorted r _ := List.pairwise_insertionSort r

/-- The stable sort of the list after it was rotated. -/
def rotated (n : Nat) : Sorter where
  run r _ l := (l.rotate n).insertionSort r
  perm r _ l := (List.perm_insertionSort r _).trans (l.rotate_perm n)
  sorted r _ _ _ _ := List.pairwise_insertionSort r _

/-- Any element comes first among its equals in some sort. -/
theorem exists_first [Std.Total r] [IsTrans α r] (ha : a ∈ l) : ∃ (s : Sorter) (below rest : List α),
    s.run r l = below ++ a :: rest ∧ ∀ b, b ∈ below ↔ b ∈ l ∧ ¬r a b := by
  obtain ⟨xs, ys, rfl⟩ := List.append_of_mem ha
  have hrotate : (xs ++ a :: ys).rotate xs.length = a :: (ys ++ xs) := by simp
  obtain ⟨below, rest, hsplit, hmem⟩ := orderedInsert_split (a := a) (List.pairwise_insertionSort r (ys ++ xs))
  refine ⟨rotated xs.length, below, rest, ?_, fun b => ?_⟩
  · change ((xs ++ a :: ys).rotate xs.length).insertionSort r = _
    rw [hrotate, List.insertionSort_cons, hsplit]
  · have hrefl : r a a := Std.Refl.refl a
    rw [hmem, List.mem_insertionSort]
    refine and_congr_left fun hab => ?_
    have hne : b ≠ a := fun heq => hab (heq ▸ hrefl)
    simp [hne, or_comm]

end Sorter

/-- The places of a rearranged list can be renamed to those that the elements had before. -/
theorem exists_places {α : Type} {l l' : List α} (h : l'.Perm l) : ∃ σ : Nat → Nat, Function.Injective σ ∧
    (l'.zipIdx.map fun e => (e.1, σ e.2)).Perm l.zipIdx := by
  have hfst : ∀ {l : List α} {m : List (α × Nat)}, List.Forall₂ (fun a e => a = e.1) l m ↔ l = m.map Prod.fst := by
    intro l m
    rw [← List.forall₂_eq_eq_eq, List.forall₂_map_right_iff]
  obtain ⟨m, hm, hperm⟩ := List.perm_comp_forall₂ h (hfst.2 (List.zipIdx_map_fst 0 l).symm)
  rw [hfst] at hm
  have hplaces : (m.map Prod.snd).Perm (List.range' 0 l.length) := List.zipIdx_map_snd 0 l ▸ hperm.map Prod.snd
  have hlength : m.length = l.length := by simpa using hplaces.length_eq
  have hnodup : (m.map Prod.snd).Nodup := hplaces.nodup_iff.2 List.nodup_range'
  have hlt : ∀ j (hj : j < m.length), m[j].2 < m.length := by
    intro j hj
    have hmem := hplaces.subset (List.mem_map_of_mem (List.getElem_mem hj))
    simpa [hlength] using hmem
  -- beyond the end of the list the places stay as they are
  refine ⟨fun j => if hj : j < m.length then m[j].2 else j, fun j j' heq => ?_, ?_⟩
  · simp only at heq
    split_ifs at heq with hj hj' hj'
    · have hsame : (m.map Prod.snd).get ⟨j, by simpa using hj⟩ = (m.map Prod.snd).get ⟨j', by simpa using hj'⟩ := by
        simpa using heq
      exact congrArg Fin.val (List.nodup_iff_injective_get.1 hnodup hsame)
    · exact absurd (heq ▸ hlt j hj) hj'
    · exact absurd (heq.symm ▸ hlt j' hj') hj
    · exact heq
  · refine List.Perm.trans (.of_eq ?_) hperm
    subst hm
    refine List.ext_getElem (by simp) fun j hj hj' => ?_
    simp [hj']

end TrustAnchor.Lib
