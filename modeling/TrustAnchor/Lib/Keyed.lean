import Mathlib.Data.List.Basic
import Mathlib.Data.List.Nodup

/-!
# Keyed lists and their changes

A list of entries with distinct keys is a finite map. What is added to its keys and removed from them
can be recorded, and replayed.
-/

namespace TrustAnchor.Lib

variable {κ α : Type} [DecidableEq κ] {k : κ}

/-! ## Lookups -/

section Lookup

variable {l : List (κ × α)} {v v' : α}

theorem lookup_eq_some (hl : (l.map Prod.fst).Nodup) : l.lookup k = some v ↔ (k, v) ∈ l := by
  induction l with
  | nil => simp
  | cons e l ih =>
      obtain ⟨k', v'⟩ := e
      obtain ⟨hfresh, hl⟩ := List.nodup_cons.1 hl
      by_cases hk : k = k'
      · subst hk
        have hnot : (k, v) ∉ l := fun hmem => hfresh (List.mem_map.2 ⟨_, hmem, rfl⟩)
        simp [hnot, eq_comm]
      · have hbeq : (k == k') = false := beq_false_of_ne hk
        simp [List.lookup_cons, hbeq, hk, ih hl]

theorem lookup_eq_none : l.lookup k = none ↔ k ∉ l.map Prod.fst := by
  rw [List.lookup_eq_none_iff]
  simp only [List.mem_map, not_exists, not_and, bne_iff_ne]
  exact forall₂_congr fun e _ => ne_comm

theorem eq_of_mem_keyed (hl : (l.map Prod.fst).Nodup) (h : (k, v) ∈ l) (h' : (k, v') ∈ l) : v = v' := by
  rw [← lookup_eq_some hl] at h h'
  exact Option.some.inj (h.symm.trans h')

/-- A lookup does not depend on the order of the entries. -/
theorem lookup_perm {l' : List (κ × α)} (hl : (l.map Prod.fst).Nodup) (hperm : l'.Perm l) :
    l'.lookup k = l.lookup k := by
  have hl' : (l'.map Prod.fst).Nodup := (hperm.map Prod.fst).nodup_iff.2 hl
  ext v
  rw [lookup_eq_some hl, lookup_eq_some hl', hperm.mem_iff]

omit [DecidableEq κ] in
/-- Entries made from a list under its keys have some of these keys, in their order. -/
theorem map_filterMap_sublist {β γ : Type} {l : List β} {g : β → Option γ} {key : β → κ} {key' : γ → κ}
    (h : ∀ b ∈ l, ∀ c, g b = some c → key' c = key b) :
    ((l.filterMap g).map key').Sublist (l.map key) := by
  induction l with
  | nil => simp
  | cons b l ih =>
      have hrest := ih fun b hb => h b (List.mem_cons_of_mem _ hb)
      cases hb : g b with
      | none => simpa [hb] using hrest.cons (key b)
      | some c => simpa [hb, h b List.mem_cons_self c hb] using hrest

omit [DecidableEq κ] in
/-- Two lists with one order of keys agree on everything that the key and membership determine. -/
theorem map_eq_map_of_keys {β γ δ : Type} {l : List β} {l' : List γ} {key : β → κ} {key' : γ → κ}
    {g : β → δ} {g' : γ → δ} (hkeys : l.map key = l'.map key')
    (h : ∀ b ∈ l, ∀ c ∈ l', key b = key' c → g b = g' c) : l.map g = l'.map g' := by
  induction l generalizing l' with
  | nil =>
      obtain rfl : l' = [] := by simpa [eq_comm] using hkeys
      rfl
  | cons b l ih =>
      cases l' with
      | nil => cases hkeys
      | cons c l' =>
          obtain ⟨hkey, hkeys⟩ := List.cons.inj hkeys
          rw [List.map_cons, List.map_cons, h b List.mem_cons_self c List.mem_cons_self hkey, ih hkeys]
          exact fun b hb c hc => h b (List.mem_cons_of_mem _ hb) c (List.mem_cons_of_mem _ hc)

end Lookup

/-! ## Changes of the keys -/

/-- One recorded change of a set of keys. -/
inductive Change (κ : Type) where
  | added (k : κ)
  | removed (k : κ)
deriving DecidableEq

namespace Change

def apply (s : List κ) : Change κ → List κ
  | added k => s.insert k
  | removed k => s.filter (· ≠ k)

/-- The changes in order. -/
def replay (s : List κ) (changes : List (Change κ)) : List κ := changes.foldl apply s

@[simp] theorem replay_nil (s : List κ) : replay s [] = s := rfl

theorem replay_append (s : List κ) (cs cs' : List (Change κ)) :
    replay s (cs ++ cs') = replay (replay s cs) cs' := List.foldl_append ..

/-- When no key is both added and removed, the order of the changes does not matter. -/
theorem mem_replay {changes : List (Change κ)} (h : ∀ k, added k ∈ changes → removed k ∉ changes)
    {s : List κ} : k ∈ replay s changes ↔ added k ∈ changes ∨ (k ∈ s ∧ removed k ∉ changes) := by
  induction changes generalizing s with
  | nil => simp
  | cons c changes ih =>
      have hrest : ∀ k, added k ∈ changes → removed k ∉ changes := fun k ha hr =>
        h k (List.mem_cons_of_mem c ha) (List.mem_cons_of_mem c hr)
      have hstep : replay s (c :: changes) = replay (c.apply s) changes := rfl
      rw [hstep, ih hrest]
      cases c with
      | added k' =>
          have hkept := h k' List.mem_cons_self
          simp only [apply, List.mem_insert_iff, List.mem_cons, added.injEq, reduceCtorEq, false_or] at hkept ⊢
          by_cases hk : k = k'
          · subst hk
            simp [hkept]
          · simp [hk]
      | removed k' =>
          simp only [apply, List.mem_filter, List.mem_cons, removed.injEq, reduceCtorEq, false_or,
            decide_eq_true_eq]
          by_cases hk : k = k'
          · subst hk
            have hkept : added k ∉ changes := fun ha => h k (List.mem_cons_of_mem _ ha) List.mem_cons_self
            simp [hkept]
          · simp [hk]

end Change

end TrustAnchor.Lib
