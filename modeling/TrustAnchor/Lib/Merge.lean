import Mathlib.Data.List.Induction
import Mathlib.Data.List.Nodup

/-!
# Merging the elements of one key

A list is gone through once. The first element of a key is kept and the later ones of the key are merged
into it, so what is kept under a key is the merge of its elements in the order of the list.
-/

namespace TrustAnchor.Lib

variable {α β κ : Type}

/-! ## One key -/

/-- Onto what has been merged so far, if anything. -/
def mergeOnto (merge : α → α → α) (kept : Option α) (a : α) : α :=
  match kept with
  | none => a
  | some k => merge k a

/-- The elements merged one after the other onto what is there already. -/
def mergeFrom (merge : α → α → α) (kept : Option α) (as : List α) : Option α :=
  as.foldl (fun kept a => some (mergeOnto merge kept a)) kept

/-- The first element, with the others merged into it one after the other. -/
def mergeAll (merge : α → α → α) (as : List α) : Option α := mergeFrom merge none as

section MergeAll

variable {merge : α → α → α} {kept : Option α} {as bs : List α} {a k : α}

@[simp] theorem mergeOnto_none : mergeOnto merge none a = a := rfl

@[simp] theorem mergeOnto_some : mergeOnto merge (some k) a = merge k a := rfl

@[simp] theorem mergeFrom_nil : mergeFrom merge kept [] = kept := rfl

@[simp] theorem mergeFrom_cons :
    mergeFrom merge kept (a :: as) = mergeFrom merge (some (mergeOnto merge kept a)) as := rfl

theorem mergeFrom_append : mergeFrom merge kept (as ++ bs) = mergeFrom merge (mergeFrom merge kept as) bs :=
  List.foldl_append ..

theorem mergeAll_append_singleton :
    mergeAll merge (as ++ [a]) = some (mergeOnto merge (mergeAll merge as) a) := mergeFrom_append

theorem mergeFrom_some (k : α) (as : List α) : mergeFrom merge (some k) as = some (as.foldl merge k) := by
  induction as generalizing k with
  | nil => rfl
  | cons a as ih => exact ih (merge k a)

theorem mergeAll_cons : mergeAll merge (a :: as) = some (as.foldl merge a) := mergeFrom_some a as

theorem mergeAll_eq_none : mergeAll merge as = none ↔ as = [] := by
  cases as with
  | nil => simp [mergeAll]
  | cons a as => simp [mergeAll_cons]

/-- What merging does to a field, it does to the merge of all. -/
theorem mergeFrom_map {f : α → β} {merge' : β → β → β} (h : ∀ k a, f (merge k a) = merge' (f k) (f a)) :
    (mergeFrom merge kept as).map f = mergeFrom merge' (kept.map f) (as.map f) := by
  induction as generalizing kept with
  | nil => rfl
  | cons a as ih =>
      rw [mergeFrom_cons, ih]
      cases kept <;> simp [h]

theorem mergeAll_map {f : α → β} {merge' : β → β → β} (h : ∀ k a, f (merge k a) = merge' (f k) (f a)) :
    (mergeAll merge as).map f = mergeAll merge' (as.map f) := mergeFrom_map h

/-- Where the first element wins, it is what is kept. -/
theorem mergeAll_first : mergeAll (fun k _ => k) as = as.head? := by
  cases as with
  | nil => rfl
  | cons a as =>
      rw [mergeAll_cons]
      induction as with
      | nil => rfl
      | cons b as ih => exact ih

/-- A field that merging leaves alone is the one of the first element. -/
theorem mergeAll_head {f : α → β} (hf : ∀ k a, f (merge k a) = f k) (h : mergeAll merge as = some k) :
    (as.map f).head? = some (f k) := by
  have hfirst : (mergeAll merge as).map f = mergeAll (fun k _ => k) (as.map f) := mergeAll_map hf
  rw [← mergeAll_first, ← hfirst, h]
  rfl

/-- A property that merging a member gives to the merge, whatever came before and comes after. -/
theorem mergeAll_iff_exists {P : α → Prop} (hmerge : ∀ k a, P (merge k a) ↔ P k ∨ P a)
    (h : mergeAll merge as = some k) : P k ↔ ∃ a ∈ as, P a := by
  induction as using List.reverseRecOn generalizing k with
  | nil => cases h
  | append_singleton as a ih =>
      rw [mergeAll_append_singleton] at h
      cases hm : mergeAll merge as with
      | none =>
          rw [mergeAll_eq_none.1 hm] at h ⊢
          simp_all [mergeAll]
      | some m =>
          rw [hm] at h
          rw [← Option.some.inj h, mergeOnto_some, hmerge, ih hm]
          simp [or_and_right, exists_or]

end MergeAll

/-! ## All keys -/

section Absorb

variable [DecidableEq κ]

/-- One more element: merged into the one kept under its key, or kept itself. -/
def absorb (key : α → κ) (merge : α → α → α) (kept : List α) (a : α) : List α :=
  if kept.any fun k => key k = key a then kept.map fun k => if key k = key a then merge k a else k
  else kept ++ [a]

variable {key : α → κ} {merge : α → α → α}

omit [DecidableEq κ] in
theorem mergeAll_key (hkey : ∀ k a, key (merge k a) = key k) {as : List α} {k : α} {c : κ}
    (has : ∀ a ∈ as, key a = c) (h : mergeAll merge as = some k) : key k = c := by
  obtain ⟨a, ha, hak⟩ := List.mem_map.1 (List.mem_of_mem_head? (mergeAll_head hkey h))
  rw [← hak, has a ha]

theorem absorb_fresh {kept : List α} {a : α} (h : ∀ k ∈ kept, key k ≠ key a) :
    absorb key merge kept a = kept ++ [a] := if_neg (by simpa using h)

theorem absorb_known {kept : List α} {a k : α} (hk : k ∈ kept) (h : key k = key a) :
    absorb key merge kept a = kept.map fun k => if key k = key a then merge k a else k :=
  if_pos (by simpa using ⟨k, hk, h⟩)

theorem mem_absorb_of_ne (hkey : ∀ k a, key (merge k a) = key k) {kept : List α} {a k : α}
    (hne : key a ≠ key k) : k ∈ absorb key merge kept a ↔ k ∈ kept := by
  unfold absorb
  split_ifs
  · simp only [List.mem_map]
    constructor
    · rintro ⟨k', hk', rfl⟩
      split_ifs at hne ⊢ with heq
      · exact absurd ((hkey k' a).trans heq).symm hne
      · exact hk'
    · intro hk
      exact ⟨k, hk, if_neg (Ne.symm hne)⟩
  · have hka : k ≠ a := fun heq => hne (heq ▸ rfl)
    simp [hka]

theorem absorb_forall {P : α → Prop} (hmerge : ∀ k a, P k → P (merge k a)) {kept : List α} {a : α}
    (hkept : ∀ k ∈ kept, P k) (ha : P a) : ∀ k ∈ absorb key merge kept a, P k := by
  unfold absorb
  split_ifs
  · intro k hk
    obtain ⟨k', hk', rfl⟩ := List.mem_map.1 hk
    split_ifs
    · exact hmerge k' a (hkept k' hk')
    · exact hkept k' hk'
  · simpa [or_imp, forall_and] using ⟨hkept, ha⟩

/-- What the elements have and merging keeps, what is kept has. -/
theorem foldl_absorb_forall {P : α → Prop} (hmerge : ∀ k a, P k → P (merge k a)) {as kept : List α}
    (hkept : ∀ k ∈ kept, P k) (has : ∀ a ∈ as, P a) : ∀ k ∈ as.foldl (absorb key merge) kept, P k := by
  induction as generalizing kept with
  | nil => exact hkept
  | cons a as ih =>
      obtain ⟨ha, has⟩ := List.forall_mem_cons.1 has
      exact ih (absorb_forall hmerge hkept ha) has

section Sorted

variable {r : α → α → Prop} (hleft : ∀ k a b, r k b → r (merge k a) b) (hright : ∀ k b a, r k b → r k (merge b a))

include hleft hright

theorem absorb_pairwise {kept : List α} {a : α} (hkept : kept.Pairwise r) (ha : ∀ k ∈ kept, r k a) :
    (absorb key merge kept a).Pairwise r := by
  unfold absorb
  split_ifs
  · refine List.pairwise_map.2 (hkept.imp fun {k k'} h => ?_)
    split_ifs
    · exact hleft _ _ _ (hright _ _ _ h)
    · exact hleft _ _ _ h
    · exact hright _ _ _ h
    · exact h
  · rw [List.pairwise_append]
    exact ⟨hkept, by simp, by simpa using ha⟩

/-- What is kept of sorted elements is sorted, if merging touches nothing that is compared. -/
theorem foldl_absorb_pairwise {as kept : List α} (hkept : kept.Pairwise r) (has : as.Pairwise r)
    (hle : ∀ k ∈ kept, ∀ a ∈ as, r k a) : (as.foldl (absorb key merge) kept).Pairwise r := by
  induction as generalizing kept with
  | nil => exact hkept
  | cons a as ih =>
      obtain ⟨ha, has⟩ := List.pairwise_cons.1 has
      refine ih (absorb_pairwise hleft hright hkept fun k hk => hle k hk a List.mem_cons_self) has ?_
      refine absorb_forall (fun k c hk b hb => hleft k c b (hk b hb)) (fun k hk b hb => ?_) ha
      exact hle k hk b (List.mem_cons_of_mem a hb)

end Sorted

/-- What is kept is, for each key, the merge of its elements. -/
theorem mem_foldl_absorb (hkey : ∀ k a, key (merge k a) = key k) {as : List α} {k : α} :
    k ∈ as.foldl (absorb key merge) [] ↔ mergeAll merge (as.filter fun a => key a = key k) = some k := by
  induction as using List.reverseRecOn generalizing k with
  | nil => simp [mergeAll]
  | append_singleton as a ih =>
      rw [List.foldl_append, List.foldl_cons, List.foldl_nil, List.filter_append]
      by_cases hak : key a = key k
      · -- the only kept element of the key is the merge of what came before
        have hkept : ∀ k', k' ∈ as.foldl (absorb key merge) [] ∧ key k' = key a ↔
            mergeAll merge (as.filter fun b => key b = key a) = some k' := by
          intro k'
          constructor
          · rintro ⟨hk', heq⟩
            rw [← heq]
            exact ih.1 hk'
          · intro h
            have heq := mergeAll_key hkey (fun b hb => by simpa using (List.mem_filter.1 hb).2) h
            exact ⟨ih.2 (heq ▸ h), heq⟩
        simp only [List.filter_cons, hak, decide_true, if_true, List.filter_nil, mergeAll_append_singleton,
          Option.some_inj]
        rw [hak] at hkept
        cases hm : mergeAll merge (as.filter fun b => key b = key k) with
        | none =>
            have hnone : ∀ k' ∈ as.foldl (absorb key merge) [], key k' ≠ key k := by
              intro k' hk' heq
              have := (hkept k').1 ⟨hk', heq⟩
              rw [hm] at this
              cases this
            rw [absorb_fresh (hak ▸ hnone)]
            simp only [List.mem_append, List.mem_singleton, mergeOnto_none]
            exact ⟨fun h => (h.resolve_left fun hk => hnone k hk rfl).symm, fun h => .inr h.symm⟩
        | some m =>
            obtain ⟨hmem, hmk⟩ := (hkept m).2 hm
            rw [absorb_known hmem (hmk.trans hak.symm)]
            simp only [List.mem_map, hak, mergeOnto_some]
            constructor
            · rintro ⟨k', hk', h⟩
              split_ifs at h with heq
              · have := (hkept k').1 ⟨hk', heq⟩
                rw [hm] at this
                rwa [Option.some.inj this]
              · exact absurd (h ▸ rfl) heq
            · intro h
              exact ⟨m, hmem, by rw [if_pos hmk, h]⟩
      · rw [mem_absorb_of_ne hkey hak, ih]
        simp [hak]

theorem absorb_keys (hkey : ∀ k a, key (merge k a) = key k) (kept : List α) (a : α) :
    (absorb key merge kept a).map key = if key a ∈ kept.map key then kept.map key
      else kept.map key ++ [key a] := by
  have hmerged : (fun k => key (if key k = key a then merge k a else k)) = key := by
    funext k
    split_ifs
    · exact hkey k a
    · rfl
  split_ifs with h
  · obtain ⟨k, hk, hka⟩ := List.mem_map.1 h
    rw [absorb_known hk hka, List.map_map]
    exact congrFun (congrArg List.map hmerged) kept
  · rw [absorb_fresh fun k hk hka => h (List.mem_map.2 ⟨k, hk, hka⟩), List.map_append]
    rfl

theorem foldl_absorb_nodup (hkey : ∀ k a, key (merge k a) = key k) {as kept : List α}
    (h : (kept.map key).Nodup) : ((as.foldl (absorb key merge) kept).map key).Nodup := by
  induction as generalizing kept with
  | nil => exact h
  | cons a as ih =>
      refine ih ?_
      rw [absorb_keys hkey]
      split_ifs with ha
      · exact h
      · simpa [List.nodup_append, h] using ha

end Absorb

end TrustAnchor.Lib
