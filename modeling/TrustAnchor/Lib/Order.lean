import Mathlib.Data.List.Induction
import Mathlib.Data.List.Sort
import Mathlib.Order.Defs.LinearOrder

/-!
# Sorted lists

Comparisons by one key after the other, and lists that are sorted by them and have distinct keys: such a
list is determined by its members.
-/

namespace TrustAnchor.Lib

variable {α κ : Type} [LinearOrder κ]

/-! ## One key after the other -/

/-- By the key. -/
def keyLe (k : α → κ) (a b : α) : Prop := k a ≤ k b

/-- By the key, then by `r`. -/
def lexLe (k : α → κ) (r : α → α → Prop) (a b : α) : Prop := if k a ≠ k b then k a < k b else r a b

section Lex

variable {k : α → κ} {r : α → α → Prop} {a b : α}

instance : DecidableRel (keyLe k) := fun a b => inferInstanceAs (Decidable (k a ≤ k b))

instance : Std.Total (keyLe k) := ⟨fun a b => le_total (k a) (k b)⟩

instance : IsTrans α (keyLe k) := ⟨fun _ _ _ => le_trans⟩

instance [DecidableRel r] : DecidableRel (lexLe k r) := fun a b =>
  inferInstanceAs (Decidable (if k a ≠ k b then k a < k b else r a b))

instance [Std.Total r] : Std.Total (lexLe k r) := by
  refine ⟨fun a b => ?_⟩
  unfold lexLe
  by_cases hkey : k a = k b
  · simpa [hkey] using Std.Total.total a b
  · simp [hkey, Ne.symm hkey, lt_or_gt_of_ne hkey]

instance [IsTrans α r] : IsTrans α (lexLe k r) := by
  refine ⟨fun a b c hab hbc => ?_⟩
  unfold lexLe at hab hbc ⊢
  by_cases hkab : k a = k b <;> by_cases hkbc : k b = k c <;>
    simp only [ne_eq, hkab, hkbc, not_true_eq_false, not_false_eq_true, if_true, if_false] at hab hbc ⊢
  · exact IsTrans.trans _ _ _ hab hbc
  · exact hbc
  · simpa [← hkbc, hkab] using hab
  · have hlt := hab.trans hbc
    simpa [hlt.ne] using hlt

theorem lexLe_antisymm (hab : lexLe k r a b) (hba : lexLe k r b a) : k a = k b ∧ r a b ∧ r b a := by
  unfold lexLe at hab hba
  by_cases hkey : k a = k b
  · simp only [hkey, ne_eq, not_true_eq_false, if_false] at hab hba
    exact ⟨hkey, hab, hba⟩
  · simp only [ne_eq, hkey, Ne.symm hkey, not_false_eq_true, if_true] at hab hba
    exact absurd hab hba.asymm

end Lex

/-! ## Sorting a part of a list -/

section Filter

variable {r : α → α → Prop} [DecidableRel r] [Std.Total r] [IsTrans α r] {p : α → Bool}

omit [Std.Total r] in
theorem filter_orderedInsert {a : α} {l : List α} (hl : l.Pairwise r) :
    (l.orderedInsert r a).filter p = if p a then (l.filter p).orderedInsert r a else l.filter p := by
  induction l with
  | nil => simp [List.filter_cons]
  | cons b l ih =>
      obtain ⟨hb, hl⟩ := List.pairwise_cons.1 hl
      by_cases hab : r a b
      · -- the element goes before all that are left
        have hle : ∀ c ∈ (b :: l).filter p, r a c := by
          intro c hc
          rcases List.mem_cons.1 (List.mem_of_mem_filter hc) with rfl | hc
          · exact hab
          · exact IsTrans.trans _ _ _ hab (hb c hc)
        have hfirst : ((b :: l).filter p).orderedInsert r a = a :: (b :: l).filter p := by
          cases hm : (b :: l).filter p with
          | nil => rfl
          | cons c m => exact List.orderedInsert_cons_of_le r m (hle c (by simp [hm]))
        rw [List.orderedInsert_cons_of_le r l hab, List.filter_cons, hfirst]
      · rw [List.orderedInsert_cons, if_neg hab, List.filter_cons, ih hl, List.filter_cons]
        split_ifs <;> simp [hab]

/-- Sorting is stable, so that a part of the list is sorted on its own. -/
theorem filter_insertionSort (l : List α) :
    (l.insertionSort r).filter p = (l.filter p).insertionSort r := by
  induction l with
  | nil => rfl
  | cons a l ih =>
      rw [List.insertionSort_cons, filter_orderedInsert (List.pairwise_insertionSort r l), ih, List.filter_cons]
      split_ifs <;> rfl

/-- The first element of the sorted list is the one below all others. -/
theorem head?_insertionSort {l : List α} {a : α} (hanti : ∀ b ∈ l, ∀ c ∈ l, r b c → r c b → b = c) :
    (l.insertionSort r).head? = some a ↔ a ∈ l ∧ ∀ b ∈ l, r a b := by
  have hmem : ∀ b, b ∈ l.insertionSort r ↔ b ∈ l := fun b => List.mem_insertionSort r
  have hsorted := List.pairwise_insertionSort r l
  cases hl : l.insertionSort r with
  | nil =>
      have hnot : ∀ b, b ∉ l := fun b hb => by simpa [hl] using (hmem b).2 hb
      simp [hnot a]
  | cons x xs =>
      rw [hl] at hmem hsorted
      have hx : ∀ b ∈ l, r x b := by
        intro b hb
        rcases List.mem_cons.1 ((hmem b).2 hb) with rfl | hb
        · exact (Std.Total.total (r := r) b b).elim id id
        · exact (List.pairwise_cons.1 hsorted).1 b hb
      have hxl : x ∈ l := (hmem x).1 List.mem_cons_self
      rw [List.head?_cons, Option.some_inj]
      constructor
      · rintro rfl
        exact ⟨hxl, hx⟩
      · rintro ⟨ha, hle⟩
        exact hanti x hxl a ha (hx a ha) (hle x hxl)

/-- Two elements that tie come out in the order in which they came. -/
theorem insertionSort_ne_of_tie [DecidableEq α] {l l' : List α} {a b : α} (hl : l.Nodup) (ha : a ∈ l) (hb : b ∈ l)
    (hne : a ≠ b) (hab : r a b) (hba : r b a) (hrev : (l'.filter fun c => c = a ∨ c = b) =
      (l.filter fun c => c = a ∨ c = b).reverse) : l'.insertionSort r ≠ l.insertionSort r := by
  intro heq
  have htied : ∀ m : List α, (∀ c ∈ m, c = a ∨ c = b) → m.insertionSort r = m := by
    refine fun m hm => List.Pairwise.insertionSort_eq (List.pairwise_of_forall_mem_list ?_)
    have hrefl : ∀ c, r c c := fun c => (Std.Total.total (r := r) c c).elim id id
    intro c hc d hd
    rcases hm c hc with rfl | rfl <;> rcases hm d hd with rfl | rfl
    · exact hrefl _
    · exact hab
    · exact hba
    · exact hrefl _
  have hpart := congrArg (List.filter fun c => decide (c = a ∨ c = b)) heq
  rw [filter_insertionSort, filter_insertionSort, hrev, htied _ (by simp), htied _ (by simp)] at hpart
  have hperm : (l.filter fun c => c = a ∨ c = b).Perm [a, b] := by
    refine (List.perm_ext_iff_of_nodup (hl.filter _) (by simpa using hne)).2 fun c => ?_
    simp only [List.mem_filter, decide_eq_true_eq, List.mem_cons, List.not_mem_nil, or_false]
    constructor
    · exact And.right
    · rintro (rfl | rfl)
      · exact ⟨ha, .inl rfl⟩
      · exact ⟨hb, .inr rfl⟩
  obtain ⟨x, y, hxy⟩ := List.length_eq_two.1 hperm.length_eq
  rw [hxy] at hpart hperm
  have hxy : x ≠ y := by simpa using hperm.nodup_iff.2 (by simpa using hne)
  simp only [List.reverse_cons, List.reverse_nil, List.nil_append, List.cons_append, List.cons.injEq] at hpart
  exact hxy hpart.2.1

omit [Std.Total r] in
/-- An element is inserted after what is strictly below it, and before all the rest. -/
theorem orderedInsert_split {a : α} {l : List α} (hl : l.Pairwise r) : ∃ below rest,
    l.orderedInsert r a = below ++ a :: rest ∧ ∀ b, b ∈ below ↔ b ∈ l ∧ ¬ r a b := by
  induction l with
  | nil => exact ⟨[], [], rfl, by simp⟩
  | cons b l ih =>
      obtain ⟨hb, hl⟩ := List.pairwise_cons.1 hl
      by_cases hab : r a b
      · refine ⟨[], b :: l, List.orderedInsert_cons_of_le r l hab, fun c => ?_⟩
        simp only [List.not_mem_nil, List.mem_cons, false_iff, not_and, not_not]
        rintro (rfl | hc)
        · exact hab
        · exact IsTrans.trans _ _ _ hab (hb c hc)
      · obtain ⟨below, rest, heq, hmem⟩ := ih hl
        refine ⟨b :: below, rest, by rw [List.orderedInsert_cons, if_neg hab, heq, List.cons_append], fun c => ?_⟩
        simp only [List.mem_cons, hmem, or_and_right]
        refine or_congr_left ⟨fun heq => ⟨heq, heq ▸ hab⟩, fun h => h.1⟩

end Filter

/-- What contributes nothing may be left out. -/
theorem flatMap_filter_of_eq_nil {β : Type} {f : β → List α} {p : β → Bool} {l : List β}
    (h : ∀ a ∈ l, p a = false → f a = []) : (l.filter p).flatMap f = l.flatMap f := by
  induction l with
  | nil => rfl
  | cons a l ih =>
      have hl := ih fun b hb => h b (List.mem_cons_of_mem a hb)
      cases hp : p a with
      | true => simp [hp, hl]
      | false => simp [hp, hl, h a List.mem_cons_self hp]

/-! ## Folding sorted lists -/

section Fold

variable {σ : Type} {r : α → α → Prop} [IsTrans α r] {f : σ → α → σ} {z : σ}

/-- An element moves to the front of those it can be exchanged with. -/
theorem foldl_move {a : α} {done s : List α} (h : ∀ done' x, x ∈ s → done ⊆ done' →
      (done' ++ [x, a]).foldl f z = (done' ++ [a, x]).foldl f z) :
    (done ++ s ++ [a]).foldl f z = (done ++ a :: s).foldl f z := by
  induction s generalizing done with
  | nil => simp
  | cons x s ih =>
      have hrest : (done ++ [x] ++ s ++ [a]).foldl f z = (done ++ [x] ++ a :: s).foldl f z := by
        refine ih fun done' y hy hsub => h done' y (List.mem_cons_of_mem x hy) fun c hc => hsub ?_
        exact List.mem_append_left [x] hc
      have hswap := h done x List.mem_cons_self (List.Subset.refl done)
      simp only [List.append_assoc, List.foldl_append, List.foldl_cons, List.foldl_nil, List.cons_append,
        List.nil_append] at hrest hswap ⊢
      rw [hrest, hswap]

/-- Two arrangements of a list are folded to the same if both are sorted and equals can be exchanged once
all below them is folded. -/
theorem foldl_eq_of_sorted_perm {total l l' : List α}
    (hswap : ∀ done a b, a ∈ total → b ∈ total → r a b → r b a → (∀ c ∈ total, ¬ r a c → c ∈ done) →
      (done ++ [a, b]).foldl f z = (done ++ [b, a]).foldl f z)
    (hl : l.Pairwise r) (hl' : l'.Pairwise r) (hperm : l.Perm total) (hperm' : l'.Perm total) :
    l.foldl f z = l'.foldl f z := by
  have hrest : ∀ l l' done : List α, l.Perm l' → l.Pairwise r → l'.Pairwise r → l ⊆ total →
      (∀ c ∈ total, c ∈ done ∨ c ∈ l) → (done ++ l).foldl f z = (done ++ l').foldl f z := by
    intro l
    induction l with
    | nil =>
        intro l' done hperm _ _ _ _
        rw [hperm.nil_eq]
    | cons a t ih =>
        intro l' done hperm hl hl' hsub hdone
        obtain ⟨s, t', rfl⟩ := List.append_of_mem (hperm.subset List.mem_cons_self)
        obtain ⟨ha, ht⟩ := List.pairwise_cons.1 hl
        have hperm' : t.Perm (s ++ t') := (hperm.trans List.perm_middle).cons_inv
        have hsorted : (s ++ t').Pairwise r := hl'.sublist (List.sublist_cons_self a t' |>.append_left s)
        have hmin : ∀ x ∈ s ++ t', r a x := fun x hx => ha x (hperm'.symm.subset hx)
        -- what stands before `a` in the other list is equal to it
        have hmove : (done ++ s ++ [a]).foldl f z = (done ++ a :: s).foldl f z := by
          refine foldl_move fun done' x hx hdone' => ?_
          have hax : r a x := hmin x (List.mem_append_left t' hx)
          have hxa : r x a := (List.pairwise_append.1 hl').2.2 x hx a List.mem_cons_self
          have hxt : x ∈ total := hsub (hperm.symm.subset (List.mem_append_left _ hx))
          refine hswap done' x a hxt (hsub List.mem_cons_self) hxa hax fun c hc hxc => ?_
          rcases hdone c hc with hc | hc
          · exact hdone' hc
          · rcases List.mem_cons.1 hc with rfl | hc
            · exact absurd hxa hxc
            · exact absurd (IsTrans.trans _ _ _ hxa (ha c hc)) hxc
        have hstep := ih (s ++ t') (done ++ [a]) hperm' ht hsorted (fun c hc => hsub (List.mem_cons_of_mem a hc)) (by
          intro c hc
          rcases hdone c hc with hc | hc
          · exact .inl (List.mem_append_left [a] hc)
          · rcases List.mem_cons.1 hc with rfl | hc
            · exact .inl (by simp)
            · exact .inr hc)
        simp only [List.append_assoc, List.foldl_append, List.foldl_cons, List.foldl_nil, List.cons_append,
          List.nil_append] at hstep hmove ⊢
        rw [hstep, hmove]
  refine hrest l l' [] (hperm.trans hperm'.symm) hl hl' hperm.subset fun c hc => .inr ?_
  exact hperm.symm.subset hc

/-- Two sorted arrangements are the same but for what equals differ in. -/
theorem map_eq_of_sorted_perm {β : Type} {g : α → β} {l l' : List α}
    (hg : ∀ a ∈ l', ∀ b ∈ l', r a b → r b a → g a = g b) (hl : l.Pairwise r) (hl' : l'.Pairwise r)
    (hperm : l.Perm l') : l.map g = l'.map g := by
  have hfold : ∀ l : List α, l.map g = l.foldl (fun bs a => bs ++ [g a]) [] := by
    intro l
    induction l using List.reverseRecOn with
    | nil => rfl
    | append_singleton l a ih => simp [ih]
  rw [hfold, hfold]
  refine foldl_eq_of_sorted_perm (fun done a b ha hb hab hba _ => ?_) hl hl' hperm (.refl _)
  simp [hg a ha b hb hab hba]

end Fold

/-! ## Sorted lists with distinct keys -/

section Sorted

variable {κ : Type} {r : α → α → Prop} {k : α → κ} {l l' : List α}

/-- A list that is sorted and has distinct keys is determined by its members. -/
theorem eq_of_sorted_of_mem (hanti : ∀ a b, r a b → r b a → k a = k b) (hl : l.Pairwise r)
    (hl' : l'.Pairwise r) (hkeys : (l.map k).Nodup) (hkeys' : (l'.map k).Nodup)
    (hmem : ∀ a, a ∈ l ↔ a ∈ l') : l = l' := by
  have hperm : l.Perm l' := (List.perm_ext_iff_of_nodup hkeys.of_map hkeys'.of_map).2 hmem
  refine hperm.eq_of_pairwise (fun a b ha hb hab hba => ?_) hl hl'
  exact List.inj_on_of_nodup_map hkeys ha ((hmem b).2 hb) (hanti a b hab hba)

/-- Sorting forgets the order, unless two elements tie. -/
theorem insertionSort_eq_of_perm [DecidableRel r] [Std.Total r] [IsTrans α r]
    (hanti : ∀ a ∈ l, ∀ b ∈ l, r a b → r b a → a = b) (hperm : l'.Perm l) :
    l'.insertionSort r = l.insertionSort r := by
  have hsorted := (List.perm_insertionSort r l').trans (hperm.trans (List.perm_insertionSort r l).symm)
  refine hsorted.eq_of_pairwise (fun a b ha hb => hanti a ?_ b ?_) (List.pairwise_insertionSort r l')
    (List.pairwise_insertionSort r l)
  · exact hperm.mem_iff.1 ((List.mem_insertionSort r).1 ha)
  · exact (List.mem_insertionSort r).1 hb

/-- Where the keys are distinct, none do. -/
theorem insertionSort_eq_of_perm_of_keys [DecidableRel r] [Std.Total r] [IsTrans α r]
    (hanti : ∀ a b, r a b → r b a → k a = k b) (hkeys : (l.map k).Nodup) (hperm : l'.Perm l) :
    l'.insertionSort r = l.insertionSort r :=
  insertionSort_eq_of_perm (fun a ha b hb hab hba => List.inj_on_of_nodup_map hkeys ha hb (hanti a b hab hba))
    hperm

end Sorted

/-! ## Sorted groups -/

section Groups

variable {ι : Type} {r : α → α → Prop} {k : α → ι} {l l' : List (κ × List α)}

/-- Groups sorted by their codes, none of them empty, and each sorted and with distinct keys. -/
structure SortedGroups (r : α → α → Prop) (k : α → ι) (l : List (κ × List α)) : Prop where
  codes : (l.map Prod.fst).Pairwise (· < ·)
  nonempty : ∀ e ∈ l, e.2 ≠ []
  sorted : ∀ e ∈ l, e.2.Pairwise r
  keys : ∀ e ∈ l, (e.2.map k).Nodup

theorem SortedGroups.group_eq (h : SortedGroups r k l) {c : κ} {as bs : List α} (ha : (c, as) ∈ l)
    (hb : (c, bs) ∈ l) : as = bs := by
  have hnodup : (l.map Prod.fst).Nodup := h.codes.imp fun hlt => hlt.ne
  exact congrArg Prod.snd (List.inj_on_of_nodup_map hnodup ha hb rfl)

theorem SortedGroups.subset (hanti : ∀ a b, r a b → r b a → k a = k b) (h : SortedGroups r k l)
    (h' : SortedGroups r k l')
    (hmem : ∀ c a, (∃ as, (c, as) ∈ l ∧ a ∈ as) ↔ ∃ as, (c, as) ∈ l' ∧ a ∈ as) : ∀ e ∈ l, e ∈ l' := by
  rintro ⟨c, as⟩ he
  obtain ⟨a, ha⟩ := List.exists_mem_of_ne_nil as (h.nonempty _ he)
  obtain ⟨bs, hbs, -⟩ := (hmem c a).1 ⟨as, he, ha⟩
  have heq : as = bs := by
    refine eq_of_sorted_of_mem hanti (h.sorted _ he) (h'.sorted _ hbs) (h.keys _ he) (h'.keys _ hbs) fun b => ?_
    constructor
    · intro hb
      obtain ⟨bs', hbs', hb⟩ := (hmem c b).1 ⟨as, he, hb⟩
      exact h'.group_eq hbs' hbs ▸ hb
    · intro hb
      obtain ⟨as', has', hb⟩ := (hmem c b).2 ⟨bs, hbs, hb⟩
      exact h.group_eq has' he ▸ hb
  exact heq ▸ hbs

/-- Sorted groups are determined by the members of each group. -/
theorem SortedGroups.eq (hanti : ∀ a b, r a b → r b a → k a = k b) (h : SortedGroups r k l)
    (h' : SortedGroups r k l')
    (hmem : ∀ c a, (∃ as, (c, as) ∈ l ∧ a ∈ as) ↔ ∃ as, (c, as) ∈ l' ∧ a ∈ as) : l = l' := by
  have hsorted : ∀ {l : List (κ × List α)}, SortedGroups r k l →
      l.Pairwise (keyLe Prod.fst) ∧ (l.map Prod.fst).Nodup := fun h =>
    ⟨(List.pairwise_map.1 h.codes).imp fun hlt => hlt.le, h.codes.imp fun hlt => hlt.ne⟩
  refine eq_of_sorted_of_mem (fun a b hab hba => le_antisymm hab hba) (hsorted h).1 (hsorted h').1
    (hsorted h).2 (hsorted h').2 fun e => ?_
  exact ⟨h.subset hanti h' hmem e, h'.subset hanti h (fun c a => (hmem c a).symm) e⟩

end Groups

end TrustAnchor.Lib
