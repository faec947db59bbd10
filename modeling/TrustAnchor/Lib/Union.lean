import Mathlib.Data.List.Nodup

/-!
# Ordered unions

Adding the elements of one list to another, each at the end and unless it is there already. What is added
depends only on which elements are there, and two lists can be added in either order exactly if what the
one adds is where what the other adds begins.
-/

namespace TrustAnchor.Lib

variable {α : Type} [DecidableEq α]

/-- At the end, unless it is there. -/
def addNew (l : List α) (a : α) : List α := if a ∈ l then l else l ++ [a]

/-- The list with the new elements of another. -/
def union (l new : List α) : List α := new.foldl addNew l

/-- What is added. -/
def fresh (l : List α) : List α → List α
  | [] => []
  | a :: new => if a ∈ l then fresh l new else a :: fresh (a :: l) new

variable {l l' m new xs ys : List α} {a : α}

theorem fresh_congr (h : ∀ a, a ∈ l ↔ a ∈ l') : fresh l new = fresh l' new := by
  induction new generalizing l l' with
  | nil => rfl
  | cons a new ih =>
      have hcons : ∀ b, b ∈ a :: l ↔ b ∈ a :: l' := by simp [h]
      simp only [fresh, h, ih h, ih hcons]

theorem union_eq : union l new = l ++ fresh l new := by
  induction new generalizing l with
  | nil => simp [union, fresh]
  | cons a new ih =>
      rw [union, List.foldl_cons]
      refine (ih (l := addNew l a)).trans ?_
      unfold addNew
      by_cases ha : a ∈ l
      · simp [fresh, ha]
      · have hset : ∀ b, b ∈ l ++ [a] ↔ b ∈ a :: l := by simp [or_comm]
        simp [fresh, ha, fresh_congr hset]

theorem prefix_union : l <+: union l new := by
  rw [union_eq]
  exact List.prefix_append ..

theorem mem_fresh : a ∈ fresh l new ↔ a ∈ new ∧ a ∉ l := by
  induction new generalizing l with
  | nil => simp [fresh]
  | cons b new ih =>
      unfold fresh
      by_cases hb : b ∈ l
      · simp only [hb, if_true, ih, List.mem_cons]
        exact ⟨fun h => ⟨.inr h.1, h.2⟩, fun h => ⟨h.1.resolve_left fun heq => h.2 (heq ▸ hb), h.2⟩⟩
      · simp only [hb, if_false, List.mem_cons, ih, not_or]
        constructor
        · rintro (rfl | ⟨hnew, -, hl⟩)
          · exact ⟨.inl rfl, hb⟩
          · exact ⟨.inr hnew, hl⟩
        · rintro ⟨rfl | hnew, hl⟩
          · exact .inl rfl
          · by_cases heq : a = b
            · exact .inl heq
            · exact .inr ⟨hnew, heq, hl⟩

theorem mem_union : a ∈ union l new ↔ a ∈ l ∨ a ∈ new := by
  rw [union_eq, List.mem_append, mem_fresh]
  tauto

theorem fresh_eq_nil : fresh l new = [] ↔ new ⊆ l := by
  simp only [List.eq_nil_iff_forall_not_mem, mem_fresh, not_and, not_not]
  rfl

theorem fresh_nodup : (fresh l new).Nodup := by
  induction new generalizing l with
  | nil => simp [fresh]
  | cons a new ih =>
      unfold fresh
      split_ifs
      · exact ih
      · exact List.nodup_cons.2 ⟨fun h => (mem_fresh.1 h).2 List.mem_cons_self, ih⟩

/-- With more elements there, the same ones are added in the same order, but for those. -/
theorem fresh_append : fresh (l ++ m) new = (fresh l new).filter (· ∉ m) := by
  induction new generalizing l with
  | nil => rfl
  | cons a new ih =>
      have hcons := ih (l := a :: l)
      by_cases hl : a ∈ l
      · simp [fresh, hl, ih]
      · by_cases hm : a ∈ m
        · -- the element is there with `m`, and not added again
          have hset : ∀ b, b ∈ l ++ m ↔ b ∈ a :: l ++ m := by
            intro b
            simp only [List.cons_append, List.mem_cons, List.mem_append]
            exact ⟨.inr, fun h => h.elim (fun heq => .inr (heq ▸ hm)) id⟩
          simpa [fresh, hl, hm, fresh_congr hset] using hcons
        · simpa [fresh, hl, hm] using hcons

theorem fresh_eq_self (h : new.Nodup) (hl : ∀ a ∈ new, a ∉ l) : fresh l new = new := by
  induction new generalizing l with
  | nil => rfl
  | cons a new ih =>
      obtain ⟨ha, hnew⟩ := List.nodup_cons.1 h
      rw [fresh, if_neg (hl a List.mem_cons_self), ih hnew]
      intro b hb
      rw [List.mem_cons, not_or]
      exact ⟨fun heq => ha (heq ▸ hb), hl b (List.mem_cons_of_mem a hb)⟩

theorem fresh_append_new : fresh l (xs ++ ys) = fresh l xs ++ fresh (l ++ xs) ys := by
  induction xs generalizing l with
  | nil => simp [fresh]
  | cons a xs ih =>
      by_cases ha : a ∈ l
      · have hset : ∀ b, b ∈ l ++ xs ↔ b ∈ l ++ a :: xs := by
          intro b
          simp only [List.mem_append, List.mem_cons]
          exact ⟨fun h => h.imp_right .inr, fun h => h.elim .inl fun h => h.elim (fun heq => .inl (heq ▸ ha)) .inr⟩
        simp [fresh, ha, ih, fresh_congr hset]
      · have hset : ∀ b, b ∈ a :: l ++ xs ↔ b ∈ l ++ a :: xs := by
          intro b
          simp only [List.cons_append, List.mem_append, List.mem_cons]
          tauto
        simp [fresh, ha, ih, ← fresh_congr hset]

theorem union_append : union l (xs ++ ys) = union (union l xs) ys := List.foldl_append ..

/-! ## Either order -/

/-- The two can be added to the list in either order. -/
def Interchange (l xs ys : List α) : Prop := union (union l xs) ys = union (union l ys) xs

theorem union_union : union (union l xs) ys = l ++ fresh l xs ++ (fresh l ys).filter (· ∉ fresh l xs) := by
  rw [union_eq, union_eq, fresh_append]

theorem filter_notMem_of_append {s t : List α} (h : (s ++ t).Nodup) : (s ++ t).filter (· ∉ s) = t := by
  have hdisjoint := (List.nodup_append.1 h).2.2
  rw [List.filter_append, List.filter_eq_nil_iff.2 (by simp), List.nil_append, List.filter_eq_self]
  intro a ha
  exact decide_eq_true fun has => hdisjoint a has a ha rfl

theorem interchange_iff : Interchange l xs ys ↔ fresh l xs <+: fresh l ys ∨ fresh l ys <+: fresh l xs := by
  unfold Interchange
  rw [union_union, union_union, List.append_assoc, List.append_assoc, List.append_cancel_left_eq]
  constructor
  · intro h
    have hys : fresh l ys <+: fresh l xs ++ (fresh l ys).filter (· ∉ fresh l xs) := h ▸ List.prefix_append ..
    exact List.prefix_or_prefix_of_prefix (List.prefix_append ..) hys
  · have hside : ∀ {xs ys : List α}, fresh l xs <+: fresh l ys →
        fresh l xs ++ (fresh l ys).filter (· ∉ fresh l xs) = fresh l ys ++ (fresh l xs).filter (· ∉ fresh l ys) := by
      intro xs ys h
      obtain ⟨t, ht⟩ := h
      have hnodup : (fresh l xs ++ t).Nodup := ht ▸ fresh_nodup
      have hsub : (fresh l xs).filter (· ∉ fresh l ys) = [] := by
        rw [List.filter_eq_nil_iff, ← ht]
        simp +contextual
      rw [hsub, List.append_nil, ← ht, filter_notMem_of_append hnodup]
    rintro (h | h)
    · exact hside h
    · exact (hside h).symm

theorem Interchange.congr (h : Interchange l xs ys) (hset : ∀ a, a ∈ l ↔ a ∈ l') : Interchange l' xs ys := by
  rw [interchange_iff] at h ⊢
  rwa [← fresh_congr hset, ← fresh_congr hset]

/-- What can be added in either order, can be with more there. -/
theorem Interchange.mono (h : Interchange l xs ys) (hsub : l ⊆ m) : Interchange m xs ys := by
  have hset : ∀ a, a ∈ l ++ m ↔ a ∈ m := by
    intro a
    rw [List.mem_append]
    exact ⟨fun h => h.elim (fun h => hsub h) id, .inr⟩
  refine Interchange.congr (l := l ++ m) ?_ hset
  rw [interchange_iff] at h ⊢
  rw [fresh_append, fresh_append]
  exact h.imp (·.filter _) (·.filter _)

/-! ## What two unions with one result have in common -/

omit [DecidableEq α] in
/-- Of two lists with the same elements, each continued with others, neither is shorter. -/
theorem eq_of_append_eq {s t : List α} (heq : l ++ s = m ++ t) (hset : ∀ a, a ∈ l ↔ a ∈ m)
    (hs : ∀ a ∈ s, a ∉ l) (ht : ∀ a ∈ t, a ∉ m) : l = m := by
  have hside : ∀ {l m s t : List α}, l ++ s = m ++ t → (∀ a, a ∈ l ↔ a ∈ m) → (∀ a ∈ s, a ∉ l) →
      l <+: m → l = m := by
    rintro l m s t heq hset hs ⟨u, rfl⟩
    rw [List.append_assoc, List.append_cancel_left_eq] at heq
    have hu : u = [] := by
      refine List.eq_nil_iff_forall_not_mem.2 fun a ha => hs a (heq ▸ List.mem_append_left t ha) ?_
      exact (hset a).2 (List.mem_append_right l ha)
    rw [hu, List.append_nil]
  have hm : m <+: l ++ s := heq ▸ List.prefix_append ..
  rcases List.prefix_or_prefix_of_prefix (List.prefix_append l s) hm with h | h
  · exact hside heq hset hs h
  · exact (hside heq.symm (fun a => (hset a).symm) ht h).symm

/-- Two lists that can be continued with new elements to the same one can be united in either order. -/
theorem union_comm_of_append_eq (heq : union l xs = union m ys) : union l m = union m l := by
  have hside : ∀ {l m xs ys : List α}, union l xs = union m ys → l <+: m → union l m = union m l := by
    rintro l m xs ys heq ⟨u, rfl⟩
    rw [union_eq, union_eq (l := l ++ u), List.append_assoc, List.append_cancel_left_eq] at heq
    have hsub : u ⊆ fresh l xs := fun a ha => heq ▸ List.mem_append_left _ ha
    have hnodup : u.Nodup := (List.nodup_append.1 (heq ▸ fresh_nodup)).1
    have hl : fresh l (l ++ u) = u := by
      rw [fresh_append_new, fresh_eq_nil.2 (List.Subset.refl l), List.nil_append]
      refine fresh_eq_self hnodup fun a ha => ?_
      rw [List.mem_append, or_self]
      exact (mem_fresh.1 (hsub ha)).2
    rw [union_eq, union_eq, hl, fresh_eq_nil.2 (List.subset_append_left l u), List.append_nil]
  have hl : l <+: union l xs := prefix_union
  have hm : m <+: union l xs := heq ▸ prefix_union
  rcases List.prefix_or_prefix_of_prefix hl hm with h | h
  · exact hside heq h
  · exact (hside heq.symm h).symm

/-- Two lists that can be added first, with one result, can be added in either order. -/
theorem interchange_of_union_eq {xs' ys' : List α} (heq : union l (xs ++ xs') = union l (ys ++ ys')) :
    Interchange l xs ys := by
  rw [union_eq, union_eq, List.append_cancel_left_eq, fresh_append_new, fresh_append_new] at heq
  rw [interchange_iff]
  have hys : fresh l ys <+: fresh l xs ++ fresh (l ++ xs) xs' := heq ▸ List.prefix_append ..
  exact List.prefix_or_prefix_of_prefix (List.prefix_append ..) hys

/-- Two lists that can be united in either order can be added in either order. -/
theorem interchange_of_union_comm (heq : union xs ys = union ys xs) : Interchange l xs ys := by
  refine Interchange.mono (l := []) ?_ (List.nil_subset l)
  rw [union_eq, union_eq] at heq
  have hfresh := congrArg (fresh []) heq
  rw [fresh_append_new, fresh_append_new] at hfresh
  rw [interchange_iff]
  have hys : fresh [] ys <+: fresh [] xs ++ fresh ([] ++ xs) (fresh xs ys) := hfresh ▸ List.prefix_append ..
  exact List.prefix_or_prefix_of_prefix (List.prefix_append ..) hys

end TrustAnchor.Lib
