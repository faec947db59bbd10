import Mathlib.Data.List.Induction
import Mathlib.Logic.Function.Basic
import TrustAnchor.Lib.Merge
import TrustAnchor.Lib.Union

/-!
# Slices that share arrays

Slices that start as the same cells of one array append into its spare cells, where one can overwrite what
another has appended. An append that finds no spare cell moves the slice to an array of its own. Adding
elements to slices gives each of them its own ordered union as long as none puts something else into a cell
that another has; and what becomes of the slices of one array depends on them alone.
-/

namespace TrustAnchor.Lib

variable {α κ : Type}

/-- The first cells of an array that other slices may share, or an array of its own: one that an append has
made, to which nothing else refers. -/
inductive Slice (α : Type) where
  | shared (array len : Nat)
  | own (cells : List α)

/-- The shared arrays by their addresses, each with all its cells. -/
abbrev Arrays (α : Type) := Nat → List α

namespace Slice

def read (arrays : Arrays α) : Slice α → List α
  | shared i len => (arrays i).take len
  | own cells => cells

/-- Into the next cell of the array if there is one, otherwise into a new array. -/
def append (a : α) (arrays : Arrays α) : Slice α → Arrays α × Slice α
  | shared i len =>
    if len < (arrays i).length then (Function.update arrays i ((arrays i).set len a), shared i (len + 1))
    else (arrays, own ((arrays i).take len ++ [a]))
  | own cells => (arrays, own (cells ++ [a]))

/-- At the end, unless the slice has it. -/
def addNew [DecidableEq α] (st : Arrays α × Slice α) (a : α) : Arrays α × Slice α :=
  if a ∈ st.2.read st.1 then st else st.2.append a st.1

/-- The slice with the new elements of a list. -/
def union [DecidableEq α] (st : Arrays α × Slice α) (new : List α) : Arrays α × Slice α := new.foldl addNew st

/-- A slice of the array `i` with at least `n` cells, or one of its own. -/
def In (i n : Nat) (arrays : Arrays α) : Slice α → Prop
  | shared j len => j = i ∧ n ≤ len ∧ len ≤ (arrays i).length
  | own _ => True

/-- The same slice of another array. -/
def relabel (i : Nat) : Slice α → Slice α
  | shared _ len => shared i len
  | own cells => own cells

/-! ## One append -/

section Append

variable {i n : Nat} {arrays : Arrays α} {s t : Slice α} {a : α}

theorem append_shared (a : α) (arrays : Arrays α) (i len : Nat) : (shared i len).append a arrays =
    if len < (arrays i).length then (Function.update arrays i ((arrays i).set len a), shared i (len + 1))
    else (arrays, own ((arrays i).take len ++ [a])) := rfl

theorem read_append (h : s.In i n arrays) :
    (s.append a arrays).2.read (s.append a arrays).1 = s.read arrays ++ [a] := by
  cases s with
  | own cells => rfl
  | shared j len =>
      rw [append_shared]
      split_ifs with hroom
      · simp [read, List.take_add_one, List.take_set_of_le, hroom]
      · rfl

/-- What an append to a slice of the array `i` with at least `n` cells leaves as it was. -/
structure Extends (i n : Nat) (arrays : Arrays α) (st : Arrays α × Slice α) : Prop where
  slice : st.2.In i n st.1
  length : ∀ j, (st.1 j).length = (arrays j).length
  others : ∀ j, j ≠ i → st.1 j = arrays j
  first : (st.1 i).take n = (arrays i).take n

theorem append_extends (h : s.In i n arrays) (a : α) : Extends i n arrays (s.append a arrays) := by
  cases s with
  | own cells => exact ⟨trivial, fun _ => rfl, fun _ _ => rfl, rfl⟩
  | shared j len =>
      obtain ⟨rfl, hn, hlen⟩ := h
      rw [append_shared]
      split_ifs with hroom
      · refine ⟨⟨rfl, by omega, by simpa using Nat.succ_le_of_lt hroom⟩, fun k => ?_, fun k hk => by simp [hk], ?_⟩
        · by_cases hk : k = j
          · subst hk
            simp
          · simp [hk]
        · simp [List.take_set_of_le, hn]
      · exact ⟨trivial, fun _ => rfl, fun _ _ => rfl, rfl⟩

theorem Extends.trans {st st' : Arrays α × Slice α} (h : Extends i n arrays st) (h' : Extends i n st.1 st') :
    Extends i n arrays st' :=
  ⟨h'.slice, fun j => (h'.length j).trans (h.length j), fun j hj => (h'.others j hj).trans (h.others j hj),
    h'.first.trans h.first⟩

/-- A slice that already has the element in the cell, or does not reach it, sees nothing of the append. -/
theorem read_append_other (hs : s.In i n arrays) (ht : ∀ x, (t.read arrays)[(s.read arrays).length]? = some x → x = a) :
    t.read (s.append a arrays).1 = t.read arrays := by
  cases s with
  | own cells => rfl
  | shared j len =>
      obtain ⟨rfl, -, hlen⟩ := hs
      rw [append_shared]
      split_ifs with hroom
      · cases t with
        | own cells => rfl
        | shared k len' =>
            by_cases hk : k = j
            · subst hk
              simp only [read, Function.update_self, List.length_take, Nat.min_eq_left hlen] at ht ⊢
              by_cases hlt : len < len'
              · have hcell : (arrays k)[len] = a := ht _ (by simp [hlt, hroom])
                rw [← hcell, List.set_getElem_self]
              · simp [List.take_set_of_le, Nat.le_of_not_lt hlt]
            · simp [read, hk]
      · rfl

theorem append_relabel {arrays' : Arrays α} {i' : Nat} (h : s.In i n arrays) (harrays : arrays' i' = arrays i) :
    ((s.relabel i').append a arrays').2 = (s.append a arrays).2.relabel i' ∧
      ((s.relabel i').append a arrays').1 i' = (s.append a arrays).1 i := by
  cases s with
  | own cells => exact ⟨rfl, harrays⟩
  | shared j len =>
      obtain ⟨rfl, -, -⟩ := h
      rw [relabel, append_shared, append_shared, harrays]
      split_ifs
      · simp [relabel]
      · exact ⟨rfl, harrays⟩

theorem read_relabel {arrays' : Arrays α} {i' : Nat} (h : s.In i n arrays) (harrays : arrays' i' = arrays i) :
    (s.relabel i').read arrays' = s.read arrays := by
  cases s with
  | own cells => rfl
  | shared j len =>
      obtain ⟨rfl, -, -⟩ := h
      rw [relabel, read, read, harrays]

end Append

/-! ## Adding the new elements of a list -/

section Union

variable [DecidableEq α] {i n : Nat} {arrays : Arrays α} {s t : Slice α} {new : List α}

theorem addNew_extends (h : s.In i n arrays) (a : α) : Extends i n arrays (addNew (arrays, s) a) := by
  unfold addNew
  split_ifs
  · exact ⟨h, fun _ => rfl, fun _ _ => rfl, rfl⟩
  · exact append_extends h a

theorem union_extends (h : s.In i n arrays) (new : List α) : Extends i n arrays (union (arrays, s) new) := by
  induction new generalizing arrays s with
  | nil => exact ⟨h, fun _ => rfl, fun _ _ => rfl, rfl⟩
  | cons a new ih =>
      have hfirst := addNew_extends h a
      exact hfirst.trans (ih hfirst.slice)

theorem read_addNew (h : s.In i n arrays) (a : α) :
    (addNew (arrays, s) a).2.read (addNew (arrays, s) a).1 = Lib.addNew (s.read arrays) a := by
  unfold addNew Lib.addNew
  split_ifs
  · rfl
  · exact read_append h

/-- The slice itself has the ordered union. -/
theorem read_union (h : s.In i n arrays) (new : List α) :
    (union (arrays, s) new).2.read (union (arrays, s) new).1 = Lib.union (s.read arrays) new := by
  induction new generalizing arrays s with
  | nil => rfl
  | cons a new ih =>
      rw [Lib.union, List.foldl_cons, ← read_addNew h a]
      exact ih (addNew_extends h a).slice

/-- Another slice sees nothing of it if it has, behind the cells of this one, what is put there. -/
theorem read_union_other (hs : s.In i n arrays) (ht : ∀ (j : Nat) x y, (s.read arrays).length ≤ j →
      (t.read arrays)[j]? = some x → (Lib.union (s.read arrays) new)[j]? = some y → x = y) :
    t.read (union (arrays, s) new).1 = t.read arrays := by
  induction new generalizing arrays s with
  | nil => rfl
  | cons a new ih =>
      have hread := read_addNew hs a
      have hsame : t.read (addNew (arrays, s) a).1 = t.read arrays := by
        unfold addNew
        split_ifs with hmem
        · rfl
        · refine read_append_other hs fun x hx => ht _ x a (Nat.le_refl _) hx ?_
          have hstart : s.read arrays ++ [a] <+: Lib.union (s.read arrays) (a :: new) := by
            have heq : Lib.addNew (s.read arrays) a = s.read arrays ++ [a] := if_neg hmem
            rw [Lib.union, List.foldl_cons, heq]
            exact prefix_union
          obtain ⟨rest, hrest⟩ := hstart
          simp [← hrest]
      refine (ih (addNew_extends hs a).slice fun j x y hj hx hy => ?_).trans hsame
      rw [hsame] at hx
      rw [hread] at hj hy
      have hlonger : s.read arrays <+: Lib.union (s.read arrays) [a] := prefix_union
      exact ht j x y (Nat.le_trans hlonger.length_le hj) hx hy

theorem union_relabel {arrays' : Arrays α} {i' : Nat} (h : s.In i n arrays) (harrays : arrays' i' = arrays i)
    (new : List α) :
    (union (arrays', s.relabel i') new).2 = (union (arrays, s) new).2.relabel i' ∧
      (union (arrays', s.relabel i') new).1 i' = (union (arrays, s) new).1 i := by
  induction new generalizing arrays arrays' s with
  | nil => exact ⟨rfl, harrays⟩
  | cons a new ih =>
      have hstep : (addNew (arrays', s.relabel i') a).2 = (addNew (arrays, s) a).2.relabel i' ∧
          (addNew (arrays', s.relabel i') a).1 i' = (addNew (arrays, s) a).1 i := by
        unfold addNew
        rw [read_relabel h harrays]
        split_ifs
        · exact ⟨rfl, harrays⟩
        · exact append_relabel h harrays
      have hrest := ih (addNew_extends h a).slice hstep.2
      rw [← hstep.1] at hrest
      exact hrest

end Union

end Slice

/-! ## Slices by key -/

/-- What comes under a key: the items that are the first cells of an array. -/
structure Visit (κ α : Type) where
  key : κ
  array : Nat
  items : List α

/-- The shared arrays and the slices that are kept. -/
structure Heap (κ α : Type) where
  arrays : Arrays α
  slices : κ → Option (Slice α)

section Visits

variable [DecidableEq κ] [DecidableEq α]

/-- The first visit under a key is kept as a slice of its array, and the items of the later ones are added
to it. -/
def Heap.visit (h : Heap κ α) (v : Visit κ α) : Heap κ α :=
  match h.slices v.key with
  | none => { h with slices := Function.update h.slices v.key (some (.shared v.array v.items.length)) }
  | some s =>
    let st := Slice.union (h.arrays, s) v.items
    ⟨st.1, Function.update h.slices v.key (some st.2)⟩

def Heap.run (arrays : Arrays α) (vs : List (Visit κ α)) : Heap κ α := vs.foldl Heap.visit ⟨arrays, fun _ => none⟩

/-- What the slice of the key reads as. -/
def Heap.content (h : Heap κ α) (k : κ) : Option (List α) := (h.slices k).map (Slice.read h.arrays)

/-- The array of the first visit under the key. -/
def home (vs : List (Visit κ α)) (k : κ) : Option Nat := (vs.filter fun v => v.key = k).head?.map Visit.array

/-- The items of the visits under the key, united in their order. -/
def mergedItems (vs : List (Visit κ α)) (k : κ) : Option (List α) :=
  mergeAll union ((vs.filter fun v => v.key = k).map Visit.items)

variable {vs us : List (Visit κ α)} {v : Visit κ α} {k : κ} {i : Nat} {arrays : Arrays α} {base : Nat → List α}

theorem run_append_singleton : Heap.run arrays (vs ++ [v]) = (Heap.run arrays vs).visit v := List.foldl_append ..

theorem visit_of_none {h : Heap κ α} (hnone : h.slices v.key = none) : h.visit v =
    { h with slices := Function.update h.slices v.key (some (.shared v.array v.items.length)) } := by
  simp only [Heap.visit, hnone]

theorem visit_of_some {h : Heap κ α} {s : Slice α} (hsome : h.slices v.key = some s) : h.visit v =
    ⟨(Slice.union (h.arrays, s) v.items).1,
      Function.update h.slices v.key (some (Slice.union (h.arrays, s) v.items).2)⟩ := by
  simp only [Heap.visit, hsome]

omit [DecidableEq α] in
theorem home_append_ne (h : v.key ≠ k) : home (vs ++ [v]) k = home vs k := by
  simp [home, List.filter_append, h]

omit [DecidableEq α] in
theorem home_append_of_some (h : home vs k = some i) (us : List (Visit κ α)) : home (vs ++ us) k = some i := by
  unfold home at h ⊢
  obtain ⟨v, hv, rfl⟩ := Option.map_eq_some_iff.1 h
  rw [List.filter_append, List.head?_append, hv]
  rfl

omit [DecidableEq α] in
theorem home_append_of_none (h : home vs v.key = none) : home (vs ++ [v]) v.key = some v.array := by
  unfold home at h ⊢
  rw [Option.map_eq_none_iff] at h
  rw [List.filter_append, List.head?_append, h]
  simp

omit [DecidableEq α] in
theorem mem_of_home (h : home vs k = some i) : ∃ v ∈ vs, v.key = k ∧ v.array = i := by
  obtain ⟨v, hv, rfl⟩ := Option.map_eq_some_iff.1 h
  obtain ⟨hmem, hkey⟩ := List.mem_filter.1 (List.mem_of_mem_head? hv)
  exact ⟨v, hmem, of_decide_eq_true hkey, rfl⟩

omit [DecidableEq α] in
theorem home_of_initial (hsub : us <+: vs) (h : home us k = some i) : home vs k = some i := by
  obtain ⟨rest, rfl⟩ := hsub
  exact home_append_of_some h rest

theorem mergedItems_append_ne (h : v.key ≠ k) : mergedItems (vs ++ [v]) k = mergedItems vs k := by
  simp [mergedItems, List.filter_append, h]

theorem mergedItems_append_self :
    mergedItems (vs ++ [v]) v.key = some (mergeOnto union (mergedItems vs v.key) v.items) := by
  simp [mergedItems, List.filter_append, mergeAll_append_singleton]

theorem mergedItems_eq_none : mergedItems vs k = none ↔ home vs k = none := by
  simp [mergedItems, home, mergeAll_eq_none]

/-- The items of every visit are the first cells of its array. -/
structure Based (base : Nat → List α) (arrays : Arrays α) (vs : List (Visit κ α)) : Prop where
  items : ∀ v ∈ vs, v.items = base v.array
  first : ∀ i, base i <+: arrays i

omit [DecidableEq κ] [DecidableEq α] in
theorem Based.initial (h : Based base arrays vs) (hsub : us <+: vs) : Based base arrays us :=
  ⟨fun v hv => h.items v (hsub.subset hv), h.first⟩

/-- The slice of a key is in the array of its first visit, behind the first cells, which stay as they are. -/
structure Consistent (base : Nat → List α) (arrays : Arrays α) (vs : List (Visit κ α)) (h : Heap κ α) : Prop where
  length : ∀ i, (h.arrays i).length = (arrays i).length
  first : ∀ i, base i <+: h.arrays i
  absent : ∀ k, h.slices k = none ↔ home vs k = none
  slice : ∀ k s, h.slices k = some s → ∃ i, home vs k = some i ∧ s.In i (base i).length h.arrays

omit [DecidableEq κ] [DecidableEq α] in
theorem isPrefix_of_take {l m : List α} {b : List α} (h : b <+: l) (htake : m.take b.length = l.take b.length) :
    b <+: m := by
  rw [List.prefix_iff_eq_take] at h ⊢
  rw [htake]
  exact h

omit [DecidableEq α] in
theorem home_append_of_slice {h : Heap κ α} (hc : Consistent base arrays vs h) {s : Slice α}
    (hs : h.slices v.key = some s) (k : κ) : home (vs ++ [v]) k = home vs k := by
  by_cases hkey : v.key = k
  · subst hkey
    obtain ⟨i, hhome, -⟩ := hc.slice v.key s hs
    rw [hhome, home_append_of_some hhome]
  · exact home_append_ne hkey

/-- The first visit under a key. -/
theorem Consistent.visit_first {h : Heap κ α} (hc : Consistent base arrays vs h) (hitems : v.items = base v.array)
    (hs : h.slices v.key = none) : Consistent base arrays (vs ++ [v]) (h.visit v) := by
  have hhome := (hc.absent v.key).1 hs
  rw [visit_of_none hs]
  refine ⟨hc.length, hc.first, fun k => ?_, fun k s hk => ?_⟩
  · by_cases hkey : v.key = k
    · subst hkey
      simp [home_append_of_none hhome]
    · rw [home_append_ne hkey, ← hc.absent]
      simp [Ne.symm hkey]
  · by_cases hkey : v.key = k
    · subst hkey
      simp only [Function.update_self, Option.some.injEq] at hk
      refine ⟨v.array, home_append_of_none hhome, hk ▸ ⟨rfl, hitems ▸ Nat.le_refl _, ?_⟩⟩
      rw [hitems]
      exact (hc.first v.array).length_le
    · rw [home_append_ne hkey]
      exact hc.slice k s (by simpa [Ne.symm hkey] using hk)

/-- A later one. -/
theorem Consistent.visit_again {h : Heap κ α} (hc : Consistent base arrays vs h) {s : Slice α}
    (hs : h.slices v.key = some s) : Consistent base arrays (vs ++ [v]) (h.visit v) := by
  obtain ⟨i, hhome, hin⟩ := hc.slice v.key s hs
  have hext := Slice.union_extends hin v.items
  rw [visit_of_some hs]
  refine ⟨fun j => (hext.length j).trans (hc.length j), fun j => ?_, fun k => ?_, fun k t hk => ?_⟩
  · by_cases hj : j = i
    · subst hj
      exact isPrefix_of_take (hc.first j) hext.first
    · simpa only [hext.others j hj] using hc.first j
  · rw [home_append_of_slice hc hs, ← hc.absent]
    by_cases hkey : k = v.key
    · subst hkey
      simp [hs]
    · simp [hkey]
  · rw [home_append_of_slice hc hs]
    by_cases hkey : k = v.key
    · subst hkey
      simp only [Function.update_self, Option.some.injEq] at hk
      exact ⟨i, hhome, hk ▸ hext.slice⟩
    · obtain ⟨j, hj, ht⟩ := hc.slice k t (by simpa [hkey] using hk)
      refine ⟨j, hj, ?_⟩
      cases t with
      | own cells => trivial
      | shared k len =>
          obtain ⟨rfl, hn, hlen⟩ := ht
          exact ⟨rfl, hn, by rwa [hext.length]⟩

theorem run_consistent (hvs : Based base arrays vs) : Consistent base arrays vs (Heap.run arrays vs) := by
  induction vs using List.reverseRecOn with
  | nil => exact ⟨fun _ => rfl, hvs.first, fun _ => by simp [Heap.run, home], fun _ _ h => by cases h⟩
  | append_singleton vs v ih =>
      have ih := ih (hvs.initial (List.prefix_append vs [v]))
      rw [run_append_singleton]
      cases hs : (Heap.run arrays vs).slices v.key with
      | none => exact ih.visit_first (hvs.items v (by simp)) hs
      | some s => exact ih.visit_again hs

/-! ## Cells that hold something else -/

/-- After the visits `us`, the visit puts an item into a cell of the array `i` in which the slice of another
key has a different one. -/
def Clash (arrays : Arrays α) (i : Nat) (us : List (Visit κ α)) (v : Visit κ α) : Prop :=
  home us v.key = some i ∧ ∃ l, mergedItems us v.key = some l ∧
    ∃ k m, k ≠ v.key ∧ home us k = some i ∧ mergedItems us k = some m ∧ m.length ≤ (arrays i).length ∧
      ∃ j x y, l.length ≤ j ∧ (union l v.items)[j]? = some x ∧ m[j]? = some y ∧ x ≠ y

/-- No visit does. -/
def Clashless (arrays : Arrays α) (i : Nat) (vs : List (Visit κ α)) : Prop :=
  ∀ us v, us ++ [v] <+: vs → ¬Clash arrays i us v

/-- It takes two slices in one array. -/
theorem clashless_of_sole (h : ∀ k k', home vs k = some i → home vs k' = some i → k = k') : Clashless arrays i vs := by
  rintro us v hsub ⟨hhome, -, -, k, -, hne, hk, -⟩
  have hus : us <+: vs := (List.prefix_append us [v]).trans hsub
  exact hne (h k v.key (home_of_initial hus hk) (home_of_initial hus hhome))

/-- What holds of the slices of the array `i` as long as no visit clashes. -/
def Separate (i : Nat) (vs : List (Visit κ α)) (h : Heap κ α) : Prop :=
  ∀ k, home vs k = some i → h.content k = mergedItems vs k

theorem Separate.visit_first {h : Heap κ α} (hsep : Separate i vs h) (hc : Consistent base arrays vs h)
    (hitems : v.items = base v.array) (hs : h.slices v.key = none) : Separate i (vs ++ [v]) (h.visit v) := by
  intro k hk
  rw [visit_of_none hs]
  by_cases hkey : v.key = k
  · subst hkey
    have hmerged := mergedItems_eq_none.2 ((hc.absent v.key).1 hs)
    rw [mergedItems_append_self, hmerged]
    simp [Heap.content, Slice.read, hitems, List.prefix_iff_eq_take.1 (hc.first v.array) |>.symm]
  · rw [home_append_ne hkey] at hk
    rw [mergedItems_append_ne hkey, ← hsep k hk]
    simp [Heap.content, Ne.symm hkey]

theorem Separate.visit_again {h : Heap κ α} (hsep : Separate i vs h) (hc : Consistent base arrays vs h) {s : Slice α}
    (hs : h.slices v.key = some s) (hclash : ¬Clash arrays i vs v) : Separate i (vs ++ [v]) (h.visit v) := by
  intro k hk
  obtain ⟨j, hhome, hin⟩ := hc.slice v.key s hs
  rw [home_append_of_slice hc hs] at hk
  have hread := hsep k hk
  rw [visit_of_some hs]
  by_cases hkey : k = v.key
  · subst hkey
    rw [Heap.content, hs, Option.map_some] at hread
    rw [mergedItems_append_self, ← hread]
    simp [Heap.content, Slice.read_union hin]
  · rw [mergedItems_append_ne (Ne.symm hkey), ← hread]
    cases ht : h.slices k with
    | none => simp [Heap.content, hkey, ht]
    | some t =>
        obtain ⟨i', hi', htin⟩ := hc.slice k t ht
        rw [hk, Option.some.injEq] at hi'
        subst hi'
        simp only [Heap.content, Function.update_of_ne hkey, ht, Option.map_some, Option.some.injEq]
        cases t with
        | own cells => rfl
        | shared i' len =>
            obtain ⟨rfl, -, hlen⟩ := htin
            by_cases hj : j = i'
            · subst hj
              have hown := hsep v.key hhome
              rw [Heap.content, hs, Option.map_some] at hown
              rw [Heap.content, ht, Option.map_some] at hread
              refine Slice.read_union_other hin fun m x y hm hx hy => ?_
              by_contra hne
              refine hclash ⟨hhome, _, hown.symm, k, _, hkey, hk, hread.symm, ?_, m, y, x, hm, hy, hx, Ne.symm hne⟩
              rw [Slice.read, List.length_take, ← hc.length j]
              exact Nat.min_le_right ..
            · have hsame := (Slice.union_extends hin v.items).others i' (Ne.symm hj)
              simp [Slice.read, hsame]

/-- As long as no visit clashes, the slices that start in the array read as the unions of their own items. -/
theorem content_run_of_clashless (hvs : Based base arrays vs) (hclash : Clashless arrays i vs) :
    Separate i vs (Heap.run arrays vs) := by
  induction vs using List.reverseRecOn with
  | nil => exact fun k hk => by cases hk
  | append_singleton vs v ih =>
      have hvs' := hvs.initial (List.prefix_append vs [v])
      have ih := ih hvs' fun us w hsub => hclash us w (hsub.trans (List.prefix_append vs [v]))
      have hc := run_consistent hvs'
      rw [run_append_singleton]
      cases hs : (Heap.run arrays vs).slices v.key with
      | none => exact ih.visit_first hc (hvs.items v (by simp)) hs
      | some s => exact ih.visit_again hc hs (hclash vs v List.prefix_rfl)

/-! ## The slices of one array -/

/-- The visits under the keys of an array, all moved to one address. -/
def group (vs : List (Visit κ α)) (i : Nat) : List (Visit κ α) :=
  (vs.filter fun v => home vs v.key = some i).map fun v => { v with array := 0 }

/-- The array `i` of one heap, with the slices of some keys, is the only array of the other. -/
structure Mirrors (keys : κ → Prop) (i : Nat) (h g : Heap κ α) : Prop where
  array : g.arrays 0 = h.arrays i
  slices : ∀ k, keys k → g.slices k = (h.slices k).map (Slice.relabel 0)

theorem Mirrors.visit {keys : κ → Prop} {h g : Heap κ α} (hm : Mirrors keys i h g)
    (hc : Consistent base arrays us h) (hkey : keys v.key) (hhome : ∀ j, home us v.key = some j → j = i) :
    Mirrors keys i (h.visit v) (g.visit { v with array := 0 }) := by
  have hslice := hm.slices v.key hkey
  cases hs : h.slices v.key with
  | none =>
      rw [hs, Option.map_none] at hslice
      rw [visit_of_none hs, visit_of_none (v := { v with array := 0 }) hslice]
      refine ⟨hm.array, fun k hk => ?_⟩
      by_cases hne : k = v.key
      · subst hne
        simp [Slice.relabel]
      · simpa [hne] using hm.slices k hk
  | some s =>
      rw [hs, Option.map_some] at hslice
      obtain ⟨j, hj, hin⟩ := hc.slice v.key s hs
      obtain rfl := hhome j hj
      obtain ⟨hunion, harray⟩ := Slice.union_relabel hin hm.array v.items
      rw [visit_of_some hs, visit_of_some (v := { v with array := 0 }) hslice]
      refine ⟨harray, fun k hk => ?_⟩
      by_cases hne : k = v.key
      · subst hne
        simp [hunion]
      · simpa [hne] using hm.slices k hk

theorem Mirrors.visit_other {keys : κ → Prop} {h g : Heap κ α} (hm : Mirrors keys i h g)
    (hc : Consistent base arrays us h) (hkey : ¬keys v.key) (hhome : home us v.key ≠ some i) :
    Mirrors keys i (h.visit v) g := by
  have hother : ∀ {k}, keys k → k ≠ v.key := fun hk heq => hkey (heq ▸ hk)
  cases hs : h.slices v.key with
  | none =>
      rw [visit_of_none hs]
      exact ⟨hm.array, fun k hk => by simpa [hother hk] using hm.slices k hk⟩
  | some s =>
      obtain ⟨j, hj, hin⟩ := hc.slice v.key s hs
      have hne : i ≠ j := fun heq => hhome (heq ▸ hj)
      rw [visit_of_some hs]
      exact ⟨hm.array.trans ((Slice.union_extends hin v.items).others i hne).symm,
        fun k hk => by simpa [hother hk] using hm.slices k hk⟩

/-- The slices of the array `i` become what they become by themselves. -/
theorem run_group (hvs : Based base arrays vs) (i : Nat) :
    Mirrors (fun k => home vs k = some i) i (Heap.run arrays vs) (Heap.run (fun _ => arrays i) (group vs i)) := by
  have hpart : ∀ us, us <+: vs → Mirrors (fun k => home vs k = some i) i (Heap.run arrays us)
      (Heap.run (fun _ => arrays i)
        ((us.filter fun v => home vs v.key = some i).map fun v => { v with array := 0 })) := by
    intro us
    induction us using List.reverseRecOn with
    | nil => exact fun _ => ⟨rfl, fun _ _ => rfl⟩
    | append_singleton us v ih =>
        intro hsub
        have hus : us <+: vs := (List.prefix_append us [v]).trans hsub
        have hcons := run_consistent (hvs.initial hus)
        rw [run_append_singleton]
        by_cases hkey : home vs v.key = some i
        · simp only [List.filter_append, List.map_append, List.filter_cons, List.filter_nil, hkey, decide_true,
            if_true, List.map_cons, List.map_nil, run_append_singleton]
          refine (ih hus).visit hcons hkey fun j hj => ?_
          have hwhole := home_of_initial hus hj
          rw [hkey, Option.some.injEq] at hwhole
          exact hwhole.symm
        · simp only [List.filter_append, List.filter_cons, List.filter_nil, hkey, decide_false, Bool.false_eq_true,
            if_false, List.append_nil]
          exact (ih hus).visit_other hcons hkey fun hhome => hkey (home_of_initial hus hhome)
  exact hpart vs List.prefix_rfl

/-- Two runs over the same visits to an array and the same cells of it read the same there, whatever else
they do and wherever the array stands. -/
theorem content_run_of_group {vs' : List (Visit κ α)} {arrays' : Arrays α} {base' : Nat → List α} {i' : Nat}
    (hvs : Based base arrays vs) (hvs' : Based base' arrays' vs') (hgroup : group vs i = group vs' i')
    (harrays : arrays i = arrays' i') (hk : home vs k = some i) (hk' : home vs' k = some i') :
    (Heap.run arrays vs).content k = (Heap.run arrays' vs').content k := by
  have hread : ∀ {vs : List (Visit κ α)} {arrays : Arrays α} {base : Nat → List α} {i : Nat},
      Based base arrays vs → home vs k = some i → (Heap.run arrays vs).content k =
        (Heap.run (fun _ => arrays i) (group vs i)).content k := by
    intro vs arrays base i hvs hk
    have hm := run_group hvs i
    have hslice := hm.slices k hk
    unfold Heap.content
    rw [hslice]
    cases hs : (Heap.run arrays vs).slices k with
    | none => rfl
    | some s =>
        obtain ⟨j, hj, hin⟩ := (run_consistent hvs).slice k s hs
        rw [hk, Option.some.injEq] at hj
        subst hj
        simp [Slice.read_relabel hin hm.array]
  rw [hread hvs hk, hread hvs' hk', hgroup, harrays]

omit [DecidableEq α] in
theorem home_map_array (σ : Nat → Nat) :
    home (vs.map fun v => { v with array := σ v.array }) k = (home vs k).map σ := by
  simp [home, List.filter_map, Function.comp_def]

/-- Where the arrays stand makes no difference. -/
theorem content_run_of_places {σ : Nat → Nat} (hσ : Function.Injective σ) {arrays' : Arrays α} {base' : Nat → List α}
    (hvs : Based base arrays vs) (hvs' : Based base' arrays' (vs.map fun v => { v with array := σ v.array }))
    (harrays : ∀ v ∈ vs, arrays v.array = arrays' (σ v.array)) (k : κ) : (Heap.run arrays vs).content k =
      (Heap.run arrays' (vs.map fun v => { v with array := σ v.array })).content k := by
  have hhome : home (vs.map fun v => { v with array := σ v.array }) k = (home vs k).map σ := home_map_array σ
  cases hk : home vs k with
  | none =>
      rw [hk, Option.map_none] at hhome
      simp [Heap.content, ((run_consistent hvs).absent k).2 hk, ((run_consistent hvs').absent k).2 hhome]
  | some i =>
      rw [hk, Option.map_some] at hhome
      obtain ⟨v, hv, -, rfl⟩ := mem_of_home hk
      refine content_run_of_group hvs hvs' ?_ (harrays v hv) hk hhome
      unfold group
      rw [List.filter_map, List.map_map]
      refine congrArg (List.map _) (List.filter_congr fun w _ => ?_)
      simp [home_map_array, hσ.eq_iff]

end Visits

end TrustAnchor.Lib
