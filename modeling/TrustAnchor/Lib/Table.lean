import TrustAnchor.Lib.Order
import Mathlib.Order.OrderDual

/-!
# Append-only tables

Rows are inserted with increasing numbers and never changed. The newest row is the one with the highest
number; the newest row of the highest rank comes first if rows are ordered by rank and then by number.
-/

namespace TrustAnchor.Lib

variable {α κ : Type} [LinearOrder κ]

/-- The rows with their numbers, and the number of the next row. -/
structure Table (α : Type) where
  rows : List (Nat × α)
  next : Nat
  increasing : (rows.map Prod.fst).Pairwise (· < ·)
  below : ∀ r ∈ rows, r.1 < next

namespace Table

variable {t : Table α} {a b : α} {k : α → κ}

def empty : Table α := ⟨[], 1, .nil, nofun⟩

/-- The contents, oldest first. -/
def contents (t : Table α) : List α := t.rows.map Prod.snd

def insert (t : Table α) (a : α) : Table α where
  rows := t.rows ++ [(t.next, a)]
  next := t.next + 1
  increasing := by
    rw [List.map_append, List.pairwise_append]
    refine ⟨t.increasing, by simp, ?_⟩
    intro n hn m hm
    obtain ⟨r, hr, rfl⟩ := List.mem_map.1 hn
    obtain rfl : m = t.next := by simpa using hm
    exact t.below r hr
  below := by
    intro r hr
    rcases List.mem_append.1 hr with hr | hr
    · exact (t.below r hr).trans t.next.lt_succ_self
    · obtain rfl := List.mem_singleton.1 hr
      exact t.next.lt_succ_self

@[simp] theorem contents_empty : (empty : Table α).contents = [] := rfl

@[simp] theorem contents_insert : (t.insert a).contents = t.contents ++ [a] := by
  simp [contents, insert]

/-! ## The first row of an order -/

/-- By number, highest first. -/
abbrev newer : Nat × α → Nat × α → Prop := keyLe fun r => OrderDual.toDual r.1

/-- By rank, highest first, then by number, highest first. -/
abbrev higher (k : α → κ) : Nat × α → Nat × α → Prop := lexLe (fun r => OrderDual.toDual (k r.2)) newer

def newest (t : Table α) : Option α := (t.rows.insertionSort newer).head?.map Prod.snd

def highest (k : α → κ) (t : Table α) : Option α := (t.rows.insertionSort (higher k)).head?.map Prod.snd

theorem eq_of_number {r r' : Nat × α} (hr : r ∈ t.rows) (hr' : r' ∈ t.rows) (h : r.1 = r'.1) : r = r' :=
  List.inj_on_of_nodup_map (t.increasing.imp ne_of_lt) hr hr' h

theorem newer_antisymm {r r' : Nat × α} (hr : r ∈ t.rows) (hr' : r' ∈ t.rows) (h : newer r r')
    (h' : newer r' r) : r = r' := eq_of_number hr hr' (le_antisymm h' h)

theorem higher_antisymm {r r' : Nat × α} (hr : r ∈ t.rows) (hr' : r' ∈ t.rows) (h : higher k r r')
    (h' : higher k r' r) : r = r' := by
  obtain ⟨-, h, h'⟩ := lexLe_antisymm h h'
  exact newer_antisymm hr hr' h h'

/-- The last row has the highest number. -/
theorem number_le_last {rs : List (Nat × α)} {r r' : Nat × α} (h : t.rows = rs ++ [r]) (hr' : r' ∈ t.rows) :
    r'.1 ≤ r.1 := by
  have hincreasing := t.increasing
  rw [h, List.map_append, List.pairwise_append] at hincreasing
  rw [h] at hr'
  rcases List.mem_append.1 hr' with hr' | hr'
  · exact (hincreasing.2.2 r'.1 (List.mem_map_of_mem hr') r.1 (by simp)).le
  · rw [List.mem_singleton.1 hr']

theorem getLast?_contents {rs : List (Nat × α)} {r : Nat × α} (h : t.rows = rs ++ [r]) :
    t.contents.getLast? = some r.2 := by
  rw [contents, h, List.map_append, List.map_singleton, List.getLast?_concat]

theorem newest_eq (t : Table α) : t.newest = t.contents.getLast? := by
  rcases t.rows.eq_nil_or_concat' with h | ⟨rs, r, h⟩
  · simp [newest, contents, h]
  · rw [getLast?_contents h, newest, Option.map_eq_some_iff]
    refine ⟨r, (head?_insertionSort fun r hr r' hr' => newer_antisymm hr hr').2 ⟨by simp [h], ?_⟩, rfl⟩
    exact fun r' hr' => number_le_last h hr'

/-- The row that comes first is of the highest rank. -/
theorem rank_le_highest (h : t.highest k = some a) : a ∈ t.contents ∧ ∀ b ∈ t.contents, k b ≤ k a := by
  obtain ⟨r, hr, rfl⟩ := Option.map_eq_some_iff.1 h
  rw [head?_insertionSort fun r hr r' hr' => higher_antisymm hr hr'] at hr
  refine ⟨List.mem_map_of_mem hr.1, fun b hb => ?_⟩
  obtain ⟨r', hr', rfl⟩ := List.mem_map.1 hb
  have hle := hr.2 r' hr'
  unfold higher lexLe at hle
  split_ifs at hle with hne
  · exact le_of_lt hle
  · exact (OrderDual.toDual_inj.1 (not_not.1 hne)).ge

/-- The last row comes first if no rank is higher than its own. -/
theorem highest_eq (h : ∀ a ∈ t.contents.getLast?, ∀ b ∈ t.contents, k b ≤ k a) :
    t.highest k = t.contents.getLast? := by
  rcases t.rows.eq_nil_or_concat' with hrows | ⟨rs, r, hrows⟩
  · simp [highest, contents, hrows]
  · have hlast := getLast?_contents hrows
    rw [hlast, highest, Option.map_eq_some_iff]
    refine ⟨r, (head?_insertionSort fun r hr r' hr' => higher_antisymm hr hr').2 ⟨by simp [hrows], ?_⟩, rfl⟩
    intro r' hr'
    have hrank : k r'.2 ≤ k r.2 := h r.2 hlast r'.2 (List.mem_map_of_mem hr')
    unfold higher lexLe
    split_ifs with hne
    · refine OrderDual.toDual_lt_toDual.2 (lt_of_le_of_ne hrank fun heq => hne ?_)
      exact congrArg OrderDual.toDual heq.symm
    · exact number_le_last hrows hr'

end Table

end TrustAnchor.Lib
