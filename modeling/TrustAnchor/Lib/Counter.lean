import Mathlib.Data.List.AList
import Mathlib.Data.List.Perm.Subperm

/-!
# Counters

A map of counters, filled and emptied one element at a time. A key that the map does not have reads zero.
-/

namespace TrustAnchor.Lib

variable {κ : Type} [DecidableEq κ] {k k' : κ} {ks ks' : List κ}

abbrev Counter (κ : Type) := AList fun _ : κ => Nat

namespace Counter

variable {c : Counter κ}

def read (c : Counter κ) (k : κ) : Nat := (c.lookup k).getD 0

def bump (c : Counter κ) (k : κ) : Counter κ := c.insert k (c.read k + 1)

/-- One more for each element. -/
def tally (ks : List κ) : Counter κ := ks.foldl bump ∅

/-- One less for each element, as long as there is one. -/
def takeAll : Counter κ → List κ → Bool
  | _, [] => true
  | c, k :: ks => if c.read k = 0 then false else takeAll (c.insert k (c.read k - 1)) ks

@[simp] theorem read_empty : (∅ : Counter κ).read k = 0 := rfl

@[simp] theorem read_insert (n : Nat) : read (c.insert k n) k' = if k' = k then n else c.read k' := by
  unfold read
  split_ifs with h
  · subst h
    simp
  · rw [AList.lookup_insert_ne h]

theorem read_foldl_bump : (ks.foldl bump c).read k = c.read k + ks.count k := by
  induction ks generalizing c with
  | nil => simp
  | cons a ks ih =>
      rw [List.foldl_cons, ih, bump, read_insert, List.count_cons]
      by_cases h : k = a
      · simp [h]
        omega
      · simp [h, Ne.symm h]

@[simp] theorem read_tally : (tally ks).read k = ks.count k := by
  simp [tally, read_foldl_bump]

theorem mem_foldl_bump : k ∈ ks.foldl bump c ↔ k ∈ c ∨ k ∈ ks := by
  induction ks generalizing c with
  | nil => simp
  | cons a ks ih =>
      rw [List.foldl_cons, ih, bump, AList.mem_insert, List.mem_cons]
      tauto

theorem mem_tally : k ∈ tally ks ↔ k ∈ ks := by
  simp [tally, mem_foldl_bump]

theorem takeAll_iff : takeAll c ks = true ↔ ∀ k, ks.count k ≤ c.read k := by
  induction ks generalizing c with
  | nil => simp [takeAll]
  | cons a ks ih =>
      simp only [takeAll, List.count_cons]
      split_ifs with ha
      · simp only [false_iff]
        intro h
        have := h a
        simp [ha] at this
      · rw [ih]
        refine forall_congr' fun k => ?_
        by_cases h : k = a
        · subst h
          simp
          omega
        · simp [h, Ne.symm h]

/-- What is taken is part of what was counted, each as often. -/
theorem takeAll_tally : takeAll (tally ks) ks' = true ↔ ks'.Subperm ks := by
  rw [takeAll_iff, List.subperm_ext_iff]
  constructor
  · intro h k _
    simpa using h k
  · intro h k
    by_cases hk : k ∈ ks'
    · simpa using h k hk
    · simp [List.count_eq_zero_of_not_mem hk]

/-! ## Setting counters -/

/-- Sets the counter of each element to its value. -/
def store {α : Type} (key : α → κ) (value : α → Nat) (as : List α) (c : Counter κ) : Counter κ :=
  as.foldl (fun c a => c.insert (key a) (value a)) c

/-- Sets the counters that have no new value to zero, and the others to the new ones. -/
def publish (values seen : Counter κ) : Counter κ :=
  store id values.read values.keys (store id (fun _ => 0) (seen.keys.filter (· ∉ values)) seen)

variable {α : Type} {key : α → κ} {value : α → Nat} {as : List α} {values seen : Counter κ}

theorem read_of_notMem (h : k ∉ c) : c.read k = 0 := by
  rw [read, AList.lookup_eq_none.2 h]
  rfl

/-- A counter reads the value of its elements, when they agree. -/
theorem read_store {n : Nat} (h : ∀ a ∈ as, key a = k → value a = n) :
    (store key value as c).read k = if k ∈ as.map key then n else c.read k := by
  unfold store
  induction as generalizing c with
  | nil => simp
  | cons a as ih =>
      rw [List.forall_mem_cons] at h
      rw [List.foldl_cons, ih h.2, read_insert]
      by_cases hk : k ∈ as.map key
      · simp [hk]
      · by_cases ha : k = key a
        · simp [ha, h.1 ha.symm]
        · simp [hk, ha]

theorem mem_store : k ∈ store key value as c ↔ k ∈ c ∨ k ∈ as.map key := by
  unfold store
  induction as generalizing c with
  | nil => simp
  | cons a as ih =>
      rw [List.foldl_cons, ih, AList.mem_insert, List.map_cons, List.mem_cons]
      tauto

/-- Whatever the counters were, they read the new values. -/
@[simp] theorem read_publish : (publish values seen).read k = values.read k := by
  have hold : (store id (fun _ => 0) (seen.keys.filter (· ∉ values)) seen).read k =
      if k ∈ (seen.keys.filter (· ∉ values)).map id then 0 else seen.read k := read_store fun _ _ _ => rfl
  have hnew : (publish values seen).read k = if k ∈ values.keys.map id then values.read k else _ :=
    read_store fun a _ (ha : a = k) => by rw [ha]
  rw [hnew, hold, List.map_id, List.map_id]
  split_ifs with hlive hseen
  · rfl
  · rw [read_of_notMem fun hmem => hlive (AList.mem_keys.1 hmem)]
  · rw [← AList.mem_keys] at hlive
    rw [read_of_notMem hlive]
    refine read_of_notMem fun hmem => hseen ?_
    exact List.mem_filter.2 ⟨AList.mem_keys.1 hmem, by simpa using hlive⟩

theorem mem_publish : k ∈ publish values seen ↔ k ∈ seen ∨ k ∈ values := by
  simp only [publish, mem_store, List.map_id, List.mem_filter, ← AList.mem_keys]
  tauto

end Counter

end TrustAnchor.Lib
