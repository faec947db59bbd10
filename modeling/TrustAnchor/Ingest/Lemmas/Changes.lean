import TrustAnchor.Ingest.Lemmas.Hold

/-!
# What counts as a change

A cycle counts as a change by the id of its snapshot, by what it holds and by the state of its territories. Here this
is a relation of snapshots, and what is stored is compared with what is served by it.
-/

namespace TrustAnchor.Ingest

open Lib Tsl Trust

variable {s s' s'' : Snapshot} {t t' t'' : Territory}

/-! ## The comparisons of the code -/

/-- Reports of skipped services are equal if they have the same keys, each as often. -/
theorem skippedEqual_iff {a b : List SkippedService} :
    Service.skippedEqual a b = true ↔ (a.map Service.skippedKey).Perm (b.map Service.skippedKey) := by
  unfold Service.skippedEqual
  split_ifs with hlength
  · simp only [false_iff]
    intro hperm
    exact hlength (by simpa using hperm.length_eq)
  · rw [Counter.takeAll_tally]
    constructor
    · intro hsub
      exact (hsub.perm_of_length_le (by simp [not_not.1 hlength])).symm
    · intro hperm
      exact hperm.symm.subperm

theorem pendingEqual_iff {a b : List PendingAnchor} :
    Service.pendingEqual a b = true ↔ a.map pendingPair = b.map pendingPair := by
  have hswap : ∀ l : List PendingAnchor, l.map pendingPair =
      (l.map fun p => (p.anchor.fingerprintSHA256, p.anchor.territory)).map Prod.swap := by
    intro l
    rw [List.map_map]
    rfl
  rw [Service.pendingEqual, decide_eq_true_eq, hswap, hswap, List.map_inj_right fun _ _ h => Prod.swap_injective h]

/-! ## Unchanged snapshots -/

/-- Two entries report the same state of a territory. -/
structure SameState (t t' : Territory) : Prop where
  carriedOver : t'.carriedOver = t.carriedOver
  tlSequence : t'.tlSequence = t.tlSequence
  failed : t'.failed = t.failed
  failureReason : t'.failureReason = t.failureReason
  skipped : (t.skipped.map Service.skippedKey).Perm (t'.skipped.map Service.skippedKey)

theorem SameState.refl (t : Territory) : SameState t t := ⟨rfl, rfl, rfl, rfl, .refl _⟩

theorem SameState.trans (h : SameState t t') (h' : SameState t' t'') : SameState t t'' :=
  ⟨h'.carriedOver.trans h.carriedOver, h'.tlSequence.trans h.tlSequence, h'.failed.trans h.failed,
    h'.failureReason.trans h.failureReason, h.skipped.trans h'.skipped⟩

/-- The later snapshot has the id of the earlier one, holds the same additions and reports the same state of its
territories. -/
structure Unchanged (s s' : Snapshot) : Prop where
  id : s'.id = s.id
  pending : s'.pending.map pendingPair = s.pending.map pendingPair
  territories : ∀ t ∈ s'.territories, ∃ t₀, s.territory t.code = some t₀ ∧ SameState t₀ t

theorem Unchanged.refl (h : (s.territories.map Territory.code).Nodup) : Unchanged s s := by
  refine ⟨rfl, rfl, fun t ht => ⟨t, ?_, .refl t⟩⟩
  cases hfind : s.territory t.code with
  | none => exact absurd (List.find?_eq_none.1 hfind t ht) (by simp)
  | some t₀ =>
      have hcode : t₀.code = t.code := by simpa using List.find?_some hfind
      rw [List.inj_on_of_nodup_map h (List.mem_of_find?_eq_some hfind) ht hcode]

theorem Unchanged.trans (h : Unchanged s s') (h' : Unchanged s' s'') : Unchanged s s'' := by
  refine ⟨h'.id.trans h.id, h'.pending.trans h.pending, fun t ht => ?_⟩
  obtain ⟨t₁, ht₁, hsame'⟩ := h'.territories t ht
  obtain ⟨t₀, ht₀, hsame⟩ := h.territories t₁ (List.mem_of_find?_eq_some ht₁)
  have hcode : t₁.code = t.code := by simpa using List.find?_some ht₁
  exact ⟨t₀, hcode ▸ ht₀, hsame.trans hsame'⟩

theorem territoryStateChanged_eq_false_iff : Service.territoryStateChanged s s' = false ↔
    ∀ t ∈ s'.territories, ∃ t₀, s.territory t.code = some t₀ ∧ SameState t₀ t := by
  unfold Service.territoryStateChanged
  rw [List.any_eq_false]
  refine forall₂_congr fun t _ => ?_
  cases hfind : s.territory t.code with
  | none => simp
  | some t₀ =>
      simp only [Option.some.injEq, exists_eq_left', Bool.not_eq_true, Bool.or_eq_false_iff, decide_eq_false_iff_not,
        not_not, Bool.not_eq_false', skippedEqual_iff, ne_eq]
      constructor
      · rintro ⟨⟨⟨⟨hcarried, hsequence⟩, hfailed⟩, hreason⟩, hskipped⟩
        exact ⟨hcarried.symm, hsequence.symm, hfailed.symm, hreason.symm, hskipped⟩
      · intro h
        exact ⟨⟨⟨⟨h.carriedOver.symm, h.tlSequence.symm⟩, h.failed.symm⟩, h.failureReason.symm⟩, h.skipped⟩

/-- A cycle that does not count as a change. -/
theorem cycleChanged_eq_false_iff : Service.cycleChanged (some s) s' = false ↔ Unchanged s s' := by
  simp only [Service.cycleChanged, Bool.or_eq_false_iff, decide_eq_false_iff_not, ne_eq, not_not, Bool.not_eq_false',
    pendingEqual_iff, territoryStateChanged_eq_false_iff]
  constructor
  · rintro ⟨⟨hid, hpending⟩, hterritories⟩
    exact ⟨hid, hpending.symm, hterritories⟩
  · rintro ⟨hid, hpending, hterritories⟩
    exact ⟨⟨hid, hpending.symm⟩, hterritories⟩

/-- What the store keeps of a snapshot. -/
def unloaded (s : Snapshot) : Snapshot := { s with declaredLoad := none }

theorem Unchanged.of_unloaded (heq : unloaded s = unloaded s') (h : Unchanged s' s'') : Unchanged s s'' := by
  have hid : (unloaded s).id = (unloaded s').id := by rw [heq]
  have hpending : (unloaded s).pending = (unloaded s').pending := by rw [heq]
  have hterritories : (unloaded s).territories = (unloaded s').territories := by rw [heq]
  refine ⟨h.id.trans hid.symm, h.pending.trans (congrArg _ hpending.symm), ?_⟩
  intro t ht
  obtain ⟨t₀, ht₀, hsame⟩ := h.territories t ht
  refine ⟨t₀, ?_, hsame⟩
  rw [Snapshot.territory] at ht₀ ⊢
  rw [← ht₀]
  exact congrArg _ hterritories

end TrustAnchor.Ingest
