import TrustAnchor.Ingest.Lemmas.WellFormed
import TrustAnchor.Ingest.Symbolic

/-!
# Well-formed snapshots

Whatever a run serves or stores has the form that lookups, diffs and ids rely on.
-/

namespace TrustAnchor.Ingest

open Lib Tsl Trust

variable {rt : Runtime}

/-- The form of a snapshot, as its readers rely on it. -/
structure Tidy (rt : Runtime) (s : Snapshot) : Prop where
  codes : (s.territories.map Territory.code).Pairwise (· < ·)
  fingerprints : ∀ t ∈ s.territories, (t.anchors.map Anchor.fingerprintSHA256).Nodup
  anchors : ∀ t ∈ s.territories, ∀ a ∈ t.anchors, a.territory = t.code ∧ a.source = sourceTL
  failed : ∀ t ∈ s.territories, t.failed = true → t.anchors = [] ∧ t.carriedOver = false
  pendingNodup : (s.pending.map pendingPair).Nodup
  pendingInactive : ∀ pa ∈ s.pending, ¬ ActiveIn s pa.anchor.territory pa.anchor.fingerprintSHA256
  pendingTerritory : ∀ pa ∈ s.pending, ∃ t ∈ s.territories, t.code = pa.anchor.territory ∧ t.failed = false
  internal : s.internal.Pairwise internalLt
  id : s.id = computeID rt s

theorem WellFormed.tidy {s : Snapshot} (h : WellFormed rt s) : Tidy rt s where
  codes := h.codes
  fingerprints := h.orderly.entries.fingerprints
  anchors t ht a ha := by
    obtain ⟨hterritory, hsource, -⟩ := h.orderly.entries.anchors t ht a ha
    exact ⟨hterritory, hsource⟩
  failed t ht hfailed := by
    rw [(h.entries t ht).failed hfailed]
    exact ⟨rfl, rfl⟩
  pendingNodup := h.orderly.pendingNodup
  pendingInactive := h.orderly.disjoint
  pendingTerritory := h.pendingTerritory
  internal := h.internalSorted
  id := h.id

/-- In every run, what is served and what is stored is well-formed. -/
theorem run_tidy (ops : List (Config × Op)) (maxSize : Int) {s : Snapshot}
    (h : s ∈ ((Service.empty maxSize).run rt ops).active ∨
      s ∈ ((Service.empty maxSize).run rt ops).store.snapshot) : Tidy rt s := by
  have htraced : Traced rt (fun _ => True) (WellFormed rt) ((Service.empty maxSize).run rt ops) :=
    .of_run (wellFormed_kept rt) (fun _ _ => trivial) maxSize
  rcases h with h | h
  · exact (htraced.of_active s h).tidy
  · exact (htraced.stored s h).tidy

open Symbolic in
/-- A run in hold mode, with an addition held. -/
theorem run_tidy_growing :
    ∃ s, (growing.run (config ["EE"] .hold 0) growingOps).active = some s ∧ s.pending ≠ [] ∧
      Tidy growing.runtime s := by
  have hrun : (growing.run (config ["EE"] .hold 0) growingOps).active.any fun s => s.pending ≠ [] := by
    decide +kernel
  obtain ⟨s, hs, hpending⟩ := (Option.any_eq_true _ _).1 hrun
  exact ⟨s, hs, of_decide_eq_true hpending, run_tidy _ 100 (.inl hs)⟩

end TrustAnchor.Ingest
