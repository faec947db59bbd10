import TrustAnchor.Ingest.Lemmas.Activations
import TrustAnchor.Ingest.Lemmas.Failed
import TrustAnchor.Ingest.Lemmas.Hold
import TrustAnchor.Trust.Lemmas.Bundle
import TrustAnchor.Trust.Lemmas.Projection

/-!
# What every snapshot of a run is like

The order of its lists, what a failed entry is, and where its anchors come from.
-/

namespace TrustAnchor.Ingest

open Lib Tsl Trust

variable {rt : Runtime} {cfg : Config} {cy : Cycle} {prev : Option Snapshot} {s next : Snapshot}
  {t : Territory} {a : Anchor} {code : String}

/-! ## Entries -/

/-- An entry as the pipeline makes it. -/
structure Regular (rt : Runtime) (t : Territory) : Prop where
  failed : t.failed = true → t = { code := t.code, failed := true, failureReason := t.failureReason }
  sorted : t.anchors.Pairwise anchorLe
  readable : ∀ a ∈ t.anchors, Readable rt a

theorem Regular.anchors_of_failed (h : Regular rt t) (hfailed : t.failed = true) : t.anchors = [] := by
  rw [h.failed hfailed]

theorem Regular.digest_of_failed (h : Regular rt t) (hfailed : t.failed = true) : t.sourceDigest = "" := by
  rw [h.failed hfailed]

theorem regular_failedTerritory (code : String) (e : Err) : Regular rt (failedTerritory code e) :=
  ⟨fun _ => rfl, by simp [failedTerritory], by simp [failedTerritory]⟩

theorem regular_readTerritory {src : NationalTLSource} {clock : Time} {raw : Raw} {signersDER : List Bytes}
    (h : readTerritory rt src clock raw signersDER = .ok t) : Regular rt t := by
  obtain ⟨tl, anchors, warnings, -, hex, rfl⟩ := readTerritory_ok h
  refine ⟨nofun, ?_, ?_⟩
  · -- the sequence number has no part in the order
    refine List.pairwise_map.2 ((extractAnchors_sorted hex).imp ?_)
    intro a b hab
    simpa only [anchorLe] using hab
  · intro a ha
    obtain ⟨a₀, ha₀, rfl⟩ := List.mem_map.1 ha
    obtain ⟨hkey, htype⟩ := extractAnchors_readable hex a₀ ha₀
    exact ⟨hkey, htype⟩

theorem regular_ingestTerritory {ps : PointerSet} {f : Fetcher}
    (hprev : ∀ p ∈ prev, ∀ t ∈ p.territories, Regular rt t)
    (h : (ingestTerritory rt cfg cy ps code prev f).1 = .ok t) : Regular rt t := by
  have hblank : ∀ p ∈ prev, FailedBlank p := fun p hp t ht => (hprev p hp t ht).digest_of_failed
  have hhealthy := ingestTerritory_not_failed hblank h
  obtain ⟨p, pt, rfl, hpt, hsame⟩ | ⟨lp, raw, -, hread⟩ := ingestTerritory_ok h
  · obtain ⟨-, hsorted, hreadable⟩ := hprev p rfl pt (List.mem_of_find?_eq_some hpt)
    exact ⟨by simp [hhealthy], by rwa [hsame.anchors], by rwa [hsame.anchors]⟩
  · exact regular_readTerritory hread

theorem Regular.heldEntry {now : Time} (h : Regular rt t) : Regular rt (heldEntry cfg prev now t) := by
  refine ⟨fun hfailed => ?_, ?_, ?_⟩
  · rw [heldEntry_failed] at hfailed
    rw [h.failed hfailed]
    unfold Ingest.heldEntry
    split <;> rfl
  · unfold Ingest.heldEntry
    split
    · exact h.sorted.sublist List.filter_sublist
    · exact h.sorted
  · exact fun a ha => h.readable a (mem_of_mem_heldEntry ha)

theorem regular_outcomes {ps : PointerSet} {codes : List String} {f : Fetcher}
    (hprev : ∀ p ∈ prev, ∀ t ∈ p.territories, Regular rt t)
    (ht : t ∈ (outcomes rt cfg cy ps prev codes f).map entryOf) : Regular rt t := by
  obtain ⟨⟨c, r⟩, ho, rfl⟩ := List.mem_map.1 ht
  obtain ⟨g, -, hr⟩ := mem_outcomes ho
  cases r with
  | error e => exact regular_failedTerritory c e
  | ok t => exact regular_ingestTerritory hprev hr.symm

theorem Regular.withAnchor (h : Regular rt t) (hhealthy : t.failed = false) (ha : Readable rt a) :
    Regular rt (withAnchor t a) := by
  refine ⟨fun hfailed => ?_, List.pairwise_insertionSort anchorLe _, ?_⟩
  · rw [show (Ingest.withAnchor t a).failed = t.failed from rfl, hhealthy] at hfailed
    cases hfailed
  · intro b hb
    rcases mem_withAnchor.1 hb with hb | rfl
    · exact h.readable b hb
    · exact ha

/-! ## Codes -/

theorem expandTerritories_sorted (configured : List String) (ps : PointerSet) :
    (expandTerritories configured ps).Pairwise (· < ·) :=
  ((List.pairwise_insertionSort (· ≤ ·) _).and (expandTerritories_nodup configured ps)).imp fun h =>
    lt_of_le_of_ne h.1 h.2

theorem moveToTerritory_sorted (h : (s.territories.map Territory.code).Pairwise (· < ·)) :
    ((Service.moveToTerritory s a).map Territory.code).Pairwise (· < ·) := by
  have hnodup : ((Service.moveToTerritory s a).map Territory.code).Nodup :=
    moveToTerritory_codes (h.imp fun hlt => hlt.ne)
  obtain ⟨ts, t₀, us, hs, -, heq⟩ | ⟨-, heq⟩ := moveToTerritory_cases s a <;> rw [heq] at hnodup ⊢
  · simpa [hs] using h
  · have htotal : Std.Total fun t u : Territory => t.code ≤ u.code :=
      inferInstanceAs (Std.Total (keyLe Territory.code))
    have htrans : IsTrans Territory fun t u => t.code ≤ u.code :=
      inferInstanceAs (IsTrans Territory (keyLe Territory.code))
    have hle := List.pairwise_map.2 (List.pairwise_insertionSort (fun t u : Territory => t.code ≤ u.code)
      (s.territories ++ [Ingest.withAnchor { code := a.territory } a]))
    exact (hle.and hnodup).imp fun h => lt_of_le_of_ne h.1 h.2

/-! ## Snapshots -/

/-- A snapshot as a run makes it. -/
structure WellFormed (rt : Runtime) (s : Snapshot) : Prop where
  orderly : Orderly rt s
  codes : (s.territories.map Territory.code).Pairwise (· < ·)
  entries : ∀ t ∈ s.territories, Regular rt t
  pendingReadable : ∀ pa ∈ s.pending, Readable rt pa.anchor
  pendingTerritory : ∀ pa ∈ s.pending, ∃ t ∈ s.territories, t.code = pa.anchor.territory ∧ t.failed = false
  internal : ∀ a ∈ s.internal, Declared rt a
  internalSorted : s.internal.Pairwise internalLt
  id : s.id = computeID rt s

theorem WellFormed.unloaded (h : WellFormed rt s) : WellFormed rt { s with declaredLoad := none } :=
  ⟨⟨h.orderly.entries, h.orderly.pending, h.orderly.pendingNodup, h.orderly.disjoint⟩, h.codes, h.entries,
    h.pendingReadable, h.pendingTerritory, h.internal, h.internalSorted, h.id⟩

theorem WellFormed.failedBlank (h : WellFormed rt s) : FailedBlank s :=
  fun t ht => (h.entries t ht).digest_of_failed

theorem declaredSet_wellFormed {readFile : String → Except String Bytes} {path : String} {now : Time}
    {configured : Bool} {prevSet : List Anchor}
    (hprev : (∀ a ∈ prevSet, Declared rt a) ∧ prevSet.Pairwise internalLt) :
    (∀ a ∈ (declaredSet configured prevSet (loadInternal rt readFile path now)).1, Declared rt a) ∧
      (declaredSet configured prevSet (loadInternal rt readFile path now)).1.Pairwise internalLt := by
  cases h : loadInternal rt readFile path now with
  | error e => exact hprev
  | ok set => exact loadInternal_spec h

theorem refresh_wellFormed {boot : Bootstrap} {f f' : Fetcher} (hprev : ∀ p ∈ prev, WellFormed rt p)
    (h : refresh rt cfg cy prev boot f = (.ok next, f')) : WellFormed rt next := by
  have horderly := refresh_orderly (fun p hp => (hprev p hp).orderly) h
  obtain ⟨res, f₁, outs, -, -, houts, -, rfl⟩ := refresh_ok h
  have hentries : OrderlyEntries rt (outs.map entryOf) := by
    rw [houts]
    exact outcomes_orderly (fun p hp => (hprev p hp).orderly) (expandTerritories_nodup _ _)
  have hregular : ∀ t ∈ outs.map entryOf, Regular rt t := by
    rw [houts]
    exact fun t ht => regular_outcomes (fun p hp => (hprev p hp).entries) ht
  have hinternal : (∀ a ∈ (prev.map (·.internal)).getD [], Declared rt a) ∧
      ((prev.map (·.internal)).getD []).Pairwise internalLt := by
    cases prev with
    | none => simp
    | some p => exact ⟨(hprev p rfl).internal, (hprev p rfl).internalSorted⟩
  refine ⟨horderly, ?_, ?_, ?_, ?_, ?_, ?_, rfl⟩
  · rw [stamp_territories, applyHoldMode_territories, cycleBase_territories, List.map_map]
    have hheld : Territory.code ∘ heldEntry cfg prev cy.now = Territory.code := funext fun _ => heldEntry_code
    rw [hheld, houts, outcomes_map_code]
    exact expandTerritories_sorted _ _
  · intro t ht
    rw [stamp_territories, applyHoldMode_territories, cycleBase_territories] at ht
    obtain ⟨t₀, ht₀, rfl⟩ := List.mem_map.1 ht
    exact (hregular t₀ ht₀).heldEntry
  · intro pa hpa
    obtain hnil | ⟨t, ht, ha⟩ := mem_applyHoldMode_pending hpa
    · cases hnil
    · exact (hregular t ht).readable _ ha
  · intro pa hpa
    obtain hnil | ⟨t, ht, ha⟩ := mem_applyHoldMode_pending hpa
    · cases hnil
    · refine ⟨heldEntry cfg prev cy.now t, ?_, ?_, ?_⟩
      · rw [stamp_territories, applyHoldMode_territories]
        exact List.mem_map_of_mem ht
      · rw [heldEntry_code, (hentries.anchors t ht _ ha).territory]
      · rw [heldEntry_failed]
        by_contra hfailed
        rw [(hregular t ht).anchors_of_failed (by simpa using hfailed)] at ha
        cases ha
  · rw [stamp_internal, applyHoldMode_internal, cycleBase_internal]
    exact (declaredSet_wellFormed hinternal).1
  · rw [stamp_internal, applyHoldMode_internal, cycleBase_internal]
    exact (declaredSet_wellFormed hinternal).2

theorem WellFormed.approve {fp : String} {pa : PendingAnchor} {now : Time} (h : WellFormed rt s)
    (hpa : s.pending.find? (fun pa => pa.anchor.fingerprintSHA256 = fp) = some pa) :
    WellFormed rt (Service.approve rt s { s with declaredLoad := none } pa.anchor now) := by
  have hmem := List.mem_of_find?_eq_some hpa
  refine ⟨h.orderly.approve hpa, moveToTerritory_sorted h.codes, ?_, ?_, ?_, h.internal, h.internalSorted, rfl⟩
  · intro t ht
    have hreadable := h.pendingReadable pa hmem
    obtain ht | ⟨t₀, ht₀ | rfl, hcode, rfl⟩ := mem_moveToTerritory ht
    · exact h.entries t ht
    · -- the addition was held for an entry that is not failed, and there is one entry for its territory
      obtain ⟨t₁, ht₁, hcode₁, hhealthy⟩ := h.pendingTerritory pa hmem
      obtain rfl : t₀ = t₁ := List.inj_on_of_nodup_map h.orderly.entries.codes ht₀ ht₁ (hcode.trans hcode₁.symm)
      exact (h.entries t₀ ht₀).withAnchor hhealthy hreadable
    · refine Regular.withAnchor ⟨nofun, by simp, by simp⟩ rfl hreadable
  · exact fun p hp => h.pendingReadable p (List.mem_of_mem_eraseP hp)
  · intro p hp
    obtain ⟨t, ht, hcode, hhealthy⟩ := h.pendingTerritory p (List.mem_of_mem_eraseP hp)
    obtain ⟨t', ht', hcode', hfailed, -⟩ := exists_mem_moveToTerritory (a := pa.anchor) ht
    exact ⟨t', ht', hcode'.trans hcode, hfailed.trans hhealthy⟩

theorem wellFormed_kept (rt : Runtime) : Kept rt (fun _ => True) (WellFormed rt) where
  unloaded h := h.unloaded
  advances _ hprev h := by
    cases h with
    | cycle h => exact refresh_wellFormed hprev h
    | @declared readFile prev next now rep h =>
        have hp := hprev prev rfl
        have hinternal := And.intro hp.internal hp.internalSorted
        obtain ⟨rfl, -⟩ := refreshDeclared_eq h
        exact ⟨⟨hp.orderly.entries, hp.orderly.pending, hp.orderly.pendingNodup, hp.orderly.disjoint⟩,
          hp.codes, hp.entries, hp.pendingReadable, hp.pendingTerritory,
          (declaredSet_wellFormed hinternal).1, (declaredSet_wellFormed hinternal).2, rfl⟩
    | approve h => exact (hprev _ rfl).approve h

/-! ## What readers of a snapshot need -/

theorem WellFormed.arranged (h : WellFormed rt s) : Arranged s where
  codes := h.orderly.entries.codes
  fingerprints := h.orderly.entries.fingerprints
  failed t ht := (h.entries t ht).anchors_of_failed
  declared := declaredPair_nodup h.internalSorted

theorem WellFormed.indexable (hsha : ∀ b, rt.sha256 b ≠ []) (h : WellFormed rt s) : Indexable (some s) where
  nodup := h.arranged.places_nodup
  proper π hπ := by
    obtain ⟨a, hplaced⟩ := mem_places.1 hπ
    obtain ⟨t, ht, ha, rfl⟩ | ⟨ha, rfl⟩ := mem_placed.1 hplaced
    · exact ⟨_, hsha _, (h.orderly.entries.anchors t ht a ha).fingerprint⟩
    · exact (h.internal a ha).type
  source π a hplaced := by
    obtain ⟨t, ht, ha, rfl⟩ | ⟨ha, rfl⟩ := mem_placed.1 hplaced
    · exact (h.orderly.entries.anchors t ht a ha).source
    · exact (h.internal a ha).source

theorem indexable_of_wellFormed (hsha : ∀ b, rt.sha256 b ≠ []) (h : ∀ p ∈ prev, WellFormed rt p) :
    Indexable prev := by
  cases prev with
  | none => exact ⟨by simp [places, placed], by simp [places, placed], by simp [placed]⟩
  | some p => exact (h p rfl).indexable hsha

theorem WellFormed.built (h : WellFormed rt s) : Built rt (spkiAlgorithm rt) s where
  failed t ht := (h.entries t ht).anchors_of_failed
  fingerprint a ha := by
    rcases List.mem_append.1 ha with ha | ha
    · obtain ⟨t, ht, ha⟩ := List.mem_flatMap.1 ha
      exact (h.orderly.entries.anchors t ht a ha).fingerprint
    · exact (h.internal a ha).fingerprint
  key a ha := by
    rcases List.mem_append.1 ha with ha | ha
    · obtain ⟨t, ht, ha⟩ := List.mem_flatMap.1 ha
      exact ((h.entries t ht).readable a ha).key
    · exact (h.internal a ha).key

end TrustAnchor.Ingest
