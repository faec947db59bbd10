import TrustAnchor.Ingest.Lemmas.WellFormed
import TrustAnchor.Ingest.Symbolic
import TrustAnchor.Ingest.Telemetry

/-!
# The gauges and the served snapshot

After every activation of a process, every series that the process has created reads what the snapshot that was
activated says.
-/

namespace TrustAnchor.Ingest

open Lib Tsl Trust

variable {rt : Runtime} {isPrint : Char → Bool} {s : Snapshot} {g : Gauges} {history : List Activation}

/-! ## What a snapshot says -/

/-- How many anchors the snapshot serves with the labels. -/
def anchorCount (s : Snapshot) (source territory typ : String) : Nat :=
  (s.territories.map fun t => t.anchors.countP fun a => a.source = source ∧ t.code = territory ∧ a.type = typ).sum +
    s.internal.countP fun a => a.source = source ∧ a.territory = territory ∧ a.type = typ

/-- Whether the territory has a failed entry. -/
def failedFlag (s : Snapshot) (territory : String) : Nat :=
  if ∃ t ∈ s.territories, t.code = territory ∧ t.failed = true then 1 else 0

/-- How many services of the territory were skipped for the reason. -/
def skippedCount (s : Snapshot) (territory reason : String) : Nat :=
  (s.territories.map fun t => t.skipped.countP fun sk => t.code = territory ∧ sk.reason = reason).sum

/-- Every series reads what the snapshot says of its labels. -/
structure ShowsSnapshot (isPrint : Char → Bool) (g : Gauges) (s : Snapshot) : Prop where
  anchors : ∀ source territory typ,
    g.anchors.read (anchorSeries isPrint source territory typ) = anchorCount s source territory typ
  failed : ∀ territory, g.failed.read (failedSeries isPrint territory) = failedFlag s territory
  skipped : ∀ territory reason,
    g.skipped.read (skippedSeries isPrint territory reason) = skippedCount s territory reason

/-- The series are those that the activations needed. -/
structure Created (isPrint : Char → Bool) (g : Gauges) (history : List Activation) : Prop where
  anchors : ∀ name, name ∈ g.anchors ↔ ∃ act ∈ history, name ∈ anchorNames isPrint act.snapshot
  failed : ∀ name, name ∈ g.failed ↔
    ∃ act ∈ history, name ∈ act.snapshot.territories.map fun t => failedSeries isPrint t.code
  skipped : ∀ name, name ∈ g.skipped ↔ ∃ act ∈ history, name ∈ skippedNames isPrint act.snapshot

/-! ## Names -/

/-- A quoted label can be read off a name. -/
theorem append_quote_inj {a x y : List Char} {l l' : String}
    (h : a ++ (quote isPrint l ++ x) = a ++ (quote isPrint l' ++ y)) : l = l' ∧ x = y :=
  selfDelimiting_quote (List.append_cancel_left h)

theorem anchorSeries_inj {source source' territory territory' typ typ' : String} :
    anchorSeries isPrint source territory typ = anchorSeries isPrint source' territory' typ' ↔
      source = source' ∧ territory = territory' ∧ typ = typ' := by
  constructor
  · intro h
    have hchars := congrArg String.toList h
    simp only [anchorSeries, quoted, String.toList_append, String.toList_ofList, List.append_assoc] at hchars
    obtain ⟨rfl, hterritory⟩ := append_quote_inj (List.append_cancel_left hchars)
    obtain ⟨rfl, htyp⟩ := append_quote_inj hterritory
    obtain ⟨rfl, -⟩ := append_quote_inj htyp
    exact ⟨rfl, rfl, rfl⟩
  · rintro ⟨rfl, rfl, rfl⟩
    rfl

theorem failedSeries_inj {territory territory' : String} :
    failedSeries isPrint territory = failedSeries isPrint territory' ↔ territory = territory' := by
  constructor
  · intro h
    have hchars := congrArg String.toList h
    simp only [failedSeries, quoted, String.toList_append, String.toList_ofList, List.append_assoc] at hchars
    exact (append_quote_inj (List.append_cancel_left hchars)).1
  · rintro rfl
    rfl

theorem skippedSeries_inj {territory territory' reason reason' : String} :
    skippedSeries isPrint territory reason = skippedSeries isPrint territory' reason' ↔
      territory = territory' ∧ reason = reason' := by
  constructor
  · intro h
    have hchars := congrArg String.toList h
    simp only [skippedSeries, quoted, String.toList_append, String.toList_ofList, List.append_assoc] at hchars
    obtain ⟨rfl, hreason⟩ := append_quote_inj (List.append_cancel_left hchars)
    obtain ⟨rfl, -⟩ := append_quote_inj hreason
    exact ⟨rfl, rfl⟩
  · rintro ⟨rfl, rfl⟩
    rfl

/-! ## Readings -/

theorem count_map_eq_countP {α : Type} {f : α → String} {name : String} {p : α → Prop} [DecidablePred p]
    (h : ∀ a, f a = name ↔ p a) (as : List α) : (as.map f).count name = as.countP fun a => p a := by
  rw [List.count_eq_countP, List.countP_map]
  refine List.countP_congr fun a _ => ?_
  simp [h]

theorem count_anchorNames (source territory typ : String) :
    (anchorNames isPrint s).count (anchorSeries isPrint source territory typ) =
      anchorCount s source territory typ := by
  unfold anchorNames anchorCount
  rw [List.count_append, List.count_flatMap, count_map_eq_countP fun a => anchorSeries_inj]
  congr 3
  funext t
  exact count_map_eq_countP (fun a => anchorSeries_inj) t.anchors

theorem count_skippedNames (territory reason : String) :
    (skippedNames isPrint s).count (skippedSeries isPrint territory reason) = skippedCount s territory reason := by
  unfold skippedNames skippedCount
  rw [List.count_flatMap]
  congr 2
  funext t
  exact count_map_eq_countP (fun sk => skippedSeries_inj) t.skipped

/-- There is one entry for a territory, so there is one flag for it. -/
theorem read_failed (hcodes : (s.territories.map Territory.code).Nodup) (territory : String) :
    (Counter.store (fun t => failedSeries isPrint t.code) (fun t => if t.failed then 1 else 0) s.territories
      ∅).read (failedSeries isPrint territory) = failedFlag s territory := by
  have hflag : ∀ t ∈ s.territories, failedSeries isPrint t.code = failedSeries isPrint territory →
      (if t.failed then 1 else 0) = failedFlag s territory := by
    intro t ht hname
    obtain rfl := failedSeries_inj.1 hname
    unfold failedFlag
    refine if_congr ⟨fun hfailed => ⟨t, ht, rfl, hfailed⟩, ?_⟩ rfl rfl
    rintro ⟨t', ht', hcode, hfailed⟩
    obtain rfl := List.inj_on_of_nodup_map hcodes ht' ht hcode
    exact hfailed
  rw [Counter.read_store hflag, Counter.read_empty]
  split_ifs with hmem
  · rfl
  · refine (if_neg ?_).symm
    rintro ⟨t, ht, rfl, -⟩
    exact hmem (List.mem_map_of_mem ht)

/-- After an activation the gauges mirror the snapshot, whatever they read before. -/
theorem Gauges.activate_mirrors (g : Gauges) (hcodes : (s.territories.map Territory.code).Nodup) :
    ShowsSnapshot isPrint (g.activate isPrint s) s where
  anchors source territory typ := by
    simp [Gauges.activate, setAnchorGauges, count_anchorNames]
  failed territory := by
    simp [Gauges.activate, setTerritoryFailedGauges, read_failed hcodes]
  skipped territory reason := by
    simp [Gauges.activate, setSkippedGauges, count_skippedNames]

/-- An activation drops no series, and creates what its snapshot needs. -/
theorem Created.activate (h : Created isPrint g history) (act : Activation) :
    Created isPrint (g.activate isPrint act.snapshot) (act :: history) where
  anchors name := by
    simp only [Gauges.activate, setAnchorGauges, Counter.mem_publish, Counter.mem_tally, Option.elim_some, h.anchors,
      List.exists_mem_cons_iff, or_comm]
  failed name := by
    rw [List.exists_mem_cons_iff, ← h.failed, or_comm]
    simp [Gauges.activate, setTerritoryFailedGauges, Counter.mem_publish, Counter.mem_store]
  skipped name := by
    simp only [Gauges.activate, setSkippedGauges, Counter.mem_publish, Counter.mem_tally, Option.elim_some, h.skipped,
      List.exists_mem_cons_iff, or_comm]

theorem gauges_created (history : List Activation) : Created isPrint (gauges isPrint history) history := by
  induction history with
  | nil => exact ⟨by simp [gauges], by simp [gauges], by simp [gauges]⟩
  | cons act earlier ih => exact ih.activate act

/-! ## Runs -/

/-- In every run, after every activation of the process: the series that exist are those that its activations so far
have created, and every one of them reads what the activated snapshot says, which is zero if it says nothing. -/
theorem gauges_mirror (ops : List (Config × Op)) (maxSize : Int) {later earlier : List Activation} {act : Activation}
    (h : ((Service.empty maxSize).run rt ops).history = later ++ act :: earlier) :
    ShowsSnapshot isPrint (gauges isPrint (act :: earlier)) act.snapshot ∧
      Created isPrint (gauges isPrint (act :: earlier)) (act :: earlier) ∧
      (later = [] → ((Service.empty maxSize).run rt ops).active = some act.snapshot) := by
  have hrun := Traced.of_run (wellFormed_kept rt) (fun _ _ => trivial : ∀ i ∈ ops, True) maxSize
  have hwell := hrun.served act (by simp [h])
  refine ⟨(gauges isPrint earlier).activate_mirrors hwell.orderly.entries.codes, gauges_created _, ?_⟩
  rintro rfl
  rw [hrun.active, h]
  rfl

/-- The printable characters of ASCII. -/
def isPrintASCII (c : Char) : Bool := 32 ≤ c.toNat && c.toNat < 127

open Symbolic in
/-- The list of the territory grows, and its series with it. -/
theorem gauges_mirror_growing : ∃ act earlier,
    (growing.run (config ["EE"] .auto 0) growingOps).history = act :: earlier ∧
    earlier.map (fun a => anchorCount a.snapshot sourceTL "EE" "") = [1] ∧
    (gauges isPrintASCII (act :: earlier)).anchors.read (anchorSeries isPrintASCII sourceTL "EE" "") = 2 := by
  have hcounts : (growing.run (config ["EE"] .auto 0) growingOps).history.map
      (fun a => anchorCount a.snapshot sourceTL "EE" "") = [2, 1] := by decide +kernel
  obtain ⟨act, earlier, hhistory, hact, hearlier⟩ := List.map_eq_cons_iff.1 hcounts
  obtain ⟨hmirrors, -⟩ := @gauges_mirror growing.runtime isPrintASCII _ 100 [] earlier act hhistory
  exact ⟨act, earlier, hhistory, hearlier, (hmirrors.anchors _ _ _).trans hact⟩

end TrustAnchor.Ingest
