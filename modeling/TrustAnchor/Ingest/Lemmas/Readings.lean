import TrustAnchor.Ingest.Lemmas.Grounded

/-!
# Under which settings an entry was read

The settings may change between two cycles. An entry that is reused, carried over or added to by an approval stays one
of the list that it was read off, under the settings of the cycle that read it.
-/

namespace TrustAnchor.Ingest

open Lib Tsl Trust

variable {rt : Runtime} {cfg old : Config} {cy : Cycle} {prev : Option Snapshot} {boot : Bootstrap}
  {s next : Snapshot} {t pt : Territory} {code : String} {f f' : Fetcher} {tl : TrustedList} {a b : Anchor}
  {A : Config → Prop}

/-- The settings of the cycle admit the anchor. -/
def Config.admits (cfg : Config) (a : Anchor) : Bool :=
  (accepted cfg.acceptedStatuses cfg.acceptedServiceTypes).admits a

/-- `trust.ExtractAnchors` under the settings returns the anchor for the list; the number of the list is put on it. -/
def ExtractedBy (rt : Runtime) (cfg : Config) (code : String) (tl : TrustedList) (a : Anchor) : Prop :=
  ∃ anchors warnings,
    extractAnchors rt tl code cfg.acceptedStatuses cfg.acceptedServiceTypes = .ok (anchors, warnings) ∧
      ∃ a₀ ∈ anchors, a = { a₀ with tlSequence := toInt64 tl.schemeInformation.tslSequenceNumber }

theorem ExtractedBy.admitted (h : ExtractedBy rt cfg code tl a) : cfg.admits a := by
  obtain ⟨anchors, warnings, hextract, a₀, ha₀, heq⟩ := h
  have hsame : cfg.admits a = cfg.admits a₀ := Accepted.admits_congr (by rw [heq]) (by rw [heq])
  rw [hsame]
  exact extractAnchors_admitted hextract a₀ ha₀

/-- One anchor for each certificate. -/
theorem ExtractedBy.eq (ha : ExtractedBy rt cfg code tl a) (hb : ExtractedBy rt cfg code tl b)
    (hfp : a.fingerprintSHA256 = b.fingerprintSHA256) : a = b := by
  obtain ⟨anchors, warnings, hextract, a₀, ha₀, rfl⟩ := ha
  obtain ⟨anchors', warnings', hextract', b₀, hb₀, rfl⟩ := hb
  obtain ⟨rfl, -⟩ := Prod.mk.inj (Except.ok.inj (hextract.symm.trans hextract'))
  rw [List.inj_on_of_nodup_map (extractAnchors_nodup hextract) ha₀ hb₀ hfp]

/-! ## Entries -/

/-- The entry is one of the list `tl`, which was read under the settings. -/
structure ReadUnder (rt : Runtime) (old : Config) (tl : TrustedList) (t : Territory) : Prop where
  list : ∃ raw, t.sourceDigest = rt.sha256hex raw ∧ signedList rt raw = some tl
  anchors : ∀ a ∈ t.anchors, ExtractedBy rt old t.code tl a

theorem ReadUnder.of_subset (h : ReadUnder rt old tl pt) (hcode : t.code = pt.code)
    (hdigest : t.sourceDigest = pt.sourceDigest) (hanchors : ∀ a ∈ t.anchors, a ∈ pt.anchors) :
    ReadUnder rt old tl t where
  list := by rw [hdigest]; exact h.list
  anchors a ha := by rw [hcode]; exact h.anchors a (hanchors a ha)

theorem GroundedEntry.readUnder (h : GroundedEntry rt cfg t) : ∃ tl, ReadUnder rt cfg tl t := by
  obtain ⟨raw, tl, anchors, warnings, hraw, htl, hextract, -, hanchors⟩ := h
  refine ⟨tl, ⟨raw, hraw, htl⟩, fun a ha => ?_⟩
  rw [hanchors] at ha
  obtain ⟨a₀, ha₀, rfl⟩ := List.mem_map.1 ha
  exact ⟨anchors, warnings, hextract, a₀, ha₀, rfl⟩

/-- The entry was read under settings with `A`, and what is held for its territory was read with it. -/
def ReadWith (rt : Runtime) (A : Config → Prop) (pending : List PendingAnchor) (t : Territory) : Prop :=
  ∃ old tl, A old ∧ ReadUnder rt old tl t ∧
    ∀ pa ∈ pending, pa.anchor.territory = t.code → ExtractedBy rt old t.code tl pa.anchor

@[simp] theorem heldEntry_sourceDigest {now : Time} : (heldEntry cfg prev now t).sourceDigest = t.sourceDigest := by
  unfold heldEntry
  split <;> rfl

/-! ## Snapshots -/

/-- Every entry that did not fail was read under settings with `A`. -/
def Sourced (rt : Runtime) (A : Config → Prop) (s : Snapshot) : Prop :=
  ∀ t ∈ s.territories, t.failed = false → ReadWith rt A s.pending t

theorem ingestTerritory_readUnder {ps : PointerSet} (hA : A cfg)
    (hprev : ∀ p ∈ prev, WellFormed rt p ∧ Sourced rt A p)
    (h : (ingestTerritory rt cfg cy ps code prev f).1 = .ok t) : ∃ old tl, A old ∧ ReadUnder rt old tl t := by
  have hhealthy : t.failed = false :=
    ingestTerritory_not_failed (fun p hp => (hprev p hp).1.failedBlank) h
  obtain ⟨t', hread, hok⟩ | ⟨-, ⟨e, herr⟩ | ⟨p, pt, t', rfl, hpt, hok, hsame⟩⟩ :=
    ingestTerritory_cases rt cfg cy ps code prev f
  · obtain rfl := Except.ok.inj (h.symm.trans hok)
    obtain ⟨tl, htl⟩ := (readTL_grounded hread).readUnder
    exact ⟨cfg, tl, hA, htl⟩
  · rw [h] at herr
    cases herr
  · obtain rfl := Except.ok.inj (h.symm.trans hok)
    obtain ⟨old, tl, hold, hread, -⟩ :=
      (hprev p rfl).2 pt (List.mem_of_find?_eq_some hpt) (hsame.failed.symm.trans hhealthy)
    exact ⟨old, tl, hold, hread.of_subset hsame.code hsame.sourceDigest (by simp [hsame.anchors])⟩

theorem refresh_sourced (hA : A cfg) (hprev : ∀ p ∈ prev, WellFormed rt p ∧ Sourced rt A p)
    (h : refresh rt cfg cy prev boot f = (.ok next, f')) : Sourced rt A next := by
  obtain ⟨res, f₁, outs, -, -, houts, -, rfl⟩ := refresh_ok h
  have horderly : OrderlyEntries rt (outs.map entryOf) := by
    rw [houts]
    exact outcomes_orderly (fun p hp => (hprev p hp).1.orderly) (expandTerritories_nodup _ _)
  intro t ht hhealthy
  rw [stamp_territories, applyHoldMode_territories, cycleBase_territories] at ht
  obtain ⟨t₀, ht₀, rfl⟩ := List.mem_map.1 ht
  obtain ⟨⟨c, r⟩, ho, rfl⟩ := List.mem_map.1 ht₀
  rw [heldEntry_failed] at hhealthy
  cases r with
  | error e => cases hhealthy
  | ok t₀ =>
      rw [houts] at ho
      obtain ⟨g, -, hr⟩ := mem_outcomes ho
      obtain ⟨old, tl, hold, hread⟩ := ingestTerritory_readUnder hA hprev hr.symm
      refine ⟨old, tl, hold, hread.of_subset heldEntry_code heldEntry_sourceDigest
        fun a => mem_of_mem_heldEntry, fun pa hpa hterritory => ?_⟩
      -- what is held is of an entry of the cycle, and there is one for the territory
      obtain hnil | ⟨u, hu, ha⟩ := mem_applyHoldMode_pending hpa
      · cases hnil
      · have hcode : u.code = t₀.code := by
          rw [← (horderly.anchors u hu _ ha).territory, hterritory, heldEntry_code, entryOf]
        obtain rfl := List.inj_on_of_nodup_map horderly.codes hu ht₀ hcode
        rw [heldEntry_code]
        exact hread.anchors _ ha

theorem Sourced.approve {fp : String} {pa : PendingAnchor} {now : Time} (hs : WellFormed rt s) (h : Sourced rt A s)
    (hpa : s.pending.find? (fun pa => pa.anchor.fingerprintSHA256 = fp) = some pa) :
    Sourced rt A (Service.approve rt s { s with declaredLoad := none } pa.anchor now) := by
  have hmem := List.mem_of_find?_eq_some hpa
  have hfewer : ∀ {u}, ReadWith rt A s.pending u → ReadWith rt A
      (s.pending.eraseP fun pb => pb.anchor.fingerprintSHA256 = pa.anchor.fingerprintSHA256) u := by
    rintro u ⟨old, tl, hold, hread, hheld⟩
    exact ⟨old, tl, hold, hread, fun pb hpb => hheld pb (List.mem_of_mem_eraseP hpb)⟩
  intro t ht hhealthy
  obtain ⟨u, hu, hcode, -⟩ := hs.pendingTerritory pa hmem
  obtain ⟨ts, t₀, us, hsplit, hcode₀, heq⟩ | ⟨hnone, -⟩ := moveToTerritory_cases s pa.anchor
  · have hmoved : t ∈ ts ++ withAnchor t₀ pa.anchor :: us := heq ▸ ht
    rw [List.mem_append, List.mem_cons] at hmoved
    rcases hmoved with ht | rfl | ht
    · exact hfewer (h t (by simp [hsplit, ht]) hhealthy)
    · obtain ⟨old, tl, hold, hread, hheld⟩ := h t₀ (by simp [hsplit]) hhealthy
      refine hfewer ⟨old, tl, hold, ⟨hread.list, fun a ha => ?_⟩, hheld⟩
      rcases mem_withAnchor.1 ha with ha | rfl
      · exact hread.anchors a ha
      · exact hheld pa hmem hcode₀.symm
    · exact hfewer (h t (by simp [hsplit, ht]) hhealthy)
  · exact absurd hcode (hnone u hu)

theorem sourced_kept (rt : Runtime) (A : Config → Prop) : Kept rt A fun s => WellFormed rt s ∧ Sourced rt A s where
  unloaded h := ⟨h.1.unloaded, h.2⟩
  advances {cfg prev next} hA hprev h := by
    refine ⟨(wellFormed_kept rt).advances trivial (fun p hp => (hprev p hp).1) h, ?_⟩
    cases h with
    | cycle h => exact refresh_sourced hA hprev h
    | @declared readFile prev next now rep h =>
        obtain ⟨-, hp⟩ := hprev prev rfl
        obtain ⟨rfl, -⟩ := refreshDeclared_eq h
        exact hp
    | @approve cur fp pa now h =>
        obtain ⟨hwell, hp⟩ := hprev cur rfl
        exact hp.approve hwell h

end TrustAnchor.Ingest
