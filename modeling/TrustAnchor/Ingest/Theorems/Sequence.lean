import TrustAnchor.Ingest.Lemmas.Hold
import TrustAnchor.Ingest.Lemmas.Provenance
import TrustAnchor.Ingest.Symbolic

/-!
# The number stamped on an anchor

An anchor carries the number of the list it was read off as an `int64`, its territory carries it as it is.
-/

namespace TrustAnchor.Ingest

open Lib Tsl Trust

variable {rt : Runtime} {boot : Bootstrap} {cfg : Config} {cy : Cycle} {prev : Option Snapshot}
  {s next : Snapshot} {t : Territory} {a : Anchor}

/-- An anchor of the entry, served or held. -/
def OfEntry (s : Snapshot) (t : Territory) (a : Anchor) : Prop :=
  a ∈ t.anchors ∨ a.territory = t.code ∧ ∃ pa ∈ s.pending, pa.anchor = a

/-- The anchor was read off a list with the number of the entry. -/
def Stamped (rt : Runtime) (boot : Bootstrap) (t : Territory) (a : Anchor) : Prop :=
  ∃ tl, ReadOff rt boot t.code t.tlSequence a tl

/-- All anchors of the territories were read off their lists, and what is held is held for an entry. -/
structure Numbered (rt : Runtime) (boot : Bootstrap) (s : Snapshot) : Prop where
  orderly : Orderly rt s
  upstream : SnapshotFrom rt boot s
  listed : ∀ t ∈ s.territories, ∀ a ∈ t.anchors, Stamped rt boot t a
  held : ∀ pa ∈ s.pending, ∃ t ∈ s.territories, t.code = pa.anchor.territory ∧ Stamped rt boot t pa.anchor

/-- There is one entry for a territory, so what is held for it has its number. -/
theorem Numbered.stamped (h : Numbered rt boot s) (ht : t ∈ s.territories) (ha : OfEntry s t a) :
    Stamped rt boot t a := by
  obtain ha | ⟨hcode, pa, hpa, rfl⟩ := ha
  · exact h.listed t ht a ha
  · obtain ⟨t', ht', hcode', hstamped⟩ := h.held pa hpa
    obtain rfl : t' = t := List.inj_on_of_nodup_map h.orderly.entries.codes ht' ht (hcode'.trans hcode)
    exact hstamped

theorem ingestTerritory_stamped {ps : PointerSet} {code : String} {f : Fetcher}
    (hprev : ∀ p ∈ prev, Numbered rt boot p) (hps : PointersOf rt boot ps)
    (h : (ingestTerritory rt cfg cy ps code prev f).1 = .ok t) : ∀ a ∈ t.anchors, Stamped rt boot t a := by
  unfold Stamped
  obtain ⟨p, pt, rfl, hpt, hsame⟩ | ⟨lp, raw, hlp, hread⟩ := ingestTerritory_ok h
  · rw [hsame.anchors, hsame.code, hsame.tlSequence]
    exact (hprev p rfl).listed pt (List.mem_of_find?_eq_some hpt)
  · obtain ⟨hcode, hread⟩ := readTerritory_readOff hps hlp hread
    rw [hcode]
    exact hread

theorem Stamped.heldEntry {now : Time} (h : Stamped rt boot t a) :
    Stamped rt boot (heldEntry cfg prev now t) a := by
  simpa only [Stamped, heldEntry_code, heldEntry_tlSequence] using h

theorem refresh_numbered {f f' : Fetcher} (hprev : ∀ p ∈ prev, Numbered rt boot p)
    (h : refresh rt cfg cy prev boot f = (.ok next, f')) : Numbered rt boot next := by
  have horderly := refresh_orderly (fun p hp => (hprev p hp).orderly) h
  have hupstream := refresh_from (fun p hp => (hprev p hp).upstream) h
  obtain ⟨res, f₁, outs, hres, -, rfl, -, rfl⟩ := refresh_ok h
  obtain ⟨-, hpointers⟩ := ingestLOTL_from (fun p hp => (hprev p hp).upstream) hres
  have hentry : ∀ t ∈ (outcomes rt cfg cy res.pointers prev
      (expandTerritories cfg.territories res.pointers) f₁).map entryOf, ∀ a ∈ t.anchors, Stamped rt boot t a := by
    intro t ht
    obtain ⟨⟨code, r⟩, ho, rfl⟩ := List.mem_map.1 ht
    obtain ⟨g, -, hr⟩ := mem_outcomes ho
    cases r with
    | error e => simp [entryOf, failedTerritory]
    | ok t => exact ingestTerritory_stamped hprev hpointers hr.symm
  refine ⟨horderly, hupstream, ?_, ?_⟩
  · intro t ht a ha
    rw [stamp_territories, applyHoldMode_territories, cycleBase_territories] at ht
    obtain ⟨t₀, ht₀, rfl⟩ := List.mem_map.1 ht
    exact (hentry t₀ ht₀ a (mem_of_mem_heldEntry ha)).heldEntry
  · intro pa hpa
    obtain hnil | ⟨t, ht, ha⟩ := mem_applyHoldMode_pending hpa
    · cases hnil
    · refine ⟨heldEntry cfg prev cy.now t, ?_, ?_, (hentry t ht _ ha).heldEntry⟩
      · rw [stamp_territories, applyHoldMode_territories]
        exact List.mem_map_of_mem ht
      · obtain ⟨tl, htl⟩ := hentry t ht _ ha
        rw [heldEntry_code, htl.anchorFrom.extracted.territory]

theorem Numbered.approve {fp : String} {pa : PendingAnchor} {now : Time} (h : Numbered rt boot s)
    (hpa : s.pending.find? (fun pa => pa.anchor.fingerprintSHA256 = fp) = some pa) :
    Numbered rt boot (Service.approve rt s { s with declaredLoad := none } pa.anchor now) := by
  have hmem := List.mem_of_find?_eq_some hpa
  refine ⟨h.orderly.approve hpa, h.upstream.approve hpa, ?_, ?_⟩
  · intro t ht a ha
    obtain ⟨ts, t₀, us, hs, hcode, heq⟩ | ⟨hnone, -⟩ := moveToTerritory_cases s pa.anchor
    · rw [show (Service.approve rt s { s with declaredLoad := none } pa.anchor now).territories = _ from heq,
        List.mem_append, List.mem_cons] at ht
      have ht₀ : t₀ ∈ s.territories := by simp [hs]
      rcases ht with ht | rfl | ht
      · exact h.listed t (by simp [hs, ht]) a ha
      · rcases mem_withAnchor.1 ha with ha | rfl
        · exact h.listed t₀ ht₀ a ha
        · have hstamped : Stamped rt boot t₀ pa.anchor := h.stamped ht₀ (.inr ⟨hcode.symm, pa, hmem, rfl⟩)
          exact hstamped
      · exact h.listed t (by simp [hs, ht]) a ha
    · -- what is held is held for an entry
      obtain ⟨t', ht', hcode', -⟩ := h.held pa hmem
      exact absurd hcode' (hnone t' ht')
  · intro p hp
    obtain ⟨t, ht, hcode, hstamped⟩ := h.held p (List.mem_of_mem_eraseP hp)
    obtain ⟨t', ht', hcode', -, hseq, -⟩ := exists_mem_moveToTerritory (a := pa.anchor) ht
    refine ⟨t', ht', hcode'.trans hcode, ?_⟩
    rwa [Stamped, hcode', hseq]

theorem numbered_stable (rt : Runtime) (cfg : Config) : Stable rt cfg (fun _ _ _ _ => True) (Numbered rt) where
  sameUpstream heq h := by
    refine ⟨h.orderly.sameUpstream heq, h.upstream.sameUpstream heq, ?_, ?_⟩
    · rw [heq.territories]
      exact h.listed
    · rw [heq.pending, heq.territories]
      exact h.held
  cycle hprev _ h := refresh_numbered hprev h
  approve h hpa := h.approve hpa

/-- In every run, every anchor of a territory, served or held, was read off a verified list with the
territory's number, and it carries that number exactly if an `int64` holds it. -/
theorem stamp_exact_iff (ops : List (Config × Op)) (maxSize : Int)
    (h : s ∈ ((Service.empty maxSize).run rt ops).active ∨
      s ∈ ((Service.empty maxSize).run rt ops).store.snapshot)
    (ht : t ∈ s.territories) (ha : OfEntry s t a) :
    ∃ boot tl, ((Service.empty maxSize).run rt ops).store.bootstrap = some boot ∧
      ReadOff rt boot t.code t.tlSequence a tl ∧
      (a.tlSequence = t.tlSequence ↔ tl.schemeInformation.tslSequenceNumber < 2 ^ 63) := by
  have hrun := Holds.of_run (numbered_stable rt) ops maxSize
  obtain ⟨boot, hboot, hs⟩ := h.elim (hrun.active s) (hrun.stored s)
  obtain ⟨tl, htl⟩ := hs.stamped ht ha
  refine ⟨boot, tl, hboot, htl, ?_⟩
  rw [htl.tlSequence, ← htl.sequence, toInt64_eq_iff]

namespace Symbolic

/-- One territory, whose list has the first number that an `int64` does not hold. -/
def overflowing : World :=
  { growing with documents := growing.documents.map fun d =>
      if d.bytes = ofText "1" then { d with list := national "EE" (2 ^ 63) (some 100) ["K"] } else d }

end Symbolic

open Symbolic in
/-- The number on the anchor is negative. -/
theorem stamp_negative :
    ∃ s, (overflowing.run (config ["EE"] .auto 0) [install ["B"], Symbolic.refresh 5 (growingPages "1")]).active =
        some s ∧ ∃ t ∈ s.territories, t.tlSequence = 2 ^ 63 ∧ ∃ a ∈ t.anchors, a.tlSequence = -2 ^ 63 := by
  have hrun : (overflowing.run (config ["EE"] .auto 0)
      [install ["B"], Symbolic.refresh 5 (growingPages "1")]).active.any fun s =>
        ∃ t ∈ s.territories, t.tlSequence = 2 ^ 63 ∧ ∃ a ∈ t.anchors, a.tlSequence = -2 ^ 63 := by decide +kernel
  obtain ⟨s, hs, h⟩ := (Option.any_eq_true _ _).1 hrun
  exact ⟨s, hs, of_decide_eq_true h⟩

open Symbolic in
/-- After two cycles in hold mode the served and the held anchor have the number of the second issue. -/
theorem stamp_exact_growing :
    ∃ s, (growing.run (config ["EE"] .hold 0) growingOps).active = some s ∧
      (s.territories.map fun t => (t.code, t.tlSequence, t.anchors.map (·.certDER))) = [("EE", 2, [ofText "K"])] ∧
      (s.pending.map fun p => (p.anchor.territory, p.anchor.certDER)) = [("EE", ofText "M")] ∧
      ∀ t ∈ s.territories, ∀ a, OfEntry s t a → a.tlSequence = t.tlSequence := by
  have hrun : (growing.run (config ["EE"] .hold 0) growingOps).active.any fun s =>
      (s.territories.map fun t => (t.code, t.tlSequence, t.anchors.map (·.certDER))) = [("EE", 2, [ofText "K"])] ∧
        (s.pending.map fun p => (p.anchor.territory, p.anchor.certDER)) = [("EE", ofText "M")] := by decide +kernel
  obtain ⟨s, hs, h⟩ := (Option.any_eq_true _ _).1 hrun
  obtain ⟨hserved, hheld⟩ := of_decide_eq_true h
  refine ⟨s, hs, hserved, hheld, fun t ht a ha => ?_⟩
  have hseq : t.tlSequence = 2 := by
    have hmem := List.mem_map_of_mem (f := fun t => (t.code, t.tlSequence, t.anchors.map (·.certDER))) ht
    rw [hserved, List.mem_singleton] at hmem
    exact (Prod.mk.inj (Prod.mk.inj hmem).2).1
  obtain ⟨boot, tl, -, htl, hiff⟩ := stamp_exact_iff _ 100 (.inl hs) ht ha
  refine hiff.2 ?_
  rw [← htl.sequence, hseq]
  decide

end TrustAnchor.Ingest
