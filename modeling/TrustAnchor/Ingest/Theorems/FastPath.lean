import TrustAnchor.Ingest.Lemmas.Grounded
import TrustAnchor.Ingest.Symbolic
import TrustAnchor.Lib.Keyed
import TrustAnchor.Trust.Lemmas.Diff

/-!
# Skipping, reading again and carrying over

The list of the lists and every territory reach their next entry on one of three ways. As long as upstream
has nothing new it makes no difference which.
-/

namespace TrustAnchor.Ingest

open Lib Tsl Trust

variable {rt : Runtime} {cfg : Config} {cy : Cycle} {boot : Bootstrap} {p s s' : Snapshot}
  {t pt : Territory} {code : String} {f g : Fetcher} {ps : PointerSet}

/-! ## What the id and the diff see of an entry -/

/-- What an entry serves, and whether it is failed. -/
def entryPart (t : Territory) : String × Bool × Nat × List Anchor := (t.code, t.failed, t.tlSequence, t.anchors)

/-- Both snapshots have the same upstream content. -/
structure SameContent (s s' : Snapshot) : Prop where
  lotlSequence : s.lotlSequence = s'.lotlSequence
  territories : s.territories.map entryPart = s'.territories.map entryPart
  internal : s.internal = s'.internal
  pending : s.pending = s'.pending

theorem SameContent.idContent (h : SameContent s s') : idContent s = idContent s' := by
  have hpart : ∀ ts : List Territory, (ts.filter fun t => !t.failed).map idTerritory =
      ((ts.map entryPart).filter fun e => !e.2.1).map fun e =>
        idTerritory { code := e.1, tlSequence := e.2.2.1, anchors := e.2.2.2 } := by
    intro ts
    simp [List.filter_map, Function.comp_def, entryPart, idTerritory]
  unfold Trust.idContent
  rw [hpart, hpart, h.lotlSequence, h.territories, h.internal, h.pending]

theorem SameContent.placed (h : SameContent s s') : placed (some s) = placed (some s') := by
  have hpart : ∀ ts : List Territory,
      (ts.flatMap fun t => t.anchors.map fun a => (Place.listed t.code a.fingerprintSHA256, a)) =
      (ts.map entryPart).flatMap fun e => e.2.2.2.map fun a => (Place.listed e.1 a.fingerprintSHA256, a) := by
    intro ts
    simp [List.flatMap_map, entryPart]
  simp only [Trust.placed]
  rw [hpart, hpart, h.territories, h.internal]

/-! ## One territory -/

/-- The previous entry of the territory is met again: a list that is read has the bytes that it was read
from, and a failed territory fails. -/
def MetAgain (rt : Runtime) (cfg : Config) (cy : Cycle) (ps : PointerSet) (p : Snapshot) (code : String)
    (g : Fetcher) : Prop :=
  ∀ pt ∈ p.territory code, ∀ t ∈ readTL rt cfg cy ps (some p) code g,
    pt.failed = false ∧ t.sourceDigest = pt.sourceDigest

theorem entryOf_again (hsha : Function.Injective rt.sha256) (hwell : WellFormed rt p)
    (hp : Grounded rt cfg p) (hpt : p.territory code = some pt) (h : MetAgain rt cfg cy ps p code g) :
    entryPart (entryOf (code, (ingestTerritory rt cfg cy ps code (some p) g).1)) = entryPart pt := by
  have hmem := List.mem_of_find?_eq_some hpt
  have hcode : pt.code = code := by simpa using List.find?_some hpt
  have hnever : pt.failed = false →
      ∃ t, (ingestTerritory rt cfg cy ps code (some p) g).1 = .ok t ∧ t.failed = false :=
    ingestTerritory_healthy hpt
  obtain ⟨t, hread, hok⟩ | ⟨-, ⟨e, herr⟩ | ⟨q, pt', t, hq, hpt', hok, hsame⟩⟩ :=
    ingestTerritory_cases rt cfg cy ps code (some p) g
  · -- read again: the digest determines the entry
    obtain ⟨hhealthy, hdigest⟩ := h pt hpt t hread
    have hcode' := ingestTerritory_code hok
    have hgrounded := readTL_grounded hread
    obtain ⟨hseq, hanchors⟩ :=
      hgrounded.eq hsha (hp.entries pt hmem hhealthy) (hcode'.trans hcode.symm) hdigest
    obtain ⟨t', hok', hfailed⟩ := hnever hhealthy
    obtain rfl := Except.ok.inj (hok.symm.trans hok')
    simp only [hok, entryOf, entryPart, hcode', hcode, hfailed, hhealthy, hseq, hanchors]
  · -- failed: then the previous entry is failed as well, and both are blank
    have hfailed : pt.failed = true := by
      by_contra hhealthy
      obtain ⟨t, hok, -⟩ := hnever (by simpa using hhealthy)
      rw [herr] at hok
      cases hok
    have hblank := (hwell.entries pt hmem).failed hfailed
    rw [herr, hblank, hcode]
    rfl
  · -- confirmed or carried over
    cases hq
    obtain rfl := Option.some.inj (hpt.symm.trans hpt')
    simp only [hok, entryOf, entryPart, hsame.code, hsame.failed, hsame.tlSequence, hsame.anchors]

/-! ## The cycle -/

theorem declaredSet_again {configured : Bool} {readFile : String → Except String Bytes} {path : String}
    {now : Time} {prevSet : List Anchor}
    (h : ∀ set, loadInternal rt readFile path now = .ok set →
      ∃ now₀, loadInternal rt readFile path now₀ = .ok prevSet) :
    (declaredSet configured prevSet (loadInternal rt readFile path now)).1 = prevSet := by
  cases hload : loadInternal rt readFile path now with
  | error e => rfl
  | ok set =>
      obtain ⟨now₀, hprev⟩ := h set hload
      exact loadInternal_time hload hprev

theorem outcomes_floor (hwell : WellFormed rt p) (hp : Grounded rt cfg p)
    (hne : expandTerritories cfg.territories (carriedLOTL p).pointers ≠ []) :
    (outcomes rt cfg cy ps (some p) (expandTerritories cfg.territories (carriedLOTL p).pointers) f).countP
      (fun o => o.2.isOk) ≠ 0 := by
  have hentries : p.territories ≠ [] := by
    rw [← hp.codes] at hne
    simpa using hne
  obtain ⟨pt, hmem, hhealthy⟩ := hp.floor hentries
  have hpt := territory_of_mem hwell.orderly.entries.codes hmem rfl
  have hcode : pt.code ∈ (loopFetchers rt cfg cy ps (some p)
      (expandTerritories cfg.territories (carriedLOTL p).pointers) f).map Prod.fst := by
    rw [loopFetchers_map_fst, ← hp.codes]
    exact List.mem_map_of_mem hmem
  obtain ⟨⟨code, g⟩, hg, rfl⟩ := List.mem_map.1 hcode
  obtain ⟨t, hok, -⟩ : ∃ t, (ingestTerritory rt cfg cy ps pt.code (some p) g).1 = .ok t ∧ t.failed = false :=
    ingestTerritory_healthy hpt hhealthy
  refine (List.countP_pos_iff.2 ⟨_, List.mem_map_of_mem hg, ?_⟩).ne'
  simp [hok, Except.isOk, Except.toBool]

/-- In auto mode under one configuration, after any run from an empty store: when the list of the lists is
skipped or downloaded with the bytes it had, every list that is read has the bytes that its entry was
read from, failed territories fail again and the declared file is unchanged or does not load, then the
cycle succeeds with the same content, whichever way each part takes. -/
theorem refresh_again (hsha : Function.Injective rt.sha256) (hauto : cfg.activationMode = .auto)
    {ops : List (Config × Op)} (hops : ∀ i ∈ ops, i.1 = cfg) (maxSize : Int)
    (hp : ((Service.empty maxSize).run rt ops).active = some p) {res : LOTLResult} {f₁ : Fetcher}
    (hres : ingestLOTL rt cfg cy (some p) boot f = (.ok res, f₁))
    (hbytes : ∀ raw g, fetchLOTL rt cfg cy (some p) f = (.ok raw, g) → raw.digest = p.lotlDigest)
    (hmet : ∀ code g, (code, g) ∈ loopFetchers rt cfg cy res.pointers (some p)
      (expandTerritories cfg.territories res.pointers) f₁ → MetAgain rt cfg cy res.pointers p code g)
    (hdeclared : ∀ set, loadInternal rt cy.readFile cfg.internalTrustSource cy.now = .ok set →
      ∃ now₀, loadInternal rt cy.readFile cfg.internalTrustSource now₀ = .ok p.internal) :
    ∃ next f', refresh rt cfg cy (some p) boot f = (.ok next, f') ∧ next.id = p.id ∧
      next.territories.map entryPart = p.territories.map entryPart ∧
      next.lotlSignersDER = p.lotlSignersDER ∧ next.lotlPivotSeq = p.lotlPivotSeq ∧
      next.lotlPointers = p.lotlPointers ∧ next.diff = some ⟨p.id, []⟩ := by
  obtain ⟨hwell, hground⟩ := (Traced.of_run (grounded_kept hauto) hops maxSize).of_active p hp
  obtain rfl := ingestLOTL_again hsha hground.lotl hres hbytes
  have hseq : ∀ q ∈ some p, q.lotlSequence ≤ (carriedLOTL p).sequence := by
    rintro q ⟨⟩
    exact le_rfl
  obtain ⟨next, f', hnext⟩ := refresh_succeeds hres hseq (outcomes_floor hwell hground)
  refine ⟨next, f', hnext, ?_⟩
  obtain ⟨res, f₂, outs, hres', -, houts, -, rfl⟩ := refresh_ok hnext
  rw [hres] at hres'
  cases hres'
  rw [applyHoldMode_auto (by simp [hauto])]
  have hterritories : (outs.map entryOf).map entryPart = p.territories.map entryPart := by
    have hcodes : (outs.map entryOf).map Territory.code = p.territories.map Territory.code := by
      rw [houts, outcomes_map_code, hground.codes]
    refine map_eq_map_of_keys hcodes fun t ht pt hpt hcode => ?_
    rw [houts, outcomes, List.map_map] at ht
    obtain ⟨⟨code, g⟩, hg, rfl⟩ := List.mem_map.1 ht
    rw [Function.comp_apply, entryOf_ingestTerritory_code] at hcode
    exact entryOf_again hsha hwell hground (territory_of_mem hwell.orderly.entries.codes hpt hcode.symm)
      (hmet code g hg)
  have hsame : SameContent (cycleBase rt cfg cy (some p) boot (carriedLOTL p) (outs.map entryOf)) p :=
    ⟨rfl, hterritories, declaredSet_again hdeclared, hground.pending.symm⟩
  have hid : computeID rt (cycleBase rt cfg cy (some p) boot (carriedLOTL p) (outs.map entryOf)) = p.id := by
    rw [hwell.id, computeID, computeID, hsame.idContent]
  have hdiff : (computeDiff (some p) { cycleBase rt cfg cy (some p) boot (carriedLOTL p) (outs.map entryOf) with
      id := computeID rt (cycleBase rt cfg cy (some p) boot (carriedLOTL p) (outs.map entryOf))
      prevID := p.id }).entries = [] := computeDiff_of_placed hsame.placed
  exact ⟨hid, hterritories, rfl, rfl, rfl, congrArg (fun es => some (Diff.mk p.id es)) hdiff⟩

namespace Symbolic

/-- Three lists, and a configured territory that no pointer names. -/
def threeLists : World where
  documents :=
    [⟨ofText "L", ofText "B", lotl 1 [] ["B"]
        [pointer "EE" "" "https://ee/tl.xml" ["S"], pointer "LT" "" "https://lt/tl.xml" ["S"],
          pointer "LV" "" "https://lv/tl.xml" ["S"]]⟩,
      ⟨ofText "1", ofText "S", national "EE" 1 (some 100) ["K"]⟩,
      ⟨ofText "2", ofText "S", national "LT" 1 (some 100) ["K"]⟩,
      ⟨ofText "3", ofText "S", national "LV" 1 (some 100) ["K"]⟩]
  urls := [("https://eu/lotl.xml", ⟨"https", "eu"⟩), ("https://ee/tl.xml", ⟨"https", "ee"⟩),
    ("https://ee/tl.sha2", ⟨"https", "ee"⟩), ("https://lt/tl.xml", ⟨"https", "lt"⟩),
    ("https://lv/tl.xml", ⟨"https", "lv"⟩)]

def threeListsConfig : Config := config ["EE", "FI", "LT", "LV"] .auto 0

def threeListsOps : List Op :=
  [install ["B"], refresh 5 [("https://eu/lotl.xml", ofText "L"), ("https://ee/tl.xml", ofText "1"),
    ("https://lt/tl.xml", ofText "2"), ("https://lv/tl.xml", ofText "3")]]

/-- EE is confirmed by its checksum, LT is read again and LV is down. -/
def mixedCycle : Cycle :=
  cycle 6 [("https://eu/lotl.xml", ofText "L"), ("https://ee/tl.sha2", ofText (hexEncode (0 :: ofText "1"))),
    ("https://lt/tl.xml", ofText "2")]

end Symbolic

open Symbolic in
/-- A cycle that takes all three ways. -/
theorem refresh_again_mixed :
    ∃ s next f', (threeLists.exactRun threeListsConfig threeListsOps).active = some s ∧
      Ingest.refresh threeLists.exact threeListsConfig mixedCycle (some s) ⟨1, "", [ofText "B"]⟩
        (newFetcher 100) = (.ok next, f') ∧
      s.territories.map (·.failed) = [false, true, false, false] ∧
      next.territories.map (·.carriedOver) = [false, false, false, true] ∧
      next.id = s.id ∧ next.diff = some ⟨s.id, []⟩ := by
  have hrun : (threeLists.exactRun threeListsConfig threeListsOps).active.any fun s =>
      s.territories.map (·.failed) = [false, true, false, false] ∧ s.internal = [] ∧
      (∀ raw ∈ (fetchLOTL threeLists.exact threeListsConfig mixedCycle (some s) (newFetcher 100)).1.toOption,
        raw.digest = s.lotlDigest) ∧
      (Ingest.refresh threeLists.exact threeListsConfig mixedCycle (some s) ⟨1, "", [ofText "B"]⟩
        (newFetcher 100)).1.toOption.any (fun next : Snapshot =>
          next.territories.map (·.carriedOver) = [false, false, false, true]) ∧
      (ingestLOTL threeLists.exact threeListsConfig mixedCycle (some s) ⟨1, "", [ofText "B"]⟩
        (newFetcher 100)).1.toOption.any fun res : LOTLResult =>
          ∀ o ∈ loopFetchers threeLists.exact threeListsConfig mixedCycle res.pointers (some s)
            (expandTerritories threeListsConfig.territories res.pointers)
            (ingestLOTL threeLists.exact threeListsConfig mixedCycle (some s) ⟨1, "", [ofText "B"]⟩
              (newFetcher 100)).2,
          ∀ pt ∈ s.territory o.1, ∀ t ∈ readTL threeLists.exact threeListsConfig mixedCycle res.pointers
            (some s) o.1 o.2, pt.failed = false ∧ t.sourceDigest = pt.sourceDigest := by decide +kernel
  obtain ⟨s, hs, h⟩ := (Option.any_eq_true _ _).1 hrun
  obtain ⟨hfailed, hinternal, hbytes, hcarried, hmet⟩ := of_decide_eq_true h
  rcases hres : ingestLOTL threeLists.exact threeListsConfig mixedCycle (some s) ⟨1, "", [ofText "B"]⟩
    (newFetcher 100) with ⟨e | res, f₁⟩ <;> rw [hres] at hmet
  · cases hmet
  · have hmet := of_decide_eq_true hmet
    obtain ⟨next, f', hnext, hid, -, -, -, -, hdiff⟩ := refresh_again threeLists.exact_sha256_injective rfl
      (by simp [threeListsOps]) 100 hs hres
      (fun raw g hraw => hbytes raw (by rw [hraw]; rfl)) (fun code g hg => hmet (code, g) hg)
      (fun set _ => ⟨0, hinternal ▸ rfl⟩)
    rw [hnext] at hcarried
    exact ⟨s, next, f', hs, hnext, hfailed, of_decide_eq_true hcarried, hid, hdiff⟩

end TrustAnchor.Ingest
