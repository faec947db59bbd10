import TrustAnchor.Ingest.Lemmas.Failed
import TrustAnchor.Ingest.Lemmas.Isolation
import TrustAnchor.Ingest.Symbolic

/-!
# Failing territories

A territory that fails keeps what it had, no territory is touched by the failure of another one, and a
cycle without any verified territory is not meant to end in a snapshot.
-/

namespace TrustAnchor.Ingest

open Lib Tsl Trust

variable {rt : Runtime} {cfg : Config} {cy cy' : Cycle} {boot : Bootstrap} {f f' : Fetcher}
  {p next : Snapshot} {code : String}

/-! ## Per-territory fail-safe -/

/-- A territory that is healthy in the previous snapshot is healthy in the next one; if it fails in the
cycle it is carried over with exactly its anchors; and its entry is the one of every cycle that meets
the same for the list of the lists and for this territory, whatever it meets for the others. -/
theorem refresh_failSafe {pt : Territory} (hpt : p.territory code = some pt) (hhealthy : pt.failed = false)
    (h : refresh rt cfg cy (some p) boot f = (.ok next, f'))
    (hcode : code ∈ expandTerritories cfg.territories ⟨next.lotlPointers⟩) :
    ∃ t, next.territory code = some t ∧ t.failed = false ∧
      (∀ res f₁ g e, ingestLOTL rt cfg cy (some p) boot f = (.ok res, f₁) →
        (code, g) ∈ loopFetchers rt cfg cy res.pointers (some p)
          (expandTerritories cfg.territories res.pointers) f₁ →
        (fetchTerritory rt cfg cy res.pointers code (some p) g).1 = .error e →
        t.anchors = pt.anchors ∧ t.carriedOver = true) ∧
      ∀ cy' next' f'', SameLOTL cy cy' → SameTL code cy cy' →
        refresh rt cfg cy' (some p) boot f = (.ok next', f'') → next'.territory code = some t := by
  obtain ⟨res, f₁, hres, hpointers, hlookup⟩ := refresh_territory h
  rw [hpointers] at hcode
  have hmem : code ∈ (loopFetchers rt cfg cy res.pointers (some p)
      (expandTerritories cfg.territories res.pointers) f₁).map Prod.fst := by
    rw [loopFetchers_map_fst]
    exact hcode
  obtain ⟨⟨c, g⟩, hg, rfl⟩ := List.mem_map.1 hmem
  refine ⟨_, hlookup c g hg, ?_, ?_, ?_⟩
  · have hentry : ∃ t, (ingestTerritory rt cfg cy res.pointers c (some p) g).1 = .ok t ∧ t.failed = false :=
      ingestTerritory_healthy hpt hhealthy
    obtain ⟨t, ht, htHealthy⟩ := hentry
    rw [heldEntry_failed, ht]
    exact htHealthy
  · intro res' f₁' g' e hres' hg' he
    rw [hres] at hres'
    cases hres'
    -- the code is looked up once, so it is the same entry
    obtain heq := Option.some.inj ((hlookup c g hg).symm.trans (hlookup c g' hg'))
    rw [heq, ingestTerritory_of_error hpt hhealthy he, entryOf]
    exact ⟨heldEntry_anchors (List.mem_of_find?_eq_some hpt) rfl rfl, heldEntry_carriedOver⟩
  · intro cy' next' f'' hlotl htl h'
    obtain ⟨res', f₁', hres', -, hlookup'⟩ := refresh_territory h'
    obtain ⟨hans, hrules⟩ : (ingestLOTL rt cfg cy (some p) boot f).1 =
        (ingestLOTL rt cfg cy' (some p) boot f).1 ∧ Fetcher.SameRules _ _ :=
      ingestLOTL_agree hlotl f f rfl
    rw [hres, hres'] at hans hrules
    cases hans
    obtain ⟨g', hg', hsame⟩ := loopFetchers_sameRules hlotl.now res.pointers hrules hg
    rw [hlookup' c g' hg', ← hlotl.now]
    have hentry : (ingestTerritory rt cfg cy res.pointers c (some p) g).1 =
        (ingestTerritory rt cfg cy' res.pointers c (some p) g').1 :=
      (ingestTerritory_agree hlotl.now htl res.pointers g g' hsame).1
    rw [hentry]

open Symbolic in
/-- The list of the territory is gone; its entry stays. -/
theorem refresh_failSafe_growing :
    ∃ s pt next f', (growing.run (config ["EE"] .hold 0) growingOps).active = some s ∧
      s.territory "EE" = some pt ∧ pt.anchors ≠ [] ∧
      refresh growing.runtime (config ["EE"] .hold 0) (cycle 7 [("https://eu/lotl.xml", ofText "L")]) (some s)
        ⟨1, "", [ofText "B"]⟩ (newFetcher 100) = (.ok next, f') ∧
      ∃ t, next.territory "EE" = some t ∧ t.failed = false := by
  have hrun : (growing.run (config ["EE"] .hold 0) growingOps).active.any fun s =>
      (refresh growing.runtime (config ["EE"] .hold 0) (cycle 7 [("https://eu/lotl.xml", ofText "L")]) (some s)
        ⟨1, "", [ofText "B"]⟩ (newFetcher 100)).1.isOk ∧
      (s.territory "EE").any fun pt => pt.failed = false ∧ pt.anchors ≠ [] := by decide +kernel
  obtain ⟨s, hs, h⟩ := (Option.any_eq_true _ _).1 hrun
  obtain ⟨hok, hany⟩ := of_decide_eq_true h
  obtain ⟨pt, hpt, hentry⟩ := (Option.any_eq_true _ _).1 hany
  obtain ⟨hhealthy, hanchors⟩ := of_decide_eq_true hentry
  rcases hnext : refresh growing.runtime (config ["EE"] .hold 0)
    (cycle 7 [("https://eu/lotl.xml", ofText "L")]) (some s) ⟨1, "", [ofText "B"]⟩ (newFetcher 100) with
    ⟨e | next, f'⟩
  · rw [hnext] at hok
    cases hok
  · have hcode : "EE" ∈ expandTerritories (config ["EE"] .hold 0).territories ⟨next.lotlPointers⟩ := by
      simp [expandTerritories, config, territoryGroupEU]
    obtain ⟨t, ht, htHealthy, -⟩ := refresh_failSafe hpt hhealthy hnext hcode
    exact ⟨s, pt, next, f', hs, hpt, hanchors, hnext, t, ht, htHealthy⟩

/-! ## The floor -/

variable {prev : Option Snapshot}

theorem mem_expandTerritories {configured : List String} {ps : PointerSet} {c : String} :
    c ∈ expandTerritories configured ps ↔
      (c ∈ configured ∧ c ≠ territoryGroupEU) ∨ (territoryGroupEU ∈ configured ∧ c ∈ ps.territories) := by
  simp only [expandTerritories, List.mem_insertionSort, List.mem_dedup, List.mem_flatMap]
  constructor
  · rintro ⟨code, hcode, hc⟩
    split_ifs at hc with hEU
    · exact .inr ⟨hEU ▸ hcode, hc⟩
    · rw [List.mem_singleton.1 hc]
      exact .inl ⟨hcode, hEU⟩
  · rintro (⟨hc, hne⟩ | ⟨hEU, hc⟩)
    · exact ⟨c, hc, by simp [hne]⟩
    · exact ⟨territoryGroupEU, hEU, by simpa using hc⟩

theorem expandTerritories_ne_nil {configured : List String} {ps : PointerSet} (hne : configured ≠ []) :
    expandTerritories configured ps ≠ [] ↔
      (∃ c ∈ configured, c ≠ territoryGroupEU) ∨ ps.list ≠ [] := by
  constructor
  · intro h
    obtain ⟨c, hc⟩ := List.exists_mem_of_ne_nil _ h
    rcases mem_expandTerritories.1 hc with hc | ⟨-, hc⟩
    · exact .inl ⟨c, hc⟩
    · refine .inr fun hnil => ?_
      simp [PointerSet.territories, hnil] at hc
  · rintro (⟨c, hc⟩ | hlist)
    · exact List.ne_nil_of_mem (mem_expandTerritories.2 (.inl hc))
    · obtain ⟨c, hc⟩ := List.exists_mem_of_ne_nil _ hne
      obtain ⟨lp, hlp⟩ := List.exists_mem_of_ne_nil _ hlist
      by_cases hEU : c = territoryGroupEU
      · have hmem : lp.territory ∈ ps.territories := List.mem_map_of_mem hlp
        exact List.ne_nil_of_mem (mem_expandTerritories.2 (.inr ⟨hEU ▸ hc, hmem⟩))
      · exact List.ne_nil_of_mem (mem_expandTerritories.2 (.inl ⟨hc, hEU⟩))

/-- A cycle on what a run serves, under a configuration with territories: the snapshot has a territory
that is not failed exactly if the configuration names a territory by its code or the list of the lists
has a pointer. -/
theorem refresh_floor_iff (ops : List (Config × Op)) (maxSize : Int) (hne : cfg.territories ≠ [])
    {res : LOTLResult} {f₁ : Fetcher}
    (hres : ingestLOTL rt cfg cy ((Service.empty maxSize).run rt ops).active boot f = (.ok res, f₁))
    (h : refresh rt cfg cy ((Service.empty maxSize).run rt ops).active boot f = (.ok next, f')) :
    (∃ t ∈ next.territories, t.failed = false) ↔
      (∃ c ∈ cfg.territories, c ≠ territoryGroupEU) ∨ res.pointers.list ≠ [] := by
  have hprev : ∀ s ∈ ((Service.empty maxSize).run rt ops).active, FailedBlank s := by
    intro s hs
    obtain ⟨-, -, hblank⟩ := (Holds.of_run (failedBlank_stable rt) ops maxSize).active s hs
    exact hblank
  obtain ⟨res', f₁', outs, hres', -, houts, hfloor, rfl⟩ := refresh_ok h
  rw [hres] at hres'
  cases hres'
  rw [← expandTerritories_ne_nil hne, stamp_territories, applyHoldMode_territories, cycleBase_territories]
  constructor
  · rintro ⟨t, ht, -⟩ hnil
    obtain ⟨t₀, ht₀, -⟩ := List.mem_map.1 ht
    obtain ⟨o, ho, -⟩ := List.mem_map.1 ht₀
    have hmem : o.1 ∈ outs.map Prod.fst := List.mem_map_of_mem ho
    rw [houts, outcomes_map_fst, hnil] at hmem
    cases hmem
  · intro hexpanded
    obtain ⟨o, ho, hok⟩ := List.countP_pos_iff.1 (Nat.pos_of_ne_zero (hfloor hexpanded))
    refine ⟨_, List.mem_map_of_mem (List.mem_map_of_mem ho), ?_⟩
    rw [heldEntry_failed, entryOf_failed hprev (houts ▸ ho), hok]
    rfl

namespace Symbolic

/-- The second issue of the list of the lists has lost its only territory. -/
def emptied : World where
  documents :=
    [⟨ofText "1", ofText "B", lotl 1 [] ["B"] [pointer "EE" "" "https://ee/tl.xml" ["S"]]⟩,
      ⟨ofText "2", ofText "B", lotl 2 [] ["B"] []⟩,
      ⟨ofText "T", ofText "S", national "EE" 1 (some 100) ["K"]⟩]
  urls := [("https://eu/lotl.xml", ⟨"https", "eu"⟩), ("https://ee/tl.xml", ⟨"https", "ee"⟩)]

/-- The pages while the list of the lists has the issue `n`. -/
def emptiedPages (n : String) : List (String × Bytes) :=
  [("https://eu/lotl.xml", ofText n), ("https://ee/tl.xml", ofText "T")]

/-- A run with one cycle for each given issue. -/
def emptiedRun (issues : List String) : Service :=
  emptied.run (config ["EU"] .auto 0)
    (install ["B"] :: issues.map fun n => Symbolic.refresh 5 (emptiedPages n))

end Symbolic

open Symbolic in
/-- With the group alone configured, a good snapshot is replaced by one without any territory. -/
theorem refresh_floor_emptied :
    (∃ s, (emptiedRun ["1"]).active = some s ∧ ∃ t ∈ s.territories, t.failed = false) ∧
      ∃ s, (emptiedRun ["1", "2"]).active = some s ∧ s.lotlSequence = 2 ∧ s.territories = [] := by
  have hgood : (emptiedRun ["1"]).active.any fun s => ∃ t ∈ s.territories, t.failed = false := by
    decide +kernel
  have hempty : (emptiedRun ["1", "2"]).active.any fun s => s.lotlSequence = 2 ∧ s.territories = [] := by
    decide +kernel
  obtain ⟨s, hs, h⟩ := (Option.any_eq_true _ _).1 hgood
  obtain ⟨s', hs', h'⟩ := (Option.any_eq_true _ _).1 hempty
  exact ⟨⟨s, hs, of_decide_eq_true h⟩, s', hs', of_decide_eq_true h'⟩

open Symbolic in
/-- The first issue, on a fresh install. -/
theorem refresh_floor_first :
    ∃ res next f₁ f', ingestLOTL emptied.runtime (config ["EU"] .auto 0) (cycle 5 (emptiedPages "1")) none
        ⟨1, "", [ofText "B"]⟩ (newFetcher 100) = (.ok res, f₁) ∧
      refresh emptied.runtime (config ["EU"] .auto 0) (cycle 5 (emptiedPages "1")) none
        ⟨1, "", [ofText "B"]⟩ (newFetcher 100) = (.ok next, f') ∧
      ∃ t ∈ next.territories, t.failed = false := by
  have hpointers : (ingestLOTL emptied.runtime (config ["EU"] .auto 0) (cycle 5 (emptiedPages "1")) none
      ⟨1, "", [ofText "B"]⟩ (newFetcher 100)).1.toOption.any fun res => res.pointers.list ≠ [] := by
    decide +kernel
  have hok : (refresh emptied.runtime (config ["EU"] .auto 0) (cycle 5 (emptiedPages "1")) none
      ⟨1, "", [ofText "B"]⟩ (newFetcher 100)).1.isOk := by decide +kernel
  rcases hres : ingestLOTL emptied.runtime (config ["EU"] .auto 0) (cycle 5 (emptiedPages "1")) none
    ⟨1, "", [ofText "B"]⟩ (newFetcher 100) with ⟨e | res, f₁⟩ <;> rw [hres] at hpointers
  · cases hpointers
  rcases hnext : refresh emptied.runtime (config ["EU"] .auto 0) (cycle 5 (emptiedPages "1")) none
    ⟨1, "", [ofText "B"]⟩ (newFetcher 100) with ⟨e | next, f'⟩ <;> rw [hnext] at hok
  · cases hok
  · have hlist : res.pointers.list ≠ [] := of_decide_eq_true hpointers
    exact ⟨res, next, f₁, f', rfl, rfl,
      (refresh_floor_iff [] 100 (by simp [config]) hres hnext).2 (.inr hlist)⟩

end TrustAnchor.Ingest
