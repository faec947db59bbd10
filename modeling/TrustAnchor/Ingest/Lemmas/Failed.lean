import TrustAnchor.Ingest.Lemmas.Manager

/-!
# Entries that are kept and entries that failed

What was served of a territory stays where the cycle has nothing newer for it. An entry is marked as failed
where the territory failed in the cycle and there was nothing to carry over, and nowhere else.
-/

namespace TrustAnchor.Ingest

open Lib Tsl Trust

variable {rt : Runtime} {cfg : Config} {cy : Cycle} {boot : Bootstrap} {f f' : Fetcher} {p next : Snapshot}
  {prev : Option Snapshot} {code : String}

/-! ## Entries that are kept -/

theorem mem_heldEntry_of_served {now : Time} {t pt : Territory} {a b : Anchor} (hpt : pt ∈ p.territories)
    (hcode : t.code = pt.code) (ha : a ∈ t.anchors) (hb : b ∈ pt.anchors)
    (hfp : a.fingerprintSHA256 = b.fingerprintSHA256) : a ∈ (heldEntry cfg (some p) now t).anchors := by
  have hactive : holdKey t.code a.fingerprintSHA256 ∈ prevActive p :=
    List.mem_flatMap.2 ⟨pt, hpt, List.mem_map.2 ⟨b, hb, by rw [hcode, hfp]⟩⟩
  unfold heldEntry
  split_ifs
  · exact List.mem_filter.2 ⟨ha, by simp [heldSince, hactive]⟩
  · exact ha

theorem heldEntry_anchors {now : Time} {t pt : Territory} (hpt : pt ∈ p.territories)
    (hcode : t.code = pt.code) (hanchors : t.anchors = pt.anchors) :
    (heldEntry cfg (some p) now t).anchors = pt.anchors := by
  rw [← hanchors]
  unfold heldEntry
  split_ifs with hhold
  · refine List.filter_eq_self.2 fun a ha => ?_
    have hkept : a ∈ (heldEntry cfg (some p) now t).anchors :=
      mem_heldEntry_of_served hpt hcode ha (hanchors ▸ ha) rfl
    rw [heldEntry, if_pos hhold] at hkept
    exact (List.mem_filter.1 hkept).2
  · rfl

theorem ingestTerritory_of_error {ps : PointerSet} {g : Fetcher} {pt : Territory} {e : Err}
    (hpt : p.territory code = some pt) (hhealthy : pt.failed = false)
    (he : (fetchTerritory rt cfg cy ps code (some p) g).1 = .error e) :
    (ingestTerritory rt cfg cy ps code (some p) g).1 =
      .ok { pt with carriedOver := true, carriedOverReason := e.msg } := by
  rw [ingestTerritory_fst, he]
  simp [carryOver, hpt, Option.filter, hhealthy]

/-- A territory with a healthy entry in the previous snapshot never fails. -/
theorem ingestTerritory_healthy {ps : PointerSet} {g : Fetcher} {pt : Territory}
    (hpt : p.territory code = some pt) (hhealthy : pt.failed = false) :
    ∃ t, (ingestTerritory rt cfg cy ps code (some p) g).1 = .ok t ∧ t.failed = false := by
  cases he : (fetchTerritory rt cfg cy ps code (some p) g).1 with
  | error e => exact ⟨_, ingestTerritory_of_error hpt hhealthy he, hhealthy⟩
  | ok t =>
      have hok : (ingestTerritory rt cfg cy ps code (some p) g).1 = .ok t := by
        rw [ingestTerritory_fst, he]
      refine ⟨t, hok, ?_⟩
      obtain ⟨p', pt', hp, hpt', hsame⟩ | ⟨lp, raw, -, hread⟩ := ingestTerritory_ok hok
      · cases hp
        rw [hpt] at hpt'
        cases hpt'
        rw [hsame.failed, hhealthy]
      · obtain ⟨tl, anchors, warnings, -, -, rfl⟩ := readTerritory_ok hread
        rfl

/-! ## Entries that failed -/

/-- A failed entry has no digest, so nothing confirms it as unchanged. -/
def FailedBlank (s : Snapshot) : Prop := ∀ t ∈ s.territories, t.failed = true → t.sourceDigest = ""

theorem ingestTerritory_not_failed {ps : PointerSet} {g : Fetcher} {t : Territory}
    (hprev : ∀ s ∈ prev, FailedBlank s) (h : (ingestTerritory rt cfg cy ps code prev g).1 = .ok t) :
    t.failed = false := by
  rw [ingestTerritory_fst] at h
  obtain ⟨t', hread, hfetch⟩ | ⟨-, ⟨e, hfetch⟩ | ⟨lp, e, pt, -, herr, hunchanged, hpt, hfetch⟩⟩ :=
    fetchTerritory_cases rt cfg cy ps code prev g <;> rw [hfetch] at h
  · cases h
    obtain ⟨lp, raw, -, -, hok⟩ := readTL_eq_some hread
    obtain ⟨tl, anchors, warnings, -, -, rfl⟩ := readTerritory_ok hok
    rfl
  · obtain ⟨s, pt, -, -, hhealthy, rfl⟩ := carryOver_ok h
    exact hhealthy
  · cases h
    obtain ⟨l, hlast, hconfirmed⟩ := (NationalTLSource.fetch_fails _ _ _ _ _ herr).2 hunchanged
    rw [hpt, Option.map_some, Option.some.injEq] at hlast
    subst hlast
    obtain ⟨s, hs, hpt⟩ := Option.bind_eq_some_iff.1 hpt
    by_contra hfailed
    exact hconfirmed.digest (hprev s hs pt (List.mem_of_find?_eq_some hpt) (by simpa using hfailed))

theorem entryOf_failed {ps : PointerSet} {codes : List String} {o : String × Except Err Territory}
    (hprev : ∀ s ∈ prev, FailedBlank s) (ho : o ∈ outcomes rt cfg cy ps prev codes f) :
    (entryOf o).failed = !o.2.isOk := by
  obtain ⟨g, -, hr⟩ := mem_outcomes ho
  obtain ⟨c, e | t⟩ := o
  · rfl
  · exact ingestTerritory_not_failed hprev hr.symm

theorem refresh_failedBlank (hprev : ∀ s ∈ prev, FailedBlank s)
    (h : refresh rt cfg cy prev boot f = (.ok next, f')) : FailedBlank next := by
  obtain ⟨res, f₁, outs, -, -, rfl, -, rfl⟩ := refresh_ok h
  intro t ht hfailed
  rw [stamp_territories, applyHoldMode_territories, cycleBase_territories] at ht
  obtain ⟨t₀, ht₀, rfl⟩ := List.mem_map.1 ht
  obtain ⟨⟨c, r⟩, ho, rfl⟩ := List.mem_map.1 ht₀
  rw [heldEntry_failed, entryOf_failed hprev ho] at hfailed
  cases r with
  | error e =>
      unfold heldEntry
      split <;> rfl
  | ok t => cases hfailed

theorem failedBlank_stable (rt : Runtime) (cfg : Config) :
    Stable rt cfg (fun _ _ _ _ => True) (fun _ => FailedBlank) where
  sameUpstream heq h := by
    unfold FailedBlank
    rw [heq.territories]
    exact h
  cycle hprev _ h := refresh_failedBlank hprev h
  approve h _ := by
    intro t ht hfailed
    obtain ht | ⟨t₀, ht₀ | rfl, -, rfl⟩ := mem_moveToTerritory ht
    · exact h t ht hfailed
    · exact h t₀ ht₀ hfailed
    · cases hfailed

end TrustAnchor.Ingest
