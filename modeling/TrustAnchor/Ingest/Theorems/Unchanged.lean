import TrustAnchor.Ingest.Lemmas.Makings
import TrustAnchor.Ingest.Symbolic

/-!
# What a refresh calls unchanged

A refresh compares ids, held additions and the states of the territories. The snapshot it makes is served
either way, with everything else that it has.
-/

namespace TrustAnchor.Ingest

open Lib Tsl Trust

variable {rt : Runtime} {p next : Snapshot}

section Unchanged

variable {cfg : Config} {cy : Cycle} {boot : Bootstrap} {f f' : Fetcher}

/-- A cycle that reports no change leaves every bundle as it is and has an empty diff, exactly if what it
supplies says the same of the served anchors as the served snapshot. -/
theorem refresh_unchanged_step (hsha : Function.Injective rt.sha256) (hne : ∀ b, rt.sha256 b ≠ [])
    (hjson : Function.Injective rt.marshalID) (hp : WellFormed rt p)
    (h : refresh rt cfg cy (some p) boot f = (.ok next, f'))
    (hunchanged : Service.cycleChanged (some p) next = false) :
    ((∀ q, filter rt next q = filter rt p q) ∧ ∀ d ∈ next.diff, d.entries = []) ↔
      (Making.cycle cfg cy (some p) boot f).Agrees rt p := by
  have hprev : ∀ s ∈ some p, WellFormed rt s := by simpa using hp
  have hnext : WellFormed rt next := refresh_wellFormed hprev h
  have hid : next.id = p.id := by
    simp only [Service.cycleChanged, Bool.or_eq_false_iff, decide_eq_false_iff_not, not_not] at hunchanged
    exact hunchanged.1.1
  have hbundles : (∀ q, filter rt next q = filter rt p q) ↔ (Making.cycle cfg cy (some p) boot f).Agrees rt p :=
    Making.bundles_iff hsha hjson hp hprev (Making.result_cycle_ok h) hid
  rw [← hbundles]
  refine ⟨And.left, fun hsame => ⟨hsame, fun d hd => ?_⟩⟩
  have hplaced := (filter_eq_iff_placed hnext hp).1 hsame
  have hadvances : Advances rt cfg (some p) next := .cycle h
  rw [hadvances.diff, Option.mem_some_iff] at hd
  rw [← hd, computeDiff_eq_nil (hp.indexable hne) (hnext.indexable hne)]
  refine ⟨fun π => ?_, fun π old a hold ha => ?_⟩
  · simp only [mem_places, hplaced]
  · rw [eq_of_mem_keyed hp.arranged.places_nodup hold ((hplaced _).1 ha)]
    exact ⟨rfl, rfl, rfl, rfl⟩

/-- For a refresh that a run can make next and that reports no change. -/
theorem refresh_unchanged_call (hsha : Function.Injective rt.sha256) (hne : ∀ b, rt.sha256 b ≠ [])
    (hjson : Function.Injective rt.marshalID) {m : Service} (hwell : ∀ s ∈ m.active, WellFormed rt s)
    {inp : Service.RefreshInput} (hunchanged : (m.refresh rt cfg boot inp).1.changed = false) :
    ((∀ q, (m.refresh rt cfg boot inp).2.active.map (filter rt · q) = m.active.map (filter rt · q)) ∧
      ∀ next f', refresh rt cfg inp.cycle m.active boot m.fetcher = (.ok next, f') →
        ∀ d ∈ next.diff, d.entries = []) ↔
      ∀ next f', refresh rt cfg inp.cycle m.active boot m.fetcher = (.ok next, f') →
        ∀ p ∈ m.active, (Making.cycle cfg inp.cycle m.active boot m.fetcher).Agrees rt p := by
  obtain ⟨e, f, herr, hstate⟩ | ⟨next, f, hok, hcycle, hstate⟩ := m.refresh_of_unchanged hunchanged
  · simp [hstate, herr]
  · obtain ⟨p, hp⟩ : ∃ p, m.active = some p := by
      cases hactive : m.active with
      | none => simp [hactive, Service.cycleChanged] at hcycle
      | some p => exact ⟨p, rfl⟩
    have hactive : (m.refresh rt cfg boot inp).2.active = some next := by rw [hstate]; rfl
    rw [hp] at hok hcycle
    have hstep := refresh_unchanged_step hsha hne hjson (hwell p hp) hok hcycle
    rw [hactive, hp]
    simp only [Option.map_some, Option.some.injEq, Option.mem_def, hok]
    constructor
    · intro ⟨hbundles, hdiff⟩ _ _ _ p' hp'
      rw [← hp']
      exact hstep.1 ⟨hbundles, hdiff next f rfl⟩
    · intro hagrees
      obtain ⟨hbundles, hdiff⟩ := hstep.2 (hagrees next f rfl p rfl)
      refine ⟨hbundles, fun next' f'' heq => ?_⟩
      cases heq
      exact hdiff

end Unchanged

namespace Symbolic

/-- The second issue has the number of the first one and gives the service a name. -/
def renamed : World where
  documents :=
    [⟨ofText "L", ofText "B", lotl 1 [] ["B"] [pointer "EE" "" "https://ee/tl.xml" ["S"]]⟩,
      ⟨ofText "1", ofText "S", national "EE" 1 (some 100) ["K"]⟩,
      ⟨ofText "2", ofText "S",
        { national "EE" 1 (some 100) [] with
          providerList := some
            [{ name := []
               services := [{ typeIdentifier := serviceTypeCAQC, name := [⟨"en", "Root"⟩]
                              digitalIdentity := identity ["K"], status := statusBase ++ "granted"
                              statusStartingTime := 0, extensions := [] }] }] }⟩]
  urls := growing.urls

/-- The state after one cycle on the first issue. -/
def afterFirst (w : World) : Service :=
  w.exactRun (config ["EE"] .auto 0) [install ["B"], refresh 5 (growingPages "1")]

/-- Two cycles on the first issue. -/
def twice : List (Config × Op) :=
  [install ["B"], refresh 5 (growingPages "1"), refresh 6 (growingPages "1")].map fun op =>
    (config ["EE"] .auto 0, op)

/-- A refresh on the issue `n`. -/
def thenRefresh (w : World) (n : String) : Service.RefreshOutcome × Service :=
  (afterFirst w).refresh w.exact (config ["EE"] .auto 0) ⟨1, "", [ofText "B"]⟩ (refreshInput 6 (growingPages n))

end Symbolic

end TrustAnchor.Ingest
