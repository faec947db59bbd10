import Mathlib.Data.List.Dedup
import TrustAnchor.Ingest.Lemmas.Sources

/-!
# What one cycle can do

For each function of the pipeline, what a success passed through. Statements about cycles are derived
from these and never look into the functions again.
-/

namespace TrustAnchor.Ingest

open Lib Tsl Trust

variable {rt : Runtime} {cfg : Config} {cy : Cycle} {prev : Option Snapshot} {boot : Bootstrap}

theorem reuseUnchanged_ok {α β : Type} {held : Option α} {reuse : α → β} {e : Err} {b : β}
    (h : reuseUnchanged held reuse e = .ok b) :
    e.unchanged = true ∧ ∃ a, held = some a ∧ b = reuse a := by
  unfold reuseUnchanged at h
  split at h
  · rename_i hunchanged
    cases h
    exact ⟨hunchanged, _, rfl, rfl⟩
  · cases h

/-! ## The list of the lists -/

/-- The result is carried over from the previous snapshot or read off a downloaded list that `Verify`
accepted under the pinned set. -/
theorem ingestLOTL_ok {f f' : Fetcher} {res : LOTLResult}
    (h : ingestLOTL rt cfg cy prev boot f = (.ok res, f')) :
    (∃ p e g, prev = some p ∧ fetchLOTL rt cfg cy prev f = (.error e, g) ∧ res = carriedLOTL p) ∨
      ∃ raw g pinned pivotSeq v, fetchLOTL rt cfg cy prev f = (.ok raw, g) ∧
        pinnedSigners rt prev boot = .ok (pinned, pivotSeq) ∧
        ({ lotlSource cfg cy.now prev with pivotSeq }.verify rt (cy.clock .lotl) cy.net raw pinned g).1 =
          .ok v ∧ res = freshLOTL rt raw v := by
  simp only [ingestLOTL, Fallible.attempt_bind_run] at h
  rcases hfetch : fetchLOTL rt cfg cy prev f with ⟨e | raw, g⟩ <;> rw [hfetch] at h
  · obtain ⟨-, p, hp, hres⟩ := reuseUnchanged_ok (congrArg Prod.fst h)
    exact .inl ⟨p, e, g, hp, rfl, hres⟩
  · obtain ⟨⟨pinned, seq⟩, g', hp, h⟩ := Fallible.bind_eq_ok.1 h
    obtain rfl := (Prod.mk.inj hp).2
    obtain ⟨v, f₂, hv, h⟩ := Fallible.bind_eq_ok.1 h
    cases h
    exact .inr ⟨raw, g, pinned, seq, v, rfl, (Prod.mk.inj hp).1, congrArg Prod.fst hv, rfl⟩

/-! ## Territories -/

theorem readTerritory_ok {src : NationalTLSource} {clock : Time} {raw : Raw} {signersDER : List Bytes}
    {t : Territory} (h : readTerritory rt src clock raw signersDER = .ok t) :
    ∃ tl anchors warnings, src.verify rt clock raw signersDER = .ok tl ∧
      src.extract rt tl = .ok (anchors, warnings) ∧
      t = { code := src.code, tlSequence := tl.schemeInformation.tslSequenceNumber
            issueTime := tl.schemeInformation.listIssueDateTime
            nextUpdate := tl.schemeInformation.nextUpdate, sourceDigest := raw.digest
            anchors := anchors.map fun a =>
              { a with tlSequence := toInt64 tl.schemeInformation.tslSequenceNumber }
            skipped := skipped warnings } := by
  simp only [readTerritory, Result.bind_eq_ok] at h
  obtain ⟨tl, htl, ⟨anchors, warnings⟩, hex, h⟩ := h
  cases h
  exact ⟨tl, anchors, warnings, htl, hex, rfl⟩

/-- The entry of a territory whose list is downloaded and accepted. -/
def readTL (rt : Runtime) (cfg : Config) (cy : Cycle) (ps : PointerSet) (prev : Option Snapshot)
    (code : String) (f : Fetcher) : Option Territory :=
  match ps.pointerFor code with
  | .error _ => none
  | .ok lp =>
    match (fetchTL rt cfg cy code lp (prev.bind (·.territory code)) f).1 with
    | .error _ => none
    | .ok raw => (readTerritory rt (nationalTLSource cfg cy.now code lp (prev.bind (·.territory code)))
        (cy.clock (.tl code)) raw lp.signersDER).toOption

theorem readTL_eq_some {ps : PointerSet} {code : String} {f : Fetcher} {t : Territory}
    (h : readTL rt cfg cy ps prev code f = some t) :
    ∃ lp raw, ps.pointerFor code = .ok lp ∧
      (fetchTL rt cfg cy code lp (prev.bind (·.territory code)) f).1 = .ok raw ∧
      readTerritory rt (nationalTLSource cfg cy.now code lp (prev.bind (·.territory code)))
        (cy.clock (.tl code)) raw lp.signersDER = .ok t := by
  unfold readTL at h
  split at h
  · cases h
  · rename_i lp hlp
    split at h
    · cases h
    · rename_i raw hraw
      refine ⟨lp, raw, hlp, hraw, ?_⟩
      generalize readTerritory rt _ _ raw lp.signersDER = r at h ⊢
      cases r with
      | error e => cases h
      | ok t' =>
          cases h
          rfl

/-- The entry is the one read off a downloaded list, or the previous one, confirmed unchanged; without
either the territory fails. -/
theorem fetchTerritory_cases (rt : Runtime) (cfg : Config) (cy : Cycle) (ps : PointerSet) (code : String)
    (prev : Option Snapshot) (f : Fetcher) :
    (∃ t, readTL rt cfg cy ps prev code f = some t ∧
      (fetchTerritory rt cfg cy ps code prev f).1 = .ok t) ∨
    (readTL rt cfg cy ps prev code f = none ∧
      ((∃ e, (fetchTerritory rt cfg cy ps code prev f).1 = .error e) ∨
        ∃ lp e pt, ps.pointerFor code = .ok lp ∧
          (fetchTL rt cfg cy code lp (prev.bind (·.territory code)) f).1 = .error e ∧ e.unchanged = true ∧
          prev.bind (·.territory code) = some pt ∧
          (fetchTerritory rt cfg cy ps code prev f).1 = .ok { pt with carriedOver := false })) := by
  unfold fetchTerritory readTL
  cases hlp : ps.pointerFor code with
  | error e => simp
  | ok lp =>
      simp only [Fallible.ofExcept_ok_bind_run, Fallible.attempt_bind_run]
      cases hfetch : (fetchTL rt cfg cy code lp (prev.bind (·.territory code)) f).1 with
      | ok raw =>
          simp only
          cases readTerritory rt (nationalTLSource cfg cy.now code lp (prev.bind (·.territory code)))
            (cy.clock (.tl code)) raw lp.signersDER with
          | error e => exact .inr ⟨rfl, .inl ⟨e, rfl⟩⟩
          | ok t => exact .inl ⟨t, rfl, rfl⟩
      | error e =>
          refine .inr ⟨rfl, ?_⟩
          simp only
          cases hreuse : reuseUnchanged (prev.bind (·.territory code))
            (fun t => { t with carriedOver := false }) e with
          | error e' => exact .inl ⟨e', rfl⟩
          | ok t =>
              obtain ⟨hunchanged, pt, hpt, rfl⟩ := reuseUnchanged_ok hreuse
              exact .inr ⟨lp, e, pt, rfl, hfetch, hunchanged, hpt, rfl⟩

theorem ingestTerritory_fst {ps : PointerSet} {code : String} {f : Fetcher} :
    (ingestTerritory rt cfg cy ps code prev f).1 =
      match (fetchTerritory rt cfg cy ps code prev f).1 with
      | .ok t => .ok t
      | .error e => carryOver prev code e := by
  unfold ingestTerritory
  rw [Fallible.attempt_bind_run]
  cases (fetchTerritory rt cfg cy ps code prev f).1 <;> rfl

theorem carryOver_ok {code : String} {e : Err} {t : Territory} (h : carryOver prev code e = .ok t) :
    ∃ p pt, prev = some p ∧ p.territory code = some pt ∧ pt.failed = false ∧
      t = { pt with carriedOver := true, carriedOverReason := e.msg } := by
  unfold carryOver at h
  split at h
  · cases h
  · rename_i pt hpt
    cases h
    obtain ⟨hpt, hfailed⟩ := Option.filter_eq_some_iff.1 hpt
    obtain ⟨p, rfl, hpt⟩ := Option.bind_eq_some_iff.1 hpt
    exact ⟨p, pt, rfl, hpt, by simpa using hfailed, rfl⟩

/-- The entry `t` is the earlier entry `pt`, except for whether and why it is carried over. -/
structure Reused (pt t : Territory) : Prop where
  code : t.code = pt.code
  tlSequence : t.tlSequence = pt.tlSequence
  nextUpdate : t.nextUpdate = pt.nextUpdate
  sourceDigest : t.sourceDigest = pt.sourceDigest
  failed : t.failed = pt.failed
  anchors : t.anchors = pt.anchors

/-- The entry is read off a downloaded list or taken from the previous snapshot; without either the
territory fails. -/
theorem ingestTerritory_cases (rt : Runtime) (cfg : Config) (cy : Cycle) (ps : PointerSet) (code : String)
    (prev : Option Snapshot) (f : Fetcher) :
    (∃ t, readTL rt cfg cy ps prev code f = some t ∧
      (ingestTerritory rt cfg cy ps code prev f).1 = .ok t) ∨
    (readTL rt cfg cy ps prev code f = none ∧
      ((∃ e, (ingestTerritory rt cfg cy ps code prev f).1 = .error e) ∨
        ∃ p pt t, prev = some p ∧ p.territory code = some pt ∧
          (ingestTerritory rt cfg cy ps code prev f).1 = .ok t ∧ Reused pt t)) := by
  rw [ingestTerritory_fst]
  obtain ⟨t, hread, hfetch⟩ | ⟨hread, ⟨e, hfetch⟩ | ⟨-, -, pt, -, -, -, hpt, hfetch⟩⟩ :=
    fetchTerritory_cases rt cfg cy ps code prev f
  · exact .inl ⟨t, hread, by rw [hfetch]⟩
  · refine .inr ⟨hread, ?_⟩
    rw [hfetch]
    cases hcarry : carryOver prev code e with
    | error e' => exact .inl ⟨e', hcarry⟩
    | ok t =>
        obtain ⟨p, pt, rfl, hpt, -, rfl⟩ := carryOver_ok hcarry
        exact .inr ⟨p, pt, _, rfl, hpt, hcarry, rfl, rfl, rfl, rfl, rfl, rfl⟩
  · obtain ⟨p, rfl, hpt⟩ := Option.bind_eq_some_iff.1 hpt
    exact .inr ⟨hread, .inr ⟨p, pt, { pt with carriedOver := false }, rfl, hpt, by rw [hfetch], rfl, rfl,
      rfl, rfl, rfl, rfl⟩⟩

theorem ingestTerritory_ok {ps : PointerSet} {code : String} {f : Fetcher} {t : Territory}
    (h : (ingestTerritory rt cfg cy ps code prev f).1 = .ok t) :
    (∃ p pt, prev = some p ∧ p.territory code = some pt ∧ Reused pt t) ∨
    ∃ lp raw, ps.pointerFor code = .ok lp ∧
      readTerritory rt (nationalTLSource cfg cy.now code lp (prev.bind (·.territory code)))
        (cy.clock (.tl code)) raw lp.signersDER = .ok t := by
  obtain ⟨t', hread, hok⟩ | ⟨-, ⟨e, herr⟩ | ⟨p, pt, t', hp, hpt, hok, hsame⟩⟩ :=
    ingestTerritory_cases rt cfg cy ps code prev f
  · rw [h] at hok
    cases hok
    obtain ⟨lp, raw, hlp, -, hok⟩ := readTL_eq_some hread
    exact .inr ⟨lp, raw, hlp, hok⟩
  · rw [h] at herr
    cases herr
  · rw [h] at hok
    cases hok
    exact .inl ⟨p, pt, hp, hpt, hsame⟩

theorem ingestTerritory_code {ps : PointerSet} {code : String} {f : Fetcher} {t : Territory}
    (h : (ingestTerritory rt cfg cy ps code prev f).1 = .ok t) : t.code = code := by
  obtain ⟨p, pt, rfl, hpt, hsame⟩ | ⟨lp, raw, -, hread⟩ := ingestTerritory_ok h
  · rw [hsame.code]
    simpa using List.find?_some hpt
  · obtain ⟨tl, anchors, warnings, -, -, rfl⟩ := readTerritory_ok hread
    rfl

theorem expandTerritories_nodup (configured : List String) (ps : PointerSet) :
    (expandTerritories configured ps).Nodup :=
  (List.perm_insertionSort _ _).nodup_iff.2 (List.nodup_dedup _)

/-- The fetcher as the loop finds it at each code. -/
def loopFetchers (rt : Runtime) (cfg : Config) (cy : Cycle) (ps : PointerSet) (prev : Option Snapshot) :
    List String → Fetcher → List (String × Fetcher)
  | [], _ => []
  | code :: codes, f =>
    (code, f) :: loopFetchers rt cfg cy ps prev codes (ingestTerritory rt cfg cy ps code prev f).2

/-- The outcome of the loop at each code, in order. -/
def outcomes (rt : Runtime) (cfg : Config) (cy : Cycle) (ps : PointerSet) (prev : Option Snapshot)
    (codes : List String) (f : Fetcher) : List (String × Except Err Territory) :=
  (loopFetchers rt cfg cy ps prev codes f).map fun o =>
    (o.1, (ingestTerritory rt cfg cy ps o.1 prev o.2).1)

theorem outcomes_cons (ps : PointerSet) (code : String) (codes : List String) (f : Fetcher) :
    outcomes rt cfg cy ps prev (code :: codes) f =
      (code, (ingestTerritory rt cfg cy ps code prev f).1) ::
        outcomes rt cfg cy ps prev codes (ingestTerritory rt cfg cy ps code prev f).2 := rfl

/-- The entry that the loop makes of an outcome. -/
def entryOf : String × Except Err Territory → Territory
  | (_, .ok t) => t
  | (code, .error e) => failedTerritory code e

/-- The loop succeeds whatever its territories do; the count is that of the successful ones. -/
theorem ingestTerritories_fst {ps : PointerSet} (codes : List String) (f : Fetcher) :
    (ingestTerritories rt cfg cy ps prev codes f).1 =
      .ok ((outcomes rt cfg cy ps prev codes f).map entryOf,
        (outcomes rt cfg cy ps prev codes f).countP fun o => o.2.isOk) := by
  induction codes generalizing f with
  | nil => rfl
  | cons code codes ih =>
      have hrest := ih (ingestTerritory rt cfg cy ps code prev f).2
      simp only [ingestTerritories, outcomes_cons, Fallible.attempt_bind_run]
      rcases hloop : ingestTerritories rt cfg cy ps prev codes
        (ingestTerritory rt cfg cy ps code prev f).2 with ⟨r, f₂⟩
      rw [hloop] at hrest
      cases hrest
      cases (ingestTerritory rt cfg cy ps code prev f).1 with
      | error e => simp [Fallible.bind_run, hloop, entryOf, Except.isOk, Except.toBool]
      | ok t => simp [Fallible.bind_run, hloop, entryOf, Except.isOk, Except.toBool]

theorem loopFetchers_map_fst {ps : PointerSet} (codes : List String) (f : Fetcher) :
    (loopFetchers rt cfg cy ps prev codes f).map Prod.fst = codes := by
  induction codes generalizing f with
  | nil => rfl
  | cons code codes ih => simp [loopFetchers, ih]

theorem outcomes_map_fst {ps : PointerSet} (codes : List String) (f : Fetcher) :
    (outcomes rt cfg cy ps prev codes f).map Prod.fst = codes := by
  rw [outcomes, List.map_map]
  exact loopFetchers_map_fst codes f

theorem mem_outcomes {ps : PointerSet} {codes : List String} {f : Fetcher}
    {o : String × Except Err Territory} (h : o ∈ outcomes rt cfg cy ps prev codes f) :
    ∃ g, (o.1, g) ∈ loopFetchers rt cfg cy ps prev codes f ∧
      o.2 = (ingestTerritory rt cfg cy ps o.1 prev g).1 := by
  obtain ⟨⟨code, g⟩, hmem, rfl⟩ := List.mem_map.1 h
  exact ⟨g, hmem, rfl⟩

theorem outcomes_map_code {ps : PointerSet} (codes : List String) (f : Fetcher) :
    ((outcomes rt cfg cy ps prev codes f).map entryOf).map Territory.code = codes := by
  rw [List.map_map]
  refine (List.map_congr_left fun o ho => ?_).trans (outcomes_map_fst codes f)
  obtain ⟨g, -, hr⟩ := mem_outcomes ho
  obtain ⟨code, e | t⟩ := o
  · rfl
  · exact ingestTerritory_code hr.symm

/-! ## The fields of the new snapshot -/

section Frame

variable {next : Snapshot}

@[simp] theorem stamp_territories : (stamp rt prev next).territories = next.territories := rfl

@[simp] theorem stamp_pending : (stamp rt prev next).pending = next.pending := rfl

@[simp] theorem stamp_lotlSignersDER : (stamp rt prev next).lotlSignersDER = next.lotlSignersDER := rfl

@[simp] theorem stamp_lotlPivotSeq : (stamp rt prev next).lotlPivotSeq = next.lotlPivotSeq := rfl

@[simp] theorem stamp_lotlPointers : (stamp rt prev next).lotlPointers = next.lotlPointers := rfl

@[simp] theorem stamp_lotlSequence : (stamp rt prev next).lotlSequence = next.lotlSequence := rfl

@[simp] theorem stamp_lotlDigest : (stamp rt prev next).lotlDigest = next.lotlDigest := rfl

@[simp] theorem stamp_internal : (stamp rt prev next).internal = next.internal := rfl

variable {now : Time}

theorem applyHoldMode_auto (h : cfg.activationMode ≠ .hold) : applyHoldMode rt cfg prev next now = next := by
  simp [applyHoldMode, h]

@[simp] theorem applyHoldMode_lotlSignersDER :
    (applyHoldMode rt cfg prev next now).lotlSignersDER = next.lotlSignersDER := by
  unfold applyHoldMode
  split <;> rfl

@[simp] theorem applyHoldMode_lotlPivotSeq :
    (applyHoldMode rt cfg prev next now).lotlPivotSeq = next.lotlPivotSeq := by
  unfold applyHoldMode
  split <;> rfl

@[simp] theorem applyHoldMode_lotlPointers :
    (applyHoldMode rt cfg prev next now).lotlPointers = next.lotlPointers := by
  unfold applyHoldMode
  split <;> rfl

@[simp] theorem applyHoldMode_lotlSequence :
    (applyHoldMode rt cfg prev next now).lotlSequence = next.lotlSequence := by
  unfold applyHoldMode
  split <;> rfl

@[simp] theorem applyHoldMode_lotlDigest :
    (applyHoldMode rt cfg prev next now).lotlDigest = next.lotlDigest := by
  unfold applyHoldMode
  split <;> rfl

@[simp] theorem applyHoldMode_internal : (applyHoldMode rt cfg prev next now).internal = next.internal := by
  unfold applyHoldMode
  split <;> rfl

theorem mem_applyHoldMode_territories {t : Territory}
    (h : t ∈ (applyHoldMode rt cfg prev next now).territories) :
    ∃ t₀ ∈ next.territories, t.code = t₀.code ∧ ∀ a ∈ t.anchors, a ∈ t₀.anchors := by
  unfold applyHoldMode at h
  split at h
  · exact ⟨t, h, rfl, fun _ ha => ha⟩
  · obtain ⟨t₀, ht₀, rfl⟩ := List.mem_map.1 h
    exact ⟨t₀, ht₀, rfl, fun _ ha => (List.mem_filter.1 ha).1⟩

/-- What hold mode adds to the pending set are anchors of the new snapshot's territories. -/
theorem mem_applyHoldMode_pending {pa : PendingAnchor}
    (h : pa ∈ (applyHoldMode rt cfg prev next now).pending) :
    pa ∈ next.pending ∨ ∃ t ∈ next.territories, pa.anchor ∈ t.anchors := by
  unfold applyHoldMode at h
  split at h
  · exact .inl h
  · rw [Sorter.mem_run, List.mem_append] at h
    refine h.imp id fun h => ?_
    obtain ⟨t, ht, h⟩ := List.mem_flatMap.1 h
    obtain ⟨a, ha, h⟩ := List.mem_filterMap.1 h
    obtain ⟨f, -, rfl⟩ := Option.map_eq_some_iff.1 h
    exact ⟨t, ht, ha⟩

end Frame

/-! ## The whole cycle -/

/-- The snapshot before hold mode and id: the list of the lists, the entries and the declared set. -/
def cycleBase (rt : Runtime) (cfg : Config) (cy : Cycle) (prev : Option Snapshot) (boot : Bootstrap)
    (res : LOTLResult) (ts : List Territory) : Snapshot :=
  (applyDeclaredSources rt cfg cy.readFile prev (buildSnapshot cy.now boot res ts) cy.now).1

section CycleBase

variable {res : LOTLResult} {ts : List Territory}

@[simp] theorem cycleBase_territories : (cycleBase rt cfg cy prev boot res ts).territories = ts := rfl

@[simp] theorem cycleBase_pending : (cycleBase rt cfg cy prev boot res ts).pending = [] := rfl

@[simp] theorem cycleBase_lotlSignersDER :
    (cycleBase rt cfg cy prev boot res ts).lotlSignersDER = res.signersDER := rfl

@[simp] theorem cycleBase_lotlPivotSeq :
    (cycleBase rt cfg cy prev boot res ts).lotlPivotSeq = res.pivotSeq := rfl

@[simp] theorem cycleBase_lotlPointers :
    (cycleBase rt cfg cy prev boot res ts).lotlPointers = res.pointers.list := rfl

@[simp] theorem cycleBase_lotlSequence :
    (cycleBase rt cfg cy prev boot res ts).lotlSequence = res.sequence := rfl

@[simp] theorem cycleBase_lotlDigest :
    (cycleBase rt cfg cy prev boot res ts).lotlDigest = res.digest := rfl

theorem cycleBase_internal : (cycleBase rt cfg cy prev boot res ts).internal =
    (declaredSet (cfg.internalTrustSource ≠ "") ((prev.map (·.internal)).getD [])
      (loadInternal rt cy.readFile cfg.internalTrustSource cy.now)).1 := rfl

end CycleBase

theorem territory_of_mem {s : Snapshot} {t : Territory} {code : String}
    (hcodes : (s.territories.map Territory.code).Nodup) (ht : t ∈ s.territories) (hcode : t.code = code) :
    s.territory code = some t := by
  subst hcode
  unfold Snapshot.territory
  cases hfind : s.territories.find? fun u => u.code = t.code with
  | none => simpa using List.find?_eq_none.1 hfind t ht
  | some u =>
      have hcode : u.code = t.code := by simpa using List.find?_some hfind
      rw [List.inj_on_of_nodup_map hcodes (List.mem_of_find?_eq_some hfind) ht hcode]

theorem refresh_ok {f f' : Fetcher} {next : Snapshot}
    (h : refresh rt cfg cy prev boot f = (.ok next, f')) :
    ∃ res f₁ outs,
      ingestLOTL rt cfg cy prev boot f = (.ok res, f₁) ∧
      (∀ p, prev = some p → p.lotlSequence ≤ res.sequence) ∧
      outs = outcomes rt cfg cy res.pointers prev (expandTerritories cfg.territories res.pointers) f₁ ∧
      (expandTerritories cfg.territories res.pointers ≠ [] → outs.countP (fun o => o.2.isOk) ≠ 0) ∧
      next = stamp rt prev
        (applyHoldMode rt cfg prev (cycleBase rt cfg cy prev boot res (outs.map entryOf)) cy.now) := by
  obtain ⟨res, f₁, hres, h⟩ := Fallible.bind_eq_ok.1 h
  obtain ⟨⟨⟩, f₂, hseq, h⟩ := Fallible.bind_eq_ok.1 h
  obtain ⟨hreq, rfl⟩ := Prod.mk.inj hseq
  have hloop : (ingestTerritories rt cfg cy res.pointers prev
      (expandTerritories cfg.territories res.pointers) f₁).1 = _ := ingestTerritories_fst ..
  obtain ⟨⟨ts, n⟩, f₂, hts, h⟩ := Fallible.bind_eq_ok.1 h
  rw [hts] at hloop
  cases hloop
  refine ⟨res, f₁, _, hres, ?_, rfl, ?_⟩
  · rintro p rfl
    exact Result.require_eq_ok.1 hreq p rfl
  · simp only at h
    split at h
    · cases h
    · rename_i hfloor
      cases h
      exact ⟨fun hne hzero => hfloor ⟨hne, hzero⟩, rfl⟩

theorem refresh_succeeds {f f₁ : Fetcher} {res : LOTLResult}
    (hres : ingestLOTL rt cfg cy prev boot f = (.ok res, f₁)) (hseq : ∀ p ∈ prev, p.lotlSequence ≤ res.sequence)
    (hfloor : expandTerritories cfg.territories res.pointers ≠ [] →
      (outcomes rt cfg cy res.pointers prev (expandTerritories cfg.territories res.pointers) f₁).countP
        (fun o => o.2.isOk) ≠ 0) :
    ∃ next f', refresh rt cfg cy prev boot f = (.ok next, f') := by
  have hchecked : Fallible.ofExcept (checkSequence prev res) f₁ = (.ok (), f₁) :=
    congrArg (·, f₁) (Result.require_eq_ok.2 hseq)
  rcases hts : ingestTerritories rt cfg cy res.pointers prev
    (expandTerritories cfg.territories res.pointers) f₁ with ⟨r, f₂⟩
  have hloop : (ingestTerritories rt cfg cy res.pointers prev
      (expandTerritories cfg.territories res.pointers) f₁).1 = _ := ingestTerritories_fst ..
  rw [hts] at hloop
  subst hloop
  let ts := (outcomes rt cfg cy res.pointers prev (expandTerritories cfg.territories res.pointers) f₁).map
    entryOf
  refine ⟨stamp rt prev (applyHoldMode rt cfg prev (cycleBase rt cfg cy prev boot res ts) cy.now), f₂,
    Fallible.bind_eq_ok.2 ⟨res, f₁, hres, Fallible.bind_eq_ok.2 ⟨(), f₁, hchecked,
      Fallible.bind_eq_ok.2 ⟨_, f₂, hts, ?_⟩⟩⟩⟩
  simp only
  rw [if_neg fun h => hfloor h.1 h.2]
  rfl

/-- An entry after hold mode. -/
def heldEntry (cfg : Config) (prev : Option Snapshot) (now : Time) (t : Territory) : Territory :=
  if cfg.activationMode = .hold then { t with anchors := keptAnchors cfg prev now t } else t

@[simp] theorem heldEntry_code {now : Time} {t : Territory} : (heldEntry cfg prev now t).code = t.code := by
  unfold heldEntry
  split <;> rfl

@[simp] theorem heldEntry_tlSequence {now : Time} {t : Territory} :
    (heldEntry cfg prev now t).tlSequence = t.tlSequence := by
  unfold heldEntry
  split <;> rfl

theorem mem_of_mem_heldEntry {now : Time} {t : Territory} {a : Anchor}
    (h : a ∈ (heldEntry cfg prev now t).anchors) : a ∈ t.anchors := by
  unfold heldEntry at h
  split at h
  · exact (List.mem_filter.1 h).1
  · exact h

@[simp] theorem heldEntry_failed {now : Time} {t : Territory} :
    (heldEntry cfg prev now t).failed = t.failed := by
  unfold heldEntry
  split <;> rfl

@[simp] theorem heldEntry_carriedOver {now : Time} {t : Territory} :
    (heldEntry cfg prev now t).carriedOver = t.carriedOver := by
  unfold heldEntry
  split <;> rfl

theorem applyHoldMode_territories {next : Snapshot} {now : Time} :
    (applyHoldMode rt cfg prev next now).territories = next.territories.map (heldEntry cfg prev now) := by
  unfold applyHoldMode heldEntry
  by_cases h : cfg.activationMode = .hold <;> simp [h]

@[simp] theorem entryOf_ingestTerritory_code {ps : PointerSet} {code : String} {g : Fetcher} :
    (entryOf (code, (ingestTerritory rt cfg cy ps code prev g).1)).code = code := by
  cases hr : (ingestTerritory rt cfg cy ps code prev g).1 with
  | error e => rfl
  | ok t => exact ingestTerritory_code hr

theorem refresh_territories {f f' : Fetcher} {next : Snapshot}
    (h : refresh rt cfg cy prev boot f = (.ok next, f')) :
    ∃ res f₁, ingestLOTL rt cfg cy prev boot f = (.ok res, f₁) ∧
      next.territories = (loopFetchers rt cfg cy res.pointers prev
        (expandTerritories cfg.territories res.pointers) f₁).map fun o =>
          heldEntry cfg prev cy.now (entryOf (o.1, (ingestTerritory rt cfg cy res.pointers o.1 prev o.2).1)) := by
  obtain ⟨res, f₁, outs, hres, -, rfl, -, rfl⟩ := refresh_ok h
  refine ⟨res, f₁, hres, ?_⟩
  rw [stamp_territories, applyHoldMode_territories, cycleBase_territories, outcomes, List.map_map,
    List.map_map]
  rfl

theorem refresh_territory {f f' : Fetcher} {next : Snapshot}
    (h : refresh rt cfg cy prev boot f = (.ok next, f')) :
    ∃ res f₁, ingestLOTL rt cfg cy prev boot f = (.ok res, f₁) ∧ next.lotlPointers = res.pointers.list ∧
      ∀ code g, (code, g) ∈ loopFetchers rt cfg cy res.pointers prev
          (expandTerritories cfg.territories res.pointers) f₁ →
        next.territory code = some (heldEntry cfg prev cy.now
          (entryOf (code, (ingestTerritory rt cfg cy res.pointers code prev g).1))) := by
  obtain ⟨res, f₁, hres, hts⟩ := refresh_territories h
  obtain ⟨res', f₁', outs, hres', -, -, -, hnext⟩ := refresh_ok h
  rw [hres] at hres'
  cases hres'
  refine ⟨res, f₁, hres, by simp [hnext], fun code g hg => ?_⟩
  refine territory_of_mem ?_ ?_ (by simp : (heldEntry cfg prev cy.now
    (entryOf (code, (ingestTerritory rt cfg cy res.pointers code prev g).1))).code = code)
  · rw [hts, List.map_map]
    have hcodes : (Territory.code ∘ fun o : String × Fetcher => heldEntry cfg prev cy.now
        (entryOf (o.1, (ingestTerritory rt cfg cy res.pointers o.1 prev o.2).1))) = Prod.fst := by
      funext o
      simp
    rw [hcodes, loopFetchers_map_fst]
    exact expandTerritories_nodup _ _
  · rw [hts]
    exact List.mem_map.2 ⟨(code, g), hg, rfl⟩

theorem refresh_territory_eq_some {f f' : Fetcher} {next : Snapshot} {code : String} {t : Territory}
    (h : refresh rt cfg cy prev boot f = (.ok next, f')) (ht : next.territory code = some t) :
    ∃ res f₁ g, ingestLOTL rt cfg cy prev boot f = (.ok res, f₁) ∧
      (code, g) ∈ loopFetchers rt cfg cy res.pointers prev
        (expandTerritories cfg.territories res.pointers) f₁ ∧
      t = heldEntry cfg prev cy.now
        (entryOf (code, (ingestTerritory rt cfg cy res.pointers code prev g).1)) := by
  obtain ⟨res, f₁, hres, hts⟩ := refresh_territories h
  have hmem := List.mem_of_find?_eq_some ht
  have hcode : t.code = code := by simpa using List.find?_some ht
  rw [hts] at hmem
  obtain ⟨⟨c, g⟩, hg, rfl⟩ := List.mem_map.1 hmem
  obtain rfl : c = code := by simpa using hcode
  exact ⟨res, f₁, g, hres, hg, rfl⟩

end TrustAnchor.Ingest
