import TrustAnchor.Ingest.Lemmas.Manager
import TrustAnchor.Ingest.Symbolic

/-!
# The health of an entry

An entry says whether it is carried over or failed, and why. A territory that a digest confirms after it was
carried over keeps the reason and loses the mark.
-/

namespace TrustAnchor.Ingest

open Lib Tsl Trust

variable {rt : Runtime} {cfg : Config} {cy : Cycle} {ps : PointerSet} {prev : Option Snapshot} {code : String}
  {f : Fetcher} {e : Err} {t : Territory}

/-! ## Every failure has a text -/

theorem orErr_eq_error {α : Type} {before : String} {r : Except Err α} (hbefore : before ≠ "")
    (h : orErr before r = .error e) : e.msg ≠ "" := by
  cases r with
  | ok a => cases h
  | error e' =>
      rw [← Except.error.inj h]
      simp [Err.wrap, hbefore]

theorem NationalTLSource.verify_text {src : NationalTLSource} {clock : Time} {raw : Raw} {pinned : List Bytes}
    (h : src.verify rt clock raw pinned = .error e) : e.msg ≠ "" := by
  simp only [verify, Result.bind_eq_error, Result.require_eq_error] at h
  obtain h | ⟨_, -, h | ⟨_, -, h | ⟨_, -, ⟨-, rfl⟩ | ⟨_, -, ⟨-, rfl⟩ | ⟨_, -, h⟩⟩⟩⟩⟩ := h
  · exact orErr_eq_error (by simp) h
  · exact orErr_eq_error (by simp) h
  · exact orErr_eq_error (by simp) h
  · simp [Err.failure]
  · simp [Err.failure]
  · cases h

theorem readTerritory_text {src : NationalTLSource} {clock : Time} {raw : Raw} {signersDER : List Bytes}
    (h : readTerritory rt src clock raw signersDER = .error e) : e.msg ≠ "" := by
  simp only [readTerritory, Result.bind_eq_error] at h
  obtain h | ⟨tl, -, h | ⟨_, -, h⟩⟩ := h
  · exact NationalTLSource.verify_text h
  · unfold NationalTLSource.extract extractAnchors at h
    simp only at h
    split at h
    · rw [← Except.error.inj h]
      simp [Err.failure]
    · cases h
  · cases h

theorem PointerSet.pointerFor_text (h : ps.pointerFor code = .error e) : e.msg ≠ "" := by
  unfold pointerFor at h
  split at h
  · rw [← Except.error.inj h]
    simp [TrustedList.errNoXMLPointer, Err.failure]
  · split_ifs at h with hfailure
    rw [← Except.error.inj h]
    exact hfailure

theorem fetchTerritory_text (h : (fetchTerritory rt cfg cy ps code prev f).1 = .error e) : e.msg ≠ "" := by
  unfold fetchTerritory at h
  cases hlp : ps.pointerFor code with
  | error e' =>
      rw [hlp] at h
      exact Except.error.inj h ▸ PointerSet.pointerFor_text hlp
  | ok lp =>
      simp only [hlp, Fallible.ofExcept_ok_bind_run, Fallible.attempt_bind_run] at h
      cases hfetch : (fetchTL rt cfg cy code lp (prev.bind (·.territory code)) f).1 with
      | ok raw =>
          rw [hfetch] at h
          exact readTerritory_text h
      | error e' =>
          rw [hfetch] at h
          have hsame : e' = e := by
            unfold reuseUnchanged at h
            simp only at h
            split at h
            · cases h
            · exact Except.error.inj h
          exact hsame ▸ (NationalTLSource.fetch_fails _ _ _ _ _ hfetch).1

theorem ingestTerritory_text (h : (ingestTerritory rt cfg cy ps code prev f).1 = .error e) : e.msg ≠ "" := by
  rw [ingestTerritory_fst] at h
  cases hfetch : (fetchTerritory rt cfg cy ps code prev f).1 with
  | ok t =>
      rw [hfetch] at h
      cases h
  | error e' =>
      rw [hfetch] at h
      simp only [carryOver] at h
      split at h
      · rw [← Except.error.inj h]
        simp [Err.wrap]
      · cases h

/-! ## Where an entry comes from -/

/-- The entry is fresh enough for its digest to be asked for. -/
def freshEntry (cfg : Config) (now : Time) (t : Territory) : Bool :=
  t.sourceDigest ≠ "" && t.nextUpdate.isSome && !t.staleAt now cfg.staleGrace

/-- The digest of the entry is published, and the entry is fresh enough for that to count. -/
def ConfirmedEntry (rt : Runtime) (cfg : Config) (cy : Cycle) (t : Territory) : Prop :=
  freshEntry cfg cy.now t = true ∧ Publishes rt cy.net (.tlDigest t.code) t.sourceDigest

/-- An entry is read, confirmed or carried over. -/
theorem ingestTerritory_origin (h : (ingestTerritory rt cfg cy ps code prev f).1 = .ok t) :
    (∃ src clock raw signersDER, readTerritory rt src clock raw signersDER = .ok t) ∨
    ∃ p pt, prev = some p ∧ pt ∈ p.territories ∧
      ((ConfirmedEntry rt cfg cy pt ∧ t = { pt with carriedOver := false }) ∨
        pt.failed = false ∧ ∃ reason, reason ≠ "" ∧
          t = { pt with carriedOver := true, carriedOverReason := reason }) := by
  rw [ingestTerritory_fst] at h
  obtain ⟨t', hread, hfetch⟩ | ⟨-, ⟨e, hfetch⟩ | ⟨lp, e, pt, -, herr, hunchanged, hpt, hfetch⟩⟩ :=
    fetchTerritory_cases rt cfg cy ps code prev f <;> rw [hfetch] at h
  · cases h
    obtain ⟨lp, raw, -, -, hok⟩ := readTL_eq_some hread
    exact .inl ⟨_, _, _, _, hok⟩
  · obtain ⟨p, pt, rfl, hpt, hhealthy, rfl⟩ := carryOver_ok h
    exact .inr ⟨p, pt, rfl, List.mem_of_find?_eq_some hpt, .inr ⟨hhealthy, e.msg, fetchTerritory_text hfetch, rfl⟩⟩
  · cases h
    obtain ⟨l, hlast, hfresh, -, hpublished⟩ := (NationalTLSource.fetch_fails _ _ _ _ _ herr).2 hunchanged
    rw [hpt] at hlast hfresh
    obtain rfl := Option.some.inj hlast
    obtain ⟨p, rfl, hpt⟩ := Option.bind_eq_some_iff.1 hpt
    obtain rfl : pt.code = code := by simpa using List.find?_some hpt
    exact .inr ⟨p, pt, rfl, List.mem_of_find?_eq_some hpt, .inl ⟨⟨hfresh, hpublished⟩, rfl⟩⟩

/-- What each way to make an entry keeps, whatever its anchors, all entries of a run have. -/
theorem entries_stable {Q : Territory → Prop} {C : Bootstrap → Cycle → Option Snapshot → Fetcher → Prop}
    (hanchors : ∀ {t as}, Q t → Q { t with anchors := as })
    (hread : ∀ {src clock raw signersDER t}, readTerritory rt src clock raw signersDER = .ok t → Q t)
    (hnew : ∀ {code}, Q { code := code })
    (hconfirmed : ∀ {b cy p f t}, C b cy (some p) f → t ∈ p.territories → Q t → ConfirmedEntry rt cfg cy t →
      Q { t with carriedOver := false })
    (hcarried : ∀ {t reason}, Q t → t.failed = false → reason ≠ "" →
      Q { t with carriedOver := true, carriedOverReason := reason })
    (hfailed : ∀ {code e}, e.msg ≠ "" → Q (failedTerritory code e)) :
    Stable rt cfg C fun _ s => ∀ t ∈ s.territories, Q t where
  sameUpstream heq h := by rwa [heq.territories]
  cycle {b cy prev f f' next} hprev hC h := by
    obtain ⟨res, f₁, outs, -, -, rfl, -, rfl⟩ := refresh_ok h
    intro t ht
    rw [stamp_territories, applyHoldMode_territories, cycleBase_territories] at ht
    obtain ⟨t₀, ht₀, rfl⟩ := List.mem_map.1 ht
    have hentry : Q t₀ := by
      obtain ⟨⟨c, r⟩, ho, rfl⟩ := List.mem_map.1 ht₀
      obtain ⟨g, -, hr⟩ := mem_outcomes ho
      cases r with
      | error e => exact hfailed (ingestTerritory_text hr.symm)
      | ok t =>
          obtain ⟨_, _, _, _, hok⟩ | ⟨p, pt, rfl, hpt, ⟨hok, rfl⟩ | ⟨hhealthy, reason, hne, rfl⟩⟩ :=
            ingestTerritory_origin hr.symm
          · exact hread hok
          · exact hconfirmed hC hpt (hprev p rfl pt hpt) hok
          · exact hcarried (hprev p rfl pt hpt) hhealthy hne
    unfold heldEntry
    split
    · exact hanchors hentry
    · exact hentry
  approve {b cur fp pa now} h _ := by
    intro t ht
    obtain ht | ⟨t₀, ht₀ | rfl, -, rfl⟩ := mem_moveToTerritory ht
    · exact h t ht
    · exact hanchors (h t₀ ht₀)
    · exact hanchors hnew

/-! ## Coherence -/

/-- The marks and the reasons of an entry agree. -/
structure Coherent (t : Territory) : Prop where
  carried : t.carriedOverReason ≠ "" ↔ t.carriedOver = true
  failed : t.failureReason ≠ "" ↔ t.failed = true
  apart : ¬ (t.carriedOver = true ∧ t.failed = true)

/-- No entry that was carried over is confirmed. -/
def Unconfirmed (rt : Runtime) (cfg : Config) (cy : Cycle) (prev : Option Snapshot) : Prop :=
  ∀ p ∈ prev, ∀ t ∈ p.territories, t.carriedOverReason ≠ "" → ¬ ConfirmedEntry rt cfg cy t

theorem coherent_stable (rt : Runtime) (cfg : Config) :
    Stable rt cfg (fun _ cy prev _ => Unconfirmed rt cfg cy prev) fun _ s => ∀ t ∈ s.territories, Coherent t := by
  refine entries_stable (fun h => ⟨h.carried, h.failed, h.apart⟩) ?_ ⟨by simp, by simp, by simp⟩ ?_ ?_ ?_
  · intro src clock raw signersDER t h
    obtain ⟨tl, anchors, warnings, -, -, rfl⟩ := readTerritory_ok h
    exact ⟨by simp, by simp, by simp⟩
  · intro b cy p f t hC ht h hconfirmed
    have hreason : t.carriedOverReason = "" := by
      by_contra hne
      exact hC p rfl t ht hne hconfirmed
    exact ⟨by simp [hreason], h.failed, by simp⟩
  · intro t reason h hhealthy hne
    exact ⟨by simp [hne], h.failed, by simp [hhealthy]⟩
  · intro code e hne
    exact ⟨by simp [failedTerritory], by simp [failedTerritory, hne], by simp [failedTerritory]⟩

theorem failed_stable (rt : Runtime) (cfg : Config) :
    Stable rt cfg (fun _ _ _ _ => True) fun _ s => ∀ t ∈ s.territories,
      (t.failureReason ≠ "" ↔ t.failed = true) ∧ ¬ (t.carriedOver = true ∧ t.failed = true) := by
  refine entries_stable id ?_ (by simp) ?_ ?_ ?_
  · intro src clock raw signersDER t h
    obtain ⟨tl, anchors, warnings, -, -, rfl⟩ := readTerritory_ok h
    simp
  · intro b cy p f t _ _ h _
    exact ⟨h.1, by simp⟩
  · intro t reason h hhealthy _
    exact ⟨h.1, by simp [hhealthy]⟩
  · intro code e hne
    simp [failedTerritory, hne]

/-- In every run, whatever is confirmed: what an entry says of its failure agrees, and no entry is both failed
and carried over. -/
theorem failed_coherent (ops : List (Config × Op)) (maxSize : Int) {s : Snapshot}
    (h : s ∈ ((Service.empty maxSize).run rt ops).active ∨
      s ∈ ((Service.empty maxSize).run rt ops).store.snapshot) :
    ∀ t ∈ s.territories,
      (t.failureReason ≠ "" ↔ t.failed = true) ∧ ¬ (t.carriedOver = true ∧ t.failed = true) := by
  have hrun := Holds.of_run (failed_stable rt) ops maxSize
  obtain ⟨b, -, hs⟩ := h.elim (hrun.active s) (hrun.stored s)
  exact hs

/-- In every run in which no cycle confirms an entry that was carried over, the marks and the reasons of all
entries agree. -/
theorem health_coherent (ops : List (Config × Op)) (maxSize : Int)
    (hops : CyclesMeet rt (fun cfg _ cy prev _ => Unconfirmed rt cfg cy prev) ops (Service.empty maxSize))
    {s : Snapshot} (h : s ∈ ((Service.empty maxSize).run rt ops).active ∨
      s ∈ ((Service.empty maxSize).run rt ops).store.snapshot) : ∀ t ∈ s.territories, Coherent t := by
  have hrun := Holds.run (coherent_stable rt) (.empty maxSize) hops
  obtain ⟨b, -, hs⟩ := h.elim (hrun.active s) (hrun.stored s)
  exact hs

namespace Symbolic

/-- The pages while the list cannot be downloaded. -/
def outage : List (String × Bytes) := [("https://eu/lotl.xml", ofText "L")]

/-- A cycle, an outage and a cycle that meets the given pages. -/
def outageOps (pages : List (String × Bytes)) : List Op :=
  [install ["B"], refresh 5 (growingPages "1"), refresh 6 outage, refresh 7 pages]

theorem unconfirmed_network {cfg : Config} {prev : Option Snapshot} {now : Time} {pages : List (String × Bytes)}
    (h : ∀ p ∈ prev, ∀ t ∈ p.territories, t.carriedOverReason ≠ "" → ∀ page ∈ pages, ∀ k ≤ page.2.length,
      rt.toLower (trimSpace (textOf (page.2.take k))) ≠ t.sourceDigest) :
    Unconfirmed rt cfg (cycle now pages) prev := by
  rintro p hp t ht hreason ⟨-, n, url, body, k, hnet, hdigest⟩
  have hpage : pages.lookup url = some body := by
    simp only [cycle, network] at hnet
    cases hlookup : pages.lookup url with
    | none =>
        rw [hlookup] at hnet
        cases hnet
    | some body' =>
        rw [hlookup] at hnet
        cases hnet
        rfl
  obtain ⟨before, after, rfl, -⟩ := List.lookup_eq_some_iff.1 hpage
  refine h p hp t ht hreason (url, body) (by simp) (min k body.length) (min_le_right _ _) ?_
  rwa [← List.take_eq_take_min]

end Symbolic

open Symbolic in
/-- The list could not be downloaded, and then its digest confirms it: the reason is left, without the
mark. -/
theorem health_incoherent : ∃ s, (growing.run (config ["EE"] .auto 0) (outageOps (growingPagesWithDigest "1"))).active
    = some s ∧ ∃ t ∈ s.territories, t.carriedOver = false ∧ t.carriedOverReason ≠ "" := by
  have hrun : (growing.run (config ["EE"] .auto 0) (outageOps (growingPagesWithDigest "1"))).active.any fun s =>
      s.territories.any fun t => !t.carriedOver && t.carriedOverReason ≠ "" := by decide +kernel
  obtain ⟨s, hs, hany⟩ := (Option.any_eq_true _ _).1 hrun
  obtain ⟨t, ht, hmarks⟩ := List.any_eq_true.1 hany
  obtain ⟨hmark, hreason⟩ := (Bool.and_eq_true _ _).mp hmarks
  exact ⟨s, hs, t, ht, by simpa using hmark, of_decide_eq_true hreason⟩

open Symbolic in
/-- The same outage, after which the list is downloaded again. -/
theorem health_coherent_outage : ∃ s, (growing.run (config ["EE"] .auto 0) (outageOps (growingPages "2"))).active
    = some s ∧ s.territories ≠ [] ∧ ∀ t ∈ s.territories, Coherent t := by
  have hrun : (growing.run (config ["EE"] .auto 0) (outageOps (growingPages "2"))).active.any fun s =>
      s.territories ≠ [] := by decide +kernel
  obtain ⟨s, hs, hne⟩ := (Option.any_eq_true _ _).1 hrun
  refine ⟨s, hs, of_decide_eq_true hne, health_coherent _ 100 ?_ (.inl hs)⟩
  refine ⟨trivial, fun b _ => unconfirmed_network ?_, fun b _ => unconfirmed_network ?_,
    fun b _ => unconfirmed_network ?_, trivial⟩
  · decide +kernel
  · decide +kernel
  · decide +kernel

end TrustAnchor.Ingest
