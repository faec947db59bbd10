import TrustAnchor.Ingest.Lemmas.Alerts
import TrustAnchor.Ingest.Lemmas.Changes
import TrustAnchor.Ingest.Lemmas.Served
import TrustAnchor.Ingest.Theorems.Health

/-!
# Alerts

The failures that an operation reports are those it met: the territories whose entries are marked, and the writes
that the store refused.
-/

namespace TrustAnchor.Ingest.Emission

open Lib Tsl Trust Events

variable {rt : Runtime} {cfg : Config} {cy : Cycle} {prev : Option Snapshot} {boot : Bootstrap} {ps : PointerSet}
  {code : String} {m : Service} {ft : Time → String} {f : Fetcher}

/-! ## Failed territories -/

/-- A failed entry has no digest to be confirmed by. -/
def Undigested (s : Snapshot) : Prop := ∀ t ∈ s.territories, t.failed = true → t.sourceDigest = ""

theorem undigested_stable (rt : Runtime) (cfg : Config) :
    Stable rt cfg (fun _ _ _ _ => True) fun _ s => Undigested s := by
  refine entries_stable id ?_ (by simp) ?_ ?_ ?_
  · intro src clock raw signersDER t h
    obtain ⟨tl, anchors, warnings, -, -, rfl⟩ := readTerritory_ok h
    simp
  · intro b cy p f t _ _ h _
    exact h
  · intro t reason _ hhealthy _
    simp [hhealthy]
  · intro code e _
    simp [failedTerritory]

/-- The marks of an entry that could not be confirmed or read. -/
def marked (t : Territory) : Bool := t.failed || t.carriedOver

/-- The entry is marked exactly if its list could not be fetched. -/
theorem marked_entryOf (hprev : ∀ p ∈ prev, Undigested p) :
    marked (entryOf (code, (Ingest.ingestTerritory rt cfg cy ps code prev f).1)) =
      !(Ingest.fetchTerritory rt cfg cy ps code prev f).1.isOk := by
  rw [ingestTerritory_fst]
  obtain ⟨t, hread, hfetch⟩ | ⟨-, ⟨e, hfetch⟩ | ⟨lp, e, pt, -, herr, hunchanged, hpt, hfetch⟩⟩ :=
    fetchTerritory_cases rt cfg cy ps code prev f <;> rw [hfetch]
  · obtain ⟨lp, raw, -, -, hok⟩ := readTL_eq_some hread
    obtain ⟨tl, anchors, warnings, -, -, rfl⟩ := readTerritory_ok hok
    rfl
  · simp only
    cases hcarry : carryOver prev code e with
    | error e' => rfl
    | ok t =>
        obtain ⟨p, pt, -, -, -, rfl⟩ := carryOver_ok hcarry
        simp [entryOf, marked, Except.isOk, Except.toBool]
  · obtain ⟨l, -, hfresh, -⟩ := (NationalTLSource.fetch_fails _ _ _ _ _ herr).2 hunchanged
    obtain ⟨p, rfl, hmem⟩ := Option.bind_eq_some_iff.1 hpt
    have hdigest : pt.sourceDigest ≠ "" := by
      rw [hpt] at hfresh
      intro hempty
      simp [nationalTLSource, hempty] at hfresh
    have hhealthy : pt.failed = false := by
      by_contra hfailed
      exact hdigest (hprev p rfl pt (List.mem_of_find?_eq_some hmem) (by simpa using hfailed))
    simp [entryOf, marked, hhealthy, Except.isOk, Except.toBool]

theorem failedTerritory_failureEvent (code : String) (err : Err) :
    ((failureEvent code err).envelope ft).failedTerritory = some code := by
  rcases failureEvent_cases code err with h | h <;> rw [h]
  · simp
  · simp [SecurityEvent.stageTerritory_territory]

theorem failedTerritory_territoryEvents :
    heard ft Envelope.failedTerritory (territoryEvents rt cfg cy ps prev code f) =
      if (Ingest.fetchTerritory rt cfg cy ps code prev f).1.isOk then [] else [code] := by
  have hstale : ∀ es : List SecurityEvent, (∀ e ∈ es, ∃ nu, e = .stale code nu) →
      heard ft Envelope.failedTerritory es = [] := by
    refine fun es hes => heard_eq_nil fun e he => ?_
    obtain ⟨nu, rfl⟩ := hes e he
    simp
  rw [territoryEvents, heard_append, hstale _ fun e he => mem_readEvents he]
  cases (Ingest.fetchTerritory rt cfg cy ps code prev f).1 with
  | ok t => rfl
  | error e =>
      rw [fallbackEvents, heard_cons, failedTerritory_failureEvent, hstale]
      · rfl
      · intro e' he'
        cases hcarry : carryOver prev code e with
        | error _ => simp [hcarry, Except.toOption] at he'
        | ok t =>
            rw [hcarry] at he'
            exact mem_staleEvents he'

/-- The territories that the loop reports as failed are those whose entries it marks. -/
theorem failedTerritory_loopEvents (hprev : ∀ p ∈ prev, Undigested p) (codes : List String) :
    heard ft Envelope.failedTerritory (loopEvents rt cfg cy ps prev codes f) =
      (((outcomes rt cfg cy ps prev codes f).map entryOf).filter marked).map Territory.code := by
  induction codes generalizing f with
  | nil => rfl
  | cons code codes ih =>
      have hcode : (entryOf (code, (Ingest.ingestTerritory rt cfg cy ps code prev f).1)).code = code := by
        cases hentry : (Ingest.ingestTerritory rt cfg cy ps code prev f).1 with
        | error e => rfl
        | ok t => exact ingestTerritory_code hentry
      rw [loopEvents, loopFetchers, List.flatMap_cons, heard_append, failedTerritory_territoryEvents, outcomes_cons,
        List.map_cons, List.filter_cons, marked_entryOf hprev, ← loopEvents, ih]
      cases (Ingest.fetchTerritory rt cfg cy ps code prev f).1.isOk
      · simp [hcode]
      · simp

/-- Hold mode leaves the marks alone. -/
theorem marked_codes_heldEntry (now : Time) (ts : List Territory) :
    ((ts.map (heldEntry cfg prev now)).filter marked).map Territory.code =
      (ts.filter marked).map Territory.code := by
  have hmarked : marked ∘ heldEntry cfg prev now = marked := by
    funext t
    unfold heldEntry
    simp only [Function.comp_apply]
    split <;> rfl
  rw [List.filter_map, List.map_map, hmarked]
  exact List.map_congr_left fun t _ => heldEntry_code

/-- A completed cycle reports as failed the territories whose entries are marked in its snapshot. -/
theorem failedTerritory_pipelineEvents (hprev : ∀ p ∈ prev, Undigested p) {next : Snapshot} {f' : Fetcher}
    (hok : Ingest.refresh rt cfg cy prev boot f = (.ok next, f')) :
    heard ft Envelope.failedTerritory (pipelineEvents rt cfg cy prev boot f) =
      (next.territories.filter marked).map Territory.code := by
  obtain ⟨res, f₁, outs, houts, rfl, hevents⟩ := pipelineEvents_of_ok hok
  have hquiet : heard ft Envelope.failedTerritory (declaredEvents (loadInternal rt cy.readFile cfg.internalTrustSource
      cy.now) ++ holdEvents cfg prev (cycleBase rt cfg cy prev boot res (outs.map entryOf)) cy.now) = [] := by
    refine heard_eq_nil fun e he => ?_
    rcases List.mem_append.1 he with h | h
    · obtain ⟨error, rfl⟩ := mem_declaredEvents h
      simp
    · obtain ⟨fp, rfl⟩ | ⟨code, a, rfl⟩ := mem_holdEvents h <;> simp
  rw [hevents, heard_append, hquiet, List.append_nil, failedTerritory_loopEvents hprev, ← houts, stamp_territories,
    applyHoldMode_territories, cycleBase_territories, marked_codes_heldEntry]

/-- A refresh whose cycle completes reports as failed the territories whose entries are marked. -/
theorem failedTerritory_refreshEvents {inp : Service.RefreshInput}
    (hprev : ∀ p ∈ (m.reconcileDeclared rt cfg inp.declared).2.active, Undigested p)
    {next : Snapshot} {f : Fetcher} (hok : Ingest.refresh rt cfg inp.cycle
      (m.reconcileDeclared rt cfg inp.declared).2.active boot (m.reconcileDeclared rt cfg inp.declared).2.fetcher =
        (.ok next, f)) :
    heard ft Envelope.failedTerritory (Manager.refreshEvents rt cfg m boot inp) =
      (next.territories.filter marked).map Territory.code := by
  have hdeclared : heard ft Envelope.failedTerritory (Manager.declaredReport rt cfg m inp.declared) = [] := by
    refine heard_eq_nil fun e he => ?_
    obtain ⟨error, rfl⟩ | ⟨reason, rfl⟩ | ⟨d, rfl⟩ := mem_declaredReport he <;> simp [Manager.changeEvent]
    decide
  have hcycle : heard ft Envelope.failedTerritory (Manager.cycleEvents
      (m.reconcileDeclared rt cfg inp.declared).2.active inp next) = [] := by
    refine heard_eq_nil fun e he => ?_
    obtain ⟨reason, rfl⟩ | ⟨d, rfl⟩ := mem_cycleEvents he <;> simp [Manager.changeEvent]
    decide
  rw [Manager.refreshEvents, heard_append, heard_append, hdeclared, hok, Manager.cycleReport, hcycle, List.append_nil,
    List.nil_append, failedTerritory_pipelineEvents hprev hok]

/-! ## Refused writes -/

/-- The store has what is served, or a snapshot that what is served has not changed from. -/
def Persisted (m : Service) : Prop :=
  m.store.snapshot.map unloaded = m.active.map unloaded ∨
    ∃ s₀ s, m.store.snapshot = some s₀ ∧ m.active = some s ∧ Unchanged s₀ s ∧ s.lotlDigest = s₀.lotlDigest

theorem Persisted.saved (cause : Cause) (next : Snapshot) :
    Persisted ((m.saveSnapshot none next).activate cause next) := .inl rfl

theorem Persisted.ids (h : Persisted m) : m.store.snapshot.map Snapshot.id = m.active.map Snapshot.id := by
  obtain heq | ⟨s₀, s, hs₀, hs, hsame, -⟩ := h
  · have hids := congrArg (Option.map Snapshot.id) heq
    rwa [Option.map_map, Option.map_map] at hids
  · rw [hs₀, hs, Option.map_some, Option.map_some, hsame.id]

/-- A snapshot that is not written has not changed. -/
theorem Persisted.unwritten {p next : Snapshot} (h : Persisted m) (hp : m.active = some p) (hnext : Unchanged p next)
    (hdigest : next.lotlDigest = p.lotlDigest) (cause : Cause) : Persisted (m.activate cause next) := by
  obtain heq | ⟨s₀, s, hs₀, hs, hsame, hdigest₀⟩ := h
  · rw [hp] at heq
    obtain ⟨s₀, hs₀, heq⟩ := Option.map_eq_some_iff.1 heq
    have hdigest₀ : (unloaded s₀).lotlDigest = (unloaded p).lotlDigest := by rw [heq]
    exact .inr ⟨s₀, next, hs₀, rfl, hnext.of_unloaded heq, hdigest.trans hdigest₀.symm⟩
  · cases hp.symm.trans hs
    exact .inr ⟨s₀, next, hs₀, rfl, hsame.trans hnext, hdigest.trans hdigest₀⟩

theorem Persisted.reconcileDeclared (h : Persisted m) {d : Service.Declared}
    (hheard : heard ft (Envelope.failedStage "persist") (Manager.declaredReport rt cfg m d) = []) :
    Persisted (m.reconcileDeclared rt cfg d).2 := by
  obtain heq | ⟨p, next, rep, hp, hnext, heq⟩ := m.reconcileDeclared_cases d <;> rw [heq]
  · exact h
  · simp only [Manager.declaredReport, hp, hnext, Option.elim_some, heard_append, failedStage_persistEvents,
      List.append_eq_nil_iff, Option.toList_eq_nil_iff] at hheard
    rw [hheard.2.1]
    exact .saved _ _

theorem Persisted.activateCycle (h : Persisted m) {inp : Service.RefreshInput} {next : Snapshot}
    (hheard : heard ft (Envelope.failedStage "persist") (Manager.cycleEvents m.active inp next) = []) (f : Fetcher) :
    Persisted ({ m with fetcher := f }.activateCycle inp next) := by
  unfold Manager.cycleEvents at hheard
  unfold Service.activateCycle
  simp only [heard_append, List.append_eq_nil_iff] at hheard
  by_cases hpersists : Service.persists m.active next
  · rw [if_pos hpersists, failedStage_persistEvents, Option.toList_eq_nil_iff] at hheard
    simp only [if_pos hpersists, hheard.1]
    exact .saved _ _
  · simp only [if_neg hpersists]
    cases hp : m.active with
    | none => simp [hp, Service.persists, Service.cycleChanged] at hpersists
    | some p =>
        simp only [hp, Service.persists, Option.any_some, Bool.or_eq_true, not_or, Bool.not_eq_true] at hpersists
        have hdigest : p.lotlDigest = next.lotlDigest := by simpa [Service.lotlInputChanged] using hpersists.2
        exact Persisted.unwritten (m := { m with fetcher := f }) h hp (cycleChanged_eq_false_iff.1 hpersists.1)
          hdigest.symm _

theorem Persisted.refresh (h : Persisted m) {inp : Service.RefreshInput}
    (hheard : heard ft (Envelope.failedStage "persist") (Manager.refreshEvents rt cfg m boot inp) = []) :
    Persisted (m.refresh rt cfg boot inp).2 := by
  simp only [Manager.refreshEvents, heard_append, List.append_eq_nil_iff] at hheard
  obtain ⟨⟨hdeclared, -⟩, hcycle⟩ := hheard
  have hfirst : Persisted (m.reconcileDeclared rt cfg inp.declared).2 := h.reconcileDeclared hdeclared
  obtain ⟨e, f, -, heq⟩ | ⟨next, f, hok, heq⟩ := m.refresh_cases boot inp <;> rw [heq]
  · exact hfirst
  · rw [hok] at hcycle
    exact hfirst.activateCycle hcycle f

/-- A process that has started serves the stored snapshot, if there is one. -/
theorem restored {st : Service.Startup} (h : (m.newProcess.initializeManager st).1 = .ok ()) :
    (m.newProcess.initializeManager st).2.active = m.store.snapshot ∧
      (m.newProcess.initializeManager st).2.store.snapshot = m.store.snapshot := by
  unfold Service.initializeManager at h ⊢
  obtain ⟨e, hload⟩ | ⟨b, hload, -⟩ := m.newProcess.loadBootstrap_cases st
  · rw [hload] at h
    cases h
  · rw [hload] at h ⊢
    simp only at h ⊢
    cases hsnap : st.loadSnapshot with
    | some e => simp [hsnap] at h
    | none =>
        simp only
        cases hstored : m.newProcess.store.snapshot with
        | none => exact ⟨hstored.symm, hstored.symm⟩
        | some s => exact ⟨hstored.symm, hstored.symm⟩

theorem Persisted.restart {st : Service.Startup} (h : (m.newProcess.initializeManager st).1 = .ok ()) :
    Persisted (m.newProcess.initializeManager st).2 := .inl (by rw [(restored h).1, (restored h).2])

/-- As long as no refused write is heard of, the store has what is served. -/
theorem Persisted.step (h : Persisted m) {actor : String} {op : Op}
    (hop : ∀ st, op = .restart st → (m.newProcess.initializeManager st).1 = .ok ())
    (hheard : heard ft (Envelope.failedStage "persist") (Manager.opEvents rt cfg actor m op) = []) :
    Persisted (m.step rt cfg op) := by
  cases op with
  | restart st => exact .restart (hop st rfl)
  | reconcileDeclared d => exact h.reconcileDeclared hheard
  | refresh inp =>
      unfold Service.step
      cases hboot : m.bootstrap with
      | none => exact h
      | some boot =>
          rw [Manager.opEvents, hboot] at hheard
          exact h.refresh hheard
  | approvePending fp now refused =>
      change Persisted (m.approvePending rt fp now refused).2
      obtain ⟨e, heq⟩ | ⟨cur, pa, -, -, heq⟩ := m.approvePending_cases fp now refused <;> rw [heq]
      · exact h
      · exact .saved _ _

theorem run_events (cs : List Command) (m : Service) (es : List SecurityEvent) :
    (run rt cs (m, es)).2 = es ++ (run rt cs (m, [])).2 := by
  induction cs generalizing m es with
  | nil => exact (List.append_nil es).symm
  | cons c cs ih =>
      simp only [run]
      rw [ih, ih _ ([] ++ _), List.nil_append, List.append_assoc]

theorem Persisted.run (h : Persisted m) {cs : List Command} (hcs : ∀ c ∈ cs, ∀ st, c.op ≠ .restart st)
    (hheard : heard ft (Envelope.failedStage "persist") (run rt cs (m, [])).2 = []) :
    Persisted (run rt cs (m, [])).1 := by
  induction cs generalizing m with
  | nil => exact h
  | cons c cs ih =>
      obtain ⟨hc, hcs⟩ := List.forall_mem_cons.1 hcs
      simp only [Emission.run, Manager.step_eq, List.nil_append] at hheard ⊢
      rw [run_events, heard_append, List.append_eq_nil_iff] at hheard
      have hrest : Persisted (Emission.run rt cs (m.step rt c.cfg c.op, [])).1 :=
        ih (h.step (fun st hst => absurd hst (hc st)) hheard.1) hcs hheard.2
      rwa [run_fst] at hrest ⊢

/-- The snapshot that is served after a restart and the one before it: nothing that is reported as a change, nor the
digest that the next download may be skipped for, and the same certificates for every query. -/
structure ServedAgain (rt : Runtime) (s' s : Snapshot) : Prop where
  unchanged : Unchanged s' s
  digest : s'.lotlDigest = s.lotlDigest
  bundles : ∀ q b, filter rt s q = .ok b → ∃ b', filter rt s' q = .ok b' ∧
    (b.map Anchor.certDER).Perm (b'.map Anchor.certDER)

theorem Persisted.servedAgain (hsha : Function.Injective rt.sha256) (hjson : Function.Injective rt.marshalID)
    (h : Persisted m) (htraced : Traced rt (fun _ => True) (WellFormed rt) m) :
    Option.Rel (ServedAgain rt) m.store.snapshot m.active := by
  have hbundles : ∀ {s₀ s : Snapshot}, m.store.snapshot = some s₀ → m.active = some s → Unchanged s₀ s →
      s.lotlDigest = s₀.lotlDigest → ServedAgain rt s₀ s := by
    intro s₀ s hs₀ hs hsame hdigest
    refine ⟨hsame, hdigest.symm, fun q b hb => ?_⟩
    obtain ⟨b', hb'⟩ := exists_filter_ok hb s₀
    exact ⟨b', hb', certs_perm hsha hjson (htraced.of_active s hs) (htraced.stored s₀ hs₀) hsame.id hb hb'⟩
  obtain heq | ⟨s₀, s, hs₀, hs, hsame, hdigest⟩ := h
  · cases hs : m.active with
    | none =>
        rw [hs, Option.map_none, Option.map_eq_none_iff] at heq
        rw [heq]
        exact .none
    | some s =>
        rw [hs, Option.map_some] at heq
        obtain ⟨s₀, hs₀, heq⟩ := Option.map_eq_some_iff.1 heq
        have hcodes : (s.territories.map Territory.code).Nodup := (htraced.of_active s hs).orderly.entries.codes
        have hdigest : (unloaded s).lotlDigest = (unloaded s₀).lotlDigest := by rw [heq]
        rw [hs₀]
        exact .some (hbundles hs₀ hs ((Unchanged.refl hcodes).of_unloaded heq) hdigest)
  · rw [hs₀, hs]
    exact .some (hbundles hs₀ hs hsame hdigest)

section Growing

open Symbolic

def seeded : Service.Startup := { seed := some (.ok ⟨1, "", [ofText "B"]⟩) }

def oneCycle : List Command := [⟨config ["EE"] .auto 0, "", Symbolic.refresh 5 (growingPages "1")⟩]

/-- A process on an empty store. -/
def installed : Service := ((Service.empty 100).newProcess.initializeManager seeded).2

/-- The process has run one cycle, with what it has emitted. -/
def served : Service × List SecurityEvent := run growing.exact oneCycle (installed, [])

end Growing

end TrustAnchor.Ingest.Emission
