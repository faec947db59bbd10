import TrustAnchor.Ingest.Lemmas.Cluster
import TrustAnchor.Ingest.Lemmas.Served
import TrustAnchor.Ingest.Theorems.Alerts
import TrustAnchor.Ingest.Theorems.Approval

/-!
# The event trail

Whoever only has the log knows what is served: the additions and removals that the envelopes report lead, in order
and from nothing, to the places of the served anchors.
-/

namespace TrustAnchor.Ingest.Emission

open Lib Tsl Trust Events

variable {rt : Runtime} {cfg : Config} {cy : Cycle} {prev : Option Snapshot} {boot : Bootstrap} {m : Service}
  {ft : Time → String} {f : Fetcher} {next : Snapshot} {l : List Place}

/-! ## Reading a diff off its envelopes -/

/-- No territory has the name that envelopes have for the declared anchors. -/
def Named (s : Snapshot) : Prop := ∀ t ∈ s.territories, t.code ≠ "internal"

theorem placeOf_entry {s : Option Snapshot} (hs : Indexable s) (hnamed : ∀ s' ∈ s, Named s') {π : Place} {a : Anchor}
    (ha : (π, a) ∈ placed s) (kind : DiffKind) (detail : String) :
    SecurityEvent.placeOf (π.entry kind a detail).territory (π.entry kind a detail).fingerprint
      (π.entry kind a detail).type = (π.entry kind a detail).place := by
  rw [place_entry hs ha]
  cases s with
  | none => cases ha
  | some s =>
      obtain ⟨t, ht, -, rfl⟩ | ⟨-, rfl⟩ := mem_placed.1 ha
      · exact if_neg (hnamed s rfl t ht)
      · exact if_pos rfl

/-- The changes that the envelopes of a diff report are its own. -/
theorem change_changeEvents (hprev : Indexable prev) (hnext : Indexable (some next)) (hold : ∀ p ∈ prev, Named p)
    (hnew : Named next) (hdiff : next.diff = some (computeDiff prev next)) :
    heard ft Envelope.change (Manager.changeEvents next) = (computeDiff prev next).changes := by
  unfold heard Manager.changeEvents Diff.changes
  rw [hdiff, List.map_map, List.filterMap_map]
  refine List.filterMap_congr fun d hd => ?_
  have hplace : SecurityEvent.placeOf d.territory d.fingerprint d.type = d.place := by
    obtain ⟨π, a, ha, -, rfl⟩ | ⟨π, old, a, detail, -, ha, -, rfl, -⟩ | ⟨π, a, ha, -, rfl⟩ :=
      (mem_computeDiff hprev hnext).1 hd
    · exact placeOf_entry hnext (fun s hs => Option.some.inj hs ▸ hnew) ha _ _
    · exact placeOf_entry hnext (fun s hs => Option.some.inj hs ▸ hnew) ha _ _
    · exact placeOf_entry hprev hold ha _ _
  simp only [Function.comp_apply, Manager.changeEvent, SecurityEvent.change_envelope, ← hplace]
  cases d.kind <;> rfl

/-- What the other events say of changes is nothing: what is held has not come. -/
theorem change_pipelineEvents (f : Fetcher) :
    heard ft Envelope.change (pipelineEvents rt cfg cy prev boot f) = [] := by
  refine heard_eq_nil fun e he => ?_
  obtain ⟨code, nu, rfl⟩ | ⟨code, err, rfl⟩ | ⟨error, rfl⟩ | ⟨fp, rfl⟩ | ⟨code, a, rfl⟩ := mem_pipelineEvents he
  · simp
  · rcases failureEvent_cases code err with h | h <;> rw [h] <;> simp
  · simp
  · simp
  · simp

theorem change_persistEvents (refused : Option String) :
    heard ft Envelope.change (Manager.persistEvents refused) = [] := by
  refine heard_eq_nil fun e he => ?_
  obtain ⟨reason, rfl⟩ := mem_persistEvents he
  simp

theorem change_declaredEvents (load : Except Err (List Anchor)) :
    heard ft Envelope.change (declaredEvents load) = [] := by
  refine heard_eq_nil fun e he => ?_
  obtain ⟨error, rfl⟩ := mem_declaredEvents he
  simp

/-- An approval adds the place of what it approves. -/
theorem mem_places_of_approved {cur : Snapshot} {pa : PendingAnchor} (h : Approved cur pa next) {π : Place} :
    π ∈ places (some next) ↔
      π ∈ places (some cur) ∨ π = .listed pa.anchor.territory pa.anchor.fingerprintSHA256 := by
  obtain ⟨before, t, after, hcur, hcode, hnext⟩ := h.territories
  have hinternal : next.internal = cur.internal := by rw [h.frame]
  simp only [mem_places, mem_placed_withAnchor hcur hcode hnext hinternal]
  constructor
  · rintro ⟨b, hb | ⟨rfl, rfl⟩⟩
    · exact .inl ⟨b, hb⟩
    · exact .inr rfl
  · rintro (⟨b, hb⟩ | rfl)
    · exact ⟨b, .inl hb⟩
    · exact ⟨_, .inr ⟨rfl, rfl⟩⟩

/-- A cycle whose changes are not reported has the id of the one before, and so its places. -/
theorem places_of_unchanged (hsha : Function.Injective rt.sha256) (hjson : Function.Injective rt.marshalID)
    (hprev : ∀ p ∈ prev, WellFormed rt p) (hnext : WellFormed rt next) (h : ¬ Service.cycleChanged prev next)
    (π : Place) : π ∈ places prev ↔ π ∈ places (some next) := by
  cases prev with
  | none => simp [Service.cycleChanged] at h
  | some p =>
      have hid : p.id = next.id := by
        simp only [Service.cycleChanged, Bool.or_eq_true, not_or, decide_eq_true_eq, not_not] at h
        exact h.1.1.symm
      exact (hprev p rfl).places_eq hsha hjson hnext hid π

/-! ## One operation -/

/-- What is served can be told from envelopes. -/
structure Legible (rt : Runtime) (m : Service) : Prop where
  traced : Traced rt (fun _ => True) (WellFormed rt) m
  named : ∀ s ∈ m.active, Named s

/-- The log so far leads to what is served. -/
structure Told (rt : Runtime) (m : Service) (l : List Place) : Prop extends Legible rt m where
  told : ∀ π, π ∈ l ↔ π ∈ places m.active

theorem Legible.step (h : Legible rt m) {op : Op} (hnamed : ∀ s ∈ (m.step rt cfg op).active, Named s) :
    Legible rt (m.step rt cfg op) := ⟨h.traced.step (wellFormed_kept rt) trivial op, hnamed⟩

/-- A reconcile leaves the territories as they are. -/
theorem Legible.reconcileDeclared (h : Legible rt m) (d : Service.Declared) :
    Legible rt (m.reconcileDeclared rt cfg d).2 := by
  change Legible rt (m.step rt cfg (.reconcileDeclared d))
  refine h.step fun s hs => ?_
  change s ∈ (m.reconcileDeclared rt cfg d).2.active at hs
  obtain heq | ⟨p, next, rep, hp, hnext, heq⟩ := m.reconcileDeclared_cases d <;> rw [heq] at hs
  · exact h.named s hs
  · obtain rfl := Option.some.inj hs
    unfold Named
    rw [(refreshDeclared_ok hnext).1.territories]
    exact h.named p hp

theorem Legible.fetcher (h : Legible rt m) (f : Fetcher) : Legible rt { m with fetcher := f } :=
  ⟨⟨h.traced.active, h.traced.served, h.traced.stored, h.traced.steps⟩, h.named⟩

section Step

variable (hsha : Function.Injective rt.sha256) (hne : ∀ b, rt.sha256 b ≠ [])
  (hjson : Function.Injective rt.marshalID)

include hne in
theorem Told.replay (h : Told rt m l) (hnext : Advances rt cfg m.active next) (hnamed : Named next) (π : Place) :
    π ∈ Change.replay l (heard ft Envelope.change (Manager.changeEvents next)) ↔ π ∈ places (some next) := by
  have hwell : WellFormed rt next := (wellFormed_kept rt).advances trivial h.traced.of_active hnext
  have hprev : Indexable m.active := indexable_of_wellFormed hne h.traced.of_active
  rw [change_changeEvents hprev (hwell.indexable hne) h.named hnamed hnext.diff]
  exact mem_replay_computeDiff hprev (hwell.indexable hne) h.told

include hne in
theorem Told.reconcileDeclared (h : Told rt m l) (d : Service.Declared) :
    Told rt (m.reconcileDeclared rt cfg d).2
      (Change.replay l (heard ft Envelope.change (Manager.declaredReport rt cfg m d))) := by
  have hlegible : Legible rt (m.reconcileDeclared rt cfg d).2 := h.toLegible.reconcileDeclared d
  refine ⟨hlegible, ?_⟩
  unfold Manager.declaredReport
  unfold Service.reconcileDeclared at hlegible ⊢
  cases hp : m.active with
  | none => simpa [hp] using h.told
  | some p =>
      have hload : heard ft Envelope.change (if (cloneSnapshot rt p).isOk then
          declaredEvents (loadInternal rt d.readFile cfg.internalTrustSource d.now) else []) = [] := by
        split
        · exact change_declaredEvents _
        · rfl
      have hsame : ∀ π, π ∈ l ↔ π ∈ places m.active := h.told
      simp only [hp] at hlegible
      simp only [Option.elim_some, heard_append, hload, List.nil_append]
      rcases hnext : Ingest.refreshDeclared rt cfg d.readFile p d.now with e | ⟨_ | next, rep⟩
      · exact hsame
      · exact hsame
      · have hadvances : Advances rt cfg m.active next := hp ▸ .declared hnext
        rw [hnext] at hlegible
        simp only [heard_append, change_persistEvents, List.nil_append]
        exact h.replay hne hadvances (hlegible.named next rfl)

theorem Told.fetcher (h : Told rt m l) (f : Fetcher) : Told rt { m with fetcher := f } l :=
  ⟨h.toLegible.fetcher f, h.told⟩

include hsha hne hjson in
theorem Told.cycle (h : Told rt m l) (hboot : m.bootstrap = some boot) {inp : Service.RefreshInput}
    (hok : Ingest.refresh rt cfg inp.cycle m.active boot m.fetcher = (.ok next, f)) (hnamed : Named next) :
    Told rt ({ m with fetcher := f }.activateCycle inp next)
      (Change.replay l (heard ft Envelope.change (Manager.cycleEvents m.active inp next))) := by
  have hadvances : Advances rt cfg m.active next := .cycle hok
  have hmove : Move rt cfg False True { m with fetcher := f } ({ m with fetcher := f }.activateCycle inp next) :=
    Service.activateCycle_move hadvances (by simp [hboot]) False.elim
  have hpersist : heard ft Envelope.change
      (if Service.persists m.active next then Manager.persistEvents inp.saveSnapshot else []) = [] := by
    split
    · exact change_persistEvents _
    · rfl
  refine ⟨⟨(h.fetcher f).traced.move (wellFormed_kept rt) trivial hmove, ?_⟩, ?_⟩
  · intro s hs
    exact Option.some.inj hs ▸ hnamed
  · intro π
    rw [Manager.cycleEvents, heard_append, hpersist, List.nil_append]
    by_cases hchanged : Service.cycleChanged m.active next
    · rw [if_pos hchanged]
      exact h.replay hne hadvances hnamed π
    · rw [if_neg hchanged]
      have hwell : WellFormed rt next := (wellFormed_kept rt).advances trivial h.traced.of_active hadvances
      exact (h.told π).trans (places_of_unchanged hsha hjson h.traced.of_active hwell hchanged π)

include hsha hne hjson in
theorem Told.refresh (h : Told rt m l) (hboot : m.bootstrap = some boot) {inp : Service.RefreshInput}
    (hnamed : ∀ s ∈ (m.refresh rt cfg boot inp).2.active, Named s) :
    Told rt (m.refresh rt cfg boot inp).2
      (Change.replay l (heard ft Envelope.change (Manager.refreshEvents rt cfg m boot inp))) := by
  have hfirst : Told rt (m.reconcileDeclared rt cfg inp.declared).2 (Change.replay l (heard ft Envelope.change
      (Manager.declaredReport rt cfg m inp.declared))) := h.reconcileDeclared hne inp.declared
  rw [Manager.refreshEvents, heard_append, heard_append, change_pipelineEvents, List.append_nil, Change.replay_append]
  obtain ⟨e, f, herr, heq⟩ | ⟨next, f, hok, heq⟩ := m.refresh_cases boot inp <;> rw [heq] at hnamed ⊢
  · rw [herr]
    simpa [Manager.cycleReport] using hfirst.fetcher f
  · rw [hok]
    exact hfirst.cycle hsha hne hjson (by simpa using hboot) hok (hnamed next rfl)

include hne in
theorem Told.approvePending (h : Told rt m l) (cfg : Config) {fp actor : String} {now : Time}
    {refused : Option String} (hnamed : ∀ s ∈ (m.approvePending rt fp now refused).2.active, Named s) :
    Told rt (m.approvePending rt fp now refused).2
      (Change.replay l (heard ft Envelope.change (Manager.approvalReport rt m fp actor now refused))) := by
  have hlegible : Legible rt (m.step rt cfg (.approvePending fp now refused)) := h.toLegible.step hnamed
  refine ⟨hlegible, ?_⟩
  unfold Manager.approvalReport
  obtain ⟨e, heq⟩ | ⟨cur, pa, hcur, hpa, heq⟩ := m.approvePending_cases fp now refused <;> rw [heq] at hnamed ⊢
  · exact h.told
  · have happroved := (h.traced.of_active cur hcur).approved hne hpa now
    have hname : pa.anchor.territory ≠ "internal" := by
      obtain ⟨t, ht, hcode, -⟩ := happroved.activeIn
      exact hcode ▸ hnamed _ rfl t ht
    intro π
    simp only [hcur, Option.bind_some, hpa, Option.elim_some, Manager.approvalEvents, heard_cons, heard_nil,
      SecurityEvent.change_envelope, SecurityEvent.placeOf, if_neg hname, Option.toList_none, Option.toList_some,
      List.nil_append, List.append_nil]
    have htold := h.told π
    rw [hcur] at htold
    change π ∈ l.insert _ ↔ π ∈ places (some _)
    rw [List.mem_insert_iff, htold, mem_places_of_approved happroved, or_comm]

include hsha hjson in
/-- A start that finds what was served last goes on where the log is. -/
theorem Told.restart (h : Told rt m l) {st : Service.Startup} (hst : (m.newProcess.initializeManager st).1 = .ok ())
    (hpersisted : Persisted m) (hnamed : ∀ s ∈ (m.newProcess.initializeManager st).2.active, Named s) :
    Told rt (m.newProcess.initializeManager st).2 l := by
  refine ⟨⟨h.traced.restart st, hnamed⟩, fun π => ?_⟩
  rw [h.told, (restored hst).1]
  have hids := hpersisted.ids
  cases hstored : m.store.snapshot with
  | none =>
      rw [hstored, Option.map_none, eq_comm, Option.map_eq_none_iff] at hids
      rw [hids]
  | some s =>
      rw [hstored, Option.map_some, eq_comm, Option.map_eq_some_iff] at hids
      obtain ⟨p, hp, hid⟩ := hids
      rw [hp]
      exact (h.traced.of_active p hp).places_eq hsha hjson (h.traced.stored s hstored) hid π

end Step

theorem Told.step (hsha : Function.Injective rt.sha256) (hne : ∀ b, rt.sha256 b ≠ [])
    (hjson : Function.Injective rt.marshalID) (h : Told rt m l) {c : Command}
    (hrestart : ∀ st, c.op = .restart st → (m.newProcess.initializeManager st).1 = .ok () ∧ Persisted m)
    (hnamed : ∀ s ∈ (m.step rt c.cfg c.op).active, Named s) :
    Told rt (m.step rt c.cfg c.op)
      (Change.replay l (heard ft Envelope.change (Manager.opEvents rt c.cfg c.actor m c.op))) := by
  obtain ⟨cfg, actor, op⟩ := c
  cases op with
  | restart st =>
      obtain ⟨hst, hpersisted⟩ := hrestart st rfl
      exact h.restart hsha hjson hst hpersisted hnamed
  | reconcileDeclared d => exact h.reconcileDeclared hne d
  | refresh inp =>
      simp only [Service.step, Manager.opEvents] at hnamed ⊢
      cases hboot : m.bootstrap with
      | none => exact h
      | some boot =>
          rw [hboot] at hnamed
          exact h.refresh hsha hne hjson hboot hnamed
  | approvePending fp now refused => exact h.approvePending hne cfg hnamed

/-! ## Whole logs -/

/-- A start succeeds, and no envelope before it reports a refused write; nothing that is served then has a territory
under the name of the declared anchors. -/
def Command.Readable (rt : Runtime) (ft : Time → String) (s : Service × List SecurityEvent) (c : Command) : Prop :=
  (∀ st, c.op = .restart st → (s.1.newProcess.initializeManager st).1 = .ok () ∧
      heard ft (Envelope.failedStage "persist") s.2 = []) ∧
    ∀ s' ∈ (s.1.step rt c.cfg c.op).active, Named s'

/-- The log leads to what is served, which is in the store as long as the log has no refused write. -/
structure Recorded (rt : Runtime) (ft : Time → String) (s : Service × List SecurityEvent) : Prop where
  told : Told rt s.1 (Change.replay [] (heard ft Envelope.change s.2))
  persisted : heard ft (Envelope.failedStage "persist") s.2 = [] → Persisted s.1

theorem Recorded.emit (hsha : Function.Injective rt.sha256) (hne : ∀ b, rt.sha256 b ≠ [])
    (hjson : Function.Injective rt.marshalID) {s : Service × List SecurityEvent} (h : Recorded rt ft s) {c : Command}
    (hc : c.Readable rt ft s) : Recorded rt ft (c.emit rt s) := by
  obtain ⟨hrestart, hnamed⟩ := hc
  unfold Command.emit
  rw [Manager.step_eq]
  constructor
  · rw [heard_append, Change.replay_append]
    exact h.told.step hsha hne hjson (fun st hst => (hrestart st hst).imp_right h.persisted) hnamed
  · intro hheard
    rw [heard_append, List.append_eq_nil_iff] at hheard
    exact (h.persisted hheard.1).step (fun st hst => (hrestart st hst).1) hheard.2

/-- In every run over any number of processes that start, with no refused write reported before a start: the additions
and removals that the envelopes report, replayed from nothing, give the places of the anchors that are served. -/
theorem log_replays (hsha : Function.Injective rt.sha256) (hne : ∀ b, rt.sha256 b ≠ [])
    (hjson : Function.Injective rt.marshalID) (ft : Time → String) (cs : List Command) (maxSize : Int)
    (hcs : Meets (Command.emit rt) (fun s c => c.Readable rt ft s) cs (Service.empty maxSize, [])) (π : Place) :
    π ∈ Change.replay [] (heard ft Envelope.change (run rt cs (Service.empty maxSize, [])).2) ↔
      π ∈ places (run rt cs (Service.empty maxSize, [])).1.active := by
  have hempty : Recorded rt ft (Service.empty maxSize, []) :=
    ⟨⟨⟨⟨rfl, by simp [Service.empty], by simp [Service.empty], .nil⟩, by simp [Service.empty]⟩,
      by simp [Service.empty, places, placed]⟩, fun _ => .inl rfl⟩
  rw [run_eq_runFrom]
  have hend : Recorded rt ft (runFrom (Command.emit rt) cs (Service.empty maxSize, [])) :=
    runFrom_keeps (fun _ _ h hc => h.emit hsha hne hjson hc) hempty hcs
  exact hend.told.told π

section Growing

open Symbolic

/-- Two processes on one store; the list of the territory has grown in between. -/
def twoProcesses : List Command :=
  [install ["B"], Symbolic.refresh 5 (growingPages "1"), .restart {}, Symbolic.refresh 7 (growingPages "2")].map fun op =>
    ⟨config ["EE"] .auto 0, "", op⟩

theorem named_of_all {s : Option Snapshot} (h : s.all fun s => s.territories.all fun t => t.code ≠ "internal") :
    ∀ s' ∈ s, Named s' := by
  rintro s' rfl
  simpa [Named] using h

theorem log_replays_twoProcesses : ∃ π,
    π ∈ Change.replay []
        (heard (fun _ => "") Envelope.change (run growing.exact twoProcesses (Service.empty 100, [])).2) ∧
      π ∈ places (run growing.exact twoProcesses (Service.empty 100, [])).1.active := by
  have hplaces : 0 < (places (run growing.exact twoProcesses (Service.empty 100, [])).1.active).length := by
    decide +kernel
  obtain ⟨π, hπ⟩ := List.exists_mem_of_length_pos hplaces
  refine ⟨π, (log_replays growing.exact_sha256_injective growing.exact_sha256_ne_nil growing.exact_marshalID_injective
    (fun _ => "") twoProcesses 100 ?_ π).2 hπ, hπ⟩
  refine ⟨⟨?_, named_of_all (by decide +kernel)⟩, ⟨by simp [Symbolic.refresh], named_of_all (by decide +kernel)⟩,
    ⟨?_, named_of_all (by decide +kernel)⟩, ⟨by simp [Symbolic.refresh], named_of_all (by decide +kernel)⟩, trivial⟩
  · intro st hst
    obtain rfl := Op.restart.inj hst
    exact ⟨rfl, rfl⟩
  · intro st hst
    obtain rfl := Op.restart.inj hst
    exact ⟨by decide +kernel, by decide +kernel⟩

end Growing

end TrustAnchor.Ingest.Emission
