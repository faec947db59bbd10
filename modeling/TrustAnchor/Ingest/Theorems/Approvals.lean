import TrustAnchor.Ingest.Theorems.EventTrail

/-!
# Approvals on record

In hold mode nothing that a list adds is served without an approval on record, and every approval on record has put
something into service: the log has as many approvals of a certificate as additions of it.
-/

namespace TrustAnchor.Ingest.Emission

open Lib Tsl Trust Events

variable {rt : Runtime} {cfg : Config} {cy : Cycle} {boot : Bootstrap} {m : Service} {ft : Time → String}
  {f f' : Fetcher} {prev : Option Snapshot} {p next : Snapshot}

/-! ## Additions -/

/-- The territory and the fingerprint of an addition to a list. -/
def listedAddition : Change Place → Option (String × String)
  | .added (.listed code fp) => some (code, fp)
  | _ => none

theorem mem_listedAdditions {changes : List (Change Place)} {code fp : String} :
    (code, fp) ∈ changes.filterMap listedAddition ↔ .added (.listed code fp) ∈ changes := by
  rw [List.mem_filterMap]
  constructor
  · rintro ⟨c, hc, h⟩
    unfold listedAddition at h
    split at h
    · cases h
      exact hc
    · cases h
  · exact fun h => ⟨_, h, rfl⟩

/-- The change that an entry with this kind at this place stands for. -/
def subjectChange : DiffKind × Place → Option (Change Place)
  | (.added, π) => some (.added π)
  | (.removed, π) => some (.removed π)
  | (.changed, _) => none

theorem changes_eq_filterMap (d : Diff) : d.changes = (d.entries.map subject).filterMap subjectChange := by
  rw [Diff.changes, List.filterMap_map]
  refine List.filterMap_congr fun e _ => ?_
  simp only [Function.comp_apply, subject]
  cases e.kind <;> rfl

theorem listedAdditions_nodup (hprev : Indexable prev) (hnext : Indexable (some next)) :
    ((computeDiff prev next).changes.filterMap listedAddition).Nodup := by
  rw [changes_eq_filterMap]
  refine ((subjects_nodup hprev hnext).filterMap ?_).filterMap ?_
  · rintro ⟨kind, π⟩ ⟨kind', π'⟩ c h h'
    cases kind <;> cases kind' <;> cases h <;> cases h' <;> rfl
  · intro c c' e h h'
    obtain ⟨code, fp⟩ := e
    have hadded : ∀ {c : Change Place}, listedAddition c = some (code, fp) → c = .added (.listed code fp) := by
      rintro ((_ | _) | _) h <;> cases h
      rfl
    rw [hadded h, hadded h']

/-! ## Releases -/

/-- The anchor was held and is served from this cycle on. -/
def released (cfg : Config) (p : Snapshot) (now : Time) (code : String) (a : Anchor) : Bool :=
  holdKey code a.fingerprintSHA256 ∉ prevActive p &&
    (heldSince cfg (some p) now (holdKey code a.fingerprintSHA256)).isNone

theorem approved_holdEvent (now : Time) (code : String) (a : Anchor) :
    heard ft Envelope.approved (holdEvent cfg (some p) now code a).toList =
      if released cfg p now code a then [a.fingerprintSHA256] else [] := by
  unfold released holdEvent heldSince
  by_cases hactive : holdKey code a.fingerprintSHA256 ∈ prevActive p
  · simp [hactive]
  · cases hpending : prevPending p (holdKey code a.fingerprintSHA256) with
    | none => simp [hactive, hpending]
    | some pa =>
        by_cases hreleased : 0 < cfg.holdAutoRelease ∧ cfg.holdAutoRelease ≤ timeSub now pa.firstSeen <;>
          simp [hactive, hpending, hreleased]

/-- The territories and fingerprints that hold mode releases. -/
def releases (cfg : Config) (p : Snapshot) (now : Time) (ts : List Territory) : List (String × String) :=
  ts.flatMap fun t => (t.anchors.filter (released cfg p now t.code)).map fun a => (t.code, a.fingerprintSHA256)

theorem approved_holdEvents (hhold : cfg.activationMode = .hold) (now : Time) :
    heard ft Envelope.approved (holdEvents cfg (some p) next now) =
      (releases cfg p now next.territories).map Prod.snd := by
  have hterritory : ∀ (code : String) (as : List Anchor),
      heard ft Envelope.approved (as.filterMap (holdEvent cfg (some p) now code)) =
        (as.filter (released cfg p now code)).map Anchor.fingerprintSHA256 := by
    intro code as
    induction as with
    | nil => rfl
    | cons a as ih =>
        have hcons : (a :: as).filterMap (holdEvent cfg (some p) now code) =
            (holdEvent cfg (some p) now code a).toList ++ as.filterMap (holdEvent cfg (some p) now code) := by
          cases h : holdEvent cfg (some p) now code a <;> simp [h]
        rw [hcons, heard_append, approved_holdEvent, ih, List.filter_cons]
        split <;> rfl
  rw [holdEvents, if_neg (by simp [hhold]), heard_flatMap, releases, List.map_flatMap]
  refine List.flatMap_congr fun t _ => ?_
  rw [hterritory, List.map_map]
  rfl

theorem releases_nodup {ts : List Territory} (hts : OrderlyEntries rt ts) (now : Time) :
    (releases cfg p now ts).Nodup := by
  rw [releases, List.nodup_flatMap]
  constructor
  · intro t ht
    refine List.Nodup.of_map Prod.snd ?_
    rw [List.map_map]
    exact (hts.fingerprints t ht).sublist (List.filter_sublist.map _)
  · refine (List.pairwise_map.1 hts.codes).imp fun hne x hx hx' => ?_
    obtain ⟨a, -, rfl⟩ := List.mem_map.1 hx
    obtain ⟨b, -, hb⟩ := List.mem_map.1 hx'
    exact hne (Prod.mk.inj hb).1.symm

theorem mem_releases (hp : Orderly rt p) {ts : List Territory} (hts : OrderlyEntries rt ts) {now : Time}
    {code fp : String} : (code, fp) ∈ releases cfg p now ts ↔
      (Listed ts code fp ∧ heldSince cfg (some p) now (holdKey code fp) = none) ∧ ¬ ActiveIn p code fp := by
  simp only [releases, List.mem_flatMap, List.mem_map, List.mem_filter, released, Bool.and_eq_true, decide_eq_true_eq,
    Option.isNone_iff_eq_none]
  constructor
  · rintro ⟨t, ht, a, ⟨ha, hactive, hnone⟩, hpair⟩
    obtain ⟨rfl, rfl⟩ := Prod.mk.inj hpair
    rw [mem_prevActive hp (hts.anchors t ht a ha).slash_notMem] at hactive
    exact ⟨⟨⟨t, ht, rfl, a, ha, rfl⟩, hnone⟩, hactive⟩
  · rintro ⟨⟨⟨t, ht, rfl, a, ha, rfl⟩, hnone⟩, hactive⟩
    rw [← mem_prevActive hp (hts.anchors t ht a ha).slash_notMem] at hactive
    exact ⟨t, ht, a, ⟨ha, hactive, hnone⟩, rfl⟩

theorem listed_mem_places {s : Snapshot} {code fp : String} :
    .listed code fp ∈ places (some s) ↔ ActiveIn s code fp := by
  simp only [mem_places, mem_placed, ActiveIn, Listed]
  constructor
  · rintro ⟨a, ⟨t, ht, ha, heq⟩ | ⟨-, heq⟩⟩
    · obtain ⟨rfl, rfl⟩ := Place.listed.inj heq
      exact ⟨t, ht, rfl, a, ha, rfl⟩
    · cases heq
  · rintro ⟨t, ht, rfl, a, ha, rfl⟩
    exact ⟨a, .inl ⟨t, ht, ha, rfl⟩⟩

theorem approved_loopEvents {ps : PointerSet} (codes : List String) (f : Fetcher) :
    heard ft Envelope.approved (loopEvents rt cfg cy ps prev codes f) = [] := by
  refine heard_eq_nil fun e he => ?_
  obtain ⟨o, -, he⟩ := List.mem_flatMap.1 he
  obtain ⟨nu, rfl⟩ | ⟨err, rfl⟩ := mem_territoryEvents he
  · simp
  · rcases failureEvent_cases o.1 err with h | h <;> rw [h] <;> simp

theorem approved_declaredEvents (load : Except Err (List Anchor)) :
    heard ft Envelope.approved (declaredEvents load) = [] := by
  refine heard_eq_nil fun e he => ?_
  obtain ⟨error, rfl⟩ := mem_declaredEvents he
  simp

/-- A cycle in hold mode approves what its diff adds to the lists. -/
theorem approved_pipelineEvents (hne : ∀ b, rt.sha256 b ≠ []) (hhold : cfg.activationMode = .hold)
    (hp : WellFormed rt p) (hok : Ingest.refresh rt cfg cy (some p) boot f = (.ok next, f')) :
    (heard ft Envelope.approved (pipelineEvents rt cfg cy (some p) boot f)).Perm
      (((computeDiff (some p) next).changes.filterMap listedAddition).map Prod.snd) := by
  have hprev : ∀ s ∈ some p, WellFormed rt s := fun s hs => Option.some.inj hs ▸ hp
  have hnext : WellFormed rt next := (wellFormed_kept rt).advances trivial hprev (.cycle hok)
  have hindex := hp.indexable hne
  have hindex' := hnext.indexable hne
  obtain ⟨res, f₁, outs, rfl, rfl, hevents⟩ := pipelineEvents_of_ok hok
  have hts : OrderlyEntries rt ((outcomes rt cfg cy res.pointers (some p)
      (expandTerritories cfg.territories res.pointers) f₁).map entryOf) :=
    outcomes_orderly (fun s hs => (hprev s hs).orderly) (expandTerritories_nodup cfg.territories res.pointers)
  rw [hevents, heard_append, heard_append, approved_loopEvents, approved_declaredEvents, approved_holdEvents hhold,
    cycleBase_territories, List.nil_append, List.nil_append]
  refine List.Perm.map _ ((List.perm_ext_iff_of_nodup (releases_nodup hts cy.now)
    (listedAdditions_nodup hindex hindex')).2 ?_)
  rintro ⟨code, fp⟩
  rw [mem_listedAdditions, mem_changes_added hindex hindex', mem_releases hp.orderly hts, listed_mem_places,
    listed_mem_places]
  refine and_congr_left fun _ => ?_
  have hactive : ActiveIn (Ingest.applyHoldMode rt cfg (some p) (cycleBase rt cfg cy (some p) boot res
      ((outcomes rt cfg cy res.pointers (some p) (expandTerritories cfg.territories res.pointers) f₁).map entryOf))
      cy.now) code fp ↔ _ := activeIn_applyHoldMode hhold
  exact hactive.symm

/-! ## One operation -/

/-- The approvals and the additions to lists among the events are about the same certificates. -/
def Matched (ft : Time → String) (es : List SecurityEvent) : Prop :=
  (heard ft Envelope.approved es).Perm (((heard ft Envelope.change es).filterMap listedAddition).map Prod.snd)

theorem Matched.append {es es' : List SecurityEvent} (h : Matched ft es) (h' : Matched ft es') :
    Matched ft (es ++ es') := by
  unfold Matched
  rw [heard_append, heard_append, List.filterMap_append, List.map_append]
  exact List.Perm.append h h'

/-- What adds nothing to a list needs no approval. -/
theorem matched_of_nil {es : List SecurityEvent} (h : heard ft Envelope.approved es = [])
    (h' : (heard ft Envelope.change es).filterMap listedAddition = []) : Matched ft es := by
  rw [Matched, h, h']
  exact .nil

section Step

variable (hsha : Function.Injective rt.sha256) (hne : ∀ b, rt.sha256 b ≠ [])
  (hjson : Function.Injective rt.marshalID)

include hne in
/-- The declared anchors are not listed ones. -/
theorem matched_declaredReport (h : Legible rt m) (d : Service.Declared) :
    Matched ft (Manager.declaredReport rt cfg m d) := by
  refine matched_of_nil (heard_eq_nil fun e he => ?_) ?_
  · obtain ⟨error, rfl⟩ | ⟨reason, rfl⟩ | ⟨d, rfl⟩ := mem_declaredReport he <;> simp [Manager.changeEvent]
  · unfold Manager.declaredReport
    cases hp : m.active with
    | none => rfl
    | some p =>
        have hload : heard ft Envelope.change (if (cloneSnapshot rt p).isOk then
            declaredEvents (loadInternal rt d.readFile cfg.internalTrustSource d.now) else []) = [] := by
          split
          · exact change_declaredEvents _
          · rfl
        simp only [Option.elim_some, heard_append, hload, List.nil_append]
        rcases hnext : Ingest.refreshDeclared rt cfg d.readFile p d.now with e | ⟨_ | next, rep⟩
        · rfl
        · rfl
        · have hadvances : Advances rt cfg m.active next := hp ▸ .declared hnext
          have hterritories := (refreshDeclared_ok hnext).1.territories
          have hnamed : Named next := by
            unfold Named
            rw [hterritories]
            exact h.named p hp
          have hprev : Indexable m.active := indexable_of_wellFormed hne h.traced.of_active
          have hindex : Indexable (some next) :=
            ((wellFormed_kept rt).advances trivial h.traced.of_active hadvances).indexable hne
          simp only [heard_append, change_persistEvents, List.nil_append]
          rw [change_changeEvents hprev hindex h.named hnamed hadvances.diff, List.eq_nil_iff_forall_not_mem]
          rintro ⟨code, fp⟩ hmem
          rw [mem_listedAdditions, mem_changes_added hprev hindex, hp, listed_mem_places, listed_mem_places, ActiveIn,
            ActiveIn, hterritories] at hmem
          exact hmem.2 hmem.1

include hsha hne hjson in
/-- A cycle in hold mode reports as added what it has approved. -/
theorem matched_cycle (h : Legible rt m) (hp : m.active = some p) (hhold : cfg.activationMode = .hold)
    {inp : Service.RefreshInput} (hok : Ingest.refresh rt cfg inp.cycle m.active boot m.fetcher = (.ok next, f))
    (hnamed : Named next) :
    Matched ft (pipelineEvents rt cfg inp.cycle m.active boot m.fetcher ++
      Manager.cycleEvents m.active inp next) := by
  have hadvances : Advances rt cfg m.active next := .cycle hok
  have hwell : WellFormed rt next := (wellFormed_kept rt).advances trivial h.traced.of_active hadvances
  have hprev : Indexable m.active := indexable_of_wellFormed hne h.traced.of_active
  have happroved : heard ft Envelope.approved (Manager.cycleEvents m.active inp next) = [] := by
    refine heard_eq_nil fun e he => ?_
    obtain ⟨reason, rfl⟩ | ⟨d, rfl⟩ := mem_cycleEvents he <;> simp [Manager.changeEvent]
  have hpersist : heard ft Envelope.change
      (if Service.persists m.active next then Manager.persistEvents inp.saveSnapshot else []) = [] := by
    split
    · exact change_persistEvents _
    · rfl
  have hpipeline : (heard ft Envelope.approved (pipelineEvents rt cfg inp.cycle m.active boot m.fetcher)).Perm
      (((computeDiff m.active next).changes.filterMap listedAddition).map Prod.snd) := by
    rw [hp] at hok ⊢
    exact approved_pipelineEvents hne hhold (h.traced.of_active p hp) hok
  unfold Matched
  rw [heard_append, heard_append, change_pipelineEvents, happroved, List.append_nil, List.nil_append,
    Manager.cycleEvents, heard_append, hpersist, List.nil_append]
  by_cases hchanged : Service.cycleChanged m.active next
  · rw [if_pos hchanged, change_changeEvents hprev (hwell.indexable hne) h.named hnamed hadvances.diff]
    exact hpipeline
  · -- nothing was added, so nothing was approved
    have hnone : (computeDiff m.active next).changes.filterMap listedAddition = [] := by
      rw [List.eq_nil_iff_forall_not_mem]
      rintro ⟨code, fp⟩ hmem
      rw [mem_listedAdditions, mem_changes_added hprev (hwell.indexable hne)] at hmem
      exact hmem.2 ((places_of_unchanged hsha hjson h.traced.of_active hwell hchanged _).2 hmem.1)
    rw [hnone] at hpipeline
    rw [if_neg hchanged]
    exact hpipeline

include hsha hne hjson in
theorem matched_refreshEvents (h : Legible rt m) (hactive : m.active ≠ none)
    (hhold : cfg.activationMode = .hold) {inp : Service.RefreshInput}
    (hnamed : ∀ s ∈ (m.refresh rt cfg boot inp).2.active, Named s) :
    Matched ft (Manager.refreshEvents rt cfg m boot inp) := by
  have hfirst : Legible rt (m.reconcileDeclared rt cfg inp.declared).2 := h.reconcileDeclared inp.declared
  rw [Manager.refreshEvents, List.append_assoc]
  refine (matched_declaredReport hne h _).append ?_
  obtain ⟨e, f, herr, heq⟩ | ⟨next, f, hok, heq⟩ := m.refresh_cases boot inp
  · rw [herr]
    refine matched_of_nil ?_ ?_
    · obtain hnil | ⟨res, f₁, hloop⟩ := pipelineEvents_of_error herr
      · rw [hnil]
        simp [Manager.cycleReport]
      · rw [hloop, heard_append, approved_loopEvents]
        simp [Manager.cycleReport]
    · simp [change_pipelineEvents, Manager.cycleReport]
  · rw [heq] at hnamed
    rw [hok]
    obtain ⟨p, hp⟩ : ∃ p, (m.reconcileDeclared rt cfg inp.declared).2.active = some p :=
      Option.ne_none_iff_exists'.1 (Service.reconcileDeclared_active hactive inp.declared)
    exact matched_cycle hsha hne hjson hfirst hp hhold hok (hnamed next rfl)

theorem matched_approvalReport (h : Legible rt m) {fp actor : String} {now : Time} {refused : Option String}
    (hne : ∀ b, rt.sha256 b ≠ []) (hnamed : ∀ s ∈ (m.approvePending rt fp now refused).2.active, Named s) :
    Matched ft (Manager.approvalReport rt m fp actor now refused) := by
  unfold Manager.approvalReport
  obtain ⟨e, heq⟩ | ⟨cur, pa, hcur, hpa, heq⟩ := m.approvePending_cases fp now refused <;> rw [heq] at hnamed ⊢
  · exact .nil
  · have hname : pa.anchor.territory ≠ "internal" := by
      obtain ⟨t, ht, hcode, -⟩ := ((h.traced.of_active cur hcur).approved hne hpa now).activeIn
      exact hcode ▸ hnamed _ rfl t ht
    have hfp : pa.anchor.fingerprintSHA256 = fp := by simpa using List.find?_some hpa
    simp [Matched, hcur, hpa, Manager.approvalEvents, SecurityEvent.placeOf, hname, listedAddition, hfp]

/-! ## Whole logs -/

/-- A command of a process in hold mode after which a snapshot is served; none of its territories has the name of the
declared anchors. -/
def Command.Holds (rt : Runtime) (m : Service) (c : Command) : Prop :=
  c.cfg.activationMode = .hold ∧ ∃ s, (m.step rt c.cfg c.op).active = some s ∧ Named s

include hsha hne hjson in
theorem Legible.matched_opEvents (h : Legible rt m) (hactive : m.active ≠ none) {c : Command}
    (hhold : c.cfg.activationMode = .hold) (hnamed : ∀ s ∈ (m.step rt c.cfg c.op).active, Named s) :
    Matched ft (Manager.opEvents rt c.cfg c.actor m c.op) := by
  obtain ⟨cfg, actor, op⟩ := c
  cases op with
  | restart st => exact .nil
  | reconcileDeclared d => exact matched_declaredReport hne h d
  | refresh inp =>
      simp only [Service.step, Manager.opEvents] at hnamed ⊢
      cases hboot : m.bootstrap with
      | none => exact .nil
      | some boot =>
          rw [hboot] at hnamed
          exact matched_refreshEvents hsha hne hjson h hactive hhold hnamed
  | approvePending fp now refused => exact matched_approvalReport h hne hnamed

include hsha hne hjson in
theorem Legible.matched (h : Legible rt m) (hactive : m.active ≠ none) {cs : List Command}
    (hcs : Meets (fun c m => m.step rt c.cfg c.op) (fun m c => c.Holds rt m) cs m) :
    Matched ft (Emission.run rt cs (m, [])).2 := by
  induction cs generalizing m with
  | nil => exact .nil
  | cons c cs ih =>
      obtain ⟨⟨hhold, s, hs, hname⟩, hcs⟩ := hcs
      have hnamed : ∀ s ∈ (m.step rt c.cfg c.op).active, Named s := by
        rw [hs]
        rintro _ ⟨⟩
        exact hname
      have hrest : Matched ft (Emission.run rt cs (m.step rt c.cfg c.op, [])).2 :=
        ih (h.step hnamed) (by simp [hs]) hcs
      simp only [Emission.run, Manager.step_eq, List.nil_append]
      rw [run_events]
      exact (h.matched_opEvents hsha hne hjson hactive hhold hnamed).append hrest

end Step

/-- In hold mode, in every run over any number of processes throughout which a snapshot is served: the log has an
approval, by an operator or by time, for each addition to a list that it reports, and reports an addition for each
approval. -/
theorem additions_approved (hsha : Function.Injective rt.sha256) (hne : ∀ b, rt.sha256 b ≠ [])
    (hjson : Function.Injective rt.marshalID) (ft : Time → String) (ops : List (Config × Op)) (maxSize : Int)
    {s : Snapshot} (hs : ((Service.empty maxSize).run rt ops).active = some s) (hnamed : Named s) (cs : List Command)
    (hcs : Meets (fun c m => m.step rt c.cfg c.op) (fun m c => c.Holds rt m) cs
      ((Service.empty maxSize).run rt ops)) :
    (heard ft Envelope.approved (run rt cs ((Service.empty maxSize).run rt ops, [])).2).Perm
      (((heard ft Envelope.change (run rt cs ((Service.empty maxSize).run rt ops, [])).2).filterMap
        listedAddition).map Prod.snd) := by
  have hlegible : Legible rt ((Service.empty maxSize).run rt ops) := by
    refine ⟨.of_run (wellFormed_kept rt) (fun _ _ => trivial) maxSize, ?_⟩
    rw [hs]
    rintro _ ⟨⟩
    exact hnamed
  exact hlegible.matched hsha hne hjson (by simp [hs]) hcs

section Growing

open Symbolic

def firstSnapshot : List (Config × Op) :=
  [install ["B"], Symbolic.refresh 5 (growingPages "1")].map fun op => (config ["EE"] .hold 0, op)

/-- An addition is held, the service is started again, and an operator approves the addition. -/
def heldThenApproved : List Command :=
  [⟨config ["EE"] .hold 0, "", Symbolic.refresh 6 (growingPages "2")⟩, ⟨config ["EE"] .hold 0, "", .restart {}⟩,
    ⟨config ["EE"] .hold 0, "operator", .approvePending (growing.exact.sha256hex (ofText "M")) 7 none⟩]

theorem exists_named_of_any {s : Option Snapshot} (h : s.any fun s => s.territories.all fun t => t.code ≠ "internal") :
    ∃ s', s = some s' ∧ Named s' := by
  obtain ⟨s', hs', h⟩ := (Option.any_eq_true _ _).1 h
  exact ⟨s', hs', by simpa [Named] using h⟩

theorem additions_approved_growing :
    heard (fun _ => "") Envelope.approved
        (run growing.exact heldThenApproved ((Service.empty 100).run growing.exact firstSnapshot, [])).2 ≠ [] ∧
      (heard (fun _ => "") Envelope.approved
        (run growing.exact heldThenApproved ((Service.empty 100).run growing.exact firstSnapshot, [])).2).Perm
      (((heard (fun _ => "") Envelope.change
        (run growing.exact heldThenApproved ((Service.empty 100).run growing.exact firstSnapshot, [])).2).filterMap
          listedAddition).map Prod.snd) := by
  obtain ⟨s, hs, hnamed⟩ : ∃ s, ((Service.empty 100).run growing.exact firstSnapshot).active = some s ∧ Named s :=
    exists_named_of_any (by decide +kernel)
  refine ⟨by decide +kernel, additions_approved growing.exact_sha256_injective growing.exact_sha256_ne_nil
    growing.exact_marshalID_injective (fun _ => "") firstSnapshot 100 hs hnamed heldThenApproved ?_⟩
  exact ⟨⟨rfl, exists_named_of_any (by decide +kernel)⟩, ⟨rfl, exists_named_of_any (by decide +kernel)⟩,
    ⟨rfl, exists_named_of_any (by decide +kernel)⟩, trivial⟩

end Growing

end TrustAnchor.Ingest.Emission
