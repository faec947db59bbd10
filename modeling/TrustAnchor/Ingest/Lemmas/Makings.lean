import TrustAnchor.Ingest.Lemmas.Served

/-!
# What snapshots are made from

A snapshot is made by a cycle, by a reconcile of the declaration file or by an approval. What it can serve is then
known from the documents that are read and, where none is read, from the snapshot before.
-/

namespace TrustAnchor.Ingest

open Lib Tsl Trust

variable {rt : Runtime} {cfg : Config} {cy : Cycle} {prev : Option Snapshot} {boot : Bootstrap} {f : Fetcher}
  {s next : Snapshot} {code : String} {g : Fetcher}

/-- One making of a snapshot, with all that it is made from. -/
inductive Making where
  | cycle (cfg : Config) (cy : Cycle) (prev : Option Snapshot) (boot : Bootstrap) (f : Fetcher)
  | declared (cfg : Config) (readFile : String → Except String Bytes) (now : Time) (prev : Snapshot)
  | approve (cur : Snapshot) (fingerprint : String) (now : Time)

/-- The anchors for a territory: those of its list if that is read, or those of its previous entry. -/
def listAnchors (rt : Runtime) (cfg : Config) (cy : Cycle) (ps : PointerSet) (prev : Option Snapshot) (code : String)
    (g : Fetcher) : List Anchor :=
  match readTL rt cfg cy ps prev code g with
  | some t => t.anchors
  | none => ((prev.bind (·.territory code)).map Territory.anchors).getD []

/-- The declared anchors: those of the file if it loads, or the previous ones. -/
def fileAnchors (rt : Runtime) (readFile : String → Except String Bytes) (path : String) (now : Time)
    (previous : List Anchor) : List Anchor :=
  match loadInternal rt readFile path now with
  | .ok set => set
  | .error _ => previous

def declaredPlaces (set : List Anchor) : List (Place × Anchor) :=
  set.map fun a => (.declared a.fingerprintSHA256 a.type, a)

def listedPlaces (code : String) (anchors : List Anchor) : List (Place × Anchor) :=
  anchors.map fun a => (.listed code a.fingerprintSHA256, a)

namespace Making

/-- The snapshot that is served before. -/
def before : Making → Option Snapshot
  | .cycle _ _ prev _ _ => prev
  | .declared _ _ _ prev => some prev
  | .approve cur _ _ => some cur

/-- The snapshot that is made, if one is. -/
def result (rt : Runtime) : Making → Option Snapshot
  | .cycle cfg cy prev boot f => (refresh rt cfg cy prev boot f).1.toOption
  | .declared cfg readFile now prev => (refreshDeclared rt cfg readFile prev now).toOption.bind Prod.fst
  | .approve cur fp now =>
    (cur.pending.find? fun pa => pa.anchor.fingerprintSHA256 = fp).map fun pa =>
      Service.approve rt cur { cur with declaredLoad := none } pa.anchor now

/-- What there is to be served at each place; hold mode may keep a part of it back. -/
def supplies (rt : Runtime) : Making → List (Place × Anchor)
  | .cycle cfg cy prev boot f =>
    (match ingestLOTL rt cfg cy prev boot f with
      | (.error _, _) => []
      | (.ok res, f₁) =>
        (loopFetchers rt cfg cy res.pointers prev (expandTerritories cfg.territories res.pointers) f₁).flatMap fun o =>
          listedPlaces o.1 (listAnchors rt cfg cy res.pointers prev o.1 o.2)) ++
    declaredPlaces (fileAnchors rt cy.readFile cfg.internalTrustSource cy.now ((prev.map (·.internal)).getD []))
  | .declared cfg readFile now prev =>
    (prev.territories.flatMap fun t => listedPlaces t.code t.anchors) ++
      declaredPlaces (fileAnchors rt readFile cfg.internalTrustSource now prev.internal)
  | .approve cur fp _ =>
    placed (some cur) ++
      ((cur.pending.find? fun pa => pa.anchor.fingerprintSHA256 = fp).map fun pa =>
        (.listed pa.anchor.territory pa.anchor.fingerprintSHA256, pa.anchor)).toList

end Making

/-! ## Details -/

/-- What an anchor says beyond the projection behind the id. -/
structure Details where
  territory : String
  tspName : String
  serviceName : String
  serviceType : String
  statusStartingTime : Time
  certDER : Bytes
  subject : String
  notBefore : Time
  notAfter : Time
  qualifiers : List String
  keyAlgorithm : String
  curve : String
  tlSequence : Int
deriving DecidableEq

def details (a : Anchor) : Details where
  territory := a.territory
  tspName := a.tspName
  serviceName := a.serviceName
  serviceType := a.serviceType
  statusStartingTime := a.statusStartingTime
  certDER := a.certDER
  subject := a.subject
  notBefore := a.notBefore
  notAfter := a.notAfter
  qualifiers := a.qualifiers
  keyAlgorithm := a.keyAlgorithm
  curve := a.curve
  tlSequence := a.tlSequence

theorem eq_of_details {a b : Anchor} (hid : idAnchor a = idAnchor b) (h : details a = details b) : a = b := by
  obtain ⟨⟩ := a
  obtain ⟨⟩ := b
  simp only [idAnchor, IDAnchor.mk.injEq, details, Details.mk.injEq] at hid h
  simp only [Anchor.mk.injEq]
  tauto

theorem exists_placed_of_idContent {p : Snapshot} {π : Place} {a : Anchor} (hp : WellFormed rt p)
    (hnext : WellFormed rt next) (hid : idContent p = idContent next) (ha : (π, a) ∈ placed (some next)) :
    ∃ b, (π, b) ∈ placed (some p) ∧ idAnchor b = idAnchor a := by
  have hplaced := (anchorPart_eq_iff hp.arranged hnext.arranged).1 (by rw [hid])
  have hmem := (hplaced (π, idAnchor a)).2 (List.mem_map_of_mem (f := fun e => (e.1, idAnchor e.2)) ha)
  obtain ⟨⟨π', b⟩, hb, heq⟩ := List.mem_map.1 hmem
  obtain ⟨rfl, hb'⟩ := Prod.mk.inj heq
  exact ⟨b, hb, hb'⟩

/-- What is supplied says the same of the anchors of `s` as `s`. -/
def Making.Agrees (rt : Runtime) (making : Making) (s : Snapshot) : Prop :=
  ∀ e ∈ making.supplies rt, ∀ e' ∈ placed (some s), e.1 = e'.1 → details e.2 = details e'.2

instance (rt : Runtime) (making : Making) (s : Snapshot) : Decidable (making.Agrees rt s) := by
  unfold Making.Agrees
  infer_instance

/-! ## What is served is supplied -/

theorem placed_some : placed (some s) =
    (s.territories.flatMap fun t => listedPlaces t.code t.anchors) ++ declaredPlaces s.internal := rfl

theorem fileAnchors_eq {readFile : String → Except String Bytes} {path : String} {now : Time} {previous : List Anchor}
    (configured : Bool) :
    (declaredSet configured previous (loadInternal rt readFile path now)).1 =
      fileAnchors rt readFile path now previous := by
  unfold fileAnchors
  cases loadInternal rt readFile path now <;> rfl

/-- The entry has the anchors of the list that is read, or those that the previous entry had. -/
theorem entryOf_anchors {ps : PointerSet} (hprev : ∀ p ∈ prev, WellFormed rt p) :
    (entryOf (code, (ingestTerritory rt cfg cy ps code prev g).1)).anchors = listAnchors rt cfg cy ps prev code g := by
  unfold listAnchors
  obtain ⟨t, hread, hok⟩ | ⟨hnone, ⟨e, herr⟩ | ⟨p, pt, t, rfl, hpt, hok, hsame⟩⟩ :=
    ingestTerritory_cases rt cfg cy ps code prev g
  · rw [hok, hread, entryOf]
  · rw [herr, hnone]
    rw [ingestTerritory_fst] at herr
    -- only a failed entry is not carried over, and it has no anchors
    cases hheld : prev.bind (·.territory code) with
    | none => rfl
    | some pt =>
        obtain ⟨p, rfl, hpt⟩ := Option.bind_eq_some_iff.1 hheld
        cases hfailed : pt.failed with
        | true =>
            simp [entryOf, failedTerritory,
              ((hprev p rfl).entries pt (List.mem_of_find?_eq_some hpt)).anchors_of_failed hfailed]
        | false =>
            cases hfetch : (fetchTerritory rt cfg cy ps code (some p) g).1 with
            | ok t => simp [hfetch] at herr
            | error e' =>
                have hcarried : (some pt).filter (fun t => !t.failed) = some pt :=
                  Option.filter_some_pos (by simp [hfailed])
                simp [hfetch, carryOver, hpt, hcarried] at herr
  · rw [hok, hnone, entryOf, hsame.anchors]
    simp [hpt]

/-- The cycle's entries and declared set, before hold mode. -/
theorem placed_cycleBase {res : LOTLResult} {f₁ : Fetcher} (hprev : ∀ p ∈ prev, WellFormed rt p)
    (hres : ingestLOTL rt cfg cy prev boot f = (.ok res, f₁)) :
    placed (some (cycleBase rt cfg cy prev boot res ((outcomes rt cfg cy res.pointers prev
        (expandTerritories cfg.territories res.pointers) f₁).map entryOf))) =
      (Making.cycle cfg cy prev boot f).supplies rt := by
  rw [placed_some, cycleBase_territories, cycleBase_internal, fileAnchors_eq, Making.supplies, hres]
  refine congrArg (· ++ _) ?_
  simp only [outcomes, List.map_map, List.flatMap_map, Function.comp_apply, entryOf_ingestTerritory_code,
    entryOf_anchors hprev]

theorem arranged_cycleBase {res : LOTLResult} {ps : PointerSet} {codes : List String}
    (hprev : ∀ p ∈ prev, WellFormed rt p) (hcodes : codes.Nodup) :
    Arranged (cycleBase rt cfg cy prev boot res ((outcomes rt cfg cy ps prev codes f).map entryOf)) := by
  have horderly : OrderlyEntries rt ((outcomes rt cfg cy ps prev codes f).map entryOf) :=
    outcomes_orderly (fun p hp => (hprev p hp).orderly) hcodes
  have hinternal : (∀ a ∈ (prev.map (·.internal)).getD [], Declared rt a) ∧
      ((prev.map (·.internal)).getD []).Pairwise internalLt := by
    cases prev with
    | none => simp
    | some p => exact ⟨(hprev p rfl).internal, (hprev p rfl).internalSorted⟩
  refine ⟨horderly.codes, horderly.fingerprints, ?_, ?_⟩
  · exact fun t ht => (regular_outcomes (fun p hp => (hprev p hp).entries) ht).anchors_of_failed
  · rw [cycleBase_internal]
    exact declaredPair_nodup (declaredSet_wellFormed hinternal).2

/-- The approved anchor is then listed. -/
theorem exists_mem_moved (s : Snapshot) (a : Anchor) :
    ∃ t ∈ Service.moveToTerritory s a, t.code = a.territory ∧ a ∈ t.anchors := by
  obtain ⟨ts, t, us, -, hcode, heq⟩ | ⟨-, heq⟩ := moveToTerritory_cases s a <;> rw [heq]
  · exact ⟨withAnchor t a, by simp, hcode, by simp⟩
  · exact ⟨withAnchor { code := a.territory } a, by simp, rfl, by simp⟩

theorem mem_placed_approve {pa : PendingAnchor} {now : Time} {e : Place × Anchor} :
    e ∈ placed (some (Service.approve rt s { s with declaredLoad := none } pa.anchor now)) ↔
      e ∈ placed (some s) ∨ e = (.listed pa.anchor.territory pa.anchor.fingerprintSHA256, pa.anchor) := by
  obtain ⟨π, x⟩ := e
  have hmoved : (π, x) ∈ placed (some (Service.approve rt s { s with declaredLoad := none } pa.anchor now)) ↔
      (∃ t ∈ Service.moveToTerritory s pa.anchor, x ∈ t.anchors ∧ π = .listed t.code x.fingerprintSHA256) ∨
        (x ∈ s.internal ∧ π = .declared x.fingerprintSHA256 x.type) := mem_placed
  rw [hmoved, mem_placed, Prod.mk.injEq]
  constructor
  · rintro (⟨t, ht, hx, rfl⟩ | hinternal)
    · obtain ht | ⟨t₀, ht₀, hcode, rfl⟩ := mem_moveToTerritory ht
      · exact .inl (.inl ⟨t, ht, hx, rfl⟩)
      · rcases mem_withAnchor.1 hx with hx | rfl
        · rcases ht₀ with ht₀ | rfl
          · exact .inl (.inl ⟨t₀, ht₀, hx, rfl⟩)
          · cases hx
        · exact .inr ⟨by rw [withAnchor_code, hcode], rfl⟩
    · exact .inl (.inr hinternal)
  · rintro ((⟨t, ht, hx, rfl⟩ | hinternal) | ⟨rfl, rfl⟩)
    · obtain ⟨t', ht', hcode, -, -, hanchors⟩ := exists_mem_moveToTerritory (a := pa.anchor) ht
      exact .inl ⟨t', ht', hanchors x hx, by rw [hcode]⟩
    · exact .inr hinternal
    · obtain ⟨t, ht, hcode, hx⟩ := exists_mem_moved s pa.anchor
      exact .inl ⟨t, ht, hx, by rw [hcode]⟩

namespace Making

variable {making : Making}

theorem result_cycle_ok {f' : Fetcher} (h : refresh rt cfg cy prev boot f = (.ok next, f')) :
    (cycle cfg cy prev boot f).result rt = some next := by
  rw [result, h]
  rfl

theorem result_cycle_error {e : Err} {f' : Fetcher} (h : refresh rt cfg cy prev boot f = (.error e, f')) :
    (cycle cfg cy prev boot f).result rt = none := by
  rw [result, h]
  rfl

theorem exists_of_result_cycle (h : (cycle cfg cy prev boot f).result rt = some next) :
    ∃ f', refresh rt cfg cy prev boot f = (.ok next, f') := by
  rcases hrefresh : refresh rt cfg cy prev boot f with ⟨e | next', f'⟩
  · rw [result_cycle_error hrefresh] at h
    cases h
  · rw [result_cycle_ok hrefresh] at h
    cases h
    exact ⟨f', rfl⟩

theorem result_wellFormed (hbefore : ∀ p ∈ making.before, WellFormed rt p) (h : making.result rt = some next) :
    WellFormed rt next := by
  cases making with
  | cycle cfg cy prev boot f =>
      obtain ⟨f', hrefresh⟩ := exists_of_result_cycle h
      exact refresh_wellFormed hbefore hrefresh
  | declared cfg readFile now prev =>
      obtain ⟨⟨next', rep⟩, hok, rfl⟩ := Option.bind_eq_some_iff.1 h
      exact (wellFormed_kept rt).advances trivial hbefore (.declared (Result.toOption_eq_some.1 hok))
  | approve cur fp now =>
      obtain ⟨pa, hpa, rfl⟩ := Option.map_eq_some_iff.1 h
      exact (hbefore cur rfl).approve hpa

/-- What is supplied are the anchors of an arranged snapshot, and the snapshot that is made serves no others. -/
theorem exists_base (hbefore : ∀ p ∈ making.before, WellFormed rt p) (h : making.result rt = some next) :
    ∃ base, Arranged base ∧ (∀ e, e ∈ placed (some base) ↔ e ∈ making.supplies rt) ∧
      ∀ e ∈ placed (some next), e ∈ placed (some base) := by
  have hnext := making.result_wellFormed hbefore h
  cases making with
  | cycle cfg cy prev boot f =>
      obtain ⟨f', hrefresh⟩ := exists_of_result_cycle h
      obtain ⟨res, f₁, outs, hres, -, rfl, -, rfl⟩ := refresh_ok hrefresh
      have hprev : ∀ p ∈ prev, WellFormed rt p := hbefore
      refine ⟨_, arranged_cycleBase hprev (expandTerritories_nodup _ _),
        fun e => by rw [placed_cycleBase hprev hres], ?_⟩
      rintro ⟨π, a⟩ hserved
      obtain ⟨t, ht, ha, rfl⟩ | ⟨ha, rfl⟩ := mem_placed.1 hserved
      · rw [stamp_territories] at ht
        obtain ⟨t₀, ht₀, hcode, hsub⟩ := mem_applyHoldMode_territories ht
        exact mem_placed.2 (.inl ⟨t₀, ht₀, hsub a ha, by rw [hcode]⟩)
      · rw [stamp_internal, applyHoldMode_internal] at ha
        exact mem_placed.2 (.inr ⟨ha, rfl⟩)
  | declared cfg readFile now prev =>
      obtain ⟨⟨next', rep⟩, hok, rfl⟩ := Option.bind_eq_some_iff.1 h
      obtain ⟨rfl, -⟩ := refreshDeclared_eq (Result.toOption_eq_some.1 hok)
      refine ⟨_, hnext.arranged, fun e => ?_, fun _ => id⟩
      rw [placed_some, stamp_territories, stamp_internal, fileAnchors_eq, supplies]
  | approve cur fp now =>
      obtain ⟨pa, hpa, rfl⟩ := Option.map_eq_some_iff.1 h
      refine ⟨_, hnext.arranged, fun e => ?_, fun _ => id⟩
      rw [mem_placed_approve, supplies, hpa]
      simp

/-- The bundles of the snapshot that is made are those of `s`, which has its id, exactly if what is supplied says the
same of the anchors of `s` as `s`. -/
theorem bundles_iff (hsha : Function.Injective rt.sha256) (hjson : Function.Injective rt.marshalID)
    (hs : WellFormed rt s) (hbefore : ∀ p ∈ making.before, WellFormed rt p) (h : making.result rt = some next)
    (hid : next.id = s.id) : (∀ q, filter rt next q = filter rt s q) ↔ making.Agrees rt s := by
  have hnext := making.result_wellFormed hbefore h
  obtain ⟨base, hbase, hsupplies, hmade⟩ := exists_base hbefore h
  have hcontent := hnext.idContent_eq hsha hjson hs hid
  rw [filter_eq_iff_placed hnext hs]
  constructor
  · rintro hplaced ⟨π, a⟩ ha ⟨π', b⟩ hb rfl
    have hserved := hmade _ ((hplaced _).2 hb)
    rw [eq_of_mem_keyed hbase.places_nodup ((hsupplies _).2 ha) hserved]
  · intro hagrees
    have hback : ∀ π a, (π, a) ∈ placed (some next) → (π, a) ∈ placed (some s) := by
      intro π a ha
      obtain ⟨b, hb, hidAnchor⟩ := exists_placed_of_idContent hs hnext hcontent.symm ha
      have hdetails := hagrees _ ((hsupplies _).1 (hmade _ ha)) _ hb rfl
      rwa [eq_of_details hidAnchor.symm hdetails]
    rintro ⟨π, b⟩
    refine ⟨hback π b, fun hb => ?_⟩
    obtain ⟨a, ha, -⟩ := exists_placed_of_idContent hnext hs hcontent hb
    rwa [eq_of_mem_keyed hs.arranged.places_nodup hb (hback π a ha)]

end Making

/-! ## The makings of a run -/

namespace Service

variable {m : Service}

/-- The snapshots that an operation makes, or tries to make, in order. -/
def makings (rt : Runtime) (cfg : Config) (op : Op) (m : Service) : List Making :=
  match op with
  | .restart _ => []
  | .reconcileDeclared d => m.active.toList.map (.declared cfg d.readFile d.now)
  | .refresh inp =>
    match m.bootstrap with
    | none => []
    | some boot =>
      let m' := (m.reconcileDeclared rt cfg inp.declared).2
      m.active.toList.map (.declared cfg inp.declared.readFile inp.declared.now) ++
        [.cycle cfg inp.cycle m'.active boot m'.fetcher]
  | .approvePending fp now refused =>
    match (m.approvePending rt fp now refused).1 with
    | .error _ => []
    | .ok _ => m.active.toList.map (.approve · fp now)

/-- What the process has served, newest first. -/
def served (m : Service) : List Snapshot := m.history.map Activation.snapshot

theorem served_activateCycle (inp : RefreshInput) (next : Snapshot) :
    (m.activateCycle inp next).served = next :: m.served := by
  unfold activateCycle served
  split <;> simp [activate]

theorem served_reconcileDeclared (d : Declared) : (m.reconcileDeclared rt cfg d).2.served =
    ((m.active.toList.map (.declared cfg d.readFile d.now)).filterMap (Making.result rt)).reverse ++ m.served := by
  unfold reconcileDeclared
  cases m.active with
  | none => rfl
  | some prev =>
      simp only [Option.toList_some, List.map_cons, List.map_nil, List.filterMap_cons, Making.result]
      rcases refreshDeclared rt cfg d.readFile prev d.now with e | ⟨_ | next, rep⟩
      · rfl
      · rfl
      · simp [served, activate, Except.toOption]

theorem served_step {op : Op} (hop : ∀ st, op ≠ .restart st) :
    (m.step rt cfg op).served = ((m.makings rt cfg op).filterMap (·.result rt)).reverse ++ m.served := by
  cases op with
  | restart st => exact absurd rfl (hop st)
  | reconcileDeclared d => exact served_reconcileDeclared d
  | refresh inp =>
      unfold step makings
      cases m.bootstrap with
      | none => rfl
      | some boot =>
          simp only [List.filterMap_append, List.reverse_append, List.append_assoc, ← served_reconcileDeclared]
          obtain ⟨e, f, hcycle, heq⟩ | ⟨next, f, hcycle, heq⟩ := m.refresh_cases boot inp <;> rw [heq]
          · rw [List.filterMap_cons_none (Making.result_cycle_error hcycle)]
            rfl
          · rw [List.filterMap_cons_some (Making.result_cycle_ok hcycle), served_activateCycle]
            rfl
  | approvePending fp now refused =>
      unfold step makings
      obtain ⟨e, heq⟩ | ⟨cur, pa, hcur, hpa, heq⟩ := @approvePending_cases rt m fp now refused
      · simp [heq]
      · simp [heq, hcur, Making.result, hpa, served, activate]

/-- Each stored snapshot is one of `stored` or of those that were served, but for the load report. -/
def StoresServed (stored : Option Snapshot) (m : Service) : Prop :=
  ∀ s ∈ m.store.snapshot, s ∈ stored ∨ ∃ s' ∈ m.served, s = { s' with declaredLoad := none }

theorem StoresServed.activate {stored : Option Snapshot} (h : StoresServed stored m) (refused : Option String)
    (cause : Cause) (next : Snapshot) : StoresServed stored ((m.saveSnapshot refused next).activate cause next) := by
  intro s hs
  have hserved : ((m.saveSnapshot refused next).activate cause next).served = next :: m.served := by
    simp [served, Service.activate]
  rw [hserved]
  rcases mem_saveSnapshot hs with rfl | hs
  · exact .inr ⟨next, by simp, rfl⟩
  · obtain hs | ⟨s', hs', heq⟩ := h s hs
    · exact .inl hs
    · exact .inr ⟨s', by simp [hs'], heq⟩

theorem StoresServed.reconcileDeclared {stored : Option Snapshot} (h : StoresServed stored m) (d : Declared) :
    StoresServed stored (m.reconcileDeclared rt cfg d).2 := by
  obtain heq | ⟨prev, next, rep, -, -, heq⟩ := m.reconcileDeclared_cases d <;> rw [heq]
  · exact h
  · exact h.activate _ _ _

theorem StoresServed.activateCycle {stored : Option Snapshot} (h : StoresServed stored m) (inp : RefreshInput)
    (next : Snapshot) : StoresServed stored (m.activateCycle inp next) := by
  unfold Service.activateCycle
  split
  · exact h.activate _ _ _
  · -- to the store a refused write and no write are the same
    have hrefused : StoresServed stored ((m.saveSnapshot (some "") next).activate (.cycle inp.cycle.now) next) :=
      h.activate _ _ _
    exact hrefused

theorem storesServed_step (op : Op) : StoresServed m.store.snapshot (m.step rt cfg op) := by
  have hstart : StoresServed m.store.snapshot m := fun s hs => .inl hs
  cases op with
  | restart st =>
      unfold step
      simp only
      obtain heq | ⟨b, -, ⟨-, heq⟩ | ⟨s', hs', heq⟩⟩ := m.restart_cases st <;> rw [heq] <;>
        exact fun s hs => .inl hs
  | reconcileDeclared d => exact hstart.reconcileDeclared d
  | refresh inp =>
      unfold step
      simp only
      split
      · exact hstart
      · rename_i boot _
        obtain ⟨e, f, -, heq⟩ | ⟨next, f, -, heq⟩ := m.refresh_cases boot inp <;> rw [heq]
        · exact hstart.reconcileDeclared _
        · refine StoresServed.activateCycle ?_ inp next
          exact hstart.reconcileDeclared _
  | approvePending fp now refused =>
      unfold step
      simp only
      obtain ⟨e, heq⟩ | ⟨cur, pa, -, -, heq⟩ := m.approvePending_cases fp now refused <;> rw [heq]
      · exact hstart
      · exact hstart.activate _ _ _

/-- A restart serves what is stored, or nothing. -/
theorem served_restart {st : Startup} {s : Snapshot} (hs : s ∈ (m.step rt cfg (.restart st)).served) :
    s ∈ m.store.snapshot := by
  unfold step at hs
  simp only at hs
  obtain heq | ⟨b, -, ⟨-, heq⟩ | ⟨s', hs', heq⟩⟩ := m.restart_cases st <;> rw [heq] at hs
  · simp [served, newProcess] at hs
  · simp [served, newProcess] at hs
  · simp [served, newProcess, activate] at hs
    rw [hs, hs']
    rfl

/-- Every making starts from a snapshot that is served. -/
theorem makings_before {P : Snapshot → Prop}
    (hP : ∀ {cfg prev next}, (∀ p ∈ prev, P p) → Advances rt cfg prev next → P next)
    (hm : ∀ p ∈ m.active, P p) {op : Op} {making : Making} (h : making ∈ m.makings rt cfg op) :
    ∀ p ∈ making.before, P p := by
  have hdeclared : ∀ readFile now, making ∈ m.active.toList.map (.declared cfg readFile now) →
      ∀ p ∈ making.before, P p := by
    intro readFile now hmem
    obtain ⟨p, hp, rfl⟩ := List.mem_map.1 hmem
    rintro _ ⟨⟩
    exact hm p (Option.mem_toList.1 hp)
  cases op with
  | restart st => cases h
  | reconcileDeclared d => exact hdeclared _ _ h
  | refresh inp =>
      unfold makings at h
      cases hboot : m.bootstrap with
      | none => simp [hboot] at h
      | some boot =>
          simp only [hboot, List.mem_append, List.mem_singleton] at h
          rcases h with h | rfl
          · exact hdeclared _ _ h
          · obtain heq | ⟨prev, next, rep, hprev, hnext, heq⟩ := m.reconcileDeclared_cases inp.declared <;> rw [heq]
            · exact hm
            · rintro _ ⟨⟩
              exact hP (fun p hp => hm p (hprev ▸ hp)) (.declared hnext)
  | approvePending fp now refused =>
      unfold makings at h
      simp only at h
      split at h
      · cases h
      · obtain ⟨cur, hcur, rfl⟩ := List.mem_map.1 h
        rintro _ ⟨⟩
        exact hm cur (Option.mem_toList.1 hcur)

end Service

section Run

variable {ops : List (Config × Op)} {maxSize : Int}

/-- The makings of a run, oldest first. -/
def runMakings (rt : Runtime) (ops : List (Config × Op)) (m : Service) : List Making :=
  (replies (fun i m => (m.makings rt i.1 i.2, m.step rt i.1 i.2)) ops m).flatten

theorem runMakings_concat (i : Config × Op) (m : Service) :
    runMakings rt (ops ++ [i]) m = runMakings rt ops m ++ (m.run rt ops).makings rt i.1 i.2 := by
  rw [runMakings, replies_concat, List.flatten_append, List.flatten_singleton]
  rfl

/-- The snapshot is served at some time of a run from an empty store, restarts included. -/
def ServedIn (rt : Runtime) (maxSize : Int) (ops : List (Config × Op)) (s : Snapshot) : Prop :=
  ∃ before, before <+: ops ∧ s ∈ ((Service.empty maxSize).run rt before).served

theorem run_concat (ops : List (Config × Op)) (i : Config × Op) (m : Service) :
    m.run rt (ops ++ [i]) = (m.run rt ops).step rt i.1 i.2 := by
  rw [Service.run, runFrom, List.foldl_append]
  rfl

theorem servedIn_concat {i : Config × Op} : ServedIn rt maxSize (ops ++ [i]) s ↔
    ServedIn rt maxSize ops s ∨ s ∈ ((Service.empty maxSize).run rt (ops ++ [i])).served := by
  constructor
  · rintro ⟨before, hbefore, hs⟩
    rcases List.prefix_concat_iff.1 hbefore with rfl | hbefore
    · exact .inr hs
    · exact .inl ⟨before, hbefore, hs⟩
  · rintro (⟨before, hbefore, hs⟩ | hs)
    · exact ⟨before, hbefore.trans (List.prefix_append _ _), hs⟩
    · exact ⟨_, List.prefix_rfl, hs⟩

/-- What a run makes it serves. -/
theorem servedIn_of_made (h : s ∈ (runMakings rt ops (Service.empty maxSize)).filterMap (·.result rt)) :
    ServedIn rt maxSize ops s := by
  induction ops using List.reverseRecOn with
  | nil => simp [runMakings, replies] at h
  | append_singleton ops i ih =>
      rw [runMakings_concat, List.filterMap_append, List.mem_append] at h
      rw [servedIn_concat]
      refine h.imp ih fun hmade => ?_
      obtain ⟨cfg, op⟩ := i
      rw [run_concat, Service.served_step]
      · simp [hmade]
      · rintro st rfl
        cases hmade

/-- The snapshot is among those that were made, but for the load report. -/
def MadeIn (rt : Runtime) (maxSize : Int) (ops : List (Config × Op)) (s : Snapshot) : Prop :=
  ∃ s' ∈ (runMakings rt ops (Service.empty maxSize)).filterMap (·.result rt),
    s = s' ∨ s = { s' with declaredLoad := none }

theorem MadeIn.concat (h : MadeIn rt maxSize ops s) (i : Config × Op) : MadeIn rt maxSize (ops ++ [i]) s := by
  obtain ⟨s', hs', heq⟩ := h
  rw [MadeIn, runMakings_concat, List.filterMap_append]
  exact ⟨s', List.mem_append_left _ hs', heq⟩

theorem MadeIn.unloaded (h : MadeIn rt maxSize ops s) : MadeIn rt maxSize ops { s with declaredLoad := none } := by
  obtain ⟨s', hs', heq⟩ := h
  refine ⟨s', hs', .inr ?_⟩
  rcases heq with rfl | rfl <;> rfl

/-- What a run serves or stores it has made. -/
theorem madeIn_run (rt : Runtime) (maxSize : Int) (ops : List (Config × Op)) :
    (∀ s, ServedIn rt maxSize ops s → MadeIn rt maxSize ops s) ∧
      ∀ s ∈ ((Service.empty maxSize).run rt ops).store.snapshot, MadeIn rt maxSize ops s := by
  induction ops using List.reverseRecOn with
  | nil =>
      refine ⟨?_, nofun⟩
      rintro s ⟨before, hbefore, hs⟩
      rw [List.prefix_nil.1 hbefore] at hs
      cases hs
  | append_singleton ops i ih =>
      obtain ⟨hserved, hstored⟩ := ih
      have hserved' : ∀ s, ServedIn rt maxSize (ops ++ [i]) s → MadeIn rt maxSize (ops ++ [i]) s := by
        intro s hs
        rcases servedIn_concat.1 hs with hs | hs
        · exact (hserved s hs).concat i
        · rw [run_concat] at hs
          obtain ⟨cfg, op⟩ := i
          by_cases hop : ∃ st, op = .restart st
          · obtain ⟨st, rfl⟩ := hop
            exact (hstored s (Service.served_restart hs)).concat _
          · rw [Service.served_step fun st heq => hop ⟨st, heq⟩, List.mem_append, List.mem_reverse] at hs
            rcases hs with hs | hs
            · rw [MadeIn, runMakings_concat, List.filterMap_append]
              exact ⟨s, List.mem_append_right _ hs, .inl rfl⟩
            · exact (hserved s ⟨ops, List.prefix_rfl, hs⟩).concat _
      refine ⟨hserved', fun s hs => ?_⟩
      rw [run_concat] at hs
      rcases Service.storesServed_step i.2 s hs with hs | ⟨s', hs', rfl⟩
      · exact (hstored s hs).concat i
      · refine (hserved' s' (servedIn_concat.2 (.inr ?_))).unloaded
        rwa [run_concat]

theorem runMakings_before {making : Making} (h : making ∈ runMakings rt ops (Service.empty maxSize)) :
    ∀ p ∈ making.before, WellFormed rt p := by
  induction ops using List.reverseRecOn with
  | nil => cases h
  | append_singleton ops i ih =>
      rw [runMakings_concat, List.mem_append] at h
      rcases h with h | h
      · exact ih h
      · have htraced : Traced rt (fun _ => True) (WellFormed rt) ((Service.empty maxSize).run rt ops) :=
          Traced.of_run (wellFormed_kept rt) (fun _ _ => trivial) maxSize
        exact Service.makings_before ((wellFormed_kept rt).advances trivial) htraced.of_active h

theorem filter_unloaded (s : Snapshot) (q : Query) : filter rt { s with declaredLoad := none } q = filter rt s q := rfl

/-- Where a making repeats the id of an earlier one, it supplies what that one served. -/
def Making.Repeats (rt : Runtime) (earlier making : Making) : Prop :=
  ∀ s ∈ earlier.result rt, ∀ next ∈ making.result rt, next.id = s.id → making.Agrees rt s

instance (rt : Runtime) (earlier making : Making) : Decidable (earlier.Repeats rt making) := by
  unfold Making.Repeats
  infer_instance

/-- Snapshots with one id that a run serves have the same bundles, exactly if each making that repeats the id of an
earlier one supplies what that one served. -/
theorem bundles_by_id_iff (hsha : Function.Injective rt.sha256) (hjson : Function.Injective rt.marshalID) :
    (∀ s s', ServedIn rt maxSize ops s → ServedIn rt maxSize ops s' → s.id = s'.id →
        ∀ q, filter rt s q = filter rt s' q) ↔
      (runMakings rt ops (Service.empty maxSize)).Pairwise (Making.Repeats rt) := by
  let same (earlier making : Making) : Prop := ∀ s ∈ earlier.result rt, ∀ next ∈ making.result rt, next.id = s.id →
    ∀ q, filter rt next q = filter rt s q
  have hstep : ∀ {earlier making}, earlier ∈ runMakings rt ops (Service.empty maxSize) →
      making ∈ runMakings rt ops (Service.empty maxSize) → (same earlier making ↔ earlier.Repeats rt making) := by
    intro earlier making hearlier hmaking
    refine forall₂_congr fun s hs => forall₃_congr fun next hnext hid => ?_
    exact Making.bundles_iff hsha hjson (earlier.result_wellFormed (runMakings_before hearlier) hs)
      (runMakings_before hmaking) hnext hid
  have hsymm : Std.Symm same := ⟨fun _ _ h s hs next hnext hid q => (h next hnext s hs hid.symm q).symm⟩
  rw [← List.Pairwise.iff_of_mem hstep]
  constructor
  · intro hserved
    refine List.pairwise_of_forall_mem_list fun earlier hearlier making hmaking s hs next hnext hid => ?_
    exact hserved next s (servedIn_of_made (List.mem_filterMap.2 ⟨making, hmaking, hnext⟩))
      (servedIn_of_made (List.mem_filterMap.2 ⟨earlier, hearlier, hs⟩)) hid
  · intro hsame s s' hs hs' hid q
    have hself : ∀ making ∈ runMakings rt ops (Service.empty maxSize), same making making := by
      intro making _ s hs next hnext _ q
      rw [Option.some.inj (hs.symm.trans hnext)]
    obtain ⟨t, ht, hst⟩ := (madeIn_run rt maxSize ops).1 s hs
    obtain ⟨t', ht', hst'⟩ := (madeIn_run rt maxSize ops).1 s' hs'
    obtain ⟨making, hmaking, hresult⟩ := List.mem_filterMap.1 ht
    obtain ⟨making', hmaking', hresult'⟩ := List.mem_filterMap.1 ht'
    have hmade := hsame.forall_of_forall hself hmaking' hmaking t' hresult' t hresult
    have hread : ∀ {u v : Snapshot}, u = v ∨ u = { v with declaredLoad := none } →
        u.id = v.id ∧ filter rt u q = filter rt v q := by
      rintro u v (rfl | rfl)
      · exact ⟨rfl, rfl⟩
      · exact ⟨rfl, filter_unloaded v q⟩
    rw [(hread hst).1, (hread hst').1] at hid
    rw [(hread hst).2, (hread hst').2]
    exact hmade hid q

end Run

end TrustAnchor.Ingest
