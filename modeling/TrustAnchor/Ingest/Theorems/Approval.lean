import TrustAnchor.Ingest.Theorems.DiffExact
import TrustAnchor.Ingest.Theorems.Hold

/-!
# Approving a held addition

An approval moves one addition and nothing else, and what it serves stays served for as long as the
territory's list has it.
-/

namespace TrustAnchor.Ingest

open Lib Tsl Trust

variable {rt : Runtime} {cfg : Config}

/-! ## What an approval does to a snapshot -/

/-- The addition has gone from the pending set into the entry of its territory, and the diff says so. -/
structure Approved (cur : Snapshot) (pa : PendingAnchor) (next : Snapshot) : Prop where
  pending : ∃ before after, cur.pending = before ++ pa :: after ∧ next.pending = before ++ after
  unserved : ¬ ActiveIn cur pa.anchor.territory pa.anchor.fingerprintSHA256
  territories : ∃ before t after, cur.territories = before ++ t :: after ∧ t.code = pa.anchor.territory ∧
    next.territories = before ++ withAnchor t pa.anchor :: after
  frame : next = { cur with
    pending := next.pending, territories := next.territories, declaredLoad := none
    generatedAt := next.generatedAt, id := next.id, prevID := cur.id, diff := next.diff }
  diff : ∃ d e, next.diff = some d ∧ d.entries = [e] ∧ e.kind = .added ∧
    e.territory = pa.anchor.territory ∧ e.fingerprint = pa.anchor.fingerprintSHA256

section Approved

variable {cur next : Snapshot} {before after : List Territory} {t : Territory} {a : Anchor}

theorem mem_placed_withAnchor (hcur : cur.territories = before ++ t :: after) (hcode : t.code = a.territory)
    (hnext : next.territories = before ++ withAnchor t a :: after) (hinternal : next.internal = cur.internal)
    {π : Place} {b : Anchor} : (π, b) ∈ placed (some next) ↔
      (π, b) ∈ placed (some cur) ∨ π = .listed a.territory a.fingerprintSHA256 ∧ b = a := by
  simp only [mem_placed, hcur, hnext, hinternal, List.mem_append, List.mem_cons]
  constructor
  · rintro (⟨u, hu | rfl | hu, hb, rfl⟩ | hb)
    · exact .inl (.inl ⟨u, .inl hu, hb, rfl⟩)
    · rcases mem_withAnchor.1 hb with hb | rfl
      · exact .inl (.inl ⟨t, .inr (.inl rfl), hb, rfl⟩)
      · exact .inr ⟨by rw [withAnchor_code, hcode], rfl⟩
    · exact .inl (.inl ⟨u, .inr (.inr hu), hb, rfl⟩)
    · exact .inl (.inr hb)
  · rintro ((⟨u, hu | rfl | hu, hb, rfl⟩ | hb) | ⟨rfl, rfl⟩)
    · exact .inl ⟨u, .inl hu, hb, rfl⟩
    · exact .inl ⟨withAnchor u a, .inr (.inl rfl), mem_withAnchor.2 (.inl hb), rfl⟩
    · exact .inl ⟨u, .inr (.inr hu), hb, rfl⟩
    · exact .inr hb
    · exact .inl ⟨withAnchor t b, .inr (.inl rfl), mem_withAnchor.2 (.inr rfl), by rw [withAnchor_code, hcode]⟩

/-- One anchor at a new place, and every other one where it was: the diff has one entry. -/
theorem subjects_eq_singleton (hcur : Indexable (some cur)) (hnext : Indexable (some next)) {π : Place}
    (hπ : π ∉ places (some cur)) (hplaced : ∀ {ρ b}, (ρ, b) ∈ placed (some next) ↔
      (ρ, b) ∈ placed (some cur) ∨ ρ = π ∧ b = a) :
    (computeDiff (some cur) next).entries.map subject = [(.added, π)] := by
  refine List.perm_singleton.1 ((List.perm_ext_iff_of_nodup (subjects_nodup hcur hnext)
    (List.nodup_singleton _)).2 fun x => ?_)
  obtain ⟨kind, ρ⟩ := x
  rw [mem_subjects hcur hnext, List.mem_singleton]
  constructor
  · rintro ⟨b, hb⟩
    have hnot : ρ ∉ places (some cur) := by
      intro hρ
      obtain ⟨c, hc⟩ := mem_places.1 hρ
      exact hb.false_of_placed hcur hnext hc (hplaced.2 (.inl hc))
    cases kind with
    | added =>
        rcases hplaced.1 hb.1 with hc | ⟨rfl, rfl⟩
        · exact absurd (mem_places.2 ⟨b, hc⟩) hnot
        · rfl
    | removed => exact absurd (mem_places.2 ⟨b, hb.1⟩) hnot
    | changed =>
        obtain ⟨-, old, hold, -⟩ := hb
        exact absurd (mem_places.2 ⟨old, hold⟩) hnot
  · intro hx
    obtain ⟨rfl, rfl⟩ := Prod.mk.inj hx
    exact ⟨a, hplaced.2 (.inr ⟨rfl, rfl⟩), hπ⟩

/-- The diff of an approval has one entry, for the addition. -/
theorem entries_eq_singleton (hcur : Indexable (some cur)) (hnext : Indexable (some next))
    (hunserved : ¬ ActiveIn cur a.territory a.fingerprintSHA256) (hplaced : ∀ {ρ b}, (ρ, b) ∈ placed (some next) ↔
      (ρ, b) ∈ placed (some cur) ∨ ρ = .listed a.territory a.fingerprintSHA256 ∧ b = a) :
    ∃ e, (computeDiff (some cur) next).entries = [e] ∧ e.kind = .added ∧ e.territory = a.territory ∧
      e.fingerprint = a.fingerprintSHA256 := by
  have hπ : Place.listed a.territory a.fingerprintSHA256 ∉ places (some cur) := by
    intro hπ
    obtain ⟨b, hb⟩ := mem_places.1 hπ
    obtain ⟨u, hu, hb, heq⟩ | ⟨-, heq⟩ := mem_placed.1 hb
    · obtain ⟨hterritory, hfp⟩ := Place.listed.inj heq
      exact hunserved ⟨u, hu, hterritory.symm, b, hb, hfp.symm⟩
    · cases heq
  obtain ⟨e, hentry, hsubject⟩ := List.map_eq_singleton_iff.1 (subjects_eq_singleton hcur hnext hπ hplaced)
  obtain ⟨hkind, hplace⟩ := Prod.mk.inj hsubject
  refine ⟨e, hentry, hkind, ?_⟩
  unfold DiffEntry.place at hplace
  split_ifs at hplace
  exact Place.listed.inj hplace

theorem WellFormed.approved (hsha : ∀ b, rt.sha256 b ≠ []) (h : WellFormed rt cur) {fp : String}
    {pa : PendingAnchor} (hpa : cur.pending.find? (fun pa => pa.anchor.fingerprintSHA256 = fp) = some pa)
    (now : Time) :
    Approved cur pa (Service.approve rt cur { cur with declaredLoad := none } pa.anchor now) := by
  have hmem := List.mem_of_find?_eq_some hpa
  have hunserved := h.orderly.disjoint pa hmem
  have hnext : WellFormed rt (Service.approve rt cur { cur with declaredLoad := none } pa.anchor now) :=
    h.approve hpa
  obtain ⟨t₀, ht₀, hcode₀, -⟩ := h.pendingTerritory pa hmem
  obtain ⟨before, t, after, hcur, hcode, hmoved⟩ | ⟨hnone, -⟩ :=
    moveToTerritory_cases { cur with declaredLoad := none } pa.anchor
  · have hterritories : (Service.approve rt cur { cur with declaredLoad := none } pa.anchor now).territories =
        before ++ withAnchor t pa.anchor :: after := hmoved
    obtain ⟨e, hentries, he⟩ := entries_eq_singleton (h.indexable hsha) (hnext.indexable hsha) hunserved
      (mem_placed_withAnchor hcur hcode hterritories rfl)
    refine ⟨?_, hunserved, ⟨before, t, after, hcur, hcode, hmoved⟩, rfl, _, e, rfl, hentries, he⟩
    obtain ⟨hfp, before, after, hsplit, hbefore⟩ := List.find?_eq_some_iff_append.1 hpa
    obtain rfl : pa.anchor.fingerprintSHA256 = fp := by simpa using hfp
    refine ⟨before, after, hsplit, ?_⟩
    show cur.pending.eraseP _ = _
    rw [hsplit, List.eraseP_append_right _ (by simpa using hbefore), List.eraseP_cons_of_pos (by simp)]
  · -- an addition is only held for a territory that the snapshot has an entry for
    exact absurd hcode₀ (hnone t₀ ht₀)

theorem Approved.activeIn {pa : PendingAnchor} (h : Approved cur pa next) :
    ActiveIn next pa.anchor.territory pa.anchor.fingerprintSHA256 := by
  obtain ⟨before, t, after, -, hcode, hnext⟩ := h.territories
  exact ⟨withAnchor t pa.anchor, by simp [hnext], hcode, pa.anchor, mem_withAnchor.2 (.inr rfl), rfl⟩

end Approved

/-! ## What later cycles do to it -/

/-- The cycle goes on with the entry it had for the territory: the list is unchanged, or could not be had
and the entry is carried over. -/
def cycleKeeps (rt : Runtime) (cfg : Config) (cy : Cycle) (prev : Option Snapshot) (boot : Bootstrap)
    (f : Fetcher) (code : String) : Bool :=
  match ingestLOTL rt cfg cy prev boot f with
  | (.error _, _) => false
  | (.ok res, f₁) =>
    (loopFetchers rt cfg cy res.pointers prev (expandTerritories cfg.territories res.pointers) f₁).any
      fun o => o.1 = code ∧ (readTL rt cfg cy res.pointers prev code o.2).isNone ∧
        (ingestTerritory rt cfg cy res.pointers code prev o.2).1.isOk

/-- If the cycle succeeds, it reads the fingerprint off the territory's list or keeps the entry. -/
def Yields (rt : Runtime) (code fp : String) (cfg : Config) (boot : Bootstrap) (cy : Cycle)
    (prev : Option Snapshot) (f : Fetcher) : Prop :=
  (refresh rt cfg cy prev boot f).1.isOk →
    (∃ t ∈ cycleReads rt cfg cy prev boot f code, ∃ a ∈ t.anchors, a.fingerprintSHA256 = fp) ∨
      cycleKeeps rt cfg cy prev boot f code

instance (rt : Runtime) (code fp : String) (cfg : Config) (boot : Bootstrap) (cy : Cycle)
    (prev : Option Snapshot) (f : Fetcher) : Decidable (Yields rt code fp cfg boot cy prev f) := by
  unfold Yields
  infer_instance

section Durable

variable {cy : Cycle} {prev : Option Snapshot} {boot : Bootstrap} {f : Fetcher} {code fp : String}

theorem listed_of_cycleReads {res : LOTLResult} {f₁ : Fetcher}
    (hres : ingestLOTL rt cfg cy prev boot f = (.ok res, f₁)) {t : Territory}
    (ht : t ∈ cycleReads rt cfg cy prev boot f code) {a : Anchor} (ha : a ∈ t.anchors) :
    Listed ((outcomes rt cfg cy res.pointers prev (expandTerritories cfg.territories res.pointers)
      f₁).map entryOf) code a.fingerprintSHA256 := by
  simp only [cycleReads, hres] at ht
  obtain ⟨⟨c, g⟩, hg, hif⟩ := List.exists_of_findSome?_eq_some ht
  simp only at hif
  split_ifs at hif with hc
  subst hc
  exact listed_of_read hg hif ha

/-- An entry that is kept lists what it listed. -/
theorem listed_of_cycleKeeps {res : LOTLResult} {f₁ : Fetcher}
    (hres : ingestLOTL rt cfg cy prev boot f = (.ok res, f₁)) (h : cycleKeeps rt cfg cy prev boot f code)
    (hprev : ∀ p ∈ prev, Orderly rt p ∧ ActiveIn p code fp) :
    Listed ((outcomes rt cfg cy res.pointers prev (expandTerritories cfg.territories res.pointers)
      f₁).map entryOf) code fp := by
  simp only [cycleKeeps, hres, List.any_eq_true, decide_eq_true_eq] at h
  obtain ⟨⟨c, g⟩, hg, rfl, hnone, hok⟩ := h
  obtain ⟨t, hread, -⟩ | ⟨-, ⟨e, herr⟩ | ⟨p, pt, t, rfl, hpt, ht, hsame⟩⟩ :=
    ingestTerritory_cases rt cfg cy res.pointers c prev g
  · rw [hread] at hnone
    cases hnone
  · rw [herr] at hok
    cases hok
  · obtain ⟨hp, u, hu, hcode, a, ha, hfp⟩ := hprev p rfl
    have hptcode : pt.code = c := by simpa using List.find?_some hpt
    obtain rfl : u = pt := List.inj_on_of_nodup_map hp.entries.codes hu (List.mem_of_find?_eq_some hpt)
      (hcode.trans hptcode.symm)
    have hmem : (c, .ok t) ∈ outcomes rt cfg cy res.pointers (some p)
        (expandTerritories cfg.territories res.pointers) f₁ := List.mem_map.2 ⟨(c, g), hg, by rw [ht]⟩
    exact ⟨t, List.mem_map.2 ⟨_, hmem, rfl⟩, hsame.code.trans hptcode, a, hsame.anchors ▸ ha, hfp⟩

/-- What was served is not held. -/
theorem heldSince_of_active (hprev : ∀ p ∈ prev, Orderly rt p ∧ ActiveIn p code fp) (now : Time) :
    heldSince cfg prev now (holdKey code fp) = none := by
  cases prev with
  | none => rfl
  | some p =>
      obtain ⟨hp, hactive⟩ := hprev p rfl
      have hkey := (mem_prevActive hp (hactive.slash_notMem hp.entries)).2 hactive
      simp [heldSince, hkey]

theorem ActiveIn.sameUpstream {s s' : Snapshot} (heq : SameUpstream s s') (h : ActiveIn s code fp) :
    ActiveIn s' code fp := by
  rw [ActiveIn, heq.territories]
  exact h

theorem activeIn_stable (rt : Runtime) (cfg : Config) (code fp : String) :
    Stable rt cfg (Yields rt code fp cfg) fun _ s => Orderly rt s ∧ ActiveIn s code fp where
  sameUpstream heq h := ⟨h.1.sameUpstream heq, h.2.sameUpstream heq⟩
  cycle {boot cy prev f f' next} hprev hyields h := by
    refine ⟨refresh_orderly (fun p hp => (hprev p hp).1) h, ?_⟩
    have hyields := hyields (by rw [h]; rfl)
    obtain ⟨res, f₁, outs, hres, -, rfl, -, rfl⟩ := refresh_ok h
    have hlisted : Listed ((outcomes rt cfg cy res.pointers prev
        (expandTerritories cfg.territories res.pointers) f₁).map entryOf) code fp := by
      rcases hyields with ⟨t, ht, a, ha, rfl⟩ | hkeeps
      · exact listed_of_cycleReads hres ht ha
      · exact listed_of_cycleKeeps hres hkeeps hprev
    by_cases hhold : cfg.activationMode = .hold
    · exact (activeIn_applyHoldMode hhold).2 ⟨hlisted, heldSince_of_active hprev _⟩
    · rw [applyHoldMode_auto hhold]
      exact hlisted
  approve {boot cur fp' pa now} h hpa := by
    refine ⟨h.1.approve hpa, ?_⟩
    obtain ⟨t, ht, rfl, a, ha, rfl⟩ := h.2
    obtain ⟨t', ht', hcode, -, -, hanchors⟩ := @exists_mem_moveToTerritory cur pa.anchor t ht
    exact ⟨t', ht', hcode, a, hanchors a ha, rfl⟩

end Durable

/-! ## Approvals in a run -/

/-- A saved snapshot takes the place of what is served and of what is stored. -/
theorem holds_of_saved {P Q : Bootstrap → Snapshot → Prop} {m : Service} (h : Holds Q m) {b : Bootstrap}
    (hb : m.store.bootstrap = some b) {next : Snapshot} (cause : Cause)
    (hsame : ∀ {s s'}, SameUpstream s s' → P b s → P b s') (hnext : P b next) :
    Holds P ((m.saveSnapshot none next).activate cause next) := by
  have hunloaded : SameUpstream next { next with declaredLoad := none } := ⟨rfl, rfl, rfl, rfl, rfl⟩
  refine ⟨?_, ?_, ?_⟩
  · simpa [Service.activate] using h.bootstrap
  · simpa [Service.activate] using ⟨b, hb, hnext⟩
  · simpa [Service.saveSnapshot, Service.activate] using ⟨b, hb, hsame hunloaded hnext⟩

/-- In a state that a run leads to, an approval that fails changes nothing. One that succeeds moves one
addition with the fingerprint into the entry of its territory, and whatever is served later has it, as long
as the cycles read it off the territory's list or keep the entry. -/
theorem approvePending_exact (hsha : ∀ b, rt.sha256 b ≠ []) (ops : List (Config × Op)) (maxSize : Int)
    (fp : String) (now : Time) (refused : Option String) :
    let m := (Service.empty maxSize).run rt ops
    let r := m.approvePending rt fp now refused
    (∀ e, r.1 = .error e → r.2 = m) ∧
      ∀ next, r.1 = .ok next → ∃ cur pa, m.active = some cur ∧ pa.anchor.fingerprintSHA256 = fp ∧
        Approved cur pa next ∧ r.2.active = some next ∧
        r.2.store.snapshot = some { next with declaredLoad := none } ∧
        ∀ later, CyclesMeet rt (Yields rt pa.anchor.territory fp) later r.2 →
          ∀ s ∈ (r.2.run rt later).active, ActiveIn s pa.anchor.territory fp := by
  intro m r
  obtain ⟨e, hr⟩ | ⟨cur, pa, hcur, hpa, hr⟩ : (∃ e, r = (.error e, m)) ∨ _ :=
    m.approvePending_cases fp now refused
  · rw [hr]
    refine ⟨fun _ _ => rfl, fun next hnext => ?_⟩
    cases hnext
  · have hwf : WellFormed rt cur :=
      (Traced.of_run (wellFormed_kept rt) (fun _ _ => trivial) maxSize).of_active cur hcur
    have hbase : Holds (fun _ => Orderly rt) m := .of_run (orderly_stable rt) ops maxSize
    obtain ⟨b, hb, -⟩ := hbase.active cur hcur
    have hfp : pa.anchor.fingerprintSHA256 = fp := by simpa using List.find?_some hpa
    have happroved := hwf.approved hsha hpa now
    have hactive := happroved.activeIn
    rw [hfp] at hactive
    replace hr : r = _ := hr
    have hholds : Holds (fun _ s => Orderly rt s ∧ ActiveIn s pa.anchor.territory fp) r.2 := by
      rw [hr]
      exact holds_of_saved hbase hb _ (fun heq h => ⟨h.1.sameUpstream heq, h.2.sameUpstream heq⟩)
        ⟨hwf.orderly.approve hpa, hactive⟩
    rw [hr] at hholds ⊢
    refine ⟨fun e he => (by cases he), fun next hnext => ?_⟩
    obtain rfl := Except.ok.inj hnext
    refine ⟨cur, pa, hcur, hfp, happroved, rfl, rfl, fun later hlater s hs => ?_⟩
    obtain ⟨-, -, -, hkept⟩ := (hholds.run (fun cfg => activeIn_stable rt cfg _ fp) hlater).active s hs
    exact hkept

open Symbolic in
/-- The list is still published at 8 and cannot be had at 9. -/
def afterApproval : List (Config × Op) :=
  [Symbolic.refresh 8 (growingPages "2"), Symbolic.refresh 9 [("https://eu/lotl.xml", ofText "L")]].map
    fun op => (config ["EE"] .hold 0, op)

open Symbolic in
/-- `M` is held in the cycle at 6 and approved at 7; the cycles at 8 and 9 serve it. -/
theorem approvePending_exact_growing :
    let m := growing.exactRun (config ["EE"] .hold 0) growingOps
    let r := m.approvePending growing.exact (hexEncode (0 :: ofText "M")) 7 none
    ∃ cur next pa s, m.active = some cur ∧ r.1 = .ok next ∧ Approved cur pa next ∧
      (r.2.run growing.exact afterApproval).active = some s ∧
      ActiveIn s "EE" (hexEncode (0 :: ofText "M")) := by
  intro m r
  have hrun : r.1.isOk ∧ (m.active.all fun cur => ∀ pa ∈ cur.pending, pa.anchor.territory = "EE") ∧
      CyclesMeet growing.exact (Yields growing.exact "EE" (hexEncode (0 :: ofText "M"))) afterApproval r.2 ∧
      (r.2.run growing.exact afterApproval).active.isSome := by decide +kernel
  obtain ⟨hok, hterritory, hmeets, hlast⟩ := hrun
  obtain ⟨s, hs⟩ := Option.isSome_iff_exists.1 hlast
  obtain ⟨next, hnext⟩ : ∃ next, r.1 = .ok next := by
    generalize r.1 = result at hok
    cases result with
    | error e => cases hok
    | ok next => exact ⟨next, rfl⟩
  obtain ⟨cur, pa, hcur, -, happroved, -, -, hlater⟩ :=
    (approvePending_exact growing.exact_sha256_ne_nil _ 100 _ 7 none).2 next hnext
  obtain ⟨before, after, hpending, -⟩ := happroved.pending
  have hcode : pa.anchor.territory = "EE" := by
    rw [Option.all_eq_true] at hterritory
    exact of_decide_eq_true (hterritory cur hcur) pa (by simp [hpending])
  rw [hcode] at hlater
  exact ⟨cur, next, pa, s, hcur, hnext, happroved, hs, hlater _ hmeets s hs⟩

end TrustAnchor.Ingest
