import TrustAnchor.Ingest.Lemmas.Hold
import TrustAnchor.Ingest.Symbolic
import TrustAnchor.Lib.History

/-!
# Held additions

What becomes of an addition that hold mode keeps back, and what has to happen before it is served.
-/

namespace TrustAnchor.Ingest

open Lib Tsl Trust

variable {rt : Runtime}

/-! ## From one cycle to the next -/

/-- The entry that the cycle reads off a downloaded list of the territory. -/
def cycleReads (rt : Runtime) (cfg : Config) (cy : Cycle) (prev : Option Snapshot) (boot : Bootstrap)
    (f : Fetcher) (code : String) : Option Territory :=
  match ingestLOTL rt cfg cy prev boot f with
  | (.error _, _) => none
  | (.ok res, f₁) =>
    (loopFetchers rt cfg cy res.pointers prev (expandTerritories cfg.territories res.pointers)
      f₁).findSome? fun o => if o.1 = code then readTL rt cfg cy res.pointers prev code o.2 else none

section Kept

variable {cfg : Config} {cy : Cycle} {boot : Bootstrap} {f f' : Fetcher} {s next : Snapshot}
  {code fp : String}

/-- An entry that is not read off a downloaded list lists what was served before. -/
theorem listed_of_not_read {ps : PointerSet} {codes : List String}
    (hread : ∀ g, (code, g) ∈ loopFetchers rt cfg cy ps (some s) codes f →
      readTL rt cfg cy ps (some s) code g = none)
    (hs : ∀ p ∈ some s, Orderly rt p)
    (h : Listed ((outcomes rt cfg cy ps (some s) codes f).map entryOf) code fp) : ActiveIn s code fp := by
  obtain ⟨t, ht, rfl, a, ha, rfl⟩ := h
  obtain ⟨⟨c, r⟩, ho, rfl⟩ := List.mem_map.1 ht
  obtain ⟨g, hg, hr⟩ := mem_outcomes ho
  simp only at hg hr
  cases r with
  | error e => cases ha
  | ok t =>
      simp only [entryOf] at ha hread ⊢
      have hcode := (ingestTerritory_orderly hs hr.symm).1
      obtain ⟨t', hsome, -⟩ | ⟨-, ⟨e, herr⟩ | ⟨p, pt, t', hp, hpt, hok, hsame⟩⟩ :=
        ingestTerritory_cases rt cfg cy ps c (some s) g
      · rw [hcode] at hread
        rw [hread g hg] at hsome
        cases hsome
      · rw [herr] at hr
        cases hr
      · rw [hok] at hr
        cases hr
        cases hp
        exact ⟨pt, List.mem_of_find?_eq_some hpt, hsame.code.symm, a, hsame.anchors ▸ ha, rfl⟩

theorem listed_of_read {ps : PointerSet} {codes : List String} {prev : Option Snapshot} {g : Fetcher}
    {t : Territory} (hg : (code, g) ∈ loopFetchers rt cfg cy ps prev codes f)
    (hread : readTL rt cfg cy ps prev code g = some t) {a : Anchor} (ha : a ∈ t.anchors) :
    Listed ((outcomes rt cfg cy ps prev codes f).map entryOf) code a.fingerprintSHA256 := by
  have hcode : t.code = code := by
    obtain ⟨lp, raw, -, -, hok⟩ := readTL_eq_some hread
    obtain ⟨tl, anchors, warnings, -, -, rfl⟩ := readTerritory_ok hok
    rfl
  obtain ⟨t', hread', hok⟩ | ⟨hnone, -⟩ := ingestTerritory_cases rt cfg cy ps code prev g
  · rw [hread] at hread'
    cases hread'
    have hmem : (code, .ok t) ∈ outcomes rt cfg cy ps prev codes f :=
      List.mem_map.2 ⟨(code, g), hg, by rw [hok]⟩
    exact ⟨t, List.mem_map.2 ⟨_, hmem, rfl⟩, hcode, a, ha, rfl⟩
  · rw [hread] at hnone
    cases hnone

/-- In a cycle in hold mode on a snapshot that a run serves, a held addition that the territory's list
still has is kept, held since the same time or served, exactly if the cycle reads that list. -/
theorem heldAddition_kept_iff (ops : List (Config × Op)) (maxSize : Int)
    (hs : ((Service.empty maxSize).run rt ops).active = some s) (hhold : cfg.activationMode = .hold)
    (h : refresh rt cfg cy (some s) boot f = (.ok next, f')) {pa : PendingAnchor} (hpa : pa ∈ s.pending)
    (hlists : ∀ t ∈ cycleReads rt cfg cy (some s) boot f pa.anchor.territory,
      ∃ a ∈ t.anchors, a.fingerprintSHA256 = pa.anchor.fingerprintSHA256) :
    (PendingIn next pa.anchor.territory pa.anchor.fingerprintSHA256 pa.firstSeen ∨
        ActiveIn next pa.anchor.territory pa.anchor.fingerprintSHA256) ↔
      (cycleReads rt cfg cy (some s) boot f pa.anchor.territory).isSome := by
  obtain ⟨-, -, horderly⟩ := (Holds.of_run (orderly_stable rt) ops maxSize).active s hs
  have hprev : ∀ p ∈ some s, Orderly rt p := by simpa using horderly
  obtain ⟨res, f₁, ts, hres, hts, -, hactive, hpending⟩ := refresh_hold hhold hprev h
  rw [hpending, hactive]
  simp only [cycleReads, hres] at hlists ⊢
  constructor
  · intro hkept
    have hlisted : Listed ts pa.anchor.territory pa.anchor.fingerprintSHA256 :=
      hkept.elim And.left And.left
    by_contra hnone
    rw [Option.not_isSome_iff_eq_none, List.findSome?_eq_none_iff] at hnone
    refine horderly.disjoint pa hpa (listed_of_not_read (fun g hg => ?_) hprev (hts ▸ hlisted))
    simpa using hnone _ hg
  · intro hread
    obtain ⟨t, ht⟩ := Option.isSome_iff_exists.1 hread
    obtain ⟨a, ha, hfp⟩ := hlists t ht
    obtain ⟨⟨c, g⟩, hg, hif⟩ := List.exists_of_findSome?_eq_some ht
    simp only at hif
    split_ifs at hif with hc
    subst hc
    have hlisted : Listed ts pa.anchor.territory pa.anchor.fingerprintSHA256 := by
      rw [hts, ← hfp]
      exact listed_of_read hg hif ha
    rcases heldSince_of_pending horderly ⟨pa, hpa, rfl, rfl, rfl⟩ with hnone | hsome
    · exact .inr ⟨hlisted, hnone⟩
    · exact .inl ⟨hlisted, hsome⟩

end Kept

open Symbolic in
/-- `M` is held, the list with `M` is still published, and the checksum confirms it as unchanged: the
next cycle neither holds nor serves `M`. -/
theorem heldAddition_lost :
    ∃ s, (growing.run (config ["EE"] .hold 0) growingOps).active = some s ∧
      PendingIn s "EE" (hexEncode (ofText "M")) 6 ∧
      ∃ next, (growing.run (config ["EE"] .hold 0)
          (growingOps ++ [Symbolic.refresh 7 (growingPagesWithDigest "2")])).active = some next ∧
        next.generatedAt = 7 ∧ next.pending = [] ∧ ¬ ActiveIn next "EE" (hexEncode (ofText "M")) := by
  have hrun : (growing.run (config ["EE"] .hold 0) growingOps).active.any fun s =>
      PendingIn s "EE" (hexEncode (ofText "M")) 6 := by decide +kernel
  obtain ⟨s, hs, h⟩ := (Option.any_eq_true _ _).1 hrun
  have hrun' : (growing.run (config ["EE"] .hold 0)
      (growingOps ++ [Symbolic.refresh 7 (growingPagesWithDigest "2")])).active.any fun next =>
        next.generatedAt = 7 ∧ next.pending = [] ∧ ¬ ActiveIn next "EE" (hexEncode (ofText "M")) := by
    decide +kernel
  obtain ⟨next, hnext, h'⟩ := (Option.any_eq_true _ _).1 hrun'
  exact ⟨s, hs, of_decide_eq_true h, next, hnext, of_decide_eq_true h'⟩

open Symbolic in
/-- Without the checksum the next cycle reads the list, and `M` stays held since the second cycle. -/
theorem heldAddition_kept_growing :
    ∃ s next pa f', (growing.run (config ["EE"] .hold 0) growingOps).active = some s ∧ pa ∈ s.pending ∧
      refresh growing.runtime (config ["EE"] .hold 0) (cycle 7 (growingPages "2")) (some s)
        ⟨1, "", [ofText "B"]⟩ (newFetcher 100) = (.ok next, f') ∧
      (PendingIn next pa.anchor.territory pa.anchor.fingerprintSHA256 pa.firstSeen ∨
        ActiveIn next pa.anchor.territory pa.anchor.fingerprintSHA256) := by
  have hrun : (growing.run (config ["EE"] .hold 0) growingOps).active.any fun s =>
      (refresh growing.runtime (config ["EE"] .hold 0) (cycle 7 (growingPages "2")) (some s)
        ⟨1, "", [ofText "B"]⟩ (newFetcher 100)).1.isOk ∧
      ∃ pa ∈ s.pending,
        (∀ t ∈ cycleReads growing.runtime (config ["EE"] .hold 0) (cycle 7 (growingPages "2")) (some s)
          ⟨1, "", [ofText "B"]⟩ (newFetcher 100) pa.anchor.territory,
          ∃ a ∈ t.anchors, a.fingerprintSHA256 = pa.anchor.fingerprintSHA256) ∧
        (cycleReads growing.runtime (config ["EE"] .hold 0) (cycle 7 (growingPages "2")) (some s)
          ⟨1, "", [ofText "B"]⟩ (newFetcher 100) pa.anchor.territory).isSome := by decide +kernel
  obtain ⟨s, hs, h⟩ := (Option.any_eq_true _ _).1 hrun
  obtain ⟨hok, pa, hpa, hlists, hread⟩ := of_decide_eq_true h
  rcases hnext : refresh growing.runtime (config ["EE"] .hold 0) (cycle 7 (growingPages "2")) (some s)
    ⟨1, "", [ofText "B"]⟩ (newFetcher 100) with ⟨e | next, f'⟩
  · rw [hnext] at hok
    cases hok
  · exact ⟨s, next, pa, f', hs, hpa, hnext, (heldAddition_kept_iff _ 100 hs rfl hnext hpa hlists).2 hread⟩

/-! ## Before an addition is served -/

/-- Held in every snapshot since the cycle that first saw it. -/
def HeldSince (code fp : String) (first : Time) : List Activation → Prop :=
  Since (fun act => PendingIn act.snapshot code fp first)
    (fun act => act.cause = .cycle first ∧ PendingIn act.snapshot code fp first)

/-- What is new in a snapshot was approved, or was held for long enough. -/
def Admitted (cfg : Config) (act : Activation) (earlier : List Activation) : Prop :=
  ∀ prev ∈ earlier.head?, ∀ code fp, ActiveIn act.snapshot code fp → ¬ ActiveIn prev.snapshot code fp →
    act.cause = .approve fp ∨
      (0 < cfg.holdAutoRelease ∧ ∃ now first, act.cause = .cycle now ∧
        cfg.holdAutoRelease ≤ now - first ∧ HeldSince code fp first earlier)

/-- What holds in a process in hold mode that started without a snapshot. -/
structure InProcess (rt : Runtime) (cfg : Config) (m : Service) : Prop where
  active : m.active = m.history.head?.map Activation.snapshot
  orderly : ∀ s ∈ m.active, Orderly rt s
  held : ∀ s ∈ m.active, ∀ code fp first, PendingIn s code fp first → HeldSince code fp first m.history
  admitted : Explained (Admitted cfg) m.history

namespace InProcess

variable {cfg : Config} {m m' : Service} {next : Snapshot} {cause : Cause}

theorem of_empty (hactive : m.active = none) (hhistory : m.history = []) : InProcess rt cfg m := by
  refine ⟨by simp [hactive, hhistory], by simp [hactive], by simp [hactive], ?_⟩
  rw [hhistory]
  exact .nil

/-- The rule for activations: what is held was held before or is first seen by this cycle, and what is
new is admitted. -/
theorem activate (h : InProcess rt cfg m) (hhistory : m'.history = m.history) (horderly : Orderly rt next)
    (hheld : ∀ code fp first, PendingIn next code fp first →
      (∃ s ∈ m.active, PendingIn s code fp first) ∨ cause = .cycle first)
    (hadmitted : Admitted cfg ⟨cause, next⟩ m.history) : InProcess rt cfg (m'.activate cause next) := by
  refine ⟨rfl, ?_, ?_, ?_⟩
  · simpa [Service.activate] using horderly
  · intro s hs code fp first hpending
    obtain rfl : next = s := by simpa [Service.activate] using hs
    simp only [Service.activate, hhistory]
    rcases hheld code fp first hpending with ⟨s, hs, hbefore⟩ | hcause
    · exact .still hpending (h.held s hs code fp first hbefore)
    · exact .here ⟨hcause, hpending⟩
  · simp only [Service.activate, hhistory]
    exact .cons hadmitted h.admitted

theorem active_of_head (h : InProcess rt cfg m) {act : Activation} (hact : act ∈ m.history.head?) :
    m.active = some act.snapshot := by
  rw [h.active, Option.mem_def.1 hact]
  rfl

theorem reconcileDeclared (h : InProcess rt cfg m) (d : Service.Declared) :
    InProcess rt cfg (m.reconcileDeclared rt cfg d).2 := by
  obtain heq | ⟨prev, next, rep, hprev, hnext, heq⟩ := m.reconcileDeclared_cases d <;> rw [heq]
  · exact h
  · have hsame := (refreshDeclared_ok hnext).1
    refine h.activate (by simp) ((h.orderly prev hprev).sameUpstream hsame) ?_ ?_
    · intro code fp first hpending
      rw [PendingIn, hsame.pending] at hpending
      exact .inl ⟨prev, hprev, hpending⟩
    · intro act hact code fp hactive hnew
      rw [h.active_of_head hact] at hprev
      cases hprev
      rw [ActiveIn, hsame.territories] at hactive
      exact absurd hactive hnew

theorem approvePending (h : InProcess rt cfg m) (fp : String) (now : Time) (refused : Option String) :
    InProcess rt cfg (m.approvePending rt fp now refused).2 := by
  obtain ⟨e, heq⟩ | ⟨cur, pa, hcur, hpa, heq⟩ := m.approvePending_cases fp now refused <;> rw [heq]
  · exact h
  · refine h.activate (by simp) ((h.orderly cur hcur).approve hpa) ?_ ?_
    · rintro code fp' first ⟨p, hp, hpair⟩
      exact .inl ⟨cur, hcur, p, List.mem_of_mem_eraseP hp, hpair⟩
    · intro act hact code fp' hactive hnew
      rw [h.active_of_head hact] at hcur
      cases hcur
      rcases listed_moveToTerritory hactive with hactive | hpair
      · exact absurd hactive hnew
      · have hfp : pa.anchor.fingerprintSHA256 = fp := by simpa using List.find?_some hpa
        obtain rfl : fp = fp' := hfp.symm.trans (Prod.mk.inj hpair).2
        exact .inl rfl

/-- A cycle serves what was served, and what has been held for long enough. -/
theorem refresh (hhold : cfg.activationMode = .hold) (h : InProcess rt cfg m) (boot : Bootstrap)
    (inp : Service.RefreshInput) : InProcess rt cfg (m.refresh rt cfg boot inp).2 := by
  have h₁ := h.reconcileDeclared inp.declared
  obtain ⟨e, f, -, heq⟩ | ⟨next, f, hnext, heq⟩ := m.refresh_cases boot inp <;> rw [heq]
  · exact ⟨h₁.active, h₁.orderly, h₁.held, h₁.admitted⟩
  · obtain ⟨res, f₁, ts, -, -, hts, hactive, hpending⟩ := refresh_hold hhold h₁.orderly hnext
    refine h₁.activate ?_ (refresh_orderly h₁.orderly hnext) ?_ ?_
    · split <;> simp
    · intro code fp first hfirst
      obtain ⟨hlisted, hsome⟩ := (hpending code fp first).1 hfirst
      cases hprev : (m.reconcileDeclared rt cfg inp.declared).2.active with
      | none =>
          rw [hprev] at hsome
          cases hsome
      | some s =>
          rw [hprev] at hsome
          rcases heldSince_eq_some (h₁.orderly s hprev) (hlisted.slash_notMem hts) hsome with hs | rfl
          · exact .inl ⟨s, rfl, hs⟩
          · exact .inr rfl
    · intro act hact code fp hnow hnew
      have hprev := h₁.active_of_head hact
      obtain ⟨hlisted, hnone⟩ := (hactive code fp).1 hnow
      rw [hprev] at hnone
      rcases heldSince_eq_none (h₁.orderly _ hprev) (hlisted.slash_notMem hts) hnone with
        hs | ⟨first, hfirst, hpos, hreleased⟩
      · exact absurd hs hnew
      · exact .inr ⟨hpos, inp.cycle.now, first, rfl, le_sub_of_le_timeSub hpos hreleased,
          h₁.held _ hprev code fp first hfirst⟩

theorem step (hhold : cfg.activationMode = .hold) (h : InProcess rt cfg m) {op : Op}
    (hop : ∀ st, op ≠ .restart st) : InProcess rt cfg (m.step rt cfg op) := by
  cases op with
  | restart st => exact absurd rfl (hop st)
  | reconcileDeclared d => exact h.reconcileDeclared d
  | approvePending fp now refused => exact h.approvePending fp now refused
  | refresh inp =>
      unfold Service.step
      simp only
      split
      · exact h
      · exact h.refresh hhold _ inp

theorem run (hhold : cfg.activationMode = .hold) (h : InProcess rt cfg m) {ops : List Op}
    (hops : ∀ op ∈ ops, ∀ st, op ≠ .restart st) :
    InProcess rt cfg (m.run rt (ops.map fun op => (cfg, op))) := by
  unfold Service.run runFrom
  rw [List.foldl_map]
  exact runFrom_keeps (fun m op h hop => h.step hhold hop) h (meets_of_forall hops m)

end InProcess

/-- In a process in hold mode that started without a snapshot: whatever a snapshot serves that the one
before it does not was approved by its fingerprint, or was held in every snapshot since a cycle that is
further back than the time of release. -/
theorem activated_after_hold {cfg : Config} (hhold : cfg.activationMode = .hold) {m : Service}
    (hactive : m.active = none) (hhistory : m.history = []) {ops : List Op}
    (hops : ∀ op ∈ ops, ∀ st, op ≠ .restart st) {act prev : Activation} {earlier : List Activation}
    (h : act :: prev :: earlier <:+ (m.run rt (ops.map fun op => (cfg, op))).history) {code fp : String}
    (hnow : ActiveIn act.snapshot code fp) (hnew : ¬ ActiveIn prev.snapshot code fp) :
    act.cause = .approve fp ∨
      (0 < cfg.holdAutoRelease ∧ ∃ now first, act.cause = .cycle now ∧
        cfg.holdAutoRelease ≤ now - first ∧ HeldSince code fp first (prev :: earlier)) := by
  have hrun : InProcess rt cfg (m.run rt (ops.map fun op => (cfg, op))) :=
    (InProcess.of_empty hactive hhistory).run hhold hops
  exact hrun.admitted act (prev :: earlier) h prev rfl code fp hnow hnew

open Symbolic in
/-- With a time of release of 3, `M` is held in the cycle at 6 and served in the one at 9. -/
theorem activated_after_hold_growing :
    let m := (growing.run (config ["EE"] .hold 3) [install ["B"]]).run growing.runtime
      ([Symbolic.refresh 5 (growingPages "1"), Symbolic.refresh 6 (growingPages "2"),
        Symbolic.refresh 9 (growingPages "2")].map fun op => (config ["EE"] .hold 3, op))
    ∃ act prev earlier, m.history = act :: prev :: earlier ∧
      ∃ first, HeldSince "EE" (hexEncode (ofText "M")) first (prev :: earlier) := by
  intro m
  have hrun : m.history.head?.any fun act => m.history.tail.head?.any fun prev : Activation =>
      act.cause = .cycle 9 ∧ ActiveIn act.snapshot "EE" (hexEncode (ofText "M")) ∧
        ¬ ActiveIn prev.snapshot "EE" (hexEncode (ofText "M")) := by decide +kernel
  obtain ⟨act, hact, h⟩ := (Option.any_eq_true _ _).1 hrun
  obtain ⟨prev, hprev, h⟩ := (Option.any_eq_true _ _).1 h
  obtain ⟨hcause, hnow, hnew⟩ := of_decide_eq_true h
  obtain ⟨earlier, hhistory⟩ : ∃ earlier, m.history = act :: prev :: earlier := by
    obtain ⟨rest, hrest⟩ := List.head?_eq_some_iff.1 hact
    rw [hrest, List.tail_cons] at hprev
    obtain ⟨earlier, rfl⟩ := List.head?_eq_some_iff.1 hprev
    exact ⟨earlier, hrest⟩
  have hsuffix : act :: prev :: earlier <:+ m.history := by rw [hhistory]
  have hactive : (growing.run (config ["EE"] .hold 3) [install ["B"]]).active = none := by rfl
  have hempty : (growing.run (config ["EE"] .hold 3) [install ["B"]]).history = [] := by rfl
  rcases activated_after_hold rfl hactive hempty (by simp [Symbolic.refresh]) hsuffix hnow hnew with
    happrove | ⟨-, now, first, -, -, hheld⟩
  · rw [hcause] at happrove
    cases happrove
  · exact ⟨act, prev, earlier, hhistory, first, hheld⟩

end TrustAnchor.Ingest
