import TrustAnchor.Ingest.Lemmas.WellFormed
import TrustAnchor.Ingest.Symbolic

/-!
# No rollback

Sequence numbers do not fall, neither that of the list of the lists nor those of the national lists.
-/

namespace TrustAnchor.Ingest

open Lib Tsl Trust

variable {rt : Runtime} {cfg : Config} {cy : Cycle} {p s next : Snapshot} {t : Territory} {code : String}

/-- The sequence number of an entry; a failed one has none. -/
def sequenceOf (t : Territory) : Nat := if t.failed then 0 else t.tlSequence

/-- The sequence number that the snapshot has for the territory. -/
def territorySequence (s : Snapshot) (code : String) : Nat := ((s.territory code).map sequenceOf).getD 0

@[simp] theorem sequenceOf_heldEntry {prev : Option Snapshot} {now : Time} :
    sequenceOf (heldEntry cfg prev now t) = sequenceOf t := by
  unfold heldEntry
  split <;> rfl

/-! ## One step -/

/-- A healthy entry is followed by one with at least its sequence number. -/
theorem ingestTerritory_sequence {ps : PointerSet} {f : Fetcher} {pt : Territory}
    (hpt : p.territory code = some pt) (hhealthy : pt.failed = false)
    (h : (ingestTerritory rt cfg cy ps code (some p) f).1 = .ok t) : sequenceOf pt ≤ sequenceOf t := by
  obtain ⟨p', pt', hp, hpt', hsame⟩ | ⟨lp, raw, -, hread⟩ := ingestTerritory_ok h
  · cases hp
    rw [hpt] at hpt'
    cases hpt'
    simp [sequenceOf, hsame.failed, hsame.tlSequence]
  · obtain ⟨tl, anchors, warnings, hverify, -, rfl⟩ := readTerritory_ok hread
    obtain ⟨-, -, hseq⟩ := NationalTLSource.verify_ok hverify
    have hprevSeq : pt.tlSequence ∈ (nationalTLSource cfg cy.now code lp
        ((some p).bind (·.territory code))).prevSeq := by
      simp [nationalTLSource, hpt]
    simpa [sequenceOf, hhealthy] using hseq _ hprevSeq

theorem refresh_sequence {boot : Bootstrap} {f f' : Fetcher}
    (h : refresh rt cfg cy (some p) boot f = (.ok next, f')) {pt : Territory}
    (hpt : p.territory code = some pt) (ht : next.territory code = some t) :
    sequenceOf pt ≤ sequenceOf t := by
  obtain ⟨res, f₁, g, -, -, rfl⟩ := refresh_territory_eq_some h ht
  rw [sequenceOf_heldEntry]
  cases hhealthy : pt.failed with
  | true => simp [sequenceOf, hhealthy]
  | false =>
      obtain ⟨t, hok, -⟩ : ∃ t, (ingestTerritory rt cfg cy res.pointers code (some p) g).1 = .ok t ∧ _ :=
        ingestTerritory_healthy hpt hhealthy
      rw [hok]
      exact ingestTerritory_sequence hpt hhealthy hok

theorem moveToTerritory_sequence {a : Anchor} (hcodes : (s.territories.map Territory.code).Nodup)
    (hnext : next.territories = Service.moveToTerritory s a) {pt : Territory}
    (hpt : s.territory code = some pt) (ht : next.territory code = some t) :
    sequenceOf pt = sequenceOf t := by
  obtain ⟨t', ht', hcode, hfailed, hseq, -⟩ := exists_mem_moveToTerritory (a := a) (List.mem_of_find?_eq_some hpt)
  have hptCode : pt.code = code := by simpa using List.find?_some hpt
  rw [← hnext] at ht'
  have hnodup : (next.territories.map Territory.code).Nodup := hnext ▸ moveToTerritory_codes hcodes
  rw [territory_of_mem hnodup ht' (hcode.trans hptCode)] at ht
  cases ht
  simp [sequenceOf, hfailed, hseq]

/-- No sequence number falls from `p` to `next`. -/
structure NoFall (p next : Snapshot) : Prop where
  lotl : p.lotlSequence ≤ next.lotlSequence
  territories : ∀ code pt t, p.territory code = some pt → next.territory code = some t →
    sequenceOf pt ≤ sequenceOf t

theorem Advances.noFall (hp : WellFormed rt p) (h : Advances rt cfg (some p) next) : NoFall p next := by
  cases h with
  | cycle h =>
      refine ⟨?_, fun code pt t hpt ht => refresh_sequence h hpt ht⟩
      obtain ⟨res, f₁, outs, -, hseq, -, -, rfl⟩ := refresh_ok h
      simpa using hseq p rfl
  | declared h =>
      obtain ⟨rfl, -⟩ := refreshDeclared_eq h
      refine ⟨le_rfl, fun code pt t hpt ht => ?_⟩
      obtain rfl := Option.some.inj (hpt.symm.trans ht)
      exact le_rfl
  | approve h =>
      refine ⟨le_rfl, fun code pt t hpt ht => ?_⟩
      exact (moveToTerritory_sequence hp.orderly.entries.codes rfl hpt ht).le

/-! ## Whole runs -/

/-- In every run, the history of the process, newest first: the sequence number of the list of the lists
does not fall, and over any stretch in which a territory has an entry throughout, neither does the
territory's. -/
theorem run_noRollback (ops : List (Config × Op)) (maxSize : Int) :
    (((Service.empty maxSize).run rt ops).history.Pairwise fun newer older =>
        older.snapshot.lotlSequence ≤ newer.snapshot.lotlSequence) ∧
      ∀ code stretch, stretch <:+: ((Service.empty maxSize).run rt ops).history →
        (∀ a ∈ stretch, (a.snapshot.territory code).isSome) →
        stretch.Pairwise fun newer older =>
          territorySequence older.snapshot code ≤ territorySequence newer.snapshot code := by
  have htraced : Traced rt (fun _ => True) (WellFormed rt) ((Service.empty maxSize).run rt ops) :=
    .of_run (wellFormed_kept rt) (fun _ _ => trivial) maxSize
  have hsteps : ((Service.empty maxSize).run rt ops).history.IsChain fun newer older =>
      NoFall older.snapshot newer.snapshot :=
    htraced.steps.imp_of_mem_imp fun newer older _ holder ⟨_, _, h⟩ => h.noFall (htraced.served older holder)
  have htrans : ∀ g : Activation → Nat, IsTrans Activation fun newer older => g older ≤ g newer :=
    fun g => ⟨fun _ _ _ hab hbc => hbc.trans hab⟩
  refine ⟨?_, fun code stretch hstretch hpresent => ?_⟩
  · have := htrans fun a => a.snapshot.lotlSequence
    exact List.isChain_iff_pairwise.1 (hsteps.imp fun _ _ h => h.lotl)
  · have := htrans fun a => territorySequence a.snapshot code
    have hwithin := List.IsChain.infix hsteps hstretch
    refine List.isChain_iff_pairwise.1 (hwithin.imp_of_mem_imp ?_)
    intro newer older hnewer holder h
    obtain ⟨t, ht⟩ := Option.isSome_iff_exists.1 (hpresent newer hnewer)
    obtain ⟨pt, hpt⟩ := Option.isSome_iff_exists.1 (hpresent older holder)
    simpa [territorySequence, ht, hpt] using h.territories code pt t hpt ht

namespace Symbolic

/-- The second issue of the list, and then the first one again. -/
def reissued : Service := growing.run (config ["EE"] .auto 0) (growingOps ++ [refresh 7 (growingPages "1")])

end Symbolic

open Symbolic in
/-- The old issue is not taken. -/
theorem run_noRollback_reissued :
    reissued.history.map (fun a => territorySequence a.snapshot "EE") = [2, 2, 1] ∧
      reissued.history.Pairwise fun newer older =>
        territorySequence older.snapshot "EE" ≤ territorySequence newer.snapshot "EE" := by
  have hpresent : ∀ a ∈ reissued.history, (a.snapshot.territory "EE").isSome := by decide +kernel
  exact ⟨by decide +kernel, (run_noRollback _ 100).2 "EE" _ List.infix_rfl hpresent⟩

end TrustAnchor.Ingest
