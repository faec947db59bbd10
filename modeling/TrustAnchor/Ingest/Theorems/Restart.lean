import TrustAnchor.Ingest.Lemmas.Served
import TrustAnchor.Ingest.Symbolic
import TrustAnchor.Ingest.Theorems.Persistence

/-!
# Restarts

A new process serves what the store has. As long as no write is refused, that stands for the snapshot
that was served before.
-/

namespace TrustAnchor.Ingest

open Lib Tsl Trust

variable {rt : Runtime} {stored p s next : Snapshot} {m : Service}

/-- The stored snapshot stands for the served one: the id, what is held, the state of each territory and
the digest of the list of the lists. -/
structure Mirrors (stored s : Snapshot) : Prop where
  id : stored.id = s.id
  pending : stored.pending.map pendingPair = s.pending.map pendingPair
  territories : ∀ t ∈ s.territories, ∃ t', stored.territory t.code = some t' ∧
    t'.carriedOver = t.carriedOver ∧ t'.failed = t.failed ∧ t'.tlSequence = t.tlSequence
  lotlDigest : stored.lotlDigest = s.lotlDigest

theorem Mirrors.of_saved (h : WellFormed rt s) : Mirrors { s with declaredLoad := none } s where
  id := rfl
  pending := rfl
  territories t ht := ⟨t, territory_of_mem (s := { s with declaredLoad := none }) h.orderly.entries.codes ht rfl,
    rfl, rfl, rfl⟩
  lotlDigest := rfl

theorem pendingPair_of_pendingEqual (h : Service.pendingEqual p.pending next.pending) :
    p.pending.map pendingPair = next.pending.map pendingPair := by
  have hpairs := congrArg (List.map Prod.swap) (of_decide_eq_true h)
  rw [List.map_map, List.map_map] at hpairs
  exact hpairs

/-- A cycle that writes nothing leaves what the store stands for. -/
theorem Mirrors.unsaved (h : Mirrors stored p) (hpersists : Service.persists (some p) next = false) :
    Mirrors stored next := by
  simp only [Service.persists, Service.cycleChanged, Service.lotlInputChanged, Bool.or_eq_false_iff,
    Option.any_some, decide_eq_false_iff_not, not_not, Bool.not_eq_false'] at hpersists
  obtain ⟨⟨⟨hid, hpending⟩, hstate⟩, hdigest⟩ := hpersists
  refine ⟨h.id.trans hid.symm, h.pending.trans (pendingPair_of_pendingEqual hpending), fun t ht => ?_,
    h.lotlDigest.trans hdigest⟩
  have hentry := List.any_eq_false.1 hstate t ht
  split at hentry
  · simp at hentry
  · rename_i pt hpt
    simp only [Bool.or_eq_true, decide_eq_true_eq, not_or, not_not] at hentry
    obtain ⟨⟨⟨⟨hcarried, hseq⟩, hfailed⟩, -⟩, -⟩ := hentry
    have hcode : pt.code = t.code := by simpa using List.find?_some hpt
    obtain ⟨t', ht', hcarried', hfailed', hseq'⟩ := h.territories pt (List.mem_of_find?_eq_some hpt)
    exact ⟨t', hcode ▸ ht', hcarried'.trans hcarried, hfailed'.trans hfailed, hseq'.trans hseq⟩

/-! ## Runs without refused writes -/

/-- The store stands for what is served. -/
def Mirrored (m : Service) : Prop := ∀ s ∈ m.active, ∃ stored ∈ m.store.snapshot, Mirrors stored s

theorem Mirrored.move {cfg : Config} {accepted completes : Prop} {m' : Service} (haccepted : accepted)
    (hmove : Move rt cfg accepted completes m m') (hm : Traced rt (fun _ => True) (WellFormed rt) m)
    (hm' : Traced rt (fun _ => True) (WellFormed rt) m') (h : Mirrored m) : Mirrored m' := by
  cases hmove with
  | fetched f => exact h
  | stopped => simp [Mirrored, Service.newProcess]
  | started _ _ => simp [Mirrored, Service.newProcess]
  | @restored b s _ hs =>
      intro s' hs'
      obtain rfl := Option.some.inj hs'
      exact ⟨s, hs, rfl, rfl, fun t ht => ⟨t, territory_of_mem (hm.stored s hs).orderly.entries.codes ht rfl,
        rfl, rfl, rfl⟩, rfl⟩
  | @advanced next refused cause hnext _ hsave =>
      intro s hs
      obtain rfl := Option.some.inj hs
      cases refused with
      | none => exact ⟨_, rfl, .of_saved (hm'.of_active _ rfl)⟩
      | some e =>
          have hpersists : Service.persists m.active next = false := by simpa using hsave haccepted
          cases hp : m.active with
          | none => simp [hp, Service.persists, Service.cycleChanged] at hpersists
          | some p =>
              obtain ⟨stored, hstored, hmirrors⟩ := h p hp
              rw [hp] at hpersists
              exact ⟨stored, hstored, hmirrors.unsaved hpersists⟩

theorem mirrored_run {ops : List (Config × Op)} (hops : ∀ i ∈ ops, i.2.Accepted) (maxSize : Int) :
    Mirrored ((Service.empty maxSize).run rt ops) := by
  have hrun : Traced rt (fun _ => True) (WellFormed rt) ((Service.empty maxSize).run rt ops) ∧
      Mirrored ((Service.empty maxSize).run rt ops) := by
    refine run_of_move (I := fun m => Traced rt (fun _ => True) (WellFormed rt) m ∧ Mirrored m)
      (C := Op.Accepted) (A := fun _ => True) (fun hA hC hmove h => ?_) (fun i hi => ⟨trivial, hops i hi⟩) ?_
    · have hm' := h.1.move (wellFormed_kept rt) hA hmove
      exact ⟨hm', h.2.move hC hmove h.1 hm'⟩
    · exact ⟨⟨rfl, by simp [Service.empty], by simp [Service.empty], .nil⟩, by simp [Mirrored, Service.empty]⟩
  exact hrun.2

/-- Without refused writes, the store has what is served all along. -/
theorem inSync_run {ops : List (Config × Op)} (hops : ∀ i ∈ ops, i.2.Accepted) (maxSize : Int) :
    InSync ((Service.empty maxSize).run rt ops) := by
  intro s hs
  obtain ⟨stored, hstored, hmirrors⟩ := mirrored_run hops maxSize s hs
  exact ⟨stored, hstored, hmirrors.id⟩

theorem storeBootstrap_of_active (ops : List (Config × Op)) (maxSize : Int)
    (hs : ((Service.empty maxSize).run rt ops).active = some s) :
    ∃ b, ((Service.empty maxSize).run rt ops).store.bootstrap = some b := by
  have hstable : ∀ cfg, Stable rt cfg (fun _ _ _ _ => True) fun _ _ => True :=
    fun cfg => ⟨fun _ _ => trivial, fun _ _ _ => trivial, fun _ _ => trivial⟩
  obtain ⟨b, hb, -⟩ := (Holds.of_run hstable ops maxSize).active s hs
  exact ⟨b, hb⟩

theorem restart_active {b : Bootstrap} (hb : m.store.bootstrap = some b) (hs : m.store.snapshot = some s)
    {st : Service.Startup} (hboot : st.loadBootstrap = none) (hload : st.loadSnapshot = none) (cfg : Config) :
    (m.step rt cfg (.restart st)).active = some s := by
  simp [Service.step, Service.initializeManager, Service.loadBootstrap, Service.newProcess, hboot, hload, hb,
    hs, Service.activate]

/-- In every run without refused writes: a restart that can read the store, at any point, serves a snapshot
with the id, the held additions, the states of the territories and the digest of the one served before,
and answers every query with the same certificates. -/
theorem restart_transparent (hsha : Function.Injective rt.sha256) (hjson : Function.Injective rt.marshalID)
    {ops : List (Config × Op)} (hops : ∀ i ∈ ops, i.2.Accepted) (maxSize : Int)
    (hs : ((Service.empty maxSize).run rt ops).active = some s) {st : Service.Startup}
    (hboot : st.loadBootstrap = none) (hload : st.loadSnapshot = none) (cfg : Config) :
    ∃ s', (((Service.empty maxSize).run rt ops).step rt cfg (.restart st)).active = some s' ∧ Mirrors s' s ∧
      ∀ q b, filter rt s q = .ok b → ∃ b', filter rt s' q = .ok b' ∧
        (b.map Anchor.fingerprintSHA256).Perm (b'.map Anchor.fingerprintSHA256) := by
  obtain ⟨boot, hstoreBoot⟩ := storeBootstrap_of_active ops maxSize hs
  obtain ⟨s', hs', hmirrors⟩ := mirrored_run hops maxSize s hs
  have htraced : Traced rt (fun _ => True) (WellFormed rt) ((Service.empty maxSize).run rt ops) :=
    .of_run (wellFormed_kept rt) (fun _ _ => trivial) maxSize
  have hwell := htraced.of_active s hs
  have hwell' := htraced.stored s' hs'
  refine ⟨s', restart_active hstoreBoot hs' hboot hload cfg, hmirrors, fun q b hb => ?_⟩
  obtain ⟨b', hb'⟩ := exists_filter_ok hb s'
  have hid : idContent s = idContent s' := hwell.idContent_eq hsha hjson hwell' hmirrors.id.symm
  exact ⟨b', hb', bundle_perm_of_anchorPart hsha hwell hwell' (by rw [hid]) hb hb'⟩

namespace Symbolic

/-- The addition is held in the second cycle, and the third one has nothing to write. -/
def unwritten : List Op := growingOps ++ [refresh 7 (growingPages "2")]

end Symbolic

open Symbolic in
/-- A restart after a cycle that was not written. -/
theorem restart_transparent_unwritten :
    ∃ s s', (growing.exactRun (config ["EE"] .hold 0) unwritten).active = some s ∧ s.pending ≠ [] ∧
      ((growing.exactRun (config ["EE"] .hold 0) unwritten).step growing.exact (config ["EE"] .hold 0)
        (.restart {})).active = some s' ∧ s'.generatedAt ≠ s.generatedAt ∧ Mirrors s' s := by
  have hrun : (growing.exactRun (config ["EE"] .hold 0) unwritten).active.any fun s => s.pending ≠ [] ∧
      ((growing.exactRun (config ["EE"] .hold 0) unwritten).step growing.exact (config ["EE"] .hold 0)
        (.restart {})).active.any fun s' => s'.generatedAt ≠ s.generatedAt := by decide +kernel
  obtain ⟨s, hs, h⟩ := (Option.any_eq_true _ _).1 hrun
  obtain ⟨hpending, h⟩ := of_decide_eq_true h
  obtain ⟨s'', hs'', hdate⟩ := (Option.any_eq_true _ _).1 h
  have hops : ∀ i ∈ unwritten.map fun op => (config ["EE"] .hold 0, op), i.2.Accepted := by
    simp [unwritten, growingOps, Op.Accepted, install, Symbolic.refresh, refreshInput,
      Service.RefreshInput.Accepted]
  obtain ⟨s', hs', hmirrors, -⟩ := restart_transparent growing.exact_sha256_injective
    growing.exact_marshalID_injective hops 100 hs (rfl : ({} : Service.Startup).loadBootstrap = none) rfl
    (config ["EE"] .hold 0)
  obtain rfl : s'' = s' := Option.some.inj (hs''.symm.trans hs')
  exact ⟨s, s'', hs, hpending, hs'', of_decide_eq_true hdate, hmirrors⟩

end TrustAnchor.Ingest
