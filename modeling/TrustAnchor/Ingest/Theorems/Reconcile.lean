import TrustAnchor.Ingest.Theorems.DiffExact
import TrustAnchor.Ingest.Theorems.Expiry
import TrustAnchor.Ingest.Theorems.FastPath

/-!
# Reconciling the declared set

A reconcile replaces the declared anchors and nothing else. It makes a snapshot exactly if the declared
anchors differ in what the id shows, and doing it again with the same file makes none.
-/

namespace TrustAnchor.Ingest

open Lib Tsl Trust

variable {rt : Runtime} {cfg : Config} {readFile : String → Except String Bytes} {prev next : Snapshot}
  {now now' : Time} {result : Option Snapshot} {rep : DeclaredSourceState}

/-- The declared set after a reconcile: the one that was loaded, or the previous one if the load failed. -/
def declaredAfter (rt : Runtime) (cfg : Config) (readFile : String → Except String Bytes) (prev : Snapshot)
    (now : Time) : List Anchor :=
  (declaredSet (cfg.internalTrustSource ≠ "") prev.internal
    (loadInternal rt readFile cfg.internalTrustSource now)).1

theorem refreshDeclared_eq_none (h : refreshDeclared rt cfg readFile prev now = .ok (result, rep)) :
    result = none ↔ computeID rt { prev with internal := declaredAfter rt cfg readFile prev now } = prev.id := by
  unfold refreshDeclared at h
  obtain ⟨s, hs, h⟩ := Result.bind_eq_ok.1 h
  obtain rfl := cloneSnapshot_ok hs
  simp only at h
  split at h
  · rename_i hid
    cases h
    exact ⟨fun _ => hid, fun _ => rfl⟩
  · rename_i hid
    cases h
    exact ⟨nofun, fun heq => absurd heq hid⟩

theorem refreshDeclared_cases (rt : Runtime) (cfg : Config) (readFile : String → Except String Bytes)
    (prev : Snapshot) (now : Time) :
    (∃ e, rt.jsonError prev = some e ∧ refreshDeclared rt cfg readFile prev now = .error (.failure e)) ∨
      ∃ result rep, refreshDeclared rt cfg readFile prev now = .ok (result, rep) := by
  unfold refreshDeclared cloneSnapshot
  cases rt.jsonError prev with
  | some e => exact .inl ⟨e, rfl, rfl⟩
  | none =>
      simp only [Result.ok_bind]
      split
      · exact .inr ⟨_, _, rfl⟩
      · exact .inr ⟨_, _, rfl⟩

/-! ## When it makes a snapshot -/

theorem computeID_internal_eq_iff (hsha : Function.Injective rt.sha256) (hjson : Function.Injective rt.marshalID)
    (hprev : WellFormed rt prev) {set : List Anchor} :
    computeID rt { prev with internal := set } = prev.id ↔
      (set.map idAnchor).Perm (prev.internal.map idAnchor) := by
  rw [hprev.id, ← @idContent_internal_eq_iff prev { prev with internal := set } hprev.arranged.declared]
  constructor
  · intro hid
    have hcontent := hjson (hsha (hexEncode_injective hid))
    exact congrArg IDContent.internal hcontent
  · intro hinternal
    have hcontent : idContent { prev with internal := set } = idContent prev :=
      congrArg (fun i => { idContent prev with internal := i }) hinternal
    exact congrArg (fun c => rt.sha256hex (rt.marshalID c)) hcontent

/-! ## What it changes -/

/-- An entry for a declared anchor. -/
def InternalEntry (d : DiffEntry) : Prop := d.source = sourceInternal ∧ d.territory = "internal"

theorem mem_placed_listed_congr {code fp : String} {a : Anchor} (h : next.territories = prev.territories) :
    (.listed code fp, a) ∈ placed (some next) ↔ (.listed code fp, a) ∈ placed (some prev) := by
  simp [mem_placed, h]

/-- Where the lists are the same, all that is reported is declared. -/
theorem internalEntry_of_territories {d : DiffEntry} (hprev : Indexable (some prev))
    (hnext : Indexable (some next)) (hsame : next.territories = prev.territories)
    (hd : d ∈ (computeDiff (some prev) next).entries) : InternalEntry d := by
  obtain ⟨a, hreported, hentry⟩ := mem_entries_reported hprev hnext hd
  obtain ⟨s, hs, ha⟩ := hreported.placed
  generalize d.place = π at hreported hentry ha
  cases π with
  | listed code fp =>
      have hplaced : (.listed code fp, a) ∈ placed (some prev) := by
        rcases hs with rfl | rfl
        · exact ha
        · exact (mem_placed_listed_congr hsame).1 ha
      exact (hreported.false_of_placed hprev hnext hplaced ((mem_placed_listed_congr hsame).2 hplaced)).elim
  | declared fp type =>
      have hsource : a.source = sourceInternal := by
        rcases hs with rfl | rfl
        · exact hprev.source _ a ha
        · exact hnext.source _ a ha
      rw [hentry]
      exact ⟨hsource, rfl⟩

/-! ## Doing it again -/

/-- With the same file, at any time: the load gives what it gave, or fails and carries that over. -/
theorem declaredAfter_again (h : refreshDeclared rt cfg readFile prev now = .ok (some next, rep))
    (hprev : prev.id = computeID rt prev) :
    declaredAfter rt cfg readFile next now' = next.internal := by
  have hset : next.internal = declaredAfter rt cfg readFile prev now := by
    rw [(refreshDeclared_eq h).1]
    rfl
  refine declaredSet_again fun set hset' => ?_
  cases hload : loadInternal rt readFile cfg.internalTrustSource now with
  | ok loaded =>
      refine ⟨now, ?_⟩
      rw [hload, hset, declaredAfter, hload]
      rfl
  | error e =>
      -- a failed load leaves the set as it was, and then no snapshot is made
      have hkept : declaredAfter rt cfg readFile prev now = prev.internal := by
        rw [declaredAfter, hload]
        rfl
      have hnone := refreshDeclared_eq_none h
      rw [hkept] at hnone
      cases hnone.2 hprev.symm

/-! ## The reconcile as a whole -/

/-- `next` is `prev` with other declared anchors. -/
structure Reconciled (rt : Runtime) (cfg : Config) (readFile : String → Except String Bytes) (prev : Snapshot)
    (now : Time) (next : Snapshot) : Prop where
  internal : next.internal = declaredAfter rt cfg readFile prev now
  /-- Nothing else is touched but the stamps. -/
  frame : next = { prev with
    internal := next.internal, id := next.id, generatedAt := next.generatedAt, prevID := next.prevID
    diff := next.diff, declaredLoad := next.declaredLoad }
  diff : ∀ d ∈ next.diff, ∀ e ∈ d.entries, InternalEntry e
  again : ∀ now' result rep, refreshDeclared rt cfg readFile next now' = .ok (result, rep) → result = none

theorem WellFormed.reconciled (hne : ∀ b, rt.sha256 b ≠ []) (hprev : WellFormed rt prev)
    (h : refreshDeclared rt cfg readFile prev now = .ok (some next, rep)) :
    Reconciled rt cfg readFile prev now next := by
  have hadvances : Advances rt cfg (some prev) next := .declared h
  have hnext : WellFormed rt next := (wellFormed_kept rt).advances trivial (by simpa using hprev) hadvances
  have heq := (refreshDeclared_eq h).1
  refine ⟨by rw [heq]; rfl, by rw [heq]; rfl, ?_, ?_⟩
  · intro d hd e he
    obtain rfl := Option.some.inj (hadvances.diff.symm.trans hd)
    exact internalEntry_of_territories (hprev.indexable hne) (hnext.indexable hne) (by rw [heq]; rfl) he
  · intro now' result rep' hagain
    rw [refreshDeclared_eq_none hagain, declaredAfter_again h hprev.id]
    exact hnext.id.symm

/-- After any run, whatever the declaration file holds: unless the served snapshot cannot be cloned, a
reconcile makes a snapshot exactly if the set it loads, or carries over, differs from the served one in what
the id shows, as a multiset; and the snapshot it makes differs from the served one in its declared set
alone. -/
theorem refreshDeclared_exact (hsha : Function.Injective rt.sha256) (hjson : Function.Injective rt.marshalID)
    (hne : ∀ b, rt.sha256 b ≠ []) (ops : List (Config × Op)) (maxSize : Int)
    (hprev : prev ∈ ((Service.empty maxSize).run rt ops).active) :
    (∃ e, rt.jsonError prev = some e ∧ refreshDeclared rt cfg readFile prev now = .error (.failure e)) ∨
    ∃ result rep, refreshDeclared rt cfg readFile prev now = .ok (result, rep) ∧
      (result = none ↔
        ((declaredAfter rt cfg readFile prev now).map idAnchor).Perm (prev.internal.map idAnchor)) ∧
      ∀ next ∈ result, Reconciled rt cfg readFile prev now next := by
  have hrun : Traced rt (fun _ => True) (WellFormed rt) ((Service.empty maxSize).run rt ops) :=
    .of_run (wellFormed_kept rt) (fun _ _ => trivial) maxSize
  have hwell : WellFormed rt prev := hrun.of_active prev hprev
  rcases refreshDeclared_cases rt cfg readFile prev now with herror | ⟨result, rep, h⟩
  · exact .inl herror
  · refine .inr ⟨result, rep, h, ?_, ?_⟩
    · exact (refreshDeclared_eq_none h).trans (computeID_internal_eq_iff hsha hjson hwell)
    · rintro next rfl
      exact hwell.reconciled hne h

namespace Symbolic

/-- The declaration file of `declaring`, without collisions. -/
def reconciling : Runtime :=
  { declaring with sha256 := growing.exact.sha256, marshalID := growing.exact.marshalID }

/-- An install and a cycle before any file is configured. -/
def undeclaredOps : List (Config × Op) :=
  [(config ["EE"] .auto 0, install ["B"]), (config ["EE"] .auto 0, refresh 1 (growingPages "1"))]

end Symbolic

open Symbolic in
/-- The file is configured. -/
theorem refreshDeclared_exact_configured : ∃ prev next rep,
    prev ∈ ((Service.empty 100).run reconciling undeclaredOps).active ∧
    refreshDeclared reconciling declaringConfig declarations prev 5 = .ok (some next, rep) ∧
    Reconciled reconciling declaringConfig declarations prev 5 next := by
  have hrun : ((Service.empty 100).run reconciling undeclaredOps).active.any fun prev =>
      (refreshDeclared reconciling declaringConfig declarations prev 5).toOption.any fun r => r.1.isSome := by
    decide +kernel
  obtain ⟨prev, hprev, hmade⟩ := (Option.any_eq_true _ _).1 hrun
  obtain ⟨e, he, -⟩ | ⟨result, rep, h, -, hresult⟩ := @refreshDeclared_exact reconciling declaringConfig
    declarations prev 5 growing.exact_sha256_injective growing.exact_marshalID_injective
    growing.exact_sha256_ne_nil undeclaredOps 100 hprev
  · cases he
  · rw [h] at hmade
    obtain ⟨next, rfl⟩ := Option.isSome_iff_exists.1 hmade
    exact ⟨prev, next, rep, hprev, h, hresult next rfl⟩

end TrustAnchor.Ingest
