import TrustAnchor.Ingest.Lemmas.WellFormed
import TrustAnchor.Ingest.Symbolic

/-!
# What a diff reports

A diff has one entry for each place where an anchor came or went, and at most one where it changed. Their
order is that of a sort whose keys can tie.
-/

namespace TrustAnchor.Ingest

open Lib Tsl Trust

variable {rt : Runtime} {prev : Option Snapshot} {next : Snapshot}

/-! ## Iteration orders -/

/-- The entries, in the order that the two maps are gone through in. -/
def diffEntries (prevSet nextSet : List (String × IndexedAnchor)) : List DiffEntry :=
  (nextSet.filterMap fun e =>
    match prevSet.lookup e.1 with
    | none => some (diffEntry .added e.2 "")
    | some old =>
      let detail := metadataChange old e.2
      if detail ≠ "" then some (diffEntry .changed e.2 detail) else none) ++
  prevSet.filterMap fun e =>
    if (nextSet.lookup e.1).isNone then some (diffEntry .removed e.2 "") else none

theorem computeDiff_entries (prev : Option Snapshot) (next : Snapshot) : (computeDiff prev next).entries =
    (diffEntries (anchorIndex prev) (anchorIndex (some next))).insertionSort diffEntryLe := rfl

theorem diffEntryLe_eq : diffEntryLe = lexLe DiffEntry.territory (lexLe (fun d => d.kind.name)
    (lexLe DiffEntry.fingerprint (keyLe DiffEntry.type))) := rfl

instance : Std.Total diffEntryLe := diffEntryLe_eq ▸ inferInstance

instance : IsTrans DiffEntry diffEntryLe := diffEntryLe_eq ▸ inferInstance

/-- What the sort compares. The source is not in it. -/
def rank (d : DiffEntry) : String × DiffKind × String × String :=
  (d.territory, d.kind, d.fingerprint, d.type)

theorem name_injective : Function.Injective DiffKind.name := by
  intro k k'
  cases k <;> cases k' <;> decide

theorem diffEntryLe_antisymm {d d' : DiffEntry} (h : diffEntryLe d d') (h' : diffEntryLe d' d) :
    rank d = rank d' := by
  rw [diffEntryLe_eq] at h h'
  obtain ⟨hterritory, h, h'⟩ := lexLe_antisymm h h'
  obtain ⟨hkind, h, h'⟩ := lexLe_antisymm h h'
  obtain ⟨hfp, h, h'⟩ := lexLe_antisymm h h'
  rw [rank, rank, hterritory, name_injective hkind, hfp, le_antisymm h h']

theorem diffEntryLe_of_rank {d d' : DiffEntry} (h : rank d = rank d') :
    diffEntryLe d d' := by
  simp only [rank, Prod.mk.injEq] at h
  simp [diffEntryLe, h]

/-- Both lists of entries are gone through in the order of a map; what is looked up is not. -/
theorem diffEntries_perm {prevSet nextSet P N : List (String × IndexedAnchor)}
    (hprev : (prevSet.map Prod.fst).Nodup) (hnext : (nextSet.map Prod.fst).Nodup) (hP : P.Perm prevSet)
    (hN : N.Perm nextSet) : (diffEntries P N).Perm (diffEntries prevSet nextSet) := by
  simp only [diffEntries, lookup_perm hprev hP, lookup_perm hnext hN]
  exact (hN.filterMap _).append (hP.filterMap _)

/-! ## One entry for each change -/

/-- An anchor that came, went or changed at a place. -/
def Reported (prev : Option Snapshot) (next : Snapshot) (kind : DiffKind) (π : Place) (a : Anchor) : Prop :=
  match kind with
  | .added => (π, a) ∈ placed (some next) ∧ π ∉ places prev
  | .removed => (π, a) ∈ placed prev ∧ π ∉ places (some next)
  | .changed => (π, a) ∈ placed (some next) ∧ ∃ old, (π, old) ∈ placed prev ∧ ¬ SameMetadata old a

theorem Reported.placed {kind : DiffKind} {π : Place} {a : Anchor} (h : Reported prev next kind π a) :
    ∃ s, (s = prev ∨ s = some next) ∧ (π, a) ∈ Trust.placed s := by
  cases kind with
  | added => exact ⟨_, .inr rfl, h.1⟩
  | removed => exact ⟨_, .inl rfl, h.1⟩
  | changed => exact ⟨_, .inr rfl, h.1⟩

theorem Reported.entry_place (hprev : Indexable prev) (hnext : Indexable (some next)) {kind : DiffKind}
    {π : Place} {a : Anchor} (h : Reported prev next kind π a) (detail : String) :
    (π.entry kind a detail).place = π := by
  obtain ⟨s, rfl | rfl, ha⟩ := h.placed
  · exact place_entry hprev ha kind detail
  · exact place_entry hnext ha kind detail

/-- Nothing is reported where both have the same anchor. -/
theorem Reported.false_of_placed (hprev : Indexable prev) (hnext : Indexable (some next)) {kind : DiffKind}
    {π : Place} {a b : Anchor} (h : Reported prev next kind π a) (hb : (π, b) ∈ Trust.placed prev)
    (hb' : (π, b) ∈ Trust.placed (some next)) : False := by
  cases kind with
  | added => exact h.2 (mem_places.2 ⟨b, hb⟩)
  | removed => exact h.2 (mem_places.2 ⟨b, hb'⟩)
  | changed =>
      obtain ⟨ha, old, hold, hchanged⟩ := h
      obtain rfl := hprev.eq hold hb
      obtain rfl := hnext.eq ha hb'
      exact hchanged ⟨rfl, rfl, rfl, rfl⟩

theorem mem_entries_reported (hprev : Indexable prev) (hnext : Indexable (some next)) {d : DiffEntry}
    (hd : d ∈ (computeDiff prev next).entries) :
    ∃ a, Reported prev next d.kind d.place a ∧ d = d.place.entry d.kind a d.detail := by
  have hfound : ∃ π a, Reported prev next d.kind π a ∧ d = π.entry d.kind a d.detail := by
    rcases (mem_computeDiff hprev hnext).1 hd with
      ⟨π, a, ha, hπ, rfl⟩ | ⟨π, old, a, detail, hold, ha, hchanged, rfl, -⟩ | ⟨π, a, ha, hπ, rfl⟩
    · exact ⟨π, a, ⟨ha, hπ⟩, rfl⟩
    · exact ⟨π, a, ⟨ha, old, hold, hchanged⟩, rfl⟩
    · exact ⟨π, a, ⟨ha, hπ⟩, rfl⟩
  obtain ⟨π, a, h, hentry⟩ := hfound
  have hplace : d.place = π := by
    rw [hentry]
    exact h.entry_place hprev hnext _
  rw [hplace]
  exact ⟨a, h, hentry⟩

theorem exists_mem_entries (hprev : Indexable prev) (hnext : Indexable (some next)) {kind : DiffKind}
    {π : Place} {a : Anchor} (h : Reported prev next kind π a) :
    ∃ detail, π.entry kind a detail ∈ (computeDiff prev next).entries := by
  cases kind with
  | added => exact ⟨"", (mem_computeDiff hprev hnext).2 (.inl ⟨π, a, h.1, h.2, rfl⟩)⟩
  | removed => exact ⟨"", (mem_computeDiff hprev hnext).2 (.inr (.inr ⟨π, a, h.1, h.2, rfl⟩))⟩
  | changed =>
      obtain ⟨ha, old, hold, hchanged⟩ := h
      exact ⟨_, (mem_computeDiff hprev hnext).2 (.inr (.inl ⟨π, old, a, _, hold, ha, hchanged, rfl, rfl⟩))⟩

/-- The kind and the place of an entry. -/
def subject (d : DiffEntry) : DiffKind × Place := (d.kind, d.place)

theorem subjects_nodup (hprev : Indexable prev) (hnext : Indexable (some next)) :
    ((computeDiff prev next).entries.map subject).Nodup := by
  rw [computeDiff_entries, ((List.perm_insertionSort diffEntryLe _).map subject).nodup_iff, diffEntries,
    List.map_append, List.nodup_append]
  refine ⟨?_, ?_, ?_⟩
  · refine .of_map Prod.snd (List.Nodup.sublist ?_ hnext.nodup)
    rw [anchorIndex_eq hnext, List.filterMap_map, List.map_map]
    refine map_filterMap_sublist fun e he d hd => ?_
    simp only [Function.comp_apply] at hd
    split at hd
    · cases hd
      exact place_entry hnext he _ _
    · split_ifs at hd
      cases hd
      exact place_entry hnext he _ _
  · refine .of_map Prod.snd (List.Nodup.sublist ?_ hprev.nodup)
    rw [anchorIndex_eq hprev, List.filterMap_map, List.map_map]
    refine map_filterMap_sublist fun e he d hd => ?_
    simp only [Function.comp_apply] at hd
    split_ifs at hd
    cases hd
    exact place_entry hprev he _ _
  · -- what is gone is reported as removed, and nothing else is
    intro x hx y hy hxy
    obtain ⟨d, hd, rfl⟩ := List.mem_map.1 hx
    obtain ⟨d', hd', rfl⟩ := List.mem_map.1 hy
    obtain ⟨e, -, hd⟩ := List.mem_filterMap.1 hd
    obtain ⟨e', -, hd'⟩ := List.mem_filterMap.1 hd'
    have hkind : d.kind = d'.kind := (Prod.mk.inj hxy).1
    split_ifs at hd'
    cases hd'
    split at hd
    · cases hd
      cases hkind
    · simp only at hd
      split_ifs at hd
      cases hd
      cases hkind

/-- The number of entries of a kind for a place. -/
def reports (d : Diff) (kind : DiffKind) (π : Place) : Nat := (d.entries.map subject).count (kind, π)

theorem mem_subjects (hprev : Indexable prev) (hnext : Indexable (some next)) {kind : DiffKind} {π : Place} :
    (kind, π) ∈ (computeDiff prev next).entries.map subject ↔ ∃ a, Reported prev next kind π a := by
  rw [List.mem_map]
  constructor
  · rintro ⟨d, hd, hsubject⟩
    obtain ⟨a, h, -⟩ := mem_entries_reported hprev hnext hd
    obtain ⟨rfl, rfl⟩ := Prod.mk.inj hsubject
    exact ⟨a, h⟩
  · rintro ⟨a, h⟩
    obtain ⟨detail, hd⟩ := exists_mem_entries hprev hnext h
    exact ⟨_, hd, Prod.ext rfl (h.entry_place hprev hnext detail)⟩

theorem reports_eq_one (hprev : Indexable prev) (hnext : Indexable (some next)) {kind : DiffKind} {π : Place}
    (h : ∃ a, Reported prev next kind π a) : reports (computeDiff prev next) kind π = 1 :=
  List.count_eq_one_of_mem (subjects_nodup hprev hnext) ((mem_subjects hprev hnext).2 h)

theorem reports_eq_zero (hprev : Indexable prev) (hnext : Indexable (some next)) {kind : DiffKind} {π : Place}
    (h : ¬ ∃ a, Reported prev next kind π a) : reports (computeDiff prev next) kind π = 0 :=
  List.count_eq_zero_of_not_mem (mt (mem_subjects hprev hnext).1 h)

/-- One entry for each place where an anchor came or went, and at most one for each place that both have. -/
structure Exact (prev : Option Snapshot) (next : Snapshot) (d : Diff) : Prop where
  added : ∀ π, reports d .added π = if π ∈ places (some next) ∧ π ∉ places prev then 1 else 0
  removed : ∀ π, reports d .removed π = if π ∈ places prev ∧ π ∉ places (some next) then 1 else 0
  changed : ∀ π, reports d .changed π ≤ if π ∈ places prev ∧ π ∈ places (some next) then 1 else 0

theorem computeDiff_exact (hprev : Indexable prev) (hnext : Indexable (some next)) :
    Exact prev next (computeDiff prev next) where
  added π := by
    split_ifs with h
    · obtain ⟨a, ha⟩ := mem_places.1 h.1
      exact reports_eq_one hprev hnext ⟨a, ha, h.2⟩
    · refine reports_eq_zero hprev hnext ?_
      rintro ⟨a, ha, hπ⟩
      exact h ⟨mem_places.2 ⟨a, ha⟩, hπ⟩
  removed π := by
    split_ifs with h
    · obtain ⟨a, ha⟩ := mem_places.1 h.1
      exact reports_eq_one hprev hnext ⟨a, ha, h.2⟩
    · refine reports_eq_zero hprev hnext ?_
      rintro ⟨a, ha, hπ⟩
      exact h ⟨mem_places.2 ⟨a, ha⟩, hπ⟩
  changed π := by
    by_cases hreported : ∃ a, Reported prev next .changed π a
    · rw [reports_eq_one hprev hnext hreported]
      obtain ⟨a, ha, old, hold, -⟩ := hreported
      rw [if_pos ⟨mem_places.2 ⟨old, hold⟩, mem_places.2 ⟨a, ha⟩⟩]
    · rw [reports_eq_zero hprev hnext hreported]
      exact Nat.zero_le _

/-- What came in the one direction goes in the other. -/
theorem reports_swap {p : Snapshot} (hp : Indexable (some p)) (hnext : Indexable (some next)) (π : Place) :
    reports (computeDiff (some p) next) .added π = reports (computeDiff (some next) p) .removed π := by
  rw [(computeDiff_exact hp hnext).added, (computeDiff_exact hnext hp).removed]

/-! ## Ties -/

/-- A list of a territory coded as the declared anchors are, and a declared anchor of the same certificate
and type: both came, both went or both changed. -/
def Tied (prev : Option Snapshot) (next : Snapshot) : Prop :=
  ∃ kind fp a b, Reported prev next kind (.listed "internal" fp) a ∧
    Reported prev next kind (.declared fp a.type) b

theorem Reported.fingerprint {kind : DiffKind} {π : Place} {a : Anchor} (h : Reported prev next kind π a) :
    a.fingerprintSHA256 = π.fingerprint := by
  obtain ⟨s, -, ha⟩ := h.placed
  cases s with
  | none => cases ha
  | some s => exact fingerprint_of_mem_placed ha

theorem Reported.type {kind : DiffKind} {fp type : String} {a : Anchor}
    (h : Reported prev next kind (.declared fp type) a) : a.type = type := by
  obtain ⟨s, -, ha⟩ := h.placed
  cases s with
  | none => cases ha
  | some s =>
      obtain ⟨t, -, -, hplace⟩ | ⟨-, hplace⟩ := mem_placed.1 ha
      · cases hplace
      · exact (Place.declared.inj hplace).2.symm

theorem place_eq_of_rank (hnot : ¬ Tied prev next) {kind : DiffKind} {π π' : Place} {a a' : Anchor}
    (h : Reported prev next kind π a) (h' : Reported prev next kind π' a')
    (hterritory : π.territory = π'.territory) (hfp : a.fingerprintSHA256 = a'.fingerprintSHA256)
    (htype : a.type = a'.type) : π = π' := by
  rw [h.fingerprint, h'.fingerprint] at hfp
  cases π with
  | listed code fp =>
      cases π' with
      | listed code' fp' =>
          obtain rfl : code = code' := hterritory
          obtain rfl : fp = fp' := hfp
          rfl
      | declared fp' type =>
          obtain rfl : code = "internal" := hterritory
          obtain rfl : fp = fp' := hfp
          rw [← h'.type, ← htype] at h'
          exact absurd ⟨kind, fp, a, a', h, h'⟩ hnot
  | declared fp type =>
      cases π' with
      | listed code' fp' =>
          obtain rfl : "internal" = code' := hterritory
          obtain rfl : fp = fp' := hfp
          rw [← h.type, htype] at h
          exact absurd ⟨kind, fp, a', a, h', h⟩ hnot
      | declared fp' type' =>
          obtain rfl : fp = fp' := hfp
          rw [← h.type, ← h'.type, htype]

theorem ranks_nodup (hprev : Indexable prev) (hnext : Indexable (some next)) (hnot : ¬ Tied prev next) :
    ((computeDiff prev next).entries.map rank).Nodup := by
  have hsubjects := subjects_nodup hprev hnext
  rw [List.nodup_map_iff_inj_on hsubjects.of_map]
  intro d hd d' hd' heq
  obtain ⟨a, h, hentry⟩ := mem_entries_reported hprev hnext hd
  obtain ⟨a', h', hentry'⟩ := mem_entries_reported hprev hnext hd'
  have hkind : d.kind = d'.kind := congrArg (fun x => x.2.1) heq
  have hrank : rank (d.place.entry d.kind a d.detail) = rank (d'.place.entry d'.kind a' d'.detail) := by
    rw [← hentry, ← hentry', heq]
  obtain ⟨hterritory, hrank⟩ := Prod.mk.inj hrank
  obtain ⟨hfp, htype⟩ := Prod.mk.inj (Prod.mk.inj hrank).2
  rw [← hkind] at h'
  exact List.inj_on_of_nodup_map hsubjects hd hd'
    (Prod.ext hkind (place_eq_of_rank hnot h h' hterritory hfp htype))

theorem entries_eq_of_not_tied (hprev : Indexable prev) (hnext : Indexable (some next))
    (hnot : ¬ Tied prev next) {P N : List (String × IndexedAnchor)} (hP : P.Perm (anchorIndex prev))
    (hN : N.Perm (anchorIndex (some next))) :
    (diffEntries P N).insertionSort diffEntryLe = (computeDiff prev next).entries := by
  have hperm := diffEntries_perm (anchorIndex_nodup prev) (anchorIndex_nodup (some next)) hP hN
  have hsorted : ((diffEntries P N).insertionSort diffEntryLe).Perm (computeDiff prev next).entries :=
    (List.perm_insertionSort diffEntryLe _).trans (hperm.trans (List.perm_insertionSort diffEntryLe _).symm)
  have hranks := ranks_nodup hprev hnext hnot
  refine eq_of_sorted_of_mem (k := rank) (fun _ _ => diffEntryLe_antisymm) (List.pairwise_insertionSort diffEntryLe _)
    (List.pairwise_insertionSort diffEntryLe _) ((hsorted.map rank).nodup_iff.2 hranks) hranks ?_
  exact fun d => hsorted.mem_iff

/-- Entries of one kind come in the opposite order if both maps are gone through backwards. -/
theorem filter_diffEntries_reverse {prevSet nextSet : List (String × IndexedAnchor)} {p : DiffEntry → Bool}
    (kind : DiffKind) (hprev : (prevSet.map Prod.fst).Nodup) (hnext : (nextSet.map Prod.fst).Nodup)
    (hp : ∀ d, p d → d.kind = kind) :
    (diffEntries prevSet.reverse nextSet.reverse).filter p = ((diffEntries prevSet nextSet).filter p).reverse := by
  simp only [diffEntries, lookup_perm hprev (List.reverse_perm prevSet),
    lookup_perm hnext (List.reverse_perm nextSet), List.filterMap_reverse, List.filter_append,
    List.filter_reverse, List.reverse_append]
  by_cases hkind : kind = .removed
  · rw [(List.filter_eq_nil_iff (p := p) (l := nextSet.filterMap _)).2]
    · simp
    · intro d hd hpd
      obtain ⟨e, -, hd⟩ := List.mem_filterMap.1 hd
      have := (hp d hpd).trans hkind
      split at hd
      · cases hd
        cases this
      · split_ifs at hd
        cases hd
        cases this
  · rw [(List.filter_eq_nil_iff (p := p) (l := prevSet.filterMap _)).2]
    · simp
    · intro d hd hpd
      obtain ⟨e, -, hd⟩ := List.mem_filterMap.1 hd
      split_ifs at hd
      cases hd
      exact hkind (hp _ hpd).symm

theorem exists_order_of_tied (hprev : Indexable prev) (hnext : Indexable (some next)) (h : Tied prev next) :
    ∃ P N, P.Perm (anchorIndex prev) ∧ N.Perm (anchorIndex (some next)) ∧
      (diffEntries P N).insertionSort diffEntryLe ≠ (computeDiff prev next).entries := by
  obtain ⟨kind, fp, a, b, ha, hb⟩ := h
  obtain ⟨detail, hd⟩ := exists_mem_entries hprev hnext ha
  obtain ⟨detail', hd'⟩ := exists_mem_entries hprev hnext hb
  have hrank : rank ((Place.listed "internal" fp).entry kind a detail) =
      rank ((Place.declared fp a.type).entry kind b detail') := by
    have hfp : a.fingerprintSHA256 = b.fingerprintSHA256 := ha.fingerprint.trans hb.fingerprint.symm
    simp [rank, Place.entry, diffEntry, Place.territory, hfp, hb.type]
  have hne : (Place.listed "internal" fp).entry kind a detail ≠
      (Place.declared fp a.type).entry kind b detail' := by
    intro heq
    have hplace := congrArg DiffEntry.place heq
    rw [ha.entry_place hprev hnext, hb.entry_place hprev hnext] at hplace
    cases hplace
  refine ⟨_, _, List.reverse_perm _, List.reverse_perm _, ?_⟩
  rw [computeDiff_entries] at hd hd' ⊢
  rw [List.mem_insertionSort] at hd hd'
  have hnodup : (diffEntries (anchorIndex prev) (anchorIndex (some next))).Nodup :=
    (List.perm_insertionSort diffEntryLe _).nodup_iff.1 (subjects_nodup hprev hnext).of_map
  refine insertionSort_ne_of_tie hnodup hd hd' hne (diffEntryLe_of_rank hrank)
    (diffEntryLe_of_rank hrank.symm) ?_
  refine filter_diffEntries_reverse kind (anchorIndex_nodup prev) (anchorIndex_nodup _) ?_
  intro d hd
  rcases of_decide_eq_true hd with rfl | rfl <;> rfl

/-- A diff is exact, the diff the other way is exact too, and the order in which the maps are gone through
does not show. -/
structure ExactDiff (prev : Option Snapshot) (next : Snapshot) : Prop where
  reported : Exact prev next (computeDiff prev next)
  swap : ∀ p ∈ prev, ∀ π,
    reports (computeDiff prev next) .added π = reports (computeDiff (some next) p) .removed π ∧
      reports (computeDiff prev next) .removed π = reports (computeDiff (some next) p) .added π
  order : ∀ P N, P.Perm (anchorIndex prev) → N.Perm (anchorIndex (some next)) →
    (diffEntries P N).insertionSort diffEntryLe = (computeDiff prev next).entries

/-- The diff of two snapshots as the pipeline makes them is exact, and the same in every order of iteration
unless a territory is coded as the declared anchors are. -/
theorem computeDiff_exact_iff (hsha : ∀ b, rt.sha256 b ≠ []) (hprev : ∀ p ∈ prev, WellFormed rt p)
    (hnext : WellFormed rt next) : ExactDiff prev next ↔ ¬ Tied prev next := by
  have hp : Indexable prev := indexable_of_wellFormed hsha hprev
  have hn : Indexable (some next) := hnext.indexable hsha
  constructor
  · intro h htied
    obtain ⟨P, N, hP, hN, hne⟩ := exists_order_of_tied hp hn htied
    exact hne (h.order P N hP hN)
  · intro hnot
    refine ⟨computeDiff_exact hp hn, ?_, fun P N hP hN => entries_eq_of_not_tied hp hn hnot hP hN⟩
    rintro p rfl π
    exact ⟨reports_swap hp hn π, (reports_swap hn hp π).symm⟩

namespace Symbolic

def empty : World := ⟨[], []⟩

/-- One certificate, listed by a territory and declared, with one type. -/
def anchorOf (territory source : String) : Anchor :=
  { territory, source, tspName := "", serviceName := "", serviceType := "", status := statusBase ++ "granted",
    statusStartingTime := 0, certDER := ofText "ca", fingerprintSHA256 := empty.exact.sha256hex (ofText "ca"),
    subject := "", notBefore := 0, notAfter := 0, qualifiers := [], qcWithQSCD := false, uses := [],
    keyAlgorithm := "", curve := "", type := "pid_provider", useCases := [], tlSequence := 0 }

def unsealed (code : String) : Snapshot :=
  { id := "", prevID := "", generatedAt := 0, lotlSequence := 1, lotlIssueTime := 0, lotlNextUpdate := none,
    lotlSignersDER := [], lotlPivotSeq := 0, lotlDigest := "", lotlPointers := [], advertisedOJ := "",
    bootstrapOJRef := "", bootstrapVersion := 1,
    territories := [{ code, anchors := [anchorOf code sourceTL] }], internal := [anchorOf "EU" sourceInternal],
    pending := [], diff := none, declaredLoad := none }

def listedAndDeclared (code : String) : Snapshot :=
  { unsealed code with id := computeID empty.exact (unsealed code) }

theorem listedAndDeclared_pending (code : String) : (listedAndDeclared code).pending = [] := rfl

theorem listedAndDeclared_wellFormed (code : String) : WellFormed empty.exact (listedAndDeclared code) where
  orderly := by
    refine ⟨⟨by simp [listedAndDeclared, unsealed], ?_, ?_⟩, ?_, List.nodup_nil, ?_⟩
    · intro t ht a ha
      obtain rfl := List.mem_singleton.1 ht
      obtain rfl := List.mem_singleton.1 ha
      exact ⟨rfl, rfl, rfl⟩
    · intro t ht
      obtain rfl := List.mem_singleton.1 ht
      simp
    · simp [listedAndDeclared_pending]
    · simp [listedAndDeclared_pending]
  codes := by simp [listedAndDeclared, unsealed]
  entries := by
    intro t ht
    obtain rfl := List.mem_singleton.1 ht
    refine ⟨nofun, by simp, ?_⟩
    intro a ha
    obtain rfl := List.mem_singleton.1 ha
    exact ⟨rfl, .inr rfl⟩
  pendingReadable := by simp [listedAndDeclared_pending]
  pendingTerritory := by simp [listedAndDeclared_pending]
  internal := by
    intro a ha
    obtain rfl := List.mem_singleton.1 ha
    exact ⟨rfl, rfl, rfl, .inr rfl⟩
  internalSorted := by simp [listedAndDeclared, unsealed]
  id := by
    -- the id has no part in itself
    have hid : ∀ (s : Snapshot) id, computeID empty.exact { s with id } = computeID empty.exact s :=
      fun _ _ => rfl
    exact (hid (unsealed code) _).symm

end Symbolic

open Symbolic in
theorem computeDiff_exact_internal : WellFormed empty.exact (listedAndDeclared "internal") ∧
    ¬ ExactDiff none (listedAndDeclared "internal") := by
  refine ⟨listedAndDeclared_wellFormed "internal", fun h => ?_⟩
  have horder := h.order [] _ .nil (List.reverse_perm _)
  revert horder
  decide +kernel

open Symbolic in
theorem computeDiff_exact_two_codes :
    ExactDiff (some (listedAndDeclared "AT")) (listedAndDeclared "DE") := by
  refine (computeDiff_exact_iff empty.exact_sha256_ne_nil ?_ (listedAndDeclared_wellFormed "DE")).2 ?_
  · intro p hp
    rw [← Option.mem_some.1 hp]
    exact listedAndDeclared_wellFormed "AT"
  · rintro ⟨kind, fp, a, b, h, -⟩
    obtain ⟨s, hs, ha⟩ := h.placed
    rcases hs with rfl | rfl <;> simp [placed, listedAndDeclared, unsealed] at ha

end TrustAnchor.Ingest
