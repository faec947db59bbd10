import TrustAnchor.Lib.Key
import TrustAnchor.Lib.Keyed
import TrustAnchor.Trust.Snapshot

/-!
# The diff in terms of places

The diff compares indexes whose keys are texts. On snapshots as the pipeline makes them a key stands for
one place, and the diff says at which places anchors came, went or changed.
-/

namespace TrustAnchor.Trust

open Lib

variable {prev : Option Snapshot} {next : Snapshot}

/-! ## Places -/

/-- Where an anchor is: in the list of a territory under its fingerprint, or declared under its
fingerprint and type. -/
inductive Place where
  | listed (code fingerprint : String)
  | declared (fingerprint type : String)
deriving DecidableEq

namespace Place

def key : Place → String
  | listed code fp => code ++ "/" ++ fp
  | declared fp type => "internal/" ++ fp ++ "/" ++ type

def territory : Place → String
  | listed code _ => code
  | declared _ _ => "internal"

def fingerprint : Place → String
  | listed _ fp => fp
  | declared fp _ => fp

def source : Place → String
  | listed _ _ => sourceTL
  | declared _ _ => sourceInternal

/-- The fingerprint is hexadecimal, and the type is one that a query can name. -/
def Proper : Place → Prop
  | listed _ fp => ∃ b, b ≠ [] ∧ fp = hexEncode b
  | declared _ type => type = "" ∨ validAnchorType type

theorem key_toList (π : Place) : π.key.toList = match π with
    | listed code fp => code.toList ++ '/' :: fp.toList
    | declared fp type => ("internal/" ++ fp).toList ++ '/' :: type.toList := by
  cases π <;> simp [key]

/-- The types of the taxonomy have no slash and are not hexadecimal. -/
theorem type_chars {type : String} (h : type = "" ∨ validAnchorType type) :
    '/' ∉ type.toList ∧ (type = "" ∨ '_' ∈ type.toList) := by
  have hall : ∀ type ∈ anchorTypes, '/' ∉ type.toList ∧ '_' ∈ type.toList := by decide
  rcases h with rfl | h
  · simp
  · obtain ⟨hslash, hunderscore⟩ := hall type (by simpa [validAnchorType] using h)
    exact ⟨hslash, .inr hunderscore⟩

/-- What follows the last slash is not the same in the keys of the two kinds. -/
theorem listed_key_ne_declared_key {code fp fp' type : String} (h : (listed code fp).Proper)
    (h' : (declared fp' type).Proper) : (listed code fp).key ≠ (declared fp' type).key := by
  intro hkey
  obtain ⟨b, hb, rfl⟩ := h
  obtain ⟨hslash, htype⟩ := type_chars h'
  rw [← String.toList_inj, key_toList, key_toList,
    append_cons_inj_of_notMem_right (slash_notMem_hexEncode b) hslash, String.toList_inj] at hkey
  obtain ⟨-, hkey⟩ := hkey
  rcases htype with htype | htype
  · exact hb (hexEncode_eq_empty.1 (String.toList_inj.1 hkey ▸ htype))
  · exact underscore_notMem_hexEncode b (hkey ▸ htype)

theorem key_inj {π π' : Place} (h : π.Proper) (h' : π'.Proper) : π.key = π'.key ↔ π = π' := by
  refine ⟨fun hkey => ?_, fun heq => heq ▸ rfl⟩
  cases π with
  | listed code fp =>
      cases π' with
      | listed code' fp' =>
          obtain ⟨b, -, rfl⟩ := h
          obtain ⟨b', -, rfl⟩ := h'
          rw [← String.toList_inj, key_toList, key_toList, append_cons_inj_of_notMem_right
            (slash_notMem_hexEncode b) (slash_notMem_hexEncode b'), String.toList_inj,
            String.toList_inj] at hkey
          rw [hkey.1, hkey.2]
      | declared fp' type => exact absurd hkey (listed_key_ne_declared_key h h')
  | declared fp type =>
      cases π' with
      | listed code' fp' => exact absurd hkey.symm (listed_key_ne_declared_key h' h)
      | declared fp' type' =>
          rw [← String.toList_inj, key_toList, key_toList,
            append_cons_inj_of_notMem_right (type_chars h).1 (type_chars h').1, String.toList_inj,
            String.toList_inj] at hkey
          obtain ⟨hfp, rfl⟩ := hkey
          rw [← String.toList_inj] at hfp
          simp only [String.toList_append, List.append_cancel_left_eq, String.toList_inj] at hfp
          rw [hfp]

end Place

/-- The anchors of a snapshot at their places. -/
def placed : Option Snapshot → List (Place × Anchor)
  | none => []
  | some s =>
    (s.territories.flatMap fun t => t.anchors.map fun a => (.listed t.code a.fingerprintSHA256, a)) ++
      s.internal.map fun a => (.declared a.fingerprintSHA256 a.type, a)

theorem mem_placed {s : Snapshot} {π : Place} {a : Anchor} : (π, a) ∈ placed (some s) ↔
    (∃ t ∈ s.territories, a ∈ t.anchors ∧ π = .listed t.code a.fingerprintSHA256) ∨
      (a ∈ s.internal ∧ π = .declared a.fingerprintSHA256 a.type) := by
  simp only [placed, List.mem_append, List.mem_flatMap, List.mem_map, Prod.mk.injEq]
  constructor
  · rintro (⟨t, ht, b, hb, rfl, rfl⟩ | ⟨b, hb, rfl, rfl⟩)
    · exact .inl ⟨t, ht, hb, rfl⟩
    · exact .inr ⟨hb, rfl⟩
  · rintro (⟨t, ht, ha, rfl⟩ | ⟨ha, rfl⟩)
    · exact .inl ⟨t, ht, a, ha, rfl, rfl⟩
    · exact .inr ⟨a, ha, rfl, rfl⟩

theorem fingerprint_of_mem_placed {s : Snapshot} {π : Place} {a : Anchor} (h : (π, a) ∈ placed (some s)) :
    a.fingerprintSHA256 = π.fingerprint := by
  obtain ⟨t, -, -, rfl⟩ | ⟨-, rfl⟩ := mem_placed.1 h <;> rfl

/-- The places that a snapshot has an anchor at. -/
def places (s : Option Snapshot) : List Place := (placed s).map Prod.fst

/-- A place tells an anchor, and the key of the index tells the place. -/
structure Indexable (s : Option Snapshot) : Prop where
  nodup : (places s).Nodup
  proper : ∀ π ∈ places s, π.Proper
  source : ∀ π a, (π, a) ∈ placed s → a.source = π.source

theorem mem_places {s : Option Snapshot} {π : Place} : π ∈ places s ↔ ∃ a, (π, a) ∈ placed s := by
  simp [places]

theorem Indexable.eq {s : Option Snapshot} (h : Indexable s) {π : Place} {a b : Anchor}
    (ha : (π, a) ∈ placed s) (hb : (π, b) ∈ placed s) : a = b := eq_of_mem_keyed h.nodup ha hb

/-! ## The index -/

theorem foldl_mapInsert {α : Type} {es m : List (String × α)} (h : ((m ++ es).map Prod.fst).Nodup) :
    es.foldl (fun m e => mapInsert m e.1 e.2) m = m ++ es := by
  induction es generalizing m with
  | nil => simp
  | cons e es ih =>
      have hfresh : mapInsert m e.1 e.2 = m ++ [e] := by
        rw [mapInsert, List.filter_eq_self.2]
        intro e' he'
        rw [List.map_append, List.nodup_append] at h
        simpa using h.2.2 e'.1 (List.mem_map_of_mem he') e.1 (by simp)
      rw [List.foldl_cons, hfresh, ih (by simpa using h), List.append_assoc, List.singleton_append]

theorem foldl_mapInsert_nodup {α : Type} (es : List (String × α)) :
    ((es.foldl (fun m e => mapInsert m e.1 e.2) []).map Prod.fst).Nodup := by
  refine List.foldlRecOn (motive := fun m : List (String × α) => (m.map Prod.fst).Nodup) _ _ (by simp) ?_
  intro m hm e _
  rw [mapInsert, List.map_append, List.nodup_append]
  refine ⟨hm.sublist (List.filter_sublist.map _), by simp, ?_⟩
  simp

/-- An entry of the index. -/
def indexEntry (e : Place × Anchor) : String × IndexedAnchor := (e.1.key, ⟨e.2, e.1.territory⟩)

theorem indexEntry_nodup {s : Option Snapshot} (h : Indexable s) :
    (((placed s).map indexEntry).map Prod.fst).Nodup := by
  have hnodup : ((places s).map Place.key).Nodup := by
    rw [List.nodup_map_iff_inj_on h.nodup]
    exact fun π hπ π' hπ' heq => (Place.key_inj (h.proper π hπ) (h.proper π' hπ')).1 heq
  simpa [places, indexEntry, Function.comp_def] using hnodup

theorem anchorIndex_eq_foldl (s : Option Snapshot) :
    anchorIndex s = ((placed s).map indexEntry).foldl (fun m e => mapInsert m e.1 e.2) [] := by
  cases s with
  | none => rfl
  | some s =>
      simp [anchorIndex, placed, indexEntry, List.map_flatMap, Function.comp_def, Place.key, Place.territory]

theorem anchorIndex_eq {s : Option Snapshot} (h : Indexable s) :
    anchorIndex s = (placed s).map indexEntry := by
  rw [anchorIndex_eq_foldl, foldl_mapInsert (by simpa using indexEntry_nodup h), List.nil_append]

theorem anchorIndex_nodup (s : Option Snapshot) : ((anchorIndex s).map Prod.fst).Nodup := by
  rw [anchorIndex_eq_foldl]
  exact foldl_mapInsert_nodup _

theorem lookup_anchorIndex_none {s : Option Snapshot} (h : Indexable s) {π : Place} (hπ : π.Proper) :
    (anchorIndex s).lookup π.key = none ↔ π ∉ places s := by
  rw [lookup_eq_none, anchorIndex_eq h, List.map_map, not_iff_not, places]
  simp only [List.mem_map, Function.comp_apply, indexEntry]
  constructor
  · rintro ⟨e, he, hkey⟩
    exact ⟨e, he, (Place.key_inj (h.proper e.1 (List.mem_map_of_mem he)) hπ).1 hkey⟩
  · rintro ⟨e, he, rfl⟩
    exact ⟨e, he, rfl⟩

theorem lookup_anchorIndex_some {s : Option Snapshot} (h : Indexable s) {π : Place} {a : Anchor}
    (ha : (π, a) ∈ placed s) : (anchorIndex s).lookup π.key = some ⟨a, π.territory⟩ := by
  rw [anchorIndex_eq h, lookup_eq_some (indexEntry_nodup h)]
  exact List.mem_map.2 ⟨_, ha, rfl⟩

theorem mem_anchorIndex {s : Option Snapshot} (h : Indexable s) {e : String × IndexedAnchor} :
    e ∈ anchorIndex s ↔ ∃ π a, (π, a) ∈ placed s ∧ e = (π.key, ⟨a, π.territory⟩) := by
  rw [anchorIndex_eq h, List.mem_map]
  constructor
  · rintro ⟨⟨π, a⟩, ha, rfl⟩
    exact ⟨π, a, ha, rfl⟩
  · rintro ⟨π, a, ha, rfl⟩
    exact ⟨(π, a), ha, rfl⟩

/-! ## The entries of the diff -/

/-- What `metadataChange` compares. -/
structure SameMetadata (old next : Anchor) : Prop where
  status : old.status = next.status
  qcWithQSCD : old.qcWithQSCD = next.qcWithQSCD
  uses : old.uses = next.uses
  serviceName : old.serviceName = next.serviceName

theorem metadataChange_eq_empty {old next : IndexedAnchor} :
    metadataChange old next = "" ↔ SameMetadata old.anchor next.anchor := by
  unfold metadataChange
  constructor
  · intro h
    split_ifs at h with hstatus hqscd huses hname
    iterate 4 simp at h
    exact ⟨not_not.1 hstatus, not_not.1 hqscd, not_not.1 huses, not_not.1 hname⟩
  · rintro ⟨hstatus, hqscd, huses, hname⟩
    simp [hstatus, hqscd, huses, hname]

/-- The entry that the diff has for a place. -/
def Place.entry (π : Place) (kind : DiffKind) (a : Anchor) (detail : String) : DiffEntry :=
  diffEntry kind ⟨a, π.territory⟩ detail

@[simp] theorem Place.entry_kind {π : Place} {kind : DiffKind} {a : Anchor} {detail : String} :
    (π.entry kind a detail).kind = kind := rfl

/-- The entries of the diff: places with an anchor in one of the two snapshots only, and places whose
anchors differ. -/
theorem mem_computeDiff (hprev : Indexable prev) (hnext : Indexable (some next)) {d : DiffEntry} :
    d ∈ (computeDiff prev next).entries ↔
      (∃ π a, (π, a) ∈ placed (some next) ∧ π ∉ places prev ∧ d = π.entry .added a "") ∨
      (∃ π old a detail, (π, old) ∈ placed prev ∧ (π, a) ∈ placed (some next) ∧ ¬ SameMetadata old a ∧
        d = π.entry .changed a detail ∧ detail = metadataChange ⟨old, π.territory⟩ ⟨a, π.territory⟩) ∨
      ∃ π a, (π, a) ∈ placed prev ∧ π ∉ places (some next) ∧ d = π.entry .removed a "" := by
  simp only [computeDiff, List.mem_insertionSort, List.mem_append, List.mem_filterMap, mem_anchorIndex hprev,
    mem_anchorIndex hnext]
  rw [← or_assoc]
  refine or_congr ?_ ?_
  · constructor
    · rintro ⟨-, ⟨π, a, ha, rfl⟩, h⟩
      by_cases hπ : π ∈ places prev
      · obtain ⟨old, hold⟩ := mem_places.1 hπ
        simp only [lookup_anchorIndex_some hprev hold] at h
        split_ifs at h with hdetail
        refine .inr ⟨π, old, a, _, hold, ha, fun hsame => hdetail ?_, (Option.some.inj h).symm, rfl⟩
        exact metadataChange_eq_empty.2 hsame
      · simp only [(lookup_anchorIndex_none hprev (hnext.proper π (mem_places.2 ⟨a, ha⟩))).2 hπ] at h
        exact .inl ⟨π, a, ha, hπ, (Option.some.inj h).symm⟩
    · rintro (⟨π, a, ha, hπ, rfl⟩ | ⟨π, old, a, detail, hold, ha, hchanged, rfl, rfl⟩)
      · refine ⟨_, ⟨π, a, ha, rfl⟩, ?_⟩
        simp only [(lookup_anchorIndex_none hprev (hnext.proper π (mem_places.2 ⟨a, ha⟩))).2 hπ]
        rfl
      · refine ⟨_, ⟨π, a, ha, rfl⟩, ?_⟩
        simp only [lookup_anchorIndex_some hprev hold]
        rw [if_pos (mt metadataChange_eq_empty.1 hchanged)]
        rfl
  · constructor
    · rintro ⟨-, ⟨π, a, ha, rfl⟩, h⟩
      simp only [Option.isNone_iff_eq_none,
        lookup_anchorIndex_none hnext (hprev.proper π (mem_places.2 ⟨a, ha⟩))] at h
      split_ifs at h with hπ
      exact ⟨π, a, ha, hπ, (Option.some.inj h).symm⟩
    · rintro ⟨π, a, ha, hπ, rfl⟩
      refine ⟨_, ⟨π, a, ha, rfl⟩, ?_⟩
      simp only [Option.isNone_iff_eq_none,
        lookup_anchorIndex_none hnext (hprev.proper π (mem_places.2 ⟨a, ha⟩))]
      rw [if_pos hπ]
      rfl

/-- The diff is empty exactly if both snapshots have anchors at the same places, with the metadata that
is compared. -/
theorem computeDiff_eq_nil (hprev : Indexable prev) (hnext : Indexable (some next)) :
    (computeDiff prev next).entries = [] ↔
      (∀ π, π ∈ places prev ↔ π ∈ places (some next)) ∧
      ∀ π old a, (π, old) ∈ placed prev → (π, a) ∈ placed (some next) → SameMetadata old a := by
  rw [List.eq_nil_iff_forall_not_mem]
  simp only [mem_computeDiff hprev hnext, not_or]
  constructor
  · intro h
    refine ⟨fun π => ⟨fun hπ => ?_, fun hπ => ?_⟩, fun π old a hold ha => ?_⟩
    · obtain ⟨a, ha⟩ := mem_places.1 hπ
      by_contra hnot
      exact (h _).2.2 ⟨π, a, ha, hnot, rfl⟩
    · obtain ⟨a, ha⟩ := mem_places.1 hπ
      by_contra hnot
      exact (h _).1 ⟨π, a, ha, hnot, rfl⟩
    · by_contra hnot
      exact (h _).2.1 ⟨π, old, a, _, hold, ha, hnot, rfl, rfl⟩
  · rintro ⟨hplaces, hmeta⟩ d
    refine ⟨?_, ?_, ?_⟩
    · rintro ⟨π, a, ha, hnot, -⟩
      exact hnot ((hplaces π).2 (mem_places.2 ⟨a, ha⟩))
    · rintro ⟨π, old, a, -, hold, ha, hnot, -⟩
      exact hnot (hmeta π old a hold ha)
    · rintro ⟨π, a, ha, hnot, -⟩
      exact hnot ((hplaces π).1 (mem_places.2 ⟨a, ha⟩))

theorem computeDiff_of_placed (h : placed (some next) = placed prev) :
    (computeDiff prev next).entries = [] := by
  have hindex : anchorIndex (some next) = anchorIndex prev := by
    rw [anchorIndex_eq_foldl, h, ← anchorIndex_eq_foldl]
  have hlookup : ∀ e ∈ anchorIndex prev, (anchorIndex prev).lookup e.1 = some e.2 :=
    fun e he => (lookup_eq_some (anchorIndex_nodup prev)).2 he
  rw [List.eq_nil_iff_forall_not_mem]
  simp only [computeDiff, hindex, List.mem_insertionSort, List.mem_append, List.mem_filterMap]
  rintro d (⟨e, he, h⟩ | ⟨e, he, h⟩)
  · have hsame : metadataChange e.2 e.2 = "" := metadataChange_eq_empty.2 ⟨rfl, rfl, rfl, rfl⟩
    simp [hlookup e he, hsame] at h
  · simp [hlookup e he] at h

/-! ## Replaying diffs -/

/-- The place that an entry of a diff is about. -/
def DiffEntry.place (d : DiffEntry) : Place :=
  if d.source = sourceInternal then .declared d.fingerprint d.type else .listed d.territory d.fingerprint

/-- What comes and goes with a diff. -/
def Diff.changes (d : Diff) : List (Change Place) :=
  d.entries.filterMap fun e =>
    match e.kind with
    | .added => some (.added e.place)
    | .removed => some (.removed e.place)
    | .changed => none

theorem place_entry {s : Option Snapshot} (h : Indexable s) {π : Place} {a : Anchor} (ha : (π, a) ∈ placed s)
    (kind : DiffKind) (detail : String) : (π.entry kind a detail).place = π := by
  cases s with
  | none => cases ha
  | some s =>
      have hsource := h.source π a ha
      unfold DiffEntry.place Place.entry diffEntry
      simp only [hsource]
      obtain ⟨t, -, -, rfl⟩ | ⟨-, rfl⟩ := mem_placed.1 ha
      · exact if_neg (show sourceTL ≠ sourceInternal by decide)
      · exact if_pos rfl

theorem mem_changes_added (hprev : Indexable prev) (hnext : Indexable (some next)) {π : Place} :
    .added π ∈ (computeDiff prev next).changes ↔ π ∈ places (some next) ∧ π ∉ places prev := by
  simp only [Diff.changes, List.mem_filterMap, mem_computeDiff hprev hnext]
  constructor
  · rintro ⟨d, ⟨π', a, ha, hnot, rfl⟩ | ⟨π', old, a, detail, -, -, -, rfl, -⟩ | ⟨π', a, -, -, rfl⟩, h⟩
    · obtain rfl : π' = π := by simpa [place_entry hnext ha] using h
      exact ⟨mem_places.2 ⟨a, ha⟩, hnot⟩
    · cases h
    · cases h
  · rintro ⟨hπ, hnot⟩
    obtain ⟨a, ha⟩ := mem_places.1 hπ
    refine ⟨_, .inl ⟨π, a, ha, hnot, rfl⟩, ?_⟩
    rw [place_entry hnext ha]
    rfl

theorem mem_changes_removed (hprev : Indexable prev) (hnext : Indexable (some next)) {π : Place} :
    .removed π ∈ (computeDiff prev next).changes ↔ π ∈ places prev ∧ π ∉ places (some next) := by
  simp only [Diff.changes, List.mem_filterMap, mem_computeDiff hprev hnext]
  constructor
  · rintro ⟨d, ⟨π', a, -, -, rfl⟩ | ⟨π', old, a, detail, -, -, -, rfl, -⟩ | ⟨π', a, ha, hnot, rfl⟩, h⟩
    · cases h
    · cases h
    · obtain rfl : π' = π := by simpa [place_entry hprev ha] using h
      exact ⟨mem_places.2 ⟨a, ha⟩, hnot⟩
  · rintro ⟨hπ, hnot⟩
    obtain ⟨a, ha⟩ := mem_places.1 hπ
    refine ⟨_, .inr (.inr ⟨π, a, ha, hnot, rfl⟩), ?_⟩
    rw [place_entry hprev ha]
    rfl

/-- A diff takes the places of the one snapshot to those of the other. -/
theorem mem_replay_computeDiff (hprev : Indexable prev) (hnext : Indexable (some next)) {l : List Place}
    (hl : ∀ π, π ∈ l ↔ π ∈ places prev) {π : Place} :
    π ∈ Change.replay l (computeDiff prev next).changes ↔ π ∈ places (some next) := by
  rw [Change.mem_replay, mem_changes_added hprev hnext, mem_changes_removed hprev hnext, hl]
  · tauto
  · intro π' hadded hremoved
    exact ((mem_changes_added hprev hnext).1 hadded).2 ((mem_changes_removed hprev hnext).1 hremoved).1

end TrustAnchor.Trust
