import Mathlib.Data.List.Perm.Basic
import TrustAnchor.Ingest.Symbolic
import TrustAnchor.Trust.Lemmas.Internal

/-!
# Loading a declaration file

A file is loaded as a whole or not at all, and the order in which it lists its entries and their types has
no part in the result.
-/

namespace TrustAnchor.Trust

open Lib Tsl

variable {rt : Runtime} {readFile : String → Except String Bytes} {baseDir : String} {now : Time}
  {raw raw' : Bytes} {entries entries' : List (InternalAnchor × YamlNode)} {as : List Anchor}

/-! ## Entries -/

/-- An entry with its node, and the types and the certificate it is about: known keys only, and valid on its
own. -/
structure EntryAcceptable (rt : Runtime) (readFile : String → Except String Bytes) (baseDir : String) (now : Time)
    (x : InternalAnchor × YamlNode) (p : List String × Certificate) : Prop where
  keys : x.2.resolveAlias.unknownKey entryKeys = none
  entry : Acceptable rt readFile baseDir now (flagged x.1 x.2) p.1 p.2

/-- The anchors of an entry, one for each type. -/
def entryAnchors (rt : Runtime) (x : InternalAnchor × YamlNode) (p : List String × Certificate) : List Anchor :=
  p.1.map (declaredAnchor rt (flagged x.1 x.2) p.2)

theorem EntryAcceptable.unique {x : InternalAnchor × YamlNode} {p p' : List String × Certificate}
    (h : EntryAcceptable rt readFile baseDir now x p) (h' : EntryAcceptable rt readFile baseDir now x p') :
    p = p' := by
  obtain ⟨htypes, hcert⟩ := h.entry.unique h'.entry
  exact Prod.ext htypes hcert

theorem EntryAcceptable.head?_fingerprint {x : InternalAnchor × YamlNode} {p : List String × Certificate}
    (h : EntryAcceptable rt readFile baseDir now x p) :
    ((entryAnchors rt x p).head?.map (·.fingerprintSHA256)).getD "" = rt.sha256hex p.2.raw := by
  obtain ⟨types, cert⟩ := p
  cases types with
  | nil => exact absurd rfl h.entry.types.distinct.2.1
  | cons t ts => rfl

/-- What the loop over the entries returns, and when. -/
theorem loadEntries_eq_ok {seenBy : List (String × String)} :
    loadEntries rt readFile baseDir now seenBy entries = .ok as ↔
      ∃ parts, List.Forall₂ (EntryAcceptable rt readFile baseDir now) entries parts ∧
        (∀ p ∈ parts, seenBy.lookup (rt.sha256hex p.2.raw) = none) ∧
        (parts.map fun p => rt.sha256hex p.2.raw).Nodup ∧
        as = (List.zipWith (entryAnchors rt) entries parts).flatten := by
  induction entries generalizing seenBy as with
  | nil =>
      simp only [loadEntries, List.forall₂_nil_left_iff]
      constructor
      · intro h
        cases h
        exact ⟨[], rfl, by simp, by simp, rfl⟩
      · rintro ⟨-, rfl, -, -, rfl⟩
        rfl
  | cons x rest ih =>
      rw [loadEntries_cons_eq_ok]
      constructor
      · rintro ⟨hkeys, built, later, hbuilt, hseen, hlater, rfl⟩
        obtain ⟨types, cert, hentry, rfl⟩ := buildInternalAnchors_eq_ok.1 hbuilt
        have hx : EntryAcceptable rt readFile baseDir now x (types, cert) := ⟨hkeys, hentry⟩
        have hfp := hx.head?_fingerprint
        simp only [entryAnchors] at hfp
        rw [hfp] at hseen hlater
        obtain ⟨parts, hparts, hnew, hnodup, rfl⟩ := ih.1 hlater
        -- a later entry is looked up against this one too
        have hlookup : ∀ p ∈ parts, rt.sha256hex p.2.raw ≠ rt.sha256hex cert.raw ∧
            seenBy.lookup (rt.sha256hex p.2.raw) = none := by
          intro p hp
          have hnone := hnew p hp
          rw [List.lookup_cons] at hnone
          split at hnone
          · cases hnone
          · rename_i hbeq
            exact ⟨by simpa using hbeq, hnone⟩
        refine ⟨(types, cert) :: parts, .cons hx hparts, ?_, ?_, rfl⟩
        · exact List.forall_mem_cons.2 ⟨hseen, fun p hp => (hlookup p hp).2⟩
        · refine List.nodup_cons.2 ⟨fun hmem => ?_, hnodup⟩
          obtain ⟨p, hp, heq⟩ := List.mem_map.1 hmem
          exact (hlookup p hp).1 heq
      · rintro ⟨parts, hparts, hnew, hnodup, rfl⟩
        obtain ⟨p, parts, hx, hrest, rfl⟩ := List.forall₂_cons_left_iff.1 hparts
        obtain ⟨hseen, hnew⟩ := List.forall_mem_cons.1 hnew
        obtain ⟨hnotMem, hnodup⟩ := List.nodup_cons.1 hnodup
        have hfp := hx.head?_fingerprint
        refine ⟨hx.keys, entryAnchors rt x p, (List.zipWith (entryAnchors rt) rest parts).flatten,
          buildInternalAnchors_eq_ok.2 ⟨p.1, p.2, hx.entry, rfl⟩, by rw [hfp, hseen], ?_, rfl⟩
        rw [hfp, ih]
        refine ⟨parts, hrest, fun p' hp' => ?_, hnodup, rfl⟩
        have hne : (rt.sha256hex p'.2.raw == rt.sha256hex p.2.raw) = false := by
          simpa using fun heq => hnotMem (List.mem_map.2 ⟨p', hp', heq⟩)
        simp [List.lookup_cons, hne, hnew p' hp']

theorem mem_flatten_entryAnchors {parts : List (List String × Certificate)}
    (h : List.Forall₂ (EntryAcceptable rt readFile baseDir now) entries parts) {a : Anchor} :
    a ∈ (List.zipWith (entryAnchors rt) entries parts).flatten ↔
      ∃ x ∈ entries, ∃ p, EntryAcceptable rt readFile baseDir now x p ∧ a ∈ entryAnchors rt x p := by
  induction h with
  | nil => simp
  | @cons x p rest parts hx _ ih =>
      rw [List.zipWith_cons_cons, List.flatten_cons, List.mem_append, ih, List.exists_mem_cons_iff]
      refine or_congr_left ⟨fun ha => ⟨p, hx, ha⟩, ?_⟩
      rintro ⟨p', hx', ha⟩
      rwa [hx.unique hx']

/-! ## The file -/

/-- The file is read, has no other key than the one of its entries, and has these entries. -/
def Declares (rt : Runtime) (raw : Bytes) (entries : List (InternalAnchor × YamlNode)) : Prop :=
  ∃ doc root es, rt.unmarshalYAML raw = .ok doc ∧ rootOf doc = some root ∧ root ≠ .empty ∧
    rt.decodeInternalFile root = .ok es ∧ root.unknownKey fileKeys = none ∧
    (YamlNode.sequenceItems (root.mappingValue "anchors")).length = es.length ∧
    entries = es.zip (YamlNode.sequenceItems (root.mappingValue "anchors"))

theorem loadInternalBytes_eq_ok (h : Declares rt raw entries) :
    loadInternalBytes rt readFile raw baseDir now = .ok as ↔
      ∃ built, loadEntries rt readFile baseDir now [] entries = .ok built ∧ as = built.insertionSort internalLe := by
  obtain ⟨doc, root, es, hdoc, hroot, hne, hdecode, hkeys, hlength, rfl⟩ := h
  have hload : loadInternalBytes rt readFile raw baseDir now = (do
      let anchors ← loadEntries rt readFile baseDir now []
        (es.zip (YamlNode.sequenceItems (root.mappingValue "anchors")))
      return anchors.insertionSort internalLe) := by
    unfold loadInternalBytes
    simp only [hdoc]
    split
    · rename_i hnone
      cases hroot.symm.trans hnone
    · rename_i hempty
      exact absurd (Option.some.inj (hroot.symm.trans hempty)) hne
    · rename_i root' _ hsome
      obtain rfl := Option.some.inj (hroot.symm.trans hsome)
      simp only [hdecode, hkeys, hlength, ne_eq, not_true_eq_false, if_false]
  rw [hload, Result.bind_eq_ok]
  refine exists_congr fun built => and_congr_right fun _ => ?_
  exact ⟨fun h => (Except.ok.inj h).symm, fun h => h ▸ rfl⟩

/-! ## Order -/

/-- The same entry, with its types in any order. Of the node only the keys count. -/
structure SameEntry (x y : InternalAnchor × YamlNode) : Prop where
  entry : y.1 = { x.1 with types := y.1.types }
  types : y.1.types.Perm x.1.types
  keys : y.2.resolveAlias.unknownKey entryKeys = none ↔ x.2.resolveAlias.unknownKey entryKeys = none
  hasType : (y.2.resolveAlias.mappingValue "type").isSome = (x.2.resolveAlias.mappingValue "type").isSome
  hasTypes : (y.2.resolveAlias.mappingValue "types").isSome = (x.2.resolveAlias.mappingValue "types").isSome

theorem SameEntry.symm {x y : InternalAnchor × YamlNode} (h : SameEntry x y) : SameEntry y x where
  entry := by rw [h.entry]
  types := h.types.symm
  keys := h.keys.symm
  hasType := h.hasType.symm
  hasTypes := h.hasTypes.symm

theorem SameEntry.flagged_eq {x y : InternalAnchor × YamlNode} (h : SameEntry x y) :
    flagged y.1 y.2 = { flagged x.1 x.2 with types := y.1.types } := by
  rw [flagged, flagged, h.hasType, h.hasTypes, h.entry]

theorem DeclaresTypes.perm {e : InternalAnchor} {types ts : List String} (h : DeclaresTypes e types)
    (hperm : ts.Perm e.types) : ∃ types', DeclaresTypes { e with types := ts } types' ∧ types'.Perm types := by
  obtain ⟨hsingle, rfl, hknown⟩ | ⟨hlist, hboth, hne, rfl, hnodup, hvalid⟩ := h
  · exact ⟨_, .inl ⟨hsingle, rfl, hknown⟩, .refl _⟩
  · have hmap := hperm.map trimSpace
    refine ⟨ts.map trimSpace, .inr ⟨hlist, hboth, ?_, rfl, hmap.nodup_iff.2 hnodup, ?_⟩, hmap⟩
    · rintro rfl
      exact hne hperm.symm.eq_nil
    · exact fun t ht => hvalid t (hmap.mem_iff.1 ht)

theorem SameEntry.acceptable {x y : InternalAnchor × YamlNode} {p : List String × Certificate} (h : SameEntry x y)
    (hx : EntryAcceptable rt readFile baseDir now x p) :
    ∃ p', EntryAcceptable rt readFile baseDir now y p' ∧ p'.2 = p.2 ∧
      ∀ a, a ∈ entryAnchors rt y p' ↔ a ∈ entryAnchors rt x p := by
  obtain ⟨types', htypes', hperm⟩ := hx.entry.types.perm h.types
  have hflagged := h.flagged_eq
  refine ⟨(types', p.2), ⟨h.keys.2 hx.keys, ?_⟩, rfl, fun a => ?_⟩
  · rw [hflagged]
    exact ⟨htypes', hx.entry.territory, hx.entry.certificate, hx.entry.unexpired⟩
  · have hanchor : declaredAnchor rt (flagged y.1 y.2) p.2 = declaredAnchor rt (flagged x.1 x.2) p.2 := by
      rw [hflagged]
      rfl
    rw [entryAnchors, entryAnchors, hanchor]
    exact (hperm.map _).mem_iff

/-- The same entries in any order, each with its types in any order. -/
def Rearranged (entries entries' : List (InternalAnchor × YamlNode)) : Prop :=
  ∃ mid, List.Forall₂ SameEntry entries mid ∧ mid.Perm entries'

theorem Rearranged.symm (h : Rearranged entries entries') : Rearranged entries' entries := by
  obtain ⟨mid, hsame, hperm⟩ := h
  have hback : List.Forall₂ SameEntry mid entries := hsame.flip.imp fun _ _ h => h.symm
  exact List.perm_comp_forall₂ hperm.symm hback

theorem exists_parts_of_sameEntry {parts : List (List String × Certificate)}
    (hsame : List.Forall₂ SameEntry entries entries')
    (hparts : List.Forall₂ (EntryAcceptable rt readFile baseDir now) entries parts) :
    ∃ parts', List.Forall₂ (EntryAcceptable rt readFile baseDir now) entries' parts' ∧
      parts'.map Prod.snd = parts.map Prod.snd ∧
      ∀ a, a ∈ (List.zipWith (entryAnchors rt) entries' parts').flatten ↔
        a ∈ (List.zipWith (entryAnchors rt) entries parts).flatten := by
  induction hsame generalizing parts with
  | nil =>
      obtain rfl := List.forall₂_nil_left_iff.1 hparts
      exact ⟨[], .nil, rfl, fun a => .rfl⟩
  | cons hxy _ ih =>
      obtain ⟨p, parts, hx, hrest, rfl⟩ := List.forall₂_cons_left_iff.1 hparts
      obtain ⟨p', hy, hcert, hanchors⟩ := hxy.acceptable hx
      obtain ⟨parts', hparts', hcerts, hmem⟩ := ih hrest
      refine ⟨p' :: parts', .cons hy hparts', by simp [hcert, hcerts], fun a => ?_⟩
      simp only [List.zipWith_cons_cons, List.flatten_cons, List.mem_append, hanchors, hmem]

theorem loadEntries_rearranged {built : List Anchor} (h : Rearranged entries entries')
    (hbuilt : loadEntries rt readFile baseDir now [] entries = .ok built) :
    ∃ built', loadEntries rt readFile baseDir now [] entries' = .ok built' ∧ ∀ a, a ∈ built' ↔ a ∈ built := by
  obtain ⟨mid, hsame, hperm⟩ := h
  obtain ⟨parts, hparts, -, hnodup, rfl⟩ := loadEntries_eq_ok.1 hbuilt
  obtain ⟨parts', hparts', hcerts, hmem⟩ := exists_parts_of_sameEntry hsame hparts
  obtain ⟨parts'', hparts'', hperm'⟩ := List.perm_comp_forall₂ hperm.symm hparts'
  have hfps : (parts''.map fun p => rt.sha256hex p.2.raw).Nodup := by
    have hmap : ∀ ps : List (List String × Certificate), ps.map (fun p => rt.sha256hex p.2.raw) =
        (ps.map Prod.snd).map fun cert => rt.sha256hex cert.raw := fun ps => by rw [List.map_map]; rfl
    rw [hmap, (hperm'.map _).map _ |>.nodup_iff, hcerts, ← hmap]
    exact hnodup
  refine ⟨_, loadEntries_eq_ok.2 ⟨parts'', hparts'', by simp, hfps, rfl⟩, fun a => ?_⟩
  rw [← hmem, mem_flatten_entryAnchors hparts'', mem_flatten_entryAnchors hparts']
  simp only [hperm.mem_iff]

theorem loadInternalBytes_rearranged (h : Declares rt raw entries) (h' : Declares rt raw' entries')
    (hsame : Rearranged entries entries') (hload : loadInternalBytes rt readFile raw baseDir now = .ok as) :
    loadInternalBytes rt readFile raw' baseDir now = .ok as := by
  obtain ⟨built, hbuilt, rfl⟩ := (loadInternalBytes_eq_ok h).1 hload
  obtain ⟨built', hbuilt', hmem⟩ := loadEntries_rearranged hsame hbuilt
  refine (loadInternalBytes_eq_ok h').2 ⟨built', hbuilt', ?_⟩
  refine eq_of_internalLt (loadEntries_sorted hbuilt) (loadEntries_sorted hbuilt') fun a => ?_
  rw [List.mem_insertionSort, List.mem_insertionSort, hmem]

/-! ## The law -/

/-- The certificates of two entries have different fingerprints. -/
def FingerprintsDiffer (rt : Runtime) (readFile : String → Except String Bytes) (baseDir : String) (now : Time)
    (x y : InternalAnchor × YamlNode) : Prop :=
  ∀ p p', EntryAcceptable rt readFile baseDir now x p → EntryAcceptable rt readFile baseDir now y p' →
    rt.sha256hex p.2.raw ≠ rt.sha256hex p'.2.raw

theorem exists_parts_iff :
    (∃ parts, List.Forall₂ (EntryAcceptable rt readFile baseDir now) entries parts ∧
        (parts.map fun p => rt.sha256hex p.2.raw).Nodup) ↔
      (∀ x ∈ entries, ∃ p, EntryAcceptable rt readFile baseDir now x p) ∧
        entries.Pairwise (FingerprintsDiffer rt readFile baseDir now) := by
  induction entries with
  | nil => simp
  | cons x rest ih =>
      rw [List.forall_mem_cons, List.pairwise_cons]
      constructor
      · rintro ⟨parts, hparts, hnodup⟩
        obtain ⟨p, parts, hx, hrest, rfl⟩ := List.forall₂_cons_left_iff.1 hparts
        obtain ⟨hnotMem, hnodup⟩ := List.nodup_cons.1 hnodup
        obtain ⟨hall, hpairwise⟩ := ih.1 ⟨parts, hrest, hnodup⟩
        refine ⟨⟨⟨p, hx⟩, hall⟩, fun y hy q q' hq hq' heq => hnotMem ?_, hpairwise⟩
        obtain ⟨p', hp', hy'⟩ := Result.exists_right_of_forall₂ hrest hy
        refine List.mem_map.2 ⟨p', hp', ?_⟩
        rw [← hq'.unique hy', ← heq, hx.unique hq]
      · rintro ⟨⟨⟨p, hx⟩, hall⟩, hdiffer, hpairwise⟩
        obtain ⟨parts, hrest, hnodup⟩ := ih.2 ⟨hall, hpairwise⟩
        refine ⟨p :: parts, .cons hx hrest, List.nodup_cons.2 ⟨fun hmem => ?_, hnodup⟩⟩
        obtain ⟨p', hp', heq⟩ := List.mem_map.1 hmem
        obtain ⟨y, hy, hy'⟩ := Result.exists_left_of_forall₂ hrest hp'
        exact hdiffer y hy p p' hx hy' heq.symm

/-- A file loads exactly if every entry is valid on its own and the certificates differ. What it loads to has
one anchor for each type of each entry, in order, and is the same however the entries and their types are
arranged. -/
theorem loadInternalBytes_exact (h : Declares rt raw entries) :
    ((∃ as, loadInternalBytes rt readFile raw baseDir now = .ok as) ↔
      (∀ x ∈ entries, ∃ p, EntryAcceptable rt readFile baseDir now x p) ∧
        entries.Pairwise (FingerprintsDiffer rt readFile baseDir now)) ∧
    (∀ as, loadInternalBytes rt readFile raw baseDir now = .ok as → as.Pairwise internalLt ∧
      ∃ parts, List.Forall₂ (EntryAcceptable rt readFile baseDir now) entries parts ∧
        as.Perm (List.zipWith (entryAnchors rt) entries parts).flatten) ∧
    ∀ raw' entries', Declares rt raw' entries' → Rearranged entries entries' →
      (loadInternalBytes rt readFile raw' baseDir now).toOption =
        (loadInternalBytes rt readFile raw baseDir now).toOption := by
  refine ⟨?_, ?_, ?_⟩
  · simp only [loadInternalBytes_eq_ok h, loadEntries_eq_ok, ← exists_parts_iff]
    constructor
    · rintro ⟨_, _, ⟨parts, hparts, -, hnodup, -⟩, -⟩
      exact ⟨parts, hparts, hnodup⟩
    · rintro ⟨parts, hparts, hnodup⟩
      exact ⟨_, _, ⟨parts, hparts, by simp, hnodup, rfl⟩, rfl⟩
  · intro as hload
    obtain ⟨built, hbuilt, rfl⟩ := (loadInternalBytes_eq_ok h).1 hload
    obtain ⟨parts, hparts, -, -, heq⟩ := loadEntries_eq_ok.1 hbuilt
    exact ⟨loadEntries_sorted hbuilt, parts, hparts, heq ▸ List.perm_insertionSort _ _⟩
  · intro raw' entries' h' hsame
    cases hload : loadInternalBytes rt readFile raw baseDir now with
    | ok as => rw [loadInternalBytes_rearranged h h' hsame hload]
    | error e =>
        cases hload' : loadInternalBytes rt readFile raw' baseDir now with
        | error e' => rfl
        | ok as =>
            rw [loadInternalBytes_rearranged h' h hsame.symm hload'] at hload
            cases hload

/-! ## One declaration, written twice -/

section TwoFiles

open Ingest.Symbolic

/-- A certificate with two roles. -/
def rolesEntry (types : List String) : InternalAnchor × YamlNode :=
  ({ name := "A", type := "", types, territory := "EU", status := "", certificate := "a", certificateFile := ""
     validUntil := zeroTime, useCases := [], hasType := false, hasTypes := false },
    .mapping 2 [.scalar 2 "types", .sequence 2 []])

/-- An untyped one. -/
def untypedEntry : InternalAnchor × YamlNode :=
  ({ name := "B", type := untypedAlias, types := [], territory := "lv", status := "", certificate := "b"
     certificateFile := "", validUntil := zeroTime, useCases := [], hasType := false, hasTypes := false },
    .mapping 3 [.scalar 3 "type", .scalar 3 untypedAlias])

/-- The entries of the file `[1]`, and in another order those of every other file. -/
def writtenTwice (first : Bool) : List (InternalAnchor × YamlNode) :=
  if first then [rolesEntry ["access_ca", "wrprc_issuer"], untypedEntry]
  else [untypedEntry, rolesEntry ["wrprc_issuer", "access_ca"]]

def twoFiles : Runtime :=
  { (World.mk [] []).runtime with
    unmarshalYAML := fun raw => .ok (.mapping (if raw = [1] then 1 else 2)
      [.scalar 1 "anchors", .sequence 1 ((writtenTwice (raw = [1])).map Prod.snd)])
    decodeInternalFile := fun root => .ok ((writtenTwice (root.line = 1)).map Prod.fst) }

theorem declares_twoFiles (raw : Bytes) : Declares twoFiles raw (writtenTwice (raw = [1])) := by
  by_cases h : raw = [1]
  · subst h
    exact ⟨_, _, _, rfl, rfl, nofun, rfl, rfl, rfl, rfl⟩
  · rw [show decide (raw = [1]) = false by simpa using h]
    refine ⟨_, _, (writtenTwice false).map Prod.fst, rfl, rfl, nofun, ?_, ?_, ?_, ?_⟩ <;> simp [twoFiles, h] <;> rfl

theorem rearranged_writtenTwice : Rearranged (writtenTwice true) (writtenTwice false) := by
  refine ⟨[rolesEntry ["wrprc_issuer", "access_ca"], untypedEntry], .cons ?_ (.cons ?_ .nil), .swap _ _ _⟩
  · exact ⟨rfl, .swap _ _ _, .rfl, rfl, rfl⟩
  · exact ⟨rfl, .refl _, .rfl, rfl, rfl⟩

/-- Three anchors, in the same order from both files. -/
theorem loadInternalBytes_exact_two_files :
    ∃ as, loadInternalBytes twoFiles (fun _ => .error "no such file") [1] "" 0 = .ok as ∧ as.length = 3 ∧
      as.Pairwise internalLt ∧ loadInternalBytes twoFiles (fun _ => .error "no such file") [2] "" 0 = .ok as := by
  obtain ⟨-, hsorted, hsame⟩ := @loadInternalBytes_exact twoFiles (fun _ => .error "no such file") "" 0 [1] _
    (declares_twoFiles [1])
  have hload : (loadInternalBytes twoFiles (fun _ => .error "no such file") [1] "" 0).toOption.any
      fun as => as.length = 3 := by decide +kernel
  have hother := hsame [2] _ (declares_twoFiles [2]) rearranged_writtenTwice
  obtain ⟨as, hfirst, hlength⟩ := Result.exists_ok_of_any hload
  refine ⟨as, hfirst, of_decide_eq_true hlength, (hsorted as hfirst).1, ?_⟩
  rw [hfirst] at hother
  cases hsecond : loadInternalBytes twoFiles (fun _ => .error "no such file") [2] "" 0 with
  | error e =>
      rw [hsecond] at hother
      cases hother
  | ok bs =>
      rw [hsecond] at hother
      cases hother
      rfl

end TwoFiles

end TrustAnchor.Trust
