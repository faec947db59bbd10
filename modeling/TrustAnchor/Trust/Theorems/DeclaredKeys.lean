import TrustAnchor.Trust.Theorems.Declarations

/-!
# Keys as the check and the decoder read them

The check of a declaration file compares the value of a key node. The decoder resolves the node first, and the
value of an alias is the name of its anchor.
-/

namespace TrustAnchor.Trust

open Lib Tsl

variable {rt : Runtime} {readFile : String → Except String Bytes} {baseDir : String} {now : Time} {raw : Bytes}
  {text : YamlNode → Option String} {doc root n k : YamlNode} {content : List YamlNode} {as : List Anchor}

/-! ## What the decoder sees -/

namespace YamlNode

/-- The keys among the keys and values of a mapping. -/
def pairKeys : List YamlNode → List YamlNode
  | k :: _ :: rest => k :: pairKeys rest
  | _ => []

def keys : YamlNode → List YamlNode
  | mapping _ content => pairKeys content
  | _ => []

/-- A key as the decoder resolves it: an alias is the anchored scalar. `text` reads a scalar. -/
def decoded (text : YamlNode → Option String) (k : YamlNode) : Option String := text k.resolveAlias

/-- The value that the decoder stores under the key. -/
def decodedValue (text : YamlNode → Option String) (key : String) : List YamlNode → Option YamlNode
  | k :: v :: rest => if k.decoded text = some key then some v else decodedValue text key rest
  | _ => none

/-- The nodes that the decoder makes entries of. -/
def decodedEntries (text : YamlNode → Option String) : YamlNode → List YamlNode
  | mapping _ content => sequenceItems (decodedValue text "anchors" content)
  | _ => []

/-- The decoder sees the key. -/
def Sees (text : YamlNode → Option String) (n : YamlNode) (key : String) : Prop :=
  ∃ k ∈ n.keys, k.decoded text = some key

/-- The decoder reads another key than the check. -/
def Disguised (text : YamlNode → Option String) (k : YamlNode) : Prop := k.decoded text ≠ some k.value

end YamlNode

open YamlNode

/-- The decoder sees known keys only. -/
def KnownKeys (text : YamlNode → Option String) (accepted : List String) (n : YamlNode) : Prop :=
  ∀ k ∈ n.keys, ∃ key ∈ accepted, k.decoded text = some key

/-- The node `d` that the decoder makes an entry of has known keys only, and `hasType` and `hasTypes`, which are taken
from the node `n`, say what the decoder sees. -/
structure EntryAgrees (text : YamlNode → Option String) (n d : YamlNode) : Prop where
  known : KnownKeys text entryKeys d.resolveAlias
  hasType : (n.resolveAlias.mappingValue "type").isSome = true ↔ d.resolveAlias.Sees text "type"
  hasTypes : (n.resolveAlias.mappingValue "types").isSome = true ↔ d.resolveAlias.Sees text "types"

/-- The check agrees with the decoder. -/
structure Agrees (text : YamlNode → Option String) (root : YamlNode) : Prop where
  known : KnownKeys text fileKeys root
  entries : List.Forall₂ (EntryAgrees text) (sequenceItems (root.mappingValue "anchors")) (root.decodedEntries text)

/-! ## The condition -/

/-- Every disguised key is a known one. -/
def ClearKeys (text : YamlNode → Option String) (accepted : List String) (n : YamlNode) : Prop :=
  ∀ k ∈ n.keys, k.Disguised text → ∃ key ∈ accepted, k.decoded text = some key

/-- The key is there in plain, or a disguised key passes for it exactly if a disguised key is it. -/
def Unmistaken (text : YamlNode → Option String) (n : YamlNode) (key : String) : Prop :=
  (∃ k ∈ n.keys, ¬ k.Disguised text ∧ k.value = key) ∨
    ((∃ k ∈ n.keys, k.Disguised text ∧ k.value = key) ↔ ∃ k ∈ n.keys, k.Disguised text ∧ k.decoded text = some key)

structure ClearEntry (text : YamlNode → Option String) (n : YamlNode) : Prop where
  keys : ClearKeys text entryKeys n
  type : Unmistaken text n "type"
  types : Unmistaken text n "types"

/-- No disguised key of the file is mistaken. -/
structure Clear (text : YamlNode → Option String) (root : YamlNode) : Prop where
  keys : ClearKeys text fileKeys root
  entries : ∀ n ∈ sequenceItems (root.mappingValue "anchors"), ClearEntry text n.resolveAlias

/-- The root of a document has nothing to refer to, and an entry that is an alias of an alias does not decode. -/
structure AliasRules (rt : Runtime) : Prop where
  root : ∀ {raw doc}, rt.unmarshalYAML raw = .ok doc → ∀ line name target, rootOf doc ≠ some (.alias line name target)
  entries : ∀ {root es}, rt.decodeInternalFile root = .ok es →
    ∀ n ∈ sequenceItems (root.mappingValue "anchors"), ∀ line name target, n.resolveAlias ≠ .alias line name target

/-! ## One node -/

theorem unknownIn_eq_none {accepted : List String} (h : unknownIn accepted content = none) :
    ∀ k ∈ pairKeys content, k.value ∈ accepted := by
  induction content using pairKeys.induct with
  | case1 k v rest ih =>
      unfold unknownIn at h
      split_ifs at h with hk
      exact List.forall_mem_cons.2 ⟨hk, ih h⟩
  | case2 content hshort => simp [pairKeys]

theorem value_mem_of_unknownKey {accepted : List String} (h : n.unknownKey accepted = none) :
    ∀ k ∈ n.keys, k.value ∈ accepted := by
  cases n with
  | mapping line content => exact unknownIn_eq_none h
  | _ => simp [keys]

theorem isSome_lookupKey {key : String} :
    (lookupKey key content).isSome = true ↔ ∃ k ∈ pairKeys content, k.value = key := by
  induction content using pairKeys.induct with
  | case1 k v rest ih =>
      unfold lookupKey pairKeys
      split_ifs with hk
      · simp [hk]
      · simpa [hk] using ih
  | case2 content hshort => simp [pairKeys, lookupKey]

theorem isSome_mappingValue {key : String} (h : ∀ line name target, n ≠ .alias line name target) :
    (n.mappingValue key).isSome = true ↔ ∃ k ∈ n.keys, k.value = key := by
  cases n with
  | mapping line content => exact isSome_lookupKey
  | «alias» line name target => exact absurd rfl (h line name target)
  | _ => simp [mappingValue, resolveAlias, keys]

/-- Keys in plain are the ones that were checked. -/
theorem knownKeys_iff {accepted : List String} (h : n.unknownKey accepted = none) :
    KnownKeys text accepted n ↔ ClearKeys text accepted n := by
  constructor
  · exact fun hknown k hk _ => hknown k hk
  · intro hclear k hk
    by_cases hplain : k.decoded text = some k.value
    · exact ⟨k.value, value_mem_of_unknownKey h k hk, hplain⟩
    · exact hclear k hk hplain

theorem unmistaken_iff {key : String} :
    ((∃ k ∈ n.keys, k.value = key) ↔ n.Sees text key) ↔ Unmistaken text n key := by
  have hvalue : (∃ k ∈ n.keys, k.value = key) ↔ (∃ k ∈ n.keys, ¬ k.Disguised text ∧ k.value = key) ∨
      ∃ k ∈ n.keys, k.Disguised text ∧ k.value = key := by
    constructor
    · rintro ⟨k, hk, hkey⟩
      by_cases hdisguised : k.Disguised text
      · exact .inr ⟨k, hk, hdisguised, hkey⟩
      · exact .inl ⟨k, hk, hdisguised, hkey⟩
    · rintro (⟨k, hk, -, hkey⟩ | ⟨k, hk, -, hkey⟩) <;> exact ⟨k, hk, hkey⟩
  have hsees : n.Sees text key ↔ (∃ k ∈ n.keys, ¬ k.Disguised text ∧ k.value = key) ∨
      ∃ k ∈ n.keys, k.Disguised text ∧ k.decoded text = some key := by
    constructor
    · rintro ⟨k, hk, hkey⟩
      by_cases hdisguised : k.Disguised text
      · exact .inr ⟨k, hk, hdisguised, hkey⟩
      · refine .inl ⟨k, hk, hdisguised, ?_⟩
        exact Option.some.inj ((not_not.1 hdisguised).symm.trans hkey)
    · rintro (⟨k, hk, hplain, rfl⟩ | ⟨k, hk, -, hkey⟩)
      · exact ⟨k, hk, not_not.1 hplain⟩
      · exact ⟨k, hk, hkey⟩
  have hor : ∀ p q r : Prop, ((p ∨ q) ↔ (p ∨ r)) ↔ (p ∨ (q ↔ r)) := by
    intro p q r
    by_cases hp : p <;> simp [hp]
  rw [hvalue, hsees]
  exact hor _ _ _

theorem entryAgrees_iff (hdirect : ∀ line name target, n.resolveAlias ≠ .alias line name target)
    (h : n.resolveAlias.unknownKey entryKeys = none) : EntryAgrees text n n ↔ ClearEntry text n.resolveAlias := by
  have hflag : ∀ key, ((n.resolveAlias.mappingValue key).isSome = true ↔ n.resolveAlias.Sees text key) ↔
      Unmistaken text n.resolveAlias key := by
    intro key
    rw [isSome_mappingValue hdirect]
    exact unmistaken_iff
  constructor
  · rintro ⟨hknown, htype, htypes⟩
    exact ⟨(knownKeys_iff h).1 hknown, (hflag _).1 htype, (hflag _).1 htypes⟩
  · rintro ⟨hclear, htype, htypes⟩
    exact ⟨(knownKeys_iff h).2 hclear, (hflag _).2 htype, (hflag _).2 htypes⟩

/-- Without disguised keys nothing is mistaken. -/
theorem clearEntry_of_plain (h : ∀ k ∈ n.keys, ¬ k.Disguised text) : ClearEntry text n := by
  have hnone : ∀ P : YamlNode → Prop, ¬ ∃ k ∈ n.keys, k.Disguised text ∧ P k := by
    rintro P ⟨k, hk, hdisguised, -⟩
    exact h k hk hdisguised
  refine ⟨fun k hk hdisguised => absurd hdisguised (h k hk), .inr ?_, .inr ?_⟩ <;>
    exact iff_of_false (hnone _) (hnone _)

/-! ## The file -/

/-- If every key of the root is the one of the entries to both, both take the entries from its first value. -/
theorem decodedEntries_eq (hdirect : ∀ line name target, root ≠ .alias line name target)
    (hchecked : root.unknownKey fileKeys = none) (hknown : KnownKeys text fileKeys root) :
    root.decodedEntries text = sequenceItems (root.mappingValue "anchors") := by
  have hvalue := value_mem_of_unknownKey hchecked
  cases root with
  | mapping line content =>
      simp only [decodedEntries, mappingValue, resolveAlias]
      cases content with
      | nil => rfl
      | cons k rest =>
          cases rest with
          | nil => rfl
          | cons v rest =>
              have hk : k ∈ (YamlNode.mapping line (k :: v :: rest)).keys := by simp [keys, pairKeys]
              obtain ⟨key, hkey, hdecoded⟩ := hknown k hk
              have hplain := hvalue k hk
              simp only [fileKeys, List.mem_singleton] at hkey hplain
              simp [decodedValue, lookupKey, hdecoded, hkey, hplain]
  | «alias» line name target => exact absurd rfl (hdirect line name target)
  | _ => rfl

/-- What a file that loads has passed. -/
theorem checked_of_loadInternalBytes (hyaml : AliasRules rt) (hdoc : rt.unmarshalYAML raw = .ok doc)
    (hroot : rootOf doc = some root) (h : loadInternalBytes rt readFile raw baseDir now = .ok as) :
    root.unknownKey fileKeys = none ∧ ∀ n ∈ sequenceItems (root.mappingValue "anchors"),
      n.resolveAlias.unknownKey entryKeys = none ∧ ∀ line name target, n.resolveAlias ≠ .alias line name target := by
  obtain ⟨doc', hdoc', hload⟩ := loadInternalBytes_ok h
  obtain rfl := Except.ok.inj (hdoc.symm.trans hdoc')
  obtain ⟨hempty, -⟩ | ⟨root', es, built, hroot', -, hdecode, hchecked, hlength, hbuilt, -⟩ := hload
  · rw [hroot] at hempty
    obtain hnone | hempty := hempty
    · cases hnone
    · obtain rfl := Option.some.inj hempty
      exact ⟨rfl, by simp [mappingValue, resolveAlias, sequenceItems]⟩
  · obtain rfl := Option.some.inj (hroot.symm.trans hroot')
    refine ⟨hchecked, fun n hn => ⟨?_, hyaml.entries hdecode n hn⟩⟩
    obtain ⟨parts, hparts, -⟩ := loadEntries_eq_ok.1 hbuilt
    -- each node stands beside an entry
    have hzip : (es.zip (sequenceItems (root.mappingValue "anchors"))).map Prod.snd =
        sequenceItems (root.mappingValue "anchors") := List.map_snd_zip hlength.le
    rw [← hzip] at hn
    obtain ⟨x, hx, rfl⟩ := List.mem_map.1 hn
    obtain ⟨p, -, hentry⟩ := Result.exists_right_of_forall₂ hparts hx
    exact hentry.keys

/-- For every file that loads: the check agrees with the decoder about the keys of the root and of the entries, and
about the flags, if and only if no disguised key is mistaken. -/
theorem loadInternalBytes_keys_iff (hyaml : AliasRules rt) (hdoc : rt.unmarshalYAML raw = .ok doc)
    (hroot : rootOf doc = some root) (h : loadInternalBytes rt readFile raw baseDir now = .ok as) :
    Agrees text root ↔ Clear text root := by
  obtain ⟨hchecked, hnodes⟩ := checked_of_loadInternalBytes hyaml hdoc hroot h
  have hdirect : ∀ line name target, root ≠ .alias line name target := by
    rintro line name target rfl
    exact hyaml.root hdoc line name target hroot
  have hentries : KnownKeys text fileKeys root →
      (List.Forall₂ (EntryAgrees text) (sequenceItems (root.mappingValue "anchors")) (root.decodedEntries text) ↔
        ∀ n ∈ sequenceItems (root.mappingValue "anchors"), ClearEntry text n.resolveAlias) := by
    intro hknown
    rw [decodedEntries_eq hdirect hchecked hknown, List.forall₂_same]
    exact forall₂_congr fun n hn => entryAgrees_iff (hnodes n hn).2 (hnodes n hn).1
  constructor
  · rintro ⟨hknown, hagree⟩
    exact ⟨(knownKeys_iff hchecked).1 hknown, (hentries hknown).1 hagree⟩
  · rintro ⟨hclear, hagree⟩
    have hknown := (knownKeys_iff hchecked).2 hclear
    exact ⟨hknown, (hentries hknown).2 hagree⟩

/-! ## A role behind an alias -/

section Aliased

open Ingest.Symbolic

/-- A scalar without a tag is its own text. -/
def plainText : YamlNode → Option String
  | .scalar _ value => some value
  | _ => none

/-- An entry that anchors its name as `type` and uses that as the key of its role. -/
def aliasedNode (name : String) : YamlNode :=
  .mapping 2 [.scalar 2 "name", .scalar 2 name, .alias 3 "type" (.scalar 2 name), .scalar 3 "pid_provider",
    .scalar 4 "territory", .scalar 4 "EU", .scalar 5 "certificate", .scalar 5 "a"]

/-- The file with the entry. -/
def aliasedFile (name : String) : YamlNode :=
  .mapping 1 [.scalar 1 "anchors", .sequence 2 [aliasedNode name]]

def isAlias : YamlNode → Bool
  | .alias .. => true
  | _ => false

theorem ne_alias {n : YamlNode} (h : isAlias n = false) (line : Nat) (name : String) (target : YamlNode) :
    n ≠ .alias line name target := by
  rintro rfl
  cases h

/-- The file is read, and the role is decoded if the name is the word `type`. -/
def aliasedRuntime (name : String) : Runtime :=
  { (World.mk [] []).runtime with
    unmarshalYAML := fun _ => .ok (.document [aliasedFile name])
    decodeInternalFile := fun root =>
      if (sequenceItems (root.mappingValue "anchors")).any fun n => isAlias n.resolveAlias then .error "nested alias"
      else .ok [{ untypedEntry.1 with name, territory := "EU", certificate := "a"
                                      type := if name = "type" then "pid_provider" else "" }] }

theorem aliasRules_aliased (name : String) : AliasRules (aliasedRuntime name) where
  root hdoc := by
    cases hdoc
    exact fun line name target => nofun
  entries {root es} hdecode n hn := by
    simp only [aliasedRuntime] at hdecode
    split at hdecode
    · cases hdecode
    · rename_i hnested
      rw [List.any_eq_true] at hnested
      exact ne_alias (by simpa using fun h => hnested ⟨n, hn, h⟩)

/-- Named `note`, the entry is an untyped authority with an ignored key, and has the flag of a type. -/
theorem loadInternalBytes_misread :
    (∃ as, loadInternalBytes (aliasedRuntime "note") (fun _ => .error "no such file") [] "" 0 = .ok as ∧
      as.map (fun a => (a.tspName, a.type)) = [("note", "")]) ∧
    ((aliasedNode "note").mappingValue "type").isSome = true ∧ ¬ (aliasedNode "note").Sees plainText "type" ∧
    (∃ k ∈ (aliasedNode "note").keys, k.decoded plainText = some "note" ∧ "note" ∉ entryKeys) ∧
    ¬ Agrees plainText (aliasedFile "note") := by
  have hkeys : (aliasedNode "note").keys.map (decoded plainText) =
      [some "name", some "note", some "territory", some "certificate"] := rfl
  have hunseen : ¬ (aliasedNode "note").Sees plainText "type" := by
    rintro ⟨k, hk, hdecoded⟩
    have hmem := List.mem_map_of_mem (f := decoded plainText) hk
    rw [hkeys, hdecoded] at hmem
    simp at hmem
  have hload : (loadInternalBytes (aliasedRuntime "note") (fun _ => .error "no such file") [] "" 0).toOption.any
      fun as => as.map (fun a => (a.tspName, a.type)) = [("note", "")] := by decide +kernel
  obtain ⟨as, hfile, hbuilt⟩ := Result.exists_ok_of_any hload
  refine ⟨⟨as, hfile, of_decide_eq_true hbuilt⟩, rfl, hunseen,
    ⟨_, List.mem_cons_of_mem _ List.mem_cons_self, rfl, by decide⟩, ?_⟩
  rintro ⟨-, hentries⟩
  have hentries : List.Forall₂ (EntryAgrees plainText) [aliasedNode "note"] [aliasedNode "note"] := hentries
  exact hunseen ((List.forall₂_cons.1 hentries).1.hasType.1 rfl)

/-- Named `type`, it has the role. -/
theorem loadInternalBytes_keys_aliased :
    (∃ as, loadInternalBytes (aliasedRuntime "type") (fun _ => .error "no such file") [] "" 0 = .ok as ∧
      as.map (fun a => (a.tspName, a.type)) = [("type", "pid_provider")]) ∧ Agrees plainText (aliasedFile "type") := by
  have hload : (loadInternalBytes (aliasedRuntime "type") (fun _ => .error "no such file") [] "" 0).toOption.any
      fun as => as.map (fun a => (a.tspName, a.type)) = [("type", "pid_provider")] := by decide +kernel
  obtain ⟨as, hfile, hbuilt⟩ := Result.exists_ok_of_any hload
  refine ⟨⟨as, hfile, of_decide_eq_true hbuilt⟩, ?_⟩
  refine (loadInternalBytes_keys_iff (aliasRules_aliased "type") rfl rfl hfile).2 ⟨?_, ?_⟩
  · have hplain : ∀ k ∈ (aliasedFile "type").keys, ¬ k.Disguised plainText := by
      simp [aliasedFile, keys, pairKeys, Disguised, decoded, resolveAlias, plainText, value]
    exact fun k hk hdisguised => absurd hdisguised (hplain k hk)
  · have hplain : ∀ k ∈ (aliasedNode "type").keys, ¬ k.Disguised plainText := by
      simp [aliasedNode, keys, pairKeys, Disguised, decoded, resolveAlias, plainText, value]
    exact List.forall_mem_singleton.2 (clearEntry_of_plain hplain)

end Aliased

end TrustAnchor.Trust
