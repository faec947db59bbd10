import TrustAnchor.Ingest.Theorems.Expiry
import TrustAnchor.Trust.Lemmas.Filter
import TrustAnchor.Trust.Lemmas.Keys
import TrustAnchor.Trust.Theorems.Bundle

/-!
# Which bundle an anchor is in

One bundle for each type holds every anchor once, and the default bundles leave out the keys that are not
common.
-/

namespace TrustAnchor.Ingest

open Lib Tsl Trust

variable {rt : Runtime} {s : Snapshot} {q : Query} {bundle : List Anchor} {a : Anchor}

/-! ## Certificates with keys of different kinds -/

namespace Symbolic

/-- What the bytes of an algorithm identifier and of its parameters are read as: `R` is an RSA key, `E` one
for Ed448, `P` and `B` are on a NIST curve and on a Brainpool one. -/
def identifiers : List (Bytes × List Nat × Bytes) :=
  [(ofText "R", [1, 2, 840, 113549, 1, 1, 1], []), (ofText "E", [1, 3, 101, 113], []),
    (ofText "P", oidECPublicKey, ofText "p"), (ofText "B", oidECPublicKey, ofText "b"),
    (ofText "p", [1, 2, 840, 10045, 3, 1, 7], []), (ofText "b", [1, 3, 36, 3, 3, 2, 8, 1, 1, 7], [])]

/-- A certificate is `C` and its key; any other element holds the bytes that it is read from. -/
def element : Bytes → RawValue × Bytes
  | 67 :: key => (⟨0, 16, true, key, key⟩, [])
  | b => (⟨0, 16, true, b, b⟩, b)

/-- One territory that lists the certificates. -/
def listing (certs : List String) : World where
  documents :=
    [⟨ofText "L", ofText "B", lotl 1 [] ["B"] [pointer "EE" "" "https://ee/tl.xml" ["S"]]⟩,
      ⟨ofText "1", ofText "S", national "EE" 1 (some 100) certs⟩]
  urls := growing.urls

/-- The parser refuses the Brainpool curve. -/
def reading (certs : List String) : Runtime :=
  { (listing certs).runtime with
    asn1Raw := fun b => .ok (element b)
    asn1BigInt := fun _ => .ok (0, [])
    asn1OID := fun b => match identifiers.lookup b with
      | some key => .ok key
      | none => .error "not an identifier"
    asn1Validity := fun _ => .ok ((0, 0), [])
    asn1Name := fun _ => .ok ("", [])
    parseX509 := fun der =>
      if der = ofText "CB" then .error "x509: unsupported elliptic curve"
      else .ok { subject := "", commonName := "", notBefore := 0, notAfter := 0 } }

def readingRun (certs : List String) : Service :=
  (Service.empty 100).run (reading certs)
    ([install ["B"], Symbolic.refresh 5 (growingPages "1")].map fun op => (config ["EE"] .auto 0, op))

theorem everything_valid : everything.Valid := ⟨rfl, .inl rfl, rfl⟩

theorem readingRun_keys {certs : List String} (hs : s ∈ (readingRun certs).active) :
    ∀ a ∈ s.served, (a.keyAlgorithm, a.curve) = spkiAlgorithm (reading certs) a.certDER := by
  have hrun : Traced (reading certs) (fun _ => True) (WellFormed (reading certs)) (readingRun certs) :=
    .of_run (wellFormed_kept _) (fun _ _ => trivial) 100
  exact (hrun.of_active s hs).built.key

end Symbolic

/-! ## Types -/

/-- The types of a bundle: untyped, and those of the taxonomy. -/
def bundleTypes : List String := "" :: anchorTypes

theorem mem_bundleTypes {type : String} : type ∈ bundleTypes ↔ type = "" ∨ validAnchorType type = true := by
  simp [bundleTypes, validAnchorType]

/-- An anchor is in the bundle of one type, as often as in the snapshot, and in that of no other type. -/
def Partitioned (rt : Runtime) (s : Snapshot) : Prop :=
  ∀ a ∈ s.served, ∃ type ∈ bundleTypes, ∀ type' ∈ bundleTypes, ∃ bundle,
    filter rt s (typeQuery type') = .ok bundle ∧
      bundle.count a = if type' = type then s.served.count a else 0

theorem WellFormed.type_mem (h : WellFormed rt s) (ha : a ∈ s.served) : a.type ∈ bundleTypes := by
  rw [mem_bundleTypes]
  rcases List.mem_append.1 ha with ha | ha
  · obtain ⟨t, ht, ha⟩ := List.mem_flatMap.1 ha
    exact ((h.entries t ht).readable a ha).type
  · exact (h.internal a ha).type

theorem WellFormed.partitioned (h : WellFormed rt s) : Partitioned rt s := by
  intro a ha
  refine ⟨a.type, h.type_mem ha, fun type' htype' => ⟨_, filter_typeQuery (mem_bundleTypes.1 htype'), ?_⟩⟩
  split_ifs with heq
  · exact List.count_filter (by simp [heq])
  · refine List.count_eq_zero_of_not_mem fun hmem => heq ?_
    exact (of_decide_eq_true (List.mem_filter.1 hmem).2).symm

/-- The bundle of common keys is that of all keys without the anchors whose key is not common. -/
theorem filter_keysCommon (hq : q.Valid) :
    ∃ all, filter rt s { q with keys := keysAll } = .ok all ∧
      filter rt s { q with keys := keysCommon } = .ok (all.filter Anchor.keyCommon) := by
  have hvalid : ∀ keys, validKeys keys = true → Query.Valid { q with keys } :=
    fun keys hkeys => ⟨hq.use, hq.type, hkeys⟩
  refine ⟨_, filter_of_valid (hvalid keysAll rfl), ?_⟩
  rw [filter_of_valid (hvalid keysCommon rfl), List.filter_filter]
  congr 1
  refine List.filter_congr fun a _ => ?_
  have hne : keysCommon ≠ keysAll := by decide
  rw [admits_keysAll, admits_of_ne_keysAll hne, Bool.and_comm]
  rfl

/-- In every run, whatever is served or stored is partitioned by the bundles of the types, and the default
keys only leave anchors out. -/
theorem bundles_partition (ops : List (Config × Op)) (maxSize : Int)
    (h : s ∈ ((Service.empty maxSize).run rt ops).active ∨
      s ∈ ((Service.empty maxSize).run rt ops).store.snapshot) :
    Partitioned rt s ∧ ∀ q : Query, q.Valid →
      ∃ all, filter rt s { q with keys := keysAll } = .ok all ∧
        filter rt s { q with keys := keysCommon } = .ok (all.filter Anchor.keyCommon) := by
  have hrun : Traced rt (fun _ => True) (WellFormed rt) ((Service.empty maxSize).run rt ops) :=
    .of_run (wellFormed_kept rt) (fun _ _ => trivial) maxSize
  have hs : WellFormed rt s := h.elim (hrun.of_active s) (hrun.stored s)
  exact ⟨hs.partitioned, fun q hq => filter_keysCommon hq⟩

open Symbolic in
/-- Three certificates, two of them with a common key. -/
theorem bundles_partition_reading : ∃ s, (readingRun ["CR", "CP", "CB"]).active = some s ∧ s.served ≠ [] ∧
    Partitioned (reading ["CR", "CP", "CB"]) s ∧
    ∃ all, filter (reading ["CR", "CP", "CB"]) s { everything with keys := keysAll } = .ok all ∧
      filter (reading ["CR", "CP", "CB"]) s { everything with keys := keysCommon } =
        .ok (all.filter Anchor.keyCommon) := by
  have hrun : (readingRun ["CR", "CP", "CB"]).active.any fun s => s.served ≠ [] := by decide +kernel
  obtain ⟨s, hs, hne⟩ := (Option.any_eq_true _ _).1 hrun
  obtain ⟨hparts, hkeys⟩ := bundles_partition _ 100 (.inl hs)
  exact ⟨s, hs, of_decide_eq_true hne, hparts, hkeys everything everything_valid⟩

/-! ## Keys -/

/-- The request does not ask for all keys. -/
def DefaultKeys (q : Query) : Prop := q.keys = "" ∨ q.keys = keysCommon

theorem DefaultKeys.ne_keysAll (h : DefaultKeys q) : q.keys ≠ keysAll := by
  rcases h with h | h <;> rw [h] <;> decide

/-- The names of RSA, RSASSA-PSS and Ed25519 keys and of ECDSA keys on a NIST curve. -/
def CommonNames (names : String × String) : Prop :=
  names.1 ∈ ["rsa", "rsassa-pss", "ed25519"] ∨
    (names.1 = Anchor.keyAlgorithmECDSA ∧ names.2 ∈ Anchor.nistCurves)

instance (names : String × String) : Decidable (CommonNames names) := by
  unfold CommonNames
  infer_instance

/-- The names of these algorithms, with a curve for ECDSA. -/
def ClassifiedNames (names : String × String) : Prop :=
  names.1 ∈ ["rsa", "rsassa-pss", "ed25519"] ∨ (names.1 = Anchor.keyAlgorithmECDSA ∧ names.2 ≠ "")

instance (names : String × String) : Decidable (ClassifiedNames names) := by
  unfold ClassifiedNames
  infer_instance

theorem keyCommon_iff_of_classified (h : ClassifiedNames (a.keyAlgorithm, a.curve)) :
    a.keyCommon ↔ CommonNames (a.keyAlgorithm, a.curve) := by
  rcases h with hname | ⟨halg, hcurve⟩
  · have hne : a.keyAlgorithm ≠ Anchor.keyAlgorithmECDSA := by
      intro heq
      simp only [heq] at hname
      exact absurd hname (by decide)
    exact iff_of_true (by simp [Anchor.keyCommon, hne]) (.inl hname)
  · simp only at halg hcurve
    simp [Anchor.keyCommon, CommonNames, halg, hcurve, Anchor.keyAlgorithmECDSA]

theorem classified_of_not_keyCommon (h : a.keyCommon = false) : ClassifiedNames (a.keyAlgorithm, a.curve) := by
  unfold Anchor.keyCommon at h
  split_ifs at h with hany
  simp only [Bool.or_eq_true, decide_eq_true_eq, not_or, not_not] at hany
  exact .inr hany

/-- The default bundle holds common keys only exactly if every key that the query is about is of one of the
algorithms the rule is written for, with a curve that can be read: other keys pass for common. -/
theorem default_keys_common_iff (hkeys : ∀ a ∈ s.served, (a.keyAlgorithm, a.curve) = spkiAlgorithm rt a.certDER)
    (hdefault : DefaultKeys q) (h : filter rt s q = .ok bundle) :
    (∀ a ∈ bundle, CommonNames (spkiAlgorithm rt a.certDER)) ↔
      ∀ a ∈ s.inScope rt q, q.matches a → ClassifiedNames (spkiAlgorithm rt a.certDER) := by
  obtain ⟨-, rfl⟩ := filter_eq_ok.1 h
  have hmem : ∀ a, a ∈ (s.inScope rt q).filter q.admits ↔ a ∈ s.inScope rt q ∧ q.matches a ∧ a.keyCommon := by
    intro a
    rw [List.mem_filter, admits_of_ne_keysAll hdefault.ne_keysAll, Bool.and_eq_true]
  simp only [hmem]
  constructor
  · intro hall a ha hmatch
    have hnames := hkeys a (mem_served_of_inScope ha)
    rw [← hnames]
    cases hcommon : a.keyCommon with
    | false => exact classified_of_not_keyCommon hcommon
    | true =>
        have hname := hall a ⟨ha, hmatch, hcommon⟩
        rw [← hnames] at hname
        refine hname.imp id fun hec => ⟨hec.1, fun hempty => ?_⟩
        rw [hempty] at hec
        exact absurd hec.2 (by decide)
  · rintro hall a ⟨ha, hmatch, hcommon⟩
    have hnames := hkeys a (mem_served_of_inScope ha)
    have hclass := hall a ha hmatch
    rw [← hnames] at hclass ⊢
    exact (keyCommon_iff_of_classified hclass).1 hcommon

open Symbolic in
/-- An Ed448 key is in the default bundle. -/
theorem default_keys_ed448 : ∃ s bundle, (readingRun ["CE"]).active = some s ∧
    (∀ a ∈ s.served, (a.keyAlgorithm, a.curve) = spkiAlgorithm (reading ["CE"]) a.certDER) ∧
    filter (reading ["CE"]) s everything = .ok bundle ∧
    ∃ a ∈ bundle, ¬ CommonNames (spkiAlgorithm (reading ["CE"]) a.certDER) := by
  have hrun : (readingRun ["CE"]).active.any fun s =>
      ((s.inScope (reading ["CE"]) everything).filter everything.admits).any fun a =>
        spkiAlgorithm (reading ["CE"]) a.certDER = ("ed448", "") := by decide +kernel
  obtain ⟨s, hs, hany⟩ := (Option.any_eq_true _ _).1 hrun
  obtain ⟨a, ha, hkey⟩ := List.any_eq_true.1 hany
  refine ⟨s, _, hs, readingRun_keys hs, filter_of_valid everything_valid, a, ha, ?_⟩
  rw [of_decide_eq_true hkey]
  decide

open Symbolic in
/-- RSA and ECDSA keys, one of them on a Brainpool curve. -/
theorem default_keys_common_reading : ∃ s bundle, (readingRun ["CR", "CP", "CB"]).active = some s ∧
    filter (reading ["CR", "CP", "CB"]) s everything = .ok bundle ∧ bundle.length = 2 ∧
    ∀ a ∈ bundle, CommonNames (spkiAlgorithm (reading ["CR", "CP", "CB"]) a.certDER) := by
  have hrun : (readingRun ["CR", "CP", "CB"]).active.any fun s =>
      (∀ a ∈ s.inScope (reading ["CR", "CP", "CB"]) everything,
        ClassifiedNames (spkiAlgorithm (reading ["CR", "CP", "CB"]) a.certDER)) ∧
        ((s.inScope (reading ["CR", "CP", "CB"]) everything).filter everything.admits).length = 2 := by decide +kernel
  obtain ⟨s, hs, hboth⟩ := (Option.any_eq_true _ _).1 hrun
  obtain ⟨hclass, hlength⟩ := of_decide_eq_true hboth
  have hfilter : filter (reading ["CR", "CP", "CB"]) s everything = .ok _ := filter_of_valid everything_valid
  refine ⟨s, _, hs, hfilter, hlength, ?_⟩
  exact (default_keys_common_iff (readingRun_keys hs) (.inl rfl) hfilter).2 fun a ha _ => hclass a ha

/-! ## Certificates that the parser refuses -/

/-- The parser refuses a curve only where the key is on a named curve other than the NIST ones. -/
def RefusesOtherCurves (rt : Runtime) : Prop :=
  ∀ der e, rt.parseX509 der = .error e → contains e unsupportedCurveMessage = true → OnOtherCurve rt der

/-- Every listed anchor of a run was parsed, or taken for the curve of its key. -/
theorem taken_kept (rt : Runtime) : Kept rt (fun _ => True) fun s =>
    (∀ t ∈ s.territories, ∀ a ∈ t.anchors, Taken rt a) ∧ ∀ pa ∈ s.pending, Taken rt pa.anchor := by
  refine anchors_kept fun hread a ha => ?_
  obtain ⟨tl, anchors, warnings, -, hex, rfl⟩ := readTerritory_ok hread
  obtain ⟨a₀, ha₀, rfl⟩ := List.mem_map.1 ha
  obtain ⟨info, hinfo⟩ | ⟨e, body, herr, hmsg, hbody, hkey⟩ := extractAnchors_taken hex a₀ ha₀
  · exact .inl ⟨info, hinfo⟩
  · exact .inr ⟨e, body, herr, hmsg, hbody, hkey⟩

/-- In every run, the parser accepts every certificate of a default bundle. -/
theorem default_bundle_parses (hrefuses : RefusesOtherCurves rt) (ops : List (Config × Op)) (maxSize : Int)
    (hs : s ∈ ((Service.empty maxSize).run rt ops).active ∨
      s ∈ ((Service.empty maxSize).run rt ops).store.snapshot)
    (hdefault : DefaultKeys q) (h : filter rt s q = .ok bundle) :
    ∀ a ∈ bundle, ∃ info, rt.parseX509 a.certDER = .ok info := by
  have htaken : Traced rt (fun _ => True) _ ((Service.empty maxSize).run rt ops) :=
    .of_run (taken_kept rt) (fun _ _ => trivial) maxSize
  have hmade : Traced rt (fun _ => True) _ ((Service.empty maxSize).run rt ops) :=
    .of_run (made_kept rt) (fun _ _ => trivial) maxSize
  have hlisted := hs.elim (htaken.of_active s) (htaken.stored s)
  have hdeclared := hs.elim (hmade.of_active s) (hmade.stored s)
  obtain ⟨-, rfl⟩ := filter_eq_ok.1 h
  intro a ha
  rw [List.mem_filter, admits_of_ne_keysAll hdefault.ne_keysAll, Bool.and_eq_true] at ha
  obtain ⟨ha, -, hcommon⟩ := ha
  rcases List.mem_append.1 (mem_served_of_inScope ha) with ha | ha
  · obtain ⟨t, ht, ha⟩ := List.mem_flatMap.1 ha
    obtain hparsed | ⟨e, body, herr, hmsg, hbody, hkey⟩ := hlisted.1 t ht a ha
    · exact hparsed
    · rw [keyCommon_of_onOtherCurve (hrefuses _ _ herr hmsg) hbody hkey] at hcommon
      cases hcommon
  · obtain ⟨e, cert, ⟨raw, hraw⟩, hanchor⟩ := hdeclared a ha
    rw [hanchor]
    exact parseCerts_parsed hraw cert (List.mem_singleton_self cert)

open Symbolic in
theorem reading_refusesOtherCurves (certs : List String) : RefusesOtherCurves (reading certs) := by
  intro der e herr hmsg
  obtain rfl : der = ofText "CB" := by
    by_contra hne
    simp [reading, hne] at herr
  exact ⟨ofText "b", [1, 3, 36, 3, 3, 2, 8, 1, 1, 7], [], rfl, by decide, rfl, by decide, by decide⟩

open Symbolic in
/-- Of three certificates the parser refuses one, which is not in the default bundle. -/
theorem default_bundle_parses_reading : ∃ s bundle, (readingRun ["CR", "CP", "CB"]).active = some s ∧
    s.served.length = 3 ∧ filter (reading ["CR", "CP", "CB"]) s everything = .ok bundle ∧ bundle.length = 2 ∧
    ∀ a ∈ bundle, ∃ info, (reading ["CR", "CP", "CB"]).parseX509 a.certDER = .ok info := by
  have hrun : (readingRun ["CR", "CP", "CB"]).active.any fun s =>
      s.served.length = 3 ∧
        ((s.inScope (reading ["CR", "CP", "CB"]) everything).filter everything.admits).length = 2 := by decide +kernel
  obtain ⟨s, hs, hboth⟩ := (Option.any_eq_true _ _).1 hrun
  obtain ⟨hserved, hlength⟩ := of_decide_eq_true hboth
  have hfilter : filter (reading ["CR", "CP", "CB"]) s everything = .ok _ := filter_of_valid everything_valid
  refine ⟨s, _, hs, hserved, hfilter, hlength, ?_⟩
  exact default_bundle_parses (reading_refusesOtherCurves _) _ 100 (.inl hs) (.inl rfl) hfilter

end TrustAnchor.Ingest
