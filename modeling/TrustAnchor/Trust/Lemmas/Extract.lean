import TrustAnchor.Lib.Merge
import TrustAnchor.Lib.Order
import TrustAnchor.Lib.Result
import TrustAnchor.Trust.Extract

/-!
# What an extracted anchor is

Extraction sorts, merges and drops; what every service's anchors have and merging keeps, every
extracted anchor has.
-/

namespace TrustAnchor.Trust

open Lib Tsl

variable {rt : Runtime}

/-- An anchor of the territory, named by the hash of its certificate. -/
structure Extracted (rt : Runtime) (territory : String) (a : Anchor) : Prop where
  territory : a.territory = territory
  source : a.source = sourceTL
  fingerprint : a.fingerprintSHA256 = rt.sha256hex a.certDER

theorem Extracted.slash_notMem {territory : String} {a : Anchor} (h : Extracted rt territory a) :
    '/' ∉ a.fingerprintSHA256.toList := by
  rw [h.fingerprint]
  exact slash_notMem_hexEncode _

theorem serviceIdentity_fingerprint {tspName serviceName : String} {der : Bytes} {id : Identity}
    (h : serviceIdentity rt tspName serviceName der = .ok id) :
    id.fingerprintSHA256 = rt.sha256hex id.raw := by
  unfold serviceIdentity at h
  split at h
  · cases h
    rfl
  · simp only at h
    split at h
    · cases h
    · split at h
      · cases h
      · cases h
        rfl

theorem mem_serviceIdentities {tspName serviceName : String} {sdi : ServiceDigitalIdentity}
    {id : Identity} (h : id ∈ (serviceIdentities rt tspName serviceName sdi).1) :
    ∃ der, serviceIdentity rt tspName serviceName der = .ok id := by
  unfold serviceIdentities at h
  split at h
  · cases h
  · obtain ⟨r, hr, hid⟩ := List.mem_filterMap.1 h
    obtain ⟨der, -, rfl⟩ := List.mem_map.1 hr
    refine ⟨der, ?_⟩
    cases hs : serviceIdentity rt tspName serviceName der with
    | error w =>
        rw [hs] at hid
        cases hid
    | ok id' =>
        rw [hs] at hid
        cases hid
        rfl

/-- An anchor of a service: the status is admitted, and the rest is read off the service and one of its
certificates. -/
theorem mem_extractService {acc : Accepted} {territory tspName : String} {info : ServiceInformation}
    {a : Anchor} (h : a ∈ (extractService rt acc territory tspName info).1) :
    acc.statusOK info = true ∧ a.territory = territory ∧ a.source = sourceTL ∧
      a.serviceType = info.typeIdentifier ∧ a.status = info.status ∧ a.type = typeKey info.typeIdentifier ∧
      ∃ der id, serviceIdentity rt tspName (localizedString info.name) der = .ok id ∧
        a.certDER = id.raw ∧ a.fingerprintSHA256 = id.fingerprintSHA256 ∧
        a.keyAlgorithm = id.keyAlgorithm ∧ a.curve = id.curve := by
  unfold extractService at h
  split at h
  · cases h
  · rename_i hstatus
    simp only at h
    split at h
    · cases h
    · obtain ⟨id, hid, rfl⟩ := List.mem_map.1 h
      obtain ⟨der, hder⟩ := mem_serviceIdentities hid
      exact ⟨by simpa using hstatus, rfl, rfl, rfl, rfl, rfl, der, id, hder, rfl, rfl, rfl, rfl⟩

theorem extractService_extracted {acc : Accepted} {territory tspName : String}
    {info : ServiceInformation} {a : Anchor}
    (h : a ∈ (extractService rt acc territory tspName info).1) : Extracted rt territory a := by
  obtain ⟨-, hterritory, hsource, -, -, -, der, id, hid, hcert, hfp, -, -⟩ := mem_extractService h
  refine ⟨hterritory, hsource, ?_⟩
  rw [hfp, hcert, serviceIdentity_fingerprint hid]

/-! ## Merging -/

/-- What merging does to an anchor apart from its qualifiers. -/
def Anchor.withDuplicate (k dup : Anchor) : Anchor :=
  { k with uses := dup.uses.foldl addUse k.uses, qcWithQSCD := k.qcWithQSCD || dup.qcWithQSCD }

theorem withDuplicate_fingerprint (k a : Anchor) : (k.withDuplicate a).fingerprintSHA256 = k.fingerprintSHA256 := rfl

section Step

variable {conflicting : String → Bool} {d : Dedup} {e : Anchor × Nat}

theorem dedupStep_of_conflicting (h : conflicting e.1.fingerprintSHA256 = true) :
    (dedupStep conflicting d e).arrays = d.arrays ∧ (dedupStep conflicting d e).anchors = d.anchors := by
  simp only [dedupStep, h, if_true]
  split_ifs <;> exact ⟨rfl, rfl⟩

theorem dedupStep_of_none (h : conflicting e.1.fingerprintSHA256 = false)
    (hfind : (d.anchors.find? fun k => k.anchor.fingerprintSHA256 = e.1.fingerprintSHA256) = none) :
    dedupStep conflicting d e =
      { d with anchors := d.anchors ++ [⟨e.1, .shared e.2 e.1.qualifiers.length⟩] } := by
  simp only [dedupStep, h, Bool.false_eq_true, if_false, hfind]

theorem dedupStep_of_some (h : conflicting e.1.fingerprintSHA256 = false) {k : Kept}
    (hfind : (d.anchors.find? fun k => k.anchor.fingerprintSHA256 = e.1.fingerprintSHA256) = some k) :
    dedupStep conflicting d e =
      { d with
        arrays := (mergeDuplicateAnchor d.arrays k e.1).1
        anchors := d.anchors.map fun k => if k.anchor.fingerprintSHA256 = e.1.fingerprintSHA256 then
          (mergeDuplicateAnchor d.arrays k e.1).2 else k } := by
  simp only [dedupStep, h, Bool.false_eq_true, if_false, hfind]

theorem dedupStep_anchors : (dedupStep conflicting d e).anchors.map Kept.anchor =
    if conflicting e.1.fingerprintSHA256 then d.anchors.map Kept.anchor
    else absorb Anchor.fingerprintSHA256 Anchor.withDuplicate (d.anchors.map Kept.anchor) e.1 := by
  cases hc : conflicting e.1.fingerprintSHA256 with
  | true => rw [(dedupStep_of_conflicting hc).2, if_pos rfl]
  | false =>
      rw [if_neg (by simp)]
      cases hfind : d.anchors.find? fun k => k.anchor.fingerprintSHA256 = e.1.fingerprintSHA256 with
      | none =>
          rw [dedupStep_of_none hc hfind, absorb_fresh (by simpa using hfind)]
          simp
      | some k =>
          have hk := List.mem_map_of_mem (f := Kept.anchor) (List.mem_of_find?_eq_some hfind)
          have hfp : k.anchor.fingerprintSHA256 = e.1.fingerprintSHA256 := by simpa using List.find?_some hfind
          rw [dedupStep_of_some hc hfind, absorb_known hk hfp, List.map_map, List.map_map]
          refine List.map_congr_left fun k _ => ?_
          simp only [Function.comp_apply]
          split_ifs <;> rfl

end Step

theorem dedup_anchors {conflicting : String → Bool} {es : List (Anchor × Nat)} {d : Dedup} :
    (es.foldl (dedupStep conflicting) d).anchors.map Kept.anchor =
      ((es.map Prod.fst).filter fun a => !conflicting a.fingerprintSHA256).foldl
        (absorb Anchor.fingerprintSHA256 Anchor.withDuplicate) (d.anchors.map Kept.anchor) := by
  induction es generalizing d with
  | nil => rfl
  | cons e es ih =>
      rw [List.foldl_cons, ih, dedupStep_anchors, List.map_cons, List.filter_cons]
      cases conflicting e.1.fingerprintSHA256 <;> rfl

/-- The anchors with the qualifiers that the arrays hold at the end. -/
def Dedup.returned (d : Dedup) : List Anchor := d.anchors.map (Kept.read d.arrays)

theorem returned_map {β : Type} (d : Dedup) {f : Anchor → β}
    (hf : ∀ a qualifiers, f { a with qualifiers } = f a) : d.returned.map f = (d.anchors.map Kept.anchor).map f := by
  rw [Dedup.returned, List.map_map, List.map_map]
  exact List.map_congr_left fun k _ => hf k.anchor _

theorem dedup_forall {P : Anchor → Prop} {conflicting : String → Bool} {arrays : Arrays String}
    {es : List (Anchor × Nat)}
    (hmerge : ∀ a uses qualifiers qcWithQSCD, P a → P { a with uses, qualifiers, qcWithQSCD })
    (hes : ∀ e ∈ es, P e.1) : ∀ k ∈ (es.foldl (dedupStep conflicting) { arrays }).returned, P k := by
  intro k hk
  obtain ⟨kept, hkept, rfl⟩ := List.mem_map.1 hk
  have hanchor : P kept.anchor := by
    have hmem := List.mem_map_of_mem (f := Kept.anchor) hkept
    rw [dedup_anchors] at hmem
    refine foldl_absorb_forall (fun k dup h => hmerge k _ k.qualifiers _ h) (by simp) (fun a ha => ?_) _ hmem
    obtain ⟨e, he, rfl⟩ := List.mem_map.1 (List.mem_of_mem_filter ha)
    exact hes e he
  exact hmerge _ kept.anchor.uses _ kept.anchor.qcWithQSCD hanchor

theorem dedup_nodup {conflicting : String → Bool} {arrays : Arrays String} {es : List (Anchor × Nat)} :
    ((es.foldl (dedupStep conflicting) { arrays }).returned.map Anchor.fingerprintSHA256).Nodup := by
  rw [returned_map _ fun _ _ => rfl, dedup_anchors]
  exact foldl_absorb_nodup withDuplicate_fingerprint (by simp)

/-! ## The whole list -/

/-- The anchors that services of admitted types make, each with the place that stands beside its service. -/
def labelled (rt : Runtime) (acc : Accepted) (territory : String)
    (svcs : List ((String × ServiceInformation) × Nat)) : List (Anchor × Nat) :=
  (svcs.filter fun e => e.1.2.typeIdentifier ∈ acc.types).flatMap fun e =>
    (extractService rt acc territory e.1.1 e.1.2).1.map fun a => (a, e.2)

/-- More than one status across the services of admitted types. -/
def conflicting (rt : Runtime) (acc : Accepted) (svcs : List (String × ServiceInformation)) (fp : String) :
    Bool := 1 < (statusesByCert rt acc svcs fp).length

/-- The entries of the services in the order that the sort leaves them in. -/
def sortedEntries (rt : Runtime) (acc : Accepted) (territory : String)
    (svcs : List (String × ServiceInformation)) : List (Anchor × Nat) :=
  rt.sortSlice.run entryLe (labelled rt acc territory svcs.zipIdx)

/-- What extraction makes of the entries. -/
def dedupEntries (rt : Runtime) (acc : Accepted) (territory : String)
    (svcs : List (String × ServiceInformation)) : Dedup :=
  (sortedEntries rt acc territory svcs).foldl (dedupStep (conflicting rt acc svcs))
    { arrays := qualifierArrays rt svcs }

/-- The warnings of the services of admitted types. -/
def serviceWarnings (rt : Runtime) (acc : Accepted) (territory : String)
    (svcs : List (String × ServiceInformation)) : List ExtractionWarning :=
  (svcs.filter fun e => e.2.typeIdentifier ∈ acc.types).flatMap fun e =>
    (extractService rt acc territory e.1 e.2).2

/-- All warnings, in the order they are returned in. -/
def extractionWarnings (rt : Runtime) (acc : Accepted) (territory : String)
    (svcs : List (String × ServiceInformation)) : List ExtractionWarning :=
  serviceWarnings rt acc territory svcs ++ skippedTypeWarnings acc svcs ++
    (dedupEntries rt acc territory svcs).warnings

theorem flatMap_zipIdx_filter {α β : Type} {f : α → List β} {p : α → Bool} (l : List α) :
    (l.zipIdx.filter fun e => p e.1).flatMap (fun e => f e.1) = (l.filter p).flatMap f := by
  have hmap : (l.zipIdx.map Prod.fst) = l := List.zipIdx_map_fst ..
  conv_rhs => rw [← hmap, List.filter_map, List.flatMap_map]
  rfl

theorem extractAnchors_eq {tl : TrustedList} {providers : List Provider} (h : tl.providerList = some providers)
    (territory : String) (acceptedStatuses acceptedTypes : List String) :
    extractAnchors rt tl territory acceptedStatuses acceptedTypes =
      .ok ((dedupEntries rt (accepted acceptedStatuses acceptedTypes) territory (services providers)).returned,
        extractionWarnings rt (accepted acceptedStatuses acceptedTypes) territory (services providers)) := by
  have hwarnings := flatMap_zipIdx_filter (services providers)
    (f := fun e => (extractService rt (accepted acceptedStatuses acceptedTypes) territory e.1 e.2).2)
    (p := fun e => e.2.typeIdentifier ∈ (accepted acceptedStatuses acceptedTypes).types)
  unfold extractAnchors
  simp only [h, List.flatMap_map, hwarnings]
  rfl

theorem extractAnchors_ok {tl : TrustedList} {territory : String}
    {acceptedStatuses acceptedTypes : List String} {anchors : List Anchor} {warnings : List ExtractionWarning}
    (h : extractAnchors rt tl territory acceptedStatuses acceptedTypes = .ok (anchors, warnings)) :
    ∃ svcs, anchors = (dedupEntries rt (accepted acceptedStatuses acceptedTypes) territory svcs).returned := by
  cases hproviders : tl.providerList with
  | none =>
      unfold extractAnchors at h
      simp [hproviders] at h
  | some providers =>
      rw [extractAnchors_eq hproviders] at h
      exact ⟨services providers, (Prod.mk.inj (Except.ok.inj h)).1.symm⟩

theorem extractAnchors_nodup {tl : TrustedList} {territory : String}
    {acceptedStatuses acceptedTypes : List String} {anchors : List Anchor}
    {warnings : List ExtractionWarning}
    (h : extractAnchors rt tl territory acceptedStatuses acceptedTypes = .ok (anchors, warnings)) :
    (anchors.map Anchor.fingerprintSHA256).Nodup := by
  obtain ⟨svcs, rfl⟩ := extractAnchors_ok h
  exact dedup_nodup

/-- What every anchor of a service of an admitted type has and merging keeps, every extracted anchor
has. -/
theorem extractAnchors_forall {P : Anchor → Prop} {tl : TrustedList} {territory : String}
    {acceptedStatuses acceptedTypes : List String} {anchors : List Anchor}
    {warnings : List ExtractionWarning}
    (hmerge : ∀ a uses qualifiers qcWithQSCD, P a → P { a with uses, qualifiers, qcWithQSCD })
    (hservice : ∀ tspName info, info.typeIdentifier ∈ (accepted acceptedStatuses acceptedTypes).types →
      ∀ a ∈ (extractService rt (accepted acceptedStatuses acceptedTypes) territory tspName info).1, P a)
    (h : extractAnchors rt tl territory acceptedStatuses acceptedTypes = .ok (anchors, warnings)) :
    ∀ a ∈ anchors, P a := by
  obtain ⟨svcs, rfl⟩ := extractAnchors_ok h
  refine dedup_forall hmerge fun x hx => ?_
  obtain ⟨e, he, hx⟩ := List.mem_flatMap.1 (rt.sortSlice.mem_run.1 hx)
  obtain ⟨a, ha, rfl⟩ := List.mem_map.1 hx
  exact hservice e.1.1 e.1.2 (by simpa using (List.mem_filter.1 he).2) a ha

theorem extractAnchors_extracted {tl : TrustedList} {territory : String}
    {acceptedStatuses acceptedTypes : List String} {anchors : List Anchor}
    {warnings : List ExtractionWarning}
    (h : extractAnchors rt tl territory acceptedStatuses acceptedTypes = .ok (anchors, warnings)) :
    ∀ a ∈ anchors, Extracted rt territory a :=
  extractAnchors_forall (fun _ _ _ _ hk => ⟨hk.territory, hk.source, hk.fingerprint⟩)
    (fun _ _ _ _ ha => extractService_extracted ha) h

/-! ## Keys and types -/

/-- The kind of the key is the one the certificate has, and the type is one that a query can name. -/
structure Readable (rt : Runtime) (a : Anchor) : Prop where
  key : (a.keyAlgorithm, a.curve) = spkiAlgorithm rt a.certDER
  type : a.type = "" ∨ validAnchorType a.type

/-- The parser and the structural reader tell the same kind of key. -/
theorem serviceIdentity_key {tspName serviceName : String} {der : Bytes} {id : Identity}
    (h : serviceIdentity rt tspName serviceName der = .ok id) :
    (id.keyAlgorithm, id.curve) = spkiAlgorithm rt id.raw := by
  unfold serviceIdentity at h
  split at h
  · cases h
    rfl
  · simp only at h
    split at h
    · cases h
    · split at h
      · cases h
      · rename_i body hbody
        cases h
        simp [spkiAlgorithm, hbody]

theorem typeKey_valid (identifier : String) : typeKey identifier = "" ∨ validAnchorType (typeKey identifier) := by
  unfold typeKey
  split
  · rename_i e he
    have hall : ∀ e ∈ typeIdentifiers, e.1 = "" ∨ validAnchorType e.1 := by decide
    exact hall e (List.mem_of_find?_eq_some he)
  · exact .inl rfl

theorem extractAnchors_readable {tl : TrustedList} {territory : String}
    {acceptedStatuses acceptedTypes : List String} {anchors : List Anchor}
    {warnings : List ExtractionWarning}
    (h : extractAnchors rt tl territory acceptedStatuses acceptedTypes = .ok (anchors, warnings)) :
    ∀ a ∈ anchors, Readable rt a := by
  refine extractAnchors_forall (fun _ _ _ _ hk => ⟨hk.key, hk.type⟩) (fun tspName info _ a ha => ?_) h
  obtain ⟨-, -, -, -, -, htype, der, id, hid, hcert, -, halg, hcurve⟩ := mem_extractService ha
  refine ⟨?_, htype ▸ typeKey_valid _⟩
  rw [halg, hcurve, hcert, serviceIdentity_key hid]

/-! ## Parsed certificates -/

/-- The parser accepts the certificate, or it refuses the curve of the key, which is then read off the
certificate's structure. -/
def Taken (rt : Runtime) (a : Anchor) : Prop :=
  (∃ info, rt.parseX509 a.certDER = .ok info) ∨
    ∃ e body, rt.parseX509 a.certDER = .error e ∧ contains e unsupportedCurveMessage = true ∧
      decodeCertificateBody rt a.certDER = .ok body ∧
      (a.keyAlgorithm, a.curve) = (body.keyAlgorithm, body.curve)

theorem serviceIdentity_taken {tspName serviceName : String} {der : Bytes} {id : Identity}
    (h : serviceIdentity rt tspName serviceName der = .ok id) :
    (∃ info, rt.parseX509 id.raw = .ok info) ∨
      ∃ e body, rt.parseX509 id.raw = .error e ∧ contains e unsupportedCurveMessage = true ∧
        decodeCertificateBody rt id.raw = .ok body ∧
        (id.keyAlgorithm, id.curve) = (body.keyAlgorithm, body.curve) := by
  unfold serviceIdentity Runtime.parseCertificate at h
  cases hparse : rt.parseX509 der with
  | ok info =>
      rw [hparse] at h
      cases h
      exact .inl ⟨info, hparse⟩
  | error e =>
      simp only [hparse, Err.failure] at h
      split_ifs at h with hcurve
      cases hbody : decodeCertificateBody rt der with
      | error berr =>
          rw [hbody] at h
          cases h
      | ok body =>
          rw [hbody] at h
          cases h
          exact .inr ⟨e, body, hparse, by simpa using hcurve, hbody, rfl⟩

theorem extractAnchors_taken {tl : TrustedList} {territory : String}
    {acceptedStatuses acceptedTypes : List String} {anchors : List Anchor}
    {warnings : List ExtractionWarning}
    (h : extractAnchors rt tl territory acceptedStatuses acceptedTypes = .ok (anchors, warnings)) :
    ∀ a ∈ anchors, Taken rt a := by
  refine extractAnchors_forall (fun _ _ _ _ hk => hk) (fun tspName info _ a ha => ?_) h
  obtain ⟨-, -, -, -, -, -, der, id, hid, hcert, -, halg, hcurve⟩ := mem_extractService ha
  unfold Taken
  rw [halg, hcurve, hcert]
  exact serviceIdentity_taken hid

/-! ## Admission -/

/-- The type and the status of the anchor are admitted, as extraction decides it for a service. -/
def Accepted.admits (acc : Accepted) (a : Anchor) : Bool :=
  a.serviceType ∈ acc.types &&
    (a.status ∈ acc.statuses || (a.serviceType ∉ qualifiedSvctypes && a.status ∈ acc.national))

theorem Accepted.admits_congr {acc : Accepted} {a b : Anchor} (htype : a.serviceType = b.serviceType)
    (hstatus : a.status = b.status) : acc.admits a = acc.admits b := by
  rw [admits, admits, htype, hstatus]

theorem extractAnchors_admitted {tl : TrustedList} {territory : String}
    {acceptedStatuses acceptedTypes : List String} {anchors : List Anchor}
    {warnings : List ExtractionWarning}
    (h : extractAnchors rt tl territory acceptedStatuses acceptedTypes = .ok (anchors, warnings)) :
    ∀ a ∈ anchors, (accepted acceptedStatuses acceptedTypes).admits a := by
  refine extractAnchors_forall (fun _ _ _ _ hk => hk) (fun tspName info htype a ha => ?_) h
  obtain ⟨hstatus, -, -, hserviceType, hstatusEq, -⟩ := mem_extractService ha
  unfold Accepted.statusOK at hstatus
  simp only [Accepted.admits, hserviceType, hstatusEq, htype, hstatus, decide_true, Bool.and_self]

/-! ## Order -/

theorem anchorLe_eq : anchorLe =
    lexLe Anchor.tspName (lexLe Anchor.serviceName (keyLe Anchor.fingerprintSHA256)) := rfl

instance : Std.Total anchorLe := anchorLe_eq ▸ inferInstance

instance : IsTrans Anchor anchorLe := anchorLe_eq ▸ inferInstance

theorem anchorLe_antisymm {a b : Anchor} (hab : anchorLe a b) (hba : anchorLe b a) :
    a.fingerprintSHA256 = b.fingerprintSHA256 := by
  rw [anchorLe_eq] at hab hba
  obtain ⟨-, hab, hba⟩ := lexLe_antisymm hab hba
  obtain ⟨-, hab, hba⟩ := lexLe_antisymm hab hba
  exact le_antisymm hab hba

instance : Std.Total entryLe := ⟨fun x y => Std.Total.total (r := anchorLe) x.1 y.1⟩

instance : IsTrans (Anchor × Nat) entryLe := ⟨fun x y z => IsTrans.trans (r := anchorLe) x.1 y.1 z.1⟩

theorem dedup_sorted {conflicting : String → Bool} {arrays : Arrays String} {es : List (Anchor × Nat)}
    (hes : es.Pairwise entryLe) : (es.foldl (dedupStep conflicting) { arrays }).returned.Pairwise anchorLe := by
  -- merging touches none of the fields that are compared
  have hleft : ∀ k a b, anchorLe k b → anchorLe (k.withDuplicate a) b := fun _ _ _ h => h
  have hright : ∀ k b a, anchorLe k b → anchorLe k (b.withDuplicate a) := fun _ _ _ h => h
  have hanchors : ((es.foldl (dedupStep conflicting) { arrays }).anchors.map Kept.anchor).Pairwise anchorLe := by
    have hsorted : (es.map Prod.fst).Pairwise anchorLe := List.pairwise_map.2 hes
    rw [dedup_anchors]
    exact foldl_absorb_pairwise hleft hright .nil (hsorted.filter _) (by simp)
  rw [List.pairwise_map] at hanchors
  exact List.pairwise_map.2 hanchors

theorem extractAnchors_sorted {tl : TrustedList} {territory : String}
    {acceptedStatuses acceptedTypes : List String} {anchors : List Anchor}
    {warnings : List ExtractionWarning}
    (h : extractAnchors rt tl territory acceptedStatuses acceptedTypes = .ok (anchors, warnings)) :
    anchors.Pairwise anchorLe := by
  obtain ⟨svcs, rfl⟩ := extractAnchors_ok h
  exact dedup_sorted (rt.sortSlice.sorted entryLe _)

end TrustAnchor.Trust
