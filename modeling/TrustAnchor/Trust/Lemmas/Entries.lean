import Mathlib.Data.List.Dedup
import TrustAnchor.Lib.Union
import TrustAnchor.Trust.Lemmas.Extract

/-!
# The service entries of a certificate

A certificate can be listed by several services. Each accepted service makes one entry of it, and the
anchor is the merge of its entries, unless the services list it under different statuses.
-/

namespace TrustAnchor.Trust

open Lib Tsl

variable {rt : Runtime} {acc : Accepted} {territory : String} {svcs : List (String × ServiceInformation)}

/-! ## Reading a service -/

/-- The certificate with the fingerprint is read from the service. -/
def Reads (rt : Runtime) (info : ServiceInformation) (fp : String) : Prop :=
  ∃ id ∈ (serviceIdentities rt "" "" info.digitalIdentity).1, id.fingerprintSHA256 = fp

/-- A service of an admitted type. -/
def Admitted (acc : Accepted) (svcs : List (String × ServiceInformation)) (e : String × ServiceInformation) :
    Prop := e ∈ svcs ∧ e.2.typeIdentifier ∈ acc.types

instance (info : ServiceInformation) (fp : String) : Decidable (Reads rt info fp) :=
  inferInstanceAs (Decidable (∃ id ∈ (serviceIdentities rt "" "" info.digitalIdentity).1, id.fingerprintSHA256 = fp))

instance (e : String × ServiceInformation) : Decidable (Admitted acc svcs e) :=
  inferInstanceAs (Decidable (e ∈ svcs ∧ e.2.typeIdentifier ∈ acc.types))

theorem serviceIdentity_toOption (tspName serviceName : String) (der : Bytes) :
    (serviceIdentity rt tspName serviceName der).toOption = (serviceIdentity rt "" "" der).toOption := by
  unfold serviceIdentity
  cases rt.parseCertificate der with
  | ok cert => rfl
  | error err =>
      simp only
      split_ifs
      · rfl
      · cases decodeCertificateBody rt der <;> rfl

/-- The names only go into the warnings. -/
theorem serviceIdentities_fst (tspName serviceName : String) (sdi : ServiceDigitalIdentity) :
    (serviceIdentities rt tspName serviceName sdi).1 = (serviceIdentities rt "" "" sdi).1 := by
  unfold serviceIdentities
  cases sdi.certificateDERs rt with
  | error err => rfl
  | ok ders =>
      simp only [List.filterMap_map, Function.comp_def]
      exact congrArg (List.filterMap · ders) (funext fun der => serviceIdentity_toOption tspName serviceName der)

/-- A refused certificate is reported under the names of its service. -/
theorem serviceIdentity_error {tspName serviceName : String} {der : Bytes} {w : ExtractionWarning}
    (h : serviceIdentity rt tspName serviceName der = .error w) :
    w.tspName = tspName ∧ w.serviceName = serviceName ∧ w.code = skipInvalidCertificate ∧
      w.fingerprintSHA256 = rt.sha256hex der := by
  unfold serviceIdentity at h
  split at h
  · cases h
  · simp only at h
    split_ifs at h
    · cases h
      exact ⟨rfl, rfl, rfl, rfl⟩
    · split at h
      · cases h
        exact ⟨rfl, rfl, rfl, rfl⟩
      · cases h

theorem serviceIdentity_raw {tspName serviceName : String} {der : Bytes} {id : Identity}
    (h : serviceIdentity rt tspName serviceName der = .ok id) : id.raw = der := by
  unfold serviceIdentity Runtime.parseCertificate at h
  cases hparse : rt.parseX509 der with
  | ok info =>
      simp only [hparse] at h
      cases h
      rfl
  | error e =>
      simp only [hparse] at h
      split_ifs at h
      split at h
      · cases h
      · cases h
        rfl

theorem mem_serviceIdentities_snd {tspName serviceName : String} {sdi : ServiceDigitalIdentity}
    {w : ExtractionWarning} (h : w ∈ (serviceIdentities rt tspName serviceName sdi).2) :
    w.tspName = tspName ∧ w.serviceName = serviceName ∧ w.code = skipInvalidCertificate := by
  unfold serviceIdentities at h
  split at h
  · rw [List.mem_singleton.1 h]
    exact ⟨rfl, rfl, rfl⟩
  · obtain ⟨r, hr, hw⟩ := List.mem_filterMap.1 h
    obtain ⟨der, -, rfl⟩ := List.mem_map.1 hr
    cases hs : serviceIdentity rt tspName serviceName der with
    | ok id =>
        rw [hs] at hw
        cases hw
    | error w' =>
        rw [hs] at hw
        cases hw
        obtain ⟨htsp, hname, hcode, -⟩ := serviceIdentity_error hs
        exact ⟨htsp, hname, hcode⟩

/-- A certificate that decodes is read or reported. -/
theorem mem_certificateDERs (tspName serviceName : String) {sdi : ServiceDigitalIdentity} {ders : List Bytes}
    (h : sdi.certificateDERs rt = .ok ders) {der : Bytes} (hder : der ∈ ders) :
    (∃ id ∈ (serviceIdentities rt "" "" sdi).1, id.fingerprintSHA256 = rt.sha256hex der) ∨
      ∃ w ∈ (serviceIdentities rt tspName serviceName sdi).2, w.fingerprintSHA256 = rt.sha256hex der := by
  rw [← serviceIdentities_fst tspName serviceName]
  unfold serviceIdentities
  simp only [h, List.mem_filterMap, List.mem_map]
  cases hs : serviceIdentity rt tspName serviceName der with
  | ok id =>
      refine .inl ⟨id, ⟨_, ⟨der, hder, hs⟩, rfl⟩, ?_⟩
      rw [serviceIdentity_fingerprint hs, serviceIdentity_raw hs]
  | error w => exact .inr ⟨w, ⟨_, ⟨der, hder, hs⟩, rfl⟩, (serviceIdentity_error hs).2.2.2⟩

/-- The anchor that a service makes of one of its certificates. -/
def serviceAnchor (territory tspName : String) (info : ServiceInformation) (id : Identity) : Anchor :=
  { territory, source := sourceTL, tspName, serviceName := localizedString info.name
    serviceType := info.typeIdentifier, status := info.status, statusStartingTime := info.statusStartingTime
    certDER := id.raw, fingerprintSHA256 := id.fingerprintSHA256, subject := id.subject
    notBefore := id.notBefore, notAfter := id.notAfter
    qualifiers := (serviceQualifications info.extensions).1
    qcWithQSCD := (serviceQualifications info.extensions).2.2
    uses := (serviceQualifications info.extensions).2.1
    keyAlgorithm := id.keyAlgorithm, curve := id.curve, type := typeKey info.typeIdentifier
    useCases := [], tlSequence := 0 }

theorem extractService_fst (tspName : String) (info : ServiceInformation) :
    (extractService rt acc territory tspName info).1 = if acc.statusOK info then
      (serviceIdentities rt "" "" info.digitalIdentity).1.map (serviceAnchor territory tspName info) else [] := by
  unfold extractService
  rw [← serviceIdentities_fst tspName (localizedString info.name)]
  cases acc.statusOK info with
  | false => rfl
  | true =>
      simp only [Bool.not_true, Bool.false_eq_true, if_false, if_true]
      split_ifs with hnone
      · simp only [Bool.and_eq_true, decide_eq_true_eq] at hnone
        rw [hnone.1]
        rfl
      · rfl

theorem mem_extractService_snd {tspName : String} {info : ServiceInformation} {w : ExtractionWarning}
    (h : w ∈ (extractService rt acc territory tspName info).2) :
    w.code = skipInvalidCertificate ∨ w.code = skipNoCertificate := by
  unfold extractService at h
  simp only at h
  split_ifs at h
  · cases h
  · rw [List.mem_singleton.1 h]
    exact .inr rfl
  · exact .inl (mem_serviceIdentities_snd h).2.2

def noCertificateWarning (tspName : String) (info : ServiceInformation) : ExtractionWarning :=
  { tspName, serviceName := localizedString info.name, code := skipNoCertificate
    reason := "no X509Certificate digital identity" }

/-- The warnings of an accepted service are those of its certificates, or that it has none. -/
theorem extractService_snd {tspName : String} {info : ServiceInformation} (hstatus : acc.statusOK info) :
    (extractService rt acc territory tspName info).2 =
      let ids := serviceIdentities rt tspName (localizedString info.name) info.digitalIdentity
      if ids.1 = [] ∧ ids.2 = [] then [noCertificateWarning tspName info] else ids.2 := by
  unfold extractService
  simp only [hstatus, Bool.not_true, Bool.false_eq_true, if_false, Bool.and_eq_true, decide_eq_true_eq]
  split_ifs <;> rfl

theorem mem_extractService_of_identities {tspName : String} {info : ServiceInformation}
    (hstatus : acc.statusOK info) {w : ExtractionWarning}
    (hw : w ∈ (serviceIdentities rt tspName (localizedString info.name) info.digitalIdentity).2) :
    w ∈ (extractService rt acc territory tspName info).2 := by
  rw [extractService_snd hstatus]
  simp only
  rwa [if_neg fun hnone => List.ne_nil_of_mem hw hnone.2]

/-! ## Entries -/

/-- The anchors that the accepted services make, in document order. -/
def entries (rt : Runtime) (acc : Accepted) (territory : String)
    (svcs : List (String × ServiceInformation)) : List Anchor :=
  (svcs.filter fun e => e.2.typeIdentifier ∈ acc.types).flatMap fun e =>
    (extractService rt acc territory e.1 e.2).1

theorem mem_entries {a : Anchor} : a ∈ entries rt acc territory svcs ↔
    ∃ e, Admitted acc svcs e ∧ acc.statusOK e.2 ∧
      ∃ id ∈ (serviceIdentities rt "" "" e.2.digitalIdentity).1, a = serviceAnchor territory e.1 e.2 id := by
  simp only [entries, List.mem_flatMap, List.mem_filter, decide_eq_true_eq, extractService_fst, Admitted]
  refine exists_congr fun e => and_congr_right fun _ => ?_
  cases acc.statusOK e.2 <;> simp [eq_comm]

theorem labelled_fst : (labelled rt acc territory svcs.zipIdx).map Prod.fst = entries rt acc territory svcs := by
  unfold labelled entries
  rw [List.map_flatMap, ← flatMap_zipIdx_filter svcs]
  simp only [List.map_map, Function.comp_def, List.map_id']

theorem mem_sortedEntries {a : Anchor} :
    a ∈ (sortedEntries rt acc territory svcs).map Prod.fst ↔ a ∈ entries rt acc territory svcs := by
  rw [← labelled_fst, List.mem_map, List.mem_map]
  simp [sortedEntries]

/-- The entries of one certificate. -/
def entriesOf (rt : Runtime) (acc : Accepted) (territory : String)
    (svcs : List (String × ServiceInformation)) (fp : String) : List Anchor :=
  (entries rt acc territory svcs).filter fun a => a.fingerprintSHA256 = fp

theorem mem_entriesOf {fp : String} {a : Anchor} : a ∈ entriesOf rt acc territory svcs fp ↔
    a ∈ entries rt acc territory svcs ∧ a.fingerprintSHA256 = fp := by
  simp [entriesOf]

theorem entriesOf_ne_nil {fp : String} : entriesOf rt acc territory svcs fp ≠ [] ↔
    ∃ e, Admitted acc svcs e ∧ acc.statusOK e.2 ∧ Reads rt e.2 fp := by
  constructor
  · intro hne
    obtain ⟨a, ha⟩ := List.exists_mem_of_ne_nil _ hne
    obtain ⟨ha, hfp⟩ := mem_entriesOf.1 ha
    obtain ⟨e, he, hstatus, id, hid, rfl⟩ := mem_entries.1 ha
    exact ⟨e, he, hstatus, id, hid, hfp⟩
  · rintro ⟨e, he, hstatus, id, hid, hfp⟩
    have ha : serviceAnchor territory e.1 e.2 id ∈ entries rt acc territory svcs :=
      mem_entries.2 ⟨e, he, hstatus, id, hid, rfl⟩
    exact List.ne_nil_of_mem (mem_entriesOf.2 ⟨ha, hfp⟩)

/-! ## Conflicting statuses -/

theorem mem_statusesByCert {fp status : String} : status ∈ statusesByCert rt acc svcs fp ↔
    ∃ e, Admitted acc svcs e ∧ Reads rt e.2 fp ∧ e.2.status = status := by
  simp only [statusesByCert, List.mem_dedup, List.mem_map, List.mem_filter, Bool.and_eq_true,
    decide_eq_true_eq, List.any_eq_true, Admitted, Reads, and_assoc]

theorem conflicting_iff {fp : String} : conflicting rt acc svcs fp = true ↔
    ∃ e e', Admitted acc svcs e ∧ Admitted acc svcs e' ∧ Reads rt e.2 fp ∧ Reads rt e'.2 fp ∧
      e.2.status ≠ e'.2.status := by
  have hnodup : (statusesByCert rt acc svcs fp).Nodup := List.nodup_dedup _
  rw [conflicting, decide_eq_true_eq]
  constructor
  · intro hlt
    obtain ⟨status, hstatus, status', hstatus', hne⟩ :
        ∃ st ∈ statusesByCert rt acc svcs fp, ∃ st' ∈ statusesByCert rt acc svcs fp, st ≠ st' := by
      cases hl : statusesByCert rt acc svcs fp with
      | nil => simp [hl] at hlt
      | cons st l =>
          cases l with
          | nil => simp [hl] at hlt
          | cons st' l =>
              rw [hl] at hnodup
              exact ⟨st, by simp, st', by simp, fun heq => by simp [heq] at hnodup⟩
    obtain ⟨e, he, hread, rfl⟩ := mem_statusesByCert.1 hstatus
    obtain ⟨e', he', hread', rfl⟩ := mem_statusesByCert.1 hstatus'
    exact ⟨e, e', he, he', hread, hread', hne⟩
  · rintro ⟨e, e', he, he', hread, hread', hne⟩
    by_contra hle
    have hst := mem_statusesByCert.2 ⟨e, he, hread, rfl⟩
    have hst' := mem_statusesByCert.2 ⟨e', he', hread', rfl⟩
    obtain ⟨st, hl⟩ := List.length_eq_one_iff.1
      (le_antisymm (not_lt.1 hle) (List.length_pos_of_mem hst))
    rw [hl, List.mem_singleton] at hst hst'
    exact hne (hst.trans hst'.symm)

/-! ## The qualifiers -/

/-- What an entry brings to the arrays of the qualifiers. -/
def visitOf (e : Anchor × Nat) : Visit String String := ⟨e.1.fingerprintSHA256, e.2, e.1.qualifiers⟩

/-- The arrays with the slices of the anchors kept so far. -/
def Dedup.heap (d : Dedup) : Heap String String where
  arrays := d.arrays
  slices fp := (d.anchors.find? fun k => k.anchor.fingerprintSHA256 = fp).map Kept.qualifiers

section Heap

variable {conflicting : String → Bool} {d : Dedup} {e : Anchor × Nat} {es : List (Anchor × Nat)}
  {arrays : Arrays String}

theorem heap_dedupStep_of_conflicting (h : conflicting e.1.fingerprintSHA256 = true) :
    (dedupStep conflicting d e).heap = d.heap := by
  unfold Dedup.heap
  rw [(dedupStep_of_conflicting h).1, (dedupStep_of_conflicting h).2]

theorem heap_dedupStep (h : conflicting e.1.fingerprintSHA256 = false) :
    (dedupStep conflicting d e).heap = d.heap.visit (visitOf e) := by
  cases hfind : d.anchors.find? fun k => k.anchor.fingerprintSHA256 = e.1.fingerprintSHA256 with
  | none =>
      have hslice : d.heap.slices (visitOf e).key = none := by simp [Dedup.heap, visitOf, hfind]
      rw [dedupStep_of_none h hfind, visit_of_none hslice]
      refine congrArg (Heap.mk d.arrays) (funext fun fp => ?_)
      by_cases hfp : fp = e.1.fingerprintSHA256
      · subst hfp
        simp [List.find?_append, hfind, visitOf]
      · simp [List.find?_append, Dedup.heap, visitOf, hfp, Ne.symm hfp]
  | some k =>
      have hslice : d.heap.slices (visitOf e).key = some k.qualifiers := by simp [Dedup.heap, visitOf, hfind]
      rw [dedupStep_of_some h hfind, visit_of_some hslice]
      refine congrArg (Heap.mk _) (funext fun fp => ?_)
      have hsame : (fun k : Kept => decide (k.anchor.fingerprintSHA256 = fp)) ∘ (fun k =>
          if k.anchor.fingerprintSHA256 = e.1.fingerprintSHA256 then (mergeDuplicateAnchor d.arrays k e.1).2 else k) =
          fun k => decide (k.anchor.fingerprintSHA256 = fp) := by
        funext k
        simp only [Function.comp_apply]
        split_ifs <;> rfl
      rw [List.find?_map, hsame]
      by_cases hfp : fp = e.1.fingerprintSHA256
      · subst hfp
        have hk : k.anchor.fingerprintSHA256 = e.1.fingerprintSHA256 := by simpa using List.find?_some hfind
        simp [hfind, hk, visitOf, mergeDuplicateAnchor, Dedup.heap]
      · have hne : fp ≠ (visitOf e).key := hfp
        rw [Function.update_of_ne hne]
        cases hother : d.anchors.find? fun k => k.anchor.fingerprintSHA256 = fp with
        | none => simp [Dedup.heap, hother]
        | some k' =>
            have hk' : k'.anchor.fingerprintSHA256 = fp := by simpa using List.find?_some hother
            simp [Dedup.heap, hother, hk', hfp]

theorem heap_dedup : (es.foldl (dedupStep conflicting) d).heap =
    ((es.filter fun e => !conflicting e.1.fingerprintSHA256).map visitOf).foldl Heap.visit d.heap := by
  induction es generalizing d with
  | nil => rfl
  | cons e es ih =>
      rw [List.foldl_cons, ih, List.filter_cons]
      cases hc : conflicting e.1.fingerprintSHA256 with
      | true => rw [heap_dedupStep_of_conflicting hc]; rfl
      | false => rw [heap_dedupStep hc]; rfl

/-- The slice of a returned anchor is the one its fingerprint is found under. -/
theorem heap_content {kept : Kept} (hnodup : (d.anchors.map fun k => k.anchor.fingerprintSHA256).Nodup)
    (h : kept ∈ d.anchors) :
    d.heap.content kept.anchor.fingerprintSHA256 = some (kept.qualifiers.read d.arrays) := by
  have hfind : (d.anchors.find? fun k => k.anchor.fingerprintSHA256 = kept.anchor.fingerprintSHA256) = some kept := by
    cases hfind : d.anchors.find? fun k => k.anchor.fingerprintSHA256 = kept.anchor.fingerprintSHA256 with
    | none => simpa using List.find?_eq_none.1 hfind kept h
    | some k =>
        have hk : k.anchor.fingerprintSHA256 = kept.anchor.fingerprintSHA256 := by simpa using List.find?_some hfind
        rw [List.inj_on_of_nodup_map hnodup (List.mem_of_find?_eq_some hfind) h hk]
  simp [Heap.content, Dedup.heap, hfind]

end Heap

/-! ## The anchors -/

/-- What merging is for: the anchor with qualifiers of its own. -/
def Anchor.merge (k dup : Anchor) : Anchor :=
  { k.withDuplicate dup with qualifiers := union k.qualifiers dup.qualifiers }

def Anchor.withQualifiers (qualifiers : List String) (a : Anchor) : Anchor := { a with qualifiers }

theorem mergeAll_withDuplicate (as : List Anchor) (qualifiers : List String) :
    (mergeAll Anchor.withDuplicate as).map (Anchor.withQualifiers qualifiers) =
      (mergeAll Anchor.merge as).map (Anchor.withQualifiers qualifiers) := by
  have hleft : (mergeAll Anchor.withDuplicate as).map (Anchor.withQualifiers qualifiers) =
      mergeAll Anchor.withDuplicate (as.map (Anchor.withQualifiers qualifiers)) := mergeAll_map fun _ _ => rfl
  have hright : (mergeAll Anchor.merge as).map (Anchor.withQualifiers qualifiers) =
      mergeAll Anchor.withDuplicate (as.map (Anchor.withQualifiers qualifiers)) := mergeAll_map fun _ _ => rfl
  exact hleft.trans hright.symm

/-- An anchor that is kept is the merge of the entries of its certificate, apart from the qualifiers. -/
theorem mem_dedup_anchors {conflicting : String → Bool} {arrays : Arrays String} {es : List (Anchor × Nat)}
    {k : Anchor} : k ∈ (es.foldl (dedupStep conflicting) { arrays }).anchors.map Kept.anchor ↔
      conflicting k.fingerprintSHA256 = false ∧ mergeAll Anchor.withDuplicate
        ((es.map Prod.fst).filter fun a => a.fingerprintSHA256 = k.fingerprintSHA256) = some k := by
  -- the certificate's entries are all dropped or all there
  have hfilter : ((es.map Prod.fst).filter fun a => !conflicting a.fingerprintSHA256).filter
        (fun a => a.fingerprintSHA256 = k.fingerprintSHA256) =
      if conflicting k.fingerprintSHA256 then []
      else (es.map Prod.fst).filter fun a => a.fingerprintSHA256 = k.fingerprintSHA256 := by
    rw [List.filter_filter]
    split_ifs with hc
    · rw [List.filter_eq_nil_iff]
      intro a _ ha
      simp only [Bool.and_eq_true, decide_eq_true_eq, Bool.not_eq_true'] at ha
      rw [ha.1, hc] at ha
      cases ha.2
    · refine List.filter_congr fun a _ => ?_
      by_cases hfp : a.fingerprintSHA256 = k.fingerprintSHA256 <;> simp [hfp, hc]
  rw [dedup_anchors, List.map_nil, mem_foldl_absorb withDuplicate_fingerprint, hfilter]
  cases conflicting k.fingerprintSHA256 <;> simp [mergeAll]

/-- The reports of conflicting statuses among the anchors gone through. -/
structure Conflicts (conflicting : String → Bool) (es : List (Anchor × Nat)) (d : Dedup) : Prop where
  code : ∀ w ∈ d.warnings, w.code = skipStatusConflict
  reported : d.warnings.map ExtractionWarning.fingerprintSHA256 = d.conflicted.reverse
  once : d.conflicted.Nodup
  mem : ∀ fp, fp ∈ d.conflicted ↔ conflicting fp ∧ fp ∈ es.map fun e => e.1.fingerprintSHA256

theorem dedup_conflicts (conflicting : String → Bool) (arrays : Arrays String) (es : List (Anchor × Nat)) :
    Conflicts conflicting es (es.foldl (dedupStep conflicting) { arrays }) := by
  induction es using List.reverseRecOn with
  | nil => exact ⟨by simp, by simp, by simp, by simp⟩
  | append_singleton es e ih =>
      rw [List.foldl_append, List.foldl_cons, List.foldl_nil]
      generalize es.foldl (dedupStep conflicting) { arrays } = d at ih
      have hmem : ∀ fp, (fp ∈ (es ++ [e]).map fun e => e.1.fingerprintSHA256) ↔
          (fp ∈ es.map fun e => e.1.fingerprintSHA256) ∨ fp = e.1.fingerprintSHA256 := by simp
      by_cases hnew : conflicting e.1.fingerprintSHA256 ∧ e.1.fingerprintSHA256 ∉ d.conflicted
      · unfold dedupStep
        simp only [if_pos hnew.1, if_neg hnew.2]
        refine ⟨?_, by simp [ih.reported], List.nodup_cons.2 ⟨hnew.2, ih.once⟩, fun fp => ?_⟩
        · intro w hw
          rcases List.mem_append.1 hw with hw | hw
          · exact ih.code w hw
          · rw [List.mem_singleton.1 hw]
        · rw [List.mem_cons, ih.mem, hmem, and_or_left, or_comm]
          refine or_congr_right ⟨fun heq => ⟨heq ▸ hnew.1, heq⟩, fun h => h.2⟩
      · -- nothing is reported, and there is nothing new to report
        have hsame : (dedupStep conflicting d e).warnings = d.warnings ∧
            (dedupStep conflicting d e).conflicted = d.conflicted := by
          unfold dedupStep
          simp only
          split_ifs with hc hseen
          · exact ⟨rfl, rfl⟩
          · exact absurd ⟨hc, hseen⟩ hnew
          · cases d.anchors.find? fun k => k.anchor.fingerprintSHA256 = e.1.fingerprintSHA256 <;> exact ⟨rfl, rfl⟩
        refine ⟨hsame.1 ▸ ih.code, by rw [hsame.1, hsame.2, ih.reported], hsame.2 ▸ ih.once, fun fp => ?_⟩
        rw [hsame.2, ih.mem, hmem, and_or_left]
        refine ⟨.inl, fun h => h.elim id ?_⟩
        rintro ⟨hc, rfl⟩
        exact (ih.mem _).1 (not_not.1 fun hseen => hnew ⟨hc, hseen⟩)

/-- What the entries that are not dropped bring to the arrays. -/
def keptVisits (conflicting : String → Bool) (es : List (Anchor × Nat)) : List (Visit String String) :=
  (es.filter fun e => !conflicting e.1.fingerprintSHA256).map visitOf

/-- The anchor of a certificate is the merge of its entries, with the qualifiers that are in its slice at the
end. -/
theorem mem_returned {conflicting : String → Bool} {arrays : Arrays String} {es : List (Anchor × Nat)} {k : Anchor} :
    k ∈ (es.foldl (dedupStep conflicting) { arrays }).returned ↔ conflicting k.fingerprintSHA256 = false ∧
      ∃ m qualifiers, mergeAll Anchor.merge
          ((es.map Prod.fst).filter fun a => a.fingerprintSHA256 = k.fingerprintSHA256) = some m ∧
        (Heap.run arrays (keptVisits conflicting es)).content k.fingerprintSHA256 = some qualifiers ∧
        k = m.withQualifiers qualifiers := by
  have hheap : (es.foldl (dedupStep conflicting) { arrays }).heap = Heap.run arrays (keptVisits conflicting es) :=
    heap_dedup
  have hnodup : ((es.foldl (dedupStep conflicting) { arrays }).anchors.map fun k =>
      k.anchor.fingerprintSHA256).Nodup := by
    have hreturned : ((es.foldl (dedupStep conflicting) { arrays }).returned.map Anchor.fingerprintSHA256).Nodup :=
      dedup_nodup
    rw [returned_map _ fun _ _ => rfl, List.map_map] at hreturned
    exact hreturned
  rw [← hheap]
  constructor
  · intro hk
    obtain ⟨kept, hkept, rfl⟩ := List.mem_map.1 hk
    obtain ⟨hc, hmerge⟩ := mem_dedup_anchors.1 (List.mem_map_of_mem hkept)
    have hsame := mergeAll_withDuplicate ((es.map Prod.fst).filter fun a =>
      a.fingerprintSHA256 = kept.anchor.fingerprintSHA256)
      (kept.qualifiers.read (es.foldl (dedupStep conflicting) { arrays }).arrays)
    obtain ⟨m, hm, heq⟩ := Option.map_eq_some_iff.1 (hsame.symm.trans (congrArg _ hmerge))
    exact ⟨hc, m, _, hm, heap_content hnodup hkept, heq.symm⟩
  · rintro ⟨hc, m, qualifiers, hm, hcontent, hk⟩
    have hsame := mergeAll_withDuplicate ((es.map Prod.fst).filter fun a =>
      a.fingerprintSHA256 = k.fingerprintSHA256) qualifiers
    obtain ⟨m', hm', heq⟩ := Option.map_eq_some_iff.1 (hsame.trans (congrArg _ hm))
    have hfp : (m'.withQualifiers qualifiers).fingerprintSHA256 = k.fingerprintSHA256 := by rw [heq, hk]
    change m'.fingerprintSHA256 = _ at hfp
    rw [← hfp] at hc hm' hcontent
    obtain ⟨kept, hkept, rfl⟩ := List.mem_map.1 (mem_dedup_anchors.2 ⟨hc, hm'⟩)
    rw [heap_content hnodup hkept] at hcontent
    refine List.mem_map.2 ⟨kept, hkept, ?_⟩
    rw [hk, ← heq, ← Option.some.inj hcontent]
    rfl

/-- The entries of a certificate in the order of the sort. -/
def sortedEntriesOf (rt : Runtime) (acc : Accepted) (territory : String)
    (svcs : List (String × ServiceInformation)) (fp : String) : List Anchor :=
  ((sortedEntries rt acc territory svcs).map Prod.fst).filter fun a => a.fingerprintSHA256 = fp

theorem mem_sortedEntriesOf {fp : String} {a : Anchor} :
    a ∈ sortedEntriesOf rt acc territory svcs fp ↔ a ∈ entriesOf rt acc territory svcs fp := by
  simp only [sortedEntriesOf, entriesOf, List.mem_filter, mem_sortedEntries]

theorem exists_dedupEntries_iff {fp : String} :
    (∃ k ∈ (dedupEntries rt acc territory svcs).returned, k.fingerprintSHA256 = fp) ↔
      conflicting rt acc svcs fp = false ∧ entriesOf rt acc territory svcs fp ≠ [] := by
  constructor
  · rintro ⟨k, hk, rfl⟩
    obtain ⟨hc, m, -, hmerge, -⟩ := mem_returned.1 hk
    refine ⟨hc, fun hnil => ?_⟩
    have hsorted : sortedEntriesOf rt acc territory svcs k.fingerprintSHA256 = [] := by
      refine List.eq_nil_iff_forall_not_mem.2 fun a ha => ?_
      rw [mem_sortedEntriesOf, hnil] at ha
      cases ha
    rw [sortedEntriesOf] at hsorted
    rw [hsorted] at hmerge
    cases hmerge
  · rintro ⟨hc, hne⟩
    obtain ⟨a, ha⟩ := List.exists_mem_of_ne_nil _ hne
    rw [← mem_sortedEntriesOf] at ha
    cases hmerge : mergeAll Anchor.withDuplicate (sortedEntriesOf rt acc territory svcs fp) with
    | none => exact absurd (mergeAll_eq_none.1 hmerge) (List.ne_nil_of_mem ha)
    | some m =>
        have hfp : m.fingerprintSHA256 = fp := by
          refine mergeAll_key withDuplicate_fingerprint (fun b hb => ?_) hmerge
          exact (mem_entriesOf.1 (mem_sortedEntriesOf.1 hb)).2
        subst hfp
        obtain ⟨kept, hkept, rfl⟩ := List.mem_map.1 (mem_dedup_anchors.2 ⟨hc, hmerge⟩)
        exact ⟨_, List.mem_map_of_mem hkept, rfl⟩

/-! ## What merging keeps -/

theorem mem_foldl_addUse {u : String} {uses new : List String} :
    u ∈ new.foldl addUse uses ↔ u ∈ uses ∨ u ∈ new := mem_union

/-- The qualifiers of the service at a place. -/
def placeQualifiers (svcs : List (String × ServiceInformation)) (i : Nat) : List String :=
  match svcs[i]? with
  | some e => (serviceQualifications e.2.extensions).1
  | none => []

theorem mem_labelled {x : Anchor × Nat} {svcs : List ((String × ServiceInformation) × Nat)}
    (hx : x ∈ labelled rt acc territory svcs) : ∃ e, (e, x.2) ∈ svcs ∧ e.2.typeIdentifier ∈ acc.types ∧
      x.1 ∈ (extractService rt acc territory e.1 e.2).1 := by
  obtain ⟨e, he, hx⟩ := List.mem_flatMap.1 hx
  obtain ⟨a, ha, rfl⟩ := List.mem_map.1 hx
  obtain ⟨he, htype⟩ := List.mem_filter.1 he
  exact ⟨e.1, he, of_decide_eq_true htype, ha⟩

theorem qualifiers_extractService {tspName : String} {info : ServiceInformation} {a : Anchor}
    (h : a ∈ (extractService rt acc territory tspName info).1) :
    a.qualifiers = (serviceQualifications info.extensions).1 := by
  rw [extractService_fst] at h
  split_ifs at h
  · obtain ⟨id, -, rfl⟩ := List.mem_map.1 h
    rfl
  · cases h

/-- The qualifiers of an entry are the first cells of the array of its service. -/
theorem keptVisits_based {conflicting : String → Bool} {es : List (Anchor × Nat)}
    (h : ∀ x ∈ es, x ∈ labelled rt acc territory svcs.zipIdx) :
    Based (placeQualifiers svcs) (qualifierArrays rt svcs) (keptVisits conflicting es) := by
  refine ⟨fun v hv => ?_, fun i => ?_⟩
  · obtain ⟨x, hx, rfl⟩ := List.mem_map.1 hv
    obtain ⟨e, he, -, ha⟩ := mem_labelled (h x (List.mem_of_mem_filter hx))
    have hplace : svcs[x.2]? = some e := List.mk_mem_zipIdx_iff_getElem?.1 he
    simp [visitOf, placeQualifiers, hplace, qualifiers_extractService ha]
  · unfold placeQualifiers qualifierArrays
    cases svcs[i]? with
    | none => exact List.prefix_rfl
    | some e => exact List.prefix_append ..

/-- Nothing is put into a cell of the array that the certificate's qualifiers start in while another anchor
has a different qualifier there. -/
def Undisturbed (rt : Runtime) (acc : Accepted) (territory : String) (svcs : List (String × ServiceInformation))
    (fp : String) : Prop :=
  ∀ i, home (keptVisits (conflicting rt acc svcs) (sortedEntries rt acc territory svcs)) fp = some i →
    Clashless (qualifierArrays rt svcs) i (keptVisits (conflicting rt acc svcs) (sortedEntries rt acc territory svcs))

/-- The entries of a certificate that is not dropped are all there. -/
theorem filter_kept {conflicting : String → Bool} {fp : String} (hc : conflicting fp = false)
    (es : List (Anchor × Nat)) : (es.filter fun e => !conflicting e.1.fingerprintSHA256).filter
      (fun e => e.1.fingerprintSHA256 = fp) = es.filter fun e => e.1.fingerprintSHA256 = fp := by
  rw [List.filter_filter]
  refine List.filter_congr fun e _ => ?_
  by_cases hfp : e.1.fingerprintSHA256 = fp
  · simp [hfp, hc]
  · simp [hfp]

theorem mergedItems_kept {conflicting : String → Bool} {fp : String} (hc : conflicting fp = false)
    (es : List (Anchor × Nat)) :
    mergedItems (keptVisits conflicting es) fp =
      (mergeAll Anchor.merge ((es.map Prod.fst).filter fun a => a.fingerprintSHA256 = fp)).map
        Anchor.qualifiers := by
  have hmap : (mergeAll Anchor.merge ((es.map Prod.fst).filter fun a => a.fingerprintSHA256 = fp)).map
      Anchor.qualifiers = mergeAll union
        (((es.map Prod.fst).filter fun a => a.fingerprintSHA256 = fp).map Anchor.qualifiers) :=
    mergeAll_map fun _ _ => rfl
  have hfilter := filter_kept hc es
  rw [hmap, mergedItems, keptVisits, List.filter_map, List.filter_map, List.map_map, List.map_map]
  exact congrArg (fun es => mergeAll union (es.map fun e : Anchor × Nat => e.1.qualifiers)) hfilter

/-- Where no qualifier is replaced in the array that a certificate's qualifiers start in, they are those of its
entries. -/
theorem qualifiers_of_clashless {es : List (Anchor × Nat)} {fp : String} {m : Anchor} {qualifiers : List String}
    (hes : ∀ x ∈ es, x ∈ labelled rt acc territory svcs.zipIdx) (hc : conflicting rt acc svcs fp = false)
    (hclash : ∀ i, home (keptVisits (conflicting rt acc svcs) es) fp = some i →
      Clashless (qualifierArrays rt svcs) i (keptVisits (conflicting rt acc svcs) es))
    (hmerge : mergeAll Anchor.merge ((es.map Prod.fst).filter fun a => a.fingerprintSHA256 = fp) = some m)
    (hcontent : (Heap.run (qualifierArrays rt svcs) (keptVisits (conflicting rt acc svcs) es)).content fp =
      some qualifiers) : qualifiers = m.qualifiers := by
  have hmerged := mergedItems_kept hc es
  rw [hmerge, Option.map_some] at hmerged
  cases hhome : home (keptVisits (conflicting rt acc svcs) es) fp with
  | none =>
      rw [mergedItems_eq_none.2 hhome] at hmerged
      cases hmerged
  | some i =>
      have hunion := content_run_of_clashless (keptVisits_based hes) (hclash i hhome) fp hhome
      rw [hcontent, hmerged] at hunion
      exact Option.some.inj hunion

/-- Uses and the QSCD flag are those of the entries, the qualifiers too where nothing is put in their place; the
type is the one of some entry. -/
theorem merged_entries {k : Anchor} (hk : k ∈ (dedupEntries rt acc territory svcs).returned) :
    let own := entriesOf rt acc territory svcs k.fingerprintSHA256
    (∀ u, u ∈ k.uses ↔ ∃ a ∈ own, u ∈ a.uses) ∧ (k.qcWithQSCD ↔ ∃ a ∈ own, a.qcWithQSCD) ∧
      (Undisturbed rt acc territory svcs k.fingerprintSHA256 →
        ∀ q, q ∈ k.qualifiers ↔ ∃ a ∈ own, q ∈ a.qualifiers) ∧ ∃ a ∈ own, a.type = k.type := by
  obtain ⟨hc, m, qualifiers, hmerge, hcontent, heq⟩ := mem_returned.1 hk
  have hiff : ∀ P : Anchor → Prop, (∀ k a, P (Anchor.merge k a) ↔ P k ∨ P a) →
      (P m ↔ ∃ a ∈ entriesOf rt acc territory svcs k.fingerprintSHA256, P a) := by
    intro P hP
    rw [mergeAll_iff_exists hP hmerge]
    exact exists_congr fun a => and_congr_left fun _ => mem_sortedEntriesOf
  have hlasting : k.uses = m.uses ∧ k.qcWithQSCD = m.qcWithQSCD ∧ k.type = m.type ∧ k.qualifiers = qualifiers := by
    rw [heq]
    exact ⟨rfl, rfl, rfl, rfl⟩
  obtain ⟨huses, hqscd, htype, hqualifiers⟩ := hlasting
  refine ⟨fun u => ?_, ?_, fun hfree q => ?_, ?_⟩
  · rw [huses]
    exact hiff (u ∈ ·.uses) fun k a => mem_foldl_addUse
  · rw [hqscd]
    exact hiff (·.qcWithQSCD) fun k a => by simp [Anchor.merge, Anchor.withDuplicate]
  · rw [hqualifiers, qualifiers_of_clashless (fun x => rt.sortSlice.mem_run.1) hc hfree hmerge hcontent]
    exact hiff (q ∈ ·.qualifiers) fun k a => mem_union
  · have hkeep : ∀ k a, (Anchor.merge k a).type = k.type := fun _ _ => rfl
    obtain ⟨a, ha, heq⟩ := List.mem_map.1 (List.mem_of_mem_head? (mergeAll_head hkeep hmerge))
    exact ⟨a, mem_sortedEntriesOf.1 ha, heq.trans htype.symm⟩

theorem mem_extractionWarnings {e : String × ServiceInformation} (he : Admitted acc svcs e)
    {w : ExtractionWarning} (hw : w ∈ (extractService rt acc territory e.1 e.2).2) :
    w ∈ extractionWarnings rt acc territory svcs :=
  List.mem_append_left _ (List.mem_append_left _
    (List.mem_flatMap.2 ⟨e, List.mem_filter.2 ⟨he.1, decide_eq_true he.2⟩, hw⟩))

/-- A conflict is reported once, and by nothing else. -/
theorem countP_conflict (fp : String) : (extractionWarnings rt acc territory svcs).countP
        (fun w => w.code = skipStatusConflict ∧ w.fingerprintSHA256 = fp) =
      if conflicting rt acc svcs fp ∧ entriesOf rt acc territory svcs fp ≠ [] then 1 else 0 := by
  have hreports : Conflicts (conflicting rt acc svcs) (sortedEntries rt acc territory svcs)
      (dedupEntries rt acc territory svcs) := dedup_conflicts ..
  have hservice : (serviceWarnings rt acc territory svcs).countP
      (fun w => w.code = skipStatusConflict ∧ w.fingerprintSHA256 = fp) = 0 := by
    rw [List.countP_eq_zero]
    intro w hw
    obtain ⟨e, -, hw⟩ := List.mem_flatMap.1 hw
    rcases mem_extractService_snd hw with hcode | hcode <;> simp [hcode, skipInvalidCertificate,
      skipNoCertificate, skipStatusConflict]
  have htypes : (skippedTypeWarnings acc svcs).countP
      (fun w => w.code = skipStatusConflict ∧ w.fingerprintSHA256 = fp) = 0 := by
    rw [List.countP_eq_zero]
    intro w hw
    obtain ⟨st, -, rfl⟩ := List.mem_map.1 hw
    simp [skipStatusConflict]
  have hconflict : (dedupEntries rt acc territory svcs).warnings.countP
      (fun w => w.code = skipStatusConflict ∧ w.fingerprintSHA256 = fp) =
      (dedupEntries rt acc territory svcs).conflicted.count fp := by
    rw [← List.count_reverse, ← hreports.reported, List.count, List.countP_map]
    refine List.countP_congr fun w hw => ?_
    simp [hreports.code w hw]
  rw [extractionWarnings, List.countP_append, List.countP_append, hservice, htypes, hconflict, hreports.once.count]
  have hmem := hreports.mem fp
  have hne : entriesOf rt acc territory svcs fp ≠ [] ↔
      fp ∈ (sortedEntries rt acc territory svcs).map fun e => e.1.fingerprintSHA256 := by
    have hcomp : (sortedEntries rt acc territory svcs).map (fun e => e.1.fingerprintSHA256) =
        ((sortedEntries rt acc territory svcs).map Prod.fst).map Anchor.fingerprintSHA256 := by simp
    simp only [hcomp, List.mem_map (f := Anchor.fingerprintSHA256), mem_sortedEntries]
    simp [entriesOf, List.filter_eq_nil_iff]
  simp only [hmem, ← hne, Nat.zero_add]

/-- The certificate of an accepted service is returned, or its conflict is reported. -/
theorem returned_or_reported {e : String × ServiceInformation} (he : Admitted acc svcs e)
    (hstatus : acc.statusOK e.2) {fp : String} (hread : Reads rt e.2 fp) :
    (∃ a ∈ (dedupEntries rt acc territory svcs).returned, a.fingerprintSHA256 = fp) ∨
      ∃ w ∈ extractionWarnings rt acc territory svcs, w.code ≠ "" ∧ w.fingerprintSHA256 = fp := by
  have hfp : entriesOf rt acc territory svcs fp ≠ [] := entriesOf_ne_nil.2 ⟨e, he, hstatus, hread⟩
  cases hc : conflicting rt acc svcs fp with
  | false => exact .inl (exists_dedupEntries_iff.2 ⟨hc, hfp⟩)
  | true =>
      have hcount : 0 < (extractionWarnings rt acc territory svcs).countP
          (fun w => w.code = skipStatusConflict ∧ w.fingerprintSHA256 = fp) := by
        rw [countP_conflict, if_pos ⟨hc, hfp⟩]
        exact Nat.one_pos
      obtain ⟨w, hw, hcode⟩ := List.countP_pos_iff.1 hcount
      obtain ⟨hcode, hwfp⟩ := of_decide_eq_true hcode
      exact .inr ⟨w, hw, hcode ▸ by decide, hwfp⟩

end TrustAnchor.Trust
