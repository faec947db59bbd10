import TrustAnchor.Ingest.Symbolic
import TrustAnchor.Trust.Lemmas.Entries
import TrustAnchor.Trust.Lemmas.Filter

/-!
# What extraction returns and reports

Which certificates of a trusted list become anchors, which are reported instead, and how far the anchor
of a certificate stands for all services that list it.
-/

namespace TrustAnchor.Trust

open Lib Tsl Ingest.Symbolic

variable {rt : Runtime} {acc : Accepted} {territory : String} {svcs : List (String × ServiceInformation)}
  {tl : TrustedList} {providers : List Provider} {acceptedStatuses acceptedTypes : List String}

/-! ## Every certificate is returned or reported -/

/-- A certificate is returned exactly if an accepted service lists it and all services agree on its
status; what is not returned is reported. -/
structure Accounted (rt : Runtime) (acc : Accepted) (svcs : List (String × ServiceInformation))
    (anchors : List Anchor) (warnings : List ExtractionWarning) : Prop where
  distinct : (anchors.map Anchor.fingerprintSHA256).Nodup
  returned : ∀ fp, (∃ a ∈ anchors, a.fingerprintSHA256 = fp) ↔
    (∃ e, Admitted acc svcs e ∧ acc.statusOK e.2 ∧ Reads rt e.2 fp) ∧
      ∀ e e', Admitted acc svcs e → Admitted acc svcs e' → Reads rt e.2 fp → Reads rt e'.2 fp →
        e.2.status = e'.2.status
  conflict : ∀ fp e e' e'', Admitted acc svcs e → acc.statusOK e.2 → Reads rt e.2 fp →
    Admitted acc svcs e' → Reads rt e'.2 fp → Admitted acc svcs e'' → Reads rt e''.2 fp →
    e'.2.status ≠ e''.2.status →
      warnings.countP (fun w => w.code = skipStatusConflict ∧ w.fingerprintSHA256 = fp) = 1
  identity : ∀ e, Admitted acc svcs e → acc.statusOK e.2 → ∀ fp, Reads rt e.2 fp →
    (∃ a ∈ anchors, a.fingerprintSHA256 = fp) ∨ ∃ w ∈ warnings, w.code ≠ "" ∧ w.fingerprintSHA256 = fp
  /-- The certificates that are not read are those the parser and the structural reader refuse. -/
  refused : ∀ e, Admitted acc svcs e → acc.statusOK e.2 →
    ∀ ders, e.2.digitalIdentity.certificateDERs rt = .ok ders → ∀ der ∈ ders,
      (∃ a ∈ anchors, a.fingerprintSHA256 = rt.sha256hex der) ∨
        ∃ w ∈ warnings, w.code ≠ "" ∧ w.fingerprintSHA256 = rt.sha256hex der
  unread : ∀ e, Admitted acc svcs e → acc.statusOK e.2 → (∀ fp, ¬ Reads rt e.2 fp) →
    ∃ w ∈ warnings, w.code ≠ "" ∧ w.tspName = e.1 ∧ w.serviceName = localizedString e.2.name

theorem dedupEntries_nodup : ((dedupEntries rt acc territory svcs).returned.map Anchor.fingerprintSHA256).Nodup :=
  dedup_nodup

theorem dedupEntries_accounted :
    Accounted rt acc svcs (dedupEntries rt acc territory svcs).returned (extractionWarnings rt acc territory svcs) where
  distinct := dedupEntries_nodup
  returned fp := by
    rw [exists_dedupEntries_iff, entriesOf_ne_nil, and_comm, ← Bool.not_eq_true, conflicting_iff]
    push Not
    rfl
  conflict fp e e' e'' he hstatus hread he' hread' he'' hread'' hne := by
    rw [countP_conflict, if_pos]
    exact ⟨conflicting_iff.2 ⟨e', e'', he', he'', hread', hread'', hne⟩,
      entriesOf_ne_nil.2 ⟨e, he, hstatus, hread⟩⟩
  identity e he hstatus fp hread := returned_or_reported he hstatus hread
  refused e he hstatus ders hders der hder := by
    obtain hread | ⟨w, hw, hfp⟩ := mem_certificateDERs e.1 (localizedString e.2.name) hders hder
    · exact returned_or_reported he hstatus hread
    · refine .inr ⟨w, mem_extractionWarnings he (mem_extractService_of_identities hstatus hw), ?_, hfp⟩
      rw [(mem_serviceIdentities_snd hw).2.2]
      decide
  unread e he hstatus hnone := by
    have hids : (serviceIdentities rt e.1 (localizedString e.2.name) e.2.digitalIdentity).1 = [] := by
      rw [serviceIdentities_fst, List.eq_nil_iff_forall_not_mem]
      exact fun id hid => hnone _ ⟨id, hid, rfl⟩
    cases hws : (serviceIdentities rt e.1 (localizedString e.2.name) e.2.digitalIdentity).2 with
    | nil =>
        refine ⟨noCertificateWarning e.1 e.2, mem_extractionWarnings he ?_, (by decide : skipNoCertificate ≠ ""), rfl,
          rfl⟩
        rw [extractService_snd hstatus]
        simp [hids, hws]
    | cons w ws =>
        have hw : w ∈ (serviceIdentities rt e.1 (localizedString e.2.name) e.2.digitalIdentity).2 := by simp [hws]
        obtain ⟨htsp, hname, hcode⟩ := mem_serviceIdentities_snd hw
        refine ⟨w, mem_extractionWarnings he (mem_extractService_of_identities hstatus hw), ?_, htsp, hname⟩
        rw [hcode]
        decide

theorem extractAnchors_accounted (hproviders : tl.providerList = some providers) :
    ∃ anchors warnings, extractAnchors rt tl territory acceptedStatuses acceptedTypes = .ok (anchors, warnings) ∧
      Accounted rt (accepted acceptedStatuses acceptedTypes) (services providers) anchors warnings :=
  ⟨_, _, extractAnchors_eq hproviders territory acceptedStatuses acceptedTypes, dedupEntries_accounted⟩

/-- One certificate that is granted and withdrawn, one that is granted, and a service without any. -/
def grantedAndWithdrawn : List ServiceInformation :=
  [service "A" serviceTypeCAQC "granted" ["K", "M"] [], service "B" serviceTypeCAQC "withdrawn" ["K"] [],
    service "C" serviceTypeCAQC "granted" [] []]

/-- The conflict is reported once, the certificate beside it is returned, and the service without a certificate is
reported by its name. -/
theorem extractAnchors_accounted_conflict :
    ∃ anchors warnings, extractAnchors (World.mk [] []).runtime (offering grantedAndWithdrawn) "EE" ["granted"] [] =
        .ok (anchors, warnings) ∧
      (¬∃ a ∈ anchors, a.fingerprintSHA256 = "4b") ∧ (∃ a ∈ anchors, a.fingerprintSHA256 = "4d") ∧
      warnings.countP (fun w => w.code = skipStatusConflict ∧ w.fingerprintSHA256 = "4b") = 1 ∧
      ∃ w ∈ warnings, w.code ≠ "" ∧ w.tspName = "P" ∧ w.serviceName = "C" := by
  have hproviders : (offering grantedAndWithdrawn).providerList = some (provider grantedAndWithdrawn) := rfl
  have haccounted : ∃ anchors warnings,
      extractAnchors (World.mk [] []).runtime (offering grantedAndWithdrawn) "EE" ["granted"] [] =
        .ok (anchors, warnings) ∧ Accounted (World.mk [] []).runtime (accepted ["granted"] [])
          (services (provider grantedAndWithdrawn)) anchors warnings := extractAnchors_accounted hproviders
  obtain ⟨anchors, warnings, hextract, haccounted⟩ := haccounted
  let svcs := services (provider grantedAndWithdrawn)
  have hgranted : ∀ e ∈ svcs, Reads (World.mk [] []).runtime e.2 "4d" → e.2.status = statusBase ++ "granted" := by
    decide +kernel
  have hnone : (serviceIdentities (World.mk [] []).runtime "" "" svcs[2].2.digitalIdentity).1 = [] := by decide +kernel
  refine ⟨anchors, warnings, hextract, fun hreturned => ?_, ?_, ?_, ?_⟩
  · have hagree := ((haccounted.returned "4b").1 hreturned).2 svcs[0] svcs[1]
    revert hagree
    decide +kernel
  · refine (haccounted.returned "4d").2 ⟨⟨svcs[0], by decide +kernel⟩, ?_⟩
    intro e e' he he' hread hread'
    rw [hgranted e he.1 hread, hgranted e' he'.1 hread']
  · exact haccounted.conflict "4b" svcs[0] svcs[0] svcs[1] (by decide +kernel) (by decide +kernel) (by decide +kernel)
      (by decide +kernel) (by decide +kernel) (by decide +kernel) (by decide +kernel) (by decide +kernel)
  · obtain ⟨w, hw, hcode, htsp, hname⟩ := haccounted.unread svcs[2] (by decide +kernel) (by decide +kernel) (by
      rintro fp ⟨id, hid, -⟩
      rw [hnone] at hid
      cases hid)
    exact ⟨w, hw, hcode, htsp, hname⟩

/-! ## The certificates of one service -/

/-- All certificates of the identities decode. -/
def Decodable (rt : Runtime) (ids : List DigitalID) : Prop :=
  ∀ id ∈ ids, id.x509Certificate ≠ "" → ∃ der, rt.decodeBase64 (stripWhiteSpace id.x509Certificate) = .ok der

/-- None of the identities is a certificate. -/
def NoCertificate (ids : List DigitalID) : Prop := ∀ id ∈ ids, id.x509Certificate = ""

theorem certificateDERs_append (rt : Runtime) (xs ys : List DigitalID) :
    (ServiceDigitalIdentity.mk (xs ++ ys)).certificateDERs rt = (do
      let ders ← (ServiceDigitalIdentity.mk xs).certificateDERs rt
      let ders' ← (ServiceDigitalIdentity.mk ys).certificateDERs rt
      return ders ++ ders') := by
  simp [ServiceDigitalIdentity.certificateDERs, List.mapM_append]

theorem certificateDERs_ok {ids : List DigitalID} :
    (∃ ders, (ServiceDigitalIdentity.mk ids).certificateDERs rt = .ok ders) ↔ Decodable rt ids := by
  unfold ServiceDigitalIdentity.certificateDERs Decodable
  rw [Result.exists_mapM_ok]
  simp only [List.mem_filter, decide_eq_true_eq, and_imp]
  refine forall₃_congr fun id _ _ => exists_congr fun der => ?_
  cases rt.decodeBase64 (stripWhiteSpace id.x509Certificate) <;> simp

theorem certificateDERs_nil (rt : Runtime) {ids : List DigitalID} :
    (ServiceDigitalIdentity.mk ids).certificateDERs rt = .ok [] ↔ NoCertificate ids := by
  unfold ServiceDigitalIdentity.certificateDERs NoCertificate
  rw [Result.mapM_eq_ok, List.forall₂_nil_right_iff, List.filter_eq_nil_iff]
  simp

/-- What is read from certificates that decode, and what is reported. -/
def readCertificates (rt : Runtime) (tspName serviceName : String) (ders : List Bytes) :
    List Identity × List ExtractionWarning :=
  (ders.filterMap fun der => (serviceIdentity rt tspName serviceName der).toOption,
    ders.filterMap fun der => match serviceIdentity rt tspName serviceName der with
      | .ok _ => none
      | .error w => some w)

theorem readCertificates_append (tspName serviceName : String) (ders ders' : List Bytes) :
    readCertificates rt tspName serviceName (ders ++ ders') =
      ((readCertificates rt tspName serviceName ders).1 ++ (readCertificates rt tspName serviceName ders').1,
        (readCertificates rt tspName serviceName ders).2 ++ (readCertificates rt tspName serviceName ders').2) := by
  simp [readCertificates]

theorem readCertificates_eq_nil {tspName serviceName : String} {ders : List Bytes} :
    (readCertificates rt tspName serviceName ders).1 = [] ∧
      (readCertificates rt tspName serviceName ders).2 = [] ↔ ders = [] := by
  constructor
  · rintro ⟨hids, hws⟩
    simp only [readCertificates, List.filterMap_eq_nil_iff] at hids hws
    refine List.eq_nil_iff_forall_not_mem.2 fun der hder => ?_
    have hid := hids der hder
    have hw := hws der hder
    cases hs : serviceIdentity rt tspName serviceName der with
    | ok id =>
        rw [hs] at hid
        cases hid
    | error w =>
        rw [hs] at hw
        cases hw
  · rintro rfl
    exact ⟨rfl, rfl⟩

theorem serviceIdentities_of_ok {tspName serviceName : String} {sdi : ServiceDigitalIdentity} {ders : List Bytes}
    (h : sdi.certificateDERs rt = .ok ders) :
    serviceIdentities rt tspName serviceName sdi = readCertificates rt tspName serviceName ders := by
  simp only [serviceIdentities, h, readCertificates, List.filterMap_map]
  rfl

theorem serviceIdentities_of_error {tspName serviceName : String} {sdi : ServiceDigitalIdentity} {err : Err}
    (h : sdi.certificateDERs rt = .error err) :
    serviceIdentities rt tspName serviceName sdi =
      ([], [{ tspName, serviceName, code := skipInvalidCertificate
              reason := "invalid X509 digital identity: " ++ err.msg }]) := by
  simp only [serviceIdentities, h]

/-- The identities of a service are independent as long as all of them decode: the first that does not
leaves nothing of the others. -/
theorem serviceIdentities_append_iff {tspName serviceName : String} {xs ys : List DigitalID} :
    serviceIdentities rt tspName serviceName ⟨xs ++ ys⟩ =
        ((serviceIdentities rt tspName serviceName ⟨xs⟩).1 ++ (serviceIdentities rt tspName serviceName ⟨ys⟩).1,
          (serviceIdentities rt tspName serviceName ⟨xs⟩).2 ++ (serviceIdentities rt tspName serviceName ⟨ys⟩).2) ↔
      Decodable rt xs ∧ Decodable rt ys ∨ NoCertificate xs ∨ NoCertificate ys := by
  have happend := certificateDERs_append rt xs ys
  simp only [← certificateDERs_ok, ← certificateDERs_nil rt]
  cases hxs : (ServiceDigitalIdentity.mk xs).certificateDERs rt with
  | ok ders =>
      cases hys : (ServiceDigitalIdentity.mk ys).certificateDERs rt with
      | ok ders' =>
          rw [hxs, hys] at happend
          rw [serviceIdentities_of_ok happend, serviceIdentities_of_ok hxs, serviceIdentities_of_ok hys]
          simp [readCertificates_append]
      | error err =>
          rw [hxs, hys] at happend
          rw [serviceIdentities_of_error happend, serviceIdentities_of_ok hxs, serviceIdentities_of_error hys]
          simpa using readCertificates_eq_nil
  | error err =>
      rw [hxs] at happend
      rw [serviceIdentities_of_error happend, serviceIdentities_of_error hxs]
      cases hys : (ServiceDigitalIdentity.mk ys).certificateDERs rt with
      | ok ders' =>
          rw [serviceIdentities_of_ok hys]
          simpa using readCertificates_eq_nil
      | error err' =>
          rw [serviceIdentities_of_error hys]
          simp

/-- A runtime in which `!` is no base64. -/
def strictBase64 : Runtime :=
  { (World.mk [] []).runtime with decodeBase64 := fun s => if s = "!" then .error "illegal data" else .ok (ofText s) }

/-- The certificate beside an identity that does not decode is gone, and with it the conflict that keeps
a withdrawn certificate from being served. -/
theorem serviceIdentities_append_undecodable :
    (serviceIdentities strictBase64 "P" "B" ⟨[⟨"K"⟩]⟩).1 ≠ [] ∧
      (serviceIdentities strictBase64 "P" "B" ⟨[⟨"K"⟩] ++ [⟨"!"⟩]⟩).1 = [] ∧
      ((extractAnchors strictBase64 (offering [service "A" serviceTypeCAQC "granted" ["K"] [],
          service "B" serviceTypeCAQC "withdrawn" ["K"] []]) "EE" ["granted"] []).map fun r => r.1.length) = .ok 0 ∧
      ((extractAnchors strictBase64 (offering [service "A" serviceTypeCAQC "granted" ["K"] [],
          service "B" serviceTypeCAQC "withdrawn" ["K", "!"] []]) "EE" ["granted"] []).map fun r => r.1.length) =
        .ok 1 := by
  decide +kernel

/-! ## Uses -/

/-- The use that an anchor has to list for it to be in the bundle of `use`. -/
def listedUse (use : String) : String := if use = useAuthentication then useSignature else use

theorem matchesUse_iff {a : Anchor} {use : String} :
    a.matchesUse use ↔ use = "" ∨ a.uses = [] ∨ listedUse use ∈ a.uses := by
  unfold Anchor.matchesUse listedUse
  by_cases huse : use = "" <;> by_cases hnone : a.uses = [] <;> simp [huse, hnone]
  split_ifs <;> simp

/-- An anchor with the uses of its entries is in the bundles of all of them exactly if no entry for all uses is merged
with entries for others only. -/
theorem matchesUse_merged_iff {k : Anchor} {own : List Anchor} (hne : own ≠ [])
    (huses : ∀ u, u ∈ k.uses ↔ ∃ a ∈ own, u ∈ a.uses) (use : String) :
    (k.matchesUse use ↔ ∃ a ∈ own, a.matchesUse use) ↔
      ((∃ a ∈ own, a.uses = []) → (∀ a ∈ own, a.uses = []) ∨ ∃ a ∈ own, a.uses ≠ [] ∧ a.matchesUse use) := by
  obtain ⟨a₀, ha₀⟩ := List.exists_mem_of_ne_nil own hne
  have hnone : k.uses = [] ↔ ∀ a ∈ own, a.uses = [] := by
    simp only [List.eq_nil_iff_forall_not_mem, huses, not_exists, not_and]
    exact forall_comm.trans (forall_congr' fun a => forall_comm)
  simp only [matchesUse_iff, hnone, huses]
  by_cases huse : use = ""
  · simp only [huse, true_or, and_true, true_iff]
    refine iff_of_true ⟨a₀, ha₀⟩ fun _ => ?_
    by_cases hall : ∀ a ∈ own, a.uses = []
    · exact .inl hall
    · push Not at hall
      exact .inr hall
  simp only [huse, false_or]
  constructor
  · rintro hiff ⟨a, ha, hempty⟩
    rcases hiff.2 ⟨a, ha, .inl hempty⟩ with hall | ⟨b, hb, hlisted⟩
    · exact .inl hall
    · exact .inr ⟨b, hb, List.ne_nil_of_mem hlisted, .inr hlisted⟩
  · intro hcovered
    constructor
    · rintro (hall | ⟨b, hb, hlisted⟩)
      · exact ⟨a₀, ha₀, .inl (hall a₀ ha₀)⟩
      · exact ⟨b, hb, .inr hlisted⟩
    · rintro ⟨a, ha, hempty | hlisted⟩
      · rcases hcovered ⟨a, ha, hempty⟩ with hall | ⟨b, hb, hne, hmatch⟩
        · exact .inl hall
        · exact .inr ⟨b, hb, hmatch.resolve_left hne⟩
      · exact .inr ⟨a, ha, hlisted⟩

/-- The certificate is in the bundles of all its entries as long as no entry for all uses is merged with
entries for some; where it is, a use is lost unless another entry lists it. The qualifiers are those of the
entries as long as no other certificate of the same service has its own put in their place. -/
theorem merged_uses_iff {anchors : List Anchor} {warnings : List ExtractionWarning}
    (hproviders : tl.providerList = some providers)
    (h : extractAnchors rt tl territory acceptedStatuses acceptedTypes = .ok (anchors, warnings))
    {k : Anchor} (hk : k ∈ anchors) (use : String) :
    let acc := accepted acceptedStatuses acceptedTypes
    let own := entriesOf rt acc territory (services providers) k.fingerprintSHA256
    let preserved := (k.matchesUse use ↔ ∃ a ∈ own, a.matchesUse use) ∧
      (k.qcWithQSCD ↔ ∃ a ∈ own, a.qcWithQSCD) ∧ ∀ q, q ∈ k.qualifiers ↔ ∃ a ∈ own, q ∈ a.qualifiers
    let covered := (∃ a ∈ own, a.uses = []) →
      (∀ a ∈ own, a.uses = []) ∨ ∃ a ∈ own, a.uses ≠ [] ∧ a.matchesUse use
    (Undisturbed rt acc territory (services providers) k.fingerprintSHA256 → (preserved ↔ covered)) ∧
      (preserved → covered) := by
  rw [extractAnchors_eq hproviders] at h
  obtain ⟨rfl, -⟩ := Prod.mk.inj (Except.ok.inj h)
  obtain ⟨huses, hqscd, hqualifiers, a₀, ha₀, -⟩ := merged_entries hk
  intro acc own preserved covered
  have hiff : (k.matchesUse use ↔ ∃ a ∈ own, a.matchesUse use) ↔ covered :=
    matchesUse_merged_iff (List.ne_nil_of_mem ha₀) huses use
  refine ⟨fun hfree => ?_, fun h => hiff.1 h.1⟩
  rw [← hiff]
  exact and_iff_left ⟨hqscd, hqualifiers hfree⟩

/-- Two services of one certificate: the first is qualified for seals, the second is not qualified and so
stands for all uses. -/
def sealAndAll : List ServiceInformation :=
  [service "A" serviceTypeCAQC "granted" ["K"] [fore asiForeSeals], service "B" serviceTypeCAQC "granted" ["K"] []]

/-- A service of two certificates with a spare cell behind its three qualifiers, and another service for each of
the certificates, with one qualifier more. -/
def spareCell : List ServiceInformation :=
  [service "A" serviceTypeCAQC "granted" ["K", "M"] [qualified ["a", "b", "c"]],
    service "B" serviceTypeCAQC "granted" ["K"] [qualified ["x"]],
    service "C" serviceTypeCAQC "granted" ["M"] [qualified ["y"]]]

/-- A service alone is in the bundle for signatures, and the merged anchor is not. The qualifier `x` of one
certificate is replaced by the `y` of another. -/
theorem merged_uses_seal_and_all :
    ((extractAnchors (World.mk [] []).runtime (offering sealAndAll) "EE" ["granted"] []).map fun r =>
        r.1.map fun a => (a.uses, a.matchesUse useSignature)) = .ok [([useSeal], false)] ∧
      (entries (World.mk [] []).runtime (accepted ["granted"] []) "EE" (services (provider sealAndAll))).map
        (fun a => a.matchesUse useSignature) = [false, true] ∧
      ((extractAnchors (World.mk [] []).runtime (offering spareCell) "EE" ["granted"] []).map fun r =>
        r.1.map fun a => (a.fingerprintSHA256, a.qualifiers)) =
          .ok [("4b", ["a", "b", "c", "y"]), ("4d", ["a", "b", "c", "y"])] ∧
      (entries (World.mk [] []).runtime (accepted ["granted"] []) "EE" (services (provider spareCell))).map
        (fun a => (a.fingerprintSHA256, a.qualifiers)) =
          [("4b", ["a", "b", "c"]), ("4d", ["a", "b", "c"]), ("4b", ["x"]), ("4d", ["y"])] := by
  decide +kernel

/-- Two qualified services of one certificate. -/
def sealAndSignature : List ServiceInformation :=
  [service "A" serviceTypeCAQC "granted" ["K"] [fore asiForeSeals, qualified ["a", "b", "c"]],
    service "B" serviceTypeCAQC "granted" ["K"] [fore asiForeSignatures, qualified ["x"]]]

/-- With one certificate there is nothing that its qualifiers could be replaced by. -/
theorem sealAndSignature_undisturbed (fp : String) : Undisturbed (World.mk [] []).runtime (accepted ["granted"] []) "EE"
    (services (provider sealAndSignature)) fp := by
  have hone : ∀ v ∈ keptVisits (conflicting (World.mk [] []).runtime (accepted ["granted"] [])
      (services (provider sealAndSignature))) (sortedEntries (World.mk [] []).runtime (accepted ["granted"] []) "EE"
        (services (provider sealAndSignature))), v.key = "4b" := by decide +kernel
  refine fun i _ => clashless_of_sole fun k k' hk hk' => ?_
  obtain ⟨v, hv, rfl, -⟩ := mem_of_home hk
  obtain ⟨v', hv', rfl, -⟩ := mem_of_home hk'
  rw [hone v hv, hone v' hv']

theorem merged_uses_seal_and_signature :
    ∃ anchors warnings, extractAnchors (World.mk [] []).runtime (offering sealAndSignature) "EE" ["granted"] [] =
        .ok (anchors, warnings) ∧ anchors.map Anchor.fingerprintSHA256 = ["4b"] ∧
      ∀ k ∈ anchors, k.matchesUse useSeal ∧ k.matchesUse useSignature ∧ "a" ∈ k.qualifiers ∧ "x" ∈ k.qualifiers := by
  have hproviders : (offering sealAndSignature).providerList = some (provider sealAndSignature) := rfl
  have hextract := @extractAnchors_eq (World.mk [] []).runtime _ _ hproviders "EE" ["granted"] []
  have hfps : (dedupEntries (World.mk [] []).runtime (accepted ["granted"] []) "EE"
      (services (provider sealAndSignature))).returned.map Anchor.fingerprintSHA256 = ["4b"] := by decide +kernel
  refine ⟨_, _, hextract, hfps, fun k hk => ?_⟩
  have hfp : k.fingerprintSHA256 = "4b" := by simpa [hfps] using List.mem_map_of_mem (f := Anchor.fingerprintSHA256) hk
  have hmerged := fun use => merged_uses_iff hproviders hextract hk use
  simp only [hfp] at hmerged
  have hseal := ((hmerged useSeal).1 (sealAndSignature_undisturbed _)).2 (by decide +kernel)
  have hsignature := ((hmerged useSignature).1 (sealAndSignature_undisturbed _)).2 (by decide +kernel)
  refine ⟨hseal.1.2 (by decide +kernel), hsignature.1.2 (by decide +kernel), ?_, ?_⟩
  · exact (hseal.2.2 "a").2 (by decide +kernel)
  · exact (hseal.2.2 "x").2 (by decide +kernel)

/-! ## Roles -/

theorem mem_served {s : Snapshot} {a : Anchor} :
    a ∈ s.served ↔ (∃ t ∈ s.territories, a ∈ t.anchors) ∨ a ∈ s.internal := by
  simp [Snapshot.served]

/-- The snapshot serves the extracted anchors as those of one territory, with the sequence of its list. -/
def Serves (s : Snapshot) (anchors : List Anchor) : Prop :=
  ∃ t ∈ s.territories, ∃ n, t.anchors = anchors.map fun a => { a with tlSequence := n }

/-- A snapshot of one territory and nothing declared. -/
def servingOnly (anchors : List Anchor) : Snapshot :=
  { id := "", prevID := "", generatedAt := 0, lotlSequence := 0, lotlIssueTime := 0, lotlNextUpdate := none
    lotlSignersDER := [], lotlPivotSeq := 0, lotlDigest := "", lotlPointers := [], advertisedOJ := ""
    bootstrapOJRef := "", bootstrapVersion := 0
    territories := [{ code := "", anchors := anchors.map fun a => { a with tlSequence := 0 } }]
    internal := [], pending := [], diff := none, declaredLoad := none }

/-- An accepted service lists the certificate, and all services agree on its status. -/
structure Offers (rt : Runtime) (acc : Accepted) (svcs : List (String × ServiceInformation))
    (e : String × ServiceInformation) (fp : String) : Prop where
  admitted : Admitted acc svcs e
  statusOK : acc.statusOK e.2
  reads : Reads rt e.2 fp
  agreed : conflicting rt acc svcs fp = false

/-- A certificate is in the bundles of all types that services offer it under exactly if that is one type
for each certificate: the anchor has the type of the first entry. -/
theorem bundle_of_own_type_iff {anchors : List Anchor} {warnings : List ExtractionWarning}
    (hproviders : tl.providerList = some providers)
    (h : extractAnchors rt tl territory acceptedStatuses acceptedTypes = .ok (anchors, warnings)) :
    (∀ s, Serves s anchors → ∀ e fp,
        Offers rt (accepted acceptedStatuses acceptedTypes) (services providers) e fp →
        ∃ bundle, filter rt s (typeQuery (typeKey e.2.typeIdentifier)) = .ok bundle ∧
          ∃ a ∈ bundle, a.fingerprintSHA256 = fp) ↔
      ∀ e e' fp, Offers rt (accepted acceptedStatuses acceptedTypes) (services providers) e fp →
        Offers rt (accepted acceptedStatuses acceptedTypes) (services providers) e' fp →
        typeKey e.2.typeIdentifier = typeKey e'.2.typeIdentifier := by
  rw [extractAnchors_eq hproviders] at h
  obtain ⟨rfl, -⟩ := Prod.mk.inj (Except.ok.inj h)
  generalize accepted acceptedStatuses acceptedTypes = acc
  generalize services providers = svcs
  constructor
  · intro hbundle e e' fp he he'
    -- in a snapshot with nothing else, the certificate has one anchor
    have hanchor : ∀ e, Offers rt acc svcs e fp → ∃ a ∈ (dedupEntries rt acc territory svcs).returned,
        a.fingerprintSHA256 = fp ∧ a.type = typeKey e.2.typeIdentifier := by
      intro e he
      obtain ⟨bundle, hfilter, b, hb, hfp⟩ := hbundle (servingOnly _) ⟨_, List.mem_singleton_self _, 0, rfl⟩ e fp he
      obtain rfl := Except.ok.inj (hfilter.symm.trans (filter_typeQuery (typeKey_valid e.2.typeIdentifier)))
      obtain ⟨hserved, htype⟩ := List.mem_filter.1 hb
      simp only [mem_served, servingOnly, List.mem_singleton, exists_eq_left, List.not_mem_nil, or_false] at hserved
      obtain ⟨a, ha, rfl⟩ := List.mem_map.1 hserved
      exact ⟨a, ha, hfp, of_decide_eq_true htype⟩
    obtain ⟨a, ha, hfp, htype⟩ := hanchor e he
    obtain ⟨a', ha', hfp', htype'⟩ := hanchor e' he'
    obtain rfl := List.inj_on_of_nodup_map dedupEntries_nodup ha ha' (hfp.trans hfp'.symm)
    exact htype.symm.trans htype'
  · intro hsame s hs e fp he
    obtain ⟨t, ht, n, hanchors⟩ := hs
    obtain ⟨k, hk, rfl⟩ := exists_dedupEntries_iff.2
      ⟨he.agreed, entriesOf_ne_nil.2 ⟨e, he.admitted, he.statusOK, he.reads⟩⟩
    obtain ⟨-, -, -, a, ha, htype⟩ := merged_entries hk
    obtain ⟨ha, hfp⟩ := mem_entriesOf.1 ha
    obtain ⟨e', he', hstatus', id, hid, rfl⟩ := mem_entries.1 ha
    have hkey := hsame e e' _ he ⟨he', hstatus', ⟨id, hid, hfp⟩, he.agreed⟩
    refine ⟨_, filter_typeQuery (typeKey_valid e.2.typeIdentifier), { k with tlSequence := n },
      List.mem_filter.2 ⟨mem_served_territory ht ?_, decide_eq_true ?_⟩, rfl⟩
    · rw [hanchors]
      exact List.mem_map_of_mem hk
    · exact htype.symm.trans hkey.symm

/-- One certificate under two types. -/
def twoRoles : List ServiceInformation :=
  [service "A" serviceTypeCAQC "granted" ["K"] [], service "B" (svctypeBase ++ "EAA/Q") "granted" ["K"] []]

/-- The second service is accepted, and its certificate is not in the bundle of its type. -/
theorem bundle_of_own_type_two_roles :
    (extractAnchors (World.mk [] []).runtime (offering twoRoles) "EE" ["granted"]
        [serviceTypeCAQC, svctypeBase ++ "EAA/Q"]).map (fun r =>
      (r.1.map Anchor.type,
        (filter (World.mk [] []).runtime (servingOnly r.1) (typeQuery "qeaa_provider")).toOption.map List.length)) =
        .ok ([""], some 0) ∧
      (entries (World.mk [] []).runtime (accepted ["granted"] [serviceTypeCAQC, svctypeBase ++ "EAA/Q"]) "EE"
        (services (provider twoRoles))).map (fun a => (a.fingerprintSHA256, a.type)) =
          [("4b", ""), ("4b", "qeaa_provider")] := by
  decide +kernel

/-- Two services of one type share a certificate, and it is in the bundle of that type. -/
theorem bundle_of_own_type_one_role :
    ∃ anchors warnings, extractAnchors (World.mk [] []).runtime (offering sealAndSignature) "EE" ["granted"] [] =
        .ok (anchors, warnings) ∧
      ∃ bundle, filter (World.mk [] []).runtime (servingOnly anchors) (typeQuery "") = .ok bundle ∧
        ∃ a ∈ bundle, a.fingerprintSHA256 = "4b" := by
  have hproviders : (offering sealAndSignature).providerList = some (provider sealAndSignature) := rfl
  have hextract := @extractAnchors_eq (World.mk [] []).runtime _ _ hproviders "EE" ["granted"] []
  refine ⟨_, _, hextract, ?_⟩
  have hone : ∀ e fp, Offers (World.mk [] []).runtime (accepted ["granted"] []) (services (provider sealAndSignature))
      e fp → e.2.typeIdentifier = serviceTypeCAQC := fun e fp he => List.mem_singleton.1 he.admitted.2
  refine (bundle_of_own_type_iff hproviders hextract).2 (fun e e' fp he he' => ?_) (servingOnly _)
    ⟨_, List.mem_singleton_self _, 0, rfl⟩ ("P", sealAndSignature.head (by decide)) "4b" ?_
  · rw [hone e fp he, hone e' fp he']
  · exact ⟨by decide +kernel, by decide +kernel, by decide +kernel, by decide +kernel⟩

end TrustAnchor.Trust
