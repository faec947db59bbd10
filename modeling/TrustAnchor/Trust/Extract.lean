import TrustAnchor.Lib.Slice
import TrustAnchor.Tsl.Verify
import TrustAnchor.Trust.CertBody

/-!
# Extraction of anchors from a verified trusted list
-/

namespace TrustAnchor.Trust

open Lib Tsl

variable (rt : Runtime)

def skipInvalidCertificate : String := "invalid-certificate"

def skipNoCertificate : String := "no-certificate"

def skipStatusConflict : String := "status-conflict"

/-- A skipped service has a code; an aggregate warning has none. -/
structure ExtractionWarning where
  tspName : String := ""
  serviceName : String := ""
  reason : String
  code : String := ""
  fingerprintSHA256 : String := ""
  keyAlgorithm : String := ""
  curve : String := ""
deriving DecidableEq

/-- `Skipped` -/
def skipped (warnings : List ExtractionWarning) : List SkippedService :=
  (warnings.filter fun w => w.code ≠ "").map fun w =>
    { tspName := w.tspName, serviceName := w.serviceName, reason := w.code, detail := w.reason,
      fingerprintSHA256 := w.fingerprintSHA256, keyAlgorithm := w.keyAlgorithm, curve := w.curve }

/-! ## Identities -/

/-- What extraction needs from one certificate, parsed or read structurally. -/
structure Identity where
  raw : Bytes
  fingerprintSHA256 : String
  subject : String
  notBefore : Time
  notAfter : Time
  keyAlgorithm : String
  curve : String
deriving DecidableEq

def identityFromCertificate (cert : Certificate) : Identity :=
  let (keyAlgorithm, curve) := spkiAlgorithm rt cert.raw
  { raw := cert.raw, fingerprintSHA256 := rt.sha256hex cert.raw, subject := cert.subject,
    notBefore := cert.notBefore, notAfter := cert.notAfter, keyAlgorithm, curve }

def unsupportedCurveMessage : String := "unsupported elliptic curve"

/-- One certificate of a service: an identity, or the warning that skips it. -/
def serviceIdentity (tspName serviceName : String) (der : Bytes) :
    Except ExtractionWarning Identity :=
  match rt.parseCertificate der with
  | .ok cert => .ok (identityFromCertificate rt cert)
  | .error err =>
    let w : ExtractionWarning :=
      { tspName, serviceName, code := skipInvalidCertificate,
        reason := "invalid X509 digital identity: " ++ err.msg,
        fingerprintSHA256 := rt.sha256hex der }
    -- only a key on a curve the parser does not implement is read structurally
    if !contains err.msg unsupportedCurveMessage then
      let (keyAlgorithm, curve) := spkiAlgorithm rt der
      .error { w with keyAlgorithm, curve }
    else
      match decodeCertificateBody rt der with
      | .error berr => .error { w with reason := w.reason ++ "; structural read: " ++ berr.msg }
      | .ok body =>
        .ok { raw := der, fingerprintSHA256 := w.fingerprintSHA256, subject := body.subject,
              notBefore := body.notBefore, notAfter := body.notAfter,
              keyAlgorithm := body.keyAlgorithm, curve := body.curve }

/-- `serviceIdentities` -/
def serviceIdentities (tspName serviceName : String) (sdi : ServiceDigitalIdentity) :
    List Identity × List ExtractionWarning :=
  match sdi.certificateDERs rt with
  | .error err =>
    ([], [{ tspName, serviceName, code := skipInvalidCertificate,
            reason := "invalid X509 digital identity: " ++ err.msg }])
  | .ok ders =>
    let rs := ders.map (serviceIdentity rt tspName serviceName)
    (rs.filterMap fun r => r.toOption,
      rs.filterMap fun r => match r with
        | .ok _ => none
        | .error w => some w)

/-! ## Qualifications -/

/-- Appends `u` unless it is there already. -/
def addUse (uses : List String) (u : String) : List String := if u ∈ uses then uses else uses ++ [u]

def extensionUse (ext : Extension) : Option String :=
  match ext.additionalServiceInformation with
  | none => none
  | some uri =>
    if uri = asiForeSignatures then some useSignature
    else if uri = asiForeSeals then some useSeal
    else if uri = asiForWebSiteAuthentication then some useWebsite
    else none

/-- `serviceQualifications`: qualifiers (sorted), uses and the QSCD flag. -/
def serviceQualifications (exts : List Extension) : List String × List String × Bool :=
  let qualifiers := exts.flatMap fun ext => (ext.qualifications.getD []).flatten
  let uses := (exts.filterMap extensionUse).foldl addUse []
  let qscd := qualifiers.any fun q => q = qualifierQCWithQSCD || q = qualifierQCQSCDManagedOnBehalf
  (qualifiers.insertionSort (· ≤ ·), uses, qscd)

/-- The array that the qualifiers of a service are in, with the cells that appending them one by one has left
over. -/
def qualifierArray (exts : List Extension) : List String :=
  let qualifiers := (serviceQualifications exts).1
  qualifiers ++ List.replicate (rt.sliceCap qualifiers.length - qualifiers.length) ""

/-! ## Merging -/

/-- An anchor that is kept, and the slice that its qualifiers are in. -/
structure Kept where
  anchor : Anchor
  qualifiers : Slice String

def Kept.read (arrays : Arrays String) (k : Kept) : Anchor :=
  { k.anchor with qualifiers := k.qualifiers.read arrays }

/-- `mergeDuplicateAnchor`: uses, qualifiers and the QSCD flag of the duplicate are added. The anchors of a
service have one array for their qualifiers, and `append` puts new ones into its spare cells. The uses of a
service have an array too, but no spare cell in it as long as one of the three is missing. -/
def mergeDuplicateAnchor (arrays : Arrays String) (kept : Kept) (dup : Anchor) : Arrays String × Kept :=
  let (arrays, qualifiers) := Slice.union (arrays, kept.qualifiers) dup.qualifiers
  (arrays,
    { anchor :=
        { kept.anchor with
          uses := dup.uses.foldl addUse kept.anchor.uses
          qcWithQSCD := kept.anchor.qcWithQSCD || dup.qcWithQSCD }
      qualifiers })

/-- Provider name, then service name, then fingerprint. -/
def anchorLe (a b : Anchor) : Prop :=
  if a.tspName ≠ b.tspName then a.tspName < b.tspName
  else if a.serviceName ≠ b.serviceName then a.serviceName < b.serviceName
  else a.fingerprintSHA256 ≤ b.fingerprintSHA256

instance : DecidableRel anchorLe := fun a b =>
  inferInstanceAs (Decidable (if a.tspName ≠ b.tspName then a.tspName < b.tspName
    else if a.serviceName ≠ b.serviceName then a.serviceName < b.serviceName
    else a.fingerprintSHA256 ≤ b.fingerprintSHA256))

/-- Entries of services, each with the place of its service. -/
def entryLe (x y : Anchor × Nat) : Prop := anchorLe x.1 y.1

instance : DecidableRel entryLe := fun x y => inferInstanceAs (Decidable (anchorLe x.1 y.1))

structure Dedup where
  arrays : Arrays String
  anchors : List Kept := []
  conflicted : List String := []
  warnings : List ExtractionWarning := []

/-- One anchor of the sorted list: conflicting statuses drop it with a single report, a fingerprint
already kept is merged, anything else is kept with the qualifiers of its service. -/
def dedupStep (conflicting : String → Bool) (d : Dedup) (entry : Anchor × Nat) : Dedup :=
  let a := entry.1
  let fp := a.fingerprintSHA256
  if conflicting fp then
    if fp ∈ d.conflicted then d
    else
      { d with
        conflicted := fp :: d.conflicted
        warnings := d.warnings ++
          [{ tspName := a.tspName, serviceName := a.serviceName, code := skipStatusConflict,
             fingerprintSHA256 := fp,
             reason := "conflicting statuses across duplicate service entries for certificate " ++
               fp ++ " — anchor dropped (fail closed)" }] }
  else
    match d.anchors.find? fun k => k.anchor.fingerprintSHA256 = fp with
    | some k =>
      { d with
        arrays := (mergeDuplicateAnchor d.arrays k a).1
        anchors := d.anchors.map fun k =>
          if k.anchor.fingerprintSHA256 = fp then (mergeDuplicateAnchor d.arrays k a).2 else k }
    | none => { d with anchors := d.anchors ++ [⟨a, .shared entry.2 a.qualifiers.length⟩] }

/-! ## Extraction -/

/-- What the configuration admits: service types, and the statuses of the two planes. -/
structure Accepted where
  types : List String
  statuses : List String
  national : List String

def accepted (acceptedStatuses acceptedTypes : List String) : Accepted :=
  let statuses := acceptedStatuses.map normalizeStatus
  { types := if acceptedTypes = [] then [serviceTypeCAQC] else acceptedTypes
    statuses
    national := statuses.filterMap nationalStatusEquivalent }

/-- A status of a type's plane. -/
def Accepted.statusOK (acc : Accepted) (info : ServiceInformation) : Bool :=
  info.status ∈ acc.statuses ||
    (info.typeIdentifier ∉ qualifiedSvctypes && info.status ∈ acc.national)

/-- The services of the list with the names of their providers, in document order. -/
def services (providers : List Provider) : List (String × ServiceInformation) :=
  providers.flatMap fun tsp => tsp.services.map fun svc => (localizedString tsp.name, svc)

/-- The statuses a certificate is listed under across all services of admitted types. -/
def statusesByCert (acc : Accepted) (svcs : List (String × ServiceInformation)) (fp : String) :
    List String :=
  ((svcs.filter fun e => e.2.typeIdentifier ∈ acc.types &&
      (serviceIdentities rt "" "" e.2.digitalIdentity).1.any fun id => id.fingerprintSHA256 = fp).map
    fun e => e.2.status).dedup

/-- The anchors and warnings of one service of an admitted type. -/
def extractService (acc : Accepted) (territory tspName : String) (info : ServiceInformation) :
    List Anchor × List ExtractionWarning :=
  if !acc.statusOK info then ([], [])
  else
    let name := localizedString info.name
    let (ids, warnings) := serviceIdentities rt tspName name info.digitalIdentity
    if ids = [] && warnings = [] then
      ([], [{ tspName, serviceName := name, code := skipNoCertificate,
              reason := "no X509Certificate digital identity" }])
    else
      let (qualifiers, uses, qscd) := serviceQualifications info.extensions
      (ids.map fun id =>
        { territory, source := sourceTL, tspName, serviceName := name,
          serviceType := info.typeIdentifier, status := info.status,
          statusStartingTime := info.statusStartingTime, certDER := id.raw,
          fingerprintSHA256 := id.fingerprintSHA256, subject := id.subject,
          notBefore := id.notBefore, notAfter := id.notAfter, qualifiers, qcWithQSCD := qscd, uses,
          keyAlgorithm := id.keyAlgorithm, curve := id.curve,
          type := typeKey info.typeIdentifier, useCases := [], tlSequence := 0 },
        warnings)

/-- One warning for each service type that is not admitted, with its count. -/
def skippedTypeWarnings (acc : Accepted) (svcs : List (String × ServiceInformation)) :
    List ExtractionWarning :=
  let types := (svcs.map fun e => e.2.typeIdentifier).filter fun st => st ∉ acc.types
  (types.dedup.insertionSort (· ≤ ·)).map fun st =>
    { reason := "skipped " ++ toString (types.count st) ++
        " service(s) with unaccepted service type " ++ st }

/-- The array of each service, by its place in the list. -/
def qualifierArrays (svcs : List (String × ServiceInformation)) : Arrays String :=
  fun i => match svcs[i]? with
    | some e => qualifierArray rt e.2.extensions
    | none => []

/-- `ExtractAnchors` -/
def extractAnchors (tl : TrustedList) (territory : String)
    (acceptedStatuses acceptedTypes : List String) :
    Except Err (List Anchor × List ExtractionWarning) :=
  let acc := accepted acceptedStatuses acceptedTypes
  match tl.providerList with
  | none => .error (.failure ("trust: " ++ territory ++ " trusted list has no provider list"))
  | some providers =>
    let svcs := services providers
    let extracted := (svcs.zipIdx.filter fun e => e.1.2.typeIdentifier ∈ acc.types).map fun e =>
      (extractService rt acc territory e.1.1 e.1.2, e.2)
    let sorted := rt.sortSlice.run entryLe (extracted.flatMap fun r => r.1.1.map fun a => (a, r.2))
    let conflicting := fun fp => decide (1 < (statusesByCert rt acc svcs fp).length)
    let d := sorted.foldl (dedupStep conflicting) { arrays := qualifierArrays rt svcs }
    .ok (d.anchors.map (Kept.read d.arrays),
      (extracted.flatMap fun r => r.1.2) ++ skippedTypeWarnings acc svcs ++ d.warnings)

end TrustAnchor.Trust
