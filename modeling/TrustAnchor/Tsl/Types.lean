import TrustAnchor.Basic

/-!
# Trusted lists and certificates

The parsed ETSI TS 119 612 document, with the elements that verification, pointer lookup and
extraction read, and the certificate fields the service uses.
-/

namespace TrustAnchor.Tsl

def tslTypeEUListOfTheLists : String :=
  "http://uri.etsi.org/TrstSvc/TrustedList/TSLType/EUlistofthelists"

def mimeTypeTSLXML : String := "application/vnd.etsi.tsl+xml"

def serviceTypeCAQC : String := "http://uri.etsi.org/TrstSvc/Svctype/CA/QC"

def qualifierQCWithQSCD : String := "http://uri.etsi.org/TrstSvc/TrustedList/SvcInfoExt/QCWithQSCD"

def qualifierQCQSCDManagedOnBehalf : String :=
  "http://uri.etsi.org/TrstSvc/TrustedList/SvcInfoExt/QCQSCDManagedOnBehalf"

def asiForeSignatures : String := "http://uri.etsi.org/TrstSvc/TrustedList/SvcInfoExt/ForeSignatures"

def asiForeSeals : String := "http://uri.etsi.org/TrstSvc/TrustedList/SvcInfoExt/ForeSeals"

def asiForWebSiteAuthentication : String :=
  "http://uri.etsi.org/TrstSvc/TrustedList/SvcInfoExt/ForWebSiteAuthentication"

/-! ## Certificates -/

/-- What the service reads off a certificate besides its bytes. -/
structure CertificateInfo where
  /-- `Subject.String()` -/
  subject : String
  commonName : String
  notBefore : Time
  notAfter : Time
deriving DecidableEq

/-- `x509.Certificate`; `raw` is its complete DER. -/
structure Certificate extends CertificateInfo where
  raw : Bytes
deriving DecidableEq

/-- `certInSet`: byte-identical membership. -/
def certInSet (c : Certificate) (set : List Certificate) : Bool := set.any fun s => s.raw = c.raw

/-- `certsDER` -/
def certsDER (certs : List Certificate) : List Bytes := certs.map (·.raw)

/-! ## The document -/

structure OtherInformation where
  tslType : String
  schemeTerritory : String
  mimeType : String
deriving DecidableEq

structure DigitalID where
  x509Certificate : String
deriving DecidableEq

structure ServiceDigitalIdentity where
  digitalIDs : List DigitalID
deriving DecidableEq

/-- `OtherTSLPointer`: where another list is and which certificates sign it. -/
structure TSLPointer where
  serviceDigitalIdentities : List ServiceDigitalIdentity
  tslLocation : String
  additionalInformation : List OtherInformation
deriving DecidableEq

structure SchemeInformation where
  tslSequenceNumber : Nat
  tslType : String
  schemeTerritory : String
  schemeInformationURI : List String
  listIssueDateTime : Time
  nextUpdate : Option Time
  pointersToOtherTSL : List TSLPointer
deriving DecidableEq

structure LocalizedName where
  lang : String
  value : String
deriving DecidableEq

abbrev LocalizedText := List LocalizedName

/-- `LocalizedText.String`: the English name when present, otherwise the first one. -/
def localizedString (t : LocalizedText) : String :=
  match t.find? fun n => n.lang = "en" with
  | some n => n.value
  | none => match t with
    | n :: _ => n.value
    | [] => ""

structure Extension where
  /-- `AdditionalServiceInformation.URI` -/
  additionalServiceInformation : Option String
  /-- `Qualifications`: the qualifier URIs of each element. -/
  qualifications : Option (List (List String))
deriving DecidableEq

structure ServiceInformation where
  typeIdentifier : String
  name : LocalizedText
  digitalIdentity : ServiceDigitalIdentity
  status : String
  statusStartingTime : Time
  extensions : List Extension
deriving DecidableEq

structure Provider where
  name : LocalizedText
  services : List ServiceInformation
deriving DecidableEq

structure TrustedList where
  schemeInformation : SchemeInformation
  providerList : Option (List Provider)
deriving DecidableEq

/-! ## What a pointer says about its list -/

namespace TSLPointer

def territory (p : TSLPointer) : String :=
  firstNonEmpty (p.additionalInformation.map (·.schemeTerritory))

def mimeType (p : TSLPointer) : String := firstNonEmpty (p.additionalInformation.map (·.mimeType))

def tslType (p : TSLPointer) : String := firstNonEmpty (p.additionalInformation.map (·.tslType))

end TSLPointer

namespace TrustedList

/-- `ErrNoXMLPointer` -/
def errNoXMLPointer (territory : String) : Err :=
  .failure ("tsl: no XML trusted-list pointer for territory " ++ territory.quote)

/-- `PointerFor`: the first XML pointer with the territory, whatever list type it names. -/
def pointerFor (tl : TrustedList) (territory : String) : Except Err TSLPointer :=
  match tl.schemeInformation.pointersToOtherTSL.find? fun p =>
      p.territory = territory && p.mimeType = mimeTypeTSLXML with
  | some p => .ok p
  | none => .error (errNoXMLPointer territory)

theorem pointerFor_mem {tl : TrustedList} {territory : String} {p : TSLPointer}
    (h : tl.pointerFor territory = .ok p) : p ∈ tl.schemeInformation.pointersToOtherTSL := by
  unfold pointerFor at h
  split at h
  · rename_i hfind
    cases h
    exact List.mem_of_find?_eq_some hfind
  · cases h

/-- `Territories`: the codes with an XML pointer that is not the list's self-pointer, sorted. -/
def territories (tl : TrustedList) : List String :=
  let pointers := tl.schemeInformation.pointersToOtherTSL.filter fun p =>
    p.mimeType = mimeTypeTSLXML && p.tslType ≠ tslTypeEUListOfTheLists && p.territory ≠ ""
  (pointers.map (·.territory)).dedup.insertionSort (· ≤ ·)

/-- `SelfPointer`: it carries the current signer set of the list of the lists. -/
def selfPointer (tl : TrustedList) : Except Err TSLPointer :=
  match tl.schemeInformation.pointersToOtherTSL.find? fun p =>
      p.tslType = tslTypeEUListOfTheLists && p.mimeType = mimeTypeTSLXML with
  | some p => .ok p
  | none => .error (.failure "tsl: LOTL self pointer (TSLType EUlistofthelists) not found")

end TrustedList

end TrustAnchor.Tsl
