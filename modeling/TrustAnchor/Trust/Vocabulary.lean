import TrustAnchor.Trust.Types

/-!
# Anchor types, uses, key kinds and statuses
-/

namespace TrustAnchor.Trust

/-- `AnchorTypes`: the closed EUDI taxonomy. -/
def anchorTypes : List String :=
  ["pid_provider", "qeaa_provider", "pub_eaa_provider", "eaa_provider", "wallet_provider",
    "access_ca", "wrprc_issuer", "pid_provider_status", "qeaa_provider_status",
    "pub_eaa_provider_status", "eaa_provider_status"]

def validAnchorType (t : String) : Bool := t ∈ anchorTypes

def useSignature : String := "signature"

def useAuthentication : String := "authentication"

def useSeal : String := "seal"

def useWebsite : String := "website"

def validUses : List String := [useSignature, useAuthentication, useSeal, useWebsite]

def validUse (use : String) : Bool := use = "" || use ∈ validUses

def keysCommon : String := "common"

def keysAll : String := "all"

def validKeys (keys : String) : Bool := keys = "" || keys = keysCommon || keys = keysAll

/-! ## Identifiers -/

def loteTypeBase : String := "http://uri.etsi.org/19602/LoTEType/"

def svctypeBase : String := "http://uri.etsi.org/TrstSvc/Svctype/"

def typeIdentifiers : List (String × String) :=
  [("", svctypeBase ++ "CA/QC"),
    ("qeaa_provider", svctypeBase ++ "EAA/Q"),
    ("eaa_provider", svctypeBase ++ "EAA"),
    ("pid_provider", loteTypeBase ++ "EUPIDProvidersList"),
    ("wallet_provider", loteTypeBase ++ "EUWalletProvidersList"),
    ("access_ca", loteTypeBase ++ "EUWRPACProvidersList"),
    ("wrprc_issuer", loteTypeBase ++ "EUWRPRCProvidersList"),
    ("pub_eaa_provider", loteTypeBase ++ "EUPubEAAProvidersList"),
    ("pid_provider_status", ""),
    ("qeaa_provider_status", ""),
    ("pub_eaa_provider_status", ""),
    ("eaa_provider_status", "")]

/-- `TypeIdentifier`: the identifier served for a type; unknown types have none. -/
def typeIdentifier (key : String) : String := (typeIdentifiers.lookup key).getD ""

/-- `TypeKey`: the type an identifier belongs to, `""` for CA/QC and for identifiers without one. -/
def typeKey (identifier : String) : String :=
  match typeIdentifiers.find? fun e => e.2 ≠ "" && e.2 = identifier with
  | some e => e.1
  | none => ""

/-- The service types approved at EU level, whose statuses are granted and withdrawn. -/
def qualifiedSvctypes : List String :=
  ["CA/QC", "Certstatus/OCSP/QC", "Certstatus/CRL/QC", "TSA/QTST", "EDS/Q", "EDS/REM/Q", "PSES/Q",
    "QESValidation/Q", "RemoteQSigCDManagement/Q", "RemoteQSealCDManagement/Q", "EAA/Q",
    "ElectronicArchiving/Q", "Ledgers/Q"].map (svctypeBase ++ ·)

def statusBase : String := "http://uri.etsi.org/TrstSvc/TrustedList/Svcstatus/"

def nationalStatusEquivalent (status : String) : Option String :=
  if status = statusBase ++ "granted" then some (statusBase ++ "recognisedatnationallevel")
  else if status = statusBase ++ "withdrawn" then some (statusBase ++ "deprecatedatnationallevel")
  else none

/-- `strings.Contains(s, sub)` -/
def contains (s sub : String) : Bool := s.toList.tails.any fun t => sub.toList.isPrefixOf t

/-- `NormalizeStatus`: a shorthand becomes the full URI. -/
def normalizeStatus (s : String) : String :=
  let s := trimSpace s
  if s = "" || contains s "://" then s else statusBase ++ s

/-! ## What an anchor matches -/

namespace Anchor

/-- `MatchesUse`; authentication is served as signature. -/
def matchesUse (a : Anchor) (use : String) : Bool :=
  if use = "" || a.uses = [] then true
  else if use = useAuthentication then useSignature ∈ a.uses
  else use ∈ a.uses

def keyAlgorithmECDSA : String := "ecdsa"

def nistCurves : List String := ["P-224", "P-256", "P-384", "P-521"]

/-- `KeyCommon`: only an ECDSA key on a named curve outside the NIST ones is held back. -/
def keyCommon (a : Anchor) : Bool :=
  if a.keyAlgorithm ≠ keyAlgorithmECDSA || a.curve = "" then true else a.curve ∈ nistCurves

end Anchor

end TrustAnchor.Trust
