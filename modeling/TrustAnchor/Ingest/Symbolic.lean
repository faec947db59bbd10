import TrustAnchor.Ingest.Manager
import TrustAnchor.Lib.Encoding

/-!
# A symbolic world

A runtime in which runs can be evaluated: a document is a row of a table with the certificate that signed
it, a certificate is its own bytes, and a signature verifies under the sets that hold the signer. The
concrete runs of the development take place in it.
-/

namespace TrustAnchor.Ingest

open Lib Tsl Trust

namespace Symbolic

/-- A document, its bytes and the bytes of the certificate that signed it. -/
structure Document where
  bytes : Bytes
  signer : Bytes
  list : TrustedList

/-- The documents and the URLs that exist. -/
structure World where
  documents : List Document
  urls : List (String × Url)

/-- The bytes of a text. -/
def ofText (s : String) : Bytes := s.toList.map fun c => c.toNat.toUInt8

def marshal (c : IDContent) : Bytes :=
  c.lotlSequence.toUInt8 ::
    (c.territories.flatMap (fun t => ofText t.code ++ t.tlSequence.toUInt8 ::
        t.anchors.flatMap fun a => ofText a.fingerprint) ++
      c.internal.flatMap (fun a => ofText a.fingerprint ++ ofText a.type) ++
      c.pending.flatMap ofText)

def World.find (w : World) (raw : Bytes) : Except String Document :=
  match w.documents.find? fun d => d.bytes = raw with
  | some d => .ok d
  | none => .error "no such document"

/-- A signature validates under the sets that hold its signer. -/
def World.validate (w : World) (raw : Bytes) (signers : List Certificate) : Option String :=
  match w.find raw with
  | .error e => some e
  | .ok d => if signers.any fun c => c.raw = d.signer then none else some "signer not pinned"

/-- As much as it takes, doubled each time it is full. -/
def doubling (n : Nat) : Nat := if n = 0 then 0 else (((List.range 9).map (2 ^ ·)).find? (n ≤ ·)).getD n

def World.runtime (w : World) : Runtime where
  lowerRune := Char.toLower
  upperRune := Char.toUpper
  sameFold a b := a.toLower = b.toLower
  sortSlice := .stable
  sliceCap := doubling
  parseURL s := match w.urls.lookup s with
    | some u => .ok u
    | none => .error "no such URL"
  unmarshalXML raw := (w.find raw).map (·.list)
  findEnvelopedSignature _ := none
  validateSignature _ raw signers := w.validate raw signers
  keyInfoCertificate raw := (w.find raw).map (·.signer)
  verifiedRoot raw := .ok raw
  parseX509 _ := .ok { subject := "", commonName := "", notBefore := 0, notAfter := 0 }
  decodeBase64 s := .ok (ofText s)
  sha256 := id
  marshalID := marshal
  jsonError _ := none
  asn1Raw _ := .error "not encoded"
  asn1Int _ := .error "not encoded"
  asn1BigInt _ := .error "not encoded"
  asn1OID _ := .error "not encoded"
  asn1Validity _ := .error "not encoded"
  asn1Name _ := .error "not encoded"
  pemBlocks _ := []
  unmarshalYAML _ := .error "no file"
  decodeInternalFile _ := .ok []
  formatTime _ := ""
  pathDir s := s
  pathJoin s t := s ++ t

theorem World.parse_mem {w : World} {raw : Bytes} {tl : TrustedList}
    (h : parse w.runtime raw = .ok tl) : tl ∈ w.documents.map Document.list := by
  unfold parse runtime find at h
  cases hd : w.documents.find? fun d => d.bytes = raw with
  | none => simp [hd, Except.map] at h
  | some d =>
      simp only [hd, Except.map] at h
      split at h
      · cases h
      · cases h
        exact List.mem_map_of_mem (List.mem_of_find?_eq_some hd)

/-! ## A hash and an encoding without collisions -/

/-- A status; the one that the lists below use is kept short. -/
def encodeStatus (s : String) : Bytes := if s = statusBase ++ "granted" then [0] else 1 :: encodeString s

theorem selfDelimiting_encodeStatus : SelfDelimiting encodeStatus := by
  intro s s' x y heq
  unfold encodeStatus at heq
  split_ifs at heq with hs hs'
  · exact ⟨hs.trans hs'.symm, (List.cons.inj heq).2⟩
  · simp at heq
  · simp at heq
  · exact selfDelimiting_encodeString (List.cons.inj heq).2

def encodeIDAnchor (a : IDAnchor) : Bytes :=
  encodeString a.fingerprint ++ (encodeStatus a.status ++ (encodeBool a.qscd ++
    (encodeList encodeString a.uses ++ (encodeString a.source ++ (encodeString a.type ++
      encodeList encodeString a.useCases)))))

theorem selfDelimiting_encodeIDAnchor : SelfDelimiting encodeIDAnchor := by
  have htexts := selfDelimiting_encodeString.list
  refine (selfDelimiting_encodeString.pair (selfDelimiting_encodeStatus.pair
    (selfDelimiting_encodeBool.pair (htexts.pair (selfDelimiting_encodeString.pair
      (selfDelimiting_encodeString.pair htexts)))))).comap
    (f := fun a : IDAnchor => (a.fingerprint, a.status, a.qscd, a.uses, a.source, a.type, a.useCases)) ?_
  rintro ⟨⟩ ⟨⟩ heq
  simpa using heq

def encodeIDTerritory (t : IDTerritory) : Bytes :=
  encodeString t.code ++ (encodeNat t.tlSequence ++ encodeList encodeIDAnchor t.anchors)

theorem selfDelimiting_encodeIDTerritory : SelfDelimiting encodeIDTerritory := by
  refine (selfDelimiting_encodeString.pair (selfDelimiting_encodeNat.pair
    selfDelimiting_encodeIDAnchor.list)).comap
    (f := fun t : IDTerritory => (t.code, t.tlSequence, t.anchors)) ?_
  rintro ⟨⟩ ⟨⟩ heq
  simpa using heq

def encodeIDContent (c : IDContent) : Bytes :=
  encodeNat c.lotlSequence ++ (encodeList encodeIDTerritory c.territories ++
    (encodeList encodeIDAnchor c.internal ++ encodeList encodeString c.pending))

theorem encodeIDContent_injective : Function.Injective encodeIDContent := by
  have hcode := (selfDelimiting_encodeNat.pair (selfDelimiting_encodeIDTerritory.list.pair
    (selfDelimiting_encodeIDAnchor.list.pair selfDelimiting_encodeString.list))).comap
    (f := fun c : IDContent => (c.lotlSequence, c.territories, c.internal, c.pending)) (by
      rintro ⟨⟩ ⟨⟩ heq
      simpa using heq)
  exact hcode.injective

/-- The runtime of a world in which no two contents have one id, and no hash is empty. -/
def World.exact (w : World) : Runtime :=
  { w.runtime with sha256 := fun b => 0 :: b, marshalID := encodeIDContent }

theorem World.exact_sha256_injective (w : World) : Function.Injective w.exact.sha256 :=
  fun _ _ heq => List.cons_injective heq

theorem World.exact_sha256_ne_nil (w : World) (b : Bytes) : w.exact.sha256 b ≠ [] := List.cons_ne_nil 0 b

theorem World.exact_marshalID_injective (w : World) : Function.Injective w.exact.marshalID :=
  encodeIDContent_injective

/-- The run of one configuration from an empty store, without collisions. -/
def World.exactRun (w : World) (cfg : Config) (ops : List Op) : Service :=
  (Service.empty 100).run w.exact (ops.map fun op => (cfg, op))

/-! ## Networks and operations -/

/-- A network that serves the given pages. -/
def network (pages : List (String × Bytes)) : Network := fun _ _ url =>
  match pages.lookup url with
  | some body => .response 200 (.ok body)
  | none => .failed "no route"

/-- A cycle on such a network, without declaration files. -/
def cycle (now : Time) (pages : List (String × Bytes)) : Cycle :=
  { now, clock := fun _ => now, net := network pages, readFile := fun _ => .error "no such file" }

/-- What a refresh meets there, with a store that accepts its writes. -/
def refreshInput (now : Time) (pages : List (String × Bytes)) : Service.RefreshInput :=
  { declared := { now, readFile := fun _ => .error "no such file" }, cycle := cycle now pages }

def refresh (now : Time) (pages : List (String × Bytes)) : Op := .refresh (refreshInput now pages)

/-- The run of one configuration from an empty store. -/
def World.run (w : World) (cfg : Config) (ops : List Op) : Service :=
  (Service.empty 100).run w.runtime (ops.map fun op => (cfg, op))

/-! ## Documents -/

def identity (certs : List String) : ServiceDigitalIdentity := ⟨certs.map DigitalID.mk⟩

def pointer (territory tslType url : String) (signers : List String) : TSLPointer :=
  { serviceDigitalIdentities := [identity signers], tslLocation := url
    additionalInformation := [⟨tslType, territory, mimeTypeTSLXML⟩] }

/-- A list of the lists with the given self-pointer set and territory pointers; also a pivot. -/
def lotl (seq : Nat) (uris self : List String) (pointers : List TSLPointer) : TrustedList :=
  { schemeInformation :=
      { tslSequenceNumber := seq, tslType := tslTypeEUListOfTheLists, schemeTerritory := "EU"
        schemeInformationURI := uris, listIssueDateTime := 0, nextUpdate := none
        pointersToOtherTSL := pointer "EU" tslTypeEUListOfTheLists "" self :: pointers }
    providerList := none }

/-- A national list with one granted CA/QC service. -/
def national (code : String) (seq : Nat) (nextUpdate : Option Time) (certs : List String) :
    TrustedList :=
  { schemeInformation :=
      { tslSequenceNumber := seq, tslType := "", schemeTerritory := code, schemeInformationURI := []
        listIssueDateTime := 0, nextUpdate, pointersToOtherTSL := [] }
    providerList := some
      [{ name := []
         services := [{ typeIdentifier := serviceTypeCAQC, name := [], digitalIdentity := identity certs
                        status := statusBase ++ "granted", statusStartingTime := 0, extensions := [] }] }] }

/-- A service with the given certificates. -/
def service (name typeIdentifier status : String) (certs : List String) (extensions : List Extension) :
    ServiceInformation :=
  { typeIdentifier, name := [⟨"en", name⟩], digitalIdentity := identity certs, status := statusBase ++ status
    statusStartingTime := 0, extensions }

/-- One provider. -/
def provider (services : List ServiceInformation) : List Provider := [⟨[⟨"en", "P"⟩], services⟩]

/-- A national list with the services of one provider. -/
def offering (services : List ServiceInformation) : TrustedList :=
  { national "EE" 1 none [] with providerList := some (provider services) }

/-- The qualifier of a use. -/
def fore (uri : String) : Extension := ⟨some uri, none⟩

/-- Qualifications of a service. -/
def qualified (uris : List String) : Extension := ⟨none, some [uris]⟩

/-- The configuration for the given territories. -/
def config (territories : List String) (mode : ActivationMode) (holdAutoRelease : Duration) : Config :=
  { lotlURL := "https://eu/lotl.xml", territories, acceptedStatuses := [statusBase ++ "granted"]
    acceptedServiceTypes := [serviceTypeCAQC], activationMode := mode, holdAutoRelease
    internalTrustSource := "", staleGrace := 0, allowHTTPTerritories := [] }

/-- The first start, seeded with the given certificates. -/
def install (certs : List String) : Op :=
  .restart { seed := some (.ok ⟨1, "", certs.map ofText⟩) }

/-- A snapshot of nothing. -/
def blank : Snapshot :=
  { id := "", prevID := "", generatedAt := 0, lotlSequence := 1, lotlIssueTime := 0, lotlNextUpdate := none
    lotlSignersDER := [], lotlPivotSeq := 0, lotlDigest := "", lotlPointers := [], advertisedOJ := ""
    bootstrapOJRef := "", bootstrapVersion := 1, territories := [], internal := [], pending := []
    diff := none, declaredLoad := none }

/-! ## A territory with a growing list -/

/-- One territory, whose list gains the anchor `M` in its second issue. -/
def growing : World where
  documents :=
    [⟨ofText "L", ofText "B", lotl 1 [] ["B"] [pointer "EE" "" "https://ee/tl.xml" ["S"]]⟩,
      ⟨ofText "1", ofText "S", national "EE" 1 (some 100) ["K"]⟩,
      ⟨ofText "2", ofText "S", national "EE" 2 (some 100) ["K", "M"]⟩]
  urls := [("https://eu/lotl.xml", ⟨"https", "eu"⟩), ("https://ee/tl.xml", ⟨"https", "ee"⟩),
    ("https://ee/tl.sha2", ⟨"https", "ee"⟩)]

/-- The pages while the list has the issue `n`. -/
def growingPages (n : String) : List (String × Bytes) :=
  [("https://eu/lotl.xml", ofText "L"), ("https://ee/tl.xml", ofText n)]

/-- The pages with the checksum of the list beside it. -/
def growingPagesWithDigest (n : String) : List (String × Bytes) :=
  ("https://ee/tl.sha2", ofText (hexEncode (ofText n))) :: growingPages n

/-- An install and two cycles; `M` appears in the second one. -/
def growingOps : List Op :=
  [install ["B"], refresh 5 (growingPages "1"), refresh 6 (growingPages "2")]

end Symbolic

end TrustAnchor.Ingest
