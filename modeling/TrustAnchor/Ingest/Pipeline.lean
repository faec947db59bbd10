import TrustAnchor.Ingest.Pointers
import TrustAnchor.Ingest.SourceNational
import TrustAnchor.Trust.Internal
import TrustAnchor.Trust.Snapshot

/-!
# One ingestion cycle

From the list of the lists over the national lists to a snapshot. The pipeline keeps nothing between
cycles but the fetcher; everything else is in the snapshots it is handed and returns.
-/

namespace TrustAnchor.Ingest

open Lib Tsl Trust

inductive ActivationMode where
  | auto
  | hold
deriving DecidableEq

structure Config where
  lotlURL : String
  territories : List String
  acceptedStatuses : List String
  acceptedServiceTypes : List String
  activationMode : ActivationMode
  holdAutoRelease : Duration
  /-- `""` means that no file is configured. -/
  internalTrustSource : String
  staleGrace : Duration
  allowHTTPTerritories : List String

/-- What the environment gives one cycle: the cycle's time, the wall clock when the document of a
site is verified, the network and the file system. -/
structure Cycle where
  now : Time
  clock : Site → Time
  net : Network
  readFile : String → Except String Bytes

variable (rt : Runtime) (cfg : Config)

/-! ## The list of the lists -/

/-- `lotlResult` -/
structure LOTLResult where
  sequence : Nat
  issueTime : Time
  nextUpdate : Option Time
  pivotSeq : Nat
  advertisedOJ : String
  signersDER : List Bytes
  digest : String
  pointers : PointerSet
deriving DecidableEq

/-- A match of `/eli/([A-Z]+/\d{4}/\d+)/oj` at the front of the text. -/
def ojReferenceAt (cs : List Char) : Option String :=
  if "/eli/".toList.isPrefixOf cs then
    let cs := cs.drop 5
    let letters := cs.takeWhile fun c => 'A' ≤ c && c ≤ 'Z'
    let year := ((cs.drop letters.length).drop 1).take 4
    let tail := (cs.drop letters.length).drop 6
    let number := tail.takeWhile Char.isDigit
    if letters ≠ [] && ['/'].isPrefixOf (cs.drop letters.length) && year.length = 4 &&
        year.all Char.isDigit && ['/'].isPrefixOf ((cs.drop letters.length).drop 5) && number ≠ [] &&
        "/oj".toList.isPrefixOf (tail.drop number.length) then
      some (String.ofList (letters ++ ['/'] ++ year ++ ['/'] ++ number))
    else none
  else none

/-- `advertisedOJReference` -/
def advertisedOJReference (uris : List String) : String :=
  (uris.findSome? fun u => u.toList.tails.findSome? ojReferenceAt).getD ""

/-- `Bootstrap.Certificates` -/
def bootstrapCertificates (boot : Bootstrap) : Except Err (List Certificate) :=
  boot.certsDER.mapM fun der => orErr "trust: parse bootstrap certificate: " (rt.parseCertificate der)

/-- The held list may be skipped on its digest: everything the loop needs is carried, and the list
has not expired. -/
def lotlFresh (now : Time) (prev : Snapshot) : Bool :=
  prev.lotlDigest ≠ "" && prev.lotlPointers ≠ [] && prev.lotlSignersDER ≠ [] &&
    match prev.lotlNextUpdate with
    | none => false
    | some nu => now < nu

/-- The result carried over from the previous snapshot. -/
def carriedLOTL (prev : Snapshot) : LOTLResult :=
  { sequence := prev.lotlSequence, issueTime := prev.lotlIssueTime, nextUpdate := prev.lotlNextUpdate,
    pivotSeq := prev.lotlPivotSeq, advertisedOJ := prev.advertisedOJ,
    signersDER := prev.lotlSignersDER, digest := prev.lotlDigest,
    pointers := carriedPointerSet prev.lotlPointers }

/-- The result read off a freshly verified list. -/
def freshLOTL (raw : Raw) (v : LOTLState) : LOTLResult :=
  { sequence := v.list.schemeInformation.tslSequenceNumber
    issueTime := v.list.schemeInformation.listIssueDateTime
    nextUpdate := v.list.schemeInformation.nextUpdate
    pivotSeq := v.pivotSeq
    advertisedOJ := advertisedOJReference v.list.schemeInformation.schemeInformationURI
    signersDER := certsDER v.signers
    digest := raw.digest
    pointers := lotlPointerSet rt v.list }

/-- The signer set to verify under and the pivots behind it: the previous snapshot's when it has
one, otherwise the bootstrap set. -/
def pinnedSigners (prev : Option Snapshot) (boot : Bootstrap) : Except Err (List Bytes × Nat) :=
  match prev.filter fun p => p.lotlSignersDER ≠ [] with
  | some p => .ok (p.lotlSignersDER, p.lotlPivotSeq)
  | none => do
    let certs ← bootstrapCertificates rt boot
    return (certsDER certs, 0)

/-- The source of a cycle; the skip on the digest is open to it when the held list is fresh. -/
def lotlSource (now : Time) (prev : Option Snapshot) : EULOTLSource :=
  { url := cfg.lotlURL, now, prevFresh := (prev.filter (lotlFresh now)).isSome }

/-- The download of a cycle, with the digest to compare with. -/
def fetchLOTL (cy : Cycle) (prev : Option Snapshot) : Fetching Raw :=
  (lotlSource cfg cy.now prev).fetch rt cy.net
    ((prev.filter (lotlFresh cy.now)).map fun p => ⟨[], p.lotlDigest⟩)

/-- A downloaded list of the lists, verified from the signer set that `pinnedSigners` picks. -/
def verifyLOTL (cy : Cycle) (prev : Option Snapshot) (boot : Bootstrap) (raw : Raw) :
    Fetching LOTLResult := do
  let (pinned, pivotSeq) ← Fallible.ofExcept (pinnedSigners rt prev boot)
  let v ← { lotlSource cfg cy.now prev with pivotSeq }.verify rt (cy.clock .lotl) cy.net raw pinned
  return freshLOTL rt raw v

/-- `ingestLOTL` -/
def ingestLOTL (cy : Cycle) (prev : Option Snapshot) (boot : Bootstrap) : Fetching LOTLResult := do
  match ← Fallible.attempt (fetchLOTL rt cfg cy prev) with
  | .error e => .ofExcept (reuseUnchanged prev carriedLOTL e)
  | .ok raw => verifyLOTL rt cfg cy prev boot raw

/-! ## Territories -/

def territoryGroupEU : String := "EU"

/-- `expandTerritories` -/
def expandTerritories (configured : List String) (ps : PointerSet) : List String :=
  (configured.flatMap fun code => if code = territoryGroupEU then ps.territories else [code]).dedup
    |>.insertionSort (· ≤ ·)

def Config.allowsHTTP (code : String) : Bool := code ∈ cfg.allowHTTPTerritories

/-- The source that `fetchTerritory` builds. -/
def nationalTLSource (now : Time) (code : String) (lp : ListPointer) (prevT : Option Territory) :
    NationalTLSource :=
  { code, url := lp.url, allowHTTP := cfg.allowsHTTP code
    prevFresh := prevT.any fun t =>
      t.sourceDigest ≠ "" && t.nextUpdate.isSome && !t.staleAt now cfg.staleGrace
    prevSeq := prevT.map (·.tlSequence)
    acceptedStatuses := cfg.acceptedStatuses, acceptedTypes := cfg.acceptedServiceTypes }

/-- A downloaded list, verified and extracted, with its sequence number on every anchor. -/
def readTerritory (src : NationalTLSource) (clock : Time) (raw : Raw) (signersDER : List Bytes) :
    Except Err Territory := do
  let tl ← src.verify rt clock raw signersDER
  let (anchors, warnings) ← src.extract rt tl
  return { code := src.code
           tlSequence := tl.schemeInformation.tslSequenceNumber
           issueTime := tl.schemeInformation.listIssueDateTime
           nextUpdate := tl.schemeInformation.nextUpdate
           sourceDigest := raw.digest
           anchors := anchors.map fun a =>
             { a with tlSequence := toInt64 tl.schemeInformation.tslSequenceNumber }
           skipped := skipped warnings }

/-- The download of a territory, with the digest to compare with. -/
def fetchTL (cy : Cycle) (code : String) (lp : ListPointer) (prevT : Option Territory) : Fetching Raw :=
  (nationalTLSource cfg cy.now code lp prevT).fetch rt cy.net (prevT.map fun t => ⟨[], t.sourceDigest⟩)

/-- `fetchTerritory`. A list confirmed unchanged is not read again: the entry of the previous
snapshot is taken with the anchors it serves. -/
def fetchTerritory (cy : Cycle) (ps : PointerSet) (code : String) (prev : Option Snapshot) :
    Fetching Territory := do
  let lp ← Fallible.ofExcept (ps.pointerFor code)
  let prevT := prev.bind (·.territory code)
  match ← Fallible.attempt (fetchTL rt cfg cy code lp prevT) with
  | .error e => .ofExcept (reuseUnchanged prevT (fun t => { t with carriedOver := false }) e)
  | .ok raw => .ofExcept (readTerritory rt (nationalTLSource cfg cy.now code lp prevT)
      (cy.clock (.tl code)) raw lp.signersDER)

/-- What a failed territory falls back on: the previous entry, unless that one is failed too. -/
def carryOver (prev : Option Snapshot) (code : String) (e : Err) : Except Err Territory :=
  match (prev.bind (·.territory code)).filter fun t => !t.failed with
  | none =>
    .error (e.wrap ("ingest: territory " ++ code ++
      " failed with no previous data to fall back on: ") "")
  | some t => .ok { t with carriedOver := true, carriedOverReason := e.msg }

/-- `ingestTerritory` -/
def ingestTerritory (cy : Cycle) (ps : PointerSet) (code : String) (prev : Option Snapshot) :
    Fetching Territory := do
  match ← Fallible.attempt (fetchTerritory rt cfg cy ps code prev) with
  | .ok t => pure t
  | .error e => .ofExcept (carryOver prev code e)

def failedTerritory (code : String) (e : Err) : Territory :=
  { code, failed := true, failureReason := e.msg }

/-- The territory loop of `Refresh`: the entries, and how many of them have data. -/
def ingestTerritories (cy : Cycle) (ps : PointerSet) (prev : Option Snapshot) :
    List String → Fetching (List Territory × Nat)
  | [] => pure ([], 0)
  | code :: codes => do
    match ← Fallible.attempt (ingestTerritory rt cfg cy ps code prev) with
    | .error e => do
      let (ts, withData) ← ingestTerritories cy ps prev codes
      return (failedTerritory code e :: ts, withData)
    | .ok t => do
      let (ts, withData) ← ingestTerritories cy ps prev codes
      return (t :: ts, withData + 1)

/-! ## Operator-declared anchors -/

/-- `declaredSet`: a failed load keeps the previous set. -/
def declaredSet (configured : Bool) (prevSet : List Anchor) :
    Except Err (List Anchor) → List Anchor × DeclaredSourceState
  | .error e =>
    (prevSet, { configured, carriedOver := true, error := e.msg, count := prevSet.length })
  | .ok set => (set, { configured, carriedOver := false, error := "", count := set.length })

/-- `applyDeclaredSources` -/
def applyDeclaredSources (readFile : String → Except String Bytes) (prev : Option Snapshot)
    (next : Snapshot) (now : Time) : Snapshot × DeclaredSourceState :=
  let (internal, rep) := declaredSet (cfg.internalTrustSource ≠ "") ((prev.map (·.internal)).getD [])
    (loadInternal rt readFile cfg.internalTrustSource now)
  ({ next with internal, declaredLoad := some rep }, rep)

/-! ## Hold mode -/

/-- The key of a map over anchors: `code + "/" + fingerprint`. -/
def holdKey (code fp : String) : String := code ++ "/" ++ fp

def prevActive (prev : Snapshot) : List String :=
  prev.territories.flatMap fun t => t.anchors.map fun a => holdKey t.code a.fingerprintSHA256

/-- The held entry of a key; a later one replaces an earlier one in the map. -/
def prevPending (prev : Snapshot) (key : String) : Option PendingAnchor :=
  prev.pending.reverse.find? fun pa =>
    holdKey pa.anchor.territory pa.anchor.fingerprintSHA256 = key

/-- What hold mode does with one anchor of the new snapshot: `none` serves it, `some f` holds it as
first seen at `f`. -/
def heldSince (prev : Option Snapshot) (now : Time) (key : String) : Option Time :=
  match prev with
  -- the very first snapshot is the baseline
  | none => none
  | some p =>
    if key ∈ prevActive p then none
    else
      match prevPending p key with
      | some pa =>
        if 0 < cfg.holdAutoRelease ∧ cfg.holdAutoRelease ≤ timeSub now pa.firstSeen then none
        else some pa.firstSeen
      | none => some now

/-- The anchors of a territory that stay served. -/
def keptAnchors (prev : Option Snapshot) (now : Time) (t : Territory) : List Anchor :=
  t.anchors.filter fun a => (heldSince cfg prev now (holdKey t.code a.fingerprintSHA256)).isNone

/-- The anchors of a territory that are held. -/
def heldAnchors (prev : Option Snapshot) (now : Time) (t : Territory) : List PendingAnchor :=
  t.anchors.filterMap fun a =>
    (heldSince cfg prev now (holdKey t.code a.fingerprintSHA256)).map (PendingAnchor.mk a)

/-- `applyHoldMode` -/
def applyHoldMode (prev : Option Snapshot) (next : Snapshot) (now : Time) : Snapshot :=
  if cfg.activationMode ≠ .hold then next
  else
    { next with
      territories := next.territories.map fun t => { t with anchors := keptAnchors cfg prev now t }
      pending := rt.sortSlice.run (fun a b => a.anchor.fingerprintSHA256 ≤ b.anchor.fingerprintSHA256)
        (next.pending ++ next.territories.flatMap (heldAnchors cfg prev now)) }

/-! ## The cycle -/

/-- The snapshot before declared sources, hold mode and id. -/
def buildSnapshot (now : Time) (boot : Bootstrap) (res : LOTLResult) (territories : List Territory) :
    Snapshot :=
  { id := "", prevID := "", generatedAt := now, lotlSequence := res.sequence,
    lotlIssueTime := res.issueTime, lotlNextUpdate := res.nextUpdate, lotlSignersDER := res.signersDER,
    lotlPivotSeq := res.pivotSeq, lotlDigest := res.digest, lotlPointers := res.pointers.list,
    advertisedOJ := res.advertisedOJ, bootstrapOJRef := boot.ojReference,
    bootstrapVersion := boot.version, territories, internal := [], pending := [], diff := none,
    declaredLoad := none }

/-- The id, the previous id and the diff. -/
def stamp (prev : Option Snapshot) (next : Snapshot) : Snapshot :=
  let next := { next with id := computeID rt next, prevID := (prev.map Snapshot.id).getD "" }
  { next with diff := some (computeDiff prev next) }

def errZeroVerified : Err :=
  .failure ("ingest: every configured territory failed and none has previous data — refusing to " ++
    "build a snapshot with zero verified territories")

/-- The rest of `Refresh` once the list of the lists is known. -/
def assemble (cy : Cycle) (prev : Option Snapshot) (boot : Bootstrap) (res : LOTLResult) :
    Fetching Snapshot := do
  let territories := expandTerritories cfg.territories res.pointers
  let (ts, withData) ← ingestTerritories rt cfg cy res.pointers prev territories
  if territories ≠ [] ∧ withData = 0 then .fail errZeroVerified
  else
    let next := (applyDeclaredSources rt cfg cy.readFile prev (buildSnapshot cy.now boot res ts)
      cy.now).1
    pure (stamp rt prev (applyHoldMode rt cfg prev next cy.now))

/-- The sequence number of the list of the lists never falls. -/
def checkSequence (prev : Option Snapshot) (res : LOTLResult) : Except Err Unit :=
  Result.require (∀ p ∈ prev, p.lotlSequence ≤ res.sequence)
    (.failure ("ingest: LOTL sequence regression: " ++ toString res.sequence ++ " < " ++
      toString ((prev.map Snapshot.lotlSequence).getD 0)))

/-- `Refresh` -/
def refresh (cy : Cycle) (prev : Option Snapshot) (boot : Bootstrap) : Fetching Snapshot := do
  let res ← ingestLOTL rt cfg cy prev boot
  Fallible.ofExcept (checkSequence prev res)
  assemble rt cfg cy prev boot res

/-! ## Rebuilding on declared sources alone -/

/-- `cloneSnapshot`: a JSON round trip, which drops the load report. -/
def cloneSnapshot (s : Snapshot) : Except Err Snapshot :=
  match rt.jsonError s with
  | some e => .error (.failure e)
  | none => .ok { s with declaredLoad := none }

/-- `RefreshDeclared`: `none` when the declared set is unchanged. -/
def refreshDeclared (readFile : String → Except String Bytes) (prev : Snapshot) (now : Time) :
    Except Err (Option Snapshot × DeclaredSourceState) := do
  let next ← cloneSnapshot rt prev
  let (next, rep) := applyDeclaredSources rt cfg readFile (some prev) next now
  if computeID rt next = prev.id then return (none, rep)
  else return (some (stamp rt (some prev) { next with generatedAt := now }), rep)

end TrustAnchor.Ingest
