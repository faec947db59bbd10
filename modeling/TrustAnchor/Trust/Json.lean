import TrustAnchor.Lib.Json
import TrustAnchor.Trust.Types

/-!
# Snapshots as JSON

The struct tags of the domain model. How a time and a byte string are written is left to the library that
writes them.
-/

namespace TrustAnchor.Trust

open Lib

/-- The zero value. -/
def zeroAnchor : Anchor :=
  { territory := "", source := "", tspName := "", serviceName := "", serviceType := "", status := "",
    statusStartingTime := zeroTime, certDER := [], fingerprintSHA256 := "", subject := "", notBefore := zeroTime,
    notAfter := zeroTime, qualifiers := [], qcWithQSCD := false, uses := [], keyAlgorithm := "", curve := "",
    type := "", useCases := [], tlSequence := 0 }

section Coders

variable (time : Codec Time) (bytes : Codec Bytes)

def anchorRecord : Record Anchor Anchor :=
  (Record.make Anchor.mk)
    |>.field "territory" .string "" Anchor.territory
    |>.field "source" .string "" Anchor.source
    |>.field "tspName" .string "" Anchor.tspName
    |>.field "serviceName" .string "" Anchor.serviceName
    |>.field "serviceType" .string "" Anchor.serviceType
    |>.field "status" .string "" Anchor.status
    |>.field "statusStartingTime" time zeroTime Anchor.statusStartingTime
    |>.field "certDer" bytes [] Anchor.certDER
    |>.field "fingerprintSha256" .string "" Anchor.fingerprintSHA256
    |>.field "subject" .string "" Anchor.subject
    |>.field "notBefore" time zeroTime Anchor.notBefore
    |>.field "notAfter" time zeroTime Anchor.notAfter
    |>.omitempty "qualifiers" (.list .string) [] Anchor.qualifiers
    |>.field "qcWithQscd" .bool false Anchor.qcWithQSCD
    |>.omitempty "uses" (.list .string) [] Anchor.uses
    |>.omitempty "keyAlgorithm" .string "" Anchor.keyAlgorithm
    |>.omitempty "curve" .string "" Anchor.curve
    |>.omitempty "type" .string "" Anchor.type
    |>.omitempty "useCases" (.list .string) [] Anchor.useCases
    |>.omitempty "tlSequence" .int 0 Anchor.tlSequence

def anchorCodec : Codec Anchor := (anchorRecord time bytes).codec (by simp [anchorRecord]) fun _ => rfl

def skippedServiceRecord : Record SkippedService SkippedService :=
  (Record.make SkippedService.mk)
    |>.field "tspName" .string "" SkippedService.tspName
    |>.field "serviceName" .string "" SkippedService.serviceName
    |>.field "reason" .string "" SkippedService.reason
    |>.omitempty "detail" .string "" SkippedService.detail
    |>.omitempty "fingerprintSha256" .string "" SkippedService.fingerprintSHA256
    |>.omitempty "keyAlgorithm" .string "" SkippedService.keyAlgorithm
    |>.omitempty "curve" .string "" SkippedService.curve

def skippedServiceCodec : Codec SkippedService :=
  skippedServiceRecord.codec (by simp [skippedServiceRecord]) fun _ => rfl

def territoryRecord : Record Territory Territory :=
  (Record.make Territory.mk)
    |>.field "code" .string "" Territory.code
    |>.field "tlSequence" .nat 0 Territory.tlSequence
    |>.field "issueTime" time zeroTime Territory.issueTime
    |>.pointer "nextUpdate" time Territory.nextUpdate
    |>.omitempty "sourceDigest" .string "" Territory.sourceDigest
    |>.omitempty "carriedOver" .bool false Territory.carriedOver
    |>.omitempty "carriedOverReason" .string "" Territory.carriedOverReason
    |>.omitempty "failed" .bool false Territory.failed
    |>.omitempty "failureReason" .string "" Territory.failureReason
    |>.field "anchors" (.list (anchorCodec time bytes)) [] Territory.anchors
    |>.omitempty "skipped" (.list skippedServiceCodec) [] Territory.skipped

def territoryCodec : Codec Territory :=
  (territoryRecord time bytes).codec (by simp [territoryRecord]) fun _ => rfl

def pendingAnchorRecord : Record PendingAnchor PendingAnchor :=
  (Record.make PendingAnchor.mk)
    |>.field "anchor" (anchorCodec time bytes) zeroAnchor PendingAnchor.anchor
    |>.field "firstSeen" time zeroTime PendingAnchor.firstSeen

def pendingAnchorCodec : Codec PendingAnchor :=
  (pendingAnchorRecord time bytes).codec (by simp [pendingAnchorRecord]) fun _ => rfl

def listPointerRecord : Record ListPointer ListPointer :=
  (Record.make ListPointer.mk)
    |>.field "territory" .string "" ListPointer.territory
    |>.field "url" .string "" ListPointer.url
    |>.omitempty "signersDer" (.list bytes) [] ListPointer.signersDER
    |>.omitempty "failure" .string "" ListPointer.failure

def listPointerCodec : Codec ListPointer :=
  (listPointerRecord bytes).codec (by simp [listPointerRecord]) fun _ => rfl

def diffKindCodec : Codec DiffKind :=
  .text (fun k => some k.name) (fun s => [DiffKind.added, .removed, .changed].find? fun k => k.name = s) (by
    intro k s h
    cases h
    cases k <;> rfl)

def diffEntryRecord : Record DiffEntry DiffEntry :=
  (Record.make DiffEntry.mk)
    |>.field "kind" diffKindCodec .added DiffEntry.kind
    |>.field "territory" .string "" DiffEntry.territory
    |>.field "fingerprint" .string "" DiffEntry.fingerprint
    |>.omitempty "type" .string "" DiffEntry.type
    |>.field "tspName" .string "" DiffEntry.tspName
    |>.field "serviceName" .string "" DiffEntry.serviceName
    |>.field "status" .string "" DiffEntry.status
    |>.omitempty "detail" .string "" DiffEntry.detail
    |>.field "source" .string "" DiffEntry.source

def diffEntryCodec : Codec DiffEntry := diffEntryRecord.codec (by simp [diffEntryRecord]) fun _ => rfl

def diffRecord : Record Diff Diff :=
  (Record.make Diff.mk)
    |>.omitempty "prevId" .string "" Diff.prevID
    |>.omitempty "entries" (.list diffEntryCodec) [] Diff.entries

def diffCodec : Codec Diff := diffRecord.codec (by simp [diffRecord]) fun _ => rfl

def snapshotRecord : Record Snapshot Snapshot :=
  (Record.make Snapshot.mk)
    |>.field "id" .string "" Snapshot.id
    |>.omitempty "prevId" .string "" Snapshot.prevID
    |>.field "generatedAt" time zeroTime Snapshot.generatedAt
    |>.field "lotlSequence" .nat 0 Snapshot.lotlSequence
    |>.field "lotlIssueTime" time zeroTime Snapshot.lotlIssueTime
    |>.pointer "lotlNextUpdate" time Snapshot.lotlNextUpdate
    |>.field "lotlSignersDer" (.list bytes) [] Snapshot.lotlSignersDER
    |>.field "lotlPivotSeq" .nat 0 Snapshot.lotlPivotSeq
    |>.omitempty "lotlDigest" .string "" Snapshot.lotlDigest
    |>.omitempty "lotlPointers" (.list (listPointerCodec bytes)) [] Snapshot.lotlPointers
    |>.omitempty "advertisedOj" .string "" Snapshot.advertisedOJ
    |>.omitempty "bootstrapOjRef" .string "" Snapshot.bootstrapOJRef
    |>.omitempty "bootstrapVersion" .int 0 Snapshot.bootstrapVersion
    |>.field "territories" (.list (territoryCodec time bytes)) [] Snapshot.territories
    |>.omitempty "internal" (.list (anchorCodec time bytes)) [] Snapshot.internal
    |>.omitempty "pending" (.list (pendingAnchorCodec time bytes)) [] Snapshot.pending
    |>.pointer "diff" diffCodec Snapshot.diff
    |>.skip none

/-- `json.Marshal`; it fails on a time that has no text form. -/
def marshalSnapshot (s : Snapshot) : Option Json := (snapshotRecord time bytes).encode s

/-- `json.Unmarshal` -/
def unmarshalSnapshot (j : Json) : Option Snapshot := (snapshotRecord time bytes).decode j

variable {time bytes}

/-- All of a snapshot but the load report is read back. -/
theorem unmarshalSnapshot_marshalSnapshot {s : Snapshot} {j : Json} (h : marshalSnapshot time bytes s = some j) :
    unmarshalSnapshot time bytes j = some { s with declaredLoad := none } :=
  Record.decode_encode (by simp [snapshotRecord]) h

end Coders

end TrustAnchor.Trust
