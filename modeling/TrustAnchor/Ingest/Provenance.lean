import TrustAnchor.Ingest.Manager
import Mathlib.Logic.Relation

/-!
# Where trust comes from

The chain of trust in its own terms, with signature verification as the only source of it: signer
sets that verified pivots lead to, lists of the lists verified under them, and the anchors of national
lists verified under a pointer of such a list.
-/

namespace TrustAnchor.Ingest

open Tsl Trust

variable (rt : Runtime)

/-- Some document that verifies under `signers` is the pivot `seq`, and its EU self-pointer
advertises `next`. -/
def VerifiedPivot (signers : List Certificate) (seq : Nat) (next : List Certificate) : Prop :=
  ∃ raw time verified signer pivot self,
    verifyAt rt raw signers time = .ok (verified, signer) ∧ parse rt verified = .ok pivot ∧
    pivot.schemeInformation.tslType = tslTypeEUListOfTheLists ∧
    pivot.schemeInformation.tslSequenceNumber = seq ∧
    pivot.selfPointer = .ok self ∧ self.certificates rt = .ok next

/-- The signer sets that a chain of verified pivots leads to from `boot`. -/
def SignersFrom (boot : List Certificate) : List Certificate → Prop :=
  Relation.ReflTransGen (fun s s' => ∃ seq, VerifiedPivot rt s seq s') boot

/-- A list of the lists read from bytes that `tsl.Verify` returned under a signer set reached from
the bootstrap certificates. -/
def VerifiedLOTL (boot : Bootstrap) (lotl : TrustedList) : Prop :=
  ∃ certs signers clock raw verified signer,
    bootstrapCertificates rt boot = .ok certs ∧ SignersFrom rt certs signers ∧
    verify rt clock raw signers = .ok (verified, signer) ∧ parse rt verified = .ok lotl

/-- A list of the territory, read from bytes that `tsl.Verify` returned under the signer set of the
territory's pointer in a verified list of the lists. -/
def VerifiedTL (boot : Bootstrap) (code : String) (tl : TrustedList) : Prop :=
  ∃ lotl ptr ders signers clock raw verified signer,
    VerifiedLOTL rt boot lotl ∧ lotl.pointerFor code = .ok ptr ∧ ptr.certificateDERs rt = .ok ders ∧
    parseDERCerts rt ders = .ok signers ∧ verify rt clock raw signers = .ok (verified, signer) ∧
    parse rt verified = .ok tl ∧ tl.schemeInformation.schemeTerritory = code

/-- An anchor that `trust.ExtractAnchors` produced from a verified list of the territory, with the
list's sequence number stamped on it. -/
def AnchorFrom (boot : Bootstrap) (code : String) (a : Anchor) : Prop :=
  ∃ tl acceptedStatuses acceptedTypes anchors warnings, VerifiedTL rt boot code tl ∧
    extractAnchors rt tl code acceptedStatuses acceptedTypes = .ok (anchors, warnings) ∧
    ∃ a₀ ∈ anchors, a = { a₀ with tlSequence := toInt64 tl.schemeInformation.tslSequenceNumber }

end TrustAnchor.Ingest
