import TrustAnchor.Ingest.Lemmas.Provenance
import TrustAnchor.Ingest.Symbolic

/-!
# Provenance of what is served

However the network answers and whatever the operators do, an anchor is served or held only if the chain
of trust from the bootstrap certificates leads to it.
-/

namespace TrustAnchor.Ingest

open Lib Tsl Trust

variable (rt : Runtime)

/-- In every run from an empty store, the anchors served for a territory and the held ones were all
extracted from a verified list of their territory. -/
theorem served_anchorFrom (ops : List (Config × Op)) (maxSize : Int) (s : Snapshot)
    (hs : ((Service.empty maxSize).run rt ops).active = some s) :
    ∃ boot, ((Service.empty maxSize).run rt ops).store.bootstrap = some boot ∧
      (∀ t ∈ s.territories, ∀ a ∈ t.anchors, AnchorFrom rt boot t.code a) ∧
      ∀ p ∈ s.pending, AnchorFrom rt boot p.anchor.territory p.anchor := by
  obtain ⟨boot, hboot, h⟩ := (Holds.of_run (snapshotFrom_stable rt) ops maxSize).active s hs
  exact ⟨boot, hboot, h.territories, h.pending⟩

open Symbolic in
/-- After an install and two cycles in hold mode, one anchor is served and one is held. -/
theorem served_anchorFrom_growing :
    ∃ s, (growing.run (config ["EE"] .hold 0) growingOps).active = some s ∧
      (s.territories.map fun t => t.anchors.map (·.certDER)) = [[ofText "K"]] ∧
      (s.pending.map fun p => p.anchor.certDER) = [ofText "M"] ∧
      ∃ boot, (growing.run (config ["EE"] .hold 0) growingOps).store.bootstrap = some boot ∧
        (∀ t ∈ s.territories, ∀ a ∈ t.anchors, AnchorFrom growing.runtime boot t.code a) ∧
        ∀ p ∈ s.pending, AnchorFrom growing.runtime boot p.anchor.territory p.anchor := by
  have hrun : (growing.run (config ["EE"] .hold 0) growingOps).active.any fun s =>
      (s.territories.map fun t => t.anchors.map (·.certDER)) = [[ofText "K"]] ∧
        (s.pending.map fun p => p.anchor.certDER) = [ofText "M"] := by decide +kernel
  obtain ⟨s, hs, h⟩ := (Option.any_eq_true _ _).1 hrun
  obtain ⟨hserved, hheld⟩ := of_decide_eq_true h
  exact ⟨s, hs, hserved, hheld, served_anchorFrom _ _ _ s hs⟩

/-! ## Unverified bytes -/

variable {rt}

/-- Two documents with the same verified content and signer. When the first is accepted directly, the
second leaves the same list, signer set and pivot progress exactly if the unverified parts advertise the
same newest pivot, as far as it is newer than the recorded one. -/
theorem verify_unverified_iff {s : EULOTLSource} {clock : Time} {net net' : Network} {raw raw' : Raw}
    {pinned : List Bytes} {f f' : Fetcher} {signers : List Certificate} {verified : Bytes}
    {signer : Certificate} {v : LOTLState} {pre' : TrustedList}
    (hsigners : parseDERCerts rt pinned = .ok signers)
    (hv : Tsl.verify rt clock raw.bytes signers = .ok (verified, signer))
    (hv' : Tsl.verify rt clock raw'.bytes signers = .ok (verified, signer))
    (hpre' : parse rt raw'.bytes = .ok pre') (h : (s.verify rt clock net raw pinned f).1 = .ok v) :
    (s.verify rt clock net' raw' pinned f').1 = .ok v ↔
      max s.pivotSeq (maxPivot (advertisedPivots rt raw'.bytes)) =
        max s.pivotSeq (maxPivot (advertisedPivots rt raw.bytes)) := by
  have hdirect : ∀ {r : Raw} {n : Network} {g : Fetcher}, (∃ pre, parse rt r.bytes = .ok pre) →
      Tsl.verify rt clock r.bytes signers = .ok (verified, signer) →
      ((s.verify rt clock n r pinned g).1 = .ok v ↔
        s.acceptDirect rt (advertisedPivots rt r.bytes) signers verified signer = .ok v) := by
    intro r n g hpre hr
    simp [EULOTLSource.verify_eq_ok, hpre, hsigners, hr]
  rw [hdirect (EULOTLSource.verify_eq_ok.1 h).1 hv, EULOTLSource.acceptDirect_eq_ok] at h
  obtain ⟨hlist, hself, hset, hseq⟩ := h
  rw [hdirect ⟨pre', hpre'⟩ hv', EULOTLSource.acceptDirect_eq_ok, hseq]
  exact ⟨fun h => h.2.2.2.symm, fun h => ⟨hlist, hself, hset, h.symm⟩⟩

namespace Symbolic

/-- A list of the lists without pivots, and the same list in a wrapper that advertises pivot 7. -/
def wrapping : World where
  documents :=
    [⟨ofText "L", ofText "B", lotl 1 [] ["B"] []⟩,
      ⟨ofText "W", ofText "B", lotl 1 ["https://eu/eu-lotl-pivot-7.xml"] ["B"] []⟩]
  urls := []

/-- A runtime in which the signature covers the inner list only. -/
def wrappingRuntime : Runtime := { wrapping.runtime with verifiedRoot := fun _ => .ok (ofText "L") }

/-- The certificate of the signer. -/
def wrappingSigner : Certificate :=
  { subject := "", commonName := "", notBefore := 0, notAfter := 0, raw := ofText "B" }

/-- What `Verify` leaves, with the pivot `n` processed before. -/
def wrappingVerify (n : Nat) (doc : String) : Except Err LOTLState :=
  (EULOTLSource.verify wrappingRuntime { url := "", now := 0, pivotSeq := n } 0 (network [])
    ⟨ofText doc, ""⟩ [ofText "B"] (newFetcher 100)).1

end Symbolic

open Symbolic in
/-- A recorded pivot hides the difference. -/
theorem verify_unverified_recorded :
    wrappingVerify 7 "L" = .ok ⟨lotl 1 [] ["B"] [], [wrappingSigner], 7⟩ ∧
      wrappingVerify 7 "W" = .ok ⟨lotl 1 [] ["B"] [], [wrappingSigner], 7⟩ := by
  have hsigners : parseDERCerts wrappingRuntime [ofText "B"] = .ok [wrappingSigner] := by decide +kernel
  have hv : Tsl.verify wrappingRuntime 0 (ofText "L") [wrappingSigner] =
      .ok (ofText "L", wrappingSigner) := by decide +kernel
  have hv' : Tsl.verify wrappingRuntime 0 (ofText "W") [wrappingSigner] =
      .ok (ofText "L", wrappingSigner) := by decide +kernel
  have hpre' : parse wrappingRuntime (ofText "W") =
      .ok (lotl 1 ["https://eu/eu-lotl-pivot-7.xml"] ["B"] []) := by decide +kernel
  have h : wrappingVerify 7 "L" = .ok ⟨lotl 1 [] ["B"] [], [wrappingSigner], 7⟩ := by decide +kernel
  refine ⟨h, ?_⟩
  unfold wrappingVerify at h ⊢
  exact (verify_unverified_iff hsigners hv hv' hpre' h).2 (by decide +kernel)

open Symbolic in
/-- The unsigned wrapper moves the pivot progress. -/
theorem verify_unverified_wrapped :
    Tsl.verify wrappingRuntime 0 (ofText "L") [wrappingSigner] = .ok (ofText "L", wrappingSigner) ∧
      Tsl.verify wrappingRuntime 0 (ofText "W") [wrappingSigner] = .ok (ofText "L", wrappingSigner) ∧
      wrappingVerify 0 "L" = .ok ⟨lotl 1 [] ["B"] [], [wrappingSigner], 0⟩ ∧
      wrappingVerify 0 "W" = .ok ⟨lotl 1 [] ["B"] [], [wrappingSigner], 7⟩ := by
  decide +kernel

end TrustAnchor.Ingest
