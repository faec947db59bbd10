import TrustAnchor.Ingest.Symbolic
import TrustAnchor.Trust.Lemmas.Bundle

/-!
# Bundles and the snapshot id

Two snapshots with the same id serve the same bundles, up to order.
-/

namespace TrustAnchor.Trust

open Lib

variable {rt : Runtime}

/-- Two snapshots with the same id serve the same certificates to every query. -/
theorem filter_of_computeID (hsha : Function.Injective rt.sha256) (hjson : Function.Injective rt.marshalID)
    {keyOf : Bytes → String × String} {s s' : Snapshot} (hs : Built rt keyOf s) (hs' : Built rt keyOf s')
    (hid : computeID rt s = computeID rt s') (q : Query) {bundle : List Anchor}
    (h : filter rt s q = .ok bundle) :
    ∃ bundle', filter rt s' q = .ok bundle' ∧
      (bundle.map Anchor.fingerprintSHA256).Perm (bundle'.map Anchor.fingerprintSHA256) := by
  have hcontent : idContent s = idContent s' := hjson (hsha (hexEncode_injective hid))
  obtain ⟨common, hcommon⟩ := exists_common hsha keyOf
  have h' : filter rt s' q = .ok _ := filter_of_valid (filter_eq_ok.1 h).1
  refine ⟨_, h', (filter_perm_bundle (hcommon s hs) hs.failed h).trans ?_⟩
  rw [hcontent]
  exact (filter_perm_bundle (hcommon s' hs') hs'.failed h').symm

/-! ## Two snapshots with one id -/

section Reordered

open Ingest.Symbolic

/-- A territory with the one anchor `K`. -/
def single (code : String) : Territory :=
  { code, tlSequence := 1
    anchors := [{ territory := code, source := sourceTL, tspName := "", serviceName := ""
                  serviceType := "", status := "", statusStartingTime := 0, certDER := ofText code
                  fingerprintSHA256 := hexEncode (ofText code), subject := "", notBefore := 0
                  notAfter := 0, qualifiers := [], qcWithQSCD := false, uses := [], keyAlgorithm := "rsa"
                  curve := "", type := "", useCases := [], tlSequence := 1 }] }

/-- A snapshot of such territories. -/
def singles (codes : List String) : Snapshot :=
  { id := "", prevID := "", generatedAt := 0, lotlSequence := 1, lotlIssueTime := 0
    lotlNextUpdate := none, lotlSignersDER := [], lotlPivotSeq := 0, lotlDigest := "", lotlPointers := []
    advertisedOJ := "", bootstrapOJRef := "", bootstrapVersion := 1, territories := codes.map single
    internal := [], pending := [], diff := none, declaredLoad := none }

theorem singles_built {rt : Runtime} (hsha : rt.sha256 = id) (codes : List String) :
    Built rt (fun _ => ("rsa", "")) (singles codes) := by
  have hserved : ∀ a ∈ (singles codes).served, ∃ code, a ∈ (single code).anchors := by
    intro a ha
    simp only [Snapshot.served, singles, List.append_nil, List.mem_flatMap, List.mem_map] at ha
    obtain ⟨-, ⟨code, -, rfl⟩, ha⟩ := ha
    exact ⟨code, ha⟩
  refine ⟨?_, ?_, ?_⟩
  · intro t ht hfailed
    obtain ⟨code, -, rfl⟩ := List.mem_map.1 ht
    cases hfailed
  · intro a ha
    obtain ⟨code, ha⟩ := hserved a ha
    rw [List.mem_singleton.1 ha, Runtime.sha256hex, hsha]
    rfl
  · intro a ha
    obtain ⟨code, ha⟩ := hserved a ha
    rw [List.mem_singleton.1 ha]

/-- The order of the territories has no part in the id. -/
theorem filter_of_computeID_reordered :
    ∃ rt : Runtime, computeID rt (singles ["EE", "LV"]) = computeID rt (singles ["LV", "EE"]) ∧
      ∃ b b', filter rt (singles ["EE", "LV"]) everything = .ok b ∧
        filter rt (singles ["LV", "EE"]) everything = .ok b' ∧
        (b.map Anchor.fingerprintSHA256).Perm (b'.map Anchor.fingerprintSHA256) := by
  let rt : Runtime := { growing.runtime with marshalID := encodeIDContent }
  have hcontent : idContent (singles ["EE", "LV"]) = idContent (singles ["LV", "EE"]) := by decide +kernel
  have hid : computeID rt (singles ["EE", "LV"]) = computeID rt (singles ["LV", "EE"]) := by
    rw [computeID, computeID, hcontent]
  have hbundle : filter rt (singles ["EE", "LV"]) everything = .ok ((singles ["EE", "LV"]).served) := by
    decide +kernel
  have hsha : rt.sha256 = id := rfl
  have hinj : Function.Injective rt.sha256 := hsha ▸ Function.injective_id
  obtain ⟨b', hb', hperm⟩ := filter_of_computeID hinj encodeIDContent_injective (singles_built hsha _) (singles_built hsha _)
    hid everything hbundle
  exact ⟨rt, hid, _, b', hbundle, hb', hperm⟩

end Reordered

end TrustAnchor.Trust
