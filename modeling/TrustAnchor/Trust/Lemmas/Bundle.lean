import Mathlib.Data.List.Perm.Basic
import TrustAnchor.Lib.Order
import TrustAnchor.Trust.Lemmas.Filter

/-!
# Bundles and the projection

A bundle can be read off the projection that the id hashes, up to order.
-/

namespace TrustAnchor.Trust

open Lib

variable {rt : Runtime}

/-! ## Reading a bundle off the projection -/

/-- The uses dimension, on the projection. -/
def IDAnchor.matchesUse (a : IDAnchor) (use : String) : Bool :=
  if use = "" || a.uses = [] then true
  else if use = useAuthentication then useSignature ∈ a.uses
  else use ∈ a.uses

/-- `admits` on the projection; whether a key is common is known from the fingerprint. -/
def Query.admitsID (q : Query) (common : String → Bool) (a : IDAnchor) : Bool :=
  a.type = q.anchorType && (!q.qscdOnly || a.qscd) && a.matchesUse q.use &&
    (q.keys = keysAll || common a.fingerprint)

/-- The fingerprints of the bundle. -/
def IDContent.bundle (rt : Runtime) (c : IDContent) (q : Query) (common : String → Bool) : List String :=
  ((c.territories.filter fun t => q.includes rt t.code).flatMap fun t =>
      (t.anchors.filter (q.admitsID common)).map IDAnchor.fingerprint) ++
    (c.internal.filter (q.admitsID common)).map IDAnchor.fingerprint

theorem admitsID_idAnchor {common : String → Bool} {q : Query} {a : Anchor}
    (h : a.keyCommon = common a.fingerprintSHA256) : q.admitsID common (idAnchor a) = q.admits a := by
  unfold Query.admitsID Query.admits Query.matches
  rw [h]
  rfl

theorem filter_idAnchor {common : String → Bool} {q : Query} {as : List Anchor}
    (h : ∀ a ∈ as, a.keyCommon = common a.fingerprintSHA256) :
    ((as.map idAnchor).filter (q.admitsID common)).map IDAnchor.fingerprint =
      (as.filter q.admits).map Anchor.fingerprintSHA256 := by
  rw [List.filter_map, List.map_map]
  have hfilter : as.filter (q.admitsID common ∘ idAnchor) = as.filter q.admits :=
    List.filter_congr fun a ha => admitsID_idAnchor (h a ha)
  rw [hfilter]
  rfl

theorem idTerritory_perm {common : String → Bool} {q : Query} {t : Territory}
    (h : ∀ a ∈ t.anchors, a.keyCommon = common a.fingerprintSHA256) :
    (((idTerritory t).anchors.filter (q.admitsID common)).map IDAnchor.fingerprint).Perm
      ((t.anchors.filter q.admits).map Anchor.fingerprintSHA256) := by
  rw [← filter_idAnchor h]
  exact ((List.perm_insertionSort _ _).filter _).map _

/-- `Filter` is the bundle of the projection, up to order. -/
theorem filter_perm_bundle {common : String → Bool} {s : Snapshot} {q : Query} {bundle : List Anchor}
    (hcommon : ∀ a ∈ s.served, a.keyCommon = common a.fingerprintSHA256)
    (hfailed : ∀ t ∈ s.territories, t.failed = true → t.anchors = [])
    (h : filter rt s q = .ok bundle) :
    (bundle.map Anchor.fingerprintSHA256).Perm ((idContent s).bundle rt q common) := by
  obtain ⟨-, rfl⟩ := filter_eq_ok.1 h
  rw [Snapshot.inScope, List.filter_append, List.filter_flatMap, List.map_append, List.map_flatMap]
  refine .append ?_ ?_
  · calc (s.territories.filter fun t => q.includes rt t.code).flatMap
          (fun t => (t.anchors.filter q.admits).map Anchor.fingerprintSHA256)
        = ((s.territories.filter fun t => q.includes rt t.code).filter fun t => !t.failed).flatMap
          (fun t => (t.anchors.filter q.admits).map Anchor.fingerprintSHA256) := by
          refine (flatMap_filter_of_eq_nil fun t ht hp => ?_).symm
          rw [hfailed t (List.mem_filter.1 ht).1 (by simpa using hp)]
          rfl
      _ = ((s.territories.filter fun t => !t.failed).filter fun t => q.includes rt t.code).flatMap
          (fun t => (t.anchors.filter q.admits).map Anchor.fingerprintSHA256) := by
          rw [List.filter_comm]
      List.Perm _ (((s.territories.filter fun t => !t.failed).filter fun t => q.includes rt t.code).flatMap
          (fun t => ((idTerritory t).anchors.filter (q.admitsID common)).map IDAnchor.fingerprint)) := by
          refine .flatMap_left _ fun t ht => (idTerritory_perm fun a ha => ?_).symm
          exact hcommon a (mem_served_territory (List.mem_filter.1 (List.mem_filter.1 ht).1).1 ha)
      _ = ((((s.territories.filter fun t => !t.failed).map idTerritory).filter
            fun t => q.includes rt t.code).flatMap
          (fun t => (t.anchors.filter (q.admitsID common)).map IDAnchor.fingerprint)) := by
          rw [List.filter_map, List.flatMap_map]
          rfl
      List.Perm _ _ := ((List.perm_insertionSort _ _).symm.filter _).flatMap_right _
  · rw [← filter_idAnchor fun a ha => hcommon a (List.mem_append_right _ ha)]
    exact ((List.perm_insertionSort _ _).symm.filter _).map _

/-! ## Snapshots of the pipeline -/

/-- A snapshot as the pipeline builds it: a failed territory has no anchors, a fingerprint is the hash
of the certificate, and the kind of a key is read off the certificate. -/
structure Built (rt : Runtime) (keyOf : Bytes → String × String) (s : Snapshot) : Prop where
  failed : ∀ t ∈ s.territories, t.failed = true → t.anchors = []
  fingerprint : ∀ a ∈ s.served, a.fingerprintSHA256 = rt.sha256hex a.certDER
  key : ∀ a ∈ s.served, (a.keyAlgorithm, a.curve) = keyOf a.certDER

/-- Without collisions, the fingerprint tells whether the key is common. -/
theorem exists_common (hsha : Function.Injective rt.sha256) (keyOf : Bytes → String × String) :
    ∃ common : String → Bool, ∀ s, Built rt keyOf s →
      ∀ a ∈ s.served, a.keyCommon = common a.fingerprintSHA256 := by
  classical
  refine ⟨fun fp => decide (∃ a : Anchor, a.fingerprintSHA256 = fp ∧
    a.fingerprintSHA256 = rt.sha256hex a.certDER ∧ (a.keyAlgorithm, a.curve) = keyOf a.certDER ∧
    a.keyCommon = true), fun s hs a ha => ?_⟩
  rw [eq_comm, Bool.eq_iff_iff, decide_eq_true_iff]
  constructor
  · rintro ⟨b, hfp, hfingerprint, hkey, hcommon⟩
    -- the two certificates have one hash, so they are one certificate with one kind of key
    have hcert : b.certDER = a.certDER := by
      rw [hfingerprint, hs.fingerprint a ha] at hfp
      exact hsha (hexEncode_injective hfp)
    rw [hcert, ← hs.key a ha, Prod.mk.injEq] at hkey
    simpa only [Anchor.keyCommon, hkey.1, hkey.2] using hcommon
  · exact fun hcommon => ⟨a, rfl, hs.fingerprint a ha, hs.key a ha, hcommon⟩

end TrustAnchor.Trust
