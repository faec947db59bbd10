import TrustAnchor.Ingest.Lemmas.Manager
import TrustAnchor.Ingest.Symbolic
import TrustAnchor.Trust.Json
import TrustAnchor.Trust.Lemmas.Projection

/-!
# The id and the order of the lists

The id is the hash of sorted projections. Where each sort has distinct keys, the order in which a snapshot
lists its parts does not show in it, and neither does a way through JSON.
-/

namespace TrustAnchor.Ingest

open Lib Tsl Trust

variable {rt : Runtime} {s s' : Snapshot} {t t' : Territory}

/-! ## Reordering -/

/-- The entry with its anchors in another order. -/
structure ReorderedEntry (t t' : Territory) : Prop where
  rest : t' = { t with anchors := t'.anchors }
  anchors : t'.anchors.Perm t.anchors

/-- The snapshot with its entries, the anchors in each of them, the declared anchors and the pending
additions in another order. -/
structure Reordered (s s' : Snapshot) : Prop where
  rest : s' = { s with territories := s'.territories, internal := s'.internal, pending := s'.pending }
  territories : ∃ ts, List.Forall₂ ReorderedEntry s.territories ts ∧ s'.territories.Perm ts
  internal : s'.internal.Perm s.internal
  pending : s'.pending.Perm s.pending

theorem ReorderedEntry.idTerritory_eq (h : ReorderedEntry t t')
    (hfps : (t.anchors.map Anchor.fingerprintSHA256).Nodup) : idTerritory t' = idTerritory t := by
  have hkeys : ((t.anchors.map idAnchor).map IDAnchor.fingerprint).Nodup := by
    rw [List.map_map]
    exact hfps
  have hsort := insertionSort_eq_of_perm_of_keys (r := keyLe IDAnchor.fingerprint) (k := IDAnchor.fingerprint)
    (fun a b hab hba => le_antisymm hab hba) hkeys (h.anchors.map idAnchor)
  rw [h.rest]
  exact congrArg (IDTerritory.mk t.code t.tlSequence) hsort

/-- What is sorted, before it is sorted. -/
def idTerritories (ts : List Territory) : List IDTerritory := (ts.filter fun t => !t.failed).map idTerritory

theorem idTerritories_reordered {ts ts' : List Territory} (h : List.Forall₂ ReorderedEntry ts ts')
    (hfps : ∀ t ∈ ts, (t.anchors.map Anchor.fingerprintSHA256).Nodup) : idTerritories ts' = idTerritories ts := by
  induction h with
  | nil => rfl
  | @cons t t' ts ts' ht _ ih =>
      have hrest := ih fun u hu => hfps u (List.mem_cons_of_mem t hu)
      have hfailed : t'.failed = t.failed := by rw [ht.rest]
      have hentry := ht.idTerritory_eq (hfps t List.mem_cons_self)
      unfold idTerritories at hrest ⊢
      cases hf : t.failed with
      | false => simp [hf, hfailed, hentry, hrest]
      | true => simp [hf, hfailed, hrest]

theorem Reordered.idContent_eq (h : Reordered s s') (hcodes : (s.territories.map Territory.code).Nodup)
    (hfps : ∀ t ∈ s.territories, (t.anchors.map Anchor.fingerprintSHA256).Nodup)
    (hdeclared : (s.internal.map declaredPair).Nodup) : idContent s' = idContent s := by
  have hterritories : (idContent s').territories = (idContent s).territories := by
    obtain ⟨ts, hentries, hperm⟩ := h.territories
    have hparts : (idTerritories s'.territories).Perm (idTerritories s.territories) := by
      rw [← idTerritories_reordered hentries hfps]
      exact (hperm.filter _).map _
    have hkeys : ((idTerritories s.territories).map IDTerritory.code).Nodup := by
      rw [idTerritories, List.map_map]
      exact hcodes.sublist (List.filter_sublist.map _)
    exact insertionSort_eq_of_perm_of_keys (r := keyLe IDTerritory.code) (fun a b hab hba => le_antisymm hab hba) hkeys
      hparts
  have hinternal := (idContent_internal_eq_iff hdeclared).2 (h.internal.map idAnchor)
  have hpending : (idContent s').pending = (idContent s).pending :=
    insertionSort_eq_of_perm (fun a _ b _ hab hba => le_antisymm hab hba) (h.pending.map _)
  have hsequence : s'.lotlSequence = s.lotlSequence := by rw [h.rest]
  unfold idContent at hterritories hinternal hpending ⊢
  simp only at hterritories hinternal hpending
  rw [hterritories, hinternal, hpending, hsequence]

/-! ## JSON -/

/-- A clone is what the coders make of the snapshot. -/
theorem unmarshalSnapshot_of_clone {time : Codec Time} {bytes : Codec Bytes} {j : Json}
    (h : cloneSnapshot rt s = .ok s') (hj : marshalSnapshot time bytes s = some j) :
    unmarshalSnapshot time bytes j = some s' := by
  obtain rfl := cloneSnapshot_ok h
  exact unmarshalSnapshot_marshalSnapshot hj

/-! ## The id -/

/-- For every snapshot with one entry for each territory, one anchor for each fingerprint of an entry and one
declared anchor for each fingerprint and type: neither the order of its parts nor a way through JSON shows
in the id. -/
theorem computeID_order_free (hcodes : (s.territories.map Territory.code).Nodup)
    (hfps : ∀ t ∈ s.territories, (t.anchors.map Anchor.fingerprintSHA256).Nodup)
    (hdeclared : (s.internal.map declaredPair).Nodup) :
    (∀ s', Reordered s s' → computeID rt s' = computeID rt s) ∧
    (∀ time bytes j, marshalSnapshot time bytes s = some j →
      ∃ s', unmarshalSnapshot time bytes j = some s' ∧ computeID rt s' = computeID rt s) ∧
    ∀ s', cloneSnapshot rt s = .ok s' → computeID rt s' = computeID rt s := by
  refine ⟨fun s' h => ?_, fun time bytes j hj => ⟨_, unmarshalSnapshot_marshalSnapshot hj, rfl⟩, fun s' h => ?_⟩
  · unfold computeID
    rw [h.idContent_eq hcodes hfps hdeclared]
  · obtain rfl := cloneSnapshot_ok h
    rfl

namespace Symbolic

/-- Bytes as numbers. -/
def byteCodec : Codec UInt8 where
  encode b := some (.num b.toNat)
  decode
    | .num (.ofNat n) => some (.ofNat n)
    | _ => none
  decode_encode {b j} h := by
    cases h
    exact congrArg some (UInt8.ofNat_toNat (x := b))

def typedAnchor (fp type : String) : Anchor := { zeroAnchor with fingerprintSHA256 := fp, type := type }

/-- Two entries, a certificate declared under two types and two additions, with all of them in the given
order. -/
def arrangement (order : {α : Type} → α → α → List α) : Snapshot :=
  { id := "", prevID := "", generatedAt := 0, lotlSequence := 0, lotlIssueTime := 0, lotlNextUpdate := none
    lotlSignersDER := [], lotlPivotSeq := 0, lotlDigest := "", lotlPointers := [], advertisedOJ := ""
    bootstrapOJRef := "", bootstrapVersion := 0
    territories := order { code := "EE", anchors := order (typedAnchor "a" "") (typedAnchor "b" "") }
      { code := "LV", anchors := [typedAnchor "a" ""] }
    internal := order (typedAnchor "c" "access_ca") (typedAnchor "c" "pid_provider")
    pending := order ⟨typedAnchor "d" "", 1⟩ ⟨typedAnchor "e" "", 2⟩
    diff := none, declaredLoad := none }

def forwards : Snapshot := arrangement fun a b => [a, b]

def backwards : Snapshot := arrangement fun a b => [b, a]

theorem reordered_backwards : Reordered forwards backwards where
  rest := rfl
  territories := by
    refine ⟨backwards.territories.reverse, .cons ⟨rfl, .swap _ _ []⟩ (.cons ⟨rfl, .refl _⟩ .nil), ?_⟩
    exact (List.reverse_perm _).symm
  internal := .swap _ _ []
  pending := .swap _ _ []

end Symbolic

open Symbolic in
/-- All orders turned around. -/
theorem computeID_order_free_backwards :
    computeID growing.runtime backwards = computeID growing.runtime forwards ∧
    (∃ j s', marshalSnapshot .int (.list byteCodec) forwards = some j ∧
      unmarshalSnapshot .int (.list byteCodec) j = some s' ∧
      computeID growing.runtime s' = computeID growing.runtime forwards) := by
  have hjson : (marshalSnapshot .int (.list byteCodec) forwards).isSome := by decide +kernel
  obtain ⟨j, hj⟩ := Option.isSome_iff_exists.1 hjson
  have hfree := @computeID_order_free growing.runtime forwards (by decide) (by decide) (by decide)
  obtain ⟨s', hs', hid⟩ := hfree.2.1 .int (.list byteCodec) j hj
  exact ⟨hfree.1 backwards reordered_backwards, j, s', hj, hs', hid⟩

end TrustAnchor.Ingest
