import TrustAnchor.Lib.Order
import TrustAnchor.Trust.Lemmas.Diff
import TrustAnchor.Trust.Lemmas.Internal

/-!
# What the id knows of the anchors

The projection behind the id, without sequence numbers, empty entries and the pending set, is the list of
the places with the projected anchors at them.
-/

namespace TrustAnchor.Trust

open Lib

variable {s s' : Snapshot} {t : Territory} {code : String} {i : IDAnchor}

/-- The part of the projection that is about served anchors. -/
def IDContent.anchorPart (c : IDContent) : List (String × List IDAnchor) × List IDAnchor :=
  ((c.territories.filter fun t => t.anchors ≠ []).map fun t => (t.code, t.anchors), c.internal)

/-- The projected anchors at their places. -/
def idPlaced (s : Snapshot) : List (Place × IDAnchor) :=
  (placed (some s)).map fun e => (e.1, idAnchor e.2)

/-- One entry for each territory, one anchor for each place, and nothing in a failed entry. -/
structure Arranged (s : Snapshot) : Prop where
  codes : (s.territories.map Territory.code).Nodup
  fingerprints : ∀ t ∈ s.territories, (t.anchors.map Anchor.fingerprintSHA256).Nodup
  failed : ∀ t ∈ s.territories, t.failed = true → t.anchors = []
  declared : (s.internal.map declaredPair).Nodup

theorem Arranged.places_nodup (h : Arranged s) : (places (some s)).Nodup := by
  unfold places placed
  simp only [List.map_append, List.map_flatMap, List.map_map]
  refine List.nodup_append.2 ⟨?_, ?_, ?_⟩
  · rw [List.nodup_flatMap]
    refine ⟨fun t ht => ?_, ?_⟩
    · refine List.Nodup.of_map (f := Place.fingerprint) ?_
      simpa [Function.comp_def, Place.fingerprint] using h.fingerprints t ht
    · refine (List.pairwise_map.1 h.codes).imp fun {t u} hne => ?_
      simp only [Function.onFun, List.Disjoint, List.mem_map, Function.comp_apply]
      rintro - ⟨a, -, rfl⟩ ⟨b, -, heq⟩
      exact hne (Place.listed.inj heq).1.symm
  · have hpairs : (s.internal.map fun a => (a.fingerprintSHA256, a.type)).Nodup := h.declared
    have hinj : Function.Injective fun e : String × String => Place.declared e.1 e.2 := by
      intro e e' heq
      obtain ⟨hfp, htype⟩ := Place.declared.inj heq
      exact Prod.ext hfp htype
    simpa [Function.comp_def] using hpairs.map hinj
  · simp only [List.mem_flatMap, List.mem_map, Function.comp_apply]
    rintro - ⟨t, -, a, -, rfl⟩ - ⟨b, -, rfl⟩ heq
    cases heq

/-! ## The projection of an entry -/

theorem mem_idTerritory : i ∈ (idTerritory t).anchors ↔ i ∈ t.anchors.map idAnchor := List.mem_insertionSort _

theorem mem_idContent_internal : i ∈ (idContent s).internal ↔ i ∈ s.internal.map idAnchor :=
  List.mem_insertionSort _

theorem mem_idPlaced_declared {fp type : String} : (.declared fp type, i) ∈ idPlaced s ↔
    (i.fingerprint = fp ∧ i.type = type) ∧ i ∈ s.internal.map idAnchor := by
  simp only [idPlaced, List.mem_map, Prod.exists, Prod.mk.injEq, mem_placed]
  constructor
  · rintro ⟨π, a, ⟨t, -, -, rfl⟩ | ⟨ha, rfl⟩, hπ, rfl⟩
    · cases hπ
    · obtain ⟨rfl, rfl⟩ := Place.declared.inj hπ
      exact ⟨⟨rfl, rfl⟩, a, ha, rfl⟩
  · rintro ⟨⟨rfl, rfl⟩, a, ha, rfl⟩
    exact ⟨_, a, .inr ⟨ha, rfl⟩, rfl, rfl⟩

theorem mem_anchorPart (h : Arranged s) {as : List IDAnchor} :
    (code, as) ∈ (idContent s).anchorPart.1 ↔
      ∃ t ∈ s.territories, t.anchors ≠ [] ∧ t.code = code ∧ (idTerritory t).anchors = as := by
  have hne : ∀ t : Territory, (idTerritory t).anchors ≠ [] ↔ t.anchors ≠ [] := by
    intro t
    rw [ne_eq, ne_eq, ← List.length_eq_zero_iff, ← List.length_eq_zero_iff]
    simp [idTerritory]
  simp only [IDContent.anchorPart, idContent, List.mem_map, List.mem_filter, List.mem_insertionSort,
    decide_eq_true_eq, Prod.mk.injEq]
  constructor
  · rintro ⟨-, ⟨⟨t, ⟨ht, -⟩, rfl⟩, has⟩, rfl, rfl⟩
    exact ⟨t, ht, (hne t).1 has, rfl, rfl⟩
  · rintro ⟨t, ht, has, rfl, rfl⟩
    refine ⟨_, ⟨⟨t, ⟨ht, ?_⟩, rfl⟩, (hne t).2 has⟩, rfl, rfl⟩
    cases hfailed : t.failed with
    | false => rfl
    | true => exact absurd (h.failed t ht hfailed) has

/-! ## Equal projections -/

theorem idAnchorLe_eq : idAnchorLe = lexLe IDAnchor.fingerprint (keyLe IDAnchor.type) := rfl

instance : Std.Total idAnchorLe := idAnchorLe_eq ▸ inferInstance

instance : IsTrans IDAnchor idAnchorLe := idAnchorLe_eq ▸ inferInstance

theorem anchorPart_sortedGroups (h : Arranged s) :
    SortedGroups (keyLe IDAnchor.fingerprint) IDAnchor.fingerprint (idContent s).anchorPart.1 where
  codes := by
    have hsorted : ((idContent s).territories.map IDTerritory.code).Pairwise (· ≤ ·) :=
      List.pairwise_map.2 (List.pairwise_insertionSort (keyLe IDTerritory.code) _)
    have hnodup : ((idContent s).territories.map IDTerritory.code).Nodup := by
      rw [idContent, ((List.perm_insertionSort _ _).map _).nodup_iff, List.map_map]
      exact h.codes.sublist (List.filter_sublist.map _)
    rw [IDContent.anchorPart, List.map_map]
    refine ((hsorted.and hnodup).imp fun h => lt_of_le_of_ne h.1 h.2).sublist ?_
    exact List.filter_sublist.map _
  nonempty e he := by
    obtain ⟨t, ht, rfl⟩ := List.mem_map.1 he
    simpa using (List.mem_filter.1 ht).2
  sorted e he := by
    obtain ⟨t, -, -, -, heq⟩ := (mem_anchorPart h).1 he
    rw [← heq]
    exact List.pairwise_insertionSort (keyLe IDAnchor.fingerprint) _
  keys e he := by
    obtain ⟨t, ht, -, -, heq⟩ := (mem_anchorPart h).1 he
    rw [← heq, idTerritory, ((List.perm_insertionSort _ _).map _).nodup_iff, List.map_map]
    exact h.fingerprints t ht

theorem mem_idPlaced_listed (h : Arranged s) {fp : String} : (.listed code fp, i) ∈ idPlaced s ↔
    i.fingerprint = fp ∧ ∃ as, (code, as) ∈ (idContent s).anchorPart.1 ∧ i ∈ as := by
  constructor
  · intro hmem
    simp only [idPlaced, List.mem_map, Prod.exists, Prod.mk.injEq, mem_placed] at hmem
    obtain ⟨π, a, ⟨t, ht, ha, rfl⟩ | ⟨-, rfl⟩, hπ, rfl⟩ := hmem
    · obtain ⟨rfl, rfl⟩ := Place.listed.inj hπ
      refine ⟨rfl, _, (mem_anchorPart h).2 ⟨t, ht, List.ne_nil_of_mem ha, rfl, rfl⟩, ?_⟩
      exact mem_idTerritory.2 (List.mem_map_of_mem ha)
    · cases hπ
  · rintro ⟨rfl, as, has, hi⟩
    obtain ⟨t, ht, -, rfl, rfl⟩ := (mem_anchorPart h).1 has
    obtain ⟨a, ha, rfl⟩ := List.mem_map.1 (mem_idTerritory.1 hi)
    exact List.mem_map_of_mem (f := fun e => (e.1, idAnchor e.2)) (mem_placed.2 (.inl ⟨t, ht, ha, rfl⟩))

theorem idAnchorLe_antisymm (a b : IDAnchor) (hab : idAnchorLe a b) (hba : idAnchorLe b a) :
    (a.fingerprint, a.type) = (b.fingerprint, b.type) := by
  rw [idAnchorLe_eq] at hab hba
  obtain ⟨hfp, hab, hba⟩ := lexLe_antisymm hab hba
  rw [hfp, le_antisymm hab hba]

theorem idPair_nodup (h : (s.internal.map declaredPair).Nodup) :
    ((s.internal.map idAnchor).map fun i => (i.fingerprint, i.type)).Nodup := by
  rw [List.map_map]
  exact h

theorem idContent_internal_eq_iff (h : (s.internal.map declaredPair).Nodup) :
    (idContent s').internal = (idContent s).internal ↔
      (s'.internal.map idAnchor).Perm (s.internal.map idAnchor) := by
  constructor
  · intro heq
    have hperm : ∀ u : Snapshot, (idContent u).internal.Perm (u.internal.map idAnchor) :=
      fun u => List.perm_insertionSort idAnchorLe (u.internal.map idAnchor)
    exact (hperm s').symm.trans (heq ▸ hperm s)
  · exact insertionSort_eq_of_perm_of_keys idAnchorLe_antisymm (idPair_nodup h)

theorem idContent_internal_congr (h : Arranged s) (h' : Arranged s')
    (heq : ∀ e, e ∈ idPlaced s ↔ e ∈ idPlaced s') : (idContent s).internal = (idContent s').internal := by
  refine (idContent_internal_eq_iff h'.declared).2 ?_
  refine (List.perm_ext_iff_of_nodup (idPair_nodup h.declared).of_map (idPair_nodup h'.declared).of_map).2 ?_
  intro i
  have hplace := heq (.declared i.fingerprint i.type, i)
  simpa only [mem_idPlaced_declared, true_and, and_self] using hplace

/-- Two snapshots have the same projected anchors exactly if they have them at the same places. -/
theorem anchorPart_eq_iff (h : Arranged s) (h' : Arranged s') :
    (idContent s).anchorPart = (idContent s').anchorPart ↔ ∀ e, e ∈ idPlaced s ↔ e ∈ idPlaced s' := by
  constructor
  · rintro heq ⟨π, i⟩
    cases π with
    | listed code fp => rw [mem_idPlaced_listed h, mem_idPlaced_listed h', heq]
    | declared fp type =>
        have hinternal : (idContent s).internal = (idContent s').internal := congrArg Prod.snd heq
        rw [mem_idPlaced_declared, mem_idPlaced_declared, ← mem_idContent_internal,
          ← mem_idContent_internal, hinternal]
  · intro heq
    refine Prod.ext ?_ (idContent_internal_congr h h' heq)
    refine SortedGroups.eq (fun a b hab hba => le_antisymm hab hba) (anchorPart_sortedGroups h)
      (anchorPart_sortedGroups h') fun c i => ?_
    simpa only [mem_idPlaced_listed h, mem_idPlaced_listed h', true_and] using heq (.listed c i.fingerprint, i)

end TrustAnchor.Trust
