import TrustAnchor.Trust.Lemmas.Entries

/-!
# The entries of a list in the order that a sort leaves

The sort decides nothing about entries that have the names of provider and service and the certificate in
common. What is made of a list is looked at here for every order that the comparison allows.
-/

namespace TrustAnchor.Trust

open Lib Tsl

variable {rt : Runtime} {acc : Accepted} {territory fp : String} {svcs svcs' : List (String × ServiceInformation)}
  {es es' : List (Anchor × Nat)}

/-- The entries of the services in an order that the comparison allows. -/
structure Arrangement (rt : Runtime) (acc : Accepted) (territory : String)
    (svcs : List (String × ServiceInformation)) (es : List (Anchor × Nat)) : Prop where
  perm : es.Perm (labelled rt acc territory svcs.zipIdx)
  sorted : es.Pairwise entryLe

theorem Arrangement.subset (h : Arrangement rt acc territory svcs es) :
    ∀ x ∈ es, x ∈ labelled rt acc territory svcs.zipIdx := fun _ hx => h.perm.subset hx

/-- What is returned for the entries in this order. -/
def outcome (rt : Runtime) (acc : Accepted) (svcs : List (String × ServiceInformation)) (es : List (Anchor × Nat)) :
    List Anchor :=
  (es.foldl (dedupStep (conflicting rt acc svcs)) { arrays := qualifierArrays rt svcs }).returned

theorem conflicting_perm (h : svcs.Perm svcs') : conflicting rt acc svcs = conflicting rt acc svcs' := by
  have hadmitted : ∀ e, Admitted acc svcs e ↔ Admitted acc svcs' e := fun e => and_congr_left fun _ => h.mem_iff
  funext fp
  rw [Bool.eq_iff_iff, conflicting_iff, conflicting_iff]
  simp only [hadmitted]

/-! ## The first entry of a certificate -/

theorem home_keptVisits {conflicting : String → Bool} {i : Nat} : home (keptVisits conflicting es) fp = some i ↔
    ∃ x, ((es.filter fun e => !conflicting e.1.fingerprintSHA256).filter fun e =>
      e.1.fingerprintSHA256 = fp).head? = some x ∧ x.2 = i := by
  unfold home keptVisits
  rw [List.filter_map, List.head?_map, Option.map_map, Option.map_eq_some_iff]
  rfl

/-- The service that a certificate's qualifiers start with is one of those with the smallest names. -/
theorem Arrangement.home_eq_some (h : Arrangement rt acc territory svcs es) {i : Nat}
    (hhome : home (keptVisits (conflicting rt acc svcs) es) fp = some i) : conflicting rt acc svcs fp = false ∧
      ∃ x ∈ labelled rt acc territory svcs.zipIdx, x.2 = i ∧ x.1.fingerprintSHA256 = fp ∧
        ∀ y ∈ labelled rt acc territory svcs.zipIdx, y.1.fingerprintSHA256 = fp → entryLe x y := by
  obtain ⟨x, hx, hi⟩ := home_keptVisits.1 hhome
  obtain ⟨hmem, hfp⟩ := List.mem_filter.1 (List.mem_of_mem_head? hx)
  obtain ⟨hmem, hc⟩ := List.mem_filter.1 hmem
  have hfp : x.1.fingerprintSHA256 = fp := of_decide_eq_true hfp
  have hc : conflicting rt acc svcs fp = false := by simpa [hfp] using hc
  refine ⟨hc, x, h.subset x hmem, hi, hfp, fun y hy hyfp => ?_⟩
  have hsorted := (h.sorted.filter fun e => !conflicting rt acc svcs e.1.fingerprintSHA256).filter fun e =>
    e.1.fingerprintSHA256 = fp
  have hyes : y ∈ (es.filter fun e => !conflicting rt acc svcs e.1.fingerprintSHA256).filter fun e =>
      e.1.fingerprintSHA256 = fp := by simpa [hyfp, hc] using h.perm.mem_iff.2 hy
  obtain ⟨t, ht⟩ := List.head?_eq_some_iff.1 hx
  rw [ht] at hsorted hyes
  rcases List.mem_cons.1 hyes with rfl | hyt
  · exact Std.Refl.refl (r := entryLe) y
  · exact (List.pairwise_cons.1 hsorted).1 y hyt

theorem Arrangement.exists_home (h : Arrangement rt acc territory svcs es) (hc : conflicting rt acc svcs fp = false)
    {x : Anchor × Nat} (hx : x ∈ labelled rt acc territory svcs.zipIdx) (hfp : x.1.fingerprintSHA256 = fp) :
    ∃ i, home (keptVisits (conflicting rt acc svcs) es) fp = some i := by
  have hmem : x ∈ (es.filter fun e => !conflicting rt acc svcs e.1.fingerprintSHA256).filter fun e =>
      e.1.fingerprintSHA256 = fp := by simpa [hfp, hc] using h.perm.mem_iff.2 hx
  obtain ⟨y, t, hy⟩ := List.exists_cons_of_ne_nil (List.ne_nil_of_mem hmem)
  exact ⟨y.2, home_keptVisits.2 ⟨y, by rw [hy]; rfl, rfl⟩⟩

/-! ## Services that order makes no difference to -/

/-- The certificates that can start with the service at a place always do, and those of their entries that tie
have the same qualifiers. -/
def Settled (rt : Runtime) (acc : Accepted) (territory : String) (svcs : List (String × ServiceInformation))
    (i : Nat) : Prop :=
  ∀ x ∈ labelled rt acc territory svcs.zipIdx, x.2 = i → conflicting rt acc svcs x.1.fingerprintSHA256 = false →
    (∀ y ∈ labelled rt acc territory svcs.zipIdx, y.1.fingerprintSHA256 = x.1.fingerprintSHA256 → entryLe x y) →
    ∀ y ∈ labelled rt acc territory svcs.zipIdx, y.1.fingerprintSHA256 = x.1.fingerprintSHA256 →
      (entryLe y x → y.2 = i) ∧ ∀ z ∈ labelled rt acc territory svcs.zipIdx, entryLe y z → entryLe z y →
        y.1.qualifiers = z.1.qualifiers

theorem Settled.home_eq {i : Nat} (hsettled : Settled rt acc territory svcs i)
    (h : Arrangement rt acc territory svcs es) (h' : Arrangement rt acc territory svcs es')
    (hhome : home (keptVisits (conflicting rt acc svcs) es) fp = some i) :
    home (keptVisits (conflicting rt acc svcs) es') fp = some i := by
  obtain ⟨hc, x, hx, hi, rfl, hmin⟩ := h.home_eq_some hhome
  obtain ⟨j, hj⟩ := h'.exists_home hc hx rfl
  obtain ⟨-, y, hy, rfl, hfp, hmin'⟩ := h'.home_eq_some hj
  rw [hj, (hsettled x hx hi hc hmin y hy hfp).1 (hmin' x hx rfl)]

/-- Entries that tie are of the same certificate. -/
theorem entryLe_antisymm {x y : Anchor × Nat} (hxy : entryLe x y) (hyx : entryLe y x) :
    x.1.fingerprintSHA256 = y.1.fingerprintSHA256 := anchorLe_antisymm hxy hyx

theorem Settled.group_eq {i : Nat} (hsettled : Settled rt acc territory svcs i)
    (h : Arrangement rt acc territory svcs es) (h' : Arrangement rt acc territory svcs es') :
    group (keptVisits (conflicting rt acc svcs) es) i = group (keptVisits (conflicting rt acc svcs) es') i := by
  have hhome : ∀ fp, home (keptVisits (conflicting rt acc svcs) es) fp = some i ↔
      home (keptVisits (conflicting rt acc svcs) es') fp = some i :=
    fun fp => ⟨hsettled.home_eq h h', hsettled.home_eq h' h⟩
  unfold group
  simp only [hhome]
  rw [keptVisits, List.filter_map, List.map_map, keptVisits, List.filter_map, List.map_map]
  refine map_eq_of_sorted_perm (r := entryLe) (fun y hy z hz hyz hzy => ?_) ((h.sorted.filter _).filter _)
    ((h'.sorted.filter _).filter _) (((h.perm.trans h'.perm.symm).filter _).filter _)
  obtain ⟨hy, hstart⟩ := List.mem_filter.1 hy
  have hstart : home (keptVisits (conflicting rt acc svcs) es') y.1.fingerprintSHA256 = some i :=
    of_decide_eq_true hstart
  obtain ⟨hc, x, hx, hi, hfp, hmin⟩ := h'.home_eq_some hstart
  have hy := h'.subset y (List.mem_of_mem_filter hy)
  have hz := h'.subset z (List.mem_of_mem_filter (List.mem_of_mem_filter hz))
  have hsame := (hsettled x hx hi (hfp ▸ hc) (hfp ▸ hmin) y hy hfp.symm).2 z hz hyz hzy
  simp only [Function.comp_apply, visitOf, hsame, entryLe_antisymm hyz hzy]

/-- Whatever order equals come in, for each service nothing is ever put in the place of another qualifier in its
array, or the order is settled. -/
def Steady (rt : Runtime) (acc : Accepted) (territory : String) (svcs : List (String × ServiceInformation)) : Prop :=
  ∀ i, (∀ es, Arrangement rt acc territory svcs es →
      Clashless (qualifierArrays rt svcs) i (keptVisits (conflicting rt acc svcs) es)) ∨
    Settled rt acc territory svcs i

/-- What the slice of a certificate holds at the end is the same in two orders if the unions of its entries'
qualifiers are. -/
theorem Steady.content_eq (hsteady : Steady rt acc territory svcs) (h : Arrangement rt acc territory svcs es)
    (h' : Arrangement rt acc territory svcs es')
    (hmerged : mergedItems (keptVisits (conflicting rt acc svcs) es) fp =
      mergedItems (keptVisits (conflicting rt acc svcs) es') fp) :
    (Heap.run (qualifierArrays rt svcs) (keptVisits (conflicting rt acc svcs) es)).content fp =
      (Heap.run (qualifierArrays rt svcs) (keptVisits (conflicting rt acc svcs) es')).content fp := by
  have hbased : Based _ _ (keptVisits (conflicting rt acc svcs) es) := keptVisits_based h.subset
  have hbased' : Based _ _ (keptVisits (conflicting rt acc svcs) es') := keptVisits_based h'.subset
  have hsettled : ∀ i, Settled rt acc territory svcs i → home (keptVisits (conflicting rt acc svcs) es) fp = some i →
      home (keptVisits (conflicting rt acc svcs) es') fp = some i →
      (Heap.run (qualifierArrays rt svcs) (keptVisits (conflicting rt acc svcs) es)).content fp =
        (Heap.run (qualifierArrays rt svcs) (keptVisits (conflicting rt acc svcs) es')).content fp :=
    fun i hsettled hi hi' => content_run_of_group hbased hbased' (hsettled.group_eq h h') rfl hi hi'
  cases hi : home (keptVisits (conflicting rt acc svcs) es) fp with
  | none =>
      rw [mergedItems_eq_none.2 hi, eq_comm, mergedItems_eq_none] at hmerged
      simp [Heap.content, ((run_consistent hbased).absent fp).2 hi, ((run_consistent hbased').absent fp).2 hmerged]
  | some i =>
      obtain ⟨hc, x, hx, -, hfp, -⟩ := h.home_eq_some hi
      obtain ⟨i', hi'⟩ := h'.exists_home hc hx hfp
      rcases hsteady i with hclash | hset
      · rcases hsteady i' with hclash' | hset
        · rw [content_run_of_clashless hbased (hclash es h) fp hi, hmerged,
            content_run_of_clashless hbased' (hclash' es' h') fp hi']
        · exact hsettled i' hset (hset.home_eq h' h hi') hi'
      · exact hsettled i hset hi (hset.home_eq h h' hi)

/-- The qualifiers of a certificate are those of its entries, or entries that tie have the same. -/
theorem Steady.qualifiers (hsteady : Steady rt acc territory svcs) (h : Arrangement rt acc territory svcs es)
    (hc : conflicting rt acc svcs fp = false) {m : Anchor} {qualifiers : List String}
    (hmerge : mergeAll Anchor.merge ((es.map Prod.fst).filter fun a => a.fingerprintSHA256 = fp) = some m)
    (hcontent : (Heap.run (qualifierArrays rt svcs) (keptVisits (conflicting rt acc svcs) es)).content fp =
      some qualifiers) : qualifiers = m.qualifiers ∨ ∀ y ∈ labelled rt acc territory svcs.zipIdx,
        y.1.fingerprintSHA256 = fp → ∀ z ∈ labelled rt acc territory svcs.zipIdx, entryLe y z → entryLe z y →
          y.1.qualifiers = z.1.qualifiers := by
  by_cases hclash : ∀ i, home (keptVisits (conflicting rt acc svcs) es) fp = some i →
      Clashless (qualifierArrays rt svcs) i (keptVisits (conflicting rt acc svcs) es)
  · exact .inl (qualifiers_of_clashless h.subset hc hclash hmerge hcontent)
  · push Not at hclash
    obtain ⟨i, hi, hclash⟩ := hclash
    have hsettled := (hsteady i).resolve_left fun hnever => hclash (hnever es h)
    obtain ⟨-, x, hx, hplace, rfl, hmin⟩ := h.home_eq_some hi
    exact .inr fun y hy hfp z hz => (hsettled x hx hplace hc hmin y hy hfp).2 z hz

/-! ## The services in another order -/

theorem labelled_map (σ : Nat → Nat) (svcs : List ((String × ServiceInformation) × Nat)) :
    (labelled rt acc territory svcs).map (fun x => (x.1, σ x.2)) =
      labelled rt acc territory (svcs.map fun e => (e.1, σ e.2)) := by
  simp [labelled, List.map_flatMap, List.filter_map, List.flatMap_map, Function.comp_def]

/-- The entries of the services in another order are those of the list at other places. -/
theorem Arrangement.relabel (h : Arrangement rt acc territory svcs' es') (hperm : svcs'.Perm svcs) :
    ∃ es, Arrangement rt acc territory svcs es ∧ es.map Prod.fst = es'.map Prod.fst ∧
      ∀ fp, (Heap.run (qualifierArrays rt svcs') (keptVisits (conflicting rt acc svcs) es')).content fp =
        (Heap.run (qualifierArrays rt svcs) (keptVisits (conflicting rt acc svcs) es)).content fp := by
  obtain ⟨σ, hσ, hplaces⟩ := exists_places hperm
  have harranged : Arrangement rt acc territory svcs (es'.map fun x => (x.1, σ x.2)) := by
    refine ⟨(h.perm.map _).trans ?_, List.pairwise_map.2 h.sorted⟩
    rw [labelled_map]
    exact (hplaces.filter _).flatMap_right _
  refine ⟨_, harranged, by simp, fun fp => ?_⟩
  have hvisits : keptVisits (conflicting rt acc svcs) (es'.map fun x => (x.1, σ x.2)) =
      (keptVisits (conflicting rt acc svcs) es').map fun v => { v with array := σ v.array } := by
    simp [keptVisits, List.filter_map, Function.comp_def, visitOf]
  have hbased : Based _ _ (keptVisits (conflicting rt acc svcs) (es'.map fun x => (x.1, σ x.2))) :=
    keptVisits_based harranged.subset
  rw [hvisits] at hbased ⊢
  refine content_run_of_places hσ (keptVisits_based h.subset) hbased (fun v hv => ?_) fp
  obtain ⟨x, hx, rfl⟩ := List.mem_map.1 hv
  obtain ⟨e, he, -, -⟩ := mem_labelled (h.subset x (List.mem_of_mem_filter hx))
  have hplace : svcs'[x.2]? = some e := List.mk_mem_zipIdx_iff_getElem?.1 he
  have hplace' : svcs[σ x.2]? = some e :=
    List.mk_mem_zipIdx_iff_getElem?.1 (hplaces.subset (List.mem_map.2 ⟨(e, x.2), he, rfl⟩))
  simp [qualifierArrays, visitOf, hplace, hplace']

end TrustAnchor.Trust
