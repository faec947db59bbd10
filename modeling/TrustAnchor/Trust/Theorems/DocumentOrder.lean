import TrustAnchor.Trust.Lemmas.Arrangement
import TrustAnchor.Trust.Theorems.Extraction

/-!
# Extraction and the order of the document

The anchors come out sorted, so the order of providers and services in the list decides only where entries
of one certificate tie on the names of provider and service. The sort is not stable either: what decides is
then the order it happens to leave.
-/

namespace TrustAnchor.Trust

open Lib Tsl Ingest.Symbolic

variable {rt : Runtime} {acc : Accepted} {territory fp : String} {svcs svcs' : List (String × ServiceInformation)}
  {es es' : List (Anchor × Nat)}

/-! ## Merging in either order -/

/-- What merging leaves alone. -/
def Anchor.lasting (a : Anchor) : Anchor := { a with uses := [], qualifiers := [], qcWithQSCD := false }

theorem Anchor.ext_lasting {a b : Anchor} (h : a.lasting = b.lasting) (huses : a.uses = b.uses)
    (hqualifiers : a.qualifiers = b.qualifiers) (hqscd : a.qcWithQSCD = b.qcWithQSCD) : a = b := by
  cases a
  cases b
  simp_all [lasting]

theorem lasting_of_withQualifiers {a b : Anchor} {qualifiers qualifiers' : List String}
    (h : a.withQualifiers qualifiers = b.withQualifiers qualifiers') :
    a.lasting = b.lasting ∧ a.uses = b.uses ∧ qualifiers = qualifiers' := by
  have hlasting := congrArg Anchor.lasting h
  have huses := congrArg Anchor.uses h
  have hqualifiers := congrArg Anchor.qualifiers h
  exact ⟨hlasting, huses, hqualifiers⟩

theorem foldl_merge (x : Anchor) (as : List Anchor) :
    (as.foldl Anchor.merge x).lasting = x.lasting ∧
      (as.foldl Anchor.merge x).uses = union x.uses (as.flatMap Anchor.uses) ∧
      (as.foldl Anchor.merge x).qualifiers = union x.qualifiers (as.flatMap Anchor.qualifiers) := by
  induction as generalizing x with
  | nil => exact ⟨rfl, rfl, rfl⟩
  | cons a as ih =>
      obtain ⟨hlasting, huses, hqualifiers⟩ := ih (Anchor.merge x a)
      refine ⟨hlasting, huses.trans ?_, hqualifiers.trans ?_⟩
      · exact (union_append (l := x.uses)).symm
      · exact (union_append (l := x.qualifiers)).symm

/-- The two entries can be merged onto the earlier ones in either order: what they add to uses and
qualifiers is the same in both, and if there is no earlier entry then so is everything else. -/
def Interchangeable (earlier : List Anchor) (a b : Anchor) : Prop :=
  if earlier = [] then Anchor.merge a b = Anchor.merge b a
  else Interchange (earlier.flatMap Anchor.uses) a.uses b.uses ∧
    Interchange (earlier.flatMap Anchor.qualifiers) a.qualifiers b.qualifiers

theorem Interchangeable.uses {earlier : List Anchor} {a b : Anchor} (h : Interchangeable earlier a b) :
    Interchange (earlier.flatMap Anchor.uses) a.uses b.uses := by
  unfold Interchangeable at h
  split_ifs at h
  · exact interchange_of_union_comm (congrArg Anchor.uses h)
  · exact h.1

theorem Interchangeable.qualifiers {earlier : List Anchor} {a b : Anchor} (h : Interchangeable earlier a b) :
    Interchange (earlier.flatMap Anchor.qualifiers) a.qualifiers b.qualifiers := by
  unfold Interchangeable at h
  split_ifs at h
  · exact interchange_of_union_comm (congrArg Anchor.qualifiers h)
  · exact h.2

theorem mergeAll_swap {earlier done : List Anchor} {a b : Anchor} (h : Interchangeable earlier a b)
    (hsub : earlier ⊆ done) :
    mergeAll Anchor.merge (done ++ [a, b]) = mergeAll Anchor.merge (done ++ [b, a]) := by
  cases done with
  | nil =>
      rw [List.subset_nil.1 hsub, Interchangeable, if_pos rfl] at h
      exact congrArg some h
  | cons x t =>
      obtain ⟨-, huses, hqualifiers⟩ := foldl_merge x t
      have hmem : ∀ {g : Anchor → List String}, earlier.flatMap g ⊆ union (g x) (t.flatMap g) := by
        intro g u hu
        obtain ⟨c, hc, hu⟩ := List.mem_flatMap.1 hu
        rw [mem_union]
        rcases List.mem_cons.1 (hsub hc) with rfl | hc
        · exact .inl hu
        · exact .inr (List.mem_flatMap.2 ⟨c, hc, hu⟩)
      simp only [List.cons_append, mergeAll_cons, List.foldl_append, List.foldl_cons, List.foldl_nil, Option.some_inj]
      refine Anchor.ext_lasting rfl ?_ ?_ (Bool.or_right_comm ..)
      · exact (h.uses.mono hmem).congr fun u => by rw [huses]
      · exact (h.qualifiers.mono hmem).congr fun u => by rw [hqualifiers]

/-! ## The condition -/

/-- Where entries of a certificate that is returned tie on their names, they can be merged in either
order. -/
def OrderFree (rt : Runtime) (acc : Accepted) (territory : String) (svcs : List (String × ServiceInformation)) :
    Prop :=
  ∀ fp, conflicting rt acc svcs fp = false →
    ∀ a ∈ entriesOf rt acc territory svcs fp, ∀ b ∈ entriesOf rt acc territory svcs fp,
      a.tspName = b.tspName → a.serviceName = b.serviceName →
        Interchangeable ((entriesOf rt acc territory svcs fp).filter fun c => ¬ anchorLe a c) a b

/-- Entries of one certificate tie exactly if their names are the same. -/
theorem entriesOf_tie {a b : Anchor} (ha : a ∈ entriesOf rt acc territory svcs fp)
    (hb : b ∈ entriesOf rt acc territory svcs fp) :
    anchorLe a b ∧ anchorLe b a ↔ a.tspName = b.tspName ∧ a.serviceName = b.serviceName := by
  constructor
  · rintro ⟨hab, hba⟩
    rw [anchorLe_eq] at hab hba
    obtain ⟨htsp, hab, hba⟩ := lexLe_antisymm hab hba
    exact ⟨htsp, (lexLe_antisymm hab hba).1⟩
  · rintro ⟨htsp, hname⟩
    simp [anchorLe, htsp, hname, (mem_entriesOf.1 ha).2, (mem_entriesOf.1 hb).2]

/-! ## Sufficient -/

/-- The entries of one certificate in an order that the comparison allows. -/
theorem Arrangement.entriesOf (h : Arrangement rt acc territory svcs es) (fp : String) :
    ((es.map Prod.fst).filter fun a => a.fingerprintSHA256 = fp).Pairwise anchorLe ∧
      ((es.map Prod.fst).filter fun a => a.fingerprintSHA256 = fp).Perm (entriesOf rt acc territory svcs fp) := by
  have hsorted : (es.map Prod.fst).Pairwise anchorLe := List.pairwise_map.2 h.sorted
  refine ⟨hsorted.filter _, ?_⟩
  rw [Trust.entriesOf, ← labelled_fst]
  exact (h.perm.map Prod.fst).filter _

theorem OrderFree.mergeAll_eq (hfree : OrderFree rt acc territory svcs) (h : Arrangement rt acc territory svcs es)
    (h' : Arrangement rt acc territory svcs es') (hc : conflicting rt acc svcs fp = false) :
    mergeAll Anchor.merge ((es.map Prod.fst).filter fun a => a.fingerprintSHA256 = fp) =
      mergeAll Anchor.merge ((es'.map Prod.fst).filter fun a => a.fingerprintSHA256 = fp) := by
  refine foldl_eq_of_sorted_perm (r := anchorLe) (fun done a b ha hb hab hba hbelow => ?_)
    (h.entriesOf fp).1 (h'.entriesOf fp).1 (h.entriesOf fp).2 (h'.entriesOf fp).2
  obtain ⟨htsp, hname⟩ := (entriesOf_tie ha hb).1 ⟨hab, hba⟩
  refine mergeAll_swap (hfree fp hc a ha b hb htsp hname) fun c hmem => ?_
  obtain ⟨hmem, hac⟩ := List.mem_filter.1 hmem
  exact hbelow c hmem (of_decide_eq_true hac)

theorem outcome_eq (hsteady : Steady rt acc territory svcs) (hfree : OrderFree rt acc territory svcs)
    (h : Arrangement rt acc territory svcs es) (h' : Arrangement rt acc territory svcs' es')
    (hperm : svcs'.Perm svcs) : outcome rt acc svcs' es' = outcome rt acc svcs es := by
  have hsorted : ∀ {svcs es}, Arrangement rt acc territory svcs es → (outcome rt acc svcs es).Pairwise anchorLe :=
    fun h => dedup_sorted h.sorted
  have hnodup : ∀ svcs es, ((outcome rt acc svcs es).map Anchor.fingerprintSHA256).Nodup := fun _ _ => dedup_nodup
  obtain ⟨es'', h'', hentries, hcontent⟩ := h'.relabel hperm
  refine eq_of_sorted_of_mem (k := Anchor.fingerprintSHA256) (fun _ _ => anchorLe_antisymm) (hsorted h') (hsorted h)
    (hnodup _ _) (hnodup _ _) fun k => ?_
  rw [outcome, outcome, mem_returned, mem_returned, conflicting_perm hperm]
  refine and_congr_right fun hc => ?_
  have hmerge := hfree.mergeAll_eq h h'' hc
  rw [hcontent, ← hentries, ← hmerge, hsteady.content_eq h h'']
  rw [mergedItems_kept hc, mergedItems_kept hc, hmerge]

/-! ## Necessary -/

/-- Two lists that can both be added first after the same elements, with one result. -/
theorem interchange_of_merge {g : Anchor → List String} {earlier t t' after after' : List Anchor} {a b x x' : Anchor}
    (hbelow : ∀ c, c ∈ x :: t ↔ c ∈ earlier) (hbelow' : ∀ c, c ∈ x' :: t' ↔ c ∈ earlier)
    (h : union (g x) ((t ++ a :: after).flatMap g) = union (g x') ((t' ++ b :: after').flatMap g)) :
    Interchange (earlier.flatMap g) (g a) (g b) := by
  have hset : ∀ {x : Anchor} {t : List Anchor}, (∀ c, c ∈ x :: t ↔ c ∈ earlier) →
      ∀ u, u ∈ union (g x) (t.flatMap g) ↔ u ∈ earlier.flatMap g := by
    intro x t hbelow u
    rw [mem_union, ← List.mem_append, ← List.flatMap_cons, List.mem_flatMap, List.mem_flatMap]
    simp only [hbelow]
  rw [List.flatMap_append, List.flatMap_append, union_append, union_append, List.flatMap_cons,
    List.flatMap_cons] at h
  -- what was there before the two is the same list
  have heq : union (g x) (t.flatMap g) = union (g x') (t'.flatMap g) := by
    have happend := h
    rw [union_eq (l := union (g x) (t.flatMap g)), union_eq (l := union (g x') (t'.flatMap g))] at happend
    exact eq_of_append_eq happend (fun u => (hset hbelow u).trans (hset hbelow' u).symm)
      (fun u hu => (mem_fresh.1 hu).2) fun u hu => (mem_fresh.1 hu).2
  rw [← heq] at h
  exact (interchange_of_union_eq h).congr (hset hbelow)

/-- Two entries that can both come first among equals, with one result, can be merged in either order. -/
theorem interchangeable_of_merge {earlier below below' after after' : List Anchor} {a b k k' : Anchor}
    (hbelow : ∀ c, c ∈ below ↔ c ∈ earlier) (hbelow' : ∀ c, c ∈ below' ↔ c ∈ earlier)
    (h : mergeAll Anchor.merge (below ++ a :: after) = some k)
    (h' : mergeAll Anchor.merge (below' ++ b :: after') = some k')
    (hlasting : k.lasting = k'.lasting) (huses : k.uses = k'.uses)
    (hqualifiers : k.qualifiers = k'.qualifiers ∨ a.qualifiers = b.qualifiers) : Interchangeable earlier a b := by
  unfold Interchangeable
  split_ifs with hnone
  · obtain rfl : below = [] := List.eq_nil_iff_forall_not_mem.2 fun c hc => by simp [hbelow, hnone] at hc
    obtain rfl : below' = [] := List.eq_nil_iff_forall_not_mem.2 fun c hc => by simp [hbelow', hnone] at hc
    rw [List.nil_append, mergeAll_cons, Option.some.injEq] at h h'
    subst h h'
    obtain ⟨hlast, huse, hqual⟩ := foldl_merge a after
    obtain ⟨hlast', huse', hqual'⟩ := foldl_merge b after'
    refine Anchor.ext_lasting (hlast.symm.trans (hlasting.trans hlast')) ?_ ?_ (Bool.or_comm ..)
    · exact union_comm_of_append_eq (huse.symm.trans (huses.trans huse'))
    · rcases hqualifiers with hqualifiers | hqualifiers
      · exact union_comm_of_append_eq (hqual.symm.trans (hqualifiers.trans hqual'))
      · simp [Anchor.merge, hqualifiers]
  · obtain ⟨c, hc⟩ := List.exists_mem_of_ne_nil earlier hnone
    obtain ⟨x, t, rfl⟩ := List.exists_cons_of_ne_nil (List.ne_nil_of_mem ((hbelow c).2 hc))
    obtain ⟨x', t', rfl⟩ := List.exists_cons_of_ne_nil (List.ne_nil_of_mem ((hbelow' c).2 hc))
    rw [List.cons_append, mergeAll_cons, Option.some.injEq] at h h'
    subst h h'
    obtain ⟨-, huse, hqual⟩ := foldl_merge x (t ++ a :: after)
    obtain ⟨-, huse', hqual'⟩ := foldl_merge x' (t' ++ b :: after')
    refine ⟨interchange_of_merge hbelow hbelow' (huse.symm.trans (huses.trans huse')), ?_⟩
    rcases hqualifiers with hqualifiers | hqualifiers
    · exact interchange_of_merge hbelow hbelow' (hqual.symm.trans (hqualifiers.trans hqual'))
    · rw [hqualifiers]
      rfl

/-! ## Reordering a list -/

/-- The same providers with the same services, both in any order. -/
def Reordered (providers providers' : List Provider) : Prop :=
  ∃ mid, List.Forall₂ (fun p q : Provider => p.name = q.name ∧ p.services.Perm q.services) providers mid ∧
    mid.Perm providers'

theorem Reordered.services_perm {providers providers' : List Provider} (h : Reordered providers providers') :
    (services providers).Perm (services providers') := by
  obtain ⟨mid, hmid, hperm⟩ := h
  refine List.Perm.trans ?_ (hperm.flatMap_right _)
  clear hperm
  induction hmid with
  | nil => exact .refl _
  | @cons p q ps qs hpq _ ih =>
      rw [services, List.flatMap_cons, List.flatMap_cons, hpq.1]
      exact (hpq.2.map _).append ih

theorem Reordered.refl (providers : List Provider) : Reordered providers providers :=
  ⟨providers, List.forall₂_same.2 fun _ _ => ⟨rfl, .refl _⟩, .refl _⟩

/-- The runtime with another implementation of `sort.Slice`. -/
def sortedBy (rt : Runtime) (s : Sorter) : Runtime := { rt with sortSlice := s }

theorem returned_sortedBy (s : Sorter) : (dedupEntries (sortedBy rt s) acc territory svcs).returned =
    outcome rt acc svcs (s.run entryLe (labelled rt acc territory svcs.zipIdx)) := rfl

/-- Some sort puts the entry right behind those of its certificate with smaller names. -/
theorem exists_sorted_first {x : Anchor × Nat} (hx : x ∈ labelled rt acc territory svcs.zipIdx)
    (hfp : x.1.fingerprintSHA256 = fp) : ∃ (s : Sorter) (below rest : List Anchor),
      (((s.run entryLe (labelled rt acc territory svcs.zipIdx)).map Prod.fst).filter fun a =>
        a.fingerprintSHA256 = fp) = below ++ x.1 :: rest ∧
      ∀ c, c ∈ below ↔ c ∈ (entriesOf rt acc territory svcs fp).filter fun c => ¬ anchorLe x.1 c := by
  obtain ⟨s, below, rest, hrun, hbelow⟩ := Sorter.exists_first (r := entryLe) hx
  refine ⟨s, (below.map Prod.fst).filter fun a => a.fingerprintSHA256 = fp,
    (rest.map Prod.fst).filter fun a => a.fingerprintSHA256 = fp, by simp [hrun, hfp], fun c => ?_⟩
  rw [List.mem_filter, List.mem_filter, List.mem_map, mem_entriesOf, ← labelled_fst, List.mem_map]
  simp only [hbelow, decide_eq_true_eq]
  constructor
  · rintro ⟨⟨y, ⟨hy, hle⟩, rfl⟩, hcfp⟩
    exact ⟨⟨⟨y, hy, rfl⟩, hcfp⟩, hle⟩
  · rintro ⟨⟨⟨y, hy, rfl⟩, hcfp⟩, hle⟩
    exact ⟨⟨y, ⟨hy, hle⟩, rfl⟩, hcfp⟩

/-- Reordering a list changes no anchor, whatever the sort does with equals, exactly if entries that tie can be
merged in either order. -/
theorem extractAnchors_reordered_iff (tl : TrustedList) (providers : List Provider) (territory : String)
    (acceptedStatuses acceptedTypes : List String)
    (hsteady : Steady rt (accepted acceptedStatuses acceptedTypes) territory (services providers)) :
    (∀ s s' providers', Reordered providers providers' →
        (extractAnchors (sortedBy rt s') { tl with providerList := some providers' } territory acceptedStatuses
          acceptedTypes).map Prod.fst =
        (extractAnchors (sortedBy rt s) { tl with providerList := some providers } territory acceptedStatuses
          acceptedTypes).map Prod.fst) ↔
      OrderFree rt (accepted acceptedStatuses acceptedTypes) territory (services providers) := by
  have hextract : ∀ s providers', (extractAnchors (sortedBy rt s) { tl with providerList := some providers' } territory
      acceptedStatuses acceptedTypes).map Prod.fst = .ok (outcome rt (accepted acceptedStatuses acceptedTypes)
        (services providers') (s.run entryLe (labelled rt (accepted acceptedStatuses acceptedTypes) territory
          (services providers').zipIdx))) := by
    intro s providers'
    rw [extractAnchors_eq rfl]
    rfl
  simp only [hextract, Except.ok.injEq]
  generalize accepted acceptedStatuses acceptedTypes = acc at hsteady
  constructor
  · intro hsame fp hc a ha b hb htsp hname
    obtain ⟨hab, hba⟩ := (entriesOf_tie ha hb).2 ⟨htsp, hname⟩
    have hplaced : ∀ {a}, a ∈ entriesOf rt acc territory (services providers) fp →
        ∃ x ∈ labelled rt acc territory (services providers).zipIdx, x.1 = a ∧ x.1.fingerprintSHA256 = fp := by
      intro a ha
      obtain ⟨ha, hfp⟩ := mem_entriesOf.1 ha
      rw [← labelled_fst] at ha
      obtain ⟨x, hx, rfl⟩ := List.mem_map.1 ha
      exact ⟨x, hx, rfl, hfp⟩
    obtain ⟨x, hx, rfl, hxfp⟩ := hplaced ha
    obtain ⟨y, hy, rfl, hyfp⟩ := hplaced hb
    obtain ⟨s, below, rest, hsplit, hbelow⟩ := exists_sorted_first hx hxfp
    obtain ⟨s', below', rest', hsplit', hbelow'⟩ := exists_sorted_first hy hyfp
    have hreturned : ∃ k ∈ (dedupEntries (sortedBy rt s) acc territory (services providers)).returned,
        k.fingerprintSHA256 = fp := exists_dedupEntries_iff.2 ⟨hc, List.ne_nil_of_mem ha⟩
    obtain ⟨k, hk, rfl⟩ := hreturned
    rw [returned_sortedBy] at hk
    obtain ⟨-, m, qualifiers, hmerge, hcontent, heq⟩ := mem_returned.1 hk
    rw [← hsame s s' providers (Reordered.refl providers)] at hk
    obtain ⟨-, m', qualifiers', hmerge', hcontent', heq'⟩ := mem_returned.1 hk
    obtain ⟨hlasting, huses, hsameQualifiers⟩ := lasting_of_withQualifiers (heq.symm.trans heq')
    have hqualifiers : m.qualifiers = m'.qualifiers ∨ x.1.qualifiers = y.1.qualifiers := by
      rcases hsteady.qualifiers ⟨s.perm entryLe _, s.sorted entryLe _⟩ hc hmerge hcontent with hown | htie
      · rcases hsteady.qualifiers ⟨s'.perm entryLe _, s'.sorted entryLe _⟩ hc hmerge' hcontent' with hown' | htie
        · exact .inl (hown.symm.trans (hsameQualifiers.trans hown'))
        · exact .inr (htie x hx hxfp y hy hab hba)
      · exact .inr (htie x hx hxfp y hy hab hba)
    rw [hsplit] at hmerge
    rw [hsplit'] at hmerge'
    refine interchangeable_of_merge hbelow (fun c => ?_) hmerge hmerge' hlasting huses hqualifiers
    -- the two tie, so the same entries are below them
    have hle : anchorLe x.1 c ↔ anchorLe y.1 c := by
      unfold anchorLe
      rw [htsp, hname, hxfp, hyfp]
    rw [hbelow', List.mem_filter, List.mem_filter, decide_eq_true_eq, decide_eq_true_eq, hle]
  · intro hfree s s' providers' hreordered
    exact outcome_eq hsteady hfree ⟨s.perm entryLe _, s.sorted entryLe _⟩ ⟨s'.perm entryLe _, s'.sorted entryLe _⟩
      hreordered.services_perm.symm

theorem reordered_reverse (services : List ServiceInformation) :
    Reordered (provider services) (provider services.reverse) :=
  ⟨provider services.reverse, .cons ⟨rfl, (List.reverse_perm services).symm⟩ .nil, .refl _⟩

/-- Two services of one certificate and two names are read the same in either order, by either of two sorts. -/
theorem extractAnchors_reordered_two_names :
    (extractAnchors (sortedBy (World.mk [] []).runtime (.rotated 1)) (offering sealAndSignature.reverse) "EE"
      ["granted"] []).map Prod.fst =
    (extractAnchors (sortedBy (World.mk [] []).runtime .stable) (offering sealAndSignature) "EE" ["granted"] []).map
      Prod.fst := by
  have hone : ∀ x ∈ labelled (World.mk [] []).runtime (accepted ["granted"] []) "EE"
      (services (provider sealAndSignature)).zipIdx, x.1.fingerprintSHA256 = "4b" := by decide +kernel
  have hnames : ∀ a ∈ entries (World.mk [] []).runtime (accepted ["granted"] []) "EE"
      (services (provider sealAndSignature)), ∀ b ∈ entries (World.mk [] []).runtime (accepted ["granted"] []) "EE"
        (services (provider sealAndSignature)), a.serviceName = b.serviceName → a = b := by decide +kernel
  have hsteady : Steady (World.mk [] []).runtime (accepted ["granted"] []) "EE"
      (services (provider sealAndSignature)) := by
    refine fun i => .inl fun es hes => clashless_of_sole fun k k' hk hk' => ?_
    obtain ⟨-, x, hx, -, rfl, -⟩ := hes.home_eq_some hk
    obtain ⟨-, x', hx', -, rfl, -⟩ := hes.home_eq_some hk'
    rw [hone x hx, hone x' hx']
  refine (extractAnchors_reordered_iff (offering []) (provider sealAndSignature) "EE" ["granted"] [] hsteady).2 ?_
    .stable (.rotated 1) _ (reordered_reverse sealAndSignature)
  intro fp hc a ha b hb _ hname
  obtain rfl := hnames a (mem_entriesOf.1 ha).1 b (mem_entriesOf.1 hb).1 hname
  unfold Interchangeable
  split_ifs
  · rfl
  · exact ⟨rfl, rfl⟩

/-- Two services of one name that can be merged in either order: the second does not have the certificate `M`. -/
def sameNameShared : List ServiceInformation :=
  [service "A" serviceTypeCAQC "granted" ["K", "M"] [qualified ["a", "b", "c"]],
    service "A" serviceTypeCAQC "granted" ["K"] [qualified ["a", "b", "c"]],
    service "B" serviceTypeCAQC "granted" ["K"] [qualified ["x"]],
    service "C" serviceTypeCAQC "granted" ["M"] [qualified ["y"]]]

-- which of the two comes first decides whether `K` and `M` share an array
example : ((extractAnchors (World.mk [] []).runtime (offering sameNameShared) "EE" ["granted"] []).map fun r =>
      r.1.map Anchor.qualifiers) = .ok [["a", "b", "c", "y"], ["a", "b", "c", "y"]] ∧
    ((extractAnchors (sortedBy (World.mk [] []).runtime (.rotated 2)) (offering sameNameShared) "EE" ["granted"]
      []).map fun r => r.1.map Anchor.qualifiers) = .ok [["a", "b", "c", "x"], ["a", "b", "c", "y"]] := by
  decide +kernel

/-- Two services of one name, for seals and for signatures. -/
def sameName : List ServiceInformation :=
  [service "A" serviceTypeCAQC "granted" ["K"] [fore asiForeSeals],
    service "A" serviceTypeCAQC "granted" ["K"] [fore asiForeSignatures]]

/-- The order of two services of one name shows in the uses of the anchor, and so in the snapshot id. -/
theorem extractAnchors_reordered_same_name :
    Reordered (provider sameName) (provider sameName.reverse) ∧
      ((extractAnchors (World.mk [] []).exact (offering sameName) "EE" ["granted"] []).map fun r =>
        r.1.map Anchor.uses) = .ok [[useSeal, useSignature]] ∧
      ((extractAnchors (World.mk [] []).exact (offering sameName.reverse) "EE" ["granted"] []).map fun r =>
        r.1.map Anchor.uses) = .ok [[useSignature, useSeal]] ∧
      ((extractAnchors (World.mk [] []).exact (offering sameName) "EE" ["granted"] []).map fun r =>
        computeID (World.mk [] []).exact (servingOnly r.1)) ≠
      ((extractAnchors (World.mk [] []).exact (offering sameName.reverse) "EE" ["granted"] []).map fun r =>
        computeID (World.mk [] []).exact (servingOnly r.1)) := by
  exact ⟨reordered_reverse sameName, by decide +kernel, by decide +kernel, by decide +kernel⟩

end TrustAnchor.Trust
