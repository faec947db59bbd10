import TrustAnchor.Ingest.Lemmas.Served
import TrustAnchor.Ingest.Symbolic

/-!
# What a change is reported as

A snapshot carries the diff to the one before it.
-/

namespace TrustAnchor.Ingest

open Lib Tsl Trust

variable {rt : Runtime} {p next : Snapshot}

/-- An anchor stays at its place and changes its type or its use cases. -/
def Retagged (p next : Snapshot) : Prop :=
  ∃ π old a, (π, old) ∈ placed (some p) ∧ (π, a) ∈ placed (some next) ∧
    (old.type ≠ a.type ∨ old.useCases ≠ a.useCases)

/-- An anchor comes or goes, or one that stays changes its status, QSCD flag, uses or service name. -/
def Reportable (p next : Snapshot) : Prop :=
  (∃ π, ¬ (π ∈ places (some p) ↔ π ∈ places (some next))) ∨
    ∃ π old a, (π, old) ∈ placed (some p) ∧ (π, a) ∈ placed (some next) ∧ ¬ SameMetadata old a

theorem reportable_iff (hp : Indexable (some p)) (hnext : Indexable (some next)) :
    Reportable p next ↔ (computeDiff (some p) next).entries ≠ [] := by
  rw [ne_eq, computeDiff_eq_nil hp hnext, not_and_or]
  simp only [Reportable, not_forall, exists_prop]

/-- What is not reported leaves the projected anchors alone, unless one is retagged. -/
theorem anchorPart_eq_of_not_reportable (hp : WellFormed rt p) (hnext : WellFormed rt next)
    (hpx : Indexable (some p)) (hnextx : Indexable (some next)) (hreport : ¬ Reportable p next)
    (htags : ¬ Retagged p next) : (idContent p).anchorPart = (idContent next).anchorPart := by
  have hplaces : ∀ π, π ∈ places (some p) ↔ π ∈ places (some next) := by
    intro π
    by_contra hnot
    exact hreport (.inl ⟨π, hnot⟩)
  have hsame : ∀ π old a, (π, old) ∈ placed (some p) → (π, a) ∈ placed (some next) →
      idAnchor old = idAnchor a := by
    intro π old a hold ha
    have hmeta : SameMetadata old a := by
      by_contra hnot
      exact hreport (.inr ⟨π, old, a, hold, ha, hnot⟩)
    have htag : old.type = a.type ∧ old.useCases = a.useCases := by
      by_contra hnot
      exact htags ⟨π, old, a, hold, ha, not_and_or.1 hnot⟩
    have hfp := (fingerprint_of_mem_placed hold).trans (fingerprint_of_mem_placed ha).symm
    have hsource := (hpx.source π old hold).trans (hnextx.source π a ha).symm
    simp only [idAnchor, hfp, hmeta.status, hmeta.qcWithQSCD, hmeta.uses, hsource, htag]
  rw [anchorPart_eq_iff hp.arranged hnext.arranged]
  rintro ⟨π, i⟩
  simp only [idPlaced, List.mem_map, Prod.exists, Prod.mk.injEq]
  constructor
  · rintro ⟨π, old, hold, rfl, rfl⟩
    obtain ⟨a, ha⟩ := mem_places.1 ((hplaces π).1 (mem_places.2 ⟨old, hold⟩))
    exact ⟨π, a, ha, rfl, (hsame π old a hold ha).symm⟩
  · rintro ⟨π, a, ha, rfl, rfl⟩
    obtain ⟨old, hold⟩ := mem_places.1 ((hplaces π).2 (mem_places.2 ⟨a, ha⟩))
    exact ⟨π, old, hold, rfl, hsame π old a hold ha⟩

theorem Retagged.anchorPart_ne (hp : WellFormed rt p) (hnext : WellFormed rt next)
    (hnextx : Indexable (some next)) (h : Retagged p next) :
    (idContent p).anchorPart ≠ (idContent next).anchorPart := by
  intro heq
  obtain ⟨π, old, a, hold, ha, htag⟩ := h
  have hmem := ((anchorPart_eq_iff hp.arranged hnext.arranged).1 heq _).1
    (List.mem_map_of_mem (f := fun e => (e.1, idAnchor e.2)) hold)
  obtain ⟨⟨π', b⟩, hb, hbeq⟩ := List.mem_map.1 hmem
  obtain ⟨rfl, hid⟩ := Prod.mk.inj hbeq
  obtain rfl := hnextx.eq hb ha
  rcases htag with htype | huseCases
  · exact htype (congrArg IDAnchor.type hid).symm
  · exact huseCases (congrArg IDAnchor.useCases hid).symm

/-- For two snapshots served one after the other in a run: every change of the projected anchors and every
change of a bundle has an entry in the diff, exactly if an anchor that is retagged does not go alone, but
with a change that the diff looks for. -/
theorem run_reported_iff (hsha : Function.Injective rt.sha256) (hne : ∀ b, rt.sha256 b ≠ [])
    (ops : List (Config × Op)) (maxSize : Int) {newer older : Activation}
    (h : [newer, older] <:+: ((Service.empty maxSize).run rt ops).history) :
    (((idContent older.snapshot).anchorPart ≠ (idContent newer.snapshot).anchorPart →
        (computeDiff (some older.snapshot) newer.snapshot).entries ≠ []) ∧
      ∀ q b b', filter rt older.snapshot q = .ok b → filter rt newer.snapshot q = .ok b' →
        ¬ (b.map Anchor.fingerprintSHA256).Perm (b'.map Anchor.fingerprintSHA256) →
        (computeDiff (some older.snapshot) newer.snapshot).entries ≠ []) ↔
      (Retagged older.snapshot newer.snapshot → Reportable older.snapshot newer.snapshot) := by
  have htraced : Traced rt (fun _ => True) (WellFormed rt) ((Service.empty maxSize).run rt ops) :=
    .of_run (wellFormed_kept rt) (fun _ _ => trivial) maxSize
  have holder := htraced.served older (h.subset (by simp))
  have hnewer := htraced.served newer (h.subset (by simp))
  have holderx := holder.indexable hne
  have hnewerx := hnewer.indexable hne
  rw [← reportable_iff holderx hnewerx]
  constructor
  · rintro ⟨hparts, -⟩ htags
    exact hparts (htags.anchorPart_ne holder hnewer hnewerx)
  · intro hcond
    have hparts : (idContent older.snapshot).anchorPart ≠ (idContent newer.snapshot).anchorPart →
        Reportable older.snapshot newer.snapshot := by
      intro hne
      by_contra hreport
      exact hne (anchorPart_eq_of_not_reportable holder hnewer holderx hnewerx hreport (mt hcond hreport))
    refine ⟨hparts, fun q b b' hb hb' hperm => hparts fun heq => hperm ?_⟩
    exact bundle_perm_of_anchorPart hsha holder hnewer heq hb hb'

namespace Symbolic

/-- The certificate `K` is that of a CA/QC service first, and of an EAA service in the second issue. -/
def retyped : World where
  documents :=
    [⟨ofText "L", ofText "B", lotl 1 [] ["B"] [pointer "EE" "" "https://ee/tl.xml" ["S"]]⟩,
      ⟨ofText "1", ofText "S", national "EE" 1 (some 100) ["K"]⟩,
      ⟨ofText "2", ofText "S",
        { national "EE" 2 (some 100) [] with
          providerList := some
            [{ name := []
               services := [{ typeIdentifier := svctypeBase ++ "EAA/Q", name := []
                              digitalIdentity := identity ["K"], status := statusBase ++ "granted"
                              statusStartingTime := 0, extensions := [] }] }] }⟩]
  urls := growing.urls

/-- Both kinds of services are accepted. -/
def bothTypes : Config :=
  { config ["EE"] .auto 0 with acceptedServiceTypes := [serviceTypeCAQC, svctypeBase ++ "EAA/Q"] }

/-- The last two activations of the process. -/
def lastTwo (m : Service) : Option (Activation × Activation) :=
  match m.history with
  | newer :: older :: _ => some (newer, older)
  | _ => none

theorem infix_of_lastTwo {m : Service} {newer older : Activation} (h : lastTwo m = some (newer, older)) :
    [newer, older] <:+: m.history := by
  unfold lastTwo at h
  split at h
  · rename_i heq
    cases h
    rw [heq]
    exact (List.prefix_append [newer, older] _).isInfix
  · cases h

end Symbolic

open Symbolic in
/-- The bundle of the CA/QC plane loses the certificate, and the diff is empty. -/
theorem run_reported_retyped :
    ∃ newer older, [newer, older] <:+: (retyped.exactRun bothTypes growingOps).history ∧
      (idContent older.snapshot).anchorPart ≠ (idContent newer.snapshot).anchorPart ∧
      (filter retyped.exact older.snapshot everything).toOption.map List.length = some 1 ∧
      (filter retyped.exact newer.snapshot everything).toOption.map List.length = some 0 ∧
      (computeDiff (some older.snapshot) newer.snapshot).entries = [] := by
  have hrun : (lastTwo (retyped.exactRun bothTypes growingOps)).any fun e =>
      (idContent e.2.snapshot).anchorPart ≠ (idContent e.1.snapshot).anchorPart ∧
        (filter retyped.exact e.2.snapshot everything).toOption.map List.length = some 1 ∧
        (filter retyped.exact e.1.snapshot everything).toOption.map List.length = some 0 ∧
        (computeDiff (some e.2.snapshot) e.1.snapshot).entries = [] := by decide +kernel
  obtain ⟨⟨newer, older⟩, hlast, h⟩ := (Option.any_eq_true _ _).1 hrun
  exact ⟨newer, older, infix_of_lastTwo hlast, of_decide_eq_true h⟩

open Symbolic in
/-- An anchor that comes is in the diff. -/
theorem run_reported_growing :
    ∃ newer older, [newer, older] <:+: (growing.exactRun (config ["EE"] .auto 0) growingOps).history ∧
      (idContent older.snapshot).anchorPart ≠ (idContent newer.snapshot).anchorPart ∧
      (computeDiff (some older.snapshot) newer.snapshot).entries ≠ [] := by
  have hrun : (lastTwo (growing.exactRun (config ["EE"] .auto 0) growingOps)).any
      fun e : Activation × Activation =>
      (idContent e.2.snapshot).anchorPart ≠ (idContent e.1.snapshot).anchorPart ∧
        ∀ x ∈ placed (some e.2.snapshot), ∀ y ∈ placed (some e.1.snapshot),
          x.1 = y.1 → x.2.type = y.2.type ∧ x.2.useCases = y.2.useCases := by decide +kernel
  obtain ⟨⟨newer, older⟩, hlast, h⟩ := (Option.any_eq_true _ _).1 hrun
  obtain ⟨hparts, hsame⟩ := of_decide_eq_true h
  have htags : ¬ Retagged older.snapshot newer.snapshot := by
    rintro ⟨π, old, a, hold, ha, htag⟩
    obtain ⟨htype, huseCases⟩ := hsame _ hold _ ha rfl
    exact htag.elim (· htype) (· huseCases)
  have hreported := run_reported_iff growing.exact_sha256_injective growing.exact_sha256_ne_nil _ 100
    (infix_of_lastTwo hlast)
  exact ⟨newer, older, infix_of_lastTwo hlast, hparts, (hreported.2 fun h => absurd h htags).1 hparts⟩

end TrustAnchor.Ingest
