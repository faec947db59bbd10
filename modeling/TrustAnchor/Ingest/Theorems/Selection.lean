import Mathlib.Data.List.Dedup
import TrustAnchor.Ingest.Lemmas.Provenance
import TrustAnchor.Ingest.Symbolic

/-!
# Which pointer a territory gets

The codes of a list are those of its national pointers, and the pointer of a code is the first one with it.
The two agree unless the list names its self-pointer under a code before the national pointer of that code.
-/

namespace TrustAnchor.Ingest

open Lib Tsl Trust

variable {rt : Runtime} {tl : TrustedList} {code : String} {p : TSLPointer}

/-- An XML pointer with the code. -/
def Published (tl : TrustedList) (code : String) (p : TSLPointer) : Prop :=
  p ∈ tl.schemeInformation.pointersToOtherTSL ∧ p.territory = code ∧ p.mimeType = mimeTypeTSLXML

/-- A pointer that `Territories` counts for the code. -/
def Counted (tl : TrustedList) (code : String) (p : TSLPointer) : Prop :=
  Published tl code p ∧ p.tslType ≠ tslTypeEUListOfTheLists

theorem mem_territories : code ∈ tl.territories ↔ code ≠ "" ∧ ∃ p, Counted tl code p := by
  simp only [TrustedList.territories, List.mem_insertionSort, List.mem_dedup, List.mem_map, List.mem_filter,
    Bool.and_eq_true, decide_eq_true_eq, Counted, Published]
  constructor
  · rintro ⟨p, ⟨hp, ⟨hmime, htype⟩, hcode⟩, rfl⟩
    exact ⟨hcode, p, ⟨hp, rfl, hmime⟩, htype⟩
  · rintro ⟨hcode, p, ⟨hp, rfl, hmime⟩, htype⟩
    exact ⟨p, ⟨hp, ⟨hmime, htype⟩, hcode⟩, rfl⟩

/-- The first pointer with the code. -/
theorem pointerFor_eq_ok : tl.pointerFor code = .ok p ↔ (p.territory = code ∧ p.mimeType = mimeTypeTSLXML) ∧
    ∃ before after, tl.schemeInformation.pointersToOtherTSL = before ++ p :: after ∧
      ∀ q ∈ before, ¬ (q.territory = code ∧ q.mimeType = mimeTypeTSLXML) := by
  have hfind : tl.pointerFor code = .ok p ↔ tl.schemeInformation.pointersToOtherTSL.find?
      (fun p => p.territory = code && p.mimeType = mimeTypeTSLXML) = some p := by
    rw [TrustedList.pointerFor]
    generalize tl.schemeInformation.pointersToOtherTSL.find? _ = found
    cases found <;> simp
  rw [hfind, List.find?_eq_some_iff_append]
  simp [imp_iff_not_or]

theorem exists_pointerFor (h : Published tl code p) : ∃ q, tl.pointerFor code = .ok q := by
  obtain ⟨hp, hcode, hmime⟩ := h
  rw [TrustedList.pointerFor]
  cases hfind : tl.schemeInformation.pointersToOtherTSL.find? fun p =>
      p.territory = code && p.mimeType = mimeTypeTSLXML with
  | some q => exact ⟨q, rfl⟩
  | none =>
      have hnot := List.find?_eq_none.1 hfind p hp
      simp [hcode, hmime] at hnot

/-! ## The pointer set -/

/-- The entry has what the pointer says. -/
structure Carries (rt : Runtime) (lp : ListPointer) (p : TSLPointer) : Prop where
  url : lp.url = p.tslLocation
  signers : lp.signersDER = (p.certificateDERs rt).toOption.getD []

theorem listPointer_carries (h : tl.pointerFor code = .ok p) : Carries rt (listPointer rt tl code) p := by
  cases hders : p.certificateDERs rt with
  | error e => exact ⟨by simp [listPointer, h, hders], by simp [listPointer, h, hders, Except.toOption]⟩
  | ok ders => exact ⟨by simp [listPointer, h, hders], by simp [listPointer, h, hders, Except.toOption]⟩

/-- `Territories` and `PointerFor` select by the same rule, and so does the pointer set. -/
structure SelectsAlike (rt : Runtime) (tl : TrustedList) : Prop where
  pointerFor : ∀ code ∈ tl.territories, ∃ p, tl.pointerFor code = .ok p ∧ Counted tl code p
  entries : ∀ lp ∈ (lotlPointerSet rt tl).list, ∃ p, Counted tl lp.territory p ∧ Carries rt lp p

/-- A self-pointer comes before a national pointer of the same code only after another one of that code. -/
def NationalFirst (tl : TrustedList) : Prop :=
  ∀ before self after, tl.schemeInformation.pointersToOtherTSL = before ++ self :: after →
    self.mimeType = mimeTypeTSLXML → self.tslType = tslTypeEUListOfTheLists → self.territory ≠ "" →
    (∃ q ∈ after, q.territory = self.territory ∧ q.mimeType = mimeTypeTSLXML ∧
      q.tslType ≠ tslTypeEUListOfTheLists) →
    ∃ q ∈ before, q.territory = self.territory ∧ q.mimeType = mimeTypeTSLXML ∧
      q.tslType ≠ tslTypeEUListOfTheLists

theorem SelectsAlike.nationalFirst (h : SelectsAlike rt tl) : NationalFirst tl := by
  intro before self after hsplit hmime hself hcode hlater
  obtain ⟨q, hq, hqcode, hqmime, hqtype⟩ := hlater
  have hmem : q ∈ tl.schemeInformation.pointersToOtherTSL := by simp [hsplit, hq]
  obtain ⟨p, hp, -, htype⟩ := h.pointerFor _ (mem_territories.2 ⟨hcode, q, ⟨hmem, hqcode, hqmime⟩, hqtype⟩)
  obtain ⟨⟨hpcode, hpmime⟩, before', after', hsplit', hbefore'⟩ := pointerFor_eq_ok.1 hp
  rw [hsplit'] at hsplit
  -- the first pointer with the code is at or before `self`, which it is not
  obtain ⟨mid, rfl, hmid⟩ | ⟨mid, rfl, hmid⟩ := List.append_eq_append_iff.1 hsplit
  · cases mid with
    | nil =>
        cases hmid
        exact absurd hself htype
    | cons x mid =>
        cases hmid
        exact ⟨p, by simp, hpcode, hpmime, htype⟩
  · cases mid with
    | nil =>
        cases hmid
        exact absurd hself htype
    | cons x mid =>
        cases hmid
        exact absurd ⟨rfl, hmime⟩ (hbefore' self (by simp))

theorem NationalFirst.counted (h : NationalFirst tl) (hcode : code ∈ tl.territories)
    (hp : tl.pointerFor code = .ok p) : Counted tl code p := by
  obtain ⟨hne, q, ⟨hq, hqcode, hqmime⟩, hqtype⟩ := mem_territories.1 hcode
  obtain ⟨⟨rfl, hpmime⟩, before, after, hsplit, hbefore⟩ := pointerFor_eq_ok.1 hp
  refine ⟨⟨by simp [hsplit], rfl, hpmime⟩, fun hself => ?_⟩
  have hlater : q ∈ after := by
    rw [hsplit] at hq
    rcases List.mem_append.1 hq with hq | hq
    · exact absurd ⟨hqcode, hqmime⟩ (hbefore q hq)
    · rcases List.mem_cons.1 hq with rfl | hq
      · exact absurd hself hqtype
      · exact hq
  obtain ⟨q', hq', hq'code, hq'mime, -⟩ :=
    h before p after hsplit hpmime hself hne ⟨q, hlater, hqcode, hqmime, hqtype⟩
  exact hbefore q' hq' ⟨hq'code, hq'mime⟩

/-- For every list: the pointer that each of its territories gets is one that it was counted for exactly if
no self-pointer of the list comes before the first national pointer of the same code. -/
theorem selectsAlike_iff : SelectsAlike rt tl ↔ NationalFirst tl := by
  refine ⟨SelectsAlike.nationalFirst, fun h => ?_⟩
  have hpointer : ∀ code ∈ tl.territories, ∃ p, tl.pointerFor code = .ok p ∧ Counted tl code p := by
    intro code hcode
    obtain ⟨-, q, hq, -⟩ := mem_territories.1 hcode
    obtain ⟨p, hp⟩ := exists_pointerFor hq
    exact ⟨p, hp, h.counted hcode hp⟩
  refine ⟨hpointer, fun lp hlp => ?_⟩
  obtain ⟨code, hcode, rfl⟩ := List.mem_map.1 hlp
  obtain ⟨p, hp, hcounted⟩ := hpointer code hcode
  rw [listPointer_territory]
  exact ⟨p, hcounted, listPointer_carries hp⟩

open Symbolic in
/-- The self-pointer of a list of the lists names the code EU and comes first, and another list is pointed to
under EU: the entry of EU has the location and the signers of the self-pointer. -/
theorem selectsAlike_shadowed :
    let tl := lotl 1 [] ["B"] [pointer "EU" "" "https://eu/tl" ["S"]]
    "EU" ∈ tl.territories ∧ ¬ SelectsAlike growing.runtime tl ∧
      (lotlPointerSet growing.runtime tl).list.map (fun lp => (lp.territory, lp.url, lp.signersDER)) =
        [("EU", "", [ofText "B"])] := by
  intro tl
  have hcode : "EU" ∈ tl.territories := by decide +kernel
  refine ⟨hcode, fun h => ?_, by decide +kernel⟩
  obtain ⟨p, hp, -, htype⟩ := h.pointerFor "EU" hcode
  have hself : (tl.pointerFor "EU").toOption.all fun p => p.tslType = tslTypeEUListOfTheLists := by decide +kernel
  rw [hp] at hself
  exact htype (of_decide_eq_true hself)

end TrustAnchor.Ingest
