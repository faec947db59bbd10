import TrustAnchor.Ingest.Theorems.ContentId

/-!
# The id and the health of the entries

The id leaves out what an entry reports of its own reading, and leaves out failed entries as a whole. So an
entry without anchors is in the id or not, depending on whether it failed.
-/

namespace TrustAnchor.Ingest

open Lib Tsl Trust

variable {rt : Runtime} {s s' : Snapshot} {t t' : Territory} {ts ts' : List Territory}

/-! ## Changes of health -/

/-- The entry with another report of its reading. -/
def SameTrust (t t' : Territory) : Prop :=
  t' = { t with carriedOver := t'.carriedOver, carriedOverReason := t'.carriedOverReason, skipped := t'.skipped
                sourceDigest := t'.sourceDigest, failureReason := t'.failureReason }

/-- An entry reports something else, or a failed entry comes or goes. -/
inductive HealthStep : List Territory → List Territory → Prop
  | reported (before after : List Territory) {t t' : Territory} :
      SameTrust t t' → HealthStep (before ++ t :: after) (before ++ t' :: after)
  | added (before after : List Territory) {t : Territory} :
      t.failed = true → HealthStep (before ++ after) (before ++ t :: after)
  | removed (before after : List Territory) {t : Territory} :
      t.failed = true → HealthStep (before ++ t :: after) (before ++ after)

/-- Any number of such changes, and none elsewhere. -/
def ChangesHealth (s s' : Snapshot) : Prop :=
  s' = { s with territories := s'.territories } ∧ Relation.ReflTransGen HealthStep s.territories s'.territories

/-- An entry without anchors fails, or recovers. -/
structure Flip (t t' : Territory) : Prop where
  code : t'.code = t.code
  failed : t'.failed = !t.failed
  anchors : t.anchors = []
  anchors' : t'.anchors = []

/-- One entry flips, and nothing else changes. -/
def Flips (s s' : Snapshot) : Prop :=
  s' = { s with territories := s'.territories } ∧ ∃ before after t t',
    s.territories = before ++ t :: after ∧ s'.territories = before ++ t' :: after ∧ Flip t t'

/-! ## The projection -/

theorem SameTrust.idTerritory_eq (h : SameTrust t t') : idTerritory t' = idTerritory t := by
  rw [h]
  rfl

theorem SameTrust.failed_eq (h : SameTrust t t') : t'.failed = t.failed := by rw [h]

theorem HealthStep.idTerritories_eq (h : HealthStep ts ts') : idTerritories ts' = idTerritories ts := by
  unfold idTerritories
  cases h with
  | reported before after h =>
      simp only [List.filter_append, List.filter_cons, h.failed_eq, List.map_append]
      split
      · simp [h.idTerritory_eq]
      · rfl
  | added before after h => simp [h]
  | removed before after h => simp [h]

theorem idTerritories_eq_of_steps (h : Relation.ReflTransGen HealthStep ts ts') :
    idTerritories ts' = idTerritories ts := by
  induction h with
  | refl => rfl
  | tail _ hlast ih => exact hlast.idTerritories_eq.trans ih

theorem ChangesHealth.idContent_eq (h : ChangesHealth s s') : idContent s' = idContent s := by
  obtain ⟨hrest, hsteps⟩ := h
  have hterritories := idTerritories_eq_of_steps hsteps
  unfold idTerritories at hterritories
  rw [hrest]
  simp only [idContent, hterritories]

/-- A flip changes how many entries the projection has. -/
theorem Flips.idContent_ne (h : Flips s s') : idContent s' ≠ idContent s := by
  obtain ⟨-, before, after, t, t', hs, hs', hflip⟩ := h
  intro heq
  have hlength := congrArg (fun c => c.territories.length) heq
  simp only [idContent, List.length_insertionSort, List.length_map, hs, hs', List.filter_append,
    List.filter_cons, List.length_append, hflip.failed] at hlength
  cases hfailed : t.failed <;> simp [hfailed] at hlength

/-! ## The id -/

/-- For every snapshot and every change of its health data: the id stays if and only if the change is not that
an entry without anchors fails or recovers. -/
theorem computeID_health_iff (hsha : Function.Injective rt.sha256) (hjson : Function.Injective rt.marshalID)
    (h : ChangesHealth s s' ∨ Flips s s') : computeID rt s' = computeID rt s ↔ ¬ Flips s s' := by
  constructor
  · intro hid hflips
    exact hflips.idContent_ne (hjson (hsha (hexEncode_injective hid)))
  · intro hflips
    have hcontent := (h.resolve_right hflips).idContent_eq
    unfold computeID
    rw [hcontent]

namespace Symbolic

/-- The entry of a territory beside that of another one. -/
def beside (t : Territory) : Snapshot :=
  { forwards with territories := [{ code := "LV", tlSequence := 1, anchors := [typedAnchor "a" ""] }, t] }

/-- A list that was read and offers nothing. -/
def idle : Territory := { code := "EE", tlSequence := 1 }

theorem flips_idle : Flips (beside (failedTerritory "EE" (.failure "no route"))) (beside idle) :=
  ⟨rfl, [{ code := "LV", tlSequence := 1, anchors := [typedAnchor "a" ""] }], [], failedTerritory "EE"
    (.failure "no route"), idle, rfl, rfl, ⟨rfl, rfl, rfl, rfl⟩⟩

end Symbolic

open Symbolic in
/-- The list of a territory becomes reachable and offers nothing. -/
theorem computeID_recovered : Flips (beside (failedTerritory "EE" (.failure "no route"))) (beside idle) ∧
    computeID growing.exact (beside idle) ≠
      computeID growing.exact (beside (failedTerritory "EE" (.failure "no route"))) := by
  refine ⟨flips_idle, fun hid => flips_idle.idContent_ne ?_⟩
  exact growing.exact_marshalID_injective (growing.exact_sha256_injective (hexEncode_injective hid))

open Symbolic in
/-- A list that offers nothing is carried over. -/
theorem computeID_carried : computeID growing.exact
      (beside { idle with carriedOver := true, carriedOverReason := "no route" }) =
    computeID growing.exact (beside idle) := by
  have hchange : ChangesHealth (beside idle)
      (beside { idle with carriedOver := true, carriedOverReason := "no route" }) :=
    ⟨rfl, .single (.reported [{ code := "LV", tlSequence := 1, anchors := [typedAnchor "a" ""] }] [] rfl)⟩
  refine (computeID_health_iff growing.exact_sha256_injective growing.exact_marshalID_injective (.inl hchange)).2 ?_
  intro hflips
  exact hflips.idContent_ne hchange.idContent_eq

end TrustAnchor.Ingest
