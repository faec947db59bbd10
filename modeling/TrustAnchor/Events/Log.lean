import TrustAnchor.Events.Types
import TrustAnchor.Trust.Lemmas.Diff

/-!
# Reading the log

What the log pipeline can read off the envelopes that reach it, by their types and attributes alone.
-/

namespace TrustAnchor.Events

open Lib Trust

namespace Envelope

def attr (env : Envelope) (name : String) : Option String := env.attributes.lookup name

/-- The territory in the stage of a failure. -/
def stageTerritory (stage : String) : Option String :=
  if "territory:".toList.isPrefixOf stage.toList then some (String.ofList (stage.toList.drop 10)) else none

/-- The territory that an envelope reports as failed. -/
def failedTerritory (env : Envelope) : Option String :=
  if env.eventType = "trust.refresh_failure" then (env.attr "stage").bind stageTerritory
  else if env.eventType = "egress.violation" then env.attr "target"
  else none

/-- The reason of a failure of the stage. -/
def failedStage (stage : String) (env : Envelope) : Option String :=
  if env.eventType = "trust.refresh_failure" ∧ env.attr "stage" = some stage then env.attr "reason"
  else none

/-- The error of declared anchors that do not load. -/
def loadError (env : Envelope) : Option String :=
  if env.eventType = "trust.internal_source_error" then env.attr "error" else none

/-- The fingerprint that an approval is about. -/
def approved (env : Envelope) : Option String :=
  if env.eventType = "trust.pending_approved" then env.attr "fingerprint" else none

/-- The place that a change is about: a declared anchor is told by the name in place of its territory. -/
def place (env : Envelope) : Option Place :=
  match env.attr "territory", env.attr "fingerprint" with
  | some code, some fp =>
    if code = "internal" then some (.declared fp ((env.attr "anchor_type").getD "")) else some (.listed code fp)
  | _, _ => none

/-- What comes or goes with an envelope; what is only held does not come yet. -/
def change (env : Envelope) : Option (Change Place) :=
  if env.eventType = "trust.anchor_change" ∧ env.attr "pending" = none then
    if env.attr "kind" = some "added" then env.place.map .added
    else if env.attr "kind" = some "removed" then env.place.map .removed
    else none
  else none

end Envelope

/-! ## What each event says -/

namespace SecurityEvent

variable {ft : Time → String}

theorem stageTerritory_territory (code : String) : Envelope.stageTerritory ("territory:" ++ code) = some code := by
  have hchars : ("territory:" ++ code).toList = "territory:".toList ++ code.toList := String.toList_append
  unfold Envelope.stageTerritory
  rw [hchars, if_pos (List.isPrefixOf_iff_prefix.2 (List.prefix_append _ _)), List.drop_left' (by decide),
    String.ofList_toList]

@[simp] theorem failedTerritory_envelope (e : SecurityEvent) : (e.envelope ft).failedTerritory =
    match e with
    | refreshFailure stage _ => Envelope.stageTerritory stage
    | egressBlocked target _ => some target
    | _ => none := by
  cases e <;> simp [envelope, Envelope.failedTerritory, Envelope.attr, eventType, attributes]

@[simp] theorem failedStage_envelope (stage : String) (e : SecurityEvent) : (e.envelope ft).failedStage stage =
    match e with
    | refreshFailure stage' reason => if stage' = stage then some reason else none
    | _ => none := by
  cases e <;> simp [envelope, Envelope.failedStage, Envelope.attr, eventType, attributes, List.lookup_cons]

@[simp] theorem loadError_envelope (e : SecurityEvent) : (e.envelope ft).loadError =
    match e with
    | internalSourceError error => some error
    | _ => none := by
  cases e <;> simp [envelope, Envelope.loadError, Envelope.attr, eventType, attributes]

@[simp] theorem approved_envelope (e : SecurityEvent) : (e.envelope ft).approved =
    match e with
    | pendingApproved fp _ _ => some fp
    | _ => none := by
  cases e <;> simp [envelope, Envelope.approved, Envelope.attr, eventType, attributes]

/-- The place that the words of a change stand for. -/
def placeOf (territory fp anchorType : String) : Place :=
  if territory = "internal" then .declared fp anchorType else .listed territory fp

@[simp] theorem place_anchorChange {kind : DiffKind}
    {territory fp anchorType tspName serviceName status detail : String} {pending : Bool} :
    ((anchorChange kind territory fp anchorType tspName serviceName status detail pending).envelope ft).place =
      some (placeOf territory fp anchorType) := by
  have htype : (((anchorChange kind territory fp anchorType tspName serviceName status detail
      pending).envelope ft).attr "anchor_type").getD "" = anchorType := by
    by_cases hempty : anchorType = "" <;> by_cases hdetail : detail = "" <;> cases pending <;>
      simp [envelope, Envelope.attr, attributes, List.lookup_cons, hempty, hdetail]
  unfold Envelope.place placeOf
  rw [htype]
  simp [envelope, Envelope.attr, attributes, List.lookup_cons, apply_ite some]

@[simp] theorem change_envelope (e : SecurityEvent) : (e.envelope ft).change =
    match e with
    | anchorChange .added territory fp anchorType _ _ _ _ false => some (.added (placeOf territory fp anchorType))
    | anchorChange .removed territory fp anchorType _ _ _ _ false => some (.removed (placeOf territory fp anchorType))
    | _ => none := by
  cases e with
  | anchorChange kind territory fp anchorType tspName serviceName status detail pending =>
      have hpending : ((anchorChange kind territory fp anchorType tspName serviceName status detail
          pending).envelope ft).attr "pending" = if pending then some "true" else none := by
        by_cases hempty : anchorType = "" <;> by_cases hdetail : detail = "" <;> cases pending <;>
          simp [envelope, Envelope.attr, attributes, List.lookup_cons, hempty, hdetail]
      have hkind : ((anchorChange kind territory fp anchorType tspName serviceName status detail
          pending).envelope ft).attr "kind" = some kind.name := by
        simp [envelope, Envelope.attr, attributes]
      unfold Envelope.change
      rw [hpending, hkind, place_anchorChange]
      cases pending <;> cases kind <;> simp [envelope, eventType, DiffKind.name]
  | _ => simp [envelope, Envelope.change, eventType]

end SecurityEvent

end TrustAnchor.Events
