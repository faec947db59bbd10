import TrustAnchor.Trust.Types

/-!
# Security events

What the service reports to the log pipeline, from requests and from background work alike. An event is
given by what its emitter is called with; the type, the severity, the outcome and the attributes follow.
-/

namespace TrustAnchor.Events

open Trust

/-- One call of an emitter. -/
inductive SecurityEvent where
  | anchorChange (kind : DiffKind) (territory fingerprint anchorType tspName serviceName status detail : String)
      (pending : Bool)
  | pendingApproved (fingerprint actor how : String)
  | refreshFailure (stage reason : String)
  | stale (territory : String) (nextUpdate : Time)
  | egressBlocked (target reason : String)
  | internalSourceError (error : String)
  | authzDenied (requiredScope actor path : String)
deriving DecidableEq

inductive Severity where
  | info
  | warning
  | high
deriving DecidableEq

inductive Outcome where
  | success
  | failure
  | denied
deriving DecidableEq

namespace SecurityEvent

def eventType : SecurityEvent → String
  | anchorChange .. => "trust.anchor_change"
  | pendingApproved .. => "trust.pending_approved"
  | refreshFailure .. => "trust.refresh_failure"
  | stale .. => "trust.stale"
  | egressBlocked .. => "egress.violation"
  | internalSourceError .. => "trust.internal_source_error"
  | authzDenied .. => "authz.denied"

/-- A metadata change is only informative; a blocked download stands out. -/
def severity : SecurityEvent → Severity
  | anchorChange .changed .. => .info
  | egressBlocked .. => .high
  | _ => .warning

def outcome : SecurityEvent → Outcome
  | refreshFailure .. | internalSourceError .. => .failure
  | egressBlocked .. | authzDenied .. => .denied
  | _ => .success

/-- The attributes; the type of an untyped anchor, an empty detail and a `pending` that does not hold are
left out. -/
def attributes (formatTime : Time → String) : SecurityEvent → List (String × String)
  | anchorChange kind territory fp anchorType tspName serviceName status detail pending =>
    [("kind", kind.name), ("territory", territory), ("fingerprint", fp), ("tsp_name", tspName),
      ("service_name", serviceName), ("status", status)] ++
      (if anchorType ≠ "" then [("anchor_type", anchorType)] else []) ++
      (if detail ≠ "" then [("detail", detail)] else []) ++
      (if pending then [("pending", "true")] else [])
  | pendingApproved fp actor how => [("fingerprint", fp), ("actor_id", actor), ("how", how)]
  | refreshFailure stage reason => [("stage", stage), ("reason", reason)]
  | stale territory nextUpdate => [("territory", territory), ("next_update", formatTime nextUpdate)]
  | egressBlocked target reason =>
    [("target", target), ("policy", "trusted-list-allowlist"), ("reason", reason)]
  | internalSourceError error => [("error", error)]
  | authzDenied scope actor path => [("required_scope", scope), ("actor_id", actor), ("path", path)]

end SecurityEvent

def Severity.name : Severity → String
  | info => "info"
  | warning => "warning"
  | high => "high"

/-- `broker.Envelope`: what reaches the log pipeline. -/
structure Envelope where
  eventType : String
  outcome : Outcome
  attributes : List (String × String)
deriving DecidableEq

/-- `Emit` -/
def SecurityEvent.envelope (formatTime : Time → String) (e : SecurityEvent) : Envelope :=
  { eventType := e.eventType, outcome := e.outcome
    attributes := e.attributes formatTime ++ [("severity", e.severity.name)] }

end TrustAnchor.Events
