import TrustAnchor.Basic
import TrustAnchor.Events.Log
import TrustAnchor.Events.Types
import TrustAnchor.Ingest.Cluster
import TrustAnchor.Ingest.Concurrent
import TrustAnchor.Ingest.Emission
import TrustAnchor.Ingest.Fetcher
import TrustAnchor.Ingest.Lemmas.Activations
import TrustAnchor.Ingest.Lemmas.Alerts
import TrustAnchor.Ingest.Lemmas.Changes
import TrustAnchor.Ingest.Lemmas.Cluster
import TrustAnchor.Ingest.Lemmas.Concurrent
import TrustAnchor.Ingest.Lemmas.Cycle
import TrustAnchor.Ingest.Lemmas.Egress
import TrustAnchor.Ingest.Lemmas.Emission
import TrustAnchor.Ingest.Lemmas.Failed
import TrustAnchor.Ingest.Lemmas.Fetching
import TrustAnchor.Ingest.Lemmas.Grounded
import TrustAnchor.Ingest.Lemmas.Hold
import TrustAnchor.Ingest.Lemmas.Isolation
import TrustAnchor.Ingest.Lemmas.Makings
import TrustAnchor.Ingest.Lemmas.Manager
import TrustAnchor.Ingest.Lemmas.Provenance
import TrustAnchor.Ingest.Lemmas.Readings
import TrustAnchor.Ingest.Lemmas.Requests
import TrustAnchor.Ingest.Lemmas.Rotation
import TrustAnchor.Ingest.Lemmas.Served
import TrustAnchor.Ingest.Lemmas.Sources
import TrustAnchor.Ingest.Lemmas.WellFormed
import TrustAnchor.Ingest.Manager
import TrustAnchor.Ingest.Pipeline
import TrustAnchor.Ingest.Pivot
import TrustAnchor.Ingest.Pointers
import TrustAnchor.Ingest.Provenance
import TrustAnchor.Ingest.SourceLOTL
import TrustAnchor.Ingest.SourceNational
import TrustAnchor.Ingest.Symbolic
import TrustAnchor.Ingest.Telemetry
import TrustAnchor.Ingest.Theorems.Alerts
import TrustAnchor.Ingest.Theorems.Approval
import TrustAnchor.Ingest.Theorems.Approvals
import TrustAnchor.Ingest.Theorems.AuditTrail
import TrustAnchor.Ingest.Theorems.Bundles
import TrustAnchor.Ingest.Theorems.Concurrent
import TrustAnchor.Ingest.Theorems.ContentId
import TrustAnchor.Ingest.Theorems.DiffExact
import TrustAnchor.Ingest.Theorems.Egress
import TrustAnchor.Ingest.Theorems.EventTrail
import TrustAnchor.Ingest.Theorems.Expiry
import TrustAnchor.Ingest.Theorems.FailSafe
import TrustAnchor.Ingest.Theorems.FastPath
import TrustAnchor.Ingest.Theorems.Health
import TrustAnchor.Ingest.Theorems.HealthId
import TrustAnchor.Ingest.Theorems.Hold
import TrustAnchor.Ingest.Theorems.Persistence
import TrustAnchor.Ingest.Theorems.Pivots
import TrustAnchor.Ingest.Theorems.PlainHttp
import TrustAnchor.Ingest.Theorems.Provenance
import TrustAnchor.Ingest.Theorems.Reconcile
import TrustAnchor.Ingest.Theorems.Redirects
import TrustAnchor.Ingest.Theorems.Reports
import TrustAnchor.Ingest.Theorems.Restart
import TrustAnchor.Ingest.Theorems.Rollback
import TrustAnchor.Ingest.Theorems.Rotation
import TrustAnchor.Ingest.Theorems.Selection
import TrustAnchor.Ingest.Theorems.Sequence
import TrustAnchor.Ingest.Theorems.Settings
import TrustAnchor.Ingest.Theorems.SizeCap
import TrustAnchor.Ingest.Theorems.Skipped
import TrustAnchor.Ingest.Theorems.Telemetry
import TrustAnchor.Ingest.Theorems.Unchanged
import TrustAnchor.Ingest.Theorems.WellFormed
import TrustAnchor.Lib.Counter
import TrustAnchor.Lib.Der
import TrustAnchor.Lib.Emission
import TrustAnchor.Lib.Encoding
import TrustAnchor.Lib.Fallible
import TrustAnchor.Lib.History
import TrustAnchor.Lib.Interleaving
import TrustAnchor.Lib.Json
import TrustAnchor.Lib.Key
import TrustAnchor.Lib.Keyed
import TrustAnchor.Lib.Merge
import TrustAnchor.Lib.Order
import TrustAnchor.Lib.Quote
import TrustAnchor.Lib.Result
import TrustAnchor.Lib.Run
import TrustAnchor.Lib.Slice
import TrustAnchor.Lib.Sorting
import TrustAnchor.Lib.Table
import TrustAnchor.Lib.Union
import TrustAnchor.Lib.Versioned
import TrustAnchor.Routes.Consumer
import TrustAnchor.Routes.Lemmas.Bundle
import TrustAnchor.Routes.Response
import TrustAnchor.Routes.Router
import TrustAnchor.Routes.Theorems.Consumer
import TrustAnchor.Routes.Theorems.Reports
import TrustAnchor.Routes.Theorems.Sessions
import TrustAnchor.Runtime
import TrustAnchor.Store.Backends
import TrustAnchor.Store.Files
import TrustAnchor.Store.Lemmas.Objects
import TrustAnchor.Store.Theorems.Agreement
import TrustAnchor.Store.Theorems.Faults
import TrustAnchor.Tasks.Refresh
import TrustAnchor.Tasks.Theorems.Refresh
import TrustAnchor.Trust.CertBody
import TrustAnchor.Trust.Extract
import TrustAnchor.Trust.Internal
import TrustAnchor.Trust.Json
import TrustAnchor.Trust.Lemmas.Arrangement
import TrustAnchor.Trust.Lemmas.Bundle
import TrustAnchor.Trust.Lemmas.CertBody
import TrustAnchor.Trust.Lemmas.Diff
import TrustAnchor.Trust.Lemmas.Entries
import TrustAnchor.Trust.Lemmas.Extract
import TrustAnchor.Trust.Lemmas.Filter
import TrustAnchor.Trust.Lemmas.Internal
import TrustAnchor.Trust.Lemmas.Keys
import TrustAnchor.Trust.Lemmas.Projection
import TrustAnchor.Trust.Snapshot
import TrustAnchor.Trust.Theorems.Bundle
import TrustAnchor.Trust.Theorems.CertBody
import TrustAnchor.Trust.Theorems.Declarations
import TrustAnchor.Trust.Theorems.DeclaredKeys
import TrustAnchor.Trust.Theorems.DocumentOrder
import TrustAnchor.Trust.Theorems.Extraction
import TrustAnchor.Trust.Types
import TrustAnchor.Trust.Vocabulary
import TrustAnchor.Tsl.Types
import TrustAnchor.Tsl.Verify
