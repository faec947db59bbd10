import TrustAnchor.Events.Types
import TrustAnchor.Ingest.Manager
import TrustAnchor.Routes.Response

/-!
# The HTTP API

Handlers as functions of the request, the clock and the manager. A request comes with its query values and
its path already taken apart, as the web framework hands them over.
-/

namespace TrustAnchor.Routes

open Events Ingest Trust

/-! ## Responses -/

/-- `azugo.ParamInvalidError` -/
structure ParamInvalidError where
  name : String
  tag : String
  err : String := ""
deriving DecidableEq

inductive Body where
  | empty
  | text (s : String)
  | invalid (e : ParamInvalidError)
  /-- The certificates that `PEMBundle` encodes, one block each. -/
  | pem (certs : List Bytes)
  | anchors (a : Anchors)
  | snapshot (s : SnapshotSummary)
  | refresh (r : Refresh)
  | approved (a : Approved)
deriving DecidableEq

structure Response where
  status : Nat
  etag : Option String := none
  trustSnapshot : Option String := none
  trustStale : Option Bool := none
  body : Body := .empty
deriving DecidableEq

/-! ## Users -/

/-- What the service calls of the web framework: `user.New` makes a user of its claims, `ID` and `HasScopeLevel`
read them. -/
structure Framework where
  User : Type
  new : List (String × List String) → User
  id : User → String
  hasScopeLevel : User → String → String → Bool

/-- `AuthMode`, with the key of the internal mode. -/
inductive AuthMode where
  | internal (trustAdminKey : String)
  | dpop

/-- `internalAuthMiddleware`: everybody may read; the configured key, unless it is empty, gives the admin
level in addition. -/
def internalAuth (fw : Framework) (trustAdminKey apiKey : String) : fw.User :=
  let scope := "trust:read" ++ if trustAdminKey ≠ "" ∧ apiKey = trustAdminKey then ",trust:admin" else ""
  fw.new [("sub", ["internal"]), ("scope", [scope])]

/-! ## Bundles -/

variable (rt : Runtime)

/-- The query values of a bundle request; `qscdOnly` may not be a boolean. -/
structure BundleParams where
  territories : List String := []
  use : Option String := none
  anchorType : Option String := none
  qscdOnly : Except String (Option Bool) := .ok none
  keys : Option String := none

/-- `bundleQuery` -/
def bundleQuery (p : BundleParams) : Except ParamInvalidError Query :=
  let use := p.use.getD ""
  let anchorType := p.anchorType.getD ""
  let keys := p.keys.getD ""
  if !validUse use then .error ⟨"use", "oneof", ""⟩
  else if anchorType ≠ "" && !validAnchorType anchorType then .error ⟨"type", "oneof", ""⟩
  else
    match p.qscdOnly with
    | .error e => .error ⟨"qscdOnly", "bool", e⟩
    | .ok q =>
      if !validKeys keys then .error ⟨"keys", "oneof", ""⟩
      else .ok { territories := p.territories, use, qscdOnly := q.getD false, anchorType, keys }

/-- `containsFold` -/
def containsFold (list : List String) (s : String) : Bool := list.any fun v => rt.equalFold v s

/-- `stale`: a requested territory is past its next update and the grace. -/
def stale (snap : Snapshot) (territories : List String) (now : Time) (grace : Duration) : Bool :=
  snap.territories.any fun t =>
    (territories = [] || containsFold rt territories t.code) && t.staleAt now grace

/-- `strings.Split(s, ",")` -/
def splitCommas (s : String) : List String := (s.toList.splitOn ',').map String.ofList

/-- `strings.Trim(s, "\"")` -/
def trimQuotes (s : String) : String :=
  String.ofList ((s.toList.dropWhile (· = '"')).reverse.dropWhile (· = '"')).reverse

/-- `notModified` -/
def notModified (ifNoneMatch etag : String) : Bool :=
  if ifNoneMatch = "" then false
  else (splitCommas ifNoneMatch).any fun part => trimQuotes (trimSpace part) = trimQuotes etag

/-- The value of the `ETag` header. -/
def quoteETag (id : String) : String := "\"" ++ id ++ "\""

/-- `filterParamError` -/
def filterParamError (anchorType : String) : ParamInvalidError :=
  if anchorType ≠ "" && !validAnchorType anchorType then ⟨"type", "oneof", ""⟩ else ⟨"use", "oneof", ""⟩

/-- A request for a bundle: its query values and its `If-None-Match` header. -/
structure BundleRequest where
  params : BundleParams
  ifNoneMatch : String := ""

/-- The two bundle handlers after the scope check; they differ in how they write the anchors. -/
def bundle (write : Snapshot → List Anchor → Bool → Body) (grace : Duration) (now : Time) (req : BundleRequest)
    (active : Option Snapshot) : Response :=
  match active with
  | none => { status := 503, body := .text "no trust snapshot loaded yet" }
  | some snap =>
    match bundleQuery req.params with
    | .error e => { status := 422, body := .invalid e }
    | .ok q =>
      let isStale := stale rt snap q.territories now grace
      let headers : Response :=
        { status := 200, etag := some (quoteETag snap.id), trustSnapshot := some snap.id
          trustStale := some isStale }
      if notModified req.ifNoneMatch snap.id then { headers with status := 304 }
      else
        match filter rt snap q with
        | .error _ => { headers with status := 422, body := .invalid (filterParamError q.anchorType) }
        | .ok anchors => { headers with body := write snap anchors isStale }

/-- `anchorsPEM` -/
def anchorsPEM : Duration → Time → BundleRequest → Option Snapshot → Response :=
  bundle rt fun _ anchors _ => .pem (anchors.map Anchor.certDER)

/-- `anchorsJSON` -/
def anchorsJSON : Duration → Time → BundleRequest → Option Snapshot → Response :=
  bundle rt fun snap anchors isStale => .anchors (newAnchors snap anchors isStale)

/-! ## Other reads -/

def healthz : Response := { status := 200, body := .text "ok" }

/-- `readyz` -/
def readyz (active : Option Snapshot) : Response :=
  match active with
  | none => { status := 503, body := .text "no trust snapshot loaded" }
  | some _ => { status := 200, body := .text "ready" }

/-- `snapshot` -/
def snapshot (grace : Duration) (now : Time) (active : Option Snapshot) (boot : Option Bootstrap) :
    Response :=
  match active with
  | none => { status := 503, body := .text "no trust snapshot loaded yet" }
  | some snap =>
    { status := 200, trustSnapshot := some snap.id, body := .snapshot (newSnapshot rt snap boot now grace) }

/-! ## Administration -/

variable (cfg : Config)

/-- `approvePending` -/
def approvePending (fingerprint : String) (now : Time) (refused : Option String) (m : Service) :
    Response × Service :=
  match m.approvePending rt fingerprint now refused with
  | (.error e, m) => ({ status := 404, body := .text e.msg }, m)
  | (.ok snap, m) => ({ status := 200, body := .approved ⟨snap.id, fingerprint⟩ }, m)

/-- The report that `refresh` writes. -/
def refreshReport (out : Service.RefreshOutcome) : Response :=
  match out.snapshot with
  | none => { status := 502, body := .text "refresh failed and no snapshot exists yet; nothing is served" }
  | some served =>
    { status := 200
      body := .refresh (newRefresh served out.changed out.declaredChanged
        (out.declared.any (·.carriedOver)) ((out.declared.map (·.error)).getD "") out.cycleErr) }

/-- `refresh`. The service has a bootstrap set before it answers requests. -/
def refresh (inp : Service.RefreshInput) (m : Service) : Response × Service :=
  match m.bootstrap with
  | none => ({ status := 500 }, m)
  | some boot =>
    let (out, m) := m.refresh rt cfg boot inp
    (refreshReport out, m)

/-! ## The router -/

/-- The routes, with what the environment answers while one is handled. -/
inductive Route where
  | healthz
  | readyz
  | anchorsPEM (req : BundleRequest)
  | anchorsJSON (req : BundleRequest)
  | snapshot
  | approvePending (fingerprint : String) (now : Time) (refused : Option String)
  | refresh (inp : Service.RefreshInput)

/-- The scope level a route asks for; the probes are open. -/
def Route.level : Route → Option String
  | .healthz | .readyz => none
  | .anchorsPEM _ | .anchorsJSON _ | .snapshot => some "read"
  | .approvePending .. | .refresh _ => some "admin"

def Route.path : Route → String
  | .healthz => "/healthz"
  | .readyz => "/readyz"
  | .anchorsPEM _ => "/v1/anchors"
  | .anchorsJSON _ => "/v1/anchors.json"
  | .snapshot => "/v1/snapshot"
  | .approvePending fp _ _ => "/v1/pending/" ++ fp ++ "/approve"
  | .refresh _ => "/v1/refresh"

/-- A request: the time it is handled at, its `X-API-Key` header, what the token check of the authentication
library makes of it (its user, or an answer of its own), and its route. -/
structure Request (fw : Framework) where
  now : Time
  apiKey : String
  token : Except Response fw.User
  route : Route

variable {fw : Framework}

/-- `AuthMiddleware`: the user that a request goes on with. -/
def AuthMode.user (auth : AuthMode) (req : Request fw) : Except Response fw.User :=
  match auth with
  | .internal key => .ok (internalAuth fw key req.apiKey)
  | .dpop => req.token

/-- The handler of a route, once the caller may use it. -/
def Route.handle (now : Time) (m : Service) : Route → Response × Service
  | .healthz => (Routes.healthz, m)
  | .readyz => (Routes.readyz m.active, m)
  | .anchorsPEM req => (Routes.anchorsPEM rt cfg.staleGrace now req m.active, m)
  | .anchorsJSON req => (Routes.anchorsJSON rt cfg.staleGrace now req m.active, m)
  | .snapshot => (Routes.snapshot rt cfg.staleGrace now m.active m.bootstrap, m)
  | .approvePending fp now refused => Routes.approvePending rt fp now refused m
  | .refresh inp => Routes.refresh rt cfg inp m

/-- `requireScope`: a refusal is an event and an empty answer. -/
def requireScope (u : fw.User) (level : String) (route : Route) (m : Service) (k : Response × Service) :
    (Response × List SecurityEvent) × Service :=
  if fw.hasScopeLevel u "trust" level then ((k.1, []), k.2)
  else (({ status := 403 }, [.authzDenied ("trust:" ++ level) (fw.id u) route.path]), m)

/-- One request, through the authentication of the `/v1` group. -/
def serve (auth : AuthMode) (req : Request fw) (m : Service) : (Response × List SecurityEvent) × Service :=
  match req.route.level with
  | none =>
    let (res, m) := req.route.handle rt cfg req.now m
    ((res, []), m)
  | some level =>
    match auth.user req with
    | .error res => ((res, []), m)
    | .ok u => requireScope u level req.route m (req.route.handle rt cfg req.now m)

/-! ## The server -/

/-- `Start`: a process that has been initialized re-reads the declared sources. -/
def start (st : Service.Startup) (d : Service.Declared) (m : Service) : Service :=
  match m.newProcess.initializeManager st with
  | (.error _, m) => m
  | (.ok _, m) => (m.reconcileDeclared rt cfg d).2

/-- What goes on in a server: it starts, its refresh task runs a cycle, or it handles a request. -/
inductive Activity (fw : Framework) where
  | start (st : Service.Startup) (d : Service.Declared)
  | cycle (inp : Service.RefreshInput)
  | request (req : Request fw)

structure Settings where
  cfg : Config
  auth : AuthMode

/-- The state after an activity of a server with these settings. -/
def Settings.advance (settings : Settings) (act : Activity fw) (m : Service) : Service :=
  match act with
  | .start st d => Routes.start rt settings.cfg st d m
  | .cycle inp => m.step rt settings.cfg (.refresh inp)
  | .request req => (serve rt settings.cfg settings.auth req m).2

end TrustAnchor.Routes
