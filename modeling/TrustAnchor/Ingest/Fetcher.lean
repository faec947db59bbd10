import TrustAnchor.Lib.Fallible
import TrustAnchor.Runtime

/-!
# The fetcher

Downloads behind a host allow-list that grows while the process runs. The model also records every
request it hands to the transport, which is what the egress rules are about.
-/

namespace TrustAnchor.Ingest

open Lib

/-! ## The network -/

/-- The places of a cycle that ask for a document. A cycle passes each of them at most once. -/
inductive Site where
  | lotlDigest
  | lotl
  | pivot (seq : Nat)
  | tlDigest (code : String)
  | tl (code : String)
deriving DecidableEq

/-- What a server answers one request with. A redirect names its target in full. -/
inductive Answer where
  | failed (msg : String)
  | redirect (location : String)
  | response (status : Nat) (body : Except String Bytes)

/-- The network during one cycle: the answer to the `n`-th request for a site's document, for the
given URL. Nothing is assumed of it. -/
abbrev Network := Site → Nat → String → Answer

/-! ## State -/

structure Request where
  raw : String
  url : Url
deriving DecidableEq

structure Fetcher where
  maxSize : Int
  allowed : List String
  httpAllowed : List String
  /-- Every request sent so far. -/
  sent : List Request
deriving DecidableEq

/-- `NewFetcher` as the service calls it, without initial hosts. -/
def newFetcher (maxSize : Int) : Fetcher := ⟨maxSize, [], [], []⟩

abbrev Fetching := Fallible Fetcher Err

namespace Fetcher

variable (rt : Runtime)

/-- `Allow` -/
def allow (host : String) : Fetching Unit :=
  .modify fun f => if host = "" then f else { f with allowed := f.allowed.insert (rt.toLower host) }

def errInvalidURL (raw e : String) : Err := .failure ("ingest: invalid URL " ++ raw.quote ++ ": " ++ e)

/-- `AllowHTTPFor` -/
def allowHTTPFor (raw : String) : Fetching Unit :=
  match rt.parseURL raw with
  | .error e => .fail (errInvalidURL raw e)
  | .ok u =>
    if u.hostname = "" then .fail (.failure ("ingest: URL " ++ raw.quote ++ " has no host"))
    else .modify fun f => { f with httpAllowed := f.httpAllowed.insert (rt.toLower u.hostname) }

/-- `schemeOK`: https always, http for a host that was opted in. -/
def schemeOK (f : Fetcher) (u : Url) : Bool :=
  u.scheme = "https" || (u.scheme = "http" && rt.toLower u.hostname ∈ f.httpAllowed)

/-- `AllowURL`: it adds the URL's host to the allow-list. -/
def allowURL (raw : String) : Fetching Unit :=
  match rt.parseURL raw with
  | .error e => .fail (errInvalidURL raw e)
  | .ok u => do
    let f ← Fallible.get
    if !f.schemeOK rt u then .fail (.errEgressBlocked (raw.quote ++ " is not https")) else allow rt u.hostname

/-- `client.Do`: `http.Client` without a redirect policy of its own follows redirects and stops
after ten requests. It looks at no allow-list. -/
def clientDo (net : Network) (site : Site) : Nat → Nat → String → Url →
    Fetching (Nat × Except String Bytes)
  | 0, _, _, _ => .fail (.failure "stopped after 10 redirects")
  | fuel + 1, n, raw, u => do
    Fallible.modify fun f => { f with sent := f.sent ++ [⟨raw, u⟩] }
    match net site n raw with
    | .failed e => .fail (.failure e)
    | .response status body => pure (status, body)
    | .redirect location =>
      match rt.parseURL location with
      | .error e => .fail (.failure e)
      | .ok v =>
        if v.scheme ≠ "https" && v.scheme ≠ "http" then
          .fail (.failure "unsupported protocol scheme")
        else if v.host = "" then .fail (.failure "http: no Host in request URL")
        else clientDo net site fuel (n + 1) location v

/-- `io.ReadAll(io.LimitReader(body, maxSize+1))` and the size check after it. The limit is an
`int64` and wraps. -/
def readCapped (maxSize : Int) (rawURL : String) (body : Bytes) : Except Err Bytes :=
  let limit := wrapInt64 (maxSize + 1)
  let read := if limit ≤ 0 then [] else body.take limit.toNat
  if maxSize < read.length then
    .error (.failure ("ingest: " ++ rawURL ++ " exceeds size cap of " ++ toString maxSize ++ " bytes"))
  else .ok read

/-- What `Fetch` makes of the transport's answer. -/
def readResponse (maxSize : Int) (rawURL : String) :
    Except Err (Nat × Except String Bytes) → Except Err Bytes
  | .error e => .error (e.wrap ("ingest: fetch " ++ rawURL ++ ": ") "")
  | .ok (status, body) =>
    if status ≠ 200 then
      .error (.failure ("ingest: fetch " ++ rawURL ++ ": unexpected status " ++ toString status))
    else
      match body with
      | .error e => .error (.failure ("ingest: read " ++ rawURL ++ ": " ++ e))
      | .ok body => readCapped maxSize rawURL body

/-- `Fetch` -/
def fetch (net : Network) (site : Site) (rawURL : String) : Fetching Bytes :=
  match rt.parseURL rawURL with
  | .error e => .fail (errInvalidURL rawURL e)
  | .ok u => do
    let f ← Fallible.get
    if !f.schemeOK rt u then .fail (.errEgressBlocked (rawURL.quote ++ " is not https"))
    else if rt.toLower u.hostname ∉ f.allowed then
      .fail (.errEgressBlocked ("host " ++ u.hostname.quote ++ " not in allow-list"))
    else do
      let answer ← Fallible.attempt (clientDo rt net site 10 0 rawURL u)
      .ofExcept (readResponse f.maxSize rawURL answer)

/-! ## Digests -/

/-- The text before the last dot, when that dot is in the last path segment. -/
def beforeExtension (url : String) : Option String :=
  let segment := url.toList.reverse.takeWhile (· ≠ '/')
  if '.' ∈ segment then
    some (String.ofList ((url.toList.reverse.dropWhile (· ≠ '.')).drop 1).reverse)
  else none

/-- `digestURL`: the sibling `.sha2` of a list. -/
def digestURL (listURL : String) : String := (beforeExtension listURL).getD listURL ++ ".sha2"

/-- `FetchDigest` -/
def fetchDigest (net : Network) (site : Site) (listURL : String) : Fetching String := do
  let body ← fetch rt net site (digestURL listURL)
  return rt.toLower (trimSpace (textOf body))

end Fetcher

end TrustAnchor.Ingest
