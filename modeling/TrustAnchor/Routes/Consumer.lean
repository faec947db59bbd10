import TrustAnchor.Ingest.Cluster
import TrustAnchor.Routes.Router

/-!
# A consumer in front of the instances

The consumer of the service's contract keeps one bundle. It polls with the entity tag it holds, whichever
instance answers; a `200` replaces what it keeps, a `304` and every error leave it.
-/

namespace TrustAnchor.Routes

open Ingest Trust

/-- What the consumer keeps. -/
structure Copy where
  etag : String
  certs : List Bytes
deriving DecidableEq

/-- The certificates in a body. -/
def Body.certs : Body → List Bytes
  | .pem certs => certs
  | .anchors a => a.anchors.map Anchor.certDER
  | _ => []

/-- The format the consumer asks for. -/
inductive Format where
  | pem
  | json
deriving DecidableEq

def Format.serve (rt : Runtime) : Format → Duration → Time → BundleRequest → Option Snapshot → Response
  | .pem => anchorsPEM rt
  | .json => anchorsJSON rt

/-- The consumer's request: always the same query, with the tag it holds. -/
def request (params : BundleParams) (copy : Option Copy) : BundleRequest :=
  { params, ifNoneMatch := (copy.map Copy.etag).getD "" }

/-- What an answer does to the copy. -/
def keep (res : Response) (copy : Option Copy) : Option Copy :=
  if res.status = 200 then some ⟨res.etag.getD "", res.body.certs⟩ else copy

/-- The instances and the consumer. -/
structure Deployment where
  cluster : Cluster
  copy : Option Copy := none

/-- What happens next: an operation of an instance, or a poll that the instance `i` answers. -/
inductive Action where
  | operate (i : Nat) (cfg : Config) (op : Op)
  | poll (i : Nat) (now : Time) (grace : Duration)

variable (rt : Runtime) (format : Format) (params : BundleParams)

namespace Deployment

/-- The answer of the instance `i` to the consumer. -/
def answer (d : Deployment) (i : Nat) (now : Time) (grace : Duration) : Response :=
  format.serve rt grace now (request params d.copy) (d.cluster.view i).active

def step (a : Action) (d : Deployment) : Deployment :=
  match a with
  | .operate i cfg op => { d with cluster := d.cluster.step rt i cfg op }
  | .poll i now grace => { d with copy := keep (d.answer rt format params i now grace) d.copy }

def run (actions : List Action) (d : Deployment) : Deployment := Lib.runFrom (step rt format params) actions d

def empty (maxSize : Int) : Deployment := { cluster := .empty maxSize }

end Deployment

end TrustAnchor.Routes
