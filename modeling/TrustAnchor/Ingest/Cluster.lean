import Mathlib.Logic.Function.Basic
import TrustAnchor.Ingest.Manager

/-!
# Several instances on one store

Each instance serves from its own memory; what one of them writes, all of them find when they start.
-/

namespace TrustAnchor.Ingest

open Lib

structure Cluster where
  store : Store := {}
  /-- The instances; what an instance's own `store` field says does not count. -/
  replica : Nat → Service

variable (rt : Runtime)

namespace Cluster

/-- The instance with the store as it is now. -/
def view (c : Cluster) (i : Nat) : Service := { c.replica i with store := c.store }

/-- One operation of one instance. -/
def step (i : Nat) (cfg : Config) (op : Op) (c : Cluster) : Cluster :=
  let m := (c.view i).step rt cfg op
  { store := m.store, replica := Function.update c.replica i m }

def empty (maxSize : Int) : Cluster := { replica := fun _ => .empty maxSize }

end Cluster

end TrustAnchor.Ingest
