import TrustAnchor.Tsl.Verify

/-!
# The territory pointer set

What the territory loop needs from the list of the lists, read off a verified list or carried by the
previous snapshot.
-/

namespace TrustAnchor.Ingest

open Tsl Trust

/-- `pointerSet`, in the list's territory order. -/
structure PointerSet where
  list : List ListPointer
deriving DecidableEq

/-- One territory's entry. A pointer whose certificates do not decode is recorded as that territory's
failure. -/
def listPointer (rt : Runtime) (lotl : TrustedList) (code : String) : ListPointer :=
  match lotl.pointerFor code with
  | .error e => { territory := code, failure := e.msg }
  | .ok ptr =>
    match ptr.certificateDERs rt with
    | .error e =>
      { territory := code, url := ptr.tslLocation,
        failure := "pointer certs for " ++ code ++ ": " ++ e.msg }
    | .ok ders => { territory := code, url := ptr.tslLocation, signersDER := ders }

/-- `lotlPointerSet` -/
def lotlPointerSet (rt : Runtime) (lotl : TrustedList) : PointerSet :=
  ⟨lotl.territories.map (listPointer rt lotl)⟩

/-- `carriedPointerSet` -/
def carriedPointerSet (list : List ListPointer) : PointerSet := ⟨list⟩

namespace PointerSet

def territories (ps : PointerSet) : List String := ps.list.map (·.territory)

/-- `pointerFor`: the first entry of the territory decides. -/
def pointerFor (ps : PointerSet) (code : String) : Except Err ListPointer :=
  match ps.list.find? fun lp => lp.territory = code with
  | none => .error (TrustedList.errNoXMLPointer code)
  | some lp => if lp.failure ≠ "" then .error (.failure lp.failure) else .ok lp

end PointerSet

end TrustAnchor.Ingest
