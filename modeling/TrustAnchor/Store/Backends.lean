import TrustAnchor.Lib.Fallible
import TrustAnchor.Lib.Run
import TrustAnchor.Lib.Table
import TrustAnchor.Trust.Snapshot

/-!
# The store backends

`Memory`, `FS` and `S3` keep objects under one layout of keys, the latest one under a key of its own.
`Postgres` appends rows and reads the latest one off their order.
-/

namespace TrustAnchor.Store

open Lib Trust

/-- What the backends use and do not define: JSON, the time of a key in UTC to the second, and conversions of
PostgreSQL. -/
structure Codec where
  marshalSnapshot : Snapshot → Except String Bytes
  unmarshalSnapshot : Bytes → Except String Snapshot
  marshalBootstrap : Bootstrap → Except String Bytes
  unmarshalBootstrap : Bytes → Except String Bootstrap
  formatKeyTime : Time → String
  /-- `::jsonb`, which refuses a text with a NUL character: the text of the value. -/
  jsonb : Bytes → Except String Bytes
  /-- The error, if any, of `(pi_data->>key)::timestamptz`. -/
  timestamptz : String → Bytes → Option String

variable (c : Codec)

/-! ## Keys -/

/-- `%04d` -/
def pad4 (n : Int) : String :=
  let digits := (toString n.natAbs).toList
  if n < 0 then String.ofList ('-' :: digits.leftpad 3 '0') else String.ofList (digits.leftpad 4 '0')

/-- `snapshotKey`. Slicing an id that is too short panics. -/
def snapshotKey (s : Snapshot) : Option String :=
  if 16 ≤ s.id.toList.length then
    some ("snapshots/" ++ c.formatKeyTime s.generatedAt ++ "-" ++ String.ofList (s.id.toList.take 16) ++ ".json")
  else none

/-- `bootstrapKey` -/
def bootstrapKey (b : Bootstrap) : String := "bootstrap/v" ++ pad4 b.version ++ ".json"

def latestSnapshotKey : String := "snapshot-latest.json"

def latestBootstrapKey : String := "bootstrap-latest.json"

/-! ## Object backends -/

abbrev Objects := List (String × Bytes)

namespace Objects

/-- `put` -/
def put (key : String) (v : Except String Bytes) : Fallible Objects String Unit := do
  let b ← .ofExcept v
  .modify fun objects => mapInsert objects key b

/-- `get` -/
def get {α : Type} (key : String) (unmarshal : Bytes → Except String α) :
    Fallible Objects String (Option α) := fun objects =>
  match objects.lookup key with
  | none => (.ok none, objects)
  | some b => ((unmarshal b).map some, objects)

/-- An object under its own key, then under the key of the latest one. -/
def save (key latest : String) (v : Except String Bytes) : Fallible Objects String Unit := do
  put key v
  put latest v

def saveSnapshot (s : Snapshot) : Fallible Objects String Unit :=
  match snapshotKey c s with
  | none => .fail "runtime error: slice bounds out of range"
  | some key => save key latestSnapshotKey (c.marshalSnapshot s)

def loadLatestSnapshot : Fallible Objects String (Option Snapshot) := get latestSnapshotKey c.unmarshalSnapshot

def saveBootstrap (b : Bootstrap) : Fallible Objects String Unit :=
  save (bootstrapKey b) latestBootstrapKey (c.marshalBootstrap b)

def loadLatestBootstrap : Fallible Objects String (Option Bootstrap) :=
  get latestBootstrapKey c.unmarshalBootstrap

end Objects

/-! ## PostgreSQL -/

/-- A row of `trust_anchor.bootstrap`, without the columns that no procedure reads. -/
structure BootstrapRow where
  version : Int
  content : Bytes
deriving DecidableEq

/-- The two tables; of a row of `trust_anchor.snapshot` the procedures read the content. -/
structure Postgres where
  snapshot : Table Bytes := .empty
  bootstrap : Table BootstrapRow := .empty

namespace Postgres

/-- `Postgres.call`, up to the procedure. -/
def call {α : Type} (name : String) (v : Except String Bytes) (procedure : Bytes → Fallible Postgres String α) :
    Fallible Postgres String α :=
  match v with
  | .error e => .fail ("store: marshal input: " ++ e)
  | .ok b =>
    match c.jsonb b with
    | .error e => .fail ("store: " ++ name ++ ": " ++ e)
    | .ok data => procedure data

/-- The range of `integer`. -/
def isInteger (n : Int) : Bool := -2 ^ 31 ≤ n && n < 2 ^ 31

/-- The range of `bigint`, for a number that is not negative. -/
def isBigint (n : Nat) : Bool := n < 2 ^ 63

def outOfRange (value type : String) : String := "value " ++ value.quote ++ " is out of range for type " ++ type

/-- `trust_anchor.save_snapshot`. The casts of the columns are made in their order, and an error of one rolls the
transaction back. -/
def saveSnapshot (s : Snapshot) : Fallible Postgres String Unit :=
  let failed := "store: trust_anchor.save_snapshot: trust_anchor:save_snapshot_failed: "
  call c "trust_anchor.save_snapshot" (c.marshalSnapshot s) fun data =>
    if s.id = "" then
      .fail "store: trust_anchor.save_snapshot: trust_anchor:invalid: snapshot id is required"
    else
      match c.timestamptz "generatedAt" data with
      | some e => .fail (failed ++ e)
      | none =>
        if isBigint s.lotlSequence then .modify fun p => { p with snapshot := p.snapshot.insert data }
        else .fail (failed ++ outOfRange (toString s.lotlSequence) "bigint")

/-- The content that a load found. -/
def decode {α : Type} (what : String) (unmarshal : Bytes → Except String α) :
    Option Bytes → Except String (Option α)
  | none => .ok none
  | some b =>
    match unmarshal b with
    | .ok a => .ok (some a)
    | .error e => .error ("store: load " ++ what ++ ": decode " ++ what ++ ": " ++ e)

/-- `trust_anchor.load_latest_snapshot`: by `seq`, descending. -/
def loadLatestSnapshot : Fallible Postgres String (Option Snapshot) := fun p =>
  (decode "snapshot" c.unmarshalSnapshot p.snapshot.newest, p)

/-- `trust_anchor.save_bootstrap` -/
def saveBootstrap (b : Bootstrap) : Fallible Postgres String Unit :=
  let failed := "store: trust_anchor.save_bootstrap: trust_anchor:save_bootstrap_failed: "
  call c "trust_anchor.save_bootstrap" (c.marshalBootstrap b) fun data =>
    if isInteger b.version then
      match c.timestamptz "activatedAt" data with
      | some e => .fail (failed ++ e)
      | none => .modify fun p => { p with bootstrap := p.bootstrap.insert ⟨b.version, data⟩ }
    else .fail (failed ++ outOfRange (toString b.version) "integer")

/-- `trust_anchor.load_latest_bootstrap`: by `version`, then by `seq`, descending. -/
def loadLatestBootstrap : Fallible Postgres String (Option Bootstrap) := fun p =>
  (decode "bootstrap" c.unmarshalBootstrap ((p.bootstrap.highest BootstrapRow.version).map BootstrapRow.content), p)

end Postgres

/-! ## Calls -/

/-- A call of the interface `Store`. -/
inductive Call where
  | saveSnapshot (s : Snapshot)
  | loadLatestSnapshot
  | saveBootstrap (b : Bootstrap)
  | loadLatestBootstrap

inductive Reply where
  | saved (r : Except String Unit)
  | snapshot (r : Except String (Option Snapshot))
  | bootstrap (r : Except String (Option Bootstrap))
deriving DecidableEq

def Objects.step (call : Call) (objects : Objects) : Reply × Objects :=
  match call with
  | .saveSnapshot s => (saveSnapshot c s objects).map .saved id
  | .loadLatestSnapshot => (loadLatestSnapshot c objects).map .snapshot id
  | .saveBootstrap b => (saveBootstrap c b objects).map .saved id
  | .loadLatestBootstrap => (loadLatestBootstrap c objects).map .bootstrap id

def Postgres.step (call : Call) (p : Postgres) : Reply × Postgres :=
  match call with
  | .saveSnapshot s => (saveSnapshot c s p).map .saved id
  | .loadLatestSnapshot => (loadLatestSnapshot c p).map .snapshot id
  | .saveBootstrap b => (saveBootstrap c b p).map .saved id
  | .loadLatestBootstrap => (loadLatestBootstrap c p).map .bootstrap id

end TrustAnchor.Store
