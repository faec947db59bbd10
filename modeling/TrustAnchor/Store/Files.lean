import TrustAnchor.Store.Backends

/-!
# The file backend on a disk that fails

A put of `FS` is three operations on files. An operation may report a failure, and the process may end in it; both
leave the files at the point that the operation reached. What an operation has written is there for the next process:
the machine itself does not fail.
-/

namespace TrustAnchor.Store

open Lib Trust

/-- What becomes of an operation. -/
inductive Fate where
  | done
  /-- It breaks with this error, at this point. -/
  | breaks (err : String) (point : Nat)

/-- The files, and the fates of the operations to come; after these, all are done. -/
structure Disk where
  files : Objects
  fates : List Fate

/-- An operation with its effect, whole or up to a point. -/
def operation (effect : Option Nat → Objects → Objects) : Fallible Disk String Unit := fun s =>
  match s.fates with
  | [] => (.ok (), { s with files := effect none s.files })
  | .done :: fates => (.ok (), ⟨effect none s.files, fates⟩)
  | .breaks err point :: fates => (.error err, ⟨effect (some point) s.files, fates⟩)

/-- The file, if there is one. -/
def lookup (path : String) : Fallible Disk String (Option Bytes) := fun s => (.ok (s.files.lookup path), s)

namespace FS

variable (c : Codec)

/-! ## Operations on files

Paths are relative to the directory of the store. -/

/-- `os.MkdirAll`; directories are not modelled. -/
def mkdirAll : Fallible Disk String Unit := operation fun _ => id

/-- `os.WriteFile`: the file is truncated first, so that a break leaves a part of the contents, or no change. -/
def writeFile (path : String) (b : Bytes) : Fallible Disk String Unit :=
  operation fun point files =>
    match point with
    | none => mapInsert files path b
    | some 0 => files
    | some (n + 1) => mapInsert files path (b.take n)

/-- `os.Rename`, which is atomic; a break comes before it or after it. -/
def rename (oldpath newpath : String) : Fallible Disk String Unit := do
  match ← lookup oldpath with
  | none => .fail "no such file or directory"
  | some b =>
    operation fun point files =>
      match point with
      | some 0 => files
      | _ => mapInsert (files.filter (·.1 ≠ oldpath)) newpath b

/-- `os.ReadFile`, without a file for `os.ErrNotExist`. -/
def readFile (path : String) : Fallible Disk String (Option Bytes) := do
  operation fun _ => id
  lookup path

/-! ## The backend -/

/-- `put` -/
def put (key : String) (v : Except String Bytes) : Fallible Disk String Unit := do
  let b ← .ofExcept v
  mkdirAll
  let tmp := key ++ ".tmp"
  writeFile tmp b
  rename tmp key

/-- `get` -/
def get {α : Type} (key : String) (unmarshal : Bytes → Except String α) : Fallible Disk String (Option α) := do
  match ← readFile key with
  | none => pure none
  | some b => .ofExcept ((unmarshal b).map some)

/-- The two puts of a save. -/
def save (key latest : String) (v : Except String Bytes) : Fallible Disk String Unit := do
  put key v
  put latest v

def saveSnapshot (s : Snapshot) : Fallible Disk String Unit :=
  match snapshotKey c s with
  | none => .fail "runtime error: slice bounds out of range"
  | some key => save key latestSnapshotKey (c.marshalSnapshot s)

def loadLatestSnapshot : Fallible Disk String (Option Snapshot) := get latestSnapshotKey c.unmarshalSnapshot

def saveBootstrap (b : Bootstrap) : Fallible Disk String Unit :=
  save (bootstrapKey b) latestBootstrapKey (c.marshalBootstrap b)

def loadLatestBootstrap : Fallible Disk String (Option Bootstrap) := get latestBootstrapKey c.unmarshalBootstrap

/-- A call, with the fates of its operations. -/
def step (call : Call × List Fate) (files : Objects) : Reply × Objects :=
  let s : Disk := ⟨files, call.2⟩
  match call.1 with
  | .saveSnapshot snap => (saveSnapshot c snap s).map .saved Disk.files
  | .loadLatestSnapshot => (loadLatestSnapshot c s).map .snapshot Disk.files
  | .saveBootstrap b => (saveBootstrap c b s).map .saved Disk.files
  | .loadLatestBootstrap => (loadLatestBootstrap c s).map .bootstrap Disk.files

end FS

end TrustAnchor.Store
