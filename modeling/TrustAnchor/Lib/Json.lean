import Mathlib.Data.List.Basic

/-!
# Records as JSON objects

A record is written field by field under the names of its tags. A field that is omitted when empty, or not
written at all, is read back as what it stands for, so that what was written is read back whole.
-/

namespace TrustAnchor.Lib

inductive Json where
  | null
  | bool (b : Bool)
  | num (n : Int)
  | str (s : String)
  | arr (elements : List Json)
  | obj (fields : List (String × Json))

/-- A way to write the values of a type, which may fail, and to read back what was written. -/
structure Codec (α : Type) where
  encode : α → Option Json
  decode : Json → Option α
  decode_encode : ∀ {a j}, encode a = some j → decode j = some a

namespace Codec

variable {α : Type}

def bool : Codec Bool where
  encode b := some (.bool b)
  decode
    | .bool b => some b
    | _ => none
  decode_encode h := by
    cases h
    rfl

def int : Codec Int where
  encode n := some (.num n)
  decode
    | .num n => some n
    | _ => none
  decode_encode h := by
    cases h
    rfl

def nat : Codec Nat where
  encode n := some (.num n)
  decode
    | .num (.ofNat n) => some n
    | _ => none
  decode_encode h := by
    cases h
    rfl

/-- Values with a text form. -/
def text (format : α → Option String) (parse : String → Option α)
    (parse_format : ∀ {a s}, format a = some s → parse s = some a) : Codec α where
  encode a := (format a).map .str
  decode
    | .str s => parse s
    | _ => none
  decode_encode h := by
    obtain ⟨s, hs, rfl⟩ := Option.map_eq_some_iff.1 h
    exact parse_format hs

def string : Codec String := text some some Eq.symm

theorem mapM_decode {c : Codec α} {as : List α} {js : List Json} (h : as.mapM c.encode = some js) :
    js.mapM c.decode = some as := by
  induction as generalizing js with
  | nil =>
      cases h
      rfl
  | cons a as ih =>
      rw [List.mapM_cons] at h
      obtain ⟨j, hj, h⟩ := Option.bind_eq_some_iff.1 h
      obtain ⟨js', hjs, h⟩ := Option.bind_eq_some_iff.1 h
      cases h
      rw [List.mapM_cons, c.decode_encode hj, ih hjs]
      rfl

def list (c : Codec α) : Codec (List α) where
  encode as := (as.mapM c.encode).map .arr
  decode
    | .arr js => js.mapM c.decode
    | .null => some []
    | _ => none
  decode_encode h := by
    obtain ⟨js, hjs, rfl⟩ := Option.map_eq_some_iff.1 h
    exact mapM_decode hjs

end Codec

/-- The fields of `σ` that make up `β`: how they are written, each under its name or omitted, and how they
are looked up. -/
structure Record (σ β : Type) where
  names : List String
  write : σ → Option (List (String × Option Json))
  read : (String → Option Json) → Option β
  /-- What is read back. -/
  view : σ → β
  names_write : ∀ {a parts}, write a = some parts → parts.map Prod.fst = names
  read_write : ∀ {a parts look}, write a = some parts → (∀ p ∈ parts, look p.1 = p.2) →
    read look = some (view a)

namespace Record

variable {σ α β : Type}

def make (b : β) : Record σ β where
  names := []
  write _ := some []
  read _ := some b
  view _ := b
  names_write h := by
    cases h
    rfl
  read_write _ _ := rfl

/-- One more field. -/
def column (r : Record σ (α → β)) (name : String) (put : σ → Option (Option Json))
    (take : Option Json → Option α) (get : σ → α)
    (take_put : ∀ {a w}, put a = some w → take w = some (get a)) : Record σ β where
  names := r.names ++ [name]
  write a := do
    let parts ← r.write a
    let w ← put a
    return parts ++ [(name, w)]
  read look := do
    let f ← r.read look
    let x ← take (look name)
    return f x
  view a := r.view a (get a)
  names_write h := by
    obtain ⟨parts, hparts, h⟩ := Option.bind_eq_some_iff.1 h
    obtain ⟨w, -, h⟩ := Option.bind_eq_some_iff.1 h
    cases h
    rw [List.map_append, r.names_write hparts]
    rfl
  read_write h hlook := by
    obtain ⟨parts, hparts, h⟩ := Option.bind_eq_some_iff.1 h
    obtain ⟨w, hw, h⟩ := Option.bind_eq_some_iff.1 h
    cases h
    obtain ⟨hparts', hname⟩ := List.forall_mem_append.1 hlook
    rw [r.read_write hparts hparts', hname (name, w) (by simp), Option.bind_eq_bind, Option.bind_some,
      take_put hw]
    rfl

/-- A field that is always written; `zero` is what it has when there is nothing to read. -/
def field (r : Record σ (α → β)) (name : String) (c : Codec α) (zero : α) (get : σ → α) : Record σ β :=
  r.column name (fun a => (c.encode (get a)).map some)
    (fun w => match w with
      | none => some zero
      | some j => c.decode j)
    get fun h => by
      obtain ⟨j, hj, rfl⟩ := Option.map_eq_some_iff.1 h
      exact c.decode_encode hj

/-- A field that is omitted when empty. -/
def omitempty [DecidableEq α] (r : Record σ (α → β)) (name : String) (c : Codec α) (zero : α) (get : σ → α) :
    Record σ β :=
  r.column name (fun a => if get a = zero then some none else (c.encode (get a)).map some)
    (fun w => match w with
      | none => some zero
      | some j => c.decode j)
    get fun {a w} h => by
      split_ifs at h with hzero
      · cases h
        rw [hzero]
      · obtain ⟨j, hj, rfl⟩ := Option.map_eq_some_iff.1 h
        exact c.decode_encode hj

/-- A pointer that is omitted when nil. -/
def pointer (r : Record σ (Option α → β)) (name : String) (c : Codec α) (get : σ → Option α) : Record σ β :=
  r.column name
    (fun a => match get a with
      | none => some none
      | some x => (c.encode x).map some)
    (fun w => match w with
      | none => some none
      | some j => (c.decode j).map some)
    get fun {a w} h => by
      cases hx : get a with
      | none =>
          rw [hx] at h
          cases h
          rfl
      | some x =>
          rw [hx] at h
          obtain ⟨j, hj, rfl⟩ := Option.map_eq_some_iff.1 h
          simp [c.decode_encode hj]

/-- A field that is not written. -/
def skip (r : Record σ (α → β)) (zero : α) : Record σ β where
  names := r.names
  write := r.write
  read look := (r.read look).map fun f => f zero
  view a := r.view a zero
  names_write := r.names_write
  read_write h hlook := by rw [r.read_write h hlook, Option.map_some]

section Names

variable {r : Record σ (α → β)} {name : String} {c : Codec α} {zero : α} {get : σ → α}

@[simp] theorem make_names (b : β) : (make b : Record σ β).names = [] := rfl

@[simp] theorem field_names : (r.field name c zero get).names = r.names ++ [name] := rfl

@[simp] theorem omitempty_names [DecidableEq α] : (r.omitempty name c zero get).names = r.names ++ [name] := rfl

@[simp] theorem pointer_names {r : Record σ (Option α → β)} {get : σ → Option α} :
    (r.pointer name c get).names = r.names ++ [name] := rfl

@[simp] theorem skip_names : (r.skip zero).names = r.names := rfl

end Names

/-- The fields that are not omitted. -/
def present (parts : List (String × Option Json)) : List (String × Json) :=
  parts.filterMap fun p => p.2.map fun j => (p.1, j)

theorem lookup_present_of_notMem {parts : List (String × Option Json)} {name : String}
    (h : name ∉ parts.map Prod.fst) : (present parts).lookup name = none := by
  rw [List.lookup_eq_none_iff]
  intro p hp
  obtain ⟨⟨name', w⟩, hw, hp⟩ := List.mem_filterMap.1 hp
  obtain ⟨j, -, rfl⟩ := Option.map_eq_some_iff.1 hp
  have hne : name ≠ name' := fun heq => h (heq ▸ List.mem_map_of_mem hw)
  simpa using hne

theorem lookup_present {parts : List (String × Option Json)} (hnames : (parts.map Prod.fst).Nodup)
    {p : String × Option Json} (hp : p ∈ parts) : (present parts).lookup p.1 = p.2 := by
  induction parts with
  | nil => cases hp
  | cons q parts ih =>
      obtain ⟨hq, hnames⟩ := List.nodup_cons.1 hnames
      rcases List.mem_cons.1 hp with rfl | hp
      · obtain ⟨name, w⟩ := p
        cases w with
        | none =>
            have hnone : (present parts).lookup name = none := lookup_present_of_notMem hq
            simpa [present] using hnone
        | some j => simp [present]
      · have hne : p.1 ≠ q.1 := fun heq => hq (heq ▸ List.mem_map_of_mem hp)
        rw [← ih hnames hp]
        obtain ⟨name, w⟩ := q
        cases w with
        | none => rfl
        | some j => simp [present, List.lookup_cons, beq_false_of_ne hne]

def encode (r : Record σ β) (a : σ) : Option Json := (r.write a).map fun parts => .obj (present parts)

def decode (r : Record σ β) : Json → Option β
  | .obj fields => r.read fun name => fields.lookup name
  | _ => none

theorem decode_encode {r : Record σ β} (hnames : r.names.Nodup) {a : σ} {j : Json} (h : r.encode a = some j) :
    r.decode j = some (r.view a) := by
  obtain ⟨parts, hparts, rfl⟩ := Option.map_eq_some_iff.1 h
  have hnodup : (parts.map Prod.fst).Nodup := by rwa [r.names_write hparts]
  exact r.read_write hparts fun p hp => lookup_present hnodup hp

/-- A record of which all is read back. -/
def codec (r : Record σ σ) (hnames : r.names.Nodup) (hview : ∀ a, r.view a = a) : Codec σ where
  encode := r.encode
  decode := r.decode
  decode_encode h := by rw [decode_encode hnames h, hview]

end Record

end TrustAnchor.Lib
