import Mathlib.Data.Nat.Digits.Lemmas

/-!
# Elements in the distinguished encoding rules

Tag, length and content of ASN.1 elements, as X.690 writes them: a tag from 31 on takes octets of its own, and a
length from 128 on is written after the number of its octets. What a reader makes of an encoding is the element and
what follows it.
-/

namespace TrustAnchor.Lib.Der

/-- An element that has an encoding: there are four classes, and at most 126 octets for a length. -/
@[ext] structure Element where
  cls : Nat
  tag : Nat
  compound : Bool
  content : List UInt8
  cls_lt : cls < 4
  length_lt : content.length < 256 ^ 126
deriving DecidableEq

variable {n : Nat} {el : Element} {bs rest : List UInt8}

/-! ## Numbers -/

/-- The octets of a number, the most significant one first. -/
def octets (n : Nat) : List UInt8 := (Nat.digits 256 n).reverse.map UInt8.ofNat

def ofOctets (bs : List UInt8) : Nat := bs.foldl (fun acc b => acc * 256 + b.toNat) 0

/-- Groups of seven bits, the most significant one first, with a mark on all but the last. -/
def groups (n : Nat) : List UInt8 :=
  (Nat.digits 128 (n / 128)).reverse.map (fun d => UInt8.ofNat (d + 128)) ++ [UInt8.ofNat (n % 128)]

/-- Reads groups up to the unmarked one. -/
def readGroups : Nat → List UInt8 → Option (Nat × List UInt8)
  | _, [] => none
  | acc, b :: bs =>
    if b.toNat < 128 then some (acc * 128 + b.toNat, bs) else readGroups (acc * 128 + (b.toNat - 128)) bs

/-- The digits of a number, the most significant one first, add up to it. -/
theorem foldl_reverse_digits (b n : Nat) : (Nat.digits b n).reverse.foldl (fun acc d => acc * b + d) 0 = n := by
  rw [List.foldl_reverse]
  refine Eq.trans ?_ (Nat.ofDigits_digits b n)
  rw [Nat.ofDigits_eq_foldr]
  congr 1
  funext d acc
  simp [Nat.mul_comm, Nat.add_comm]

theorem ofOctets_octets (n : Nat) : ofOctets (octets n) = n := by
  have hdigit : ∀ d ∈ (Nat.digits 256 n).reverse, (UInt8.ofNat d).toNat = d := by
    intro d hd
    rw [List.mem_reverse] at hd
    simpa using Nat.digits_lt_base (by decide) hd
  unfold ofOctets octets
  rw [List.foldl_map]
  refine Eq.trans ?_ (foldl_reverse_digits 256 n)
  refine List.foldl_ext _ _ _ fun acc d hd => ?_
  rw [hdigit d hd]

theorem length_octets (h : n < 256 ^ 126) : (octets n).length ≤ 126 := by
  simp only [octets, List.length_map, List.length_reverse]
  exact (Nat.digits_length_le_iff (by decide) n).2 h

theorem readGroups_marked {ds : List Nat} (hds : ∀ d ∈ ds, d < 128) (acc : Nat) :
    readGroups acc (ds.map (fun d => UInt8.ofNat (d + 128)) ++ rest) =
      readGroups (ds.foldl (fun acc d => acc * 128 + d) acc) rest := by
  induction ds generalizing acc with
  | nil => rfl
  | cons d ds ih =>
      rw [List.forall_mem_cons] at hds
      have hd : (UInt8.ofNat (d + 128)).toNat = d + 128 := by
        rw [UInt8.toNat_ofNat']
        omega
      simp only [List.map_cons, List.cons_append, readGroups, hd, List.foldl_cons]
      rw [if_neg (by omega), Nat.add_sub_cancel, ih hds.2]

theorem readGroups_groups (n : Nat) (rest : List UInt8) : readGroups 0 (groups n ++ rest) = some (n, rest) := by
  have hdigits : ∀ d ∈ (Nat.digits 128 (n / 128)).reverse, d < 128 := by
    intro d hd
    exact Nat.digits_lt_base (by decide) (List.mem_reverse.1 hd)
  have hlast : (UInt8.ofNat (n % 128)).toNat = n % 128 := by
    rw [UInt8.toNat_ofNat']
    omega
  unfold groups
  rw [List.append_assoc, readGroups_marked hdigits, foldl_reverse_digits]
  simp only [List.singleton_append, readGroups, hlast]
  rw [if_pos (Nat.mod_lt n (by decide)), Nat.div_add_mod']

/-! ## Elements -/

/-- Class and kind, and a small tag or a mark. -/
def firstOctet (el : Element) (low : Nat) : UInt8 :=
  UInt8.ofNat (el.cls * 64 + (if el.compound then 32 else 0) + low)

def identifier (el : Element) : List UInt8 :=
  if el.tag < 31 then [firstOctet el el.tag] else firstOctet el 31 :: groups el.tag

def lengthOctets (n : Nat) : List UInt8 :=
  if n < 128 then [UInt8.ofNat n] else UInt8.ofNat (128 + (octets n).length) :: octets n

def Element.encode (el : Element) : List UInt8 :=
  identifier el ++ (lengthOctets el.content.length ++ el.content)

def readTag (b : UInt8) (bs : List UInt8) : Option (Nat × List UInt8) :=
  if b.toNat % 32 < 31 then some (b.toNat % 32, bs) else readGroups 0 bs

def readLength : List UInt8 → Option (Nat × List UInt8)
  | [] => none
  | b :: bs =>
    if b.toNat < 128 then some (b.toNat, bs)
    else if bs.length < b.toNat - 128 then none
    else some (ofOctets (bs.take (b.toNat - 128)), bs.drop (b.toNat - 128))

/-- The first element and what follows it. -/
def read : List UInt8 → Option (Element × List UInt8)
  | [] => none
  | b :: bs => do
    let (tag, bs) ← readTag b bs
    let (n, bs) ← readLength bs
    if h : n ≤ bs.length ∧ n < 256 ^ 126 then
      some (⟨b.toNat / 64, tag, b.toNat / 32 % 2 = 1, bs.take n, by have := b.toNat_lt; omega,
        by rw [List.length_take]; exact (Nat.min_le_left _ _).trans_lt h.2⟩, bs.drop n)
    else none

theorem readLength_lengthOctets (h : n < 256 ^ 126) : readLength (lengthOctets n ++ rest) = some (n, rest) := by
  have hoctets := length_octets h
  unfold lengthOctets
  split_ifs with hshort
  · have hn : (UInt8.ofNat n).toNat = n := by
      rw [UInt8.toNat_ofNat']
      omega
    simp [readLength, hn, hshort]
  · have hn : (UInt8.ofNat (128 + (octets n).length)).toNat = 128 + (octets n).length := by
      rw [UInt8.toNat_ofNat']
      omega
    simp only [List.cons_append, readLength, hn, Nat.add_sub_cancel_left]
    rw [if_neg (by omega), if_neg (by simp), List.take_left, List.drop_left, ofOctets_octets]

theorem firstOctet_spec {low : Nat} (h : low < 32) : (firstOctet el low).toNat / 64 = el.cls ∧
    decide ((firstOctet el low).toNat / 32 % 2 = 1) = el.compound ∧ (firstOctet el low).toNat % 32 = low := by
  have hcls := el.cls_lt
  rw [firstOctet, UInt8.toNat_ofNat']
  cases el.compound <;> simp <;> omega

/-- The first octet says class and kind, and the tag is read from it on. -/
theorem identifier_start (el : Element) : ∃ b bs, identifier el = b :: bs ∧ b.toNat / 64 = el.cls ∧
    decide (b.toNat / 32 % 2 = 1) = el.compound ∧ ∀ rest, readTag b (bs ++ rest) = some (el.tag, rest) := by
  unfold identifier
  split_ifs with hshort
  · obtain ⟨hcls, hcompound, hlow⟩ := @firstOctet_spec el el.tag (by omega)
    exact ⟨_, [], rfl, hcls, hcompound, fun rest => by simp [readTag, hlow, hshort]⟩
  · obtain ⟨hcls, hcompound, hlow⟩ := @firstOctet_spec el 31 (by omega)
    exact ⟨_, groups el.tag, rfl, hcls, hcompound, fun rest => by simp [readTag, hlow, readGroups_groups]⟩

theorem read_encode (el : Element) (rest : List UInt8) : read (el.encode ++ rest) = some (el, rest) := by
  obtain ⟨b, bs, hidentifier, hcls, hcompound, htag⟩ := identifier_start el
  have hlength : readLength (lengthOctets el.content.length ++ (el.content ++ rest)) =
      some (el.content.length, el.content ++ rest) := readLength_lengthOctets el.length_lt
  simp only [Element.encode, hidentifier, List.cons_append, List.append_assoc, read, htag, hlength, Option.bind_eq_bind,
    Option.bind_some]
  rw [dif_pos ⟨by simp, el.length_lt⟩]
  simp [hcls, hcompound]

theorem Element.encode_ne_nil (el : Element) : el.encode ≠ [] := by
  intro h
  have hread := read_encode el []
  rw [h] at hread
  cases hread

theorem Element.length_content_le (el : Element) : el.content.length ≤ el.encode.length := by
  simp only [Element.encode, List.length_append]
  omega

end TrustAnchor.Lib.Der
