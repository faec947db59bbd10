import Mathlib.Data.List.Basic
import Mathlib.Logic.Function.Basic

/-!
# Self-delimiting encodings

An encoding whose end can be told from its content. Such encodings can be put one after the other, and
so give encodings of pairs, lists and records.
-/

namespace TrustAnchor.Lib

variable {α β γ σ : Type} {enc : α → List σ} {enc' : β → List σ}

/-- What follows an encoding can be told from it. -/
def SelfDelimiting (enc : α → List σ) : Prop :=
  ∀ ⦃a b : α⦄ ⦃x y : List σ⦄, enc a ++ x = enc b ++ y → a = b ∧ x = y

namespace SelfDelimiting

theorem injective (h : SelfDelimiting enc) : Function.Injective enc := by
  intro a b heq
  exact (h (x := []) (y := []) (by rw [heq])).1

theorem comap (h : SelfDelimiting enc) {f : γ → α} (hf : Function.Injective f) :
    SelfDelimiting fun c => enc (f c) := by
  intro a b x y heq
  obtain ⟨hab, hxy⟩ := h heq
  exact ⟨hf hab, hxy⟩

theorem pair (h : SelfDelimiting enc) (h' : SelfDelimiting enc') :
    SelfDelimiting fun p : α × β => enc p.1 ++ enc' p.2 := by
  rintro ⟨a, b⟩ ⟨a', b'⟩ x y heq
  simp only [List.append_assoc] at heq
  obtain ⟨rfl, hrest⟩ := h heq
  obtain ⟨rfl, hxy⟩ := h' hrest
  exact ⟨rfl, hxy⟩

theorem of_decode {decode : List σ → Option (α × List σ)} (h : ∀ a x, decode (enc a ++ x) = some (a, x)) :
    SelfDelimiting enc := by
  intro a b x y heq
  have hdecode := congrArg decode heq
  rw [h, h] at hdecode
  exact Prod.mk.inj (Option.some.inj hdecode)

theorem of_length {n : Nat} (hlen : ∀ a, (enc a).length = n) (hinj : Function.Injective enc) :
    SelfDelimiting enc := by
  intro a b x y heq
  obtain ⟨hab, hxy⟩ := List.append_inj heq ((hlen a).trans (hlen b).symm)
  exact ⟨hinj hab, hxy⟩

end SelfDelimiting

/-! ## Encodings -/

/-- The elements one after the other, and a mark at the end. -/
def encodeElements (stop : σ) (enc : α → List σ) : List α → List σ
  | [] => [stop]
  | a :: as => enc a ++ encodeElements stop enc as

/-- When no element starts with the mark, the mark tells the end. -/
theorem SelfDelimiting.elements {stop : σ} (h : SelfDelimiting enc)
    (hstart : ∀ a, ∃ b x, enc a = b :: x ∧ b ≠ stop) : SelfDelimiting (encodeElements stop enc) := by
  have hend : ∀ a (as : List α) (x y : List σ), enc a ++ encodeElements stop enc as ++ x ≠ stop :: y := by
    intro a as x y heq
    obtain ⟨b, rest, hb, hne⟩ := hstart a
    rw [hb] at heq
    exact hne (List.cons.inj heq).1
  intro as
  induction as with
  | nil =>
      intro bs x y heq
      cases bs with
      | nil => exact ⟨rfl, by simpa [encodeElements] using heq⟩
      | cons b bs => exact absurd heq.symm (hend b bs y x)
  | cons a as ih =>
      intro bs x y heq
      cases bs with
      | nil => exact absurd heq (hend a as x y)
      | cons b bs =>
          simp only [encodeElements, List.append_assoc] at heq
          obtain ⟨rfl, hrest⟩ := h heq
          obtain ⟨rfl, hxy⟩ := ih hrest
          exact ⟨rfl, hxy⟩

def encodeList (enc : α → List UInt8) : List α → List UInt8 := encodeElements 0 fun a => 1 :: enc a

theorem SelfDelimiting.list {enc : α → List UInt8} (h : SelfDelimiting enc) : SelfDelimiting (encodeList enc) := by
  refine SelfDelimiting.elements ?_ fun a => ⟨1, enc a, rfl, by decide⟩
  intro a b x y heq
  exact h (List.cons.inj heq).2

def encodeNat (n : Nat) : List UInt8 := encodeList (fun _ : Unit => []) (List.replicate n ())

theorem selfDelimiting_encodeNat : SelfDelimiting encodeNat := by
  have hunit : SelfDelimiting fun _ : Unit => ([] : List UInt8) := fun _ _ _ _ heq => ⟨rfl, heq⟩
  exact hunit.list.comap (List.replicate_left_injective ())

def encodeBool (b : Bool) : List UInt8 := [if b then 1 else 0]

theorem selfDelimiting_encodeBool : SelfDelimiting encodeBool := by
  refine .of_length (n := 1) (fun _ => rfl) fun a b heq => ?_
  cases a <;> cases b <;> simp_all [encodeBool]

/-- One byte for a small code point, four for the others. -/
def encodeChar (c : Char) : List UInt8 :=
  if c.toNat < 254 then [(c.toNat + 1).toUInt8]
  else [255, (c.toNat / 65536).toUInt8, (c.toNat / 256 % 256).toUInt8, (c.toNat % 256).toUInt8]

theorem toNat_lt (c : Char) : c.toNat < 1114112 := by
  have hvalid := c.valid
  simp only [UInt32.isValidChar, Nat.isValidChar] at hvalid
  simp only [Char.toNat]
  omega

theorem selfDelimiting_encodeChar : SelfDelimiting encodeChar := by
  intro c d x y heq
  have hc := toNat_lt c
  have hd := toNat_lt d
  unfold encodeChar at heq
  split_ifs at heq <;> simp only [List.cons_append, List.nil_append, List.cons.injEq, ← UInt8.toNat_inj,
    Nat.toUInt8_eq, UInt8.toNat_ofNat', UInt8.reduceToNat] at heq
  · exact ⟨Char.toNat_inj.1 (by omega), heq.2⟩
  · omega
  · omega
  · exact ⟨Char.toNat_inj.1 (by omega), heq.2.2.2.2⟩

def encodeString (s : String) : List UInt8 := encodeElements 0 encodeChar s.toList

theorem selfDelimiting_encodeString : SelfDelimiting encodeString := by
  refine (selfDelimiting_encodeChar.elements fun c => ?_).comap fun _ _ heq => String.toList_inj.1 heq
  unfold encodeChar
  split_ifs with hc
  · refine ⟨_, [], rfl, ?_⟩
    rw [ne_eq, ← UInt8.toNat_inj, Nat.toUInt8_eq, UInt8.toNat_ofNat']
    simp only [UInt8.toNat_zero]
    omega
  · exact ⟨255, _, rfl, by decide⟩

end TrustAnchor.Lib
