import Mathlib.Tactic.Ring
import TrustAnchor.Lib.Encoding

/-!
# Quoted strings

A double-quoted string with the escapes of the Go language. Which characters are printed as they are is a
parameter. The end of a quoted string can be told from it, so strings can be read off a text that quotes them.
-/

namespace TrustAnchor.Lib

variable {isPrint : Char → Bool} {c : Char} {w n : Nat}

/-! ## Digits -/

/-- The last `w` hexadecimal digits. -/
def hexDigits : Nat → Nat → List Char
  | 0, _ => []
  | w + 1, n => Nat.digitChar (n / 16 ^ w % 16) :: hexDigits w n

def hexValue (c : Char) : Nat := if c.toNat < 58 then c.toNat - 48 else c.toNat - 87

/-- Reads `w` digits, after digits with the value `acc`. -/
def readHex : Nat → Nat → List Char → Option (Nat × List Char)
  | 0, acc, cs => some (acc, cs)
  | _ + 1, _, [] => none
  | w + 1, acc, c :: cs => readHex w (acc * 16 + hexValue c) cs

theorem hexValue_digitChar (h : n < 16) : hexValue (Nat.digitChar n) = n := by
  revert n
  decide

theorem readHex_hexDigits (acc : Nat) (cs : List Char) :
    readHex w acc (hexDigits w n ++ cs) = some (acc * 16 ^ w + n % 16 ^ w, cs) := by
  induction w generalizing acc with
  | zero => simp [readHex, hexDigits, Nat.mod_one]
  | succ w ih =>
      have hdigit := hexValue_digitChar (Nat.mod_lt (n / 16 ^ w) (by decide : 0 < 16))
      have hsplit : n % 16 ^ (w + 1) = n % 16 ^ w + 16 ^ w * (n / 16 ^ w % 16) := Nat.mod_pow_succ
      simp only [hexDigits, List.cons_append, readHex, hdigit, ih, hsplit, Option.some.injEq, Prod.mk.injEq, and_true]
      ring

/-! ## Characters -/

/-- The escapes with a letter of their own. -/
def letterEscapes : List (Char × Char) :=
  [('\x07', 'a'), ('\x08', 'b'), ('\x0c', 'f'), ('\n', 'n'), ('\r', 'r'), ('\t', 't'), ('\x0b', 'v')]

/-- What follows the backslash of an escape. -/
def escape (c : Char) : List Char :=
  match letterEscapes.lookup c with
  | some letter => [letter]
  | none =>
    if c < ' ' || c = '\x7f' then 'x' :: hexDigits 2 c.toNat
    else if c.toNat < 0x10000 then 'u' :: hexDigits 4 c.toNat
    else 'U' :: hexDigits 8 c.toNat

def quoteChar (isPrint : Char → Bool) (c : Char) : List Char :=
  if c = '"' || c = '\\' then ['\\', c]
  else if isPrint c then [c]
  else '\\' :: escape c

/-- The character of an escape, and what follows it. -/
def unescape : List Char → Option (Char × List Char)
  | [] => none
  | 'x' :: cs => (readHex 2 0 cs).map fun r => (Char.ofNat r.1, r.2)
  | 'u' :: cs => (readHex 4 0 cs).map fun r => (Char.ofNat r.1, r.2)
  | 'U' :: cs => (readHex 8 0 cs).map fun r => (Char.ofNat r.1, r.2)
  | letter :: cs => ((letterEscapes.map Prod.swap).lookup letter).map fun c => (c, cs)

def unquoteChar : List Char → Option (Char × List Char)
  | [] => none
  | '\\' :: '"' :: cs => some ('"', cs)
  | '\\' :: '\\' :: cs => some ('\\', cs)
  | '\\' :: cs => unescape cs
  | c :: cs => some (c, cs)

theorem unescape_escape (c : Char) (cs : List Char) : unescape (escape c ++ cs) = some (c, cs) := by
  have hread : ∀ w, c.toNat < 16 ^ w → (readHex w 0 (hexDigits w c.toNat ++ cs)).map
      (fun r => (Char.ofNat r.1, r.2)) = some (c, cs) := by
    intro w hw
    rw [readHex_hexDigits, Nat.mod_eq_of_lt hw]
    simp
  have hlt := toNat_lt c
  unfold escape
  cases hletter : letterEscapes.lookup c with
  | some letter =>
      obtain ⟨before, after, hsplit, -⟩ := List.lookup_eq_some_iff.1 hletter
      have hmem : (c, letter) ∈ letterEscapes := by simp [hsplit]
      simp only [letterEscapes, List.mem_cons, Prod.mk.injEq, List.not_mem_nil, or_false] at hmem
      rcases hmem with ⟨rfl, rfl⟩ | ⟨rfl, rfl⟩ | ⟨rfl, rfl⟩ | ⟨rfl, rfl⟩ | ⟨rfl, rfl⟩ | ⟨rfl, rfl⟩ | ⟨rfl, rfl⟩ <;> rfl
  | none =>
      simp only
      split_ifs with hcontrol hshort
      · refine hread 2 ?_
        simp only [Bool.or_eq_true, decide_eq_true_eq] at hcontrol
        rcases hcontrol with hc | rfl
        · have : c.toNat < ' '.toNat := hc
          exact this.trans (by decide)
        · decide
      · exact hread 4 hshort
      · exact hread 8 (hlt.trans (by decide))

/-- An escape does not look like an escaped quote or backslash. -/
theorem escape_start (c : Char) : ∃ letter rest, escape c = letter :: rest ∧ letter ≠ '"' ∧ letter ≠ '\\' := by
  unfold escape
  cases hletter : letterEscapes.lookup c with
  | some letter =>
      obtain ⟨before, after, hsplit, -⟩ := List.lookup_eq_some_iff.1 hletter
      have hmem : (c, letter) ∈ letterEscapes := by simp [hsplit]
      have hletters : ∀ e ∈ letterEscapes, e.2 ≠ '"' ∧ e.2 ≠ '\\' := by decide
      exact ⟨letter, [], rfl, hletters _ hmem⟩
  | none =>
      simp only
      split_ifs <;> exact ⟨_, _, rfl, by decide, by decide⟩

theorem unquoteChar_quoteChar (c : Char) (cs : List Char) :
    unquoteChar (quoteChar isPrint c ++ cs) = some (c, cs) := by
  unfold quoteChar
  split_ifs with hquote hprint
  · simp only [Bool.or_eq_true, decide_eq_true_eq] at hquote
    rcases hquote with rfl | rfl <;> rfl
  · simp only [Bool.or_eq_true, decide_eq_true_eq, not_or] at hquote
    simp [unquoteChar, hquote.2]
  · obtain ⟨letter, rest, hescape, hq, hb⟩ := escape_start c
    have hread := unescape_escape c cs
    rw [hescape, List.cons_append] at hread
    simp [hescape, unquoteChar, hq, hb, hread]

theorem selfDelimiting_quoteChar : SelfDelimiting (quoteChar isPrint) := .of_decode unquoteChar_quoteChar

/-! ## Strings -/

/-- The text of `strconv.Quote`, and of the verb `%q`. -/
def quote (isPrint : Char → Bool) (s : String) : List Char :=
  '"' :: encodeElements '"' (quoteChar isPrint) s.toList

theorem selfDelimiting_quote : SelfDelimiting (quote isPrint) := by
  have helements : SelfDelimiting (encodeElements '"' (quoteChar isPrint)) := by
    refine selfDelimiting_quoteChar.elements fun c => ?_
    unfold quoteChar
    split_ifs with hquote
    · exact ⟨'\\', [c], rfl, by decide⟩
    · simp only [Bool.or_eq_true, decide_eq_true_eq, not_or] at hquote
      exact ⟨c, [], rfl, hquote.1⟩
    · exact ⟨'\\', escape c, rfl, by decide⟩
  intro s s' x y heq
  obtain ⟨hchars, hxy⟩ := helements (List.cons.inj heq).2
  exact ⟨String.toList_inj.1 hchars, hxy⟩

end TrustAnchor.Lib
