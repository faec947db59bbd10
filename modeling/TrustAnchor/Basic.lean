import Mathlib.Algebra.Ring.Int.Defs
import Mathlib.Algebra.Ring.Nat
import Mathlib.Data.List.Sort
import Mathlib.Data.String.Basic

/-!
# Bytes, instants, texts and errors

The values the packages share. Go's `[]byte` is a list of bytes, an instant is a number of
nanoseconds, and an error is its text together with the sentinels that `errors.Is` finds in it.
-/

namespace TrustAnchor

abbrev Bytes := List UInt8

abbrev Time := Int

abbrev Duration := Int

def maxDuration : Duration := 2 ^ 63 - 1

def minDuration : Duration := -(2 ^ 63)

/-- `time.Time.Sub`, which saturates at the bounds of a `time.Duration`. -/
def timeSub (t u : Time) : Duration := max minDuration (min maxDuration (t - u))

/-- Saturation only lowers a difference that is positive. -/
theorem le_sub_of_le_timeSub {d : Duration} {t u : Time} (hd : 0 < d) (h : d ≤ timeSub t u) :
    d ≤ t - u := by
  rcases le_max_iff.1 h with h | h
  · have hmin : minDuration < 0 := by decide
    exact absurd (h.trans_lt hmin) hd.asymm
  · exact (le_min_iff.1 h).2

/-- `time.Time{}`, the instant `IsZero` answers for. -/
def zeroTime : Time := -62135596800 * 1000000000

/-- `int64(n)` of a `uint64`. -/
def toInt64 (n : Nat) : Int :=
  let m : Int := (n % 2 ^ 64 : Nat)
  if m < 2 ^ 63 then m else m - 2 ^ 64

/-- The `int64` a sum or difference wraps to. -/
def wrapInt64 (i : Int) : Int :=
  let m := i % 2 ^ 64
  if m < 2 ^ 63 then m else m - 2 ^ 64

theorem toInt64_eq_iff {n : Nat} : toInt64 n = n ↔ n < 2 ^ 63 := by
  unfold toInt64
  simp only
  split <;> omega

theorem wrapInt64_of_lt {i : Int} (hmin : -(2 ^ 63) ≤ i) (hmax : i < 2 ^ 63) : wrapInt64 i = i := by
  unfold wrapInt64
  simp only
  split <;> omega

/-! ## Texts -/

/-- `unicode.IsSpace`. -/
def isSpace (c : Char) : Bool :=
  c ∈ ['\t', '\n', Char.ofNat 0x0B, Char.ofNat 0x0C, '\r', ' ', Char.ofNat 0x85, Char.ofNat 0xA0,
    Char.ofNat 0x1680, Char.ofNat 0x2028, Char.ofNat 0x2029, Char.ofNat 0x202F, Char.ofNat 0x205F,
    Char.ofNat 0x3000] || (0x2000 ≤ c.toNat && c.toNat ≤ 0x200A)

/-- `strings.TrimSpace`. -/
def trimSpace (s : String) : String :=
  String.ofList ((s.toList.dropWhile isSpace).reverse.dropWhile isSpace).reverse

/-- `string(b)`. Bytes that are not UTF-8 spell no name and no digest. -/
def textOf (b : Bytes) : String :=
  (String.fromUTF8? (ByteArray.mk b.toArray)).getD (String.ofList [Char.ofNat 0xFFFD])

def hexDigit (n : Nat) : Char := if n < 10 then Char.ofNat (48 + n) else Char.ofNat (87 + n)

/-- `hex.EncodeToString`. -/
def hexEncode (b : Bytes) : String :=
  String.ofList (b.flatMap fun x => [hexDigit (x.toNat / 16), hexDigit (x.toNat % 16)])

theorem mem_hexEncode {b : Bytes} {c : Char} (h : c ∈ (hexEncode b).toList) : ∃ n < 16, c = hexDigit n := by
  simp only [hexEncode, String.toList_ofList, List.mem_flatMap] at h
  obtain ⟨x, -, h⟩ := h
  have hx := x.toNat_lt
  simp only [List.mem_cons, List.not_mem_nil, or_false] at h
  rcases h with rfl | rfl
  · exact ⟨_, by omega, rfl⟩
  · exact ⟨_, by omega, rfl⟩

theorem slash_notMem_hexEncode (b : Bytes) : '/' ∉ (hexEncode b).toList := by
  intro h
  obtain ⟨n, hn, h⟩ := mem_hexEncode h
  revert n
  decide

theorem underscore_notMem_hexEncode (b : Bytes) : '_' ∉ (hexEncode b).toList := by
  intro h
  obtain ⟨n, hn, h⟩ := mem_hexEncode h
  revert n
  decide

@[simp] theorem hexEncode_eq_empty {b : Bytes} : hexEncode b = "" ↔ b = [] := by
  cases b <;> simp [hexEncode]

theorem hexDigit_inj {m n : Nat} (hm : m < 16) (hn : n < 16) (h : hexDigit m = hexDigit n) : m = n := by
  have hall : ∀ m < 16, ∀ n < 16, hexDigit m = hexDigit n → m = n := by decide
  exact hall m hm n hn h

theorem hexEncode_injective : Function.Injective hexEncode := by
  intro b c h
  have hchars := String.ofList_injective h
  clear h
  induction b generalizing c with
  | nil =>
      cases c with
      | nil => rfl
      | cons y c => simp at hchars
  | cons x b ih =>
      cases c with
      | nil => simp at hchars
      | cons y c =>
          simp only [List.flatMap_cons, List.cons_append, List.nil_append, List.cons.injEq] at hchars
          obtain ⟨hhigh, hlow, hrest⟩ := hchars
          have hx := x.toNat_lt
          have hy := y.toNat_lt
          have hhigh := hexDigit_inj (by omega) (by omega) hhigh
          have hlow := hexDigit_inj (by omega) (by omega) hlow
          have hbyte : x.toNat = y.toNat := by omega
          rw [UInt8.toNat_inj.1 hbyte, ih hrest]

/-- The first text of the list that is not empty. -/
def firstNonEmpty : List String → String
  | [] => ""
  | s :: ss => if s ≠ "" then s else firstNonEmpty ss

/-! ## Errors -/

structure Err where
  msg : String
  /-- `errors.Is(err, source.ErrUnchanged)` -/
  unchanged : Bool
  /-- `errors.Is(err, ErrEgressBlocked)` -/
  egressBlocked : Bool
deriving DecidableEq

namespace Err

/-- A plain `errors.New` or `fmt.Errorf` without `%w`. -/
def failure (msg : String) : Err := ⟨msg, false, false⟩

def errUnchanged : Err := ⟨"source: unchanged since last fetch", true, false⟩

def errEgressBlocked (detail : String) : Err := ⟨"ingest: egress blocked: " ++ detail, false, true⟩

/-- `fmt.Errorf(before + "%w" + after, err)` -/
def wrap (before : String) (err : Err) (after : String) : Err :=
  { err with msg := before ++ err.msg ++ after }

/-- A result whose error is a plain text. -/
def lift {α : Type} : Except String α → Except Err α
  | .ok a => .ok a
  | .error e => .error (failure e)

@[simp] theorem lift_eq_ok {α : Type} {r : Except String α} {a : α} : lift r = .ok a ↔ r = .ok a := by
  cases r <;> simp [lift]

end Err

end TrustAnchor
