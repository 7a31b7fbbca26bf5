/-
# Reading text files

The operations that line-oriented parsers perform: lines, trimming, the last
separator, decimal numbers with the reason of a refusal. A string is also text: its
bytes are well-formed.
-/

import Dial9.Lib.Strings
import Dial9.Lib.Utf8
import Mathlib.Data.List.DropRight
import Mathlib.Tactic.IntervalCases

namespace Dial9.Lib

namespace Str

/-! ## Lines and ends -/

/-- The characters with the property `White_Space`. -/
def isWhitespace (c : Char) : Bool :=
  let n := c.toNat
  (0x09 ≤ n && n ≤ 0x0D) || n = 0x20 || n = 0x85 || n = 0xA0 || n = 0x1680 ||
    (0x2000 ≤ n && n ≤ 0x200A) || n = 0x2028 || n = 0x2029 || n = 0x202F || n = 0x205F || n = 0x3000

def trim (s : Str) : Str := (s.dropWhile isWhitespace).rdropWhile isWhitespace

/-- Lines end in a line feed, or in a carriage return and one; the last may have no end. -/
def lines (s : Str) : List Str :=
  let pieces := s.splitOn '\n'
  pieces.dropLast.map (fun line => (stripSuffix ['\r'] line).getD line) ++
    pieces.getLast?.toList.filter (· ≠ [])

/-- The text before and after the last separator. -/
def rsplitOnce (sep : Char) (s : Str) : Option (Str × Str) :=
  (splitOnce sep s.reverse).map fun halves => (halves.2.reverse, halves.1.reverse)

def contains (word s : Str) : Bool := (splitOnceWord word s).isSome

/-! ## Numbers -/

/-- `IntErrorKind`, of the kinds that unsigned integers have. -/
inductive ParseIntError where
  /-- "cannot parse integer from empty string" -/
  | empty
  /-- "invalid digit found in string" -/
  | invalidDigit
  /-- "number too large to fit in target type" -/
  | posOverflow
  deriving DecidableEq

/-- Decimal digits after those that make up a number already. -/
def parseDigits (max : Nat) : Nat → Str → Except ParseIntError Nat
  | n, [] => .ok n
  | n, c :: cs =>
    if c.isDigit then
      if max < n * 10 + (c.toNat - '0'.toNat) then .error .posOverflow
      else parseDigits max (n * 10 + (c.toNat - '0'.toNat)) cs
    else .error .invalidDigit

/-- `str::parse` for an unsigned type. -/
def parseInt (max : Nat) : Str → Except ParseIntError Nat
  | [] => .error .empty
  | ['+'] | ['-'] => .error .invalidDigit
  | '+' :: digits => parseDigits max 0 digits
  | digits => parseDigits max 0 digits

end Str

/-! ## Strings as text -/

variable {n : Nat}

namespace Utf8

theorem contains_ofNat {low high : UInt8} (hlow : low.toNat ≤ n) (hhigh : n ≤ high.toNat) :
    Range.contains ⟨low, high⟩ (UInt8.ofNat n) = true := by
  have hn : (UInt8.ofNat n).toNat = n := by
    have := high.toNat_lt
    rw [UInt8.toNat_ofNat']
    omega
  simp only [Range.contains, Bool.and_eq_true, decide_eq_true_eq, UInt8.le_iff_toNat_le, hn]
  exact ⟨hlow, hhigh⟩

theorem contains_continuation (n : Nat) :
    continuation.contains (UInt8.ofNat (n % 64 + 128)) = true :=
  contains_ofNat (Nat.le_add_left 128 _) (by show n % 64 + 128 ≤ 191; omega)

theorem validFrom_lead {expected : List Range} {b : UInt8} {bs : Bytes}
    (h : lead b = some expected) : validFrom [] (b :: bs) = validFrom expected bs := by
  rw [validFrom, h]

theorem validFrom_cons {r : Range} {expected : List Range} {b : UInt8} {bs : Bytes}
    (h : r.contains b = true) : validFrom (r :: expected) (b :: bs) = validFrom expected bs := by
  rw [validFrom, if_pos h]

theorem lead_one (hhigh : n ≤ 0x7F) : lead (UInt8.ofNat n) = some [] := by
  interval_cases n <;> rfl

theorem lead_two (hlow : 0xC2 ≤ n) (hhigh : n ≤ 0xDF) :
    lead (UInt8.ofNat n) = some [continuation] := by
  interval_cases n <;> rfl

theorem lead_three (hlow : 0xE0 ≤ n) (hhigh : n ≤ 0xEF) :
    lead (UInt8.ofNat n) =
      some [⟨if n = 0xE0 then 0xA0 else 0x80, if n = 0xED then 0x9F else 0xBF⟩, continuation] := by
  interval_cases n <;> rfl

theorem lead_four (hlow : 0xF0 ≤ n) (hhigh : n ≤ 0xF4) :
    lead (UInt8.ofNat n) =
      some [⟨if n = 0xF0 then 0x90 else 0x80, if n = 0xF4 then 0x8F else 0xBF⟩, continuation,
        continuation] := by
  interval_cases n <;> rfl

theorem validFrom_encodeChar (c : Char) (bs : Bytes) :
    validFrom [] (String.utf8EncodeChar c ++ bs) = validFrom [] bs := by
  have hscalar : c.val.toNat < 0xd800 ∨ (0xdfff < c.val.toNat ∧ c.val.toNat < 0x110000) := c.valid
  unfold String.utf8EncodeChar
  generalize c.val.toNat = v at hscalar
  dsimp only
  by_cases h1 : v ≤ 0x7f
  · rw [if_pos h1]
    exact validFrom_lead (lead_one h1)
  rw [if_neg h1]
  by_cases h2 : v ≤ 0x7ff
  · rw [if_pos h2]
    show validFrom [] (_ :: _ :: bs) = _
    rw [validFrom_lead (lead_two (by omega) (by omega)), validFrom_cons (contains_continuation _)]
  rw [if_neg h2]
  by_cases h3 : v ≤ 0xffff
  · rw [if_pos h3]
    show validFrom [] (_ :: _ :: _ :: bs) = _
    rw [validFrom_lead (lead_three (by omega) (by omega)), validFrom_cons,
      validFrom_cons (contains_continuation _)]
    apply contains_ofNat
    · split
      · show 0xA0 ≤ _
        omega
      · exact Nat.le_add_left _ _
    · split
      · show _ ≤ 0x9F
        omega
      · show _ ≤ 0xBF
        omega
  · rw [if_neg h3]
    show validFrom [] (_ :: _ :: _ :: _ :: bs) = _
    rw [validFrom_lead (lead_four (by omega) (by omega)), validFrom_cons,
      validFrom_cons (contains_continuation _), validFrom_cons (contains_continuation _)]
    apply contains_ofNat
    · split
      · show 0x90 ≤ _
        omega
      · exact Nat.le_add_left _ _
    · split
      · show _ ≤ 0x8F
        omega
      · show _ ≤ 0xBF
        omega

end Utf8

theorem Str.isUtf8_asBytes (s : Str) : isUtf8 (Str.asBytes s) = true := by
  induction s with
  | nil => rfl
  | cons c s ih =>
    rw [isUtf8, Str.asBytes_cons, Utf8.validFrom_encodeChar]
    exact ih

/-- A string's bytes with the evidence that they are UTF-8. -/
def Str.toText (s : Str) : Text := ⟨Str.asBytes s, Str.isUtf8_asBytes s⟩

end Dial9.Lib
