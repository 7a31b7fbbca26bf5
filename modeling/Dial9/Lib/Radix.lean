/-
# Numerals of a fixed width

A number written with the same count of digits each time, in a positional
notation whose digits rise with their values: the numeral reads back as the
number, and numerals are ordered as texts the way the numbers are. Numbers
printed in base sixteen and filled up with zeros are such numerals.
-/

import Dial9.Lib.Strings
import Mathlib.Tactic.IntervalCases

namespace Dial9.Lib

/-! ## The order of texts -/

/-- Texts are compared like their bytes, which for UTF-8 is by the numbers of their
characters. -/
def Str.before : Str → Str → Bool
  | _, [] => false
  | [], _ :: _ => true
  | c :: s, d :: t => c.toNat < d.toNat || (c = d && before s t)

variable {s t : Str} {n width m : Nat}

theorem Str.before_cons {c d : Char} :
    Str.before (c :: s) (d :: t) = true ↔
      c.toNat < d.toNat ∨ (c = d ∧ Str.before s t = true) := by
  rw [Str.before, Bool.or_eq_true, decide_eq_true_eq, Bool.and_eq_true, decide_eq_true_eq]

theorem Str.before_asymm (h : Str.before s t = true) : Str.before t s = false := by
  induction s generalizing t with
  | nil => cases t <;> rfl
  | cons c s ih =>
    cases t with
    | nil => cases h
    | cons d t =>
      rw [← Bool.not_eq_true, Str.before_cons]
      rintro (hlt | ⟨rfl, hrest⟩)
      · rcases Str.before_cons.mp h with hgt | ⟨rfl, -⟩
        · exact absurd hlt hgt.not_gt
        · exact absurd hlt (Nat.lt_irrefl _)
      · rcases Str.before_cons.mp h with hgt | ⟨-, hrest'⟩
        · exact absurd hgt (Nat.lt_irrefl _)
        · rw [ih hrest'] at hrest
          cases hrest

theorem Str.before_append_left (front : Str) :
    Str.before (front ++ s) (front ++ t) = Str.before s t := by
  induction front with
  | nil => rfl
  | cons c front ih => simp [Str.before, ih]

/-! ## Numerals -/

/-- The digits of a base. A reader may take more characters for a digit than are written. -/
structure Digits where
  base : Nat
  char : Nat → Char
  value : Char → Option Nat
  one_lt : 1 < base
  value_char : ∀ d < base, value (char d) = some d
  char_lt : ∀ d e, d < e → e < base → (char d).toNat < (char e).toNat

namespace Digits

variable (digits : Digits)

/-- The number with as many digits as the width says, the most significant first. -/
def numeral : Nat → Nat → Str
  | 0, _ => []
  | width + 1, n => digits.char (n / digits.base ^ width) :: numeral width (n % digits.base ^ width)

/-- The value of a text of digits that follow on those read already. -/
def readFrom : Nat → Str → Option Nat
  | n, [] => some n
  | n, c :: cs => (digits.value c).bind fun d => readFrom (n * digits.base + d) cs

def read (s : Str) : Option Nat := digits.readFrom 0 s

theorem pow_pos (width : Nat) : 0 < digits.base ^ width :=
  Nat.pow_pos (Nat.zero_lt_of_lt digits.one_lt)

theorem lead_lt (h : n < digits.base ^ (width + 1)) : n / digits.base ^ width < digits.base :=
  Nat.div_lt_of_lt_mul (by rwa [← Nat.pow_succ])

theorem rest_lt (width n : Nat) : n % digits.base ^ width < digits.base ^ width :=
  Nat.mod_lt _ (digits.pow_pos width)

@[simp]
theorem length_numeral (width n : Nat) : (digits.numeral width n).length = width := by
  induction width generalizing n with
  | zero => rfl
  | succ width ih => rw [numeral, List.length_cons, ih]

section

variable (h : n < digits.base ^ width)
include h

theorem mem_numeral {c : Char} (hc : c ∈ digits.numeral width n) :
    ∃ d < digits.base, c = digits.char d := by
  induction width generalizing n with
  | zero => cases hc
  | succ width ih =>
    rcases List.mem_cons.mp hc with rfl | hrest
    · exact ⟨_, digits.lead_lt h, rfl⟩
    · exact ih (digits.rest_lt width n) hrest

theorem readFrom_numeral (read : Nat) :
    digits.readFrom read (digits.numeral width n) = some (read * digits.base ^ width + n) := by
  induction width generalizing n read with
  | zero =>
    rw [Nat.pow_zero, Nat.lt_one_iff] at h
    rw [numeral, readFrom, h, Nat.pow_zero, Nat.mul_one, Nat.add_zero]
  | succ width ih =>
    rw [numeral, readFrom, digits.value_char _ (digits.lead_lt h), Option.bind_some,
      ih (digits.rest_lt width n)]
    congr 1
    calc (read * digits.base + n / digits.base ^ width) * digits.base ^ width +
          n % digits.base ^ width
        = read * (digits.base ^ width * digits.base) +
            (digits.base ^ width * (n / digits.base ^ width) + n % digits.base ^ width) := by
          ring
      _ = read * digits.base ^ (width + 1) + n := by rw [Nat.div_add_mod, Nat.pow_succ]

theorem read_numeral : digits.read (digits.numeral width n) = some n := by
  rw [read, digits.readFrom_numeral h, Nat.zero_mul, Nat.zero_add]

end

theorem numeral_inj (hm : m < digits.base ^ width) (hn : n < digits.base ^ width)
    (h : digits.numeral width m = digits.numeral width n) : m = n := by
  have hread := digits.read_numeral hm
  rw [h, digits.read_numeral hn] at hread
  exact (Option.some.inj hread).symm

theorem before_numeral_append (hn : n < digits.base ^ width) (h : m < n) :
    Str.before (digits.numeral width m ++ s) (digits.numeral width n ++ t) = true := by
  induction width generalizing m n with
  | zero =>
    rw [Nat.pow_zero, Nat.lt_one_iff] at hn
    omega
  | succ width ih =>
    rw [numeral, numeral, List.cons_append, List.cons_append, Str.before_cons]
    rcases (Nat.div_le_div_right (c := digits.base ^ width) h.le).lt_or_eq with hlead | hlead
    · exact .inl (digits.char_lt _ _ hlead (digits.lead_lt hn))
    · refine .inr ⟨congrArg digits.char hlead, ih (digits.rest_lt width n) ?_⟩
      have hm' := Nat.div_add_mod m (digits.base ^ width)
      have hn' := Nat.div_add_mod n (digits.base ^ width)
      rw [hlead] at hm'
      omega

/-- Texts that start with numerals are ordered by the numbers first. -/
theorem le_of_before_append (hm : m < digits.base ^ width)
    (h : Str.before (digits.numeral width m ++ s) (digits.numeral width n ++ t) = true) :
    m ≤ n := by
  by_contra hlt
  have hbefore := digits.before_numeral_append hm (Nat.lt_of_not_le hlt) (s := t) (t := s)
  rw [Str.before_asymm h] at hbefore
  cases hbefore

theorem numeral_succ (h : n < digits.base ^ (width + 1)) :
    digits.numeral (width + 1) n =
      digits.numeral width (n / digits.base) ++ [digits.char (n % digits.base)] := by
  induction width generalizing n with
  | zero =>
    rw [Nat.zero_add, Nat.pow_one] at h
    simp [numeral, Nat.mod_eq_of_lt h]
  | succ width ih =>
    have hlead : n / digits.base / digits.base ^ width = n / digits.base ^ (width + 1) := by
      rw [Nat.div_div_eq_div_mul, Nat.pow_succ']
    have hrest : n / digits.base % digits.base ^ width =
        n % digits.base ^ (width + 1) / digits.base := by
      rw [Nat.pow_succ', Nat.mod_mul_right_div_self]
    have hone : n % digits.base ^ (width + 1) % digits.base = n % digits.base :=
      Nat.mod_mod_of_dvd _ (Dvd.intro_left _ rfl)
    rw [numeral, ih (digits.rest_lt (width + 1) n), numeral, hlead, hrest, hone,
      List.cons_append]

end Digits

/-! ## Base sixteen -/

/-- The value of a digit in base sixteen, in either case. -/
def hexValue (c : Char) : Option Nat :=
  if c.isDigit then some (c.toNat - '0'.toNat)
  else if 'a'.toNat ≤ c.toNat ∧ c.toNat ≤ 'f'.toNat then some (c.toNat - 'a'.toNat + 10)
  else if 'A'.toNat ≤ c.toNat ∧ c.toNat ≤ 'F'.toNat then some (c.toNat - 'A'.toNat + 10)
  else none

def hex : Digits where
  base := 16
  char := Nat.digitChar
  value := hexValue
  one_lt := by decide
  value_char := by
    intro d hd
    interval_cases d <;> rfl
  char_lt := by
    intro d e hde he
    interval_cases e <;> interval_cases d <;> decide

/-- `{:0width$x}`: the digits of a number, with zeros in front up to a width. -/
def Str.formatHex (width n : Nat) : Str := (Nat.toDigits 16 n).leftpad width '0'

theorem hex_numeral_zero (width : Nat) : hex.numeral width 0 = List.replicate width '0' := by
  induction width with
  | zero => rfl
  | succ width ih =>
    rw [Digits.numeral, Nat.zero_div, Nat.zero_mod, ih]
    rfl

theorem leftpad_append_singleton {α : Type} (width : Nat) (a c : α) (l : List α) :
    (l ++ [c]).leftpad (width + 1) a = l.leftpad width a ++ [c] := by
  rw [List.leftpad, List.leftpad, List.length_append, List.length_singleton,
    Nat.add_sub_add_right, List.append_assoc]

theorem Str.formatHex_eq {width n : Nat} (hwidth : 0 < width) (h : n < 16 ^ width) :
    Str.formatHex width n = hex.numeral width n := by
  induction width generalizing n with
  | zero => omega
  | succ width ih =>
    rw [hex.numeral_succ h, Str.formatHex]
    by_cases hone : n < 16
    · have hzero : n / hex.base = 0 := Nat.div_eq_of_lt hone
      have hdigit : n % hex.base = n := Nat.mod_eq_of_lt hone
      rw [Nat.toDigits_of_lt_base hone, hzero, hex_numeral_zero, hdigit]
      rfl
    · have hquotient : n / 16 < 16 ^ width :=
        Nat.div_lt_of_lt_mul (by rwa [← Nat.pow_succ'])
      have hpos : 0 < width := by
        by_contra hzero
        rw [Nat.eq_zero_of_not_pos hzero] at h
        exact hone h
      rw [Nat.toDigits_of_base_le (by decide) (Nat.le_of_not_lt hone),
        leftpad_append_singleton]
      exact congrArg (· ++ [Nat.digitChar (n % 16)]) (ih hpos hquotient)

theorem hex_numeral_inj (hm : m < 16 ^ width) (hn : n < 16 ^ width)
    (h : hex.numeral width m = hex.numeral width n) : m = n :=
  hex.numeral_inj hm hn h

/-- One sign may stand in front of an unsigned number. -/
def Str.stripPlus : Str → Str
  | '+' :: rest => rest
  | s => s

theorem Str.stripPlus_of_ne {c : Char} (h : c ≠ '+') : Str.stripPlus (c :: s) = c :: s := by
  unfold Str.stripPlus
  split
  · next heq => exact absurd (List.cons.inj heq).1 h
  · rfl

/-- `from_str_radix` in base sixteen, for an unsigned integer of `bits` bits. -/
def Str.fromHex (bits : Nat) (s : Str) : Option Nat :=
  if s.stripPlus = [] then none else (hex.read s.stripPlus).filter (· < 2 ^ bits)

theorem Str.fromHex_lt {bits n : Nat} (h : Str.fromHex bits s = some n) : n < 2 ^ bits := by
  unfold Str.fromHex at h
  exact of_decide_eq_true (Option.filter_eq_some_iff.mp (Option.ite_none_left_eq_some.mp h).2).2

/-- The marks that keys are built with are no digits. -/
theorem not_mem_hex_numeral (h : n < 16 ^ width) {c : Char} (hc : c ∈ ['+', '.', '/', '=']) :
    c ∉ hex.numeral width n := by
  intro hmem
  obtain ⟨d, hd, rfl⟩ := hex.mem_numeral h hmem
  have hlt : d < 16 := hd
  revert hc
  simp only [hex]
  interval_cases d <;> decide

theorem Str.fromHex_numeral {bits width n : Nat} (hwidth : 0 < width) (h : n < 16 ^ width)
    (hbits : n < 2 ^ bits) : Str.fromHex bits (hex.numeral width n) = some n := by
  have hread := hex.read_numeral h
  have hplus := not_mem_hex_numeral h (c := '+') (by decide)
  cases width with
  | zero => omega
  | succ width =>
    rw [Digits.numeral] at hread hplus ⊢
    have hlead := fun heq => hplus (List.mem_cons.mpr (.inl heq))
    rw [Str.fromHex, Str.stripPlus_of_ne (Ne.symm hlead), if_neg (List.cons_ne_nil _ _), hread]
    exact Option.filter_eq_some_iff.mpr ⟨rfl, decide_eq_true hbits⟩

end Dial9.Lib
