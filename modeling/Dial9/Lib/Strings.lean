/-
# Strings

A string is the list of its Unicode scalar values, and its bytes are their
UTF-8 encodings in order. The module has the operations programs perform on
path-like text: splitting at a separator, prefixes, decimal numbers. Its two
main results say that a separator-delimited word occurs in a text exactly when
it is one of the inner pieces, and that printing a number and parsing it agree.
-/

import Mathlib.Data.List.Infix
import Mathlib.Tactic.Ring

namespace Dial9.Lib

abbrev Str := List Char

variable {c : Char} {s : Str} {n bits : Nat}

namespace Str

/-! ## Bytes -/

def asBytes (s : Str) : List UInt8 := s.flatMap String.utf8EncodeChar

/-- Checked conversion of bytes. -/
def fromUtf8 (bytes : List UInt8) : Option Str :=
  (String.fromUTF8? bytes.toByteArray).map String.toList

@[simp]
theorem asBytes_append (s t : Str) : asBytes (s ++ t) = asBytes s ++ asBytes t :=
  List.flatMap_append

theorem asBytes_cons (c : Char) (s : Str) :
    asBytes (c :: s) = String.utf8EncodeChar c ++ asBytes s := rfl

@[simp]
theorem fromUtf8_asBytes (s : Str) : fromUtf8 (asBytes s) = some s := by
  have hbytes : (asBytes s).toByteArray = (String.ofList s).toByteArray :=
    String.toByteArray_ofList.symm
  have hvalid : (String.ofList s).toByteArray.IsValidUTF8 := (String.ofList s).isValidUTF8
  unfold fromUtf8 String.fromUTF8?
  rw [hbytes, dif_pos hvalid]
  show some (String.ofList s).toList = some s
  rw [String.toList_ofList]

theorem utf8EncodeChar_of_lt (hc : c.toNat < 128) :
    String.utf8EncodeChar c = [UInt8.ofNat c.toNat] := by
  have hle : c.val.toNat ≤ 0x7f := Nat.le_of_lt_succ hc
  unfold String.utf8EncodeChar
  rw [if_pos hle]
  rfl

theorem le_of_mem_utf8EncodeChar {b : UInt8} (hc : 128 ≤ c.toNat)
    (hb : b ∈ String.utf8EncodeChar c) : 128 ≤ b.toNat := by
  have hgt : ¬ c.val.toNat ≤ 0x7f := by
    show ¬ c.toNat ≤ 127
    omega
  unfold String.utf8EncodeChar at hb
  rw [if_neg hgt] at hb
  split at hb
  · simp only [List.mem_cons, List.not_mem_nil, or_false] at hb
    rcases hb with rfl | rfl <;> simp only [UInt8.toNat_ofNat'] <;> omega
  · split at hb
    · simp only [List.mem_cons, List.not_mem_nil, or_false] at hb
      rcases hb with rfl | rfl | rfl <;> simp only [UInt8.toNat_ofNat'] <;> omega
    · simp only [List.mem_cons, List.not_mem_nil, or_false] at hb
      rcases hb with rfl | rfl | rfl | rfl <;> simp only [UInt8.toNat_ofNat'] <;> omega

theorem asBytes_of_ascii (h : ∀ c ∈ s, c.toNat < 128) :
    asBytes s = s.map fun c => UInt8.ofNat c.toNat := by
  induction s with
  | nil => rfl
  | cons c s ih =>
    rw [asBytes_cons, utf8EncodeChar_of_lt (h c (by simp)), ih fun d hd => h d (by simp [hd])]
    rfl

/-! ## Pieces between separators -/

variable {sep : Char}

/-- The text before and after the first separator. -/
def splitOnce (sep : Char) : Str → Option (Str × Str)
  | [] => none
  | c :: cs =>
    if c = sep then some ([], cs)
    else (splitOnce sep cs).map fun halves => (c :: halves.1, halves.2)

theorem splitOnce_append (s t : Str) (hs : sep ∉ s) :
    splitOnce sep (s ++ sep :: t) = some (s, t) := by
  induction s with
  | nil => simp [splitOnce]
  | cons c s ih =>
    have hc : c ≠ sep := fun h => hs (by simp [h])
    have hrest : sep ∉ s := fun h => hs (by simp [h])
    simp [splitOnce, hc, ih hrest]

theorem splitOnce_eq_none (s : Str) (hs : sep ∉ s) : splitOnce sep s = none := by
  induction s with
  | nil => rfl
  | cons c s ih =>
    have hc : c ≠ sep := fun h => hs (by simp [h])
    have hrest : sep ∉ s := fun h => hs (by simp [h])
    simp [splitOnce, hc, ih hrest]

/-! ## Fixed texts at either end, and in between -/

def stripPrefix : (pre s : Str) → Option Str
  | [], s => some s
  | _ :: _, [] => none
  | c :: pre, d :: s => if c = d then stripPrefix pre s else none

theorem stripPrefix_eq_some {pre s rest : Str} :
    stripPrefix pre s = some rest ↔ s = pre ++ rest := by
  induction pre generalizing s with
  | nil =>
    rw [stripPrefix, List.nil_append]
    exact Option.some_inj
  | cons c pre ih =>
    cases s with
    | nil => simp [stripPrefix]
    | cons d s =>
      rw [stripPrefix]
      by_cases hc : c = d
      · subst hc
        rw [if_pos rfl, ih, List.cons_append, List.cons_inj_right]
      · rw [if_neg hc]
        simp [Ne.symm hc]

def stripSuffix (suffix s : Str) : Option Str :=
  (stripPrefix suffix.reverse s.reverse).map List.reverse

theorem stripSuffix_eq_some {suffix s rest : Str} :
    stripSuffix suffix s = some rest ↔ s = rest ++ suffix := by
  rw [stripSuffix, Option.map_eq_some_iff]
  constructor
  · rintro ⟨reversed, hstrip, rfl⟩
    rw [← List.reverse_inj, stripPrefix_eq_some.mp hstrip, List.reverse_append,
      List.reverse_reverse]
  · rintro rfl
    exact ⟨rest.reverse, stripPrefix_eq_some.mpr List.reverse_append, List.reverse_reverse rest⟩

/-- The text before and after the first occurrence of a word. -/
def splitOnceWord (word : Str) : Str → Option (Str × Str)
  | [] => if word = [] then some ([], []) else none
  | c :: cs =>
    match stripPrefix word (c :: cs) with
    | some rest => some ([], rest)
    | none => (splitOnceWord word cs).map fun halves => (c :: halves.1, halves.2)

theorem splitOnceWord_eq_some {word s : Str} {halves : Str × Str}
    (h : splitOnceWord word s = some halves) : s = halves.1 ++ (word ++ halves.2) := by
  induction s generalizing halves with
  | nil =>
    rw [splitOnceWord] at h
    split_ifs at h with hword
    cases h
    rw [hword]
    rfl
  | cons c s ih =>
    rw [splitOnceWord] at h
    cases hstrip : stripPrefix word (c :: s) with
    | some rest =>
      have hsplit := stripPrefix_eq_some.mp hstrip
      rw [hstrip] at h
      cases h
      exact hsplit
    | none =>
      rw [hstrip] at h
      rcases Option.map_eq_some_iff.mp h with ⟨rest, hrest, rfl⟩
      rw [List.cons_append, ← ih hrest]

theorem splitOnceWord_append {word s t : Str} (hs : c ∉ s) :
    splitOnceWord (c :: word) (s ++ (c :: word ++ t)) = some (s, t) := by
  induction s with
  | nil =>
    rw [List.nil_append, List.cons_append, splitOnceWord, stripPrefix_eq_some.mpr List.cons_append]
  | cons d s ih =>
    have hne : c ≠ d := fun h => hs (h ▸ List.mem_cons_self)
    have hrest : c ∉ s := fun h => hs (List.mem_cons_of_mem d h)
    rw [List.cons_append, splitOnceWord, stripPrefix, if_neg hne, ih hrest]
    rfl

theorem splitOn_append_sep (s t : Str) :
    (s ++ sep :: t).splitOn sep = s.splitOn sep ++ t.splitOn sep :=
  List.splitOn_append_cons_self s t

theorem notMem_of_mem_splitOn {s piece : Str} (h : piece ∈ s.splitOn sep) : sep ∉ piece := by
  by_cases hs : sep ∈ s
  · rcases List.eq_append_cons_of_mem hs with ⟨front, back, rfl, hfront⟩
    rw [splitOn_append_sep, List.splitOn_eq_singleton hfront] at h
    rcases List.mem_append.mp h with hhead | htail
    · rwa [List.mem_singleton.mp hhead]
    · exact notMem_of_mem_splitOn htail
  · rw [List.splitOn_eq_singleton hs, List.mem_singleton] at h
    exact h ▸ hs
termination_by s.length
decreasing_by
  simp_all
  omega

theorem intercalate_cons_of_ne_nil (s : Str) {pieces : List Str} (h : pieces ≠ []) :
    [sep].intercalate (s :: pieces) = s ++ sep :: [sep].intercalate pieces := by
  cases pieces with
  | nil => exact absurd rfl h
  | cons t pieces => simp [List.intercalate]

theorem intercalate_append {front back : List Str} (hfront : front ≠ []) (hback : back ≠ []) :
    [sep].intercalate (front ++ back) =
      [sep].intercalate front ++ sep :: [sep].intercalate back := by
  induction front with
  | nil => exact absurd rfl hfront
  | cons s front ih =>
    cases front with
    | nil => simpa [List.intercalate] using intercalate_cons_of_ne_nil s hback
    | cons t front =>
      rw [List.cons_append, intercalate_cons_of_ne_nil s (by simp), ih (by simp),
        intercalate_cons_of_ne_nil s (by simp), List.append_assoc, List.cons_append]

/-- The pieces of a text that have a separator on both sides. -/
def inner (sep : Char) (s : Str) : List Str := (s.splitOn sep).tail.dropLast

theorem delimited_infix_iff {word : Str} (hword : sep ∉ word) (s : Str) :
    sep :: word ++ [sep] <:+: s ↔ word ∈ inner sep s := by
  constructor
  · rintro ⟨front, back, rfl⟩
    have hsplit : (front ++ (sep :: word ++ [sep]) ++ back).splitOn sep =
        front.splitOn sep ++ word :: back.splitOn sep := by
      have hassoc : front ++ (sep :: word ++ [sep]) ++ back =
          front ++ sep :: (word ++ sep :: back) := by simp
      rw [hassoc, splitOn_append_sep, splitOn_append_sep, List.splitOn_eq_singleton hword,
        List.singleton_append]
    unfold inner
    rw [hsplit, List.tail_append_of_ne_nil (by simp), List.dropLast_append_of_ne_nil (by simp),
      List.dropLast_cons_of_ne_nil (by simp)]
    simp
  · intro hmem
    rcases List.append_of_mem hmem with ⟨front, back, hinner⟩
    have hne : (s.splitOn sep).tail ≠ [] := by
      intro hnil
      simp [inner, hnil] at hmem
    have hpieces : s.splitOn sep =
        ((s.splitOn sep).head (by simp) :: front) ++
          word :: (back ++ [(s.splitOn sep).tail.getLast hne]) := by
      have htail : (s.splitOn sep).tail =
          front ++ word :: (back ++ [(s.splitOn sep).tail.getLast hne]) := by
        rw [← List.cons_append, ← List.append_assoc, ← hinner]
        exact (List.dropLast_append_getLast hne).symm
      rw [List.cons_append, ← htail, List.cons_head_tail]
    have hs := (@List.intercalate_splitOn _ s _ _ sep).symm
    rw [hpieces, intercalate_append (by simp) (by simp),
      intercalate_cons_of_ne_nil word (by simp)] at hs
    rw [hs]
    exact ⟨[sep].intercalate ((s.splitOn sep).head (by simp) :: front),
      [sep].intercalate (back ++ [(s.splitOn sep).tail.getLast hne]), by simp⟩

/-! ## Decimal numbers -/

/-- The value of a nonempty string of digits. -/
def digits? (s : Str) : Option Nat :=
  if s ≠ [] ∧ s.all Char.isDigit then some (Nat.ofDigitChars 10 s 0) else none

/-- Parsing as an unsigned integer of `bits` bits: one sign `+` may stand in
front, and a value that does not fit is refused. -/
def parseUnsigned (bits : Nat) (s : Str) : Option Nat :=
  let digits := match s with
    | '+' :: rest => rest
    | _ => s
  (digits? digits).filter (· < 2 ^ bits)

/-- Parsing as a two's complement integer of `bits` bits. -/
def parseSigned (bits : Nat) (s : Str) : Option Int :=
  match s with
  | '-' :: rest => ((digits? rest).filter (· ≤ 2 ^ (bits - 1))).map fun n => -(n : Int)
  | '+' :: rest => ((digits? rest).filter (· < 2 ^ (bits - 1))).map Int.ofNat
  | _ => ((digits? s).filter (· < 2 ^ (bits - 1))).map Int.ofNat

def display (n : Nat) : Str := Nat.toDigits 10 n

/-- A number with zeros in front, up to a width. -/
def zeroPad (width n : Nat) : Str := (display n).leftpad width '0'

theorem isDigit_of_mem_display (hc : c ∈ display n) : c.isDigit = true :=
  Nat.isDigit_of_mem_toDigits (by decide) (by decide) hc

theorem isDigit_of_mem_zeroPad {width n : Nat} (hc : c ∈ zeroPad width n) : c.isDigit = true := by
  rcases List.mem_append.mp hc with hzero | hdigit
  · rw [List.eq_of_mem_replicate hzero]
    decide
  · exact isDigit_of_mem_display hdigit

theorem length_zeroPad {width n : Nat} (hwidth : 0 < width) (hn : n < 10 ^ width) :
    (zeroPad width n).length = width := by
  have hlength : (display n).length ≤ width :=
    (Nat.length_toDigits_le_iff (by decide) hwidth).mpr hn
  unfold zeroPad
  rw [List.length_leftpad]
  omega

theorem digits?_display (n : Nat) : digits? (display n) = some n := by
  have hall : (display n).all Char.isDigit = true :=
    List.all_eq_true.mpr fun c hc => isDigit_of_mem_display hc
  unfold digits?
  rw [if_pos ⟨Nat.toDigits_ne_nil, hall⟩]
  exact congrArg some Nat.ofDigitChars_ten_toDigits

theorem isDigit_of_digits? (h : digits? s = some n) (hc : c ∈ s) : c.isDigit = true := by
  rw [digits?] at h
  split_ifs at h with hdigits
  exact List.all_eq_true.mp hdigits.2 c hc

theorem not_mem_of_parseUnsigned (h : parseUnsigned bits s = some n) (hsign : c ≠ '+')
    (hc : c.isDigit = false) : c ∉ s := by
  intro hmem
  unfold parseUnsigned at h
  have hdigits := (Option.filter_eq_some_iff.mp h).1
  split at hdigits
  · rcases List.mem_cons.mp hmem with hplus | hrest
    · exact hsign hplus
    · exact Bool.false_ne_true (hc.symm.trans (isDigit_of_digits? hdigits hrest))
  · exact Bool.false_ne_true (hc.symm.trans (isDigit_of_digits? hdigits hmem))

theorem parseUnsigned_lt (h : parseUnsigned bits s = some n) : n < 2 ^ bits :=
  of_decide_eq_true (Option.filter_eq_some_iff.mp h).2

theorem not_mem_display (hc : c.isDigit = false) : c ∉ display n := by
  intro hmem
  rw [isDigit_of_mem_display hmem] at hc
  exact Bool.noConfusion hc

theorem ne_sign_of_digits? {cs : Str} (h : digits? (c :: cs) = some n) : c ≠ '+' ∧ c ≠ '-' := by
  have hc : c.isDigit = true := isDigit_of_digits? h List.mem_cons_self
  constructor
  · rintro rfl
    exact absurd hc (by decide)
  · rintro rfl
    exact absurd hc (by decide)

theorem display_cons {cs : Str} (h : display n = c :: cs) : c ≠ '+' ∧ c ≠ '-' := by
  have hdigits := digits?_display n
  rw [h] at hdigits
  exact ne_sign_of_digits? hdigits

theorem parseUnsigned_of_digits? (h : digits? s = some n) (hn : n < 2 ^ bits) :
    parseUnsigned bits s = some n := by
  unfold parseUnsigned
  split
  · exact absurd rfl (ne_sign_of_digits? h).1
  · simp [h, hn]

theorem parseSigned_of_digits? (h : digits? s = some n) (hn : n < 2 ^ (bits - 1)) :
    parseSigned bits s = some (n : Int) := by
  unfold parseSigned
  split
  · exact absurd rfl (ne_sign_of_digits? h).2
  · exact absurd rfl (ne_sign_of_digits? h).1
  · simp [h, hn]

theorem parseUnsigned_display (hn : n < 2 ^ bits) : parseUnsigned bits (display n) = some n :=
  parseUnsigned_of_digits? (digits?_display n) hn

theorem display_injective : Function.Injective display := by
  intro m n h
  have hdigits := congrArg digits? h
  rw [digits?_display, digits?_display] at hdigits
  exact Option.some.inj hdigits

end Str

end Dial9.Lib
