/-
# The Hive codec of object keys

The viewer's codec for the partition values of a segment object key, and the
round trip: unescaping an escaped value gives the value back, and an escaped
value never contains a path separator. Escaping works on characters while
unescaping works on bytes, so the round trip goes character by character.
-/

import Dial9.Lib.Strings

namespace Dial9.Keys

open Dial9.Lib

namespace Viewer

def needsHiveEscape (byte : UInt8) : Bool :=
  byte < 0x20 || byte = 0x7f ||
    byte ∈ ([0x22, 0x23, 0x25, 0x27, 0x2a, 0x2f, 0x3a, 0x3d, 0x3f, 0x5c, 0x7b, 0x5b, 0x5d,
      0x5e] : List UInt8)

def hexDigits : Str := "0123456789ABCDEF".toList

/-- The sixteen digits are indexed by a nibble, so the lookup always succeeds. -/
def hexDigit (nibble : UInt8) : Char := hexDigits.getD nibble.toNat '0'

def escapeChar (c : Char) : Str :=
  if c.toNat < 128 ∧ needsHiveEscape (UInt8.ofNat c.toNat) then
    let byte := UInt8.ofNat c.toNat
    ['%', hexDigit (byte >>> 4), hexDigit (byte &&& 0x0f)]
  else [c]

/-- Escape a Hive partition-path value using Hive's canonical ASCII table. -/
def hiveEscape (value : Str) : Str := value.flatMap escapeChar

def hexValue (byte : UInt8) : Option UInt8 :=
  if 0x30 ≤ byte ∧ byte ≤ 0x39 then some (byte - 0x30)
  else if 0x61 ≤ byte ∧ byte ≤ 0x66 then some (byte - 0x61 + 10)
  else if 0x41 ≤ byte ∧ byte ≤ 0x46 then some (byte - 0x41 + 10)
  else none

/-- The decoding loop; `none` where it returns early. -/
def unescapeBytes : List UInt8 → Option (List UInt8)
  | [] => some []
  | byte :: bytes =>
    if byte ≠ 0x25 then (unescapeBytes bytes).map (byte :: ·)
    else
      match bytes with
      | high :: low :: rest => do
          let high ← hexValue high
          let low ← hexValue low
          (unescapeBytes rest).map ((high <<< 4 ||| low) :: ·)
      | _ => none

/-- Decode one layer of `%HH` escaping from a Hive partition-path value. -/
def hiveUnescape (value : Str) : Option Str :=
  if 0x25 ∉ Str.asBytes value then some value
  else (unescapeBytes (Str.asBytes value)).bind Str.fromUtf8

/-- Format the canonical Hive-style segment object key. -/
def formatV1SegmentObjectKey (keyPrefix : Option Str)
    (date service time inst bootId filename : Str) : Str :=
  let suffix := "version=1/date=".toList ++ hiveEscape date ++
    "/service=".toList ++ hiveEscape service ++ "/time=".toList ++ hiveEscape time ++
    "/instance=".toList ++ hiveEscape inst ++ "/boot=".toList ++ hiveEscape bootId ++
    "/".toList ++ filename
  match keyPrefix with
  | some keyPrefix => keyPrefix ++ "/".toList ++ suffix
  | none => suffix

/-! ## The round trip -/

theorem unescapeBytes_cons_of_ne {byte : UInt8} (h : byte ≠ 0x25) (bytes : List UInt8) :
    unescapeBytes (byte :: bytes) = (unescapeBytes bytes).map (byte :: ·) := by
  rcases bytes with _ | ⟨first, _ | ⟨second, rest⟩⟩ <;> simp [unescapeBytes, h]

theorem unescapeBytes_append_of_ne {front : List UInt8} (h : 0x25 ∉ front) (bytes : List UInt8) :
    unescapeBytes (front ++ bytes) = (unescapeBytes bytes).map (front ++ ·) := by
  induction front with
  | nil => simp
  | cons byte front ih =>
    have hbyte : byte ≠ 0x25 := fun heq => h (by simp [heq])
    have hfront : 0x25 ∉ front := fun hmem => h (by simp [hmem])
    rw [List.cons_append, unescapeBytes_cons_of_ne hbyte, ih hfront, Option.map_map]
    rfl

set_option maxRecDepth 4000 in
theorem hexDigit_spec : ∀ n : Fin 128,
    (hexDigit (UInt8.ofNat n >>> 4)).toNat < 128 ∧
    (hexDigit (UInt8.ofNat n &&& 0x0f)).toNat < 128 ∧
    (do
      let high ← hexValue (UInt8.ofNat (hexDigit (UInt8.ofNat n >>> 4)).toNat)
      let low ← hexValue (UInt8.ofNat (hexDigit (UInt8.ofNat n &&& 0x0f)).toNat)
      pure (high <<< 4 ||| low)) = some (UInt8.ofNat n) := by
  decide

theorem needsHiveEscape_percent : needsHiveEscape 0x25 = true := by decide

theorem unescapeBytes_escapeChar (c : Char) (bytes : List UInt8) :
    unescapeBytes (Str.asBytes (escapeChar c) ++ bytes) =
      (unescapeBytes bytes).map (String.utf8EncodeChar c ++ ·) := by
  by_cases hescape : c.toNat < 128 ∧ needsHiveEscape (UInt8.ofNat c.toNat) = true
  · rcases hexDigit_spec ⟨c.toNat, hescape.1⟩ with ⟨hhigh, hlow, hvalue⟩
    have hbytes : Str.asBytes (escapeChar c) =
        [0x25, UInt8.ofNat (hexDigit (UInt8.ofNat c.toNat >>> 4)).toNat,
          UInt8.ofNat (hexDigit (UInt8.ofNat c.toNat &&& 0x0f)).toNat] := by
      rw [escapeChar, if_pos hescape]
      simp only [Str.asBytes, List.flatMap_cons, List.flatMap_nil,
        Str.utf8EncodeChar_of_lt hhigh, Str.utf8EncodeChar_of_lt hlow]
      rfl
    rcases Option.bind_eq_some_iff.mp hvalue with ⟨high, hhigh, hrest⟩
    rcases Option.bind_eq_some_iff.mp hrest with ⟨low, hlow, hbyte⟩
    rw [hbytes, Str.utf8EncodeChar_of_lt hescape.1]
    simp only [List.cons_append, List.nil_append]
    rw [unescapeBytes, if_neg (by simp)]
    simp only [hhigh, hlow, Option.bind_eq_bind, Option.bind_some]
    rw [Option.some.inj hbyte]
  · have hbytes : Str.asBytes (escapeChar c) = String.utf8EncodeChar c := by
      rw [escapeChar, if_neg hescape]
      simp [Str.asBytes]
    rw [hbytes]
    apply unescapeBytes_append_of_ne
    intro hmem
    by_cases hascii : c.toNat < 128
    · rw [Str.utf8EncodeChar_of_lt hascii, List.mem_singleton] at hmem
      exact hescape ⟨hascii, hmem ▸ needsHiveEscape_percent⟩
    · have hhigh := Str.le_of_mem_utf8EncodeChar (by omega) hmem
      exact absurd hhigh (by decide)

theorem unescapeBytes_hiveEscape (value : Str) :
    unescapeBytes (Str.asBytes (hiveEscape value)) = some (Str.asBytes value) := by
  induction value with
  | nil => rfl
  | cons c value ih =>
    have hescape : hiveEscape (c :: value) = escapeChar c ++ hiveEscape value := rfl
    rw [hescape, Str.asBytes_append, unescapeBytes_escapeChar, ih]
    rfl

/-- Unescaping undoes escaping. A value without an escape is returned before
the decoding loop, which would have returned it too. -/
theorem hiveUnescape_hiveEscape (value : Str) : hiveUnescape (hiveEscape value) = some value := by
  have hbytes := unescapeBytes_hiveEscape value
  unfold hiveUnescape
  split
  · next hplain =>
      have hsame := unescapeBytes_append_of_ne hplain []
      rw [List.append_nil, hbytes] at hsame
      have hequal : Str.asBytes value = Str.asBytes (hiveEscape value) := by
        simpa [unescapeBytes] using hsame
      rw [← Str.fromUtf8_asBytes, ← hequal, Str.fromUtf8_asBytes]
  · rw [hbytes, Option.bind_some, Str.fromUtf8_asBytes]

theorem hiveEscape_injective : Function.Injective hiveEscape := by
  intro v w h
  have hunescape := congrArg hiveUnescape h
  rw [hiveUnescape_hiveEscape, hiveUnescape_hiveEscape] at hunescape
  exact Option.some.inj hunescape

theorem hexDigit_mem (nibble : UInt8) : hexDigit nibble ∈ hexDigits := by
  rw [hexDigit, List.getD_eq_getElem?_getD]
  cases hdigit : hexDigits[nibble.toNat]? with
  | none => decide
  | some digit => exact List.mem_of_getElem? hdigit

theorem notMem_hiveEscape {c : Char}
    (hescape : c.toNat < 128 ∧ needsHiveEscape (UInt8.ofNat c.toNat) = true) (hpercent : c ≠ '%')
    (hdigits : c ∉ hexDigits) (value : Str) : c ∉ hiveEscape value := by
  intro hmem
  rcases List.mem_flatMap.mp hmem with ⟨d, -, hd⟩
  unfold escapeChar at hd
  split at hd
  · simp only [List.mem_cons, List.not_mem_nil, or_false] at hd
    rcases hd with rfl | rfl | rfl
    · exact hpercent rfl
    · exact hdigits (hexDigit_mem _)
    · exact hdigits (hexDigit_mem _)
  · next hplain =>
      rw [List.mem_singleton] at hd
      exact hplain (hd ▸ hescape)

theorem not_slash_mem_hiveEscape (value : Str) : '/' ∉ hiveEscape value :=
  notMem_hiveEscape (by decide) (by decide) (by decide) value

end Viewer

end Dial9.Keys
