/-
# Two decoders of escaped partitions

The server unescapes the bytes of a partition value and checks that they are
UTF-8; the browser calls `decodeURIComponent`. A character that is not ASCII is
no digit of an escape on either side, so the bytes of a value are read escape by
escape just as its characters are.
-/

import Dial9.Keys.Codec
import Dial9.Lib.UriComponent

namespace Dial9.Keys.Viewer

open Dial9.Lib

set_option maxRecDepth 4000 in
theorem hexValue_ofNat : ∀ n : Fin 128,
    hexValue (UInt8.ofNat n) = Str.hexDigitValue (Char.ofNat n) := by
  decide

theorem hexValue_of_utf8EncodeChar {c : Char} {octet : UInt8} {more : List UInt8}
    (h : String.utf8EncodeChar c = octet :: more) :
    hexValue octet = Str.hexDigitValue c ∧ (more ≠ [] → Str.hexDigitValue c = none) := by
  by_cases hascii : c.toNat < 128
  · rw [Str.utf8EncodeChar_of_lt hascii] at h
    obtain ⟨rfl, rfl⟩ := List.cons.inj h
    have hvalue := hexValue_ofNat ⟨c.toNat, hascii⟩
    rw [Char.ofNat_toNat] at hvalue
    exact ⟨hvalue, fun hne => absurd rfl hne⟩
  · have hhigh : 128 ≤ octet.toNat := by
      apply Str.le_of_mem_utf8EncodeChar (Nat.le_of_not_lt hascii)
      rw [h]
      exact List.mem_cons_self
    have hnone : Str.hexDigitValue c = none := by
      have hdigit : ∀ d : Char, d.toNat < 128 → ¬ c ≤ d := by
        intro d hd hle
        have hnat : c.toNat ≤ d.toNat := hle
        omega
      simp [Str.hexDigitValue, hdigit]
    refine ⟨?_, fun _ => hnone⟩
    rw [hnone, hexValue]
    simp only [UInt8.le_iff_toNat_le]
    rw [if_neg, if_neg, if_neg]
    · rintro ⟨-, hle⟩
      exact absurd hle (by simpa using (by omega : 70 < octet.toNat))
    · rintro ⟨-, hle⟩
      exact absurd hle (by simpa using (by omega : 102 < octet.toNat))
    · rintro ⟨-, hle⟩
      exact absurd hle (by simpa using (by omega : 57 < octet.toNat))

theorem percent_notMem {c : Char} (h : c ≠ '%') : 0x25 ∉ String.utf8EncodeChar c := by
  intro hmem
  by_cases hascii : c.toNat < 128
  · rw [Str.utf8EncodeChar_of_lt hascii, List.mem_singleton] at hmem
    have hnat := congrArg UInt8.toNat hmem
    rw [UInt8.toNat_ofNat', Nat.mod_eq_of_lt (by omega)] at hnat
    exact h (Char.toNat_inj.mp hnat.symm)
  · have hhigh := Str.le_of_mem_utf8EncodeChar (Nat.le_of_not_lt hascii) hmem
    exact absurd hhigh (by decide)

theorem unescapeBytes_escape {s : Str}
    (ih : ∀ s' : Str, s'.length < s.length → unescapeBytes (Str.asBytes s') = Str.percentBytes s') :
    unescapeBytes (Str.asBytes ('%' :: s)) = Str.percentBytes ('%' :: s) := by
  have hpercent : Str.asBytes ('%' :: s) = 0x25 :: Str.asBytes s := rfl
  rw [hpercent]
  cases s with
  | nil => rfl
  | cons high s =>
    obtain ⟨octet, more, hoctets, -⟩ := Str.utf8EncodeChar_shape high
    obtain ⟨hvalue, hmore⟩ := hexValue_of_utf8EncodeChar hoctets
    rw [Str.asBytes_cons, hoctets, List.cons_append]
    cases hhigh : Str.hexDigitValue high with
    | none =>
      rw [hhigh] at hvalue
      have hleft : ∀ bytes, unescapeBytes (0x25 :: octet :: bytes) = none := by
        intro bytes
        cases bytes with
        | nil => rfl
        | cons low rest => simp [unescapeBytes, hvalue]
      rw [hleft]
      cases s with
      | nil => rfl
      | cons low rest => simp [Str.percentBytes, hhigh]
    | some h =>
      rw [hhigh] at hvalue
      obtain rfl : more = [] := by
        by_contra hne
        rw [hmore hne] at hhigh
        cases hhigh
      cases s with
      | nil => rfl
      | cons low rest =>
        obtain ⟨octet', more', hoctets', -⟩ := Str.utf8EncodeChar_shape low
        obtain ⟨hvalue', hmore'⟩ := hexValue_of_utf8EncodeChar hoctets'
        rw [Str.asBytes_cons, hoctets', List.nil_append, List.cons_append]
        cases hlow : Str.hexDigitValue low with
        | none =>
          rw [hlow] at hvalue'
          simp [unescapeBytes, Str.percentBytes, hvalue, hvalue', hhigh, hlow]
        | some l =>
          rw [hlow] at hvalue'
          obtain rfl : more' = [] := by
            by_contra hne
            rw [hmore' hne] at hlow
            cases hlow
          have hrest := ih rest (by simp only [List.length_cons]; omega)
          simp [unescapeBytes, Str.percentBytes, hvalue, hvalue', hhigh, hlow, hrest]

theorem unescapeBytes_asBytes (s : Str) : unescapeBytes (Str.asBytes s) = Str.percentBytes s := by
  induction hlength : s.length using Nat.strong_induction_on generalizing s with
  | h n ih =>
    cases s with
    | nil => rfl
    | cons c s =>
      by_cases hc : c = '%'
      · subst hc
        rw [List.length_cons] at hlength
        exact unescapeBytes_escape fun s' hs' => ih s'.length (by omega) s' rfl
      · rw [Str.asBytes_cons, unescapeBytes_append_of_ne (percent_notMem hc),
          Str.percentBytes_of_ne hc, ih s.length (by simp [← hlength]) s rfl]

theorem hiveUnescape_eq (value : Str) : hiveUnescape value = Str.decodeURIComponent value := by
  rw [Str.decodeURIComponent_eq, ← unescapeBytes_asBytes]
  unfold hiveUnescape
  split
  · next hplain =>
      have hsame := unescapeBytes_append_of_ne hplain []
      rw [List.append_nil] at hsame
      rw [hsame]
      simp [unescapeBytes]
  · rfl

end Dial9.Keys.Viewer
