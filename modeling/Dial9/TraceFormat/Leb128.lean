/-
# LEB128 varints

The unsigned varint of `leb128.rs`: seven payload bits a byte, least
significant group first, the high bit set on every byte but the last. The
encoder fills a ten-byte buffer; the decoder gives up after ten bytes.
-/

import Dial9.Lib.Words

namespace Dial9.TraceFormat.Leb128

open Dial9.Lib Dial9.Lib.Reader

/-- The encoder's loop with `room` bytes of its buffer left. -/
def encodeFrom : Nat → UInt64 → Bytes
  | 0, _ => []
  | room + 1, value =>
    if 0x80 ≤ value then (value.toUInt8 ||| 0x80) :: encodeFrom room (value >>> 7)
    else [value.toUInt8]

/-- `leb128::encode_unsigned`. -/
def encodeUnsigned (value : UInt64) : Bytes := encodeFrom 10 value

/-- The decoder's loop with `room` bytes left before it gives up. -/
def decodeFrom : Nat → Nat → UInt64 → Reader UInt64
  | 0, _, _ => fail
  | room + 1, shift, result => do
      let b ← byte
      let result := result ||| ((b &&& 0x7f).toUInt64 <<< UInt64.ofNat shift)
      if b &&& 0x80 = 0 then pure result else decodeFrom room (shift + 7) result

/-- `leb128::decode_unsigned`. -/
def decodeUnsigned : Reader UInt64 := decodeFrom 10 0 0

theorem isLocal_decodeFrom :
    ∀ (room shift : Nat) (result : UInt64), IsLocal (decodeFrom room shift result)
  | 0, _, _ => isLocal_fail
  | room + 1, shift, result => by
      refine isLocal_byte.bind fun b => ?_
      dsimp only
      split
      · exact isLocal_pure _
      · exact isLocal_decodeFrom room _ _

theorem isLocal_decodeUnsigned : IsLocal decodeUnsigned := isLocal_decodeFrom 10 0 0

/-! ## Bytes and payload groups -/

private theorem toNat_and_low (b : UInt8) : (b &&& 0x7f).toNat = b.toNat % 128 := by
  rw [UInt8.toNat_and]
  exact Nat.and_two_pow_sub_one_eq_mod b.toNat 7

set_option maxRecDepth 4000 in
private theorem and_high_eq_zero_iff (b : UInt8) : b &&& 0x80 = 0 ↔ b.toNat < 128 := by
  have hall : ∀ i : Fin 256, (UInt8.ofNat i.val &&& 0x80 = 0) ↔ i.val < 128 := by decide
  simpa using hall ⟨b.toNat, b.toNat_lt⟩

private theorem toNat_last (value : UInt64) (h : value.toNat < 128) :
    value.toUInt8.toNat = value.toNat := by
  rw [UInt64.toNat_toUInt8]
  omega

set_option maxRecDepth 4000 in
private theorem toNat_or_high (b : UInt8) : (b ||| 0x80).toNat = b.toNat % 128 + 128 := by
  have hall : ∀ i : Fin 256, (UInt8.ofNat i.val ||| 0x80).toNat = i.val % 128 + 128 := by
    decide
  simpa using hall ⟨b.toNat, b.toNat_lt⟩

private theorem toNat_more (value : UInt64) :
    (value.toUInt8 ||| 0x80).toNat = value.toNat % 128 + 128 := by
  rw [toNat_or_high, UInt64.toNat_toUInt8]
  omega

private theorem toNat_shiftRight_seven (value : UInt64) :
    (value >>> 7).toNat = value.toNat / 128 := by
  rw [UInt64.toNat_shiftRight]
  simp [Nat.shiftRight_eq_div_pow]

/-- Joining a group above everything read so far is an addition. -/
private theorem toNat_or_group {result : UInt64} (b : UInt8) {shift : Nat} (hshift : shift < 64)
    (hresult : result.toNat < 2 ^ shift) (hfit : b.toNat % 128 * 2 ^ shift < 2 ^ 64) :
    (result ||| ((b &&& 0x7f).toUInt64 <<< UInt64.ofNat shift)).toNat =
      result.toNat + b.toNat % 128 * 2 ^ shift := by
  have hamount : (UInt64.ofNat shift).toNat % 64 = shift := by
    rw [UInt64.toNat_ofNat']
    omega
  rw [UInt64.toNat_or, UInt64.toNat_shiftLeft, hamount, UInt8.toNat_toUInt64, toNat_and_low,
    Nat.shiftLeft_eq, Nat.mod_eq_of_lt hfit, Nat.or_comm, Nat.mul_comm,
    ← Nat.two_pow_add_eq_or_of_lt hresult]
  omega

/-- The loops stay in step: with the groups below `shift` already in `result`,
decoding what the encoder writes for the remaining value restores their sum. -/
theorem reads_decodeFrom :
    ∀ (room shift : Nat) (result value : UInt64), shift + 7 * room = 63 →
      result.toNat < 2 ^ shift → result.toNat + value.toNat * 2 ^ shift < 2 ^ 64 →
      Reads (decodeFrom (room + 1) shift result) (encodeFrom (room + 1) value)
        (UInt64.ofNat (result.toNat + value.toNat * 2 ^ shift))
  | room, shift, result, value, hroom, hresult, hfit => by
      have hpos : 0 < 2 ^ shift := Nat.two_pow_pos shift
      unfold encodeFrom
      by_cases hmore : 0x80 ≤ value
      · rw [if_pos hmore]
        have hvalue : 128 ≤ value.toNat := UInt64.le_iff_toNat_le.mp hmore
        -- A continuation byte in the last position would exceed 64 bits.
        obtain ⟨room, rfl⟩ : ∃ m, room = m + 1 := by
          cases room with
          | succ m => exact ⟨m, rfl⟩
          | zero =>
            obtain rfl : shift = 63 := by omega
            omega
        have hsplit : value.toNat = value.toNat % 128 + 128 * (value.toNat / 128) := by omega
        have hscaled : value.toNat * 2 ^ shift =
            value.toNat % 128 * 2 ^ shift + value.toNat / 128 * 2 ^ (shift + 7) := by
          conv_lhs => rw [hsplit]
          rw [pow_add]
          ring
        have hlow : value.toNat % 128 * 2 ^ shift < 2 ^ 64 := by omega
        have hgroup : value.toNat % 128 * 2 ^ shift ≤ 127 * 2 ^ shift :=
          Nat.mul_le_mul_right _ (by omega)
        have hbyte := toNat_more value
        have hjoin := toNat_or_group (value.toUInt8 ||| 0x80) (by omega)
          hresult (by rw [hbyte]; simpa using hlow)
        rw [hbyte, Nat.add_mod_right, Nat.mod_mod] at hjoin
        have hcontinues : ¬ (value.toUInt8 ||| 0x80) &&& 0x80 = 0 := by
          rw [and_high_eq_zero_iff, hbyte]
          omega
        have hrest := reads_decodeFrom room (shift + 7)
          (result ||| (((value.toUInt8 ||| 0x80) &&& 0x7f).toUInt64 <<< UInt64.ofNat shift))
          (value >>> 7) (by omega) (by rw [hjoin, pow_add]; omega)
          (by rw [hjoin, toNat_shiftRight_seven]; omega)
        rw [hjoin, toNat_shiftRight_seven, Nat.add_assoc, ← hscaled] at hrest
        intro rest
        rw [decodeFrom, bind_apply]
        simp only [List.cons_append, byte, if_neg hcontinues]
        exact hrest rest
      · rw [if_neg hmore]
        have hvalue : value.toNat < 128 := by
          have := fun h => hmore (UInt64.le_iff_toNat_le.mpr h)
          exact Nat.lt_of_not_le this
        have hbyte := toNat_last value hvalue
        have hmod : value.toUInt8.toNat % 128 = value.toNat := by omega
        have hjoin := toNat_or_group value.toUInt8 (by omega) hresult
          (by rw [hmod]; omega)
        rw [hmod] at hjoin
        have hlast : value.toUInt8 &&& 0x80 = 0 := by
          rw [and_high_eq_zero_iff, hbyte]
          exact hvalue
        intro rest
        rw [decodeFrom, bind_apply, ← hjoin, UInt64.ofNat_toNat]
        simp only [List.cons_append, byte, if_pos hlast]
        rfl

theorem reads_decodeUnsigned (value : UInt64) :
    Reads decodeUnsigned (encodeUnsigned value) value := by
  have hvalue := value.toNat_lt
  have h := reads_decodeFrom 9 0 0 value rfl (by simp) (by simpa using hvalue)
  simpa [decodeUnsigned, encodeUnsigned] using h

end Dial9.TraceFormat.Leb128
