/-
# The layout of kernel records

The kernel writes a record's integers at their offsets in native byte order, a
character array as a string that ends at a NUL or at the end of the array, and for a
`__data_loc` string a word with the offset of its data in the low half and the length
in the high half. The reader takes the halves the other way round.
-/

import Dial9.SelfProfile.Tracepoint

namespace Dial9.SelfProfile.Tracepoint

open Lib (Bytes ByteOrder Str Text)

/-! ## What the kernel writes -/

/-- Some bytes of the record. -/
def stretch (raw : Bytes) (start length : Nat) : Bytes := (raw.drop start).take length

/-- A string of at most the length of the bytes, ended by a NUL if it is shorter. -/
def Stores (bytes : Bytes) (s : Text) : Prop :=
  0 ∉ s.bytes ∧ (bytes = s.bytes ∨ ∃ rest, bytes = s.bytes ++ 0 :: rest)

/-- The bytes of an integer, signed ones in two's complement. -/
def RawFieldValue.intBytes (order : ByteOrder) : RawFieldValue → Bytes
  | .u8 v => order.bytes 1 v.toNat
  | .u16 v => order.bytes 2 v.toNat
  | .u32 v => order.bytes 4 v.toNat
  | .u64 v => order.bytes 8 v.toNat
  | .i8 v => order.bytes 1 v.toUInt8.toNat
  | .i16 v => order.bytes 2 v.toUInt16.toNat
  | .i32 v => order.bytes 4 v.toUInt32.toNat
  | .i64 v => order.bytes 8 v.toUInt64.toNat
  | .str _ | .bytes _ => []

/-- The width and the signedness of an integer. -/
def RawFieldValue.intKind : RawFieldValue → Option (Nat × Bool)
  | .u8 _ => some (1, false)
  | .u16 _ => some (2, false)
  | .u32 _ => some (4, false)
  | .u64 _ => some (8, false)
  | .i8 _ => some (1, true)
  | .i16 _ => some (2, true)
  | .i32 _ => some (4, true)
  | .i64 _ => some (8, true)
  | .str _ | .bytes _ => none

/-- The record has the value in the field, as the kernel lays it out. -/
inductive Written (order : ByteOrder) (raw : Bytes) (field : TracepointField) :
    RawFieldValue → Prop where
  | int (value : RawFieldValue) (hstatic : field.isDynamic = false)
      (htype : isCharArray field.fieldType = false)
      (hkind : value.intKind = some (field.size.toNat, field.signed))
      (hroom : field.offset.toNat + field.size.toNat ≤ raw.length)
      (hbytes : stretch raw field.offset.toNat field.size.toNat = value.intBytes order) :
      Written order raw field value
  | array (s : Text) (hstatic : field.isDynamic = false)
      (htype : isCharArray field.fieldType = true)
      (hroom : field.offset.toNat + field.size.toNat ≤ raw.length)
      (hstores : Stores (stretch raw field.offset.toNat field.size.toNat) s) :
      Written order raw field (.str s)
  | dynamic (s : Text) (off len : Nat) (hdynamic : field.isDynamic = true)
      (hsize : field.size.toNat = 4) (hroom : field.offset.toNat + 4 ≤ raw.length)
      (hoff : off < 2 ^ 16) (hlen : len < 2 ^ 16) (hdata : off + len ≤ raw.length)
      (hword : stretch raw field.offset.toNat 4 = order.bytes 4 (off + len * 2 ^ 16))
      (hstores : Stores (stretch raw off len) s) : Written order raw field (.str s)

/-! ## What the reader makes of it -/

/-- The word that describes a field's data. -/
def descriptor (order : ByteOrder) (raw : Bytes) (field : TracepointField) : Nat :=
  order.nat (stretch raw field.offset.toNat 4)

/-- What lies where the halves of the word are taken for each other. -/
def exchanged (order : ByteOrder) (raw : Bytes) (field : TracepointField) : Bytes :=
  stretch raw (descriptor order raw field / 2 ^ 16) (descriptor order raw field % 2 ^ 16)

/-- The value that the reader comes to in a record that has the given one. -/
def found (order : ByteOrder) (raw : Bytes) (field : TracepointField) (value : RawFieldValue) :
    RawFieldValue :=
  if field.isDynamic then .str (nulTerminatedStr (exchanged order raw field)) else value

variable {t : Target} {order : ByteOrder} {raw bytes : Bytes} {field : TracepointField}
  {fields : List TracepointField} {value : RawFieldValue} {values : List RawFieldValue} {s : Text}

theorem nulTerminatedStr_of_stores (h : Stores bytes s) : nulTerminatedStr bytes = s := by
  obtain ⟨hnul, hbytes⟩ := h
  have hpass : ∀ b ∈ s.bytes, decide (b ≠ 0) = true := by
    intro b hb
    apply decide_eq_true
    rintro rfl
    exact hnul hb
  have htake : bytes.takeWhile (· ≠ 0) = s.bytes := by
    rcases hbytes with rfl | ⟨rest, rfl⟩
    · exact List.takeWhile_eq_self_iff.mpr hpass
    · rw [List.takeWhile_append_of_pos hpass, List.takeWhile_cons_of_neg (by simp), List.append_nil]
  rw [nulTerminatedStr, htake, Text.fromUtf8Lossy_bytes]

theorem extractFieldValue_intBytes {fieldType : Str} (htype : isCharArray fieldType = false)
    {size : Nat} {signed : Bool} (hkind : value.intKind = some (size, signed)) :
    extractFieldValue order (value.intBytes order) size signed fieldType = value := by
  have hword : ∀ w n, n < 256 ^ w → order.nat ((order.bytes w n).take w) = n := by
    intro w n hn
    rw [List.take_of_length_le (ByteOrder.bytes_length w n).le, ByteOrder.nat_bytes,
      Nat.mod_eq_of_lt hn]
  cases value with
  | u8 v =>
    cases hkind
    simp [extractFieldValue, htype, RawFieldValue.intBytes, hword 1 _ v.toNat_lt]
  | u16 v =>
    cases hkind
    simp [extractFieldValue, htype, RawFieldValue.intBytes, hword 2 _ v.toNat_lt]
  | u32 v =>
    cases hkind
    simp [extractFieldValue, htype, RawFieldValue.intBytes, hword 4 _ v.toNat_lt]
  | u64 v =>
    cases hkind
    simp [extractFieldValue, htype, RawFieldValue.intBytes, hword 8 _ v.toNat_lt]
  | i8 v =>
    cases hkind
    simp [extractFieldValue, htype, RawFieldValue.intBytes, hword 1 _ v.toUInt8.toNat_lt]
  | i16 v =>
    cases hkind
    simp [extractFieldValue, htype, RawFieldValue.intBytes, hword 2 _ v.toUInt16.toNat_lt]
  | i32 v =>
    cases hkind
    simp [extractFieldValue, htype, RawFieldValue.intBytes, hword 4 _ v.toUInt32.toNat_lt]
  | i64 v =>
    cases hkind
    simp [extractFieldValue, htype, RawFieldValue.intBytes, hword 8 _ v.toUInt64.toNat_lt]
  | str _ | bytes _ => cases hkind

theorem add_of_lt {a b : Nat} (h : a + b < 2 ^ 64) : t.add a b = some (a + b) := if_pos h

theorem slice_add {start length : Nat} (h : start + length ≤ raw.length) :
    slice raw start (start + length) = some (stretch raw start length) := by
  rw [slice, if_pos ⟨Nat.le_add_right _ _, h⟩, Nat.add_sub_cancel_left, stretch]

/-- A slice is never longer than `isize::MAX`, so that no offset in it overflows. -/
theorem extractField_written (hraw : raw.length < 2 ^ 63) (h : Written t.order raw field value) :
    extractField t raw field = .ok (found t.order raw field value) := by
  cases h with
  | int _ hstatic htype hkind hroom hbytes =>
    rw [extractField, add_of_lt (by omega)]
    dsimp only
    rw [if_neg (by omega), if_neg (by simp [hstatic]), slice_add hroom, hbytes]
    dsimp only
    rw [extractFieldValue_intBytes htype hkind, found, if_neg (by simp [hstatic])]
  | array s hstatic htype hroom hstores =>
    rw [extractField, add_of_lt (by omega)]
    dsimp only
    rw [if_neg (by omega), if_neg (by simp [hstatic]), slice_add hroom]
    dsimp only
    have hvalue : extractFieldValue t.order (stretch raw field.offset.toNat field.size.toNat)
        field.size.toNat field.signed field.fieldType = .str s := by
      unfold extractFieldValue
      rw [if_pos htype, nulTerminatedStr_of_stores hstores]
    rw [hvalue, found, if_neg (by simp [hstatic])]
  | dynamic s off len hdynamic hsize hroom hoff hlen hdata hword hstores =>
    have hdescriptor : descriptor t.order raw field = off + len * 2 ^ 16 := by
      rw [descriptor, hword, ByteOrder.nat_bytes, Nat.mod_eq_of_lt (by omega)]
    rw [extractField, add_of_lt (by omega)]
    dsimp only
    rw [if_neg (by omega), if_pos hdynamic, add_of_lt (by omega), Option.bind_some, slice_add hroom]
    dsimp only
    rw [← descriptor, if_neg (by rw [hdescriptor]; omega), found, if_pos hdynamic, exchanged,
      stretch]

theorem extractFrom_written (hraw : raw.length < 2 ^ 63)
    (h : List.Forall₂ (Written t.order raw) fields values) :
    extractFrom t raw fields =
      .ok ((fields.map TracepointField.name).zip
        (List.zipWith (found t.order raw) fields values)) := by
  induction h with
  | nil => rfl
  | cons hfield hfields ih =>
    rw [extractFrom, extractField_written hraw hfield]
    dsimp only
    rw [ih]
    rfl

theorem found_eq_self_iff : found order raw field value = value ↔
    (field.isDynamic = true → value = .str (nulTerminatedStr (exchanged order raw field))) := by
  rw [found]
  cases field.isDynamic with
  | false => simp
  | true => simp [eq_comm]

theorem zip_found_eq_iff {α : Type} (name : TracepointField → α)
    (hlen : fields.length = values.length) :
    (fields.map name).zip (List.zipWith (found order raw) fields values) =
        (fields.map name).zip values ↔
      ∀ pair ∈ fields.zip values, found order raw pair.1 pair.2 = pair.2 := by
  induction fields generalizing values with
  | nil => simp
  | cons field fields ih =>
    cases values with
    | nil => cases hlen
    | cons value values => simp [ih (Nat.succ_injective hlen)]

/-- Where the kernel lays out values, the reader returns them exactly if each dynamic field has the
same string where the halves of its word are exchanged. -/
theorem extractFields_iff (t : Target) (tp : TracepointDef) (raw : Bytes)
    (values : List RawFieldValue) (hraw : raw.length < 2 ^ 63)
    (hwritten : List.Forall₂ (Written t.order raw) tp.fields values) :
    tp.extractFields t raw = .ok ((tp.fields.map TracepointField.name).zip values) ↔
      ∀ pair ∈ tp.fields.zip values, pair.1.isDynamic = true →
        pair.2 = .str (nulTerminatedStr (exchanged t.order raw pair.1)) := by
  rw [TracepointDef.extractFields, extractFrom_written hraw hwritten, Except.ok.injEq,
    zip_found_eq_iff _ hwritten.length_eq]
  simp only [found_eq_self_iff]

/-- An integer, an array, and a string whose word has equal halves. -/
theorem extractFields_equalHalves :
    TracepointDef.extractFields ⟨.little, true⟩
        ⟨['e'], 1, [⟨['a'], "int".toList, 0, 2, true, false⟩,
          ⟨['b'], "char[3]".toList, 2, 3, false, false⟩,
          ⟨['c'], "__data_loc char[]".toList, 5, 4, false, true⟩]⟩
        [0xFE, 0xFF, 0x68, 0x69, 0, 9, 0, 9, 0, 0x6F, 0x6B, 0, 0, 0, 0, 0, 0, 0] =
      .ok [(['a'], .i16 (-2)), (['b'], .str ⟨[0x68, 0x69], by decide⟩),
        (['c'], .str ⟨[0x6F, 0x6B], by decide⟩)] :=
  (extractFields_iff ⟨.little, true⟩
    ⟨['e'], 1, [⟨['a'], "int".toList, 0, 2, true, false⟩,
      ⟨['b'], "char[3]".toList, 2, 3, false, false⟩,
      ⟨['c'], "__data_loc char[]".toList, 5, 4, false, true⟩]⟩
    [0xFE, 0xFF, 0x68, 0x69, 0, 9, 0, 9, 0, 0x6F, 0x6B, 0, 0, 0, 0, 0, 0, 0]
    [.i16 (-2), .str ⟨[0x68, 0x69], by decide⟩, .str ⟨[0x6F, 0x6B], by decide⟩] (by decide)
    (.cons (.int _ rfl rfl rfl (by decide) (by decide))
      (.cons (.array _ rfl rfl (by decide) ⟨by decide, .inr ⟨[], by decide⟩⟩)
        (.cons (.dynamic _ 9 9 rfl rfl (by decide) (by decide) (by decide) (by decide) (by decide)
          ⟨by decide, .inr ⟨[0, 0, 0, 0, 0, 0], by decide⟩⟩) .nil)))).mpr (by decide)

/-- The word says four bytes of offset and three of length, and is read as three and four. -/
theorem extractFields_shortString :
    List.Forall₂ (Written .little [4, 0, 3, 0, 0x68, 0x69, 0])
        [⟨['s'], "__data_loc char[]".toList, 0, 4, false, true⟩]
        [.str ⟨[0x68, 0x69], by decide⟩] ∧
      TracepointDef.extractFields ⟨.little, true⟩
          ⟨['e'], 1, [⟨['s'], "__data_loc char[]".toList, 0, 4, false, true⟩]⟩
          [4, 0, 3, 0, 0x68, 0x69, 0] ≠
        .ok [(['s'], .str ⟨[0x68, 0x69], by decide⟩)] := by
  constructor
  · exact .cons (.dynamic _ 4 3 rfl rfl (by decide) (by decide) (by decide) (by decide) (by decide)
      ⟨by decide, .inr ⟨[], by decide⟩⟩) .nil
  · decide

end Dial9.SelfProfile.Tracepoint
