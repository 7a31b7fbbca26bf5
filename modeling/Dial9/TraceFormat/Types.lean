/-
# Field types and owned field values

The wire types of `types.rs`, the owned `FieldValue`, its encoder and its
depth-limited decoder. The decoder's recursion is on the nesting budget that
is left, so that running out of budget is the depth check of the source.

The encoder writes a value by its own shape and never looks at the schema,
whereas the decoder is driven by the type. `wire` states the encoding a type
asks for; it agrees with `encode` exactly where the shapes agree.
-/

import Dial9.Lib.Utf8
import Dial9.TraceFormat.Leb128

namespace Dial9.TraceFormat

open Dial9.Lib Dial9.Lib.Reader

/-- The non-optional wire types. -/
inductive BaseType
  | i64
  | f64
  | bool
  | string
  | bytes
  | pooledStackFrames
  | pooledString
  | stackFrames
  | varint
  | stringMap
  | u8
  | u16
  | u32
  | dynamicList
  | dynamicMap
  deriving DecidableEq, Repr

namespace BaseType

def tag : BaseType → UInt8
  | i64 => 1
  | f64 => 2
  | bool => 3
  | string => 4
  | bytes => 5
  | pooledStackFrames => 6
  | pooledString => 7
  | stackFrames => 8
  | varint => 9
  | stringMap => 10
  | u8 => 11
  | u16 => 12
  | u32 => 13
  | dynamicList => 14
  | dynamicMap => 15

def fromTag (tag : UInt8) : Option BaseType :=
  match tag with
  | 1 => some i64
  | 2 => some f64
  | 3 => some bool
  | 4 => some string
  | 5 => some bytes
  | 6 => some pooledStackFrames
  | 7 => some pooledString
  | 8 => some stackFrames
  | 9 => some varint
  | 10 => some stringMap
  | 11 => some u8
  | 12 => some u16
  | 13 => some u32
  | 14 => some dynamicList
  | 15 => some dynamicMap
  | _ => none

end BaseType

/-- `FieldType`: each base type, and its optional variant with the high bit set. -/
inductive FieldType
  | plain (base : BaseType)
  | optional (base : BaseType)
  deriving DecidableEq, Repr

namespace FieldType

/-- `field_type as u8`. -/
def tag : FieldType → UInt8
  | plain base => base.tag
  | optional base => base.tag ||| 0x80

def fromTag (tag : UInt8) : Option FieldType :=
  if tag < 0x80 then (BaseType.fromTag tag).map plain
  else (BaseType.fromTag (tag &&& 0x7f)).map optional

def isOptional : FieldType → Bool
  | plain _ => false
  | optional _ => true

/-- `FieldType::inner`, as the base type it always is. -/
def inner : FieldType → BaseType
  | plain base => base
  | optional base => base

@[simp]
theorem fromTag_tag (ft : FieldType) : fromTag ft.tag = some ft := by
  cases ft with
  | plain base | optional base => cases base <;> rfl

theorem fromTag_base (t : BaseType) : fromTag t.tag = some (plain t) := fromTag_tag (plain t)

end FieldType

/-- Owned field value. An `f64` is its 64 bits: it is stored and compared as
the bytes that carry it. Pool references are the ids they hold. -/
inductive FieldValue
  | i64 (v : Int64)
  | f64 (bits : UInt64)
  | bool (v : Bool)
  | string (v : Text)
  | bytes (v : Bytes)
  | pooledString (id : UInt32)
  | stackFrames (addrs : List UInt64)
  | pooledStackFrames (id : UInt32)
  | varint (v : UInt64)
  | stringMap (pairs : List (Bytes × Bytes))
  | list (items : List FieldValue)
  | map (pairs : List (FieldValue × FieldValue))
  | none

namespace FieldValue

/-- The type whose tag a value carries inside a self-describing container. -/
def shape : FieldValue → Option BaseType
  | i64 _ => some .i64
  | f64 _ => some .f64
  | bool _ => some .bool
  | string _ => some .string
  | bytes _ => some .bytes
  | pooledString _ => some .pooledString
  | stackFrames _ => some .stackFrames
  | pooledStackFrames _ => some .pooledStackFrames
  | varint _ => some .varint
  | stringMap _ => some .stringMap
  | list _ => some .dynamicList
  | map _ => some .dynamicMap
  | none => Option.none

def fieldTypeTag (value : FieldValue) : UInt8 :=
  match value.shape with
  | some base => base.tag
  | Option.none => 0x00

end FieldValue

/-- A length as `u32` followed by the bytes: every variable-length payload. -/
def encodeBytes (b : Bytes) : Bytes := leBytes 4 b.length ++ b

def encodePair (pair : Bytes × Bytes) : Bytes := encodeBytes pair.1 ++ encodeBytes pair.2

def encodeAddr (addr : UInt64) : Bytes := leBytes 8 addr.toNat

namespace FieldValue

mutual

/-- `FieldValue::encode`. -/
def encode : FieldValue → Bytes
  | i64 v => leBytes 8 v.toUInt64.toNat
  | f64 bits => leBytes 8 bits.toNat
  | bool v => [if v then 1 else 0]
  | string v => encodeBytes v.bytes
  | bytes v => encodeBytes v
  | pooledString id => leBytes 4 id.toNat
  | pooledStackFrames id => leBytes 4 id.toNat
  | varint v => Leb128.encodeUnsigned v
  | stackFrames addrs => leBytes 4 addrs.length ++ addrs.flatMap encodeAddr
  | stringMap pairs => leBytes 4 pairs.length ++ pairs.flatMap encodePair
  | list items => leBytes 4 items.length ++ encodeItems items
  | map pairs => leBytes 4 pairs.length ++ encodeEntries pairs
  | none => [0x00]

def encodeItems : List FieldValue → Bytes
  | [] => []
  | item :: items => item.fieldTypeTag :: item.encode ++ encodeItems items

def encodeEntries : List (FieldValue × FieldValue) → Bytes
  | [] => []
  | (key, value) :: entries =>
    (key.fieldTypeTag :: key.encode) ++ (value.fieldTypeTag :: value.encode) ++
      encodeEntries entries

end

/-- One element of a container: its tag, then itself. -/
def encodeTagged (value : FieldValue) : Bytes := value.fieldTypeTag :: value.encode

theorem encodeItems_eq (items : List FieldValue) :
    encodeItems items = items.flatMap encodeTagged := by
  induction items with
  | nil => simp [encodeItems]
  | cons item items ih => simp [encodeItems, encodeTagged, ih]

theorem encodeEntries_eq (entries : List (FieldValue × FieldValue)) :
    encodeEntries entries = entries.flatMap fun entry =>
      encodeTagged entry.1 ++ encodeTagged entry.2 := by
  induction entries with
  | nil => simp [encodeEntries]
  | cons entry entries ih =>
    obtain ⟨key, value⟩ := entry
    simp [encodeEntries, encodeTagged, ih]

end FieldValue

/-! ## Decoding -/

/-- `MAX_DECODE_CONTAINER_ELEMENTS`. -/
def maxDecodeContainerElements : Nat := 1000000

/-- `MAX_DECODE_RECURSION_DEPTH`. -/
def maxDecodeRecursionDepth : Nat := 32

/-- A `u32` length and that many bytes. -/
def decodeBytes : Reader Bytes := do
  let len ← u32
  take len.toNat

def decodePair : Reader (Bytes × Bytes) := do
  let k ← decodeBytes
  let v ← decodeBytes
  pure (k, v)

/-- A `u32` element count, refused above the container limit. -/
def decodeCount : Reader Nat := do
  let count ← u32
  require (count.toNat ≤ maxDecodeContainerElements)
  pure count.toNat

/-- A tag byte and a value of the type it names. -/
def decodeTagged {α : Type} (decode : FieldType → Reader α) : Reader α := do
  let tag ← byte
  let ft ← ofOption (FieldType.fromTag tag)
  decode ft

def decodeEntry {α : Type} (decode : FieldType → Reader α) : Reader (α × α) := do
  let key ← decodeTagged decode
  let value ← decodeTagged decode
  pure (key, value)

namespace FieldValue

/-- `FieldValue::decode_depth`; the budget is what is left of the recursion
depth, and an optional type decodes as its inner type. -/
def decodeDepth : Nat → FieldType → Reader FieldValue
  | 0, _ => fail
  | budget + 1, fieldType =>
    match fieldType.inner with
    | .i64 => do
        let v ← u64
        pure (i64 ⟨v⟩)
    | .f64 => do
        let v ← u64
        pure (f64 v)
    | .bool => do
        let b ← byte
        pure (bool (b != 0))
    | .string => do
        let b ← decodeBytes
        pure (string (Text.fromUtf8Lossy b))
    | .bytes => do
        let b ← decodeBytes
        pure (bytes b)
    | .pooledString => do
        let id ← u32
        pure (pooledString id)
    | .pooledStackFrames => do
        let id ← u32
        pure (pooledStackFrames id)
    | .varint => do
        let v ← Leb128.decodeUnsigned
        pure (varint v)
    | .u8 => do
        let v ← byte
        pure (varint v.toUInt64)
    | .u16 => do
        let v ← u16
        pure (varint v.toUInt64)
    | .u32 => do
        let v ← u32
        pure (varint v.toUInt64)
    | .stackFrames => do
        let count ← decodeCount
        let addrs ← times u64 count
        pure (stackFrames addrs)
    | .stringMap => do
        let count ← decodeCount
        let pairs ← times decodePair count
        pure (stringMap pairs)
    | .dynamicList => do
        let count ← decodeCount
        let items ← times (decodeTagged (decodeDepth budget)) count
        pure (list items)
    | .dynamicMap => do
        let count ← decodeCount
        let pairs ← times (decodeEntry (decodeDepth budget)) count
        pure (map pairs)

/-- `FieldValue::decode`: depths `0` to `MAX_DECODE_RECURSION_DEPTH` are allowed. -/
def decode (fieldType : FieldType) : Reader FieldValue :=
  decodeDepth (maxDecodeRecursionDepth + 1) fieldType

end FieldValue

/-! ## Locality -/

theorem isLocal_decodeBytes : IsLocal decodeBytes :=
  isLocal_u32.bind fun _ => isLocal_take _

theorem isLocal_decodePair : IsLocal decodePair :=
  isLocal_decodeBytes.bind fun _ => isLocal_decodeBytes.map _

theorem isLocal_decodeCount : IsLocal decodeCount :=
  isLocal_u32.bind fun _ => (isLocal_require _).map _

theorem isLocal_decodeTagged {α : Type} {decode : FieldType → Reader α}
    (h : ∀ ft, IsLocal (decode ft)) : IsLocal (decodeTagged decode) :=
  isLocal_byte.bind fun _ => (isLocal_ofOption _).bind fun ft => h ft

theorem isLocal_decodeEntry {α : Type} {decode : FieldType → Reader α}
    (h : ∀ ft, IsLocal (decode ft)) : IsLocal (decodeEntry decode) :=
  (isLocal_decodeTagged h).bind fun _ => (isLocal_decodeTagged h).map _

theorem FieldValue.isLocal_decodeDepth :
    ∀ (budget : Nat) (ft : FieldType), IsLocal (decodeDepth budget ft)
  | 0, _ => isLocal_fail
  | budget + 1, ft => by
      have ih := isLocal_decodeDepth budget
      unfold decodeDepth
      cases ft.inner with
      | i64 | f64 => exact isLocal_u64.map _
      | bool | u8 => exact isLocal_byte.map _
      | string | bytes => exact isLocal_decodeBytes.map _
      | pooledString | pooledStackFrames | u32 => exact isLocal_u32.map _
      | varint => exact Leb128.isLocal_decodeUnsigned.map _
      | u16 => exact isLocal_u16.map _
      | stackFrames =>
        exact isLocal_decodeCount.bind fun _ => (isLocal_u64.times _).map _
      | stringMap =>
        exact isLocal_decodeCount.bind fun _ => (isLocal_decodePair.times _).map _
      | dynamicList =>
        exact isLocal_decodeCount.bind fun _ => ((isLocal_decodeTagged ih).times _).map _
      | dynamicMap =>
        exact isLocal_decodeCount.bind fun _ => ((isLocal_decodeEntry ih).times _).map _

theorem FieldValue.isLocal_decode (ft : FieldType) : IsLocal (decode ft) :=
  isLocal_decodeDepth _ ft

/-! ## Reading back -/

theorem reads_decodeBytes {b : Bytes} (h : b.length < 2 ^ 32) :
    Reads decodeBytes (encodeBytes b) b := by
  refine (reads_u32_length h).bind (reads_take_of_length ?_)
  rw [UInt32.toNat_ofNat', Nat.mod_eq_of_lt h]

theorem reads_decodePair {pair : Bytes × Bytes} (hk : pair.1.length < 2 ^ 32)
    (hv : pair.2.length < 2 ^ 32) : Reads decodePair (encodePair pair) pair :=
  (reads_decodeBytes hk).bind (reads_decodeBytes hv).map

theorem reads_decodeCount {n : Nat} (h : n ≤ maxDecodeContainerElements) :
    Reads decodeCount (leBytes 4 n) n := by
  have hlt : n < 2 ^ 32 := by
    unfold maxDecodeContainerElements at h
    omega
  have hcast : (UInt32.ofNat n).toNat = n := by
    rw [UInt32.toNat_ofNat', Nat.mod_eq_of_lt hlt]
  have hcont : Reads (require ((UInt32.ofNat n).toNat ≤ maxDecodeContainerElements) >>= fun _ =>
      pure (UInt32.ofNat n).toNat) [] n := by
    rw [hcast]
    exact Reads.require h (reads_pure n)
  exact (reads_u32_length hlt).bind_nil hcont

theorem reads_addr (addr : UInt64) : Reads u64 (encodeAddr addr) addr := reads_u64 addr

namespace FieldValue

/-- Values that survive a decode with the given nesting budget, whatever their
place: every length fits its prefix, every container its limit, and no `none`
stands inside a container. -/
def Fits : Nat → FieldValue → Prop
  | 0, _ => False
  | budget + 1, value =>
    match value with
    | string v => v.bytes.length < 2 ^ 32
    | bytes v => v.length < 2 ^ 32
    | stackFrames addrs => addrs.length ≤ maxDecodeContainerElements
    | stringMap pairs => pairs.length ≤ maxDecodeContainerElements ∧
        ∀ pair ∈ pairs, pair.1.length < 2 ^ 32 ∧ pair.2.length < 2 ^ 32
    | list items => items.length ≤ maxDecodeContainerElements ∧
        ∀ item ∈ items, Fits budget item
    | map pairs => pairs.length ≤ maxDecodeContainerElements ∧
        ∀ pair ∈ pairs, Fits budget pair.1 ∧ Fits budget pair.2
    | none => False
    | _ => True

theorem Fits.shape_isSome {budget : Nat} {value : FieldValue} (h : Fits budget value) :
    ∃ base, value.shape = some base := by
  cases budget with
  | zero => exact h.elim
  | succ budget =>
    cases value <;> first | exact ⟨_, rfl⟩ | exact h.elim

theorem reads_decodeTagged {α : Type} {decode : FieldType → Reader α} {value : FieldValue}
    {read : α} {base : BaseType} (hshape : value.shape = some base)
    (h : Reads (decode (.plain base)) value.encode read) :
    Reads (decodeTagged decode) (encodeTagged value) read := by
  have htag : FieldType.fromTag value.fieldTypeTag = some (.plain base) := by
    simp only [fieldTypeTag, hshape]
    exact FieldType.fromTag_base base
  have hcont : Reads (ofOption (FieldType.fromTag value.fieldTypeTag) >>= decode)
      value.encode read := by
    rw [htag]
    exact h
  exact (reads_byte value.fieldTypeTag).bind hcont

theorem reads_decodeDepth :
    ∀ {budget : Nat} {ft : FieldType} {value : FieldValue}, Fits budget value →
      value.shape = some ft.inner → Reads (decodeDepth budget ft) value.encode value
  | 0, _, _, hfits, _ => hfits.elim
  | budget + 1, ft, value, hfits, hshape => by
      have htagged : ∀ item, Fits budget item →
          Reads (decodeTagged (decodeDepth budget)) (encodeTagged item) item := by
        intro item hitem
        obtain ⟨base, hbase⟩ := hitem.shape_isSome
        exact reads_decodeTagged hbase (reads_decodeDepth hitem hbase)
      unfold decodeDepth
      cases value with
      | i64 v =>
        rw [← Option.some.inj hshape]
        simpa [encode] using (reads_u64 v.toUInt64).map (f := fun v => i64 ⟨v⟩)
      | f64 bits =>
        rw [← Option.some.inj hshape]
        simpa [encode] using (reads_u64 bits).map (f := f64)
      | bool v =>
        rw [← Option.some.inj hshape]
        cases v with
        | false => exact (reads_byte 0).map (f := fun b => bool (b != 0))
        | true => exact (reads_byte 1).map (f := fun b => bool (b != 0))
      | string v =>
        rw [← Option.some.inj hshape]
        simpa [encode] using
          (reads_decodeBytes hfits).map (f := fun b => string (Text.fromUtf8Lossy b))
      | bytes v =>
        rw [← Option.some.inj hshape]
        simpa [encode] using (reads_decodeBytes hfits).map (f := bytes)
      | pooledString id =>
        rw [← Option.some.inj hshape]
        simpa [encode] using (reads_u32 id).map (f := pooledString)
      | pooledStackFrames id =>
        rw [← Option.some.inj hshape]
        simpa [encode] using (reads_u32 id).map (f := pooledStackFrames)
      | varint v =>
        rw [← Option.some.inj hshape]
        simpa [encode] using (Leb128.reads_decodeUnsigned v).map (f := varint)
      | stackFrames addrs =>
        rw [← Option.some.inj hshape]
        simpa [encode] using
          (reads_decodeCount hfits).bind
            ((reads_times fun a _ => reads_addr a).map (f := stackFrames))
      | stringMap pairs =>
        rw [← Option.some.inj hshape]
        obtain ⟨hcount, hpairs⟩ := hfits
        simpa [encode] using
          (reads_decodeCount hcount).bind
            ((reads_times fun pair hpair =>
              reads_decodePair (hpairs pair hpair).1 (hpairs pair hpair).2).map (f := stringMap))
      | list items =>
        rw [← Option.some.inj hshape]
        obtain ⟨hcount, hitems⟩ := hfits
        simpa [encode, encodeItems_eq] using
          (reads_decodeCount hcount).bind
            ((reads_times fun item hitem => htagged item (hitems item hitem)).map (f := list))
      | map pairs =>
        rw [← Option.some.inj hshape]
        obtain ⟨hcount, hpairs⟩ := hfits
        have hentry : ∀ pair ∈ pairs, Reads (decodeEntry (decodeDepth budget))
            (encodeTagged pair.1 ++ encodeTagged pair.2) pair := fun pair hpair =>
          (htagged pair.1 (hpairs pair hpair).1).bind (htagged pair.2 (hpairs pair hpair).2).map
        simpa [encode, encodeEntries_eq] using
          (reads_decodeCount hcount).bind ((reads_times hentry).map (f := map))
      | none => exact hfits.elim

end FieldValue

end Dial9.TraceFormat
