/-
# Zero-copy field values

`FieldValueRef` borrows stack frames and string maps as raw bytes with a count
and decodes them only when they are iterated. Its decoder is written separately
from the owned one: a string must be UTF-8, and a stack-frame payload carries
no element limit.
-/

import Dial9.TraceFormat.Types

namespace Dial9.TraceFormat

open Dial9.Lib Dial9.Lib.Reader

/-- `StackFramesRef`: packed addresses and their count. -/
structure StackFramesRef where
  data : Bytes
  count : UInt32
  deriving DecidableEq

/-- `StringMapRef`: length-prefixed pairs and their count. -/
structure StringMapRef where
  data : Bytes
  count : UInt32
  deriving DecidableEq

inductive FieldValueRef
  | i64 (v : Int64)
  | f64 (bits : UInt64)
  | bool (v : Bool)
  | string (v : Text)
  | bytes (v : Bytes)
  | pooledString (id : UInt32)
  | stackFrames (frames : StackFramesRef)
  | pooledStackFrames (id : UInt32)
  | varint (v : UInt64)
  | stringMap (entries : StringMapRef)
  | list (items : List FieldValueRef)
  | map (pairs : List (FieldValueRef × FieldValueRef))
  | none

/-- `StackFrameIter`: at most `remaining` addresses, ending early when the data does. -/
def stackFrameIter : Nat → Bytes → List UInt64
  | 0, _ => []
  | remaining + 1, data =>
    match u64 data with
    | none => []
    | some (addr, rest) => addr :: stackFrameIter remaining rest

/-- A length-prefixed payload that must be UTF-8. -/
def decodeText : Reader Text := do
  let b ← decodeBytes
  ofOption (Text.fromUtf8 b)

def decodeTextPair : Reader (Text × Text) := do
  let k ← decodeText
  let v ← decodeText
  pure (k, v)

/-- `StringMapIter`: the pairs up to the first that is short or not UTF-8. -/
def stringMapIter : Nat → Bytes → List (Text × Text)
  | 0, _ => []
  | remaining + 1, data =>
    match decodeTextPair data with
    | none => []
    | some (pair, rest) => pair :: stringMapIter remaining rest

namespace FieldValueRef

/-- `FieldValueRef::decode_depth`, on the slice that starts at its offset. -/
def decodeDepth : Nat → FieldType → Reader FieldValueRef
  | 0, _ => fail
  | budget + 1, fieldType =>
    match fieldType.inner with
    | .i64 => do
        let v ← u64
        pure (i64 ⟨v⟩)
    | .f64 => do
        let v ← u64
        pure (f64 v)
    | .bool => do
        let b ← byte
        pure (bool (b != 0))
    | .string => do
        let v ← decodeText
        pure (string v)
    | .bytes => do
        let b ← decodeBytes
        pure (bytes b)
    | .pooledString => do
        let id ← u32
        pure (pooledString id)
    | .pooledStackFrames => do
        let id ← u32
        pure (pooledStackFrames id)
    | .varint => do
        let v ← Leb128.decodeUnsigned
        pure (varint v)
    | .u8 => do
        let v ← byte
        pure (varint v.toUInt64)
    | .u16 => do
        let v ← u16
        pure (varint v.toUInt64)
    | .u32 => do
        let v ← u32
        pure (varint v.toUInt64)
    | .stackFrames => do
        let count ← u32
        let data ← take (count.toNat * 8)
        pure (stackFrames ⟨data, count⟩)
    | .stringMap => do
        let count ← u32
        require (count.toNat ≤ maxDecodeContainerElements)
        let data ← (times decodePair count.toNat).consumed
        pure (stringMap ⟨data, count⟩)
    | .dynamicList => do
        let count ← decodeCount
        let items ← times (decodeTagged (decodeDepth budget)) count
        pure (list items)
    | .dynamicMap => do
        let count ← decodeCount
        let pairs ← times (decodeEntry (decodeDepth budget)) count
        pure (map pairs)

/-- `FieldValueRef::decode`. -/
def decode (fieldType : FieldType) : Reader FieldValueRef :=
  decodeDepth (maxDecodeRecursionDepth + 1) fieldType

mutual

/-- `FieldValueRef::to_owned`. -/
def toOwned : FieldValueRef → FieldValue
  | i64 v => .i64 v
  | f64 bits => .f64 bits
  | bool v => .bool v
  | string v => .string v
  | bytes v => .bytes v
  | pooledString id => .pooledString id
  | stackFrames frames => .stackFrames (stackFrameIter frames.count.toNat frames.data)
  | pooledStackFrames id => .pooledStackFrames id
  | varint v => .varint v
  | stringMap entries =>
    .stringMap ((stringMapIter entries.count.toNat entries.data).map fun pair =>
      (pair.1.bytes, pair.2.bytes))
  | list items => .list (toOwnedItems items)
  | map pairs => .map (toOwnedEntries pairs)
  | none => .none

def toOwnedItems : List FieldValueRef → List FieldValue
  | [] => []
  | item :: items => item.toOwned :: toOwnedItems items

def toOwnedEntries : List (FieldValueRef × FieldValueRef) → List (FieldValue × FieldValue)
  | [] => []
  | (key, value) :: entries => (key.toOwned, value.toOwned) :: toOwnedEntries entries

end

theorem toOwnedItems_eq (items : List FieldValueRef) : toOwnedItems items = items.map toOwned := by
  induction items with
  | nil => simp [toOwnedItems]
  | cons item items ih => simp [toOwnedItems, ih]

end FieldValueRef

theorem isLocal_decodeText : IsLocal decodeText :=
  isLocal_decodeBytes.bind fun _ => isLocal_ofOption _

theorem FieldValueRef.isLocal_decodeDepth :
    ∀ (budget : Nat) (ft : FieldType), IsLocal (decodeDepth budget ft)
  | 0, _ => isLocal_fail
  | budget + 1, ft => by
      have ih := isLocal_decodeDepth budget
      unfold decodeDepth
      cases ft.inner with
      | i64 | f64 => exact isLocal_u64.map _
      | bool | u8 => exact isLocal_byte.map _
      | string => exact isLocal_decodeText.map _
      | bytes => exact isLocal_decodeBytes.map _
      | pooledString | pooledStackFrames | u32 => exact isLocal_u32.map _
      | varint => exact Leb128.isLocal_decodeUnsigned.map _
      | u16 => exact isLocal_u16.map _
      | stackFrames =>
        exact isLocal_u32.bind fun _ => (isLocal_take _).map _
      | stringMap =>
        exact isLocal_u32.bind fun _ => (isLocal_require _).bind fun _ =>
          (isLocal_decodePair.times _).consumed.map _
      | dynamicList =>
        exact isLocal_decodeCount.bind fun _ => ((isLocal_decodeTagged ih).times _).map _
      | dynamicMap =>
        exact isLocal_decodeCount.bind fun _ => ((isLocal_decodeEntry ih).times _).map _

theorem FieldValueRef.isLocal_decode (ft : FieldType) : IsLocal (decode ft) :=
  isLocal_decodeDepth _ ft

theorem FieldValueRef.exists_reads :
    ∀ {budget : Nat} {ft : FieldType} {value : FieldValue}, value.Fits budget →
      value.shape = some ft.inner → ∃ ref, Reads (decodeDepth budget ft) value.encode ref
  | 0, _, _, hfits, _ => hfits.elim
  | budget + 1, ft, value, hfits, hshape => by
      have htagged : ∀ item : FieldValue, item.Fits budget →
          ∃ ref, Reads (decodeTagged (decodeDepth budget)) (FieldValue.encodeTagged item) ref := by
        intro item hitem
        obtain ⟨base, hbase⟩ := hitem.shape_isSome
        obtain ⟨ref, href⟩ := @exists_reads _ (.plain base) _ hitem hbase
        exact ⟨ref, FieldValue.reads_decodeTagged hbase href⟩
      unfold decodeDepth
      cases value with
      | i64 v =>
        rw [← Option.some.inj hshape]
        exact ⟨_, (reads_u64 v.toUInt64).map⟩
      | f64 bits =>
        rw [← Option.some.inj hshape]
        exact ⟨_, (reads_u64 bits).map⟩
      | bool v =>
        rw [← Option.some.inj hshape]
        exact ⟨_, (reads_byte _).map⟩
      | string v =>
        rw [← Option.some.inj hshape]
        have htext : Reads decodeText (encodeBytes v.bytes) v :=
          (reads_decodeBytes hfits).bind_nil (reads_ofOption (Text.fromUtf8_bytes v))
        exact ⟨_, htext.map⟩
      | bytes v =>
        rw [← Option.some.inj hshape]
        exact ⟨_, (reads_decodeBytes hfits).map⟩
      | pooledString id | pooledStackFrames id =>
        rw [← Option.some.inj hshape]
        exact ⟨_, (reads_u32 id).map⟩
      | varint v =>
        rw [← Option.some.inj hshape]
        exact ⟨_, (Leb128.reads_decodeUnsigned v).map⟩
      | stackFrames addrs =>
        rw [← Option.some.inj hshape]
        have hlt : addrs.length < 2 ^ 32 := by
          have hle : addrs.length ≤ maxDecodeContainerElements := hfits
          unfold maxDecodeContainerElements at hle
          omega
        have hdata : Reads (take ((UInt32.ofNat addrs.length).toNat * 8))
            (addrs.flatMap encodeAddr) (addrs.flatMap encodeAddr) := by
          apply reads_take_of_length
          rw [UInt32.toNat_ofNat', Nat.mod_eq_of_lt hlt, List.length_flatMap]
          simp [encodeAddr, leBytes_length]
        exact ⟨_, (reads_u32_length hlt).bind hdata.map⟩
      | stringMap pairs =>
        rw [← Option.some.inj hshape]
        obtain ⟨hcount, hpairs⟩ := hfits
        have hlt : pairs.length < 2 ^ 32 := by
          unfold maxDecodeContainerElements at hcount
          omega
        have hcast : (UInt32.ofNat pairs.length).toNat = pairs.length := by
          rw [UInt32.toNat_ofNat', Nat.mod_eq_of_lt hlt]
        have hdata : Reads (times decodePair (UInt32.ofNat pairs.length).toNat)
            (pairs.flatMap encodePair) pairs := by
          rw [hcast]
          exact reads_times fun pair hpair =>
            reads_decodePair (hpairs pair hpair).1 (hpairs pair hpair).2
        have hlimit : (UInt32.ofNat pairs.length).toNat ≤ maxDecodeContainerElements := by
          rw [hcast]
          exact hcount
        exact ⟨_, (reads_u32_length hlt).bind (Reads.require hlimit hdata.consumed.map)⟩
      | list items =>
        rw [← Option.some.inj hshape]
        obtain ⟨hcount, hitems⟩ := hfits
        obtain ⟨refs, hrefs⟩ :=
          exists_reads_times fun item hitem => htagged item (hitems item hitem)
        rw [FieldValue.encode, FieldValue.encodeItems_eq]
        exact ⟨_, (reads_decodeCount hcount).bind hrefs.map⟩
      | map pairs =>
        rw [← Option.some.inj hshape]
        obtain ⟨hcount, hpairs⟩ := hfits
        have hentry : ∀ pair ∈ pairs, ∃ ref, Reads (decodeEntry (decodeDepth budget))
            (FieldValue.encodeTagged pair.1 ++ FieldValue.encodeTagged pair.2) ref := by
          intro pair hpair
          obtain ⟨key, hkey⟩ := htagged pair.1 (hpairs pair hpair).1
          obtain ⟨item, hitem⟩ := htagged pair.2 (hpairs pair hpair).2
          exact ⟨_, hkey.bind hitem.map⟩
        obtain ⟨refs, hrefs⟩ := exists_reads_times hentry
        rw [FieldValue.encode, FieldValue.encodeEntries_eq]
        exact ⟨_, (reads_decodeCount hcount).bind hrefs.map⟩
      | none => exact hfits.elim

end Dial9.TraceFormat
