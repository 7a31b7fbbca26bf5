/-
# Decoding by index

The frame and field decoders as they index and slice the buffer: every position
is a machine word, every addition and slice may panic, and every recursive call
takes a frame of a bounded call stack. Nothing here is assumed to be in range.
-/

import Dial9.Lib.Cursor
import Dial9.TraceFormat.Decoder

namespace Dial9.TraceFormat

open Dial9.Lib Dial9.Lib.Cursor

namespace Leb128

/-- `x << shift` on `u64`. -/
def shiftLeft (x : UInt64) (shift : Nat) : Outcome Unit UInt64 :=
  if shift < 64 then .value (x <<< UInt64.ofNat shift) else .panic

/-- `shift += 7` on `u32`. -/
def addShift (shift : Nat) : Outcome Unit Nat :=
  if shift + 7 < 2 ^ 32 then .value (shift + 7) else .panic

/-- The loop of `leb128::decode_unsigned`. A loop that goes on after `turns`
turns counts as a panic. -/
def decodeLoop (data : Slice) : Nat → Nat → Nat → UInt64 → Outcome Unit (UInt64 × Nat)
  | 0, _, _, _ => .panic
  | turns + 1, pos, shift, result => do
      let byte ← Outcome.orStop data.bytes[pos]? ()
      let pos ← Outcome.add pos 1
      let group ← shiftLeft (byte &&& 0x7f).toUInt64 shift
      let shift ← addShift shift
      if byte &&& 0x80 = 0 then pure (result ||| group, pos)
      else if 10 ≤ pos then .stop ()
      else decodeLoop data turns pos shift (result ||| group)

/-- `leb128::decode_unsigned`. -/
def decodeUnsignedAt (data : Slice) : Outcome Unit (UInt64 × Nat) := decodeLoop data 10 0 0 0

end Leb128

section Pieces

variable {data : Slice} {α : Type}

/-- A `u32` length and that many bytes. -/
def bytesAt : Cursor data Bytes := do
  let len ← u32
  read len.toNat

/-- A length-prefixed payload that must be UTF-8. -/
def textAt : Cursor data Text := do
  let b ← bytesAt
  ofOption (Text.fromUtf8 b)

def pairAt : Cursor data (Bytes × Bytes) := do
  let k ← bytesAt
  let v ← bytesAt
  pure (k, v)

/-- A `u32` element count, refused above the container limit. -/
def countAt : Cursor data Nat := do
  let count ← u32
  require (count.toNat ≤ maxDecodeContainerElements)
  pure count.toNat

/-- A tag byte and a call for a value of the type it names. -/
def taggedAt (decode : FieldType → Cursor data α) : Cursor data α := do
  let tag ← byte
  let ft ← ofOption (FieldType.fromTag tag)
  decode ft

def entryAt (decode : FieldType → Cursor data α) : Cursor data (α × α) := do
  let key ← taggedAt decode
  let value ← taggedAt decode
  pure (key, value)

end Pieces

namespace FieldValue

/-- The arms of `FieldValue::decode_depth`, given the call for a nested value. -/
def decodeArmAt {data : Slice} (nested : FieldType → Cursor data FieldValue) :
    BaseType → Cursor data FieldValue
  | .i64 => do
      let v ← u64
      pure (i64 ⟨v⟩)
  | .f64 => do
      let v ← u64
      pure (f64 v)
  | .bool => do
      let b ← byte
      pure (bool (b != 0))
  | .string => do
      let b ← bytesAt
      pure (string (Text.fromUtf8Lossy b))
  | .bytes => do
      let b ← bytesAt
      pure (bytes b)
  | .pooledString => do
      let id ← u32
      pure (pooledString id)
  | .pooledStackFrames => do
      let id ← u32
      pure (pooledStackFrames id)
  | .varint => do
      let v ← callUsing Leb128.decodeUnsignedAt
      pure (varint v)
  | .u8 => do
      let v ← byte
      pure (varint v.toUInt64)
  | .u16 => do
      let v ← u16
      pure (varint v.toUInt64)
  | .u32 => do
      let v ← u32
      pure (varint v.toUInt64)
  | .stackFrames => do
      let count ← countAt
      let addrs ← times u64 count
      pure (stackFrames addrs)
  | .stringMap => do
      let count ← countAt
      let pairs ← times pairAt count
      pure (stringMap pairs)
  | .dynamicList => do
      let count ← countAt
      let items ← times (taggedAt nested) count
      pure (list items)
  | .dynamicMap => do
      let count ← countAt
      let pairs ← times (entryAt nested) count
      pure (map pairs)

/-- `FieldValue::decode_depth` on a call stack with room for so many calls. -/
def decodeDepthAt : Nat → FieldType → Slice → Nat → Outcome Unit (FieldValue × Slice)
  | 0, _, _, _ => .panic
  | room + 1, fieldType, data, depth =>
    let nested : FieldType → Cursor data FieldValue := fun ft => call fun rest => do
      let deeper ← Outcome.add depth 1
      decodeDepthAt room ft rest deeper
    if maxDecodeRecursionDepth < depth then .stop ()
    else
      match fieldType with
      | .plain base => leave data 0 (decodeArmAt nested base)
      | .optional .dynamicList => leave data 0 (decodeArmAt nested .dynamicList)
      | .optional .dynamicMap => leave data 0 (decodeArmAt nested .dynamicMap)
      -- The other optional types take one more call.
      | .optional base => decodeDepthAt room (.plain base) data depth

end FieldValue

namespace FieldValueRef

section Pieces

variable {d : Slice}

/-- A `u32` length and that many bytes, with the checked sums of the string map. -/
def checkedPieceAt : Cursor d Bytes := fun pos => do
  let stop ← Outcome.orStop (checkedAddWord pos 4) ()
  let len ← Outcome.orStop (d.get pos stop) ()
  let pos ← Outcome.orStop (checkedAddWord pos 4) ()
  let pos ← Outcome.orStop (checkedAddWord pos (leNat len)) ()
  let start ← Outcome.orStop (checkedSubWord pos (leNat len)) ()
  let piece ← Outcome.orStop (d.get start pos) ()
  pure (piece, pos)

def checkedPairAt : Cursor d (Bytes × Bytes) := do
  let k ← checkedPieceAt
  let v ← checkedPieceAt
  pure (k, v)

/-- `count * 8` bytes from the position, checked and then sliced. -/
def packedAt (count : Nat) : Cursor d Bytes := fun start => do
  let dataLen ← Outcome.mul count 8
  let pos ← Outcome.add start dataLen
  let _ ← Outcome.orStop (d.get start pos) ()
  let data ← d.range start pos
  pure (data, pos)

end Pieces

/-- The arms of `FieldValueRef::decode_depth`, given the call for a nested value. -/
def decodeArmAt {d : Slice} (nested : FieldType → Cursor d FieldValueRef) :
    BaseType → Cursor d FieldValueRef
  | .i64 => do
      let v ← u64
      pure (i64 ⟨v⟩)
  | .f64 => do
      let v ← u64
      pure (f64 v)
  | .bool => do
      let b ← byte
      pure (bool (b != 0))
  | .string => do
      let v ← textAt
      pure (string v)
  | .bytes => do
      let b ← bytesAt
      pure (bytes b)
  | .pooledString => do
      let id ← u32
      pure (pooledString id)
  | .pooledStackFrames => do
      let id ← u32
      pure (pooledStackFrames id)
  | .varint => do
      let v ← callUsing Leb128.decodeUnsignedAt
      pure (varint v)
  | .u8 => do
      let v ← byte
      pure (varint v.toUInt64)
  | .u16 => do
      let v ← u16
      pure (varint v.toUInt64)
  | .u32 => do
      let v ← u32
      pure (varint v.toUInt64)
  | .stackFrames => do
      let count ← u32
      let data ← packedAt count.toNat
      pure (stackFrames ⟨data, count⟩)
  | .stringMap => do
      let count ← u32
      require (count.toNat ≤ maxDecodeContainerElements)
      let data ← passed (times checkedPairAt count.toNat)
      pure (stringMap ⟨data, count⟩)
  | .dynamicList => do
      let count ← countAt
      let items ← times (taggedAt nested) count
      pure (list items)
  | .dynamicMap => do
      let count ← countAt
      let pairs ← times (entryAt nested) count
      pure (map pairs)

/-- `FieldValueRef::decode_depth` on a call stack with room for so many calls. -/
def decodeDepthAt : Nat → FieldType → Slice → Nat → Nat → Outcome Unit (FieldValueRef × Nat)
  | 0, _, _, _, _ => .panic
  | room + 1, fieldType, data, offset, depth =>
    let nested : (d : Slice) → FieldType → Cursor d FieldValueRef := fun _ ft =>
      callAt offset fun start => do
        let deeper ← Outcome.add depth 1
        decodeDepthAt room ft data start deeper
    if maxDecodeRecursionDepth < depth then .stop ()
    else
      match data.getFrom offset with
      | Option.none => .stop ()
      | some d =>
        match fieldType with
        | .plain base => decodeArmAt (nested d) base 0
        | .optional .dynamicList => decodeArmAt (nested d) .dynamicList 0
        | .optional .dynamicMap => decodeArmAt (nested d) .dynamicMap 0
        -- The other optional types take one more call.
        | .optional base => decodeDepthAt room (.plain base) data offset depth

end FieldValueRef

/-- Calls that are open at once in the worst case: at every depth one for an
optional type and one for its inner type, and a last one that is refused. -/
def decodeCallStack : Nat := 2 * (maxDecodeRecursionDepth + 1) + 1

/-- `FieldValue::decode`, on that much call stack. -/
def FieldValue.decodeAt (fieldType : FieldType) (data : Slice) :
    Outcome Unit (FieldValue × Slice) :=
  decodeDepthAt decodeCallStack fieldType data 0

/-- `FieldValueRef::decode`, on that much call stack. -/
def FieldValueRef.decodeAt (fieldType : FieldType) (data : Slice) (offset : Nat) :
    Outcome Unit (FieldValueRef × Nat) :=
  decodeDepthAt decodeCallStack fieldType data offset 0

/-! ## Frames -/

/-- `decode_header`. -/
def decodeHeaderAt (data : Slice) : Outcome Unit UInt8 := do
  let head ← Outcome.orStop (data.get 0 4) ()
  if head ≠ magic then .stop ()
  else Outcome.orStop data.bytes[4]? ()

/-- `decode_u24_le`, with its three indexed bytes. -/
def decodeU24LeAt (data : Slice) : Outcome Unit Nat := do
  let b ← Outcome.orStop (data.get 0 3) ()
  match b with
  | [b₀, b₁, b₂] => pure (leNat [b₀, b₁, b₂])
  | _ => .panic

section Frames

variable {data : Slice} {V F : Type}

def nameAt : Cursor data Text := do
  let len ← u16
  let b ← read len.toNat
  ofOption (Text.fromUtf8 b)

def fieldDefAt : Cursor data FieldDef := do
  let name ← nameAt
  let rawTag ← byte
  let fieldType ← ofOption (FieldType.fromTag rawTag)
  pure ⟨name, fieldType⟩

/-- `decode_schema_frame`, after the tag. -/
def schemaFrameAt : Cursor data (Frame V F) := do
  let typeId ← u16
  let name ← nameAt
  let hasTimestamp ← byte
  let fieldCount ← u16
  let fields ← times fieldDefAt fieldCount.toNat
  pure (.schema typeId ⟨name, fields, []⟩ (hasTimestamp != 0))

/-- The packed delta at the position, added to the base. -/
def deltaAt (timestampBaseNs : UInt64) : Cursor data UInt64 := fun pos => do
  let rest ← data.suffix pos
  let delta ← decodeU24LeAt rest
  let pos ← Outcome.add pos 3
  let timestampNs ← Outcome.orStop (checkedAdd timestampBaseNs delta) ()
  pure (timestampNs, pos)

def timestampAt (info : SchemaInfo) (timestampBaseNs : UInt64) : Cursor data UInt64 :=
  if info.hasTimestampOnWire then deltaAt timestampBaseNs else pure timestampBaseNs

/-- What stands before an event's fields: type id, schema and timestamp. -/
def eventHeadAt (schemaLookup : WireTypeId → Option SchemaInfo) (timestampBaseNs : UInt64) :
    Cursor data (WireTypeId × SchemaInfo × UInt64) := do
  let typeId ← u16
  let info ← ofOption (schemaLookup typeId)
  let timestampNs ← timestampAt info timestampBaseNs
  pure (typeId, info, timestampNs)

/-- One field of `decode_event_frame`, on what remains of the buffer. -/
def fieldAt (tag : UInt8) (remaining : Slice) : Outcome Unit (FieldValue × Slice) := do
  let ft ← Outcome.orStop (FieldType.fromTag tag) ()
  if ft.isOptional then
    let present ← Outcome.orStop remaining.bytes.head? ()
    let remaining ← remaining.suffix 1
    if present = 0x00 then pure (.none, remaining)
    else FieldValue.decodeAt (.plain ft.inner) remaining
  else FieldValue.decodeAt ft remaining

/-- The field loop of `decode_event_frame`. -/
def fieldsAt : List UInt8 → Slice → Outcome Unit (List FieldValue × Slice)
  | [], remaining => .value ([], remaining)
  | tag :: tags, remaining => do
      let (value, remaining) ← fieldAt tag remaining
      let (values, remaining) ← fieldsAt tags remaining
      pure (value :: values, remaining)

/-- `decode_event_frame`. -/
def decodeEventFrameAt (schemaLookup : WireTypeId → Option SchemaInfo) (timestampBaseNs : UInt64)
    (data : Slice) : Outcome Unit (Frame FieldValue (List UInt64) × Nat) := do
  let ((typeId, info, timestampNs), pos) ←
    (eventHeadAt schemaLookup timestampBaseNs : Cursor data _) 1
  let remaining ← data.suffix pos
  let (values, remaining) ← fieldsAt info.fieldTags remaining
  let consumed ← Outcome.sub data.length remaining.length
  pure (.event typeId timestampNs values, consumed)

/-- A call of `FieldValueRef::decode` at the position. -/
def valueRefAt (ft : FieldType) : Cursor data FieldValueRef := fun pos => do
  let (value, consumed) ← FieldValueRef.decodeAt ft data pos
  let pos ← Outcome.add pos consumed
  pure (value, pos)

/-- One field of `decode_event_frame_ref`. -/
def fieldRefAt (tag : UInt8) : Cursor data FieldValueRef := do
  let ft ← ofOption (FieldType.fromTag tag)
  if ft.isOptional then
    let present ← byte
    if present = 0x00 then pure .none else valueRefAt (.plain ft.inner)
  else valueRefAt ft

/-- `decode_event_frame_ref`, after the tag. -/
def eventFrameRefAt (schemaLookup : WireTypeId → Option SchemaInfo) (timestampBaseNs : UInt64) :
    Cursor data (Frame FieldValueRef Bytes) := do
  let (typeId, info, timestampNs) ← eventHeadAt schemaLookup timestampBaseNs
  let values ← forEach fieldRefAt info.fieldTags
  pure (.event typeId timestampNs values)

/-- `count.min((data.len() - pos) / width)`: the capacity asked for in advance. -/
def capacityAt (count width : Nat) : Cursor data Nat := fun pos => do
  let left ← Outcome.sub data.length pos
  let entries ← Outcome.div left width
  pure (min count entries, pos)

def poolEntryAt : Cursor data PoolEntry := do
  let poolId ← u32
  let b ← bytesAt
  pure ⟨poolId, b⟩

/-- `decode_string_pool_frame` and its borrowing twin, after the tag. -/
def stringPoolFrameAt : Cursor data (Frame V F) := do
  let count ← u32
  let _ ← capacityAt count.toNat 8
  let entries ← times poolEntryAt count.toNat
  pure (.stringPool entries)

/-- The frames of an owned pooled stack: `checked_mul`, `checked_add`, and the
words of the bytes between. -/
def stackFramesAt (frameCount : Nat) : Cursor data (List UInt64) := fun pos => do
  let bytes ← Outcome.orStop (checkedMulWord frameCount 8) ()
  let stop ← Outcome.orStop (checkedAddWord pos bytes) ()
  let frameBytes ← Outcome.orStop (data.get pos stop) ()
  let pos ← Outcome.add pos bytes
  pure (stackFrameIter (frameBytes.length / 8) frameBytes, pos)

/-- The packed frames of a borrowed pooled stack. -/
def stackFramesRefAt (frameCount : Nat) : Cursor data Bytes := fun pos => do
  let bytes ← Outcome.orStop (checkedMulWord frameCount 8) ()
  (read bytes : Cursor data Bytes) pos

def stackPoolEntryAt (frames : Nat → Cursor data F) : Cursor data (StackPoolEntry F) := do
  let poolId ← u32
  let frameCount ← u32
  let frames ← frames frameCount.toNat
  pure ⟨poolId, frames⟩

/-- `decode_stack_pool_frame` and its borrowing twin, after the tag. -/
def stackPoolFrameAt (frames : Nat → Cursor data F) : Cursor data (Frame V F) := do
  let count ← u32
  let _ ← capacityAt count.toNat 16
  let entries ← times (stackPoolEntryAt frames) count.toNat
  pure (.stackPool entries)

def annotationEntryAt : Cursor data FieldAnnotation := do
  let fieldIndex ← u16
  let key ← nameAt
  let value ← textAt
  pure ⟨fieldIndex, key, value⟩

/-- `decode_schema_annotations_frame`, after the tag. -/
def schemaAnnotationsFrameAt : Cursor data (Frame V F) := do
  let typeIdRaw ← callUsing Leb128.decodeUnsignedAt
  let count ← u16
  let annotations ← times annotationEntryAt count.toNat
  pure (.schemaAnnotations typeIdRaw.toUInt16 annotations)

def timestampResetFrameAt : Cursor data (Frame V F) := do
  let ts ← u64
  pure (.timestampReset ts)

/-- `decode_frame`. -/
def decodeFrameAt (schemaLookup : WireTypeId → Option SchemaInfo) (timestampBaseNs : UInt64)
    (data : Slice) : Outcome Unit (Frame FieldValue (List UInt64) × Nat) := do
  let tag ← Outcome.orStop data.bytes.head? ()
  match FrameTag.ofByte tag with
  | some .schema => (schemaFrameAt : Cursor data _) 1
  | some .event => decodeEventFrameAt schemaLookup timestampBaseNs data
  | some .stringPool => (stringPoolFrameAt : Cursor data _) 1
  | some .stackPool => (stackPoolFrameAt stackFramesAt : Cursor data _) 1
  | some .timestampReset => (timestampResetFrameAt : Cursor data _) 1
  | some .schemaAnnotations => (schemaAnnotationsFrameAt : Cursor data _) 1
  | none => .stop ()

/-- `decode_frame_ref`. -/
def decodeFrameRefAt (schemaLookup : WireTypeId → Option SchemaInfo) (timestampBaseNs : UInt64)
    (data : Slice) : Outcome Unit (Frame FieldValueRef Bytes × Nat) := do
  let tag ← Outcome.orStop data.bytes.head? ()
  match FrameTag.ofByte tag with
  | some .schema => (schemaFrameAt : Cursor data _) 1
  | some .event => (eventFrameRefAt schemaLookup timestampBaseNs : Cursor data _) 1
  | some .stringPool => (stringPoolFrameAt : Cursor data _) 1
  | some .stackPool => (stackPoolFrameAt stackFramesRefAt : Cursor data _) 1
  | some .timestampReset => (timestampResetFrameAt : Cursor data _) 1
  | some .schemaAnnotations => (schemaAnnotationsFrameAt : Cursor data _) 1
  | none => .stop ()

end Frames

end Dial9.TraceFormat
