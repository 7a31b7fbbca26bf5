/-
# Frame codec

The frames of `codec.rs`: their encoders, and their decoders as readers that
start at the tag byte. The owned and the zero-copy frame decoders have the same
shape and differ in how a field value and the addresses of a pooled stack are
read; `Flavour` carries that difference.
-/

import Dial9.TraceFormat.Schema
import Dial9.TraceFormat.ZeroCopy

namespace Dial9.TraceFormat

open Dial9.Lib Dial9.Lib.Reader

/-- `TRC\0`. -/
def magic : Bytes := [0x54, 0x52, 0x43, 0x00]

/-- `VERSION`. -/
def version : UInt8 := 1

/-- `HEADER_SIZE`. -/
def headerSize : Nat := 5

/-- The frame tags of the wire. -/
inductive FrameTag
  | schema
  | event
  | stringPool
  | stackPool
  | timestampReset
  | schemaAnnotations
  deriving DecidableEq

namespace FrameTag

def byte : FrameTag → UInt8
  | schema => 0x01
  | event => 0x02
  | stringPool => 0x03
  | stackPool => 0x04
  | timestampReset => 0x05
  | schemaAnnotations => 0x06

def ofByte (b : UInt8) : Option FrameTag :=
  match b with
  | 0x01 => some schema
  | 0x02 => some event
  | 0x03 => some stringPool
  | 0x04 => some stackPool
  | 0x05 => some timestampReset
  | 0x06 => some schemaAnnotations
  | _ => none

@[simp]
theorem ofByte_byte (tag : FrameTag) : ofByte tag.byte = some tag := by
  cases tag <;> rfl

theorem byte_of_ofByte {b : UInt8} {tag : FrameTag} (h : ofByte b = some tag) : b = tag.byte := by
  unfold ofByte at h
  split at h
  case h_7 => cases h
  all_goals
    obtain rfl := Option.some.inj h
    rfl

theorem byte_ne_magic (tag : FrameTag) : tag.byte ≠ 0x54 := by
  cases tag <;> decide

end FrameTag

/-- `MAX_TIMESTAMP_DELTA_NS`: the largest delta three bytes hold. -/
def maxTimestampDeltaNs : Nat := 0xFFFFFF

def encodeU24Le (value : Nat) : Bytes := leBytes 3 value

def decodeU24Le : Reader Nat := word 3

structure PoolEntry where
  poolId : UInt32
  data : Bytes
  deriving DecidableEq

/-- A pooled stack; the zero-copy entry keeps its addresses packed. -/
structure StackPoolEntry (F : Type) where
  poolId : UInt32
  frames : F
  deriving DecidableEq

/-- `Frame` and `FrameRef`, over the field values and the stack entries they carry. -/
inductive Frame (V F : Type)
  | schema (typeId : WireTypeId) (entry : SchemaEntry) (hasTimestampOnWire : Bool)
  | event (typeId : WireTypeId) (timestampNs : UInt64) (values : List V)
  | stringPool (entries : List PoolEntry)
  | stackPool (entries : List (StackPoolEntry F))
  | timestampReset (ts : UInt64)
  | schemaAnnotations (typeId : WireTypeId) (annotations : List FieldAnnotation)

/-- The tag a frame is written under. -/
def Frame.tag {V F : Type} : Frame V F → FrameTag
  | schema _ _ _ => .schema
  | event _ _ _ => .event
  | stringPool _ => .stringPool
  | stackPool _ => .stackPool
  | timestampReset _ => .timestampReset
  | schemaAnnotations _ _ => .schemaAnnotations

/-- What decoding an event needs of its schema. -/
structure SchemaInfo where
  fieldTags : List UInt8
  hasTimestampOnWire : Bool
  deriving DecidableEq

/-! ## Encoding -/

def encodeHeader : Bytes := magic ++ [version]

/-- A length as `u16` followed by the bytes, as schema and annotation names are written. -/
def encodeName (b : Bytes) : Bytes := leBytes 2 b.length ++ b

def encodeFieldDef (field : FieldDef) : Bytes :=
  encodeName field.name.bytes ++ [field.fieldType.tag]

/-- `encode_schema`: the field count is cut to 16 bits. -/
def encodeSchema (typeId : WireTypeId) (entry : SchemaEntry) : Bytes :=
  [FrameTag.schema.byte] ++ leBytes 2 typeId.toNat ++ encodeName entry.name.bytes ++ [1] ++
    leBytes 2 entry.fields.length ++ entry.fields.flatMap encodeFieldDef

def encodePoolEntry (entry : PoolEntry) : Bytes :=
  leBytes 4 entry.poolId.toNat ++ encodeBytes entry.data

def encodeStringPool (entries : List PoolEntry) : Bytes :=
  [FrameTag.stringPool.byte] ++ leBytes 4 entries.length ++ entries.flatMap encodePoolEntry

def encodeStackPoolEntry (entry : StackPoolEntry (List UInt64)) : Bytes :=
  leBytes 4 entry.poolId.toNat ++ leBytes 4 entry.frames.length ++ entry.frames.flatMap encodeAddr

def encodeStackPool (entries : List (StackPoolEntry (List UInt64))) : Bytes :=
  [FrameTag.stackPool.byte] ++ leBytes 4 entries.length ++ entries.flatMap encodeStackPoolEntry

def encodeAnnotationEntry (a : FieldAnnotation) : Bytes :=
  leBytes 2 a.fieldIndex.toNat ++ encodeName a.key.bytes ++ encodeBytes a.value.bytes

/-- `encode_schema_annotations`: more than `u16::MAX` annotations are refused
before anything is written. -/
def encodeSchemaAnnotations (typeId : WireTypeId) (annotations : List FieldAnnotation) :
    Except String Bytes :=
  if annotations.length < 2 ^ 16 then
    .ok ([FrameTag.schemaAnnotations.byte] ++ Leb128.encodeUnsigned typeId.toUInt64 ++
      leBytes 2 annotations.length ++ annotations.flatMap encodeAnnotationEntry)
  else .error "annotation count exceeds u16::MAX"

/-- `EventEncoder::write_field_value`: an optional field is prefixed by a presence byte. -/
def writeFieldValue (value : FieldValue) (fieldType : FieldType) : Bytes :=
  if fieldType.isOptional then
    match value with
    | .none => [0x00]
    | other => 0x01 :: other.encode
  else value.encode

/-! ## Decoding -/

/-- The version of a header, if the bytes start with one. -/
def decodeHeader : Reader UInt8 := do
  let m ← take 4
  require (m = magic)
  byte

/-- A `u16` length and that many bytes, which must be UTF-8. -/
def decodeName : Reader Text := do
  let len ← u16
  let b ← take len.toNat
  ofOption (Text.fromUtf8 b)

def decodeFieldDef : Reader FieldDef := do
  let name ← decodeName
  let tag ← byte
  let fieldType ← ofOption (FieldType.fromTag tag)
  pure ⟨name, fieldType⟩

def decodePoolEntry : Reader PoolEntry := do
  let poolId ← u32
  let data ← decodeBytes
  pure ⟨poolId, data⟩

def decodeAnnotationEntry : Reader FieldAnnotation := do
  let fieldIndex ← u16
  let key ← decodeName
  let value ← decodeText
  pure ⟨fieldIndex, key, value⟩

/-- `u64::checked_add`. -/
def checkedAdd (base : UInt64) (delta : Nat) : Option UInt64 :=
  if base.toNat + delta < 2 ^ 64 then some (UInt64.ofNat (base.toNat + delta)) else none

theorem checkedAdd_zero (base : UInt64) : checkedAdd base 0 = some base := by
  have hlt := base.toNat_lt
  simp [checkedAdd, hlt]

theorem checkedAdd_sub {base ts : UInt64} (h : base ≤ ts) :
    checkedAdd base (ts - base).toNat = some ts := by
  have hsub := UInt64.toNat_sub_of_le _ _ h
  have hle := UInt64.le_iff_toNat_le.mp h
  have hsum : base.toNat + (ts - base).toNat = ts.toNat := by omega
  simp [checkedAdd, hsum, ts.toNat_lt]

/-- How a decoder reads field values and pooled stacks. -/
structure Flavour (V F : Type) where
  decodeValue : FieldType → Reader V
  absent : V
  /-- The addresses of a pooled stack, given their count. -/
  decodeFrames : Nat → Reader F
  toStackFrames : F → List UInt64

/-- Owned decoding. The whole payload of a pooled stack is validated before it
is split, so reading address by address accepts the same inputs. -/
def owned : Flavour FieldValue (List UInt64) where
  decodeValue := FieldValue.decode
  absent := .none
  decodeFrames := fun count => times u64 count
  toStackFrames := id

/-- Zero-copy decoding: a pooled stack stays packed until it is iterated. -/
def zeroCopy : Flavour FieldValueRef Bytes where
  decodeValue := FieldValueRef.decode
  absent := .none
  decodeFrames := fun count => take (count * 8)
  toStackFrames := fun framesLe => stackFrameIter (framesLe.length / 8) framesLe

@[simp]
theorem owned_decodeValue : owned.decodeValue = FieldValue.decode := rfl

@[simp]
theorem zeroCopy_decodeValue : zeroCopy.decodeValue = FieldValueRef.decode := rfl

section Frames

variable {V F : Type} (flavour : Flavour V F)

def decodeSchemaFrame : Reader (Frame V F) := do
  let typeId ← u16
  let name ← decodeName
  let hasTimestamp ← byte
  let fieldCount ← u16
  let fields ← times decodeFieldDef fieldCount.toNat
  pure (.schema typeId ⟨name, fields, []⟩ (hasTimestamp != 0))

/-- One field of an event: its raw tag decides the type and the presence prefix. -/
def decodeField (tag : UInt8) : Reader V := do
  let fieldType ← ofOption (FieldType.fromTag tag)
  if fieldType.isOptional then do
    let present ← byte
    if present = 0x00 then pure flavour.absent
    else flavour.decodeValue (.plain fieldType.inner)
  else flavour.decodeValue fieldType

/-- The absolute timestamp of an event. A schema without a packed timestamp
uses the current base. -/
def decodeTimestamp (info : SchemaInfo) (timestampBaseNs : UInt64) : Reader UInt64 :=
  if info.hasTimestampOnWire then do
    let delta ← decodeU24Le
    ofOption (checkedAdd timestampBaseNs delta)
  else pure timestampBaseNs

def decodeEventFrameWith (schemaLookup : WireTypeId → Option SchemaInfo)
    (timestampBaseNs : UInt64) : Reader (Frame V F) := do
  let typeId ← u16
  let info ← ofOption (schemaLookup typeId)
  let timestampNs ← decodeTimestamp info timestampBaseNs
  let values ← forEach (decodeField flavour) info.fieldTags
  pure (.event typeId timestampNs values)

def decodeStringPoolFrame : Reader (Frame V F) := do
  let count ← u32
  let entries ← times decodePoolEntry count.toNat
  pure (.stringPool entries)

def decodeStackPoolEntryWith : Reader (StackPoolEntry F) := do
  let poolId ← u32
  let frameCount ← u32
  let frames ← flavour.decodeFrames frameCount.toNat
  pure ⟨poolId, frames⟩

def decodeStackPoolFrameWith : Reader (Frame V F) := do
  let count ← u32
  let entries ← times (decodeStackPoolEntryWith flavour) count.toNat
  pure (.stackPool entries)

/-- The type id is a varint cut to 16 bits. -/
def decodeSchemaAnnotationsFrame : Reader (Frame V F) := do
  let typeIdRaw ← Leb128.decodeUnsigned
  let count ← u16
  let annotations ← times decodeAnnotationEntry count.toNat
  pure (.schemaAnnotations typeIdRaw.toUInt16 annotations)

/-- The body of a frame, after its tag. -/
def decodeBodyWith (schemaLookup : WireTypeId → Option SchemaInfo) (timestampBaseNs : UInt64) :
    FrameTag → Reader (Frame V F)
  | .schema => decodeSchemaFrame
  | .event => decodeEventFrameWith flavour schemaLookup timestampBaseNs
  | .stringPool => decodeStringPoolFrame
  | .stackPool => decodeStackPoolFrameWith flavour
  | .timestampReset => do
      let ts ← u64
      pure (.timestampReset ts)
  | .schemaAnnotations => decodeSchemaAnnotationsFrame

def decodeFrameWith (schemaLookup : WireTypeId → Option SchemaInfo) (timestampBaseNs : UInt64) :
    Reader (Frame V F) := do
  let b ← byte
  let tag ← ofOption (FrameTag.ofByte b)
  decodeBodyWith flavour schemaLookup timestampBaseNs tag

end Frames

/-- `decode_frame`. -/
def decodeFrame := decodeFrameWith owned

/-- `decode_frame_ref`. -/
def decodeFrameRef := decodeFrameWith zeroCopy

/-! ## Locality -/

/-- A flavour whose readers depend only on what they consume. -/
structure Flavour.Local {V F : Type} (flavour : Flavour V F) : Prop where
  decodeValue : ∀ ft, IsLocal (flavour.decodeValue ft)
  decodeFrames : ∀ n, IsLocal (flavour.decodeFrames n)

theorem owned_local : owned.Local where
  decodeValue := FieldValue.isLocal_decode
  decodeFrames n := isLocal_u64.times n

theorem zeroCopy_local : zeroCopy.Local where
  decodeValue := FieldValueRef.isLocal_decode
  decodeFrames _ := isLocal_take _

theorem isLocal_decodeHeader : IsLocal decodeHeader :=
  (isLocal_take 4).bind fun _ => (isLocal_require _).bind fun _ => isLocal_byte

theorem isLocal_decodeName : IsLocal decodeName :=
  isLocal_u16.bind fun _ => (isLocal_take _).bind fun _ => isLocal_ofOption _

theorem isLocal_decodeFieldDef : IsLocal decodeFieldDef :=
  isLocal_decodeName.bind fun _ => isLocal_byte.bind fun _ => (isLocal_ofOption _).map _

theorem isLocal_decodePoolEntry : IsLocal decodePoolEntry :=
  isLocal_u32.bind fun _ => isLocal_decodeBytes.map _

theorem isLocal_decodeAnnotationEntry : IsLocal decodeAnnotationEntry :=
  isLocal_u16.bind fun _ => isLocal_decodeName.bind fun _ => isLocal_decodeText.map _

section Frames

variable {V F : Type} {flavour : Flavour V F}

theorem isLocal_decodeField (h : flavour.Local) (tag : UInt8) :
    IsLocal (decodeField flavour tag) := by
  refine (isLocal_ofOption _).bind fun ft => ?_
  split
  · refine isLocal_byte.bind fun b => ?_
    split
    · exact isLocal_pure _
    · exact h.decodeValue _
  · exact h.decodeValue _

theorem isLocal_decodeTimestamp (info : SchemaInfo) (base : UInt64) :
    IsLocal (decodeTimestamp info base) := by
  unfold decodeTimestamp
  split
  · exact (isLocal_word 3).bind fun _ => isLocal_ofOption _
  · exact isLocal_pure _

theorem isLocal_decodeBodyWith (h : flavour.Local) (lookup : WireTypeId → Option SchemaInfo)
    (base : UInt64) (tag : FrameTag) : IsLocal (decodeBodyWith flavour lookup base tag) := by
  cases tag with
  | schema =>
    exact isLocal_u16.bind fun _ => isLocal_decodeName.bind fun _ => isLocal_byte.bind fun _ =>
      isLocal_u16.bind fun _ => (isLocal_decodeFieldDef.times _).map _
  | event =>
    exact isLocal_u16.bind fun _ => (isLocal_ofOption _).bind fun _ =>
      (isLocal_decodeTimestamp _ _).bind fun _ =>
        (isLocal_forEach (isLocal_decodeField h) _).map _
  | stringPool =>
    exact isLocal_u32.bind fun _ => (isLocal_decodePoolEntry.times _).map _
  | stackPool =>
    have hentry : IsLocal (decodeStackPoolEntryWith flavour) :=
      isLocal_u32.bind fun _ => isLocal_u32.bind fun _ => (h.decodeFrames _).map _
    exact isLocal_u32.bind fun _ => (hentry.times _).map _
  | timestampReset => exact isLocal_u64.map _
  | schemaAnnotations =>
    exact Leb128.isLocal_decodeUnsigned.bind fun _ => isLocal_u16.bind fun _ =>
      (isLocal_decodeAnnotationEntry.times _).map _

theorem isLocal_decodeFrameWith (h : flavour.Local) (lookup : WireTypeId → Option SchemaInfo)
    (base : UInt64) : IsLocal (decodeFrameWith flavour lookup base) :=
  isLocal_byte.bind fun _ => (isLocal_ofOption _).bind fun tag =>
    isLocal_decodeBodyWith h lookup base tag

theorem yields_decodeBodyWith (flavour : Flavour V F) (lookup : WireTypeId → Option SchemaInfo)
    (base : UInt64) (tag : FrameTag) :
    Yields (fun frame => frame.tag = tag) (decodeBodyWith flavour lookup base tag) := by
  cases tag with
  | schema =>
    exact .bind fun _ => .bind fun _ => .bind fun _ => .bind fun _ => .bind fun _ =>
      yields_pure rfl
  | event => exact .bind fun _ => .bind fun _ => .bind fun _ => .bind fun _ => yields_pure rfl
  | stringPool | stackPool => exact .bind fun _ => .bind fun _ => yields_pure rfl
  | timestampReset => exact .bind fun _ => yields_pure rfl
  | schemaAnnotations => exact .bind fun _ => .bind fun _ => .bind fun _ => yields_pure rfl

theorem decodeFrameWith_cons (flavour : Flavour V F) (lookup : WireTypeId → Option SchemaInfo)
    (base : UInt64) (b : UInt8) (input : Bytes) :
    decodeFrameWith flavour lookup base (b :: input) =
      (FrameTag.ofByte b).bind fun tag => decodeBodyWith flavour lookup base tag input := by
  simp only [decodeFrameWith, bind_apply, byte]
  cases FrameTag.ofByte b with
  | none | some _ => rfl

theorem decodeFrameWith_length_lt (h : flavour.Local) {lookup : WireTypeId → Option SchemaInfo}
    {base : UInt64} {input rest : Bytes} {frame : Frame V F}
    (hdecode : decodeFrameWith flavour lookup base input = some (frame, rest)) :
    rest.length < input.length := by
  obtain ⟨b, afterTag, hbyte, hrest⟩ := bind_eq_some.mp hdecode
  have hbody : rest.length ≤ afterTag.length :=
    ((isLocal_ofOption _).bind fun tag => isLocal_decodeBodyWith h lookup base tag).length_le hrest
  cases input with
  | nil => simp [byte] at hbyte
  | cons b' tail =>
    obtain ⟨rfl, rfl⟩ : b' = b ∧ tail = afterTag := by simpa [byte] using hbyte
    simp only [List.length_cons]
    omega

end Frames

end Dial9.TraceFormat
