/-
# The encoder

`Encoder` over a `Vec<u8>`, whose writes cannot fail. An operation returns its
result with the encoder it leaves behind, also on failure: bytes written before
an error stay written. Arithmetic overflow and a failed `expect` are panics.

A schema handle is an `Arc`. The identity cache pins the allocations it holds,
so an address determines the entry while it is cached; the model keys the
cache by the handle, address and entry together.
-/

import Dial9.TraceFormat.Codec
import Dial9.TraceFormat.TraceEvent

namespace Dial9.TraceFormat

open Dial9.Lib

/-- A schema handle: the shared entry and the address of its allocation. -/
structure Schema where
  identity : Nat
  entry : SchemaEntry
  deriving DecidableEq

/-- Schemas are found by name, or by the Rust type that derives them. -/
inductive SchemaKey
  | name (name : Text)
  | rustType (typeId : Nat)
  deriving DecidableEq

/-- The errors of the encoder's operations. -/
inductive EncodeError
  /-- "corrupted internal state. {wire_id} in schema_ids but not in registry." -/
  | corrupted (wireId : WireTypeId)
  /-- "schema already registered with different definition: {name}" -/
  | differentDefinition (name : Text)
  /-- "value count ({got}) does not match schema field count ({expected}) for schema '{name}'" -/
  | valueCount (got expected : Nat) (name : Text)
  /-- "annotation count exceeds u16::MAX" -/
  | annotations (message : String)
  /-- "wire id {id} collision: {message}" -/
  | collision (id : UInt16) (message : String)
  deriving DecidableEq

/-- How an operation fails. -/
inductive Fault
  | error (e : EncodeError)
  | panic
  deriving DecidableEq

structure Encoder where
  out : Bytes
  timestampBaseNs : UInt64
  registry : SchemaRegistry
  stringPool : AList fun _ : Text => UInt32
  nextPoolId : UInt32
  stackPool : AList fun _ : List UInt64 => UInt32
  nextStackPoolId : UInt32
  schemaIds : AList fun _ : SchemaKey => WireTypeId
  dynamicSchemaCache : AList fun _ : Schema => WireTypeId
  /-- Wire id plus one by type slot; zero is unset. -/
  slotCache : List UInt32
  /-- The bitset of slots whose schema frame was emitted. -/
  registeredIds : UInt16 → Bool

namespace Encoder

/-- An operation's result and the encoder after it. -/
abbrev Result (α : Type) := Except Fault α × Encoder

/-- `Encoder::new`. -/
def new : Encoder where
  out := encodeHeader
  timestampBaseNs := 0
  registry := .new
  stringPool := ∅
  nextPoolId := 0
  stackPool := ∅
  nextStackPoolId := 0
  schemaIds := ∅
  dynamicSchemaCache := ∅
  slotCache := []
  registeredIds := fun _ => false

/-- `reset_to` on an empty writer: the bytes written so far, and the encoder
for the next batch. The slot cache keeps its length. -/
def resetTo (e : Encoder) : Bytes × Encoder :=
  (e.out,
    { out := encodeHeader
      timestampBaseNs := 0
      registry := .new
      stringPool := ∅
      nextPoolId := 0
      stackPool := ∅
      nextStackPoolId := 0
      schemaIds := ∅
      dynamicSchemaCache := ∅
      slotCache := e.slotCache.map fun _ => 0
      registeredIds := fun _ => false })

/-- `writer.write_all`. -/
def write (e : Encoder) (bytes : Bytes) : Encoder := { e with out := e.out ++ bytes }

/-- Write the schema frame and, when there are annotations, their frame. -/
def writeSchema (e : Encoder) (typeId : WireTypeId) (entry : SchemaEntry) : Result Unit :=
  let e := e.write (encodeSchema typeId entry)
  if entry.annotations = [] then (.ok (), e)
  else
    match encodeSchemaAnnotations typeId entry.annotations with
    | .ok bytes => (.ok (), e.write bytes)
    | .error message => (.error (.error (.annotations message)), e)

/-- `ensure_registered_slow`. -/
def ensureRegisteredSlow (e : Encoder) (schema : Schema) : Result WireTypeId :=
  match e.schemaIds.lookup (.name schema.entry.name) with
  | some wireId =>
    match e.registry.get wireId with
    | none => (.error (.error (.corrupted wireId)), e)
    | some existing =>
      if existing = schema.entry then (.ok wireId, e)
      else (.error (.error (.differentDefinition schema.entry.name)), e)
  | none =>
    match e.registry.nextTypeId with
    | none => (.error .panic, e)
    | some (id, registry) =>
      match writeSchema { e with registry := registry } id schema.entry with
      | (.error fault, e) => (.error fault, e)
      | (.ok (), e) =>
        match e.registry.register id schema.entry with
        | .error _ => (.error .panic, e)
        | .ok registry =>
          (.ok id,
            { e with
              registry := registry
              schemaIds := e.schemaIds.insert (.name schema.entry.name) id })

/-- `DYNAMIC_SCHEMA_CACHE_LIMIT`. -/
def dynamicSchemaCacheLimit : Nat := 1024

/-- Remember a handle's wire id; a full cache is dropped first. -/
def cacheSchema (e : Encoder) (schema : Schema) (wireId : WireTypeId) : Encoder :=
  let cache := if dynamicSchemaCacheLimit ≤ e.dynamicSchemaCache.entries.length then ∅
    else e.dynamicSchemaCache
  { e with dynamicSchemaCache := cache.insert schema wireId }

/-- `ensure_registered`. -/
def ensureRegistered (e : Encoder) (schema : Schema) : Result WireTypeId :=
  match e.dynamicSchemaCache.lookup schema with
  | some wireId => (.ok wireId, e)
  | none =>
    match e.ensureRegisteredSlow schema with
    | (.error fault, e) => (.error fault, e)
    | (.ok wireId, e) => (.ok wireId, e.cacheSchema schema wireId)

/-- `register_schema`: a new handle, at the address its allocation received. -/
def registerSchema (e : Encoder) (identity : Nat) (name : Text) (fields : List FieldDef) :
    Result Schema :=
  let schema : Schema := ⟨identity, ⟨name, fields, []⟩⟩
  match e.ensureRegistered schema with
  | (.error fault, e) => (.error fault, e)
  | (.ok _, e) => (.ok schema, e)

/-- `register_existing`. -/
def registerExisting (e : Encoder) (schema : Schema) : Result WireTypeId :=
  e.ensureRegistered schema

/-- `encode_timestamp_delta`: the delta to pack, after a reset frame when the
timestamp is behind the base or too far ahead of it. -/
def encodeTimestampDelta (e : Encoder) (ts : UInt64) : Nat × Encoder :=
  if ts < e.timestampBaseNs ∨ maxTimestampDeltaNs < (ts - e.timestampBaseNs).toNat then
    (0, { e.write ([FrameTag.timestampReset.byte] ++ leBytes 8 ts.toNat) with
      timestampBaseNs := ts })
  else ((ts - e.timestampBaseNs).toNat, { e with timestampBaseNs := ts })

/-- The event header and the encoded fields. -/
def writeEventFrame (e : Encoder) (typeId : WireTypeId) (ts : UInt64) (fields : Bytes) : Encoder :=
  let (delta, e) := e.encodeTimestampDelta ts
  e.write ([FrameTag.event.byte] ++ leBytes 2 typeId.toNat ++ encodeU24Le delta ++ fields)

/-- The fields of an event, each written by its value and its declared type. -/
def encodeValues (entry : SchemaEntry) (values : List FieldValue) : Bytes :=
  (values.zip entry.fields).flatMap fun pair => writeFieldValue pair.1 pair.2.fieldType

/-- `write_event`. -/
def writeEvent (e : Encoder) (schema : Schema) (ts : UInt64) (values : List FieldValue) :
    Result Unit :=
  match e.ensureRegistered schema with
  | (.error fault, e) => (.error fault, e)
  | (.ok typeId, e) =>
    if values.length ≠ schema.entry.fields.length then
      (.error (.error (.valueCount values.length schema.entry.fields.length schema.entry.name)), e)
    else (.ok (), e.writeEventFrame typeId ts (encodeValues schema.entry values))

/-- `intern_string`. -/
def internString (e : Encoder) (s : Text) : Result UInt32 :=
  match e.stringPool.lookup s with
  | some id => (.ok id, e)
  | none =>
    let id := e.nextPoolId
    if id.toNat + 1 < 2 ^ 32 then
      (.ok id,
        { e.write (encodeStringPool [⟨id, s.bytes⟩]) with
          nextPoolId := id + 1
          stringPool := e.stringPool.insert s id })
    else (.error .panic, e)

/-- `intern_stack_frames`. -/
def internStackFrames (e : Encoder) (frames : List UInt64) : Result UInt32 :=
  match e.stackPool.lookup frames with
  | some id => (.ok id, e)
  | none =>
    let id := e.nextStackPoolId
    if id.toNat + 1 < 2 ^ 32 then
      (.ok id,
        { e.write (encodeStackPool [⟨id, frames⟩]) with
          nextStackPoolId := id + 1
          stackPool := e.stackPool.insert frames id })
    else (.error .panic, e)

/-! ## Typed writes -/

section Typed

variable {program : Program}

/-- `register_fast_id`: emit the schema frame at the slot, then register it. -/
def registerFastId (e : Encoder) (type : TraceType) : Result Unit :=
  match e.writeSchema type.typeSlot type.schemaEntry with
  | (.error fault, e) => (.error fault, e)
  | (.ok (), e) =>
    match e.registry.register type.typeSlot type.schemaEntry with
    | .error message => (.error (.error (.collision type.typeSlot message)), e)
    | .ok registry =>
      (.ok (),
        { e with
          registry := registry
          registeredIds := Function.update e.registeredIds type.typeSlot true })

/-- `slot_cache.resize(slot + 1, 0)` when too short, then the store. -/
def cacheSlot (e : Encoder) (slot : UInt16) (wireId : WireTypeId) : Encoder :=
  if slot = 0 then e
  else
    let grown := e.slotCache ++ List.replicate (slot.toNat + 1 - e.slotCache.length) 0
    { e with slotCache := grown.set slot.toNat (wireId.toUInt32 + 1) }

/-- `resolve_dynamic_wire_id`; `identity` is the address of the handle it allocates. -/
def resolveDynamicWireId (e : Encoder) (identity : Nat) (typeId : Nat) (type : TraceType) :
    Result WireTypeId :=
  match e.schemaIds.lookup (.rustType typeId) with
  | some existing => (.ok existing, e.cacheSlot type.typeSlot existing)
  | none =>
    match e.ensureRegistered ⟨identity, type.schemaEntry⟩ with
    | (.error fault, e) => (.error fault, e)
    | (.ok id, e) =>
      (.ok id, { e with schemaIds := e.schemaIds.insert (.rustType typeId) id }.cacheSlot
        type.typeSlot id)

/-- The wire id of a typed write: the slot itself on the fast path, otherwise
the slot cache and then the name-keyed registration. -/
def wireIdOf (e : Encoder) (identity : Nat) (typeId : Nat) (type : TraceType) : Result WireTypeId :=
  let slot := type.typeSlot
  if slot ≠ 0 ∧ slot < staticWireIdLimit then
    if e.registeredIds slot then (.ok slot, e)
    else
      match e.registerFastId type with
      | (.error fault, e) => (.error fault, e)
      | (.ok (), e) => (.ok slot, e)
  else
    let cached := e.slotCache.getD slot.toNat 0
    if cached ≠ 0 then (.ok (cached - 1).toUInt16, e)
    else e.resolveDynamicWireId identity typeId type

/-- `write::<T>`. -/
def writeTyped (e : Encoder) (identity : Nat) (event : TraceEvent program) : Result Unit :=
  match e.wireIdOf identity event.typeId event.type with
  | (.error fault, e) => (.error fault, e)
  | (.ok typeId, e) => (.ok (), e.writeEventFrame typeId event.timestamp event.encodeFields)

end Typed

end Encoder

end Dial9.TraceFormat
