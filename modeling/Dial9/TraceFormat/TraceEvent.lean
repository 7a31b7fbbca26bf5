/-
# Derived event types

`#[derive(TraceEvent)]` turns a Rust struct into a schema and an encoder of its
fields. Each field goes through its `TraceField` impl, which fixes both the
wire type and the bytes, so a typed event is well shaped by construction; the
structures here carry that as a field.
-/

import Dial9.TraceFormat.Schema

namespace Dial9.TraceFormat

open Dial9.Lib

/-- A value of one of the Rust types that implement `TraceField`. -/
inductive TraceField
  | u8 (v : UInt8)
  | u16 (v : UInt16)
  | u32 (v : UInt32)
  | u64 (v : UInt64)
  | i64 (v : Int64)
  | f64 (bits : UInt64)
  | bool (v : Bool)
  | string (v : Text)
  | bytes (v : Bytes)
  | stackFrames (addrs : List UInt64)
  | internedString (id : UInt32)
  | internedStackFrames (id : UInt32)
  | stringMap (pairs : List (Text × Text))

namespace TraceField

/-- `TraceField::field_type`. -/
def fieldType : TraceField → BaseType
  | u8 _ => .u8
  | u16 _ => .u16
  | u32 _ => .u32
  | u64 _ => .varint
  | i64 _ => .i64
  | f64 _ => .f64
  | bool _ => .bool
  | string _ => .string
  | bytes _ => .bytes
  | stackFrames _ => .stackFrames
  | internedString _ => .pooledString
  | internedStackFrames _ => .pooledStackFrames
  | stringMap _ => .stringMap

/-- `TraceField::encode`, through the writers of `EventEncoder`. -/
def encode : TraceField → Bytes
  | u8 v => [v]
  | u16 v => leBytes 2 v.toNat
  | u32 v => leBytes 4 v.toNat
  | u64 v => Leb128.encodeUnsigned v
  | i64 v => leBytes 8 v.toUInt64.toNat
  | f64 bits => leBytes 8 bits.toNat
  | bool v => [if v then 1 else 0]
  | string v => encodeBytes v.bytes
  | bytes v => encodeBytes v
  | stackFrames addrs => leBytes 4 addrs.length ++ addrs.flatMap encodeAddr
  | internedString id => leBytes 4 id.toNat
  | internedStackFrames id => leBytes 4 id.toNat
  | stringMap pairs =>
    leBytes 4 pairs.length ++ pairs.flatMap fun pair => encodePair (pair.1.bytes, pair.2.bytes)

/-- The decoded counterpart: fixed-width integers come back as `Varint`. -/
def toValue : TraceField → FieldValue
  | u8 v => .varint v.toUInt64
  | u16 v => .varint v.toUInt64
  | u32 v => .varint v.toUInt64
  | u64 v => .varint v
  | i64 v => .i64 v
  | f64 bits => .f64 bits
  | bool v => .bool v
  | string v => .string v
  | bytes v => .bytes v
  | stackFrames addrs => .stackFrames addrs
  | internedString id => .pooledString id
  | internedStackFrames id => .pooledStackFrames id
  | stringMap pairs => .stringMap (pairs.map fun pair => (pair.1.bytes, pair.2.bytes))

end TraceField

/-- A field of a derived struct: a plain value, or an `Option` of one. -/
inductive TypedField
  | plain (v : TraceField)
  | present (v : TraceField)
  | absent (base : BaseType)

namespace TypedField

def fieldType : TypedField → FieldType
  | plain v => .plain v.fieldType
  | present v => .optional v.fieldType
  | absent base => .optional base

def encode : TypedField → Bytes
  | plain v => v.encode
  | present v => 0x01 :: v.encode
  | absent _ => [0x00]

def toValue : TypedField → FieldValue
  | plain v => v.toValue
  | present v => v.toValue
  | absent _ => .none

end TypedField

/-- A derived type: its slot (`0` when it claims none) and its schema. -/
structure TraceType where
  typeSlot : UInt16
  schemaEntry : SchemaEntry

/-- The derived types of a program, by Rust `TypeId`. Slots come from one
counter, so no two types share one. -/
structure Program where
  types : Nat → TraceType
  slots_distinct : ∀ i j, (types i).typeSlot = (types j).typeSlot → (types i).typeSlot ≠ 0 → i = j

/-- A value of a derived type. -/
structure TraceEvent (program : Program) where
  typeId : Nat
  timestamp : UInt64
  fields : List TypedField
  wellTyped : (program.types typeId).schemaEntry.fields.map FieldDef.fieldType =
    fields.map TypedField.fieldType

namespace TraceEvent

variable {program : Program}

def type (event : TraceEvent program) : TraceType := program.types event.typeId

/-- `encode_fields`. -/
def encodeFields (event : TraceEvent program) : Bytes := event.fields.flatMap TypedField.encode

/-- The field values the event decodes to. -/
def values (event : TraceEvent program) : List FieldValue := event.fields.map TypedField.toValue

end TraceEvent

end Dial9.TraceFormat
