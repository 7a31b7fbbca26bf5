/-
# Kernel tracepoints

The format file of a tracepoint names the fields of its records, with their offsets
and sizes. A record's fields are extracted by that definition, and written as an event
whose schema is made from the same definition.
-/

import Dial9.Lib.Parsing
import Dial9.TraceFormat.Encoder

namespace Dial9.SelfProfile.Tracepoint

open Lib (Bytes ByteOrder Str Text)
open Lib.Str (ParseIntError)
open TraceFormat (BaseType FieldType FieldDef FieldValue EncodeError Encoder Fault Schema)

/-- What the code is compiled for: the byte order, and whether an addition that overflows panics
or wraps around. -/
structure Target where
  order : ByteOrder
  overflowChecks : Bool
  deriving DecidableEq

/-- `+` of two `usize`. -/
def Target.add (t : Target) (a b : Nat) : Option Nat :=
  if a + b < 2 ^ 64 then some (a + b)
  else if t.overflowChecks then none
  else some ((a + b) % 2 ^ 64)

/-- A single field parsed from a kernel tracepoint format file. -/
structure TracepointField where
  name : Str
  /-- Raw kernel type string. -/
  fieldType : Str
  offset : UInt64
  size : UInt64
  signed : Bool
  /-- Its data is appended after the fixed-size record. -/
  isDynamic : Bool
  deriving DecidableEq

/-- A parsed kernel tracepoint definition. -/
structure TracepointDef where
  name : Str
  id : UInt32
  fields : List TracepointField
  deriving DecidableEq

/-- The errors of the operations. -/
inductive TracepointError where
  /-- "bad ID: {e}" -/
  | badId (e : ParseIntError)
  /-- "format file missing 'name:' line" -/
  | missingName
  /-- "format file missing or zero 'ID:' line" -/
  | missingId
  /-- "raw data too short for field '{name}': need {needed} bytes, have {available}" -/
  | tooShort (name : Str) (needed available : Nat)
  /-- "__data_loc field '{name}' points beyond raw data: off={off} len={len}, have {available}" -/
  | pointsBeyond (name : Str) (off len available : Nat)
  | encode (e : EncodeError)
  deriving DecidableEq

/-- How an operation fails. -/
inductive Failure where
  | error (e : TracepointError)
  | panic
  deriving DecidableEq

/-! ## Format files -/

/-- Split `unsigned int nr` into type and name; array brackets belong to the type. -/
def splitTypeAndName (s : Str) : Option (Str × Str) :=
  let s := s.trim
  match s.rsplitOnce '[' with
  | some (beforeBracket, afterOpen) =>
    match Str.splitOnce ']' afterOpen with
    | none => none
    | some (inside, rest) =>
      let afterBracket := Str.trim rest
      if afterBracket = [] then
        (Str.rsplitOnce ' ' beforeBracket).map fun halves =>
          (Str.trim halves.1 ++ '[' :: afterOpen, Str.trim halves.2)
      else some (Str.trim (beforeBracket ++ '[' :: inside ++ [']']), afterBracket)
  | none =>
    (s.rsplitOnce ' ').map fun halves => (Str.trim halves.1, Str.trim halves.2)

/-- The numbers of a field line: the last part of each kind is the one that stays. -/
structure FieldNumbers where
  offset : Option UInt64
  size : Option UInt64
  signed : Bool

/-- `parse().ok()` of a `usize`. -/
def parseUsize (s : Str) : Option UInt64 :=
  (s.parseInt (2 ^ 64 - 1)).toOption.map UInt64.ofNat

def readPart (numbers : FieldNumbers) (part : Str) : FieldNumbers :=
  let p := part.trim
  match Str.stripPrefix "offset:".toList p with
  | some rest => { numbers with offset := parseUsize rest }
  | none =>
    match Str.stripPrefix "size:".toList p with
    | some rest => { numbers with size := parseUsize rest }
    | none =>
      match Str.stripPrefix "signed:".toList p with
      | some rest => { numbers with signed := rest.trim = ['1'] }
      | none => numbers

/-- Parse a single field line after the `field:` prefix. -/
def parseFieldLine (line : Str) : Option TracepointField :=
  match line.splitOn ';' with
  | first :: second :: third :: fourth :: more => do
      let typeAndName := Str.trim first
      let numbers := (second :: third :: fourth :: more).foldl readPart ⟨none, none, false⟩
      let offset ← numbers.offset
      let size ← numbers.size
      let (fieldType, name) ← splitTypeAndName typeAndName
      pure
        { name := name
          fieldType := fieldType
          offset := offset
          size := size
          signed := numbers.signed
          isDynamic := Str.contains "__data_loc".toList typeAndName }
  | _ => none

/-- A line of the file, onto what the lines before it gave. -/
def parseLine (tp : TracepointDef) (line : Str) : Except TracepointError TracepointDef :=
  let trimmed := line.trim
  match Str.stripPrefix "name:".toList trimmed with
  | some rest => .ok { tp with name := rest.trim }
  | none =>
    match Str.stripPrefix "ID:".toList trimmed with
    | some rest =>
      match rest.trim.parseInt (2 ^ 32 - 1) with
      | .ok id => .ok { tp with id := UInt32.ofNat id }
      | .error e => .error (.badId e)
    | none =>
      match (Str.stripPrefix "field:".toList trimmed).bind parseFieldLine with
      | some field =>
        -- Skip common fields (kernel bookkeeping).
        if (Str.stripPrefix "common_".toList field.name).isSome then .ok tp
        else .ok { tp with fields := tp.fields ++ [field] }
      | none => .ok tp

def parseFormat (contents : Str) : Except TracepointError TracepointDef := do
  let tp ← contents.lines.foldlM parseLine ⟨[], 0, []⟩
  if tp.name = [] then throw .missingName
  if tp.id = 0 then throw .missingId
  pure tp

/-! ## Values -/

/-- A concrete value extracted from raw tracepoint data. -/
inductive RawFieldValue where
  | u8 (v : UInt8)
  | u16 (v : UInt16)
  | u32 (v : UInt32)
  | u64 (v : UInt64)
  | i8 (v : Int8)
  | i16 (v : Int16)
  | i32 (v : Int32)
  | i64 (v : Int64)
  | str (s : Text)
  | bytes (b : Bytes)
  deriving DecidableEq

/-- Matches `char[N]` patterns. -/
def isCharArray (fieldType : Str) : Bool :=
  (Str.stripPrefix "char[".toList fieldType).isSome ||
    (Str.stripPrefix "__kernel_char[".toList fieldType).isSome

/-- Extract a NUL-terminated string from a fixed-size buffer. -/
def nulTerminatedStr (bytes : Bytes) : Text := .fromUtf8Lossy (bytes.takeWhile (· ≠ 0))

def extractFieldValue (order : ByteOrder) (bytes : Bytes) (size : Nat) (signed : Bool)
    (fieldType : Str) : RawFieldValue :=
  if isCharArray fieldType then .str (nulTerminatedStr bytes)
  else
    match size, signed with
    | 1, false => .u8 (UInt8.ofNat (order.nat (bytes.take 1)))
    | 1, true => .i8 (UInt8.ofNat (order.nat (bytes.take 1))).toInt8
    | 2, false => .u16 (UInt16.ofNat (order.nat (bytes.take 2)))
    | 2, true => .i16 (UInt16.ofNat (order.nat (bytes.take 2))).toInt16
    | 4, false => .u32 (UInt32.ofNat (order.nat (bytes.take 4)))
    | 4, true => .i32 (UInt32.ofNat (order.nat (bytes.take 4))).toInt32
    | 8, false => .u64 (UInt64.ofNat (order.nat (bytes.take 8)))
    | 8, true => .i64 (UInt64.ofNat (order.nat (bytes.take 8))).toInt64
    | _, _ => .bytes bytes

/-- `&raw[start..end]`, which is nothing where it panics. -/
def slice (raw : Bytes) (start end_ : Nat) : Option Bytes :=
  if start ≤ end_ ∧ end_ ≤ raw.length then some ((raw.drop start).take (end_ - start)) else none

/-- One field of the record. -/
def extractField (t : Target) (raw : Bytes) (field : TracepointField) :
    Except Failure RawFieldValue :=
  match t.add field.offset.toNat field.size.toNat with
  | none => .error .panic
  | some end_ =>
    if raw.length < end_ then .error (.error (.tooShort field.name end_ raw.length))
    else if field.isDynamic then
      match (t.add field.offset.toNat 4).bind (slice raw field.offset.toNat) with
      | none => .error .panic
      | some word =>
        let loc := t.order.nat word
        let dataOff := loc / 2 ^ 16
        let dataLen := loc % 2 ^ 16
        let dataEnd := dataOff + dataLen
        if raw.length < dataEnd then
          .error (.error (.pointsBeyond field.name dataOff dataLen raw.length))
        else .ok (.str (nulTerminatedStr ((raw.drop dataOff).take dataLen)))
    else
      match slice raw field.offset.toNat end_ with
      | none => .error .panic
      | some bytes =>
        .ok (extractFieldValue t.order bytes field.size.toNat field.signed field.fieldType)

/-- The fields one after the other, up to the first that fails. -/
def extractFrom (t : Target) (raw : Bytes) :
    List TracepointField → Except Failure (List (Str × RawFieldValue))
  | [] => .ok []
  | field :: fields =>
    match extractField t raw field with
    | .error failure => .error failure
    | .ok value =>
      match extractFrom t raw fields with
      | .error failure => .error failure
      | .ok values => .ok ((field.name, value) :: values)

namespace TracepointDef

/-- Extract typed field values from raw tracepoint data. -/
def extractFields (t : Target) (tp : TracepointDef) (raw : Bytes) :
    Except Failure (List (Str × RawFieldValue)) :=
  extractFrom t raw tp.fields

end TracepointDef

/-! ## Events -/

/-- All unsigned integers are written as varints. -/
def kernelTypeToFieldType (typeStr : Str) (size : Nat) (signed : Bool) : FieldType :=
  if isCharArray typeStr then .plain .string
  else if 1 ≤ size ∧ size ≤ 8 then
    match signed with
    | false => .plain .varint
    | true => .plain .i64
  else .plain .bytes

def kernelFieldToTraceFormat (field : TracepointField) : FieldDef where
  name := field.name.toText
  fieldType :=
    if field.isDynamic then .plain .string
    else kernelTypeToFieldType field.fieldType field.size.toNat field.signed

def rawToTraceFormatValue : RawFieldValue → FieldValue
  | .u8 v => .varint v.toUInt64
  | .u16 v => .varint v.toUInt64
  | .u32 v => .varint v.toUInt64
  | .u64 v => .varint v
  | .i8 v => .i64 v.toInt64
  | .i16 v => .i64 v.toInt64
  | .i32 v => .i64 v.toInt64
  | .i64 v => .i64 v
  | .str s => .string s
  | .bytes b => .bytes b

namespace TracepointDef

def toTraceFormatFields (tp : TracepointDef) : List FieldDef :=
  tp.fields.map kernelFieldToTraceFormat

def toTraceFormatValues (extracted : List (Str × RawFieldValue)) : List FieldValue :=
  extracted.map fun pair => rawToTraceFormatValue pair.2

/-- A schema handle for this tracepoint; `identity` is the address of its allocation. -/
def schema (identity : Nat) (tp : TracepointDef) : Schema :=
  ⟨identity, ⟨tp.name.toText, tp.toTraceFormatFields, []⟩⟩

/-- Extract fields from raw tracepoint data and write a single event into the encoder. -/
def encodeRaw (t : Target) (tp : TracepointDef) (encoder : Encoder) (schema : Schema)
    (timestampNs : UInt64) (raw : Bytes) : Except Failure Unit × Encoder :=
  match tp.extractFields t raw with
  | .error failure => (.error failure, encoder)
  | .ok extracted =>
    match encoder.writeEvent schema timestampNs (toTraceFormatValues extracted) with
    | (.ok (), encoder) => (.ok (), encoder)
    | (.error (.error e), encoder) => (.error (.error (.encode e)), encoder)
    | (.error .panic, encoder) => (.error .panic, encoder)

end TracepointDef

end Dial9.SelfProfile.Tracepoint
