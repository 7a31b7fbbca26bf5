/-
# Single-event spans

An event whose schema gives structural roles to its fields is a span by itself. The
viewer compiles such a schema to a layout and reads spans off its events twice: in Rust,
by the indices of the fields, and in JavaScript, by their names.
-/

import Dial9.Lib.InsertionMap
import Dial9.Lib.Parsing
import Dial9.TraceFormat.Schema
import Dial9.Viewer.WorkerParity

namespace Dial9.Viewer.SingleEvent

open Lib (InsertionMap Str Text)
open TraceFormat (BaseType FieldType FieldDef FieldAnnotation FieldValue SchemaEntry)
open TraceParser (num)

def text (s : String) : Text := Str.toText s.toList

/-! ## Roles -/

inductive StructuralRole where
  | spanStart
  | spanDuration
  | spanName
  | threadId
  | tokioTaskId
  | tokioWorkerId
  deriving DecidableEq

namespace StructuralRole

/-- `StructuralRole::from_annotation`; also the values of `SINGLE_EVENT_ROLES`. -/
def fromAnnotation (value : Text) : Option StructuralRole :=
  if value = text "span.start" then some spanStart
  else if value = text "span.duration" then some spanDuration
  else if value = text "span.name" then some spanName
  else if value = text "thread_id" then some threadId
  else if value = text "tokio.task_id" then some tokioTaskId
  else if value = text "tokio.worker_id" then some tokioWorkerId
  else none

def isTiming : StructuralRole → Bool
  | spanStart | spanDuration => true
  | _ => false

end StructuralRole

/-- Why a schema with a timing role is no span schema. -/
inductive SchemaError where
  /-- "dial9.role references missing field {index}" -/
  | missingField (index : Nat)
  /-- "field {index} has conflicting structural roles" -/
  | conflictingRoles (index : Nat)
  /-- "duplicate {role} role" -/
  | duplicateRole (role : StructuralRole)
  /-- "{role} field must have an integer wire type" -/
  | notInteger (role : StructuralRole)
  /-- "unsupported {role} unit {unit}" -/
  | unsupportedUnit (role : StructuralRole) (unit : Text)
  /-- "field {index} has conflicting {key} annotations"; one of the two leaves the index out. -/
  | conflictingAnnotations (index : Option Nat) (key : Text)
  /-- "single-event span schema needs two of span.start, span.duration, and the packed event
  timestamp (the span end)" -/
  | tooFewQuantities
  /-- "span.name field must have a string wire type" -/
  | nameNotString
  /-- "execution-context field must have an integer wire type" -/
  | contextNotInteger
  deriving DecidableEq

/-- What a schema compiles to. -/
inductive Compiled (L : Type) where
  | notSpan
  | invalid (e : SchemaError)
  | layout (l : L)

/-- What the loop over the annotations collects. -/
structure Roles where
  byField : List (Option StructuralRole)
  index : StructuralRole → Option Nat
  error : Option SchemaError
  sawTiming : Bool

namespace Roles

def new (fieldCount : Nat) : Roles := ⟨List.replicate fieldCount none, fun _ => none, none, false⟩

/-- The first error is kept. -/
def fail (s : Roles) (e : SchemaError) : Roles := { s with error := s.error.or (some e) }

def roleOf (s : Roles) (index : Nat) : Option StructuralRole := s.byField.getD index none

end Roles

/-- `schema_extensions::ROLE_KEY`. -/
def roleKey : Text := text "dial9.role"

/-- `schema_extensions::SPAN_TYPE_KEY`. -/
def spanTypeKey : Text := text "dial9.span.type"

/-- `schema_extensions::DEFAULT_SPAN_TYPE`. -/
def defaultSpanType : Text := text "single-event"

def unitKey : Text := text "unit"

/-! ## Schemas -/

def fieldTypeAt (schema : SchemaEntry) (index : Nat) : FieldType :=
  ((schema.fields[index]?).map FieldDef.fieldType).getD (.plain .bool)

/-- The roles of the execution context. -/
def contextRoles : List StructuralRole := [.threadId, .tokioTaskId, .tokioWorkerId]

/-- A field of a role has a type that the role does not allow. -/
def mistyped (schema : SchemaEntry) (s : Roles) (allowed : FieldType → Bool)
    (role : StructuralRole) : Bool :=
  match s.index role with
  | some index => !allowed (fieldTypeAt schema index)
  | none => false

def spanTypeOf : Option Text → Text
  | some value => if value.bytes = [] then defaultSpanType else value
  | none => defaultSpanType

/-! ## Events -/

/-- The kind of value that a type decodes to. -/
def decodedShape : BaseType → BaseType
  | .u8 | .u16 | .u32 => .varint
  | base => base

/-- A value that a field type can decode to. -/
def Decodes : FieldType → FieldValue → Prop
  | .plain base, v => v.shape = some (decodedShape base)
  | .optional base, v => v = .none ∨ v.shape = some (decodedShape base)

/-- An event of a schema: a value for each field. -/
structure RawEvent (schema : SchemaEntry) where
  timestampNs : UInt64
  fields : List FieldValue
  stringPool : UInt32 → Option Text
  typed : List.Forall₂ (fun field v => Decodes field.fieldType v) schema.fields fields

/-- `ev.fields[index]`. -/
def RawEvent.value {schema : SchemaEntry} (ev : RawEvent schema) (index : Nat) : FieldValue :=
  ev.fields.getD index .none

/-- Whether a string has a character that is not white space. -/
def isBlank (isSpace : Char → Bool) (t : Text) : Bool :=
  match Str.fromUtf8 t.bytes with
  | some s => s.all isSpace
  | none => false

/-! ## In Rust -/

namespace Rust

def roleStep (fieldCount : Nat) (s : Roles) (ann : FieldAnnotation) : Roles :=
  if ann.key ≠ roleKey then s
  else
    match StructuralRole.fromAnnotation ann.value with
    | none => s
    | some role =>
      let s := { s with sawTiming := s.sawTiming || role.isTiming }
      let index := ann.fieldIndex.toNat
      if fieldCount ≤ index then s.fail (.missingField index)
      else
        match s.roleOf index with
        | some existing => if existing = role then s else s.fail (.conflictingRoles index)
        | none =>
          let before := s.index role
          let s := { s with
            byField := s.byField.set index (some role)
            index := Function.update s.index role (some index) }
          if before.isSome then s.fail (.duplicateRole role) else s

def uniqueAnnotation (schema : SchemaEntry) (index : Nat) (key : Text) :
    Except SchemaError (Option Text) :=
  (schema.annotations.filter fun ann => ann.fieldIndex.toNat = index ∧ ann.key = key).foldlM
    (fun value ann =>
      match value with
      | some existing =>
        if existing ≠ ann.value then .error (.conflictingAnnotations (some index) key)
        else .ok value
      | none => .ok (some ann.value))
    none

def isIntegerField (fieldType : FieldType) : Bool :=
  match fieldType.inner with
  | .i64 | .varint | .u8 | .u16 | .u32 => true
  | _ => false

def isStringField (fieldType : FieldType) : Bool :=
  match fieldType.inner with
  | .string | .pooledString => true
  | _ => false

/-- A timing field, and the factor from its unit to nanoseconds. -/
structure TimingField where
  index : Nat
  multiplier : Nat
  deriving DecidableEq

/-- An absent unit is nanoseconds. -/
def multiplierOf : Option Text → Option Nat
  | none => some 1
  | some unit =>
    if unit = text "ns" then some 1
    else if unit = text "us" then some 1000
    else if unit = text "ms" then some 1000000
    else if unit = text "s" then some 1000000000
    else none

def timingField (schema : SchemaEntry) (role : StructuralRole) (index : Nat) :
    Except SchemaError TimingField :=
  if !isIntegerField (fieldTypeAt schema index) then .error (.notInteger role)
  else
    match uniqueAnnotation schema index unitKey with
    | .error e => .error e
    | .ok unit =>
      match multiplierOf unit with
      | some multiplier => .ok ⟨index, multiplier⟩
      | none => .error (.unsupportedUnit role (unit.getD default))

def timing (schema : SchemaEntry) (s : Roles) (role : StructuralRole) :
    Except SchemaError (Option TimingField) :=
  match s.index role with
  | none => .ok none
  | some index => (timingField schema role index).map some

structure SingleEventSpanLayout where
  schemaName : Text
  spanType : Text
  start : Option TimingField
  duration : Option TimingField
  nameIndex : Option Nat
  threadIdIndex : Option Nat
  taskIdIndex : Option Nat
  workerIdIndex : Option Nat
  attributeIndices : List Nat

def rolesOf (schema : SchemaEntry) : Roles :=
  schema.annotations.foldl (roleStep schema.fields.length) (.new schema.fields.length)

/-- The layout, once every check is passed. -/
def layoutOf (schema : SchemaEntry) (s : Roles) (start duration : Option TimingField)
    (spanType : Text) : SingleEventSpanLayout where
  schemaName := schema.name
  spanType := spanType
  start := start
  duration := duration
  nameIndex := s.index .spanName
  threadIdIndex := s.index .threadId
  taskIdIndex := s.index .tokioTaskId
  workerIdIndex := s.index .tokioWorkerId
  attributeIndices := (List.range schema.fields.length).filter fun index =>
    s.roleOf index = none ∨ s.roleOf index = some .spanName

def compileSingleEventSpan (schema : SchemaEntry) : Compiled SingleEventSpanLayout :=
  let s := rolesOf schema
  if !s.sawTiming then .notSpan
  else
    match s.error with
    | some e => .invalid e
    | none =>
      match timing schema s .spanStart, timing schema s .spanDuration with
      | .error e, _ => .invalid e
      | .ok _, .error e => .invalid e
      | .ok start, .ok duration =>
        match start.or duration with
        -- The packed timestamp is the third quantity.
        | none => .invalid .tooFewQuantities
        | some first =>
          if mistyped schema s isStringField .spanName then .invalid .nameNotString
          else
            match contextRoles.find? (mistyped schema s isIntegerField) with
            | some role => .invalid (.notInteger role)
            | none =>
              match uniqueAnnotation schema first.index spanTypeKey with
              | .error e => .invalid e
              | .ok spanType => .layout (layoutOf schema s start duration (spanTypeOf spanType))

def unsignedValue : FieldValue → Except String (Option Nat)
  | .varint v => .ok (some v.toNat)
  | .i64 v =>
    if 0 ≤ v.toInt then .ok (some v.toInt.toNat)
    else .error "integer structural field is negative"
  | .none => .ok none
  | _ => .error "integer structural field has an incompatible value"

section Event

variable {schema : SchemaEntry} (ev : RawEvent schema)

def stringValue (index : Nat) : Except String (Option Text) :=
  match ev.value index with
  | .string v => .ok (some v)
  | .pooledString id =>
    match ev.stringPool id with
    | some v => .ok (some v)
    | none => .error "span.name references an unresolved pooled string"
  | .none => .ok none
  | _ => .error "span.name field has an incompatible value"

/-- `TimingLayout::read`. -/
def read (field : TimingField) : Except String (Option Nat) :=
  match unsignedValue (ev.value field.index) with
  | .error e => .error e
  | .ok none => .ok none
  | .ok (some raw) =>
    if raw * field.multiplier < 2 ^ 64 then .ok (some (raw * field.multiplier))
    else .error "single-event span timing field overflows nanoseconds"

def readOpt : Option TimingField → Except String (Option Nat)
  | some field => read ev field
  | none => .ok none

/-- `TimingLayout::resolve`. -/
def resolve (layout : SingleEventSpanLayout) : Except String (Nat × Nat) :=
  match readOpt ev layout.start, readOpt ev layout.duration with
  | .error e, _ => .error e
  | .ok _, .error e => .error e
  | .ok start, .ok duration =>
    let fin := ev.timestampNs.toNat
    match start, duration with
    | some start, _ =>
      if fin < start then .error "single-event span start follows its end"
      else .ok (start, fin)
    | none, some duration => .ok (fin - duration, fin)
    | none, none => .error "single-event span is missing a required timing value"

def contextValue : Option Nat → Except String (Option Nat)
  | some index => unsignedValue (ev.value index)
  | none => .ok none

/-- The values that `extract_attributes` renders. -/
def attributeValue : FieldValue → Option FieldValue
  | .pooledString id => (ev.stringPool id).map .string
  | .string v => some (.string v)
  | .i64 v => some (.i64 v)
  | .varint v => some (.varint v)
  | .f64 bits => some (.f64 bits)
  | .bool v => some (.bool v)
  | _ => none

/-- A decoded span; attribute values stand for their rendering. -/
structure SingleEventSpanEvent where
  schemaName : Text
  spanType : Text
  name : Text
  startNs : Nat
  endNs : Nat
  threadId : Option Nat
  taskId : Option Nat
  workerId : Option Nat
  decodeSequence : Nat
  attributes : List (Text × FieldValue)
  attributeUnits : List (Text × Text)

def displayName (layout : SingleEventSpanLayout) : Except String Text :=
  match layout.nameIndex with
  | some index => (stringValue ev index).map fun name =>
    (name.filter fun name => !isBlank Str.isWhitespace name).getD layout.schemaName
  | none => .ok layout.schemaName

def attributes (indices : List Nat) : List (Text × FieldValue) :=
  (schema.fields.zip ev.fields).zipIdx.filterMap fun ((field, v), index) =>
    if index ∈ indices then (attributeValue ev v).map (field.name, ·) else none

/-- `SingleEventSpanLayout::decode`. -/
def decode (layout : SingleEventSpanLayout) (decodeSequence : Nat) :
    Except String SingleEventSpanEvent := do
  let (startNs, endNs) ← resolve ev layout
  let name ← displayName ev layout
  let threadId ← contextValue ev layout.threadIdIndex
  let taskId ← contextValue ev layout.taskIdIndex
  let workerId ← contextValue ev layout.workerIdIndex
  return {
    schemaName := layout.schemaName
    spanType := layout.spanType
    name := name
    startNs := startNs
    endNs := endNs
    threadId := threadId
    taskId := taskId.filter (0 < ·)
    workerId := workerId
    decodeSequence := decodeSequence
    attributes := attributes ev layout.attributeIndices
    attributeUnits := (schema.annotations.filter (·.key = unitKey)).filterMap fun ann =>
      if ann.fieldIndex.toNat ∈ layout.attributeIndices then
        (schema.fields[ann.fieldIndex.toNat]?).map fun field => (field.name, ann.value)
      else none }

end Event

end Rust

/-! ## In JavaScript -/

namespace Js

/-- `Number` and `String` of the values that are neither integers nor strings. A structural field
has such a value only where a later field of its name hides it. -/
structure Host where
  number : FieldValue → Option Int
  string : FieldValue → Text

def roleStep (fieldCount : Nat) (s : Roles) (ann : FieldAnnotation) : Roles :=
  if ann.key ≠ roleKey then s
  else
    match StructuralRole.fromAnnotation ann.value with
    | none => s
    | some role =>
      let s := { s with sawTiming := s.sawTiming || role.isTiming }
      let index := ann.fieldIndex.toNat
      if fieldCount ≤ index then s.fail (.missingField index)
      else if s.roleOf index = some role then s
      else if (s.roleOf index).isSome then s.fail (.conflictingRoles index)
      else
        let s := { s with byField := s.byField.set index (some role) }
        if (s.index role).isSome then s.fail (.duplicateRole role)
        else { s with index := Function.update s.index role (some index) }

def annotationValue (schema : SchemaEntry) (index : Nat) (key : Text) :
    Except SchemaError (Option Text) :=
  schema.annotations.foldlM
    (fun value ann =>
      if ann.fieldIndex.toNat ≠ index ∨ ann.key ≠ key then .ok value
      else if value.isSome ∧ value ≠ some ann.value then
        .error (.conflictingAnnotations none key)
      else .ok (some ann.value))
    none

/-- `INTEGER_FIELD_TYPES` has the inner type. -/
def isIntegerField (fieldType : FieldType) : Bool :=
  [1, 9, 11, 12, 13].contains (fieldType.tag &&& 0x7f)

/-- `STRING_FIELD_TYPES` has the inner type. -/
def isStringField (fieldType : FieldType) : Bool := [4, 7].contains (fieldType.tag &&& 0x7f)

structure TimingField where
  field : Text
  multiplier : Nat
  index : Nat

def multipliers : List (Text × Nat) :=
  [(text "ns", 1), (text "us", 1000), (text "ms", 1000000), (text "s", 1000000000)]

def fieldName (schema : SchemaEntry) (index : Nat) : Text :=
  ((schema.fields[index]?).map FieldDef.name).getD default

def timingField (schema : SchemaEntry) (s : Roles) (role : StructuralRole) :
    Except SchemaError (Option TimingField) :=
  match s.index role with
  | none => .ok none
  | some index =>
    if !isIntegerField (fieldTypeAt schema index) then .error (.notInteger role)
    else
      match annotationValue schema index unitKey with
      | .error e => .error e
      | .ok none => .ok (some ⟨fieldName schema index, 1, index⟩)
      | .ok (some unit) =>
        match multipliers.lookup unit with
        | some multiplier => .ok (some ⟨fieldName schema index, multiplier, index⟩)
        | none => .error (.unsupportedUnit role unit)

structure Layout where
  schemaName : Text
  start : Option TimingField
  duration : Option TimingField
  packedEnd : Bool
  nameField : Option Text
  threadIdField : Option Text
  taskIdField : Option Text
  workerIdField : Option Text
  spanType : Text
  attributeFields : List Text

def rolesOf (schema : SchemaEntry) : Roles :=
  schema.annotations.foldl (roleStep schema.fields.length) (.new schema.fields.length)

def layoutOf (schema : SchemaEntry) (hasTimestamp : Bool) (s : Roles)
    (start duration : Option TimingField) (spanType : Text) : Layout where
  schemaName := schema.name
  start := start
  duration := duration
  packedEnd := hasTimestamp
  nameField := (s.index .spanName).map (fieldName schema)
  threadIdField := (s.index .threadId).map (fieldName schema)
  taskIdField := (s.index .tokioTaskId).map (fieldName schema)
  workerIdField := (s.index .tokioWorkerId).map (fieldName schema)
  spanType := spanType
  attributeFields := (schema.fields.zipIdx.filter fun (_, index) =>
    s.roleOf index = none ∨ s.roleOf index = some .spanName).map fun (field, _) => field.name

def compileSingleEventSpanSchema (schema : SchemaEntry) (hasTimestamp : Bool) : Compiled Layout :=
  let s := rolesOf schema
  if !s.sawTiming then .notSpan
  else
    match s.error with
    | some e => .invalid e
    | none =>
      match timingField schema s .spanStart, timingField schema s .spanDuration with
      | .error e, _ => .invalid e
      | .ok _, .error e => .invalid e
      | .ok start, .ok duration =>
        if start.isSome.toNat + duration.isSome.toNat + hasTimestamp.toNat < 2 then
          .invalid .tooFewQuantities
        else if mistyped schema s isStringField .spanName then .invalid .nameNotString
        else if contextRoles.any (mistyped schema s isIntegerField) then
          .invalid .contextNotInteger
        else
          match start.or duration with
          | none => .invalid .tooFewQuantities
          | some first =>
            match annotationValue schema first.index spanTypeKey with
            | .error e => .invalid e
            | .ok spanType =>
              .layout (layoutOf schema hasTimestamp s start duration (spanTypeOf spanType))

/-- The values of an event by the names of their fields; `null` is `FieldValue.none`. -/
abbrev Values := InsertionMap Text FieldValue

section Event

variable {schema : SchemaEntry} (ev : RawEvent schema)

/-- What the decoder puts in for a value. -/
def jsValue : FieldValue → FieldValue
  | .pooledString id =>
    .string ((ev.stringPool id).getD
      (Str.toText ("<unresolved pool#".toList ++ Str.display id.toNat ++ ['>'])))
  | v => v

/-- The loop of `_decodeEvent`. No field is assumed to be named `__proto__` here. -/
def values : Values :=
  (schema.fields.zip ev.fields).foldl
    (fun values pair => values.update pair.1.name fun _ => jsValue ev pair.2) []

end Event

section Read

variable (host : Host) (values : Values)

/-- `Number(v)`; `none` is `NaN`. -/
def number : FieldValue → Option Int
  | .varint v => some (num v.toNat)
  | .i64 v =>
    if 0 ≤ v.toInt then some (num v.toInt.toNat) else some (-(num (-v.toInt).toNat))
  | v => host.number v

/-- A property that is neither `undefined` nor `null`. -/
def present (field : Text) : Option FieldValue :=
  match values.get? field with
  | none | some .none => none
  | some v => some v

/-- A timing value: absent, not a number, or a number. -/
inductive Timing where
  | absent
  | nan
  | value (n : Nat)
  deriving DecidableEq

/-- The inner `read` of `resolveSpanTiming`. -/
def read : Option TimingField → Timing
  | none => .absent
  | some t =>
    match present values t.field with
    | none => .absent
    | some raw =>
      match number host raw with
      | some (.ofNat n) => .value (num (n * t.multiplier))
      | _ => .nan

def resolveSpanTiming (layout : Layout) (packedEnd : Nat) : Option (Nat × Nat) :=
  let start := read host values layout.start
  let duration := read host values layout.duration
  let fin := if layout.packedEnd then Timing.value packedEnd else .absent
  if start = .nan ∨ duration = .nan then none
  else
    match start, duration, fin with
    | .value start, _, .value fin => if fin < start then none else some (start, fin)
    | _, .value duration, .value fin => some (num (fin - duration), fin)
    | .value start, .value duration, _ => some (start, num (start + duration))
    | _, _, _ => none

/-- `context`; the outer `none` is an invalid value. -/
def context (positiveOnly : Bool) : Option Text → Option (Option Nat)
  | none => some none
  | some field =>
    match present values field with
    | none => some none
    | some raw =>
      match number host raw with
      | some (.ofNat n) => some (if positiveOnly ∧ n = 0 then none else some n)
      | _ => none

/-- `String(v)`. -/
def stringOf : FieldValue → Text
  | .string v => v
  | v => host.string v

/-- The characters that `trim` takes off. -/
def isSpace (c : Char) : Bool := (Str.isWhitespace c && c.toNat ≠ 0x85) || c.toNat = 0xFEFF

/-- The decoded span. -/
structure Span where
  start : Nat
  fin : Nat
  name : Text
  spanType : Text
  threadId : Option Nat
  taskId : Option Nat
  workerId : Option Nat
  fields : Values
  units : InsertionMap Text Text

/-- `schema.units`, which the decoder fills as annotations come. -/
def unitsOf (schema : SchemaEntry) : InsertionMap Text Text :=
  schema.annotations.foldl
    (fun units ann =>
      match schema.fields[ann.fieldIndex.toNat]? with
      | some field =>
        if ann.key = unitKey then units.update field.name fun _ => ann.value else units
      | none => units)
    []

/-- Copy a property that is there. -/
def copyField (copied : Values) (field : Text) : Values :=
  match present values field with
  | some v => copied.update field fun _ => v
  | none => copied

def copyPresent (fields : List Text) : Values := fields.foldl (copyField values) []

def displayName (layout : Layout) : Text :=
  match layout.nameField.bind (present values) with
  | some v => if isBlank isSpace (stringOf host v) then layout.schemaName else stringOf host v
  | none => layout.schemaName

def decodeSingleEventSpan (layout : Layout) (schema : SchemaEntry) (packedEnd : Nat) :
    Option Span := do
  let (start, fin) ← resolveSpanTiming host values layout packedEnd
  let threadId ← context host values false layout.threadIdField
  let taskId ← context host values true layout.taskIdField
  let workerId ← context host values false layout.workerIdField
  return {
    start := start
    fin := fin
    name := displayName host values layout
    spanType := layout.spanType
    threadId := threadId
    taskId := taskId
    workerId := workerId
    fields := copyPresent values layout.attributeFields
    units := layout.attributeFields.foldl
      (fun units field =>
        match present values field, (unitsOf schema).get? field with
        | some _, some unit => units.update field fun _ => unit
        | _, _ => units)
      [] }

end Read

end Js

end Dial9.Viewer.SingleEvent
