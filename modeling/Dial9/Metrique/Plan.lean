/-
# Encode plans of metrique entries

The descriptors of an entry are walked once. Each field becomes a header role, a
payload field of the wire schema, or nothing, and the list of these actions in
descriptor order is what later routes the values the entry writes.
-/

import Dial9.Lib.Parsing
import Dial9.TraceFormat.Schema

namespace Dial9.Metrique

open Lib (Bytes Str Text leBytes)
open TraceFormat (BaseType FieldType FieldDef FieldAnnotation SchemaEntry)

/-! ## Descriptors -/

/-- `KnownShape`; `other` stands for the shapes the code does not recognize. -/
inductive KnownShape where
  | bool | u8 | u16 | u32 | u64 | i8 | i16 | i32 | i64 | f32 | f64 | string | bytes | other
  deriving DecidableEq

/-- `FieldShape`; `other` stands for the shapes the code does not recognize. -/
inductive FieldShape where
  | known (shape : KnownShape)
  | list (elem : FieldShape)
  | optional (inner : FieldShape)
  | flex
  | opaqueShape
  | other
  deriving DecidableEq

/-- `Unit`, as far as the code tells units apart; `named` is any other, by its CloudWatch name. -/
inductive MetricUnit where
  | none
  | micros
  | millis
  | seconds
  | bytes
  | count
  | named (name : Str)
  deriving DecidableEq

/-- The flags of a field that the sink inspects. -/
structure FieldFlags where
  context : Bool
  spanName : Bool
  skip : Bool
  interned : Bool
  deriving DecidableEq

structure FieldView where
  baseName : Str
  nameParts : List Str
  flags : FieldFlags
  shape : FieldShape
  unit : Option MetricUnit
  deriving DecidableEq

def FieldView.fullName (field : FieldView) : Str := field.nameParts.flatten

/-- One descriptor segment of an entry. -/
structure Descriptor where
  name : Str
  fields : List FieldView
  deriving DecidableEq

/-- `AvailableDescriptors`: the segments of an entry. -/
abbrev Descriptors := List Descriptor

def Descriptors.fields (descs : Descriptors) : List FieldView := descs.flatMap Descriptor.fields

/-- The name of the first segment. -/
def Descriptors.entryName (descs : Descriptors) : Str :=
  match descs with
  | desc :: _ => desc.name
  | [] => "<unnamed>".toList

/-! ## Wire kinds -/

/-- How one scalar observation maps to a value. -/
inductive ScalarKind where
  | bool
  | uint
  | int
  | float
  | str (interned : Bool)
  deriving DecidableEq

/-- The wire value a payload field resolves to. -/
inductive ValueKind where
  | scalar (kind : ScalarKind)
  | list (elem : ScalarKind)
  deriving DecidableEq

/-- Why a field cannot become a payload field. -/
inductive ShapeError where
  | unsupported (reason : String)
  | misuse (reason : String)
  deriving DecidableEq

def resolveKnown (known : KnownShape) (interned : Bool) : Except String (FieldType × ScalarKind) :=
  match known with
  | .bool => .ok (.plain .bool, .bool)
  -- A value has one unsigned variant only, so every width declares it.
  | .u8 | .u16 | .u32 | .u64 => .ok (.plain .varint, .uint)
  | .i8 | .i16 | .i32 | .i64 => .ok (.plain .i64, .int)
  | .f32 | .f64 => .ok (.plain .f64, .float)
  | .string =>
    if interned then .ok (.plain .pooledString, .str true) else .ok (.plain .string, .str false)
  | .bytes => .error "byte-slice fields are not supported"
  | .other => .error "unrecognized scalar shape"

/-- The shape of a list element; optional elements are allowed. -/
def resolveElement (interned : Bool) : FieldShape → Except String ScalarKind
  | .known known => (resolveKnown known interned).map Prod.snd
  | .optional inner => resolveElement interned inner
  | .list _ => .error "nested list fields are not supported"
  | .flex => .error "dynamic-key (Flex) list elements are not supported"
  | .opaqueShape => .error "opaque list element shape"
  | .other => .error "unrecognized list element shape"

def kindHasStringData : ValueKind → Bool
  | .scalar (.str _) | .list (.str _) => true
  | _ => false

/-- The match of `resolve_shape`, on the shape below an outer `Optional`. -/
def resolveInner (interned : Bool) : FieldShape → Except ShapeError (FieldType × ValueKind)
  | .known known =>
    match resolveKnown known interned with
    | .ok (fieldType, scalar) => .ok (fieldType, .scalar scalar)
    | .error reason => .error (.unsupported reason)
  | .list elem =>
    match resolveElement interned elem with
    | .ok elem => .ok (.plain .dynamicList, .list elem)
    | .error reason => .error (.unsupported reason)
  | .flex => .error (.unsupported "dynamic-key (Flex) fields are not supported")
  | .optional _ => .error (.unsupported "nested optional shapes are not supported")
  | .opaqueShape =>
    .error (.unsupported ("field shape is opaque (not statically known); use a " ++
      "#[metrics(value)] newtype over a known scalar, or a custom Value impl that overrides " ++
      "SHAPE"))
  | .other => .error (.unsupported "unrecognized field shape")

/-- `FieldType::from_tag` of the tag with the optional bit set. -/
def optionalVariant (baseType : FieldType) : Except ShapeError FieldType :=
  match FieldType.fromTag (baseType.tag ||| 0x80) with
  | some fieldType => .ok fieldType
  | none => .error (.unsupported "field type has no optional variant")

/-- Resolve the shape of a field to its wire type and capture kind. -/
def resolveShape (shape : FieldShape) (interned : Bool) :
    Except ShapeError (FieldType × ValueKind) :=
  let (optional, inner) := match shape with
    | .optional inner => (true, inner)
    | shape => (false, shape)
  match resolveInner interned inner with
  | .error e => .error e
  | .ok (baseType, kind) =>
    if interned && !kindHasStringData kind then
      .error (.misuse "Interned flag on a field with no string data")
    else if optional then (optionalVariant baseType).map fun fieldType => (fieldType, kind)
    else .ok (baseType, kind)

/-- The wire type that carries the observations of a kind. -/
def ScalarKind.base : ScalarKind → BaseType
  | .bool => .bool
  | .uint => .varint
  | .int => .i64
  | .float => .f64
  | .str true => .pooledString
  | .str false => .string

def ValueKind.base : ValueKind → BaseType
  | .scalar kind => kind.base
  | .list _ => .dynamicList

variable {interned : Bool}

theorem resolveKnown_ok {known : KnownShape} {fieldType : FieldType} {kind : ScalarKind}
    (h : resolveKnown known interned = .ok (fieldType, kind)) :
    fieldType = .plain kind.base := by
  cases known <;> cases interned <;> simp [resolveKnown] at h <;> obtain ⟨rfl, rfl⟩ := h <;> rfl

theorem resolveInner_ok {shape : FieldShape} {fieldType : FieldType} {kind : ValueKind}
    (h : resolveInner interned shape = .ok (fieldType, kind)) :
    fieldType = .plain kind.base := by
  cases shape with
  | known known =>
    simp only [resolveInner] at h
    split at h
    · next hknown =>
        obtain ⟨rfl, rfl⟩ : _ ∧ _ := by simpa using h
        exact resolveKnown_ok hknown
    · simp at h
  | list elem =>
    simp only [resolveInner] at h
    split at h
    · obtain ⟨rfl, rfl⟩ : _ ∧ _ := by simpa using h
      rfl
    · simp at h
  | optional | flex | opaqueShape | other => simp [resolveInner] at h

theorem optionalVariant_plain (base : BaseType) :
    optionalVariant (.plain base) = .ok (.optional base) := by
  cases base <;> rfl

/-- The wire type of a field of a kind. -/
def ValueKind.fieldType (optional : Bool) (kind : ValueKind) : FieldType :=
  if optional then .optional kind.base else .plain kind.base

theorem resolveShape_ok {shape : FieldShape} {fieldType : FieldType} {kind : ValueKind}
    (h : resolveShape shape interned = .ok (fieldType, kind)) :
    fieldType = kind.fieldType fieldType.isOptional := by
  simp only [resolveShape] at h
  split at h
  · simp at h
  · next baseType kind' hinner =>
      obtain rfl := resolveInner_ok hinner
      split at h
      · simp at h
      · split at h
        · rw [optionalVariant_plain] at h
          obtain ⟨rfl, rfl⟩ : _ ∧ _ := by simpa [Except.map] using h
          rfl
        · obtain ⟨rfl, rfl⟩ : _ ∧ _ := by simpa using h
          rfl

/-! ## Event headers -/

/-- Which header slot a context field feeds. -/
inductive ContextRole where
  | threadId
  | taskId
  | monotonicStart
  | monotonicEnd
  deriving DecidableEq

/-- Roles match exactly on the base name. -/
def ContextRole.ofBaseName (name : Str) : Option ContextRole :=
  if name = "dial9.thread_id".toList then some .threadId
  else if name = "dial9.tokio.task_id".toList then some .taskId
  else if name = "dial9.monotonic_ns_start".toList then some .monotonicStart
  else if name = "dial9.monotonic_ns_end".toList then some .monotonicEnd
  else none

/-- The header fields every metrique schema starts with. -/
inductive Header where
  | threadId
  | taskId
  | duration
  | wallClock
  deriving DecidableEq

namespace Header

def all : List Header := [threadId, taskId, duration, wallClock]

def name : Header → Str
  | threadId => "dial9.thread_id".toList
  | taskId => "dial9.tokio.task_id".toList
  | duration => "dial9.span.duration_ns".toList
  | wallClock => "dial9.wall_clock_ns".toList

def fieldType : Header → FieldType
  | threadId | duration => .plain .varint
  | taskId | wallClock => .optional .varint

end Header

/-- `HEADER_FIELDS`. -/
def headerFields : Nat := Header.all.length

def headerFieldDefs : List FieldDef :=
  Header.all.map fun header => ⟨header.name.toText, header.fieldType⟩

def annotationOf (index : UInt16) (key value : String) : FieldAnnotation :=
  ⟨index, Str.toText key.toList, Str.toText value.toList⟩

/-- `ROLE_KEY`. -/
def roleKey : String := "dial9.role"

/-- `UNIT_ANNOTATION_KEY`. -/
def unitAnnotationKey : String := "unit"

def headerAnnotations : List FieldAnnotation :=
  Header.all.zipIdx.flatMap fun (header, i) =>
    let index := UInt16.ofNat i
    match header with
    | .threadId => [annotationOf index roleKey "thread_id"]
    | .taskId => [annotationOf index roleKey "tokio.task_id"]
    | .duration =>
      [annotationOf index roleKey "span.duration",
        annotationOf index "dial9.span.type" "metrique",
        annotationOf index unitAnnotationKey "ns"]
    | .wallClock => []

/-! ## The descriptor walk -/

/-- How the sink handles one `value` callback. -/
inductive FieldAction where
  /-- Consume the callback and discard the value. -/
  | skip
  | context (role : ContextRole)
  | payload (optional : Bool) (kind : ValueKind)
  deriving DecidableEq

/-- The locals of `build_plan` over its loop. -/
structure PlanState where
  actions : List FieldAction
  fields : List FieldDef
  annotations : List FieldAnnotation
  hasContext : Bool
  spanNameClaimed : Bool
  rolesSeen : ContextRole → Bool

namespace PlanState

def new : PlanState where
  actions := []
  fields := headerFieldDefs
  annotations := headerAnnotations
  hasContext := false
  spanNameClaimed := false
  rolesSeen := fun _ => false

def push (s : PlanState) (action : FieldAction) : PlanState :=
  { s with actions := s.actions ++ [action] }

end PlanState

/-- Classify one `Context`-flagged field: each role routes at most once. -/
def contextAction (field : FieldView) (rolesSeen : ContextRole → Bool) :
    FieldAction × (ContextRole → Bool) :=
  match ContextRole.ofBaseName field.baseName with
  | some role =>
    if rolesSeen role then (.skip, rolesSeen)
    else (.context role, Function.update rolesSeen role true)
  | none => (.skip, rolesSeen)

def unitAnnotationValue : MetricUnit → Str
  | .micros => "us".toList
  | .millis => "ms".toList
  | .seconds => "s".toList
  | .bytes => "bytes".toList
  | .count => "count".toList
  | .none => "None".toList
  | .named name => name

/-- `Unit::to_option`. -/
def MetricUnit.toOption : MetricUnit → Option MetricUnit
  | .none => Option.none
  | unit => some unit

def unitAnnotations (index : UInt16) (field : FieldView) : List FieldAnnotation :=
  match field.unit.bind MetricUnit.toOption with
  | some unit =>
    [⟨index, Str.toText unitAnnotationKey.toList, (unitAnnotationValue unit).toText⟩]
  | none => []

/-- Only a scalar string can name its span. -/
def spanNameAnnotations (index : UInt16) (spanName : Bool) (kind : ValueKind) :
    List FieldAnnotation :=
  match spanName, kind with
  | true, .scalar (.str _) => [annotationOf index roleKey "span.name"]
  | _, _ => []

/-- `u16::try_from(fields.len())`. -/
def annotationIndex (fields : List FieldDef) : Option UInt16 :=
  if fields.length < 2 ^ 16 then some (UInt16.ofNat fields.length) else none

namespace PlanState

/-- Record a field whose shape was resolved. -/
def record (s : PlanState) (field : FieldView) (spanName : Bool) (fieldType : FieldType)
    (kind : ValueKind) : PlanState :=
  let annotations := match annotationIndex s.fields with
    | some index => unitAnnotations index field ++ spanNameAnnotations index spanName kind
    | none => []
  { s with
    actions := s.actions ++ [.payload fieldType.isOptional kind]
    fields := s.fields ++ [⟨field.fullName.toText, fieldType⟩]
    annotations := s.annotations ++ annotations }

/-- The body of the loop over the fields. -/
def planField (s : PlanState) (field : FieldView) : PlanState :=
  if field.flags.context then
    let (action, rolesSeen) := contextAction field s.rolesSeen
    let hasContext := match action with
      | .context _ => true
      | _ => s.hasContext
    { s with actions := s.actions ++ [action], rolesSeen, hasContext }
  else
    -- Only the first flagged field asks for the name, whether or not it can have it.
    let spanName := field.flags.spanName && !s.spanNameClaimed
    let s := { s with spanNameClaimed := s.spanNameClaimed || field.flags.spanName }
    if field.flags.skip then s.push .skip
    else if s.fields.any fun f => f.name = field.fullName.toText then s.push .skip
    else
      match resolveShape field.shape field.flags.interned with
      | .ok (fieldType, kind) => s.record field spanName fieldType kind
      | .error _ => s.push .skip

end PlanState

/-- The loop of `build_plan` over all segments. -/
def planFields (descs : Descriptors) : PlanState :=
  descs.fields.foldl PlanState.planField .new

/-! ## Schema names -/

/-- One FNV-1a round for each byte. -/
def mix (hash : UInt64) (bytes : Bytes) : UInt64 :=
  bytes.foldl (fun hash b => (hash ^^^ b.toUInt64) * 0x100000001b3) hash

def mixStr (hash : UInt64) (s : Text) : UInt64 := mix (mix hash (leBytes 4 s.bytes.length)) s.bytes

/-- The hash of a schema layout. -/
def layoutHash (fields : List FieldDef) (annotations : List FieldAnnotation) : UInt64 :=
  let hash := fields.foldl
    (fun hash field => mix (mixStr hash field.name) [field.fieldType.tag]) 0xcbf29ce484222325
  annotations.foldl
    (fun hash ann =>
      mixStr (mixStr (mix hash (leBytes 2 ann.fieldIndex.toNat)) ann.key) ann.value) hash

/-- The last `width` hexadecimal digits of a number, most significant first. -/
def hexDigits : Nat → Nat → Str
  | 0, _ => []
  | width + 1, n => hexDigits width (n / 16) ++ [Nat.digitChar (n % 16)]

/-- The name of an entry's schema. -/
def baseName (entryName : Str) : Str := "metrique:".toList ++ entryName

/-- The name of an entry's schema when it is taken. -/
def suffixedName (entryName : Str) (hash : UInt64) : Str :=
  baseName entryName ++ '#' :: hexDigits 16 hash.toNat

/-- Pick the schema name. -/
def schemaName (entryName : Str) (inert : Bool) (fields : List FieldDef)
    (annotations : List FieldAnnotation) (usedNames : List Str) : Str × List Str :=
  if inert then (baseName entryName, usedNames)
  else if usedNames.contains (baseName entryName) then
    (suffixedName entryName (layoutHash fields annotations), usedNames)
  else (baseName entryName, baseName entryName :: usedNames)

/-- Cached encode plan of an entry type. -/
structure Plan where
  schema : SchemaEntry
  /-- Action for each `value` callback, in descriptor order. -/
  actions : List FieldAction
  /-- No context field: entries of this type are not walked. -/
  inert : Bool
  entryName : Str

/-- The plan for an entry, and the names in use after it. -/
def buildPlan (descs : Descriptors) (usedNames : List Str) : Plan × List Str :=
  let s := planFields descs
  let inert := !s.hasContext
  let (name, usedNames) := schemaName descs.entryName inert s.fields s.annotations usedNames
  ({ schema := ⟨name.toText, s.fields, s.annotations⟩
     actions := s.actions
     inert := inert
     entryName := descs.entryName }, usedNames)

/-- The plans of a sequence of entries that share the names in use. -/
def buildPlans : List Str → List Descriptors → List Plan
  | _, [] => []
  | usedNames, descs :: rest =>
    (buildPlan descs usedNames).1 :: buildPlans (buildPlan descs usedNames).2 rest

end Dial9.Metrique
