/-
# The spans of single events agree

Rust and JavaScript classify every schema alike. They read the same spans off its events,
except that JavaScript keeps attributes that do not render in one cell, which Rust leaves
out.
-/

import Dial9.Viewer.SingleEventReads

namespace Dial9.Viewer.SingleEvent

open Lib (InsertionMap Str Text)
open TraceFormat (FieldType FieldDef FieldAnnotation FieldValue SchemaEntry)
open TraceParser (num num_of_lt)

variable {schema : SchemaEntry} {ev : RawEvent schema}

/-- Classified the same way. -/
def SameKind {L L' : Type} : Compiled L → Compiled L' → Prop
  | .notSpan, .notSpan => True
  | .invalid _, .invalid _ => True
  | .layout _, .layout _ => True
  | _, _ => False

/-- The same span, whose attribute fields are those that the other keeps of its own. -/
structure SameSpan (keep : FieldValue → Bool) (a : Rust.SingleEventSpanEvent) (b : Js.Span) :
    Prop where
  start : b.start = a.startNs
  fin : b.fin = a.endNs
  spanType : b.spanType = a.spanType
  threadId : b.threadId = a.threadId
  taskId : b.taskId = a.taskId
  workerId : b.workerId = a.workerId
  attributes : ∀ name, name ∈ a.attributes.map Prod.fst ↔
    ∃ v, b.fields.get? name = some v ∧ keep v = true

/-- Both reject an event, or both make the same span of it. -/
def Agree (keep : FieldValue → Bool) :
    Except String Rust.SingleEventSpanEvent → Option Js.Span → Prop
  | .ok a, some b => SameSpan keep a b
  | .error _, none => True
  | _, _ => False

/-- What the two make of a schema and an event of it. -/
def SpansAgree (host : Js.Host) (keep : FieldValue → Bool) (ev : RawEvent schema)
    (decodeSequence : Nat) : Prop :=
  match Rust.compileSingleEventSpan schema, Js.compileSingleEventSpanSchema schema true with
  | .notSpan, .notSpan => True
  | .invalid _, .invalid _ => True
  | .layout a, .layout b =>
    Agree keep (Rust.decode ev a decodeSequence)
      (Js.decodeSingleEventSpan host (Js.values ev) b schema (num ev.timestampNs.toNat))
  | _, _ => False

theorem sameKind (schema : SchemaEntry) : SameKind (Rust.compileSingleEventSpan schema)
    (Js.compileSingleEventSpanSchema schema true) := by
  obtain ⟨hrust, hjs⟩ | ⟨e, e', hrust, hjs⟩ | ⟨start, duration, spanType, -, hrust, hjs⟩ :=
    compile_cases schema
  all_goals
    rw [hrust, hjs]
    exact trivial

variable {start duration : Option Rust.TimingField}

/-- A name that resolves never makes Rust reject a span. -/
theorem displayName_ok (hev : Ordinary ev)
    (hchecked : Checked schema start duration) (spanType : Text) :
    ∃ name, Rust.displayName ev
      (Rust.layoutOf schema (Rust.rolesOf schema) start duration spanType) = .ok name := by
  unfold Rust.displayName
  simp only [Rust.layoutOf]
  cases hindex : (Rust.rolesOf schema).index .spanName with
  | none => exact ⟨_, rfl⟩
  | some i =>
    have hi := lt_of_index hindex
    have hstring : Rust.isStringField (fieldTypeAt schema i) = true := by
      simpa [mistyped, hindex] using hchecked.name
    have hread : ∃ s, Rust.stringValue ev i = .ok s := by
      unfold Rust.stringValue
      obtain hnone | hshape := (typed_at ev hi).shape
      · rw [hnone]
        exact ⟨_, rfl⟩
      · unfold Rust.isStringField at hstring
        cases hvalue : ev.value i with
        | string _ | none => exact ⟨_, rfl⟩
        | pooledString id =>
          have hmem := value_mem ev hi
          rw [hvalue] at hmem
          obtain ⟨v, hv⟩ := Option.isSome_iff_exists.mp (hev.strings id hmem)
          exact ⟨some v, by simp [hv]⟩
        | _ =>
          exfalso
          rw [hvalue] at hshape
          cases hinner : (fieldTypeAt schema i).inner <;>
            simp [hinner, FieldValue.shape, decodedShape] at hshape hstring
    obtain ⟨s, hs⟩ := hread
    refine ⟨(s.filter fun s => !isBlank Str.isWhitespace s).getD schema.name, ?_⟩
    simp only [hs, Except.map]

theorem agree_of_checked (host : Js.Host)
    (hnames : NamesApart schema) (hev : Ordinary ev) (hchecked : Checked schema start duration)
    (hfits : ¬ Overflows ev duration) (spanType : Text) (decodeSequence : Nat) :
    Agree isScalar
      (Rust.decode ev (Rust.layoutOf schema (Rust.rolesOf schema) start duration spanType)
        decodeSequence)
      (Js.decodeSingleEventSpan host (Js.values ev) (Js.layoutOf schema true (Rust.rolesOf schema)
        (start.map (named schema)) (duration.map (named schema)) spanType) schema
        (num ev.timestampNs.toNat)) := by
  have hinteger : ∀ role ∈ contextRoles, ∀ i, (Rust.rolesOf schema).index role = some i →
      IsInteger schema i := fun role hrole i => isInteger_of_checked (hchecked.context role hrole)
  have hstart : ∀ t, start = some t → IsInteger schema t.index := by
    rintro t rfl
    exact isInteger_of_timing hchecked.startOk
  have hduration : ∀ t, duration = some t → IsInteger schema t.index := by
    rintro t rfl
    exact isInteger_of_timing hchecked.durationOk
  have hresolve := resolve_eq host (b := Js.layoutOf schema true (Rust.rolesOf schema)
    (start.map (named schema)) (duration.map (named schema)) spanType)
    (a := Rust.layoutOf schema (Rust.rolesOf schema) start duration spanType) hnames hev
    ⟨rfl, rfl, rfl, hstart, hduration⟩ hfits
  have hthread := context_eq host hnames hev (hinteger .threadId (by decide)) false
  have htask := context_eq host hnames hev (hinteger .tokioTaskId (by decide)) true
  have hworker := context_eq host hnames hev (hinteger .tokioWorkerId (by decide)) false
  obtain ⟨name, hname⟩ := displayName_ok hev hchecked spanType
  have hkeep : ∀ id : Option Nat, id.filter (fun n => !false || decide (0 < n)) = id := by
    intro id
    cases id <;> rfl
  have hpositive : ∀ id : Option Nat,
      id.filter (fun n => !true || decide (0 < n)) = id.filter (0 < ·) := by
    intro id
    cases id <;> rfl
  simp only [hkeep, Option.map_id'] at hthread hworker
  simp only [hpositive] at htask
  rw [Rust.decode, Js.decodeSingleEventSpan, hresolve, hname]
  cases Rust.resolve ev
      (Rust.layoutOf schema (Rust.rolesOf schema) start duration spanType) with
  | error e => exact trivial
  | ok times =>
    simp only [Rust.layoutOf, Js.layoutOf]
    rw [hthread, htask, hworker]
    cases Rust.contextValue ev ((Rust.rolesOf schema).index .threadId) with
    | error e => exact trivial
    | ok threadId =>
      cases Rust.contextValue ev ((Rust.rolesOf schema).index .tokioTaskId) with
      | error e => exact trivial
      | ok taskId =>
        cases Rust.contextValue ev ((Rust.rolesOf schema).index .tokioWorkerId) with
        | error e => exact trivial
        | ok workerId =>
          exact ⟨rfl, rfl, rfl, rfl, rfl, rfl, fun name =>
            mem_attributes_iff_scalar hnames hev start duration spanType
              (start.map (named schema)) (duration.map (named schema)) spanType⟩

/-- Both classify a schema alike. Where the scaled duration of an event fits 64 bits, both reject
the event or make the same span of it, but for the attributes that Rust does not render. -/
theorem singleEventSpans_agree (host : Js.Host) (schema : SchemaEntry) :
    SameKind (Rust.compileSingleEventSpan schema) (Js.compileSingleEventSpanSchema schema true) ∧
    ∀ (ev : RawEvent schema) (decodeSequence : Nat), NamesApart schema → Ordinary ev →
      (∀ a, Rust.compileSingleEventSpan schema = .layout a → ¬ Overflows ev a.duration) →
      SpansAgree host isScalar ev decodeSequence := by
  refine ⟨sameKind schema, fun ev decodeSequence hnames hev hfits => ?_⟩
  unfold SpansAgree
  obtain ⟨hrust, hjs⟩ | ⟨e, e', hrust, hjs⟩ | ⟨start, duration, spanType, hchecked, hrust, hjs⟩ :=
    compile_cases schema
  · rw [hrust, hjs]
    exact trivial
  · rw [hrust, hjs]
    exact trivial
  · have hduration : ¬ Overflows ev duration := hfits _ hrust
    rw [hrust, hjs]
    exact agree_of_checked host hnames hev hchecked hduration spanType decodeSequence

/-! ## A job with tags -/

def jobSchema : SchemaEntry where
  name := text "job"
  fields := [⟨text "elapsed", .plain .varint⟩, ⟨text "tags", .plain .dynamicList⟩]
  annotations := [⟨0, roleKey, text "span.duration"⟩]

def jobEvent : RawEvent jobSchema where
  timestampNs := 10
  fields := [.varint 5, .list []]
  stringPool := fun _ => none
  typed := .cons rfl (.cons rfl .nil)

/-- No value of the job is left to it. -/
def jobHost : Js.Host := ⟨fun _ => none, fun _ => text ""⟩

theorem namesApart_jobSchema : NamesApart jobSchema := by
  constructor <;> decide +kernel

theorem ordinary_jobEvent : Ordinary jobEvent where
  timestamp := by decide
  integers := by simp [jobEvent, SmallInteger]
  strings := by simp [jobEvent]

theorem compile_jobSchema : Rust.compileSingleEventSpan jobSchema =
    .layout (Rust.layoutOf jobSchema (Rust.rolesOf jobSchema) none (some ⟨0, 1⟩)
      defaultSpanType) := rfl

theorem not_overflows_jobEvent (a : Rust.SingleEventSpanLayout)
    (ha : Rust.compileSingleEventSpan jobSchema = .layout a) : ¬ Overflows jobEvent a.duration := by
  rw [compile_jobSchema] at ha
  obtain rfl := Compiled.layout.inj ha
  rintro ⟨t, raw, ht, hraw, hover⟩
  obtain rfl := Option.some.inj ht
  obtain rfl : 5 = raw := by simpa [Rust.unsignedValue, RawEvent.value, jobEvent] using hraw
  simp at hover

/-- The job as a span, in Rust and in JavaScript. -/
def jobSpan : Rust.SingleEventSpanEvent × Js.Span where
  fst := {
    schemaName := text "job", spanType := defaultSpanType, name := text "job"
    startNs := 5, endNs := 10, threadId := none, taskId := none, workerId := none
    decodeSequence := 0, attributes := [], attributeUnits := [] }
  snd := {
    start := 5, fin := 10, name := text "job", spanType := defaultSpanType
    threadId := none, taskId := none, workerId := none
    fields := [(text "tags", .list [])], units := [] }

theorem singleEventSpans_agree_job : SpansAgree jobHost isScalar jobEvent 0 :=
  (singleEventSpans_agree jobHost jobSchema).2 jobEvent 0 namesApart_jobSchema ordinary_jobEvent
    not_overflows_jobEvent

/-- The tags are an attribute in JavaScript alone. -/
theorem jobEvent_not_spansAgree : NamesApart jobSchema ∧ Ordinary jobEvent ∧
    ¬ SpansAgree jobHost (fun _ => true) jobEvent 0 := by
  refine ⟨namesApart_jobSchema, ordinary_jobEvent, fun h => ?_⟩
  have hsame : SameSpan (fun _ => true) jobSpan.1 jobSpan.2 := h
  have htags := (hsame.attributes (text "tags")).mpr ⟨.list [], rfl, rfl⟩
  cases htags

end Dial9.Viewer.SingleEvent
