/-
# Walking an entry

The values an entry writes are taken one for one with the actions of its plan. Header
values are captured aside and filled in at the end, payload values are appended as they
come, each captured by the kind its action planned for it.
-/

import Dial9.Metrique.Plan
import Dial9.TraceFormat.Encoder

namespace Dial9.Metrique

open Lib (Bytes Str Text)
open TraceFormat (BaseType FieldType FieldDef FieldValue Encoder Fault)

/-! ## Numbers -/

/-- `v as f64`, by its bits: the nearest float, the even one of two as near. -/
def u64AsF64 (v : UInt64) : UInt64 :=
  let n := v.toNat
  let top := Nat.log2 n
  if n = 0 then 0
  else if top ≤ 52 then UInt64.ofNat ((top + 1022) * 2 ^ 52 + n * 2 ^ (52 - top))
  else
    let unit := 2 ^ (top - 52)
    let roundUp := unit < n % unit * 2 ∨ (n % unit * 2 = unit ∧ n / unit % 2 = 1)
    -- A significand that rounds up to the next power of two carries into the exponent.
    UInt64.ofNat ((top + 1022) * 2 ^ 52 + (n / unit + if roundUp then 1 else 0))

example : u64AsF64 1 = 0x3ff0000000000000 := by decide

example : u64AsF64 0xffffffffffffffff = 0x43f0000000000000 := by decide

/-- The integer that a float is; `none` when it has a fraction or is not finite. -/
def f64Integer (bits : UInt64) : Option Int :=
  let exponent := bits.toNat / 2 ^ 52 % 2 ^ 11
  let mantissa := bits.toNat % 2 ^ 52
  let significand := if exponent = 0 then mantissa else mantissa + 2 ^ 52
  let magnitude :=
    if exponent = 2047 then none
    else if 1075 ≤ exponent then some (significand * 2 ^ (exponent - 1075))
    else
      let unit := 2 ^ (1075 - max exponent 1)
      if significand % unit = 0 then some (significand / unit) else none
  magnitude.map fun n : Nat => if 2 ^ 63 ≤ bits.toNat then -n else n

/-- An integral float as an `i64`, when it is in range. -/
def f64AsI64 (bits : UInt64) : Option Int64 :=
  match f64Integer bits with
  | some i => if -2 ^ 63 ≤ i ∧ i < 2 ^ 63 then some (Int64.ofInt i) else none
  | none => none

example : f64AsI64 0xc000000000000000 = some (-2) := by decide

example : f64AsI64 0x3fe0000000000000 = none := by decide

/-! ## What a value writes -/

/-- `Observation`; floats are their bits. -/
inductive Observation where
  | unsigned (v : UInt64)
  | floating (bits : UInt64)
  | repeated (total occurrences : UInt64)
  deriving DecidableEq

/-- A callback of `ValueWriter` other than `values`, or none. -/
inductive Leaf where
  | nothing
  | string (value : Text)
  | metric (distribution : List Observation)
  | error
  deriving DecidableEq

/-- What `Value::write` does with the writer it consumes. -/
inductive Call where
  | leaf (leaf : Leaf)
  | values (elems : List Call)

/-- What an entry does with its `EntryWriter`. A time is in nanoseconds from the epoch. -/
inductive Callback where
  | timestamp (time : Int)
  | value (call : Call)
  | config

/-- Outcome of one capture. -/
inductive Captured where
  | absent
  | value (v : FieldValue)
  | mismatched

section Writer

-- The `ValueWriter::values` of the writers that do not bring their own.
variable (defaultValues : List Call → Leaf)

def Call.asLeaf : Call → Leaf
  | leaf own => own
  | values elems => defaultValues elems

/-- Extract a single unsigned observation. -/
def captureU64 (call : Call) : Option UInt64 :=
  match call.asLeaf defaultValues with
  | .metric (.unsigned v :: _) => some v
  | _ => none

/-- `ScalarCapture::metric`, by the first observation. -/
def scalarMetric (kind : ScalarKind) (distribution : List Observation) : Captured :=
  match distribution.head?, kind with
  | none, _ => .mismatched
  | some (.unsigned v), .bool => .value (.bool (v != 0))
  | some (.unsigned v), .uint => .value (.varint v)
  | some (.unsigned v), .int =>
    if v.toNat < 2 ^ 63 then .value (.i64 (Int64.ofNat v.toNat)) else .mismatched
  | some (.floating bits), .int =>
    match f64AsI64 bits with
    | some i => .value (.i64 i)
    | none => .mismatched
  | some (.unsigned v), .float => .value (.f64 (u64AsF64 v))
  | some (.floating bits), .float => .value (.f64 bits)
  | some (.repeated total _), .float => .value (.f64 total)
  | _, _ => .mismatched

/-- `ScalarCapture`. -/
def scalarCapture (kind : ScalarKind) (enc : Encoder) : Leaf → Encoder.Result Captured
  | .nothing | .error => (.ok .absent, enc)
  | .metric distribution => (.ok (scalarMetric kind distribution), enc)
  | .string value =>
    match kind with
    | .str true =>
      match enc.internString value with
      | (.ok id, enc) => (.ok (.value (.pooledString id)), enc)
      | (.error fault, enc) => (.error fault, enc)
    | .str false => (.ok (.value (.string value)), enc)
    | _ => (.ok .mismatched, enc)

/-- The loop of `ValueCapture::values`. -/
def captureList (elem : ScalarKind) :
    List FieldValue → Encoder → List Call → Encoder.Result Captured
  | items, enc, [] => (.ok (.value (.list items)), enc)
  | items, enc, call :: calls =>
    match scalarCapture elem enc (call.asLeaf defaultValues) with
    | (.error fault, enc) => (.error fault, enc)
    | (.ok (.value item), enc) => captureList elem (items ++ [item]) enc calls
    | (.ok .absent, enc) => captureList elem items enc calls
    -- A partial list would misrepresent the data.
    | (.ok .mismatched, enc) => (.ok .mismatched, enc)

/-- `ValueCapture`. -/
def valueCapture (kind : ValueKind) (enc : Encoder) (call : Call) : Encoder.Result Captured :=
  match kind, call with
  | .scalar kind, .leaf leaf => scalarCapture kind enc leaf
  | .scalar _, .values _ => (.ok .mismatched, enc)
  | .list elem, .values elems => captureList defaultValues elem [] enc elems
  | .list _, .leaf leaf =>
    match leaf with
    | .string _ | .metric _ => (.ok .mismatched, enc)
    | .nothing | .error => (.ok .absent, enc)

/-! ## The walk -/

/-- Captured event-header values. -/
structure ContextValues where
  threadId : Option UInt64
  taskId : Option UInt64
  monotonicStart : Option UInt64
  monotonicEnd : Option UInt64
  wallClockNs : Option UInt64
  deriving DecidableEq

def ContextValues.set (ctx : ContextValues) (role : ContextRole) (captured : Option UInt64) :
    ContextValues :=
  match role with
  | .threadId => { ctx with threadId := captured }
  | .taskId => { ctx with taskId := captured }
  | .monotonicStart => { ctx with monotonicStart := captured }
  | .monotonicEnd => { ctx with monotonicEnd := captured }

structure EntryWalk where
  enc : Encoder
  values : List FieldValue
  ctx : ContextValues
  next : Nat
  payloadSeen : Nat
  missingRequired : Option Nat
  overflowed : Bool

/-- Why an entry is dropped. -/
inductive WalkError where
  | planMismatch
  | missingRequired (field : Text)
  | missingContext (field : Str)
  /-- The walk panicked. -/
  | panicked
  deriving DecidableEq

namespace EntryWalk

def new (enc : Encoder) : EntryWalk where
  enc := enc
  values := List.replicate (1 + headerFields) .none
  ctx := ⟨none, none, none, none, none⟩
  next := 0
  payloadSeen := 0
  missingRequired := none
  overflowed := false

/-- Record what was captured for a payload field. -/
def store (w : EntryWalk) (optional : Bool) (out : Captured) : EntryWalk :=
  let index := w.payloadSeen
  let w := { w with payloadSeen := w.payloadSeen + 1 }
  match out with
  | .value v => { w with values := w.values ++ [v] }
  | .absent | .mismatched =>
    if optional then { w with values := w.values ++ [.none] }
    else if w.missingRequired.isNone then { w with missingRequired := some index }
    else w

/-- `EntryWalk::value`; the fault is a panic of the encoder. -/
def value (plan : Plan) (w : EntryWalk) (call : Call) : Except Fault EntryWalk :=
  match plan.actions[w.next]? with
  | none => .ok { w with overflowed := true }
  | some action =>
    let w := { w with next := w.next + 1 }
    match action with
    | .skip => .ok w
    | .context role => .ok { w with ctx := w.ctx.set role (captureU64 defaultValues call) }
    | .payload optional kind =>
      match valueCapture defaultValues kind w.enc call with
      | (.ok out, enc) => .ok ({ w with enc := enc }.store optional out)
      | (.error fault, _) => .error fault

/-- `EntryWalk::timestamp`: a time that does not fit stays absent. -/
def timestamp (w : EntryWalk) (time : Int) : EntryWalk :=
  let wallClockNs := if 0 ≤ time ∧ time < 2 ^ 64 then some (UInt64.ofNat time.toNat) else none
  { w with ctx := { w.ctx with wallClockNs := wallClockNs } }

def callback (plan : Plan) (w : EntryWalk) : Callback → Except Fault EntryWalk
  | .timestamp time => .ok (w.timestamp time)
  | .value call => w.value defaultValues plan call
  | .config => .ok w

def opt : Option UInt64 → FieldValue
  | some v => .varint v
  | none => .none

def headerValue (ctx : ContextValues) (threadId duration : UInt64) : Header → FieldValue
  | .threadId => .varint threadId
  | .taskId => opt ctx.taskId
  | .duration => .varint duration
  | .wallClock => opt ctx.wallClockNs

/-- Fill the placeholders. -/
def fill (w : EntryWalk) (threadId start fin : UInt64) : List FieldValue :=
  let duration := if start ≤ fin then fin - start else 0
  Header.all.zipIdx.foldl
    (fun values (header, i) => values.set (1 + i) (headerValue w.ctx threadId duration header))
    (w.values.set 0 (.varint fin))

/-- `EntryWalk::finish`. -/
def finish (plan : Plan) (w : EntryWalk) : Except WalkError (List FieldValue) :=
  if w.overflowed = true ∨ w.next ≠ plan.actions.length then .error .planMismatch
  else
    match w.missingRequired with
    | some index =>
      match plan.schema.fields[headerFields + index]? with
      | some field => .error (.missingRequired field.name)
      | none => .error .panicked
    | none =>
      match w.ctx.threadId, w.ctx.monotonicStart, w.ctx.monotonicEnd with
      | none, _, _ => .error (.missingContext Header.threadId.name)
      | some _, none, _ => .error (.missingContext "dial9.monotonic_ns_start".toList)
      | some _, some _, none => .error (.missingContext "dial9.monotonic_ns_end".toList)
      | some threadId, some start, some fin => .ok (w.fill threadId start fin)

end EntryWalk

/-- One entry against its plan: `Entry::write`, then `finish`. -/
def recordEntry (plan : Plan) (enc : Encoder) (callbacks : List Callback) :
    Except WalkError (List FieldValue) :=
  match callbacks.foldlM (EntryWalk.callback defaultValues plan) (EntryWalk.new enc) with
  | .ok w => w.finish plan
  | .error _ => .error .panicked

end Writer

end Dial9.Metrique
