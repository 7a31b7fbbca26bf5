/-
# The encoder on a sink that can fail

The operations of the encoder over an arbitrary `Write`. Their order matters
here: what was changed before a failed write stays changed. A pool id is taken
and remembered before its frame is written, the time base moves before the
event that carries the step, and a schema frame goes out before its slot is
looked up. With a sink that accepts everything they are the operations of
`Encoder`.
-/

import Dial9.Lib.Sink
import Dial9.TraceFormat.Batches

namespace Dial9.TraceFormat

open Dial9.Lib

/-- An encoder operation on a sink. -/
abbrev OnSink (α : Type) : Type := SinkM Encoder Fault α

namespace OnSink

/-- `writer.write_all`, for the bytes of one frame or of a part of one. -/
def write (bytes : Bytes) : OnSink Unit := SinkM.writeAll Encoder.write bytes

/-- `encode_schema`, and `encode_schema_annotations` when there are any: too
many annotations are refused before their first byte. -/
def writeSchema (typeId : WireTypeId) (entry : SchemaEntry) : OnSink Unit := do
  write (encodeSchema typeId entry)
  if entry.annotations = [] then pure ()
  else
    match encodeSchemaAnnotations typeId entry.annotations with
    | .ok bytes => write bytes
    | .error message => SinkM.fail (.error (.annotations message))

/-- `ensure_registered_slow`. -/
def ensureRegisteredSlow (schema : Schema) : OnSink WireTypeId := do
  let e ← SinkM.get
  match e.schemaIds.lookup (.name schema.entry.name) with
  | some wireId =>
    match e.registry.get wireId with
    | none => SinkM.fail (.error (.corrupted wireId))
    | some existing =>
      if existing = schema.entry then pure wireId
      else SinkM.fail (.error (.differentDefinition schema.entry.name))
  | none =>
    match e.registry.nextTypeId with
    | none => SinkM.fail .panic
    | some (id, registry) => do
        SinkM.modify fun e => { e with registry := registry }
        writeSchema id schema.entry
        let e ← SinkM.get
        match e.registry.register id schema.entry with
        | .error _ => SinkM.fail .panic
        | .ok registry => do
            SinkM.modify fun e =>
              { e with
                registry := registry
                schemaIds := e.schemaIds.insert (.name schema.entry.name) id }
            pure id

/-- `ensure_registered`. -/
def ensureRegistered (schema : Schema) : OnSink WireTypeId := do
  let e ← SinkM.get
  match e.dynamicSchemaCache.lookup schema with
  | some wireId => pure wireId
  | none => do
      let wireId ← ensureRegisteredSlow schema
      SinkM.modify fun e => e.cacheSchema schema wireId
      pure wireId

/-- The bytes of a timestamp reset frame. -/
def resetFrame (ts : UInt64) : Bytes := [FrameTag.timestampReset.byte] ++ leBytes 8 ts.toNat

/-- `encode_timestamp_delta`. -/
def encodeTimestampDelta (ts : UInt64) : OnSink Nat := do
  let e ← SinkM.get
  if ts < e.timestampBaseNs ∨ maxTimestampDeltaNs < (ts - e.timestampBaseNs).toNat then do
    write (resetFrame ts)
    SinkM.modify fun e => { e with timestampBaseNs := ts }
    pure 0
  else do
    SinkM.modify fun e => { e with timestampBaseNs := ts }
    pure (ts - e.timestampBaseNs).toNat

/-- The bytes of an event frame. -/
def eventFrame (typeId : WireTypeId) (delta : Nat) (fields : Bytes) : Bytes :=
  [FrameTag.event.byte] ++ leBytes 2 typeId.toNat ++ encodeU24Le delta ++ fields

/-- The event header and the encoded fields. -/
def writeEventFrame (typeId : WireTypeId) (ts : UInt64) (fields : Bytes) : OnSink Unit := do
  let delta ← encodeTimestampDelta ts
  write (eventFrame typeId delta fields)

/-- `register_fast_id`. -/
def registerFastId (type : TraceType) : OnSink Unit := do
  writeSchema type.typeSlot type.schemaEntry
  let e ← SinkM.get
  match e.registry.register type.typeSlot type.schemaEntry with
  | .error message => SinkM.fail (.error (.collision type.typeSlot message))
  | .ok registry =>
    SinkM.modify fun e =>
      { e with
        registry := registry
        registeredIds := Function.update e.registeredIds type.typeSlot true }

/-- `resolve_dynamic_wire_id`. -/
def resolveDynamicWireId (identity : Nat) (typeId : Nat) (type : TraceType) :
    OnSink WireTypeId := do
  let e ← SinkM.get
  match e.schemaIds.lookup (.rustType typeId) with
  | some existing => do
      SinkM.modify fun e => e.cacheSlot type.typeSlot existing
      pure existing
  | none => do
      let id ← ensureRegistered ⟨identity, type.schemaEntry⟩
      SinkM.modify fun e =>
        { e with schemaIds := e.schemaIds.insert (.rustType typeId) id }.cacheSlot type.typeSlot id
      pure id

/-- The wire id of a typed write. -/
def wireIdOf (identity : Nat) (typeId : Nat) (type : TraceType) : OnSink WireTypeId := do
  let e ← SinkM.get
  if type.typeSlot ≠ 0 ∧ type.typeSlot < staticWireIdLimit then
    if e.registeredIds type.typeSlot then pure type.typeSlot
    else do
      registerFastId type
      pure type.typeSlot
  else
    if e.slotCache.getD type.typeSlot.toNat 0 ≠ 0 then
      pure (e.slotCache.getD type.typeSlot.toNat 0 - 1).toUInt16
    else resolveDynamicWireId identity typeId type

/-- `intern_string`: the id is taken and remembered before its frame is written. -/
def internString (s : Text) : OnSink UInt32 := do
  let e ← SinkM.get
  match e.stringPool.lookup s with
  | some id => pure id
  | none =>
    let id := e.nextPoolId
    if id.toNat + 1 < 2 ^ 32 then do
      SinkM.modify fun e =>
        { e with
          nextPoolId := id + 1
          stringPool := e.stringPool.insert s id }
      write (encodeStringPool [⟨id, s.bytes⟩])
      pure id
    else SinkM.fail .panic

/-- `intern_stack_frames`, in the same order. -/
def internStackFrames (frames : List UInt64) : OnSink UInt32 := do
  let e ← SinkM.get
  match e.stackPool.lookup frames with
  | some id => pure id
  | none =>
    let id := e.nextStackPoolId
    if id.toNat + 1 < 2 ^ 32 then do
      SinkM.modify fun e =>
        { e with
          nextStackPoolId := id + 1
          stackPool := e.stackPool.insert frames id }
      write (encodeStackPool [⟨id, frames⟩])
      pure id
    else SinkM.fail .panic

end OnSink

variable {program : Program}

/-- `write_event`, `write::<T>`, the registrations and the pools. -/
def Command.performTo : Command program → OnSink Response
  | .op (.registerSchema identity name fields) => do
      let schema : Schema := ⟨identity, ⟨name, fields, []⟩⟩
      let _ ← OnSink.ensureRegistered schema
      pure (.schema schema)
  | .op (.registerExisting schema) => do
      let id ← OnSink.ensureRegistered schema
      pure (.wireId id)
  | .op (.writeEvent schema ts values) => do
      let typeId ← OnSink.ensureRegistered schema
      if values.length ≠ schema.entry.fields.length then
        SinkM.fail (.error (.valueCount values.length schema.entry.fields.length schema.entry.name))
      else do
        OnSink.writeEventFrame typeId ts (Encoder.encodeValues schema.entry values)
        pure .written
  | .op (.internString text) => do
      let id ← OnSink.internString text
      pure (.interned id)
  | .op (.internStackFrames frames) => do
      let id ← OnSink.internStackFrames frames
      pure (.interned id)
  | .write identity event => do
      let typeId ← OnSink.wireIdOf identity event.typeId event.type
      OnSink.writeEventFrame typeId event.timestamp event.encodeFields
      pure .written
  | .writeStringPool entries => do
      OnSink.write (encodeStringPool entries)
      pure .written
  | .writeStackPool entries => do
      OnSink.write (encodeStackPool entries)
      pure .written

/-! ## A sink that accepts everything -/

/-- The bytes an encoder has written. -/
def Encoder.size (e : Encoder) : Nat := e.out.length

namespace OnSink

section

variable (e : Encoder)
include e

theorem lifts_write (bytes : Bytes) : Lifts Encoder.size (write bytes) e (.ok (), e.write bytes) :=
  .writeAll (by simp [Encoder.size, Encoder.write])

theorem lifts_writeSchema (typeId : WireTypeId) (entry : SchemaEntry) :
    Lifts Encoder.size (writeSchema typeId entry) e (e.writeSchema typeId entry) := by
  unfold writeSchema Encoder.writeSchema
  refine .bind_ok (lifts_write e _) ?_
  by_cases hnone : entry.annotations = []
  · rw [if_pos hnone, if_pos hnone]
    exact .pure ()
  · rw [if_neg hnone, if_neg hnone]
    cases encodeSchemaAnnotations typeId entry.annotations with
    | ok bytes => exact lifts_write _ bytes
    | error message => exact .fail _

theorem lifts_ensureRegisteredSlow (schema : Schema) :
    Lifts Encoder.size (ensureRegisteredSlow schema) e (e.ensureRegisteredSlow schema) := by
  apply Lifts.get
  unfold Encoder.ensureRegisteredSlow
  cases e.schemaIds.lookup (.name schema.entry.name) with
  | some wireId =>
    dsimp only
    cases e.registry.get wireId with
    | none => exact .fail _
    | some existing =>
      dsimp only
      split
      · exact .pure wireId
      · exact .fail _
  | none =>
    dsimp only
    cases e.registry.nextTypeId with
    | none => exact .fail _
    | some pair =>
      obtain ⟨id, registry⟩ := pair
      have hwrite := lifts_writeSchema { e with registry := registry } id schema.entry
      refine .bind_ok (.modify rfl) ?_
      revert hwrite
      dsimp only
      cases Encoder.writeSchema { e with registry := registry } id schema.entry with
      | mk result e₁ =>
        intro hwrite
        cases result with
        | error fault => exact hwrite.bind_error
        | ok done =>
          refine hwrite.bind_ok (.get ?_)
          dsimp only
          cases e₁.registry.register id schema.entry with
          | error message => exact .fail _
          | ok registry => exact .bind_ok (.modify rfl) (.pure id)

theorem lifts_ensureRegistered (schema : Schema) :
    Lifts Encoder.size (ensureRegistered schema) e (e.ensureRegistered schema) := by
  apply Lifts.get
  unfold Encoder.ensureRegistered
  cases e.dynamicSchemaCache.lookup schema with
  | some wireId => exact .pure wireId
  | none =>
    have hslow := lifts_ensureRegisteredSlow e schema
    revert hslow
    dsimp only
    cases e.ensureRegisteredSlow schema with
    | mk result e₁ =>
      intro hslow
      cases result with
      | error fault => exact hslow.bind_error
      | ok wireId => exact hslow.bind_ok (.bind_ok (.modify rfl) (.pure wireId))

theorem lifts_writeEventFrame (typeId : WireTypeId) (ts : UInt64) (fields : Bytes) :
    Lifts Encoder.size (writeEventFrame typeId ts fields) e
      (.ok (), e.writeEventFrame typeId ts fields) := by
  unfold writeEventFrame Encoder.writeEventFrame Encoder.encodeTimestampDelta
  by_cases hreset : ts < e.timestampBaseNs ∨ maxTimestampDeltaNs < (ts - e.timestampBaseNs).toNat
  · simp only [if_pos hreset]
    refine .bind_ok (a := 0) (.get ?_) (lifts_write _ _)
    rw [if_pos hreset]
    exact .bind_ok (lifts_write e _) (.bind_ok (.modify rfl) (.pure 0))
  · simp only [if_neg hreset]
    refine .bind_ok (a := (ts - e.timestampBaseNs).toNat) (.get ?_) (lifts_write _ _)
    rw [if_neg hreset]
    exact .bind_ok (.modify rfl) (.pure _)

theorem lifts_registerFastId (type : TraceType) :
    Lifts Encoder.size (registerFastId type) e (e.registerFastId type) := by
  have hwrite := lifts_writeSchema e type.typeSlot type.schemaEntry
  unfold registerFastId Encoder.registerFastId
  revert hwrite
  cases e.writeSchema type.typeSlot type.schemaEntry with
  | mk result e₁ =>
    intro hwrite
    cases result with
    | error fault => exact hwrite.bind_error
    | ok done =>
      refine hwrite.bind_ok (.get ?_)
      dsimp only
      cases e₁.registry.register type.typeSlot type.schemaEntry with
      | error message => exact .fail _
      | ok registry => exact .modify rfl

theorem lifts_resolveDynamicWireId (identity typeId : Nat) (type : TraceType) :
    Lifts Encoder.size (resolveDynamicWireId identity typeId type) e
      (e.resolveDynamicWireId identity typeId type) := by
  have hsize : ∀ (e : Encoder) (id : WireTypeId), (e.cacheSlot type.typeSlot id).size = e.size := by
    intro e id
    unfold Encoder.cacheSlot
    split <;> rfl
  apply Lifts.get
  unfold Encoder.resolveDynamicWireId
  cases e.schemaIds.lookup (.rustType typeId) with
  | some existing => exact .bind_ok (.modify (hsize e existing)) (.pure existing)
  | none =>
    have hensure := lifts_ensureRegistered e ⟨identity, type.schemaEntry⟩
    revert hensure
    dsimp only
    cases e.ensureRegistered ⟨identity, type.schemaEntry⟩ with
    | mk result e₁ =>
      intro hensure
      cases result with
      | error fault => exact hensure.bind_error
      | ok id => exact hensure.bind_ok (.bind_ok (.modify (hsize _ id)) (.pure id))

theorem lifts_wireIdOf (identity typeId : Nat) (type : TraceType) :
    Lifts Encoder.size (wireIdOf identity typeId type) e (e.wireIdOf identity typeId type) := by
  apply Lifts.get
  unfold Encoder.wireIdOf
  dsimp only
  by_cases hfast : type.typeSlot ≠ 0 ∧ type.typeSlot < staticWireIdLimit
  · simp only [if_pos hfast]
    split
    · exact .pure _
    · have hregister := lifts_registerFastId e type
      revert hregister
      cases e.registerFastId type with
      | mk result e₁ =>
        intro hregister
        cases result with
        | error fault => exact hregister.bind_error
        | ok done => exact hregister.bind_ok (.pure _)
  · simp only [if_neg hfast]
    split
    · exact .pure _
    · exact lifts_resolveDynamicWireId e identity typeId type

theorem lifts_internString (s : Text) :
    Lifts Encoder.size (internString s) e (e.internString s) := by
  apply Lifts.get
  unfold Encoder.internString
  cases e.stringPool.lookup s with
  | some id => exact .pure id
  | none =>
    dsimp only
    split
    · exact .bind_ok (.modify rfl) (.bind_ok (lifts_write _ _) (.pure _))
    · exact .fail _

theorem lifts_internStackFrames (frames : List UInt64) :
    Lifts Encoder.size (internStackFrames frames) e (e.internStackFrames frames) := by
  apply Lifts.get
  unfold Encoder.internStackFrames
  cases e.stackPool.lookup frames with
  | some id => exact .pure id
  | none =>
    dsimp only
    split
    · exact .bind_ok (.modify rfl) (.bind_ok (lifts_write _ _) (.pure _))
    · exact .fail _

end

end OnSink

theorem Command.lifts_performTo (e : Encoder) (command : Command program) :
    Lifts Encoder.size command.performTo e (command.perform e) := by
  have hrespond : ∀ {α : Type} {m : OnSink α} {result : Encoder.Result α} (wrap : α → Response),
      Lifts Encoder.size m e result →
      Lifts Encoder.size (m >>= fun a => pure (wrap a)) e (Encoder.respond wrap result) := by
    intro α m result wrap h
    obtain ⟨result, e₁⟩ := result
    cases result with
    | ok a => exact h.bind_ok (.pure (wrap a))
    | error fault => exact h.bind_error
  cases command with
  | op action =>
    cases action with
    | registerSchema identity name fields =>
      have hensure := OnSink.lifts_ensureRegistered e ⟨identity, ⟨name, fields, []⟩⟩
      unfold performTo perform Op.perform Encoder.respond Encoder.registerSchema
      revert hensure
      dsimp only
      cases e.ensureRegistered ⟨identity, ⟨name, fields, []⟩⟩ with
      | mk result e₁ =>
        intro hensure
        cases result with
        | error fault => exact hensure.bind_error
        | ok id => exact hensure.bind_ok (.pure _)
    | registerExisting schema => exact hrespond .wireId (OnSink.lifts_ensureRegistered e schema)
    | writeEvent schema ts values =>
      have hensure := OnSink.lifts_ensureRegistered e schema
      unfold performTo perform Op.perform Encoder.respond Encoder.writeEvent
      revert hensure
      dsimp only
      cases e.ensureRegistered schema with
      | mk result e₁ =>
        intro hensure
        cases result with
        | error fault => exact hensure.bind_error
        | ok id =>
          refine hensure.bind_ok ?_
          dsimp only
          split
          · exact .fail _
          · exact .bind_ok (OnSink.lifts_writeEventFrame e₁ id ts _) (.pure _)
    | internString text => exact hrespond .interned (OnSink.lifts_internString e text)
    | internStackFrames frames =>
      exact hrespond .interned (OnSink.lifts_internStackFrames e frames)
  | write identity event =>
    have hwire := OnSink.lifts_wireIdOf e identity event.typeId event.type
    unfold performTo perform Encoder.respond Encoder.writeTyped
    revert hwire
    dsimp only
    cases e.wireIdOf identity event.typeId event.type with
    | mk result e₁ =>
      intro hwire
      cases result with
      | error fault => exact hwire.bind_error
      | ok id =>
        exact hwire.bind_ok (.bind_ok (OnSink.lifts_writeEventFrame e₁ id _ _) (.pure _))
  | writeStringPool _ | writeStackPool _ => exact .bind_ok (OnSink.lifts_write e _) (.pure _)

end Dial9.TraceFormat
