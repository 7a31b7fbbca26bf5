/-
# Operations that a sink interrupts

A sink that stops between two frames of an operation leaves a stream that the
decoder reads to its end, and what was changed in the encoder by then decides
whether the two stay in step. They do while a registration is under way, before
a reset frame and right behind one. They do not when a pool id was handed out
without its frame, or when the time base moved without the event that carries
the step; and a stop inside a frame leaves bytes that no later frame can mend.
-/

import Dial9.TraceFormat.InStep
import Dial9.TraceFormat.OnSink

namespace Dial9.TraceFormat

open Dial9.Lib Dial9.Lib.Reader

variable {program : Program} {untimed : SchemaEntry → Prop}

/-! ## The frames of a registration -/

/-- The schema frame, and the annotation frame when there are annotations that fit one. -/
def schemaFrames (typeId : WireTypeId) (entry : SchemaEntry) : List Bytes :=
  encodeSchema typeId entry ::
    if entry.annotations = [] then []
    else (encodeSchemaAnnotations typeId entry.annotations).toOption.toList

theorem flatten_schemaFrames (typeId : WireTypeId) (entry : SchemaEntry) :
    (schemaFrames typeId entry).flatten = schemaBytes typeId entry := by
  unfold schemaFrames schemaBytes
  rw [List.flatten_cons]
  congr 1
  split
  · rfl
  · cases encodeSchemaAnnotations typeId entry.annotations with
    | ok bytes => simp [Except.toOption]
    | error message => rfl

/-- The frames a request writes. -/
def Request.frames (program : Program) (e : Encoder) (request : Request) : List Bytes :=
  (request.frame program e).elim [] fun id => schemaFrames id (request.entry program)

variable {whole rest : List Bytes} {e : Encoder} {ts : UInt64}

variable {typeId : WireTypeId} {request : Request}

theorem schemaFrames_split {entry : SchemaEntry}
    (hframes : schemaFrames typeId entry = whole ++ rest) (hrest : rest ≠ []) :
    whole = [] ∨ whole = [encodeSchema typeId entry] ∧ entry.annotations ≠ [] ∧
      ∃ bytes, encodeSchemaAnnotations typeId entry.annotations = .ok bytes := by
  cases whole with
  | nil => exact .inl rfl
  | cons first more =>
    right
    unfold schemaFrames at hframes
    obtain ⟨rfl, hmore⟩ := List.cons.inj hframes
    by_cases hnone : entry.annotations = []
    · rw [if_pos hnone] at hmore
      exact absurd (List.append_eq_nil_iff.mp hmore.symm).2 hrest
    · rw [if_neg hnone] at hmore
      cases hencode : encodeSchemaAnnotations typeId entry.annotations with
      | error message =>
        rw [hencode] at hmore
        exact absurd (List.append_eq_nil_iff.mp hmore.symm).2 hrest
      | ok bytes =>
        rw [hencode] at hmore
        obtain ⟨rfl, -⟩ | ⟨-, rfl⟩ := List.append_eq_singleton_iff.mp hmore.symm
        · exact ⟨rfl, hnone, bytes, rfl⟩
        · exact absurd rfl hrest

theorem encodeSchema_ne_nil (typeId : WireTypeId) (entry : SchemaEntry) :
    encodeSchema typeId entry ≠ [] := by
  simp [encodeSchema]

theorem encodeSchemaAnnotations_ne_nil {annotations : List FieldAnnotation} {bytes : Bytes}
    (h : encodeSchemaAnnotations typeId annotations = .ok bytes) : bytes ≠ [] := by
  unfold encodeSchemaAnnotations at h
  split at h
  · obtain rfl := Except.ok.inj h
    simp
  · cases h

theorem Encoder.write_nil (e : Encoder) : e.write [] = e := by
  simp [Encoder.write]

/-! ## A registration that is cut short -/

namespace OnSink

theorem write_cut {bytes : Bytes} (hbytes : bytes ≠ []) :
    write bytes ⟨e, some 0⟩ = (.error .sink, ⟨e, some 0⟩) := by
  rw [write, SinkM.writeAll_none_left Encoder.write hbytes, Encoder.write_nil]

theorem write_whole (e : Encoder) (bytes : Bytes) (k : Nat) :
    write bytes ⟨e, some (bytes.length + k)⟩ = (.ok (), ⟨e.write bytes, some k⟩) := by
  rw [write, SinkM.writeAll_of_le Encoder.write (Nat.le_add_right _ _), Nat.add_sub_cancel_left]

theorem writeSchema_cut {entry : SchemaEntry}
    (hframes : schemaFrames typeId entry = whole ++ rest) (hrest : rest ≠ []) :
    writeSchema typeId entry ⟨e, some whole.flatten.length⟩ =
      (.error .sink, ⟨e.write whole.flatten, some 0⟩) := by
  unfold writeSchema
  obtain rfl | ⟨rfl, hannotated, bytes, hencode⟩ := schemaFrames_split hframes hrest
  · rw [List.flatten_nil, Encoder.write_nil]
    exact SinkM.bind_of_error (write_cut (encodeSchema_ne_nil typeId entry))
  · rw [List.flatten_singleton]
    refine (SinkM.bind_of_ok (write_whole e _ 0)).trans ?_
    rw [if_neg hannotated, hencode]
    exact write_cut (encodeSchemaAnnotations_ne_nil hencode)

end OnSink

/-- The next id is taken. -/
def Encoder.reserve (e : Encoder) : Encoder :=
  { e with registry := { e.registry with nextId := e.registry.nextId + 1 } }

namespace OnSink

theorem ensureRegisteredSlow_cut {schema : Schema}
    (hfree : e.schemaIds.lookup (.name schema.entry.name) = none)
    (hroom : e.registry.nextId.toNat + 1 < 2 ^ 16)
    (hframes : schemaFrames e.registry.nextId schema.entry = whole ++ rest) (hrest : rest ≠ []) :
    ensureRegisteredSlow schema ⟨e, some whole.flatten.length⟩ =
      (.error .sink, ⟨e.reserve.write whole.flatten, some 0⟩) := by
  unfold ensureRegisteredSlow
  rw [SinkM.get_bind, hfree]
  simp only [SchemaRegistry.nextTypeId, if_pos hroom]
  rw [SinkM.modify_bind]
  exact SinkM.bind_of_error (writeSchema_cut hframes hrest)

theorem ensureRegistered_cut {schema : Schema} (hunnamed : e.Unnamed schema)
    (hroom : e.registry.nextId.toNat + 1 < 2 ^ 16)
    (hframes : schemaFrames e.registry.nextId schema.entry = whole ++ rest) (hrest : rest ≠ []) :
    ensureRegistered schema ⟨e, some whole.flatten.length⟩ =
      (.error .sink, ⟨e.reserve.write whole.flatten, some 0⟩) := by
  unfold ensureRegistered
  rw [SinkM.get_bind, hunnamed.1]
  exact SinkM.bind_of_error (ensureRegisteredSlow_cut hunnamed.2 hroom hframes hrest)

end OnSink

namespace Request

variable (program)

/-- The request on a sink. -/
def resolveTo : Request → OnSink WireTypeId
  | handle schema => OnSink.ensureRegistered schema
  | typed identity t => OnSink.wireIdOf identity t (program.types t)

/-- The encoder once a request has started to write: a dynamic id is taken. -/
def reserved (e : Encoder) (request : Request) : Encoder :=
  if request.Allocates program e then e.reserve else e

variable {program}

theorem lifts_resolveTo (e : Encoder) (request : Request) :
    Lifts Encoder.size (request.resolveTo program) e (request.resolve program e) := by
  cases request with
  | handle schema => exact OnSink.lifts_ensureRegistered e schema
  | typed identity t => exact OnSink.lifts_wireIdOf e identity t (program.types t)

theorem frames_cases (h : request.frames program e ≠ []) :
    (request.Allocates program e ∧ e.registry.nextId.toNat + 1 < 2 ^ 16 ∧
      request.frames program e = schemaFrames e.registry.nextId (request.entry program)) ∨
    (¬ request.Allocates program e ∧ request.Claims program e ∧
      request.frames program e =
        schemaFrames (request.slot program) (request.entry program)) := by
  unfold frames frame at h ⊢
  by_cases hallocates : request.Allocates program e
  · left
    rw [if_pos hallocates] at h ⊢
    by_cases hroom : e.registry.nextId.toNat + 1 < 2 ^ 16
    · rw [Encoder.nextTypeId_eq hroom]
      exact ⟨hallocates, hroom, rfl⟩
    · rw [Encoder.nextTypeId_eq_none hroom] at h
      exact absurd rfl h
  · right
    rw [if_neg hallocates] at h ⊢
    by_cases hclaims : request.Claims program e
    · rw [if_pos hclaims]
      exact ⟨hallocates, hclaims, rfl⟩
    · rw [if_neg hclaims] at h
      exact absurd rfl h

theorem resolveTo_cut (hframes : request.frames program e = whole ++ rest) (hrest : rest ≠ []) :
    request.resolveTo program ⟨e, some whole.flatten.length⟩ =
      (.error .sink, ⟨(request.reserved program e).write whole.flatten, some 0⟩) := by
  have hsome : request.frames program e ≠ [] := by
    rw [hframes]
    simp [hrest]
  unfold reserved
  obtain ⟨hallocates, hroom, hof⟩ | ⟨hnot, hclaims, hof⟩ := frames_cases hsome
  · rw [if_pos hallocates]
    rw [hof] at hframes
    cases request with
    | handle schema => exact OnSink.ensureRegistered_cut hallocates hroom hframes hrest
    | typed identity t =>
      obtain ⟨hslow, hunset, hrust, hunnamed⟩ := hallocates
      have hslot : ¬ ((program.types t).typeSlot ≠ 0 ∧
          (program.types t).typeSlot < staticWireIdLimit) := hslow
      change OnSink.wireIdOf identity t (program.types t) _ = _
      unfold OnSink.wireIdOf OnSink.resolveDynamicWireId
      rw [SinkM.get_bind, if_neg hslot, if_neg (not_not.mpr hunset), SinkM.get_bind, hrust]
      exact SinkM.bind_of_error (OnSink.ensureRegistered_cut hunnamed hroom hframes hrest)
  · rw [if_neg hnot]
    rw [hof] at hframes
    cases request with
    | handle schema => exact hclaims.elim
    | typed identity t =>
      have hslot : (program.types t).typeSlot ≠ 0 ∧
          (program.types t).typeSlot < staticWireIdLimit := hclaims.1
      have hunwritten : ¬ e.registeredIds (program.types t).typeSlot = true := by
        rw [hclaims.2]
        exact Bool.false_ne_true
      change OnSink.wireIdOf identity t (program.types t) _ = _
      unfold OnSink.wireIdOf OnSink.registerFastId
      rw [SinkM.get_bind, if_pos hslot, if_neg hunwritten]
      exact SinkM.bind_of_error (SinkM.bind_of_error (OnSink.writeSchema_cut hframes hrest))

end Request

/-! ## An event that is cut short -/

/-- No delta leads from the time base to the timestamp. -/
def Encoder.Resets (e : Encoder) (ts : UInt64) : Prop :=
  ts < e.timestampBaseNs ∨ maxTimestampDeltaNs < (ts - e.timestampBaseNs).toNat

namespace OnSink

theorem eventFrame_ne_nil (typeId : WireTypeId) (delta : Nat) (fields : Bytes) :
    eventFrame typeId delta fields ≠ [] := by
  simp [eventFrame]

theorem resetFrame_ne_nil (ts : UInt64) : resetFrame ts ≠ [] := by
  simp [resetFrame]

theorem length_resetFrame (ts : UInt64) : (resetFrame ts).length = 9 := by
  simp [resetFrame, leBytes_length]

theorem encodeTimestampDelta_resets (h : e.Resets ts) (room : Option Nat) :
    encodeTimestampDelta ts ⟨e, room⟩ =
      (write (resetFrame ts) >>= fun _ =>
        (SinkM.modify fun e => { e with timestampBaseNs := ts }) >>= fun _ => pure 0) ⟨e,
          room⟩ := by
  unfold encodeTimestampDelta
  rw [SinkM.get_bind]
  exact congrFun (if_pos h) _

theorem encodeTimestampDelta_steps (h : ¬ e.Resets ts) (room : Option Nat) :
    encodeTimestampDelta ts ⟨e, room⟩ =
      (.ok (ts - e.timestampBaseNs).toNat, ⟨{ e with timestampBaseNs := ts }, room⟩) := by
  unfold encodeTimestampDelta
  rw [SinkM.get_bind]
  exact congrFun (if_neg h) _

theorem writeEventFrame_cut (hstep : e.Resets ts ∨ ts = e.timestampBaseNs) (typeId : WireTypeId)
    (fields : Bytes) :
    writeEventFrame typeId ts fields ⟨e, some 0⟩ = (.error .sink, ⟨e, some 0⟩) := by
  unfold writeEventFrame
  by_cases hreset : e.Resets ts
  · apply SinkM.bind_of_error
    rw [encodeTimestampDelta_resets hreset]
    exact SinkM.bind_of_error (write_cut (resetFrame_ne_nil ts))
  · obtain rfl := hstep.resolve_left hreset
    rw [SinkM.bind_of_ok (encodeTimestampDelta_steps hreset _)]
    exact write_cut (eventFrame_ne_nil _ _ _)

theorem writeEventFrame_reset (hreset : e.Resets ts) (typeId : WireTypeId) (fields : Bytes) :
    writeEventFrame typeId ts fields ⟨e, some 9⟩ = (.error .sink,
      ⟨{ e.write (resetFrame ts) with timestampBaseNs := ts }, some 0⟩) := by
  have hwrite : write (resetFrame ts) ⟨e, some 9⟩ =
      (.ok (), ⟨e.write (resetFrame ts), some 0⟩) := by
    have hwhole := write_whole e (resetFrame ts) 0
    rwa [length_resetFrame] at hwhole
  have hdelta : encodeTimestampDelta ts ⟨e, some 9⟩ =
      (.ok 0, ⟨{ e.write (resetFrame ts) with timestampBaseNs := ts }, some 0⟩) := by
    rw [encodeTimestampDelta_resets hreset, SinkM.bind_of_ok hwrite, SinkM.modify_bind]
    rfl
  unfold writeEventFrame
  rw [SinkM.bind_of_ok hdelta]
  exact write_cut (eventFrame_ne_nil _ _ _)

end OnSink

namespace Command

/-- The timestamp and the encoded fields of the event a command writes. -/
def event : Command program → Option (UInt64 × Bytes)
  | .op (.writeEvent schema ts values) =>
    if values.length = schema.entry.fields.length then
      some (ts, Encoder.encodeValues schema.entry values)
    else none
  | .write _ event => some (event.timestamp, event.encodeFields)
  | _ => none

/-- What a command does once its request is answered. -/
def conclude : Command program → WireTypeId → OnSink Response
  | .op (.registerSchema identity name fields), _ => pure (.schema ⟨identity, ⟨name, fields, []⟩⟩)
  | .op (.registerExisting _), id => pure (.wireId id)
  | .op (.writeEvent schema ts values), id =>
    if values.length ≠ schema.entry.fields.length then
      SinkM.fail (.error (.valueCount values.length schema.entry.fields.length schema.entry.name))
    else do
      OnSink.writeEventFrame id ts (Encoder.encodeValues schema.entry values)
      pure .written
  | .write _ event, id => do
      OnSink.writeEventFrame id event.timestamp event.encodeFields
      pure .written
  | _, _ => pure .written

variable {command : Command program}

theorem performTo_request (h : command.request = some request) :
    command.performTo = request.resolveTo program >>= command.conclude := by
  cases command with
  | op action =>
    cases action with
    | registerSchema _ _ _ | registerExisting _ | writeEvent _ _ _ =>
      obtain rfl := Option.some.inj h
      rfl
    | internString _ | internStackFrames _ => cases h
  | write identity event =>
    obtain rfl := Option.some.inj h
    rfl
  | writeStringPool _ | writeStackPool _ => cases h

theorem conclude_event {fields : Bytes} (h : command.event = some (ts, fields)) (id : WireTypeId) :
    command.conclude id = OnSink.writeEventFrame id ts fields >>= fun _ => pure .written := by
  cases command with
  | op action =>
    cases action with
    | writeEvent schema ts' values =>
      by_cases hcount : values.length = schema.entry.fields.length
      · simp only [event, if_pos hcount] at h
        obtain ⟨rfl, rfl⟩ := Prod.mk.inj (Option.some.inj h)
        exact if_neg (not_not.mpr hcount)
      · simp only [event, if_neg hcount] at h
        cases h
    | registerSchema _ _ _ | registerExisting _ | internString _ | internStackFrames _ => cases h
  | write identity event =>
    obtain ⟨rfl, rfl⟩ := Prod.mk.inj (Option.some.inj h)
    rfl
  | writeStringPool _ | writeStackPool _ => cases h

/-! ## The steps that leave a session intact -/

/-- A step on a sink with that much room leaves the session intact: the sink
takes all of it, or it stops between two frames of a registration, before an
event whose timestamp is that of the base or needs a reset frame, or right
behind the reset frame. -/
inductive Harmless (e : Encoder) (command : Command program) : Option Nat → Prop
  | accepted {room : Option Nat}
      (haccepts : Accepts room ((command.perform e).2.size - e.size)) : Harmless e command room
  | registering {request : Request} {whole rest : List Bytes}
      (hrequest : command.request = some request)
      (hframes : request.frames program e = whole ++ rest) (hrest : rest ≠ []) :
      Harmless e command (some whole.flatten.length)
  | beforeEvent {request : Request} {ts : UInt64} {fields : Bytes}
      (hrequest : command.request = some request) (hevent : command.event = some (ts, fields))
      (hstep : e.Resets ts ∨ ts = e.timestampBaseNs) :
      Harmless e command (some (request.frames program e).flatten.length)
  | afterReset {request : Request} {ts : UInt64} {fields : Bytes}
      (hrequest : command.request = some request) (hevent : command.event = some (ts, fields))
      (hreset : e.Resets ts) :
      Harmless e command (some ((request.frames program e).flatten.length + 9))

end Command

end Dial9.TraceFormat
