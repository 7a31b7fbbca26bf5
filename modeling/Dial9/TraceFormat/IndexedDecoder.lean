/-
# The decoder over its buffer

`Decoder` as the source has it: the whole buffer, a position into it, and the
state. The three entry points are written out with their index arithmetic; one
turn of each does what the turn of the suffix decoder does, so it moves forward
and stays in the buffer. The one sum that can leave its word is the unchecked
timestamp of the callback loop.
-/

import Dial9.TraceFormat.IndexedFrames
import Dial9.TraceFormat.ForEach

namespace Dial9.TraceFormat

open Dial9.Lib Dial9.Lib.Cursor

/-- The buffer, the position in it, and the state. -/
structure DecoderAt where
  data : Slice
  pos : Nat
  state : DecoderState

namespace DecoderAt

/-- The position is in the buffer or at its end. -/
def InRange (d : DecoderAt) : Prop := d.pos ≤ d.data.length

/-- The decoder of the suffix at the position. -/
def toDecoder (d : DecoderAt) : Decoder := ⟨d.data.bytes.drop d.pos, d.pos, d.state⟩

/-- Bytes left. -/
def left (d : DecoderAt) : Nat := d.data.length - d.pos

/-- `Decoder::new`. -/
def newAt (data : Slice) : Outcome Unit DecoderAt := do
  let _ ← decodeHeaderAt data
  pure ⟨data, headerSize, .new⟩

/-- `try_consume_reset_header`, with the decoder it leaves when it succeeds. -/
def tryConsumeResetHeaderAt (d : DecoderAt) : Outcome Unit (Option DecoderAt) := do
  let stop ← Outcome.add d.pos headerSize
  if stop ≤ d.data.length then
    let rest ← d.data.suffix d.pos
    match decodeHeaderAt rest with
    | .value _ => do
        let pos ← Outcome.add d.pos headerSize
        pure (some ⟨d.data, pos, .new⟩)
    | .stop _ => pure none
    | .panic => .panic
  else pure none

section Turns

variable {V F : Type}

/-- A frame is accepted at the decoder's position, after its bytes. -/
def acceptAt (flavour : Flavour V F) (d : DecoderAt) (frame : Frame V F) :
    Turn DecoderAt (DecodedFrame V F) Stop :=
  match d.state.accept flavour frame with
  | .emit decoded state => .emit decoded { d with state := state }
  | .silent state => .silent { d with state := state }
  | .halt message state => .halt (.error ⟨d.pos, message⟩) { d with state := state }

/-- One turn of `next_frame` over one of the two frame decoders. -/
def nextTurnAtWith (flavour : Flavour V F)
    (decode : (WireTypeId → Option SchemaInfo) → UInt64 → Slice → Outcome Unit (Frame V F × Nat))
    (d : DecoderAt) : Outcome Unit (Turn DecoderAt (DecodedFrame V F) Stop) :=
  if d.data.length ≤ d.pos then .value (.halt .exhausted d)
  else do
    let header ← d.tryConsumeResetHeaderAt
    match header with
    | some next => pure (.silent next)
    | none => do
        let remaining ← d.data.suffix d.pos
        match decode d.state.schemaInfo d.state.timestampBaseNs remaining with
        | .value (frame, consumed) => do
            let pos ← Outcome.add d.pos consumed
            pure (acceptAt flavour { d with pos := pos } frame)
        | .stop _ => pure (.halt .exhausted d)
        | .panic => .panic

end Turns

/-- One turn of `next_frame`. -/
def nextTurnAt := nextTurnAtWith owned decodeFrameAt

/-- One turn of `next_frame_ref`. -/
def nextTurnRefAt := nextTurnAtWith zeroCopy decodeFrameRefAt

section Loops

variable {α ε : Type}

/-- The calls of `next_frame` on itself, on a call stack with room for so many. -/
def settleAt (turn : DecoderAt → Outcome Unit (Turn DecoderAt α ε)) :
    Nat → DecoderAt → Outcome Unit (Turn DecoderAt α ε)
  | 0, _ => .panic
  | room + 1, d => do
      let result ← turn d
      match result with
      | .silent next => settleAt turn room next
      | .emit value next => pure (.emit value next)
      | .halt reason last => pure (.halt reason last)

/-- A decode loop, turn by turn; a loop that goes on after `turns` turns stops. -/
def loopAt (turn : DecoderAt → Outcome Unit (Turn DecoderAt α ε)) :
    Nat → DecoderAt → Outcome Unit (ε × DecoderAt)
  | 0, _ => .stop ()
  | turns + 1, d => do
      let result ← turn d
      match result with
      | .silent next => loopAt turn turns next
      | .emit _ next => loopAt turn turns next
      | .halt reason last => pure (reason, last)

end Loops

/-- `next_frame_ref`, with a call for each byte that is left. -/
def nextFrameRefAt (d : DecoderAt) :
    Outcome Unit (Turn DecoderAt (DecodedFrame FieldValueRef Bytes) Stop) :=
  settleAt nextTurnRefAt (d.left + 1) d

/-! ## The callback loop -/

section Callback

variable {α : Type}

/-- An error `self.pos + pos` into the buffer. -/
def errorAt (d : DecoderAt) (pos : Nat) (message : String) : Outcome DecodeError α := do
  let pos ← Outcome.add d.pos pos
  .stop ⟨pos, message⟩

/-- A call whose `None` becomes an error at `pos`. -/
def orErrorAt (d : DecoderAt) (pos : Nat) (message : String) :
    Outcome Unit α → Outcome DecodeError α
  | .value a => .value a
  | .stop _ => d.errorAt pos message
  | .panic => .panic

/-- A field value at `pos`, or an error there. -/
def eventValueAt (d : DecoderAt) (remaining : Slice) (ft : FieldType) (message : String)
    (pos : Nat) : Outcome DecodeError (FieldValueRef × Nat) := do
  let (value, consumed) ←
    d.orErrorAt pos message (FieldValueRef.decodeAt ft remaining pos)
  let pos ← Outcome.add pos consumed
  pure (value, pos)

/-- An optional field: its presence prefix, and its value when that is not zero. -/
def eventOptionalAt (d : DecoderAt) (remaining : Slice) (ft : FieldType) (pos : Nat) :
    Outcome DecodeError (FieldValueRef × Nat) :=
  match remaining.bytes[pos]? with
  | none => d.errorAt pos "truncated optional field prefix"
  | some present => do
      let pos ← Outcome.add pos 1
      if present = 0x00 then pure (.none, pos)
      else d.eventValueAt remaining ft "truncated optional field value" pos

/-- One turn of the inlined field loop. -/
def eventFieldAt (d : DecoderAt) (remaining : Slice) (ftag : UInt8) (pos : Nat) :
    Outcome DecodeError (FieldValueRef × Nat) :=
  match FieldType.fromTag ftag with
  | none => d.errorAt pos ("unknown field type tag 0x" ++ Decoder.hexByte ftag)
  | some fieldType =>
    if fieldType.isOptional then d.eventOptionalAt remaining (.plain fieldType.inner) pos
    else d.eventValueAt remaining fieldType "truncated field value" pos

/-- The inlined field loop. -/
def eventFieldsAt (d : DecoderAt) (remaining : Slice) :
    List UInt8 → Nat → Outcome DecodeError (List FieldValueRef × Nat)
  | [], pos => .value ([], pos)
  | ftag :: tags, pos => do
      let (value, pos) ← d.eventFieldAt remaining ftag pos
      let (values, pos) ← eventFieldsAt d remaining tags pos
      pure (value :: values, pos)

/-- `self.timestamp_base_ns + delta`, which nothing checks. -/
def addTimestamp (base : UInt64) (delta : Nat) : Outcome DecodeError UInt64 :=
  if base.toNat + delta < 2 ^ 64 then .value (UInt64.ofNat (base.toNat + delta)) else .panic

/-- The inlined timestamp. -/
def eventTimestampAt (d : DecoderAt) (remaining : Slice) (cache : SchemaCache) (pos : Nat) :
    Outcome DecodeError (UInt64 × Nat) :=
  if cache.hasTimestampOnWire then do
    let rest ← remaining.suffix pos
    let delta ← d.orErrorAt pos "truncated timestamp delta" (decodeU24LeAt rest)
    let pos ← Outcome.add pos 3
    let timestampNs ← addTimestamp d.state.timestampBaseNs delta
    pure (timestampNs, pos)
  else .value (d.state.timestampBaseNs, pos)

/-- `b.try_into().unwrap()` into an array of `n` bytes, taken as a number. -/
def unwrapWord (n : Nat) (b : Bytes) : Outcome DecodeError Nat :=
  if b.length = n then .value (leNat b) else .panic

/-- The arm for an event frame. -/
def eventFrameAt (d : DecoderAt) (remaining : Slice) :
    Outcome DecodeError (RawEvent × DecoderAt) := do
  let stop ← Outcome.add 1 2
  let id ← Outcome.orStop (remaining.get 1 stop) ⟨d.pos, "truncated event frame"⟩
  let pos ← Outcome.add 1 2
  let id ← unwrapWord 2 id
  let typeId := UInt16.ofNat id
  let cache ← Outcome.orStop (d.state.schemaCache typeId)
    ⟨d.pos, "unknown type_id WireTypeId(" ++ toString typeId ++ ")"⟩
  let (timestampNs, pos) ← d.eventTimestampAt remaining cache pos
  let (values, pos) ← d.eventFieldsAt remaining cache.fieldTags pos
  let pos ← Outcome.add d.pos pos
  pure (⟨typeId, cache.entry.name, timestampNs, values, cache.entry⟩,
    ⟨d.data, pos, { d.state with timestampBaseNs := timestampNs }⟩)

/-- The arm for a timestamp reset. -/
def resetFrameAt (d : DecoderAt) : Outcome DecodeError DecoderAt := do
  let start ← Outcome.add d.pos 1
  let stop ← Outcome.add d.pos 9
  let b ← Outcome.orStop (d.data.get start stop) ⟨d.pos, "truncated timestamp reset"⟩
  let ts ← unwrapWord 8 b
  let pos ← Outcome.add d.pos 9
  pure ⟨d.data, pos, { d.state with timestampBaseNs := UInt64.ofNat ts }⟩

/-- A frame of `next_frame_ref`, as a turn of the loop. -/
def otherTurnAt (tag : UInt8) :
    Turn DecoderAt (DecodedFrame FieldValueRef Bytes) Stop → Turn DecoderAt RawEvent LoopEnd
  | .emit _ next => .silent next
  | .halt .exhausted last =>
    .halt (.decode ⟨last.pos, "failed to decode frame with tag 0x" ++
      (if tag < 0x10 then "0" else "") ++ Decoder.hexByte tag⟩) last
  | .halt (.error e) last => .halt (.decode e) last
  -- `next_frame_ref` calls itself until it reaches a frame or an end.
  | .silent next => .halt .done next

/-- `tag == MAGIC[0] && self.try_consume_reset_header()`. -/
def headerTurnAt (d : DecoderAt) (tag : UInt8) : Outcome Unit (Option DecoderAt) :=
  if tag = 0x54 then d.tryConsumeResetHeaderAt else .value none

/-- The arm for every other tag. -/
def otherFrameAt (d : DecoderAt) (tag : UInt8) :
    Outcome Unit (Turn DecoderAt RawEvent LoopEnd) := do
  let header ← d.headerTurnAt tag
  match header with
  | some next => pure (.silent next)
  | none => do
      let frame ← d.nextFrameRefAt
      pure (otherTurnAt tag frame)

/-- What an arm returns, as a turn of the loop. -/
def turnOf (d : DecoderAt) (next : α → Turn DecoderAt RawEvent LoopEnd) :
    Outcome DecodeError α → Outcome Unit (Turn DecoderAt RawEvent LoopEnd)
  | .value a => .value (next a)
  | .stop e => .value (.halt (.decode e) d)
  | .panic => .panic

/-- One turn of `try_for_each_event`, under a callback that goes on. -/
def eventTurnAt (d : DecoderAt) : Outcome Unit (Turn DecoderAt RawEvent LoopEnd) :=
  if d.data.length ≤ d.pos then .value (.halt .done d)
  else do
    let remaining ← d.data.suffix d.pos
    match remaining.bytes.head? with
    | none => pure (.halt .done d)
    | some tag =>
      if tag = FrameTag.event.byte then
        d.turnOf (fun result => .emit result.1 result.2) (d.eventFrameAt remaining)
      else if tag = FrameTag.timestampReset.byte then d.turnOf .silent d.resetFrameAt
      else d.otherFrameAt tag

end Callback

end DecoderAt

end Dial9.TraceFormat
