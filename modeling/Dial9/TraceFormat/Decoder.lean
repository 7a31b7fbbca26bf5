/-
# The streaming decoder

`Decoder` walks a byte string frame by frame and carries the state later frames
depend on: the schemas, the two pools and the timestamp base. A header in the
middle of the stream resets all of it, which is how concatenated thread-local
batches are read. One turn of `next_frame` handles one header or one frame;
the source's recursion on headers and timestamp resets is a silent turn.
-/

import Dial9.Lib.Machine
import Dial9.TraceFormat.Codec

namespace Dial9.TraceFormat

open Dial9.Lib Dial9.Lib.Reader

structure SchemaCache where
  entry : SchemaEntry
  fieldTags : List UInt8
  hasTimestampOnWire : Bool
  deriving DecidableEq

/-- The part of the decoder that a reset clears. The schema cache is indexed by
type id; an index past its end holds nothing. -/
structure DecoderState where
  registry : SchemaRegistry
  schemaCache : WireTypeId → Option SchemaCache
  stringPool : AList fun _ : UInt32 => Text
  stackPool : AList fun _ : UInt32 => List UInt64
  timestampBaseNs : UInt64

namespace DecoderState

def new : DecoderState where
  registry := .new
  schemaCache := fun _ => none
  stringPool := ∅
  stackPool := ∅
  timestampBaseNs := 0

def schemaInfo (state : DecoderState) (typeId : WireTypeId) : Option SchemaInfo :=
  (state.schemaCache typeId).map fun cache => ⟨cache.fieldTags, cache.hasTimestampOnWire⟩

def schemaCacheOf (entry : SchemaEntry) (hasTimestampOnWire : Bool) : SchemaCache where
  entry := entry
  fieldTags := entry.fields.map fun field => field.fieldType.tag
  hasTimestampOnWire := hasTimestampOnWire

/-- `register_schema`: the cache is overwritten before the registry may refuse. -/
def registerSchema (state : DecoderState) (typeId : WireTypeId) (entry : SchemaEntry)
    (hasTimestampOnWire : Bool) : Except String Unit × DecoderState :=
  let cached := { state with
    schemaCache := Function.update state.schemaCache typeId
      (some (schemaCacheOf entry hasTimestampOnWire)) }
  match state.registry.register typeId entry with
  | .ok registry => (.ok (), { cached with registry := registry })
  | .error message => (.error message, cached)

/-- Pool entries that are not UTF-8 are skipped. -/
def insertString (pool : AList fun _ : UInt32 => Text) (entry : PoolEntry) :
    AList fun _ : UInt32 => Text :=
  match Text.fromUtf8 entry.data with
  | some s => pool.insert entry.poolId s
  | none => pool

def insertStrings (state : DecoderState) (entries : List PoolEntry) : DecoderState :=
  { state with stringPool := entries.foldl insertString state.stringPool }

def insertStacks (state : DecoderState) (entries : List (StackPoolEntry (List UInt64))) :
    DecoderState :=
  { state with
    stackPool := entries.foldl (fun pool entry => pool.insert entry.poolId entry.frames)
      state.stackPool }

def annotate (entry : SchemaEntry) (annotations : List FieldAnnotation) : SchemaEntry :=
  { entry with annotations := entry.annotations ++ annotations }

/-- Annotations are merged into the cached and the registered schema, each
only where the type id is known. -/
def mergeAnnotations (state : DecoderState) (typeId : WireTypeId)
    (annotations : List FieldAnnotation) : DecoderState where
  registry :=
    match state.registry.get typeId with
    | some entry => state.registry.set typeId (annotate entry annotations)
    | none => state.registry
  schemaCache :=
    match state.schemaCache typeId with
    | some cache => Function.update state.schemaCache typeId
        (some { cache with entry := annotate cache.entry annotations })
    | none => state.schemaCache
  stringPool := state.stringPool
  stackPool := state.stackPool
  timestampBaseNs := state.timestampBaseNs

end DecoderState

/-- `Decoder`: the bytes from the current position on, that position, and the state. -/
structure Decoder where
  rest : Bytes
  pos : Nat
  state : DecoderState

/-- `DecodedFrame` and `DecodedFrameRef`. -/
inductive DecodedFrame (V F : Type)
  | schema (entry : SchemaEntry)
  | event (typeId : WireTypeId) (timestampNs : UInt64) (values : List V)
  | stringPool (entries : List PoolEntry)
  | stackPool (entries : List (StackPoolEntry F))
  | schemaAnnotations (typeId : WireTypeId) (annotations : List FieldAnnotation)

structure DecodeError where
  pos : Nat
  message : String
  deriving DecidableEq

/-- How `next_frame` ends: `Ok(None)`, or an error. -/
inductive Stop
  | exhausted
  | error (e : DecodeError)
  deriving DecidableEq

/-- What a decoded frame does to the state, and what it yields. Only a schema
can be refused, with the registry's message. -/
def DecoderState.accept {V F : Type} (flavour : Flavour V F) (state : DecoderState) :
    Frame V F → Turn DecoderState (DecodedFrame V F) String
  | .schema typeId entry hasTimestampOnWire =>
    match state.registerSchema typeId entry hasTimestampOnWire with
    | (.ok (), state) => .emit (.schema entry) state
    | (.error message, state) => .halt message state
  | .event typeId timestampNs values =>
    .emit (.event typeId timestampNs values) { state with timestampBaseNs := timestampNs }
  | .stringPool entries => .emit (.stringPool entries) (state.insertStrings entries)
  | .stackPool entries =>
    .emit (.stackPool entries)
      (state.insertStacks
        (entries.map fun entry => ⟨entry.poolId, flavour.toStackFrames entry.frames⟩))
  | .timestampReset ts => .silent { state with timestampBaseNs := ts }
  | .schemaAnnotations typeId annotations =>
    .emit (.schemaAnnotations typeId annotations) (state.mergeAnnotations typeId annotations)

theorem DecoderState.accept_schema {V F : Type} (flavour : Flavour V F) (s : DecoderState)
    (typeId : WireTypeId) (entry : SchemaEntry) (ts : Bool) :
    (∃ registry, s.registry.register typeId entry = .ok registry ∧
      s.accept flavour (.schema typeId entry ts) = .emit (.schema entry)
        { s with
          registry := registry
          schemaCache := Function.update s.schemaCache typeId (some (schemaCacheOf entry ts)) }) ∨
    ∃ message, s.registry.register typeId entry = .error message ∧
      s.accept flavour (.schema typeId entry ts) = .halt message
        { s with
          schemaCache :=
            Function.update s.schemaCache typeId (some (schemaCacheOf entry ts)) } := by
  cases h : s.registry.register typeId entry with
  | ok registry => exact .inl ⟨registry, rfl, by simp only [accept, registerSchema, h]⟩
  | error message => exact .inr ⟨message, rfl, by simp only [accept, registerSchema, h]⟩

variable {good : DecoderState → Prop}

namespace Decoder

/-- `Decoder::new`. -/
def new (data : Bytes) : Option Decoder :=
  (decodeHeader data).map fun (_, rest) => ⟨rest, headerSize, .new⟩

/-- Move past consumed bytes. -/
def advance (d : Decoder) (rest : Bytes) : Decoder :=
  { d with rest := rest, pos := d.pos + (d.rest.length - rest.length) }

/-- `try_consume_reset_header`, with the state it leaves when it succeeds. -/
def tryConsumeResetHeader (d : Decoder) : Option Decoder :=
  (decodeHeader d.rest).map fun (_, rest) => ⟨rest, d.pos + headerSize, .new⟩

section Turns

variable {V F : Type} (flavour : Flavour V F)

/-- A frame is accepted at the decoder's position, after its bytes. -/
def accept (d : Decoder) (frame : Frame V F) : Turn Decoder (DecodedFrame V F) Stop :=
  match d.state.accept flavour frame with
  | .emit decoded state => .emit decoded { d with state := state }
  | .silent state => .silent { d with state := state }
  | .halt message state => .halt (.error ⟨d.pos, message⟩) { d with state := state }

/-- One turn of `next_frame`. A frame that does not decode ends the stream. -/
def nextTurnWith (d : Decoder) : Turn Decoder (DecodedFrame V F) Stop :=
  match d.rest with
  | [] => .halt .exhausted d
  | _ :: _ =>
    match d.tryConsumeResetHeader with
    | some d' => .silent d'
    | none =>
      match decodeFrameWith flavour d.state.schemaInfo d.state.timestampBaseNs d.rest with
      | none => .halt .exhausted d
      | some (frame, rest) => (d.advance rest).accept flavour frame

/-- Bytes left: the measure every turn decreases. -/
def left (d : Decoder) : Nat := d.rest.length

/-- `next_frame`: an emission is `Ok(Some(frame))`, a halt is `Ok(None)` or `Err`. -/
def nextFrameWith (d : Decoder) : Turn Decoder (DecodedFrame V F) Stop :=
  Machine.settle (nextTurnWith flavour) (d.left + 1) d

/-- `decode_all`: the frames, each with the decoder right after it, and how the
iteration ended. -/
def decodeAllWith (d : Decoder) :
    Machine.Log Decoder (DecodedFrame V F) × Option (Stop × Decoder) :=
  Machine.collect (nextFrameWith flavour) (d.left + 1) d

end Turns

/-- One turn of `next_frame`. -/
def nextTurn := nextTurnWith owned

/-- One turn of `next_frame_ref`. -/
def nextTurnRef := nextTurnWith zeroCopy

/-- `next_frame`. -/
def nextFrame := nextFrameWith owned

/-- `next_frame_ref`. -/
def nextFrameRef := nextFrameWith zeroCopy

/-- `decode_all`. -/
def decodeAll := decodeAllWith owned

/-- `decode_all_ref`. -/
def decodeAllRef := decodeAllWith zeroCopy

section Basic

@[simp]
theorem advance_state (d : Decoder) (rest : Bytes) : (d.advance rest).state = d.state := rfl

theorem decodeHeader_eq_some {input rest : Bytes} {v : UInt8}
    (h : decodeHeader input = some (v, rest)) : input = magic ++ v :: rest := by
  obtain ⟨m, afterMagic, htake, h⟩ := bind_eq_some.mp h
  obtain ⟨⟨⟩, mid, hreq, hbyte⟩ := bind_eq_some.mp h
  obtain ⟨rfl, heq⟩ := require_eq_some.mp hreq
  obtain rfl : mid = afterMagic := (Prod.mk.inj heq).2
  unfold take at htake
  split at htake
  · obtain ⟨hmagic, rfl⟩ : input.take 4 = magic ∧ input.drop 4 = mid := by simpa using htake
    rw [← List.take_append_drop 4 input, hmagic]
    cases hdrop : input.drop 4 with
    | nil => simp [hdrop, byte] at hbyte
    | cons b tail =>
      obtain ⟨rfl, rfl⟩ : b = v ∧ tail = rest := by simpa [hdrop, byte] using hbyte
      rfl
  · simp at htake

theorem reads_decodeHeader (v : UInt8) : Reads decodeHeader (magic ++ [v]) v :=
  (reads_take magic).bind (Reads.require rfl (reads_byte v))

theorem decodeHeader_of_ne {b : UInt8} {tail : Bytes} (h : b ≠ 0x54) :
    decodeHeader (b :: tail) = none := by
  cases hd : decodeHeader (b :: tail) with
  | none => rfl
  | some pair =>
    obtain ⟨v, rest⟩ := pair
    have hb := congrArg List.head? (decodeHeader_eq_some hd)
    simp [magic] at hb
    exact absurd hb h

theorem tryConsumeResetHeader_eq_some {d d' : Decoder} (h : d.tryConsumeResetHeader = some d') :
    ∃ v, d.rest = magic ++ v :: d'.rest ∧ d'.pos = d.pos + headerSize ∧ d'.state = .new := by
  unfold tryConsumeResetHeader at h
  obtain ⟨⟨v, rest⟩, hheader, rfl⟩ := Option.map_eq_some_iff.mp h
  exact ⟨v, decodeHeader_eq_some hheader, rfl, rfl⟩

variable {V F : Type} {flavour : Flavour V F}

theorem nextTurnWith_decreases (h : flavour.Local) :
    Machine.Decreases (nextTurnWith flavour) left := by
  intro d
  unfold nextTurnWith
  cases hrest : d.rest with
  | nil => trivial
  | cons b tail =>
    dsimp only
    cases hheader : d.tryConsumeResetHeader with
    | some d' =>
      obtain ⟨v, hd, -, -⟩ := tryConsumeResetHeader_eq_some hheader
      change d'.rest.length < d.rest.length
      rw [hd]
      simp [magic]
      omega
    | none =>
      dsimp only
      cases hframe : decodeFrameWith flavour d.state.schemaInfo d.state.timestampBaseNs
          (b :: tail) with
      | none => trivial
      | some pair =>
        obtain ⟨frame, rest⟩ := pair
        have hlt := decodeFrameWith_length_lt h hframe
        rw [← hrest] at hlt
        dsimp only [accept]
        cases (d.advance rest).state.accept flavour frame with
        | emit _ _ | silent _ => exact hlt
        | halt message state => trivial

theorem decodeAllWith_eq (h : flavour.Local) (d : Decoder) :
    decodeAllWith flavour d = Machine.collect (nextTurnWith flavour) (d.left + 1) d :=
  Machine.collect_settle (nextTurnWith_decreases h) (Nat.lt_succ_self _)

variable {log : Machine.Log Decoder (DecodedFrame V F)}

theorem decodeAllWith_of_steps (h : flavour.Local) {d t last : Decoder} {reason : Stop}
    (hsteps : Machine.Steps (nextTurnWith flavour) d log t)
    (hhalt : nextTurnWith flavour t = .halt reason last) :
    decodeAllWith flavour d = (log, some (reason, last)) := by
  rw [decodeAllWith_eq h]
  exact hsteps.collect_eq (nextTurnWith_decreases h) hhalt (Nat.lt_succ_self _)

theorem steps_of_decodeAllWith (h : flavour.Local) (d : Decoder) :
    ∃ t reason last, Machine.Steps (nextTurnWith flavour) d (decodeAllWith flavour d).1 t ∧
      nextTurnWith flavour t = .halt reason last ∧
      (decodeAllWith flavour d).2 = some (reason, last) := by
  rw [decodeAllWith_eq h]
  exact Machine.steps_of_collect (nextTurnWith_decreases h) (Nat.lt_succ_self _)

theorem nextTurnWith_nil (pos : Nat) (state : DecoderState) :
    nextTurnWith flavour ⟨[], pos, state⟩ = .halt .exhausted ⟨[], pos, state⟩ := rfl

theorem nextTurnWith_header (flavour : Flavour V F) (v : UInt8) (rest : Bytes) (pos : Nat)
    (state : DecoderState) :
    nextTurnWith flavour ⟨magic ++ v :: rest, pos, state⟩ =
      .silent ⟨rest, pos + headerSize, .new⟩ := by
  have hheader : decodeHeader (magic ++ v :: rest) = some (v, rest) := by
    simpa using reads_decodeHeader v rest
  have hreset : tryConsumeResetHeader ⟨magic ++ v :: rest, pos, state⟩ =
      some ⟨rest, pos + headerSize, .new⟩ := by
    simp [tryConsumeResetHeader, hheader]
  unfold nextTurnWith
  rw [hreset]
  rfl

theorem nextTurnWith_of_tag (flavour : Flavour V F) {d : Decoder} {tag : FrameTag} {input : Bytes}
    (h : d.rest = tag.byte :: input) :
    nextTurnWith flavour d =
      match decodeBodyWith flavour d.state.schemaInfo d.state.timestampBaseNs tag input with
      | none => .halt .exhausted d
      | some (frame, rest) => (d.advance rest).accept flavour frame := by
  have hheader : d.tryConsumeResetHeader = none := by
    simp only [tryConsumeResetHeader, h, decodeHeader_of_ne (FrameTag.byte_ne_magic tag),
      Option.map_none]
  unfold nextTurnWith
  rw [hheader, h]
  dsimp only
  rw [decodeFrameWith_cons, FrameTag.ofByte_byte, Option.bind_some]

theorem nextTurnWith_cases (flavour : Flavour V F) (d : Decoder) :
    (d.rest = [] ∧ nextTurnWith flavour d = .halt .exhausted d) ∨
    (∃ d', d.tryConsumeResetHeader = some d' ∧ nextTurnWith flavour d = .silent d') ∨
    (∃ b input, d.rest = b :: input ∧ d.tryConsumeResetHeader = none ∧
      FrameTag.ofByte b = none ∧ nextTurnWith flavour d = .halt .exhausted d) ∨
    ∃ tag input, d.rest = tag.byte :: input ∧ d.tryConsumeResetHeader = none ∧
      ((decodeBodyWith flavour d.state.schemaInfo d.state.timestampBaseNs tag input = none ∧
        nextTurnWith flavour d = .halt .exhausted d) ∨
      ∃ frame rest, decodeBodyWith flavour d.state.schemaInfo d.state.timestampBaseNs tag input =
          some (frame, rest) ∧ frame.tag = tag ∧
        nextTurnWith flavour d = (d.advance rest).accept flavour frame) := by
  cases hrest : d.rest with
  | nil =>
    refine .inl ⟨rfl, ?_⟩
    unfold nextTurnWith
    rw [hrest]
  | cons b input =>
    cases hheader : d.tryConsumeResetHeader with
    | some d' =>
      refine .inr (.inl ⟨d', rfl, ?_⟩)
      unfold nextTurnWith
      rw [hheader, hrest]
    | none =>
      cases htag : FrameTag.ofByte b with
      | none =>
        refine .inr (.inr (.inl ⟨b, input, rfl, rfl, htag, ?_⟩))
        unfold nextTurnWith
        rw [hheader, hrest]
        dsimp only
        rw [decodeFrameWith_cons, htag]
        rfl
      | some tag =>
        obtain rfl := FrameTag.byte_of_ofByte htag
        refine .inr (.inr (.inr ⟨tag, input, rfl, rfl, ?_⟩))
        have hturn := nextTurnWith_of_tag flavour hrest
        cases hbody : decodeBodyWith flavour d.state.schemaInfo d.state.timestampBaseNs tag
            input with
        | none => exact .inl ⟨rfl, by rw [hturn, hbody]⟩
        | some pair =>
          obtain ⟨frame, rest⟩ := pair
          have hkind := yields_decodeBodyWith flavour _ _ tag input frame rest hbody
          exact .inr ⟨frame, rest, rfl, hkind, by rw [hturn, hbody]⟩

theorem nextTurnWith_frame (flavour : Flavour V F) (tag : FrameTag) (state : DecoderState)
    {frame : Frame V F} {bytes : Bytes}
    (hreads : Reads (decodeBodyWith flavour state.schemaInfo state.timestampBaseNs tag) bytes frame)
    (rest : Bytes) (pos : Nat) :
    nextTurnWith flavour ⟨tag.byte :: bytes ++ rest, pos, state⟩ =
      accept flavour ⟨rest, pos + (bytes.length + 1), state⟩ frame := by
  have hrest : tag.byte :: bytes ++ rest = tag.byte :: (bytes ++ rest) := rfl
  rw [nextTurnWith_of_tag flavour hrest]
  dsimp only
  rw [hreads rest]
  dsimp only [advance]
  congr 2
  simp only [List.cons_append, List.length_cons, List.length_append]
  omega

section

variable (hnew : good .new)
  (haccept : ∀ s frame,
    good s → (s.accept flavour frame).GoesOn → good (s.accept flavour frame).next)
include hnew haccept

/-- What a fresh state satisfies and every accepted frame keeps, a turn keeps. -/
theorem turn_invariant {d : Decoder} (hd : good d.state) (hgo : (nextTurnWith flavour d).GoesOn) :
    good (nextTurnWith flavour d).next.state := by
  rcases nextTurnWith_cases flavour d with ⟨-, hstep⟩ | ⟨d', hsome, hstep⟩ |
      ⟨b, input, -, -, -, hstep⟩ | ⟨tag, input, -, -, ⟨-, hstep⟩ | ⟨frame, rest, -, -, hstep⟩⟩
  · rw [hstep] at hgo
    exact hgo.elim
  · obtain ⟨v, -, -, hstate⟩ := tryConsumeResetHeader_eq_some hsome
    rw [hstep, Turn.next, hstate]
    exact hnew
  · rw [hstep] at hgo
    exact hgo.elim
  · rw [hstep] at hgo
    exact hgo.elim
  · have hkeep := haccept d.state frame hd
    rw [hstep, accept, advance_state] at hgo ⊢
    revert hkeep hgo
    cases d.state.accept flavour frame with
    | emit _ _ | silent _ => exact fun _ hkeep => hkeep trivial
    | halt message state => exact fun hgo _ => hgo.elim

theorem steps_invariant {d t : Decoder} (hd : good d.state)
    (h : Machine.Steps (nextTurnWith flavour) d log t) : good t.state := by
  have hkeep : good d.state → good t.state := by
    apply h.relates fun d t => good d.state → good t.state
    · exact fun _ => id
    · exact fun _ _ _ hfirst hsecond => hsecond ∘ hfirst
    · exact fun d hgo hd => turn_invariant hnew haccept hd hgo
  exact hkeep hd

end

end Basic

end Decoder

end Dial9.TraceFormat
