/-
# The event callback path

`try_for_each_event` re-implements the frame dispatch with the event and
timestamp-reset frames inlined, and calls `next_frame_ref` for the rest. It
delivers the same events as iterating `next_frame_ref`, with one exception: the
timestamp of an event is `base + delta` without a check, where
`next_frame_ref` uses a checked addition and ends the stream. The two agree on
a stream exactly when no event the decoder reaches overflows its timestamp.
-/

import Dial9.TraceFormat.Decoder

namespace Dial9.TraceFormat

open Dial9.Lib Dial9.Lib.Reader

/-- `RawEvent`: what the callback receives, the pools being those of the decoder. -/
structure RawEvent where
  typeId : WireTypeId
  name : Text
  timestampNs : UInt64
  fields : List FieldValueRef
  schema : SchemaEntry

/-- How the loop ends: the stream is used up, a decode error, or the overflow
of an unchecked addition. -/
inductive LoopEnd
  | done
  | decode (e : DecodeError)
  | overflow
  deriving DecidableEq

variable {d : Decoder} {input : Bytes}

variable {tag : UInt8}

namespace Decoder

/-- The absolute position of a suffix of the bytes that are left. -/
def posOf (d : Decoder) (suffix : Bytes) : Nat := d.pos + (d.rest.length - suffix.length)

/-- `{:x}` of a byte. -/
def hexByte (b : UInt8) : String := String.ofList (Nat.toDigits 16 b.toNat)

/-- The inlined field loop. -/
def eventFields (d : Decoder) : List UInt8 → Bytes →
    Except DecodeError (List FieldValueRef × Bytes)
  | [], input => .ok ([], input)
  | ftag :: tags, input =>
    match FieldType.fromTag ftag with
    | none => .error ⟨d.posOf input, "unknown field type tag 0x" ++ hexByte ftag⟩
    | some fieldType =>
      if fieldType.isOptional then
        match input with
        | [] => .error ⟨d.posOf input, "truncated optional field prefix"⟩
        | present :: afterPresence =>
          if present = 0x00 then
            (eventFields d tags afterPresence).map fun (values, rest) =>
              (.none :: values, rest)
          else
            match FieldValueRef.decode (.plain fieldType.inner) afterPresence with
            | none => .error ⟨d.posOf afterPresence, "truncated optional field value"⟩
            | some (value, rest) =>
              (eventFields d tags rest).map fun (values, rest) => (value :: values, rest)
      else
        match FieldValueRef.decode fieldType input with
        | none => .error ⟨d.posOf input, "truncated field value"⟩
        | some (value, rest) =>
          (eventFields d tags rest).map fun (values, rest) => (value :: values, rest)

/-- The inlined timestamp: three bytes of delta added to the base unchecked. -/
def eventTimestamp (d : Decoder) (cache : SchemaCache) (input : Bytes) :
    Except LoopEnd (UInt64 × Bytes) :=
  if cache.hasTimestampOnWire then
    match decodeU24Le input with
    | none => .error (.decode ⟨d.posOf input, "truncated timestamp delta"⟩)
    | some (delta, rest) =>
      if d.state.timestampBaseNs.toNat + delta < 2 ^ 64 then
        .ok (UInt64.ofNat (d.state.timestampBaseNs.toNat + delta), rest)
      else .error .overflow
  else .ok (d.state.timestampBaseNs, input)

/-- The arm for an event frame; `input` starts after the tag. -/
def eventFrameTurn (d : Decoder) (input : Bytes) : Turn Decoder RawEvent LoopEnd :=
  match u16 input with
  | none => .halt (.decode ⟨d.pos, "truncated event frame"⟩) d
  | some (typeId, afterId) =>
    match d.state.schemaCache typeId with
    | none =>
      .halt (.decode ⟨d.pos, "unknown type_id WireTypeId(" ++ toString typeId ++ ")"⟩) d
    | some cache =>
      match d.eventTimestamp cache afterId with
      | .error reason => .halt reason d
      | .ok (timestampNs, afterTimestamp) =>
        match d.eventFields cache.fieldTags afterTimestamp with
        | .error e => .halt (.decode e) d
        | .ok (values, rest) =>
          .emit ⟨typeId, cache.entry.name, timestampNs, values, cache.entry⟩
            { d.advance rest with
              state := { d.state with timestampBaseNs := timestampNs } }

/-- The arm for a timestamp reset; `input` starts after the tag. -/
def resetFrameTurn (d : Decoder) (input : Bytes) : Turn Decoder RawEvent LoopEnd :=
  match u64 input with
  | none => .halt (.decode ⟨d.pos, "truncated timestamp reset"⟩) d
  | some (ts, rest) =>
    .silent { d.advance rest with state := { d.state with timestampBaseNs := ts } }

/-- The arm for every other tag: a mid-stream header, or one frame of
`next_frame_ref`. -/
def otherFrameTurn (d : Decoder) (tag : UInt8) : Turn Decoder RawEvent LoopEnd :=
  match (if tag = 0x54 then d.tryConsumeResetHeader else none) with
  | some d' => .silent d'
  | none =>
    match d.nextFrameRef with
    | .emit _ d' => .silent d'
    | .halt .exhausted d' =>
      .halt (.decode ⟨d'.pos, "failed to decode frame with tag 0x" ++
        (if tag < 0x10 then "0" else "") ++ hexByte tag⟩) d'
    | .halt (.error e) d' => .halt (.decode e) d'
    -- `next_frame_ref` has turns enough to reach a frame or an end.
    | .silent d' => .halt .done d'

/-- One turn of the loop of `try_for_each_event`, under a callback that goes on. -/
def eventTurn (d : Decoder) : Turn Decoder RawEvent LoopEnd :=
  match d.rest with
  | [] => .halt .done d
  | tag :: input =>
    if tag = FrameTag.event.byte then d.eventFrameTurn input
    else if tag = FrameTag.timestampReset.byte then d.resetFrameTurn input
    else d.otherFrameTurn tag

/-- `try_for_each_event`: the events delivered, and how the loop ended. -/
def tryForEachEvent (d : Decoder) : Machine.Log Decoder RawEvent × Option (LoopEnd × Decoder) :=
  Machine.collect eventTurn (d.left + 1) d

/-! ## What both paths show of an event -/

/-- An event as an observer sees it: type name, absolute timestamp, raw values. -/
structure Seen where
  name : Option Text
  timestampNs : UInt64
  fields : List FieldValueRef

/-- An event frame of `next_frame_ref`, named through the decoder's registry. -/
def seenFrame (frame : DecodedFrame FieldValueRef Bytes) (d : Decoder) : Option Seen :=
  match frame with
  | .event typeId timestampNs values =>
    some ⟨(d.state.registry.get typeId).map SchemaEntry.name, timestampNs, values⟩
  | _ => none

/-- A delivered event. -/
def seenEvent (event : RawEvent) (_ : Decoder) : Option Seen :=
  some ⟨some event.name, event.timestampNs, event.fields⟩

/-- The decoder stands at an event of a known schema with a packed timestamp
whose delta overflows the base. -/
def Overflows (d : Decoder) : Prop :=
  ∃ typeId cache input delta rest, d.rest = FrameTag.event.byte :: leBytes 2 typeId.toNat ++ input ∧
    d.state.schemaCache typeId = some cache ∧ cache.hasTimestampOnWire = true ∧
    decodeU24Le input = some (delta, rest) ∧ 2 ^ 64 ≤ d.state.timestampBaseNs.toNat + delta

/-- The cached and the registered schemas are the same. They part only when a
schema frame is refused, which ends the stream. -/
def CacheSynced (s : DecoderState) : Prop :=
  ∀ typeId, (s.schemaCache typeId).map SchemaCache.entry = s.registry.get typeId

theorem cacheSynced_new : CacheSynced .new := fun _ => rfl

/-! ## The inlined readers -/

theorem eventFields_toOption (d : Decoder) (tags : List UInt8) (input : Bytes) :
    (d.eventFields tags input).toOption = forEach (decodeField zeroCopy) tags input := by
  induction tags generalizing input with
  | nil => rfl
  | cons ftag tags ih =>
    have hcons : ∀ (value : FieldValueRef) (rest : Bytes),
        ((d.eventFields tags rest).map fun (values, rest) => (value :: values, rest)).toOption =
          (forEach (decodeField zeroCopy) tags >>= fun values => pure (value :: values)) rest := by
      intro value rest
      rw [bind_apply, ← ih]
      cases d.eventFields tags rest with
      | error _ | ok _ => rfl
    rw [forEach, bind_apply]
    unfold eventFields decodeField
    cases FieldType.fromTag ftag with
    | none => rfl
    | some fieldType =>
      simp only [ofOption_some, bind_apply, pure_apply]
      cases fieldType.isOptional with
      | false =>
        simp only [Bool.false_eq_true, if_false, zeroCopy_decodeValue]
        cases FieldValueRef.decode fieldType input with
        | none => rfl
        | some pair => exact hcons pair.1 pair.2
      | true =>
        simp only [if_true, bind_apply]
        cases input with
        | nil => rfl
        | cons present afterPresence =>
          simp only [byte]
          by_cases hzero : present = 0x00
          · simp only [hzero, if_true]
            exact hcons .none afterPresence
          · simp only [hzero, if_false, zeroCopy_decodeValue]
            cases FieldValueRef.decode (.plain fieldType.inner) afterPresence with
            | none => rfl
            | some pair => exact hcons pair.1 pair.2

theorem eventTimestamp_toOption (d : Decoder) (cache : SchemaCache) (input : Bytes) :
    (d.eventTimestamp cache input).toOption =
      decodeTimestamp ⟨cache.fieldTags, cache.hasTimestampOnWire⟩ d.state.timestampBaseNs
        input := by
  unfold eventTimestamp decodeTimestamp
  cases cache.hasTimestampOnWire with
  | false => rfl
  | true =>
    simp only [if_true, bind_apply]
    cases decodeU24Le input with
    | none => rfl
    | some pair =>
      obtain ⟨delta, rest⟩ := pair
      simp only [checkedAdd]
      split
      · rfl
      · rfl

theorem eventTimestamp_overflow_iff (d : Decoder) (cache : SchemaCache) (input : Bytes) :
    d.eventTimestamp cache input = .error .overflow ↔
      cache.hasTimestampOnWire = true ∧ ∃ delta rest, decodeU24Le input = some (delta, rest) ∧
        2 ^ 64 ≤ d.state.timestampBaseNs.toNat + delta := by
  unfold eventTimestamp
  cases cache.hasTimestampOnWire with
  | false => simp
  | true =>
    simp only [if_true, true_and]
    cases decodeU24Le input with
    | none => simp
    | some pair =>
      obtain ⟨delta, rest⟩ := pair
      by_cases hfits : d.state.timestampBaseNs.toNat + delta < 2 ^ 64
      · simp only [if_pos hfits]
        simp
        omega
      · simp only [if_neg hfits]
        simp
        omega

theorem overflows_iff (hrest : d.rest = FrameTag.event.byte :: input) :
    d.Overflows ↔ ∃ typeId cache afterId, u16 input = some (typeId, afterId) ∧
      d.state.schemaCache typeId = some cache ∧
      d.eventTimestamp cache afterId = .error .overflow := by
  constructor
  · rintro ⟨typeId, cache, afterId, delta, rest, heq, hcache, hts, hdelta, hge⟩
    rw [hrest] at heq
    obtain rfl : input = leBytes 2 typeId.toNat ++ afterId := (List.cons.inj heq).2
    exact ⟨typeId, cache, afterId, reads_u16 typeId afterId, hcache,
      (d.eventTimestamp_overflow_iff cache afterId).mpr ⟨hts, delta, rest, hdelta, hge⟩⟩
  · rintro ⟨typeId, cache, afterId, hid, hcache, hover⟩
    obtain ⟨hts, delta, rest, hdelta, hge⟩ :=
      (d.eventTimestamp_overflow_iff cache afterId).mp hover
    obtain ⟨n, mid, hword, hpure⟩ := bind_eq_some.mp hid
    obtain ⟨hlt, rfl⟩ := word_eq_some hword
    obtain ⟨rfl, rfl⟩ : UInt16.ofNat n = typeId ∧ mid = afterId := by simpa using hpure
    refine ⟨_, cache, mid, delta, rest, ?_, hcache, hts, hdelta, hge⟩
    rw [hrest, UInt16.toNat_ofNat', Nat.mod_eq_of_lt (by simpa using hlt)]
    rfl

theorem not_overflows_of_tag (hrest : d.rest = tag :: input) (hevent : tag ≠ FrameTag.event.byte) :
    ¬ d.Overflows := by
  rintro ⟨typeId, cache, afterId, delta, rest, heq, -⟩
  rw [hrest] at heq
  exact hevent (List.cons.inj heq).1

/-! ## Turn by turn -/

/-- How a turn of the loop matches a turn of `next_frame_ref` at the same
decoder: they go on to the same decoder showing the same event, or both stop. -/
def TurnsMatch (d : Decoder) : Prop :=
  match d.nextTurnRef with
  | .emit frame next =>
    (∃ event, d.eventTurn = .emit event next ∧ seenEvent event next = seenFrame frame next) ∨
      (d.eventTurn = .silent next ∧ seenFrame frame next = none)
  | .silent next => d.eventTurn = .silent next
  | .halt _ _ => ∃ reason last, d.eventTurn = .halt reason last ∧
      (reason = .overflow ↔ d.Overflows)

theorem turnsMatch_event (hsync : CacheSynced d.state)
    (hrest : d.rest = FrameTag.event.byte :: input) : d.TurnsMatch := by
  have hturn : d.eventTurn = d.eventFrameTurn input := by
    unfold eventTurn
    rw [hrest]
    rfl
  have hover := overflows_iff hrest
  unfold TurnsMatch nextTurnRef
  rw [hturn, nextTurnWith_of_tag _ hrest]
  dsimp only [decodeBodyWith, decodeEventFrameWith]
  unfold eventFrameTurn
  rw [bind_apply]
  cases hid : u16 input with
  | none =>
    refine ⟨_, _, rfl, ?_⟩
    rw [hover]
    simp [hid]
  | some idPair =>
    obtain ⟨typeId, afterId⟩ := idPair
    dsimp only [DecoderState.schemaInfo]
    rw [bind_apply]
    cases hcache : d.state.schemaCache typeId with
    | none =>
      refine ⟨_, _, rfl, ?_⟩
      rw [hover]
      simp [hid, hcache]
    | some cache =>
      have htime := d.eventTimestamp_toOption cache afterId
      simp only [Option.map_some, ofOption_some, pure_apply]
      rw [bind_apply, ← htime]
      cases hts : d.eventTimestamp cache afterId with
      | error reason =>
        refine ⟨reason, d, rfl, ?_⟩
        rw [hover]
        simp [hid, hcache, hts]
      | ok tsPair =>
        obtain ⟨timestampNs, afterTimestamp⟩ := tsPair
        have hfields := d.eventFields_toOption cache.fieldTags afterTimestamp
        simp only [Except.toOption]
        rw [bind_apply, ← hfields]
        cases hvals : d.eventFields cache.fieldTags afterTimestamp with
        | error e =>
          refine ⟨.decode e, d, rfl, ?_⟩
          rw [hover]
          simp [hid, hcache, hts]
        | ok valuesPair =>
          obtain ⟨values, rest⟩ := valuesPair
          refine .inl ⟨_, rfl, ?_⟩
          have hname := hsync typeId
          simp only [hcache, Option.map_some] at hname
          simp [seenEvent, seenFrame, ← hname]

theorem turnsMatch_reset (hrest : d.rest = FrameTag.timestampReset.byte :: input) :
    d.TurnsMatch := by
  have hturn : d.eventTurn = d.resetFrameTurn input := by
    unfold eventTurn
    rw [hrest]
    rfl
  have hover : ¬ d.Overflows := not_overflows_of_tag hrest (by decide)
  unfold TurnsMatch nextTurnRef
  rw [hturn, nextTurnWith_of_tag _ hrest]
  dsimp only [decodeBodyWith]
  unfold resetFrameTurn
  rw [bind_apply]
  cases u64 input with
  | none => exact ⟨_, _, rfl, by simp [hover]⟩
  | some pair => rfl

/-- A frame that is neither an event nor a reset is not silent, so one turn is
all of `next_frame_ref`. -/
theorem nextFrameRef_of_turn (h : ∀ next, d.nextTurnRef ≠ .silent next) :
    d.nextFrameRef = d.nextTurnRef := by
  change Machine.settle nextTurnRef (d.left + 1) d = d.nextTurnRef
  unfold Machine.settle
  cases hturn : d.nextTurnRef with
  | emit _ _ | halt _ _ => rfl
  | silent next => exact absurd hturn (h next)

/-- A frame that the loop leaves to `next_frame_ref`, as the loop's own turn. -/
def otherTurn (tag : UInt8) :
    Turn Decoder (DecodedFrame FieldValueRef Bytes) Stop → Turn Decoder RawEvent LoopEnd
  | .emit _ next => .silent next
  | .silent next => .silent next
  | .halt .exhausted last =>
    .halt (.decode ⟨last.pos, "failed to decode frame with tag 0x" ++
      (if tag < 0x10 then "0" else "") ++ hexByte tag⟩) last
  | .halt (.error e) last => .halt (.decode e) last

/-- Away from events and resets the loop takes a turn of `next_frame_ref`: only
a header starts with `T`, and only a header is silent. -/
theorem eventTurn_of_other (hrest : d.rest = tag :: input) (hevent : tag ≠ FrameTag.event.byte)
    (hreset : tag ≠ FrameTag.timestampReset.byte) :
    d.eventTurn = otherTurn tag d.nextTurnRef := by
  have hturn : d.eventTurn = d.otherFrameTurn tag := by
    unfold eventTurn
    rw [hrest]
    simp only [hevent, hreset, if_false]
  have hheader : (if tag = 0x54 then d.tryConsumeResetHeader else none) =
      d.tryConsumeResetHeader := by
    by_cases hmagic : tag = 0x54
    · rw [if_pos hmagic]
    · rw [if_neg hmagic, tryConsumeResetHeader, hrest, decodeHeader_of_ne hmagic]
      rfl
  rw [hturn]
  unfold otherFrameTurn
  rw [hheader]
  cases hsome : d.tryConsumeResetHeader with
  | some d' =>
    have hstep : d.nextTurnRef = .silent d' := by
      unfold nextTurnRef nextTurnWith
      rw [hsome, hrest]
    rw [hstep]
    rfl
  | none =>
    have hloud : ∀ next, d.nextTurnRef ≠ .silent next := by
      intro next hsilent
      rcases nextTurnWith_cases zeroCopy d with ⟨-, hstep⟩ | ⟨d', hd', -⟩ |
          ⟨b, input', -, -, -, hstep⟩ |
          ⟨frameTag, input', hrest', -, ⟨-, hstep⟩ | ⟨frame, rest, -, hkind, hstep⟩⟩
      · rw [nextTurnRef, hstep] at hsilent
        cases hsilent
      · rw [hsome] at hd'
        cases hd'
      · rw [nextTurnRef, hstep] at hsilent
        cases hsilent
      · rw [nextTurnRef, hstep] at hsilent
        cases hsilent
      · rw [nextTurnRef, hstep] at hsilent
        have htag : tag = frameTag.byte := by
          rw [hrest] at hrest'
          exact (List.cons.inj hrest').1
        cases frame with
        | timestampReset =>
          rw [htag] at hreset
          exact hreset (congrArg FrameTag.byte hkind).symm
        | schema typeId entry ts =>
          obtain ⟨registry, -, hok⟩ | ⟨message, -, hrefused⟩ :=
            DecoderState.accept_schema zeroCopy (d.advance rest).state typeId entry ts
          · rw [accept, hok] at hsilent
            cases hsilent
          · rw [accept, hrefused] at hsilent
            cases hsilent
        | _ => cases hsilent
    rw [nextFrameRef_of_turn hloud]
    cases hnext : d.nextTurnRef with
    | emit frame next => rfl
    | silent next => exact absurd hnext (hloud next)
    | halt reason last =>
      cases reason with
      | exhausted | error _ => rfl

theorem seenFrame_of_other {d next : Decoder} {frame : DecodedFrame FieldValueRef Bytes}
    (hrest : d.rest = tag :: input) (hevent : tag ≠ FrameTag.event.byte)
    (h : d.nextTurnRef = .emit frame next) :
    seenFrame frame next = none := by
  rcases nextTurnWith_cases zeroCopy d with ⟨-, hstep⟩ | ⟨d', -, hstep⟩ |
      ⟨b, input', -, -, -, hstep⟩ |
      ⟨frameTag, input', hrest', -, ⟨-, hstep⟩ | ⟨raw, rest, -, hkind, hstep⟩⟩
  · rw [nextTurnRef, hstep] at h
    cases h
  · rw [nextTurnRef, hstep] at h
    cases h
  · rw [nextTurnRef, hstep] at h
    cases h
  · rw [nextTurnRef, hstep] at h
    cases h
  · rw [nextTurnRef, hstep] at h
    have htag : tag = frameTag.byte := by
      rw [hrest] at hrest'
      exact (List.cons.inj hrest').1
    cases raw with
    | event =>
      rw [htag] at hevent
      exact absurd (congrArg FrameTag.byte hkind).symm hevent
    | schema typeId entry ts =>
      obtain ⟨registry, -, hok⟩ | ⟨message, -, hrefused⟩ :=
        DecoderState.accept_schema zeroCopy (d.advance rest).state typeId entry ts
      · rw [accept, hok] at h
        obtain ⟨rfl, -⟩ := Turn.emit.inj h
        rfl
      · rw [accept, hrefused] at h
        cases h
    | timestampReset => cases h
    | _ =>
      obtain ⟨rfl, -⟩ := Turn.emit.inj h
      rfl

theorem turnsMatch_other (hrest : d.rest = tag :: input) (hevent : tag ≠ FrameTag.event.byte)
    (hreset : tag ≠ FrameTag.timestampReset.byte) :
    d.TurnsMatch := by
  have hover : ¬ d.Overflows := not_overflows_of_tag hrest hevent
  unfold TurnsMatch
  rw [eventTurn_of_other hrest hevent hreset]
  cases hnext : d.nextTurnRef with
  | emit frame next => exact .inr ⟨rfl, seenFrame_of_other hrest hevent hnext⟩
  | silent next => rfl
  | halt reason last =>
    cases reason with
    | exhausted | error _ => exact ⟨_, _, rfl, by simp [hover]⟩

theorem turnsMatch (hsync : CacheSynced d.state) : d.TurnsMatch := by
  cases hrest : d.rest with
  | nil =>
    have hover : ¬ d.Overflows := by
      rintro ⟨typeId, cache, afterId, delta, rest, heq, -⟩
      rw [hrest] at heq
      cases heq
    have hturn : d.eventTurn = .halt .done d := by
      unfold eventTurn
      rw [hrest]
    have hnext : d.nextTurnRef = .halt .exhausted d := by
      unfold nextTurnRef nextTurnWith
      rw [hrest]
    unfold TurnsMatch
    rw [hnext]
    exact ⟨_, _, hturn, by simp [hover]⟩
  | cons tag input =>
    by_cases hevent : tag = FrameTag.event.byte
    · subst hevent
      exact turnsMatch_event hsync hrest
    · by_cases hreset : tag = FrameTag.timestampReset.byte
      · subst hreset
        exact turnsMatch_reset hrest
      · exact turnsMatch_other hrest hevent hreset

theorem eventParts_le (d : Decoder) {typeId : WireTypeId} {cache : SchemaCache}
    {afterId afterTime rest : Bytes} {ts : UInt64} {values : List FieldValueRef}
    (hid : u16 input = some (typeId, afterId))
    (htime : d.eventTimestamp cache afterId = .ok (ts, afterTime))
    (hfields : d.eventFields cache.fieldTags afterTime = .ok (values, rest)) :
    rest.length ≤ input.length := by
  have hread := d.eventTimestamp_toOption cache afterId
  have hread' := d.eventFields_toOption cache.fieldTags afterTime
  rw [htime] at hread
  rw [hfields] at hread'
  have h₁ := isLocal_u16.length_le hid
  have h₂ := (isLocal_decodeTimestamp _ _).length_le hread.symm
  have h₃ := (isLocal_forEach (isLocal_decodeField zeroCopy_local) _).length_le hread'.symm
  omega

theorem eventFrameTurn_below (d : Decoder) (hlen : input.length < d.left) :
    Machine.Below left d.left (d.eventFrameTurn input) := by
  unfold eventFrameTurn
  cases hid : u16 input with
  | none => trivial
  | some idPair =>
    obtain ⟨typeId, afterId⟩ := idPair
    cases hcache : d.state.schemaCache typeId with
    | none =>
      simp only [hcache]
      trivial
    | some cache =>
      simp only [hcache]
      cases hts : d.eventTimestamp cache afterId with
      | error reason => trivial
      | ok tsPair =>
        obtain ⟨timestampNs, afterTimestamp⟩ := tsPair
        dsimp only
        cases hvals : d.eventFields cache.fieldTags afterTimestamp with
        | error e => trivial
        | ok valuesPair =>
          obtain ⟨values, rest⟩ := valuesPair
          exact (d.eventParts_le hid hts hvals).trans_lt hlen

theorem resetFrameTurn_below (d : Decoder) (hlen : input.length < d.left) :
    Machine.Below left d.left (d.resetFrameTurn input) := by
  unfold resetFrameTurn
  cases hts : u64 input with
  | none => trivial
  | some pair =>
    have h₁ := isLocal_u64.length_le hts
    change pair.2.length < d.left
    omega

theorem otherFrameTurn_below (d : Decoder) (tag : UInt8) :
    Machine.Below left d.left (d.otherFrameTurn tag) := by
  unfold otherFrameTurn
  cases hheader : (if tag = 0x54 then d.tryConsumeResetHeader else none) with
  | some d' =>
    have hsome : d.tryConsumeResetHeader = some d' := by
      split at hheader
      · exact hheader
      · cases hheader
    obtain ⟨v, heq, -, -⟩ := tryConsumeResetHeader_eq_some hsome
    change d'.rest.length < d.rest.length
    rw [heq]
    simp [magic]
    omega
  | none =>
    have hsettle : Machine.Below left d.left d.nextFrameRef :=
      Machine.settle_decreases (nextTurnWith_decreases zeroCopy_local)
    revert hsettle
    cases d.nextFrameRef with
    | emit frame next => exact id
    | silent next => exact fun _ => trivial
    | halt reason last =>
      cases reason with
      | exhausted | error _ => exact fun _ => trivial

theorem eventTurn_decreases : Machine.Decreases eventTurn left := by
  intro d
  unfold eventTurn
  cases hrest : d.rest with
  | nil => trivial
  | cons tag input =>
    have hlen : input.length < d.left := by simp [left, hrest]
    dsimp only
    by_cases hevent : tag = FrameTag.event.byte
    · rw [if_pos hevent]
      exact d.eventFrameTurn_below hlen
    · rw [if_neg hevent]
      by_cases hreset : tag = FrameTag.timestampReset.byte
      · rw [if_pos hreset]
        exact d.resetFrameTurn_below hlen
      · rw [if_neg hreset]
        exact d.otherFrameTurn_below tag

/-! ## Whole streams -/

section Synced

variable {V F : Type} {flavour : Flavour V F}

theorem cacheSynced_accept {s : DecoderState} {frame : Frame V F} (hsync : CacheSynced s)
    (hgo : (s.accept flavour frame).GoesOn) : CacheSynced (s.accept flavour frame).next := by
  cases frame with
  | schema typeId entry ts =>
    obtain ⟨registry, hreg, hok⟩ | ⟨message, -, hrefused⟩ :=
      DecoderState.accept_schema flavour s typeId entry ts
    · rw [hok]
      intro other
      by_cases hother : other = typeId
      · subst hother
        simp [Turn.next, SchemaRegistry.get_of_register_eq_ok hreg, DecoderState.schemaCacheOf]
      · simp [Turn.next, Function.update_of_ne hother,
          SchemaRegistry.get_of_register_ne hreg hother, hsync other]
    · rw [hrefused] at hgo
      exact hgo.elim
  | event _ _ _ | stringPool _ | stackPool _ | timestampReset _ => exact hsync
  | schemaAnnotations typeId annotations =>
    intro other
    have hknown := hsync typeId
    simp only [DecoderState.accept, Turn.next, DecoderState.mergeAnnotations]
    cases hcache : s.schemaCache typeId with
    | none =>
      rw [hcache] at hknown
      rw [← hknown]
      exact hsync other
    | some cache =>
      rw [hcache] at hknown
      rw [← hknown]
      by_cases hother : other = typeId
      · subst hother
        simp
      · simp [Function.update_of_ne hother, SchemaRegistry.get_set_ne _ _ hother, hsync other]

theorem cacheSynced_turn (hsync : CacheSynced d.state) (hgo : (nextTurnWith flavour d).GoesOn) :
    CacheSynced (nextTurnWith flavour d).next.state :=
  turn_invariant cacheSynced_new (fun _ _ => cacheSynced_accept) hsync hgo

end Synced

theorem steps_match {d t : Decoder} {log : Machine.Log Decoder (DecodedFrame FieldValueRef Bytes)}
    (h : Machine.Steps nextTurnRef d log t) (hsync : CacheSynced d.state) :
    ∃ log', Machine.Steps eventTurn d log' t ∧
      Machine.seen seenEvent log' = Machine.seen seenFrame log ∧ CacheSynced t.state := by
  induction h with
  | refl d => exact ⟨[], .refl d, rfl, hsync⟩
  | @silent d next _ log turn _ ih =>
    have hmatch := turnsMatch hsync
    unfold TurnsMatch at hmatch
    rw [turn] at hmatch
    have hkeep := cacheSynced_turn hsync (by rw [← nextTurnRef, turn]; trivial)
    rw [← nextTurnRef, turn] at hkeep
    obtain ⟨log', hsteps, hseen, hlast⟩ := ih hkeep
    exact ⟨log', .silent hmatch hsteps, hseen, hlast⟩
  | @emit d next _ frame log turn _ ih =>
    have hmatch := turnsMatch hsync
    unfold TurnsMatch at hmatch
    rw [turn] at hmatch
    have hkeep := cacheSynced_turn hsync (by rw [← nextTurnRef, turn]; trivial)
    rw [← nextTurnRef, turn] at hkeep
    obtain ⟨log', hsteps, hseen, hlast⟩ := ih hkeep
    obtain ⟨event, hevent, hshown⟩ | ⟨hsilent, hhidden⟩ := hmatch
    · refine ⟨_, .emit hevent hsteps, ?_, hlast⟩
      simp only [Machine.seen, List.filterMap_cons, hshown] at hseen ⊢
      rw [hseen]
    · refine ⟨log', .silent hsilent hsteps, ?_, hlast⟩
      simpa [Machine.seen, hhidden] using hseen

/-- The two paths deliver the same events and the loop does not overflow. -/
def Agrees (d : Decoder) : Prop :=
  Machine.seen seenEvent d.tryForEachEvent.1 = Machine.seen seenFrame d.decodeAllRef.1 ∧
    ∀ last, d.tryForEachEvent.2 ≠ some (.overflow, last)

/-- Running the loop is running `next_frame_ref` to its end, and overflowing
there if the decoder stands at an overflow. -/
theorem tryForEachEvent_spec (hsync : CacheSynced d.state) :
    ∃ t reason last, Machine.Steps nextTurnRef d d.decodeAllRef.1 t ∧
      (∀ log u, Machine.Steps nextTurnRef d log u → u.Overflows → u = t) ∧
      Machine.seen seenEvent d.tryForEachEvent.1 = Machine.seen seenFrame d.decodeAllRef.1 ∧
      d.tryForEachEvent.2 = some (reason, last) ∧ (reason = .overflow ↔ t.Overflows) := by
  obtain ⟨t, stop, tlast, hsteps, hhalt, -⟩ := steps_of_decodeAllWith zeroCopy_local d
  obtain ⟨log', hfast, hseen, hlast⟩ := steps_match hsteps hsync
  have hmatch := turnsMatch hlast
  unfold TurnsMatch nextTurnRef at hmatch
  rw [hhalt] at hmatch
  obtain ⟨reason, last, hend, hover⟩ := hmatch
  have hcollect := hfast.collect_eq eventTurn_decreases hend (Nat.lt_succ_self _)
  refine ⟨t, reason, last, hsteps, ?_, ?_, ?_, hover⟩
  · intro log u hu hoveru
    -- An overflowing decoder has no further turn, so it is where the run ends.
    obtain ⟨-, -, -, hsyncu⟩ := steps_match hu hsync
    have hmatchu := turnsMatch hsyncu
    obtain ⟨typeId, cache, input, delta, rest, hrest, hcache, hts, hdelta, hge⟩ := hoveru
    have hstop : nextTurnWith zeroCopy u = .halt .exhausted u := by
      rw [List.cons_append] at hrest
      rw [nextTurnWith_of_tag zeroCopy hrest]
      dsimp only [decodeBodyWith, decodeEventFrameWith]
      rw [bind_apply, reads_u16 typeId input]
      have hinfo : u.state.schemaInfo typeId = some ⟨cache.fieldTags, true⟩ := by
        simp [DecoderState.schemaInfo, hcache, hts]
      have hadd : checkedAdd u.state.timestampBaseNs delta = none := by
        rw [checkedAdd, if_neg (Nat.not_lt.mpr hge)]
      simp [bind_apply, hinfo, decodeTimestamp, hdelta, hadd]
    exact hu.halt_unique hstop hsteps hhalt
  · rw [tryForEachEvent, hcollect]
    exact hseen
  · rw [tryForEachEvent, hcollect]

/-- On every byte string with a header, the callback path agrees with iterating
`next_frame_ref`, and does not panic, exactly when no decoder reached by
`next_frame_ref` stands at an event whose timestamp overflows. -/
theorem tryForEachEvent_agrees_iff {data : Bytes} {d : Decoder} (hnew : new data = some d) :
    d.Agrees ↔ ∀ log t, Machine.Steps nextTurnRef d log t → ¬ t.Overflows := by
  have hsync : CacheSynced d.state := by
    obtain ⟨pair, -, rfl⟩ := Option.map_eq_some_iff.mp hnew
    exact cacheSynced_new
  obtain ⟨t, reason, last, hsteps, hunique, hseen, hend, hover⟩ := tryForEachEvent_spec hsync
  constructor
  · rintro ⟨-, hnever⟩ log u hu hoveru
    obtain rfl := hunique log u hu hoveru
    rw [hover.mpr hoveru] at hend
    exact hnever last hend
  · intro hnever
    refine ⟨hseen, ?_⟩
    intro last' hend'
    rw [hend] at hend'
    obtain ⟨rfl, -⟩ := Prod.mk.inj (Option.some.inj hend')
    exact hnever _ t hsteps (hover.mp rfl)

theorem isUtf8_t : isUtf8 [0x74] = true := by decide

/-- A header, the schema `t` without fields at id 1, and a reset to `base`. -/
def resetStream (base : UInt64) : Bytes :=
  encodeHeader ++ encodeSchema 1 ⟨⟨[0x74], isUtf8_t⟩, [], []⟩ ++
    ([FrameTag.timestampReset.byte] ++ leBytes 8 base.toNat)

/-- An event of that schema, one nanosecond after the base. -/
def tickFrame : Bytes := [FrameTag.event.byte, 1, 0, 1, 0, 0]

theorem tryForEachEvent_agrees_iff_tick :
    ∃ d, new (resetStream 7 ++ tickFrame) = some d ∧ d.Agrees ∧
      ∀ log t, Machine.Steps nextTurnRef d log t → ¬ t.Overflows := by
  obtain ⟨d, hnew, hagrees⟩ :
      ∃ d, new (resetStream 7 ++ tickFrame) = some d ∧ d.Agrees :=
    ⟨_, rfl, rfl, fun last h => by cases h⟩
  exact ⟨d, hnew, hagrees, (tryForEachEvent_agrees_iff hnew).mp hagrees⟩

/-- After a reset to the largest timestamp the next tick overflows. -/
theorem tryForEachEvent_overflow_not_agrees :
    ∃ d, new (resetStream 0xFFFFFFFFFFFFFFFF ++ tickFrame) = some d ∧ ¬ d.Agrees :=
  ⟨_, rfl, fun h => h.2 _ rfl⟩

end Decoder

end Dial9.TraceFormat
