/-
# Concatenated streams

Batches of several encoders are written one after the other. Every decode loop
resets itself at a header, so a batch decodes in the middle of a stream as it
does alone: the same frames, leaving the same decoder states, only further
along. This needs every batch before it to be decoded to its last byte; a batch
that stops inside a frame would take the next header for the frame's bytes.
-/

import Dial9.TraceFormat.ForEach
import Dial9.TraceFormat.Wire

namespace Dial9.TraceFormat

open Dial9.Lib Dial9.Lib.Reader

variable {rest input : Bytes}

variable {d last t : Decoder}

namespace Decoder

/-- The decoder inside a longer stream, `skipped` bytes later and with `tail` behind. -/
def within (skipped : Nat) (tail : Bytes) (d : Decoder) : Decoder :=
  ⟨d.rest ++ tail, skipped + d.pos, d.state⟩

@[simp]
theorem within_rest (k : Nat) (tail : Bytes) (d : Decoder) :
    (d.within k tail).rest = d.rest ++ tail := rfl

@[simp]
theorem within_state (k : Nat) (tail : Bytes) (d : Decoder) :
    (d.within k tail).state = d.state := rfl

theorem within_advance (k : Nat) (tail : Bytes) (h : rest.length ≤ d.rest.length) :
    (d.within k tail).advance (rest ++ tail) = (d.advance rest).within k tail := by
  simp only [advance, within, List.length_append, Decoder.mk.injEq, true_and, and_true]
  omega

theorem within_tryConsumeResetHeader {d d' : Decoder} (k : Nat) (tail : Bytes)
    (h : d.tryConsumeResetHeader = some d') :
    (d.within k tail).tryConsumeResetHeader = some (d'.within k tail) := by
  obtain ⟨⟨v, rest⟩, hheader, rfl⟩ := Option.map_eq_some_iff.mp h
  have happend := isLocal_decodeHeader.append hheader tail
  simp only [tryConsumeResetHeader, happend, Option.map_some, within,
    Option.some.injEq, Decoder.mk.injEq, true_and, and_true]
  omega

end Decoder

/-- The error of a shifted stream. -/
def DecodeError.shift (k : Nat) (e : DecodeError) : DecodeError := { e with pos := k + e.pos }

def Stop.shift (k : Nat) : Stop → Stop
  | .exhausted => .exhausted
  | .error e => .error (e.shift k)

def LoopEnd.shift (k : Nat) : LoopEnd → LoopEnd
  | .done => .done
  | .decode e => .decode (e.shift k)
  | .overflow => .overflow

/-- A decode loop that can be resumed in a longer stream: turns that go on do
not depend on what follows, nothing but positions depends on what precedes, a
header starts afresh, and positions count the bytes consumed. -/
structure Resumable {α ε : Type} (loop : Decoder → Machine.Log Decoder α × Option (ε × Decoder))
    (step : Decoder → Turn Decoder α ε) (shift : Nat → ε → ε) (finished : ε) : Prop where
  loop_eq : ∀ d, loop d = Machine.collect step (d.left + 1) d
  goesOn : ∀ k tail d, (step d).GoesOn → step (d.within k tail) = (step d).map (·.within k tail) id
  halts : ∀ k d, step (d.within k []) = (step d).map (·.within k []) (shift k)
  header : ∀ v rest pos s, step ⟨magic ++ v :: rest, pos, s⟩ =
    .silent ⟨rest, pos + headerSize, .new⟩
  finishes : ∀ d last, step d = .halt finished last → last = d
  consumes : ∀ d, (step d).GoesOn → (step d).next.pos + (step d).next.left = d.pos + d.left
  decreases : Machine.Decreases step Decoder.left
  shift_zero : ∀ reason, shift 0 reason = reason
  shift_shift : ∀ k m reason, shift k (shift m reason) = shift (k + m) reason

/-! ## Streams one after the other -/

section Streams

variable {α ε : Type} (loop : Decoder → Machine.Log Decoder α × Option (ε × Decoder))

/-- What a loop makes of a stream: what it yields, with the decoder state after
each, and how and where it ends. -/
def decodeStream (stream : Bytes) : Option (List (α × DecoderState) × Option (ε × Decoder)) :=
  (Decoder.new stream).map fun d =>
    ((loop d).1.map fun entry => (entry.1, entry.2.state), (loop d).2)

/-- The loop decodes the stream to its last byte. -/
def Completes (finished : ε) (stream : Bytes) (yielded : List (α × DecoderState)) : Prop :=
  ∃ last, decodeStream loop stream = some (yielded, some (finished, last)) ∧ last.rest = []

/-- After any number of streams that each decode to their last byte, a stream
decodes as it does alone, the positions apart. -/
def Concatenates (shift : Nat → ε → ε) (finished : ε) : Prop :=
  ∀ streams logs tail more reason last,
    List.Forall₂ (Completes loop finished) streams logs →
    decodeStream loop tail = some (more, some (reason, last)) →
    decodeStream loop (streams.flatten ++ tail) = some (logs.flatten ++ more,
      some (shift streams.flatten.length reason, last.within streams.flatten.length []))

end Streams

namespace Resumable

variable {α ε : Type} {loop : Decoder → Machine.Log Decoder α × Option (ε × Decoder)}
  {step : Decoder → Turn Decoder α ε} {shift : Nat → ε → ε} {finished : ε}

theorem decode_eq_some {stream : Bytes} {yielded : List (α × DecoderState)} {reason : ε}
    (h : Resumable loop step shift finished)
    (hdecode : decodeStream loop stream = some (yielded, some (reason, last))) :
    ∃ v body log t, stream = magic ++ v :: body ∧
      Machine.Steps step ⟨body, headerSize, .new⟩ log t ∧ step t = .halt reason last ∧
      log.map (fun entry => (entry.1, entry.2.state)) = yielded := by
  obtain ⟨d, hnew, heq⟩ := Option.map_eq_some_iff.mp hdecode
  obtain ⟨⟨v, body⟩, hheader, rfl⟩ := Option.map_eq_some_iff.mp hnew
  rw [h.loop_eq] at heq
  obtain ⟨hlog, hend⟩ := Prod.mk.inj heq
  obtain ⟨t, reason', last', hsteps, hhalt, hcollect⟩ :=
    Machine.steps_of_collect h.decreases (Nat.lt_succ_self _)
  rw [hend] at hcollect
  obtain ⟨rfl, rfl⟩ := Prod.mk.inj (Option.some.inj hcollect)
  exact ⟨v, body, _, t, Decoder.decodeHeader_eq_some hheader, hsteps, hhalt, hlog⟩

variable {log : Machine.Log Decoder α}

section

variable (h : Resumable loop step shift finished)
include h

theorem decode_of_steps {v : UInt8} {body : Bytes} {reason : ε}
    (hsteps : Machine.Steps step ⟨body, headerSize, .new⟩ log t)
    (hhalt : step t = .halt reason last) :
    decodeStream loop (magic ++ v :: body) =
      some (log.map fun entry => (entry.1, entry.2.state), some (reason, last)) := by
  have hheader : decodeHeader (magic ++ v :: body) = some (v, body) := by
    simpa using Decoder.reads_decodeHeader v body
  have hcollect := hsteps.collect_eq h.decreases hhalt (Nat.lt_succ_self _)
  simp only [decodeStream, Decoder.new, hheader, Option.map_some]
  rw [h.loop_eq, hcollect]

theorem steps_within (hsteps : Machine.Steps step d log t) (k : Nat) (tail : Bytes) :
    Machine.Steps step (d.within k tail)
      (log.map fun entry => (entry.1, entry.2.within k tail)) (t.within k tail) :=
  hsteps.map (·.within k tail) id fun d hgo => h.goesOn k tail d hgo

theorem steps_pos (hsteps : Machine.Steps step d log t) : t.pos + t.left = d.pos + d.left := by
  apply hsteps.relates fun d t => t.pos + t.left = d.pos + d.left
  · exact fun _ => rfl
  · exact fun _ _ _ hfirst hsecond => hsecond.trans hfirst
  · exact h.consumes

theorem decode_append {stream tail : Bytes} {yielded more : List (α × DecoderState)} {reason : ε}
    (hstream : Completes loop finished stream yielded)
    (htail : decodeStream loop tail = some (more, some (reason, last))) :
    decodeStream loop (stream ++ tail) = some (yielded ++ more,
      some (shift stream.length reason, last.within stream.length [])) := by
  obtain ⟨t, hdecode, hnil⟩ := hstream
  obtain ⟨v, body, log, t', rfl, hsteps, hhalt, rfl⟩ := decode_eq_some h hdecode
  obtain rfl : t = t' := h.finishes _ _ hhalt
  obtain ⟨w, rest, log', u, rfl, hsteps', hhalt', rfl⟩ := decode_eq_some h htail
  have hpos : t.pos = (magic ++ v :: body).length := by
    have hcount := h.steps_pos hsteps
    rw [Decoder.left, hnil] at hcount
    simp only [List.length_nil, Nat.add_zero, Decoder.left, headerSize] at hcount
    simp only [List.length_append, List.length_cons, magic, List.length_nil]
    omega
  -- The first stream, the header of the second, and the second stream.
  have hfirst := h.steps_within hsteps 0 (magic ++ w :: rest)
  have hheader : step (t.within 0 (magic ++ w :: rest)) =
      .silent (Decoder.within (magic ++ v :: body).length [] ⟨rest, headerSize, .new⟩) := by
    simp only [Decoder.within, hnil, List.nil_append, Nat.zero_add, hpos, h.header, List.append_nil]
  have hsecond := h.steps_within hsteps' (magic ++ v :: body).length []
  have hend := h.halts (magic ++ v :: body).length u
  rw [hhalt'] at hend
  have hall := hfirst.trans (.silent hheader hsecond)
  have hresult := decode_of_steps (v := v) h hall hend
  simp only [List.map_append, List.map_map] at hresult
  simpa [Decoder.within, Function.comp_def] using hresult

theorem concatenates : Concatenates loop shift finished := by
  intro streams logs tail more reason last hstreams htail
  induction hstreams with
  | nil => simp [htail, h.shift_zero, Decoder.within]
  | @cons stream log streams logs hstream _ ih =>
    have hall := h.decode_append hstream ih
    simp only [List.flatten_cons, List.append_assoc, List.length_append]
    rw [hall, h.shift_shift]
    simp [Decoder.within, Nat.add_assoc]

end

end Resumable

theorem DecodeError.shift_shift (k m : Nat) (e : DecodeError) :
    (e.shift m).shift k = e.shift (k + m) := by
  simp [shift, Nat.add_assoc]

theorem DecodeError.shift_zero (e : DecodeError) : e.shift 0 = e := by
  simp [shift]

/-! ## The loops of `next_frame` and `next_frame_ref` -/

section Frames

variable {V F : Type} {flavour : Flavour V F}

namespace Decoder

theorem accept_within (d : Decoder) (frame : Frame V F) (k : Nat) (tail : Bytes) :
    accept flavour (d.within k tail) frame =
      (accept flavour d frame).map (·.within k tail) (Stop.shift k) := by
  unfold accept
  rw [within_state]
  cases d.state.accept flavour frame with
  | emit _ _ | silent _ | halt _ _ => rfl

theorem accept_next (flavour : Flavour V F) (d : Decoder) (frame : Frame V F) :
    (accept flavour d frame).next.pos = d.pos ∧ (accept flavour d frame).next.rest = d.rest := by
  unfold accept
  cases d.state.accept flavour frame with
  | emit _ _ | silent _ | halt _ _ => exact ⟨rfl, rfl⟩

theorem advance_pos (h : rest.length ≤ d.rest.length) :
    (d.advance rest).pos + (d.advance rest).left = d.pos + d.left := by
  simp only [advance, left]
  omega

theorem body_length_le (hlocal : flavour.Local) {tag : FrameTag} {frame : Frame V F}
    (hrest : d.rest = tag.byte :: input)
    (hbody : decodeBodyWith flavour d.state.schemaInfo d.state.timestampBaseNs tag input =
      some (frame, rest)) : rest.length ≤ d.rest.length := by
  have hle := (isLocal_decodeBodyWith hlocal _ _ tag).length_le hbody
  rw [hrest, List.length_cons]
  omega

/-- A turn inside a longer stream that has nothing behind it, or that goes on. -/
theorem nextTurnWith_within (hlocal : flavour.Local) (d : Decoder) (k : Nat) (tail : Bytes)
    (hgo : tail = [] ∨ (nextTurnWith flavour d).GoesOn) :
    nextTurnWith flavour (d.within k tail) =
      (nextTurnWith flavour d).map (·.within k tail) (Stop.shift k) := by
  rcases nextTurnWith_cases flavour d with ⟨hnil, hstep⟩ | ⟨d', hsome, hstep⟩ |
      ⟨b, input, hrest, hnone, htag, hstep⟩ |
      ⟨tag, input, hrest, hnone, ⟨hbody, hstep⟩ | ⟨frame, rest, hbody, -, hstep⟩⟩
  · obtain rfl : tail = [] := hgo.resolve_right (by rw [hstep]; exact id)
    rw [hstep]
    unfold nextTurnWith
    rw [within_rest, hnil]
    rfl
  · have hwithin := within_tryConsumeResetHeader k tail hsome
    obtain ⟨v, hrest, -, -⟩ := tryConsumeResetHeader_eq_some hsome
    rw [hstep]
    unfold nextTurnWith
    rw [hwithin, within_rest, hrest]
    rfl
  · obtain rfl : tail = [] := hgo.resolve_right (by rw [hstep]; exact id)
    have hnone' : (d.within k []).tryConsumeResetHeader = none := by
      simp only [tryConsumeResetHeader, Option.map_eq_none_iff] at hnone ⊢
      rw [within_rest, List.append_nil]
      exact hnone
    rw [hstep]
    unfold nextTurnWith
    rw [hnone', within_rest, hrest]
    simp only [List.append_nil, decodeFrameWith_cons, htag, Option.bind_none]
    rfl
  · obtain rfl : tail = [] := hgo.resolve_right (by rw [hstep]; exact id)
    have hrest' : (d.within k []).rest = tag.byte :: input := by
      rw [within_rest, List.append_nil, hrest]
    rw [nextTurnWith_of_tag _ hrest', within_state, hbody, hstep]
    rfl
  · have hrest' : (d.within k tail).rest = tag.byte :: (input ++ tail) := by
      rw [within_rest, hrest]
      rfl
    have happend := (isLocal_decodeBodyWith hlocal _ _ tag).append hbody tail
    have hle := body_length_le hlocal hrest hbody
    rw [nextTurnWith_of_tag _ hrest', within_state, happend, hstep]
    dsimp only
    rw [within_advance k tail hle, accept_within]

end Decoder

theorem resumable_nextTurnWith (hlocal : flavour.Local) :
    Resumable (Decoder.decodeAllWith flavour) (Decoder.nextTurnWith flavour) Stop.shift
      .exhausted where
  loop_eq := Decoder.decodeAllWith_eq hlocal
  goesOn k tail d hgo := by
    rw [Decoder.nextTurnWith_within hlocal d k tail (.inr hgo)]
    exact Turn.map_of_goesOn hgo _ _ _
  halts k d := Decoder.nextTurnWith_within hlocal d k [] (.inl rfl)
  header v rest pos s := Decoder.nextTurnWith_header flavour v rest pos s
  finishes d last h := by
    rcases Decoder.nextTurnWith_cases flavour d with ⟨-, hstep⟩ | ⟨d', -, hstep⟩ |
        ⟨b, input, -, -, -, hstep⟩ |
        ⟨tag, input, -, -, ⟨-, hstep⟩ | ⟨frame, rest, -, -, hstep⟩⟩
    · rw [hstep] at h
      exact (Turn.halt.inj h).2.symm
    · rw [hstep] at h
      cases h
    · rw [hstep] at h
      exact (Turn.halt.inj h).2.symm
    · rw [hstep] at h
      exact (Turn.halt.inj h).2.symm
    · rw [hstep, Decoder.accept] at h
      revert h
      cases (d.advance rest).state.accept flavour frame with
      | emit _ _ | silent _ | halt _ _ => exact fun h => by cases h
  consumes d hgo := by
    rcases Decoder.nextTurnWith_cases flavour d with ⟨-, hstep⟩ | ⟨d', hsome, hstep⟩ |
        ⟨b, input, -, -, -, hstep⟩ |
        ⟨tag, input, hrest, -, ⟨-, hstep⟩ | ⟨frame, rest, hbody, -, hstep⟩⟩
    · rw [hstep] at hgo
      exact hgo.elim
    · obtain ⟨v, hrest, hpos, -⟩ := Decoder.tryConsumeResetHeader_eq_some hsome
      rw [hstep, Turn.next, Decoder.left, Decoder.left, hrest, hpos]
      simp only [List.length_append, List.length_cons, magic, List.length_nil, headerSize]
      omega
    · rw [hstep] at hgo
      exact hgo.elim
    · rw [hstep] at hgo
      exact hgo.elim
    · obtain ⟨hpos, hleft⟩ := Decoder.accept_next flavour (d.advance rest) frame
      rw [hstep, hpos, Decoder.left, hleft]
      exact Decoder.advance_pos (Decoder.body_length_le hlocal hrest hbody)
  decreases := Decoder.nextTurnWith_decreases hlocal
  shift_zero reason := by cases reason <;> simp [Stop.shift, DecodeError.shift_zero]
  shift_shift k m reason := by cases reason <;> simp [Stop.shift, DecodeError.shift_shift]

end Frames

/-! ## The loop of `try_for_each_event` -/

namespace Decoder

theorem eventFields_append {d d' : Decoder} {tags : List UInt8} {values : List FieldValueRef}
    (h : d.eventFields tags input = .ok (values, rest)) (tail : Bytes) :
    d'.eventFields tags (input ++ tail) = .ok (values, rest ++ tail) := by
  have hread := d.eventFields_toOption tags input
  rw [h] at hread
  have happend := (isLocal_forEach (isLocal_decodeField zeroCopy_local) tags).append hread.symm tail
  rw [← d'.eventFields_toOption] at happend
  cases hfields : d'.eventFields tags (input ++ tail) with
  | error e =>
    rw [hfields] at happend
    cases happend
  | ok pair =>
    rw [hfields] at happend
    exact congrArg Except.ok (Option.some.inj happend)

theorem posOf_within (d : Decoder) (k : Nat) (suffix : Bytes) :
    (d.within k []).posOf suffix = k + d.posOf suffix := by
  simp only [posOf, within, List.append_nil]
  omega

theorem eventFields_within (d : Decoder) (k : Nat) (tags : List UInt8) (input : Bytes) :
    (d.within k []).eventFields tags input =
      (d.eventFields tags input).mapError (DecodeError.shift k) := by
  induction tags generalizing input with
  | nil => rfl
  | cons ftag tags ih =>
    have hmap : ∀ (f : List FieldValueRef × Bytes → List FieldValueRef × Bytes) (rest : Bytes),
        ((d.within k []).eventFields tags rest).map f =
          ((d.eventFields tags rest).map f).mapError (DecodeError.shift k) := by
      intro f rest
      rw [ih]
      cases d.eventFields tags rest with
      | error _ | ok _ => rfl
    unfold eventFields
    simp only [posOf_within]
    cases FieldType.fromTag ftag with
    | none => rfl
    | some fieldType =>
      dsimp only
      by_cases hopt : fieldType.isOptional = true
      · simp only [hopt, if_true]
        cases input with
        | nil => rfl
        | cons present afterPresence =>
          dsimp only
          by_cases hzero : present = 0x00
          · simp only [if_pos hzero]
            exact hmap _ afterPresence
          · simp only [if_neg hzero]
            cases FieldValueRef.decode (.plain fieldType.inner) afterPresence with
            | none => rfl
            | some pair => exact hmap _ pair.2
      · simp only [hopt, Bool.false_eq_true, if_false]
        cases FieldValueRef.decode fieldType input with
        | none => rfl
        | some pair => exact hmap _ pair.2

theorem eventTimestamp_append {cache : SchemaCache} {ts : UInt64}
    (h : d.eventTimestamp cache input = .ok (ts, rest)) (k : Nat) (tail : Bytes) :
    (d.within k tail).eventTimestamp cache (input ++ tail) = .ok (ts, rest ++ tail) := by
  have hread := d.eventTimestamp_toOption cache input
  rw [h] at hread
  have happend := (isLocal_decodeTimestamp _ _).append hread.symm tail
  have htime := (d.within k tail).eventTimestamp_toOption cache (input ++ tail)
  rw [within_state, happend] at htime
  cases heq : (d.within k tail).eventTimestamp cache (input ++ tail) with
  | error e =>
    rw [heq] at htime
    cases htime
  | ok pair =>
    rw [heq] at htime
    exact congrArg Except.ok (Option.some.inj htime)

theorem eventTimestamp_within (d : Decoder) (k : Nat) (cache : SchemaCache) (input : Bytes) :
    (d.within k []).eventTimestamp cache input =
      (d.eventTimestamp cache input).mapError (LoopEnd.shift k) := by
  unfold eventTimestamp
  rw [posOf_within, within_state]
  by_cases hts : cache.hasTimestampOnWire = true
  · simp only [hts, if_true]
    cases decodeU24Le input with
    | none => rfl
    | some pair =>
      dsimp only
      split
      · rfl
      · rfl
  · simp only [hts, Bool.false_eq_true, if_false]
    rfl

theorem eventFrameTurn_append {d next : Decoder} {event : RawEvent}
    (hle : input.length ≤ d.rest.length) (h : d.eventFrameTurn input = .emit event next) (k : Nat)
    (tail : Bytes) :
    (d.within k tail).eventFrameTurn (input ++ tail) = .emit event (next.within k tail) := by
  unfold eventFrameTurn at h ⊢
  cases hid : u16 input with
  | none =>
    rw [hid] at h
    cases h
  | some idPair =>
    obtain ⟨typeId, afterId⟩ := idPair
    rw [hid] at h
    rw [isLocal_u16.append hid tail, within_state]
    dsimp only at h ⊢
    cases hcache : d.state.schemaCache typeId with
    | none =>
      rw [hcache] at h
      cases h
    | some cache =>
      rw [hcache] at h
      dsimp only at h ⊢
      cases htime : d.eventTimestamp cache afterId with
      | error reason =>
        rw [htime] at h
        cases h
      | ok tsPair =>
        obtain ⟨ts, afterTimestamp⟩ := tsPair
        rw [htime] at h
        rw [eventTimestamp_append htime k tail]
        dsimp only at h ⊢
        cases hfields : d.eventFields cache.fieldTags afterTimestamp with
        | error e =>
          rw [hfields] at h
          cases h
        | ok fieldsPair =>
          obtain ⟨values, rest⟩ := fieldsPair
          rw [hfields] at h
          rw [eventFields_append hfields tail]
          obtain ⟨rfl, rfl⟩ := Turn.emit.inj h
          dsimp only
          have hparts := d.eventParts_le hid htime hfields
          rw [within_advance k tail (by omega)]
          rfl

theorem eventFrameTurn_within (d : Decoder) (input : Bytes) (k : Nat) :
    (d.within k []).eventFrameTurn input =
      (d.eventFrameTurn input).map (·.within k []) (LoopEnd.shift k) := by
  unfold eventFrameTurn
  rw [within_state]
  cases u16 input with
  | none => rfl
  | some idPair =>
    dsimp only
    cases d.state.schemaCache idPair.1 with
    | none => rfl
    | some cache =>
      dsimp only
      rw [eventTimestamp_within]
      cases d.eventTimestamp cache idPair.2 with
      | error reason => rfl
      | ok tsPair =>
        dsimp only [Except.mapError]
        rw [eventFields_within]
        cases d.eventFields cache.fieldTags tsPair.2 with
        | error e => rfl
        | ok fieldsPair =>
          simp [Except.mapError, Turn.map, advance, within]
          omega

theorem eventFrameTurn_cases (d : Decoder) (input : Bytes) :
    (∃ reason, d.eventFrameTurn input = .halt reason d) ∨
      ∃ event ts rest, rest.length ≤ input.length ∧ d.eventFrameTurn input = .emit event
        { d.advance rest with state := { d.state with timestampBaseNs := ts } } := by
  unfold eventFrameTurn
  cases hid : u16 input with
  | none => exact .inl ⟨_, rfl⟩
  | some idPair =>
    obtain ⟨typeId, afterId⟩ := idPair
    dsimp only
    cases d.state.schemaCache typeId with
    | none => exact .inl ⟨_, rfl⟩
    | some cache =>
      dsimp only
      cases htime : d.eventTimestamp cache afterId with
      | error reason => exact .inl ⟨reason, rfl⟩
      | ok tsPair =>
        obtain ⟨ts, afterTimestamp⟩ := tsPair
        dsimp only
        cases hfields : d.eventFields cache.fieldTags afterTimestamp with
        | error e => exact .inl ⟨_, rfl⟩
        | ok fieldsPair =>
          obtain ⟨values, rest⟩ := fieldsPair
          exact .inr ⟨_, ts, rest, d.eventParts_le hid htime hfields, rfl⟩

theorem resetFrameTurn_cases (d : Decoder) (input : Bytes) :
    (u64 input = none ∧
      d.resetFrameTurn input = .halt (.decode ⟨d.pos, "truncated timestamp reset"⟩) d) ∨
      ∃ ts rest, u64 input = some (ts, rest) ∧ d.resetFrameTurn input = .silent
        { d.advance rest with state := { d.state with timestampBaseNs := ts } } := by
  unfold resetFrameTurn
  cases hread : u64 input with
  | none => exact .inl ⟨rfl, rfl⟩
  | some pair => exact .inr ⟨pair.1, pair.2, rfl, rfl⟩

theorem otherTurn_map (tag : UInt8) (k : Nat) (tail : Bytes)
    (turn : Turn Decoder (DecodedFrame FieldValueRef Bytes) Stop) :
    otherTurn tag (turn.map (·.within k tail) (Stop.shift k)) =
      (otherTurn tag turn).map (·.within k tail) (LoopEnd.shift k) := by
  cases turn with
  | emit _ _ | silent _ => rfl
  | halt reason last =>
    cases reason with
    | exhausted | error _ => rfl

theorem goesOn_of_otherTurn {tag : UInt8}
    {turn : Turn Decoder (DecodedFrame FieldValueRef Bytes) Stop}
    (h : (otherTurn tag turn).GoesOn) : turn.GoesOn := by
  cases turn with
  | emit _ _ | silent _ => trivial
  | halt reason last => cases reason <;> exact h

theorem eventTurn_cases (d : Decoder) :
    (d.rest = [] ∧ d.eventTurn = .halt .done d) ∨
    (∃ input, d.rest = FrameTag.event.byte :: input ∧ d.eventTurn = d.eventFrameTurn input) ∨
    (∃ input, d.rest = FrameTag.timestampReset.byte :: input ∧
      d.eventTurn = d.resetFrameTurn input) ∨
    ∃ tag input, d.rest = tag :: input ∧ tag ≠ FrameTag.event.byte ∧
      tag ≠ FrameTag.timestampReset.byte ∧ d.eventTurn = otherTurn tag d.nextTurnRef := by
  cases hrest : d.rest with
  | nil =>
    refine .inl ⟨rfl, ?_⟩
    unfold eventTurn
    rw [hrest]
  | cons tag input =>
    by_cases hevent : tag = FrameTag.event.byte
    · subst hevent
      refine .inr (.inl ⟨input, rfl, ?_⟩)
      unfold eventTurn
      rw [hrest]
      rfl
    · by_cases hreset : tag = FrameTag.timestampReset.byte
      · subst hreset
        refine .inr (.inr (.inl ⟨input, rfl, ?_⟩))
        unfold eventTurn
        rw [hrest]
        rfl
      · exact .inr (.inr (.inr ⟨tag, input, rfl, hevent, hreset,
          eventTurn_of_other hrest hevent hreset⟩))

theorem eventTurn_within (d : Decoder) (k : Nat) (tail : Bytes)
    (hgo : tail = [] ∨ d.eventTurn.GoesOn) :
    (d.within k tail).eventTurn = d.eventTurn.map (·.within k tail) (LoopEnd.shift k) := by
  rcases eventTurn_cases d with ⟨hnil, hstep⟩ | ⟨input, hrest, hstep⟩ | ⟨input, hrest, hstep⟩ |
      ⟨tag, input, hrest, hevent, hreset, hstep⟩
  · obtain rfl : tail = [] := hgo.resolve_right (by rw [hstep]; exact id)
    rw [hstep]
    unfold eventTurn
    rw [within_rest, hnil]
    rfl
  · have harm : (d.within k tail).eventTurn = (d.within k tail).eventFrameTurn (input ++ tail) := by
      unfold eventTurn
      rw [within_rest, hrest]
      rfl
    rw [harm, hstep]
    rcases hgo with rfl | hgo
    · rw [List.append_nil, eventFrameTurn_within]
    · rcases d.eventFrameTurn_cases input with ⟨reason, hhalt⟩ | ⟨event, ts, rest, -, hemit⟩
      · rw [hstep, hhalt] at hgo
        exact hgo.elim
      · have hle : input.length ≤ d.rest.length := by simp [hrest]
        rw [eventFrameTurn_append hle hemit k tail, hemit]
        rfl
  · have harm : (d.within k tail).eventTurn = (d.within k tail).resetFrameTurn (input ++ tail) := by
      unfold eventTurn
      rw [within_rest, hrest]
      rfl
    rw [harm, hstep]
    rcases d.resetFrameTurn_cases input with ⟨hnone, hhalt⟩ | ⟨ts, rest, hread, hsilent⟩
    · obtain rfl : tail = [] := hgo.resolve_right (by rw [hstep, hhalt]; exact id)
      rw [hhalt]
      unfold resetFrameTurn
      rw [List.append_nil, hnone]
      rfl
    · have hle := isLocal_u64.length_le hread
      have hlen : rest.length ≤ d.rest.length := by
        rw [hrest, List.length_cons]
        omega
      rw [hsilent]
      unfold resetFrameTurn
      rw [isLocal_u64.append hread tail]
      dsimp only
      rw [within_advance k tail hlen]
      rfl
  · have hrest' : (d.within k tail).rest = tag :: (input ++ tail) := by
      rw [within_rest, hrest]
      rfl
    have hgo' : tail = [] ∨ d.nextTurnRef.GoesOn := hgo.imp_right fun hgo => by
      rw [hstep] at hgo
      exact goesOn_of_otherTurn hgo
    rw [eventTurn_of_other hrest' hevent hreset, hstep, nextTurnRef,
      nextTurnWith_within zeroCopy_local d k tail hgo', otherTurn_map]

end Decoder

theorem resumable_eventTurn :
    Resumable Decoder.tryForEachEvent Decoder.eventTurn LoopEnd.shift .done where
  loop_eq _ := rfl
  goesOn k tail d hgo := by
    rw [d.eventTurn_within k tail (.inr hgo)]
    exact Turn.map_of_goesOn hgo _ _ _
  halts k d := d.eventTurn_within k [] (.inl rfl)
  header v rest pos s := by
    have hrest :
        (⟨magic ++ v :: rest, pos, s⟩ : Decoder).rest = 0x54 :: (magic ++ v :: rest).tail :=
      rfl
    rw [Decoder.eventTurn_of_other hrest (by decide) (by decide), Decoder.nextTurnRef,
      Decoder.nextTurnWith_header]
    rfl
  finishes d last h := by
    rcases d.eventTurn_cases with ⟨-, hstep⟩ | ⟨input, -, hstep⟩ | ⟨input, -, hstep⟩ |
        ⟨tag, input, -, -, -, hstep⟩
    · rw [hstep] at h
      exact (Turn.halt.inj h).2.symm
    · rcases d.eventFrameTurn_cases input with ⟨reason, hhalt⟩ | ⟨event, ts, rest, -, hemit⟩
      · rw [hstep, hhalt] at h
        exact (Turn.halt.inj h).2.symm
      · rw [hstep, hemit] at h
        cases h
    · rcases d.resetFrameTurn_cases input with ⟨-, hhalt⟩ | ⟨ts, rest, -, hsilent⟩
      · rw [hstep, hhalt] at h
        cases h
      · rw [hstep, hsilent] at h
        cases h
    · rw [hstep] at h
      revert h
      cases d.nextTurnRef with
      | emit _ _ | silent _ => exact fun h => by cases h
      | halt reason last' =>
        cases reason with
        | exhausted | error _ => exact fun h => by cases h
  consumes d hgo := by
    rcases d.eventTurn_cases with ⟨-, hstep⟩ | ⟨input, hrest, hstep⟩ | ⟨input, hrest, hstep⟩ |
        ⟨tag, input, -, -, -, hstep⟩
    · rw [hstep] at hgo
      exact hgo.elim
    · rcases d.eventFrameTurn_cases input with ⟨reason, hhalt⟩ | ⟨event, ts, rest, hle, hemit⟩
      · rw [hstep, hhalt] at hgo
        exact hgo.elim
      · rw [hstep, hemit]
        apply Decoder.advance_pos
        rw [hrest, List.length_cons]
        omega
    · rcases d.resetFrameTurn_cases input with ⟨-, hhalt⟩ | ⟨ts, rest, hread, hsilent⟩
      · rw [hstep, hhalt] at hgo
        exact hgo.elim
      · rw [hstep, hsilent]
        apply Decoder.advance_pos
        have hle := isLocal_u64.length_le hread
        rw [hrest, List.length_cons]
        omega
    · rw [hstep] at hgo
      have hnext := (resumable_nextTurnWith zeroCopy_local).consumes d
        (Decoder.goesOn_of_otherTurn hgo)
      rw [hstep]
      change (Decoder.otherTurn tag (Decoder.nextTurnWith zeroCopy d)).next.pos +
        (Decoder.otherTurn tag (Decoder.nextTurnWith zeroCopy d)).next.left = _
      rw [← hnext]
      cases Decoder.nextTurnWith zeroCopy d with
      | emit _ _ | silent _ => rfl
      | halt reason last => cases reason <;> rfl
  decreases := Decoder.eventTurn_decreases
  shift_zero reason := by cases reason <;> simp [LoopEnd.shift, DecodeError.shift_zero]
  shift_shift k m reason := by cases reason <;> simp [LoopEnd.shift, DecodeError.shift_shift]

end Dial9.TraceFormat
