/-
# Sessions over a sink that can fail

A session goes on after an operation that failed, on whatever the sink took.
While every failure is harmless the decoder stays in step: the stream decodes to
its end and shows the events of the operations that succeeded, and every id
they handed out resolves.
-/

import Dial9.TraceFormat.Append
import Dial9.TraceFormat.Interrupted

namespace Dial9.TraceFormat

open Dial9.Lib Dial9.Lib.Reader

variable {program : Program} {untimed : SchemaEntry → Prop}

/-! ## Commands that are interrupted -/

variable {command : Command program} {known : Interned}

namespace InStep

variable {e : Encoder} {s : DecoderState}

section

variable (h : InStep program untimed e s)
include h

theorem reserve (hroom : e.registry.nextId.toNat + 1 < 2 ^ 16)
    {s' : DecoderState} (hsame : s.SameBut e.registry.nextId s') (bytes : Bytes) :
    InStep program untimed (e.reserve.write bytes) s' := by
  have hnone := h.settled.get_nextId
  have hslot : ∀ t, (program.types t).Fast → (program.types t).typeSlot ≠ e.registry.nextId := by
    intro t hfast heq
    have hlt := h.fast_lt hfast
    rw [heq] at hlt
    exact absurd hlt (UInt16.lt_irrefl _)
  have hsettled : Settled program (e.reserve.write bytes) :=
    (h.settled.allocate hroom ⟨default, [], []⟩).write (e.out ++ bytes) e.timestampBaseNs
  refine ⟨⟨?_, ?_, ?_, h.handles, ?_, ?_, ?_, ?_⟩, hsettled, ?_, ?_⟩
  · rw [hsame.base]
    exact h.base
  · intro id entry hget
    have hne : id ≠ e.registry.nextId := by
      rintro rfl
      rw [show (e.reserve.write bytes).registry.get e.registry.nextId = none from hnone] at hget
      cases hget
    obtain ⟨hknown, ts, hinfo, htimed⟩ := h.schemas id entry hget
    exact ⟨(hsame.registry id hne).trans hknown, ts, (hsame.schemaInfo id hne).trans hinfo, htimed⟩
  · intro id hid
    obtain ⟨hle, hne⟩ := le_and_ne_of_succ_le_typeId hroom hid
    exact (hsame.registry id hne).trans (h.freeTypeIds id hle)
  · rw [hsame.stringPool]
    exact h.stringPool
  · rw [hsame.stringPool]
    exact h.freePoolIds
  · rw [hsame.stackPool]
    exact h.stackPool
  · rw [hsame.stackPool]
    exact h.freeStackPoolIds
  · intro t hfast hwritten
    exact (hsame.schemaInfo _ (hslot t hfast)).trans (h.written t hfast hwritten)
  · intro t hfast hunwritten
    rw [hsame.registry _ (hslot t hfast)]
    exact h.unwritten t hfast hunwritten

theorem registering {request : Request} {whole rest : List Bytes}
    (hfits : (request.entry program).Fits) (husable : request.Usable program e)
    (hframes : request.frames program e = whole ++ rest) (hrest : rest ≠ []) :
    ∃ s', Absorbed e ((request.reserved program e).write whole.flatten) s s' [] ∧
      InStep program untimed ((request.reserved program e).write whole.flatten) s' := by
  have hsome : request.frames program e ≠ [] := by
    rw [hframes]
    simp [hrest]
  unfold Request.reserved
  obtain ⟨hallocates, hroom, hof⟩ | ⟨hnot, hclaims, hof⟩ := Request.frames_cases hsome
  · rw [if_pos hallocates]
    rw [hof] at hframes
    obtain rfl | ⟨rfl, -, -⟩ := schemaFrames_split hframes hrest
    · refine ⟨s, .silent (List.append_nil _) s, h.reserve hroom ?_ _⟩
      exact ⟨fun _ _ => rfl, fun _ _ => rfl, rfl, rfl, rfl⟩
    · have hfree : s.registry.get e.registry.nextId = none :=
        h.freeTypeIds _ (UInt16.le_refl _)
      obtain ⟨s', hfeeds, hread, hsame, -⟩ := feeds_declaration hfits (.inl hfree)
      rw [List.flatten_singleton]
      exact ⟨s', hsame.absorbed rfl hfeeds hread rfl, h.reserve hroom hsame _⟩
  · rw [if_neg hnot]
    rw [hof] at hframes
    obtain rfl | ⟨rfl, hannotated, -⟩ := schemaFrames_split hframes hrest
    · rw [List.flatten_nil, Encoder.write_nil]
      exact ⟨s, .silent rfl s, h⟩
    · cases request with
      | handle schema => exact hclaims.elim
      | typed identity t =>
        obtain ⟨hfast, hunwritten⟩ := hclaims
        have hfree := husable ⟨hfast, hunwritten⟩
        have hnone := hfree.resolve_right fun hdeclared => hannotated hdeclared.2
        obtain ⟨s', hfeeds, hread, hsame, hbare, -⟩ :=
          feeds_declaration hfits (h.declarable hfast hfree)
        rw [List.flatten_singleton]
        refine ⟨s', hsame.absorbed rfl hfeeds hread rfl, ?_⟩
        refine h.at_slot hfast (h.settled.write _ _) hsame rfl (fun _ _ => ⟨rfl, rfl⟩) ?_ ?_ ?_
        · intro entry hget
          rw [show e.registry.get (program.types t).typeSlot = none from hnone] at hget
          cases hget
        · intro hmarked
          rw [hunwritten] at hmarked
          cases hmarked
        · exact fun _ => .inr hbare

theorem reset (ts : UInt64) :
    Absorbed e { e.write (OnSink.resetFrame ts) with timestampBaseNs := ts } s
        { s with timestampBaseNs := ts } [] ∧
      InStep program untimed { e.write (OnSink.resetFrame ts) with timestampBaseNs := ts }
        { s with timestampBaseNs := ts } := by
  refine ⟨⟨⟨_, _, rfl, feeds_timestampReset owned s ts, rfl⟩, fun _ _ h => h, fun _ _ h => h, _,
    rfl, readable_timestampReset s ts⟩, ?_⟩
  exact ⟨h.toSynced.retime ts _, h.settled.write _ _, h.written, h.unwritten⟩

end

end InStep

/-! ## One step -/

theorem Request.flatten_frames (e : Encoder) (request : Request) :
    (request.frames program e).flatten =
      (request.frame program e).elim [] fun id => schemaBytes id (request.entry program) := by
  unfold Request.frames
  cases request.frame program e with
  | none => rfl
  | some id => exact flatten_schemaFrames id (request.entry program)

variable {s : DecoderState}

theorem InStep.resolveTo_whole {request : Request}
    (h : InStep program untimed e s) (husable : request.Usable program e) (k : Nat) :
    request.resolveTo program ⟨e, some ((request.frames program e).flatten.length + k)⟩ =
      ((request.resolve program e).1.mapError .fault,
        ⟨(request.resolve program e).2, some k⟩) := by
  have hout := (h.settled.binds request husable.slotFree).out
  rw [← Request.flatten_frames] at hout
  have hsize : (request.resolve program e).2.size - e.size =
      (request.frames program e).flatten.length := by
    unfold Encoder.size
    rw [hout, List.length_append, Nat.add_sub_cancel_left]
  have hlifts : Lifts Encoder.size (request.resolveTo program) e (request.resolve program e) :=
    request.lifts_resolveTo e
  rw [hlifts.whole]
  · rw [hsize, Option.map_some, Nat.add_sub_cancel_left]
  · rw [hsize]
    exact accepts_some.mpr (Nat.le_add_right _ _)

/-- How the decoder follows a step with that outcome: a success shows its events
and resolves what it interned, a failure shows nothing. -/
def Followed (untimed : SchemaEntry → Prop) (e : Encoder) (s : DecoderState)
    (command : Command program) (known : Interned)
    (outcome : Except (Broken Fault) Response × Sink Encoder) : Prop :=
  ∃ s' events, Absorbed e outcome.2.state s s' events ∧
    InStep program untimed outcome.2.state s' ∧
    (∀ response, outcome.1 = .ok response →
      (command.after known response).ResolvedBy s' ∧
        List.Forall₂ Written.IsDecodedAs (command.written known) events) ∧
    ∀ broken, outcome.1 = .error broken → events = []

theorem Followed.of_error {e e' : Encoder} {s s' : DecoderState}
    {room : Option Nat} {broken : Broken Fault} (habsorbed : Absorbed e e' s s' [])
    (hnext : InStep program untimed e' s') :
    Followed untimed e s command known (.error broken, ⟨e', room⟩) := by
  refine ⟨s', [], habsorbed, hnext, ?_, fun _ _ => rfl⟩
  intro response hok
  cases hok

theorem Followed.behind_request
    {request : Request} {k : Nat} {ts : UInt64} {fields : Bytes} (h : InStep program untimed e s)
    (happend : command.Appendable untimed e) (hrequest : command.request = some request)
    (hevent : command.event = some (ts, fields))
    (hcut : ∀ id, ∃ e', OnSink.writeEventFrame id ts fields
        ⟨(request.resolve program e).2, some k⟩ = (.error .sink, ⟨e', some 0⟩) ∧
      ∀ s₁, InStep program untimed (request.resolve program e).2 s₁ →
        ∃ s', Absorbed (request.resolve program e).2 e' s₁ s' [] ∧
          InStep program untimed e' s') :
    Followed untimed e s command known
      (command.performTo ⟨e, some ((request.frames program e).flatten.length + k)⟩) := by
  obtain ⟨hfits, husable⟩ := happend.request hrequest
  obtain ⟨s₁, habsorbed, hnext, -⟩ := h.resolve hfits husable
  have hwhole := h.resolveTo_whole husable k
  rw [Command.performTo_request hrequest]
  cases hresult : (request.resolve program e).1 with
  | error fault =>
    rw [hresult] at hwhole
    rw [SinkM.bind_of_error hwhole]
    exact .of_error habsorbed hnext
  | ok id =>
    rw [hresult] at hwhole
    rw [SinkM.bind_of_ok hwhole, Command.conclude_event hevent]
    obtain ⟨e', hframe, hfollow⟩ := hcut id
    obtain ⟨s', habsorbed', hnext'⟩ := hfollow s₁ hnext
    rw [SinkM.bind_of_error hframe]
    exact .of_error (habsorbed.trans habsorbed') hnext'

theorem Request.resolve_base {request : Request} (hsettled : Settled program e)
    (husable : request.Usable program e) :
    (request.resolve program e).2.timestampBaseNs = e.timestampBaseNs :=
  (hsettled.binds request husable.slotFree).base

/-- One step that is harmless: the decoder follows. -/
theorem InStep.performTo
    {room : Option Nat} (h : InStep program untimed e s) (happend : command.Appendable untimed e)
    (hharmless : command.Harmless e room) (hknown : known.ResolvedBy s) :
    Followed untimed e s command known (command.performTo ⟨e, room⟩) := by
  cases hharmless with
  | accepted haccepts =>
    obtain ⟨s', events, habsorbed, hnext, hok, herror⟩ := h.perform happend hknown
    rw [(command.lifts_performTo e).whole room haccepts]
    refine ⟨s', events, habsorbed, hnext, ?_, ?_⟩
    · intro response hresponse
      apply hok response
      cases hresult : (command.perform e).1 with
      | ok answered =>
        rw [hresult] at hresponse
        exact congrArg _ (Except.ok.inj hresponse)
      | error fault =>
        rw [hresult] at hresponse
        cases hresponse
    · intro broken hbroken
      cases hresult : (command.perform e).1 with
      | ok answered =>
        rw [hresult] at hbroken
        cases hbroken
      | error fault => exact herror fault hresult
  | registering hrequest hframes hrest =>
    obtain ⟨hfits, husable⟩ := happend.request hrequest
    obtain ⟨s', habsorbed, hnext⟩ := h.registering hfits husable hframes hrest
    rw [Command.performTo_request hrequest,
      SinkM.bind_of_error (Request.resolveTo_cut hframes hrest)]
    exact .of_error habsorbed hnext
  | beforeEvent hrequest hevent hstep =>
    have hbase := Request.resolve_base h.settled (happend.request hrequest).2
    apply Followed.behind_request (k := 0) h happend hrequest hevent
    intro id
    unfold Encoder.Resets at hstep
    rw [← hbase] at hstep
    exact ⟨_, OnSink.writeEventFrame_cut hstep id _,
      fun s₁ hnext => ⟨s₁, .silent rfl s₁, hnext⟩⟩
  | afterReset hrequest hevent hreset =>
    have hbase := Request.resolve_base h.settled (happend.request hrequest).2
    apply Followed.behind_request (k := 9) h happend hrequest hevent
    intro id
    unfold Encoder.Resets at hreset
    rw [← hbase] at hreset
    exact ⟨_, OnSink.writeEventFrame_reset hreset id _, fun s₁ hnext => ⟨_, hnext.reset _⟩⟩

/-! ## Sessions -/

/-- A session over a sink: the encoder, and what succeeded so far. -/
structure SinkSession (program : Program) where
  encoder : Encoder
  done : List (Command program × Response)

namespace SinkSession

/-- One command, on a sink that accepts so many more bytes. A failure leaves the
encoder as the command left it, and a panic ends the session. -/
def step (session : SinkSession program) (call : Command program × Option Nat) :
    Option (SinkSession program) :=
  match call.1.performTo ⟨session.encoder, call.2⟩ with
  | (.ok response, sink) => some ⟨sink.state, session.done ++ [(call.1, response)]⟩
  | (.error (.fault .panic), _) => none
  | (.error _, sink) => some ⟨sink.state, session.done⟩

/-- What succeeded, as a run. -/
def transcript (session : SinkSession program) : List (Command program × Except Fault Response) :=
  session.done.map fun answered => (answered.1, .ok answered.2)

theorem step_cases {session next : SinkSession program} {call : Command program × Option Nat}
    (h : session.step call = some next) :
    next.encoder = (call.1.performTo ⟨session.encoder, call.2⟩).2.state ∧
      ((∃ response, (call.1.performTo ⟨session.encoder, call.2⟩).1 = .ok response ∧
          next.done = session.done ++ [(call.1, response)]) ∨
        ∃ broken, (call.1.performTo ⟨session.encoder, call.2⟩).1 = .error broken ∧
          next.done = session.done) := by
  unfold step at h
  revert h
  cases call.1.performTo ⟨session.encoder, call.2⟩ with
  | mk result sink =>
    intro h
    cases result with
    | ok response =>
      obtain rfl := Option.some.inj h
      exact ⟨rfl, .inl ⟨response, rfl, rfl⟩⟩
    | error broken =>
      have hkept : next = ⟨sink.state, session.done⟩ := by
        cases broken with
        | sink => exact (Option.some.inj h).symm
        | fault fault =>
          cases fault with
          | panic => cases h
          | error encodeError => exact (Option.some.inj h).symm
      obtain rfl := hkept
      exact ⟨rfl, .inr ⟨broken, rfl, rfl⟩⟩

end SinkSession

theorem writtenBy_concat (done : List (Command program × Except Fault Response))
    (command : Command program) (response : Response) :
    ∀ known, writtenBy known (done ++ [(command, .ok response)]) =
      writtenBy known done ++ command.written (internedBy known done) := by
  induction done with
  | nil => exact fun known => List.append_nil _
  | cons entry done ih =>
    intro known
    obtain ⟨other, result⟩ := entry
    cases result with
    | ok answered =>
      simp only [List.cons_append, writtenBy, internedBy, ih, List.append_assoc]
    | error fault => exact ih known

theorem internedBy_concat (done : List (Command program × Except Fault Response))
    (command : Command program) (response : Response) :
    ∀ known, internedBy known (done ++ [(command, .ok response)]) =
      command.after (internedBy known done) response := by
  induction done with
  | nil => exact fun known => rfl
  | cons entry done ih =>
    intro known
    obtain ⟨other, result⟩ := entry
    cases result with
    | ok answered => exact ih _
    | error fault => exact ih known

/-- How a session comes by its encoder: the bytes before those of the encoder,
and the frames and the state that the decoder finds so far. -/
inductive Opened : Bytes → StateLog FieldValue (List UInt64) → DecoderState → Encoder → Prop
  | new : Opened [] [] .new .new
  | reset (e : Encoder) : Opened [] [] .new e.resetTo.2
  | resumed {base : Bytes} {d last : Decoder} {e : Encoder}
      {log : Machine.Log Decoder (DecodedFrame FieldValue (List UInt64))}
      (hnew : Decoder.new base = some d) (hbase : d.decodeAll = (log, some (.exhausted, last)))
      (hend : last.rest = []) (hinto : last.IntoEncoder e) :
      Opened base (stateLog log) last.state e

namespace Opened

variable {base : Bytes} {log : StateLog FieldValue (List UInt64)} {s : DecoderState} {e : Encoder}

theorem read (h : Opened base log s e) : ∃ d run last, Decoder.new (base ++ e.out) = some d ∧
    Machine.Steps Decoder.nextTurn d run last ∧ last.rest = [] ∧ last.state = s ∧
    stateLog run = log := by
  cases h with
  | new | reset _ => exact ⟨_, [], _, rfl, .refl _, rfl, rfl, rfl⟩
  | resumed hnew hbase hend hinto =>
    rw [hinto.begins.1, List.append_nil]
    exact ⟨_, _, _, hnew, (Decoder.steps_to_end hnew hbase).1, hend, rfl, rfl⟩

theorem inStep (h : Opened base log s e) : InStep program s.Untimed e s := by
  cases h with
  | new =>
    refine ⟨synced_new _, settled_new, ?_, fun _ _ _ => .inl rfl⟩
    intro t hfast hwritten
    cases hwritten
  | reset e =>
    refine ⟨{ synced_new _ with }, e.alike_resetTo.settled settled_new, ?_,
      fun _ _ _ => .inl rfl⟩
    intro t hfast hwritten
    cases hwritten
  | resumed hnew hbase hend hinto =>
    exact hinto.inStep (Decoder.steps_to_end hnew hbase).2

end Opened

namespace SinkSession

variable {base : Bytes} {log : StateLog FieldValue (List UInt64)} {s : DecoderState} {e : Encoder}

/-- The stream so far decodes to its end. It shows the frames it began with and
then the events of what succeeded, no more and no fewer, and every id that was
handed out resolves. -/
def Shows (base : Bytes) (log : StateLog FieldValue (List UInt64)) (s : DecoderState)
    (session : SinkSession program) : Prop :=
  ∃ d run last more, Decoder.new (base ++ session.encoder.out) = some d ∧
    d.decodeAll = (run, some (.exhausted, last)) ∧ last.rest = [] ∧ stateLog run = log ++ more ∧
    List.Forall₂ Written.IsDecodedAs (writtenBy s.interned session.transcript) (eventsOf more) ∧
    (internedBy s.interned session.transcript).ResolvedBy last.state

/-- The decoder has followed the session to a state in step with its encoder. -/
def Tracked (s : DecoderState) (e : Encoder) (session : SinkSession program) : Prop :=
  ∃ s' events, Absorbed e session.encoder s s' events ∧
    InStep program s.Untimed session.encoder s' ∧
    (internedBy s.interned session.transcript).ResolvedBy s' ∧
    List.Forall₂ Written.IsDecodedAs (writtenBy s.interned session.transcript) events

/-- What is asked of a call: the values, the lengths and the schemas are such as
the decoder can take, and the sink leaves the session intact. -/
def Allowed (s : DecoderState) (session : SinkSession program)
    (call : Command program × Option Nat) : Prop :=
  call.1.Appendable s.Untimed session.encoder ∧ call.1.Harmless session.encoder call.2

theorem Tracked.step {session next : SinkSession program} {call : Command program × Option Nat}
    (h : session.Tracked s e) (hallowed : session.Allowed s call)
    (hstep : session.step call = some next) : next.Tracked s e := by
  obtain ⟨s₁, events, habsorbed, hin, hknown, hevents⟩ := h
  obtain ⟨s', more, habsorbed', hin', hok, herror⟩ :=
    hin.performTo hallowed.1 hallowed.2 hknown
  obtain ⟨hencoder, ⟨response, hresult, hdone⟩ | ⟨broken, hresult, hdone⟩⟩ := step_cases hstep
  · obtain ⟨hknown', hmore⟩ := hok response hresult
    have htranscript : next.transcript =
        session.transcript ++ [(call.1, Except.ok response)] := by
      rw [transcript, hdone, List.map_append]
      rfl
    refine ⟨s', events ++ more, ?_, ?_, ?_, ?_⟩
    · rw [hencoder]
      exact habsorbed.trans habsorbed'
    · rw [hencoder]
      exact hin'
    · rw [htranscript, internedBy_concat]
      exact hknown'
    · rw [htranscript, writtenBy_concat]
      exact List.rel_append hevents hmore
  · obtain rfl := herror broken hresult
    have htranscript : next.transcript = session.transcript := by
      rw [transcript, hdone, transcript]
    refine ⟨s', events, ?_, ?_, ?_, ?_⟩
    · rw [hencoder, ← List.append_nil events]
      exact habsorbed.trans habsorbed'
    · rw [hencoder]
      exact hin'
    · rw [htranscript]
      exact hknown.absorbed habsorbed'
    · rw [htranscript]
      exact hevents

theorem Tracked.shows {session : SinkSession program} (hopened : Opened base log s e)
    (h : session.Tracked s e) : session.Shows base log s := by
  obtain ⟨s', events, habsorbed, -, hknown, hevents⟩ := h
  obtain ⟨bytes, more, hout, hfeeds, hmore⟩ := habsorbed.fed
  obtain ⟨d, run, last, hnew, hsteps, hend, rfl, rfl⟩ := hopened.read
  obtain ⟨d', run', hnew', hdecode, hrun⟩ := decodeAll_append hnew hsteps hend hfeeds
  rw [List.append_assoc, ← hout] at hnew' hdecode
  refine ⟨d', run', _, more, hnew', hdecode, rfl, hrun, ?_, hknown⟩
  rw [hmore]
  exact hevents

/-- In every session the following holds in every state reached, whatever failed
before it: the stream decodes to the events of the commands that succeeded. Each
call must be one the decoder can take, and its failure harmless. -/
theorem shows_throughout (hopened : Opened base log s e)
    {calls : List (Command program × Option Nat)} (halong : Along step (Allowed s) ⟨e, []⟩ calls) :
    Throughout step (Shows base log s) ⟨e, []⟩ calls := by
  have hstart : Tracked s e (⟨e, []⟩ : SinkSession program) :=
    ⟨s, [], .silent rfl s, hopened.inStep, s.interned_resolvedBy, .nil⟩
  exact throughout_of_along (fun _ _ _ hgood hallowed hstep => hgood.step hallowed hstep)
    (fun _ => Tracked.shows hopened) hstart halong

/-- An event whose registration the sink refuses, and the same event again. -/
def retriedEvent : List (Command plainProgram × Option Nat) :=
  [(.op (.writeEvent sampleSchema 7 [.varint 1, .none]), some 0),
    (.op (.writeEvent sampleSchema 7 [.varint 1, .none]), none)]

theorem shows_throughout_retriedEvent :
    Throughout step (Shows [] [] .new) ⟨.new, []⟩ retriedEvent := by
  have happend : ∀ e, (Command.op (.writeEvent sampleSchema 7 [.varint 1, .none]) :
      Command plainProgram).Appendable DecoderState.new.Untimed e := by
    intro e
    refine ⟨⟨⟨by decide, by decide, by simp [sampleSchema]⟩, ?_⟩, ?_, ?_⟩
    · simp [ValuesAdmissible, sampleSchema, FieldValue.Matches, FieldValue.shape,
        FieldType.inner, FieldType.isOptional, FieldValue.WithinLimits]
    · simp [Op.LengthsFit, sampleSchema, FieldValue.payloads]
    · rintro ⟨id, cache, hcache, -⟩
      cases hcache
  have hframes : (Request.handle sampleSchema).frames plainProgram .new = [] ++ _ := rfl
  refine shows_throughout .new ⟨⟨happend _, ?_⟩, ?_⟩
  · exact .registering rfl hframes (List.cons_ne_nil _ _)
  · intro next _
    exact ⟨⟨happend _, .accepted (accepts_none _)⟩, fun _ _ => trivial⟩

/-- A string whose pool frame the sink refuses, the same string again, and an
event with the id it was given. -/
def lostString : List (Command plainProgram × Option Nat) :=
  [(.op (.internString sampleName), some 0), (.op (.internString sampleName), none),
    (.op (.writeEvent sampleSchema 7 [.varint 1, .pooledString 0]), none)]

/-- What the sink took of it: no pool frame. -/
def lostStream : Bytes :=
  encodeHeader ++ encodeSchema 256 sampleSchema.entry ++
    OnSink.eventFrame 256 7 (Encoder.encodeValues sampleSchema.entry [.varint 1, .pooledString 0])

/-- The first string of the pool, as the decoder finds it in a stream. -/
def firstString (stream : Bytes) : Option Text :=
  (Decoder.new stream).bind fun d => d.decodeAll.2.bind fun stop => stop.2.state.stringPool.lookup 0

/-- The second call and the event succeed, and the id they use stands for nothing. -/
theorem lostString_not_shown : ∃ session, run step ⟨.new, []⟩ lostString = some session ∧
    session.done = [(.op (.internString sampleName), .interned 0),
      (.op (.writeEvent sampleSchema 7 [.varint 1, .pooledString 0]), .written)] ∧
    ¬ session.Shows [] [] .new := by
  obtain ⟨session, hrun, hdone, hout⟩ : ∃ session, run step ⟨.new, []⟩ lostString = some session ∧
      session.done = [(.op (.internString sampleName), .interned 0),
        (.op (.writeEvent sampleSchema 7 [.varint 1, .pooledString 0]), .written)] ∧
      session.encoder.out = lostStream := ⟨_, rfl, rfl, rfl⟩
  refine ⟨session, hrun, hdone, ?_⟩
  rintro ⟨d, decoded, last, more, hnew, hdecode, -, -, -, hresolved⟩
  rw [List.nil_append, hout] at hnew
  rw [transcript, hdone] at hresolved
  have hstring := hresolved.1 (0, sampleName) (by decide)
  have hfirst : firstString lostStream = some sampleName := by
    rw [firstString, hnew, Option.bind_some, hdecode]
    exact hstring
  have hnone : firstString lostStream = none := by decide
  rw [hnone] at hfirst
  cases hfirst

end SinkSession

end Dial9.TraceFormat
