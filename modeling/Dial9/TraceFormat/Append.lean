/-
# Appending to a decoded trace

An encoder made by `into_encoder` writes into the same stream as the trace it
came from. Schema handles and pools go on where the trace left off. A typed
write on a slot does not look at what the trace knows: it emits its schema
frame again. The decoder accepts that frame only where the slot is free or
holds the very same schema, and after the trace's own annotation frame it holds
more. So appending works when a slot written for the first time is free in the
trace, or holds the same schema without annotations.
-/

import Dial9.TraceFormat.InStep

namespace Dial9.TraceFormat

open Dial9.Lib Dial9.Lib.Reader

variable {program : Program} {untimed : SchemaEntry → Prop} {e : Encoder} {s : DecoderState}

/-! ## Runs -/

variable {command : Command program}

theorem Command.perform_keeps (h : Settled program e) (hfree : command.SlotFree e) {id : WireTypeId}
    {entry : SchemaEntry} (hget : e.registry.get id = some entry) :
    (command.perform e).2.registry.get id = some entry := by
  cases hrequest : command.request with
  | none =>
    rw [(command.perform_no_request hrequest).registry]
    exact hget
  | some request =>
    rw [(command.perform_request hrequest).sameIds.registry]
    exact (h.binds request (hfree request hrequest)).keeps id entry hget

theorem InStep.performAll {commands : List (Command program)} :
    ∀ {e : Encoder} {s : DecoderState} {known : Interned}, InStep program untimed e s →
      AppendableAll untimed e commands → known.ResolvedBy s →
      ∃ s' events, Absorbed e (performAll e commands).2 s s' events ∧
        InStep program untimed (performAll e commands).2 s' ∧
        (∀ id entry, e.registry.get id = some entry →
          (performAll e commands).2.registry.get id = some entry) ∧
        (internedBy known (commands.zip (performAll e commands).1)).ResolvedBy s' ∧
        List.Forall₂ Written.IsDecodedAs
          (writtenBy known (commands.zip (performAll e commands).1)) events := by
  induction commands with
  | nil =>
    intro e s known h _ hknown
    exact ⟨s, [], .silent rfl s, h, fun _ _ hget => hget, hknown, .nil⟩
  | cons command commands ih =>
    intro e s known h happend hknown
    obtain ⟨hfirst, hrest⟩ := happend
    obtain ⟨s₁, events₁, habsorbed₁, h₁, hok, herror⟩ := h.perform hfirst hknown
    have hkeeps₁ : ∀ id entry, e.registry.get id = some entry →
        (command.perform e).2.registry.get id = some entry :=
      fun _ _ => Command.perform_keeps h.settled hfirst.slotFree
    unfold TraceFormat.performAll
    revert habsorbed₁ h₁ hok herror hkeeps₁ hrest
    cases command.perform e with
    | mk result e₁ =>
      intro hrest habsorbed₁ h₁ hok herror hkeeps₁
      cases result with
      | ok response =>
        obtain ⟨hknown₁, hevents₁⟩ := hok response rfl
        obtain ⟨s₂, events₂, habsorbed₂, h₂, hkeeps₂, hknown₂, hevents₂⟩ := ih h₁ hrest hknown₁
        exact ⟨s₂, events₁ ++ events₂, habsorbed₁.trans habsorbed₂, h₂,
          fun id entry hget => hkeeps₂ id entry (hkeeps₁ id entry hget), hknown₂,
          List.rel_append hevents₁ hevents₂⟩
      | error fault =>
        obtain rfl := herror fault rfl
        have hknown₁ := hknown.absorbed habsorbed₁
        cases fault with
        | panic =>
          exact ⟨s₁, [], habsorbed₁, h₁, hkeeps₁, by simpa [internedBy] using hknown₁,
            by simp [writtenBy]⟩
        | error encodeError =>
          obtain ⟨s₂, events₂, habsorbed₂, h₂, hkeeps₂, hknown₂, hevents₂⟩ := ih h₁ hrest hknown₁
          exact ⟨s₂, events₂, habsorbed₁.trans habsorbed₂, h₂,
            fun id entry hget => hkeeps₂ id entry (hkeeps₁ id entry hget), hknown₂, hevents₂⟩

/-! ## The law of appending -/

/-- Decoding `base` followed by `out` yields the frames of `base`, each with the
state it left before, and then exactly the written events; every id of the base
and of the run resolves to its text, and all bytes are consumed. -/
def AppendsTo (base : Bytes) (log : StateLog FieldValue (List UInt64)) (s : DecoderState)
    (out : Bytes) (transcript : List (Command program × Except Fault Response)) : Prop :=
  ∃ d run last more, Decoder.new (base ++ out) = some d ∧
    d.decodeAll = (run, some (.exhausted, last)) ∧ last.rest = [] ∧
    last.pos = (base ++ out).length ∧ stateLog run = log ++ more ∧
    List.Forall₂ Written.IsDecodedAs (writtenBy s.interned transcript) (eventsOf more) ∧
    s.Extends last.state ∧ (internedBy s.interned transcript).ResolvedBy last.state

variable {d last : Decoder} {log : Machine.Log Decoder (DecodedFrame FieldValue (List UInt64))}

theorem Decoder.IntoEncoder.begins (h : d.IntoEncoder e) : e.out = [] ∧
    (∀ id, e.registry.get id = d.state.registry.get id) ∧ ∀ id, e.registeredIds id = false := by
  obtain ⟨strings, frames, named, -, -, -, hsome⟩ := h
  unfold Encoder.fromDecoder at hsome
  obtain ⟨nextPoolId, -, hsome⟩ := Option.bind_eq_some_iff.mp hsome
  obtain ⟨nextStackPoolId, -, hsome⟩ := Option.bind_eq_some_iff.mp hsome
  obtain ⟨nextId, -, hsome⟩ := Option.bind_eq_some_iff.mp hsome
  obtain rfl := Option.some.inj hsome
  exact ⟨rfl, fun _ => rfl, fun _ => rfl⟩

theorem Decoder.IntoEncoder.inStep (h : d.IntoEncoder e) (hcoherent : d.state.Coherent) :
    InStep program d.state.Untimed e d.state := by
  obtain ⟨-, hregistry, hunwritten⟩ := h.begins
  refine ⟨h.synced hcoherent, h.settled, fun t _ hwritten => ?_, fun t _ hnone => .inl ?_⟩
  · rw [hunwritten] at hwritten
    cases hwritten
  · exact (hregistry _).symm.trans hnone

theorem decodeAll_append {base bytes : Bytes}
    {more : StateLog FieldValue (List UInt64)} (hnew : Decoder.new base = some d)
    (hsteps : Machine.Steps Decoder.nextTurn d log last) (hend : last.rest = [])
    (hfeeds : Feeds owned last.state bytes more s) :
    ∃ d' run, Decoder.new (base ++ bytes) = some d' ∧
      d'.decodeAll = (run, some (.exhausted, ⟨[], (base ++ bytes).length, s⟩)) ∧
      stateLog run = stateLog log ++ more := by
  have hresume := resumable_nextTurnWith owned_local
  obtain ⟨⟨v, body⟩, hheader, rfl⟩ := Option.map_eq_some_iff.mp hnew
  have hpos : last.pos = base.length := by
    have hcount := hresume.steps_pos hsteps
    rw [Decoder.left, hend] at hcount
    rw [Decoder.decodeHeader_eq_some hheader]
    simp only [List.length_nil, Nat.add_zero, Decoder.left, headerSize] at hcount
    simp only [List.length_append, List.length_cons, magic, List.length_nil]
    omega
  have hfirst := hresume.steps_within hsteps 0 bytes
  obtain ⟨run, hrun, hmore⟩ := hfeeds [] last.pos
  have hmiddle : last.within 0 bytes = ⟨bytes ++ [], last.pos, last.state⟩ := by
    simp [Decoder.within, hend]
  rw [hmiddle] at hfirst
  have hdecode := Decoder.decodeAllWith_of_steps owned_local (hfirst.trans hrun)
    (Decoder.nextTurnWith_nil _ _)
  refine ⟨Decoder.within 0 bytes ⟨body, headerSize, .new⟩,
    (log.map fun entry => (entry.1, entry.2.within 0 bytes)) ++ run, ?_, ?_, ?_⟩
  · have happend := isLocal_decodeHeader.append hheader bytes
    simp [Decoder.new, happend, Decoder.within]
  · rw [Decoder.decodeAll, hdecode, hpos, List.length_append]
  · simp only [stateLog, List.map_append, List.map_map] at hmore ⊢
    rw [hmore]
    rfl

theorem Decoder.steps_to_end {base : Bytes}
    (hnew : Decoder.new base = some d) (hbase : d.decodeAll = (log, some (.exhausted, last))) :
    Machine.Steps Decoder.nextTurn d log last ∧ last.state.Coherent := by
  obtain ⟨t, reason, stop, hsteps, hhalt, hstop⟩ :=
    Decoder.steps_of_decodeAllWith owned_local d
  rw [← Decoder.decodeAll, hbase] at hsteps hstop
  obtain ⟨rfl, rfl⟩ := Prod.mk.inj (Option.some.inj hstop)
  obtain rfl := (resumable_nextTurnWith owned_local).finishes _ _ hhalt
  have hfresh : d.state.Coherent := by
    obtain ⟨pair, -, rfl⟩ := Option.map_eq_some_iff.mp hnew
    exact DecoderState.coherent_new
  exact ⟨hsteps, Decoder.steps_invariant DecoderState.coherent_new
    (fun _ _ => DecoderState.coherent_accept) hfresh hsteps⟩

/-- Appending to a trace that decodes to its end, with commands that each meet a
state that allows them: the events of the base and then exactly the new ones. -/
theorem append_law {base : Bytes} {d last : Decoder}
    {log : Machine.Log Decoder (DecodedFrame FieldValue (List UInt64))} {e : Encoder}
    {commands : List (Command program)} (hnew : Decoder.new base = some d)
    (hbase : d.decodeAll = (log, some (.exhausted, last))) (hend : last.rest = [])
    (hinto : last.IntoEncoder e) (happend : AppendableAll last.state.Untimed e commands) :
    AppendsTo base (stateLog log) last.state (performAll e commands).2.out
      (commands.zip (performAll e commands).1) := by
  obtain ⟨hsteps, hcoherent⟩ := Decoder.steps_to_end hnew hbase
  obtain ⟨s, events, habsorbed, hin, hkeeps, hknown, hevents⟩ :=
    (hinto.inStep hcoherent).performAll happend last.state.interned_resolvedBy
  obtain ⟨bytes, more, hout, hfeeds, hmore⟩ := habsorbed.fed
  obtain ⟨hnil, hregistry, -⟩ := hinto.begins
  rw [hnil, List.nil_append] at hout
  have hextends : last.state.Extends s :=
    ⟨fun id entry hget => (hin.schemas id entry (hkeeps id entry ((hregistry id).trans hget))).1,
      habsorbed.strings, habsorbed.frames⟩
  obtain ⟨d', run, hnew', hdecode, hrun⟩ := decodeAll_append hnew hsteps hend hfeeds
  rw [hout]
  refine ⟨d', run, _, more, hnew', hdecode, rfl, rfl, hrun, ?_, hextends, hknown⟩
  rw [hmore]
  exact hevents

/-! ## A type in a slot -/

/-- A trace that holds one event of the type. -/
def slotTrace (annotations : List FieldAnnotation) : Bytes :=
  (performAll .new (slotWrites annotations)).2.out

/-- The decoder at the end of the trace. -/
def slotEnd (annotations : List FieldAnnotation) : Decoder :=
  (((Decoder.new (slotTrace annotations)).bind fun d => d.decodeAll.2).map Prod.snd).getD
    ⟨[], 0, .new⟩

/-- The encoder made of it. -/
def slotResumed (annotations : List FieldAnnotation) : Encoder :=
  (Encoder.fromDecoder (slotEnd annotations).state.registry
    (entriesOf (slotEnd annotations).state.stringPool)
    (entriesOf (slotEnd annotations).state.stackPool)
    (entriesOf (slotEnd annotations).state.registry.schemas)
    (slotEnd annotations).state.timestampBaseNs).getD .new

theorem append_law_slotTrace :
    ∃ d log, Decoder.new (slotTrace []) = some d ∧
      d.decodeAll = (log, some (.exhausted, slotEnd [])) ∧
      (slotEnd []).IntoEncoder (slotResumed []) ∧
      AppendsTo (slotTrace []) (stateLog log) (slotEnd []).state
        (performAll (slotResumed []) (slotWrites [])).2.out
        ((slotWrites []).zip (performAll (slotResumed []) (slotWrites [])).1) := by
  have hinto : (slotEnd []).IntoEncoder (slotResumed []) :=
    ⟨_, _, _, .refl _, .refl _, .refl _, rfl⟩
  have hget : (slotResumed []).registry.get 5 = some (slotEntry []) := rfl
  refine ⟨_, _, rfl, rfl, hinto, append_law rfl rfl rfl hinto ⟨?_, trivial⟩⟩
  refine ⟨⟨by decide, by decide, by decide, by decide⟩, by simp [slotEvent], ?_, ?_⟩
  · exact fun _ => .inr (.inr ⟨hget, rfl⟩)
  · intro hslow
    exact absurd ⟨by decide, by decide⟩ hslow

/-- Whether a stream decodes to an end without an error. -/
def endsWell (stream : Bytes) : Bool :=
  ((Decoder.new stream).bind fun d => d.decodeAll.2).any fun stop => decide (stop.1 = .exhausted)

theorem AppendsTo.endsWell {base out : Bytes} {log : StateLog FieldValue (List UInt64)}
    {transcript : List (Command program × Except Fault Response)}
    (h : AppendsTo base log s out transcript) : endsWell (base ++ out) = true := by
  obtain ⟨d, run, last, more, hnew, hdecode, -⟩ := h
  simp [TraceFormat.endsWell, hnew, hdecode]

/-- With an annotation the decoder refuses the repeated schema frame, and the
second event is lost. -/
theorem annotated_slotTrace_not_appends :
    ∃ d log, Decoder.new (slotTrace [slotNote]) = some d ∧
      d.decodeAll = (log, some (.exhausted, slotEnd [slotNote])) ∧
      (slotEnd [slotNote]).rest = [] ∧
      (slotEnd [slotNote]).IntoEncoder (slotResumed [slotNote]) ∧
      (performAll (slotResumed [slotNote]) (slotWrites [slotNote])).1 = [.ok .written] ∧
      ¬ AppendsTo (slotTrace [slotNote]) (stateLog log) (slotEnd [slotNote]).state
        (performAll (slotResumed [slotNote]) (slotWrites [slotNote])).2.out
        ((slotWrites [slotNote]).zip
          (performAll (slotResumed [slotNote]) (slotWrites [slotNote])).1) := by
  refine ⟨_, _, rfl, rfl, rfl, ⟨_, _, _, .refl _, .refl _, .refl _, rfl⟩, rfl, ?_⟩
  intro happends
  have hend : endsWell (slotTrace [slotNote] ++
      (performAll (slotResumed [slotNote]) (slotWrites [slotNote])).2.out) = false := by
    decide
  rw [happends.endsWell] at hend
  cases hend

end Dial9.TraceFormat
