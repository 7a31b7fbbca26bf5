/-
# The law of concatenation

What a session of well shaped commands writes is decoded to its last byte by each
of the three loops: the encoder stays in step with the decoder, and the pools,
which a caller may fill at will, do not decide how a frame is read. So such
outputs one after the other decode as each does alone.
-/

import Dial9.TraceFormat.InStep

namespace Dial9.TraceFormat

open Dial9.Lib Dial9.Lib.Reader

variable {program : Program} {e : Encoder} {s s' : DecoderState} {command : Command program}
  {commands : List (Command program)} {bytes : Bytes}

/-- Values have the shapes of their field types and keep to the decoder's limits,
and every length fits its prefix. -/
def Command.WellShaped : Command program → Prop
  | .op action => action.Admissible ∧ action.LengthsFit
  | .write _ event => event.type.schemaEntry.Fits ∧ ∀ field ∈ event.fields, field.Fits
  | .writeStringPool entries =>
    entries.length < 2 ^ 32 ∧ ∀ entry ∈ entries, entry.data.length < 2 ^ 32
  | .writeStackPool entries =>
    entries.length < 2 ^ 32 ∧ ∀ entry ∈ entries, entry.frames.length < 2 ^ 32

/-! ## Slots of an encoder that started empty -/

/-- A slot that is registered is marked as written. -/
def Marked (program : Program) (e : Encoder) : Prop :=
  ∀ t, (program.types t).Fast → e.registeredIds (program.types t).typeSlot = true ∨
    e.registry.get (program.types t).typeSlot = none

theorem Marked.appendable (h : Marked program e) {identity : Nat} {event : TraceEvent program}
    (hshape : (Command.write identity event).WellShaped) :
    (Command.write identity event).Appendable (fun _ => False) e :=
  ⟨hshape.1, hshape.2, fun hfast => (h event.typeId hfast).imp_right .inl, fun _ => id⟩

theorem Marked.of_same {e' : Encoder} (h : Marked program e) (hregistry : e'.registry = e.registry)
    (hmarks : e'.registeredIds = e.registeredIds) : Marked program e' := by
  rw [Marked, hregistry, hmarks]
  exact h

theorem Marked.claim {t : Nat} (h : Marked program e)
    (hnone : e.registry.get (program.types t).typeSlot = none) :
    Marked program (e.registerFastId (program.types t)).2 := by
  unfold Encoder.registerFastId
  obtain ⟨result, hwrite, hresult⟩ :=
    e.writeSchema_eq (program.types t).typeSlot (program.types t).schemaEntry
  rw [hwrite]
  obtain rfl | ⟨message, rfl⟩ := hresult
  · dsimp only [Encoder.write]
    rw [SchemaRegistry.register_of_get_none _ hnone]
    intro u hu
    by_cases hslot : (program.types u).typeSlot = (program.types t).typeSlot
    · exact .inl (by rw [hslot]; exact Function.update_self ..)
    · refine (h u hu).imp (fun hmark => ?_) fun hget => ?_
      · exact (Function.update_of_ne hslot _ _).trans hmark
      · exact (SchemaRegistry.get_set_ne _ _ hslot).trans hget
  · exact h.of_same rfl rfl

section

variable (h : Marked program e) (hin : InStep program (fun _ => False) e s)
include h hin

theorem Marked.handle {schema : Schema} (hfits : schema.entry.Fits) :
    Marked program (e.ensureRegistered schema).2 := by
  cases hcall : e.ensureRegistered schema with
  | mk result e₁ =>
    obtain ⟨s', hfollows, -, -⟩ := ensureRegistered_follows hin.toSynced hfits hcall
    intro t hfast
    rw [hfollows.undisturbed.registeredIds, hfollows.undisturbed.entries _ (hin.fast_lt hfast)]
    exact h t hfast

theorem Marked.typed {identity t : Nat} (hfits : (program.types t).schemaEntry.Fits) :
    Marked program (e.wireIdOf identity t (program.types t)).2 := by
  unfold Encoder.wireIdOf
  dsimp only
  split
  case isTrue hfast =>
      cases hmark : e.registeredIds (program.types t).typeSlot with
      | true => exact h
      | false =>
        have hclaim := h.claim ((h t hfast).resolve_left (by simp [hmark]))
        simp only [Bool.false_eq_true, if_false]
        revert hclaim
        cases e.registerFastId (program.types t) with
        | mk result e₁ => cases result <;> exact id
  case isFalse =>
      split
      · exact h
      · unfold Encoder.resolveDynamicWireId
        cases e.schemaIds.lookup (.rustType t) with
        | some existing =>
          dsimp only
          rw [Encoder.cacheSlot_eq]
          exact h.of_same rfl rfl
        | none =>
          have hhandle : Marked program
              (e.ensureRegistered ⟨identity, (program.types t).schemaEntry⟩).2 := h.handle hin hfits
          revert hhandle
          cases e.ensureRegistered ⟨identity, (program.types t).schemaEntry⟩ with
          | mk result e₁ =>
            intro hhandle
            cases result with
            | error fault => exact hhandle
            | ok id =>
              dsimp only
              rw [Encoder.cacheSlot_eq]
              exact hhandle.of_same rfl rfl

theorem Marked.perform (hshape : command.WellShaped) : Marked program (command.perform e).2 := by
  cases hrequest : command.request with
  | none =>
    have hsame := command.perform_no_request (e := e) hrequest
    exact h.of_same hsame.registry hsame.registeredIds
  | some request =>
    have hsame := (command.perform_request (e := e) hrequest).sameIds
    refine Marked.of_same ?_ hsame.registry hsame.registeredIds
    cases command with
    | op action =>
      obtain ⟨hadm, hlen⟩ := hshape
      cases action with
      | registerSchema _ _ _ | registerExisting _ =>
        obtain rfl := Option.some.inj hrequest
        exact h.handle hin (hadm.fits hlen)
      | writeEvent _ _ _ =>
        obtain rfl := Option.some.inj hrequest
        exact h.handle hin (hadm.1.fits hlen.1)
      | internString _ | internStackFrames _ => cases hrequest
    | write identity event =>
      obtain rfl := Option.some.inj hrequest
      exact h.typed hin hshape.1
    | writeStringPool _ | writeStackPool _ => cases hrequest

end

/-! ## Sessions that are read to their last byte -/

theorem Command.WellShaped.readable (hshape : command.WellShaped) (h : Marked program e)
    (hin : InStep program (fun _ => False) e s) :
    ∃ bytes s', (command.perform e).2.out = e.out ++ bytes ∧ Readable s bytes s' ∧
      InStep program (fun _ => False) (command.perform e).2 s' := by
  have hknown : Interned.empty.ResolvedBy s := ⟨by simp [Interned.empty], by simp [Interned.empty]⟩
  cases command with
  | op action =>
    have happend : (.op action : Command program).Appendable (fun _ => False) e :=
      ⟨hshape.1, hshape.2, action.timed_of_never⟩
    obtain ⟨s', events, habsorbed, hnext, -⟩ := hin.perform happend hknown
    obtain ⟨bytes, hout, hread⟩ := habsorbed.readable
    exact ⟨bytes, s', hout, hread, hnext⟩
  | write identity event =>
    obtain ⟨s', events, habsorbed, hnext, -⟩ := hin.perform (h.appendable hshape) hknown
    obtain ⟨bytes, hout, hread⟩ := habsorbed.readable
    exact ⟨bytes, s', hout, hread, hnext⟩
  | writeStringPool entries =>
    exact ⟨_, s, rfl, readable_stringPool hshape.1 hshape.2,
      { hin.toSynced with }, hin.settled.write _ _, hin.written, hin.unwritten⟩
  | writeStackPool entries =>
    exact ⟨_, s, rfl, readable_stackPool hshape.1 hshape.2,
      { hin.toSynced with }, hin.settled.write _ _, hin.written, hin.unwritten⟩

theorem readable_performAll (hshape : ∀ command ∈ commands, command.WellShaped)
    (h : Marked program e) (hin : InStep program (fun _ => False) e s) :
    ∃ bytes s', (performAll e commands).2.out = e.out ++ bytes ∧ Readable s bytes s' := by
  induction commands generalizing e s with
  | nil => exact ⟨[], s, (List.append_nil _).symm, .refl s⟩
  | cons command commands ih =>
    obtain ⟨hfirst, hrest⟩ := List.forall_mem_cons.mp hshape
    obtain ⟨bytes, s₁, hout, hread, hnext⟩ := hfirst.readable h hin
    have hmarked := h.perform hin hfirst
    unfold performAll
    revert hout hnext hmarked
    cases command.perform e with
    | mk result e₁ =>
      intro hout hnext hmarked
      obtain ⟨bytes', s₂, hout', hread'⟩ := ih hrest hmarked hnext
      have hboth : (performAll e₁ commands).2.out = e.out ++ (bytes ++ bytes') := by
        rw [hout', hout, List.append_assoc]
      cases result with
      | ok response => exact ⟨_, s₂, hboth, hread.trans hread'⟩
      | error fault =>
        cases fault with
        | panic => exact ⟨bytes, s₁, hout, hread⟩
        | error encodeError => exact ⟨_, s₂, hboth, hread.trans hread'⟩

theorem completes_of_decode {α ε : Type}
    {loop : Decoder → Machine.Log Decoder α × Option (ε × Decoder)} {finished : ε}
    {run : Machine.Log Decoder α} {last : Decoder}
    (hdecode : loop ⟨bytes, headerSize, .new⟩ = (run, some (finished, last)))
    (hend : last.rest = []) : ∃ log, Completes loop finished (encodeHeader ++ bytes) log := by
  refine ⟨run.map fun entry => (entry.1, entry.2.state), last, ?_, hend⟩
  rw [decodeStream, decoder_new_header, Option.map_some, hdecode]

/-- Each of the three loops decodes the stream to its last byte. -/
def DecodesWhole (stream : Bytes) : Prop :=
  (∃ log, Completes Decoder.decodeAll .exhausted stream log) ∧
    (∃ log, Completes Decoder.decodeAllRef .exhausted stream log) ∧
    ∃ log, Completes Decoder.tryForEachEvent .done stream log

theorem Readable.decodesWhole (h : Readable .new bytes s') :
    DecodesWhole (encodeHeader ++ bytes) := by
  obtain ⟨_, _, howned⟩ := h.owned .new
  obtain ⟨_, _, href⟩ := h.ref .new
  obtain ⟨_, hall, -⟩ := howned.decodeAllWith owned_local headerSize
  obtain ⟨_, hallRef, -⟩ := href.decodeAllWith zeroCopy_local headerSize
  obtain ⟨run, hrun, -⟩ := href [] headerSize
  rw [List.append_nil] at hrun
  obtain ⟨log, hsteps, -, -⟩ := Decoder.steps_match hrun Decoder.cacheSynced_new
  have heach := hsteps.collect_eq Decoder.eventTurn_decreases rfl (Nat.lt_succ_self _)
  exact ⟨completes_of_decode hall rfl, completes_of_decode hallRef rfl,
    completes_of_decode heach rfl⟩

/-- A session of well shaped commands, failures included. -/
theorem decodesWhole_of_wellShaped (hshape : ∀ command ∈ commands, command.WellShaped) :
    DecodesWhole (performAll .new commands).2.out := by
  have hin : InStep program (fun _ => False) .new .new := by
    refine ⟨synced_new _, settled_new, ?_, fun _ _ _ => .inl rfl⟩
    intro t hfast hwritten
    cases hwritten
  obtain ⟨bytes, s', hout, hread⟩ := readable_performAll hshape (fun _ _ => .inr rfl) hin
  rw [hout]
  exact hread.decodesWhole

/-! ## The law -/

/-- Streams that decode to their last byte concatenate, in each of the three
decode loops and with every decoder state as in the stream alone, and the output
of every well shaped session is such a stream in all three. An encoder that was
reset answers and writes as a fresh one, so the batches of one encoder are those
of an encoder each. -/
theorem concatenation :
    Concatenates Decoder.decodeAll Stop.shift .exhausted ∧
    Concatenates Decoder.decodeAllRef Stop.shift .exhausted ∧
    Concatenates Decoder.tryForEachEvent LoopEnd.shift .done ∧
    (∀ (program : Program) (commands : List (Command program)),
      (∀ command ∈ commands, command.WellShaped) → DecodesWhole (performAll .new commands).2.out) ∧
    (∀ (program : Program) (e : Encoder) (commands : List (Command program)),
      (performAll e.resetTo.2 commands).1 = (performAll .new commands).1 ∧
        (performAll e.resetTo.2 commands).2.out = (performAll .new commands).2.out) ∧
    ∀ (program : Program) (sessions : List (List (Command program))),
      batches .new sessions = sessions.map fun commands => (performAll .new commands).2.out :=
  ⟨(resumable_nextTurnWith owned_local).concatenates,
    (resumable_nextTurnWith zeroCopy_local).concatenates,
    resumable_eventTurn.concatenates,
    fun _ _ => decodesWhole_of_wellShaped,
    fun _ e commands => performAll_resetTo e commands,
    fun _ sessions => batches_eq ⟨rfl, fun _ => rfl⟩ sessions⟩

/-- An annotated schema and a typed write on its slot, twice over: two events are delivered. -/
theorem concatenation_slotWrites :
    ∃ log last, decodeStream Decoder.tryForEachEvent
        ((performAll .new (slotWrites [slotNote])).2.out ++
          (performAll .new (slotWrites [slotNote])).2.out) = some (log ++ log, some (.done, last)) ∧
      log.length = 1 := by
  obtain ⟨-, -, heach, hwhole, -⟩ := concatenation
  have hshape : ∀ command ∈ slotWrites [slotNote], command.WellShaped := by
    intro command hcommand
    obtain rfl := List.mem_singleton.mp hcommand
    exact ⟨⟨by decide, by decide, by decide, by decide⟩, by simp [slotEvent]⟩
  obtain ⟨-, -, log, hlog⟩ := hwhole _ _ hshape
  obtain ⟨last, hdecode, -⟩ := id hlog
  have hboth := heach [_] [log] _ log .done last (.cons hlog .nil) hdecode
  rw [List.flatten_singleton, List.flatten_singleton] at hboth
  refine ⟨log, _, hboth, ?_⟩
  have hcount : (decodeStream Decoder.tryForEachEvent
      (performAll .new (slotWrites [slotNote])).2.out).map (fun stream => stream.1.length) =
        some 1 :=
    rfl
  rw [hdecode] at hcount
  exact Option.some.inj hcount

/-! ## A value that its field type does not encode -/

/-- A `Varint` in a `U32` field is written as one byte where four are read. -/
def misshapen : List (Command plainProgram) :=
  [.op (.writeEvent ⟨0, narrowEntry⟩ 1 [.varint 5])]

/-- The frames of a stream, with the decoder state after each. -/
def framesOf (stream : Bytes) : List (DecodedFrame FieldValue (List UInt64) × DecoderState) :=
  ((decodeStream Decoder.decodeAll stream).map Prod.fst).getD []

/-- Alone the event of such a session is cut short; a header behind it completes it. -/
theorem misshapen_not_concatenates :
    (performAll .new misshapen).1 = [.ok .written] ∧
    framesOf ((performAll .new misshapen).2.out ++ Encoder.new.out) ≠
      framesOf (performAll .new misshapen).2.out ++ framesOf Encoder.new.out := by
  refine ⟨rfl, ?_⟩
  intro heq
  have hlength := congrArg List.length heq
  have hboth : (framesOf ((performAll .new misshapen).2.out ++ Encoder.new.out)).length = 2 := rfl
  have halone :
      (framesOf (performAll .new misshapen).2.out ++ framesOf Encoder.new.out).length = 1 :=
    rfl
  rw [hboth, halone] at hlength
  cases hlength

end Dial9.TraceFormat
