/-
# The wire ids of a session

A session binds wire ids to schemas in two ways: by the schema frames it
writes, also those of a registration that fails, and by the ids it answers or
writes events under. While the counter has room and no slot is claimed that a
resumed trace holds otherwise, an id is bound to one schema.

The counter is 16 bits and is advanced without a check, so handing out the last
id overflows it.
-/

import Dial9.Lib.Run
import Dial9.TraceFormat.Registration

namespace Dial9.TraceFormat

open Dial9.Lib

variable {program : Program}

/-! ## Commands and their requests -/

namespace Encoder

/-- Everything but the bytes, the time base and the pools is as before. -/
structure SameIds (e e' : Encoder) : Prop where
  registry : e'.registry = e.registry
  schemaIds : e'.schemaIds = e.schemaIds
  dynamicSchemaCache : e'.dynamicSchemaCache = e.dynamicSchemaCache
  slotCache : e'.slotCache = e.slotCache
  registeredIds : e'.registeredIds = e.registeredIds

theorem SameIds.refl (e : Encoder) : SameIds e e := ⟨rfl, rfl, rfl, rfl, rfl⟩

theorem SameIds.writeEventFrame (e : Encoder) (typeId : WireTypeId) (ts : UInt64)
    (fields : Bytes) : SameIds e (e.writeEventFrame typeId ts fields) := by
  unfold Encoder.writeEventFrame encodeTimestampDelta
  by_cases hreset : ts < e.timestampBaseNs ∨ maxTimestampDeltaNs < (ts - e.timestampBaseNs).toNat
  · simp only [if_pos hreset]
    exact ⟨rfl, rfl, rfl, rfl, rfl⟩
  · simp only [if_neg hreset]
    exact ⟨rfl, rfl, rfl, rfl, rfl⟩

theorem SameIds.internString (e : Encoder) (text : Text) : SameIds e (e.internString text).2 := by
  unfold Encoder.internString
  cases e.stringPool.lookup text with
  | some id => exact .refl e
  | none =>
    dsimp only
    split <;> exact ⟨rfl, rfl, rfl, rfl, rfl⟩

theorem SameIds.internStackFrames (e : Encoder) (frames : List UInt64) :
    SameIds e (e.internStackFrames frames).2 := by
  unfold Encoder.internStackFrames
  cases e.stackPool.lookup frames with
  | some id => exact .refl e
  | none =>
    dsimp only
    split <;> exact ⟨rfl, rfl, rfl, rfl, rfl⟩

end Encoder

variable {e e' : Encoder}

theorem Settled.sameIds (h : Settled program e) (hsame : e.SameIds e') : Settled program e' where
  low := by rw [hsame.registry]; exact h.low
  below := by rw [hsame.registry]; exact h.below
  named := by rw [hsame.registry, hsame.schemaIds]; exact h.named
  handles := by
    rw [hsame.registry, hsame.schemaIds, hsame.dynamicSchemaCache]
    exact h.handles
  typeIds := by rw [hsame.registry, hsame.schemaIds]; exact h.typeIds
  written := by rw [hsame.registry, hsame.registeredIds]; exact h.written
  slots := by rw [hsame.registry, hsame.slotCache]; exact h.slots
  slotZero := by rw [hsame.slotCache]; exact h.slotZero

variable {id : WireTypeId} {command : Command program} {request : Request}

namespace Command

/-- What became of a command, given what became of its request. -/
structure Concludes (resolved : Encoder.Result WireTypeId) (performed : Encoder.Result Response) :
    Prop where
  sameIds : resolved.2.SameIds performed.2
  error : ∀ fault, resolved.1 = .error fault →
    performed.1 = .error fault ∧ performed.2 = resolved.2
  ok : ∀ id, resolved.1 = .ok id → performed.1 ≠ .error .panic

theorem concludes_error (fault : Fault) (e : Encoder) :
    Concludes (.error fault, e) (.error fault, e) where
  sameIds := .refl e
  error fault' hfault := by
    obtain rfl := Except.error.inj hfault
    exact ⟨rfl, rfl⟩
  ok id hid := by cases hid

theorem concludes_ok {e e' : Encoder} {result : Except Fault Response} (hsame : e.SameIds e')
    (hresult : result ≠ .error .panic) :
    Concludes (.ok id, e) (result, e') where
  sameIds := hsame
  error fault hfault := by cases hfault
  ok _ _ := hresult

/-- A command resolves its request and then writes no schema frame. A request
that fails is all the command did. -/
theorem perform_request {e : Encoder} (h : command.request = some request) :
    Concludes (request.resolve program e) (command.perform e) := by
  cases command with
  | op action =>
    cases action with
    | registerSchema identity name fields =>
      obtain rfl := Option.some.inj h
      simp only [perform, Op.perform, Encoder.respond, Encoder.registerSchema, Request.resolve]
      cases e.ensureRegistered ⟨identity, ⟨name, fields, []⟩⟩ with
      | mk result e₁ =>
        cases result with
        | ok id => exact concludes_ok (.refl e₁) fun hpanic => by cases hpanic
        | error fault => exact concludes_error fault e₁
    | registerExisting schema =>
      obtain rfl := Option.some.inj h
      simp only [perform, Op.perform, Encoder.respond, Encoder.registerExisting, Request.resolve]
      cases e.ensureRegistered schema with
      | mk result e₁ =>
        cases result with
        | ok id => exact concludes_ok (.refl e₁) fun hpanic => by cases hpanic
        | error fault => exact concludes_error fault e₁
    | writeEvent schema ts values =>
      obtain rfl := Option.some.inj h
      simp only [perform, Op.perform, Encoder.respond, Encoder.writeEvent, Request.resolve]
      cases e.ensureRegistered schema with
      | mk result e₁ =>
        cases result with
        | ok id =>
          dsimp only
          split
          · exact concludes_ok (.refl e₁) fun hpanic => by cases hpanic
          · exact concludes_ok (.writeEventFrame e₁ _ _ _) fun hpanic => by cases hpanic
        | error fault => exact concludes_error fault e₁
    | internString _ | internStackFrames _ => cases h
  | write identity event =>
    obtain rfl := Option.some.inj h
    simp only [perform, Encoder.respond, Encoder.writeTyped, Request.resolve, TraceEvent.type]
    cases e.wireIdOf identity event.typeId (program.types event.typeId) with
    | mk result e₁ =>
      cases result with
      | ok id => exact concludes_ok (.writeEventFrame e₁ _ _ _) fun hpanic => by cases hpanic
      | error fault => exact concludes_error fault e₁
  | writeStringPool _ | writeStackPool _ => cases h

theorem perform_no_request {e : Encoder} (h : command.request = none) :
    e.SameIds (command.perform e).2 := by
  cases command with
  | op action =>
    cases action with
    | registerSchema _ _ _ | registerExisting _ | writeEvent _ _ _ => cases h
    | internString text => exact .internString e text
    | internStackFrames frames => exact .internStackFrames e frames
  | write identity event => cases h
  | writeStringPool _ | writeStackPool _ => exact ⟨rfl, rfl, rfl, rfl, rfl⟩

end Command

/-! ## Bindings -/

/-- A wire id with a definition it stands for. -/
abbrev Binding := WireTypeId × SchemaEntry

/-- No id stands for two definitions. -/
def Unambiguous (bound : List Binding) : Prop :=
  ∀ id first second, (id, first) ∈ bound → (id, second) ∈ bound → first = second

/-- The bindings of a request: the id of the schema frame it writes and the id
it is answered, each for the request's definition. -/
def Request.bound (program : Program) (e : Encoder) (request : Request) : List Binding :=
  ((request.frame program e).toList ++ (request.resolve program e).1.toOption.toList).map
    fun id => (id, request.entry program)

def Command.bound (e : Encoder) (command : Command program) : List Binding :=
  command.request.elim [] (Request.bound program e)

/-- What an encoder keeps of the bindings so far: each stands in its registry,
or was abandoned, and then its id is past, or is the slot of its own type. -/
structure Accounted (program : Program) (bound : List Binding) (e : Encoder) : Prop where
  unambiguous : Unambiguous bound
  below : ∀ id entry, (id, entry) ∈ bound → id < e.registry.nextId
  placed : ∀ id entry, (id, entry) ∈ bound → e.registry.get id = some entry ∨
    e.registry.get id = none ∧ (id < staticWireIdLimit → ∃ t, (program.types t).Fast ∧
      (program.types t).typeSlot = id ∧ (program.types t).schemaEntry = entry)
  known : ∀ id entry, e.registry.get id = some entry → (id, entry) ∈ bound

variable {known : SchemaEntry}

namespace Accounted

variable {e e' : Encoder} {bound : List Binding} {entry : SchemaEntry}
  {frame : Option WireTypeId} {result : Except Fault WireTypeId}

section

variable (h : Accounted program bound e) (hbinds : Binds program e entry frame result e')
include h hbinds

theorem eq_of_framed (hframe : frame = some id) (hknown : (id, known) ∈ bound) : known = entry := by
  obtain ⟨-, hnew | ⟨t, hfast, hslot, hentry, hfree⟩⟩ := hbinds.framed id hframe
  · exact absurd (h.below id known hknown) (UInt16.not_lt.mpr hnew)
  · obtain hget | ⟨hnone, htype⟩ := h.placed id known hknown
    · obtain hnone | hself := hfree
      · rw [hnone] at hget
        cases hget
      · exact Option.some.inj (hget.symm.trans hself)
    · obtain ⟨u, -, hslot', hentry'⟩ := htype (hslot ▸ hfast.2)
      obtain rfl := program.slots_distinct t u (hslot.trans hslot'.symm) hfast.1
      exact hentry'.symm.trans hentry

theorem eq_of_used (hresult : result = .ok id) (hknown : (id, known) ∈ bound) : known = entry := by
  have hused := hbinds.used id hresult
  obtain hget | ⟨hnone, -⟩ := h.placed id known hknown
  · exact Option.some.inj ((hbinds.keeps id known hget).symm.trans hused)
  · obtain hget | ⟨hframe, -⟩ := hbinds.adds id entry hused
    · rw [hnone] at hget
      cases hget
    · exact h.eq_of_framed hbinds hframe hknown

end

theorem mem_map_iff :
    (id, known) ∈ (frame.toList ++ result.toOption.toList).map (fun id => (id, entry)) ↔
      (frame = some id ∨ result = .ok id) ∧ known = entry := by
  rw [List.mem_map]
  constructor
  · rintro ⟨other, hother, heq⟩
    obtain ⟨rfl, rfl⟩ := Prod.mk.inj heq
    refine ⟨?_, rfl⟩
    obtain hframe | hresult := List.mem_append.mp hother
    · exact .inl (Option.mem_toList.mp hframe)
    · right
      cases result with
      | ok answered =>
        obtain rfl : other = answered := by simpa [Except.toOption] using hresult
        rfl
      | error fault => simp [Except.toOption] at hresult
  · rintro ⟨hid, rfl⟩
    refine ⟨id, ?_, rfl⟩
    obtain rfl | rfl := hid
    · simp
    · simp [Except.toOption]

/-- One request: nothing bound before is bound anew to another entry. -/
theorem bind (h : Accounted program bound e) (hsettled : Settled program e)
    (hbinds : Binds program e entry frame result e') :
    Accounted program
      (bound ++ (frame.toList ++ result.toOption.toList).map fun id => (id, entry)) e' := by
  have hnew : ∀ id known, (frame = some id ∨ result = .ok id) → (id, known) ∈ bound →
      known = entry := by
    intro id known hid hknown
    obtain hframe | hresult := hid
    · exact h.eq_of_framed hbinds hframe hknown
    · exact h.eq_of_used hbinds hresult hknown
  refine ⟨?_, ?_, ?_, ?_⟩
  · intro id first second hfirst hsecond
    rw [List.mem_append, mem_map_iff] at hfirst hsecond
    obtain hfirst | ⟨hid, rfl⟩ := hfirst
    · obtain hsecond | ⟨hid, rfl⟩ := hsecond
      · exact h.unambiguous id first second hfirst hsecond
      · exact hnew id first hid hfirst
    · obtain hsecond | ⟨-, rfl⟩ := hsecond
      · exact (hnew id second hid hsecond).symm
      · rfl
  · intro id known hknown
    rw [List.mem_append, mem_map_iff] at hknown
    obtain hold | ⟨hframe | hresult, -⟩ := hknown
    · exact UInt16.lt_of_lt_of_le (h.below id known hold) hbinds.nextId
    · exact (hbinds.framed id hframe).1
    · exact hbinds.settled.below id entry (hbinds.used id hresult)
  · intro id known hknown
    rw [List.mem_append, mem_map_iff] at hknown
    obtain hold | ⟨hframe | hresult, rfl⟩ := hknown
    · obtain hget | ⟨hnone, htype⟩ := h.placed id known hold
      · exact .inl (hbinds.keeps id known hget)
      · cases hget : e'.registry.get id with
        | none => exact .inr ⟨rfl, htype⟩
        | some added =>
          obtain hbefore | ⟨hframe, rfl⟩ := hbinds.adds id added hget
          · rw [hnone] at hbefore
            cases hbefore
          · rw [h.eq_of_framed hbinds hframe hold]
            exact .inl rfl
    · obtain ⟨-, hnext⟩ := hbinds.framed id hframe
      cases hget : e'.registry.get id with
      | none =>
        refine .inr ⟨rfl, fun hstatic => ?_⟩
        obtain hnext | ⟨t, hfast, hslot, hentry, -⟩ := hnext
        · have hlow := UInt16.le_trans hsettled.low hnext
          exact absurd hstatic (UInt16.not_lt.mpr hlow)
        · exact ⟨t, hfast, hslot, hentry⟩
      | some added =>
        obtain hbefore | ⟨-, rfl⟩ := hbinds.adds id added hget
        · rw [h.eq_of_framed hbinds hframe (h.known id added hbefore)]
          exact .inl rfl
        · exact .inl rfl
    · exact .inl (hbinds.used id hresult)
  · intro id known hget
    rw [List.mem_append, mem_map_iff]
    obtain hbefore | ⟨hframe, rfl⟩ := hbinds.adds id known hget
    · exact .inl (h.known id known hbefore)
    · exact .inr ⟨.inl hframe, rfl⟩

theorem sameIds (h : Accounted program bound e) (hsame : e.SameIds e') :
    Accounted program bound e' where
  unambiguous := h.unambiguous
  below := by rw [hsame.registry]; exact h.below
  placed := by rw [hsame.registry]; exact h.placed
  known := by rw [hsame.registry]; exact h.known

end Accounted

/-! ## What is asked of a command -/

namespace Command

/-- A command that needs a new dynamic id finds one that does not overflow the counter. -/
def HasRoom (e : Encoder) (command : Command program) : Prop :=
  ∀ request, command.request = some request → request.Allocates program e →
    e.registry.nextId ≠ 65535

instance (e : Encoder) (command : Command program) : Decidable (command.HasRoom e) :=
  inferInstanceAs (Decidable (∀ request ∈ command.request, request.Allocates program e →
    e.registry.nextId ≠ 65535))

/-- A command that claims a slot finds it free or held by its own definition. -/
def SlotFree (e : Encoder) (command : Command program) : Prop :=
  ∀ request, command.request = some request → request.SlotFree program e

instance (e : Encoder) (command : Command program) : Decidable (command.SlotFree e) :=
  inferInstanceAs (Decidable (∀ request ∈ command.request, request.SlotFree program e))

/-- A command that needs an id where there is none left is refused, and writes nothing. -/
def FailsWhenFull (e : Encoder) (command : Command program) : Prop :=
  ∀ request, command.request = some request → request.Allocates program e →
    e.registry.nextId = 65535 → ∃ error, (command.perform e).1 = .error (.error error) ∧
      (command.perform e).2.out = e.out

end Command

theorem not_room_iff {next : WireTypeId} : ¬ next.toNat + 1 < 2 ^ 16 ↔ next = 65535 := by
  have hlt := next.toNat_lt
  have hlast : (65535 : UInt16).toNat = 65535 := rfl
  constructor
  · intro hfull
    apply UInt16.toNat_inj.mp
    omega
  · rintro rfl
    omega

variable {e : Encoder}

/-- Without an id left the counter overflows. -/
theorem Settled.resolve_full (h : Settled program e)
    (hallocates : request.Allocates program e) (hfull : e.registry.nextId = 65535) :
    (request.resolve program e).1 = .error .panic := by
  have hslow : ∀ schema, e.Unnamed schema → (e.ensureRegistered schema).1 = .error .panic := by
    intro schema hunnamed
    have hpath := h.slowPath schema
    unfold Encoder.ensureRegistered
    rw [hunnamed.1]
    revert hpath
    cases e.ensureRegisteredSlow schema with
    | mk result e₁ =>
      intro hpath
      cases hpath with
      | known hname hget => rw [hunnamed.2] at hname; cases hname
      | conflict hname hget hne => rw [hunnamed.2] at hname; cases hname
      | full hfree hnone => rfl
      | refused hfree hroom | fresh hfree hroom =>
        exact absurd hfull (mt not_room_iff.mpr (not_not.mpr hroom))
  cases request with
  | handle schema => exact hslow schema hallocates
  | typed identity t =>
    obtain ⟨hslow', hunset, hrust, hunnamed⟩ := hallocates
    have hslot : ¬ ((program.types t).typeSlot ≠ 0 ∧
        (program.types t).typeSlot < staticWireIdLimit) := hslow'
    have hpanic := hslow _ hunnamed
    unfold Request.resolve Encoder.wireIdOf Encoder.resolveDynamicWireId
    simp only [if_neg hslot, hunset, ne_eq, not_true_eq_false, if_false, hrust]
    revert hpanic
    cases e.ensureRegistered ⟨identity, (program.types t).schemaEntry⟩ with
    | mk result e₁ =>
      rintro rfl
      rfl

theorem Request.resolve_of_claims (h : request.Claims program e) :
    (request.resolve program e).1 ≠ .error .panic := by
  cases request with
  | handle schema => exact h.elim
  | typed identity t =>
    obtain ⟨hfast, hunwritten⟩ := h
    have hslot : (program.types t).typeSlot ≠ 0 ∧
        (program.types t).typeSlot < staticWireIdLimit := hfast
    unfold Request.resolve Encoder.wireIdOf Encoder.registerFastId
    obtain ⟨result, hwrite, hresult⟩ :=
      e.writeSchema_eq (program.types t).typeSlot (program.types t).schemaEntry
    simp only [if_pos hslot, hunwritten, Bool.false_eq_true, if_false, hwrite]
    obtain rfl | ⟨message, rfl⟩ := hresult
    · dsimp only [Encoder.write]
      cases e.registry.register (program.types t).typeSlot (program.types t).schemaEntry with
      | ok _ | error _ => simp
    · simp

theorem Request.frame_of_claims (h : request.Claims program e) :
    request.frame program e = some (request.slot program) := by
  cases request with
  | handle schema => exact h.elim
  | typed identity t =>
    have hnot : ¬ (Request.typed identity t).Allocates program e := fun hallocates =>
      hallocates.1 h.1
    unfold Request.frame
    rw [if_neg hnot, if_pos h]

theorem Command.resolve_of_panic (h : command.request = some request)
    (hpanic : (command.perform e).1 = .error .panic) :
    (request.resolve program e).1 = .error .panic := by
  have hconcludes := perform_request (e := e) h
  cases hresolve : (request.resolve program e).1 with
  | ok id => exact absurd hpanic (hconcludes.ok id hresolve)
  | error fault =>
    have hfault := hpanic.symm.trans (hconcludes.error fault hresolve).1
    rw [← Except.error.inj hfault]

theorem Settled.perform (h : Settled program e) (hfree : command.SlotFree e) :
    Settled program (command.perform e).2 := by
  cases hrequest : command.request with
  | none => exact h.sameIds (Command.perform_no_request hrequest)
  | some request =>
    have hbinds := h.binds request (hfree request hrequest)
    exact hbinds.settled.sameIds (Command.perform_request hrequest).sameIds

/-! ## Sessions -/

/-- An encoder with every binding of its session so far. -/
structure Session where
  encoder : Encoder
  bound : List Binding

variable {s : Session}

namespace Session

/-- A session starts with what its encoder already holds. -/
def start (e : Encoder) : Session := ⟨e, entriesOf e.registry.schemas⟩

/-- Perform a command; a panic ends the session. -/
def step (s : Session) (command : Command program) : Option Session :=
  match command.perform s.encoder with
  | (.error .panic, _) => none
  | (.error (.error _), e) => some ⟨e, s.bound ++ command.bound s.encoder⟩
  | (.ok _, e) => some ⟨e, s.bound ++ command.bound s.encoder⟩

theorem step_eq_some {s next : Session} (h : s.step command = some next) :
    next = ⟨(command.perform s.encoder).2, s.bound ++ command.bound s.encoder⟩ := by
  unfold step at h
  split at h
  · cases h
  · next hperform =>
      rw [hperform]
      exact (Option.some.inj h).symm
  · next hperform =>
      rw [hperform]
      exact (Option.some.inj h).symm

theorem exists_step (h : (command.perform s.encoder).1 ≠ .error .panic) :
    ∃ next, s.step command = some next := by
  unfold step
  split
  · next hperform =>
      rw [hperform] at h
      exact absurd rfl h
  · exact ⟨_, rfl⟩
  · exact ⟨_, rfl⟩

/-- No wire id stands for two definitions, and where the identity cache answers
a handle, the name-keyed path gives it the same id and writes nothing. -/
structure Sound (s : Session) : Prop where
  unambiguous : Unambiguous s.bound
  cached : ∀ schema id, s.encoder.dynamicSchemaCache.lookup schema = some id →
    s.encoder.ensureRegisteredSlow schema = (.ok id, s.encoder)

/-- The invariant of a session. -/
structure Good (program : Program) (s : Session) : Prop where
  settled : Settled program s.encoder
  accounted : Accounted program s.bound s.encoder

theorem Good.sound (h : s.Good program) : s.Sound :=
  ⟨h.accounted.unambiguous, fun _ _ hcached => h.settled.slow_of_cached hcached⟩

theorem Good.step {s next : Session} (h : s.Good program) (hfree : command.SlotFree s.encoder)
    (hstep : s.step command = some next) :
    next.Good program := by
  obtain rfl := step_eq_some hstep
  refine ⟨h.settled.perform hfree, ?_⟩
  unfold Command.bound
  cases hrequest : command.request with
  | none =>
    rw [Option.elim_none, List.append_nil]
    exact h.accounted.sameIds (Command.perform_no_request hrequest)
  | some request =>
    have hbinds := h.settled.binds request (hfree request hrequest)
    have hsame := (Command.perform_request (e := s.encoder) hrequest).sameIds
    exact (h.accounted.bind h.settled hbinds).sameIds hsame

theorem Good.slotFree (h : s.Good program)
    (hnext : ∀ next, s.step command = some next → next.Sound) : command.SlotFree s.encoder := by
  intro request hrequest hclaims
  cases hget : s.encoder.registry.get (request.slot program) with
  | none => exact .inl rfl
  | some held =>
    right
    have hpanic := mt (Command.resolve_of_panic (e := s.encoder) hrequest)
      (Request.resolve_of_claims hclaims)
    obtain ⟨next, hstep⟩ := exists_step hpanic
    have hsound := (hnext next hstep).unambiguous
    obtain rfl := step_eq_some hstep
    have hheld : (request.slot program, held) ∈ s.bound ++ command.bound s.encoder :=
      List.mem_append_left _ (h.accounted.known _ _ hget)
    have hclaimed : (request.slot program, request.entry program) ∈
        s.bound ++ command.bound s.encoder := by
      apply List.mem_append_right
      unfold Command.bound
      rw [hrequest]
      exact Accounted.mem_map_iff.mpr ⟨.inl (Request.frame_of_claims hclaims), rfl⟩
    rw [hsound _ _ _ hheld hclaimed]

/-- A refusal cannot come out of a counter that overflows. -/
theorem Good.hasRoom (h : s.Good program) (hfails : command.FailsWhenFull s.encoder) :
    command.HasRoom s.encoder := by
  intro request hrequest hallocates hfull
  obtain ⟨error, herror, -⟩ := hfails request hrequest hallocates hfull
  have hpanic := h.settled.resolve_full hallocates hfull
  rw [((Command.perform_request hrequest).error _ hpanic).1] at herror
  cases herror

end Session

/-! ## Encoders a session starts from -/

/-- A new encoder, one that was reset, or one made from a decoder. -/
inductive Encoder.Started : Encoder → Prop
  | new : Started .new
  | reset (e : Encoder) : Started e.resetTo.2
  | resumed {d : Decoder} {e : Encoder} (hresumed : d.IntoEncoder e) : Started e

theorem settled_new : Settled program .new where
  low := UInt16.le_refl _
  below id entry h := by cases h
  named name id h := by cases h
  handles schema id h := by cases h
  typeIds t id h := by cases h
  written t hfast h := by cases h
  slots t hslot h := absurd rfl h
  slotZero := rfl

theorem Encoder.Alike.settled (h : e.Alike e') (hsettled : Settled program e) :
    Settled program e' := by
  obtain ⟨heq, hslots⟩ := h
  rw [heq]
  refine ⟨hsettled.low, hsettled.below, hsettled.named, hsettled.handles, hsettled.typeIds,
    hsettled.written, ?_, ?_⟩
  · intro t hslot hcached
    dsimp only [withSlots] at hcached ⊢
    rw [hslots] at hcached ⊢
    exact hsettled.slots t hslot hcached
  · dsimp only [withSlots]
    rw [hslots]
    exact hsettled.slotZero

theorem Decoder.IntoEncoder.settled {d : Decoder} (h : d.IntoEncoder e) : Settled program e := by
  obtain ⟨strings, frames, named, -, -, hnamed, hsome⟩ := h
  unfold Encoder.fromDecoder at hsome
  obtain ⟨nextPoolId, -, hsome⟩ := Option.bind_eq_some_iff.mp hsome
  obtain ⟨nextStackPoolId, -, hsome⟩ := Option.bind_eq_some_iff.mp hsome
  obtain ⟨nextId, hid, hsome⟩ := Option.bind_eq_some_iff.mp hsome
  obtain rfl := Option.some.inj hsome
  obtain ⟨hlow, hlt, hall⟩ := pastIds_spec (by decide) hid
  have hnext : (UInt16.ofNat nextId).toNat = nextId := UInt16.toNat_ofNat_of_lt' hlt
  have hentries : ∀ {id : WireTypeId} {entry : SchemaEntry},
      d.state.registry.get id = some entry ↔ (id, entry) ∈ named := by
    intro id entry
    rw [hnamed.mem_iff, mem_entriesOf]
    rfl
  have hkeys : ∀ {key : SchemaKey} {id : WireTypeId},
      (invertInto (named.map fun pair => (pair.1, SchemaKey.name pair.2.name))).lookup key =
        some id → ∃ entry, d.state.registry.get id = some entry ∧ key = .name entry.name := by
    intro key id hlookup
    obtain ⟨⟨known, entry⟩, hentry, heq⟩ := List.mem_map.mp (mem_of_lookup_invertInto hlookup)
    obtain ⟨rfl, rfl⟩ := Prod.mk.inj heq
    exact ⟨entry, hentries.mpr hentry, rfl⟩
  refine ⟨?_, ?_, ?_, ?_, ?_, ?_, fun t _ hcached => absurd rfl hcached, rfl⟩
  · rw [UInt16.le_iff_toNat_le, hnext]
    exact hlow
  · intro id entry hget
    rw [UInt16.lt_iff_toNat_lt, hnext]
    exact hall _ (List.mem_map_of_mem (hentries.mp hget))
  · intro name id hlookup
    obtain ⟨entry, hget, -⟩ := hkeys hlookup
    exact ⟨entry, hget⟩
  · intro schema id hcached
    cases hcached
  · intro t id hlookup
    obtain ⟨entry, -, hkey⟩ := hkeys hlookup
    cases hkey
  · intro t hfast hwritten
    cases hwritten

theorem Encoder.Started.settled (h : e.Started) : Settled program e := by
  cases h with
  | new => exact settled_new
  | reset e => exact e.alike_resetTo.settled settled_new
  | resumed hresumed => exact hresumed.settled

theorem Session.good_start (h : Settled program e) : (start e).Good program where
  settled := h
  accounted :=
    { unambiguous := fun _ _ _ hfirst hsecond =>
        Option.some.inj ((mem_entriesOf.mp hfirst).symm.trans (mem_entriesOf.mp hsecond))
      below := fun id entry hentry => h.below id entry (mem_entriesOf.mp hentry)
      placed := fun _ _ hentry => .inl (mem_entriesOf.mp hentry)
      known := fun _ _ hget => mem_entriesOf.mpr hget }

/-! ## Slots of a session that starts empty -/

/-- The ids below the dynamic ones are registered for the types they are the slots of. -/
def SlotsOwned (program : Program) (e : Encoder) : Prop :=
  ∀ id entry, e.registry.get id = some entry → id < staticWireIdLimit →
    ∃ t, (program.types t).Fast ∧ (program.types t).typeSlot = id ∧
      (program.types t).schemaEntry = entry

theorem SlotsOwned.binds {entry : SchemaEntry} {frame : Option WireTypeId}
    {result : Except Fault WireTypeId} (h : SlotsOwned program e) (hsettled : Settled program e)
    (hbinds : Binds program e entry frame result e') : SlotsOwned program e' := by
  intro id known hget hstatic
  obtain hbefore | ⟨hframe, rfl⟩ := hbinds.adds id known hget
  · exact h id known hbefore hstatic
  · obtain ⟨-, hnew | ⟨t, hfast, hslot, hentry, -⟩⟩ := hbinds.framed id hframe
    · have hlow := UInt16.le_trans hsettled.low hnew
      exact absurd hstatic (UInt16.not_lt.mpr hlow)
    · exact ⟨t, hfast, hslot, hentry⟩

theorem SlotsOwned.slotFree (h : SlotsOwned program e)
    (command : Command program) : command.SlotFree e := by
  intro request _ hclaims
  cases request with
  | handle schema => exact hclaims.elim
  | typed identity t =>
    cases hget : e.registry.get (program.types t).typeSlot with
    | none => exact .inl hget
    | some held =>
      obtain ⟨u, -, hslot, hentry⟩ := h _ held hget hclaims.1.2
      obtain rfl := program.slots_distinct t u hslot.symm hclaims.1.1
      exact .inr (hget.trans (congrArg some hentry.symm))

theorem SlotsOwned.step {s next : Session} (h : SlotsOwned program s.encoder)
    (hgood : s.Good program) (hstep : s.step command = some next) :
    SlotsOwned program next.encoder := by
  obtain rfl := Session.step_eq_some hstep
  unfold SlotsOwned
  dsimp only
  cases hrequest : command.request with
  | none =>
    rw [(Command.perform_no_request (e := s.encoder) hrequest).registry]
    exact h
  | some request =>
    rw [(Command.perform_request (e := s.encoder) hrequest).sameIds.registry]
    exact h.binds hgood.settled
      (hgood.settled.binds request (h.slotFree command request hrequest))

/-! ## Unique wire ids -/

/-- In every session the following are the same. Its wire ids are unambiguous
and its identity cache agrees with its names in every state reached, and a
command that needs an id when none is left is refused and writes nothing. No
command needs the last id there is, and none claims a slot that is held for
another definition, which can only be in a resumed trace. -/
theorem session_wireIds {e : Encoder} (hstart : e.Started) (commands : List (Command program)) :
    (Throughout Session.step Session.Sound (.start e) commands ∧
        Along Session.step (fun s command => command.FailsWhenFull s.encoder) (.start e) commands ↔
      Along Session.step (fun s command => command.HasRoom s.encoder ∧
        command.SlotFree s.encoder) (.start e) commands) ∧
    ((∀ id, e.registry.get id = none) →
      Along Session.step (fun s command => command.SlotFree s.encoder) (.start e) commands) := by
  have hgood : (Session.start e).Good program := Session.good_start hstart.settled
  refine ⟨?_, ?_⟩
  · apply throughout_and_along_iff (Session.Good program) (fun _ => Session.Good.sound) ?_ ?_ ?_
      hgood
    · exact fun _ _ _ hgood hP => hgood.step hP.2
    · exact fun _ _ _ hP request hrequest hallocates hfull =>
        absurd hfull (hP.1 request hrequest hallocates)
    · exact fun _ _ hgood hfails hnext => ⟨hgood.hasRoom hfails, hgood.slotFree hnext⟩
  · intro hempty
    have howned : SlotsOwned program e := fun id entry hget => by
      rw [hempty id] at hget
      cases hget
    refine along_of_invariant (fun s => s.Good program ∧ SlotsOwned program s.encoder) ?_ ?_
      ⟨hgood, howned⟩ commands
    · intro s command next hs hstep
      exact ⟨hs.1.step (hs.2.slotFree command) hstep, hs.2.step hs.1 hstep⟩
    · intro s command hs
      exact hs.2.slotFree command

/-- A handle, one with annotations, and a typed write on a fast slot. -/
def threeRegistrations : List (Command (slotProgram (slotEntry []))) :=
  [.op (.registerSchema 1 narrowEntry.name narrowEntry.fields),
    .op (.registerExisting ⟨2, ⟨⟨[0x71], by decide⟩, [], [slotNote]⟩⟩), .write 3 (slotEvent [])]

theorem session_wireIds_three :
    (Throughout Session.step Session.Sound (.start .new) threeRegistrations ∧
      Along Session.step (fun s command => command.FailsWhenFull s.encoder) (.start .new)
        threeRegistrations) ∧
    Along Session.step (fun s command => command.SlotFree s.encoder) (.start .new)
      threeRegistrations :=
  ⟨(session_wireIds .new threeRegistrations).1.mpr (by decide),
    (session_wireIds .new threeRegistrations).2 fun _ => rfl⟩

/-! ## A session that uses up the ids -/

/-- A name of that many letters. -/
def letters (n : Nat) : Text where
  bytes := List.replicate n 0x61
  valid := by
    induction n with
    | zero => rfl
    | succ n ih => exact ih

theorem letters_injective : Function.Injective letters := by
  intro n m h
  have hlength := congrArg (List.length ∘ Text.bytes) h
  simpa [letters] using hlength

/-- The schema without fields of that many letters. -/
def lettered (n : Nat) : SchemaEntry := ⟨letters n, [], []⟩

def registration (n : Nat) : Command plainProgram := .op (.registerSchema n (letters n) [])

theorem Settled.ensureRegistered_fresh (h : Settled program e) {schema : Schema}
    (hunnamed : e.Unnamed schema) (hroom : e.registry.nextId.toNat + 1 < 2 ^ 16) :
    (e.ensureRegistered schema).1 ≠ .error .panic ∧
      (e.ensureRegistered schema).2.registry.nextId.toNat = e.registry.nextId.toNat + 1 ∧
      ∀ other : Schema, other.entry.name ≠ schema.entry.name → e.Unnamed other →
        (e.ensureRegistered schema).2.Unnamed other := by
  have hpath := h.slowPath schema
  unfold Encoder.ensureRegistered
  rw [hunnamed.1]
  revert hpath
  cases e.ensureRegisteredSlow schema with
  | mk result e₁ =>
    intro hpath
    cases hpath with
    | known hname hget => rw [hunnamed.2] at hname; cases hname
    | conflict hname hget hne => rw [hunnamed.2] at hname; cases hname
    | full hfree hfull => exact absurd hroom hfull
    | refused hfree hroom =>
      exact ⟨by simp, toNat_succ_typeId hroom, fun other _ hother => hother⟩
    | fresh hfree hroom =>
      refine ⟨by simp, toNat_succ_typeId hroom, ?_⟩
      intro other hname hother
      have hne : other ≠ schema := fun heq => hname (by rw [heq])
      refine ⟨?_, ?_⟩
      · dsimp only [Encoder.cacheSchema]
        rw [AList.lookup_insert_ne hne]
        split
        · rfl
        · exact hother.1
      · have hkey : (SchemaKey.name other.entry.name) ≠ .name schema.entry.name := by
          simpa using hname
        exact (AList.lookup_insert_ne hkey).trans hother.2

theorem run_registrations {k : Nat} (hk : 256 + k < 2 ^ 16) :
    ∃ s, run Session.step (.start .new) ((List.range k).map registration) = some s ∧
      s.Good plainProgram ∧ s.encoder.registry.nextId.toNat = 256 + k ∧
      ∀ n, k ≤ n → s.encoder.Unnamed ⟨n, lettered n⟩ := by
  induction k with
  | zero => exact ⟨_, rfl, Session.good_start settled_new, rfl, fun n _ => ⟨rfl, rfl⟩⟩
  | succ k ih =>
    obtain ⟨s, hrun, hgood, hnext, hunnamed⟩ := ih (by omega)
    have hroom : s.encoder.registry.nextId.toNat + 1 < 2 ^ 16 := by omega
    obtain ⟨hresult, hsucc, hothers⟩ :=
      hgood.settled.ensureRegistered_fresh (hunnamed k (Nat.le_refl k)) hroom
    have hrequest : (registration k).request = some (.handle ⟨k, lettered k⟩) := rfl
    have hpanic : ((registration k).perform s.encoder).1 ≠ .error .panic := fun hpanic =>
      hresult (Command.resolve_of_panic hrequest hpanic)
    obtain ⟨next, hstep⟩ := Session.exists_step hpanic
    have hfree : (registration k).SlotFree s.encoder := by
      intro request hsome hclaims
      obtain rfl := Option.some.inj (hrequest.symm.trans hsome)
      exact hclaims.elim
    have hsame := (Command.perform_request (e := s.encoder) hrequest).sameIds
    refine ⟨next, ?_, hgood.step hfree hstep, ?_, ?_⟩
    · rw [List.range_succ, List.map_append, run_append hrun]
      exact Option.bind_eq_some_iff.mpr ⟨next, hstep, rfl⟩
    · obtain rfl := Session.step_eq_some hstep
      dsimp only
      rw [hsame.registry]
      exact hsucc.trans (by omega)
    · intro n hn
      obtain rfl := Session.step_eq_some hstep
      have hname : letters n ≠ letters k := fun heq => by
        have := letters_injective heq
        omega
      have hother := hothers ⟨n, lettered n⟩ hname (hunnamed n (by omega))
      refine ⟨?_, ?_⟩
      · dsimp only
        rw [hsame.dynamicSchemaCache]
        exact hother.1
      · dsimp only
        rw [hsame.schemaIds]
        exact hother.2

/-- After 65279 schemas the next one is not refused: its allocation overflows. -/
theorem registrations_overflow :
    ∃ s, run Session.step (.start .new) ((List.range 65279).map registration) = some s ∧
      ((registration 65279).perform s.encoder).1 = .error .panic ∧
      ¬ (registration 65279).FailsWhenFull s.encoder := by
  obtain ⟨s, hrun, hgood, hnext, hunnamed⟩ := run_registrations (k := 65279) (by decide)
  have hfull : s.encoder.registry.nextId = 65535 := UInt16.toNat_inj.mp hnext
  have hrequest : (registration 65279).request = some (.handle ⟨65279, lettered 65279⟩) := rfl
  have hallocates : (Request.handle ⟨65279, lettered 65279⟩).Allocates plainProgram s.encoder :=
    hunnamed 65279 (Nat.le_refl _)
  have hpanic := hgood.settled.resolve_full hallocates hfull
  refine ⟨s, hrun, ((Command.perform_request hrequest).error _ hpanic).1, ?_⟩
  intro hfails
  exact hgood.hasRoom hfails _ hrequest hallocates hfull

end Dial9.TraceFormat
