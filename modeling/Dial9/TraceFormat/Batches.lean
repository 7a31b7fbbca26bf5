/-
# Batches of one encoder

A thread-local buffer is one encoder that is reset between batches. The reset
clears every cache but keeps the length of the slot cache, which nothing reads:
a slot past the end and a slot that holds zero are both unset. So whatever is
done after a reset answers, and writes, as it would on a fresh encoder.
-/

import Dial9.TraceFormat.Concat
import Dial9.TraceFormat.Session

namespace Dial9.TraceFormat

open Dial9.Lib Dial9.Lib.Reader

/-- Everything a caller can ask of an encoder: the operations of a session,
typed writes, and raw pool frames. -/
inductive Command (program : Program)
  | op (action : Op)
  | write (identity : Nat) (event : TraceEvent program)
  | writeStringPool (entries : List PoolEntry)
  | writeStackPool (entries : List (StackPoolEntry (List UInt64)))

variable {program : Program}

def Command.perform (e : Encoder) : Command program → Encoder.Result Response
  | .op action => action.perform e
  | .write identity event => Encoder.respond (fun _ => .written) (e.writeTyped identity event)
  | .writeStringPool entries => (.ok .written, e.write (encodeStringPool entries))
  | .writeStackPool entries => (.ok .written, e.write (encodeStackPool entries))

/-- Perform commands one after the other. An error leaves the encoder usable; a
panic ends the run. -/
def performAll : Encoder → List (Command program) → List (Except Fault Response) × Encoder
  | e, [] => ([], e)
  | e, command :: commands =>
    match command.perform e with
    | (.error .panic, e) => ([.error .panic], e)
    | (result, e) => (result :: (performAll e commands).1, (performAll e commands).2)

/-- Several batches through one encoder, taking the bytes at each reset. -/
def batches : Encoder → List (List (Command program)) → List Bytes
  | _, [] => []
  | e, commands :: rest =>
    ((performAll e commands).2.resetTo).1 :: batches ((performAll e commands).2.resetTo).2 rest

/-! ## Encoders that differ in the length of the slot cache -/

variable {e e' : Encoder}

namespace Encoder

/-- Replace the slot cache. -/
def withSlots (e : Encoder) (slots : List UInt32) : Encoder := { e with slotCache := slots }

/-- Two encoders with the same unset slots, and the same in all else. -/
def Alike (e e' : Encoder) : Prop :=
  e' = e.withSlots e'.slotCache ∧
    ∀ slot : Nat, e'.slotCache.getD slot 0 = e.slotCache.getD slot 0

theorem alike_resetTo (e : Encoder) : Alike .new e.resetTo.2 := by
  refine ⟨rfl, ?_⟩
  intro slot
  have hslots : e.resetTo.2.slotCache = List.replicate e.slotCache.length 0 :=
    List.map_const
  simp only [hslots, new, List.getD_nil]
  by_cases hslot : slot < e.slotCache.length
  · simp [List.getD_eq_getElem?_getD, hslot]
  · simp [List.getD_eq_getElem?_getD, hslot]

/-- Results that agree, leaving encoders alike. -/
def AlikeResults {α : Type} (r r' : Result α) : Prop := r'.1 = r.1 ∧ r.2.Alike r'.2

/-- An operation that neither reads nor writes the slot cache. -/
def IgnoresSlots {α : Type} (f : Encoder → Result α) : Prop :=
  ∀ e slots, (f e).2.slotCache = e.slotCache ∧
    f (e.withSlots slots) = ((f e).1, (f e).2.withSlots slots)

theorem IgnoresSlots.alike {α : Type} {f : Encoder → Result α} (h : IgnoresSlots f)
    (halike : e.Alike e') : AlikeResults (f e) (f e') := by
  obtain ⟨heq, hslots⟩ := halike
  obtain ⟨hkeep, hf⟩ := h e e'.slotCache
  rw [heq, hf]
  refine ⟨rfl, rfl, ?_⟩
  intro slot
  rw [hkeep]
  exact hslots slot

theorem ignoresSlots_writeSchema (typeId : WireTypeId) (entry : SchemaEntry) :
    IgnoresSlots (·.writeSchema typeId entry) := by
  intro e slots
  unfold writeSchema
  by_cases hnone : entry.annotations = []
  · simp only [if_pos hnone]
    exact ⟨rfl, rfl⟩
  · simp only [if_neg hnone]
    cases encodeSchemaAnnotations typeId entry.annotations with
    | ok _ | error _ => exact ⟨rfl, rfl⟩

theorem ignoresSlots_ensureRegisteredSlow (schema : Schema) :
    IgnoresSlots (·.ensureRegisteredSlow schema) := by
  intro e slots
  unfold ensureRegisteredSlow
  simp only [withSlots]
  cases e.schemaIds.lookup (.name schema.entry.name) with
  | some wireId =>
    dsimp only
    cases e.registry.get wireId with
    | none => exact ⟨rfl, rfl⟩
    | some existing =>
      dsimp only
      split
      · exact ⟨rfl, rfl⟩
      · exact ⟨rfl, rfl⟩
  | none =>
    dsimp only
    cases e.registry.nextTypeId with
    | none => exact ⟨rfl, rfl⟩
    | some pair =>
      obtain ⟨id, registry⟩ := pair
      dsimp only
      obtain ⟨hkeep, hwrite⟩ :=
        ignoresSlots_writeSchema id schema.entry { e with registry := registry } slots
      dsimp only [withSlots] at hkeep hwrite
      rw [hwrite]
      revert hkeep
      cases writeSchema { e with registry := registry } id schema.entry with
      | mk written e₁ =>
        intro hkeep
        cases written with
        | error fault => exact ⟨hkeep, rfl⟩
        | ok done =>
          dsimp only
          cases e₁.registry.register id schema.entry with
          | error _ | ok _ => exact ⟨hkeep, rfl⟩

theorem ignoresSlots_ensureRegistered (schema : Schema) :
    IgnoresSlots (·.ensureRegistered schema) := by
  intro e slots
  unfold ensureRegistered
  have hcache : (e.withSlots slots).dynamicSchemaCache = e.dynamicSchemaCache := rfl
  simp only [hcache]
  cases e.dynamicSchemaCache.lookup schema with
  | some wireId => exact ⟨rfl, rfl⟩
  | none =>
    dsimp only
    obtain ⟨hkeep, hslow⟩ := ignoresSlots_ensureRegisteredSlow schema e slots
    dsimp only at hkeep hslow
    rw [hslow]
    revert hkeep
    cases e.ensureRegisteredSlow schema with
    | mk result e₁ =>
      intro hkeep
      cases result with
      | error _ | ok _ => exact ⟨hkeep, rfl⟩

theorem IgnoresSlots.respond {α : Type} {f : Encoder → Result α} (h : IgnoresSlots f)
    (wrap : α → Response) : IgnoresSlots fun e => Encoder.respond wrap (f e) := by
  intro e slots
  obtain ⟨hkeep, hf⟩ := h e slots
  refine ⟨hkeep, ?_⟩
  simp only [Encoder.respond, hf]

theorem ignoresSlots_registerSchema (identity : Nat) (name : Text) (fields : List FieldDef) :
    IgnoresSlots (·.registerSchema identity name fields) := by
  intro e slots
  unfold registerSchema
  obtain ⟨hkeep, hensure⟩ := ignoresSlots_ensureRegistered ⟨identity, ⟨name, fields, []⟩⟩ e slots
  dsimp only at hkeep hensure ⊢
  rw [hensure]
  revert hkeep
  cases e.ensureRegistered ⟨identity, ⟨name, fields, []⟩⟩ with
  | mk result e₁ =>
    intro hkeep
    cases result with
    | error _ | ok _ => exact ⟨hkeep, rfl⟩

theorem writeEventFrame_withSlots (e : Encoder) (slots : List UInt32) (typeId : WireTypeId)
    (ts : UInt64) (fields : Bytes) :
    (e.writeEventFrame typeId ts fields).slotCache = e.slotCache ∧
      (e.withSlots slots).writeEventFrame typeId ts fields =
        (e.writeEventFrame typeId ts fields).withSlots slots := by
  unfold writeEventFrame encodeTimestampDelta
  by_cases hreset : ts < e.timestampBaseNs ∨ maxTimestampDeltaNs < (ts - e.timestampBaseNs).toNat
  · simp only [withSlots, hreset, if_true]
    exact ⟨rfl, rfl⟩
  · simp only [withSlots, hreset, if_false]
    exact ⟨rfl, rfl⟩

theorem ignoresSlots_writeEvent (schema : Schema) (ts : UInt64) (values : List FieldValue) :
    IgnoresSlots (·.writeEvent schema ts values) := by
  intro e slots
  unfold writeEvent
  obtain ⟨hkeep, hensure⟩ := ignoresSlots_ensureRegistered schema e slots
  dsimp only at hkeep hensure ⊢
  rw [hensure]
  revert hkeep
  cases e.ensureRegistered schema with
  | mk result e₁ =>
    intro hkeep
    cases result with
    | error fault => exact ⟨hkeep, rfl⟩
    | ok typeId =>
      dsimp only at hkeep ⊢
      by_cases hcount : values.length = schema.entry.fields.length
      · simp only [hcount, ne_eq, not_true_eq_false, if_false]
        obtain ⟨hframe, hsame⟩ :=
          e₁.writeEventFrame_withSlots slots typeId ts (encodeValues schema.entry values)
        exact ⟨hframe.trans hkeep, by rw [hsame]⟩
      · simp only [hcount, ne_eq, not_false_eq_true, if_true, and_true]
        exact hkeep

theorem ignoresSlots_internString (text : Text) : IgnoresSlots (·.internString text) := by
  intro e slots
  unfold internString
  simp only [withSlots]
  cases e.stringPool.lookup text with
  | some id => exact ⟨rfl, rfl⟩
  | none =>
    dsimp only
    by_cases hroom : e.nextPoolId.toNat + 1 < 2 ^ 32
    · simp only [hroom, if_true]
      exact ⟨rfl, rfl⟩
    · simp only [hroom, if_false, and_self]

theorem ignoresSlots_internStackFrames (frames : List UInt64) :
    IgnoresSlots (·.internStackFrames frames) := by
  intro e slots
  unfold internStackFrames
  simp only [withSlots]
  cases e.stackPool.lookup frames with
  | some id => exact ⟨rfl, rfl⟩
  | none =>
    dsimp only
    by_cases hroom : e.nextStackPoolId.toNat + 1 < 2 ^ 32
    · simp only [hroom, if_true]
      exact ⟨rfl, rfl⟩
    · simp only [hroom, if_false, and_self]

theorem ignoresSlots_perform (op : Op) : IgnoresSlots fun e => op.perform e := by
  cases op with
  | registerSchema identity name fields =>
    exact (ignoresSlots_registerSchema identity name fields).respond _
  | registerExisting schema => exact (ignoresSlots_ensureRegistered schema).respond _
  | writeEvent schema ts values => exact (ignoresSlots_writeEvent schema ts values).respond _
  | internString text => exact (ignoresSlots_internString text).respond _
  | internStackFrames frames => exact (ignoresSlots_internStackFrames frames).respond _

/-! ## Typed writes -/

theorem ignoresSlots_registerFastId (type : TraceType) : IgnoresSlots (·.registerFastId type) := by
  intro e slots
  unfold registerFastId
  obtain ⟨hkeep, hwrite⟩ := ignoresSlots_writeSchema type.typeSlot type.schemaEntry e slots
  dsimp only at hkeep hwrite ⊢
  rw [hwrite]
  revert hkeep
  cases e.writeSchema type.typeSlot type.schemaEntry with
  | mk result e₁ =>
    intro hkeep
    cases result with
    | error fault => exact ⟨hkeep, rfl⟩
    | ok done =>
      dsimp only [withSlots]
      cases e₁.registry.register type.typeSlot type.schemaEntry with
      | error _ | ok _ => exact ⟨hkeep, rfl⟩

theorem cacheSlot_getD (e : Encoder) (slot : UInt16) (wireId : WireTypeId) (i : Nat) :
    (e.cacheSlot slot wireId).slotCache.getD i 0 =
      if slot ≠ 0 ∧ i = slot.toNat then wireId.toUInt32 + 1 else e.slotCache.getD i 0 := by
  unfold cacheSlot
  by_cases hzero : slot = 0
  · simp [hzero]
  · simp only [hzero, if_false, ne_eq, not_false_eq_true, true_and]
    have hlen : slot.toNat <
        (e.slotCache ++ List.replicate (slot.toNat + 1 - e.slotCache.length) 0).length := by
      simp only [List.length_append, List.length_replicate]
      omega
    by_cases hi : i = slot.toNat
    · subst hi
      rw [if_pos rfl, List.getD_eq_getElem?_getD, List.getElem?_set_self hlen]
      rfl
    · rw [if_neg hi, List.getD_eq_getElem?_getD, List.getElem?_set_ne (Ne.symm hi),
        List.getD_eq_getElem?_getD]
      by_cases hold : i < e.slotCache.length
      · rw [List.getElem?_append_left hold]
      · rw [List.getElem?_append_right (by omega), List.getElem?_replicate]
        rw [show e.slotCache[i]? = none from List.getElem?_eq_none (by omega)]
        split
        · rfl
        · rfl

section

variable (h : e.Alike e')
include h

theorem Alike.cacheSlot (slot : UInt16) (wireId : WireTypeId) :
    (e.cacheSlot slot wireId).Alike (e'.cacheSlot slot wireId) := by
  refine ⟨?_, ?_⟩
  · obtain ⟨heq, -⟩ := h
    rw [heq]
    unfold Encoder.cacheSlot withSlots
    by_cases hzero : slot = 0
    · simp only [hzero, if_true]
    · simp only [hzero, if_false]
  · intro i
    rw [cacheSlot_getD, cacheSlot_getD, h.2 i]

theorem Alike.resolveDynamicWireId (identity typeId : Nat) (type : TraceType) :
    AlikeResults (e.resolveDynamicWireId identity typeId type)
      (e'.resolveDynamicWireId identity typeId type) := by
  have hids : e'.schemaIds = e.schemaIds := by
    rw [h.1]
    rfl
  unfold Encoder.resolveDynamicWireId
  rw [hids]
  cases e.schemaIds.lookup (.rustType typeId) with
  | some existing => exact ⟨rfl, h.cacheSlot _ _⟩
  | none =>
    have hensure := (ignoresSlots_ensureRegistered ⟨identity, type.schemaEntry⟩).alike h
    dsimp only at hensure ⊢
    revert hensure
    cases e.ensureRegistered ⟨identity, type.schemaEntry⟩ with
    | mk result e₁ =>
      cases e'.ensureRegistered ⟨identity, type.schemaEntry⟩ with
      | mk result' e₁' =>
        rintro ⟨hresult, halike⟩
        obtain rfl : result' = result := hresult
        cases result' with
        | error fault => exact ⟨rfl, halike⟩
        | ok id =>
          refine ⟨rfl, ?_⟩
          have hnamed : Alike
              { e₁ with schemaIds := e₁.schemaIds.insert (.rustType typeId) id }
              { e₁' with schemaIds := e₁'.schemaIds.insert (.rustType typeId) id } := by
            obtain ⟨heq, hslots⟩ := halike
            refine ⟨?_, hslots⟩
            dsimp only at heq
            rw [heq]
            rfl
          exact hnamed.cacheSlot _ _

theorem Alike.wireIdOf (identity typeId : Nat) (type : TraceType) :
    AlikeResults (e.wireIdOf identity typeId type) (e'.wireIdOf identity typeId type) := by
  have hids : e'.registeredIds = e.registeredIds := by
    rw [h.1]
    rfl
  unfold Encoder.wireIdOf
  dsimp only
  by_cases hfast : type.typeSlot ≠ 0 ∧ type.typeSlot < staticWireIdLimit
  · simp only [if_pos hfast, hids]
    cases e.registeredIds type.typeSlot with
    | true => exact ⟨rfl, h⟩
    | false =>
      have hregister := (ignoresSlots_registerFastId type).alike h
      simp only [Bool.false_eq_true, if_false]
      revert hregister
      cases e.registerFastId type with
      | mk result e₁ =>
        cases e'.registerFastId type with
        | mk result' e₁' =>
          rintro ⟨hresult, halike⟩
          obtain rfl : result' = result := hresult
          cases result' with
          | error _ | ok _ => exact ⟨rfl, halike⟩
  · simp only [if_neg hfast, h.2]
    by_cases hcached : e.slotCache.getD type.typeSlot.toNat 0 = 0
    · simp only [hcached, ne_eq, not_true_eq_false, if_false]
      exact h.resolveDynamicWireId identity typeId type
    · simp only [hcached, ne_eq, not_false_eq_true, if_true]
      exact ⟨rfl, h⟩

theorem Alike.writeEventFrame (typeId : WireTypeId) (ts : UInt64) (fields : Bytes) :
    (e.writeEventFrame typeId ts fields).Alike (e'.writeEventFrame typeId ts fields) := by
  obtain ⟨heq, hslots⟩ := h
  obtain ⟨hkeep, hsame⟩ := e.writeEventFrame_withSlots e'.slotCache typeId ts fields
  rw [heq, hsame]
  refine ⟨rfl, ?_⟩
  intro slot
  rw [hkeep]
  exact hslots slot

theorem Alike.writeTyped (identity : Nat) (event : TraceEvent program) :
    AlikeResults (e.writeTyped identity event) (e'.writeTyped identity event) := by
  unfold Encoder.writeTyped
  have hwire := h.wireIdOf identity event.typeId event.type
  revert hwire
  cases e.wireIdOf identity event.typeId event.type with
  | mk result e₁ =>
    cases e'.wireIdOf identity event.typeId event.type with
    | mk result' e₁' =>
      rintro ⟨hresult, halike⟩
      obtain rfl : result' = result := hresult
      cases result' with
      | error fault => exact ⟨rfl, halike⟩
      | ok typeId => exact ⟨rfl, halike.writeEventFrame _ _ _⟩

theorem Alike.write (bytes : Bytes) : (e.write bytes).Alike (e'.write bytes) := by
  obtain ⟨heq, hslots⟩ := h
  refine ⟨?_, hslots⟩
  rw [heq]
  rfl

theorem Alike.perform (command : Command program) :
    AlikeResults (command.perform e) (command.perform e') := by
  cases command with
  | op action => exact (ignoresSlots_perform action).alike h
  | write identity event =>
    obtain ⟨hresult, halike⟩ := h.writeTyped identity event
    exact ⟨congrArg (Except.map _) hresult, halike⟩
  | writeStringPool _ | writeStackPool _ => exact ⟨rfl, h.write _⟩

end

end Encoder

theorem performAll_alike (h : e.Alike e') (commands : List (Command program)) :
    (performAll e' commands).1 = (performAll e commands).1 ∧
      (performAll e commands).2.Alike (performAll e' commands).2 := by
  induction commands generalizing e e' with
  | nil => exact ⟨rfl, h⟩
  | cons command commands ih =>
    have hstep := h.perform command
    unfold performAll
    revert hstep
    cases command.perform e with
    | mk result e₁ =>
      cases command.perform e' with
      | mk result' e₁' =>
        rintro ⟨hresult, halike⟩
        obtain rfl : result' = result := hresult
        obtain ⟨hrest, hlast⟩ := ih halike
        cases result' with
        | ok response => exact ⟨congrArg (_ :: ·) hrest, hlast⟩
        | error fault =>
          cases fault with
          | panic => exact ⟨rfl, halike⟩
          | error e => exact ⟨congrArg (_ :: ·) hrest, hlast⟩

theorem performAll_resetTo (e : Encoder) (commands : List (Command program)) :
    (performAll e.resetTo.2 commands).1 = (performAll .new commands).1 ∧
      (performAll e.resetTo.2 commands).2.out = (performAll .new commands).2.out := by
  obtain ⟨hresults, halike⟩ := performAll_alike e.alike_resetTo commands
  refine ⟨hresults, ?_⟩
  rw [halike.1]
  rfl

/-- The batches of one encoder are those of an encoder each. -/
theorem batches_eq (h : Encoder.Alike .new e) (sessions : List (List (Command program))) :
    batches e sessions = sessions.map fun commands => (performAll .new commands).2.out := by
  induction sessions generalizing e with
  | nil => rfl
  | cons commands sessions ih =>
    obtain ⟨-, halike⟩ := performAll_alike h commands
    rw [batches, List.map_cons, ih (Encoder.alike_resetTo _)]
    congr 1
    rw [halike.1]
    rfl

/-! ## A program without slots -/

/-- The schema `u` with one field of type `U32`. -/
def narrowEntry : SchemaEntry where
  name := ⟨[0x75], by decide⟩
  fields := [⟨⟨[0x75], by decide⟩, .plain .u32⟩]
  annotations := []

/-- A program without slots. -/
def plainProgram : Program where
  types := fun _ => ⟨0, narrowEntry⟩
  slots_distinct := fun _ _ _ h => absurd rfl h

end Dial9.TraceFormat
