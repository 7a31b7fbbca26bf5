/-
# Typed writes

A derived type is written under its slot when that is one of the static wire
ids, and otherwise like a schema handle, found by its slot or its Rust type. A
typed write on a slot does not look at what the stream knows: it emits its
schema frame again. What a caller of such commands keeps to is stated here,
with the events a run of them writes and the ids it hands out.
-/

import Dial9.TraceFormat.Batches
import Dial9.TraceFormat.Resume

namespace Dial9.TraceFormat

open Dial9.Lib Dial9.Lib.Reader

/-- The slot is one of those that are their own wire id. -/
def TraceType.Fast (type : TraceType) : Prop :=
  type.typeSlot ≠ 0 ∧ type.typeSlot < staticWireIdLimit

/-- The fields a type's events are read with. -/
def TraceType.info (type : TraceType) : SchemaInfo :=
  ⟨type.schemaEntry.fields.map fun field => field.fieldType.tag, true⟩

namespace Encoder

section

variable (e : Encoder) (slot : UInt16) (wireId : WireTypeId)
include e slot wireId

theorem cacheSlot_eq :
    e.cacheSlot slot wireId = { e with slotCache := (e.cacheSlot slot wireId).slotCache } := by
  unfold cacheSlot
  split <;> rfl

theorem cacheSlot_registry : (e.cacheSlot slot wireId).registry = e.registry := by
  rw [cacheSlot_eq]

theorem cacheSlot_out : (e.cacheSlot slot wireId).out = e.out := by
  rw [cacheSlot_eq]

theorem cacheSlot_base : (e.cacheSlot slot wireId).timestampBaseNs = e.timestampBaseNs := by
  rw [cacheSlot_eq]

end

variable {program : Program} {e : Encoder} {t : Nat} {id : WireTypeId}

theorem cacheSlot_slots (hget : e.registry.get id = some (program.types t).schemaEntry)
    (hslots : ∀ u, (program.types u).typeSlot ≠ 0 →
      e.slotCache.getD (program.types u).typeSlot.toNat 0 ≠ 0 →
      e.registry.get (e.slotCache.getD (program.types u).typeSlot.toNat 0 - 1).toUInt16 =
        some (program.types u).schemaEntry) (u : Nat) (hslot : (program.types u).typeSlot ≠ 0)
    (hcached : (e.cacheSlot (program.types t).typeSlot id).slotCache.getD
      (program.types u).typeSlot.toNat 0 ≠ 0) :
    e.registry.get ((e.cacheSlot (program.types t).typeSlot id).slotCache.getD
      (program.types u).typeSlot.toNat 0 - 1).toUInt16 = some (program.types u).schemaEntry := by
  rw [cacheSlot_getD] at hcached ⊢
  by_cases hsame : (program.types t).typeSlot ≠ 0 ∧
      (program.types u).typeSlot.toNat = (program.types t).typeSlot.toNat
  · obtain rfl : t = u := program.slots_distinct t u (UInt16.toNat_inj.mp hsame.2.symm) hsame.1
    rw [if_pos hsame]
    have hback : (id.toUInt32 + 1 - 1).toUInt16 = id := by simp
    rw [hback]
    exact hget
  · rw [if_neg hsame] at hcached ⊢
    exact hslots u hslot hcached

theorem cacheSlot_slotZero {slot : UInt16} (hzero : e.slotCache.getD 0 0 = 0) :
    (e.cacheSlot slot id).slotCache.getD 0 0 = 0 := by
  rw [cacheSlot_getD]
  have hne : ¬ (slot ≠ 0 ∧ 0 = slot.toNat) := by
    rintro ⟨hne, hslot⟩
    exact hne (UInt16.toNat_inj.mp hslot.symm)
  rw [if_neg hne]
  exact hzero

end Encoder

variable {program : Program} {untimed : SchemaEntry → Prop}

/-- A slot whose schema frame this encoder has not written is free in what it
knows, or holds the type's own schema without annotations. -/
def TraceType.SlotUsable (type : TraceType) (e : Encoder) : Prop :=
  e.registeredIds type.typeSlot = true ∨ e.registry.get type.typeSlot = none ∨
    (e.registry.get type.typeSlot = some type.schemaEntry ∧ type.schemaEntry.annotations = [])

/-- A typed write whose schema frame the decoder can take, or whose schema the
trace declares with a packed timestamp. -/
def TraceType.Usable (untimed : SchemaEntry → Prop) (e : Encoder) (type : TraceType) : Prop :=
  (type.Fast → type.SlotUsable e) ∧ (¬ type.Fast → ¬ untimed type.schemaEntry)

/-! ## Events -/

variable {event : TraceEvent program}

theorem TraceEvent.fieldTags_eq (event : TraceEvent program) :
    (event.type.schemaEntry.fields.map fun field => field.fieldType.tag) =
      event.fields.map fun field => field.fieldType.tag := by
  have htyped := congrArg (List.map FieldType.tag) event.wellTyped
  simpa [List.map_map, Function.comp_def, TraceEvent.type] using htyped

theorem TraceEvent.reads_encodeFields (hfits : ∀ field ∈ event.fields, field.Fits) :
    Reads (forEach (decodeField owned)
      (event.type.schemaEntry.fields.map fun field => field.fieldType.tag))
      event.encodeFields event.values := by
  rw [event.fieldTags_eq]
  exact reads_forEach fun field hfield => TypedField.reads (hfits field hfield)

theorem TraceEvent.exists_reads_encodeFields (hfits : ∀ field ∈ event.fields, field.Fits) :
    ∃ refs, Reads (forEach (decodeField zeroCopy)
      (event.type.schemaEntry.fields.map fun field => field.fieldType.tag))
      event.encodeFields refs := by
  rw [event.fieldTags_eq]
  exact exists_reads_forEach fun field hfield => TypedField.exists_reads (hfits field hfield)

/-! ## Runs -/

/-- What an appending caller keeps to, and what the encoder's state must allow.
Raw pool frames carry ids of the caller's choosing and are not appended. -/
def Command.Appendable (untimed : SchemaEntry → Prop) (e : Encoder) : Command program → Prop
  | .op action => action.Admissible ∧ action.LengthsFit ∧ action.Timed untimed
  | .write _ event => event.type.schemaEntry.Fits ∧ (∀ field ∈ event.fields, field.Fits) ∧
      event.type.Usable untimed e
  | .writeStringPool _ => False
  | .writeStackPool _ => False

/-- Every command is appendable in the state it meets. -/
def AppendableAll (untimed : SchemaEntry → Prop) : Encoder → List (Command program) → Prop
  | _, [] => True
  | e, command :: commands =>
    command.Appendable untimed e ∧ AppendableAll untimed (command.perform e).2 commands

/-- The events a command writes when it succeeds. -/
def Command.written (known : Interned) : Command program → List Written
  | .op action => action.written known
  | .write _ event => [⟨event.type.schemaEntry, event.timestamp, event.values, known⟩]
  | .writeStringPool _ => []
  | .writeStackPool _ => []

def Command.after (known : Interned) (response : Response) : Command program → Interned
  | .op action => known.after action response
  | _ => known

/-- The events of a run: those of the commands that succeeded. -/
def writtenBy : Interned → List (Command program × Except Fault Response) → List Written
  | _, [] => []
  | known, (command, .ok response) :: rest =>
    command.written known ++ writtenBy (command.after known response) rest
  | known, (_, .error _) :: rest => writtenBy known rest

/-- The ids handed out by a run. -/
def internedBy : Interned → List (Command program × Except Fault Response) → Interned
  | known, [] => known
  | known, (command, .ok response) :: rest => internedBy (command.after known response) rest
  | known, (_, .error _) :: rest => internedBy known rest

/-- What a trace interned, as its decoder resolves it. -/
def DecoderState.interned (s : DecoderState) : Interned where
  strings := entriesOf s.stringPool
  frames := entriesOf s.stackPool

theorem DecoderState.interned_resolvedBy (s : DecoderState) : s.interned.ResolvedBy s :=
  ⟨fun _ hpair => mem_entriesOf.mp hpair, fun _ hpair => mem_entriesOf.mp hpair⟩

/-! ## A type in a slot -/

/-- A program with one type that has a slot. -/
def slotProgram (entry : SchemaEntry) : Program where
  types := fun t => ⟨if t = 0 then 5 else 0, entry⟩
  slots_distinct := by
    intro i j hsame hne
    by_cases hi : i = 0
    · by_cases hj : j = 0
      · rw [hi, hj]
      · simp [hi, hj] at hsame
    · simp [hi] at hne

/-- The schema `p` without fields, with the given annotations. -/
def slotEntry (annotations : List FieldAnnotation) : SchemaEntry :=
  ⟨⟨[0x70], by decide⟩, [], annotations⟩

/-- One event of that type. -/
def slotEvent (annotations : List FieldAnnotation) :
    TraceEvent (slotProgram (slotEntry annotations)) where
  typeId := 0
  timestamp := 9
  fields := []
  wellTyped := rfl

def slotWrites (annotations : List FieldAnnotation) :
    List (Command (slotProgram (slotEntry annotations))) := [.write 0 (slotEvent annotations)]

def slotNote : FieldAnnotation := ⟨0, ⟨[0x70], by decide⟩, ⟨[0x70], by decide⟩⟩

end Dial9.TraceFormat
