/-
# Schemas and the schema registry

The entries of `schema.rs` and the registry that owns them. A registry maps
wire type ids to entries; ids below `STATIC_WIRE_ID_LIMIT` are left to the
slot-allocated types, so dynamic allocation starts there.
-/

import Dial9.TraceFormat.Types
import Mathlib.Data.List.AList

namespace Dial9.TraceFormat

open Dial9.Lib

/-- Type id as it appears on the wire. -/
abbrev WireTypeId := UInt16

structure FieldAnnotation where
  fieldIndex : UInt16
  key : Text
  value : Text
  deriving DecidableEq

structure FieldDef where
  name : Text
  fieldType : FieldType
  deriving DecidableEq

structure SchemaEntry where
  name : Text
  fields : List FieldDef
  annotations : List FieldAnnotation
  deriving DecidableEq

/-- `STATIC_WIRE_ID_LIMIT`. -/
def staticWireIdLimit : UInt16 := 256

structure SchemaRegistry where
  schemas : AList fun _ : WireTypeId => SchemaEntry
  nextId : UInt16

variable {typeId : WireTypeId} {entry : SchemaEntry}

variable {registry registry' : SchemaRegistry}

namespace SchemaRegistry

def new : SchemaRegistry := ⟨∅, staticWireIdLimit⟩

def get (registry : SchemaRegistry) (typeId : WireTypeId) : Option SchemaEntry :=
  registry.schemas.lookup typeId

/-- Replace the entry of a type id. -/
def set (registry : SchemaRegistry) (typeId : WireTypeId) (entry : SchemaEntry) : SchemaRegistry :=
  { registry with schemas := registry.schemas.insert typeId entry }

/-- Register an entry. An id that is taken accepts only the same entry again. -/
def register (registry : SchemaRegistry) (typeId : WireTypeId) (entry : SchemaEntry) :
    Except String SchemaRegistry :=
  match registry.get typeId with
  | some existing =>
    if existing = entry then .ok registry
    else .error ("type_id WireTypeId(" ++ toString typeId ++
      ") already registered with different schema")
  | none => .ok (registry.set typeId entry)

/-- Allocate the next wire type id; `none` is the overflow of the counter. -/
def nextTypeId (registry : SchemaRegistry) : Option (WireTypeId × SchemaRegistry) :=
  if registry.nextId.toNat + 1 < 2 ^ 16 then
    some (registry.nextId, { registry with nextId := registry.nextId + 1 })
  else none

@[simp]
theorem get_set_self (registry : SchemaRegistry) (typeId : WireTypeId) (entry : SchemaEntry) :
    (registry.set typeId entry).get typeId = some entry := by
  simp [get, set]

variable {typeId other : WireTypeId}

theorem get_set_ne (registry : SchemaRegistry) (entry : SchemaEntry)
    (h : other ≠ typeId) : (registry.set typeId entry).get other = registry.get other := by
  simp [get, set, AList.lookup_insert_ne h]

@[simp]
theorem set_set (registry : SchemaRegistry) (typeId : WireTypeId) (entry entry' : SchemaEntry) :
    (registry.set typeId entry).set typeId entry' = registry.set typeId entry' := by
  simp [set]

@[simp]
theorem set_nextId (registry : SchemaRegistry) (typeId : WireTypeId) (entry : SchemaEntry) :
    (registry.set typeId entry).nextId = registry.nextId := rfl

theorem register_of_get_none (entry : SchemaEntry) (h : registry.get typeId = none) :
    registry.register typeId entry = .ok (registry.set typeId entry) := by
  simp [register, h]

theorem register_of_get_self (h : registry.get typeId = some entry) :
    registry.register typeId entry = .ok registry := by
  simp [register, h]

section

variable (h : registry.register typeId entry = .ok registry')
include h

theorem register_eq_ok :
    (registry.get typeId = some entry ∧ registry' = registry) ∨
      (registry.get typeId = none ∧ registry' = registry.set typeId entry) := by
  unfold register at h
  cases hget : registry.get typeId with
  | none =>
    right
    simp only [hget, Except.ok.injEq] at h
    exact ⟨rfl, h.symm⟩
  | some existing =>
    left
    simp only [hget] at h
    split at h
    · next heq => exact ⟨by rw [heq], (Except.ok.inj h).symm⟩
    · cases h

theorem get_of_register_eq_ok : registry'.get typeId = some entry := by
  obtain ⟨hget, rfl⟩ | ⟨_, rfl⟩ := register_eq_ok h
  · exact hget
  · simp

theorem get_of_register_ne (hne : other ≠ typeId) : registry'.get other = registry.get other := by
  obtain ⟨_, rfl⟩ | ⟨_, rfl⟩ := register_eq_ok h
  · rfl
  · exact get_set_ne _ _ hne

end

end SchemaRegistry

end Dial9.TraceFormat
