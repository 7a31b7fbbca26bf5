/-
# How an encoder comes by a wire id

A handle asks by identity and then by name; a derived type asks by its slot,
or by its Rust type and then like a handle. Either way the encoder answers from
what it registered, or it writes a schema frame: under the next dynamic id, or
under the slot itself. `Settled` says that every cache of the encoder agrees
with its registry, and `Binds` says once what a request can do to it.
-/

import Dial9.TraceFormat.TypedWrites

namespace Dial9.TraceFormat

open Dial9.Lib

variable {program : Program}

instance (type : TraceType) : Decidable type.Fast := inferInstanceAs (Decidable (_ ∧ _))

/-! ## Requests -/

/-- What a command needs a wire id for. -/
inductive Request
  | handle (schema : Schema)
  | typed (identity typeId : Nat)

def Command.request : Command program → Option Request
  | .op (.registerSchema identity name fields) => some (.handle ⟨identity, ⟨name, fields, []⟩⟩)
  | .op (.registerExisting schema) => some (.handle schema)
  | .op (.writeEvent schema _ _) => some (.handle schema)
  | .op (.internString _) => none
  | .op (.internStackFrames _) => none
  | .write identity event => some (.typed identity event.typeId)
  | .writeStringPool _ => none
  | .writeStackPool _ => none

/-- Neither cache knows the handle. -/
def Encoder.Unnamed (e : Encoder) (schema : Schema) : Prop :=
  e.dynamicSchemaCache.lookup schema = none ∧ e.schemaIds.lookup (.name schema.entry.name) = none

instance (e : Encoder) (schema : Schema) : Decidable (e.Unnamed schema) :=
  inferInstanceAs (Decidable (_ ∧ _))

namespace Request

variable (program)

/-- The definition the id is to stand for. -/
def entry : Request → SchemaEntry
  | handle schema => schema.entry
  | typed _ t => (program.types t).schemaEntry

def resolve (e : Encoder) : Request → Encoder.Result WireTypeId
  | handle schema => e.ensureRegistered schema
  | typed identity t => e.wireIdOf identity t (program.types t)

/-- The request takes the next dynamic id. -/
def Allocates (e : Encoder) : Request → Prop
  | handle schema => e.Unnamed schema
  | typed identity t => ¬ (program.types t).Fast ∧
      e.slotCache.getD (program.types t).typeSlot.toNat 0 = 0 ∧
      e.schemaIds.lookup (.rustType t) = none ∧
      e.Unnamed ⟨identity, (program.types t).schemaEntry⟩

instance (e : Encoder) : (request : Request) → Decidable (request.Allocates program e)
  | handle schema => inferInstanceAs (Decidable (e.Unnamed schema))
  | typed _ _ => inferInstanceAs (Decidable (_ ∧ _))

/-- The request claims its type's slot. -/
def Claims (e : Encoder) : Request → Prop
  | handle _ => False
  | typed _ t => (program.types t).Fast ∧ e.registeredIds (program.types t).typeSlot = false

instance (e : Encoder) : (request : Request) → Decidable (request.Claims program e)
  | handle _ => inferInstanceAs (Decidable False)
  | typed _ _ => inferInstanceAs (Decidable (_ ∧ _))

/-- The slot of a derived type. -/
def slot : Request → WireTypeId
  | handle _ => 0
  | typed _ t => (program.types t).typeSlot

/-- The id of the schema frame the request writes, if it writes one. -/
def frame (e : Encoder) (request : Request) : Option WireTypeId :=
  if request.Allocates program e then e.registry.nextTypeId.map Prod.fst
  else if request.Claims program e then some (request.slot program)
  else none

/-- The slot is free, or holds the very definition it is claimed for. -/
def SlotFree (e : Encoder) (request : Request) : Prop :=
  request.Claims program e → e.registry.get (request.slot program) = none ∨
    e.registry.get (request.slot program) = some (request.entry program)

instance (e : Encoder) (request : Request) : Decidable (request.SlotFree program e) :=
  inferInstanceAs (Decidable (_ → _))

end Request

/-! ## The bytes of a registration -/

/-- A schema frame and, when there are annotations that fit one, their frame. -/
def schemaBytes (typeId : WireTypeId) (entry : SchemaEntry) : Bytes :=
  encodeSchema typeId entry ++
    if entry.annotations = [] then []
    else (encodeSchemaAnnotations typeId entry.annotations).toOption.getD []

namespace Encoder

theorem writeSchema_eq (e : Encoder) (typeId : WireTypeId) (entry : SchemaEntry) :
    ∃ result, e.writeSchema typeId entry = (result, e.write (schemaBytes typeId entry)) ∧
      (result = .ok () ∨ ∃ message, result = .error (.error (.annotations message))) := by
  unfold writeSchema schemaBytes
  by_cases hnone : entry.annotations = []
  · rw [if_pos hnone, if_pos hnone, List.append_nil]
    exact ⟨_, rfl, .inl rfl⟩
  · rw [if_neg hnone, if_neg hnone]
    cases hann : encodeSchemaAnnotations typeId entry.annotations with
    | ok bytes => exact ⟨.ok (), by simp [write, Except.toOption], .inl rfl⟩
    | error message => exact ⟨_, by simp [write, Except.toOption], .inr ⟨message, rfl⟩⟩

/-- The next id is taken and its schema frame written. -/
def allocate (e : Encoder) (entry : SchemaEntry) : Encoder :=
  { e with
    registry := { e.registry with nextId := e.registry.nextId + 1 }
    out := e.out ++ schemaBytes e.registry.nextId entry }

/-- An id is registered, and found by its schema's name from now on. -/
def adopt (e : Encoder) (id : WireTypeId) (entry : SchemaEntry) : Encoder :=
  { e with
    registry := e.registry.set id entry
    schemaIds := e.schemaIds.insert (.name entry.name) id }

/-- The slot's schema frame is written. -/
def announce (e : Encoder) (type : TraceType) : Encoder :=
  e.write (schemaBytes type.typeSlot type.schemaEntry)

end Encoder

/-! ## Caches that agree with the registry -/

/-- Every id an encoder remembers is registered for what it is remembered for,
and lies below the next dynamic id. -/
structure Settled (program : Program) (e : Encoder) : Prop where
  low : staticWireIdLimit ≤ e.registry.nextId
  below : ∀ id entry, e.registry.get id = some entry → id < e.registry.nextId
  named : ∀ name id, e.schemaIds.lookup (.name name) = some id →
    ∃ entry, e.registry.get id = some entry
  handles : ∀ schema id, e.dynamicSchemaCache.lookup schema = some id →
    e.schemaIds.lookup (.name schema.entry.name) = some id ∧
      e.registry.get id = some schema.entry
  typeIds : ∀ t id, e.schemaIds.lookup (.rustType t) = some id →
    e.registry.get id = some (program.types t).schemaEntry
  written : ∀ t, (program.types t).Fast → e.registeredIds (program.types t).typeSlot = true →
    e.registry.get (program.types t).typeSlot = some (program.types t).schemaEntry
  slots : ∀ t, (program.types t).typeSlot ≠ 0 →
    e.slotCache.getD (program.types t).typeSlot.toNat 0 ≠ 0 →
    e.registry.get (e.slotCache.getD (program.types t).typeSlot.toNat 0 - 1).toUInt16 =
      some (program.types t).schemaEntry
  slotZero : e.slotCache.getD 0 0 = 0

theorem toNat_succ_typeId {next : WireTypeId} (hroom : next.toNat + 1 < 2 ^ 16) :
    (next + 1).toNat = next.toNat + 1 := by
  rw [UInt16.toNat_add]
  exact Nat.mod_eq_of_lt hroom

variable {id : WireTypeId}

variable {t : Nat}

namespace Settled

variable {e : Encoder}

section

variable (h : Settled program e)
include h

theorem get_nextId : e.registry.get e.registry.nextId = none := by
  cases hget : e.registry.get e.registry.nextId with
  | none => rfl
  | some entry => exact absurd (h.below _ _ hget) (UInt16.lt_irrefl _)

theorem write (out : Bytes) (base : UInt64) :
    Settled program { e with out := out, timestampBaseNs := base } :=
  { h with }

theorem allocate (hroom : e.registry.nextId.toNat + 1 < 2 ^ 16)
    (entry : SchemaEntry) : Settled program (e.allocate entry) := by
  have hnext := toNat_succ_typeId hroom
  refine ⟨?_, ?_, h.named, h.handles, h.typeIds, h.written, h.slots, h.slotZero⟩
  · have hlow := UInt16.le_iff_toNat_le.mp h.low
    rw [UInt16.le_iff_toNat_le]
    dsimp only [Encoder.allocate]
    omega
  · intro id known hget
    have hlt := UInt16.lt_iff_toNat_lt.mp (h.below id known hget)
    rw [UInt16.lt_iff_toNat_lt]
    dsimp only [Encoder.allocate]
    omega

theorem register {registry : SchemaRegistry} (hnext : registry.nextId = e.registry.nextId)
    (hkeeps : ∀ id entry, e.registry.get id = some entry → registry.get id = some entry)
    (hbelow : ∀ id entry, registry.get id = some entry → id < e.registry.nextId) :
    Settled program { e with registry := registry } := by
  refine ⟨?_, ?_, ?_, ?_, ?_, ?_, ?_, h.slotZero⟩
  · rw [hnext]
    exact h.low
  · intro id entry hget
    rw [hnext]
    exact hbelow id entry hget
  · intro name id hlookup
    obtain ⟨entry, hget⟩ := h.named name id hlookup
    exact ⟨entry, hkeeps id entry hget⟩
  · intro schema id hlookup
    obtain ⟨hname, hget⟩ := h.handles schema id hlookup
    exact ⟨hname, hkeeps id _ hget⟩
  · intro t id hlookup
    exact hkeeps id _ (h.typeIds t id hlookup)
  · intro t hfast hwritten
    exact hkeeps _ _ (h.written t hfast hwritten)
  · intro t hslot hcached
    exact hkeeps _ _ (h.slots t hslot hcached)

theorem name {entry : SchemaEntry}
    (hfree : e.schemaIds.lookup (.name entry.name) = none) (hget : e.registry.get id = some entry) :
    Settled program { e with schemaIds := e.schemaIds.insert (.name entry.name) id } := by
  refine ⟨h.low, h.below, ?_, ?_, ?_, h.written, h.slots, h.slotZero⟩
  · intro name known hlookup
    by_cases hname : (SchemaKey.name name) = .name entry.name
    · rw [hname, AList.lookup_insert] at hlookup
      obtain rfl := Option.some.inj hlookup
      exact ⟨entry, hget⟩
    · rw [AList.lookup_insert_ne hname] at hlookup
      exact h.named name known hlookup
  · intro schema known hlookup
    obtain ⟨hname, hknown⟩ := h.handles schema known hlookup
    refine ⟨?_, hknown⟩
    have hne : (SchemaKey.name schema.entry.name) ≠ .name entry.name := by
      intro hsame
      rw [hsame, hfree] at hname
      cases hname
    exact (AList.lookup_insert_ne hne).trans hname
  · intro t known hlookup
    rw [AList.lookup_insert_ne (by simp)] at hlookup
    exact h.typeIds t known hlookup

theorem adopt {entry : SchemaEntry}
    (hfree : e.schemaIds.lookup (.name entry.name) = none) (hnone : e.registry.get id = none)
    (hid : id < e.registry.nextId) : Settled program (e.adopt id entry) := by
  have hregistered := h.register (e.registry.set_nextId id entry)
    (fun other known hget => by
      have hne : other ≠ id := by
        rintro rfl
        rw [hnone] at hget
        cases hget
      rw [SchemaRegistry.get_set_ne _ _ hne, hget])
    (fun other known hget => by
      by_cases hother : other = id
      · subst hother
        exact hid
      · rw [SchemaRegistry.get_set_ne _ _ hother] at hget
        exact h.below other known hget)
  exact hregistered.name hfree (SchemaRegistry.get_set_self _ _ _)

theorem cacheSchema {schema : Schema}
    (hname : e.schemaIds.lookup (.name schema.entry.name) = some id)
    (hget : e.registry.get id = some schema.entry) :
    Settled program (e.cacheSchema schema id) := by
  refine ⟨h.low, h.below, h.named, ?_, h.typeIds, h.written, h.slots, h.slotZero⟩
  intro other known hlookup
  dsimp only [Encoder.cacheSchema] at hlookup ⊢
  by_cases hother : other = schema
  · subst hother
    rw [AList.lookup_insert] at hlookup
    obtain rfl := Option.some.inj hlookup
    exact ⟨hname, hget⟩
  · rw [AList.lookup_insert_ne hother] at hlookup
    split at hlookup
    · cases hlookup
    · exact h.handles other known hlookup

section

variable (hget : e.registry.get id = some (program.types t).schemaEntry)
include hget

theorem nameType : Settled program { e with schemaIds := e.schemaIds.insert (.rustType t) id } := by
  refine ⟨h.low, h.below, ?_, ?_, ?_, h.written, h.slots, h.slotZero⟩
  · intro name known hlookup
    rw [AList.lookup_insert_ne (by simp)] at hlookup
    exact h.named name known hlookup
  · intro schema known hlookup
    rw [AList.lookup_insert_ne (by simp)]
    exact h.handles schema known hlookup
  · intro u known hlookup
    by_cases hu : u = t
    · subst hu
      rw [AList.lookup_insert] at hlookup
      obtain rfl := Option.some.inj hlookup
      exact hget
    · rw [AList.lookup_insert_ne (by simp [hu])] at hlookup
      exact h.typeIds u known hlookup

theorem cacheSlot : Settled program (e.cacheSlot (program.types t).typeSlot id) := by
  rw [e.cacheSlot_eq]
  exact ⟨h.low, h.below, h.named, h.handles, h.typeIds, h.written,
    fun u hslot hcached => Encoder.cacheSlot_slots hget h.slots u hslot hcached,
    Encoder.cacheSlot_slotZero h.slotZero⟩

end

theorem mark (hget : e.registry.get (program.types t).typeSlot = some (program.types t).schemaEntry)
    (hslot : (program.types t).typeSlot ≠ 0) :
    Settled program { e with
      registeredIds := Function.update e.registeredIds (program.types t).typeSlot true } := by
  refine ⟨h.low, h.below, h.named, h.handles, h.typeIds, ?_, h.slots, h.slotZero⟩
  intro u hfast hwritten
  by_cases hu : (program.types u).typeSlot = (program.types t).typeSlot
  · obtain rfl := program.slots_distinct t u hu.symm hslot
    exact hget
  · dsimp only at hwritten
    rw [Function.update_of_ne hu] at hwritten
    exact h.written u hfast hwritten

end

end Settled

/-! ## The name-keyed path -/

/-- What the name-keyed path comes to on a settled encoder. -/
inductive SlowPath (e : Encoder) (schema : Schema) : Encoder.Result WireTypeId → Prop
  | known {id : WireTypeId} (hname : e.schemaIds.lookup (.name schema.entry.name) = some id)
      (hget : e.registry.get id = some schema.entry) : SlowPath e schema (.ok id, e)
  | conflict {id : WireTypeId} {existing : SchemaEntry}
      (hname : e.schemaIds.lookup (.name schema.entry.name) = some id)
      (hget : e.registry.get id = some existing) (hne : existing ≠ schema.entry) :
      SlowPath e schema (.error (.error (.differentDefinition schema.entry.name)), e)
  | full (hfree : e.schemaIds.lookup (.name schema.entry.name) = none)
      (hfull : ¬ e.registry.nextId.toNat + 1 < 2 ^ 16) : SlowPath e schema (.error .panic, e)
  | refused {message : String} (hfree : e.schemaIds.lookup (.name schema.entry.name) = none)
      (hroom : e.registry.nextId.toNat + 1 < 2 ^ 16) :
      SlowPath e schema (.error (.error (.annotations message)), e.allocate schema.entry)
  | fresh (hfree : e.schemaIds.lookup (.name schema.entry.name) = none)
      (hroom : e.registry.nextId.toNat + 1 < 2 ^ 16) :
      SlowPath e schema (.ok e.registry.nextId,
        (e.allocate schema.entry).adopt e.registry.nextId schema.entry)

variable {e : Encoder}

/-- The corrupted state and the failed `expect` of the source do not occur. -/
theorem Settled.slowPath (h : Settled program e) (schema : Schema) :
    SlowPath e schema (e.ensureRegisteredSlow schema) := by
  unfold Encoder.ensureRegisteredSlow
  cases hname : e.schemaIds.lookup (.name schema.entry.name) with
  | some id =>
    obtain ⟨existing, hget⟩ := h.named _ _ hname
    simp only [hget]
    by_cases hsame : existing = schema.entry
    · rw [if_pos hsame]
      exact .known hname (hsame ▸ hget)
    · rw [if_neg hsame]
      exact .conflict hname hget hsame
  | none =>
    dsimp only
    unfold SchemaRegistry.nextTypeId
    by_cases hroom : e.registry.nextId.toNat + 1 < 2 ^ 16
    · rw [if_pos hroom]
      dsimp only
      obtain ⟨result, hwrite, hresult⟩ := Encoder.writeSchema_eq
        { e with registry := { e.registry with nextId := e.registry.nextId + 1 } }
        e.registry.nextId schema.entry
      rw [hwrite]
      obtain rfl | ⟨message, rfl⟩ := hresult
      · have hregister : SchemaRegistry.register
            { e.registry with nextId := e.registry.nextId + 1 } e.registry.nextId schema.entry =
              .ok (SchemaRegistry.set { e.registry with nextId := e.registry.nextId + 1 }
                e.registry.nextId schema.entry) :=
          SchemaRegistry.register_of_get_none _ h.get_nextId
        dsimp only [Encoder.write]
        rw [hregister]
        exact .fresh hname hroom
      · exact .refused hname hroom
    · rw [if_neg hroom]
      exact .full hname hroom

/-! ## What a request can do -/

/-- From `e` to `e'` an entry asked for an id: only its schema frame was
written, and the registry kept what it held and gained at most the entry, under
the id of that frame. -/
structure Binds (program : Program) (e : Encoder) (entry : SchemaEntry)
    (frame : Option WireTypeId) (result : Except Fault WireTypeId) (e' : Encoder) : Prop where
  settled : Settled program e'
  out : e'.out = e.out ++ frame.elim [] fun id => schemaBytes id entry
  base : e'.timestampBaseNs = e.timestampBaseNs
  nextId : e.registry.nextId ≤ e'.registry.nextId
  keeps : ∀ id known, e.registry.get id = some known → e'.registry.get id = some known
  adds : ∀ id known, e'.registry.get id = some known →
    e.registry.get id = some known ∨ frame = some id ∧ known = entry
  used : ∀ id, result = .ok id → e'.registry.get id = some entry
  framed : ∀ id, frame = some id → id < e'.registry.nextId ∧
    (e.registry.nextId ≤ id ∨ ∃ t, (program.types t).Fast ∧ (program.types t).typeSlot = id ∧
      (program.types t).schemaEntry = entry ∧
      (e.registry.get id = none ∨ e.registry.get id = some entry))

namespace Binds

variable {e e' : Encoder} {entry : SchemaEntry} {frame : Option WireTypeId}
  {result : Except Fault WireTypeId}

theorem quiet (h : Settled program e') (hregistry : e'.registry = e.registry)
    (hout : e'.out = e.out) (hbase : e'.timestampBaseNs = e.timestampBaseNs)
    (hused : ∀ id, result = .ok id → e.registry.get id = some entry) :
    Binds program e entry none result e' where
  settled := h
  out := by rw [hout]; exact (List.append_nil _).symm
  base := hbase
  nextId := by rw [hregistry]; exact UInt16.le_refl _
  keeps id known hget := by rw [hregistry]; exact hget
  adds id known hget := by rw [hregistry] at hget; exact .inl hget
  used id hresult := by rw [hregistry]; exact hused id hresult
  framed id hframe := by cases hframe

theorem after (h : Binds program e entry frame result e') {e'' : Encoder}
    (hsettled : Settled program e'') (hregistry : e''.registry = e'.registry)
    (hout : e''.out = e'.out) (hbase : e''.timestampBaseNs = e'.timestampBaseNs) :
    Binds program e entry frame result e'' where
  settled := hsettled
  out := by rw [hout]; exact h.out
  base := hbase.trans h.base
  nextId := by rw [hregistry]; exact h.nextId
  keeps := by rw [hregistry]; exact h.keeps
  adds := by rw [hregistry]; exact h.adds
  used := by rw [hregistry]; exact h.used
  framed := by rw [hregistry]; exact h.framed

end Binds

theorem Encoder.allocate_nextId (hroom : e.registry.nextId.toNat + 1 < 2 ^ 16)
    (entry : SchemaEntry) : e.registry.nextId < (e.allocate entry).registry.nextId := by
  rw [UInt16.lt_iff_toNat_lt]
  dsimp only [allocate]
  rw [toNat_succ_typeId hroom]
  exact Nat.lt_succ_self _

theorem Encoder.nextTypeId_eq (hroom : e.registry.nextId.toNat + 1 < 2 ^ 16) :
    e.registry.nextTypeId.map Prod.fst = some e.registry.nextId := by
  unfold SchemaRegistry.nextTypeId
  rw [if_pos hroom]
  rfl

theorem Encoder.nextTypeId_eq_none (hfull : ¬ e.registry.nextId.toNat + 1 < 2 ^ 16) :
    e.registry.nextTypeId = none := by
  unfold SchemaRegistry.nextTypeId
  rw [if_neg hfull]

/-- The frame a name-keyed registration writes: none for a name it knows. -/
def Encoder.slowFrame (e : Encoder) (schema : Schema) : Option WireTypeId :=
  if e.schemaIds.lookup (.name schema.entry.name) = none then
    e.registry.nextTypeId.map Prod.fst
  else none

theorem Settled.binds_slow (h : Settled program e) (schema : Schema) :
    Binds program e schema.entry (e.slowFrame schema) (e.ensureRegisteredSlow schema).1
      (e.ensureRegisteredSlow schema).2 := by
  have hpath := h.slowPath schema
  unfold Encoder.slowFrame
  cases hslow : e.ensureRegisteredSlow schema with
  | mk result e₁ =>
    rw [hslow] at hpath
    cases hpath with
    | known hname hget =>
      rw [if_neg (by simp [hname])]
      refine .quiet h rfl rfl rfl ?_
      intro id hid
      obtain rfl := Except.ok.inj hid
      exact hget
    | conflict hname hget hne =>
      rw [if_neg (by simp [hname])]
      exact .quiet h rfl rfl rfl fun id hid => by cases hid
    | full hfree hfull =>
      rw [if_pos hfree, Encoder.nextTypeId_eq_none hfull]
      exact .quiet h rfl rfl rfl fun id hid => by cases hid
    | refused hfree hroom =>
      rw [if_pos hfree, Encoder.nextTypeId_eq hroom]
      have hlt := Encoder.allocate_nextId hroom schema.entry
      refine ⟨h.allocate hroom _, rfl, rfl, UInt16.le_of_lt hlt, fun _ _ hget => hget,
        fun _ _ hget => .inl hget, ?_, ?_⟩
      · intro id hid
        cases hid
      · intro id hid
        obtain rfl := Option.some.inj hid
        exact ⟨hlt, .inl (UInt16.le_refl _)⟩
    | fresh hfree hroom =>
      rw [if_pos hfree, Encoder.nextTypeId_eq hroom]
      have hlt := Encoder.allocate_nextId hroom schema.entry
      have hnone := h.get_nextId
      refine ⟨(h.allocate hroom _).adopt hfree hnone hlt, rfl, rfl, UInt16.le_of_lt hlt,
        ?_, ?_, ?_, ?_⟩
      · intro id known hget
        have hne : id ≠ e.registry.nextId := by
          rintro rfl
          rw [hnone] at hget
          cases hget
        exact (SchemaRegistry.get_set_ne _ _ hne).trans hget
      · intro id known hget
        by_cases hid : id = e.registry.nextId
        · subst hid
          have hself := Option.some.inj (hget.symm.trans (SchemaRegistry.get_set_self _ _ _))
          exact .inr ⟨rfl, hself⟩
        · exact .inl ((SchemaRegistry.get_set_ne _ _ hid).symm.trans hget)
      · intro id hid
        obtain rfl := Except.ok.inj hid
        exact SchemaRegistry.get_set_self _ _ _
      · intro id hid
        obtain rfl := Option.some.inj hid
        exact ⟨hlt, .inl (UInt16.le_refl _)⟩

theorem SlowPath.name_of_ok {schema : Schema}
    {answer : Encoder.Result WireTypeId} (h : SlowPath e schema answer) {id : WireTypeId}
    (hok : answer.1 = .ok id) : answer.2.schemaIds.lookup (.name schema.entry.name) = some id := by
  cases h with
  | known hname hget =>
    obtain rfl := Except.ok.inj hok
    exact hname
  | conflict _ _ _ | full _ _ | refused _ _ => cases hok
  | fresh hfree hroom =>
    obtain rfl := Except.ok.inj hok
    exact AList.lookup_insert _

theorem Settled.slow_of_cached (h : Settled program e) {schema : Schema}
    (hcached : e.dynamicSchemaCache.lookup schema = some id) :
    e.ensureRegisteredSlow schema = (.ok id, e) := by
  obtain ⟨hname, hget⟩ := h.handles schema id hcached
  unfold Encoder.ensureRegisteredSlow
  simp only [hname, hget, if_true]

theorem Settled.binds_handle (h : Settled program e) (schema : Schema) :
    Binds program e schema.entry
      (if e.Unnamed schema then e.registry.nextTypeId.map Prod.fst else none)
      (e.ensureRegistered schema).1 (e.ensureRegistered schema).2 := by
  unfold Encoder.ensureRegistered
  cases hcached : e.dynamicSchemaCache.lookup schema with
  | some id =>
    rw [if_neg (by simp [Encoder.Unnamed, hcached])]
    refine .quiet h rfl rfl rfl ?_
    intro id' hid
    obtain rfl := Except.ok.inj hid
    exact (h.handles schema id hcached).2
  | none =>
    have hframe : (if e.Unnamed schema then e.registry.nextTypeId.map Prod.fst else none) =
        e.slowFrame schema := by
      simp [Encoder.slowFrame, Encoder.Unnamed, hcached]
    have hbinds := h.binds_slow schema
    have hname := fun id => @SlowPath.name_of_ok e schema _ (h.slowPath schema) id
    rw [hframe]
    revert hbinds hname
    cases e.ensureRegisteredSlow schema with
    | mk result e₁ =>
      intro hbinds hname
      cases result with
      | error fault => exact hbinds
      | ok id =>
        have hsettled := hbinds.settled.cacheSchema (hname id rfl) (hbinds.used id rfl)
        exact hbinds.after hsettled rfl rfl rfl

/-! ## Derived types -/

theorem SchemaRegistry.register_of_free {registry : SchemaRegistry} {typeId : WireTypeId}
    {entry : SchemaEntry} (hfree : registry.get typeId = none ∨ registry.get typeId = some entry) :
    ∃ grown, registry.register typeId entry = .ok grown ∧ grown.nextId = registry.nextId ∧
      ∀ id, grown.get id = if id = typeId then some entry else registry.get id := by
  obtain hnone | hself := hfree
  · refine ⟨_, register_of_get_none _ hnone, rfl, ?_⟩
    intro id
    split
    · next hid => rw [hid, get_set_self]
    · next hid => exact get_set_ne _ _ hid
  · refine ⟨_, register_of_get_self hself, rfl, ?_⟩
    intro id
    split
    · next hid => rw [hid, hself]
    · rfl

section

variable (h : Settled program e) (hfast : (program.types t).Fast)
  (hfree : e.registry.get (program.types t).typeSlot = none ∨
    e.registry.get (program.types t).typeSlot = some (program.types t).schemaEntry)
include h hfast hfree

theorem Settled.binds_claimed
    {grown : SchemaRegistry}
    (hnext : grown.nextId = e.registry.nextId)
    (hget : ∀ id, grown.get id = if id = (program.types t).typeSlot then
      some (program.types t).schemaEntry else e.registry.get id) :
    Binds program e (program.types t).schemaEntry (some (program.types t).typeSlot)
      (.ok (program.types t).typeSlot) { e.announce (program.types t) with
        registry := grown
        registeredIds := Function.update e.registeredIds (program.types t).typeSlot true } := by
  have hlt : (program.types t).typeSlot < e.registry.nextId :=
    UInt16.lt_of_lt_of_le hfast.2 h.low
  have hself : grown.get (program.types t).typeSlot = some (program.types t).schemaEntry := by
    rw [hget, if_pos rfl]
  have hkeeps : ∀ id known, e.registry.get id = some known → grown.get id = some known := by
    intro id known hknown
    rw [hget]
    split
    · next hid =>
        subst hid
        obtain hnone | hsame := hfree
        · rw [hnone] at hknown
          cases hknown
        · rw [← hsame, hknown]
    · exact hknown
  have hbelow : ∀ id known, grown.get id = some known → id < e.registry.nextId := by
    intro id known hknown
    rw [hget] at hknown
    split at hknown
    · next hid => rw [hid]; exact hlt
    · exact h.below id known hknown
  refine ⟨((h.register hnext hkeeps hbelow).mark hself hfast.1).write _ _, rfl, rfl, ?_, hkeeps,
    ?_, ?_, ?_⟩
  · rw [hnext]
    exact UInt16.le_refl _
  · intro id known hknown
    rw [hget] at hknown
    split at hknown
    · next hid => exact .inr ⟨congrArg some hid.symm, (Option.some.inj hknown).symm⟩
    · exact .inl hknown
  · intro id hid
    obtain rfl := Except.ok.inj hid
    exact hself
  · intro id hid
    obtain rfl := Option.some.inj hid
    rw [hnext]
    exact ⟨hlt, .inr ⟨t, hfast, rfl, rfl, hfree⟩⟩

/-- A first write on a fast slot: the schema frame goes out, and the slot is
registered unless the annotations were refused. -/
theorem Settled.binds_slot :
    ∃ result e', e.registerFastId (program.types t) = (result, e') ∧
      Binds program e (program.types t).schemaEntry (some (program.types t).typeSlot)
        (result.map fun _ => (program.types t).typeSlot) e' := by
  unfold Encoder.registerFastId
  obtain ⟨result, hwrite, hresult⟩ :=
    e.writeSchema_eq (program.types t).typeSlot (program.types t).schemaEntry
  rw [hwrite]
  obtain rfl | ⟨message, rfl⟩ := hresult
  · obtain ⟨grown, hregister, hnext, hget⟩ := SchemaRegistry.register_of_free hfree
    dsimp only [Encoder.write]
    rw [hregister]
    exact ⟨_, _, rfl, h.binds_claimed hfast hfree hnext hget⟩
  · refine ⟨_, _, rfl, h.write _ _, rfl, rfl, UInt16.le_refl _, fun _ _ hget => hget,
      fun _ _ hget => .inl hget, ?_, ?_⟩
    · intro id hid
      cases hid
    · intro id hid
      obtain rfl := Option.some.inj hid
      exact ⟨UInt16.lt_of_lt_of_le hfast.2 h.low, .inr ⟨t, hfast, rfl, rfl, hfree⟩⟩

end

theorem Settled.binds_dynamic (h : Settled program e) (identity t : Nat) :
    Binds program e (program.types t).schemaEntry
      (if e.schemaIds.lookup (.rustType t) = none ∧
          e.Unnamed ⟨identity, (program.types t).schemaEntry⟩ then
        e.registry.nextTypeId.map Prod.fst else none)
      (e.resolveDynamicWireId identity t (program.types t)).1
      (e.resolveDynamicWireId identity t (program.types t)).2 := by
  unfold Encoder.resolveDynamicWireId
  cases hrust : e.schemaIds.lookup (.rustType t) with
  | some existing =>
    rw [if_neg (by simp)]
    have hget := h.typeIds t existing hrust
    refine .quiet (h.cacheSlot hget) (e.cacheSlot_registry _ _) (e.cacheSlot_out _ _)
      (e.cacheSlot_base _ _) ?_
    intro id hid
    obtain rfl := Except.ok.inj hid
    exact hget
  | none =>
    have hbinds := h.binds_handle ⟨identity, (program.types t).schemaEntry⟩
    simp only [true_and]
    revert hbinds
    cases e.ensureRegistered ⟨identity, (program.types t).schemaEntry⟩ with
    | mk result e₁ =>
      intro hbinds
      cases result with
      | error fault => exact hbinds
      | ok id =>
        have hget := hbinds.used id rfl
        exact hbinds.after ((hbinds.settled.nameType hget).cacheSlot hget)
          (Encoder.cacheSlot_registry _ _ _) (Encoder.cacheSlot_out _ _ _)
          (Encoder.cacheSlot_base _ _ _)

/-! ## Every request -/

theorem Settled.binds (h : Settled program e) (request : Request)
    (hfree : request.SlotFree program e) :
    Binds program e (request.entry program) (request.frame program e)
      (request.resolve program e).1 (request.resolve program e).2 := by
  cases request with
  | handle schema =>
    have hframe : (Request.handle schema).frame program e =
        if e.Unnamed schema then e.registry.nextTypeId.map Prod.fst else none := by
      simp [Request.frame, Request.Allocates, Request.Claims]
    rw [hframe]
    exact h.binds_handle schema
  | typed identity t =>
    unfold Request.resolve Encoder.wireIdOf Request.frame Request.Allocates Request.Claims
    by_cases hfast : (program.types t).Fast
    · have hslot : (program.types t).typeSlot ≠ 0 ∧
          (program.types t).typeSlot < staticWireIdLimit := hfast
      simp only [hfast, not_true_eq_false, false_and, if_false, true_and, if_pos hslot]
      cases hwritten : e.registeredIds (program.types t).typeSlot with
      | true =>
        simp only [Bool.true_eq_false, if_false, if_true]
        refine .quiet h rfl rfl rfl ?_
        intro id hid
        obtain rfl := Except.ok.inj hid
        exact h.written t hfast hwritten
      | false =>
        simp only [if_true, Bool.false_eq_true, if_false]
        obtain ⟨result, e', hregister, hbinds⟩ :=
          h.binds_slot hfast (hfree ⟨hfast, hwritten⟩)
        rw [hregister]
        cases result with
        | ok _ | error _ => exact hbinds
    · have hslot : ¬ ((program.types t).typeSlot ≠ 0 ∧
          (program.types t).typeSlot < staticWireIdLimit) := hfast
      simp only [hfast, not_false_eq_true, true_and, false_and, if_false, if_neg hslot]
      by_cases hunset : e.slotCache.getD (program.types t).typeSlot.toNat 0 = 0
      · simp only [hunset, true_and, ne_eq, not_true_eq_false, if_false]
        exact h.binds_dynamic identity t
      · simp only [hunset, false_and, if_false, ne_eq, not_false_eq_true, if_true]
        have hne : (program.types t).typeSlot ≠ 0 := by
          intro hzero
          rw [hzero] at hunset
          exact hunset h.slotZero
        refine .quiet h rfl rfl rfl ?_
        intro id hid
        obtain rfl := Except.ok.inj hid
        exact h.slots t hne hunset

end Dial9.TraceFormat
