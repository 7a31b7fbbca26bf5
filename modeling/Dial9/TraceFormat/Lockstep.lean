/-
# Encoder and decoder in lock step

The invariant that ties an encoder to the decoder reading its output: equal
timestamp bases, the encoder's schemas and pools all known to the decoder, and
the ids the encoder will hand out next still free there. Every operation that
does not panic extends the output by bytes the decoder consumes, and leaves the
two in step again, also when the operation fails.
-/

import Dial9.TraceFormat.Encoder
import Dial9.TraceFormat.Wire

namespace Dial9.TraceFormat

open Dial9.Lib Dial9.Lib.Reader

/-- The events among decoded frames. -/
def DecodedFrame.isEvent {V F : Type} : DecodedFrame V F → Bool
  | .event _ _ _ => true
  | _ => false

def eventsOf {V F : Type} (log : StateLog V F) : StateLog V F :=
  log.filter fun entry => entry.1.isEvent

theorem eventsOf_append {V F : Type} (log log' : StateLog V F) :
    eventsOf (log ++ log') = eventsOf log ++ eventsOf log' := List.filter_append _ _

variable {s s' s'' : DecoderState} {typeId : WireTypeId} {entry : SchemaEntry} {e e' e'' : Encoder}
  {schema : Schema}

namespace DecoderState

/-- Everything a decoder state resolves, a later one resolves alike. -/
structure Extends (s s' : DecoderState) : Prop where
  schemas : ∀ id entry, s.registry.get id = some entry → s'.registry.get id = some entry
  stringPool : ∀ id text, s.stringPool.lookup id = some text → s'.stringPool.lookup id = some text
  stackPool :
    ∀ id frames, s.stackPool.lookup id = some frames → s'.stackPool.lookup id = some frames

theorem Extends.refl (s : DecoderState) : s.Extends s :=
  ⟨fun _ _ h => h, fun _ _ h => h, fun _ _ h => h⟩

theorem Extends.trans (h : s.Extends s') (h' : s'.Extends s'') : s.Extends s'' :=
  ⟨fun id entry hs => h'.schemas id entry (h.schemas id entry hs),
    fun id text hs => h'.stringPool id text (h.stringPool id text hs),
    fun id frames hs => h'.stackPool id frames (h.stackPool id frames hs)⟩

/-- The state after a schema frame and its annotations, at a type id that was free. -/
def learn (s : DecoderState) (typeId : WireTypeId) (entry : SchemaEntry) : DecoderState :=
  { s with
    registry := s.registry.set typeId entry
    schemaCache := Function.update s.schemaCache typeId (some (schemaCacheOf entry true)) }

theorem learn_schemaInfo_self (s : DecoderState) (typeId : WireTypeId) (entry : SchemaEntry) :
    (s.learn typeId entry).schemaInfo typeId =
      some ⟨entry.fields.map fun field => field.fieldType.tag, true⟩ := by
  simp [learn, schemaInfo, schemaCacheOf]

theorem learn_schemaInfo_ne (s : DecoderState) {typeId other : WireTypeId} (entry : SchemaEntry)
    (h : other ≠ typeId) : (s.learn typeId entry).schemaInfo other = s.schemaInfo other := by
  simp [learn, schemaInfo, Function.update_of_ne h]

theorem extends_learn (entry : SchemaEntry) (hfree : s.registry.get typeId = none) :
    s.Extends (s.learn typeId entry) := by
  refine ⟨?_, fun _ _ h => h, fun _ _ h => h⟩
  intro id known hknown
  have hne : id ≠ typeId := by
    rintro rfl
    rw [hfree] at hknown
    cases hknown
  rw [learn, SchemaRegistry.get_set_ne _ _ hne, hknown]

theorem registerSchema_of_free (hfree : s.registry.get typeId = none) :
    (s.registerSchema typeId entry true).2 = s.learn typeId entry := by
  simp [registerSchema, SchemaRegistry.register_of_get_none _ hfree, learn]

theorem mergeAnnotations_learn (s : DecoderState) (typeId : WireTypeId) (entry : SchemaEntry) :
    (s.learn typeId entry.bare).mergeAnnotations typeId entry.annotations =
      s.learn typeId entry := by
  have hmerged : annotate entry.bare entry.annotations = entry := by
    simp [annotate, SchemaEntry.bare]
  simp only [mergeAnnotations, learn, SchemaRegistry.get_set_self, Function.update_self,
    Function.update_idem, SchemaRegistry.set_set, schemaCacheOf, hmerged]
  rfl

end DecoderState

/-- A stretch of encoding, as the decoder reads it: the events it shows, and
nothing resolved before is lost. Either decoder passes it, whatever is in the pools. -/
structure Fed (e e' : Encoder) (s s' : DecoderState)
    (events : StateLog FieldValue (List UInt64)) : Prop where
  fed : ∃ bytes log, e'.out = e.out ++ bytes ∧ Feeds owned s bytes log s' ∧ eventsOf log = events
  keeps : s.Extends s'
  readable : ∃ bytes, e'.out = e.out ++ bytes ∧ Readable s bytes s'

/-- A stretch of encoding that leaves alone what typed writes rely on: the type
ids allocated before it, the slots and the ids of Rust types. -/
structure Undisturbed (e e' : Encoder) (s s' : DecoderState) : Prop where
  nextId : e.registry.nextId ≤ e'.registry.nextId
  entries : ∀ id, id < e.registry.nextId → e'.registry.get id = e.registry.get id
  known : ∀ id, id < e.registry.nextId →
    s'.registry.get id = s.registry.get id ∧ s'.schemaInfo id = s.schemaInfo id
  slotCache : e'.slotCache = e.slotCache
  registeredIds : e'.registeredIds = e.registeredIds
  typeIds : ∀ t, e'.schemaIds.lookup (.rustType t) = e.schemaIds.lookup (.rustType t)

/-- What the decoder makes of an operation on schema handles and pools. -/
structure Follows (e e' : Encoder) (s s' : DecoderState)
    (events : StateLog FieldValue (List UInt64)) : Prop extends Fed e e' s s' events where
  registered : ∀ id entry, e.registry.get id = some entry → e'.registry.get id = some entry
  undisturbed : Undisturbed e e' s s'

theorem Fed.silent (hout : e'.out = e.out) (s : DecoderState) : Fed e e' s s [] :=
  ⟨⟨[], [], by simp [hout], .refl s, rfl⟩, .refl s, [], by simp [hout], .refl s⟩

theorem Fed.refl (e : Encoder) (s : DecoderState) : Fed e e s s [] := .silent rfl s

variable {events events' : StateLog FieldValue (List UInt64)}

theorem Fed.trans (h : Fed e e' s s' events)
    (h' : Fed e' e'' s' s'' events') : Fed e e'' s s'' (events ++ events') := by
  obtain ⟨⟨bytes, log, hout, hfeeds, hevents⟩, hkeeps, read, hread, hreadable⟩ := h
  obtain ⟨⟨bytes', log', hout', hfeeds', hevents'⟩, hkeeps', read', hread', hreadable'⟩ := h'
  refine ⟨⟨bytes ++ bytes', log ++ log', ?_, hfeeds.trans hfeeds', ?_⟩, hkeeps.trans hkeeps',
    read ++ read', ?_, hreadable.trans hreadable'⟩
  · rw [hout', hout, List.append_assoc]
  · rw [eventsOf_append, hevents, hevents']
  · rw [hread', hread, List.append_assoc]

theorem Undisturbed.of_schemas (hregistry : e'.registry = e.registry)
    (hslots : e'.slotCache = e.slotCache) (hfast : e'.registeredIds = e.registeredIds)
    (hids : e'.schemaIds = e.schemaIds) (hknown : s'.registry = s.registry)
    (hcache : s'.schemaCache = s.schemaCache) :
    Undisturbed e e' s s' where
  nextId := by rw [hregistry]; exact UInt16.le_refl _
  entries _ _ := by rw [hregistry]
  known _ _ := ⟨by rw [hknown], by rw [DecoderState.schemaInfo, hcache]; rfl⟩
  slotCache := hslots
  registeredIds := hfast
  typeIds _ := by rw [hids]

theorem Undisturbed.trans (h : Undisturbed e e' s s') (h' : Undisturbed e' e'' s' s'') :
    Undisturbed e e'' s s'' where
  nextId := UInt16.le_trans h.nextId h'.nextId
  entries id hid := by rw [h'.entries id (UInt16.lt_of_lt_of_le hid h.nextId), h.entries id hid]
  known id hid := by
    obtain ⟨hget, hinfo⟩ := h'.known id (UInt16.lt_of_lt_of_le hid h.nextId)
    obtain ⟨hget₀, hinfo₀⟩ := h.known id hid
    exact ⟨hget.trans hget₀, hinfo.trans hinfo₀⟩
  slotCache := h'.slotCache.trans h.slotCache
  registeredIds := h'.registeredIds.trans h.registeredIds
  typeIds t := (h'.typeIds t).trans (h.typeIds t)

namespace Follows

theorem refl (e : Encoder) (s : DecoderState) : Follows e e s s [] where
  toFed := .refl e s
  registered _ _ h := h
  undisturbed := .of_schemas rfl rfl rfl rfl rfl rfl

theorem trans (h : Follows e e' s s' events)
    (h' : Follows e' e'' s' s'' events') : Follows e e'' s s'' (events ++ events') where
  toFed := h.toFed.trans h'.toFed
  registered id entry hget := h'.registered id entry (h.registered id entry hget)
  undisturbed := h.undisturbed.trans h'.undisturbed

theorem quiet_trans (h : Follows e e' s s' [])
    (h' : Follows e' e'' s' s'' events) : Follows e e'' s s'' events := h.trans h'

end Follows

/-- The decoder knows a schema at a type id, with its events carrying a packed
timestamp unless the schema is one of the `untimed` ones. -/
def DecoderState.Knows (untimed : SchemaEntry → Prop) (s : DecoderState) (id : WireTypeId)
    (entry : SchemaEntry) : Prop :=
  s.registry.get id = some entry ∧ ∃ ts,
    s.schemaInfo id = some ⟨entry.fields.map fun field => field.fieldType.tag, ts⟩ ∧
      (ts = true ∨ untimed entry)

/-- The encoder and the decoder of its output agree. A fresh encoder declares
every schema with a packed timestamp; one that continues a foreign stream may
know schemas without. -/
structure Synced (untimed : SchemaEntry → Prop) (e : Encoder) (s : DecoderState) : Prop where
  base : s.timestampBaseNs = e.timestampBaseNs
  schemas : ∀ id entry, e.registry.get id = some entry → s.Knows untimed id entry
  freeTypeIds : ∀ id, e.registry.nextId ≤ id → s.registry.get id = none
  handles : ∀ schema id, e.dynamicSchemaCache.lookup schema = some id →
    e.registry.get id = some schema.entry
  stringPool : ∀ text id, e.stringPool.lookup text = some id → s.stringPool.lookup id = some text
  freePoolIds : ∀ id, e.nextPoolId ≤ id → s.stringPool.lookup id = none
  stackPool : ∀ frames id, e.stackPool.lookup frames = some id → s.stackPool.lookup id = some frames
  freeStackPoolIds : ∀ id, e.nextStackPoolId ≤ id → s.stackPool.lookup id = none

variable {untimed : SchemaEntry → Prop}

theorem synced_new (untimed : SchemaEntry → Prop) : Synced untimed .new .new where
  base := rfl
  schemas id entry h := by cases h
  freeTypeIds _ _ := rfl
  handles schema id h := by cases h
  stringPool text id h := by cases h
  freePoolIds _ _ := rfl
  stackPool frames id h := by cases h
  freeStackPoolIds _ _ := rfl

/-! ## Schema frames -/

theorem encodeSchemaAnnotations_error {annotations : List FieldAnnotation} {message : String}
    (h : encodeSchemaAnnotations typeId annotations = .error message) :
    2 ^ 16 ≤ annotations.length := by
  unfold encodeSchemaAnnotations at h
  split at h
  · cases h
  · omega

theorem writeSchema_follows {result : Except Fault Unit} (hfits : entry.Fits)
    (hfree : s.registry.get typeId = none) (h : e.writeSchema typeId entry = (result, e')) :
    ∃ learned, Fed e e' s (s.learn typeId learned) [] ∧
      (result = .ok () → learned = entry) ∧
      (∀ fault, result = .error fault →
        learned = entry.bare ∧ 2 ^ 16 ≤ entry.annotations.length) ∧
      ∃ out, e' = { e with out := out } := by
  have hreg := SchemaRegistry.register_of_get_none entry.bare hfree
  have hschema := feeds_schema owned hfits hreg
  have hreadable := readable_schema hfits hreg
  rw [DecoderState.registerSchema_of_free hfree] at hschema hreadable
  have hkeeps := fun learned => DecoderState.extends_learn learned hfree
  unfold Encoder.writeSchema at h
  by_cases hnone : entry.annotations = []
  · have hbare : entry.bare = entry := by
      cases entry
      simp_all [SchemaEntry.bare]
    simp only [hnone, if_true, Prod.mk.injEq] at h
    obtain ⟨rfl, rfl⟩ := h
    rw [hbare] at hschema hreadable
    exact ⟨entry, ⟨⟨_, _, rfl, hschema, rfl⟩, hkeeps entry, _, rfl, hreadable⟩, fun _ => rfl,
      by simp, _, rfl⟩
  · simp only [hnone, if_false] at h
    cases hann : encodeSchemaAnnotations typeId entry.annotations with
    | error message =>
      simp only [hann, Prod.mk.injEq] at h
      obtain ⟨rfl, rfl⟩ := h
      exact ⟨entry.bare, ⟨⟨_, _, rfl, hschema, rfl⟩, hkeeps entry.bare, _, rfl, hreadable⟩, by simp,
        fun _ _ => ⟨rfl, encodeSchemaAnnotations_error hann⟩, _, rfl⟩
    | ok bytes =>
      simp only [hann, Prod.mk.injEq] at h
      obtain ⟨rfl, rfl⟩ := h
      have hmerge := feeds_schemaAnnotations owned
        (s := s.learn typeId entry.bare) hfits.annotations hann
      have hread := readable_schemaAnnotations
        (s := s.learn typeId entry.bare) hfits.annotations hann
      rw [DecoderState.mergeAnnotations_learn] at hmerge hread
      refine ⟨entry, ⟨⟨_, _, ?_, hschema.trans hmerge, rfl⟩, hkeeps entry,
        _, ?_, hreadable.trans hread⟩, fun _ => rfl, by simp, _, rfl⟩
      · simp [Encoder.write]
      · simp [Encoder.write]

theorem le_and_ne_of_succ_le_typeId {next id : WireTypeId} (hroom : next.toNat + 1 < 2 ^ 16)
    (h : next + 1 ≤ id) : next ≤ id ∧ id ≠ next := by
  rw [UInt16.le_iff_toNat_le, UInt16.toNat_add] at h
  have hone : (1 : UInt16).toNat = 1 := rfl
  rw [hone, Nat.mod_eq_of_lt hroom] at h
  refine ⟨?_, ?_⟩
  · rw [UInt16.le_iff_toNat_le]
    omega
  · rintro rfl
    omega

section

variable (h : Synced untimed e s)
include h

theorem Synced.learn (entry : SchemaEntry)
    (hnone : e.registry.get typeId = none) (hlow : ∀ id, e.registry.nextId ≤ id → id ≠ typeId) :
    Synced untimed e (s.learn typeId entry) := by
  refine { h with schemas := ?_, freeTypeIds := ?_ }
  · intro id known hknown
    obtain ⟨hget, ts, hinfo, htimed⟩ := h.schemas id known hknown
    have hne : id ≠ typeId := by
      rintro rfl
      rw [hnone] at hknown
      cases hknown
    refine ⟨?_, ts, ?_, htimed⟩
    · rw [DecoderState.learn, SchemaRegistry.get_set_ne _ _ hne, hget]
    · rw [DecoderState.learn_schemaInfo_ne _ _ hne, hinfo]
  · intro id hid
    rw [DecoderState.learn, SchemaRegistry.get_set_ne _ _ (hlow id hid)]
    exact h.freeTypeIds id hid

theorem Synced.allocate (entry : SchemaEntry)
    (hnone : e.registry.get e.registry.nextId = none)
    (hroom : e.registry.nextId.toNat + 1 < 2 ^ 16) :
    Synced untimed { e with registry := { e.registry with nextId := e.registry.nextId + 1 } }
      (s.learn e.registry.nextId entry) := by
  have hbump : Synced untimed
      { e with registry := { e.registry with nextId := e.registry.nextId + 1 } } s :=
    { h with freeTypeIds := fun id hid =>
        h.freeTypeIds id (le_and_ne_of_succ_le_typeId hroom hid).1 }
  exact hbump.learn entry hnone fun id hid => (le_and_ne_of_succ_le_typeId hroom hid).2

theorem Synced.adopt {id : WireTypeId} (hnone : e.registry.get id = none)
    (hget : s.registry.get id = some entry)
    (hinfo : s.schemaInfo id = some ⟨entry.fields.map fun field => field.fieldType.tag, true⟩) :
    Synced untimed { e with registry := e.registry.set id entry } s := by
  refine { h with schemas := ?_, freeTypeIds := h.freeTypeIds, handles := ?_ }
  · intro other known hknown
    by_cases hother : other = id
    · subst hother
      obtain rfl : entry = known := by simpa using hknown
      exact ⟨hget, true, hinfo, .inl rfl⟩
    · rw [SchemaRegistry.get_set_ne _ _ hother] at hknown
      exact h.schemas other known hknown
  · intro schema other hcached
    have hold := h.handles schema other hcached
    have hother : other ≠ id := by
      rintro rfl
      rw [hnone] at hold
      cases hold
    rw [SchemaRegistry.get_set_ne _ _ hother]
    exact hold

theorem Synced.cacheSchema {id : WireTypeId} (hget : e.registry.get id = some schema.entry) :
    Synced untimed (e.cacheSchema schema id) s := by
  refine { h with handles := ?_ }
  intro other otherId hcached
  by_cases hother : other = schema
  · subst hother
    obtain rfl : id = otherId := by simpa [Encoder.cacheSchema] using hcached
    exact hget
  · rw [Encoder.cacheSchema] at hcached
    dsimp only at hcached
    rw [AList.lookup_insert_ne hother] at hcached
    split at hcached
    · cases hcached
    · exact h.handles other otherId hcached

theorem Synced.get_nextId : e.registry.get e.registry.nextId = none := by
  cases hget : e.registry.get e.registry.nextId with
  | none => rfl
  | some entry =>
    have hfree := h.freeTypeIds e.registry.nextId (UInt16.le_refl _)
    rw [(h.schemas _ _ hget).1] at hfree
    cases hfree

end

theorem undisturbed_allocate (entry : SchemaEntry) (out : Bytes)
    (hroom : e.registry.nextId.toNat + 1 < 2 ^ 16) :
    Undisturbed e
      { e with registry := { e.registry with nextId := e.registry.nextId + 1 }, out := out } s
      (s.learn e.registry.nextId entry) where
  nextId := by
    rw [UInt16.le_iff_toNat_le, UInt16.toNat_add]
    have hone : (1 : UInt16).toNat = 1 := rfl
    rw [hone, Nat.mod_eq_of_lt hroom]
    omega
  entries _ _ := rfl
  known id hid := by
    have hne : id ≠ e.registry.nextId := UInt16.ne_of_lt hid
    exact ⟨SchemaRegistry.get_set_ne _ _ hne, DecoderState.learn_schemaInfo_ne _ _ hne⟩
  slotCache := rfl
  registeredIds := rfl
  typeIds _ := rfl

variable {result : Except Fault WireTypeId}

theorem ensureRegisteredSlow_follows (hsync : Synced untimed e s) (hfits : schema.entry.Fits)
    (h : e.ensureRegisteredSlow schema = (result, e')) :
    ∃ s', Follows e e' s s' [] ∧ Synced untimed e' s' ∧
      ∀ id, result = .ok id → e'.registry.get id = some schema.entry := by
  unfold Encoder.ensureRegisteredSlow at h
  cases hname : e.schemaIds.lookup (.name schema.entry.name) with
  | some wireId =>
    simp only [hname] at h
    cases hexisting : e.registry.get wireId with
    | none =>
      simp only [hexisting, Prod.mk.injEq] at h
      obtain ⟨rfl, rfl⟩ := h
      exact ⟨s, .refl _ _, hsync, by simp⟩
    | some existing =>
      simp only [hexisting] at h
      by_cases heq : existing = schema.entry
      · simp only [heq, if_true, Prod.mk.injEq] at h
        obtain ⟨rfl, rfl⟩ := h
        refine ⟨s, .refl _ _, hsync, ?_⟩
        rintro id hid
        obtain rfl := Except.ok.inj hid
        rw [hexisting, heq]
      · simp only [heq, if_false, Prod.mk.injEq] at h
        obtain ⟨rfl, rfl⟩ := h
        exact ⟨s, .refl _ _, hsync, by simp⟩
  | none =>
    simp only [hname] at h
    unfold SchemaRegistry.nextTypeId at h
    by_cases hroom : e.registry.nextId.toNat + 1 < 2 ^ 16
    · rw [if_pos hroom] at h
      dsimp only at h
      have hfree := hsync.freeTypeIds e.registry.nextId (UInt16.le_refl _)
      have hnone := hsync.get_nextId
      cases hwrite : Encoder.writeSchema
          { e with registry := { e.registry with nextId := e.registry.nextId + 1 } }
          e.registry.nextId schema.entry with
      | mk written e₁ =>
        obtain ⟨learned, hfed, hlearned, -, out, rfl⟩ :=
          writeSchema_follows hfits hfree hwrite
        have hsync₁ : Synced untimed { e with
            registry := { e.registry with nextId := e.registry.nextId + 1 }, out := out }
            (s.learn e.registry.nextId learned) :=
          { hsync.allocate learned hnone hroom with }
        have hfollows₁ : Follows e { e with
            registry := { e.registry with nextId := e.registry.nextId + 1 }, out := out } s
            (s.learn e.registry.nextId learned) [] :=
          { hfed with
            registered := fun _ _ hget => hget
            undisturbed := undisturbed_allocate learned out hroom }
        simp only [hwrite] at h
        cases written with
        | error fault =>
          simp only [Prod.mk.injEq] at h
          obtain ⟨rfl, rfl⟩ := h
          exact ⟨_, hfollows₁, hsync₁, by simp⟩
        | ok done =>
          obtain rfl := hlearned rfl
          simp only at h
          rw [SchemaRegistry.register_of_get_none _ (by exact hnone)] at h
          simp only [Prod.mk.injEq] at h
          obtain ⟨rfl, rfl⟩ := h
          have hadopt := hsync₁.adopt hnone (SchemaRegistry.get_set_self _ _ _)
            (DecoderState.learn_schemaInfo_self _ _ _)
          refine ⟨_, { hfed with registered := ?_, undisturbed := ?_ },
            { hadopt with }, ?_⟩
          · intro id entry hget
            have hne : id ≠ e.registry.nextId := by
              rintro rfl
              rw [hnone] at hget
              cases hget
            exact (SchemaRegistry.get_set_ne _ _ hne).trans hget
          · have hbase := undisturbed_allocate (s := s) schema.entry out hroom
            refine { hbase with entries := ?_, typeIds := ?_ }
            · intro id hid
              exact SchemaRegistry.get_set_ne _ _ (UInt16.ne_of_lt hid)
            · intro t
              exact AList.lookup_insert_ne (by simp)
          · rintro id hid
            obtain rfl := Except.ok.inj hid
            exact SchemaRegistry.get_set_self _ _ _
    · rw [if_neg hroom] at h
      simp only [Prod.mk.injEq] at h
      obtain ⟨rfl, rfl⟩ := h
      exact ⟨s, .refl _ _, hsync, by simp⟩

theorem ensureRegistered_follows (hsync : Synced untimed e s)
    (hfits : schema.entry.Fits) (h : e.ensureRegistered schema = (result, e')) :
    ∃ s', Follows e e' s s' [] ∧ Synced untimed e' s' ∧
      ∀ id, result = .ok id → e'.registry.get id = some schema.entry := by
  unfold Encoder.ensureRegistered at h
  cases hcached : e.dynamicSchemaCache.lookup schema with
  | some wireId =>
    simp only [hcached, Prod.mk.injEq] at h
    obtain ⟨rfl, rfl⟩ := h
    refine ⟨s, .refl _ _, hsync, ?_⟩
    rintro id hid
    obtain rfl := Except.ok.inj hid
    exact hsync.handles schema wireId hcached
  | none =>
    simp only [hcached] at h
    cases hslow : e.ensureRegisteredSlow schema with
    | mk slow e₁ =>
      simp only [hslow] at h
      cases slow with
      | error fault =>
        simp only [Prod.mk.injEq] at h
        obtain ⟨rfl, rfl⟩ := h
        obtain ⟨s', hfollows, hsync', -⟩ :=
          ensureRegisteredSlow_follows hsync hfits hslow
        exact ⟨s', hfollows, hsync', by simp⟩
      | ok wireId =>
        simp only [Prod.mk.injEq] at h
        obtain ⟨rfl, rfl⟩ := h
        obtain ⟨s', hfollows, hsync', hget⟩ :=
          ensureRegisteredSlow_follows hsync hfits hslow
        refine ⟨s', { hfollows with undisturbed := { hfollows.undisturbed with } },
          hsync'.cacheSchema (hget wireId rfl), hget⟩

/-! ## Event frames -/

theorem Synced.retime (h : Synced untimed e s) (ts : UInt64) (out : Bytes) :
    Synced untimed { e with timestampBaseNs := ts, out := out } { s with timestampBaseNs := ts } :=
  { h with base := rfl }

theorem DecoderState.extends_retime (s : DecoderState) (ts : UInt64) :
    s.Extends { s with timestampBaseNs := ts } :=
  ⟨fun _ _ h => h, fun _ _ h => h, fun _ _ h => h⟩

theorem Synced.schemaInfo (h : Synced untimed e s) (hget : e.registry.get typeId = some entry)
    (htimed : ¬ untimed entry) :
    s.schemaInfo typeId = some ⟨entry.fields.map fun field => field.fieldType.tag, true⟩ := by
  obtain ⟨-, ts, hinfo, rfl | huntimed⟩ := h.schemas typeId entry hget
  · exact hinfo
  · exact absurd huntimed htimed

variable {values : List FieldValue}

theorem writeEventFrame_follows {fields : Bytes} (hsync : Synced untimed e s)
    (hinfo : s.schemaInfo typeId =
      some ⟨entry.fields.map fun field => field.fieldType.tag, true⟩)
    (hvalues : Reads (forEach (decodeField owned)
      (entry.fields.map fun field => field.fieldType.tag)) fields values)
    (hrefs : ∃ refs, Reads (forEach (decodeField zeroCopy)
      (entry.fields.map fun field => field.fieldType.tag)) fields refs) (ts : UInt64) :
    Follows e (e.writeEventFrame typeId ts fields) s { s with timestampBaseNs := ts }
        [(.event typeId ts values, { s with timestampBaseNs := ts })] ∧
      Synced untimed (e.writeEventFrame typeId ts fields) { s with timestampBaseNs := ts } := by
  unfold Encoder.writeEventFrame Encoder.encodeTimestampDelta
  by_cases hreset : ts < e.timestampBaseNs ∨ maxTimestampDeltaNs < (ts - e.timestampBaseNs).toNat
  · simp only [hreset, if_true]
    have hfirst := feeds_timestampReset owned s ts
    have hevent := feeds_event owned (s := { s with timestampBaseNs := ts })
      hinfo (Nat.zero_le _) (checkedAdd_zero ts) hvalues
    have hread := (readable_timestampReset s ts).trans
      (readable_event (s := { s with timestampBaseNs := ts }) hinfo (Nat.zero_le _)
        (checkedAdd_zero ts) hvalues hrefs)
    refine ⟨⟨⟨⟨_, _, ?_, hfirst.trans hevent, rfl⟩, s.extends_retime ts, _, ?_, hread⟩,
      fun _ _ h => h, .of_schemas rfl rfl rfl rfl rfl rfl⟩, hsync.retime ts _⟩
    · simp [Encoder.write]
    · simp [Encoder.write]
  · simp only [hreset, if_false]
    obtain ⟨hle, hdelta⟩ := not_or.mp hreset
    have hbase : checkedAdd s.timestampBaseNs (ts - e.timestampBaseNs).toNat = some ts := by
      rw [hsync.base]
      exact checkedAdd_sub (UInt64.not_lt.mp hle)
    have hevent := feeds_event owned hinfo (Nat.le_of_not_lt hdelta) hbase hvalues
    have hread := readable_event hinfo (Nat.le_of_not_lt hdelta) hbase hvalues hrefs
    exact ⟨⟨⟨⟨_, _, rfl, hevent, rfl⟩, s.extends_retime ts, _, rfl, hread⟩, fun _ _ h => h,
      .of_schemas rfl rfl rfl rfl rfl rfl⟩, hsync.retime ts _⟩

/-- The values of an event have the shapes its schema encodes and fit the wire. -/
def ValuesFit (entry : SchemaEntry) (values : List FieldValue) : Prop :=
  ∀ pair ∈ values.zip entry.fields, pair.1.Matches pair.2.fieldType ∧
    (pair.1 = .none ∨ pair.1.Fits (maxDecodeRecursionDepth + 1))

theorem zip_fields (hlength : values.length = entry.fields.length) :
    entry.fields.map (fun field => field.fieldType.tag) =
        (values.zip entry.fields).map (fun pair => pair.2.fieldType.tag) ∧
      values = (values.zip entry.fields).map fun pair => pair.1 := by
  constructor
  · have hzip : (values.zip entry.fields).map Prod.snd = entry.fields :=
      List.map_snd_zip (by omega)
    conv_lhs => rw [← hzip, List.map_map]
    rfl
  · rw [List.map_fst_zip (by omega)]

theorem reads_encodeValues (hlength : values.length = entry.fields.length)
    (h : ValuesFit entry values) :
    Reads (forEach (decodeField owned) (entry.fields.map fun field => field.fieldType.tag))
      (Encoder.encodeValues entry values) values := by
  obtain ⟨hfields, hvalues⟩ := zip_fields hlength
  rw [hfields]
  conv_rhs => rw [hvalues]
  exact reads_forEach fun pair hpair => reads_writeFieldValue (h pair hpair).1 (h pair hpair).2

theorem exists_reads_encodeValues (hlength : values.length = entry.fields.length)
    (h : ValuesFit entry values) :
    ∃ refs, Reads (forEach (decodeField zeroCopy)
      (entry.fields.map fun field => field.fieldType.tag)) (Encoder.encodeValues entry values)
      refs := by
  rw [(zip_fields hlength).1]
  exact exists_reads_forEach fun pair hpair =>
    exists_reads_writeFieldValue (h pair hpair).1 (h pair hpair).2

theorem writeEvent_follows {ts : UInt64} {result : Except Fault Unit} (hsync : Synced untimed e s)
    (hfits : schema.entry.Fits) (hvalues : ValuesFit schema.entry values)
    (htimed : ¬ untimed schema.entry) (h : e.writeEvent schema ts values = (result, e')) :
    ∃ s' events, Follows e e' s s' events ∧ Synced untimed e' s' ∧
      (result = .ok () → ∃ typeId, s'.registry.get typeId = some schema.entry ∧
        events = [(.event typeId ts values, s')]) ∧
      (∀ fault, result = .error fault → events = []) := by
  unfold Encoder.writeEvent at h
  cases hensure : e.ensureRegistered schema with
  | mk ensured e₁ =>
    simp only [hensure] at h
    cases ensured with
    | error fault =>
      simp only [Prod.mk.injEq] at h
      obtain ⟨rfl, rfl⟩ := h
      obtain ⟨s', hfollows, hsync', -⟩ :=
        ensureRegistered_follows hsync hfits hensure
      exact ⟨s', [], hfollows, hsync', by simp, fun _ _ => rfl⟩
    | ok typeId =>
      obtain ⟨s', hfollows, hsync', hget⟩ :=
        ensureRegistered_follows hsync hfits hensure
      have hknown := hget typeId rfl
      by_cases hcount : values.length = schema.entry.fields.length
      · simp only [hcount, ne_eq, not_true_eq_false, if_false, Prod.mk.injEq] at h
        obtain ⟨rfl, rfl⟩ := h
        obtain ⟨hevent, hsync''⟩ := writeEventFrame_follows hsync'
          (hsync'.schemaInfo hknown htimed)
          (reads_encodeValues hcount hvalues) (exists_reads_encodeValues hcount hvalues) ts
        refine ⟨_, _, hfollows.quiet_trans hevent, hsync'', ?_, by simp⟩
        exact fun _ => ⟨typeId, (hsync'.schemas typeId _ hknown).1, rfl⟩
      · simp only [hcount, ne_eq, not_false_eq_true, if_true, Prod.mk.injEq] at h
        obtain ⟨rfl, rfl⟩ := h
        exact ⟨s', [], hfollows, hsync', by simp, fun _ _ => rfl⟩

/-! ## Interning -/

theorem le_and_ne_of_succ_le {next id : UInt32} (hroom : next.toNat + 1 < 2 ^ 32)
    (h : next + 1 ≤ id) : next ≤ id ∧ id ≠ next := by
  rw [UInt32.le_iff_toNat_le, UInt32.toNat_add] at h
  have hone : (1 : UInt32).toNat = 1 := rfl
  rw [hone, Nat.mod_eq_of_lt hroom] at h
  refine ⟨?_, ?_⟩
  · rw [UInt32.le_iff_toNat_le]
    omega
  · rintro rfl
    omega

theorem pool_insert {α : Type} [DecidableEq α] {ids : AList fun _ : α => UInt32}
    {pool : AList fun _ : UInt32 => α} {next : UInt32} (item : α)
    (hknown : ∀ known id, ids.lookup known = some id → pool.lookup id = some known)
    (hfree : ∀ id, next ≤ id → pool.lookup id = none) (hroom : next.toNat + 1 < 2 ^ 32) :
    (∀ id known, pool.lookup id = some known → (pool.insert next item).lookup id = some known) ∧
      (∀ known id, (ids.insert item next).lookup known = some id →
        (pool.insert next item).lookup id = some known) ∧
      ∀ id, next + 1 ≤ id → (pool.insert next item).lookup id = none := by
  have hkeep (id : UInt32) (known : α) (hlookup : pool.lookup id = some known) :
      (pool.insert next item).lookup id = some known := by
    have hne : id ≠ next := by
      rintro rfl
      rw [hfree id (UInt32.le_refl _)] at hlookup
      cases hlookup
    rw [AList.lookup_insert_ne hne, hlookup]
  refine ⟨hkeep, fun known id hlookup => ?_, fun id hid => ?_⟩
  · by_cases heq : known = item
    · subst heq
      obtain rfl : next = id := by simpa using hlookup
      exact AList.lookup_insert _
    · rw [AList.lookup_insert_ne heq] at hlookup
      exact hkeep id known (hknown known id hlookup)
  · obtain ⟨hle, hne⟩ := le_and_ne_of_succ_le hroom hid
    rw [AList.lookup_insert_ne hne]
    exact hfree id hle

variable {result : Except Fault UInt32}

theorem internString_follows {text : Text}
    (hsync : Synced untimed e s) (hfits : text.bytes.length < 2 ^ 32)
    (h : e.internString text = (result, e')) :
    ∃ s', Follows e e' s s' [] ∧ Synced untimed e' s' ∧
      ∀ id, result = .ok id → s'.stringPool.lookup id = some text := by
  unfold Encoder.internString at h
  cases hknown : e.stringPool.lookup text with
  | some id =>
    simp only [hknown, Prod.mk.injEq] at h
    obtain ⟨rfl, rfl⟩ := h
    refine ⟨s, .refl _ _, hsync, ?_⟩
    rintro id' hid
    obtain rfl := Except.ok.inj hid
    exact hsync.stringPool text id hknown
  | none =>
    simp only [hknown] at h
    by_cases hroom : e.nextPoolId.toNat + 1 < 2 ^ 32
    · simp only [hroom, if_true, Prod.mk.injEq] at h
      obtain ⟨rfl, rfl⟩ := h
      obtain ⟨hkeep, hknown, hfree⟩ := pool_insert text hsync.stringPool hsync.freePoolIds hroom
      have hinsert : (s.insertStrings [⟨e.nextPoolId, text.bytes⟩]).stringPool =
          s.stringPool.insert e.nextPoolId text := by
        simp [DecoderState.insertStrings, DecoderState.insertString]
      rw [← hinsert] at hkeep hknown hfree
      have hread : Readable s (encodeStringPool [⟨e.nextPoolId, text.bytes⟩])
          (s.insertStrings [⟨e.nextPoolId, text.bytes⟩]) :=
        (readable_stringPool (by simp) (List.forall_mem_singleton.mpr hfits)).repool
          (s.insertStrings [⟨e.nextPoolId, text.bytes⟩])
      refine ⟨s.insertStrings [⟨e.nextPoolId, text.bytes⟩],
        ⟨⟨⟨_, _, rfl, feeds_stringPool owned (by simp) (List.forall_mem_singleton.mpr hfits), rfl⟩,
          ⟨fun _ _ h => h, hkeep, fun _ _ h => h⟩, _, rfl, hread⟩, fun _ _ h => h,
          .of_schemas rfl rfl rfl rfl rfl rfl⟩,
        { hsync with stringPool := hknown, freePoolIds := hfree }, ?_⟩
      rintro id hid
      obtain rfl := Except.ok.inj hid
      exact hknown text _ (AList.lookup_insert _)
    · simp only [hroom, if_false, Prod.mk.injEq] at h
      obtain ⟨rfl, rfl⟩ := h
      exact ⟨s, .refl _ _, hsync, by simp⟩

theorem internStackFrames_follows {frames : List UInt64}
    (hsync : Synced untimed e s) (hfits : frames.length < 2 ^ 32)
    (h : e.internStackFrames frames = (result, e')) :
    ∃ s', Follows e e' s s' [] ∧ Synced untimed e' s' ∧
      ∀ id, result = .ok id → s'.stackPool.lookup id = some frames := by
  unfold Encoder.internStackFrames at h
  cases hknown : e.stackPool.lookup frames with
  | some id =>
    simp only [hknown, Prod.mk.injEq] at h
    obtain ⟨rfl, rfl⟩ := h
    refine ⟨s, .refl _ _, hsync, ?_⟩
    rintro id' hid
    obtain rfl := Except.ok.inj hid
    exact hsync.stackPool frames id hknown
  | none =>
    simp only [hknown] at h
    by_cases hroom : e.nextStackPoolId.toNat + 1 < 2 ^ 32
    · simp only [hroom, if_true, Prod.mk.injEq] at h
      obtain ⟨rfl, rfl⟩ := h
      obtain ⟨hkeep, hknown, hfree⟩ :=
        pool_insert frames hsync.stackPool hsync.freeStackPoolIds hroom
      have hread : Readable s (encodeStackPool [⟨e.nextStackPoolId, frames⟩])
          (s.insertStacks [⟨e.nextStackPoolId, frames⟩]) :=
        (readable_stackPool (by simp) (List.forall_mem_singleton.mpr hfits)).repool
          (s.insertStacks [⟨e.nextStackPoolId, frames⟩])
      refine ⟨s.insertStacks [⟨e.nextStackPoolId, frames⟩],
        ⟨⟨⟨_, _, rfl, feeds_stackPool hfits, rfl⟩,
          ⟨fun _ _ h => h, fun _ _ h => h, hkeep⟩, _, rfl, hread⟩, fun _ _ h => h,
          .of_schemas rfl rfl rfl rfl rfl rfl⟩,
        { hsync with stackPool := hknown, freeStackPoolIds := hfree }, ?_⟩
      rintro id hid
      obtain rfl := Except.ok.inj hid
      exact hknown frames _ (AList.lookup_insert _)
    · simp only [hroom, if_false, Prod.mk.injEq] at h
      obtain ⟨rfl, rfl⟩ := h
      exact ⟨s, .refl _ _, hsync, by simp⟩

end Dial9.TraceFormat
