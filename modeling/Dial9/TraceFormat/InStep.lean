/-
# An encoder in step with its decoder, registration by registration

A registration may end between its schema frame and its annotation frame, and
be tried again. The decoder then knows the schema without its annotations until
the slot is registered for good. `InStep` allows for that, and is kept by every
request; what was interned keeps its meaning throughout.
-/

import Dial9.TraceFormat.WireIds

namespace Dial9.TraceFormat

open Dial9.Lib Dial9.Lib.Reader

variable {program : Program} {untimed : SchemaEntry → Prop}

/-! ## What the decoder takes in -/

/-- A stretch of encoding, as the decoder reads it: the events it shows, and
every id interned before it keeps what it stands for. Either decoder passes it. -/
structure Absorbed (e e' : Encoder) (s s' : DecoderState)
    (events : StateLog FieldValue (List UInt64)) : Prop where
  fed : ∃ bytes log, e'.out = e.out ++ bytes ∧ Feeds owned s bytes log s' ∧ eventsOf log = events
  strings : ∀ id text, s.stringPool.lookup id = some text → s'.stringPool.lookup id = some text
  frames : ∀ id frames, s.stackPool.lookup id = some frames → s'.stackPool.lookup id = some frames
  readable : ∃ bytes, e'.out = e.out ++ bytes ∧ Readable s bytes s'

variable {events : StateLog FieldValue (List UInt64)} {id : WireTypeId}

variable {e e' : Encoder}

variable {s s' : DecoderState}

theorem Fed.absorbed (h : Fed e e' s s' events) : Absorbed e e' s s' events :=
  ⟨h.fed, h.keeps.stringPool, h.keeps.stackPool, h.readable⟩

theorem Absorbed.trans {e e' e'' : Encoder} {s s' s'' : DecoderState}
    {events events' : StateLog FieldValue (List UInt64)} (h : Absorbed e e' s s' events)
    (h' : Absorbed e' e'' s' s'' events') : Absorbed e e'' s s'' (events ++ events') := by
  obtain ⟨bytes, log, hout, hfeeds, hevents⟩ := h.fed
  obtain ⟨bytes', log', hout', hfeeds', hevents'⟩ := h'.fed
  obtain ⟨read, hread, hreadable⟩ := h.readable
  obtain ⟨read', hread', hreadable'⟩ := h'.readable
  refine ⟨⟨bytes ++ bytes', log ++ log', ?_, hfeeds.trans hfeeds', ?_⟩, ?_, ?_,
    read ++ read', ?_, hreadable.trans hreadable'⟩
  · rw [hout', hout, List.append_assoc]
  · rw [eventsOf_append, hevents, hevents']
  · exact fun id text hlookup => h'.strings id text (h.strings id text hlookup)
  · exact fun id frames hlookup => h'.frames id frames (h.frames id frames hlookup)
  · rw [hread', hread, List.append_assoc]

theorem Interned.ResolvedBy.absorbed {known : Interned}
    (h : known.ResolvedBy s) (habsorbed : Absorbed e e' s s' events) : known.ResolvedBy s' :=
  ⟨fun pair hpair => habsorbed.strings _ _ (h.strings pair hpair),
    fun pair hpair => habsorbed.frames _ _ (h.frames pair hpair)⟩

theorem Absorbed.silent (hout : e'.out = e.out) (s : DecoderState) : Absorbed e e' s s [] :=
  (Fed.silent hout s).absorbed

/-! ## Schema frames at one id -/

namespace DecoderState

/-- The states differ at most in the schema of one id. -/
structure SameBut (id : WireTypeId) (s s' : DecoderState) : Prop where
  registry : ∀ other, other ≠ id → s'.registry.get other = s.registry.get other
  schemaInfo : ∀ other, other ≠ id → s'.schemaInfo other = s.schemaInfo other
  stringPool : s'.stringPool = s.stringPool
  stackPool : s'.stackPool = s.stackPool
  base : s'.timestampBaseNs = s.timestampBaseNs

theorem SameBut.trans {s s' s'' : DecoderState} (h : SameBut id s s') (h' : SameBut id s' s'') :
    SameBut id s s'' where
  registry other hother := (h'.registry other hother).trans (h.registry other hother)
  schemaInfo other hother := (h'.schemaInfo other hother).trans (h.schemaInfo other hother)
  stringPool := h'.stringPool.trans h.stringPool
  stackPool := h'.stackPool.trans h.stackPool
  base := h'.base.trans h.base

end DecoderState

theorem DecoderState.SameBut.absorbed {bytes : Bytes}
    {log : StateLog FieldValue (List UInt64)} (h : s.SameBut id s')
    (hout : e'.out = e.out ++ bytes) (hfeeds : Feeds owned s bytes log s')
    (hread : Readable s bytes s') (hquiet : eventsOf log = []) : Absorbed e e' s s' [] where
  fed := ⟨bytes, log, hout, hfeeds, hquiet⟩
  readable := ⟨bytes, hout, hread⟩
  strings _ _ hlookup := by rw [h.stringPool]; exact hlookup
  frames _ _ hlookup := by rw [h.stackPool]; exact hlookup

variable {entry : SchemaEntry}

variable {s : DecoderState}

theorem feeds_declaration (hfits : entry.Fits)
    (hfree : s.registry.get id = none ∨ s.registry.get id = some entry.bare) :
    ∃ s', Feeds owned s (encodeSchema id entry) [(.schema entry.bare, s')] s' ∧
      Readable s (encodeSchema id entry) s' ∧ s.SameBut id s' ∧
      s'.registry.get id = some entry.bare ∧
      s'.schemaCache id = some (DecoderState.schemaCacheOf entry.bare true) := by
  obtain ⟨grown, hregister, -, hget⟩ := SchemaRegistry.register_of_free hfree
  have hfeeds := feeds_schema owned hfits hregister
  have hread := readable_schema hfits hregister
  simp only [DecoderState.registerSchema, hregister] at hfeeds hread
  refine ⟨_, hfeeds, hread, ⟨?_, ?_, rfl, rfl, rfl⟩, ?_, Function.update_self ..⟩
  · intro other hother
    exact (hget other).trans (if_neg hother)
  · intro other hother
    simp only [DecoderState.schemaInfo, Function.update_of_ne hother]
  · exact (hget id).trans (if_pos rfl)

theorem feeds_annotations {bytes : Bytes} (hfits : entry.Fits)
    (hencode : encodeSchemaAnnotations id entry.annotations = .ok bytes)
    (hget : s.registry.get id = some entry.bare)
    (hcache : s.schemaCache id = some (DecoderState.schemaCacheOf entry.bare true)) :
    ∃ s', Feeds owned s bytes [(.schemaAnnotations id entry.annotations, s')] s' ∧
      Readable s bytes s' ∧ s.SameBut id s' ∧ s'.registry.get id = some entry ∧
      s'.schemaInfo id = some ⟨entry.fields.map fun field => field.fieldType.tag, true⟩ := by
  have hmerged : DecoderState.annotate entry.bare entry.annotations = entry := by
    simp [DecoderState.annotate, SchemaEntry.bare]
  refine ⟨_, feeds_schemaAnnotations owned hfits.annotations hencode,
    readable_schemaAnnotations hfits.annotations hencode, ⟨?_, ?_, rfl, rfl, rfl⟩, ?_, ?_⟩
  · intro other hother
    simp only [DecoderState.mergeAnnotations, hget]
    exact SchemaRegistry.get_set_ne _ _ hother
  · intro other hother
    simp only [DecoderState.mergeAnnotations, hcache, DecoderState.schemaInfo,
      Function.update_of_ne hother]
  · simp only [DecoderState.mergeAnnotations, hget, SchemaRegistry.get_set_self, hmerged]
  · simp only [DecoderState.mergeAnnotations, hcache, DecoderState.schemaInfo,
      Function.update_self, Option.map_some]
    rfl

theorem writeSchema_absorbed {result : Except Fault Unit}
    (hfits : entry.Fits) (hfree : s.registry.get id = none ∨ s.registry.get id = some entry.bare)
    (h : e.writeSchema id entry = (result, e')) :
    ∃ s', Absorbed e e' s s' [] ∧ s.SameBut id s' ∧
      (result = .ok () → s'.registry.get id = some entry ∧
        s'.schemaInfo id = some ⟨entry.fields.map fun field => field.fieldType.tag, true⟩) ∧
      ∀ fault, result = .error fault →
        s'.registry.get id = some entry.bare ∧ entry.annotations ≠ [] := by
  obtain ⟨s₁, hfeeds, hread, hsame, hget, hcache⟩ := feeds_declaration hfits hfree
  unfold Encoder.writeSchema at h
  by_cases hnone : entry.annotations = []
  · have hbare : entry.bare = entry := by
      cases entry
      simp_all [SchemaEntry.bare]
    rw [if_pos hnone] at h
    obtain ⟨rfl, rfl⟩ := Prod.mk.inj h
    refine ⟨s₁, hsame.absorbed rfl hfeeds hread rfl, hsame, fun _ => ⟨hbare ▸ hget, ?_⟩, ?_⟩
    · rw [DecoderState.schemaInfo, hcache]
      rfl
    · intro fault hfault
      cases hfault
  · rw [if_neg hnone] at h
    cases hencode : encodeSchemaAnnotations id entry.annotations with
    | error message =>
      rw [hencode] at h
      obtain ⟨rfl, rfl⟩ := Prod.mk.inj h
      refine ⟨s₁, hsame.absorbed rfl hfeeds hread rfl, hsame, ?_, fun _ _ => ⟨hget, hnone⟩⟩
      intro hok
      cases hok
    | ok bytes =>
      rw [hencode] at h
      obtain ⟨rfl, rfl⟩ := Prod.mk.inj h
      obtain ⟨s₂, hfeeds₂, hread₂, hsame₂, hget₂, hinfo₂⟩ :=
        feeds_annotations hfits hencode hget hcache
      have hboth := hsame.trans hsame₂
      refine ⟨s₂, hboth.absorbed ?_ (hfeeds.trans hfeeds₂) (hread.trans hread₂) rfl, hboth,
        fun _ => ⟨hget₂, hinfo₂⟩, ?_⟩
      · simp only [Encoder.write, List.append_assoc]
      · intro fault hfault
        cases hfault

/-! ## The invariant -/

/-- The encoder's caches agree with its registry, the decoder knows what is
registered, and of a slot that is not registered it knows at most the schema
without its annotations. -/
structure InStep (program : Program) (untimed : SchemaEntry → Prop) (e : Encoder)
    (s : DecoderState) : Prop extends Synced untimed e s where
  settled : Settled program e
  written : ∀ t, (program.types t).Fast → e.registeredIds (program.types t).typeSlot = true →
    s.schemaInfo (program.types t).typeSlot = some (program.types t).info
  unwritten : ∀ t, (program.types t).Fast → e.registry.get (program.types t).typeSlot = none →
    s.registry.get (program.types t).typeSlot = none ∨
      s.registry.get (program.types t).typeSlot = some (program.types t).schemaEntry.bare

namespace InStep

variable {e e' : Encoder} {s s' : DecoderState} {t : Nat}

section

variable (h : InStep program untimed e s)
include h

theorem fast_lt (hfast : (program.types t).Fast) : (program.types t).typeSlot < e.registry.nextId :=
  UInt16.lt_of_lt_of_le hfast.2 h.settled.low

theorem of_follows (hfollows : Follows e e' s s' events)
    (hsync : Synced untimed e' s') (hsettled : Settled program e') :
    InStep program untimed e' s' := by
  have hkeep := hfollows.undisturbed
  refine ⟨hsync, hsettled, ?_, ?_⟩
  · intro t hfast hwritten
    rw [hkeep.registeredIds] at hwritten
    exact ((hkeep.known _ (h.fast_lt hfast)).2).trans (h.written t hfast hwritten)
  · intro t hfast hnone
    rw [hkeep.entries _ (h.fast_lt hfast)] at hnone
    rw [(hkeep.known _ (h.fast_lt hfast)).1]
    exact h.unwritten t hfast hnone

theorem at_slot (hfast : (program.types t).Fast)
    {out : Bytes} {grown : SchemaRegistry} {marks : UInt16 → Bool}
    (hsettled : Settled program { e with out := out, registry := grown, registeredIds := marks })
    (hsame : s.SameBut (program.types t).typeSlot s')
    (hnext : grown.nextId = e.registry.nextId)
    (hothers : ∀ id, id ≠ (program.types t).typeSlot →
      grown.get id = e.registry.get id ∧ marks id = e.registeredIds id)
    (hknows : ∀ entry, grown.get (program.types t).typeSlot = some entry →
      s'.Knows untimed (program.types t).typeSlot entry)
    (hwritten : marks (program.types t).typeSlot = true →
      s'.schemaInfo (program.types t).typeSlot = some (program.types t).info)
    (hunwritten : grown.get (program.types t).typeSlot = none →
      s'.registry.get (program.types t).typeSlot = none ∨
        s'.registry.get (program.types t).typeSlot = some (program.types t).schemaEntry.bare) :
    InStep program untimed { e with out := out, registry := grown, registeredIds := marks } s' := by
  have hsync :
      Synced untimed { e with out := out, registry := grown, registeredIds := marks } s' := by
    refine ⟨?_, ?_, ?_, ?_, ?_, ?_, ?_, ?_⟩
    · rw [hsame.base]
      exact h.base
    · intro id entry hget
      by_cases hid : id = (program.types t).typeSlot
      · subst hid
        exact hknows entry hget
      · obtain ⟨hknown, ts, hinfo, htimed⟩ :=
          h.schemas id entry ((hothers id hid).1.symm.trans hget)
        exact ⟨(hsame.registry id hid).trans hknown, ts,
          (hsame.schemaInfo id hid).trans hinfo, htimed⟩
    · intro id hid
      dsimp only at hid
      rw [hnext] at hid
      have hne : id ≠ (program.types t).typeSlot := by
        rintro rfl
        exact absurd (h.fast_lt hfast) (UInt16.not_lt.mpr hid)
      exact (hsame.registry id hne).trans (h.freeTypeIds id hid)
    · intro schema id hlookup
      exact (hsettled.handles schema id hlookup).2
    · rw [hsame.stringPool]
      exact h.stringPool
    · rw [hsame.stringPool]
      exact h.freePoolIds
    · rw [hsame.stackPool]
      exact h.stackPool
    · rw [hsame.stackPool]
      exact h.freeStackPoolIds
  refine ⟨hsync, hsettled, ?_, ?_⟩
  · intro u hu hmarked
    by_cases hslot : (program.types u).typeSlot = (program.types t).typeSlot
    · obtain rfl := program.slots_distinct u t hslot hu.1
      exact hwritten hmarked
    · have hmark := (hothers _ hslot).2.symm.trans hmarked
      exact (hsame.schemaInfo _ hslot).trans (h.written u hu hmark)
  · intro u hu hnone
    by_cases hslot : (program.types u).typeSlot = (program.types t).typeSlot
    · obtain rfl := program.slots_distinct u t hslot hu.1
      exact hunwritten hnone
    · rw [hsame.registry _ hslot]
      exact h.unwritten u hu ((hothers _ hslot).1.symm.trans hnone)

/-! ## Requests -/

theorem handle (schema : Schema) (hfits : schema.entry.Fits) :
    ∃ s', Absorbed e (e.ensureRegistered schema).2 s s' [] ∧
      InStep program untimed (e.ensureRegistered schema).2 s' := by
  obtain ⟨s', hfollows, hsync, -⟩ := ensureRegistered_follows h.toSynced hfits rfl
  have hsettled := (h.settled.binds_handle schema).settled
  exact ⟨s', hfollows.toFed.absorbed, h.of_follows hfollows hsync hsettled⟩

theorem declarable (hfast : (program.types t).Fast)
    (husable : e.registry.get (program.types t).typeSlot = none ∨
      e.registry.get (program.types t).typeSlot = some (program.types t).schemaEntry ∧
        (program.types t).schemaEntry.annotations = []) :
    s.registry.get (program.types t).typeSlot = none ∨
      s.registry.get (program.types t).typeSlot = some (program.types t).schemaEntry.bare := by
  obtain hnone | ⟨hget, hplain⟩ := husable
  · exact h.unwritten t hfast hnone
  · right
    have hbare : (program.types t).schemaEntry.bare = (program.types t).schemaEntry := by
      cases hentry : (program.types t).schemaEntry
      simp_all [SchemaEntry.bare]
    rw [hbare]
    exact (h.schemas _ _ hget).1

/-- A slot is claimed: its schema frame, its annotations, and the registration. -/
theorem claim (hfast : (program.types t).Fast) (hfits : (program.types t).schemaEntry.Fits)
    (hunwritten : e.registeredIds (program.types t).typeSlot = false)
    (husable : e.registry.get (program.types t).typeSlot = none ∨
      e.registry.get (program.types t).typeSlot = some (program.types t).schemaEntry ∧
        (program.types t).schemaEntry.annotations = []) :
    ∃ s', Absorbed e (e.registerFastId (program.types t)).2 s s' [] ∧
      InStep program untimed (e.registerFastId (program.types t)).2 s' ∧
      ((e.registerFastId (program.types t)).1 = .ok () →
        s'.schemaInfo (program.types t).typeSlot = some (program.types t).info) := by
  have hregistry : e.registry.get (program.types t).typeSlot = none ∨
      e.registry.get (program.types t).typeSlot = some (program.types t).schemaEntry :=
    husable.imp_right And.left
  obtain ⟨result, e', hcall, hbinds⟩ := h.settled.binds_slot hfast hregistry
  have hsettled := hbinds.settled
  rw [hcall]
  unfold Encoder.registerFastId at hcall
  cases hwrite : e.writeSchema (program.types t).typeSlot (program.types t).schemaEntry with
  | mk wrote e₁ =>
    obtain ⟨s', habsorbed, hsame, hok, herror⟩ :=
      writeSchema_absorbed hfits (h.declarable hfast husable) hwrite
    obtain ⟨_, hbytes, -⟩ := e.writeSchema_eq (program.types t).typeSlot
      (program.types t).schemaEntry
    rw [hwrite] at hcall hbytes
    obtain rfl := (Prod.mk.inj hbytes).2
    refine ⟨s', ?_⟩
    cases wrote with
    | error fault =>
      obtain ⟨rfl, rfl⟩ := Prod.mk.inj hcall
      obtain ⟨hbare, hannotated⟩ := herror fault rfl
      refine ⟨habsorbed, h.at_slot hfast hsettled hsame rfl (fun _ _ => ⟨rfl, rfl⟩) ?_ ?_ ?_,
        fun hok => by cases hok⟩
      · intro entry hget
        obtain hnone | ⟨-, hplain⟩ := husable
        · rw [hnone] at hget
          cases hget
        · exact absurd hplain hannotated
      · intro hmarked
        rw [hunwritten] at hmarked
        cases hmarked
      · exact fun _ => .inr hbare
    | ok done =>
      obtain ⟨hknown, hinfo⟩ := hok rfl
      obtain ⟨grown, hregister, hnext, hget⟩ := SchemaRegistry.register_of_free hregistry
      dsimp only [Encoder.write] at hcall
      rw [hregister] at hcall
      obtain ⟨-, rfl⟩ := Prod.mk.inj hcall
      have hself := (hget (program.types t).typeSlot).trans (if_pos rfl)
      refine ⟨{ habsorbed with },
        h.at_slot hfast hsettled hsame hnext ?_ ?_ ?_ ?_, fun _ => hinfo⟩
      · intro id hid
        exact ⟨(hget id).trans (if_neg hid), Function.update_of_ne hid _ _⟩
      · intro entry hentry
        obtain rfl := Option.some.inj (hself.symm.trans hentry)
        exact ⟨hknown, true, hinfo, .inl rfl⟩
      · exact fun _ => hinfo
      · intro hnone
        rw [hself] at hnone
        cases hnone

theorem recache {ids : AList fun _ : SchemaKey => WireTypeId}
    {slots : List UInt32}
    (hsettled : Settled program { e with schemaIds := ids, slotCache := slots }) :
    InStep program untimed { e with schemaIds := ids, slotCache := slots } s :=
  ⟨{ h.toSynced with }, hsettled, h.written, h.unwritten⟩

theorem dynamic (identity : Nat) (hfits : (program.types t).schemaEntry.Fits) :
    ∃ s', Absorbed e (e.resolveDynamicWireId identity t (program.types t)).2 s s' [] ∧
      InStep program untimed (e.resolveDynamicWireId identity t (program.types t)).2 s' := by
  have hsettled := (h.settled.binds_dynamic identity t).settled
  revert hsettled
  unfold Encoder.resolveDynamicWireId
  cases e.schemaIds.lookup (.rustType t) with
  | some existing =>
    intro hsettled
    dsimp only at hsettled ⊢
    rw [Encoder.cacheSlot_eq] at hsettled ⊢
    refine ⟨s, .silent ?_ s, h.recache hsettled⟩
    rfl
  | none =>
    obtain ⟨s', habsorbed, hnext⟩ :=
      h.handle ⟨identity, (program.types t).schemaEntry⟩ hfits
    revert habsorbed hnext
    cases e.ensureRegistered ⟨identity, (program.types t).schemaEntry⟩ with
    | mk result e₁ =>
      intro habsorbed hnext hsettled
      cases result with
      | error fault => exact ⟨s', habsorbed, hnext⟩
      | ok id =>
        dsimp only at hsettled habsorbed hnext ⊢
        rw [Encoder.cacheSlot_eq] at hsettled ⊢
        exact ⟨s', { habsorbed with },
          hnext.recache hsettled⟩

end

end InStep

namespace Request

variable (program) (untimed)

/-- The slot that is claimed is free, or declared already and without annotations. -/
def Usable (e : Encoder) (request : Request) : Prop :=
  request.Claims program e → e.registry.get (request.slot program) = none ∨
    e.registry.get (request.slot program) = some (request.entry program) ∧
      (request.entry program).annotations = []

/-- The decoder reads a packed timestamp under the id of the request. -/
def Timed : Request → Prop
  | handle schema => ¬ untimed schema.entry
  | typed _ t => ¬ (program.types t).Fast → ¬ untimed (program.types t).schemaEntry

end Request

theorem Request.Usable.slotFree {e : Encoder} {request : Request}
    (h : request.Usable program e) : request.SlotFree program e :=
  fun hclaims => (h hclaims).imp_right And.left

/-- Every request leaves the decoder in step, and an id it is answered means its
definition to the decoder. -/
theorem InStep.resolve {e : Encoder} (h : InStep program untimed e s)
    {request : Request} (hfits : (request.entry program).Fits)
    (husable : request.Usable program e) :
    ∃ s', Absorbed e (request.resolve program e).2 s s' [] ∧
      InStep program untimed (request.resolve program e).2 s' ∧
      ∀ id, (request.resolve program e).1 = .ok id →
        s'.registry.get id = some (request.entry program) ∧
        (request.Timed program untimed → s'.schemaInfo id =
          some ⟨(request.entry program).fields.map fun field => field.fieldType.tag, true⟩) := by
  have hused := (h.settled.binds request husable.slotFree).used
  have hanswer : ∀ {e' s'}, InStep program untimed e' s' →
      ¬ untimed (request.entry program) → ∀ {id : WireTypeId},
      e'.registry.get id = some (request.entry program) → s'.schemaInfo id =
        some ⟨(request.entry program).fields.map fun field => field.fieldType.tag, true⟩ :=
    fun hstep htimed _ hget => hstep.toSynced.schemaInfo hget htimed
  cases request with
  | handle schema =>
    obtain ⟨s', habsorbed, hnext⟩ := h.handle schema hfits
    refine ⟨s', habsorbed, hnext, fun id hid => ?_⟩
    have hget := hused id hid
    exact ⟨(hnext.schemas _ _ hget).1, fun htimed => hanswer hnext htimed hget⟩
  | typed identity t =>
    unfold Request.resolve Encoder.wireIdOf at hused ⊢
    by_cases hfast : (program.types t).Fast
    · have hslot : (program.types t).typeSlot ≠ 0 ∧
          (program.types t).typeSlot < staticWireIdLimit := hfast
      simp only [if_pos hslot] at hused ⊢
      cases hwritten : e.registeredIds (program.types t).typeSlot with
      | true =>
        simp only [if_true]
        refine ⟨s, .silent rfl s, h, fun id hid => ?_⟩
        obtain rfl := Except.ok.inj hid
        have hget := h.settled.written t hfast hwritten
        exact ⟨(h.schemas _ _ hget).1, fun _ => h.written t hfast hwritten⟩
      | false =>
        simp only [hwritten, Bool.false_eq_true, if_false] at hused ⊢
        obtain ⟨s', habsorbed, hnext, hinfo⟩ :=
          h.claim hfast hfits hwritten (husable ⟨hfast, hwritten⟩)
        revert habsorbed hnext hinfo hused
        cases e.registerFastId (program.types t) with
        | mk result e₁ =>
          intro hused habsorbed hnext hinfo
          cases result with
          | error fault => exact ⟨s', habsorbed, hnext, fun id hid => by cases hid⟩
          | ok done =>
            refine ⟨s', habsorbed, hnext, fun id hid => ?_⟩
            obtain rfl := Except.ok.inj hid
            exact ⟨(hnext.schemas _ _ (hused _ rfl)).1, fun _ => hinfo rfl⟩
    · have hslot : ¬ ((program.types t).typeSlot ≠ 0 ∧
          (program.types t).typeSlot < staticWireIdLimit) := hfast
      simp only [if_neg hslot] at hused ⊢
      by_cases hunset : e.slotCache.getD (program.types t).typeSlot.toNat 0 = 0
      · simp only [hunset, ne_eq, not_true_eq_false, if_false] at hused ⊢
        obtain ⟨s', habsorbed, hnext⟩ := h.dynamic identity hfits
        refine ⟨s', habsorbed, hnext, fun id hid => ?_⟩
        have hget := hused id hid
        exact ⟨(hnext.schemas _ _ hget).1, fun htimed => hanswer hnext (htimed hfast) hget⟩
      · simp only [hunset, ne_eq, not_false_eq_true, if_true] at hused ⊢
        refine ⟨s, .silent rfl s, h, fun id hid => ?_⟩
        have hget := hused id hid
        exact ⟨(h.schemas _ _ hget).1, fun htimed => hanswer h (htimed hfast) hget⟩

/-! ## Commands -/

variable {command : Command program}

variable {e : Encoder}

theorem Command.Appendable.request {request : Request}
    (h : command.Appendable untimed e) (hrequest : command.request = some request) :
    (request.entry program).Fits ∧ request.Usable program e := by
  cases command with
  | op action =>
    obtain ⟨hadm, hlen, -⟩ := h
    cases action with
    | registerSchema _ _ _ | registerExisting _ =>
      obtain rfl := Option.some.inj hrequest
      exact ⟨hadm.fits hlen, fun hclaims => hclaims.elim⟩
    | writeEvent schema ts values =>
      obtain rfl := Option.some.inj hrequest
      exact ⟨hadm.1.fits hlen.1, fun hclaims => hclaims.elim⟩
    | internString _ | internStackFrames _ => cases hrequest
  | write identity event =>
    obtain rfl := Option.some.inj hrequest
    obtain ⟨hfits, -, husable⟩ := h
    refine ⟨hfits, ?_⟩
    rintro ⟨hfast, hunwritten⟩
    obtain hwritten | hfree := husable.1 hfast
    · have hboth := hwritten.symm.trans hunwritten
      cases hboth
    · exact hfree
  | writeStringPool _ | writeStackPool _ => cases hrequest

theorem Command.Appendable.slotFree (h : command.Appendable untimed e) : command.SlotFree e :=
  fun _ hrequest => (h.request hrequest).2.slotFree

variable {known : Interned}

namespace InStep

section

variable (h : InStep program untimed e s)
include h

theorem perform (happend : command.Appendable untimed e) (hknown : known.ResolvedBy s) :
    ∃ s' events, Absorbed e (command.perform e).2 s s' events ∧
      InStep program untimed (command.perform e).2 s' ∧
      (∀ response, (command.perform e).1 = .ok response →
        (command.after known response).ResolvedBy s' ∧
          List.Forall₂ Written.IsDecodedAs (command.written known) events) ∧
      ∀ fault, (command.perform e).1 = .error fault → events = [] := by
  have hsettled := h.settled.perform happend.slotFree
  cases command with
  | op action =>
    obtain ⟨hadm, hlen, htimed⟩ := happend
    obtain ⟨s', events, hfollows, hsync, hok, herror⟩ :=
      perform_follows h.toSynced hadm hlen htimed hknown rfl
    exact ⟨s', events, hfollows.toFed.absorbed, h.of_follows hfollows hsync hsettled, hok, herror⟩
  | write identity event =>
    obtain ⟨hfits, husable⟩ := happend.request rfl
    obtain ⟨-, hfields, htimed⟩ := happend
    obtain ⟨s', habsorbed, hnext, hanswer⟩ := h.resolve hfits husable
    revert habsorbed hnext hanswer hsettled
    simp only [Command.perform, Encoder.respond, Encoder.writeTyped, Request.resolve,
      TraceEvent.type]
    cases e.wireIdOf identity event.typeId (program.types event.typeId) with
    | mk result e₁ =>
      intro hsettled habsorbed hnext hanswer
      cases result with
      | error fault =>
        refine ⟨s', [], habsorbed, hnext, ?_, fun _ _ => rfl⟩
        intro response hok
        cases hok
      | ok id =>
        obtain ⟨hget, hinfo⟩ := hanswer id rfl
        obtain ⟨hevent, hsync⟩ := writeEventFrame_follows hnext.toSynced
          (hinfo htimed.2) (event.reads_encodeFields hfields)
          (event.exists_reads_encodeFields hfields) event.timestamp
        have hboth := habsorbed.trans hevent.toFed.absorbed
        refine ⟨_, _, hboth, hnext.of_follows hevent hsync hsettled, ?_, ?_⟩
        · intro response _
          have hresolved := hknown.absorbed hboth
          exact ⟨hresolved, .cons ⟨id, rfl, hget, hresolved⟩ .nil⟩
        · intro fault hfault
          cases hfault
  | writeStringPool _ | writeStackPool _ => exact happend.elim

end

end InStep

end Dial9.TraceFormat
