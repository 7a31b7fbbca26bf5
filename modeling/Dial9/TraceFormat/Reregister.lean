/-
# Registering a schema again

Readers of concatenated or re-emitted streams meet the same schema frame more
than once, and the format promises that it is accepted and changes nothing. The
registry compares whole entries, though, and an annotation frame adds to the
stored entry, so a repeated frame is refused once its type has been annotated.
The cache that events are decoded with is overwritten by every schema frame,
refused ones too, and it holds the flag for packed timestamps, which is not
compared: a repeated frame sets both back. This module says exactly when a
repetition is harmless.
-/

import Dial9.TraceFormat.Coherence
import Dial9.TraceFormat.Lockstep

namespace Dial9.TraceFormat

open Dial9.Lib Dial9.Lib.Reader

variable {typeId : WireTypeId} {entry : SchemaEntry} {s s' : DecoderState} {d : Decoder}
  {lookup : WireTypeId → Option SchemaInfo}

namespace Decoder

/-! ## The frame that registered a type id -/

/-- Some order of calls reaches the decoder, and on the way `frame`, with its
timestamp flag `flag`, put `entry` into the registry at `typeId`. A header
forgets it. -/
inductive Registered (frame : Bytes) (typeId : WireTypeId) (entry : SchemaEntry) (flag : Bool) :
    Decoder → Prop
  | first {data rest : Bytes} {before : Decoder} (path : DecodePath)
      (hreached : Reached data before) (hfree : before.state.registry.get typeId = none)
      (hframe : before.rest = frame ++ rest)
      (hdecode : decodeFrame before.state.schemaInfo before.state.timestampBaseNs before.rest =
        some (.schema typeId entry flag, rest)) :
      Registered frame typeId entry flag (before.afterTurn path)
  | later {d : Decoder} (path : DecodePath) (hd : Registered frame typeId entry flag d)
      (hheader : d.tryConsumeResetHeader = none) :
      Registered frame typeId entry flag (d.afterTurn path)

/-- The events a decoder in this state finds in further bytes. -/
def laterEvents (state : DecoderState) (later : Bytes) :
    List (DecodedFrame FieldValue (List UInt64)) :=
  ((decodeAll ⟨later, 0, state⟩).1.map Prod.fst).filter DecodedFrame.isEvent

/-- The schema frame at the decoder's position is accepted, and every later
event decodes as it would have without it. -/
def AcceptsAgain (d : Decoder) (tail : Bytes) : Prop :=
  ∃ entry next, nextTurn d = .emit (.schema entry) next ∧ next.rest = tail ∧
    ∀ later, laterEvents next.state later = laterEvents d.state later

variable {frame : Bytes} {flag : Bool}

theorem Registered.reached (h : Registered frame typeId entry flag d) :
    ∃ data, Reached data d := by
  induction h with
  | first path hreached => exact ⟨_, hreached.afterTurn path⟩
  | later path _ _ ih =>
    obtain ⟨data, hreached⟩ := ih
    exact ⟨data, hreached.afterTurn path⟩

theorem schema_frame_bytes {base : UInt64} {frame rest : Bytes} {flag : Bool}
    (h : decodeFrame lookup base (frame ++ rest) = some (.schema typeId entry flag, rest)) :
    entry.annotations = [] ∧ ∃ body, frame = FrameTag.schema.byte :: body ∧
      Reads (decodeSchemaFrame (V := FieldValue) (F := List UInt64)) body
        (.schema typeId entry flag) := by
  rcases isLocal_decodeFrameWith owned_local lookup base _ _ _ h with ⟨bytes, hbytes, hreads⟩
  obtain rfl : frame = bytes := List.append_cancel_right hbytes
  have hempty : decodeFrameWith owned lookup base frame = some (.schema typeId entry flag, []) := by
    simpa using hreads []
  cases frame with
  | nil => simp [decodeFrameWith, bind_apply, byte] at hempty
  | cons b body =>
    rw [decodeFrameWith_cons] at hempty
    rcases Option.bind_eq_some_iff.mp hempty with ⟨tag, htag, hbody⟩
    obtain rfl : FrameTag.schema = tag := yields_decodeBodyWith owned lookup base tag _ _ _ hbody
    obtain rfl := FrameTag.byte_of_ofByte htag
    have hplain : Yields (fun f => ∀ i e t, f = Frame.schema i e t → e.annotations = [])
        (decodeSchemaFrame (V := FieldValue) (F := List UInt64)) := by
      refine .bind fun _ => .bind fun _ => .bind fun _ => .bind fun _ => .bind fun _ =>
        yields_pure ?_
      intro i e t heq
      cases heq
      rfl
    have hlocal : IsLocal (decodeSchemaFrame (V := FieldValue) (F := List UInt64)) :=
      isLocal_decodeBodyWith owned_local lookup base .schema
    refine ⟨hplain _ _ _ hbody _ _ _ rfl, body, rfl, ?_⟩
    rcases hlocal _ _ _ hbody with ⟨bytes, hcons, hreads⟩
    obtain rfl : body = bytes := by simpa using hcons
    exact hreads

theorem Registered.frame_bytes (h : Registered frame typeId entry flag d) :
    entry.annotations = [] ∧ ∃ body, frame = FrameTag.schema.byte :: body ∧
      Reads (decodeSchemaFrame (V := FieldValue) (F := List UInt64)) body
        (.schema typeId entry flag) := by
  induction h with
  | first path _ _ hframe hdecode =>
    rw [hframe] at hdecode
    exact schema_frame_bytes hdecode
  | later _ _ _ ih => exact ih

theorem Touches.stored {after : DecoderState} (h : d.Touches after)
    {annotations : List FieldAnnotation}
    (hget : d.state.registry.get typeId = some { entry with annotations := annotations }) :
    ∃ annotations, after.registry.get typeId =
      some { entry with annotations := annotations } := by
  cases h with
  | @schema other entry' ts hhere =>
    unfold DecoderState.registerSchema
    cases hreg : d.state.registry.register other entry' with
    | error message => exact ⟨_, hget⟩
    | ok registry =>
      rcases SchemaRegistry.register_eq_ok hreg with ⟨-, rfl⟩ | ⟨hfree, -⟩
      · exact ⟨_, hget⟩
      · have hid : typeId ≠ other := by
          rintro rfl
          rw [hget] at hfree
          cases hfree
        exact ⟨_, (SchemaRegistry.get_of_register_ne hreg hid).trans hget⟩
  | annotations other more hhere =>
    by_cases hid : typeId = other
    · subst hid
      refine ⟨annotations ++ more, ?_⟩
      simp only [DecoderState.mergeAnnotations, hget, SchemaRegistry.get_set_self]
      rfl
    · refine ⟨annotations, ?_⟩
      simp only [DecoderState.mergeAnnotations]
      cases d.state.registry.get other with
      | none => exact hget
      | some _ => exact (SchemaRegistry.get_set_ne _ _ hid).trans hget
  | same hhere hregistry hcache => exact ⟨annotations, by rw [hregistry, hget]⟩

theorem Registered.stored (h : Registered frame typeId entry flag d) :
    ∃ annotations, d.state.registry.get typeId =
      some { entry with annotations := annotations } := by
  induction h with
  | @first data rest before path hreached hfree hframe hdecode =>
    have hhere : before.definitionHere = some (typeId, entry) := by
      rw [definitionHere, hdecode]
      rfl
    have hheader : before.tryConsumeResetHeader = none := by
      cases hsome : before.tryConsumeResetHeader with
      | none => rfl
      | some d' =>
        obtain ⟨v, hrest, -, -⟩ := tryConsumeResetHeader_eq_some hsome
        rw [hrest] at hdecode
        cases hdecode
    have htouches := touches_afterTurn path hheader
    generalize (before.afterTurn path).state = after at htouches ⊢
    cases htouches with
    | schema ts hhere' =>
      obtain ⟨rfl, rfl⟩ := Prod.mk.inj (Option.some.inj (hhere.symm.trans hhere'))
      unfold DecoderState.registerSchema
      cases hreg : before.state.registry.register typeId entry with
      | ok registry => exact ⟨_, SchemaRegistry.get_of_register_eq_ok hreg⟩
      | error message =>
        unfold SchemaRegistry.register at hreg
        rw [hfree] at hreg
        cases hreg
    | annotations _ _ hhere' | same hhere' _ _ =>
      rw [hhere] at hhere'
      cases hhere'
  | later path _ hheader ih =>
    obtain ⟨annotations, hget⟩ := ih
    exact (touches_afterTurn path hheader).stored hget

/-! ## What decides the later events -/

/-- Two states refuse the same schemas and decode events alike. -/
structure Alike (s s' : DecoderState) : Prop where
  registry : s.registry = s'.registry
  info : s.schemaInfo = s'.schemaInfo
  base : s.timestampBaseNs = s'.timestampBaseNs

theorem schemaInfo_update (s : DecoderState) (registry : SchemaRegistry) (typeId : WireTypeId)
    (entry : SchemaEntry) (ts : Bool) :
    DecoderState.schemaInfo
        { s with
          registry := registry
          schemaCache := Function.update s.schemaCache typeId
            (some (DecoderState.schemaCacheOf entry ts)) } =
      Function.update s.schemaInfo typeId
        (some ⟨entry.fields.map fun field => field.fieldType.tag, ts⟩) := by
  funext other
  unfold DecoderState.schemaInfo
  by_cases hother : other = typeId
  · subst hother
    simp [DecoderState.schemaCacheOf]
  · simp [hother]

theorem schemaInfo_mergeAnnotations (s : DecoderState) (typeId : WireTypeId)
    (annotations : List FieldAnnotation) :
    (s.mergeAnnotations typeId annotations).schemaInfo = s.schemaInfo := by
  funext other
  unfold DecoderState.schemaInfo DecoderState.mergeAnnotations
  cases hcache : s.schemaCache typeId with
  | none => rfl
  | some cache =>
    by_cases hother : other = typeId
    · subst hother
      simp [hcache]
    · simp [hother]

theorem matches_nextTurn {d d' : Decoder} (h : d.rest = d'.rest ∧ Alike d.state d'.state) :
    Machine.Matches (fun d d' => d.rest = d'.rest ∧ Alike d.state d'.state) (nextTurn d)
      (nextTurn d') := by
  obtain ⟨hrest, hregistry, hinfo, hbase⟩ := h
  unfold nextTurn nextTurnWith tryConsumeResetHeader
  rw [← hrest, ← hinfo, ← hbase]
  cases d.rest with
  | nil => exact .halt _ _ _ _
  | cons b tail =>
    dsimp only
    cases decodeHeader (b :: tail) with
    | some pair => exact .silent ⟨rfl, rfl, rfl, rfl⟩
    | none =>
      dsimp only [Option.map_none]
      cases decodeFrameWith owned d.state.schemaInfo d.state.timestampBaseNs (b :: tail) with
      | none => exact .halt _ _ _ _
      | some pair =>
        obtain ⟨frame, rest⟩ := pair
        dsimp only [accept, advance]
        cases frame with
        | schema typeId entry ts =>
          rcases DecoderState.accept_schema owned d.state typeId entry ts with
              ⟨registry, hreg, haccept⟩ | ⟨message, hreg, haccept⟩ <;>
            rcases DecoderState.accept_schema owned d'.state typeId entry ts with
              ⟨registry', hreg', haccept'⟩ | ⟨message', hreg', haccept'⟩ <;>
            rw [haccept, haccept'] <;> rw [← hregistry, hreg] at hreg' <;> cases hreg'
          · refine .emit _ ⟨rfl, rfl, ?_, hbase⟩
            dsimp only
            rw [schemaInfo_update, schemaInfo_update, hinfo]
          · exact .halt _ _ _ _
        | schemaAnnotations typeId annotations =>
          refine .emit _ ⟨rfl, ?_, ?_, ?_⟩
          · dsimp only [DecoderState.mergeAnnotations]
            rw [hregistry]
          · rw [schemaInfo_mergeAnnotations, schemaInfo_mergeAnnotations, hinfo]
          · exact hbase
        | timestampReset ts => exact .silent ⟨rfl, hregistry, hinfo, rfl⟩
        | event typeId ts values => exact .emit _ ⟨rfl, hregistry, hinfo, rfl⟩
        | stringPool entries | stackPool entries =>
          exact .emit _ ⟨rfl, hregistry, hinfo, hbase⟩

theorem Alike.laterEvents_eq (h : Alike s s') (later : Bytes) :
    laterEvents s later = laterEvents s' later := by
  unfold laterEvents decodeAll
  rw [decodeAllWith_eq owned_local, decodeAllWith_eq owned_local]
  exact congrArg (List.filter DecodedFrame.isEvent)
    (Machine.collect_of_matches (fun _ _ => matches_nextTurn) _ ⟨rfl, h⟩)


/-! ## Telling field types apart -/

/-- The shape of the values a base type decodes to: the integers share one. -/
def kind : BaseType → BaseType
  | .u8 | .u16 | .u32 => .varint
  | base => base

theorem yields_kind (base : BaseType) :
    Yields (fun value => value.shape = some (kind base)) (FieldValue.decode (.plain base)) := by
  cases base with
  | i64 | f64 | bool | string | bytes | pooledStackFrames | pooledString | varint | u8 | u16
    | u32 => exact .bind fun _ => yields_pure rfl
  | stackFrames | stringMap | dynamicList | dynamicMap =>
    exact .bind fun _ => .bind fun _ => yields_pure rfl

theorem decodeField_plain (base : BaseType) :
    decodeField owned (FieldType.plain base).tag = FieldValue.decode (.plain base) := by
  unfold decodeField
  rw [FieldType.fromTag_tag]
  rfl

theorem decodeField_present (base : BaseType) (input : Bytes) :
    decodeField owned (FieldType.optional base).tag (1 :: input) =
      decodeField owned (FieldType.plain base).tag input := by
  rw [decodeField_plain]
  unfold decodeField
  rw [FieldType.fromTag_tag]
  rfl

theorem reads_zeros_decodeField (fieldType : FieldType) :
    ∃ n value, Reads (decodeField owned fieldType.tag) (List.replicate n 0) value := by
  have hvalue : ∀ base : BaseType,
      ∃ n value, FieldValue.decode (.plain base) (List.replicate n 0) = some (value, []) := by
    intro base
    cases base with
    | i64 | f64 => exact ⟨8, _, rfl⟩
    | bool | varint | u8 => exact ⟨1, _, rfl⟩
    | string | bytes | pooledString | pooledStackFrames | u32 | stackFrames | stringMap
    | dynamicList | dynamicMap => exact ⟨4, _, rfl⟩
    | u16 => exact ⟨2, _, rfl⟩
  have hfield : ∃ n value, decodeField owned fieldType.tag (List.replicate n 0) =
      some (value, []) := by
    cases fieldType with
    | plain base =>
      rcases hvalue base with ⟨n, value, h⟩
      refine ⟨n, value, ?_⟩
      rw [decodeField, FieldType.fromTag_tag]
      exact h
    | optional base => exact ⟨1, .none, by cases base <;> rfl⟩
  rcases hfield with ⟨n, value, h⟩
  rcases isLocal_decodeField owned_local _ _ _ _ h with ⟨bytes, hbytes, hreads⟩
  obtain rfl : List.replicate n 0 = bytes := by simpa using hbytes
  exact ⟨n, value, hreads⟩

/-- Some bytes of a value of the first type never decode to that value at the second. -/
def Tells (first second : FieldType) : Prop :=
  ∃ bytes value, Reads (decodeField owned first.tag) bytes value ∧
    ∀ input rest, decodeField owned second.tag (bytes ++ input) ≠ some (value, rest)

theorem tells_of_decode {first second : FieldType} (bytes more : Bytes) {v v' : UInt64}
    (h : decodeField owned first.tag (bytes ++ more) = some (.varint v, []))
    (h' : decodeField owned second.tag bytes = some (.varint v', [])) (hne : v ≠ v') :
    Tells first second := by
  obtain ⟨read, hread, hreads⟩ := isLocal_decodeField owned_local _ _ _ _ h
  obtain rfl : bytes ++ more = read := by simpa using hread
  refine ⟨_, _, hreads, fun input rest hsecond => hne ?_⟩
  rw [List.append_assoc, (isLocal_decodeField owned_local _).append h'] at hsecond
  exact (FieldValue.varint.inj (Prod.mk.inj (Option.some.inj hsecond)).1).symm

theorem tells_optional {first second : BaseType} (h : Tells (.plain first) (.plain second)) :
    Tells (.optional first) (.optional second) := by
  obtain ⟨bytes, value, hreads, hother⟩ := h
  refine ⟨1 :: bytes, value, fun rest => ?_, fun input rest => ?_⟩
  · rw [List.cons_append, decodeField_present]
    exact hreads rest
  · rw [List.cons_append, decodeField_present]
    exact hother input rest

/-- Different plain types are told apart one way or the other: by their shapes,
and the integers by a value that only the wider one reads. -/
theorem tells_plain {first second : BaseType} (hne : first ≠ second) :
    Tells (.plain first) (.plain second) ∨ Tells (.plain second) (.plain first) := by
  by_cases hkind : kind first = kind second
  · have hvarint : Tells (.plain .varint) (.plain .u8) :=
      tells_of_decode [0x80] [0x02] rfl rfl (by decide)
    have hu16 : Tells (.plain .u16) (.plain .varint) ∧ Tells (.plain .u16) (.plain .u8) :=
      ⟨tells_of_decode [0] [1] rfl rfl (by decide),
        tells_of_decode [0] [1] rfl rfl (by decide)⟩
    have hu32 : Tells (.plain .u32) (.plain .varint) ∧ Tells (.plain .u32) (.plain .u8) ∧
        Tells (.plain .u32) (.plain .u16) :=
      ⟨tells_of_decode [0] [0, 0, 1] rfl rfl (by decide),
        tells_of_decode [0] [0, 0, 1] rfl rfl (by decide),
        tells_of_decode [0, 0] [0, 1] rfl rfl (by decide)⟩
    cases first <;> cases second <;> first
      | exact absurd rfl hne
      | exact absurd hkind (by decide)
      | simp only [hvarint, hu16, hu32, true_or, or_true]
  · obtain ⟨n, value, hreads⟩ := reads_zeros_decodeField (.plain first)
    refine .inl ⟨_, value, hreads, fun input rest hsecond => hkind ?_⟩
    have hfirst := hreads []
    rw [decodeField_plain] at hfirst hsecond
    exact Option.some.inj ((yields_kind first _ _ _ hfirst).symm.trans
      (yields_kind second _ _ _ hsecond))

theorem tells_of_ne {first second : FieldType} (hne : first ≠ second) :
    Tells first second ∨ Tells second first := by
  have habsent : ∀ base base', Tells (.optional base) (.plain base') := by
    intro base base'
    refine ⟨[0], .none, fun rest => by cases base <;> rfl, fun input rest hplain => ?_⟩
    rw [decodeField_plain] at hplain
    cases yields_kind base' _ _ _ hplain
  cases first with
  | plain base =>
    cases second with
    | plain base' => exact tells_plain fun h => hne (congrArg FieldType.plain h)
    | optional base' => exact .inr (habsent base' base)
  | optional base =>
    cases second with
    | plain base' => exact .inl (habsent base base')
    | optional base' =>
      exact (tells_plain fun h => hne (congrArg FieldType.optional h)).imp tells_optional
        tells_optional

theorem reads_zeros_fields (types : List FieldType) :
    ∃ n values, Reads (forEach (decodeField owned) (types.map FieldType.tag))
      (List.replicate n 0) values := by
  induction types with
  | nil => exact ⟨0, [], reads_pure []⟩
  | cons type types ih =>
    obtain ⟨n, value, hvalue⟩ := reads_zeros_decodeField type
    obtain ⟨m, values, hvalues⟩ := ih
    refine ⟨n + m, value :: values, ?_⟩
    rw [List.replicate_add]
    exact hvalue.bind hvalues.map

/-- The values of fields of the given types at the start of the bytes. -/
def fieldsAt (types : List FieldType) (bytes : Bytes) : Option (List FieldValue) :=
  (forEach (decodeField owned) (types.map FieldType.tag) bytes).map Prod.fst

theorem fieldsAt_of_reads (types : List FieldType) {bytes : Bytes} {values : List FieldValue}
    (h : Reads (forEach (decodeField owned) (types.map FieldType.tag)) bytes values) :
    fieldsAt types bytes = some values := by
  have hall := h []
  rw [List.append_nil] at hall
  rw [fieldsAt, hall]
  rfl

theorem fieldsAt_cons (type : FieldType) (types : List FieldType) (bytes : Bytes) :
    fieldsAt (type :: types) bytes =
      (decodeField owned type.tag bytes).bind fun pair =>
        (fieldsAt types pair.2).map (pair.1 :: ·) := by
  unfold fieldsAt
  rw [List.map_cons, forEach, bind_apply]
  cases decodeField owned type.tag bytes with
  | none => rfl
  | some pair =>
    rw [Option.bind_some]
    change Option.map _ ((forEach (decodeField owned) (types.map FieldType.tag) >>= _) pair.2) = _
    rw [bind_apply]
    cases forEach (decodeField owned) (types.map FieldType.tag) pair.2 with
    | none | some _ => rfl

theorem fieldsAt_cons_ne_nil (type : FieldType) (types : List FieldType) (bytes : Bytes) :
    fieldsAt (type :: types) bytes ≠ some [] := by
  intro h
  rw [fieldsAt_cons] at h
  obtain ⟨pair, -, hrest⟩ := Option.bind_eq_some_iff.mp h
  obtain ⟨tail, -, htail⟩ := Option.map_eq_some_iff.mp hrest
  cases htail

theorem fieldsAt_of_tells {first second : FieldType} (h : Tells first second)
    (types types' : List FieldType) :
    ∃ bytes, fieldsAt (first :: types) bytes ≠ fieldsAt (second :: types') bytes := by
  obtain ⟨bytes, value, hreads, hother⟩ := h
  obtain ⟨n, values, hvalues⟩ := reads_zeros_fields types
  refine ⟨bytes ++ List.replicate n 0, fun heq => ?_⟩
  rw [fieldsAt_of_reads (first :: types) (hreads.bind hvalues.map), fieldsAt_cons] at heq
  obtain ⟨pair, hpair, hrest⟩ := Option.bind_eq_some_iff.mp heq.symm
  obtain ⟨tail, -, htail⟩ := Option.map_eq_some_iff.mp hrest
  obtain ⟨rfl, -⟩ := List.cons.inj htail
  exact hother _ pair.2 hpair

theorem fieldsAt_of_ne {types types' : List FieldType} (hne : types ≠ types') :
    ∃ bytes, fieldsAt types bytes ≠ fieldsAt types' bytes := by
  induction types generalizing types' with
  | nil =>
    cases types' with
    | nil => exact absurd rfl hne
    | cons type types' => exact ⟨[], (fieldsAt_cons_ne_nil type types' []).symm⟩
  | cons type types ih =>
    cases types' with
    | nil => exact ⟨[], fieldsAt_cons_ne_nil type types []⟩
    | cons type' types' =>
      by_cases htype : type = type'
      · subst htype
        obtain ⟨bytes, hbytes⟩ := ih fun h => hne (congrArg (type :: ·) h)
        obtain ⟨n, value, hreads⟩ := reads_zeros_decodeField type
        refine ⟨List.replicate n 0 ++ bytes, fun heq => hbytes ?_⟩
        rw [fieldsAt_cons, fieldsAt_cons, hreads bytes] at heq
        exact Option.map_injective (List.cons_injective) heq
      · rcases tells_of_ne htype with htells | htells
        · exact fieldsAt_of_tells htells types types'
        · obtain ⟨bytes, hbytes⟩ := fieldsAt_of_tells htells types' types
          exact ⟨bytes, hbytes.symm⟩

/-! ## Telling schemas apart -/

/-- What decoding an event needs of a schema with fields of the given types. -/
def infoOf (types : List FieldType) (flag : Bool) : SchemaInfo := ⟨types.map FieldType.tag, flag⟩

/-- The event with the given body, on a timestamp base of zero. -/
def eventAt (typeId : WireTypeId) (info : SchemaInfo) (body : Bytes) :
    Option (DecodedFrame FieldValue (List UInt64)) :=
  ((decodeTimestamp info 0 >>= fun ts => forEach (decodeField owned) info.fieldTags >>=
    fun values => pure (.event typeId ts values) : Reader _) body).map Prod.fst

theorem eventAt_of_timestamp {types : List FieldType} {flag : Bool} {head : Bytes} {ts : UInt64}
    (h : Reads (decodeTimestamp (infoOf types flag) 0) head ts) (fields : Bytes) :
    eventAt typeId (infoOf types flag) (head ++ fields) =
      (fieldsAt types fields).map (.event typeId ts) := by
  unfold eventAt fieldsAt
  rw [bind_apply, h fields]
  change Option.map _ ((forEach (decodeField owned) (types.map FieldType.tag) >>= _) fields) = _
  rw [bind_apply]
  cases forEach (decodeField owned) (types.map FieldType.tag) fields with
  | none | some _ => rfl

theorem reads_timestamp_untimed (types : List FieldType) :
    Reads (decodeTimestamp (infoOf types false) 0) [] 0 := reads_pure 0

theorem reads_timestamp_timed (types : List FieldType) {delta : Nat} (h : delta < 256) :
    Reads (decodeTimestamp (infoOf types true) 0) (leBytes 3 delta) (UInt64.ofNat delta) := by
  have hword : Reads decodeU24Le (leBytes 3 delta) delta := reads_word_of_lt (by omega)
  have hadd : Reads (ofOption (checkedAdd 0 delta)) [] (UInt64.ofNat delta) := by
    apply reads_ofOption
    unfold checkedAdd
    rw [if_pos (by rw [UInt64.toNat_zero]; omega), UInt64.toNat_zero, Nat.zero_add]
  exact hword.bind_nil hadd

theorem eventAt_of_timed (typeId : WireTypeId) (types types' : List FieldType) :
    ∃ body, eventAt typeId (infoOf types true) body ≠
      eventAt typeId (infoOf types' false) body := by
  obtain ⟨n, values, hvalues⟩ := reads_zeros_fields types
  refine ⟨leBytes 3 1 ++ List.replicate n 0, fun heq => ?_⟩
  rw [eventAt_of_timestamp (reads_timestamp_timed types (by omega)),
    fieldsAt_of_reads types hvalues,
    ← List.nil_append (leBytes 3 1 ++ _),
    eventAt_of_timestamp (reads_timestamp_untimed types')] at heq
  obtain ⟨values', -, hevent⟩ := Option.map_eq_some_iff.mp heq.symm
  cases hevent

theorem eventAt_of_ne (typeId : WireTypeId) {types types' : List FieldType} {flag flag' : Bool}
    (hne : infoOf types flag ≠ infoOf types' flag') :
    ∃ body, eventAt typeId (infoOf types flag) body ≠
      eventAt typeId (infoOf types' flag') body := by
  have hfields : ∀ {head : Bytes} {ts : UInt64}, types ≠ types' →
      Reads (decodeTimestamp (infoOf types flag) 0) head ts →
      Reads (decodeTimestamp (infoOf types' flag') 0) head ts →
      ∃ body, eventAt typeId (infoOf types flag) body ≠
        eventAt typeId (infoOf types' flag') body := by
    intro head ts htypes hread hread'
    obtain ⟨fields, hfields⟩ := fieldsAt_of_ne htypes
    refine ⟨head ++ fields, fun heq => hfields ?_⟩
    rw [eventAt_of_timestamp hread, eventAt_of_timestamp hread'] at heq
    exact Option.map_injective (fun _ _ h => (DecodedFrame.event.inj h).2.2) heq
  cases flag with
  | false =>
    cases flag' with
    | false =>
      exact hfields (fun h => hne (h ▸ rfl)) (reads_timestamp_untimed types)
        (reads_timestamp_untimed types')
    | true =>
      obtain ⟨body, hbody⟩ := eventAt_of_timed typeId types' types
      exact ⟨body, hbody.symm⟩
  | true =>
    cases flag' with
    | false => exact eventAt_of_timed typeId types types'
    | true =>
      exact hfields (fun h => hne (h ▸ rfl)) (reads_timestamp_timed types (by omega : 0 < 256))
        (reads_timestamp_timed types' (by omega))

/-- A timestamp reset to zero, and an event frame of the type. -/
def probe (typeId : WireTypeId) (body : Bytes) : Bytes :=
  FrameTag.timestampReset.byte :: leBytes 8 (0 : UInt64).toNat ++
    (FrameTag.event.byte :: (leBytes 2 typeId.toNat ++ body))

theorem nextTurn_event {info : SchemaInfo} (hinfo : s.schemaInfo typeId = some info)
    (hbase : s.timestampBaseNs = 0) (body : Bytes) (pos : Nat) :
    match eventAt typeId info body with
    | some event => ∃ next,
      nextTurn ⟨FrameTag.event.byte :: (leBytes 2 typeId.toNat ++ body), pos, s⟩ =
        .emit event next ∧ event.isEvent = true
    | none => ∃ reason last,
      nextTurn ⟨FrameTag.event.byte :: (leBytes 2 typeId.toNat ++ body), pos, s⟩ =
        .halt reason last := by
  have hturn := nextTurnWith_of_tag owned (show (Decoder.mk (FrameTag.event.byte ::
    (leBytes 2 typeId.toNat ++ body)) pos s).rest = FrameTag.event.byte :: _ from rfl)
  have hframe : decodeBodyWith owned s.schemaInfo s.timestampBaseNs .event
      (leBytes 2 typeId.toNat ++ body) =
        (decodeTimestamp info 0 >>= fun ts => forEach (decodeField owned) info.fieldTags >>=
          fun values => (pure (.event typeId ts values) : Reader (Frame _ _))) body := by
    unfold decodeBodyWith decodeEventFrameWith
    dsimp only
    rw [bind_apply, reads_u16 typeId, hbase]
    dsimp only
    rw [hinfo]
    rfl
  unfold eventAt
  rw [nextTurn, hturn, hframe, bind_apply, bind_apply]
  cases decodeTimestamp info 0 body with
  | none => exact ⟨_, _, rfl⟩
  | some tsPair =>
    dsimp only
    rw [bind_apply, bind_apply]
    cases forEach (decodeField owned) info.fieldTags tsPair.2 with
    | none => exact ⟨_, _, rfl⟩
    | some pair => exact ⟨_, rfl, rfl⟩

theorem head_laterEvents_probe {info : SchemaInfo} (hinfo : s.schemaInfo typeId = some info)
    (body : Bytes) : (laterEvents s (probe typeId body)).head? = eventAt typeId info body := by
  have hreset := nextTurnWith_frame owned .timestampReset s (reads_u64 0).map
    (FrameTag.event.byte :: (leBytes 2 typeId.toNat ++ body)) 0
  have hevent := nextTurn_event (s := { s with timestampBaseNs := 0 }) hinfo rfl body (0 + (8 + 1))
  unfold laterEvents decodeAll probe
  cases heventAt : eventAt typeId info body with
  | none =>
    rw [heventAt] at hevent
    obtain ⟨reason, last, hturn⟩ := hevent
    rw [decodeAllWith_of_steps owned_local (.single_silent hreset) hturn]
    rfl
  | some event =>
    rw [heventAt] at hevent
    obtain ⟨next, hturn, hisEvent⟩ := hevent
    obtain ⟨t, reason, last, hsteps, hhalt, -⟩ := steps_of_decodeAllWith owned_local next
    rw [decodeAllWith_of_steps owned_local (.silent hreset (.emit hturn hsteps)) hhalt,
      List.map_cons, List.filter_cons_of_pos hisEvent]
    rfl

theorem schemaInfo_eq_of_laterEvents {types types' : List FieldType} {flag flag' : Bool}
    (hinfo : s.schemaInfo typeId = some (infoOf types flag))
    (hinfo' : s'.schemaInfo typeId = some (infoOf types' flag'))
    (h : ∀ later, laterEvents s later = laterEvents s' later) :
    infoOf types flag = infoOf types' flag' := by
  by_contra hne
  obtain ⟨body, hbody⟩ := eventAt_of_ne typeId hne
  apply hbody
  rw [← head_laterEvents_probe hinfo, ← head_laterEvents_probe hinfo', h]

/-! ## When a repetition is harmless -/

theorem Registered.schemaInfo {frame : Bytes} {flag : Bool}
    (h : Registered frame typeId entry flag d) :
    ∃ types current, d.state.schemaInfo typeId = some (infoOf types current) := by
  obtain ⟨annotations, hget⟩ := h.stored
  obtain ⟨data, refused, hreaches⟩ := h.reached
  have hknown := hreaches.tracks.known typeId
  rw [hget] at hknown
  obtain ⟨cache, hcache⟩ := Option.isSome_iff_exists.mp hknown
  refine ⟨cache.entry.fields.map FieldDef.fieldType, cache.hasTimestampOnWire, ?_⟩
  rw [DecoderState.schemaInfo, hcache, Option.map_some, hreaches.tracks.tags typeId cache hcache,
    infoOf, List.map_map]
  rfl


/-- A schema frame of a type without fields, id 256, with packed timestamps. -/
def plainFrame : Bytes := [0x01, 0x00, 0x01, 0x01, 0x00, 0x72, 0x01, 0x00, 0x00]

/-- The type it registers. -/
def plainType : SchemaEntry := ⟨⟨[0x72], by decide⟩, [], []⟩

/-- A schema frame for the same id of a type with a boolean field. -/
def otherFrame : Bytes :=
  [0x01, 0x00, 0x01, 0x01, 0x00, 0x72, 0x01, 0x01, 0x00, 0x01, 0x00, 0x62, 0x03]

/-- An annotation of the type. -/
def annotationFrame : Bytes :=
  [0x06, 0x80, 0x02, 0x01, 0x00, 0x00, 0x00, 0x01, 0x00, 0x6b, 0x01, 0x00, 0x00, 0x00, 0x76]

/-- The decoder right after the schema frame at the start of a stream. -/
def afterPlainFrame (tail : Bytes) : Decoder :=
  Decoder.afterTurn ⟨plainFrame ++ tail, headerSize, .new⟩ .nextFrame

theorem registered_plainFrame (tail : Bytes) :
    Registered plainFrame 256 plainType true (afterPlainFrame tail) :=
  @Registered.first plainFrame 256 plainType true (encodeHeader ++ (plainFrame ++ tail)) tail _
    .nextFrame ⟨_, .new rfl⟩ rfl rfl rfl

end Decoder

end Dial9.TraceFormat
