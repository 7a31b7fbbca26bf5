/-
# Reading frames back

What the decoder makes of encoded frames. `Feeds s bytes log s'` says that a
decoder in state `s`, wherever it stands and whatever follows, consumes exactly
`bytes`, yields the frames of `log` (each with the state right after it) and
ends in state `s'`. Feeding composes by concatenation, so a session is read
back frame by frame.
-/

import Dial9.TraceFormat.Decoder
import Dial9.TraceFormat.TraceEvent

namespace Dial9.TraceFormat

open Dial9.Lib Dial9.Lib.Reader

/-- Decoded frames, each with the decoder state right after it. -/
abbrev StateLog (V F : Type) := List (DecodedFrame V F × DecoderState)

variable {s s' : DecoderState} {bytes : Bytes} {ft : FieldType}

section Feeding

variable {V F : Type} (flavour : Flavour V F)

/-- Forget where in the stream the decoder stands. -/
def stateLog (log : Machine.Log Decoder (DecodedFrame V F)) : StateLog V F :=
  log.map fun entry => (entry.1, entry.2.state)

/-- The decoder consumes exactly `bytes` from any position in any stream. -/
def Feeds (s : DecoderState) (bytes : Bytes) (log : StateLog V F) (s' : DecoderState) : Prop :=
  ∀ rest pos, ∃ run, Machine.Steps (Decoder.nextTurnWith flavour) ⟨bytes ++ rest, pos, s⟩ run
    ⟨rest, pos + bytes.length, s'⟩ ∧ stateLog run = log

variable {flavour}

theorem Feeds.refl (s : DecoderState) : Feeds flavour s [] [] s :=
  fun rest pos => ⟨[], .refl (⟨rest, pos, s⟩ : Decoder), rfl⟩

theorem Feeds.trans {s s' s'' : DecoderState} {bytes bytes' : Bytes} {log log' : StateLog V F}
    (h : Feeds flavour s bytes log s') (h' : Feeds flavour s' bytes' log' s'') :
    Feeds flavour s (bytes ++ bytes') (log ++ log') s'' := by
  intro rest pos
  obtain ⟨run, hrun, hlog⟩ := h (bytes' ++ rest) pos
  obtain ⟨run', hrun', hlog'⟩ := h' rest (pos + bytes.length)
  refine ⟨run ++ run', ?_, ?_⟩
  · have hboth := hrun.trans hrun'
    rw [← List.append_assoc, Nat.add_assoc, ← List.length_append] at hboth
    exact hboth
  · rw [stateLog, List.map_append, ← hlog, ← hlog']
    rfl

theorem feeds_emit (tag : FrameTag) {frame : Frame V F} {decoded : DecodedFrame V F}
    (hreads : Reads (decodeBodyWith flavour s.schemaInfo s.timestampBaseNs tag) bytes frame)
    (haccept : s.accept flavour frame = .emit decoded s') :
    Feeds flavour s (tag.byte :: bytes) [(decoded, s')] s' := by
  intro rest pos
  refine ⟨[(decoded, ⟨rest, pos + (bytes.length + 1), s'⟩)], ?_, rfl⟩
  refine Machine.Steps.single_emit ?_
  rw [Decoder.nextTurnWith_frame flavour tag s hreads]
  simp only [Decoder.accept, haccept]

theorem feeds_silent (tag : FrameTag) {frame : Frame V F}
    (hreads : Reads (decodeBodyWith flavour s.schemaInfo s.timestampBaseNs tag) bytes frame)
    (haccept : s.accept flavour frame = .silent s') :
    Feeds flavour s (tag.byte :: bytes) [] s' := by
  intro rest pos
  refine ⟨[], ?_, rfl⟩
  refine Machine.Steps.single_silent ?_
  rw [Decoder.nextTurnWith_frame flavour tag s hreads]
  simp only [Decoder.accept, haccept, List.length_cons]

theorem Feeds.decodeAllWith (hlocal : flavour.Local) {log : StateLog V F}
    (h : Feeds flavour s bytes log s') (pos : Nat) :
    ∃ run, Decoder.decodeAllWith flavour ⟨bytes, pos, s⟩ =
        (run, some (.exhausted, ⟨[], pos + bytes.length, s'⟩)) ∧ stateLog run = log := by
  obtain ⟨run, hrun, hlog⟩ := h [] pos
  rw [List.append_nil] at hrun
  exact ⟨run, Decoder.decodeAllWith_of_steps hlocal hrun (Decoder.nextTurnWith_nil _ _), hlog⟩

end Feeding

/-! ## Whatever is in the pools -/

/-- The state with the pools of another one. -/
def DecoderState.withPools (s pools : DecoderState) : DecoderState :=
  { s with stringPool := pools.stringPool, stackPool := pools.stackPool }

/-- Whatever is in the pools, the decoder consumes exactly `bytes`. -/
def Skims {V F : Type} (flavour : Flavour V F) (s : DecoderState) (bytes : Bytes)
    (s' : DecoderState) : Prop :=
  ∀ pools, ∃ pools' log, Feeds flavour (s.withPools pools) bytes log (s'.withPools pools')

/-- Either decoder consumes exactly `bytes`. -/
structure Readable (s : DecoderState) (bytes : Bytes) (s' : DecoderState) : Prop where
  owned : Skims owned s bytes s'
  ref : Skims zeroCopy s bytes s'

theorem Readable.refl (s : DecoderState) : Readable s [] s :=
  ⟨fun pools => ⟨pools, [], .refl _⟩, fun pools => ⟨pools, [], .refl _⟩⟩

theorem Skims.trans {V F : Type} {flavour : Flavour V F} {s s' s'' : DecoderState}
    {bytes bytes' : Bytes} (h : Skims flavour s bytes s') (h' : Skims flavour s' bytes' s'') :
    Skims flavour s (bytes ++ bytes') s'' := by
  intro pools
  obtain ⟨pools', log, hfeeds⟩ := h pools
  obtain ⟨pools'', log', hfeeds'⟩ := h' pools'
  exact ⟨pools'', _, hfeeds.trans hfeeds'⟩

theorem Readable.trans {s s' s'' : DecoderState} {bytes bytes' : Bytes}
    (h : Readable s bytes s') (h' : Readable s' bytes' s'') : Readable s (bytes ++ bytes') s'' :=
  ⟨h.owned.trans h'.owned, h.ref.trans h'.ref⟩

theorem Readable.repool (h : Readable s bytes s') (pools : DecoderState) :
    Readable s bytes (s'.withPools pools) := ⟨h.owned, h.ref⟩

/-! ## Schema and annotation frames -/

/-- The lengths of a schema fit their prefixes. -/
structure SchemaEntry.Fits (entry : SchemaEntry) : Prop where
  name : entry.name.bytes.length < 2 ^ 16
  fieldCount : entry.fields.length < 2 ^ 16
  fieldNames : ∀ field ∈ entry.fields, field.name.bytes.length < 2 ^ 16
  annotations : ∀ a ∈ entry.annotations,
    a.key.bytes.length < 2 ^ 16 ∧ a.value.bytes.length < 2 ^ 32

/-- A schema without its annotations, as its own frame carries it. -/
def SchemaEntry.bare (entry : SchemaEntry) : SchemaEntry := { entry with annotations := [] }

theorem reads_decodeName {name : Text} (h : name.bytes.length < 2 ^ 16) :
    Reads decodeName (encodeName name.bytes) name := by
  have hcast : (UInt16.ofNat name.bytes.length).toNat = name.bytes.length := by
    rw [UInt16.toNat_ofNat', Nat.mod_eq_of_lt h]
  have htext : Reads (ofOption (Text.fromUtf8 name.bytes)) [] name :=
    reads_ofOption (Text.fromUtf8_bytes name)
  refine (reads_u16_length h).bind ?_
  rw [hcast]
  exact (reads_take name.bytes).bind_nil htext

theorem reads_decodeText {text : Text} (h : text.bytes.length < 2 ^ 32) :
    Reads decodeText (encodeBytes text.bytes) text :=
  (reads_decodeBytes h).bind_nil (reads_ofOption (Text.fromUtf8_bytes text))

theorem reads_decodeFieldDef {field : FieldDef} (h : field.name.bytes.length < 2 ^ 16) :
    Reads decodeFieldDef (encodeFieldDef field) field := by
  have htype : Reads (ofOption (FieldType.fromTag field.fieldType.tag) >>= fun fieldType =>
      pure (FieldDef.mk field.name fieldType)) [] field := by
    rw [FieldType.fromTag_tag]
    exact reads_pure field
  exact (reads_decodeName h).bind ((reads_byte _).bind_nil htype)

theorem reads_decodeAnnotationEntry {a : FieldAnnotation} (hkey : a.key.bytes.length < 2 ^ 16)
    (hvalue : a.value.bytes.length < 2 ^ 32) :
    Reads decodeAnnotationEntry (encodeAnnotationEntry a) a := by
  rw [encodeAnnotationEntry, List.append_assoc]
  exact (reads_u16 _).bind ((reads_decodeName hkey).bind (reads_decodeText hvalue).map)

variable {typeId : WireTypeId} {value : FieldValue}

section Frames

variable {V F : Type} (flavour : Flavour V F)

theorem feeds_schema {entry : SchemaEntry} (hfits : entry.Fits) {registry : SchemaRegistry}
    (hregister : s.registry.register typeId entry.bare = .ok registry) :
    Feeds flavour s (encodeSchema typeId entry)
      [(.schema entry.bare, (s.registerSchema typeId entry.bare true).2)]
      (s.registerSchema typeId entry.bare true).2 := by
  have hcount : (UInt16.ofNat entry.fields.length).toNat = entry.fields.length := by
    rw [UInt16.toNat_ofNat', Nat.mod_eq_of_lt hfits.fieldCount]
  have hfields : Reads (times decodeFieldDef (UInt16.ofNat entry.fields.length).toNat)
      (entry.fields.flatMap encodeFieldDef) entry.fields := by
    rw [hcount]
    exact reads_times fun field hfield => reads_decodeFieldDef (hfits.fieldNames field hfield)
  have hbody : Reads (decodeSchemaFrame (V := V) (F := F)) (leBytes 2 typeId.toNat ++
      (encodeName entry.name.bytes ++ ([1] ++
        (leBytes 2 entry.fields.length ++ entry.fields.flatMap encodeFieldDef))))
      (.schema typeId entry.bare true) :=
    (reads_u16 typeId).bind ((reads_decodeName hfits.name).bind ((reads_byte 1).bind
      ((reads_u16_length hfits.fieldCount).bind hfields.map)))
  have hencode : encodeSchema typeId entry = FrameTag.schema.byte :: (leBytes 2 typeId.toNat ++
      (encodeName entry.name.bytes ++ ([1] ++
        (leBytes 2 entry.fields.length ++ entry.fields.flatMap encodeFieldDef)))) := by
    simp only [encodeSchema, List.append_assoc]
    rfl
  rw [hencode]
  refine feeds_emit .schema hbody ?_
  simp only [DecoderState.accept, DecoderState.registerSchema, hregister]

theorem feeds_schemaAnnotations {annotations : List FieldAnnotation}
    (hfits : ∀ a ∈ annotations, a.key.bytes.length < 2 ^ 16 ∧ a.value.bytes.length < 2 ^ 32)
    (hencode : encodeSchemaAnnotations typeId annotations = .ok bytes) :
    Feeds flavour s bytes
      [(.schemaAnnotations typeId annotations, s.mergeAnnotations typeId annotations)]
      (s.mergeAnnotations typeId annotations) := by
  unfold encodeSchemaAnnotations at hencode
  split at hencode
  · next hlt =>
      obtain rfl := Except.ok.inj hencode
      have hcount : (UInt16.ofNat annotations.length).toNat = annotations.length := by
        rw [UInt16.toNat_ofNat', Nat.mod_eq_of_lt hlt]
      have hitems : Reads (times decodeAnnotationEntry (UInt16.ofNat annotations.length).toNat)
          (annotations.flatMap encodeAnnotationEntry) annotations := by
        rw [hcount]
        exact reads_times fun a ha => reads_decodeAnnotationEntry (hfits a ha).1 (hfits a ha).2
      have hid : typeId.toUInt64.toUInt16 = typeId := by simp
      have hbody : Reads (decodeSchemaAnnotationsFrame (V := V) (F := F))
          (Leb128.encodeUnsigned typeId.toUInt64 ++ (leBytes 2 annotations.length ++
            annotations.flatMap encodeAnnotationEntry))
          (.schemaAnnotations typeId.toUInt64.toUInt16 annotations) :=
        (Leb128.reads_decodeUnsigned _).bind ((reads_u16_length hlt).bind hitems.map)
      rw [hid] at hbody
      rw [List.append_assoc, List.append_assoc]
      exact feeds_emit .schemaAnnotations hbody rfl
  · cases hencode

theorem feeds_timestampReset (s : DecoderState) (ts : UInt64) :
    Feeds flavour s ([FrameTag.timestampReset.byte] ++ leBytes 8 ts.toNat) []
      { s with timestampBaseNs := ts } := by
  have hbody : Reads (u64 >>= fun ts => pure (Frame.timestampReset (V := V) (F := F) ts))
      (leBytes 8 ts.toNat) (.timestampReset ts) := (reads_u64 ts).map
  exact feeds_silent .timestampReset hbody rfl

theorem feeds_stringPool {entries : List PoolEntry} (hcount : entries.length < 2 ^ 32)
    (hdata : ∀ entry ∈ entries, entry.data.length < 2 ^ 32) :
    Feeds flavour s (encodeStringPool entries)
      [(.stringPool entries, s.insertStrings entries)] (s.insertStrings entries) := by
  have hentry : ∀ entry ∈ entries, Reads decodePoolEntry (encodePoolEntry entry) entry :=
    fun entry hentry => (reads_u32 entry.poolId).bind (reads_decodeBytes (hdata entry hentry)).map
  have hcast : (UInt32.ofNat entries.length).toNat = entries.length := by
    rw [UInt32.toNat_ofNat', Nat.mod_eq_of_lt hcount]
  have hentries : Reads (times decodePoolEntry (UInt32.ofNat entries.length).toNat)
      (entries.flatMap encodePoolEntry) entries := by
    rw [hcast]
    exact reads_times hentry
  have hbody : Reads (decodeStringPoolFrame (V := V) (F := F))
      (leBytes 4 entries.length ++ entries.flatMap encodePoolEntry) (.stringPool entries) :=
    (reads_u32_length hcount).bind hentries.map
  rw [encodeStringPool, List.append_assoc]
  exact feeds_emit .stringPool hbody rfl

theorem skims_stackPool {entries : List (StackPoolEntry (List UInt64))}
    (hcount : entries.length < 2 ^ 32) (hframes : ∀ entry ∈ entries, entry.frames.length < 2 ^ 32)
    (hreads : ∀ frames : List UInt64, ∃ packed,
      Reads (flavour.decodeFrames frames.length) (frames.flatMap encodeAddr) packed) :
    Skims flavour s (encodeStackPool entries) s := by
  intro pools
  have hentry : ∀ entry ∈ entries, ∃ packed,
      Reads (decodeStackPoolEntryWith flavour) (encodeStackPoolEntry entry) packed := by
    intro entry hentry
    have hlt := hframes entry hentry
    obtain ⟨packed, hpacked⟩ := hreads entry.frames
    rw [← Nat.mod_eq_of_lt hlt, ← UInt32.toNat_ofNat'] at hpacked
    rw [encodeStackPoolEntry, List.append_assoc]
    exact ⟨_, (reads_u32 entry.poolId).bind ((reads_u32_length hlt).bind hpacked.map)⟩
  obtain ⟨packed, hpacked⟩ := exists_reads_times hentry
  rw [← Nat.mod_eq_of_lt hcount, ← UInt32.toNat_ofNat'] at hpacked
  have hbody : Reads (decodeStackPoolFrameWith flavour)
      (leBytes 4 entries.length ++ entries.flatMap encodeStackPoolEntry) (.stackPool packed) :=
    (reads_u32_length hcount).bind hpacked.map
  rw [encodeStackPool, List.append_assoc]
  exact ⟨(s.withPools pools).insertStacks
    (packed.map fun entry => ⟨entry.poolId, flavour.toStackFrames entry.frames⟩), _,
    feeds_emit .stackPool hbody rfl⟩

theorem feeds_stackPool {entry : StackPoolEntry (List UInt64)} (h : entry.frames.length < 2 ^ 32) :
    Feeds owned s (encodeStackPool [entry])
      [(.stackPool [entry], s.insertStacks [entry])] (s.insertStacks [entry]) := by
  have hcount : (UInt32.ofNat entry.frames.length).toNat = entry.frames.length := by
    rw [UInt32.toNat_ofNat', Nat.mod_eq_of_lt h]
  have hframes : Reads (owned.decodeFrames (UInt32.ofNat entry.frames.length).toNat)
      (entry.frames.flatMap encodeAddr) entry.frames := by
    rw [hcount]
    exact reads_times fun addr _ => reads_addr addr
  have hentry : Reads (decodeStackPoolEntryWith owned) (encodeStackPoolEntry entry) entry := by
    rw [encodeStackPoolEntry, List.append_assoc]
    exact (reads_u32 entry.poolId).bind ((reads_u32_length h).bind hframes.map)
  have hbody : Reads (decodeStackPoolFrameWith owned)
      (leBytes 4 [entry].length ++ [entry].flatMap encodeStackPoolEntry) (.stackPool [entry]) :=
    (reads_u32_length (by simp)).bind
      (reads_times (List.forall_mem_singleton.mpr hentry)).map
  rw [encodeStackPool, List.append_assoc]
  exact feeds_emit .stackPool hbody rfl

theorem feeds_event {delta : Nat} {ts : UInt64} {tags : List UInt8} {values : List V}
    (hinfo : s.schemaInfo typeId = some ⟨tags, true⟩) (hdelta : delta ≤ maxTimestampDeltaNs)
    (hts : checkedAdd s.timestampBaseNs delta = some ts)
    (hvalues : Reads (forEach (decodeField flavour) tags) bytes values) :
    Feeds flavour s
      ([FrameTag.event.byte] ++ leBytes 2 typeId.toNat ++ encodeU24Le delta ++ bytes)
      [(.event typeId ts values, { s with timestampBaseNs := ts })]
      { s with timestampBaseNs := ts } := by
  have htime : Reads (decodeTimestamp ⟨tags, true⟩ s.timestampBaseNs) (encodeU24Le delta) ts :=
    (reads_word_of_lt (w := 3) (by unfold maxTimestampDeltaNs at hdelta; omega)).bind_nil
      (reads_ofOption hts)
  have hrest : Reads (ofOption (s.schemaInfo typeId) >>= fun info => do
      let timestampNs ← decodeTimestamp info s.timestampBaseNs
      let values ← forEach (decodeField flavour) info.fieldTags
      pure (Frame.event (V := V) (F := F) typeId timestampNs values))
      (encodeU24Le delta ++ bytes) (.event typeId ts values) := by
    rw [hinfo]
    exact htime.bind hvalues.map
  have hbody : Reads (decodeEventFrameWith flavour s.schemaInfo s.timestampBaseNs)
      (leBytes 2 typeId.toNat ++ (encodeU24Le delta ++ bytes)) (.event typeId ts values) :=
    (reads_u16 typeId).bind hrest
  rw [List.append_assoc, List.append_assoc]
  exact feeds_emit .event hbody rfl

/-! ## Frames for either decoder -/

theorem skims_schema {entry : SchemaEntry} (hfits : entry.Fits) {registry : SchemaRegistry}
    (hregister : s.registry.register typeId entry.bare = .ok registry) :
    Skims flavour s (encodeSchema typeId entry) (s.registerSchema typeId entry.bare true).2 := by
  intro pools
  have hpools : ((s.withPools pools).registerSchema typeId entry.bare true).2 =
      (s.registerSchema typeId entry.bare true).2.withPools pools := by
    simp only [DecoderState.registerSchema, DecoderState.withPools, hregister]
  exact ⟨pools, _, hpools ▸ feeds_schema flavour (s := s.withPools pools) hfits hregister⟩

theorem readable_schema {entry : SchemaEntry} (hfits : entry.Fits) {registry : SchemaRegistry}
    (hregister : s.registry.register typeId entry.bare = .ok registry) :
    Readable s (encodeSchema typeId entry) (s.registerSchema typeId entry.bare true).2 :=
  ⟨skims_schema owned hfits hregister, skims_schema zeroCopy hfits hregister⟩

theorem readable_schemaAnnotations {annotations : List FieldAnnotation}
    (hfits : ∀ a ∈ annotations, a.key.bytes.length < 2 ^ 16 ∧ a.value.bytes.length < 2 ^ 32)
    (hencode : encodeSchemaAnnotations typeId annotations = .ok bytes) :
    Readable s bytes (s.mergeAnnotations typeId annotations) :=
  ⟨fun pools => ⟨pools, _, feeds_schemaAnnotations owned (s := s.withPools pools) hfits hencode⟩,
    fun pools =>
      ⟨pools, _, feeds_schemaAnnotations zeroCopy (s := s.withPools pools) hfits hencode⟩⟩

theorem readable_stringPool {entries : List PoolEntry} (hcount : entries.length < 2 ^ 32)
    (hdata : ∀ entry ∈ entries, entry.data.length < 2 ^ 32) :
    Readable s (encodeStringPool entries) s :=
  ⟨fun pools => ⟨(s.withPools pools).insertStrings entries, _, feeds_stringPool owned hcount hdata⟩,
    fun pools =>
      ⟨(s.withPools pools).insertStrings entries, _, feeds_stringPool zeroCopy hcount hdata⟩⟩

theorem readable_stackPool {entries : List (StackPoolEntry (List UInt64))}
    (hcount : entries.length < 2 ^ 32)
    (hframes : ∀ entry ∈ entries, entry.frames.length < 2 ^ 32) :
    Readable s (encodeStackPool entries) s := by
  constructor
  · exact skims_stackPool owned hcount hframes fun _ =>
      ⟨_, reads_times fun addr _ => reads_addr addr⟩
  · refine skims_stackPool zeroCopy hcount hframes fun frames => ⟨_, reads_take_of_length ?_⟩
    rw [List.length_flatMap]
    simp [encodeAddr, leBytes_length]

theorem readable_timestampReset (s : DecoderState) (ts : UInt64) :
    Readable s ([FrameTag.timestampReset.byte] ++ leBytes 8 ts.toNat)
      { s with timestampBaseNs := ts } :=
  ⟨fun pools => ⟨pools, _, feeds_timestampReset owned (s.withPools pools) ts⟩,
    fun pools => ⟨pools, _, feeds_timestampReset zeroCopy (s.withPools pools) ts⟩⟩

theorem readable_event {delta : Nat} {ts : UInt64} {tags : List UInt8} {values : List FieldValue}
    (hinfo : s.schemaInfo typeId = some ⟨tags, true⟩) (hdelta : delta ≤ maxTimestampDeltaNs)
    (hts : checkedAdd s.timestampBaseNs delta = some ts)
    (hvalues : Reads (forEach (decodeField owned) tags) bytes values)
    (hrefs : ∃ refs, Reads (forEach (decodeField zeroCopy) tags) bytes refs) :
    Readable s ([FrameTag.event.byte] ++ leBytes 2 typeId.toNat ++ encodeU24Le delta ++ bytes)
      { s with timestampBaseNs := ts } := by
  obtain ⟨refs, hrefs⟩ := hrefs
  exact ⟨fun pools =>
    ⟨pools, _, feeds_event owned (s := s.withPools pools) hinfo hdelta hts hvalues⟩,
    fun pools => ⟨pools, _, feeds_event zeroCopy (s := s.withPools pools) hinfo hdelta hts hrefs⟩⟩

end Frames

/-! ## Field values -/

/-- The value has the shape its field type encodes. -/
def FieldValue.Matches (ft : FieldType) (value : FieldValue) : Prop :=
  (ft.isOptional = true ∧ value = .none) ∨ value.shape = some ft.inner

section

variable {V F : Type} {flavour : Flavour V F} {read : V}

theorem reads_present (h : Reads (flavour.decodeValue (.plain ft.inner)) bytes read)
    (hopt : ft.isOptional = true) :
    Reads (decodeField flavour ft.tag) (0x01 :: bytes) read := by
  have hbody : Reads (do
      let present ← byte
      if present = 0x00 then pure flavour.absent else flavour.decodeValue (.plain ft.inner))
      ([0x01] ++ bytes) read := (reads_byte 0x01).bind h
  unfold decodeField
  rw [FieldType.fromTag_tag]
  refine (reads_pure ft).bind (c := 0x01 :: bytes) ?_
  simp only [hopt, if_true]
  exact hbody

theorem reads_absent (flavour : Flavour V F) (hopt : ft.isOptional = true) :
    Reads (decodeField flavour ft.tag) [0x00] flavour.absent := by
  have hbody : Reads (do
      let present ← byte
      if present = 0x00 then pure flavour.absent else flavour.decodeValue (.plain ft.inner))
      [0x00] flavour.absent := (reads_byte 0x00).bind_nil (reads_pure _)
  unfold decodeField
  rw [FieldType.fromTag_tag]
  refine (reads_pure ft).bind (c := [0x00]) ?_
  simp only [hopt, if_true]
  exact hbody

theorem reads_plain (h : Reads (flavour.decodeValue ft) bytes read) (hopt : ft.isOptional = false) :
    Reads (decodeField flavour ft.tag) bytes read := by
  unfold decodeField
  rw [FieldType.fromTag_tag]
  refine (reads_pure ft).bind (c := bytes) ?_
  simp only [hopt, Bool.false_eq_true, if_false]
  exact h

theorem reads_field (hmatch : value.Matches ft) (habsent : value = .none → read = flavour.absent)
    (hpresent : value ≠ .none → Reads (flavour.decodeValue (.plain ft.inner)) value.encode read) :
    Reads (decodeField flavour ft.tag) (writeFieldValue value ft) read := by
  obtain ⟨hopt, rfl⟩ | hshape := hmatch
  · simp only [writeFieldValue, hopt, if_true]
    rw [habsent rfl]
    exact reads_absent flavour hopt
  · have hne : value ≠ .none := by
      rintro rfl
      simp [FieldValue.shape] at hshape
    cases ft with
    | plain base => exact reads_plain (hpresent hne) rfl
    | optional base =>
      have hwrite : writeFieldValue value (.optional base) = 0x01 :: value.encode := by
        cases value <;> first | rfl | exact absurd rfl hne
      rw [hwrite]
      exact reads_present (hpresent hne) rfl

end

section

variable (hmatch : value.Matches ft)
  (hfits : value = .none ∨ value.Fits (maxDecodeRecursionDepth + 1))
include hmatch hfits

theorem shape_of_ne_none (hne : value ≠ .none) : value.Fits (maxDecodeRecursionDepth + 1) ∧
    value.shape = some ft.inner :=
  ⟨hfits.resolve_left hne, hmatch.resolve_left fun h => hne h.2⟩

theorem reads_writeFieldValue : Reads (decodeField owned ft.tag) (writeFieldValue value ft) value :=
  reads_field hmatch id fun hne =>
    (shape_of_ne_none hmatch hfits hne).elim FieldValue.reads_decodeDepth

theorem exists_reads_writeFieldValue :
    ∃ ref, Reads (decodeField zeroCopy ft.tag) (writeFieldValue value ft) ref := by
  by_cases hne : value = .none
  · exact ⟨zeroCopy.absent, reads_field hmatch (fun _ => rfl) fun h => absurd hne h⟩
  · obtain ⟨hfit, hshape⟩ := shape_of_ne_none hmatch hfits hne
    obtain ⟨ref, href⟩ := @FieldValueRef.exists_reads _ (.plain ft.inner) _ hfit hshape
    exact ⟨ref, reads_field hmatch (fun h => absurd h hne) fun _ => href⟩

end

/-- The lengths of a typed field fit their prefixes and the container limit. -/
def TraceField.Fits : TraceField → Prop
  | .string v => v.bytes.length < 2 ^ 32
  | .bytes v => v.length < 2 ^ 32
  | .stackFrames addrs => addrs.length ≤ maxDecodeContainerElements
  | .stringMap pairs => pairs.length ≤ maxDecodeContainerElements ∧
      ∀ pair ∈ pairs, pair.1.bytes.length < 2 ^ 32 ∧ pair.2.bytes.length < 2 ^ 32
  | _ => True

def TypedField.Fits : TypedField → Prop
  | .plain v => v.Fits
  | .present v => v.Fits
  | .absent _ => True

theorem TraceField.reads {field : TraceField} (hfits : field.Fits) :
    Reads (FieldValue.decode (.plain field.fieldType)) field.encode field.toValue := by
  -- A field whose bytes are those of its decoded value is covered by the value's own law.
  have hvalue : ∀ value : FieldValue, value.Fits (maxDecodeRecursionDepth + 1) →
      value.shape = some field.fieldType →
      Reads (FieldValue.decode (.plain field.fieldType)) value.encode value :=
    fun value hfit hshape => FieldValue.reads_decodeDepth hfit hshape
  cases field with
  | u8 v => exact (reads_byte v).map (f := fun v => FieldValue.varint v.toUInt64)
  | u16 v => exact (reads_u16 v).map (f := fun v => FieldValue.varint v.toUInt64)
  | u32 v => exact (reads_u32 v).map (f := fun v => FieldValue.varint v.toUInt64)
  | u64 v => exact hvalue (.varint v) trivial rfl
  | i64 v => exact hvalue (.i64 v) trivial rfl
  | f64 bits => exact hvalue (.f64 bits) trivial rfl
  | bool v => exact hvalue (.bool v) trivial rfl
  | string v => exact hvalue (.string v) hfits rfl
  | bytes v => exact hvalue (.bytes v) hfits rfl
  | stackFrames addrs =>
    exact hvalue (.stackFrames addrs) hfits rfl
  | internedString id =>
    exact hvalue (.pooledString id) trivial rfl
  | internedStackFrames id =>
    exact hvalue (.pooledStackFrames id) trivial rfl
  | stringMap pairs =>
    have hfit : FieldValue.Fits (maxDecodeRecursionDepth + 1)
        (.stringMap (pairs.map fun pair => (pair.1.bytes, pair.2.bytes))) := by
      refine ⟨by simpa using hfits.1, ?_⟩
      intro pair hpair
      obtain ⟨text, htext, rfl⟩ := List.mem_map.mp hpair
      exact hfits.2 text htext
    simpa [encode, FieldValue.encode, toValue, List.flatMap_map] using hvalue _ hfit rfl

theorem TraceField.exists_reads {field : TraceField} (hfits : field.Fits) :
    ∃ ref, Reads (FieldValueRef.decode (.plain field.fieldType)) field.encode ref := by
  have hvalue : ∀ value : FieldValue, value.Fits (maxDecodeRecursionDepth + 1) →
      value.shape = some field.fieldType →
      ∃ ref, Reads (FieldValueRef.decode (.plain field.fieldType)) value.encode ref :=
    fun value hfit hshape => FieldValueRef.exists_reads hfit hshape
  cases field with
  | u8 v => exact ⟨_, (reads_byte v).map⟩
  | u16 v => exact ⟨_, (reads_u16 v).map⟩
  | u32 v => exact ⟨_, (reads_u32 v).map⟩
  | u64 v => exact hvalue (.varint v) trivial rfl
  | i64 v => exact hvalue (.i64 v) trivial rfl
  | f64 bits => exact hvalue (.f64 bits) trivial rfl
  | bool v => exact hvalue (.bool v) trivial rfl
  | string v => exact hvalue (.string v) hfits rfl
  | bytes v => exact hvalue (.bytes v) hfits rfl
  | stackFrames addrs => exact hvalue (.stackFrames addrs) hfits rfl
  | internedString id => exact hvalue (.pooledString id) trivial rfl
  | internedStackFrames id => exact hvalue (.pooledStackFrames id) trivial rfl
  | stringMap pairs =>
    obtain ⟨hcount, hpairs⟩ := hfits
    have hfit : FieldValue.Fits (maxDecodeRecursionDepth + 1)
        (.stringMap (pairs.map fun pair => (pair.1.bytes, pair.2.bytes))) :=
      ⟨by simpa using hcount, List.forall_mem_map.mpr hpairs⟩
    simpa [encode, FieldValue.encode, List.flatMap_map] using hvalue _ hfit rfl

theorem TypedField.reads {field : TypedField} (hfits : field.Fits) :
    Reads (decodeField owned field.fieldType.tag) field.encode field.toValue := by
  cases field with
  | plain v => exact reads_plain (TraceField.reads hfits) rfl
  | present v => exact reads_present (TraceField.reads hfits) rfl
  | absent base => exact reads_absent owned rfl

theorem TypedField.exists_reads {field : TypedField} (hfits : field.Fits) :
    ∃ ref, Reads (decodeField zeroCopy field.fieldType.tag) field.encode ref := by
  cases field with
  | plain v =>
    obtain ⟨ref, href⟩ := TraceField.exists_reads hfits
    exact ⟨ref, reads_plain href rfl⟩
  | present v =>
    obtain ⟨ref, href⟩ := TraceField.exists_reads hfits
    exact ⟨ref, reads_present href rfl⟩
  | absent base => exact ⟨_, reads_absent zeroCopy rfl⟩

end Dial9.TraceFormat
