/-
# Session round trip

A session is a sequence of encoder operations. What was written is recorded as
each event with its schema, timestamp and values, together with the strings and
stacks interned before it; decoding the session must yield those events in
order, resolve every interned id to what was interned, and use up every byte.

The encoder narrows lengths to their prefixes without a check: a schema's field
count to 16 bits, the length of a string, a byte payload or a pooled entry to
32 bits. A session round-trips when every length fits; one with 65536 fields in
a schema does not.
-/

import Dial9.TraceFormat.Lockstep

namespace Dial9.TraceFormat

open Dial9.Lib Dial9.Lib.Reader

/-- The encoder operations of a session. `identity` is the address a newly
created schema handle received. -/
inductive Op
  | registerSchema (identity : Nat) (name : Text) (fields : List FieldDef)
  | registerExisting (schema : Schema)
  | writeEvent (schema : Schema) (ts : UInt64) (values : List FieldValue)
  | internString (text : Text)
  | internStackFrames (frames : List UInt64)

/-- What a successful operation returns. -/
inductive Response
  | schema (handle : Schema)
  | wireId (id : WireTypeId)
  | written
  | interned (id : UInt32)

/-- Tag an operation's result as a response. -/
def Encoder.respond {α : Type} (wrap : α → Response) (result : Encoder.Result α) :
    Encoder.Result Response :=
  (result.1.map wrap, result.2)

def Op.perform (e : Encoder) : Op → Encoder.Result Response
  | .registerSchema identity name fields =>
    Encoder.respond .schema (e.registerSchema identity name fields)
  | .registerExisting schema => Encoder.respond .wireId (e.registerExisting schema)
  | .writeEvent schema ts values =>
    Encoder.respond (fun _ => .written) (e.writeEvent schema ts values)
  | .internString text => Encoder.respond .interned (e.internString text)
  | .internStackFrames frames => Encoder.respond .interned (e.internStackFrames frames)

/-- Operations with their responses, in order. -/
abbrev Transcript := List (Op × Response)

/-- Perform operations one after the other; `none` as soon as one fails. -/
def runAll : Encoder → List Op → Option (Encoder × Transcript)
  | e, [] => some (e, [])
  | e, op :: ops =>
    match op.perform e with
    | (.error _, _) => none
    | (.ok response, e) => (runAll e ops).map fun (e, transcript) =>
      (e, (op, response) :: transcript)

/-- The ids handed out so far and what they stand for. -/
structure Interned where
  strings : List (UInt32 × Text)
  frames : List (UInt32 × List UInt64)

namespace Interned

def empty : Interned := ⟨[], []⟩

def after (known : Interned) : Op → Response → Interned
  | .internString text, .interned id => { known with strings := (id, text) :: known.strings }
  | .internStackFrames frames, .interned id =>
    { known with frames := (id, frames) :: known.frames }
  | _, _ => known

/-- The decoder resolves every interned id. -/
structure ResolvedBy (known : Interned) (s : DecoderState) : Prop where
  strings : ∀ pair ∈ known.strings, s.stringPool.lookup pair.1 = some pair.2
  frames : ∀ pair ∈ known.frames, s.stackPool.lookup pair.1 = some pair.2

theorem ResolvedBy.mono {known : Interned} {s s' : DecoderState} (h : known.ResolvedBy s)
    (hext : s.Extends s') : known.ResolvedBy s' :=
  ⟨fun pair hpair => hext.stringPool _ _ (h.strings pair hpair),
    fun pair hpair => hext.stackPool _ _ (h.frames pair hpair)⟩

end Interned

/-- An event as it was written, with what had been interned by then. -/
structure Written where
  entry : SchemaEntry
  timestampNs : UInt64
  values : List FieldValue
  known : Interned

/-- The events an operation writes. -/
def Op.written (known : Interned) : Op → List Written
  | .writeEvent schema ts values => [⟨schema.entry, ts, values, known⟩]
  | _ => []

def writtenFrom : Interned → Transcript → List Written
  | _, [] => []
  | known, (op, response) :: transcript =>
    op.written known ++ writtenFrom (known.after op response) transcript

def internedFrom : Interned → Transcript → Interned
  | known, [] => known
  | known, (op, response) :: transcript => internedFrom (known.after op response) transcript

/-- A decoded event, in the decoder state right after it, is the written one:
same schema, absolute timestamp and values, and every id interned by then
resolves. -/
def Written.IsDecodedAs (w : Written)
    (decoded : DecodedFrame FieldValue (List UInt64) × DecoderState) : Prop :=
  ∃ typeId, decoded.1 = .event typeId w.timestampNs w.values ∧
    decoded.2.registry.get typeId = some w.entry ∧ w.known.ResolvedBy decoded.2

/-- Decoding the output yields exactly what the transcript wrote. -/
def RoundTrips (out : Bytes) (transcript : Transcript) : Prop :=
  ∃ d run last, Decoder.new out = some d ∧ d.decodeAll = (run, some (.exhausted, last)) ∧
    last.rest = [] ∧ last.pos = out.length ∧
    List.Forall₂ Written.IsDecodedAs (writtenFrom .empty transcript) (eventsOf (stateLog run)) ∧
    (internedFrom .empty transcript).ResolvedBy last.state

/-! ## Admissible operations -/

/-- Names and annotation strings of at most 65535 bytes. -/
structure SchemaEntry.NamesShort (entry : SchemaEntry) : Prop where
  name : entry.name.bytes.length ≤ 65535
  fieldNames : ∀ field ∈ entry.fields, field.name.bytes.length ≤ 65535
  annotations : ∀ a ∈ entry.annotations,
    a.key.bytes.length ≤ 65535 ∧ a.value.bytes.length ≤ 65535

namespace FieldValue

/-- Containers of at most a million elements, nested within the budget, with no
`none` inside. -/
def WithinLimits : Nat → FieldValue → Prop
  | 0, _ => False
  | budget + 1, value =>
    match value with
    | stackFrames addrs => addrs.length ≤ maxDecodeContainerElements
    | stringMap pairs => pairs.length ≤ maxDecodeContainerElements
    | list items => items.length ≤ maxDecodeContainerElements ∧
        ∀ item ∈ items, WithinLimits budget item
    | map pairs => pairs.length ≤ maxDecodeContainerElements ∧
        ∀ pair ∈ pairs, WithinLimits budget pair.1 ∧ WithinLimits budget pair.2
    | none => False
    | _ => True

mutual

/-- Every length-prefixed payload inside a value. -/
def payloads : FieldValue → List Bytes
  | string v => [v.bytes]
  | bytes v => [v]
  | stringMap pairs => pairs.flatMap fun pair => [pair.1, pair.2]
  | list items => payloadsItems items
  | map pairs => payloadsEntries pairs
  | _ => []

def payloadsItems : List FieldValue → List Bytes
  | [] => []
  | item :: items => item.payloads ++ payloadsItems items

def payloadsEntries : List (FieldValue × FieldValue) → List Bytes
  | [] => []
  | (key, value) :: entries => key.payloads ++ value.payloads ++ payloadsEntries entries

end

theorem payloads_subset_items {item : FieldValue} {items : List FieldValue} (h : item ∈ items) :
    item.payloads ⊆ payloadsItems items := by
  induction items with
  | nil => cases h
  | cons head items ih =>
    intro payload hpayload
    rw [payloadsItems, List.mem_append]
    obtain rfl | htail := List.mem_cons.mp h
    · exact .inl hpayload
    · exact .inr (ih htail hpayload)

theorem payloads_subset_entries {pair : FieldValue × FieldValue}
    {entries : List (FieldValue × FieldValue)} (h : pair ∈ entries) :
    pair.1.payloads ++ pair.2.payloads ⊆ payloadsEntries entries := by
  induction entries with
  | nil => cases h
  | cons head entries ih =>
    intro payload hpayload
    rw [payloadsEntries, List.mem_append]
    obtain rfl | htail := List.mem_cons.mp h
    · exact .inl hpayload
    · exact .inr (ih htail hpayload)

theorem fits_of_withinLimits :
    ∀ {budget : Nat} {value : FieldValue}, WithinLimits budget value →
      (∀ payload ∈ value.payloads, payload.length < 2 ^ 32) → Fits budget value
  | 0, _, hlimits, _ => hlimits
  | budget + 1, value, hlimits, hpayloads => by
      cases value with
      | string v => exact hpayloads v.bytes (by simp [payloads])
      | bytes v => exact hpayloads v (by simp [payloads])
      | stringMap pairs =>
        refine ⟨hlimits, fun pair hpair => ⟨hpayloads _ ?_, hpayloads _ ?_⟩⟩
        · exact List.mem_flatMap.mpr ⟨pair, hpair, by simp⟩
        · exact List.mem_flatMap.mpr ⟨pair, hpair, by simp⟩
      | list items =>
        refine ⟨hlimits.1, fun item hitem => ?_⟩
        refine fits_of_withinLimits (hlimits.2 item hitem) fun payload hpayload => ?_
        exact hpayloads payload (payloads_subset_items hitem hpayload)
      | map pairs =>
        refine ⟨hlimits.1, fun pair hpair => ⟨?_, ?_⟩⟩
        · refine fits_of_withinLimits (hlimits.2 pair hpair).1 fun payload hpayload => ?_
          exact hpayloads payload (payloads_subset_entries hpair (by simp [hpayload]))
        · refine fits_of_withinLimits (hlimits.2 pair hpair).2 fun payload hpayload => ?_
          exact hpayloads payload (payloads_subset_entries hpair (by simp [hpayload]))
      | stackFrames _ | none => exact hlimits
      | _ => trivial

end FieldValue

/-- Values have the shapes their field types encode and respect the decoder's
documented limits. -/
def ValuesAdmissible (entry : SchemaEntry) (values : List FieldValue) : Prop :=
  ∀ pair ∈ values.zip entry.fields, pair.1.Matches pair.2.fieldType ∧
    (pair.1 = .none ∨ pair.1.WithinLimits (maxDecodeRecursionDepth + 1))

/-- What a caller of the encoder keeps to. -/
def Op.Admissible : Op → Prop
  | .registerSchema _ name fields => SchemaEntry.NamesShort ⟨name, fields, []⟩
  | .registerExisting schema => schema.entry.NamesShort
  | .writeEvent schema _ values => schema.entry.NamesShort ∧ ValuesAdmissible schema.entry values
  | .internString _ => True
  | .internStackFrames _ => True

/-- Every length fits the prefix it is cut to. -/
def Op.LengthsFit : Op → Prop
  | .registerSchema _ _ fields => fields.length < 2 ^ 16
  | .registerExisting schema => schema.entry.fields.length < 2 ^ 16
  | .writeEvent schema _ values => schema.entry.fields.length < 2 ^ 16 ∧
      ∀ value ∈ values, ∀ payload ∈ value.payloads, payload.length < 2 ^ 32
  | .internString text => text.bytes.length < 2 ^ 32
  | .internStackFrames frames => frames.length < 2 ^ 32

theorem SchemaEntry.NamesShort.fits {entry : SchemaEntry} (h : entry.NamesShort)
    (hcount : entry.fields.length < 2 ^ 16) : entry.Fits where
  name := by have := h.name; omega
  fieldCount := hcount
  fieldNames field hfield := by have := h.fieldNames field hfield; omega
  annotations a ha := by have := h.annotations a ha; omega

theorem ValuesAdmissible.fit {entry : SchemaEntry} {values : List FieldValue}
    (h : ValuesAdmissible entry values)
    (hpayloads : ∀ value ∈ values, ∀ payload ∈ value.payloads, payload.length < 2 ^ 32) :
    ValuesFit entry values := by
  intro pair hpair
  obtain ⟨hmatch, hlimits⟩ := h pair hpair
  refine ⟨hmatch, hlimits.imp_right fun hwithin => ?_⟩
  exact FieldValue.fits_of_withinLimits hwithin (hpayloads pair.1 (List.of_mem_zip hpair).1)

/-! ## The run -/

variable {untimed : SchemaEntry → Prop}

/-- No event of a schema without a packed timestamp is written. -/
def Op.Timed (untimed : SchemaEntry → Prop) : Op → Prop
  | .writeEvent schema _ _ => ¬ untimed schema.entry
  | _ => True

theorem Op.timed_of_never (op : Op) : op.Timed fun _ => False := by
  cases op <;> simp [Timed]

/-- One operation: the decoder follows, also a failure. A success shows its
events and resolves what it interned. -/
theorem perform_follows {e e' : Encoder} {s : DecoderState} {op : Op}
    {result : Except Fault Response} {known : Interned} (hsync : Synced untimed e s)
    (hadm : op.Admissible) (hlen : op.LengthsFit) (htimed : op.Timed untimed)
    (hknown : known.ResolvedBy s) (h : op.perform e = (result, e')) :
    ∃ s' events, Follows e e' s s' events ∧ Synced untimed e' s' ∧
      (∀ response, result = .ok response → (known.after op response).ResolvedBy s' ∧
        List.Forall₂ Written.IsDecodedAs (op.written known) events) ∧
      (∀ fault, result = .error fault → events = []) := by
  cases op with
  | registerSchema identity name fields =>
    simp only [Op.perform, Encoder.respond, Encoder.registerSchema] at h
    cases hensure : e.ensureRegistered ⟨identity, ⟨name, fields, []⟩⟩ with
    | mk ensured e₁ =>
      obtain ⟨s', hfollows, hsync', -⟩ :=
        ensureRegistered_follows hsync (hadm.fits hlen) hensure
      have he' : e₁ = e' := by
        cases ensured <;> exact (Prod.mk.inj (by simpa [hensure] using h)).2
      subst he'
      exact ⟨s', [], hfollows, hsync', fun _ _ => ⟨hknown.mono hfollows.keeps, .nil⟩,
        fun _ _ => rfl⟩
  | registerExisting schema =>
    simp only [Op.perform, Encoder.respond, Encoder.registerExisting] at h
    cases hensure : e.ensureRegistered schema with
    | mk ensured e₁ =>
      obtain ⟨s', hfollows, hsync', -⟩ :=
        ensureRegistered_follows hsync (hadm.fits hlen) hensure
      rw [hensure] at h
      obtain rfl : e₁ = e' := (Prod.mk.inj h).2
      exact ⟨s', [], hfollows, hsync', fun _ _ => ⟨hknown.mono hfollows.keeps, .nil⟩,
        fun _ _ => rfl⟩
  | writeEvent schema ts values =>
    simp only [Op.perform, Encoder.respond] at h
    cases hwrite : e.writeEvent schema ts values with
    | mk written e₁ =>
      obtain ⟨s', events, hfollows, hsync', hevents, hnone⟩ := writeEvent_follows hsync
        (hadm.1.fits hlen.1) (hadm.2.fit hlen.2) htimed hwrite
      rw [hwrite] at h
      obtain ⟨rfl, rfl⟩ := Prod.mk.inj h
      refine ⟨s', events, hfollows, hsync', ?_, ?_⟩
      · intro response hresponse
        cases written with
        | error fault => cases hresponse
        | ok done =>
          obtain ⟨typeId, hentry, rfl⟩ := hevents rfl
          have hresolved := hknown.mono hfollows.keeps
          exact ⟨hresolved, .cons ⟨typeId, rfl, hentry, hresolved⟩ .nil⟩
      · intro fault hfault
        cases written with
        | error fault' => exact hnone fault' rfl
        | ok done => cases hfault
  | internString text =>
    simp only [Op.perform, Encoder.respond] at h
    cases hintern : e.internString text with
    | mk interned e₁ =>
      obtain ⟨s', hfollows, hsync', hlookup⟩ := internString_follows hsync hlen hintern
      rw [hintern] at h
      obtain ⟨rfl, rfl⟩ := Prod.mk.inj h
      refine ⟨s', [], hfollows, hsync', ?_, fun _ _ => rfl⟩
      intro response hresponse
      cases interned with
      | error fault => cases hresponse
      | ok id =>
        obtain rfl := Except.ok.inj hresponse
        have hold := hknown.mono hfollows.keeps
        refine ⟨⟨?_, hold.frames⟩, .nil⟩
        exact List.forall_mem_cons.mpr ⟨hlookup id rfl, hold.strings⟩
  | internStackFrames frames =>
    simp only [Op.perform, Encoder.respond] at h
    cases hintern : e.internStackFrames frames with
    | mk interned e₁ =>
      obtain ⟨s', hfollows, hsync', hlookup⟩ := internStackFrames_follows hsync hlen hintern
      rw [hintern] at h
      obtain ⟨rfl, rfl⟩ := Prod.mk.inj h
      refine ⟨s', [], hfollows, hsync', ?_, fun _ _ => rfl⟩
      intro response hresponse
      cases interned with
      | error fault => cases hresponse
      | ok id =>
        obtain rfl := Except.ok.inj hresponse
        have hold := hknown.mono hfollows.keeps
        refine ⟨⟨hold.strings, ?_⟩, .nil⟩
        exact List.forall_mem_cons.mpr ⟨hlookup id rfl, hold.frames⟩

/-- A run of successful operations, from any encoder in step with a decoder. -/
theorem runAll_follows {ops : List Op} :
    ∀ {e e' : Encoder} {s : DecoderState} {known : Interned} {transcript : Transcript},
      Synced untimed e s → (∀ op ∈ ops, op.Admissible) → (∀ op ∈ ops, op.LengthsFit) →
      (∀ op ∈ ops, op.Timed untimed) → known.ResolvedBy s →
      runAll e ops = some (e', transcript) →
      ∃ s' events, Follows e e' s s' events ∧ Synced untimed e' s' ∧
        (internedFrom known transcript).ResolvedBy s' ∧
        List.Forall₂ Written.IsDecodedAs (writtenFrom known transcript) events := by
  induction ops with
  | nil =>
    intro e e' s known transcript hsync _ _ _ hknown h
    obtain ⟨rfl, rfl⟩ : e = e' ∧ [] = transcript := by simpa [runAll] using h
    exact ⟨s, [], .refl _ _, hsync, hknown, .nil⟩
  | cons op ops ih =>
    intro e e' s known transcript hsync hadm hlen htimed hknown h
    unfold runAll at h
    cases hop : op.perform e with
    | mk result e₁ =>
      cases result with
      | error fault => simp [hop] at h
      | ok response =>
        simp only [hop] at h
        obtain ⟨⟨e₂, rest⟩, hrest, heq⟩ := Option.map_eq_some_iff.mp h
        obtain ⟨rfl, rfl⟩ := Prod.mk.inj heq
        obtain ⟨s₁, events₁, hfollows₁, hsync₁, hsuccess, -⟩ :=
          perform_follows hsync (hadm op (by simp)) (hlen op (by simp)) (htimed op (by simp))
            hknown hop
        obtain ⟨hknown₁, hevents₁⟩ := hsuccess response rfl
        obtain ⟨s₂, events₂, hfollows₂, hsync₂, hknown₂, hevents₂⟩ :=
          ih hsync₁ (fun o ho => hadm o (by simp [ho])) (fun o ho => hlen o (by simp [ho]))
            (fun o ho => htimed o (by simp [ho])) hknown₁ hrest
        exact ⟨s₂, events₁ ++ events₂, hfollows₁.trans hfollows₂, hsync₂, hknown₂,
          List.rel_append hevents₁ hevents₂⟩

theorem decoder_new_header (bytes : Bytes) :
    Decoder.new (encodeHeader ++ bytes) = some ⟨bytes, headerSize, .new⟩ := by
  have hheader := Decoder.reads_decodeHeader version bytes
  simp only [Decoder.new, encodeHeader, hheader, Option.map_some]

/-- Every session of admissible operations whose lengths fit round-trips. -/
theorem session_roundTrips {ops : List Op} {e : Encoder} {transcript : Transcript}
    (hadmissible : ∀ op ∈ ops, op.Admissible) (hlengths : ∀ op ∈ ops, op.LengthsFit)
    (hrun : runAll .new ops = some (e, transcript)) : RoundTrips e.out transcript := by
  have hempty : Interned.empty.ResolvedBy .new :=
    ⟨by simp [Interned.empty], by simp [Interned.empty]⟩
  obtain ⟨s', events, hfollows, -, hknown, hevents⟩ :=
    runAll_follows (synced_new fun _ => False) hadmissible hlengths
      (fun op _ => op.timed_of_never) hempty hrun
  obtain ⟨bytes, log, hout, hfeeds, hlog⟩ := hfollows.fed
  obtain ⟨run, hdecode, hstates⟩ := hfeeds.decodeAllWith owned_local headerSize
  have hnew : Decoder.new e.out = some ⟨bytes, headerSize, .new⟩ := by
    rw [hout]
    exact decoder_new_header bytes
  refine ⟨_, run, _, hnew, hdecode, rfl, ?_, ?_, hknown⟩
  · rw [hout, List.length_append]
    rfl
  · rw [hstates, hlog]
    exact hevents

/-! ## A small session -/

/-- The one-letter name `v`. -/
def sampleName : Text := ⟨[0x76], by decide⟩

/-- A schema with a varint and an optional pooled string. -/
def sampleSchema : Schema where
  identity := 0
  entry := ⟨sampleName,
    [⟨sampleName, .plain .varint⟩, ⟨sampleName, .optional .pooledString⟩], []⟩

/-- Interning, a gap of more than three bytes of delta, and a jump backwards. -/
def sampleOps : List Op :=
  [.internString sampleName,
    .writeEvent sampleSchema 100000000 [.varint 300, .pooledString 0],
    .writeEvent sampleSchema 5 [.varint 1, .none]]

theorem session_roundTrips_sample :
    ∃ e transcript, runAll .new sampleOps = some (e, transcript) ∧
      (writtenFrom .empty transcript).length = 2 ∧ RoundTrips e.out transcript := by
  have hnames : sampleSchema.entry.NamesShort :=
    ⟨by decide, by decide, by simp [sampleSchema]⟩
  have hadmissible : ∀ op ∈ sampleOps, op.Admissible := by
    intro op hop
    simp only [sampleOps, List.mem_cons, List.not_mem_nil, or_false] at hop
    obtain rfl | rfl | rfl := hop
    · trivial
    · refine ⟨hnames, ?_⟩
      simp [ValuesAdmissible, sampleSchema, FieldValue.Matches, FieldValue.shape,
        FieldType.inner, FieldValue.WithinLimits]
    · refine ⟨hnames, ?_⟩
      simp [ValuesAdmissible, sampleSchema, FieldValue.Matches, FieldValue.shape,
        FieldType.inner, FieldType.isOptional, FieldValue.WithinLimits]
  have hlengths : ∀ op ∈ sampleOps, op.LengthsFit := by
    intro op hop
    simp only [sampleOps, List.mem_cons, List.not_mem_nil, or_false] at hop
    obtain rfl | rfl | rfl := hop
    · simp [Op.LengthsFit, sampleName]
    · simp [Op.LengthsFit, sampleSchema, FieldValue.payloads]
    · simp [Op.LengthsFit, sampleSchema, FieldValue.payloads]
  exact ⟨_, _, rfl, rfl, session_roundTrips hadmissible hlengths rfl⟩

/-! ## A schema with 65536 fields -/

def emptyName : Text := ⟨[], by decide⟩

/-- One field more than a 16-bit count can say. -/
def wideFields : List FieldDef := List.replicate 65536 ⟨emptyName, .plain .i64⟩

def wideOps : List Op := [.registerSchema 0 emptyName wideFields]

theorem runAll_registerSchema (identity : Nat) (name : Text) (fields : List FieldDef) :
    ∃ e transcript, runAll .new [.registerSchema identity name fields] = some (e, transcript) ∧
      e.out = encodeHeader ++ encodeSchema 256 ⟨name, fields, []⟩ := ⟨_, _, rfl, rfl⟩

/-- The field count is written as zero, so the frame ends before its fields and
the decoder stops at the first of them. -/
theorem nextTurn_wide (rest : Bytes) (pos : Nat) :
    ∃ s', Decoder.nextTurnWith owned
        ⟨encodeSchema 256 ⟨emptyName, wideFields, []⟩ ++ rest, pos, .new⟩ =
      .emit (.schema ⟨emptyName, [], []⟩)
        ⟨wideFields.flatMap encodeFieldDef ++ rest, pos + 8, s'⟩ := by
  have hbody : Reads (decodeSchemaFrame (V := FieldValue) (F := List UInt64))
      (leBytes 2 (256 : WireTypeId).toNat ++ (encodeName emptyName.bytes ++ ([1] ++ leBytes 2 0)))
      (.schema 256 ⟨emptyName, [], []⟩ true) :=
    (reads_u16 256).bind ((reads_decodeName (show emptyName.bytes.length < 2 ^ 16 by decide)).bind
      ((reads_byte 1).bind ((reads_u16_length (n := 0) (by decide)).bind_nil (reads_pure _))))
  have hturn := Decoder.nextTurnWith_frame owned .schema .new hbody
      (wideFields.flatMap encodeFieldDef ++ rest) pos
  have hcount : leBytes 2 wideFields.length = leBytes 2 0 := by
    rw [wideFields, List.length_replicate]
    rfl
  have hsplit : encodeSchema 256 ⟨emptyName, wideFields, []⟩ ++ rest =
      FrameTag.schema.byte :: (leBytes 2 (256 : WireTypeId).toNat ++
        (encodeName emptyName.bytes ++ ([1] ++ leBytes 2 0))) ++
          (wideFields.flatMap encodeFieldDef ++ rest) := by
    simp only [encodeSchema, hcount, List.append_assoc]
    rfl
  rw [hsplit, hturn]
  exact ⟨_, rfl⟩

theorem wideFields_bytes : ∃ tail, wideFields.flatMap encodeFieldDef = 0 :: tail := by
  rw [wideFields, List.replicate_succ, List.flatMap_cons]
  exact ⟨_, rfl⟩

/-- Admissible, successful, and not read back: bytes are left over. -/
theorem session_wide_not_roundTrips :
    ∃ e transcript, runAll .new wideOps = some (e, transcript) ∧
      (∀ op ∈ wideOps, op.Admissible) ∧ ¬ RoundTrips e.out transcript := by
  obtain ⟨e, transcript, hrun, hout⟩ := runAll_registerSchema 0 emptyName wideFields
  refine ⟨e, transcript, hrun, ?_, ?_⟩
  · intro op hop
    obtain rfl : op = .registerSchema 0 emptyName wideFields := by simpa [wideOps] using hop
    refine ⟨by decide, ?_, by simp⟩
    intro field hfield
    obtain rfl := List.eq_of_mem_replicate hfield
    decide
  · rintro ⟨d, run, last, hnew, hdecode, hrest, -⟩
    obtain ⟨s', hturn⟩ := nextTurn_wide [] headerSize
    rw [List.append_nil, List.append_nil] at hturn
    obtain ⟨tail, hfields⟩ := wideFields_bytes
    rw [hfields] at hturn
    have hhalt : Decoder.nextTurnWith owned ⟨0 :: tail, headerSize + 8, s'⟩ =
        .halt .exhausted ⟨0 :: tail, headerSize + 8, s'⟩ := by
      have hheader : Decoder.tryConsumeResetHeader ⟨0 :: tail, headerSize + 8, s'⟩ = none := by
        simp only [Decoder.tryConsumeResetHeader, Decoder.decodeHeader_of_ne
          (show (0 : UInt8) ≠ 0x54 by decide), Option.map_none]
      unfold Decoder.nextTurnWith
      rw [hheader]
      rfl
    have hall := Decoder.decodeAllWith_of_steps owned_local
      (Machine.Steps.single_emit hturn) hhalt
    rw [hout, decoder_new_header] at hnew
    obtain rfl := Option.some.inj hnew
    have hlast : last = ⟨0 :: tail, headerSize + 8, s'⟩ := by
      have := congrArg Prod.snd (hdecode.symm.trans hall)
      simpa using this
    rw [hlast] at hrest
    cases hrest

end Dial9.TraceFormat
