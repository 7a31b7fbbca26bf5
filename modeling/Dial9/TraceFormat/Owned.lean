/-
# Owned and zero-copy decoding

`next_frame` and `next_frame_ref` are written twice, down to each field type.
Over streams whose strings and string maps are UTF-8 they yield the same frames
(after `to_owned`), stop at the same position and fail alike exactly when no
event carries stack frames above the container limit: only the owned decoder
knows that limit. The condition is read off the stream by a scan that keeps
every payload as bytes.
-/

import Dial9.TraceFormat.Scan
import Dial9.TraceFormat.Wire

namespace Dial9.TraceFormat

open Dial9.Lib Dial9.Lib.Reader

/-- Scanning as a way of decoding frames. -/
def scan : Flavour RawValue Bytes where
  decodeValue := RawValue.decode
  absent := .none
  decodeFrames := fun count => take (count * 8)
  toStackFrames := zeroCopy.toStackFrames

/-- Convert the values and the pooled stacks of a frame. -/
def Frame.convert {V W F G : Type} (value : V → Option W) (frames : F → G) :
    Frame V F → Option (Frame W G)
  | .schema typeId entry ts => some (.schema typeId entry ts)
  | .event typeId ts values => (values.mapM value).map (.event typeId ts)
  | .stringPool entries => some (.stringPool entries)
  | .stackPool entries =>
    some (.stackPool (entries.map fun entry => ⟨entry.poolId, frames entry.frames⟩))
  | .timestampReset ts => some (.timestampReset ts)
  | .schemaAnnotations typeId annotations => some (.schemaAnnotations typeId annotations)

/-- A flavour that is the scan followed by a conversion. -/
structure Flavour.IsScan {V F : Type} (flavour : Flavour V F) (value : RawValue → Option V)
    (frames : Bytes → F) : Prop where
  decodeValue : ∀ ft, flavour.decodeValue ft = (RawValue.decode ft).convert value
  absent : value .none = some flavour.absent
  decodeFrames : ∀ n, flavour.decodeFrames n = (take (n * 8)).convert fun b => some (frames b)
  toStackFrames : ∀ b, flavour.toStackFrames (frames b) = zeroCopy.toStackFrames b

theorem owned_isScan : owned.IsScan RawValue.toOwned? zeroCopy.toStackFrames where
  decodeValue ft := FieldValue.decodeDepth_eq _ ft
  absent := rfl
  decodeFrames n := by
    change times u64 n = _
    rw [times_u64_eq]
    funext input
    simp only [convert_apply, take]
    split
    · next hle => simp [zeroCopy, hle]
    · rfl
  toStackFrames _ := rfl

theorem zeroCopy_isScan : zeroCopy.IsScan RawValue.toRef? id where
  decodeValue ft := FieldValueRef.decodeDepth_eq _ ft
  absent := rfl
  decodeFrames n := by
    funext input
    simp only [convert_apply, zeroCopy, id]
    cases take (n * 8) input with
    | none | some _ => rfl
  toStackFrames _ := rfl

section Bodies

variable {V F : Type} {flavour : Flavour V F} {value : RawValue → Option V} {frames : Bytes → F}

theorem decodeField_eq_convert (h : flavour.IsScan value frames) (tag : UInt8) :
    decodeField flavour tag = (decodeField scan tag).convert value := by
  refine bind_convert fun ft => ?_
  cases ft.isOptional with
  | false =>
    simp only [Bool.false_eq_true, if_false]
    exact h.decodeValue ft
  | true =>
    simp only [if_true]
    refine bind_convert fun present => ?_
    by_cases hzero : present = 0x00
    · simp only [if_pos hzero]
      funext input
      rw [convert_apply]
      simp [scan, h.absent]
    · simp only [if_neg hzero]
      exact h.decodeValue _

theorem decodeStackPoolEntry_eq_convert (h : flavour.IsScan value frames) :
    decodeStackPoolEntryWith flavour = (decodeStackPoolEntryWith scan).convert fun entry =>
      some ⟨entry.poolId, frames entry.frames⟩ := by
  refine bind_convert fun poolId => bind_convert fun count => ?_
  rw [h.decodeFrames, bind_pure_convert, convert_bind_pure]
  rfl

theorem mapM_some_map {α β : Type} (f : α → β) (xs : List α) :
    xs.mapM (fun x => some (f x)) = some (xs.map f) := by
  induction xs with
  | nil => rfl
  | cons x xs ih => simp [List.mapM_cons, ih]

/-- Decoding a frame body is scanning it and converting the result. -/
theorem decodeBodyWith_eq_convert (h : flavour.IsScan value frames)
    (lookup : WireTypeId → Option SchemaInfo) (base : UInt64) (tag : FrameTag) :
    decodeBodyWith flavour lookup base tag =
      (decodeBodyWith scan lookup base tag).convert (Frame.convert value frames) := by
  cases tag with
  | schema =>
    exact bind_convert fun _ => bind_convert fun _ => bind_convert fun _ => bind_convert fun _ =>
      leaf_convert fun _ => rfl
  | event =>
    refine bind_convert fun _ => bind_convert fun info => bind_convert fun _ => ?_
    have hfields : decodeField flavour = fun tag => (decodeField scan tag).convert value :=
      funext (decodeField_eq_convert h)
    rw [hfields, forEach_convert, bind_pure_convert, convert_bind_pure]
    rfl
  | stringPool => exact bind_convert fun _ => leaf_convert fun _ => rfl
  | stackPool =>
    refine bind_convert fun _ => ?_
    rw [decodeStackPoolEntry_eq_convert h, times_convert, bind_pure_convert, convert_bind_pure]
    simp only [mapM_some_map]
    rfl
  | timestampReset => exact leaf_convert fun _ => rfl
  | schemaAnnotations => exact bind_convert fun _ => bind_convert fun _ => leaf_convert fun _ => rfl

end Bodies

theorem RawValue.isLocal_decodeDepth :
    ∀ (budget : Nat) (ft : FieldType), IsLocal (decodeDepth budget ft)
  | 0, _ => isLocal_fail
  | budget + 1, ft => by
      have ih := isLocal_decodeDepth budget
      unfold decodeDepth
      cases ft.inner with
      | i64 | f64 => exact isLocal_u64.map _
      | bool | u8 => exact isLocal_byte.map _
      | string | bytes => exact isLocal_decodeBytes.map _
      | pooledString | pooledStackFrames | u32 => exact isLocal_u32.map _
      | varint => exact Leb128.isLocal_decodeUnsigned.map _
      | u16 => exact isLocal_u16.map _
      | stackFrames =>
        exact isLocal_u32.bind fun _ => (isLocal_take _).map _
      | stringMap =>
        exact isLocal_decodeCount.bind fun _ => (isLocal_decodePair.times _).map _
      | dynamicList =>
        exact isLocal_decodeCount.bind fun _ => ((isLocal_decodeTagged ih).times _).map _
      | dynamicMap =>
        exact isLocal_decodeCount.bind fun _ => ((isLocal_decodeEntry ih).times _).map _

theorem scan_local : scan.Local where
  decodeValue := RawValue.isLocal_decodeDepth _
  decodeFrames _ := isLocal_take _

/-! ## Turns -/

namespace DecodedFrame

/-- Convert the values and the pooled stacks of a decoded frame. -/
def convert {V W F G : Type} (value : V → Option W) (frames : F → G) :
    DecodedFrame V F → Option (DecodedFrame W G)
  | .schema entry => some (.schema entry)
  | .event typeId ts values => (values.mapM value).map (.event typeId ts)
  | .stringPool entries => some (.stringPool entries)
  | .stackPool entries =>
    some (.stackPool (entries.map fun entry => ⟨entry.poolId, frames entry.frames⟩))
  | .schemaAnnotations typeId annotations => some (.schemaAnnotations typeId annotations)

/-- The owned form of a zero-copy frame: `to_owned` on every value, `to_vec` and
`to_stack_frames` on the pool entries. -/
def toOwned : DecodedFrame FieldValueRef Bytes → DecodedFrame FieldValue (List UInt64)
  | .schema entry => .schema entry
  | .event typeId ts values => .event typeId ts (values.map FieldValueRef.toOwned)
  | .stringPool entries => .stringPool entries
  | .stackPool entries =>
    .stackPool (entries.map fun entry => ⟨entry.poolId, zeroCopy.toStackFrames entry.frames⟩)
  | .schemaAnnotations typeId annotations => .schemaAnnotations typeId annotations

/-- The field values of a frame; only an event has any. -/
def values {V F : Type} : DecodedFrame V F → List V
  | .event _ _ values => values
  | _ => []

/-- Every String and StringMap payload of the frame is UTF-8. -/
def Utf8 (frame : DecodedFrame RawValue Bytes) : Prop := ∀ value ∈ frame.values, value.Utf8

/-- No stack-frame payload of the frame is above the container limit. -/
def StacksWithinLimit (frame : DecodedFrame RawValue Bytes) : Prop :=
  ∀ value ∈ frame.values, value.StacksWithinLimit

end DecodedFrame

section Turns

variable {V F : Type} {flavour : Flavour V F} {value : RawValue → Option V} {frames : Bytes → F}

theorem accept_convert (h : flavour.IsScan value frames) (s : DecoderState)
    {frame : Frame RawValue Bytes} {frame' : Frame V F}
    (hframe : frame.convert value frames = some frame') :
    match s.accept scan frame with
    | .emit decoded s' => ∃ decoded', decoded.convert value frames = some decoded' ∧
        s.accept flavour frame' = .emit decoded' s'
    | .silent s' => s.accept flavour frame' = .silent s'
    | .halt message s' => s.accept flavour frame' = .halt message s' := by
  cases frame with
  | schema typeId entry ts =>
    obtain rfl := Option.some.inj hframe
    obtain ⟨registry, hreg, hok⟩ | ⟨message, hreg, hrefused⟩ :=
      DecoderState.accept_schema scan s typeId entry ts
    · obtain ⟨registry', hreg', hok'⟩ | ⟨message, hreg', -⟩ :=
        DecoderState.accept_schema flavour s typeId entry ts
      · rw [hok]
        rw [hreg] at hreg'
        obtain rfl := Except.ok.inj hreg'
        exact ⟨_, rfl, hok'⟩
      · rw [hreg] at hreg'
        cases hreg'
    · obtain ⟨registry', hreg', -⟩ | ⟨message', hreg', hrefused'⟩ :=
        DecoderState.accept_schema flavour s typeId entry ts
      · rw [hreg] at hreg'
        cases hreg'
      · rw [hrefused]
        rw [hreg] at hreg'
        obtain rfl := Except.error.inj hreg'
        exact hrefused'
  | event typeId ts values =>
    obtain ⟨values', hvalues, rfl⟩ := Option.map_eq_some_iff.mp hframe
    exact ⟨_, by simp [DecodedFrame.convert, hvalues], rfl⟩
  | stringPool _ | schemaAnnotations _ _ =>
    obtain rfl := Option.some.inj hframe
    exact ⟨_, rfl, rfl⟩
  | stackPool entries =>
    obtain rfl := Option.some.inj hframe
    refine ⟨_, rfl, ?_⟩
    simp only [DecoderState.accept, List.map_map]
    congr 2
    refine List.map_congr_left fun entry _ => ?_
    simp only [Function.comp, h.toStackFrames]
    rfl
  | timestampReset ts =>
    obtain rfl := Option.some.inj hframe
    rfl

/-- A decoder that is a scan with a conversion takes the scan's turns, except
that it ends the stream where the conversion refuses. -/
theorem nextTurnWith_of_scan (h : flavour.IsScan value frames) (d : Decoder) :
    match d.nextTurnWith scan with
    | .emit frame next =>
      (∃ frame', frame.convert value frames = some frame' ∧
        d.nextTurnWith flavour = .emit frame' next) ∨
      (frame.convert value frames = none ∧ d.nextTurnWith flavour = .halt .exhausted d)
    | .silent next => d.nextTurnWith flavour = .silent next
    | .halt reason last => d.nextTurnWith flavour = .halt reason last := by
  obtain ⟨hnil, hstep⟩ | ⟨d', hsome, hstep⟩ | ⟨b, input, hrest, hnone, htag, hstep⟩ |
      ⟨tag, input, hrest, hnone, ⟨hbody, hstep⟩ | ⟨frame, rest, hbody, -, hstep⟩⟩ :=
    Decoder.nextTurnWith_cases scan d
  · rw [hstep]
    unfold Decoder.nextTurnWith
    rw [hnil]
  · rw [hstep]
    obtain ⟨v, hrest, -, -⟩ := Decoder.tryConsumeResetHeader_eq_some hsome
    unfold Decoder.nextTurnWith
    rw [hsome, hrest]
    rfl
  · rw [hstep]
    unfold Decoder.nextTurnWith
    rw [hnone, hrest]
    dsimp only
    rw [decodeFrameWith_cons, htag]
    rfl
  · rw [hstep, Decoder.nextTurnWith_of_tag _ hrest, decodeBodyWith_eq_convert h, convert_apply,
      hbody]
    rfl
  · rw [hstep, Decoder.nextTurnWith_of_tag _ hrest, decodeBodyWith_eq_convert h, convert_apply,
      hbody, Decoder.accept, Option.bind_some]
    cases hconvert : frame.convert value frames with
    | none =>
      -- Only an event can be refused, and an event is always emitted.
      cases frame with
      | event typeId ts values =>
        refine .inr ⟨?_, rfl⟩
        simpa [Frame.convert, DecodedFrame.convert] using hconvert
      | _ => cases hconvert
    | some frame' =>
      have haccept := accept_convert h (d.advance rest).state hconvert
      simp only [Option.map_some, Decoder.accept]
      revert haccept
      cases (d.advance rest).state.accept scan frame with
      | emit decoded s' =>
        rintro ⟨decoded', hdecoded, haccept⟩
        exact .inl ⟨decoded', hdecoded, by rw [haccept]⟩
      | silent _ | halt _ _ => exact fun haccept => by rw [haccept]

end Turns

/-! ## Runs -/

theorem yields_decodeField_scan (tag : UInt8) :
    Yields RawValue.Converts (decodeField scan tag) := by
  refine .bind fun ft => ?_
  cases ft.isOptional with
  | false => exact RawValue.yields_decodeDepth _ ft
  | true =>
    refine .bind fun present => ?_
    by_cases hzero : present = 0x00
    · simp only [if_pos hzero]
      exact yields_pure fun _ => ⟨.none, rfl, fun own hown => Option.some.inj hown⟩
    · simp only [if_neg hzero]
      exact RawValue.yields_decodeDepth _ _

variable {frame : DecodedFrame RawValue Bytes}

theorem converts_of_emit {d next : Decoder} (h : d.nextTurnWith scan = .emit frame next) :
    ∀ value ∈ frame.values, value.Converts := by
  obtain ⟨-, hstep⟩ | ⟨d', -, hstep⟩ | ⟨b, input, -, -, -, hstep⟩ |
      ⟨tag, input, -, -, ⟨-, hstep⟩ | ⟨raw, rest, hbody, htag, hstep⟩⟩ :=
    Decoder.nextTurnWith_cases scan d
  · rw [hstep] at h
    cases h
  · rw [hstep] at h
    cases h
  · rw [hstep] at h
    cases h
  · rw [hstep] at h
    cases h
  · rw [hstep] at h
    cases raw with
    | event typeId ts values =>
      obtain ⟨rfl, -⟩ : _ = frame ∧ _ = next := by
        simpa [Decoder.accept, DecoderState.accept] using h
      obtain rfl : FrameTag.event = tag := htag
      obtain ⟨id, _, _, hbody⟩ := bind_eq_some.mp hbody
      obtain ⟨info, _, _, hbody⟩ := bind_eq_some.mp hbody
      obtain ⟨time, _, _, hbody⟩ := bind_eq_some.mp hbody
      obtain ⟨decoded, _, hfields, hbody⟩ := bind_eq_some.mp hbody
      have hvalues : decoded = values := by
        have heq := congrArg Prod.fst (Option.some.inj hbody)
        exact (Frame.event.inj heq).2.2
      rw [← hvalues]
      exact yields_forEach yields_decodeField_scan _ _ _ _ hfields
    | schema typeId entry ts =>
      obtain ⟨registry, -, haccept⟩ | ⟨message, -, haccept⟩ :=
        DecoderState.accept_schema scan (d.advance rest).state typeId entry ts
      · rw [Decoder.accept, haccept] at h
        obtain ⟨rfl, -⟩ := Turn.emit.inj h
        simp [DecodedFrame.values]
      · rw [Decoder.accept, haccept] at h
        cases h
    | stringPool _ | stackPool _ | schemaAnnotations _ _ =>
      obtain ⟨rfl, -⟩ := Turn.emit.inj h
      simp [DecodedFrame.values]
    | timestampReset ts => cases h

namespace DecodedFrame

theorem convert_ref (hconverts : ∀ value ∈ frame.values, value.Converts) (hutf8 : frame.Utf8) :
    ∃ ref, frame.convert RawValue.toRef? id = some ref ∧
      ∀ own, frame.convert RawValue.toOwned? zeroCopy.toStackFrames = some own →
        ref.toOwned = own := by
  cases frame with
  | event typeId ts values =>
    obtain ⟨refs, hrefs, howns⟩ := RawValue.converts_list hconverts
      (RawValue.forall_textsItems.mpr hutf8)
    have hconvert : values.mapM RawValue.toRef? = some refs := by
      rw [← RawValue.toRefItems?_eq]
      exact hrefs
    refine ⟨.event typeId ts refs, by simp [convert, hconvert], fun own hown => ?_⟩
    obtain ⟨owns, hall, rfl⟩ := Option.map_eq_some_iff.mp hown
    rw [← RawValue.toOwnedItems?_eq] at hall
    rw [toOwned, ← howns owns hall, FieldValueRef.toOwnedItems_eq]
  | schema _ | stringPool _ | schemaAnnotations _ _ =>
    exact ⟨_, rfl, fun own hown => Option.some.inj hown⟩
  | stackPool entries =>
    refine ⟨_, rfl, fun own hown => ?_⟩
    rw [← Option.some.inj hown, toOwned, List.map_map]
    rfl

theorem convert_owned_isSome :
    (frame.convert RawValue.toOwned? zeroCopy.toStackFrames).isSome = true ↔
      frame.StacksWithinLimit := by
  cases frame with
  | event typeId ts values =>
    rw [convert, Option.isSome_map, ← RawValue.toOwnedItems?_eq, RawValue.toOwnedItems?_isSome]
    exact RawValue.forall_stackCountsItems
  | schema _ | stringPool _ | stackPool _ | schemaAnnotations _ _ =>
    simp [convert, StacksWithinLimit, values]

end DecodedFrame

namespace Decoder

/-- Apply `to_owned` to every frame of a log. -/
def ownLog (log : Machine.Log Decoder (DecodedFrame FieldValueRef Bytes)) :
    Machine.Log Decoder (DecodedFrame FieldValue (List UInt64)) :=
  log.map fun entry => (entry.1.toOwned, entry.2)

/-- A run of the scan over UTF-8 is a run of the zero-copy decoder. The owned
decoder follows it as far as the stacks are within the limit. -/
theorem steps_of_scan {d t : Decoder} {log : Machine.Log Decoder (DecodedFrame RawValue Bytes)}
    (h : Machine.Steps (nextTurnWith scan) d log t) (hutf8 : ∀ entry ∈ log, entry.1.Utf8) :
    ∃ refs, Machine.Steps nextTurnRef d refs t ∧ refs.length = log.length ∧
      ((∀ entry ∈ log, entry.1.StacksWithinLimit) → Machine.Steps nextTurn d (ownLog refs) t) ∧
      (¬ (∀ entry ∈ log, entry.1.StacksWithinLimit) → ∃ owns last,
        Machine.Steps nextTurn d owns last ∧ nextTurn last = .halt .exhausted last ∧
        owns.length < log.length) := by
  induction h with
  | refl s => exact ⟨[], .refl s, rfl, fun _ => .refl s, fun hnot => absurd (by simp) hnot⟩
  | @silent s next _ _ turn _ ih =>
    have href := nextTurnWith_of_scan zeroCopy_isScan s
    have hown := nextTurnWith_of_scan owned_isScan s
    rw [turn] at href hown
    obtain ⟨refs, hrefs, hlen, hin, hout⟩ := ih hutf8
    refine ⟨refs, .silent href hrefs, hlen, fun hall => .silent hown (hin hall), fun hnot => ?_⟩
    obtain ⟨owns, last, howns, hhalt, hless⟩ := hout hnot
    exact ⟨owns, last, .silent hown howns, hhalt, hless⟩
  | @emit s next _ frame log turn _ ih =>
    obtain ⟨hframe, hutf8⟩ := List.forall_mem_cons.mp hutf8
    obtain ⟨ref, hconvert, howned⟩ := DecodedFrame.convert_ref (converts_of_emit turn) hframe
    have href := nextTurnWith_of_scan zeroCopy_isScan s
    have hown := nextTurnWith_of_scan owned_isScan s
    rw [turn] at href hown
    obtain ⟨refs, hrefs, hlen, hin, hout⟩ := ih hutf8
    have hrefTurn : nextTurnRef s = .emit ref next := by
      obtain ⟨ref', hconvert', hturn⟩ | ⟨hnone, -⟩ := href
      · rw [hconvert] at hconvert'
        obtain rfl := Option.some.inj hconvert'
        exact hturn
      · rw [hconvert] at hnone
        cases hnone
    refine ⟨(ref, next) :: refs, .emit hrefTurn hrefs, by simp [hlen], ?_, ?_⟩
    · intro hall
      obtain ⟨hlimit, hall⟩ := List.forall_mem_cons.mp hall
      obtain ⟨own, hconvert', hturn⟩ | ⟨hnone, -⟩ := hown
      · rw [ownLog, List.map_cons, howned own hconvert']
        exact .emit hturn (hin hall)
      · rw [← DecodedFrame.convert_owned_isSome, hnone] at hlimit
        cases hlimit
    · intro hnot
      obtain ⟨own, hconvert', hturn⟩ | ⟨-, hturn⟩ := hown
      · have hlimit : frame.StacksWithinLimit := by
          rw [← DecodedFrame.convert_owned_isSome, hconvert']
          rfl
        obtain ⟨owns, last, howns, hhalt, hless⟩ :=
          hout fun hall => hnot (List.forall_mem_cons.mpr ⟨hlimit, hall⟩)
        exact ⟨_, last, .emit hturn howns, hhalt, by simpa using hless⟩
      · exact ⟨[], s, .refl s, hturn, by simp⟩

/-- Both ways of decoding give the same frames, each with the decoder in the
same state after it, and end alike in the same place. -/
def OwnedAgrees (d : Decoder) : Prop :=
  d.decodeAll.1 = ownLog d.decodeAllRef.1 ∧ d.decodeAll.2 = d.decodeAllRef.2

/-- Every String and StringMap payload in the stream is UTF-8. -/
def Utf8 (d : Decoder) : Prop := ∀ entry ∈ (decodeAllWith scan d).1, entry.1.Utf8

/-- No stack-frame payload in the stream is above the container limit. -/
def StacksWithinLimit (d : Decoder) : Prop :=
  ∀ entry ∈ (decodeAllWith scan d).1, entry.1.StacksWithinLimit

/-- Over UTF-8 text, `next_frame` and `next_frame_ref` agree exactly on the
streams whose stacks are within the container limit. -/
theorem ownedAgrees_iff_of_utf8 {d : Decoder} (hutf8 : d.Utf8) :
    d.OwnedAgrees ↔ d.StacksWithinLimit := by
  obtain ⟨t, reason, last, hsteps, hhalt, -⟩ := steps_of_decodeAllWith scan_local d
  obtain ⟨refs, hrefs, hlen, hin, hout⟩ := steps_of_scan hsteps hutf8
  have href := nextTurnWith_of_scan zeroCopy_isScan t
  have hown := nextTurnWith_of_scan owned_isScan t
  rw [hhalt] at href hown
  have hall : d.decodeAllRef = (refs, some (reason, last)) :=
    decodeAllWith_of_steps zeroCopy_local hrefs href
  constructor
  · intro hagrees
    by_contra hnot
    obtain ⟨owns, stop, howns, hstop, hless⟩ := hout hnot
    have howned : d.decodeAll = (owns, some (.exhausted, stop)) :=
      decodeAllWith_of_steps owned_local howns hstop
    have hlength := congrArg List.length hagrees.1
    rw [howned, hall, ownLog, List.length_map] at hlength
    dsimp only at hlength
    omega
  · intro hlimit
    have howned : d.decodeAll = (ownLog refs, some (reason, last)) :=
      decodeAllWith_of_steps owned_local (hin hlimit) hown
    rw [OwnedAgrees, howned, hall]
    exact ⟨rfl, rfl⟩

/-- On every byte string whose String and StringMap payloads are UTF-8, iterating
`next_frame` and iterating `next_frame_ref` with `to_owned` agree exactly when
no event of the stream carries stack frames above the container limit. -/
theorem ownedAgrees_iff {data : Bytes} (hutf8 : ∀ d ∈ new data, d.Utf8) :
    (∀ d ∈ new data, d.OwnedAgrees) ↔ ∀ d ∈ new data, d.StacksWithinLimit :=
  forall₂_congr fun d hd => ownedAgrees_iff_of_utf8 (hutf8 d hd)

/-! ## A stack at the limit -/

/-- The schema `s` with one field of stack frames. -/
def stackSchema : SchemaEntry where
  name := ⟨[0x73], by decide⟩
  fields := [⟨⟨[0x66], by decide⟩, .plain .stackFrames⟩]
  annotations := []

/-- That schema, and an event whose stack is `n` zero addresses. -/
def stackTrace (n : Nat) : Bytes :=
  encodeSchema 1 stackSchema ++
    ([FrameTag.event.byte] ++ leBytes 2 (1 : WireTypeId).toNat ++ encodeU24Le 0 ++
      (leBytes 4 n ++ List.replicate (n * 8) 0))

theorem reads_zeroStack {n : Nat} (h : n < 2 ^ 32) :
    Reads (forEach (decodeField scan) [(FieldType.plain .stackFrames).tag])
      (leBytes 4 n ++ List.replicate (n * 8) 0)
      [.stackFrames ⟨List.replicate (n * 8) 0, UInt32.ofNat n⟩] := by
  have hcount : (UInt32.ofNat n).toNat = n := by rw [UInt32.toNat_ofNat', Nat.mod_eq_of_lt h]
  have htake : Reads (take ((UInt32.ofNat n).toNat * 8)) (List.replicate (n * 8) (0 : UInt8))
      (List.replicate (n * 8) 0) := by
    have hread := reads_take (List.replicate (n * 8) (0 : UInt8))
    rw [List.length_replicate] at hread
    rw [hcount]
    exact hread
  have hvalue : Reads (RawValue.decode (.plain .stackFrames))
      (leBytes 4 n ++ List.replicate (n * 8) 0)
      (.stackFrames ⟨List.replicate (n * 8) 0, UInt32.ofNat n⟩) :=
    (reads_u32_length h).bind htake.map
  have hfield : Reads (decodeField scan (FieldType.plain .stackFrames).tag)
      (leBytes 4 n ++ List.replicate (n * 8) 0)
      (.stackFrames ⟨List.replicate (n * 8) 0, UInt32.ofNat n⟩) := by
    unfold decodeField
    rw [FieldType.fromTag_tag]
    exact (reads_pure _).bind (c := leBytes 4 n ++ List.replicate (n * 8) 0) hvalue
  exact (hfield.bind_nil (reads_pure _))

theorem scan_stackTrace {n : Nat} (h : n < 2 ^ 32) :
    (decodeAllWith scan ⟨stackTrace n, headerSize, .new⟩).1.map Prod.fst =
      [.schema stackSchema,
        .event 1 0 [.stackFrames ⟨List.replicate (n * 8) 0, UInt32.ofNat n⟩]] := by
  have hfits : stackSchema.Fits := ⟨by decide, by decide, by decide, by decide⟩
  have hfree : DecoderState.new.registry.get 1 = none := rfl
  have hschema := feeds_schema scan hfits (SchemaRegistry.register_of_get_none _ hfree)
  have hinfo : (DecoderState.new.registerSchema 1 stackSchema.bare true).2.schemaInfo 1 =
      some ⟨[(FieldType.plain .stackFrames).tag], true⟩ := rfl
  have hevent := feeds_event scan hinfo (Nat.zero_le _) (checkedAdd_zero 0) (reads_zeroStack h)
  obtain ⟨run, hall, hlog⟩ := (hschema.trans hevent).decodeAllWith scan_local headerSize
  have hfst : run.map Prod.fst = (stateLog run).map Prod.fst := by
    rw [stateLog, List.map_map]
    rfl
  rw [stackTrace, hall, hfst, hlog]
  rfl

theorem new_stackTrace (n : Nat) :
    new (encodeHeader ++ stackTrace n) = some ⟨stackTrace n, headerSize, .new⟩ := rfl

theorem stackTrace_spec {n : Nat} (h : n < 2 ^ 32) :
    Decoder.Utf8 ⟨stackTrace n, headerSize, .new⟩ ∧
      (Decoder.StacksWithinLimit ⟨stackTrace n, headerSize, .new⟩ ↔
        n ≤ maxDecodeContainerElements) := by
  have hscan := scan_stackTrace h
  have hcount : (UInt32.ofNat n).toNat = n := by rw [UInt32.toNat_ofNat', Nat.mod_eq_of_lt h]
  have hentries : ∀ good : DecodedFrame RawValue Bytes → Prop,
      (∀ entry ∈ (decodeAllWith scan ⟨stackTrace n, headerSize, .new⟩).1, good entry.1) ↔
        good (.schema stackSchema) ∧
          good (.event 1 0 [.stackFrames ⟨List.replicate (n * 8) 0, UInt32.ofNat n⟩]) := by
    intro good
    rw [← List.forall_mem_map (f := Prod.fst), hscan]
    simp
  constructor
  · refine (hentries _).mpr ⟨by simp [DecodedFrame.Utf8, DecodedFrame.values], ?_⟩
    simp [DecodedFrame.Utf8, DecodedFrame.values, RawValue.Utf8, RawValue.texts]
  · rw [StacksWithinLimit, hentries]
    simp [DecodedFrame.StacksWithinLimit, DecodedFrame.values, RawValue.StacksWithinLimit,
      RawValue.stackCounts, hcount]

theorem ownedAgrees_iff_stackTrace :
    ∃ d, new (encodeHeader ++ stackTrace 2) = some d ∧ d.Utf8 ∧ d.OwnedAgrees := by
  have hspec := stackTrace_spec (n := 2) (by decide)
  have hutf8 : ∀ d ∈ new (encodeHeader ++ stackTrace 2), d.Utf8 := by
    intro d hd
    obtain rfl := Option.some.inj hd
    exact hspec.1
  have hlimit : ∀ d ∈ new (encodeHeader ++ stackTrace 2), d.StacksWithinLimit := by
    intro d hd
    obtain rfl := Option.some.inj hd
    exact hspec.2.mpr (by decide)
  exact ⟨_, new_stackTrace 2, hspec.1, (ownedAgrees_iff hutf8).mpr hlimit _ (new_stackTrace 2)⟩

/-- One address above the limit ends the owned stream before the event. -/
theorem stackTrace_not_ownedAgrees :
    ∃ d, new (encodeHeader ++ stackTrace 1000001) = some d ∧ d.Utf8 ∧ ¬ d.OwnedAgrees := by
  obtain ⟨hutf8, hlimit⟩ := stackTrace_spec (n := 1000001) (by decide)
  refine ⟨_, new_stackTrace _, hutf8, ?_⟩
  rw [ownedAgrees_iff_of_utf8 hutf8, hlimit]
  decide

end Decoder

end Dial9.TraceFormat
