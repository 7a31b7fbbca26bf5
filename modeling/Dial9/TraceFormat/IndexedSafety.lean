/-
# Safety and progress

Turn by turn, the decoder over its buffer does what the decoder of suffixes
does. So it never leaves the buffer, every turn that goes on moves at least one
byte, and every loop ends. The callback loop alone can panic, exactly where the
timestamp of the event it stands at leaves its word.
-/

import Dial9.TraceFormat.IndexedDecoder

namespace Dial9.TraceFormat

open Dial9.Lib Dial9.Lib.Cursor

variable {V F : Type} {pos : Nat}

variable {flavour : Flavour V F}

variable
  {decode : (WireTypeId → Option SchemaInfo) → UInt64 → Slice → Outcome Unit (Frame V F × Nat)}
  {data : Slice}

namespace DecoderAt

section Turns

variable {α ε : Type}

/-- A turn over the buffer that does not panic, keeps the buffer, stays in it,
and is a turn of the suffix decoder. -/
inductive TurnsAgree (data : Slice) :
    Outcome Unit (Turn DecoderAt α ε) → Turn Decoder α ε → Prop
  | intro (turn : Turn DecoderAt α ε) (hdata : turn.next.data = data)
      (hrange : turn.next.InRange) : TurnsAgree data (.value turn) (turn.map toDecoder id)

variable {d : DecoderAt}

theorem toDecoder_left : d.toDecoder.left = d.left := by
  unfold Decoder.left toDecoder left
  rw [List.length_drop]
  rfl

theorem advance_toDecoder {used : Nat} (hused : d.pos + used ≤ d.data.length) :
    d.toDecoder.advance ((d.data.drop d.pos).bytes.drop used) =
      toDecoder { d with pos := d.pos + used } := by
  unfold Decoder.advance toDecoder
  simp only [Slice.drop_bytes, List.drop_drop, List.length_drop]
  congr 1
  unfold Slice.length at hused
  omega

theorem tryConsumeResetHeaderAt_cases (hd : d.InRange) :
    (d.toDecoder.tryConsumeResetHeader = none ∧ d.tryConsumeResetHeaderAt = .value none) ∨
      ∃ next, d.toDecoder.tryConsumeResetHeader = some (toDecoder next) ∧
        d.tryConsumeResetHeaderAt = .value (some next) ∧ next.data = d.data ∧ next.InRange := by
  have hpos : d.pos ≤ d.data.length := hd
  have hfits := d.data.length_lt
  have hadd : (Outcome.add d.pos headerSize : Outcome Unit Nat) = .value (d.pos + headerSize) := by
    apply Outcome.add_eq
    unfold headerSize
    omega
  have hhere : d.toDecoder.rest = d.data.bytes.drop d.pos := rfl
  unfold tryConsumeResetHeaderAt Decoder.tryConsumeResetHeader
  rw [hadd, Outcome.value_bind, hhere]
  by_cases hstop : d.pos + headerSize ≤ d.data.length
  · rw [if_pos hstop, Slice.suffix_eq hpos, Outcome.value_bind, decodeHeaderAt_eq,
      Slice.drop_bytes]
    cases hheader : decodeHeader (d.data.bytes.drop d.pos) with
    | none => exact .inl ⟨rfl, rfl⟩
    | some pair =>
      obtain ⟨v, rest⟩ := pair
      have hrest : d.data.bytes.drop (d.pos + headerSize) = rest := by
        rw [← List.drop_drop, Decoder.decodeHeader_eq_some hheader]
        rfl
      refine .inr ⟨⟨d.data, d.pos + headerSize, .new⟩, ?_, rfl, rfl, hstop⟩
      subst hrest
      rfl
  · rw [if_neg hstop]
    refine .inl ⟨?_, rfl⟩
    cases hheader : decodeHeader (d.data.bytes.drop d.pos) with
    | none => rfl
    | some pair =>
      have hlen := congrArg List.length (Decoder.decodeHeader_eq_some hheader)
      rw [List.length_drop, List.length_append, List.length_cons] at hlen
      unfold headerSize Slice.length at hstop
      simp only [magic, List.length_cons, List.length_nil] at hlen
      omega

theorem acceptAt_map (flavour : Flavour V F) (d : DecoderAt) (frame : Frame V F) :
    (acceptAt flavour d frame).map toDecoder id = d.toDecoder.accept flavour frame ∧
      (acceptAt flavour d frame).next.data = d.data ∧
        (acceptAt flavour d frame).next.pos = d.pos := by
  unfold acceptAt Decoder.accept toDecoder
  dsimp only
  cases d.state.accept flavour frame with
  | emit _ _ | silent _ | halt _ _ => exact ⟨rfl, rfl, rfl⟩

theorem nextTurnAtWith_agrees (hdecode : ∀ lookup base rest,
      Agrees rest 0 (decode lookup base rest) (decodeFrameWith flavour lookup base rest.bytes))
    (hd : d.InRange) :
    TurnsAgree d.data (nextTurnAtWith flavour decode d)
      (Decoder.nextTurnWith flavour d.toDecoder) := by
  have hpos : d.pos ≤ d.data.length := hd
  have hfits := d.data.length_lt
  unfold nextTurnAtWith Decoder.nextTurnWith
  cases hrest : d.toDecoder.rest with
  | nil =>
    have hlen := congrArg List.length hrest
    rw [toDecoder, List.length_drop, List.length_nil] at hlen
    rw [if_pos (by unfold Slice.length; omega)]
    exact .intro (.halt Stop.exhausted d) rfl hd
  | cons b tail =>
    have hlen := congrArg List.length hrest
    rw [toDecoder, List.length_drop, List.length_cons] at hlen
    rw [if_neg (by unfold Slice.length; omega)]
    dsimp only
    obtain ⟨hnone, hheader⟩ | ⟨next, hsome, hheader, hdata, hrange⟩ :=
      tryConsumeResetHeaderAt_cases hd
    · rw [hnone, hheader, Outcome.value_bind]
      dsimp only
      rw [Slice.suffix_eq hpos, Outcome.value_bind, ← hrest]
      have hframe := hdecode d.state.schemaInfo d.state.timestampBaseNs (d.data.drop d.pos)
      rw [show decodeFrameWith flavour d.toDecoder.state.schemaInfo
          d.toDecoder.state.timestampBaseNs d.toDecoder.rest =
        decodeFrameWith flavour d.state.schemaInfo d.state.timestampBaseNs
          (d.data.drop d.pos).bytes from rfl]
      revert hframe
      generalize decode d.state.schemaInfo d.state.timestampBaseNs (d.data.drop d.pos) = outcome
      generalize decodeFrameWith flavour d.state.schemaInfo d.state.timestampBaseNs
        (d.data.drop d.pos).bytes = read
      intro hframe
      cases hframe with
      | none => exact .intro (.halt Stop.exhausted d) rfl hd
      | some frame used _ hused =>
        rw [Slice.drop_length] at hused
        dsimp only
        rw [Outcome.add_eq (by omega), Outcome.value_bind]
        obtain ⟨hmap, hdata, hnext⟩ := acceptAt_map flavour
          { d with pos := d.pos + used } frame
        rw [advance_toDecoder (by omega), ← hmap]
        refine .intro _ hdata ?_
        rw [InRange, hnext, hdata]
        change d.pos + used ≤ d.data.length
        omega
    · rw [hsome, hheader, Outcome.value_bind]
      exact .intro (.silent next) hdata hrange

theorem nextTurnAt_agrees (hd : d.InRange) : TurnsAgree d.data d.nextTurnAt d.toDecoder.nextTurn :=
  nextTurnAtWith_agrees agrees_decodeFrameAt hd

theorem nextTurnRefAt_agrees (hd : d.InRange) :
    TurnsAgree d.data d.nextTurnRefAt d.toDecoder.nextTurnRef :=
  nextTurnAtWith_agrees agrees_decodeFrameRefAt hd

theorem settleAt_agrees {turn : DecoderAt → Outcome Unit (Turn DecoderAt α ε)}
    {step : Decoder → Turn Decoder α ε}
    (hturn : ∀ d, d.InRange → TurnsAgree d.data (turn d) (step d.toDecoder))
    (hdec : Machine.Decreases step Decoder.left) (room : Nat) (hd : d.InRange)
    (hroom : d.left < room) :
    TurnsAgree d.data (settleAt turn room d) (Machine.settle step room d.toDecoder) := by
  induction room generalizing d with
  | zero => omega
  | succ room ih =>
    have hagrees := hturn d hd
    have hless := hdec d.toDecoder
    unfold settleAt Machine.settle
    revert hagrees hless
    generalize turn d = outcome
    generalize step d.toDecoder = taken
    intro hagrees hless
    cases hagrees with
    | intro result hdata hrange =>
      cases result with
      | emit value next => exact .intro (.emit value next) hdata hrange
      | halt reason last => exact .intro (.halt reason last) hdata hrange
      | silent next =>
        have hless' : next.toDecoder.left < d.toDecoder.left := hless
        rw [toDecoder_left, toDecoder_left] at hless'
        have hdata' : next.data = d.data := hdata
        have hrange' : next.InRange := hrange
        have hnext := ih hrange' (by omega)
        rw [hdata'] at hnext
        exact hnext

theorem nextFrameRefAt_agrees (hd : d.InRange) :
    TurnsAgree d.data d.nextFrameRefAt d.toDecoder.nextFrameRef := by
  have h := settleAt_agrees (fun _ => nextTurnRefAt_agrees)
    (Decoder.nextTurnWith_decreases zeroCopy_local) (d.left + 1) hd (Nat.lt_succ_self _)
  rw [← toDecoder_left] at h
  unfold nextFrameRefAt
  rw [← toDecoder_left]
  exact h

end Turns

/-! ## The callback loop -/

section Callback

variable {α : Type}

/-- An arm over what remains of the buffer does what the arm over the suffix
does, errors and their positions included. -/
inductive Reports (remaining : Slice) (pos : Nat) :
    Outcome DecodeError (α × Nat) → Except DecodeError (α × Bytes) → Prop
  | error (e : DecodeError) : Reports remaining pos (.stop e) (.error e)
  | ok (a : α) (stop : Nat) (hle : pos ≤ stop) (hstop : stop ≤ remaining.length) :
      Reports remaining pos (.value (a, stop)) (.ok (a, remaining.bytes.drop stop))

theorem Reports.weaken {remaining : Slice} {pos later : Nat} {o : Outcome DecodeError (α × Nat)}
    {r : Except DecodeError (α × Bytes)} (h : Reports remaining later o r) (hle : pos ≤ later) :
    Reports remaining pos o r := by
  cases h with
  | error e => exact .error e
  | ok a stop hle' hstop => exact .ok a stop (Nat.le_trans hle hle') hstop

variable {d : DecoderAt}

theorem posOf_eq (hd : d.InRange) (hpos : pos ≤ (d.data.drop d.pos).length) :
    d.toDecoder.posOf ((d.data.drop d.pos).bytes.drop pos) = d.pos + pos := by
  have hd' : d.pos ≤ d.data.bytes.length := hd
  unfold Slice.length at hpos
  unfold Decoder.posOf toDecoder
  simp only [Slice.drop_bytes, List.length_drop] at hpos ⊢
  omega

theorem errorAt_eq (hd : d.InRange) (hpos : pos ≤ (d.data.drop d.pos).length) (message : String) :
    (d.errorAt pos message : Outcome DecodeError α) =
      .stop ⟨d.toDecoder.posOf ((d.data.drop d.pos).bytes.drop pos), message⟩ := by
  have hfits := d.data.length_lt
  have hd' : d.pos ≤ d.data.length := hd
  rw [posOf_eq hd hpos, errorAt]
  rw [Slice.drop_length] at hpos
  rw [Outcome.add_eq (by omega), Outcome.value_bind]

/-- A value, or an error where the value should start. -/
def valueOr (d : Decoder) (ft : FieldType) (message : String) (input : Bytes) :
    Except DecodeError (FieldValueRef × Bytes) :=
  match FieldValueRef.decode ft input with
  | none => .error ⟨d.posOf input, message⟩
  | some pair => .ok pair

theorem eventValueAt_reports (hd : d.InRange) (ft : FieldType) (message : String)
    (hpos : pos ≤ (d.data.drop d.pos).length) :
    Reports (d.data.drop d.pos) pos (d.eventValueAt (d.data.drop d.pos) ft message pos)
      (valueOr d.toDecoder ft message ((d.data.drop d.pos).bytes.drop pos)) := by
  have hvalue := FieldValueRef.agrees_decodeAt ft hpos
  have hfits := (d.data.drop d.pos).length_lt
  have herror := errorAt_eq (α := FieldValueRef × Nat) hd hpos message
  unfold eventValueAt valueOr
  revert hvalue
  generalize FieldValueRef.decodeAt ft (d.data.drop d.pos) pos = outcome
  generalize FieldValueRef.decode ft ((d.data.drop d.pos).bytes.drop pos) = read
  intro hvalue
  cases hvalue with
  | none =>
    rw [orErrorAt, herror]
    exact .error _
  | some value used _ hused =>
    rw [Slice.drop_length] at hused
    rw [orErrorAt, Outcome.value_bind]
    dsimp only
    rw [Outcome.add_eq (by omega), Outcome.value_bind, Slice.drop_bytes, List.drop_drop]
    exact .ok value (pos + used) (Nat.le_add_right pos used) (by omega)

/-- One turn of the inlined field loop over the suffix. -/
def eventField (d : Decoder) (ftag : UInt8) (input : Bytes) :
    Except DecodeError (FieldValueRef × Bytes) :=
  match FieldType.fromTag ftag with
  | none => .error ⟨d.posOf input, "unknown field type tag 0x" ++ Decoder.hexByte ftag⟩
  | some fieldType =>
    if fieldType.isOptional then
      match input with
      | [] => .error ⟨d.posOf input, "truncated optional field prefix"⟩
      | present :: afterPresence =>
        if present = 0x00 then .ok (.none, afterPresence)
        else valueOr d (.plain fieldType.inner) "truncated optional field value" afterPresence
    else valueOr d fieldType "truncated field value" input

theorem eventFields_cons (d : Decoder) (ftag : UInt8) (tags : List UInt8) (input : Bytes) :
    d.eventFields (ftag :: tags) input =
      match eventField d ftag input with
      | .error e => .error e
      | .ok (value, rest) =>
        (d.eventFields tags rest).map fun (values, rest) => (value :: values, rest) := by
  rw [Decoder.eventFields]
  unfold eventField valueOr
  cases FieldType.fromTag ftag with
  | none => rfl
  | some fieldType =>
    dsimp only
    cases fieldType.isOptional with
    | false =>
      simp only [Bool.false_eq_true, if_false]
      cases FieldValueRef.decode fieldType input with
      | none | some _ => rfl
    | true =>
      simp only [if_true]
      cases input with
      | nil => rfl
      | cons present afterPresence =>
        dsimp only
        by_cases hzero : present = 0x00
        · rw [if_pos hzero, if_pos hzero]
        · rw [if_neg hzero, if_neg hzero]
          cases FieldValueRef.decode (.plain fieldType.inner) afterPresence with
          | none | some _ => rfl

theorem eventFieldAt_reports (hd : d.InRange) (ftag : UInt8)
    (hpos : pos ≤ (d.data.drop d.pos).length) :
    Reports (d.data.drop d.pos) pos (d.eventFieldAt (d.data.drop d.pos) ftag pos)
      (eventField d.toDecoder ftag ((d.data.drop d.pos).bytes.drop pos)) := by
  unfold eventFieldAt eventField
  cases FieldType.fromTag ftag with
  | none =>
    rw [errorAt_eq hd hpos]
    exact .error _
  | some fieldType =>
    dsimp only
    cases fieldType.isOptional with
    | false => exact eventValueAt_reports hd fieldType _ hpos
    | true =>
      simp only [if_true]
      unfold eventOptionalAt
      cases hrest : (d.data.drop d.pos).bytes.drop pos with
      | nil =>
        have hlen := congrArg List.length hrest
        rw [List.length_drop, List.length_nil] at hlen
        have hget : (d.data.drop d.pos).bytes[pos]? = none := by
          rw [List.getElem?_eq_none_iff]
          omega
        rw [hget, errorAt_eq hd hpos, hrest]
        exact .error _
      | cons present afterPresence =>
        obtain ⟨-, hafter, hstop⟩ := byte_of_drop_cons hrest
        have hfits := (d.data.drop d.pos).length_lt
        have hget : (d.data.drop d.pos).bytes[pos]? = some present := by
          rw [← Nat.add_zero pos, ← List.getElem?_drop, hrest]
          rfl
        rw [hget]
        dsimp only
        rw [Outcome.add_eq (by omega), Outcome.value_bind, ← hafter]
        by_cases hzero : present = 0x00
        · rw [if_pos hzero, if_pos hzero]
          exact .ok FieldValueRef.none (pos + 1) (Nat.le_succ pos) hstop
        · rw [if_neg hzero, if_neg hzero]
          exact (eventValueAt_reports hd (.plain fieldType.inner) _ hstop).weaken
            (Nat.le_succ pos)

theorem eventFieldsAt_reports (hd : d.InRange) (tags : List UInt8)
    (hpos : pos ≤ (d.data.drop d.pos).length) :
    Reports (d.data.drop d.pos) pos (d.eventFieldsAt (d.data.drop d.pos) tags pos)
      (d.toDecoder.eventFields tags ((d.data.drop d.pos).bytes.drop pos)) := by
  induction tags generalizing pos with
  | nil => exact .ok [] pos (Nat.le_refl pos) hpos
  | cons ftag tags ih =>
    have hfield := eventFieldAt_reports hd ftag hpos
    rw [eventFields_cons, eventFieldsAt]
    revert hfield
    generalize d.eventFieldAt (d.data.drop d.pos) ftag pos = outcome
    generalize eventField d.toDecoder ftag ((d.data.drop d.pos).bytes.drop pos) = read
    intro hfield
    cases hfield with
    | error e => exact .error e
    | ok value stop hle hstop =>
      have hrest := ih hstop
      rw [Outcome.value_bind]
      dsimp only
      revert hrest
      generalize d.eventFieldsAt (d.data.drop d.pos) tags stop = outcome'
      generalize d.toDecoder.eventFields tags ((d.data.drop d.pos).bytes.drop stop) = read'
      intro hrest
      cases hrest with
      | error e => exact .error e
      | ok values last hle' hlast => exact .ok _ last (Nat.le_trans hle hle') hlast

theorem turnsAgree_error (hd : d.InRange) (next : α → Turn DecoderAt RawEvent LoopEnd)
    (e : DecodeError) :
    TurnsAgree d.data (d.turnOf next (.stop e)) (.halt (.decode e) d.toDecoder) :=
  .intro (Turn.halt (LoopEnd.decode e) d) rfl hd

theorem eventTimestampAt_cases (hd : d.InRange) (cache : SchemaCache)
    (hpos : pos ≤ (d.data.drop d.pos).length) :
    (d.eventTimestampAt (d.data.drop d.pos) cache pos = .panic ∧
        d.toDecoder.eventTimestamp cache ((d.data.drop d.pos).bytes.drop pos) =
          .error .overflow) ∨
      (∃ e, d.eventTimestampAt (d.data.drop d.pos) cache pos = .stop e ∧
        d.toDecoder.eventTimestamp cache ((d.data.drop d.pos).bytes.drop pos) =
          .error (.decode e)) ∨
      ∃ ts stop, stop ≤ (d.data.drop d.pos).length ∧
        d.eventTimestampAt (d.data.drop d.pos) cache pos = .value (ts, stop) ∧
        d.toDecoder.eventTimestamp cache ((d.data.drop d.pos).bytes.drop pos) =
          .ok (ts, (d.data.drop d.pos).bytes.drop stop) := by
  have hfits := (d.data.drop d.pos).length_lt
  unfold eventTimestampAt Decoder.eventTimestamp
  cases cache.hasTimestampOnWire with
  | false => exact .inr (.inr ⟨d.state.timestampBaseNs, pos, hpos, rfl, rfl⟩)
  | true =>
    simp only [if_true]
    rw [Slice.suffix_eq hpos, Outcome.value_bind, decodeU24LeAt_eq, Slice.drop_bytes,
      decodeU24Le_apply]
    by_cases hlen : 3 ≤ ((d.data.drop d.pos).bytes.drop pos).length
    · have hstop : pos + 3 ≤ (d.data.drop d.pos).length := by
        rw [List.length_drop] at hlen
        unfold Slice.length
        omega
      rw [if_pos hlen]
      dsimp only
      rw [orErrorAt, Outcome.value_bind, Outcome.add_eq (by omega), Outcome.value_bind,
        List.drop_drop]
      unfold addTimestamp
      by_cases hsum : d.state.timestampBaseNs.toNat +
          leNat (((d.data.drop d.pos).bytes.drop pos).take 3) < 2 ^ 64
      · rw [if_pos hsum]
        exact .inr (.inr ⟨_, pos + 3, hstop, rfl, if_pos hsum⟩)
      · rw [if_neg hsum]
        exact .inl ⟨rfl, if_neg hsum⟩
    · rw [if_neg hlen]
      dsimp only
      rw [orErrorAt, errorAt_eq hd hpos]
      exact .inr (.inl ⟨_, rfl, rfl⟩)

theorem u16_apply (input : Bytes) :
    Reader.u16 input = if 2 ≤ input.length then
      some (UInt16.ofNat (leNat (input.take 2)), input.drop 2) else none := by
  simp only [Reader.u16, Reader.word, Reader.bind_apply, Reader.take_apply]
  by_cases h : 2 ≤ input.length
  · rw [if_pos h, if_pos h]
    rfl
  · rw [if_neg h, if_neg h]

theorem eventId_cases (remaining : Slice) :
    (remaining.get 1 3 = none ∧ Reader.u16 (remaining.bytes.drop 1) = none) ∨
      ∃ b, remaining.get 1 3 = some b ∧ unwrapWord 2 b = .value (leNat b) ∧
        Reader.u16 (remaining.bytes.drop 1) =
          some (UInt16.ofNat (leNat b), remaining.bytes.drop 3) ∧ 3 ≤ remaining.length := by
  rw [u16_apply, List.length_drop]
  unfold Slice.get
  by_cases hlen : 3 ≤ remaining.length
  · have hlen' : 3 ≤ remaining.bytes.length := hlen
    have hb : ((remaining.bytes.drop 1).take 2).length = 2 := by
      rw [List.length_take, List.length_drop]
      omega
    rw [if_pos ⟨by omega, hlen⟩, if_pos (by omega), List.drop_drop]
    exact .inr ⟨_, rfl, if_pos hb, rfl, hlen⟩
  · have hlen' : ¬ 3 ≤ remaining.bytes.length := hlen
    rw [if_neg fun h => hlen h.2, if_neg (by omega)]
    exact .inl ⟨rfl, rfl⟩

theorem eventFrameAt_cases (hd : d.InRange) {input : Bytes}
    (hrest : d.toDecoder.rest = FrameTag.event.byte :: input) :
    (d.eventFrameAt (d.data.drop d.pos) = .panic ∧ d.toDecoder.Overflows) ∨
      (TurnsAgree d.data (d.turnOf (fun result => .emit result.1 result.2)
          (d.eventFrameAt (d.data.drop d.pos))) (d.toDecoder.eventFrameTurn input) ∧
        ¬ d.toDecoder.Overflows) := by
  have hfits := d.data.length_lt
  have hd' : d.pos ≤ d.data.length := hd
  have hinput : input = (d.data.drop d.pos).bytes.drop 1 := by
    change d.data.bytes.drop d.pos = FrameTag.event.byte :: input at hrest
    rw [Slice.drop_bytes, hrest]
    rfl
  rw [Decoder.overflows_iff hrest]
  unfold eventFrameAt Decoder.eventFrameTurn
  rw [Outcome.add_eq (by decide), Outcome.value_bind, hinput]
  obtain ⟨hget, hid⟩ | ⟨b, hget, hunwrap, hid, hlen⟩ := eventId_cases (d.data.drop d.pos)
  · rw [hget, hid]
    exact .inr ⟨turnsAgree_error hd _ _, fun ⟨_, _, _, h, _⟩ => nomatch h⟩
  · rw [hget, hid]
    simp only [Outcome.orStop_some, Outcome.value_bind, hunwrap]
    have hsame : d.toDecoder.state = d.state := rfl
    rw [hsame]
    cases hcache : d.state.schemaCache (UInt16.ofNat (leNat b)) with
    | none =>
      refine .inr ⟨turnsAgree_error hd _ _, ?_⟩
      rintro ⟨typeId, cache, afterId, hid', hsome, -⟩
      obtain ⟨rfl, -⟩ := Prod.mk.inj (Option.some.inj hid')
      rw [hcache] at hsome
      cases hsome
    | some cache =>
      simp only [Outcome.orStop_some, Outcome.value_bind]
      have honly : (∃ typeId cache' afterId, some (UInt16.ofNat (leNat b),
            (d.data.drop d.pos).bytes.drop 3) = some (typeId, afterId) ∧
          d.state.schemaCache typeId = some cache' ∧
          d.toDecoder.eventTimestamp cache' afterId = .error .overflow) ↔
          d.toDecoder.eventTimestamp cache ((d.data.drop d.pos).bytes.drop 3) =
            .error .overflow := by
        constructor
        · rintro ⟨typeId, cache', afterId, hid', hsome, hover⟩
          obtain ⟨rfl, rfl⟩ := Prod.mk.inj (Option.some.inj hid')
          rw [hcache] at hsome
          obtain rfl := Option.some.inj hsome
          exact hover
        · exact fun hover => ⟨_, cache, _, rfl, hcache, hover⟩
      rw [honly]
      obtain ⟨hts, hover⟩ | ⟨e, hts, herror⟩ | ⟨ts, stop, hstop, hts, hok⟩ :=
        eventTimestampAt_cases hd cache hlen
      · rw [hts, hover]
        exact .inl ⟨rfl, rfl⟩
      · rw [hts, herror]
        exact .inr ⟨turnsAgree_error hd _ e, by simp⟩
      · rw [hts, hok, Outcome.value_bind]
        dsimp only
        refine .inr ⟨?_, by simp⟩
        have hfields := eventFieldsAt_reports hd cache.fieldTags hstop
        revert hfields
        generalize d.eventFieldsAt (d.data.drop d.pos) cache.fieldTags stop = outcome
        generalize d.toDecoder.eventFields cache.fieldTags
          ((d.data.drop d.pos).bytes.drop stop) = read
        intro hfields
        cases hfields with
        | error e => exact turnsAgree_error hd _ e
        | ok values last hle hlast =>
          rw [Slice.drop_length] at hlast
          rw [Outcome.value_bind]
          dsimp only
          rw [Outcome.add_eq (by omega), Outcome.value_bind]
          rw [advance_toDecoder (by omega)]
          refine .intro (Turn.emit _ _) rfl ?_
          change d.pos + last ≤ d.data.length
          omega

theorem resetFrameAt_agrees (hd : d.InRange) {input : Bytes}
    (hrest : d.toDecoder.rest = FrameTag.timestampReset.byte :: input) :
    TurnsAgree d.data (d.turnOf .silent d.resetFrameAt) (d.toDecoder.resetFrameTurn input) := by
  have hfits := d.data.length_lt
  have hd' : d.pos ≤ d.data.length := hd
  have hinput : input = d.data.bytes.drop (d.pos + 1) := by
    change d.data.bytes.drop d.pos = FrameTag.timestampReset.byte :: input at hrest
    rw [← List.drop_drop, hrest]
    rfl
  unfold resetFrameAt Decoder.resetFrameTurn Slice.get
  rw [Outcome.add_eq (by omega), Outcome.value_bind, Outcome.add_eq (by omega),
    Outcome.value_bind, hinput, u64_apply, List.length_drop]
  by_cases hlen : d.pos + 9 ≤ d.data.length
  · have hlen' : 8 ≤ d.data.bytes.length - (d.pos + 1) := by
      unfold Slice.length at hlen
      omega
    have hwidth : d.pos + 9 - (d.pos + 1) = 8 := by omega
    have hb : ((d.data.bytes.drop (d.pos + 1)).take 8).length = 8 := by
      rw [List.length_take, List.length_drop]
      omega
    have hadvance : d.toDecoder.advance (d.data.bytes.drop (d.pos + 9)) =
        toDecoder { d with pos := d.pos + 9 } := by
      rw [← advance_toDecoder hlen, Slice.drop_bytes, List.drop_drop]
    rw [if_pos ⟨by omega, hlen⟩, if_pos hlen', hwidth, Outcome.orStop_some, Outcome.value_bind,
      unwrapWord, if_pos hb, Outcome.value_bind, Outcome.value_bind, List.drop_drop]
    dsimp only
    rw [hadvance]
    exact .intro (Turn.silent _) rfl hlen
  · have hlen' : ¬ 8 ≤ d.data.bytes.length - (d.pos + 1) := by
      unfold Slice.length at hlen hd'
      omega
    rw [if_neg fun h => hlen h.2, if_neg hlen']
    exact turnsAgree_error hd _ _

theorem otherFrameAt_agrees (hd : d.InRange) (tag : UInt8) :
    TurnsAgree d.data (d.otherFrameAt tag) (d.toDecoder.otherFrameTurn tag) := by
  have hheader : ((if tag = 0x54 then d.toDecoder.tryConsumeResetHeader else none) = none ∧
        d.headerTurnAt tag = .value none) ∨
      ∃ next, (if tag = 0x54 then d.toDecoder.tryConsumeResetHeader else none) =
          some (toDecoder next) ∧
        d.headerTurnAt tag = .value (some next) ∧ next.data = d.data ∧ next.InRange := by
    unfold headerTurnAt
    by_cases hmagic : tag = 0x54
    · rw [if_pos hmagic, if_pos hmagic]
      exact tryConsumeResetHeaderAt_cases hd
    · rw [if_neg hmagic, if_neg hmagic]
      exact .inl ⟨rfl, rfl⟩
  unfold otherFrameAt Decoder.otherFrameTurn
  obtain ⟨hnone, hvalue⟩ | ⟨next, hsome, hvalue, hdata, hrange⟩ := hheader
  · rw [hnone, hvalue, Outcome.value_bind]
    dsimp only
    have hframe := nextFrameRefAt_agrees hd
    revert hframe
    generalize d.nextFrameRefAt = outcome
    generalize d.toDecoder.nextFrameRef = taken
    intro hframe
    cases hframe with
    | intro turn hdata hrange =>
      cases turn with
      | emit frame next => exact .intro (Turn.silent next) hdata hrange
      | silent next => exact .intro (Turn.halt LoopEnd.done next) hdata hrange
      | halt reason last =>
        cases reason with
        | exhausted => exact .intro (Turn.halt (LoopEnd.decode _) last) hdata hrange
        | error e => exact .intro (Turn.halt (LoopEnd.decode e) last) hdata hrange
  · rw [hsome, hvalue, Outcome.value_bind]
    exact .intro (Turn.silent next) hdata hrange

theorem eventTurnAt_cases (hd : d.InRange) :
    (d.eventTurnAt = .panic ∧ d.toDecoder.Overflows) ∨
      (TurnsAgree d.data d.eventTurnAt d.toDecoder.eventTurn ∧ ¬ d.toDecoder.Overflows) := by
  have hd' : d.pos ≤ d.data.length := hd
  unfold eventTurnAt Decoder.eventTurn
  cases hrest : d.toDecoder.rest with
  | nil =>
    have hlen := congrArg List.length hrest
    rw [toDecoder, List.length_drop, List.length_nil] at hlen
    rw [if_pos (by unfold Slice.length; omega)]
    refine .inr ⟨.intro (Turn.halt LoopEnd.done d) rfl hd, ?_⟩
    rintro ⟨typeId, cache, input, delta, rest, heq, -⟩
    rw [hrest] at heq
    cases heq
  | cons tag input =>
    have hlen := congrArg List.length hrest
    rw [toDecoder, List.length_drop, List.length_cons] at hlen
    have hhead : (d.data.drop d.pos).bytes.head? = some tag := by
      change d.data.bytes.drop d.pos = tag :: input at hrest
      rw [Slice.drop_bytes, hrest]
      rfl
    rw [if_neg (by unfold Slice.length; omega), Slice.suffix_eq hd', Outcome.value_bind, hhead]
    dsimp only
    by_cases hevent : tag = FrameTag.event.byte
    · subst hevent
      rw [if_pos rfl, if_pos rfl]
      obtain ⟨hpanic, hover⟩ | hok := eventFrameAt_cases hd hrest
      · rw [hpanic]
        exact .inl ⟨rfl, hover⟩
      · exact .inr hok
    · have hover := Decoder.not_overflows_of_tag hrest hevent
      rw [if_neg hevent, if_neg hevent]
      by_cases hreset : tag = FrameTag.timestampReset.byte
      · subst hreset
        rw [if_pos rfl, if_pos rfl]
        exact .inr ⟨resetFrameAt_agrees hd hrest, hover⟩
      · rw [if_neg hreset, if_neg hreset]
        exact .inr ⟨otherFrameAt_agrees hd tag, hover⟩

end Callback

/-! ## Safety and progress -/

section Progress

variable {α ε : Type}

/-- A decode that panics nowhere and uses between `least` and `left` bytes. -/
def UsesWithin (least left : Nat) : Outcome Unit (α × Nat) → Prop
  | .value (_, used) => least ≤ used ∧ used ≤ left
  | .stop _ => True
  | .panic => False

/-- A decode that panics nowhere and returns a rest of its slice. -/
def LeavesRest (data : Slice) : Outcome Unit (α × Slice) → Prop
  | .value (_, rest) => ∃ used, used ≤ data.length ∧ rest = data.drop used
  | .stop _ => True
  | .panic => False

/-- A turn that does not panic, keeps the buffer and stays in it, and moves on
by at least one byte unless it halts. -/
def Progresses (d : DecoderAt) : Outcome Unit (Turn DecoderAt α ε) → Prop
  | .value turn => turn.next.data = d.data ∧ (d.InRange → turn.next.InRange) ∧
      (turn.GoesOn → d.pos < turn.next.pos ∧ turn.next.InRange)
  | .stop _ => False
  | .panic => False

theorem Agrees.usesWithin {o : Outcome Unit (α × Nat)} {r : Option (α × Bytes)}
    (h : Agrees data 0 o r) : UsesWithin 0 data.length o := by
  cases h with
  | none => trivial
  | some a stop _ hstop => exact ⟨Nat.zero_le stop, hstop⟩

theorem Leaves.leavesRest {o : Outcome Unit (α × Slice)}
    {r : Option (α × Bytes)} (h : Leaves data o r) : LeavesRest data o := by
  cases h with
  | none => trivial
  | some a n hn => exact ⟨n, hn, rfl⟩

theorem usesWithin_of_frame (hlocal : flavour.Local) {lookup : WireTypeId → Option SchemaInfo}
    {base : UInt64} {o : Outcome Unit (Frame V F × Nat)}
    (h : Agrees data 0 o (decodeFrameWith flavour lookup base data.bytes)) :
    UsesWithin 1 data.length o := by
  revert h
  generalize hread : decodeFrameWith flavour lookup base data.bytes = read
  intro h
  cases h with
  | none => trivial
  | some a stop _ hstop =>
    have hlt := decodeFrameWith_length_lt hlocal hread
    rw [List.length_drop] at hlt
    exact ⟨by omega, hstop⟩

theorem TurnsAgree.progresses {d : DecoderAt} {step : Decoder → Turn Decoder α ε}
    {o : Outcome Unit (Turn DecoderAt α ε)}
    (hless : Machine.Below Decoder.left d.toDecoder.left (step d.toDecoder))
    (h : TurnsAgree d.data o (step d.toDecoder)) : d.Progresses o := by
  revert hless h
  generalize step d.toDecoder = taken
  intro hless h
  cases h with
  | intro turn hdata hrange =>
    refine ⟨hdata, fun _ => hrange, fun hgo => ⟨?_, hrange⟩⟩
    have hleft : turn.next.toDecoder.left < d.toDecoder.left := by
      cases turn with
      | emit _ _ | silent _ => exact hless
      | halt reason last => exact hgo.elim
    rw [toDecoder_left, toDecoder_left, left, left, hdata] at hleft
    omega

variable {d : DecoderAt}

theorem nextTurnAtWith_of_not_inRange (flavour : Flavour V F)
    (decode : (WireTypeId → Option SchemaInfo) → UInt64 → Slice → Outcome Unit (Frame V F × Nat))
    (hd : ¬ d.InRange) :
    nextTurnAtWith flavour decode d = .value (.halt .exhausted d) :=
  if_pos (Nat.le_of_not_le hd)

theorem progresses_halt (reason : ε) :
    d.Progresses (.value (.halt reason d) : Outcome Unit (Turn DecoderAt α ε)) :=
  ⟨rfl, id, fun hgo => hgo.elim⟩

theorem nextTurnAt_progresses (d : DecoderAt) : d.Progresses d.nextTurnAt := by
  by_cases hd : d.InRange
  · exact (nextTurnAt_agrees hd).progresses (Decoder.nextTurnWith_decreases owned_local _)
  · rw [nextTurnAt, nextTurnAtWith_of_not_inRange owned decodeFrameAt hd]
    exact progresses_halt _

theorem nextTurnRefAt_progresses (d : DecoderAt) : d.Progresses d.nextTurnRefAt := by
  by_cases hd : d.InRange
  · exact (nextTurnRefAt_agrees hd).progresses (Decoder.nextTurnWith_decreases zeroCopy_local _)
  · rw [nextTurnRefAt, nextTurnAtWith_of_not_inRange zeroCopy decodeFrameRefAt hd]
    exact progresses_halt _

theorem eventTurnAt_progresses (d : DecoderAt) :
    (d.eventTurnAt = .panic ∧ d.toDecoder.Overflows) ∨
      (d.Progresses d.eventTurnAt ∧ ¬ d.toDecoder.Overflows) := by
  by_cases hd : d.InRange
  · obtain hpanic | ⟨hagrees, hover⟩ := eventTurnAt_cases hd
    · exact .inl hpanic
    · exact .inr ⟨hagrees.progresses (Decoder.eventTurn_decreases _), hover⟩
  · have hend : d.data.bytes.length ≤ d.pos := Nat.le_of_not_le hd
    have hturn : d.eventTurnAt = .value (.halt .done d) := if_pos hend
    rw [hturn]
    refine .inr ⟨progresses_halt _, ?_⟩
    rintro ⟨typeId, cache, input, delta, rest, heq, -⟩
    rw [toDecoder, List.drop_eq_nil_of_le hend] at heq
    cases heq

/-- The calls of `next_frame` on itself, one for each byte left, are enough. -/
theorem settleAt_progresses (hlocal : flavour.Local) (hdecode : ∀ lookup base rest,
      Agrees rest 0 (decode lookup base rest) (decodeFrameWith flavour lookup base rest.bytes))
    (d : DecoderAt) : d.Progresses (settleAt (nextTurnAtWith flavour decode) (d.left + 1) d) := by
  by_cases hd : d.InRange
  · have hdec := Decoder.nextTurnWith_decreases hlocal
    have hagrees := settleAt_agrees (fun _ => nextTurnAtWith_agrees hdecode) hdec (d.left + 1) hd
      (Nat.lt_succ_self _)
    exact @TurnsAgree.progresses _ _ d
      (Machine.settle (Decoder.nextTurnWith flavour) (d.left + 1)) _
      (Machine.settle_decreases hdec) hagrees
  · rw [settleAt, nextTurnAtWith_of_not_inRange flavour decode hd]
    exact progresses_halt _

section Loops

variable {turn : DecoderAt → Outcome Unit (Turn DecoderAt α ε)}

/-- A loop whose turns progress, unless they panic, does not go on for ever. -/
theorem loopAt_ne_stop (hturn : ∀ d : DecoderAt, turn d = .panic ∨ d.Progresses (turn d))
    (turns : Nat) (hleft : d.left < turns) : loopAt turn turns d ≠ .stop () := by
  induction turns generalizing d with
  | zero => omega
  | succ turns ih =>
    have hone := hturn d
    unfold loopAt
    revert hone
    generalize turn d = outcome
    rintro (rfl | hone)
    · exact fun h => nomatch h
    · cases outcome with
      | stop _ | panic => exact hone.elim
      | value taken =>
        obtain ⟨hdata, -, hmove⟩ := hone
        cases taken with
        | halt reason last => exact fun h => nomatch h
        | emit value next =>
          obtain ⟨hpos, hrange⟩ := hmove trivial
          refine ih (d := next) ?_
          unfold left InRange at *
          simp only [Turn.next] at hdata hpos hrange
          rw [hdata] at hrange ⊢
          omega
        | silent next =>
          obtain ⟨hpos, hrange⟩ := hmove trivial
          refine ih (d := next) ?_
          unfold left InRange at *
          simp only [Turn.next] at hdata hpos hrange
          rw [hdata] at hrange ⊢
          omega

theorem loopAt_ne_panic (hturn : ∀ d : DecoderAt, d.Progresses (turn d)) (turns : Nat)
    (d : DecoderAt) :
    loopAt turn turns d ≠ .panic := by
  induction turns generalizing d with
  | zero => exact fun h => nomatch h
  | succ turns ih =>
    have hone := hturn d
    unfold loopAt
    revert hone
    generalize turn d = outcome
    intro hone
    cases outcome with
    | stop _ | panic => exact hone.elim
    | value taken =>
      cases taken with
      | halt reason last => exact fun h => nomatch h
      | emit value next => exact ih next
      | silent next => exact ih next

end Loops

end Progress

/-- Decoding at `d` is safe and makes progress: nested values and varints stay
in what they are given, on a bounded call stack and at any depth; frames use at
least a byte and at most what is left; turns of the three entry points move on
inside the buffer; and every loop over them ends. The calls of `next_frame` on
itself, one for each header or reset frame, have no constant bound: they get a
call stack of one more than the bytes that are left. -/
structure SafeAt (d : DecoderAt) : Prop where
  varint : ∀ data, UsesWithin 0 data.length (Leb128.decodeUnsignedAt data)
  value : ∀ ft data depth,
    LeavesRest data (FieldValue.decodeDepthAt decodeCallStack ft data depth)
  valueRef : ∀ ft data offset depth, UsesWithin 0 (data.length - offset)
    (FieldValueRef.decodeDepthAt decodeCallStack ft data offset depth)
  frame : UsesWithin 1 d.left
    (decodeFrameAt d.state.schemaInfo d.state.timestampBaseNs (d.data.drop d.pos))
  frameRef : UsesWithin 1 d.left
    (decodeFrameRefAt d.state.schemaInfo d.state.timestampBaseNs (d.data.drop d.pos))
  nextFrame : d.Progresses (settleAt nextTurnAt (d.left + 1) d)
  nextFrameRef : d.Progresses d.nextFrameRefAt
  callback : d.Progresses d.eventTurnAt
  decodeAll : ∃ reason last, loopAt nextTurnAt (d.left + 1) d = .value (reason, last)
  decodeAllRef : ∃ reason last, loopAt nextTurnRefAt (d.left + 1) d = .value (reason, last)
  callbackLoop : loopAt eventTurnAt (d.left + 1) d ≠ .stop ()

theorem callsFrom_le (depth : Nat) : callsFrom depth ≤ decodeCallStack := by
  unfold callsFrom decodeCallStack
  omega

theorem valueRef_usesWithin (ft : FieldType) (data : Slice) (offset depth : Nat) :
    UsesWithin 0 (data.length - offset)
      (FieldValueRef.decodeDepthAt decodeCallStack ft data offset depth) := by
  by_cases hoffset : offset ≤ data.length
  · have h := Agrees.usesWithin
      (FieldValueRef.agrees_decodeDepthAt data decodeCallStack ft offset depth hoffset
        (callsFrom_le depth))
    rwa [Slice.drop_length] at h
  · have hget : data.getFrom offset = none := if_neg hoffset
    unfold decodeCallStack FieldValueRef.decodeDepthAt
    dsimp only
    rw [hget]
    split
    · trivial
    · trivial

theorem loopAt_value {α ε : Type} {turn : DecoderAt → Outcome Unit (Turn DecoderAt α ε)}
    (hturn : ∀ d : DecoderAt, d.Progresses (turn d)) (d : DecoderAt) :
    ∃ reason last, loopAt turn (d.left + 1) d = .value (reason, last) := by
  have hstop := loopAt_ne_stop (fun d => .inr (hturn d)) (d.left + 1) (Nat.lt_succ_self d.left)
  have hpanic := loopAt_ne_panic hturn (d.left + 1) d
  cases hloop : loopAt turn (d.left + 1) d with
  | value pair => exact ⟨pair.1, pair.2, rfl⟩
  | stop e => exact absurd hloop hstop
  | panic => exact absurd hloop hpanic

/-- For every buffer and every decoder state, decoding is safe and makes
progress exactly when the decoder does not stand at an event whose timestamp
overflows. -/
theorem safeAt_iff_not_overflows (d : DecoderAt) : d.SafeAt ↔ ¬ d.toDecoder.Overflows := by
  constructor
  · intro hsafe
    have hcallback := hsafe.callback
    obtain ⟨hpanic, -⟩ | ⟨-, hover⟩ := d.eventTurnAt_progresses
    · rw [hpanic] at hcallback
      exact hcallback.elim
    · exact hover
  · intro hover
    have hleft : (d.data.drop d.pos).length = d.left := Slice.drop_length _ _
    refine ⟨fun data => Agrees.usesWithin (Leb128.decodeUnsignedAt_agrees data),
      fun ft data depth => Leaves.leavesRest
        (FieldValue.leaves_decodeDepthAt decodeCallStack ft data depth (callsFrom_le depth)),
      valueRef_usesWithin, ?_, ?_, settleAt_progresses owned_local agrees_decodeFrameAt d,
      settleAt_progresses zeroCopy_local agrees_decodeFrameRefAt d, ?_,
      loopAt_value nextTurnAt_progresses d, loopAt_value nextTurnRefAt_progresses d, ?_⟩
    · rw [← hleft]
      exact usesWithin_of_frame owned_local (agrees_decodeFrameAt _ _ _)
    · rw [← hleft]
      exact usesWithin_of_frame zeroCopy_local (agrees_decodeFrameRefAt _ _ _)
    · obtain ⟨-, h⟩ | ⟨h, -⟩ := d.eventTurnAt_progresses
      · exact absurd h hover
      · exact h
    · refine loopAt_ne_stop (fun d => ?_) (d.left + 1) (Nat.lt_succ_self d.left)
      obtain ⟨h, -⟩ | ⟨h, -⟩ := d.eventTurnAt_progresses
      · exact .inl h
      · exact .inr h

/-- A reset to the largest timestamp, and an event one nanosecond later. -/
def overflowingBuffer : Slice where
  bytes := Decoder.resetStream 0xFFFFFFFFFFFFFFFF ++ Decoder.tickFrame
  fits := by decide

/-- After the schema and the reset, the callback loop panics at the event. -/
theorem overflowingBuffer_not_safeAt :
    ∃ start schema atReset atTick, newAt overflowingBuffer = .value start ∧
      start.nextTurnRefAt = .value (.emit schema atReset) ∧
      atReset.nextTurnRefAt = .value (.silent atTick) ∧
      atTick.eventTurnAt = .panic ∧ ¬ atTick.SafeAt := by
  obtain ⟨start, schema, atReset, atTick, hnew, hschema, hreset, hpanic⟩ :
      ∃ start schema atReset atTick, newAt overflowingBuffer = .value start ∧
        start.nextTurnRefAt = .value (.emit schema atReset) ∧
        atReset.nextTurnRefAt = .value (.silent atTick) ∧ atTick.eventTurnAt = .panic :=
    ⟨_, _, _, _, rfl, rfl, rfl, rfl⟩
  refine ⟨start, schema, atReset, atTick, hnew, hschema, hreset, hpanic, fun hsafe => ?_⟩
  have hcallback := hsafe.callback
  rw [hpanic] at hcallback
  exact hcallback

end DecoderAt

end Dial9.TraceFormat
