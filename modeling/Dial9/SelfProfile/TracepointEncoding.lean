/-
# When a tracepoint's event is well formed

A field's type in the schema and its value in the event come from two functions. They
agree unless an integer has a size for which there is no integer value. A record is read
without a panic unless a field that is reached has its end past the largest offset, or
holds no whole descriptor.
-/

import Dial9.SelfProfile.TracepointLayout
import Dial9.TraceFormat.Session

namespace Dial9.SelfProfile.Tracepoint

open Lib (Bytes Str Text)
open TraceFormat (FieldType FieldValue FieldDef Encoder DecoderState Synced Follows ValuesFit)

/-! ## One field -/

/-- The value has the type that the schema gives the field: all but integers of a width that no
integer value has. -/
def ShapesAgree (field : TracepointField) : Prop :=
  field.isDynamic = true ∨ isCharArray field.fieldType = true ∨
    field.size.toNat ∉ [3, 5, 6, 7]

instance (field : TracepointField) : Decidable (ShapesAgree field) :=
  inferInstanceAs (Decidable (_ ∨ _ ∨ _))

/-- The record has the field, and the data that its descriptor points to. -/
def FieldFits (t : Target) (raw : Bytes) (field : TracepointField) : Prop :=
  ∃ end_, t.add field.offset.toNat field.size.toNat = some end_ ∧ end_ ≤ raw.length ∧
    if field.isDynamic then field.offset.toNat + 4 ≤ raw.length ∧
      descriptor t.order raw field / 2 ^ 16 + descriptor t.order raw field % 2 ^ 16 ≤ raw.length
    else field.offset.toNat ≤ end_

/-- The end of the field overflows, or it lies in the record but the start lies behind it, or the
descriptor does not lie in the record. -/
def FieldPanics (t : Target) (raw : Bytes) (field : TracepointField) : Prop :=
  match t.add field.offset.toNat field.size.toNat with
  | none => True
  | some end_ => end_ ≤ raw.length ∧
      if field.isDynamic then raw.length < field.offset.toNat + 4 else end_ < field.offset.toNat

variable {t : Target} {raw : Bytes} {field : TracepointField} {fields : List TracepointField}
  {value : RawFieldValue} {extracted : List (Str × RawFieldValue)}

theorem slice_of_le {start end_ : Nat} (h : start ≤ end_) (hend : end_ ≤ raw.length) :
    slice raw start end_ = some (stretch raw start (end_ - start)) := by
  rw [slice, if_pos ⟨h, hend⟩, stretch]

theorem descriptorSlice_eq (hraw : raw.length < 2 ^ 63) {offset : Nat} :
    (t.add offset 4).bind (slice raw offset) =
      if offset + 4 ≤ raw.length then some (stretch raw offset 4) else none := by
  by_cases hroom : offset + 4 ≤ raw.length
  · rw [if_pos hroom, add_of_lt (by omega), Option.bind_some, slice_add hroom]
  · rw [if_neg hroom, Target.add]
    split
    case isTrue hlt => rw [Option.bind_some, slice, if_neg (by omega)]
    case isFalse hge =>
        split
        · rfl
        · rw [Option.bind_some, slice, if_neg (by omega)]

theorem extractField_cases (t : Target) (field : TracepointField) (hraw : raw.length < 2 ^ 63) :
    (FieldFits t raw field ∧ ∃ value, extractField t raw field = .ok value) ∨
      (FieldPanics t raw field ∧ extractField t raw field = .error .panic) ∨
      (¬ FieldFits t raw field ∧ ¬ FieldPanics t raw field ∧
        ∃ e, extractField t raw field = .error (.error e)) := by
  rw [extractField, FieldFits, FieldPanics]
  cases hend : t.add field.offset.toNat field.size.toNat with
  | none => exact .inr (.inl ⟨trivial, rfl⟩)
  | some end_ =>
    dsimp only
    by_cases hshort : raw.length < end_
    · rw [if_pos hshort]
      refine .inr (.inr ⟨?_, fun hpanic => absurd hpanic.1 (by omega), _, rfl⟩)
      rintro ⟨_, ⟨⟩, hle, -⟩
      omega
    rw [if_neg hshort]
    cases hdynamic : field.isDynamic with
    | false =>
      simp only [Bool.false_eq_true, if_false]
      by_cases hstart : field.offset.toNat ≤ end_
      · rw [slice_of_le hstart (by omega)]
        exact .inl ⟨⟨end_, rfl, by omega, hstart⟩, _, rfl⟩
      · rw [slice, if_neg (fun h => hstart h.1)]
        exact .inr (.inl ⟨⟨by omega, by omega⟩, rfl⟩)
    | true =>
      simp only [if_true]
      rw [descriptorSlice_eq hraw]
      by_cases hroom : field.offset.toNat + 4 ≤ raw.length
      · rw [if_pos hroom]
        dsimp only
        rw [← descriptor]
        by_cases hbeyond : raw.length < descriptor t.order raw field / 2 ^ 16 +
            descriptor t.order raw field % 2 ^ 16
        · rw [if_pos hbeyond]
          refine .inr (.inr ⟨?_, fun hpanic => absurd hpanic.2 (by omega), _, rfl⟩)
          rintro ⟨_, ⟨⟩, -, -, hle⟩
          omega
        · rw [if_neg hbeyond]
          exact .inl ⟨⟨end_, rfl, by omega, hroom, by omega⟩, _, rfl⟩
      · rw [if_neg hroom]
        exact .inr (.inl ⟨⟨by omega, by omega⟩, rfl⟩)

theorem FieldFits.not_panics (h : FieldFits t raw field) : ¬ FieldPanics t raw field := by
  obtain ⟨end_, hend, -, hfits⟩ := h
  rw [FieldPanics, hend]
  cases hdynamic : field.isDynamic with
  | false =>
    rw [hdynamic, if_neg Bool.false_ne_true] at hfits
    rintro ⟨-, hpanic⟩
    rw [if_neg Bool.false_ne_true] at hpanic
    omega
  | true =>
    rw [hdynamic, if_pos rfl] at hfits
    rintro ⟨-, hpanic⟩
    rw [if_pos rfl] at hpanic
    omega

theorem extractField_ok_iff (hraw : raw.length < 2 ^ 63) :
    (∃ value, extractField t raw field = .ok value) ↔ FieldFits t raw field := by
  rcases extractField_cases t field hraw with
    ⟨hfits, hok⟩ | ⟨hpanics, heq⟩ | ⟨hfits, -, e, heq⟩
  · exact iff_of_true hok hfits
  · rw [heq]
    exact iff_of_false (fun ⟨_, h⟩ => nomatch h) fun hfits => hfits.not_panics hpanics
  · rw [heq]
    exact iff_of_false (fun ⟨_, h⟩ => nomatch h) hfits

theorem extractField_panic_iff (hraw : raw.length < 2 ^ 63) :
    extractField t raw field = .error .panic ↔ FieldPanics t raw field := by
  rcases extractField_cases t field hraw with
    ⟨hfits, value, hok⟩ | ⟨hpanics, heq⟩ | ⟨-, hpanics, e, heq⟩
  · rw [hok]
    exact iff_of_false (fun h => nomatch h) hfits.not_panics
  · exact iff_of_true heq hpanics
  · rw [heq]
    exact iff_of_false (fun h => nomatch h) hpanics

theorem extractFieldValue_matches_iff {order : Lib.ByteOrder} {bytes : Bytes} {size : Nat}
    {signed : Bool} {fieldType : Str} :
    (rawToTraceFormatValue (extractFieldValue order bytes size signed fieldType)).Matches
        (kernelTypeToFieldType fieldType size signed) ↔
      isCharArray fieldType = true ∨ size ∉ [3, 5, 6, 7] := by
  cases harray : isCharArray fieldType with
  | true =>
    unfold extractFieldValue kernelTypeToFieldType
    rw [if_pos harray, if_pos harray]
    exact iff_of_true (.inr rfl) (.inl rfl)
  | false =>
    unfold extractFieldValue kernelTypeToFieldType FieldValue.Matches
    rw [harray]
    by_cases hsize : size ≤ 8
    · interval_cases size <;> cases signed <;>
        simp [rawToTraceFormatValue, FieldType.isOptional, FieldValue.shape, FieldType.inner]
    · obtain ⟨n, rfl⟩ : ∃ n, size = n + 9 := ⟨size - 9, by omega⟩
      simp [rawToTraceFormatValue, FieldType.isOptional, FieldValue.shape, FieldType.inner]

theorem matches_iff_shapesAgree (h : extractField t raw field = .ok value) :
    (rawToTraceFormatValue value).Matches (kernelFieldToTraceFormat field).fieldType ↔
      ShapesAgree field := by
  rw [extractField] at h
  split at h
  · cases h
  split at h
  · cases h
  unfold kernelFieldToTraceFormat ShapesAgree
  cases hdynamic : field.isDynamic with
  | true =>
    rw [if_pos hdynamic] at h
    split at h
    · cases h
    dsimp only at h
    split at h
    · cases h
    cases h
    exact iff_of_true (.inr rfl) (.inl rfl)
  | false =>
    rw [if_neg (by simp [hdynamic])] at h
    split at h
    · cases h
    cases h
    simpa using extractFieldValue_matches_iff

/-! ## All fields -/

/-- A field panics, and the extraction comes to it. -/
def Blocked (t : Target) (raw : Bytes) (fields : List TracepointField) : Prop :=
  ∃ before field after, fields = before ++ field :: after ∧ (∀ f ∈ before, FieldFits t raw f) ∧
    FieldPanics t raw field

theorem blocked_cons : Blocked t raw (field :: fields) ↔
    FieldPanics t raw field ∨ (FieldFits t raw field ∧ Blocked t raw fields) := by
  constructor
  · rintro ⟨before, f, after, heq, hfits, hpanics⟩
    cases before with
    | nil =>
      obtain ⟨rfl, -⟩ := List.cons.inj heq
      exact .inl hpanics
    | cons first before =>
      obtain ⟨rfl, rfl⟩ := List.cons.inj heq
      obtain ⟨hfirst, hbefore⟩ := List.forall_mem_cons.mp hfits
      exact .inr ⟨hfirst, before, f, after, rfl, hbefore, hpanics⟩
  · rintro (hpanics | ⟨hfits, before, f, after, rfl, hbefore, hpanics⟩)
    · exact ⟨[], field, fields, rfl, by simp, hpanics⟩
    · exact ⟨field :: before, f, after, rfl, List.forall_mem_cons.mpr ⟨hfits, hbefore⟩, hpanics⟩

theorem extractFrom_panic_iff (hraw : raw.length < 2 ^ 63) :
    extractFrom t raw fields = .error .panic ↔ Blocked t raw fields := by
  induction fields with
  | nil =>
      exact iff_of_false (fun h => nomatch h) (by rintro ⟨before, f, after, heq, -⟩; simp at heq)
  | cons field fields ih =>
    rw [blocked_cons, ← extractField_panic_iff hraw, ← extractField_ok_iff hraw, ← ih, extractFrom]
    cases extractField t raw field with
    | error failure => simp
    | ok value => cases extractFrom t raw fields <;> simp

theorem extractFrom_ok_iff (hraw : raw.length < 2 ^ 63) :
    (∃ extracted, extractFrom t raw fields = .ok extracted) ↔ ∀ f ∈ fields, FieldFits t raw f := by
  induction fields with
  | nil => exact iff_of_true ⟨[], rfl⟩ (by simp)
  | cons field fields ih =>
    rw [List.forall_mem_cons, ← ih, ← extractField_ok_iff hraw, extractFrom]
    cases extractField t raw field with
    | error failure => simp
    | ok value => cases extractFrom t raw fields <;> simp

theorem forall₂_of_extractFrom (h : extractFrom t raw fields = .ok extracted) :
    List.Forall₂ (fun field pair => extractField t raw field = .ok pair.2) fields extracted := by
  induction fields generalizing extracted with
  | nil =>
    cases h
    exact .nil
  | cons field fields ih =>
    rw [extractFrom] at h
    cases hfield : extractField t raw field with
    | error failure =>
      rw [hfield] at h
      cases h
    | ok value =>
      rw [hfield] at h
      cases hrest : extractFrom t raw fields with
      | error failure =>
        rw [hrest] at h
        cases h
      | ok values =>
        rw [hrest] at h
        cases h
        exact .cons hfield (ih hrest)

theorem values_match_iff (h : extractFrom t raw fields = .ok extracted) :
    List.Forall₂ (fun value (field : FieldDef) => value.Matches field.fieldType)
        (TracepointDef.toTraceFormatValues extracted) (fields.map kernelFieldToTraceFormat) ↔
      ∀ f ∈ fields, ShapesAgree f := by
  have hvalues := forall₂_of_extractFrom h
  clear h
  induction hvalues with
  | nil => exact iff_of_true .nil (by simp)
  | @cons field pair fields extracted hfield _ ih =>
    rw [List.forall_mem_cons]
    exact List.forall₂_cons.trans (and_congr (matches_iff_shapesAgree hfield) ih)

/-! ## The event -/

/-- What is asked of an event: the call does not panic, and if it returns without an error then one
event was written behind the schema, of the extracted values, each of the type at its position. A
decoder in step with the encoder then reads that event, where lengths fit their prefixes, and stays
in step. -/
structure EncodesConsistently (t : Target) (tp : TracepointDef) (identity : Nat)
    (encoder : Encoder) (timestampNs : UInt64) (raw : Bytes) : Prop where
  noPanic : (tp.encodeRaw t encoder (tp.schema identity) timestampNs raw).1 ≠ .error .panic
  wellFormed :
    ∀ after, tp.encodeRaw t encoder (tp.schema identity) timestampNs raw = (.ok (), after) →
    ∃ extracted typeId registered,
      let values := TracepointDef.toTraceFormatValues extracted
      let entry := (tp.schema identity).entry
      tp.extractFields t raw = .ok extracted ∧
      encoder.ensureRegistered (tp.schema identity) = (.ok typeId, registered) ∧
      after = registered.writeEventFrame typeId timestampNs (Encoder.encodeValues entry values) ∧
      List.Forall₂
        (fun value (field : FieldDef) => value.Matches field.fieldType) values entry.fields ∧
      ∀ s, Synced (fun _ => False) encoder s → entry.Fits →
        (∀ value ∈ values, ∀ payload ∈ value.payloads, payload.length < 2 ^ 32) →
        ∃ s' typeId, Follows encoder after s s' [(.event typeId timestampNs values, s')] ∧
          s'.registry.get typeId = some entry ∧ Synced (fun _ => False) after s'

/-- No field panics that the extraction comes to; and if the record has all of them, the schema is
registered without a panic and, unless it is refused, the types of all fields agree. -/
structure Encodable (t : Target) (tp : TracepointDef) (identity : Nat) (encoder : Encoder)
    (raw : Bytes) : Prop where
  reads : ¬ Blocked t raw tp.fields
  registers : (∀ f ∈ tp.fields, FieldFits t raw f) →
    (encoder.ensureRegistered (tp.schema identity)).1 ≠ .error .panic
  agree : (∀ f ∈ tp.fields, FieldFits t raw f) →
    (∃ typeId, (encoder.ensureRegistered (tp.schema identity)).1 = .ok typeId) →
      ∀ f ∈ tp.fields, ShapesAgree f

variable {tp : TracepointDef} {identity : Nat} {encoder after : Encoder} {timestampNs : UInt64}

theorem length_values (h : tp.extractFields t raw = .ok extracted) :
    (TracepointDef.toTraceFormatValues extracted).length =
      (tp.schema identity).entry.fields.length := by
  have hlength := (forall₂_of_extractFrom h).length_eq
  simp only [TracepointDef.toTraceFormatValues, TracepointDef.schema,
    TracepointDef.toTraceFormatFields, List.length_map]
  exact hlength.symm

theorem writeEvent_values (h : tp.extractFields t raw = .ok extracted) :
    encoder.writeEvent (tp.schema identity) timestampNs
      (TracepointDef.toTraceFormatValues extracted) =
      match encoder.ensureRegistered (tp.schema identity) with
      | (.error fault, registered) => (.error fault, registered)
      | (.ok typeId, registered) =>
        (.ok (), registered.writeEventFrame typeId timestampNs
          (Encoder.encodeValues (tp.schema identity).entry
            (TracepointDef.toTraceFormatValues extracted))) := by
  unfold Encoder.writeEvent
  rcases encoder.ensureRegistered (tp.schema identity) with ⟨result, registered⟩
  cases result with
  | error fault => rfl
  | ok typeId => exact if_neg (not_not_intro (length_values h))

theorem encodeRaw_eq_ok_iff :
    tp.encodeRaw t encoder (tp.schema identity) timestampNs raw = (.ok (), after) ↔
    ∃ extracted typeId registered, tp.extractFields t raw = .ok extracted ∧
      encoder.ensureRegistered (tp.schema identity) = (.ok typeId, registered) ∧
      after = registered.writeEventFrame typeId timestampNs
        (Encoder.encodeValues (tp.schema identity).entry
          (TracepointDef.toTraceFormatValues extracted)) := by
  rw [TracepointDef.encodeRaw]
  cases hextract : tp.extractFields t raw with
  | error failure => simp
  | ok extracted =>
    dsimp only
    rw [writeEvent_values hextract]
    rcases encoder.ensureRegistered (tp.schema identity) with ⟨result, registered⟩
    cases result with
    | error fault => cases fault <;> simp
    | ok typeId => simp [eq_comm]

theorem encodeRaw_panic_iff (hraw : raw.length < 2 ^ 63) :
    (tp.encodeRaw t encoder (tp.schema identity) timestampNs raw).1 = .error .panic ↔
      Blocked t raw tp.fields ∨ ((∀ f ∈ tp.fields, FieldFits t raw f) ∧
        (encoder.ensureRegistered (tp.schema identity)).1 = .error .panic) := by
  rw [← extractFrom_panic_iff hraw, ← extractFrom_ok_iff hraw, TracepointDef.encodeRaw,
    TracepointDef.extractFields]
  cases hextract : extractFrom t raw tp.fields with
  | error failure => cases failure <;> simp
  | ok extracted =>
    dsimp only
    rw [writeEvent_values hextract]
    rcases encoder.ensureRegistered (tp.schema identity) with ⟨result, registered⟩
    cases result with
    | error fault => cases fault <;> simp
    | ok typeId => simp

theorem fits_rawToTraceFormatValue {budget : Nat}
    (h : ∀ payload ∈ (rawToTraceFormatValue value).payloads, payload.length < 2 ^ 32) :
    (rawToTraceFormatValue value).Fits (budget + 1) := by
  cases value with
  | str s => exact h s.bytes (by simp [rawToTraceFormatValue, FieldValue.payloads])
  | bytes b => exact h b (by simp [rawToTraceFormatValue, FieldValue.payloads])
  | _ => trivial

theorem event_follows {values : List FieldValue} {s : DecoderState}
    (hvalues : values = TracepointDef.toTraceFormatValues extracted)
    (hmatch : List.Forall₂ (fun value (field : FieldDef) => value.Matches field.fieldType) values
      (tp.schema identity).entry.fields)
    (hwrite : encoder.writeEvent (tp.schema identity) timestampNs values = (.ok (), after))
    (hsync : Synced (fun _ => False) encoder s) (hfits : (tp.schema identity).entry.Fits)
    (hpayloads : ∀ value ∈ values, ∀ payload ∈ value.payloads, payload.length < 2 ^ 32) :
    ∃ s' typeId, Follows encoder after s s' [(.event typeId timestampNs values, s')] ∧
      s'.registry.get typeId = some (tp.schema identity).entry ∧
        Synced (fun _ => False) after s' := by
  have hfit : ValuesFit (tp.schema identity).entry values := by
    intro pair hpair
    refine ⟨List.forall₂_iff_zip.mp hmatch |>.2 hpair, .inr ?_⟩
    have hmem := (List.of_mem_zip hpair).1
    obtain ⟨raw, -, hraw⟩ := List.mem_map.mp (hvalues ▸ hmem)
    rw [← hraw]
    apply fits_rawToTraceFormatValue
    rw [hraw]
    exact hpayloads pair.1 hmem
  obtain ⟨s', events, hfollows, hsync', hevents, -⟩ :=
    TraceFormat.writeEvent_follows hsync hfits hfit (fun h => h) hwrite
  obtain ⟨typeId, hget, rfl⟩ := hevents rfl
  exact ⟨s', typeId, hfollows, hget, hsync'⟩

theorem encodesConsistently_iff_encodable (hraw : raw.length < 2 ^ 63) :
    EncodesConsistently t tp identity encoder timestampNs raw ↔
      Encodable t tp identity encoder raw := by
  constructor
  · intro ⟨hpanic, hformed⟩
    rw [Ne, encodeRaw_panic_iff hraw, not_or] at hpanic
    refine ⟨hpanic.1, fun hfits hregister => hpanic.2 ⟨hfits, hregister⟩, ?_⟩
    intro hfits ⟨typeId, hregister⟩
    obtain ⟨extracted, hextract⟩ := (extractFrom_ok_iff hraw).mpr hfits
    obtain ⟨extracted', _, _, hextract', -, -, hmatch, -⟩ :=
      hformed _
        (encodeRaw_eq_ok_iff.mpr ⟨extracted, typeId, _, hextract, Prod.ext hregister rfl, rfl⟩)
    exact (values_match_iff hextract').mp hmatch
  · intro ⟨hreads, hregisters, hagree⟩
    constructor
    case noPanic =>
      rw [Ne, encodeRaw_panic_iff hraw, not_or]
      exact ⟨hreads, fun ⟨hfits, hregister⟩ => hregisters hfits hregister⟩
    case wellFormed =>
      intro after hok
      obtain ⟨extracted, typeId, registered, hextract, hregister, rfl⟩ := encodeRaw_eq_ok_iff.mp hok
      have hfits := (extractFrom_ok_iff hraw).mp ⟨extracted, hextract⟩
      have hmatch := (values_match_iff hextract).mpr
        (hagree hfits ⟨typeId, congrArg Prod.fst hregister⟩)
      refine ⟨extracted, typeId, registered, hextract, hregister, rfl, hmatch, ?_⟩
      intro s hsync hlengths hpayloads
      refine event_follows rfl hmatch ?_ hsync hlengths hpayloads
      rw [writeEvent_values hextract, hregister]

/-- A format file with one field, of the size. -/
def oneField (size : Char) : Str :=
  "name:e\nID:1\nfield:u x;offset:0;size:".toList ++ size :: ";signed:0;".toList

/-- Its definition. -/
def oneFieldDef (size : UInt64) : TracepointDef :=
  ⟨['e'], 1, [⟨['x'], ['u'], 0, size, false, false⟩]⟩

/-- For every definition that is parsed from a text, a record is encoded consistently exactly if
nothing that panics is reached and the types of the fields agree. -/
theorem encodesConsistently_iff (t : Target) (identity : Nat) (encoder : Encoder)
    (timestampNs : UInt64) (text : Str) (raw : Bytes) (hraw : raw.length < 2 ^ 63) :
    ∀ tp, parseFormat text = .ok tp →
      (EncodesConsistently t tp identity encoder timestampNs raw ↔
        Encodable t tp identity encoder raw) :=
  fun _ _ => encodesConsistently_iff_encodable hraw

set_option maxRecDepth 4000 in
theorem encodesConsistently_fourBytes :
    EncodesConsistently ⟨.little, true⟩ (oneFieldDef 4) 0 .new 5 [1, 2, 3, 4] := by
  apply (encodesConsistently_iff ⟨.little, true⟩ 0 .new 5 (oneField '4') [1, 2, 3, 4] (by decide)
    (oneFieldDef 4) (by decide)).mpr
  have hregister : (Encoder.new.ensureRegistered ((oneFieldDef 4).schema 0)).1 = .ok 256 := rfl
  constructor
  case reads =>
      rw [← extractFrom_panic_iff (by decide)]
      decide
  case registers =>
      intro _
      rw [hregister]
      exact fun h => nomatch h
  case agree =>
      intro _ _
      decide

set_option maxRecDepth 4000 in
/-- Three bytes are a varint to the schema and bytes in the event. -/
theorem threeBytes_not_encodesConsistently :
    parseFormat (oneField '3') = .ok (oneFieldDef 3) ∧
      ¬ EncodesConsistently ⟨.little, true⟩ (oneFieldDef 3) 0 .new 5 [1, 2, 3] := by
  refine ⟨by decide, ?_⟩
  intro h
  have hregister : (Encoder.new.ensureRegistered ((oneFieldDef 3).schema 0)).1 = .ok 256 := rfl
  have hfits : ∀ f ∈ (oneFieldDef 3).fields, FieldFits ⟨.little, true⟩ [1, 2, 3] f :=
    (extractFrom_ok_iff (by decide)).mp ⟨_, rfl⟩
  have hagree := ((encodesConsistently_iff_encodable (by decide)).mp h).agree hfits ⟨256, hregister⟩
  exact absurd hagree (by decide)

end Dial9.SelfProfile.Tracepoint
