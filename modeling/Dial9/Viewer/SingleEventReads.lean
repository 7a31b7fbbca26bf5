/-
# Reading the events of a span schema

A value read by the name of its field is the value at its index, when names tell the
fields apart. An integer that a double holds exactly is the same number on both sides,
and a larger product is at least as large, which is all that the comparison with the end
of a span asks.
-/

import Dial9.Viewer.SingleEventParity

namespace Dial9.Viewer.SingleEvent

open Lib (InsertionMap Str Text)
open TraceFormat (BaseType FieldType FieldDef FieldAnnotation FieldValue SchemaEntry)
open TraceParser (num num_of_lt)

variable {schema : SchemaEntry} {ev : RawEvent schema} {i : Nat}

/-! ## Rounded integers -/

/-- Rounding does not take a large number below the numbers that are held exactly. -/
theorem le_num {n : Nat} (h : 2 ^ 53 ≤ n) : 2 ^ 53 ≤ num n := by
  have hzero : n ≠ 0 := by omega
  have hlog : 53 ≤ Nat.log2 n := (Nat.le_log2 hzero).mpr h
  have hbelow : n / 2 ^ (Nat.log2 n + 1 - 53) * 2 ^ (Nat.log2 n + 1 - 53) ≤ num n := by
    simp only [num]
    split
    · exact le_refl _
    · split
      · exact Nat.mul_le_mul_right _ (Nat.le_succ _)
      · split
        · exact le_refl _
        · exact Nat.mul_le_mul_right _ (Nat.le_succ _)
  refine le_trans ?_ hbelow
  have hpow : 2 ^ 52 * 2 ^ (Nat.log2 n + 1 - 53) = 2 ^ Nat.log2 n := by
    rw [← pow_add]
    congr 1
    omega
  have hquotient : 2 ^ 52 ≤ n / 2 ^ (Nat.log2 n + 1 - 53) := by
    rw [Nat.le_div_iff_mul_le (by positivity), hpow]
    exact Nat.log2_self_le hzero
  calc 2 ^ 53 ≤ 2 ^ Nat.log2 n := Nat.pow_le_pow_right (by decide) hlog
    _ = 2 ^ 52 * 2 ^ (Nat.log2 n + 1 - 53) := hpow.symm
    _ ≤ _ := Nat.mul_le_mul_right _ hquotient

theorem num_cases (n : Nat) : (n < 2 ^ 53 ∧ num n = n) ∨ (2 ^ 53 ≤ n ∧ 2 ^ 53 ≤ num n) := by
  obtain h | h := Nat.lt_or_ge n (2 ^ 53)
  · exact .inl ⟨h, num_of_lt h⟩
  · exact .inr ⟨h, le_num h⟩

/-! ## Values by name -/

/-- Names tell the fields of a schema apart. `__proto__` is no property of its own. -/
def NamesApart (schema : SchemaEntry) : Prop :=
  (schema.fields.map FieldDef.name).Nodup ∧
    text "__proto__" ∉ schema.fields.map FieldDef.name

/-- Integers that a double holds exactly. -/
def SmallInteger : FieldValue → Prop
  | .varint n => n.toNat < 2 ^ 53
  | .i64 n => n.toInt < 2 ^ 53
  | _ => True

/-- What the parity of the decoders is about: small integers, and strings that resolve. -/
structure Ordinary (ev : RawEvent schema) : Prop where
  timestamp : ev.timestampNs.toNat < 2 ^ 53
  integers : ∀ v ∈ ev.fields, SmallInteger v
  strings : ∀ id, FieldValue.pooledString id ∈ ev.fields → (ev.stringPool id).isSome

variable {name : Text} {values : Js.Values}

variable {g : FieldValue → FieldValue} {pairs : List (FieldDef × FieldValue)}

theorem get?_foldl_of_not_mem (h : name ∉ pairs.map fun pair => pair.1.name) :
    (pairs.foldl (fun values pair => values.update pair.1.name fun _ => g pair.2)
      values).get? name = values.get? name := by
  induction pairs generalizing values with
  | nil => rfl
  | cons pair pairs ih =>
    simp only [List.map_cons, List.mem_cons, not_or] at h
    rw [List.foldl_cons, ih h.2, InsertionMap.get?_update_of_ne (Ne.symm h.1)]

theorem get?_foldl_of_mem {pair : FieldDef × FieldValue}
    (hnames : (pairs.map fun pair => pair.1.name).Nodup) (h : pair ∈ pairs) :
    (pairs.foldl (fun values pair => values.update pair.1.name fun _ => g pair.2) values).get?
      pair.1.name = some (g pair.2) := by
  induction pairs generalizing values with
  | nil => simp at h
  | cons first pairs ih =>
    rw [List.map_cons, List.nodup_cons] at hnames
    rw [List.foldl_cons]
    obtain rfl | h := List.mem_cons.mp h
    · rw [get?_foldl_of_not_mem hnames.1, InsertionMap.get?_update_self]
    · exact ih hnames.2 h

theorem length_fields (ev : RawEvent schema) : schema.fields.length = ev.fields.length :=
  ev.typed.length_eq

theorem value_eq (hi : i < ev.fields.length) : ev.value i = ev.fields[i] := by
  simp [RawEvent.value, hi]

theorem value_mem (ev : RawEvent schema) (hi : i < schema.fields.length) :
    ev.value i ∈ ev.fields := by
  have hi' : i < ev.fields.length := length_fields ev ▸ hi
  rw [value_eq hi']
  exact List.getElem_mem hi'

theorem get?_values (hnames : NamesApart schema) (hi : i < schema.fields.length) :
    (Js.values ev).get? (Js.fieldName schema i) = some (Js.jsValue ev (ev.value i)) := by
  have hi' : i < ev.fields.length := length_fields ev ▸ hi
  have hzip : ((schema.fields.zip ev.fields).map fun pair => pair.1.name) =
      schema.fields.map FieldDef.name := by
    calc (schema.fields.zip ev.fields).map (fun pair => pair.1.name)
        = ((schema.fields.zip ev.fields).map Prod.fst).map FieldDef.name := by
          rw [List.map_map]
          rfl
      _ = schema.fields.map FieldDef.name := by rw [List.map_fst_zip (length_fields ev).le]
  have hmem : (schema.fields[i], ev.fields[i]) ∈ schema.fields.zip ev.fields := by
    refine List.mem_iff_getElem.mpr ⟨i, by simp [hi, hi'], by simp⟩
  have hname : Js.fieldName schema i = schema.fields[i].name := by simp [Js.fieldName, hi]
  rw [hname, value_eq hi']
  exact get?_foldl_of_mem (hzip ▸ hnames.1) hmem

variable {v : FieldValue}

theorem jsValue_eq_none : Js.jsValue ev v = .none ↔ v = .none := by
  cases v <;> simp [Js.jsValue]

theorem present_none (hnames : NamesApart schema) (hi : i < schema.fields.length)
    (h : ev.value i = .none) : Js.present (Js.values ev) (Js.fieldName schema i) = none := by
  rw [Js.present, get?_values hnames hi, h]
  rfl

theorem present_some (hnames : NamesApart schema) (hi : i < schema.fields.length)
    (h : ev.value i ≠ .none) : Js.present (Js.values ev) (Js.fieldName schema i) =
      some (Js.jsValue ev (ev.value i)) := by
  rw [Js.present, get?_values hnames hi]
  split
  · next hnone => cases hnone
  · next hnone => exact absurd (jsValue_eq_none.mp (Option.some.inj hnone)) h
  · next v hv => exact hv.symm

/-! ## Integers -/

theorem typed_at (ev : RawEvent schema) (hi : i < schema.fields.length) :
    Decodes (fieldTypeAt schema i) (ev.value i) := by
  have hi' : i < ev.fields.length := length_fields ev ▸ hi
  have htype : fieldTypeAt schema i = schema.fields[i].fieldType := by simp [fieldTypeAt, hi]
  rw [htype, value_eq hi']
  exact ev.typed.get hi hi'

theorem decodedShape_inner {fieldType : FieldType}
    (hinteger : Rust.isIntegerField fieldType = true) :
    decodedShape fieldType.inner = .varint ∨ decodedShape fieldType.inner = .i64 := by
  unfold Rust.isIntegerField at hinteger
  cases hinner : fieldType.inner <;> simp [hinner, decodedShape] at hinteger ⊢

theorem Decodes.shape {fieldType : FieldType} (h : Decodes fieldType v) :
    v = .none ∨ v.shape = some (decodedShape fieldType.inner) := by
  cases fieldType with
  | plain base => exact .inr h
  | optional base => exact h

theorem integer_value (ev : RawEvent schema) (hi : i < schema.fields.length)
    (hinteger : Rust.isIntegerField (fieldTypeAt schema i) = true) :
    ev.value i = .none ∨ (∃ n, ev.value i = .varint n) ∨ ∃ n, ev.value i = .i64 n := by
  obtain hnone | hshape := (typed_at ev hi).shape
  · exact .inl hnone
  · obtain hvarint | hi64 := decodedShape_inner hinteger
    · rw [hvarint] at hshape
      cases hvalue : ev.value i <;> simp [hvalue, FieldValue.shape] at hshape
      exact .inr (.inl ⟨_, rfl⟩)
    · rw [hi64] at hshape
      cases hvalue : ev.value i <;> simp [hvalue, FieldValue.shape] at hshape
      exact .inr (.inr ⟨_, rfl⟩)

/-- What is read of an integer field is absent for both, refused by both, or the same small
number. -/
theorem number_cases (host : Js.Host) (hnames : NamesApart schema) (hev : Ordinary ev)
    (hi : i < schema.fields.length) (hinteger : Rust.isIntegerField (fieldTypeAt schema i) = true) :
    (Rust.unsignedValue (ev.value i) = .ok none ∧
      Js.present (Js.values ev) (Js.fieldName schema i) = none) ∨
    (∃ e raw, Rust.unsignedValue (ev.value i) = .error e ∧
      Js.present (Js.values ev) (Js.fieldName schema i) = some raw ∧
      ∀ n : Nat, Js.number host raw ≠ some (.ofNat n)) ∨
    ∃ n raw, n < 2 ^ 53 ∧ Rust.unsignedValue (ev.value i) = .ok (some n) ∧
      Js.present (Js.values ev) (Js.fieldName schema i) = some raw ∧
      Js.number host raw = some (.ofNat n) := by
  have hsmall := hev.integers _ (value_mem ev hi)
  obtain hvalue | ⟨n, hvalue⟩ | ⟨n, hvalue⟩ := integer_value ev hi hinteger
  · exact .inl ⟨by rw [hvalue]; rfl, present_none hnames hi hvalue⟩
  · rw [hvalue] at hsmall
    refine .inr (.inr ⟨n.toNat, .varint n, hsmall, by rw [hvalue]; rfl, ?_, ?_⟩)
    · rw [present_some hnames hi (by simp [hvalue]), hvalue]
      rfl
    · exact congrArg (fun n : Nat => some (Int.ofNat n)) (num_of_lt hsmall)
  · have hpresent : Js.present (Js.values ev) (Js.fieldName schema i) =
        some (Js.jsValue ev (ev.value i)) := present_some hnames hi (by simp [hvalue])
    rw [hvalue] at hsmall hpresent
    by_cases hsign : 0 ≤ n.toInt
    · have hlt : n.toInt.toNat < 2 ^ 53 := (Int.toNat_lt hsign).mpr hsmall
      refine .inr (.inr ⟨n.toInt.toNat, .i64 n, hlt, ?_, hpresent, ?_⟩)
      · rw [hvalue, Rust.unsignedValue, if_pos hsign]
      · rw [Js.number, if_pos hsign, num_of_lt hlt]
        rfl
    · refine .inr (.inl ⟨"integer structural field is negative", .i64 n, ?_, hpresent,
        fun m hm => ?_⟩)
      · rw [hvalue, Rust.unsignedValue, if_neg hsign]
      · rw [Js.number, if_neg hsign] at hm
        have hneg : -((num (-n.toInt).toNat : Nat) : Int) = (m : Int) := Option.some.inj hm
        obtain ⟨-, heq⟩ | ⟨-, hge⟩ := num_cases (-n.toInt).toNat
        · rw [heq] at hneg
          omega
        · omega

/-- A field that there is, of an integer type. -/
def IsInteger (schema : SchemaEntry) (i : Nat) : Prop :=
  i < schema.fields.length ∧ Rust.isIntegerField (fieldTypeAt schema i) = true

theorem isInteger_of_timing {role : StructuralRole} {t : Rust.TimingField}
    (h : Rust.timing schema (Rust.rolesOf schema) role = .ok (some t)) :
    IsInteger schema t.index := by
  unfold Rust.timing at h
  split at h
  · simp at h
  · next index hindex =>
      have hlt := lt_of_index hindex
      unfold Rust.timingField at h
      cases hinteger : Rust.isIntegerField (fieldTypeAt schema index) with
      | false => simp [hinteger, Except.map] at h
      | true =>
        simp only [hinteger, Bool.not_true, Bool.false_eq_true, if_false] at h
        split at h
        · simp [Except.map] at h
        · split at h
          · obtain rfl : _ = t := by simpa [Except.map] using h
            exact ⟨hlt, hinteger⟩
          · simp [Except.map] at h

theorem isInteger_of_checked {role : StructuralRole}
    (h : mistyped schema (Rust.rolesOf schema) Rust.isIntegerField role = false)
    (hindex : (Rust.rolesOf schema).index role = some i) : IsInteger schema i := by
  refine ⟨lt_of_index hindex, ?_⟩
  simpa [mistyped, hindex] using h

/-! ## Times -/

/-- A timing field whose value cannot be counted in nanoseconds. -/
def Overflows (ev : RawEvent schema) (field : Option Rust.TimingField) : Prop :=
  ∃ t raw, field = some t ∧ Rust.unsignedValue (ev.value t.index) = .ok (some raw) ∧
    2 ^ 64 ≤ raw * t.multiplier

/-- The two readings of a timing field. Only a value that overflows is refused by one and read by
the other. -/
inductive SameRead (overflows : Prop) : Except String (Option Nat) → Js.Timing → Prop
  | absent : SameRead overflows (.ok none) .absent
  | refused (e : String) : SameRead overflows (.error e) .nan
  | value (n : Nat) : SameRead overflows (.ok (some n)) (.value (num n))
  | overflow (h : overflows) (e : String) {n : Nat} (hn : 2 ^ 64 ≤ n) :
      SameRead overflows (.error e) (.value (num n))

theorem sameRead (host : Js.Host) (hnames : NamesApart schema) (hev : Ordinary ev)
    {field : Option Rust.TimingField} (hfield : ∀ t, field = some t → IsInteger schema t.index) :
    SameRead (Overflows ev field) (Rust.readOpt ev field)
      (Js.read host (Js.values ev) (field.map (named schema))) := by
  cases field with
  | none => exact .absent
  | some t =>
    obtain ⟨hlt, hinteger⟩ := hfield t rfl
    simp only [Rust.readOpt, Rust.read, Option.map_some, Js.read, named]
    obtain ⟨hrust, hjs⟩ | ⟨e, raw, hrust, hjs, hnumber⟩ | ⟨n, raw, -, hrust, hjs, hnumber⟩ :=
      number_cases host hnames hev hlt hinteger
    · rw [hrust, hjs]
      exact .absent
    · rw [hrust, hjs]
      simp only
      exact .refused e
    · rw [hrust, hjs]
      simp only [hnumber]
      split
      · exact .value _
      · next hoverflow =>
          have hle := Nat.le_of_not_lt hoverflow
          exact .overflow ⟨t, n, rfl, hrust, hle⟩ _ hle

/-- The two layouts of a schema. -/
structure SameTiming (schema : SchemaEntry) (a : Rust.SingleEventSpanLayout) (b : Js.Layout) :
    Prop where
  start : b.start = a.start.map (named schema)
  duration : b.duration = a.duration.map (named schema)
  packedEnd : b.packedEnd = true
  startInteger : ∀ t, a.start = some t → IsInteger schema t.index
  durationInteger : ∀ t, a.duration = some t → IsInteger schema t.index

/-- Both place a span at the same times, or both do not place it. -/
theorem resolve_eq (host : Js.Host) {a : Rust.SingleEventSpanLayout} {b : Js.Layout}
    (hnames : NamesApart schema) (hev : Ordinary ev) (hlayout : SameTiming schema a b)
    (hfits : ¬ Overflows ev a.duration) :
    Js.resolveSpanTiming host (Js.values ev) b (num ev.timestampNs.toNat) =
      (Rust.resolve ev a).toOption := by
  have hstart := sameRead host hnames hev hlayout.startInteger
  have hduration := sameRead host hnames hev hlayout.durationInteger
  have hfin := hev.timestamp
  simp only [Js.resolveSpanTiming, Rust.resolve, hlayout.start, hlayout.duration, hlayout.packedEnd,
    if_true, num_of_lt hfin]
  generalize Rust.readOpt ev a.start = rs at hstart ⊢
  generalize Rust.readOpt ev a.duration = rd at hduration ⊢
  generalize Js.read host (Js.values ev) (a.start.map (named schema)) = ts at hstart ⊢
  generalize Js.read host (Js.values ev) (a.duration.map (named schema)) = td at hduration ⊢
  generalize ev.timestampNs.toNat = fin at hfin ⊢
  -- A start that was rounded is past the end, on either side.
  have hlate : ∀ n, fin < num n ↔ fin < n := by
    intro n
    obtain ⟨-, heq⟩ | ⟨hn, hnum⟩ := num_cases n
    · rw [heq]
    · exact iff_of_true (hfin.trans_le hnum) (hfin.trans_le hn)
  have hback : ∀ n, num (fin - num n) = fin - n := by
    intro n
    have hlt : fin - num n < 2 ^ 53 := (Nat.sub_le _ _).trans_lt hfin
    rw [num_of_lt hlt]
    obtain ⟨-, heq⟩ | ⟨hn, hnum⟩ := num_cases n
    · rw [heq]
    · omega
  cases hduration with
  | overflow h => exact absurd h hfits
  | refused e => cases hstart <;> simp [Except.toOption]
  | absent =>
    cases hstart with
    | absent | refused _ => rfl
    | overflow h e hn =>
      simp only [Except.toOption, reduceCtorEq, or_self, if_false, hlate, ite_eq_left_iff]
      omega
    | value n =>
      by_cases hn : fin < n
      · simp [Except.toOption, hlate, hn]
      · have hsmall : num n = n := num_of_lt (by omega)
        simp [Except.toOption, hsmall, hn]
  | value d =>
    cases hstart with
    | absent => simp [Except.toOption, hback]
    | refused e => rfl
    | overflow h e hn =>
      simp only [Except.toOption, reduceCtorEq, or_self, if_false, hlate, ite_eq_left_iff]
      omega
    | value n =>
      by_cases hn : fin < n
      · simp [Except.toOption, hlate, hn]
      · have hsmall : num n = n := num_of_lt (by omega)
        simp [Except.toOption, hsmall, hn]

/-! ## Execution context -/

theorem context_eq (host : Js.Host) (hnames : NamesApart schema) (hev : Ordinary ev)
    {index : Option Nat} (hindex : ∀ i, index = some i → IsInteger schema i) (positiveOnly : Bool) :
    Js.context host (Js.values ev) positiveOnly (index.map (Js.fieldName schema)) =
      (Rust.contextValue ev index).toOption.map
        (·.filter fun n => !positiveOnly || decide (0 < n)) := by
  cases index with
  | none => rfl
  | some i =>
    obtain ⟨hlt, hinteger⟩ := hindex i rfl
    simp only [Option.map_some, Js.context, Rust.contextValue]
    obtain ⟨hrust, hjs⟩ | ⟨e, raw, hrust, hjs, hnumber⟩ | ⟨n, raw, -, hrust, hjs, hnumber⟩ :=
      number_cases host hnames hev hlt hinteger
    · rw [hrust, hjs]
      rfl
    · rw [hrust, hjs]
      simp only [Except.toOption, Option.map_none]
    · rw [hrust, hjs]
      simp only [hnumber, Except.toOption, Option.map_some]
      cases positiveOnly with
      | false => rfl
      | true =>
        obtain rfl | hpos := Nat.eq_zero_or_pos n
        · rfl
        · simp [Option.filter, hpos, Nat.ne_of_gt hpos]

/-! ## Attributes -/

/-- The values that Rust keeps as attributes: those that render in one cell. -/
def isScalar : FieldValue → Bool
  | .string _ | .i64 _ | .varint _ | .f64 _ | .bool _ => true
  | _ => false

theorem isSome_attributeValue (hev : Ordinary ev) (hv : v ∈ ev.fields) :
    (Rust.attributeValue ev v).isSome = isScalar (Js.jsValue ev v) := by
  cases v with
  | pooledString id =>
    obtain ⟨s, hs⟩ := Option.isSome_iff_exists.mp (hev.strings id hv)
    simp [Rust.attributeValue, Js.jsValue, isScalar, hs]
  | _ => rfl

theorem mem_attributes {indices : List Nat} :
    name ∈ (Rust.attributes ev indices).map Prod.fst ↔ ∃ i < schema.fields.length, i ∈ indices ∧
      Js.fieldName schema i = name ∧ (Rust.attributeValue ev (ev.value i)).isSome := by
  have hentry : ∀ i (hi : i < schema.fields.length),
      ((schema.fields[i], ev.value i), i) ∈ (schema.fields.zip ev.fields).zipIdx := by
    intro i hi
    have hi' : i < ev.fields.length := length_fields ev ▸ hi
    rw [List.mem_zipIdx_iff_getElem?, value_eq hi']
    simp [hi, hi']
  simp only [Rust.attributes, List.mem_map, List.mem_filterMap]
  constructor
  · rintro ⟨kept, ⟨⟨⟨field, v⟩, i⟩, hmem, hsome⟩, rfl⟩
    obtain ⟨hfield, hv⟩ := List.getElem?_zip_eq_some.mp (List.mem_zipIdx_iff_getElem?.mp hmem)
    have hi : i < schema.fields.length := (List.getElem?_eq_some_iff.mp hfield).1
    have hvalue : ev.value i = v := by simp [RawEvent.value, List.getD, hv]
    simp only at hsome
    split at hsome
    · next hindex =>
        obtain ⟨rendered, hrendered, rfl⟩ := Option.map_eq_some_iff.mp hsome
        refine ⟨i, hi, hindex, by simp [Js.fieldName, hfield], ?_⟩
        rw [hvalue, hrendered]
        rfl
    · cases hsome
  · rintro ⟨i, hi, hindex, hname, hsome⟩
    obtain ⟨rendered, hrendered⟩ := Option.isSome_iff_exists.mp hsome
    refine ⟨(schema.fields[i].name, rendered), ⟨_, hentry i hi, ?_⟩, ?_⟩
    · simp [hindex, hrendered]
    · rw [← hname]
      simp [Js.fieldName, hi]

theorem get?_copyPresent {fields : List Text} :
    (Js.copyPresent values fields).get? name = some v ↔
      name ∈ fields ∧ Js.present values name = some v := by
  have hfold : ∀ (fields : List Text) (copied : Js.Values),
      (fields.foldl (Js.copyField values) copied).get? name =
      if name ∈ fields ∧ (Js.present values name).isSome then Js.present values name
      else copied.get? name := by
    intro fields
    induction fields with
    | nil => simp
    | cons field fields ih =>
      intro copied
      rw [List.foldl_cons, ih, Js.copyField]
      by_cases hname : name = field
      · subst hname
        cases hpresent : Js.present values name <;> simp
      · cases hpresent : Js.present values field with
        | none => simp [hname]
        | some w => simp [hname, InsertionMap.get?_update_of_ne (Ne.symm hname)]
  have hcopied : (Js.copyPresent values fields).get? name =
      if name ∈ fields ∧ (Js.present values name).isSome then Js.present values name else none :=
    hfold fields []
  rw [hcopied]
  cases hpresent : Js.present values name <;> simp

/-- The attributes of a span are the scalar ones among its fields in the other. -/
theorem mem_attributes_iff_scalar (hnames : NamesApart schema) (hev : Ordinary ev) {s : Roles}
    (start duration : Option Rust.TimingField) (spanType : Text)
    (start' duration' : Option Js.TimingField) (spanType' : Text) :
    name ∈ (Rust.attributes ev
      (Rust.layoutOf schema s start duration spanType).attributeIndices).map Prod.fst ↔
    ∃ v, (Js.copyPresent (Js.values ev)
      (Js.layoutOf schema true s start' duration' spanType').attributeFields).get? name = some v ∧
      isScalar v = true := by
  have hfield : name ∈ (Js.layoutOf schema true s start' duration' spanType').attributeFields ↔
      ∃ i < schema.fields.length,
        i ∈ (Rust.layoutOf schema s start duration spanType).attributeIndices ∧
        Js.fieldName schema i = name := by
    simp only [Js.layoutOf, Rust.layoutOf, List.mem_map, List.mem_filter, List.mem_range]
    constructor
    · rintro ⟨⟨field, i⟩, ⟨hmem, hrole⟩, rfl⟩
      have hfield := List.mem_zipIdx_iff_getElem?.mp hmem
      have hi : i < schema.fields.length := (List.getElem?_eq_some_iff.mp hfield).1
      exact ⟨i, hi, ⟨hi, hrole⟩, by simp only at hfield; simp [Js.fieldName, hfield]⟩
    · rintro ⟨i, hi, ⟨-, hrole⟩, rfl⟩
      refine ⟨(schema.fields[i], i), ⟨?_, hrole⟩, by simp [Js.fieldName, hi]⟩
      simp [List.mem_zipIdx_iff_getElem?, hi]
  rw [mem_attributes]
  simp only [get?_copyPresent, hfield]
  constructor
  · rintro ⟨i, hi, hindex, hname, hsome⟩
    rw [isSome_attributeValue hev (value_mem ev hi)] at hsome
    have hvalue : ev.value i ≠ .none := fun hnone => by simp [hnone, Js.jsValue, isScalar] at hsome
    exact ⟨_, ⟨⟨i, hi, hindex, hname⟩, hname ▸ present_some hnames hi hvalue⟩, hsome⟩
  · rintro ⟨v, ⟨⟨i, hi, hindex, rfl⟩, hpresent⟩, hscalar⟩
    refine ⟨i, hi, hindex, rfl, ?_⟩
    rw [isSome_attributeValue hev (value_mem ev hi)]
    by_cases hvalue : ev.value i = .none
    · simp [present_none hnames hi hvalue] at hpresent
    · rw [present_some hnames hi hvalue] at hpresent
      rw [Option.some.inj hpresent]
      exact hscalar

end Dial9.Viewer.SingleEvent
