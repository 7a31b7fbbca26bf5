/-
# Single-event spans in Rust and in JavaScript

The two compilers classify every schema alike. Their layouts name the same fields, so the
two decoders read the same values as long as names tell fields apart, and integers that a
double holds exactly lead to the same times.
-/

import Dial9.Viewer.SingleEventSpans

namespace Dial9.Viewer.SingleEvent

open Lib (InsertionMap Str Text)
open TraceFormat (BaseType FieldType FieldDef FieldAnnotation FieldValue SchemaEntry)
open TraceParser (num num_of_lt)

variable {schema : SchemaEntry}

/-! ## Roles -/

/-- The state of the two loops. The indices may differ after an error only. -/
structure SameRoles (a b : Roles) : Prop where
  byField : a.byField = b.byField
  sawTiming : a.sawTiming = b.sawTiming
  error : a.error.isSome = b.error.isSome
  index : a.error = none → a.index = b.index

variable {a b : Roles}

theorem SameRoles.of_error (hfield : a.byField = b.byField) (hsaw : a.sawTiming = b.sawTiming)
    (ha : a.error.isSome = true) (hb : b.error.isSome = true) :
    SameRoles a b :=
  ⟨hfield, hsaw, ha.trans hb.symm, fun hnone => by simp [hnone] at ha⟩

@[simp]
theorem Roles.isSome_error_fail (s : Roles) (e : SchemaError) : (s.fail e).error.isSome = true := by
  cases h : s.error <;> simp [fail, h]

theorem SameRoles.fail (h : SameRoles a b) (e e' : SchemaError) :
    SameRoles (a.fail e) (b.fail e') where
  byField := h.byField
  sawTiming := h.sawTiming
  error := by rw [Roles.isSome_error_fail, Roles.isSome_error_fail]
  index := fun hnone => by simp [Roles.fail] at hnone

theorem SameRoles.assign (h : SameRoles a b) (index : Nat) (role : StructuralRole) :
    let a' := { a with
      byField := a.byField.set index (some role)
      index := Function.update a.index role (some index) }
    let b' := { b with byField := b.byField.set index (some role) }
    SameRoles (if (a.index role).isSome then a'.fail (.duplicateRole role) else a')
      (if (b'.index role).isSome then b'.fail (.duplicateRole role)
        else { b' with index := Function.update b'.index role (some index) }) := by
  intro a' b'
  have hfield : a'.byField = b'.byField := congrArg (·.set index (some role)) h.byField
  cases herror : a.error with
  | some e =>
    have ha : a'.error.isSome = true := by simp [a', herror]
    have hb : b'.error.isSome = true := by simp [b', ← h.error, herror]
    split <;> split
    · exact .of_error hfield h.sawTiming (by simp) (by simp)
    · exact .of_error hfield h.sawTiming (by simp) hb
    · exact .of_error hfield h.sawTiming ha (by simp)
    · exact .of_error hfield h.sawTiming ha hb
  | none =>
    have hindex : a.index = b.index := h.index herror
    have hsame : (b'.index role).isSome = (a.index role).isSome := by rw [hindex]
    rw [hsame]
    split
    · exact .of_error hfield h.sawTiming (by simp) (by simp)
    · exact ⟨hfield, h.sawTiming, h.error, fun _ => congrArg
        (Function.update · role (some index)) hindex⟩

theorem SameRoles.step (h : SameRoles a b) (fieldCount : Nat) (ann : FieldAnnotation) :
    SameRoles (Rust.roleStep fieldCount a ann) (Js.roleStep fieldCount b ann) := by
  unfold Rust.roleStep Js.roleStep
  split
  · exact h
  · split
    · exact h
    · next role hrole =>
        have hsaw : SameRoles { a with sawTiming := a.sawTiming || role.isTiming }
            { b with sawTiming := b.sawTiming || role.isTiming } :=
          ⟨h.byField, congrArg (· || role.isTiming) h.sawTiming, h.error, h.index⟩
        simp only
        split
        · exact hsaw.fail _ _
        · have hat : Roles.roleOf { a with sawTiming := a.sawTiming || role.isTiming }
              ann.fieldIndex.toNat =
              Roles.roleOf { b with sawTiming := b.sawTiming || role.isTiming }
              ann.fieldIndex.toNat := congrArg (·.getD ann.fieldIndex.toNat none) h.byField
          rw [← hat]
          cases hexisting : Roles.roleOf { a with sawTiming := a.sawTiming || role.isTiming }
              ann.fieldIndex.toNat with
          | some existing =>
            by_cases hsame : existing = role
            · simpa [hsame] using hsaw
            · simpa [hsame] using hsaw.fail _ _
          | none => simpa using hsaw.assign ann.fieldIndex.toNat role

theorem sameRoles (schema : SchemaEntry) : SameRoles (Rust.rolesOf schema) (Js.rolesOf schema) := by
  have hfold : ∀ (anns : List FieldAnnotation) (a b : Roles), SameRoles a b →
      SameRoles (anns.foldl (Rust.roleStep schema.fields.length) a)
        (anns.foldl (Js.roleStep schema.fields.length) b) := by
    intro anns
    induction anns with
    | nil => exact fun _ _ h => h
    | cons ann anns ih => exact fun a b h => ih _ _ (h.step _ ann)
  exact hfold _ _ _ ⟨rfl, rfl, rfl, fun _ => rfl⟩

theorem lt_of_index {role : StructuralRole} {i : Nat}
    (h : (Rust.rolesOf schema).index role = some i) : i < schema.fields.length := by
  have hfold : ∀ (anns : List FieldAnnotation) (s : Roles),
      (∀ role i, s.index role = some i → i < schema.fields.length) →
      ∀ role i, (anns.foldl (Rust.roleStep schema.fields.length) s).index role = some i →
        i < schema.fields.length := by
    intro anns
    induction anns with
    | nil => exact fun _ h => h
    | cons ann anns ih =>
      intro s hs
      refine ih _ fun role i hi => ?_
      unfold Rust.roleStep at hi
      split at hi
      · exact hs role i hi
      · split at hi
        · exact hs role i hi
        · next given _ =>
            simp only at hi
            split at hi
            · exact hs role i hi
            · next hlt =>
                split at hi
                · split at hi
                  · exact hs role i hi
                  · exact hs role i hi
                · have hupdate : Function.update s.index given (some ann.fieldIndex.toNat) role =
                      some i := by split at hi <;> exact hi
                  by_cases hrole : role = given
                  · subst hrole
                    obtain rfl : ann.fieldIndex.toNat = i := by simpa using hupdate
                    exact Nat.lt_of_not_le hlt
                  · rw [Function.update_of_ne hrole] at hupdate
                    exact hs role i hupdate
  exact hfold _ _ (fun _ _ h => by simp [Roles.new] at h) role i h

/-! ## Schemas -/

/-- Two results that are alike up to their errors. -/
def SameResult {α β : Type} (f : α → β) : Except SchemaError α → Except SchemaError β → Prop
  | .ok a, .ok b => b = f a
  | .error _, .error _ => True
  | _, _ => False

theorem SameResult.cases {α β : Type} {f : α → β} {x : Except SchemaError α}
    {y : Except SchemaError β} (h : SameResult f x y) :
    (∃ e e', x = .error e ∧ y = .error e') ∨ ∃ a, x = .ok a ∧ y = .ok (f a) := by
  cases x with
  | error e =>
    cases y with
    | error e' => exact .inl ⟨e, e', rfl, rfl⟩
    | ok b => exact h.elim
  | ok a =>
    cases y with
    | error e' => exact h.elim
    | ok b => exact .inr ⟨a, rfl, congrArg Except.ok h⟩

theorem sameResult_unique (schema : SchemaEntry) (index : Nat) (key : Text) :
    SameResult id (Rust.uniqueAnnotation schema index key)
      (Js.annotationValue schema index key) := by
  unfold Rust.uniqueAnnotation Js.annotationValue
  generalize (none : Option Text) = value
  induction schema.annotations generalizing value with
  | nil => exact rfl
  | cons ann anns ih =>
    by_cases hkey : ann.fieldIndex.toNat = index ∧ ann.key = key
    · rw [List.filter_cons_of_pos (by simpa using hkey), List.foldlM_cons, List.foldlM_cons]
      have hjs : ¬ (ann.fieldIndex.toNat ≠ index ∨ ann.key ≠ key) := by
        simpa [not_or] using hkey
      rw [if_neg hjs]
      cases value with
      | none =>
        rw [if_neg (by simp)]
        exact ih (some ann.value)
      | some existing =>
        by_cases hsame : existing = ann.value
        · subst hsame
          rw [if_neg (by simp)]
          simp only [ne_eq, not_true_eq_false, if_false]
          exact ih (some ann.value)
        · simp [hsame, bind, Except.bind, SameResult]
    · have hjs : ann.fieldIndex.toNat ≠ index ∨ ann.key ≠ key := not_and_or.mp hkey
      rw [List.filter_cons_of_neg (by simpa using hkey), List.foldlM_cons, if_pos hjs]
      exact ih value

theorem isIntegerField_eq (fieldType : FieldType) :
    Js.isIntegerField fieldType = Rust.isIntegerField fieldType := by
  cases fieldType with
  | plain base | optional base => cases base <;> rfl

theorem isStringField_eq (fieldType : FieldType) :
    Js.isStringField fieldType = Rust.isStringField fieldType := by
  cases fieldType with
  | plain base | optional base => cases base <;> rfl

theorem lookup_cons_eq {α β : Type} [DecidableEq α] (a k : α) (b : β) (rest : List (α × β)) :
    ((k, b) :: rest).lookup a = if a = k then some b else rest.lookup a := by
  by_cases h : a = k
  · simp [h]
  · rw [if_neg h, List.lookup_cons, beq_false_of_ne h]

theorem lookup_multipliers (unit : Text) :
    Js.multipliers.lookup unit = Rust.multiplierOf (some unit) := by
  simp only [Js.multipliers, Rust.multiplierOf, lookup_cons_eq, List.lookup_nil]

/-- A timing field of the one layout in the other. -/
def named (schema : SchemaEntry) (t : Rust.TimingField) : Js.TimingField :=
  ⟨Js.fieldName schema t.index, t.multiplier, t.index⟩

theorem sameResult_timing (schema : SchemaEntry) (hindex : a.index = b.index)
    (role : StructuralRole) :
    SameResult (Option.map (named schema)) (Rust.timing schema a role)
      (Js.timingField schema b role) := by
  unfold Rust.timing Js.timingField
  rw [← hindex]
  cases a.index role with
  | none => exact rfl
  | some index =>
    simp only [Rust.timingField, isIntegerField_eq]
    cases Rust.isIntegerField (fieldTypeAt schema index) with
    | false => exact trivial
    | true =>
      obtain ⟨e, e', hrust, hjs⟩ | ⟨unit, hrust, hjs⟩ :=
        (sameResult_unique schema index unitKey).cases
      · rw [hrust, hjs]
        exact trivial
      · rw [hrust, hjs]
        cases unit with
        | none => exact rfl
        | some unit =>
          simp only [id_eq, lookup_multipliers]
          cases Rust.multiplierOf (some unit) with
          | none => exact trivial
          | some multiplier => exact rfl

theorem mistyped_string_eq (hindex : a.index = b.index) (role : StructuralRole) :
    mistyped schema b Js.isStringField role = mistyped schema a Rust.isStringField role := by
  simp only [mistyped, hindex, isStringField_eq]

theorem mistyped_integer_eq (hindex : a.index = b.index) :
    mistyped schema b Js.isIntegerField = mistyped schema a Rust.isIntegerField := by
  funext role
  simp only [mistyped, hindex, isIntegerField_eq]

theorem layoutOf_congr (hfield : a.byField = b.byField) (hindex : a.index = b.index)
    (hasTimestamp : Bool) (start duration : Option Js.TimingField) (spanType : Text) :
    Js.layoutOf schema hasTimestamp a start duration spanType =
      Js.layoutOf schema hasTimestamp b start duration spanType := by
  cases a
  cases b
  obtain rfl := hfield
  obtain rfl := hindex
  rfl

/-- What a layout was checked for. -/
structure Checked (schema : SchemaEntry) (start duration : Option Rust.TimingField) : Prop where
  startOk : Rust.timing schema (Rust.rolesOf schema) .spanStart = .ok start
  durationOk : Rust.timing schema (Rust.rolesOf schema) .spanDuration = .ok duration
  name : mistyped schema (Rust.rolesOf schema) Rust.isStringField .spanName = false
  context : ∀ role ∈ contextRoles,
    mistyped schema (Rust.rolesOf schema) Rust.isIntegerField role = false

/-- A schema is no span for both, invalid for both, or the layouts say the same. -/
theorem compile_cases (schema : SchemaEntry) :
    (Rust.compileSingleEventSpan schema = .notSpan ∧
      Js.compileSingleEventSpanSchema schema true = .notSpan) ∨
    (∃ e e', Rust.compileSingleEventSpan schema = .invalid e ∧
      Js.compileSingleEventSpanSchema schema true = .invalid e') ∨
    ∃ start duration spanType, Checked schema start duration ∧
      Rust.compileSingleEventSpan schema =
        .layout (Rust.layoutOf schema (Rust.rolesOf schema) start duration spanType) ∧
      Js.compileSingleEventSpanSchema schema true =
        .layout (Js.layoutOf schema true (Rust.rolesOf schema) (start.map (named schema))
          (duration.map (named schema)) spanType) := by
  have hroles := sameRoles schema
  simp only [Rust.compileSingleEventSpan, Js.compileSingleEventSpanSchema]
  rw [← hroles.sawTiming]
  cases (Rust.rolesOf schema).sawTiming with
  | false => exact .inl ⟨rfl, rfl⟩
  | true =>
    refine .inr ?_
    cases herror : (Rust.rolesOf schema).error with
    | some e =>
      have hsome := hroles.error
      rw [herror] at hsome
      obtain ⟨e', he'⟩ := Option.isSome_iff_exists.mp hsome.symm
      exact .inl ⟨e, e', by simp, by simp [he']⟩
    | none =>
      have hnone : (Js.rolesOf schema).error = none := by
        simpa [herror] using hroles.error.symm
      have hindex := hroles.index herror
      rw [hnone]
      simp only [Bool.not_true, Bool.false_eq_true, if_false]
      obtain ⟨e, e', hstart, hstart'⟩ | ⟨start, hstart, hstart'⟩ :=
        (sameResult_timing schema hindex .spanStart).cases
      · rw [hstart, hstart']
        exact .inl ⟨e, e', rfl, rfl⟩
      obtain ⟨e, e', hduration, hduration'⟩ | ⟨duration, hduration, hduration'⟩ :=
        (sameResult_timing schema hindex .spanDuration).cases
      · rw [hstart, hstart', hduration, hduration']
        exact .inl ⟨e, e', rfl, rfl⟩
      rw [hstart, hstart', hduration, hduration', mistyped_string_eq hindex,
        mistyped_integer_eq hindex]
      simp only [Option.isSome_map, ← Option.map_or]
      cases hfirst : start.or duration with
      | none =>
        obtain ⟨rfl, rfl⟩ := Option.or_eq_none_iff.mp hfirst
        exact .inl ⟨_, _, rfl, rfl⟩
      | some first =>
        have hquantities : ¬ start.isSome.toNat + duration.isSome.toNat + true.toNat < 2 := by
          cases start with
          | some t => simp
          | none =>
            rw [Option.none_or] at hfirst
            simp [hfirst]
        rw [if_neg hquantities]
        cases hname : mistyped schema (Rust.rolesOf schema) Rust.isStringField .spanName with
        | true => exact .inl ⟨_, _, rfl, rfl⟩
        | false =>
          simp only [Bool.false_eq_true, if_false]
          cases hcontext : contextRoles.find? (mistyped schema (Rust.rolesOf schema)
              Rust.isIntegerField) with
          | some role =>
            have hany := List.any_eq_true.mpr
              ⟨role, List.mem_of_find?_eq_some hcontext, List.find?_some hcontext⟩
            rw [if_pos hany]
            exact .inl ⟨_, _, rfl, rfl⟩
          | none =>
            have hcontext := List.find?_eq_none.mp hcontext
            rw [if_neg (by simpa using hcontext)]
            simp only [Option.map_some]
            obtain ⟨e, e', htype, htype'⟩ | ⟨spanType, htype, htype'⟩ :=
              (sameResult_unique schema first.index spanTypeKey).cases
            · rw [htype]
              exact .inl ⟨e, e', rfl, by rw [named, htype']⟩
            · rw [htype]
              refine .inr ⟨start, duration, spanTypeOf spanType, ?_, rfl, ?_⟩
              · exact ⟨hstart, hduration, hname, fun role hrole =>
                  Bool.eq_false_iff.mpr (hcontext role hrole)⟩
              · rw [named, htype', layoutOf_congr hroles.byField hindex]
                rfl

end Dial9.Viewer.SingleEvent
