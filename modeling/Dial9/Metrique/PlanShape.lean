/-
# What a plan is like

The descriptor walk keeps the payload actions in step with the payload fields of the
schema, whatever it skips and rejects on its way. Field names stay distinct, a role is
routed once, one field at most names the span, and no annotation points past the fields.
-/

import Dial9.Metrique.Plan

namespace Dial9.Metrique

open Lib (Bytes Str Text)
open TraceFormat (BaseType FieldType FieldDef FieldAnnotation SchemaEntry)

/-- What a payload action says of its slot. -/
def FieldAction.payload? : FieldAction → Option (Bool × ValueKind)
  | payload optional kind => some (optional, kind)
  | _ => none

/-- The payload slots of a list of actions, in order. -/
def payloads (actions : List FieldAction) : List (Bool × ValueKind) :=
  actions.filterMap FieldAction.payload?

@[simp]
theorem payloads_append (actions actions' : List FieldAction) :
    payloads (actions ++ actions') = payloads actions ++ payloads actions' :=
  List.filterMap_append

@[simp]
theorem payloads_skip : payloads [.skip] = [] := rfl

@[simp]
theorem payloads_context (role : ContextRole) : payloads [.context role] = [] := rfl

@[simp]
theorem payloads_payload (optional : Bool) (kind : ValueKind) :
    payloads [.payload optional kind] = [(optional, kind)] := rfl

/-- The annotation that makes a field name its span. -/
def isSpanName (ann : FieldAnnotation) : Bool :=
  ann.key = Str.toText roleKey.toList && ann.value = Str.toText "span.name".toList

/-! ## One field -/

theorem contextAction_cases (field : FieldView) (rolesSeen : ContextRole → Bool) :
    (contextAction field rolesSeen = (.skip, rolesSeen) ∧
      ∀ role, ContextRole.ofBaseName field.baseName = some role → rolesSeen role = true) ∨
    ∃ role, ContextRole.ofBaseName field.baseName = some role ∧ rolesSeen role = false ∧
      contextAction field rolesSeen = (.context role, Function.update rolesSeen role true) := by
  unfold contextAction
  cases hrole : ContextRole.ofBaseName field.baseName with
  | none => exact Or.inl ⟨rfl, fun _ h => by simp at h⟩
  | some role =>
    cases hseen : rolesSeen role with
    | true =>
        exact Or.inl ⟨by simp [hseen], fun _ h => by obtain rfl := Option.some.inj h; exact hseen⟩
    | false => exact Or.inr ⟨role, rfl, hseen, by simp [hseen]⟩

/-- Whether a field belongs to a `Dial9Context`. -/
def FieldView.carriesContext (field : FieldView) : Bool :=
  field.flags.context && (ContextRole.ofBaseName field.baseName).isSome

theorem PlanState.planField_cases (s : PlanState) (field : FieldView) :
    (∃ claimed, (s.spanNameClaimed = true → claimed = true) ∧
      (∀ role, field.flags.context = true → ContextRole.ofBaseName field.baseName = some role →
        s.rolesSeen role = true) ∧
      s.planField field = { s.push .skip with spanNameClaimed := claimed }) ∨
    (∃ role, s.rolesSeen role = false ∧ field.carriesContext = true ∧
      s.planField field =
        { s.push (.context role) with
          rolesSeen := Function.update s.rolesSeen role true
          hasContext := true }) ∨
    ∃ claimed spanName fieldType kind, field.flags.context = false ∧
      (s.spanNameClaimed = true → claimed = true ∧ spanName = false) ∧
      (spanName = true → claimed = true) ∧
      (∀ f ∈ s.fields, f.name ≠ field.fullName.toText) ∧
      resolveShape field.shape field.flags.interned = .ok (fieldType, kind) ∧
      s.planField field =
        PlanState.record { s with spanNameClaimed := claimed } field spanName fieldType kind := by
  unfold planField
  split
  · next hcontext =>
      obtain ⟨hskip, hseen⟩ | ⟨role, hrole, hseen, haction⟩ := contextAction_cases field s.rolesSeen
      · exact Or.inl ⟨s.spanNameClaimed, id, fun role _ => hseen role, by rw [hskip]; rfl⟩
      · refine Or.inr (Or.inl ⟨role, hseen, ?_, by rw [haction]; rfl⟩)
        simp [FieldView.carriesContext, hcontext, hrole]
  · next hcontext =>
      have hclaimed : s.spanNameClaimed = true →
          (s.spanNameClaimed || field.flags.spanName) = true := fun h => by simp [h]
      have hrole : ∀ role, field.flags.context = true →
          ContextRole.ofBaseName field.baseName = some role → s.rolesSeen role = true :=
        fun _ h => absurd h hcontext
      simp only
      split
      · exact Or.inl ⟨_, hclaimed, hrole, rfl⟩
      · split
        · exact Or.inl ⟨_, hclaimed, hrole, rfl⟩
        · next hfresh =>
            split
            · next fieldType kind hresolve =>
                refine Or.inr (Or.inr ⟨_, _, fieldType, kind, by simpa using hcontext,
                  fun h => ⟨hclaimed h, ?_⟩, fun h => ?_, ?_, hresolve, rfl⟩)
                · simp [h]
                · simp only [Bool.and_eq_true] at h
                  simp [h.1]
                · simpa using hfresh
            · exact Or.inl ⟨_, hclaimed, hrole, rfl⟩

/-! ## The invariant of the walk -/

structure PlanState.Sound (s : PlanState) : Prop where
  headers : headerFieldDefs <+: s.fields
  /-- Payload fields in the order of their actions, each of the type its action captures. -/
  types : s.fields.map FieldDef.fieldType = Header.all.map Header.fieldType ++
    (payloads s.actions).map fun slot => slot.2.fieldType slot.1
  names : (s.fields.map FieldDef.name).Nodup
  roles : ∀ role, s.actions.count (.context role) = if s.rolesSeen role then 1 else 0
  timed : ∀ role, s.rolesSeen role = true → s.hasContext = true
  spanName : s.annotations.countP isSpanName ≤ if s.spanNameClaimed then 1 else 0
  indices : ∀ ann ∈ s.annotations, ann.fieldIndex.toNat < s.fields.length

variable {s : PlanState}

variable {claimed spanName : Bool}

namespace PlanState

theorem sound_new : new.Sound where
  headers := List.prefix_rfl
  types := rfl
  names := by decide
  roles := fun _ => rfl
  timed := fun _ h => by simp [new] at h
  spanName := by decide
  indices := by decide

theorem Sound.skip (hs : s.Sound) (hclaimed : s.spanNameClaimed = true → claimed = true) :
    Sound { s.push .skip with spanNameClaimed := claimed } where
  headers := hs.headers
  types := by simpa [push] using hs.types
  names := hs.names
  roles := fun role => by
    refine Eq.trans ?_ (hs.roles role)
    simp [push, List.count_append]
  timed := hs.timed
  spanName := by
    refine hs.spanName.trans ?_
    cases hs : s.spanNameClaimed with
    | true => simp [hclaimed hs]
    | false => exact Nat.zero_le _
  indices := hs.indices

theorem Sound.context (hs : s.Sound) {role : ContextRole} (hseen : s.rolesSeen role = false) :
    Sound { s.push (.context role) with
      rolesSeen := Function.update s.rolesSeen role true
      hasContext := true } where
  headers := hs.headers
  types := by simpa [push] using hs.types
  names := hs.names
  roles := fun role' => by
    have hcount := hs.roles role'
    by_cases h : role' = role
    · subst h
      simpa [push, List.count_append, hseen] using hcount
    · simpa [push, List.count_append, h, Ne.symm h] using hcount
  timed := fun _ _ => rfl
  spanName := hs.spanName
  indices := hs.indices

theorem mem_record_annotations {field : FieldView} {fieldType : FieldType}
    {kind : ValueKind} {ann : FieldAnnotation}
    (h : ann ∈ (s.record field spanName fieldType kind).annotations) :
    ann ∈ s.annotations ∨ ann.fieldIndex.toNat = s.fields.length := by
  obtain h | h := List.mem_append.mp h
  · exact Or.inl h
  · refine Or.inr ?_
    simp only [annotationIndex] at h
    split at h
    · next index hindex =>
        obtain ⟨hlt, rfl⟩ : _ ∧ _ := by simpa using hindex
        have htoNat : (UInt16.ofNat s.fields.length).toNat = s.fields.length :=
          UInt16.toNat_ofNat_of_lt' hlt
        obtain h | h := List.mem_append.mp h
        · unfold unitAnnotations at h
          split at h
          · obtain rfl := List.mem_singleton.mp h
            exact htoNat
          · simp at h
        · unfold spanNameAnnotations at h
          split at h
          · obtain rfl := List.mem_singleton.mp h
            exact htoNat
          · simp at h
    · simp at h

theorem countP_unitAnnotations (index : UInt16) (field : FieldView) :
    (unitAnnotations index field).countP isSpanName = 0 := by
  unfold unitAnnotations
  have hkey : Str.toText unitAnnotationKey.toList ≠ Str.toText roleKey.toList := by decide
  split <;> simp [isSpanName, hkey]

theorem countP_record (s : PlanState) (field : FieldView) (spanName : Bool)
    (fieldType : FieldType) (kind : ValueKind) :
    (s.record field spanName fieldType kind).annotations.countP isSpanName ≤
      s.annotations.countP isSpanName + if spanName then 1 else 0 := by
  simp only [record, List.countP_append]
  refine Nat.add_le_add_left ?_ _
  split
  · rw [List.countP_append, countP_unitAnnotations, Nat.zero_add]
    unfold spanNameAnnotations
    split
    · exact List.countP_le_length
    · simp
  · exact Nat.zero_le _

theorem Sound.record (hs : s.Sound) {field : FieldView} {fieldType : FieldType} {kind : ValueKind}
    (hclaimed : s.spanNameClaimed = true → claimed = true ∧ spanName = false)
    (hname : spanName = true → claimed = true)
    (hfresh : ∀ f ∈ s.fields, f.name ≠ field.fullName.toText)
    (htype : fieldType = kind.fieldType fieldType.isOptional) :
    Sound (PlanState.record { s with spanNameClaimed := claimed } field spanName fieldType
      kind) where
  headers := hs.headers.trans (List.prefix_append _ _)
  types := by
    simp only [PlanState.record, List.map_append, hs.types, payloads_append, payloads_payload,
      List.map_cons, List.map_nil, List.append_assoc, ← htype]
  names := by
    simp only [PlanState.record, List.map_append, List.map_cons, List.map_nil]
    refine hs.names.append (List.nodup_singleton _) ?_
    simpa using hfresh
  roles := fun role => by
    refine Eq.trans ?_ (hs.roles role)
    simp [PlanState.record, List.count_append]
  timed := hs.timed
  spanName := by
    refine (countP_record { s with spanNameClaimed := claimed } field spanName fieldType
      kind).trans ?_
    have hbefore := hs.spanName
    show s.annotations.countP isSpanName + _ ≤ if claimed then 1 else 0
    cases hold : s.spanNameClaimed with
    | true =>
      obtain ⟨rfl, rfl⟩ := hclaimed hold
      simpa [hold] using hbefore
    | false =>
      have hzero : s.annotations.countP isSpanName = 0 := by simpa [hold] using hbefore
      rw [hzero, Nat.zero_add]
      cases spanName with
      | true => simp [hname rfl]
      | false => exact Nat.zero_le _
  indices := fun ann hann => by
    have hlength : (PlanState.record { s with spanNameClaimed := claimed } field spanName
        fieldType kind).fields.length = s.fields.length + 1 := by simp [PlanState.record]
    rw [hlength]
    obtain hold | hnew := mem_record_annotations hann
    · exact (hs.indices ann hold).trans (Nat.lt_succ_self _)
    · exact hnew ▸ Nat.lt_succ_self _

theorem Sound.planField (hs : s.Sound) (field : FieldView) : (s.planField field).Sound := by
  obtain ⟨claimed, hclaimed, -, heq⟩ | ⟨role, hseen, -, heq⟩ |
    ⟨claimed, spanName, fieldType, kind, -, hclaimed, hname, hfresh, hresolve, heq⟩ :=
      s.planField_cases field
  · rw [heq]
    exact hs.skip hclaimed
  · rw [heq]
    exact hs.context hseen
  · rw [heq]
    exact hs.record hclaimed hname hfresh (resolveShape_ok hresolve)

theorem Sound.foldl (hs : s.Sound) (fields : List FieldView) :
    (fields.foldl PlanState.planField s).Sound := by
  induction fields generalizing s with
  | nil => exact hs
  | cons field fields ih => exact ih (hs.planField field)

@[simp]
theorem length_actions_planField (s : PlanState) (field : FieldView) :
    (s.planField field).actions.length = s.actions.length + 1 := by
  obtain ⟨_, -, -, heq⟩ | ⟨_, -, -, heq⟩ | ⟨_, _, _, _, -, -, -, -, -, heq⟩ :=
    s.planField_cases field
  all_goals
    rw [heq]
    simp [push, record]

theorem length_actions_foldl (s : PlanState) (fields : List FieldView) :
    (fields.foldl PlanState.planField s).actions.length = s.actions.length + fields.length := by
  induction fields generalizing s with
  | nil => rfl
  | cons field fields ih =>
    rw [List.foldl_cons, ih, length_actions_planField, List.length_cons]
    omega

theorem hasContext_planField (hs : s.Sound) (field : FieldView) :
    (s.planField field).hasContext = (s.hasContext || field.carriesContext) := by
  obtain ⟨_, -, hroles, heq⟩ | ⟨_, -, hcarries, heq⟩ | ⟨_, _, _, _, hcontext, -, -, -, -, heq⟩ :=
    s.planField_cases field
  · rw [heq]
    show s.hasContext = _
    cases hcarries : field.carriesContext with
    | false => simp
    | true =>
      obtain ⟨hflag, hrole⟩ : _ ∧ _ := by simpa [FieldView.carriesContext] using hcarries
      obtain ⟨role, hrole⟩ := Option.isSome_iff_exists.mp hrole
      simp [hs.timed role (hroles role hflag hrole)]
  · rw [heq]
    simp [hcarries]
  · rw [heq]
    simp [record, FieldView.carriesContext, hcontext]

theorem hasContext_foldl (hs : s.Sound) (fields : List FieldView) :
    (fields.foldl PlanState.planField s).hasContext =
      (s.hasContext || fields.any FieldView.carriesContext) := by
  induction fields generalizing s with
  | nil => simp
  | cons field fields ih =>
    rw [List.foldl_cons, ih (hs.planField field), hasContext_planField hs, List.any_cons,
      Bool.or_assoc]

end PlanState

theorem sound_planFields (descs : Descriptors) : (planFields descs).Sound :=
  PlanState.sound_new.foldl _

theorem length_actions_planFields (descs : Descriptors) :
    (planFields descs).actions.length = descs.fields.length := by
  rw [planFields, PlanState.length_actions_foldl]
  exact Nat.zero_add _

/-- An entry opts in by carrying a `Dial9Context`. -/
def Descriptors.optsIn (descs : Descriptors) : Bool := descs.fields.any FieldView.carriesContext

theorem hasContext_planFields (descs : Descriptors) :
    (planFields descs).hasContext = descs.optsIn := by
  rw [planFields, PlanState.hasContext_foldl PlanState.sound_new]
  rfl

end Dial9.Metrique
