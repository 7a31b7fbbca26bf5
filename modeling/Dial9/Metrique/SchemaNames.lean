/-
# Schema names over a sequence of entry types

The first entry type of a name has the bare schema name, later ones have a suffix made
from their layout. The suffixed name is handed out without a look at the names in use and
without being added to them, so an entry type that is itself named like it shares it.
-/

import Dial9.Metrique.WalkShape

namespace Dial9.Metrique

open Lib (Bytes Str Text)
open TraceFormat (BaseType FieldType FieldDef FieldAnnotation FieldValue SchemaEntry Encoder)

/-! ## The events of one plan -/

/-- A value that the encoding of a field type can carry. -/
def Encodes : FieldType → FieldValue → Prop
  | .plain base, v => v.shape = some base
  | .optional base, v => v = .none ∨ v.shape = some base

theorem SlotHolds.encodes {slot : Bool × ValueKind} {v : FieldValue} (h : SlotHolds slot v) :
    Encodes (slot.2.fieldType slot.1) v := by
  obtain ⟨optional, kind⟩ := slot
  obtain ⟨rfl, hnone⟩ | hholds := h
  · exact Or.inl hnone
  · cases optional with
    | true => exact Or.inr hholds.shape
    | false => exact hholds.shape

theorem encodes_headerValues (ctx : ContextValues) (threadId duration : UInt64) :
    List.Forall₂ Encodes (Header.all.map Header.fieldType)
      (EntryWalk.headerValues ctx threadId duration) := by
  have hopt : ∀ v : Option UInt64, Encodes (.optional .varint) (EntryWalk.opt v) := by
    intro v
    cases v with
    | none => exact Or.inl rfl
    | some v => exact Or.inr rfl
  exact .cons rfl (.cons (hopt ctx.taskId) (.cons rfl (.cons (hopt ctx.wallClockNs) .nil)))

/-- What the plan of an entry type says about its events. -/
structure Plan.Describes (defaultValues : List Call → Leaf) (plan : Plan) (descs : Descriptors) :
    Prop where
  headers : headerFieldDefs <+: plan.schema.fields
  names : (plan.schema.fields.map FieldDef.name).Nodup
  roles : ∀ role, plan.actions.count (.context role) ≤ 1
  spanName : plan.schema.annotations.countP isSpanName ≤ 1
  indices : ∀ ann ∈ plan.schema.annotations, ann.fieldIndex.toNat < plan.schema.fields.length
  /-- A walk that does not end in an error leaves a timestamp and a value for each field. -/
  values : ∀ enc callbacks vs, recordEntry defaultValues plan enc callbacks = .ok vs →
    ∃ ts rest, vs = .varint ts :: rest ∧
      List.Forall₂ (fun field v => Encodes field.fieldType v) plan.schema.fields rest
  /-- A walk that was not cut short finds the field that it complains about. -/
  finishes : ∀ enc (callbacks : List Callback) w,
    callbacks.foldlM (EntryWalk.callback defaultValues plan) (EntryWalk.new enc) = .ok w →
      w.finish plan ≠ .error .panicked
  /-- Too few callbacks, or too many. -/
  count : ∀ enc callbacks, callbacks.countP Callback.isValue ≠ descs.fields.length →
    ∃ e, recordEntry defaultValues plan enc callbacks = .error e

theorem EntryWalk.Follows.finish_ne_panicked {plan : Plan} {count : Nat} {w : EntryWalk}
    (hw : Follows plan count w)
    (hfields : plan.schema.fields.length = headerFields + (payloads plan.actions).length) :
    w.finish plan ≠ .error .panicked := by
  unfold finish
  split
  · simp
  · next hcounts =>
      split
      · next index hindex =>
          have hnext : w.next = plan.actions.length := not_not.mp (not_or.mp hcounts).2
          have hlt := hw.missing index hindex
          rw [hw.seen, hnext, List.take_length] at hlt
          have hbound : headerFields + index < plan.schema.fields.length := by omega
          rw [List.getElem?_eq_getElem hbound]
          simp
      · split <;> simp

theorem recordEntry_ok {defaultValues : List Call → Leaf} {plan : Plan} {enc : Encoder}
    {callbacks : List Callback} {vs : List FieldValue}
    (h : recordEntry defaultValues plan enc callbacks = .ok vs) :
    ∃ w, EntryWalk.Follows plan (callbacks.countP Callback.isValue) w ∧ w.finish plan = .ok vs := by
  unfold recordEntry at h
  split at h
  · next w hw =>
      have hfollows := (EntryWalk.follows_new plan enc).foldlM hw
      rw [Nat.zero_add] at hfollows
      exact ⟨w, hfollows, h⟩
  · simp at h

theorem describes_buildPlan (defaultValues : List Call → Leaf) (descs : Descriptors)
    (usedNames : List Str) : (buildPlan descs usedNames).1.Describes defaultValues descs := by
  have hs := sound_planFields descs
  refine ⟨hs.headers, hs.names, fun role => ?_, hs.spanName.trans ?_, hs.indices,
    fun enc callbacks vs h => ?_, fun enc callbacks w h => ?_, fun enc callbacks hne => ?_⟩
  · refine (hs.roles role).trans_le ?_
    split <;> simp
  · split <;> simp
  · obtain ⟨w, hw, hfinish⟩ := recordEntry_ok h
    obtain ⟨-, ts, threadId, duration, payload, rfl, hpayload⟩ := hw.finish_ok hfinish
    refine ⟨ts, _, rfl, ?_⟩
    have htypes : List.Forall₂ Encodes ((planFields descs).fields.map FieldDef.fieldType)
        (EntryWalk.headerValues w.ctx threadId duration ++ payload) := by
      rw [hs.types]
      refine List.rel_append (encodes_headerValues _ _ _) ?_
      exact List.forall₂_map_left_iff.mpr (hpayload.imp fun _ _ => SlotHolds.encodes)
    exact List.forall₂_map_left_iff.mp htypes
  · refine ((EntryWalk.follows_new _ enc).foldlM h).finish_ne_panicked ?_
    have hlength := congrArg List.length hs.types
    rw [List.length_map, List.length_append, List.length_map, List.length_map] at hlength
    exact hlength
  · cases h : recordEntry defaultValues (buildPlan descs usedNames).1 enc callbacks with
    | error e => exact ⟨e, rfl⟩
    | ok vs =>
      obtain ⟨w, hw, hfinish⟩ := recordEntry_ok h
      exact absurd ((hw.finish_ok hfinish).1.trans (length_actions_planFields descs)) hne

/-! ## Hexadecimal suffixes -/

@[simp]
theorem length_hexDigits (width n : Nat) : (hexDigits width n).length = width := by
  induction width generalizing n with
  | zero => rfl
  | succ width ih => simp [hexDigits, ih]

theorem digitChar_inj {m n : Nat} (hm : m < 16) (hn : n < 16)
    (h : Nat.digitChar m = Nat.digitChar n) : m = n := by
  have hall : ∀ m : Fin 16, ∀ n : Fin 16, Nat.digitChar m = Nat.digitChar n → m = n := by decide
  simpa using congrArg Fin.val (hall ⟨m, hm⟩ ⟨n, hn⟩ h)

theorem hexDigits_inj {width m n : Nat} (hm : m < 16 ^ width) (hn : n < 16 ^ width)
    (h : hexDigits width m = hexDigits width n) : m = n := by
  induction width generalizing m n with
  | zero => omega
  | succ width ih =>
    obtain ⟨hfront, hlast⟩ := List.append_inj' h rfl
    rw [pow_succ] at hm hn
    have hdiv := ih (by omega) (by omega) hfront
    have hmod := digitChar_inj (Nat.mod_lt m (by decide)) (Nat.mod_lt n (by decide))
      (List.singleton_inj.mp hlast)
    omega

theorem toText_injective : Function.Injective Str.toText := by
  intro s t h
  have hbytes : Str.asBytes s = Str.asBytes t := congrArg Text.bytes h
  have hread := congrArg Str.fromUtf8 hbytes
  simpa using hread

theorem baseName_inj {name name' : Str} : baseName name = baseName name' ↔ name = name' :=
  List.append_right_inj _

/-! ## Names in use -/

/-- The field and annotation lists of an entry type. -/
def Descriptors.layout (descs : Descriptors) : List FieldDef × List FieldAnnotation :=
  ((planFields descs).fields, (planFields descs).annotations)

def Descriptors.layoutHash (descs : Descriptors) : UInt64 :=
  Metrique.layoutHash descs.layout.1 descs.layout.2

/-- The name of an entry type with the suffix of its layout. -/
def Descriptors.suffixed (descs : Descriptors) : Str :=
  descs.entryName ++ '#' :: hexDigits 16 descs.layoutHash.toNat

theorem Descriptors.suffixed_inj {descs descs' : Descriptors}
    (h : descs.suffixed = descs'.suffixed) :
    descs.entryName = descs'.entryName ∧ descs.layoutHash = descs'.layoutHash := by
  obtain ⟨hname, hsuffix⟩ := List.append_inj' h (by simp)
  refine ⟨hname, UInt64.toNat_inj.mp ?_⟩
  exact hexDigits_inj descs.layoutHash.toNat_lt descs'.layoutHash.toNat_lt (List.cons.inj hsuffix).2

/-- An entry type of the name that opted in came before. -/
def Taken (before : List Descriptors) (descs : Descriptors) : Prop :=
  ∃ d ∈ before, d.optsIn = true ∧ d.entryName = descs.entryName

instance (before : List Descriptors) (descs : Descriptors) : Decidable (Taken before descs) :=
  inferInstanceAs (Decidable (∃ d ∈ before, d.optsIn = true ∧ d.entryName = descs.entryName))

/-- The names in use after a sequence of entry types. -/
def namesAfter (usedNames : List Str) (entries : List Descriptors) : List Str :=
  entries.foldl (fun usedNames descs => (buildPlan descs usedNames).2) usedNames

/-- The schema name of an entry type, and the names in use after it. -/
def Descriptors.nameIn (descs : Descriptors) (usedNames : List Str) : Str × List Str :=
  schemaName descs.entryName (!descs.optsIn) descs.layout.1 descs.layout.2 usedNames

theorem buildPlan_names (descs : Descriptors) (usedNames : List Str) :
    (buildPlan descs usedNames).2 = (descs.nameIn usedNames).2 := by
  rw [Descriptors.nameIn, ← hasContext_planFields]
  rfl

theorem buildPlan_name (descs : Descriptors) (usedNames : List Str) :
    (buildPlan descs usedNames).1.schema.name = (descs.nameIn usedNames).1.toText := by
  rw [Descriptors.nameIn, ← hasContext_planFields]
  rfl

variable {descs : Descriptors} {usedNames : List Str}

theorem nameIn_free (hopts : descs.optsIn = true) (hfree : baseName descs.entryName ∉ usedNames) :
    descs.nameIn usedNames =
      (baseName descs.entryName, baseName descs.entryName :: usedNames) := by
  have hcontains : usedNames.contains (baseName descs.entryName) = false := by simpa using hfree
  rw [Descriptors.nameIn, schemaName, hopts, hcontains]
  rfl

theorem nameIn_taken (hopts : descs.optsIn = true) (htaken : baseName descs.entryName ∈ usedNames) :
    descs.nameIn usedNames =
      (suffixedName descs.entryName descs.layoutHash, usedNames) := by
  have hcontains := List.contains_iff_mem.mpr htaken
  rw [Descriptors.nameIn, schemaName, hopts, hcontains]
  rfl

theorem mem_nameIn {name : Str} :
    name ∈ (descs.nameIn usedNames).2 ↔
      name ∈ usedNames ∨ descs.optsIn = true ∧ baseName descs.entryName = name := by
  cases hopts : descs.optsIn with
  | false =>
    rw [Descriptors.nameIn, schemaName, hopts]
    simp
  | true =>
    by_cases hused : baseName descs.entryName ∈ usedNames
    · rw [nameIn_taken hopts hused]
      exact ⟨Or.inl, fun h => h.elim id fun heq => heq.2 ▸ hused⟩
    · rw [nameIn_free hopts hused]
      simp [or_comm, eq_comm]

variable {entries : List Descriptors}

theorem mem_namesAfter {name : Str} :
    name ∈ namesAfter usedNames entries ↔
      name ∈ usedNames ∨ ∃ d ∈ entries, d.optsIn = true ∧ baseName d.entryName = name := by
  induction entries generalizing usedNames with
  | nil => simp [namesAfter]
  | cons descs entries ih =>
    rw [namesAfter, List.foldl_cons, ← namesAfter, ih, buildPlan_names, mem_nameIn]
    simp [or_assoc]

theorem baseName_mem_namesAfter :
    baseName descs.entryName ∈ namesAfter [] entries ↔ Taken entries descs := by
  rw [mem_namesAfter]
  simp only [List.not_mem_nil, false_or, baseName_inj, Taken]

theorem getElem?_buildPlans (usedNames : List Str) (entries : List Descriptors) (i : Nat) :
    (buildPlans usedNames entries)[i]? = entries[i]?.map fun descs =>
      (buildPlan descs (namesAfter usedNames (entries.take i))).1 := by
  induction entries generalizing usedNames i with
  | nil => rfl
  | cons descs entries ih =>
    cases i with
    | zero => rfl
    | succ i => simpa [buildPlans, namesAfter] using ih _ i

theorem name_after {before : List Descriptors} (hopts : descs.optsIn = true) :
    (buildPlan descs (namesAfter [] before)).1.schema.name =
      (baseName (if Taken before descs then descs.suffixed else descs.entryName)).toText := by
  rw [buildPlan_name]
  by_cases htaken : Taken before descs
  · rw [nameIn_taken hopts (baseName_mem_namesAfter.mpr htaken), if_pos htaken]
    rfl
  · rw [nameIn_free hopts (fun h => htaken (baseName_mem_namesAfter.mp h)), if_neg htaken]

end Dial9.Metrique
