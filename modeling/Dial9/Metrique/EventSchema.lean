/-
# Events and their schema

Every plan describes the events of its entry type, and two entry types share a schema name
only when they are laid out alike, unless one of them is named like the suffixed name of
another.
-/

import Dial9.Metrique.SchemaNames

namespace Dial9.Metrique

open Lib (Bytes Str Text)
open TraceFormat (FieldType FieldDef FieldAnnotation)

/-- The plans of a sequence of entry types: what each says about its own events, and what
their schema names say about their layouts. -/
structure EventsMatch (defaultValues : List Call → Leaf) (entries : List Descriptors) : Prop where
  describes : ∀ (i : Nat) (descs : Descriptors) (plan : Plan), entries[i]? = some descs →
    (buildPlans [] entries)[i]? = some plan → plan.Describes defaultValues descs
  schemaNames : ∀ plan ∈ buildPlans [] entries, ∀ plan' ∈ buildPlans [] entries,
    plan.inert = false → plan'.inert = false → plan.schema.name = plan'.schema.name →
    plan.schema.fields = plan'.schema.fields ∧ plan.schema.annotations = plan'.schema.annotations

/-- An entry type is named like the suffixed name of one that is not the first of its name and
is laid out differently. -/
def Collides (entries : List Descriptors) : Prop :=
  ∃ i j descs descs', entries[i]? = some descs ∧ entries[j]? = some descs' ∧
    descs.optsIn = true ∧ descs'.optsIn = true ∧
    Taken (entries.take i) descs ∧ ¬ Taken (entries.take j) descs' ∧
    descs'.entryName = descs.suffixed ∧ descs.layout ≠ descs'.layout

/-- The hash tells the layouts of a sequence of entry types apart. -/
def HashSeparates (entries : List Descriptors) : Prop :=
  ∀ a ∈ entries, ∀ b ∈ entries, a.layoutHash = b.layoutHash → a.layout = b.layout

instance (entries : List Descriptors) : Decidable (HashSeparates entries) :=
  inferInstanceAs (Decidable (∀ a ∈ entries, ∀ b ∈ entries,
    a.layoutHash = b.layoutHash → a.layout = b.layout))

variable {entries : List Descriptors}

theorem not_collides_of_plain
    (hplain : ∀ descs ∈ entries, '#' ∉ descs.entryName) : ¬ Collides entries := by
  rintro ⟨i, j, descs, descs', -, hj, -, -, -, -, hname, -⟩
  refine hplain descs' (List.mem_of_getElem? hj) ?_
  rw [hname]
  exact List.mem_append_right _ List.mem_cons_self

theorem mem_buildPlans {plan : Plan}
    (h : plan ∈ buildPlans [] entries) : ∃ i descs, entries[i]? = some descs ∧
      plan = (buildPlan descs (namesAfter [] (entries.take i))).1 := by
  obtain ⟨i, hi⟩ := List.mem_iff_getElem?.mp h
  rw [getElem?_buildPlans] at hi
  obtain ⟨descs, hdescs, rfl⟩ := Option.map_eq_some_iff.mp hi
  exact ⟨i, descs, hdescs, rfl⟩

theorem buildPlan_mem {i : Nat} {descs : Descriptors} (h : entries[i]? = some descs) :
    (buildPlan descs (namesAfter [] (entries.take i))).1 ∈ buildPlans [] entries :=
  List.mem_of_getElem? (i := i) (by rw [getElem?_buildPlans, h]; rfl)

theorem inert_buildPlan (descs : Descriptors) (usedNames : List Str) :
    (buildPlan descs usedNames).1.inert = !descs.optsIn := by
  rw [← hasContext_planFields]
  rfl

theorem describes_buildPlans (defaultValues : List Call → Leaf)
    {i : Nat} {descs : Descriptors} {plan : Plan} (hdescs : entries[i]? = some descs)
    (hplan : (buildPlans [] entries)[i]? = some plan) : plan.Describes defaultValues descs := by
  rw [getElem?_buildPlans, hdescs] at hplan
  obtain rfl := Option.some.inj hplan
  exact describes_buildPlan defaultValues descs _

/-! ## Two names of one sequence -/

section Names

variable {entries : List Descriptors} {i j : Nat} {descs descs' : Descriptors}

/-- The part of an entry type's schema name after the common start. -/
def nameAt (entries : List Descriptors) (i : Nat) (descs : Descriptors) : Str :=
  if Taken (entries.take i) descs then descs.suffixed else descs.entryName

theorem eq_of_not_taken (hi : entries[i]? = some descs) (hj : entries[j]? = some descs')
    (hopts : descs.optsIn = true) (hopts' : descs'.optsIn = true)
    (htaken : ¬ Taken (entries.take i) descs) (htaken' : ¬ Taken (entries.take j) descs')
    (hname : descs.entryName = descs'.entryName) : i = j := by
  have hmem : ∀ {i j : Nat} {descs : Descriptors}, entries[i]? = some descs → i < j →
      descs ∈ entries.take j := by
    intro i j descs hi hlt
    refine List.mem_of_getElem? (i := i) ?_
    rw [List.getElem?_take_of_lt hlt, hi]
  obtain hlt | heq | hlt := Nat.lt_trichotomy i j
  · exact absurd ⟨descs, hmem hi hlt, hopts, hname⟩ htaken'
  · exact heq
  · exact absurd ⟨descs', hmem hj hlt, hopts', hname.symm⟩ htaken

theorem layout_eq_of_nameAt_eq (hhash : HashSeparates entries) (hfree : ¬ Collides entries)
    (hi : entries[i]? = some descs) (hj : entries[j]? = some descs')
    (hopts : descs.optsIn = true) (hopts' : descs'.optsIn = true)
    (hname : nameAt entries i descs = nameAt entries j descs') :
    descs.layout = descs'.layout := by
  unfold nameAt at hname
  by_contra hlayout
  by_cases htaken : Taken (entries.take i) descs <;>
    by_cases htaken' : Taken (entries.take j) descs'
  · rw [if_pos htaken, if_pos htaken'] at hname
    obtain ⟨-, hhashes⟩ := Descriptors.suffixed_inj hname
    exact hlayout (hhash descs (List.mem_of_getElem? hi) descs' (List.mem_of_getElem? hj) hhashes)
  · rw [if_pos htaken, if_neg htaken'] at hname
    exact hfree ⟨i, j, descs, descs', hi, hj, hopts, hopts', htaken, htaken', hname.symm, hlayout⟩
  · rw [if_neg htaken, if_pos htaken'] at hname
    exact hfree ⟨j, i, descs', descs, hj, hi, hopts', hopts, htaken', htaken, hname,
      Ne.symm hlayout⟩
  · rw [if_neg htaken, if_neg htaken'] at hname
    obtain rfl := eq_of_not_taken hi hj hopts hopts' htaken htaken' hname
    rw [hi] at hj
    exact hlayout (congrArg Descriptors.layout (Option.some.inj hj))

end Names

theorem eventsMatch_of_not_collides (defaultValues : List Call → Leaf)
    (hhash : HashSeparates entries) (hfree : ¬ Collides entries) :
    EventsMatch defaultValues entries where
  describes := fun _ _ _ => describes_buildPlans defaultValues
  schemaNames := by
    intro plan hplan plan' hplan' hinert hinert' hname
    obtain ⟨i, descs, hi, rfl⟩ := mem_buildPlans hplan
    obtain ⟨j, descs', hj, rfl⟩ := mem_buildPlans hplan'
    have hopts : descs.optsIn = true := by simpa [inert_buildPlan] using hinert
    have hopts' : descs'.optsIn = true := by simpa [inert_buildPlan] using hinert'
    rw [name_after hopts, name_after hopts'] at hname
    have hlayout := layout_eq_of_nameAt_eq hhash hfree hi hj hopts hopts'
      (baseName_inj.mp (toText_injective hname))
    exact Prod.mk.inj hlayout

theorem not_eventsMatch_of_collides {defaultValues : List Call → Leaf}
    (h : Collides entries) : ¬ EventsMatch defaultValues entries := by
  obtain ⟨i, j, descs, descs', hi, hj, hopts, hopts', htaken, hfirst, hname, hlayout⟩ := h
  intro hmatch
  have hnames : (buildPlan descs (namesAfter [] (entries.take i))).1.schema.name =
      (buildPlan descs' (namesAfter [] (entries.take j))).1.schema.name := by
    rw [name_after hopts, name_after hopts', if_pos htaken, if_neg hfirst, hname]
  obtain ⟨hfields, hannotations⟩ := hmatch.schemaNames _ (buildPlan_mem hi) _ (buildPlan_mem hj)
    (by rw [inert_buildPlan, hopts]; rfl) (by rw [inert_buildPlan, hopts']; rfl) hnames
  exact hlayout (Prod.ext hfields hannotations)

/-- A `Dial9Context` field and an unsigned field. -/
def requestDescs (name field : String) : Descriptors :=
  [⟨name.toList,
    [⟨"dial9.thread_id".toList, ["dial9.thread_id".toList], ⟨true, false, false, false⟩,
        .known .u64, none⟩,
      ⟨field.toList, [field.toList], ⟨false, false, false, false⟩, .known .u64, none⟩]⟩]

/-- Metrique events match their schemas, as long as no entry type is named like the suffixed
name of another. -/
theorem eventsMatch_iff (defaultValues : List Call → Leaf) (entries : List Descriptors)
    (hhash : HashSeparates entries) : EventsMatch defaultValues entries ↔ ¬ Collides entries :=
  ⟨fun h hcollides => not_eventsMatch_of_collides hcollides h,
    eventsMatch_of_not_collides defaultValues hhash⟩

/-- Two entry types of one name, laid out differently. -/
theorem eventsMatch_iff_requests : EventsMatch (fun _ => .nothing)
    [requestDescs "Request" "bytes", requestDescs "Request" "rows"] :=
  (eventsMatch_iff _ _ (by decide +kernel)).mpr (not_collides_of_plain (by decide))

/-- Where a third type has the suffixed name of the second as its own, the suffixed name is
given out although it is in use. -/
theorem suffixedRequest_not_eventsMatch :
    HashSeparates [requestDescs "Request#68aadda9db11a299" "bytes",
      requestDescs "Request" "bytes", requestDescs "Request" "rows"] ∧
    ¬ EventsMatch (fun _ => .nothing) [requestDescs "Request#68aadda9db11a299" "bytes",
      requestDescs "Request" "bytes", requestDescs "Request" "rows"] := by
  refine ⟨by decide +kernel, not_eventsMatch_of_collides
    ⟨2, 0, requestDescs "Request" "rows", requestDescs "Request#68aadda9db11a299" "bytes", rfl, rfl,
      ?_⟩⟩
  decide +kernel

end Dial9.Metrique
