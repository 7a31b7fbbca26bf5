/-
# Steps with a footprint

A state is seen through its cells. A step is local when it changes only the
cells of its footprint, and when what it does there depends on those cells
alone. Steps with disjoint footprints can be taken in any order, so a list
sorted by time has one result however its ties are arranged, as long as tied
steps have disjoint footprints.
-/

import Mathlib.Data.List.Sort
import Mathlib.Data.List.Perm.Basic
import Mathlib.Order.Basic

namespace Dial9.Lib

section Footprint

variable {S E K O : Type} {V : K → Type} (get : S → ∀ k, V k) (step : S → E → S)
  (out : S → E → List O) (foot : S → E → K → Prop)

/-- The states agree on the cells. -/
def AgreeOn (F : K → Prop) (s s' : S) : Prop := ∀ k, F k → get s k = get s' k

/-- A step changes only its footprint, and depends on nothing else. -/
structure IsLocal : Prop where
  frame : ∀ s e k, ¬ foot s e k → get (step s e) k = get s k
  local' : ∀ F s s' e, (∀ k, foot s e k → F k) → AgreeOn get F s s' →
    AgreeOn get F (step s e) (step s' e) ∧ out s e = out s' e ∧
      ∀ k, foot s e k ↔ foot s' e k

/-- The two steps touch no cell both. -/
def Apart (s : S) (e e' : E) : Prop := ∀ k, foot s e k → ¬ foot s e' k

/-- What a list of steps puts out, in order. -/
def outputs : S → List E → List O
  | _, [] => []
  | s, e :: events => out s e ++ outputs (step s e) events

/-- The states agree everywhere. -/
def Same (s s' : S) : Prop := ∀ k, get s k = get s' k

variable {get step out foot}

theorem Apart.symm {s : S} {e e' : E} (h : Apart foot s e e') : Apart foot s e' e :=
  fun k hfoot hfoot' => h k hfoot' hfoot

namespace IsLocal

variable (h : IsLocal get step out foot) {s s' : S} {e e' : E} {events events' : List E}

include h

section

variable (hsame : AgreeOn get (foot s e) s s')
include hsame

theorem foot_congr (k : K) : foot s e k ↔ foot s' e k :=
  (h.local' (foot s e) s s' e (fun _ hk => hk) hsame).2.2 k

theorem out_congr : out s e = out s' e :=
  (h.local' (foot s e) s s' e (fun _ hk => hk) hsame).2.1

theorem step_congr {k : K} (hk : foot s e k) : get (step s e) k = get (step s' e) k :=
  (h.local' (foot s e) s s' e (fun _ hk => hk) hsame).1 k hk

end

theorem same_step (hsame : Same get s s') (e : E) : Same get (step s e) (step s' e) := by
  have hagree := (h.local' (fun _ => True) s s' e (fun _ _ => trivial) fun k _ => hsame k).1
  exact fun k => hagree k trivial

theorem same_foldl (hsame : Same get s s') (events : List E) :
    Same get (events.foldl step s) (events.foldl step s') ∧
      outputs step out s events = outputs step out s' events := by
  induction events generalizing s s' with
  | nil => exact ⟨hsame, rfl⟩
  | cons e events ih =>
    rcases ih (h.same_step hsame e) with ⟨hfold, hout⟩
    refine ⟨hfold, ?_⟩
    rw [outputs, outputs, hout, h.out_congr fun k _ => hsame k]

theorem agree_of_apart (hapart : Apart foot s e e') : AgreeOn get (foot s e') s (step s e) :=
  fun k hk => (h.frame s e k fun hfoot => hapart k hfoot hk).symm

theorem apart_step {first : E} (hapart : Apart foot s e e') (hfirst : Apart foot s first e)
    (hfirst' : Apart foot s first e') : Apart foot (step s first) e e' := by
  intro k hk hk'
  apply hapart k
  · exact (h.foot_congr (h.agree_of_apart hfirst) k).mpr hk
  · exact (h.foot_congr (h.agree_of_apart hfirst') k).mpr hk'

theorem comm (hapart : Apart foot s e e') : Same get (step (step s e) e') (step (step s e') e) := by
  have hright := h.agree_of_apart hapart
  have hleft := h.agree_of_apart hapart.symm
  intro k
  by_cases hk : foot s e k
  · have hk' : ¬ foot (step s e) e' k := by
      rw [← h.foot_congr hright]
      exact hapart k hk
    rw [h.frame _ _ _ hk']
    exact h.step_congr hleft hk
  · have hframe : ¬ foot (step s e') e k := by
      rwa [← h.foot_congr hleft]
    rw [h.frame _ _ _ hframe]
    by_cases hk' : foot s e' k
    · exact (h.step_congr hright hk').symm
    · have hframe' : ¬ foot (step s e) e' k := by
        rwa [← h.foot_congr hright]
      rw [h.frame _ _ _ hframe', h.frame _ _ _ hk, h.frame _ _ _ hk']

/-- Steps that are pairwise apart have one result in any order. -/
theorem perm (hperm : events.Perm events') (hapart : events.Pairwise (Apart foot s)) :
    Same get (events.foldl step s) (events'.foldl step s) ∧
      (outputs step out s events).Perm (outputs step out s events') := by
  induction hperm generalizing s with
  | nil => exact ⟨fun k => rfl, List.Perm.refl _⟩
  | cons e _ ih =>
    rcases List.pairwise_cons.mp hapart with ⟨hfirst, hrest⟩
    have hrest' := List.Pairwise.imp_of_mem (fun ha hb hab =>
      h.apart_step hab (hfirst _ ha) (hfirst _ hb)) hrest
    rcases ih hrest' with ⟨hfold, hout⟩
    exact ⟨hfold, hout.append_left _⟩
  | swap e e' events =>
    have hapart' : Apart foot s e' e :=
      (List.pairwise_cons.mp hapart).1 e List.mem_cons_self
    have hcomm := h.comm hapart'
    rcases h.same_foldl hcomm events with ⟨hfold, hout⟩
    refine ⟨hfold, ?_⟩
    simp only [outputs, hout]
    rw [← h.out_congr (h.agree_of_apart hapart'), ← h.out_congr (h.agree_of_apart hapart'.symm),
      ← List.append_assoc, ← List.append_assoc]
    exact List.perm_append_comm.append_right _
  | trans hperm _ ih ih' =>
    have hapart' := (hperm.pairwise_iff fun hab => hab.symm).mp hapart
    rcases ih hapart with ⟨hfold, hout⟩
    rcases ih' hapart' with ⟨hfold', hout'⟩
    exact ⟨fun k => (hfold k).trans (hfold' k), hout.trans hout'⟩

end IsLocal

/-! ## Lists sorted by time -/

variable {T : Type} [LinearOrder T] (time : E → T)

/-- Tied steps are apart, where they are taken. -/
def Untied (step : S → E → S) (foot : S → E → K → Prop) (s : S) (events : List E) : Prop :=
  ∀ t, (events.filter fun e => decide (time e = t)).Pairwise
    (Apart foot ((events.filter fun e => decide (time e < t)).foldl step s))

variable {time}

variable {events : List E}

theorem untied_iff_mem {s : S} :
    Untied time step foot s events ↔ ∀ t ∈ events.map time,
      (events.filter fun e => decide (time e = t)).Pairwise
        (Apart foot ((events.filter fun e => decide (time e < t)).foldl step s)) := by
  constructor
  · intro huntied t _
    exact huntied t
  · intro huntied t
    by_cases ht : t ∈ events.map time
    · exact huntied t ht
    · have hnone : events.filter (fun e => decide (time e = t)) = [] := by
        apply List.filter_eq_nil_iff.mpr
        intro e he heq
        exact ht (List.mem_map.mpr ⟨e, he, of_decide_eq_true heq⟩)
      rw [hnone]
      exact List.Pairwise.nil

theorem filter_eq_append_filter_ne {e : E}
    (hsorted : (e :: events).Pairwise fun a b => time a ≤ time b) :
    (e :: events).filter (fun a => decide (time a = time e)) ++
      (e :: events).filter (fun a => !decide (time a = time e)) = e :: events := by
  have hmin : ∀ a ∈ e :: events, time e ≤ time a := by
    intro a ha
    rcases List.mem_cons.mp ha with rfl | ha
    · exact le_rfl
    · exact List.rel_of_pairwise_cons hsorted ha
  generalize e :: events = all at *
  generalize time e = t at *
  induction all with
  | nil => rfl
  | cons a all ih =>
    have hrest := ih hsorted.of_cons fun b hb => hmin b (List.mem_cons_of_mem _ hb)
    by_cases heq : time a = t
    · simp only [List.filter_cons, heq, decide_true, if_true, Bool.not_true, List.cons_append]
      simpa using hrest
    · have hlater : ∀ b ∈ a :: all, time b ≠ t := by
        intro b hb
        have hle : time a ≤ time b := by
          rcases List.mem_cons.mp hb with rfl | hb
          · exact le_rfl
          · exact List.rel_of_pairwise_cons hsorted hb
        have hlt := lt_of_le_of_ne (hmin a List.mem_cons_self) (Ne.symm heq)
        exact (lt_of_lt_of_le hlt hle).ne'
      rw [List.filter_eq_nil_iff.mpr (by simpa using hlater), List.nil_append]
      exact List.filter_eq_self.mpr (by simpa using hlater)

theorem outputs_append (s : S) (events events' : List E) :
    outputs step out s (events ++ events') =
      outputs step out s events ++ outputs step out (events.foldl step s) events' := by
  induction events generalizing s with
  | nil => rfl
  | cons e events ih => simp [outputs, ih, List.append_assoc]

theorem Untied.rest {s : S} {e : E} (hsorted : (e :: events).Pairwise fun a b => time a ≤ time b)
    (huntied : Untied time step foot s (e :: events)) :
    Untied time step foot
      (((e :: events).filter fun a => decide (time a = time e)).foldl step s)
      ((e :: events).filter fun a => !decide (time a = time e)) := by
  have hsplit := filter_eq_append_filter_ne hsorted
  have hlater : ∀ a ∈ (e :: events).filter fun a => !decide (time a = time e),
      time e < time a := by
    intro a ha
    rcases List.mem_filter.mp ha with ⟨hmem, hne⟩
    have hle : time e ≤ time a := by
      rcases List.mem_cons.mp hmem with rfl | hmem
      · exact le_rfl
      · exact List.rel_of_pairwise_cons hsorted hmem
    exact lt_of_le_of_ne hle (Ne.symm (by simpa using hne))
  have hfirst : ∀ a ∈ (e :: events).filter fun a => decide (time a = time e),
      time a = time e := fun a ha => of_decide_eq_true (List.mem_filter.mp ha).2
  generalize (e :: events).filter (fun a => decide (time a = time e)) = group at *
  generalize (e :: events).filter (fun a => !decide (time a = time e)) = rest at *
  intro t
  by_cases ht : time e < t
  · have htied := huntied t
    have hgroup : group.filter (fun a => decide (time a = t)) = [] := by
      apply List.filter_eq_nil_iff.mpr
      intro a ha
      simpa [hfirst a ha] using ht.ne
    have hbefore : group.filter (fun a => decide (time a < t)) = group := by
      apply List.filter_eq_self.mpr
      intro a ha
      simpa [hfirst a ha] using ht
    rwa [← hsplit, List.filter_append, List.filter_append, hgroup, hbefore, List.nil_append,
      List.foldl_append] at htied
  · have hnone : rest.filter (fun a => decide (time a = t)) = [] := by
      apply List.filter_eq_nil_iff.mpr
      intro a ha
      have hlt := hlater a ha
      have hle : t ≤ time e := le_of_not_gt ht
      simpa using (lt_of_le_of_lt hle hlt).ne'
    rw [hnone]
    exact List.Pairwise.nil

theorem IsLocal.sorted_perm (h : IsLocal get step out foot) {s s' : S} (hsame : Same get s s')
    {events events' : List E} (hperm : events.Perm events')
    (hsorted : events.Pairwise fun a b => time a ≤ time b)
    (hsorted' : events'.Pairwise fun a b => time a ≤ time b)
    (huntied : Untied time step foot s events) :
    Same get (events.foldl step s) (events'.foldl step s') ∧
      (outputs step out s events).Perm (outputs step out s' events') := by
  induction hn : events.length using Nat.strong_induction_on generalizing s s' events events' with
  | _ n ih =>
    cases events with
    | nil =>
      obtain rfl := List.nil_perm.mp hperm
      exact ⟨hsame, List.Perm.refl _⟩
    | cons e rest =>
      cases events' with
      | nil => exact absurd hperm.symm (by simp)
      | cons e' rest' =>
        have hhead : time e' = time e := by
          apply le_antisymm
          · have hmem := hperm.subset List.mem_cons_self
            rcases List.mem_cons.mp hmem with heq | hmem
            · rw [heq]
            · exact List.rel_of_pairwise_cons hsorted' hmem
          · have hmem := hperm.symm.subset List.mem_cons_self
            rcases List.mem_cons.mp hmem with heq | hmem
            · rw [heq]
            · exact List.rel_of_pairwise_cons hsorted hmem
        have hsplit := filter_eq_append_filter_ne hsorted
        have hsplit' := filter_eq_append_filter_ne hsorted'
        rw [hhead] at hsplit'
        have htied := huntied (time e)
        have hnone : (e :: rest).filter (fun a => decide (time a < time e)) = [] := by
          apply List.filter_eq_nil_iff.mpr
          intro a ha
          rcases List.mem_cons.mp ha with rfl | ha
          · simp
          · simpa using List.rel_of_pairwise_cons hsorted ha
        rw [hnone, List.foldl_nil] at htied
        -- The steps of the first time, in either arrangement, and then the rest.
        have hgroup := h.perm (hperm.filter fun a => decide (time a = time e)) htied
        have hmoved := h.same_foldl hsame
          ((e' :: rest').filter fun a => decide (time a = time e))
        have hrest := ih _ (by
            rw [← hn]
            apply List.length_filter_lt_length_iff_exists.mpr
            exact ⟨e, List.mem_cons_self, by simp⟩)
          (fun k => (hgroup.1 k).trans (hmoved.1 k))
          (hperm.filter fun a => !decide (time a = time e))
          (hsorted.sublist List.filter_sublist) (hsorted'.sublist List.filter_sublist)
          (Untied.rest hsorted huntied) rfl
        rw [← hsplit, ← hsplit', List.foldl_append, List.foldl_append, outputs_append,
          outputs_append]
        exact ⟨hrest.1, (hgroup.2.trans (List.Perm.of_eq hmoved.2)).append hrest.2⟩

end Footprint

end Dial9.Lib
