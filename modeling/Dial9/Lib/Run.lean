/-
# Runs of a partial step function

An event that is not enabled in a state has no successor, and a run is a list
of events all of which were enabled. An invariant is carried along a run by one
step lemma, which may use what is assumed of every step.
-/

import Mathlib.Data.Option.Basic
import Mathlib.Order.RelClasses

namespace Dial9.Lib

variable {S E : Type} (step : S → E → Option S)

/-- Run a list of events. -/
def run : S → List E → Option S
  | s, [] => some s
  | s, e :: events => (step s e).bind fun next => run next events

/-- Every step of the run meets `P`, at the state it starts from. -/
def Along (P : S → E → Prop) : S → List E → Prop
  | _, [] => True
  | s, e :: events => P s e ∧ ∀ next, step s e = some next → Along P next events

/-- The predicate holds in every state of the run. -/
def Throughout (Inv : S → Prop) : S → List E → Prop
  | s, [] => Inv s
  | s, e :: events => Inv s ∧ ∀ next, step s e = some next → Throughout Inv next events

variable {step} {P : S → E → Prop} {Inv : S → Prop}

variable {events : List E}

theorem run_cons {s last : S} {e : E} (h : run step s (e :: events) = some last) :
    ∃ next, step s e = some next ∧ run step next events = some last :=
  Option.bind_eq_some_iff.mp h

theorem run_append {s t : S} {events more : List E} (h : run step s events = some t) :
    run step s (events ++ more) = run step t more := by
  induction events generalizing s with
  | nil =>
    cases h
    rfl
  | cons e events ih =>
    rcases run_cons h with ⟨next, hnext, hrest⟩
    rw [List.cons_append, run, hnext]
    exact ih hrest

/-- What one step keeps, a run keeps. -/
theorem run_invariant (hstep : ∀ s e next, Inv s → P s e → step s e = some next → Inv next)
    {s last : S} (hs : Inv s) (halong : Along step P s events) (h : run step s events = some last) :
    Inv last := by
  induction events generalizing s with
  | nil =>
    cases h
    exact hs
  | cons e events ih =>
    rcases run_cons h with ⟨next, hnext, hrest⟩
    rcases halong with ⟨hP, halong⟩
    apply ih _ (halong next hnext) hrest
    exact hstep s e next hs hP hnext

theorem Throughout.last {s last : S} (h : Throughout step Inv s events)
    (hrun : run step s events = some last) : Inv last := by
  induction events generalizing s with
  | nil =>
    cases hrun
    exact h
  | cons e events ih =>
    rcases run_cons hrun with ⟨next, hnext, hrest⟩
    exact ih (h.2 next hnext) hrest

theorem Throughout.first {s : S} {events : List E} (h : Throughout step Inv s events) : Inv s := by
  cases events with
  | nil => exact h
  | cons => exact h.1

/-- What one step keeps, and what gives the predicate, holds of every state of a run. -/
theorem throughout_of_along {Good : S → Prop}
    (hstep : ∀ s e next, Good s → P s e → step s e = some next → Good next)
    (hgood : ∀ s, Good s → Inv s) {s : S} {events : List E} (hs : Good s)
    (halong : Along step P s events) : Throughout step Inv s events := by
  induction events generalizing s with
  | nil => exact hgood s hs
  | cons e events ih =>
    refine ⟨hgood s hs, ?_⟩
    intro next hnext
    apply ih _ (halong.2 next hnext)
    exact hstep s e next hs halong.1 hnext

/-- Where one step keeps the predicate exactly when it meets `P`, a run holds
it throughout exactly when all its steps meet `P`. -/
theorem throughout_iff_along (Good : S → Prop)
    (hgood : ∀ s e next, Good s → step s e = some next → Good next)
    (hstep : ∀ s e next, Good s → Inv s → step s e = some next → (Inv next ↔ P s e)) {s last : S}
    (hs : Good s) (hinv : Inv s) (h : run step s events = some last) :
    Throughout step Inv s events ↔ Along step P s events := by
  induction events generalizing s with
  | nil => exact iff_of_true hinv trivial
  | cons e events ih =>
    rcases run_cons h with ⟨next, hnext, hrest⟩
    have hiff := hstep s e next hs hinv hnext
    constructor
    · rintro ⟨-, hlater⟩
      have hthrough := hlater next hnext
      have hinv' := hthrough.first
      refine ⟨hiff.mp hinv', ?_⟩
      intro next' hnext'
      obtain rfl : next = next' := Option.some.inj (hnext.symm.trans hnext')
      exact (ih (hgood s e next hs hnext) hinv' hrest).mp hthrough
    · rintro ⟨hP, hlater⟩
      have hinv' := hiff.mpr hP
      refine ⟨hinv, ?_⟩
      intro next' hnext'
      obtain rfl : next = next' := Option.some.inj (hnext.symm.trans hnext')
      exact (ih (hgood s e next hs hnext) hinv' hrest).mpr (hlater next hnext)

variable {s : S}

/-- A predicate of states and one of steps, which under an invariant come down
to what is asked of each step: the invariant needs it, and a step that does
without breaks one of the two. -/
theorem throughout_and_along_iff {Q : S → E → Prop} (Good : S → Prop) (hgood : ∀ s, Good s → Inv s)
    (hkeep : ∀ s e next, Good s → P s e → step s e = some next → Good next)
    (hstep : ∀ s e, Good s → P s e → Q s e)
    (hback : ∀ s e, Good s → Q s e → (∀ next, step s e = some next → Inv next) → P s e)
    (hs : Good s) (events : List E) :
    Throughout step Inv s events ∧ Along step Q s events ↔ Along step P s events := by
  induction events generalizing s with
  | nil => exact iff_of_true ⟨hgood s hs, trivial⟩ trivial
  | cons e events ih =>
    constructor
    · rintro ⟨⟨-, hthrough⟩, hQ, halong⟩
      have hP : P s e := by
        apply hback s e hs hQ
        intro next hnext
        exact (hthrough next hnext).first
      refine ⟨hP, ?_⟩
      intro next hnext
      exact (ih (hkeep s e next hs hP hnext)).mp ⟨hthrough next hnext, halong next hnext⟩
    · rintro ⟨hP, halong⟩
      have hrest := fun next hnext =>
        (ih (hkeep s e next hs hP hnext)).mpr (halong next hnext)
      exact ⟨⟨hgood s hs, fun next hnext => (hrest next hnext).1⟩, hstep s e hs hP,
        fun next hnext => (hrest next hnext).2⟩

/-- Nothing is assumed of a step: the plain invariant rule. -/
theorem along_true (s : S) (events : List E) : Along step (fun _ _ => True) s events := by
  induction events generalizing s with
  | nil => trivial
  | cons e events ih => exact ⟨trivial, fun next _ => ih next⟩

instance decidableAlong [hP : ∀ s e, Decidable (P s e)] :
    ∀ (s : S) (events : List E), Decidable (Along step P s events)
  | _, [] => isTrue trivial
  | s, e :: events =>
    match hstep : step s e with
    | none =>
      decidable_of_iff (P s e)
        ⟨fun h => ⟨h, fun _ hnext => absurd (hstep.symm.trans hnext).symm (Option.some_ne_none _)⟩,
          And.left⟩
    | some next =>
      have := decidableAlong next events
      decidable_of_iff (P s e ∧ Along step P next events)
        ⟨fun h => ⟨h.1, fun _ hnext => Option.some.inj (hstep.symm.trans hnext) ▸ h.2⟩,
          fun h => ⟨h.1, h.2 next hstep⟩⟩

theorem along_of_forall (h : ∀ e ∈ events, ∀ s, P s e) (s : S) : Along step P s events := by
  induction events generalizing s with
  | nil => trivial
  | cons e events ih =>
    refine ⟨h e List.mem_cons_self s, ?_⟩
    intro next _
    exact ih (fun e he => h e (List.mem_cons_of_mem _ he)) next

theorem along_of_invariant (Inv : S → Prop)
    (hkeep : ∀ s e next, Inv s → step s e = some next → Inv next) (hP : ∀ s e, Inv s → P s e)
    (hs : Inv s) (events : List E) : Along step P s events := by
  induction events generalizing s with
  | nil => trivial
  | cons e events ih => exact ⟨hP s e hs, fun next hnext => ih (hkeep s e next hs hnext)⟩

theorem along_and {Q : S → E → Prop} (hP : Along step P s events) (hQ : Along step Q s events) :
    Along step (fun s e => P s e ∧ Q s e) s events := by
  induction events generalizing s with
  | nil => trivial
  | cons e events ih =>
    refine ⟨⟨hP.1, hQ.1⟩, ?_⟩
    intro next hnext
    exact ih (hP.2 next hnext) (hQ.2 next hnext)

theorem along_append {events more : List E} (h : Along step P s events)
    (hmore : ∀ t, run step s events = some t → Along step P t more) :
    Along step P s (events ++ more) := by
  induction events generalizing s with
  | nil => exact hmore s rfl
  | cons e events ih =>
    refine ⟨h.1, ?_⟩
    intro next hnext
    apply ih (h.2 next hnext)
    intro t hrest
    apply hmore t
    rw [run, hnext]
    exact hrest

/-! ## Runs that end -/

variable (step) in
/-- No run goes on forever. -/
def Terminates (s : S) : Prop := Acc (fun next s => ∃ e, step s e = some next) s

/-- Each step lowers a measure. -/
theorem terminates_of_measure {μ : Type} [LT μ] [WellFoundedLT μ] (measure : S → μ)
    (hstep : ∀ s e next, Inv s → step s e = some next → Inv next ∧ measure next < measure s)
    (hs : Inv s) : Terminates step s := by
  induction hm : measure s using WellFoundedLT.induction generalizing s with
  | ind m ih =>
    constructor
    rintro next ⟨e, hnext⟩
    rcases hstep s e next hs hnext with ⟨hinv, hless⟩
    exact ih (measure next) (hm ▸ hless) hinv rfl

/-- Runs that end and can always go on get to where they should. -/
theorem Terminates.completes (h : Terminates step s) (Done : S → Prop)
    (honward : ∀ events t, run step s events = some t → ¬ Done t → ∃ e next, step t e = some next) :
    ∃ events t, run step s events = some t ∧ Done t := by
  induction h with
  | intro s _ ih =>
    by_cases hdone : Done s
    · exact ⟨[], s, rfl, hdone⟩
    · rcases honward [] s rfl hdone with ⟨e, next, hnext⟩
      have hrun (events : List E) : run step s (e :: events) = run step next events := by
        rw [run, hnext]
        rfl
      rcases ih next ⟨e, hnext⟩ fun events t ht => honward (e :: events) t (hrun events ▸ ht) with
        ⟨events, t, ht, hdone⟩
      exact ⟨e :: events, t, (hrun events).trans ht, hdone⟩

end Dial9.Lib
