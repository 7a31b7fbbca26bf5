/-
# A registry of locks held by weak references

Tasks that work under one key share a lock which they find in a registry. The
registry holds locks weakly: a lock lives as long as a task refers to it, and a
task that drops the last reference first removes the entry of its key. Between
the check of the reference count and the drop of the reference other tasks may
run. The entry of a key is the lock of every task attached to it, so no two
tasks hold the lock of one key.
-/

import Dial9.Lib.Updates
import Mathlib.Tactic.Common

namespace Dial9.Lib.LockRegistry

/-- Where a task is with its lock. -/
inductive Stage (K : Type) where
  | outside
  | waiting (key : K) (lock : Nat)
  | holding (key : K) (lock : Nat)
  | dropping (key : K) (lock : Nat)
  | releasing (lock : Nat)
  deriving DecidableEq

/-- The lock a task refers to. -/
def Stage.lock? {K : Type} : Stage K → Option Nat
  | .outside => none
  | .waiting _ lock | .holding _ lock | .dropping _ lock | .releasing lock => some lock

/-- The key a task is attached to, with its lock, until the entry may be removed. -/
def Stage.attached? {K : Type} : Stage K → Option (K × Nat)
  | .waiting key lock | .holding key lock | .dropping key lock => some (key, lock)
  | .outside | .releasing _ => none

theorem Stage.lock_of_attached {K : Type} {stage : Stage K} {key : K} {lock : Nat}
    (h : stage.attached? = some (key, lock)) : stage.lock? = some lock := by
  cases stage <;> simp_all [Stage.attached?, Stage.lock?]

structure State (K T : Type) where
  registry : K → Option Nat
  /-- The strong references to a lock, each with the task that has it. -/
  holders : Nat → List T
  owner : Nat → Option T
  nextLock : Nat
  stages : T → Stage K

inductive Action (K T : Type) where
  | attach (t : T) (key : K)
  | acquire (t : T)
  | abandon (t : T)
  | unlock (t : T)
  | prune (t : T)
  | release (t : T)

variable {K T : Type} [DecidableEq K] [DecidableEq T]

def start : State K T where
  registry := fun _ => none
  holders := fun _ => []
  owner := fun _ => none
  nextLock := 0
  stages := fun _ => .outside

namespace State

/-- Upgrade the reference of the key's entry, or enter a new lock. -/
def attach (s : State K T) (t : T) (key : K) : State K T :=
  match (s.registry key).filter fun lock => s.holders lock ≠ [] with
  | some lock =>
    { s with
      holders := Function.update s.holders lock (t :: s.holders lock)
      stages := Function.update s.stages t (.waiting key lock) }
  | none =>
    { s with
      registry := Function.update s.registry key (some s.nextLock)
      holders := Function.update s.holders s.nextLock [t]
      nextLock := s.nextLock + 1
      stages := Function.update s.stages t (.waiting key s.nextLock) }

/-- Remove the entry of the key where this is the last reference to the lock. -/
def prune (s : State K T) (t : T) (key : K) (lock : Nat) : State K T :=
  { s with
    registry :=
      if (s.holders lock).length = 1 then Function.update s.registry key none else s.registry
    stages := Function.update s.stages t (.releasing lock) }

def step (s : State K T) : Action K T → Option (State K T)
  | .attach t key => if s.stages t = .outside then some (s.attach t key) else none
  | .acquire t =>
    match s.stages t with
    | .waiting key lock =>
      if s.owner lock = none then
        some { s with
          owner := Function.update s.owner lock (some t)
          stages := Function.update s.stages t (.holding key lock) }
      else none
    | _ => none
  | .abandon t =>
    match s.stages t with
    | .waiting key lock =>
      some { s with stages := Function.update s.stages t (.dropping key lock) }
    | _ => none
  | .unlock t =>
    match s.stages t with
    | .holding key lock =>
      some { s with
        owner := Function.update s.owner lock none
        stages := Function.update s.stages t (.dropping key lock) }
    | _ => none
  | .prune t =>
    match s.stages t with
    | .dropping key lock => some (s.prune t key lock)
    | _ => none
  | .release t =>
    match s.stages t with
    | .releasing lock =>
      some { s with
        holders := Function.update s.holders lock ((s.holders lock).erase t)
        stages := Function.update s.stages t .outside }
    | _ => none

end State

/-- What keeps the lock of a key unique. -/
structure Coherent (s : State K T) : Prop where
  fresh : ∀ key lock, s.registry key = some lock → lock < s.nextLock
  alloc : ∀ t lock, (s.stages t).lock? = some lock → lock < s.nextLock
  held : ∀ t lock, (s.stages t).lock? = some lock → t ∈ s.holders lock
  entry : ∀ t key lock, (s.stages t).attached? = some (key, lock) → s.registry key = some lock
  owned : ∀ t key lock, s.stages t = .holding key lock → s.owner lock = some t

namespace Coherent

variable {s next : State K T} {t : T} {key : K} {lock : Nat}

omit [DecidableEq K] [DecidableEq T] in
theorem start : Coherent (start : State K T) := by
  constructor <;> simp [LockRegistry.start, Stage.lock?, Stage.attached?]

section

omit [DecidableEq K]

/-- A task moves to a stage: what it has there is its own, and what the others have stays. -/
theorem of_stage {stage : Stage K} (h : Coherent s)
    (hstages : next.stages = Function.update s.stages t stage)
    (hfresh : ∀ key lock, next.registry key = some lock → lock < next.nextLock)
    (hnext : s.nextLock ≤ next.nextLock)
    (hlock : ∀ lock, stage.lock? = some lock → lock < next.nextLock ∧ t ∈ next.holders lock)
    (hattached : ∀ key lock, stage.attached? = some (key, lock) → next.registry key = some lock)
    (hholding : ∀ key lock, stage = .holding key lock → next.owner lock = some t)
    (hheld : ∀ u ≠ t, ∀ lock, lock < s.nextLock → u ∈ s.holders lock → u ∈ next.holders lock)
    (hentry : ∀ u ≠ t, ∀ key lock, (s.stages u).attached? = some (key, lock) →
      u ∈ s.holders lock → s.registry key = some lock → next.registry key = some lock)
    (howner : ∀ u ≠ t, ∀ lock, s.owner lock = some u → next.owner lock = some u) :
    Coherent next := by
  have hcases (u : T) : u = t ∧ next.stages u = stage ∨ u ≠ t ∧ next.stages u = s.stages u := by
    rw [hstages]
    by_cases heq : u = t
    · exact .inl ⟨heq, heq ▸ Function.update_self ..⟩
    · exact .inr ⟨heq, Function.update_of_ne heq ..⟩
  constructor
  · exact hfresh
  · intro u lock hu
    rcases hcases u with ⟨rfl, hstage⟩ | ⟨-, hstage⟩ <;> rw [hstage] at hu
    · exact (hlock lock hu).1
    · exact Nat.lt_of_lt_of_le (h.alloc u lock hu) hnext
  · intro u lock hu
    rcases hcases u with ⟨rfl, hstage⟩ | ⟨hne, hstage⟩ <;> rw [hstage] at hu
    · exact (hlock lock hu).2
    · exact hheld u hne lock (h.alloc u lock hu) (h.held u lock hu)
  · intro u key lock hu
    rcases hcases u with ⟨rfl, hstage⟩ | ⟨hne, hstage⟩ <;> rw [hstage] at hu
    · exact hattached key lock hu
    · exact hentry u hne key lock hu (h.held u lock (Stage.lock_of_attached hu))
        (h.entry u key lock hu)
  · intro u key lock hu
    rcases hcases u with ⟨rfl, hstage⟩ | ⟨hne, hstage⟩ <;> rw [hstage] at hu
    · exact hholding key lock hu
    · exact howner u hne lock (h.owned u key lock hu)

theorem go_on {stage : Stage K} {owner : Nat → Option T} (h : Coherent s)
    (hold : (s.stages t).attached? = some (key, lock)) (hnew : stage.attached? = some (key, lock))
    (hholding : ∀ key' lock', stage = .holding key' lock' → owner lock' = some t)
    (howner : ∀ u ≠ t, ∀ lock, s.owner lock = some u → owner lock = some u) :
    Coherent { s with owner := owner, stages := Function.update s.stages t stage } := by
  have hlock := Stage.lock_of_attached hold
  refine h.of_stage rfl h.fresh (Nat.le_refl _) ?_ ?_ hholding (fun _ _ _ _ => id)
    (fun _ _ _ _ _ _ => id)
    howner
  · intro lock' hstage
    obtain rfl := Option.some.inj ((Stage.lock_of_attached hnew).symm.trans hstage)
    exact ⟨h.alloc t lock hlock, h.held t lock hlock⟩
  · intro key' lock' hstage
    obtain ⟨rfl, rfl⟩ := Prod.mk.inj (Option.some.inj (hnew.symm.trans hstage))
    exact h.entry t key lock hold

theorem attach_hit (h : Coherent s) (hentry : s.registry key = some lock) :
    Coherent { s with
      holders := Function.update s.holders lock (t :: s.holders lock)
      stages := Function.update s.stages t (.waiting key lock) } := by
  refine h.of_stage rfl h.fresh (Nat.le_refl _) ?_ ?_ nofun ?_
    (fun _ _ _ _ _ _ => id) (fun _ _ _ => id)
  · rintro lock' ⟨⟩
    exact ⟨h.fresh key lock hentry, by simp⟩
  · rintro key' lock' ⟨⟩
    exact hentry
  · intro u _ lock' _ hu
    by_cases heq : lock' = lock
    · subst heq
      simp [hu]
    · simp [heq, hu]

end

theorem attach_miss (h : Coherent s) (hentry : ∀ lock, s.registry key = some lock →
      s.holders lock = []) :
    Coherent { s with
      registry := Function.update s.registry key (some s.nextLock)
      holders := Function.update s.holders s.nextLock [t]
      nextLock := s.nextLock + 1
      stages := Function.update s.stages t (.waiting key s.nextLock) } := by
  refine h.of_stage rfl ?_ (Nat.le_succ _) ?_ ?_ nofun ?_ ?_ fun _ _ _ => id
  · intro key' lock' hlock
    rcases updated_eq_iff.mp hlock with ⟨-, ⟨⟩⟩ | ⟨-, hold⟩
    · exact Nat.lt_succ_self _
    · exact Nat.lt_succ_of_lt (h.fresh key' lock' hold)
  · rintro lock' ⟨⟩
    exact ⟨Nat.lt_succ_self _, by simp⟩
  · rintro key' lock' ⟨⟩
    exact Function.update_self ..
  · intro u _ lock' hlt hu
    simpa [Nat.ne_of_lt hlt] using hu
  · intro u _ key' lock' _ hmem hold
    -- A task attached to the key keeps its entry alive.
    have hkey : key' ≠ key := by
      rintro rfl
      rw [hentry lock' hold] at hmem
      cases hmem
    exact (Function.update_of_ne hkey ..).trans hold

theorem prune (h : Coherent s) (hstage : s.stages t = .dropping key lock) :
    Coherent (s.prune t key lock) := by
  have hlock : (s.stages t).lock? = some lock := by rw [hstage]; rfl
  have hmem : t ∈ s.holders lock := h.held t lock hlock
  have hentry : s.registry key = some lock := h.entry t key lock (by rw [hstage]; rfl)
  refine h.of_stage rfl ?_ (Nat.le_refl _) ?_ nofun nofun (fun _ _ _ _ => id) ?_ fun _ _ _ => id
  · intro key' lock' hlock'
    apply h.fresh key' lock'
    simp only [State.prune] at hlock'
    split at hlock'
    · rcases updated_eq_iff.mp hlock' with ⟨-, ⟨⟩⟩ | ⟨-, hold⟩
      exact hold
    · exact hlock'
  · rintro lock' ⟨⟩
    exact ⟨h.alloc t lock hlock, hmem⟩
  · intro u hne key' lock' _ hother hold
    simp only [State.prune]
    split
    · next hlast =>
        -- Another task attached to the key would be a second reference.
        have hkey : key' ≠ key := by
          rintro rfl
          obtain rfl := Option.some.inj (hold.symm.trans hentry)
          rcases List.length_eq_one_iff.mp hlast with ⟨only, honly⟩
          rw [honly, List.mem_singleton] at hother hmem
          exact hne (hother.trans hmem.symm)
        exact (Function.update_of_ne hkey ..).trans hold
    · exact hold

theorem step {a : Action K T} (h : Coherent s) (hstep : s.step a = some next) : Coherent next := by
  cases a with
  | attach t key =>
    rcases Option.ite_none_right_eq_some.mp hstep with ⟨-, ⟨⟩⟩
    unfold State.attach
    split
    · next lock hlive => exact h.attach_hit (Option.filter_eq_some_iff.mp hlive).1
    · next hdead =>
        apply h.attach_miss
        intro lock hlock
        simpa [hlock] using hdead
  | acquire t =>
    simp only [State.step] at hstep
    split at hstep
    · next key lock hstage =>
        rcases Option.ite_none_right_eq_some.mp hstep with ⟨hfree, ⟨⟩⟩
        refine h.go_on (by rw [hstage]; rfl) rfl ?_ ?_
        · rintro key' lock' ⟨⟩
          exact Function.update_self ..
        · intro u _ lock' howned
          have hne : lock' ≠ lock := by
            rintro rfl
            rw [hfree] at howned
            cases howned
          exact (Function.update_of_ne hne ..).trans howned
    · cases hstep
  | abandon t =>
    simp only [State.step] at hstep
    split at hstep
    · next key lock hstage =>
        cases hstep
        exact h.go_on (by rw [hstage]; rfl) rfl nofun fun _ _ _ => id
    · cases hstep
  | unlock t =>
    simp only [State.step] at hstep
    split at hstep
    · next key lock hstage =>
        cases hstep
        refine h.go_on (by rw [hstage]; rfl) rfl nofun ?_
        intro u hu lock' howned
        have hne : lock' ≠ lock := by
          rintro rfl
          rw [h.owned t key lock' hstage] at howned
          exact hu (Option.some.inj howned).symm
        exact (Function.update_of_ne hne ..).trans howned
    · cases hstep
  | prune t =>
    simp only [State.step] at hstep
    split at hstep
    · next key lock hstage =>
        cases hstep
        exact h.prune hstage
    · cases hstep
  | release t =>
    simp only [State.step] at hstep
    split at hstep
    · next lock hstage =>
        cases hstep
        refine h.of_stage rfl h.fresh (Nat.le_refl _) nofun nofun nofun ?_ (fun _ _ _ _ _ _ => id)
          fun _ _ _ => id
        intro u hne lock' _ hmem
        by_cases hlock : lock' = lock
        · subst hlock
          simpa using (List.mem_erase_of_ne hne).mpr hmem
        · simpa [hlock] using hmem
    · cases hstep

omit [DecidableEq K] [DecidableEq T] in
theorem exclusive {u : T} {lock lock' : Nat} (h : Coherent s)
    (ht : s.stages t = .holding key lock) (hu : s.stages u = .holding key lock') : t = u := by
  have hentry := h.entry t key lock (by rw [ht]; rfl)
  have hentry' := h.entry u key lock' (by rw [hu]; rfl)
  have hlock : lock = lock' := Option.some.inj (hentry.symm.trans hentry')
  have howner := h.owned t key lock ht
  rw [hlock, h.owned u key lock' hu] at howner
  exact (Option.some.inj howner).symm

end Coherent

end Dial9.Lib.LockRegistry
