/-
# The cache in any order of reads

A process reads its roster from several tasks, and their answers reach the cache
in any order and more than once. Own rosters are compared by epoch, those of other
policies by the time they were written, and the two agree with the order of the
writes: whatever arrives when, the cache ends with the latest write it heard of.
-/

import Dial9.Lib.Register
import Dial9.Sampling.Cache

namespace Dial9.Sampling

open Dial9.Lib

variable {F : Type}

namespace Decoded

def modifiedAt : Decoded F → SystemTime
  | .roster observed => observed.modifiedAt
  | .foreign other => other.modifiedAt

/-- The object that was read, apart from the time an observer puts on it: a process
stamps its own write with its own clock. -/
def object : Decoded F → Option (Roster F) × VersionToken
  | .roster observed => (some observed.roster, observed.version)
  | .foreign other => (none, other.version)

end Decoded

namespace Cache

/-- A cache that was published an observation, or none. -/
def holding : Option (Decoded F) → Cache F
  | none => ⟨none, none⟩
  | some (.roster observed) => ⟨some observed, none⟩
  | some (.foreign foreign) => ⟨none, some foreign⟩

/-- The cache after some reads have been published. -/
def publishAll (cache : Cache F) (deliveries : List (Option (Decoded F))) : Cache F :=
  deliveries.foldl publish cache

theorem publishAll_eq (cache : Cache F) (deliveries : List (Option (Decoded F))) :
    cache.publishAll deliveries =
      deliveries.foldl (listen fun cache incoming => publish cache (some incoming)) cache := by
  unfold publishAll
  congr 1
  funext cache incoming
  cases incoming <;> rfl

theorem holding_injective : Function.Injective (holding (F := F)) := by
  intro a b h
  rcases a with _ | a | a <;> rcases b with _ | b | b <;> cases h <;> rfl

end Cache

variable {W : Type} [LinearOrder W]

/-- Observations of objects that the store was given one after another. -/
structure WriteOrder (written : Decoded F → W) (observations : Set (Decoded F)) : Prop where
  modifiedAt_lt : ∀ a ∈ observations, ∀ b ∈ observations, written a < written b →
    a.modifiedAt < b.modifiedAt
  epoch_lt : ∀ a b, .roster a ∈ observations → .roster b ∈ observations →
    written (.roster a) < written (.roster b) → a.roster.epoch < b.roster.epoch
  object_eq : ∀ a ∈ observations, ∀ b ∈ observations, written a = written b →
    a.object = b.object

namespace Cache

variable {written : Decoded F → W} {observations : Set (Decoded F)}

section Steps

variable (h : WriteOrder written observations) {old incoming : Decoded F}
include h

theorem later_of_modifiedAt_le (hold : old ∈ observations) (hincoming : incoming ∈ observations)
    (hle : incoming.modifiedAt ≤ old.modifiedAt) : Later written (some old) incoming old where
  source := .inr rfl
  incoming_le := by
    by_contra hlt
    have htime := h.modifiedAt_lt old hold incoming hincoming (not_le.mp hlt)
    exact absurd hle htime.not_ge
  held_le := by
    rintro _ ⟨⟩
    exact le_rfl

theorem later_of_modifiedAt_ge (hold : old ∈ observations) (hincoming : incoming ∈ observations)
    (hge : old.modifiedAt ≤ incoming.modifiedAt) : Later written (some old) incoming incoming where
  source := .inl rfl
  incoming_le := le_rfl
  held_le := by
    rintro _ ⟨⟩
    by_contra hlt
    have htime := h.modifiedAt_lt incoming hincoming old hold (not_le.mp hlt)
    exact absurd hge htime.not_ge

/-- Of two own rosters, the epoch and the revision tell which was written last. -/
theorem publish_roster_roster {old incoming : Observed F}
    (hold : .roster old ∈ observations) (hincoming : .roster incoming ∈ observations) :
    ∃ next, publish (holding (some (.roster old))) (some (.roster incoming)) =
      holding (some next) ∧ Later written (some (.roster old)) (.roster incoming) next := by
  by_cases hstale : incoming.roster.epoch < old.roster.epoch ∨
      (incoming.roster.epoch = old.roster.epoch ∧
        incoming.roster.revision ≠ old.roster.revision)
  · refine ⟨.roster old, ?_, .inr rfl, ?_, ?_⟩
    · simp only [publish, holding, Option.any_some, Bool.or_eq_true, decide_eq_true_eq,
        Bool.and_eq_true, beq_iff_eq, bne_iff_ne, if_pos hstale]
    · by_contra hlt
      have hepoch := h.epoch_lt old incoming hold hincoming (not_le.mp hlt)
      omega
    · rintro _ ⟨⟩
      exact le_rfl
  · refine ⟨.roster incoming, ?_, .inl rfl, le_rfl, ?_⟩
    · simp only [publish, holding, Option.any_some, Bool.or_eq_true, decide_eq_true_eq,
        Bool.and_eq_true, beq_iff_eq, bne_iff_ne, if_neg hstale]
    · rintro _ ⟨⟩
      by_contra hlt
      exact hstale (.inl (h.epoch_lt incoming old hincoming hold (not_le.mp hlt)))

theorem publish_roster_foreign {old : Observed F} {incoming : Foreign}
    (hold : .roster old ∈ observations) (hincoming : .foreign incoming ∈ observations) :
    ∃ next, publish (holding (some (.roster old))) (some (.foreign incoming)) =
      holding (some next) ∧ Later written (some (.roster old)) (.foreign incoming) next := by
  by_cases hstale : incoming.modifiedAt < old.modifiedAt
  · refine ⟨.roster old, ?_, later_of_modifiedAt_le h hold hincoming hstale.le⟩
    simp [publish, holding, hstale]
  · refine ⟨.foreign incoming, ?_, later_of_modifiedAt_ge h hold hincoming (not_lt.mp hstale)⟩
    simp [publish, holding, hstale]

theorem publish_foreign_roster {old : Foreign} {incoming : Observed F}
    (hold : .foreign old ∈ observations) (hincoming : .roster incoming ∈ observations) :
    ∃ next, publish (holding (some (.foreign old))) (some (.roster incoming)) =
      holding (some next) ∧ Later written (some (.foreign old)) (.roster incoming) next := by
  by_cases hstale : incoming.modifiedAt ≤ old.modifiedAt
  · refine ⟨.foreign old, ?_, later_of_modifiedAt_le h hold hincoming hstale⟩
    simp [publish, holding, hstale]
  · refine ⟨.roster incoming, ?_, later_of_modifiedAt_ge h hold hincoming (le_of_not_ge hstale)⟩
    simp [publish, holding, hstale]

theorem publish_foreign_foreign {old incoming : Foreign}
    (hold : .foreign old ∈ observations) (hincoming : .foreign incoming ∈ observations) :
    ∃ next, publish (holding (some (.foreign old))) (some (.foreign incoming)) =
      holding (some next) ∧ Later written (some (.foreign old)) (.foreign incoming) next := by
  by_cases hstale : incoming.modifiedAt ≤ old.modifiedAt
  · refine ⟨.foreign old, ?_, later_of_modifiedAt_le h hold hincoming hstale⟩
    simp [publish, holding, hstale]
  · refine ⟨.foreign incoming, ?_, later_of_modifiedAt_ge h hold hincoming (le_of_not_ge hstale)⟩
    simp [publish, holding, hstale]

theorem isRegister_publish :
    IsRegister written observations holding fun cache incoming =>
      publish cache (some incoming) := by
  intro held incoming hheld hincoming
  cases held with
  | none =>
    refine ⟨incoming, ?_, .inl rfl, le_rfl, nofun⟩
    cases incoming <;> rfl
  | some old =>
    have hold := hheld old rfl
    cases old with
    | roster old =>
      cases incoming with
      | roster incoming => exact publish_roster_roster h hold hincoming
      | foreign incoming => exact publish_roster_foreign h hold hincoming
    | foreign old =>
      cases incoming with
      | roster incoming => exact publish_foreign_roster h hold hincoming
      | foreign incoming => exact publish_foreign_foreign h hold hincoming

end Steps

theorem publishAll_holds (h : WriteOrder written observations) {start : Option (Decoded F)}
    {deliveries : List (Option (Decoded F))}
    (hseen : ∀ observation, some observation ∈ start :: deliveries → observation ∈ observations) :
    ∃ held, (holding start).publishAll deliveries = holding held ∧
      Latest written (start :: deliveries) held := by
  rw [publishAll_eq]
  exact (isRegister_publish h).run_latest hseen (latest_singleton start)

/-- Whatever order the reads arrive in, the cache ends with the latest write that was read,
never goes back to an earlier one, and keeps what it holds when nothing is found. -/
theorem publishAll_latest (h : WriteOrder written observations) {start : Option (Decoded F)}
    {deliveries : List (Option (Decoded F))}
    (hseen : ∀ observation, some observation ∈ start :: deliveries → observation ∈ observations) :
    (∀ latest, some latest ∈ start :: deliveries →
      (∀ observation, some observation ∈ start :: deliveries →
        written observation ≤ written latest) →
      ∃ held, some held ∈ start :: deliveries ∧ held.object = latest.object ∧
        (holding start).publishAll deliveries = holding (some held)) ∧
    (∀ earlier later old, deliveries = earlier ++ later →
      (holding start).publishAll earlier = holding (some old) →
      ∃ new, (holding start).publishAll deliveries = holding (some new) ∧
        written old ≤ written new) ∧
    ∀ cache : Cache F, cache.publish none = cache := by
  obtain ⟨last, hlast, hlatest⟩ := publishAll_holds h hseen
  refine ⟨?_, ?_, fun _ => rfl⟩
  · intro latest hmem hmax
    obtain ⟨held, rfl, hle⟩ := hlatest.le latest hmem
    have hheld := hlatest.source.resolve_left (Option.some_ne_none held)
    have hequal := le_antisymm (hmax held hheld) hle
    exact ⟨held, hheld, h.object_eq held (hseen held hheld) latest (hseen latest hmem) hequal,
      hlast⟩
  · rintro earlier later old rfl hearlier
    have hseen' : ∀ observation, some observation ∈ start :: earlier →
        observation ∈ observations := by
      intro observation hobservation
      exact hseen observation (List.mem_append_left later hobservation)
    obtain ⟨held, hholds, hsofar⟩ := publishAll_holds h hseen'
    cases holding_injective (hearlier.symm.trans hholds)
    have hold := hsofar.source.resolve_left (Option.some_ne_none old)
    obtain ⟨new, rfl, hle⟩ := hlatest.le old (List.mem_append_left later hold)
    exact ⟨new, hlast, hle⟩

/-! ## A late answer -/

def minuteConfig : Config where
  invocationId := "01ARZ3NDEKTSV4RRFFQ69G5FAV"
  pool := "cluster=a/"
  target := 15
  overshoot := 12
  pollInterval := 60000
  bucketWidth := 60000
  maxClockSkew := 3000

/-- A roster created ten minutes after the epoch, the one of another policy that replaced
it, and the one that followed. -/
def replaced : Decoded Unit :=
  .roster ⟨.created minuteConfig "01ARZ3NDEKTSV4RRFFQ69G5FAV" "01ARZ3NDEKTSV4RRFFQ69G5FB0" 600000,
    "old", 600 * 10 ^ 9⟩
def between : Decoded Unit := .foreign ⟨"foreign", 900 * 10 ^ 9⟩
def successor : Decoded Unit :=
  .roster ⟨.created minuteConfig "01ARZ3NDEKTSV4RRFFQ69G5FAV" "01ARZ3NDEKTSV4RRFFQ69G5FB1" 1100000,
    "successor", 1100 * 10 ^ 9⟩

theorem writeOrder_successor :
    WriteOrder Decoded.modifiedAt ({replaced, between, successor} : Set (Decoded Unit)) where
  modifiedAt_lt := fun _ _ _ _ hlt => hlt
  epoch_lt := by
    rintro a b (ha | ha | ha) (hb | hb | hb) hlt <;> cases ha <;> cases hb <;>
      first
        | exact absurd hlt (lt_irrefl _)
        | decide
        | exact absurd hlt (by decide)
  object_eq := by
    rintro a (rfl | rfl | rfl) b (rfl | rfl | rfl) heq <;>
      first
        | rfl
        | exact absurd heq (by decide)

theorem publishAll_latest_successor :
    ∃ held : Decoded Unit, held.object = successor.object ∧
      (holding none).publishAll [some successor, none, some replaced, some between] =
        holding (some held) := by
  have hlatest : ∀ observation, some observation ∈ [none, some successor, none, some replaced,
      some between] → observation.modifiedAt ≤ successor.modifiedAt := by
    intro observation hmem
    simp only [List.mem_cons, Option.some.injEq, reduceCtorEq, List.not_mem_nil, or_false,
      false_or] at hmem
    rcases hmem with rfl | rfl | rfl <;> decide
  obtain ⟨held, -, hobject, hholds⟩ :=
    (publishAll_latest writeOrder_successor (by simp)).1 successor (by simp) hlatest
  exact ⟨held, hobject, hholds⟩

end Cache

end Dial9.Sampling
