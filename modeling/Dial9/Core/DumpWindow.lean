/-
# The window of a dump in whole seconds

A dump is asked for from the trigger minus the look-back to the trigger plus the
look-forward. The window that is registered is in seconds: the trigger, the
look-back and the look-forward are each cut to seconds before they are
subtracted and added, so up to a second can be missing at either end. A segment
there has data that was asked for and is not matched. A look-forward that ends
past the last instant gets no window at all.
-/

import Dial9.Core.Dump

namespace Dial9.Core

/-- The instants of a segment's creation and seal, in nanoseconds since the epoch. -/
structure Life where
  createdAt : Nat
  sealedAt : Nat
  ordered : createdAt ≤ sealedAt
  inRange : sealedAt / 10 ^ 9 < 2 ^ 64

namespace DumpRequest

variable {req : DumpRequest} {now elapsed : Nat} {ring : List Span}

/-- The life of the segment meets the interval that was asked for. -/
def Asked (req : DumpRequest) (life : Life) : Prop :=
  (life.createdAt : Int) ≤ req.triggeredAt + req.lookforward ∧
    ∀ nanos, req.lookback = .window nanos → req.triggeredAt - nanos ≤ life.sealedAt

/-- The window meets the seconds in which the segment was created and sealed. -/
def Matched (window : EpochWindow) (life : Life) : Prop :=
  window.overlaps (life.createdAt / 10 ^ 9) (life.sealedAt / 10 ^ 9) = true

/-- The parts of seconds cut off make no difference at either end. -/
structure Whole (req : DumpRequest) : Prop where
  back : ∀ nanos, req.lookback = .window nanos →
    nanos % 10 ^ 9 ≤ req.triggeredAt.toNat % 10 ^ 9 ∨
      req.triggeredAt.toNat / 10 ^ 9 ≤ nanos / 10 ^ 9
  forward : req.triggeredAt.toNat % 10 ^ 9 + req.lookforward % 10 ^ 9 < 10 ^ 9 ∨
    2 ^ 64 - 1 ≤ req.triggeredAt.toNat / 10 ^ 9 + req.lookforward / 10 ^ 9

variable {life : Life}

theorem matched_iff :
    Matched (ActiveDump.registered req now elapsed ring).window life ↔
      life.createdAt / 10 ^ 9 ≤
          saturatingAdd (req.triggeredAt.toNat / 10 ^ 9) (req.lookforward / 10 ^ 9) ∧
        ∀ nanos, req.lookback = .window nanos →
          req.triggeredAt.toNat / 10 ^ 9 - nanos / 10 ^ 9 ≤ life.sealedAt / 10 ^ 9 := by
  unfold Matched ActiveDump.registered EpochWindow.overlaps
  cases hback : req.lookback with
  | unbounded | window _ => simp

/-- The end of the window is not before what was asked for. -/
theorem Whole.createdAt_le (h : Whole req) (hasked : Asked req life) :
    life.createdAt / 10 ^ 9 ≤
      saturatingAdd (req.triggeredAt.toNat / 10 ^ 9) (req.lookforward / 10 ^ 9) := by
  have hend := hasked.1
  have hrange := life.inRange
  have hordered := Nat.div_le_div_right (c := 10 ^ 9) life.ordered
  unfold saturatingAdd
  rcases h.forward with hparts | hlarge
  · omega
  · omega

/-- The start of the window is not after what was asked for. -/
theorem Whole.le_sealedAt (h : Whole req) (hasked : Asked req life) {nanos : Nat}
    (hback : req.lookback = .window nanos) :
    req.triggeredAt.toNat / 10 ^ 9 - nanos / 10 ^ 9 ≤ life.sealedAt / 10 ^ 9 := by
  have hstart := hasked.2 nanos hback
  rcases h.back nanos hback with hparts | hlarge
  · omega
  · omega

theorem registered_covers_iff (htrigger : req.triggeredAt < 2 ^ 63 * 10 ^ 9) :
    (∀ life, Asked req life →
      Matched (ActiveDump.registered req now elapsed ring).window life) ↔ Whole req := by
  constructor
  · intro hcovers
    constructor
    · intro nanos hback
      by_contra hlost
      rw [not_or, Nat.not_le, Nat.not_le] at hlost
      -- A segment of the one instant at which the interval starts.
      let instant := req.triggeredAt.toNat - nanos
      have hmatched := hcovers ⟨instant, instant, Nat.le_refl _, by omega⟩ ⟨?_, ?_⟩
      · have hseal := (matched_iff.mp hmatched).2 nanos hback
        dsimp only [instant] at hseal
        omega
      · show (instant : Int) ≤ req.triggeredAt + req.lookforward
        omega
      · intro nanos' hback'
        cases hback.symm.trans hback'
        show req.triggeredAt - nanos ≤ (instant : Int)
        omega
    · by_contra hlost
      rw [not_or, Nat.not_lt, Nat.not_le] at hlost
      -- A segment of the first instant after the last second of the window.
      let instant :=
        (req.triggeredAt.toNat / 10 ^ 9 + req.lookforward / 10 ^ 9 + 1) * 10 ^ 9
      have hmatched := hcovers ⟨instant, instant, Nat.le_refl _, by omega⟩ ⟨?_, ?_⟩
      · have hcreation := (matched_iff.mp hmatched).1
        unfold saturatingAdd at hcreation
        dsimp only [instant] at hcreation
        omega
      · show (instant : Int) ≤ req.triggeredAt + req.lookforward
        omega
      · intro nanos hback
        show req.triggeredAt - nanos ≤ (instant : Int)
        omega
  · intro hwhole life hasked
    exact matched_iff.mpr
      ⟨hwhole.createdAt_le hasked, fun nanos hback => hwhole.le_sealedAt hasked hback⟩

/-- The request gets a dump, and its window meets every segment that was asked for. -/
def Covers (req : DumpRequest) (now elapsed : Nat) (ring : List Span) : Prop :=
  ∃ dump, ActiveDump.register req now elapsed ring = some dump ∧
    ∀ life, Asked req life → Matched dump.window life

/-- A window covers what was asked for exactly when the look-forward ends at an instant
and no part of a second is lost. -/
theorem register_covers_iff (htrigger : req.triggeredAt < 2 ^ 63 * 10 ^ 9) :
    Covers req now elapsed ring ↔ req.Anchored now elapsed ∧ Whole req := by
  unfold Covers ActiveDump.register
  by_cases hanchored : req.Anchored now elapsed
  · simp only [hanchored, if_true, Option.some.injEq, exists_eq_left', true_and]
    exact registered_covers_iff htrigger
  · simp [hanchored]

/-! ### Parts of a second -/

/-- A trigger in the middle of a second that looks half a second and more ahead. -/
def midSecond : DumpRequest where
  id := 0
  triggeredAt := 10600000000
  lookback := .window 0
  lookforward := 600000000
  metadata := []

/-- A segment of the last tenth of a second that was asked for. -/
def lastTenth : Life := ⟨11100000000, 11150000000, by decide, by decide⟩

/-- It was asked for, and is not matched. -/
theorem midSecond_misses :
    (ActiveDump.register midSecond 0 0 []).isSome = true ∧ ¬ Covers midSecond 0 0 [] := by
  refine ⟨by decide, ?_⟩
  rintro ⟨dump, hdump, hcovers⟩
  obtain rfl := Option.some.inj hdump
  have hmatched := hcovers lastTenth ⟨by decide, by rintro _ ⟨⟩; decide⟩
  exact absurd (matched_iff.mp hmatched).1 (by decide)

/-- A trigger in the middle of a second that looks whole seconds back and ahead. -/
def wholeSeconds : DumpRequest where
  id := 0
  triggeredAt := 10600000000
  lookback := .window 5000000000
  lookforward := 1000000000
  metadata := []

theorem register_covers_wholeSeconds : Covers wholeSeconds 0 0 [] := by
  refine (register_covers_iff (by decide)).mpr ⟨by decide, ?_, .inl (by decide)⟩
  rintro _ ⟨⟩
  exact .inl (by decide)

end DumpRequest

end Dial9.Core
