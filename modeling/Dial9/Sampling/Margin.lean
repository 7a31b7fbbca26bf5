/-
# When a window is complete

A run submits its report until a deadline on its own clock, and a leader assesses
a window once its own clock has passed the closure time. Between the two lie
twice the skew that clocks may have and a part of the window, so that no report
is still on its way. True time is in nanoseconds; timers run in true time.
-/

import Dial9.Sampling.Observation
import Dial9.Sampling.ReportKey

namespace Dial9.Sampling

open Dial9.Lib

/-! ## Arithmetic of 64 bits -/

/-- `u64::checked_add`, or `+` where an overflow ends the program. -/
def addU64 (a b : Nat) : Option Nat := if a + b ≤ u64Max then some (a + b) else none

def mulU64 (a b : Nat) : Option Nat := if a * b ≤ u64Max then some (a * b) else none

def subU64 (a b : Nat) : Option Nat := if b ≤ a then some (a - b) else none

def divU64 (a b : Nat) : Option Nat := if b ≠ 0 then some (a / b) else none

variable {timing : Timing}

namespace Timing

/-- `Timing::new`, each sum and product of which has to fit. -/
def newU64 (config : Config) : Option Timing := do
  let width := config.bucketWidth
  let op := width / 20
  let dispatch := width / 30
  let submission ← addU64 dispatch (← mulU64 3 op)
  some
    { width := width
      poll := ← mulU64 width 5
      operation := op
      dispatch := dispatch
      submission := submission
      closure := ← addU64 (← addU64 submission (← mulU64 2 config.maxClockSkew)) (width / 60)
      age := ← mulU64 width 10 }

/-- `end`, by the operations it makes. -/
def endU64 (timing : Timing) (window : Nat) : Option Nat :=
  (addU64 window 1).bind fun next => mulU64 next timing.width

/-- `completed`, by the operations it makes. -/
def completedU64 (timing : Timing) (now : Nat) : Option Nat :=
  (subU64 now timing.closure).bind fun passed =>
    (divU64 passed timing.width).bind fun windows => subU64 windows 1

theorem newU64_eq {F : Type} [Outside F] {config : Config} (h : config.Valid F) :
    newU64 config = some (new config) := by
  have hwidth := h.width_le
  have hskew := h.skew_lt
  have hmax : u64Max = 18446744073709551615 := rfl
  have htriple : mulU64 3 (config.bucketWidth / 20) = some (3 * (config.bucketWidth / 20)) :=
    if_pos (by omega)
  have hsubmission : addU64 (config.bucketWidth / 30) (3 * (config.bucketWidth / 20)) =
      some (config.bucketWidth / 30 + 3 * (config.bucketWidth / 20)) := if_pos (by omega)
  have hpoll : mulU64 config.bucketWidth 5 = some (config.bucketWidth * 5) := if_pos (by omega)
  have hdouble : mulU64 2 config.maxClockSkew = some (2 * config.maxClockSkew) :=
    if_pos (by omega)
  have hskewed : addU64 (config.bucketWidth / 30 + 3 * (config.bucketWidth / 20))
      (2 * config.maxClockSkew) = some (config.bucketWidth / 30 + 3 * (config.bucketWidth / 20) +
        2 * config.maxClockSkew) := if_pos (by omega)
  have hclosure : addU64 (config.bucketWidth / 30 + 3 * (config.bucketWidth / 20) +
      2 * config.maxClockSkew) (config.bucketWidth / 60) =
        some (config.bucketWidth / 30 + 3 * (config.bucketWidth / 20) + 2 * config.maxClockSkew +
          config.bucketWidth / 60) := if_pos (by omega)
  have hage : mulU64 config.bucketWidth 10 = some (config.bucketWidth * 10) := if_pos (by omega)
  simp only [newU64, htriple, hsubmission, hpoll, hdouble, hskewed, hclosure, hage,
    Option.bind_eq_bind, Option.bind_some]
  rfl

theorem endU64_eq (timing : Timing) (window : Nat) :
    timing.endU64 window = timing.windowEnd window := by
  unfold endU64 windowEnd addU64 mulU64
  by_cases hnext : window + 1 ≤ u64Max
  · rw [if_pos hnext, Option.bind_some]
    simp only [hnext, true_and]
  · rw [if_neg hnext, if_neg fun h => hnext h.1]
    rfl

theorem completedU64_eq (timing : Timing) (now : Nat) :
    timing.completedU64 now = timing.completed now := by
  unfold completedU64 completed subU64 divU64
  by_cases hclosed : timing.closure ≤ now
  · by_cases hwidth : timing.width = 0
    · simp [hclosed, hwidth]
    · simp [hclosed, hwidth, Nat.pos_of_ne_zero hwidth]
  · simp [hclosed]

theorem closed_of_completed {now completed window : Nat}
    (h : timing.completed now = some completed) (hwindow : window ≤ completed) :
    (window + 1) * timing.width + timing.closure ≤ now := by
  unfold Timing.completed at h
  obtain ⟨⟨hclosed, hwidth, hone⟩, hcompleted⟩ := Option.ite_none_right_eq_some.mp h
  have hle : window + 1 ≤ (now - timing.closure) / timing.width := by
    have := Option.some.inj hcompleted
    omega
  have hmul := (Nat.le_div_iff_mul_le hwidth).mp hle
  omega

theorem windowEnd_eq_some {window windowEnd : Nat} (h : timing.windowEnd window = some windowEnd) :
    windowEnd = (window + 1) * timing.width :=
  (Option.some.inj (Option.ite_none_right_eq_some.mp h).2).symm

end Timing

/-! ## Submitting a report -/

/-- `PutOutcome`. -/
inductive PutOutcome
  | stored
  | preconditionFailed
  deriving DecidableEq

/-- A PUT made at an instant of true time, and how the store would answer it, how much later. -/
structure Put where
  asked : Int
  took : Nat
  answer : Except StoreError PutOutcome

/-- A report on its way to the store, until an answer comes or none is waited for any more. -/
structure Submission where
  key : Str
  sent : Int
  ended : Int

/-- `bounded`: what comes first, the answer or the end of the time. -/
def Put.bounded (put : Put) (timeout : Nat) : Int × Except StoreError PutOutcome :=
  if put.took ≤ nanos timeout then (put.asked + put.took, put.answer)
  else (put.asked + nanos timeout, .error ⟨.unavailable, "sampling operation deadline expired"⟩)

/-- The last millisecond before which a report of a window may be submitted. -/
def reportDeadline (timing : Timing) (window : Nat) : Except StoreError Nat :=
  match (timing.windowEnd window).bind fun windowEnd => addU64 windowEnd timing.submission with
  | some deadline => .ok deadline
  | none => .error (invalid "report deadline overflow")

/-- One attempt of `write_report`, by the clock of the run. -/
def attempt (timing : Timing) (key : Str) (deadline : Nat) (clock : Int → SystemTime) (put : Put) :
    Except StoreError (Submission × Except StoreError PutOutcome) :=
  match millis (clock put.asked) with
  | .error e => .error e
  | .ok now =>
    if deadline ≤ now then .error (invalid "report submission deadline expired")
    else
      let result := put.bounded (min timing.operation (deadline - now))
      .ok (⟨key, put.asked, result.1⟩, result.2)

/-- `write_report`, with the PUTs of its two attempts: what it submits, and its result. -/
def writeReport (config : Config) (pool : PoolConfig) (channel : Str) (window rank : UInt64)
    (cutoff : Cutoff) (clock : Int → SystemTime) (first second : Put) :
    List Submission × Except StoreError Unit :=
  let timing := Timing.new config
  let key := reportKey pool channel window rank cutoff
  match reportDeadline timing window.toNat with
  | .error e => ([], .error e)
  | .ok deadline =>
    match attempt timing key deadline clock first with
    | .error e => ([], .error e)
    | .ok (submission, .ok _) => ([submission], .ok ())
    | .ok (submission, .error _) =>
      match attempt timing key deadline clock second with
      | .error e => ([submission], .error e)
      | .ok (again, .ok _) => ([submission, again], .ok ())
      | .ok (again, .error e) => ([submission, again], .error e)

/-! ## The margin -/

/-- A clock that is off by a number of milliseconds at most. -/
def WithinSkew (skew : Nat) (clock : Int → SystemTime) : Prop :=
  ∀ t, t - nanos skew ≤ clock t ∧ clock t ≤ t + nanos skew

variable {config : Config} {clock : Int → SystemTime}

theorem Put.bounded_le (put : Put) (timeout : Nat) :
    (put.bounded timeout).1 ≤ put.asked + nanos timeout := by
  unfold Put.bounded
  split_ifs with h
  · simpa using h
  · exact le_rfl

variable {window skew deadline : Nat}

theorem ended_lt_of_attempt {key : Str} {put : Put}
    (hclock : WithinSkew skew clock) {submission : Submission}
    {answer : Except StoreError PutOutcome}
    (h : attempt timing key deadline clock put = .ok (submission, answer)) :
    submission.sent < nanos (deadline + 1 + skew) ∧
      submission.ended < nanos (deadline + 1 + skew) := by
  unfold attempt at h
  cases hnow : millis (clock put.asked) with
  | error e =>
    rw [hnow] at h
    cases h
  | ok now =>
    rw [hnow] at h
    dsimp only at h
    split_ifs at h with hexpired
    obtain ⟨rfl, -⟩ := Prod.mk.inj (Except.ok.inj h)
    obtain ⟨hpos, rfl, -⟩ := millis_eq_ok hnow
    have hasked := (hclock put.asked).1
    have hended := put.bounded_le (min timing.operation
      (deadline - (clock put.asked).toNat / 1000000))
    have hmin := min_le_right timing.operation (deadline - (clock put.asked).toNat / 1000000)
    simp only [nanos] at *
    constructor <;> omega

theorem reportDeadline_eq_ok (h : reportDeadline timing window = .ok deadline) :
    deadline = (window + 1) * timing.width + timing.submission := by
  unfold reportDeadline at h
  cases hend : timing.windowEnd window with
  | none =>
    rw [hend] at h
    cases h
  | some windowEnd =>
    rw [hend, Option.bind_some] at h
    unfold addU64 at h
    split_ifs at h with hfits
    rw [← Timing.windowEnd_eq_some hend]
    exact (Except.ok.inj h).symm

theorem ended_lt_of_writeReport {pool : PoolConfig} {channel : Str} {window rank : UInt64}
    {cutoff : Cutoff} {first second : Put} (hclock : WithinSkew skew clock)
    {submission : Submission} (h : submission ∈
      (writeReport config pool channel window rank cutoff clock first second).1) :
    submission.sent < nanos ((window.toNat + 1) * (Timing.new config).width +
        (Timing.new config).submission + 1 + skew) ∧
      submission.ended < nanos ((window.toNat + 1) * (Timing.new config).width +
        (Timing.new config).submission + 1 + skew) := by
  unfold writeReport at h
  cases hdeadline : reportDeadline (Timing.new config) window.toNat with
  | error e => simp [hdeadline] at h
  | ok deadline =>
    rw [← reportDeadline_eq_ok hdeadline]
    simp only [hdeadline] at h
    split at h
    · cases h
    · next hfirst =>
        rw [List.mem_singleton] at h
        exact h ▸ ended_lt_of_attempt hclock hfirst
    · next hfirst =>
        split at h
        · rw [List.mem_singleton] at h
          exact h ▸ ended_lt_of_attempt hclock hfirst
        · next hsecond =>
            rcases List.mem_pair.mp h with rfl | rfl
            · exact ended_lt_of_attempt hclock hfirst
            · exact ended_lt_of_attempt hclock hsecond
        · next hsecond =>
            rcases List.mem_pair.mp h with rfl | rfl
            · exact ended_lt_of_attempt hclock hfirst
            · exact ended_lt_of_attempt hclock hsecond

/-- Once a leader finds a window complete, every report of the window that a run of the pool
submitted has been answered or given up, and the times of a valid configuration are what
64 bits make of them. -/
theorem Timing.margin {F : Type} [Outside F] {leader reporter : Config}
    (hvalid : leader.validate F = .ok ()) (hpolicy : Policy.new reporter = Policy.new leader) :
    (∀ (leaderClock clock : Int → SystemTime) (t : Int) (now completed : Nat)
      (pool : PoolConfig) (channel : Str) (window rank : UInt64) (cutoff : Cutoff)
      (first second : Put) (submission : Submission),
      WithinSkew leader.maxClockSkew leaderClock → WithinSkew leader.maxClockSkew clock →
      millis (leaderClock t) = .ok now → (Timing.new leader).completed now = some completed →
      window.toNat ≤ completed →
      submission ∈ (writeReport reporter pool channel window rank cutoff clock first second).1 →
      submission.sent < t ∧ submission.ended < t) ∧
    Timing.newU64 leader = some (Timing.new leader) ∧
    (∀ window, (Timing.new leader).endU64 window = (Timing.new leader).windowEnd window) ∧
    ∀ now, (Timing.new leader).completedU64 now = (Timing.new leader).completed now := by
  have hconfig := Config.valid_of_validate hvalid
  refine ⟨?_, newU64_eq hconfig, endU64_eq _, completedU64_eq _⟩
  intro leaderClock clock t now completed pool channel window rank cutoff first second submission
    hleader hclock hnow hcompleted hwindow hsubmission
  have hclosed := closed_of_completed hcompleted hwindow
  obtain ⟨hsent, hended⟩ := ended_lt_of_writeReport hclock hsubmission
  obtain ⟨hpos, rfl, -⟩ := millis_eq_ok hnow
  have hwidth : reporter.bucketWidth = leader.bucketWidth := congrArg Policy.windowMs hpolicy
  have htrue : t + nanos leader.maxClockSkew ≥ leaderClock t := (hleader t).2
  have hmargin := hconfig.width_pos
  simp only [Timing.new, hwidth, nanos] at *
  constructor <;> omega

theorem withinSkew_add {offset : Int} (hlow : -(nanos skew : Int) ≤ offset)
    (hhigh : offset ≤ nanos skew) : WithinSkew skew fun t => t + offset := by
  intro t
  dsimp only
  constructor
  · omega
  · exact Int.add_le_add_left hhigh t

/-- A report sent half a second before its deadline on a clock five seconds behind, which
the store does not answer. -/
def lateReport : List Submission × Except StoreError Unit :=
  writeReport Observation.smallConfig (demoPool 1) "census".toList 9 5 ⟨some 7⟩
    (fun t => t + -5000000000)
    ⟨615500000000, 9000000000, .ok .stored⟩ ⟨616000000000, 0, .ok .stored⟩

theorem lateReport_eq : lateReport.1 =
    [⟨reportKey (demoPool 1) "census".toList 9 5 ⟨some 7⟩, 615500000000, 616000000000⟩] := by
  unfold lateReport writeReport
  rfl

theorem smallConfig_valid : Observation.smallConfig.validate ℚ = .ok () := by
  rfl

/-- A clock five seconds ahead shows the closure time one second after the report was given up. -/
theorem Timing.margin_minute :
    (615500000000 : Int) < 617000000000 ∧ (616000000000 : Int) < 617000000000 := by
  have hmem : ⟨reportKey (demoPool 1) "census".toList 9 5 ⟨some 7⟩, 615500000000, 616000000000⟩ ∈
      lateReport.1 := by
    rw [lateReport_eq]
    exact List.mem_singleton_self _
  exact (Timing.margin smallConfig_valid rfl).1 (fun t => t + 5000000000)
    (fun t => t + -5000000000) 617000000000 622000 9 (demoPool 1) "census".toList 9 5 ⟨some 7⟩
    ⟨615500000000, 9000000000, .ok .stored⟩ ⟨616000000000, 0, .ok .stored⟩ _
    (withinSkew_add (by decide) (by decide)) (withinSkew_add (by decide) (by decide)) rfl rfl
    (by decide) hmem

end Dial9.Sampling
