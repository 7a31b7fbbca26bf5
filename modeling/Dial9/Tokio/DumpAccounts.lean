/-
# What task dumps charge and emit

Every capture is charged for and emitted under its own timestamp at the next poll, and idle
time is charged once, as long as a task that another thread takes up finds the clock past the
last time that was taken for it. A poll that skips its capture and emits nothing leaves frames
behind whose idle time is charged again, so this is about runs in which the poll right after
a capture uses the counter up.
-/

import Dial9.Tokio.TaskDumps
import Mathlib.Order.Interval.Set.Disjoint
import Mathlib.Data.Set.Lattice
import Mathlib.Order.CompletePartialOrder

namespace Dial9.Tokio.TaskDumps

open Dial9.Lib PollSpans

variable {α : Type} {host : Host} {taskId : Nat} {turns : List (Turn α)} {w w' : TaskDumped}

/-- The turn polled its future once more, to capture its frames. -/
def Turn.Captures (turn : Turn α) : Prop := ∃ again, turn.inner = [.pending, again]

/-- The frames that the `n`-th turn left behind. -/
def CapturedAt (turns : List (Turn α)) (n : Nat) (capture : Capture) : Prop :=
  ∃ turn, turns[n]? = some turn ∧ turn.captured = some capture

structure Accounts (host : Host) (taskId : Nat) (turns : List (Turn α)) : Prop where
  /-- A poll returns what its future answered last. -/
  passes : ∀ turn ∈ turns, turn.inner = [turn.result] ∨ turn.inner = [.pending, turn.result]
  /-- A future that returned is not polled again. -/
  finished : ∀ turn ∈ turns.dropLast, turn.result = .pending
  captures : ∀ turn ∈ turns, ∀ capture, turn.captured = some capture → turn.Captures
  /-- No two consecutive polls both capture. -/
  apart : ∀ n first second, turns[n]? = some first → turns[n + 1]? = some second →
    first.Captures → ¬ second.Captures
  charges : ∀ m turn charge, turns[m]? = some turn → turn.charged = some charge →
    turn.start = some charge.till ∧ charge.capturedAt + 1 = m ∧
      ∃ capture, CapturedAt turns charge.capturedAt capture ∧ charge.since = capture.timestamp
  /-- Frames are emitted right after their capture or not at all. -/
  emissions : ∀ m turn emission, turns[m]? = some turn → turn.emitted = some emission →
    emission.capturedAt + 1 = m ∧ ∃ capture, CapturedAt turns emission.capturedAt capture ∧
      emission.dumps = dumpsOf host taskId capture.timestamp emission.on capture.traces

/-! ## One more turn -/

variable {turn : Turn α} {m start last n : Nat} {s : State α}

theorem getElem?_snoc {turn last : Turn α} (h : (turns ++ [last])[m]? = some turn) :
    turns[m]? = some turn ∨ m = turns.length ∧ turn = last := by
  rw [List.getElem?_append] at h
  split at h
  · exact .inl h
  · next hlength =>
      obtain ⟨hlt, hturn⟩ := List.getElem?_eq_some_iff.mp h
      rw [List.length_singleton] at hlt
      exact .inr ⟨by omega, by simpa using hturn.symm⟩

theorem getElem?_snoc_of_some {turn last : Turn α} (h : turns[m]? = some turn) :
    (turns ++ [last])[m]? = some turn := by
  rw [List.getElem?_append_left (List.getElem?_eq_some_iff.mp h).1, h]

theorem lt_length (h : turns[m]? = some turn) : m < turns.length :=
  (List.getElem?_eq_some_iff.mp h).1

theorem CapturedAt.snoc {capture : Capture} (h : CapturedAt turns n capture) (last : Turn α) :
    CapturedAt (turns ++ [last]) n capture := by
  obtain ⟨turn, hturn, hcaptured⟩ := h
  exact ⟨turn, getElem?_snoc_of_some hturn, hcaptured⟩

theorem Accounts.snoc (h : Accounts host taskId turns) {last : Turn α}
    (hpasses : last.inner = [last.result] ∨ last.inner = [.pending, last.result])
    (hfinished : ∀ turn ∈ turns, turn.result = .pending)
    (hcaptures : ∀ capture, last.captured = some capture → last.Captures)
    (hapart : last.Captures → ∀ turn, turns.getLast? = some turn → ¬ turn.Captures)
    (hcharges : ∀ charge, last.charged = some charge →
      last.start = some charge.till ∧ charge.capturedAt + 1 = turns.length ∧
        ∃ capture, CapturedAt turns charge.capturedAt capture ∧ charge.since = capture.timestamp)
    (hemissions : ∀ emission, last.emitted = some emission →
      emission.capturedAt + 1 = turns.length ∧
        ∃ capture, CapturedAt turns emission.capturedAt capture ∧
          emission.dumps = dumpsOf host taskId capture.timestamp emission.on capture.traces) :
    Accounts host taskId (turns ++ [last]) where
  passes := by
    intro turn hturn
    obtain hturn | hturn := List.mem_append.mp hturn
    · exact h.passes turn hturn
    · cases List.mem_singleton.mp hturn
      exact hpasses
  finished := by
    rw [List.dropLast_concat]
    exact hfinished
  captures := by
    intro turn hturn capture hcapture
    obtain hturn | hturn := List.mem_append.mp hturn
    · exact h.captures turn hturn capture hcapture
    · cases List.mem_singleton.mp hturn
      exact hcaptures capture hcapture
  apart := by
    intro n first second hfirst hsecond hbefore hagain
    obtain hsecond | ⟨hn, rfl⟩ := getElem?_snoc hsecond
    · have hlt := lt_length hsecond
      obtain hfirst | ⟨hn, -⟩ := getElem?_snoc hfirst
      · exact h.apart n first second hfirst hsecond hbefore hagain
      · omega
    · obtain hfirst | ⟨hn', -⟩ := getElem?_snoc hfirst
      · apply hapart hagain first _ hbefore
        rw [List.getLast?_eq_getElem?, ← hn, Nat.add_sub_cancel, hfirst]
      · omega
  charges := by
    intro m turn charge hturn hcharge
    obtain hturn | ⟨rfl, rfl⟩ := getElem?_snoc hturn
    · obtain ⟨htill, hkept, capture, hcaptured, hsince⟩ := h.charges m turn charge hturn hcharge
      exact ⟨htill, hkept, capture, hcaptured.snoc last, hsince⟩
    · obtain ⟨htill, hkept, capture, hcaptured, hsince⟩ := hcharges charge hcharge
      exact ⟨htill, hkept, capture, hcaptured.snoc turn, hsince⟩
  emissions := by
    intro m turn emission hturn hemission
    obtain hturn | ⟨rfl, rfl⟩ := getElem?_snoc hturn
    · obtain ⟨hkept, capture, hcaptured, hdumps⟩ := h.emissions m turn emission hturn hemission
      exact ⟨hkept, capture, hcaptured.snoc last, hdumps⟩
    · obtain ⟨hkept, capture, hcaptured, hdumps⟩ := hemissions emission hemission
      exact ⟨hkept, capture, hcaptured.snoc turn, hdumps⟩
/-! ## One poll -/

/-- What the wrapper holds is the same. -/
structure Same (w w' : TaskDumped) : Prop where
  taskId : w'.taskId = w.taskId
  frames : w'.frames = w.frames
  pendingCaptureTs : w'.pendingCaptureTs = w.pendingCaptureTs
  justCaptured : w'.justCaptured = w.justCaptured
  capturedAt : w'.capturedAt = w.capturedAt

theorem same_readConfig (host : Host) (w : TaskDumped) (input : Input α) :
    Same w (w.readConfig host input) := by
  rw [TaskDumped.readConfig]
  split <;> exact ⟨rfl, rfl, rfl, rfl, rfl⟩

theorem same_charge (w : TaskDumped) (start : Nat) : Same w (w.charge start).1 := by
  rw [TaskDumped.charge]
  split
  · split <;> exact ⟨rfl, rfl, rfl, rfl, rfl⟩
  · exact ⟨rfl, rfl, rfl, rfl, rfl⟩

theorem charge_eq_some {charge : Charge} (h : (w.charge start).2 = some charge) :
    w.frames.hasData ∧ w.pendingCaptureTs = some charge.since ∧ charge.capturedAt = w.capturedAt ∧
      charge.till = start := by
  rw [TaskDumped.charge] at h
  split at h
  · next ts hts =>
      split at h
      · next hdata =>
          cases h
          exact ⟨hdata, hts, rfl, rfl⟩
      · cases h
  · cases h

theorem emit_cases (host : Host) (w : TaskDumped) (charged : Option Charge) (on : Nat → Bool) :
    ((w.emit host charged on).2 = none ∧ Same w (w.emit host charged on).1) ∨
      ∃ charge, charged = some charge ∧
        (w.emit host charged on).2 =
          some ⟨w.capturedAt, on, w.frames.emit host w.taskId charge.since on⟩ ∧
        (w.emit host charged on).1.taskId = w.taskId ∧ (w.emit host charged on).1.frames = .new ∧
        (w.emit host charged on).1.justCaptured = w.justCaptured ∧
        (w.emit host charged on).1.capturedAt = w.capturedAt := by
  cases charged with
  | none => exact .inl ⟨rfl, rfl, rfl, rfl, rfl, rfl⟩
  | some charge =>
    rw [TaskDumped.emit]
    split
    · exact .inr ⟨charge, rfl, rfl, rfl, rfl, rfl, rfl⟩
    · exact .inl ⟨rfl, rfl, rfl, rfl, rfl, rfl⟩

/-! ### The counter -/

/-- What leaves the counter is what the turn charges, and when that uses it up the frames are
emitted and a new interval is drawn. -/
def Metered (host : Host) (w w' : TaskDumped) (turn : Turn α) : Prop :=
  let left := w.nextSampleNs - turn.charged.elim 0 fun c => Int64.ofNat (c.till - c.since)
  (turn.emitted.isSome ↔ turn.charged.isSome ∧ left ≤ 0) ∧ w'.nextSampleNs =
    if turn.emitted.isSome then (drawExponential host w.rng w.sampleMeanNs).1 else left

theorem charge_counter (w : TaskDumped) (start : Nat) :
    (w.charge start).1.nextSampleNs =
        w.nextSampleNs - (w.charge start).2.elim 0 (fun c => Int64.ofNat (c.till - c.since)) ∧
      (w.charge start).1.rng = w.rng ∧ (w.charge start).1.sampleMeanNs = w.sampleMeanNs := by
  unfold TaskDumped.charge
  split
  · split
    · exact ⟨rfl, rfl, rfl⟩
    · exact ⟨(Int64.sub_zero _).symm, rfl, rfl⟩
  · exact ⟨(Int64.sub_zero _).symm, rfl, rfl⟩

theorem emit_counter (host : Host) (w : TaskDumped) (charged : Option Charge) (on : Nat → Bool) :
    ((w.emit host charged on).2.isSome ↔ charged.isSome ∧ w.nextSampleNs ≤ 0) ∧
      (w.emit host charged on).1.nextSampleNs = if (w.emit host charged on).2.isSome then
        (drawExponential host w.rng w.sampleMeanNs).1 else w.nextSampleNs := by
  cases charged with
  | none => simp [TaskDumped.emit]
  | some charge =>
    by_cases hused : w.nextSampleNs ≤ 0
    · simp [TaskDumped.emit, hused]
    · simp [TaskDumped.emit, hused]

theorem settle_counter (w : TaskDumped) (charged : Option Charge) (emitted : Option Emission)
    (input : Input α) :
    (w.settle n last start charged emitted input).1.nextSampleNs = w.nextSampleNs ∧
      (w.settle n last start charged emitted input).2.2.charged = charged ∧
      (w.settle n last start charged emitted input).2.2.emitted = emitted := by
  unfold TaskDumped.settle
  split
  · exact ⟨rfl, rfl, rfl⟩
  · split
    · exact ⟨rfl, rfl, rfl⟩
    · split
      · exact ⟨rfl, rfl, rfl⟩
      · exact ⟨rfl, rfl, rfl⟩

theorem metered_poll (host : Host) (w : TaskDumped) (n last : Nat) (input : Input α) :
    Metered host (w.readConfig host input) (w.poll host n last input).1
      (w.poll host n last input).2.2 := by
  rw [TaskDumped.poll]
  generalize w.readConfig host input = w
  dsimp only
  split
  · simp [Metered, TaskDumped.passOn]
  · generalize pollStartTsMonotonic last input.startTs input.startClock = start
    obtain ⟨hleft, hrng, hmean⟩ := charge_counter w start
    have hemit := emit_counter host (w.charge start).1 (w.charge start).2 input.emitOn
    rw [hleft, hrng, hmean] at hemit
    rw [Metered]
    simp only [settle_counter]
    exact hemit

/-- What a poll took from the counter, in a run. -/
def Counts (host : Host) (s : State α) : Event α → Prop
  | .poll input => ∀ next, s.step host (.poll input) = some next →
      ∃ turn, next.turns = s.turns ++ [turn] ∧
        Metered host (s.wrapper.readConfig host input) next.wrapper turn
  | .stamp _ _ _ => True

theorem counts (host : Host) (s : State α) (event : Event α) : Counts host s event := by
  cases event with
  | stamp _ _ _ => trivial
  | poll input =>
    intro next hnext
    obtain ⟨-, hnext⟩ := Option.ite_none_right_eq_some.mp hnext
    cases hnext
    exact ⟨_, rfl, metered_poll host s.wrapper _ _ input⟩

/-! ### Frames -/

/-- What the wrapper holds between two polls: the frames of a turn that has been kept, and whether
the last turn was the capture. -/
structure Holding (turns : List (Turn α)) (w : TaskDumped) : Prop where
  frames : w.frames.hasData → ∃ capture, CapturedAt turns w.capturedAt capture ∧
    w.frames = .capture capture.traces ∧ w.pendingCaptureTs = some capture.timestamp ∧
      w.capturedAt + 1 = turns.length
  just : w.justCaptured → (∀ turn ∈ turns, turn.result = .pending) →
    w.capturedAt + 1 = turns.length
  notJust : w.justCaptured = false → ∀ turn, turns.getLast? = some turn → turn.result = .pending →
    ¬ turn.Captures

theorem Holding.same (h : Holding turns w) (hsame : Same w w') : Holding turns w' where
  frames := by
    rw [hsame.frames, hsame.pendingCaptureTs, hsame.capturedAt]
    exact h.frames
  just := by
    rw [hsame.justCaptured, hsame.capturedAt]
    exact h.just
  notJust := by
    rw [hsame.justCaptured]
    exact h.notJust

theorem Holding.drop (h : Holding turns w) (hframes : w'.frames = .new)
    (hjust : w'.justCaptured = w.justCaptured) (hat : w'.capturedAt = w.capturedAt) :
    Holding turns w' where
  frames hdata := by
    rw [hframes] at hdata
    cases hdata
  just := by
    rw [hjust, hat]
    exact h.just
  notJust := by
    rw [hjust]
    exact h.notJust

theorem holding_snoc_of_not {last : Turn α}
    (hjust : w.justCaptured = false ∨ ∃ value, last.result = .ready value)
    (hlast : last.result = .pending → ¬ last.Captures) (hframes : w.frames.hasData = false) :
    Holding (turns ++ [last]) w where
  frames hdata := by simp [hframes] at hdata
  just h hpending := by
    have hlast := hpending last (List.mem_append_right _ List.mem_cons_self)
    obtain hjust | ⟨value, hvalue⟩ := hjust
    · simp [hjust] at h
    · cases hlast.symm.trans hvalue
  notJust _ turn hturn hpending := by
    rw [List.getLast?_concat, Option.some.injEq] at hturn
    subst hturn
    exact hlast hpending

/-- What holds of the turns so far and the wrapper. -/
structure Tracked (host : Host) (taskId : Nat) (turns : List (Turn α)) (w : TaskDumped) : Prop where
  accounts : Accounts host taskId turns
  holding : Holding turns w
  task : w.taskId = taskId

/-- The charge is for frames that are still there. -/
def Charged (turns : List (Turn α)) (start : Nat) (charged : Option Charge) : Prop :=
  ∀ charge, charged = some charge → charge.till = start ∧ charge.capturedAt + 1 = turns.length ∧
    ∃ capture, CapturedAt turns charge.capturedAt capture ∧ charge.since = capture.timestamp

/-- What is emitted are frames that are still there. -/
def Emitted (host : Host) (taskId : Nat) (turns : List (Turn α)) (emitted : Option Emission) :
    Prop :=
  ∀ emission, emitted = some emission → emission.capturedAt + 1 = turns.length ∧
    ∃ capture, CapturedAt turns emission.capturedAt capture ∧
      emission.dumps = dumpsOf host taskId capture.timestamp emission.on capture.traces

theorem Holding.charged (h : Holding turns w) (start : Nat) :
    Charged turns start (w.charge start).2 := by
  intro charge hcharge
  obtain ⟨hdata, hts, hat, htill⟩ := charge_eq_some hcharge
  obtain ⟨capture, hcaptured, -, hts', hkept⟩ := h.frames hdata
  rw [hat]
  exact ⟨htill, hkept, capture, hcaptured, Option.some.inj (hts.symm.trans hts')⟩

theorem Holding.emitted (h : Holding turns w) (host : Host) (start : Nat) (on : Nat → Bool) :
    Emitted host w.taskId turns ((w.charge start).1.emit host (w.charge start).2 on).2 := by
  intro emission hemission
  have hsame := same_charge w start
  obtain ⟨hnone, -⟩ | ⟨charge, hcharge, hsome, -⟩ :=
    emit_cases host (w.charge start).1 (w.charge start).2 on
  · cases hnone.symm.trans hemission
  · obtain ⟨hdata, hts, -, -⟩ := charge_eq_some hcharge
    obtain ⟨capture, hcaptured, hbuf, hts', hkept⟩ := h.frames hdata
    obtain rfl := Option.some.inj (hemission.symm.trans hsome)
    rw [hsame.capturedAt]
    refine ⟨hkept, capture, hcaptured, ?_⟩
    rw [hsame.frames, hbuf, emit_capture, hsame.taskId, Option.some.inj (hts.symm.trans hts')]

theorem nonZero_pollStartTsMonotonic (last clock : Nat) (pollStartTs : Option Nat) :
    nonZero (pollStartTsMonotonic last pollStartTs clock) =
      some (pollStartTsMonotonic last pollStartTs clock) := by
  have hpos : last + 1 ≤ pollStartTsMonotonic last pollStartTs clock := Nat.le_max_left _ _
  rw [nonZero, if_neg (by omega)]

theorem not_captures_single {answer : Poll α} (h : turn.inner = [answer]) : ¬ turn.Captures := by
  intro hcaptures
  obtain ⟨again, hagain⟩ := hcaptures
  simp [h] at hagain

theorem Accounts.settle (h : Accounts host taskId turns)
    (hpending : ∀ turn ∈ turns, turn.result = .pending) (hholding : Holding turns w)
    (htask : w.taskId = taskId) {charged : Option Charge} {emitted : Option Emission}
    (hcharged : Charged turns start charged) (hemitted : Emitted host taskId turns emitted)
    (input : Input α)
    (hgone : w.justCaptured = true → input.first = .pending → w.frames.hasData = false) :
    Tracked host taskId
      (turns ++ [(w.settle turns.length last start charged emitted input).2.2])
      (w.settle turns.length last start charged emitted input).1 := by
  have hcharges (charge : Charge) (hcharge : charged = some charge) :
      some start = some charge.till ∧ charge.capturedAt + 1 = turns.length ∧
        ∃ capture,
          CapturedAt turns charge.capturedAt capture ∧ charge.since = capture.timestamp := by
    obtain ⟨htill, hkept⟩ := hcharged charge hcharge
    exact ⟨htill ▸ rfl, hkept⟩
  have hapart (hjust : w.justCaptured = false) (turn : Turn α)
      (hturn : turns.getLast? = some turn) :
      ¬ turn.Captures :=
    hholding.notJust hjust turn hturn (hpending turn (List.mem_of_getLast? hturn))
  cases hfirst : input.first with
  | ready value =>
    simp only [TaskDumped.settle, hfirst]
    refine ⟨h.snoc (.inl rfl) hpending (by simp) ?_ hcharges hemitted, ?_, htask⟩
    · exact fun hcaptures => absurd hcaptures (not_captures_single rfl)
    · exact holding_snoc_of_not (.inr ⟨value, rfl⟩) nofun rfl
  | pending =>
    cases hjust : w.justCaptured with
    | true =>
      simp only [TaskDumped.settle, hfirst, hjust, if_true]
      refine ⟨h.snoc (.inl rfl) hpending (by simp) ?_ hcharges hemitted, ?_, htask⟩
      · exact fun hcaptures => absurd hcaptures (not_captures_single rfl)
      · exact holding_snoc_of_not (.inl rfl) (fun _ => not_captures_single rfl) (hgone hjust hfirst)
    | false =>
      cases hsecond : input.second with
      | ready value =>
        simp only [TaskDumped.settle, hfirst, hjust, hsecond, Bool.false_eq_true, if_false]
        refine ⟨h.snoc (.inr rfl) hpending (by simp) ?_ hcharges hemitted, ?_, htask⟩
        · exact fun _ => hapart hjust
        · exact holding_snoc_of_not (.inl rfl) nofun rfl
      | pending =>
        simp only [TaskDumped.settle, hfirst, hjust, hsecond, Bool.false_eq_true, if_false]
        refine ⟨h.snoc (.inr rfl) hpending (fun _ _ => ⟨_, rfl⟩) ?_ hcharges hemitted, ?_,
          htask⟩
        · exact fun _ => hapart hjust
        · exact {
            frames := fun _ =>
              ⟨_, ⟨_, List.getElem?_concat_length, rfl⟩, rfl,
                nonZero_pollStartTsMonotonic _ _ _, by simp⟩
            just := by simp
            notJust := by simp }

/-- The poll right after a capture uses the counter up, if it is pending and there are frames. -/
def UsesUp (host : Host) (s : State α) : Event α → Prop
  | .poll input =>
    let w := s.wrapper.readConfig host input
    let start := pollStartTsMonotonic (s.lastTs input.thread) input.startTs input.startClock
    w.enabled = some true → input.recording = true → w.justCaptured = true →
      w.frames.hasData = true → input.first = .pending →
        ∀ ts ∈ w.pendingCaptureTs, w.nextSampleNs - Int64.ofNat (start - ts) ≤ 0
  | .stamp _ _ _ => True

instance [DecidableEq α] (host : Host) (s : State α) (event : Event α) :
    Decidable (UsesUp host s event) := by
  unfold UsesUp
  split <;> infer_instance

theorem Tracked.poll (h : Tracked host taskId s.turns s.wrapper) {input : Input α}
    (hpending : ∀ turn ∈ s.turns, turn.result = .pending) (huses : UsesUp host s (.poll input)) :
    Tracked host taskId
      (s.turns ++ [(s.wrapper.poll host s.turns.length (s.lastTs input.thread) input).2.2])
      (s.wrapper.poll host s.turns.length (s.lastTs input.thread) input).1 := by
  have hread := same_readConfig host s.wrapper input
  have hholding := h.holding.same hread
  have htask := hread.taskId.trans h.task
  rw [UsesUp] at huses
  rw [TaskDumped.poll]
  generalize s.wrapper.readConfig host input = w at hholding htask huses
  dsimp only at huses ⊢
  generalize pollStartTsMonotonic _ input.startTs input.startClock = start at huses ⊢
  split
  · refine ⟨h.accounts.snoc (.inl rfl) hpending (by simp [TaskDumped.passOn]) ?_ nofun nofun, ?_,
      htask⟩
    · exact fun hcaptures => absurd hcaptures (not_captures_single rfl)
    · exact holding_snoc_of_not (.inl rfl) (fun _ => not_captures_single rfl) rfl
  · next hon =>
      rw [not_or, not_not, Bool.not_eq_false] at hon
      have hsame := same_charge w start
      have hemitted := hholding.emitted host start input.emitOn
      rw [htask] at hemitted
      obtain ⟨hnone, hkept⟩ | ⟨charge, -, hsome, htask', hframes, hjust, hat⟩ :=
        emit_cases host (w.charge start).1 (w.charge start).2 input.emitOn
      · apply h.accounts.settle hpending ((hholding.same hsame).same hkept)
          (hkept.taskId.trans (hsame.taskId.trans htask)) (hholding.charged start) hemitted
        -- Frames of the last turn are emitted, as the counter is used up.
        rw [hkept.justCaptured, hkept.frames, hsame.justCaptured, hsame.frames]
        intro hjust hfirst
        by_contra hdata
        rw [Bool.not_eq_false] at hdata
        obtain ⟨capture, -, -, hts, -⟩ := hholding.frames hdata
        have hused := huses hon.1 hon.2 hjust hdata hfirst _ hts
        have hsome := (emit_counter host (w.charge start).1 (w.charge start).2 input.emitOn).1.mpr
          (by simp [TaskDumped.charge, hts, hdata, hused])
        rw [hnone] at hsome
        cases hsome
      · apply h.accounts.settle hpending ((hholding.same hsame).drop hframes hjust hat)
          (htask'.trans (hsame.taskId.trans htask)) (hholding.charged start) hemitted
        simp [hframes, FrameBuf.new, FrameBuf.hasData]

/-! ## Timestamps -/

theorem pollStartTsMonotonic_gt (last clock : Nat) (pollStartTs : Option Nat) :
    last < pollStartTsMonotonic last pollStartTs clock := Nat.le_max_left _ _

/-- The timestamps that a poll took, where `LAST_TS` is `last` after it. -/
structure Times (start last : Nat) (turn : Turn α) : Prop where
  started : turn.start = some start
  below : start ≤ last
  captured : ∀ capture, turn.captured = some capture →
    start < capture.timestamp ∧ capture.timestamp ≤ last

theorem Times.stamp (h : Times start last turn) :
    ∃ stamp, turn.stamp = some stamp ∧ start ≤ stamp ∧ stamp ≤ last := by
  rw [Turn.stamp, h.started]
  cases hcaptured : turn.captured with
  | none => exact ⟨start, rfl, Nat.le_refl _, h.below⟩
  | some capture =>
    obtain ⟨hlt, hle⟩ := h.captured capture hcaptured
    exact ⟨capture.timestamp, rfl, hlt.le, hle⟩

theorem settle_times (w : TaskDumped) (n : Nat) (hlast : start ≤ last) (charged : Option Charge)
    (emitted : Option Emission) (input : Input α) :
    Times start (w.settle n last start charged emitted input).2.1
      (w.settle n last start charged emitted input).2.2 := by
  cases hfirst : input.first with
  | ready value =>
    simp only [TaskDumped.settle, hfirst]
    exact ⟨rfl, hlast, by simp⟩
  | pending =>
    cases hjust : w.justCaptured with
    | true =>
      simp only [TaskDumped.settle, hfirst, hjust, if_true]
      exact ⟨rfl, hlast, by simp⟩
    | false =>
      cases hsecond : input.second with
      | ready value =>
        simp only [TaskDumped.settle, hfirst, hjust, hsecond, Bool.false_eq_true, if_false]
        exact ⟨rfl, hlast, by simp⟩
      | pending =>
        simp only [TaskDumped.settle, hfirst, hjust, hsecond, Bool.false_eq_true, if_false]
        have hlater := pollStartTsMonotonic_gt last input.captureClock input.captureTs
        refine ⟨rfl, by omega, ?_⟩
        intro capture hcapture
        cases hcapture
        exact ⟨Nat.lt_of_le_of_lt hlast hlater, Nat.le_refl _⟩

theorem poll_times (host : Host) (w : TaskDumped) (n last : Nat) (input : Input α) :
    ((w.poll host n last input).2.2.start = none ∧ (w.poll host n last input).2.2.captured = none ∧
        last ≤ (w.poll host n last input).2.1) ∨
      Times (pollStartTsMonotonic last input.startTs input.startClock)
        (w.poll host n last input).2.1 (w.poll host n last input).2.2 := by
  rw [TaskDumped.poll]
  generalize w.readConfig host input = w
  split
  · exact .inl ⟨rfl, rfl, Nat.le_add_right _ _⟩
  · exact .inr (settle_times _ n (Nat.le_add_right _ _) _ _ input)

/-- A task that another thread takes up finds the clock there past the last time that was taken
for it. -/
def InTime (s : State α) : Event α → Prop
  | .poll input => ∀ thread ∈ s.thread, thread ≠ input.thread →
      s.latest < input.startTs.getD input.startClock
  | .stamp _ _ _ => True

structure Timely (s : State α) : Prop where
  fresh : s.thread = none → s.latest = 0
  last : ∀ thread ∈ s.thread, s.latest ≤ s.lastTs thread
  starts : ∀ turn ∈ s.turns, ∀ start ∈ turn.start, start ≤ s.latest
  ordered : s.turns.Pairwise fun earlier later =>
    ∀ start ∈ earlier.start, ∀ start' ∈ later.start, start < start'
  captured : ∀ turn ∈ s.turns, ∀ capture ∈ turn.captured,
    ∃ start ∈ turn.start, start < capture.timestamp

theorem timely_new (taskId : Nat) : Timely (.new taskId : State α) where
  fresh _ := rfl
  last := by simp [State.new]
  starts := by simp [State.new]
  ordered := .nil
  captured := by simp [State.new]

variable {input : Input α} {events : List (Event α)}

theorem Timely.start_gt (h : Timely s) (hintime : InTime s (.poll input)) :
    s.latest < pollStartTsMonotonic (s.lastTs input.thread) input.startTs input.startClock := by
  have hlater := pollStartTsMonotonic_gt (s.lastTs input.thread) input.startClock input.startTs
  cases hthread : s.thread with
  | none =>
    have hfresh := h.fresh hthread
    omega
  | some thread =>
    by_cases hsame : thread = input.thread
    · have hlast := h.last thread hthread
      rw [hsame] at hlast
      omega
    · exact Nat.lt_of_lt_of_le (hintime thread hthread hsame) (Nat.le_max_right _ _)

theorem Timely.untimed (h : Timely s) {wrapper : TaskDumped} (hstart : turn.start = none)
    (hcaptured : turn.captured = none) (hlast : s.lastTs input.thread ≤ last) :
    Timely { s with
      wrapper
      lastTs := Function.update s.lastTs input.thread last
      turns := s.turns ++ [turn] } where
  fresh := h.fresh
  last thread hthread := by
    have hbefore := h.last thread hthread
    change s.latest ≤ Function.update s.lastTs input.thread last thread
    rw [Function.update_apply]
    split
    · next heq =>
        rw [heq] at hbefore
        exact hbefore.trans hlast
    · exact hbefore
  starts := by
    intro turn' hturn start hmem
    obtain hturn | hturn := List.mem_append.mp hturn
    · exact h.starts turn' hturn start hmem
    · cases List.mem_singleton.mp hturn
      simp [hstart] at hmem
  ordered := by
    refine List.pairwise_append.mpr ⟨h.ordered, List.pairwise_singleton _ _, ?_⟩
    intro earlier _ later hlater start _ start' hstart'
    cases List.mem_singleton.mp hlater
    simp [hstart] at hstart'
  captured := by
    intro turn' hturn capture hmem
    obtain hturn | hturn := List.mem_append.mp hturn
    · exact h.captured turn' hturn capture hmem
    · cases List.mem_singleton.mp hturn
      simp [hcaptured] at hmem

theorem Timely.timed (h : Timely s) {wrapper : TaskDumped} {start stamp last : Nat}
    (htimes : Times start last turn) (hstart : s.latest < start) (hstamp : start ≤ stamp)
    (hlast : stamp ≤ last) :
    Timely { s with
      wrapper
      lastTs := Function.update s.lastTs input.thread last
      thread := some input.thread
      latest := stamp
      turns := s.turns ++ [turn] } where
  fresh hnone := by cases hnone
  last thread hthread := by
    cases hthread
    change stamp ≤ Function.update s.lastTs input.thread last input.thread
    rw [Function.update_self]
    exact hlast
  starts := by
    intro turn' hturn start' hmem
    obtain hturn | hturn := List.mem_append.mp hturn
    · have hbefore := h.starts turn' hturn start' hmem
      change start' ≤ stamp
      omega
    · cases List.mem_singleton.mp hturn
      cases htimes.started.symm.trans hmem
      exact hstamp
  ordered := by
    refine List.pairwise_append.mpr ⟨h.ordered, List.pairwise_singleton _ _, ?_⟩
    intro earlier hearlier later hlater start₁ hstart₁ start₂ hstart₂
    cases List.mem_singleton.mp hlater
    cases htimes.started.symm.trans hstart₂
    exact Nat.lt_of_le_of_lt (h.starts earlier hearlier start₁ hstart₁) hstart
  captured := by
    intro turn' hturn capture hmem
    obtain hturn | hturn := List.mem_append.mp hturn
    · exact h.captured turn' hturn capture hmem
    · cases List.mem_singleton.mp hturn
      exact ⟨start, htimes.started, (htimes.captured capture hmem).1⟩

theorem Timely.stamp (h : Timely s) (thread clock : Nat) (pollStartTs : Option Nat) :
    Timely { s with
      lastTs := Function.update s.lastTs thread
        (pollStartTsMonotonic (s.lastTs thread) pollStartTs clock) } where
  fresh := h.fresh
  last other hother := by
    have hlast := h.last other hother
    have hlater := pollStartTsMonotonic_gt (s.lastTs thread) clock pollStartTs
    change s.latest ≤ Function.update s.lastTs thread _ other
    rw [Function.update_apply]
    split
    · next heq =>
        rw [heq] at hlast
        omega
    · exact hlast
  starts := h.starts
  ordered := h.ordered
  captured := h.captured

theorem Timely.step {s next : State α} (h : Timely s) {event : Event α} (hintime : InTime s event)
    (hnext : s.step host event = some next) : Timely next := by
  cases event with
  | stamp thread pollStartTs clock =>
    cases hnext
    exact h.stamp thread clock pollStartTs
  | poll input =>
    simp only [State.step] at hnext
    split at hnext
    · have hstart := h.start_gt hintime
      have htimes := poll_times host s.wrapper s.turns.length (s.lastTs input.thread) input
      generalize s.wrapper.poll host s.turns.length (s.lastTs input.thread) input = polled
        at hnext htimes
      obtain ⟨wrapper, last, turn⟩ := polled
      cases hnext
      obtain ⟨hnone, hcaptured, hlast⟩ | htimes := htimes
      · have hstamp : turn.stamp = none := by
          rw [Turn.stamp, show turn.captured = none from hcaptured]
          exact hnone
        simp only [hstamp, show turn.start = none from hnone]
        exact h.untimed hnone hcaptured hlast
      · obtain ⟨stamp, hstamp, hle, hlast⟩ := htimes.stamp
        simp only [show turn.stamp = some stamp from hstamp,
          show turn.start = _ from htimes.started]
        exact h.timed htimes hstart hle hlast
    · cases hnext

/-! ## Whole runs -/

theorem all_pending (h : Accounts host taskId s.turns) (hpending : s.isPending) :
    ∀ turn ∈ s.turns, turn.result = .pending := by
  intro turn hturn
  cases hlast : s.turns.getLast? with
  | none =>
    rw [List.getLast?_eq_none_iff] at hlast
    simp [hlast] at hturn
  | some last =>
    have hresult : last.result = .pending := by
      cases hanswer : last.result with
      | ready value => simp [State.isPending, hlast, hanswer] at hpending
      | pending => rfl
    obtain ⟨earlier, heq⟩ := List.getLast?_eq_some_iff.mp hlast
    rw [heq] at hturn
    obtain hturn | hturn := List.mem_append.mp hturn
    · apply h.finished
      rw [heq, List.dropLast_concat]
      exact hturn
    · exact List.mem_singleton.mp hturn ▸ hresult

/-- What holds of a run at any time. -/
def Tracks (host : Host) (taskId : Nat) (s : State α) : Prop :=
  Tracked host taskId s.turns s.wrapper

theorem Tracks.step {s next : State α} (h : Tracks host taskId s) {event : Event α}
    (huses : UsesUp host s event) (hnext : s.step host event = some next) :
    Tracks host taskId next := by
  cases event with
  | stamp thread pollStartTs clock =>
    cases hnext
    exact h
  | poll input =>
    simp only [State.step] at hnext
    split at hnext
    · next hpending =>
        cases hnext
        exact h.poll (all_pending h.accounts hpending) huses
    · cases hnext

theorem tracks_new (host : Host) (taskId : Nat) : Tracks host taskId (.new taskId : State α) where
  accounts :=
    { passes := by simp [State.new]
      finished := by simp [State.new]
      captures := by simp [State.new]
      apart := by simp [State.new]
      charges := by simp [State.new]
      emissions := by simp [State.new] }
  holding :=
    { frames := by simp [State.new, TaskDumped.new, FrameBuf.new, FrameBuf.hasData]
      just := by simp [State.new, TaskDumped.new]
      notJust := by simp [State.new] }
  task := rfl

section

variable (hrun : run (State.step host) (.new taskId) events = some s)
include hrun

theorem tracks_run (huses : Along (State.step host) (UsesUp host) (.new taskId) events) :
    Tracks host taskId s :=
  run_invariant (fun _ _ _ htracks huses hnext => htracks.step huses hnext)
    (tracks_new host taskId) huses hrun

theorem timely_run (hintime : Along (State.step host) InTime (.new taskId) events) : Timely s :=
  run_invariant (fun _ _ _ htimely hevent hnext => htimely.step hevent hnext) (timely_new taskId)
    hintime hrun

end

/-- On one thread nothing is assumed of the clock. -/
theorem inTime_of_thread {thread : Nat}
    (hevents : ∀ input, .poll input ∈ events → input.thread = thread)
    (hs : ∀ other ∈ s.thread, other = thread) : Along (State.step host) InTime s events := by
  induction events generalizing s with
  | nil => trivial
  | cons event events ih =>
    have hrest := fun input hinput => hevents input (List.mem_cons_of_mem _ hinput)
    cases event with
    | stamp other pollStartTs clock =>
      refine ⟨trivial, fun next hnext => ?_⟩
      cases hnext
      exact ih hrest hs
    | poll input =>
      have hthread := hevents input List.mem_cons_self
      refine ⟨fun other hother hne => absurd ((hs other hother).trans hthread.symm) hne, ?_⟩
      intro next hnext
      simp only [State.step] at hnext
      split at hnext
      · cases hnext
        apply ih hrest
        intro other hother
        simp only at hother
        split at hother
        · cases hother
          exact hthread
        · exact hs other hother
      · cases hnext

theorem Timely.start_lt (h : Timely s) {n m start start' : Nat} {turn turn' : Turn α}
    (hn : s.turns[n]? = some turn) (hm : s.turns[m]? = some turn') (hlt : n < m)
    (hstart : turn.start = some start) (hstart' : turn'.start = some start') : start < start' := by
  obtain ⟨hn', rfl⟩ := List.getElem?_eq_some_iff.mp hn
  obtain ⟨hm', rfl⟩ := List.getElem?_eq_some_iff.mp hm
  exact List.pairwise_iff_getElem.mp h.ordered n m hn' hm' hlt start hstart start' hstart'

theorem Accounts.till_lt_since (h : Accounts host taskId s.turns) (ht : Timely s) {m m' : Nat}
    {turn turn' : Turn α} {charge charge' : Charge} (hturn : s.turns[m]? = some turn)
    (hturn' : s.turns[m']? = some turn') (hcharge : turn.charged = some charge)
    (hcharge' : turn'.charged = some charge') (hlt : m < m') : charge.till < charge'.since := by
  obtain ⟨htill, -, -⟩ := h.charges m turn charge hturn hcharge
  obtain ⟨-, hkept, capture, ⟨second, hsecond, hcaptured⟩, hsince⟩ :=
    h.charges m' turn' charge' hturn' hcharge'
  obtain ⟨start, hstart, hbefore⟩ :=
    ht.captured second (List.mem_of_getElem? hsecond) capture hcaptured
  have hle : charge.till ≤ start := by
    obtain heq | hlt := Nat.eq_or_lt_of_le (show m ≤ charge'.capturedAt by omega)
    · rw [heq, hsecond] at hturn
      cases hturn
      exact (Option.some.inj (htill.symm.trans hstart)).le
    · exact (ht.start_lt hturn hsecond hlt htill hstart).le
  omega

/-- Idle time is charged once, and contains no poll but the one that charges it. -/
structure ChargedOnce (turns : List (Turn α)) : Prop where
  disjoint : ∀ (m m' : Nat) (turn turn' : Turn α) (charge charge' : Charge), m ≠ m' →
    turns[m]? = some turn → turns[m']? = some turn' → turn.charged = some charge →
      turn'.charged = some charge' →
        Disjoint (Set.Icc charge.since charge.till) (Set.Icc charge'.since charge'.till)
  inside : ∀ (m k start : Nat) (turn other : Turn α) (charge : Charge), turns[m]? = some turn →
    turn.charged = some charge → turns[k]? = some other → other.start = some start →
      start ∈ Set.Icc charge.since charge.till → k = m

theorem Accounts.polls_inside (h : Accounts host taskId s.turns) (ht : Timely s) {m k start : Nat}
    {turn other : Turn α} {charge : Charge} (hturn : s.turns[m]? = some turn)
    (hcharge : turn.charged = some charge) (hother : s.turns[k]? = some other)
    (hstart : other.start = some start) (hinside : start ∈ Set.Icc charge.since charge.till) :
    k = m := by
  obtain ⟨htill, hkept, capture, ⟨first, hfirst, hcaptured⟩, hsince⟩ :=
    h.charges m turn charge hturn hcharge
  obtain ⟨start', hstart', hbefore⟩ :=
    ht.captured first (List.mem_of_getElem? hfirst) capture hcaptured
  have hafter : charge.capturedAt < k := by
    by_contra hle
    obtain heq | hlt := Nat.eq_or_lt_of_le (Nat.le_of_not_lt hle)
    · rw [heq, hfirst] at hother
      cases hother
      cases hstart.symm.trans hstart'
      exact absurd hinside.1 (by omega)
    · have hlt := ht.start_lt hother hfirst hlt hstart hstart'
      exact absurd hinside.1 (by omega)
  have huntil : k ≤ m := by
    by_contra hlt
    have hlt := ht.start_lt hturn hother (Nat.lt_of_not_le hlt) htill hstart
    exact absurd hinside.2 (by omega)
  omega

theorem disjoint_Icc {a b c d : Nat} (h : b < c) : Disjoint (Set.Icc a b) (Set.Icc c d) :=
  Set.disjoint_left.mpr fun _ hx hx' => absurd (hx'.1.trans hx.2) (Nat.not_le_of_lt h)

/-- A task that is polled on any threads, with recording paused and resumed, and uses its counter
up at every poll right after a capture. Its wrapper returns what the future returns and does not
poll it again after that, does not capture twice in a row, takes from its counter what it charges,
and charges and emits a capture under its own timestamp at the next poll. Idle time is charged
once. -/
theorem dumps_chargedOnce (host : Host) (taskId : Nat) (events : List (Event α)) {s : State α}
    (hrun : run (State.step host) (.new taskId) events = some s)
    (hintime : Along (State.step host) InTime (.new taskId) events)
    (huses : Along (State.step host) (UsesUp host) (.new taskId) events) :
    Along (State.step host) (Counts host) (.new taskId) events ∧ Accounts host taskId s.turns ∧
      ChargedOnce s.turns := by
  have haccounts := (tracks_run hrun huses).accounts
  have htimely := timely_run hrun hintime
  refine ⟨along_of_forall (fun event _ s => counts host s event) _, haccounts, ?_⟩
  constructor
  · intro m m' turn turn' charge charge' hne hturn hturn' hcharge hcharge'
    obtain hlt | hlt := Nat.lt_or_gt_of_ne hne
    · exact disjoint_Icc
        (haccounts.till_lt_since htimely hturn hturn' hcharge hcharge' hlt)
    · exact (disjoint_Icc
        (haccounts.till_lt_since htimely hturn' hturn hcharge' hcharge hlt)).symm
  · intro m k start turn other charge hturn hcharge hother hstart hinside
    exact haccounts.polls_inside htimely hturn hcharge hother hstart hinside

/-! ## A capture that is skipped -/

/-- Addresses are functions of their own, and the interval is the mean. -/
def plainHost : Host := ⟨id, fun _ mean => mean⟩

/-- A poll of a task with an interval of 1000, which is pending. -/
def pendingPoll (clock : Nat) : Event Unit :=
  .poll
    { thread := 0
      config := some ⟨1000, some 7⟩
      seedClock := 0
      recording := true
      startTs := none
      startClock := clock
      first := .pending
      emitOn := fun _ => true
      traces := [⟨[1, 2, 3], none, 1⟩]
      second := .pending
      nested := 0
      captureTs := none
      captureClock := clock + 1 }

theorem isSome_twoPolls :
    (run (State.step plainHost) (.new 4) [pendingPoll 100, pendingPoll 1200]).isSome := by decide

/-- The first poll captures, and the second uses the counter up and emits. -/
theorem dumps_chargedOnce_twoPolls :
    ∃ s, run (State.step plainHost) (.new 4) [pendingPoll 100, pendingPoll 1200] = some s ∧
      s.turns.map Turn.charged = [none, some ⟨0, 101, 1200⟩] ∧ ChargedOnce s.turns := by
  have hrun := (Option.some_get isSome_twoPolls).symm
  refine ⟨_, hrun, by decide, (dumps_chargedOnce plainHost 4 _ hrun ?_ (by decide)).2.2⟩
  refine @inTime_of_thread _ _ _ _ 0 ?_ (by simp [State.new])
  intro input hinput
  simp only [pendingPoll, List.mem_cons, Event.poll.injEq, List.not_mem_nil, or_false] at hinput
  obtain rfl | rfl := hinput <;> rfl

def skippedCapture : List (Event Unit) := [pendingPoll 100, pendingPoll 200, pendingPoll 1200]

theorem isSome_skippedCapture :
    (run (State.step plainHost) (.new 4) skippedCapture).isSome := by decide

/-- The second poll skips its capture and leaves the frames of the first behind. The third subtracts
the time since the first capture once more, and emits its frames. -/
theorem skippedCapture_not_chargedOnce :
    ∃ s, run (State.step plainHost) (.new 4) skippedCapture = some s ∧
      s.turns.map Turn.charged = [none, some ⟨0, 101, 200⟩, some ⟨0, 101, 1200⟩] ∧
      s.turns.map (fun turn => turn.emitted.map Emission.capturedAt) = [none, none, some 0] ∧
      ¬ ChargedOnce s.turns := by
  have hrun := (Option.some_get isSome_skippedCapture).symm
  have hcharged : ((run (State.step plainHost) (.new 4) skippedCapture).get
      isSome_skippedCapture).turns.map Turn.charged =
        [none, some ⟨0, 101, 200⟩, some ⟨0, 101, 1200⟩] := by decide
  have hemitted : ((run (State.step plainHost) (.new 4) skippedCapture).get
      isSome_skippedCapture).turns.map (fun turn => turn.emitted.map Emission.capturedAt) =
        [none, none, some 0] := by decide
  refine ⟨_, hrun, hcharged, hemitted, ?_⟩
  intro honce
  have hsecond := congrArg (·[1]?) hcharged
  have hthird := congrArg (·[2]?) hcharged
  simp only [List.getElem?_map] at hsecond hthird
  obtain ⟨second, hsecond, hcharge⟩ := Option.map_eq_some_iff.mp hsecond
  obtain ⟨third, hthird, hcharge'⟩ := Option.map_eq_some_iff.mp hthird
  have hdisjoint := honce.disjoint 1 2 second third _ _ (by decide) hsecond hthird hcharge hcharge'
  have hboth : 101 ∈ Set.Icc 101 200 ∧ 101 ∈ Set.Icc 101 1200 := by simp
  exact Set.disjoint_left.mp hdisjoint hboth.1 hboth.2

end Dial9.Tokio.TaskDumps
