/-
# From wake to poll

How long a task waited for a poll. Where the poll carries no measurement of its
own, the wait runs from the task's last wake, or from the end of the poll that
was still running when the wake came. The list of issues and the view of one
task compute it by two searches.
-/

import Dial9.Lib.Search
import Dial9.Viewer.WorkerSpans

namespace Dial9.Viewer.Spans

open Lib (lastPassing lastPassing_isLast lastPassing_passes testAt IsLast)

/-- A runnable-to-poll scheduling delay. -/
structure SchedDelay where
  wakeTime : Int
  pollTime : Int
  delay : Int
  taskId : Nat
  wakerTaskId : Option Nat
  worker : Int
  poll : PollSpan
  deriving DecidableEq

/-- The wake that a poll answers, and when the wait for the poll began. -/
structure PollWake where
  wake : TaskWake
  effectiveWake : Int
  deriving DecidableEq

/-! ## The searches -/

/-- The rightmost wake at or before a time. -/
def wakeBefore (wakes : List TaskWake) (start : Int) : Option TaskWake :=
  (lastPassing (testAt wakes fun w => decide (w.timestamp ≤ start)) 0 wakes.length).bind
    fun best => wakes[best]?

/-- The rightmost of the first polls that starts at or before a time. -/
def pollBefore (polls : List PollSpan) (count : Nat) (time : Int) : Option Nat :=
  lastPassing (testAt polls fun p => decide (p.start ≤ time)) 0 count

/-- Left over the polls that reach the time. -/
def walkLeft (polls : List PollSpan) (time : Int) : Nat → Nat
  | 0 => 0
  | index + 1 =>
    if testAt polls (fun p => decide (p.endTs ≥ time)) index then walkLeft polls time index
    else index + 1

/-- The end of the lowest of the earlier polls that hold the wake, or the wake. -/
def effectiveWake (polls : List PollSpan) (index : Nat) (wake : Int) : Int :=
  match pollBefore polls index wake with
  | none => wake
  | some best =>
    if testAt polls (fun p => decide (wake ≤ p.endTs)) best then
      polls[walkLeft polls wake best]?.elim wake PollSpan.endTs
    else wake

/-- The poll's wake, unless the delay from it is out of range. -/
def pollWake (polls : List PollSpan) (wakes : List TaskWake) (index : Nat) (s : PollSpan) :
    Option PollWake :=
  (wakeBefore wakes s.start).bind fun wake =>
    let effective := effectiveWake polls index wake.timestamp
    let delay := s.start - effective
    if 0 ≤ delay ∧ delay < 1000000000 then some ⟨wake, effective⟩ else none

/-- Of one task's polls and wakes. -/
def computePollWakes (polls : List PollSpan) (wakes : List TaskWake) : List (Option PollWake) :=
  polls.mapIdx (pollWake polls wakes)

/-- A worker's polls. -/
def pollsOf (workerSpans : Int → Option WorkerLane) (w : Int) : List PollSpan :=
  (workerSpans w).elim [] WorkerLane.polls

/-- The polls of a task in order of start. -/
def pollsByTask (workerSpans : Int → Option WorkerLane) (workerIds : List Int) (taskId : Nat) :
    List PollSpan :=
  ((workerIds.flatMap (pollsOf workerSpans)).filter fun s => s.taskId = taskId).insertionSort
    fun a b => a.start ≤ b.start

/-- The end of the rightmost poll that starts by the wake, where that is before the poll at
hand and holds the wake. -/
def bumpedWake (taskPolls : List PollSpan) (start wake : Int) : Int :=
  match (pollBefore taskPolls taskPolls.length wake).bind fun best => taskPolls[best]? with
  | none => wake
  | some p => if p.start < start ∧ wake ≤ p.endTs then p.endTs else wake

/-- From the poll's own measurement. -/
def directDelay (w : Int) (s : PollSpan) (delay : Int) : Option SchedDelay :=
  if delay > 0 then some ⟨max 0 (s.start - delay), s.start, delay, s.taskId, some 0, w, s⟩
  else none

/-- From the task's wakes. -/
def inferredDelay (taskPolls : List PollSpan) (wakes : List TaskWake) (w : Int) (s : PollSpan) :
    Option SchedDelay :=
  (wakeBefore wakes s.start).bind fun wake =>
    let effective := bumpedWake taskPolls s.start wake.timestamp
    let delay := s.start - effective
    if delay > 0 ∧ delay < 1000000000 then
      some ⟨effective, s.start, delay, s.taskId, wake.wakerTaskId, w, s⟩
    else none

def delayOf (workerSpans : Int → Option WorkerLane) (workerIds : List Int)
    (wakesByTask : Option Nat → List TaskWake) (w : Int) (s : PollSpan) : Option SchedDelay :=
  if s.taskId = 0 then none
  else
    match s.schedulingDelay with
    | some delay => directDelay w s delay
    | none =>
      inferredDelay (pollsByTask workerSpans workerIds s.taskId) (wakesByTask (some s.taskId)) w s

def computeSchedulingDelays (workerSpans : Int → Option WorkerLane) (workerIds : List Int)
    (wakesByTask : Option Nat → List TaskWake) : List SchedDelay :=
  (workerIds.flatMap fun w =>
      (pollsOf workerSpans w).filterMap (delayOf workerSpans workerIds wakesByTask w)).insertionSort
    fun a b => a.wakeTime ≤ b.wakeTime

/-! ## Polls that do not overlap -/

/-- In order of start, each poll ends by the time the next starts. -/
structure NonOverlapping (polls : List PollSpan) : Prop where
  ordered : polls.Pairwise fun a b => a.endTs ≤ b.start
  forward : ∀ p ∈ polls, p.start ≤ p.endTs

namespace NonOverlapping

variable {polls : List PollSpan} {i j : Nat}

section

variable (h : NonOverlapping polls)
include h

theorem end_le_start (hj : j < polls.length) (hij : i < j) :
    (getElem polls i (hij.trans hj)).endTs ≤ polls[j].start :=
  List.pairwise_iff_getElem.mp h.ordered i j (hij.trans hj) hj hij

theorem start_le_end (hi : i < polls.length) : polls[i].start ≤ polls[i].endTs :=
  h.forward _ (List.getElem_mem hi)

theorem starts : polls.Pairwise fun a b => a.start ≤ b.start := by
  apply List.pairwise_iff_getElem.mpr
  intro i j hi hj hij
  exact (h.start_le_end hi).trans (h.end_le_start hj hij)

theorem ends : polls.Pairwise fun a b => a.endTs ≤ b.endTs := by
  apply List.pairwise_iff_getElem.mpr
  intro i j hi hj hij
  exact (h.end_le_start hj hij).trans (h.start_le_end hj)

theorem end_mono (hj : j < polls.length) (hij : i ≤ j) :
    (getElem polls i (hij.trans_lt hj)).endTs ≤ polls[j].endTs := by
  rcases hij.eq_or_lt with rfl | hlt
  · exact le_rfl
  · exact List.pairwise_iff_getElem.mp h.ends i j (hij.trans_lt hj) hj hlt

end

end NonOverlapping

variable {polls : List PollSpan} {wakes : List TaskWake} {index count : Nat} {time : Int}

theorem wakeBefore_mem {start : Int} {wake : TaskWake} (h : wakeBefore wakes start = some wake) :
    wake.timestamp ≤ start := by
  rcases Option.bind_eq_some_iff.mp h with ⟨best, hbest, hwake⟩
  have hpass := (lastPassing_passes hbest).2.2
  rw [testAt, hwake, Option.any_some] at hpass
  exact of_decide_eq_true hpass

theorem wakeBefore_eq (hwakes : wakes.Pairwise fun a b => a.timestamp ≤ b.timestamp) (start : Int) :
    wakeBefore wakes start = (wakes.filter fun w => w.timestamp ≤ start).getLast? := by
  apply Lib.lastPassing_testAt
  apply hwakes.imp
  intro a b hab hb
  exact decide_eq_true (hab.trans (of_decide_eq_true hb))

/-- The polls before the count start after the time, but for those up to the one found. -/
inductive Before (polls : List PollSpan) (count : Nat) (time : Int) : Option Nat → Prop
  | none (later : ∀ i (hi : i < polls.length), i < count → time < polls[i].start) :
      Before polls count time none
  | some {best : Nat} (hbest : best < polls.length) (under : best < count)
      (starts : polls[best].start ≤ time)
      (later : ∀ i (hi : i < polls.length), best < i → i < count → time < polls[i].start) :
      Before polls count time (some best)

theorem NonOverlapping.before (h : NonOverlapping polls) (hcount : count ≤ polls.length)
    (time : Int) :
    Before polls count time (pollBefore polls count time) := by
  have hdown : Lib.Downward (testAt polls fun p => decide (p.start ≤ time)) 0 count := by
    apply Lib.downward_testAt _ 0 hcount
    apply h.starts.imp
    intro a b hab hb
    exact decide_eq_true (hab.trans (of_decide_eq_true hb))
  have hlater : ∀ i (hi : i < polls.length),
      testAt polls (fun p => decide (p.start ≤ time)) i = false → time < polls[i].start := by
    intro i hi hfail
    rw [Lib.testAt_of_lt hi] at hfail
    exact lt_of_not_ge (of_decide_eq_false hfail)
  rw [pollBefore]
  rcases lastPassing_isLast hdown with ⟨hnone, hfails⟩ | ⟨best, hbest, hlast⟩
  · rw [hnone]
    exact .none fun i hi hic => hlater i hi (hfails i (Nat.zero_le i) hic)
  · rw [hbest]
    have hlen := hlast.upper.trans_le hcount
    have hpass := hlast.passes
    rw [Lib.testAt_of_lt hlen] at hpass
    exact .some hlen hlast.upper (of_decide_eq_true hpass) fun i hi hbi hic =>
      hlater i hi (hlast.fails i hbi hic)

theorem walkLeft_le (polls : List PollSpan) (time : Int) (index : Nat) :
    walkLeft polls time index ≤ index := by
  induction index with
  | zero => exact le_rfl
  | succ index ih =>
    rw [walkLeft]
    split
    · exact ih.trans (Nat.le_succ index)
    · exact le_rfl

theorem walkLeft_reaches (hindex : index < polls.length) (hreach : time ≤ polls[index].endTs) :
    time ≤ (getElem polls (walkLeft polls time index)
      ((walkLeft_le polls time index).trans_lt hindex)).endTs := by
  induction index with
  | zero => exact hreach
  | succ index ih =>
    have hlt : index < polls.length := Nat.lt_of_succ_lt hindex
    simp only [walkLeft]
    by_cases hprev : time ≤ polls[index].endTs
    · simp only [Lib.testAt_of_lt hlt, ge_iff_le, hprev, decide_true, if_true]
      exact ih hlt hprev
    · simp only [Lib.testAt_of_lt hlt, ge_iff_le, hprev, decide_false, Bool.false_eq_true, if_false]
      exact hreach

theorem NonOverlapping.walkLeft_lowest (h : NonOverlapping polls) (hindex : index < polls.length)
    {i : Nat} (hi : i < walkLeft polls time index) :
    (getElem polls i ((hi.trans_le (walkLeft_le polls time index)).trans hindex)).endTs < time := by
  induction index with
  | zero => exact absurd hi (Nat.not_lt_zero i)
  | succ index ih =>
    have hlt : index < polls.length := Nat.lt_of_succ_lt hindex
    by_cases hprev : time ≤ polls[index].endTs
    · simp only [walkLeft, Lib.testAt_of_lt hlt, ge_iff_le, hprev, decide_true, if_true] at hi
      exact ih hlt hi
    · simp only [walkLeft, Lib.testAt_of_lt hlt, ge_iff_le, hprev, decide_false,
        Bool.false_eq_true, if_false] at hi
      exact (h.end_mono hlt (Nat.le_of_lt_succ hi)).trans_lt (lt_of_not_ge hprev)

/-! ## The wake of a poll, by scanning -/

/-- The last of the wakes at or before a time. -/
def latestWake (wakes : List TaskWake) (start : Int) : Option TaskWake :=
  (wakes.filter fun w => w.timestamp ≤ start).getLast?

/-- The lowest of the first polls whose closed interval holds a time. -/
def lowestHolding (polls : List PollSpan) (count : Nat) (time : Int) : Option PollSpan :=
  (polls.take count).find? fun p => p.start ≤ time ∧ time ≤ p.endTs

/-- What a poll's wake is, over all earlier polls. -/
def scannedWake (polls : List PollSpan) (wakes : List TaskWake) (index : Nat) (s : PollSpan) :
    Option PollWake :=
  (latestWake wakes s.start).bind fun wake =>
    let effective := (lowestHolding polls index wake.timestamp).elim wake.timestamp PollSpan.endTs
    if 0 ≤ s.start - effective ∧ s.start - effective < 1000000000 then some ⟨wake, effective⟩
    else none

theorem lowestHolding_eq_none
    (h : ∀ i (hi : i < polls.length),
      i < count → ¬ (polls[i].start ≤ time ∧ time ≤ polls[i].endTs)) :
    lowestHolding polls count time = none := by
  apply List.find?_eq_none.mpr
  intro p hp
  rcases List.mem_iff_getElem.mp hp with ⟨i, hi, rfl⟩
  rw [List.length_take] at hi
  rw [List.getElem_take, decide_eq_true_eq]
  exact h i (hi.trans_le (min_le_right _ _)) (hi.trans_le (min_le_left _ _))

theorem lowestHolding_eq_some {k : Nat} (hk : k < polls.length) (hcount : k < count)
    (hholds : polls[k].start ≤ time ∧ time ≤ polls[k].endTs)
    (h : ∀ i (hi : i < k), (getElem polls i (hi.trans hk)).endTs < time) :
    lowestHolding polls count time = some polls[k] := by
  have hlen : k < (polls.take count).length := by
    rw [List.length_take]
    exact lt_min hcount hk
  apply List.find?_eq_some_iff_getElem.mpr
  refine ⟨decide_eq_true hholds, k, hlen, List.getElem_take, fun i hi => ?_⟩
  rw [List.getElem_take, Bool.not_eq_true', decide_eq_false_iff_not]
  intro hlow
  exact hlow.2.not_gt (h i hi)

theorem NonOverlapping.effectiveWake_eq (h : NonOverlapping polls) (hcount : count ≤ polls.length)
    (time : Int) :
    effectiveWake polls count time = (lowestHolding polls count time).elim time PollSpan.endTs := by
  rw [effectiveWake]
  have hbefore := h.before hcount time
  generalize pollBefore polls count time = found at hbefore
  cases hbefore with
  | none hlater =>
    rw [lowestHolding_eq_none fun i hi hic hholds => hholds.1.not_gt (hlater i hi hic)]
    rfl
  | @some best hbest hunder hstarts hlater =>
    simp only [Lib.testAt_of_lt hbest, decide_eq_true_eq]
    by_cases hreach : time ≤ polls[best].endTs
    · have hwalk := walkLeft_le polls time best
      have hstart :
          (getElem polls (walkLeft polls time best) (hwalk.trans_lt hbest)).start ≤ time := by
        rcases hwalk.eq_or_lt with heq | hlt
        · simp only [heq]
          exact hstarts
        · exact ((h.start_le_end _).trans (h.end_le_start hbest hlt)).trans hstarts
      rw [if_pos hreach, List.getElem?_eq_getElem (hwalk.trans_lt hbest),
        lowestHolding_eq_some (hwalk.trans_lt hbest) (hwalk.trans_lt hunder)
          ⟨hstart, walkLeft_reaches hbest hreach⟩ fun i hi => h.walkLeft_lowest hbest hi]
    · rw [if_neg hreach, lowestHolding_eq_none]
      · rfl
      · intro i hi hic hholds
        rcases Nat.lt_or_ge best i with hlt | hle
        · exact hholds.1.not_gt (hlater i hi hlt hic)
        · exact hreach (hholds.2.trans (h.end_mono hbest hle))

/-- The searches give each poll the wake that scanning gives it. -/
theorem computePollWakes_eq_scanned (hpolls : NonOverlapping polls)
    (hwakes : wakes.Pairwise fun a b => a.timestamp ≤ b.timestamp) :
    computePollWakes polls wakes = polls.mapIdx (scannedWake polls wakes) := by
  apply List.mapIdx_eq_mapIdx_iff.mpr
  intro i hi
  rw [pollWake, scannedWake, wakeBefore_eq hwakes, latestWake]
  simp only [hpolls.effectiveWake_eq hi.le]

/-- Three polls that touch, the second of no length, and a wake at the instant they share. -/
def touchingPolls : List PollSpan :=
  [⟨0, 10, 7, none, none, none, false⟩, ⟨10, 10, 7, none, none, none, false⟩,
    ⟨10, 20, 7, none, none, none, false⟩, ⟨30, 40, 7, none, none, none, false⟩]

theorem computePollWakes_eq_scanned_touchingPolls :
    computePollWakes touchingPolls [⟨5, none, 1⟩, ⟨10, none, 1⟩] =
        touchingPolls.mapIdx (scannedWake touchingPolls [⟨5, none, 1⟩, ⟨10, none, 1⟩]) ∧
      computePollWakes touchingPolls [⟨5, none, 1⟩, ⟨10, none, 1⟩] =
        [none, some ⟨⟨10, none, 1⟩, 10⟩, some ⟨⟨10, none, 1⟩, 10⟩, some ⟨⟨10, none, 1⟩, 10⟩] :=
  ⟨computePollWakes_eq_scanned ⟨by decide, by decide⟩ (by decide), by decide⟩

/-! ## The two searches against each other -/

/-- The poll starts at the time and outlasts it, where another poll of the task ends. -/
structure Meets (polls : List PollSpan) (time : Int) (b : PollSpan) : Prop where
  mem : b ∈ polls
  starts : b.start = time
  outlasts : time < b.endTs
  ends : ∃ a ∈ polls, a.endTs = time

theorem NonOverlapping.meets_index (h : NonOverlapping polls) {b : PollSpan}
    (hmeets : Meets polls time b) :
    ∃ j k, ∃ (hj : j < k) (hk : k < polls.length),
      (getElem polls j (hj.trans hk)).endTs = time ∧ polls[k] = b := by
  rcases hmeets.ends with ⟨a, ha, hends⟩
  rcases List.mem_iff_getElem.mp ha with ⟨j, hj, rfl⟩
  rcases List.mem_iff_getElem.mp hmeets.mem with ⟨k, hk, rfl⟩
  refine ⟨j, k, ?_, hk, hends, rfl⟩
  rcases Nat.lt_trichotomy j k with hjk | rfl | hkj
  · exact hjk
  · exact absurd hmeets.outlasts hends.not_gt
  · have hgap := h.end_le_start hj hkj
    have hlen := h.start_le_end hj
    have hout := hmeets.outlasts
    omega

theorem Before.extend {found : Option Nat} (h : Before polls count time found)
    (hcount : count ≤ polls.length)
    (hbeyond : ∀ i (hi : i < polls.length), count ≤ i → time < polls[i].start) :
    Before polls polls.length time found := by
  cases h with
  | none hlater =>
    refine .none fun i hi _ => ?_
    rcases Nat.lt_or_ge i count with hlt | hle
    · exact hlater i hi hlt
    · exact hbeyond i hi hle
  | some hbest hunder hstarts hlater =>
    refine .some hbest (hunder.trans_le hcount) hstarts fun i hi hbi _ => ?_
    rcases Nat.lt_or_ge i count with hlt | hle
    · exact hlater i hi hbi hlt
    · exact hbeyond i hi hle

theorem Before.unique {found found' : Option Nat} (h : Before polls count time found)
    (h' : Before polls count time found') : found = found' := by
  cases h with
  | none hlater =>
    cases h' with
    | none => rfl
    | some hbest hunder hstarts => exact absurd hstarts (hlater _ hbest hunder).not_ge
  | @some best hbest hunder hstarts hlater =>
    cases h' with
    | none hlater' => exact absurd hstarts (hlater' _ hbest hunder).not_ge
    | @some best' hbest' hunder' hstarts' hlater' =>
      rcases Nat.lt_trichotomy best best' with hlt | rfl | hgt
      · exact absurd hstarts' (hlater best' hbest' hlt hunder').not_ge
      · rfl
      · exact absurd hstarts (hlater' best hbest hgt hunder).not_ge

section

variable (h : NonOverlapping polls)
include h

theorem NonOverlapping.later (hindex : index < polls.length)
    (hwake : time < polls[index].start) {i : Nat} (hi : i < polls.length) (hle : index ≤ i) :
    time < polls[i].start := by
  rcases hle.eq_or_lt with rfl | hlt
  · exact hwake
  · exact (hwake.trans_le (h.start_le_end hindex)).trans_le (h.end_le_start hi hlt)

theorem NonOverlapping.meets_best {best : Nat}
    (hbest : best < polls.length) (hstarts : polls[best].start ≤ time)
    (hlater : ∀ i (hi : i < polls.length), best < i → i < polls.length → time < polls[i].start)
    {b : PollSpan} (hmeets : Meets polls time b) :
    ∃ j, ∃ (hj : j < best), (getElem polls j (hj.trans hbest)).endTs = time ∧ polls[best] = b := by
  rcases h.meets_index hmeets with ⟨j, k, hj, hk, hends, hb⟩
  have hstart : polls[k].start = time := (congrArg PollSpan.start hb).trans hmeets.starts
  have hout : time < polls[k].endTs := hmeets.outlasts.trans_eq (congrArg PollSpan.endTs hb).symm
  obtain rfl : k = best := by
    rcases Nat.lt_trichotomy k best with hlt | heq | hgt
    · exact absurd (h.end_le_start hbest hlt) (hstarts.trans_lt hout).not_ge
    · exact heq
    · exact absurd hstart (hlater k hk hgt hk).ne'
  exact ⟨j, hj, hends, hb⟩

section

variable (hindex : index < polls.length)
include hindex

/-- Of a wake before the poll: the searches bump it alike, unless it falls where one poll ends
and a longer one begins. -/
theorem NonOverlapping.bumped_cases (hwake : time < polls[index].start) :
    (effectiveWake polls index time = bumpedWake polls polls[index].start time ∧
        ∀ b, ¬ Meets polls time b) ∨
      ∃ b, Meets polls time b ∧ effectiveWake polls index time = time ∧
        bumpedWake polls polls[index].start time = b.endTs := by
  have hbefore := h.before hindex.le time
  have hall := hbefore.extend hindex.le fun i hi hle => h.later hindex hwake hi hle
  rw [effectiveWake, bumpedWake, ← hall.unique (h.before le_rfl time)]
  generalize pollBefore polls index time = found at hall
  cases hall with
  | none hlater =>
    refine .inl ⟨rfl, fun b hmeets => ?_⟩
    rcases h.meets_index hmeets with ⟨_, k, _, hk, _, hb⟩
    rw [← hb] at hmeets
    exact absurd hmeets.starts (hlater k hk hk).ne'
  | @some best hbest _ hstarts hlater =>
    have hbest' : polls[best]? = some polls[best] := List.getElem?_eq_getElem hbest
    have hfirst : polls[best].start < polls[index].start := hstarts.trans_lt hwake
    have hwalk := walkLeft_le polls time best
    simp only [Lib.testAt_of_lt hbest, decide_eq_true_eq, Option.bind_some, hbest', hfirst,
      true_and]
    by_cases hreach : time ≤ polls[best].endTs
    · rw [if_pos hreach, if_pos hreach, List.getElem?_eq_getElem (hwalk.trans_lt hbest),
        Option.elim_some]
      rcases hwalk.eq_or_lt with heq | hlt
      · -- The last poll to start by the wake is the first to reach it.
        simp only [heq, true_and]
        refine .inl fun b hmeets => ?_
        rcases h.meets_best hbest hstarts hlater hmeets with ⟨j, hj, hends, -⟩
        exact absurd hends (h.walkLeft_lowest hbest (hj.trans_eq heq.symm)).ne
      · have hlow : (getElem polls (walkLeft polls time best) (hlt.trans hbest)).endTs = time :=
          ((h.end_le_start hbest hlt).trans hstarts).antisymm (walkLeft_reaches hbest hreach)
        have hstart : polls[best].start = time :=
          hstarts.antisymm (hlow.symm.le.trans (h.end_le_start hbest hlt))
        rw [hlow]
        rcases hreach.eq_or_lt with heq | hout
        · refine .inl ⟨heq, fun b hmeets => ?_⟩
          rcases h.meets_best hbest hstarts hlater hmeets with ⟨_, _, _, hb⟩
          rw [← hb] at hmeets
          exact absurd heq hmeets.outlasts.ne
        · exact .inr ⟨polls[best], ⟨List.getElem_mem hbest, hstart, hout,
            _, List.getElem_mem (hlt.trans hbest), hlow⟩, rfl, rfl⟩
    · rw [if_neg hreach, if_neg hreach]
      refine .inl ⟨rfl, fun b hmeets => ?_⟩
      rcases h.meets_best hbest hstarts hlater hmeets with ⟨_, _, _, hb⟩
      rw [← hb] at hmeets
      exact hreach hmeets.outlasts.le

theorem NonOverlapping.effectiveWake_start :
    effectiveWake polls index polls[index].start = polls[index].start := by
  rw [h.effectiveWake_eq hindex.le]
  cases hfound : lowestHolding polls index polls[index].start with
  | none => rfl
  | some p =>
    have hmem := List.mem_of_find?_eq_some hfound
    have hholds : p.start ≤ polls[index].start ∧ polls[index].start ≤ p.endTs :=
      of_decide_eq_true (List.find?_some (p := fun p : PollSpan =>
        decide (p.start ≤ polls[index].start ∧ polls[index].start ≤ p.endTs)) hfound)
    rcases List.mem_iff_getElem.mp hmem with ⟨i, hi, rfl⟩
    rw [List.length_take] at hi
    rw [List.getElem_take] at hholds ⊢
    exact (h.end_le_start hindex (hi.trans_le (min_le_left _ _))).antisymm hholds.2

theorem NonOverlapping.bumpedWake_start :
    bumpedWake polls polls[index].start polls[index].start = polls[index].start := by
  have hbefore := h.before le_rfl polls[index].start
  rw [bumpedWake]
  generalize pollBefore polls polls.length polls[index].start = found at hbefore
  cases hbefore with
  | none => rfl
  | @some best hbest _ hstarts hlater =>
    have hle : index ≤ best := by
      by_contra hlt
      exact (hlater index hindex (Nat.lt_of_not_le hlt) hindex).false
    have hsame : ¬ polls[best].start < polls[index].start := by
      rcases hle.eq_or_lt with heq | hlt
      · simp only [heq, lt_irrefl, not_false_eq_true]
      · exact ((h.start_le_end hindex).trans (h.end_le_start hbest hlt)).not_gt
    rw [Option.bind_some, List.getElem?_eq_getElem hbest]
    simp only [hsame, false_and, if_false]

end

end

/-- The wake does not fall where one of the task's polls ends and another begins, except where
the delay is out of range by both accounts. -/
def Clear (polls : List PollSpan) (wakes : List TaskWake) (s : PollSpan) : Prop :=
  ∀ wake, wakeBefore wakes s.start = some wake → wake.timestamp < s.start →
    ∀ b, Meets polls wake.timestamp b →
      1000000000 ≤ s.start - wake.timestamp ∧
        (s.start ≤ b.endTs ∨ 1000000000 ≤ s.start - b.endTs)

/-- An inferred delay is from the wake and the time that the task's own view gives, and the view
gives no positive delay that is not inferred. -/
structure Alike (polls : List PollSpan) (wakes : List TaskWake) (index : Nat) (s : PollSpan) :
    Prop where
  inferred : ∀ w d, inferredDelay polls wakes w s = some d → ∃ wake,
    wakeBefore wakes s.start = some wake ∧ d.wakerTaskId = wake.wakerTaskId ∧
      pollWake polls wakes index s = some ⟨wake, d.wakeTime⟩
  reported : ∀ p, pollWake polls wakes index s = some p → p.effectiveWake < s.start → ∀ w,
    inferredDelay polls wakes w s = some ⟨p.effectiveWake, s.start, s.start - p.effectiveWake,
      s.taskId, p.wake.wakerTaskId, w, s⟩

variable {s : PollSpan} {d : SchedDelay}

theorem alike_of_eq (h : ∀ wake, wakeBefore wakes s.start = some wake →
      effectiveWake polls index wake.timestamp = bumpedWake polls s.start wake.timestamp) :
    Alike polls wakes index s := by
  constructor
  · intro w d hd
    rcases Option.bind_eq_some_iff.mp hd with ⟨wake, hwake, hd⟩
    rw [Option.ite_none_right_eq_some] at hd
    rcases hd with ⟨⟨hpos, hbound⟩, hd⟩
    cases hd
    refine ⟨wake, hwake, rfl, ?_⟩
    rw [pollWake, hwake, Option.bind_some, h wake hwake]
    exact if_pos ⟨hpos.le, hbound⟩
  · intro p hp hpos w
    rcases Option.bind_eq_some_iff.mp hp with ⟨wake, hwake, hp⟩
    rw [h wake hwake, Option.ite_none_right_eq_some] at hp
    rcases hp with ⟨⟨_, hbound⟩, hp⟩
    cases hp
    rw [inferredDelay, hwake, Option.bind_some]
    exact if_pos ⟨Int.sub_pos.mpr hpos, hbound⟩

/-- Where one poll ends and another begins the two differ, unless neither is in range. -/
theorem alike_iff_of_meets {s b : PollSpan} {wake : TaskWake}
    (hwake : wakeBefore wakes s.start = some wake) (hbefore : wake.timestamp < s.start)
    (hout : wake.timestamp < b.endTs)
    (heffective : effectiveWake polls index wake.timestamp = wake.timestamp)
    (hbumped : bumpedWake polls s.start wake.timestamp = b.endTs) :
    Alike polls wakes index s ↔ 1000000000 ≤ s.start - wake.timestamp ∧
      (s.start ≤ b.endTs ∨ 1000000000 ≤ s.start - b.endTs) := by
  have hreport : pollWake polls wakes index s =
      if 0 ≤ s.start - wake.timestamp ∧ s.start - wake.timestamp < 1000000000 then
        some ⟨wake, wake.timestamp⟩ else none := by
    rw [pollWake, hwake, Option.bind_some, heffective]
  have hinfer : ∀ w, inferredDelay polls wakes w s =
      if s.start - b.endTs > 0 ∧ s.start - b.endTs < 1000000000 then
        some ⟨b.endTs, s.start, s.start - b.endTs, s.taskId, wake.wakerTaskId, w, s⟩ else none := by
    intro w
    rw [inferredDelay, hwake, Option.bind_some, hbumped]
  constructor
  · intro halike
    constructor
    · by_contra hlow
      have htold := halike.reported ⟨wake, wake.timestamp⟩
        (hreport.trans (if_pos ⟨by omega, by omega⟩)) hbefore 0
      rw [hinfer, Option.ite_none_right_eq_some] at htold
      have htime := congrArg SchedDelay.wakeTime (Option.some.inj htold.2)
      exact hout.ne' htime
    · by_contra hrange
      rcases not_or.mp hrange with ⟨hpos, hbound⟩
      rcases halike.inferred 0 _ ((hinfer 0).trans (if_pos ⟨by omega, by omega⟩))
        with ⟨wake', _, _, htold⟩
      rw [hreport, Option.ite_none_right_eq_some] at htold
      have htime := congrArg PollWake.effectiveWake (Option.some.inj htold.2)
      exact hout.ne htime
  · rintro ⟨hfar, hrange⟩
    constructor
    · intro w d hd
      rw [hinfer, if_neg (by omega)] at hd
      exact absurd hd.symm (Option.some_ne_none d)
    · intro p hp
      rw [hreport, if_neg (by omega)] at hp
      exact absurd hp.symm (Option.some_ne_none p)

theorem NonOverlapping.alike_iff (h : NonOverlapping polls) (hindex : index < polls.length) :
    Alike polls wakes index polls[index] ↔ Clear polls wakes polls[index] := by
  cases hwake : wakeBefore wakes polls[index].start with
  | none =>
    refine iff_of_true (alike_of_eq fun wake hsome => ?_) fun wake hsome => ?_
    · exact absurd (hwake.symm.trans hsome).symm (Option.some_ne_none wake)
    · exact absurd (hwake.symm.trans hsome).symm (Option.some_ne_none wake)
  | some wake =>
    have hone : ∀ wake', wakeBefore wakes polls[index].start = some wake' → wake' = wake :=
      fun wake' hwake' => Option.some.inj (hwake'.symm.trans hwake)
    rcases (wakeBefore_mem hwake).eq_or_lt with hstart | hbefore
    · refine iff_of_true (alike_of_eq fun wake' hwake' => ?_) fun wake' hwake' hlt => ?_
      · rw [hone wake' hwake', hstart, h.effectiveWake_start hindex, h.bumpedWake_start hindex]
      · exact absurd hlt (hone wake' hwake' ▸ hstart.not_lt)
    · rcases h.bumped_cases hindex hbefore with ⟨hsame, hclear⟩ | ⟨b, hmeets, heffective, hbumped⟩
      · refine iff_of_true (alike_of_eq fun wake' hwake' => ?_) fun wake' hwake' _ b hmeets => ?_
        · rw [hone wake' hwake', hsame]
        · exact absurd (hone wake' hwake' ▸ hmeets) (hclear b)
      · rw [alike_iff_of_meets hwake hbefore hmeets.outlasts heffective hbumped]
        constructor
        · intro hrange wake' hwake' _ b' hmeets'
          rw [hone wake' hwake'] at hmeets' ⊢
          -- One poll of the task starts there and is longer than that.
          rcases h.meets_index hmeets with ⟨j, k, hj, hk, _, rfl⟩
          rcases h.meets_index hmeets' with ⟨j', k', hj', hk', _, rfl⟩
          obtain rfl : k = k' := by
            have hout := hmeets.outlasts
            have hout' := hmeets'.outlasts
            have hstart := hmeets.starts
            have hstart' := hmeets'.starts
            rcases Nat.lt_trichotomy k k' with hlt | heq | hgt
            · have := h.end_le_start hk' hlt
              omega
            · exact heq
            · have := h.end_le_start hk hgt
              omega
          exact hrange
        · intro hclear
          exact hclear wake hwake hbefore b hmeets

/-! ## Over all lanes -/

variable {workerSpans : Int → Option WorkerLane} {workerIds : List Int}
  {wakesByTask : Option Nat → List TaskWake}

theorem mem_computeSchedulingDelays :
    d ∈ computeSchedulingDelays workerSpans workerIds wakesByTask ↔
      ∃ w ∈ workerIds, ∃ s ∈ pollsOf workerSpans w,
        delayOf workerSpans workerIds wakesByTask w s = some d := by
  rw [computeSchedulingDelays, List.mem_insertionSort]
  simp only [List.mem_flatMap, List.mem_filterMap]

theorem mem_pollsByTask {taskId : Nat} :
    s ∈ pollsByTask workerSpans workerIds taskId ↔
      (∃ w ∈ workerIds, s ∈ pollsOf workerSpans w) ∧ s.taskId = taskId := by
  rw [pollsByTask, List.mem_insertionSort]
  simp only [List.mem_filter, List.mem_flatMap, decide_eq_true_eq]

theorem inferredDelay_poll {w : Int} (h : inferredDelay polls wakes w s = some d) : d.poll = s := by
  rcases Option.bind_eq_some_iff.mp h with ⟨wake, _, hd⟩
  rw [Option.ite_none_right_eq_some] at hd
  cases hd.2
  rfl

theorem directDelay_poll {w delay : Int} (h : directDelay w s delay = some d) : d.poll = s := by
  rw [directDelay, Option.ite_none_right_eq_some] at h
  cases h.2
  rfl

theorem delayOf_poll {w : Int} (h : delayOf workerSpans workerIds wakesByTask w s = some d) :
    d.poll = s := by
  rw [delayOf, Option.ite_none_left_eq_some] at h
  cases hdirect : s.schedulingDelay with
  | some delay =>
    rw [hdirect] at h
    exact directDelay_poll h.2
  | none =>
    rw [hdirect] at h
    exact inferredDelay_poll h.2

theorem delayOf_inferred {w : Int} (htask : s.taskId ≠ 0) (hdirect : s.schedulingDelay = none) :
    delayOf workerSpans workerIds wakesByTask w s =
      inferredDelay (pollsByTask workerSpans workerIds s.taskId)
        (wakesByTask (some s.taskId)) w s := by
  rw [delayOf, if_neg htask, hdirect]

/-- The view of a task: the wakes of its polls. -/
def taskPollWakes (workerSpans : Int → Option WorkerLane) (workerIds : List Int)
    (wakesByTask : Option Nat → List TaskWake) (taskId : Nat) : List (Option PollWake) :=
  computePollWakes (pollsByTask workerSpans workerIds taskId) (wakesByTask (some taskId))

/-- Of a poll without a measurement: an inferred delay in the list is from the wake and the time
that the view of its task gives for it, and a positive delay of that view is in the list. -/
structure DelaysAgree (workerSpans : Int → Option WorkerLane) (workerIds : List Int)
    (wakesByTask : Option Nat → List TaskWake) : Prop where
  emitted : ∀ taskId ≠ 0, ∀ (index : Nat) (s : PollSpan),
    (pollsByTask workerSpans workerIds taskId)[index]? = some s → s.schedulingDelay = none →
    ∀ d ∈ computeSchedulingDelays workerSpans workerIds wakesByTask, d.poll = s →
      ∃ wake : TaskWake, wakeBefore (wakesByTask (some taskId)) s.start = some wake ∧
        d.wakerTaskId = wake.wakerTaskId ∧
        (taskPollWakes workerSpans workerIds wakesByTask taskId)[index]? =
          some (some ⟨wake, d.wakeTime⟩)
  reported : ∀ taskId ≠ 0, ∀ (index : Nat) (s : PollSpan),
    (pollsByTask workerSpans workerIds taskId)[index]? = some s → s.schedulingDelay = none →
    ∀ p : PollWake,
      (taskPollWakes workerSpans workerIds wakesByTask taskId)[index]? = some (some p) →
      p.effectiveWake < s.start →
      ∃ d ∈ computeSchedulingDelays workerSpans workerIds wakesByTask, d.poll = s ∧
        d.wakeTime = p.effectiveWake ∧ d.delay = s.start - p.effectiveWake ∧
        d.wakerTaskId = p.wake.wakerTaskId

theorem computePollWakes_getElem? (hs : polls[index]? = some s) (wakes : List TaskWake) :
    (computePollWakes polls wakes)[index]? = some (pollWake polls wakes index s) := by
  rw [computePollWakes, List.getElem?_mapIdx, hs, Option.map_some]

theorem delaysAgree_iff_alike :
    DelaysAgree workerSpans workerIds wakesByTask ↔
      ∀ taskId ≠ 0, ∀ index s, (pollsByTask workerSpans workerIds taskId)[index]? = some s →
        s.schedulingDelay = none →
        Alike (pollsByTask workerSpans workerIds taskId) (wakesByTask (some taskId)) index s := by
  constructor
  · intro hagree taskId htask index s hs hdirect
    rcases mem_pollsByTask.mp (List.mem_of_getElem? hs) with ⟨⟨w₀, hw₀, hpoll⟩, rfl⟩
    have hdelay : ∀ w, delayOf workerSpans workerIds wakesByTask w s =
        inferredDelay (pollsByTask workerSpans workerIds s.taskId)
          (wakesByTask (some s.taskId)) w s := fun w => delayOf_inferred htask hdirect
    constructor
    · intro w d hd
      -- The delay is in the list under a worker that has the poll.
      rcases Option.bind_eq_some_iff.mp hd with ⟨wake, hwake, hrange⟩
      rw [Option.ite_none_right_eq_some] at hrange
      rcases hrange with ⟨hrange, hd⟩
      cases hd
      have hmem := mem_computeSchedulingDelays.mpr ⟨w₀, hw₀, s, hpoll, (hdelay w₀).trans <| by
        rw [inferredDelay, hwake, Option.bind_some]
        exact if_pos hrange⟩
      rcases hagree.emitted s.taskId htask index s hs hdirect _ hmem rfl with
        ⟨wake', hwake', hwaker, hview⟩
      rw [taskPollWakes, computePollWakes_getElem? hs, Option.some.injEq] at hview
      exact ⟨wake', hwake', hwaker, hview⟩
    · intro p hp hpos w
      have hview := (computePollWakes_getElem? hs (wakesByTask (some s.taskId))).trans
        (congrArg some hp)
      rcases hagree.reported s.taskId htask index s hs hdirect p hview hpos with
        ⟨d, hmem, hdpoll, htime, _, hwaker⟩
      rcases mem_computeSchedulingDelays.mp hmem with ⟨w', _, s', _, hd⟩
      obtain rfl : s' = s := (delayOf_poll hd).symm.trans hdpoll
      rw [hdelay w'] at hd
      rcases Option.bind_eq_some_iff.mp hd with ⟨wake, hwake, hrange⟩
      rw [Option.ite_none_right_eq_some] at hrange
      rcases hrange with ⟨hrange, hd⟩
      cases hd
      rw [inferredDelay, hwake, Option.bind_some, ← htime, ← hwaker]
      exact if_pos hrange
  · intro halike
    constructor
    · intro taskId htask index s hs hdirect d hmem hdpoll
      rcases mem_pollsByTask.mp (List.mem_of_getElem? hs) with ⟨_, rfl⟩
      rcases mem_computeSchedulingDelays.mp hmem with ⟨w, _, s', _, hd⟩
      obtain rfl : s' = s := (delayOf_poll hd).symm.trans hdpoll
      rw [delayOf_inferred htask hdirect] at hd
      rcases (halike _ htask index _ hs hdirect).inferred w d hd with ⟨wake, hwake, hwaker, hview⟩
      exact ⟨wake, hwake, hwaker, (computePollWakes_getElem? hs _).trans (congrArg some hview)⟩
    · intro taskId htask index s hs hdirect p hview hpos
      rcases mem_pollsByTask.mp (List.mem_of_getElem? hs) with ⟨⟨w, hw, hpoll⟩, rfl⟩
      rw [taskPollWakes, computePollWakes_getElem? hs, Option.some.injEq] at hview
      have hd := (halike _ htask index _ hs hdirect).reported p hview hpos w
      rw [← delayOf_inferred htask hdirect] at hd
      exact ⟨_, mem_computeSchedulingDelays.mpr ⟨w, hw, s, hpoll, hd⟩, rfl, rfl, rfl, rfl⟩

/-- The list of issues and the view of a task give one delay, exactly where no wake that a poll
answers falls between two polls that touch. -/
theorem delaysAgree_iff
    (hpolls : ∀ taskId ≠ 0, NonOverlapping (pollsByTask workerSpans workerIds taskId)) :
    DelaysAgree workerSpans workerIds wakesByTask ↔
      ∀ taskId ≠ 0, ∀ s ∈ pollsByTask workerSpans workerIds taskId, s.schedulingDelay = none →
        Clear (pollsByTask workerSpans workerIds taskId) (wakesByTask (some taskId)) s := by
  rw [delaysAgree_iff_alike]
  constructor
  · intro halike taskId htask s hs hdirect
    rcases List.mem_iff_getElem.mp hs with ⟨index, hindex, rfl⟩
    exact ((hpolls taskId htask).alike_iff hindex).mp
      (halike taskId htask index _ (List.getElem?_eq_getElem hindex) hdirect)
  · intro hclear taskId htask index s hs hdirect
    rcases List.getElem?_eq_some_iff.mp hs with ⟨hindex, rfl⟩
    exact ((hpolls taskId htask).alike_iff hindex).mpr
      (hclear taskId htask _ (List.getElem_mem hindex) hdirect)

/-- One worker, with three polls of one task, the first two touching. -/
def touchingLanes : Int → Option WorkerLane := fun w =>
  if w = 0 then
    some ⟨[⟨0, 10, 7, none, none, none, false⟩, ⟨10, 20, 7, none, none, none, false⟩,
      ⟨30, 40, 7, none, none, none, false⟩], [], []⟩
  else none

/-- The task is woken at one time. -/
def wokenAt (time : Int) : Option Nat → List TaskWake := fun task =>
  if task = some 7 then [⟨time, some 3, 0⟩] else []

theorem pollsByTask_touchingLanes {taskId : Nat} (htask : taskId ≠ 7) :
    pollsByTask touchingLanes [0] taskId = [] := by
  rw [pollsByTask]
  have hnone : ([0].flatMap (pollsOf touchingLanes)).filter (fun s => s.taskId = taskId) = [] := by
    apply List.filter_eq_nil_iff.mpr
    intro s hs
    have hseven : ∀ s ∈ [0].flatMap (pollsOf touchingLanes), s.taskId = 7 := by decide
    rw [decide_eq_true_eq, hseven s hs]
    exact htask.symm
  rw [hnone]
  rfl

theorem nonOverlapping_touchingLanes (taskId : Nat) :
    NonOverlapping (pollsByTask touchingLanes [0] taskId) := by
  by_cases htask : taskId = 7
  · subst htask
    exact ⟨by decide, by decide⟩
  · rw [pollsByTask_touchingLanes htask]
    exact ⟨.nil, fun p hp => absurd hp List.not_mem_nil⟩

/-- Woken inside the first poll, the last waits from its end by both accounts. -/
theorem delaysAgree_iff_wokenAt_five : DelaysAgree touchingLanes [0] (wokenAt 5) := by
  rw [delaysAgree_iff fun taskId _ => nonOverlapping_touchingLanes taskId]
  intro taskId _ s hs _
  by_cases htask : taskId = 7
  · subst htask
    intro wake hwake _ b hmeets
    have htime : wake.timestamp = 5 := by
      rcases Option.bind_eq_some_iff.mp hwake with ⟨best, _, hbest⟩
      have hmem : wake ∈ wokenAt 5 (some 7) := List.mem_of_getElem? hbest
      rw [List.mem_singleton.mp hmem]
    have hends : ∀ a ∈ pollsByTask touchingLanes [0] 7, a.endTs ≠ 5 := by decide
    rcases hmeets.ends with ⟨a, ha, hend⟩
    exact absurd (hend.trans htime) (hends a ha)
  · rw [pollsByTask_touchingLanes htask] at hs
    exact absurd hs List.not_mem_nil

/-- Woken where the first poll ends and the second begins, the last waits from there by one
account and from the end of the second by the other. -/
theorem touchingLanes_disagree :
    (∀ taskId ≠ 0, NonOverlapping (pollsByTask touchingLanes [0] taskId)) ∧
      ¬ DelaysAgree touchingLanes [0] (wokenAt 10) ∧
      computeSchedulingDelays touchingLanes [0] (wokenAt 10) =
        [⟨20, 30, 10, 7, some 3, 0, ⟨30, 40, 7, none, none, none, false⟩⟩] ∧
      (taskPollWakes touchingLanes [0] (wokenAt 10) 7)[2]? =
        some (some ⟨⟨10, some 3, 0⟩, 10⟩) := by
  refine ⟨fun taskId _ => nonOverlapping_touchingLanes taskId, fun hagree => ?_, by decide, by
    decide⟩
  rcases hagree.emitted 7 (by decide) 2 ⟨30, 40, 7, none, none, none, false⟩ (by decide) rfl
    ⟨20, 30, 10, 7, some 3, 0, ⟨30, 40, 7, none, none, none, false⟩⟩ (by decide) rfl
    with ⟨wake, _, _, hview⟩
  have htold : (taskPollWakes touchingLanes [0] (wokenAt 10) 7)[2]? =
      some (some ⟨⟨10, some 3, 0⟩, 10⟩) := by decide
  rw [htold] at hview
  cases hview

end Dial9.Viewer.Spans
