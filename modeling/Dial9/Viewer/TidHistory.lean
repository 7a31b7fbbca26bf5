/-
# What the bindings of threads say

A park or an unpark binds a worker to a thread. Where two such events of one
worker, next to each other, name two threads, the worker passed from one to the
other at a time between them that nothing tells. The tables of the first pass
answer two questions about the events they were built from: was a thread one of
the two of such a turnover around a time, and what was it last bound to by then.
-/

import Dial9.Lib.OrderStatistics
import Dial9.Viewer.Ties

namespace Dial9.Viewer.Polls

open Lib (takeWhile_eq_filter)

/-! ## Bounds -/

/-- A park or an unpark, read as a worker running on a thread at a time. -/
structure Bound where
  time : Nat
  tid : Nat
  workerId : Nat
  deriving DecidableEq

def bound (event : TraceEvent) : Option Bound :=
  (binding event).map fun parts => ⟨parts.1, parts.2.1, parts.2.2.1⟩

def bounds (events : List TraceEvent) : List Bound := events.filterMap bound

def ofWorker (bounds : List Bound) (workerId : Nat) : List Bound :=
  bounds.filter fun bound => bound.workerId = workerId

def ofTid (bounds : List Bound) (tid : Nat) : List Bound :=
  bounds.filter fun bound => bound.tid = tid

/-- Two bounds of one worker, next to each other, that name two threads. -/
structure Turnover (bounds : List Bound) (prev next : Bound) : Prop where
  adjacent : [prev, next] <:+: ofWorker bounds next.workerId
  differ : prev.tid ≠ next.tid

/-- The interval of a turnover to or from the thread. -/
def Gap (bounds : List Bound) (tid : Nat) (gap : Nat × Nat) : Prop :=
  ∃ prev next, Turnover bounds prev next ∧ (tid = prev.tid ∨ tid = next.tid) ∧
    gap = (prev.time, next.time)

/-- The time lies in the interval. -/
def Covers (gap : Nat × Nat) (time : Nat) : Prop := gap.1 ≤ time ∧ time < gap.2

/-- The thread is one of the two of a turnover around the time. -/
def Handoff (bounds : List Bound) (tid time : Nat) : Prop :=
  ∃ gap, Gap bounds tid gap ∧ Covers gap time

/-- The worker that the thread was last bound to by the time. -/
def boundAt (bounds : List Bound) (tid time : Nat) : Option Nat :=
  ((ofTid bounds tid).filter fun bound => bound.time ≤ time).getLast?.map Bound.workerId

/-- The worker of the last bound of the thread. -/
def lastBound (bounds : List Bound) (tid : Nat) : Option Nat :=
  (ofTid bounds tid).getLast?.map Bound.workerId

variable {bounds : List Bound} {b prev next : Bound} {tid workerId time : Nat}

@[simp] theorem ofWorker_concat :
    ofWorker (bounds ++ [b]) workerId =
      if b.workerId = workerId then ofWorker bounds workerId ++
        [b] else ofWorker bounds workerId := by
  by_cases h : b.workerId = workerId
  · simp [ofWorker, h]
  · simp [ofWorker, h]

@[simp] theorem ofTid_concat :
    ofTid (bounds ++ [b]) tid =
      if b.tid = tid then ofTid bounds tid ++ [b] else ofTid bounds tid := by
  by_cases h : b.tid = tid
  · simp [ofTid, h]
  · simp [ofTid, h]

theorem pair_infix_concat {α : Type} {as : List α} {a x y : α} :
    [x, y] <:+: as ++ [a] ↔ [x, y] <:+: as ∨ (as.getLast? = some x ∧ y = a) := by
  rw [List.infix_concat_iff]
  constructor
  · rintro (hsuffix | hinfix)
    · rcases hsuffix with ⟨front, hfront⟩
      have hsplit : (front ++ [x]) ++ [y] = as ++ [a] := by simpa using hfront
      rcases List.append_inj' hsplit rfl with ⟨rfl, hlast⟩
      exact .inr ⟨List.getLast?_concat, (List.cons.inj hlast).1⟩
    · exact .inl hinfix
  · rintro (hinner | ⟨hlast, rfl⟩)
    · exact .inr hinner
    · rcases List.getLast?_eq_some_iff.mp hlast with ⟨front, rfl⟩
      exact .inl ⟨front, by simp⟩

theorem turnover_concat :
    Turnover (bounds ++ [b]) prev next ↔
      Turnover bounds prev next ∨
        ((ofWorker bounds b.workerId).getLast? = some prev ∧ next = b ∧ prev.tid ≠ b.tid) := by
  constructor
  · rintro ⟨hadjacent, hdiffer⟩
    rw [ofWorker_concat] at hadjacent
    by_cases hworker : b.workerId = next.workerId
    · rw [if_pos hworker, pair_infix_concat] at hadjacent
      rcases hadjacent with hadjacent | ⟨hlast, rfl⟩
      · exact .inl ⟨hadjacent, hdiffer⟩
      · exact .inr ⟨hlast, rfl, hdiffer⟩
    · rw [if_neg hworker] at hadjacent
      exact .inl ⟨hadjacent, hdiffer⟩
  · rintro (⟨hadjacent, hdiffer⟩ | ⟨hlast, rfl, hdiffer⟩)
    · refine ⟨?_, hdiffer⟩
      rw [ofWorker_concat]
      by_cases hworker : b.workerId = next.workerId
      · rw [if_pos hworker, pair_infix_concat]
        exact .inl hadjacent
      · rw [if_neg hworker]
        exact hadjacent
    · refine ⟨?_, hdiffer⟩
      rw [ofWorker_concat, if_pos rfl, pair_infix_concat]
      exact .inr ⟨hlast, rfl⟩

variable {current gap : Nat × Nat}

theorem gap_concat :
    Gap (bounds ++ [b]) tid gap ↔
      Gap bounds tid gap ∨
        ∃ prev, (ofWorker bounds b.workerId).getLast? = some prev ∧ prev.tid ≠ b.tid ∧
          (tid = prev.tid ∨ tid = b.tid) ∧ gap = (prev.time, b.time) := by
  simp only [Gap, turnover_concat]
  constructor
  · rintro ⟨prev, next, hturn | ⟨hlast, rfl, hdiffer⟩, hrest⟩
    · exact .inl ⟨prev, next, hturn, hrest⟩
    · exact .inr ⟨prev, hlast, hdiffer, hrest⟩
  · rintro (⟨prev, next, hturn, hrest⟩ | ⟨prev, hlast, hdiffer, hrest⟩)
    · exact ⟨prev, next, .inl hturn, hrest⟩
    · exact ⟨prev, b, .inr ⟨hlast, rfl, hdiffer⟩, hrest⟩

/-! ## Intervals and positions -/

section Positions

variable {α : Type}

variable {as : List α}

theorem getLast?_of_partitionPoint_zero {p : α → Bool}
    (h : partitionPoint p as = 0) : (as.takeWhile p).getLast? = none := by
  rw [List.eq_nil_of_length_eq_zero h, List.getLast?_nil]

theorem getLast?_of_partitionPoint_succ {p : α → Bool} {index : Nat}
    (h : partitionPoint p as = index + 1) : (as.takeWhile p).getLast? = as[index]? := by
  have hlength : (as.takeWhile p).length = index + 1 := h
  have hlast : (as.takeWhile p).getLast? = (as.takeWhile p)[index]? := by
    rw [List.getLast?_eq_getElem?, hlength, Nat.add_sub_cancel]
  rw [hlast]
  conv_rhs => rw [← List.takeWhile_append_dropWhile (p := p) (l := as)]
  rw [List.getElem?_append_left (by omega)]

/-- Where the ones before it no longer hold, the last to meet `p` is all that can hold. -/
theorem probe_eq_some_iff {p q : α → Bool} {a : α}
    (hdown : as.Pairwise fun a b => p b = true → p a = true)
    (hleft : as.Pairwise fun a b => p b = true → q a = false) :
    (as.takeWhile p).getLast?.filter q = some a ↔ a ∈ as ∧ p a = true ∧ q a = true := by
  rw [takeWhile_eq_filter hdown, Option.filter_eq_some_iff]
  constructor
  · rintro ⟨hlast, hq⟩
    obtain ⟨hmem, hp⟩ := List.mem_filter.mp (List.mem_of_getLast? hlast)
    exact ⟨hmem, hp, hq⟩
  · rintro ⟨hmem, hp, hq⟩
    refine ⟨?_, hq⟩
    obtain ⟨front, back, rfl⟩ := List.append_of_mem hmem
    have hback : back.filter p = [] := by
      apply List.filter_eq_nil_iff.mpr
      intro b hb hpb
      have hcons := (List.pairwise_append.mp hleft).2.1
      rw [(List.pairwise_cons.mp hcons).1 b hb hpb] at hq
      cases hq
    rw [List.filter_append, List.filter_cons_of_pos hp, hback]
    exact List.getLast?_concat

end Positions

variable {rest : List (Nat × Nat)}

theorem mem_joinInto_start (h : gap ∈ joinInto current rest) :
    gap.1 = current.1 ∨ ∃ other ∈ rest, gap.1 = other.1 := by
  induction rest generalizing current with
  | nil =>
    left
    rw [joinInto, List.mem_singleton] at h
    rw [h]
  | cons next rest ih =>
    rw [joinInto] at h
    by_cases hreach : next.1 ≤ current.2
    · rw [if_pos hreach] at h
      rcases ih h with hstart | ⟨other, hother, hstart⟩
      · exact .inl hstart
      · exact .inr ⟨other, List.mem_cons_of_mem _ hother, hstart⟩
    · rw [if_neg hreach] at h
      rcases List.mem_cons.mp h with rfl | hlater
      · exact .inl rfl
      · right
        rcases ih hlater with hstart | ⟨other, hother, hstart⟩
        · exact ⟨next, List.mem_cons_self, hstart⟩
        · exact ⟨other, List.mem_cons_of_mem _ hother, hstart⟩

theorem joinInto_separated (hsorted : (current :: rest).Pairwise fun a b => a.1 ≤ b.1) :
    (joinInto current rest).Pairwise fun a b => a.1 ≤ b.1 ∧ a.2 < b.1 := by
  induction rest generalizing current with
  | nil => exact List.pairwise_singleton _ _
  | cons next rest ih =>
    rcases List.pairwise_cons.mp hsorted with ⟨hfirst, hrest⟩
    rcases List.pairwise_cons.mp hrest with ⟨hnext, hlater⟩
    rw [joinInto]
    by_cases hreach : next.1 ≤ current.2
    · rw [if_pos hreach]
      apply ih
      exact List.pairwise_cons.mpr
        ⟨fun other hother => hfirst other (List.mem_cons_of_mem _ hother), hlater⟩
    · rw [if_neg hreach]
      apply List.pairwise_cons.mpr
      refine ⟨fun gap hgap => ?_, ih hrest⟩
      have hstart : next.1 ≤ gap.1 := by
        rcases mem_joinInto_start hgap with hstart | ⟨other, hother, hstart⟩
        · exact hstart.ge
        · exact (hnext other hother).trans hstart.ge
      have hcurrent := hfirst next List.mem_cons_self
      omega

/-- Joining intervals covers the same times. -/
theorem covers_joinInto (hsorted : (current :: rest).Pairwise fun a b => a.1 ≤ b.1) :
    (∃ gap ∈ joinInto current rest, Covers gap time) ↔
      ∃ gap ∈ current :: rest, Covers gap time := by
  induction rest generalizing current with
  | nil => rfl
  | cons next rest ih =>
    rcases List.pairwise_cons.mp hsorted with ⟨hfirst, hrest⟩
    rcases List.pairwise_cons.mp hrest with ⟨hnext, hlater⟩
    have hstart := hfirst next List.mem_cons_self
    rw [joinInto]
    by_cases hreach : next.1 ≤ current.2
    · have hjoined : Covers (current.1, max current.2 next.2) time ↔
          Covers current time ∨ Covers next time := by
        simp only [Covers]
        omega
      rw [if_pos hreach, ih]
      · simp only [List.mem_cons, exists_eq_or_imp, hjoined, or_assoc]
      · exact List.pairwise_cons.mpr
          ⟨fun other hother => hfirst other (List.mem_cons_of_mem _ hother), hlater⟩
    · simp only [if_neg hreach, List.exists_mem_cons_iff, ih hrest]

theorem mergeIntervals_separated (intervals : List (Nat × Nat)) :
    (mergeIntervals intervals).Pairwise fun a b => a.1 ≤ b.1 ∧ a.2 < b.1 := by
  have hsorted := List.pairwise_insertionSort (fun a b : Nat × Nat => a.1 ≤ b.1) intervals
  unfold mergeIntervals
  cases hsort : intervals.insertionSort fun a b => a.1 ≤ b.1 with
  | nil => exact List.Pairwise.nil
  | cons first rest =>
    rw [hsort] at hsorted
    exact joinInto_separated hsorted

theorem covers_mergeIntervals (intervals : List (Nat × Nat)) (time : Nat) :
    (∃ gap ∈ mergeIntervals intervals, Covers gap time) ↔ ∃ gap ∈ intervals, Covers gap time := by
  have hsorted := List.pairwise_insertionSort (fun a b : Nat × Nat => a.1 ≤ b.1) intervals
  have hmem : ∀ gap, gap ∈ intervals.insertionSort (fun a b => a.1 ≤ b.1) ↔ gap ∈ intervals :=
    fun gap => (List.perm_insertionSort _ intervals).mem_iff
  unfold mergeIntervals
  cases hsort : intervals.insertionSort fun a b => a.1 ≤ b.1 with
  | nil =>
    simp only [hsort, List.not_mem_nil, false_iff] at hmem
    simp [hmem]
  | cons first rest =>
    rw [hsort] at hsorted hmem
    simp only [covers_joinInto hsorted, hmem]

/-! ## The first pass -/

variable {event : TraceEvent}

theorem binding_of_bound (h : bound event = some b) :
    ∃ isUnpark, binding event = some (b.time, b.tid, b.workerId, isUnpark) := by
  rcases Option.map_eq_some_iff.mp h with ⟨⟨timestamp, tid, workerId, isUnpark⟩, hbinding, rfl⟩
  exact ⟨isUnpark, hbinding⟩

theorem binding_of_unbound (h : bound event = none) : binding event = none :=
  Option.map_eq_none_iff.mp h

theorem time_of_bound (h : bound event = some b) : b.time = event.timestampNs := by
  cases event with
  | workerPark | workerUnpark => cases h; rfl
  | pollStart | pollEnd | taskSpawn | taskTerminate | wake | cpuSample => cases h

variable {events : List TraceEvent}

theorem bounds_concat_some
    (h : bound event = some b) : Polls.bounds (events ++ [event]) = Polls.bounds events ++ [b] := by
  simp [Polls.bounds, h]

theorem bounds_concat_none
    (h : bound event = none) : Polls.bounds (events ++ [event]) = Polls.bounds events := by
  simp [Polls.bounds, h]

theorem bounds_sorted (h : events.Pairwise fun a b => a.timestampNs ≤ b.timestampNs) :
    (Polls.bounds events).Pairwise fun a b => a.time ≤ b.time := by
  apply List.pairwise_filterMap.mpr
  apply h.imp
  intro a a' hle b hb b' hb'
  rw [time_of_bound hb, time_of_bound hb']
  exact hle

namespace TidTables

/-- The tables hold the last bound of each worker, and the gaps of each thread. -/
structure Tracks (tables : TidTables) (bounds : List Bound) : Prop where
  worker : ∀ workerId,
    (tables.workerTidState workerId).map (fun state => (expectedTid state, state.lastEvent)) =
      (ofWorker bounds workerId).getLast?.map fun bound => (bound.tid, bound.time)
  gaps : ∀ tid gap, gap ∈ tables.tidHandoffGaps tid ↔ Gap bounds tid gap

variable {tables : TidTables} {event : TraceEvent}

theorem tracks_empty : Tracks .empty [] where
  worker := fun _ => rfl
  gaps := by
    intro tid gap
    constructor
    · intro hgap
      cases hgap
    · rintro ⟨prev, next, ⟨hadjacent, -⟩, -⟩
      simpa [ofWorker] using hadjacent.length_le

@[simp] theorem expectedTid_mk {isUnpark : Bool} :
    expectedTid ⟨if isUnpark then some tid else none, tid, time⟩ = tid := by
  cases isUnpark with
  | false | true => rfl

theorem Tracks.bind (h : Tracks tables bounds) (hbound : bound event = some b) :
    Tracks (tables.bind event) (bounds ++ [b]) := by
  rcases binding_of_bound hbound with ⟨isUnpark, hbinding⟩
  have hlast := h.worker b.workerId
  constructor
  · intro other
    rw [bind_worker hbinding, ofWorker_concat]
    by_cases heq : other = b.workerId
    · subst heq
      simp
    · rw [if_neg heq, if_neg (Ne.symm heq)]
      exact h.worker other
  · intro tid gap
    rw [gap_concat, ← h.gaps]
    cases hstate : tables.workerTidState b.workerId with
    | none =>
      rw [hstate, Option.map_none] at hlast
      have hnone := Option.map_eq_none_iff.mp hlast.symm
      simp [bind_gaps_none hbinding hstate, hnone]
    | some state =>
      rw [hstate, Option.map_some] at hlast
      rcases Option.map_eq_some_iff.mp hlast.symm with ⟨prev, hprev, hpair⟩
      rcases Prod.mk.inj hpair with ⟨htid, htime⟩
      rw [bind_gaps_some hbinding hstate, ← htid, ← htime, hprev]
      by_cases hturn : prev.tid ≠ b.tid ∧ (tid = b.tid ∨ tid = prev.tid)
      · rw [if_pos hturn, List.mem_append, List.mem_singleton]
        simp only [Option.some.injEq, exists_eq_left', hturn.1, hturn.2.symm, true_and,
          ne_eq, not_false_eq_true]
      · rw [if_neg hturn]
        constructor
        · exact .inl
        · rintro (hmem | ⟨_, ⟨⟩, hdiffer, htids, -⟩)
          · exact hmem
          · exact absurd ⟨hdiffer, htids.symm⟩ hturn

theorem tracks_foldl (events : List TraceEvent) :
    Tracks (events.foldl TidTables.bind .empty) (Polls.bounds events) := by
  induction events using List.reverseRecOn with
  | nil => exact tracks_empty
  | append_singleton events event ih =>
    rw [List.foldl_concat]
    cases hbound : bound event with
    | none =>
      rw [bind_of_none (binding_of_unbound hbound), bounds_concat_none hbound]
      exact ih
    | some b =>
      rw [bounds_concat_some hbound]
      exact ih.bind hbound

/-- The bindings of one thread answer for its bounds at every time. -/
structure Answers (bindings : List (Nat × Nat)) (bounds : List Bound) : Prop where
  sorted : bindings.Pairwise fun a b => a.1 ≤ b.1
  times : ∀ entry ∈ bindings, ∃ bound ∈ bounds, entry.1 = bound.time
  last : ∀ time, (bindings.filter fun entry => entry.1 ≤ time).getLast?.map Prod.snd =
    (bounds.filter fun bound => bound.time ≤ time).getLast?.map Bound.workerId

theorem Answers.push {bindings : List (Nat × Nat)} (h : Answers bindings bounds)
    (hlatest : ∀ bound ∈ bounds, bound.time ≤ b.time) :
    Answers (pushBinding bindings b.time b.workerId) (bounds ++ [b]) := by
  have hbefore : ∀ entry ∈ bindings, entry.1 ≤ b.time := by
    intro entry hentry
    rcases h.times entry hentry with ⟨bound, hbound, htime⟩
    exact htime.trans_le (hlatest bound hbound)
  have htimes : ∀ entry ∈ bindings, ∃ bound ∈ bounds ++ [b], entry.1 = bound.time := by
    intro entry hentry
    rcases h.times entry hentry with ⟨bound, hbound, htime⟩
    exact ⟨bound, List.mem_append_left _ hbound, htime⟩
  unfold pushBinding
  by_cases hchanged : bindings.getLast?.all (·.2 ≠ b.workerId) = true
  · rw [if_pos hchanged]
    constructor
    · apply List.pairwise_append.mpr
      refine ⟨h.sorted, List.pairwise_singleton _ _, ?_⟩
      intro entry hentry last hlast
      rw [List.mem_singleton.mp hlast]
      exact hbefore entry hentry
    · intro entry hentry
      rcases List.mem_append.mp hentry with hearlier | hnew
      · exact htimes entry hearlier
      · exact ⟨b, List.mem_concat_self, by rw [List.mem_singleton.mp hnew]⟩
    · intro time
      by_cases htime : b.time ≤ time
      · simp only [List.filter_append, List.filter_singleton, htime, decide_true, cond_true,
          List.getLast?_concat, Option.map_some]
      · simp only [List.filter_append, List.filter_singleton, htime, decide_false, cond_false,
          List.append_nil]
        exact h.last time
  · rw [if_neg hchanged]
    refine ⟨h.sorted, htimes, ?_⟩
    intro time
    by_cases htime : b.time ≤ time
    · -- Every entry is at or before the new bound, and the last one has its worker.
      have hall : bindings.filter (fun entry => entry.1 ≤ time) = bindings := by
        apply List.filter_eq_self.mpr
        exact fun entry hentry => decide_eq_true ((hbefore entry hentry).trans htime)
      have hworker : bindings.getLast?.map Prod.snd = some b.workerId := by
        cases hlast : bindings.getLast? with
        | none => simp [hlast] at hchanged
        | some entry => simpa [hlast] using hchanged
      simp only [hall, hworker, List.filter_append, List.filter_singleton, htime, decide_true,
        cond_true, List.getLast?_concat, Option.map_some]
    · simp only [List.filter_append, List.filter_singleton, htime, decide_false, cond_false,
        List.append_nil]
      exact h.last time

theorem answers_foldl {events : List TraceEvent}
    (hsorted : (Polls.bounds events).Pairwise fun a b => a.time ≤ b.time) (tid : Nat) :
    Answers ((events.foldl TidTables.bind .empty).tidBindings tid)
      (ofTid (Polls.bounds events) tid) := by
  induction events using List.reverseRecOn with
  | nil =>
      exact ⟨List.Pairwise.nil, fun entry hentry => absurd hentry List.not_mem_nil, fun _ => rfl⟩
  | append_singleton events event ih =>
    rw [List.foldl_concat]
    cases hbound : bound event with
    | none =>
      rw [bounds_concat_none hbound] at hsorted ⊢
      rw [bind_of_none (binding_of_unbound hbound)]
      exact ih hsorted
    | some b =>
      rw [bounds_concat_some hbound] at hsorted ⊢
      rcases binding_of_bound hbound with ⟨isUnpark, hbinding⟩
      rcases List.pairwise_append.mp hsorted with ⟨hearlier, -, hlatest⟩
      have hanswers := ih hearlier
      rw [bind_bindings hbinding, ofTid_concat]
      by_cases htid : tid = b.tid
      · subst htid
        rw [if_pos rfl, if_pos rfl]
        apply hanswers.push
        intro bound hmem
        exact hlatest bound (List.mem_of_mem_filter hmem) b (List.mem_singleton_self b)
      · rw [if_neg htid, if_neg (Ne.symm htid)]
        exact hanswers

end TidTables

/-! ## The timeline -/

namespace PollTimeline

variable {sortRecords : List PollRecord → List PollRecord} {events : List TraceEvent}

theorem tidIsInHandoffGap_eq (timeline : PollTimeline) (tid time : Nat) :
    timeline.tidIsInHandoffGap tid time =
      ((timeline.tidHandoffGaps tid).takeWhile fun gap => decide (gap.1 ≤ time)).getLast?.any
        fun gap => decide (time < gap.2) := by
  rw [tidIsInHandoffGap]
  cases hpoint : partitionPoint (fun gap : Nat × Nat => decide (gap.1 ≤ time))
      (timeline.tidHandoffGaps tid) with
  | zero => rw [getLast?_of_partitionPoint_zero hpoint, Option.any_none]
  | succ index => rw [getLast?_of_partitionPoint_succ hpoint]

theorem workerForTidAt_eq (timeline : PollTimeline) {tid time : Nat}
    (hgap : ¬ timeline.tidIsInHandoffGap tid time = true) :
    timeline.workerForTidAt tid time =
      ((timeline.tidBindings tid).takeWhile fun entry => decide (entry.1 ≤ time)).getLast?.map
        Prod.snd := by
  rw [workerForTidAt, if_neg hgap]
  dsimp only
  cases hpoint : partitionPoint (fun entry : Nat × Nat => decide (entry.1 ≤ time))
      (timeline.tidBindings tid) with
  | zero => rw [getLast?_of_partitionPoint_zero hpoint, Option.map_none]
  | succ index => rw [getLast?_of_partitionPoint_succ hpoint]

/-- A thread is in a gap of the timeline when one that the first pass recorded covers the time. -/
theorem tidIsInHandoffGap_iff_covers (tid time : Nat) :
    (reconstruct sortRecords events).tidIsInHandoffGap tid time = true ↔
      ∃ gap ∈ (events.foldl TidTables.bind .empty).tidHandoffGaps tid, Covers gap time := by
  let gaps : List (Nat × Nat) :=
    mergeIntervals ((events.foldl TidTables.bind .empty).tidHandoffGaps tid)
  have hseparated : gaps.Pairwise fun a b => a.1 ≤ b.1 ∧ a.2 < b.1 := mergeIntervals_separated _
  have hprobe (gap : Nat × Nat) := probe_eq_some_iff (a := gap)
    (p := fun gap => decide (gap.1 ≤ time)) (q := fun gap => decide (time < gap.2))
    (hseparated.imp fun hab hb => decide_eq_true (hab.1.trans (of_decide_eq_true hb)))
    (hseparated.imp fun hab hb => decide_eq_false (by
      have hstart := of_decide_eq_true hb
      omega))
  rw [← covers_mergeIntervals, tidIsInHandoffGap_eq, Option.any_eq_true]
  refine exists_congr fun gap => ?_
  refine Option.filter_eq_some_iff.symm.trans ((hprobe gap).trans (and_congr_right fun _ => ?_))
  rw [decide_eq_true_eq, decide_eq_true_eq]
  rfl

theorem tidIsInHandoffGap_reconstruct (tid time : Nat) :
    (reconstruct sortRecords events).tidIsInHandoffGap tid time = true ↔
      Handoff (Polls.bounds events) tid time := by
  rw [tidIsInHandoffGap_iff_covers]
  simp only [(TidTables.tracks_foldl events).gaps, Handoff]

/-- The timeline answers with the last bound of the thread, outside turnovers. -/
theorem workerForTidAt_reconstruct
    (hsorted : events.Pairwise fun a b => a.timestampNs ≤ b.timestampNs) (tid time : Nat)
    (hoff : ¬ Handoff (Polls.bounds events) tid time) :
    (reconstruct sortRecords events).workerForTidAt tid time =
      boundAt (Polls.bounds events) tid time := by
  let bindings : List (Nat × Nat) := (events.foldl TidTables.bind .empty).tidBindings tid
  have hanswers : TidTables.Answers bindings (ofTid (Polls.bounds events) tid) :=
    TidTables.answers_foldl (bounds_sorted hsorted) tid
  have hfilter : bindings.takeWhile (fun entry => decide (entry.1 ≤ time)) =
      bindings.filter fun entry => decide (entry.1 ≤ time) := by
    apply takeWhile_eq_filter
    apply hanswers.sorted.imp
    intro a b hab hb
    exact decide_eq_true (hab.trans (of_decide_eq_true hb))
  have hgap := mt (@tidIsInHandoffGap_reconstruct sortRecords events tid time).mp hoff
  rw [workerForTidAt_eq _ hgap, boundAt, ← hanswers.last time, ← hfilter]
  rfl

theorem workerForTidAt_handoff {tid time : Nat} (h : Handoff (Polls.bounds events) tid time) :
    (reconstruct sortRecords events).workerForTidAt tid time = none := by
  rw [workerForTidAt, if_pos ((tidIsInHandoffGap_reconstruct tid time).mpr h)]

end PollTimeline

end Dial9.Viewer.Polls
