/-
# The two builders of worker spans

The columnar builder is a copy of the frozen one, over indices. The copies differ in one
thing: at an unpark the frozen builder drops a poll that is still open, and the columnar
one keeps it until the worker's next event closes it. So they agree exactly where no
worker unparks between the start of a poll and its next event of another kind.
-/

import Dial9.Viewer.WorkerSpansColumnar

namespace Dial9.Viewer.Columnar

open Lib Spans

/-! ## The columnar builder over events -/

namespace Emission

def poll? : Emission → Option PollSpan
  | poll p => some p
  | park _ => none
  | active _ => none

def park? : Emission → Option ParkSpan
  | poll _ => none
  | park p => some p
  | active _ => none

def active? : Emission → Option ActiveSpan
  | poll _ => none
  | park _ => none
  | active a => some a

end Emission

/-- The lane that some emissions make. -/
def laneOf (emissions : List Emission) : WorkerLane where
  polls := emissions.filterMap Emission.poll?
  parks := emissions.filterMap Emission.park?
  actives := emissions.filterMap Emission.active?

theorem laneOf_poll (emissions : List Emission) (poll : PollSpan) :
    laneOf (emissions ++ [.poll poll]) =
      { laneOf emissions with polls := (laneOf emissions).polls ++ [poll] } := by
  simp only [laneOf, List.filterMap_append, List.filterMap_cons, Emission.poll?, Emission.park?,
    Emission.active?, List.filterMap_nil, List.append_nil]

theorem laneOf_park (emissions : List Emission) (park : ParkSpan) :
    laneOf (emissions ++ [.park park]) =
      { laneOf emissions with parks := (laneOf emissions).parks ++ [park] } := by
  simp only [laneOf, List.filterMap_append, List.filterMap_cons, Emission.poll?, Emission.park?,
    Emission.active?, List.filterMap_nil, List.append_nil]

theorem laneOf_active (emissions : List Emission) (active : ActiveSpan) :
    laneOf (emissions ++ [.active active]) =
      { laneOf emissions with actives := (laneOf emissions).actives ++ [active] } := by
  simp only [laneOf, List.filterMap_append, List.filterMap_cons, Emission.poll?, Emission.park?,
    Emission.active?, List.filterMap_nil, List.append_nil]

namespace IndexState

/-- The lane state that an index state stands for. -/
def toLane (s : IndexState) : LaneState where
  openPoll := s.openPoll
  openPark := s.openPark
  openUnpark := s.openUnpark
  lane := laneOf s.emitted
  queueSamples := s.queueSamples.map fun sample => ⟨sample.1, sample.2.toNat⟩

section

variable (s : IndexState)
include s

@[simp] theorem setPoll_toLane (poll : Option OpenPoll) :
    (s.setPoll poll).toLane = s.toLane.setPoll poll := rfl

@[simp] theorem startPark_toLane (start : Int) :
    (s.startPark start).toLane = s.toLane.startPark start := rfl

@[simp] theorem startActive_toLane (unpark : OpenUnpark) :
    (s.startActive unpark).toLane = s.toLane.startActive unpark := rfl

@[simp] theorem closePoll_toLane (endTs : Int) (openEnded : Bool) :
    (s.closePoll endTs openEnded).toLane = s.toLane.closePoll endTs openEnded := by
  rcases s with ⟨_ | poll, openPark, openUnpark, emitted, queueSamples⟩
  · rfl
  · simp only [closePoll, emit, toLane, laneOf_poll, LaneState.closePoll]

@[simp] theorem closePark_toLane (endTs : Int) (schedWait : Option Int) :
    (s.closePark endTs schedWait).toLane = s.toLane.closePark endTs schedWait := by
  rcases s with ⟨openPoll, _ | start, openUnpark, emitted, queueSamples⟩
  · rfl
  · simp only [closePark, emit, toLane, laneOf_park, LaneState.closePark]

@[simp] theorem closeActive_toLane (gaps : List BlockInPlaceGap) (activeEnd cpuTime : Int) :
    (s.closeActive gaps activeEnd cpuTime).toLane =
      s.toLane.closeActive gaps activeEnd cpuTime := by
  rcases s with ⟨openPoll, openPark, _ | unpark, emitted, queueSamples⟩
  · rfl
  · simp only [closeActive, emit, toLane, LaneState.closeActive]
    cases activeSpan gaps unpark activeEnd cpuTime with
    | none => simp only [Option.toList_none, List.map_nil, List.append_nil]
    | some active =>
      simp only [Option.toList_some, List.map_cons, List.map_nil, laneOf_active]

end

end IndexState

/-- The columnar builder's step: as the frozen one's, with the poll kept at an unpark. -/
def copyStep (gaps : List BlockInPlaceGap) (s : LaneState) (e : TraceEvent) : LaneState :=
  if e.eventType = .workerUnpark then (s.step gaps e).setPoll s.openPoll else s.step gaps e

/-- What the builders are given of an event. -/
structure Given (store : ColumnarEvents) (i : Nat) (e : TraceEvent) : Prop where
  row : Row store i e
  spawnLoc : e.spawnLocId = e.spawnLoc

variable {e : TraceEvent}

variable {i : Nat}

variable {store : ColumnarEvents}

theorem Given.eventTypeAt_eq (h : Given store i e) (t : EventType) :
    decide (store.eventTypeAt i = t.code) = decide (e.eventType = t) := by
  rw [h.row.eventType]
  exact decide_eq_decide.mpr EventType.code_inj

theorem Given.isSampledAt (h : Given store i e) : isSampledAt store i = isSampled e :=
  congrArg₂ or (congrArg₂ or (h.eventTypeAt_eq .pollStart) (h.eventTypeAt_eq .workerPark))
    (h.eventTypeAt_eq .workerUnpark)

theorem step_toLane {gaps : List BlockInPlaceGap} {s : IndexState} (h : Given store i e) :
    (s.step store gaps i).toLane = copyStep gaps s.toLane e := by
  have hcode : ∀ t : EventType, store.eventTypeAt i = t.code ↔ e.eventType = t :=
    fun t => decide_eq_decide.mp (h.eventTypeAt_eq t)
  have hstart : store.eventTypeAt i = EVT.pollStart ↔ e.eventType = .pollStart := hcode .pollStart
  have hend : store.eventTypeAt i = EVT.pollEnd ↔ e.eventType = .pollEnd := hcode .pollEnd
  have hpark : store.eventTypeAt i = EVT.workerPark ↔ e.eventType = .workerPark := hcode .workerPark
  have hunpark : store.eventTypeAt i = EVT.workerUnpark ↔ e.eventType = .workerUnpark :=
    hcode .workerUnpark
  have hsample : (s.sample e.timestamp (store.localQueueAt i)).toLane = s.toLane.sample e := by
    simp only [IndexState.toLane, IndexState.sample, LaneState.sample, List.map_append,
      List.map_cons, List.map_nil, h.row.localQueue]
  rw [IndexState.step, copyStep, LaneState.step]
  simp only [hstart, hend, hpark, hunpark, h.isSampledAt, isSampled]
  cases e.eventType with
  | pollStart =>
    simp only [reduceCtorEq, decide_true, decide_false, Bool.true_or, if_true, if_false,
      IndexState.setPoll_toLane, IndexState.closePoll_toLane, hsample, h.row.ts, h.row.taskId,
      h.row.spawnLoc, h.row.schedulingDelay, h.spawnLoc]
  | pollEnd =>
    simp only [reduceCtorEq, decide_false, Bool.or_self, Bool.false_eq_true, if_true, if_false,
      IndexState.closePoll_toLane, h.row.ts]
  | workerPark =>
    simp only [reduceCtorEq, decide_true, decide_false, Bool.or_true, Bool.true_or, if_true,
      if_false, IndexState.closeActive_toLane, IndexState.startPark_toLane,
      IndexState.closePoll_toLane, hsample, h.row.ts, h.row.cpuTime]
  | workerUnpark =>
    simp only [reduceCtorEq, decide_true, Bool.or_true, if_true, if_false,
      IndexState.startActive_toLane, IndexState.closePark_toLane, hsample, h.row.ts,
      h.row.schedWait, h.row.cpuTime, LaneState.closePark_setPoll,
      LaneState.startActive_setPoll, LaneState.setPoll_setPoll]
    have hopen : ((s.toLane.sample e).closePark e.timestamp e.schedWait).openPoll =
        s.toLane.openPoll := LaneState.closePark_openPoll _ _ _
    rw [← hopen]
    rfl
  | queueSample | wakeEvent => rfl

/-! ## The same events in both builders -/

variable {events : List TraceEvent} {store : ColumnarEvents} {gaps : List BlockInPlaceGap} {w : Int}

/-- The rows of a store are some events. -/
def Stored (store : ColumnarEvents) (events : List TraceEvent) : Prop :=
  List.Forall₂ (Given store) (List.range store.length) events

theorem Given.isLaneAt (h : Given store i e) : isLaneAt store i = inLane e := by
  have hwake := h.eventTypeAt_eq .wakeEvent
  have hqueue := h.eventTypeAt_eq .queueSample
  rw [Columnar.isLaneAt, inLane, decide_not, decide_not, decide_not, decide_not]
  exact congrArg₂ (fun a b => !a && !b) hwake hqueue

theorem Stored.bucket (h : Stored store events) (w : Int) :
    List.Forall₂ (Given store) (bucket store w) (perWorker events w) := by
  rw [Columnar.bucket, perWorker, sortByTime]
  refine forall₂_insertionSort (fun ha hb => ?_) (forall₂_filter (fun hrow => ?_) h)
  · rw [ha.row.ts, hb.row.ts]
  · rw [hrow.isLaneAt, hrow.row.workerId]

theorem Stored.bucketWorkers (h : Stored store events) :
    bucketWorkers store = laneWorkers events := by
  have hlane := forall₂_filter (fun hrow => hrow.isLaneAt) h
  rw [Columnar.bucketWorkers, laneWorkers, map_eq_of_forall₂ (fun hrow => hrow.row.workerId) hlane]

theorem Stored.bucketRun (h : Stored store events) (gaps : List BlockInPlaceGap) (w : Int) :
    (bucketRun store gaps w).toLane =
      (perWorker events w).foldl (copyStep (gapsOf gaps w)) .empty := by
  refine foldl_eq_of_forall₂ (R := Given store) ?_ (h.bucket w) IndexState.empty
  intro s i e hrow
  exact step_toLane hrow

theorem Given.raiseAt (h : Given store i e) (maxLocalQueue : Nat) :
    raiseAt store maxLocalQueue i = raiseLocalQueue maxLocalQueue e := by
  rw [Columnar.raiseAt, raiseLocalQueue, h.isSampledAt, h.row.localQueue]

theorem Stored.maxLocalQueue (h : Stored store events) :
    (Columnar.bucketWorkers store).foldl
        (fun maxLocalQueue w =>
          (Columnar.bucket store w).foldl (Columnar.raiseAt store) maxLocalQueue) 1 =
      (laneWorkers events).foldl
        (fun maxLocalQueue w => (perWorker events w).foldl raiseLocalQueue maxLocalQueue) 1 := by
  rw [h.bucketWorkers]
  congr 1
  funext maxLocalQueue w
  exact foldl_eq_of_forall₂ (v := id) (fun _ _ _ hrow => hrow.raiseAt _) (h.bucket w) maxLocalQueue

theorem Stored.queueSamples (h : Stored store events) :
    ((List.range store.length).filter fun i => store.eventTypeAt i = EVT.queueSample).map
        (fun i => (⟨store.tsAt i, store.globalQueueAt i⟩ : GlobalSample)) =
      (events.filter fun e => e.eventType = .queueSample).map fun e =>
        ⟨e.timestamp, e.globalQueue⟩ := by
  have hqueue := forall₂_filter (fun hrow => hrow.eventTypeAt_eq .queueSample) h
  refine map_eq_of_forall₂ (fun {i e} hrow => ?_) hqueue
  rw [hrow.row.ts, hrow.row.globalQueue]

/-! ## All but the polls -/

namespace LaneView

/-- A lane state without its polls. -/
def rest (s : LaneState) : LaneState :=
  { s with
    openPoll := none
    lane := { s.lane with polls := [] } }

section

variable (s : LaneState)
include s

@[simp] theorem rest_sample (e : TraceEvent) :
    rest (s.sample e) = (rest s).sample e := rfl

@[simp] theorem rest_setPoll (poll : Option OpenPoll) :
    rest (s.setPoll poll) = rest s := rfl

@[simp] theorem rest_startPark (start : Int) :
    rest (s.startPark start) = (rest s).startPark start := rfl

@[simp] theorem rest_startActive (unpark : OpenUnpark) :
    rest (s.startActive unpark) = (rest s).startActive unpark := rfl

@[simp] theorem rest_closePoll (endTs : Int) (openEnded : Bool) :
    rest (s.closePoll endTs openEnded) = rest s := by
  rcases s with ⟨_ | poll, openPark, openUnpark, lane, queueSamples⟩
  · rfl
  · rfl

@[simp] theorem rest_closePark (endTs : Int) (schedWait : Option Int) :
    rest (s.closePark endTs schedWait) = (rest s).closePark endTs schedWait := by
  rcases s with ⟨openPoll, _ | start, openUnpark, lane, queueSamples⟩
  · rfl
  · rfl

@[simp] theorem rest_closeActive (gaps : List BlockInPlaceGap) (activeEnd cpuTime : Int) :
    rest (s.closeActive gaps activeEnd cpuTime) = (rest s).closeActive gaps activeEnd cpuTime := by
  rcases s with ⟨openPoll, openPark, _ | unpark, lane, queueSamples⟩
  · rfl
  · rfl

end

/-- A step of all but the polls. -/
def restStep (gaps : List BlockInPlaceGap) (s : LaneState) (e : TraceEvent) : LaneState :=
  match e.eventType with
  | .pollStart => s.sample e
  | .pollEnd => s
  | .workerPark => ((s.sample e).startPark e.timestamp).closeActive gaps e.timestamp e.cpuTime
  | .workerUnpark =>
    ((s.sample e).closePark e.timestamp e.schedWait).startActive ⟨e.timestamp, e.cpuTime⟩
  | .queueSample => s
  | .wakeEvent => s

theorem rest_step (gaps : List BlockInPlaceGap) (s : LaneState) (e : TraceEvent) :
    rest (s.step gaps e) = restStep gaps (rest s) e := by
  rw [LaneState.step, restStep]
  cases e.eventType with
  | pollStart => simp only [rest_setPoll, rest_closePoll, rest_sample]
  | pollEnd => exact rest_closePoll _ _ _
  | workerPark => simp only [rest_closeActive, rest_startPark, rest_closePoll, rest_sample]
  | workerUnpark => simp only [rest_startActive, rest_closePark, rest_setPoll, rest_sample]
  | queueSample | wakeEvent => rfl

theorem rest_copyStep (gaps : List BlockInPlaceGap) (s : LaneState) (e : TraceEvent) :
    rest (copyStep gaps s e) = restStep gaps (rest s) e := by
  rw [copyStep]
  split
  · rw [rest_setPoll, rest_step]
  · exact rest_step gaps s e

theorem rest_run (gaps : List BlockInPlaceGap) (events : List TraceEvent) (s t : LaneState)
    (h : rest s = rest t) :
    rest (events.foldl (copyStep gaps) s) = rest (events.foldl (LaneState.step gaps) t) := by
  induction events generalizing s t with
  | nil => exact h
  | cons e events ih => exact ih _ _ (by rw [rest_copyStep, rest_step, h])

end LaneView

/-! ## Polls -/

/-- The open poll of a worker, and its polls so far. -/
structure PollState where
  openPoll : Option OpenPoll
  polls : List PollSpan

def pollState (s : LaneState) : PollState := ⟨s.openPoll, s.lane.polls⟩

/-- An event that ends the open poll, and perhaps starts one. -/
def PollState.close (s : PollState) (e : TraceEvent) : PollState where
  openPoll :=
    if e.eventType = .pollStart then
      some ⟨e.timestamp, e.taskId, e.spawnLocId, e.spawnLoc, e.schedulingDelay⟩
    else none
  polls :=
    s.polls ++ s.openPoll.toList.map fun poll => poll.close e.timestamp (e.eventType ≠ .pollEnd)

/-- One event, where an unpark drops the open poll or not. -/
def PollState.step (drop : Bool) (s : PollState) (e : TraceEvent) : PollState :=
  if e.eventType = .workerUnpark then ⟨if drop then none else s.openPoll, s.polls⟩ else s.close e

theorem closePoll_polls (s : LaneState) (endTs : Int) (openEnded : Bool) :
    pollState (s.closePoll endTs openEnded) =
      ⟨none, s.lane.polls ++ s.openPoll.toList.map fun poll => poll.close endTs openEnded⟩ := by
  rcases s with ⟨_ | poll, openPark, openUnpark, lane, queueSamples⟩
  · simp only [LaneState.closePoll, pollState, Option.toList_none, List.map_nil, List.append_nil]
  · rfl

theorem closeActive_polls (s : LaneState) (gaps : List BlockInPlaceGap) (activeEnd cpuTime : Int) :
    pollState (s.closeActive gaps activeEnd cpuTime) = pollState s := by
  rcases s with ⟨openPoll, openPark, _ | unpark, lane, queueSamples⟩
  · rfl
  · rfl

theorem closePark_polls (s : LaneState) (endTs : Int) (schedWait : Option Int) :
    pollState (s.closePark endTs schedWait) = pollState s := by
  rcases s with ⟨openPoll, _ | start, openUnpark, lane, queueSamples⟩
  · rfl
  · rfl

theorem step_polls (gaps : List BlockInPlaceGap) (s : LaneState) (he : inLane e = true) :
    pollState (s.step gaps e) = (pollState s).step true e := by
  rw [inLane] at he
  rw [LaneState.step, PollState.step, PollState.close]
  cases heq : e.eventType with
  | pollStart =>
    have hclose := congrArg PollState.polls (closePoll_polls (s.sample e) e.timestamp true)
    exact congrArg (PollState.mk _) hclose
  | pollEnd => exact closePoll_polls s e.timestamp false
  | workerPark =>
    exact (closeActive_polls _ _ _ _).trans (closePoll_polls (s.sample e) e.timestamp true)
  | workerUnpark => exact closePark_polls ((s.sample e).setPoll none) e.timestamp e.schedWait
  | queueSample | wakeEvent =>
    rw [heq] at he
    cases he

theorem copyStep_polls (gaps : List BlockInPlaceGap) (s : LaneState) (he : inLane e = true) :
    pollState (copyStep gaps s e) = (pollState s).step false e := by
  have hstep := step_polls gaps s he
  rw [copyStep]
  rw [PollState.step] at hstep ⊢
  split
  case isTrue hunpark =>
    rw [if_pos hunpark] at hstep
    exact congrArg (PollState.mk _) (congrArg PollState.polls hstep)
  case isFalse hne =>
    rw [if_neg hne] at hstep
    exact hstep

theorem run_polls (gaps : List BlockInPlaceGap) (events : List TraceEvent) (s : LaneState)
    (hevents : ∀ e ∈ events, inLane e = true) :
    pollState (events.foldl (LaneState.step gaps) s) =
      events.foldl (PollState.step true) (pollState s) ∧
      pollState (events.foldl (copyStep gaps) s) =
        events.foldl (PollState.step false) (pollState s) := by
  constructor
  · induction events generalizing s with
    | nil => rfl
    | cons e events ih =>
      rw [List.foldl_cons, List.foldl_cons,
        ih _ fun e' he' => hevents e' (List.mem_cons_of_mem _ he'),
        step_polls gaps s (hevents e List.mem_cons_self)]
  · induction events generalizing s with
    | nil => rfl
    | cons e events ih =>
      rw [List.foldl_cons, List.foldl_cons,
        ih _ fun e' he' => hevents e' (List.mem_cons_of_mem _ he'),
        copyStep_polls gaps s (hevents e List.mem_cons_self)]

/-! ## Where a poll is kept for longer -/

/-- The worker unparks, perhaps more than once, and then has another event. -/
def Drops (events : List TraceEvent) : Prop :=
  ∃ mid next post, events = mid ++ next :: post ∧ mid ≠ [] ∧
    (∀ e ∈ mid, e.eventType = .workerUnpark) ∧ next.eventType ≠ .workerUnpark

/-- Between the start of a poll and the worker's next event that is no unpark, the worker
unparks. -/
def UnparksInPoll (events : List TraceEvent) : Prop :=
  ∃ pre start rest, events = pre ++ start :: rest ∧ start.eventType = .pollStart ∧ Drops rest

variable {events : List TraceEvent}

theorem exists_next (h : ∃ e ∈ events, e.eventType ≠ .workerUnpark) :
    ∃ mid next post, events = mid ++ next :: post ∧
      (∀ e ∈ mid, e.eventType = .workerUnpark) ∧ next.eventType ≠ .workerUnpark := by
  induction events with
  | nil =>
    rcases h with ⟨e, he, -⟩
    cases he
  | cons first rest ih =>
    by_cases hfirst : first.eventType = .workerUnpark
    · rcases h with ⟨e, he, hne⟩
      have hrest : e ∈ rest := by
        rcases List.mem_cons.mp he with rfl | he
        · exact absurd hfirst hne
        · exact he
      rcases ih ⟨e, hrest, hne⟩ with ⟨mid, next, post, rfl, hmid, hnext⟩
      refine ⟨first :: mid, next, post, rfl, fun e he => ?_, hnext⟩
      rcases List.mem_cons.mp he with rfl | he
      · exact hfirst
      · exact hmid e he
    · exact ⟨[], first, rest, rfl, fun _ he => absurd he List.not_mem_nil, hfirst⟩

theorem drops_cons :
    Drops (e :: events) ↔ e.eventType = .workerUnpark ∧
      ∃ next ∈ events, next.eventType ≠ .workerUnpark := by
  constructor
  · rintro ⟨mid, next, post, hevents, hne, hmid, hnext⟩
    cases mid with
    | nil => exact absurd rfl hne
    | cons first mid =>
      cases hevents
      exact ⟨hmid _ List.mem_cons_self, next, List.mem_append_right _ List.mem_cons_self, hnext⟩
  · rintro ⟨he, hnext⟩
    rcases exists_next hnext with ⟨mid, next, post, rfl, hmid, hnext⟩
    refine ⟨e :: mid, next, post, rfl, List.cons_ne_nil _ _, fun e' he' => ?_, hnext⟩
    rcases List.mem_cons.mp he' with rfl | he'
    · exact he
    · exact hmid e' he'

theorem unparksInPoll_cons :
    UnparksInPoll (e :: events) ↔
      (e.eventType = .pollStart ∧ Drops events) ∨ UnparksInPoll events := by
  constructor
  · rintro ⟨pre, start, rest, hevents, hstart, hdrops⟩
    cases pre with
    | nil =>
      cases hevents
      exact .inl ⟨hstart, hdrops⟩
    | cons _ pre =>
      cases hevents
      exact .inr ⟨pre, start, rest, rfl, hstart, hdrops⟩
  · rintro (⟨hstart, hdrops⟩ | ⟨pre, start, rest, rfl, hstart, hdrops⟩)
    · exact ⟨[], e, events, rfl, hstart, hdrops⟩
    · exact ⟨e :: pre, start, rest, rfl, hstart, hdrops⟩

theorem not_unparksInPoll_nil : ¬ UnparksInPoll [] := by
  rintro ⟨pre, _, _, hnil, -⟩
  exact List.append_ne_nil_of_right_ne_nil pre (List.cons_ne_nil _ _) hnil.symm

theorem not_drops_nil : ¬ Drops [] := by
  rintro ⟨mid, _, _, hnil, -⟩
  exact List.append_ne_nil_of_right_ne_nil mid (List.cons_ne_nil _ _) hnil.symm

/-- The two builders' polls stay the same over the events to come. -/
def InStep (s t : PollState) (events : List TraceEvent) : Prop :=
  (s.openPoll = t.openPoll ∧ (t.openPoll ≠ none → ¬ Drops events)) ∨
    (s.openPoll = none ∧ ∀ e ∈ events, e.eventType = .workerUnpark)

variable {s t : PollState}

theorem polls_eq (hpolls : s.polls = t.polls)
    (hstep : InStep s t events) (hfree : ¬ UnparksInPoll events) :
    (events.foldl (PollState.step true) s).polls =
      (events.foldl (PollState.step false) t).polls := by
  induction events generalizing s t with
  | nil => exact hpolls
  | cons e events ih =>
    rw [unparksInPoll_cons, not_or] at hfree
    rw [List.foldl_cons, List.foldl_cons]
    by_cases hunpark : e.eventType = .workerUnpark
    · rw [PollState.step, PollState.step, if_pos hunpark, if_pos hunpark]
      refine ih hpolls ?_ hfree.2
      rcases hstep with ⟨-, hdrops⟩ | ⟨-, hall⟩
      · by_cases hopen : t.openPoll = none
        · exact .inl ⟨hopen.symm, fun hne => absurd hopen hne⟩
        · refine .inr ⟨rfl, fun e' he' => ?_⟩
          by_contra hne
          exact hdrops hopen (drops_cons.mpr ⟨hunpark, e', he', hne⟩)
      · exact .inr ⟨rfl, fun e' he' => hall e' (List.mem_cons_of_mem _ he')⟩
    · rw [PollState.step, PollState.step, if_neg hunpark, if_neg hunpark]
      rcases hstep with ⟨hopen, -⟩ | ⟨-, hall⟩
      · refine ih ?_ (.inl ⟨rfl, fun hstart hdrops => hfree.1 ⟨?_, hdrops⟩⟩) hfree.2
        · rw [PollState.close, PollState.close, hpolls, hopen]
        · by_contra hne
          exact hstart (if_neg hne)
      · exact absurd (hall e List.mem_cons_self) hunpark

theorem close_length (s : PollState) (e : TraceEvent) :
    (s.close e).polls.length = s.polls.length + s.openPoll.toList.length := by
  rw [PollState.close, List.length_append, List.length_map]

/-- Once ahead, the columnar builder's polls stay ahead. -/
theorem polls_ahead (hahead : s.polls.length < t.polls.length)
    (hopen : s.openPoll = t.openPoll ∨ s.openPoll = none) :
    (events.foldl (PollState.step true) s).polls.length <
      (events.foldl (PollState.step false) t).polls.length := by
  induction events generalizing s t with
  | nil => exact hahead
  | cons e events ih =>
    rw [List.foldl_cons, List.foldl_cons]
    by_cases hunpark : e.eventType = .workerUnpark
    · rw [PollState.step, PollState.step, if_pos hunpark, if_pos hunpark]
      exact ih hahead (.inr rfl)
    · rw [PollState.step, PollState.step, if_neg hunpark, if_neg hunpark]
      refine ih ?_ (.inl rfl)
      rw [close_length, close_length]
      rcases hopen with hopen | hopen
      · rw [hopen]
        omega
      · rw [hopen, Option.toList_none, List.length_nil]
        omega

/-- The columnar builder gets ahead over the events to come. -/
def OutOfStep (s t : PollState) (events : List TraceEvent) : Prop :=
  UnparksInPoll events ∨ (t.openPoll ≠ none ∧ s.openPoll = t.openPoll ∧ Drops events) ∨
    (t.openPoll ≠ none ∧ s.openPoll = none ∧ ∃ e ∈ events, e.eventType ≠ .workerUnpark)

theorem polls_lt (hle : s.polls.length ≤ t.polls.length)
    (hopen : s.openPoll = t.openPoll ∨ s.openPoll = none) (hout : OutOfStep s t events) :
    (events.foldl (PollState.step true) s).polls.length <
      (events.foldl (PollState.step false) t).polls.length := by
  induction events generalizing s t with
  | nil =>
    rcases hout with hout | ⟨-, -, hout⟩ | ⟨-, -, e, he, -⟩
    · exact absurd hout not_unparksInPoll_nil
    · exact absurd hout not_drops_nil
    · cases he
  | cons e events ih =>
    rw [List.foldl_cons, List.foldl_cons]
    by_cases hunpark : e.eventType = .workerUnpark
    · rw [PollState.step, PollState.step, if_pos hunpark, if_pos hunpark]
      refine ih hle (.inr rfl) ?_
      rcases hout with hout | ⟨hne, -, hout⟩ | ⟨hne, -, e', he', hnext⟩
      · rcases unparksInPoll_cons.mp hout with ⟨hstart, -⟩ | hout
        · rw [hunpark] at hstart
          cases hstart
        · exact .inl hout
      · exact .inr (.inr ⟨hne, rfl, (drops_cons.mp hout).2⟩)
      · refine .inr (.inr ⟨hne, rfl, e', ?_, hnext⟩)
        rcases List.mem_cons.mp he' with rfl | he'
        · exact absurd hunpark hnext
        · exact he'
    · rw [PollState.step, PollState.step, if_neg hunpark, if_neg hunpark]
      have hlength : s.openPoll.toList.length ≤ t.openPoll.toList.length := by
        rcases hopen with hopen | hopen
        · rw [hopen]
        · rw [hopen]
          exact Nat.zero_le _
      rcases hout with hout | ⟨-, -, hout⟩ | ⟨hne, hnone, -⟩
      · refine ih ?_ (.inl rfl) ?_
        · rw [close_length, close_length]
          omega
        · rcases unparksInPoll_cons.mp hout with ⟨hstart, hdrops⟩ | hout
          · refine .inr (.inl ⟨?_, rfl, hdrops⟩)
            rw [PollState.close, if_pos hstart]
            exact nofun
          · exact .inl hout
      · exact absurd (drops_cons.mp hout).1 hunpark
      · refine polls_ahead ?_ (.inl rfl)
        rw [close_length, close_length, hnone]
        rcases Option.ne_none_iff_exists'.mp hne with ⟨poll, hpoll⟩
        rw [hpoll]
        exact Nat.lt_succ_of_le hle

/-! ## Lanes -/

theorem perWorker_inLane (he : e ∈ perWorker events w) : inLane e = true := by
  rw [perWorker, mem_sortByTime, List.mem_filter, Bool.and_eq_true] at he
  exact he.2.1

theorem Stored.rest (h : Stored store events) (gaps : List BlockInPlaceGap) (w : Int) :
    LaneView.rest (Columnar.bucketRun store gaps w).toLane =
      LaneView.rest (laneRun events gaps w) := by
  rw [h.bucketRun, laneRun]
  exact LaneView.rest_run _ _ _ _ rfl

/-- A worker's polls are the same in both builders if it never unparks in a poll, and
else the columnar builder has more. -/
theorem Stored.polls (h : Stored store events) (gaps : List BlockInPlaceGap) (w : Int) :
    (laneOf (Columnar.bucketRun store gaps w).emitted).polls = (laneRun events gaps w).lane.polls ↔
      ¬ UnparksInPoll (perWorker events w) := by
  rcases run_polls (gapsOf gaps w) (perWorker events w) .empty fun _ => perWorker_inLane with
    ⟨hfrozen, hcolumnar⟩
  have hfrozen := congrArg PollState.polls hfrozen
  have hcolumnar := congrArg PollState.polls hcolumnar
  rw [← h.bucketRun] at hcolumnar
  change (laneRun events gaps w).lane.polls = _ at hfrozen
  change (laneOf (Columnar.bucketRun store gaps w).emitted).polls = _ at hcolumnar
  rw [hfrozen, hcolumnar]
  constructor
  · intro heq hunparks
    have hlt := polls_lt (s := pollState .empty) (t := pollState .empty) le_rfl (.inl rfl)
      (.inl hunparks)
    rw [heq] at hlt
    exact lt_irrefl _ hlt
  · intro hfree
    exact (polls_eq rfl (.inl ⟨rfl, fun hne => absurd rfl hne⟩) hfree).symm

theorem Stored.lane (h : Stored store events) (gaps : List BlockInPlaceGap) (w : Int) :
    laneOf (Columnar.bucketRun store gaps w).emitted = (laneRun events gaps w).lane ↔
      ¬ UnparksInPoll (perWorker events w) := by
  rw [← h.polls gaps w]
  have hparks : (laneOf (Columnar.bucketRun store gaps w).emitted).parks =
      (laneRun events gaps w).lane.parks :=
    congrArg (fun s : LaneState => s.lane.parks) (h.rest gaps w)
  have hactives : (laneOf (Columnar.bucketRun store gaps w).emitted).actives =
      (laneRun events gaps w).lane.actives :=
    congrArg (fun s : LaneState => s.lane.actives) (h.rest gaps w)
  constructor
  · exact congrArg WorkerLane.polls
  · intro hpolls
    calc laneOf (Columnar.bucketRun store gaps w).emitted
        = ⟨(laneRun events gaps w).lane.polls, (laneRun events gaps w).lane.parks,
            (laneRun events gaps w).lane.actives⟩ := by rw [← hpolls, ← hparks, ← hactives]
      _ = (laneRun events gaps w).lane := rfl

theorem laneOf_parks (emissions : List Emission) (parks : List ParkSpan) :
    laneOf (emissions ++ parks.map .park) =
      { laneOf emissions with parks := (laneOf emissions).parks ++ parks } := by
  induction parks using List.reverseRecOn with
  | nil => simp only [List.map_nil, List.append_nil]
  | append_singleton parks park ih =>
    rw [List.map_append, ← List.append_assoc, List.map_singleton, laneOf_park, ih]
    simp only [List.append_assoc]

theorem foldl_fat (workerIds : List Int) (emissions : List (Int × Emission)) (w : Int) :
    emissions.foldl Fat.push (Fat.ensure workerIds) w =
      if w ∈ workerIds then some (laneOf (rowsOf w emissions)) else none := by
  induction emissions using List.reverseRecOn with
  | nil => rfl
  | append_singleton emissions emission ih =>
    rw [List.foldl_concat, rowsOf_append, rowsOf_singleton]
    rcases emission with ⟨k, emission⟩
    by_cases heq : k = w
    · subst heq
      rw [Fat.push, Function.update_self, ih, if_pos rfl]
      by_cases hk : k ∈ workerIds
      · rw [if_pos hk, if_pos hk, Option.map_some]
        cases emission with
        | poll poll => rw [laneOf_poll]
        | park park => rw [laneOf_park]
        | active active => rw [laneOf_active]
      · rw [if_neg hk, if_neg hk, Option.map_none]
    · rw [Fat.push, Function.update_of_ne fun h => heq h.symm, ih, if_neg heq, List.append_nil]

theorem bucketRun_of_not_mem (hw : w ∉ bucketWorkers store) : bucketRun store gaps w = .empty := by
  have hnil : bucket store w = [] := by
    rw [← List.length_eq_zero_iff, bucket, List.length_insertionSort, List.length_eq_zero_iff,
      List.filter_eq_nil_iff]
    intro i hi hlane
    rw [Bool.and_eq_true, decide_eq_true_iff] at hlane
    apply hw
    rw [bucketWorkers, (List.perm_insertionSort _ _).mem_iff, List.mem_dedup]
    exact List.mem_map.mpr ⟨i, List.mem_filter.mpr ⟨hi, hlane.1⟩, hlane.2⟩
  rw [bucketRun, hnil]
  rfl

theorem bucketWorkers_nodup (store : ColumnarEvents) : (bucketWorkers store).Nodup :=
  (List.perm_insertionSort _ _).nodup_iff.mpr (List.nodup_dedup _)

theorem rowsOf_reconstruct (workerIds : List Int) (maxTs : Int) :
    rowsOf w (reconstruct store workerIds maxTs gaps) =
      (bucketRun store gaps w).emitted ++
        (endParks workerIds maxTs w (bucketRun store gaps w).openPark).map .park := by
  rw [reconstruct, rowsOf_append, rowsOf_flatMap]
  congr 1
  · by_cases hw : w ∈ bucketWorkers store
    · have hfilter : (bucketWorkers store).filter (fun k => k = w) = [w] := by
        rw [List.filter_eq, List.count_eq_one_of_mem (bucketWorkers_nodup store) hw]
        rfl
      rw [hfilter, List.flatMap_singleton]
    · have hfilter : (bucketWorkers store).filter (fun k => k = w) = [] := by
        rw [List.filter_eq, List.count_eq_zero.mpr hw]
        rfl
      rw [hfilter, bucketRun_of_not_mem hw]
      rfl
  · have hmap : ∀ k : Int, ((bucketRun store gaps k).openPark.toList.map fun start =>
        (k, Emission.park ⟨start, maxTs, none⟩)) =
          ((bucketRun store gaps k).openPark.toList.map fun start =>
            Emission.park ⟨start, maxTs, none⟩).map fun v => (k, v) := by
      intro k
      rw [List.map_map]
      rfl
    simp only [hmap]
    rw [rowsOf_flatMap, endParks, List.map_flatMap]
    simp only [List.map_map]
    rfl

end Dial9.Viewer.Columnar
