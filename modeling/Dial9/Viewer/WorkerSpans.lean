/-
# Worker spans

Polls, parks and active spans from the runtime events, with the queue samples and the
wakes. A worker's events are taken in order of time, and what is open is closed by what
comes next.
-/

import Dial9.Viewer.TraceEvents
import Mathlib.Data.List.Dedup
import Mathlib.Data.Rat.Defs
import Mathlib.Algebra.Order.Ring.Unbundled.Rat

namespace Dial9.Viewer.Spans

structure PollSpan where
  start : Int
  endTs : Int
  taskId : Nat
  spawnLocId : Option String
  spawnLoc : Option String
  schedulingDelay : Option Int
  /-- No matching PollEnd; the actual duration is unknown. -/
  openEnded : Bool
  deriving DecidableEq

structure ParkSpan where
  start : Int
  endTs : Int
  /-- There is none at the end of the trace, and none inside where it was not sampled. -/
  schedWait : Option (Option Int)
  deriving DecidableEq

structure ActiveSpan where
  start : Int
  endTs : Int
  /-- CPU time over wall time. -/
  ratio : Rat
  deriving DecidableEq

structure WorkerLane where
  polls : List PollSpan
  parks : List ParkSpan
  actives : List ActiveSpan
  deriving DecidableEq

structure QueueSample where
  t : Int
  localQueue : Nat
  deriving DecidableEq

structure GlobalSample where
  t : Int
  globalQueue : Int
  deriving DecidableEq

structure TaskWake where
  timestamp : Int
  wakerTaskId : Option Nat
  targetWorker : Int
  deriving DecidableEq

structure WorkerWake where
  timestamp : Int
  wakerTaskId : Option Nat
  wokenTaskId : Option Nat
  deriving DecidableEq

/-- A stretch in which another thread ran as the worker. -/
structure BlockInPlaceGap where
  workerId : Int
  startNs : Int
  endNs : Int

/-- A poll that has started, with what is told of it. -/
structure OpenPoll where
  start : Int
  taskId : Nat
  spawnLocId : Option String
  spawnLoc : Option String
  schedulingDelay : Option Int

def OpenPoll.close (poll : OpenPoll) (endTs : Int) (openEnded : Bool) : PollSpan where
  start := poll.start
  endTs := endTs
  taskId := poll.taskId
  spawnLocId := poll.spawnLocId
  spawnLoc := poll.spawnLoc
  schedulingDelay := poll.schedulingDelay
  openEnded := openEnded

/-- An unpark, from which a worker is active. -/
structure OpenUnpark where
  timestamp : Int
  cpuTime : Int

/-! ## Active spans -/

/-- Over a worker's gaps in order. -/
def crossesGap (activeStart activeEnd : Int) : List BlockInPlaceGap → Bool
  | [] => false
  | g :: rest =>
    if g.startNs ≥ activeEnd then false
    else if g.endNs > activeStart then true
    else crossesGap activeStart activeEnd rest

/-- From an unpark to a park. Over a gap the CPU time is of two threads, and there is no
span. -/
def activeSpan (gaps : List BlockInPlaceGap) (unpark : OpenUnpark) (activeEnd cpuTime : Int) :
    Option ActiveSpan :=
  if crossesGap unpark.timestamp activeEnd gaps then none
  else
    let wallDelta := activeEnd - unpark.timestamp
    let cpuDelta := cpuTime - unpark.cpuTime
    some ⟨unpark.timestamp, activeEnd,
      if wallDelta > 0 then min ((cpuDelta : Rat) / wallDelta) 1 else 1⟩

/-! ## A worker's lane -/

/-- What is open of a worker, and its spans so far. -/
structure LaneState where
  openPoll : Option OpenPoll
  openPark : Option Int
  openUnpark : Option OpenUnpark
  lane : WorkerLane
  queueSamples : List QueueSample

namespace LaneState

def empty : LaneState := ⟨none, none, none, ⟨[], [], []⟩, []⟩

def sample (s : LaneState) (e : TraceEvent) : LaneState :=
  { s with queueSamples := s.queueSamples ++ [⟨e.timestamp, e.localQueue⟩] }

def setPoll (s : LaneState) (poll : Option OpenPoll) : LaneState := { s with openPoll := poll }

def startPark (s : LaneState) (start : Int) : LaneState := { s with openPark := some start }

def startActive (s : LaneState) (unpark : OpenUnpark) : LaneState :=
  { s with openUnpark := some unpark }

def closePoll (s : LaneState) (endTs : Int) (openEnded : Bool) : LaneState :=
  match s.openPoll with
  | none => s
  | some poll =>
    { s with
      openPoll := none
      lane := { s.lane with polls := s.lane.polls ++ [poll.close endTs openEnded] } }

def closeActive (s : LaneState) (gaps : List BlockInPlaceGap) (activeEnd cpuTime : Int) :
    LaneState :=
  match s.openUnpark with
  | none => s
  | some unpark =>
    { s with
      openUnpark := none
      lane := { s.lane with
        actives := s.lane.actives ++ (activeSpan gaps unpark activeEnd cpuTime).toList } }

def closePark (s : LaneState) (endTs : Int) (schedWait : Option Int) : LaneState :=
  match s.openPark with
  | none => s
  | some start =>
    { s with
      openPark := none
      lane := { s.lane with parks := s.lane.parks ++ [⟨start, endTs, some schedWait⟩] } }

@[simp] theorem setPoll_setPoll (s : LaneState) (p q : Option OpenPoll) :
    (s.setPoll p).setPoll q = s.setPoll q := rfl

theorem closePark_setPoll (s : LaneState) (p : Option OpenPoll) (endTs : Int)
    (schedWait : Option Int) :
    (s.setPoll p).closePark endTs schedWait = (s.closePark endTs schedWait).setPoll p := by
  rcases s with ⟨openPoll, _ | start, openUnpark, lane, queueSamples⟩
  · rfl
  · rfl

theorem startActive_setPoll (s : LaneState) (p : Option OpenPoll) (unpark : OpenUnpark) :
    (s.setPoll p).startActive unpark = (s.startActive unpark).setPoll p := rfl

theorem closePark_openPoll (s : LaneState) (endTs : Int) (schedWait : Option Int) :
    (s.closePark endTs schedWait).openPoll = s.openPoll := by
  rcases s with ⟨openPoll, _ | start, openUnpark, lane, queueSamples⟩
  · rfl
  · rfl

/-- One event of the worker. -/
def step (gaps : List BlockInPlaceGap) (s : LaneState) (e : TraceEvent) : LaneState :=
  match e.eventType with
  | .pollStart =>
    ((s.sample e).closePoll e.timestamp true).setPoll
      (some ⟨e.timestamp, e.taskId, e.spawnLocId, e.spawnLoc, e.schedulingDelay⟩)
  | .pollEnd => s.closePoll e.timestamp false
  | .workerPark =>
    (((s.sample e).closePoll e.timestamp true).startPark e.timestamp).closeActive gaps e.timestamp
      e.cpuTime
  | .workerUnpark =>
    -- With a poll still open its end and the park were lost, and the poll is dropped.
    (((s.sample e).setPoll none).closePark e.timestamp e.schedWait).startActive
      ⟨e.timestamp, e.cpuTime⟩
  | .queueSample => s
  | .wakeEvent => s

end LaneState

/-! ## The builder -/

structure WorkerSpansResult where
  workerSpans : Int → Option WorkerLane
  queueSamples : List GlobalSample
  workerQueueSamples : Int → Option (List QueueSample)
  maxLocalQueue : Nat
  wakesByTask : Option Nat → List TaskWake
  wakesByWorker : Int → List WorkerWake

/-- An event of a worker's lane. -/
def inLane (e : TraceEvent) : Bool :=
  e.eventType ≠ .wakeEvent && e.eventType ≠ .queueSample

/-- A worker's events in order of time. -/
def perWorker (events : List TraceEvent) (w : Int) : List TraceEvent :=
  sortByTime (events.filter fun e => inLane e && (e.workerId : Int) = w)

/-- The workers of the lane events, in order. -/
def laneWorkers (events : List TraceEvent) : List Int :=
  ((events.filter inLane).map fun e => (e.workerId : Int)).dedup.insertionSort (· ≤ ·)

/-- An event that samples the worker's local queue. -/
def isSampled (e : TraceEvent) : Bool :=
  e.eventType = .pollStart || e.eventType = .workerPark || e.eventType = .workerUnpark

def raiseLocalQueue (maxLocalQueue : Nat) (e : TraceEvent) : Nat :=
  if isSampled e ∧ e.localQueue > maxLocalQueue then e.localQueue else maxLocalQueue

def gapsOf (gaps : List BlockInPlaceGap) (w : Int) : List BlockInPlaceGap :=
  gaps.filter fun g => g.workerId = w

/-- The state at the end of the worker's events. -/
def laneRun (events : List TraceEvent) (gaps : List BlockInPlaceGap) (w : Int) : LaneState :=
  (perWorker events w).foldl (LaneState.step (gapsOf gaps w)) .empty

/-- Parks that are open at the end of the trace are closed there, once for each time the
worker is listed. Open polls are discarded. -/
def endParks (workerIds : List Int) (maxTs : Int) (w : Int) (openPark : Option Int) :
    List ParkSpan :=
  (workerIds.filter fun id => id = w).flatMap fun _ =>
    openPark.toList.map fun start => ⟨start, maxTs, none⟩

def buildWorkerSpans (events : List TraceEvent) (workerIds : List Int) (maxTs : Int)
    (gaps : List BlockInPlaceGap) : WorkerSpansResult where
  workerSpans w :=
    if w ∈ workerIds then
      let s := laneRun events gaps w
      some { s.lane with parks := s.lane.parks ++ endParks workerIds maxTs w s.openPark }
    else none
  queueSamples := (events.filter fun e => e.eventType = .queueSample).map fun e =>
    ⟨e.timestamp, e.globalQueue⟩
  workerQueueSamples w :=
    if w ∈ workerIds then some (laneRun events gaps w).queueSamples else none
  maxLocalQueue := (laneWorkers events).foldl
    (fun maxLocalQueue w => (perWorker events w).foldl raiseLocalQueue maxLocalQueue) 1
  wakesByTask task :=
    (((events.filter fun e => e.eventType = .wakeEvent).filter fun e => e.wokenTaskId = task).map
      fun e => ⟨e.timestamp, e.wakerTaskId, (e.targetWorker.getD 0 : Nat)⟩).insertionSort
      fun a b : TaskWake => a.timestamp ≤ b.timestamp
  wakesByWorker w :=
    (((events.filter fun e => e.eventType = .wakeEvent).filter fun e =>
        e.targetWorker.map Nat.cast = some w).map
      fun e => ⟨e.timestamp, e.wakerTaskId, e.wokenTaskId⟩).insertionSort
      fun a b : WorkerWake => a.timestamp ≤ b.timestamp

end Dial9.Viewer.Spans
