/-
# Reconstructing polls

The events of a segment, sorted by time, are read twice. One pass binds threads
to workers: a thread is bound to the worker it last parked or unparked on, and
the interval in which a worker passed from one thread to another is a gap in
which neither is bound. The other pass opens a poll at its start, closes it at
an event that bounds it, and carries the evidence of when a task became ready.
-/

import Dial9.Lib.Strings
import Mathlib.Logic.Function.Basic
import Mathlib.Data.List.Sort

namespace Dial9.Viewer.Polls

open Dial9.Lib

/-! ## Events -/

inductive SchedulingDelayKind where
  | spawn
  | wake
  | wakeDuringPoll
  | taskMeta
  deriving DecidableEq

/-- When a task became runnable and how that is known. -/
structure ReadyEvidence where
  timestamp : Nat
  kind : SchedulingDelayKind
  wakerTaskId : Option Nat
  deriving DecidableEq

structure PollStart where
  timestampNs : Nat
  workerId : Nat
  taskId : Nat
  spawnLoc : Option Str
  schedulingDelayNs : Option Nat
  deriving DecidableEq

structure TaskSpawn where
  timestampNs : Nat
  taskId : Nat
  instrumented : Option Bool
  deriving DecidableEq

structure WakeEvent where
  timestampNs : Nat
  wakerTaskId : Nat
  wokenTaskId : Nat
  deriving DecidableEq

structure CpuSample where
  timestampNs : Nat
  /-- The hint on the wire, which this decoder does not read. -/
  workerId : Nat
  tid : Nat
  source : Nat
  callchain : List Nat
  deriving DecidableEq

inductive TraceEvent where
  | workerPark (timestampNs workerId tid : Nat)
  | workerUnpark (timestampNs workerId tid : Nat)
  | pollStart (event : PollStart)
  | pollEnd (timestampNs workerId : Nat)
  | taskSpawn (event : TaskSpawn)
  | taskTerminate (timestampNs taskId : Nat)
  | wake (event : WakeEvent)
  | cpuSample (event : CpuSample)
  deriving DecidableEq

def TraceEvent.timestampNs : TraceEvent → Nat
  | .workerPark timestampNs _ _ => timestampNs
  | .workerUnpark timestampNs _ _ => timestampNs
  | .pollStart event => event.timestampNs
  | .pollEnd timestampNs _ => timestampNs
  | .taskSpawn event => event.timestampNs
  | .taskTerminate timestampNs _ => timestampNs
  | .wake event => event.timestampNs
  | .cpuSample event => event.timestampNs

/-! ## Threads and workers -/

structure WorkerTidState where
  currentTid : Option Nat
  lastSeenTid : Nat
  lastEvent : Nat
  deriving DecidableEq

/-- The tables of the first pass. -/
structure TidTables where
  tidBindings : Nat → List (Nat × Nat)
  tidHandoffGaps : Nat → List (Nat × Nat)
  workerTidState : Nat → Option WorkerTidState

def TidTables.empty : TidTables := ⟨fun _ => [], fun _ => [], fun _ => none⟩

/-- A park or an unpark: its time, its thread, its worker, and which it is. -/
def binding : TraceEvent → Option (Nat × Nat × Nat × Bool)
  | .workerPark timestampNs workerId tid => some (timestampNs, tid, workerId, false)
  | .workerUnpark timestampNs workerId tid => some (timestampNs, tid, workerId, true)
  | _ => none

namespace TidTables

def expectedTid (state : WorkerTidState) : Nat := state.currentTid.getD state.lastSeenTid

/-- A binding is pushed when it changes the thread's worker. -/
def pushBinding (bindings : List (Nat × Nat)) (timestamp workerId : Nat) : List (Nat × Nat) :=
  if bindings.getLast?.all (·.2 ≠ workerId) then bindings ++ [(timestamp, workerId)] else bindings

/-- Add a gap to one thread, and then to another. -/
def pushGap (gaps : Nat → List (Nat × Nat)) (gap : Nat × Nat) (fromTid toTid : Nat) :
    Nat → List (Nat × Nat) :=
  let gaps := Function.update gaps fromTid (gaps fromTid ++ [gap])
  Function.update gaps toTid (gaps toTid ++ [gap])

/-- One event of the first pass. -/
def bind (tables : TidTables) (event : TraceEvent) : TidTables :=
  match binding event with
  | none => tables
  | some (timestamp, tid, workerId, isUnpark) =>
    let bindings := Function.update tables.tidBindings tid
      (pushBinding (tables.tidBindings tid) timestamp workerId)
    let gaps :=
      match tables.workerTidState workerId with
      | none => tables.tidHandoffGaps
      | some state =>
        if expectedTid state ≠ tid then
          pushGap tables.tidHandoffGaps (state.lastEvent, timestamp) (expectedTid state) tid
        else tables.tidHandoffGaps
    { tidBindings := bindings
      tidHandoffGaps := gaps
      workerTidState := Function.update tables.workerTidState workerId
        (some ⟨if isUnpark then some tid else none, tid, timestamp⟩) }

end TidTables

/-- Join the intervals that the current one reaches into it. -/
def joinInto : Nat × Nat → List (Nat × Nat) → List (Nat × Nat)
  | current, [] => [current]
  | current, next :: rest =>
    if next.1 ≤ current.2 then joinInto (current.1, max current.2 next.2) rest
    else current :: joinInto next rest

/-- `merge_intervals`; which of two equal starts comes first makes no difference. -/
def mergeIntervals (intervals : List (Nat × Nat)) : List (Nat × Nat) :=
  match intervals.insertionSort fun a b => a.1 ≤ b.1 with
  | [] => []
  | first :: rest => joinInto first rest

/-- `partition_point` on a list whose first part meets the predicate. -/
def partitionPoint {α : Type} (p : α → Bool) (as : List α) : Nat := (as.takeWhile p).length

/-! ## Polls -/

structure PollRecord where
  start : Nat
  stop : Nat
  workerId : Nat
  taskId : Nat
  spawnLoc : Option Str
  schedulingDelayNs : Option Nat
  readiness : Option ReadyEvidence
  taskInstrumented : Option Bool
  deriving DecidableEq

structure TaskState where
  ready : Option ReadyEvidence
  instrumented : Option Bool
  polling : Bool
  terminated : Bool
  deriving DecidableEq

instance : Inhabited TaskState := ⟨none, none, false, false⟩

/-- Why a poll is closed. -/
inductive CloseReason where
  | explicit
  | park
  | unproven
  deriving DecidableEq

structure OpenPoll where
  start : Nat
  workerId : Nat
  taskId : Nat
  spawnLoc : Option Str
  schedulingDelayNs : Option Nat
  readiness : Option ReadyEvidence
  taskInstrumented : Option Bool
  wakeDuringPoll : Option ReadyEvidence
  deriving DecidableEq

structure Reconstructor where
  openByWorker : Nat → Option OpenPoll
  openWorkerByTask : Nat → Option Nat
  /-- A task without an entry has the default state. -/
  tasks : Nat → TaskState
  records : List PollRecord
  endUnproven : Nat

namespace Reconstructor

def empty : Reconstructor := ⟨fun _ => none, fun _ => none, fun _ => default, [], 0⟩

def setTask (r : Reconstructor) (taskId : Nat) (state : TaskState) : Reconstructor :=
  { r with tasks := Function.update r.tasks taskId state }

def taskSpawn (r : Reconstructor) (event : TaskSpawn) : Reconstructor :=
  r.setTask event.taskId
    { ready := some ⟨event.timestampNs, .spawn, none⟩
      instrumented := event.instrumented
      polling := false
      terminated := false }

def taskTerminate (r : Reconstructor) (taskId : Nat) : Reconstructor :=
  r.setTask taskId { r.tasks taskId with ready := none, terminated := true }

def wake (r : Reconstructor) (event : WakeEvent) : Reconstructor :=
  let state := r.tasks event.wokenTaskId
  let evidence : ReadyEvidence := ⟨event.timestampNs, .wake, some event.wakerTaskId⟩
  if state.terminated then r
  else if state.polling then
    match r.openWorkerByTask event.wokenTaskId with
    | none => r
    | some workerId =>
      match r.openByWorker workerId with
      | none => r
      | some poll =>
        -- Wakes coalesce: the first one is kept.
        { r with
          openByWorker := Function.update r.openByWorker workerId
            (some { poll with wakeDuringPoll := poll.wakeDuringPoll.or (some evidence) }) }
  else r.setTask event.wokenTaskId { state with ready := state.ready.or (some evidence) }

/-- The state of a task whose poll ends. -/
def closedTask (state : TaskState) (poll : OpenPoll) (stop : Nat) (reason : CloseReason) :
    TaskState :=
  let state := { state with polling := false }
  if reason = .explicit ∧ state.terminated = false then
    match poll.wakeDuringPoll with
    | none => state
    | some wake =>
      { state with ready := some { wake with timestamp := stop, kind := .wakeDuringPoll } }
  else state

def OpenPoll.record (poll : OpenPoll) (stop : Nat) : PollRecord where
  start := poll.start
  stop := stop
  workerId := poll.workerId
  taskId := poll.taskId
  spawnLoc := poll.spawnLoc
  schedulingDelayNs := poll.schedulingDelayNs
  readiness := poll.readiness
  taskInstrumented := poll.taskInstrumented

def closePoll (r : Reconstructor) (workerId stop : Nat) (reason : CloseReason) : Reconstructor :=
  match r.openByWorker workerId with
  | none => r
  | some poll =>
    let closed := { r with
      openByWorker := Function.update r.openByWorker workerId none
      openWorkerByTask := Function.update r.openWorkerByTask poll.taskId none
      tasks := Function.update r.tasks poll.taskId
        (closedTask (r.tasks poll.taskId) poll stop reason) }
    if reason = .unproven then { closed with endUnproven := closed.endUnproven + 1 }
    else { closed with records := closed.records ++ [OpenPoll.record poll stop] }

/-- The start of a poll, on a worker with no poll open, of a task with none. -/
def openPoll (r : Reconstructor) (event : PollStart) : Reconstructor :=
  let state := r.tasks event.taskId
  { r with
    tasks := Function.update r.tasks event.taskId
      { state with terminated := false, ready := none, polling := true }
    openWorkerByTask := Function.update r.openWorkerByTask event.taskId (some event.workerId)
    openByWorker := Function.update r.openByWorker event.workerId
      (some {
        start := event.timestampNs
        workerId := event.workerId
        taskId := event.taskId
        spawnLoc := event.spawnLoc
        schedulingDelayNs := event.schedulingDelayNs
        readiness := state.ready
        taskInstrumented := state.instrumented
        wakeDuringPoll := none }) }

/-- The poll of the same task that is open on another worker. -/
def closeOther (r : Reconstructor) (event : PollStart) : Reconstructor :=
  match r.openWorkerByTask event.taskId with
  | none => r
  | some other =>
    if other ≠ event.workerId then r.closePoll other event.timestampNs .unproven else r

def pollStart (r : Reconstructor) (event : PollStart) : Reconstructor :=
  ((r.closePoll event.workerId event.timestampNs .unproven).closeOther event).openPoll event

/-- One event of the second pass. -/
def consume (r : Reconstructor) : TraceEvent → Reconstructor
  | .taskSpawn event => r.taskSpawn event
  | .taskTerminate _ taskId => r.taskTerminate taskId
  | .wake event => r.wake event
  | .pollStart event => r.pollStart event
  | .pollEnd timestampNs workerId => r.closePoll workerId timestampNs .explicit
  | .workerPark timestampNs workerId _ => r.closePoll workerId timestampNs .park
  | .workerUnpark timestampNs workerId _ => r.closePoll workerId timestampNs .unproven
  | .cpuSample _ => r

end Reconstructor

/-! ## The timeline -/

structure PollTimeline where
  tidBindings : Nat → List (Nat × Nat)
  tidHandoffGaps : Nat → List (Nat × Nat)
  records : List PollRecord
  endUnproven : Nat

namespace PollTimeline

/-- `sortRecords` is the arrangement that the sort of the records by start makes. -/
def reconstruct (sortRecords : List PollRecord → List PollRecord) (events : List TraceEvent) :
    PollTimeline :=
  let tables := events.foldl TidTables.bind .empty
  let reconstructor := events.foldl Reconstructor.consume .empty
  { tidBindings := tables.tidBindings
    tidHandoffGaps := fun tid => mergeIntervals (tables.tidHandoffGaps tid)
    records := sortRecords reconstructor.records
    endUnproven := reconstructor.endUnproven }

def tidIsInHandoffGap (timeline : PollTimeline) (tid timestamp : Nat) : Bool :=
  let gaps := timeline.tidHandoffGaps tid
  match partitionPoint (fun gap => decide (gap.1 ≤ timestamp)) gaps with
  | 0 => false
  | index + 1 => gaps[index]?.any fun gap => decide (timestamp < gap.2)

/-- The worker bound to a thread at a time. -/
def workerForTidAt (timeline : PollTimeline) (tid timestamp : Nat) : Option Nat :=
  if timeline.tidIsInHandoffGap tid timestamp then none
  else
    let bindings := timeline.tidBindings tid
    match partitionPoint (fun bound => decide (bound.1 ≤ timestamp)) bindings with
    | 0 => none
    | index + 1 => bindings[index]?.map Prod.snd

/-- The worker that a sample is attributed to; the two highest ids are off the runtime. -/
def attributeSampleWorker (timeline : PollTimeline) (tid timestamp : Nat) : Option Nat :=
  (timeline.workerForTidAt tid timestamp).filter fun worker => decide (worker < 254)

end PollTimeline

end Dial9.Viewer.Polls
