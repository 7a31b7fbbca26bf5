/-
# Columnar worker spans

The builder for large traces. It reads the events' columns by index, and what it finds
goes to an emitter: the one builds lanes, the other the columns of a store, from which
lanes are read back.
-/

import Dial9.Viewer.ColumnarEvents
import Dial9.Viewer.WorkerSpans

namespace Dial9.Viewer.Columnar

open Lib Spans

/-! ## Spans from the columns -/

namespace EVT

def pollStart : UInt8 := 0

def pollEnd : UInt8 := 1

def workerPark : UInt8 := 2

def workerUnpark : UInt8 := 3

def queueSample : UInt8 := 4

def wakeEvent : UInt8 := 9

end EVT

/-- A reconstructed span. -/
inductive Emission where
  | poll (poll : PollSpan)
  | park (park : ParkSpan)
  | active (active : ActiveSpan)
  deriving DecidableEq

/-- An event that samples the worker's local queue. -/
def isSampledAt (store : ColumnarEvents) (i : Nat) : Bool :=
  store.eventTypeAt i = EVT.pollStart || store.eventTypeAt i = EVT.workerPark ||
    store.eventTypeAt i = EVT.workerUnpark

/-- What is open of a worker, and what was emitted for it. -/
structure IndexState where
  openPoll : Option OpenPoll
  openPark : Option Int
  openUnpark : Option OpenUnpark
  emitted : List Emission
  queueSamples : List (Int × UInt8)

namespace IndexState

def empty : IndexState := ⟨none, none, none, [], []⟩

def emit (s : IndexState) (emissions : List Emission) : IndexState :=
  { s with emitted := s.emitted ++ emissions }

def sample (s : IndexState) (t : Int) (localQueue : UInt8) : IndexState :=
  { s with queueSamples := s.queueSamples ++ [(t, localQueue)] }

def setPoll (s : IndexState) (poll : Option OpenPoll) : IndexState := { s with openPoll := poll }

def startPark (s : IndexState) (start : Int) : IndexState := { s with openPark := some start }

def startActive (s : IndexState) (unpark : OpenUnpark) : IndexState :=
  { s with openUnpark := some unpark }

def closePoll (s : IndexState) (endTs : Int) (openEnded : Bool) : IndexState :=
  match s.openPoll with
  | none => s
  | some poll => { s.emit [.poll (poll.close endTs openEnded)] with openPoll := none }

def closeActive (s : IndexState) (gaps : List BlockInPlaceGap) (activeEnd cpuTime : Int) :
    IndexState :=
  match s.openUnpark with
  | none => s
  | some unpark =>
    { s.emit ((activeSpan gaps unpark activeEnd cpuTime).toList.map .active) with
      openUnpark := none }

def closePark (s : IndexState) (endTs : Int) (schedWait : Option Int) : IndexState :=
  match s.openPark with
  | none => s
  | some start => { s.emit [.park ⟨start, endTs, some schedWait⟩] with openPark := none }

/-- The event at an index. -/
def step (store : ColumnarEvents) (gaps : List BlockInPlaceGap) (s : IndexState) (i : Nat) :
    IndexState :=
  let et := store.eventTypeAt i
  let t := store.tsAt i
  let s := if isSampledAt store i then s.sample t (store.localQueueAt i) else s
  if et = EVT.pollStart then
    let spawnLoc := store.spawnLocAt i
    (s.closePoll t true).setPoll
      (some ⟨t, store.taskIdAt i, spawnLoc, spawnLoc, store.schedulingDelayAt i⟩)
  else if et = EVT.pollEnd then s.closePoll t false
  else if et = EVT.workerPark then
    ((s.closePoll t true).startPark t).closeActive gaps t (store.cpuTimeAt i)
  else if et = EVT.workerUnpark then
    (s.closePark t (store.schedWaitAt i)).startActive ⟨t, store.cpuTimeAt i⟩
  else s

end IndexState

/-! ## Wakes -/

/-- A row of the wakes. -/
structure WakeRecord where
  timestamp : Int
  wakerTaskId : Option Nat
  wokenTaskId : Option Nat
  targetWorker : Int
  deriving DecidableEq

/-- The wakes in rows, with an index of the rows for each lookup. -/
structure WakeIndex where
  rows : List WakeRecord
  byTask : Groups (Option Nat) Nat
  byWorker : Groups Int Nat

namespace WakeIndex

def blank : WakeRecord := ⟨0, none, none, 0⟩

/-- The rows' indices by key, in order of time. -/
def group {K : Type} [DecidableEq K] (rows : List WakeRecord) (key : WakeRecord → K) :
    Groups K Nat :=
  Groups.build (fun a b => (rows.getD a blank).timestamp ≤ (rows.getD b blank).timestamp) 0
    ((List.range rows.length).map fun i => (key (rows.getD i blank), i))

def build (rows : List WakeRecord) : WakeIndex where
  rows := rows
  byTask := group rows WakeRecord.wokenTaskId
  byWorker := group rows WakeRecord.targetWorker

def forTask (index : WakeIndex) (task : Option Nat) : List WakeRecord :=
  (index.byTask.rows task).map fun i => index.rows.getD i blank

def forWorker (index : WakeIndex) (w : Int) : List WakeRecord :=
  (index.byWorker.rows w).map fun i => index.rows.getD i blank

end WakeIndex

/-! ## The shared state machine -/

structure SpanAggregates where
  queueSamples : List GlobalSample
  queueSampleIndex : Int → Option (List (Int × UInt8))
  maxLocalQueue : Nat
  wakeIndex : WakeIndex

variable (store : ColumnarEvents) (workerIds : List Int) (maxTs : Int) (gaps : List BlockInPlaceGap)

def isLaneAt (i : Nat) : Bool :=
  store.eventTypeAt i ≠ EVT.wakeEvent && store.eventTypeAt i ≠ EVT.queueSample

/-- The indices of a worker's events, in order of time. -/
def bucket (w : Int) : List Nat :=
  ((List.range store.length).filter
    fun i => isLaneAt store i && store.workerIdAt i = w).insertionSort
    fun a b => store.tsAt a ≤ store.tsAt b

/-- The workers with a bucket, in order. -/
def bucketWorkers : List Int :=
  (((List.range store.length).filter (isLaneAt store)).map store.workerIdAt).dedup.insertionSort
    (· ≤ ·)

def bucketRun (w : Int) : IndexState :=
  (bucket store w).foldl (IndexState.step store (gapsOf gaps w)) .empty

def raiseAt (maxLocalQueue i : Nat) : Nat :=
  if isSampledAt store i ∧ (store.localQueueAt i).toNat > maxLocalQueue then
    (store.localQueueAt i).toNat
  else maxLocalQueue

/-- What is emitted: worker by worker, and at the end the parks that are still open. -/
def reconstruct : List (Int × Emission) :=
  ((bucketWorkers store).flatMap fun w => (bucketRun store gaps w).emitted.map fun e => (w, e)) ++
    workerIds.flatMap fun w => (bucketRun store gaps w).openPark.toList.map fun start =>
      (w, .park ⟨start, maxTs, none⟩)

def aggregates : SpanAggregates where
  queueSamples :=
    ((List.range store.length).filter fun i => store.eventTypeAt i = EVT.queueSample).map fun i =>
      ⟨store.tsAt i, store.globalQueueAt i⟩
  queueSampleIndex w :=
    if w ∈ workerIds ∨ w ∈ bucketWorkers store then some (bucketRun store gaps w).queueSamples
    else none
  maxLocalQueue := (bucketWorkers store).foldl
    (fun maxLocalQueue w => (bucket store w).foldl (raiseAt store) maxLocalQueue) 1
  wakeIndex := .build
    (((List.range store.length).filter fun i => store.eventTypeAt i = EVT.wakeEvent).map fun i =>
      ⟨store.tsAt i, store.wakerTaskIdAt i, store.wokenTaskIdAt i, store.workerIdAt i⟩)

/-! ## Lanes -/

namespace Fat

/-- `FatSpanEmitter`. -/
def push (lanes : Int → Option WorkerLane) (emission : Int × Emission) : Int → Option WorkerLane :=
  Function.update lanes emission.1 ((lanes emission.1).map fun lane =>
    match emission.2 with
    | .poll poll => { lane with polls := lane.polls ++ [poll] }
    | .park park => { lane with parks := lane.parks ++ [park] }
    | .active active => { lane with actives := lane.actives ++ [active] })

def ensure (workerIds : List Int) (w : Int) : Option WorkerLane :=
  if w ∈ workerIds then some ⟨[], [], []⟩ else none

end Fat

/-- The result with lanes, in which the wakes' records have all fields. -/
structure ColumnarResult where
  workerSpans : Int → Option WorkerLane
  queueSamples : List GlobalSample
  workerQueueSamples : Int → Option (List QueueSample)
  maxLocalQueue : Nat
  wakesByTask : Option Nat → List WakeRecord
  wakesByWorker : Int → List WakeRecord

def buildWorkerSpansColumnar : ColumnarResult where
  workerSpans := (reconstruct store workerIds maxTs gaps).foldl Fat.push (Fat.ensure workerIds)
  queueSamples := (aggregates store workerIds gaps).queueSamples
  workerQueueSamples w := ((aggregates store workerIds gaps).queueSampleIndex w).map fun samples =>
    samples.map fun s => ⟨s.1, s.2.toNat⟩
  maxLocalQueue := (aggregates store workerIds gaps).maxLocalQueue
  wakesByTask := (aggregates store workerIds gaps).wakeIndex.forTask
  wakesByWorker := (aggregates store workerIds gaps).wakeIndex.forWorker

/-! ## The store -/

/-- A worker's columns, in which `none` is what NaN encodes. -/
structure WorkerPollColumns where
  start : List Int
  endTs : List Int
  taskId : List Nat
  spawnIdx : List Int
  openEnded : List UInt8
  schedulingDelay : List (Option Int)
  parkStart : List Int
  parkEnd : List Int
  parkSchedWait : List (Option Int)
  activeStart : List Int
  activeEnd : List Int
  activeRatio : List Rat

namespace WorkerPollColumns

def empty : WorkerPollColumns := ⟨[], [], [], [], [], [], [], [], [], [], [], []⟩

end WorkerPollColumns

structure ColumnarWorkerSpans where
  byWorker : Int → Option WorkerPollColumns
  spawnStrings : List String

namespace ColumnarWorkerSpans

/-- The builder before the first span. -/
def ensure (workerIds : List Int) : ColumnarWorkerSpans where
  byWorker w := if w ∈ workerIds then some .empty else none
  spawnStrings := []

def pushPoll (b : ColumnarWorkerSpans) (w : Int) (poll : PollSpan) : ColumnarWorkerSpans :=
  let cols := (b.byWorker w).getD .empty
  let spawn := internOption b.spawnStrings poll.spawnLoc
  { byWorker := Function.update b.byWorker w (some
      { cols with
        start := cols.start ++ [poll.start]
        endTs := cols.endTs ++ [poll.endTs]
        taskId := cols.taskId ++ [poll.taskId]
        spawnIdx := cols.spawnIdx ++ [spawn.2]
        openEnded := cols.openEnded ++ [if poll.openEnded then 1 else 0]
        schedulingDelay := cols.schedulingDelay ++ [poll.schedulingDelay] })
    spawnStrings := spawn.1 }

def pushPark (b : ColumnarWorkerSpans) (w : Int) (park : ParkSpan) : ColumnarWorkerSpans :=
  let cols := (b.byWorker w).getD .empty
  { b with
    byWorker := Function.update b.byWorker w (some
      { cols with
        parkStart := cols.parkStart ++ [park.start]
        parkEnd := cols.parkEnd ++ [park.endTs]
        parkSchedWait := cols.parkSchedWait ++ [park.schedWait.join] }) }

def pushActive (b : ColumnarWorkerSpans) (w : Int) (active : ActiveSpan) : ColumnarWorkerSpans :=
  let cols := (b.byWorker w).getD .empty
  { b with
    byWorker := Function.update b.byWorker w (some
      { cols with
        activeStart := cols.activeStart ++ [active.start]
        activeEnd := cols.activeEnd ++ [active.endTs]
        activeRatio := cols.activeRatio ++ [active.ratio] }) }

/-- `StoreSpanEmitter`. -/
def push (b : ColumnarWorkerSpans) (emission : Int × Emission) : ColumnarWorkerSpans :=
  match emission.2 with
  | .poll poll => b.pushPoll emission.1 poll
  | .park park => b.pushPark emission.1 park
  | .active active => b.pushActive emission.1 active

end ColumnarWorkerSpans

def buildWorkerSpansColumnarStore : ColumnarWorkerSpans :=
  (reconstruct store workerIds maxTs gaps).foldl .push (.ensure workerIds)

/-! ## Lanes read back from the store -/

/-- A park as the store tells it: without the difference between a wait that was not
sampled and the end of the trace. -/
structure ParkView where
  start : Int
  endTs : Int
  schedWait : Option Int
  deriving DecidableEq

structure WorkerLaneView where
  polls : List PollSpan
  parks : List ParkView
  actives : List ActiveSpan
  deriving DecidableEq

namespace ColumnarWorkerSpans

def pollAt (s : ColumnarWorkerSpans) (cols : WorkerPollColumns) (i : Nat) : PollSpan :=
  let spawn := decode s.spawnStrings (cols.spawnIdx.getD i (-1))
  { start := cols.start.getD i 0
    endTs := cols.endTs.getD i 0
    taskId := cols.taskId.getD i 0
    spawnLocId := spawn
    spawnLoc := spawn
    schedulingDelay := cols.schedulingDelay.getD i none
    openEnded := cols.openEnded.getD i 0 = 1 }

def parkAt (cols : WorkerPollColumns) (i : Nat) : ParkView :=
  ⟨cols.parkStart.getD i 0, cols.parkEnd.getD i 0, cols.parkSchedWait.getD i none⟩

def activeAt (cols : WorkerPollColumns) (i : Nat) : ActiveSpan :=
  ⟨cols.activeStart.getD i 0, cols.activeEnd.getD i 0, cols.activeRatio.getD i 0⟩

def laneView (s : ColumnarWorkerSpans) (w : Int) : Option WorkerLaneView :=
  (s.byWorker w).map fun cols =>
    { polls := (List.range cols.start.length).map (s.pollAt cols)
      parks := (List.range cols.parkStart.length).map (parkAt cols)
      actives := (List.range cols.activeStart.length).map (activeAt cols) }

end ColumnarWorkerSpans

end Dial9.Viewer.Columnar
