/-
# Columnar events

The runtime events of a large trace, as columns. Strings and task ids are kept by index,
and an absent value by a sentinel. Where its values are within the widths of the
columns, an event reads back from its row.
-/

import Dial9.Lib.Columns
import Dial9.Viewer.TraceEvents

namespace Dial9.Viewer.Columnar

open Lib

/-- The columns, in which `none` is what NaN encodes, and -1 an absent index. -/
structure ColumnarEvents where
  eventType : List UInt8
  ts : List Int
  workerId : List Int32
  localQueue : List UInt8
  globalQueue : List Int32
  cpuTime : List Int
  schedWaitRaw : List (Option Int)
  schedulingDelayRaw : List (Option Int)
  taskIdx : List Int
  spawnLocIdx : List Int
  wakerTaskIdx : List Int
  wokenTaskIdx : List Int
  spawnList : List String
  taskIdList : List Nat

namespace ColumnarEvents

def empty : ColumnarEvents := ⟨[], [], [], [], [], [], [], [], [], [], [], [], [], []⟩

def length (store : ColumnarEvents) : Nat := store.ts.length

def push (store : ColumnarEvents) (e : TraceEvent) : ColumnarEvents :=
  let task := internOption store.taskIdList (some e.taskId)
  let spawnLoc := internOption store.spawnList e.spawnLoc
  let waker := internOption task.1 e.wakerTaskId
  let woken := internOption waker.1 e.wokenTaskId
  { eventType := store.eventType ++ [e.eventType.code]
    ts := store.ts ++ [e.timestamp]
    workerId := store.workerId ++ [.ofNat e.workerId]
    localQueue := store.localQueue ++ [.ofNat e.localQueue]
    globalQueue := store.globalQueue ++ [.ofNat e.globalQueue]
    cpuTime := store.cpuTime ++ [e.cpuTime]
    schedWaitRaw := store.schedWaitRaw ++ [e.schedWait]
    schedulingDelayRaw := store.schedulingDelayRaw ++ [e.schedulingDelay]
    taskIdx := store.taskIdx ++ [task.2]
    spawnLocIdx := store.spawnLocIdx ++ [spawnLoc.2]
    wakerTaskIdx := store.wakerTaskIdx ++ [waker.2]
    wokenTaskIdx := store.wokenTaskIdx ++ [woken.2]
    spawnList := spawnLoc.1
    taskIdList := woken.1 }

/-! ## Reads by index -/

variable (store : ColumnarEvents) (i : Nat)

def eventTypeAt : UInt8 := store.eventType.getD i 0

def tsAt : Int := store.ts.getD i 0

def workerIdAt : Int := (store.workerId.getD i 0).toInt

def localQueueAt : UInt8 := store.localQueue.getD i 0

def globalQueueAt : Int := (store.globalQueue.getD i 0).toInt

def cpuTimeAt : Int := store.cpuTime.getD i 0

def schedWaitAt : Option Int := store.schedWaitRaw.getD i none

def schedulingDelayAt : Option Int := store.schedulingDelayRaw.getD i none

def spawnLocAt : Option String := decode store.spawnList (store.spawnLocIdx.getD i (-1))

/-- An absent id reads as 0. -/
def taskIdAt : Nat := (decode store.taskIdList (store.taskIdx.getD i (-1))).getD 0

def wakerTaskIdAt : Option Nat := decode store.taskIdList (store.wakerTaskIdx.getD i (-1))

def wokenTaskIdAt : Option Nat := decode store.taskIdList (store.wokenTaskIdx.getD i (-1))

end ColumnarEvents

/-- The store that some events were pushed into. -/
def storeOf (events : List TraceEvent) : ColumnarEvents := events.foldl .push .empty

/-! ## Events read back -/

/-- Within the widths of the columns. -/
structure InWidth (e : TraceEvent) : Prop where
  workerId : e.workerId < 2 ^ 31
  localQueue : e.localQueue < 2 ^ 8
  globalQueue : e.globalQueue < 2 ^ 31

/-- The columns hold the events. -/
structure Holds (store : ColumnarEvents) (events : List TraceEvent) : Prop where
  eventType : store.eventType = events.map fun e => e.eventType.code
  ts : store.ts = events.map TraceEvent.timestamp
  workerId : store.workerId = events.map fun e => .ofNat e.workerId
  localQueue : store.localQueue = events.map fun e => .ofNat e.localQueue
  globalQueue : store.globalQueue = events.map fun e => .ofNat e.globalQueue
  cpuTime : store.cpuTime = events.map TraceEvent.cpuTime
  schedWait : store.schedWaitRaw = events.map TraceEvent.schedWait
  schedulingDelay : store.schedulingDelayRaw = events.map TraceEvent.schedulingDelay
  taskId : List.Forall₂ (Decodes store.taskIdList) store.taskIdx
    (events.map fun e => some e.taskId)
  spawnLoc : List.Forall₂ (Decodes store.spawnList) store.spawnLocIdx
    (events.map TraceEvent.spawnLoc)
  wakerTaskId : List.Forall₂ (Decodes store.taskIdList) store.wakerTaskIdx
    (events.map TraceEvent.wakerTaskId)
  wokenTaskId : List.Forall₂ (Decodes store.taskIdList) store.wokenTaskIdx
    (events.map TraceEvent.wokenTaskId)

variable {α : Type} {table later : List α} {indices : List Int} {values : List (Option α)}

theorem decodes_concat (h : List.Forall₂ (Decodes table) indices values)
    (hlater : table <+: later) {index : Int} {a? : Option α} (hlast : Decodes later index a?) :
    List.Forall₂ (Decodes later) (indices ++ [index]) (values ++ [a?]) :=
  List.rel_append (h.imp fun _ _ hd => hd.of_grown hlater) (.cons hlast .nil)

variable {events : List TraceEvent}

theorem Holds.push {store : ColumnarEvents} (h : Holds store events) (e : TraceEvent) :
    Holds (store.push e) (events ++ [e]) := by
  have htask := prefix_internOption store.taskIdList (some e.taskId)
  have hwaker := prefix_internOption (internOption store.taskIdList (some e.taskId)).1 e.wakerTaskId
  have hwoken := prefix_internOption
    (internOption (internOption store.taskIdList (some e.taskId)).1 e.wakerTaskId).1 e.wokenTaskId
  have htasks := (htask.trans hwaker).trans hwoken
  exact {
    eventType := by rw [List.map_append, ← h.eventType]; rfl
    ts := by rw [List.map_append, ← h.ts]; rfl
    workerId := by rw [List.map_append, ← h.workerId]; rfl
    localQueue := by rw [List.map_append, ← h.localQueue]; rfl
    globalQueue := by rw [List.map_append, ← h.globalQueue]; rfl
    cpuTime := by rw [List.map_append, ← h.cpuTime]; rfl
    schedWait := by rw [List.map_append, ← h.schedWait]; rfl
    schedulingDelay := by rw [List.map_append, ← h.schedulingDelay]; rfl
    taskId := by
      rw [List.map_append]
      exact decodes_concat h.taskId htasks
        (((decodes_internOption _ _).of_grown hwaker).of_grown hwoken)
    spawnLoc := by
      rw [List.map_append]
      exact decodes_concat h.spawnLoc (prefix_internOption _ _) (decodes_internOption _ _)
    wakerTaskId := by
      rw [List.map_append]
      exact decodes_concat h.wakerTaskId htasks ((decodes_internOption _ _).of_grown hwoken)
    wokenTaskId := by
      rw [List.map_append]
      exact decodes_concat h.wokenTaskId htasks (decodes_internOption _ _) }

theorem storeOf_holds (events : List TraceEvent) : Holds (storeOf events) events := by
  induction events using List.reverseRecOn with
  | nil =>
    exact {
      eventType := rfl, ts := rfl, workerId := rfl, localQueue := rfl, globalQueue := rfl
      cpuTime := rfl, schedWait := rfl, schedulingDelay := rfl
      taskId := .nil, spawnLoc := .nil, wakerTaskId := .nil, wokenTaskId := .nil }
  | append_singleton events e ih =>
    rw [storeOf, List.foldl_concat]
    exact ih.push e

/-- An event reads back from its row. -/
structure Row (store : ColumnarEvents) (i : Nat) (e : TraceEvent) : Prop where
  eventType : store.eventTypeAt i = e.eventType.code
  ts : store.tsAt i = e.timestamp
  workerId : store.workerIdAt i = e.workerId
  localQueue : (store.localQueueAt i).toNat = e.localQueue
  globalQueue : store.globalQueueAt i = e.globalQueue
  cpuTime : store.cpuTimeAt i = e.cpuTime
  schedWait : store.schedWaitAt i = e.schedWait
  schedulingDelay : store.schedulingDelayAt i = e.schedulingDelay
  taskId : store.taskIdAt i = e.taskId
  spawnLoc : store.spawnLocAt i = e.spawnLoc
  wakerTaskId : store.wakerTaskIdAt i = e.wakerTaskId
  wokenTaskId : store.wokenTaskIdAt i = e.wokenTaskId

theorem decode_getD (h : List.Forall₂ (Decodes table) indices values) {i : Nat} {a? : Option α}
    (hi : values[i]? = some a?) : decode table (indices.getD i (-1)) = a? := by
  rcases List.getElem?_eq_some_iff.mp hi with ⟨hlength, rfl⟩
  have hindex : i < indices.length := h.length_eq ▸ hlength
  rw [List.getD_eq_getElem?_getD, List.getElem?_eq_getElem hindex, Option.getD_some]
  exact (h.get hindex hlength).decode

theorem getD_map {β : Type} {f : TraceEvent → β} {column : List β} (h : column = events.map f)
    {i : Nat} {e : TraceEvent} (hi : events[i]? = some e) (blank : β) :
    column.getD i blank = f e := by
  rw [h, List.getD_eq_getElem?_getD, List.getElem?_map, hi]
  rfl

theorem storeOf_row {i : Nat} {e : TraceEvent} (hi : events[i]? = some e) (he : InWidth e) :
    Row (storeOf events) i e := by
  have h := storeOf_holds events
  have hmap : ∀ {β : Type} (f : TraceEvent → β), (events.map f)[i]? = some (f e) := by
    intro β f
    rw [List.getElem?_map, hi]
    rfl
  exact {
    eventType := getD_map h.eventType hi _
    ts := getD_map h.ts hi _
    workerId := by
      rw [ColumnarEvents.workerIdAt, getD_map h.workerId hi]
      exact Int32.toInt_ofNat_of_lt he.workerId
    localQueue := by
      rw [ColumnarEvents.localQueueAt, getD_map h.localQueue hi]
      exact UInt8.toNat_ofNat_of_lt he.localQueue
    globalQueue := by
      rw [ColumnarEvents.globalQueueAt, getD_map h.globalQueue hi]
      exact Int32.toInt_ofNat_of_lt he.globalQueue
    cpuTime := getD_map h.cpuTime hi _
    schedWait := getD_map h.schedWait hi _
    schedulingDelay := getD_map h.schedulingDelay hi _
    taskId := by
      rw [ColumnarEvents.taskIdAt, decode_getD h.taskId (hmap _)]
      rfl
    spawnLoc := decode_getD h.spawnLoc (hmap _)
    wakerTaskId := decode_getD h.wakerTaskId (hmap _)
    wokenTaskId := decode_getD h.wokenTaskId (hmap _) }

theorem storeOf_length (events : List TraceEvent) : (storeOf events).length = events.length := by
  rw [ColumnarEvents.length, (storeOf_holds events).ts, List.length_map]

end Dial9.Viewer.Columnar
