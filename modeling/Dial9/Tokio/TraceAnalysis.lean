/-
# Summaries of a trace

The summary of a decoded trace and the detector of long polls, which both pair
the ends of polls with their starts, each through maps of its own. Times are
nanoseconds, and the totals have 64 bits.
-/

import Dial9.Lib.Tallies
import Mathlib.Data.Rat.Defs
import Mathlib.Logic.Function.Basic

namespace Dial9.Tokio.Analysis

open Dial9.Lib

/-! ## Events -/

structure PollStartEvent where
  timestampNs : Nat
  workerId : Nat
  localQueue : Nat
  taskId : Nat
  spawnLoc : String
  deriving DecidableEq

structure PollEndEvent where
  timestampNs : Nat
  workerId : Nat
  deriving DecidableEq

structure WorkerParkEvent where
  timestampNs : Nat
  workerId : Nat
  localQueue : Nat
  deriving DecidableEq

structure WorkerUnparkEvent where
  timestampNs : Nat
  workerId : Nat
  localQueue : Nat
  /-- Absent where the park was not sampled. -/
  schedWaitNs : Option Nat
  deriving DecidableEq

/-- `Dial9Event`, with the fields that the analyses read. -/
inductive Dial9Event where
  | pollStart (e : PollStartEvent)
  | pollEnd (e : PollEndEvent)
  | workerPark (e : WorkerParkEvent)
  | workerUnpark (e : WorkerUnparkEvent)
  | queueSample (timestampNs globalQueue : Nat)
  | runtimeMetrics (timestampNs globalQueueDepth : Nat)
  /-- The kinds read for their time alone; an unknown event has none. -/
  | other (timestampNs : Option Nat)
  deriving DecidableEq

/-- `event_timestamp`. -/
def eventTimestamp : Dial9Event → Option Nat
  | .pollStart e => some e.timestampNs
  | .pollEnd e => some e.timestampNs
  | .workerPark e => some e.timestampNs
  | .workerUnpark e => some e.timestampNs
  | .queueSample timestampNs _ => some timestampNs
  | .runtimeMetrics timestampNs _ => some timestampNs
  | .other timestampNs => timestampNs

/-! ## The summary -/

structure WorkerStats where
  pollCount : Nat := 0
  parkCount : Nat := 0
  unparkCount : Nat := 0
  totalPollTimeNs : Nat := 0
  maxLocalQueue : Nat := 0
  maxSchedWaitNs : Nat := 0
  totalSchedWaitNs : Nat := 0
  schedWaitSampleCount : Nat := 0
  deriving DecidableEq, Inhabited

structure SpawnLocationStats where
  pollCount : Nat := 0
  totalPollTimeNs : Nat := 0
  deriving DecidableEq, Inhabited

structure TraceAnalysis where
  totalEvents : Nat
  durationNs : Nat
  workerStats : Nat → Option WorkerStats
  maxGlobalQueue : Nat
  /-- Before it is rounded to a float. -/
  avgGlobalQueue : ℚ
  spawnLocationStats : String → Option SpawnLocationStats

/-- `TraceAnalysis::default`. -/
def TraceAnalysis.empty : TraceAnalysis := ⟨0, 0, fun _ => none, 0, 0, fun _ => none⟩

/-- `build_global_queue_timeline`. -/
def buildGlobalQueueTimeline (events : List Dial9Event) : Tallies :=
  events.foldl
    (fun byTs event =>
      match event with
      | .queueSample timestampNs globalQueue => byTs.add timestampNs globalQueue
      | .runtimeMetrics timestampNs globalQueueDepth => byTs.add timestampNs globalQueueDepth
      | _ => byTs)
    []

/-- `*map.entry(key).or_default()`, changed by `f`. -/
def entry {κ α : Type*} [DecidableEq κ] [Inhabited α] (map : κ → Option α) (key : κ) (f : α → α) :
    κ → Option α :=
  Function.update map key (some (f ((map key).getD default)))

/-- What the loop of `analyze_trace` keeps. -/
structure Tables where
  workerStats : Nat → Option WorkerStats
  pollStarts : Nat → Option Nat
  pollStartLocs : Nat → Option String
  spawnLocationStats : String → Option SpawnLocationStats

namespace Tables

def empty : Tables := ⟨fun _ => none, fun _ => none, fun _ => none, fun _ => none⟩

def pollStart (tables : Tables) (e : PollStartEvent) : Tables :=
  let tables := { tables with
    workerStats := entry tables.workerStats e.workerId fun stats =>
      { stats with
        maxLocalQueue := max stats.maxLocalQueue e.localQueue
        pollCount := stats.pollCount + 1 }
    pollStarts := Function.update tables.pollStarts e.workerId (some e.timestampNs) }
  if e.spawnLoc = "" then tables
  else { tables with
    spawnLocationStats := entry tables.spawnLocationStats e.spawnLoc fun stats =>
      { stats with pollCount := stats.pollCount + 1 }
    pollStartLocs := Function.update tables.pollStartLocs e.workerId (some e.spawnLoc) }

/-- `stats.total_poll_time_ns += duration`. -/
def chargeWorker (tables : Tables) (worker duration : Nat) : Tables :=
  { tables with
    workerStats := entry tables.workerStats worker fun stats =>
      { stats with totalPollTimeNs := (stats.totalPollTimeNs + duration) % 2 ^ 64 } }

/-- The worker's location is taken out of its map and charged. -/
def chargeLoc (tables : Tables) (worker : Nat) (loc : String) (duration : Nat) : Tables :=
  { tables with
    pollStartLocs := Function.update tables.pollStartLocs worker none
    spawnLocationStats := entry tables.spawnLocationStats loc fun stats =>
      { stats with totalPollTimeNs := (stats.totalPollTimeNs + duration) % 2 ^ 64 } }

/-- The start stays in its map. -/
def pollEnd (tables : Tables) (e : PollEndEvent) : Tables :=
  let tables := { tables with workerStats := entry tables.workerStats e.workerId id }
  match tables.pollStarts e.workerId with
  | none => tables
  | some start =>
    let duration := e.timestampNs - start
    match tables.pollStartLocs e.workerId with
    | none => tables.chargeWorker e.workerId duration
    | some loc => (tables.chargeWorker e.workerId duration).chargeLoc e.workerId loc duration

def workerPark (tables : Tables) (e : WorkerParkEvent) : Tables :=
  { tables with
    workerStats := entry tables.workerStats e.workerId fun stats =>
      { stats with
        maxLocalQueue := max stats.maxLocalQueue e.localQueue
        parkCount := stats.parkCount + 1 } }

def workerUnpark (tables : Tables) (e : WorkerUnparkEvent) : Tables :=
  { tables with
    workerStats := entry tables.workerStats e.workerId fun stats =>
      let stats := { stats with
        maxLocalQueue := max stats.maxLocalQueue e.localQueue
        unparkCount := stats.unparkCount + 1 }
      match e.schedWaitNs with
      | none => stats
      | some schedWaitNs => { stats with
          schedWaitSampleCount := stats.schedWaitSampleCount + 1
          totalSchedWaitNs := (stats.totalSchedWaitNs + schedWaitNs) % 2 ^ 64
          maxSchedWaitNs := max stats.maxSchedWaitNs schedWaitNs } }

def step (tables : Tables) : Dial9Event → Tables
  | .pollStart e => tables.pollStart e
  | .pollEnd e => tables.pollEnd e
  | .workerPark e => tables.workerPark e
  | .workerUnpark e => tables.workerUnpark e
  | _ => tables

end Tables

/-- `analyze_trace`. -/
def analyzeTrace (events : List Dial9Event) : TraceAnalysis :=
  match events.head?.bind eventTimestamp, events.getLast?.bind eventTimestamp with
  | some startTime, some endTime =>
    let queueTimeline := buildGlobalQueueTimeline events
    let depths := queueTimeline.map Prod.snd
    let tables := events.foldl Tables.step .empty
    { totalEvents := events.length
      durationNs := endTime - startTime
      workerStats := tables.workerStats
      maxGlobalQueue := if queueTimeline = [] then 0 else depths.foldl max 0
      avgGlobalQueue := if queueTimeline = [] then 0 else (depths.sum : ℚ) / queueTimeline.length
      spawnLocationStats := tables.spawnLocationStats }
  | _, _ => .empty

/-! ## The detector -/

structure LongPoll where
  workerId : Nat
  startNs : Nat
  endNs : Nat
  durationNs : Nat
  taskId : Nat
  spawnLoc : String
  deriving DecidableEq

/-- What the loop of `detect_long_polls` keeps. -/
structure Detector where
  longPolls : List LongPoll
  pollStarts : Nat → Option (Nat × Nat × String)

namespace Detector

def empty : Detector := ⟨[], fun _ => none⟩

def pollEnd (thresholdNs : Nat) (detector : Detector) (e : PollEndEvent) : Detector :=
  match detector.pollStarts e.workerId with
  | none => detector
  | some (start, taskId, spawnLoc) =>
    let duration := e.timestampNs - start
    { longPolls :=
        if duration ≥ thresholdNs then
          detector.longPolls ++ [⟨e.workerId, start, e.timestampNs, duration, taskId, spawnLoc⟩]
        else detector.longPolls
      pollStarts := Function.update detector.pollStarts e.workerId none }

def step (thresholdNs : Nat) (detector : Detector) : Dial9Event → Detector
  | .pollStart e =>
    { detector with
      pollStarts := Function.update detector.pollStarts e.workerId
        (some (e.timestampNs, e.taskId, e.spawnLoc)) }
  | .pollEnd e => detector.pollEnd thresholdNs e
  | _ => detector

end Detector

/-- `detect_long_polls`. -/
def detectLongPolls (events : List Dial9Event) (thresholdNs : Nat) : List LongPoll :=
  (events.foldl (Detector.step thresholdNs) .empty).longPolls

end Dial9.Tokio.Analysis
