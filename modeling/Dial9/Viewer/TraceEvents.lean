/-
# Runtime events

The flat record of a runtime event, as the parser builds it. A field that an event's
type does not carry has its default. Times are nanoseconds.
-/

import Mathlib.Data.List.Sort

namespace Dial9.Viewer

/-- `EVENT_TYPES`. -/
inductive EventType where
  | pollStart
  | pollEnd
  | workerPark
  | workerUnpark
  | queueSample
  | wakeEvent
  deriving DecidableEq

namespace EventType

def code : EventType → UInt8
  | pollStart => 0
  | pollEnd => 1
  | workerPark => 2
  | workerUnpark => 3
  | queueSample => 4
  | wakeEvent => 9

theorem code_inj {a b : EventType} : a.code = b.code ↔ a = b := by
  constructor
  · intro h
    cases a <;> cases b <;> first | rfl | cases h
  · rintro rfl
    rfl

end EventType

structure TraceEvent where
  eventType : EventType
  timestamp : Int
  workerId : Nat
  localQueue : Nat
  globalQueue : Nat
  cpuTime : Int
  /-- Absent where the unpark was not sampled. -/
  schedWait : Option Int
  schedulingDelay : Option Int
  taskId : Nat
  spawnLocId : Option String
  spawnLoc : Option String
  /-- Absent on other events than wakes. -/
  wakerTaskId : Option Nat
  wokenTaskId : Option Nat
  targetWorker : Option Nat
  deriving DecidableEq

/-- The stable sort by time. -/
def sortByTime (events : List TraceEvent) : List TraceEvent :=
  events.insertionSort fun a b => a.timestamp ≤ b.timestamp

theorem mem_sortByTime {events : List TraceEvent} {e : TraceEvent} :
    e ∈ sortByTime events ↔ e ∈ events :=
  (List.perm_insertionSort _ events).mem_iff

theorem sortByTime_pairwise (events : List TraceEvent) :
    (sortByTime events).Pairwise fun a b => a.timestamp ≤ b.timestamp := by
  have : Std.Total fun a b : TraceEvent => a.timestamp ≤ b.timestamp := ⟨fun a b => le_total _ _⟩
  have : IsTrans TraceEvent fun a b => a.timestamp ≤ b.timestamp := ⟨fun _ _ _ => le_trans⟩
  exact List.pairwise_insertionSort _ events

end Dial9.Viewer
