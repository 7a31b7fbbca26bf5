/-
# The drain of the memory profiler's queues

The allocator's hooks push sampled allocations and frees onto two bounded queues and
count what does not fit. Each cycle the flush merges the queues by time, and reports
how many were dropped since it last looked.

Every atomic step of a hook and of the flush is a step of its own here, so that they
interleave in any way; the hooks may change the liveset to anything between two steps.
The record fields say what was pushed and what was handled, and no step of the code
reads them. The drop counters are numbers without a width.
-/

import Dial9.Lib.Run
import Mathlib.Algebra.Order.Ring.Nat
import Mathlib.Logic.Function.Basic

namespace Dial9.SelfProfile.QueueDrain

open Lib

structure RawAlloc where
  tid : Nat
  size : Nat
  addr : Nat
  ts : Nat
  frames : List Nat
  frameCount : Nat
  deriving DecidableEq

structure RawFree where
  tid : Nat
  addr : Nat
  ts : Nat
  size : Nat
  allocTs : Nat
  shutdown : Bool
  deriving DecidableEq

structure AllocEvent where
  timestamp : Nat
  tid : Nat
  size : Nat
  addr : Nat
  callchain : List Nat
  deriving DecidableEq

structure FreeEvent where
  timestamp : Nat
  tid : Nat
  addr : Nat
  size : Nat
  allocTimestamp : Nat
  deriving DecidableEq

structure MemoryProfileOverflowEvent where
  timestamp : Nat
  droppedAllocs : Nat
  droppedFrees : Nat
  deriving DecidableEq

/-- What the flush encodes. -/
inductive TraceEvent where
  | alloc (event : AllocEvent)
  | free (event : FreeEvent)
  | overflow (event : MemoryProfileOverflowEvent)
  deriving DecidableEq

namespace TraceEvent

def alloc? : TraceEvent → Option AllocEvent
  | .alloc event => some event
  | .free _ | .overflow _ => none

def droppedAllocs : TraceEvent → Nat
  | .overflow event => event.droppedAllocs
  | .alloc _ | .free _ => 0

def droppedFrees : TraceEvent → Nat
  | .overflow event => event.droppedFrees
  | .alloc _ | .free _ => 0

end TraceEvent

/-- A bounded queue, whose pushes and pops are atomic. -/
structure ArrayQueue (α : Type) where
  capacity : Nat
  items : List α

namespace ArrayQueue

variable {α : Type}

def push (q : ArrayQueue α) (x : α) : Option (ArrayQueue α) :=
  if q.items.length < q.capacity then some { q with items := q.items ++ [x] } else none

def pop (q : ArrayQueue α) : Option α × ArrayQueue α :=
  (q.items.head?, { q with items := q.items.tail })

end ArrayQueue

structure RingBuffers where
  allocQueue : ArrayQueue RawAlloc
  freeQueue : ArrayQueue RawFree
  droppedAllocs : Nat
  droppedFrees : Nat

/-- The sizes and times of the sampled allocations, by address. -/
abbrev Liveset := Nat → Option (Nat × Nat)

structure MemoryProfileSource where
  liveset : Option Liveset
  prevDroppedAllocs : Nat
  prevDroppedFrees : Nat

/-- What the flush took off a queue and handled. -/
inductive Record where
  | alloc (sample : RawAlloc)
  | free (sample : RawFree)
  deriving DecidableEq

namespace Record

def ts : Record → Nat
  | .alloc sample => sample.ts
  | .free sample => sample.ts

def alloc? : Record → Option RawAlloc
  | .alloc sample => some sample
  | .free _ => none

def free? : Record → Option RawFree
  | .alloc _ => none
  | .free sample => some sample

theorem allocs_free (records : List Record) (f : RawFree) :
    (records ++ [Record.free f]).filterMap alloc? = records.filterMap alloc? := by
  rw [List.filterMap_append]
  exact List.append_nil _

theorem frees_alloc (records : List Record) (a : RawAlloc) :
    (records ++ [Record.alloc a]).filterMap free? = records.filterMap free? := by
  rw [List.filterMap_append]
  exact List.append_nil _

/-- In order of time, and an allocation before a free of the same time. -/
def Before (r x : Record) : Prop :=
  r.ts < x.ts ∨ r.ts = x.ts ∧ (x.alloc?.isSome = true → r.alloc?.isSome = true)

end Record

/-- Where the flush is. -/
inductive Point where
  | idle
  /-- The first allocation is popped; about to pop the first free. -/
  | started (nextAlloc : Option RawAlloc)
  | merging (nextAlloc : Option RawAlloc) (nextFree : Option RawFree)
  /-- An allocation was handled; about to pop the next. -/
  | refillAlloc (nextFree : Option RawFree)
  | refillFree (nextAlloc : Option RawAlloc)
  /-- About to load the drop counters, one and then the other. -/
  | reading
  | readingFrees (currentDroppedAllocs : Nat)
  | reporting (currentDroppedAllocs currentDroppedFrees : Nat)

namespace Point

def heldAlloc : Point → List RawAlloc
  | .started nextAlloc | .merging nextAlloc _ | .refillFree nextAlloc => nextAlloc.toList
  | .idle | .refillAlloc _ | .reading | .readingFrees _ | .reporting _ _ => []

def heldFree : Point → List RawFree
  | .merging _ nextFree | .refillAlloc nextFree => nextFree.toList
  | .idle | .started _ | .refillFree _ | .reading | .readingFrees _ | .reporting _ _ => []

/-- The last pop of an allocation found none. -/
def allocDry : Point → Bool
  | .started nextAlloc | .merging nextAlloc _ | .refillFree nextAlloc => nextAlloc.isNone
  | .refillAlloc _ => false
  | .idle | .reading | .readingFrees _ | .reporting _ _ => true

def freeDry : Point → Bool
  | .merging _ nextFree | .refillAlloc nextFree => nextFree.isNone
  | .started _ | .refillFree _ => false
  | .idle | .reading | .readingFrees _ | .reporting _ _ => true

end Point

structure Profile where
  rings : RingBuffers
  source : MemoryProfileSource
  point : Point
  /-- How many hooks are between a push that failed and the count of it. -/
  uncountedAllocs : Nat
  uncountedFrees : Nat
  /-- What was encoded. -/
  events : List TraceEvent
  /-- How many pushes there were, for the record. -/
  pushedAllocs : Nat
  pushedFrees : Nat
  /-- What the queues took, for the record. -/
  acceptedAllocs : List RawAlloc
  acceptedFrees : List RawFree
  /-- What was handled, for the record. -/
  handled : List Record
  /-- How many the queues had taken when the latest flush began, for the record. -/
  begunAllocs : Nat
  begunFrees : Nat
  /-- The counters that the latest flush to end has read, for the record. -/
  readAllocs : Nat
  readFrees : Nat

inductive Event where
  | pushAlloc (sample : RawAlloc)
  /-- A hook counts a push that failed. -/
  | countAlloc
  | pushFree (sample : RawFree)
  | countFree
  /-- The hooks change the liveset. -/
  | change (liveset : Liveset)
  /-- The next step of the flush, at a time. -/
  | flush (now : Nat)

def Event.isPush : Event → Bool
  | .pushAlloc _ | .pushFree _ => true
  | .countAlloc | .countFree | .change _ | .flush _ => false

def allocEvent (a : RawAlloc) : AllocEvent :=
  ⟨a.ts, a.tid, a.size, a.addr, a.frames.take a.frameCount⟩

/-- The liveset after a free was handled, and the event of it, if there is one. -/
def freeEvent (f : RawFree) : Option Liveset → Option Liveset × Option FreeEvent
  | none => (none, none)
  | some liveset =>
    if f.shutdown = true then
      match liveset f.addr with
      | none => (some liveset, none)
      | some (size, allocTs) =>
        if allocTs ≥ f.ts then (some liveset, none)
        else
          (some (Function.update liveset f.addr none),
            some ⟨f.ts, f.tid, f.addr, size, allocTs⟩)
    else (some liveset, some ⟨f.ts, f.tid, f.addr, f.size, f.allocTs⟩)

variable {events : List Event} {nextAlloc : Option RawAlloc}

namespace Profile

def empty (allocCapacity freeCapacity : Nat) (liveset : Option Liveset) : Profile where
  rings := ⟨⟨allocCapacity, []⟩, ⟨freeCapacity, []⟩, 0, 0⟩
  source := ⟨liveset, 0, 0⟩
  point := .idle
  uncountedAllocs := 0
  uncountedFrees := 0
  events := []
  pushedAllocs := 0
  pushedFrees := 0
  acceptedAllocs := []
  acceptedFrees := []
  handled := []
  begunAllocs := 0
  begunFrees := 0
  readAllocs := 0
  readFrees := 0

def handledAllocs (s : Profile) : List RawAlloc := s.handled.filterMap Record.alloc?

def handledFrees (s : Profile) : List RawFree := s.handled.filterMap Record.free?

/-- `push_alloc` up to the count of a push that failed. -/
def pushAlloc (s : Profile) (sample : RawAlloc) : Profile :=
  match s.rings.allocQueue.push sample with
  | some queue =>
    { s with
      rings.allocQueue := queue
      pushedAllocs := s.pushedAllocs + 1
      acceptedAllocs := s.acceptedAllocs ++ [sample] }
  | none =>
    { s with
      uncountedAllocs := s.uncountedAllocs + 1
      pushedAllocs := s.pushedAllocs + 1 }

def pushFree (s : Profile) (sample : RawFree) : Profile :=
  match s.rings.freeQueue.push sample with
  | some queue =>
    { s with
      rings.freeQueue := queue
      pushedFrees := s.pushedFrees + 1
      acceptedFrees := s.acceptedFrees ++ [sample] }
  | none =>
    { s with
      uncountedFrees := s.uncountedFrees + 1
      pushedFrees := s.pushedFrees + 1 }

def popAlloc (s : Profile) (next : Option RawAlloc → Point) : Profile :=
  { s with
    rings.allocQueue := s.rings.allocQueue.pop.2
    point := next s.rings.allocQueue.pop.1 }

def popFree (s : Profile) (next : Option RawFree → Point) : Profile :=
  { s with
    rings.freeQueue := s.rings.freeQueue.pop.2
    point := next s.rings.freeQueue.pop.1 }

def handleAlloc (s : Profile) (a : RawAlloc) (nextFree : Option RawFree) : Profile :=
  { s with
    point := .refillAlloc nextFree
    events := s.events ++ [.alloc (allocEvent a)]
    handled := s.handled ++ [.alloc a] }

def handleFree (s : Profile) (f : RawFree) (nextAlloc : Option RawAlloc) : Profile :=
  { s with
    source.liveset := (freeEvent f s.source.liveset).1
    point := .refillFree nextAlloc
    events := s.events ++ ((freeEvent f s.source.liveset).2.map TraceEvent.free).toList
    handled := s.handled ++ [.free f] }

/-- The overflow event, if anything was dropped since the last one. -/
def report (s : Profile) (now currentDroppedAllocs currentDroppedFrees : Nat) : Profile :=
  let deltaAllocs := currentDroppedAllocs - s.source.prevDroppedAllocs
  let deltaFrees := currentDroppedFrees - s.source.prevDroppedFrees
  let ended :=
    { s with
      point := .idle
      readAllocs := currentDroppedAllocs
      readFrees := currentDroppedFrees }
  if deltaAllocs > 0 ∨ deltaFrees > 0 then
    { ended with
      events := s.events ++ [.overflow ⟨now, deltaAllocs, deltaFrees⟩]
      source.prevDroppedAllocs := currentDroppedAllocs
      source.prevDroppedFrees := currentDroppedFrees }
  else ended

def flushStep (s : Profile) (now : Nat) : Profile :=
  match s.point with
  | .idle =>
    { s.popAlloc .started with
      begunAllocs := s.acceptedAllocs.length
      begunFrees := s.acceptedFrees.length }
  | .started nextAlloc => s.popFree (.merging nextAlloc)
  | .merging none none => { s with point := .reading }
  | .merging (some a) none => s.handleAlloc a none
  | .merging none (some f) => s.handleFree f none
  | .merging (some a) (some f) =>
    if a.ts ≤ f.ts then s.handleAlloc a (some f) else s.handleFree f (some a)
  | .refillAlloc nextFree => s.popAlloc fun nextAlloc => .merging nextAlloc nextFree
  | .refillFree nextAlloc => s.popFree (.merging nextAlloc)
  | .reading => { s with point := .readingFrees s.rings.droppedAllocs }
  | .readingFrees current => { s with point := .reporting current s.rings.droppedFrees }
  | .reporting currentAllocs currentFrees => s.report now currentAllocs currentFrees

def step (s : Profile) : Event → Option Profile
  | .pushAlloc sample => some (s.pushAlloc sample)
  | .countAlloc =>
    if 0 < s.uncountedAllocs then
      some
        { s with
          uncountedAllocs := s.uncountedAllocs - 1
          rings.droppedAllocs := s.rings.droppedAllocs + 1 }
    else none
  | .pushFree sample => some (s.pushFree sample)
  | .countFree =>
    if 0 < s.uncountedFrees then
      some
        { s with
          uncountedFrees := s.uncountedFrees - 1
          rings.droppedFrees := s.rings.droppedFrees + 1 }
    else none
  | .change liveset => some { s with source.liveset := s.source.liveset.map fun _ => liveset }
  | .flush now => some (s.flushStep now)

/-! ## Nothing is lost -/

variable {α : Type}

/-- What a queue took was handled, is held by the flush or waits, in this order. -/
structure Flow (accepted handled held waiting : List α) (dry : Bool) (begun : Nat) : Prop where
  sum : accepted = handled ++ (held ++ waiting)
  bound : begun ≤ accepted.length
  /-- After the last pop of a flush all that it began with is handled. -/
  settled : dry = true → begun ≤ handled.length

namespace Flow

variable {accepted handled held waiting : List α} {dry : Bool} {begun : Nat}

theorem push (h : Flow accepted handled held waiting dry begun) (x : α) :
    Flow (accepted ++ [x]) handled held (waiting ++ [x]) dry begun where
  sum := by
    rw [h.sum]
    simp only [List.append_assoc]
  bound := by
    rw [List.length_append]
    exact h.bound.trans (Nat.le_add_right _ _)
  settled := h.settled

theorem pop (h : Flow accepted handled [] waiting dry begun) {begun' : Nat}
    (hbegun : begun' ≤ accepted.length) :
    Flow accepted handled waiting.head?.toList waiting.tail waiting.head?.isNone begun' := by
  cases waiting with
  | nil =>
    refine ⟨h.sum, hbegun, fun _ => ?_⟩
    rwa [h.sum, List.nil_append, List.append_nil] at hbegun
  | cons x rest => exact ⟨h.sum, hbegun, fun hnone => absurd hnone Bool.false_ne_true⟩

theorem handle {x : α} (h : Flow accepted handled [x] waiting dry begun) :
    Flow accepted (handled ++ [x]) [] waiting false begun where
  sum := by
    rw [h.sum, List.append_assoc]
    rfl
  bound := h.bound
  settled hdry := absurd hdry Bool.false_ne_true

theorem wet (h : Flow accepted handled held waiting dry begun) {begun' : Nat}
    (hbegun : begun' ≤ accepted.length) : Flow accepted handled held waiting false begun' where
  sum := h.sum
  bound := hbegun
  settled hdry := absurd hdry Bool.false_ne_true

end Flow

/-- Every push was taken, or is counted or about to be, and what was reported is what was read. -/
structure Ledger (pushed accepted dropped uncounted reported prev read : Nat) : Prop where
  counted : pushed = accepted + dropped + uncounted
  summed : reported = prev
  latest : read = prev
  behind : prev ≤ dropped

/-- The counters that the flush holds were read since it last reported. -/
def Fresh (s : Profile) : Prop :=
  match s.point with
  | .readingFrees allocs =>
    s.source.prevDroppedAllocs ≤ allocs ∧ allocs ≤ s.rings.droppedAllocs
  | .reporting allocs frees =>
    (s.source.prevDroppedAllocs ≤ allocs ∧ allocs ≤ s.rings.droppedAllocs) ∧
      s.source.prevDroppedFrees ≤ frees ∧ frees ≤ s.rings.droppedFrees
  | _ => True

structure Sound (s : Profile) : Prop where
  allocs : Flow s.acceptedAllocs s.handledAllocs s.point.heldAlloc s.rings.allocQueue.items
    s.point.allocDry s.begunAllocs
  frees : Flow s.acceptedFrees s.handledFrees s.point.heldFree s.rings.freeQueue.items
    s.point.freeDry s.begunFrees
  emitted : s.events.filterMap TraceEvent.alloc? = s.handledAllocs.map allocEvent
  allocLedger : Ledger s.pushedAllocs s.acceptedAllocs.length s.rings.droppedAllocs
    s.uncountedAllocs (s.events.map TraceEvent.droppedAllocs).sum s.source.prevDroppedAllocs
    s.readAllocs
  freeLedger : Ledger s.pushedFrees s.acceptedFrees.length s.rings.droppedFrees
    s.uncountedFrees (s.events.map TraceEvent.droppedFrees).sum s.source.prevDroppedFrees
    s.readFrees
  fresh : s.Fresh

theorem sound_empty (allocCapacity freeCapacity : Nat) (liveset : Option Liveset) :
    Sound (empty allocCapacity freeCapacity liveset) where
  allocs := ⟨rfl, Nat.zero_le _, fun _ => Nat.zero_le _⟩
  frees := ⟨rfl, Nat.zero_le _, fun _ => Nat.zero_le _⟩
  emitted := rfl
  allocLedger := ⟨rfl, rfl, rfl, Nat.zero_le _⟩
  freeLedger := ⟨rfl, rfl, rfl, Nat.zero_le _⟩
  fresh := trivial

namespace Sound

variable {s : Profile}

section

variable (h : Sound s)
include h

theorem pushAlloc (sample : RawAlloc) : Sound (s.pushAlloc sample) := by
  have hcounted := h.allocLedger.counted
  rw [Profile.pushAlloc, ArrayQueue.push]
  by_cases hroom : s.rings.allocQueue.items.length < s.rings.allocQueue.capacity
  · rw [if_pos hroom]
    refine { h with
      allocs := h.allocs.push sample
      allocLedger := { h.allocLedger with counted := ?_ } }
    dsimp only
    rw [List.length_append, List.length_singleton]
    omega
  · rw [if_neg hroom]
    refine { h with allocLedger := { h.allocLedger with counted := ?_ } }
    dsimp only
    omega

theorem pushFree (sample : RawFree) : Sound (s.pushFree sample) := by
  have hcounted := h.freeLedger.counted
  rw [Profile.pushFree, ArrayQueue.push]
  by_cases hroom : s.rings.freeQueue.items.length < s.rings.freeQueue.capacity
  · rw [if_pos hroom]
    refine { h with
      frees := h.frees.push sample
      freeLedger := { h.freeLedger with counted := ?_ } }
    dsimp only
    rw [List.length_append, List.length_singleton]
    omega
  · rw [if_neg hroom]
    refine { h with freeLedger := { h.freeLedger with counted := ?_ } }
    dsimp only
    omega

theorem handleAlloc {a : RawAlloc} {nextFree : Option RawFree}
    (hpoint : s.point = .merging (some a) nextFree) : Sound (s.handleAlloc a nextFree) := by
  have hallocs := h.allocs
  have hfrees := h.frees
  rw [hpoint] at hallocs hfrees
  constructor
  · dsimp only [Profile.handleAlloc, handledAllocs]
    rw [List.filterMap_append]
    exact hallocs.handle
  · dsimp only [Profile.handleAlloc, handledFrees]
    rw [Record.frees_alloc]
    exact hfrees
  · dsimp only [Profile.handleAlloc, handledAllocs]
    rw [List.filterMap_append, List.filterMap_append, List.map_append, h.emitted]
    rfl
  · simpa [Profile.handleAlloc, TraceEvent.droppedAllocs] using h.allocLedger
  · simpa [Profile.handleAlloc, TraceEvent.droppedFrees] using h.freeLedger
  · trivial

theorem handleFree {f : RawFree}
    (hpoint : s.point = .merging nextAlloc (some f)) : Sound (s.handleFree f nextAlloc) := by
  have hallocs := h.allocs
  have hfrees := h.frees
  rw [hpoint] at hallocs hfrees
  constructor
  · dsimp only [Profile.handleFree, handledAllocs]
    rw [Record.allocs_free]
    exact hallocs
  · dsimp only [Profile.handleFree, handledFrees]
    rw [List.filterMap_append]
    exact hfrees.handle
  · have hnone : ((freeEvent f s.source.liveset).2.map TraceEvent.free).toList.filterMap
        TraceEvent.alloc? = [] := by
      cases (freeEvent f s.source.liveset).2 <;> rfl
    dsimp only [Profile.handleFree, handledAllocs]
    rw [Record.allocs_free, List.filterMap_append, hnone, List.append_nil]
    exact h.emitted
  · dsimp only [Profile.handleFree]
    cases (freeEvent f s.source.liveset).2 with
    | none => simpa using h.allocLedger
    | some event => simpa [TraceEvent.droppedAllocs] using h.allocLedger
  · dsimp only [Profile.handleFree]
    cases (freeEvent f s.source.liveset).2 with
    | none => simpa using h.freeLedger
    | some event => simpa [TraceEvent.droppedFrees] using h.freeLedger
  · trivial

theorem report {allocs frees : Nat} (hpoint : s.point = .reporting allocs frees)
    (now : Nat) : Sound (s.report now allocs frees) := by
  have hallocs := h.allocs
  have hfrees := h.frees
  have hfresh := h.fresh
  have halloc := h.allocLedger
  have hfree := h.freeLedger
  rw [hpoint] at hallocs hfrees
  rw [Fresh, hpoint] at hfresh
  rcases hfresh with ⟨⟨hallocs', hdropped⟩, hfrees', hdropped'⟩
  rw [Profile.report]
  dsimp only
  split_ifs with hdelta
  · constructor
    · exact hallocs
    · exact hfrees
    · dsimp only [handledAllocs]
      rw [List.filterMap_append, h.emitted]
      simp [TraceEvent.alloc?, handledAllocs]
    · refine ⟨halloc.counted, ?_, rfl, hdropped⟩
      dsimp only
      rw [List.map_append, List.sum_append, halloc.summed]
      exact Nat.add_sub_cancel' hallocs'
    · refine ⟨hfree.counted, ?_, rfl, hdropped'⟩
      dsimp only
      rw [List.map_append, List.sum_append, hfree.summed]
      exact Nat.add_sub_cancel' hfrees'
    · trivial
  · have hsame : allocs = s.source.prevDroppedAllocs := by omega
    have hsame' : frees = s.source.prevDroppedFrees := by omega
    exact ⟨hallocs, hfrees, h.emitted, { halloc with latest := hsame },
      { hfree with latest := hsame' }, trivial⟩

theorem move {old point : Point} (hpoint : s.point = old)
    (halloc : point.heldAlloc = old.heldAlloc) (hfree : point.heldFree = old.heldFree)
    (hallocDry : old.allocDry = true) (hfreeDry : old.freeDry = true)
    (hfresh : Fresh { s with point := point }) : Sound { s with point := point } where
  allocs := by
    rw [← hpoint] at halloc hallocDry
    exact ⟨halloc ▸ h.allocs.sum, h.allocs.bound, fun _ => h.allocs.settled hallocDry⟩
  frees := by
    rw [← hpoint] at hfree hfreeDry
    exact ⟨hfree ▸ h.frees.sum, h.frees.bound, fun _ => h.frees.settled hfreeDry⟩
  emitted := h.emitted
  allocLedger := h.allocLedger
  freeLedger := h.freeLedger
  fresh := hfresh

theorem flushStep (now : Nat) : Sound (s.flushStep now) := by
  have hallocs := h.allocs
  have hfrees := h.frees
  rw [Profile.flushStep]
  cases hpoint : s.point with
  | idle =>
    rw [hpoint] at hallocs hfrees
    exact { h with
      allocs := hallocs.pop le_rfl
      frees := hfrees.wet le_rfl
      fresh := trivial }
  | started _ | refillFree _ =>
    rw [hpoint] at hallocs hfrees
    exact { h with
      allocs := hallocs
      frees := hfrees.pop hfrees.bound
      fresh := trivial }
  | merging nextAlloc nextFree =>
    cases nextAlloc with
    | none =>
      cases nextFree with
      | none => exact h.move hpoint rfl rfl rfl rfl trivial
      | some f => exact h.handleFree hpoint
    | some a =>
      cases nextFree with
      | none => exact h.handleAlloc hpoint
      | some f =>
        dsimp only
        split_ifs with hts
        · exact h.handleAlloc hpoint
        · exact h.handleFree hpoint
  | refillAlloc nextFree =>
    rw [hpoint] at hallocs hfrees
    exact { h with
      allocs := hallocs.pop hallocs.bound
      frees := hfrees
      fresh := trivial }
  | reading => exact h.move hpoint rfl rfl rfl rfl ⟨h.allocLedger.behind, le_rfl⟩
  | readingFrees current =>
    have hfresh := h.fresh
    rw [Fresh, hpoint] at hfresh
    exact h.move hpoint rfl rfl rfl rfl ⟨hfresh, h.freeLedger.behind, le_rfl⟩
  | reporting currentAllocs currentFrees => exact h.report hpoint now

theorem step {event : Event} {next : Profile} (hstep : s.step event = some next) : Sound next := by
  cases event with
  | pushAlloc sample =>
    cases hstep
    exact h.pushAlloc sample
  | countAlloc =>
    rcases Option.ite_none_right_eq_some.mp hstep with ⟨hpos, hnext⟩
    cases hnext
    have hcounted := h.allocLedger.counted
    have hbehind := h.allocLedger.behind
    have hfresh := h.fresh
    refine { h with
      allocLedger := { h.allocLedger with counted := ?_, behind := Nat.le_succ_of_le hbehind }
      fresh := ?_ }
    · dsimp only
      omega
    · rw [Fresh] at hfresh ⊢
      dsimp only
      cases hpoint : s.point with
      | readingFrees allocs =>
        rw [hpoint] at hfresh
        exact ⟨hfresh.1, Nat.le_succ_of_le hfresh.2⟩
      | reporting allocs frees =>
        rw [hpoint] at hfresh
        exact ⟨⟨hfresh.1.1, Nat.le_succ_of_le hfresh.1.2⟩, hfresh.2⟩
      | _ => trivial
  | pushFree sample =>
    cases hstep
    exact h.pushFree sample
  | countFree =>
    rcases Option.ite_none_right_eq_some.mp hstep with ⟨hpos, hnext⟩
    cases hnext
    have hcounted := h.freeLedger.counted
    have hbehind := h.freeLedger.behind
    have hfresh := h.fresh
    refine { h with
      freeLedger := { h.freeLedger with counted := ?_, behind := Nat.le_succ_of_le hbehind }
      fresh := ?_ }
    · dsimp only
      omega
    · rw [Fresh] at hfresh ⊢
      dsimp only
      cases hpoint : s.point with
      | readingFrees allocs =>
        rw [hpoint] at hfresh
        exact hfresh
      | reporting allocs frees =>
        rw [hpoint] at hfresh
        exact ⟨hfresh.1, hfresh.2.1, Nat.le_succ_of_le hfresh.2.2⟩
      | _ => trivial
  | change liveset =>
    cases hstep
    exact { h with fresh := h.fresh }
  | flush now =>
    cases hstep
    exact h.flushStep now

end

end Sound

variable {s : Profile}

theorem sound_run {allocCapacity freeCapacity : Nat} {liveset : Option Liveset}
    (h : run step (empty allocCapacity freeCapacity liveset) events = some s) : Sound s :=
  run_invariant (fun _ _ _ hs _ hstep => hs.step hstep) (sound_empty _ _ _) (along_true _ _) h

/-! ## A flush ends -/

/-- How far the flush is from its end, if nothing is pushed. -/
def distance (s : Profile) : Nat :=
  2 * (s.rings.allocQueue.items.length + s.rings.freeQueue.items.length) +
    match s.point with
    | .idle => 0
    | .started nextAlloc => 6 + 2 * nextAlloc.toList.length
    | .merging nextAlloc nextFree =>
      4 + 2 * (nextAlloc.toList.length + nextFree.toList.length)
    | .refillAlloc nextFree => 5 + 2 * nextFree.toList.length
    | .refillFree nextAlloc => 5 + 2 * nextAlloc.toList.length
    | .reading => 3
    | .readingFrees _ => 2
    | .reporting _ _ => 1

theorem length_pop (items : List α) :
    items.head?.toList.length + items.tail.length = items.length := by
  cases items with
  | nil => rfl
  | cons x rest => exact Nat.add_comm 1 rest.length

theorem distance_flushStep (now : Nat) (h : s.point ≠ .idle) :
    (s.flushStep now).point = .idle ∨ (s.flushStep now).distance < s.distance := by
  have hallocs := length_pop s.rings.allocQueue.items
  have hfrees := length_pop s.rings.freeQueue.items
  rw [flushStep]
  cases hpoint : s.point with
  | idle => exact absurd hpoint h
  | started _ | refillFree _ =>
    right
    simp only [distance, popFree, ArrayQueue.pop, hpoint]
    omega
  | merging nextAlloc nextFree =>
    right
    cases nextAlloc with
    | none =>
      cases nextFree with
      | none => simp [distance, hpoint]
      | some f => simp [distance, handleFree, hpoint]
    | some a =>
      cases nextFree with
      | none => simp [distance, handleAlloc, hpoint]
      | some f =>
        dsimp only
        split_ifs with hts
        · simp [distance, handleAlloc, hpoint]
        · simp [distance, handleFree, hpoint]
  | refillAlloc nextFree =>
    right
    simp only [distance, popAlloc, ArrayQueue.pop, hpoint]
    omega
  | reading | readingFrees _ =>
    right
    simp [distance, hpoint]
  | reporting currentAllocs currentFrees =>
    left
    dsimp only [report]
    split_ifs <;> rfl

/-- The flush pushes nothing, and remembers what it began with. -/
structure Kept (s next : Profile) : Prop where
  acceptedAllocs : next.acceptedAllocs = s.acceptedAllocs
  acceptedFrees : next.acceptedFrees = s.acceptedFrees
  begunAllocs : next.begunAllocs = s.begunAllocs
  begunFrees : next.begunFrees = s.begunFrees

theorem kept_flushStep (now : Nat) (h : s.point ≠ .idle) : Kept s (s.flushStep now) := by
  rw [flushStep]
  cases hpoint : s.point with
  | idle => exact absurd hpoint h
  | merging nextAlloc nextFree =>
    cases nextAlloc with
    | none =>
      cases nextFree with
      | none | some _ => exact ⟨rfl, rfl, rfl, rfl⟩
    | some a =>
      cases nextFree with
      | none => exact ⟨rfl, rfl, rfl, rfl⟩
      | some f =>
        dsimp only
        split_ifs
        · exact ⟨rfl, rfl, rfl, rfl⟩
        · exact ⟨rfl, rfl, rfl, rfl⟩
  | reporting currentAllocs currentFrees =>
    dsimp only [report]
    split_ifs
    · exact ⟨rfl, rfl, rfl, rfl⟩
    · exact ⟨rfl, rfl, rfl, rfl⟩
  | _ => exact ⟨rfl, rfl, rfl, rfl⟩

theorem run_flush (n : Nat) :
    run step s (List.replicate (n + 1) (.flush 0)) =
      run step (s.flushStep 0) (List.replicate n (.flush 0)) := rfl

theorem exists_idle (s : Profile) :
    ∃ n t, run step s (List.replicate n (.flush 0)) = some t ∧ t.point = .idle ∧ Kept s t := by
  induction hdistance : s.distance using Nat.strong_induction_on generalizing s with
  | _ distance ih =>
    by_cases hidle : s.point = .idle
    · exact ⟨0, s, rfl, hidle, rfl, rfl, rfl, rfl⟩
    · have hkept := kept_flushStep 0 hidle
      rcases distance_flushStep 0 hidle with hend | hless
      · exact ⟨1, _, rfl, hend, hkept⟩
      · rcases ih _ (hdistance ▸ hless) _ rfl with ⟨n, t, hrun, hend, hrest⟩
        refine ⟨n + 1, t, ?_, hend, ?_⟩
        · rw [run_flush]
          exact hrun
        · exact ⟨hrest.acceptedAllocs.trans hkept.acceptedAllocs,
            hrest.acceptedFrees.trans hkept.acceptedFrees,
            hrest.begunAllocs.trans hkept.begunAllocs, hrest.begunFrees.trans hkept.begunFrees⟩

theorem Flow.all_handled {accepted handled waiting : List α}
    (h : Flow accepted handled [] waiting true accepted.length) : handled = accepted := by
  have hsettled := h.settled rfl
  have hsum := h.sum
  rw [List.nil_append] at hsum
  rw [hsum, List.length_append] at hsettled
  rw [hsum, List.length_eq_zero_iff.mp (by omega : waiting.length = 0), List.append_nil]

theorem Sound.run {s t : Profile} (h : Sound s) (hrun : Lib.run Profile.step s events = some t) :
    Sound t :=
  run_invariant (fun _ _ _ hs _ hstep => hs.step hstep) h (along_true _ _) hrun

theorem Sound.drains (h : Sound s) (hidle : s.point = .idle) :
    ∃ n t, Lib.run Profile.step s (List.replicate n (.flush 0)) = some t ∧ t.point = .idle ∧
      t.handledAllocs = s.acceptedAllocs ∧ t.handledFrees = s.acceptedFrees := by
  have hbegun : (s.flushStep 0).begunAllocs = s.acceptedAllocs.length ∧
      (s.flushStep 0).begunFrees = s.acceptedFrees.length ∧
      (s.flushStep 0).acceptedAllocs = s.acceptedAllocs ∧
      (s.flushStep 0).acceptedFrees = s.acceptedFrees := by
    rw [Profile.flushStep, hidle]
    exact ⟨rfl, rfl, rfl, rfl⟩
  rcases exists_idle (s.flushStep 0) with ⟨n, t, hrun, hend, hkept⟩
  have hsound := (h.flushStep 0).run hrun
  have hallocs := hsound.allocs
  have hfrees := hsound.frees
  rw [hend, hkept.acceptedAllocs, hkept.begunAllocs, hbegun.1, hbegun.2.2.1] at hallocs
  rw [hend, hkept.acceptedFrees, hkept.begunFrees, hbegun.2.1, hbegun.2.2.2] at hfrees
  exact ⟨n + 1, t, hrun, hend, hallocs.all_handled, hfrees.all_handled⟩

/-- From any state, what the queues have taken is handled, once the flush goes on. -/
theorem Sound.eventually (h : Sound s) :
    ∃ n t, Lib.run Profile.step s (List.replicate n (.flush 0)) = some t ∧ t.point = .idle ∧
      t.handledAllocs = s.acceptedAllocs ∧ t.handledFrees = s.acceptedFrees := by
  rcases exists_idle s with ⟨n, t, hrun, hend, hkept⟩
  rcases (h.run hrun).drains hend with ⟨m, u, hrun', hend', hallocs, hfrees⟩
  refine ⟨n + m, u, ?_, hend', hallocs.trans hkept.acceptedAllocs, hfrees.trans hkept.acceptedFrees⟩
  rw [← List.replicate_append_replicate, run_append hrun]
  exact hrun'

/-! ## A flush during which nothing is pushed -/

/-- What the flush holds and the queues hold, from the state that the flush began in. -/
structure Merges (s t : Profile) (records : List Record) : Prop where
  handled : t.handled = s.handled ++ records
  allocs : s.rings.allocQueue.items =
    records.filterMap Record.alloc? ++ (t.point.heldAlloc ++ t.rings.allocQueue.items)
  frees : s.rings.freeQueue.items =
    records.filterMap Record.free? ++ (t.point.heldFree ++ t.rings.freeQueue.items)
  sorted : records.Pairwise Record.Before
  earlierAllocs : ∀ r ∈ records, ∀ a ∈ t.point.heldAlloc ++ t.rings.allocQueue.items,
    r.Before (.alloc a)
  earlierFrees : ∀ r ∈ records, ∀ f ∈ t.point.heldFree ++ t.rings.freeQueue.items,
    r.Before (.free f)
  noAllocs : t.point.allocDry = true → t.rings.allocQueue.items = []
  noFrees : t.point.freeDry = true → t.rings.freeQueue.items = []

theorem append_pop (items : List α) : items.head?.toList ++ items.tail = items := by
  cases items <;> rfl

theorem tail_of_isNone {items : List α} (h : items.head?.isNone = true) : items.tail = [] := by
  cases items with
  | nil => rfl
  | cons x rest => exact absurd h Bool.false_ne_true

namespace Merges

variable {s t : Profile} {records : List Record}

section

variable (h : Merges s t records)
include h

variable {old : Point}

theorem popAlloc {next : Option RawAlloc → Point}
    (hpoint : t.point = old) (hheld : old.heldAlloc = [])
    (halloc : ∀ a, (next a).heldAlloc = a.toList) (hdry : ∀ a, (next a).allocDry = a.isNone)
    (hfree : ∀ a, (next a).heldFree = old.heldFree)
    (hfreeDry : ∀ a, (next a).freeDry = true → old.freeDry = true) :
    Merges s (t.popAlloc next) records := by
  subst hpoint
  have hitems : (next t.rings.allocQueue.items.head?).heldAlloc ++ t.rings.allocQueue.items.tail =
      t.point.heldAlloc ++ t.rings.allocQueue.items := by
    rw [halloc, append_pop, hheld, List.nil_append]
  constructor
  · exact h.handled
  · exact h.allocs.trans (congrArg _ hitems.symm)
  · dsimp only [Profile.popAlloc]
    rw [hfree]
    exact h.frees
  · exact h.sorted
  · intro r hr a ha
    exact h.earlierAllocs r hr a (hitems ▸ ha)
  · dsimp only [Profile.popAlloc]
    rw [hfree]
    exact h.earlierFrees
  · intro hnone
    exact tail_of_isNone ((hdry _).symm.trans hnone)
  · intro hnone
    exact h.noFrees (hfreeDry _ hnone)

theorem popFree {next : Option RawFree → Point} (hpoint : t.point = old) (hheld : old.heldFree = [])
    (hfree : ∀ f, (next f).heldFree = f.toList) (hdry : ∀ f, (next f).freeDry = f.isNone)
    (halloc : ∀ f, (next f).heldAlloc = old.heldAlloc)
    (hallocDry : ∀ f, (next f).allocDry = true → old.allocDry = true) :
    Merges s (t.popFree next) records := by
  subst hpoint
  have hitems : (next t.rings.freeQueue.items.head?).heldFree ++ t.rings.freeQueue.items.tail =
      t.point.heldFree ++ t.rings.freeQueue.items := by
    rw [hfree, append_pop, hheld, List.nil_append]
  constructor
  · exact h.handled
  · dsimp only [Profile.popFree]
    rw [halloc]
    exact h.allocs
  · exact h.frees.trans (congrArg _ hitems.symm)
  · exact h.sorted
  · dsimp only [Profile.popFree]
    rw [halloc]
    exact h.earlierAllocs
  · intro r hr f hf
    exact h.earlierFrees r hr f (hitems ▸ hf)
  · intro hnone
    exact h.noAllocs (hallocDry _ hnone)
  · intro hnone
    exact tail_of_isNone ((hdry _).symm.trans hnone)

theorem pairwise_concat {r : Record}
    (hr : ∀ x ∈ records, x.Before r) : (records ++ [r]).Pairwise Record.Before := by
  apply List.pairwise_append.mpr
  refine ⟨h.sorted, List.pairwise_singleton _ _, fun x hx y hy => ?_⟩
  rw [List.mem_singleton.mp hy]
  exact hr x hx

theorem handleAlloc {a : RawAlloc} {nextFree : Option RawFree}
    (hpoint : t.point = .merging (some a) nextFree)
    (hsorted : s.rings.allocQueue.items.Pairwise fun a b => a.ts ≤ b.ts)
    (hle : ∀ f ∈ nextFree.toList ++ t.rings.freeQueue.items, a.ts ≤ f.ts) :
    Merges s (t.handleAlloc a nextFree) (records ++ [.alloc a]) := by
  have hallocs := h.allocs
  have hfrees := h.frees
  have hearlier := h.earlierAllocs
  have hearlier' := h.earlierFrees
  have hnone := h.noFrees
  rw [hpoint] at hallocs hfrees hearlier hearlier' hnone
  rw [hallocs] at hsorted
  have hrest := List.pairwise_cons.mp (List.pairwise_append.mp hsorted).2.1
  constructor
  · dsimp only [Profile.handleAlloc]
    rw [h.handled, List.append_assoc]
  · rw [hallocs, List.filterMap_append, List.append_assoc]
    rfl
  · rw [Record.frees_alloc]
    exact hfrees
  · exact h.pairwise_concat fun x hx => hearlier x hx a List.mem_cons_self
  · intro r hr b hb
    rcases List.mem_append.mp hr with hr | hr
    · exact hearlier r hr b (List.mem_cons_of_mem a hb)
    · rw [List.mem_singleton.mp hr]
      rcases (hrest.1 b hb).lt_or_eq with hlt | heq
      · exact .inl hlt
      · exact .inr ⟨heq, fun _ => rfl⟩
  · intro r hr f hf
    rcases List.mem_append.mp hr with hr | hr
    · exact hearlier' r hr f hf
    · rw [List.mem_singleton.mp hr]
      rcases (hle f hf).lt_or_eq with hlt | heq
      · exact .inl hlt
      · exact .inr ⟨heq, fun _ => rfl⟩
  · exact fun hdry => absurd hdry Bool.false_ne_true
  · exact hnone

theorem handleFree {f : RawFree} (hpoint : t.point = .merging nextAlloc (some f))
    (hsorted : s.rings.freeQueue.items.Pairwise fun f g => f.ts ≤ g.ts)
    (hlt : ∀ a ∈ nextAlloc.toList ++ t.rings.allocQueue.items, f.ts < a.ts) :
    Merges s (t.handleFree f nextAlloc) (records ++ [.free f]) := by
  have hallocs := h.allocs
  have hfrees := h.frees
  have hearlier := h.earlierAllocs
  have hearlier' := h.earlierFrees
  have hnone := h.noAllocs
  rw [hpoint] at hallocs hfrees hearlier hearlier' hnone
  rw [hfrees] at hsorted
  have hrest := List.pairwise_cons.mp (List.pairwise_append.mp hsorted).2.1
  constructor
  · dsimp only [Profile.handleFree]
    rw [h.handled, List.append_assoc]
  · rw [Record.allocs_free]
    exact hallocs
  · rw [hfrees, List.filterMap_append, List.append_assoc]
    rfl
  · exact h.pairwise_concat fun x hx => hearlier' x hx f List.mem_cons_self
  · intro r hr a ha
    rcases List.mem_append.mp hr with hr | hr
    · exact hearlier r hr a ha
    · rw [List.mem_singleton.mp hr]
      exact .inl (hlt a ha)
  · intro r hr g hg
    rcases List.mem_append.mp hr with hr | hr
    · exact hearlier' r hr g (List.mem_cons_of_mem f hg)
    · rw [List.mem_singleton.mp hr]
      rcases (hrest.1 g hg).lt_or_eq with hlt | heq
      · exact .inl hlt
      · exact .inr ⟨heq, fun hsome => absurd hsome Bool.false_ne_true⟩
  · exact hnone
  · exact fun hdry => absurd hdry Bool.false_ne_true

theorem move {next : Profile} (hpoint : t.point = old) (hhandled : next.handled = t.handled)
    (hqueues : next.rings.allocQueue = t.rings.allocQueue ∧
      next.rings.freeQueue = t.rings.freeQueue)
    (hheld : next.point.heldAlloc = old.heldAlloc ∧ next.point.heldFree = old.heldFree)
    (hdry : next.point.allocDry = old.allocDry ∧ next.point.freeDry = old.freeDry) :
    Merges s next records := by
  subst hpoint
  constructor
  · exact hhandled.trans h.handled
  · rw [hqueues.1, hheld.1]
    exact h.allocs
  · rw [hqueues.2, hheld.2]
    exact h.frees
  · exact h.sorted
  · rw [hqueues.1, hheld.1]
    exact h.earlierAllocs
  · rw [hqueues.2, hheld.2]
    exact h.earlierFrees
  · rw [hqueues.1, hdry.1]
    exact h.noAllocs
  · rw [hqueues.2, hdry.2]
    exact h.noFrees

section

variable (hallocs : s.rings.allocQueue.items.Pairwise fun a b => a.ts ≤ b.ts)
  (hfrees : s.rings.freeQueue.items.Pairwise fun f g => f.ts ≤ g.ts)
include hallocs hfrees

theorem flushStep (now : Nat) : ∃ records', Merges s (t.flushStep now) records' := by
  have hnoAllocs := h.noAllocs
  have hnoFrees := h.noFrees
  rw [Profile.flushStep]
  cases hpoint : t.point with
  | idle =>
    have hpop : Merges s (t.popAlloc .started) records :=
      h.popAlloc hpoint rfl (fun _ => rfl) (fun _ => rfl) (fun _ => rfl) fun _ _ => rfl
    exact ⟨records, hpop.move rfl rfl ⟨rfl, rfl⟩ ⟨rfl, rfl⟩ ⟨rfl, rfl⟩⟩
  | started _ | refillFree _ =>
    exact ⟨records, h.popFree hpoint rfl (fun _ => rfl) (fun _ => rfl) (fun _ => rfl) fun _ => id⟩
  | merging nextAlloc nextFree =>
    rw [hpoint] at hnoAllocs hnoFrees
    cases nextAlloc with
    | none =>
      cases nextFree with
      | none => exact ⟨records, h.move hpoint rfl ⟨rfl, rfl⟩ ⟨rfl, rfl⟩ ⟨rfl, rfl⟩⟩
      | some f =>
        refine ⟨_, h.handleFree hpoint hfrees fun a ha => ?_⟩
        rw [hnoAllocs rfl] at ha
        exact absurd ha List.not_mem_nil
    | some a =>
      cases nextFree with
      | none =>
        refine ⟨_, h.handleAlloc hpoint hallocs fun f hf => ?_⟩
        rw [hnoFrees rfl] at hf
        exact absurd hf List.not_mem_nil
      | some f =>
        have heq := h.allocs
        have heq' := h.frees
        rw [hpoint] at heq heq'
        dsimp only
        split_ifs with hts
        · refine ⟨_, h.handleAlloc hpoint hallocs fun g hg => ?_⟩
          rw [heq'] at hfrees
          have hrest := List.pairwise_cons.mp (List.pairwise_append.mp hfrees).2.1
          rcases List.mem_cons.mp hg with rfl | hg
          · exact hts
          · exact hts.trans (hrest.1 g hg)
        · refine ⟨_, h.handleFree hpoint hfrees fun b hb => ?_⟩
          rw [heq] at hallocs
          have hrest := List.pairwise_cons.mp (List.pairwise_append.mp hallocs).2.1
          rcases List.mem_cons.mp hb with rfl | hb
          · exact Nat.lt_of_not_le hts
          · exact (Nat.lt_of_not_le hts).trans_le (hrest.1 b hb)
  | refillAlloc nextFree =>
    exact ⟨records, h.popAlloc hpoint rfl (fun _ => rfl) (fun _ => rfl) (fun _ => rfl) fun _ => id⟩
  | reading | readingFrees _ =>
    exact ⟨records, h.move hpoint rfl ⟨rfl, rfl⟩ ⟨rfl, rfl⟩ ⟨rfl, rfl⟩⟩
  | reporting currentAllocs currentFrees =>
    dsimp only [Profile.report]
    split_ifs
    · exact ⟨records, h.move hpoint rfl ⟨rfl, rfl⟩ ⟨rfl, rfl⟩ ⟨rfl, rfl⟩⟩
    · exact ⟨records, h.move hpoint rfl ⟨rfl, rfl⟩ ⟨rfl, rfl⟩ ⟨rfl, rfl⟩⟩

theorem step {event : Event}
    (hpush : event.isPush = false) {next : Profile} (hstep : t.step event = some next) :
    ∃ records', Merges s next records' := by
  cases event with
  | pushAlloc _ | pushFree _ => exact absurd hpush.symm Bool.false_ne_true
  | countAlloc | countFree =>
    cases (Option.ite_none_right_eq_some.mp hstep).2
    exact ⟨records, h.move rfl rfl ⟨rfl, rfl⟩ ⟨rfl, rfl⟩ ⟨rfl, rfl⟩⟩
  | change liveset =>
    cases hstep
    exact ⟨records, h.move rfl rfl ⟨rfl, rfl⟩ ⟨rfl, rfl⟩ ⟨rfl, rfl⟩⟩
  | flush now =>
    cases hstep
    exact h.flushStep hallocs hfrees now

end

end

theorem begins (hidle : s.point = .idle) (now : Nat) : Merges s (s.flushStep now) [] := by
  rw [Profile.flushStep, hidle]
  constructor
  · exact (List.append_nil _).symm
  · exact (append_pop _).symm
  · rfl
  · exact .nil
  · exact fun _ hr => absurd hr List.not_mem_nil
  · exact fun _ hr => absurd hr List.not_mem_nil
  · exact tail_of_isNone
  · exact fun hdry => absurd hdry Bool.false_ne_true

end Merges

/-- While nothing is pushed, a flush handles what was waiting in order of time. -/
theorem quiet_run {s t : Profile} (hidle : s.point = .idle)
    (hallocs : s.rings.allocQueue.items.Pairwise fun a b => a.ts ≤ b.ts)
    (hfrees : s.rings.freeQueue.items.Pairwise fun f g => f.ts ≤ g.ts) {now : Nat}
    (hquiet : ∀ event ∈ events, event.isPush = false)
    (hrun : run step s (.flush now :: events) = some t) : ∃ records, Merges s t records := by
  rcases run_cons hrun with ⟨next, hnext, hrest⟩
  cases hnext
  have halong : Along step (fun _ event => event.isPush = false) (s.flushStep now) events :=
    along_of_forall (fun event hevent _ => hquiet event hevent) _
  have hkeeps : ∀ t event next, (∃ records, Merges s t records) → event.isPush = false →
      step t event = some next → ∃ records, Merges s next records := by
    rintro t event next ⟨records, h⟩ hpush hstep
    exact h.step hallocs hfrees hpush hstep
  exact run_invariant hkeeps ⟨[], Merges.begins hidle now⟩ halong hrest

/-- What a queue took is handled once, or will be, and what was dropped is reported. -/
structure Conserves (s : Profile) : Prop where
  allocs : s.acceptedAllocs =
    s.handledAllocs ++ (s.point.heldAlloc ++ s.rings.allocQueue.items)
  frees : s.acceptedFrees = s.handledFrees ++ (s.point.heldFree ++ s.rings.freeQueue.items)
  emitted : s.events.filterMap TraceEvent.alloc? = s.handledAllocs.map allocEvent
  pushedAllocs : s.pushedAllocs =
    s.acceptedAllocs.length + s.rings.droppedAllocs + s.uncountedAllocs
  pushedFrees : s.pushedFrees =
    s.acceptedFrees.length + s.rings.droppedFrees + s.uncountedFrees
  /-- Where the flush is idle, all that the queues had taken when it began is handled. -/
  ended : s.point = .idle →
    s.begunAllocs ≤ s.handledAllocs.length ∧ s.begunFrees ≤ s.handledFrees.length
  reportedAllocs : (s.events.map TraceEvent.droppedAllocs).sum = s.readAllocs
  reportedFrees : (s.events.map TraceEvent.droppedFrees).sum = s.readFrees
  /-- The flush, once it goes on, handles all of it. -/
  eventually : ∃ n t, run step s (List.replicate n (.flush 0)) = some t ∧ t.point = .idle ∧
    t.handledAllocs = s.acceptedAllocs ∧ t.handledFrees = s.acceptedFrees
  /-- A flush during which nothing is pushed handles what waits in order of time. -/
  quiet : s.point = .idle →
    (s.rings.allocQueue.items.Pairwise fun a b => a.ts ≤ b.ts) →
    (s.rings.freeQueue.items.Pairwise fun f g => f.ts ≤ g.ts) →
    ∀ now events t, (∀ event ∈ events, event.isPush = false) →
      run step s (.flush now :: events) = some t →
        ∃ records, t.handled = s.handled ++ records ∧ records.Pairwise Record.Before ∧
          (t.point = .idle → records.filterMap Record.alloc? = s.rings.allocQueue.items ∧
            records.filterMap Record.free? = s.rings.freeQueue.items)

theorem Sound.conserves (h : Sound s) : Conserves s where
  allocs := h.allocs.sum
  frees := h.frees.sum
  emitted := h.emitted
  pushedAllocs := h.allocLedger.counted
  pushedFrees := h.freeLedger.counted
  ended hidle := ⟨h.allocs.settled (hidle ▸ rfl), h.frees.settled (hidle ▸ rfl)⟩
  reportedAllocs := h.allocLedger.summed.trans h.allocLedger.latest.symm
  reportedFrees := h.freeLedger.summed.trans h.freeLedger.latest.symm
  eventually := h.eventually
  quiet hidle hallocs hfrees now events t hquiet hrun := by
    rcases quiet_run hidle hallocs hfrees hquiet hrun with ⟨records, hmerges⟩
    refine ⟨records, hmerges.handled, hmerges.sorted, fun hend => ?_⟩
    have hallocs' := hmerges.allocs
    have hfrees' := hmerges.frees
    have hnone := hmerges.noAllocs
    have hnone' := hmerges.noFrees
    rw [hend] at hallocs' hfrees' hnone hnone'
    rw [hnone rfl] at hallocs'
    rw [hnone' rfl] at hfrees'
    exact ⟨(hallocs'.trans (List.append_nil _)).symm, (hfrees'.trans (List.append_nil _)).symm⟩

/-- Over any interleaving of pushes and flushes. -/
theorem drain_conserves (allocCapacity freeCapacity : Nat) (liveset : Option Liveset)
    (events : List Event) (s : Profile)
    (hrun : run step (empty allocCapacity freeCapacity liveset) events = some s) : Conserves s :=
  (sound_run hrun).conserves

/-- The second allocation does not fit; the third does, once the flush holds the first. -/
def overflowing : List Event :=
  [.pushAlloc ⟨1, 8, 64, 5, [], 0⟩, .pushAlloc ⟨2, 8, 72, 6, [], 0⟩, .flush 9,
    .pushAlloc ⟨2, 8, 80, 7, [], 0⟩, .countAlloc, .pushFree ⟨1, 64, 8, 8, 5, false⟩, .flush 9,
      .flush 9]

theorem drain_conserves_overflowing :
    ∃ s, run step (empty 1 1 none) overflowing = some s ∧ Conserves s :=
  ⟨_, rfl, drain_conserves 1 1 none overflowing _ rfl⟩

end Profile

end Dial9.SelfProfile.QueueDrain
