/-
# The in-memory segment channel

`MemFs` keeps sealed segments in a byte-bounded ring. The writer seals at the
back and drops the oldest segments to make room, the worker takes one segment
at a time from the front, or the first that overlaps a dump window, and puts a
segment back at the front when it is to be tried again. What is out with the
worker is counted by two gauges and their peak.
-/

import Dial9.Lib.Reader
import Mathlib.Tactic.Ring
import Mathlib.Algebra.Order.BigOperators.Group.List

namespace Dial9.Core

open Dial9.Lib

/-- `EpochWindow`: a closed window in epoch seconds; no start is unbounded look-back. -/
structure EpochWindow where
  startSecs : Option Nat
  endSecs : Nat
  deriving DecidableEq

/-- The span from creation to seal meets the window. -/
def EpochWindow.overlaps (window : EpochWindow) (startSecs sealSecs : Nat) : Bool :=
  startSecs ≤ window.endSecs && window.startSecs.all fun s => s ≤ sealSecs

/-- `MemSealedSegment`. -/
structure MemSegment where
  index : Nat
  bytes : Bytes
  retryCount : Nat
  epochSecs : Nat
  sealSecs : Nat
  deriving DecidableEq

/-- The length the byte counters see. -/
def MemSegment.size (segment : MemSegment) : Nat := segment.bytes.length

/-- `MEMORY_RETRY_BUDGET`. -/
def memoryRetryBudget : Nat := 3

/-- `Queue`: the ring, oldest first, its byte counter, and the evictions since
the last take. -/
structure Queue where
  segments : List MemSegment
  bytes : Nat
  dropped : Nat
  deriving DecidableEq

namespace Queue

def new : Queue := ⟨[], 0, 0⟩

/-- The sum the byte counter is meant to be. -/
def total (segments : List MemSegment) : Nat := (segments.map MemSegment.size).sum

/-- The eviction loop of `seal`: segments leave from the front until the new
one fits. Returns what left, the byte counter and what stays. -/
def evict (maxTotalSize size : Nat) :
    List MemSegment → Nat → List MemSegment × Nat × List MemSegment
  | [], bytes => ([], bytes, [])
  | old :: rest, bytes =>
    if bytes + size > maxTotalSize then
      let result := evict maxTotalSize size rest (bytes - old.size)
      (old :: result.1, result.2)
    else ([], bytes, old :: rest)

/-- What a seal of this size evicts. -/
def evicted (queue : Queue) (maxTotalSize size : Nat) : List MemSegment :=
  (evict maxTotalSize size queue.segments queue.bytes).1

/-- What a seal of this size leaves of the ring. -/
def survivors (queue : Queue) (maxTotalSize size : Nat) : List MemSegment :=
  (evict maxTotalSize size queue.segments queue.bytes).2.2

/-- The locked region of `seal`. -/
def push (queue : Queue) (maxTotalSize : Nat) (segment : MemSegment) : Queue :=
  let result := evict maxTotalSize segment.size queue.segments queue.bytes
  { segments := result.2.2 ++ [segment]
    bytes := result.2.1 + segment.size
    dropped := queue.dropped + result.1.length }

/-- The locked region of `release_for_retry`. -/
def putBack (queue : Queue) (segment : MemSegment) : Queue :=
  { queue with
    segments := segment :: queue.segments
    bytes := queue.bytes + segment.size }

/-- Whether a take with these windows may dispense the segment. -/
def wanted (windows : Option (List EpochWindow)) (segment : MemSegment) : Bool :=
  windows.all fun ws => ws.any fun w => w.overlaps segment.epochSecs segment.sealSecs

/-- The segment a take dispenses: the front, or the first that overlaps. -/
def next (queue : Queue) (windows : Option (List EpochWindow)) : Option MemSegment :=
  queue.segments.find? (wanted windows)

/-- The locked region of `take_files_inner`: the eviction count is handed over. -/
def pop (queue : Queue) (windows : Option (List EpochWindow)) : Queue :=
  match queue.next windows with
  | some segment =>
    { segments := queue.segments.eraseP (wanted windows)
      bytes := queue.bytes - segment.size
      dropped := 0 }
  | none => { queue with dropped := 0 }

end Queue

/-- `AtomicU64::fetch_sub`: wraps below zero. -/
def fetchSub (gauge delta : Nat) : Nat :=
  if delta ≤ gauge then gauge - delta else gauge + 2 ^ 64 - delta

theorem fetchSub_of_le {gauge delta : Nat} (h : delta ≤ gauge) :
    fetchSub gauge delta = gauge - delta := if_pos h

/-- `MemChannel`. -/
structure MemFs where
  maxTotalSize : Nat
  queue : Queue
  inFlightBytes : Nat
  inFlightSegments : Nat
  inFlightBytesPeak : Nat
  deriving DecidableEq

/-- `TakenSegment` in memory mode: the ring slot as it was, and the size its
accounting last reported. -/
structure TakenSegment where
  slot : MemSegment
  accounting : Nat
  deriving DecidableEq

/-- `TakenFiles` in memory mode. -/
structure TakenFiles where
  segment : Option TakenSegment
  queuedSegments : Nat
  queuedBytes : Nat
  inFlightSegments : Nat
  inFlightBytes : Nat
  inFlightBytesPeak : Nat
  segmentsDropped : Nat
  deriving DecidableEq

namespace MemFs

/-- `with_capacity`. -/
def withCapacity (maxTotalSize : Nat) : Except String MemFs :=
  if maxTotalSize = 0 then .error "max_total_size must be > 0"
  else .ok ⟨maxTotalSize, .new, 0, 0, 0⟩

/-- `seal`. -/
def sealSegment (fs : MemFs) (segment : MemSegment) : MemFs :=
  { fs with queue := fs.queue.push fs.maxTotalSize segment }

/-- `release_for_retry`. -/
def releaseForRetry (fs : MemFs) (segment : MemSegment) : MemFs :=
  { fs with queue := fs.queue.putBack segment }

/-- The channel after `take_files` or `take_files_matching`: the peak restarts
at what is in flight, and a taken segment is counted. -/
def take (fs : MemFs) (windows : Option (List EpochWindow)) : MemFs :=
  match fs.queue.next windows with
  | none =>
    { fs with queue := fs.queue.pop windows, inFlightBytesPeak := fs.inFlightBytes }
  | some slot =>
    { fs with
      queue := fs.queue.pop windows
      inFlightBytes := fs.inFlightBytes + slot.size
      inFlightSegments := fs.inFlightSegments + 1
      inFlightBytesPeak := max fs.inFlightBytes (fs.inFlightBytes + slot.size) }

/-- What `take_files` and `take_files_matching` return. -/
def taken (fs : MemFs) (windows : Option (List EpochWindow)) : TakenFiles where
  segment := (fs.queue.next windows).map fun slot => ⟨slot, slot.size⟩
  queuedSegments := (fs.queue.pop windows).segments.length
  queuedBytes := (fs.queue.pop windows).bytes
  inFlightSegments := (fs.take windows).inFlightSegments
  inFlightBytes := (fs.take windows).inFlightBytes
  inFlightBytesPeak := fs.inFlightBytesPeak
  segmentsDropped := fs.queue.dropped

/-- `SegmentAccounting::adjust`, from the size last reported to the new one. -/
def adjust (fs : MemFs) (size newSize : Nat) : MemFs :=
  if newSize = size then fs
  else
    let total :=
      if size < newSize then fs.inFlightBytes + (newSize - size)
      else fetchSub fs.inFlightBytes (size - newSize)
    { fs with inFlightBytes := total, inFlightBytesPeak := max fs.inFlightBytesPeak total }

/-- Dropping a `SegmentAccounting`. -/
def dropAccounting (fs : MemFs) (size : Nat) : MemFs :=
  { fs with
    inFlightBytes := fetchSub fs.inFlightBytes size
    inFlightSegments := fetchSub fs.inFlightSegments 1 }

end MemFs

/-! ## The ring -/

namespace Queue

/-- The byte counter is the sum of the queued lengths. -/
def Counted (queue : Queue) : Prop := queue.bytes = total queue.segments

@[simp]
theorem total_nil : total [] = 0 := rfl

@[simp]
theorem total_cons (segment : MemSegment) (segments : List MemSegment) :
    total (segment :: segments) = segment.size + total segments := rfl

@[simp]
theorem total_append (first second : List MemSegment) :
    total (first ++ second) = total first + total second := by
  simp [total]

/-- What eviction does: a front part leaves, the counter follows, and it stops
as soon as there is room. -/
theorem evict_spec (maxTotalSize size : Nat) (segments : List MemSegment) (bytes : Nat)
    (h : bytes = total segments) :
    (evict maxTotalSize size segments bytes).1 ++ (evict maxTotalSize size segments bytes).2.2 =
        segments ∧
      (evict maxTotalSize size segments bytes).2.1 =
        total (evict maxTotalSize size segments bytes).2.2 ∧
      ((evict maxTotalSize size segments bytes).2.2 = [] ∨
        (evict maxTotalSize size segments bytes).2.1 + size ≤ maxTotalSize) := by
  induction segments generalizing bytes with
  | nil => exact ⟨rfl, h, .inl rfl⟩
  | cons old rest ih =>
    unfold evict
    by_cases hfull : bytes + size > maxTotalSize
    · rw [if_pos hfull]
      rw [total_cons] at h
      have hrest := ih (bytes - old.size) (by omega)
      exact ⟨congrArg (old :: ·) hrest.1, hrest.2⟩
    · rw [if_neg hfull]
      exact ⟨rfl, h, .inr (Nat.le_of_not_gt hfull)⟩

variable {queue : Queue}

theorem evicted_append (h : queue.Counted) (maxTotalSize : Nat) (segment : MemSegment) :
    queue.evicted maxTotalSize segment.size ++ (queue.push maxTotalSize segment).segments =
      queue.segments ++ [segment] := by
  have hspec := (evict_spec maxTotalSize segment.size queue.segments queue.bytes h).1
  simp only [evicted, push]
  rw [← List.append_assoc, hspec]

theorem counted_push (h : queue.Counted) (maxTotalSize : Nat) (segment : MemSegment) :
    (queue.push maxTotalSize segment).Counted := by
  have hspec := (evict_spec maxTotalSize segment.size queue.segments queue.bytes h).2.1
  simp only [Counted, push, total_append, total_cons, total_nil, hspec]
  omega

theorem counted_putBack (h : queue.Counted) (segment : MemSegment) :
    (queue.putBack segment).Counted := by
  have h : queue.bytes = total queue.segments := h
  simp only [Counted, putBack, total_cons]
  omega

/-- Taking splits the ring at the segment taken. -/
theorem next_eq_some {windows : Option (List EpochWindow)} {segment : MemSegment}
    (h : queue.next windows = some segment) :
    ∃ before after, queue.segments = before ++ segment :: after ∧
      (queue.pop windows).segments = before ++ after ∧ wanted windows segment = true ∧
      ∀ other ∈ before, wanted windows other = false := by
  rcases List.find?_eq_some_iff_append.mp h with ⟨hwanted, before, after, hsplit, hbefore⟩
  have hnone : ∀ other ∈ before, wanted windows other = false := by
    intro other hother
    simpa using hbefore other hother
  refine ⟨before, after, hsplit, ?_, hwanted, hnone⟩
  simp only [pop, h]
  rw [hsplit, List.eraseP_append_right]
  · rw [List.eraseP_cons_of_pos hwanted]
  · intro other hother
    simp [hnone other hother]

theorem counted_pop (h : queue.Counted) (windows : Option (List EpochWindow)) :
    (queue.pop windows).Counted := by
  cases hnext : queue.next windows with
  | none =>
    simp only [pop, hnext]
    exact h
  | some segment =>
    rcases next_eq_some hnext with ⟨before, after, hsplit, hpop, -, -⟩
    have h : queue.bytes = total queue.segments := h
    have hbytes : (queue.pop windows).bytes = queue.bytes - segment.size := by
      simp only [pop, hnext]
    rw [Counted, hpop, hbytes, h, hsplit]
    simp only [total_append, total_cons]
    omega

end Queue

end Dial9.Core
