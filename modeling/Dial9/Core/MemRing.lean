/-
# The writer and the worker over one memory channel

Every interleaving of seals, takes, stage outcomes and put-backs is a run of
the system below. Beside the channel it keeps where each sealed segment went.
A segment that leaves the worker hands its accounting over to be dropped, which
is a step of its own: the put-back happens first.
-/

import Dial9.Core.MemFs
import Dial9.Lib.Run
import Mathlib.Algebra.Order.Group.Nat
import Mathlib.Data.List.Nodup

namespace Dial9.Core

open Dial9.Lib

structure RingSystem where
  fs : MemFs
  /-- Indices sealed so far. -/
  sealed : List Nat
  /-- Segments out with the worker. -/
  held : List TakenSegment
  /-- Accountings about to be dropped. -/
  dropping : List Nat
  /-- Segments that completed or failed for good. -/
  finished : List Nat
  evicted : List Nat
  /-- Evictions that takes have reported. -/
  reported : Nat
  /-- Retryable failures of each segment in the pipeline. -/
  failures : Nat → Nat

/-- One step of the writer or the worker. The creation epoch of a put-back is
the one the worker has at hand, parsed again from the bytes. -/
inductive RingEvent
  | sealSegment (index : Nat) (bytes : Bytes) (epochSecs sealSecs : Nat)
  | take (windows : Option (List EpochWindow))
  | adjust (index newSize : Nat)
  | complete (index : Nat)
  | fail (index : Nat)
  | retry (index epochSecs : Nat)
  | release (index epochSecs : Nat)
  | dropAccounting (size : Nat)

/-- The segment an event brings into the ring for the first time. -/
def RingEvent.fresh : RingEvent → Option MemSegment
  | .sealSegment index bytes epochSecs sealSecs => some ⟨index, bytes, 0, epochSecs, sealSecs⟩
  | _ => none

variable {next : RingSystem} {event : RingEvent}

variable {slot : MemSegment}

namespace RingSystem

def new (fs : MemFs) : RingSystem := ⟨fs, [], [], [], [], [], 0, fun _ => 0⟩

def queued (s : RingSystem) : List Nat := s.fs.queue.segments.map MemSegment.index

def inFlight (s : RingSystem) : List Nat := s.held.map fun taken => taken.slot.index

def find (s : RingSystem) (index : Nat) : Option TakenSegment :=
  s.held.find? fun taken => taken.slot.index == index

def without (s : RingSystem) (index : Nat) : List TakenSegment :=
  s.held.eraseP fun taken => taken.slot.index == index

/-- The worker lets go of a segment; its accounting is still to be dropped. -/
def letGo (s : RingSystem) (taken : TakenSegment) : RingSystem :=
  { s with held := s.without taken.slot.index, dropping := taken.accounting :: s.dropping }

def finish (s : RingSystem) (taken : TakenSegment) : RingSystem :=
  { s.letGo taken with finished := taken.slot.index :: s.finished }

def putBack (s : RingSystem) (taken : TakenSegment) (segment : MemSegment) : RingSystem :=
  { s.letGo taken with fs := s.fs.releaseForRetry segment }

/-- The slot a retryable failure puts back, unless the budget is spent. -/
def retried (slot : MemSegment) (epochSecs : Nat) : Option MemSegment :=
  if slot.retryCount + 1 > memoryRetryBudget then none
  else some { slot with retryCount := slot.retryCount + 1, epochSecs := epochSecs }

def recordFailure (s : RingSystem) (index : Nat) : RingSystem :=
  { s with failures := Function.update s.failures index (s.failures index + 1) }

def step (s : RingSystem) : RingEvent → Option RingSystem
  | .sealSegment index bytes epochSecs sealSecs =>
    if s.sealed.all fun i => i < index then
      let segment : MemSegment := ⟨index, bytes, 0, epochSecs, sealSecs⟩
      some { s with
        fs := s.fs.sealSegment segment
        sealed := index :: s.sealed
        evicted :=
          (s.fs.queue.evicted s.fs.maxTotalSize segment.size).map MemSegment.index ++ s.evicted }
    else none
  | .take windows =>
    some { s with
      fs := s.fs.take windows
      held := (s.fs.taken windows).segment.toList ++ s.held
      reported := s.reported + (s.fs.taken windows).segmentsDropped }
  | .adjust index newSize =>
    (s.find index).map fun taken =>
      { s with
        fs := s.fs.adjust taken.accounting newSize
        held := ⟨taken.slot, newSize⟩ :: s.without index }
  | .complete index => (s.find index).map s.finish
  | .fail index => (s.find index).map s.finish
  | .retry index epochSecs =>
    (s.find index).map fun taken =>
      match retried taken.slot epochSecs with
      | some segment => (s.putBack taken segment).recordFailure index
      | none => (s.finish taken).recordFailure index
  | .release index epochSecs =>
    (s.find index).map fun taken =>
      s.putBack taken { taken.slot with epochSecs := epochSecs }
  | .dropAccounting size =>
    if size ∈ s.dropping then
      some { s with
        fs := s.fs.dropAccounting size
        dropping := s.dropping.erase size }
    else none

/-- The segment an event puts back into the ring. -/
def returned (s : RingSystem) : RingEvent → Option MemSegment
  | .retry index epochSecs => (s.find index).bind fun taken => retried taken.slot epochSecs
  | .release index epochSecs =>
    (s.find index).map fun taken => { taken.slot with epochSecs := epochSecs }
  | _ => none

/-! ## What a step does to the ring -/

theorem find_eq_some {s : RingSystem} {index : Nat} {taken : TakenSegment}
    (h : s.find index = some taken) :
    taken.slot.index = index ∧ ∃ before after,
      s.held = before ++ taken :: after ∧ s.without index = before ++ after := by
  rcases List.find?_eq_some_iff_append.mp h with ⟨hindex, before, after, hsplit, hbefore⟩
  refine ⟨eq_of_beq hindex, before, after, hsplit, ?_⟩
  rw [without, hsplit, List.eraseP_append_right]
  · simp [eq_of_beq hindex]
  · intro other hother
    simpa using hbefore other hother

variable {s next : RingSystem}

theorem step_queue (h : s.step event = some next) :
    next.fs.maxTotalSize = s.fs.maxTotalSize ∧
    ((∃ segment, event.fresh = some segment ∧ s.returned event = none ∧
        (∀ i ∈ s.sealed, i < segment.index) ∧
        next.fs.queue = s.fs.queue.push s.fs.maxTotalSize segment) ∨
      (∃ windows, event.fresh = none ∧ s.returned event = none ∧
        next.fs.queue = s.fs.queue.pop windows) ∨
      (∃ segment, event.fresh = none ∧ s.returned event = some segment ∧
        (∃ taken ∈ s.held, segment.index = taken.slot.index) ∧
        next.fs.queue = s.fs.queue.putBack segment) ∨
      (event.fresh = none ∧ s.returned event = none ∧ next.fs.queue = s.fs.queue)) := by
  cases event with
  | sealSegment index bytes epochSecs sealSecs =>
    simp only [step] at h
    split at h
    · next hall =>
        cases h
        exact ⟨rfl, .inl ⟨_, rfl, rfl, by simpa using hall, rfl⟩⟩
    · cases h
  | take windows =>
    cases h
    simp only [MemFs.take]
    cases s.fs.queue.next windows with
    | none | some _ => exact ⟨rfl, .inr (.inl ⟨windows, rfl, rfl, rfl⟩)⟩
  | adjust index newSize =>
    rcases Option.map_eq_some_iff.mp h with ⟨taken, -, rfl⟩
    refine ⟨?_, .inr (.inr (.inr ⟨rfl, rfl, ?_⟩))⟩ <;>
      · simp only [MemFs.adjust]
        split <;> rfl
  | complete _ | fail _ =>
    rcases Option.map_eq_some_iff.mp h with ⟨taken, -, rfl⟩
    exact ⟨rfl, .inr (.inr (.inr ⟨rfl, rfl, rfl⟩))⟩
  | retry index epochSecs =>
    rcases Option.map_eq_some_iff.mp h with ⟨taken, hfind, rfl⟩
    have hmem : taken ∈ s.held := List.mem_of_find?_eq_some hfind
    have hreturned : s.returned (.retry index epochSecs) = retried taken.slot epochSecs := by
      rw [returned, hfind, Option.bind_some]
    rw [hreturned]
    cases hretried : retried taken.slot epochSecs with
    | none => exact ⟨rfl, .inr (.inr (.inr ⟨rfl, rfl, rfl⟩))⟩
    | some segment =>
      refine ⟨rfl, .inr (.inr (.inl ⟨segment, rfl, rfl, ⟨taken, hmem, ?_⟩, rfl⟩))⟩
      simp only [retried] at hretried
      split at hretried
      · cases hretried
      · cases hretried
        rfl
  | release index epochSecs =>
    rcases Option.map_eq_some_iff.mp h with ⟨taken, hfind, rfl⟩
    have hmem : taken ∈ s.held := List.mem_of_find?_eq_some hfind
    rw [returned, hfind, Option.map_some]
    exact ⟨rfl, .inr (.inr (.inl ⟨_, rfl, rfl, ⟨taken, hmem, rfl⟩, rfl⟩))⟩
  | dropAccounting size =>
    simp only [step] at h
    split at h
    · cases h
      exact ⟨rfl, .inr (.inr (.inr ⟨rfl, rfl, rfl⟩))⟩
    · cases h

theorem step_counted (hs : s.fs.queue.Counted)
    (h : s.step event = some next) : next.fs.queue.Counted := by
  rcases step_queue h with ⟨-, ⟨segment, -, -, -, hqueue⟩ | ⟨windows, -, -, hqueue⟩ |
      ⟨segment, -, -, -, hqueue⟩ | ⟨-, -, hqueue⟩⟩ <;> rw [hqueue]
  · exact Queue.counted_push hs _ _
  · exact Queue.counted_pop hs _
  · exact Queue.counted_putBack hs _
  · exact hs

/-! ## The byte bound -/

/-- The ring is within its budget. -/
def Bounded (s : RingSystem) : Prop := s.fs.queue.bytes ≤ s.fs.maxTotalSize

/-- A sealed segment fits the whole budget, and a segment put back fits beside
what is in the ring. -/
def Fits (s : RingSystem) (event : RingEvent) : Prop :=
  (∀ segment, event.fresh = some segment → segment.size ≤ s.fs.maxTotalSize) ∧
    ∀ segment, s.returned event = some segment →
      s.fs.queue.bytes + segment.size ≤ s.fs.maxTotalSize

theorem push_bounded_iff {queue : Queue} (h : queue.Counted) (maxTotalSize : Nat)
    (segment : MemSegment) :
    (queue.push maxTotalSize segment).bytes ≤ maxTotalSize ↔ segment.size ≤ maxTotalSize := by
  have hspec := Queue.evict_spec maxTotalSize segment.size queue.segments queue.bytes h
  simp only [Queue.push]
  rcases hspec with ⟨-, hbytes, hempty | hroom⟩
  · rw [hbytes, hempty, Queue.total_nil, Nat.zero_add]
  · constructor
    · intro hle
      omega
    · intro _
      exact hroom

theorem step_bounded_iff (hcounted : s.fs.queue.Counted) (hs : s.Bounded)
    (h : s.step event = some next) : next.Bounded ↔ s.Fits event := by
  have hs : s.fs.queue.bytes ≤ s.fs.maxTotalSize := hs
  rcases step_queue h with ⟨hmax, ⟨segment, hfresh, hreturned, -, hqueue⟩ |
      ⟨windows, hfresh, hreturned, hqueue⟩ | ⟨segment, hfresh, hreturned, -, hqueue⟩ |
      ⟨hfresh, hreturned, hqueue⟩⟩ <;>
    rw [Bounded, hmax, hqueue]
  · rw [push_bounded_iff hcounted]
    simp [Fits, hfresh, hreturned]
  · apply iff_of_true
    · simp only [Queue.pop]
      split
      · exact Nat.le_trans (Nat.sub_le _ _) hs
      · exact hs
    · simp [Fits, hfresh, hreturned]
  · simp [Fits, hfresh, hreturned, Queue.putBack]
  · apply iff_of_true hs
    simp [Fits, hfresh, hreturned]

theorem withCapacity_eq_ok {fs : MemFs} {maxTotalSize : Nat}
    (h : MemFs.withCapacity maxTotalSize = .ok fs) : fs = ⟨maxTotalSize, .new, 0, 0, 0⟩ := by
  simp only [MemFs.withCapacity] at h
  split at h
  · cases h
  · exact (Except.ok.inj h).symm

/-- The ring stays within its budget throughout a run exactly when every sealed
segment fits the budget and every put-back finds room for its bytes. -/
theorem bounded_throughout_iff {fs : MemFs} {maxTotalSize : Nat}
    (hnew : MemFs.withCapacity maxTotalSize = .ok fs) {events : List RingEvent} {last : RingSystem}
    (h : run step (new fs) events = some last) :
    Throughout step Bounded (new fs) events ↔ Along step Fits (new fs) events := by
  have hfs := withCapacity_eq_ok hnew
  have hgood : (new fs).fs.queue.Counted := by
    rw [hfs]
    rfl
  have hbounded : (new fs).Bounded := by
    rw [hfs]
    exact Nat.zero_le _
  exact throughout_iff_along (fun s => s.fs.queue.Counted)
    (fun _ _ _ hs hstep => step_counted hs hstep)
    (fun _ _ _ hcounted hs hstep => step_bounded_iff hcounted hs hstep) hgood hbounded h

/-! ## Conservation -/

/-- Where every sealed segment is, and what the counters say about it. -/
structure Conserved (s : RingSystem) : Prop where
  /-- Each sealed segment is in exactly one place. -/
  partition : s.sealed.Perm (s.queued ++ s.inFlight ++ s.finished ++ s.evicted)
  distinct : s.sealed.Nodup
  /-- Every eviction has been reported or is about to be. -/
  counted : s.evicted.length = s.reported + s.fs.queue.dropped
  bytes : s.fs.queue.bytes = Queue.total s.fs.queue.segments
  gaugeBytes : s.fs.inFlightBytes = (s.held.map TakenSegment.accounting).sum + s.dropping.sum
  gaugeSegments : s.fs.inFlightSegments = s.held.length + s.dropping.length
  /-- A slot's retry count is the number of its retryable failures, and only that. -/
  attempts : ∀ slot, (slot ∈ s.fs.queue.segments ∨ ∃ taken ∈ s.held, taken.slot = slot) →
    slot.retryCount = s.failures slot.index ∧ slot.retryCount ≤ memoryRetryBudget
  budget : ∀ index, s.failures index ≤ memoryRetryBudget + 1
  unsealed : ∀ index, index ∉ s.sealed → s.failures index = 0

namespace Conserved

variable {s : RingSystem}

section

variable (h : s.Conserved)
include h

theorem places_nodup : (s.queued ++ s.inFlight ++ s.finished ++ s.evicted).Nodup :=
  h.partition.nodup_iff.mp h.distinct

theorem mem_sealed_of_queued (hslot : slot ∈ s.fs.queue.segments) : slot.index ∈ s.sealed := by
  rw [h.partition.mem_iff]
  simp only [List.mem_append]
  exact .inl (.inl (.inl (List.mem_map_of_mem hslot)))

theorem mem_sealed_of_held {taken : TakenSegment} (htaken : taken ∈ s.held) :
    taken.slot.index ∈ s.sealed := by
  rw [h.partition.mem_iff]
  simp only [List.mem_append]
  exact .inl (.inl (.inr (List.mem_map_of_mem htaken)))

theorem no_underflow :
    (∀ taken ∈ s.held, taken.accounting ≤ s.fs.inFlightBytes) ∧
      ∀ size ∈ s.dropping, size ≤ s.fs.inFlightBytes ∧ 1 ≤ s.fs.inFlightSegments := by
  constructor
  · intro taken htaken
    rw [h.gaugeBytes]
    exact Nat.le_add_right_of_le (List.le_sum_of_mem (List.mem_map_of_mem htaken))
  · intro size hsize
    rw [h.gaugeBytes, h.gaugeSegments]
    refine ⟨Nat.le_add_left_of_le (List.le_sum_of_mem hsize), ?_⟩
    exact Nat.le_add_left_of_le (List.length_pos_of_mem hsize)

end

theorem new (fs : MemFs) (hfs : fs.queue = .new) (hbytes : fs.inFlightBytes = 0)
    (hsegments : fs.inFlightSegments = 0) : (RingSystem.new fs).Conserved where
  partition := by simp [RingSystem.new, queued, inFlight, hfs, Queue.new]
  distinct := List.nodup_nil
  counted := by simp [RingSystem.new, hfs, Queue.new]
  bytes := by simp [RingSystem.new, hfs, Queue.new]
  gaugeBytes := hbytes
  gaugeSegments := hsegments
  attempts := by simp [RingSystem.new, hfs, Queue.new]
  budget := fun _ => Nat.zero_le _
  unsealed := fun _ _ => rfl

variable {index : Nat}

theorem sealSegment (h : s.Conserved) {bytes : Bytes} {epochSecs sealSecs : Nat}
    (hstep : s.step (.sealSegment index bytes epochSecs sealSecs) = some next) :
    next.Conserved := by
  simp only [step] at hstep
  split at hstep
  case isFalse => cases hstep
  case isTrue hall =>
      cases hstep
      have hfresh : index ∉ s.sealed := by
        intro hmem
        have hlt := List.all_eq_true.mp hall index hmem
        simp at hlt
      have hring := Queue.evicted_append h.bytes s.fs.maxTotalSize
        ⟨index, bytes, 0, epochSecs, sealSecs⟩
      refine ⟨?_, ?_, ?_, ?_, h.gaugeBytes, h.gaugeSegments, ?_, h.budget, ?_⟩
      · have hindices := congrArg (List.map MemSegment.index) hring
        simp only [List.map_append, List.map_cons, List.map_nil] at hindices
        have hold := List.perm_iff_count.mp h.partition
        rw [List.perm_iff_count]
        intro i
        have hcount := congrArg (List.count i) hindices
        have hold := hold i
        simp only [queued, inFlight, List.count_append, List.count_cons, List.count_nil,
          MemFs.sealSegment] at hcount hold ⊢
        omega
      · exact List.nodup_cons.mpr ⟨hfresh, h.distinct⟩
      · have hcounted := h.counted
        simp only [List.length_append, List.length_map, MemFs.sealSegment, Queue.push,
          Queue.evicted]
        omega
      · exact Queue.counted_push h.bytes _ _
      · rintro slot (hslot | hheld)
        · have hmem : slot ∈ s.fs.queue.segments ++
              [⟨index, bytes, 0, epochSecs, sealSecs⟩] := by
            rw [← hring]
            exact List.mem_append_right _ hslot
          rcases List.mem_append.mp hmem with hold | hnew
          · exact h.attempts slot (.inl hold)
          · obtain rfl := List.mem_singleton.mp hnew
            exact ⟨(h.unsealed index hfresh).symm, Nat.zero_le _⟩
        · exact h.attempts slot (.inr hheld)
      · intro i hi
        exact h.unsealed i fun hmem => hi (List.mem_cons_of_mem _ hmem)

theorem take (h : s.Conserved) {windows : Option (List EpochWindow)}
    (hstep : s.step (.take windows) = some next) : next.Conserved := by
  cases hstep
  have hcounted := h.counted
  cases hnext : s.fs.queue.next windows with
  | none =>
    have hpop : s.fs.queue.pop windows = { s.fs.queue with dropped := 0 } := by
      simp only [Queue.pop, hnext]
    refine ⟨?_, h.distinct, ?_, ?_, ?_, ?_, ?_, h.budget, h.unsealed⟩ <;>
      simp only [queued, inFlight, MemFs.take, MemFs.taken, hnext, hpop, Option.map_none,
        Option.toList_none, List.nil_append]
    · exact h.partition
    · omega
    · exact h.bytes
    · exact h.gaugeBytes
    · exact h.gaugeSegments
    · exact h.attempts
  | some slot =>
    rcases Queue.next_eq_some hnext with ⟨before, after, hsplit, hpop, -, -⟩
    have hdropped : (s.fs.queue.pop windows).dropped = 0 := by simp only [Queue.pop, hnext]
    have hbytes := h.gaugeBytes
    have hsegments := h.gaugeSegments
    refine ⟨?_, h.distinct, ?_, ?_, ?_, ?_, ?_, h.budget, h.unsealed⟩
    · have hold := List.perm_iff_count.mp h.partition
      rw [List.perm_iff_count]
      intro i
      have hold := hold i
      simp only [queued, inFlight, MemFs.take, MemFs.taken, hnext, hpop, hsplit, Option.map_some,
        Option.toList_some, List.map_append, List.map_cons, List.count_append, List.count_cons,
        List.cons_append, List.nil_append] at hold ⊢
      omega
    · simp only [MemFs.take, MemFs.taken, hnext, hdropped]
      omega
    · have hpopped := Queue.counted_pop h.bytes windows
      simp only [MemFs.take, hnext]
      exact hpopped
    · simp only [MemFs.take, MemFs.taken, hnext, Option.map_some, Option.toList_some,
        List.cons_append, List.nil_append, List.map_cons, List.sum_cons]
      omega
    · simp only [MemFs.take, MemFs.taken, hnext, Option.map_some, Option.toList_some,
        List.cons_append, List.nil_append, List.length_cons]
      omega
    · have hslot : slot ∈ s.fs.queue.segments := by simp [hsplit]
      intro other hother
      simp only [MemFs.take, MemFs.taken, hnext, hpop, Option.map_some, Option.toList_some,
        List.cons_append, List.nil_append, List.mem_cons, List.mem_append] at hother
      apply h.attempts
      rcases hother with (hbefore | hafter) | ⟨taken, rfl | hheld, rfl⟩
      · exact .inl (by simp [hsplit, hbefore])
      · exact .inl (by simp [hsplit, hafter])
      · exact .inl hslot
      · exact .inr ⟨taken, hheld, rfl⟩

variable {taken : TakenSegment}

theorem letGo_gauges (h : s.Conserved) (hfind : s.find index = some taken) :
    s.fs.inFlightBytes =
        ((s.letGo taken).held.map TakenSegment.accounting).sum + (s.letGo taken).dropping.sum ∧
      s.fs.inFlightSegments = (s.letGo taken).held.length + (s.letGo taken).dropping.length := by
  rcases find_eq_some hfind with ⟨rfl, before, after, hsplit, hwithout⟩
  have hbytes := h.gaugeBytes
  have hsegments := h.gaugeSegments
  simp only [letGo, hwithout, hsplit, List.map_append, List.map_cons, List.sum_append,
    List.sum_cons, List.length_append, List.length_cons] at hbytes hsegments ⊢
  constructor <;> omega

theorem count_inFlight (hfind : s.find index = some taken) (i : Nat) :
    s.inFlight.count i = (s.letGo taken).inFlight.count i + [index].count i := by
  rcases find_eq_some hfind with ⟨rfl, before, after, hsplit, hwithout⟩
  simp only [inFlight, letGo, hwithout, hsplit, List.map_append, List.map_cons, List.count_append,
    List.count_cons, List.count_nil]
  omega

theorem index_ne (h : s.Conserved) (hfind : s.find index = some taken)
    (hslot : slot ∈ s.fs.queue.segments ∨ ∃ other ∈ (s.letGo taken).held, other.slot = slot) :
    slot.index ≠ index := by
  rintro rfl
  have hle := List.nodup_iff_count_le_one.mp h.places_nodup slot.index
  have hcount := count_inFlight hfind slot.index
  simp only [List.count_append, List.count_singleton_self] at hle hcount
  rcases hslot with hqueued | ⟨other, hheld, rfl⟩
  · have hpos : 0 < s.queued.count slot.index :=
      List.count_pos_iff.mpr (List.mem_map_of_mem hqueued)
    omega
  · have hpos : 0 < (s.letGo taken).inFlight.count other.slot.index :=
      List.count_pos_iff.mpr (List.mem_map_of_mem hheld)
    omega

theorem mem_held_of_letGo {taken other : TakenSegment} (hmem : other ∈ (s.letGo taken).held) :
    other ∈ s.held := List.mem_of_mem_eraseP hmem

section Outcomes

variable {index : Nat} {taken : TakenSegment} {failures : Nat → Nat}

section

variable (h : s.Conserved)
include h

theorem attempts_of_letGo (hfind : s.find index = some taken)
    (hother : ∀ i, i ≠ index → failures i = s.failures i)
    (hslot : slot ∈ s.fs.queue.segments ∨ ∃ other ∈ (s.letGo taken).held, other.slot = slot) :
    slot.retryCount = failures slot.index ∧ slot.retryCount ≤ memoryRetryBudget := by
  rw [hother _ (h.index_ne hfind hslot)]
  apply h.attempts
  rcases hslot with hqueued | ⟨other, hheld, rfl⟩
  · exact .inl hqueued
  · exact .inr ⟨other, mem_held_of_letGo hheld, rfl⟩

theorem budget_of_letGo (hother : ∀ i, i ≠ index → failures i = s.failures i)
    (hbudget : failures index ≤ memoryRetryBudget + 1) (i : Nat) :
    failures i ≤ memoryRetryBudget + 1 := by
  by_cases hi : i = index
  · exact hi ▸ hbudget
  · rw [hother i hi]
    exact h.budget i

section

variable (hfind : s.find index = some taken)
include hfind

section

variable (hother : ∀ i, i ≠ index → failures i = s.failures i)
include hother

theorem unsealed_of_letGo (i : Nat) (hi : i ∉ s.sealed) : failures i = 0 := by
  rw [hother i, h.unsealed i hi]
  rintro rfl
  apply hi
  have hmem := h.mem_sealed_of_held (List.mem_of_find?_eq_some hfind)
  rwa [(find_eq_some hfind).1] at hmem

theorem finish (hbudget : failures index ≤ memoryRetryBudget + 1) :
    Conserved { s.finish taken with failures := failures } where
  partition := by
    have hold := List.perm_iff_count.mp h.partition
    rw [List.perm_iff_count]
    intro i
    have hold := hold i
    have hcount := count_inFlight hfind i
    have hindex := (find_eq_some hfind).1
    simp only [RingSystem.finish, inFlight, letGo, queued, hindex, List.count_append,
      List.count_cons, List.count_nil] at hold hcount ⊢
    omega
  distinct := h.distinct
  counted := h.counted
  bytes := h.bytes
  gaugeBytes := (h.letGo_gauges hfind).1
  gaugeSegments := (h.letGo_gauges hfind).2
  attempts := fun _ hslot => h.attempts_of_letGo hfind hother hslot
  budget := h.budget_of_letGo hother hbudget
  unsealed := h.unsealed_of_letGo hfind hother

theorem putBack (segment : MemSegment)
    (hindex : segment.index = index) (hcount : segment.retryCount = failures index)
    (hbudget : segment.retryCount ≤ memoryRetryBudget) :
    Conserved { s.putBack taken segment with failures := failures } where
  partition := by
    have hold := List.perm_iff_count.mp h.partition
    rw [List.perm_iff_count]
    intro i
    have hold := hold i
    have hcount := count_inFlight hfind i
    simp only [RingSystem.putBack, MemFs.releaseForRetry, Queue.putBack, inFlight, letGo, queued,
      List.map_cons, hindex, List.count_append, List.count_cons, List.count_nil] at hold hcount ⊢
    omega
  distinct := h.distinct
  counted := h.counted
  bytes := Queue.counted_putBack h.bytes segment
  gaugeBytes := (h.letGo_gauges hfind).1
  gaugeSegments := (h.letGo_gauges hfind).2
  attempts := by
    rintro slot (hslot | hheld)
    · rcases List.mem_cons.mp hslot with rfl | hold
      · exact ⟨hindex ▸ hcount, hbudget⟩
      · exact h.attempts_of_letGo hfind hother (.inl hold)
    · exact h.attempts_of_letGo hfind hother (.inr hheld)
  budget := by
    have hle : failures index ≤ memoryRetryBudget := hcount ▸ hbudget
    exact h.budget_of_letGo hother (Nat.le_succ_of_le hle)
  unsealed := h.unsealed_of_letGo hfind hother

end

end

theorem retry {epochSecs : Nat}
    (hstep : s.step (.retry index epochSecs) = some next) : next.Conserved := by
  rcases Option.map_eq_some_iff.mp hstep with ⟨taken, hfind, rfl⟩
  have hindex := (find_eq_some hfind).1
  have hslot := h.attempts taken.slot (.inr ⟨taken, List.mem_of_find?_eq_some hfind, rfl⟩)
  rw [hindex] at hslot
  have hother : ∀ i, i ≠ index →
      Function.update s.failures index (s.failures index + 1) i = s.failures i :=
    fun i hi => Function.update_of_ne hi _ _
  have hself : Function.update s.failures index (s.failures index + 1) index =
      s.failures index + 1 := Function.update_self _ _ _
  unfold retried
  split
  · next segment hretried =>
      split at hretried
      · cases hretried
      · next hbudget =>
          cases hretried
          refine h.putBack hfind hother { taken.slot with
            retryCount := taken.slot.retryCount + 1, epochSecs := epochSecs } hindex ?_ ?_
          · rw [hself, ← hslot.1]
          · exact Nat.le_of_not_gt hbudget
  · apply h.finish hfind hother
    rw [hself]
    omega

theorem adjust {newSize : Nat}
    (hstep : s.step (.adjust index newSize) = some next) : next.Conserved := by
  rcases Option.map_eq_some_iff.mp hstep with ⟨taken, hfind, rfl⟩
  have hle := h.no_underflow.1 taken (List.mem_of_find?_eq_some hfind)
  rcases find_eq_some hfind with ⟨rfl, before, after, hsplit, hwithout⟩
  have hqueue : (s.fs.adjust taken.accounting newSize).queue = s.fs.queue ∧
      (s.fs.adjust taken.accounting newSize).inFlightSegments = s.fs.inFlightSegments ∧
      (s.fs.adjust taken.accounting newSize).inFlightBytes + taken.accounting =
        s.fs.inFlightBytes + newSize := by
    simp only [MemFs.adjust]
    split_ifs with hsame hgrow
    · exact ⟨rfl, rfl, by omega⟩
    · exact ⟨rfl, rfl, by dsimp only; omega⟩
    · refine ⟨rfl, rfl, ?_⟩
      dsimp only
      rw [fetchSub_of_le (by omega)]
      omega
  have hbytes := h.gaugeBytes
  have hsegments := h.gaugeSegments
  refine ⟨?_, h.distinct, ?_, ?_, ?_, ?_, ?_, h.budget, h.unsealed⟩
  · have hold := List.perm_iff_count.mp h.partition
    rw [List.perm_iff_count]
    intro i
    have hold := hold i
    simp only [queued, inFlight, hqueue.1, hwithout, hsplit, List.map_append, List.map_cons,
      List.count_append, List.count_cons] at hold ⊢
    omega
  · rw [hqueue.1]
    exact h.counted
  · rw [hqueue.1]
    exact h.bytes
  · simp only [hwithout, hsplit, List.map_append, List.map_cons, List.sum_append,
      List.sum_cons] at hbytes ⊢
    omega
  · simp only [hwithout, hsplit, List.length_append, List.length_cons] at hsegments ⊢
    omega
  · rintro slot (hslot | ⟨other, hother, rfl⟩)
    · rw [hqueue.1] at hslot
      exact h.attempts slot (.inl hslot)
    · rcases List.mem_cons.mp hother with rfl | hkept
      · exact h.attempts _ (.inr ⟨taken, List.mem_of_find?_eq_some hfind, rfl⟩)
      · exact h.attempts _ (.inr ⟨other, List.mem_of_mem_eraseP hkept, rfl⟩)

theorem dropAccounting {size : Nat}
    (hstep : s.step (.dropAccounting size) = some next) : next.Conserved := by
  simp only [step] at hstep
  split at hstep
  case isFalse => cases hstep
  case isTrue hmem =>
      cases hstep
      have hle := h.no_underflow.2 size hmem
      have hperm := List.perm_cons_erase hmem
      have hsum : s.dropping.sum = size + (s.dropping.erase size).sum := by
        rw [hperm.sum_eq, List.sum_cons]
      have hlength : s.dropping.length = (s.dropping.erase size).length + 1 := by
        rw [hperm.length_eq, List.length_cons]
      have hbytes := h.gaugeBytes
      have hsegments := h.gaugeSegments
      refine ⟨h.partition, h.distinct, h.counted, h.bytes, ?_, ?_, h.attempts, h.budget,
        h.unsealed⟩
      · simp only [MemFs.dropAccounting, fetchSub_of_le hle.1]
        omega
      · simp only [MemFs.dropAccounting, fetchSub_of_le hle.2]
        omega

end

end Outcomes

theorem step (h : s.Conserved) (hstep : s.step event = some next) : next.Conserved := by
  cases event with
  | sealSegment index bytes epochSecs sealSecs => exact h.sealSegment hstep
  | take windows => exact h.take hstep
  | adjust index newSize => exact h.adjust hstep
  | complete index | fail index =>
    rcases Option.map_eq_some_iff.mp hstep with ⟨taken, hfind, rfl⟩
    exact h.finish hfind (fun _ _ => rfl) (h.budget index)
  | retry index epochSecs => exact h.retry hstep
  | release index epochSecs =>
    rcases Option.map_eq_some_iff.mp hstep with ⟨taken, hfind, rfl⟩
    have hslot := h.attempts taken.slot (.inr ⟨taken, List.mem_of_find?_eq_some hfind, rfl⟩)
    have hindex := (find_eq_some hfind).1
    exact h.putBack hfind (fun _ _ => rfl) { taken.slot with epochSecs := epochSecs } hindex
      (hindex ▸ hslot.1) hslot.2
  | dropAccounting size => exact h.dropAccounting hstep

end Conserved

theorem conserved_new {fs : MemFs} {maxTotalSize : Nat}
    (hnew : MemFs.withCapacity maxTotalSize = .ok fs) : (new fs).Conserved := by
  rw [withCapacity_eq_ok hnew]
  exact Conserved.new _ rfl rfl rfl

/-- In every state of every interleaving each sealed segment is in exactly one
place, the counters agree with where the segments are, no gauge underflows, and
no segment fails retryably more often than its budget allows. -/
theorem conserved_of_run {fs : MemFs} {maxTotalSize : Nat}
    (hnew : MemFs.withCapacity maxTotalSize = .ok fs) {events : List RingEvent} {last : RingSystem}
    (h : run RingSystem.step (new fs) events = some last) :
    last.Conserved ∧ (last.queued ++ last.inFlight ++ last.finished ++ last.evicted).Nodup ∧
      (∀ taken ∈ last.held, taken.accounting ≤ last.fs.inFlightBytes) ∧
      ∀ size ∈ last.dropping, size ≤ last.fs.inFlightBytes ∧ 1 ≤ last.fs.inFlightSegments := by
  have hlast : last.Conserved :=
    run_invariant (fun _ _ _ hs _ hstep => hs.step hstep) (conserved_new hnew)
      (along_true _ _) h
  exact ⟨hlast, hlast.places_nodup, hlast.no_underflow⟩

/-- A channel of 100 bytes. -/
def smallFs : MemFs := ⟨100, .new, 0, 0, 0⟩

/-- The worker takes the first segment, the writer fills the ring again, and
the failed segment comes back: 120 bytes in a ring of 100. -/
def overfull : List RingEvent :=
  [.sealSegment 0 (List.replicate 60 0x6d) 10 11, .take none,
    .sealSegment 1 (List.replicate 60 0x6d) 12 13, .retry 0 10]

/-- The system at the end of a run that is enabled, and some state otherwise. -/
def after (fs : MemFs) (events : List RingEvent) : RingSystem :=
  (run RingSystem.step (new fs) events).getD (new fs)

theorem conserved_of_run_overfull :
    (after smallFs overfull).queued = [0, 1] ∧ (after smallFs overfull).Conserved :=
  ⟨rfl, (@conserved_of_run smallFs 100 rfl overfull _ rfl).1⟩

theorem bounded_throughout_iff_overfull :
    run RingSystem.step (new smallFs) overfull = some (after smallFs overfull) ∧
      (Throughout RingSystem.step Bounded (new smallFs) overfull ↔
        Along RingSystem.step Fits (new smallFs) overfull) :=
  ⟨rfl, @bounded_throughout_iff smallFs 100 rfl overfull _ rfl⟩

theorem overfull_not_bounded :
    ¬ ∀ (fs : MemFs) (maxTotalSize : Nat) (events : List RingEvent) (last : RingSystem),
      MemFs.withCapacity maxTotalSize = .ok fs →
      run RingSystem.step (new fs) events = some last → last.Bounded := by
  intro hall
  have hbounded := hall smallFs 100 overfull (after smallFs overfull) rfl rfl
  have hbytes : (after smallFs overfull).fs.queue.bytes = 120 := rfl
  rw [Bounded, hbytes] at hbounded
  exact absurd hbounded (by decide)

/-! ## Oldest first -/

/-- The ring in order of segment index. -/
def Ordered (segments : List MemSegment) : Prop :=
  segments.Pairwise fun older newer => older.index < newer.index

/-- The ring is ordered, so that every eviction removes the oldest segment left,
and a take dispenses the oldest of the segments it may dispense. -/
structure OldestFirst (s : RingSystem) : Prop where
  ordered : Ordered s.fs.queue.segments
  evicts : ∀ size, Ordered (s.fs.queue.evicted s.fs.maxTotalSize size) ∧
    ∀ out ∈ s.fs.queue.evicted s.fs.maxTotalSize size,
      ∀ kept ∈ s.fs.queue.survivors s.fs.maxTotalSize size, out.index < kept.index
  takes : ∀ windows segment, s.fs.queue.next windows = some segment →
    ∀ other ∈ s.fs.queue.segments, Queue.wanted windows other = true →
      other = segment ∨ segment.index < other.index

/-- A segment comes back only while nothing older is in the ring. -/
def ReturnsOldest (s : RingSystem) (event : RingEvent) : Prop :=
  ∀ segment, s.returned event = some segment →
    ∀ other ∈ s.fs.queue.segments, segment.index < other.index

theorem oldestFirst_of_ordered {s : RingSystem} (hcounted : s.fs.queue.Counted)
    (h : Ordered s.fs.queue.segments) : s.OldestFirst where
  ordered := h
  evicts := by
    intro size
    have hsplit := (Queue.evict_spec s.fs.maxTotalSize size s.fs.queue.segments
      s.fs.queue.bytes hcounted).1
    have hpair := h
    rw [Ordered, ← hsplit, List.pairwise_append] at hpair
    exact ⟨hpair.1, hpair.2.2⟩
  takes := by
    intro windows segment hnext other hother hwanted
    rcases Queue.next_eq_some hnext with ⟨before, after, hsplit, -, -, hbefore⟩
    have hpair := h
    rw [Ordered, hsplit, List.pairwise_append] at hpair
    rw [hsplit] at hother
    rcases List.mem_append.mp hother with hearlier | hrest
    · rw [hbefore other hearlier] at hwanted
      cases hwanted
    · rcases List.mem_cons.mp hrest with rfl | hlater
      · exact .inl rfl
      · exact .inr ((List.pairwise_cons.mp hpair.2.1).1 other hlater)

theorem step_ordered_iff (hs : s.Conserved)
    (hordered : Ordered s.fs.queue.segments) (h : s.step event = some next) :
    Ordered next.fs.queue.segments ↔ s.ReturnsOldest event := by
  rcases step_queue h with ⟨-, ⟨segment, -, hreturned, hnewest, hqueue⟩ |
      ⟨windows, -, hreturned, hqueue⟩ | ⟨segment, -, hreturned, -, hqueue⟩ |
      ⟨-, hreturned, hqueue⟩⟩ <;>
    rw [hqueue]
  · apply iff_of_true
    · have hring := Queue.evicted_append hs.bytes s.fs.maxTotalSize segment
      have hall : Ordered (s.fs.queue.segments ++ [segment]) := by
        rw [Ordered, List.pairwise_append]
        refine ⟨hordered, List.pairwise_singleton _ _, ?_⟩
        intro old hold new hnew
        obtain rfl := List.mem_singleton.mp hnew
        exact hnewest _ (hs.mem_sealed_of_queued hold)
      rw [Ordered, ← hring] at hall
      exact (List.pairwise_append.mp hall).2.1
    · simp [ReturnsOldest, hreturned]
  · apply iff_of_true
    · simp only [Queue.pop]
      split
      · exact List.Pairwise.sublist List.eraseP_sublist hordered
      · exact hordered
    · simp [ReturnsOldest, hreturned]
  · simp only [Ordered, Queue.putBack, List.pairwise_cons]
    constructor
    · rintro ⟨hfirst, -⟩ segment' hsegment'
      obtain rfl : segment = segment' := Option.some.inj (hreturned.symm.trans hsegment')
      exact hfirst
    · intro hoptions
      exact ⟨hoptions segment hreturned, hordered⟩
  · apply iff_of_true hordered
    simp [ReturnsOldest, hreturned]

/-- The ring is oldest first throughout a run exactly when no put-back finds an
older segment in the ring. -/
theorem oldestFirst_throughout_iff {fs : MemFs} {maxTotalSize : Nat}
    (hnew : MemFs.withCapacity maxTotalSize = .ok fs) {events : List RingEvent} {last : RingSystem}
    (h : run RingSystem.step (new fs) events = some last) :
    Throughout RingSystem.step OldestFirst (new fs) events ↔
      Along RingSystem.step ReturnsOldest (new fs) events := by
  have hstart := conserved_new hnew
  have hempty : Ordered (new fs).fs.queue.segments := by
    rw [withCapacity_eq_ok hnew]
    exact List.Pairwise.nil
  apply throughout_iff_along Conserved (fun _ _ _ hs hstep => hs.step hstep) _ hstart
    (oldestFirst_of_ordered hstart.bytes hempty) h
  intro s event next hs holdest hstep
  rw [← step_ordered_iff hs holdest.ordered hstep]
  constructor
  · exact fun hnext => hnext.ordered
  · exact fun hnext => oldestFirst_of_ordered (hs.step hstep).bytes hnext

/-- A windowed take from the middle of the ring, put back in front of an older segment. -/
def outOfOrder : List RingEvent :=
  [.sealSegment 0 [0x6e] 10 11, .sealSegment 1 [0x6e] 20 21, .take (some [⟨some 20, 30⟩]),
    .release 1 20]

theorem oldestFirst_throughout_iff_outOfOrder :
    run RingSystem.step (new smallFs) outOfOrder = some (after smallFs outOfOrder) ∧
      (Throughout RingSystem.step OldestFirst (new smallFs) outOfOrder ↔
        Along RingSystem.step ReturnsOldest (new smallFs) outOfOrder) :=
  ⟨rfl, @oldestFirst_throughout_iff smallFs 100 rfl outOfOrder _ rfl⟩

theorem outOfOrder_not_oldestFirst :
    ¬ ∀ (fs : MemFs) (maxTotalSize : Nat) (events : List RingEvent) (last : RingSystem),
      MemFs.withCapacity maxTotalSize = .ok fs →
      run RingSystem.step (new fs) events = some last → last.OldestFirst := by
  intro hall
  have hordered := (hall smallFs 100 outOfOrder (after smallFs outOfOrder) rfl rfl).ordered
  have hring : (after smallFs outOfOrder).queued = [1, 0] := rfl
  have hpair : (after smallFs outOfOrder).queued.Pairwise (· < ·) := List.pairwise_map.mpr hordered
  rw [hring] at hpair
  exact absurd hpair (by decide)

end RingSystem

end Dial9.Core
