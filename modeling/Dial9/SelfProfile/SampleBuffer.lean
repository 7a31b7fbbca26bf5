/-
# The signal-safe sample ring

Signal handlers claim tickets of one ring and write samples into its slots; one
drain thread reads them in ticket order. A slot's sequence number says whose turn
it is. Every atomic step of a producer and of the drainer is a step of its own here,
so that runs interleave them in any way, a handler nested in another included.

Cursors and sequence numbers are 64-bit words. The record fields count tickets
without wrapping; no step of the code reads them.
-/

import Mathlib.Algebra.Order.Ring.Nat
import Mathlib.Logic.Function.Basic

namespace Dial9.SelfProfile

def bufferCap : Nat := 4096

def maxAttempts : Nat := 128

def maxFrames : Nat := 128

/-- `wrapping_add` on `usize`. -/
def wrappingAdd (a b : Nat) : Nat := (a + b) % 2 ^ 64

/-- `wrapping_sub` on `usize`. -/
def wrappingSub (a b : Nat) : Nat := (a + 2 ^ 64 - b) % 2 ^ 64

/-- The word is below zero as an `isize`. -/
def isNegative (word : Nat) : Bool := decide (2 ^ 63 ≤ word)

structure SampleData where
  pid : Nat
  tid : Nat
  time : Nat
  cpu : Option Nat
  period : Nat
  numFrames : Nat
  frames : List Nat
  deriving DecidableEq

def SampleData.zero : SampleData := ⟨0, 0, 0, none, 0, 0, List.replicate maxFrames 0⟩

structure SampleSlot where
  seq : Nat
  data : SampleData

structure SampleBuffer where
  slots : Nat → SampleSlot
  tail : Nat
  head : Nat
  dropped : Nat

/-- What the owner of a slot does to its sample. -/
inductive Write where
  | write (pid tid time : Nat) (cpu : Option Nat) (period : Nat)
  | frame (index address : Nat)
  | setNumFrames (count : Nat)

def Write.apply (data : SampleData) : Write → SampleData
  | .write pid tid time cpu period =>
    { data with pid := pid, tid := tid, time := time, cpu := cpu, period := period }
  | .frame index address => { data with frames := data.frames.set index address }
  | .setNumFrames count => { data with numFrames := min count maxFrames }

/-- An abandoned slot holds an empty sample. -/
def SampleData.abandon (data : SampleData) : SampleData :=
  { data with pid := 0, tid := 0, time := 0, cpu := none, period := 0, numFrames := 0 }

/-- Where a producer is, with the rounds of `claim_slot` that it has left. -/
inductive Producer where
  | idle
  /-- About to load the sequence number of the ticket's slot. -/
  | loading (ticket attempts : Nat)
  /-- The slot was ready for the ticket; about to compare and exchange the tail. -/
  | reserving (ticket attempts : Nat)
  /-- The cursor was stale; about to load the tail. -/
  | reloading (attempts : Nat)
  /-- About to count a drop, of a full buffer or of a call with no rounds left. -/
  | dropping (full : Bool)
  /-- Holds a `SlotWriter`. -/
  | writing (ticket : Nat)
  /-- Dropped its `SlotWriter` and cleared the sample; about to publish it. -/
  | abandoning (ticket : Nat)
  deriving DecidableEq

/-- Where the drainer is. -/
inductive Drainer where
  | idle
  | checking (head : Nat)
  | reading (head : Nat)
  | releasing (head : Nat) (sample : SampleData)
  | delivering (head : Nat) (sample : SampleData)
  | finishing (head : Nat)

structure Ring where
  buffer : SampleBuffer
  producers : Nat → Producer
  drainer : Drainer
  /-- The tickets claimed so far, for the record. -/
  claimed : Nat
  /-- The slots released by the drainer so far, for the record. -/
  drained : Nat
  /-- The ticket of a producer's cursor, for the record. -/
  cursor : Nat → Nat
  /-- The sample that was committed, or left, under a ticket, for the record. -/
  published : Nat → Option SampleData
  /-- What `drain` passed on. -/
  delivered : List SampleData

/-- The next atomic step of a producer or of the drainer. -/
inductive Event where
  /-- `claim_slot` is called and loads the tail. -/
  | claim (producer : Nat)
  /-- The next step of a call of `claim_slot`. -/
  | attempt (producer : Nat)
  | write (producer : Nat) (write : Write)
  | commit (producer : Nat)
  /-- The writer is dropped without a commit. -/
  | abandon (producer : Nat)
  | publish (producer : Nat)
  /-- `drain` is called and loads the head. -/
  | drain
  /-- The next step of a call of `drain`. -/
  | drainStep
  | takeDroppedCount

/-- The producer whose step it is. -/
def Event.producer : Event → Option Nat
  | .claim producer | .attempt producer | .write producer _ | .commit producer
  | .abandon producer | .publish producer => some producer
  | .drain | .drainStep | .takeDroppedCount => none

namespace Ring

def empty : Ring where
  buffer := ⟨fun i => ⟨i, .zero⟩, 0, 0, 0⟩
  producers := fun _ => .idle
  drainer := .idle
  claimed := 0
  drained := 0
  cursor := fun _ => 0
  published := fun _ => none
  delivered := []

def setProducer (s : Ring) (p : Nat) (producer : Producer) : Ring :=
  { s with producers := Function.update s.producers p producer }

def slot (s : Ring) (ticket : Nat) : SampleSlot :=
  s.buffer.slots (ticket % bufferCap)

def setSlot (s : Ring) (ticket : Nat) (slot : SampleSlot) : Ring :=
  { s with buffer.slots := Function.update s.buffer.slots (ticket % bufferCap) slot }

/-- The cursor is the tail's value. -/
def loadTail (s : Ring) (p attempts : Nat) : Ring :=
  { s.setProducer p (.loading s.buffer.tail attempts) with
    cursor := Function.update s.cursor p s.claimed }

/-- The next round of the loop, if there is one left. -/
def retry (s : Ring) (p : Nat) : Nat → Ring
  | 0 => s.setProducer p (.dropping false)
  | attempts + 1 => s.loadTail p attempts

/-- A step of `claim_slot` after its first load. -/
def attempt (s : Ring) (p : Nat) : Option Ring :=
  match s.producers p with
  | .loading ticket attempts =>
    let seq := (s.slot ticket).seq
    some
      (if seq = ticket then s.setProducer p (.reserving ticket attempts)
      else if isNegative (wrappingSub seq ticket) then s.setProducer p (.dropping true)
      else s.setProducer p (.reloading attempts))
  | .reserving ticket attempts =>
    some
      (if s.buffer.tail = ticket then
        { s.setProducer p (.writing ticket) with
          buffer.tail := wrappingAdd ticket 1
          claimed := s.claimed + 1 }
      else s.retry p attempts)
  | .reloading attempts => some (s.retry p attempts)
  | .dropping _ =>
    some { s.setProducer p .idle with buffer.dropped := wrappingAdd s.buffer.dropped 1 }
  | .idle | .writing _ | .abandoning _ => none

/-- The sequence number is stored and the producer lets go of the slot. -/
def publishSeq (s : Ring) (p ticket : Nat) : Ring :=
  { (s.setSlot ticket { s.slot ticket with seq := wrappingAdd ticket 1 }).setProducer p .idle with
    published := Function.update s.published (s.cursor p) (some (s.slot ticket).data) }

/-- A step of `drain` after its first load. -/
def drainStep (s : Ring) : Option Ring :=
  match s.drainer with
  | .idle => none
  | .checking head =>
    some
      { s with
        drainer :=
          if (s.slot head).seq = wrappingAdd head 1 then .reading head else .finishing head }
  | .reading head => some { s with drainer := .releasing head (s.slot head).data }
  | .releasing head sample =>
    some
      { s.setSlot head { s.slot head with seq := wrappingAdd head bufferCap } with
        drainer := .delivering head sample
        drained := s.drained + 1 }
  | .delivering head sample =>
    some
      { s with
        drainer := .checking (wrappingAdd head 1)
        delivered := s.delivered ++ [sample] }
  | .finishing head => some { s with buffer.head := head, drainer := .idle }

def step (s : Ring) : Event → Option Ring
  | .claim p => if s.producers p = .idle then some (s.loadTail p (maxAttempts - 1)) else none
  | .attempt p => s.attempt p
  | .write p write =>
    match s.producers p with
    | .writing ticket =>
      some (s.setSlot ticket { s.slot ticket with data := write.apply (s.slot ticket).data })
    | _ => none
  | .commit p =>
    match s.producers p with
    | .writing ticket => some (s.publishSeq p ticket)
    | _ => none
  | .abandon p =>
    match s.producers p with
    | .writing ticket =>
      some
        ((s.setSlot ticket { s.slot ticket with data := (s.slot ticket).data.abandon }).setProducer
          p (.abandoning ticket))
    | _ => none
  | .publish p =>
    match s.producers p with
    | .abandoning ticket => some (s.publishSeq p ticket)
    | _ => none
  | .drain =>
    match s.drainer with
    | .idle => some { s with drainer := .checking s.buffer.head }
    | _ => none
  | .drainStep => s.drainStep
  | .takeDroppedCount => some { s with buffer.dropped := 0 }

/-- `has_pending`. -/
def hasPending (s : Ring) : Bool :=
  let count := wrappingSub s.buffer.tail s.buffer.head
  !isNegative count && decide (count ≠ 0)

end Ring

end Dial9.SelfProfile
