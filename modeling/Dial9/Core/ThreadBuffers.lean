/-
# Thread-local buffers and their drain

Every recording thread encodes into a buffer of its own behind a mutex. Three
parties hand its content to the collector: the thread itself when the buffer is
full or a drain epoch has passed, a drain that visits all registered buffers,
and the destructor of the last reference to the buffer. The model cuts each of
them at its accesses to shared state, so that a run is any interleaving.

A buffer lives as long as its thread or a drain that upgraded the registered
weak reference holds it. What each thread has recorded, and how much of it in
calls that have returned, is kept beside the state and read by no step.
-/

import Mathlib.Logic.Function.Basic
import Mathlib.Data.List.Infix
import Mathlib.Tactic.Common

namespace Dial9.Core.Buffers

/-- Who holds the mutex of a buffer. -/
inductive Holder (D : Type) where
  | owner
  | drain (d : D)
  deriving DecidableEq

/-- Where a thread is in `with_encoder`, or in its exit. `first` tells whether
the call stored the collector and has a handle to register. -/
inductive Phase where
  | idle
  | encoded (first : Bool)
  | loaded (first : Bool) (epoch : Nat)
  | flushed (first : Bool) (epoch : Nat)
  | leaving (first : Bool)
  | registering
  | dropping
  | exited
  deriving DecidableEq

/-- A thread and its buffer. -/
structure Thread (D E : Type) where
  /-- Encoded since the last flush. -/
  events : List E
  /-- The collector reference has been stored. -/
  collector : Bool
  flushEpoch : Nat
  poisoned : Bool
  lock : Option (Holder D)
  /-- The thread's own reference to the buffer. -/
  owned : Bool
  /-- The references of drains. -/
  upgraded : List D
  /-- The last reference is gone and the destructor has not run. -/
  dying : Bool
  phase : Phase
  recorded : List E
  returned : List E

/-- Where a drain is in `drain_all_tl_buffers`. -/
inductive DrainPhase (T : Type) where
  | idle
  | loaded (epoch : Nat)
  | visiting (epoch : Nat) (rest : List T)
  | upgrading (epoch : Nat) (t : T) (rest : List T)
  | locking (epoch : Nat) (t : T) (rest : List T)
  | stamping (epoch : Nat) (t : T) (rest : List T)
  | releasing (epoch : Nat) (t : T) (rest : List T)
  | dropping (epoch : Nat) (t : T) (rest : List T)
  deriving DecidableEq

namespace Thread

variable {D E : Type}

/-- A thread that has recorded nothing. -/
def fresh : Thread D E where
  events := []
  collector := false
  flushEpoch := 0
  poisoned := false
  lock := none
  owned := true
  upgraded := []
  dying := false
  phase := .idle
  recorded := []
  returned := []

def strongCount (th : Thread D E) : Nat := (if th.owned then 1 else 0) + th.upgraded.length

/-- `set_collector` and the encoding of events. When the encoder panics, what it
wrote stays behind in a poisoned buffer and the call does not return. -/
def encode (th : Thread D E) (written : List E) (panics : Bool) : Thread D E :=
  { th with
    events := th.events ++ written
    collector := true
    poisoned := panics
    lock := if panics then none else some .owner
    phase := if panics then .idle else .encoded (!th.collector)
    recorded := th.recorded ++ written }

/-- Release the mutex; a first call has its handle to push, any other returns. -/
def unlock (th : Thread D E) (first : Bool) : Thread D E :=
  { th with
    lock := none
    phase := if first then .registering else .idle
    returned := if first then th.returned else th.recorded }

/-- Drop the thread's own reference. -/
def exit (th : Thread D E) : Thread D E :=
  { th with
    owned := false
    dying := th.upgraded.isEmpty
    phase := if th.upgraded.isEmpty then .dropping else .exited }

variable [DecidableEq D]

/-- Drop the reference of a drain. -/
def release (th : Thread D E) (d : D) : Thread D E :=
  { th with
    upgraded := th.upgraded.erase d
    dying := !th.owned && (th.upgraded.erase d).isEmpty }

end Thread

structure State (T D E : Type) where
  epoch : Nat
  /-- The registered weak references. -/
  handles : List T
  threads : T → Thread D E
  drains : D → DrainPhase T
  /-- The batches handed to the collector, each with the thread it came from. -/
  handed : List (T × List E)

inductive Action (T D E : Type) where
  | record (t : T) (written : List E) (panics : Bool)
  | loadEpoch (t : T)
  | check (t : T)
  | stamp (t : T)
  | unlock (t : T)
  | register (t : T)
  | selfDrain (t : T)
  | exit (t : T)
  | drop (t : T)
  | bump
  | startDrain (d : D)
  | snapshot (d : D)
  | visit (d : D)
  | upgrade (d : D)
  | lockBuffer (d : D)
  | stampBuffer (d : D)
  | release (d : D)
  | dropBuffer (d : D)
  | prune (d : D)

namespace State

variable {T D E : Type} [DecidableEq T] [DecidableEq D]

def start : State T D E where
  epoch := 0
  handles := []
  threads := fun _ => .fresh
  drains := fun _ => .idle
  handed := []

def setThread (s : State T D E) (t : T) (th : Thread D E) : State T D E :=
  { s with threads := Function.update s.threads t th }

def setDrain (s : State T D E) (d : D) (phase : DrainPhase T) : State T D E :=
  { s with drains := Function.update s.drains d phase }

/-- `collector.accept_flush(buf.flush())`. -/
def acceptFlush (s : State T D E) (t : T) : State T D E :=
  { s with
    threads := Function.update s.threads t { s.threads t with events := [] }
    handed := s.handed ++ [(t, (s.threads t).events)] }

/-- Flush where events are pending. -/
def flushPending (s : State T D E) (t : T) : State T D E :=
  if (s.threads t).events = [] then s else s.acceptFlush t

/-- The destructor: pending events go to the stored collector, or are dropped
where none was stored. -/
def dropThread (s : State T D E) (t : T) : State T D E :=
  let flushed := if (s.threads t).collector then s.flushPending t
    else s.setThread t { s.threads t with events := [] }
  flushed.setThread t { flushed.threads t with dying := false }

section

variable (bytesWritten : List E → Nat) (batchSize : Nat)

/-- The buffer is full, or was last flushed in an earlier epoch. -/
def MustFlush (th : Thread D E) (epoch : Nat) : Prop :=
  batchSize ≤ bytesWritten th.events ∨ th.flushEpoch < epoch

instance (th : Thread D E) (epoch : Nat) : Decidable (MustFlush bytesWritten batchSize th epoch) :=
  inferInstanceAs (Decidable (_ ∨ _))

/-- One access to shared state, `none` where the party is not there or would wait
for the mutex. -/
def step (s : State T D E) : Action T D E → Option (State T D E)
  | .record t written panics =>
    if (s.threads t).phase = .idle ∧ (s.threads t).lock = none then
      -- A poisoned buffer refuses the events.
      if (s.threads t).poisoned then some s
      else some (s.setThread t ((s.threads t).encode written panics))
    else none
  | .loadEpoch t =>
    match (s.threads t).phase with
    | .encoded first =>
      some (s.setThread t { s.threads t with phase := .loaded first s.epoch })
    | _ => none
  | .check t =>
    match (s.threads t).phase with
    | .loaded first epoch =>
      if MustFlush bytesWritten batchSize (s.threads t) epoch then
        some ((s.acceptFlush t).setThread t
          { s.threads t with events := [], phase := .flushed first epoch })
      else some (s.setThread t { s.threads t with phase := .leaving first })
    | _ => none
  | .stamp t =>
    match (s.threads t).phase with
    | .flushed first epoch =>
      some (s.setThread t { s.threads t with flushEpoch := epoch, phase := .leaving first })
    | _ => none
  | .unlock t =>
    match (s.threads t).phase with
    | .leaving first => some (s.setThread t ((s.threads t).unlock first))
    | _ => none
  | .register t =>
    if (s.threads t).phase = .registering then
      some { s.setThread t
          { s.threads t with phase := .idle, returned := (s.threads t).recorded } with
        handles := s.handles ++ [t] }
    else none
  | .selfDrain t =>
    if (s.threads t).phase = .idle ∧ (s.threads t).lock = none then
      if (s.threads t).poisoned then some s else some (s.flushPending t)
    else none
  | .exit t =>
    if (s.threads t).phase = .idle then some (s.setThread t (s.threads t).exit) else none
  | .drop t =>
    if (s.threads t).phase = .dropping then
      let dropped := s.dropThread t
      some (dropped.setThread t { dropped.threads t with phase := .exited })
    else none
  | .bump => some { s with epoch := s.epoch + 1 }
  | .startDrain d =>
    if s.drains d = .idle then some (s.setDrain d (.loaded s.epoch)) else none
  | .snapshot d =>
    match s.drains d with
    | .loaded epoch => some (s.setDrain d (.visiting epoch s.handles))
    | _ => none
  | .visit d =>
    match s.drains d with
    | .visiting epoch (t :: rest) =>
      -- Skip buffers that self-flushed during the current epoch.
      if epoch ≤ (s.threads t).flushEpoch then some (s.setDrain d (.visiting epoch rest))
      else some (s.setDrain d (.upgrading epoch t rest))
    | _ => none
  | .upgrade d =>
    match s.drains d with
    | .upgrading epoch t rest =>
      if (s.threads t).strongCount = 0 then some (s.setDrain d (.visiting epoch rest))
      else
        some ((s.setThread t
          { s.threads t with upgraded := d :: (s.threads t).upgraded }).setDrain d
            (.locking epoch t rest))
    | _ => none
  | .lockBuffer d =>
    match s.drains d with
    | .locking epoch t rest =>
      if (s.threads t).lock = none then
        if (s.threads t).poisoned then some (s.setDrain d (.releasing epoch t rest))
        else
          let flushed := s.flushPending t
          some ((flushed.setThread t
            { flushed.threads t with lock := some (.drain d) }).setDrain d
              (.stamping epoch t rest))
      else none
    | _ => none
  | .stampBuffer d =>
    match s.drains d with
    | .stamping epoch t rest =>
      some ((s.setThread t
        { s.threads t with flushEpoch := epoch, lock := none }).setDrain d
          (.releasing epoch t rest))
    | _ => none
  | .release d =>
    match s.drains d with
    | .releasing epoch t rest =>
      let released := (s.threads t).release d
      some ((s.setThread t released).setDrain d
        (if released.dying then .dropping epoch t rest else .visiting epoch rest))
    | _ => none
  | .dropBuffer d =>
    match s.drains d with
    | .dropping epoch t rest => some ((s.dropThread t).setDrain d (.visiting epoch rest))
    | _ => none
  | .prune d =>
    match s.drains d with
    | .visiting _ [] =>
      some { s.setDrain d .idle with
        handles := s.handles.filter fun t => 0 < (s.threads t).strongCount }
    | _ => none

end

/-- What the collector has been handed from a thread, in order. -/
def handedOf (s : State T D E) (t : T) : List E :=
  s.handed.flatMap fun batch => if batch.1 = t then batch.2 else []

end State

end Dial9.Core.Buffers
