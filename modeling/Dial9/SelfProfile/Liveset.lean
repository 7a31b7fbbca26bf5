/-
# Sampled allocations and their frees

The allocator's hooks keep the sampled allocations that are live in a map by
address, the liveset. A free takes its entry out and queues a record; a thread that is
being torn down queues the bare address, and the consolidator looks it up later.

Calls of the hooks interleave in any way, and one operation on the map is one step.
The inner allocator hands out any address that no one owns. Which allocations are
sampled, which hooks are skipped and what the clock says is up to the run; the clock
never goes back. The record fields say which allocation a value is of, and no step of
the code reads them. Without a liveset every hook is skipped.
-/

import Mathlib.Logic.Function.Basic

namespace Dial9.SelfProfile.Liveset

/-- The size and the time of a sampled allocation. -/
structure Sample where
  size : Nat
  timestamp : Nat
  deriving DecidableEq

structure Entry where
  value : Sample
  /-- The allocation that it was inserted for, for the record. -/
  alloc : Nat
  deriving DecidableEq

structure RawFree where
  tid : Nat
  addr : Nat
  timestamp : Nat
  size : Nat
  allocTimestamp : Nat
  shutdown : Bool
  /-- The allocation that is freed, for the record. -/
  freed : Nat
  deriving DecidableEq

structure FreeEvent where
  timestamp : Nat
  tid : Nat
  addr : Nat
  size : Nat
  allocTimestamp : Nat
  /-- The allocation that was freed, for the record. -/
  freed : Nat
  deriving DecidableEq

/-- A block of the inner allocator, and the call that is at work on it. -/
structure Block where
  alloc : Nat
  call : Option Nat
  deriving DecidableEq

/-- What the old block is looked up for. -/
inductive Purpose where
  | dealloc
  | realloc (newSize timestamp : Nat)
  deriving DecidableEq

/-- What `check_shutdown` and the borrow of the thread's state allow. -/
inductive Guard where
  | shutdown
  | skip
  | peek
  deriving DecidableEq

/-- Where a call of the allocator is. -/
inductive Call where
  | idle
  /-- The inner allocator returned; about to run `on_alloc`. -/
  | allocated (alloc addr size : Nat)
  /-- Sampled; about to insert into the liveset. -/
  | inserting (alloc addr : Nat) (value : Sample)
  /-- The address was there; about to overwrite through `entry_sync`. -/
  | overwriting (alloc addr : Nat) (value : Sample)
  /-- About to check for a shutdown and peek. -/
  | freeing (addr : Nat) (purpose : Purpose)
  /-- The peek was a hit; about to remove through `entry_sync`. -/
  | taking (addr : Nat) (purpose : Purpose)
  /-- About to read the clock for a free, of a sampled allocation or in a shutdown. -/
  | stamping (addr : Nat) (taken : Option Entry)
  /-- In the inner allocator's `realloc`. -/
  | reallocating (addr newSize timestamp : Nat) (taken : Option Entry) (shutdown : Bool)
  /-- About to put the entry back. -/
  | restoring (addr : Nat) (entry : Entry)
  /-- About to queue a free, and then to go on with the new block, if there is one. -/
  | pushing (free : RawFree) (new : Option (Nat × Nat × Nat))
  /-- About to hand the block back to the inner allocator. -/
  | releasing (addr : Nat)
  deriving DecidableEq

/-- Where the consolidator is. -/
inductive Consolidator where
  | idle
  | handling (free : RawFree)
  /-- The peek found the entry, older than the free; about to remove. -/
  | removing (free : RawFree) (entry : Entry)
  deriving DecidableEq

/-- An entry that was removed by a free, for the record. -/
structure Removal where
  removed : Nat
  freed : Nat
  /-- The allocation of the entry is live. -/
  live : Bool
  deriving DecidableEq

structure Profiler where
  liveset : Nat → Option Entry
  freeQueue : List RawFree
  droppedFrees : Nat
  calls : Nat → Call
  consolidator : Consolidator
  events : List FreeEvent
  /-- What the inner allocator has handed out. -/
  blocks : Nat → Option Block
  /-- The last time read. -/
  clock : Nat
  nextAlloc : Nat
  /-- The address of an allocation, for the record. -/
  address : Nat → Nat
  /-- What was sampled of an allocation, for the record. -/
  samples : Nat → Option Sample
  /-- The allocation got into the liveset, for the record. -/
  recorded : Nat → Bool
  removals : List Removal

inductive Event where
  | alloc (call addr size : Nat)
  /-- `on_alloc`, which samples at the given time or does not sample. -/
  | onAlloc (call : Nat) (sampled : Option Nat)
  | insert (call : Nat) (shutdown : Bool)
  | overwrite (call : Nat)
  | dealloc (call addr : Nat)
  | realloc (call addr newSize timestamp : Nat)
  | enter (call : Nat) (guard : Guard)
  | take (call : Nat)
  | stamp (call tid timestamp : Nat)
  | push (call : Nat)
  | release (call : Nat)
  | reallocFailed (call : Nat)
  | restore (call : Nat) (skip : Bool)
  /-- The inner `realloc` succeeded, at the same address or another. -/
  | reallocated (call tid newAddr : Nat)
  /-- The consolidator pops a free. -/
  | pop
  /-- `handle_free` up to its comparison. -/
  | handle
  | remove
  deriving DecidableEq

namespace Profiler

def empty : Profiler where
  liveset := fun _ => none
  freeQueue := []
  droppedFrees := 0
  calls := fun _ => .idle
  consolidator := .idle
  events := []
  blocks := fun _ => none
  clock := 0
  nextAlloc := 0
  address := fun _ => 0
  samples := fun _ => none
  recorded := fun _ => false
  removals := []

def setCall (s : Profiler) (c : Nat) (call : Call) : Profiler :=
  { s with calls := Function.update s.calls c call }

/-- The call returns and its block stays. -/
def finish (s : Profiler) (c addr alloc : Nat) : Profiler :=
  { s.setCall c .idle with blocks := Function.update s.blocks addr (some ⟨alloc, none⟩) }

/-- A block of the inner allocator, with its call going on. -/
def acquire (s : Profiler) (c addr : Nat) : Profiler :=
  { s with
    blocks := Function.update s.blocks addr (some ⟨s.nextAlloc, some c⟩)
    address := Function.update s.address s.nextAlloc addr
    nextAlloc := s.nextAlloc + 1 }

def setEntry (s : Profiler) (addr alloc : Nat) (value : Sample) : Profiler :=
  { s with
    liveset := Function.update s.liveset addr (some ⟨value, alloc⟩)
    recorded := Function.update s.recorded alloc true }

/-- The entry of the address is gone, by a free of the allocation. -/
def removeEntry (s : Profiler) (addr freed : Nat) : Profiler :=
  match s.liveset addr with
  | none => s
  | some entry =>
    { s with
      liveset := Function.update s.liveset addr none
      removals :=
        s.removals ++
          [⟨entry.alloc, freed, decide ((s.blocks addr).map Block.alloc = some entry.alloc)⟩] }

/-- What comes after the lookup of the old block. -/
def looked (addr : Nat) (taken : Option Entry) : Purpose → Call
  | .dealloc =>
    match taken with
    | none => .releasing addr
    | some _ => .stamping addr taken
  | .realloc newSize timestamp => .reallocating addr newSize timestamp taken false

/-- The record of a free, with what was taken from the liveset. -/
def rawFree (tid addr timestamp freed : Nat) (taken : Option Entry) (shutdown : Bool) :
    RawFree where
  tid := tid
  addr := addr
  timestamp := timestamp
  size := (taken.map fun entry => entry.value.size).getD 0
  allocTimestamp := (taken.map fun entry => entry.value.timestamp).getD 0
  shutdown := shutdown
  freed := freed

/-- What comes after a free is queued. -/
def pushed (free : RawFree) : Option (Nat × Nat × Nat) → Call
  | none => .releasing free.addr
  | some (alloc, addr, size) => .allocated alloc addr size

/-- `push_free`. -/
def pushFree (capacity : Nat) (s : Profiler) (free : RawFree) : Profiler :=
  if s.freeQueue.length < capacity then { s with freeQueue := s.freeQueue ++ [free] }
  else { s with droppedFrees := s.droppedFrees + 1 }

def emit (s : Profiler) (free : RawFree) (size allocTimestamp : Nat) : Profiler :=
  { s with
    consolidator := .idle
    events :=
      s.events ++ [⟨free.timestamp, free.tid, free.addr, size, allocTimestamp, free.freed⟩] }

/-- A step of a call on the block it works on. -/
def stepCall (capacity : Nat) (s : Profiler) : Event → Option Profiler
  | .onAlloc c sampled =>
    match s.calls c, sampled with
    | .allocated alloc addr _, none => some (s.finish c addr alloc)
    | .allocated alloc addr size, some timestamp =>
      if s.clock ≤ timestamp then
        some
          { s.setCall c (.inserting alloc addr ⟨size, timestamp⟩) with
            clock := timestamp
            samples := Function.update s.samples alloc (some ⟨size, timestamp⟩) }
      else none
    | _, _ => none
  | .insert c shutdown =>
    match s.calls c with
    | .inserting alloc addr value =>
      some
        (if shutdown then s.finish c addr alloc
        else
          match s.liveset addr with
          | none => (s.setEntry addr alloc value).finish c addr alloc
          | some _ => s.setCall c (.overwriting alloc addr value))
    | _ => none
  | .overwrite c =>
    match s.calls c with
    | .overwriting alloc addr value => some ((s.setEntry addr alloc value).finish c addr alloc)
    | _ => none
  | .enter c guard =>
    match s.calls c with
    | .freeing addr purpose =>
      some
        (match guard, purpose with
        | .shutdown, .dealloc => s.setCall c (.stamping addr none)
        | .shutdown, .realloc newSize timestamp =>
          s.setCall c (.reallocating addr newSize timestamp none true)
        | .skip, _ => s.setCall c (looked addr none purpose)
        | .peek, _ =>
          match s.liveset addr with
          | none => s.setCall c (looked addr none purpose)
          | some _ => s.setCall c (.taking addr purpose))
    | _ => none
  | .take c =>
    match s.calls c with
    | .taking addr purpose =>
      (s.blocks addr).map fun block =>
        (s.removeEntry addr block.alloc).setCall c (looked addr (s.liveset addr) purpose)
    | _ => none
  | .stamp c tid timestamp =>
    match s.calls c with
    | .stamping addr taken =>
      if s.clock ≤ timestamp then
        (s.blocks addr).map fun block =>
          { s.setCall c
              (.pushing (rawFree tid addr timestamp block.alloc taken taken.isNone) none) with
            clock := timestamp }
      else none
    | _ => none
  | .push c =>
    match s.calls c with
    | .pushing free new =>
      some ((pushFree capacity s free).setCall c (pushed free new))
    | _ => none
  | .release c =>
    match s.calls c with
    | .releasing addr =>
      some { s.setCall c .idle with blocks := Function.update s.blocks addr none }
    | _ => none
  | .reallocFailed c =>
    match s.calls c with
    | .reallocating addr _ _ none _ =>
      (s.blocks addr).map fun block => s.finish c addr block.alloc
    | .reallocating addr _ _ (some entry) _ => some (s.setCall c (.restoring addr entry))
    | _ => none
  | .restore c skip =>
    match s.calls c with
    | .restoring addr entry =>
      (s.blocks addr).map fun block =>
        if skip ∨ s.liveset addr ≠ none then s.finish c addr block.alloc
        else
          { s.finish c addr block.alloc with
            liveset := Function.update s.liveset addr (some entry) }
    | _ => none
  | .reallocated c tid newAddr =>
    match s.calls c with
    | .reallocating addr newSize timestamp taken shutdown =>
      (s.blocks addr).bind fun block =>
        if newAddr = addr ∨ s.blocks newAddr = none then
          let released := { s with blocks := Function.update s.blocks addr none }
          some
            ((released.acquire c newAddr).setCall c
              (if shutdown ∨ taken ≠ none then
                .pushing (rawFree tid addr timestamp block.alloc taken shutdown)
                  (some (s.nextAlloc, newAddr, newSize))
              else .allocated s.nextAlloc newAddr newSize))
        else none
    | _ => none
  | _ => none

theorem stepCall_take (capacity : Nat) {s : Profiler} {c addr : Nat} {purpose : Purpose}
    {block : Block} (hcall : s.calls c = .taking addr purpose)
    (hblock : s.blocks addr = some block) :
    s.stepCall capacity (.take c) =
      some ((s.removeEntry addr block.alloc).setCall c (looked addr (s.liveset addr) purpose)) := by
  rw [stepCall, hcall]
  dsimp only
  rw [hblock, Option.map_some]

/-- A step of the consolidator. -/
def stepConsolidator (s : Profiler) : Event → Option Profiler
  | .pop =>
    match s.consolidator, s.freeQueue with
    | .idle, free :: rest => some { s with consolidator := .handling free, freeQueue := rest }
    | _, _ => none
  | .handle =>
    match s.consolidator with
    | .handling free =>
      some
        (if free.shutdown then
          match s.liveset free.addr with
          | none => { s with consolidator := .idle }
          | some entry =>
            if free.timestamp ≤ entry.value.timestamp then { s with consolidator := .idle }
            else { s with consolidator := .removing free entry }
        else s.emit free free.size free.allocTimestamp)
    | _ => none
  | .remove =>
    match s.consolidator with
    | .removing free entry =>
      some ((s.removeEntry free.addr free.freed).emit free entry.value.size entry.value.timestamp)
    | _ => none
  | _ => none

def step (capacity : Nat) (s : Profiler) : Event → Option Profiler
  | .alloc c addr size =>
    if s.calls c = .idle ∧ s.blocks addr = none then
      some ((s.acquire c addr).setCall c (.allocated s.nextAlloc addr size))
    else none
  | .dealloc c addr =>
    match s.calls c, s.blocks addr with
    | .idle, some ⟨alloc, none⟩ =>
      some
        { s.setCall c (.freeing addr .dealloc) with
          blocks := Function.update s.blocks addr (some ⟨alloc, some c⟩) }
    | _, _ => none
  | .realloc c addr newSize timestamp =>
    match s.calls c, s.blocks addr with
    | .idle, some ⟨alloc, none⟩ =>
      if s.clock ≤ timestamp then
        some
          { s.setCall c (.freeing addr (.realloc newSize timestamp)) with
            clock := timestamp
            blocks := Function.update s.blocks addr (some ⟨alloc, some c⟩) }
      else none
    | _, _ => none
  | .pop => s.stepConsolidator .pop
  | .handle => s.stepConsolidator .handle
  | .remove => s.stepConsolidator .remove
  | event => stepCall capacity s event

end Profiler

end Dial9.SelfProfile.Liveset
