/-
# Task dumps

A `TaskDumped` polls its future, and after a poll that is pending it polls it once more to
capture the stacks the task waits at. The frames stay with the wrapper until a later poll
has charged the time since then against a random budget, and emits them when the budget
is used up. The poll right after a capture does not capture, as the capture itself may
have woken the task.
-/

import Dial9.Tokio.PollSpans
import Mathlib.Data.List.Induction

namespace Dial9.Tokio.TaskDumps

open Dial9.Lib PollSpans

/-! ## Frames -/

/-- What is not in the source: `_Unwind_FindEnclosingFunction`, and the samples of the exponential
distribution, which are computed in floating point. -/
structure Host where
  enclosing : Nat → Nat
  exponential : UInt64 → Nat → Nat

/-- `trim_frames`. -/
def trimFrames (host : Host) (ips : List Nat) (rootAddr : Option Nat) (leafAddr : Nat) : List Nat :=
  let leafStart := ips.findIdx? fun ip => host.enclosing ip = leafAddr
  let rootEnd := rootAddr.bind fun root => ips.findIdx? fun ip => host.enclosing ip = root
  match leafStart, rootEnd with
  | some start, some stop => if start + 1 < stop then (ips.take stop).drop (start + 1) else ips
  | some start, none => if start + 1 < ips.length then ips.drop (start + 1) else ips
  | none, _ => ips

structure ChainMeta where
  ipStart : Nat
  rootAddr : Option Nat
  leafAddr : Option Nat
  deriving DecidableEq

structure FrameBuf where
  ips : List Nat
  chains : List ChainMeta
  deriving DecidableEq

/-- A yield point that `trace_with` reports, with the frames that are collected there. -/
structure Trace where
  ips : List Nat
  rootAddr : Option Nat
  leafAddr : Nat
  deriving DecidableEq

/-- `TaskDumpData`. -/
structure Dump where
  timestampNs : Nat
  taskId : Nat
  callchain : List Nat
  deriving DecidableEq

namespace FrameBuf

def new : FrameBuf := ⟨[], []⟩

def hasData (buf : FrameBuf) : Bool := !buf.chains.isEmpty

def push (buf : FrameBuf) (trace : Trace) : FrameBuf :=
  { ips := buf.ips ++ trace.ips
    chains := buf.chains ++ [⟨buf.ips.length, trace.rootAddr, some trace.leafAddr⟩] }

/-- The frames of a capture, which clears the buffer first. -/
def capture (traces : List Trace) : FrameBuf := traces.foldl push new

/-- The chain of frames between the root and the leaf of the `i`-th yield point. -/
def chain (host : Host) (buf : FrameBuf) (i : Nat) (chainMeta : ChainMeta) : List Nat :=
  let ipEnd := (buf.chains[i + 1]?.map ChainMeta.ipStart).getD buf.ips.length
  let raw := (buf.ips.take ipEnd).drop chainMeta.ipStart
  match chainMeta.leafAddr with
  | some leaf => trimFrames host raw chainMeta.rootAddr leaf
  | none => []

/-- The events that `emit` records. Recording may go off and on meanwhile: `on` says whether it was
on for each chain. -/
def emit (host : Host) (buf : FrameBuf) (taskId captureTs : Nat) (on : Nat → Bool) : List Dump :=
  buf.chains.zipIdx.filterMap fun entry =>
    let chain := buf.chain host entry.2 entry.1
    if chain ≠ [] ∧ on entry.2 then some ⟨captureTs, taskId, chain⟩ else none

end FrameBuf

/-- The frames of a yield point between its root and its leaf. -/
def Trace.chain (host : Host) (trace : Trace) : List Nat :=
  trimFrames host trace.ips trace.rootAddr trace.leafAddr

/-- What is to be recorded of the yield points of a capture. -/
def dumpsOf (host : Host) (taskId captureTs : Nat) (on : Nat → Bool) (traces : List Trace) :
    List Dump :=
  traces.zipIdx.filterMap fun entry =>
    if entry.1.chain host ≠ [] ∧ on entry.2 then some ⟨captureTs, taskId, entry.1.chain host⟩
    else none

/-- Where the frames of the `i`-th yield point begin. -/
def ipStart (traces : List Trace) (i : Nat) : Nat := ((traces.take i).flatMap Trace.ips).length

theorem capture_append (traces : List Trace) (trace : Trace) :
    FrameBuf.capture (traces ++ [trace]) = (FrameBuf.capture traces).push trace := by
  rw [FrameBuf.capture, List.foldl_append]
  rfl

theorem capture_ips (traces : List Trace) :
    (FrameBuf.capture traces).ips = traces.flatMap Trace.ips := by
  induction traces using List.reverseRecOn with
  | nil => rfl
  | append_singleton traces trace ih => simp [capture_append, FrameBuf.push, ih]

theorem capture_chains (traces : List Trace) :
    (FrameBuf.capture traces).chains = traces.zipIdx.map fun entry =>
      ⟨ipStart traces entry.2, entry.1.rootAddr, some entry.1.leafAddr⟩ := by
  induction traces using List.reverseRecOn with
  | nil => rfl
  | append_singleton traces trace ih =>
    have hold : ∀ entry ∈ traces.zipIdx,
        ipStart (traces ++ [trace]) entry.2 = ipStart traces entry.2 := by
      intro entry hentry
      have hlt : entry.2 < traces.length := by simpa using (List.mem_zipIdx hentry).2.1
      rw [ipStart, ipStart, List.take_append_of_le_length hlt.le]
    rw [capture_append, List.zipIdx_append, List.map_append]
    change (FrameBuf.capture traces).chains ++ [_] = _
    rw [ih]
    congr 1
    · apply List.map_congr_left
      intro entry hentry
      rw [hold entry hentry]
    · simp [ipStart, capture_ips]

theorem flatMap_take_succ {traces : List Trace} {i : Nat} {trace : Trace}
    (h : traces[i]? = some trace) :
    (traces.take (i + 1)).flatMap Trace.ips = (traces.take i).flatMap Trace.ips ++ trace.ips := by
  rw [List.take_add_one, h, List.flatMap_append]
  simp

/-- The frames of a yield point are found again by the place they begin at. -/
theorem chain_capture (host : Host) {traces : List Trace} {i : Nat} {trace : Trace}
    (h : traces[i]? = some trace) :
    (FrameBuf.capture traces).chain host i
      ⟨ipStart traces i, trace.rootAddr, some trace.leafAddr⟩ = trace.chain host := by
  have hend : (((FrameBuf.capture traces).chains[i + 1]?.map ChainMeta.ipStart).getD
      (FrameBuf.capture traces).ips.length) = ipStart traces (i + 1) := by
    rw [capture_chains, capture_ips, List.getElem?_map, List.getElem?_zipIdx]
    cases hnext : traces[i + 1]? with
    | none =>
      have hlength := List.getElem?_eq_none_iff.mp hnext
      simp [ipStart, List.take_of_length_le hlength]
    | some next => simp
  have hraw :
      ((FrameBuf.capture traces).ips.take (ipStart traces (i + 1))).drop (ipStart traces i) =
      trace.ips := by
    have hparts : traces.flatMap Trace.ips =
        (traces.take (i + 1)).flatMap Trace.ips ++ (traces.drop (i + 1)).flatMap Trace.ips := by
      rw [← List.flatMap_append, List.take_append_drop]
    rw [capture_ips, hparts, ipStart, ipStart, List.take_left, flatMap_take_succ h, List.drop_left]
  simp only [FrameBuf.chain]
  rw [hend, hraw, Trace.chain]

theorem zipIdx_map_zipIdx {β : Type} (traces : List Trace) (f : Trace × Nat → β) :
    (traces.zipIdx.map f).zipIdx = traces.zipIdx.map fun entry => (f entry, entry.2) := by
  apply List.ext_getElem?
  intro i
  rw [List.getElem?_zipIdx, List.getElem?_map, List.getElem?_map, List.getElem?_zipIdx]
  cases traces[i]? <;> simp

/-- The buffer keeps all that a capture has collected. -/
theorem emit_capture (host : Host) (taskId captureTs : Nat) (on : Nat → Bool)
    (traces : List Trace) :
    (FrameBuf.capture traces).emit host taskId captureTs on =
      dumpsOf host taskId captureTs on traces := by
  rw [FrameBuf.emit, capture_chains, zipIdx_map_zipIdx, List.filterMap_map, dumpsOf]
  apply List.filterMap_congr
  intro entry hentry
  have htrace : traces[entry.2]? = some entry.1 := List.mem_zipIdx_iff_getElem?.mp hentry
  simp only [Function.comp_apply, chain_capture host htrace]

/-! ## The sampler -/

/-- `SplitMix64::next_u64`. -/
def nextU64 (rng : UInt64) : UInt64 × UInt64 :=
  let rng := rng + 0x9e3779b97f4a7c15
  let z := (rng ^^^ (rng >>> 30)) * 0xbf58476d1ce4e5b9
  let z := (z ^^^ (z >>> 27)) * 0x94d049bb133111eb
  (z ^^^ (z >>> 31), rng)

/-- `draw_exponential`, cast to `i64`. -/
def drawExponential (host : Host) (rng : UInt64) (mean : Nat) : Int64 × UInt64 :=
  let (sample, rng) := nextU64 rng
  (Int64.ofNat (max (host.exponential sample mean) 1), rng)

/-! ## The wrapper -/

inductive Poll (α : Type) where
  | ready (value : α)
  | pending
  deriving DecidableEq

structure TaskDumpConfig where
  idleThreshold : Nat
  rngSeed : Option UInt64
  deriving DecidableEq

/-- The wrapper, without its future. -/
structure TaskDumped where
  taskId : Nat
  frames : FrameBuf
  pendingCaptureTs : Option Nat
  nextSampleNs : Int64
  sampleMeanNs : Nat
  rng : UInt64
  justCaptured : Bool
  enabled : Option Bool
  /-- The poll that the frames are of, for the record. -/
  capturedAt : Nat
  deriving DecidableEq

def TaskDumped.new (taskId : Nat) : TaskDumped :=
  ⟨taskId, .new, none, 0, 0, 0, false, none, 0⟩

/-- What a poll meets: the thread and its locals, what the recorder's state is and what the clock
says where they are read, and how the future answers. -/
structure Input (α : Type) where
  thread : Nat
  config : Option TaskDumpConfig
  seedClock : UInt64
  recording : Bool
  /-- `POLL_START_TS` and the clock at the start. -/
  startTs : Option Nat
  startClock : Nat
  first : Poll α
  emitOn : Nat → Bool
  traces : List Trace
  second : Poll α
  /-- By how much the future itself advances `LAST_TS`. -/
  nested : Nat
  /-- `POLL_START_TS` and the clock after the capture. -/
  captureTs : Option Nat
  captureClock : Nat

/-- Time since a capture that was subtracted from the counter. -/
structure Charge where
  capturedAt : Nat
  since : Nat
  till : Nat
  deriving DecidableEq

structure Emission where
  capturedAt : Nat
  on : Nat → Bool
  dumps : List Dump

structure Capture where
  traces : List Trace
  timestamp : Nat
  deriving DecidableEq

/-- What a poll did, for the record. -/
structure Turn (α : Type) where
  /-- The start of the poll, if it got as far as to need it. -/
  start : Option Nat
  /-- How the future answered, in order. -/
  inner : List (Poll α)
  result : Poll α
  charged : Option Charge
  emitted : Option Emission
  /-- The frames that the poll left behind. -/
  captured : Option Capture

/-- The last timestamp that a poll took. -/
def Turn.stamp {α : Type} (turn : Turn α) : Option Nat :=
  (turn.captured.map Capture.timestamp).or turn.start

/-- `poll_start_ts_monotonic`, given the thread's `LAST_TS`. -/
def pollStartTsMonotonic (last : Nat) (pollStartTs : Option Nat) (clock : Nat) : Nat :=
  max (last + 1) (pollStartTs.getD clock)

namespace TaskDumped

variable {α : Type}

/-- The config is read on the first poll. -/
def readConfig (host : Host) (w : TaskDumped) (input : Input α) : TaskDumped :=
  match w.enabled, input.config with
  | some _, _ => w
  | none, none => { w with enabled := some false }
  | none, some config =>
    let seed := config.rngSeed.getD
      ((UInt64.ofNat w.taskId * 0x517cc1b727220a95) ^^^ input.seedClock)
    let (next, rng) := drawExponential host seed config.idleThreshold
    { w with
      sampleMeanNs := config.idleThreshold
      rng
      nextSampleNs := next
      enabled := some true }

/-- Without task dumps, or while recording is off, the poll is only passed on. -/
def passOn (w : TaskDumped) (input : Input α) : TaskDumped × Turn α :=
  ({ w with
      justCaptured := false
      frames := .new
      pendingCaptureTs := if w.frames.hasData then none else w.pendingCaptureTs },
    ⟨none, [input.first], input.first, none, none, none⟩)

/-- The time since the capture is subtracted from the counter. -/
def charge (w : TaskDumped) (start : Nat) : TaskDumped × Option Charge :=
  match w.pendingCaptureTs with
  | some ts =>
    if w.frames.hasData then
      ({ w with nextSampleNs := w.nextSampleNs - Int64.ofNat (start - ts) },
        some ⟨w.capturedAt, ts, start⟩)
    else (w, none)
  | none => (w, none)

/-- The frames are emitted if the counter is used up, and a new interval is drawn. -/
def emit (host : Host) (w : TaskDumped) (charged : Option Charge) (on : Nat → Bool) :
    TaskDumped × Option Emission :=
  match charged with
  | some charge =>
    if w.nextSampleNs ≤ 0 then
      let (next, rng) := drawExponential host w.rng w.sampleMeanNs
      ({ w with frames := .new, nextSampleNs := next, rng },
        some ⟨w.capturedAt, on, w.frames.emit host w.taskId charge.since on⟩)
    else (w, none)
  | none => (w, none)

/-- The end of a poll, with what it has charged and emitted: the frames of a future that is done are
dropped, and one that is pending is polled again for a capture, but for right after a capture.
Returns `LAST_TS` of the thread too. -/
def settle (w : TaskDumped) (n last start : Nat) (charged : Option Charge)
    (emitted : Option Emission) (input : Input α) : TaskDumped × Nat × Turn α :=
  match input.first with
  | .ready value =>
    ({ w with frames := .new, pendingCaptureTs := none }, last,
      ⟨some start, [.ready value], .ready value, charged, emitted, none⟩)
  | .pending =>
    if w.justCaptured then
      ({ w with justCaptured := false }, last,
        ⟨some start, [.pending], .pending, charged, emitted, none⟩)
    else
      match input.second with
      | .ready value =>
        ({ w with frames := .new, pendingCaptureTs := none }, last,
          ⟨some start, [.pending, .ready value], .ready value, charged, emitted, none⟩)
      | .pending =>
        let captureTs := pollStartTsMonotonic last input.captureTs input.captureClock
        ({ w with
            frames := .capture input.traces
            justCaptured := true
            pendingCaptureTs := nonZero captureTs
            capturedAt := n },
          captureTs,
          ⟨some start, [.pending, .pending], .pending, charged, emitted,
            some ⟨input.traces, captureTs⟩⟩)

/-- `TaskDumped::poll`, the `n`-th. -/
def poll (host : Host) (w : TaskDumped) (n last : Nat) (input : Input α) :
    TaskDumped × Nat × Turn α :=
  let w := w.readConfig host input
  if w.enabled ≠ some true ∨ input.recording = false then
    let (w, turn) := w.passOn input
    (w, last + input.nested, turn)
  else
    let start := pollStartTsMonotonic last input.startTs input.startClock
    let (w, charged) := w.charge start
    let (w, emitted) := w.emit host charged input.emitOn
    w.settle n (start + input.nested) start charged emitted input

end TaskDumped

/-! ## Runs -/

/-- A wrapper and the threads it is polled on. -/
structure State (α : Type) where
  wrapper : TaskDumped
  /-- `LAST_TS` of each thread. -/
  lastTs : Nat → Nat
  /-- The last timestamp that was taken for the wrapper, and on which thread, for the record. -/
  thread : Option Nat
  latest : Nat
  turns : List (Turn α)

inductive Event (α : Type) where
  | poll (input : Input α)
  /-- Something else asks for a timestamp on the thread. -/
  | stamp (thread : Nat) (pollStartTs : Option Nat) (clock : Nat)

namespace State

variable {α : Type}

def new (taskId : Nat) : State α := ⟨.new taskId, fun _ => 0, none, 0, []⟩

/-- The future has not returned, so that it may be polled. -/
def isPending (s : State α) : Bool :=
  match s.turns.getLast? with
  | some turn =>
    match turn.result with
    | .ready _ => false
    | .pending => true
  | none => true

def step (host : Host) (s : State α) : Event α → Option (State α)
  | .poll input =>
    if s.isPending then
      let (wrapper, last, turn) :=
        s.wrapper.poll host s.turns.length (s.lastTs input.thread) input
      some
        { wrapper
          lastTs := Function.update s.lastTs input.thread last
          thread := if turn.start.isSome then some input.thread else s.thread
          latest := turn.stamp.getD s.latest
          turns := s.turns ++ [turn] }
    else none
  | .stamp thread pollStartTs clock =>
    some { s with
      lastTs := Function.update s.lastTs thread
        (pollStartTsMonotonic (s.lastTs thread) pollStartTs clock) }

end State

end Dial9.Tokio.TaskDumps
