/-
# Metadata of the attached runtimes

The flush thread tells the writer which workers each runtime has. It compares a
fingerprint of the runtimes with the one of its last call, and emits all entries anew
if that has changed. Attaching and detaching wait for a call to end; workers register
while it goes on, between any two of the locks it takes.
-/

import Dial9.Lib.Run
import Dial9.Lib.Strings
import Mathlib.Data.Finset.Sort

namespace Dial9.Tokio.Metadata

open Lib (Str)

/-- A runtime's context, by the identity of its allocation. The set of its workers is apart, as it
has a lock of its own. -/
structure RuntimeContext where
  id : Nat
  runtimeId : Nat
  runtimeName : Option Str
  deriving DecidableEq

/-- What the code is compiled for, and the rate it reads once. -/
structure Build where
  tokioUnstable : Bool
  schedWaitSampleRate : Nat

/-- A key and a value of segment metadata. -/
abbrev Entry := Str × Str

/-- The entries that never change. -/
def fixedMetadata (build : Build) : List Entry :=
  [("sched.wait_sample_rate".toList, Str.display build.schedWaitSampleRate),
    ("tokio.poll_coverage".toList,
      (if build.tokioUnstable then "all" else "dial9-spawns-only").toList),
    ("tokio.local_queue".toList, (if build.tokioUnstable then "true" else "false").toList),
    ("tokio.unstable".toList, (if build.tokioUnstable then "true" else "false").toList)]

def runtimeKey (name : Str) : Str := "runtime.".toList ++ name

/-- The ids in order, separated by commas. -/
def csv (ids : Finset Nat) : Str := [','].intercalate ((ids.sort (· ≤ ·)).map Str.display)

/-- `metadata_entry`, given the context's worker ids. -/
def metadataEntry (ctx : RuntimeContext) (ids : Finset Nat) : Option Entry :=
  match ctx.runtimeName with
  | none => none
  | some name => if ids = ∅ then none else some (runtimeKey name, csv ids)

/-- What a call has read of the runtimes: each context with the worker ids that were counted, and
the count of detached runtimes. -/
@[ext] structure Reading where
  contexts : List (RuntimeContext × Finset Nat)
  detached : Nat
  deriving DecidableEq

/-- The runtime count plus the total worker count, with the detach count. -/
def Reading.fingerprint (r : Reading) : Nat × Nat :=
  (r.contexts.length + (r.contexts.map fun entry => entry.2.card).sum, r.detached)

/-- Before the first call. -/
def Reading.initial : Reading := ⟨[], 0⟩

/-- Where a call of `segment_metadata` stands. -/
inductive Call where
  /-- None is going on. -/
  | idle
  /-- What is counted, and what is not yet. -/
  | counting (done : List (RuntimeContext × Finset Nat)) (todo : List RuntimeContext)
  /-- The contexts whose entries are not yet emitted. -/
  | emitting (todo : List RuntimeContext)
  deriving DecidableEq

structure Source where
  contexts : List RuntimeContext
  /-- Id and name of each runtime whose metrics are tracked. -/
  runtimeMetrics : List (Nat × Option Str)
  lastFingerprint : Nat × Nat
  detachedRuntimes : Nat
  fixedMetadataEmitted : Bool
  workerIds : Nat → Finset Nat
  call : Call
  /-- All entries that were emitted. -/
  out : List Entry
  /-- What the calls have read, the last of them first, for the record. -/
  readings : List Reading

inductive Event where
  | attach (ctx : RuntimeContext)
  | detach (runtimeId : Nat)
  /-- A worker registers in a context, attached or not. -/
  | register (ctx workerId : Nat)
  /-- A call begins. -/
  | flush
  /-- The call goes on to its next lock region, or compares the fingerprints. -/
  | proceed

namespace Source

/-- `TokioRuntimesSource::new`, with no worker registered in any context. -/
def new : Source := ⟨[], [], (0, 0), 0, false, fun _ => ∅, .idle, [], []⟩

/-- `register_attached_runtime`. -/
def attach (s : Source) (ctx : RuntimeContext) : Source :=
  { s with
    contexts := s.contexts ++ [ctx]
    runtimeMetrics := s.runtimeMetrics ++ [(ctx.runtimeId, ctx.runtimeName)] }

/-- `detach_runtime`. -/
def detach (s : Source) (runtimeId : Nat) : Source :=
  let metrics := s.runtimeMetrics.find? fun entry => entry.1 = runtimeId
  let context := s.contexts.find? fun ctx => ctx.runtimeId = runtimeId
  if metrics = none ∧ context = none then s
  else
    { s with
      runtimeMetrics := s.runtimeMetrics.eraseP fun entry => entry.1 = runtimeId
      contexts := s.contexts.eraseP fun ctx => ctx.runtimeId = runtimeId
      detachedRuntimes := s.detachedRuntimes + 1 }

/-- The worker id joins the context's set. -/
def register (s : Source) (ctx workerId : Nat) : Source :=
  { s with workerIds := Function.update s.workerIds ctx (insert workerId (s.workerIds ctx)) }

/-- The start of `segment_metadata`: the fixed entries, once, and then the contexts are locked. -/
def flush (build : Build) (s : Source) : Source :=
  { s with
    out := if s.fixedMetadataEmitted then s.out else s.out ++ fixedMetadata build
    fixedMetadataEmitted := true
    call := .counting [] s.contexts }

/-- What the last call has read. -/
def latest (s : Source) : Reading := s.readings.headD .initial

/-- The fingerprints are compared once all contexts are counted. -/
def compare (s : Source) (done : List (RuntimeContext × Finset Nat)) : Source :=
  let reading : Reading := ⟨done, s.detachedRuntimes⟩
  if reading.fingerprint = s.lastFingerprint then
    { s with call := .idle, readings := reading :: s.readings }
  else
    { s with
      lastFingerprint := reading.fingerprint
      call := .emitting s.contexts
      readings := reading :: s.readings }

/-- A call goes on by one region, for as long as it lasts. -/
def proceed (s : Source) : Option Source :=
  match s.call with
  | .idle => none
  | .counting done [] => some (s.compare done)
  | .counting done (ctx :: todo) =>
    some { s with call := .counting (done ++ [(ctx, s.workerIds ctx.id)]) todo }
  | .emitting [] => some { s with call := .idle }
  | .emitting (ctx :: todo) =>
    some { s with
      out := s.out ++ (metadataEntry ctx (s.workerIds ctx.id)).toList
      call := .emitting todo }

/-- Attach, detach and a new call wait for the source's lock, which a call holds to its end. -/
def step (build : Build) (s : Source) : Event → Option Source
  | .attach ctx => if s.call = .idle then some (s.attach ctx) else none
  | .detach runtimeId => if s.call = .idle then some (s.detach runtimeId) else none
  | .register ctx workerId => some (s.register ctx workerId)
  | .flush => if s.call = .idle then some (s.flush build) else none
  | .proceed => s.proceed

/-- A state of a run from the start. -/
def Reached (build : Build) (s : Source) : Prop :=
  ∃ events, Lib.run (step build) new events = some s

end Source

/-- The value of a key in the map built from the entries, the later winning. -/
def merged (out : List Entry) (key : Str) : Option Str :=
  ((out.filter fun entry => entry.1 = key).getLast?).map Prod.snd

end Dial9.Tokio.Metadata
