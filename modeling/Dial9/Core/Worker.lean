/-
# The segment worker

`WorkerLoop` takes sealed segments from the disk or from the memory ring and
runs each through the stages of its pipeline, continuously or only for the
dumps that were asked for. It is one task that gives way at every await: while
it waits, the writer seals and evicts, requests come in, time passes and the
session may be stopped. This module has its loops as a state machine, one step
from each await to the next, and one step for each thing the others can do.
-/

import Dial9.Core.DiskFs
import Dial9.Core.Dump
import Mathlib.Logic.Function.Basic

namespace Dial9.Core

open Dial9.Lib

/-! ## What the worker works on -/

/-- The directory and the claim set. A file's creation and seal seconds are in
its header and its modification time. -/
structure DiskStore where
  fs : DiskFs
  files : List Nat
  /-- Every file ever sealed, newest first. -/
  sealed : List Span
  /-- Evictions that have unlinked their file and not yet dropped the claim. -/
  removing : List Nat

/-- The ring, the indices ever sealed and those evicted from it. -/
structure MemStore where
  maxTotalSize : Nat
  queue : Queue
  sealed : List Nat
  evicted : List Nat

/-- `Fs`. -/
inductive Store
  | disk (disk : DiskStore)
  | mem (mem : MemStore)

/-- `TakenSegment`. -/
inductive Taken
  | disk (index : Nat)
  | memory (slot : MemSegment)
  deriving DecidableEq

def Taken.index : Taken → Nat
  | disk index => index
  | memory slot => slot.index

/-- `take_is_exhaustive`. -/
def Store.takeIsExhaustive : Store → Bool
  | .disk _ => true
  | .mem _ => false

/-- `release_claim`. -/
def Store.releaseClaim (index : Nat) : Store → Store
  | .disk d => .disk { d with fs := d.fs.unclaim index }
  | .mem m => .mem m

/-- `release_for_retry`, of a ring slot. -/
def Store.releaseForRetry (slot : MemSegment) : Store → Store
  | .disk d => .disk d
  | .mem m => .mem { m with queue := m.queue.putBack slot }

/-- `release_unprocessed`. -/
def Store.releaseUnprocessed (store : Store) : Taken → Store
  | .disk index => store.releaseClaim index
  | .memory slot => store.releaseForRetry slot

/-- `remove_sealed`, by the worker. -/
def Store.removeSealed (index : Nat) : Store → Store
  | .disk d => .disk { d with files := d.files.erase index, fs := d.fs.unclaim index }
  | .mem m => .mem m

/-- What the ring holds, with the seconds stored with each segment. -/
def Store.ring : Store → List Span
  | .disk d => d.sealed.filter fun span => span.index ∈ d.files
  | .mem m => m.queue.segments.map fun slot => ⟨slot.index, slot.epochSecs, slot.sealSecs⟩

/-! ## Metadata and object keys -/

/-- Metadata text. -/
abbrev Text := List Char

/-- `HashMap::entry(key).or_insert(value)`. -/
def orInsert (metadata : List (Text × Text)) (pair : Text × Text) : List (Text × Text) :=
  if (metadata.lookup pair.1).isSome then metadata else metadata ++ [pair]

/-- The metadata a segment enters the pipeline with. -/
def segmentMetadata (index epochSecs : Nat) (matched : List ActiveDump) : List (Text × Text) :=
  let base := [("epoch_secs".toList, (toString epochSecs).toList),
    ("segment_index".toList, (toString index).toList)]
  if matched.isEmpty then base
  else
    (matched.flatMap fun d => d.metadata.map fun pair =>
      (("dump." ++ pair.1).toList, pair.2.toList)).foldl orInsert
        (base ++ [("dump_id".toList, [','].intercalate (matched.map fun d => d.id.display))])

/-- `dump_keys`: the keys uploaded for each open dump. -/
abbrev DumpKeys := Text → List String

/-- The S3 stage remembers an uploaded key under every dump of the segment. -/
def DumpKeys.push (keys : DumpKeys) (metadata : List (Text × Text)) (key : String) : DumpKeys :=
  match metadata.lookup "dump_id".toList with
  | none => keys
  | some ids =>
    ((ids.splitOn ',').filter fun id => !id.isEmpty).foldl
      (fun keys id => Function.update keys id (keys id ++ [key])) keys

/-- `DumpManifest`, as far as the worker's data goes. -/
structure DumpManifest where
  dumpId : DumpId
  segmentsProcessed : Nat
  segments : List String
  deriving DecidableEq

/-! ## Phases -/

/-- `TriggeredPipelineWait`, when it is not live. -/
inductive Interruption
  | deadline
  | stopped
  deriving DecidableEq

/-- `PassStats`. -/
structure PassStats where
  matchedDone : Nat
  retryDumpIds : List DumpId
  enteredPipeline : Nat
  interruption : Option Interruption
  deriving DecidableEq

def PassStats.default : PassStats := ⟨0, [], 0, none⟩

/-- `DrainResult`. -/
structure DrainResult where
  retryHold : List DumpId
  interruption : Option Interruption
  deriving DecidableEq

def DrainResult.default : DrainResult := ⟨[], none⟩

/-- Which loop takes segments: the continuous one or its drain to empty, the
drain for open dumps, or the last one before the triggered worker exits. -/
inductive Purpose
  | continuous
  | finishing
  | triggered
  | final
  deriving DecidableEq

/-- A segment in the pipeline. `matched` are positions in the vector of dumps. -/
structure Job where
  taken : Taken
  epochSecs : Nat
  sealSecs : Nat
  matched : List Nat
  dumpIds : List DumpId
  metadata : List (Text × Text)
  deriving DecidableEq

/-- What follows a resolving loop. -/
inductive After
  | again
  | check
  | close
  deriving DecidableEq

/-- Where the worker is. A pass carries the segments it has yet to come to and
what it has counted so far. -/
inductive Phase
  | top
  | draining (purpose : Purpose)
  | scanning (purpose : Purpose) (scan : Scan)
  | waiting (purpose : Purpose) (pending : List Taken) (stats : PassStats)
  | opening (purpose : Purpose) (taken : Taken) (pending : List Taken) (stats : PassStats)
  | opened (purpose : Purpose) (taken : Taken) (pending : List Taken) (stats : PassStats)
  | staged (purpose : Purpose) (job : Job) (stage : Nat) (pending : List Taken) (stats : PassStats)
  | sleeping (purpose : Purpose) (slot : MemSegment) (job : Job) (pending : List Taken)
      (stats : PassStats)
  | resolving (todo : List ActiveDump) (stage : Nat) (manifest : Option String) (after : After)
  | check
  | select
  | settled
  | parked
  | exited
  | panicked
  deriving DecidableEq

/-- The pipeline: how many stages, whether the last of them is the S3 stage, and
the creation time in a segment's header. -/
structure Pipeline where
  stages : Nat
  s3Last : Bool
  s3_stage : s3Last = true → 0 < stages
  headerSecs : Bytes → Option Nat

/-- A segment that passed every stage, for the record, with the dumps that were
open then. -/
structure Pass where
  index : Nat
  epochSecs : Nat
  sealSecs : Nat
  active : List DumpId
  key : String
  deriving DecidableEq

/-- A message on a receipt channel, and the dump it is for if it was registered. -/
structure Answer where
  id : DumpId
  message : Except DumpError DumpReceipt
  dump : Option ActiveDump

/-- `WorkerLoop` with what it shares with the other tasks. The fields from
`sent` on record what has happened, newest first. -/
structure Worker where
  pipeline : Pipeline
  store : Store
  epochCache : Nat → Option (Nat × Nat)
  dumps : List ActiveDump
  /-- The trigger channel. -/
  channel : List DumpRequest
  rxOpen : Bool
  rxClosed : Bool
  triggers : Bool
  stop : Bool
  writerDone : Bool
  now : Nat
  dumpKeys : DumpKeys
  phase : Phase
  sent : List DumpRequest
  answers : List Answer
  finalized : List (DumpId × Nat)
  manifests : List DumpManifest
  passes : List Pass
  terminal : List Nat
  reportedGone : List Nat
  resolved : List (ActiveDump × Purpose × DrainResult)

namespace Worker

def new (pipeline : Pipeline) (store : Store) (phase : Phase) : Worker where
  pipeline := pipeline
  store := store
  epochCache := fun _ => none
  dumps := []
  channel := []
  rxOpen := true
  rxClosed := false
  triggers := true
  stop := false
  writerDone := false
  now := 0
  dumpKeys := fun _ => []
  phase := phase
  sent := []
  answers := []
  finalized := []
  manifests := []
  passes := []
  terminal := []
  reportedGone := []
  resolved := []

/-- `run_triggered`, at its start. -/
def triggered (pipeline : Pipeline) (store : Store) : Worker := new pipeline store .top

/-- `run_continuous`, at its start. -/
def continuous (pipeline : Pipeline) (store : Store) : Worker :=
  new pipeline store (.draining .continuous)

/-! ## From await to await -/

/-- The end of `drain_matching`: the dumps that are done leave to be resolved. -/
def drainDone (w : Worker) (purpose : Purpose) (result : DrainResult) : Worker :=
  match purpose with
  | .triggered =>
    if result.interruption = some .deadline then
      let swept := sweep (fun d => d.due w.now) w.dumps
      { w with
        dumps := swept.2
        resolved := swept.1.map (fun d => (d, purpose, result)) ++ w.resolved
        phase := .resolving (swept.1.map .markPipelineUnavailable) 0 none .again }
    else
      let retryHold := if result.interruption = some .stopped then [] else result.retryHold
      let held := fun d : ActiveDump =>
        !retryHold.isEmpty && (!w.store.takeIsExhaustive || retryHold.contains d.id)
      let swept := sweep (fun d => d.due w.now && !held d) w.dumps
      { w with
        dumps := swept.2
        resolved := swept.1.map (fun d => (d, purpose, result)) ++ w.resolved
        phase := .resolving swept.1 0 none .check }
  | .final =>
    { w with
      dumps := []
      resolved := w.dumps.map (fun d => (d, purpose, result)) ++ w.resolved
      phase := .resolving w.dumps 0 none .close }
  | .continuous | .finishing => { w with phase := .settled }

/-- The end of `process_segments`. -/
def passDone (w : Worker) (purpose : Purpose) (stats : PassStats) : Worker :=
  match purpose with
  | .continuous => { w with phase := .settled }
  | .finishing => { w with phase := .draining .finishing }
  | _ =>
    if stats.interruption.isSome || !stats.retryDumpIds.isEmpty then
      w.drainDone purpose ⟨stats.retryDumpIds, stats.interruption⟩
    else if stats.matchedDone = 0 then w.drainDone purpose .default
    else { w with phase := .draining purpose }

/-- The start of `process_segments`. Without stages there is nothing to do. -/
def processSegments (w : Worker) (purpose : Purpose) (segments : List Taken) : Worker :=
  if w.pipeline.stages = 0 then w.passDone purpose .default
  else { w with phase := .waiting purpose segments .default }

/-- What follows a take: entries of the epoch cache go with their files, and an
empty take ends a drain. -/
def tookFiles (w : Worker) (purpose : Purpose) (segments : List Taken) : Worker :=
  match purpose with
  | .continuous => w.processSegments purpose segments
  | .finishing =>
    if segments.isEmpty then { w with phase := .exited } else w.processSegments purpose segments
  | _ =>
    let live := segments.map Taken.index
    let pruned := { w with epochCache := fun i => if i ∈ live then w.epochCache i else none }
    if segments.isEmpty then pruned.drainDone purpose .default
    else pruned.processSegments purpose segments

/-- The windows a take matches against: none in the continuous loops. -/
def takeWindows (w : Worker) : Purpose → Option (List EpochWindow)
  | .continuous | .finishing => none
  | .triggered | .final => some (w.dumps.map ActiveDump.window)

/-- The pipeline is live: the memory ring is taken from at once, the directory
is scanned. -/
def take (w : Worker) (purpose : Purpose) : Worker :=
  match w.store with
  | .disk _ => { w with phase := .scanning purpose .idle }
  | .mem m =>
    tookFiles { w with store := .mem { m with queue := m.queue.pop (w.takeWindows purpose) } }
      purpose ((m.queue.next (w.takeWindows purpose)).toList.map .memory)

/-- Readiness was interrupted before a segment entered the pipeline: it and all
that are still pending go back. -/
def interrupt (w : Worker) (purpose : Purpose) (pending : List Taken) (stats : PassStats)
    (interruption : Interruption) : Worker :=
  passDone { w with store := pending.foldl Store.releaseUnprocessed w.store } purpose
    { stats with interruption := some interruption }

/-- The cached-epoch fast path: seen before, and outside every window. -/
def outsideCached (w : Worker) (taken : Taken) : Bool :=
  !w.dumps.isEmpty && (w.epochCache taken.index).any fun epochs =>
    !w.dumps.any fun d => d.window.overlaps epochs.1 epochs.2

def forget (w : Worker) (index : Nat) : Worker :=
  { w with epochCache := Function.update w.epochCache index none }

/-- The epochs of a loaded segment are known: one outside every window is left in
place, the others enter the pipeline. -/
def inspect (w : Worker) (purpose : Purpose) (taken : Taken) (epochSecs sealSecs : Nat)
    (pending : List Taken) (stats : PassStats) : Worker :=
  let matched := matchedDumps w.dumps epochSecs sealSecs
  if !w.dumps.isEmpty && matched.isEmpty then
    match taken with
    | .disk index =>
      { w with
        epochCache := Function.update w.epochCache index (some (epochSecs, sealSecs))
        store := w.store.releaseClaim index
        phase := .waiting purpose pending stats }
    | .memory slot =>
      { w with
        store := w.store.releaseForRetry { slot with epochSecs, sealSecs }
        phase := .waiting purpose pending stats }
  else
    let dumps := matched.filterMap fun i => w.dumps[i]?
    { w with
      phase := .staged purpose
        { taken, epochSecs, sealSecs, matched
          dumpIds := dumps.map ActiveDump.id
          metadata := segmentMetadata taken.index epochSecs dumps }
        0 pending { stats with enteredPipeline := stats.enteredPipeline + 1 } }

/-- A segment of some dump has come to its end. -/
def doneFor (stats : PassStats) (job : Job) : PassStats :=
  if job.matched.isEmpty then stats else { stats with matchedDone := stats.matchedDone + 1 }

/-- A segment has passed its last stage. The S3 stage has kept its key. -/
def succeed (w : Worker) (purpose : Purpose) (job : Job) (key : String) (pending : List Taken)
    (stats : PassStats) : Worker :=
  { w.forget job.taken.index with
    dumps := countMatched w.dumps job.matched job.epochSecs job.sealSecs
    dumpKeys := if w.pipeline.s3Last then w.dumpKeys.push job.metadata key else w.dumpKeys
    passes := ⟨job.taken.index, job.epochSecs, job.sealSecs, w.dumps.map ActiveDump.id, key⟩ ::
      w.passes
    phase := .waiting purpose pending (doneFor stats job) }

/-- A terminal failure, for the dumps the segment belongs to. -/
def failDumps (w : Worker) (job : Job) (kind : ProcessErrorKind) : Worker :=
  { w with
    dumps := if job.matched.isEmpty then w.dumps else recordDumpError w.dumps job.matched kind
    terminal := job.taken.index :: w.terminal }

/-- A stage failed for good, or panicked: the segment is removed. -/
def remove (w : Worker) (purpose : Purpose) (job : Job) (kind : ProcessErrorKind)
    (pending : List Taken) (stats : PassStats) : Worker :=
  { (w.forget job.taken.index).failDumps job kind with
    store := w.store.removeSealed job.taken.index
    phase := .waiting purpose pending (doneFor stats job) }

/-- The error exits of the stage loop. -/
def stageFailed (w : Worker) (purpose : Purpose) (job : Job) (kind : ProcessErrorKind)
    (pending : List Taken) (stats : PassStats) : Worker :=
  if kind.alreadyDeleted then
    { w.forget job.taken.index with
      reportedGone := job.taken.index :: w.reportedGone
      phase := .waiting purpose pending (doneFor stats job) }
  else if kind.retryable then
    match job.taken with
    | .memory slot =>
      if slot.retryCount + 1 > memoryRetryBudget then
        { w.failDumps job kind with phase := .waiting purpose pending (doneFor stats job) }
      else { w with phase := .sleeping purpose slot job pending stats }
    | .disk index =>
      { w with
        store := w.store.releaseClaim index
        phase := .waiting purpose pending
          { stats with retryDumpIds := stats.retryDumpIds ++ job.dumpIds } }
  else w.remove purpose job kind pending stats

/-- The back-off is over and the slot goes back to the ring. -/
def retry (w : Worker) (purpose : Purpose) (slot : MemSegment) (job : Job) (pending : List Taken)
    (stats : PassStats) : Worker :=
  { w with
    store := w.store.releaseForRetry
      { slot with
        retryCount := slot.retryCount + 1
        epochSecs := job.epochSecs
        sealSecs := job.sealSecs }
    phase := .waiting purpose pending
      { stats with retryDumpIds := stats.retryDumpIds ++ job.dumpIds } }

/-! ## Resolving -/

/-- `finalize_dump` of one stage: a key it returned, nothing, or a panic. The S3
stage, which comes last, takes the dump's keys, and writes them unless the dump
failed or the write did. -/
def finalizeStage (w : Worker) (dump : ActiveDump) (stage : Nat) (written : Option String) :
    Worker × Option String :=
  let logged := { w with finalized := (dump.id, stage) :: w.finalized }
  if w.pipeline.s3Last && stage + 1 == w.pipeline.stages then
    let id := dump.id.display
    let taken := { logged with dumpKeys := Function.update w.dumpKeys id [] }
    if dump.completion.failed then (taken, none)
    else if written.isSome then
      ({ taken with
          manifests := ⟨dump.id, dump.completion.segmentsProcessed, w.dumpKeys id⟩ :: w.manifests },
        written)
    else (taken, none)
  else (logged, written)

/-- The receipt is sent. -/
def sendReceipt (w : Worker) (dump : ActiveDump) (todo : List ActiveDump) (finishedAt : Int)
    (manifest : Option String) (after : After) : Worker :=
  match dump.intoResult finishedAt manifest with
  | some message =>
    { w with
      answers := ⟨dump.id, message, some dump⟩ :: w.answers
      phase := .resolving todo 0 none after }
  | none => { w with phase := .panicked }

/-- A request that gets no dump. -/
def refuse (w : Worker) (req : DumpRequest) (error : DumpError) : Worker :=
  { w with answers := ⟨req.id, .error error, none⟩ :: w.answers }

/-- All dumps of a resolving loop are answered. The last one closes the channel
and refuses what is still in it. -/
def resolvedAll (w : Worker) : After → Worker
  | .again => { w with phase := .top }
  | .check => { w with phase := .check }
  | .close =>
    { w with
      answers := (w.channel.map fun req => ⟨req.id, .error .workerStopped, none⟩).reverse ++
        w.answers
      channel := []
      rxClosed := true
      phase := .exited }

/-- `stop.is_cancelled() || writer_done()`. -/
def ending (w : Worker) : Bool := w.stop || w.writerDone

end Worker

/-! ## Steps -/

/-- What `TakenSegment::load` comes to. -/
inductive LoadOutcome
  | loaded
  | notFound
  | failed
  deriving DecidableEq

/-- What one stage's `process` comes to, with the key of an upload. -/
inductive StageOutcome
  | passed (key : String)
  | failed (kind : ProcessErrorKind)
  | panicked (message : String)
  deriving DecidableEq

/-- The first group is what the writer, the triggers and the session do, the
second what the worker's awaits and system calls come to. -/
inductive WorkerEvent
  | sealFile (span : Span)
  | sealSlot (slot : MemSegment)
  | evictUnlink (index : Nat)
  | evictDropClaim (index : Nat)
  | send (req : DumpRequest)
  | dropTriggers
  | cancel
  | finishWriting
  | tick (now : Nat)
  | proceed
  | ready
  | interrupted (interruption : Interruption)
  | reject
  | channelClosed
  | list
  | listFailed
  | readClaims
  | recordClaims (sizeOf : Nat → Nat)
  | load (outcome : LoadOutcome)
  | inspected (epochSecs sealSecs : Nat)
  | stage (outcome : StageOutcome)
  | retry
  | finalize (written : Option String)
  | receipt (finishedAt : Int)
  | receive (elapsed : Nat)
  | wake

variable {w next : Worker} {purpose : Purpose} {e : WorkerEvent}

variable {pending : List Taken} {stats : PassStats}

namespace Worker

/-- The writer seals a segment under a new index. -/
def sealDisk (d : DiskStore) (span : Span) : Option DiskStore :=
  if d.sealed.all fun old => old.index < span.index then
    some { d with files := d.files ++ [span.index], sealed := span :: d.sealed }
  else none

/-- In memory a slot's creation time is its header's, where it has one. -/
def sealMem (pipeline : Pipeline) (m : MemStore) (slot : MemSegment) : Option MemStore :=
  if (m.sealed.all fun i => i < slot.index) && slot.retryCount == 0 &&
      (pipeline.headerSecs slot.bytes).all fun secs => secs == slot.epochSecs then
    some { m with
      queue := m.queue.push m.maxTotalSize slot
      sealed := slot.index :: m.sealed
      evicted := (m.queue.evicted m.maxTotalSize slot.size).map MemSegment.index ++ m.evicted }
  else none

/-- The epochs the worker computes for a loaded segment: a file's while it is
there, a slot's seal time, and the creation time in a slot's header. -/
def epochsKnown (w : Worker) (taken : Taken) (epochSecs sealSecs : Nat) : Bool :=
  match w.store, taken with
  | .disk d, .disk index =>
    index ∉ d.files || d.sealed.contains ⟨index, epochSecs, sealSecs⟩
  | .mem _, .memory slot =>
    sealSecs == slot.sealSecs &&
      (w.pipeline.headerSecs slot.bytes).all fun secs => secs == epochSecs
  | _, _ => false

/-- Whether a load can come out this way: a file that is there is found. -/
def loadable (w : Worker) (taken : Taken) (outcome : LoadOutcome) : Bool :=
  match w.store, taken, outcome with
  | .disk d, .disk index, .loaded => index ∈ d.files
  | .disk d, .disk index, .notFound => index ∉ d.files
  | .disk _, .disk _, .failed => true
  | .mem _, .memory _, .loaded => true
  | _, _, _ => false

/-- A wait for readiness may end early: at the first deadline, or at the stop. -/
def mayInterrupt (w : Worker) (purpose : Purpose) : Interruption → Bool
  | .deadline =>
    (purpose == .triggered || purpose == .final) &&
      w.dumps.any fun d => d.deadline.any fun deadline => deadline ≤ w.now
  | .stopped => w.stop

/-- What the others do. -/
def outside (w : Worker) : WorkerEvent → Option Worker
  | .sealFile span =>
    match w.store with
    | .disk d => (sealDisk d span).map fun d => { w with store := .disk d }
    | .mem _ => none
  | .sealSlot slot =>
    match w.store with
    | .mem m => (sealMem w.pipeline m slot).map fun m => { w with store := .mem m }
    | .disk _ => none
  | .evictUnlink index =>
    match w.store with
    | .disk d =>
      if d.sealed.any fun span => span.index == index then
        some { w with
          store := .disk { d with
            files := d.files.erase index
            removing := index :: d.removing } }
      else none
    | .mem _ => none
  | .evictDropClaim index =>
    match w.store with
    | .disk d =>
      if index ∈ d.removing then
        some { w with
          store := .disk { d with
            fs := { d.fs.unclaim index with dropped := d.fs.dropped + 1 }
            removing := d.removing.erase index } }
      else none
    | .mem _ => none
  | .send req =>
    if !w.rxClosed && w.triggers && !(w.sent.map DumpRequest.id).contains req.id then
      some { w with channel := w.channel ++ [req], sent := req :: w.sent }
    else none
  | .dropTriggers => some { w with triggers := false }
  | .cancel => some { w with stop := true }
  | .finishWriting => some { w with writerDone := true }
  | .tick now => if w.now ≤ now then some { w with now := now } else none
  | _ => none

/-- A request that comes in while the worker waits for readiness is refused. -/
def whileWaiting (w : Worker) : WorkerEvent → Option Worker
  | .reject =>
    match w.channel with
    | req :: rest =>
      if w.rxOpen then some { w.refuse req .pipelineUnavailable with channel := rest } else none
    | [] => none
  | .channelClosed =>
    if w.rxOpen && w.channel.isEmpty && !w.triggers then some { w with rxOpen := false } else none
  | _ => none

/-- The steps of a directory scan. -/
def scanStep (w : Worker) (purpose : Purpose) (scan : Scan) (d : DiskStore) :
    WorkerEvent → Option Worker
  | .list =>
    match scan with
    | .idle => some { w with phase := .scanning purpose (.listed d.files) }
    | _ => none
  | .listFailed =>
    match scan with
    | .idle =>
      some (tookFiles { w with store := .disk { d with fs := { d.fs with dropped := 0 } } }
        purpose [])
    | _ => none
  | .readClaims =>
    match scan with
    | .listed onDisk =>
      some { w with
        phase := .scanning purpose
          (.chosen onDisk (DiskFs.newSegments onDisk d.fs.claimedIndices)) }
    | _ => none
  | .recordClaims sizeOf =>
    match scan with
    | .chosen onDisk segments =>
      some (tookFiles
        { w with store := .disk { d with fs := d.fs.recordClaims onDisk segments sizeOf } }
        purpose (segments.map .disk))
    | _ => none
  | _ => none

/-- The loops that match segments against dumps. -/
def forDumps : Purpose → Bool
  | .triggered | .final => true
  | .continuous | .finishing => false

/-- Waiting for the pipeline before a take. Without a dump there is nothing to
drain for. -/
def drainStep (w : Worker) (purpose : Purpose) (e : WorkerEvent) : Option Worker :=
  if forDumps purpose && w.dumps.isEmpty then
    match e with
    | .proceed => some (w.drainDone purpose .default)
    | _ => none
  else
    match e with
    | .ready => some (w.take purpose)
    | .interrupted interruption =>
      if w.mayInterrupt purpose interruption then
        some (if forDumps purpose then w.drainDone purpose ⟨[], some interruption⟩
          else { w with phase := .exited })
      else none
    | e => if forDumps purpose then w.whileWaiting e else none

/-- Waiting for the pipeline before the next segment of a pass. -/
def waitStep (w : Worker) (purpose : Purpose) (pending : List Taken) (stats : PassStats) :
    WorkerEvent → Option Worker
  | .proceed => if pending.isEmpty then some (w.passDone purpose stats) else none
  | .ready =>
    match pending with
    | taken :: rest => some { w with phase := .opening purpose taken rest stats }
    | [] => none
  | .interrupted interruption =>
    if !pending.isEmpty && w.mayInterrupt purpose interruption then
      some (w.interrupt purpose pending stats interruption)
    else none
  | e => if forDumps purpose && !pending.isEmpty then w.whileWaiting e else none

/-- The pipeline is live: the cached epochs, or the segment's bytes. -/
def openStep (w : Worker) (purpose : Purpose) (taken : Taken) (pending : List Taken)
    (stats : PassStats) : WorkerEvent → Option Worker
  | .proceed =>
    if w.outsideCached taken then
      some { w with
        store := w.store.releaseClaim taken.index
        phase := .waiting purpose pending stats }
    else none
  | .load outcome =>
    if !w.outsideCached taken && w.loadable taken outcome then
      some { w with
        phase :=
          if outcome = .loaded then .opened purpose taken pending stats
          else .waiting purpose pending stats }
    else none
  | _ => none

/-- A segment in the stage loop. -/
def stageStep (w : Worker) (purpose : Purpose) (job : Job) (stage : Nat) (pending : List Taken)
    (stats : PassStats) : WorkerEvent → Option Worker
  | .stage (.passed key) =>
    some (if stage + 1 < w.pipeline.stages then
        { w with phase := .staged purpose job (stage + 1) pending stats }
      else w.succeed purpose job key pending stats)
  | .stage (.failed kind) => some (w.stageFailed purpose job kind pending stats)
  | .stage (.panicked message) =>
    some (w.remove purpose job (.io false ("processor panicked: " ++ message)) pending stats)
  | _ => none

/-- `resolve_dump` of the first dump to do. -/
def resolveStep (w : Worker) (todo : List ActiveDump) (stage : Nat) (manifest : Option String)
    (after : After) : WorkerEvent → Option Worker
  | .proceed => if todo.isEmpty then some (w.resolvedAll after) else none
  | .finalize written =>
    match todo with
    | dump :: _ =>
      if stage < w.pipeline.stages then
        some { (w.finalizeStage dump stage written).1 with
          phase := .resolving todo (stage + 1)
            ((w.finalizeStage dump stage written).2.or manifest) after }
      else none
    | [] => none
  | .receipt finishedAt =>
    match todo with
    | dump :: rest =>
      if stage < w.pipeline.stages then none
      else some (w.sendReceipt dump rest finishedAt manifest after)
    | [] => none
  | _ => none

/-- The select between drains. -/
def selectStep (w : Worker) : WorkerEvent → Option Worker
  | .receive elapsed =>
    match w.channel with
    | req :: rest =>
      if w.rxOpen then
        some (match ActiveDump.register req w.now elapsed w.store.ring with
          | some dump => { w with channel := rest, dumps := w.dumps ++ [dump], phase := .top }
          -- The requests and the open dumps go with the worker: they are kept for the record.
          | none => { w with rxClosed := true, phase := .panicked })
      else none
    | [] => none
  | .channelClosed =>
    if w.rxOpen && w.channel.isEmpty && !w.triggers then
      some { w with rxOpen := false, phase := .top }
    else none
  | .wake => if w.stop || !w.dumps.isEmpty then some { w with phase := .top } else none
  | _ => none

/-- What the worker does, by its phase. -/
def inside (w : Worker) (e : WorkerEvent) : Option Worker :=
  match w.phase with
  | .top =>
    match e with
    | .proceed =>
      some { w with phase := if w.dumps.isEmpty then .check else .draining .triggered }
    | _ => none
  | .draining purpose => w.drainStep purpose e
  | .scanning purpose scan =>
    match w.store with
    | .disk d => w.scanStep purpose scan d e
    | .mem _ => none
  | .waiting purpose pending stats => w.waitStep purpose pending stats e
  | .opening purpose taken pending stats => w.openStep purpose taken pending stats e
  | .opened purpose taken pending stats =>
    match e with
    | .inspected epochSecs sealSecs =>
      if w.epochsKnown taken epochSecs sealSecs then
        some (w.inspect purpose taken epochSecs sealSecs pending stats)
      else none
    | _ => none
  | .staged purpose job stage pending stats => w.stageStep purpose job stage pending stats e
  | .sleeping purpose slot job pending stats =>
    match e with
    | .retry => some (w.retry purpose slot job pending stats)
    | _ => none
  | .resolving todo stage manifest after => w.resolveStep todo stage manifest after e
  | .check =>
    match e with
    | .proceed => some { w with phase := if w.ending then .draining .final else .select }
    | _ => none
  | .select => w.selectStep e
  | .settled =>
    match e with
    | .proceed => some { w with phase := if w.ending then .draining .finishing else .parked }
    | _ => none
  | .parked =>
    match e with
    | .wake => some { w with phase := .draining .continuous }
    | _ => none
  | .exited | .panicked => none

def step (w : Worker) (e : WorkerEvent) : Option Worker := (w.outside e).or (w.inside e)

/-! ## What a step can do -/

/-- Phases with nothing in hand and nothing to resolve. -/
inductive Resting : Phase → Prop
  | top : Resting .top
  | draining (purpose : Purpose) : Resting (.draining purpose)
  | scanning (purpose : Purpose) (scan : Scan) : Resting (.scanning purpose scan)
  | check : Resting .check
  | select : Resting .select
  | settled : Resting .settled
  | parked : Resting .parked
  | exited : Resting .exited

/-- The phases of a triggered worker. -/
def inTriggered : Phase → Bool
  | .draining purpose | .scanning purpose _ | .waiting purpose _ _ | .opening purpose _ _ _
  | .opened purpose _ _ _ | .staged purpose _ _ _ _ | .sleeping purpose _ _ _ _ => forDumps purpose
  | .settled | .parked => false
  | .top | .resolving _ _ _ _ | .check | .select | .exited | .panicked => true

/-- Every move of the worker's own, by what it does. -/
inductive Move (w : Worker) : WorkerEvent → Worker → Prop
  | turn {e : WorkerEvent} {phase : Phase} (rxOpen : Bool) (hfrom : Resting w.phase)
      (hto : Resting phase) (hscan : ∀ purpose scan, phase = .scanning purpose scan → scan = .idle)
      (hmode : inTriggered w.phase = true → inTriggered phase = true ∧ phase ≠ .exited) :
      Move w e { w with rxOpen, phase }
  | drained {e : WorkerEvent} {purpose : Purpose} (result : DrainResult)
      (hphase : w.phase = .draining purpose) (hpurpose : forDumps purpose = true)
      (hresult : result.interruption = none → w.dumps = [] ∧ result = .default) :
      Move w e (w.drainDone purpose result)
  | tookMem {purpose : Purpose} {m : MemStore} (hphase : w.phase = .draining purpose)
      (hstore : w.store = .mem m) :
      Move w .ready
        (tookFiles { w with store := .mem { m with queue := m.queue.pop (w.takeWindows purpose) } }
          purpose ((m.queue.next (w.takeWindows purpose)).toList.map .memory))
  | listed {purpose : Purpose} {d : DiskStore} (hphase : w.phase = .scanning purpose .idle)
      (hstore : w.store = .disk d) :
      Move w .list { w with phase := .scanning purpose (.listed d.files) }
  | listFailed {purpose : Purpose} {d : DiskStore} (hphase : w.phase = .scanning purpose .idle)
      (hstore : w.store = .disk d) :
      Move w .listFailed
        (tookFiles { w with store := .disk { d with fs := { d.fs with dropped := 0 } } } purpose [])
  | readClaims {purpose : Purpose} {d : DiskStore} {onDisk : List Nat}
      (hphase : w.phase = .scanning purpose (.listed onDisk)) (hstore : w.store = .disk d) :
      Move w .readClaims
        { w with
          phase := .scanning purpose
            (.chosen onDisk (DiskFs.newSegments onDisk d.fs.claimedIndices)) }
  | tookDisk {purpose : Purpose} {d : DiskStore} {onDisk segments : List Nat} (sizeOf : Nat → Nat)
      (hphase : w.phase = .scanning purpose (.chosen onDisk segments))
      (hstore : w.store = .disk d) :
      Move w (.recordClaims sizeOf)
        (tookFiles
          { w with store := .disk { d with fs := d.fs.recordClaims onDisk segments sizeOf } }
          purpose (segments.map .disk))
  | passed {purpose : Purpose} {stats : PassStats} (hphase : w.phase = .waiting purpose [] stats) :
      Move w .proceed (w.passDone purpose stats)
  | opens {purpose : Purpose} {taken : Taken} {pending : List Taken} {stats : PassStats}
      (hphase : w.phase = .waiting purpose (taken :: pending) stats) :
      Move w .ready { w with phase := .opening purpose taken pending stats }
  | interrupts {purpose : Purpose} {pending : List Taken} {stats : PassStats}
      (interruption : Interruption) (hphase : w.phase = .waiting purpose pending stats) :
      Move w (.interrupted interruption) (w.interrupt purpose pending stats interruption)
  | rejects {req : DumpRequest} {rest : List DumpRequest} (hchannel : w.channel = req :: rest)
      (hphase : (∃ purpose, w.phase = .draining purpose) ∨
        ∃ purpose pending stats, w.phase = .waiting purpose pending stats) :
      Move w .reject { w.refuse req .pipelineUnavailable with channel := rest }
  | hangsUp (hphase : ∃ purpose pending stats, w.phase = .waiting purpose pending stats) :
      Move w .channelClosed { w with rxOpen := false }
  | skips {purpose : Purpose} {taken : Taken} {pending : List Taken} {stats : PassStats}
      (hphase : w.phase = .opening purpose taken pending stats)
      (houtside : w.outsideCached taken = true) :
      Move w .proceed
        { w with
          store := w.store.releaseClaim taken.index
          phase := .waiting purpose pending stats }
  | loads {purpose : Purpose} {taken : Taken} {pending : List Taken} {stats : PassStats}
      (hphase : w.phase = .opening purpose taken pending stats)
      (hload : w.loadable taken .loaded = true) :
      Move w (.load .loaded) { w with phase := .opened purpose taken pending stats }
  | misses {purpose : Purpose} {taken : Taken} {pending : List Taken} {stats : PassStats}
      {outcome : LoadOutcome} (hphase : w.phase = .opening purpose taken pending stats)
      (hload : w.loadable taken outcome = true) (houtcome : outcome ≠ .loaded) :
      Move w (.load outcome) { w with phase := .waiting purpose pending stats }
  | inspects {purpose : Purpose} {taken : Taken} {pending : List Taken} {stats : PassStats}
      {epochSecs sealSecs : Nat} (hphase : w.phase = .opened purpose taken pending stats)
      (hepochs : w.epochsKnown taken epochSecs sealSecs = true) :
      Move w (.inspected epochSecs sealSecs)
        (w.inspect purpose taken epochSecs sealSecs pending stats)
  | nextStage {purpose : Purpose} {job : Job} {stage : Nat} {pending : List Taken}
      {stats : PassStats} (key : String)
      (hphase : w.phase = .staged purpose job stage pending stats)
      (hstage : stage + 1 < w.pipeline.stages) :
      Move w (.stage (.passed key))
        { w with phase := .staged purpose job (stage + 1) pending stats }
  | succeeds {purpose : Purpose} {job : Job} {stage : Nat} {pending : List Taken}
      {stats : PassStats} (key : String)
      (hphase : w.phase = .staged purpose job stage pending stats)
      (hstage : w.pipeline.stages ≤ stage + 1) :
      Move w (.stage (.passed key)) (w.succeed purpose job key pending stats)
  | fails {purpose : Purpose} {job : Job} {stage : Nat} {pending : List Taken}
      {stats : PassStats} (kind : ProcessErrorKind)
      (hphase : w.phase = .staged purpose job stage pending stats) :
      Move w (.stage (.failed kind)) (w.stageFailed purpose job kind pending stats)
  | panics {purpose : Purpose} {job : Job} {stage : Nat} {pending : List Taken}
      {stats : PassStats} (message : String)
      (hphase : w.phase = .staged purpose job stage pending stats) :
      Move w (.stage (.panicked message))
        (w.remove purpose job (.io false ("processor panicked: " ++ message)) pending stats)
  | retries {purpose : Purpose} {slot : MemSegment} {job : Job} {pending : List Taken}
      {stats : PassStats} (hphase : w.phase = .sleeping purpose slot job pending stats) :
      Move w .retry (w.retry purpose slot job pending stats)
  | resolvedAll {stage : Nat} {manifest : Option String} {after : After}
      (hphase : w.phase = .resolving [] stage manifest after) :
      Move w .proceed (w.resolvedAll after)
  | finalizes {dump : ActiveDump} {todo : List ActiveDump} {stage : Nat}
      {manifest : Option String} {after : After} (written : Option String)
      (hphase : w.phase = .resolving (dump :: todo) stage manifest after)
      (hstage : stage < w.pipeline.stages) :
      Move w (.finalize written)
        { (w.finalizeStage dump stage written).1 with
          phase := .resolving (dump :: todo) (stage + 1)
            ((w.finalizeStage dump stage written).2.or manifest) after }
  | answers {dump : ActiveDump} {todo : List ActiveDump} {stage : Nat}
      {manifest : Option String} {after : After} (finishedAt : Int)
      (hphase : w.phase = .resolving (dump :: todo) stage manifest after)
      (hstage : w.pipeline.stages ≤ stage) :
      Move w (.receipt finishedAt) (w.sendReceipt dump todo finishedAt manifest after)
  | registers {req : DumpRequest} {rest : List DumpRequest} (elapsed : Nat)
      (hphase : w.phase = .select) (hchannel : w.channel = req :: rest) :
      Move w (.receive elapsed)
        { w with
          channel := rest
          dumps := w.dumps ++ [.registered req w.now elapsed w.store.ring]
          phase := .top }
  | dies {req : DumpRequest} {elapsed : Nat} (hphase : w.phase = .select)
      (hchannel : req ∈ w.channel.head?) (hpast : ¬ req.Anchored w.now elapsed) :
      Move w (.receive elapsed) { w with rxClosed := true, phase := .panicked }

theorem move_of_drainStep (hphase : w.phase = .draining purpose)
    (h : w.drainStep purpose e = some next) :
    Move w e next := by
  have hresting : Resting w.phase := by
    rw [hphase]
    exact .draining purpose
  unfold drainStep at h
  split at h
  · rename_i hempty
    simp only [Bool.and_eq_true, List.isEmpty_iff] at hempty
    split at h
    · cases h
      exact .drained _ hphase hempty.1 fun _ => ⟨hempty.2, rfl⟩
    · cases h
  · split at h
    · cases h
      unfold take
      split
      · exact .turn w.rxOpen hresting (.scanning purpose .idle)
          (fun _ _ hscan => (Phase.scanning.inj hscan).2.symm)
          (fun hmode => ⟨by rwa [hphase] at hmode, by simp⟩)
      · exact .tookMem hphase ‹_›
    · split at h
      · cases h
        split
        · rename_i hpurpose
          exact .drained _ hphase hpurpose fun hnone => by cases hnone
        · rename_i hpurpose
          refine .turn w.rxOpen hresting .exited (by simp) ?_
          intro hmode
          rw [hphase] at hmode
          exact absurd hmode hpurpose
      · cases h
    · split at h
      · unfold whileWaiting at h
        split at h
        · split at h
          · rename_i req rest hchannel
            split at h
            · cases h
              exact .rejects hchannel (.inl ⟨purpose, hphase⟩)
            · cases h
          · cases h
        · split at h
          · cases h
            exact @Move.turn w _ w.phase false hresting hresting (by simp [hphase])
              fun hmode => ⟨hmode, by simp [hphase]⟩
          · cases h
        · cases h
      · cases h

theorem move_of_waitStep (hphase : w.phase = .waiting purpose pending stats)
    (h : w.waitStep purpose pending stats e = some next) : Move w e next := by
  unfold waitStep at h
  split at h
  · split at h
    · rename_i hempty
      rw [List.isEmpty_iff] at hempty
      cases h
      exact .passed (hempty ▸ hphase)
    · cases h
  · split at h
    · cases h
      exact .opens hphase
    · cases h
  · split at h
    · cases h
      exact .interrupts _ hphase
    · cases h
  · split at h
    · unfold whileWaiting at h
      split at h
      · split at h
        · rename_i req rest hchannel
          split at h
          · cases h
            exact .rejects hchannel (.inr ⟨purpose, pending, stats, hphase⟩)
          · cases h
        · cases h
      · split at h
        · cases h
          exact .hangsUp ⟨purpose, pending, stats, hphase⟩
        · cases h
      · cases h
    · cases h

theorem move_of_scanStep {scan : Scan} {d : DiskStore} (hphase : w.phase = .scanning purpose scan)
    (hstore : w.store = .disk d) (h : w.scanStep purpose scan d e = some next) : Move w e next := by
  unfold scanStep at h
  split at h
  · split at h
    · cases h
      exact .listed hphase hstore
    · cases h
  · split at h
    · cases h
      exact .listFailed hphase hstore
    · cases h
  · split at h
    · cases h
      exact .readClaims hphase hstore
    · cases h
  · split at h
    · cases h
      exact .tookDisk _ hphase hstore
    · cases h
  · cases h

theorem move_of_openStep {taken : Taken} (hphase : w.phase = .opening purpose taken pending stats)
    (h : w.openStep purpose taken pending stats e = some next) : Move w e next := by
  unfold openStep at h
  split at h
  · split at h
    · cases h
      exact .skips hphase ‹_›
    · cases h
  · split at h
    · rename_i outcome hload
      simp only [Bool.and_eq_true] at hload
      cases h
      split
      · rename_i hloaded
        subst hloaded
        exact .loads hphase hload.2
      · rename_i houtcome
        exact .misses hphase hload.2 houtcome
    · cases h
  · cases h

theorem move_of_stageStep {job : Job} {stage : Nat}
    (hphase : w.phase = .staged purpose job stage pending stats)
    (h : w.stageStep purpose job stage pending stats e = some next) : Move w e next := by
  unfold stageStep at h
  split at h
  · cases h
    split
    · exact .nextStage _ hphase ‹_›
    · exact .succeeds _ hphase (Nat.le_of_not_lt ‹_›)
  · cases h
    exact .fails _ hphase
  · cases h
    exact .panics _ hphase
  · cases h

theorem move_of_resolveStep {todo : List ActiveDump} {stage : Nat} {manifest : Option String}
    {after : After} (hphase : w.phase = .resolving todo stage manifest after)
    (h : w.resolveStep todo stage manifest after e = some next) : Move w e next := by
  unfold resolveStep at h
  split at h
  · split at h
    · rename_i hempty
      rw [List.isEmpty_iff] at hempty
      cases h
      exact .resolvedAll (hempty ▸ hphase)
    · cases h
  · split at h
    · split at h
      · cases h
        exact .finalizes _ hphase ‹_›
      · cases h
    · cases h
  · split at h
    · split at h
      · cases h
      · cases h
        exact .answers _ hphase (Nat.le_of_not_lt ‹_›)
    · cases h
  · cases h

theorem move_of_selectStep (hphase : w.phase = .select) (h : w.selectStep e = some next) :
    Move w e next := by
  have hresting : Resting w.phase := by
    rw [hphase]
    exact .select
  unfold selectStep at h
  split at h
  · rename_i elapsed
    split at h
    · rename_i req rest hchannel
      split at h
      · cases h
        rw [ActiveDump.register]
        by_cases hanchored : req.Anchored w.now elapsed
        · rw [if_pos hanchored]
          exact .registers elapsed hphase hchannel
        · rw [if_neg hanchored]
          exact .dies hphase (by rw [hchannel]; rfl) hanchored
      · cases h
    · cases h
  · split at h
    · cases h
      exact .turn false hresting .top (by simp) fun _ => ⟨rfl, by simp⟩
    · cases h
  · split at h
    · cases h
      exact .turn w.rxOpen hresting .top (by simp) fun _ => ⟨rfl, by simp⟩
    · cases h
  · cases h

theorem move_of_test (test : Bool) {yes no : Phase} (hfrom : Resting w.phase) (hyes : Resting yes)
    (hno : Resting no)
    (hscan : ∀ purpose scan, yes ≠ .scanning purpose scan ∧ no ≠ .scanning purpose scan)
    (hmode : inTriggered w.phase = true →
      (inTriggered yes = true ∧ yes ≠ .exited) ∧ inTriggered no = true ∧ no ≠ .exited) :
    Move w e { w with phase := if test then yes else no } := by
  cases test with
  | true =>
    exact .turn w.rxOpen hfrom hyes (fun purpose scan h => absurd h (hscan purpose scan).1)
      fun h => (hmode h).1
  | false =>
    exact .turn w.rxOpen hfrom hno (fun purpose scan h => absurd h (hscan purpose scan).2)
      fun h => (hmode h).2

theorem move_of_inside (h : w.inside e = some next) : Move w e next := by
  unfold inside at h
  cases hphase : w.phase with
  | top =>
    simp only [hphase] at h
    split at h
    · cases h
      apply move_of_test
      · rw [hphase]
        exact .top
      · exact .check
      · exact .draining .triggered
      · simp
      · exact fun _ => ⟨⟨rfl, by simp⟩, rfl, by simp⟩
    · cases h
  | draining purpose =>
    simp only [hphase] at h
    exact move_of_drainStep hphase h
  | scanning purpose scan =>
    simp only [hphase] at h
    split at h
    · exact move_of_scanStep hphase ‹_› h
    · cases h
  | waiting purpose pending stats =>
    simp only [hphase] at h
    exact move_of_waitStep hphase h
  | opening purpose taken pending stats =>
    simp only [hphase] at h
    exact move_of_openStep hphase h
  | opened purpose taken pending stats =>
    simp only [hphase] at h
    split at h
    · split at h
      · cases h
        exact .inspects hphase ‹_›
      · cases h
    · cases h
  | staged purpose job stage pending stats =>
    simp only [hphase] at h
    exact move_of_stageStep hphase h
  | sleeping purpose slot job pending stats =>
    simp only [hphase] at h
    split at h
    · cases h
      exact .retries hphase
    · cases h
  | resolving todo stage manifest after =>
    simp only [hphase] at h
    exact move_of_resolveStep hphase h
  | check =>
    simp only [hphase] at h
    split at h
    · cases h
      apply move_of_test
      · rw [hphase]
        exact .check
      · exact .draining .final
      · exact .select
      · simp
      · exact fun _ => ⟨⟨rfl, by simp⟩, rfl, by simp⟩
    · cases h
  | select =>
    simp only [hphase] at h
    exact move_of_selectStep hphase h
  | settled =>
    simp only [hphase] at h
    split at h
    · cases h
      apply move_of_test
      · rw [hphase]
        exact .settled
      · exact .draining .finishing
      · exact .parked
      · simp
      · intro hmode
        rw [hphase] at hmode
        cases hmode
    · cases h
  | parked =>
    simp only [hphase] at h
    split at h
    · cases h
      refine .turn w.rxOpen (hphase ▸ Resting.parked) (.draining .continuous) (by simp) ?_
      intro hmode
      rw [hphase] at hmode
      cases hmode
    · cases h
  | exited | panicked =>
    simp only [hphase] at h
    cases h

theorem step_cases (h : w.step e = some next) : w.outside e = some next ∨ Move w e next := by
  rcases Option.or_eq_some_iff.mp h with houtside | ⟨-, hinside⟩
  · exact .inl houtside
  · exact .inr (move_of_inside hinside)

/-! ## What the control flow leaves alone -/

/-- The segments a pass has yet to settle. -/
def inHand : Phase → List Taken
  | .waiting _ pending _ => pending
  | .opening _ taken pending _ | .opened _ taken pending _ => taken :: pending
  | .staged _ job _ pending _ => job.taken :: pending
  | .sleeping _ slot _ pending _ => .memory slot :: pending
  | _ => []

/-- How far a directory scan is. -/
def scanOf : Phase → Scan
  | .scanning _ scan => scan
  | _ => .idle

/-- The loops moved on, and the stored segments and what became of them are the same. -/
structure Steered (w next : Worker) : Prop where
  pipeline : next.pipeline = w.pipeline
  store : next.store = w.store
  passes : next.passes = w.passes
  terminal : next.terminal = w.terminal
  reportedGone : next.reportedGone = w.reportedGone
  scan : scanOf next.phase = .idle

theorem inHand_of_resting {phase : Phase} (h : Resting phase) : inHand phase = [] := by
  cases h <;> rfl

theorem steered_drainDone (w : Worker) (purpose : Purpose) (result : DrainResult) :
    Steered w (w.drainDone purpose result) ∧ inHand (w.drainDone purpose result).phase = [] := by
  cases purpose with
  | triggered =>
    unfold drainDone
    simp only
    split
    · exact ⟨⟨rfl, rfl, rfl, rfl, rfl, rfl⟩, rfl⟩
    · exact ⟨⟨rfl, rfl, rfl, rfl, rfl, rfl⟩, rfl⟩
  | final | continuous | finishing => exact ⟨⟨rfl, rfl, rfl, rfl, rfl, rfl⟩, rfl⟩

theorem steered_passDone (w : Worker) (purpose : Purpose) (stats : PassStats) :
    Steered w (w.passDone purpose stats) ∧ inHand (w.passDone purpose stats).phase = [] := by
  unfold passDone
  split
  · exact ⟨⟨rfl, rfl, rfl, rfl, rfl, rfl⟩, rfl⟩
  · exact ⟨⟨rfl, rfl, rfl, rfl, rfl, rfl⟩, rfl⟩
  · split
    · exact steered_drainDone w purpose _
    · split
      · exact steered_drainDone w purpose _
      · exact ⟨⟨rfl, rfl, rfl, rfl, rfl, rfl⟩, rfl⟩

theorem steered_processSegments (w : Worker) (purpose : Purpose) (segments : List Taken) :
    Steered w (w.processSegments purpose segments) ∧
      inHand (w.processSegments purpose segments).phase =
        if w.pipeline.stages = 0 then [] else segments := by
  unfold processSegments
  split
  · exact steered_passDone w purpose _
  · exact ⟨⟨rfl, rfl, rfl, rfl, rfl, rfl⟩, rfl⟩

theorem steered_tookFiles (w : Worker) (purpose : Purpose) (segments : List Taken) :
    Steered w (w.tookFiles purpose segments) ∧
      inHand (w.tookFiles purpose segments).phase =
        if w.pipeline.stages = 0 then [] else segments := by
  have hempty : segments.isEmpty = true → [] = if w.pipeline.stages = 0 then [] else segments := by
    intro h
    rw [List.isEmpty_iff.mp h, ite_self]
  unfold tookFiles
  split
  · exact steered_processSegments w _ segments
  · split
    · rename_i h
      exact ⟨⟨rfl, rfl, rfl, rfl, rfl, rfl⟩, hempty h⟩
    · exact steered_processSegments w _ segments
  · simp only
    split
    · rename_i h
      have hdone := steered_drainDone
        { w with
          epochCache := fun i => if i ∈ segments.map Taken.index then w.epochCache i else none }
        purpose .default
      exact ⟨{ hdone.1 with }, hdone.2.trans (hempty h)⟩
    · have hstarted := steered_processSegments
        { w with
          epochCache := fun i => if i ∈ segments.map Taken.index then w.epochCache i else none }
        purpose segments
      exact ⟨{ hstarted.1 with }, hstarted.2⟩

theorem finalizeStage_fields (w : Worker) (dump : ActiveDump) (stage : Nat)
    (written : Option String) :
    ∃ dumpKeys manifests, (w.finalizeStage dump stage written).1 =
      { w with finalized := (dump.id, stage) :: w.finalized, dumpKeys, manifests } := by
  unfold finalizeStage
  simp only
  split
  · split
    · exact ⟨_, w.manifests, rfl⟩
    · split
      · exact ⟨_, _, rfl⟩
      · exact ⟨_, w.manifests, rfl⟩
  · exact ⟨w.dumpKeys, w.manifests, rfl⟩

theorem sendReceipt_eq (w : Worker) (dump : ActiveDump) (todo : List ActiveDump) (finishedAt : Int)
    (manifest : Option String) (after : After) :
    ∃ message, dump.intoResult finishedAt manifest = some message ∧
      w.sendReceipt dump todo finishedAt manifest after =
        { w with
          answers := ⟨dump.id, message, some dump⟩ :: w.answers
          phase := .resolving todo 0 none after } := by
  rcases Option.ne_none_iff_exists'.mp (dump.intoResult_ne_none finishedAt manifest) with
    ⟨message, hmessage⟩
  refine ⟨message, hmessage, ?_⟩
  simp only [sendReceipt, hmessage]

theorem outside_cases (h : w.outside e = some next) :
    (∃ req, w.rxClosed = false ∧ req.id ∉ w.sent.map DumpRequest.id ∧
      next = { w with channel := w.channel ++ [req], sent := req :: w.sent }) ∨
    ∃ store triggers stop writerDone now,
      next = { w with store, triggers, stop, writerDone, now } := by
  cases e with
  | sealFile span =>
    right
    simp only [outside] at h
    split at h
    · rcases Option.map_eq_some_iff.mp h with ⟨d, -, rfl⟩
      exact ⟨_, _, _, _, _, rfl⟩
    · cases h
  | sealSlot slot =>
    right
    simp only [outside] at h
    split at h
    · rcases Option.map_eq_some_iff.mp h with ⟨m, -, rfl⟩
      exact ⟨_, _, _, _, _, rfl⟩
    · cases h
  | evictUnlink _ | evictDropClaim _ =>
    right
    simp only [outside] at h
    split at h
    · rcases Option.ite_none_right_eq_some.mp h with ⟨-, ⟨⟩⟩
      exact ⟨_, _, _, _, _, rfl⟩
    · cases h
  | send req =>
    left
    rcases Option.ite_none_right_eq_some.mp h with ⟨hguard, ⟨⟩⟩
    simp only [Bool.and_eq_true, Bool.not_eq_true', List.contains_eq_mem,
      decide_eq_false_iff_not] at hguard
    exact ⟨req, hguard.1.1, hguard.2, rfl⟩
  | dropTriggers | cancel | finishWriting =>
    right
    cases h
    exact ⟨_, _, _, _, _, rfl⟩
  | tick now =>
    right
    rcases Option.ite_none_right_eq_some.mp h with ⟨-, ⟨⟩⟩
    exact ⟨_, _, _, _, _, rfl⟩
  | _ => cases h

end Worker

end Dial9.Core
