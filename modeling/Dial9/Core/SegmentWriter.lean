/-
# The segment writer

The writer keeps one segment open. Each segment starts with a file header and a
clock anchor, the metadata in force goes in before the first batch, and a
segment is sealed when its time has passed or it has grown too large. Writes go
through a buffer, and any of them may fail: a failed write leaves a torn part
of its bytes, a failed flush loses what the buffer held. Which steps fail, and
whether a deadline has passed, are inputs of each call.
-/

import Dial9.TraceFormat.Encoder

namespace Dial9.Core.SegmentWriter

open Dial9.Lib Dial9.TraceFormat

/-! ## The frames of a segment -/

/-- The key and the value pairs of a segment's metadata. -/
abbrev Entries := List (Lib.Text × Lib.Text)

/-- A monotonic and a wall-clock time, read together. -/
structure Clock where
  mono : UInt64
  real : UInt64
  deriving DecidableEq

/-- The wire slots that the process gave to its two event types. -/
structure Slots where
  clockSync : UInt16
  segmentMetadata : UInt16
  distinct : clockSync ≠ segmentMetadata

def ascii (s : String) : Bytes := s.toList.map fun c => UInt8.ofNat c.toNat

/-- The schema of `ClockSyncEvent`. -/
def clockSyncEntry : SchemaEntry :=
  ⟨⟨ascii "ClockSyncEvent", by decide⟩,
    [⟨⟨ascii "realtime_ns", by decide⟩, .plain .varint⟩], []⟩

/-- The schema of `SegmentMetadataEvent`. -/
def segmentMetadataEntry : SchemaEntry :=
  ⟨⟨ascii "SegmentMetadataEvent", by decide⟩,
    [⟨⟨ascii "entries", by decide⟩, .plain .stringMap⟩], []⟩

/-- The two derived types of the writer. -/
def program (slots : Slots) : Program where
  types
    | 0 => ⟨slots.clockSync, clockSyncEntry⟩
    | 1 => ⟨slots.segmentMetadata, segmentMetadataEntry⟩
    | _ => ⟨0, ⟨default, [], []⟩⟩
  slots_distinct := by
    have hdistinct := slots.distinct
    intro i j heq hne
    match i, j with
    | 0, 0 => rfl
    | 1, 1 => rfl
    | 0, 1 => exact absurd heq hdistinct
    | 1, 0 => exact absurd heq.symm hdistinct
    | 0, _ + 2 => exact absurd heq hne
    | 1, _ + 2 => exact absurd heq hne
    | _ + 2, _ => exact absurd rfl hne

def clockSyncEvent (slots : Slots) (clock : Clock) : TraceEvent (program slots) where
  typeId := 0
  timestamp := clock.mono
  fields := [.plain (.u64 clock.real)]
  wellTyped := rfl

def segmentMetadataEvent (slots : Slots) (entries : Entries) (clock : Clock) :
    TraceEvent (program slots) where
  typeId := 1
  timestamp := clock.mono
  fields := [.plain (.stringMap entries)]
  wellTyped := rfl

/-- What `prepare_segment` writes: the header and a clock anchor. -/
def prologueBytes (slots : Slots) (clock : Clock) : Bytes :=
  (Encoder.new.writeTyped 0 (clockSyncEvent slots clock)).2.out

/-- What `write_segment_metadata` writes: a header, the entries and a clock anchor. -/
def metadataBytes (slots : Slots) (entries : Entries) (clock : Clock) : Bytes :=
  ((Encoder.new.writeTyped 0 (segmentMetadataEvent slots entries clock)).2.writeTyped 0
    (clockSyncEvent slots clock)).2.out

structure Batch where
  encodedBytes : Bytes
  eventCount : Nat
  deriving DecidableEq

/-- One write into a segment. -/
inductive Chunk where
  | prologue (bytes : Bytes)
  | metadata (entries : Entries) (bytes : Bytes)
  | batch (batch : Batch)
  /-- What was taken of a write that failed. -/
  | torn (bytes : Bytes)
  deriving DecidableEq

def Chunk.bytes : Chunk → Bytes
  | .prologue bytes => bytes
  | .metadata _ bytes => bytes
  | .batch written => written.encodedBytes
  | .torn bytes => bytes

/-! ## The buffered file -/

inductive IoError where
  | notFound
  | other
  deriving DecidableEq

/-- How a write goes: how much of it is taken when it fails, and how much of the
segment is in the file afterwards. -/
structure WriteIo where
  torn : Option Nat
  through : Nat

/-- The encoder over the buffered file, with the writes it has taken. -/
structure RawEncoder where
  chunks : List Chunk
  bytesWritten : Nat
  /-- How many bytes have left the buffer. -/
  persisted : Nat
  deriving DecidableEq

namespace RawEncoder

def bytes (raw : RawEncoder) : Bytes := raw.chunks.flatMap Chunk.bytes

/-- The file holds at least as much as before. -/
def persist (raw : RawEncoder) (through : Nat) : RawEncoder :=
  { raw with persisted := max raw.persisted (min through raw.bytes.length) }

def writeRaw (raw : RawEncoder) (chunk : Chunk) (io : WriteIo) : Except IoError Unit × RawEncoder :=
  match io.torn with
  | none =>
    (.ok (),
      { raw with
        chunks := raw.chunks ++ [chunk]
        bytesWritten := raw.bytesWritten + chunk.bytes.length }.persist io.through)
  | some taken =>
    (.error .other,
      { raw with chunks := raw.chunks ++ [Chunk.torn (chunk.bytes.take taken)] }.persist io.through)

/-- Empty the buffer; a failure leaves the rest of it there. -/
def flush (raw : RawEncoder) : Option Nat → Except IoError Unit × RawEncoder
  | none => (.ok (), raw.persist raw.bytes.length)
  | some through => (.error .other, raw.persist through)

end RawEncoder

/-! ## The writer -/

inductive SealKind where
  | drained
  | overflow
  deriving DecidableEq

def SealKind.isClean (kind : SealKind) : Bool := kind = .drained

/-- Incoming entries win; `none` when nothing changes. -/
def mergeEntries (entries incoming : Entries) : Option Entries :=
  let merged := entries.foldl
    (fun merged entry => if merged.any (·.1 = entry.1) then merged else merged ++ [entry]) incoming
  if merged = entries then none else some merged

inductive WriterState where
  | active (writer : RawEncoder) (needMetadata : Bool)
  | finished
  deriving DecidableEq

/-- What became of a segment. -/
inductive Fate where
  | sealed
  /-- Its file was gone when it was to be sealed. -/
  | abandoned
  /-- It could not be sealed, or removed, and its file keeps its active name. -/
  | unsealed
  /-- It was empty at the end, and removed. -/
  | removed
  /-- It was open when the budget was found exceeded. -/
  | stopped
  deriving DecidableEq

/-- A segment that is not written any more. -/
structure Segment where
  index : Nat
  raw : RawEncoder
  /-- Whether all its writes reached the file. -/
  flushed : Bool
  fate : Fate
  deriving DecidableEq

/-- What the segment's file holds. -/
def Segment.file (segment : Segment) : Bytes := segment.raw.bytes.take segment.raw.persisted

structure Writer where
  slots : Slots
  isDisk : Bool
  maxFileSize : Nat
  maxTotalSize : Nat
  /-- The index and the size of each closed segment, oldest first. -/
  closedFiles : List (Nat × Nat)
  activeIndex : Nat
  state : WriterState
  nextIndex : Nat
  segmentMetadata : Entries
  droppedEvents : Nat
  hasRealEvents : Bool
  metadataChangedSinceSeal : Bool
  priorSealKind : SealKind
  /-- The segments before the active one; no step reads them. -/
  segments : List Segment
  /-- The batches taken into a segment, each with the metadata in force; no step reads them. -/
  accepted : List (Entries × Batch)

/-- What the environment decides in a call: the clocks read, the failures, and
whether the deadline of the rotation has passed. -/
structure Io where
  metadata : WriteIo
  batch : WriteIo
  sealMetadata : WriteIo
  flush : Option Nat
  /-- The second flush, when the file is taken from its buffer. -/
  intoInner : Option Nat
  sealing : Option IoError
  create : Option IoError
  prepare : Option IoError
  removeActive : Option IoError
  clock : Clock
  deadline : Bool

/-- The next value of a `u32`. -/
def wrappingSucc (n : Nat) : Nat := (n + 1) % 2 ^ 32

/-- The value before it. -/
def wrappingPred (n : Nat) : Nat := (n + 2 ^ 32 - 1) % 2 ^ 32

/-- `prepare_segment`. -/
def prepareSegment (slots : Slots) (clock : Clock) : WriterState :=
  .active ⟨[.prologue (prologueBytes slots clock)], (prologueBytes slots clock).length, 0⟩ true

namespace Writer

abbrev Result (α : Type) := Except IoError α × Writer

/-- The active segment joins those before it. -/
def close (w : Writer) (raw : RawEncoder) (flushed : Bool) (fate : Fate) : Writer :=
  { w with segments := w.segments ++ [⟨w.activeIndex, raw, flushed, fate⟩] }

/-- `write_segment_metadata` with the entries given. -/
def writeSegmentMetadata (w : Writer) (raw : RawEncoder) (entries : Entries) (clock : Clock)
    (io : WriteIo) : Except IoError Unit × RawEncoder :=
  raw.writeRaw (.metadata entries (metadataBytes w.slots entries clock)) io

def writeMetadataIfNeeded (w : Writer) (io : Io) : Result Unit :=
  match w.state with
  | .finished => (.ok (), w)
  | .active raw false => (.ok (), { w with state := .active raw false })
  | .active raw true =>
    match w.writeSegmentMetadata raw w.segmentMetadata io.clock io.metadata with
    | (.ok (), raw) => (.ok (), { w with state := .active raw false })
    | (.error e, raw) => (.error e, { w with state := .active raw true })

/-- The key of a segment's seal metadata. -/
def segmentCompleteKey : Lib.Text := ⟨ascii "segment.complete", by decide⟩

def boolText : Bool → Lib.Text
  | true => ⟨ascii "true", by decide⟩
  | false => ⟨ascii "false", by decide⟩

/-- `write_seal_metadata`, on the open segment. -/
def sealMetadata (w : Writer) (raw : RawEncoder) (kind : SealKind) (io : Io) : RawEncoder :=
  let complete := kind.isClean && w.priorSealKind.isClean
  let entries := w.segmentMetadata ++ [(segmentCompleteKey, boolText complete)]
  (w.writeSegmentMetadata raw entries io.clock io.sealMetadata).2

def activeBytes (w : Writer) : Nat :=
  match w.state with
  | .active raw _ => raw.bytesWritten
  | .finished => 0

/-- Forget the oldest closed segments while the budget is exceeded. -/
def evictClosed (maxTotalSize active : Nat) : List (Nat × Nat) → List (Nat × Nat)
  | [] => []
  | closed :: rest =>
    if maxTotalSize < ((closed :: rest).map Prod.snd).sum + active then
      evictClosed maxTotalSize active rest
    else closed :: rest

def evictOldest (w : Writer) : Writer :=
  if w.isDisk then
    let kept := evictClosed w.maxTotalSize w.activeBytes w.closedFiles
    let w := { w with closedFiles := kept }
    if w.maxTotalSize < (kept.map Prod.snd).sum + w.activeBytes then
      match w.state with
      | .active raw _ => { w.close raw false .stopped with state := .finished }
      | .finished => w
    else w
  else w

/-- Flush what can be flushed and take the file from its buffer. -/
def drainBuffer (raw : RawEncoder) (io : Io) : Bool × RawEncoder :=
  let raw := (raw.flush io.flush).2
  let (result, raw) := raw.flush io.intoInner
  (result = .ok (), raw)

/-- A sealed file counts towards the budget of the directory. -/
def pushClosed (w : Writer) (size : Nat) : Writer :=
  { w with
    closedFiles :=
      if w.isDisk then w.closedFiles ++ [(wrappingPred w.nextIndex, size)] else w.closedFiles }

def openNext (w : Writer) (io : Io) : Result Unit :=
  let index := w.nextIndex
  let w := { w with nextIndex := wrappingSucc w.nextIndex }
  match io.create, io.prepare with
  | some e, _ => (.error e, w)
  | none, some e => (.error e, w)
  | none, none =>
    (.ok (),
      { w with
        state := prepareSegment w.slots io.clock
        activeIndex := index
        hasRealEvents := false
        metadataChangedSinceSeal := false }.evictOldest)

def rotate (w : Writer) (kind : SealKind) (io : Io) : Result Unit :=
  match w.state with
  | .finished => (.ok (), w)
  | .active raw _ =>
    let raw := w.sealMetadata raw kind io
    let closedSize := raw.bytesWritten
    let (flushed, raw) := drainBuffer raw io
    let w := { w with priorSealKind := kind, state := .finished }
    match io.sealing with
    | some .other => (.error .other, w.close raw flushed .unsealed)
    | some .notFound => (w.close raw flushed .abandoned).openNext io
    | none => ((w.close raw flushed .sealed).pushClosed closedSize).openNext io

/-- Rotate when the segment has grown too large. -/
def maybeRotate (w : Writer) (io : Io) : Result Unit :=
  match w.state with
  | .finished => (.ok (), w)
  | .active raw _ =>
    if w.maxFileSize < raw.bytesWritten then w.rotate .overflow io else (.ok (), w)

def writeEncodedBatch (w : Writer) (batch : Batch) (io : Io) : Result Unit :=
  match w.writeMetadataIfNeeded io with
  | (.error e, w) => (.error e, w)
  | (.ok (), w) =>
    match w.state with
    | .finished => (.ok (), { w with droppedEvents := w.droppedEvents + batch.eventCount })
    | .active raw need =>
      if 0 < batch.eventCount then
        match raw.writeRaw (.batch batch) io.batch with
        | (.error e, raw) => (.error e, { w with state := .active raw need })
        | (.ok (), raw) =>
          { w with
            state := .active raw need
            hasRealEvents := true
            accepted := w.accepted ++ [(w.segmentMetadata, batch)] }.maybeRotate io
      else (.ok (), w)

/-- Whether the call sealed the segment. -/
def drained (w : Writer) (io : Io) : Result Bool :=
  if w.hasRealEvents = false then (.ok false, w)
  else if io.deadline then
    match w.rotate .drained io with
    | (.error e, w) => (.error e, w)
    | (.ok (), w) => (.ok true, w)
  else (.ok false, w)

def finalize (w : Writer) (io : Io) : Result Unit :=
  match w.state with
  | .finished => (.ok (), w)
  | .active raw _ =>
    let raw := w.sealMetadata raw .drained io
    let size := raw.bytesWritten
    let (flushed, raw) := drainBuffer raw io
    let w := { w with state := .finished }
    if w.hasRealEvents ∨ (w.metadataChangedSinceSeal ∧ 1 < w.nextIndex) then
      match io.sealing with
      | some .other => (.error .other, w.close raw flushed .unsealed)
      | some .notFound => (.ok (), (w.close raw flushed .abandoned).evictOldest)
      | none => (.ok (), ((w.close raw flushed .sealed).pushClosed size).evictOldest)
    else
      match io.removeActive with
      | some .other => (.error .other, w.close raw flushed .unsealed)
      | _ => (.ok (), (w.close raw flushed .removed).evictOldest)

def updateSegmentMetadata (w : Writer) (incoming : Entries) : Writer :=
  match mergeEntries w.segmentMetadata incoming with
  | none => w
  | some entries =>
    { w with
      segmentMetadata := entries
      state :=
        match w.state with
        | .active raw _ => .active raw true
        | .finished => .finished
      metadataChangedSinceSeal := true }

/-- Flush between batches. -/
def flush (w : Writer) (io : Io) : Result Unit :=
  match w.state with
  | .finished => (.ok (), w)
  | .active raw need =>
    let (result, raw) := raw.flush io.flush
    (result, { w with state := .active raw need })

/-- A new writer over what the directory holds; the index is refused when the
one after it does not fit. -/
def create (slots : Slots) (isDisk : Bool) (maxFileSize maxTotalSize : Nat)
    (closedFiles : List (Nat × Nat)) (firstIndex : Nat) (segmentMetadata : Entries)
    (clock : Clock) : Option Writer :=
  if firstIndex + 1 < 2 ^ 32 then
    some {
      slots, isDisk, maxFileSize, maxTotalSize, closedFiles
      activeIndex := firstIndex
      state := prepareSegment slots clock
      nextIndex := firstIndex + 1
      segmentMetadata
      droppedEvents := 0
      hasRealEvents := false
      metadataChangedSinceSeal := false
      priorSealKind := .drained
      segments := []
      accepted := [] : Writer }.evictOldest
  else none

/-! ## Calls -/

inductive Call where
  | writeEncodedBatch (batch : Batch) (io : Io)
  | rotate (kind : SealKind) (io : Io)
  | drained (io : Io)
  | finalize (io : Io)
  | flush (io : Io)
  | updateSegmentMetadata (entries : Entries)
  | writeCurrentSegmentMetadata (io : Io)

def call (w : Writer) : Call → Writer
  | .writeEncodedBatch batch io => (w.writeEncodedBatch batch io).2
  | .rotate kind io => (w.rotate kind io).2
  | .drained io => (w.drained io).2
  | .finalize io => (w.finalize io).2
  | .flush io => (w.flush io).2
  | .updateSegmentMetadata entries => w.updateSegmentMetadata entries
  | .writeCurrentSegmentMetadata io => (w.writeMetadataIfNeeded io).2

def runCalls (w : Writer) (calls : List Call) : Writer := calls.foldl call w

end Writer

end Dial9.Core.SegmentWriter
