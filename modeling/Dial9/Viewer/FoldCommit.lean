/-
# Folding a source file

A fold takes the lock of its samples key, looks for the samples part, fetches
and decodes the source file, and puts the dictionary, polls and spans parts
before the samples part, which marks the file as folded. The model cuts a fold
at its awaits. A fold may be dropped at any of them; a request that was sent
may commit at any later time, whether its fold still waits for it, was told
that it failed, or is gone.
-/

import Dial9.Viewer.PartKeys
import Dial9.Lib.LockRegistry
import Dial9.Lib.Run

namespace Dial9.Viewer.Aggregate

open Dial9.Lib Dial9.Keys.Viewer

/-! ## Output stores -/

/-- An object store, or the files below a local directory. -/
inductive StorageKind where
  | object
  | localDir
  deriving DecidableEq, Repr

/-- Directory names that a local listing does not enter. -/
def isSkippedDir (name : Str) : Bool :=
  ".".toList.isPrefixOf name || name = "target".toList || name = "node_modules".toList

/-- The components under which a key is stored, `none` where it is rejected. A
path drops empty and `.` components; one that is absolute or goes up leaves the
root. -/
def StorageKind.locate : StorageKind → Str → Option (List Str)
  | .object, key => some (key.splitOn '/')
  | .localDir, key =>
    let parts := key.splitOn '/'
    if key.head? = some '/' ∨ "..".toList ∈ parts then none
    else some (parts.filter fun part => part ≠ [] ∧ part ≠ ".".toList)

/-- The listing comes to this name. -/
def StorageKind.visits : StorageKind → List Str → Bool
  | .object, _ => true
  | .localDir, name => name.dropLast.all fun directory => !isSkippedDir directory

/-- A local store ignores the bucket. -/
def StorageKind.bucketOf : StorageKind → Str → Str
  | .object, bucket => bucket
  | .localDir, _ => []

/-- Where parts are written. -/
structure Output where
  kind : StorageKind
  outputPrefix : Str

structure AggContext (B : Type) where
  output : B
  outputBucket : Str
  sourceBucket : Str
  sourceIsLocal : Bool

structure Place (B : Type) where
  backend : B
  bucket : Str
  name : List Str
  deriving DecidableEq

/-- Encoded part-file buffers produced by the CPU stage of a fold. -/
structure EncodedParts where
  samplesBuf : List UInt8
  dictBuf : List UInt8
  pollsBuf : List UInt8
  spansBuf : List UInt8

def EncodedParts.buf (encoded : EncodedParts) : Part → List UInt8
  | .samples => encoded.samplesBuf
  | .dict => encoded.dictBuf
  | .polls => encoded.pollsBuf
  | .spans => encoded.spansBuf

/-! ## Folds -/

structure FoldIdentity (B : Type) where
  backend : B
  bucket : Str
  samplesKey : Str
  deriving DecidableEq

/-- A request that was sent. -/
structure Put (B : Type) where
  ctx : AggContext B
  fullKey : Str
  part : Part
  data : List UInt8

inductive Write where
  | pending
  | issued (put : Nat)
  | ok
  | failed
  deriving DecidableEq

/-- Where a fold that holds its lock is. -/
inductive Work where
  | checking
  | fetching
  | decoding
  | writing (encoded : EncodedParts) (writes : Part → Write)
  | marking (encoded : EncodedParts) (write : Write)
  | finished

structure Job (B : Type) where
  ctx : AggContext B
  fullKey : Str
  work : Work

structure State (B T : Type) where
  locks : LockRegistry.State (FoldIdentity B) T
  jobs : T → Option (Job B)
  /-- The stored objects, the latest in front. -/
  objects : List (Place B × List UInt8)
  puts : List (Put B)
  committed : List Nat
  /-- The completed decodes of each source file; no step reads them. -/
  decoded : List (Str × EncodedParts)

inductive Action (B T : Type) where
  | start (t : T) (ctx : AggContext B) (rawKey : Str)
  | acquire (t : T)
  | abandon (t : T)
  | check (t : T) (fails : Bool)
  | fetch (t : T) (fails : Bool)
  | decode (t : T) (result : Option EncodedParts)
  | issue (t : T) (part : Part)
  | commit (put : Nat)
  | acknowledge (t : T) (part : Part)
  | fail (t : T) (part : Part)
  | join (t : T)
  | leave (t : T)
  | prune (t : T)
  | release (t : T)

/-- The parts that are written at the same time, before the samples part. -/
def sideParts : List Part := [.dict, .polls, .spans]

namespace State

variable {B T : Type} [DecidableEq B] [DecidableEq T]

def start : State B T where
  locks := LockRegistry.start
  jobs := fun _ => none
  objects := []
  puts := []
  committed := []
  decoded := []

section

variable (outputs : B → Output) (blake3 : List UInt8 → List UInt8)

section

omit [DecidableEq B]

/-- The key of a part at the context's output. -/
def keyOf (ctx : AggContext B) (fullKey : Str) (part : Part) : Option Str :=
  partKey blake3 (outputs ctx.output).outputPrefix fullKey part

/-- Where a key of the context's output is stored. -/
def placeOf (ctx : AggContext B) (key : Str) : Option (Place B) :=
  ((outputs ctx.output).kind.locate key).map fun name =>
    ⟨ctx.output, (outputs ctx.output).kind.bucketOf ctx.outputBucket, name⟩

/-- Where a part of a source file is stored. -/
def partPlace (ctx : AggContext B) (fullKey : Str) (part : Part) : Option (Place B) :=
  (keyOf outputs blake3 ctx fullKey part).bind (placeOf outputs ctx)

end

/-- The object at a place. -/
def lookup (s : State B T) (place : Place B) : Option (List UInt8) :=
  (s.objects.find? fun object => object.1 = place).map Prod.snd

/-- The part is in the store. -/
def Exists (s : State B T) (ctx : AggContext B) (fullKey : Str) (part : Part) : Prop :=
  ∃ place data, partPlace outputs blake3 ctx fullKey part = some place ∧ s.lookup place = some data

end

def setWork (s : State B T) (t : T) (job : Job B) (work : Work) : State B T :=
  { s with jobs := Function.update s.jobs t (some { job with work }) }

/-- The job of a fold that holds its lock. -/
def working (s : State B T) (t : T) : Option (Job B) :=
  match s.locks.stages t with
  | .holding _ _ => s.jobs t
  | _ => none

def lockStep (s : State B T) (a : LockRegistry.Action (FoldIdentity B) T) : Option (State B T) :=
  (s.locks.step a).map fun locks => { s with locks }

/-- Send the request of a part. -/
def send (s : State B T) (job : Job B) (encoded : EncodedParts) (part : Part) : State B T :=
  { s with puts := s.puts ++ [⟨job.ctx, job.fullKey, part, encoded.buf part⟩] }

variable (outputs : B → Output) (blake3 : List UInt8 → List UInt8)

/-- One step of a fold, or of a request that was sent. -/
def step (s : State B T) : Action B T → Option (State B T)
  | .start t ctx rawKey => do
      let fullKey := fullSourceKey ctx.sourceIsLocal ctx.sourceBucket rawKey
      let samplesKey ← samplesPartKey blake3 (outputs ctx.output).outputPrefix fullKey
      let next ← s.lockStep (.attach t ⟨ctx.output, ctx.outputBucket, samplesKey⟩)
      some { next with jobs := Function.update next.jobs t (some ⟨ctx, fullKey, .checking⟩) }
  | .acquire t => s.lockStep (.acquire t)
  | .abandon t => s.lockStep (.abandon t)
  | .check t fails => do
      let job ← s.working t
      match job.work with
      | .checking =>
        if fails then some (s.setWork t job .finished)
        else
          match (partPlace outputs blake3 job.ctx job.fullKey .samples).bind s.lookup with
          | some _ => some (s.setWork t job .finished)
          | none => some (s.setWork t job .fetching)
      | _ => none
  | .fetch t fails => do
      let job ← s.working t
      match job.work with
      | .fetching => some (s.setWork t job (if fails then .finished else .decoding))
      | _ => none
  | .decode t result => do
      let job ← s.working t
      match job.work, result with
      | .decoding, none => some (s.setWork t job .finished)
      | .decoding, some encoded =>
        some { s.setWork t job (.writing encoded fun _ => .pending) with
          decoded := s.decoded ++ [(job.fullKey, encoded)] }
      | _, _ => none
  | .issue t part => do
      let job ← s.working t
      match job.work with
      | .writing encoded writes =>
        if part ∈ sideParts ∧ writes part = .pending then
          some ((s.send job encoded part).setWork t job
            (.writing encoded (Function.update writes part (.issued s.puts.length))))
        else none
      | .marking encoded write =>
        if part = .samples ∧ write = .pending then
          some ((s.send job encoded part).setWork t job (.marking encoded (.issued s.puts.length)))
        else none
      | _ => none
  | .commit put => do
      let request ← s.puts[put]?
      let place ← partPlace outputs blake3 request.ctx request.fullKey request.part
      some { s with
        objects := (place, request.data) :: s.objects
        committed := put :: s.committed }
  | .acknowledge t part => do
      let job ← s.working t
      match job.work with
      | .writing encoded writes =>
        match writes part with
        | .issued put =>
          if put ∈ s.committed then
            some (s.setWork t job (.writing encoded (Function.update writes part .ok)))
          else none
        | _ => none
      | .marking _ (.issued put) =>
        if part = .samples ∧ put ∈ s.committed then some (s.setWork t job .finished) else none
      | _ => none
  | .fail t part => do
      let job ← s.working t
      match job.work with
      | .writing encoded writes =>
        if part ∈ sideParts ∧ writes part ≠ .ok then
          some (s.setWork t job (.writing encoded (Function.update writes part .failed)))
        else none
      | .marking _ _ => if part = .samples then some (s.setWork t job .finished) else none
      | _ => none
  | .join t => do
      let job ← s.working t
      match job.work with
      | .writing encoded writes =>
        if ∀ part ∈ sideParts, writes part = .ok then
          some (s.setWork t job (.marking encoded .pending))
        else if ∀ part ∈ sideParts, writes part = .ok ∨ writes part = .failed then
          some (s.setWork t job .finished)
        else none
      | _ => none
  -- The return of the fold, or its drop at an await.
  | .leave t => s.lockStep (.unlock t)
  | .prune t => s.lockStep (.prune t)
  | .release t => s.lockStep (.release t)

end State

/-! ## The folded set -/

/-- The keys a listing gives, as text. -/
def listObjectsAll {B T : Type} [DecidableEq B] (outputs : B → Output) (s : State B T)
    (output : B) (bucket keyPrefix : Str) : List Str :=
  (s.objects.filterMap fun object =>
    let place := object.1
    let text := ['/'].intercalate place.name
    if place.backend = output ∧ place.bucket = (outputs output).kind.bucketOf bucket ∧
        (outputs output).kind.visits place.name ∧ keyPrefix <+: text then some text
    else none)

/-- The leaf a listed key stands for. -/
def leafOfKey (key : Str) : Option Str :=
  ((key.splitOn '/').getLast?).bind fun name =>
    (name.dropSuffix? ".parquet".toList)

/-- The leaves that already have a samples part, from the result of the listing;
a listing that failed is treated as empty. -/
def listFoldedLeaves (listing : Option (List Str)) : List Str :=
  (listing.getD []).filterMap leafOfKey

end Dial9.Viewer.Aggregate
