/-
# Fetching a trace as a stream

A trace may come in several components, each from a request of its own. The buffered
fetch waits for all the bodies, unzips those that are gzipped and joins them. The
streaming fetch starts all the requests at once and hands on the chunks of one component
after the other, as they arrive.

Between a body and the parser stands a stream that peeks at the first chunk. The stream
asks its source for a chunk when its queue is empty or a read waits. A pull that hands
over nothing is not repeated, unless it was asked for again in the meantime.

Every arrival from the network and every read is a step of its own, of any component at
any time; a body is read ahead of the parser at most. Bodies are bytes. Abort signals,
headers, callbacks for raw chunks and consumers that stop early are left out.
-/

import Dial9.Lib.Run

namespace Dial9.Viewer.FetchStream

open Lib

abbrev Bytes := List UInt8

/-- An answer to a request, with the chunks that its body arrives in. -/
structure Response where
  ok : Bool
  /-- The response has a body that can be read in chunks. -/
  hasBody : Bool
  chunks : List Bytes
  /-- The body arrives whole. -/
  complete : Bool

/-- The magic number of gzip. -/
def isGzip : Bytes → Bool
  | 0x1f :: 0x8b :: _ => true
  | _ => false

/-! ## The buffered fetch -/

section Buffered

variable (gunzip : Bytes → Option Bytes)

/-- A corrupt body fails to unzip. -/
def maybeGunzip (buf : Bytes) : Option Bytes :=
  if isGzip buf then gunzip buf else some buf

/-- One component, whose request may be refused. -/
def fetchPart (answer : Option Response) : Option Bytes :=
  answer.bind fun resp =>
    if resp.ok && resp.complete then maybeGunzip gunzip resp.chunks.flatten else none

def fetchParts (answers : List (Option Response)) : Option (List Bytes) :=
  answers.mapM (fetchPart gunzip)

def fetchTraces (answers : List (Option Response)) : Option Bytes :=
  (fetchParts gunzip answers).map List.flatten

end Buffered

/-! ## The stream of a body -/

/-- A decompressor that takes a body in chunks. -/
structure DecompressionStream (σ : Type) where
  init : σ
  write : σ → Bytes → Option (σ × List Bytes)
  close : σ → Option (List Bytes)

/-- `rawStream`, once it has started. -/
structure RawStream where
  queue : List Bytes
  /-- A read waits. -/
  requested : Bool
  /-- A call of `pull` is at work. -/
  pulling : Bool
  pullAgain : Bool
  /-- The source has closed the stream. -/
  closing : Bool

namespace RawStream

def empty : RawStream := ⟨[], false, false, false, false⟩

def shouldCallPull (s : RawStream) : Bool := !s.closing && (s.requested || s.queue.isEmpty)

def callPullIfNeeded (s : RawStream) : RawStream :=
  if s.shouldCallPull then
    if s.pulling then { s with pullAgain := true } else { s with pulling := true }
  else s

/-- The call of `pull` returned. -/
def pulled (s : RawStream) : RawStream :=
  if s.pullAgain then callPullIfNeeded { s with pulling := false, pullAgain := false }
  else { s with pulling := false }

end RawStream

inductive Phase where
  | fetching
  /-- Reading up to the first chunk that is not empty. -/
  | sniffing
  | streaming
  | failed
  deriving DecidableEq

/-- A component on its way. -/
structure Component (σ : Type) where
  answer : Option Response
  phase : Phase
  /-- What the body has still to deliver. -/
  body : List Bytes
  complete : Bool
  raw : RawStream
  /-- The decompressor behind the stream of a gzipped body. -/
  inflate : Option σ
  /-- What can be handed on. -/
  output : List Bytes
  /-- The end of the stream was read. -/
  ended : Bool
  /-- The chunks read off the stream, for the record. -/
  taken : List Bytes
  /-- What was handed on, for the record. -/
  given : List Bytes

/-- The chunks that the reader of a response delivers. -/
def Response.cuts (resp : Response) : List Bytes :=
  if resp.hasBody then resp.chunks else [resp.chunks.flatten]

namespace Component

variable {σ : Type}

def start (answer : Option Response) : Component σ :=
  ⟨answer, .fetching, [], false, .empty, none, [], false, [], []⟩

/-- An error drops what is queued. -/
def fail (c : Component σ) : Component σ := { c with phase := .failed, output := [] }

section Stream

variable (gz : DecompressionStream σ)

/-- The reader of the stream gets a chunk. -/
def take (c : Component σ) (chunk : Bytes) : Component σ :=
  match c.inflate with
  | none => { c with output := c.output ++ [chunk], taken := c.taken ++ [chunk] }
  | some state =>
    match gz.write state chunk with
    | none => c.fail
    | some (state, chunks) =>
      { c with
        inflate := some state
        output := c.output ++ chunks
        taken := c.taken ++ [chunk] }

/-- The reader of the stream gets its end. -/
def finish (c : Component σ) : Component σ :=
  match c.inflate with
  | none => { c with ended := true }
  | some state =>
    match gz.close state with
    | none => c.fail
    | some chunks => { c with output := c.output ++ chunks, ended := true }

/-- `pull` got a chunk; an empty one is dropped. -/
def enqueue (c : Component σ) (chunk : Bytes) : Component σ :=
  if chunk.isEmpty then { c with raw := c.raw.pulled }
  else if c.raw.requested then
    take gz { c with raw := ({ c.raw with requested := false }).callPullIfNeeded.pulled } chunk
  else
    { c with raw := ({ c.raw with queue := c.raw.queue ++ [chunk] }).callPullIfNeeded.pulled }

/-- `pull` got the end of the body. -/
def close (c : Component σ) : Component σ :=
  if c.raw.requested then
    finish gz { c with raw := ({ c.raw with closing := true, requested := false }).pulled }
  else { c with raw := ({ c.raw with closing := true }).pulled }

/-- What the component waits for from the network arrives. -/
def settle (c : Component σ) : Option (Component σ) :=
  match c.phase with
  | .fetching =>
    some
      (match c.answer with
      | none => c.fail
      | some resp =>
        if resp.ok && (resp.hasBody || resp.complete) then
          { c with phase := .sniffing, body := resp.cuts, complete := resp.complete }
        else c.fail)
  | .sniffing =>
    some
      (match c.body with
      | [] =>
        if c.complete then { c with phase := .streaming, raw := RawStream.empty.callPullIfNeeded }
        else c.fail
      | chunk :: rest =>
        if chunk.isEmpty then { c with body := rest }
        else
          { c with
            phase := .streaming
            body := rest
            raw := ({ RawStream.empty with queue := [chunk] }).callPullIfNeeded
            inflate := if isGzip chunk then some gz.init else none })
  | .streaming =>
    if c.raw.pulling then
      some
        (match c.body with
        | [] => if c.complete then c.close gz else c.fail
        | chunk :: rest => enqueue gz { c with body := rest } chunk)
    else none
  | .failed => none

/-- The reader of the stream asks for a chunk. -/
def read (c : Component σ) : Option (Component σ) :=
  if c.phase = .streaming ∧ c.raw.requested = false ∧ c.ended = false then
    some
      (match c.raw.queue with
      | chunk :: rest =>
          take gz { c with raw := ({ c.raw with queue := rest }).callPullIfNeeded } chunk
      | [] =>
        if c.raw.closing then c.finish gz
        else { c with raw := ({ c.raw with requested := true }).callPullIfNeeded })
  else none

end Stream

end Component

/-! ## The streaming fetch -/

/-- `fetchTracesStream`, which hands on the chunks of the current component. -/
structure TracesStream (σ : Type) where
  components : List (Component σ)
  current : Nat
  failed : Bool
  yielded : List Bytes

inductive Event where
  | settle (component : Nat)
  | read (component : Nat)
  /-- The parser asks for a chunk. -/
  | next

namespace TracesStream

variable {σ : Type}

def start (answers : List (Option Response)) : TracesStream σ :=
  ⟨answers.map Component.start, 0, false, []⟩

def Finished (s : TracesStream σ) : Prop := s.current = s.components.length

/-- The component in question takes a step. -/
def advance (s : TracesStream σ) (j : Nat) (f : Component σ → Option (Component σ)) :
    Option (TracesStream σ) :=
  (s.components[j]?.bind f).map fun c => { s with components := s.components.set j c }

def next (s : TracesStream σ) : Option (TracesStream σ) :=
  if s.failed then none
  else
    s.components[s.current]?.bind fun c =>
      if c.phase = .failed then some { s with failed := true }
      else
        match c.output with
        | chunk :: rest =>
          some
            { s with
              components :=
                s.components.set s.current { c with output := rest, given := c.given ++ [chunk] }
              yielded := s.yielded ++ [chunk] }
        | [] => if c.ended then some { s with current := s.current + 1 } else none

def step (gz : DecompressionStream σ) (s : TracesStream σ) : Event → Option (TracesStream σ)
  | .settle j => s.advance j (Component.settle gz)
  | .read j => s.advance j (Component.read gz)
  | .next => s.next

end TracesStream

end Dial9.Viewer.FetchStream
