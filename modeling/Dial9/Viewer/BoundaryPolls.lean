/-
# Boundary polls

A poll can start in one segment and end in a later one. What is known at a segment's
edges outlives its parse, and the window puts polls together from it: a poll that is
seen whole is stitched, and of one that is not, the stretches are shown over which it
is known to run.
-/

import Dial9.Viewer.SegmentWindow
import Dial9.Viewer.TraceEvents

namespace Dial9.Viewer.Boundary

open Segments

/-! ## The edges of a segment -/

/-- A poll that is open at a segment's end. -/
structure SegmentEdgeOpenPoll where
  workerId : Nat
  start : Int
  taskId : Nat
  spawnLocId : Option String
  spawnLoc : Option String
  deriving DecidableEq

/-- The end of a poll that began before the segment. -/
structure SegmentEdgeDanglingClose where
  workerId : Nat
  endTs : Int
  deriving DecidableEq

structure SegmentEdgePolls where
  openAtEnd : List SegmentEdgeOpenPoll
  closeAtStart : List SegmentEdgeDanglingClose
  deriving DecidableEq

structure SegmentParseInvariants where
  minTs : Option Int
  maxTs : Option Int
  workerIds : List Nat
  deriving DecidableEq

/-- A segment's parse, whose bounds are those of its events and perhaps of other spans. -/
structure ParsedTrace where
  events : List TraceEvent
  minTs : Option Int
  maxTs : Option Int
  bounded :
    ∀ e ∈ events, ∃ lo hi, minTs = some lo ∧ maxTs = some hi ∧ lo ≤ e.timestamp ∧ e.timestamp ≤ hi
  both : minTs.isSome = maxTs.isSome
  ordered : ∀ lo hi, minTs = some lo → maxTs = some hi → lo ≤ hi

/-- The events that a worker's lane is made of. -/
def isLifecycle (e : TraceEvent) : Bool :=
  e.eventType = .pollStart || e.eventType = .pollEnd || e.eventType = .workerPark ||
    e.eventType = .workerUnpark

/-- A worker's lifecycle events in order of time. -/
def workerEvents (workerId : Nat) (events : List TraceEvent) : List TraceEvent :=
  sortByTime (events.filter fun e => isLifecycle e && e.workerId = workerId)

/-- The workers of the lifecycle events, in order. -/
def lifecycleWorkers (events : List TraceEvent) : List Nat :=
  ((events.filter isLifecycle).map TraceEvent.workerId).dedup.insertionSort (· ≤ ·)

/-- The poll that is open after some events. -/
def openAfter (open? : Option TraceEvent) : List TraceEvent → Option TraceEvent
  | [] => open?
  | e :: rest =>
    if e.eventType = .pollStart then openAfter (some e) rest
    else if e.eventType = .pollEnd ∨ e.eventType = .workerPark then openAfter none rest
    else openAfter open? rest

def toOpenPoll (workerId : Nat) (e : TraceEvent) : SegmentEdgeOpenPoll :=
  ⟨workerId, e.timestamp, e.taskId, e.spawnLocId, e.spawnLoc⟩

/-- The end of a poll, where a worker's first event is one. -/
def danglingClose (workerId : Nat) (events : List TraceEvent) : Option SegmentEdgeDanglingClose :=
  match events.head? with
  | some first => if first.eventType = .pollEnd then some ⟨workerId, first.timestamp⟩ else none
  | none => none

def computeSegmentEdgePolls (trace : ParsedTrace) : SegmentEdgePolls where
  openAtEnd := (lifecycleWorkers trace.events).filterMap fun w =>
    (openAfter none (workerEvents w trace.events)).map (toOpenPoll w)
  closeAtStart := (lifecycleWorkers trace.events).filterMap fun w =>
    danglingClose w (workerEvents w trace.events)

def segmentInvariants (trace : ParsedTrace) : SegmentParseInvariants where
  minTs := trace.minTs
  maxTs := trace.maxTs
  workerIds := lifecycleWorkers trace.events

/-! ## Spots of the listing -/

abbrev Entry : Type := SegmentEntry ParsedTrace SegmentParseInvariants SegmentEdgePolls

structure Spot where
  entry : Option Entry
  resident : Bool
  invariants : Option SegmentParseInvariants
  edgePolls : Option SegmentEdgePolls

def toSpot (entry : Option Entry) : Spot where
  entry := entry
  resident := entry.any fun entry =>
    entry.state = .parsed && entry.trace.isSome && entry.edgePolls.isSome && entry.invariants.isSome
  invariants := entry.bind SegmentEntry.invariants
  edgePolls := entry.bind SegmentEntry.edgePolls

/-- No unobserved time between two segments. -/
def adjacent (left right : Spot) : Bool :=
  match left.entry, right.entry with
  | some left, some right => decide (right.extent.startNs ≤ left.extent.endNs)
  | _, _ => false

def openAt (workerId : Nat) (spot : Spot) : Option SegmentEdgeOpenPoll :=
  spot.edgePolls.bind fun polls => polls.openAtEnd.find? fun o => o.workerId = workerId

def closeAt (workerId : Nat) (spot : Spot) : Option SegmentEdgeDanglingClose :=
  spot.edgePolls.bind fun polls => polls.closeAtStart.find? fun c => c.workerId = workerId

/-! ## Stretches -/

/-- A maximal resident span that a chain covers. -/
structure Stretch where
  start : Int
  endTs : Int
  /-- The chain's start lies in it. -/
  openObserved : Bool
  /-- The chain's end lies in it. -/
  closeObserved : Bool

/-- What the walk over the listing emits for a worker. -/
inductive Emitted where
  | stretch (s : Stretch) (identity : Option SegmentEdgeOpenPoll)
  | stitched (opened : SegmentEdgeOpenPoll) (endTs : Int)

def emitStretches (stretches : List Stretch) (identity : Option SegmentEdgeOpenPoll) :
    List Emitted :=
  stretches.map fun s => .stretch s identity

/-- An open poll carried rightward, with its stretches newest first. -/
structure Carry where
  opened : SegmentEdgeOpenPoll
  /-- The origin and every segment since are resident. -/
  stitchable : Bool
  stretches : List Stretch
  /-- The newest stretch reaches the boundary. -/
  live : Bool

def Carry.emit (carry : Carry) : List Emitted :=
  emitStretches carry.stretches.reverse (some carry.opened)

def startCarry (spot : Spot) (opened : SegmentEdgeOpenPoll) : Carry :=
  match spot.resident, spot.invariants with
  | true, some invariants =>
    { opened := opened
      stitchable := true
      stretches :=
        [⟨opened.start, max (invariants.maxTs.getD opened.start) opened.start, true, false⟩]
      live := true }
  | _, _ => { opened := opened, stitchable := false, stretches := [], live := false }

/-! ## A close without a carry -/

inductive LeftStop where
  | listingStart
  | gap
  | unparsed
  | active (stopper : Spot)

/-- Over silent segments to the left: why it stops, and the stretches with the leftmost
first. -/
def walkLeft (workerId : Nat) (right : Spot) :
    List Spot → List Stretch → Bool → LeftStop × List Stretch
  | [], stretches, _ => (.listingStart, stretches)
  | prev :: rest, stretches, live =>
    if adjacent prev right then
      match prev.invariants with
      | none => (.unparsed, stretches)
      | some invariants =>
        if workerId ∈ invariants.workerIds then (.active prev, stretches)
        else if prev.resident then
          match invariants.minTs, invariants.maxTs with
          | some minTs, some maxTs =>
            match live, stretches with
            | true, last :: older =>
              walkLeft workerId prev rest ({ last with start := min last.start minTs } :: older)
                true
            | _, _ => walkLeft workerId prev rest (⟨minTs, maxTs, false, false⟩ :: stretches) true
          | _, _ => walkLeft workerId prev rest stretches live
        else walkLeft workerId prev rest stretches false
    else (.gap, stretches)

/-- The stretch of a segment that starts with the close. -/
def closeStretch (invariants : SegmentParseInvariants) (endTs : Int) : Stretch :=
  ⟨min (invariants.minTs.getD endTs) endTs, endTs, false, true⟩

/-- What the segment of the close shows of its poll. -/
def closeStretches (spot : Spot) (endTs : Int) : List Stretch :=
  match spot.resident, spot.invariants with
  | true, some invariants => [closeStretch invariants endTs]
  | _, _ => []

def resolveDanglingClose (workerId : Nat) (spot : Spot) (passed : List Spot)
    (close : SegmentEdgeDanglingClose) : List Emitted :=
  match walkLeft workerId spot passed (closeStretches spot close.endTs) spot.resident with
  | (.listingStart, _) => []
  | (.active stopper, stretches) =>
    -- The start was lost, unless nobody kept the edges.
    if stopper.edgePolls.isSome then [] else emitStretches stretches none
  | (_, stretches) => emitStretches stretches none

/-! ## The walk over the listing -/

/-- The carry over a silent segment. -/
def Carry.extend (carry : Carry) (spot : Spot) (invariants : SegmentParseInvariants) : Carry :=
  let stitchable := carry.stitchable && spot.resident
  if spot.resident then
    match invariants.minTs, invariants.maxTs with
    | some minTs, some maxTs =>
      match carry.live, carry.stretches with
      | true, last :: older =>
        { carry with
          stitchable := stitchable
          stretches := { last with endTs := max last.endTs maxTs } :: older }
      | _, _ =>
        { carry with
          stitchable := stitchable
          stretches := ⟨minTs, maxTs, false, false⟩ :: carry.stretches
          live := true }
    | _, _ => { carry with stitchable := stitchable }
  else { carry with stitchable := stitchable, live := false }

/-- A close that is resident ends the carry. -/
def Carry.close (carry : Carry) (invariants : SegmentParseInvariants) (endTs : Int) :
    List Emitted :=
  if carry.stitchable then [.stitched carry.opened endTs]
  else
    match carry.live, carry.stretches with
    | true, last :: older =>
      { carry with
        stretches :=
          { last with endTs := max last.endTs endTs, closeObserved := true } :: older }.emit
    | _, _ => { carry with stretches := closeStretch invariants endTs :: carry.stretches }.emit

/-- What a carry does at a segment: what is emitted, the carry that goes on, and whether
it consumed a close. -/
def Carry.advance (workerId : Nat) (carry : Carry) (prev? : Option Spot) (spot : Spot) :
    List Emitted × Option Carry × Bool :=
  if prev?.any fun prev => adjacent prev spot then
    match spot.invariants with
    | none => (carry.emit, none, false)
    | some invariants =>
      if workerId ∈ invariants.workerIds then
        if spot.edgePolls.isSome then
          match closeAt workerId spot with
          | none => ([], none, false)
          | some close =>
            if spot.resident then (carry.close invariants close.endTs, none, true)
            else (carry.emit, none, true)
        else (carry.emit, none, false)
      else ([], some (carry.extend spot invariants), false)
  else (carry.emit, none, false)

/-- A close of the segment that no carry consumed. -/
def resolveClose (workerId : Nat) (spot : Spot) (passed : List Spot) : List Emitted :=
  (closeAt workerId spot).elim [] (resolveDanglingClose workerId spot passed)

/-- One segment: what is emitted, and the carry to the next. -/
def walkSpot (workerId : Nat) (passed : List Spot) (carry : Option Carry) (spot : Spot) :
    List Emitted × Option Carry :=
  match carry.elim ([], none, false) fun carry => carry.advance workerId passed.head? spot with
  | (emitted, some carry, _) => (emitted, some carry)
  | (emitted, none, closeConsumed) =>
    (emitted ++ if closeConsumed then [] else resolveClose workerId spot passed,
      (openAt workerId spot).map (startCarry spot))

def walkListing (workerId : Nat) : List Spot → Option Carry → List Spot → List Emitted
  | _, _, [] => []
  | passed, carry, spot :: rest =>
    let step := walkSpot workerId passed carry spot
    step.1 ++ walkListing workerId (spot :: passed) step.2 rest

/-! ## The window's polls -/

inductive TruncatedAt where
  | start
  | end_
  | both
  deriving DecidableEq

/-- A poll that the edge of the window cuts. -/
structure WindowEdgePoll where
  workerId : Nat
  start : Int
  endTs : Int
  taskId : Option Nat
  spawnLocId : Option String
  spawnLoc : Option String
  truncatedAt : TruncatedAt
  deriving DecidableEq

structure StitchedBoundaryPoll where
  workerId : Nat
  start : Int
  endTs : Int
  taskId : Nat
  spawnLocId : Option String
  spawnLoc : Option String
  deriving DecidableEq

structure WindowBoundaryPolls where
  truncated : List WindowEdgePoll
  stitched : List StitchedBoundaryPoll
  deriving DecidableEq

def Emitted.truncated? (workerId : Nat) : Emitted → Option WindowEdgePoll
  | .stretch s identity =>
    some
      { workerId := workerId
        start := s.start
        endTs := s.endTs
        taskId := identity.map SegmentEdgeOpenPoll.taskId
        spawnLocId := identity.bind SegmentEdgeOpenPoll.spawnLocId
        spawnLoc := identity.bind SegmentEdgeOpenPoll.spawnLoc
        truncatedAt :=
          if s.openObserved then .end_ else if s.closeObserved then .start else .both }
  | .stitched _ _ => none

def Emitted.stitched? (workerId : Nat) : Emitted → Option StitchedBoundaryPoll
  | .stretch _ _ => none
  | .stitched opened endTs =>
    some ⟨workerId, opened.start, endTs, opened.taskId, opened.spawnLocId, opened.spawnLoc⟩

/-- The workers with evidence at some edge, in order. -/
def edgeWorkers (spots : List Spot) : List Nat :=
  (spots.flatMap fun spot =>
    spot.edgePolls.elim [] fun polls =>
      polls.openAtEnd.map SegmentEdgeOpenPoll.workerId ++
        polls.closeAtStart.map SegmentEdgeDanglingClose.workerId).dedup.insertionSort (· ≤ ·)

/-- What is emitted for a worker over the whole listing. -/
def emittedFor (workerId : Nat) (spots : List Spot) : List Emitted :=
  walkListing workerId [] none spots

def computeWindowBoundaryPolls {K : Type} (orderedKeys : List K) (entries : K → Option Entry) :
    WindowBoundaryPolls :=
  let spots := orderedKeys.map fun key => toSpot (entries key)
  let workers := edgeWorkers spots
  { truncated := workers.flatMap fun w => (emittedFor w spots).filterMap (Emitted.truncated? w)
    stitched := workers.flatMap fun w => (emittedFor w spots).filterMap (Emitted.stitched? w) }

end Dial9.Viewer.Boundary
