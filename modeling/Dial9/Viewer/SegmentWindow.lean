/-
# The segment window

The window keeps the segments around a viewport parsed, within a budget of resident
bytes. Each pass over the listing plans what to admit, aborts the jobs that are not
wanted any more, evicts, and starts jobs; prefetching waits for idle time. A job
fetches a segment's bytes, or has them from the cache, and parses them.

Traces and what is derived from them are parameters. A job that has ended, or whose
results nobody waits for, is forgotten.
-/

import Dial9.Viewer.SegmentBudget

namespace Dial9.Viewer.Segments

/-- `SegmentLifecycle`. -/
inductive SegmentState where
  | listed
  | fetching
  | parsed
  | evicted
  | oversized
  deriving DecidableEq

/-- A segment of the store, with what its last parse left. -/
structure SegmentEntry (T I P : Type) where
  state : SegmentState
  extent : TimeRange
  sizeBytes : Nat
  trace : Option T
  rawByteLength : Option Nat
  invariants : Option I
  edgePolls : Option P

/-- The listing and the options of a window, with what it derives from a parse. -/
structure WindowOptions (K T I P : Type) where
  segments : List (ListedSegment K)
  residentBudget : Nat
  /-- `evictionTriggerBytes`, a fraction of the budget. -/
  evictionTrigger : Nat
  trigger_le_budget : evictionTrigger ≤ residentBudget
  cacheTrigger : Nat
  segmentInvariants : T → I
  computeSegmentEdgePolls : T → P

/-- A job from its start until its promise settles. -/
structure Job (K : Type) where
  key : K
  aborted : Bool
  /-- The state that an abort or a failure goes back to. -/
  revertTo : SegmentState
  /-- The bytes are there, and the parser is at work. -/
  parsing : Bool

structure Window (K T I P : Type) where
  entries : K → Option (SegmentEntry T I P)
  inflight : K → Option Nat
  jobs : Nat → Option (Job K)
  nextJob : Nat
  failed : List K
  /-- Prefetches that wait for an idle callback. -/
  pendingPrefetch : List K
  view : Option TimeRange
  disposed : Bool
  /-- The raw bytes that are kept, by their length, least recently used first. -/
  cache : List (K × Nat)
  /-- The trace of a segment's last parse, for the record. -/
  lastParse : K → Option T

inductive Event (K T : Type) where
  | setViewport (view : TimeRange)
  | fetched (job byteLength : Nat)
  /-- The fetch or the parse of a job failed. -/
  | jobFailed (job : Nat)
  | parsed (job : Nat) (trace : T) (rawByteLength : Nat)
  | idle (key : K)
  | dispose

variable {K T I P : Type} [DecidableEq K]

/-! ## The cache of raw bytes -/

/-- The entries that stay while the total is above the trigger, oldest first. -/
def dropOldest (trigger : Nat) (key : K) : List (K × Nat) → Nat → List (K × Nat)
  | [], _ => []
  | entry :: rest, total =>
    if total ≤ trigger then entry :: rest
    else if entry.1 = key then entry :: dropOldest trigger key rest total
    else dropOldest trigger key rest (total - entry.2)

def cacheSet (trigger : Nat) (cache : List (K × Nat)) (key : K) (byteLength : Nat) :
    List (K × Nat) :=
  let others := cache.filter fun entry => decide (entry.1 ≠ key)
  if trigger < byteLength then others
  else
    let entries := others ++ [(key, byteLength)]
    dropOldest trigger key entries (entries.map Prod.snd).sum

/-- Whether the key is there, and the cache with it used last. -/
def cacheGet (cache : List (K × Nat)) (key : K) : Bool × List (K × Nat) :=
  match cache.find? fun entry => decide (entry.1 = key) with
  | none => (false, cache)
  | some entry => (true, (cache.filter fun entry => decide (entry.1 ≠ key)) ++ [entry])

namespace WindowOptions

variable (opts : WindowOptions K T I P)

def orderedKeys : List K := opts.segments.map ListedSegment.key

/-- Each key of the listing, where it is listed first. -/
def listedKeys : List K := opts.orderedKeys.reverse.dedup.reverse

/-- A key that is listed again is that of the last such segment. -/
def byKey (key : K) : Option (ListedSegment K) :=
  opts.segments.reverse.find? fun s => decide (s.key = key)

end WindowOptions

namespace Window

variable (opts : WindowOptions K T I P) (w : Window K T I P)

/-- Every segment is listed at first. -/
def create : Window K T I P where
  entries := fun key =>
    (opts.byKey key).map fun s => ⟨.listed, s.extent, s.sizeBytes, none, none, none, none⟩
  inflight := fun _ => none
  jobs := fun _ => none
  nextJob := 0
  failed := []
  pendingPrefetch := []
  view := none
  disposed := false
  cache := []
  lastParse := fun _ => none

def setState (key : K) (state : SegmentState) : Window K T I P :=
  { w with
    entries := Function.update w.entries key
      ((w.entries key).map fun entry => { entry with state := state }) }

/-! ## Admission -/

/-- The size that the segment had when it was parsed, or an estimate from the listing. -/
def estimateRawBytes (key : K) : Nat :=
  match (w.entries key).bind SegmentEntry.rawByteLength with
  | some rawByteLength => rawByteLength
  | none => (opts.byKey key).elim 0 fun s => s.sizeBytes * gzipExpansionEstimate

def isOversized (key : K) : Bool :=
  decide ((w.entries key).map SegmentEntry.state = some .oversized)

/-- What is needed is admitted first, and then what is prefetched, by what is known of
the sizes. -/
def planOf (oversized : K → Bool) (estimate : K → Nat) (view : TimeRange) :
    AdmissionPlan K × AdmissionPlan K :=
  let geometricNeed := computeNeedSet opts.segments view
  let geometricPrefetch := computePrefetchSet opts.segments geometricNeed view
  let toCandidate := fun key => (opts.byKey key).map fun s =>
    (⟨key, s.extent, estimate key⟩ : AdmissionCandidate K)
  let needKeys := geometricNeed.filter fun key => !oversized key
  let prefetchKeys := geometricPrefetch.filter fun key => !oversized key
  let needPlan := capToBudget (needKeys.filterMap toCandidate) view opts.evictionTrigger 0
  let needBytes := (needPlan.admitted.map estimate).sum
  (needPlan,
    capToBudget (prefetchKeys.filterMap toCandidate) view opts.evictionTrigger needBytes)

def planAdmission (view : TimeRange) : AdmissionPlan K × AdmissionPlan K :=
  planOf opts w.isOversized (w.estimateRawBytes opts) view

def wanted (plan : AdmissionPlan K × AdmissionPlan K) : List K :=
  plan.1.admitted ++ plan.2.admitted

/-! ## Jobs -/

def abortJob (key : K) (id : Nat) : Window K T I P :=
  match w.jobs id with
  | none => w
  | some job =>
    { w with
      jobs := Function.update w.jobs id (some { job with aborted := true })
      inflight := Function.update w.inflight key none }.setState key job.revertTo

/-- The jobs in flight that are not wanted are aborted. -/
def abortUnwanted (keys wanted : List K) : Window K T I P :=
  keys.foldl
    (fun w key =>
      match w.inflight key with
      | none => w
      | some id => if key ∈ wanted then w else w.abortJob key id) w

def startJob (key : K) : Window K T I P :=
  match w.entries key with
  | none => w
  | some entry =>
    if entry.state = .parsed ∨ entry.state = .oversized then w
    else if w.inflight key ≠ none ∨ key ∈ w.failed then w
    else
      let (hit, cache) := cacheGet w.cache key
      let job : Job K :=
        { key := key
          aborted := false
          revertTo := if entry.invariants.isSome then .evicted else .listed
          parsing := hit }
      { w with
        jobs := Function.update w.jobs w.nextJob (some job)
        inflight := Function.update w.inflight key (some w.nextJob)
        nextJob := w.nextJob + 1
        cache := cache }.setState key .fetching

/-! ## The pass over the listing -/

/-- The parsed segments. -/
def resident : List (ResidentSegment K) :=
  opts.listedKeys.filterMap fun key =>
    (w.entries key).bind fun entry =>
      if entry.state = .parsed then
        entry.rawByteLength.map fun rawByteLength => ⟨key, entry.extent, rawByteLength⟩
      else none

def isParsed (key : K) : Bool :=
  decide ((w.entries key).map SegmentEntry.state = some .parsed)

/-- The trace is dropped, and what is small is kept. -/
def evict (keys : List K) : Window K T I P :=
  { w with
    entries := fun key =>
      if key ∈ keys then
        (w.entries key).map fun entry => { entry with trace := none, state := .evicted }
      else w.entries key }

def schedulePrefetch (key : K) : Window K T I P :=
  if key ∈ w.pendingPrefetch then w
  else { w with pendingPrefetch := w.pendingPrefetch ++ [key] }

/-- Needed segments start at once, unless they were just evicted. -/
def startNeeded (keys evicted : List K) : Window K T I P :=
  keys.foldl (fun w key => if key ∈ evicted then w else w.startJob key) w

def scheduleAll (keys evicted : List K) : Window K T I P :=
  keys.foldl
    (fun w key =>
      if key ∈ evicted then w
      else if w.entries key |>.any fun entry => entry.state ≠ .parsed ∧ w.inflight key = none then
        w.schedulePrefetch key
      else w) w

/-- What `planEviction` evicts for a plan. -/
def evictions (plan : AdmissionPlan K × AdmissionPlan K) (view : TimeRange) : List K :=
  let reservedBytes :=
    (((wanted plan).dedup.filter fun key => !w.isParsed key).map (w.estimateRawBytes opts)).sum
  planEviction (w.resident opts) plan.1.admitted plan.2.admitted view opts.residentBudget
    opts.evictionTrigger reservedBytes

def reconcile : Window K T I P :=
  match w.disposed, w.view with
  | false, some view =>
    let plan := w.planAdmission opts view
    let w := w.abortUnwanted opts.orderedKeys (wanted plan)
    let w := { w with failed := w.failed.filter fun key => decide (key ∈ wanted plan) }
    let evicted := w.evictions opts plan view
    ((w.evict evicted).startNeeded plan.1.admitted evicted).scheduleAll plan.2.admitted evicted
  | _, _ => w

/-! ## Steps -/

/-- A job whose results are dropped. -/
def forget (id : Nat) : Window K T I P :=
  { w with jobs := Function.update w.jobs id none }

/-- The parse of a job is done, and its segment is resident or can never be. -/
def complete (id : Nat) (key : K) (trace : T) (rawByteLength : Nat) : Window K T I P :=
  { w.forget id with
    inflight := Function.update w.inflight key none
    entries := Function.update w.entries key
      ((w.entries key).map fun entry =>
        { entry with
          state := if opts.residentBudget < rawByteLength then .oversized else .parsed
          trace := if opts.residentBudget < rawByteLength then entry.trace else some trace
          rawByteLength := some rawByteLength
          invariants := some (opts.segmentInvariants trace)
          edgePolls := some (opts.computeSegmentEdgePolls trace) })
    lastParse := Function.update w.lastParse key (some trace) }

/-- The next state before the pass over the listing, and whether that follows. -/
def apply : Event K T → Option (Window K T I P × Bool)
  | .setViewport view => if w.disposed then none else some ({ w with view := some view }, true)
  | .fetched id byteLength =>
    (w.jobs id).bind fun job =>
      if job.parsing then none
      else if job.aborted then some (w.forget id, false)
      else
        some
          ({ w with
            jobs := Function.update w.jobs id (some { job with parsing := true })
            cache := cacheSet opts.cacheTrigger w.cache job.key byteLength }, false)
  | .parsed id trace rawByteLength =>
    (w.jobs id).bind fun job =>
      if job.parsing then
        if job.aborted ∨ w.disposed then some (w.forget id, false)
        else some (w.complete opts id job.key trace rawByteLength, true)
      else none
  | .jobFailed id =>
    (w.jobs id).map fun job =>
      if job.aborted ∨ w.disposed then (w.forget id, false)
      else
        ({ w.forget id with
          inflight := Function.update w.inflight job.key none
          failed := w.failed.insert job.key }.setState job.key job.revertTo, false)
  | .idle key =>
    if key ∈ w.pendingPrefetch then
      let w :=
        { w with pendingPrefetch := w.pendingPrefetch.filter fun other => decide (other ≠ key) }
      match w.disposed, w.view with
      | false, some view =>
        if key ∈ wanted (w.planAdmission opts view) then some (w.startJob key, false)
        else some (w, false)
      | _, _ => some (w, false)
    else none
  | .dispose =>
    if w.disposed then some (w, false)
    else some ({ w.abortUnwanted opts.orderedKeys [] with disposed := true }, false)

/-- A step, and the pass over the listing where the code makes one. -/
def step (event : Event K T) : Option (Window K T I P) :=
  (w.apply opts event).map fun next => if next.2 then next.1.reconcile opts else next.1

end Window

end Dial9.Viewer.Segments
