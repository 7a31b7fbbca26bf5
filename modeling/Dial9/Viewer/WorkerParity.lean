/-
# Two attributions of a sample to a worker

The viewer's own parser reads the same trace as the decoder. It goes by what the
parks and unparks say in the order in which the stream has them, where the
decoder goes by their times: its map from threads to workers keeps the last
binding of the whole stream, and its turnovers are between neighbours in the
stream. The two agree on a sample when both ways of reading lead to one worker.
-/

import Dial9.Viewer.TidHistory

namespace Dial9.Viewer.TraceParser

open Dial9.Lib Polls

/-! ## The parser -/

/-- `Number` of an integer: 53 bits of it, rounded to the nearest, ties to even. -/
def num (n : Nat) : Nat :=
  let unit := 2 ^ (Nat.log2 n + 1 - 53)
  let below := n / unit
  let rest := n % unit
  if 2 * rest < unit then below * unit
  else if unit < 2 * rest then (below + 1) * unit
  else if below % 2 = 0 then below * unit
  else (below + 1) * unit

theorem num_of_lt {n : Nat} (h : n < 2 ^ 53) : num n = n := by
  have hlog : Nat.log2 n + 1 - 53 = 0 := by
    by_cases hzero : n = 0
    · subst hzero
      rfl
    · have hlt := (Nat.log2_lt hzero).mpr h
      omega
  simp [num, hlog, Nat.mod_one]

inductive EventType where
  | workerPark
  | workerUnpark
  deriving DecidableEq

/-- An entry of `parkUnparkHistory`. -/
structure ParkUnpark where
  eventType : EventType
  timestamp : Nat
  workerId : Nat
  tid : Nat
  deriving DecidableEq

structure Sample where
  timestamp : Nat
  workerId : Nat
  tid : Nat
  source : Nat
  callchain : List Nat
  deriving DecidableEq

/-- What the parse keeps of the events that attribution reads. -/
structure ParseState where
  tidToWorker : Nat → Option Nat
  parkUnparkHistory : List ParkUnpark
  cpuSamples : List Sample

namespace ParseState

def empty : ParseState := ⟨fun _ => none, [], []⟩

def recordTidBinding (state : ParseState) (tid workerId : Nat) : ParseState :=
  { state with tidToWorker := Function.update state.tidToWorker (num tid) (some (num workerId)) }

def pushHistory (state : ParseState) (entry : ParkUnpark) : ParseState :=
  { state with parkUnparkHistory := state.parkUnparkHistory ++ [entry] }

def processFrame (state : ParseState) : Polls.TraceEvent → ParseState
  | .workerPark timestampNs workerId tid =>
    (state.recordTidBinding tid workerId).pushHistory
      ⟨.workerPark, num timestampNs, num workerId, num tid⟩
  | .workerUnpark timestampNs workerId tid =>
    (state.recordTidBinding tid workerId).pushHistory
      ⟨.workerUnpark, num timestampNs, num workerId, num tid⟩
  | .cpuSample event =>
    { state with
      cpuSamples := state.cpuSamples ++
        [⟨num event.timestampNs, num event.workerId, num event.tid, num event.source,
          event.callchain⟩] }
  | _ => state

end ParseState

/-! ### Block-in-place gaps -/

def offWorkerWorkerId : Nat := 255

structure BlockInPlaceGap where
  workerId : Nat
  fromTid : Nat
  toTid : Nat
  startNs : Nat
  endNs : Nat
  deriving DecidableEq

structure WorkerState where
  currentTid : Option Nat
  lastEventTs : Nat
  lastSeenTid : Nat
  deriving DecidableEq

structure GapScan where
  gaps : List BlockInPlaceGap
  state : Nat → Option WorkerState

namespace GapScan

def empty : GapScan := ⟨[], fun _ => none⟩

def currentTid (e : ParkUnpark) : Option Nat :=
  if e.eventType = .workerUnpark then some e.tid else none

def expectedTid (s : WorkerState) : Nat := s.currentTid.getD s.lastSeenTid

/-- One event of the history. -/
def note (scan : GapScan) (e : ParkUnpark) : GapScan :=
  let gaps :=
    match scan.state e.workerId with
    | none => scan.gaps
    | some s =>
      if expectedTid s ≠ e.tid then
        scan.gaps ++ [⟨e.workerId, expectedTid s, e.tid, s.lastEventTs, e.timestamp⟩]
      else scan.gaps
  { gaps := gaps
    state := Function.update scan.state e.workerId (some ⟨currentTid e, e.timestamp, e.tid⟩) }

end GapScan

def sortGaps (gaps : List BlockInPlaceGap) : List BlockInPlaceGap :=
  gaps.insertionSort fun a b => a.startNs ≤ b.startNs

/-- A gap is listed under both of its threads. -/
def indexByTid (gapsByTid : Nat → List BlockInPlaceGap) (g : BlockInPlaceGap) :
    Nat → List BlockInPlaceGap :=
  let gapsByTid := Function.update gapsByTid g.fromTid (gapsByTid g.fromTid ++ [g])
  Function.update gapsByTid g.toTid (gapsByTid g.toTid ++ [g])

/-- The scan of a sorted list of gaps, which stops at the first one that starts later. -/
def withinGap (ts : Nat) : List BlockInPlaceGap → Bool
  | [] => false
  | g :: rest => if ts < g.startNs then false else if ts < g.endNs then true else withinGap ts rest

/-- A sample of a thread within one of its gaps is taken off its worker. -/
def rewriteWorker (gapsByTid : Nat → List BlockInPlaceGap) (sample : Sample) : Sample :=
  if withinGap sample.timestamp (sortGaps (gapsByTid sample.tid)) then
    { sample with workerId := offWorkerWorkerId }
  else sample

def deriveBlockInPlaceGaps (events : List ParkUnpark) (cpuSamples : List Sample) :
    List BlockInPlaceGap × List Sample :=
  let gaps := sortGaps (events.foldl GapScan.note .empty).gaps
  (gaps, cpuSamples.map (rewriteWorker (gaps.foldl indexByTid fun _ => [])))

/-- A thread without a worker leaves the value of the wire. -/
def resolveWorker (tidToWorker : Nat → Option Nat) (sample : Sample) : Sample :=
  match tidToWorker sample.tid with
  | none => sample
  | some w => { sample with workerId := w }

/-- The samples of the parsed trace. -/
def finalizeParse (state : ParseState) : List Sample :=
  (deriveBlockInPlaceGaps state.parkUnparkHistory
    (state.cpuSamples.map (resolveWorker state.tidToWorker))).2

def parse (stream : List Polls.TraceEvent) : List Sample :=
  finalizeParse (stream.foldl ParseState.processFrame .empty)

/-! ## What the parser goes by -/

/-- The bounds of a stream in the viewer's numbers. -/
def numBounds (stream : List Polls.TraceEvent) : List Bound :=
  (bounds stream).map fun b => ⟨num b.time, num b.tid, num b.workerId⟩

def cpuSamples (stream : List Polls.TraceEvent) : List CpuSample :=
  stream.filterMap fun
    | .cpuSample event => some event
    | _ => none

def ofEntry (e : ParkUnpark) : Bound := ⟨e.timestamp, e.tid, e.workerId⟩

def ofSample (event : CpuSample) : Sample :=
  ⟨num event.timestampNs, num event.workerId, num event.tid, num event.source, event.callchain⟩

/-- The state holds the last worker of each thread, the bounds and the samples of a stream. -/
structure Reads (state : ParseState) (stream : List Polls.TraceEvent) : Prop where
  tidToWorker : ∀ tid, state.tidToWorker tid = lastBound (numBounds stream) tid
  history : state.parkUnparkHistory.map ofEntry = numBounds stream
  samples : state.cpuSamples = (cpuSamples stream).map ofSample

theorem lastBound_concat {bounds : List Bound} {b : Bound} {tid : Nat} :
    lastBound (bounds ++ [b]) tid =
      if b.tid = tid then some b.workerId else lastBound bounds tid := by
  rw [lastBound, ofTid_concat]
  by_cases h : b.tid = tid
  · rw [if_pos h, if_pos h, List.getLast?_concat, Option.map_some]
  · rw [if_neg h, if_neg h, lastBound]

variable {stream : List Polls.TraceEvent}

theorem Reads.bind {state : ParseState} (h : Reads state stream)
    {event : Polls.TraceEvent} {b : Bound} (hbound : bound event = some b) {eventType : EventType}
    (hstep : state.processFrame event = (state.recordTidBinding b.tid b.workerId).pushHistory
      ⟨eventType, num b.time, num b.workerId, num b.tid⟩)
    (hsample : cpuSamples (stream ++ [event]) = cpuSamples stream) :
    Reads (state.processFrame event) (stream ++ [event]) := by
  have hbounds : numBounds (stream ++ [event]) =
      numBounds stream ++ [⟨num b.time, num b.tid, num b.workerId⟩] := by
    rw [numBounds, bounds_concat_some hbound, List.map_append]
    rfl
  rw [hstep]
  constructor
  · intro tid
    rw [hbounds, lastBound_concat]
    show Function.update state.tidToWorker (num b.tid) (some (num b.workerId)) tid = _
    rw [Function.update_apply, h.tidToWorker]
    simp only [eq_comm]
  · rw [hbounds, ← h.history]
    simp [ParseState.pushHistory, ParseState.recordTidBinding, ofEntry]
  · rw [hsample]
    exact h.samples

theorem Reads.pass {state : ParseState} (h : Reads state stream)
    {event : Polls.TraceEvent} (hbound : bound event = none)
    (hstep : state.processFrame event = state)
    (hsample : cpuSamples (stream ++ [event]) = cpuSamples stream) :
    Reads (state.processFrame event) (stream ++ [event]) := by
  have hbounds : numBounds (stream ++ [event]) = numBounds stream := by
    rw [numBounds, bounds_concat_none hbound, numBounds]
  rw [hstep]
  exact ⟨hbounds ▸ h.tidToWorker, hbounds ▸ h.history, hsample ▸ h.samples⟩

theorem reads_foldl (stream : List Polls.TraceEvent) :
    Reads (stream.foldl ParseState.processFrame .empty) stream := by
  induction stream using List.reverseRecOn with
  | nil => exact ⟨fun _ => rfl, rfl, rfl⟩
  | append_singleton stream event ih =>
    rw [List.foldl_concat]
    cases event with
    | workerPark | workerUnpark => exact ih.bind rfl rfl (by simp [cpuSamples])
    | pollStart | pollEnd | taskSpawn | taskTerminate | wake =>
      exact ih.pass rfl rfl (by simp [cpuSamples])
    | cpuSample event =>
      have hbounds : numBounds (stream ++ [.cpuSample event]) = numBounds stream := by
        rw [numBounds, bounds_concat_none rfl, numBounds]
      constructor
      · rw [hbounds]
        exact ih.tidToWorker
      · rw [hbounds]
        exact ih.history
      · simp [ParseState.processFrame, ih.samples, cpuSamples, ofSample]

/-! ### Gaps -/

def spanOf (prev next : Bound) : BlockInPlaceGap :=
  ⟨next.workerId, prev.tid, next.tid, prev.time, next.time⟩

/-- The scan holds the last bound of each worker and the turnovers so far. -/
structure Scans (scan : GapScan) (bounds : List Bound) : Prop where
  state : ∀ workerId,
    (scan.state workerId).map (fun s => (GapScan.expectedTid s, s.lastEventTs)) =
      (ofWorker bounds workerId).getLast?.map fun bound => (bound.tid, bound.time)
  gaps : ∀ g, g ∈ scan.gaps ↔ ∃ prev next, Turnover bounds prev next ∧ g = spanOf prev next

@[simp] theorem expectedTid_currentTid {e : ParkUnpark} :
    GapScan.expectedTid ⟨GapScan.currentTid e, e.timestamp, e.tid⟩ = e.tid := by
  rcases e with ⟨eventType, timestamp, workerId, tid⟩
  cases eventType with
  | workerPark | workerUnpark => rfl

theorem Scans.note {scan : GapScan} {bounds : List Bound} (h : Scans scan bounds)
    (e : ParkUnpark) : Scans (scan.note e) (bounds ++ [ofEntry e]) := by
  have hlast := h.state e.workerId
  constructor
  · intro other
    show Option.map _ (Function.update scan.state e.workerId
      (some ⟨GapScan.currentTid e, e.timestamp, e.tid⟩) other) = _
    rw [Function.update_apply, ofWorker_concat]
    by_cases heq : other = e.workerId
    · subst heq
      simp [ofEntry]
    · have hne : (ofEntry e).workerId ≠ other := Ne.symm heq
      rw [if_neg heq, if_neg hne]
      exact h.state other
  · intro g
    simp only [turnover_concat]
    cases hstate : scan.state e.workerId with
    | none =>
      rw [hstate, Option.map_none] at hlast
      have hnone : (ofWorker bounds (ofEntry e).workerId).getLast? = none :=
        Option.map_eq_none_iff.mp hlast.symm
      have hgaps : (scan.note e).gaps = scan.gaps := by
        simp only [GapScan.note, hstate]
      simp only [hgaps, h.gaps, hnone, reduceCtorEq, false_and, or_false]
    | some s =>
      rw [hstate, Option.map_some] at hlast
      rcases Option.map_eq_some_iff.mp hlast.symm with ⟨prev, hprev, hpair⟩
      rcases Prod.mk.inj hpair with ⟨htid, htime⟩
      have hprev' : (ofWorker bounds (ofEntry e).workerId).getLast? = some prev := hprev
      have hgaps : (scan.note e).gaps =
          if prev.tid ≠ e.tid then scan.gaps ++ [spanOf prev (ofEntry e)] else scan.gaps := by
        simp only [GapScan.note, hstate, htid, htime, spanOf, ofEntry]
      rw [hgaps]
      constructor
      · intro hmem
        by_cases hdiffer : prev.tid ≠ e.tid
        · rw [if_pos hdiffer] at hmem
          rcases List.mem_append.mp hmem with hearlier | hnew
          · rcases (h.gaps g).mp hearlier with ⟨prev', next', hturn, hspan⟩
            exact ⟨prev', next', .inl hturn, hspan⟩
          · exact ⟨prev, ofEntry e, .inr ⟨hprev', rfl, hdiffer⟩, List.mem_singleton.mp hnew⟩
        · rw [if_neg hdiffer] at hmem
          rcases (h.gaps g).mp hmem with ⟨prev', next', hturn, hspan⟩
          exact ⟨prev', next', .inl hturn, hspan⟩
      · rintro ⟨prev', next', hturn | ⟨hlast', rfl, hdiffer⟩, rfl⟩
        · have hearlier := (h.gaps (spanOf prev' next')).mpr ⟨prev', next', hturn, rfl⟩
          by_cases hdiffer : prev.tid ≠ e.tid
          · rw [if_pos hdiffer]
            exact List.mem_append_left _ hearlier
          · rw [if_neg hdiffer]
            exact hearlier
        · rw [hprev'] at hlast'
          cases hlast'
          have hnew : prev.tid ≠ e.tid := hdiffer
          rw [if_pos hnew]
          exact List.mem_concat_self

theorem scans_foldl (history : List ParkUnpark) :
    Scans (history.foldl GapScan.note .empty) (history.map ofEntry) := by
  induction history using List.reverseRecOn with
  | nil =>
    refine ⟨fun _ => rfl, fun g => ⟨fun hmem => absurd hmem List.not_mem_nil, ?_⟩⟩
    rintro ⟨prev, next, ⟨hadjacent, -⟩, -⟩
    simpa [ofWorker] using hadjacent.length_le
  | append_singleton history e ih =>
    rw [List.foldl_concat, List.map_append]
    exact ih.note e

theorem mem_indexByTid (gapsByTid : Nat → List BlockInPlaceGap) (g other : BlockInPlaceGap)
    (tid : Nat) : other ∈ indexByTid gapsByTid g tid ↔
      other ∈ gapsByTid tid ∨ (other = g ∧ (tid = g.fromTid ∨ tid = g.toTid)) := by
  simp only [indexByTid, Function.update_apply]
  by_cases hto : tid = g.toTid
  · by_cases hsame : g.toTid = g.fromTid
    · simp [hto, hsame]
    · simp [hto, hsame]
  · by_cases hfrom : tid = g.fromTid
    · subst hfrom
      simp [hto]
    · simp [hto, hfrom]

theorem mem_foldl_indexByTid (gaps : List BlockInPlaceGap) (other : BlockInPlaceGap) (tid : Nat) :
    other ∈ gaps.foldl indexByTid (fun _ => []) tid ↔
      other ∈ gaps ∧ (tid = other.fromTid ∨ tid = other.toTid) := by
  induction gaps using List.reverseRecOn with
  | nil => simp
  | append_singleton gaps g ih =>
    rw [List.foldl_concat, mem_indexByTid, ih, List.mem_append, List.mem_singleton, or_and_right]
    apply or_congr_right
    constructor
    · rintro ⟨rfl, htid⟩
      exact ⟨rfl, htid⟩
    · rintro ⟨rfl, htid⟩
      exact ⟨rfl, htid⟩

/-- On a sorted list the scan finds a gap around the time whenever there is one. -/
theorem withinGap_iff {ts : Nat} {gaps : List BlockInPlaceGap}
    (hsorted : gaps.Pairwise fun a b => a.startNs ≤ b.startNs) :
    withinGap ts gaps = true ↔ ∃ g ∈ gaps, Covers (g.startNs, g.endNs) ts := by
  induction gaps with
  | nil => simp [withinGap]
  | cons g gaps ih =>
    rcases List.pairwise_cons.mp hsorted with ⟨hfirst, hrest⟩
    rw [withinGap, List.exists_mem_cons_iff, ← ih hrest]
    by_cases hlater : ts < g.startNs
    · have hnone : ¬ ∃ other ∈ gaps, Covers (other.startNs, other.endNs) ts := by
        rintro ⟨other, hother, hcovers⟩
        have hstart := hfirst other hother
        have hreached : other.startNs ≤ ts := hcovers.1
        omega
      have hfalse : withinGap ts gaps = false := by
        rw [← Bool.not_eq_true, ih hrest]
        exact hnone
      simp [hlater, hfalse, Covers]
    · rw [if_neg hlater]
      by_cases hinside : ts < g.endNs
      · simp [hinside, Covers, Nat.le_of_not_lt hlater]
      · simp [hinside, Covers]

/-- A sample is rewritten exactly when a turnover around it names its thread. -/
theorem withinGap_history (history : List ParkUnpark) (tid ts : Nat) :
    withinGap ts (sortGaps
      ((sortGaps (history.foldl GapScan.note .empty).gaps).foldl indexByTid (fun _ => []) tid)) =
        true ↔ Handoff (history.map ofEntry) tid ts := by
  have hsorted : ∀ gaps, (sortGaps gaps).Pairwise fun a b => a.startNs ≤ b.startNs :=
    List.pairwise_insertionSort _
  have hmem : ∀ gaps (g : BlockInPlaceGap), g ∈ sortGaps gaps ↔ g ∈ gaps :=
    fun gaps g => (List.perm_insertionSort _ gaps).mem_iff
  rw [withinGap_iff (hsorted _)]
  simp only [hmem, mem_foldl_indexByTid, (scans_foldl history).gaps, Handoff, Gap]
  constructor
  · rintro ⟨_, ⟨⟨prev, next, hturn, rfl⟩, htid⟩, hcovers⟩
    exact ⟨_, ⟨prev, next, hturn, htid, rfl⟩, hcovers⟩
  · rintro ⟨_, ⟨prev, next, hturn, htid, rfl⟩, hcovers⟩
    exact ⟨spanOf prev next, ⟨⟨prev, next, hturn, rfl⟩, htid⟩, hcovers⟩

/-! ## Parity -/

/-- The last worker of the thread in the stream, or the one on the wire. -/
def lastSeen (stream : List Polls.TraceEvent) (event : CpuSample) : Nat :=
  (lastBound (numBounds stream) (num event.tid)).getD (num event.workerId)

/-- A turnover between neighbours in the stream names the thread of the sample. -/
def InGap (stream : List Polls.TraceEvent) (event : CpuSample) : Prop :=
  Handoff (numBounds stream) (num event.tid) (num event.timestampNs)

/-- What the parser leaves on a sample: the sentinel in a gap, and else the last worker. -/
structure Leaves (stream : List Polls.TraceEvent) (event : CpuSample) (sample : Sample) : Prop where
  inGap : InGap stream event → sample.workerId = offWorkerWorkerId
  outside : ¬ InGap stream event → sample.workerId = lastSeen stream event

theorem resolveWorker_ofSample (tidToWorker : Nat → Option Nat) (event : CpuSample) :
    resolveWorker tidToWorker (ofSample event) =
      { ofSample event with
        workerId := (tidToWorker (num event.tid)).getD (num event.workerId) } := by
  unfold resolveWorker
  have htid : (ofSample event).tid = num event.tid := rfl
  rw [htid]
  cases tidToWorker (num event.tid) with
  | none | some _ => rfl

theorem parse_leaves (stream : List Polls.TraceEvent) :
    List.Forall₂ (Leaves stream) (cpuSamples stream) (parse stream) := by
  have hreads := reads_foldl stream
  unfold parse finalizeParse deriveBlockInPlaceGaps
  simp only [hreads.samples, List.map_map]
  rw [List.forall₂_map_right_iff, List.forall₂_same]
  intro event _
  have hwithin := withinGap_history
    (stream.foldl ParseState.processFrame .empty).parkUnparkHistory (num event.tid)
    (num event.timestampNs)
  rw [hreads.history] at hwithin
  simp only [Function.comp_apply, resolveWorker_ofSample, hreads.tidToWorker, rewriteWorker]
  constructor
  · intro hgap
    exact congrArg Sample.workerId (if_pos (hwithin.mpr hgap))
  · intro hgap
    exact congrArg Sample.workerId (if_neg (mt hwithin.mp hgap))

/-- One worker for a sample: the same runtime worker, or none and one of the two
sentinels. -/
structure Parity (worker : Option Nat) (workerId : Nat) : Prop where
  on : ∀ w < 254, worker = some w ↔ workerId = w
  off : worker = none ↔ workerId = 254 ∨ workerId = 255

/-- The decoder has no worker for the sample, by the times of the events. -/
def OffRuntime (events : List Polls.TraceEvent) (event : CpuSample) : Prop :=
  Handoff (bounds events) event.tid event.timestampNs ∨
    ∀ w ∈ boundAt (bounds events) event.tid event.timestampNs, 254 ≤ w

/-- Both orders of the events lead to one worker for the sample. -/
inductive Alike (stream events : List Polls.TraceEvent) (event : CpuSample) : Prop where
  /-- A turnover in the stream names the thread, and the decoder has no worker either. -/
  | inGap (hgap : InGap stream event) (hoff : OffRuntime events event)
  /-- The thread is in no turnover of either order, and the worker it was bound to by
  the time of the sample is the last one in the stream. -/
  | worker (hgap : ¬ InGap stream event)
      (hhandoff : ¬ Handoff (bounds events) event.tid event.timestampNs)
      (hbound : boundAt (bounds events) event.tid event.timestampNs = some (lastSeen stream event))
      (hruntime : lastSeen stream event < 254)
  /-- The last worker in the stream is a sentinel, and the decoder has none. -/
  | sentinel (hgap : ¬ InGap stream event)
      (hlast : lastSeen stream event = 254 ∨ lastSeen stream event = 255)
      (hoff : OffRuntime events event)

section Attribution

variable {sortRecords : List PollRecord → List PollRecord} {stream events : List Polls.TraceEvent}
  {event : CpuSample} {sample : Sample}

section

variable (hsorted : events.Pairwise fun a b => a.timestampNs ≤ b.timestampNs)
include hsorted

theorem attributeSampleWorker_none :
    (PollTimeline.reconstruct sortRecords events).attributeSampleWorker event.tid
      event.timestampNs = none ↔ OffRuntime events event := by
  unfold PollTimeline.attributeSampleWorker OffRuntime
  by_cases hhandoff : Handoff (bounds events) event.tid event.timestampNs
  · simp [PollTimeline.workerForTidAt_handoff hhandoff, hhandoff]
  · rw [PollTimeline.workerForTidAt_reconstruct hsorted _ _ hhandoff, Option.filter_eq_none_iff]
    simp [hhandoff]

theorem attributeSampleWorker_some {w : Nat} :
    (PollTimeline.reconstruct sortRecords events).attributeSampleWorker event.tid
      event.timestampNs = some w ↔
        ¬ Handoff (bounds events) event.tid event.timestampNs ∧
          boundAt (bounds events) event.tid event.timestampNs = some w ∧ w < 254 := by
  unfold PollTimeline.attributeSampleWorker
  by_cases hhandoff : Handoff (bounds events) event.tid event.timestampNs
  · simp [PollTimeline.workerForTidAt_handoff hhandoff, hhandoff]
  · rw [PollTimeline.workerForTidAt_reconstruct hsorted _ _ hhandoff, Option.filter_eq_some_iff]
    simp [hhandoff]

/-- The two attributions of a sample agree exactly when both orders lead to one worker. -/
theorem parity_iff_alike (hleaves : Leaves stream event sample) :
    Parity ((PollTimeline.reconstruct sortRecords events).attributeSampleWorker event.tid
      event.timestampNs) sample.workerId ↔ Alike stream events event := by
  have hnone := @attributeSampleWorker_none sortRecords events event hsorted
  have hsome := @attributeSampleWorker_some sortRecords events event hsorted
  by_cases hgap : InGap stream event
  · rw [hleaves.inGap hgap]
    constructor
    · intro hparity
      exact .inGap hgap (hnone.mp (hparity.off.mpr (.inr rfl)))
    · intro halike
      have hoff : OffRuntime events event := by
        cases halike with
        | inGap _ hoff => exact hoff
        | worker hout | sentinel hout => exact absurd hgap hout
      rw [hnone.mpr hoff]
      refine ⟨fun w hw => iff_of_false nofun ?_, iff_of_true rfl (.inr rfl)⟩
      unfold offWorkerWorkerId
      omega
  · rw [hleaves.outside hgap]
    constructor
    · intro hparity
      by_cases hruntime : lastSeen stream event < 254
      · rcases hsome.mp ((hparity.on _ hruntime).mpr rfl) with ⟨hhandoff, hbound, _⟩
        exact .worker hgap hhandoff hbound hruntime
      · cases hworker : (PollTimeline.reconstruct sortRecords events).attributeSampleWorker
            event.tid event.timestampNs with
        | none => exact .sentinel hgap (hparity.off.mp hworker) (hnone.mp hworker)
        | some w =>
          have hlt := (hsome.mp hworker).2.2
          exact absurd ((hparity.on w hlt).mp hworker ▸ hlt) hruntime
    · intro halike
      cases halike with
      | inGap hin => exact absurd hin hgap
      | worker _ hhandoff hbound hruntime =>
        rw [hsome.mpr ⟨hhandoff, hbound, hruntime⟩]
        refine ⟨fun w _ => Option.some_inj, iff_of_false nofun ?_⟩
        omega
      | sentinel _ hlast hoff =>
        rw [hnone.mpr hoff]
        refine ⟨fun w hw => iff_of_false nofun ?_, iff_of_true rfl hlast⟩
        omega

end

/-- Over a whole trace: the two attributions of the samples with a callchain agree
exactly when both orders lead to one worker for each of them. -/
theorem attribution_parity (harranged : Arranges stream events) :
    List.Forall₂ (fun event sample => event.callchain ≠ [] →
      Parity ((PollTimeline.reconstruct sortRecords events).attributeSampleWorker event.tid
        event.timestampNs) sample.workerId) (cpuSamples stream) (parse stream) ↔
      ∀ event ∈ cpuSamples stream, event.callchain ≠ [] → Alike stream events event := by
  have hleaves := parse_leaves stream
  revert hleaves
  generalize parse stream = samples
  generalize cpuSamples stream = recorded
  intro hleaves
  induction hleaves with
  | nil => simp
  | cons hfirst _ ih =>
    rw [List.forall₂_cons, List.forall_mem_cons]
    apply and_congr _ ih
    exact imp_congr_right fun _ => parity_iff_alike harranged.sorted hfirst

end Attribution

/-! ### A thread that moves -/

/-- A thread is sampled on one worker, parks, and goes on on another. -/
def movedThread : List Polls.TraceEvent :=
  [.workerUnpark 10 1 77, .cpuSample ⟨15, 255, 77, 0, [1]⟩, .workerPark 20 1 77,
    .workerUnpark 30 2 77]

/-- The decoder has the worker of the time, the parser that of the end. -/
theorem movedThread_diverges :
    Arranges movedThread movedThread ∧
      (PollTimeline.reconstruct PollTimeline.sortByStart movedThread).attributeSampleWorker 77 15 =
        some 1 ∧
      (parse movedThread).map Sample.workerId = [2] ∧
      ¬ List.Forall₂ (fun event sample => event.callchain ≠ [] →
        Parity ((PollTimeline.reconstruct PollTimeline.sortByStart
          movedThread).attributeSampleWorker event.tid event.timestampNs) sample.workerId)
        (cpuSamples movedThread) (parse movedThread) := by
  have hdecoder : (PollTimeline.reconstruct PollTimeline.sortByStart
      movedThread).attributeSampleWorker 77 15 = some 1 := by
    decide
  have hparser : parse movedThread = [⟨15, 2, 77, 0, [1]⟩] := by
    decide
  refine ⟨⟨by decide, by decide⟩, hdecoder, by rw [hparser]; rfl, ?_⟩
  rw [hparser]
  intro hparity
  rcases hparity with _ | ⟨hfirst, _⟩
  have hworker := ((hfirst (by decide)).on 1 (by decide)).mp hdecoder
  cases hworker

/-- A thread is sampled on the worker that it stays on. -/
def settledThread : List Polls.TraceEvent :=
  [.cpuSample ⟨15, 255, 77, 0, [1]⟩, .workerUnpark 10 1 77]

/-- The batch of the worker comes after that of the sampler, and makes no difference. -/
theorem attribution_parity_settledThread :
    List.Forall₂ (fun event sample => event.callchain ≠ [] →
      Parity ((PollTimeline.reconstruct PollTimeline.sortByStart
        settledThread.reverse).attributeSampleWorker event.tid event.timestampNs) sample.workerId)
      (cpuSamples settledThread) (parse settledThread) := by
  have hnone : ∀ bounds : List Bound, bounds.length < 2 → ∀ tid time,
      ¬ Handoff bounds tid time := by
    rintro bounds hlength tid time ⟨gap, ⟨prev, next, hturn, -⟩, -⟩
    have hle := hturn.adjacent.length_le.trans (List.length_filter_le _ _)
    exact absurd hle (Nat.not_le.mpr hlength)
  apply (attribution_parity ⟨by decide, by decide⟩).mpr
  intro event hevent _
  rw [List.mem_singleton.mp (show event ∈ [⟨15, 255, 77, 0, [1]⟩] from hevent)]
  exact .worker (hnone _ (by decide) _ _) (hnone _ (by decide) _ _) (by decide)
    (by decide)

end Dial9.Viewer.TraceParser
