/-
# Worker spans from the store

The store's columns hold the lanes that the other emitter builds, and read back as them.
With the wakes, which are looked up through an index, this is all that the builders of
worker spans return.
-/

import Dial9.Viewer.WorkerSpansParity

namespace Dial9.Viewer.Columnar

open Lib Spans

/-! ## Columns that hold a lane -/

/-- The columns hold a lane, with its spawn locations in the table. -/
structure HoldsLane (spawnStrings : List String) (cols : WorkerPollColumns) (lane : WorkerLane) :
    Prop where
  start : cols.start = lane.polls.map PollSpan.start
  endTs : cols.endTs = lane.polls.map PollSpan.endTs
  taskId : cols.taskId = lane.polls.map PollSpan.taskId
  spawnIdx : List.Forall₂ (Decodes spawnStrings) cols.spawnIdx (lane.polls.map PollSpan.spawnLoc)
  openEnded : cols.openEnded = lane.polls.map fun poll => if poll.openEnded then 1 else 0
  schedulingDelay : cols.schedulingDelay = lane.polls.map PollSpan.schedulingDelay
  parkStart : cols.parkStart = lane.parks.map ParkSpan.start
  parkEnd : cols.parkEnd = lane.parks.map ParkSpan.endTs
  parkSchedWait : cols.parkSchedWait = lane.parks.map fun park => park.schedWait.join
  activeStart : cols.activeStart = lane.actives.map ActiveSpan.start
  activeEnd : cols.activeEnd = lane.actives.map ActiveSpan.endTs
  activeRatio : cols.activeRatio = lane.actives.map ActiveSpan.ratio

variable {spawnStrings later : List String} {cols : WorkerPollColumns} {lane : WorkerLane}

theorem HoldsLane.empty (spawnStrings : List String) :
    HoldsLane spawnStrings .empty ⟨[], [], []⟩ where
  start := rfl
  endTs := rfl
  taskId := rfl
  spawnIdx := .nil
  openEnded := rfl
  schedulingDelay := rfl
  parkStart := rfl
  parkEnd := rfl
  parkSchedWait := rfl
  activeStart := rfl
  activeEnd := rfl
  activeRatio := rfl

theorem HoldsLane.of_grown (h : HoldsLane spawnStrings cols lane)
    (hlater : spawnStrings <+: later) :
    HoldsLane later cols lane :=
  { h with spawnIdx := h.spawnIdx.imp fun _ _ hd => hd.of_grown hlater }

/-- The store holds the lanes, worker by worker. -/
def HoldsLanes (b : ColumnarWorkerSpans) (lanes : Int → Option WorkerLane) : Prop :=
  ∀ w, Option.Rel (HoldsLane b.spawnStrings) (b.byWorker w) (lanes w)

theorem holdsLanes_ensure (workerIds : List Int) :
    HoldsLanes (.ensure workerIds) (Fat.ensure workerIds) := by
  intro w
  dsimp only [ColumnarWorkerSpans.ensure, Fat.ensure]
  split
  · exact .some (HoldsLane.empty _)
  · exact .none

variable {lanes : Int → Option WorkerLane}

theorem HoldsLanes.update {b : ColumnarWorkerSpans} (h : HoldsLanes b lanes)
    (hlater : b.spawnStrings <+: later) {k : Int} (hlane : HoldsLane later cols lane) :
    HoldsLanes ⟨Function.update b.byWorker k (some cols), later⟩
      (Function.update lanes k (some lane)) := by
  intro w
  by_cases heq : w = k
  · subst heq
    dsimp only
    rw [Function.update_self, Function.update_self]
    exact .some hlane
  · dsimp only
    rw [Function.update_of_ne heq, Function.update_of_ne heq]
    have hrel := h w
    generalize b.byWorker w = cols? at hrel ⊢
    generalize lanes w = lane? at hrel ⊢
    cases hrel with
    | some hold => exact .some (hold.of_grown hlater)
    | none => exact .none

variable {emission : Int × Emission}

theorem HoldsLanes.push {b : ColumnarWorkerSpans} (h : HoldsLanes b lanes)
    (hlisted : lanes emission.1 ≠ none) :
    HoldsLanes (b.push emission) (Fat.push lanes emission) := by
  rcases emission with ⟨k, emission⟩
  rcases Option.ne_none_iff_exists'.mp hlisted with ⟨lane, hlane⟩
  have hrel := h k
  rw [hlane] at hrel
  generalize hcols : b.byWorker k = cols? at hrel
  cases hrel with
  | @some cols _ hold =>
    rw [Fat.push, hlane, Option.map_some]
    cases emission with
    | poll poll =>
      simp only [ColumnarWorkerSpans.push, ColumnarWorkerSpans.pushPoll, hcols, Option.getD_some]
      refine h.update (prefix_internOption _ _) ?_
      exact {
        hold with
        start := by rw [List.map_append, hold.start]; rfl
        endTs := by rw [List.map_append, hold.endTs]; rfl
        taskId := by rw [List.map_append, hold.taskId]; rfl
        spawnIdx := by
          rw [List.map_append]
          exact decodes_concat hold.spawnIdx (prefix_internOption _ _)
            (decodes_internOption _ _)
        openEnded := by rw [List.map_append, hold.openEnded]; rfl
        schedulingDelay := by rw [List.map_append, hold.schedulingDelay]; rfl }
    | park park =>
      simp only [ColumnarWorkerSpans.push, ColumnarWorkerSpans.pushPark, hcols, Option.getD_some]
      refine h.update List.prefix_rfl ?_
      exact {
        hold with
        parkStart := by rw [List.map_append, hold.parkStart]; rfl
        parkEnd := by rw [List.map_append, hold.parkEnd]; rfl
        parkSchedWait := by rw [List.map_append, hold.parkSchedWait]; rfl }
    | active active =>
      simp only [ColumnarWorkerSpans.push, ColumnarWorkerSpans.pushActive, hcols, Option.getD_some]
      refine h.update List.prefix_rfl ?_
      exact {
        hold with
        activeStart := by rw [List.map_append, hold.activeStart]; rfl
        activeEnd := by rw [List.map_append, hold.activeEnd]; rfl
        activeRatio := by rw [List.map_append, hold.activeRatio]; rfl }

/-- The one emitter's store holds the other's lanes, with all workers listed. -/
theorem holdsLanes_foldl {workerIds : List Int} {emissions : List (Int × Emission)}
    (hlisted : ∀ emission ∈ emissions, emission.1 ∈ workerIds) :
    HoldsLanes (emissions.foldl .push (.ensure workerIds))
      (emissions.foldl Fat.push (Fat.ensure workerIds)) := by
  induction emissions using List.reverseRecOn with
  | nil => exact holdsLanes_ensure workerIds
  | append_singleton emissions emission ih =>
    rw [List.foldl_concat, List.foldl_concat]
    refine (ih fun e he => hlisted e (List.mem_append_left _ he)).push ?_
    rw [foldl_fat, if_pos (hlisted emission (List.mem_append_right _ List.mem_cons_self))]
    exact Option.some_ne_none _

/-! ## Lanes read back -/

def ParkSpan.view (park : ParkSpan) : ParkView := ⟨park.start, park.endTs, park.schedWait.join⟩

/-- A lane as the store tells it. -/
def WorkerLane.view (lane : WorkerLane) : WorkerLaneView where
  polls := lane.polls
  parks := lane.parks.map ParkSpan.view
  actives := lane.actives

theorem range_map_eq {α : Type} {values : List α} {n : Nat} {read : Nat → α}
    (hlength : n = values.length) (hread : ∀ i v, values[i]? = some v → read i = v) :
    (List.range n).map read = values := by
  apply List.ext_getElem?
  intro i
  rw [List.getElem?_map, hlength]
  cases hi : values[i]? with
  | none =>
    rw [List.getElem?_eq_none (by rwa [List.length_range, ← List.getElem?_eq_none_iff])]
    rfl
  | some v =>
    rw [List.getElem?_range (List.getElem?_eq_some_iff.mp hi).1, Option.map_some, hread i v hi]

theorem getD_column {α β : Type} {values : List α} {f : α → β} {column : List β}
    (h : column = values.map f) {i : Nat} {v : α} (hi : values[i]? = some v) (blank : β) :
    column.getD i blank = f v := by
  rw [h, List.getD_eq_getElem?_getD, List.getElem?_map, hi]
  rfl

variable {store : ColumnarWorkerSpans}

theorem HoldsLane.read (h : HoldsLane store.spawnStrings cols lane)
    (hspawn : ∀ poll ∈ lane.polls, poll.spawnLocId = poll.spawnLoc) :
    (⟨(List.range cols.start.length).map (store.pollAt cols),
      (List.range cols.parkStart.length).map (ColumnarWorkerSpans.parkAt cols),
      (List.range cols.activeStart.length).map (ColumnarWorkerSpans.activeAt cols)⟩ :
        WorkerLaneView) = WorkerLane.view lane := by
  have hpolls : (List.range cols.start.length).map (store.pollAt cols) = lane.polls := by
    refine range_map_eq (by rw [h.start, List.length_map]) fun i poll hi => ?_
    have hloc : decode store.spawnStrings (cols.spawnIdx.getD i (-1)) = poll.spawnLoc := by
      refine decode_getD h.spawnIdx ?_
      rw [List.getElem?_map, hi]
      rfl
    have hopen : (cols.openEnded.getD i 0 = 1) = (poll.openEnded = true) := by
      rw [getD_column h.openEnded hi]
      cases poll.openEnded with
      | true | false => decide
    rw [ColumnarWorkerSpans.pollAt]
    simp only [hloc, hopen, getD_column h.start hi, getD_column h.endTs hi,
      getD_column h.taskId hi, getD_column h.schedulingDelay hi, Bool.decide_eq_true]
    exact congrArg (fun loc => { poll with spawnLocId := loc })
      (hspawn poll (List.mem_of_getElem? hi)).symm
  have hparks : (List.range cols.parkStart.length).map (ColumnarWorkerSpans.parkAt cols) =
      lane.parks.map ParkSpan.view := by
    refine range_map_eq (by rw [h.parkStart, List.length_map, List.length_map]) fun i view hi => ?_
    rw [List.getElem?_map, Option.map_eq_some_iff] at hi
    rcases hi with ⟨park, hi, rfl⟩
    rw [ColumnarWorkerSpans.parkAt, getD_column h.parkStart hi, getD_column h.parkEnd hi,
      getD_column h.parkSchedWait hi]
    rfl
  have hactives : (List.range cols.activeStart.length).map (ColumnarWorkerSpans.activeAt cols) =
      lane.actives := by
    refine range_map_eq (by rw [h.activeStart, List.length_map]) fun i active hi => ?_
    rw [ColumnarWorkerSpans.activeAt, getD_column h.activeStart hi, getD_column h.activeEnd hi,
      getD_column h.activeRatio hi]
  rw [hpolls, hparks, hactives]
  rfl

theorem HoldsLanes.laneView (h : HoldsLanes store lanes) {w : Int}
    (hspawn : ∀ lane ∈ lanes w, ∀ poll ∈ lane.polls, poll.spawnLocId = poll.spawnLoc) :
    store.laneView w = (lanes w).map WorkerLane.view := by
  have hrel := h w
  generalize hcols : store.byWorker w = cols? at hrel
  generalize hlane : lanes w = lane? at hrel hspawn
  rw [ColumnarWorkerSpans.laneView, hcols]
  cases hrel with
  | none => rfl
  | some hold => exact congrArg some (hold.read (hspawn _ rfl))

/-! ## Emitted polls -/

/-- The columns have one spawn location for an event, and a poll has it twice. -/
structure Mirrored (s : IndexState) : Prop where
  openPoll : ∀ poll ∈ s.openPoll, poll.spawnLocId = poll.spawnLoc
  emitted : ∀ poll, .poll poll ∈ s.emitted → poll.spawnLocId = poll.spawnLoc

namespace Mirrored

variable {s : IndexState}

section

variable (h : Mirrored s)
include h

theorem of_same {s' : IndexState} (hopen : s'.openPoll = s.openPoll)
    (hemitted : ∀ poll, .poll poll ∈ s'.emitted → .poll poll ∈ s.emitted) : Mirrored s' where
  openPoll := hopen ▸ h.openPoll
  emitted poll hpoll := h.emitted poll (hemitted poll hpoll)

theorem closePoll (endTs : Int) (openEnded : Bool) : Mirrored (s.closePoll endTs openEnded) := by
  rw [IndexState.closePoll]
  cases hopen : s.openPoll with
  | none => exact h
  | some open_ =>
    refine ⟨fun _ hnone => absurd hnone.symm (Option.some_ne_none _), fun poll hpoll => ?_⟩
    rcases List.mem_append.mp hpoll with hpoll | hpoll
    · exact h.emitted poll hpoll
    · rw [List.mem_singleton, Emission.poll.injEq] at hpoll
      subst hpoll
      exact h.openPoll open_ hopen

theorem closePark (endTs : Int) (schedWait : Option Int) :
    Mirrored (s.closePark endTs schedWait) := by
  rw [IndexState.closePark]
  cases s.openPark with
  | none => exact h
  | some start =>
    refine h.of_same rfl fun poll hpoll => ?_
    exact (List.mem_append.mp hpoll).resolve_right fun hpark =>
      Emission.noConfusion (List.mem_singleton.mp hpark)

theorem closeActive (gaps : List BlockInPlaceGap) (activeEnd cpuTime : Int) :
    Mirrored (s.closeActive gaps activeEnd cpuTime) := by
  rw [IndexState.closeActive]
  cases s.openUnpark with
  | none => exact h
  | some unpark =>
    refine h.of_same rfl fun poll hpoll => ?_
    refine (List.mem_append.mp hpoll).resolve_right fun hactive => ?_
    rcases List.mem_map.mp hactive with ⟨active, -, heq⟩
    cases heq

theorem step (store : ColumnarEvents) (gaps : List BlockInPlaceGap) (i : Nat) :
    Mirrored (s.step store gaps i) := by
  rw [IndexState.step]
  have hsample :
      Mirrored (if isSampledAt store i then s.sample (store.tsAt i) (store.localQueueAt i)
      else s) := by
    split
    · exact h.of_same rfl fun _ => id
    · exact h
  generalize (if isSampledAt store i then s.sample (store.tsAt i) (store.localQueueAt i)
    else s) = sampled at hsample
  dsimp only
  split
  · refine ⟨fun poll hpoll => ?_, (hsample.closePoll _ _).emitted⟩
    obtain rfl := Option.some.inj hpoll
    rfl
  · split
    · exact hsample.closePoll _ _
    · split
      · have hpark : Mirrored ((sampled.closePoll (store.tsAt i) true).startPark (store.tsAt i)) :=
          (hsample.closePoll _ _).of_same rfl fun _ => id
        exact hpark.closeActive _ _ _
      · split
        · exact (hsample.closePark _ _).of_same rfl fun _ => id
        · exact hsample

end

end Mirrored

variable {events : List TraceEvent} {store : ColumnarEvents} {workerIds : List Int} {maxTs w : Int}
  {gaps : List BlockInPlaceGap}

theorem bucketRun_mirrored (store : ColumnarEvents) (gaps : List BlockInPlaceGap) (w : Int) :
    Mirrored (bucketRun store gaps w) := by
  rw [bucketRun]
  have hempty : Mirrored .empty := ⟨fun _ h => absurd h.symm (Option.some_ne_none _),
    fun _ h => absurd h List.not_mem_nil⟩
  generalize IndexState.empty = s at hempty
  induction bucket store w generalizing s with
  | nil => exact hempty
  | cons i rest ih => exact ih _ (hempty.step _ _ _)

/-! ## All workers are listed -/

/-- The lane of a worker at the end of the trace. -/
def columnarLane (store : ColumnarEvents) (workerIds : List Int) (maxTs : Int)
    (gaps : List BlockInPlaceGap) (w : Int) : WorkerLane :=
  let run := bucketRun store gaps w
  { laneOf run.emitted with
    parks := (laneOf run.emitted).parks ++ endParks workerIds maxTs w run.openPark }

theorem workerSpans_columnar (w : Int) :
    (buildWorkerSpansColumnar store workerIds maxTs gaps).workerSpans w =
      if w ∈ workerIds then some (columnarLane store workerIds maxTs gaps w) else none := by
  rw [buildWorkerSpansColumnar]
  dsimp only
  rw [foldl_fat, rowsOf_reconstruct, laneOf_parks]
  rfl

theorem reconstruct_listed (hlisted : ∀ w ∈ bucketWorkers store, w ∈ workerIds)
    (h : emission ∈ reconstruct store workerIds maxTs gaps) :
    emission.1 ∈ workerIds := by
  rw [reconstruct, List.mem_append, List.mem_flatMap, List.mem_flatMap] at h
  rcases h with ⟨w, hw, h⟩ | ⟨w, hw, h⟩
  · rcases List.mem_map.mp h with ⟨e, -, rfl⟩
    exact hlisted w hw
  · rcases List.mem_map.mp h with ⟨start, -, rfl⟩
    exact hw

/-- The store reads back as the lanes. -/
theorem laneView_store (hlisted : ∀ w ∈ bucketWorkers store, w ∈ workerIds) (w : Int) :
    (buildWorkerSpansColumnarStore store workerIds maxTs gaps).laneView w =
      ((buildWorkerSpansColumnar store workerIds maxTs gaps).workerSpans w).map
        WorkerLane.view := by
  refine (holdsLanes_foldl fun e he => reconstruct_listed hlisted he).laneView ?_
  intro lane hlane poll hpoll
  have hlane' := hlane
  rw [foldl_fat, rowsOf_reconstruct, laneOf_parks] at hlane'
  split at hlane'
  · obtain rfl := Option.some.inj hlane'
    rcases List.mem_filterMap.mp hpoll with ⟨emission, hemission, heq⟩
    cases emission with
    | poll emitted =>
      obtain rfl := Option.some.inj heq
      exact (bucketRun_mirrored store gaps w).emitted _ hemission
    | park _ | active _ => cases heq
  · cases hlane'

/-! ## Wakes -/

namespace WakeIndex

theorem group_rows {K : Type} [DecidableEq K] (rows : List WakeRecord) (key : WakeRecord → K)
    (k : K) :
    ((group rows key).rows k).map (fun i => rows.getD i blank) =
      (rows.filter fun row => key row = k).insertionSort fun a b => a.timestamp ≤ b.timestamp := by
  have hread : (List.range rows.length).map (fun i => rows.getD i blank) = rows := by
    refine range_map_eq rfl fun i row hi => ?_
    rw [List.getD_eq_getElem?_getD, hi, Option.getD_some]
  have hrows : rowsOf k ((List.range rows.length).map fun i => (key (rows.getD i blank), i)) =
      (List.range rows.length).filter fun i => key (rows.getD i blank) = k := by
    rw [rowsOf, List.filter_map, List.map_map]
    exact List.map_id _
  have hfilter : ((List.range rows.length).filter fun i => key (rows.getD i blank) = k).map
      (fun i => rows.getD i blank) = rows.filter fun row => key row = k := by
    conv_rhs => rw [← hread, List.filter_map]
    rfl
  rw [group, Groups.rows_build, hrows, ← hfilter]
  refine List.map_insertionSort _ _ _ _ fun a _ b _ => ?_
  exact decide_eq_true_iff

end WakeIndex

/-- A wake event's row. -/
def wakeRecord (e : TraceEvent) : WakeRecord :=
  ⟨e.timestamp, e.wakerTaskId, e.wokenTaskId, e.workerId⟩

def wakesOf (events : List TraceEvent) : List TraceEvent :=
  events.filter fun e => e.eventType = .wakeEvent

theorem Stored.wakes (h : Stored store events) (gaps : List BlockInPlaceGap)
    (workerIds : List Int) :
    (aggregates store workerIds gaps).wakeIndex = .build ((wakesOf events).map wakeRecord) := by
  have hwake := forall₂_filter (fun hrow => hrow.eventTypeAt_eq .wakeEvent) h
  refine congrArg WakeIndex.build (map_eq_of_forall₂ (fun {i e} hrow => ?_) hwake)
  rw [hrow.row.ts, hrow.row.wakerTaskId, hrow.row.wokenTaskId, hrow.row.workerId]
  rfl

theorem map_sorted_wakes {α : Type} (wakes : List TraceEvent) (p : WakeRecord → Bool)
    (project : WakeRecord → α) (time : α → Int) (htime : ∀ row,
      time (project row) = row.timestamp) :
    (((wakes.map wakeRecord).filter p).insertionSort fun a b => a.timestamp ≤ b.timestamp).map
        project =
      ((wakes.filter fun e => p (wakeRecord e)).map fun e =>
        project (wakeRecord e)).insertionSort fun a b => time a ≤ time b := by
  rw [List.filter_map, List.map_insertionSort _ (fun a b => time a ≤ time b), List.map_map]
  · rfl
  · intro a _ b _
    rw [htime, htime]

def WakeRecord.taskWake (row : WakeRecord) : TaskWake :=
  ⟨row.timestamp, row.wakerTaskId, row.targetWorker⟩

def WakeRecord.workerWake (row : WakeRecord) : WorkerWake :=
  ⟨row.timestamp, row.wakerTaskId, row.wokenTaskId⟩

/-! ## What the builders return -/

/-- Runtime events as the parser makes them, with the workers and the gaps of the trace. -/
structure SpanInput where
  events : List TraceEvent
  workerIds : List Int
  maxTs : Int
  gaps : List BlockInPlaceGap
  inWidth : ∀ e ∈ events, InWidth e
  listed : ∀ e ∈ events, inLane e = true → (e.workerId : Int) ∈ workerIds
  /-- The location is its own id. -/
  spawnLoc : ∀ e ∈ events, e.spawnLocId = e.spawnLoc
  /-- The worker of a wake is its target. -/
  target : ∀ e ∈ events, e.eventType = .wakeEvent → e.targetWorker = some e.workerId

namespace SpanInput

variable (input : SpanInput)

/-- The events' columns. -/
def pushed : ColumnarEvents := storeOf input.events

def frozen : WorkerSpansResult :=
  buildWorkerSpans input.events input.workerIds input.maxTs input.gaps

def columnar : ColumnarResult :=
  buildWorkerSpansColumnar input.pushed input.workerIds input.maxTs input.gaps

def spanStore : ColumnarWorkerSpans :=
  buildWorkerSpansColumnarStore input.pushed input.workerIds input.maxTs input.gaps

/-- Both builders return the same, and the store reads back as the lanes. -/
structure Same : Prop where
  workerSpans : input.columnar.workerSpans = input.frozen.workerSpans
  queueSamples : input.columnar.queueSamples = input.frozen.queueSamples
  workerQueueSamples : input.columnar.workerQueueSamples = input.frozen.workerQueueSamples
  maxLocalQueue : input.columnar.maxLocalQueue = input.frozen.maxLocalQueue
  wakesByTask : ∀ task,
    (input.columnar.wakesByTask task).map WakeRecord.taskWake = input.frozen.wakesByTask task
  wakesByWorker : ∀ w,
    (input.columnar.wakesByWorker w).map WakeRecord.workerWake = input.frozen.wakesByWorker w
  laneView : ∀ w,
    input.spanStore.laneView w = (input.frozen.workerSpans w).map WorkerLane.view

theorem stored : Stored input.pushed input.events := by
  rw [Stored, pushed, List.forall₂_iff_get]
  refine ⟨by rw [List.length_range, storeOf_length], fun i _ hi => ?_⟩
  rw [List.get_eq_getElem, List.get_eq_getElem, List.getElem_range]
  have hmem : input.events[i] ∈ input.events := List.getElem_mem hi
  exact {
    row := storeOf_row (List.getElem?_eq_getElem hi) (input.inWidth _ hmem)
    spawnLoc := input.spawnLoc _ hmem }

theorem bucketWorkers_listed {w : Int} (hw : w ∈ bucketWorkers input.pushed) :
    w ∈ input.workerIds := by
  rw [input.stored.bucketWorkers, laneWorkers, (List.perm_insertionSort _ _).mem_iff,
    List.mem_dedup, List.mem_map] at hw
  rcases hw with ⟨e, he, rfl⟩
  rcases List.mem_filter.mp he with ⟨he, hlane⟩
  exact input.listed e he hlane

theorem perWorker_of_not_mem {w : Int} (hw : w ∉ input.workerIds) :
    perWorker input.events w = [] := by
  rw [← List.length_eq_zero_iff, perWorker, sortByTime, List.length_insertionSort,
    List.length_eq_zero_iff, List.filter_eq_nil_iff]
  intro e he hlane
  rw [Bool.and_eq_true, decide_eq_true_iff] at hlane
  exact hw (hlane.2 ▸ input.listed e he hlane.1)

theorem workerSpans_eq :
    input.columnar.workerSpans = input.frozen.workerSpans ↔
      ∀ w, ¬ UnparksInPoll (perWorker input.events w) := by
  have hlane := fun w => input.stored.lane input.gaps w
  have hrest := fun w => input.stored.rest input.gaps w
  have hpark : ∀ w, (bucketRun input.pushed input.gaps w).openPark =
      (laneRun input.events input.gaps w).openPark := fun w =>
    congrArg LaneState.openPark (hrest w)
  constructor
  · intro heq w hunparks
    have hw : w ∈ input.workerIds := by
      by_contra hnot
      rw [input.perWorker_of_not_mem hnot] at hunparks
      exact not_unparksInPoll_nil hunparks
    have hworker := congrFun heq w
    rw [columnar, workerSpans_columnar, frozen, buildWorkerSpans, if_pos hw] at hworker
    dsimp only at hworker
    rw [if_pos hw] at hworker
    have hpolls := congrArg WorkerLane.polls (Option.some.inj hworker)
    exact (input.stored.polls input.gaps w).mp hpolls hunparks
  · intro hfree
    funext w
    rw [columnar, workerSpans_columnar, frozen, buildWorkerSpans, columnarLane]
    dsimp only
    rw [(hlane w).mpr (hfree w), hpark w]

theorem workerQueueSamples_eq :
    input.columnar.workerQueueSamples = input.frozen.workerQueueSamples := by
  funext w
  have hsamples := congrArg LaneState.queueSamples (input.stored.rest input.gaps w)
  change (bucketRun input.pushed input.gaps w).queueSamples.map _ =
    (laneRun input.events input.gaps w).queueSamples at hsamples
  rw [columnar, frozen, buildWorkerSpansColumnar, buildWorkerSpans, aggregates]
  dsimp only
  by_cases hw : w ∈ input.workerIds
  · rw [if_pos (.inl hw), if_pos hw, Option.map_some, hsamples]
  · rw [if_neg hw, if_neg fun h => hw (h.elim id input.bucketWorkers_listed), Option.map_none]

theorem wakesByTask_eq (task : Option Nat) :
    (input.columnar.wakesByTask task).map WakeRecord.taskWake = input.frozen.wakesByTask task := by
  rw [columnar, buildWorkerSpansColumnar, frozen, buildWorkerSpans]
  dsimp only
  rw [input.stored.wakes, WakeIndex.forTask, WakeIndex.build]
  dsimp only
  rw [WakeIndex.group_rows, map_sorted_wakes _ _ _ TaskWake.timestamp fun _ => rfl]
  congr 1
  refine List.map_congr_left fun e he => ?_
  rcases List.mem_filter.mp (List.mem_filter.mp he).1 with ⟨he, hwake⟩
  rw [input.target e he (of_decide_eq_true hwake)]
  rfl

theorem wakesByWorker_eq (w : Int) :
    (input.columnar.wakesByWorker w).map WakeRecord.workerWake = input.frozen.wakesByWorker w := by
  rw [columnar, buildWorkerSpansColumnar, frozen, buildWorkerSpans]
  dsimp only
  rw [input.stored.wakes, WakeIndex.forWorker, WakeIndex.build]
  dsimp only
  rw [WakeIndex.group_rows, map_sorted_wakes _ _ _ WorkerWake.timestamp fun _ => rfl]
  congr 2
  refine List.filter_congr fun e he => ?_
  rcases List.mem_filter.mp he with ⟨he, hwake⟩
  rw [input.target e he (of_decide_eq_true hwake), Option.map_some]
  exact decide_eq_decide.mpr (Option.some.injEq _ _).symm.to_iff

/-- The builders agree where no worker unparks between the start of a poll and its next
event that is no unpark, and nowhere else. -/
theorem same_iff : input.Same ↔ ∀ w, ¬ UnparksInPoll (perWorker input.events w) := by
  rw [← input.workerSpans_eq]
  constructor
  · exact Same.workerSpans
  · intro hspans
    exact {
      workerSpans := hspans
      queueSamples := input.stored.queueSamples
      workerQueueSamples := input.workerQueueSamples_eq
      maxLocalQueue := input.stored.maxLocalQueue
      wakesByTask := input.wakesByTask_eq
      wakesByWorker := input.wakesByWorker_eq
      laneView := fun w => by
        rw [← hspans]
        exact laneView_store (fun _ => input.bucketWorkers_listed) w }

end SpanInput

/-! ## A poll whose end and park were lost -/

namespace LostPark

def event (eventType : EventType) (timestamp : Int) : TraceEvent :=
  ⟨eventType, timestamp, 0, 0, 0, 0, none, none, 1, none, none, none, none, none⟩

/-- A poll, an unpark without a park before it, and the end of another poll, whose start
was lost too. -/
def lost : SpanInput where
  events := [event .pollStart 10, event .workerUnpark 20, event .pollEnd 30]
  workerIds := [0]
  maxTs := 30
  gaps := []
  inWidth e he := by
    have hbounds : e.workerId = 0 ∧ e.localQueue = 0 ∧ e.globalQueue = 0 := by
      simp only [List.mem_cons, List.not_mem_nil, or_false] at he
      rcases he with rfl | rfl | rfl
      · exact ⟨rfl, rfl, rfl⟩
      · exact ⟨rfl, rfl, rfl⟩
      · exact ⟨rfl, rfl, rfl⟩
    rcases hbounds with ⟨hworker, hlocal, hglobal⟩
    exact ⟨by omega, by omega, by omega⟩
  listed := by decide
  spawnLoc := by decide
  target := by decide

/-- The columnar builder has a poll over the unpark. -/
theorem lost_differs :
    (lost.columnar.workerSpans 0).map WorkerLane.polls =
      some [⟨10, 30, 1, none, none, none, false⟩] ∧
      (lost.frozen.workerSpans 0).map WorkerLane.polls = some [] ∧ ¬ lost.Same := by
  have hcolumnar : (lost.columnar.workerSpans 0).map WorkerLane.polls =
      some [⟨10, 30, 1, none, none, none, false⟩] := by decide
  have hfrozen : (lost.frozen.workerSpans 0).map WorkerLane.polls = some [] := by decide
  refine ⟨hcolumnar, hfrozen, fun hsame => ?_⟩
  rw [hsame.workerSpans, hfrozen] at hcolumnar
  cases hcolumnar

end LostPark

end Dial9.Viewer.Columnar
