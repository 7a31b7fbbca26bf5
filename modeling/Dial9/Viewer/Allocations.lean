/-
# Allocations of tasks

The memory view charges a sampled allocation to the task that its thread's worker
was polling. It looks the poll up by a halving search over the worker's poll
starts, in the order they were delivered in.
-/

import Dial9.Lib.InsertionMap
import Dial9.Lib.Search
import Dial9.Lib.Strings
import Dial9.Viewer.TraceEvents

namespace Dial9.Viewer.Allocations

open Lib (InsertionMap Str lastPassing lastPassing_eq_some_iff lastPassing_eq_none_iff
  lastPassing_testAt testAt probes Leads)

/-! ## Records -/

structure AllocEvent where
  timestamp : Int
  tid : Nat
  size : Nat
  addr : Str
  callchain : List Str
  deriving DecidableEq

structure FreeEvent where
  timestamp : Int
  tid : Nat
  addr : Str
  size : Nat
  allocTimestampNs : Int
  deriving DecidableEq

structure MemoryOverflow where
  timestamp : Int
  droppedAllocs : Nat
  droppedFrees : Nat
  deriving DecidableEq

structure AllocationOptions where
  events : Option (List TraceEvent)
  tidToWorker : Option (Nat → Option Nat)
  sampleRateBytes : Option Nat
  memoryOverflows : Option (List MemoryOverflow)

structure AllocSite where
  callchain : List Str
  totalBytes : Nat
  count : Nat
  estimatedBytes : Float

structure Leak where
  callchain : List Str
  size : Nat
  timestamp : Int
  addr : Str
  deriving DecidableEq

/-- What a task's allocations come to. -/
structure TaskEntry where
  sampledBytes : Nat
  count : Nat
  estimatedBytes : Float

structure AllocationSummary where
  totalAllocBytes : Nat
  totalAllocCount : Nat
  totalFreeCount : Nat
  leakedBytes : Nat
  leakedCount : Nat
  estimatedTotalBytes : Float
  totalDroppedAllocs : Nat
  totalDroppedFrees : Nat

structure AllocationAnalysis where
  topSites : List AllocSite
  leaks : List Leak
  perTask : InsertionMap Nat TaskEntry
  sampleRateBytes : Nat
  summary : AllocationSummary

/-! ## Weights and sites -/

/-- Unbiased weight for a sampled allocation of some bytes, with a mean of so many bytes between
samples. -/
def allocWeight (sampleRateBytes size : Nat) : Float :=
  if size ≤ 0 then 0
  else
    let ratio := Float.ofNat size / Float.ofNat sampleRateBytes
    if ratio > 50 then Float.ofNat size else Float.ofNat size / (1 - Float.exp (-ratio))

/-- `Math.round` -/
def mathRound (x : Float) : Float := Float.floor (x + 0.5)

def siteMap (sampleRateBytes : Nat) (allocEvents : List AllocEvent) : InsertionMap Str AllocSite :=
  allocEvents.foldl (fun sites a =>
    sites.update ([';'].intercalate a.callchain) fun site =>
      let site := site.getD ⟨a.callchain, 0, 0, 0⟩
      { site with
        totalBytes := site.totalBytes + a.size
        count := site.count + 1
        estimatedBytes := site.estimatedBytes + allocWeight sampleRateBytes a.size }) []

def topSites (sampleRateBytes : Nat) (allocEvents : List AllocEvent) : List AllocSite :=
  (((siteMap sampleRateBytes allocEvents).map Prod.snd).mergeSort fun a b =>
    !decide (b.estimatedBytes - a.estimatedBytes > 0)).take 10

/-! ## Leaks -/

/-- A number in decimal. -/
def decimal : Int → Str
  | .ofNat n => Str.display n
  | .negSucc n => '-' :: Str.display (n + 1)

/-- An address and the time it was handed out at. -/
def allocKey (addr : Str) (timestamp : Int) : Str := addr ++ ':' :: decimal timestamp

def freedAddrs (freeEvents : List FreeEvent) : List Str :=
  freeEvents.map fun f => allocKey f.addr f.allocTimestampNs

/-- Allocs with no matching free. -/
def leaks (allocEvents : List AllocEvent) (freeEvents : List FreeEvent) : List Leak :=
  allocEvents.filterMap fun a =>
    if (freedAddrs freeEvents).contains (allocKey a.addr a.timestamp) then none
    else some ⟨a.callchain, a.size, a.timestamp, a.addr⟩

/-! ## Tasks -/

@[ext] structure WorkerPoll where
  start : Int
  taskId : Nat
  deriving DecidableEq

/-- The start of a poll of a task that is known: task 0 stands for none. -/
def taskStart (e : TraceEvent) : Bool := e.eventType = .pollStart ∧ e.taskId ≠ 0

/-- Per-worker poll timeline. -/
def workerPolls (events : List TraceEvent) : InsertionMap Nat (List WorkerPoll) :=
  events.foldl (fun polls e =>
    if taskStart e then
      polls.update e.workerId fun arr => arr.getD [] ++ [⟨e.timestamp, e.taskId⟩]
    else polls) []

/-- The last poll of the list that the search finds to start at or before the time. -/
def pollIndex (polls : List WorkerPoll) (time : Int) : Option Nat :=
  lastPassing (testAt polls fun p => decide (p.start ≤ time)) 0 polls.length

/-- Which task was being polled on the worker at that time, as the search has it. -/
def taskOf (polls : InsertionMap Nat (List WorkerPoll)) (tidToWorker : Nat → Option Nat)
    (a : AllocEvent) : Option Nat :=
  match tidToWorker a.tid with
  | none => none
  | some workerId =>
    match polls.get? workerId with
    | none => none
    | some polls =>
      if polls.length = 0 then none
      else (pollIndex polls a.timestamp).bind fun best => polls[best]?.map WorkerPoll.taskId

/-- An allocation put on top of what the task had. -/
def charge (sampleRateBytes : Nat) (a : AllocEvent) (entry : Option TaskEntry) : TaskEntry :=
  let entry := entry.getD ⟨0, 0, 0⟩
  ⟨entry.sampledBytes + a.size, entry.count + 1,
    entry.estimatedBytes + allocWeight sampleRateBytes a.size⟩

/-- One allocation of the loop. -/
def attributeAlloc (sampleRateBytes : Nat) (polls : InsertionMap Nat (List WorkerPoll))
    (tidToWorker : Nat → Option Nat) (perTask : InsertionMap Nat TaskEntry) (a : AllocEvent) :
    InsertionMap Nat TaskEntry :=
  match taskOf polls tidToWorker a with
  | none => perTask
  | some taskId => perTask.update taskId (charge sampleRateBytes a)

/-- What the tasks have after the allocations. -/
def perTask (sampleRateBytes : Nat) (events : List TraceEvent) (tidToWorker : Nat → Option Nat)
    (allocEvents : List AllocEvent) : InsertionMap Nat TaskEntry :=
  allocEvents.foldl (attributeAlloc sampleRateBytes (workerPolls events) tidToWorker) []

/-- Mean bytes between samples. -/
def AllocationOptions.rate (opts : AllocationOptions) : Nat :=
  match opts.sampleRateBytes with
  | none | some 0 => 524288
  | some rate => rate

/-- `analyzeAllocations` -/
def analyzeAllocations (allocEvents : Option (List AllocEvent))
    (freeEvents : Option (List FreeEvent)) (opts : AllocationOptions) : AllocationAnalysis :=
  let sampleRateBytes := opts.rate
  match allocEvents, freeEvents with
  | some allocEvents, some freeEvents =>
    let leaks := leaks allocEvents freeEvents
    let overflows := opts.memoryOverflows.getD []
    { topSites := topSites sampleRateBytes allocEvents
      leaks := leaks
      perTask :=
        match opts.events, opts.tidToWorker with
        | some events, some tidToWorker =>
          perTask sampleRateBytes events tidToWorker allocEvents
        | _, _ => []
      sampleRateBytes := sampleRateBytes
      summary :=
        { totalAllocBytes := (allocEvents.map AllocEvent.size).sum
          totalAllocCount := allocEvents.length
          totalFreeCount := freeEvents.length
          leakedBytes := (leaks.map Leak.size).sum
          leakedCount := leaks.length
          estimatedTotalBytes := mathRound
            (allocEvents.foldl (fun sum a => sum + allocWeight sampleRateBytes a.size) 0)
          totalDroppedAllocs := (overflows.map MemoryOverflow.droppedAllocs).sum
          totalDroppedFrees := (overflows.map MemoryOverflow.droppedFrees).sum } }
  | _, _ => ⟨[], [], [], sampleRateBytes, ⟨0, 0, 0, 0, 0, 0, 0, 0⟩⟩

/-! ## The task that was being polled -/

/-- A start or an end of a poll of the worker. -/
def PollEventOf (workerId : Nat) (e : TraceEvent) : Prop :=
  e.workerId = workerId ∧ (e.eventType = .pollStart ∨ e.eventType = .pollEnd)

/-- A poll start of the task at or before the time, with no later start or end of a poll of the
worker up to it. Of events at one time the one delivered last is the later. -/
def BeingPolled (events : List TraceEvent) (workerId taskId : Nat) (time : Int) : Prop :=
  ∃ before e after, events = before ++ e :: after ∧ taskStart e = true ∧
    e.workerId = workerId ∧ e.taskId = taskId ∧ e.timestamp ≤ time ∧
    (∀ d ∈ before, PollEventOf workerId d → d.timestamp ≤ time → d.timestamp ≤ e.timestamp) ∧
    ∀ d ∈ after, PollEventOf workerId d → d.timestamp ≤ time → d.timestamp < e.timestamp

/-- The allocation's thread maps to a worker on which the task was being polled. -/
def AllocatedIn (events : List TraceEvent) (tidToWorker : Nat → Option Nat) (a : AllocEvent)
    (taskId : Nat) : Prop :=
  ∃ workerId, tidToWorker a.tid = some workerId ∧ BeingPolled events workerId taskId a.timestamp

variable {events : List TraceEvent} {tidToWorker : Nat → Option Nat} {a : AllocEvent}
  {workerId taskId taskId' rate : Nat} {time : Int}

/-! ## Where the search finds it -/

/-- The poll starts of a worker's tasks in the order they were delivered in. -/
def startsOf (events : List TraceEvent) (workerId : Nat) : List WorkerPoll :=
  (events.filter fun e => taskStart e ∧ e.workerId = workerId).map fun e => ⟨e.timestamp, e.taskId⟩

/-- At each start where a halving of the list for the one at the index looks, the start is at or
before the time exactly when it does not stand after the index. -/
def HalvedTo (polls : List WorkerPoll) (time : Int) (index : Nat) : Prop :=
  Leads (testAt polls fun p => decide (p.start ≤ time)) (index + 1)
    (probes (index + 1) 0 polls.length)

/-- Each start where a halving of the list for none looks is after the time. -/
def HalvedAway (polls : List WorkerPoll) (time : Int) : Prop :=
  Leads (testAt polls fun p => decide (p.start ≤ time)) 0 (probes 0 0 polls.length)

/-- A halving of the worker's starts leads to a start of the task that was being polled, and away
from all of them if none was. -/
structure StartsLead (events : List TraceEvent) (workerId : Nat) (time : Int) : Prop where
  polled : ∀ taskId, BeingPolled events workerId taskId time →
    ∃ index, (startsOf events workerId)[index]?.map WorkerPoll.taskId = some taskId ∧
      HalvedTo (startsOf events workerId) time index
  idle : (∀ taskId, ¬ BeingPolled events workerId taskId time) →
    HalvedAway (startsOf events workerId) time

theorem get?_workerPolls :
    ((workerPolls events).get? workerId).getD [] = startsOf events workerId := by
  induction events using List.reverseRecOn with
  | nil => rfl
  | append_singleton events e ih =>
    rw [workerPolls, List.foldl_append, ← workerPolls, startsOf, List.filter_append,
      List.map_append,
      ← startsOf, ← ih]
    cases hstart : taskStart e with
    | false => simp [hstart]
    | true =>
      by_cases hworker : e.workerId = workerId
      · simp [hstart, hworker]
      · simp [hstart, hworker, InsertionMap.get?_update_of_ne hworker]

/-- The task that the search over a worker's starts comes to. -/
def searched (polls : List WorkerPoll) (time : Int) : Option Nat :=
  (pollIndex polls time).bind fun best => polls[best]?.map WorkerPoll.taskId

theorem taskOf_eq : taskOf (workerPolls events) tidToWorker a =
    (tidToWorker a.tid).bind fun workerId => searched (startsOf events workerId) a.timestamp := by
  rw [taskOf]
  cases tidToWorker a.tid with
  | none => rfl
  | some workerId =>
    dsimp only [Option.bind_some]
    rw [← get?_workerPolls]
    cases (workerPolls events).get? workerId with
    | none => rfl
    | some polls =>
      cases polls with
      | nil | cons _ _ => rfl

theorem searched_eq_some_iff {polls : List WorkerPoll} :
    searched polls time = some taskId ↔
      ∃ index, polls[index]?.map WorkerPoll.taskId = some taskId ∧ HalvedTo polls time index := by
  rw [searched, Option.bind_eq_some_iff]
  constructor
  · intro ⟨index, hindex, htask⟩
    exact ⟨index, htask, (lastPassing_eq_some_iff.mp hindex).2.2⟩
  · intro ⟨index, htask, hhalved⟩
    have hlt : index < polls.length := by
      by_contra hge
      rw [List.getElem?_eq_none (Nat.le_of_not_lt hge)] at htask
      cases htask
    exact ⟨index, lastPassing_eq_some_iff.mpr ⟨Nat.zero_le _, hlt, hhalved⟩, htask⟩

theorem searched_eq_none_iff {polls : List WorkerPoll} :
    searched polls time = none ↔ HalvedAway polls time := by
  rw [HalvedAway, ← lastPassing_eq_none_iff, searched, ← pollIndex]
  cases hindex : pollIndex polls time with
  | none => simp
  | some index =>
    have hlt := (lastPassing_eq_some_iff.mp hindex).2.1
    simp [List.getElem?_eq_getElem hlt]

/-- The search is right about a worker and a time exactly where the starts lead it. -/
theorem searched_iff_beingPolled :
    (∀ taskId, searched (startsOf events workerId) time = some taskId ↔
      BeingPolled events workerId taskId time) ↔ StartsLead events workerId time := by
  constructor
  · intro h
    constructor
    case polled =>
      intro taskId hpolled
      exact searched_eq_some_iff.mp ((h taskId).mpr hpolled)
    case idle =>
      intro hidle
      apply searched_eq_none_iff.mp
      cases hfound : searched (startsOf events workerId) time with
      | none => rfl
      | some taskId => exact absurd ((h taskId).mp hfound) (hidle taskId)
  · intro h taskId
    constructor
    · intro hfound
      by_contra hnot
      by_cases hidle : ∀ taskId, ¬ BeingPolled events workerId taskId time
      · rw [searched_eq_none_iff.mpr (h.idle hidle)] at hfound
        cases hfound
      · push Not at hidle
        obtain ⟨taskId', hpolled⟩ := hidle
        rw [searched_eq_some_iff.mpr (h.polled taskId' hpolled)] at hfound
        cases hfound
        exact hnot hpolled
    · intro hpolled
      exact searched_eq_some_iff.mpr (h.polled taskId hpolled)

/-! ## Frees and their allocations -/

/-- The free gives back what was allocated at that address at that time. -/
def Frees (f : FreeEvent) (a : AllocEvent) : Prop :=
  f.addr = a.addr ∧ f.allocTimestampNs = a.timestamp

instance (f : FreeEvent) (a : AllocEvent) : Decidable (Frees f a) :=
  inferInstanceAs (Decidable (_ ∧ _))

theorem colon_notMem_decimal (t : Int) : ':' ∉ decimal t := by
  cases t with
  | ofNat n => exact Str.not_mem_display rfl
  | negSucc n =>
    rw [decimal, List.mem_cons]
    rintro (h | h)
    · cases h
    · exact Str.not_mem_display rfl h

theorem decimal_injective : Function.Injective decimal := by
  intro t t' h
  cases t with
  | ofNat n =>
    cases t' with
    | ofNat n' => rw [Str.display_injective h]
    | negSucc n' => exact absurd rfl (Str.display_cons h).2
  | negSucc n =>
    cases t' with
    | ofNat n' => exact absurd rfl (Str.display_cons h.symm).2
    | negSucc n' =>
      have hn : n + 1 = n' + 1 := Str.display_injective (List.cons.inj h).2
      rw [Nat.succ_injective hn]

theorem allocKey_inj {addr addr' : Str} {t t' : Int} (h : allocKey addr t = allocKey addr' t') :
    addr = addr' ∧ t = t' := by
  rcases List.append_eq_append_iff.mp h with ⟨gap, haddr, hrest⟩ | ⟨gap, haddr, hrest⟩
  · cases gap with
    | nil =>
      rw [List.append_nil] at haddr
      exact ⟨haddr.symm, decimal_injective (List.cons.inj hrest).2⟩
    | cons c gap =>
      refine absurd ?_ (colon_notMem_decimal t)
      rw [(List.cons.inj hrest).2]
      simp
  · cases gap with
    | nil =>
      rw [List.append_nil] at haddr
      exact ⟨haddr, (decimal_injective (List.cons.inj hrest).2).symm⟩
    | cons c gap =>
      refine absurd ?_ (colon_notMem_decimal t')
      rw [(List.cons.inj hrest).2]
      simp

variable {freeEvents : List FreeEvent}

theorem allocKey_mem_freedAddrs :
    (freedAddrs freeEvents).contains (allocKey a.addr a.timestamp) = true ↔
      ∃ f ∈ freeEvents, Frees f a := by
  rw [List.contains_iff_mem, freedAddrs, List.mem_map]
  constructor
  · intro ⟨f, hf, hkey⟩
    exact ⟨f, hf, allocKey_inj hkey⟩
  · intro ⟨f, hf, haddr, htime⟩
    exact ⟨f, hf, by rw [haddr, htime]⟩

def leakOf (a : AllocEvent) : Leak := ⟨a.callchain, a.size, a.timestamp, a.addr⟩

/-- The leaks are the allocations that no free answers, in order. -/
theorem leaks_eq {allocEvents : List AllocEvent} :
    leaks allocEvents freeEvents =
      (allocEvents.filter fun a => ¬ ∃ f ∈ freeEvents, Frees f a).map leakOf := by
  induction allocEvents with
  | nil => rfl
  | cons a rest ih =>
    rw [leaks, List.filterMap_cons, ← leaks, ih]
    by_cases hfreed : ∃ f ∈ freeEvents, Frees f a
    · rw [if_pos (allocKey_mem_freedAddrs.mpr hfreed),
        List.filter_cons_of_neg (by simpa using hfreed)]
    · rw [if_neg (mt allocKey_mem_freedAddrs.mp hfreed),
        List.filter_cons_of_pos (by simpa using hfreed)]
      rfl

/-! ## What a run adds -/

theorem some_charge_ne (entry : Option TaskEntry) : some (charge rate a entry) ≠ entry := by
  intro h
  cases entry with
  | none => cases h
  | some entry =>
    have hcount := congrArg TaskEntry.count (Option.some.inj h)
    exact absurd hcount (Nat.succ_ne_self _)

theorem get?_attributeAlloc {polls : InsertionMap Nat (List WorkerPoll)}
    {tasks : InsertionMap Nat TaskEntry} :
    (attributeAlloc rate polls tidToWorker tasks a).get? taskId =
      if taskOf polls tidToWorker a = some taskId then some (charge rate a (tasks.get? taskId))
      else tasks.get? taskId := by
  rw [attributeAlloc]
  cases taskOf polls tidToWorker a with
  | none => simp
  | some found =>
    dsimp only
    rw [InsertionMap.get?_update]
    by_cases heq : found = taskId
    · rw [if_pos heq, if_pos (congrArg some heq), heq]
    · rw [if_neg heq, if_neg (mt Option.some_inj.mp heq)]

/-- The search is right about an allocation exactly where the starts of its worker lead it. -/
theorem taskOf_iff_allocatedIn :
    (∀ taskId, taskOf (workerPolls events) tidToWorker a = some taskId ↔
      AllocatedIn events tidToWorker a taskId) ↔
      ∀ workerId, tidToWorker a.tid = some workerId → StartsLead events workerId a.timestamp := by
  rw [taskOf_eq]
  unfold AllocatedIn
  cases tidToWorker a.tid with
  | none => simp
  | some workerId => simp [← searched_iff_beingPolled]

/-- What the tasks have after the allocations, of all that the analysis returns. -/
def totals (opts : AllocationOptions) (freeEvents : List FreeEvent)
    (allocEvents : List AllocEvent) : InsertionMap Nat TaskEntry :=
  (analyzeAllocations (some allocEvents) (some freeEvents) opts).perTask

/-- Each allocation goes on top of what a task had exactly when it was made in a poll of the task,
and the leaks are the allocations that no free answers. -/
structure Attributes (events : List TraceEvent) (tidToWorker : Nat → Option Nat)
    (sampleRateBytes : Option Nat) (memoryOverflows : Option (List MemoryOverflow))
    (allocEvents : List AllocEvent) (freeEvents : List FreeEvent) : Prop where
  added : ∀ before a after, allocEvents = before ++ a :: after → ∀ taskId,
    let opts : AllocationOptions :=
      ⟨some events, some tidToWorker, sampleRateBytes, memoryOverflows⟩
    let had := (totals opts freeEvents before).get? taskId
    let has := (totals opts freeEvents (before ++ [a])).get? taskId
    (AllocatedIn events tidToWorker a taskId → has = some (charge opts.rate a had)) ∧
      (¬ AllocatedIn events tidToWorker a taskId → has = had)
  leaked : (analyzeAllocations (some allocEvents) (some freeEvents)
      ⟨some events, some tidToWorker, sampleRateBytes, memoryOverflows⟩).leaks =
    (allocEvents.filter fun a => ¬ ∃ f ∈ freeEvents, Frees f a).map leakOf

theorem totals_concat (sampleRateBytes : Option Nat)
    (memoryOverflows : Option (List MemoryOverflow))
    (freeEvents : List FreeEvent) (before : List AllocEvent) (a : AllocEvent) :
    let opts : AllocationOptions :=
      ⟨some events, some tidToWorker, sampleRateBytes, memoryOverflows⟩
    totals opts freeEvents (before ++ [a]) =
      attributeAlloc opts.rate (workerPolls events) tidToWorker
        (totals opts freeEvents before) a := by
  intro opts
  exact List.foldl_concat _ _ _ _

/-- The allocations are put on the tasks they were made in exactly where, for each of them made on
a worker, the worker's starts lead the search. -/
theorem attributes_iff (events : List TraceEvent) (tidToWorker : Nat → Option Nat)
    (sampleRateBytes : Option Nat) (memoryOverflows : Option (List MemoryOverflow))
    (allocEvents : List AllocEvent) (freeEvents : List FreeEvent) :
    Attributes events tidToWorker sampleRateBytes memoryOverflows allocEvents freeEvents ↔
      ∀ a ∈ allocEvents, ∀ workerId, tidToWorker a.tid = some workerId →
        StartsLead events workerId a.timestamp := by
  constructor
  · intro h a ha
    apply taskOf_iff_allocatedIn.mp
    intro taskId
    obtain ⟨before, after, hsplit⟩ := List.append_of_mem ha
    have hadded := h.added before a after hsplit taskId
    dsimp only at hadded
    rw [totals_concat, get?_attributeAlloc] at hadded
    constructor
    · intro hfound
      by_contra hnot
      have hsame := hadded.2 hnot
      rw [if_pos hfound] at hsame
      exact some_charge_ne _ hsame
    · intro hin
      by_contra hnot
      have hmore := hadded.1 hin
      rw [if_neg hnot] at hmore
      exact some_charge_ne _ hmore.symm
  · intro h
    constructor
    case added =>
      intro before a after hsplit taskId
      have ha : a ∈ allocEvents := hsplit ▸ List.mem_append_cons_self
      have hiff := taskOf_iff_allocatedIn.mpr (h a ha) taskId
      dsimp only
      rw [totals_concat, get?_attributeAlloc]
      constructor
      · intro hin
        rw [if_pos (hiff.mpr hin)]
      · intro hnot
        rw [if_neg (mt hiff.mp hnot)]
    case leaked => exact leaks_eq

/-- A poll that ended before the allocation still has it. -/
theorem betweenPolls_not_attributes :
    ¬ Attributes
      [⟨.pollStart, 10, 0, 0, 0, 0, none, none, 7, none, none, none, none, none⟩,
        ⟨.pollEnd, 20, 0, 0, 0, 0, none, none, 0, none, none, none, none, none⟩]
      (fun tid => if tid = 100 then some 0 else none) none none
      [⟨30, 100, 64, [], []⟩] [] := by
  intro h
  have hspared := (h.added [] ⟨30, 100, 64, [], []⟩ [] rfl 7).2
  rw [totals_concat, get?_attributeAlloc, if_pos (by decide)] at hspared
  refine some_charge_ne _ (hspared ?_)
  rintro ⟨workerId, hworker, before, e, after, heq, hstart, -, -, -, -, hafter⟩
  obtain rfl : 0 = workerId := Option.some.inj hworker
  cases before with
  | nil =>
    obtain ⟨rfl, rfl⟩ := List.cons.inj heq
    have hlt := hafter _ List.mem_cons_self ⟨rfl, .inr rfl⟩ (by decide)
    exact absurd hlt (by decide)
  | cons first before =>
    cases before with
    | nil =>
      obtain ⟨rfl, -⟩ := List.cons.inj (List.cons.inj heq).2
      cases hstart
    | cons second before => simp at heq

end Dial9.Viewer.Allocations
