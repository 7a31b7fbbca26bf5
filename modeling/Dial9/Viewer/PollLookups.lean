/-
# Looking polls up

A sample, a span's enter or exit and a lifecycle range find their polls by binary
search: the last poll to start by then is probed, and no other. The polls of a
worker, and those of a task, do not overlap, so the probe answers as a scan of all
records would, as long as the sort leaves no poll of some length before an empty
one of the same start.
-/

import Dial9.Viewer.PollInvariant
import Dial9.Viewer.TidHistory

namespace Dial9.Viewer.Polls

/-- The element before the partition point. -/
def probe {α : Type} (p : α → Bool) (as : List α) : Option α :=
  match partitionPoint p as with
  | 0 => none
  | index + 1 => as[index]?

/-! ## The index of polls -/

structure AttributionInterval where
  start : Nat
  stop : Nat
  workerId : Nat
  deriving DecidableEq

/-- Each list has its polls in the order of the records. -/
structure PollIndex where
  byTask : Nat → List PollRecord
  byWorker : Nat → List PollRecord

namespace PollIndex

/-- Polls of task 0 are skipped. -/
def new (records : List PollRecord) : PollIndex where
  byTask taskId :=
    (records.filter fun poll => poll.taskId ≠ 0).filter fun poll => poll.taskId = taskId
  byWorker workerId :=
    (records.filter fun poll => poll.taskId ≠ 0).filter fun poll => poll.workerId = workerId

variable (index : PollIndex)

/-- The task running on a worker at an instant. -/
def taskAt (workerId timestamp : Nat) : Option Nat :=
  ((probe (fun poll => decide (poll.start ≤ timestamp)) (index.byWorker workerId)).filter
    fun poll => timestamp < poll.stop).map PollRecord.taskId

/-- An exit at a boundary belongs to the poll that just ended. -/
def taskAtExit (workerId timestamp : Nat) : Option Nat :=
  match (probe (fun poll => decide (poll.start < timestamp)) (index.byWorker workerId)).filter
    fun poll => timestamp ≤ poll.stop with
  | some poll => some poll.taskId
  | none => index.taskAt workerId timestamp

/-- What a poll and a range have in common; the worker must fit 32 bits. -/
def overlap (start stop : Nat) (poll : PollRecord) : Option AttributionInterval :=
  if min poll.stop stop ≤ max poll.start start then none
  else if poll.workerId < 2 ^ 32 then
    some ⟨max poll.start start, min poll.stop stop, poll.workerId⟩
  else none

def intersections (taskId start stop : Nat) : List AttributionInterval :=
  let polls := index.byTask taskId
  let first := partitionPoint (fun poll : PollRecord => decide (poll.stop ≤ start)) polls
  ((polls.drop first).takeWhile fun poll => poll.start < stop).filterMap (overlap start stop)

end PollIndex

/-! ## Samples -/

namespace PollTimeline

/-- The records of a worker, each with its position. -/
def byWorker (timeline : PollTimeline) (workerId : Nat) : List (PollRecord × Nat) :=
  timeline.records.zipIdx.filter fun entry => entry.1.workerId = workerId

def pollAt (timeline : PollTimeline) (workerId timestamp : Nat) : Option (PollRecord × Nat) :=
  (probe (fun entry => decide (entry.1.start ≤ timestamp)) (timeline.byWorker workerId)).filter
    fun entry => entry.1.start ≤ timestamp && timestamp < entry.1.stop

/-- A sample of the profiler's source, or of any other. -/
def bump (source : Nat) (counts : Nat × Nat) : Nat × Nat :=
  if source = 0 then (counts.1 + 1, counts.2) else (counts.1, counts.2 + 1)

/-- The counts after the sample, and its worker, its poll's length and where that was spawned. -/
def attributeSample (timeline : PollTimeline) (counts : List (Nat × Nat))
    (tid timestamp source : Nat) :
    List (Nat × Nat) × Option Nat × Option Nat × Option Lib.Str :=
  match timeline.attributeSampleWorker tid timestamp with
  | none => (counts, none, none, none)
  | some worker =>
    match timeline.pollAt worker timestamp with
    | none => (counts, some worker, none, none)
    | some (poll, pollIndex) =>
      (counts.modify pollIndex (bump source), some worker, some (poll.stop - poll.start),
        poll.spawnLoc)

end PollTimeline

/-! ## What a sort by start may leave -/

/-- The polls in an order by start in which an empty one comes before another of its worker or
of its task that starts with it. -/
structure SortedByStart (emitted sorted : List PollRecord) : Prop where
  perm : sorted.Perm emitted
  start : sorted.Pairwise fun a b => a.start ≤ b.start
  emptyFirst : sorted.Pairwise fun a b => a.workerId = b.workerId ∨ a.taskId = b.taskId →
    a.start = b.start → a.stop = a.start

/-- In time: none starts before an earlier one, or before an earlier one of its own is over. -/
def InTime (a b : PollRecord) : Prop :=
  a.start ≤ b.start ∧ (a.workerId = b.workerId ∨ a.taskId = b.taskId → a.stop ≤ b.start)

theorem SortedByStart.inTime {emitted sorted : List PollRecord} (h : SortedByStart emitted sorted)
    (hapart : emitted.Pairwise Apart) (hforward : ∀ record ∈ emitted, record.start ≤ record.stop) :
    sorted.Pairwise InTime := by
  have heither : sorted.Pairwise fun a b => a.workerId = b.workerId ∨ a.taskId = b.taskId →
      a.stop ≤ b.start ∨ b.stop ≤ a.start := by
    refine (h.perm.pairwise_iff ?_).mpr (hapart.imp fun hab hshared => .inl (hab hshared))
    exact fun hab hshared => (hab (hshared.imp Eq.symm Eq.symm)).symm
  refine ((h.start.and h.emptyFirst).and heither).imp_of_mem ?_
  rintro a b - hb ⟨⟨hstart, hempty⟩, heither⟩
  refine ⟨hstart, fun hshared => ?_⟩
  rcases heither hshared with hover | hback
  · exact hover
  · have hlength := hforward b (h.perm.mem_iff.mp hb)
    have hsame : a.start = b.start := by omega
    rw [hempty hshared hsame, hsame]

/-! ## Probes and scans -/

theorem probe_eq {α : Type} (p : α → Bool) (as : List α) :
    probe p as = (as.takeWhile p).getLast? := by
  unfold probe
  cases hpoint : partitionPoint p as with
  | zero => rw [getLast?_of_partitionPoint_zero hpoint]
  | succ index => rw [getLast?_of_partitionPoint_succ hpoint]

theorem probe_holding {α : Type} {as : List α} (poll : α → PollRecord) {p q : PollRecord → Bool}
    (hpolls : as.Pairwise fun a b => InTime (poll a) (poll b))
    (hshared : ∀ a ∈ as, ∀ b ∈ as, (poll a).workerId = (poll b).workerId)
    (hdown : ∀ a b : PollRecord, a.start ≤ b.start → p b = true → p a = true)
    (hleft : ∀ a b : PollRecord, a.stop ≤ b.start → p b = true → q a = false) {a : α} :
    (probe (p ∘ poll) as).filter (q ∘ poll) = some a ↔
      a ∈ as ∧ p (poll a) = true ∧ q (poll a) = true := by
  rw [probe_eq]
  refine probe_eq_some_iff (hpolls.imp fun hab => hdown _ _ hab.1) (hpolls.imp_of_mem ?_)
  exact fun ha hb hab => hleft _ _ (hab.2 (.inl (hshared _ ha _ hb)))

variable {records : List PollRecord}

theorem pairwise_zipIdx {R : PollRecord → PollRecord → Prop} (h : records.Pairwise R) :
    records.zipIdx.Pairwise fun a b => R a.1 b.1 := by
  apply List.pairwise_map.mp
  rwa [List.zipIdx_map_fst]

theorem pairwise_zipIdx_lt : records.zipIdx.Pairwise fun a b => a.2 < b.2 := by
  apply List.pairwise_map.mp
  rw [List.zipIdx_map_snd]
  exact List.pairwise_lt_range'

variable {workerId timestamp taskId : Nat}

namespace PollIndex

theorem mem_byWorker {poll : PollRecord} :
    poll ∈ (new records).byWorker workerId ↔
      poll ∈ records ∧ poll.taskId ≠ 0 ∧ poll.workerId = workerId := by
  simp only [new, List.mem_filter, decide_eq_true_eq, and_assoc]

theorem probe_byWorker (h : records.Pairwise InTime) {p q : PollRecord → Bool}
    (hdown : ∀ a b : PollRecord, a.start ≤ b.start → p b = true → p a = true)
    (hleft : ∀ a b : PollRecord, a.stop ≤ b.start → p b = true → q a = false) {poll : PollRecord} :
    (probe p ((new records).byWorker workerId)).filter q = some poll ↔
      (poll ∈ records ∧ poll.taskId ≠ 0 ∧ poll.workerId = workerId) ∧ p poll = true ∧
        q poll = true := by
  have hpolls := (h.filter fun poll => poll.taskId ≠ 0).filter fun poll => poll.workerId = workerId
  have hprobe := probe_holding id (p := p) (q := q) (a := poll) hpolls ?_ hdown hleft
  · rw [← mem_byWorker]
    exact hprobe
  · intro a ha b hb
    exact (mem_byWorker.mp ha).2.2.trans (mem_byWorker.mp hb).2.2.symm

/-- A task other than 0 has a poll on the worker that holds the instant. -/
def Running (records : List PollRecord) (workerId timestamp taskId : Nat) : Prop :=
  ∃ poll ∈ records, poll.taskId ≠ 0 ∧ poll.workerId = workerId ∧ poll.start ≤ timestamp ∧
    timestamp < poll.stop ∧ poll.taskId = taskId

/-- The same of an instant after the start, the end included. -/
def Ending (records : List PollRecord) (workerId timestamp taskId : Nat) : Prop :=
  ∃ poll ∈ records, poll.taskId ≠ 0 ∧ poll.workerId = workerId ∧ poll.start < timestamp ∧
    timestamp ≤ poll.stop ∧ poll.taskId = taskId

section

variable (h : records.Pairwise InTime)
include h

theorem taskAt_eq_some_iff :
    (new records).taskAt workerId timestamp = some taskId ↔
      Running records workerId timestamp taskId := by
  rw [taskAt, Option.map_eq_some_iff]
  refine exists_congr fun poll => ?_
  rw [probe_byWorker h]
  · simp only [decide_eq_true_eq, and_assoc]
  · intro a b hab hb
    exact decide_eq_true (hab.trans (of_decide_eq_true hb))
  · intro a b hab hb
    exact decide_eq_false (Nat.not_lt.mpr (hab.trans (of_decide_eq_true hb)))

theorem taskAtExit_eq_some_iff :
    (new records).taskAtExit workerId timestamp = some taskId ↔
      Ending records workerId timestamp taskId ∨
        (∀ other, ¬ Ending records workerId timestamp other) ∧
          Running records workerId timestamp taskId := by
  have hprobe (poll : PollRecord) : (probe (fun poll => decide (poll.start < timestamp))
      ((new records).byWorker workerId)).filter (fun poll => timestamp ≤ poll.stop) = some poll ↔
        poll ∈ records ∧ poll.taskId ≠ 0 ∧ poll.workerId = workerId ∧ poll.start < timestamp ∧
          timestamp ≤ poll.stop := by
    rw [probe_byWorker h]
    · simp only [decide_eq_true_eq, and_assoc]
    · intro a b hab hb
      exact decide_eq_true (hab.trans_lt (of_decide_eq_true hb))
    · intro a b hab hb
      exact decide_eq_false (Nat.not_le.mpr (hab.trans_lt (of_decide_eq_true hb)))
  unfold taskAtExit
  split
  · rename_i poll hfound
    have hpoll := (hprobe poll).mp hfound
    constructor
    · intro htask
      exact .inl ⟨poll, hpoll.1, hpoll.2.1, hpoll.2.2.1, hpoll.2.2.2.1, hpoll.2.2.2.2,
        Option.some.inj htask⟩
    · rintro (⟨other, hmem, hother, hworker, hstart, hstop, rfl⟩ | ⟨hnone, -⟩)
      · rw [(hprobe other).mpr ⟨hmem, hother, hworker, hstart, hstop⟩] at hfound
        rw [Option.some.inj hfound]
      · exact absurd ⟨poll, hpoll.1, hpoll.2.1, hpoll.2.2.1, hpoll.2.2.2.1, hpoll.2.2.2.2, rfl⟩
          (hnone poll.taskId)
  · rename_i hmissed
    have hnone (other : Nat) : ¬ Ending records workerId timestamp other := by
      rintro ⟨poll, hmem, hpoll, hworker, hstart, hstop, -⟩
      rw [(hprobe poll).mpr ⟨hmem, hpoll, hworker, hstart, hstop⟩] at hmissed
      cases hmissed
    rw [taskAt_eq_some_iff h, or_iff_right (hnone taskId), and_iff_right hnone]

/-- The binary search and the early stop skip only polls that share nothing with the range. -/
theorem intersections_eq_filterMap
    (hforward : ∀ poll ∈ records, poll.start ≤ poll.stop) (taskId start stop : Nat) :
    (new records).intersections taskId start stop =
      ((new records).byTask taskId).filterMap (overlap start stop) := by
  have hpolls : ((new records).byTask taskId).Pairwise InTime := (h.filter _).filter _
  have hmem : ∀ poll ∈ (new records).byTask taskId, poll ∈ records := fun poll hpoll =>
    (List.mem_filter.mp (List.mem_filter.mp hpoll).1).1
  unfold intersections
  generalize (new records).byTask taskId = polls at hpolls hmem
  let ended : PollRecord → Bool := fun poll => decide (poll.stop ≤ start)
  have hended : (polls.takeWhile ended).filterMap (overlap start stop) = [] := by
    apply List.filterMap_eq_nil_iff.mpr
    intro poll hpoll
    have hstop : poll.stop ≤ start :=
      of_decide_eq_true (List.all_eq_true.mp List.all_takeWhile poll hpoll)
    exact if_pos (by omega)
  have hdrop : polls.drop (partitionPoint ended polls) = polls.dropWhile ended := by
    conv_lhs => rw [← List.takeWhile_append_dropWhile (p := ended) (l := polls)]
    exact List.drop_left' (by rw [List.takeWhile_append_dropWhile]; rfl)
  have hrest : (polls.dropWhile ended).Pairwise InTime :=
    hpolls.sublist (List.dropWhile_sublist ended)
  have hbefore : (polls.dropWhile ended).takeWhile (fun poll => decide (poll.start < stop)) =
      (polls.dropWhile ended).filter fun poll => decide (poll.start < stop) :=
    Lib.takeWhile_eq_filter (hrest.imp fun hab hb =>
      decide_eq_true (hab.1.trans_lt (of_decide_eq_true hb)))
  conv_rhs =>
    rw [← List.takeWhile_append_dropWhile (p := ended) (l := polls), List.filterMap_append,
    hended, List.nil_append]
  dsimp only
  rw [hdrop, hbefore, List.filterMap_filter]
  apply List.filterMap_congr
  intro poll hpoll
  split
  · rfl
  · rename_i hlate
    have hlength := hforward poll (hmem poll ((List.dropWhile_sublist ended).subset hpoll))
    rw [decide_eq_true_eq] at hlate
    exact (if_pos (by omega)).symm

end

end PollIndex

/-- What the lookups of a timeline answer, as scans of its records and of the recorded gaps. -/
structure AnswersAsScan (events : List TraceEvent) (timeline : PollTimeline) : Prop where
  sample : ∀ workerId timestamp entry, timeline.pollAt workerId timestamp = some entry ↔
    timeline.records[entry.2]? = some entry.1 ∧ entry.1.workerId = workerId ∧
      entry.1.start ≤ timestamp ∧ timestamp < entry.1.stop
  task : ∀ workerId timestamp taskId,
    (PollIndex.new timeline.records).taskAt workerId timestamp = some taskId ↔
      PollIndex.Running timeline.records workerId timestamp taskId
  exit : ∀ workerId timestamp taskId,
    (PollIndex.new timeline.records).taskAtExit workerId timestamp = some taskId ↔
      PollIndex.Ending timeline.records workerId timestamp taskId ∨
        (∀ other, ¬ PollIndex.Ending timeline.records workerId timestamp other) ∧
          PollIndex.Running timeline.records workerId timestamp taskId
  intersections : ∀ taskId start stop,
    (PollIndex.new timeline.records).intersections taskId start stop =
      (timeline.records.filter fun poll => poll.taskId ≠ 0 ∧ poll.taskId = taskId).filterMap
        (PollIndex.overlap start stop)
  gap : ∀ tid timestamp, timeline.tidIsInHandoffGap tid timestamp = true ↔
    ∃ gap ∈ (events.foldl TidTables.bind .empty).tidHandoffGaps tid,
      gap.1 ≤ timestamp ∧ timestamp < gap.2

section Reconstruct

variable {sortRecords : List PollRecord → List PollRecord} {events : List TraceEvent}
  (hsorted : events.Pairwise fun a b => a.timestampNs ≤ b.timestampNs)
  (hsort : SortedByStart (events.foldl Reconstructor.consume .empty).records
    (sortRecords (events.foldl Reconstructor.consume .empty).records))
include hsorted hsort

/-- The poll of a worker at a time is the record whose interval holds the time. -/
theorem PollTimeline.pollAt_reconstruct (workerId timestamp : Nat) (entry : PollRecord × Nat) :
    (PollTimeline.reconstruct sortRecords events).pollAt workerId timestamp = some entry ↔
      (PollTimeline.reconstruct sortRecords events).records[entry.2]? = some entry.1 ∧
        entry.1.workerId = workerId ∧ entry.1.start ≤ timestamp ∧ timestamp < entry.1.stop := by
  have hsound := Reconstructor.sound_foldl hsorted
  have h := hsort.inTime hsound.apart fun record hrecord =>
    (hsound.recorded record hrecord).forward
  have hpolls := (pairwise_zipIdx h).filter fun entry => entry.1.workerId = workerId
  have hprobe := probe_holding Prod.fst (a := entry) hpolls ?_ ?_ ?_
    (p := fun poll => decide (poll.start ≤ timestamp))
    (q := fun poll => decide (poll.start ≤ timestamp) && decide (timestamp < poll.stop))
  · refine hprobe.trans ?_
    simp only [List.mem_filter, List.mem_zipIdx_iff_getElem?, decide_eq_true_eq, Bool.and_eq_true,
      and_assoc, and_self_left]
    rfl
  · intro a ha b hb
    exact (of_decide_eq_true (List.mem_filter.mp ha).2).trans
      (of_decide_eq_true (List.mem_filter.mp hb).2).symm
  · intro a b hab hb
    exact decide_eq_true (hab.trans (of_decide_eq_true hb))
  · intro a b hab hb
    rw [decide_eq_false (Nat.not_lt.mpr (hab.trans (of_decide_eq_true hb))), Bool.and_false]

end Reconstruct

theorem answersAsScan_of_sorted {sortRecords : List PollRecord → List PollRecord}
    {events : List TraceEvent} (hsorted : events.Pairwise fun a b => a.timestampNs ≤ b.timestampNs)
    (hsort : SortedByStart (events.foldl Reconstructor.consume .empty).records
      (sortRecords (events.foldl Reconstructor.consume .empty).records)) :
    AnswersAsScan events (PollTimeline.reconstruct sortRecords events) := by
  have hsound := Reconstructor.sound_foldl hsorted
  have hforward (record : PollRecord) (hrecord : record ∈ _) :=
    (hsound.recorded record hrecord).forward
  have h := hsort.inTime hsound.apart hforward
  have hforward' (record : PollRecord) (hrecord : record ∈ _) :=
    hforward record (hsort.perm.mem_iff.mp hrecord)
  refine ⟨PollTimeline.pollAt_reconstruct hsorted hsort,
    fun _ _ _ => PollIndex.taskAt_eq_some_iff h,
    fun _ _ _ => PollIndex.taskAtExit_eq_some_iff h, ?_, PollTimeline.tidIsInHandoffGap_iff_covers⟩
  intro taskId start stop
  refine (PollIndex.intersections_eq_filterMap h hforward' taskId start stop).trans ?_
  simp only [PollIndex.new, List.filter_filter, Bool.decide_and, Bool.and_comm]
  rfl

/-- An empty poll comes before another of its worker that starts with it. -/
def EmptyFirst (polls : List PollRecord) : Prop :=
  polls.Pairwise fun a b => a.workerId = b.workerId → a.start = b.start → a.stop = a.start

instance (polls : List PollRecord) : Decidable (EmptyFirst polls) :=
  inferInstanceAs (Decidable (polls.Pairwise _))

theorem AnswersAsScan.emptyFirst {events : List TraceEvent} {timeline : PollTimeline}
    (h : AnswersAsScan events timeline)
    (hstart : timeline.records.Pairwise fun a b => a.start ≤ b.start)
    (hforward : ∀ poll ∈ timeline.records, poll.start ≤ poll.stop) :
    EmptyFirst timeline.records := by
  refine List.pairwise_iff_getElem.mpr fun i j hi hj hlt hworker hsame => ?_
  have hlength := hforward _ (List.getElem_mem hi)
  by_contra hlong
  have hfound := (h.sample timeline.records[i].workerId timeline.records[i].start
    (timeline.records[i], i)).mpr ⟨List.getElem?_eq_getElem hi, rfl, le_rfl,
      lt_of_le_of_ne hlength (Ne.symm hlong)⟩
  have hpolls : (timeline.byWorker timeline.records[i].workerId).Pairwise
      fun a b => a.1.start ≤ b.1.start := (pairwise_zipIdx hstart).filter _
  have hindices : (timeline.byWorker timeline.records[i].workerId).Pairwise
      fun a b => a.2 < b.2 := pairwise_zipIdx_lt.filter _
  rw [PollTimeline.pollAt, probe_eq, Lib.takeWhile_eq_filter (hpolls.imp fun hab hb =>
    decide_eq_true (hab.trans (of_decide_eq_true hb)))] at hfound
  -- The probe came to the long poll, but the other one starts by then, and is behind it.
  obtain ⟨front, hfront⟩ := List.getLast?_eq_some_iff.mp (Option.filter_eq_some_iff.mp hfound).1
  have hmem : (timeline.records[j], j) ∈ front ++ [(timeline.records[i], i)] := by
    rw [← hfront, PollTimeline.byWorker, List.mem_filter, List.mem_filter,
      List.mem_zipIdx_iff_getElem?]
    exact ⟨⟨List.getElem?_eq_getElem hj, decide_eq_true hworker.symm⟩, decide_eq_true hsame.ge⟩
  have hbefore := hfront ▸ hindices.filter _
  rw [List.pairwise_append] at hbefore
  rcases List.mem_append.mp hmem with hmem | hmem
  · exact absurd (hbefore.2.2 _ hmem _ (List.mem_singleton.mpr rfl)) hlt.le.not_gt
  · exact absurd (congrArg Prod.snd (List.mem_singleton.mp hmem)) hlt.ne'

/-- A poll that ends as it starts, and another of the same worker that starts with it. -/
def emptyThenLong : List TraceEvent :=
  [.pollStart ⟨5, 0, 7, none, none⟩, .pollEnd 5 0, .pollStart ⟨5, 0, 8, none, none⟩, .pollEnd 8 0]

/-- Reversed, they are still in an order by start. -/
def longThenEmpty : PollTimeline := .reconstruct List.reverse emptyThenLong

/-- The sample, of a thread at a time, falls into the poll of that index. -/
def PollTimeline.lands (timeline : PollTimeline) (index : Nat) (sample : Nat × Nat × Nat) : Bool :=
  ((timeline.attributeSampleWorker sample.1 sample.2.1).bind fun worker =>
    timeline.pollAt worker sample.2.1).any fun entry => entry.2 = index

/-- Samples of threads at times, and their sources, one after the other. -/
def PollTimeline.attributeSamples (timeline : PollTimeline) (counts : List (Nat × Nat))
    (samples : List (Nat × Nat × Nat)) : List (Nat × Nat) :=
  samples.foldl (fun counts s => (timeline.attributeSample counts s.1 s.2.1 s.2.2).1) counts

/-- Whatever the order of the samples, each is counted once, by its source, on the poll where it
lands, and on no other. -/
theorem PollTimeline.attributeSamples_counts (timeline : PollTimeline) (counts : List (Nat × Nat))
    (samples : List (Nat × Nat × Nat)) (index : Nat) :
    (timeline.attributeSamples counts samples)[index]? =
      counts[index]?.map fun count =>
        (count.1 + samples.countP (fun s => timeline.lands index s && s.2.2 = 0),
          count.2 + samples.countP (fun s => timeline.lands index s && s.2.2 ≠ 0)) := by
  induction samples generalizing counts with
  | nil => simp [PollTimeline.attributeSamples]
  | cons sample samples ih =>
    have hone : (timeline.attributeSample counts sample.1 sample.2.1 sample.2.2).1[index]? =
        counts[index]?.map fun count =>
          if timeline.lands index sample then PollTimeline.bump sample.2.2 count else count := by
      unfold PollTimeline.attributeSample PollTimeline.lands
      cases timeline.attributeSampleWorker sample.1 sample.2.1 with
      | none => simp
      | some worker =>
        obtain ⟨found, hfound⟩ : ∃ found, timeline.pollAt worker sample.2.1 = found := ⟨_, rfl⟩
        simp only [Option.bind_some, hfound]
        cases found with
        | none => simp
        | some entry => simp [List.getElem?_modify]
    rw [PollTimeline.attributeSamples, List.foldl_cons]
    refine (ih _).trans ?_
    rw [hone, Option.map_map]
    congr 1
    funext count
    by_cases hlands : timeline.lands index sample <;> by_cases hsource : sample.2.2 = 0 <;>
      simp [PollTimeline.bump, hlands, hsource] <;> omega

/-- The sample falls into the poll: the events last bound its thread to the poll's worker, outside
the turnovers of the thread, and the poll holds the time. -/
def FallsInto (events : List TraceEvent) (poll : PollRecord) (sample : Nat × Nat × Nat) : Prop :=
  ¬ Handoff (bounds events) sample.1 sample.2.1 ∧
    boundAt (bounds events) sample.1 sample.2.1 = some poll.workerId ∧ poll.workerId < 254 ∧
      poll.start ≤ sample.2.1 ∧ sample.2.1 < poll.stop

open Classical in
/-- Whatever the order of the samples, the counts of each poll grow by the samples of each source
that fall into it. -/
theorem attributeSample_counts {sortRecords : List PollRecord → List PollRecord}
    {events : List TraceEvent} (hsorted : events.Pairwise fun a b => a.timestampNs ≤ b.timestampNs)
    (hsort : SortedByStart (events.foldl Reconstructor.consume .empty).records
      (sortRecords (events.foldl Reconstructor.consume .empty).records))
    (counts : List (Nat × Nat)) (samples : List (Nat × Nat × Nat)) {index : Nat}
    {poll : PollRecord}
    (hpoll : (PollTimeline.reconstruct sortRecords events).records[index]? = some poll) :
    ((PollTimeline.reconstruct sortRecords events).attributeSamples counts samples)[index]? =
      counts[index]?.map fun count =>
        (count.1 + samples.countP (fun s => decide (FallsInto events poll s) && s.2.2 = 0),
          count.2 + samples.countP (fun s => decide (FallsInto events poll s) && s.2.2 ≠ 0)) := by
  have hlands : ∀ sample, (PollTimeline.reconstruct sortRecords events).lands index sample =
      decide (FallsInto events poll sample) := by
    rintro ⟨tid, time, source⟩
    rw [Bool.eq_iff_iff, decide_eq_true_eq, PollTimeline.lands, Option.any_eq_true]
    dsimp only [FallsInto, PollTimeline.attributeSampleWorker]
    by_cases hoff : Handoff (bounds events) tid time
    · simp [PollTimeline.workerForTidAt_handoff hoff, hoff]
    rw [PollTimeline.workerForTidAt_reconstruct hsorted tid time hoff]
    constructor
    · rintro ⟨entry, hentry, hindex⟩
      obtain ⟨worker, hworker, hfound⟩ := Option.bind_eq_some_iff.mp hentry
      obtain ⟨hbound, hlow⟩ := Option.filter_eq_some_iff.mp hworker
      obtain ⟨hget, rfl, hstart, hstop⟩ :=
        (PollTimeline.pollAt_reconstruct hsorted hsort worker time entry).mp hfound
      rw [of_decide_eq_true hindex, hpoll] at hget
      obtain rfl := Option.some.inj hget
      exact ⟨hoff, hbound, of_decide_eq_true hlow, hstart, hstop⟩
    · rintro ⟨-, hbound, hlow, hstart, hstop⟩
      have hfound := (PollTimeline.pollAt_reconstruct hsorted hsort poll.workerId time
        (poll, index)).mpr ⟨hpoll, rfl, hstart, hstop⟩
      refine ⟨(poll, index), Option.bind_eq_some_iff.mpr ⟨poll.workerId, ?_, hfound⟩,
        decide_eq_true rfl⟩
      exact Option.filter_eq_some_iff.mpr ⟨hbound, decide_eq_true hlow⟩
  rw [PollTimeline.attributeSamples_counts]
  simp only [hlands]

/-- A worker on thread 9, and a poll of it. -/
def boundThread : List TraceEvent :=
  [.workerUnpark 1 0 9, .pollStart ⟨5, 0, 7, none, none⟩, .pollEnd 8 0]

/-- Two samples in the poll, one after it and one of another thread. -/
def fourSamples : List (Nat × Nat × Nat) := [(9, 5, 0), (9, 7, 1), (9, 8, 0), (3, 6, 0)]

open Classical in
theorem attributeSample_counts_boundThread :
    ∃ poll, (PollTimeline.reconstruct id boundThread).records[0]? = some poll ∧
      ((PollTimeline.reconstruct id boundThread).attributeSamples [(0, 0)] fourSamples)[0]? =
        [(0, 0)][0]?.map (fun count =>
          (count.1 + fourSamples.countP (fun s =>
            decide (FallsInto boundThread poll s) && s.2.2 = 0),
          count.2 + fourSamples.countP (fun s =>
            decide (FallsInto boundThread poll s) && s.2.2 ≠ 0))) ∧
      (PollTimeline.reconstruct id boundThread).attributeSamples [(0, 0)] fourSamples = [(1, 1)] :=
  ⟨_, rfl, attributeSample_counts (by decide) ⟨.refl _, by decide, by decide⟩ _ _ rfl, by decide⟩

end Dial9.Viewer.Polls
