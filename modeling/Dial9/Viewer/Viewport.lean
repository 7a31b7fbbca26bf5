/-
# What a viewport shows

The timeline asks its stores for what lies in an interval: the polls of a worker
by searches over their starts and ends, one representative poll for each bucket
of the interval from a segment forest, and the spans, which nest, from a bound on
how long a span is.
-/

import Dial9.Lib.SegmentForest
import Dial9.Viewer.SchedDelays
import Dial9.Viewer.WorkerSpansStore
import Mathlib.Tactic.Ring

namespace Dial9.Viewer.Columnar

open Lib Spans

/-! ## Queries of a worker's polls -/

/-- What stands for some polls: the longest of them, and how many they are. -/
structure SpanAgg where
  dur : Int
  count : Nat
  idx : Nat
  deriving DecidableEq

def spanBucketMerge (a b : SpanAgg) : SpanAgg :=
  let count := a.count + b.count
  if a.dur > b.dur then ⟨a.dur, count, a.idx⟩
  else if b.dur > a.dur then ⟨b.dur, count, b.idx⟩
  else ⟨a.dur, count, if a.idx < b.idx then a.idx else b.idx⟩

structure MipmapBucket where
  ts : Int
  dur : Int
  count : Nat
  idx : Nat
  deriving DecidableEq

namespace WorkerPollColumns

def n (cols : WorkerPollColumns) : Nat := cols.start.length

def startAt (cols : WorkerPollColumns) (i : Nat) : Int := cols.start.getD i 0

def endAt (cols : WorkerPollColumns) (i : Nat) : Int := cols.endTs.getD i 0

/-- The rightmost poll that starts by the time, if it reaches it. -/
def pollCovering (cols : WorkerPollColumns) (ts : Int) : Option Nat :=
  (lastPassing (fun mid => cols.startAt mid ≤ ts) 0 cols.n).filter fun hi => ts ≤ cols.endAt hi

def forest (cols : WorkerPollColumns) : SegmentForest SpanAgg :=
  .build ((List.range cols.n).map fun i => ⟨cols.endAt i - cols.startAt i, 1, i⟩) spanBucketMerge

/-- Back over the polls that reach the time. -/
def walkBack (cols : WorkerPollColumns) (t0 : Int) : Nat → Nat
  | 0 => 0
  | lo + 1 => if cols.endAt lo ≥ t0 then walkBack cols t0 lo else lo + 1

/-- The polls that intersect an interval, as a half-open range of indices. -/
def windowRange (cols : WorkerPollColumns) (t0 t1 : Int) : Nat × Nat :=
  let hi := firstFailing (fun m => cols.startAt m ≤ t1) 0 cols.n
  let a := firstFailing (fun m => cols.endAt m < t0) 0 hi
  (cols.walkBack t0 a, hi)

/-- `while (k < hi && c.start[k] < bucketEnd) k++`, with the fuel for it. -/
def advance (cols : WorkerPollColumns) (bucketEnd : Int) (hi : Nat) : (fuel k : Nat) → Nat
  | 0, k => k
  | fuel + 1, k =>
    if k < hi ∧ cols.startAt k < bucketEnd then advance cols bucketEnd hi fuel (k + 1) else k

/-- The buckets from a time on, with the fuel for them. -/
def buckets (cols : WorkerPollColumns) (t1 resolution : Int) (hi : Nat) :
    (fuel : Nat) → (bucketStart : Int) → (k : Nat) → List MipmapBucket
  | 0, _, _ => []
  | fuel + 1, bucketStart, k =>
    if bucketStart ≤ t1 ∧ k < hi then
      let next := cols.advance (bucketStart + resolution) hi (hi - k) k
      (if next > k then
        ((cols.forest.query k next).map fun agg =>
          ⟨cols.startAt agg.idx, agg.dur, agg.count, agg.idx⟩).toList
      else []) ++ buckets cols t1 resolution hi fuel (bucketStart + resolution) next
    else []

def mipmap (cols : WorkerPollColumns) (t0 t1 resolution : Int) : List MipmapBucket :=
  if cols.n = 0 then []
  else
    let range := cols.windowRange t0 t1
    if range.1 ≥ range.2 then []
    else
      let bucketStart := cols.startAt range.1 / resolution * resolution
      cols.buckets t1 resolution range.2 ((t1 - bucketStart) / resolution + 1).toNat bucketStart
        range.1

end WorkerPollColumns

namespace ColumnarWorkerSpans

def windowRange (s : ColumnarWorkerSpans) (w t0 t1 : Int) : Nat × Nat :=
  (s.byWorker w).elim (0, 0) fun cols => cols.windowRange t0 t1

def mipmap (s : ColumnarWorkerSpans) (w t0 t1 resolution : Int) : List MipmapBucket :=
  (s.byWorker w).elim [] fun cols => cols.mipmap t0 t1 resolution

end ColumnarWorkerSpans

/-! ## Spans that nest -/

/-- The rows of the spans, in order of start, and how long the longest is. -/
structure ColumnarSpans where
  start : List Int
  endTs : List Int
  maxSpanDur : Int

namespace ColumnarSpans

/-- `finish`, of the starts and ends in the order the spans were closed in. -/
def finish (closed : List (Int × Int)) : ColumnarSpans :=
  let rows := closed.insertionSort fun a b => a.1 ≤ b.1
  { start := rows.map Prod.fst
    endTs := rows.map Prod.snd
    maxSpanDur := rows.foldl (fun md row => if row.2 - row.1 > md then row.2 - row.1 else md) 0 }

/-- The rows whose spans may overlap a view, as a half-open range. -/
def windowRows (s : ColumnarSpans) (viewStart viewEnd : Int) : Nat × Nat :=
  let hi := firstFailing (fun m => s.start.getD m 0 ≤ viewEnd) 0 s.start.length
  (firstFailing (fun m => s.start.getD m 0 < viewStart - s.maxSpanDur) 0 hi, hi)

end ColumnarSpans

/-! ## Polls in order -/

/-- Each poll ends by the time that the next starts. -/
structure Flows (cols : WorkerPollColumns) : Prop where
  forward : ∀ i, i < cols.n → cols.startAt i ≤ cols.endAt i
  ordered : ∀ i j, i < j → j < cols.n → cols.endAt i ≤ cols.startAt j

theorem flows_of_polls {cols : WorkerPollColumns} {polls : List PollSpan}
    (hpolls : NonOverlapping polls) (hstart : cols.start = polls.map PollSpan.start)
    (hend : cols.endTs = polls.map PollSpan.endTs) : Flows cols := by
  have hn : cols.n = polls.length := by rw [WorkerPollColumns.n, hstart, List.length_map]
  have hstartAt : ∀ i (hi : i < polls.length), cols.startAt i = polls[i].start :=
    fun i hi => getD_column hstart (List.getElem?_eq_getElem hi) 0
  have hendAt : ∀ i (hi : i < polls.length), cols.endAt i = polls[i].endTs :=
    fun i hi => getD_column hend (List.getElem?_eq_getElem hi) 0
  constructor
  · intro i hi
    rw [hn] at hi
    rw [hstartAt i hi, hendAt i hi]
    exact hpolls.start_le_end hi
  · intro i j hij hj
    rw [hn] at hj
    rw [hstartAt j hj, hendAt i (hij.trans hj)]
    exact hpolls.end_le_start hj hij

/-- A worker's state at a time: its polls do not overlap, and all it has seen was by then. -/
structure Timely (s : IndexState) (t : Int) : Prop where
  polls : NonOverlapping (laneOf s.emitted).polls
  ended : ∀ poll ∈ (laneOf s.emitted).polls, poll.endTs ≤ t
  opened : ∀ poll ∈ s.openPoll, poll.start ≤ t ∧
    ∀ done ∈ (laneOf s.emitted).polls, done.endTs ≤ poll.start

namespace Timely

variable {s : IndexState} {t : Int}

theorem empty (t : Int) : Timely .empty t where
  polls := ⟨.nil, fun _ h => absurd h List.not_mem_nil⟩
  ended := fun _ h => absurd h List.not_mem_nil
  opened := fun _ h => absurd h.symm (Option.some_ne_none _)

section

variable (h : Timely s t)
include h

theorem mono {t' : Int} (ht : t ≤ t') : Timely s t' where
  polls := h.polls
  ended poll hpoll := (h.ended poll hpoll).trans ht
  opened poll hpoll := ⟨(h.opened poll hpoll).1.trans ht, (h.opened poll hpoll).2⟩

theorem of_same {s' : IndexState} (hopen : s'.openPoll = s.openPoll)
    (hpolls : (laneOf s'.emitted).polls = (laneOf s.emitted).polls) : Timely s' t where
  polls := hpolls ▸ h.polls
  ended := hpolls ▸ h.ended
  opened := by
    rw [hopen, hpolls]
    exact h.opened

theorem closePoll (openEnded : Bool) :
    Timely (s.closePoll t openEnded) t ∧ (s.closePoll t openEnded).openPoll = none := by
  rw [IndexState.closePoll]
  cases hopen : s.openPoll with
  | none => exact ⟨h, hopen⟩
  | some poll =>
    rcases h.opened poll hopen with ⟨hstart, hdone⟩
    refine ⟨?_, rfl⟩
    have hpolls : (laneOf (s.emitted ++ [.poll (poll.close t openEnded)])).polls =
        (laneOf s.emitted).polls ++ [poll.close t openEnded] := by
      rw [laneOf_poll]
    constructor
    · dsimp only [IndexState.emit]
      rw [hpolls]
      constructor
      · apply List.pairwise_append.mpr
        refine ⟨h.polls.ordered, List.pairwise_singleton _ _, fun a ha b hb => ?_⟩
        rw [List.mem_singleton.mp hb]
        exact hdone a ha
      · intro p hp
        rcases List.mem_append.mp hp with hp | hp
        · exact h.polls.forward p hp
        · rw [List.mem_singleton.mp hp]
          exact hstart
    · dsimp only [IndexState.emit]
      rw [hpolls]
      intro p hp
      rcases List.mem_append.mp hp with hp | hp
      · exact h.ended p hp
      · rw [List.mem_singleton.mp hp]
        exact le_refl t
    · exact fun _ hnone => absurd hnone.symm (Option.some_ne_none _)

theorem closePark (endTs : Int) (schedWait : Option Int) :
    Timely (s.closePark endTs schedWait) t := by
  rw [IndexState.closePark]
  cases s.openPark with
  | none => exact h
  | some start =>
    refine h.of_same rfl ?_
    dsimp only [IndexState.emit]
    rw [laneOf_park]

theorem closeActive (gaps : List BlockInPlaceGap) (activeEnd cpuTime : Int) :
    Timely (s.closeActive gaps activeEnd cpuTime) t := by
  rw [IndexState.closeActive]
  cases s.openUnpark with
  | none => exact h
  | some unpark =>
    refine h.of_same rfl ?_
    dsimp only [IndexState.emit]
    cases activeSpan gaps unpark activeEnd cpuTime with
    | none => rw [Option.toList_none, List.map_nil, List.append_nil]
    | some active => rw [Option.toList_some, List.map_singleton, laneOf_active]

theorem step (store : ColumnarEvents) (gaps : List BlockInPlaceGap) {i : Nat}
    (ht : t ≤ store.tsAt i) : Timely (s.step store gaps i) (store.tsAt i) := by
  rw [IndexState.step]
  have hsample : Timely (if isSampledAt store i then s.sample (store.tsAt i) (store.localQueueAt i)
      else s) (store.tsAt i) := by
    split
    · exact (h.mono ht).of_same rfl rfl
    · exact h.mono ht
  generalize (if isSampledAt store i then s.sample (store.tsAt i) (store.localQueueAt i)
    else s) = sampled at hsample
  dsimp only
  split
  · have hclosed := (hsample.closePoll true).1
    refine ⟨hclosed.polls, hclosed.ended, fun poll hpoll => ?_⟩
    obtain rfl := Option.some.inj hpoll
    exact ⟨le_rfl, hclosed.ended⟩
  · split
    · exact (hsample.closePoll false).1
    · split
      · have hpark : Timely ((sampled.closePoll (store.tsAt i) true).startPark (store.tsAt i))
            (store.tsAt i) := (hsample.closePoll true).1.of_same rfl rfl
        exact hpark.closeActive _ _ _
      · split
        · exact (hsample.closePark _ _).of_same rfl rfl
        · exact hsample

theorem foldl (store : ColumnarEvents) (gaps : List BlockInPlaceGap)
    {events : List Nat} (hfirst : ∀ i ∈ events, t ≤ store.tsAt i)
    (hsorted : events.Pairwise fun a b => store.tsAt a ≤ store.tsAt b) :
    NonOverlapping (laneOf (events.foldl (IndexState.step store gaps) s).emitted).polls := by
  induction events generalizing s t with
  | nil => exact h.polls
  | cons i rest ih =>
    rcases List.pairwise_cons.mp hsorted with ⟨hlater, hrest⟩
    exact ih (h.step store gaps (hfirst i List.mem_cons_self)) hlater hrest

end

end Timely

theorem bucketRun_nonOverlapping (store : ColumnarEvents) (gaps : List BlockInPlaceGap) (w : Int) :
    NonOverlapping (laneOf (bucketRun store gaps w).emitted).polls := by
  have hsorted : (bucket store w).Pairwise fun a b => store.tsAt a ≤ store.tsAt b :=
    List.pairwise_insertionSort _ _
  rw [bucketRun]
  cases hbucket : bucket store w with
  | nil => exact (Timely.empty 0).polls
  | cons i rest =>
    rw [hbucket] at hsorted
    refine (Timely.empty (store.tsAt i)).foldl store _ (fun j hj => ?_) hsorted
    rcases List.mem_cons.mp hj with rfl | hj
    · exact le_rfl
    · exact (List.pairwise_cons.mp hsorted).1 j hj

/-- The store's columns are those of the polls that were emitted, listed or not. -/
theorem foldl_store (workerIds : List Int) (emissions : List (Int × Emission)) (w : Int) :
    (((emissions.foldl .push (.ensure workerIds) : ColumnarWorkerSpans).byWorker w).getD
      .empty).start =
        (laneOf (rowsOf w emissions)).polls.map PollSpan.start ∧
      (((emissions.foldl .push (.ensure workerIds) : ColumnarWorkerSpans).byWorker w).getD
        .empty).endTs =
        (laneOf (rowsOf w emissions)).polls.map PollSpan.endTs := by
  induction emissions using List.reverseRecOn with
  | nil =>
    dsimp only [List.foldl_nil, ColumnarWorkerSpans.ensure]
    split
    · exact ⟨rfl, rfl⟩
    · exact ⟨rfl, rfl⟩
  | append_singleton emissions emission ih =>
    rcases emission with ⟨k, emission⟩
    rw [List.foldl_concat, rowsOf_append, rowsOf_singleton]
    generalize (emissions.foldl .push (.ensure workerIds) : ColumnarWorkerSpans) = b at ih ⊢
    by_cases heq : k = w
    · subst heq
      rw [if_pos rfl]
      cases emission with
      | poll poll =>
        rw [laneOf_poll]
        simp only [ColumnarWorkerSpans.push, ColumnarWorkerSpans.pushPoll,
          Function.update_self, Option.getD_some, List.map_append, ih, List.map_singleton,
          and_self]
      | park park =>
        rw [laneOf_park]
        simpa only [ColumnarWorkerSpans.push, ColumnarWorkerSpans.pushPark,
          Function.update_self, Option.getD_some] using ih
      | active active =>
        rw [laneOf_active]
        simpa only [ColumnarWorkerSpans.push, ColumnarWorkerSpans.pushActive,
          Function.update_self, Option.getD_some] using ih
    · rw [if_neg heq, List.append_nil]
      have hne : w ≠ k := fun h => heq h.symm
      cases emission with
      | poll poll =>
        simpa only [ColumnarWorkerSpans.push, ColumnarWorkerSpans.pushPoll,
          Function.update_of_ne hne] using ih
      | park park =>
        simpa only [ColumnarWorkerSpans.push, ColumnarWorkerSpans.pushPark,
          Function.update_of_ne hne] using ih
      | active active =>
        simpa only [ColumnarWorkerSpans.push, ColumnarWorkerSpans.pushActive,
          Function.update_of_ne hne] using ih

theorem flows_store {store : ColumnarEvents} {workerIds : List Int} {maxTs : Int}
    {gaps : List BlockInPlaceGap} {w : Int} {cols : WorkerPollColumns}
    (hcols : (buildWorkerSpansColumnarStore store workerIds maxTs gaps).byWorker w = some cols) :
    Flows cols := by
  have hfold := foldl_store workerIds (reconstruct store workerIds maxTs gaps) w
  rw [buildWorkerSpansColumnarStore] at hcols
  rw [hcols, Option.getD_some, rowsOf_reconstruct, laneOf_parks] at hfold
  exact flows_of_polls (bucketRun_nonOverlapping store gaps w) hfold.1 hfold.2

namespace Flows

variable {cols : WorkerPollColumns} {t0 t1 : Int} {i j : Nat}

theorem start_mono (h : Flows cols) (hij : i ≤ j) (hj : j < cols.n) :
    cols.startAt i ≤ cols.startAt j := by
  rcases hij.eq_or_lt with rfl | hlt
  · exact le_rfl
  · exact (h.forward i (hlt.trans hj)).trans (h.ordered i j hlt hj)

theorem end_mono (h : Flows cols) (hij : i ≤ j) (hj : j < cols.n) :
    cols.endAt i ≤ cols.endAt j := by
  rcases hij.eq_or_lt with rfl | hlt
  · exact le_rfl
  · exact (h.ordered i j hlt hj).trans (h.forward j hj)

theorem downward_start (h : Flows cols) (t : Int) :
    Downward (fun m => decide (cols.startAt m ≤ t)) 0 cols.n := by
  intro i j _ hij hj hpass
  exact decide_eq_true ((h.start_mono hij hj).trans (of_decide_eq_true hpass))

theorem downward_end (h : Flows cols) (t : Int) :
    Downward (fun m => decide (cols.endAt m < t)) 0 cols.n := by
  intro i j _ hij hj hpass
  exact decide_eq_true ((h.end_mono hij hj).trans_lt (of_decide_eq_true hpass))

end Flows

/-! ## Windows -/

/-- The range holds the polls that intersect the interval, and no others. -/
structure IsWindow (cols : WorkerPollColumns) (t0 t1 : Int) (range : Nat × Nat) : Prop where
  lower : range.1 ≤ range.2
  upper : range.2 ≤ cols.n
  inside : ∀ i, i < cols.n →
    (range.1 ≤ i ∧ i < range.2 ↔ cols.endAt i ≥ t0 ∧ cols.startAt i ≤ t1)

variable {cols : WorkerPollColumns} {t0 t1 : Int}

variable {k hi a b fuel r : Nat}

/-- The ends are in order, and nothing before the search's end reaches the interval. -/
theorem walkBack_eq (h : ∀ i, i < k → cols.endAt i < t0) : cols.walkBack t0 k = k := by
  cases k with
  | zero => rfl
  | succ k => exact if_neg (h k (Nat.lt_succ_self k)).not_ge

theorem Flows.windowRange (h : Flows cols) (t0 t1 : Int) :
    IsWindow cols t0 t1 (cols.windowRange t0 t1) := by
  have hhi := firstFailing_splits (h.downward_start t1) (Nat.zero_le _)
  rw [WorkerPollColumns.windowRange]
  generalize firstFailing (fun m => decide (cols.startAt m ≤ t1)) 0 cols.n = hi at hhi
  have hlo := firstFailing_splits ((h.downward_end t0).mono le_rfl hhi.upper) (Nat.zero_le _)
  generalize firstFailing (fun m => decide (cols.endAt m < t0)) 0 hi = lo at hlo
  rw [walkBack_eq fun i hi => of_decide_eq_true (hlo.passes i (Nat.zero_le i) hi)]
  refine ⟨hlo.upper, hhi.upper, fun i hi => ?_⟩
  have hstart := hhi.lt_iff (Nat.zero_le i) hi
  rw [decide_eq_true_eq] at hstart
  constructor
  · rintro ⟨hge, hlt⟩
    exact ⟨le_of_not_gt (of_decide_eq_false (hlo.fails i hge hlt)), hstart.mp hlt⟩
  · rintro ⟨hend, hbegin⟩
    have hlt := hstart.mpr hbegin
    refine ⟨?_, hlt⟩
    by_contra hbefore
    have hpass := hlo.passes i (Nat.zero_le i) (Nat.lt_of_not_le hbefore)
    exact hend.not_gt (of_decide_eq_true hpass)

theorem Flows.pollCovering (h : Flows cols) {ts : Int} {i : Nat} (hi : i < cols.n)
    (hcovers : cols.startAt i ≤ ts ∧ ts ≤ cols.endAt i) :
    ∃ found, cols.pollCovering ts = some found ∧ found < cols.n ∧ cols.startAt found ≤ ts ∧
      ts ≤ cols.endAt found := by
  rw [WorkerPollColumns.pollCovering]
  rcases lastPassing_isLast (h.downward_start ts) with ⟨-, hfails⟩ | ⟨found, hfound, hlast⟩
  · exact absurd hcovers.1 (of_decide_eq_false (hfails i (Nat.zero_le i) hi))
  · have hreach : ts ≤ cols.endAt found :=
      hcovers.2.trans (h.end_mono (hlast.le hi (decide_eq_true hcovers.1)) hlast.upper)
    refine ⟨found, ?_, hlast.upper, of_decide_eq_true hlast.passes, hreach⟩
    rw [hfound, Option.filter_some, if_pos (decide_eq_true hreach)]

/-! ## Buckets -/

instance : Std.Commutative spanBucketMerge where
  comm a b := by
    rw [spanBucketMerge, spanBucketMerge]
    grind

instance : Std.Associative spanBucketMerge where
  assoc a b c := by
    simp only [spanBucketMerge]
    grind

/-- The longest of the polls `[a, b)`, the first of them on ties, and how many they are. -/
structure Longest (cols : WorkerPollColumns) (a b : Nat) (agg : SpanAgg) : Prop where
  count : agg.count = b - a
  lower : a ≤ agg.idx
  upper : agg.idx < b
  dur : agg.dur = cols.endAt agg.idx - cols.startAt agg.idx
  longest : ∀ j, a ≤ j → j < b → cols.endAt j - cols.startAt j ≤ agg.dur ∧
    (cols.endAt j - cols.startAt j = agg.dur → agg.idx ≤ j)

theorem Longest.single (cols : WorkerPollColumns) (a : Nat) :
    Longest cols a (a + 1) ⟨cols.endAt a - cols.startAt a, 1, a⟩ where
  count := (Nat.add_sub_cancel_left a 1).symm
  lower := le_rfl
  upper := Nat.lt_succ_self a
  dur := rfl
  longest j hj hja := by
    obtain rfl : j = a := by omega
    exact ⟨le_rfl, fun _ => le_rfl⟩

theorem Longest.merge {agg : SpanAgg} (h : Longest cols (a + 1) b agg) :
    Longest cols a b (spanBucketMerge ⟨cols.endAt a - cols.startAt a, 1, a⟩ agg) := by
  have hlower := h.lower
  have hupper := h.upper
  have hcount := h.count
  have hdur := h.dur
  have hothers : ∀ j, a ≤ j → j < b → j = a ∨ (cols.endAt j - cols.startAt j ≤ agg.dur ∧
      (cols.endAt j - cols.startAt j = agg.dur → agg.idx ≤ j)) := by
    intro j hj hjb
    rcases hj.eq_or_lt with heq | hlt
    · exact .inl heq.symm
    · exact .inr (h.longest j hlt hjb)
  simp only [spanBucketMerge]
  split_ifs with hfirst hrest hidx
  · refine ⟨by dsimp only; omega, le_rfl, by dsimp only; omega, rfl, fun j hj hjb => ?_⟩
    rcases hothers j hj hjb with rfl | ⟨hle, -⟩
    · exact ⟨le_rfl, fun _ => le_rfl⟩
    · exact ⟨by dsimp only; omega, fun _ => hj⟩
  · refine ⟨by dsimp only; omega, by dsimp only; omega, hupper, hdur, fun j hj hjb => ?_⟩
    rcases hothers j hj hjb with rfl | hother
    · exact ⟨by dsimp only; omega, fun heq => by dsimp only at heq ⊢; omega⟩
    · exact hother
  · refine ⟨by dsimp only; omega, le_rfl, by dsimp only; omega, rfl, fun j hj hjb => ?_⟩
    rcases hothers j hj hjb with rfl | ⟨hle, -⟩
    · exact ⟨le_rfl, fun _ => le_rfl⟩
    · exact ⟨by dsimp only; omega, fun _ => hj⟩
  · exact absurd (Nat.lt_of_succ_le hlower) hidx

theorem foldr_longest {a b : Nat} (h : a < b) :
    ∃ agg, ((List.range' a (b - a)).map fun i =>
        some (⟨cols.endAt i - cols.startAt i, 1, i⟩ : SpanAgg)).foldr
          (Option.merge spanBucketMerge) none = some agg ∧ Longest cols a b agg := by
  induction hrest : b - a generalizing a with
  | zero => omega
  | succ rest ih =>
    rw [List.range'_succ, List.map_cons, List.foldr_cons]
    rcases Nat.eq_zero_or_pos rest with rfl | hpos
    · obtain rfl : b = a + 1 := by omega
      exact ⟨_, rfl, Longest.single cols a⟩
    · rcases ih (a := a + 1) (by omega) (by omega) with ⟨agg, hagg, hlongest⟩
      rw [hagg]
      exact ⟨_, rfl, hlongest.merge⟩

theorem forest_query (h : a < b) (hb : b ≤ cols.n) :
    ∃ agg, cols.forest.query a b = some agg ∧ Longest cols a b agg := by
  rcases @foldr_longest cols a b h with ⟨agg, hagg, hlongest⟩
  refine ⟨agg, ?_, hlongest⟩
  rw [← hagg, WorkerPollColumns.forest, SegmentForest.query_eq_foldr, Int.toNat_natCast,
    Int.toNat_natCast, ← List.map_take, ← List.map_drop, List.map_map, List.range_eq_range',
    List.take_range'_of_length_ge hb, List.drop_range', Nat.zero_add, Nat.mul_one]
  rfl

theorem advance_spec (cols : WorkerPollColumns) (bucketEnd : Int) (hk : k ≤ hi)
    (hfuel : hi - k ≤ fuel) :
    k ≤ cols.advance bucketEnd hi fuel k ∧ cols.advance bucketEnd hi fuel k ≤ hi ∧
      (∀ j, k ≤ j → j < cols.advance bucketEnd hi fuel k → cols.startAt j < bucketEnd) ∧
      (cols.advance bucketEnd hi fuel k < hi →
        bucketEnd ≤ cols.startAt (cols.advance bucketEnd hi fuel k)) := by
  induction fuel generalizing k with
  | zero =>
    obtain rfl : k = hi := by omega
    exact ⟨le_rfl, le_rfl, fun j hj hlt => absurd hlt hj.not_gt,
      fun hlt => absurd hlt (lt_irrefl _)⟩
  | succ fuel ih =>
    rw [WorkerPollColumns.advance]
    by_cases hin : k < hi ∧ cols.startAt k < bucketEnd
    · rw [if_pos hin]
      rcases ih (k := k + 1) hin.1 (by omega) with ⟨hlower, hupper, hbefore, hafter⟩
      refine ⟨by omega, hupper, fun j hj hlt => ?_, hafter⟩
      rcases hj.eq_or_lt with rfl | hgt
      · exact hin.2
      · exact hbefore j hgt hlt
    · rw [if_neg hin]
      refine ⟨le_rfl, hk, fun j hj hlt => absurd hlt hj.not_gt, fun hlt => ?_⟩
      exact le_of_not_gt fun hbefore => hin ⟨hlt, hbefore⟩

/-- The buckets take the polls `[k, hi)` in turn, each of them those that start in one stretch
of the resolution's length. -/
def Tiled (cols : WorkerPollColumns) (resolution : Int) (hi : Nat) :
    Nat → List MipmapBucket → Prop
  | k, [] => k = hi
  | k, m :: rest => ∃ next cell, next ≤ hi ∧
      (∀ j, k ≤ j → j < next → cols.startAt j / resolution = cell) ∧
      (∀ j, next ≤ j → j < hi → cell < cols.startAt j / resolution) ∧
      m.ts = cols.startAt m.idx ∧ Longest cols k next ⟨m.dur, m.count, m.idx⟩ ∧
      Tiled cols resolution hi next rest

variable {resolution : Int}

theorem Tiled.count {ms : List MipmapBucket} (h : Tiled cols resolution hi k ms) :
    k + (ms.map MipmapBucket.count).sum = hi := by
  induction ms generalizing k with
  | nil => exact h
  | cons m rest ih =>
    rcases h with ⟨next, cell, _, _, _, _, hlongest, hrest⟩
    have hcount := hlongest.count
    have hlower := hlongest.lower
    have hupper := hlongest.upper
    have hsum := ih hrest
    rw [List.map_cons, List.sum_cons]
    dsimp only at hcount hlower hupper
    omega

theorem Flows.buckets_tiled (h : Flows cols) (hpos : 0 < resolution)
    {cell : Int} (hk : k ≤ hi) (hn : hi ≤ cols.n)
    (hfrom : ∀ j, k ≤ j → j < hi → cell * resolution ≤ cols.startAt j)
    (hto : ∀ j, k ≤ j → j < hi → cols.startAt j ≤ t1)
    (hfuel : (t1 - cell * resolution) / resolution + 1 ≤ fuel) :
    Tiled cols resolution hi k (cols.buckets t1 resolution hi fuel (cell * resolution) k) := by
  induction fuel generalizing k cell with
  | zero =>
    rcases hk.eq_or_lt with heq | hlt
    · exact heq
    · have hspan : 0 ≤ t1 - cell * resolution := by
        have := hfrom k le_rfl hlt
        have := hto k le_rfl hlt
        omega
      have := Int.ediv_nonneg hspan hpos.le
      omega
  | succ fuel ih =>
    rw [WorkerPollColumns.buckets]
    by_cases hin : cell * resolution ≤ t1 ∧ k < hi
    · rw [if_pos hin]
      dsimp only
      have hnext : cell * resolution + resolution = (cell + 1) * resolution := by ring
      rw [hnext]
      rcases advance_spec cols ((cell + 1) * resolution) hk le_rfl with
        ⟨hlower, hupper, hbefore, hafter⟩
      generalize cols.advance ((cell + 1) * resolution) hi (hi - k) k =
        next at hlower hupper hbefore hafter
      have hbeyond : ∀ j, next ≤ j → j < hi → (cell + 1) * resolution ≤ cols.startAt j := by
        intro j hj hlt
        exact (hafter (hj.trans_lt hlt)).trans (h.start_mono hj (hlt.trans_le hn))
      have hless : (t1 - (cell + 1) * resolution) / resolution + 1 ≤ fuel := by
        have hshift : t1 - (cell + 1) * resolution = t1 - cell * resolution + -1 * resolution := by
          ring
        rw [hshift, Int.add_mul_ediv_right _ _ hpos.ne']
        push_cast at hfuel
        omega
      have hrest := ih hupper hbeyond (fun j hj => hto j (hlower.trans hj)) hless
      by_cases hempty : k < next
      · rw [if_pos hempty]
        rcases forest_query hempty (hupper.trans hn) with ⟨agg, hagg, hlongest⟩
        rw [hagg]
        refine ⟨next, cell, hupper, fun j hj hlt => ?_, fun j hj hlt => ?_, rfl, hlongest, hrest⟩
        · have hge := hfrom j hj (hlt.trans_le hupper)
          have hlt' := hbefore j hj hlt
          apply le_antisymm
          · exact Int.lt_add_one_iff.mp (Int.ediv_lt_of_lt_mul hpos hlt')
          · exact (Int.le_ediv_iff_mul_le hpos).mpr hge
        · exact Int.lt_of_add_one_le ((Int.le_ediv_iff_mul_le hpos).mpr (hbeyond j hj hlt))
      · obtain rfl : next = k := by omega
        rw [if_neg hempty]
        exact hrest
    · rw [if_neg hin]
      rcases hk.eq_or_lt with heq | hlt
      · exact heq
      · exact absurd ⟨(hfrom k le_rfl hlt).trans (hto k le_rfl hlt), hlt⟩ hin

theorem Flows.mipmap_tiled (h : Flows cols) (t0 t1 : Int) (hpos : 0 < resolution) :
    Tiled cols resolution (cols.windowRange t0 t1).2 (cols.windowRange t0 t1).1
      (cols.mipmap t0 t1 resolution) := by
  have hwindow := h.windowRange t0 t1
  have hlower := hwindow.lower
  have hupper := hwindow.upper
  rw [WorkerPollColumns.mipmap]
  by_cases hn : cols.n = 0
  · rw [if_pos hn]
    show (cols.windowRange t0 t1).1 = (cols.windowRange t0 t1).2
    omega
  · rw [if_neg hn]
    dsimp only
    by_cases hempty : (cols.windowRange t0 t1).1 ≥ (cols.windowRange t0 t1).2
    · rw [if_pos hempty]
      exact le_antisymm hlower hempty
    · rw [if_neg hempty]
      have hin : ∀ j, (cols.windowRange t0 t1).1 ≤ j → j < (cols.windowRange t0 t1).2 →
          cols.startAt j ≤ t1 :=
        fun j hj hlt => ((hwindow.inside j (hlt.trans_le hupper)).mp ⟨hj, hlt⟩).2
      refine h.buckets_tiled hpos hlower hupper (fun j hj hlt => ?_) hin ?_
      · exact (Int.ediv_mul_le _ hpos.ne').trans (h.start_mono hj (hlt.trans_le hupper))
      · exact Int.self_le_toNat _

/-! ## Windows of spans -/

namespace ColumnarSpans

theorem finish_start_sorted (closed : List (Int × Int)) :
    (finish closed).start.Pairwise fun a b => a ≤ b := by
  have hsorted : (closed.insertionSort fun a b => a.1 ≤ b.1).Pairwise fun a b => a.1 ≤ b.1 :=
    List.pairwise_insertionSort _ _
  exact List.pairwise_map.mpr hsorted

theorem foldl_max (rows : List (Int × Int)) (md : Int) :
    md ≤ rows.foldl (fun md row => if row.2 - row.1 > md then row.2 - row.1 else md) md ∧
      ∀ row ∈ rows, row.2 - row.1 ≤
        rows.foldl (fun md row => if row.2 - row.1 > md then row.2 - row.1 else md) md := by
  induction rows generalizing md with
  | nil => exact ⟨le_rfl, fun _ h => absurd h List.not_mem_nil⟩
  | cons row rows ih =>
    rw [List.foldl_cons]
    rcases ih (if row.2 - row.1 > md then row.2 - row.1 else md) with ⟨hmd, hrows⟩
    have hhere : md ≤ (if row.2 - row.1 > md then row.2 - row.1 else md) ∧
        row.2 - row.1 ≤ (if row.2 - row.1 > md then row.2 - row.1 else md) := by
      split_ifs <;> omega
    refine ⟨hhere.1.trans hmd, fun other hother => ?_⟩
    rcases List.mem_cons.mp hother with rfl | hother
    · exact hhere.2.trans hmd
    · exact hrows other hother

section

variable (closed : List (Int × Int)) (hr : r < (finish closed).start.length)
include closed hr

theorem finish_long :
    (finish closed).endTs.getD r 0 - (finish closed).start.getD r 0 ≤
      (finish closed).maxSpanDur := by
  have hrow : r < (closed.insertionSort fun a b => a.1 ≤ b.1).length := by
    rwa [finish, List.length_map] at hr
  have hbound :=
    (foldl_max (closed.insertionSort fun a b => a.1 ≤ b.1) 0).2 _ (List.getElem_mem hrow)
  rw [finish]
  dsimp only
  rw [getD_column rfl (List.getElem?_eq_getElem hrow),
    getD_column rfl (List.getElem?_eq_getElem hrow)]
  exact hbound

/-- Every span that overlaps the view is in the rows, however the spans nest. -/
theorem mem_windowRows {viewStart viewEnd : Int}
    (hoverlaps : (finish closed).start.getD r 0 ≤ viewEnd ∧
      viewStart ≤ (finish closed).endTs.getD r 0) :
    ((finish closed).windowRows viewStart viewEnd).1 ≤ r ∧
      r < ((finish closed).windowRows viewStart viewEnd).2 := by
  have hmono : ∀ i j, i ≤ j → j < (finish closed).start.length →
      (finish closed).start.getD i 0 ≤ (finish closed).start.getD j 0 := by
    intro i j hij hj
    have hi := hij.trans_lt hj
    rw [getD_column (List.map_id _).symm (List.getElem?_eq_getElem hi),
      getD_column (List.map_id _).symm (List.getElem?_eq_getElem hj)]
    rcases hij.eq_or_lt with rfl | hlt
    · exact le_rfl
    · exact List.pairwise_iff_getElem.mp (finish_start_sorted closed) i j hi hj hlt
  have hlong := finish_long closed hr
  have hhi := firstFailing_splits (p := fun m => decide ((finish closed).start.getD m 0 ≤ viewEnd))
    (a := 0) (b := (finish closed).start.length)
    (fun i j _ hij hj hpass =>
      decide_eq_true ((hmono i j hij hj).trans (of_decide_eq_true hpass))) (Nat.zero_le _)
  rw [windowRows]
  generalize firstFailing (fun m => decide ((finish closed).start.getD m 0 ≤ viewEnd)) 0
    (finish closed).start.length = hi at hhi
  have hlt := (hhi.lt_iff (Nat.zero_le r) hr).mpr (decide_eq_true hoverlaps.1)
  have hlo := firstFailing_splits
    (p := fun m => decide ((finish closed).start.getD m 0 < viewStart - (finish closed).maxSpanDur))
    (a := 0) (b := hi)
    (fun i j _ hij hj hpass =>
      decide_eq_true ((hmono i j hij (hj.trans_le hhi.upper)).trans_lt (of_decide_eq_true hpass)))
    (Nat.zero_le _)
  refine ⟨?_, hlt⟩
  by_contra hbefore
  have hpass := hlo.passes r (Nat.zero_le r) (Nat.lt_of_not_le hbefore)
  have hearly := of_decide_eq_true hpass
  omega

end

end ColumnarSpans

/-! ## Viewports -/

/-- What a viewport is shown is what a scan of the lane finds. -/
structure Shows (spans : ColumnarWorkerSpans) (w : Int) (cols : WorkerPollColumns) : Prop where
  window : ∀ t0 t1, IsWindow cols t0 t1 (spans.windowRange w t0 t1)
  covering : ∀ ts i, i < cols.n → cols.startAt i ≤ ts → ts ≤ cols.endAt i →
    ∃ found, cols.pollCovering ts = some found ∧ found < cols.n ∧ cols.startAt found ≤ ts ∧
      ts ≤ cols.endAt found
  tiled : ∀ t0 t1 resolution, 0 < resolution →
    Tiled cols resolution (spans.windowRange w t0 t1).2 (spans.windowRange w t0 t1).1
      (spans.mipmap w t0 t1 resolution)
  counted : ∀ t0 t1 resolution, 0 < resolution →
    (spans.windowRange w t0 t1).1 +
      ((spans.mipmap w t0 t1 resolution).map MipmapBucket.count).sum = (spans.windowRange w t0 t1).2

theorem Flows.shows (h : Flows cols) {spans : ColumnarWorkerSpans} {w : Int}
    (hcols : spans.byWorker w = some cols) : Shows spans w cols := by
  have hrange : ∀ t0 t1, spans.windowRange w t0 t1 = cols.windowRange t0 t1 := by
    intro t0 t1
    rw [ColumnarWorkerSpans.windowRange, hcols, Option.elim_some]
  have hmipmap : ∀ t0 t1 resolution,
      spans.mipmap w t0 t1 resolution = cols.mipmap t0 t1 resolution := by
    intro t0 t1 resolution
    rw [ColumnarWorkerSpans.mipmap, hcols, Option.elim_some]
  constructor
  · intro t0 t1
    rw [hrange]
    exact h.windowRange t0 t1
  · exact fun ts i hi hstart hend => h.pollCovering hi ⟨hstart, hend⟩
  · intro t0 t1 resolution hpos
    rw [hrange, hmipmap]
    exact h.mipmap_tiled t0 t1 hpos
  · intro t0 t1 resolution hpos
    rw [hrange, hmipmap]
    exact (h.mipmap_tiled t0 t1 hpos).count

/-- The searches over every lane that the builder reconstructs, the forest of every merge, and
the windows of spans that nest find what scans find. -/
theorem viewport_queries_eq_scans :
    (∀ (store : ColumnarEvents) (workerIds : List Int) (maxTs : Int) (gaps : List BlockInPlaceGap)
        (w : Int) (cols : WorkerPollColumns),
      (buildWorkerSpansColumnarStore store workerIds maxTs gaps).byWorker w = some cols →
        Shows (buildWorkerSpansColumnarStore store workerIds maxTs gaps) w cols) ∧
    (∀ (α : Type) (merge : α → α → α) (leaves : List α) (lo hi : Int),
      Std.Associative merge → Std.Commutative merge →
        (SegmentForest.build leaves merge).query lo hi =
          (((leaves.take hi.toNat).drop lo.toNat).map some).foldr (Option.merge merge) none) ∧
    ∀ (closed : List (Int × Int)) (viewStart viewEnd : Int) (r : Nat),
      r < (ColumnarSpans.finish closed).start.length →
      (ColumnarSpans.finish closed).start.getD r 0 ≤ viewEnd →
      viewStart ≤ (ColumnarSpans.finish closed).endTs.getD r 0 →
        ((ColumnarSpans.finish closed).windowRows viewStart viewEnd).1 ≤ r ∧
          r < ((ColumnarSpans.finish closed).windowRows viewStart viewEnd).2 := by
  refine ⟨?_, ?_, ?_⟩
  · exact fun store workerIds maxTs gaps w cols hcols => (flows_store hcols).shows hcols
  · exact fun α merge leaves lo hi _ _ => SegmentForest.query_eq_foldr leaves lo hi
  · exact fun closed viewStart viewEnd r hr hstart hend =>
      ColumnarSpans.mem_windowRows closed hr ⟨hstart, hend⟩

namespace TwoPolls

def event (eventType : EventType) (timestamp : Nat) : TraceEvent :=
  ⟨eventType, timestamp, 0, 0, 0, 0, none, none, 1, none, none, none, none, none⟩

/-- Polls from 10 to 20 and from 30 to 35. -/
def store : ColumnarEvents :=
  storeOf [event .pollStart 10, event .pollEnd 20, event .pollStart 30, event .pollEnd 35]

end TwoPolls

theorem viewport_queries_eq_scans_twoPolls :
    (∃ cols, (buildWorkerSpansColumnarStore TwoPolls.store [0] 40 []).byWorker 0 = some cols ∧
      Shows (buildWorkerSpansColumnarStore TwoPolls.store [0] 40 []) 0 cols) ∧
    (SegmentForest.build [3, 1, 2] max).query 0 3 =
      ([some 3, some 1, some 2]).foldr (Option.merge max) none ∧
    ((ColumnarSpans.finish [(0, 9), (2, 3)]).windowRows 5 6).1 ≤ 0 ∧
      0 < ((ColumnarSpans.finish [(0, 9), (2, 3)]).windowRows 5 6).2 :=
  ⟨⟨_, rfl, viewport_queries_eq_scans.1 _ _ _ _ _ _ rfl⟩,
    viewport_queries_eq_scans.2.1 Nat max [3, 1, 2] 0 3 inferInstance inferInstance,
    viewport_queries_eq_scans.2.2 _ 5 6 0 (by decide) (by decide) (by decide)⟩

end Dial9.Viewer.Columnar
