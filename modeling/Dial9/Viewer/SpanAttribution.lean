/-
# Samples within spans

The intervals in which spans ran on a worker are entered by their starts as the
worker's samples are visited in time, and left by their ends. What is active at a
sample is what holds its time, so the sweep lists for each sample the spans that
have such an interval, and counts it for each of them once.
-/

import Dial9.Viewer.PollLookups
import Mathlib.Data.List.Nodup

namespace Dial9.Viewer.Attribution

open Polls (AttributionInterval)

/-- The fields of a sample that the attribution reads and writes; the time is wall time. -/
structure ResolvedSample where
  timestampNs : Nat
  workerId : Option Nat
  source : Nat
  enclosingSpans : List Nat
  deriving DecidableEq

structure ResolvedSpan (U : Type) where
  spanUid : U
  cpuSampleCount : Nat
  schedSampleCount : Nat
  deriving DecidableEq

structure SpanInterval where
  startWall : Nat
  stopWall : Nat
  spanIdx : Nat
  deriving DecidableEq

/-- An interval that is half open, in wall time. -/
def SpanInterval.holds (interval : SpanInterval) (time : Nat) : Bool :=
  interval.startWall ≤ time && time < interval.stopWall

variable {U : Type}

/-- The map from uids to spans; of two spans with one uid the later is kept. -/
def spanIdxByUid [DecidableEq U] (spans : List (ResolvedSpan U)) : U → Option Nat :=
  spans.zipIdx.foldl (fun byUid entry => Function.update byUid entry.1.spanUid (some entry.2))
    fun _ => none

/-- What does not depend on the samples: the conversion to wall time under the offset of the
trace, the uid of an instance, the intervals of the instances in the order of the map, and the
orders that the sorts and the map of workers leave. -/
structure Inputs (U : Type) where
  toWall : Nat → Nat
  computeSpanUid : Nat → U
  instanceIntervals : List (Nat × List AttributionInterval)
  sortIntervals : List SpanInterval → List SpanInterval
  sortSamples : List (ResolvedSample × Nat) → List (ResolvedSample × Nat)
  workers : List Nat

variable (inputs : Inputs U)

/-- The intervals of one worker, in the order in which they are pushed. -/
def intervalsByWorker [DecidableEq U] (spans : List (ResolvedSpan U)) (workerId : Nat) :
    List SpanInterval :=
  inputs.instanceIntervals.flatMap fun (instanceId, intervals) =>
    match spanIdxByUid spans (inputs.computeSpanUid instanceId) with
    | none => []
    | some spanIdx => (intervals.filter fun interval => interval.workerId = workerId).map
        fun interval => ⟨inputs.toWall interval.start, inputs.toWall interval.stop, spanIdx⟩

/-- The samples of one worker, each with its position. -/
def samplesByWorker (samples : List ResolvedSample) (workerId : Nat) :
    List (ResolvedSample × Nat) :=
  samples.zipIdx.filter fun entry => entry.1.workerId = some workerId

/-- A list with the first of each of its elements. -/
def firsts (spans : List Nat) : List Nat :=
  spans.foldl (fun seen spanIdx => if spanIdx ∈ seen then seen else seen ++ [spanIdx]) []

def countSample (source : Nat) (span : ResolvedSpan U) : ResolvedSpan U :=
  if source = 0 then { span with cpuSampleCount := span.cpuSampleCount + 1 }
  else { span with schedSampleCount := span.schedSampleCount + 1 }

def listIn (listed : List Nat) (sample : ResolvedSample) : ResolvedSample :=
  { sample with enclosingSpans := sample.enclosingSpans ++ listed }

structure Tables (U : Type) where
  samples : List ResolvedSample
  spans : List (ResolvedSpan U)

/-- The intervals that were entered and not left, and those that the cursor has not passed. -/
structure Sweep (U : Type) where
  active : List SpanInterval
  pending : List SpanInterval
  tables : Tables U

/-- One sample of the sweep. -/
def Sweep.visit (sweep : Sweep U) (entry : ResolvedSample × Nat) : Sweep U :=
  let entered := sweep.pending.takeWhile fun interval => interval.startWall ≤ entry.1.timestampNs
  let active := (sweep.active ++ entered).filter fun interval =>
    entry.1.timestampNs < interval.stopWall
  let listed := firsts (active.map SpanInterval.spanIdx)
  { active := active
    pending := sweep.pending.dropWhile fun interval => interval.startWall ≤ entry.1.timestampNs
    tables :=
      { samples := sweep.tables.samples.modify entry.2 (listIn listed)
        spans :=
          listed.foldl (fun spans spanIdx => spans.modify spanIdx (countSample entry.1.source))
          sweep.tables.spans } }

/-- The sweep of one worker; one without intervals lists nothing. -/
def sweepWorker [DecidableEq U] (samples : List ResolvedSample) (spans : List (ResolvedSpan U))
    (tables : Tables U) (workerId : Nat) : Tables U :=
  ((inputs.sortSamples (samplesByWorker samples workerId)).foldl Sweep.visit
    ⟨[], inputs.sortIntervals (intervalsByWorker inputs spans workerId), tables⟩).tables

def attributeSamplesToSpans [DecidableEq U] (samples : List ResolvedSample)
    (spans : List (ResolvedSpan U)) : Tables U :=
  inputs.workers.foldl (sweepWorker inputs samples spans) ⟨samples, spans⟩

/-! ## What is attributed -/

/-- The span has an interval on the sample's worker that holds the sample's time. -/
def Inputs.encloses [DecidableEq U] (inputs : Inputs U) (spans : List (ResolvedSpan U))
    (sample : ResolvedSample) (spanIdx : Nat) : Bool :=
  spans[spanIdx]?.any fun span => inputs.instanceIntervals.any fun (instanceId, intervals) =>
    inputs.computeSpanUid instanceId = span.spanUid && intervals.any fun interval =>
      sample.workerId = some interval.workerId &&
        (inputs.toWall interval.start ≤ sample.timestampNs &&
          sample.timestampNs < inputs.toWall interval.stop)

/-! ## Lists of spans -/

theorem firsts_spec (spans : List Nat) :
    (firsts spans).Nodup ∧ ∀ spanIdx, spanIdx ∈ firsts spans ↔ spanIdx ∈ spans := by
  induction spans using List.reverseRecOn with
  | nil => exact ⟨List.nodup_nil, fun _ => Iff.rfl⟩
  | append_singleton spans last ih =>
    obtain ⟨hnodup, hmem⟩ := ih
    have hstep : firsts (spans ++ [last]) =
        if last ∈ firsts spans then firsts spans else firsts spans ++ [last] := by
      rw [firsts, List.foldl_append]
      rfl
    rw [hstep]
    split
    case isTrue hseen =>
        refine ⟨hnodup, fun spanIdx => ?_⟩
        rw [List.mem_append, List.mem_singleton, hmem, or_iff_left_of_imp]
        rintro rfl
        exact (hmem spanIdx).mp hseen
    case isFalse hnew =>
        refine ⟨hnodup.append (List.nodup_singleton last) (by simpa using hnew), fun spanIdx => ?_⟩
        rw [List.mem_append, List.mem_append, hmem]

theorem getElem?_foldl_modify {α : Type} (f : α → α) {listed : List Nat} (hnodup : listed.Nodup)
    (as : List α) (k : Nat) :
    (listed.foldl (fun as i => as.modify i f) as)[k]? =
      if k ∈ listed then as[k]?.map f else as[k]? := by
  induction listed generalizing as with
  | nil => simp
  | cons i listed ih =>
    obtain ⟨hfresh, hrest⟩ := List.nodup_cons.mp hnodup
    rw [List.foldl_cons, ih hrest, List.getElem?_modify]
    by_cases hi : i = k
    · subst hi
      simp [hfresh]
    · simp [hi, Ne.symm hi]

/-! ## The sweep -/

/-- What a sweep knows of its intervals when it has come to a time. -/
structure Sweep.Ready (intervals : List SpanInterval) (now : Nat) (sweep : Sweep U) : Prop where
  active : ∀ interval ∈ sweep.active, interval ∈ intervals ∧ interval.startWall ≤ now
  pending : ∀ interval ∈ sweep.pending, interval ∈ intervals
  sorted : sweep.pending.Pairwise fun a b => a.startWall ≤ b.startWall
  covered : ∀ interval ∈ intervals,
    interval ∈ sweep.active ∨ interval ∈ sweep.pending ∨ interval.stopWall ≤ now

variable {entry : ResolvedSample × Nat}

variable {intervals : List SpanInterval} {now workerId : Nat}

/-- After a visit the active intervals are those that hold the sample's time. -/
theorem Sweep.Ready.visit {sweep : Sweep U}
    (h : sweep.Ready intervals now) (hnow : now ≤ entry.1.timestampNs) :
    (sweep.visit entry).Ready intervals entry.1.timestampNs ∧
      ∀ interval, interval ∈ (sweep.visit entry).active ↔
        interval ∈ intervals ∧ interval.holds entry.1.timestampNs = true := by
  obtain ⟨hactive, hpending, hsorted, hcovered⟩ := h
  have htake := Lib.takeWhile_eq_filter (hsorted.imp fun hab hb =>
    decide_eq_true (hab.trans (of_decide_eq_true hb)) :
      sweep.pending.Pairwise fun a b => decide (b.startWall ≤ entry.1.timestampNs) = true →
        decide (a.startWall ≤ entry.1.timestampNs) = true)
  have hsplit := List.takeWhile_append_dropWhile (l := sweep.pending)
    (p := fun interval => decide (interval.startWall ≤ entry.1.timestampNs))
  have hdrop (interval : SpanInterval) (hmem : interval ∈ sweep.pending) :
      interval.startWall ≤ entry.1.timestampNs ∨ interval ∈ (sweep.visit entry).pending := by
    rw [← hsplit, htake] at hmem
    rcases List.mem_append.mp hmem with hin | hout
    · exact .inl (of_decide_eq_true (List.mem_filter.mp hin).2)
    · exact .inr hout
  have hmem (interval : SpanInterval) : interval ∈ (sweep.visit entry).active ↔
      interval ∈ intervals ∧ interval.holds entry.1.timestampNs = true := by
    simp only [Sweep.visit, htake, List.mem_filter, List.mem_append, SpanInterval.holds,
      Bool.and_eq_true, decide_eq_true_eq]
    constructor
    · rintro ⟨hold | ⟨hin, hstart⟩, hstop⟩
      · obtain ⟨hin, hstart⟩ := hactive interval hold
        exact ⟨hin, hstart.trans hnow, hstop⟩
      · exact ⟨hpending interval hin, hstart, hstop⟩
    · rintro ⟨hin, hstart, hstop⟩
      rcases hcovered interval hin with hold | hwait | hover
      · exact ⟨.inl hold, hstop⟩
      · exact ⟨.inr ⟨hwait, hstart⟩, hstop⟩
      · omega
  refine ⟨⟨?_, ?_, ?_, ?_⟩, hmem⟩
  · intro interval hin
    obtain ⟨hin, hholds⟩ := (hmem interval).mp hin
    exact ⟨hin, of_decide_eq_true (Bool.and_eq_true_iff.mp hholds).1⟩
  · exact fun interval hin => hpending interval ((List.dropWhile_sublist _).subset hin)
  · exact hsorted.sublist (List.dropWhile_sublist _)
  · intro interval hin
    by_cases hover : interval.stopWall ≤ entry.1.timestampNs
    · exact .inr (.inr hover)
    · have hholds : interval.startWall ≤ entry.1.timestampNs →
          interval ∈ (sweep.visit entry).active := fun hstart =>
        (hmem interval).mpr ⟨hin, Bool.and_eq_true_iff.mpr
          ⟨decide_eq_true hstart, decide_eq_true (Nat.lt_of_not_le hover)⟩⟩
      rcases hcovered interval hin with hold | hwait | hended
      · exact .inl (hholds ((hactive interval hold).2.trans hnow))
      · exact (hdrop interval hwait).imp hholds .inl
      · omega

/-! ## What was listed and counted -/

def tally (cpu sched : Nat) (span : ResolvedSpan U) : ResolvedSpan U :=
  { span with
    cpuSampleCount := span.cpuSampleCount + cpu
    schedSampleCount := span.schedSampleCount + sched }

/-- The tables after the samples of `visited`: each lists what encloses it, once, and each span
counts the samples that it encloses. -/
structure Marked (samples : List ResolvedSample) (spans : List (ResolvedSpan U))
    (encloses : ResolvedSample → Nat → Bool) (visited : List (ResolvedSample × Nat))
    (tables : Tables U) : Prop where
  listed : ∀ i, ∃ added : List Nat, tables.samples[i]? = samples[i]?.map (listIn added) ∧
    added.Nodup ∧ ∀ k, k ∈ added ↔ ∃ entry ∈ visited, entry.2 = i ∧ encloses entry.1 k = true
  counted : ∀ k, tables.spans[k]? = spans[k]?.map (tally
    (visited.countP fun entry => encloses entry.1 k && entry.1.source = 0)
    (visited.countP fun entry => encloses entry.1 k && !(entry.1.source = 0)))

variable {samples : List ResolvedSample} {spans : List (ResolvedSpan U)}
  {encloses : ResolvedSample → Nat → Bool} {visited : List (ResolvedSample × Nat)}

theorem marked_nil : Marked samples spans encloses [] ⟨samples, spans⟩ where
  listed := fun i => ⟨[], by cases samples[i]? <;> simp [listIn], List.nodup_nil, by simp⟩
  counted := fun k => by cases spans[k]? <;> simp [tally]

theorem Marked.visit {tables : Tables U} (h : Marked samples spans encloses visited tables)
    (entry : ResolvedSample × Nat) (hfresh : ∀ other ∈ visited, other.2 ≠ entry.2)
    {listed : List Nat} (hnodup : listed.Nodup)
    (hlisted : ∀ k, k ∈ listed ↔ encloses entry.1 k = true) :
    Marked samples spans encloses (visited ++ [entry])
      ⟨tables.samples.modify entry.2 (listIn listed),
        listed.foldl (fun spans k => spans.modify k (countSample entry.1.source)) tables.spans⟩
          where
  listed := by
    intro i
    obtain ⟨added, hadded, honce, hmem⟩ := h.listed i
    by_cases hi : entry.2 = i
    · have hempty : added = [] := by
        apply List.eq_nil_iff_forall_not_mem.mpr
        intro k hk
        obtain ⟨other, hother, hindex, -⟩ := (hmem k).mp hk
        exact hfresh other hother (hindex.trans hi.symm)
      subst hempty
      refine ⟨listed, ?_, hnodup, fun k => ?_⟩
      · rw [List.getElem?_modify, hadded]
        cases samples[i]? <;> simp [listIn, hi]
      · simp only [List.mem_append, List.mem_singleton, hlisted]
        constructor
        · exact fun hk => ⟨entry, .inr rfl, hi, hk⟩
        · rintro ⟨other, hold | rfl, hindex, hk⟩
          · exact absurd (hindex.trans hi.symm) (hfresh other hold)
          · exact hk
    · refine ⟨added, ?_, honce, fun k => ?_⟩
      · rw [List.getElem?_modify, hadded]
        cases samples[i]? <;> simp [hi]
      · simp only [List.mem_append, List.mem_singleton, hmem]
        constructor
        · rintro ⟨other, hold, hother⟩
          exact ⟨other, .inl hold, hother⟩
        · rintro ⟨other, hold | rfl, hindex, hk⟩
          · exact ⟨other, hold, hindex, hk⟩
          · exact absurd hindex hi
  counted := by
    intro k
    have hk := hlisted k
    rw [getElem?_foldl_modify _ hnodup, h.counted k]
    cases spans[k]? with
    | none => simp
    | some span =>
      cases hin : encloses entry.1 k with
      | false =>
        rw [if_neg (by rw [hk, hin]; decide)]
        simp [List.countP_append, hin]
      | true =>
        rw [if_pos (hk.mpr hin)]
        by_cases hsource : entry.1.source = 0 <;>
          simp [List.countP_append, hin, hsource, countSample, tally, Nat.add_assoc]

theorem marked_foldl_visit {order : List (ResolvedSample × Nat)}
    {sweep : Sweep U} (hready : sweep.Ready intervals now)
    (hmarked : Marked samples spans encloses visited sweep.tables)
    (hsorted : order.Pairwise fun a b => a.1.timestampNs ≤ b.1.timestampNs)
    (hnow : ∀ entry ∈ order, now ≤ entry.1.timestampNs)
    (hfresh : (visited ++ order).Pairwise fun a b => a.2 ≠ b.2)
    (hspec : ∀ entry ∈ order, ∀ k, encloses entry.1 k = true ↔
      ∃ interval ∈ intervals, interval.holds entry.1.timestampNs = true ∧ interval.spanIdx = k) :
    Marked samples spans encloses (visited ++ order) (order.foldl Sweep.visit sweep).tables := by
  induction order generalizing sweep now visited with
  | nil => rwa [List.append_nil]
  | cons entry order ih =>
    obtain ⟨hfirst, hlater⟩ := List.pairwise_cons.mp hsorted
    obtain ⟨hready, hactive⟩ := hready.visit (hnow entry List.mem_cons_self)
    obtain ⟨hnodup, hmem⟩ := firsts_spec ((sweep.visit entry).active.map SpanInterval.spanIdx)
    have hnext := hmarked.visit entry
      (fun other hother =>
        (List.pairwise_append.mp hfresh).2.2 other hother entry List.mem_cons_self)
      hnodup fun k => by
        rw [hmem, hspec entry List.mem_cons_self, List.mem_map]
        simp only [hactive, and_assoc]
    rw [List.append_cons] at hfresh ⊢
    exact ih hready hnext hlater hfirst hfresh fun other hother =>
      hspec other (List.mem_cons_of_mem entry hother)

/-! ## All workers -/

variable [DecidableEq U]

theorem spanIdxByUid_eq_some_iff (hnodup : (spans.map ResolvedSpan.spanUid).Nodup) {uid : U}
    {k : Nat} :
    spanIdxByUid spans uid = some k ↔ ∃ span, spans[k]? = some span ∧ span.spanUid = uid := by
  have hfold (entries : List (ResolvedSpan U × Nat))
      (hentries : (entries.map fun entry => entry.1.spanUid).Nodup) :
      entries.foldl (fun (byUid : U → Option Nat) entry =>
        Function.update byUid entry.1.spanUid (some entry.2)) (fun _ => none) uid = some k ↔
        ∃ span, (span, k) ∈ entries ∧ span.spanUid = uid := by
    induction entries using List.reverseRecOn with
    | nil => simp
    | append_singleton entries last ih =>
      rw [List.map_append, List.map_singleton] at hentries
      obtain ⟨hold, -, hapart⟩ := List.nodup_append.mp hentries
      rw [List.foldl_append, List.foldl_cons, List.foldl_nil, Function.update_apply]
      simp only [List.mem_append, List.mem_singleton]
      split
      case isTrue huid =>
          constructor
          · intro hk
            exact ⟨last.1, .inr (by rw [← Option.some.inj hk]), huid.symm⟩
          · rintro ⟨span, hin | rfl, hspan⟩
            · exact absurd (hspan.trans huid) (hapart _ (List.mem_map.mpr ⟨_, hin, rfl⟩) _
                List.mem_cons_self)
            · rfl
      case isFalse huid =>
          rw [ih hold]
          refine exists_congr fun span => and_congr_left fun hspan => ?_
          rw [or_iff_left]
          rintro rfl
          exact huid hspan.symm
  have hzip : spans.zipIdx.map (fun entry => entry.1.spanUid) = spans.map ResolvedSpan.spanUid := by
    rw [← List.zipIdx_map_fst 0 spans, List.map_map]
    simp [Function.comp_def]
  rw [spanIdxByUid, hfold _ (by rwa [hzip])]
  simp only [List.mem_zipIdx_iff_getElem?]

theorem encloses_iff (inputs : Inputs U) (hnodup : (spans.map ResolvedSpan.spanUid).Nodup)
    {sample : ResolvedSample} (hworker : sample.workerId = some workerId) (k : Nat) :
    inputs.encloses spans sample k = true ↔
      ∃ interval ∈ intervalsByWorker inputs spans workerId,
        interval.holds sample.timestampNs = true ∧ interval.spanIdx = k := by
  simp only [Inputs.encloses, Option.any_eq_true, List.any_eq_true, Bool.and_eq_true,
    decide_eq_true_eq, SpanInterval.holds]
  constructor
  · rintro ⟨span, hspan, ⟨instanceId, ranges⟩, hinstance, huid, range, hrange, hown, htime⟩
    have hidx := (spanIdxByUid_eq_some_iff hnodup).mpr ⟨span, hspan, huid.symm⟩
    refine ⟨⟨inputs.toWall range.start, inputs.toWall range.stop, k⟩, ?_, htime, rfl⟩
    refine List.mem_flatMap.mpr ⟨(instanceId, ranges), hinstance, ?_⟩
    dsimp only
    rw [hidx]
    refine List.mem_map.mpr ⟨range, List.mem_filter.mpr ⟨hrange, decide_eq_true ?_⟩, rfl⟩
    exact Option.some.inj (hown.symm.trans hworker)
  · rintro ⟨interval, hin, htime, rfl⟩
    obtain ⟨⟨instanceId, ranges⟩, hinstance, hin⟩ := List.mem_flatMap.mp hin
    dsimp only at hin
    split at hin
    · cases hin
    · rename_i hidx
      obtain ⟨span, hspan, huid⟩ := (spanIdxByUid_eq_some_iff hnodup).mp hidx
      obtain ⟨range, hrange, rfl⟩ := List.mem_map.mp hin
      obtain ⟨hrange, hown⟩ := List.mem_filter.mp hrange
      refine ⟨span, hspan, (instanceId, ranges), hinstance, huid.symm, range, hrange, ?_, htime⟩
      rw [hworker, of_decide_eq_true hown]

/-- The orders that the sorts and the map may leave. -/
structure Inputs.Ordered (inputs : Inputs U) (samples : List ResolvedSample)
    (spans : List (ResolvedSpan U)) : Prop where
  intervals : ∀ workerId ∈ inputs.workers,
    (inputs.sortIntervals (intervalsByWorker inputs spans workerId)).Perm
        (intervalsByWorker inputs spans workerId) ∧
      (inputs.sortIntervals (intervalsByWorker inputs spans workerId)).Pairwise
        fun a b => a.startWall ≤ b.startWall
  visits : ∀ workerId ∈ inputs.workers,
    (inputs.sortSamples (samplesByWorker samples workerId)).Perm
      (samplesByWorker samples workerId) ∧
      (inputs.sortSamples (samplesByWorker samples workerId)).Pairwise
        fun a b => a.1.timestampNs ≤ b.1.timestampNs
  distinct : inputs.workers.Nodup
  workers : ∀ workerId, workerId ∈ inputs.workers ↔
    ∃ sample ∈ samples, sample.workerId = some workerId

section Workers

variable {inputs : Inputs U}

/-- The samples in the order of their visits. -/
def Inputs.visits (inputs : Inputs U) (samples : List ResolvedSample) (workers : List Nat) :
    List (ResolvedSample × Nat) :=
  workers.flatMap fun workerId => inputs.sortSamples (samplesByWorker samples workerId)

theorem mem_samplesByWorker :
    entry ∈ samplesByWorker samples workerId ↔
      samples[entry.2]? = some entry.1 ∧ entry.1.workerId = some workerId := by
  rw [samplesByWorker, List.mem_filter, List.mem_zipIdx_iff_getElem?, decide_eq_true_eq]

theorem visits_pairwise (hordered : inputs.Ordered samples spans) :
    (inputs.visits samples inputs.workers).Pairwise fun a b => a.2 ≠ b.2 := by
  refine List.pairwise_flatMap.mpr ⟨fun workerId hmem => ?_, ?_⟩
  · refine ((hordered.visits workerId hmem).1.pairwise_iff fun h => h.symm).mpr ?_
    refine List.Pairwise.filter _ (List.pairwise_map.mp ?_)
    rw [List.zipIdx_map_snd]
    exact List.nodup_range'
  · refine hordered.distinct.imp_of_mem fun {workerId other} hmem hother hne => ?_
    intro entry hentry entry' hentry' hsame
    obtain ⟨hget, hown⟩ := mem_samplesByWorker.mp ((hordered.visits _ hmem).1.mem_iff.mp hentry)
    obtain ⟨hget', hown'⟩ :=
      mem_samplesByWorker.mp ((hordered.visits _ hother).1.mem_iff.mp hentry')
    rw [hsame, hget'] at hget
    rw [← Option.some.inj hget, hown'] at hown
    exact hne (Option.some.inj hown).symm

theorem marked_sweepWorkers (hnodup : (spans.map ResolvedSpan.spanUid).Nodup)
    (hordered : inputs.Ordered samples spans) :
    Marked samples spans (inputs.encloses spans) (inputs.visits samples inputs.workers)
      (attributeSamplesToSpans inputs samples spans) := by
  have hpairwise := visits_pairwise hordered
  have hprefix (workers rest : List Nat) (hworkers : inputs.workers = workers ++ rest) :
      Marked samples spans (inputs.encloses spans) (inputs.visits samples workers)
        (workers.foldl (sweepWorker inputs samples spans) ⟨samples, spans⟩) := by
    induction workers using List.reverseRecOn generalizing rest with
    | nil => exact marked_nil
    | append_singleton workers workerId ih =>
      have hmem : workerId ∈ inputs.workers := by simp [hworkers]
      obtain ⟨hperm, hstarts⟩ := hordered.intervals workerId hmem
      obtain ⟨hvisits, htimes⟩ := hordered.visits workerId hmem
      have hfresh :
          (inputs.visits samples (workers ++ [workerId])).Pairwise fun a b => a.2 ≠ b.2 := by
        rw [hworkers, Inputs.visits, List.flatMap_append] at hpairwise
        exact (List.pairwise_append.mp hpairwise).1
      have hsplit : inputs.visits samples (workers ++ [workerId]) =
          inputs.visits samples workers ++
            inputs.sortSamples (samplesByWorker samples workerId) := by simp [Inputs.visits]
      rw [hsplit] at hfresh ⊢
      rw [List.foldl_append]
      have hready : (Sweep.mk [] (inputs.sortIntervals (intervalsByWorker inputs spans workerId))
          (workers.foldl (sweepWorker inputs samples spans) ⟨samples, spans⟩)).Ready _ 0 :=
        ⟨by simp, fun _ h => h, hstarts, fun _ h => .inr (.inl h)⟩
      refine marked_foldl_visit hready
        (ih ([workerId] ++ rest) (by rw [hworkers, List.append_assoc]))
        htimes (fun _ _ => Nat.zero_le _) hfresh fun entry hentry k => ?_
      rw [encloses_iff inputs hnodup (mem_samplesByWorker.mp (hvisits.mem_iff.mp hentry)).2]
      simp only [hperm.mem_iff]
  exact hprefix inputs.workers [] (List.append_nil _).symm

theorem mem_visits (hordered : inputs.Ordered samples spans) :
    entry ∈ inputs.visits samples inputs.workers ↔
      samples[entry.2]? = some entry.1 ∧ entry.1.workerId.isSome = true := by
  simp only [Inputs.visits, List.mem_flatMap, Option.isSome_iff_exists]
  constructor
  · rintro ⟨workerId, hmem, hentry⟩
    obtain ⟨hget, hown⟩ := mem_samplesByWorker.mp ((hordered.visits _ hmem).1.mem_iff.mp hentry)
    exact ⟨hget, workerId, hown⟩
  · rintro ⟨hget, workerId, hown⟩
    have hmem := (hordered.workers workerId).mpr ⟨_, List.mem_of_getElem? hget, hown⟩
    exact ⟨workerId, hmem,
      (hordered.visits _ hmem).1.mem_iff.mpr (mem_samplesByWorker.mpr ⟨hget, hown⟩)⟩

theorem countP_visits (hordered : inputs.Ordered samples spans) {p : ResolvedSample → Bool}
    (hworker : ∀ sample, p sample = true → sample.workerId.isSome = true) :
    (inputs.visits samples inputs.workers).countP (fun entry => p entry.1) = samples.countP p := by
  have hvisited : (inputs.visits samples inputs.workers).Perm
      (samples.zipIdx.filter fun entry => entry.1.workerId.isSome) := by
    refine (List.perm_ext_iff_of_nodup ?_ ?_).mpr fun entry => ?_
    · exact (visits_pairwise hordered).imp fun hne heq => hne (congrArg Prod.snd heq)
    · refine List.Nodup.filter _ (List.Nodup.of_map Prod.snd ?_)
      rw [List.zipIdx_map_snd]
      exact List.nodup_range'
    · rw [mem_visits hordered, List.mem_filter, List.mem_zipIdx_iff_getElem?]
  rw [hvisited.countP_eq, List.countP_filter]
  conv_rhs => rw [← List.zipIdx_map_fst 0 samples, List.countP_map]
  refine List.countP_congr fun entry _ => ?_
  rw [Bool.and_eq_true, Function.comp_apply]
  exact and_iff_left_of_imp (hworker entry.1)

/-- Each sample lists, once, the spans with an interval on its worker that holds its time, and
each span counts those samples by their source, whatever the orders. -/
theorem attributeSamplesToSpans_spec (hnodup : (spans.map ResolvedSpan.spanUid).Nodup)
    (hordered : inputs.Ordered samples spans) :
    (∀ (i : Nat) (sample : ResolvedSample), samples[i]? = some sample → ∃ added,
      (attributeSamplesToSpans inputs samples spans).samples[i]? = some (listIn added sample) ∧
        added.Nodup ∧ ∀ k, k ∈ added ↔ inputs.encloses spans sample k = true) ∧
      ∀ (k : Nat) (span : ResolvedSpan U), spans[k]? = some span →
        (attributeSamplesToSpans inputs samples spans).spans[k]? = some (tally
          (samples.countP fun sample => inputs.encloses spans sample k && sample.source = 0)
          (samples.countP fun sample => inputs.encloses spans sample k && !(sample.source = 0))
          span) := by
  have hmarked := marked_sweepWorkers hnodup hordered
  have hworker (sample : ResolvedSample) (k : Nat)
      (h : inputs.encloses spans sample k = true) : sample.workerId.isSome = true := by
    simp only [Inputs.encloses, Option.any_eq_true, List.any_eq_true, Bool.and_eq_true,
      decide_eq_true_eq] at h
    obtain ⟨_, _, _, _, _, _, _, hown, _⟩ := h
    rw [hown]
    rfl
  constructor
  · intro i sample hsample
    obtain ⟨added, hadded, honce, hmem⟩ := hmarked.listed i
    rw [hsample] at hadded
    refine ⟨added, hadded, honce, fun k => (hmem k).trans ⟨?_, fun h => ?_⟩⟩
    · rintro ⟨entry, hentry, rfl, h⟩
      have hget := ((mem_visits hordered).mp hentry).1
      rw [hsample] at hget
      rwa [Option.some.inj hget]
    · exact ⟨(sample, i), (mem_visits hordered).mpr ⟨hsample, hworker sample k h⟩, rfl, h⟩
  · intro k span hspan
    have hcount (q : ResolvedSample → Bool) := countP_visits hordered
      (p := fun sample => inputs.encloses spans sample k && q sample)
      fun sample h => hworker sample k (Bool.and_eq_true_iff.mp h).1
    rw [hmarked.counted k, hspan, ← hcount, ← hcount]
    rfl

/-- Two intervals of one span, one within the other. -/
def nestedIntervals : Inputs Nat := ⟨id, id, [(1, [⟨10, 20, 0⟩, ⟨12, 18, 0⟩])], id, id, [0]⟩

theorem attributeSamplesToSpans_spec_nestedIntervals :
    ∃ added,
      (attributeSamplesToSpans nestedIntervals [⟨15, some 0, 0, []⟩] [⟨1, 0, 0⟩]).samples[0]? =
      some (listIn added ⟨15, some 0, 0, []⟩) ∧ added.Nodup ∧ 0 ∈ added := by
  have hspec :=
    @attributeSamplesToSpans_spec Nat [⟨15, some 0, 0, []⟩] [⟨1, 0, 0⟩] _ nestedIntervals
    (by decide) ⟨by decide, by decide, by decide, by simp [nestedIntervals, eq_comm]⟩
  obtain ⟨added, hadded, honce, hmem⟩ := hspec.1 0 _ rfl
  exact ⟨added, hadded, honce, (hmem 0).mpr (by decide)⟩

end Workers

end Dial9.Viewer.Attribution
