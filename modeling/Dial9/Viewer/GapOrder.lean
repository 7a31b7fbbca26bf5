/-
# Block-in-place gaps and the order of the stream

A handoff moves a worker between two threads, and each thread flushes its events on
its own. The gaps are taken from the history of parks and unparks as it stands, which
is in the order of the stream; what they should be is said by the times. A thread's own
events of a worker reach the stream in order of time.
-/

import Dial9.Viewer.WorkerParity
import Mathlib.Data.List.Chain

namespace Dial9.Viewer.TraceParser

open Polls

/-- The gaps of the parsed trace. -/
def blockInPlaceGaps (state : ParseState) : List BlockInPlaceGap :=
  (deriveBlockInPlaceGaps state.parkUnparkHistory
    (state.cpuSamples.map (resolveWorker state.tidToWorker))).1

def parsed (stream : List Polls.TraceEvent) : ParseState :=
  stream.foldl ParseState.processFrame .empty

/-- The parks and unparks in the order of the stream. -/
def arrived (stream : List Polls.TraceEvent) : List Bound :=
  (parsed stream).parkUnparkHistory.map ofEntry

/-- The parks and unparks in order of time. -/
def inTime (stream : List Polls.TraceEvent) : List Bound :=
  (arrived stream).insertionSort fun a b => a.time ≤ b.time

/-- A sample's thread is one of the two of a gap around the sample. -/
def InSomeGap (gaps : List BlockInPlaceGap) (sample : Sample) : Prop :=
  ∃ g ∈ gaps, (sample.tid = g.fromTid ∨ sample.tid = g.toTid) ∧
    Covers (g.startNs, g.endNs) sample.timestamp

instance (gaps : List BlockInPlaceGap) (sample : Sample) : Decidable (InSomeGap gaps sample) :=
  inferInstanceAs (Decidable (∃ g ∈ gaps, (sample.tid = g.fromTid ∨ sample.tid = g.toTid) ∧
    (g.startNs ≤ sample.timestamp ∧ sample.timestamp < g.endNs)))

/-- No two events of a worker have one time, and a thread's own come in order of it. -/
structure Delivered (stream : List Polls.TraceEvent) : Prop where
  distinct : ∀ workerId, (ofWorker (arrived stream) workerId).Pairwise fun a b => a.time ≠ b.time
  threads : ∀ workerId, (ofWorker (arrived stream) workerId).Pairwise fun a b =>
    a.tid = b.tid → a.time ≤ b.time

/-- The gaps are those of the events in order of time, and they decide which samples have no
worker. -/
structure GapsByTime (stream : List Polls.TraceEvent) : Prop where
  gaps : ∀ g, g ∈ blockInPlaceGaps (parsed stream) ↔
    ∃ prev next, Turnover (inTime stream) prev next ∧ g = spanOf prev next
  forward : ∀ g ∈ blockInPlaceGaps (parsed stream), g.startNs ≤ g.endNs
  samples : finalizeParse (parsed stream) =
    ((parsed stream).cpuSamples.map (resolveWorker (parsed stream).tidToWorker)).map fun sample =>
      if InSomeGap (blockInPlaceGaps (parsed stream)) sample then
        { sample with workerId := offWorkerWorkerId }
      else sample

/-! ## What is derived -/

theorem mem_sortGaps (gaps : List BlockInPlaceGap) (g : BlockInPlaceGap) :
    g ∈ sortGaps gaps ↔ g ∈ gaps :=
  (List.perm_insertionSort _ gaps).mem_iff

theorem mem_blockInPlaceGaps (stream : List Polls.TraceEvent) (g : BlockInPlaceGap) :
    g ∈ blockInPlaceGaps (parsed stream) ↔
      ∃ prev next, Turnover (arrived stream) prev next ∧ g = spanOf prev next :=
  (mem_sortGaps _ g).trans ((scans_foldl (parsed stream).parkUnparkHistory).gaps g)

/-- A sample loses its worker exactly when a derived gap around it names its thread. -/
theorem rewriteWorker_eq (gaps : List BlockInPlaceGap) (sample : Sample) :
    rewriteWorker (gaps.foldl indexByTid fun _ => []) sample =
      if InSomeGap gaps sample then { sample with workerId := offWorkerWorkerId } else sample := by
  have hsorted : (sortGaps (gaps.foldl indexByTid (fun _ => []) sample.tid)).Pairwise fun a b =>
      a.startNs ≤ b.startNs := List.pairwise_insertionSort _ _
  have hiff :
      withinGap sample.timestamp (sortGaps (gaps.foldl indexByTid (fun _ => []) sample.tid)) =
      true ↔ InSomeGap gaps sample := by
    rw [withinGap_iff hsorted]
    simp only [mem_sortGaps, mem_foldl_indexByTid, InSomeGap, and_assoc]
  rw [rewriteWorker]
  by_cases hgap : InSomeGap gaps sample
  · rw [if_pos hgap, if_pos (hiff.mpr hgap)]
  · rw [if_neg hgap, if_neg (mt hiff.mp hgap)]

/-! ## Order of time -/

theorem ofWorker_inTime_perm (stream : List Polls.TraceEvent) (workerId : Nat) :
    (ofWorker (inTime stream) workerId).Perm (ofWorker (arrived stream) workerId) :=
  (List.perm_insertionSort _ _).filter _

theorem ofWorker_inTime_sorted (stream : List Polls.TraceEvent) (workerId : Nat) :
    (ofWorker (inTime stream) workerId).Pairwise fun a b => a.time ≤ b.time :=
  (List.pairwise_insertionSort _ _).filter _

variable {stream : List Polls.TraceEvent}

theorem ofWorker_inTime {workerId : Nat}
    (h : (ofWorker (arrived stream) workerId).Pairwise fun a b => a.time < b.time) :
    ofWorker (inTime stream) workerId = ofWorker (arrived stream) workerId := by
  have hperm := ofWorker_inTime_perm stream workerId
  have hdistinct : (ofWorker (inTime stream) workerId).Pairwise fun a b => a.time ≠ b.time :=
    (hperm.pairwise_iff fun hab hba => hab hba.symm).mpr (h.imp fun hlt => hlt.ne)
  have hsorted : (ofWorker (inTime stream) workerId).Pairwise fun a b => a.time < b.time :=
    (ofWorker_inTime_sorted stream workerId).imp₂
      (fun _ _ hle hne => lt_of_le_of_ne hle hne) hdistinct
  exact hperm.eq_of_pairwise (fun a b _ _ hab hba => absurd hab hba.not_gt) hsorted h

theorem turnover_inTime
    (h : ∀ workerId, (ofWorker (arrived stream) workerId).Pairwise fun a b => a.time < b.time)
    (prev next : Bound) :
    Turnover (inTime stream) prev next ↔ Turnover (arrived stream) prev next := by
  constructor
  · rintro ⟨hadjacent, hdiffer⟩
    exact ⟨ofWorker_inTime (h next.workerId) ▸ hadjacent, hdiffer⟩
  · rintro ⟨hadjacent, hdiffer⟩
    refine ⟨?_, hdiffer⟩
    rw [ofWorker_inTime (h next.workerId)]
    exact hadjacent

/-- Where no gap ends before it starts, each worker's events arrived in order. -/
theorem pairwise_of_forward (hdelivered : Delivered stream)
    (hforward : ∀ g ∈ blockInPlaceGaps (parsed stream), g.startNs ≤ g.endNs) (workerId : Nat) :
    (ofWorker (arrived stream) workerId).Pairwise fun a b => a.time < b.time := by
  have hchain : (ofWorker (arrived stream) workerId).IsChain fun a b => a.time ≤ b.time := by
    apply List.isChain_iff_forall_rel_of_append_cons_cons.mpr
    intro prev next before after heq
    have hinfix : [prev, next] <:+: ofWorker (arrived stream) workerId :=
      ⟨before, after, by rw [heq, List.append_assoc]; rfl⟩
    have hnext : next ∈ ofWorker (arrived stream) workerId :=
      hinfix.subset (List.mem_cons_of_mem _ List.mem_cons_self)
    have hworker : next.workerId = workerId := of_decide_eq_true (List.mem_filter.mp hnext).2
    by_cases htid : prev.tid = next.tid
    · exact (List.pairwise_cons.mp ((hdelivered.threads workerId).sublist hinfix.sublist)).1 next
        List.mem_cons_self htid
    · have hturn : Turnover (arrived stream) prev next := ⟨hworker ▸ hinfix, htid⟩
      exact hforward _ ((mem_blockInPlaceGaps stream _).mpr ⟨prev, next, hturn, rfl⟩)
  have htrans : IsTrans Bound fun a b => a.time ≤ b.time := ⟨fun _ _ _ => le_trans⟩
  exact (List.isChain_iff_pairwise.mp hchain).imp₂ (fun _ _ hle hne => lt_of_le_of_ne hle hne)
    (hdelivered.distinct workerId)

/-- The gaps are those of the times exactly when each worker's events arrive in order. -/
theorem gapsByTime_iff {stream : List Polls.TraceEvent} (hdelivered : Delivered stream) :
    GapsByTime stream ↔
      ∀ workerId, (ofWorker (arrived stream) workerId).Pairwise fun a b => a.time < b.time := by
  constructor
  · exact fun h => pairwise_of_forward hdelivered h.forward
  · intro h
    constructor
    · intro g
      rw [mem_blockInPlaceGaps]
      simp only [turnover_inTime h]
    · intro g hg
      rcases (mem_blockInPlaceGaps stream g).mp hg with ⟨prev, next, hturn, rfl⟩
      have hpair := (h next.workerId).sublist hturn.adjacent.sublist
      exact ((List.pairwise_cons.mp hpair).1 next List.mem_cons_self).le
    · exact List.map_congr_left fun sample _ => rewriteWorker_eq _ sample

/-- Worker 0 passes from thread 1 to thread 2, whose batch comes last. -/
def handedOver : List Polls.TraceEvent :=
  [.workerUnpark 10 0 1, .workerPark 30 0 2, .workerUnpark 40 0 2]

theorem gapsByTime_iff_handedOver : GapsByTime handedOver := by
  have hdelivered : Delivered handedOver := by
    constructor
    · intro workerId
      exact (by decide : (arrived handedOver).Pairwise fun a b => a.time ≠ b.time).filter _
    · intro workerId
      exact (by decide : (arrived handedOver).Pairwise fun a b =>
        a.tid = b.tid → a.time ≤ b.time).filter _
  apply (gapsByTime_iff hdelivered).mpr
  intro workerId
  exact (by decide : (arrived handedOver).Pairwise fun a b => a.time < b.time).filter _

/-- The batch of thread 2 comes first. -/
def lateBatch : List Polls.TraceEvent :=
  [.workerPark 30 0 2, .workerUnpark 40 0 2, .workerUnpark 10 0 1]

theorem lateBatch_misorders : Delivered lateBatch ∧ ¬ GapsByTime lateBatch := by
  refine ⟨⟨fun workerId => ?_, fun workerId => ?_⟩, fun h => ?_⟩
  · exact (by decide : (arrived lateBatch).Pairwise fun a b => a.time ≠ b.time).filter _
  · exact (by decide : (arrived lateBatch).Pairwise
      fun a b => a.tid = b.tid → a.time ≤ b.time).filter _
  · exact absurd (h.forward ⟨0, 2, 1, 40, 10⟩ (by decide)) (by decide)

end Dial9.Viewer.TraceParser
