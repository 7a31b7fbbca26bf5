/-
# Complete dumps

Over the directory and over the ring, a dump that is resolved after a drain that
ended by itself is complete. The last drain before the exit ends by itself also
when a segment of the dump waits for a retry, and then the dump is not complete:
its receipt covers what landed.
-/

import Dial9.Core.DrainDisk
import Dial9.Core.DrainMem

namespace Dial9.Core

open Dial9.Lib

namespace Worker

/-- The invariant of either store, in an orderly run. -/
structure DrainInv (w : Worker) : Prop where
  triggered : TriggeredInv w
  stages : 0 < w.pipeline.stages
  drain : (∃ d, DirectoryInv w d ∧ Held w d ∧ DiskDrain w d) ∨ ∃ m, RingInv w m ∧ MemDrain w m

theorem drainInv_step {w next : Worker} {e : WorkerEvent} (h : DrainInv w)
    (horderly : w.Orderly e) (hnext : w.step e = some next) : DrainInv next := by
  refine ⟨triggeredInv_step h.triggered hnext, ?_, ?_⟩
  · rw [pipeline_step hnext]
    exact h.stages
  · rcases h.drain with ⟨d, hdir, hheld, hdrain⟩ | ⟨m, hring, hdrain⟩
    · rcases directoryInv_step hdir hnext with ⟨d', hdir'⟩
      refine .inl ⟨d', hdir', ?_⟩
      rcases step_cases hnext with houtside | hmove
      · exact ⟨held_outside hdir hheld houtside hdir'.store,
          diskDrain_outside hdrain hdir houtside hdir'.store⟩
      · exact ⟨held_move hdir hheld horderly.1 (handMove_of_move hmove) hdir'.store,
          diskDrain_move hdrain h.triggered hdir hheld h.stages horderly hmove hdir'.store⟩
    · rcases ringInv_step hring hnext with ⟨m', hring'⟩
      refine .inr ⟨m', hring', ?_⟩
      rcases step_cases hnext with houtside | hmove
      · exact memDrain_outside hdrain hring horderly houtside hring'.store
      · exact memDrain_move hdrain h.triggered hring h.stages horderly hmove hring'.store

theorem drainInv_triggered {pipeline : Pipeline} (hstages : 0 < pipeline.stages) {store : Store}
    (hfresh : Fresh store) : DrainInv (triggered pipeline store) := by
  refine ⟨triggeredInv_triggered pipeline hfresh, hstages, ?_⟩
  cases hfresh with
  | disk =>
    refine .inl ⟨_, directoryInv_new pipeline .top rfl, by simp [Held, DiskStore.empty], ?_⟩
    exact
      { ringSealed := by simp [triggered, new]
        resolvedSealed := by simp [triggered, new]
        cached := by simp [triggered, new]
        covering := .of_idle rfl rfl
        complete := by simp [CompleteDumps, triggered, new] }
  | mem maxTotalSize =>
    refine .inr ⟨_, ringInv_new pipeline maxTotalSize .top, ?_⟩
    exact
      { headed := by simp [Headed, Stored, triggered, new, inHand, Queue.new]
        kept := by simp [triggered, new]
        oneSlot := trivial
        complete := by simp [CompleteDumps, triggered, new] }

/-- In every orderly run of the triggered worker, over the directory or the ring,
every dump that was resolved after a drain that ended by itself, and not at the
exit with a segment to be tried again, is complete. -/
theorem completeDumps_throughout {pipeline : Pipeline} (hstages : 0 < pipeline.stages)
    {store : Store} (hfresh : Fresh store) {events : List WorkerEvent}
    (h : Along step Orderly (triggered pipeline store) events) :
    Throughout step CompleteDumps (triggered pipeline store) events := by
  apply throughout_of_along _ _ (drainInv_triggered hstages hfresh) h
  · exact fun w e next hw horderly hnext => drainInv_step hw horderly hnext
  · intro w hw
    rcases hw.drain with ⟨d, -, -, hdrain⟩ | ⟨m, -, hdrain⟩
    · exact hdrain.complete
    · exact hdrain.complete

/-- One stage, over slots that were all created at the same second. -/
def slotStage : Pipeline := { oneStage with headerSecs := fun _ => some 0x21 }

def oneSlot : MemSegment := ⟨0, [], 0, 0x21, 0x22⟩

/-- A dump of everything, with the id nine. -/
def dumpRing : DumpRequest := ⟨9, 0x24 * 10 ^ 9, .unbounded, 0, []⟩

/-- A slot is sealed and dumped. -/
def dumpedSlot : List WorkerEvent :=
  [.sealSlot oneSlot, .send dumpRing, .proceed, .proceed, .receive 0, .proceed, .ready, .ready,
    .load .loaded, .inspected 0x21 0x22, .stage (.passed ""), .proceed, .ready]

theorem completeDumps_throughout_dumpedSlot :
    (run step (triggered slotStage (.mem ⟨0x20, .new, [], []⟩)) dumpedSlot).map (fun w =>
        (w.resolved.map fun entry => (entry.1.ring, entry.2), w.passedIndices)) =
      some ([([⟨0, 0x21, 0x22⟩], .triggered, .default)], [0]) ∧
    Throughout step CompleteDumps (triggered slotStage (.mem ⟨0x20, .new, [], []⟩)) dumpedSlot := by
  refine ⟨by decide, completeDumps_throughout Nat.one_pos (.mem 0x20) ⟨?_, ?_⟩⟩
  · exact ⟨trivial, by simp, fun slot _ => by simp [triggered, new, slotStage]⟩
  · intro next _
    apply along_of_forall
    simp [Orderly, Kept]

/-- A file of a dump is tried twice and put back, the second time in the drain
before the exit. -/
def retriedAtExit : List WorkerEvent :=
  [.sealFile ⟨0, 0x11, 0x12⟩, .send dumpRing, .proceed, .proceed, .receive 0, .finishWriting,
    .proceed, .ready, .list, .readClaims, .recordClaims fun _ => 0, .ready, .load .loaded,
    .inspected 0x11 0x12, .stage (.failed (.transfer "busy" true)), .proceed, .proceed, .proceed,
    .ready, .list, .readClaims, .recordClaims fun _ => 0, .ready, .load .loaded,
    .inspected 0x11 0x12, .stage (.failed (.transfer "busy" true)), .proceed]

/-- The dump is resolved all the same, without an interruption. -/
theorem retriedAtExit_incomplete :
    ¬ ∀ (pipeline : Pipeline) (store : Store) (events : List WorkerEvent) (w : Worker),
      0 < pipeline.stages → Fresh store → Along step Orderly (triggered pipeline store) events →
        run step (triggered pipeline store) events = some w →
          ∀ entry ∈ w.resolved, entry.2.2.interruption = none → w.Complete entry.1 := by
  intro hall
  have hrun : ∃ w d dump, run step (triggered slotStage (.disk .empty)) retriedAtExit = some w ∧
      w.store = .disk d ∧ w.resolved = [(dump, .final, ⟨[9], none⟩)] ∧
        dump.ring = [⟨0, 0x11, 0x12⟩] ∧ dump.window.overlaps 0x11 0x12 = true ∧
          w.passedIndices = [] ∧ w.terminal = [] ∧ w.reportedGone = [] ∧ d.files = [0] :=
    ⟨_, _, _, rfl, rfl, rfl, rfl, rfl, rfl, rfl, rfl, rfl⟩
  rcases hrun with ⟨w, d, dump, hw, hstore, hresolved, hring, hwindow, hpassed, hterminal, hgone,
    hfiles⟩
  have horderly : Along step Orderly (triggered slotStage (.disk .empty)) retriedAtExit := by
    apply along_of_forall
    simp [retriedAtExit, Orderly, Kept, ProcessErrorKind.alreadyDeleted]
  have hcomplete := hall slotStage (.disk .empty) retriedAtExit w Nat.one_pos .disk horderly hw
    (dump, .final, ⟨[9], none⟩) (by rw [hresolved]; exact List.mem_cons_self) rfl ⟨0, 0x11, 0x12⟩
    (by rw [hring]; exact List.mem_cons_self) hwindow
  rw [Accounted, hpassed, hterminal, hgone, hstore] at hcomplete
  simp [Store.Evicted, hfiles] at hcomplete

end Worker

end Dial9.Core
