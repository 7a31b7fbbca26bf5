/-
# How a drain ends

A caller who asks for a dump wants every segment of the window that the ring
held at that moment. A drain takes segments until nothing of any open window is
left, and then resolves the dumps that are due. This module says what a complete
dump is, and from which states a dump can leave to be resolved.
-/

import Dial9.Core.Manifest
import Dial9.Core.Stranded

namespace Dial9.Core

open Dial9.Lib

/-- The segment is not stored any more: its file is gone, or its slot was evicted. -/
def Store.Evicted (index : Nat) : Store → Prop
  | .disk d => index ∉ d.files
  | .mem m => index ∈ m.evicted

variable {entry : ActiveDump × Purpose × DrainResult}

variable {purpose : Purpose}

variable {w next : Worker}

namespace Worker

/-- The segment has passed every stage, for this dump or an earlier one, has failed
for good, has been reported gone, or has been evicted. -/
def Accounted (w : Worker) (index : Nat) : Prop :=
  index ∈ w.passedIndices ∨ index ∈ w.terminal ∨ index ∈ w.reportedGone ∨ w.store.Evicted index

/-- Every segment the ring held for the dump when it was registered is accounted for. -/
def Complete (w : Worker) (dump : ActiveDump) : Prop :=
  ∀ span ∈ dump.ring, dump.window.overlaps span.epochSecs span.sealSecs = true →
    w.Accounted span.index

/-- The drain was not interrupted, and the last one did not leave a segment for a
retry that never comes. -/
def Quiesced (purpose : Purpose) (result : DrainResult) : Prop :=
  result.interruption = none ∧ (purpose = .final → result.retryHold = [])

/-- Every dump that was resolved after such a drain is complete. -/
def CompleteDumps (w : Worker) : Prop :=
  ∀ entry ∈ w.resolved, Quiesced entry.2.1 entry.2.2 → w.Complete entry.1

/-- The directory can be listed, no file that is there fails to load or is reported
gone, and a slot has its creation time in its header. -/
def Orderly (w : Worker) (e : WorkerEvent) : Prop :=
  w.Kept e ∧ e ≠ .listFailed ∧
    ∀ slot, e = .sealSlot slot → w.pipeline.headerSecs slot.bytes ≠ none

/-! ## How a drain ends -/

/-- What a drain that has just ended may have ended with. -/
inductive Ended (w : Worker) : WorkerEvent → Purpose → DrainResult → Prop
  | interrupted {e : WorkerEvent} {purpose : Purpose} {result : DrainResult}
      (h : result.interruption ≠ none) : Ended w e purpose result
  | noDumps {e : WorkerEvent} {purpose : Purpose} {result : DrainResult} (h : w.dumps = []) :
      Ended w e purpose result
  | noStages {e : WorkerEvent} {purpose : Purpose} {result : DrainResult}
      (h : w.pipeline.stages = 0) : Ended w e purpose result
  | unlisted {purpose : Purpose} : Ended w .listFailed purpose .default
  | noFiles {e : WorkerEvent} {purpose : Purpose} {d : DiskStore} {onDisk : List Nat}
      (hphase : w.phase = .scanning purpose (.chosen onDisk [])) (hstore : w.store = .disk d) :
      Ended w e purpose .default
  | noSlots {e : WorkerEvent} {purpose : Purpose} {m : MemStore}
      (hphase : w.phase = .draining purpose) (hpurpose : forDumps purpose = true)
      (hstore : w.store = .mem m) (hnext : m.queue.next (w.takeWindows purpose) = none) :
      Ended w e purpose .default
  | passed {e : WorkerEvent} {purpose : Purpose} {stats : PassStats} {result : DrainResult}
      (hphase : w.phase = .waiting purpose [] stats)
      (hretry : result.retryHold = stats.retryDumpIds)
      (hdone : stats.retryDumpIds ≠ [] ∨ stats.matchedDone = 0) : Ended w e purpose result

/-- A dump that leaves the vector to be resolved is not held by a retry. -/
def NotHeld (w : Worker) (dump : ActiveDump) (result : DrainResult) : Prop :=
  result.retryHold = [] ∨ (w.store.takeIsExhaustive = true ∧ dump.id ∉ result.retryHold)

theorem resolved_drainDone {result : DrainResult}
    (h : entry ∈ (w.drainDone purpose result).resolved) :
    entry ∈ w.resolved ∨ (entry.1 ∈ w.dumps ∧ entry.2 = (purpose, result) ∧
      (Quiesced purpose result → NotHeld w entry.1 result)) := by
  cases purpose with
  | triggered =>
    unfold drainDone at h
    simp only at h
    split at h
    · rename_i hdeadline
      rcases List.mem_append.mp h with hnew | hold
      · rcases List.mem_map.mp hnew with ⟨dump, hdump, rfl⟩
        refine .inr ⟨?_, rfl, fun hquiesced => ?_⟩
        · exact (sweep_perm _ w.dumps).mem_iff.mp (List.mem_append_left _ hdump)
        · rw [hquiesced.1] at hdeadline
          cases hdeadline
      · exact .inl hold
    · rcases List.mem_append.mp h with hnew | hold
      · rcases List.mem_map.mp hnew with ⟨dump, hdump, rfl⟩
        refine .inr ⟨?_, rfl, fun hquiesced => ?_⟩
        · exact (sweep_perm _ w.dumps).mem_iff.mp (List.mem_append_left _ hdump)
        · have htest := test_of_mem_sweep hdump
          simp only [hquiesced.1, reduceCtorEq, if_false, Bool.and_eq_true, Bool.not_eq_true',
            Bool.and_eq_false_iff, Bool.or_eq_false_iff, Bool.not_eq_false',
            List.isEmpty_iff, List.contains_eq_mem, decide_eq_false_iff_not] at htest
          exact htest.2
      · exact .inl hold
  | final =>
    rcases List.mem_append.mp h with hnew | hold
    · rcases List.mem_map.mp hnew with ⟨dump, hdump, rfl⟩
      exact .inr ⟨hdump, rfl, fun hquiesced => .inl (hquiesced.2 rfl)⟩
    · exact .inl hold
  | continuous | finishing => exact .inl h

theorem resolved_passDone {stats : PassStats} (hpurpose : forDumps purpose = true)
    (h : entry ∈ (w.passDone purpose stats).resolved) :
    entry ∈ w.resolved ∨ (entry.1 ∈ w.dumps ∧ entry.2.1 = purpose ∧
      (Quiesced entry.2.1 entry.2.2 → NotHeld w entry.1 entry.2.2) ∧
        (entry.2.2.interruption ≠ none ∨ entry.2.2.retryHold = stats.retryDumpIds ∧
          (stats.retryDumpIds ≠ [] ∨ stats.matchedDone = 0))) := by
  unfold passDone at h
  split at h
  · cases hpurpose
  · cases hpurpose
  · split at h
    · rename_i hends
      rcases resolved_drainDone h with hold | ⟨hdump, hentry, hheld⟩
      · exact .inl hold
      · refine .inr ⟨hdump, by rw [hentry], by rwa [hentry], ?_⟩
        rw [hentry]
        simp only [Bool.or_eq_true, Bool.not_eq_true', List.isEmpty_eq_false_iff,
          Option.isSome_iff_ne_none] at hends
        rcases hends with hinterrupted | hretry
        · exact .inl hinterrupted
        · exact .inr ⟨rfl, .inl hretry⟩
    · rename_i hends
      simp only [Bool.or_eq_true, Bool.not_eq_true', not_or, Bool.not_eq_false,
        List.isEmpty_iff] at hends
      split at h
      · rename_i hdone
        rcases resolved_drainDone h with hold | ⟨hdump, hentry, hheld⟩
        · exact .inl hold
        · refine .inr ⟨hdump, by rw [hentry], by rwa [hentry], ?_⟩
          rw [hentry]
          exact .inr ⟨hends.2.symm, .inr hdone⟩
      · exact .inl h

theorem resolved_tookFiles {segments : List Taken}
    (hpurpose : forDumps purpose = true) (h : entry ∈ (w.tookFiles purpose segments).resolved) :
    entry ∈ w.resolved ∨ (entry.1 ∈ w.dumps ∧ entry.2.1 = purpose ∧
      (Quiesced entry.2.1 entry.2.2 → NotHeld w entry.1 entry.2.2) ∧
        (w.pipeline.stages = 0 ∨ segments = [] ∧ entry.2.2 = .default)) := by
  unfold tookFiles at h
  split at h
  · cases hpurpose
  · cases hpurpose
  · simp only at h
    split at h
    · rename_i hempty
      rcases resolved_drainDone h with hold | ⟨hdump, hentry, hheld⟩
      · exact .inl hold
      · refine .inr ⟨hdump, by rw [hentry], by rwa [hentry], .inr ⟨?_, by rw [hentry]⟩⟩
        exact List.isEmpty_iff.mp hempty
    · unfold processSegments at h
      split at h
      · rename_i hstages
        rcases resolved_passDone hpurpose h with hold | ⟨hdump, hentry, hheld, -⟩
        · exact .inl hold
        · exact .inr ⟨hdump, hentry, hheld, .inl hstages⟩
      · exact .inl h

/-- Every resolved dump was open when its drain ended. -/
theorem resolved_of_move {e : WorkerEvent} (hmode : inTriggered w.phase = true)
    (hmove : Move w e next) (h : entry ∈ next.resolved) :
    entry ∈ w.resolved ∨ (entry.1 ∈ w.dumps ∧ Ended w e entry.2.1 entry.2.2 ∧
      (Quiesced entry.2.1 entry.2.2 → NotHeld w entry.1 entry.2.2)) := by
  cases hmove with
  | drained result hphase hpurpose hresult =>
    rcases resolved_drainDone h with hold | ⟨hdump, hentry, hheld⟩
    · exact .inl hold
    · refine .inr ⟨hdump, ?_, by rwa [hentry]⟩
      rw [hentry]
      by_cases hnone : result.interruption = none
      · exact .noDumps (hresult hnone).1
      · exact .interrupted hnone
  | @tookMem purpose m hphase hstore =>
    rw [hphase] at hmode
    rcases resolved_tookFiles hmode h with hold | ⟨hdump, hentry, hheld, hends⟩
    · exact .inl hold
    · refine .inr ⟨hdump, ?_, ?_⟩
      · rcases hends with hstages | ⟨hnone, hdefault⟩
        · exact .noStages hstages
        · rw [hentry, hdefault]
          refine .noSlots hphase hmode hstore ?_
          rw [List.map_eq_nil_iff] at hnone
          cases hnext : m.queue.next (w.takeWindows purpose) with
          | none => rfl
          | some slot =>
            rw [hnext] at hnone
            cases hnone
      · intro hquiesced
        rcases hheld hquiesced with hnone | ⟨hexhaustive, -⟩
        · exact .inl hnone
        · cases hexhaustive
  | @listFailed purpose d hphase hstore =>
    rw [hphase] at hmode
    rcases resolved_tookFiles hmode h with hold | ⟨hdump, hentry, hheld, hends⟩
    · exact .inl hold
    · refine .inr ⟨hdump, ?_, ?_⟩
      · rcases hends with hstages | ⟨-, hdefault⟩
        · exact .noStages hstages
        · rw [hentry, hdefault]
          exact .unlisted
      · rw [NotHeld, hstore]
        exact hheld
  | @tookDisk purpose d onDisk segments sizeOf hphase hstore =>
    rw [hphase] at hmode
    rcases resolved_tookFiles hmode h with hold | ⟨hdump, hentry, hheld, hends⟩
    · exact .inl hold
    · refine .inr ⟨hdump, ?_, ?_⟩
      · rcases hends with hstages | ⟨hnone, hdefault⟩
        · exact .noStages hstages
        · rw [hentry, hdefault]
          rw [List.map_eq_nil_iff] at hnone
          exact .noFiles (hnone ▸ hphase) hstore
      · rw [NotHeld, hstore]
        exact hheld
  | passed hphase =>
    rw [hphase] at hmode
    rcases resolved_passDone hmode h with hold | ⟨hdump, hentry, hheld, hends⟩
    · exact .inl hold
    · refine .inr ⟨hdump, ?_, hheld⟩
      rcases hends with hinterrupted | ⟨hretry, hdone⟩
      · exact .interrupted hinterrupted
      · exact .passed (hentry ▸ hphase) hretry hdone
  | @interrupts purpose pending stats interruption hphase =>
    rw [hphase] at hmode
    have hends : entry ∈ w.resolved ∨ entry.1 ∈ w.dumps ∧ entry.2.2.interruption ≠ none := by
      unfold interrupt passDone at h
      split at h
      · cases hmode
      · cases hmode
      · rcases resolved_drainDone h with hold | ⟨hdump, hentry, -⟩
        · exact .inl hold
        · exact .inr ⟨hdump, by simp [hentry]⟩
    rcases hends with hold | ⟨hdump, hinterrupted⟩
    · exact .inl hold
    · refine .inr ⟨hdump, .interrupted hinterrupted, ?_⟩
      exact fun hquiesced => absurd hquiesced.1 hinterrupted
  | @inspects purpose taken pending stats epochSecs sealSecs hphase hepochs =>
    unfold inspect at h
    simp only at h
    split at h
    · cases taken <;> exact .inl h
    · exact .inl h
  | fails kind hphase =>
    unfold stageFailed at h
    split at h
    · exact .inl h
    · split at h
      · split at h
        · split at h
          · exact .inl h
          · exact .inl h
        · exact .inl h
      · exact .inl h
  | @resolvedAll stage manifest after hphase => cases after <;> exact .inl h
  | finalizes written hphase hstage =>
    rcases finalizeStage_fields w _ _ written with ⟨dumpKeys, manifests, hfields⟩
    rw [hfields] at h
    exact .inl h
  | answers finishedAt hphase hstage =>
    rcases sendReceipt_eq w _ _ finishedAt _ _ with ⟨message, hmessage, hsent⟩
    rw [hsent] at h
    exact .inl h
  | _ => exact .inl h

theorem dumps_of_deskMove {e : WorkerEvent} (hmove : DeskMove w e next) {dump : ActiveDump}
    (h : dump ∈ next.dumps) :
    (∃ old ∈ w.dumps, dump.id = old.id ∧ dump.window = old.window ∧ dump.ring = old.ring) ∨
      w.phase = .select ∧ dump.ring = w.store.ring := by
  have hsame : dump ∈ w.dumps → (∃ old ∈ w.dumps, dump.id = old.id ∧ dump.window = old.window ∧
      dump.ring = old.ring) ∨ w.phase = .select ∧ dump.ring = w.store.ring :=
    fun hold => .inl ⟨dump, hold, rfl, rfl, rfl⟩
  cases hmove with
  | ordinary hnext =>
    rcases hnext.dumps dump (List.mem_append_left _ h) with ⟨old, hold, hcount⟩
    exact .inl ⟨old, hold, hcount.id, hcount.window, hcount.ring⟩
  | rejects _ | closes _ | answers _ _ _ | dies _ _ _ _ => exact hsame h
  | succeeds key hphase =>
    rcases List.mem_mapIdx.mp h with ⟨i, hi, rfl⟩
    refine .inl ⟨w.dumps.get ⟨i, hi⟩, List.get_mem _ _, ?_⟩
    split
    · exact ⟨rfl, rfl, rfl⟩
    · exact ⟨rfl, rfl, rfl⟩
  | finalizes written hphase hstage =>
    rcases finalizeStage_fields w _ _ written with ⟨dumpKeys, manifests, hfields⟩
    rw [hfields] at h
    exact hsame h
  | registers elapsed hphase hchannel =>
    rcases List.mem_append.mp h with hold | hnew
    · exact hsame hold
    · rw [List.mem_singleton.mp hnew]
      exact .inr ⟨hphase, rfl⟩

end Worker

end Dial9.Core
