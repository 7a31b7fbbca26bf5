/-
# Claims that are not given back

On disk a segment is claimed while the worker has it, and stays claimed once it
has passed every stage. `process_segments` leaves a segment through many exits,
and each must see to the claim itself. Two of them do not: a load that fails
other than by a missing file, and a stage that reports the file missing while it
is there. A file claimed so is never dispensed again. This module shows that
these two are all: in a run without them every file either passed the pipeline
or is there for the next scan.
-/

import Dial9.Core.Hand

namespace Dial9.Core

open Dial9.Lib

variable {w next : Worker}

variable {e : WorkerEvent}

variable {d d' : DiskStore}

namespace Worker

/-- The segment has passed every stage of the pipeline. -/
def Passed (w : Worker) (index : Nat) : Prop :=
  w.pipeline.stages = 0 ∨ ∃ pass ∈ w.passes, pass.index = index

/-- Every file either passed the pipeline or is dispensed by a scan that starts
now. -/
def NoStrandedClaim (w : Worker) : Prop :=
  ∀ d, w.store = .disk d → inHand w.phase = [] → ∀ i ∈ d.files,
    w.Passed i ∨ i ∈ DiskFs.newSegments d.files d.fs.claimedIndices

/-- A load fails other than by a missing file, and a stage reports a missing
file, only where the file is gone. -/
def Kept (w : Worker) : WorkerEvent → Prop
  | .load .failed => ∀ d purpose index pending stats, w.store = .disk d →
      w.phase = .opening purpose (.disk index) pending stats → index ∉ d.files
  | .stage (.failed kind) => kind.alreadyDeleted = true → ∀ d purpose job stage pending stats,
      w.store = .disk d → w.phase = .staged purpose job stage pending stats →
        job.taken.index ∉ d.files
  | _ => True

/-! ## The invariant -/

/-- A claimed file passed the pipeline or is in hand. -/
def Held (w : Worker) (d : DiskStore) : Prop :=
  ∀ i ∈ d.fs.claimedIndices, i ∈ d.files → w.Passed i ∨ .disk i ∈ inHand w.phase

theorem noStrandedClaim_of_held (hstore : w.store = .disk d) (h : Held w d) :
    NoStrandedClaim w := by
  intro d' hstore' hhand i hfile
  obtain rfl : d = d' := Store.disk.inj (hstore.symm.trans hstore')
  rw [DiskFs.mem_newSegments]
  by_cases hclaimed : i ∈ d.fs.claimedIndices
  · rcases h i hclaimed hfile with hpassed | hmem
    · exact .inl hpassed
    · rw [hhand] at hmem
      simp at hmem
  · exact .inr ⟨hfile, hclaimed⟩

theorem Steered.passed_iff (h : Steered w next) (i : Nat) : next.Passed i ↔ w.Passed i := by
  unfold Passed
  rw [h.pipeline, h.passes]

/-! ## Steps -/

theorem held_outside (hdir : DirectoryInv w d) (h : Held w d)
    (hnext : w.outside e = some next) (hstore : next.store = .disk d') :
    Held next d' := by
  rcases outside_disk hdir.store hnext with ⟨hphase, hpipeline, hpasses, hor⟩
  have hkept : ∀ i, w.Passed i ∨ .disk i ∈ inHand w.phase →
      next.Passed i ∨ .disk i ∈ inHand next.phase := by
    intro i
    unfold Passed
    rw [hphase, hpipeline, hpasses]
    exact id
  rcases hor with hsame | ⟨span, hfresh, hsealed⟩ | ⟨index, hindex, hgone⟩ |
    ⟨index, hremoving, hdropped⟩
  · obtain rfl : d = d' := Store.disk.inj (hsame.symm.trans hstore)
    exact fun i hi hfile => hkept i (h i hi hfile)
  · obtain rfl := Store.disk.inj (hsealed.symm.trans hstore)
    intro i hi hfile
    rcases List.mem_append.mp hfile with hfile | hnew
    · exact hkept i (h i hi hfile)
    · rw [List.mem_singleton.mp hnew] at hi
      exact absurd (hdir.directory.claimedSealed _ hi) hfresh
  · obtain rfl := Store.disk.inj (hgone.symm.trans hstore)
    exact fun i hi hfile => hkept i (h i hi (List.mem_of_mem_erase hfile))
  · obtain rfl := Store.disk.inj (hdropped.symm.trans hstore)
    exact fun i hi hfile => hkept i (h i (DiskFs.mem_unclaim.mp hi).1 hfile)

theorem held_move (hdir : DirectoryInv w d) (h : Held w d) (hkept : w.Kept e)
    (hmove : HandMove w e next) (hstore : next.store = .disk d') :
    Held next d' := by
  have hhead : ∀ {index : Nat} {rest : List Taken}, inHand w.phase = .disk index :: rest →
      ∀ i ∈ d.fs.claimedIndices, i ∈ d.files → i ≠ index → w.Passed i ∨ .disk i ∈ rest := by
    intro index rest hhand i hi hfile hne
    rcases h i hi hfile with hpassed | hmem
    · exact .inl hpassed
    · rw [hhand, List.mem_cons, Taken.disk.injEq] at hmem
      exact .inr (hmem.resolve_left hne)
  cases hmove with
  | steers hsteered hhand =>
    obtain rfl := Store.disk.inj (hdir.store.symm.trans (hsteered.store.symm.trans hstore))
    intro i hi hfile
    rw [hhand, hsteered.passed_iff]
    exact h i hi hfile
  | lists hphase hdisk | chooses hphase hdisk =>
    obtain rfl := Store.disk.inj (hdir.store.symm.trans hstore)
    intro i hi hfile
    have hi' := h i hi hfile
    rw [hphase] at hi'
    exact hi'
  | unlisted hdisk hnone hsteered hhand =>
    obtain rfl := Store.disk.inj (hdir.store.symm.trans hdisk)
    obtain rfl := Store.disk.inj (hsteered.store.symm.trans hstore)
    intro i hi hfile
    rw [hhand, ← hnone, hsteered.passed_iff]
    exact h i hi hfile
  | takesDisk sizeOf hphase hdisk hsteered hhand =>
    obtain rfl := Store.disk.inj (hdir.store.symm.trans hdisk)
    obtain rfl := Store.disk.inj (hsteered.store.symm.trans hstore)
    intro i hi hfile
    rw [hhand, hsteered.passed_iff]
    rcases DiskFs.mem_recordClaims.mp hi with hnew | hold
    · split
      · rename_i hstages
        exact .inl (.inl hstages)
      · exact .inr (List.mem_map.mpr ⟨i, hnew, rfl⟩)
    · rcases h i hold.1 hfile with hpassed | hmem
      · exact .inl hpassed
      · rw [hphase] at hmem
        cases hmem
  | takesMem windows hmem hnone hsteered hhand =>
    rw [hdir.store] at hmem
    cases hmem
  | skips hhand houtside hsteered hrest =>
    have hdirectory := hdir.directory
    rw [hhand] at hdirectory
    rcases hdirectory.handClaimed _ List.mem_cons_self with ⟨index, rfl, -⟩
    rw [hdir.store] at hsteered
    obtain rfl := Store.disk.inj (hsteered.store.symm.trans hstore)
    intro i hi hfile
    rcases DiskFs.mem_unclaim.mp hi with ⟨hclaimed, hne⟩
    rw [hrest, hsteered.passed_iff]
    exact hhead hhand i hclaimed hfile hne
  | returns hhand hsteered hrest =>
    rw [hdir.store] at hsteered
    obtain rfl := Store.disk.inj (hsteered.store.symm.trans hstore)
    intro i hi hfile
    rcases DiskFs.mem_unclaim.mp hi with ⟨hclaimed, hne⟩
    rw [hrest, hsteered.passed_iff]
    exact hhead hhand i hclaimed hfile hne
  | putsBack hhand hback hsteered hrest =>
    rcases hdir.directory.handClaimed _ (hhand ▸ List.mem_cons_self) with ⟨index, hslot, -⟩
    cases hslot
  | @misses next taken rest outcome hhand hload hphase houtcome hsteered hrest =>
    obtain rfl := Store.disk.inj (hdir.store.symm.trans (hsteered.store.symm.trans hstore))
    rcases hdir.directory.handClaimed _ (hhand ▸ List.mem_cons_self) with ⟨index, rfl, -⟩
    rcases hphase with ⟨purpose, stats, hphase⟩
    have hgone : index ∉ d.files := by
      cases outcome with
      | loaded => exact absurd rfl houtcome
      | notFound => simpa [loadable, hdir.store] using hload
      | failed => exact hkept d _ _ _ _ hdir.store hphase
    intro i hi hfile
    rw [hrest, hsteered.passed_iff]
    exact hhead hhand i hi hfile (fun heq => hgone (heq ▸ hfile))
  | @passes e next pass purpose job stage rest stats hphase hindex hsteered hrest =>
    obtain rfl := Store.disk.inj (hdir.store.symm.trans (hsteered.store.symm.trans hstore))
    have hhand : inHand w.phase = job.taken :: rest := by
      rw [hphase]
      rfl
    rcases hdir.directory.handClaimed _ (hhand ▸ List.mem_cons_self) with ⟨index, htaken, -⟩
    rw [htaken] at hhand hindex
    intro i hi hfile
    rw [hrest, hsteered.passed_iff]
    by_cases heq : i = index
    · exact .inl (.inr ⟨pass, List.mem_cons_self, by rw [hindex, heq]; rfl⟩)
    · rcases hhead hhand i hi hfile heq with (hstages | ⟨old, hold, hi⟩) | hmem
      · exact .inl (.inl hstages)
      · exact .inl (.inr ⟨old, List.mem_cons_of_mem _ hold, hi⟩)
      · exact .inr hmem
  | fails hhand hsteered hrest =>
    rcases hdir.directory.handClaimed _ (hhand ▸ List.mem_cons_self) with ⟨index, rfl, -⟩
    rw [hdir.store] at hsteered
    obtain rfl := Store.disk.inj (hsteered.store.symm.trans hstore)
    intro i hi hfile
    rcases DiskFs.mem_unclaim.mp hi with ⟨hclaimed, hne⟩
    rw [hrest, hsteered.passed_iff]
    exact hhead hhand i hclaimed (List.mem_of_mem_erase hfile) hne
  | wearsOut hhand hsteered hrest =>
    rcases hdir.directory.handClaimed _ (hhand ▸ List.mem_cons_self) with ⟨index, hslot, -⟩
    cases hslot
  | @vanishes next purpose job stage rest stats kind hphase hkind hsteered hrest =>
    obtain rfl := Store.disk.inj (hdir.store.symm.trans (hsteered.store.symm.trans hstore))
    have hgone := hkept hkind d _ _ _ _ _ hdir.store hphase
    have hhand : inHand w.phase = job.taken :: rest := by
      rw [hphase]
      rfl
    rcases hdir.directory.handClaimed _ (hhand ▸ List.mem_cons_self) with ⟨index, htaken, -⟩
    rw [htaken] at hhand hgone
    intro i hi hfile
    rw [hrest, hsteered.passed_iff]
    exact hhead hhand i hi hfile (fun heq => hgone (heq ▸ hfile))
  | interrupts hhand hsteered hrest =>
    have hdirectory := hdir.directory
    rw [hhand] at hdirectory
    rcases hdirectory.releaseAll with ⟨released, hreleased, -, hfiles, -, hclaims⟩
    rw [hdir.store, hreleased] at hsteered
    obtain rfl := Store.disk.inj (hsteered.store.symm.trans hstore)
    intro i hi hfile
    rcases hclaims i hi with ⟨hclaimed, hout⟩
    rw [hfiles] at hfile
    rw [hsteered.passed_iff]
    rcases h i hclaimed hfile with hpassed | hmem
    · exact .inl hpassed
    · rw [hhand] at hmem
      exact absurd hmem hout

/-- The invariant of a run that keeps to the condition. -/
def HeldInv (w : Worker) : Prop := ∃ d, DirectoryInv w d ∧ Held w d

theorem heldInv_step (h : HeldInv w) (hkept : w.Kept e) (hnext : w.step e = some next) :
    HeldInv next := by
  rcases h with ⟨d, hdir, hheld⟩
  rcases directoryInv_step hdir hnext with ⟨d', hdir'⟩
  refine ⟨d', hdir', ?_⟩
  rcases step_cases hnext with houtside | hmove
  · exact held_outside hdir hheld houtside hdir'.store
  · exact held_move hdir hheld hkept (handMove_of_move hmove) hdir'.store

theorem heldInv_new (pipeline : Pipeline) {phase : Phase} (hresting : Resting phase)
    (hscan : scanOf phase = .idle) : HeldInv (new pipeline (.disk .empty) phase) :=
  ⟨_, directoryInv_new pipeline hresting hscan, by simp [Held, DiskStore.empty]⟩

/-- In every run of the continuous or the triggered worker over a directory in
which no load fails, and no stage reports a missing file, while the file is
there: whenever no segment is in hand, every file has passed every stage or is
dispensed by the next scan. -/
theorem noStrandedClaim_throughout (pipeline : Pipeline) {w : Worker}
    (hw : w = continuous pipeline (.disk .empty) ∨ w = triggered pipeline (.disk .empty))
    {events : List WorkerEvent} (h : Along step Kept w events) :
    Throughout step NoStrandedClaim w events := by
  have hinv : HeldInv w := by
    rcases hw with rfl | rfl
    · exact heldInv_new pipeline (.draining .continuous) rfl
    · exact heldInv_new pipeline .top rfl
  apply throughout_of_along _ _ hinv h
  · exact fun s e next hs hkept hnext => heldInv_step hs hkept hnext
  · rintro s ⟨d, hdir, hheld⟩
    exact noStrandedClaim_of_held hdir.store hheld

/-- A pipeline of one stage. -/
def oneStage : Pipeline := ⟨1, false, by decide, fun _ => none⟩

/-- A file is sealed and a scan dispenses it. -/
def dispensed : List WorkerEvent :=
  [.sealFile ⟨0, 0x51, 0x52⟩, .ready, .list, .readClaims, .recordClaims fun _ => 0, .ready]

/-- A transient failure, after which the file is dispensed again and passes. -/
def retriedOnce : List WorkerEvent :=
  dispensed ++ [.load .loaded, .inspected 0x51 0x52, .stage (.failed (.transfer "busy" true)),
    .proceed, .proceed, .wake, .ready, .list, .readClaims, .recordClaims fun _ => 0, .ready,
    .load .loaded, .inspected 0x51 0x52, .stage (.passed "")]

theorem noStrandedClaim_throughout_retriedOnce :
    (run step (continuous oneStage (.disk .empty)) retriedOnce).map
        (fun w => w.passes.map Pass.index) = some [0] ∧
      Throughout step NoStrandedClaim (continuous oneStage (.disk .empty)) retriedOnce := by
  refine ⟨by decide, noStrandedClaim_throughout oneStage (.inl rfl) (along_of_forall ?_ _)⟩
  simp [retriedOnce, dispensed, Kept, ProcessErrorKind.alreadyDeleted]

/-- No segment is processed twice, whether at once or one after the other. -/
def PassesOnce (w : Worker) : Prop := w.passedIndices.Nodup ∧ (inHand w.phase).Nodup

/-- In every run of either worker over either store, any failures included. -/
theorem passesOnce_throughout (pipeline : Pipeline) {store : Store} (hfresh : Fresh store)
    {w : Worker} (hw : w = continuous pipeline store ∨ w = triggered pipeline store)
    (events : List WorkerEvent) : Throughout step PassesOnce w events := by
  have hinv : StoreInv w := by
    rcases hw with rfl | rfl
    · exact storeInv_new pipeline hfresh (.draining .continuous) rfl
    · exact storeInv_new pipeline hfresh .top rfl
  apply throughout_of_along (fun _ _ _ h _ hnext => storeInv_step h hnext) _ hinv (along_true _ _)
  intro w h
  refine ⟨h.passedNodup, ?_⟩
  rcases h with ⟨d, hdisk⟩ | ⟨m, hmem⟩
  · exact hdisk.directory.handNodup
  · exact (List.nodup_append.mp (List.nodup_append.mp hmem.ring.nodup).2.1).1.of_map _

theorem passesOnce_throughout_retriedOnce :
    Throughout step PassesOnce (continuous oneStage (.disk .empty)) retriedOnce :=
  passesOnce_throughout oneStage .disk (.inl rfl) retriedOnce

/-- The load fails, with the file in place. -/
def loadFailedOnce : List WorkerEvent := dispensed ++ [.load .failed, .proceed]

/-- The file is then neither processed nor dispensed again. -/
theorem loadFailedOnce_strands :
    ¬ ∀ (pipeline : Pipeline) (events : List WorkerEvent),
      Throughout step NoStrandedClaim (continuous pipeline (.disk .empty)) events := by
  intro hall
  have hrun : ∃ w d, run step (continuous oneStage (.disk .empty)) loadFailedOnce = some w ∧
      w.store = .disk d ∧ inHand w.phase = [] ∧ w.pipeline.stages = 1 ∧ w.passes = [] ∧
        d.files = [0] ∧ d.fs.claimedIndices = [0] :=
    ⟨_, _, rfl, rfl, rfl, rfl, rfl, rfl, rfl⟩
  rcases hrun with ⟨w, d, hw, hstore, hhand, hstages, hpasses, hfiles, hclaimed⟩
  have hkept := (hall oneStage loadFailedOnce).last hw d hstore hhand 0 (by simp [hfiles])
  simp [Passed, hstages, hpasses, hfiles, hclaimed, DiskFs.newSegments] at hkept

end Worker

end Dial9.Core
