/-
# Segments in hand

Between a take and the end of its pass the worker has segments in hand. Each
leaves the hand in one of a few ways: it is given back, it passes, it fails for
good, or it is dropped because it is said to be gone. This module says which
moves do which, and what is always true of the directory and of the ring.
-/

import Dial9.Core.Worker

namespace Dial9.Core

open Dial9.Lib

def DiskStore.empty : DiskStore := ⟨.new, [], [], []⟩

variable {w next : Worker} {purpose : Purpose} {e : WorkerEvent} {rest hand' : List Taken}
  {index i : Nat}

variable {pending : List Taken} {stats : PassStats} {taken : Taken} {phase : Phase}
  {epochs : Nat × Nat}

variable {slot back : MemSegment}

namespace Worker

/-! ## What a move does to the segments -/

/-- A slot goes back to the ring with the epochs the worker has computed for it,
once it is seen to be outside every window or after a back-off. -/
def Returned (w : Worker) (slot back : MemSegment) : Prop :=
  (∃ purpose rest stats epochSecs sealSecs, w.phase = .opened purpose (.memory slot) rest stats ∧
    w.epochsKnown (.memory slot) epochSecs sealSecs = true ∧
      back = { slot with epochSecs, sealSecs }) ∨
  ∃ purpose job rest stats, w.phase = .sleeping purpose slot job rest stats ∧
    back = { slot with
      retryCount := slot.retryCount + 1
      epochSecs := job.epochSecs
      sealSecs := job.sealSecs }

theorem Returned.index_eq (h : w.Returned slot back) : back.index = slot.index := by
  rcases h with ⟨_, _, _, _, _, -, -, rfl⟩ | ⟨_, _, _, _, -, rfl⟩
  · rfl
  · rfl

/-- What a move does to the stored segments and to those in hand. -/
inductive HandMove (w : Worker) : WorkerEvent → Worker → Prop
  | steers {e : WorkerEvent} {next : Worker} (h : Steered w next)
      (hhand : inHand next.phase = inHand w.phase) : HandMove w e next
  | lists {purpose : Purpose} {d : DiskStore} (hphase : w.phase = .scanning purpose .idle)
      (hstore : w.store = .disk d) :
      HandMove w .list { w with phase := .scanning purpose (.listed d.files) }
  | unlisted {next : Worker} {d : DiskStore} (hstore : w.store = .disk d)
      (hhand : inHand w.phase = [])
      (h : Steered { w with store := .disk { d with fs := { d.fs with dropped := 0 } } } next)
      (hhand' : inHand next.phase = []) : HandMove w .listFailed next
  | chooses {purpose : Purpose} {d : DiskStore} {onDisk : List Nat}
      (hphase : w.phase = .scanning purpose (.listed onDisk)) (hstore : w.store = .disk d) :
      HandMove w .readClaims
        { w with
          phase := .scanning purpose
            (.chosen onDisk (DiskFs.newSegments onDisk d.fs.claimedIndices)) }
  | takesDisk {next : Worker} {purpose : Purpose} {d : DiskStore} {onDisk segments : List Nat}
      (sizeOf : Nat → Nat) (hphase : w.phase = .scanning purpose (.chosen onDisk segments))
      (hstore : w.store = .disk d)
      (h : Steered
        { w with store := .disk { d with fs := d.fs.recordClaims onDisk segments sizeOf } } next)
      (hhand : inHand next.phase = if w.pipeline.stages = 0 then [] else segments.map .disk) :
      HandMove w (.recordClaims sizeOf) next
  | takesMem {next : Worker} {m : MemStore} (windows : Option (List EpochWindow))
      (hstore : w.store = .mem m) (hhand : inHand w.phase = [])
      (h : Steered { w with store := .mem { m with queue := m.queue.pop windows } } next)
      (hhand' : inHand next.phase = if w.pipeline.stages = 0 then []
        else (m.queue.next windows).toList.map .memory) : HandMove w .ready next
  | skips {next : Worker} {taken : Taken} {rest : List Taken}
      (hhand : inHand w.phase = taken :: rest) (houtside : w.outsideCached taken = true)
      (h : Steered { w with store := w.store.releaseClaim taken.index } next)
      (hhand' : inHand next.phase = rest) : HandMove w .proceed next
  | returns {e : WorkerEvent} {next : Worker} {index : Nat} {rest : List Taken}
      (hhand : inHand w.phase = .disk index :: rest)
      (h : Steered { w with store := w.store.releaseClaim index } next)
      (hhand' : inHand next.phase = rest) : HandMove w e next
  | putsBack {e : WorkerEvent} {next : Worker} {slot back : MemSegment} {rest : List Taken}
      (hhand : inHand w.phase = .memory slot :: rest) (hback : w.Returned slot back)
      (h : Steered { w with store := w.store.releaseForRetry back } next)
      (hhand' : inHand next.phase = rest) : HandMove w e next
  | misses {next : Worker} {taken : Taken} {rest : List Taken} {outcome : LoadOutcome}
      (hhand : inHand w.phase = taken :: rest) (hload : w.loadable taken outcome = true)
      (hphase : ∃ purpose stats, w.phase = .opening purpose taken rest stats)
      (houtcome : outcome ≠ .loaded) (h : Steered w next) (hhand' : inHand next.phase = rest) :
      HandMove w (.load outcome) next
  | passes {e : WorkerEvent} {next : Worker} {pass : Pass} {purpose : Purpose} {job : Job}
      {stage : Nat} {rest : List Taken} {stats : PassStats}
      (hphase : w.phase = .staged purpose job stage rest stats)
      (hindex : pass.index = job.taken.index)
      (h : Steered { w with passes := pass :: w.passes } next)
      (hhand : inHand next.phase = rest) : HandMove w e next
  | fails {e : WorkerEvent} {next : Worker} {taken : Taken} {rest : List Taken}
      (hhand : inHand w.phase = taken :: rest)
      (h : Steered
        { w with
          store := w.store.removeSealed taken.index
          terminal := taken.index :: w.terminal } next)
      (hhand' : inHand next.phase = rest) : HandMove w e next
  | wearsOut {e : WorkerEvent} {next : Worker} {slot : MemSegment} {rest : List Taken}
      (hhand : inHand w.phase = .memory slot :: rest)
      (h : Steered { w with terminal := slot.index :: w.terminal } next)
      (hhand' : inHand next.phase = rest) : HandMove w e next
  | vanishes {next : Worker} {purpose : Purpose} {job : Job} {stage : Nat} {rest : List Taken}
      {stats : PassStats} {kind : ProcessErrorKind}
      (hphase : w.phase = .staged purpose job stage rest stats)
      (hkind : kind.alreadyDeleted = true)
      (h : Steered { w with reportedGone := job.taken.index :: w.reportedGone } next)
      (hhand : inHand next.phase = rest) : HandMove w (.stage (.failed kind)) next
  | interrupts {interruption : Interruption} {next : Worker} {hand : List Taken}
      (hhand : inHand w.phase = hand)
      (h : Steered { w with store := hand.foldl Store.releaseUnprocessed w.store } next)
      (hhand' : inHand next.phase = []) : HandMove w (.interrupted interruption) next

theorem handMove_remove {job : Job} {stage : Nat} (kind : ProcessErrorKind)
    (hphase : w.phase = .staged purpose job stage pending stats) :
    HandMove w e (w.remove purpose job kind pending stats) :=
  .fails (by rw [hphase]; rfl) ⟨rfl, rfl, rfl, rfl, rfl, rfl⟩ rfl

theorem handMove_stageFailed {job : Job} {stage : Nat} (kind : ProcessErrorKind)
    (hphase : w.phase = .staged purpose job stage pending stats) :
    HandMove w (.stage (.failed kind)) (w.stageFailed purpose job kind pending stats) := by
  unfold stageFailed
  split
  · exact .vanishes hphase ‹_› ⟨rfl, rfl, rfl, rfl, rfl, rfl⟩ rfl
  · split
    · split
      · rename_i slot htaken
        have hhand : inHand w.phase = .memory slot :: pending := by
          rw [hphase, ← htaken]
          rfl
        split
        · refine .wearsOut hhand ⟨rfl, rfl, rfl, ?_, rfl, rfl⟩ rfl
          simp [failDumps, htaken, Taken.index]
        · exact .steers ⟨rfl, rfl, rfl, rfl, rfl, rfl⟩ hhand.symm
      · rename_i index htaken
        have hhand : inHand w.phase = .disk index :: pending := by
          rw [hphase, ← htaken]
          rfl
        exact .returns hhand ⟨rfl, rfl, rfl, rfl, rfl, rfl⟩ rfl
    · exact handMove_remove kind hphase

theorem handMove_inspect {epochSecs sealSecs : Nat}
    (hphase : w.phase = .opened purpose taken pending stats)
    (hepochs : w.epochsKnown taken epochSecs sealSecs = true) :
    HandMove w e (w.inspect purpose taken epochSecs sealSecs pending stats) := by
  have hhand : inHand w.phase = taken :: pending := by
    rw [hphase]
    rfl
  unfold inspect
  simp only
  split
  · cases taken with
    | disk index => exact .returns hhand ⟨rfl, rfl, rfl, rfl, rfl, rfl⟩ rfl
    | memory slot =>
      exact .putsBack hhand (.inl ⟨_, _, _, _, _, hphase, hepochs, rfl⟩)
        ⟨rfl, rfl, rfl, rfl, rfl, rfl⟩ rfl
  · exact .steers ⟨rfl, rfl, rfl, rfl, rfl, rfl⟩ hhand.symm

theorem handMove_of_move (hmove : Move w e next) : HandMove w e next := by
  cases hmove with
  | turn rxOpen hfrom hto hscan hmode =>
    refine .steers ⟨rfl, rfl, rfl, rfl, rfl, ?_⟩ ?_
    · cases hto with
      | scanning purpose scan => exact hscan purpose scan rfl
      | _ => rfl
    · rw [inHand_of_resting hfrom, inHand_of_resting hto]
  | drained result hphase hpurpose hresult =>
    rcases steered_drainDone w _ result with ⟨hsteered, hhand⟩
    exact .steers hsteered (hhand.trans (by rw [hphase]; rfl))
  | @tookMem purpose m hphase hstore =>
    rcases steered_tookFiles
      { w with store := .mem { m with queue := m.queue.pop (w.takeWindows purpose) } } purpose
      ((m.queue.next (w.takeWindows purpose)).toList.map .memory) with ⟨hsteered, hhand⟩
    exact .takesMem _ hstore (by rw [hphase]; rfl) hsteered hhand
  | listed hphase hstore => exact .lists hphase hstore
  | @listFailed purpose d hphase hstore =>
    rcases steered_tookFiles
      { w with store := .disk { d with fs := { d.fs with dropped := 0 } } } purpose [] with
      ⟨hsteered, hhand⟩
    rw [ite_self] at hhand
    exact .unlisted hstore (by rw [hphase]; rfl) hsteered hhand
  | readClaims hphase hstore => exact .chooses hphase hstore
  | @tookDisk purpose d onDisk segments sizeOf hphase hstore =>
    rcases steered_tookFiles
      { w with store := .disk { d with fs := d.fs.recordClaims onDisk segments sizeOf } } purpose
      (segments.map .disk) with ⟨hsteered, hhand⟩
    exact .takesDisk sizeOf hphase hstore hsteered hhand
  | passed hphase =>
    rcases steered_passDone w _ _ with ⟨hsteered, hhand⟩
    exact .steers hsteered (hhand.trans (by rw [hphase]; rfl))
  | opens hphase => exact .steers ⟨rfl, rfl, rfl, rfl, rfl, rfl⟩ (by rw [hphase]; rfl)
  | @interrupts purpose pending stats interruption hphase =>
    rcases steered_passDone { w with store := pending.foldl Store.releaseUnprocessed w.store }
      purpose { stats with interruption := some interruption } with ⟨hsteered, hhand⟩
    exact .interrupts (by rw [hphase]; rfl) hsteered hhand
  | rejects hchannel hphase =>
    refine .steers ⟨rfl, rfl, rfl, rfl, rfl, ?_⟩ rfl
    rcases hphase with ⟨purpose, hphase⟩ | ⟨purpose, pending, stats, hphase⟩
    · exact congrArg scanOf hphase
    · exact congrArg scanOf hphase
  | hangsUp hphase =>
    rcases hphase with ⟨purpose, pending, stats, hphase⟩
    exact .steers ⟨rfl, rfl, rfl, rfl, rfl, congrArg scanOf hphase⟩ rfl
  | skips hphase houtside =>
    exact .skips (by rw [hphase]; rfl) houtside ⟨rfl, rfl, rfl, rfl, rfl, rfl⟩ rfl
  | loads hphase hload => exact .steers ⟨rfl, rfl, rfl, rfl, rfl, rfl⟩ (by rw [hphase]; rfl)
  | misses hphase hload houtcome =>
    exact .misses (by rw [hphase]; rfl) hload ⟨_, _, hphase⟩ houtcome
      ⟨rfl, rfl, rfl, rfl, rfl, rfl⟩ rfl
  | inspects hphase hepochs => exact handMove_inspect hphase hepochs
  | nextStage key hphase hstage =>
    exact .steers ⟨rfl, rfl, rfl, rfl, rfl, rfl⟩ (by rw [hphase]; rfl)
  | succeeds key hphase hstage =>
    exact .passes hphase rfl ⟨rfl, rfl, rfl, rfl, rfl, rfl⟩ rfl
  | fails kind hphase => exact handMove_stageFailed kind hphase
  | panics message hphase => exact handMove_remove _ hphase
  | retries hphase =>
    exact .putsBack (by rw [hphase]; rfl) (.inr ⟨_, _, _, _, hphase, rfl⟩)
      ⟨rfl, rfl, rfl, rfl, rfl, rfl⟩ rfl
  | @resolvedAll stage manifest after hphase =>
    cases after with
    | again | check | close => exact .steers ⟨rfl, rfl, rfl, rfl, rfl, rfl⟩ (by rw [hphase]; rfl)
  | finalizes written hphase hstage =>
    rcases finalizeStage_fields w _ _ written with ⟨dumpKeys, manifests, hfields⟩
    rw [hfields]
    exact .steers ⟨rfl, rfl, rfl, rfl, rfl, rfl⟩ (by rw [hphase]; rfl)
  | answers finishedAt hphase hstage =>
    rcases sendReceipt_eq w _ _ finishedAt _ _ with ⟨message, hmessage, hsent⟩
    rw [hsent]
    exact .steers ⟨rfl, rfl, rfl, rfl, rfl, rfl⟩ (by rw [hphase]; rfl)
  | registers elapsed hphase hchannel | dies hphase hchannel hpast =>
    exact .steers ⟨rfl, rfl, rfl, rfl, rfl, rfl⟩ (by rw [hphase]; rfl)

theorem pipeline_step (hnext : w.step e = some next) : next.pipeline = w.pipeline := by
  rcases step_cases hnext with houtside | hmove
  · rcases outside_cases houtside with ⟨req, -, -, rfl⟩ | ⟨_, _, _, _, _, rfl⟩
    · rfl
    · rfl
  · cases handMove_of_move hmove with
    | lists hphase hstore | chooses hphase hstore => rfl
    | steers hsteered | unlisted _ _ hsteered | takesDisk _ _ _ hsteered | takesMem _ _ _ hsteered
    | skips _ _ hsteered | returns _ hsteered | putsBack _ _ hsteered | misses _ _ _ _ hsteered
    | passes _ _ hsteered | fails _ hsteered | wearsOut _ hsteered | vanishes _ _ hsteered
    | interrupts _ hsteered => exact hsteered.pipeline

/-! ## The directory -/

/-- What is always true of the directory, its claims, a scan of it and the
segments in hand. `passed` are the segments that have passed every stage. -/
structure Directory (d : DiskStore) (hand : List Taken) (scan : Scan) (passed : List Nat) :
    Prop where
  sealedNodup : (d.sealed.map Span.index).Nodup
  filesSealed : ∀ i ∈ d.files, i ∈ d.sealed.map Span.index
  filesNodup : d.files.Nodup
  claimedSealed : ∀ i ∈ d.fs.claimedIndices, i ∈ d.sealed.map Span.index
  removingGone : ∀ i ∈ d.removing, i ∉ d.files ∧ i ∈ d.sealed.map Span.index
  listed : ∀ onDisk, scan = .listed onDisk → onDisk.Nodup ∧
    (∀ i ∈ onDisk, i ∈ d.sealed.map Span.index) ∧ ∀ i ∈ passed, i ∈ d.files → i ∈ onDisk
  chosen : ∀ onDisk segments, scan = .chosen onDisk segments → segments.Nodup ∧
    (∀ i ∈ segments, i ∈ d.sealed.map Span.index ∧ (i ∈ d.files → i ∉ passed)) ∧
      ∀ i ∈ passed, i ∈ d.files → i ∈ onDisk
  handNodup : hand.Nodup
  handClaimed : ∀ taken ∈ hand, ∃ i, taken = .disk i ∧ i ∈ d.sealed.map Span.index ∧
    (i ∈ d.files → i ∈ d.fs.claimedIndices ∧ i ∉ passed)
  passedNodup : passed.Nodup
  passedSealed : ∀ i ∈ passed, i ∈ d.sealed.map Span.index
  passedClaimed : ∀ i ∈ passed, i ∈ d.files → i ∈ d.fs.claimedIndices

section

variable {d : DiskStore} {hand : List Taken} {scan : Scan} {passed : List Nat}

theorem Directory.settle (h : Directory d hand scan passed) {d' : DiskStore}
    (hfiles : d'.files.Sublist d.files) (hsealed : d'.sealed = d.sealed)
    (hremoving : d'.removing = d.removing) (hclaims : d'.fs.claimedIndices ⊆ d.fs.claimedIndices)
    (hhand : hand'.Sublist hand)
    (hkept : ∀ i ∈ d'.files, i ∈ d.fs.claimedIndices → i ∈ passed ∨ .disk i ∈ hand' →
      i ∈ d'.fs.claimedIndices) : Directory d' hand' .idle passed where
  sealedNodup := by
    rw [hsealed]
    exact h.sealedNodup
  filesSealed := by
    rw [hsealed]
    exact fun i hi => h.filesSealed i (hfiles.subset hi)
  filesNodup := h.filesNodup.sublist hfiles
  claimedSealed := by
    rw [hsealed]
    exact fun i hi => h.claimedSealed i (hclaims hi)
  removingGone := by
    rw [hsealed, hremoving]
    intro i hi
    rcases h.removingGone i hi with ⟨hgone, hold⟩
    exact ⟨fun hfile => hgone (hfiles.subset hfile), hold⟩
  listed := by simp
  chosen := by simp
  handNodup := h.handNodup.sublist hhand
  handClaimed := by
    intro taken htaken
    rcases h.handClaimed taken (hhand.subset htaken) with ⟨i, rfl, hi, hclaimed⟩
    refine ⟨i, rfl, by rwa [hsealed], ?_⟩
    intro hfile
    rcases hclaimed (hfiles.subset hfile) with ⟨hclaimed, hpassed⟩
    exact ⟨hkept i hfile hclaimed (.inr htaken), hpassed⟩
  passedNodup := h.passedNodup
  passedSealed := by
    rw [hsealed]
    exact h.passedSealed
  passedClaimed := by
    intro i hi hfile
    exact hkept i hfile (h.passedClaimed i hi (hfiles.subset hfile)) (.inl hi)

theorem Directory.rehand (h : Directory d hand scan passed) (hhand : hand'.Sublist hand) :
    Directory d hand' .idle passed :=
  h.settle (.refl _) rfl rfl (fun _ hi => hi) hhand fun _ _ hclaimed _ => hclaimed

section

variable (h : Directory d (.disk index :: rest) scan passed)
include h

theorem Directory.head_apart
    (hfile : i ∈ d.files) (hi : i ∈ passed ∨ .disk i ∈ rest) : i ≠ index := by
  rintro rfl
  rcases hi with hpassed | hrest
  · rcases h.handClaimed _ List.mem_cons_self with ⟨j, hj, -, hclaimed⟩
    obtain rfl := Taken.disk.inj hj
    exact (hclaimed hfile).2 hpassed
  · exact (List.nodup_cons.mp h.handNodup).1 hrest

theorem Directory.unclaim : Directory { d with fs := d.fs.unclaim index } rest .idle passed := by
  refine h.settle (.refl _) rfl rfl ?_ (List.sublist_cons_self _ _) ?_
  · exact fun i hi => (DiskFs.mem_unclaim.mp hi).1
  · intro i hfile hclaimed hi
    exact DiskFs.mem_unclaim.mpr ⟨hclaimed, h.head_apart hfile hi⟩

theorem Directory.remove :
    Directory { d with files := d.files.erase index, fs := d.fs.unclaim index } rest .idle
      passed :=
  h.unclaim.settle List.erase_sublist rfl rfl (fun _ hi => hi) (.refl _)
    fun _ _ hclaimed _ => hclaimed

end

theorem Directory.releaseAll {hand : List Taken} (h : Directory d hand scan passed) :
    ∃ d', hand.foldl Store.releaseUnprocessed (.disk d) = .disk d' ∧
      Directory d' [] .idle passed ∧ d'.files = d.files ∧ d'.sealed = d.sealed ∧
        ∀ i ∈ d'.fs.claimedIndices, i ∈ d.fs.claimedIndices ∧ .disk i ∉ hand := by
  induction hand generalizing d scan with
  | nil => exact ⟨d, rfl, h.rehand (.refl _), rfl, rfl, fun i hi => ⟨hi, List.not_mem_nil⟩⟩
  | cons taken hand ih =>
    rcases h.handClaimed taken List.mem_cons_self with ⟨index, rfl, -⟩
    rcases ih h.unclaim with ⟨d', hreleased, hdirectory, hfiles, hsealed, hclaims⟩
    refine ⟨d', hreleased, hdirectory, hfiles, hsealed, ?_⟩
    intro i hi
    rcases hclaims i hi with ⟨hclaimed, hhand⟩
    rcases DiskFs.mem_unclaim.mp hclaimed with ⟨hclaimed, hne⟩
    refine ⟨hclaimed, ?_⟩
    rw [List.mem_cons, Taken.disk.injEq, not_or]
    exact ⟨hne, hhand⟩

theorem Directory.pass (h : Directory d (.disk index :: rest) scan passed) (hnew : index ∉ passed) :
    Directory d rest .idle (index :: passed) := by
  rcases h.handClaimed _ List.mem_cons_self with ⟨j, hj, hsealed, hclaimed⟩
  obtain rfl := Taken.disk.inj hj
  exact
    { h.rehand (List.sublist_cons_self _ _) with
      handClaimed := by
        intro taken htaken
        rcases h.handClaimed taken (List.mem_cons_of_mem _ htaken) with ⟨i, rfl, hi, hfile⟩
        refine ⟨i, rfl, hi, ?_⟩
        intro hi'
        rw [List.mem_cons, not_or]
        exact ⟨(hfile hi').1, h.head_apart hi' (.inr htaken), (hfile hi').2⟩
      listed := by simp
      chosen := by simp
      passedNodup := List.nodup_cons.mpr ⟨hnew, h.passedNodup⟩
      passedSealed := by
        intro i hi
        rcases List.mem_cons.mp hi with rfl | hi
        · exact hsealed
        · exact h.passedSealed i hi
      passedClaimed := by
        intro i hi hfile
        rcases List.mem_cons.mp hi with rfl | hi
        · exact (hclaimed hfile).1
        · exact h.passedClaimed i hi hfile }

theorem Directory.recordClaims {onDisk segments : List Nat}
    (h : Directory d [] (.chosen onDisk segments) passed) (sizeOf : Nat → Nat)
    (hhand : hand'.Sublist (segments.map .disk)) :
    Directory { d with fs := d.fs.recordClaims onDisk segments sizeOf } hand' .idle passed := by
  rcases h.chosen onDisk segments rfl with ⟨hnodup, hsegments, hpassed⟩
  exact
    { h with
      claimedSealed := by
        intro i hi
        rcases DiskFs.mem_recordClaims.mp hi with hnew | hold
        · exact (hsegments i hnew).1
        · exact h.claimedSealed i hold.1
      listed := by simp
      chosen := by simp
      handNodup := (hnodup.map fun _ _ heq => Taken.disk.inj heq).sublist hhand
      handClaimed := by
        intro taken htaken
        rcases List.mem_map.mp (hhand.subset htaken) with ⟨i, hi, rfl⟩
        refine ⟨i, rfl, (hsegments i hi).1, ?_⟩
        exact fun hfile => ⟨DiskFs.mem_recordClaims.mpr (.inl hi), (hsegments i hi).2 hfile⟩
      passedClaimed := by
        intro i hi hfile
        exact DiskFs.mem_recordClaims.mpr (.inr ⟨h.passedClaimed i hi hfile, hpassed i hi hfile⟩) }

section

variable (h : Directory d hand scan passed)
include h

theorem Directory.sealFile {span : Span}
    (hfresh : span.index ∉ d.sealed.map Span.index) :
    Directory { d with files := d.files ++ [span.index], sealed := span :: d.sealed } hand scan
      passed := by
  have hlater : ∀ i, i ∈ d.sealed.map Span.index →
      i ∈ (span :: d.sealed).map Span.index ∧ (i ∈ d.files ++ [span.index] → i ∈ d.files) := by
    intro i hi
    refine ⟨List.mem_cons_of_mem _ hi, ?_⟩
    intro hfile
    rcases List.mem_append.mp hfile with hfile | hnew
    · exact hfile
    · rw [List.mem_singleton.mp hnew] at hi
      exact absurd hi hfresh
  exact
    { sealedNodup := List.nodup_cons.mpr ⟨hfresh, h.sealedNodup⟩
      filesSealed := by
        intro i hi
        rcases List.mem_append.mp hi with hi | hi
        · exact List.mem_cons_of_mem _ (h.filesSealed i hi)
        · simp [List.mem_singleton.mp hi]
      filesNodup := by
        refine List.Nodup.append h.filesNodup (List.nodup_singleton _) ?_
        intro i hi hnew
        rw [List.mem_singleton.mp hnew] at hi
        exact hfresh (h.filesSealed _ hi)
      claimedSealed := fun i hi => (hlater i (h.claimedSealed i hi)).1
      removingGone := by
        intro i hi
        rcases h.removingGone i hi with ⟨hgone, hsealed⟩
        exact ⟨fun hfile => hgone ((hlater i hsealed).2 hfile), (hlater i hsealed).1⟩
      listed := by
        intro onDisk hscan
        rcases h.listed onDisk hscan with ⟨hnodup, hsealed, hpassed⟩
        refine ⟨hnodup, fun i hi => (hlater i (hsealed i hi)).1, ?_⟩
        exact fun i hi hfile => hpassed i hi ((hlater i (h.passedSealed i hi)).2 hfile)
      chosen := by
        intro onDisk segments hscan
        rcases h.chosen onDisk segments hscan with ⟨hnodup, hsegments, hpassed⟩
        refine ⟨hnodup, ?_, ?_⟩
        · intro i hi
          rcases hsegments i hi with ⟨hsealed, hunpassed⟩
          exact ⟨(hlater i hsealed).1, fun hfile => hunpassed ((hlater i hsealed).2 hfile)⟩
        · exact fun i hi hfile => hpassed i hi ((hlater i (h.passedSealed i hi)).2 hfile)
      handNodup := h.handNodup
      handClaimed := by
        intro taken htaken
        rcases h.handClaimed taken htaken with ⟨i, rfl, hi, hclaimed⟩
        exact ⟨i, rfl, (hlater i hi).1, fun hfile => hclaimed ((hlater i hi).2 hfile)⟩
      passedNodup := h.passedNodup
      passedSealed := fun i hi => (hlater i (h.passedSealed i hi)).1
      passedClaimed := fun i hi hfile =>
        h.passedClaimed i hi ((hlater i (h.passedSealed i hi)).2 hfile) }

theorem Directory.evictUnlink
    (hsealed : index ∈ d.sealed.map Span.index) :
    Directory { d with files := d.files.erase index, removing := index :: d.removing } hand scan
      passed :=
  { h with
    filesSealed := fun i hi => h.filesSealed i (List.mem_of_mem_erase hi)
    filesNodup := h.filesNodup.erase index
    removingGone := by
      intro i hi
      rcases List.mem_cons.mp hi with rfl | hi
      · exact ⟨fun hfile => (h.filesNodup.mem_erase_iff.mp hfile).1 rfl, hsealed⟩
      · rcases h.removingGone i hi with ⟨hgone, hold⟩
        exact ⟨fun hfile => hgone (List.mem_of_mem_erase hfile), hold⟩
    listed := by
      intro onDisk hscan
      rcases h.listed onDisk hscan with ⟨hnodup, hsealed, hpassed⟩
      exact ⟨hnodup, hsealed, fun i hi hfile => hpassed i hi (List.mem_of_mem_erase hfile)⟩
    chosen := by
      intro onDisk segments hscan
      rcases h.chosen onDisk segments hscan with ⟨hnodup, hsegments, hpassed⟩
      refine ⟨hnodup, ?_, fun i hi hfile => hpassed i hi (List.mem_of_mem_erase hfile)⟩
      intro i hi
      exact ⟨(hsegments i hi).1, fun hfile => (hsegments i hi).2 (List.mem_of_mem_erase hfile)⟩
    handClaimed := by
      intro taken htaken
      rcases h.handClaimed taken htaken with ⟨i, rfl, hi, hclaimed⟩
      exact ⟨i, rfl, hi, fun hfile => hclaimed (List.mem_of_mem_erase hfile)⟩
    passedClaimed := fun i hi hfile => h.passedClaimed i hi (List.mem_of_mem_erase hfile) }

theorem Directory.evictDropClaim
    (hremoving : index ∈ d.removing) :
    Directory
      { d with
        fs := { d.fs.unclaim index with dropped := d.fs.dropped + 1 }
        removing := d.removing.erase index } hand scan passed := by
  have hkept : ∀ i ∈ d.files, i ∈ d.fs.claimedIndices →
      i ∈ (d.fs.unclaim index).claimedIndices := by
    intro i hfile hclaimed
    refine DiskFs.mem_unclaim.mpr ⟨hclaimed, ?_⟩
    rintro rfl
    exact (h.removingGone i hremoving).1 hfile
  exact
    { h with
      claimedSealed := fun i hi => h.claimedSealed i (DiskFs.mem_unclaim.mp hi).1
      removingGone := fun i hi => h.removingGone i (List.mem_of_mem_erase hi)
      handClaimed := by
        intro taken htaken
        rcases h.handClaimed taken htaken with ⟨i, rfl, hi, hclaimed⟩
        refine ⟨i, rfl, hi, ?_⟩
        exact fun hfile => ⟨hkept i hfile (hclaimed hfile).1, (hclaimed hfile).2⟩
      passedClaimed := fun i hi hfile => hkept i hfile (h.passedClaimed i hi hfile) }

end

end

variable {d : DiskStore}

theorem outside_disk (hstore : w.store = .disk d) (h : w.outside e = some next) :
    next.phase = w.phase ∧ next.pipeline = w.pipeline ∧ next.passes = w.passes ∧
      (next.store = .disk d ∨
        (∃ span, span.index ∉ d.sealed.map Span.index ∧ next.store =
          .disk { d with files := d.files ++ [span.index], sealed := span :: d.sealed }) ∨
        (∃ index ∈ d.sealed.map Span.index, next.store =
          .disk { d with files := d.files.erase index, removing := index :: d.removing }) ∨
        ∃ index ∈ d.removing, next.store =
          .disk { d with
            fs := { d.fs.unclaim index with dropped := d.fs.dropped + 1 }
            removing := d.removing.erase index }) := by
  cases e with
  | sealFile span =>
    simp only [outside, hstore, sealDisk, Option.map_eq_some_iff,
      Option.ite_none_right_eq_some] at h
    rcases h with ⟨d', ⟨hnew, ⟨⟩⟩, rfl⟩
    refine ⟨rfl, rfl, rfl, .inr (.inl ⟨span, ?_, rfl⟩)⟩
    intro hmem
    rcases List.mem_map.mp hmem with ⟨old, hold, heq⟩
    have hlt := List.all_eq_true.mp hnew old hold
    simp [heq] at hlt
  | sealSlot slot =>
    simp only [outside, hstore] at h
    cases h
  | evictUnlink index =>
    simp only [outside, hstore, Option.ite_none_right_eq_some] at h
    rcases h with ⟨hsealed, ⟨⟩⟩
    refine ⟨rfl, rfl, rfl, .inr (.inr (.inl ⟨index, ?_, rfl⟩))⟩
    rcases List.any_eq_true.mp hsealed with ⟨span, hspan, heq⟩
    exact List.mem_map.mpr ⟨span, hspan, by simpa using heq⟩
  | evictDropClaim index =>
    simp only [outside, hstore, Option.ite_none_right_eq_some] at h
    rcases h with ⟨hremoving, ⟨⟩⟩
    exact ⟨rfl, rfl, rfl, .inr (.inr (.inr ⟨index, hremoving, rfl⟩))⟩
  | send _ | tick _ =>
    rcases Option.ite_none_right_eq_some.mp h with ⟨-, ⟨⟩⟩
    exact ⟨rfl, rfl, rfl, .inl hstore⟩
  | dropTriggers | cancel | finishWriting =>
    cases h
    exact ⟨rfl, rfl, rfl, .inl hstore⟩
  | _ => cases h

/-! ## Loaded segments -/

/-- The segment whose bytes the worker has. -/
def loadedOf : Phase → Option Taken
  | .opened _ taken _ _ => some taken
  | .staged _ job _ _ _ => some job.taken
  | .sleeping _ slot _ _ _ => some (.memory slot)
  | _ => none

/-- Phases between two passes. -/
inductive Between : Phase → Prop
  | resolving (todo : List ActiveDump) (after : After) : Between (.resolving todo 0 none after)
  | settled : Between .settled
  | draining (purpose : Purpose) : Between (.draining purpose)
  | exited : Between .exited

theorem between_drainDone (w : Worker) (purpose : Purpose) (result : DrainResult) :
    Between (w.drainDone purpose result).phase := by
  unfold drainDone
  split
  · split
    · exact .resolving _ _
    · exact .resolving _ _
  · exact .resolving _ _
  · exact .settled
  · exact .settled

theorem between_passDone (w : Worker) (purpose : Purpose) (stats : PassStats) :
    Between (w.passDone purpose stats).phase := by
  unfold passDone
  split
  · exact .settled
  · exact .draining _
  · split
    · exact between_drainDone _ _ _
    · split
      · exact between_drainDone _ _ _
      · exact .draining _

theorem tookFiles_phase (w : Worker) (purpose : Purpose) (segments : List Taken) :
    Between (w.tookFiles purpose segments).phase ∨
      (w.tookFiles purpose segments).phase = .waiting purpose segments .default ∧
        (w.tookFiles purpose segments).dumps = w.dumps ∧
          (forDumps purpose = true → segments ≠ []) := by
  have hprocess : ∀ v : Worker, Between (v.processSegments purpose segments).phase ∨
      (v.processSegments purpose segments).phase = .waiting purpose segments .default ∧
        (v.processSegments purpose segments).dumps = v.dumps := by
    intro v
    unfold processSegments
    split
    · exact .inl (between_passDone _ _ _)
    · exact .inr ⟨rfl, rfl⟩
  unfold tookFiles
  split
  · exact (hprocess w).imp id fun h => ⟨h.1, h.2, fun hpurpose => by cases hpurpose⟩
  · split
    · exact .inl .exited
    · exact (hprocess w).imp id fun h => ⟨h.1, h.2, fun hpurpose => by cases hpurpose⟩
  · simp only
    split
    · exact .inl (between_drainDone _ _ _)
    · rename_i hsome
      rw [List.isEmpty_iff] at hsome
      exact (hprocess _).imp id fun h => ⟨h.1, h.2, fun _ => hsome⟩

theorem loadedOf_of_between (h : Between phase) : loadedOf phase = none := by
  cases h <;> rfl

theorem loadedOf_tookFiles (w : Worker) (purpose : Purpose) (segments : List Taken) :
    loadedOf (w.tookFiles purpose segments).phase = none := by
  rcases tookFiles_phase w purpose segments with hbetween | ⟨hwaiting, -⟩
  · exact loadedOf_of_between hbetween
  · rw [hwaiting]
    rfl

theorem loaded_of_move (hmove : Move w e next) (h : loadedOf next.phase = some taken) :
    next.passes = w.passes ∧ (loadedOf w.phase = some taken ∨
      taken ∈ inHand w.phase ∧ w.loadable taken .loaded = true) := by
  cases hmove with
  | turn rxOpen hfrom hto hscan hmode => cases hto <;> cases h
  | drained result hphase hpurpose hresult =>
    rw [loadedOf_of_between (between_drainDone _ _ _)] at h
    cases h
  | tookMem _ _ | listFailed _ _ | tookDisk _ _ _ =>
    rw [loadedOf_tookFiles] at h
    cases h
  | passed hphase =>
    rw [loadedOf_of_between (between_passDone _ _ _)] at h
    cases h
  | interrupts interruption hphase =>
    rw [Worker.interrupt, loadedOf_of_between (between_passDone _ _ _)] at h
    cases h
  | rejects _ _ | hangsUp _ => exact ⟨rfl, .inl h⟩
  | loads hphase hload =>
    cases h
    exact ⟨rfl, .inr ⟨by rw [hphase]; exact List.mem_cons_self, hload⟩⟩
  | @inspects purpose taken' pending stats epochSecs sealSecs hphase hepochs =>
    unfold inspect at h ⊢
    simp only at h ⊢
    split at h
    · cases taken' <;> cases h
    · cases h
      rename_i hmatched
      rw [if_neg hmatched, hphase]
      exact ⟨rfl, .inl rfl⟩
  | nextStage key hphase hstage =>
    cases h
    exact ⟨rfl, .inl (by rw [hphase]; rfl)⟩
  | @fails purpose job stage pending stats kind hphase =>
    unfold stageFailed at h ⊢
    split at h
    · cases h
    · split at h
      · split at h
        · split at h
          · cases h
          · cases h
            rename_i hgone hretryable _ slot htaken hbudget
            rw [if_neg hgone, if_pos hretryable]
            simp [htaken, hbudget, hphase, loadedOf]
        · cases h
      · cases h
  | @resolvedAll stage manifest after hphase => cases after <;> cases h
  | answers finishedAt hphase hstage =>
    rcases sendReceipt_eq w _ _ finishedAt _ _ with ⟨message, hmessage, hsent⟩
    rw [hsent] at h
    cases h
  | _ => cases h

/-- The segments that have passed, newest first. -/
def passedIndices (w : Worker) : List Nat := w.passes.map Pass.index

/-- The invariant of a worker over a directory: what it has loaded has not passed. -/
structure DirectoryInv (w : Worker) (d : DiskStore) : Prop where
  store : w.store = .disk d
  directory : Directory d (inHand w.phase) (scanOf w.phase) w.passedIndices
  loaded : ∀ taken, loadedOf w.phase = some taken → taken.index ∉ w.passedIndices

theorem Steered.passedIndices_eq (h : Steered w next) : next.passedIndices = w.passedIndices := by
  unfold passedIndices
  rw [h.passes]

section

variable (h : DirectoryInv w d)
include h

theorem directory_handMove (hmove : HandMove w e next) :
    ∃ d', next.store = .disk d' ∧
      Directory d' (inHand next.phase) (scanOf next.phase) next.passedIndices := by
  have hstore := h.store
  have hdirectory := h.directory
  cases hmove with
  | steers hsteered hhand =>
    refine ⟨d, hsteered.store.trans hstore, ?_⟩
    rw [hhand, hsteered.scan, hsteered.passedIndices_eq]
    exact hdirectory.rehand (.refl _)
  | lists hphase hdisk =>
    obtain rfl : d = _ := Store.disk.inj (hstore.symm.trans hdisk)
    simp only [hphase, inHand] at hdirectory
    refine ⟨d, hstore, ?_⟩
    exact
      { hdirectory with
        listed := by
          rintro onDisk ⟨⟩
          exact ⟨hdirectory.filesNodup, hdirectory.filesSealed, fun _ _ hfile => hfile⟩
        chosen := by simp [scanOf] }
  | unlisted hdisk hnone hsteered hhand =>
    obtain rfl : d = _ := Store.disk.inj (hstore.symm.trans hdisk)
    refine ⟨_, hsteered.store, ?_⟩
    rw [hhand, hsteered.scan, hsteered.passedIndices_eq]
    rw [hnone] at hdirectory
    exact { hdirectory.rehand (.refl _) with }
  | chooses hphase hdisk =>
    obtain rfl : d = _ := Store.disk.inj (hstore.symm.trans hdisk)
    simp only [hphase, inHand] at hdirectory
    rcases hdirectory.listed _ rfl with ⟨hnodup, hsealed, hpassed⟩
    refine ⟨d, hstore, ?_⟩
    exact
      { hdirectory with
        listed := by simp [scanOf]
        chosen := by
          rintro onDisk segments ⟨⟩
          refine ⟨hnodup.filter _, ?_, hpassed⟩
          intro i hi
          rcases DiskFs.mem_newSegments.mp hi with ⟨honDisk, hunclaimed⟩
          refine ⟨hsealed i honDisk, ?_⟩
          exact fun hfile hmem => hunclaimed (hdirectory.passedClaimed i hmem hfile) }
  | takesDisk sizeOf hphase hdisk hsteered hhand =>
    obtain rfl : d = _ := Store.disk.inj (hstore.symm.trans hdisk)
    simp only [hphase, inHand] at hdirectory
    refine ⟨_, hsteered.store, ?_⟩
    rw [hhand, hsteered.scan, hsteered.passedIndices_eq]
    apply hdirectory.recordClaims sizeOf
    split
    · exact List.nil_sublist _
    · exact .refl _
  | takesMem windows hmem hnone hsteered hhand =>
    rw [hstore] at hmem
    cases hmem
  | skips hhead houtside hsteered hhand =>
    rw [hhead] at hdirectory
    rcases hdirectory.handClaimed _ List.mem_cons_self with ⟨index, rfl, -⟩
    rw [hstore] at hsteered
    refine ⟨_, hsteered.store, ?_⟩
    rw [hhand, hsteered.scan, hsteered.passedIndices_eq]
    exact hdirectory.unclaim
  | returns hhead hsteered hhand =>
    rw [hhead] at hdirectory
    rw [hstore] at hsteered
    refine ⟨_, hsteered.store, ?_⟩
    rw [hhand, hsteered.scan, hsteered.passedIndices_eq]
    exact hdirectory.unclaim
  | putsBack hhead hback hsteered hhand =>
    rw [hhead] at hdirectory
    rcases hdirectory.handClaimed _ List.mem_cons_self with ⟨index, hslot, -⟩
    cases hslot
  | misses hhead hload hphase houtcome hsteered hhand =>
    rw [hhead] at hdirectory
    refine ⟨d, hsteered.store.trans hstore, ?_⟩
    rw [hhand, hsteered.scan, hsteered.passedIndices_eq]
    exact hdirectory.rehand (List.sublist_cons_self _ _)
  | @passes e next pass purpose job stage rest stats hphase hindex hsteered hhand =>
    have hloaded := h.loaded job.taken (by rw [hphase]; rfl)
    simp only [hphase, inHand] at hdirectory
    rcases hdirectory.handClaimed _ List.mem_cons_self with ⟨index, htaken, -⟩
    rw [htaken] at hdirectory hindex hloaded
    refine ⟨d, hsteered.store.trans hstore, ?_⟩
    rw [hhand, hsteered.scan, hsteered.passedIndices_eq]
    show Directory d rest .idle (pass.index :: w.passedIndices)
    rw [hindex]
    exact hdirectory.pass hloaded
  | fails hhead hsteered hhand =>
    rw [hhead] at hdirectory
    rcases hdirectory.handClaimed _ List.mem_cons_self with ⟨index, rfl, -⟩
    rw [hstore] at hsteered
    refine ⟨_, hsteered.store, ?_⟩
    rw [hhand, hsteered.scan, hsteered.passedIndices_eq]
    exact hdirectory.remove
  | wearsOut hhead hsteered hhand =>
    rw [hhead] at hdirectory
    rcases hdirectory.handClaimed _ List.mem_cons_self with ⟨index, hslot, -⟩
    cases hslot
  | vanishes hphase hkind hsteered hhand =>
    simp only [hphase, inHand] at hdirectory
    refine ⟨d, hsteered.store.trans hstore, ?_⟩
    rw [hhand, hsteered.scan, hsteered.passedIndices_eq]
    exact hdirectory.rehand (List.sublist_cons_self _ _)
  | interrupts hhead hsteered hhand =>
    rw [hhead] at hdirectory
    rcases hdirectory.releaseAll with ⟨d', hreleased, hdirectory', -⟩
    rw [hstore, hreleased] at hsteered
    refine ⟨d', hsteered.store, ?_⟩
    rw [hhand, hsteered.scan, hsteered.passedIndices_eq]
    exact hdirectory'

theorem directoryInv_move (hmove : Move w e next) : ∃ d', DirectoryInv next d' := by
  rcases directory_handMove h (handMove_of_move hmove) with ⟨d', hstore, hdirectory⟩
  refine ⟨d', hstore, hdirectory, ?_⟩
  intro taken htaken
  rcases loaded_of_move hmove htaken with ⟨hpasses, hold | ⟨hhand, hload⟩⟩
  · rw [passedIndices, hpasses]
    exact h.loaded taken hold
  · rcases h.directory.handClaimed taken hhand with ⟨index, rfl, -, hclaimed⟩
    simp only [loadable, h.store, decide_eq_true_eq] at hload
    rw [passedIndices, hpasses]
    exact (hclaimed hload).2

theorem directoryInv_outside (hnext : w.outside e = some next) : ∃ d', DirectoryInv next d' := by
  rcases outside_disk h.store hnext with ⟨hphase, -, hpasses, hstore⟩
  have hindices : next.passedIndices = w.passedIndices := congrArg (List.map Pass.index) hpasses
  have hloaded : ∀ taken, loadedOf next.phase = some taken → taken.index ∉ next.passedIndices := by
    rw [hphase, hindices]
    exact h.loaded
  have hdirectory := h.directory
  rw [← hphase, ← hindices] at hdirectory
  rcases hstore with hsame | ⟨span, hfresh, hsealed⟩ | ⟨index, hindex, hgone⟩ |
    ⟨index, hremoving, hdropped⟩
  · exact ⟨d, hsame, hdirectory, hloaded⟩
  · exact ⟨_, hsealed, hdirectory.sealFile hfresh, hloaded⟩
  · exact ⟨_, hgone, hdirectory.evictUnlink hindex, hloaded⟩
  · exact ⟨_, hdropped, hdirectory.evictDropClaim hremoving, hloaded⟩

theorem directoryInv_step (hnext : w.step e = some next) : ∃ d', DirectoryInv next d' := by
  rcases step_cases hnext with houtside | hmove
  · exact directoryInv_outside h houtside
  · exact directoryInv_move h hmove

end

/-! ## The ring -/

/-- What is always true of the ring and the segments in hand: no index is in two
places. -/
structure Ring (m : MemStore) (hand : List Taken) (passed : List Nat) : Prop where
  counted : m.queue.Counted
  handMem : ∀ taken ∈ hand, ∃ slot, taken = .memory slot
  nodup : (m.queue.segments.map MemSegment.index ++ (hand.map Taken.index ++ passed)).Nodup
  known : ∀ i ∈ m.queue.segments.map MemSegment.index ++ (hand.map Taken.index ++ passed),
    i ∈ m.sealed

section

variable {m : MemStore} {hand : List Taken} {passed : List Nat}

theorem Ring.shift (h : Ring m hand passed) {queue : Queue} {passed' : List Nat}
    (hcounted : queue.Counted) (hmem : ∀ taken ∈ hand', ∃ slot, taken = .memory slot)
    (hsub : (queue.segments.map MemSegment.index ++ (hand'.map Taken.index ++ passed')).Subperm
      (m.queue.segments.map MemSegment.index ++ (hand.map Taken.index ++ passed))) :
    Ring { m with queue } hand' passed' where
  counted := hcounted
  handMem := hmem
  nodup := by
    rcases hsub with ⟨indices, hperm, hsublist⟩
    exact hperm.nodup_iff.mp (h.nodup.sublist hsublist)
  known := fun i hi => h.known i (hsub.subset hi)

theorem Ring.drop (h : Ring m (taken :: rest) passed) : Ring m rest passed := by
  refine h.shift h.counted (fun t ht => h.handMem t (List.mem_cons_of_mem _ ht)) ?_
  apply List.Sublist.subperm
  exact (((List.sublist_cons_self _ _).map _).append (.refl _)).append_left _

theorem Ring.pass (h : Ring m (taken :: rest) passed) : Ring m rest (taken.index :: passed) := by
  refine h.shift h.counted (fun t ht => h.handMem t (List.mem_cons_of_mem _ ht)) ?_
  apply List.Perm.subperm
  apply List.Perm.append_left
  exact List.perm_middle

theorem Ring.putBack (h : Ring m (.memory slot :: rest) passed) (hindex : back.index = slot.index) :
    Ring { m with queue := m.queue.putBack back } rest passed := by
  refine h.shift (Queue.counted_putBack h.counted back)
    (fun t ht => h.handMem t (List.mem_cons_of_mem _ ht)) ?_
  apply List.Perm.subperm
  simp only [Queue.putBack, List.map_cons, List.cons_append, hindex]
  exact List.perm_middle.symm

theorem Ring.releaseAll {hand : List Taken} (h : Ring m hand passed) :
    ∃ m', hand.foldl Store.releaseUnprocessed (.mem m) = .mem m' ∧ Ring m' [] passed := by
  induction hand generalizing m with
  | nil => exact ⟨m, rfl, h⟩
  | cons taken hand ih =>
    rcases h.handMem taken List.mem_cons_self with ⟨slot, rfl⟩
    exact ih (h.putBack rfl)

theorem Ring.take (h : Ring m [] passed) (windows : Option (List EpochWindow))
    (hhand : hand'.Sublist ((m.queue.next windows).toList.map .memory)) :
    Ring { m with queue := m.queue.pop windows } hand' passed := by
  have hmem : ∀ taken ∈ hand', ∃ slot, taken = .memory slot := by
    intro taken htaken
    rcases List.mem_map.mp (hhand.subset htaken) with ⟨slot, -, rfl⟩
    exact ⟨slot, rfl⟩
  apply h.shift (Queue.counted_pop h.counted windows) hmem
  cases hnext : m.queue.next windows with
  | none =>
    rw [hnext] at hhand
    obtain rfl := List.sublist_nil.mp hhand
    simp only [Queue.pop, hnext]
    exact List.Subperm.refl _
  | some slot =>
    rw [hnext] at hhand
    rcases Queue.next_eq_some hnext with ⟨before, after, hsplit, hpop, -, -⟩
    rw [hsplit, hpop]
    have hone : (hand'.map Taken.index).Sublist [slot.index] := hhand.map Taken.index
    have hfull : ((before ++ after).map MemSegment.index ++ ([slot.index] ++ passed)).Perm
        ((before ++ slot :: after).map MemSegment.index ++ ([] ++ passed)) := by
      simp only [List.map_append, List.map_cons, List.append_assoc, List.nil_append,
        List.cons_append]
      apply List.Perm.append_left
      exact List.perm_middle
    exact (((hone.append (.refl _)).append_left _).subperm).trans hfull.subperm

theorem Ring.sealSlot (h : Ring m hand passed) (hfresh : slot.index ∉ m.sealed)
    (evicted : List Nat) :
    Ring
      { m with
        queue := m.queue.push m.maxTotalSize slot
        sealed := slot.index :: m.sealed
        evicted } hand passed := by
  have hsplit := Queue.evicted_append h.counted m.maxTotalSize slot
  have hsublist : ((m.queue.push m.maxTotalSize slot).segments.map MemSegment.index ++
      (hand.map Taken.index ++ passed)).Sublist
        ((m.queue.segments ++ [slot]).map MemSegment.index ++
          (hand.map Taken.index ++ passed)) := by
    rw [← hsplit]
    exact ((List.sublist_append_right _ _).map _).append_right _
  have hperm : ((m.queue.segments ++ [slot]).map MemSegment.index ++
      (hand.map Taken.index ++ passed)).Perm (slot.index ::
        (m.queue.segments.map MemSegment.index ++ (hand.map Taken.index ++ passed))) := by
    simp only [List.map_append, List.map_cons, List.map_nil, List.append_assoc,
      List.cons_append, List.nil_append]
    exact List.perm_middle
  exact
    { counted := Queue.counted_push h.counted m.maxTotalSize slot
      handMem := h.handMem
      nodup := by
        refine (hperm.nodup_iff.mpr ?_).sublist hsublist
        exact List.nodup_cons.mpr ⟨fun hmem => hfresh (h.known _ hmem), h.nodup⟩
      known := by
        intro i hi
        rcases List.mem_cons.mp (hperm.mem_iff.mp (hsublist.subset hi)) with rfl | hi
        · exact List.mem_cons_self
        · exact List.mem_cons_of_mem _ (h.known i hi) }

end

/-- The invariant of a worker over a ring. Epochs are cached for files only. -/
structure RingInv (w : Worker) (m : MemStore) : Prop where
  store : w.store = .mem m
  ring : Ring m (inHand w.phase) w.passedIndices
  uncached : ∀ i, w.epochCache i = none

theorem epochCache_drainDone (w : Worker) (purpose : Purpose) (result : DrainResult) :
    (w.drainDone purpose result).epochCache = w.epochCache := by
  unfold drainDone
  split
  · split
    · rfl
    · rfl
  · rfl
  · rfl
  · rfl

theorem epochCache_passDone (w : Worker) (purpose : Purpose) (stats : PassStats) :
    (w.passDone purpose stats).epochCache = w.epochCache := by
  unfold passDone
  split
  · rfl
  · rfl
  · split
    · exact epochCache_drainDone _ _ _
    · split
      · exact epochCache_drainDone _ _ _
      · rfl

theorem epochCache_tookFiles {segments : List Taken}
    (h : (w.tookFiles purpose segments).epochCache i = some epochs) :
    w.epochCache i = some epochs := by
  have hprocess : ∀ w : Worker, (w.processSegments purpose segments).epochCache = w.epochCache := by
    intro w
    unfold processSegments
    split
    · exact epochCache_passDone _ _ _
    · rfl
  have hpruned : (if i ∈ segments.map Taken.index then w.epochCache i else none) = some epochs →
      w.epochCache i = some epochs := by
    split
    · exact id
    · exact fun hnone => by cases hnone
  unfold tookFiles at h
  split at h
  · rwa [hprocess] at h
  · split at h
    · exact h
    · rwa [hprocess] at h
  · simp only at h
    split at h
    · rw [epochCache_drainDone] at h
      exact hpruned h
    · rw [hprocess] at h
      exact hpruned h

theorem cached_of_forget {cache : Nat → Option (Nat × Nat)}
    (h : Function.update cache index none i = some epochs) : cache i = some epochs := by
  by_cases heq : i = index
  · rw [heq, Function.update_self] at h
    cases h
  · rwa [Function.update_of_ne heq] at h

theorem cached_of_move (hmove : Move w e next) (h : next.epochCache i = some epochs) :
    w.epochCache i = some epochs ∨ ((∃ purpose pending stats,
      w.phase = .opened purpose (.disk i) pending stats) ∧
        w.epochsKnown (.disk i) epochs.1 epochs.2 = true) := by
  cases hmove with
  | drained result hphase hpurpose hresult =>
    rw [epochCache_drainDone] at h
    exact .inl h
  | tookMem _ _ | listFailed _ _ | tookDisk _ _ _ =>
    have hold := epochCache_tookFiles h
    exact .inl hold
  | passed hphase =>
    rw [epochCache_passDone] at h
    exact .inl h
  | interrupts interruption hphase =>
    rw [Worker.interrupt, epochCache_passDone] at h
    exact .inl h
  | @inspects purpose taken pending stats epochSecs sealSecs hphase hepochs =>
    unfold inspect at h
    simp only at h
    split at h
    · cases taken with
      | disk index =>
        by_cases heq : i = index
        · subst heq
          simp only [Function.update_self, Option.some.injEq] at h
          rw [← h]
          exact .inr ⟨⟨_, _, _, hphase⟩, hepochs⟩
        · simp only [Function.update_of_ne heq] at h
          exact .inl h
      | memory slot => exact .inl h
    · exact .inl h
  | succeeds _ _ _ | panics _ _ => exact .inl (cached_of_forget h)
  | @fails purpose job stage pending stats kind hphase =>
    unfold stageFailed at h
    split at h
    · exact .inl (cached_of_forget h)
    · split at h
      · split at h
        · split at h
          · exact .inl h
          · exact .inl h
        · exact .inl h
      · exact .inl (cached_of_forget h)
  | @resolvedAll stage manifest after hphase => cases after <;> exact .inl h
  | finalizes written hphase hstage =>
    rcases finalizeStage_fields w _ _ written with ⟨dumpKeys, manifests, hfields⟩
    rw [hfields] at h
    exact .inl h
  | answers finishedAt hphase hstage =>
    rcases sendReceipt_eq w _ _ finishedAt _ _ with ⟨message, hmessage, hsent⟩
    rw [hsent] at h
    exact .inl h
  | _ => exact .inl h

variable {m : MemStore}

theorem ring_handMove (h : RingInv w m) (hmove : HandMove w e next) :
    ∃ m', next.store = .mem m' ∧ Ring m' (inHand next.phase) next.passedIndices := by
  have hstore := h.store
  have hring := h.ring
  cases hmove with
  | steers hsteered hhand =>
    refine ⟨m, hsteered.store.trans hstore, ?_⟩
    rw [hhand, hsteered.passedIndices_eq]
    exact hring
  | lists hphase hdisk | unlisted hdisk hnone hsteered hhand | chooses hphase hdisk
  | takesDisk sizeOf hphase hdisk hsteered hhand =>
    rw [hstore] at hdisk
    cases hdisk
  | takesMem windows hmem hnone hsteered hhand =>
    obtain rfl : m = _ := Store.mem.inj (hstore.symm.trans hmem)
    refine ⟨_, hsteered.store, ?_⟩
    rw [hhand, hsteered.passedIndices_eq]
    rw [hnone] at hring
    apply hring.take windows
    split
    · exact List.nil_sublist _
    · exact .refl _
  | skips hhead houtside hsteered hhand =>
    simp [outsideCached, h.uncached] at houtside
  | returns hhead hsteered hhand =>
    rw [hhead] at hring
    rcases hring.handMem _ List.mem_cons_self with ⟨slot, hslot⟩
    cases hslot
  | putsBack hhead hback hsteered hhand =>
    rw [hhead] at hring
    rw [hstore] at hsteered
    refine ⟨_, hsteered.store, ?_⟩
    rw [hhand, hsteered.passedIndices_eq]
    exact hring.putBack hback.index_eq
  | misses hhead hload hphase houtcome hsteered hhand =>
    rw [hhead] at hring
    refine ⟨m, hsteered.store.trans hstore, ?_⟩
    rw [hhand, hsteered.passedIndices_eq]
    exact hring.drop
  | @passes e next pass purpose job stage rest stats hphase hindex hsteered hhand =>
    simp only [hphase, inHand] at hring
    refine ⟨m, hsteered.store.trans hstore, ?_⟩
    rw [hhand, hsteered.passedIndices_eq]
    show Ring m rest (pass.index :: w.passedIndices)
    rw [hindex]
    exact hring.pass
  | fails hhead hsteered hhand =>
    rw [hhead] at hring
    rw [hstore] at hsteered
    refine ⟨m, hsteered.store, ?_⟩
    rw [hhand, hsteered.passedIndices_eq]
    exact hring.drop
  | wearsOut hhead hsteered hhand =>
    rw [hhead] at hring
    refine ⟨m, hsteered.store.trans hstore, ?_⟩
    rw [hhand, hsteered.passedIndices_eq]
    exact hring.drop
  | vanishes hphase hkind hsteered hhand =>
    simp only [hphase, inHand] at hring
    refine ⟨m, hsteered.store.trans hstore, ?_⟩
    rw [hhand, hsteered.passedIndices_eq]
    exact hring.drop
  | interrupts hhead hsteered hhand =>
    rw [hhead] at hring
    rcases hring.releaseAll with ⟨m', hreleased, hring'⟩
    rw [hstore, hreleased] at hsteered
    refine ⟨m', hsteered.store, ?_⟩
    rw [hhand, hsteered.passedIndices_eq]
    exact hring'

theorem ringInv_move (h : RingInv w m) (hmove : Move w e next) : ∃ m', RingInv next m' := by
  rcases ring_handMove h (handMove_of_move hmove) with ⟨m', hstore, hring⟩
  refine ⟨m', hstore, hring, ?_⟩
  intro i
  rw [Option.eq_none_iff_forall_ne_some]
  intro epochs hcached
  rcases cached_of_move hmove hcached with hold | ⟨⟨purpose, pending, stats, hphase⟩, -⟩
  · rw [h.uncached i] at hold
    cases hold
  · have hmem := h.ring.handMem (.disk i) (by rw [hphase]; exact List.mem_cons_self)
    rcases hmem with ⟨slot, hslot⟩
    cases hslot

theorem outside_mem (hstore : w.store = .mem m) (h : w.outside e = some next) :
    next.phase = w.phase ∧ next.pipeline = w.pipeline ∧ next.passes = w.passes ∧
      next.epochCache = w.epochCache ∧ (next.store = .mem m ∨
        ∃ slot, e = .sealSlot slot ∧ slot.index ∉ m.sealed ∧
          (w.pipeline.headerSecs slot.bytes).all (fun secs => secs == slot.epochSecs) = true ∧
          next.store = .mem { m with
            queue := m.queue.push m.maxTotalSize slot
            sealed := slot.index :: m.sealed
            evicted := (m.queue.evicted m.maxTotalSize slot.size).map MemSegment.index ++
              m.evicted }) := by
  cases e with
  | sealSlot slot =>
    simp only [outside, hstore, sealMem, Option.map_eq_some_iff,
      Option.ite_none_right_eq_some] at h
    rcases h with ⟨m', ⟨hnew, ⟨⟩⟩, rfl⟩
    simp only [Bool.and_eq_true, List.all_eq_true, decide_eq_true_eq] at hnew
    refine ⟨rfl, rfl, rfl, rfl, .inr ⟨slot, rfl, ?_, hnew.2, rfl⟩⟩
    exact fun hmem => Nat.lt_irrefl _ (hnew.1.1 _ hmem)
  | sealFile _ | evictUnlink _ | evictDropClaim _ =>
    simp only [outside, hstore] at h
    cases h
  | send _ | tick _ =>
    rcases Option.ite_none_right_eq_some.mp h with ⟨-, ⟨⟩⟩
    exact ⟨rfl, rfl, rfl, rfl, .inl hstore⟩
  | dropTriggers | cancel | finishWriting =>
    cases h
    exact ⟨rfl, rfl, rfl, rfl, .inl hstore⟩
  | _ => cases h

theorem ringInv_outside (h : RingInv w m) (hnext : w.outside e = some next) :
    ∃ m', RingInv next m' := by
  rcases outside_mem h.store hnext with ⟨hphase, -, hpasses, hcache, hstore⟩
  have hring := h.ring
  have huncached := h.uncached
  have hindices : next.passedIndices = w.passedIndices := congrArg (List.map Pass.index) hpasses
  rw [← hphase, ← hindices] at hring
  rw [← hcache] at huncached
  rcases hstore with hsame | ⟨slot, -, hfresh, -, hsealed⟩
  · exact ⟨m, hsame, hring, huncached⟩
  · exact ⟨_, hsealed, hring.sealSlot hfresh _, huncached⟩

theorem ringInv_step (h : RingInv w m) (hnext : w.step e = some next) : ∃ m', RingInv next m' := by
  rcases step_cases hnext with houtside | hmove
  · exact ringInv_outside h houtside
  · exact ringInv_move h hmove

/-! ## Either store -/

/-- A store in which nothing has been sealed. -/
inductive Fresh : Store → Prop
  | disk : Fresh (.disk .empty)
  | mem (maxTotalSize : Nat) : Fresh (.mem ⟨maxTotalSize, .new, [], []⟩)

/-- The invariant of either store. -/
def StoreInv (w : Worker) : Prop := (∃ d, DirectoryInv w d) ∨ ∃ m, RingInv w m

theorem storeInv_step (h : StoreInv w) (hnext : w.step e = some next) : StoreInv next := by
  rcases h with ⟨d, hdisk⟩ | ⟨m, hmem⟩
  · exact .inl (directoryInv_step hdisk hnext)
  · exact .inr (ringInv_step hmem hnext)

theorem directoryInv_new (pipeline : Pipeline) (hresting : Resting phase)
    (hscan : scanOf phase = .idle) : DirectoryInv (new pipeline (.disk .empty) phase) .empty where
  store := rfl
  directory := by
    show Directory .empty (inHand phase) (scanOf phase) []
    rw [inHand_of_resting hresting, hscan]
    constructor <;> simp [DiskStore.empty, DiskFs.new, DiskFs.claimedIndices]
  loaded := fun _ _ => List.not_mem_nil

theorem ringInv_new (pipeline : Pipeline) (maxTotalSize : Nat) (hresting : Resting phase) :
    RingInv (new pipeline (.mem ⟨maxTotalSize, .new, [], []⟩) phase)
      ⟨maxTotalSize, .new, [], []⟩ where
  store := rfl
  ring := by
    show Ring _ (inHand phase) []
    rw [inHand_of_resting hresting]
    constructor <;> simp [Queue.new, Queue.Counted]
  uncached := fun _ => rfl

theorem storeInv_new (pipeline : Pipeline) {store : Store} (hfresh : Fresh store)
    (hresting : Resting phase) (hscan : scanOf phase = .idle) :
    StoreInv (new pipeline store phase) := by
  cases hfresh with
  | disk => exact .inl ⟨_, directoryInv_new pipeline hresting hscan⟩
  | mem maxTotalSize => exact .inr ⟨_, ringInv_new pipeline maxTotalSize hresting⟩

theorem StoreInv.passedNodup (h : StoreInv w) : w.passedIndices.Nodup := by
  rcases h with ⟨d, hdisk⟩ | ⟨m, hmem⟩
  · exact hdisk.directory.passedNodup
  · exact (List.nodup_append.mp (List.nodup_append.mp hmem.ring.nodup).2.1).2.1

end Worker

end Dial9.Core
