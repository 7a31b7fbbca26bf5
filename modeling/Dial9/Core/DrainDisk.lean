/-
# Drains of the directory

On disk a pass has every file that is not claimed, and goes through all of them.
A file outside every window goes back, and its epochs are kept so that it need
not be read again. A file that is to be tried again goes back too, and holds its
dumps open. So at the end of a pass, every file of a dump that is not held has
passed or is gone.
-/

import Dial9.Core.Drain

namespace Dial9.Core

open Dial9.Lib

variable {w next : Worker} {d d' : DiskStore} {e : WorkerEvent} {stats : PassStats}
  {pending : List Taken} {purpose : Purpose}

variable {index epochSecs sealSecs stage : Nat}

namespace Worker

/-! ## Later states -/

/-- What is known of the directory later on. -/
structure Later (w next : Worker) (d d' : DiskStore) : Prop where
  sealed : d.sealed ⊆ d'.sealed
  files : ∀ i ∈ d.sealed.map Span.index, i ∈ d'.files → i ∈ d.files
  passed : w.passedIndices ⊆ next.passedIndices
  terminal : w.terminal ⊆ next.terminal
  reportedGone : w.reportedGone ⊆ next.reportedGone

theorem later_outside (hstore : w.store = .disk d) (hnext : w.outside e = some next)
    (hstore' : next.store = .disk d') : Later w next d d' := by
  have hlogs : next.passedIndices = w.passedIndices ∧ next.terminal = w.terminal ∧
      next.reportedGone = w.reportedGone := by
    rcases outside_cases hnext with ⟨req, -, -, rfl⟩ | ⟨_, _, _, _, _, rfl⟩
    · exact ⟨rfl, rfl, rfl⟩
    · exact ⟨rfl, rfl, rfl⟩
  rcases hlogs with ⟨hpassed, hterminal, hgone⟩
  have hlater : d.sealed ⊆ d'.sealed ∧
      ∀ i ∈ d.sealed.map Span.index, i ∈ d'.files → i ∈ d.files := by
    rcases outside_disk hstore hnext with ⟨-, -, -, hsame | ⟨span, hfresh, hsealed⟩ |
      ⟨index, -, hunlinked⟩ | ⟨index, -, hdropped⟩⟩
    · obtain rfl := Store.disk.inj (hsame.symm.trans hstore')
      exact ⟨fun _ hi => hi, fun _ _ hi => hi⟩
    · obtain rfl := Store.disk.inj (hsealed.symm.trans hstore')
      refine ⟨List.subset_cons_self _ _, ?_⟩
      intro i hi hfile
      rcases List.mem_append.mp hfile with hfile | hnew
      · exact hfile
      · rw [List.mem_singleton.mp hnew] at hi
        exact absurd hi hfresh
    · obtain rfl := Store.disk.inj (hunlinked.symm.trans hstore')
      exact ⟨fun _ hi => hi, fun _ _ hi => List.mem_of_mem_erase hi⟩
    · obtain rfl := Store.disk.inj (hdropped.symm.trans hstore')
      exact ⟨fun _ hi => hi, fun _ _ hi => hi⟩
  exact ⟨hlater.1, hlater.2, hpassed ▸ fun _ hi => hi, hterminal ▸ fun _ hi => hi,
    hgone ▸ fun _ hi => hi⟩

theorem Steered.later {w mid next : Worker} (h : Steered mid next)
    (hsealed : d'.sealed = d.sealed) (hfiles : d'.files ⊆ d.files)
    (hpassed : w.passedIndices ⊆ mid.passedIndices) (hterminal : w.terminal ⊆ mid.terminal)
    (hgone : w.reportedGone ⊆ mid.reportedGone) : Later w next d d' where
  sealed := by
    rw [hsealed]
    exact fun _ hi => hi
  files := fun i _ hi => hfiles hi
  passed := by
    rw [h.passedIndices_eq]
    exact hpassed
  terminal := by
    rw [h.terminal]
    exact hterminal
  reportedGone := by
    rw [h.reportedGone]
    exact hgone

theorem later_handMove (hdir : DirectoryInv w d) (hmove : HandMove w e next)
    (hstore' : next.store = .disk d') :
    Later w next d d' := by
  have hstore := hdir.store
  have hsame : ∀ {α : Type} (l : List α), l ⊆ l := fun _ _ hi => hi
  cases hmove with
  | steers hsteered hhand =>
    obtain rfl := Store.disk.inj (hstore.symm.trans (hsteered.store.symm.trans hstore'))
    exact hsteered.later rfl (hsame _) (hsame _) (hsame _) (hsame _)
  | lists _ _ | chooses _ _ =>
    obtain rfl := Store.disk.inj (hstore.symm.trans hstore')
    exact ⟨hsame _, fun _ _ hi => hi, hsame _, hsame _, hsame _⟩
  | unlisted hdisk hnone hsteered hhand =>
    obtain rfl := Store.disk.inj (hstore.symm.trans hdisk)
    obtain rfl := Store.disk.inj (hsteered.store.symm.trans hstore')
    exact hsteered.later rfl (hsame _) (hsame _) (hsame _) (hsame _)
  | takesDisk sizeOf hphase hdisk hsteered hhand =>
    obtain rfl := Store.disk.inj (hstore.symm.trans hdisk)
    obtain rfl := Store.disk.inj (hsteered.store.symm.trans hstore')
    exact hsteered.later rfl (hsame _) (hsame _) (hsame _) (hsame _)
  | takesMem windows hmem hnone hsteered hhand =>
    rw [hstore] at hmem
    cases hmem
  | skips hhead houtside hsteered hhand | returns hhead hsteered hhand =>
    rw [hstore] at hsteered
    obtain rfl := Store.disk.inj (hsteered.store.symm.trans hstore')
    exact hsteered.later rfl (hsame _) (hsame _) (hsame _) (hsame _)
  | putsBack hhead hback hsteered hhand =>
    rw [hstore] at hsteered
    obtain rfl := Store.disk.inj (hsteered.store.symm.trans hstore')
    exact hsteered.later rfl (hsame _) (hsame _) (hsame _) (hsame _)
  | misses hhead hload hphase houtcome hsteered hhand =>
    obtain rfl := Store.disk.inj (hstore.symm.trans (hsteered.store.symm.trans hstore'))
    exact hsteered.later rfl (hsame _) (hsame _) (hsame _) (hsame _)
  | passes hphase hindex hsteered hhand =>
    obtain rfl := Store.disk.inj (hstore.symm.trans (hsteered.store.symm.trans hstore'))
    exact hsteered.later rfl (hsame _) (List.subset_cons_self _ _) (hsame _) (hsame _)
  | fails hhead hsteered hhand =>
    rw [hstore] at hsteered
    obtain rfl := Store.disk.inj (hsteered.store.symm.trans hstore')
    exact hsteered.later rfl List.erase_subset (hsame _) (List.subset_cons_self _ _) (hsame _)
  | wearsOut hhead hsteered hhand =>
    obtain rfl := Store.disk.inj (hstore.symm.trans (hsteered.store.symm.trans hstore'))
    exact hsteered.later rfl (hsame _) (hsame _) (List.subset_cons_self _ _) (hsame _)
  | vanishes hphase hkind hsteered hhand =>
    obtain rfl := Store.disk.inj (hstore.symm.trans (hsteered.store.symm.trans hstore'))
    exact hsteered.later rfl (hsame _) (hsame _) (hsame _) (List.subset_cons_self _ _)
  | interrupts hhead hsteered hhand =>
    have hdirectory := hdir.directory
    rw [hhead] at hdirectory
    rcases hdirectory.releaseAll with ⟨released, hreleased, -, hfiles, hsealed, -⟩
    rw [hstore, hreleased] at hsteered
    obtain rfl := Store.disk.inj (hsteered.store.symm.trans hstore')
    exact hsteered.later hsealed (hfiles ▸ hsame _) (hsame _) (hsame _) (hsame _)

/-! ## Where files wait -/

/-- What a pass has counted so far. -/
def statsOf : Phase → Option PassStats
  | .waiting _ _ stats | .opening _ _ _ stats | .opened _ _ _ stats | .staged _ _ _ _ stats
  | .sleeping _ _ _ _ stats => some stats
  | _ => none

/-- Every file of an open dump that has not passed waits somewhere. -/
def Covered (w : Worker) (d : DiskStore) (waits : DumpId → Nat → Prop) : Prop :=
  ∀ dump ∈ w.dumps, ∀ span ∈ dump.ring,
    dump.window.overlaps span.epochSecs span.sealSecs = true → span.index ∈ d.files →
      span.index ∈ w.passedIndices ∨ waits dump.id span.index

/-- Where files wait: in the listing, among those a scan has chosen, and in a pass
in hand or, for a retry, in the directory. -/
structure Covering (w : Worker) (d : DiskStore) : Prop where
  listed : ∀ onDisk, scanOf w.phase = .listed onDisk → w.Covered d fun _ i => i ∈ onDisk
  chosen : ∀ onDisk segments, scanOf w.phase = .chosen onDisk segments →
    w.Covered d fun _ i => i ∈ segments
  inPass : ∀ stats, statsOf w.phase = some stats →
    w.Covered d fun id i => .disk i ∈ inHand w.phase ∨ id ∈ stats.retryDumpIds
  job : ∀ purpose job stage pending stats, w.phase = .staged purpose job stage pending stats →
    ∀ i, job.taken = .disk i → i ∈ d.files → ⟨i, job.epochSecs, job.sealSecs⟩ ∈ d.sealed

theorem Covering.of_idle (hscan : scanOf w.phase = .idle) (hstats : statsOf w.phase = none) :
    Covering w d where
  listed := by
    rw [hscan]
    exact fun _ h => by cases h
  chosen := by
    rw [hscan]
    exact fun _ _ h => by cases h
  inPass := by
    rw [hstats]
    exact fun _ h => by cases h
  job := by
    intro purpose job stage pending stats hphase
    rw [hphase] at hstats
    cases hstats

theorem statsOf_of_resting {phase : Phase} (h : Resting phase) : statsOf phase = none := by
  cases h <;> rfl

theorem Covering.of_between (h : Between w.phase) : Covering w d := by
  generalize hphase : w.phase = phase at h
  apply Covering.of_idle
  · rw [hphase]
    cases h <;> rfl
  · rw [hphase]
    cases h <;> rfl

theorem Covering.of_pass (hscan : scanOf w.phase = .idle) (hstats : statsOf w.phase = some stats)
    (hstaged : ∀ purpose job stage pending stats,
      w.phase ≠ .staged purpose job stage pending stats)
    (h : w.Covered d fun id i => .disk i ∈ inHand w.phase ∨ id ∈ stats.retryDumpIds) :
    Covering w d where
  listed := by
    rw [hscan]
    exact fun _ h => by cases h
  chosen := by
    rw [hscan]
    exact fun _ _ h => by cases h
  inPass := by
    rw [hstats]
    rintro _ ⟨⟩
    exact h
  job := fun purpose job stage pending stats hphase => absurd hphase (hstaged _ _ _ _ _)

/-- The open dumps are the old ones, and what they wait for still waits. -/
theorem Covered.carry {waits waits' : DumpId → Nat → Prop} (h : w.Covered d waits)
    (hdumps : ∀ dump ∈ next.dumps, ∃ old ∈ w.dumps, dump.id = old.id ∧
      dump.window = old.window ∧ dump.ring = old.ring)
    (hsealed : ∀ dump ∈ w.dumps, ∀ span ∈ dump.ring, span ∈ d.sealed) (hlater : Later w next d d')
    (hwaits : ∀ dump ∈ w.dumps, ∀ span ∈ dump.ring,
      dump.window.overlaps span.epochSecs span.sealSecs = true → span.index ∈ d'.files →
        waits dump.id span.index → span.index ∈ next.passedIndices ∨ waits' dump.id span.index) :
    next.Covered d' waits' := by
  intro dump hdump span hspan hoverlaps hfile
  rcases hdumps dump hdump with ⟨old, hold, hid, hwindow, hring⟩
  rw [hring] at hspan
  rw [hwindow] at hoverlaps
  have hindex : span.index ∈ d.sealed.map Span.index :=
    List.mem_map.mpr ⟨span, hsealed old hold span hspan, rfl⟩
  rcases h old hold span hspan hoverlaps (hlater.files _ hindex hfile) with hpassed | hwait
  · exact .inl (hlater.passed hpassed)
  · rw [hid]
    exact hwaits old hold span hspan hoverlaps hfile hwait

/-- The invariant of a worker over a directory that keeps dumps complete. -/
structure DiskDrain (w : Worker) (d : DiskStore) : Prop where
  ringSealed : ∀ dump ∈ w.dumps, ∀ span ∈ dump.ring, span ∈ d.sealed
  resolvedSealed : ∀ entry ∈ w.resolved, ∀ span ∈ entry.1.ring, span ∈ d.sealed
  cached : ∀ i epochs, w.epochCache i = some epochs → i ∈ d.sealed.map Span.index ∧
    (i ∈ d.files → ⟨i, epochs.1, epochs.2⟩ ∈ d.sealed)
  covering : Covering w d
  complete : w.CompleteDumps

theorem Directory.span_unique {hand : List Taken} {scan : Scan} {passed : List Nat}
    (h : Directory d hand scan passed) {span other : Span} (hspan : span ∈ d.sealed)
    (hother : other ∈ d.sealed) (hindex : span.index = other.index) :
    span = other :=
  List.inj_on_of_nodup_map h.sealedNodup hspan hother hindex

theorem Later.accounted (h : Later w next d d') (hstore : w.store = .disk d)
    (hstore' : next.store = .disk d') {i : Nat} (hi : i ∈ d.sealed.map Span.index)
    (haccounted : w.Accounted i) : next.Accounted i := by
  rcases haccounted with hpassed | hterminal | hgone | hevicted
  · exact .inl (h.passed hpassed)
  · exact .inr (.inl (h.terminal hterminal))
  · exact .inr (.inr (.inl (h.reportedGone hgone)))
  · refine .inr (.inr (.inr ?_))
    rw [hstore] at hevicted
    rw [hstore']
    exact fun hfile => hevicted (h.files i hi hfile)

/-! ## A pass -/

section

variable (h : DiskDrain w d)
include h

section

variable
  (hdumps : ∀ dump ∈ next.dumps, ∃ old ∈ w.dumps,
    dump.id = old.id ∧ dump.window = old.window ∧ dump.ring = old.ring)
  (hlater : Later w next d d')
include hdumps hlater

theorem DiskDrain.leave {stats stats' : PassStats} (hhand : inHand w.phase = .disk index :: pending)
    (hstats : statsOf w.phase = some stats) (hnext : next.phase = .waiting purpose pending stats')
    (hretry : stats.retryDumpIds ⊆ stats'.retryDumpIds)
    (hleft : ∀ dump ∈ w.dumps, ∀ span ∈ dump.ring, span.index = index →
      dump.window.overlaps span.epochSecs span.sealSecs = true → index ∈ d'.files →
        index ∈ next.passedIndices ∨ dump.id ∈ stats'.retryDumpIds) : Covering next d' := by
  apply @Covering.of_pass next d' stats'
  · rw [hnext]
    rfl
  · rw [hnext]
    rfl
  · simp [hnext]
  · refine (h.covering.inPass stats hstats).carry hdumps h.ringSealed hlater ?_
    rw [hhand, hnext]
    rintro dump hdump span hspan hoverlaps hfile (hwaits | hretried)
    · rcases List.mem_cons.mp hwaits with heq | hrest
      · have hindex := Taken.disk.inj heq
        rcases hleft dump hdump span hspan hindex hoverlaps (hindex ▸ hfile) with hpassed | hheld
        · exact .inl (hindex ▸ hpassed)
        · exact .inr (.inr hheld)
      · exact .inr (.inl hrest)
    · exact .inr (.inr (hretry hretried))

theorem DiskDrain.stay {stats stats' : PassStats} (hhand : inHand next.phase = inHand w.phase)
    (hstats : statsOf w.phase = some stats) (hretry : stats'.retryDumpIds = stats.retryDumpIds) :
    next.Covered d' fun id i => .disk i ∈ inHand next.phase ∨ id ∈ stats'.retryDumpIds := by
  refine (h.covering.inPass stats hstats).carry hdumps h.ringSealed hlater ?_
  rw [hhand, hretry]
  exact fun _ _ _ _ _ _ hwaits => .inr hwaits

end

section

variable (hdir : DirectoryInv w d)
include hdir

theorem DiskDrain.not_owed (hknown : index ∈ d.files → ⟨index, epochSecs, sealSecs⟩ ∈ d.sealed)
    (houtside : ∀ dump ∈ w.dumps, dump.window.overlaps epochSecs sealSecs = false)
    {dump : ActiveDump} (hdump : dump ∈ w.dumps) {span : Span} (hspan : span ∈ dump.ring)
    (hindex : span.index = index)
    (hoverlaps : dump.window.overlaps span.epochSecs span.sealSecs = true) :
    index ∉ d.files := by
  intro hfile
  have heq := hdir.directory.span_unique (h.ringSealed dump hdump span hspan) (hknown hfile) hindex
  rw [heq] at hoverlaps
  rw [houtside dump hdump] at hoverlaps
  cases hoverlaps

theorem covering_inspect {taken : Taken} (hphase : w.phase = .opened purpose taken pending stats)
    (hepochs : w.epochsKnown taken epochSecs sealSecs = true)
    (hdumps : ∀ dump ∈ (w.inspect purpose taken epochSecs sealSecs pending stats).dumps,
      ∃ old ∈ w.dumps, dump.id = old.id ∧ dump.window = old.window ∧ dump.ring = old.ring)
    (hlater : Later w (w.inspect purpose taken epochSecs sealSecs pending stats) d d') :
    Covering (w.inspect purpose taken epochSecs sealSecs pending stats) d' := by
  have hhand : inHand w.phase = taken :: pending := by
    rw [hphase]
    rfl
  rcases hdir.directory.handClaimed taken (hhand ▸ List.mem_cons_self) with ⟨index, rfl, hindex, -⟩
  have hstats : statsOf w.phase = some stats := by
    rw [hphase]
    rfl
  have hknown : index ∈ d.files → ⟨index, epochSecs, sealSecs⟩ ∈ d.sealed := by
    intro hfile
    simpa [epochsKnown, hdir.store, hfile] using hepochs
  by_cases hmatched : (!w.dumps.isEmpty && (matchedDumps w.dumps epochSecs sealSecs).isEmpty) = true
  · have houtside : ∀ dump ∈ w.dumps, dump.window.overlaps epochSecs sealSecs = false := by
      rw [Bool.and_eq_true, matchedDumps_isEmpty, List.isEmpty_iff] at hmatched
      simpa using List.filter_eq_nil_iff.mp hmatched.2
    refine h.leave hdumps hlater hhand hstats (by rw [inspect, if_pos hmatched]) (fun _ hi => hi) ?_
    intro dump hdump span hspan heq hoverlaps hfile
    exact absurd (hlater.files index hindex hfile)
      (h.not_owed hdir hknown houtside hdump hspan heq hoverlaps)
  · have hstay := @DiskDrain.stay w _ d d' h hdumps hlater stats
      { stats with enteredPipeline := stats.enteredPipeline + 1 }
      (by rw [inspect, if_neg hmatched, hhand]; rfl) hstats rfl
    rw [inspect, if_neg hmatched] at hstay hlater ⊢
    exact
      { listed := by simp [scanOf]
        chosen := by simp [scanOf]
        inPass := by
          rintro _ ⟨⟩
          exact hstay
        job := by
          intro purpose' job stage pending' stats' hstaged i htaken hfile
          rw [Phase.staged.injEq] at hstaged
          rcases hstaged with ⟨-, rfl, -, -, -⟩
          obtain rfl := Taken.disk.inj htaken
          exact hlater.sealed (hknown (hlater.files index hindex hfile)) }

theorem covering_remove {job : Job}
    (hphase : w.phase = .staged purpose job stage pending stats) (kind : ProcessErrorKind)
    (hdumps : ∀ dump ∈ (w.remove purpose job kind pending stats).dumps,
      ∃ old ∈ w.dumps, dump.id = old.id ∧ dump.window = old.window ∧ dump.ring = old.ring)
    (hlater : Later w (w.remove purpose job kind pending stats) d d')
    (hstore' : (w.remove purpose job kind pending stats).store = .disk d') :
    Covering (w.remove purpose job kind pending stats) d' := by
  have hhand : inHand w.phase = job.taken :: pending := by
    rw [hphase]
    rfl
  rcases hdir.directory.handClaimed _ (hhand ▸ List.mem_cons_self) with ⟨index, htaken, -⟩
  rw [htaken] at hhand
  have hfiles : d'.files = d.files.erase index := by
    simp only [remove, hdir.store, htaken, Store.removeSealed, Taken.index, Store.disk.injEq]
      at hstore'
    rw [← hstore']
  refine h.leave hdumps hlater hhand (by rw [hphase]; rfl) rfl ?_ ?_
  · unfold doneFor
    split <;> exact fun _ hi => hi
  · intro dump hdump span hspan heq hoverlaps hfile
    rw [hfiles] at hfile
    exact absurd rfl (hdir.directory.filesNodup.mem_erase_iff.mp hfile).1

theorem covering_stageFailed {job : Job} (hcount : CountInv w)
    (hphase : w.phase = .staged purpose job stage pending stats) {kind : ProcessErrorKind}
    (hkept : w.Kept (.stage (.failed kind)))
    (hdumps : ∀ dump ∈ (w.stageFailed purpose job kind pending stats).dumps,
      ∃ old ∈ w.dumps, dump.id = old.id ∧ dump.window = old.window ∧ dump.ring = old.ring)
    (hlater : Later w (w.stageFailed purpose job kind pending stats) d d')
    (hstore' : (w.stageFailed purpose job kind pending stats).store = .disk d') :
    Covering (w.stageFailed purpose job kind pending stats) d' := by
  have hhand : inHand w.phase = job.taken :: pending := by
    rw [hphase]
    rfl
  rcases hdir.directory.handClaimed _ (hhand ▸ List.mem_cons_self) with
    ⟨index, htaken, hindex, -⟩
  rw [htaken] at hhand
  have hstats : statsOf w.phase = some stats := by
    rw [hphase]
    rfl
  unfold stageFailed at hdumps hlater hstore' ⊢
  by_cases hdeleted : kind.alreadyDeleted = true
  · -- the file is said to be gone, and it is
    rw [if_pos hdeleted] at hdumps hlater hstore' ⊢
    refine h.leave hdumps hlater hhand hstats rfl ?_ ?_
    · unfold doneFor
      split <;> exact fun _ hi => hi
    · intro dump hdump span hspan heq hoverlaps hfile
      have hgone := hkept hdeleted d _ _ _ _ _ hdir.store hphase
      rw [htaken] at hgone
      exact absurd (hlater.files index hindex hfile) hgone
  · rw [if_neg hdeleted] at hdumps hlater hstore' ⊢
    by_cases hretryable : kind.retryable = true
    · -- it goes back, and its dumps are held
      rw [if_pos hretryable, htaken] at hdumps hlater hstore' ⊢
      refine h.leave hdumps hlater hhand hstats rfl (List.subset_append_left _ _) ?_
      intro dump hdump span hspan heq hoverlaps hfile
      have hknown := h.covering.job _ _ _ _ _ hphase index htaken (hlater.files index hindex hfile)
      have hspan' := hdir.directory.span_unique (h.ringSealed dump hdump span hspan) hknown heq
      rw [hspan'] at hoverlaps
      rw [(hcount.stamped _ _ _ _ _ hphase).2.1]
      refine .inr (List.mem_append_right _ (List.mem_map.mpr ⟨dump, ?_, rfl⟩))
      exact List.mem_filter.mpr ⟨hdump, hoverlaps⟩
    · rw [if_neg hretryable] at hdumps hlater hstore' ⊢
      exact covering_remove h hdir hphase kind hdumps hlater hstore'

end

theorem covering_move (hinv : TriggeredInv w) (hdir : DirectoryInv w d)
    (hheld : Held w d) (hstages : 0 < w.pipeline.stages) (horderly : w.Orderly e)
    (hmove : Move w e next) (hstore' : next.store = .disk d') : Covering next d' := by
  have hlater := later_handMove hdir (handMove_of_move hmove) hstore'
  have hdesk := deskMove_of_move hinv.desk.mode hmove
  have hdumps : w.phase ≠ .select → ∀ dump ∈ next.dumps, ∃ old ∈ w.dumps, dump.id = old.id ∧
      dump.window = old.window ∧ dump.ring = old.ring := by
    intro hselect dump hdump
    rcases dumps_of_deskMove hdesk hdump with hold | ⟨hphase, -⟩
    · exact hold
    · exact absurd hphase hselect
  cases hmove with
  | turn rxOpen hfrom hto hscan hmode =>
    refine .of_idle ?_ (statsOf_of_resting hto)
    cases hto with
    | scanning purpose scan => exact hscan purpose scan rfl
    | _ => rfl
  | drained result hphase hpurpose hresult => exact .of_between (between_drainDone _ _ _)
  | tookMem hphase hmem =>
    rw [hdir.store] at hmem
    cases hmem
  | listed hphase hdisk =>
    obtain rfl := Store.disk.inj (hdisk.symm.trans hstore')
    exact
      { listed := by
          rintro onDisk ⟨⟩
          exact fun dump _ span _ _ hfile => .inr hfile
        chosen := by simp [scanOf]
        inPass := by simp [statsOf]
        job := by simp }
  | listFailed hphase hdisk => exact absurd rfl horderly.2.1
  | @readClaims purpose d₀ onDisk hphase hdisk =>
    obtain rfl := Store.disk.inj (hdir.store.symm.trans hdisk)
    obtain rfl := Store.disk.inj (hdisk.symm.trans hstore')
    refine ⟨by simp [scanOf], ?_, by simp [statsOf], by simp⟩
    rintro onDisk' segments ⟨⟩
    refine (h.covering.listed onDisk (by rw [hphase]; rfl)).carry (hdumps (by simp [hphase]))
      h.ringSealed hlater ?_
    intro dump hdump span hspan hoverlaps hfile hlisted
    by_cases hclaimed : span.index ∈ d.fs.claimedIndices
    · rcases hheld span.index hclaimed hfile with (hnone | ⟨pass, hpass, hindex⟩) | hmem
      · exact absurd hnone (Nat.ne_of_gt hstages)
      · exact .inl (List.mem_map.mpr ⟨pass, hpass, hindex⟩)
      · rw [hphase] at hmem
        cases hmem
    · exact .inr (DiskFs.mem_newSegments.mpr ⟨hlisted, hclaimed⟩)
  | @tookDisk purpose d₀ onDisk segments sizeOf hphase hdisk =>
    have hcovered := @Covered.carry _ _ _ _ _ (fun _ i => i ∈ segments)
      (h.covering.chosen onDisk segments (by rw [hphase]; rfl)) (hdumps (by simp [hphase]))
      h.ringSealed hlater fun _ _ _ _ _ _ hwaits => .inr hwaits
    rcases tookFiles_phase
      { w with store := .disk { d₀ with fs := d₀.fs.recordClaims onDisk segments sizeOf } }
      purpose (segments.map .disk) with hbetween | ⟨hwaiting, -, -⟩
    · exact .of_between hbetween
    · refine .of_pass (by rw [hwaiting]; rfl) (by rw [hwaiting]; rfl) (by simp [hwaiting]) ?_
      rw [hwaiting]
      intro dump hdump span hspan hoverlaps hfile
      rcases hcovered dump hdump span hspan hoverlaps hfile with hpassed | hchosen
      · exact .inl hpassed
      · exact .inr (.inl (List.mem_map.mpr ⟨span.index, hchosen, rfl⟩))
  | passed _ | interrupts _ _ => exact .of_between (between_passDone _ _ _)
  | opens hphase =>
    exact .of_pass rfl rfl (by simp) (h.stay (hdumps (by simp [hphase])) hlater
      (by rw [hphase]; rfl) (by rw [hphase]; rfl) rfl)
  | rejects _ _ | hangsUp _ =>
    obtain rfl := Store.disk.inj (hdir.store.symm.trans hstore')
    exact { h.covering with }
  | @skips purpose taken pending stats hphase houtside =>
    have hhand : inHand w.phase = taken :: pending := by
      rw [hphase]
      rfl
    rcases hdir.directory.handClaimed taken (hhand ▸ List.mem_cons_self) with
      ⟨index, rfl, hindex, -⟩
    simp only [outsideCached, Bool.and_eq_true, Option.any_eq_true] at houtside
    rcases houtside with ⟨-, epochs, hcached, hnone⟩
    refine h.leave (hdumps (by simp [hphase])) hlater hhand (by rw [hphase]; rfl) rfl
      (fun _ hi => hi) ?_
    intro dump hdump span hspan heq hoverlaps hfile
    refine absurd (hlater.files index hindex hfile) (h.not_owed hdir
      (h.cached index epochs hcached).2 ?_ hdump hspan heq hoverlaps)
    simpa using hnone
  | loads hphase hload =>
    exact .of_pass rfl rfl (by simp) (h.stay (hdumps (by simp [hphase])) hlater
      (by rw [hphase]; rfl) (by rw [hphase]; rfl) rfl)
  | @misses purpose taken pending stats outcome hphase hload houtcome =>
    have hhand : inHand w.phase = taken :: pending := by
      rw [hphase]
      rfl
    rcases hdir.directory.handClaimed taken (hhand ▸ List.mem_cons_self) with
      ⟨index, rfl, hindex, -⟩
    have hgone : index ∉ d.files := by
      cases outcome with
      | loaded => exact absurd rfl houtcome
      | notFound => simpa [loadable, hdir.store] using hload
      | failed => exact horderly.1 d _ _ _ _ hdir.store hphase
    refine h.leave (hdumps (by simp [hphase])) hlater hhand (by rw [hphase]; rfl) rfl
      (fun _ hi => hi) ?_
    intro dump hdump span hspan heq hoverlaps hfile
    exact absurd (hlater.files index hindex hfile) hgone
  | inspects hphase hepochs =>
    exact covering_inspect h hdir hphase hepochs (hdumps (by simp [hphase])) hlater
  | nextStage key hphase hstage =>
    obtain rfl := Store.disk.inj (hdir.store.symm.trans hstore')
    have hstay := @DiskDrain.stay w _ d d h (hdumps (by simp [hphase])) hlater _ _
      (by rw [hphase]; rfl) (by rw [hphase]; rfl) rfl
    refine ⟨by simp [scanOf], by simp [scanOf], ?_, ?_⟩
    · rintro _ ⟨⟩
      exact hstay
    · intro purpose' job' stage' pending' stats' hstaged
      rw [Phase.staged.injEq] at hstaged
      rcases hstaged with ⟨rfl, rfl, -, rfl, rfl⟩
      exact h.covering.job _ _ _ _ _ hphase
  | @succeeds purpose job stage pending stats key hphase hstage =>
    have hhand : inHand w.phase = job.taken :: pending := by
      rw [hphase]
      rfl
    rcases hdir.directory.handClaimed _ (hhand ▸ List.mem_cons_self) with ⟨index, htaken, -⟩
    rw [htaken] at hhand
    refine h.leave (hdumps (by simp [hphase])) hlater hhand (by rw [hphase]; rfl) rfl ?_ ?_
    · unfold doneFor
      split <;> exact fun _ hi => hi
    · intro dump hdump span hspan heq hoverlaps hfile
      left
      show index ∈ job.taken.index :: w.passedIndices
      rw [htaken]
      exact List.mem_cons_self
  | fails kind hphase =>
    exact covering_stageFailed h hdir hinv.count hphase horderly.1 (hdumps (by simp [hphase]))
      hlater hstore'
  | panics message hphase =>
    exact covering_remove h hdir hphase _ (hdumps (by simp [hphase])) hlater hstore'
  | retries hphase =>
    rcases hdir.directory.handClaimed _ (by rw [hphase]; exact List.mem_cons_self) with
      ⟨index, hslot, -⟩
    cases hslot
  | @resolvedAll stage manifest after hphase => cases after <;> exact .of_idle rfl rfl
  | finalizes _ _ _ | registers _ _ _ | dies _ _ _ => exact .of_idle rfl rfl
  | answers finishedAt hphase hstage =>
    rcases sendReceipt_eq w _ _ finishedAt _ _ with ⟨message, hmessage, hsent⟩
    rw [hsent]
    exact .of_idle rfl rfl

/-! ## Steps -/

theorem DiskDrain.complete_of_ended (hstore : w.store = .disk d)
    (hstages : 0 < w.pipeline.stages) (horderly : w.Orderly e) {dump : ActiveDump}
    (hdump : dump ∈ w.dumps) {result : DrainResult} (hended : Ended w e purpose result)
    (hquiesced : Quiesced purpose result) (hheld : NotHeld w dump result) : w.Complete dump := by
  intro span hspan hoverlaps
  have hevicted : span.index ∉ d.files → w.Accounted span.index := by
    intro hgone
    refine .inr (.inr (.inr ?_))
    rw [hstore]
    exact hgone
  by_cases hfile : span.index ∈ d.files
  · cases hended with
    | interrupted hinterrupted => exact absurd hquiesced.1 hinterrupted
    | noDumps hnone =>
      rw [hnone] at hdump
      cases hdump
    | noStages hnone => exact absurd hnone (Nat.ne_of_gt hstages)
    | unlisted => exact absurd rfl horderly.2.1
    | noFiles hphase hdisk =>
      have hcovered := h.covering.chosen _ _ (congrArg scanOf hphase)
      rcases hcovered dump hdump span hspan hoverlaps hfile with hpassed | hchosen
      · exact .inl hpassed
      · cases hchosen
    | noSlots hphase hpurpose hmem hnext =>
      rw [hstore] at hmem
      cases hmem
    | passed hphase hretry hdone =>
      have hcovered := h.covering.inPass _ (congrArg statsOf hphase)
      rw [hphase] at hcovered
      rcases hcovered dump hdump span hspan hoverlaps hfile with hpassed | hhand | hretried
      · exact .inl hpassed
      · cases hhand
      · rw [← hretry] at hretried
        rcases hheld with hnone | ⟨-, hnot⟩
        · rw [hnone] at hretried
          cases hretried
        · exact absurd hretried hnot
  · exact hevicted hfile

theorem diskDrain_move (hinv : TriggeredInv w) (hdir : DirectoryInv w d)
    (hheld : Held w d) (hstages : 0 < w.pipeline.stages) (horderly : w.Orderly e)
    (hmove : Move w e next) (hstore' : next.store = .disk d') : DiskDrain next d' := by
  have hlater := later_handMove hdir (handMove_of_move hmove) hstore'
  have hcovering := covering_move h hinv hdir hheld hstages horderly hmove hstore'
  exact
    { ringSealed := by
        intro dump hdump span hspan
        apply hlater.sealed
        rcases dumps_of_deskMove (deskMove_of_move hinv.desk.mode hmove) hdump with
          ⟨old, hold, -, -, hring⟩ | ⟨-, hring⟩
        · exact h.ringSealed old hold span (hring ▸ hspan)
        · rw [hring, hdir.store] at hspan
          exact List.mem_of_mem_filter hspan
      resolvedSealed := by
        intro entry hentry span hspan
        apply hlater.sealed
        rcases resolved_of_move hinv.desk.mode hmove hentry with hold | ⟨hdump, -⟩
        · exact h.resolvedSealed entry hold span hspan
        · exact h.ringSealed _ hdump span hspan
      cached := by
        intro i epochs hcached
        have hbefore : i ∈ d.sealed.map Span.index ∧
            (i ∈ d.files → ⟨i, epochs.1, epochs.2⟩ ∈ d.sealed) := by
          rcases cached_of_move hmove hcached with hold | ⟨⟨purpose, pending, stats, hphase⟩,
            hknown⟩
          · exact h.cached i epochs hold
          · rcases hdir.directory.handClaimed (.disk i)
              (by rw [hphase]; exact List.mem_cons_self) with ⟨index, heq, hindex, -⟩
            obtain rfl := Taken.disk.inj heq
            refine ⟨hindex, fun hfile => ?_⟩
            simpa [epochsKnown, hdir.store, hfile] using hknown
        refine ⟨List.map_subset _ hlater.sealed hbefore.1, ?_⟩
        exact fun hfile => hlater.sealed (hbefore.2 (hlater.files i hbefore.1 hfile))
      covering := hcovering
      complete := by
        intro entry hentry hquiesced span hspan hoverlaps
        rcases resolved_of_move hinv.desk.mode hmove hentry with hold | ⟨hdump, hended, hnot⟩
        · apply hlater.accounted hdir.store hstore'
          · exact List.mem_map.mpr ⟨span, h.resolvedSealed entry hold span hspan, rfl⟩
          · exact h.complete entry hold hquiesced span hspan hoverlaps
        · apply hlater.accounted hdir.store hstore'
          · exact List.mem_map.mpr ⟨span, h.ringSealed _ hdump span hspan, rfl⟩
          · exact h.complete_of_ended hdir.store hstages horderly hdump hended hquiesced
              (hnot hquiesced) span hspan hoverlaps }

theorem diskDrain_outside (hdir : DirectoryInv w d)
    (hnext : w.outside e = some next) (hstore' : next.store = .disk d') : DiskDrain next d' := by
  have hlater := later_outside hdir.store hnext hstore'
  have hsame : next.phase = w.phase ∧ next.dumps = w.dumps ∧ next.resolved = w.resolved ∧
      next.epochCache = w.epochCache := by
    rcases outside_cases hnext with ⟨req, -, -, rfl⟩ | ⟨_, _, _, _, _, rfl⟩
    · exact ⟨rfl, rfl, rfl, rfl⟩
    · exact ⟨rfl, rfl, rfl, rfl⟩
  rcases hsame with ⟨hphase, hdumps, hresolved, hcache⟩
  have hcarry : ∀ {waits : DumpId → Nat → Prop}, w.Covered d waits → next.Covered d' waits := by
    intro waits hcovered
    refine hcovered.carry ?_ h.ringSealed hlater fun _ _ _ _ _ _ hwaits => .inr hwaits
    rw [hdumps]
    exact fun dump hdump => ⟨dump, hdump, rfl, rfl, rfl⟩
  exact
    { ringSealed := by
        rw [hdumps]
        exact fun dump hdump span hspan => hlater.sealed (h.ringSealed dump hdump span hspan)
      resolvedSealed := by
        rw [hresolved]
        exact fun entry hentry span hspan =>
          hlater.sealed (h.resolvedSealed entry hentry span hspan)
      cached := by
        rw [hcache]
        intro i epochs hcached
        rcases h.cached i epochs hcached with ⟨hindex, hknown⟩
        refine ⟨List.map_subset _ hlater.sealed hindex, ?_⟩
        exact fun hfile => hlater.sealed (hknown (hlater.files i hindex hfile))
      covering :=
        { listed := by
            rw [hphase]
            exact fun onDisk hscan => hcarry (h.covering.listed onDisk hscan)
          chosen := by
            rw [hphase]
            exact fun onDisk segments hscan => hcarry (h.covering.chosen onDisk segments hscan)
          inPass := by
            rw [hphase]
            exact fun stats hstats => hcarry (h.covering.inPass stats hstats)
          job := by
            rw [hphase]
            intro purpose job stage pending stats hstaged i htaken hfile
            rcases hdir.directory.handClaimed (.disk i)
              (by rw [hstaged, ← htaken]; exact List.mem_cons_self) with ⟨index, heq, hindex, -⟩
            obtain rfl := Taken.disk.inj heq
            apply hlater.sealed
            exact h.covering.job _ _ _ _ _ hstaged i htaken (hlater.files i hindex hfile) }
      complete := by
        rw [CompleteDumps, hresolved]
        intro entry hentry hquiesced span hspan hoverlaps
        apply hlater.accounted hdir.store hstore'
        · exact List.mem_map.mpr ⟨span, h.resolvedSealed entry hentry span hspan, rfl⟩
        · exact h.complete entry hentry hquiesced span hspan hoverlaps }

end

end Worker

end Dial9.Core
