/-
# Drains of the ring

In memory a pass has one slot, the first that overlaps a window. A drain of the
ring ends when there is none, and not before: a slot that was taken either
passes, fails for good, or goes back for a retry, which holds all dumps open.
-/

import Dial9.Core.Drain

namespace Dial9.Core

open Dial9.Lib

variable {w next : Worker} {m m' : MemStore} {e : WorkerEvent} {purpose : Purpose}

variable {stats : PassStats}

variable {slot back : MemSegment} {rest pending : List Taken} {phase : Phase}

namespace Worker

/-! ## Where slots are -/

/-- The slot is in the ring or in hand. -/
def Stored (w : Worker) (m : MemStore) (slot : MemSegment) : Prop :=
  slot ∈ m.queue.segments ∨ .memory slot ∈ inHand w.phase

/-- The same segment, but for its count of retries. -/
structure SameSlot (slot slot' : MemSegment) : Prop where
  index : slot'.index = slot.index
  bytes : slot'.bytes = slot.bytes
  epochSecs : slot'.epochSecs = slot.epochSecs
  sealSecs : slot'.sealSecs = slot.sealSecs

theorem SameSlot.refl (slot : MemSegment) : SameSlot slot slot := ⟨rfl, rfl, rfl, rfl⟩

/-- Slots stay as they are, or are accounted for. -/
structure Flow (w next : Worker) (m m' : MemStore) : Prop where
  pipeline : next.pipeline = w.pipeline
  forth : ∀ slot, w.Stored m slot →
    next.Accounted slot.index ∨ ∃ slot', next.Stored m' slot' ∧ SameSlot slot slot'
  back : ∀ slot', next.Stored m' slot' → ∃ slot, w.Stored m slot ∧ SameSlot slot slot'
  accounted : ∀ i, w.Accounted i → next.Accounted i

/-- Every slot has its creation time in its header. -/
def Headed (w : Worker) (m : MemStore) : Prop :=
  ∀ slot, w.Stored m slot → w.pipeline.headerSecs slot.bytes = some slot.epochSecs

theorem Headed.epochs_eq (h : Headed w m) (hstore : w.store = .mem m)
    (hslot : w.Stored m slot) {epochSecs sealSecs : Nat}
    (hknown : w.epochsKnown (.memory slot) epochSecs sealSecs = true) :
    epochSecs = slot.epochSecs ∧ sealSecs = slot.sealSecs := by
  simp only [epochsKnown, hstore, h slot hslot, Option.all_some, Bool.and_eq_true,
    beq_iff_eq] at hknown
  exact ⟨hknown.2.symm, hknown.1⟩

theorem accounted_of_steered {w mid next : Worker} (hstore : w.store = .mem m)
    (h : Steered mid next) (hstore' : next.store = .mem m') (hevicted : m'.evicted = m.evicted)
    (hpassed : w.passedIndices ⊆ mid.passedIndices) (hterminal : w.terminal ⊆ mid.terminal)
    (hgone : w.reportedGone ⊆ mid.reportedGone) (i : Nat) (haccounted : w.Accounted i) :
    next.Accounted i := by
  rw [Accounted, h.passedIndices_eq, h.terminal, h.reportedGone, hstore']
  rcases haccounted with hi | hi | hi | hi
  · exact .inl (hpassed hi)
  · exact .inr (.inl (hterminal hi))
  · exact .inr (.inr (.inl (hgone hi)))
  · refine .inr (.inr (.inr ?_))
    rw [hstore] at hi
    show i ∈ m'.evicted
    rw [hevicted]
    exact hi

section

variable (hpipeline : next.pipeline = w.pipeline)
include hpipeline

theorem Flow.of_same
    (hqueue : m'.queue.segments = m.queue.segments) (hhand : inHand next.phase = inHand w.phase)
    (haccounted : ∀ i, w.Accounted i → next.Accounted i) : Flow w next m m' := by
  have hstored : ∀ slot, next.Stored m' slot ↔ w.Stored m slot := by
    intro slot
    rw [Stored, Stored, hqueue, hhand]
  exact
    { pipeline := hpipeline
      forth := fun slot hslot => .inr ⟨slot, (hstored slot).mpr hslot, .refl slot⟩
      back := fun slot hslot => ⟨slot, (hstored slot).mp hslot, .refl slot⟩
      accounted := haccounted }

theorem Flow.of_gone {taken : Taken}
    (hhand : inHand w.phase = taken :: rest) (hrest : inHand next.phase = rest)
    (hgone : next.Accounted taken.index) (haccounted : ∀ i, w.Accounted i → next.Accounted i) :
    Flow w next m m where
  pipeline := hpipeline
  forth := by
    rintro slot (hqueue | hmem)
    · exact .inr ⟨slot, .inl hqueue, .refl slot⟩
    · rw [hhand] at hmem
      rcases List.mem_cons.mp hmem with heq | hmem
      · rw [← heq] at hgone
        exact .inl hgone
      · refine .inr ⟨slot, .inr ?_, .refl slot⟩
        rwa [hrest]
  back := by
    rintro slot (hqueue | hmem)
    · exact ⟨slot, .inl hqueue, .refl slot⟩
    · refine ⟨slot, .inr ?_, .refl slot⟩
      rw [hhand]
      rw [hrest] at hmem
      exact List.mem_cons_of_mem _ hmem
  accounted := haccounted

theorem Flow.of_returned (hqueue : m'.queue.segments = back :: m.queue.segments)
    (hhand : inHand w.phase = .memory slot :: rest) (hrest : inHand next.phase = rest)
    (hsame : SameSlot slot back) (haccounted : ∀ i, w.Accounted i → next.Accounted i) :
    Flow w next m m' where
  pipeline := hpipeline
  forth := by
    rintro other (hother | hmem)
    · refine .inr ⟨other, .inl ?_, .refl other⟩
      rw [hqueue]
      exact List.mem_cons_of_mem _ hother
    · rw [hhand] at hmem
      rcases List.mem_cons.mp hmem with heq | hmem
      · obtain rfl := Taken.memory.inj heq
        exact .inr ⟨back, .inl (hqueue ▸ List.mem_cons_self), hsame⟩
      · exact .inr ⟨other, .inr (hrest ▸ hmem), .refl other⟩
  back := by
    rintro other (hother | hmem)
    · rw [hqueue] at hother
      rcases List.mem_cons.mp hother with rfl | hother
      · exact ⟨slot, .inr (hhand ▸ List.mem_cons_self), hsame⟩
      · exact ⟨other, .inl hother, .refl other⟩
    · rw [hrest] at hmem
      exact ⟨other, .inr (hhand ▸ List.mem_cons_of_mem _ hmem), .refl other⟩
  accounted := haccounted

theorem Flow.of_moved (hstored : ∀ slot, next.Stored m' slot ↔ w.Stored m slot)
    (haccounted : ∀ i, w.Accounted i → next.Accounted i) : Flow w next m m' where
  pipeline := hpipeline
  forth := fun slot hslot => .inr ⟨slot, (hstored slot).mpr hslot, .refl slot⟩
  back := fun slot hslot => ⟨slot, (hstored slot).mp hslot, .refl slot⟩
  accounted := haccounted

end

theorem mem_releaseAll {hand : List Taken} (hmem : ∀ taken ∈ hand, ∃ slot, taken = .memory slot)
    (m : MemStore) :
    ∃ m', hand.foldl Store.releaseUnprocessed (.mem m) = .mem m' ∧ m'.evicted = m.evicted ∧
      ∀ slot, slot ∈ m'.queue.segments ↔ slot ∈ m.queue.segments ∨ .memory slot ∈ hand := by
  induction hand generalizing m with
  | nil => exact ⟨m, rfl, rfl, fun slot => by simp⟩
  | cons taken hand ih =>
    rcases hmem taken List.mem_cons_self with ⟨slot, rfl⟩
    rcases ih (fun t ht => hmem t (List.mem_cons_of_mem _ ht))
      { m with queue := m.queue.putBack slot } with ⟨m', hreleased, hevicted, hsegments⟩
    refine ⟨m', hreleased, hevicted, ?_⟩
    intro other
    rw [hsegments]
    simp only [Queue.putBack, List.mem_cons, Taken.memory.injEq]
    tauto

theorem flow_handMove (h : RingInv w m) (hstages : 0 < w.pipeline.stages)
    (hreturned : ∀ slot back, w.Stored m slot → w.Returned slot back → SameSlot slot back)
    (hmove : HandMove w e next) (hstore' : next.store = .mem m') : Flow w next m m' := by
  have hstore := h.store
  have hring := h.ring
  have hsame : ∀ {α : Type} (l : List α), l ⊆ l := fun _ _ hi => hi
  cases hmove with
  | steers hsteered hhand =>
    obtain rfl := Store.mem.inj (hstore.symm.trans (hsteered.store.symm.trans hstore'))
    exact .of_same hsteered.pipeline rfl hhand
      (accounted_of_steered hstore hsteered hstore' rfl (hsame _) (hsame _) (hsame _))
  | lists hphase hdisk | unlisted hdisk hnone hsteered hhand | chooses hphase hdisk
  | takesDisk sizeOf hphase hdisk hsteered hhand =>
    rw [hstore] at hdisk
    cases hdisk
  | takesMem windows hmem hnone hsteered hhand =>
    obtain rfl := Store.mem.inj (hstore.symm.trans hmem)
    obtain rfl := Store.mem.inj (hsteered.store.symm.trans hstore')
    have haccounted := accounted_of_steered hstore hsteered hstore' rfl (hsame _) (hsame _)
      (hsame _)
    rw [if_neg (Nat.ne_of_gt hstages)] at hhand
    refine .of_moved hsteered.pipeline ?_ haccounted
    intro slot
    rw [Stored, Stored, hhand, hnone]
    cases hnext : m.queue.next windows with
    | none => simp [Queue.pop, hnext]
    | some first =>
      rcases Queue.next_eq_some hnext with ⟨before, after, hsplit, hpop, -, -⟩
      simp only [hsplit, hpop, List.mem_append, List.mem_cons, Option.toList_some,
        List.map_cons, List.map_nil, Taken.memory.injEq, List.not_mem_nil, or_false]
      tauto
  | skips hhead houtside hsteered hhand =>
    simp [outsideCached, h.uncached] at houtside
  | returns hhead hsteered hhand =>
    rcases hring.handMem _ (hhead ▸ List.mem_cons_self) with ⟨slot, hslot⟩
    cases hslot
  | putsBack hhead hback hsteered hhand =>
    rw [hstore] at hsteered
    obtain rfl := Store.mem.inj (hsteered.store.symm.trans hstore')
    exact .of_returned hsteered.pipeline rfl hhead hhand
      (hreturned _ _ (.inr (hhead ▸ List.mem_cons_self)) hback)
      (accounted_of_steered hstore hsteered hstore' rfl (hsame _) (hsame _) (hsame _))
  | @misses next taken rest outcome hhead hload hphase houtcome hsteered hhand =>
    rcases hring.handMem _ (hhead ▸ List.mem_cons_self) with ⟨slot, rfl⟩
    cases outcome with
    | loaded => exact absurd rfl houtcome
    | notFound | failed => simp [loadable, hstore] at hload
  | @passes e next pass purpose job stage rest stats hphase hindex hsteered hhand =>
    obtain rfl := Store.mem.inj (hstore.symm.trans (hsteered.store.symm.trans hstore'))
    refine .of_gone hsteered.pipeline (by rw [hphase]; rfl) hhand ?_
      (accounted_of_steered hstore hsteered hstore' rfl (List.subset_cons_self _ _) (hsame _)
        (hsame _))
    left
    rw [hsteered.passedIndices_eq]
    show job.taken.index ∈ pass.index :: w.passedIndices
    rw [hindex]
    exact List.mem_cons_self
  | fails hhead hsteered hhand =>
    rw [hstore] at hsteered
    obtain rfl := Store.mem.inj (hsteered.store.symm.trans hstore')
    refine .of_gone hsteered.pipeline hhead hhand (.inr (.inl ?_))
      (accounted_of_steered hstore hsteered hstore' rfl (hsame _) (List.subset_cons_self _ _)
        (hsame _))
    rw [hsteered.terminal]
    exact List.mem_cons_self
  | wearsOut hhead hsteered hhand =>
    obtain rfl := Store.mem.inj (hstore.symm.trans (hsteered.store.symm.trans hstore'))
    refine .of_gone hsteered.pipeline hhead hhand (.inr (.inl ?_))
      (accounted_of_steered hstore hsteered hstore' rfl (hsame _) (List.subset_cons_self _ _)
        (hsame _))
    rw [hsteered.terminal]
    exact List.mem_cons_self
  | vanishes hphase hkind hsteered hhand =>
    obtain rfl := Store.mem.inj (hstore.symm.trans (hsteered.store.symm.trans hstore'))
    refine .of_gone hsteered.pipeline (by rw [hphase]; rfl) hhand (.inr (.inr (.inl ?_)))
      (accounted_of_steered hstore hsteered hstore' rfl (hsame _) (hsame _)
        (List.subset_cons_self _ _))
    rw [hsteered.reportedGone]
    exact List.mem_cons_self
  | interrupts hhead hsteered hhand =>
    rcases mem_releaseAll (fun taken htaken => hring.handMem taken (hhead ▸ htaken)) m with
      ⟨released, hreleased, hevicted, hsegments⟩
    rw [hstore, hreleased] at hsteered
    obtain rfl := Store.mem.inj (hsteered.store.symm.trans hstore')
    refine .of_moved hsteered.pipeline ?_
      (accounted_of_steered hstore hsteered hstore' hevicted (hsame _) (hsame _) (hsame _))
    intro slot
    rw [Stored, Stored, hhand, hhead, hsegments]
    simp

/-! ## One slot at a time -/

/-- The slot overlaps the window of an open dump. -/
def Wanted (w : Worker) (taken : Taken) : Prop :=
  ∃ slot, taken = .memory slot ∧ ∃ dump ∈ w.dumps,
    dump.window.overlaps slot.epochSecs slot.sealSecs = true

/-- The job has the epochs that are stored with its slot. -/
def EpochsOf (slot : MemSegment) (job : Job) : Prop :=
  job.epochSecs = slot.epochSecs ∧ job.sealSecs = slot.sealSecs

/-- A pass has one slot, which a dump wants, and once it is settled it has been
counted as done or is to be tried again. -/
def OneSlot (w : Worker) : Phase → Prop
  | .waiting _ [] stats => 0 < stats.matchedDone ∨ stats.retryDumpIds ≠ []
  | .waiting _ (taken :: pending) _ | .opening _ taken pending _ | .opened _ taken pending _ =>
    pending = [] ∧ w.Wanted taken
  | .staged _ job _ pending _ =>
    pending = [] ∧ w.Wanted job.taken ∧ ∀ slot, job.taken = .memory slot → EpochsOf slot job
  | .sleeping _ slot job pending _ => pending = [] ∧ job.dumpIds ≠ [] ∧ EpochsOf slot job
  | _ => True

theorem oneSlot_of_between (h : Between phase) : w.OneSlot phase := by
  cases h <;> trivial

theorem oneSlot_of_resting (h : Resting phase) : w.OneSlot phase := by
  cases h <;> trivial

theorem OneSlot.congr (h : w.OneSlot phase) (hdumps : next.dumps = w.dumps) :
    next.OneSlot phase := by
  have hwanted : next.Wanted = w.Wanted := by
    funext taken
    rw [Wanted, Wanted, hdumps]
  unfold OneSlot at h ⊢
  rw [hwanted]
  exact h

theorem takeWindows_of_forDumps (w : Worker) (h : forDumps purpose = true) :
    w.takeWindows purpose = some (w.dumps.map ActiveDump.window) := by
  cases purpose with
  | triggered | final => rfl
  | continuous | finishing => cases h

theorem matched_of_wanted {job : Job} (hstamped : w.Stamped job) (hwanted : w.Wanted job.taken)
    (hepochs : ∀ slot, job.taken = .memory slot → EpochsOf slot job) :
    job.matched.isEmpty = false ∧ job.dumpIds ≠ [] := by
  rcases hwanted with ⟨slot, htaken, dump, hdump, hoverlaps⟩
  rcases hepochs slot htaken with ⟨hepoch, hseal⟩
  have hmem : dump ∈ overlapping w.dumps job.epochSecs job.sealSecs := by
    rw [hepoch, hseal]
    exact List.mem_filter.mpr ⟨hdump, hoverlaps⟩
  constructor
  · rw [hstamped.1, matchedDumps_isEmpty, List.isEmpty_eq_false_iff]
    exact List.ne_nil_of_mem hmem
  · rw [hstamped.2.1]
    exact List.ne_nil_of_mem (List.mem_map.mpr ⟨dump, hmem, rfl⟩)

theorem doneFor_pos {job : Job} (h : job.matched.isEmpty = false) :
    0 < (doneFor stats job).matchedDone := by
  rw [doneFor, if_neg (by simp [h])]
  exact Nat.succ_pos _

theorem oneSlot_inspect {taken : Taken} {epochSecs sealSecs : Nat}
    (h : RingInv w m) (hheaded : Headed w m)
    (hphase : w.phase = .opened purpose taken pending stats) (honce : w.OneSlot w.phase)
    (hknown : w.epochsKnown taken epochSecs sealSecs = true) :
    (w.inspect purpose taken epochSecs sealSecs pending stats).OneSlot
      (w.inspect purpose taken epochSecs sealSecs pending stats).phase := by
  rw [hphase] at honce
  rcases honce with ⟨rfl, slot, rfl, dump, hdump, hoverlaps⟩
  have hslot : w.Stored m slot := by
    right
    rw [hphase]
    exact List.mem_cons_self
  rcases hheaded.epochs_eq h.store hslot hknown with ⟨rfl, rfl⟩
  have hmatched : (matchedDumps w.dumps slot.epochSecs slot.sealSecs).isEmpty = false := by
    rw [matchedDumps_isEmpty, List.isEmpty_eq_false_iff]
    exact List.ne_nil_of_mem (List.mem_filter.mpr ⟨hdump, hoverlaps⟩)
  rw [inspect, if_neg (by simp [hmatched])]
  refine ⟨rfl, ⟨slot, rfl, dump, hdump, hoverlaps⟩, ?_⟩
  rintro other heq
  obtain rfl := Taken.memory.inj heq
  exact ⟨rfl, rfl⟩

theorem oneSlot_stageFailed {job : Job} {stage : Nat} (hcount : CountInv w)
    (hphase : w.phase = .staged purpose job stage pending stats) (honce : w.OneSlot w.phase)
    (kind : ProcessErrorKind) :
    (w.stageFailed purpose job kind pending stats).OneSlot
      (w.stageFailed purpose job kind pending stats).phase := by
  rw [hphase] at honce
  rcases honce with ⟨rfl, hwanted, hepochs⟩
  rcases matched_of_wanted (hcount.stamped _ _ _ _ _ hphase) hwanted hepochs with
    ⟨hmatched, hids⟩
  rcases hwanted with ⟨slot, htaken, -⟩
  unfold stageFailed
  split
  · exact .inl (doneFor_pos hmatched)
  · split
    · rw [htaken]
      simp only
      split
      · exact .inl (doneFor_pos hmatched)
      · exact ⟨rfl, hids, hepochs slot htaken⟩
    · exact .inl (doneFor_pos hmatched)

theorem oneSlot_move (h : RingInv w m) (hinv : TriggeredInv w) (hheaded : Headed w m)
    (honce : w.OneSlot w.phase) (hmove : Move w e next) : next.OneSlot next.phase := by
  have hmode := hinv.desk.mode
  cases hmove with
  | turn rxOpen hfrom hto hscan hturn => exact oneSlot_of_resting hto
  | drained result hphase hpurpose hresult => exact oneSlot_of_between (between_drainDone _ _ _)
  | @tookMem purpose m₀ hphase hstore =>
    rw [hphase] at hmode
    rcases tookFiles_phase
      { w with store := .mem { m₀ with queue := m₀.queue.pop (w.takeWindows purpose) } } purpose
      ((m₀.queue.next (w.takeWindows purpose)).toList.map .memory) with
      hbetween | ⟨hwaiting, hdumps, hsome⟩
    · exact oneSlot_of_between hbetween
    · rw [hwaiting]
      cases hnext : m₀.queue.next (w.takeWindows purpose) with
      | none =>
        rw [hnext] at hsome
        exact absurd rfl (hsome hmode)
      | some slot =>
        rcases Queue.next_eq_some hnext with ⟨-, -, -, -, hwanted, -⟩
        refine ⟨rfl, slot, rfl, ?_⟩
        rw [hnext] at hdumps
        rw [hdumps]
        rw [takeWindows_of_forDumps w hmode] at hwanted
        rcases List.any_eq_true.mp hwanted with ⟨window, hwindow, hoverlaps⟩
        rcases List.mem_map.mp hwindow with ⟨dump, hdump, rfl⟩
        exact ⟨dump, hdump, hoverlaps⟩
  | listed hphase hdisk | readClaims hphase hdisk => trivial
  | listFailed hphase hdisk | tookDisk sizeOf hphase hdisk =>
    rw [h.store] at hdisk
    cases hdisk
  | passed hphase => exact oneSlot_of_between (between_passDone _ _ _)
  | opens hphase =>
    rw [hphase] at honce
    exact honce
  | interrupts interruption hphase => exact oneSlot_of_between (between_passDone _ _ _)
  | rejects hchannel hphase => exact honce.congr rfl
  | hangsUp hphase => exact honce.congr rfl
  | skips hphase houtside => simp [outsideCached, h.uncached] at houtside
  | loads hphase hload =>
    rw [hphase] at honce
    exact honce
  | @misses purpose taken pending stats outcome hphase hload houtcome =>
    rcases h.ring.handMem taken (by rw [hphase]; exact List.mem_cons_self) with ⟨slot, rfl⟩
    cases outcome with
    | loaded => exact absurd rfl houtcome
    | notFound | failed => simp [loadable, h.store] at hload
  | inspects hphase hepochs => exact oneSlot_inspect h hheaded hphase honce hepochs
  | nextStage key hphase hstage =>
    rw [hphase] at honce
    exact honce
  | succeeds key hphase hstage =>
    rw [hphase] at honce
    rcases honce with ⟨rfl, hwanted, hepochs⟩
    exact .inl (doneFor_pos
      (matched_of_wanted (hinv.count.stamped _ _ _ _ _ hphase) hwanted hepochs).1)
  | fails kind hphase => exact oneSlot_stageFailed hinv.count hphase honce kind
  | panics message hphase =>
    rw [hphase] at honce
    rcases honce with ⟨rfl, hwanted, hepochs⟩
    exact .inl (doneFor_pos
      (matched_of_wanted (hinv.count.stamped _ _ _ _ _ hphase) hwanted hepochs).1)
  | retries hphase =>
    rw [hphase] at honce
    rcases honce with ⟨rfl, hids, -⟩
    refine .inr ?_
    simp [hids]
  | @resolvedAll stage manifest after hphase => cases after <;> trivial
  | finalizes written hphase hstage => trivial
  | answers finishedAt hphase hstage =>
    rcases sendReceipt_eq w _ _ finishedAt _ _ with ⟨message, hmessage, hsent⟩
    rw [hsent]
    trivial
  | registers elapsed hphase hchannel | dies hphase hchannel hpast => trivial

/-! ## Steps -/

/-- The invariant of a worker over a ring that keeps dumps complete. -/
structure MemDrain (w : Worker) (m : MemStore) : Prop where
  headed : Headed w m
  kept : ∀ dump ∈ w.dumps, ∀ span ∈ dump.ring, w.Accounted span.index ∨
    ∃ slot, w.Stored m slot ∧ span = ⟨slot.index, slot.epochSecs, slot.sealSecs⟩
  oneSlot : w.OneSlot w.phase
  complete : w.CompleteDumps

theorem MemDrain.sameSlot (h : MemDrain w m) (hstore : w.store = .mem m)
    (hslot : w.Stored m slot) (hback : w.Returned slot back) : SameSlot slot back := by
  rcases hback with ⟨purpose, rest, stats, epochSecs, sealSecs, hphase, hknown, rfl⟩ |
    ⟨purpose, job, rest, stats, hphase, rfl⟩
  · rcases h.headed.epochs_eq hstore hslot hknown with ⟨hepoch, hseal⟩
    exact ⟨rfl, rfl, hepoch, hseal⟩
  · have honce := h.oneSlot
    rw [hphase] at honce
    exact ⟨rfl, rfl, honce.2.2.1, honce.2.2.2⟩

theorem Flow.headed (h : Flow w next m m') (hheaded : Headed w m) : Headed next m' := by
  intro slot' hslot'
  rcases h.back slot' hslot' with ⟨slot, hslot, hsame⟩
  rw [h.pipeline, hsame.bytes, hsame.epochSecs]
  exact hheaded slot hslot

theorem Flow.kept (h : Flow w next m m') {span : Span} (hspan : w.Accounted span.index ∨
      ∃ slot, w.Stored m slot ∧ span = ⟨slot.index, slot.epochSecs, slot.sealSecs⟩) :
    next.Accounted span.index ∨
      ∃ slot, next.Stored m' slot ∧ span = ⟨slot.index, slot.epochSecs, slot.sealSecs⟩ := by
  rcases hspan with haccounted | ⟨slot, hslot, rfl⟩
  · exact .inl (h.accounted _ haccounted)
  · rcases h.forth slot hslot with haccounted | ⟨slot', hslot', hsame⟩
    · exact .inl haccounted
    · refine .inr ⟨slot', hslot', ?_⟩
      rw [hsame.index, hsame.epochSecs, hsame.sealSecs]

theorem MemDrain.complete_of_ended (h : MemDrain w m) (hstore : w.store = .mem m)
    (hstages : 0 < w.pipeline.stages) (horderly : w.Orderly e) {dump : ActiveDump}
    (hdump : dump ∈ w.dumps) {result : DrainResult} (hended : Ended w e purpose result)
    (hquiesced : Quiesced purpose result) (hheld : NotHeld w dump result) : w.Complete dump := by
  intro span hspan hoverlaps
  cases hended with
  | interrupted hinterrupted => exact absurd hquiesced.1 hinterrupted
  | noDumps hnone =>
    rw [hnone] at hdump
    cases hdump
  | noStages hnone => exact absurd hnone (Nat.ne_of_gt hstages)
  | unlisted => exact absurd rfl horderly.2.1
  | noFiles hphase hdisk =>
    rw [hstore] at hdisk
    cases hdisk
  | noSlots hphase hpurpose hmem hnext =>
    obtain rfl := Store.mem.inj (hstore.symm.trans hmem)
    rcases h.kept dump hdump span hspan with haccounted | ⟨slot, hqueue | hhand, rfl⟩
    · exact haccounted
    · -- it would have been taken
      have hunwanted := List.find?_eq_none.mp hnext slot hqueue
      rw [takeWindows_of_forDumps w hpurpose] at hunwanted
      refine absurd (List.any_eq_true.mpr ⟨dump.window, ?_, hoverlaps⟩) hunwanted
      exact List.mem_map.mpr ⟨dump, hdump, rfl⟩
    · rw [hphase] at hhand
      cases hhand
  | passed hphase hretry hdone =>
    have honce := h.oneSlot
    rw [hphase] at honce
    rcases hheld with hnone | ⟨hexhaustive, -⟩
    · rw [hretry] at hnone
      rcases honce with hpos | hsome
      · rcases hdone with hsome | hzero
        · exact absurd hnone hsome
        · exact absurd hpos (hzero ▸ Nat.lt_irrefl 0)
      · exact absurd hnone hsome
    · rw [hstore] at hexhaustive
      cases hexhaustive

theorem memDrain_move (h : MemDrain w m) (hinv : TriggeredInv w) (hring : RingInv w m)
    (hstages : 0 < w.pipeline.stages) (horderly : w.Orderly e) (hmove : Move w e next)
    (hstore' : next.store = .mem m') :
    MemDrain next m' := by
  have hflow := flow_handMove hring hstages (fun slot back hslot => h.sameSlot hring.store hslot)
    (handMove_of_move hmove) hstore'
  exact
    { headed := hflow.headed h.headed
      kept := by
        intro dump hdump span hspan
        apply hflow.kept
        rcases dumps_of_deskMove (deskMove_of_move hinv.desk.mode hmove) hdump with
          ⟨old, hold, -, -, hring⟩ | ⟨-, hnew⟩
        · exact h.kept old hold span (hring ▸ hspan)
        · rw [hnew, hring.store] at hspan
          rcases List.mem_map.mp hspan with ⟨slot, hslot, rfl⟩
          exact .inr ⟨slot, .inl hslot, rfl⟩
      oneSlot := oneSlot_move hring hinv h.headed h.oneSlot hmove
      complete := by
        intro entry hentry hquiesced span hspan hoverlaps
        apply hflow.accounted
        rcases resolved_of_move hinv.desk.mode hmove hentry with hold | ⟨hdump, hended, hnot⟩
        · exact h.complete entry hold hquiesced span hspan hoverlaps
        · exact h.complete_of_ended hring.store hstages horderly hdump hended hquiesced
            (hnot hquiesced) span hspan hoverlaps }

theorem stored_sealSlot (hring : RingInv w m) (hphase : next.phase = w.phase)
    (hstore' : next.store = .mem { m with
      queue := m.queue.push m.maxTotalSize slot
      sealed := slot.index :: m.sealed
      evicted := (m.queue.evicted m.maxTotalSize slot.size).map MemSegment.index ++ m.evicted })
    (hm' : next.store = .mem m') :
    (∀ old, w.Stored m old → next.Accounted old.index ∨ next.Stored m' old) ∧
      ∀ new, next.Stored m' new → w.Stored m new ∨ new = slot := by
  obtain rfl := Store.mem.inj (hstore'.symm.trans hm')
  have hsplit := Queue.evicted_append hring.ring.counted m.maxTotalSize slot
  constructor
  · rintro old (hqueue | hhand)
    · have hmem : old ∈ m.queue.evicted m.maxTotalSize slot.size ++
          (m.queue.push m.maxTotalSize slot).segments := by
        rw [hsplit]
        exact List.mem_append_left _ hqueue
      rcases List.mem_append.mp hmem with hevicted | hstays
      · refine .inl (.inr (.inr (.inr ?_)))
        rw [hstore']
        exact List.mem_append_left _ (List.mem_map.mpr ⟨old, hevicted, rfl⟩)
      · exact .inr (.inl hstays)
    · exact .inr (.inr (hphase ▸ hhand))
  · rintro new (hqueue | hhand)
    · have hmem : new ∈ m.queue.segments ++ [slot] := by
        rw [← hsplit]
        exact List.mem_append_right _ hqueue
      rcases List.mem_append.mp hmem with hold | hnew
      · exact .inl (.inl hold)
      · exact .inr (List.mem_singleton.mp hnew)
    · exact .inl (.inr (hphase ▸ hhand))

theorem memDrain_outside (h : MemDrain w m) (hring : RingInv w m) (horderly : w.Orderly e)
    (hnext : w.outside e = some next) (hstore' : next.store = .mem m') : MemDrain next m' := by
  have hlogs : next.passedIndices = w.passedIndices ∧ next.terminal = w.terminal ∧
      next.reportedGone = w.reportedGone ∧ next.dumps = w.dumps ∧ next.resolved = w.resolved := by
    rcases outside_cases hnext with ⟨req, -, -, rfl⟩ | ⟨_, _, _, _, _, rfl⟩
    · exact ⟨rfl, rfl, rfl, rfl, rfl⟩
    · exact ⟨rfl, rfl, rfl, rfl, rfl⟩
  rcases hlogs with ⟨hpassed, hterminal, hgone, hdumps, hresolved⟩
  rcases outside_mem hring.store hnext with ⟨hphase, hpipeline, -, -, hstore⟩
  have haccounted : ∀ i, w.Accounted i → next.Accounted i := by
    intro i
    rw [Accounted, Accounted, hpassed, hterminal, hgone, hring.store]
    refine Or.imp_right (Or.imp_right (Or.imp_right ?_))
    rcases hstore with hsame | ⟨slot, -, -, -, hsealed⟩
    · rw [hsame]
      exact id
    · rw [hsealed]
      exact List.mem_append_right _
  have hstored : (∀ old, w.Stored m old → next.Accounted old.index ∨ next.Stored m' old) ∧
      ∀ new, next.Stored m' new →
        w.Stored m new ∨ w.pipeline.headerSecs new.bytes = some new.epochSecs := by
    rcases hstore with hsame | ⟨slot, he, -, hheader, hsealed⟩
    · obtain rfl := Store.mem.inj (hsame.symm.trans hstore')
      unfold Stored
      rw [hphase]
      exact ⟨fun old hold => .inr hold, fun new hnew => .inl hnew⟩
    · rcases stored_sealSlot hring hphase hsealed hstore' with ⟨hforth, hback⟩
      refine ⟨hforth, ?_⟩
      intro new hnew
      rcases hback new hnew with hold | rfl
      · exact .inl hold
      · right
        rcases Option.ne_none_iff_exists'.mp (horderly.2.2 new he) with ⟨secs, hsecs⟩
        rw [hsecs, Option.all_some, beq_iff_eq] at hheader
        rw [hsecs, hheader]
  exact
    { headed := by
        intro slot hslot
        rw [hpipeline]
        rcases hstored.2 slot hslot with hold | hheader
        · exact h.headed slot hold
        · exact hheader
      kept := by
        rw [hdumps]
        intro dump hdump span hspan
        rcases h.kept dump hdump span hspan with hold | ⟨slot, hslot, rfl⟩
        · exact .inl (haccounted _ hold)
        · exact (hstored.1 slot hslot).imp id fun hslot' => ⟨slot, hslot', rfl⟩
      oneSlot := by
        rw [hphase]
        exact h.oneSlot.congr hdumps
      complete := by
        rw [CompleteDumps, hresolved]
        intro entry hentry hquiesced span hspan hoverlaps
        exact haccounted _ (h.complete entry hentry hquiesced span hspan hoverlaps) }

end Worker

end Dial9.Core
