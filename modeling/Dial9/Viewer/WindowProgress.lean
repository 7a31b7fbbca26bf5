/-
# Progress of the segment window

While the viewport stays, what is admitted changes only when a size is learned, and
each segment's size is learned once. In between, every job that is started leaves one
admitted segment less to attend to, so that finitely many jobs are started.
-/

import Dial9.Viewer.Residency
import Mathlib.Data.Finset.Card

namespace Dial9.Viewer.Segments

variable {view : TimeRange}

namespace Window

variable {K T I P : Type} [DecidableEq K] {opts : WindowOptions K T I P} {w next : Window K T I P}
  {plan : AdmissionPlan K × AdmissionPlan K} {key : K}

/-! ## What is left to attend to -/

/-- The admitted segments that are not parsed, whose jobs did not fail and are not in
flight. -/
def waiting (plan : AdmissionPlan K × AdmissionPlan K) (w : Window K T I P) : Finset K :=
  (wanted plan).toFinset.filter fun key =>
    w.isParsed key = false ∧ w.inflight key = none ∧ key ∉ w.failed

theorem mem_waiting : key ∈ w.waiting plan ↔ key ∈ wanted plan ∧ w.isParsed key = false ∧
    w.inflight key = none ∧ key ∉ w.failed := by
  rw [waiting, Finset.mem_filter, List.mem_toFinset]

theorem waiting_congr (h : ∀ key ∈ wanted plan, next.isParsed key = w.isParsed key ∧
    next.inflight key = w.inflight key ∧ (key ∈ next.failed ↔ key ∈ w.failed)) :
    next.waiting plan = w.waiting plan := by
  ext key
  rw [mem_waiting, mem_waiting]
  apply and_congr_right
  intro hwanted
  rcases h key hwanted with ⟨hparsed, hinflight, hfailed⟩
  rw [hparsed, hinflight, hfailed]

theorem planOf_admitted {oversized : K → Bool} {estimate : K → Nat}
    (hkey : key ∈ wanted (planOf opts oversized estimate view)) :
    (opts.byKey key).isSome = true ∧ oversized key = false := by
  have hcandidate : ∀ {keys : List K} {capacityBytes baseBytes : Nat},
      key ∈ (capToBudget ((keys.filter fun key => !oversized key).filterMap fun key =>
        (opts.byKey key).map fun s => (⟨key, s.extent, estimate key⟩ : AdmissionCandidate K)) view
          capacityBytes baseBytes).admitted →
        (opts.byKey key).isSome = true ∧ oversized key = false := by
    intro keys capacityBytes baseBytes hadmitted
    rcases mem_of_mem_capToBudget hadmitted with ⟨c, hc, rfl⟩
    rcases List.mem_filterMap.mp hc with ⟨key, hmem, hmap⟩
    rcases Option.map_eq_some_iff.mp hmap with ⟨s, hs, rfl⟩
    exact ⟨Option.isSome_iff_exists.mpr ⟨s, hs⟩, by simpa using List.of_mem_filter hmem⟩
  rcases List.mem_append.mp hkey with hneed | hprefetch
  · exact hcandidate hneed
  · exact hcandidate hprefetch

theorem Consistent.entry_of_listed (hw : w.Consistent opts)
    (hlisted : (opts.byKey key).isSome = true)
    (hover : w.isOversized key = false) :
    ∃ entry, w.entries key = some entry ∧ entry.state ≠ .oversized := by
  rw [← hw.listed] at hlisted
  obtain ⟨entry, hentry⟩ := Option.isSome_iff_exists.mp hlisted
  refine ⟨entry, hentry, ?_⟩
  intro hstate
  rw [isOversized, hentry, Option.map_some, hstate, decide_eq_true rfl] at hover
  cases hover

/-! ## Starting jobs -/

section

variable (hw : w.Consistent opts) (hopen : w.disposed = false ∧ w.view ≠ none)
include hw hopen

theorem Consistent.startJob_waiting (hkey : key ∈ wanted plan) :
    (w.startJob key).waiting plan ⊆ w.waiting plan ∧
      ((w.startJob key).waiting plan).card + (w.startJob key).nextJob ≤
        (w.waiting plan).card + w.nextJob := by
  have hparsed := isParsed_of_settled (hw.startJob hopen key).2.settled
  rcases w.startJob_cases key with
    ⟨hsame, -⟩ | ⟨entry, parsing, cache, hentry, ⟨hstate, -⟩, hfree, hfailed, hnext⟩
  · rw [hsame]
    exact ⟨subset_rfl, le_rfl⟩
  · have hsubset : (w.startJob key).waiting plan ⊆ w.waiting plan := by
      intro other hother
      rcases mem_waiting.mp hother with ⟨hwanted, hopen', hidle, hleft⟩
      rw [hparsed] at hopen'
      rw [hnext] at hidle hleft
      refine mem_waiting.mpr ⟨hwanted, hopen', ?_, hleft⟩
      by_cases heq : other = key
      · rw [heq, hfree]
      · exact (Function.update_of_ne heq _ _).symm.trans hidle
    have hmem : key ∈ w.waiting plan := by
      refine mem_waiting.mpr ⟨hkey, ?_, hfree, hfailed⟩
      apply Bool.eq_false_of_not_eq_true
      rw [isParsed_iff]
      rintro ⟨entry', hentry', hstate'⟩
      obtain rfl : entry = entry' := Option.some.inj (hentry.symm.trans hentry')
      exact hstate hstate'
    have hnot : key ∉ (w.startJob key).waiting plan := by
      intro hmem'
      have hidle := (mem_waiting.mp hmem').2.2.1
      rw [hnext] at hidle
      cases (Function.update_self ..).symm.trans hidle
    have hless :=
      Finset.card_lt_card (Finset.ssubset_iff_of_subset hsubset |>.mpr ⟨key, hmem, hnot⟩)
    refine ⟨hsubset, ?_⟩
    have hjobs : (w.startJob key).nextJob = w.nextJob + 1 := by
      rw [hnext]
      rfl
    omega

theorem Consistent.startJob_attends (hlisted : (opts.byKey key).isSome = true)
    (hover : w.isOversized key = false) : key ∉ (w.startJob key).waiting plan := by
  intro hmem
  rcases hw.entry_of_listed hlisted hover with ⟨entry, hentry, hover⟩
  rcases mem_waiting.mp hmem with ⟨-, hparsed, hidle, hfailed⟩
  rw [isParsed_of_settled (hw.startJob hopen key).2.settled] at hparsed
  rcases w.startJob_cases key with ⟨hsame, hreason⟩ | ⟨_, _, _, _, _, _, _, hnext⟩
  · rw [hsame] at hidle hfailed
    rcases hreason entry hentry with hstate | hstate | hbusy | hfail
    · rw [isParsed_iff.mpr ⟨entry, hentry, hstate⟩] at hparsed
      cases hparsed
    · exact hover hstate
    · exact hbusy hidle
    · exact hfailed hfail
  · rw [hnext] at hidle
    cases (Function.update_self ..).symm.trans hidle

end

variable {keys evicted : List K}

theorem Consistent.startNeeded_waiting (hw : w.Consistent opts)
    (hopen : w.disposed = false ∧ w.view ≠ none)
    (hkeys : ∀ key ∈ keys, key ∈ wanted plan ∧ key ∉ evicted ∧
      (opts.byKey key).isSome = true ∧ w.isOversized key = false) :
    (w.startNeeded keys evicted).waiting plan ⊆ w.waiting plan ∧
      ((w.startNeeded keys evicted).waiting plan).card + (w.startNeeded keys evicted).nextJob ≤
        (w.waiting plan).card + w.nextJob ∧
          ∀ key ∈ keys, key ∉ (w.startNeeded keys evicted).waiting plan := by
  induction keys generalizing w with
  | nil => exact ⟨subset_rfl, le_rfl, nofun⟩
  | cons key rest ih =>
    rcases hkeys key List.mem_cons_self with ⟨hwanted, hkept, hlisted, hover⟩
    rcases hw.startJob hopen key with ⟨hnext, hmoves⟩
    have hopen' : (w.startJob key).disposed = false ∧ (w.startJob key).view ≠ none :=
      ⟨hmoves.disposed.trans hopen.1, hmoves.view ▸ hopen.2⟩
    rcases hw.startJob_waiting hopen hwanted with ⟨hsubset, hcard⟩
    have hattended : key ∉ (w.startJob key).waiting plan := hw.startJob_attends hopen hlisted hover
    have hrest : ∀ other ∈ rest, other ∈ wanted plan ∧ other ∉ evicted ∧
        (opts.byKey other).isSome = true ∧ (w.startJob key).isOversized other = false := by
      rw [isOversized_of_settled hmoves.settled]
      exact fun other hother => hkeys other (List.mem_cons_of_mem _ hother)
    rw [Window.startNeeded, List.foldl_cons, if_neg hkept]
    rcases ih hnext hopen' hrest with ⟨hsubset', hcard', hall⟩
    refine ⟨hsubset'.trans hsubset, hcard'.trans hcard, ?_⟩
    intro other hother
    rcases List.mem_cons.mp hother with rfl | hother
    · exact fun hmem => hattended (hsubset' hmem)
    · exact hall other hother

/-- No job is started or ends, and no prefetch is taken back. -/
structure SameJobs (w next : Window K T I P) : Prop where
  entries : next.entries = w.entries
  inflight : next.inflight = w.inflight
  failed : next.failed = w.failed
  nextJob : next.nextJob = w.nextJob
  pendingPrefetch : w.pendingPrefetch ⊆ next.pendingPrefetch

omit [DecidableEq K] in
theorem SameJobs.trans {last : Window K T I P} (h : SameJobs w next) (h' : SameJobs next last) :
    SameJobs w last where
  entries := h'.entries.trans h.entries
  inflight := h'.inflight.trans h.inflight
  failed := h'.failed.trans h.failed
  nextJob := h'.nextJob.trans h.nextJob
  pendingPrefetch := List.Subset.trans h.pendingPrefetch h'.pendingPrefetch

theorem SameJobs.waiting (h : SameJobs w next) : next.waiting plan = w.waiting plan := by
  apply waiting_congr
  intro key _
  rw [isParsed, isParsed, h.entries, h.inflight, h.failed]
  exact ⟨rfl, rfl, Iff.rfl⟩

theorem schedulePrefetch_same (w : Window K T I P) (key : K) :
    SameJobs w (w.schedulePrefetch key) := by
  rw [schedulePrefetch]
  split
  · exact ⟨rfl, rfl, rfl, rfl, List.Subset.refl _⟩
  · exact ⟨rfl, rfl, rfl, rfl, List.subset_append_left _ _⟩

theorem mem_schedulePrefetch (w : Window K T I P) (key : K) :
    key ∈ (w.schedulePrefetch key).pendingPrefetch := by
  rw [schedulePrefetch]
  split
  case isTrue hmem => exact hmem
  case isFalse => exact List.mem_append_right _ (List.mem_singleton.mpr rfl)

theorem scheduleAll_same (w : Window K T I P) (keys evicted : List K) :
    SameJobs w (w.scheduleAll keys evicted) := by
  induction keys generalizing w with
  | nil => exact ⟨rfl, rfl, rfl, rfl, List.Subset.refl _⟩
  | cons key rest ih =>
    rw [scheduleAll, List.foldl_cons]
    split
    · exact ih w
    · split
      · exact (w.schedulePrefetch_same key).trans (ih _)
      · exact ih w

theorem scheduleAll_attends (hkey : key ∈ keys) (hkept : key ∉ evicted)
    {entry : SegmentEntry T I P} (hentry : w.entries key = some entry)
    (hwaits : key ∈ w.waiting plan) :
    key ∈ (w.scheduleAll keys evicted).pendingPrefetch := by
  induction keys generalizing w with
  | nil => cases hkey
  | cons other rest ih =>
    rw [scheduleAll, List.foldl_cons]
    rcases List.mem_cons.mp hkey with rfl | hrest
    · rcases mem_waiting.mp hwaits with ⟨-, hparsed, hidle, -⟩
      have hopen : (w.entries key).any
          fun entry => decide (entry.state ≠ .parsed ∧ w.inflight key = none) := by
        rw [hentry]
        apply decide_eq_true
        refine ⟨fun hstate => ?_, hidle⟩
        rw [isParsed_iff.mpr ⟨entry, hentry, hstate⟩] at hparsed
        cases hparsed
      rw [if_neg hkept, if_pos hopen]
      exact ((w.schedulePrefetch key).scheduleAll_same rest evicted).pendingPrefetch
        (w.mem_schedulePrefetch key)
    · split
      · exact ih hrest hentry hwaits
      · split
        · have hsame := w.schedulePrefetch_same other
          apply ih hrest
          · rw [hsame.entries, hentry]
          · rwa [hsame.waiting]
        · exact ih hrest hentry hwaits

/-! ## The pass over the listing -/

theorem abortUnwanted_same (w : Window K T I P) (keys wanted : List K) :
    (w.abortUnwanted keys wanted).failed = w.failed ∧
      (w.abortUnwanted keys wanted).nextJob = w.nextJob ∧
        ∀ key ∈ wanted, (w.abortUnwanted keys wanted).inflight key = w.inflight key := by
  induction keys generalizing w with
  | nil => exact ⟨rfl, rfl, fun _ _ => rfl⟩
  | cons other rest ih =>
    rw [abortUnwanted, List.foldl_cons]
    split
    · exact ih w
    · split
      · exact ih w
      · rename_i id _ hunwanted
        have hone : (w.abortJob other id).failed = w.failed ∧
            (w.abortJob other id).nextJob = w.nextJob ∧
              ∀ key ∈ wanted, (w.abortJob other id).inflight key = w.inflight key := by
          rw [abortJob]
          split
          · exact ⟨rfl, rfl, fun _ _ => rfl⟩
          · refine ⟨rfl, rfl, fun key hkey => Function.update_of_ne ?_ _ _⟩
            rintro rfl
            exact hunwanted hkey
        rcases ih (w.abortJob other id) with ⟨hfailed, hnext, hinflight⟩
        exact ⟨hfailed.trans hone.1, hnext.trans hone.2.1,
          fun key hkey => (hinflight key hkey).trans (hone.2.2 key hkey)⟩

theorem evict_waiting (hkeys : ∀ key ∈ keys, key ∉ wanted plan) :
    (w.evict keys).waiting plan = w.waiting plan := by
  apply waiting_congr
  intro key hwanted
  have hentry : (w.evict keys).entries key = w.entries key :=
    if_neg fun hmem => hkeys key hmem hwanted
  rw [isParsed, isParsed, hentry]
  exact ⟨rfl, rfl, Iff.rfl⟩

/-- A pass starts no more jobs than it attends to segments, and schedules prefetching
for the segments that still wait. -/
theorem Consistent.reconcile_waiting (hw : w.Consistent opts) (hopen : w.disposed = false)
    (hview : w.view = some view) :
    ((w.reconcile opts).waiting (w.planAdmission opts view)).card + (w.reconcile opts).nextJob ≤
        (w.waiting (w.planAdmission opts view)).card + w.nextJob ∧
      ∀ key ∈ (w.reconcile opts).waiting (w.planAdmission opts view),
        key ∈ (w.reconcile opts).pendingPrefetch := by
  rcases hw.pass hopen hview with
    ⟨plan, cleared, evicted, hplan, hcleared, hcons, hmoves, hspare, -, hnext⟩
  rcases w.abortUnwanted_same opts.orderedKeys (wanted plan) with ⟨hfailed, hjobs, hinflight⟩
  have hwaits : cleared.waiting plan = w.waiting plan := by
    apply waiting_congr
    intro key hwanted
    refine ⟨congrFun (isParsed_of_settled hmoves.settled) key, ?_, ?_⟩
    · rw [hcleared]
      exact hinflight key hwanted
    · rw [hcleared]
      dsimp only
      rw [List.mem_filter, decide_eq_true_iff, hfailed, and_iff_left hwanted]
  have hunwanted : ∀ key ∈ evicted, key ∉ wanted plan := fun key hkey => (hspare key hkey).2
  have hevict := hcons.evict fun key hkey => (hspare key hkey).1
  have hover : (cleared.evict evicted).isOversized = w.isOversized := by
    rw [isOversized_evict fun key hkey => (hspare key hkey).1,
      isOversized_of_settled hmoves.settled]
  have hopen' : (cleared.evict evicted).disposed = false ∧ (cleared.evict evicted).view ≠ none :=
    ⟨hmoves.disposed.trans hopen, (hmoves.view.trans hview).trans_ne nofun⟩
  have hadmitted : ∀ key ∈ wanted plan, key ∉ evicted ∧ (opts.byKey key).isSome = true ∧
      w.isOversized key = false := fun key hwanted =>
    ⟨fun hmem => hunwanted key hmem hwanted, planOf_admitted (hplan ▸ hwanted)⟩
  have hneeded : ∀ key ∈ plan.1.admitted, key ∈ wanted plan ∧ key ∉ evicted ∧
      (opts.byKey key).isSome = true ∧ (cleared.evict evicted).isOversized key = false := by
    intro key hkey
    have hwanted : key ∈ wanted plan := List.mem_append_left _ hkey
    rw [hover]
    exact ⟨hwanted, hadmitted key hwanted⟩
  rcases hevict.startNeeded_waiting hopen' hneeded with ⟨hsubset, hcard, hstarted⟩
  have hsame := ((cleared.evict evicted).startNeeded plan.1.admitted evicted).scheduleAll_same
    plan.2.admitted evicted
  rw [← hnext] at hsame
  rw [← hplan, hsame.waiting, hsame.nextJob]
  constructor
  · have hcount : (cleared.evict evicted).nextJob = w.nextJob := by
      rw [hcleared]
      exact hjobs
    rw [evict_waiting hunwanted, hwaits, hcount] at hcard
    exact hcard
  · intro key hkey
    have hwanted := (mem_waiting.mp hkey).1
    rcases hadmitted key hwanted with ⟨hkept, hlisted, hgood⟩
    have hprefetch : key ∈ plan.2.admitted :=
      (List.mem_append.mp hwanted).resolve_left fun hneed => hstarted key hneed hkey
    rcases hevict.startNeeded hopen' plan.1.admitted evicted with ⟨hcons', hmoves'⟩
    rw [← hover, ← isOversized_of_settled hmoves'.settled] at hgood
    rcases hcons'.entry_of_listed hlisted hgood with ⟨entry, hentry, -⟩
    rw [hnext]
    exact scheduleAll_attends hprefetch hkept hentry hkey

/-! ## What is learned -/

/-- The segments whose size is not known. -/
def unknown (opts : WindowOptions K T I P) (w : Window K T I P) : Finset K :=
  opts.listedKeys.toFinset.filter fun key => w.knownSize key = none

/-- How many more jobs may start while the viewport stays. Learning a size may change
the whole plan, but every segment's size is learned once. -/
def potential (opts : WindowOptions K T I P) (w : Window K T I P) : Nat :=
  match w.disposed, w.view with
  | false, some view =>
    (w.unknown opts).card * (opts.listedKeys.length + 1) +
      (w.waiting (w.planAdmission opts view)).card
  | _, _ => 0

/-- A prefetch is pending for every segment that waits. -/
def Attended (opts : WindowOptions K T I P) (w : Window K T I P) : Prop :=
  ∀ view, w.disposed = false → w.view = some view →
    ∀ key ∈ w.waiting (w.planAdmission opts view), key ∈ w.pendingPrefetch

theorem potential_eq (hopen : w.disposed = false) (hview : w.view = some view) :
    w.potential opts = (w.unknown opts).card * (opts.listedKeys.length + 1) +
      (w.waiting (w.planAdmission opts view)).card := by
  rw [potential, hopen, hview]

theorem potential_closed (h : w.disposed = true ∨ w.view = none) : w.potential opts = 0 := by
  rw [potential]
  split
  case h_1 hopen hview =>
    rcases h with h | h
    · cases hopen.symm.trans h
    · cases hview.symm.trans h
  case h_2 => rfl

theorem unknown_congr (h : next.knownSize = w.knownSize) : next.unknown opts = w.unknown opts := by
  rw [unknown, unknown, h]

theorem mem_listedKeys_of_byKey (hkey : (opts.byKey key).isSome = true) :
    key ∈ opts.listedKeys := by
  obtain ⟨s, hs⟩ := Option.isSome_iff_exists.mp hkey
  rw [WindowOptions.listedKeys, List.mem_reverse, List.mem_dedup, List.mem_reverse]
  exact mem_orderedKeys hs

theorem listedKeys_card : opts.listedKeys.toFinset.card = opts.listedKeys.length :=
  List.toFinset_card_of_nodup (List.nodup_reverse.mpr (List.nodup_dedup _))

theorem waiting_card_le :
    (w.waiting (next.planAdmission opts view)).card ≤ opts.listedKeys.length := by
  rw [← listedKeys_card]
  apply Finset.card_le_card
  intro key hkey
  exact List.mem_toFinset.mpr
    (mem_listedKeys_of_byKey (planOf_admitted (mem_waiting.mp hkey).1).1)

theorem potential_le :
    w.potential opts ≤ opts.listedKeys.length * (opts.listedKeys.length + 2) := by
  by_cases h : w.disposed = true ∨ w.view = none
  · rw [potential_closed h]
    exact Nat.zero_le _
  · rcases not_or.mp h with ⟨hopen, hview⟩
    rcases Option.ne_none_iff_exists'.mp hview with ⟨view, hview⟩
    rw [potential_eq (Bool.eq_false_of_not_eq_true hopen) hview]
    have hunknown : (w.unknown opts).card ≤ opts.listedKeys.length := by
      rw [← listedKeys_card]
      exact Finset.card_filter_le _ _
    have hmul := Nat.mul_le_mul_right (opts.listedKeys.length + 1) hunknown
    have hwaiting : (w.waiting (w.planAdmission opts view)).card ≤ opts.listedKeys.length :=
      waiting_card_le
    calc _ ≤ opts.listedKeys.length * (opts.listedKeys.length + 1) + opts.listedKeys.length :=
          Nat.add_le_add hmul hwaiting
      _ = opts.listedKeys.length * (opts.listedKeys.length + 2) := rfl

/-! ## A step while the viewport stays -/

theorem attends (hsettled : next.settled = w.settled) (hview : next.view = w.view)
    (hdisposed : next.disposed = w.disposed)
    (hclosed : w.disposed = true ∨ w.view = none → next.nextJob = w.nextJob)
    (hopen : ∀ view, w.disposed = false → w.view = some view →
      let plan := w.planAdmission opts view
      (next.waiting plan).card + next.nextJob ≤ (w.waiting plan).card + w.nextJob ∧
        ∀ key ∈ next.waiting plan, key ∈ w.waiting plan ∧
          (key ∈ w.pendingPrefetch → key ∈ next.pendingPrefetch)) :
    next.potential opts + next.nextJob ≤ w.potential opts + w.nextJob ∧
      (w.Attended opts → next.Attended opts) := by
  have hplan : next.planAdmission opts = w.planAdmission opts := planAdmission_of_settled hsettled
  constructor
  · by_cases h : w.disposed = true ∨ w.view = none
    · rw [potential_closed h, potential_closed (by rwa [hdisposed, hview]), hclosed h]
    · rcases not_or.mp h with ⟨hlive, hlook⟩
      have hlive := Bool.eq_false_of_not_eq_true hlive
      rcases Option.ne_none_iff_exists'.mp hlook with ⟨view, hlook⟩
      rw [potential_eq hlive hlook, potential_eq (hdisposed.trans hlive) (hview.trans hlook), hplan,
        unknown_congr (knownSize_of_settled hsettled)]
      have hcard := (hopen view hlive hlook).1
      omega
  · intro hattended view hlive hlook key hkey
    rw [hdisposed] at hlive
    rw [hview] at hlook
    rw [hplan] at hkey
    rcases (hopen view hlive hlook).2 key hkey with ⟨hwaits, hpending⟩
    exact hpending (hattended view hlive hlook key hwaits)

theorem SameJobs.attends (h : SameJobs w next) (hview : next.view = w.view)
    (hdisposed : next.disposed = w.disposed) :
    next.potential opts + next.nextJob ≤ w.potential opts + w.nextJob ∧
      (w.Attended opts → next.Attended opts) := by
  have hsettled : next.settled = w.settled := by
    funext key
    rw [settled, settled, h.entries]
  apply Window.attends hsettled hview hdisposed fun _ => h.nextJob
  intro view _ _
  dsimp only
  rw [h.waiting, h.nextJob]
  exact ⟨le_rfl, fun key hkey => ⟨hkey, fun hpending => h.pendingPrefetch hpending⟩⟩

theorem Consistent.fail_attends (hw : w.Consistent opts) {id : Nat} {job : Job K}
    (hjob : w.jobs id = some job) (hlive : job.aborted = false)
    (hnext : next = { w.forget id with
      inflight := Function.update w.inflight job.key none
      failed := w.failed.insert job.key }.setState job.key job.revertTo) :
    next.potential opts + next.nextJob ≤ w.potential opts + w.nextJob ∧
      (w.Attended opts → next.Attended opts) := by
  rcases hw.fail hjob hlive hnext with ⟨-, hmoves⟩
  have hparsed := isParsed_of_settled hmoves.settled
  have hcount : next.nextJob = w.nextJob := by
    rw [hnext]
    rfl
  apply attends hmoves.settled hmoves.view hmoves.disposed fun _ => hcount
  intro view _ _
  dsimp only
  have hsubset :
      next.waiting (w.planAdmission opts view) ⊆ w.waiting (w.planAdmission opts view) := by
    intro key hkey
    rcases mem_waiting.mp hkey with ⟨hwanted, hopen, hidle, hfailed⟩
    rw [hparsed] at hopen
    rw [hnext] at hidle hfailed
    rcases not_or.mp (mt List.mem_insert_iff.mpr hfailed) with ⟨hne, hfailed⟩
    exact mem_waiting.mpr
      ⟨hwanted, hopen, (Function.update_of_ne hne _ _).symm.trans hidle, hfailed⟩
  refine ⟨Nat.add_le_add (Finset.card_le_card hsubset) hcount.le, fun key hkey => ?_⟩
  refine ⟨hsubset hkey, fun hpending => ?_⟩
  rw [hnext]
  exact hpending

theorem Consistent.idle_attends (hw : w.Consistent opts) {key : K} {reconciles : Bool}
    (h : w.apply opts (.idle key) = some (next, reconciles)) :
    reconciles = false ∧ next.potential opts + next.nextJob ≤ w.potential opts + w.nextJob ∧
      (w.Attended opts → next.Attended opts) := by
  rcases Option.ite_none_right_eq_some.mp h with ⟨-, hrest⟩
  obtain ⟨cleared, hcleared⟩ : ∃ cleared, cleared =
    { w with pendingPrefetch := w.pendingPrefetch.filter fun other => decide (other ≠ key) } :=
    ⟨_, rfl⟩
  obtain ⟨hcons, hmoves⟩ := hw.unqueued hcleared
  have hcount : cleared.nextJob = w.nextJob := by
    rw [hcleared]
  have hwaits : ∀ plan, cleared.waiting plan = w.waiting plan := by
    intro plan
    rw [hcleared]
    exact waiting_congr fun _ _ => ⟨rfl, rfl, Iff.rfl⟩
  have hpending : ∀ other ≠ key, other ∈ w.pendingPrefetch → other ∈ cleared.pendingPrefetch := by
    intro other hne hmem
    rw [hcleared]
    exact List.mem_filter.mpr ⟨hmem, decide_eq_true hne⟩
  rw [← hcleared] at hrest
  split at hrest
  case h_1 view hopen hview =>
    have hplan : cleared.planAdmission opts = w.planAdmission opts :=
      planAdmission_of_settled hmoves.settled
    have hsame : ∀ view', w.view = some view' →
        w.planAdmission opts view' = cleared.planAdmission opts view := by
      intro view' hview'
      rw [hmoves.view, hview'] at hview
      rw [hplan, Option.some.inj hview]
    split at hrest
    case isTrue hwanted =>
      cases hrest
      have hlooks : cleared.disposed = false ∧ cleared.view ≠ none := ⟨hopen, hview.trans_ne nofun⟩
      rcases hcons.startJob hlooks key with ⟨-, hmoves'⟩
      rcases planOf_admitted hwanted with ⟨hlisted, hover⟩
      rcases hcons.startJob_waiting hlooks hwanted with ⟨hsubset, hcard⟩
      refine ⟨rfl, attends (hmoves'.settled.trans hmoves.settled) (hmoves'.view.trans hmoves.view)
        (hmoves'.disposed.trans hmoves.disposed) ?_ ?_⟩
      · intro hclosed
        rw [← hmoves.disposed, ← hmoves.view, hopen, hview] at hclosed
        rcases hclosed with h | h <;> cases h
      · intro view' _ hview'
        dsimp only
        rw [hsame view' hview']
        rw [hwaits, hcount] at hcard
        rw [hwaits] at hsubset
        refine ⟨hcard, fun other hother => ⟨hsubset hother, fun hmem => ?_⟩⟩
        have hne : other ≠ key := by
          rintro rfl
          exact hcons.startJob_attends hlooks hlisted hover hother
        have hmem' := hpending other hne hmem
        rcases cleared.startJob_cases key with ⟨hstay, -⟩ | ⟨_, _, _, _, _, _, _, hstart⟩
        · rwa [hstay]
        · rwa [hstart]
    case isFalse hunwanted =>
      cases hrest
      refine ⟨rfl, attends hmoves.settled hmoves.view hmoves.disposed (fun _ => hcount) ?_⟩
      intro view' _ hview'
      dsimp only
      rw [hwaits, hcount]
      refine ⟨le_rfl, fun other hother => ⟨hother, hpending other ?_⟩⟩
      rintro rfl
      rw [hsame view' hview'] at hother
      exact hunwanted (mem_waiting.mp hother).1
  case h_2 hclosed =>
    cases hrest
    refine ⟨rfl, attends hmoves.settled hmoves.view hmoves.disposed (fun _ => hcount) ?_⟩
    intro view' hopen hview'
    exact absurd (hmoves.view.trans hview') (hclosed view' (hmoves.disposed.trans hopen))

/-- A parse teaches the size of its segment, or changes no plan. -/
theorem Consistent.complete_potential (hw : w.Consistent opts) {id : Nat} {job : Job K}
    (hjob : w.jobs id = some job) (hlive : job.aborted = false) (hopen : w.disposed = false)
    (hview : w.view = some view) (trace : T) {raw : Nat}
    (hsame : ∀ known, w.knownSize job.key = some known → raw = known)
    (hnext : next = w.complete opts id job.key trace raw) :
    next.potential opts ≤ w.potential opts := by
  rcases hw.reverts hjob hlive with ⟨entry, hentry, -⟩
  have hfetching := (hw.entryOk_revert hjob hlive hentry).2.1
  have hother : ∀ key ≠ job.key, next.entries key = w.entries key ∧
      next.inflight key = w.inflight key := by
    intro key hne
    rw [hnext]
    exact ⟨Function.update_of_ne hne _ _, Function.update_of_ne hne _ _⟩
  obtain ⟨entry', hentry', hstate, hraw⟩ : ∃ entry', next.entries job.key = some entry' ∧
      entry'.state = (if opts.residentBudget < raw then .oversized else .parsed) ∧
        entry'.rawByteLength = some raw := by
    rw [hnext]
    refine ⟨_, (Function.update_self ..).trans (congrArg (Option.map _) hentry), rfl, rfl⟩
  have hopen' : next.disposed = false ∧ next.view = some view := by
    rw [hnext]
    exact ⟨hopen, hview⟩
  have hsize : next.knownSize job.key = some raw := by
    rw [knownSize, hentry', Option.bind_some, hraw]
  have hsizeOther : ∀ key ≠ job.key, next.knownSize key = w.knownSize key := by
    intro key hne
    rw [knownSize, knownSize, (hother key hne).1]
  rw [potential_eq hopen hview, potential_eq hopen'.1 hopen'.2]
  cases hknown : w.knownSize job.key with
  | some known =>
    -- The size was known, and it fits: the plan is as it was.
    obtain rfl : raw = known := hsame known hknown
    have hfit : raw ≤ opts.residentBudget := by
      rw [knownSize, hentry, Option.bind_some] at hknown
      exact ((hw.entry hentry).fits raw hknown).resolve_right fun hover =>
        SegmentState.noConfusion (hfetching.symm.trans hover)
    have hsizes : next.knownSize = w.knownSize := by
      funext key
      by_cases hkey : key = job.key
      · rw [hkey, hsize, hknown]
      · exact hsizeOther key hkey
    have hover : next.isOversized = w.isOversized := by
      funext key
      rw [isOversized, isOversized]
      by_cases hkey : key = job.key
      · rw [hkey, hentry', hentry, Option.map_some, Option.map_some, hstate, hfetching,
          if_neg (Nat.not_lt.mpr hfit)]
        rfl
      · rw [(hother key hkey).1]
    have hsubset :
        next.waiting (w.planAdmission opts view) ⊆ w.waiting (w.planAdmission opts view) := by
      intro key hkey
      rcases mem_waiting.mp hkey with ⟨hwanted, hparsed, hidle, hfailed⟩
      have hne : key ≠ job.key := by
        rintro rfl
        rw [isParsed, hentry', Option.map_some, hstate, if_neg (Nat.not_lt.mpr hfit)] at hparsed
        cases hparsed
      rw [isParsed, (hother key hne).1] at hparsed
      rw [(hother key hne).2] at hidle
      rw [hnext] at hfailed
      exact mem_waiting.mpr ⟨hwanted, hparsed, hidle, hfailed⟩
    rw [planAdmission_congr hover hsizes, unknown_congr hsizes]
    exact Nat.add_le_add_left (Finset.card_le_card hsubset) _
  | none =>
    -- One unknown size less pays for any new plan.
    have hsubset : next.unknown opts ⊆ w.unknown opts := by
      intro key hkey
      rcases Finset.mem_filter.mp hkey with ⟨hlisted, hnone⟩
      refine Finset.mem_filter.mpr ⟨hlisted, ?_⟩
      by_cases heq : key = job.key
      · rw [heq, hknown]
      · rwa [← hsizeOther key heq]
    have hmem : job.key ∈ w.unknown opts := by
      have hsome := hw.listed job.key
      rw [hentry] at hsome
      exact Finset.mem_filter.mpr
        ⟨List.mem_toFinset.mpr (mem_listedKeys_of_byKey hsome.symm), hknown⟩
    have hnot : job.key ∉ next.unknown opts := by
      intro hmem'
      cases hsize.symm.trans (Finset.mem_filter.mp hmem').2
    have hless := Finset.card_lt_card
      (Finset.ssubset_iff_of_subset hsubset |>.mpr ⟨job.key, hmem, hnot⟩)
    have hmul := Nat.mul_le_mul_right (opts.listedKeys.length + 1) (Nat.succ_le_of_lt hless)
    have hwaiting : (next.waiting (next.planAdmission opts view)).card ≤ opts.listedKeys.length :=
      waiting_card_le
    rw [Nat.succ_mul] at hmul
    omega

/-- The sizes that are known are the segments' own. -/
def Sizes (size : K → Nat) (w : Window K T I P) : Prop :=
  ∀ key raw, w.knownSize key = some raw → raw = size key

/-- A parse of a segment's bytes gives the segment's size. -/
def SameSize (size : K → Nat) (w : Window K T I P) (event : Event K T) : Prop :=
  ∀ id trace raw, event = .parsed id trace raw → ∀ job, w.jobs id = some job → raw = size job.key

/-- What a run keeps. -/
structure Progress (opts : WindowOptions K T I P) (size : K → Nat) (w : Window K T I P) : Prop where
  consistent : w.Consistent opts
  sizes : w.Sizes size
  attended : w.Attended opts

theorem create_progress (size : K → Nat) : (create opts).Progress opts size where
  consistent := create_consistent
  sizes key raw hraw := by
    rcases Option.bind_eq_some_iff.mp hraw with ⟨entry, hentry, hsome⟩
    rcases Option.map_eq_some_iff.mp hentry with ⟨s, -, rfl⟩
    cases hsome
  attended := nofun

variable {size : K → Nat}

variable {event : Event K T}

theorem Progress.apply_idle (hw : w.Progress opts size)
    (h : w.apply opts event = some (next, false)) :
    next.potential opts + next.nextJob ≤ w.potential opts + w.nextJob ∧
      (w.Attended opts → next.Attended opts) := by
  cases event with
  | setViewport view =>
    rcases Option.ite_none_left_eq_some.mp h with ⟨-, hnext⟩
    cases hnext
  | fetched id byteLength =>
    rcases Option.bind_eq_some_iff.mp h with ⟨job, hjob, hrest⟩
    rcases Option.ite_none_left_eq_some.mp hrest with ⟨-, hrest⟩
    split at hrest <;> cases hrest <;>
      exact SameJobs.attends ⟨rfl, rfl, rfl, rfl, List.Subset.refl _⟩ rfl rfl
  | jobFailed id =>
    rcases Option.map_eq_some_iff.mp h with ⟨job, hjob, hrest⟩
    split at hrest
    case isTrue =>
      cases hrest
      exact SameJobs.attends ⟨rfl, rfl, rfl, rfl, List.Subset.refl _⟩ rfl rfl
    case isFalse hkept =>
      cases hrest
      have hlive := Bool.eq_false_of_not_eq_true (not_or.mp hkept).1
      exact hw.consistent.fail_attends hjob hlive rfl
  | parsed id trace raw =>
    rcases Option.bind_eq_some_iff.mp h with ⟨job, hjob, hrest⟩
    rcases Option.ite_none_right_eq_some.mp hrest with ⟨-, hrest⟩
    split at hrest <;> cases hrest
    exact SameJobs.attends ⟨rfl, rfl, rfl, rfl, List.Subset.refl _⟩ rfl rfl
  | idle key => exact (hw.consistent.idle_attends h).2
  | dispose =>
    rw [Window.apply] at h
    split at h
    case isTrue =>
      cases h
      exact ⟨le_rfl, id⟩
    case isFalse =>
      cases h
      rw [potential_closed (.inl rfl)]
      refine ⟨?_, fun _ _ hopen => by cases hopen⟩
      exact Nat.add_le_add (Nat.zero_le _) (w.abortUnwanted_same opts.orderedKeys []).2.1.le

theorem Consistent.reconcile_attends (hw : w.Consistent opts) (hopen : w.disposed = false)
    (hview : w.view = some view) :
    (w.reconcile opts).potential opts + (w.reconcile opts).nextJob ≤ w.potential opts + w.nextJob ∧
      (w.reconcile opts).Attended opts := by
  have hdone := hw.reconcile hopen hview
  have hplan : (w.reconcile opts).planAdmission opts = w.planAdmission opts :=
    planAdmission_congr hdone.oversized hdone.knownSize
  rcases hw.reconcile_waiting hopen hview with ⟨hcard, hpending⟩
  constructor
  · rw [potential_eq hopen hview, potential_eq hdone.looks.1 hdone.looks.2, hplan,
      unknown_congr hdone.knownSize]
    omega
  · intro view' _ hview' key hkey
    obtain rfl : view = view' := Option.some.inj (hdone.looks.2.symm.trans hview')
    rw [hplan] at hkey
    exact hpending key hkey

theorem Progress.apply_parsed (hw : w.Progress opts size)
    (hsame : SameSize size w event) (hevent : ∀ view, event ≠ .setViewport view)
    (h : w.apply opts event = some (next, true)) :
    ∃ id job trace, w.jobs id = some job ∧ job.aborted = false ∧
      next = w.complete opts id job.key trace (size job.key) := by
  cases event with
  | setViewport view => exact absurd rfl (hevent view)
  | fetched id byteLength =>
    rcases Option.bind_eq_some_iff.mp h with ⟨job, hjob, hrest⟩
    rcases Option.ite_none_left_eq_some.mp hrest with ⟨-, hrest⟩
    split at hrest <;> cases hrest
  | jobFailed id =>
    rcases Option.map_eq_some_iff.mp h with ⟨job, hjob, hrest⟩
    split at hrest <;> cases hrest
  | parsed id trace raw =>
    rcases Option.bind_eq_some_iff.mp h with ⟨job, hjob, hrest⟩
    rcases Option.ite_none_right_eq_some.mp hrest with ⟨-, hrest⟩
    split at hrest
    case isTrue => cases hrest
    case isFalse hkept =>
      cases hrest
      have hlive := Bool.eq_false_of_not_eq_true (not_or.mp hkept).1
      exact ⟨id, job, trace, hjob, hlive, hsame id trace raw rfl job hjob ▸ rfl⟩
  | idle key => cases (hw.consistent.idle_attends h).1
  | dispose =>
    rw [Window.apply] at h
    split at h <;> cases h

theorem Sizes.complete (hsizes : w.Sizes size) (id : Nat) (key : K) (trace : T) :
    (w.complete opts id key trace (size key)).Sizes size := by
  intro other raw hraw
  rw [knownSize, Window.complete] at hraw
  dsimp only at hraw
  by_cases hkey : other = key
  · rw [hkey, Function.update_self] at hraw
    rcases Option.bind_eq_some_iff.mp hraw with ⟨entry, hentry, hsome⟩
    rcases Option.map_eq_some_iff.mp hentry with ⟨before, -, rfl⟩
    rw [hkey]
    exact (Option.some.inj hsome).symm
  · rw [Function.update_of_ne hkey] at hraw
    exact hsizes other raw hraw

/-- While the viewport stays, every job that is started is paid for. -/
theorem Progress.step {size : K → Nat} (hw : w.Progress opts size)
    (hsame : SameSize size w event) (h : w.step opts event = some next) :
    next.Progress opts size ∧ ((∀ view, event ≠ .setViewport view) →
      next.potential opts + next.nextJob ≤ w.potential opts + w.nextJob) := by
  rcases Option.map_eq_some_iff.mp h with ⟨⟨mid, reconciles⟩, happly, hnext⟩
  have happlied := hw.consistent.apply happly
  cases reconciles with
  | false =>
    obtain rfl : mid = next := hnext
    rcases hw.apply_idle happly with ⟨hpaid, hattended⟩
    refine ⟨⟨happlied.consistent, ?_, hattended hw.attended⟩, fun _ => hpaid⟩
    rw [Sizes, knownSize_of_settled (happlied.idle rfl)]
    exact hw.sizes
  | true =>
    obtain rfl : mid.reconcile opts = next := hnext
    rcases happlied.looks rfl with ⟨hopen, view, hview⟩
    have hdone := happlied.consistent.reconcile hopen hview
    rcases happlied.consistent.reconcile_attends hopen hview with ⟨hpaid, hattended⟩
    by_cases hevent : ∀ view, event ≠ .setViewport view
    · rcases hw.apply_parsed hsame hevent happly with ⟨id, job, trace, hjob, hlive, hmid⟩
      refine ⟨⟨hdone.consistent, ?_, hattended⟩, fun _ => hpaid.trans ?_⟩
      · rw [Sizes, hdone.knownSize, hmid]
        exact hw.sizes.complete id job.key trace
      · have hsee : w.disposed = false ∧ w.view = some view := by
          rw [hmid] at hopen hview
          exact ⟨hopen, hview⟩
        have hlearned := hw.consistent.complete_potential hjob hlive hsee.1 hsee.2 trace
          (fun known hknown => (hw.sizes job.key known hknown).symm) hmid
        have hcount : mid.nextJob = w.nextJob := by
          rw [hmid]
          rfl
        omega
    · refine ⟨⟨hdone.consistent, ?_, hattended⟩, fun hno => absurd hno hevent⟩
      rw [Sizes, hdone.knownSize]
      rcases not_forall.mp hevent with ⟨view', hevent⟩
      obtain rfl := not_not.mp hevent
      rcases Option.ite_none_left_eq_some.mp happly with ⟨-, hmid⟩
      cases hmid
      exact hw.sizes

theorem Progress.setViewport (hw : w.Progress opts size)
    (h : w.step opts (.setViewport view) = some next) :
    next.potential opts + next.nextJob ≤
      w.nextJob + opts.listedKeys.length * (opts.listedKeys.length + 2) := by
  rcases Option.map_eq_some_iff.mp h with ⟨⟨mid, reconciles⟩, happly, hnext⟩
  have happlied := hw.consistent.apply happly
  rcases Option.ite_none_left_eq_some.mp happly with ⟨-, hmid⟩
  cases hmid
  rcases happlied.looks rfl with ⟨hopen, view', hview⟩
  have hpaid := (happlied.consistent.reconcile_attends hopen hview).1
  rw [← show _ = next from hnext]
  have hbound : Window.potential opts { w with view := some view } ≤ _ := potential_le
  refine hpaid.trans ?_
  dsimp only
  omega

/-! ## In every run -/

/-- From any state that is reached, a viewport starts finitely many jobs, whatever sizes
the parses find; and once nothing is in flight or pending, every admitted segment is
parsed, failed or given up. -/
theorem no_parse_evict_loop {opts : WindowOptions K T I P} {size : K → Nat}
    {before : List (Event K T)} {w : Window K T I P}
    (hsame : Lib.Along (step opts) (SameSize size) (create opts) before)
    (hrun : Lib.run (step opts) (create opts) before = some w) :
    (∀ view later last, Lib.Along (step opts) (SameSize size) w (.setViewport view :: later) →
      (∀ view', .setViewport view' ∉ later) →
      Lib.run (step opts) w (.setViewport view :: later) = some last →
        last.nextJob ≤ w.nextJob + opts.listedKeys.length * (opts.listedKeys.length + 2)) ∧
      ∀ view, w.disposed = false → w.view = some view → (∀ key, w.inflight key = none) →
        w.pendingPrefetch = [] → ∀ key ∈ wanted (w.planAdmission opts view),
          ∃ entry, w.entries key = some entry ∧
            (entry.state = .parsed ∨ entry.state = .oversized ∨ key ∈ w.failed) := by
  have hkeep : ∀ s e next, Progress opts size s → SameSize size s e → s.step opts e = some next →
      next.Progress opts size := fun s e next hs he h => (hs.step he h).1
  have hw : w.Progress opts size := Lib.run_invariant hkeep (create_progress size) hsame hrun
  constructor
  · intro view later last halong hlater hlast
    rcases Lib.run_cons hlast with ⟨first, hfirst, hrest⟩
    have hopened := hw.setViewport hfirst
    have hpays : ∀ s e next, (Progress opts size s ∧ s.potential opts + s.nextJob ≤
        first.potential opts + first.nextJob) →
          (SameSize size s e ∧ ∀ view', e ≠ .setViewport view') →
          s.step opts e = some next → next.Progress opts size ∧
            next.potential opts + next.nextJob ≤ first.potential opts + first.nextJob := by
      rintro s e next ⟨hs, hpaid⟩ ⟨hsame, hevent⟩ h
      rcases hs.step hsame h with ⟨hnext, hpay⟩
      exact ⟨hnext, (hpay hevent).trans hpaid⟩
    have hquiet : ∀ e ∈ later, ∀ s : Window K T I P, ∀ view', e ≠ .setViewport view' := by
      rintro e he s view' rfl
      exact hlater view' he
    have hstay := Lib.along_and (halong.2 first hfirst) (Lib.along_of_forall hquiet first)
    have hdone := Lib.run_invariant hpays ⟨(hw.step halong.1 hfirst).1, le_rfl⟩ hstay hrest
    have hpaid := hdone.2
    omega
  · intro view hopen hview hidle hnone key hkey
    rcases planOf_admitted hkey with ⟨hlisted, hover⟩
    rcases hw.consistent.entry_of_listed hlisted hover with ⟨entry, hentry, -⟩
    refine ⟨entry, hentry, ?_⟩
    by_cases hparsed : entry.state = .parsed
    · exact .inl hparsed
    · by_cases hfailed : key ∈ w.failed
      · exact .inr (.inr hfailed)
      · have hopen' : w.isParsed key = false := by
          rw [isParsed, hentry, Option.map_some]
          exact decide_eq_false fun heq => hparsed (Option.some.inj heq)
        have hpending := hw.attended view hopen hview key
          (mem_waiting.mpr ⟨hkey, hopen', hidle key, hfailed⟩)
        rw [hnone] at hpending
        cases hpending

/-- Two adjacent segments that both fit. -/
def twoSegments : WindowOptions Bool Unit Unit Unit where
  segments := [⟨false, 1, ⟨0, 5⟩⟩, ⟨true, 1, ⟨6, 10⟩⟩]
  residentBudget := 12
  evictionTrigger := 10
  trigger_le_budget := by decide
  cacheTrigger := 10
  segmentInvariants := id
  computeSegmentEdgePolls := id

def twoSegmentsParsed : List (Event Bool Unit) :=
  [.setViewport ⟨0, 10⟩, .fetched 0 1, .fetched 1 1, .parsed 1 () 5, .parsed 0 () 5]

theorem no_parse_evict_loop_twoSegments :
    ∃ w, Lib.run (step twoSegments) (create twoSegments) twoSegmentsParsed = some w ∧
      (∀ last, Lib.run (step twoSegments) w [.setViewport ⟨20, 30⟩] = some last →
        last.nextJob ≤ 2 + 2 * (2 + 2)) ∧
      ∀ key ∈ wanted (w.planAdmission twoSegments ⟨0, 10⟩), ∃ entry, w.entries key = some entry ∧
        (entry.state = .parsed ∨ entry.state = .oversized ∨ key ∈ w.failed) := by
  have hsame : ∀ e ∈ twoSegmentsParsed, ∀ s : Window Bool Unit Unit Unit,
      SameSize (fun _ => 5) s e := by
    rintro e he s id trace raw rfl job -
    simp only [twoSegmentsParsed, List.mem_cons, reduceCtorEq, Event.parsed.injEq, List.not_mem_nil,
      or_false, false_or] at he
    rcases he with ⟨-, -, rfl⟩ | ⟨-, -, rfl⟩ <;> rfl
  have hlast : (Lib.run (step twoSegments) (create twoSegments) twoSegmentsParsed).any fun w =>
      decide ((w.disposed = false ∧ w.view = some ⟨0, 10⟩ ∧ ∀ key, w.inflight key = none) ∧
        w.pendingPrefetch = [] ∧ w.nextJob = 2) := by
    decide
  rcases (Option.any_eq_true _ _).mp hlast with ⟨w, hrun, hw⟩
  rcases of_decide_eq_true hw with ⟨⟨hopen, hview, hidle⟩, hnone, hcount⟩
  rcases no_parse_evict_loop (Lib.along_of_forall hsame _) hrun with ⟨hjobs, hparsed⟩
  refine ⟨w, hrun, ?_, hparsed ⟨0, 10⟩ hopen hview hidle hnone⟩
  intro last hlast
  have hkeys : twoSegments.listedKeys.length = 2 := by decide
  have hstarted := hjobs ⟨20, 30⟩ [] last ⟨nofun, fun _ _ => trivial⟩ nofun hlast
  rwa [hcount, hkeys] at hstarted

end Window

end Dial9.Viewer.Segments
