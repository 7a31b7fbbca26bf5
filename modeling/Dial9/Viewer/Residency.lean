/-
# Residency

The states of a segment window in any order of events. A segment is being fetched
exactly while a job of its own is in flight, and what is parsed stays within the
budget, without evicting what is admitted.

Aborting and starting jobs moves a segment between the states that hold no trace, so
that what is resident can be read off the rest, `settled`.
-/

import Dial9.Viewer.SegmentWindow
import Dial9.Lib.Run

namespace Dial9.Viewer.Segments

variable {K T I P : Type}

/-! ## An entry -/

/-- What an entry says, by whether a job of it is in flight and by its last parse. -/
structure EntryOk (opts : WindowOptions K T I P) (inflight : Option Nat) (lastParse : Option T)
    (entry : SegmentEntry T I P) : Prop where
  fetching : entry.state = .fetching ↔ inflight ≠ none
  trace : entry.trace.isSome = true ↔ entry.state = .parsed
  size : entry.state = .parsed → ∃ raw, entry.rawByteLength = some raw ∧ raw ≤ opts.residentBudget
  /-- A size that is known fits, or the segment was given up. -/
  fits :
    ∀ raw, entry.rawByteLength = some raw → raw ≤ opts.residentBudget ∨ entry.state = .oversized
  sized : entry.rawByteLength.isSome = lastParse.isSome
  invariants : entry.invariants = lastParse.map opts.segmentInvariants
  edgePolls : entry.edgePolls = lastParse.map opts.computeSegmentEdgePolls
  parsedOnce : entry.state = .parsed ∨ entry.state = .evicted ∨ entry.state = .oversized →
    lastParse ≠ none

namespace SegmentEntry

/-- The states without a trace that a job moves between are one. -/
def settled (entry : SegmentEntry T I P) : SegmentEntry T I P :=
  if entry.state = .parsed ∨ entry.state = .oversized then entry
  else { entry with state := .listed }

/-- The state to go back to when a job ends without a parse. -/
def restState (entry : SegmentEntry T I P) : SegmentState :=
  if entry.invariants.isSome then .evicted else .listed

theorem restState_eq (entry : SegmentEntry T I P) :
    entry.restState = .evicted ∨ entry.restState = .listed := by
  rw [restState]
  split
  · exact .inl rfl
  · exact .inr rfl

variable {entry other : SegmentEntry T I P}

theorem settled_setState {state : SegmentState} (hbefore : entry.state ≠ .parsed)
    (hbefore' : entry.state ≠ .oversized) (hafter : state ≠ .parsed)
    (hafter' : state ≠ .oversized) :
    { entry with state := state }.settled = entry.settled := by
  rw [settled, settled, if_neg (not_or.mpr ⟨hbefore, hbefore'⟩),
    if_neg (not_or.mpr ⟨hafter, hafter'⟩)]

theorem settled_state_parsed : entry.settled.state = .parsed ↔ entry.state = .parsed := by
  rw [settled]
  split
  case isTrue => rfl
  case isFalse h => exact iff_of_false nofun fun hparsed => h (.inl hparsed)

theorem settled_state_oversized : entry.settled.state = .oversized ↔ entry.state = .oversized := by
  rw [settled]
  split
  case isTrue => rfl
  case isFalse h => exact iff_of_false nofun fun hover => h (.inr hover)

theorem settled_rawByteLength : entry.settled.rawByteLength = entry.rawByteLength := by
  rw [settled]
  split <;> rfl

theorem eq_of_settled (h : other.settled = entry.settled)
    (hstate : entry.state = .parsed ∨ entry.state = .oversized) : other = entry := by
  have hself : entry.settled = entry := if_pos hstate
  rw [hself] at h
  have hother : other.state = .parsed ∨ other.state = .oversized := by
    rw [← h, settled_state_parsed, settled_state_oversized] at hstate
    exact hstate
  exact (if_pos hother).symm.trans h

end SegmentEntry

variable {job : Job K} {event : Event K T} {view : TimeRange}
  {f : SegmentEntry T I P → SegmentEntry T I P}

namespace Window

/-! ## What jobs do not move -/

/-- The entries up to the states that jobs move between. -/
def settled (w : Window K T I P) (key : K) : Option (SegmentEntry T I P) :=
  (w.entries key).map SegmentEntry.settled

variable {opts : WindowOptions K T I P} {w next : Window K T I P} {key : K} {id : Nat}
  {entry : SegmentEntry T I P}

theorem entry_of_settled (h : next.settled = w.settled) (hentry : w.entries key = some entry)
    (hstate : entry.state = .parsed ∨ entry.state = .oversized) :
    next.entries key = some entry := by
  have hkey := congrFun h key
  rw [settled, settled, hentry, Option.map_some] at hkey
  rcases Option.map_eq_some_iff.mp hkey with ⟨other, hother, hsettled⟩
  rw [hother, SegmentEntry.eq_of_settled hsettled hstate]

/-- The size of a segment's last parse. -/
def knownSize (w : Window K T I P) (key : K) : Option Nat :=
  (w.entries key).bind SegmentEntry.rawByteLength

theorem isParsed_iff : w.isParsed key = true ↔ ∃ entry, w.entries key = some entry ∧
    entry.state = .parsed := by
  rw [isParsed, decide_eq_true_eq, Option.map_eq_some_iff]

section

variable (h : next.settled = w.settled)
include h

theorem state_of_settled {state : SegmentState} (hstate : state = .parsed ∨ state = .oversized)
    (hread : (w.entries key).map SegmentEntry.state = some state) :
    (next.entries key).map SegmentEntry.state = some state := by
  rcases Option.map_eq_some_iff.mp hread with ⟨entry, hentry, rfl⟩
  rw [entry_of_settled h hentry hstate, Option.map_some]

theorem isOversized_of_settled : next.isOversized = w.isOversized :=
  funext fun _ => decide_eq_decide.mpr
    ⟨state_of_settled h.symm (.inr rfl), state_of_settled h (.inr rfl)⟩

theorem knownSize_of_settled : next.knownSize = w.knownSize := by
  funext key
  have hread : ∀ u : Window K T I P, u.knownSize key =
      (u.settled key).bind SegmentEntry.rawByteLength := by
    intro u
    rw [knownSize, settled]
    cases u.entries key with
    | none => rfl
    | some entry => exact SegmentEntry.settled_rawByteLength.symm
  rw [hread, hread, h]

theorem isParsed_of_settled : next.isParsed = w.isParsed :=
  funext fun _ => decide_eq_decide.mpr
    ⟨state_of_settled h.symm (.inl rfl), state_of_settled h (.inl rfl)⟩

end

variable [DecidableEq K]

theorem estimateRawBytes_congr (h : next.knownSize = w.knownSize) :
    next.estimateRawBytes opts = w.estimateRawBytes opts := by
  funext key
  have hkey : (next.entries key).bind SegmentEntry.rawByteLength =
      (w.entries key).bind SegmentEntry.rawByteLength := congrFun h key
  rw [estimateRawBytes, estimateRawBytes, hkey]

theorem planAdmission_congr (hover : next.isOversized = w.isOversized)
    (hsize : next.knownSize = w.knownSize) : next.planAdmission opts = w.planAdmission opts := by
  funext view
  rw [planAdmission, planAdmission, hover, estimateRawBytes_congr hsize]

theorem resident_of_settled (h : next.settled = w.settled) :
    next.resident opts = w.resident opts := by
  apply List.filterMap_congr
  intro key _
  have hkey := congrFun h key
  rw [settled, settled] at hkey
  cases hentry : w.entries key with
  | none =>
    rw [hentry, Option.map_none, Option.map_eq_none_iff] at hkey
    rw [hkey]
  | some entry =>
    rw [hentry, Option.map_some] at hkey
    rcases Option.map_eq_some_iff.mp hkey with ⟨other, hother, hsettled⟩
    rw [hother, Option.bind_some, Option.bind_some]
    by_cases hparsed : entry.state = .parsed
    · rw [SegmentEntry.eq_of_settled hsettled (.inl hparsed)]
    · have hother' : other.state ≠ .parsed := by
        rwa [ne_eq, ← SegmentEntry.settled_state_parsed, hsettled,
          SegmentEntry.settled_state_parsed]
      rw [if_neg hparsed, if_neg hother']

theorem planAdmission_of_settled (h : next.settled = w.settled) :
    next.planAdmission opts = w.planAdmission opts :=
  planAdmission_congr (isOversized_of_settled h) (knownSize_of_settled h)

/-! ## Jobs and entries agree -/

/-- The jobs in flight and the entries agree. -/
structure Consistent (opts : WindowOptions K T I P) (w : Window K T I P) : Prop where
  listed : ∀ key, (w.entries key).isSome = (opts.byKey key).isSome
  inflight : ∀ {key id}, w.inflight key = some id →
    ∃ job, w.jobs id = some job ∧ job.key = key ∧ job.aborted = false
  flying : ∀ {id job}, w.jobs id = some job → job.aborted = false → w.inflight job.key = some id
  reverts : ∀ {id job}, w.jobs id = some job → job.aborted = false →
    ∃ entry, w.entries job.key = some entry ∧ job.revertTo = entry.restState
  fresh : ∀ id, w.nextJob ≤ id → w.jobs id = none
  entry : ∀ {key entry}, w.entries key = some entry →
    EntryOk opts (w.inflight key) (w.lastParse key) entry
  quiet : w.disposed = true ∨ w.view = none → ∀ key, w.inflight key = none

theorem create_consistent : (create opts).Consistent opts where
  listed key := by
    exact Option.isSome_map
  inflight := nofun
  flying := nofun
  reverts := nofun
  fresh _ _ := rfl
  entry {key entry} hentry := by
    rcases Option.map_eq_some_iff.mp hentry with ⟨s, -, rfl⟩
    exact {
      fetching := iff_of_false nofun fun h => h rfl
      trace := iff_of_false nofun nofun
      size := nofun
      fits := nofun
      sized := rfl
      invariants := rfl
      edgePolls := rfl
      parsedOnce := by rintro (h | h | h) <;> cases h }
  quiet _ _ := rfl

section

variable (hw : w.Consistent opts) (hjob : w.jobs id = some job) (hlive : job.aborted = false)
include hw hjob hlive

theorem Consistent.settle {ended : Option (Job K)}
    (hended : ∀ left, ended = some left → left.aborted = true) {lastParse : Option T}
    (hentry : ∀ entry, w.entries job.key = some entry → EntryOk opts none lastParse (f entry))
    (hjobs : next.jobs = Function.update w.jobs id ended)
    (hinflight : next.inflight = Function.update w.inflight job.key none) (hentries : next.entries =
      Function.update w.entries job.key ((w.entries job.key).map f))
    (hlast : next.lastParse = Function.update w.lastParse job.key lastParse)
    (hnext : next.nextJob = w.nextJob) (hview : next.view = w.view)
    (hdisposed : next.disposed = w.disposed) : next.Consistent opts := by
  have hown := hw.flying hjob hlive
  have hother : ∀ {other left}, next.jobs other = some left → left.aborted = false →
      w.jobs other = some left ∧ left.key ≠ job.key := by
    intro other left hleft hflies
    by_cases hid : other = id
    · rw [hjobs, hid, Function.update_self] at hleft
      rw [hended left hleft] at hflies
      cases hflies
    · rw [hjobs, Function.update_of_ne hid] at hleft
      refine ⟨hleft, fun hkey => hid ?_⟩
      have hsame := hw.flying hleft hflies
      rw [hkey, hown] at hsame
      exact (Option.some.inj hsame).symm
  exact {
    listed := by
      intro key
      rw [hentries]
      by_cases hkey : key = job.key
      · rw [hkey, Function.update_self, Option.isSome_map, hw.listed]
      · rw [Function.update_of_ne hkey, hw.listed]
    inflight := by
      intro key other hfly
      by_cases hkey : key = job.key
      · rw [hinflight, hkey, Function.update_self] at hfly
        cases hfly
      · rw [hinflight, Function.update_of_ne hkey] at hfly
        rcases hw.inflight hfly with ⟨left, hleft, hleftKey, hflies⟩
        refine ⟨left, ?_, hleftKey, hflies⟩
        rw [hjobs, Function.update_of_ne _, hleft]
        rintro rfl
        rw [hjob] at hleft
        cases hleft
        exact hkey hleftKey.symm
    flying := by
      intro other left hleft hflies
      rcases hother hleft hflies with ⟨hold, hkey⟩
      rw [hinflight, Function.update_of_ne hkey, hw.flying hold hflies]
    reverts := by
      intro other left hleft hflies
      rcases hother hleft hflies with ⟨hold, hkey⟩
      rw [hentries, Function.update_of_ne hkey]
      exact hw.reverts hold hflies
    fresh := by
      intro other hle
      rw [hnext] at hle
      rw [hjobs, Function.update_of_ne _, hw.fresh other hle]
      rintro rfl
      rw [hw.fresh other hle] at hjob
      cases hjob
    entry := by
      intro key entry hkept
      by_cases hkey : key = job.key
      · rw [hentries, hkey, Function.update_self] at hkept
        rcases Option.map_eq_some_iff.mp hkept with ⟨before, hbefore, rfl⟩
        rw [hinflight, hlast, hkey, Function.update_self, Function.update_self]
        exact hentry before hbefore
      · rw [hentries, Function.update_of_ne hkey] at hkept
        rw [hinflight, hlast, Function.update_of_ne hkey, Function.update_of_ne hkey]
        exact hw.entry hkept
    quiet := by
      intro hidle key
      rw [hdisposed, hview] at hidle
      have hnone := hw.quiet hidle job.key
      rw [hown] at hnone
      cases hnone }

theorem Consistent.entryOk_revert
    (hentry : w.entries job.key = some entry) :
    EntryOk opts none (w.lastParse job.key) { entry with state := job.revertTo } ∧
      entry.state = .fetching ∧ (job.revertTo = .evicted ∨ job.revertTo = .listed) := by
  have hok := hw.entry hentry
  have hfetching : entry.state = .fetching := by
    rw [hok.fetching, hw.flying hjob hlive]
    nofun
  rcases hw.reverts hjob hlive with ⟨entry', hentry', hrevert⟩
  obtain rfl : entry = entry' := Option.some.inj (hentry.symm.trans hentry')
  have hrest := hrevert ▸ entry.restState_eq
  refine ⟨?_, hfetching, hrest⟩
  exact {
    fetching := iff_of_false (by rcases hrest with h | h <;> exact h ▸ nofun) fun h => h rfl
    trace := by
      have hnone : ¬entry.trace.isSome = true := by
        rw [hok.trace, hfetching]
        nofun
      exact iff_of_false hnone (by rcases hrest with h | h <;> exact h ▸ nofun)
    size := by
      intro hparsed
      rcases hrest with h | h <;> cases h.symm.trans hparsed
    fits := fun raw hraw => .inl ((hok.fits raw hraw).resolve_right (hfetching ▸ nofun))
    sized := hok.sized
    invariants := hok.invariants
    edgePolls := hok.edgePolls
    parsedOnce := by
      intro hstate hlast
      have hlisted : job.revertTo = .listed := by
        rw [hrevert, SegmentEntry.restState, hok.invariants, hlast]
        rfl
      rw [hlisted] at hstate
      rcases hstate with h | h | h <;> cases h }

theorem Consistent.settled_revert (hentry : w.entries job.key = some entry) :
    { entry with state := job.revertTo }.settled = entry.settled := by
  rcases hw.entryOk_revert hjob hlive hentry with ⟨-, hfetching, hrevert⟩
  apply SegmentEntry.settled_setState (hfetching ▸ nofun) (hfetching ▸ nofun)
  · rcases hrevert with h | h <;> exact h ▸ nofun
  · rcases hrevert with h | h <;> exact h ▸ nofun

end

/-! ## Aborting and starting jobs -/

/-- A job whose results are still wanted. -/
def Live (w : Window K T I P) (id : Nat) : Prop := ∃ job, w.jobs id = some job ∧ job.aborted = false

/-- A job that ended or was aborted stays so. -/
structure NoRevival (w next : Window K T I P) : Prop where
  nextJob : w.nextJob ≤ next.nextJob
  ended : ∀ id < w.nextJob, ¬w.Live id → ¬next.Live id

section

omit [DecidableEq K]

theorem NoRevival.trans {last : Window K T I P} (h : NoRevival w next) (h' : NoRevival next last) :
    NoRevival w last where
  nextJob := h.nextJob.trans h'.nextJob
  ended id hid hended := h'.ended id (hid.trans_le h.nextJob) (h.ended id hid hended)

theorem noRevival_of_jobs (hjobs : next.jobs = w.jobs) (hnext : next.nextJob = w.nextJob) :
    NoRevival w next where
  nextJob := hnext.ge
  ended id _ hended := by rwa [Live, hjobs]

theorem noRevival_update {new : Option (Job K)}
    (hjobs : next.jobs = Function.update w.jobs id new) (hnext : next.nextJob = w.nextJob)
    (hnew : ∀ left, new = some left → left.aborted = false → w.Live id) : NoRevival w next where
  nextJob := hnext.ge
  ended := by
    rintro other - hended ⟨job, hjob, hlive⟩
    rw [hjobs] at hjob
    by_cases hid : other = id
    · rw [hid, Function.update_self] at hjob
      exact hended (hid ▸ hnew job hjob hlive)
    · rw [Function.update_of_ne hid] at hjob
      exact hended ⟨job, hjob, hlive⟩

end

/-- What moves jobs only: what is settled, what was parsed, and what is looked at stay. -/
structure MovesJobs (w next : Window K T I P) : Prop extends NoRevival w next where
  settled : next.settled = w.settled
  lastParse : next.lastParse = w.lastParse
  view : next.view = w.view
  disposed : next.disposed = w.disposed

omit [DecidableEq K] in
theorem MovesJobs.rfl : MovesJobs w w :=
  ⟨noRevival_of_jobs (Eq.refl _) (Eq.refl _), Eq.refl _, Eq.refl _, Eq.refl _, Eq.refl _⟩

omit [DecidableEq K] in
theorem MovesJobs.trans {last : Window K T I P} (h : MovesJobs w next) (h' : MovesJobs next last) :
    MovesJobs w last where
  toNoRevival := h.toNoRevival.trans h'.toNoRevival
  settled := h'.settled.trans h.settled
  lastParse := h'.lastParse.trans h.lastParse
  view := h'.view.trans h.view
  disposed := h'.disposed.trans h.disposed

theorem settled_update
    (hentries : next.entries = Function.update w.entries key ((w.entries key).map f))
    (hf : ∀ entry, w.entries key = some entry → (f entry).settled = entry.settled) :
    next.settled = w.settled := by
  funext other
  rw [settled, settled, hentries]
  by_cases hkey : other = key
  · rw [hkey, Function.update_self, Option.map_map]
    apply Option.map_congr
    intro entry hentry
    exact hf entry hentry
  · rw [Function.update_of_ne hkey]

theorem abortJob_eq (hjob : w.jobs id = some job) :
    w.abortJob key id =
      { w with
        jobs := Function.update w.jobs id (some { job with aborted := true })
        inflight := Function.update w.inflight key none }.setState key job.revertTo := by
  rw [abortJob, hjob]

theorem Consistent.abortJob (hw : w.Consistent opts) (hfly : w.inflight key = some id) :
    (w.abortJob key id).Consistent opts ∧ MovesJobs w (w.abortJob key id) := by
  rcases hw.inflight hfly with ⟨job, hjob, rfl, hlive⟩
  rw [abortJob_eq hjob]
  constructor
  · have hended : ∀ left, some { job with aborted := true } = some left → left.aborted = true := by
      rintro _ ⟨⟩
      rfl
    have hentry : ∀ entry, w.entries job.key = some entry →
        EntryOk opts none (w.lastParse job.key) { entry with state := job.revertTo } :=
      fun entry hentry => (hw.entryOk_revert hjob hlive hentry).1
    exact hw.settle hjob hlive hended hentry rfl rfl rfl
      (Function.update_eq_self _ _).symm rfl rfl rfl
  · refine ⟨noRevival_update rfl rfl ?_, settled_update rfl ?_, rfl, rfl, rfl⟩
    · rintro _ ⟨⟩ hlive'
      cases hlive'
    exact fun _ hentry => hw.settled_revert hjob hlive hentry

theorem Consistent.abortUnwanted (hw : w.Consistent opts) (keys wanted : List K) :
    (w.abortUnwanted keys wanted).Consistent opts ∧ MovesJobs w (w.abortUnwanted keys wanted) := by
  induction keys generalizing w with
  | nil => exact ⟨hw, .rfl⟩
  | cons key rest ih =>
    rw [Window.abortUnwanted, List.foldl_cons]
    cases hfly : w.inflight key with
    | none => exact ih hw
    | some id =>
      dsimp only
      split
      · exact ih hw
      · rcases hw.abortJob hfly with ⟨hnext, hmoves⟩
        rcases ih hnext with ⟨hlast, hmoves'⟩
        exact ⟨hlast, hmoves.trans hmoves'⟩

theorem startJob_cases (w : Window K T I P) (key : K) :
    (w.startJob key = w ∧ ∀ entry, w.entries key = some entry → entry.state = .parsed ∨
        entry.state = .oversized ∨ w.inflight key ≠ none ∨ key ∈ w.failed) ∨
      ∃ entry parsing cache, w.entries key = some entry ∧
        (entry.state ≠ .parsed ∧ entry.state ≠ .oversized) ∧ w.inflight key = none ∧
          key ∉ w.failed ∧
            w.startJob key =
              { w with
                jobs := Function.update w.jobs w.nextJob
                  (some ⟨key, false, entry.restState, parsing⟩)
                inflight := Function.update w.inflight key (some w.nextJob)
                nextJob := w.nextJob + 1
                cache := cache }.setState key .fetching := by
  rw [startJob]
  cases hentry : w.entries key with
  | none => exact .inl ⟨rfl, nofun⟩
  | some entry =>
    dsimp only
    split
    case isTrue hstate =>
      left
      refine ⟨rfl, ?_⟩
      rintro _ ⟨⟩
      exact hstate.imp_right .inl
    case isFalse hstate =>
      split
      case isTrue hbusy =>
        left
        refine ⟨rfl, ?_⟩
        rintro _ ⟨⟩
        exact .inr (.inr hbusy)
      case isFalse hfree =>
        rcases not_or.mp hfree with ⟨hinflight, hfailed⟩
        exact .inr ⟨entry, _, _, rfl, not_or.mp hstate, not_not.mp hinflight, hfailed, rfl⟩

section

variable (hw : w.Consistent opts)
include hw

section

variable (hopen : w.disposed = false ∧ w.view ≠ none)
include hopen

theorem Consistent.launch
    (hentry : w.entries key = some entry) (hparsed : entry.state ≠ .parsed)
    (hover : entry.state ≠ .oversized) (hfree : w.inflight key = none) {parsing : Bool}
    (hjobs : next.jobs = Function.update w.jobs w.nextJob
      (some ⟨key, false, entry.restState, parsing⟩))
    (hinflight : next.inflight = Function.update w.inflight key (some w.nextJob))
    (hentries : next.entries =
      Function.update w.entries key (some { entry with state := .fetching }))
    (hlast : next.lastParse = w.lastParse) (hnext : next.nextJob = w.nextJob + 1)
    (hview : next.view = w.view) (hdisposed : next.disposed = w.disposed) :
    next.Consistent opts := by
  have hjob : ∀ {id job}, next.jobs id = some job → job.aborted = false →
      (id = w.nextJob ∧ job = ⟨key, false, entry.restState, parsing⟩) ∨
        (w.jobs id = some job ∧ job.key ≠ key) := by
    intro id job hjob hlive
    by_cases hid : id = w.nextJob
    · rw [hjobs, hid, Function.update_self] at hjob
      exact .inl ⟨hid, (Option.some.inj hjob).symm⟩
    · rw [hjobs, Function.update_of_ne hid] at hjob
      refine .inr ⟨hjob, ?_⟩
      rintro rfl
      rw [hw.flying hjob hlive] at hfree
      cases hfree
  exact {
    listed := by
      intro other
      rw [hentries]
      by_cases hkey : other = key
      · rw [hkey, Function.update_self, ← hw.listed, hentry]
        rfl
      · rw [Function.update_of_ne hkey, hw.listed]
    inflight := by
      intro other id hfly
      rw [hjobs]
      by_cases hkey : other = key
      · rw [hinflight, hkey, Function.update_self] at hfly
        obtain rfl := Option.some.inj hfly
        exact ⟨_, Function.update_self .., hkey.symm, rfl⟩
      · rw [hinflight, Function.update_of_ne hkey] at hfly
        rcases hw.inflight hfly with ⟨job, hjob, hjobKey, hlive⟩
        refine ⟨job, ?_, hjobKey, hlive⟩
        rw [Function.update_of_ne _, hjob]
        rintro rfl
        rw [hw.fresh _ (Nat.le_refl _)] at hjob
        cases hjob
    flying := by
      intro id job hleft hlive
      rw [hinflight]
      rcases hjob hleft hlive with ⟨rfl, rfl⟩ | ⟨hold, hkey⟩
      · exact Function.update_self ..
      · rw [Function.update_of_ne hkey, hw.flying hold hlive]
    reverts := by
      intro id job hleft hlive
      rw [hentries]
      rcases hjob hleft hlive with ⟨rfl, rfl⟩ | ⟨hold, hkey⟩
      · exact ⟨_, Function.update_self .., rfl⟩
      · rw [Function.update_of_ne hkey]
        exact hw.reverts hold hlive
    fresh := by
      intro id hle
      rw [hnext] at hle
      rw [hjobs, Function.update_of_ne (by omega), hw.fresh id (by omega)]
    entry := by
      intro other entry' hentry'
      rw [hinflight, hlast]
      by_cases hkey : other = key
      · rw [hentries, hkey, Function.update_self] at hentry'
        obtain rfl := Option.some.inj hentry'
        rw [hkey, Function.update_self]
        have hok := hw.entry hentry
        exact {
          fetching := iff_of_true rfl nofun
          trace := iff_of_false (fun htrace => hparsed (hok.trace.mp htrace)) nofun
          size := nofun
          fits := fun raw hraw => .inl ((hok.fits raw hraw).resolve_right hover)
          sized := hok.sized
          invariants := hok.invariants
          edgePolls := hok.edgePolls
          parsedOnce := by rintro (h | h | h) <;> cases h }
      · rw [hentries, Function.update_of_ne hkey] at hentry'
        rw [Function.update_of_ne hkey]
        exact hw.entry hentry'
    quiet := by
      rw [hdisposed, hview]
      rintro (h | h)
      · exact absurd h (hopen.1 ▸ nofun)
      · exact absurd h hopen.2 }

theorem Consistent.startJob
    (key : K) : (w.startJob key).Consistent opts ∧ MovesJobs w (w.startJob key) := by
  rcases w.startJob_cases key with
    ⟨hsame, -⟩ | ⟨entry, parsing, cache, hentry, ⟨hparsed, hover⟩, hfree, -, hnext⟩
  · rw [hsame]
    exact ⟨hw, .rfl⟩
  · rw [hnext]
    constructor
    · refine hw.launch hopen hentry hparsed hover hfree rfl rfl ?_ rfl rfl rfl rfl
      rw [setState, hentry, Option.map_some]
    · refine ⟨⟨Nat.le_succ _, ?_⟩, settled_update rfl ?_, rfl, rfl, rfl⟩
      · rintro id hid hended ⟨job, hjob, hlive⟩
        have hold := (Function.update_of_ne hid.ne _ _).symm.trans hjob
        exact hended ⟨job, hold, hlive⟩
      intro entry' hentry'
      obtain rfl : entry = entry' := Option.some.inj (hentry.symm.trans hentry')
      exact SegmentEntry.settled_setState hparsed hover nofun nofun

theorem Consistent.startNeeded (keys evicted : List K) :
    (w.startNeeded keys evicted).Consistent opts ∧ MovesJobs w (w.startNeeded keys evicted) := by
  induction keys generalizing w with
  | nil => exact ⟨hw, .rfl⟩
  | cons key rest ih =>
    rw [Window.startNeeded, List.foldl_cons]
    split
    · exact ih hw hopen
    · rcases hw.startJob hopen key with ⟨hnext, hmoves⟩
      rcases ih hnext ⟨hmoves.disposed.trans hopen.1, hmoves.view ▸ hopen.2⟩ with ⟨hlast, hmoves'⟩
      exact ⟨hlast, hmoves.trans hmoves'⟩

end

theorem Consistent.schedulePrefetch (key : K) :
    (w.schedulePrefetch key).Consistent opts ∧ MovesJobs w (w.schedulePrefetch key) := by
  rw [Window.schedulePrefetch]
  split
  · exact ⟨hw, .rfl⟩
  · exact ⟨{ hw with }, ⟨noRevival_of_jobs rfl rfl, rfl, rfl, rfl, rfl⟩⟩

theorem Consistent.scheduleAll (keys evicted : List K) :
    (w.scheduleAll keys evicted).Consistent opts ∧ MovesJobs w (w.scheduleAll keys evicted) := by
  induction keys generalizing w with
  | nil => exact ⟨hw, .rfl⟩
  | cons key rest ih =>
    rw [Window.scheduleAll, List.foldl_cons]
    split
    · exact ih hw
    · split
      · rcases hw.schedulePrefetch key with ⟨hnext, hmoves⟩
        rcases ih hnext with ⟨hlast, hmoves'⟩
        exact ⟨hlast, hmoves.trans hmoves'⟩
      · exact ih hw

/-! ## Evicting -/

theorem Consistent.evict {keys : List K}
    (hparsed : ∀ key ∈ keys, w.isParsed key = true) : (w.evict keys).Consistent opts := by
  have hread : ∀ {key entry}, (w.evict keys).entries key = some entry →
      ∃ before, w.entries key = some before ∧ entry.restState = before.restState ∧
        ((key ∉ keys ∧ entry = before) ∨
          (key ∈ keys ∧ entry = { before with trace := none, state := .evicted })) := by
    intro key entry hentry
    dsimp only [Window.evict] at hentry
    split at hentry
    case isTrue hmem =>
      rcases Option.map_eq_some_iff.mp hentry with ⟨before, hbefore, rfl⟩
      exact ⟨before, hbefore, rfl, .inr ⟨hmem, rfl⟩⟩
    case isFalse hmem => exact ⟨entry, hentry, rfl, .inl ⟨hmem, rfl⟩⟩
  exact {
    hw with
    listed := by
      intro key
      rw [← hw.listed]
      dsimp only [Window.evict]
      split
      · exact Option.isSome_map
      · rfl
    reverts := by
      intro id job hjob hlive
      rcases hw.reverts hjob hlive with ⟨before, hbefore, hrevert⟩
      have hsome : ((w.evict keys).entries job.key).isSome = true := by
        dsimp only [Window.evict]
        split
        · rw [Option.isSome_map, hbefore]
          rfl
        · rw [hbefore]
          rfl
      obtain ⟨entry, hentry⟩ := Option.isSome_iff_exists.mp hsome
      rcases hread hentry with ⟨before', hbefore', hrest, -⟩
      obtain rfl : before = before' := Option.some.inj (hbefore.symm.trans hbefore')
      exact ⟨entry, hentry, hrevert.trans hrest.symm⟩
    entry := by
      intro key entry hentry
      rcases hread hentry with ⟨before, hbefore, -, ⟨-, rfl⟩ | ⟨hmem, rfl⟩⟩
      · exact hw.entry hbefore
      · have hok := hw.entry hbefore
        rcases isParsed_iff.mp (hparsed key hmem) with ⟨before', hbefore', hstate⟩
        obtain rfl : before = before' := Option.some.inj (hbefore.symm.trans hbefore')
        have hidle : ¬w.inflight key ≠ none := by
          rw [← hok.fetching, hstate]
          nofun
        exact {
          hok with
          fetching := iff_of_false nofun hidle
          trace := iff_of_false nofun nofun
          size := nofun
          fits := fun raw hraw => .inl ((hok.fits raw hraw).resolve_right (hstate ▸ nofun))
          parsedOnce := fun _ => hok.parsedOnce (.inl hstate) } }

end

theorem isOversized_evict {keys : List K} (hparsed : ∀ key ∈ keys, w.isParsed key = true) :
    (w.evict keys).isOversized = w.isOversized := by
  funext key
  rw [isOversized, isOversized]
  dsimp only [evict]
  split
  case isTrue hmem =>
    rcases isParsed_iff.mp (hparsed key hmem) with ⟨entry, hentry, hstate⟩
    rw [hentry, Option.map_some, Option.map_some, Option.map_some, hstate]
    rfl
  case isFalse => rfl

theorem knownSize_evict (keys : List K) : (w.evict keys).knownSize = w.knownSize := by
  funext key
  rw [knownSize, knownSize]
  dsimp only [evict]
  split
  · cases w.entries key <;> rfl
  · rfl

theorem resident_evict (keys : List K) :
    (w.evict keys).resident opts = (w.resident opts).filter fun r => decide (r.key ∉ keys) := by
  rw [resident, resident, List.filter_filterMap]
  apply List.filterMap_congr
  intro key _
  dsimp only [evict]
  cases hentry : w.entries key with
  | none => split <;> rfl
  | some entry =>
    by_cases hmem : key ∈ keys
    · rw [if_pos hmem, Option.map_some, Option.bind_some, Option.bind_some, if_neg nofun]
      split
      · cases entry.rawByteLength with
        | none => rfl
        | some raw =>
          symm
          rw [Option.map_some, Option.filter_some_neg]
          simpa using hmem
      · rfl
    · rw [if_neg hmem, Option.bind_some]
      split
      · cases entry.rawByteLength with
        | none => rfl
        | some raw =>
          symm
          rw [Option.map_some, Option.filter_some_pos]
          simpa using hmem
      · rfl

theorem mem_resident {r : ResidentSegment K} (hr : r ∈ w.resident opts) :
    ∃ entry, w.entries r.key = some entry ∧ entry.state = .parsed ∧
      entry.rawByteLength = some r.rawBytes := by
  rcases List.mem_filterMap.mp hr with ⟨s, -, hs⟩
  rcases Option.bind_eq_some_iff.mp hs with ⟨entry, hentry, hstate⟩
  rcases Option.ite_none_right_eq_some.mp hstate with ⟨hparsed, hraw⟩
  rcases Option.map_eq_some_iff.mp hraw with ⟨raw, hsize, rfl⟩
  exact ⟨entry, hentry, hparsed, hsize⟩

theorem resident_keys_nodup : ((w.resident opts).map ResidentSegment.key).Nodup := by
  have hsublist : ((w.resident opts).map ResidentSegment.key).Sublist opts.listedKeys := by
    rw [resident]
    induction opts.listedKeys with
    | nil => exact .slnil
    | cons key rest ih =>
      rw [List.filterMap_cons]
      split
      · exact ih.cons _
      · rename_i r hr
        rcases Option.bind_eq_some_iff.mp hr with ⟨entry, -, hstate⟩
        rcases Option.ite_none_right_eq_some.mp hstate with ⟨-, hraw⟩
        rcases Option.map_eq_some_iff.mp hraw with ⟨raw, -, rfl⟩
        exact ih.cons_cons _
  exact hsublist.nodup (List.nodup_reverse.mpr (List.nodup_dedup _))

/-! ## The pass over the listing -/

theorem estimate_of_resident {r : ResidentSegment K} (hr : r ∈ w.resident opts) :
    w.estimateRawBytes opts r.key = r.rawBytes := by
  rcases mem_resident hr with ⟨entry, hentry, -, hraw⟩
  rw [estimateRawBytes, hentry, Option.bind_some, hraw]

theorem Consistent.estimate_le (hw : w.Consistent opts) (hparsed : w.isParsed key = true) :
    w.estimateRawBytes opts key ≤ opts.residentBudget := by
  rcases isParsed_iff.mp hparsed with ⟨entry, hentry, hstate⟩
  rcases (hw.entry hentry).size hstate with ⟨raw, hraw, hle⟩
  rw [estimateRawBytes, hentry, Option.bind_some, hraw]
  exact hle

theorem planOf_fits (oversized : K → Bool) (estimate : K → Nat) (view : TimeRange) :
    let plan := planOf opts oversized estimate view
    Fits estimate opts.evictionTrigger 0 plan.1.admitted ∧
      Fits estimate opts.evictionTrigger (plan.1.admitted.map estimate).sum plan.2.admitted := by
  have hestimate : ∀ (keys : List K),
      ∀ c ∈ keys.filterMap (fun key => (opts.byKey key).map fun s =>
        (⟨key, s.extent, estimate key⟩ : AdmissionCandidate K)),
          c.estimatedRawBytes = estimate c.key := by
    intro keys c hc
    rcases List.mem_filterMap.mp hc with ⟨key, -, hkey⟩
    rcases Option.map_eq_some_iff.mp hkey with ⟨s, -, rfl⟩
    rfl
  exact ⟨capToBudget_fits (hestimate _) view, capToBudget_fits (hestimate _) view⟩

/-- What is evicted was resident and not admitted, and the rest is within the budget. -/
theorem Consistent.evictions_spare (hw : w.Consistent opts) (view : TimeRange) :
    let plan := w.planAdmission opts view
    let evict := w.evictions opts plan view
    (∀ key ∈ evict, w.isParsed key = true ∧ key ∉ wanted plan) ∧
      rawBytes ((w.evict evict).resident opts) ≤ opts.residentBudget := by
  dsimp only
  have hfits :
      let plan := planOf opts w.isOversized (w.estimateRawBytes opts) view
      Fits (w.estimateRawBytes opts) opts.evictionTrigger 0 plan.1.admitted ∧
        Fits (w.estimateRawBytes opts) opts.evictionTrigger
          (plan.1.admitted.map (w.estimateRawBytes opts)).sum plan.2.admitted :=
    planOf_fits w.isOversized (w.estimateRawBytes opts) view
  rcases hfits with ⟨hneed, hprefetch⟩
  have hplan :
      planOf opts w.isOversized (w.estimateRawBytes opts) view = w.planAdmission opts view :=
    rfl
  rw [hplan] at hneed hprefetch
  obtain ⟨plan, hplan⟩ : ∃ plan, plan = w.planAdmission opts view := ⟨_, rfl⟩
  rw [← hplan] at hneed hprefetch ⊢
  obtain ⟨kept, hkept⟩ : ∃ kept, kept = (w.resident opts).filter fun r =>
    !decide (r.key ∉ plan.1.admitted ∧ r.key ∉ plan.2.admitted) := ⟨_, rfl⟩
  have hresident : ∀ r ∈ kept, r ∈ w.resident opts := fun r hr =>
    List.mem_of_mem_filter (hkept ▸ hr)
  have hsum :
      rawBytes kept = ((kept.map ResidentSegment.key).map (w.estimateRawBytes opts)).sum := by
    rw [rawBytes, List.map_map]
    apply congrArg
    apply List.map_congr_left
    intro r hr
    exact (estimate_of_resident (hresident r hr)).symm
  have hadmitted : ∀ key ∈ kept.map ResidentSegment.key,
      key ∈ plan.1.admitted ++ plan.2.admitted ∧ w.isParsed key = true := by
    intro key hkey
    rcases List.mem_map.mp hkey with ⟨r, hr, rfl⟩
    rcases mem_resident (hresident r hr) with ⟨entry, hentry, hparsed, -⟩
    refine ⟨?_, isParsed_iff.mpr ⟨entry, hentry, hparsed⟩⟩
    have hmem := List.of_mem_filter (hkept ▸ hr)
    rw [List.mem_append]
    by_contra hnot
    rw [decide_eq_true (not_or.mp hnot)] at hmem
    cases hmem
  have hnodup : (kept.map ResidentSegment.key).Nodup :=
    (List.Sublist.map _ (hkept ▸ List.filter_sublist)).nodup resident_keys_nodup
  have hfits : ((kept.map ResidentSegment.key).map (w.estimateRawBytes opts)).sum ≤
      opts.residentBudget - (((wanted plan).dedup.filter fun key => !w.isParsed key).map
        (w.estimateRawBytes opts)).sum :=
    kept_le_budget hneed hprefetch opts.trigger_le_budget (fun _ => hw.estimate_le) hnodup hadmitted
  rw [← hsum, hkept] at hfits
  obtain ⟨hevict, hrest⟩ :
      (∀ key ∈ w.evictions opts plan view, key ∈ (w.resident opts).map ResidentSegment.key ∧
        key ∉ plan.1.admitted ∧ key ∉ plan.2.admitted) ∧ _ :=
    planEviction_spares resident_keys_nodup opts.trigger_le_budget hfits
  constructor
  · intro key hkey
    rcases hevict key hkey with ⟨hmem, hneed, hprefetch⟩
    rcases List.mem_map.mp hmem with ⟨r, hr, rfl⟩
    rcases mem_resident hr with ⟨entry, hentry, hparsed, -⟩
    refine ⟨isParsed_iff.mpr ⟨entry, hentry, hparsed⟩, ?_⟩
    rw [wanted, List.mem_append, not_or]
    exact ⟨hneed, hprefetch⟩
  · rw [resident_evict]
    exact hrest.trans (Nat.sub_le _ _)

/-- What a pass over the listing leaves. -/
structure Reconciled (opts : WindowOptions K T I P) (w next : Window K T I P) (view : TimeRange) :
    Prop extends NoRevival w next where
  consistent : next.Consistent opts
  resident : rawBytes (next.resident opts) ≤ opts.residentBudget
  lastParse : next.lastParse = w.lastParse
  looks : next.disposed = false ∧ next.view = some view
  oversized : next.isOversized = w.isOversized
  knownSize : next.knownSize = w.knownSize
  kept : ∀ key entry, w.entries key = some entry → entry.state = .oversized ∨
    (entry.state = .parsed ∧ key ∈ wanted (w.planAdmission opts view)) →
      next.entries key = some entry

theorem reconcile_eq (hopen : w.disposed = false) (hview : w.view = some view) :
    w.reconcile opts =
      let plan := w.planAdmission opts view
      let aborted := w.abortUnwanted opts.orderedKeys (wanted plan)
      let cleared :=
        { aborted with failed := aborted.failed.filter fun key => decide (key ∈ wanted plan) }
      let evicted := cleared.evictions opts plan view
      ((cleared.evict evicted).startNeeded plan.1.admitted evicted).scheduleAll plan.2.admitted
        evicted := by
  rw [reconcile, hopen, hview]

section

variable (hw : w.Consistent opts)
include hw

/-- The pass over the listing by its parts: jobs are aborted, segments evicted, and jobs
started. -/
theorem Consistent.pass (hopen : w.disposed = false)
    (hview : w.view = some view) :
    ∃ plan cleared evicted, plan = w.planAdmission opts view ∧
      cleared = { w.abortUnwanted opts.orderedKeys (wanted plan) with
        failed := (w.abortUnwanted opts.orderedKeys (wanted plan)).failed.filter fun key =>
          decide (key ∈ wanted plan) } ∧
      cleared.Consistent opts ∧ MovesJobs w cleared ∧
      (∀ key ∈ evicted, cleared.isParsed key = true ∧ key ∉ wanted plan) ∧
      rawBytes ((cleared.evict evicted).resident opts) ≤ opts.residentBudget ∧
      w.reconcile opts =
        ((cleared.evict evicted).startNeeded plan.1.admitted evicted).scheduleAll
          plan.2.admitted evicted := by
  obtain ⟨plan, hplan⟩ : ∃ plan, plan = w.planAdmission opts view := ⟨_, rfl⟩
  rcases hw.abortUnwanted opts.orderedKeys (wanted plan) with ⟨haborted, hmoves⟩
  obtain ⟨cleared, hcleared⟩ : ∃ cleared : Window K T I P, cleared =
    { w.abortUnwanted opts.orderedKeys (wanted plan) with
      failed := (w.abortUnwanted opts.orderedKeys (wanted plan)).failed.filter fun key =>
        decide (key ∈ wanted plan) } := ⟨_, rfl⟩
  have hcons : cleared.Consistent opts := by
    rw [hcleared]
    exact { haborted with }
  have hmoves' : MovesJobs w cleared := by
    rw [hcleared]
    exact ⟨⟨hmoves.nextJob, hmoves.ended⟩, hmoves.settled, hmoves.lastParse, hmoves.view,
      hmoves.disposed⟩
  have hsame : cleared.planAdmission opts view = plan := by
    rw [hplan, planAdmission_of_settled hmoves'.settled]
  have hspare := hcons.evictions_spare view
  dsimp only at hspare
  rw [hsame] at hspare
  refine ⟨plan, cleared, cleared.evictions opts plan view, hplan, hcleared, hcons, hmoves',
    hspare.1,
    hspare.2, ?_⟩
  rw [reconcile_eq hopen hview, hcleared, hplan]

theorem Consistent.reconcile (hopen : w.disposed = false)
    (hview : w.view = some view) : Reconciled opts w (w.reconcile opts) view := by
  rcases hw.pass hopen hview with
    ⟨plan, cleared, evicted, hplan, -, hcons, hmoves, hspare, hroom, hnext⟩
  have hevict := hcons.evict fun key hkey => (hspare key hkey).1
  have hopen' : (cleared.evict evicted).disposed = false ∧ (cleared.evict evicted).view ≠ none :=
    ⟨hmoves.disposed.trans hopen, (hmoves.view.trans hview).trans_ne nofun⟩
  rcases hevict.startNeeded hopen' plan.1.admitted evicted with ⟨hstarted, hstart⟩
  rcases hstarted.scheduleAll plan.2.admitted evicted with ⟨hlast, hschedule⟩
  have htail := hstart.trans hschedule
  have hevictJobs : NoRevival cleared (cleared.evict evicted) := noRevival_of_jobs rfl rfl
  rw [← hnext] at hlast htail
  exact {
    toNoRevival := (hmoves.toNoRevival.trans hevictJobs).trans htail.toNoRevival
    consistent := hlast
    resident := by
      rw [resident_of_settled htail.settled]
      exact hroom
    lastParse := htail.lastParse.trans hmoves.lastParse
    looks := ⟨htail.disposed.trans hopen'.1, htail.view.trans (hmoves.view.trans hview)⟩
    oversized := by
      rw [isOversized_of_settled htail.settled,
        isOversized_evict fun key hkey => (hspare key hkey).1,
        isOversized_of_settled hmoves.settled]
    knownSize := by
      rw [knownSize_of_settled htail.settled, knownSize_evict, knownSize_of_settled hmoves.settled]
    kept := by
      intro key entry hentry hstate
      have hcleared := entry_of_settled hmoves.settled hentry (hstate.symm.imp_left And.left)
      have hnot : key ∉ evicted := by
        intro hmem
        rcases hstate with hover | ⟨-, hwanted⟩
        · rcases isParsed_iff.mp (hspare key hmem).1 with ⟨entry', hentry', hparsed⟩
          rw [hcleared] at hentry'
          cases hentry'
          cases hover.symm.trans hparsed
        · exact (hspare key hmem).2 (hplan ▸ hwanted)
      apply entry_of_settled htail.settled _ (hstate.symm.imp_left And.left)
      rw [Window.evict]
      exact (if_neg hnot).trans hcleared }

/-! ## Steps -/

section

variable (hjob : w.jobs id = some job)
include hjob

theorem Consistent.updateJob
    {new : Option (Job K)} (hjobs : next.jobs = Function.update w.jobs id new)
    (hnew : ∀ left, new = some left →
      left.key = job.key ∧ left.aborted = job.aborted ∧ left.revertTo = job.revertTo)
    (hnone : new = none → job.aborted = true) (hentries : next.entries = w.entries)
    (hinflight : next.inflight = w.inflight) (hlast : next.lastParse = w.lastParse)
    (hnext : next.nextJob = w.nextJob) (hview : next.view = w.view)
    (hdisposed : next.disposed = w.disposed) : next.Consistent opts := by
  have hread : ∀ {other left}, next.jobs other = some left → left.aborted = false →
      ∃ old, w.jobs other = some old ∧ old.aborted = false ∧ left.key = old.key ∧
        left.revertTo = old.revertTo := by
    intro other left hleft hlive
    rw [hjobs] at hleft
    by_cases hid : other = id
    · rw [hid, Function.update_self] at hleft
      rcases hnew left hleft with ⟨hkey, haborted, hrevert⟩
      exact ⟨job, hid ▸ hjob, haborted.symm.trans hlive, hkey, hrevert⟩
    · rw [Function.update_of_ne hid] at hleft
      exact ⟨left, hleft, hlive, rfl, rfl⟩
  exact {
    listed := hentries ▸ hw.listed
    inflight := by
      intro key other hfly
      rw [hinflight] at hfly
      rcases hw.inflight hfly with ⟨old, hold, hkey, hlive⟩
      rw [hjobs]
      by_cases hid : other = id
      · rw [hid] at hold ⊢
        obtain rfl : job = old := Option.some.inj (hjob.symm.trans hold)
        cases new with
        | none => cases (hnone rfl).symm.trans hlive
        | some left =>
          rcases hnew left rfl with ⟨hsame, haborted, -⟩
          exact ⟨left, Function.update_self .., hsame.trans hkey, haborted.trans hlive⟩
      · exact ⟨old, (Function.update_of_ne hid _ _).trans hold, hkey, hlive⟩
    flying := by
      intro other left hleft hlive
      rcases hread hleft hlive with ⟨old, hold, hlive', hkey, -⟩
      rw [hinflight, hkey, hw.flying hold hlive']
    reverts := by
      intro other left hleft hlive
      rcases hread hleft hlive with ⟨old, hold, hlive', hkey, hrevert⟩
      rw [hentries, hkey, hrevert]
      exact hw.reverts hold hlive'
    fresh := by
      intro other hle
      rw [hnext] at hle
      rw [hjobs, Function.update_of_ne _, hw.fresh other hle]
      rintro rfl
      rw [hw.fresh other hle] at hjob
      cases hjob
    entry := by
      rw [hentries, hinflight, hlast]
      exact hw.entry
    quiet := by
      rw [hdisposed, hview, hinflight]
      exact hw.quiet }

theorem Consistent.forget (haborted : job.aborted = true) : (w.forget id).Consistent opts :=
  hw.updateJob hjob rfl nofun (fun _ => haborted) rfl rfl rfl rfl rfl rfl

theorem Consistent.aborted_of_disposed (h : job.aborted = true ∨ w.disposed = true) :
    job.aborted = true := by
  rcases h with haborted | hdisposed
  · exact haborted
  · cases haborted : job.aborted with
    | true => rfl
    | false =>
      have hfly := hw.flying hjob haborted
      rw [hw.quiet (.inl hdisposed)] at hfly
      cases hfly

end

end

omit [DecidableEq K] in
theorem aborted_of_none (left : Job K) (h : none = some left) : left.aborted = true := by
  cases h

section

variable (hw : w.Consistent opts) (hjob : w.jobs id = some job) (hlive : job.aborted = false)
include hw hjob hlive

theorem Consistent.complete (trace : T) (rawByteLength : Nat) :
    (w.complete opts id job.key trace rawByteLength).Consistent opts := by
  have hentry : ∀ entry, w.entries job.key = some entry →
      EntryOk opts none (some trace)
        { entry with
          state := if opts.residentBudget < rawByteLength then .oversized else .parsed
          trace := if opts.residentBudget < rawByteLength then entry.trace else some trace
          rawByteLength := some rawByteLength
          invariants := some (opts.segmentInvariants trace)
          edgePolls := some (opts.computeSegmentEdgePolls trace) } := by
    intro entry hentry
    have hok := hw.entry hentry
    have hfetching := (hw.entryOk_revert hjob hlive hentry).2.1
    by_cases hover : opts.residentBudget < rawByteLength
    · rw [if_pos hover, if_pos hover]
      exact {
        fetching := iff_of_false nofun fun h => h rfl
        trace := by
          refine iff_of_false ?_ nofun
          rw [hok.trace, hfetching]
          nofun
        size := nofun
        fits := fun _ _ => .inr rfl
        sized := rfl
        invariants := rfl
        edgePolls := rfl
        parsedOnce := fun _ => nofun }
    · rw [if_neg hover, if_neg hover]
      exact {
        fetching := iff_of_false nofun fun h => h rfl
        trace := iff_of_true rfl rfl
        size := fun _ => ⟨rawByteLength, rfl, not_lt.mp hover⟩
        fits := fun _ hraw => .inl (Option.some.inj hraw ▸ not_lt.mp hover)
        sized := rfl
        invariants := rfl
        edgePolls := rfl
        parsedOnce := fun _ => nofun }
  exact hw.settle hjob hlive aborted_of_none hentry rfl rfl rfl rfl rfl rfl rfl

theorem Consistent.fail
    {failed : List K} (hnext : next = { w.forget id with
      inflight := Function.update w.inflight job.key none
      failed := failed }.setState job.key job.revertTo) :
    next.Consistent opts ∧ MovesJobs w next := by
  have hentry : ∀ entry, w.entries job.key = some entry →
      EntryOk opts none (w.lastParse job.key) { entry with state := job.revertTo } :=
    fun entry hentry => (hw.entryOk_revert hjob hlive hentry).1
  rw [hnext]
  constructor
  · exact hw.settle hjob hlive aborted_of_none hentry rfl rfl rfl
      (Function.update_eq_self _ _).symm rfl rfl rfl
  · exact ⟨noRevival_update rfl rfl nofun,
      settled_update rfl fun _ hentry => hw.settled_revert hjob hlive hentry, rfl, rfl, rfl⟩

end

theorem abortUnwanted_inflight_none (keys wanted : List K) (hfree : w.inflight key = none) :
    (w.abortUnwanted keys wanted).inflight key = none := by
  induction keys generalizing w with
  | nil => exact hfree
  | cons other rest ih =>
    rw [Window.abortUnwanted, List.foldl_cons]
    split
    · exact ih hfree
    · split
      · exact ih hfree
      · apply ih
        rw [Window.abortJob]
        split
        · exact hfree
        · by_cases hkey : key = other
          · rw [hkey]
            exact Function.update_self ..
          · exact (Function.update_of_ne hkey _ _).trans hfree

theorem Consistent.abortUnwanted_inflight (hw : w.Consistent opts) {keys wanted : List K}
    (hkey : key ∈ keys) (hwanted : key ∉ wanted) :
    (w.abortUnwanted keys wanted).inflight key = none := by
  induction keys generalizing w with
  | nil => cases hkey
  | cons other rest ih =>
    have hhead : ∀ u : Window K T I P, other = key → u.inflight key = none →
        (u.abortUnwanted rest wanted).inflight key = none := fun u _ hfree =>
      abortUnwanted_inflight_none rest wanted hfree
    rw [Window.abortUnwanted, List.foldl_cons]
    by_cases heq : other = key
    · subst heq
      cases hfly : w.inflight other with
      | none => exact hhead w rfl hfly
      | some id =>
        rcases hw.inflight hfly with ⟨job, hjob, hjobKey, hlive⟩
        dsimp only
        rw [if_neg hwanted, abortJob_eq hjob]
        exact hhead _ rfl (Function.update_self ..)
    · have hrest : key ∈ rest := (List.mem_cons.mp hkey).resolve_left (Ne.symm heq)
      split
      · exact ih hw hrest
      · rename_i id hfly
        split
        · exact ih hw hrest
        · exact ih (hw.abortJob hfly).1 hrest

theorem mem_orderedKeys {s : ListedSegment K} (hs : opts.byKey key = some s) :
    key ∈ opts.orderedKeys := by
  have hkey := List.find?_some hs
  have hmem := List.mem_reverse.mp (List.mem_of_find?_eq_some hs)
  exact List.mem_map.mpr ⟨s, hmem, of_decide_eq_true hkey⟩

theorem Consistent.mem_listing (hw : w.Consistent opts) (hfly : w.inflight key ≠ none) :
    key ∈ opts.orderedKeys := by
  rcases Option.ne_none_iff_exists'.mp hfly with ⟨id, hid⟩
  rcases hw.inflight hid with ⟨job, hjob, rfl, hlive⟩
  rcases hw.reverts hjob hlive with ⟨entry, hentry, -⟩
  have hsome := hw.listed job.key
  rw [hentry] at hsome
  obtain ⟨s, hs⟩ := Option.isSome_iff_exists.mp hsome.symm
  exact mem_orderedKeys hs

theorem Consistent.dispose (hw : w.Consistent opts) :
    { w.abortUnwanted opts.orderedKeys [] with disposed := true }.Consistent opts := by
  rcases hw.abortUnwanted opts.orderedKeys [] with ⟨haborted, -⟩
  refine { haborted with quiet := fun _ key => ?_ }
  by_cases hfly : w.inflight key = none
  · exact abortUnwanted_inflight_none _ _ hfly
  · exact hw.abortUnwanted_inflight (hw.mem_listing hfly) List.not_mem_nil

/-- A consistent window within its budget. -/
structure Good (opts : WindowOptions K T I P) (w : Window K T I P) :
    Prop extends w.Consistent opts where
  resident : rawBytes (w.resident opts) ≤ opts.residentBudget

/-- What the first half of a step leaves. -/
structure Applied (opts : WindowOptions K T I P) (w next : Window K T I P) (reconciles : Bool) :
    Prop extends NoRevival w next where
  consistent : next.Consistent opts
  idle : reconciles = false → next.settled = w.settled
  looks : reconciles = true → next.disposed = false ∧ ∃ view, next.view = some view
  oversized : ∀ key entry, w.entries key = some entry → entry.state = .oversized →
    next.entries key = some entry

theorem Consistent.unqueued (hw : w.Consistent opts) {cleared : Window K T I P}
    {waiting : List K} (h : cleared = { w with pendingPrefetch := waiting }) :
    cleared.Consistent opts ∧ MovesJobs w cleared := by
  rw [h]
  exact ⟨{ hw with }, noRevival_of_jobs rfl rfl, rfl, rfl, rfl, rfl⟩

theorem applied_of_moves (hnext : next.Consistent opts) (hmoves : MovesJobs w next) :
    Applied opts w next false where
  toNoRevival := hmoves.toNoRevival
  consistent := hnext
  idle _ := hmoves.settled
  looks := nofun
  oversized _ _ hentry hover := entry_of_settled hmoves.settled hentry (.inr hover)

theorem Consistent.applied_forget (hw : w.Consistent opts) (hjob : w.jobs id = some job)
    (haborted : job.aborted = true) :
    Applied opts w (w.forget id) false :=
  applied_of_moves (hw.forget hjob haborted)
    ⟨noRevival_update rfl rfl nofun, rfl, rfl, rfl, rfl⟩

theorem Consistent.apply (hw : w.Consistent opts) {reconciles : Bool}
    (h : w.apply opts event = some (next, reconciles)) : Applied opts w next reconciles := by
  cases event with
  | setViewport view =>
    rcases Option.ite_none_left_eq_some.mp h with ⟨hopen, hnext⟩
    cases hnext
    exact {
      toNoRevival := noRevival_of_jobs rfl rfl
      consistent := {
        hw with
        quiet := by
          rintro (hdisposed | hview)
          · exact absurd hdisposed hopen
          · cases hview }
      idle := nofun
      looks := fun _ => ⟨Bool.eq_false_of_not_eq_true hopen, view, rfl⟩
      oversized := fun _ _ hentry _ => hentry }
  | fetched id byteLength =>
    rcases Option.bind_eq_some_iff.mp h with ⟨job, hjob, hrest⟩
    rcases Option.ite_none_left_eq_some.mp hrest with ⟨-, hrest⟩
    split at hrest
    case isTrue haborted =>
      cases hrest
      exact hw.applied_forget hjob haborted
    case isFalse haborted =>
      cases hrest
      have hnew : ∀ left, some { job with parsing := true } = some left →
          left.key = job.key ∧ left.aborted = job.aborted ∧ left.revertTo = job.revertTo := by
        rintro _ ⟨⟩
        exact ⟨rfl, rfl, rfl⟩
      apply applied_of_moves
      · exact hw.updateJob hjob rfl hnew nofun rfl rfl rfl rfl rfl rfl
      · refine ⟨noRevival_update rfl rfl ?_, rfl, rfl, rfl, rfl⟩
        rintro left - -
        exact ⟨job, hjob, Bool.eq_false_of_not_eq_true haborted⟩
  | jobFailed id =>
    rcases Option.map_eq_some_iff.mp h with ⟨job, hjob, hrest⟩
    split at hrest
    case isTrue hdropped =>
      cases hrest
      exact hw.applied_forget hjob (hw.aborted_of_disposed hjob hdropped)
    case isFalse hkept =>
      cases hrest
      have hlive := Bool.eq_false_of_not_eq_true (not_or.mp hkept).1
      rcases hw.fail hjob hlive rfl with ⟨hnext, hmoves⟩
      exact applied_of_moves hnext hmoves
  | parsed id trace rawByteLength =>
    rcases Option.bind_eq_some_iff.mp h with ⟨job, hjob, hrest⟩
    rcases Option.ite_none_right_eq_some.mp hrest with ⟨-, hrest⟩
    split at hrest
    case isTrue hdropped =>
      cases hrest
      exact hw.applied_forget hjob (hw.aborted_of_disposed hjob hdropped)
    case isFalse hkept =>
      cases hrest
      rcases not_or.mp hkept with ⟨haborted, hopen⟩
      have hlive := Bool.eq_false_of_not_eq_true haborted
      exact {
        toNoRevival := noRevival_update rfl rfl nofun
        consistent := hw.complete hjob hlive trace rawByteLength
        idle := nofun
        looks := by
          rintro -
          refine ⟨Bool.eq_false_of_not_eq_true hopen, Option.ne_none_iff_exists'.mp fun hview => ?_⟩
          have hfly := hw.flying hjob hlive
          rw [hw.quiet (.inr hview)] at hfly
          cases hfly
        oversized := by
          intro key entry hentry hover
          refine (Function.update_of_ne ?_ _ _).trans hentry
          rintro rfl
          cases hover.symm.trans (hw.entryOk_revert hjob hlive hentry).2.1 }
  | idle key =>
    rcases Option.ite_none_right_eq_some.mp h with ⟨-, hrest⟩
    obtain ⟨cleared, hcleared⟩ : ∃ cleared, cleared =
      { w with pendingPrefetch := w.pendingPrefetch.filter fun other => decide (other ≠ key) } :=
      ⟨_, rfl⟩
    obtain ⟨hcons, hmoves⟩ := hw.unqueued hcleared
    rw [← hcleared] at hrest
    split at hrest
    case h_1 view hopen hview =>
      split at hrest
      case isTrue =>
        cases hrest
        rcases hcons.startJob ⟨hopen, hview.trans_ne nofun⟩ key with ⟨hnext, hmoves'⟩
        exact applied_of_moves hnext (hmoves.trans hmoves')
      case isFalse =>
        cases hrest
        exact applied_of_moves hcons hmoves
    case h_2 =>
      cases hrest
      exact applied_of_moves hcons hmoves
  | dispose =>
    rw [Window.apply] at h
    split at h
    case isTrue =>
      cases h
      exact applied_of_moves hw .rfl
    case isFalse =>
      cases h
      rcases hw.abortUnwanted opts.orderedKeys [] with ⟨-, hmoves⟩
      exact {
        toNoRevival := ⟨hmoves.nextJob, hmoves.ended⟩
        consistent := hw.dispose
        idle := fun _ => hmoves.settled
        looks := nofun
        oversized := fun _ _ hentry hover => entry_of_settled hmoves.settled hentry (.inr hover) }

theorem Good.step (hw : w.Good opts) (h : w.step opts event = some next) : next.Good opts := by
  rcases Option.map_eq_some_iff.mp h with ⟨⟨mid, reconciles⟩, happly, hnext⟩
  have happlied := hw.toConsistent.apply happly
  cases reconciles with
  | false =>
    obtain rfl : mid = next := hnext
    refine ⟨happlied.consistent, ?_⟩
    rw [resident_of_settled (happlied.idle rfl)]
    exact hw.resident
  | true =>
    obtain rfl : mid.reconcile opts = next := hnext
    rcases happlied.looks rfl with ⟨hopen, view, hview⟩
    have hdone := happlied.consistent.reconcile hopen hview
    exact ⟨hdone.consistent, hdone.resident⟩

theorem create_good : (create opts).Good opts := by
  refine ⟨create_consistent, ?_⟩
  have hnone : (create opts).resident opts = [] := by
    apply List.filterMap_eq_nil_iff.mpr
    intro key _
    dsimp only [create]
    cases opts.byKey key <;> rfl
  rw [hnone]
  exact Nat.zero_le _

end Window

/-! ## In every run -/

/-- The job whose promise settles. -/
def Event.job? : Event K T → Option Nat
  | .fetched id _ | .jobFailed id | .parsed id _ _ => some id
  | _ => none

/-- What holds of a window between the events. -/
structure WindowOk [DecidableEq K] (opts : WindowOptions K T I P) (w : Window K T I P) : Prop where
  fetching : ∀ key entry, w.entries key = some entry →
    (entry.state = .fetching ↔ ∃ id job, w.jobs id = some job ∧ job.key = key ∧ job.aborted = false)
  single : ∀ id job id' job', w.jobs id = some job → job.aborted = false →
    w.jobs id' = some job' → job'.aborted = false → job.key = job'.key → id = id'
  parsed : ∀ key entry, w.entries key = some entry →
    (entry.state = .parsed ↔ entry.trace.isSome = true ∧
      ∃ raw, entry.rawByteLength = some raw ∧ raw ≤ opts.residentBudget)
  evicted : ∀ key entry, w.entries key = some entry → entry.state = .evicted →
    ∃ trace, w.lastParse key = some trace ∧ entry.invariants = some (opts.segmentInvariants trace) ∧
      entry.edgePolls = some (opts.computeSegmentEdgePolls trace)
  resident : rawBytes (w.resident opts) ≤ opts.residentBudget

/-- What an event leaves as it was. -/
structure StepOk [DecidableEq K] (opts : WindowOptions K T I P) (w : Window K T I P)
    (event : Event K T) (next : Window K T I P) : Prop where
  /-- The results of an aborted job are dropped. -/
  aborted : ∀ id job, event.job? = some id → w.jobs id = some job → job.aborted = true →
    next.entries = w.entries
  /-- A job that ended or was aborted stays so. -/
  ended : ∀ id < w.nextJob, ¬w.Live id → ¬next.Live id
  oversized : ∀ key entry, w.entries key = some entry → entry.state = .oversized →
    next.entries key = some entry
  /-- A pass over the listing keeps what it admits. -/
  kept : ∀ mid view, w.apply opts event = some (mid, true) → mid.view = some view →
    ∀ key ∈ Window.wanted (mid.planAdmission opts view), ∀ entry, mid.entries key = some entry →
      entry.state = .parsed → next.entries key = some entry

namespace Window

variable [DecidableEq K] {opts : WindowOptions K T I P} {w next : Window K T I P}

theorem Good.windowOk (hw : w.Good opts) : WindowOk opts w where
  fetching key entry hentry := by
    rw [(hw.entry hentry).fetching, Option.ne_none_iff_exists']
    constructor
    · rintro ⟨id, hid⟩
      rcases hw.inflight hid with ⟨job, hjob⟩
      exact ⟨id, job, hjob⟩
    · rintro ⟨id, job, hjob, rfl, hlive⟩
      exact ⟨id, hw.flying hjob hlive⟩
  single id job id' job' hjob hlive hjob' hlive' hkey := by
    have hfly := hw.flying hjob hlive
    rw [hkey, hw.flying hjob' hlive'] at hfly
    exact (Option.some.inj hfly).symm
  parsed key entry hentry := by
    have hok := hw.entry hentry
    rw [hok.trace]
    exact ⟨fun hparsed => ⟨hparsed, hok.size hparsed⟩, And.left⟩
  evicted key entry hentry hstate := by
    have hok := hw.entry hentry
    rcases Option.ne_none_iff_exists'.mp (hok.parsedOnce (.inr (.inl hstate))) with ⟨trace, htrace⟩
    refine ⟨trace, htrace, ?_, ?_⟩
    · rw [hok.invariants, htrace, Option.map_some]
    · rw [hok.edgePolls, htrace, Option.map_some]
  resident := hw.resident

theorem apply_of_aborted {id : Nat} (hevent : event.job? = some id) (hjob : w.jobs id = some job)
    (haborted : job.aborted = true) {mid : Window K T I P} {reconciles : Bool}
    (h : w.apply opts event = some (mid, reconciles)) :
    mid = w.forget id ∧ reconciles = false := by
  cases event with
  | setViewport | idle | dispose => cases hevent
  | fetched | parsed =>
    cases hevent
    simp only [apply, hjob, Option.bind_some, haborted, true_or, if_true] at h
    split at h <;> simp_all
  | jobFailed =>
    cases hevent
    simp only [apply, hjob, Option.map_some, haborted, true_or, if_true] at h
    simp_all

theorem Good.stepOk (hw : w.Good opts) (h : w.step opts event = some next) :
    StepOk opts w event next := by
  rcases Option.map_eq_some_iff.mp h with ⟨⟨mid, reconciles⟩, happly, hnext⟩
  have happlied := hw.toConsistent.apply happly
  have haborted : ∀ id job, event.job? = some id → w.jobs id = some job → job.aborted = true →
      next.entries = w.entries := by
    intro id job hevent hjob haborted
    rcases apply_of_aborted hevent hjob haborted happly with ⟨rfl, rfl⟩
    obtain rfl : w.forget id = next := hnext
    rfl
  cases reconciles with
  | false =>
    obtain rfl : mid = next := hnext
    exact {
      aborted := haborted
      ended := happlied.ended
      oversized := happlied.oversized
      kept := by
        intro mid' view happly'
        rw [happly] at happly'
        cases happly' }
  | true =>
    obtain rfl : mid.reconcile opts = next := hnext
    rcases happlied.looks rfl with ⟨hopen, view, hview⟩
    have hdone := happlied.consistent.reconcile hopen hview
    exact {
      aborted := haborted
      ended := (happlied.toNoRevival.trans hdone.toNoRevival).ended
      oversized := fun key entry hentry hover =>
        hdone.kept key entry (happlied.oversized key entry hentry hover) (.inl hover)
      kept := by
        intro mid' view' happly' hview' key hwanted entry hentry hparsed
        rw [happly] at happly'
        cases happly'
        obtain rfl : view = view' := Option.some.inj (hview.symm.trans hview')
        exact hdone.kept key entry hentry (.inr ⟨hparsed, hwanted⟩) }

/-- In any order of events, jobs and entries agree, what is parsed is within the budget,
and nothing admitted is evicted. -/
theorem window_ok (opts : WindowOptions K T I P) (events : List (Event K T)) :
    Lib.Throughout (step opts)
      (fun w => WindowOk opts w ∧
        ∀ event next, w.step opts event = some next → StepOk opts w event next)
      (create opts) events := by
  have hstep :
      ∀ w event next, Good opts w → True → w.step opts event = some next → next.Good opts :=
    fun w event next hw _ h => hw.step h
  apply Lib.throughout_of_along hstep _ create_good (Lib.along_true _ _)
  intro w hw
  exact ⟨hw.windowOk, fun event next h => hw.stepOk h⟩

end Window

end Dial9.Viewer.Segments
