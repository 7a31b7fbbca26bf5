/-
# Honest boundary polls

What the window shows of a poll across segments, against the workers' histories. A
span contains no event of its worker that could have ended the poll, and spans of one
worker do not overlap. Where all segments are there, every poll across segments is
stitched.

A segment is a spot of the listing with the parse that its evidence is from.
-/

import Dial9.Viewer.BoundaryPolls

namespace Dial9.Viewer.Boundary

open Segments

/-! ## The events of a segment -/

/-- An event that ends a poll that is open. -/
def busy (e : TraceEvent) : Bool :=
  e.eventType = .pollStart || e.eventType = .pollEnd || e.eventType = .workerPark

variable {e : TraceEvent} {t : Int}

variable {w : Nat}

theorem mem_workerEvents {events : List TraceEvent} :
    e ∈ workerEvents w events ↔ e ∈ events ∧ isLifecycle e = true ∧ e.workerId = w := by
  rw [workerEvents, mem_sortByTime, List.mem_filter, Bool.and_eq_true, decide_eq_true_iff]

theorem mem_lifecycleWorkers {events : List TraceEvent} :
    w ∈ lifecycleWorkers events ↔ workerEvents w events ≠ [] := by
  rw [lifecycleWorkers, (List.perm_insertionSort _ _).mem_iff, List.mem_dedup, List.mem_map]
  constructor
  · rintro ⟨e, he, rfl⟩ hnil
    rcases List.mem_filter.mp he with ⟨hmem, hlife⟩
    have := mem_workerEvents.mpr ⟨hmem, hlife, rfl⟩
    rw [hnil] at this
    cases this
  · intro hne
    rcases List.exists_mem_of_ne_nil _ hne with ⟨e, he⟩
    rcases mem_workerEvents.mp he with ⟨hmem, hlife, hw⟩
    exact ⟨e, List.mem_filter.mpr ⟨hmem, hlife⟩, hw⟩

theorem find?_filterMap {α : Type} {key : α → Nat} {f : Nat → Option α}
    (hkey : ∀ w a, f w = some a → key a = w) {workers : List Nat}
    (hnone : w ∉ workers → f w = none) :
    ((workers.filterMap f).find? fun a => key a = w) = f w := by
  induction workers with
  | nil => exact (hnone List.not_mem_nil).symm
  | cons first rest ih =>
    rw [List.filterMap_cons]
    by_cases hfirst : w = first
    · subst hfirst
      cases hf : f w with
      | none =>
        refine (ih fun _ => hf).trans hf
      | some a => exact List.find?_cons_of_pos (decide_eq_true (hkey w a hf))
    · have hrest :=
        ih fun hmem => hnone fun hcons => hmem ((List.mem_cons.mp hcons).resolve_left hfirst)
      split
      · exact hrest
      · rename_i a ha
        rw [List.find?_cons_of_neg]
        · exact hrest
        · rw [decide_eq_true_iff, hkey first a ha]
          exact fun heq => hfirst heq.symm

variable {open? : Option TraceEvent}

theorem openAfter_none {events : List TraceEvent}
    (h : ∀ e ∈ events, busy e = false) : openAfter open? events = open? := by
  induction events with
  | nil => rfl
  | cons e rest ih =>
    have he := h e List.mem_cons_self
    simp only [busy, Bool.or_eq_false_iff, decide_eq_false_iff_not] at he
    rw [openAfter, if_neg he.1.1, if_neg (not_or.mpr ⟨he.1.2, he.2⟩)]
    exact ih fun e' he' => h e' (List.mem_cons_of_mem _ he')

theorem openAfter_spec {events : List TraceEvent} (h : openAfter open? events = some e) :
    (open? = some e ∧ ∀ e' ∈ events, busy e' = false) ∨
      ∃ pre mid, events = pre ++ e :: mid ∧ e.eventType = .pollStart ∧ ∀ e' ∈ mid,
        busy e' = false := by
  induction events generalizing open? with
  | nil => exact .inl ⟨h, fun _ he => absurd he List.not_mem_nil⟩
  | cons first rest ih =>
    rw [openAfter] at h
    split at h
    case isTrue hstart =>
      right
      rcases ih h with ⟨heq, hidle⟩ | ⟨pre, mid, rfl, hpoll, hidle⟩
      · cases heq
        exact ⟨[], rest, rfl, hstart, hidle⟩
      · exact ⟨first :: pre, mid, rfl, hpoll, hidle⟩
    case isFalse hstart =>
      split at h
      case isTrue =>
        right
        rcases ih h with ⟨heq, -⟩ | ⟨pre, mid, rfl, hpoll, hidle⟩
        · cases heq
        · exact ⟨first :: pre, mid, rfl, hpoll, hidle⟩
      case isFalse hend =>
        rcases ih h with ⟨heq, hidle⟩ | ⟨pre, mid, rfl, hpoll, hidle⟩
        · left
          refine ⟨heq, fun e' he' => ?_⟩
          rcases List.mem_cons.mp he' with rfl | he'
          · simp only [busy, Bool.or_eq_false_iff, decide_eq_false_iff_not]
            exact ⟨⟨hstart, fun h => hend (.inl h)⟩, fun h => hend (.inr h)⟩
          · exact hidle e' he'
        · exact .inr ⟨first :: pre, mid, rfl, hpoll, hidle⟩

theorem openAfter_append (open? : Option TraceEvent) (pre post : List TraceEvent) :
    openAfter open? (pre ++ post) = openAfter (openAfter open? pre) post := by
  induction pre generalizing open? with
  | nil => rfl
  | cons first rest ih =>
    rw [List.cons_append, openAfter, openAfter]
    split
    · exact ih _
    · split
      · exact ih _
      · exact ih _

theorem openAfter_eq_some_iff {events : List TraceEvent} :
    openAfter none events = some e ↔
      ∃ pre mid, events = pre ++ e :: mid ∧ e.eventType = .pollStart ∧ ∀ e' ∈ mid,
        busy e' = false := by
  constructor
  · intro h
    rcases openAfter_spec h with ⟨hnone, -⟩ | hsplit
    · cases hnone
    · exact hsplit
  · rintro ⟨pre, mid, rfl, hstart, hidle⟩
    rw [openAfter_append, openAfter, if_pos hstart, openAfter_none hidle]

theorem danglingClose_eq_some_iff {events : List TraceEvent} {close : SegmentEdgeDanglingClose} :
    danglingClose w events = some close ↔
      ∃ first rest,
        events = first :: rest ∧ first.eventType = .pollEnd ∧ close = ⟨w, first.timestamp⟩ := by
  cases events with
  | nil =>
    refine iff_of_false (Option.not_mem_none close) ?_
    rintro ⟨first, rest, hnil, -⟩
    exact List.cons_ne_nil _ _ hnil.symm
  | cons first rest =>
    rw [danglingClose, List.head?_cons]
    dsimp only
    constructor
    · intro h
      rcases Option.ite_none_right_eq_some.mp h with ⟨hend, hclose⟩
      exact ⟨first, rest, rfl, hend, (Option.some.inj hclose).symm⟩
    · rintro ⟨_, _, ⟨⟩, hend, rfl⟩
      rw [if_pos hend]

/-! ## A segment and its evidence -/

/-- A spot with the parse that its evidence is from. -/
abbrev Seg : Type := Spot × ParsedTrace

namespace Seg

/-- The worker's events in a segment. -/
def events (seg : Seg) (w : Nat) : List TraceEvent := workerEvents w seg.2.events

end Seg

/-- What is retained of a segment is from its parse, the edges not without the rest. -/
structure Sourced (seg : Seg) : Prop where
  invariants : ∀ {invariants}, seg.1.invariants = some invariants →
    invariants = segmentInvariants seg.2
  edgePolls : ∀ {polls}, seg.1.edgePolls = some polls → polls = computeSegmentEdgePolls seg.2
  together : seg.1.edgePolls.isSome = true → seg.1.invariants.isSome = true
  resident : seg.1.resident = true → seg.1.edgePolls.isSome = true

variable {w : Nat} {seg : Seg}

theorem Sourced.openAt (hseg : Sourced seg) (hedges : seg.1.edgePolls.isSome = true) :
    openAt w seg.1 = (openAfter none (seg.events w)).map (toOpenPoll w) := by
  obtain ⟨polls, hpolls⟩ := Option.isSome_iff_exists.mp hedges
  rw [Boundary.openAt, hpolls, Option.bind_some, hseg.edgePolls hpolls, computeSegmentEdgePolls]
  apply find?_filterMap
  · intro w a ha
    rcases Option.map_eq_some_iff.mp ha with ⟨e, -, rfl⟩
    rfl
  · intro hmem
    have hnil := not_not.mp (mt mem_lifecycleWorkers.mpr hmem)
    rw [hnil]
    rfl

theorem Sourced.closeAt (hseg : Sourced seg) (hedges : seg.1.edgePolls.isSome = true) :
    closeAt w seg.1 = danglingClose w (seg.events w) := by
  obtain ⟨polls, hpolls⟩ := Option.isSome_iff_exists.mp hedges
  rw [Boundary.closeAt, hpolls, Option.bind_some, hseg.edgePolls hpolls, computeSegmentEdgePolls]
  apply find?_filterMap
  · intro w a ha
    rcases danglingClose_eq_some_iff.mp ha with ⟨_, _, _, _, rfl⟩
    rfl
  · intro hmem
    have hnil := not_not.mp (mt mem_lifecycleWorkers.mpr hmem)
    rw [hnil]
    rfl

variable {opened : SegmentEdgeOpenPoll} {invariants : SegmentParseInvariants}
  {stretches : List Stretch} {carry : Carry}

theorem Sourced.openAt_some (hseg : Sourced seg) (h : Boundary.openAt w seg.1 = some opened) :
    seg.1.edgePolls.isSome = true ∧ ∃ pre e mid, seg.events w = pre ++ e :: mid ∧
      e.eventType = .pollStart ∧ (∀ e' ∈ mid, busy e' = false) ∧ opened = toOpenPoll w e := by
  have hedges : seg.1.edgePolls.isSome = true := by
    rcases Option.bind_eq_some_iff.mp h with ⟨polls, hpolls, -⟩
    rw [hpolls]
    rfl
  rw [hseg.openAt hedges] at h
  rcases Option.map_eq_some_iff.mp h with ⟨e, he, hopened⟩
  rcases openAfter_eq_some_iff.mp he with ⟨pre, mid, hevents, hstart, hidle⟩
  exact ⟨hedges, pre, e, mid, hevents, hstart, hidle, hopened.symm⟩

theorem Sourced.closeAt_some (hseg : Sourced seg) {close : SegmentEdgeDanglingClose}
    (h : Boundary.closeAt w seg.1 = some close) :
    seg.1.edgePolls.isSome = true ∧ ∃ first rest, seg.events w = first :: rest ∧
      first.eventType = .pollEnd ∧ close = ⟨w, first.timestamp⟩ := by
  have hedges : seg.1.edgePolls.isSome = true := by
    rcases Option.bind_eq_some_iff.mp h with ⟨polls, hpolls, -⟩
    rw [hpolls]
    rfl
  rw [hseg.closeAt hedges] at h
  exact ⟨hedges, danglingClose_eq_some_iff.mp h⟩

theorem Sourced.silent_iff (hseg : Sourced seg) (hinv : seg.1.invariants = some invariants) :
    w ∉ invariants.workerIds ↔ seg.events w = [] := by
  rw [hseg.invariants hinv, segmentInvariants, mem_lifecycleWorkers, not_not]
  rfl

theorem events_sorted (seg : Seg) (w : Nat) :
    (seg.events w).Pairwise fun a b => a.timestamp ≤ b.timestamp :=
  sortByTime_pairwise _

theorem events_bounded (he : e ∈ seg.events w) :
    ∃ lo hi, seg.2.minTs = some lo ∧ seg.2.maxTs = some hi ∧ lo ≤ e.timestamp ∧ e.timestamp ≤ hi :=
  seg.2.bounded e (mem_workerEvents.mp he).1

/-! ## The order of time -/

/-- No event of a parse is after one of a later segment's. -/
def Before (a b : ParsedTrace) : Prop :=
  ∀ hi lo, a.maxTs = some hi → b.minTs = some lo → hi ≤ lo

/-- A worker's events over some segments. -/
def history (w : Nat) (segs : List Seg) : List TraceEvent := segs.flatMap fun seg => seg.events w

theorem history_append (w : Nat) (a b : List Seg) :
    history w (a ++ b) = history w a ++ history w b :=
  List.flatMap_append

theorem history_cons (w : Nat) (seg : Seg) (rest : List Seg) :
    history w (seg :: rest) = seg.events w ++ history w rest :=
  List.flatMap_cons

theorem mem_history {segs : List Seg} : e ∈ history w segs ↔ ∃ seg ∈ segs, e ∈ seg.events w :=
  List.mem_flatMap

theorem Before.event_le_lo {a b : Seg} (h : Before a.2 b.2) (he : e ∈ a.events w) {lo : Int}
    (hlo : b.2.minTs = some lo) : e.timestamp ≤ lo := by
  rcases events_bounded he with ⟨_, hi, _, hhi, _, hle⟩
  exact hle.trans (h hi lo hhi hlo)

theorem Before.event_le_event {a b : Seg} (h : Before a.2 b.2) {e e' : TraceEvent}
    (he : e ∈ a.events w) (he' : e' ∈ b.events w) : e.timestamp ≤ e'.timestamp := by
  rcases events_bounded he' with ⟨lo, _, hlo, _, hle, _⟩
  exact (h.event_le_lo he hlo).trans hle

/-- The segments that were passed, the last one first, and those to come. -/
structure Split (segs passed rest : List Seg) : Prop where
  eq : segs = passed.reverse ++ rest
  sourced : ∀ seg ∈ segs, Sourced seg
  order : segs.Pairwise fun a b => Before a.2 b.2

variable {segs passed rest : List Seg}

theorem Split.step (h : Split segs passed (seg :: rest)) : Split segs (seg :: passed) rest where
  eq := by rw [h.eq, List.reverse_cons, List.append_assoc, List.singleton_append]
  sourced := h.sourced
  order := h.order

theorem Split.before (h : Split segs passed rest) {p r : Seg} (hp : p ∈ passed) (hr : r ∈ rest) :
    Before p.2 r.2 := by
  have horder := h.order
  rw [h.eq] at horder
  exact (List.pairwise_append.mp horder).2.2 p (List.mem_reverse.mpr hp) r hr

theorem Split.head (h : Split segs passed (seg :: rest)) : Sourced seg :=
  h.sourced seg (h.eq ▸ List.mem_append_right _ List.mem_cons_self)

theorem Split.before_rest (h : Split segs passed (seg :: rest)) {r : Seg} (hr : r ∈ rest) :
    Before seg.2 r.2 :=
  h.step.before List.mem_cons_self hr

/-- At or before everything in some segments. -/
def Floor (t : Int) (segs : List Seg) : Prop := ∀ seg ∈ segs, ∀ lo, seg.2.minTs = some lo → t ≤ lo

theorem floor_nil (t : Int) : Floor t [] := fun _ hs => absurd hs List.not_mem_nil

theorem Floor.event (h : Floor t segs) (he : e ∈ history w segs) : t ≤ e.timestamp := by
  rcases mem_history.mp he with ⟨seg, hseg, he⟩
  rcases events_bounded he with ⟨lo, _, hlo, _, hle, _⟩
  exact (h seg hseg lo hlo).trans hle

theorem Floor.of_cons (h : Floor t (seg :: rest)) : Floor t rest :=
  fun r hr => h r (List.mem_cons_of_mem _ hr)

theorem Split.floor (h : Split segs passed (seg :: rest)) (he : e ∈ seg.events w) :
    Floor e.timestamp rest :=
  fun _ hr _ hlo => (h.before_rest hr).event_le_lo he hlo

/-! ## What is emitted -/

namespace Emitted

def start : Emitted → Int
  | .stretch s _ => s.start
  | .stitched opened _ => opened.start

def endTs : Emitted → Int
  | .stretch s _ => s.endTs
  | .stitched _ endTs => endTs

end Emitted

/-- Nothing strictly inside the span ends a poll. -/
def Clear (history : List TraceEvent) (start endTs : Int) : Prop :=
  ∀ e ∈ history, busy e = true → e.timestamp ≤ start ∨ endTs ≤ e.timestamp

/-- The poll started with an event of the worker's history, at or before the span, and
nothing ended it before the span's end. -/
def Opened (w : Nat) (history : List TraceEvent) (opened : SegmentEdgeOpenPoll)
    (start endTs : Int) :
    Prop :=
  ∃ pre e mid post, history = pre ++ e :: (mid ++ post) ∧ e.eventType = .pollStart ∧
    opened = toOpenPoll w e ∧ (∀ e' ∈ mid, busy e' = false) ∧ e.timestamp ≤ start ∧
      ∀ e' ∈ post, endTs ≤ e'.timestamp

/-- The poll is a start and the end that follows it in the worker's history. -/
def Stitched (w : Nat) (history : List TraceEvent) (opened : SegmentEdgeOpenPoll) (endTs : Int) :
    Prop :=
  ∃ pre e mid close post, history = pre ++ e :: (mid ++ close :: post) ∧ e.eventType = .pollStart ∧
    opened = toOpenPoll w e ∧ (∀ e' ∈ mid, busy e' = false) ∧ close.eventType = .pollEnd ∧
      endTs = close.timestamp

/-- Leftward, over segments in which the worker is silent, there is a gap, a segment that
was never parsed, or one with events of the worker whose edges were not kept. -/
inductive Unseen (w : Nat) : Spot → List Spot → Prop where
  | gap {right prev : Spot} {rest : List Spot} (hgap : adjacent prev right = false) :
      Unseen w right (prev :: rest)
  | unparsed {right prev : Spot} {rest : List Spot} (hnone : prev.invariants = none) :
      Unseen w right (prev :: rest)
  | edges {right prev : Spot} {rest : List Spot} {invariants : SegmentParseInvariants}
      (hinv : prev.invariants = some invariants) (hactive : w ∈ invariants.workerIds)
      (hnone : prev.edgePolls = none) : Unseen w right (prev :: rest)
  | silent {right prev : Spot} {rest : List Spot} {invariants : SegmentParseInvariants}
      (hinv : prev.invariants = some invariants) (hsilent : w ∉ invariants.workerIds)
      (hrest : Unseen w prev rest) : Unseen w right (prev :: rest)

/-- The stretch is of a poll that a segment sees the end of, and whose start is unseen. -/
def StartUnseen (w : Nat) (segs : List Seg) (endTs : Int) : Prop :=
  ∃ (passed : List Seg) (seg : Seg) (rest : List Seg) (close : SegmentEdgeDanglingClose),
    segs = passed.reverse ++ seg :: rest ∧
    closeAt w seg.1 = some close ∧ endTs ≤ close.endTs ∧ Unseen w seg.1 (passed.map Prod.fst)

/-- What holds of everything that is emitted for a worker. -/
def EmittedOk (w : Nat) (segs : List Seg) : Emitted → Prop
  | .stretch s (some opened) =>
    s.start ≤ s.endTs ∧ ¬(s.openObserved = true ∧ s.closeObserved = true) ∧
      Opened w (history w segs) opened s.start s.endTs
  | .stretch s none =>
    s.start ≤ s.endTs ∧ ¬(s.openObserved = true ∧ s.closeObserved = true) ∧
      Clear (history w segs) s.start s.endTs ∧ StartUnseen w segs s.endTs
  | .stitched opened endTs => Stitched w (history w segs) opened endTs

/-! ## A carry -/

/-- A carry is of a poll that nothing in the passed segments has ended. -/
structure CarryOk (w : Nat) (passed rest : List Seg) (carry : Carry) : Prop where
  opened : ∃ pre e mid, history w passed.reverse = pre ++ e :: mid ∧ e.eventType = .pollStart ∧
    carry.opened = toOpenPoll w e ∧ ∀ e' ∈ mid, busy e' = false
  floor : Floor carry.opened.start rest
  stretches : ∀ s ∈ carry.stretches, carry.opened.start ≤ s.start ∧ s.start ≤ s.endTs ∧
    s.closeObserved = false ∧ Floor s.endTs rest
  sorted : carry.stretches.Pairwise fun newer older => older.endTs ≤ newer.start
  fresh : carry.live = true → carry.stitchable = false →
    ∀ s ∈ carry.stretches.head?, s.openObserved = false

theorem CarryOk.emit {carry : Carry} (h : CarryOk w passed rest carry)
    (hsplit : Split segs passed rest) :
    (∀ e ∈ carry.emit, EmittedOk w segs e ∧ carry.opened.start ≤ e.start ∧ Floor e.endTs rest) ∧
      carry.emit.Pairwise fun a b => a.endTs ≤ b.start := by
  constructor
  · intro e he
    rcases List.mem_map.mp he with ⟨s, hs, rfl⟩
    rcases h.stretches s (List.mem_reverse.mp hs) with ⟨hstart, hspan, hclose, hfloor⟩
    refine ⟨⟨hspan, ?_, ?_⟩, hstart, hfloor⟩
    · rintro ⟨-, hboth⟩
      cases hclose.symm.trans hboth
    · rcases h.opened with ⟨pre, e, mid, hhistory, hpoll, hopened, hidle⟩
      refine ⟨pre, e, mid, history w rest, ?_, hpoll, hopened, hidle, ?_,
        fun e' he' => hfloor.event he'⟩
      · rw [hsplit.eq, history_append, hhistory, List.append_assoc, List.cons_append]
      · rw [hopened] at hstart
        exact hstart
  · exact List.pairwise_map.mpr (List.pairwise_reverse.mpr h.sorted)

/-! ## A close without a carry -/

/-- The passed segments that are reached leftward over adjacent silent ones. -/
def reach (w : Nat) : Spot → List Seg → List Seg
  | _, [] => []
  | right, prev :: rest =>
    if adjacent prev.1 right ∧ prev.1.invariants.isSome ∧ prev.events w = [] then
      prev :: reach w prev.1 rest
    else []

/-- The stretches of a walk to the left, leftmost first, with what is still to its left. -/
structure LeftOk (passed : List Seg) (endTs : Int) (stretches : List Stretch) : Prop where
  spans : ∀ s ∈ stretches, s.start ≤ s.endTs ∧ s.endTs ≤ endTs ∧ s.openObserved = false
  bound : ∀ s ∈ stretches, ∀ seg ∈ passed, ∀ hi, seg.2.maxTs = some hi → hi ≤ s.start
  sorted : stretches.Pairwise fun a b => a.endTs ≤ b.start

variable {endTs : Int}

theorem LeftOk.of_cons (h : LeftOk (seg :: passed) endTs stretches) :
    LeftOk passed endTs stretches where
  spans := h.spans
  bound s hs p hp := h.bound s hs p (List.mem_cons_of_mem _ hp)
  sorted := h.sorted

/-- The passed segments in order of time, up to a bound. -/
structure PassedOk (passed : List Seg) (endTs : Int) : Prop where
  sourced : ∀ seg ∈ passed, Sourced seg
  order : passed.Pairwise fun b a => Before a.2 b.2
  bound : ∀ seg ∈ passed, ∀ hi, seg.2.maxTs = some hi → hi ≤ endTs

theorem PassedOk.of_cons (h : PassedOk (seg :: passed) endTs) : PassedOk passed endTs where
  sourced s hs := h.sourced s (List.mem_cons_of_mem _ hs)
  order := (List.pairwise_cons.mp h.order).2
  bound s hs := h.bound s (List.mem_cons_of_mem _ hs)

/-- What a walk to the left finds. -/
structure LeftFound (w : Nat) (right : Spot) (passed : List Seg) (endTs : Int)
    (before : List Stretch) (found : LeftStop × List Stretch) : Prop where
  spans : ∀ s ∈ found.2, s.start ≤ s.endTs ∧ s.endTs ≤ endTs ∧ s.openObserved = false
  after : ∀ s ∈ found.2, ∀ e ∈ history w passed, e.timestamp ≤ s.start
  sorted : found.2.Pairwise fun a b => a.endTs ≤ b.start
  floor : ∀ t, (∀ s ∈ before, t ≤ s.start) → Floor t (reach w right passed) →
    ∀ s ∈ found.2, t ≤ s.start
  unseen : (∀ stopper, found.1 = .active stopper → stopper.edgePolls = none) →
    found.1 ≠ .listingStart → Unseen w right (passed.map Prod.fst)

variable {right : Spot}

theorem LeftOk.stop {stop : LeftStop} (h : LeftOk passed endTs stretches)
    (hunseen : (∀ stopper, stop = .active stopper → stopper.edgePolls = none) →
      stop ≠ .listingStart → Unseen w right (passed.map Prod.fst)) :
    LeftFound w right passed endTs stretches (stop, stretches) where
  spans := h.spans
  after s hs e he := by
    rcases mem_history.mp he with ⟨seg, hseg, he⟩
    rcases events_bounded he with ⟨_, hi, _, hhi, _, hle⟩
    exact hle.trans (h.bound s hs seg hseg hi hhi)
  sorted := h.sorted
  floor _ hbefore _ := hbefore
  unseen := hunseen

theorem walkLeft_found {live : Bool}
    (hpassed : PassedOk passed endTs) (hok : LeftOk passed endTs stretches) :
    LeftFound w right passed endTs stretches
      (walkLeft w right (passed.map Prod.fst) stretches live) := by
  induction passed generalizing right stretches live with
  | nil => exact hok.stop fun _ hne => absurd rfl hne
  | cons prev older ih =>
    rw [List.map_cons, walkLeft]
    have hsource := hpassed.sourced prev List.mem_cons_self
    cases hadjacent : adjacent prev.1 right with
    | false =>
      rw [if_neg nofun]
      exact hok.stop fun _ _ => .gap hadjacent
    | true =>
      rw [if_pos rfl]
      cases hinv : prev.1.invariants with
      | none => exact hok.stop fun _ _ => .unparsed hinv
      | some invariants =>
        dsimp only
        by_cases hactive : w ∈ invariants.workerIds
        · rw [if_pos hactive]
          exact hok.stop fun hedges _ => .edges hinv hactive (hedges _ rfl)
        · rw [if_neg hactive]
          have hsilent := (hsource.silent_iff hinv).mp hactive
          have hreach : reach w right (prev :: older) = prev :: reach w prev.1 older := by
            rw [reach, if_pos ⟨hadjacent, by rw [hinv]; rfl, hsilent⟩]
          -- Whatever the segment adds, the walk goes on to its left.
          have hgo : ∀ {more : List Stretch} {live : Bool}, LeftOk older endTs more →
              (∀ t, (∀ s ∈ stretches, t ≤ s.start) → Floor t [prev] → ∀ s ∈ more, t ≤ s.start) →
                LeftFound w right (prev :: older) endTs stretches
                  (walkLeft w prev.1 (older.map Prod.fst) more live) := by
            intro more live hmore hfloor
            have hfound : LeftFound w prev.1 older endTs more
              (walkLeft w prev.1 (older.map Prod.fst) more live) := ih hpassed.of_cons hmore
            exact {
              spans := hfound.spans
              after := by
                intro s hs
                rw [history_cons, hsilent, List.nil_append]
                exact hfound.after s hs
              sorted := hfound.sorted
              floor := by
                intro t hbefore hfar
                rw [hreach] at hfar
                apply hfound.floor t _ hfar.of_cons
                apply hfloor t hbefore
                rintro _ (⟨⟩ | ⟨_, ⟨⟩⟩)
                exact hfar prev List.mem_cons_self
              unseen := fun hedges hne => .silent hinv hactive (hfound.unseen hedges hne) }
          have holder : ∀ {lo : Int}, prev.2.minTs = some lo →
              ∀ seg ∈ older, ∀ hi, seg.2.maxTs = some hi → hi ≤ lo := fun hlo seg hseg hi hhi =>
            (List.pairwise_cons.mp hpassed.order).1 seg hseg hi _ hhi hlo
          split
          · obtain rfl := hsource.invariants hinv
            dsimp only [segmentInvariants]
            split
            · rename_i lo hi hlo hhi
              have hle := prev.2.ordered lo hi hlo hhi
              split
              · rename_i last others
                rcases List.pairwise_cons.mp hok.sorted with ⟨hlast, hothers⟩
                have hspan := hok.spans last List.mem_cons_self
                have hmin : min last.start lo = lo :=
                  min_eq_right (hle.trans
                    (hok.bound last List.mem_cons_self prev List.mem_cons_self hi hhi))
                apply hgo
                · exact {
                    spans := by
                      intro s hs
                      rcases List.mem_cons.mp hs with rfl | hs
                      · exact ⟨(min_le_left _ _).trans hspan.1, hspan.2⟩
                      · exact hok.spans s (List.mem_cons_of_mem _ hs)
                    bound := by
                      intro s hs seg hseg hi' hhi'
                      rcases List.mem_cons.mp hs with rfl | hs
                      · dsimp only
                        rw [hmin]
                        exact holder hlo seg hseg hi' hhi'
                      · exact hok.bound s (List.mem_cons_of_mem _ hs) seg
                          (List.mem_cons_of_mem _ hseg) hi' hhi'
                    sorted := List.pairwise_cons.mpr ⟨hlast, hothers⟩ }
                · intro t hbefore hfar s hs
                  rcases List.mem_cons.mp hs with rfl | hs
                  · exact le_min (hbefore last List.mem_cons_self)
                      (hfar prev List.mem_cons_self lo hlo)
                  · exact hbefore s (List.mem_cons_of_mem _ hs)
              · apply hgo
                · exact {
                    spans := by
                      intro s hs
                      rcases List.mem_cons.mp hs with rfl | hs
                      · exact ⟨hle, hpassed.bound prev List.mem_cons_self hi hhi, rfl⟩
                      · exact hok.spans s hs
                    bound := by
                      intro s hs seg hseg hi' hhi'
                      rcases List.mem_cons.mp hs with rfl | hs
                      · exact holder hlo seg hseg hi' hhi'
                      · exact hok.bound s hs seg (List.mem_cons_of_mem _ hseg) hi' hhi'
                    sorted := by
                      refine List.pairwise_cons.mpr ⟨fun s hs => ?_, hok.sorted⟩
                      exact hok.bound s hs prev List.mem_cons_self hi hhi }
                · intro t hbefore hfar s hs
                  rcases List.mem_cons.mp hs with rfl | hs
                  · exact hfar prev List.mem_cons_self lo hlo
                  · exact hbefore s hs
            · exact hgo hok.of_cons fun _ hbefore _ => hbefore
          · exact hgo hok.of_cons fun _ hbefore _ => hbefore

theorem Split.passedOk (h : Split segs passed (seg :: rest))
    (hlate : ∀ lo, seg.2.minTs = some lo → lo ≤ endTs) (hsome : seg.2.minTs.isSome = true) :
    PassedOk passed endTs where
  sourced p hp := h.sourced p (h.eq ▸ List.mem_append_left _ (List.mem_reverse.mpr hp))
  order := by
    have horder := h.order
    rw [h.eq] at horder
    exact List.pairwise_reverse.mp (List.pairwise_append.mp horder).1
  bound p hp hi hhi := by
    obtain ⟨lo, hlo⟩ := Option.isSome_iff_exists.mp hsome
    exact (h.before hp List.mem_cons_self hi lo hhi hlo).trans (hlate lo hlo)

theorem mem_history_reverse : e ∈ history w passed.reverse ↔ e ∈ history w passed := by
  simp only [mem_history, List.mem_reverse]

variable {others : List TraceEvent}

variable {first : TraceEvent}

theorem LeftFound.emit (hsplit : Split segs passed (seg :: rest))
    (hevents : seg.events w = first :: others)
    (hclose : closeAt w seg.1 = some ⟨w, first.timestamp⟩) {before : List Stretch}
    {found : LeftStop × List Stretch}
    (hfound : LeftFound w seg.1 passed first.timestamp before found)
    (hbefore : ∀ t, Floor t [seg] → ∀ s ∈ before, t ≤ s.start)
    (hunseen : Unseen w seg.1 (passed.map Prod.fst)) :
    (∀ e ∈ emitStretches found.2 none, EmittedOk w segs e ∧ e.endTs ≤ first.timestamp ∧
      ∀ t, Floor t [seg] → Floor t (reach w seg.1 passed) → t ≤ e.start) ∧
      (emitStretches found.2 none).Pairwise fun a b => a.endTs ≤ b.start := by
  constructor
  · intro e he
    rcases List.mem_map.mp he with ⟨s, hs, rfl⟩
    rcases hfound.spans s hs with ⟨hspan, hend, hopen⟩
    have hmem : first ∈ seg.events w := hevents ▸ List.mem_cons_self
    refine ⟨⟨hspan, ?_, ?_, passed, seg, rest, _, hsplit.eq, hclose, hend, hunseen⟩, hend, ?_⟩
    · rintro ⟨hboth, -⟩
      cases hopen.symm.trans hboth
    · intro e he _
      rw [hsplit.eq, history_append, history_cons, List.mem_append, mem_history_reverse,
        List.mem_append] at he
      rcases he with he | he | he
      · exact .inl (hfound.after s hs e he)
      · right
        have hsorted := events_sorted seg w
        rw [hevents] at hsorted he
        rcases List.mem_cons.mp he with rfl | he
        · exact hend
        · exact hend.trans ((List.pairwise_cons.mp hsorted).1 e he)
      · exact .inr (hend.trans ((hsplit.floor hmem).event he))
    · intro t hseg hreach
      exact hfound.floor t (hbefore t hseg) hreach s hs
  · exact List.pairwise_map.mpr hfound.sorted

theorem resolveDanglingClose_ok (hsplit : Split segs passed (seg :: rest))
    {close : SegmentEdgeDanglingClose} (hclose : closeAt w seg.1 = some close) :
    (∀ e ∈ resolveDanglingClose w seg.1 (passed.map Prod.fst) close,
      EmittedOk w segs e ∧ e.endTs ≤ close.endTs ∧
        ∀ t, Floor t [seg] → Floor t (reach w seg.1 passed) → t ≤ e.start) ∧
      (resolveDanglingClose w seg.1 (passed.map Prod.fst) close).Pairwise
        fun a b => a.endTs ≤ b.start := by
  rcases hsplit.head.closeAt_some hclose with ⟨-, first, others, hevents, -, rfl⟩
  rcases events_bounded (hevents ▸ List.mem_cons_self : first ∈ seg.events w) with
    ⟨lo, hi, hlo, hhi, hle, -⟩
  have hlate : ∀ lo', seg.2.minTs = some lo' → lo' ≤ first.timestamp := by
    intro lo' hlo'
    obtain rfl : lo = lo' := Option.some.inj (hlo.symm.trans hlo')
    exact hle
  have hpassed := hsplit.passedOk hlate (by rw [hlo]; rfl)
  obtain ⟨stretches, hstretches⟩ : ∃ stretches, stretches = closeStretches seg.1 first.timestamp :=
    ⟨_, rfl⟩
  have hcases : stretches = [] ∨ stretches = [⟨lo, first.timestamp, false, true⟩] := by
    rw [hstretches, closeStretches]
    split
    · right
      rename_i invariants _ hinv
      rw [closeStretch, hsplit.head.invariants hinv, segmentInvariants]
      dsimp only
      rw [hlo, Option.getD_some, min_eq_left hle]
    · exact .inl rfl
  have hone : ∀ s ∈ stretches, s = ⟨lo, first.timestamp, false, true⟩ := by
    rcases hcases with rfl | rfl
    · nofun
    · exact fun s hs => List.mem_singleton.mp hs
  have hok : LeftOk passed first.timestamp stretches := {
    spans := by
      intro s hs
      rw [hone s hs]
      exact ⟨hle, le_rfl, rfl⟩
    bound := by
      intro s hs p hp hi' hhi'
      rw [hone s hs]
      exact hsplit.before hp List.mem_cons_self hi' lo hhi' hlo
    sorted := by
      rcases hcases with rfl | rfl
      · exact .nil
      · exact List.pairwise_singleton _ _ }
  have hbefore : ∀ t, Floor t [seg] → ∀ s ∈ stretches, t ≤ s.start := by
    intro t hseg s hs
    rw [hone s hs]
    exact hseg seg List.mem_cons_self lo hlo
  obtain ⟨found, hwalk⟩ : ∃ found, walkLeft w seg.1 (passed.map Prod.fst) stretches seg.1.resident =
    found := ⟨_, rfl⟩
  have hfound : LeftFound w seg.1 passed first.timestamp stretches found :=
    hwalk ▸ walkLeft_found hpassed hok
  rw [resolveDanglingClose, ← hstretches, hwalk]
  split
  · exact ⟨fun _ he => absurd he List.not_mem_nil, .nil⟩
  · rename_i stopper more
    split
    · exact ⟨fun _ he => absurd he List.not_mem_nil, .nil⟩
    · rename_i hnone
      apply hfound.emit hsplit hevents hclose hbefore
      apply hfound.unseen _ nofun
      rintro _ ⟨⟩
      exact Option.not_isSome_iff_eq_none.mp hnone
  · rename_i stop more hstart hactive
    apply hfound.emit hsplit hevents hclose hbefore
    exact hfound.unseen (fun stopper hstop => absurd hstop (hactive stopper)) hstart

/-! ## The steps of a carry -/

theorem history_passed (w : Nat) (seg : Seg) (passed : List Seg) :
    history w (seg :: passed).reverse = history w passed.reverse ++ seg.events w := by
  rw [List.reverse_cons, history_append, history_cons]
  exact congrArg _ (List.append_nil _)

theorem startCarry_ok (hsplit : Split segs passed (seg :: rest))
    (hopen : openAt w seg.1 = some opened) :
    CarryOk w (seg :: passed) rest (startCarry seg.1 opened) ∧
      (startCarry seg.1 opened).opened = opened := by
  rcases hsplit.head.openAt_some hopen with ⟨-, pre, e, mid, hevents, hstart, hidle, rfl⟩
  have hmem : e ∈ seg.events w := by
    rw [hevents]
    exact List.mem_append_right _ List.mem_cons_self
  rcases events_bounded hmem with ⟨lo, hi, -, hhi, -, hle⟩
  have hfloor : Floor (toOpenPoll w e).start rest := hsplit.floor hmem
  have hhistory : ∃ pre' e' mid', history w (seg :: passed).reverse = pre' ++ e' :: mid' ∧
      e'.eventType = .pollStart ∧ toOpenPoll w e = toOpenPoll w e' ∧ ∀ x ∈ mid',
        busy x = false := by
    refine ⟨history w passed.reverse ++ pre, e, mid, ?_, hstart, rfl, hidle⟩
    rw [history_passed, hevents, List.append_assoc]
  rw [startCarry]
  split
  · rename_i invariants _ hinv
    refine ⟨?_, rfl⟩
    exact {
      opened := hhistory
      floor := hfloor
      stretches := by
        intro s hs
        rw [List.mem_singleton.mp hs, hsplit.head.invariants hinv, segmentInvariants]
        dsimp only
        rw [hhi, Option.getD_some]
        refine ⟨le_rfl, le_max_right _ _, rfl, ?_⟩
        intro r hr lo' hlo'
        exact max_le (hsplit.before_rest hr hi lo' hhi hlo') (hfloor r hr lo' hlo')
      sorted := List.pairwise_singleton _ _
      fresh := nofun }
  · refine ⟨?_, rfl⟩
    exact {
      opened := hhistory
      floor := hfloor
      stretches := fun _ hs => absurd hs List.not_mem_nil
      sorted := .nil
      fresh := nofun }

section

variable (h : CarryOk w passed (seg :: rest) carry) (hsplit : Split segs passed (seg :: rest))
  (hinv : seg.1.invariants = some invariants)
include h hsplit hinv

theorem CarryOk.extend (hsilent : seg.events w = []) :
    CarryOk w (seg :: passed) rest (carry.extend seg.1 invariants) ∧
      (carry.extend seg.1 invariants).opened = carry.opened := by
  have hhistory : ∃ pre e mid, history w (seg :: passed).reverse = pre ++ e :: mid ∧
      e.eventType = .pollStart ∧ carry.opened = toOpenPoll w e ∧ ∀ e' ∈ mid, busy e' = false := by
    rw [history_passed, hsilent, List.append_nil]
    exact h.opened
  have hstretches : ∀ s ∈ carry.stretches, carry.opened.start ≤ s.start ∧ s.start ≤ s.endTs ∧
      s.closeObserved = false ∧ Floor s.endTs rest := by
    intro s hs
    rcases h.stretches s hs with ⟨hstart, hspan, hclose, hfloor⟩
    exact ⟨hstart, hspan, hclose, hfloor.of_cons⟩
  obtain rfl := hsplit.head.invariants hinv
  rw [Carry.extend]
  dsimp only [segmentInvariants]
  split
  case isFalse =>
    refine ⟨?_, rfl⟩
    exact {
      opened := hhistory
      floor := h.floor.of_cons
      stretches := hstretches
      sorted := h.sorted
      fresh := nofun }
  case isTrue hresident =>
    split
    case h_1 lo hi hlo hhi =>
      have hbound : Floor hi rest := fun r hr lo' hlo' => hsplit.before_rest hr hi lo' hhi hlo'
      split
      case h_1 last older hlive hlast =>
        refine ⟨?_, rfl⟩
        rcases h.stretches last (hlast ▸ List.mem_cons_self) with ⟨hstart, hspan, hclose, hfloor⟩
        have hsorted := h.sorted
        rw [hlast] at hsorted
        exact {
          opened := hhistory
          floor := h.floor.of_cons
          stretches := by
            intro s hs
            rcases List.mem_cons.mp hs with rfl | hs
            · refine ⟨hstart, hspan.trans (le_max_left _ _), hclose, ?_⟩
              intro r hr lo' hlo'
              exact max_le (hfloor.of_cons r hr lo' hlo') (hbound r hr lo' hlo')
            · exact hstretches s (hlast ▸ List.mem_cons_of_mem _ hs)
          sorted := List.pairwise_cons.mpr (List.pairwise_cons.mp hsorted)
          fresh := by
            rintro - hstitch _ ⟨⟩
            have hstitch' : carry.stitchable = false := by
              rwa [hresident, Bool.and_true] at hstitch
            exact h.fresh hlive hstitch' last (by rw [hlast]; rfl) }
      case h_2 =>
        refine ⟨?_, rfl⟩
        exact {
          opened := hhistory
          floor := h.floor.of_cons
          stretches := by
            intro s hs
            rcases List.mem_cons.mp hs with rfl | hs
            · exact ⟨h.floor seg List.mem_cons_self lo hlo, seg.2.ordered lo hi hlo hhi, rfl,
                hbound⟩
            · exact hstretches s hs
          sorted := by
            refine List.pairwise_cons.mpr ⟨fun s hs => ?_, h.sorted⟩
            exact (h.stretches s hs).2.2.2 seg List.mem_cons_self lo hlo
          fresh := by
            rintro - - _ ⟨⟩
            rfl }
    case h_2 =>
      refine ⟨?_, rfl⟩
      exact {
        opened := hhistory
        floor := h.floor.of_cons
        stretches := hstretches
        sorted := h.sorted
        fresh := by
          intro hlive hstitch
          rw [hresident, Bool.and_true] at hstitch
          exact h.fresh hlive hstitch }

/-- Where the close is resident, the poll is stitched, or its last stretch ends there. -/
theorem CarryOk.close (hevents : seg.events w = first :: others)
    (hend : first.eventType = .pollEnd) :
    (∀ e ∈ carry.close invariants first.timestamp, EmittedOk w segs e ∧
      carry.opened.start ≤ e.start ∧ e.endTs ≤ first.timestamp) ∧
      (carry.close invariants first.timestamp).Pairwise fun a b => a.endTs ≤ b.start := by
  have hmem : first ∈ seg.events w := hevents ▸ List.mem_cons_self
  rcases events_bounded hmem with ⟨lo, hi, hlo, hhi, hle, -⟩
  rcases h.opened with ⟨pre, e, mid, hhistory, hpoll, hopened, hidle⟩
  have hfull : history w segs = pre ++ e :: (mid ++ first :: (others ++ history w rest)) := by
    rw [hsplit.eq, history_append, hhistory, history_cons, hevents, List.append_assoc,
      List.cons_append, List.cons_append]
  have hlate : ∀ e' ∈ first :: (others ++ history w rest), first.timestamp ≤ e'.timestamp := by
    intro e' he'
    rcases List.mem_cons.mp he' with rfl | he'
    · exact le_rfl
    · rcases List.mem_append.mp he' with he' | he'
      · have hsorted := events_sorted seg w
        rw [hevents] at hsorted
        exact (List.pairwise_cons.mp hsorted).1 e' he'
      · exact (hsplit.floor hmem).event he'
  have hearly : ∀ s ∈ carry.stretches, s.endTs ≤ lo := fun s hs =>
    (h.stretches s hs).2.2.2 seg List.mem_cons_self lo hlo
  -- The stretches of the poll, with the one that the close ends.
  have hemit : ∀ (last : Stretch) (older : List Stretch), (∀ s ∈ older, s ∈ carry.stretches) →
      (∀ s ∈ older, s.endTs ≤ last.start) →
        older.Pairwise (fun newer older => older.endTs ≤ newer.start) → last.openObserved = false →
          carry.opened.start ≤ last.start → last.start ≤ last.endTs → last.endTs = first.timestamp →
            (∀ e ∈ emitStretches (last :: older).reverse (some carry.opened), EmittedOk w segs e ∧
              carry.opened.start ≤ e.start ∧ e.endTs ≤ first.timestamp) ∧
              (emitStretches (last :: older).reverse (some carry.opened)).Pairwise
                fun a b => a.endTs ≤ b.start := by
    intro last older hold hbelow hsorted hopen hstart hspan hlast
    have hall : ∀ s ∈ last :: older, carry.opened.start ≤ s.start ∧ s.start ≤ s.endTs ∧
        ¬(s.openObserved = true ∧ s.closeObserved = true) ∧ s.endTs ≤ first.timestamp := by
      intro s hs
      rcases List.mem_cons.mp hs with rfl | hs
      · refine ⟨hstart, hspan, ?_, hlast.le⟩
        rintro ⟨hboth, -⟩
        cases hopen.symm.trans hboth
      · rcases h.stretches s (hold s hs) with ⟨hstart', hspan', hclose, -⟩
        refine ⟨hstart', hspan', ?_, (hearly s (hold s hs)).trans hle⟩
        rintro ⟨-, hboth⟩
        cases hclose.symm.trans hboth
    constructor
    · intro e' he'
      rcases List.mem_map.mp he' with ⟨s, hs, rfl⟩
      rcases hall s (List.mem_reverse.mp hs) with ⟨hstart', hspan', hflags, hend'⟩
      refine ⟨⟨hspan', hflags, pre, e, mid, _, hfull, hpoll, hopened, hidle, ?_, ?_⟩, hstart',
        hend'⟩
      · rw [hopened] at hstart'
        exact hstart'
      · exact fun e' he' => hend'.trans (hlate e' he')
    · exact List.pairwise_map.mpr
        (List.pairwise_reverse.mpr (List.pairwise_cons.mpr ⟨hbelow, hsorted⟩))
  rw [Carry.close]
  split
  case isTrue =>
    refine ⟨?_, List.pairwise_singleton _ _⟩
    intro e' he'
    obtain rfl := List.mem_singleton.mp he'
    exact ⟨⟨pre, e, mid, first, _, hfull, hpoll, hopened, hidle, hend, rfl⟩, le_rfl, le_rfl⟩
  case isFalse hstitch =>
    split
    case h_1 last older hlive hlast =>
      have hmem' : last ∈ carry.stretches := hlast ▸ List.mem_cons_self
      have hsorted := h.sorted
      rw [hlast] at hsorted
      rcases List.pairwise_cons.mp hsorted with ⟨hbelow, hsorted⟩
      rcases h.stretches last hmem' with ⟨hstart, hspan, -, -⟩
      have hfresh := h.fresh hlive (Bool.eq_false_of_not_eq_true hstitch) last (by rw [hlast]; rfl)
      have hmax : max last.endTs first.timestamp = first.timestamp :=
        max_eq_right ((hearly last hmem').trans hle)
      have hkept : ∀ s ∈ older, s ∈ carry.stretches := fun s hs => hlast ▸ List.mem_cons_of_mem _ hs
      exact hemit { last with endTs := max last.endTs first.timestamp, closeObserved := true } older
        hkept hbelow hsorted hfresh hstart (hspan.trans (le_max_left _ _)) hmax
    case h_2 =>
      have hstretch :
          closeStretch invariants first.timestamp = ⟨lo, first.timestamp, false, true⟩ := by
        rw [closeStretch, hsplit.head.invariants hinv, segmentInvariants]
        dsimp only
        rw [hlo, Option.getD_some, min_eq_left hle]
      rw [hstretch]
      exact hemit _ carry.stretches (fun _ hs => hs) hearly h.sorted rfl
        (h.floor seg List.mem_cons_self lo hlo) hle rfl

end

theorem reach_eq_nil
    (h : (passed.map Prod.fst).head?.any (fun prev => adjacent prev right) = false) :
    reach w right passed = [] := by
  cases passed with
  | nil => rfl
  | cons prev older =>
    rw [List.map_cons, List.head?_cons, Option.any_some] at h
    rw [reach, if_neg]
    rintro ⟨hadjacent, -⟩
    rw [h] at hadjacent
    cases hadjacent

theorem Sourced.le_openAt (hseg : Sourced seg) (hopen : Boundary.openAt w seg.1 = some opened)
    (ht : ∀ e ∈ seg.events w, t ≤ e.timestamp) :
    t ≤ opened.start := by
  rcases hseg.openAt_some hopen with ⟨-, pre, e, mid, hevents, -, -, rfl⟩
  exact ht e (hevents ▸ List.mem_append_right _ List.mem_cons_self)

theorem Floor.events (h : Floor t (seg :: rest)) : ∀ e ∈ seg.events w, t ≤ e.timestamp :=
  fun _ he => h.event (mem_history.mpr ⟨seg, List.mem_cons_self, he⟩)

/-- What is at or before everything that can still be emitted. -/
structure Ahead (w : Nat) (t : Int) (passed : List Seg) (carry : Option Carry) (rest : List Seg) :
    Prop where
  rest : Floor t rest
  opened : ∀ c, carry = some c → t ≤ c.opened.start
  reach : carry = none → ∀ right, Floor t (reach w right passed)

/-- At or before the worker's events in a segment and all that follows. -/
structure UpTo (w : Nat) (t : Int) (seg : Seg) (rest : List Seg) : Prop where
  events : ∀ e ∈ seg.events w, t ≤ e.timestamp
  rest : Floor t rest
  silent : seg.events w = [] → Floor t [seg]

theorem Floor.upTo (h : Floor t (seg :: rest)) : UpTo w t seg rest where
  events := h.events
  rest := h.of_cons
  silent _ := fun s hs => h s (List.mem_cons.mpr (.inl (List.mem_singleton.mp hs)))

theorem UpTo.trans {t u : Int} (h : UpTo w u seg rest) (hle : t ≤ u) : UpTo w t seg rest where
  events e he := hle.trans (h.events e he)
  rest s hs lo hlo := hle.trans (h.rest s hs lo hlo)
  silent hnil s hs lo hlo := hle.trans (h.silent hnil s hs lo hlo)

theorem startCarry_opened (spot : Spot) (opened : SegmentEdgeOpenPoll) :
    (startCarry spot opened).opened = opened := by
  rw [startCarry]
  split <;> rfl

theorem UpTo.ahead (h : UpTo w t seg rest) (hsource : Sourced seg)
    (hreach : seg.1.invariants.isSome = true → seg.events w = [] →
      ∀ p ∈ Boundary.reach w seg.1 passed, Floor t [p]) :
    Ahead w t (seg :: passed) ((openAt w seg.1).map (startCarry seg.1)) rest where
  rest := h.rest
  opened := by
    intro c hc
    rcases Option.map_eq_some_iff.mp hc with ⟨opened, hopen, rfl⟩
    rw [startCarry_opened]
    exact hsource.le_openAt hopen h.events
  reach := by
    intro _ right p hp
    rw [reach] at hp
    split at hp
    case isTrue hsilent =>
      rcases List.mem_cons.mp hp with rfl | hp
      · exact h.silent hsilent.2.2 p (List.mem_singleton.mpr rfl)
      · exact hreach hsilent.2.1 hsilent.2.2 p hp p (List.mem_singleton.mpr rfl)
    case isFalse => cases hp

theorem Split.upTo (h : Split segs passed (seg :: rest)) (hfirst : seg.events w = first :: others) :
    UpTo w first.timestamp seg rest where
  events := by
    intro e he
    have horder := events_sorted seg w
    rw [hfirst] at he horder
    rcases List.mem_cons.mp he with rfl | he
    · exact le_rfl
    · exact (List.pairwise_cons.mp horder).1 e he
  rest := h.floor (hfirst ▸ List.mem_cons_self)
  silent hnil := by
    rw [hfirst] at hnil
    cases hnil

/-- A carry at a segment. -/
structure Advanced (w : Nat) (segs passed : List Seg) (seg : Seg) (rest : List Seg) (carry : Carry)
    (next : List Emitted × Option Carry × Bool) : Prop where
  emitted : ∀ e ∈ next.1, EmittedOk w segs e ∧ carry.opened.start ≤ e.start ∧
    UpTo w e.endTs seg rest
  sorted : next.1.Pairwise fun a b => a.endTs ≤ b.start
  goes : ∀ carry', next.2.1 = some carry' →
    CarryOk w (seg :: passed) rest carry' ∧ carry'.opened = carry.opened ∧ next.1 = []
  stops : next.2.1 = none → seg.1.invariants.isSome = true → seg.events w = [] →
    reach w seg.1 passed = []
  dangles : next.2.1 = none → next.2.2 = false → ∀ close, closeAt w seg.1 = some close →
    reach w seg.1 passed = [] ∧ ∀ e ∈ next.1, Floor e.endTs [seg]

section

variable (h : CarryOk w passed (seg :: rest) carry) (hsplit : Split segs passed (seg :: rest))
include h hsplit

theorem CarryOk.cut {consumed : Bool}
    (hstops : seg.1.invariants.isSome = true → seg.events w = [] → reach w seg.1 passed = [])
    (hdangles : consumed = false → ∀ close, closeAt w seg.1 = some close →
      reach w seg.1 passed = []) :
    Advanced w segs passed seg rest carry (carry.emit, none, consumed) := by
  rcases h.emit hsplit with ⟨hall, hsorted⟩
  exact {
    emitted := by
      intro e he
      rcases hall e he with ⟨hok, hstart, hfloor⟩
      exact ⟨hok, hstart, hfloor.upTo⟩
    sorted := hsorted
    goes := nofun
    stops := fun _ => hstops
    dangles := by
      intro _ hconsumed close hclose
      refine ⟨hdangles hconsumed close hclose, fun e he p hp => ?_⟩
      rw [List.mem_singleton.mp hp]
      exact (hall e he).2.2 seg List.mem_cons_self }

theorem CarryOk.advance :
    Advanced w segs passed seg rest carry
      (carry.advance w (passed.map Prod.fst).head? seg.1) := by
  rw [Carry.advance]
  split
  case isFalse hgap =>
    have hreach := reach_eq_nil (w := w) (Bool.eq_false_of_not_eq_true hgap)
    exact h.cut hsplit (fun _ _ => hreach) fun _ _ _ => hreach
  case isTrue =>
    split
    case h_1 hinv =>
      apply h.cut hsplit
      · intro hsome
        rw [hinv] at hsome
        cases hsome
      · intro _ close hclose
        have hsome := hsplit.head.together (hsplit.head.closeAt_some hclose).1
        rw [hinv] at hsome
        cases hsome
    case h_2 invariants hinv =>
      by_cases hactive : w ∈ invariants.workerIds
      · have hevents : seg.events w ≠ [] := fun hnil =>
          (hsplit.head.silent_iff hinv).mpr hnil hactive
        rw [if_pos hactive]
        split
        case isFalse hedges =>
          apply h.cut hsplit (fun _ hnil => absurd hnil hevents)
          intro _ close hclose
          exact absurd (hsplit.head.closeAt_some hclose).1 hedges
        case isTrue =>
          split
          case h_1 hclose =>
            exact {
              emitted := fun _ he => absurd he List.not_mem_nil
              sorted := .nil
              goes := nofun
              stops := fun _ _ hnil => absurd hnil hevents
              dangles := by
                intro _ _ close hclose'
                rw [hclose] at hclose'
                cases hclose' }
          case h_2 close hclose =>
            split
            case isFalse => exact h.cut hsplit (fun _ hnil => absurd hnil hevents) nofun
            case isTrue =>
              rcases hsplit.head.closeAt_some hclose with ⟨-, first, others, hfirst, hend, rfl⟩
              rcases h.close hsplit hinv hfirst hend with ⟨hall, hsorted⟩
              exact {
                emitted := by
                  intro e he
                  rcases hall e he with ⟨hok, hstart, hle⟩
                  exact ⟨hok, hstart, (hsplit.upTo hfirst).trans hle⟩
                sorted := hsorted
                goes := nofun
                stops := fun _ _ hnil => absurd hnil hevents
                dangles := nofun }
      · have hsilent := (hsplit.head.silent_iff hinv).mp hactive
        rw [if_neg hactive]
        exact {
          emitted := fun _ he => absurd he List.not_mem_nil
          sorted := .nil
          goes := by
            rintro _ ⟨⟩
            rcases h.extend hsplit hinv hsilent with ⟨hok, hopened⟩
            exact ⟨hok, hopened, rfl⟩
          stops := nofun
          dangles := nofun }

end

/-! ## The walk over the listing -/

/-- One segment of the walk. -/
structure Walked (w : Nat) (segs passed : List Seg) (seg : Seg) (rest : List Seg)
    (carry : Option Carry) (next : List Emitted × Option Carry) : Prop where
  emitted : ∀ e ∈ next.1, EmittedOk w segs e ∧ Ahead w e.endTs (seg :: passed) next.2 rest
  sorted : next.1.Pairwise fun a b => a.endTs ≤ b.start
  ahead : ∀ t, Ahead w t passed carry (seg :: rest) →
    Ahead w t (seg :: passed) next.2 rest ∧ ∀ e ∈ next.1, t ≤ e.start
  carry : ∀ c, next.2 = some c → CarryOk w (seg :: passed) rest c

section

variable (hsplit : Split segs passed (seg :: rest))
include hsplit

theorem openAt_carry {c : Carry}
    (hc : (openAt w seg.1).map (startCarry seg.1) = some c) : CarryOk w (seg :: passed) rest c := by
  rcases Option.map_eq_some_iff.mp hc with ⟨opened, hopen, rfl⟩
  exact (startCarry_ok hsplit hopen).1

theorem resolveClose_ok :
    (∀ e ∈ resolveClose w seg.1 (passed.map Prod.fst), EmittedOk w segs e ∧
      UpTo w e.endTs seg rest ∧ seg.events w ≠ [] ∧
        ∀ t, Floor t [seg] → Floor t (reach w seg.1 passed) → t ≤ e.start) ∧
      (resolveClose w seg.1 (passed.map Prod.fst)).Pairwise fun a b => a.endTs ≤ b.start := by
  rw [resolveClose]
  cases hclose : closeAt w seg.1 with
  | none => exact ⟨fun _ he => absurd he List.not_mem_nil, .nil⟩
  | some close =>
    rcases resolveDanglingClose_ok hsplit hclose with ⟨hall, hsorted⟩
    rcases hsplit.head.closeAt_some hclose with ⟨-, first, others, hfirst, -, rfl⟩
    refine ⟨fun e he => ?_, hsorted⟩
    rcases hall e he with ⟨hok, hle, hfloor⟩
    have hevents : seg.events w ≠ [] := hfirst ▸ List.cons_ne_nil _ _
    exact ⟨hok, (hsplit.upTo hfirst).trans hle, hevents, hfloor⟩

theorem walkSpot_ok {carry : Option Carry}
    (hcarry : ∀ c, carry = some c → CarryOk w passed (seg :: rest) c) :
    Walked w segs passed seg rest carry (walkSpot w (passed.map Prod.fst) carry seg.1) := by
  have hsource := hsplit.head
  rcases resolveClose_ok (w := w) hsplit with ⟨hdangling, hdanglingSorted⟩
  rw [walkSpot]
  cases carry with
  | none =>
    rw [Option.elim_none]
    dsimp only
    rw [if_neg nofun, List.nil_append]
    exact {
      emitted := by
        intro e he
        rcases hdangling e he with ⟨hok, hupTo, hevents, -⟩
        exact ⟨hok, hupTo.ahead hsource fun _ hnil => absurd hnil hevents⟩
      sorted := hdanglingSorted
      ahead := by
        intro t ht
        have hreach := ht.reach rfl seg.1
        constructor
        · apply ht.rest.upTo.ahead hsource
          intro _ _ p hp q hq
          rw [List.mem_singleton.mp hq]
          exact hreach p hp
        · intro e he
          apply (hdangling e he).2.2.2 t _ hreach
          intro q hq
          rw [List.mem_singleton.mp hq]
          exact ht.rest seg List.mem_cons_self
      carry := fun c hc => openAt_carry hsplit hc }
  | some c =>
    have hadvanced := (hcarry c rfl).advance hsplit
    rw [Option.elim_some]
    split
    case h_1 emitted carry' consumed hadvance =>
      rw [hadvance] at hadvanced
      rcases hadvanced.goes carry' rfl with ⟨hok, hopened, hnil⟩
      obtain rfl : emitted = [] := hnil
      exact {
        emitted := fun _ he => absurd he List.not_mem_nil
        sorted := .nil
        ahead := by
          intro t ht
          refine ⟨⟨ht.rest.of_cons, ?_, nofun⟩, fun _ he => absurd he List.not_mem_nil⟩
          rintro _ ⟨⟩
          rw [hopened]
          exact ht.opened c rfl
        carry := by
          rintro _ ⟨⟩
          exact hok }
    case h_2 emitted consumed hadvance =>
      rw [hadvance] at hadvanced
      obtain ⟨dangling, hdefine⟩ : ∃ dangling, dangling =
        if consumed then [] else resolveClose w seg.1 (passed.map Prod.fst) := ⟨_, rfl⟩
      rw [← hdefine]
      have hclosed : ∀ {t : Int}, seg.1.invariants.isSome = true → seg.events w = [] →
          ∀ p ∈ reach w seg.1 passed, Floor t [p] := by
        intro t hsome hnil p hp
        rw [hadvanced.stops rfl hsome hnil] at hp
        cases hp
      -- A close is only resolved where the carry consumed none, and then by itself.
      have hresolved : ∀ e ∈ dangling, e ∈ resolveClose w seg.1 (passed.map Prod.fst) ∧
          reach w seg.1 passed = [] ∧ ∀ e' ∈ emitted, Floor e'.endTs [seg] := by
        intro e he
        rw [hdefine] at he
        split at he
        case isTrue => cases he
        case isFalse hconsumed =>
          refine ⟨he, ?_⟩
          rw [resolveClose] at he
          cases hclose : closeAt w seg.1 with
          | none =>
            rw [hclose, Option.elim_none] at he
            exact absurd he List.not_mem_nil
          | some close =>
            exact hadvanced.dangles rfl (Bool.eq_false_of_not_eq_true hconsumed) close hclose
      have hafter : ∀ t, Floor t [seg] → ∀ e ∈ dangling, t ≤ e.start := by
        intro t ht e he
        rcases hresolved e he with ⟨hmem, hreach, -⟩
        apply (hdangling e hmem).2.2.2 t ht
        rw [hreach]
        exact floor_nil t
      exact {
        emitted := by
          intro e he
          rcases List.mem_append.mp he with he | he
          · rcases hadvanced.emitted e he with ⟨hok, -, hupTo⟩
            exact ⟨hok, hupTo.ahead hsource hclosed⟩
          · rcases hdangling e (hresolved e he).1 with ⟨hok, hupTo, -, -⟩
            exact ⟨hok, hupTo.ahead hsource hclosed⟩
        sorted := by
          refine List.pairwise_append.mpr ⟨hadvanced.sorted, ?_, ?_⟩
          · rw [hdefine]
            split
            · exact .nil
            · exact hdanglingSorted
          · intro e he e' he'
            exact hafter _ ((hresolved e' he').2.2 e he) e' he'
        ahead := by
          intro t ht
          refine ⟨ht.rest.upTo.ahead hsource hclosed, fun e he => ?_⟩
          rcases List.mem_append.mp he with he | he
          · exact (ht.opened c rfl).trans (hadvanced.emitted e he).2.1
          · refine hafter t (fun s hs => ?_) e he
            rw [List.mem_singleton.mp hs]
            exact ht.rest seg List.mem_cons_self
        carry := fun c hc => openAt_carry hsplit hc }

end

theorem walkListing_ok (hsplit : Split segs passed rest) {carry : Option Carry}
    (hcarry : ∀ c, carry = some c → CarryOk w passed rest c) :
    (∀ e ∈ walkListing w (passed.map Prod.fst) carry (rest.map Prod.fst), EmittedOk w segs e ∧
      ∀ t, Ahead w t passed carry rest → t ≤ e.start) ∧
      (walkListing w (passed.map Prod.fst) carry (rest.map Prod.fst)).Pairwise
        fun a b => a.endTs ≤ b.start := by
  induction rest generalizing passed carry with
  | nil => exact ⟨fun _ he => absurd he List.not_mem_nil, .nil⟩
  | cons seg rest ih =>
    have hwalked := walkSpot_ok hsplit hcarry
    rcases ih hsplit.step hwalked.carry with ⟨hall, hsorted⟩
    rw [List.map_cons, walkListing]
    constructor
    · intro e he
      rcases List.mem_append.mp he with he | he
      · exact ⟨(hwalked.emitted e he).1, fun t ht => (hwalked.ahead t ht).2 e he⟩
      · rcases hall e he with ⟨hok, hahead⟩
        exact ⟨hok, fun t ht => hahead t (hwalked.ahead t ht).1⟩
    · refine List.pairwise_append.mpr ⟨hwalked.sorted, hsorted, fun e he e' he' => ?_⟩
      exact (hall e' he').2 _ (hwalked.emitted e he).2

theorem emittedFor_ok (w : Nat) (hsourced : ∀ seg ∈ segs, Sourced seg)
    (horder : segs.Pairwise fun a b => Before a.2 b.2) :
    (∀ e ∈ emittedFor w (segs.map Prod.fst), EmittedOk w segs e) ∧
      (emittedFor w (segs.map Prod.fst)).Pairwise fun a b => a.endTs ≤ b.start := by
  have hsplit : Split segs [] segs := ⟨rfl, hsourced, horder⟩
  have hcarry : ∀ c, none = some c → CarryOk w [] segs c := by
    intro c hc
    cases hc
  rcases walkListing_ok hsplit hcarry with ⟨hall, hsorted⟩
  exact ⟨fun e he => (hall e he).1, hsorted⟩

end Dial9.Viewer.Boundary
