/-
# Poll spans of traced futures

Without tokio's poll hooks it is the `WakeTraced` wrappers that record polls. Wrappers
nest, and a marker of the thread says whether a recorded poll is open. The marker is set
where the start of a poll is built, which only happens while recording is on, and a guard
clears it on the way out. Other threads pause recording and detach runtimes between any
two things a wrapper does.
-/

import Dial9.Tokio.WorkerIds
import Mathlib.Data.List.Pairwise

namespace Dial9.Tokio.PollSpans

open Dial9.Lib

/-- An attached runtime, with the recorder that its `recorder_handle` leads to. -/
structure RuntimeContext where
  id : Nat
  recorder : Nat
  deriving DecidableEq

/-- A `WakeTraced` around a future. It is only made with a connected handle, here the recorder the
handle leads to. -/
structure Wrapper where
  handle : Nat
  runtimeCtx : Option RuntimeContext
  taskId : Nat
  spawnLoc : Nat
  deriving DecidableEq

/-- The wrapper has a runtime to attribute polls to. -/
def Wrapper.attached (w : Wrapper) : Bool := w.runtimeCtx.isSome

structure PollStart where
  timestampNs : Nat
  workerId : Nat
  localQueue : Nat
  taskId : Nat
  location : Nat
  deriving DecidableEq

structure PollEnd where
  timestampNs : Nat
  workerId : Nat
  deriving DecidableEq

/-- What happens on the thread: events of the wrappers, and the polls of their inner futures. -/
inductive Entry where
  | pollStart (event : PollStart)
  | polled (wrapper : Wrapper)
  | finished
  | pollEnd (event : PollEnd)
  deriving DecidableEq

/-- `PollSpanGuard`, and whether the start of its poll was recorded, for the record. -/
structure PollSpanGuard where
  ctx : RuntimeContext
  recorded : Bool
  deriving DecidableEq

/-- How far a wrapper's `poll` has come. Anything may happen on other threads in between. -/
inductive Stage where
  /-- About to ask the handle whether recording is on. -/
  | entered
  /-- It is, and the executor's waker is registered. -/
  | enabled
  /-- The guard is made, `record_poll_start` is called. -/
  | guarded (ctx : RuntimeContext)
  /-- The runtime was not detached, so the recorder is asked. -/
  | starting (ctx : RuntimeContext)
  /-- The inner future is being polled. -/
  | polling (guard : Option PollSpanGuard)
  /-- The guard is being dropped. -/
  | closing (guard : PollSpanGuard)
  /-- The marker is clear and the runtime was not detached, so the recorder is asked. -/
  | ending (guard : PollSpanGuard)
  deriving DecidableEq

/-- A call of `WakeTraced::poll` on the stack of the thread. -/
structure Frame where
  wrapper : Wrapper
  stage : Stage
  deriving DecidableEq

/-- The inner future is being polled, so that other code of the thread may run. -/
def Frame.isPolling (frame : Frame) : Bool :=
  match frame.stage with
  | .polling _ => true
  | _ => false

/-- A guard was made and is not gone. -/
def Frame.guarded (frame : Frame) : Bool :=
  match frame.stage with
  | .entered | .enabled | .polling none => false
  | _ => true

/-- The start of the poll was recorded, and its end was not yet. -/
def Frame.recorded (frame : Frame) : Bool :=
  match frame.stage with
  | .polling (some guard) | .closing guard | .ending guard => guard.recorded
  | _ => false

/-- The guard has cleared the marker. -/
def Frame.isEnding (frame : Frame) : Bool :=
  match frame.stage with
  | .ending _ => true
  | _ => false

/-- One thread, and what other threads share with it. -/
structure State where
  /-- Whether recording is on, for each recorder. -/
  enabled : Nat → Bool
  /-- Whether the runtime with the context is detached. -/
  detached : Nat → Bool
  workerIdCounter : Nat → Nat
  locals : ThreadLocals
  pollStartTs : Option Nat
  /-- The polls that go on, the innermost first. -/
  stack : List Frame
  history : List Entry

inductive Outcome where
  | returned
  | panicked
  deriving DecidableEq

inductive Event where
  /-- Code of the thread polls a wrapper. -/
  | poll (wrapper : Wrapper)
  /-- The innermost wrapper goes on, and reads the clock if it has to. -/
  | proceed (clock : Nat)
  /-- The inner future of the innermost wrapper is done. -/
  | leave (outcome : Outcome)
  /-- A park hook of the runtime runs on the thread. -/
  | park (ctx : RuntimeContext)
  | setEnabled (recorder : Nat) (on : Bool)
  /-- The runtime is detached, by this thread or another. -/
  | detach (ctx : Nat) (here : Bool)
  /-- A worker of another thread takes an id. -/
  | reserve (recorder : Nat)

/-- `NonZeroU64::new`. -/
def nonZero (n : Nat) : Option Nat := if n = 0 then none else some n

namespace State

/-- A thread that nothing has run on. -/
def initial (enabled : Nat → Bool) (workerIdCounter : Nat → Nat) : State :=
  ⟨enabled, fun _ => false, workerIdCounter, .empty, none, [], []⟩

/-- The id this thread has claimed in the runtime. -/
def claimed (s : State) (ctx : Nat) : Option Nat :=
  (s.locals.claimedWorkerIds.find? fun entry => entry.1 = ctx).map Prod.snd

/-- `claim_thread_worker_id`. -/
def claimThreadWorkerId (s : State) (ctx : RuntimeContext) : Nat × State :=
  match s.claimed ctx.id with
  | some id => (id, s)
  | none =>
    let id := s.workerIdCounter ctx.recorder
    (id, { s with
      workerIdCounter := Function.update s.workerIdCounter ctx.recorder (id + 1)
      locals.claimedWorkerIds := s.locals.claimedWorkerIds ++ [(ctx.id, id)] })

/-- `event_worker_id`, which resolves the thread as a worker of the runtime. -/
def eventWorkerId (s : State) (ctx : RuntimeContext) : Nat × State :=
  let (id, s) := s.claimThreadWorkerId ctx
  (id, { s with locals.globalWorkerId := some id })

/-- `make_poll_start`, recorded. Without tokio's metrics the queue depth is 0. -/
def makePollStart (s : State) (w : Wrapper) (ctx : RuntimeContext) (clock : Nat) : State :=
  let (workerId, s) := s.eventWorkerId ctx
  { s with
    pollStartTs := nonZero clock
    history := s.history ++ [.pollStart ⟨clock, workerId, 0, w.taskId, w.spawnLoc⟩] }

/-- `make_poll_end`, recorded. -/
def makePollEnd (s : State) (ctx : RuntimeContext) (clock : Nat) : State :=
  let (workerId, s) := s.eventWorkerId ctx
  { s with history := s.history ++ [.pollEnd ⟨clock, workerId⟩] }

/-- The innermost wrapper moves to the stage. -/
def goTo (s : State) (frame : Frame) (rest : List Frame) (stage : Stage) : State :=
  { s with stack := { frame with stage } :: rest }

/-- The innermost wrapper polls its inner future, under the guard if it has one. -/
def pollInner (s : State) (frame : Frame) (rest : List Frame) (guard : Option PollSpanGuard) :
    State :=
  { s.goTo frame rest (.polling guard) with history := s.history ++ [.polled frame.wrapper] }

/-- The poll of the innermost wrapper is over. -/
def pop (s : State) (rest : List Frame) : State := { s with stack := rest }

/-- What the innermost wrapper does next. -/
def advance (s : State) (frame : Frame) (rest : List Frame) (clock : Nat) : Option State :=
  match frame.stage with
  | .entered =>
    if s.enabled frame.wrapper.handle then some (s.goTo frame rest .enabled)
    else some (s.pollInner frame rest none)
  | .enabled =>
    -- A context only counts while no span is open.
    match frame.wrapper.runtimeCtx.filter fun _ => s.pollStartTs.isNone with
    | none => some (s.pollInner frame rest none)
    | some ctx => some (s.goTo frame rest (.guarded ctx))
  | .guarded ctx =>
    if s.detached ctx.id then some (s.pollInner frame rest (some ⟨ctx, false⟩))
    else some (s.goTo frame rest (.starting ctx))
  | .starting ctx =>
    if s.enabled ctx.recorder then
      some ((s.makePollStart frame.wrapper ctx clock).pollInner frame rest (some ⟨ctx, true⟩))
    else some (s.pollInner frame rest (some ⟨ctx, false⟩))
  | .polling _ => none
  | .closing guard =>
    -- `clear_poll_span` comes first, whatever is recorded after it.
    let s := { s with pollStartTs := none }
    if s.detached guard.ctx.id then some (s.pop rest)
    else some (s.goTo frame rest (.ending guard))
  | .ending guard =>
    if s.enabled guard.ctx.recorder then some ((s.makePollEnd guard.ctx clock).pop rest)
    else some (s.pop rest)

/-- The inner future of the innermost wrapper is done. The guard drops when it returns and when it
unwinds. -/
def leave (s : State) (frame : Frame) (rest : List Frame) : Option State :=
  let s := { s with history := s.history ++ [Entry.finished] }
  match frame.stage with
  | .polling none => some (s.pop rest)
  | .polling (some guard) => some (s.goTo frame rest (.closing guard))
  | _ => none

/-- No wrapper of this thread is at work, so that other code of it may run. -/
def isOpen (s : State) : Bool := s.stack.head?.all Frame.isPolling

def step (s : State) : Event → Option State
  | .poll wrapper =>
      if s.isOpen then some { s with stack := ⟨wrapper, .entered⟩ :: s.stack } else none
  | .proceed clock =>
    match s.stack with
    | [] => none
    | frame :: rest => s.advance frame rest clock
  | .leave _ =>
    match s.stack with
    | [] => none
    | frame :: rest => s.leave frame rest
  | .park ctx =>
    if s.isOpen then
      if ¬ s.detached ctx.id ∧ s.enabled ctx.recorder then some (s.eventWorkerId ctx).2 else some s
    else none
  | .setEnabled recorder on => some { s with enabled := Function.update s.enabled recorder on }
  | .detach ctx here =>
    let s' := { s with detached := Function.update s.detached ctx true }
    if here then
      if s.isOpen then
        some { s' with
          locals.claimedWorkerIds := s.locals.claimedWorkerIds.filter fun entry => entry.1 ≠ ctx }
      else none
    else some s'
  | .reserve recorder =>
    some { s with
      workerIdCounter :=
        Function.update s.workerIdCounter recorder (s.workerIdCounter recorder + 1) }

end State

/-- The clock does not read 0. -/
def Event.Timed : Event → Prop
  | .proceed clock => clock ≠ 0
  | _ => True

variable {s next : State} {frame : Frame} {rest : List Frame}

/-! ## Resolving the worker -/

@[simp] theorem claimThreadWorkerId_stack (s : State) (ctx : RuntimeContext) :
    (s.claimThreadWorkerId ctx).2.stack = s.stack := by
  rw [State.claimThreadWorkerId]
  split <;> rfl

@[simp] theorem claimThreadWorkerId_pollStartTs (s : State) (ctx : RuntimeContext) :
    (s.claimThreadWorkerId ctx).2.pollStartTs = s.pollStartTs := by
  rw [State.claimThreadWorkerId]
  split <;> rfl

@[simp] theorem claimThreadWorkerId_history (s : State) (ctx : RuntimeContext) :
    (s.claimThreadWorkerId ctx).2.history = s.history := by
  rw [State.claimThreadWorkerId]
  split <;> rfl

@[simp] theorem eventWorkerId_stack (s : State) (ctx : RuntimeContext) :
    (s.eventWorkerId ctx).2.stack = s.stack := claimThreadWorkerId_stack s ctx

@[simp] theorem eventWorkerId_pollStartTs (s : State) (ctx : RuntimeContext) :
    (s.eventWorkerId ctx).2.pollStartTs = s.pollStartTs := claimThreadWorkerId_pollStartTs s ctx

@[simp] theorem eventWorkerId_history (s : State) (ctx : RuntimeContext) :
    (s.eventWorkerId ctx).2.history = s.history := claimThreadWorkerId_history s ctx

theorem isSome_nonZero {n : Nat} (h : n ≠ 0) : (nonZero n).isSome := by
  rw [nonZero, if_neg h]
  rfl

/-! ## The marker and the stack -/

/-- The marker is set exactly by a guard that recorded a start, and inside of it no wrapper has a
guard. -/
def Marks : Bool → List Frame → Prop
  | marker, [] => marker = false
  | marker, frame :: rest =>
    if frame.guarded then marker = (frame.recorded && !frame.isEnding) ∧ Marks false rest
    else Marks marker rest

/-- What holds of the thread at any time. -/
structure Sound (s : State) : Prop where
  below : ∀ frame ∈ s.stack.tail, frame.isPolling
  marks : Marks s.pollStartTs.isSome s.stack

theorem guarded_of_recorded (h : frame.recorded) : frame.guarded := by
  obtain ⟨wrapper, stage⟩ := frame
  cases stage with
  | polling guard =>
    cases guard with
    | none => exact h
    | some => rfl
  | entered | enabled | guarded | starting | closing | ending =>
      simp_all [Frame.recorded, Frame.guarded]

theorem not_isEnding_of_isPolling (h : frame.isPolling) : frame.isEnding = false := by
  obtain ⟨wrapper, stage⟩ := frame
  cases stage with
  | polling => rfl
  | entered | enabled | guarded | starting | closing | ending => simp [Frame.isPolling] at h

theorem Marks.not_recorded {frames : List Frame} (h : Marks false frames)
    (hpolling : ∀ frame ∈ frames, frame.isPolling) : ∀ frame ∈ frames, frame.recorded = false := by
  induction frames with
  | nil => simp
  | cons frame rest ih =>
    have hrest : Marks false rest := by
      rw [Marks] at h
      split at h
      · exact h.2
      · exact h
    intro g hg
    obtain rfl | hg := List.mem_cons.mp hg
    · by_contra hrecorded
      rw [Bool.not_eq_false] at hrecorded
      rw [Marks, if_pos (guarded_of_recorded hrecorded), hrecorded,
        not_isEnding_of_isPolling (hpolling g List.mem_cons_self)] at h
      exact Bool.noConfusion h.1
    · exact ih hrest (fun g hg => hpolling g (List.mem_cons_of_mem _ hg)) g hg

theorem marks_unguarded {marker : Bool} (h : frame.guarded = false) :
    Marks marker (frame :: rest) ↔ Marks marker rest := by simp [Marks, h]

theorem marks_guarded {marker : Bool} (h : frame.guarded) :
    Marks marker (frame :: rest) ↔
      marker = (frame.recorded && !frame.isEnding) ∧ Marks false rest := by simp [Marks, h]

theorem sound_initial (enabled : Nat → Bool) (workerIdCounter : Nat → Nat) :
    Sound (.initial enabled workerIdCounter) where
  below := by simp [State.initial]
  marks := rfl

section

variable (h : Sound s)
include h

theorem Sound.of_eq (hstack : next.stack = s.stack)
    (hmarker : next.pollStartTs = s.pollStartTs) : Sound next where
  below := hstack ▸ h.below
  marks := by
    rw [hstack, hmarker]
    exact h.marks

section

variable (hstack : s.stack = frame :: rest)
include hstack

theorem Sound.goTo {stage : Stage} (hnext : next.stack = { frame with stage } :: rest)
    (hmarks : Marks next.pollStartTs.isSome ({ frame with stage } :: rest)) : Sound next where
  below := by
    have hbelow := h.below
    rw [hstack] at hbelow
    rw [hnext]
    exact hbelow
  marks := by
    rw [hnext]
    exact hmarks

theorem Sound.pop (hnext : next.stack = rest)
    (hmarks : Marks next.pollStartTs.isSome rest) : Sound next where
  below := by
    have hbelow := h.below
    rw [hstack] at hbelow
    rw [hnext]
    exact fun g hg => hbelow g (List.mem_of_mem_tail hg)
  marks := by
    rw [hnext]
    exact hmarks

theorem Sound.advance {clock : Nat}
    (hclock : clock ≠ 0) (hnext : s.advance frame rest clock = some next) : Sound next := by
  have hmarks := h.marks
  rw [hstack] at hmarks
  obtain ⟨wrapper, stage⟩ := frame
  cases stage with
  | entered =>
    rw [marks_unguarded rfl] at hmarks
    simp only [State.advance] at hnext
    split at hnext <;> cases hnext <;> exact h.goTo hstack rfl ((marks_unguarded rfl).mpr hmarks)
  | enabled =>
    rw [marks_unguarded rfl] at hmarks
    simp only [State.advance] at hnext
    split at hnext
    · cases hnext
      exact h.goTo hstack rfl ((marks_unguarded rfl).mpr hmarks)
    · next ctx hctx =>
        cases hnext
        have hclear : s.pollStartTs.isSome = false := by
          simpa using (Option.filter_eq_some_iff.mp hctx).2
        apply h.goTo hstack rfl
        exact (marks_guarded rfl).mpr ⟨hclear, hclear ▸ hmarks⟩
  | guarded ctx =>
    rw [marks_guarded rfl] at hmarks
    simp only [State.advance] at hnext
    split at hnext <;> cases hnext <;> exact h.goTo hstack rfl ((marks_guarded rfl).mpr hmarks)
  | starting ctx =>
    rw [marks_guarded rfl] at hmarks
    simp only [State.advance] at hnext
    split at hnext
    · cases hnext
      apply h.goTo hstack rfl
      exact (marks_guarded rfl).mpr ⟨isSome_nonZero hclock, hmarks.2⟩
    · cases hnext
      exact h.goTo hstack rfl ((marks_guarded rfl).mpr hmarks)
  | polling guard => simp [State.advance] at hnext
  | closing guard =>
    rw [marks_guarded rfl] at hmarks
    simp only [State.advance] at hnext
    split at hnext
    · cases hnext
      exact h.pop hstack rfl hmarks.2
    · cases hnext
      apply h.goTo hstack rfl
      exact (marks_guarded rfl).mpr ⟨by simp [Frame.isEnding, State.goTo], hmarks.2⟩
  | ending guard =>
    rw [marks_guarded rfl] at hmarks
    have hclear : s.pollStartTs.isSome = false := by simpa [Frame.isEnding] using hmarks.1
    simp only [State.advance] at hnext
    split at hnext
    · cases hnext
      apply h.pop hstack rfl
      simpa [State.makePollEnd, State.pop, hclear] using hmarks.2
    · cases hnext
      apply h.pop hstack rfl
      rw [State.pop, hclear]
      exact hmarks.2

theorem Sound.leave (hnext : s.leave frame rest = some next) : Sound next := by
  have hmarks := h.marks
  rw [hstack] at hmarks
  obtain ⟨wrapper, stage⟩ := frame
  cases stage with
  | polling guard =>
    cases guard with
    | none =>
      cases hnext
      exact h.pop hstack rfl ((marks_unguarded rfl).mp hmarks)
    | some guard =>
      cases hnext
      exact h.goTo hstack rfl ((marks_guarded rfl).mpr ((marks_guarded rfl).mp hmarks))
  | entered | enabled | guarded | starting | closing | ending => simp [State.leave] at hnext

end

theorem Sound.poll (hopen : s.isOpen) (wrapper : Wrapper) :
    Sound { s with stack := ⟨wrapper, .entered⟩ :: s.stack } where
  below frame hframe := by
    have hbelow := h.below
    cases hstack : s.stack with
    | nil => simp [hstack] at hframe
    | cons top rest =>
      rw [hstack] at hbelow
      obtain rfl | hframe := List.mem_cons.mp (show frame ∈ top :: rest from hstack ▸ hframe)
      · simpa [State.isOpen, hstack] using hopen
      · exact hbelow frame hframe
  marks := (marks_unguarded rfl).mpr h.marks

theorem Sound.step {event : Event} (htimed : event.Timed)
    (hnext : s.step event = some next) : Sound next := by
  cases event with
  | poll wrapper =>
    simp only [State.step] at hnext
    split at hnext
    · next hopen =>
        cases hnext
        exact h.poll hopen wrapper
    · cases hnext
  | proceed clock =>
    simp only [State.step] at hnext
    split at hnext
    · cases hnext
    · next frame rest hstack => exact h.advance hstack htimed hnext
  | leave outcome =>
    simp only [State.step] at hnext
    split at hnext
    · cases hnext
    · next frame rest hstack => exact h.leave hstack hnext
  | park ctx =>
    simp only [State.step] at hnext
    split at hnext
    · split at hnext
      · cases hnext
        exact h.of_eq (eventWorkerId_stack s ctx) (eventWorkerId_pollStartTs s ctx)
      · cases hnext
        exact h
    · cases hnext
  | setEnabled _ _ | reserve _ =>
    cases hnext
    exact h.of_eq rfl rfl
  | detach ctx here =>
    simp only [State.step] at hnext
    split at hnext
    · split at hnext
      · cases hnext
        exact h.of_eq rfl rfl
      · cases hnext
    · cases hnext
      exact h.of_eq rfl rfl

theorem Sound.run {events : List Event} (htimed : ∀ event ∈ events, event.Timed)
    (hrun : run State.step s events = some next) : Sound next :=
  run_invariant (P := fun _ event => event.Timed)
    (fun _ _ _ hsound hevent hnext => hsound.step hevent hnext) h
    (along_of_forall (fun event hevent _ => htimed event hevent) s) hrun

end

/-! ## Recorded starts -/

/-- The starts that were recorded. -/
def starts (history : List Entry) : List PollStart :=
  history.filterMap fun
    | .pollStart start => some start
    | _ => none

@[simp] theorem starts_append (history more : List Entry) :
    starts (history ++ more) = starts history ++ starts more := List.filterMap_append

@[simp] theorem starts_polled (wrapper : Wrapper) : starts [.polled wrapper] = [] := rfl

@[simp] theorem starts_finished : starts [.finished] = [] := rfl

@[simp] theorem starts_pollEnd (stop : PollEnd) : starts [.pollEnd stop] = [] := rfl

@[simp] theorem starts_pollInner (s : State) (frame : Frame) (rest : List Frame)
    (guard : Option PollSpanGuard) :
    starts (s.pollInner frame rest guard).history = starts s.history := by
  simp [State.pollInner]

@[simp] theorem starts_makePollEnd (s : State) (ctx : RuntimeContext) (clock : Nat) :
    starts (s.makePollEnd ctx clock).history = starts s.history := by
  simp [State.makePollEnd]

/-- Only a wrapper that has a guard and is asking its recorder records a start. -/
theorem starts_advance {clock : Nat} (hnext : s.advance frame rest clock = some next)
    (hstage : ∀ ctx, frame.stage ≠ .starting ctx) : starts next.history = starts s.history := by
  obtain ⟨wrapper, stage⟩ := frame
  cases stage with
  | entered | enabled =>
    simp only [State.advance] at hnext
    split at hnext <;> cases hnext <;> simp [State.goTo]
  | guarded ctx =>
    simp only [State.advance] at hnext
    split at hnext <;> cases hnext <;> simp [State.goTo]
  | starting ctx => exact absurd rfl (hstage ctx)
  | polling guard => simp [State.advance] at hnext
  | closing guard | ending guard =>
    simp only [State.advance] at hnext
    split at hnext <;> cases hnext <;> simp [State.goTo, State.pop]

theorem starts_leave (hnext : s.leave frame rest = some next) :
    starts next.history = starts s.history := by
  simp only [State.leave] at hnext
  split at hnext <;> cases hnext <;> simp [State.goTo, State.pop]

theorem starting_of_step {event : Event} (hnext : s.step event = some next)
    (hstarts : starts next.history ≠ starts s.history) :
    ∃ frame rest ctx, s.stack = frame :: rest ∧ frame.stage = .starting ctx := by
  cases event with
  | proceed clock =>
    simp only [State.step] at hnext
    split at hnext
    · cases hnext
    · next frame rest hstack =>
        by_contra hnone
        apply hstarts
        apply starts_advance hnext
        intro ctx hctx
        exact hnone ⟨frame, rest, ctx, hstack, hctx⟩
  | leave outcome =>
    simp only [State.step] at hnext
    split at hnext
    · cases hnext
    · exact absurd (starts_leave hnext) hstarts
  | poll | park | detach =>
    simp only [State.step] at hnext
    split_ifs at hnext <;> cases hnext <;> simp at hstarts
  | setEnabled | reserve =>
    cases hnext
    simp at hstarts

/-- Where a wrapper records a start, no span is open. -/
theorem Sound.not_recorded (h : Sound s) {event : Event} (hnext : s.step event = some next)
    (hstarts : starts next.history ≠ starts s.history) :
    ∀ frame ∈ s.stack, frame.recorded = false := by
  obtain ⟨frame, rest, ctx, hstack, hstage⟩ := starting_of_step hnext hstarts
  have hmarks := h.marks
  have hbelow := h.below
  rw [hstack] at hmarks hbelow
  rw [marks_guarded (by simp [Frame.guarded, hstage])] at hmarks
  intro g hg
  obtain rfl | hg := List.mem_cons.mp (hstack ▸ hg)
  · simp [Frame.recorded, hstage]
  · exact hmarks.2.not_recorded hbelow g hg

theorem Sound.pollStartTs_eq_none (h : Sound s) (hstack : s.stack = []) : s.pollStartTs = none := by
  have hmarks := h.marks
  rw [hstack] at hmarks
  simpa [Marks] using hmarks

end Dial9.Tokio.PollSpans
