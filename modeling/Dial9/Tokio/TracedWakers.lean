/-
# Traced wakers

A `WakeTraced` polls its inner future with a waker of its own, which records a wake and
then wakes what the executor registered last. All such wakers share one cell: a poll
replaces what is in it, and a wake takes it out. While recording is off the executor's
waker is passed on as it is. Wakes run on any thread, at the same time as polls and as
other wakes, and no order of them loses one.
-/

import Dial9.Lib.Run

namespace Dial9.Tokio.Wakers

open Dial9.Lib

variable {W : Type}

/-- A waker that the inner future was polled with. The traced waker is one and the same in all
polls. -/
inductive Handed (W : Type) where
  /-- The executor's own. -/
  | executor (waker : W)
  | traced
  deriving DecidableEq

structure WakeEvent where
  timestampNs : Nat
  wakerTaskId : Nat
  wokenTaskId : Nat
  targetWorker : Nat
  deriving DecidableEq

/-- How far `WakeTraced::poll` has come. -/
inductive PollStage where
  /-- The future is not being polled. -/
  | idle
  /-- The handle was not asked yet. -/
  | entered
  /-- Recording is on, and the executor's waker not yet registered. -/
  | enabled
  /-- The inner future is being polled. -/
  | polling
  deriving DecidableEq

/-- A poll, with the executor's waker. -/
structure Poll (W : Type) where
  waker : W
  /-- How often an executor's waker had been woken when the poll began, for the record. -/
  began : Nat

inductive WakeStage where
  | called
  /-- The recorder was asked. -/
  | asked
  | completed
  deriving DecidableEq

/-- A wake on some thread, of a waker as a poll handed it out. -/
structure Wake (W : Type) where
  poll : Nat
  handed : Handed W
  /-- `current_worker_id` and `tokio::task::try_id` on the thread. -/
  workerId : Nat
  taskId : Option Nat
  stage : WakeStage
  /-- Whether recording was on when it asked, for the record. -/
  on : Option Bool

structure State (W : Type) where
  enabled : Bool
  wokenTaskId : Nat
  /-- The `AtomicWaker`. -/
  inner : Option W
  /-- How many polls have begun, and the last of them. -/
  count : Nat
  latest : Option (Poll W)
  stage : PollStage
  /-- Which waker each poll handed out. -/
  handedOut : List (Nat × Handed W)
  wakes : List (Wake W)
  /-- The executors' wakers that were woken. -/
  woken : List W
  /-- What was recorded, each with the wake that did. -/
  events : List (Nat × WakeEvent)

inductive Event (W : Type) where
  /-- An executor polls the future with its waker. -/
  | poll (waker : W)
  /-- The poll goes on. -/
  | proceed
  /-- The inner future returns or panics. -/
  | finish
  /-- A thread wakes a waker that was handed out. -/
  | wake (handout : Nat) (workerId : Nat) (taskId : Option Nat)
  /-- A wake goes on, and reads the clock if it has to. -/
  | goOn (wake : Nat) (clock : Nat)
  | setEnabled (on : Bool)

namespace State

/-- `WakeTraced::new`. -/
def new (wokenTaskId : Nat) (enabled : Bool) : State W :=
  ⟨enabled, wokenTaskId, none, 0, none, .idle, [], [], [], []⟩

/-- The inner future is polled with the waker. -/
def handOut (s : State W) (handed : Handed W) : State W :=
  { s with handedOut := s.handedOut ++ [(s.count, handed)], stage := .polling }

/-- The event of `record_wake_event`: the wire has a byte for the worker. -/
def wakeEvent (s : State W) (wake : Wake W) (clock : Nat) : WakeEvent :=
  { timestampNs := clock
    wakerTaskId := wake.taskId.getD 0
    wokenTaskId := s.wokenTaskId
    targetWorker := if wake.workerId ≤ 254 then wake.workerId else 255 }

def setWake (s : State W) (k : Nat) (wake : Wake W) : State W :=
  { s with wakes := s.wakes.set k wake }

/-- `record_wake_event`. -/
def recordWakeEvent (s : State W) (k : Nat) (wake : Wake W) (clock : Nat) : State W :=
  let s' := s.setWake k { wake with stage := .asked, on := some s.enabled }
  if s.enabled then { s' with events := s.events ++ [(k, s.wakeEvent wake clock)] } else s'

/-- `AtomicWaker::wake`. -/
def takeAndWake (s : State W) : State W :=
  match s.inner with
  | none => s
  | some waker => { s with inner := none, woken := s.woken ++ [waker] }

def step (s : State W) : Event W → Option (State W)
  | .poll waker =>
    match s.stage with
    | .idle =>
      some { s with
        count := s.count + 1
        latest := some ⟨waker, s.woken.length⟩
        stage := .entered }
    | _ => none
  | .proceed =>
    match s.latest, s.stage with
    | some poll, .entered =>
      if s.enabled then some { s with stage := .enabled }
      else some (s.handOut (.executor poll.waker))
    | some poll, .enabled => some ({ s with inner := some poll.waker }.handOut .traced)
    | _, _ => none
  | .finish =>
    match s.stage with
    | .polling => some { s with stage := .idle }
    | _ => none
  | .wake handout workerId taskId =>
    match s.handedOut[handout]? with
    | none => none
    | some (poll, handed) =>
      some { s with wakes := s.wakes ++ [⟨poll, handed, workerId, taskId, .called, none⟩] }
  | .goOn k clock =>
    match s.wakes[k]? with
    | none => none
    | some wake =>
      match wake.stage, wake.handed with
      | .called, .executor waker =>
        some { s.setWake k { wake with stage := .completed } with
          woken := s.woken ++ [waker] }
      | .called, .traced => some (s.recordWakeEvent k wake clock)
      | .asked, _ => some (s.setWake k { wake with stage := .completed }).takeAndWake
      | .completed, _ => none
  | .setEnabled on => some { s with enabled := on }

/-- The events that a wake recorded. -/
def eventsOf (s : State W) (k : Nat) : List WakeEvent :=
  (s.events.filter fun entry => entry.1 = k).map Prod.snd

/-- The executor's waker of the poll was woken since the poll began. -/
def WokenSince (s : State W) (poll : Poll W) : Prop := poll.waker ∈ s.woken.drop poll.began

end State

variable {s next : State W} {poll : Poll W} {wake : Wake W} {k : Nat}

/-! ## Wakeups -/

structure Sound (s : State W) : Prop where
  began : ∀ poll ∈ s.latest, poll.began ≤ s.woken.length
  old : ∀ entry ∈ s.handedOut, entry.1 ≤ s.count
  /-- A poll hands out no waker before it has registered the executor's. -/
  pending : s.stage = .entered ∨ s.stage = .enabled → ∀ entry ∈ s.handedOut, entry.1 ≠ s.count
  executor : ∀ poll ∈ s.latest, ∀ waker, (s.count, .executor waker) ∈ s.handedOut →
    waker = poll.waker
  /-- The executor's waker of the last poll stays in the cell until it is woken. -/
  traced : ∀ poll ∈ s.latest, (s.count, .traced) ∈ s.handedOut →
    s.inner = some poll.waker ∨ s.WokenSince poll
  handed : ∀ wake ∈ s.wakes, (wake.poll, wake.handed) ∈ s.handedOut
  asked : ∀ wake ∈ s.wakes, wake.stage = .asked → wake.handed = .traced
  completed : ∀ poll ∈ s.latest, ∀ wake ∈ s.wakes, wake.poll = s.count →
    wake.stage = .completed → s.WokenSince poll

theorem sound_new (wokenTaskId : Nat) (enabled : Bool) :
    Sound (.new wokenTaskId enabled : State W) where
  began := by simp [State.new]
  old := by simp [State.new]
  pending := by simp [State.new]
  executor := by simp [State.new]
  traced := by simp [State.new]
  handed := by simp [State.new]
  asked := by simp [State.new]
  completed := by simp [State.new]

theorem Sound.beginPoll (h : Sound s) (waker : W) :
    Sound { s with
      count := s.count + 1
      latest := some ⟨waker, s.woken.length⟩
      stage := .entered } := by
  have hnew : ∀ entry ∈ s.handedOut, entry.1 ≠ s.count + 1 := by
    intro entry hentry heq
    have hold := h.old entry hentry
    omega
  exact {
    began := by simp
    old := fun entry hentry => Nat.le_trans (h.old entry hentry) (Nat.le_succ _)
    pending := fun _ => hnew
    executor := fun _ _ waker hmem => absurd rfl (hnew _ hmem)
    traced := fun _ _ hmem => absurd rfl (hnew _ hmem)
    handed := h.handed
    asked := h.asked
    completed := fun _ _ wake hwake hpoll _ => absurd hpoll (hnew _ (h.handed wake hwake)) }

theorem Sound.handOut (h : Sound s) (hlatest : s.latest = some poll)
    (hstage : s.stage = .entered ∨ s.stage = .enabled) {handed : Handed W}
    (hexecutor : ∀ waker, handed = .executor waker → waker = poll.waker)
    (htraced : handed = .traced → s.inner = some poll.waker) : Sound (s.handOut handed) := by
  have hpending := h.pending hstage
  have hmem : ∀ handed', (s.count, handed') ∈ s.handedOut ++ [(s.count, handed)] →
      handed = handed' := by
    intro handed' hmem
    obtain hold | hnew := List.mem_append.mp hmem
    · exact absurd rfl (hpending _ hold)
    · cases List.mem_singleton.mp hnew
      rfl
  exact {
    began := h.began
    old := by
      intro entry hentry
      obtain hentry | hentry := List.mem_append.mp hentry
      · exact h.old entry hentry
      · cases List.mem_singleton.mp hentry
        exact Nat.le_refl _
    pending := by simp [State.handOut]
    executor := by
      intro poll' hpoll' waker hwaker
      obtain rfl : poll = poll' := Option.some.inj (hlatest.symm.trans hpoll')
      exact hexecutor waker (hmem _ hwaker)
    traced := by
      intro poll' hpoll' hnow
      obtain rfl : poll = poll' := Option.some.inj (hlatest.symm.trans hpoll')
      exact .inl (htraced (hmem _ hnow))
    handed := fun wake hwake => List.mem_append_left _ (h.handed wake hwake)
    asked := h.asked
    completed := fun _ _ wake hwake hpoll _ =>
      absurd hpoll (hpending _ (h.handed wake hwake)) }

theorem Sound.of_stage (h : Sound s) (inner : Option W) (stage : PollStage)
    (hpending : stage = .entered ∨ stage = .enabled → s.stage = .entered ∨ s.stage = .enabled)
    (hinner : inner = s.inner ∨ s.stage = .entered ∨ s.stage = .enabled) :
    Sound { s with inner, stage } where
  began := h.began
  old := h.old
  pending hstage := h.pending (hpending hstage)
  executor := h.executor
  traced := by
    intro poll hpoll hmem
    obtain rfl | hstage := hinner
    · exact h.traced poll hpoll hmem
    · exact absurd rfl (h.pending hstage _ hmem)
  handed := h.handed
  asked := h.asked
  completed := h.completed

theorem Sound.call (h : Sound s) {handout poll workerId : Nat} {handed : Handed W}
    {taskId : Option Nat} (hhandout : s.handedOut[handout]? = some (poll, handed)) :
    Sound { s with wakes := s.wakes ++ [⟨poll, handed, workerId, taskId, .called, none⟩] } where
  began := h.began
  old := h.old
  pending := h.pending
  executor := h.executor
  traced := h.traced
  handed := by
    intro wake hwake
    obtain hwake | hwake := List.mem_append.mp hwake
    · exact h.handed wake hwake
    · cases List.mem_singleton.mp hwake
      exact List.mem_of_getElem? hhandout
  asked := by
    intro wake hwake hstage
    obtain hwake | hwake := List.mem_append.mp hwake
    · exact h.asked wake hwake hstage
    · cases List.mem_singleton.mp hwake
      cases hstage
  completed := by
    intro poll hpoll wake hwake hcount hstage
    obtain hwake | hwake := List.mem_append.mp hwake
    · exact h.completed poll hpoll wake hwake hcount hstage
    · cases List.mem_singleton.mp hwake
      cases hstage

theorem State.WokenSince.append (h : s.WokenSince poll) (hbegan : poll.began ≤ s.woken.length)
    {more : List W} (hwoken : next.woken = s.woken ++ more) : next.WokenSince poll := by
  rw [State.WokenSince, hwoken, List.drop_append_of_le_length hbegan]
  exact List.mem_append_left _ h

theorem State.wokenSince_of_mem {more : List W} (hmem : poll.waker ∈ more)
    (hbegan : poll.began ≤ s.woken.length) (hwoken : next.woken = s.woken ++ more) :
    next.WokenSince poll := by
  rw [State.WokenSince, hwoken, List.drop_append_of_le_length hbegan]
  exact List.mem_append_right _ hmem

section

variable (h : Sound s) (hwake : s.wakes[k]? = some wake)
include h hwake

theorem Sound.goOn (stage : WakeStage)
    (on : Option Bool) (inner : Option W) (more : List W) (events : List (Nat × WakeEvent))
    (hasked : stage = .asked → wake.handed = .traced)
    (hinner : ∀ waker, s.inner = some waker → inner = some waker ∨ waker ∈ more)
    (hcompleted : stage = .completed → ∀ poll ∈ s.latest, wake.poll = s.count →
      poll.waker ∈ more ∨ s.WokenSince poll) :
    Sound { s with
      wakes := s.wakes.set k { wake with stage, on }
      inner
      woken := s.woken ++ more
      events } where
  began := by
    intro poll hpoll
    rw [List.length_append]
    exact Nat.le_trans (h.began poll hpoll) (Nat.le_add_right _ _)
  old := h.old
  pending := h.pending
  executor := h.executor
  traced := by
    intro poll hpoll hmem
    obtain hcell | hsince := h.traced poll hpoll hmem
    · obtain hcell | hmore := hinner _ hcell
      · exact .inl hcell
      · exact .inr (State.wokenSince_of_mem hmore (h.began poll hpoll) rfl)
    · exact .inr (hsince.append (h.began poll hpoll) rfl)
  handed := by
    intro other hother
    obtain hother | rfl := List.mem_or_eq_of_mem_set hother
    · exact h.handed other hother
    · exact h.handed wake (List.mem_of_getElem? hwake)
  asked := by
    intro other hother hstage
    obtain hother | rfl := List.mem_or_eq_of_mem_set hother
    · exact h.asked other hother hstage
    · exact hasked hstage
  completed := by
    intro poll hpoll other hother hcount hstage
    obtain hother | rfl := List.mem_or_eq_of_mem_set hother
    · exact (h.completed poll hpoll other hother hcount hstage).append (h.began poll hpoll) rfl
    · obtain hmore | hsince := hcompleted hstage poll hpoll hcount
      · exact State.wokenSince_of_mem hmore (h.began poll hpoll) rfl
      · exact hsince.append (h.began poll hpoll) rfl

theorem Sound.recordWakeEvent
    (htraced : wake.handed = .traced) (clock : Nat) : Sound (s.recordWakeEvent k wake clock) := by
  have hasked (events : List (Nat × WakeEvent)) :=
    h.goOn hwake .asked (some s.enabled) s.inner [] events (fun _ => htraced)
      (fun waker hwaker => .inl hwaker) (by simp)
  simp only [List.append_nil] at hasked
  rw [State.recordWakeEvent]
  split
  · exact hasked _
  · exact hasked _

/-- A traced wake that was recorded takes the waker in the cell. If it finds none, the waker of the
last poll has been woken. -/
theorem Sound.takeAndWake (hstage : wake.stage = .asked) :
    Sound (s.setWake k { wake with stage := .completed }).takeAndWake := by
  have hmem := List.mem_of_getElem? hwake
  have hhanded := h.handed wake hmem
  rw [h.asked wake hmem hstage] at hhanded
  have hlast (poll : Poll W) (hpoll : poll ∈ s.latest) (hcount : wake.poll = s.count) :
      s.inner = some poll.waker ∨ s.WokenSince poll := h.traced poll hpoll (hcount ▸ hhanded)
  simp only [State.takeAndWake, State.setWake]
  split
  · next hnone =>
      have hdone := h.goOn hwake .completed wake.on s.inner [] s.events (by simp)
        (fun waker hwaker => .inl hwaker) fun _ poll hpoll hcount => by
          obtain hcell | hsince := hlast poll hpoll hcount
          · cases hnone.symm.trans hcell
          · exact .inr hsince
      simpa using hdone
  · next waker hsome =>
      apply h.goOn hwake .completed wake.on none [waker] s.events (by simp)
      · intro waker' hwaker'
        cases hsome.symm.trans hwaker'
        exact .inr List.mem_cons_self
      · intro _ poll hpoll hcount
        obtain hcell | hsince := hlast poll hpoll hcount
        · cases hsome.symm.trans hcell
          exact .inl List.mem_cons_self
        · exact .inr hsince

end

variable {event : Event W}

theorem Sound.step (h : Sound s) (hnext : s.step event = some next) : Sound next := by
  cases event with
  | poll waker =>
    simp only [State.step] at hnext
    split at hnext
    · cases hnext
      exact h.beginPoll waker
    · cases hnext
  | proceed =>
    simp only [State.step] at hnext
    split at hnext
    · next poll hlatest hstage =>
        split at hnext
        · cases hnext
          exact h.of_stage s.inner .enabled (fun _ => .inl hstage) (.inl rfl)
        · cases hnext
          apply h.handOut hlatest (.inl hstage)
          · intro waker hwaker
            cases hwaker
            rfl
          · simp
    · next poll hlatest hstage =>
        cases hnext
        have hregistered := h.of_stage (some poll.waker) s.stage id (.inr (.inr hstage))
        exact hregistered.handOut hlatest (.inr hstage) (by simp) fun _ => rfl
    · cases hnext
  | finish =>
    simp only [State.step] at hnext
    split at hnext
    · cases hnext
      exact h.of_stage s.inner .idle (by simp) (.inl rfl)
    · cases hnext
  | wake handout workerId taskId =>
    simp only [State.step] at hnext
    split at hnext
    · cases hnext
    · next hhandout =>
        cases hnext
        exact h.call hhandout
  | goOn k clock =>
    simp only [State.step] at hnext
    split at hnext
    · cases hnext
    · next wake hwake =>
        split at hnext
        · next waker _ hexecutor =>
            cases hnext
            apply h.goOn hwake .completed wake.on s.inner [waker] s.events (by simp)
              fun waker hwaker => .inl hwaker
            intro _ poll hpoll hcount
            have hhanded := h.handed wake (List.mem_of_getElem? hwake)
            rw [hcount, hexecutor] at hhanded
            exact .inl (by simp [h.executor poll hpoll waker hhanded])
        · next htraced =>
            cases hnext
            exact h.recordWakeEvent hwake htraced clock
        · next hstage =>
            cases hnext
            exact h.takeAndWake hwake hstage
        · cases hnext
  | setEnabled on =>
    cases hnext
    exact { h with }

/-! ## Recorded wakes -/

/-- The wake recorded one event that names the task if recording was on when it asked, and else
none. -/
def State.Tells (s : State W) (k : Nat) (on : Option Bool) : Prop :=
  match on with
  | some true => ∃ event, s.eventsOf k = [event] ∧ event.wokenTaskId = s.wokenTaskId
  | _ => s.eventsOf k = []

theorem State.Tells.congr {on : Option Bool} (h : s.Tells k on)
    (hevents : next.eventsOf k = s.eventsOf k) (htask : next.wokenTaskId = s.wokenTaskId) :
    next.Tells k on := by
  cases on with
  | none => exact hevents.trans h
  | some on =>
    cases on with
    | false => exact hevents.trans h
    | true =>
      obtain ⟨event, hevent, hnamed⟩ := h
      exact ⟨event, hevents.trans hevent, hnamed.trans htask.symm⟩

structure Told (s : State W) : Prop where
  fresh : ∀ k, s.wakes.length ≤ k → s.eventsOf k = []
  tells : ∀ k wake, s.wakes[k]? = some wake → s.Tells k wake.on
  called : ∀ wake ∈ s.wakes, wake.stage = .called → wake.on = none
  went : ∀ wake ∈ s.wakes, wake.handed = .traced → wake.stage ≠ .called → wake.on.isSome

theorem told_new (wokenTaskId : Nat) (enabled : Bool) :
    Told (.new wokenTaskId enabled : State W) where
  fresh _ _ := rfl
  tells := by simp [State.new]
  called := by simp [State.new]
  went := by simp [State.new]

theorem Told.of_eq (h : Told s) (hwakes : next.wakes = s.wakes) (hevents : next.events = s.events)
    (htask : next.wokenTaskId = s.wokenTaskId) : Told next where
  fresh k hk := by
    rw [State.eventsOf, hevents]
    exact h.fresh k (hwakes ▸ hk)
  tells k wake hwake := by
    apply (h.tells k wake (hwakes ▸ hwake)).congr _ htask
    rw [State.eventsOf, hevents, State.eventsOf]
  called := hwakes ▸ h.called
  went := hwakes ▸ h.went

theorem Told.call (h : Told s) (poll workerId : Nat) (handed : Handed W) (taskId : Option Nat) :
    Told { s with wakes := s.wakes ++ [⟨poll, handed, workerId, taskId, .called, none⟩] } where
  fresh k hk := by
    rw [List.length_append] at hk
    exact h.fresh k (by omega)
  tells k wake hwake := by
    rw [List.getElem?_append] at hwake
    split at hwake
    · exact h.tells k wake hwake
    · next hlength =>
        cases List.mem_singleton.mp (List.mem_of_getElem? hwake)
        exact h.fresh k (by omega)
  called := by
    intro wake hwake hstage
    obtain hwake | hwake := List.mem_append.mp hwake
    · exact h.called wake hwake hstage
    · cases List.mem_singleton.mp hwake
      rfl
  went := by
    intro wake hwake htraced hstage
    obtain hwake | hwake := List.mem_append.mp hwake
    · exact h.went wake hwake htraced hstage
    · cases List.mem_singleton.mp hwake
      exact absurd rfl hstage

theorem Told.complete (h : Told s) (hwake : s.wakes[k]? = some wake)
    (hasked : wake.handed = .traced → wake.stage ≠ .called) (inner : Option W) (woken : List W) :
    Told { s with wakes := s.wakes.set k { wake with stage := .completed }, inner, woken } where
  fresh j hj := h.fresh j (by simpa using hj)
  tells j other hother := by
    by_cases hjk : k = j
    · subst hjk
      obtain ⟨hk, rfl⟩ := List.getElem?_eq_some_iff.mp hother
      rw [List.getElem_set_self]
      exact h.tells k wake hwake
    · rw [List.getElem?_set_ne hjk] at hother
      exact h.tells j other hother
  called := by
    intro other hother hstage
    obtain hother | rfl := List.mem_or_eq_of_mem_set hother
    · exact h.called other hother hstage
    · cases hstage
  went := by
    intro other hother htraced hstage
    obtain hother | rfl := List.mem_or_eq_of_mem_set hother
    · exact h.went other hother htraced hstage
    · exact h.went wake (List.mem_of_getElem? hwake) htraced (hasked htraced)

theorem eventsOf_self {event : WakeEvent} (h : next.events = s.events ++ [(k, event)]) :
    next.eventsOf k = s.eventsOf k ++ [event] := by
  simp [State.eventsOf, h]

theorem eventsOf_ne {j : Nat} (hjk : k ≠ j) {event : WakeEvent}
    (h : next.events = s.events ++ [(k, event)]) : next.eventsOf j = s.eventsOf j := by
  simp [State.eventsOf, h, hjk]

theorem Told.ask (h : Told s) (hwake : s.wakes[k]? = some wake) (hstage : wake.stage = .called)
    (clock : Nat) : Told (s.recordWakeEvent k wake clock) := by
  have hnone : s.eventsOf k = [] := by
    have htells := h.tells k wake hwake
    rwa [h.called wake (List.mem_of_getElem? hwake) hstage] at htells
  have hlength : k < s.wakes.length := (List.getElem?_eq_some_iff.mp hwake).1
  generalize hnext : s.recordWakeEvent k wake clock = next
  have hwakes : next.wakes = s.wakes.set k { wake with stage := .asked, on := some s.enabled } := by
    rw [← hnext, State.recordWakeEvent]
    split <;> rfl
  have htask : next.wokenTaskId = s.wokenTaskId := by
    rw [← hnext, State.recordWakeEvent]
    split <;> rfl
  have hother (j : Nat) (hjk : k ≠ j) : next.eventsOf j = s.eventsOf j := by
    rw [← hnext, State.recordWakeEvent]
    split
    · exact eventsOf_ne hjk rfl
    · rfl
  have hself : next.Tells k (some s.enabled) := by
    cases henabled : s.enabled with
    | true =>
      refine ⟨s.wakeEvent wake clock, ?_, htask.symm⟩
      rw [← hnext, State.recordWakeEvent, if_pos henabled, eventsOf_self rfl]
      exact congrArg (· ++ [_]) hnone
    | false =>
      change next.eventsOf k = []
      rw [← hnext, State.recordWakeEvent, henabled]
      exact hnone
  exact {
    fresh := by
      intro j hj
      rw [hwakes, List.length_set] at hj
      rw [hother j (by omega)]
      exact h.fresh j hj
    tells := by
      intro j other hj
      rw [hwakes] at hj
      by_cases hjk : k = j
      · subst hjk
        rw [List.getElem?_set_self hlength] at hj
        cases hj
        exact hself
      · rw [List.getElem?_set_ne hjk] at hj
        exact (h.tells j other hj).congr (hother j hjk) htask
    called := by
      intro other hmem hcalled
      rw [hwakes] at hmem
      obtain hmem | rfl := List.mem_or_eq_of_mem_set hmem
      · exact h.called other hmem hcalled
      · cases hcalled
    went := by
      intro other hmem htraced hwent
      rw [hwakes] at hmem
      obtain hmem | rfl := List.mem_or_eq_of_mem_set hmem
      · exact h.went other hmem htraced hwent
      · rfl }

theorem Told.step (h : Told s) (hnext : s.step event = some next) : Told next := by
  cases event with
  | poll _ | finish =>
    simp only [State.step] at hnext
    split at hnext
    · cases hnext
      exact h.of_eq rfl rfl rfl
    · cases hnext
  | proceed =>
    simp only [State.step] at hnext
    split at hnext
    · split at hnext <;> cases hnext <;> exact h.of_eq rfl rfl rfl
    · cases hnext
      exact h.of_eq rfl rfl rfl
    · cases hnext
  | wake handout workerId taskId =>
    simp only [State.step] at hnext
    split at hnext
    · cases hnext
    · cases hnext
      exact h.call _ _ _ _
  | goOn k clock =>
    simp only [State.step] at hnext
    split at hnext
    · cases hnext
    · next wake hwake =>
        split at hnext
        · next waker _ hexecutor =>
            cases hnext
            exact h.complete hwake (by simp [hexecutor]) s.inner _
        · next hstage _ =>
            cases hnext
            exact h.ask hwake hstage clock
        · next hstage =>
            cases hnext
            have hasked : wake.handed = .traced → wake.stage ≠ .called := by simp [hstage]
            simp only [State.takeAndWake, State.setWake]
            split
            · exact h.complete hwake hasked s.inner s.woken
            · exact h.complete hwake hasked none _
        · cases hnext
  | setEnabled on =>
    cases hnext
    exact h.of_eq rfl rfl rfl

theorem wokenTaskId_step (hnext : s.step event = some next) : next.wokenTaskId = s.wokenTaskId := by
  cases event with
  | goOn k clock =>
    simp only [State.step] at hnext
    split at hnext
    · cases hnext
    · split at hnext
      · cases hnext
        rfl
      · cases hnext
        rw [State.recordWakeEvent]
        split
        · rfl
        · rfl
      · cases hnext
        simp only [State.takeAndWake]
        split <;> rfl
      · cases hnext
  | poll | finish | wake =>
    simp only [State.step] at hnext
    split at hnext
    all_goals
      cases hnext
      try rfl
  | proceed =>
    simp only [State.step] at hnext
    split at hnext
    · split at hnext
      · cases hnext
        rfl
      · cases hnext
        rfl
    · cases hnext
      rfl
    · cases hnext
  | setEnabled =>
    cases hnext
    rfl

/-- What holds of a wrapper and its wakers at any time. -/
theorem reached {wokenTaskId : Nat} {enabled : Bool} {events : List (Event W)}
    (hrun : run State.step (.new wokenTaskId enabled) events = some s) :
    Sound s ∧ Told s ∧ s.wokenTaskId = wokenTaskId := by
  apply run_invariant (P := fun _ _ => True) _
    ⟨sound_new _ _, told_new _ _, rfl⟩ (along_true _ _) hrun
  intro s event next hs _ hnext
  exact ⟨hs.1.step hnext, hs.2.1.step hnext, (wokenTaskId_step hnext).trans hs.2.2⟩

/-- In every state of every run, a traced waker of the last poll leads to that poll's executor, or
the executor has been woken since the poll began. -/
theorem traced_throughout (wokenTaskId : Nat) (enabled : Bool) (events : List (Event W)) :
    Throughout State.step (fun s => ∀ poll ∈ s.latest, (s.count, .traced) ∈ s.handedOut →
      s.inner = some poll.waker ∨ s.WokenSince poll) (.new wokenTaskId enabled) events :=
  throughout_of_along (fun _ _ _ h _ hnext => Sound.step h hnext) (fun _ h => h.traced)
    (sound_new _ _) (along_true _ _)

/-- Polls of one wrapper with an executor's waker each, and wakes on any threads of what they handed
out, in any order, with recording on or off. Once a wake of the last poll's waker is over, that
poll's executor has been woken since the poll began. A traced wake records one event, which names
the task, if recording is on when it asks, and else none. -/
theorem no_lost_wakeup (wokenTaskId : Nat) (enabled : Bool) (events : List (Event W))
    (hrun : run State.step (.new wokenTaskId enabled) events = some s) :
    (∀ poll ∈ s.latest, ∀ wake ∈ s.wakes, wake.poll = s.count → wake.stage = .completed →
        s.WokenSince poll) ∧
      ∀ k wake, s.wakes[k]? = some wake → wake.handed = .traced → wake.stage = .completed →
        (wake.on = some true ∧
          ∃ event, s.eventsOf k = [event] ∧ event.wokenTaskId = wokenTaskId) ∨
        (wake.on = some false ∧ s.eventsOf k = []) := by
  obtain ⟨hsound, htold, htask⟩ := reached hrun
  refine ⟨hsound.completed, ?_⟩
  intro k wake hwake htraced hstage
  have htells := htold.tells k wake hwake
  have hwent := htold.went wake (List.mem_of_getElem? hwake) htraced (by simp [hstage])
  obtain ⟨on, hon⟩ := Option.isSome_iff_exists.mp hwent
  rw [hon] at htells
  cases on with
  | true => exact .inl ⟨hon, htask ▸ htells⟩
  | false => exact .inr ⟨hon, htells⟩

/-- A wake of the first poll's waker takes what the second poll has registered, so that the wake of
the second poll's own finds nothing. -/
def stolenWake : List (Event Nat) :=
  [.poll 1, .proceed, .proceed, .finish, .wake 0 300 none, .goOn 0 5,
    .poll 2, .proceed, .proceed, .wake 1 3 (some 9), .goOn 0 6, .goOn 1 7, .goOn 1 8]

theorem no_lost_wakeup_stolen :
    ∃ s, run State.step (.new 7 true) stolenWake = some s ∧ s.woken = [2] ∧
      (∀ poll ∈ s.latest, s.WokenSince poll) ∧
      s.events = [(0, ⟨5, 0, 7, 255⟩), (1, ⟨7, 9, 7, 3⟩)] := by
  obtain ⟨s, hs⟩ : ∃ s, run State.step (.new 7 true) stolenWake = some s := ⟨_, rfl⟩
  have hkept := (no_lost_wakeup 7 true stolenWake hs).1
  refine ⟨s, hs, ?_, ?_, ?_⟩
  · cases hs
    rfl
  · intro poll hpoll
    have hwake : ∃ wake ∈ s.wakes, wake.poll = s.count ∧ wake.stage = .completed := by
      cases hs
      exact ⟨_, List.mem_cons_of_mem _ List.mem_cons_self, rfl, rfl⟩
    obtain ⟨wake, hmem, hcount, hstage⟩ := hwake
    exact hkept poll hpoll wake hmem hcount hstage
  · cases hs
    rfl

end Dial9.Tokio.Wakers
