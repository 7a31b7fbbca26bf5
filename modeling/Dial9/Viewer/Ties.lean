/-
# Events at one time

The decoder sorts events by time and leaves the order of ties to the sort. The
two passes over the sorted events are local: an event touches the worker, the
thread and the tasks that it names, and those of the polls that it closes. So
the order of ties makes no difference where tied events touch nothing both; an
end and a start of polls on one worker do, and there it does.
-/

import Dial9.Viewer.Polls
import Dial9.Lib.Footprint
import Mathlib.Data.List.ReduceOption

namespace Dial9.Viewer.Polls

open Dial9.Lib

/-! ## Threads and workers -/

/-- What the first pass keeps, by thread and by worker. -/
inductive TidCell where
  | tid (tid : Nat)
  | worker (workerId : Nat)

def TidCell.Val : TidCell → Type
  | .tid _ => List (Nat × Nat) × List (Nat × Nat)
  | .worker _ => Option WorkerTidState

variable {workerId stop taskId timestamp tid : Nat} {reason : CloseReason}

variable {isUnpark : Bool}

namespace TidTables

variable {tables tables' : TidTables} {event : TraceEvent}

def get (tables : TidTables) : ∀ cell : TidCell, cell.Val
  | .tid tid => (tables.tidBindings tid, tables.tidHandoffGaps tid)
  | .worker workerId => tables.workerTidState workerId

/-- The cells of a park or an unpark: its worker, its thread, and the thread
that the worker is taken from. -/
def foot (tables : TidTables) (event : TraceEvent) (cell : TidCell) : Prop :=
  ∃ bound ∈ binding event, cell = .worker bound.2.2.1 ∨ cell = .tid bound.2.1 ∨
    ∃ state ∈ tables.workerTidState bound.2.2.1, cell = .tid (expectedTid state)

def out (_ : TidTables) (_ : TraceEvent) : List PollRecord := []

theorem bind_worker (hevent : binding event = some (timestamp, tid, workerId, isUnpark))
    (other : Nat) :
    (tables.bind event).workerTidState other =
      if other = workerId then some ⟨if isUnpark then some tid else none, tid, timestamp⟩
      else tables.workerTidState other := by
  simp only [bind, hevent, Function.update_apply]

theorem bind_bindings {timestamp tid workerId : Nat} {isUnpark : Bool}
    (hevent : binding event = some (timestamp, tid, workerId, isUnpark)) (other : Nat) :
    (tables.bind event).tidBindings other =
      if other = tid then pushBinding (tables.tidBindings tid) timestamp workerId
      else tables.tidBindings other := by
  simp only [bind, hevent, Function.update_apply]

section

variable (hevent : binding event = some (timestamp, tid, workerId, isUnpark))
include hevent

theorem bind_gaps_none (hstate : tables.workerTidState workerId = none) :
    (tables.bind event).tidHandoffGaps = tables.tidHandoffGaps := by
  simp only [bind, hevent, hstate]

theorem bind_gaps_some {state : WorkerTidState}
    (hstate : tables.workerTidState workerId = some state) (other : Nat) :
    (tables.bind event).tidHandoffGaps other =
      if expectedTid state ≠ tid ∧ (other = tid ∨ other = expectedTid state) then
        tables.tidHandoffGaps other ++ [(state.lastEvent, timestamp)]
      else tables.tidHandoffGaps other := by
  simp only [bind, hevent, hstate]
  by_cases hsame : expectedTid state = tid
  · simp [hsame]
  · simp only [ne_eq, hsame, not_false_eq_true, if_true, true_and, pushGap, Function.update_apply]
    by_cases htid : other = tid
    · subst htid
      simp [Ne.symm hsame]
    · by_cases hexpected : other = expectedTid state
      · subst hexpected
        simp [hsame]
      · simp [htid, hexpected]

end

theorem bind_of_none (hevent : binding event = none) : tables.bind event = tables := by
  simp only [bind, hevent]

theorem frame {cell : TidCell} (h : ¬ tables.foot event cell) :
    (tables.bind event).get cell = tables.get cell := by
  cases hevent : binding event with
  | none => rw [bind_of_none hevent]
  | some bound =>
    rcases bound with ⟨timestamp, tid, workerId, isUnpark⟩
    cases cell with
    | worker other =>
      have hne : other ≠ workerId := by
        rintro rfl
        exact h ⟨_, hevent, .inl rfl⟩
      exact (bind_worker hevent other).trans (if_neg hne)
    | tid other =>
      have htid : other ≠ tid := by
        rintro rfl
        exact h ⟨_, hevent, .inr (.inl rfl)⟩
      have hbindings := (@bind_bindings tables _ _ _ _ _ hevent other).trans (if_neg htid)
      have hgaps : (tables.bind event).tidHandoffGaps other = tables.tidHandoffGaps other := by
        cases hstate : tables.workerTidState workerId with
        | none => rw [bind_gaps_none hevent hstate]
        | some state =>
          rw [bind_gaps_some hevent hstate]
          apply if_neg
          rintro ⟨-, rfl | rfl⟩
          · exact htid rfl
          · exact h ⟨_, hevent, .inr (.inr ⟨state, hstate, rfl⟩)⟩
      exact Prod.ext hbindings hgaps

/-- The first pass is local. -/
theorem isLocal : IsLocal get bind out foot where
  frame := fun _ _ _ h => frame h
  local' := by
    intro F tables tables' event hsub hagree
    cases hevent : binding event with
    | none =>
      rw [bind_of_none hevent, bind_of_none hevent]
      refine ⟨hagree, rfl, fun cell => ?_⟩
      simp [foot, hevent]
    | some bound =>
      rcases bound with ⟨timestamp, tid, workerId, isUnpark⟩
      have hworker : tables.workerTidState workerId = tables'.workerTidState workerId :=
        hagree (.worker workerId) (hsub _ ⟨_, hevent, .inl rfl⟩)
      have htid : tables.get (.tid tid) = tables'.get (.tid tid) :=
        hagree (.tid tid) (hsub _ ⟨_, hevent, .inr (.inl rfl)⟩)
      refine ⟨?_, rfl, fun cell => ?_⟩
      · intro cell hcell
        have hsame := hagree cell hcell
        cases cell with
        | worker other =>
          show (tables.bind event).workerTidState other =
            (tables'.bind event).workerTidState other
          have hother : tables.workerTidState other = tables'.workerTidState other := hsame
          rw [bind_worker hevent, bind_worker hevent, hother]
        | tid other =>
          have hbindings : (tables.bind event).tidBindings other =
              (tables'.bind event).tidBindings other := by
            have hother : tables.tidBindings other = tables'.tidBindings other :=
              congrArg Prod.fst hsame
            have hself : tables.tidBindings tid = tables'.tidBindings tid :=
              congrArg Prod.fst htid
            rw [bind_bindings hevent, bind_bindings hevent, hother, hself]
          have hgaps : (tables.bind event).tidHandoffGaps other =
              (tables'.bind event).tidHandoffGaps other := by
            have hother : tables.tidHandoffGaps other = tables'.tidHandoffGaps other :=
              congrArg Prod.snd hsame
            cases hstate : tables.workerTidState workerId with
            | none =>
              rw [bind_gaps_none hevent hstate,
                bind_gaps_none hevent (hworker.symm.trans hstate), hother]
            | some state =>
              rw [bind_gaps_some hevent hstate,
                bind_gaps_some hevent (hworker.symm.trans hstate), hother]
          exact Prod.ext hbindings hgaps
      · simp only [foot, hevent, Option.mem_def, Option.some.injEq, exists_eq_left', hworker]

end TidTables

/-! ## Polls -/

/-- What the second pass keeps, by worker and by task. -/
inductive PollCell where
  | worker (workerId : Nat)
  | task (taskId : Nat)

def PollCell.Val : PollCell → Type
  | .worker _ => Option OpenPoll
  | .task _ => TaskState × Option Nat

variable {cell : PollCell}

namespace Reconstructor

variable {r r' : Reconstructor} {F : PollCell → Prop}

def get (r : Reconstructor) : ∀ cell : PollCell, cell.Val
  | .worker workerId => r.openByWorker workerId
  | .task taskId => (r.tasks taskId, r.openWorkerByTask taskId)

/-- The cells of a close: the worker, and the task of the poll open on it. -/
def closeFoot (r : Reconstructor) (workerId : Nat) (cell : PollCell) : Prop :=
  cell = .worker workerId ∨ ∃ poll ∈ r.openByWorker workerId, cell = .task poll.taskId

def foot (r : Reconstructor) (event : TraceEvent) (cell : PollCell) : Prop :=
  match event with
  | .taskSpawn event => cell = .task event.taskId
  | .taskTerminate _ taskId => cell = .task taskId
  | .wake event =>
    cell = .task event.wokenTaskId ∨
      ∃ workerId ∈ r.openWorkerByTask event.wokenTaskId, cell = .worker workerId
  | .pollStart event =>
    r.closeFoot event.workerId cell ∨ cell = .task event.taskId ∨
      ∃ other ∈ r.openWorkerByTask event.taskId, r.closeFoot other cell
  | .pollEnd _ workerId => r.closeFoot workerId cell
  | .workerPark _ workerId _ => r.closeFoot workerId cell
  | .workerUnpark _ workerId _ => r.closeFoot workerId cell
  | .cpuSample _ => False

/-- What a close puts out: the record of the poll, or none for an unproven end. -/
def closeOut (r : Reconstructor) (workerId stop : Nat) (reason : CloseReason) :
    List (Option PollRecord) :=
  match r.openByWorker workerId with
  | none => []
  | some poll => [if reason = .unproven then none else some (OpenPoll.record poll stop)]

def otherOut (r : Reconstructor) (event : PollStart) : List (Option PollRecord) :=
  match r.openWorkerByTask event.taskId with
  | none => []
  | some other =>
    if other ≠ event.workerId then r.closeOut other event.timestampNs .unproven else []

def out (r : Reconstructor) : TraceEvent → List (Option PollRecord)
  | .pollStart event =>
    r.closeOut event.workerId event.timestampNs .unproven ++
      (r.closePoll event.workerId event.timestampNs .unproven).otherOut event
  | .pollEnd timestampNs workerId => r.closeOut workerId timestampNs .explicit
  | .workerPark timestampNs workerId _ => r.closeOut workerId timestampNs .park
  | .workerUnpark timestampNs workerId _ => r.closeOut workerId timestampNs .unproven
  | _ => []

/-! ### One close -/

theorem closePoll_openByWorker (r : Reconstructor) (workerId stop : Nat) (reason : CloseReason)
    (other : Nat) :
    (r.closePoll workerId stop reason).openByWorker other =
      if other = workerId then none else r.openByWorker other := by
  unfold closePoll
  cases hopen : r.openByWorker workerId with
  | none =>
    by_cases heq : other = workerId
    · simp [heq, hopen]
    · simp [heq]
  | some poll =>
    cases reason <;> simp [Function.update_apply]

theorem closePoll_none (hopen : r.openByWorker workerId = none) :
    r.closePoll workerId stop reason = r := by
  unfold closePoll
  rw [hopen]

theorem closePoll_tasks {poll : OpenPoll} (hopen : r.openByWorker workerId = some poll)
    (taskId : Nat) :
    (r.closePoll workerId stop reason).tasks taskId =
      if taskId = poll.taskId then closedTask (r.tasks taskId) poll stop reason
      else r.tasks taskId := by
  unfold closePoll
  rw [hopen]
  by_cases heq : taskId = poll.taskId
  · subst heq
    cases reason <;> simp
  · cases reason <;> simp [heq]

theorem closePoll_openWorkerByTask {poll : OpenPoll} (hopen : r.openByWorker workerId = some poll)
    (taskId : Nat) :
    (r.closePoll workerId stop reason).openWorkerByTask taskId =
      if taskId = poll.taskId then none else r.openWorkerByTask taskId := by
  unfold closePoll
  rw [hopen]
  cases reason <;> simp [Function.update_apply]

theorem get_task_eq (htasks : r.tasks taskId = r'.tasks taskId)
    (hworker : r.openWorkerByTask taskId = r'.openWorkerByTask taskId) :
    r.get (.task taskId) = r'.get (.task taskId) :=
  Prod.ext htasks hworker

theorem get_task_inj (h : r.get (.task taskId) = r'.get (.task taskId)) :
    r.tasks taskId = r'.tasks taskId ∧ r.openWorkerByTask taskId = r'.openWorkerByTask taskId :=
  ⟨congrArg Prod.fst h, congrArg Prod.snd h⟩

theorem closeFoot_congr (hopen : r.openByWorker workerId = r'.openByWorker workerId)
    (cell : PollCell) :
    r.closeFoot workerId cell ↔ r'.closeFoot workerId cell := by
  rw [closeFoot, closeFoot, hopen]

theorem closePoll_frame (h : ¬ r.closeFoot workerId cell) :
    (r.closePoll workerId stop reason).get cell = r.get cell := by
  cases cell with
  | worker other =>
    have hne : other ≠ workerId := by
      rintro rfl
      exact h (.inl rfl)
    exact (closePoll_openByWorker r workerId stop reason other).trans (if_neg hne)
  | task taskId =>
    cases hopen : r.openByWorker workerId with
    | none => rw [closePoll_none hopen]
    | some poll =>
      have hne : taskId ≠ poll.taskId := by
        rintro rfl
        exact h (.inr ⟨poll, hopen, rfl⟩)
      apply get_task_eq
      · exact (closePoll_tasks hopen taskId).trans (if_neg hne)
      · exact (closePoll_openWorkerByTask hopen taskId).trans (if_neg hne)

theorem closePoll_agree (stop : Nat) (reason : CloseReason)
    (hsub : ∀ cell, r.closeFoot workerId cell → F cell) (hagree : AgreeOn get F r r') :
    AgreeOn get F (r.closePoll workerId stop reason) (r'.closePoll workerId stop reason) ∧
      r.closeOut workerId stop reason = r'.closeOut workerId stop reason ∧
      r.openByWorker workerId = r'.openByWorker workerId := by
  have hopen : r.openByWorker workerId = r'.openByWorker workerId :=
    hagree (.worker workerId) (hsub _ (.inl rfl))
  refine ⟨?_, by rw [closeOut, closeOut, hopen], hopen⟩
  intro cell hcell
  have hsame := hagree cell hcell
  cases cell with
  | worker other =>
    have hother : r.openByWorker other = r'.openByWorker other := hsame
    show (r.closePoll workerId stop reason).openByWorker other =
      (r'.closePoll workerId stop reason).openByWorker other
    rw [closePoll_openByWorker, closePoll_openByWorker, hother]
  | task taskId =>
    cases hpoll : r.openByWorker workerId with
    | none =>
      rw [closePoll_none hpoll, closePoll_none (hopen.symm.trans hpoll)]
      exact hsame
    | some poll =>
      have hpoll' := hopen.symm.trans hpoll
      rcases get_task_inj hsame with ⟨htasks, hworker⟩
      apply get_task_eq
      · rw [closePoll_tasks hpoll, closePoll_tasks hpoll', htasks]
      · rw [closePoll_openWorkerByTask hpoll, closePoll_openWorkerByTask hpoll', hworker]

/-! ### The other events -/

theorem setTask_frame {state : TaskState} (h : cell ≠ .task taskId) :
    (r.setTask taskId state).get cell = r.get cell := by
  cases cell with
  | worker other => rfl
  | task other =>
    have hne : other ≠ taskId := by
      rintro rfl
      exact h rfl
    apply get_task_eq
    · simp [setTask, hne]
    · rfl

theorem setTask_agree {state : TaskState} (hagree : AgreeOn get F r r') :
    AgreeOn get F (r.setTask taskId state) (r'.setTask taskId state) := by
  intro cell hcell
  have hsame := hagree cell hcell
  cases cell with
  | worker other => exact hsame
  | task other =>
    rcases get_task_inj hsame with ⟨htasks, hworker⟩
    apply get_task_eq
    · simp only [setTask, Function.update_apply, htasks]
    · exact hworker

variable {event : PollStart}

theorem openPoll_frame (hworker : cell ≠ .worker event.workerId)
    (htask : cell ≠ .task event.taskId) :
    (r.openPoll event).get cell = r.get cell := by
  cases cell with
  | worker other =>
    have hne : other ≠ event.workerId := by
      rintro rfl
      exact hworker rfl
    show (r.openPoll event).openByWorker other = r.openByWorker other
    simp [openPoll, hne]
  | task other =>
    have hne : other ≠ event.taskId := by
      rintro rfl
      exact htask rfl
    apply get_task_eq
    · simp [openPoll, hne]
    · simp [openPoll, hne]

theorem openPoll_agree (htask : F (.task event.taskId)) (hagree : AgreeOn get F r r') :
    AgreeOn get F (r.openPoll event) (r'.openPoll event) := by
  have hstate : r.tasks event.taskId = r'.tasks event.taskId :=
    congrArg Prod.fst (hagree _ htask)
  intro cell hcell
  have hsame := hagree cell hcell
  cases cell with
  | worker other =>
    have hopen : r.openByWorker other = r'.openByWorker other := hsame
    show (r.openPoll event).openByWorker other = (r'.openPoll event).openByWorker other
    simp only [openPoll, Function.update_apply, hstate, hopen]
  | task other =>
    rcases get_task_inj hsame with ⟨htasks, hworker⟩
    apply get_task_eq
    · simp only [openPoll, Function.update_apply, hstate, htasks]
    · simp only [openPoll, Function.update_apply, hworker]

theorem wake_frame {event : WakeEvent} (h : ¬ r.foot (.wake event) cell) :
    (r.wake event).get cell = r.get cell := by
  have htask : cell ≠ .task event.wokenTaskId := fun heq => h (.inl heq)
  unfold wake
  simp only
  split
  · rfl
  · split
    · split
      · rfl
      · next workerId hworker =>
          split
          · rfl
          · cases cell with
            | task taskId => rfl
            | worker other =>
              have hne : other ≠ workerId := by
                rintro rfl
                exact h (.inr ⟨other, hworker, rfl⟩)
              exact Function.update_of_ne hne _ r.openByWorker
    · exact setTask_frame htask

theorem wake_agree {event : WakeEvent} (hsub : ∀ cell, r.foot (.wake event) cell → F cell)
    (hagree : AgreeOn get F r r') : AgreeOn get F (r.wake event) (r'.wake event) := by
  rcases get_task_inj (hagree (.task event.wokenTaskId) (hsub _ (.inl rfl)))
    with ⟨hstate, hworkers⟩
  unfold wake
  rw [← hstate, ← hworkers]
  simp only
  split
  · exact hagree
  · split
    · cases hworker : r.openWorkerByTask event.wokenTaskId with
      | none => exact hagree
      | some workerId =>
        have hopen : r.openByWorker workerId = r'.openByWorker workerId :=
          hagree (.worker workerId) (hsub _ (.inr ⟨workerId, hworker, rfl⟩))
        simp only [← hopen]
        cases r.openByWorker workerId with
        | none => exact hagree
        | some poll =>
          intro cell hcell
          have hsame := hagree cell hcell
          cases cell with
          | task taskId => exact hsame
          | worker other =>
            have hother : r.openByWorker other = r'.openByWorker other := hsame
            show Function.update r.openByWorker workerId _ other =
              Function.update r'.openByWorker workerId _ other
            simp only [Function.update_apply, hother]
    · exact setTask_agree hagree

theorem closeOther_frame (h : ∀ other ∈ r.openWorkerByTask event.taskId, ¬ r.closeFoot other cell) :
    (r.closeOther event).get cell = r.get cell := by
  unfold closeOther
  split
  · rfl
  · next other hother =>
      split
      · exact closePoll_frame (h other hother)
      · rfl

theorem closeOther_agree (htask : F (.task event.taskId))
    (hsub : ∀ other ∈ r.openWorkerByTask event.taskId, ∀ cell, r.closeFoot other cell → F cell)
    (hagree : AgreeOn get F r r') :
    AgreeOn get F (r.closeOther event) (r'.closeOther event) ∧
      r.otherOut event = r'.otherOut event := by
  have hworkers := (get_task_inj (hagree _ htask)).2
  unfold closeOther otherOut
  rw [← hworkers]
  cases hother : r.openWorkerByTask event.taskId with
  | none => exact ⟨hagree, rfl⟩
  | some other =>
    have hclose := closePoll_agree event.timestampNs .unproven (hsub other hother) hagree
    simp only
    split
    · exact ⟨hclose.1, hclose.2.1⟩
    · exact ⟨hagree, rfl⟩

theorem closeFoot_closePoll {workerId stop other : Nat}
    (h : (r.closePoll workerId stop reason).closeFoot other cell) : r.closeFoot other cell := by
  rcases h with hworker | ⟨poll, hopen, htask⟩
  · exact .inl hworker
  · rw [Option.mem_def, closePoll_openByWorker] at hopen
    split at hopen
    · cases hopen
    · exact .inr ⟨poll, hopen, htask⟩

theorem openWorkerByTask_closePoll {workerId stop taskId other : Nat}
    (h : (r.closePoll workerId stop reason).openWorkerByTask taskId = some other) :
    r.openWorkerByTask taskId = some other := by
  cases hopen : r.openByWorker workerId with
  | none => rwa [closePoll_none hopen] at h
  | some poll =>
    rw [closePoll_openWorkerByTask hopen] at h
    split at h
    · cases h
    · exact h

theorem pollStart_frame (h : ¬ r.foot (.pollStart event) cell) :
    (r.pollStart event).get cell = r.get cell := by
  have hclose : ¬ r.closeFoot event.workerId cell := fun hfoot => h (.inl hfoot)
  have hworker : cell ≠ .worker event.workerId := fun heq => hclose (.inl heq)
  have htask : cell ≠ .task event.taskId := fun heq => h (.inr (.inl heq))
  rw [pollStart, openPoll_frame hworker htask, closeOther_frame, closePoll_frame hclose]
  intro other hother hfoot
  exact h (.inr (.inr
    ⟨other, openWorkerByTask_closePoll hother, closeFoot_closePoll hfoot⟩))

theorem pollStart_agree (hsub : ∀ cell, r.foot (.pollStart event) cell → F cell)
    (hagree : AgreeOn get F r r') :
    AgreeOn get F (r.pollStart event) (r'.pollStart event) ∧
      r.out (.pollStart event) = r'.out (.pollStart event) := by
  have htask : F (.task event.taskId) := hsub _ (.inr (.inl rfl))
  have hclose := closePoll_agree event.timestampNs .unproven
    (fun cell hcell => hsub cell (.inl hcell)) hagree
  have hother := closeOther_agree htask (fun other hother cell hcell => hsub cell (.inr (.inr
    ⟨other, openWorkerByTask_closePoll hother, closeFoot_closePoll hcell⟩))) hclose.1
  refine ⟨openPoll_agree htask hother.1, ?_⟩
  rw [out, out, hclose.2.1, hother.2]

/-- The second pass is local. -/
theorem isLocal : IsLocal get consume out foot where
  frame := by
    intro r event cell h
    cases event with
    | taskSpawn _ | taskTerminate _ _ => exact setTask_frame h
    | wake event => exact wake_frame h
    | pollStart event => exact pollStart_frame h
    | pollEnd _ _ | workerPark _ _ _ | workerUnpark _ _ _ => exact closePoll_frame h
    | cpuSample event => rfl
  local' := by
    intro F r r' event hsub hagree
    cases event with
    | taskSpawn event => exact ⟨setTask_agree hagree, rfl, fun _ => Iff.rfl⟩
    | taskTerminate timestampNs taskId =>
      have hstate := (get_task_inj (hagree (.task taskId) (hsub _ rfl))).1
      refine ⟨?_, rfl, fun _ => Iff.rfl⟩
      show AgreeOn get F (r.taskTerminate taskId) (r'.taskTerminate taskId)
      rw [taskTerminate, taskTerminate, hstate]
      exact setTask_agree hagree
    | wake event =>
      have hworkers :=
        (get_task_inj (hagree (.task event.wokenTaskId) (hsub _ (.inl rfl)))).2
      refine ⟨wake_agree hsub hagree, rfl, fun cell => ?_⟩
      rw [foot, foot, hworkers]
    | pollStart event =>
      have hstart := pollStart_agree hsub hagree
      have hworkers := (get_task_inj (hagree (.task event.taskId) (hsub _ (.inr (.inl rfl))))).2
      have hopen : r.openByWorker event.workerId = r'.openByWorker event.workerId :=
        hagree (.worker event.workerId) (hsub _ (.inl (.inl rfl)))
      refine ⟨hstart.1, hstart.2, fun cell => ?_⟩
      simp only [foot, closeFoot_congr hopen, ← hworkers]
      have hothers : ∀ other ∈ r.openWorkerByTask event.taskId,
          (r.closeFoot other cell ↔ r'.closeFoot other cell) := fun other hother =>
        closeFoot_congr (hagree (.worker other)
          (hsub _ (.inr (.inr ⟨other, hother, .inl rfl⟩)))) cell
      have hiff : (∃ other ∈ r.openWorkerByTask event.taskId, r.closeFoot other cell) ↔
          ∃ other ∈ r.openWorkerByTask event.taskId, r'.closeFoot other cell := by
        constructor
        · rintro ⟨other, hother, hfoot⟩
          exact ⟨other, hother, (hothers other hother).mp hfoot⟩
        · rintro ⟨other, hother, hfoot⟩
          exact ⟨other, hother, (hothers other hother).mpr hfoot⟩
      rw [hiff]
    | pollEnd timestampNs workerId =>
      have hclose := closePoll_agree timestampNs .explicit hsub hagree
      exact ⟨hclose.1, hclose.2.1, closeFoot_congr hclose.2.2⟩
    | workerPark timestampNs workerId tid =>
      have hclose := closePoll_agree timestampNs .park hsub hagree
      exact ⟨hclose.1, hclose.2.1, closeFoot_congr hclose.2.2⟩
    | workerUnpark timestampNs workerId tid =>
      have hclose := closePoll_agree timestampNs .unproven hsub hagree
      exact ⟨hclose.1, hclose.2.1, closeFoot_congr hclose.2.2⟩
    | cpuSample event => exact ⟨hagree, rfl, fun _ => Iff.rfl⟩

/-! ### What is put out -/

/-- The records and the count are what the passes put out. -/
structure Puts (r next : Reconstructor) (emitted : List (Option PollRecord)) : Prop where
  records : next.records = r.records ++ emitted.reduceOption
  endUnproven : next.endUnproven = r.endUnproven + emitted.count none

theorem Puts.refl (r : Reconstructor) : Puts r r [] := ⟨by simp, rfl⟩

theorem Puts.trans {next last : Reconstructor} {emitted later : List (Option PollRecord)}
    (h : Puts r next emitted) (h' : Puts next last later) : Puts r last (emitted ++ later) where
  records := by rw [h'.records, h.records, List.reduceOption_append, List.append_assoc]
  endUnproven := by rw [h'.endUnproven, h.endUnproven, List.count_append, Nat.add_assoc]

theorem puts_closePoll (r : Reconstructor) (workerId stop : Nat) (reason : CloseReason) :
    Puts r (r.closePoll workerId stop reason) (r.closeOut workerId stop reason) := by
  unfold closePoll closeOut
  cases r.openByWorker workerId with
  | none => exact Puts.refl r
  | some poll =>
    cases reason with
    | explicit | park => exact ⟨rfl, rfl⟩
    | unproven => exact ⟨(List.append_nil _).symm, rfl⟩

theorem puts_closeOther (r : Reconstructor) (event : PollStart) :
    Puts r (r.closeOther event) (r.otherOut event) := by
  unfold closeOther otherOut
  cases r.openWorkerByTask event.taskId with
  | none => exact Puts.refl r
  | some other =>
    simp only
    split
    · exact puts_closePoll r other event.timestampNs .unproven
    · exact Puts.refl r

theorem puts_wake (r : Reconstructor) (event : WakeEvent) : Puts r (r.wake event) [] := by
  unfold wake
  simp only
  split
  · exact Puts.refl r
  · split
    · split
      · exact Puts.refl r
      · split
        · exact Puts.refl r
        · exact ⟨(List.append_nil _).symm, rfl⟩
    · exact ⟨(List.append_nil _).symm, rfl⟩

theorem puts_consume (r : Reconstructor) (event : TraceEvent) :
    Puts r (r.consume event) (r.out event) := by
  cases event with
  | taskSpawn _ | taskTerminate _ _ => exact ⟨(List.append_nil _).symm, rfl⟩
  | wake event => exact puts_wake r event
  | pollStart event =>
    have hclose := puts_closePoll r event.workerId event.timestampNs .unproven
    have hother := puts_closeOther
      (r.closePoll event.workerId event.timestampNs .unproven) event
    have hboth := hclose.trans hother
    exact ⟨hboth.records, hboth.endUnproven⟩
  | pollEnd timestampNs workerId => exact puts_closePoll r workerId timestampNs .explicit
  | workerPark timestampNs workerId tid => exact puts_closePoll r workerId timestampNs .park
  | workerUnpark timestampNs workerId tid => exact puts_closePoll r workerId timestampNs .unproven
  | cpuSample event => exact Puts.refl r

theorem puts_foldl (r : Reconstructor) (events : List TraceEvent) :
    Puts r (events.foldl consume r) (outputs consume out r events) := by
  induction events generalizing r with
  | nil => exact Puts.refl r
  | cons event events ih => exact (puts_consume r event).trans (ih (r.consume event))

end Reconstructor

/-! ## The timeline -/

/-- The order in which the events were recorded, within each time. -/
def inRecordedOrder (events : List TraceEvent) : List TraceEvent :=
  events.insertionSort fun a b => a.timestampNs ≤ b.timestampNs

/-- An arrangement that the sort of the events may produce. -/
structure Arranges (events arranged : List TraceEvent) : Prop where
  perm : arranged.Perm events
  sorted : arranged.Pairwise fun a b => a.timestampNs ≤ b.timestampNs

/-- No two events of one time touch one worker, one thread or one task. -/
structure NoTies (events : List TraceEvent) : Prop where
  tids : Untied TraceEvent.timestampNs TidTables.bind TidTables.foot .empty
    (inRecordedOrder events)
  polls : Untied TraceEvent.timestampNs Reconstructor.consume Reconstructor.foot .empty
    (inRecordedOrder events)

namespace PollTimeline

/-- The same records, the same count, and the same worker for every thread at every time. -/
structure Agrees (timeline other : PollTimeline) : Prop where
  records : timeline.records.Perm other.records
  endUnproven : timeline.endUnproven = other.endUnproven
  worker :
    ∀ tid timestamp, timeline.workerForTidAt tid timestamp = other.workerForTidAt tid timestamp

theorem arranges_inRecordedOrder (events : List TraceEvent) :
    Arranges events (inRecordedOrder events) where
  perm := List.perm_insertionSort _ events
  sorted := List.pairwise_insertionSort _ events

theorem workerForTidAt_congr {timeline other : PollTimeline}
    (hbindings : timeline.tidBindings tid = other.tidBindings tid)
    (hgaps : timeline.tidHandoffGaps tid = other.tidHandoffGaps tid) :
    timeline.workerForTidAt tid timestamp = other.workerForTidAt tid timestamp := by
  unfold workerForTidAt tidIsInHandoffGap
  rw [hbindings, hgaps]

/-- Where no tied events touch anything both, every arrangement of the ties has
one result. -/
theorem reconstruct_arranged {events arranged : List TraceEvent} (hties : NoTies events)
    (harranged : Arranges events arranged)
    {sortRecords sortRecords' : List PollRecord → List PollRecord}
    (hsort : ∀ records, (sortRecords records).Perm records)
    (hsort' : ∀ records, (sortRecords' records).Perm records) :
    Agrees (reconstruct sortRecords arranged)
      (reconstruct sortRecords' (inRecordedOrder events)) := by
  have hrecorded := arranges_inRecordedOrder events
  have hperm := hrecorded.perm.trans harranged.perm.symm
  have htids := TidTables.isLocal.sorted_perm (fun _ => rfl) hperm hrecorded.sorted
    harranged.sorted hties.tids
  have hpolls := Reconstructor.isLocal.sorted_perm (fun _ => rfl) hperm hrecorded.sorted
    harranged.sorted hties.polls
  have hputs := Reconstructor.puts_foldl .empty (inRecordedOrder events)
  have hputs' := Reconstructor.puts_foldl .empty arranged
  refine ⟨?_, ?_, ?_⟩
  · apply (hsort _).trans
    rw [hputs'.records]
    apply List.Perm.trans _ (hsort' _).symm
    rw [hputs.records]
    exact ((hpolls.2.filterMap id).symm).append_left _
  · show (arranged.foldl Reconstructor.consume .empty).endUnproven =
      ((inRecordedOrder events).foldl Reconstructor.consume .empty).endUnproven
    rw [hputs'.endUnproven, hputs.endUnproven, hpolls.2.count_eq]
  · intro tid timestamp
    have htables : ((inRecordedOrder events).foldl TidTables.bind .empty).get (.tid tid) =
        (arranged.foldl TidTables.bind .empty).get (.tid tid) := htids.1 (.tid tid)
    have hbindings : ((inRecordedOrder events).foldl TidTables.bind .empty).tidBindings tid =
        (arranged.foldl TidTables.bind .empty).tidBindings tid := congrArg Prod.fst htables
    have hgaps : ((inRecordedOrder events).foldl TidTables.bind .empty).tidHandoffGaps tid =
        (arranged.foldl TidTables.bind .empty).tidHandoffGaps tid := congrArg Prod.snd htables
    apply workerForTidAt_congr hbindings.symm
    exact congrArg mergeIntervals hgaps.symm

/-! ### An end and a start on one worker -/

/-- A sort of the records by start. -/
def sortByStart (records : List PollRecord) : List PollRecord :=
  records.insertionSort fun a b => a.start ≤ b.start

/-- A poll that ends when the next one starts. -/
def backToBack : List TraceEvent :=
  [.pollStart ⟨10, 1, 7, none, none⟩, .pollEnd 20 1, .pollStart ⟨20, 1, 8, none, none⟩,
    .pollEnd 30 1]

/-- The same events, with the start before the end. -/
def backToBackSwapped : List TraceEvent :=
  [.pollStart ⟨10, 1, 7, none, none⟩, .pollStart ⟨20, 1, 8, none, none⟩, .pollEnd 20 1,
    .pollEnd 30 1]

/-- The first poll is lost, and the second one ends where it starts. -/
theorem backToBack_disagrees :
    Arranges backToBack backToBackSwapped ∧
      (reconstruct sortByStart backToBackSwapped).endUnproven = 1 ∧
      (reconstruct sortByStart (inRecordedOrder backToBack)).endUnproven = 0 ∧
      ¬ Agrees (reconstruct sortByStart backToBackSwapped)
        (reconstruct sortByStart (inRecordedOrder backToBack)) := by
  have hswapped : (reconstruct sortByStart backToBackSwapped).endUnproven = 1 := by
    decide
  have hrecorded :
      (reconstruct sortByStart (inRecordedOrder backToBack)).endUnproven = 0 := by
    decide
  refine ⟨⟨by decide, by decide⟩, hswapped, hrecorded, ?_⟩
  intro hagrees
  have heq := hagrees.endUnproven
  rw [hswapped, hrecorded] at heq
  cases heq

/-- Polls that end at one time on two workers. -/
def sideBySide : List TraceEvent :=
  [.pollStart ⟨10, 1, 7, none, none⟩, .pollStart ⟨11, 2, 8, none, none⟩, .pollEnd 20 1,
    .pollEnd 20 2]

theorem noTies_sideBySide : NoTies sideBySide := by
  have hrecorded : inRecordedOrder sideBySide = sideBySide := by decide
  constructor
  · rw [hrecorded]
    intro t
    apply List.pairwise_of_forall_mem_list
    intro a ha b _ cell hcell
    rcases hcell with ⟨bound, hbound, -⟩
    have hnone : ∀ event ∈ sideBySide, binding event = none := by decide
    rw [hnone a (List.mem_filter.mp ha).1] at hbound
    cases hbound
  · rw [hrecorded, untied_iff_mem]
    intro t ht
    have htimes : t = 10 ∨ t = 11 ∨ t = 20 := by
      simpa [sideBySide, TraceEvent.timestampNs] using ht
    rcases htimes with rfl | rfl | rfl
    · exact List.pairwise_singleton _ _
    · exact List.pairwise_singleton _ _
    · apply List.pairwise_pair.mpr
      have hone : ∀ poll ∈ ((sideBySide.filter fun e => decide (e.timestampNs < 20)).foldl
          Reconstructor.consume .empty).openByWorker 1, poll.taskId = 7 := by
        decide
      have htwo : ∀ poll ∈ ((sideBySide.filter fun e => decide (e.timestampNs < 20)).foldl
          Reconstructor.consume .empty).openByWorker 2, poll.taskId = 8 := by
        decide
      rintro cell (rfl | ⟨poll, hpoll, rfl⟩) (heq | ⟨poll', hpoll', heq⟩)
      · cases heq
      · cases heq
      · cases heq
      · have htask : poll.taskId = poll'.taskId := PollCell.task.inj heq
        rw [hone poll hpoll, htwo poll' hpoll'] at htask
        cases htask

/-- Either order of the two ends gives one timeline. -/
theorem reconstruct_arranged_sideBySide :
    Agrees (reconstruct sortByStart [.pollStart ⟨10, 1, 7, none, none⟩,
        .pollStart ⟨11, 2, 8, none, none⟩, .pollEnd 20 2, .pollEnd 20 1])
      (reconstruct sortByStart (inRecordedOrder sideBySide)) :=
  reconstruct_arranged noTies_sideBySide ⟨by decide, by decide⟩
    (List.perm_insertionSort _) (List.perm_insertionSort _)

end PollTimeline

end Dial9.Viewer.Polls
