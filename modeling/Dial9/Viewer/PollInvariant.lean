/-
# Open polls and emitted ones

The reconstructor keeps three maps in step while polls open and close. What they
say of the open polls is a ledger: who is open where, which tasks are flagged,
what was emitted and what was given up. Every event is a move of the ledger, and
the moves keep it true to the events read so far.
-/

import Dial9.Viewer.Ties
import Mathlib.Data.Finset.Insert
import Mathlib.Data.Finset.Card

namespace Dial9.Viewer.Polls

/-! ## What events say -/

/-- The last spawn or poll start of the task is a poll start. -/
def startedLast (taskId : Nat) : List TraceEvent → Bool :=
  List.foldl (fun started event =>
    match event with
    | .taskSpawn spawn => if spawn.taskId = taskId then false else started
    | .pollStart start => if start.taskId = taskId then true else started
    | _ => started) false

def TraceEvent.isPollStart : TraceEvent → Bool
  | .pollStart _ => true
  | _ => false

/-- The event bounds the polls of the worker. -/
def TraceEvent.Ends (event : TraceEvent) (workerId stop : Nat) : Prop :=
  event = .pollEnd stop workerId ∨ ∃ tid, event = .workerPark stop workerId tid

def Starts (events : List TraceEvent) (workerId taskId start : Nat) : Prop :=
  ∃ event : PollStart, .pollStart event ∈ events ∧ event.workerId = workerId ∧
    event.taskId = taskId ∧ event.timestampNs = start

/-- The record runs from a poll start to an event that bounds the poll. -/
structure Recorded (events : List TraceEvent) (record : PollRecord) : Prop where
  start : Starts events record.workerId record.taskId record.start
  stop : ∃ event ∈ events, event.Ends record.workerId record.stop
  forward : record.start ≤ record.stop

/-- Of one worker or of one task, the second starts when the first is over. -/
def Apart (a b : PollRecord) : Prop :=
  a.workerId = b.workerId ∨ a.taskId = b.taskId → a.stop ≤ b.start

variable {events : List TraceEvent}

theorem Starts.append {workerId taskId start : Nat} (h : Starts events workerId taskId start)
    (event : TraceEvent) : Starts (events ++ [event]) workerId taskId start := by
  obtain ⟨first, hmem, hfirst⟩ := h
  exact ⟨first, List.mem_append_left _ hmem, hfirst⟩

theorem Recorded.append {record : PollRecord} (h : Recorded events record) (event : TraceEvent) :
    Recorded (events ++ [event]) record := by
  obtain ⟨last, hmem, hlast⟩ := h.stop
  exact ⟨h.start.append event, ⟨last, List.mem_append_left _ hmem, hlast⟩, h.forward⟩

theorem Starts.le {workerId taskId start time : Nat} (h : Starts events workerId taskId start)
    (htime : ∀ event ∈ events, event.timestampNs ≤ time) : start ≤ time := by
  obtain ⟨event, hmem, -, -, rfl⟩ := h
  exact htime _ hmem

variable {workerId taskId time stop : Nat}

theorem Recorded.le {record : PollRecord} (h : Recorded events record)
    (htime : ∀ event ∈ events, event.timestampNs ≤ time) : record.stop ≤ time := by
  obtain ⟨event, hmem, hends⟩ := h.stop
  rcases hends with rfl | ⟨tid, rfl⟩ <;> exact htime _ hmem

/-! ## The ledger -/

/-- By worker, the worker, task and start of its open poll; by task, the worker it is open on. -/
structure Ledger where
  opened : Nat → Option (Nat × Nat × Nat)
  byTask : Nat → Option Nat
  polling : Nat → Bool
  records : List PollRecord
  unproven : Nat

namespace Ledger

def close (l : Ledger) (workerId taskId : Nat) (record : Option PollRecord) : Ledger where
  opened := Function.update l.opened workerId none
  byTask := Function.update l.byTask taskId none
  polling := Function.update l.polling taskId false
  records := l.records ++ record.toList
  unproven := if record = none then l.unproven + 1 else l.unproven

def start (l : Ledger) (workerId taskId time : Nat) : Ledger :=
  { l with
    opened := Function.update l.opened workerId (some (workerId, taskId, time))
    byTask := Function.update l.byTask taskId (some workerId)
    polling := Function.update l.polling taskId true }

/-- The ledger is true to the events. -/
structure Sound (events : List TraceEvent) (l : Ledger) : Prop where
  inverse : ∀ workerId taskId, l.byTask taskId = some workerId ↔
    ∃ time, l.opened workerId = some (workerId, taskId, time)
  started : ∀ workerId key, l.opened workerId = some key →
    key.1 = workerId ∧ Starts events workerId key.2.1 key.2.2
  polling : ∀ taskId, l.polling taskId = true ↔
    l.byTask taskId ≠ none ∧ startedLast taskId events = true
  recorded : ∀ record ∈ l.records, Recorded events record
  apart : l.records.Pairwise Apart
  ahead : ∀ workerId key, l.opened workerId = some key → ∀ record ∈ l.records,
    record.workerId = workerId ∨ record.taskId = key.2.1 → record.stop ≤ key.2.2
  counted : ∃ workers : Finset Nat, (∀ workerId, workerId ∈ workers ↔ l.opened workerId ≠ none) ∧
    events.countP TraceEvent.isPollStart = l.records.length + l.unproven + workers.card

variable {l : Ledger}

theorem sound_empty : Sound [] ⟨fun _ => none, fun _ => none, fun _ => false, [], 0⟩ where
  inverse := by simp
  started := by simp
  polling := by simp
  recorded := by simp
  apart := List.Pairwise.nil
  ahead := by simp
  counted := ⟨∅, by simp, rfl⟩

section

variable (h : Sound events l)
include h

theorem Sound.extend (event : TraceEvent)
    (hlast : ∀ taskId, startedLast taskId (events ++ [event]) = startedLast taskId events)
    (hstart : event.isPollStart = false) : Sound (events ++ [event]) l where
  inverse := h.inverse
  started := fun workerId key hkey =>
    ⟨(h.started workerId key hkey).1, (h.started workerId key hkey).2.append event⟩
  polling := fun taskId => by rw [hlast, h.polling]
  recorded := fun record hrecord => (h.recorded record hrecord).append event
  apart := h.apart
  ahead := h.ahead
  counted := by
    obtain ⟨workers, hworkers, hcount⟩ := h.counted
    refine ⟨workers, hworkers, ?_⟩
    rw [List.countP_append, hcount, List.countP_singleton, hstart]
    rfl

theorem Sound.spawn (spawn : TaskSpawn) :
    Sound (events ++ [.taskSpawn spawn])
      { l with polling := Function.update l.polling spawn.taskId false } where
  inverse := h.inverse
  started := fun workerId key hkey =>
    ⟨(h.started workerId key hkey).1, (h.started workerId key hkey).2.append _⟩
  polling := by
    intro taskId
    rw [startedLast, List.foldl_append, ← startedLast]
    by_cases htask : spawn.taskId = taskId
    · subst htask
      simp
    · simpa [htask, Function.update_of_ne (Ne.symm htask)] using h.polling taskId
  recorded := fun record hrecord => (h.recorded record hrecord).append _
  apart := h.apart
  ahead := h.ahead
  counted := by
    obtain ⟨workers, hworkers, hcount⟩ := h.counted
    refine ⟨workers, hworkers, ?_⟩
    rw [List.countP_append, hcount]
    rfl

theorem Sound.close
    (hopen : l.opened workerId = some (workerId, taskId, time)) {record : Option PollRecord}
    (hrecord : ∀ emitted ∈ record, emitted.workerId = workerId ∧ emitted.taskId = taskId ∧
      emitted.start = time ∧ Recorded events emitted) :
    Sound events (l.close workerId taskId record) := by
  have hkept : ∀ w key, (l.close workerId taskId record).opened w = some key →
      w ≠ workerId ∧ l.opened w = some key := by
    intro w key hkey
    simp only [Ledger.close, Function.update_apply] at hkey
    split at hkey
    · cases hkey
    · exact ⟨by assumption, hkey⟩
  refine ⟨?_, fun w key hkey => h.started w key (hkept w key hkey).2, ?_, ?_, ?_, ?_, ?_⟩
  · intro w t
    have hw := h.inverse w t
    have ht := h.inverse workerId t
    simp only [Ledger.close, Function.update_apply]
    grind
  · intro t
    have ht := h.polling t
    simp only [Ledger.close, Function.update_apply]
    split <;> simp_all
  · intro emitted hemitted
    rcases List.mem_append.mp hemitted with hold | hnew
    · exact h.recorded emitted hold
    · exact (hrecord emitted (Option.mem_toList.mp hnew)).2.2.2
  · refine List.pairwise_append.mpr ⟨h.apart, by cases record <;> simp, ?_⟩
    intro first hfirst second hsecond hshared
    obtain ⟨hworker, htask, hstart, -⟩ := hrecord second (Option.mem_toList.mp hsecond)
    rw [hworker, htask] at hshared
    rw [hstart]
    exact h.ahead workerId _ hopen first hfirst hshared
  · -- A poll that stays open is of another worker and another task.
    intro w key hkey emitted hemitted hshared
    obtain ⟨hne, hkey⟩ := hkept w key hkey
    rcases List.mem_append.mp hemitted with hold | hnew
    · exact h.ahead w key hkey emitted hold hshared
    · obtain ⟨hworker, htask, -, -⟩ := hrecord emitted (Option.mem_toList.mp hnew)
      have hown := (h.started w key hkey).1
      have hother := h.inverse w taskId
      have hthis := h.inverse workerId taskId
      grind
  · obtain ⟨workers, hworkers, hcount⟩ := h.counted
    have hmem : workerId ∈ workers := (hworkers workerId).mpr (by simp [hopen])
    have hcard := Finset.card_erase_add_one hmem
    refine ⟨workers.erase workerId, ?_, ?_⟩
    · intro w
      simp only [Finset.mem_erase, hworkers, Ledger.close, Function.update_apply]
      split <;> simp_all
    · rw [hcount, Ledger.close, List.length_append]
      cases record with
      | none =>
        simp only [Option.toList_none, List.length_nil, if_true]
        omega
      | some emitted =>
        simp only [Option.toList_some, List.length_singleton, reduceCtorEq, if_false]
        omega

theorem Sound.start {event : PollStart}
    (hworker : l.opened event.workerId = none) (htask : l.byTask event.taskId = none)
    (htime : ∀ earlier ∈ events, earlier.timestampNs ≤ event.timestampNs) :
    Sound (events ++ [.pollStart event])
      (l.start event.workerId event.taskId event.timestampNs) := by
  refine ⟨?_, ?_, ?_, fun record hrecord => (h.recorded record hrecord).append _, h.apart, ?_, ?_⟩
  · intro w t
    have hw := h.inverse w t
    simp only [Ledger.start, Function.update_apply]
    by_cases hwt : w = event.workerId
    · subst hwt
      by_cases ht : t = event.taskId
      · simp [ht]
      · simp [ht, Ne.symm ht, hw, hworker]
    · by_cases ht : t = event.taskId
      · subst ht
        simpa [hwt, Ne.symm hwt, htask] using hw
      · simpa [hwt, ht] using hw
  · intro w key hkey
    simp only [Ledger.start, Function.update_apply] at hkey
    split at hkey
    case isTrue hw =>
      cases hkey
      exact ⟨hw.symm, event, List.mem_append_right _ List.mem_cons_self, hw.symm, rfl, rfl⟩
    case isFalse =>
      exact ⟨(h.started w key hkey).1, (h.started w key hkey).2.append _⟩
  · intro t
    rw [startedLast, List.foldl_append, ← startedLast]
    by_cases ht : event.taskId = t
    · subst ht
      simp [Ledger.start]
    · simpa [Ledger.start, ht, Function.update_of_ne (Ne.symm ht)] using h.polling t
  · intro w key hkey record hrecord hshared
    simp only [Ledger.start, Function.update_apply] at hkey
    split at hkey
    case isTrue =>
      cases hkey
      exact (h.recorded record hrecord).le htime
    case isFalse => exact h.ahead w key hkey record hrecord hshared
  · obtain ⟨workers, hworkers, hcount⟩ := h.counted
    have hmem : event.workerId ∉ workers := fun hin => (hworkers _).mp hin hworker
    refine ⟨insert event.workerId workers, ?_, ?_⟩
    · intro w
      simp only [Finset.mem_insert, hworkers, Ledger.start, Function.update_apply]
      split <;> simp_all
    · rw [List.countP_append, hcount, Finset.card_insert_of_notMem hmem]
      rfl

end

end Ledger

/-! ## The handlers move the ledger -/

namespace Reconstructor

def opening (poll : OpenPoll) : Nat × Nat × Nat := (poll.workerId, poll.taskId, poll.start)

def ledger (r : Reconstructor) : Ledger where
  opened := Option.map opening ∘ r.openByWorker
  byTask := r.openWorkerByTask
  polling := TaskState.polling ∘ r.tasks
  records := r.records
  unproven := r.endUnproven

variable {r : Reconstructor}

theorem ledger_taskTerminate (taskId : Nat) : (r.taskTerminate taskId).ledger = r.ledger := by
  unfold ledger taskTerminate setTask
  rw [Function.comp_update]
  congr 1
  exact Function.update_eq_self taskId (TaskState.polling ∘ r.tasks)

theorem ledger_wake (event : WakeEvent) : (r.wake event).ledger = r.ledger := by
  unfold wake
  dsimp only
  split_ifs
  · rfl
  · split
    · rfl
    · split
      · rfl
      · rename_i workerId _ _ poll hpoll
        have hsame : Function.update (Option.map opening ∘ r.openByWorker) workerId
            (some (opening poll)) = Option.map opening ∘ r.openByWorker := by
          rw [Function.update_eq_self_iff, Function.comp_apply, hpoll]
          rfl
        unfold ledger
        rw [Function.comp_update]
        exact congrArg (Ledger.mk · _ _ _ _) hsame
  · unfold ledger setTask
    rw [Function.comp_update]
    congr 1
    exact Function.update_eq_self event.wokenTaskId (TaskState.polling ∘ r.tasks)

theorem ledger_closePoll {reason : CloseReason} {poll : OpenPoll}
    (hopen : r.openByWorker workerId = some poll) :
    (r.closePoll workerId stop reason).ledger = r.ledger.close workerId poll.taskId
      (if reason = .unproven then none else some (OpenPoll.record poll stop)) := by
  have hpolling (reason : CloseReason) :
      (closedTask (r.tasks poll.taskId) poll stop reason).polling = false := by
    unfold closedTask
    dsimp only
    split
    · split <;> rfl
    · rfl
  unfold closePoll
  rw [hopen]
  dsimp only
  split_ifs with hreason <;>
    simp [ledger, Ledger.close, Function.comp_update, hpolling, hreason]

theorem ledger_openPoll (event : PollStart) :
    (r.openPoll event).ledger = r.ledger.start event.workerId event.taskId event.timestampNs := by
  simp [ledger, openPoll, Ledger.start, Function.comp_update, opening]

section

variable (h : r.ledger.Sound events)
include h

theorem sound_closePoll {reason : CloseReason}
    (hreason : reason ≠ .unproven → ∃ event ∈ events, event.Ends workerId stop)
    (htime : ∀ event ∈ events, event.timestampNs ≤ stop) :
    (r.closePoll workerId stop reason).ledger.Sound events := by
  cases hopen : r.openByWorker workerId with
  | none => rwa [closePoll_none hopen]
  | some poll =>
    have hkey : r.ledger.opened workerId = some (opening poll) :=
      congrArg (Option.map opening) hopen
    obtain ⟨hworker, hstarts⟩ := h.started workerId _ hkey
    obtain rfl : poll.workerId = workerId := hworker
    rw [ledger_closePoll hopen]
    refine h.close hkey ?_
    intro emitted hemitted
    split_ifs at hemitted with hgiven
    · cases hemitted
    · cases hemitted
      exact ⟨rfl, rfl, rfl, hstarts, hreason hgiven, hstarts.le htime⟩

theorem sound_closeOther {event : PollStart} (hworker : r.openByWorker event.workerId = none)
    (htime : ∀ earlier ∈ events, earlier.timestampNs ≤ event.timestampNs) :
    (r.closeOther event).ledger.Sound events ∧
      (r.closeOther event).openByWorker event.workerId = none ∧
        (r.closeOther event).openWorkerByTask event.taskId = none := by
  unfold closeOther
  cases htask : r.openWorkerByTask event.taskId with
  | none => exact ⟨h, hworker, htask⟩
  | some other =>
    obtain ⟨time, hkey⟩ := (h.inverse other event.taskId).mp htask
    obtain ⟨poll, hopen, hpoll⟩ := Option.map_eq_some_iff.mp hkey
    have hne : other ≠ event.workerId := by
      rintro rfl
      rw [hworker] at hopen
      cases hopen
    dsimp only
    rw [if_pos hne]
    refine ⟨sound_closePoll h (absurd rfl) htime, ?_, ?_⟩
    · rw [closePoll_openByWorker, if_neg (Ne.symm hne), hworker]
    · have hsame : event.taskId = poll.taskId := (congrArg (·.2.1) hpoll).symm
      rw [closePoll_openWorkerByTask hopen, if_pos hsame]

theorem sound_pollStart (event : PollStart)
    (htime : ∀ earlier ∈ events, earlier.timestampNs ≤ event.timestampNs) :
    (r.pollStart event).ledger.Sound (events ++ [.pollStart event]) := by
  have hclosed : (r.closePoll event.workerId event.timestampNs .unproven).ledger.Sound events :=
    sound_closePoll h (absurd rfl) htime
  obtain ⟨hother, hworker, htask⟩ := sound_closeOther hclosed
    (by rw [closePoll_openByWorker, if_pos rfl]) htime
  rw [pollStart, ledger_openPoll]
  exact hother.start (congrArg (Option.map opening) hworker) htask htime

theorem sound_consume (event : TraceEvent)
    (htime : ∀ earlier ∈ events, earlier.timestampNs ≤ event.timestampNs) :
    (r.consume event).ledger.Sound (events ++ [event]) := by
  have hwithin : ∀ earlier ∈ events ++ [event], earlier.timestampNs ≤ event.timestampNs := by
    intro earlier hearlier
    rcases List.mem_append.mp hearlier with hold | hnew
    · exact htime earlier hold
    · rw [List.mem_singleton.mp hnew]
  have hlast : event ∈ events ++ [event] := List.mem_append_right _ List.mem_cons_self
  cases event with
  | taskSpawn spawn =>
    have hspawn := h.spawn spawn
    rwa [consume, taskSpawn, setTask, ledger, Function.comp_update]
  | taskTerminate timestampNs taskId =>
    rw [consume, ledger_taskTerminate]
    exact h.extend _ (fun _ => by simp [startedLast]) rfl
  | wake wakeEvent =>
    rw [consume, ledger_wake]
    exact h.extend _ (fun _ => by simp [startedLast]) rfl
  | cpuSample sample => exact h.extend _ (fun _ => by simp [startedLast]) rfl
  | pollStart start => exact sound_pollStart h start htime
  | pollEnd timestampNs workerId =>
    have hnext := h.extend (.pollEnd timestampNs workerId) (fun _ => by simp [startedLast]) rfl
    exact sound_closePoll hnext (fun _ => ⟨_, hlast, .inl rfl⟩) hwithin
  | workerPark timestampNs workerId tid =>
    have hnext := h.extend (.workerPark timestampNs workerId tid)
      (fun _ => by simp [startedLast]) rfl
    exact sound_closePoll hnext (fun _ => ⟨_, hlast, .inr ⟨tid, rfl⟩⟩) hwithin
  | workerUnpark timestampNs workerId tid =>
    have hnext := h.extend (.workerUnpark timestampNs workerId tid)
      (fun _ => by simp [startedLast]) rfl
    exact sound_closePoll hnext (absurd rfl) hwithin

end

/-- What holds of the reconstructor after any number of events. -/
structure InStep (events : List TraceEvent) (r : Reconstructor) : Prop where
  inverse : ∀ workerId taskId, r.openWorkerByTask taskId = some workerId ↔
    ∃ poll, r.openByWorker workerId = some poll ∧ poll.taskId = taskId
  polling : ∀ taskId, (r.tasks taskId).polling = true ↔
    (∃ workerId poll, r.openByWorker workerId = some poll ∧ poll.taskId = taskId) ∧
      startedLast taskId events = true
  recorded : ∀ record ∈ r.records, Recorded events record
  apart : r.records.Pairwise Apart
  counted : ∃ workers : Finset Nat,
    (∀ workerId, workerId ∈ workers ↔ r.openByWorker workerId ≠ none) ∧
      events.countP TraceEvent.isPollStart = r.records.length + r.endUnproven + workers.card

theorem sound_foldl (hsorted : events.Pairwise fun a b => a.timestampNs ≤ b.timestampNs) :
    (events.foldl consume .empty).ledger.Sound events := by
  induction events using List.reverseRecOn with
  | nil => exact Ledger.sound_empty
  | append_singleton events event ih =>
    obtain ⟨hearlier, -, htime⟩ := List.pairwise_append.mp hsorted
    rw [List.foldl_append]
    exact sound_consume (ih hearlier) event fun earlier hmem =>
      htime earlier hmem event List.mem_cons_self

theorem inStep_foldl (hsorted : events.Pairwise fun a b => a.timestampNs ≤ b.timestampNs) :
    InStep events (events.foldl consume .empty) := by
  have h := sound_foldl hsorted
  have hinverse : ∀ workerId taskId,
      (events.foldl consume .empty).openWorkerByTask taskId = some workerId ↔
        ∃ poll, (events.foldl consume .empty).openByWorker workerId = some poll ∧
          poll.taskId = taskId := by
    intro workerId taskId
    refine (h.inverse workerId taskId).trans ⟨?_, ?_⟩
    · rintro ⟨time, hkey⟩
      obtain ⟨poll, hopen, hpoll⟩ := Option.map_eq_some_iff.mp hkey
      exact ⟨poll, hopen, congrArg (·.2.1) hpoll⟩
    · rintro ⟨poll, hopen, rfl⟩
      have hkey := congrArg (Option.map opening) hopen
      have hworker : poll.workerId = workerId := (h.started workerId _ hkey).1
      exact ⟨poll.start, by rw [← hworker] at hkey ⊢; exact hkey⟩
  refine ⟨hinverse, ?_, h.recorded, h.apart, ?_⟩
  · intro taskId
    refine (h.polling taskId).trans (and_congr_left fun _ => ?_)
    rw [Option.ne_none_iff_exists']
    exact exists_congr fun workerId => hinverse workerId taskId
  · obtain ⟨workers, hworkers, hcount⟩ := h.counted
    refine ⟨workers, fun workerId => (hworkers workerId).trans ?_, hcount⟩
    exact not_congr Option.map_eq_none_iff

def migratedPoll : List TraceEvent :=
  [.pollStart ⟨1, 0, 7, none, none⟩, .pollEnd 2 0, .pollStart ⟨3, 1, 7, none, none⟩]

theorem inStep_foldl_migratedPoll : InStep migratedPoll (migratedPoll.foldl consume .empty) :=
  inStep_foldl (by decide)

/-- A spawn of a task with an open poll. -/
def spawnedMidPoll : List TraceEvent := [.pollStart ⟨1, 0, 7, none, none⟩, .taskSpawn ⟨2, 7, none⟩]

theorem spawnedMidPoll_unflagged :
    (spawnedMidPoll.foldl consume .empty).openWorkerByTask 7 = some 0 ∧
      ((spawnedMidPoll.foldl consume .empty).tasks 7).polling = false :=
  ⟨rfl, rfl⟩

end Reconstructor

end Dial9.Viewer.Polls
