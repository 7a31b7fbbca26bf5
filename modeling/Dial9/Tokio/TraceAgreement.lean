/-
# When a summary agrees with the detector

The detector forgets a start once it is paired. The summary keeps the time of a
worker's last start, and keeps the location of the last start that had one, so an
end that comes again and a location left over by a lost end are charged for time
that is not theirs. An end is described by what its worker did before it, and both
loops by what they charge for an end.
-/

import Dial9.Tokio.TraceAnalysis

namespace Dial9.Tokio.Analysis

/-! ## Ends of polls and what came before them -/

/-- The start or the end of a poll. -/
inductive Poll where
  | start (e : PollStartEvent)
  | stop (e : PollEndEvent)

def pollOf (worker : Nat) : Dial9Event → Option Poll
  | .pollStart e => if e.workerId = worker then some (.start e) else none
  | .pollEnd e => if e.workerId = worker then some (.stop e) else none
  | _ => none

/-- A worker's starts and ends in the events, which are the latest first, as these are. -/
def history (worker : Nat) (past : List Dial9Event) : List Poll := past.filterMap (pollOf worker)

/-- An end of a poll, with its worker's history. -/
structure Ending where
  past : List Poll
  stop : PollEndEvent

/-- The ends of the events after the past ones, which are the latest first. -/
def endingsFrom : (past events : List Dial9Event) → List Ending
  | _, [] => []
  | past, .pollEnd e :: rest =>
    ⟨history e.workerId past, e⟩ :: endingsFrom (.pollEnd e :: past) rest
  | past, event :: rest => endingsFrom (event :: past) rest

def endings (events : List Dial9Event) : List Ending := endingsFrom [] events

/-- The start that an end comes right after. -/
def opened : List Poll → Option PollStartEvent
  | .start e :: _ => some e
  | _ => none

def lastStart : List Poll → Option PollStartEvent
  | [] => none
  | .start e :: _ => some e
  | .stop _ :: rest => lastStart rest

/-- The last location that a start since the last end had. -/
def openLoc : List Poll → Option String
  | .start e :: rest => if e.spawnLoc = "" then openLoc rest else some e.spawnLoc
  | _ => none

namespace Ending

/-- From the worker's last start, ended before or not. -/
def elapsed (ending : Ending) : Nat :=
  (lastStart ending.past).elim 0 fun e => ending.stop.timestampNs - e.timestampNs

/-- The time of the poll that the end closes. -/
def paired (ending : Ending) : Nat :=
  if (opened ending.past).isSome then ending.elapsed else 0

/-- An end of a poll that was ended before. -/
def repeated (ending : Ending) : Nat :=
  if (opened ending.past).isSome then 0 else ending.elapsed

def pairedAt (loc : String) (ending : Ending) : Nat :=
  if (opened ending.past).any fun e => e.spawnLoc = loc then ending.elapsed else 0

/-- The poll has no location, and an earlier start since the last end had this one. -/
def misplacedAt (loc : String) (ending : Ending) : Nat :=
  if ((opened ending.past).any fun e => e.spawnLoc ≠ loc) ∧ openLoc ending.past = some loc then
    ending.elapsed
  else 0

end Ending

def sumOver (f : Ending → Nat) (endings : List Ending) : Nat := (endings.map f).sum

def byWorker (worker : Nat) (endings : List Ending) : List Ending :=
  endings.filter fun ending => ending.stop.workerId = worker

/-- The first and the last event have a time; else the summary is empty. -/
def Stamped (events : List Dial9Event) : Prop :=
  (events.head?.bind eventTimestamp).isSome ∧ (events.getLast?.bind eventTimestamp).isSome

/-- Each entry of the summary has the time that the detector finds, and what it finds has
entries. -/
structure Agrees (events : List Dial9Event) : Prop where
  workers : ∀ worker stats, (analyzeTrace events).workerStats worker = some stats →
    stats.totalPollTimeNs =
      (((detectLongPolls events 0).filter fun p => p.workerId = worker).map LongPoll.durationNs).sum
  locations : ∀ loc stats, loc ≠ "" → (analyzeTrace events).spawnLocationStats loc = some stats →
    stats.totalPollTimeNs =
      (((detectLongPolls events 0).filter fun p => p.spawnLoc = loc).map LongPoll.durationNs).sum
  listed : Stamped events → ∀ p ∈ detectLongPolls events 0,
    ((analyzeTrace events).workerStats p.workerId).isSome ∧
      (p.spawnLoc ≠ "" → ((analyzeTrace events).spawnLocationStats p.spawnLoc).isSome)

/-- No time is charged but that of polls, and it fits in 64 bits. -/
structure ChargedOnce (events : List Dial9Event) : Prop where
  workers : ∀ worker, sumOver Ending.paired (byWorker worker (endings events)) < 2 ^ 64 ∧
    sumOver Ending.repeated (byWorker worker (endings events)) % 2 ^ 64 = 0
  locations : ∀ loc, loc ≠ "" → sumOver (Ending.pairedAt loc) (endings events) < 2 ^ 64 ∧
    sumOver (Ending.misplacedAt loc) (endings events) % 2 ^ 64 = 0

variable {events : List Dial9Event} {past : List Dial9Event} {polls : List Poll} {tables : Tables}
  {detector : Detector} {worker : Nat} {loc : String} {ending : Ending}

variable {e : PollStartEvent}

theorem lastStart_of_opened (h : opened polls = some e) : lastStart polls = some e := by
  cases polls with
  | nil => cases h
  | cons poll rest =>
    cases poll with
    | start => exact h
    | stop => cases h

theorem openLoc_of_opened (h : opened polls = some e) (hloc : e.spawnLoc ≠ "") :
    openLoc polls = some e.spawnLoc := by
  cases polls with
  | nil => cases h
  | cons poll rest =>
    cases poll with
    | start =>
      cases h
      exact if_neg hloc
    | stop => cases h

theorem opened_of_openLoc (h : openLoc polls = some loc) : ∃ e, opened polls = some e := by
  cases polls with
  | nil => cases h
  | cons poll rest =>
    cases poll with
    | start e => exact ⟨e, rfl⟩
    | stop => cases h

theorem paired_add_repeated (ending : Ending) :
    ending.paired + ending.repeated = ending.elapsed := by
  rw [Ending.paired, Ending.repeated]
  split
  · exact Nat.add_zero _
  · exact Nat.zero_add _

theorem pairedAt_add_misplacedAt (hloc : loc ≠ "") (ending : Ending) :
    ending.pairedAt loc + ending.misplacedAt loc =
      if openLoc ending.past = some loc then ending.elapsed else 0 := by
  rw [Ending.pairedAt, Ending.misplacedAt]
  cases hopened : opened ending.past with
  | none =>
    have hnone : openLoc ending.past ≠ some loc := by
      intro hopen
      obtain ⟨e, he⟩ := opened_of_openLoc hopen
      cases hopened.symm.trans he
    simp [hnone]
  | some e =>
    by_cases hsame : e.spawnLoc = loc
    · have hopen : openLoc ending.past = some loc := by
        rw [openLoc_of_opened hopened (hsame.symm ▸ hloc), hsame]
      simp [hsame, hopen]
    · simp [hsame]

/-! ## Sums -/

theorem sumOver_cons (f : Ending → Nat) (ending : Ending) (rest : List Ending) :
    sumOver f (ending :: rest) = f ending + sumOver f rest :=
  List.sum_cons

theorem sumOver_byWorker_cons (f : Ending → Nat) (worker : Nat) (ending : Ending)
    (rest : List Ending) :
    sumOver f (byWorker worker (ending :: rest)) =
      (if ending.stop.workerId = worker then f ending else 0) +
        sumOver f (byWorker worker rest) := by
  rw [byWorker, List.filter_cons]
  by_cases hw : ending.stop.workerId = worker
  · rw [if_pos (decide_eq_true hw), if_pos hw]
    exact sumOver_cons f ending _
  · rw [if_neg fun h => hw (of_decide_eq_true h), if_neg hw, Nat.zero_add]
    rfl

theorem sumOver_add (f g : Ending → Nat) (endings : List Ending) :
    sumOver f endings + sumOver g endings =
      sumOver (fun ending => f ending + g ending) endings := by
  induction endings with
  | nil => rfl
  | cons ending rest ih =>
    rw [sumOver_cons, sumOver_cons, sumOver_cons, ← ih]
    exact Nat.add_add_add_comm ..

theorem sumOver_eq_zero {f : Ending → Nat} {endings : List Ending}
    (h : ∀ ending ∈ endings, f ending = 0) : sumOver f endings = 0 := by
  induction endings with
  | nil => rfl
  | cons ending rest ih =>
    rw [sumOver_cons, h ending List.mem_cons_self, Nat.zero_add]
    exact ih fun other hother => h other (List.mem_cons_of_mem _ hother)

/-! ## What the maps hold -/

section Entries

variable {κ α : Type*} [DecidableEq κ] [Inhabited α] {map : κ → Option α} {key k : κ} {f : α → α}
  {g : α → Nat}

theorem elim_entry_ne (hne : k ≠ key) : (entry map key f k).elim 0 g = (map k).elim 0 g := by
  rw [entry, Function.update_of_ne hne]

theorem elim_entry_self (hzero : g default = 0) {d m : Nat} (hadd : ∀ a, g (f a) = (g a + d) % m) :
    (entry map key f key).elim 0 g = ((map key).elim 0 g + d) % m := by
  rw [entry, Function.update_self, Option.elim_some, hadd]
  cases map key with
  | none => rw [Option.getD_none, hzero, Option.elim_none]
  | some a => rfl

theorem elim_entry_of_keeps (hzero : g default = 0) (hkeeps : ∀ a, g (f a) = g a) :
    (entry map key f k).elim 0 g = (map k).elim 0 g := by
  by_cases hk : k = key
  · subst hk
    rw [entry, Function.update_self, Option.elim_some, hkeeps]
    cases map k with
    | none => exact hzero
    | some a => rfl
  · exact elim_entry_ne hk

theorem isSome_entry (h : k = key ∨ (map k).isSome) : (entry map key f k).isSome := by
  by_cases hk : k = key
  · rw [hk, entry, Function.update_self]
    rfl
  · rw [entry, Function.update_of_ne hk]
    exact h.resolve_left hk

end Entries

namespace Tables

def pollTime (tables : Tables) (worker : Nat) : Nat :=
  (tables.workerStats worker).elim 0 WorkerStats.totalPollTimeNs

def locTime (tables : Tables) (loc : String) : Nat :=
  (tables.spawnLocationStats loc).elim 0 SpawnLocationStats.totalPollTimeNs

/-- The maps of starts after the past events. -/
structure Follows (tables : Tables) (past : List Dial9Event) : Prop where
  starts : ∀ worker,
    tables.pollStarts worker = (lastStart (history worker past)).map PollStartEvent.timestampNs
  locs : ∀ worker, tables.pollStartLocs worker = openLoc (history worker past)

theorem follows_empty : Follows empty [] := ⟨fun _ => rfl, fun _ => rfl⟩

theorem history_start (e : PollStartEvent) (worker : Nat) :
    history worker (.pollStart e :: past) =
      if e.workerId = worker then .start e :: history worker past else history worker past := by
  rw [history, List.filterMap_cons, pollOf]
  split_ifs <;> rfl

theorem history_stop (e : PollEndEvent) (worker : Nat) :
    history worker (.pollEnd e :: past) =
      if e.workerId = worker then .stop e :: history worker past else history worker past := by
  rw [history, List.filterMap_cons, pollOf]
  split_ifs <;> rfl

theorem Follows.pollStart (h : tables.Follows past) (e : PollStartEvent) :
    (tables.pollStart e).Follows (.pollStart e :: past) := by
  constructor
  · intro worker
    have hstarts : (tables.pollStart e).pollStarts =
        Function.update tables.pollStarts e.workerId (some e.timestampNs) := by
      rw [Tables.pollStart]
      split_ifs <;> rfl
    rw [hstarts, history_start]
    by_cases hw : e.workerId = worker
    · subst hw
      rw [Function.update_self, if_pos rfl]
      rfl
    · rw [Function.update_of_ne (Ne.symm hw), if_neg hw]
      exact h.starts worker
  · intro worker
    rw [history_start, Tables.pollStart]
    by_cases hw : e.workerId = worker
    · subst hw
      rw [if_pos rfl, openLoc]
      split_ifs with hloc
      · exact h.locs e.workerId
      · exact Function.update_self ..
    · rw [if_neg hw]
      split_ifs with hloc
      · exact h.locs worker
      · exact (Function.update_of_ne (Ne.symm hw) _ _).trans (h.locs worker)

section PollEnd

variable {e : PollEndEvent} {start : Nat}

theorem pollEnd_of_none (hstart : tables.pollStarts e.workerId = none) :
    tables.pollEnd e = { tables with workerStats := entry tables.workerStats e.workerId id } := by
  simp only [pollEnd, hstart]

theorem pollEnd_of_noLoc (hstart : tables.pollStarts e.workerId = some start)
    (hloc : tables.pollStartLocs e.workerId = none) :
    tables.pollEnd e =
      { tables with workerStats := entry tables.workerStats e.workerId id }.chargeWorker e.workerId
        (e.timestampNs - start) := by
  simp only [pollEnd, hstart, hloc]

theorem pollEnd_of_loc (hstart : tables.pollStarts e.workerId = some start)
    (hloc : tables.pollStartLocs e.workerId = some loc) :
    tables.pollEnd e =
      ({ tables with workerStats := entry tables.workerStats e.workerId id }.chargeWorker e.workerId
        (e.timestampNs - start)).chargeLoc e.workerId loc (e.timestampNs - start) := by
  simp only [pollEnd, hstart, hloc]

end PollEnd

section

variable (h : tables.Follows past)
include h

theorem Follows.noLoc (hstart : tables.pollStarts worker = none) :
    tables.pollStartLocs worker = none := by
  rw [h.locs]
  cases hopen : openLoc (history worker past) with
  | none => rfl
  | some loc =>
    obtain ⟨s, hs⟩ := opened_of_openLoc hopen
    rw [h.starts, lastStart_of_opened hs] at hstart
    cases hstart

theorem Follows.pollEnd_maps (e : PollEndEvent) :
    (tables.pollEnd e).pollStarts = tables.pollStarts ∧
      (tables.pollEnd e).pollStartLocs = Function.update tables.pollStartLocs e.workerId none := by
  cases hstart : tables.pollStarts e.workerId with
  | none =>
    rw [pollEnd_of_none hstart, ← h.noLoc hstart, Function.update_eq_self]
    exact ⟨rfl, rfl⟩
  | some start =>
    cases hloc : tables.pollStartLocs e.workerId with
    | none =>
      rw [pollEnd_of_noLoc hstart hloc, ← hloc, Function.update_eq_self]
      exact ⟨rfl, rfl⟩
    | some loc =>
      rw [pollEnd_of_loc hstart hloc]
      exact ⟨rfl, rfl⟩

theorem Follows.pollEnd (e : PollEndEvent) : (tables.pollEnd e).Follows (.pollEnd e :: past) := by
  obtain ⟨hstarts, hlocs⟩ := h.pollEnd_maps e
  constructor
  · intro worker
    rw [hstarts, history_stop, h.starts]
    split_ifs <;> rfl
  · intro worker
    rw [hlocs, history_stop]
    by_cases hw : e.workerId = worker
    · subst hw
      rw [Function.update_self, if_pos rfl]
      rfl
    · rw [Function.update_of_ne (Ne.symm hw), if_neg hw]
      exact h.locs worker

theorem Follows.step (event : Dial9Event) : (tables.step event).Follows (event :: past) := by
  cases event with
  | pollStart e => exact h.pollStart e
  | pollEnd e => exact h.pollEnd e
  | workerPark | workerUnpark | queueSample | runtimeMetrics | other => exact ⟨h.starts, h.locs⟩

end

/-! ## What an event charges -/

theorem pollTime_pollStart (e : PollStartEvent) (worker : Nat) :
    (tables.pollStart e).pollTime worker = tables.pollTime worker := by
  unfold pollTime pollStart
  split_ifs
  all_goals
    dsimp only
    apply elim_entry_of_keeps
    · rfl
    · exact fun _ => rfl

theorem locTime_pollStart (e : PollStartEvent) (loc : String) :
    (tables.pollStart e).locTime loc = tables.locTime loc := by
  unfold locTime pollStart
  split_ifs
  · rfl
  · dsimp only
    apply elim_entry_of_keeps
    · rfl
    · exact fun _ => rfl

theorem pollTime_workerPark (e : WorkerParkEvent) (worker : Nat) :
    (tables.workerPark e).pollTime worker = tables.pollTime worker := by
  unfold pollTime workerPark
  dsimp only
  apply elim_entry_of_keeps
  · rfl
  · exact fun _ => rfl

theorem pollTime_workerUnpark (e : WorkerUnparkEvent) (worker : Nat) :
    (tables.workerUnpark e).pollTime worker = tables.pollTime worker := by
  unfold pollTime workerUnpark
  dsimp only
  apply elim_entry_of_keeps
  · rfl
  · intro stats
    split <;> rfl

theorem pollTime_chargeWorker (worker other duration : Nat) :
    (tables.chargeWorker worker duration).pollTime other =
      if worker = other then (tables.pollTime other + duration) % 2 ^ 64
      else tables.pollTime other := by
  unfold pollTime chargeWorker
  dsimp only
  split_ifs with hw
  · subst hw
    apply elim_entry_self
    · rfl
    · exact fun _ => rfl
  · exact elim_entry_ne (Ne.symm hw)

theorem locTime_chargeLoc (worker : Nat) (loc other : String) (duration : Nat) :
    (tables.chargeLoc worker loc duration).locTime other =
      if loc = other then (tables.locTime other + duration) % 2 ^ 64 else tables.locTime other := by
  unfold locTime chargeLoc
  dsimp only
  split_ifs with hloc
  · subst hloc
    apply elim_entry_self
    · rfl
    · exact fun _ => rfl
  · exact elim_entry_ne (Ne.symm hloc)

theorem pollTime_touch (worker other : Nat) :
    { tables with workerStats := entry tables.workerStats worker id }.pollTime other =
      tables.pollTime other := by
  unfold pollTime
  apply elim_entry_of_keeps
  · rfl
  · exact fun _ => rfl

theorem Follows.pollTime_pollEnd (h : tables.Follows past) (e : PollEndEvent) (worker : Nat)
    (hbound : tables.pollTime worker < 2 ^ 64) :
    (tables.pollEnd e).pollTime worker =
      (tables.pollTime worker +
        if e.workerId = worker then Ending.elapsed ⟨history e.workerId past, e⟩ else 0)
          % 2 ^ 64 := by
  have hsame : (tables.pollTime worker + 0) % 2 ^ 64 = tables.pollTime worker :=
    Nat.mod_eq_of_lt hbound
  cases hstart : tables.pollStarts e.workerId with
  | none =>
    have hlast : lastStart (history e.workerId past) = none := by
      rwa [h.starts, Option.map_eq_none_iff] at hstart
    have hzero : Ending.elapsed ⟨history e.workerId past, e⟩ = 0 := by
      rw [Ending.elapsed, hlast]; rfl
    rw [pollEnd_of_none hstart, pollTime_touch, hzero, ite_self, hsame]
  | some start =>
    have hlast := hstart
    rw [h.starts] at hlast
    obtain ⟨s, hs, rfl⟩ := Option.map_eq_some_iff.mp hlast
    have helapsed :
        Ending.elapsed ⟨history e.workerId past, e⟩ = e.timestampNs - s.timestampNs := by
      rw [Ending.elapsed, hs]
      rfl
    have hpoll : (tables.pollEnd e).pollTime worker =
        ({ tables with workerStats := entry tables.workerStats e.workerId id }.chargeWorker
          e.workerId (e.timestampNs - s.timestampNs)).pollTime worker := by
      cases hloc : tables.pollStartLocs e.workerId with
      | none => rw [pollEnd_of_noLoc hstart hloc]
      | some loc =>
        rw [pollEnd_of_loc hstart hloc]
        rfl
    rw [hpoll, helapsed, pollTime_chargeWorker, pollTime_touch]
    split_ifs
    · rfl
    · exact hsame.symm

theorem Follows.locTime_pollEnd (h : tables.Follows past) (e : PollEndEvent) (loc : String)
    (hbound : tables.locTime loc < 2 ^ 64) :
    (tables.pollEnd e).locTime loc =
      (tables.locTime loc +
        if openLoc (history e.workerId past) = some loc then
          Ending.elapsed ⟨history e.workerId past, e⟩
        else 0) % 2 ^ 64 := by
  have hsame : (tables.locTime loc + 0) % 2 ^ 64 = tables.locTime loc := Nat.mod_eq_of_lt hbound
  rw [← h.locs]
  cases hstart : tables.pollStarts e.workerId with
  | none =>
    rw [pollEnd_of_none hstart, h.noLoc hstart, if_neg nofun, hsame]
    rfl
  | some start =>
    cases hloc : tables.pollStartLocs e.workerId with
    | none =>
      rw [pollEnd_of_noLoc hstart hloc, if_neg nofun, hsame]
      rfl
    | some open' =>
      have hlast := hstart
      rw [h.starts] at hlast
      obtain ⟨s, hs, rfl⟩ := Option.map_eq_some_iff.mp hlast
      rw [pollEnd_of_loc hstart hloc, Ending.elapsed, hs, Option.elim_some, locTime_chargeLoc]
      simp only [Option.some.injEq]
      split_ifs
      · rfl
      · exact hsame.symm

/-- No total gets past 64 bits. -/
structure Bounded (tables : Tables) : Prop where
  workers : ∀ worker, tables.pollTime worker < 2 ^ 64
  locations : ∀ loc, tables.locTime loc < 2 ^ 64

theorem bounded_empty : Bounded empty := ⟨fun _ => Nat.two_pow_pos 64, fun _ => Nat.two_pow_pos 64⟩

section

variable (h : tables.Follows past) (hbounded : tables.Bounded)
include h hbounded

theorem Follows.bounded_step (event : Dial9Event) : (tables.step event).Bounded := by
  cases event with
  | pollStart e =>
    constructor
    · intro worker
      exact (pollTime_pollStart e worker).symm ▸ hbounded.workers worker
    · intro loc
      exact (locTime_pollStart e loc).symm ▸ hbounded.locations loc
  | pollEnd e =>
    constructor
    · intro worker
      exact (h.pollTime_pollEnd e worker (hbounded.workers worker)).symm ▸
        Nat.mod_lt _ (Nat.two_pow_pos 64)
    · intro loc
      exact (h.locTime_pollEnd e loc (hbounded.locations loc)).symm ▸
        Nat.mod_lt _ (Nat.two_pow_pos 64)
  | workerPark e =>
    exact ⟨fun worker => (pollTime_workerPark e worker).symm ▸ hbounded.workers worker,
      hbounded.locations⟩
  | workerUnpark e =>
    exact ⟨fun worker => (pollTime_workerUnpark e worker).symm ▸ hbounded.workers worker,
      hbounded.locations⟩
  | queueSample | runtimeMetrics | other => exact hbounded

/-! ## What a trace charges -/

theorem Follows.pollTime_foldl (events : List Dial9Event) (worker : Nat) :
    (events.foldl Tables.step tables).pollTime worker =
      (tables.pollTime worker +
        sumOver Ending.elapsed (byWorker worker (endingsFrom past events))) % 2 ^ 64 := by
  induction events generalizing past tables with
  | nil => exact (Nat.mod_eq_of_lt (hbounded.workers worker)).symm
  | cons event rest ih =>
    have hrest := ih (h.step event) (h.bounded_step hbounded event)
    rw [List.foldl_cons, hrest]
    cases event with
    | pollEnd e =>
      rw [endingsFrom, sumOver_byWorker_cons]
      show ((tables.pollEnd e).pollTime worker + _) % _ = _
      rw [h.pollTime_pollEnd e worker (hbounded.workers worker), Nat.mod_add_mod, Nat.add_assoc]
    | pollStart e =>
      show ((tables.pollStart e).pollTime worker + _) % _ = _
      rw [pollTime_pollStart, endingsFrom]
      exact nofun
    | workerPark e =>
      show ((tables.workerPark e).pollTime worker + _) % _ = _
      rw [pollTime_workerPark, endingsFrom]
      exact nofun
    | workerUnpark e =>
      show ((tables.workerUnpark e).pollTime worker + _) % _ = _
      rw [pollTime_workerUnpark, endingsFrom]
      exact nofun
    | queueSample | runtimeMetrics | other => rfl

theorem Follows.locTime_foldl (events : List Dial9Event) (hloc : loc ≠ "") :
    (events.foldl Tables.step tables).locTime loc =
      (tables.locTime loc + (sumOver (Ending.pairedAt loc) (endingsFrom past events) +
        sumOver (Ending.misplacedAt loc) (endingsFrom past events))) % 2 ^ 64 := by
  induction events generalizing past tables with
  | nil => exact (Nat.mod_eq_of_lt (hbounded.locations loc)).symm
  | cons event rest ih =>
    have hrest := ih (h.step event) (h.bounded_step hbounded event)
    rw [List.foldl_cons, hrest]
    cases event with
    | pollEnd e =>
      rw [endingsFrom, sumOver_cons, sumOver_cons, Nat.add_add_add_comm,
        pairedAt_add_misplacedAt hloc]
      show ((tables.pollEnd e).locTime loc + _) % _ = _
      rw [h.locTime_pollEnd e loc (hbounded.locations loc), Nat.mod_add_mod, Nat.add_assoc]
    | pollStart e =>
      show ((tables.pollStart e).locTime loc + _) % _ = _
      rw [locTime_pollStart, endingsFrom]
      exact nofun
    | workerPark | workerUnpark | queueSample | runtimeMetrics | other => rfl

end

end Tables

/-! ## What the detector finds -/

def Ending.longPoll (ending : Ending) : Option LongPoll :=
  (opened ending.past).map fun e =>
    ⟨ending.stop.workerId, e.timestampNs, ending.stop.timestampNs,
      ending.stop.timestampNs - e.timestampNs, e.taskId, e.spawnLoc⟩

namespace Detector

def Follows (detector : Detector) (past : List Dial9Event) : Prop :=
  ∀ worker, detector.pollStarts worker =
    (opened (history worker past)).map fun e => (e.timestampNs, e.taskId, e.spawnLoc)

section

variable (h : detector.Follows past)
include h

theorem Follows.pollEnd (e : PollEndEvent) :
    (detector.pollEnd 0 e).Follows (.pollEnd e :: past) ∧
      (detector.pollEnd 0 e).longPolls =
        detector.longPolls ++ (Ending.longPoll ⟨history e.workerId past, e⟩).toList := by
  have hself := h e.workerId
  rw [Ending.longPoll, Detector.pollEnd]
  cases hopened : opened (history e.workerId past) with
  | none =>
    rw [hopened] at hself
    rw [hself]
    refine ⟨fun worker => ?_, (List.append_nil _).symm⟩
    rw [Tables.history_stop]
    refine (h worker).trans ?_
    split_ifs with hw
    · subst hw
      rw [hopened]
      rfl
    · rfl
  | some s =>
    rw [hopened] at hself
    rw [hself]
    have hlong : e.timestampNs - s.timestampNs ≥ 0 := Nat.zero_le _
    refine ⟨fun worker => ?_, by simp only [Option.map_some, hlong, if_true, Option.toList_some]⟩
    rw [Tables.history_stop]
    by_cases hw : e.workerId = worker
    · subst hw
      rw [if_pos rfl]
      exact Function.update_self ..
    · rw [if_neg hw]
      exact (Function.update_of_ne (Ne.symm hw) _ _).trans (h worker)

theorem Follows.pollStart (e : PollStartEvent) :
    (detector.step 0 (.pollStart e)).Follows (.pollStart e :: past) := by
  intro worker
  rw [Tables.history_start]
  by_cases hw : e.workerId = worker
  · subst hw
    rw [if_pos rfl]
    exact Function.update_self ..
  · rw [if_neg hw]
    exact (Function.update_of_ne (Ne.symm hw) _ _).trans (h worker)

/-- The polls found are those that ends close, in order. -/
theorem Follows.longPolls_foldl :
    (events.foldl (step 0) detector).longPolls =
      detector.longPolls ++ (endingsFrom past events).filterMap Ending.longPoll := by
  induction events generalizing past detector with
  | nil => exact (List.append_nil _).symm
  | cons event rest ih =>
    rw [List.foldl_cons]
    cases event with
    | pollEnd e =>
      obtain ⟨hfollows, hpolls⟩ := h.pollEnd e
      show (rest.foldl (step 0) (detector.pollEnd 0 e)).longPolls = _
      rw [ih hfollows, hpolls, endingsFrom, List.append_assoc, List.filterMap_cons]
      cases Ending.longPoll ⟨history e.workerId past, e⟩ with
      | none | some _ => rfl
    | pollStart e => exact ih (h.pollStart e)
    | workerPark | workerUnpark | queueSample | runtimeMetrics | other => exact ih h

end

end Detector

theorem detectLongPolls_eq (events : List Dial9Event) :
    detectLongPolls events 0 = (endings events).filterMap Ending.longPoll := by
  have hstart : Detector.empty.Follows [] := fun _ => rfl
  exact hstart.longPolls_foldl

theorem longPoll_of_opened (h : opened ending.past = some e) :
    ∃ p, ending.longPoll = some p ∧ p.workerId = ending.stop.workerId ∧ p.spawnLoc = e.spawnLoc ∧
      p.durationNs = ending.elapsed := by
  rw [Ending.longPoll, h, Ending.elapsed, lastStart_of_opened h]
  exact ⟨_, rfl, rfl, rfl, rfl⟩

theorem sum_longPolls_worker (worker : Nat) (endings : List Ending) :
    (((endings.filterMap Ending.longPoll).filter fun p => p.workerId = worker).map
      LongPoll.durationNs).sum = sumOver Ending.paired (byWorker worker endings) := by
  induction endings with
  | nil => rfl
  | cons ending rest ih =>
    rw [sumOver_byWorker_cons, ← ih, Ending.paired, List.filterMap_cons]
    cases hopened : opened ending.past with
    | none => simp [Ending.longPoll, hopened]
    | some e =>
      obtain ⟨p, hp, hworker, -, hduration⟩ := longPoll_of_opened hopened
      rw [hp]
      by_cases hw : ending.stop.workerId = worker
      · simp [hworker, hw, hduration]
      · simp [hworker, hw]

theorem sum_longPolls_loc (loc : String) (endings : List Ending) :
    (((endings.filterMap Ending.longPoll).filter fun p => p.spawnLoc = loc).map
      LongPoll.durationNs).sum = sumOver (Ending.pairedAt loc) endings := by
  induction endings with
  | nil => rfl
  | cons ending rest ih =>
    rw [sumOver_cons, ← ih, Ending.pairedAt, List.filterMap_cons]
    cases hopened : opened ending.past with
    | none => simp [Ending.longPoll, hopened]
    | some e =>
      obtain ⟨p, hp, -, hloc, hduration⟩ := longPoll_of_opened hopened
      rw [hp]
      by_cases hl : e.spawnLoc = loc
      · simp [hloc, hl, hduration]
      · simp [hloc, hl]

/-! ## Entries -/

/-- The worker of each start and end has an entry, and the location of each start. -/
structure Listed (tables : Tables) (past : List Dial9Event) : Prop where
  start : ∀ e, .pollStart e ∈ past → (tables.workerStats e.workerId).isSome ∧
    (e.spawnLoc ≠ "" → (tables.spawnLocationStats e.spawnLoc).isSome)
  stop : ∀ e, .pollEnd e ∈ past → (tables.workerStats e.workerId).isSome

namespace Tables

theorem chargeWorker_isSome {other duration : Nat} (h : (tables.workerStats other).isSome) :
    ((tables.chargeWorker worker duration).workerStats other).isSome := by
  unfold chargeWorker
  dsimp only
  exact isSome_entry (.inr h)

theorem chargeLoc_isSome (worker duration : Nat) {other : String}
    (h : (tables.spawnLocationStats other).isSome) :
    ((tables.chargeLoc worker loc duration).spawnLocationStats other).isSome := by
  unfold chargeLoc
  dsimp only
  exact isSome_entry (.inr h)

theorem pollEnd_isSome (e : PollEndEvent) :
    ((tables.pollEnd e).workerStats e.workerId).isSome ∧
      (∀ worker,
        (tables.workerStats worker).isSome → ((tables.pollEnd e).workerStats worker).isSome) ∧
      ∀ loc, (tables.spawnLocationStats loc).isSome →
        ((tables.pollEnd e).spawnLocationStats loc).isSome := by
  have htouch : ∀ worker, worker = e.workerId ∨ (tables.workerStats worker).isSome →
      (entry tables.workerStats e.workerId id worker).isSome := fun _ => isSome_entry
  cases hstart : tables.pollStarts e.workerId with
  | none =>
    rw [pollEnd_of_none hstart]
    exact ⟨htouch _ (.inl rfl), fun w hw => htouch w (.inr hw), fun _ => id⟩
  | some start =>
    cases hloc : tables.pollStartLocs e.workerId with
    | none =>
      rw [pollEnd_of_noLoc hstart hloc]
      exact ⟨chargeWorker_isSome (htouch _ (.inl rfl)),
        fun w hw => chargeWorker_isSome (htouch w (.inr hw)), fun _ => id⟩
    | some loc =>
      rw [pollEnd_of_loc hstart hloc]
      exact ⟨chargeWorker_isSome (htouch _ (.inl rfl)),
        fun w hw => chargeWorker_isSome (htouch w (.inr hw)),
          fun _ => chargeLoc_isSome e.workerId _⟩

theorem pollStart_isSome (e : PollStartEvent) :
    (∀ worker, worker = e.workerId ∨ (tables.workerStats worker).isSome →
        ((tables.pollStart e).workerStats worker).isSome) ∧
      ∀ loc, (e.spawnLoc ≠ "" ∧ loc = e.spawnLoc) ∨ (tables.spawnLocationStats loc).isSome →
        ((tables.pollStart e).spawnLocationStats loc).isSome := by
  unfold pollStart
  split_ifs with hloc
  · dsimp only
    exact ⟨fun _ => isSome_entry, fun _ h => h.resolve_left fun h => h.1 hloc⟩
  · dsimp only
    exact ⟨fun _ => isSome_entry, fun _ h => isSome_entry (h.imp_left And.right)⟩

theorem workerPark_isSome (e : WorkerParkEvent) (h : (tables.workerStats worker).isSome) :
    ((tables.workerPark e).workerStats worker).isSome := by
  unfold workerPark
  dsimp only
  exact isSome_entry (.inr h)

theorem workerUnpark_isSome (e : WorkerUnparkEvent) (h : (tables.workerStats worker).isSome) :
    ((tables.workerUnpark e).workerStats worker).isSome := by
  unfold workerUnpark
  dsimp only
  exact isSome_entry (.inr h)

end Tables

section

variable (h : Listed tables past)
include h

theorem Listed.mono {tables' : Tables}
    (hworkers : ∀ worker, (tables.workerStats worker).isSome → (tables'.workerStats worker).isSome)
    (hlocs : ∀ loc,
      (tables.spawnLocationStats loc).isSome → (tables'.spawnLocationStats loc).isSome) :
    Listed tables' past where
  start := fun e he => ⟨hworkers _ (h.start e he).1, fun hloc => hlocs _ ((h.start e he).2 hloc)⟩
  stop := fun e he => hworkers _ (h.stop e he)

theorem Listed.cons_other {event : Dial9Event}
    (hstart : ∀ e, event ≠ .pollStart e) (hstop : ∀ e, event ≠ .pollEnd e) :
    Listed tables (event :: past) where
  start := fun e he => h.start e ((List.mem_cons.mp he).resolve_left (hstart e).symm)
  stop := fun e he => h.stop e ((List.mem_cons.mp he).resolve_left (hstop e).symm)

theorem Listed.step (event : Dial9Event) : Listed (tables.step event) (event :: past) := by
  cases event with
  | pollStart e =>
    obtain ⟨hworkers, hlocs⟩ := tables.pollStart_isSome e
    have hold : Listed (tables.pollStart e) past :=
      h.mono (fun w hw => hworkers w (.inr hw)) fun l hl => hlocs l (.inr hl)
    constructor
    · intro other hother
      rcases List.mem_cons.mp hother with hsame | hpast
      · cases hsame
        exact ⟨hworkers _ (.inl rfl), fun hloc => hlocs _ (.inl ⟨hloc, rfl⟩)⟩
      · exact hold.start other hpast
    · intro other hother
      exact hold.stop other ((List.mem_cons.mp hother).resolve_left nofun)
  | pollEnd e =>
    obtain ⟨hself, hworkers, hlocs⟩ := tables.pollEnd_isSome e
    have hold : Listed (tables.pollEnd e) past := h.mono hworkers hlocs
    constructor
    · intro other hother
      exact hold.start other ((List.mem_cons.mp hother).resolve_left nofun)
    · intro other hother
      rcases List.mem_cons.mp hother with hsame | hpast
      · cases hsame
        exact hself
      · exact hold.stop other hpast
  | workerPark e =>
    have hold : Listed (tables.workerPark e) past :=
      h.mono (fun _ => Tables.workerPark_isSome e) fun _ => id
    exact hold.cons_other nofun nofun
  | workerUnpark e =>
    have hold : Listed (tables.workerUnpark e) past :=
      h.mono (fun _ => Tables.workerUnpark_isSome e) fun _ => id
    exact hold.cons_other nofun nofun
  | queueSample | runtimeMetrics | other => exact h.cons_other nofun nofun

theorem Listed.foldl (events : List Dial9Event) :
    Listed (events.foldl Tables.step tables) (events.reverse ++ past) := by
  induction events generalizing past tables with
  | nil => exact h
  | cons event rest ih =>
    rw [List.reverse_cons, List.append_assoc]
    exact ih (h.step event)

end

theorem mem_history {poll : Poll} (h : poll ∈ history worker past) :
    (∃ e, poll = .start e ∧ .pollStart e ∈ past ∧ e.workerId = worker) ∨
      ∃ e, poll = .stop e ∧ .pollEnd e ∈ past ∧ e.workerId = worker := by
  obtain ⟨event, hevent, hpoll⟩ := List.mem_filterMap.mp h
  cases event with
  | pollStart e =>
    rw [pollOf, Option.ite_none_right_eq_some, Option.some.injEq] at hpoll
    exact .inl ⟨e, hpoll.2.symm, hevent, hpoll.1⟩
  | pollEnd e =>
    rw [pollOf, Option.ite_none_right_eq_some, Option.some.injEq] at hpoll
    exact .inr ⟨e, hpoll.2.symm, hevent, hpoll.1⟩
  | workerPark | workerUnpark | queueSample | runtimeMetrics | other => cases hpoll

theorem mem_of_opened (h : opened polls = some e) : .start e ∈ polls := by
  cases polls with
  | nil => cases h
  | cons poll rest =>
    cases poll with
    | start =>
      cases h
      exact List.mem_cons_self
    | stop => cases h

theorem exists_of_openLoc (h : openLoc polls = some loc) :
    ∃ e : PollStartEvent, .start e ∈ polls ∧ e.spawnLoc = loc := by
  induction polls with
  | nil => cases h
  | cons poll rest ih =>
    cases poll with
    | stop => cases h
    | start e =>
      rw [openLoc] at h
      split_ifs at h with hloc
      · obtain ⟨s, hs, heq⟩ := ih h
        exact ⟨s, List.mem_cons_of_mem _ hs, heq⟩
      · exact ⟨e, List.mem_cons_self, Option.some.inj h⟩

theorem mem_endingsFrom (h : ending ∈ endingsFrom past events) :
    .pollEnd ending.stop ∈ events ∧
      ∃ before, (∀ event ∈ before, event ∈ past ∨ event ∈ events) ∧
        ending.past = history ending.stop.workerId before := by
  induction events generalizing past with
  | nil => cases h
  | cons event rest ih =>
    have hlater : ending ∈ endingsFrom (event :: past) rest →
        .pollEnd ending.stop ∈ event :: rest ∧
          ∃ before, (∀ other ∈ before, other ∈ past ∨ other ∈ event :: rest) ∧
            ending.past = history ending.stop.workerId before := by
      intro hrest
      obtain ⟨hstop, before, hbefore, hpast⟩ := ih hrest
      refine ⟨List.mem_cons_of_mem _ hstop, before, fun other hother => ?_, hpast⟩
      rcases hbefore other hother with hold | hnew
      · exact (List.mem_cons.mp hold).elim (fun heq => .inr (heq ▸ List.mem_cons_self)) .inl
      · exact .inr (List.mem_cons_of_mem _ hnew)
    cases event with
    | pollEnd e =>
      rcases List.mem_cons.mp h with rfl | hrest
      · exact ⟨List.mem_cons_self, past, fun _ => .inl, rfl⟩
      · exact hlater hrest
    | pollStart | workerPark | workerUnpark | queueSample | runtimeMetrics | other => exact hlater h

theorem mem_of_past (h : ending ∈ endings events) (he : .start e ∈ ending.past) :
    .pollStart e ∈ events ∧ e.workerId = ending.stop.workerId := by
  obtain ⟨-, before, hbefore, hpast⟩ := mem_endingsFrom h
  rw [hpast] at he
  rcases mem_history he with ⟨s, hs, hmem, hworker⟩ | ⟨s, hs, -⟩
  · cases hs
    exact ⟨(hbefore _ hmem).resolve_left List.not_mem_nil, hworker⟩
  · cases hs

/-! ## When the two agree -/

theorem analyzeTrace_of_stamped (h : Stamped events) :
    (analyzeTrace events).workerStats = (events.foldl Tables.step .empty).workerStats ∧
      (analyzeTrace events).spawnLocationStats =
        (events.foldl Tables.step .empty).spawnLocationStats := by
  obtain ⟨start, hstart⟩ := Option.isSome_iff_exists.mp h.1
  obtain ⟨stop, hstop⟩ := Option.isSome_iff_exists.mp h.2
  simp only [analyzeTrace, hstart, hstop, and_self]

theorem analyzeTrace_of_not_stamped (h : ¬ Stamped events) : analyzeTrace events = .empty := by
  unfold analyzeTrace
  split
  next hstart hstop =>
    exact absurd ⟨Option.isSome_of_eq_some hstart, Option.isSome_of_eq_some hstop⟩ h
  next => rfl

/-- The maps after the whole trace. -/
def tablesOf (events : List Dial9Event) : Tables := events.foldl Tables.step .empty

theorem pollTime_tablesOf (events : List Dial9Event) (worker : Nat) :
    (tablesOf events).pollTime worker =
      (sumOver Ending.paired (byWorker worker (endings events)) +
        sumOver Ending.repeated (byWorker worker (endings events))) % 2 ^ 64 := by
  have hsum := Tables.follows_empty.pollTime_foldl Tables.bounded_empty events worker
  have hzero : Tables.empty.pollTime worker = 0 := rfl
  rw [hzero, Nat.zero_add] at hsum
  rw [sumOver_add, funext paired_add_repeated]
  exact hsum

theorem locTime_tablesOf (events : List Dial9Event) (hloc : loc ≠ "") :
    (tablesOf events).locTime loc =
      (sumOver (Ending.pairedAt loc) (endings events) +
        sumOver (Ending.misplacedAt loc) (endings events)) % 2 ^ 64 := by
  have hsum := Tables.follows_empty.locTime_foldl Tables.bounded_empty events hloc
  have hzero : Tables.empty.locTime loc = 0 := rfl
  rw [hzero, Nat.zero_add] at hsum
  exact hsum

theorem listed_tablesOf (events : List Dial9Event) : Listed (tablesOf events) events := by
  have hempty : Listed .empty [] := ⟨nofun, nofun⟩
  have h := hempty.foldl events
  rw [List.append_nil] at h
  exact ⟨fun e he => h.start e (List.mem_reverse.mpr he),
    fun e he => h.stop e (List.mem_reverse.mpr he)⟩

theorem byWorker_eq_nil (h : (tablesOf events).workerStats worker = none) :
    byWorker worker (endings events) = [] := by
  apply List.filter_eq_nil_iff.mpr
  intro ending hending hworker
  have hsome := (listed_tablesOf events).stop ending.stop (mem_endingsFrom hending).1
  rw [of_decide_eq_true hworker, h] at hsome
  cases hsome

section

variable (h : (tablesOf events).spawnLocationStats loc = none) (hloc : loc ≠ "")
include h hloc

theorem not_start_of_none (hending : ending ∈ endings events) (he : .start e ∈ ending.past) :
    e.spawnLoc ≠ loc := by
  rintro rfl
  have hsome := ((listed_tablesOf events).start e (mem_of_past hending he).1).2 hloc
  rw [h] at hsome
  cases hsome

theorem sumOver_loc_eq_zero :
    sumOver (Ending.pairedAt loc) (endings events) = 0 ∧
      sumOver (Ending.misplacedAt loc) (endings events) = 0 := by
  constructor
  · apply sumOver_eq_zero
    intro ending hending
    apply if_neg
    intro hany
    obtain ⟨e, he, hsame⟩ := (Option.any_eq_true _ _).mp hany
    exact not_start_of_none h hloc hending (mem_of_opened he) (of_decide_eq_true hsame)
  · apply sumOver_eq_zero
    intro ending hending
    apply if_neg
    rintro ⟨-, hopen⟩
    obtain ⟨e, he, hsame⟩ := exists_of_openLoc hopen
    exact not_start_of_none h hloc hending he hsame

end

theorem add_mod_eq_left_iff {a b : Nat} : (a + b) % 2 ^ 64 = a ↔ a < 2 ^ 64 ∧ b % 2 ^ 64 = 0 := by
  omega

theorem detected_listed (events : List Dial9Event) {p : LongPoll}
    (hp : p ∈ detectLongPolls events 0) :
    ((tablesOf events).workerStats p.workerId).isSome ∧
      (p.spawnLoc ≠ "" → ((tablesOf events).spawnLocationStats p.spawnLoc).isSome) := by
  rw [detectLongPolls_eq] at hp
  obtain ⟨ending, hending, hlong⟩ := List.mem_filterMap.mp hp
  obtain ⟨e, he, rfl⟩ := Option.map_eq_some_iff.mp hlong
  obtain ⟨hmem, hworker⟩ := mem_of_past hending (mem_of_opened he)
  obtain ⟨hsome, hsomeLoc⟩ := (listed_tablesOf events).start e hmem
  exact ⟨hworker ▸ hsome, hsomeLoc⟩

/-- The summary agrees with the detector exactly where it charges what is paired, or is empty. -/
theorem analyses_agree_iff (events : List Dial9Event) :
    Agrees events ↔ (Stamped events → ChargedOnce events) := by
  by_cases hstamped : Stamped events
  · obtain ⟨hstats, hlocStats⟩ := analyzeTrace_of_stamped hstamped
    constructor
    · intro h _
      constructor
      · intro worker
        cases hentry : (tablesOf events).workerStats worker with
        | none =>
          rw [byWorker_eq_nil hentry]
          exact ⟨Nat.two_pow_pos 64, rfl⟩
        | some stats =>
          have htotal := h.workers worker stats (hstats ▸ hentry)
          have htime := pollTime_tablesOf events worker
          rw [Tables.pollTime, hentry, Option.elim_some, htotal, detectLongPolls_eq,
            sum_longPolls_worker] at htime
          exact add_mod_eq_left_iff.mp htime.symm
      · intro loc hloc
        cases hentry : (tablesOf events).spawnLocationStats loc with
        | none =>
          obtain ⟨hpaired, hmisplaced⟩ := sumOver_loc_eq_zero hentry hloc
          rw [hpaired, hmisplaced]
          exact ⟨Nat.two_pow_pos 64, rfl⟩
        | some stats =>
          have htotal := h.locations loc stats hloc (hlocStats ▸ hentry)
          have htime := locTime_tablesOf events hloc
          rw [Tables.locTime, hentry, Option.elim_some, htotal, detectLongPolls_eq,
            sum_longPolls_loc] at htime
          exact add_mod_eq_left_iff.mp htime.symm
    · intro h
      have hcharged := h hstamped
      constructor
      · intro worker stats hentry
        have htime := pollTime_tablesOf events worker
        rw [Tables.pollTime,
          show (tablesOf events).workerStats worker = some stats from hstats ▸ hentry,
          Option.elim_some, add_mod_eq_left_iff.mpr (hcharged.workers worker)] at htime
        rw [htime, detectLongPolls_eq, sum_longPolls_worker]
      · intro loc stats hloc hentry
        have htime := locTime_tablesOf events hloc
        rw [Tables.locTime,
          show (tablesOf events).spawnLocationStats loc = some stats from hlocStats ▸ hentry,
          Option.elim_some, add_mod_eq_left_iff.mpr (hcharged.locations loc hloc)] at htime
        rw [htime, detectLongPolls_eq, sum_longPolls_loc]
      · intro _ p hp
        rw [hstats, hlocStats]
        exact detected_listed events hp
  · have hempty := analyzeTrace_of_not_stamped hstamped
    refine iff_of_true ⟨?_, ?_, fun h => absurd h hstamped⟩ fun h => absurd h hstamped
    · intro worker stats hentry
      rw [hempty] at hentry
      cases hentry
    · intro loc stats _ hentry
      rw [hempty] at hentry
      cases hentry

/-- An end that comes twice is charged twice. -/
def endedTwice : List Dial9Event :=
  [.pollStart ⟨10, 0, 0, 1, "main.rs:1"⟩, .pollEnd ⟨15, 0⟩, .pollEnd ⟨22, 0⟩]

theorem endedTwice_disagrees : ¬ Agrees endedTwice := by
  intro h
  have htotal := h.workers 0 { pollCount := 1, totalPollTimeNs := 17 } (by decide)
  exact absurd htotal (by decide)

end Dial9.Tokio.Analysis
