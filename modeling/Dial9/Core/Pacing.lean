/-
# Pacing of retries

A pass whose segment failed and may be retried names the dumps it holds open.
The triggered loop then goes to its select, which sleeps to the first deadline
of all open dumps, so that the retry is paced by the poll interval. The sleep
is over at once where that deadline has gone by, and the deadline of a dump that
is held goes by with nothing to resolve it.
-/

import Dial9.Core.Manifest

namespace Dial9.Core

open Dial9.Lib

/-- The triggered worker with the variable of its loop for what a retry holds. -/
structure TriggeredLoop where
  worker : Worker
  retryHold : List DumpId

/-- The deadline has gone by. -/
def ActiveDump.overdue (dump : ActiveDump) (now : Nat) : Bool :=
  dump.deadline.any fun deadline => deadline ≤ now

variable {s : TriggeredLoop} {e : WorkerEvent} {stats : PassStats}

variable {pending : List Taken}

namespace TriggeredLoop

/-- The variable after a step: what a pass that ended named, and nothing from the top of the
loop on. -/
def holdAfter (s : TriggeredLoop) (e : WorkerEvent) (next : Worker) : List DumpId :=
  match s.worker.phase, e with
  | .waiting .triggered [] stats, .proceed =>
    if stats.interruption = none then stats.retryDumpIds else []
  | _, _ => if next.phase = .top then [] else s.retryHold

def step (s : TriggeredLoop) (e : WorkerEvent) : Option TriggeredLoop :=
  (s.worker.step e).map fun next => ⟨next, s.holdAfter e next⟩

/-- At the start of `run_triggered`. -/
def start (pipeline : Pipeline) (store : Store) : TriggeredLoop := ⟨.triggered pipeline store, []⟩

/-- The dump is held open by a retry. -/
def holds (store : Store) (retryHold : List DumpId) (dump : ActiveDump) : Bool :=
  !retryHold.isEmpty && (!store.takeIsExhaustive || retryHold.contains dump.id)

/-- The sleep of the select, to the first deadline of the open dumps, is over as it starts. -/
def sleepElapsed (w : Worker) : Bool :=
  (w.dumps.filterMap ActiveDump.deadline).min?.any fun deadline => deadline ≤ w.now

/-- From here the loop does not come to its select with a dump held open and the sleep over. -/
def Paced (s : TriggeredLoop) : Prop :=
  ∀ next, s.step .proceed = some next → s.worker.phase = .check → next.worker.phase = .select →
    (∃ d ∈ next.worker.dumps, holds next.worker.store next.retryHold d = true) →
    sleepElapsed next.worker = false

/-- On the way from the end of a pass to the select. -/
def toSelect : Phase → Bool
  | .resolving _ _ _ .check | .check => true
  | _ => false

/-- No pass ends with a hold on a dump whose deadline has gone by, and on the way to the select
with a hold no deadline goes by. -/
structure InTime (s : TriggeredLoop) (e : WorkerEvent) : Prop where
  held : ∀ stats, s.worker.phase = .waiting .triggered [] stats → e = .proceed →
    ∀ d ∈ s.worker.dumps, holds s.worker.store stats.retryDumpIds d = true →
      d.overdue s.worker.now = false
  ticks : ∀ now, e = .tick now → toSelect s.worker.phase = true → s.retryHold ≠ [] →
    ∀ d ∈ s.worker.dumps, d.overdue now = false

/-- The dumps that the end of a pass holds open, where a step is one. -/
def heldAtEnd (s : TriggeredLoop) (e : WorkerEvent) : List ActiveDump :=
  match s.worker.phase, e with
  | .waiting .triggered [] stats, .proceed =>
    s.worker.dumps.filter (holds s.worker.store stats.retryDumpIds)
  | _, _ => []

/-- The time that a step moves the clock to. -/
def tickOf : WorkerEvent → Option Nat
  | .tick now => some now
  | _ => none

theorem inTime_iff :
    s.InTime e ↔ (∀ d ∈ s.heldAtEnd e, d.overdue s.worker.now = false) ∧
      (toSelect s.worker.phase = true → s.retryHold ≠ [] →
        ∀ now ∈ (tickOf e).toList, ∀ d ∈ s.worker.dumps, d.overdue now = false) := by
  constructor
  · intro htime
    constructor
    · intro d hd
      rw [heldAtEnd.eq_def] at hd
      split at hd
      · rename_i stats hphase
        rcases List.mem_filter.mp hd with ⟨hmem, hheld⟩
        exact htime.held stats hphase rfl d hmem hheld
      · exact absurd hd List.not_mem_nil
    · intro hto hhold now hnow
      cases e with
      | tick now' =>
        rw [List.mem_singleton.mp hnow]
        exact htime.ticks now' rfl hto hhold
      | _ => exact absurd hnow List.not_mem_nil
  · rintro ⟨hheld, hticks⟩
    constructor
    · rintro stats hphase rfl d hmem hholds
      apply hheld
      simp only [heldAtEnd, hphase]
      exact List.mem_filter.mpr ⟨hmem, hholds⟩
    · rintro now rfl hto hhold
      exact hticks hto hhold now (List.mem_singleton.mpr rfl)

instance (s : TriggeredLoop) (e : WorkerEvent) : Decidable (s.InTime e) :=
  decidable_of_iff _ inTime_iff.symm

/-- The phases that the variable is empty in: it is set where a triggered pass ends. -/
def inDrain : Phase → Bool
  | .top | .resolving _ _ _ .again => true
  | .draining purpose | .scanning purpose _ | .waiting purpose _ _ | .opening purpose _ _ _
  | .opened purpose _ _ _ | .staged purpose _ _ _ _ | .sleeping purpose _ _ _ _ =>
    purpose == .triggered
  | _ => false

/-- With a hold, the loop is past its drain, and on the way to the select no deadline has gone
by. -/
def OnTime (s : TriggeredLoop) : Prop :=
  s.retryHold ≠ [] → inDrain s.worker.phase = false ∧
    (toSelect s.worker.phase = true → ∀ d ∈ s.worker.dumps, d.overdue s.worker.now = false)

/-! ## The phases after a drain that is not for the triggers -/

/-- Neither in a triggered drain nor on the way to the select. -/
def Calm (phase : Phase) : Prop := inDrain phase = false ∧ toSelect phase = false

variable {w next : Worker} {purpose : Purpose}

theorem calm_drainDone (w : Worker) (hpurpose : purpose ≠ .triggered) (result : DrainResult) :
    Calm (w.drainDone purpose result).phase := by
  cases purpose with
  | triggered => exact absurd rfl hpurpose
  | final | continuous | finishing => exact ⟨rfl, rfl⟩

theorem calm_passDone (w : Worker) (hpurpose : purpose ≠ .triggered) (stats : PassStats) :
    Calm (w.passDone purpose stats).phase := by
  cases purpose with
  | triggered => exact absurd rfl hpurpose
  | continuous | finishing => exact ⟨rfl, rfl⟩
  | final =>
    simp only [Worker.passDone]
    split
    · exact calm_drainDone w hpurpose _
    · split
      · exact calm_drainDone w hpurpose _
      · exact ⟨rfl, rfl⟩

theorem calm_waiting (hpurpose : purpose ≠ .triggered) (pending : List Taken) (stats : PassStats) :
    Calm (.waiting purpose pending stats) :=
  ⟨beq_eq_false_iff_ne.mpr hpurpose, rfl⟩

theorem calm_processSegments (w : Worker) (hpurpose : purpose ≠ .triggered)
    (segments : List Taken) : Calm (w.processSegments purpose segments).phase := by
  rw [Worker.processSegments]
  split
  · exact calm_passDone w hpurpose _
  · exact calm_waiting hpurpose _ _

theorem calm_tookFiles (w : Worker) (hpurpose : purpose ≠ .triggered) (segments : List Taken) :
    Calm (w.tookFiles purpose segments).phase := by
  cases purpose with
  | triggered => exact absurd rfl hpurpose
  | continuous => exact calm_processSegments w hpurpose segments
  | finishing =>
    simp only [Worker.tookFiles]
    split
    · exact ⟨rfl, rfl⟩
    · exact calm_processSegments w hpurpose segments
  | final =>
    simp only [Worker.tookFiles]
    split
    · exact calm_drainDone _ hpurpose _
    · exact calm_processSegments _ hpurpose segments

theorem calm_take (w : Worker) (hpurpose : purpose ≠ .triggered) : Calm (w.take purpose).phase := by
  rw [Worker.take]
  split
  · exact ⟨beq_eq_false_iff_ne.mpr hpurpose, rfl⟩
  · exact calm_tookFiles _ hpurpose _

theorem calm_inspect (w : Worker) (hpurpose : purpose ≠ .triggered) (taken : Taken)
    (epochSecs sealSecs : Nat) (pending : List Taken) (stats : PassStats) :
    Calm (w.inspect purpose taken epochSecs sealSecs pending stats).phase := by
  rw [Worker.inspect.eq_def]
  dsimp only
  split
  · cases taken with
    | disk _ | memory _ => exact calm_waiting hpurpose _ _
  · exact ⟨beq_eq_false_iff_ne.mpr hpurpose, rfl⟩

theorem calm_stageFailed (w : Worker) (hpurpose : purpose ≠ .triggered) (job : Job)
    (kind : ProcessErrorKind) (pending : List Taken) (stats : PassStats) :
    Calm (w.stageFailed purpose job kind pending stats).phase := by
  rw [Worker.stageFailed]
  split
  · exact calm_waiting hpurpose _ _
  · split
    · split
      · split
        · exact calm_waiting hpurpose _ _
        · exact ⟨beq_eq_false_iff_ne.mpr hpurpose, rfl⟩
      · exact calm_waiting hpurpose _ _
    · exact calm_waiting hpurpose _ _

theorem whileWaiting_phase (h : w.whileWaiting e = some next) : next.phase = w.phase := by
  rw [Worker.whileWaiting.eq_def] at h
  split at h
  · split at h
    · rcases Option.ite_none_right_eq_some.mp h with ⟨-, hnext⟩
      cases hnext
      rfl
    · cases h
  · rcases Option.ite_none_right_eq_some.mp h with ⟨-, hnext⟩
    cases hnext
    rfl
  · cases h

/-! ## Steps past the drain -/

/-- Out of a triggered drain the loop goes on with what is not one, or to its top, and what it
goes by on the way to the select stays as it is. -/
inductive Onward (w next : Worker) : Prop
  | top (hphase : next.phase = .top)
  | calm (hcalm : Calm next.phase)
  | goes (hto : toSelect w.phase = true) (hdrain : inDrain next.phase = false)
      (hdumps : next.dumps = w.dumps) (hnow : next.now = w.now)

theorem onward_drainStep (hphase : w.phase = .draining purpose) (hpurpose : purpose ≠ .triggered)
    (h : w.drainStep purpose e = some next) : Onward w next := by
  have hsame : Calm w.phase := hphase ▸ ⟨beq_eq_false_iff_ne.mpr hpurpose, rfl⟩
  unfold Worker.drainStep at h
  split at h
  · split at h
    · cases h
      exact .calm (calm_drainDone w hpurpose _)
    · cases h
  · split at h
    · cases h
      exact .calm (calm_take w hpurpose)
    · rcases Option.ite_none_right_eq_some.mp h with ⟨-, hnext⟩
      cases hnext
      split
      · exact .calm (calm_drainDone w hpurpose _)
      · exact .calm ⟨rfl, rfl⟩
    · rcases Option.ite_none_right_eq_some.mp h with ⟨-, hnext⟩
      rw [← whileWaiting_phase hnext] at hsame
      exact .calm hsame

theorem onward_scanStep {scan : Scan} {d : DiskStore} (hpurpose : purpose ≠ .triggered)
    (h : w.scanStep purpose scan d e = some next) :
    Onward w next := by
  have hscan : ∀ scan, Calm (.scanning purpose scan) :=
    fun scan => ⟨beq_eq_false_iff_ne.mpr hpurpose, rfl⟩
  unfold Worker.scanStep at h
  split at h
  · split at h
    · cases h
      exact .calm (hscan _)
    · cases h
  · split at h
    · cases h
      exact .calm (calm_tookFiles _ hpurpose _)
    · cases h
  · split at h
    · cases h
      exact .calm (hscan _)
    · cases h
  · split at h
    · cases h
      exact .calm (calm_tookFiles _ hpurpose _)
    · cases h
  · cases h

theorem onward_waitStep (hphase : w.phase = .waiting purpose pending stats)
    (hpurpose : purpose ≠ .triggered) (h : w.waitStep purpose pending stats e = some next) :
    Onward w next := by
  have hsame : Calm w.phase := hphase ▸ calm_waiting hpurpose pending stats
  unfold Worker.waitStep at h
  split at h
  · rcases Option.ite_none_right_eq_some.mp h with ⟨-, hnext⟩
    cases hnext
    exact .calm (calm_passDone w hpurpose stats)
  · split at h
    · cases h
      exact .calm ⟨beq_eq_false_iff_ne.mpr hpurpose, rfl⟩
    · cases h
  · rcases Option.ite_none_right_eq_some.mp h with ⟨-, hnext⟩
    cases hnext
    exact .calm (calm_passDone _ hpurpose _)
  · rcases Option.ite_none_right_eq_some.mp h with ⟨-, hnext⟩
    rw [← whileWaiting_phase hnext] at hsame
    exact .calm hsame

theorem onward_openStep {taken : Taken} (hpurpose : purpose ≠ .triggered)
    (h : w.openStep purpose taken pending stats e = some next) : Onward w next := by
  unfold Worker.openStep at h
  split at h
  · rcases Option.ite_none_right_eq_some.mp h with ⟨-, hnext⟩
    cases hnext
    exact .calm (calm_waiting hpurpose _ _)
  · rcases Option.ite_none_right_eq_some.mp h with ⟨-, hnext⟩
    cases hnext
    apply Onward.calm
    dsimp only
    split
    · exact ⟨beq_eq_false_iff_ne.mpr hpurpose, rfl⟩
    · exact calm_waiting hpurpose _ _
  · cases h

variable {stage : Nat}

theorem onward_stageStep {job : Job} (hpurpose : purpose ≠ .triggered)
    (h : w.stageStep purpose job stage pending stats e = some next) : Onward w next := by
  unfold Worker.stageStep at h
  split at h
  · cases h
    split
    · exact .calm ⟨beq_eq_false_iff_ne.mpr hpurpose, rfl⟩
    · exact .calm (calm_waiting hpurpose _ _)
  · cases h
    exact .calm (calm_stageFailed w hpurpose _ _ _ _)
  · cases h
    exact .calm (calm_waiting hpurpose _ _)
  · cases h

theorem onward_resolving {todo : List ActiveDump} {manifest : Option String}
    {after : After} (hafter : after ≠ .again)
    (hphase : next.phase = .resolving todo stage manifest after)
    (hto : after = .check → toSelect w.phase = true ∧ next.dumps = w.dumps ∧ next.now = w.now) :
    Onward w next := by
  cases after with
  | again => exact absurd rfl hafter
  | check =>
    rcases hto rfl with ⟨hto, hdumps, hnow⟩
    exact .goes hto (hphase ▸ rfl) hdumps hnow
  | close => exact .calm (hphase ▸ ⟨rfl, rfl⟩)

theorem onward_resolveStep {todo : List ActiveDump} {manifest : Option String}
    {after : After} (hphase : w.phase = .resolving todo stage manifest after)
    (hafter : after ≠ .again) (h : w.resolveStep todo stage manifest after e = some next) :
    Onward w next := by
  have hto : after = .check → toSelect w.phase = true := by
    rintro rfl
    rw [hphase]
    rfl
  cases e with
  | proceed =>
    rcases Option.ite_none_right_eq_some.mp h with ⟨-, hnext⟩
    cases hnext
    cases after with
    | again => exact absurd rfl hafter
    | check => exact .goes (hto rfl) rfl rfl rfl
    | close => exact .calm ⟨rfl, rfl⟩
  | finalize written =>
    cases todo with
    | nil => cases h
    | cons dump rest =>
      rcases Option.ite_none_right_eq_some.mp h with ⟨-, hnext⟩
      cases hnext
      rcases w.finalizeStage_fields dump stage written with ⟨dumpKeys, manifests, hfields⟩
      rw [hfields]
      exact onward_resolving hafter rfl fun hcheck => ⟨hto hcheck, rfl, rfl⟩
  | receipt finishedAt =>
    cases todo with
    | nil => cases h
    | cons dump rest =>
      rcases Option.ite_none_left_eq_some.mp h with ⟨-, hnext⟩
      cases hnext
      rcases w.sendReceipt_eq dump rest finishedAt manifest after with ⟨message, -, hsent⟩
      rw [hsent]
      exact onward_resolving hafter rfl fun hcheck => ⟨hto hcheck, rfl, rfl⟩
  | _ => cases h

theorem onward_inside (hdrain : inDrain w.phase = false) (h : w.inside e = some next) :
    Onward w next := by
  unfold Worker.inside at h
  cases hphase : w.phase with
  | top =>
    rw [hphase] at hdrain
    exact Bool.noConfusion hdrain
  | draining purpose =>
    simp only [hphase] at h
    rw [hphase] at hdrain
    exact onward_drainStep hphase (ne_of_beq_false hdrain) h
  | scanning purpose scan =>
    simp only [hphase] at h
    rw [hphase] at hdrain
    split at h
    · exact onward_scanStep (ne_of_beq_false hdrain) h
    · cases h
  | waiting purpose pending stats =>
    simp only [hphase] at h
    rw [hphase] at hdrain
    exact onward_waitStep hphase (ne_of_beq_false hdrain) h
  | opening purpose taken pending stats =>
    simp only [hphase] at h
    rw [hphase] at hdrain
    exact onward_openStep (ne_of_beq_false hdrain) h
  | opened purpose taken pending stats =>
    simp only [hphase] at h
    rw [hphase] at hdrain
    split at h
    · rcases Option.ite_none_right_eq_some.mp h with ⟨-, hnext⟩
      cases hnext
      exact .calm (calm_inspect w (ne_of_beq_false hdrain) _ _ _ _ _)
    · cases h
  | staged purpose job stage pending stats =>
    simp only [hphase] at h
    rw [hphase] at hdrain
    exact onward_stageStep (ne_of_beq_false hdrain) h
  | sleeping purpose slot job pending stats =>
    simp only [hphase] at h
    rw [hphase] at hdrain
    split at h
    · cases h
      exact .calm (calm_waiting (ne_of_beq_false hdrain) _ _)
    · cases h
  | resolving todo stage manifest after =>
    simp only [hphase] at h
    have hafter : after ≠ .again := by
      rintro rfl
      rw [hphase] at hdrain
      exact Bool.noConfusion hdrain
    exact onward_resolveStep hphase hafter h
  | check | settled =>
    simp only [hphase] at h
    split at h
    · cases h
      apply Onward.calm
      dsimp only
      split
      · exact ⟨rfl, rfl⟩
      · exact ⟨rfl, rfl⟩
    · cases h
  | select =>
    simp only [hphase] at h
    unfold Worker.selectStep at h
    split at h
    · split at h
      · rcases Option.ite_none_right_eq_some.mp h with ⟨-, hnext⟩
        cases hnext
        split
        · exact .top rfl
        · exact .calm ⟨rfl, rfl⟩
      · cases h
    · rcases Option.ite_none_right_eq_some.mp h with ⟨-, hnext⟩
      cases hnext
      exact .top rfl
    · rcases Option.ite_none_right_eq_some.mp h with ⟨-, hnext⟩
      cases hnext
      exact .top rfl
    · cases h
  | parked =>
    simp only [hphase] at h
    split at h
    · cases h
      exact .calm ⟨rfl, rfl⟩
    · cases h
  | exited | panicked =>
    simp only [hphase] at h
    cases h

/-! ## Every step -/

theorem outside_leaves (h : w.outside e = some next) :
    next.phase = w.phase ∧ next.dumps = w.dumps ∧ (next.now = w.now ∨ e = .tick next.now) := by
  cases e with
  | tick now =>
    rcases Option.ite_none_right_eq_some.mp h with ⟨-, hnext⟩
    cases hnext
    exact ⟨rfl, rfl, .inr rfl⟩
  | send req =>
    rcases Option.ite_none_right_eq_some.mp h with ⟨-, hnext⟩
    cases hnext
    exact ⟨rfl, rfl, .inl rfl⟩
  | sealFile span =>
    simp only [Worker.outside] at h
    split at h
    · rcases Option.map_eq_some_iff.mp h with ⟨d, -, hnext⟩
      cases hnext
      exact ⟨rfl, rfl, .inl rfl⟩
    · cases h
  | sealSlot slot =>
    simp only [Worker.outside] at h
    split at h
    · rcases Option.map_eq_some_iff.mp h with ⟨m, -, hnext⟩
      cases hnext
      exact ⟨rfl, rfl, .inl rfl⟩
    · cases h
  | evictUnlink _ | evictDropClaim _ =>
    simp only [Worker.outside] at h
    split at h
    · rcases Option.ite_none_right_eq_some.mp h with ⟨-, hnext⟩
      cases hnext
      exact ⟨rfl, rfl, .inl rfl⟩
    · cases h
  | dropTriggers | cancel | finishWriting =>
    cases h
    exact ⟨rfl, rfl, .inl rfl⟩
  | _ => cases h

theorem passDone_triggered (hretry : stats.retryDumpIds ≠ [])
    (hinterruption : stats.interruption = none) :
    (w.passDone .triggered stats).now = w.now ∧
      (w.passDone .triggered stats).phase = .resolving (sweep (fun d => d.due w.now &&
        !holds w.store stats.retryDumpIds d) w.dumps).1 0 none .check ∧
      (w.passDone .triggered stats).dumps = (sweep (fun d => d.due w.now &&
        !holds w.store stats.retryDumpIds d) w.dumps).2 := by
  have hhold : (stats.interruption.isSome || !stats.retryDumpIds.isEmpty) = true := by
    rw [List.isEmpty_eq_false_iff.mpr hretry, Bool.not_false, Bool.or_true]
  have hdone : w.passDone .triggered stats =
      w.drainDone .triggered ⟨stats.retryDumpIds, stats.interruption⟩ := if_pos hhold
  rw [hdone, hinterruption]
  exact ⟨rfl, rfl, rfl⟩

theorem holdAfter_eq (hpass : ∀ stats, s.worker.phase = .waiting .triggered [] stats → e ≠ .proceed)
    (next : Worker) :
    s.holdAfter e next = if next.phase = .top then [] else s.retryHold := by
  rw [holdAfter.eq_def]
  split
  · rename_i hphase
    exact absurd rfl (hpass _ hphase)
  · rfl

theorem not_overdue_of_not_due {dump : ActiveDump} {now : Nat} (h : dump.due now = false) :
    dump.overdue now = false := by
  rw [ActiveDump.overdue]
  rw [ActiveDump.due] at h
  cases hdeadline : dump.deadline with
  | none => rfl
  | some deadline =>
    rw [hdeadline] at h
    exact h

theorem onTime_passDone (hphase : s.worker.phase = .waiting .triggered [] stats)
    (htime : s.InTime .proceed) (hinterruption : stats.interruption = none)
    (hretry : stats.retryDumpIds ≠ []) :
    OnTime ⟨s.worker.passDone .triggered stats, stats.retryDumpIds⟩ := by
  rcases passDone_triggered (w := s.worker) hretry hinterruption with ⟨hnow, hnext, hdumps⟩
  intro _
  refine ⟨by rw [hnext]; rfl, fun _ d hd => ?_⟩
  dsimp only at hd ⊢
  rw [hdumps] at hd
  rw [hnow]
  have hmem : d ∈ s.worker.dumps := (sweep_perm _ _).subset (List.mem_append_right _ hd)
  have hkept := (sweepFrom_spec _ _ _ (Nat.le_refl _)).2.2 d hd
  cases hheld : holds s.worker.store stats.retryDumpIds d with
  | true => exact htime.held stats hphase rfl d hmem hheld
  | false =>
    rw [hheld, Bool.not_false, Bool.and_true] at hkept
    exact not_overdue_of_not_due hkept

theorem onTime_step {s next : TriggeredLoop} (hs : s.OnTime) (htime : s.InTime e)
    (h : s.step e = some next) : next.OnTime := by
  rcases Option.map_eq_some_iff.mp h with ⟨w', hstep, hnext⟩
  cases hnext
  by_cases hpass : ∃ stats, s.worker.phase = .waiting .triggered [] stats ∧ e = .proceed
  · rcases hpass with ⟨stats, hphase, rfl⟩
    have hw : w' = s.worker.passDone .triggered stats := by
      rw [Worker.step, Worker.inside, hphase] at hstep
      exact (Option.some.inj hstep).symm
    intro hhold
    have hafter : s.holdAfter .proceed w' =
        if stats.interruption = none then stats.retryDumpIds else [] := by
      simp only [holdAfter, hphase]
    dsimp only at hhold
    rw [hafter] at hhold
    by_cases hinterruption : stats.interruption = none
    · rw [if_pos hinterruption] at hhold
      exact hw ▸ onTime_passDone hphase htime hinterruption hhold hhold
    · rw [if_neg hinterruption] at hhold
      exact absurd rfl hhold
  · have hafter := holdAfter_eq (fun stats hphase he => hpass ⟨stats, hphase, he⟩) w'
    intro hhold
    dsimp only at hhold ⊢
    rw [hafter] at hhold
    by_cases htop : w'.phase = .top
    · rw [if_pos htop] at hhold
      exact absurd rfl hhold
    · rw [if_neg htop] at hhold
      rcases hs hhold with ⟨hdrain, hdumps⟩
      rcases Option.or_eq_some_iff.mp hstep with houtside | ⟨-, hinside⟩
      · rcases outside_leaves houtside with ⟨hphase, hsame, hnow⟩
        rw [hphase, hsame]
        refine ⟨hdrain, fun hto d hd => ?_⟩
        rcases hnow with hnow | htick
        · rw [hnow]
          exact hdumps hto d hd
        · exact htime.ticks _ htick hto hhold d hd
      · cases onward_inside hdrain hinside with
        | top hphase => exact absurd hphase htop
        | calm hcalm => exact ⟨hcalm.1, fun hto => absurd hto (Bool.eq_false_iff.mp hcalm.2)⟩
        | goes hto hdrain' hsame hnow =>
          refine ⟨hdrain', fun _ d hd => ?_⟩
          rw [hsame] at hd
          rw [hnow]
          exact hdumps hto d hd

theorem sleepElapsed_eq_false (h : ∀ d ∈ w.dumps, d.overdue w.now = false) :
    sleepElapsed w = false := by
  rw [sleepElapsed]
  cases hmin : (w.dumps.filterMap ActiveDump.deadline).min? with
  | none => rfl
  | some deadline =>
    rcases List.mem_filterMap.mp (List.min?_mem hmin) with ⟨d, hd, hdeadline⟩
    have hopen := h d hd
    rw [ActiveDump.overdue, hdeadline] at hopen
    exact hopen

theorem OnTime.paced (hs : s.OnTime) : s.Paced := by
  intro next hstarts hphase _ hheld
  rcases Option.map_eq_some_iff.mp hstarts with ⟨w', hstep, hnext⟩
  cases hnext
  rcases hheld with ⟨d, -, hheld⟩
  have hhold : s.holdAfter .proceed w' ≠ [] := by
    intro hnil
    dsimp only at hheld
    rw [hnil] at hheld
    exact Bool.noConfusion hheld
  have hafter := holdAfter_eq (s := s) (e := .proceed)
    (fun stats hwaiting => absurd (hphase.symm.trans hwaiting) Phase.noConfusion) w'
  rw [hafter] at hhold
  by_cases htop : w'.phase = .top
  · rw [if_pos htop] at hhold
    exact absurd rfl hhold
  · rw [if_neg htop] at hhold
    have hw :
        w' = { s.worker with phase := if s.worker.ending then .draining .final else .select } := by
      rw [Worker.step, Worker.inside, hphase] at hstep
      exact (Option.some.inj hstep).symm
    apply sleepElapsed_eq_false
    rw [hw]
    exact (hs hhold).2 (hphase ▸ rfl)

theorem onTime_start (pipeline : Pipeline) (store : Store) : (start pipeline store).OnTime :=
  fun hhold => absurd rfl hhold

/-- In a run in which no pass ends with a hold on a dump whose deadline has gone by, and none
goes by on the way to the select, a retry that holds a dump open is paced by the select. -/
theorem paced_throughout {pipeline : Pipeline} {store : Store} {events : List WorkerEvent}
    (htime : Along step InTime (start pipeline store) events) :
    Throughout step Paced (start pipeline store) events :=
  throughout_of_along (fun _ _ _ => onTime_step) (fun _ => OnTime.paced)
    (onTime_start pipeline store) htime

/-- A dump of everything, and of what is sealed in the next nanoseconds. -/
def dumpAhead (lookforward : Nat) : DumpRequest :=
  ⟨7, 0x44 * 10 ^ 9, .unbounded, lookforward, []⟩

/-- A file is sealed and a dump asked for; five nanoseconds on, the upload of the file fails and
may be retried, and the worker comes to its select. -/
def retriedUpload (lookforward : Nat) : List WorkerEvent :=
  [.sealFile ⟨0, 0x41, 0x42⟩, .send (dumpAhead lookforward), .proceed, .proceed, .receive 0,
    .tick 5, .proceed, .ready, .list, .readClaims, .recordClaims fun _ => 0, .ready, .load .loaded,
    .inspected 0x41 0x42, .stage (.failed (.transfer "503" true)), .proceed, .proceed]

/-- The deadline is ahead, and the worker sleeps. -/
theorem paced_throughout_retriedUpload :
    (run step (start Worker.uploading (.disk .empty)) (retriedUpload 10 ++ [.proceed])).map
      (fun s =>
        (s.worker.phase, s.retryHold, sleepElapsed s.worker)) = some (.select, [7], false) ∧
      Throughout step Paced (start Worker.uploading (.disk .empty))
        (retriedUpload 10 ++ [.proceed]) :=
  ⟨by decide, paced_throughout (by decide)⟩

/-- The deadline of the dump that the retry holds has gone by: the sleep of the select is over
as it starts, and the worker goes on to its next pass. -/
theorem retriedUpload_spins :
    (run step (start Worker.uploading (.disk .empty)) (retriedUpload 1 ++ [.proceed])).map (fun s =>
        (s.worker.phase, s.retryHold, sleepElapsed s.worker)) = some (.select, [7], true) ∧
      ¬ Throughout step Paced (start Worker.uploading (.disk .empty)) (retriedUpload 1) := by
  refine ⟨by decide, fun hpaced => ?_⟩
  have hends : ((run step (start Worker.uploading (.disk .empty)) (retriedUpload 1)).bind fun s =>
      (s.step .proceed).map fun next => (s.worker.phase, next.worker.phase,
        next.worker.dumps.any (holds next.worker.store next.retryHold),
        sleepElapsed next.worker)) = some (.check, .select, true, true) := by
    decide
  rcases Option.bind_eq_some_iff.mp hends with ⟨s, hs, hends⟩
  rcases Option.map_eq_some_iff.mp hends with ⟨next, hnext, hends⟩
  simp only [Prod.mk.injEq] at hends
  have hover := hpaced.last hs next hnext hends.1 hends.2.1 (List.any_eq_true.mp hends.2.2.1)
  exact Bool.false_ne_true (hover.symm.trans hends.2.2.2)

end TriggeredLoop

end Dial9.Core
