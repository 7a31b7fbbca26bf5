/-
# Rosters every process can read

One roster that fails the check stops a whole pool: every process reads it, and
none can replace it. Rosters fail the check at one place only. A pass that runs
on past the windows it began in may promote a control that no reservation has
come to yet, and a successor whose clock is behind then dates its own control no
later. Where no pass does that, every stored roster passes the check.
-/

import Dial9.Sampling.CasChain
import Dial9.Sampling.Validity

namespace Dial9.Sampling

open Dial9.Lib

variable {F : Type} [Outside F]

/-! ## Windows and times -/

variable {config : Config}

theorem Timing.closure_lt_width (h : config.Valid F) :
    (Timing.new config).closure < (Timing.new config).width := by
  have hskew := h.skew_lt
  simp only [Timing.new]
  omega

theorem Timing.div_width_le (h : config.Valid F) (now : Nat) :
    now / (Timing.new config).width ≤
      (now - (Timing.new config).closure) / (Timing.new config).width + 1 := by
  have hclosure := closure_lt_width h
  have hwidth : 0 < (Timing.new config).width := lt_of_le_of_lt (Nat.zero_le _) hclosure
  rw [← Nat.add_div_right _ hwidth]
  exact Nat.div_le_div_right (by omega)

variable {now window ms ms' index : Nat}

theorem Timing.completed_eq_some (h : config.Valid F)
    (hcompleted : (Timing.new config).completed now = some window) :
    window + 1 ≤ now / (Timing.new config).width ∧
      now / (Timing.new config).width ≤ window + 2 := by
  have hpresent := div_width_le h now
  have hclosed : (now - (Timing.new config).closure) / (Timing.new config).width ≤
      now / (Timing.new config).width := Nat.div_le_div_right (Nat.sub_le _ _)
  unfold Timing.completed at hcompleted
  rcases Option.ite_none_right_eq_some.mp hcompleted with ⟨⟨-, -, hone⟩, hwindow⟩
  have hwindow := Option.some.inj hwindow
  omega

theorem Timing.completed_eq_none (h : config.Valid F)
    (hcompleted : (Timing.new config).completed now = none) :
    now / (Timing.new config).width ≤ 1 := by
  have hclosure := closure_lt_width h
  have hpresent := div_width_le h now
  have hwidth : 0 < (Timing.new config).width := lt_of_le_of_lt (Nat.zero_le _) hclosure
  by_contra hlater
  have hone : 1 ≤ (now - (Timing.new config).closure) / (Timing.new config).width := by omega
  have hclosed : (Timing.new config).closure ≤ now := by
    by_contra hbefore
    rw [Nat.sub_eq_zero_of_le (by omega), Nat.zero_div] at hone
    exact absurd hone (by decide)
  rw [Timing.completed, if_pos ⟨hclosed, hwidth, hone⟩] at hcompleted
  cases hcompleted

/-! ## Controls that have come -/

/-- The last window by which the control in force is due, by the last reserved
window alone. -/
def Roster.due (roster : Roster F) : Nat := roster.lastWindow.elim 1 (· + 2)

/-- The control in force came by one of the times, with the skew to spare. -/
def Roster.CameBy (times : List Nat) (roster : Roster F) : Prop :=
  ∃ time ∈ times,
    roster.control.effectiveWindow * roster.policy.windowMs + roster.policy.skewMs ≤ time

/-- The control in force is due, or it came. -/
def Roster.Settled (times : List Nat) (roster : Roster F) : Prop :=
  roster.control.effectiveWindow ≤ roster.due ∨ roster.CameBy times

/-- A reservation made at a time: its window is past, and its control has come. -/
structure Roster.Begun (times : List Nat) (now window : Nat) (roster : Roster F) : Prop where
  past : window + 1 ≤ now / roster.policy.windowMs
  control : roster.control.effectiveWindow ≤ now / roster.policy.windowMs ∨ roster.CameBy times

namespace Roster

variable {times more : List Nat} {before after : Roster F} {config : Config} {revision : String}

section

omit [Outside F]

theorem CameBy.mono {roster : Roster F} (h : roster.CameBy times)
    (hsub : ∀ time ∈ times, time ∈ more) : roster.CameBy more := by
  rcases h with ⟨time, hmem, hcame⟩
  exact ⟨time, hsub time hmem, hcame⟩

theorem CameBy.come {roster : Roster F} (h : roster.CameBy times)
    (hwidth : 0 < roster.policy.windowMs)
    (hnow : ∀ time ∈ times, time ≤ now + roster.policy.skewMs) :
    roster.control.effectiveWindow ≤ now / roster.policy.windowMs := by
  rcases h with ⟨time, hmem, hcame⟩
  have hlate := hnow time hmem
  rw [Nat.le_div_iff_mul_le hwidth]
  omega

theorem due_of_assess (h : before.assess config now = some window) :
    (Timing.new config).completed now = some window ∧ before.due ≤ window + 1 := by
  rcases Option.filter_eq_some_iff.mp h with ⟨hcompleted, hlater⟩
  refine ⟨hcompleted, ?_⟩
  unfold due
  cases hlast : before.lastWindow with
  | none =>
    show 1 ≤ window + 1
    omega
  | some last =>
    rw [hlast] at hlater
    have hlt : last < window := of_decide_eq_true hlater
    show last + 2 ≤ window + 1
    omega

end

theorem due_of_assess_none (hconfig : config.Valid F) (h : before.assess config now = none) :
    now / (Timing.new config).width ≤ before.due := by
  unfold due
  cases hcompleted : (Timing.new config).completed now with
  | none =>
    have hearly := Timing.completed_eq_none hconfig hcompleted
    cases before.lastWindow with
    | none => exact hearly
    | some last =>
      show _ ≤ last + 2
      omega
  | some window =>
    have hpresent := (Timing.completed_eq_some hconfig hcompleted).2
    rw [assess, hcompleted, Option.filter_eq_none_iff] at h
    cases hlast : before.lastWindow with
    | none => simp [hlast] at h
    | some last =>
      have hle : window ≤ last := by simpa [hlast] using h
      show _ ≤ last + 2
      omega

theorem Settled.reserve {now : Nat} (h : before.Settled times) (hconfig : config.Valid F)
    (hpolicy : before.policy = .new config)
    (hreserve : before.reserve config now revision = .ok after) :
    after.Settled times ∧
      ∀ window, before.assess config now = some window → after.Begun times now window := by
  have hwidth : (Timing.new config).width = before.policy.windowMs := by
    rw [hpolicy]
    rfl
  have hpresent : now / before.policy.windowMs ≤
      Roster.due { before with lastWindow := (before.assess config now).or before.lastWindow } := by
    rw [← hwidth]
    cases hassess : before.assess config now with
    | none => exact due_of_assess_none hconfig hassess
    | some window => exact (Timing.completed_eq_some hconfig (due_of_assess hassess).1).2
  have hdue : before.due ≤
      Roster.due { before with lastWindow := (before.assess config now).or before.lastWindow } := by
    cases hassess : before.assess config now with
    | none => exact le_refl before.due
    | some window => exact (due_of_assess hassess).2.trans (Nat.le_succ (window + 1))
  have hpast : ∀ window, before.assess config now = some window →
      window + 1 ≤ now / before.policy.windowMs ∧ before.due ≤ window + 1 := by
    intro window hassess
    rcases due_of_assess hassess with ⟨hcompleted, hlast⟩
    rw [← hwidth]
    exact ⟨(Timing.completed_eq_some hconfig hcompleted).1, hlast⟩
  rw [reserve_eq_ok hreserve, hwidth]
  rcases before.promote_cases (now / before.policy.windowMs) with
    hsame | ⟨control, -, hcome, hpromote⟩
  · rw [hsame]
    constructor
    · rcases h with hold | hcame
      · exact .inl (hold.trans hdue)
      · exact .inr hcame
    · intro window hassess
      rcases hpast window hassess with ⟨hwindow, hlast⟩
      refine ⟨hwindow, ?_⟩
      rcases h with hold | hcame
      · exact .inl ((hold.trans hlast).trans hwindow)
      · exact .inr hcame
  · rw [hpromote]
    constructor
    · exact .inl (hcome.trans hpresent)
    · intro window hassess
      exact ⟨(hpast window hassess).1, .inl hcome⟩

/-- The end of a pass leaves a settled roster, if what it promotes is due or has
come by its clock with the skew to spare. -/
theorem Settled.publish {window finished : Nat}
    {census profilers : Except StoreError (Sample F)} {salt : String}
    (h : before.Settled times) (hpolicy : before.policy = .new config)
    (hlast : before.lastWindow = some window)
    (htimely : ∀ control, before.nextControl = some control →
      control.effectiveWindow ≤ finished / config.bucketWidth →
        control.effectiveWindow ≤ window + 2 ∨
          control.effectiveWindow * config.bucketWidth + config.maxClockSkew ≤ finished)
    (hpublish : before.publish config window finished census profilers revision salt =
      .ok after) : after.Settled (finished :: times) := by
  have hdue : before.due = window + 2 := by
    rw [due, hlast]
    rfl
  rw [publish_eq_ok hpublish]
  rcases update_frame { before.promote (finished / (Timing.new config).width) with
      holder := config.invocationId, revision, epoch := before.epoch + 1 } config window finished
      census profilers salt with ⟨next, population, trim, hupdate⟩
  rw [hupdate]
  rcases before.promote_cases (finished / (Timing.new config).width) with
    hsame | ⟨control, hnext, hcome, hpromote⟩
  · rw [hsame]
    rcases h with hold | hcame
    · exact .inl hold
    · exact .inr (CameBy.mono hcame fun _ => List.mem_cons_of_mem _)
  · rw [hpromote]
    rcases htimely control hnext hcome with hsoon | hlate
    · left
      show control.effectiveWindow ≤ before.due
      rw [hdue]
      exact hsoon
    · right
      refine ⟨finished, List.mem_cons_self, ?_⟩
      show control.effectiveWindow * before.policy.windowMs + before.policy.skewMs ≤ finished
      rw [hpolicy]
      exact hlate

end Roster

/-! ## Clocks -/

/-- The readings an event was handed. -/
def Event.clock : Event F → Option Clock
  | .move _ (.got _ clock _) => some clock
  | .move _ (.put _ clock) => some clock
  | .move _ (.expired clock) => some clock
  | .move _ (.wake clock) => some clock
  | .move _ (.notice clock) => some clock
  | .move _ (.slept clock) => some clock
  | .move _ (.proceed clock) => some clock
  | .move _ (.censused _ _ clock _) => some clock
  | .move _ (.reschedule clock) => some clock
  | _ => none

/-- Of two events, the later reads no clock that is further behind than the skew. -/
def Event.Agree (skew : Nat) (earlier later : Event F) : Prop :=
  ∀ clock clock', earlier.clock = some clock → later.clock = some clock' →
    ∀ call call', clock call ≤ clock' call' + nanos skew

/-- Clocks that differ by at most a skew: no reading is further behind an earlier one. -/
def ClocksAgree (skew : Nat) (events : List (Event F)) : Prop := events.Pairwise (Event.Agree skew)

/-- Every process is configured for the skew. -/
def Event.Tolerates (skew : Nat) (event : Event F) : Prop :=
  ∀ index config uncertainty, event = .start index config uncertainty →
    skew ≤ config.maxClockSkew

/-- The time at which a pass ends. -/
def Event.finished : Event F → Option Nat
  | .move _ (.censused _ _ clock _) => (millis (clock 0)).toOption
  | _ => none

variable {skew : Nat}

theorem millis_le_millis {t t' : Int}
    (hle : t ≤ t' + nanos skew) (h : millis t = .ok ms) (h' : millis t' = .ok ms') :
    ms ≤ ms' + skew := by
  rcases millis_eq_ok h with ⟨hpos, hms, -⟩
  rcases millis_eq_ok h' with ⟨hpos', hms', -⟩
  have hnanos : nanos skew = skew * 1000000 := rfl
  rw [hnanos] at hle
  omega

theorem Event.Agree.finished_le {earlier later : Event F}
    (h : earlier.Agree skew later) (hearlier : earlier.finished = some ms)
    (hlater : later.finished = some ms') : ms ≤ ms' + skew := by
  unfold Event.finished at hearlier hlater
  split at hearlier
  · split at hlater
    · rename_i clock _ _ _ _ _ clock' _
      have hle := h clock clock' rfl rfl 0 0
      cases hms : millis (clock 0) with
      | error e => simp [hms, Except.toOption] at hearlier
      | ok n =>
        cases hms' : millis (clock' 0) with
        | error e => simp [hms', Except.toOption] at hlater
        | ok n' =>
          simp only [hms, hms', Except.toOption, Option.some.injEq] at hearlier hlater
          rw [← hearlier, ← hlater]
          exact millis_le_millis hle hms hms'
    · cases hlater
  · cases hearlier

variable [DecidableEq F]

namespace Fleet

/-- A pass ends timely: its clock has not gone back since it began, and a control
it promotes at its end is due by the window after next, or came longer ago than
clocks can differ. -/
def Timely (fleet : Fleet F) (event : Event F) : Prop :=
  ∀ index census profilers clock nonces process now window reserved finished,
    event = .move index (.censused census profilers clock nonces) →
      fleet.processes index = some process → process.phase = .observing now window reserved →
        millis (clock 0) = .ok finished →
          now ≤ finished ∧ ∀ control, reserved.roster.nextControl = some control →
            control.effectiveWindow ≤ finished / process.worker.config.bucketWidth →
              control.effectiveWindow ≤ window + 2 ∨
                control.effectiveWindow * process.worker.config.bucketWidth +
                  process.worker.config.maxClockSkew ≤ finished

variable {fleet : Fleet F}

omit [DecidableEq F] in
theorem timely_of_finished {event : Event F} (h : event.finished = none) : fleet.Timely event := by
  rintro index census profilers clock nonces process now window reserved finished rfl - - hfinished
  simp [Event.finished, hfinished, Except.toOption] at h

/-- What holds while every pass ends timely; the times are those at which passes
have ended. -/
structure Steady (skew : Nat) (times : List Nat) (fleet : Fleet F) : Prop where
  ledger : fleet.Ledger
  /-- There was no roster before the first process. -/
  bare : ∀ object roster, fleet.first = some object → object.body ≠ .roster roster
  valid : ∀ request ∈ fleet.requests, request.roster.Valid
  settled : ∀ request ∈ fleet.requests, request.roster.Settled times
  begun : ∀ request ∈ fleet.requests, ∀ now window,
    request.purpose = .reserve now (some window) →
      request.roster.Begun times now window ∧ request.roster.lastWindow = some window
  configured : ∀ index process, fleet.processes index = some process →
    process.phase = .stopped ∨
      process.worker.config.Valid F ∧ skew ≤ process.worker.config.maxClockSkew

namespace Steady

variable {skew : Nat} {times more : List Nat} {fleet next : Fleet F} {event : Event F}

section

variable (h : fleet.Steady skew times)
include h

theorem mono (hsub : ∀ time ∈ times, time ∈ more) : fleet.Steady skew more := by
  refine ⟨h.ledger, h.bare, h.valid, ?_, ?_, h.configured⟩
  · intro request hrequest
    exact (h.settled request hrequest).imp id fun hcame => hcame.mono hsub
  · intro request hrequest now window hpurpose
    rcases h.begun request hrequest now window hpurpose with ⟨⟨hpast, hcontrol⟩, hlast⟩
    exact ⟨⟨hpast, hcontrol.imp id fun hcame => hcame.mono hsub⟩, hlast⟩

theorem of_known {config : Config} {observed : Observed F}
    (hknown : Known fleet.history config observed) :
    ∃ request ∈ fleet.requests, request.roster = observed.roster := by
  rcases hknown with ⟨-, object, hmem, hbody, -⟩
  rcases h.ledger.grown.written hmem with hfirst | ⟨put, hput, hputBody, -⟩
  · exact absurd hbody (h.bare object _ hfirst)
  · rcases List.mem_map.mp hput with ⟨request, hrequest, rfl⟩
    exact ⟨request, hrequest, Body.roster.inj (hputBody.trans hbody)⟩

theorem of_known_valid {config : Config} {observed : Observed F}
    (hknown : Known fleet.history config observed) :
    observed.roster.Valid ∧ observed.roster.Settled times := by
  rcases h.of_known hknown with ⟨request, hrequest, hroster⟩
  rw [← hroster]
  exact ⟨h.valid request hrequest, h.settled request hrequest⟩

theorem issue {process : Process F}
    (hprocess : fleet.processes index = some process) {move : Move F} {request : Request F}
    (hemits : process.Emits fleet.history move request)
    (hrunning : process.phase ≠ .stopped) (htimely : fleet.Timely (.move index move))
    (hclock : ∀ time ∈ times, ∀ finished,
      Event.finished (F := F) (.move index move) = some finished →
      time ≤ finished + skew) :
    request.roster.Valid ∧
      request.roster.Settled ((Event.finished (F := F) (.move index move)).toList ++ times) ∧
      ∀ now window, request.purpose = .reserve now (some window) →
        request.roster.Begun times now window ∧ request.roster.lastWindow = some window := by
  have hcustody := h.ledger.custody index process hprocess
  rcases (h.configured index process hprocess).resolve_left hrunning with ⟨hconfig, hskew⟩
  cases hemits with
  | @found since answer clock nonces previous roster hanswer _ hfound =>
    unfold Worker.found at hfound
    cases hnow : millis (clock 0) with
    | error e =>
      rw [hnow] at hfound
      cases hfound
    | ok now =>
      rw [hnow] at hfound
      refine ⟨.found hconfig.ulid nonces.revision.property hfound, ?_, by simp⟩
      rw [Roster.found_eq_ok hfound]
      exact .inl (Nat.zero_le _)
  | @claim since answer clock nonces observed roster hanswer hread hclaim =>
    rcases h.of_known_valid (Process.known_of_readRoster hanswer hread) with ⟨hvalid, hsettled⟩
    refine ⟨hvalid.claim hconfig.ulid nonces.revision.property hclaim, ?_, by simp⟩
    rw [Roster.claim_eq_ok hclaim]
    exact hsettled
  | @reserve since now answer clock nonces current roster hanswer hread _ hreserve =>
    have hknown := Process.known_of_readRoster hanswer hread
    rcases h.of_known_valid hknown with ⟨hvalid, hsettled⟩
    rcases hsettled.reserve hconfig hknown.1 hreserve with ⟨hafter, hbegun⟩
    refine ⟨hvalid.reserve hconfig.ulid nonces.revision.property hreserve, hafter, ?_⟩
    intro now' window hpurpose
    rcases Purpose.reserve.inj hpurpose with ⟨rfl, hassess⟩
    refine ⟨hbegun window hassess, ?_⟩
    rw [Roster.reserve_eq_ok hreserve]
    show (current.roster.assess process.worker.config now).or _ = some window
    rw [hassess]
    rfl
  | @publish now window finished reserved census profilers clock nonces roster hphase hfinished
      hpublish =>
      have hobserving := hcustody.phase
      rw [hphase] at hobserving
      rcases hobserving with ⟨hknown, -, -, reservation, hmem, hroster, hserves⟩
      rcases h.of_known_valid hknown with ⟨hvalid, hsettled⟩
      rcases h.begun reservation hmem now window (Write.purpose_of_reservation hserves) with
        ⟨hbegun, hlast⟩
      rw [hroster] at hbegun hlast
      rcases htimely index census profilers clock nonces process now window reserved finished rfl
        hprocess hphase hfinished with ⟨hlater, hpromotes⟩
      have hended :
          Event.finished (F := F) (.move index (.censused census profilers clock nonces)) =
          some finished := by
        simp [Event.finished, hfinished, Except.toOption]
      have hwidth : reserved.roster.policy.windowMs = process.worker.config.bucketWidth := by
        rw [hknown.1]
        rfl
      have hskewMs : reserved.roster.policy.skewMs = process.worker.config.maxClockSkew := by
        rw [hknown.1]
        rfl
      have hpast : now / process.worker.config.bucketWidth ≤
          finished / process.worker.config.bucketWidth := Nat.div_le_div_right hlater
      have hcome : reserved.roster.control.effectiveWindow ≤
          finished / process.worker.config.bucketWidth := by
        rcases hbegun.control with hcontrol | hcame
        · rw [hwidth] at hcontrol
          exact hcontrol.trans hpast
        · rw [← hwidth]
          apply hcame.come
          · rw [hwidth]
            exact lt_of_lt_of_le (by decide) hconfig.width_pos
          · intro time htime
            have hlate := hclock time htime finished hended
            rw [hskewMs]
            omega
      have hwindow : window ≤ finished / process.worker.config.bucketWidth := by
        have hbefore := hbegun.past
        rw [hwidth] at hbefore
        omega
      refine ⟨hvalid.publish hconfig.ulid nonces.revision.property nonces.salt.property hcome
        hwindow (millis_eq_ok hfinished).2.2 hpublish, ?_, by simp⟩
      rw [hended]
      exact hsettled.publish hknown.1 hlast hpromotes hpublish
  | @release nonces leader roster hleader hrelease =>
    rcases h.of_known_valid (hcustody.remembers.leading leader hleader).1 with
      ⟨hvalid, hsettled⟩
    refine ⟨hvalid.release hconfig.ulid nonces.revision.property hrelease, ?_, by simp⟩
    rw [Roster.release_eq_ok hrelease]
    exact hsettled

theorem configured_put {before after : Process F} (hbefore : fleet.processes index = some before)
    (hconfig : after.worker.config = before.worker.config)
    (hstopped : before.phase = .stopped → after.phase = .stopped) (other : Nat)
    (process : Process F) (hprocess : (fleet.put index after).processes other = some process) :
    process.phase = .stopped ∨
      process.worker.config.Valid F ∧ skew ≤ process.worker.config.maxClockSkew := by
  rcases put_eq_some hprocess with ⟨-, rfl⟩ | hother
  · rw [hconfig]
    exact (h.configured index before hbefore).imp hstopped id
  · exact h.configured other process hother

theorem step (htolerates : event.Tolerates skew) (htimely : fleet.Timely event)
    (hclock : ∀ time ∈ times, ∀ finished, event.finished = some finished →
      time ≤ finished + skew)
    (hstep : fleet.step event = some next) :
    next.Steady skew (event.finished.toList ++ times) := by
  have hledger := h.ledger.step hstep
  have hsub : ∀ time ∈ times, time ∈ event.finished.toList ++ times :=
    fun _ => List.mem_append_right _
  have hold := h.mono hsub
  cases steps_of_step hstep with
  | @start index uncertainty config =>
    refine ⟨hledger, h.bare, hold.valid, hold.settled, hold.begun, ?_⟩
    intro other process hprocess
    rcases put_eq_some hprocess with ⟨-, rfl⟩ | hother
    · unfold Process.start
      dsimp only
      split_ifs with hvalid
      · right
        rcases Bool.and_eq_true_iff.mp hvalid with ⟨hok, -⟩
        refine ⟨?_, htolerates index config uncertainty rfl⟩
        cases hconfig : config.validate F with
        | error e =>
          rw [hconfig] at hok
          cases hok
        | ok u => exact Config.valid_of_validate hconfig
      · exact .inl rfl
    · exact h.configured other process hother
  | @polled index move process polled hprocess hpolled =>
    refine ⟨hledger, h.bare, hold.valid, hold.settled, hold.begun, ?_⟩
    have hcustody := Process.custody_of_pollTurn hpolled (h.ledger.custody _ _ hprocess)
    apply h.configured_put hprocess hcustody.config
    rw [Process.phase_of_pollTurn hpolled]
    exact id
  | @silent index move process turn hprocess hturn hissued =>
    refine ⟨hledger, h.bare, hold.valid, hold.settled, hold.begun, ?_⟩
    apply h.configured_put hprocess (h.ledger.silent hprocess hturn hissued).config
    exact fun hstopped => (Process.stopped_of_turn hstopped hturn).1
  | @issued index move process turn request hprocess hturn hissued hfresh =>
    have hrunning : process.phase ≠ .stopped := by
      intro hstopped
      rw [(Process.stopped_of_turn hstopped hturn).2] at hissued
      cases hissued
    have hemits := (Process.turns_of_turn hturn).emits hissued
    rcases h.issue hprocess hemits hrunning htimely hclock with ⟨hvalid, hsettled, hbegun⟩
    refine ⟨hledger, h.bare, ?_, ?_, ?_, ?_⟩
    · intro r hr
      rcases List.mem_cons.mp hr with rfl | hmem
      · exact hvalid
      · exact h.valid r hmem
    · intro r hr
      rcases List.mem_cons.mp hr with rfl | hmem
      · exact hsettled
      · exact hold.settled r hmem
    · intro r hr now window hpurpose
      rcases List.mem_cons.mp hr with rfl | hmem
      · rcases hbegun now window hpurpose with ⟨⟨hpast, hcontrol⟩, hlast⟩
        exact ⟨⟨hpast, hcontrol.imp id fun hcame => hcame.mono hsub⟩, hlast⟩
      · exact hold.begun r hmem now window hpurpose
    · apply h.configured_put hprocess (h.ledger.issued hprocess hturn hissued hfresh).2.config
      exact fun hstopped => absurd hstopped hrunning
  | commit => exact ⟨hledger, h.bare, hold.valid, hold.settled, hold.begun, h.configured⟩

end

end Steady

/-! ## Whole runs -/

/-- Every stored roster passes the check, so that every process can read it. -/
structure Readable (fleet : Fleet F) : Prop where
  valid : ∀ commit ∈ fleet.commits, commit.request.roster.validate = .ok ()
  decodes : ∀ commit ∈ fleet.commits, ∀ config,
    ∃ decoded, decode commit.stored config = .ok decoded
  ordered : ∀ commit ∈ fleet.commits, ∀ control, commit.request.roster.nextControl = some control →
    commit.request.roster.control.effectiveWindow < control.effectiveWindow

theorem Steady.readable {skew : Nat} {times : List Nat}
    (h : fleet.Steady skew times) : fleet.Readable := by
  have hvalid : ∀ commit ∈ fleet.commits, commit.request.roster.Valid :=
    fun commit hcommit => h.valid _ (h.ledger.chain.of_mem hcommit).1
  refine ⟨?_, ?_, ?_⟩
  · intro commit hcommit
    exact Roster.validate_eq_ok.mpr (hvalid commit hcommit)
  · intro commit hcommit config
    unfold decode
    rw [h.ledger.chain.body_of_mem hcommit]
    dsimp only
    split_ifs
    · exact ⟨_, rfl⟩
    · rw [Roster.validate_eq_ok.mpr (hvalid commit hcommit)]
      exact ⟨_, rfl⟩
  · intro commit hcommit control hnext
    exact ((hvalid commit hcommit).next control hnext).2

theorem Steady.throughout {skew : Nat} {times : List Nat}
    {events : List (Event F)} (h : fleet.Steady skew times)
    (htolerates : ∀ event ∈ events, event.Tolerates skew) (hagree : ClocksAgree skew events)
    (hclock : ∀ time ∈ times, ∀ event ∈ events, ∀ finished, event.finished = some finished →
      time ≤ finished + skew)
    (htimely : Along Fleet.step Timely fleet events) :
    Throughout Fleet.step Readable fleet events := by
  induction events generalizing fleet times with
  | nil => exact h.readable
  | cons event events ih =>
    rcases List.pairwise_cons.mp hagree with ⟨hlater, hagree⟩
    refine ⟨h.readable, ?_⟩
    intro next hstep
    have hnext := h.step (htolerates event List.mem_cons_self) htimely.1
      (fun time htime => hclock time htime event List.mem_cons_self) hstep
    apply ih hnext (fun e he => htolerates e (List.mem_cons_of_mem _ he)) hagree _
      (htimely.2 next hstep)
    intro time htime later hmem finished hfinished
    rcases List.mem_append.mp htime with hnow | hbefore
    · exact (hlater later hmem).finished_le (Option.mem_toList.mp hnow) hfinished
    · exact hclock time hbefore later (List.mem_cons_of_mem _ hmem) finished hfinished

/-- In every run from a pool without a roster, with clocks that differ by at most
the configured skew, in which every pass ends timely. -/
theorem readable_throughout (skew : Nat) (first : Option (Object F)) (events : List (Event F))
    (hbare : ∀ object roster, first = some object → object.body ≠ .roster roster)
    (htolerates : ∀ event ∈ events, event.Tolerates skew) (hagree : ClocksAgree skew events)
    (htimely : Along Fleet.step Timely (Fleet.empty first) events) :
    Throughout Fleet.step Readable (Fleet.empty first) events := by
  have hempty : (Fleet.empty first).Steady skew [] :=
    ⟨.empty first, hbare, by simp [Fleet.empty], by simp [Fleet.empty], by simp [Fleet.empty],
      by simp [Fleet.empty]⟩
  exact hempty.throughout htolerates hagree (by simp) htimely

end Fleet

/-! ## A pool that wedges -/

open Observation

/-- A process of a large pool, whose passes may list many pages. -/
def largeConfig (invocationId : String) : Config :=
  { smallConfig with invocationId, target := 1000, pollInterval := 60000 }

def leading : Config := largeConfig "01ARZ3NDEKTSV4RRFFQ69G5FD1"
def following : Config := largeConfig "01ARZ3NDEKTSV4RRFFQ69G5FD2"
def lagging : Config := largeConfig "01ARZ3NDEKTSV4RRFFQ69G5FD3"

def turnText (turn : Nat) : String :=
  String.ofList ("01ARZ3NDEKTSV4RRFFQ69G5FC".toList ++ [Char.ofNat (65 + turn)])

/-- The nonces of a turn. -/
def turnNonces (turn : Nat) : Nonces ℚ :=
  nonces (if h : Outside.isUlid ℚ (turnText turn) = true then nonce (turnText turn) h
    else firstNonces.revision)

def revision (turn : Nat) : String := (turnNonces turn).revision.val

def made (edited : Except StoreError (Roster ℚ)) : Roster ℚ := edited.toOption.getD firstRoster

def sample : Sample ℚ := ⟨100, 100, rfl⟩

def down : StoreError := ⟨.unavailable, "down"⟩

/-- The rosters of the run, each an edit of the one before it. -/
def founded : Roster ℚ := made (Roster.found leading 486000 (revision 0) (revision 0))
def reserved : Roster ℚ := made (founded.reserve leading 490000 (revision 1))
def published : Roster ℚ :=
  made (reserved.publish leading 6 545000 (.ok sample) (.error down) (revision 2) (revision 2))
def released : Roster ℚ := made (published.release leading (revision 3))
def claimed : Roster ℚ := made (released.claim following (revision 4))
def reservedAgain : Roster ℚ := made (claimed.reserve following 550000 (revision 5))
def publishedLate : Roster ℚ :=
  made (reservedAgain.publish following 7 600001 (.ok sample) (.error down) (revision 6)
    (revision 6))
def releasedAgain : Roster ℚ := made (publishedLate.release following (revision 7))
def claimedAgain : Roster ℚ := made (releasedAgain.claim lagging (revision 8))

def object (roster : Roster ℚ) (version : VersionToken) (ms : Nat) : Object ℚ :=
  ⟨.roster roster, version, nanos ms⟩

/-- A pass up to its censuses. -/
def opensPass (index turn : Nat) (read : Object ℚ) (version : VersionToken) (ms : Nat) :
    List (Event ℚ) :=
  [.move index (.proceed (stopped ms)),
    .move index (.got (.ok (some read)) (stopped ms) (turnNonces turn)),
    .commit 0 version (nanos ms),
    .move index (.put (.stored version) (stopped ms))]

/-- The end of a pass. -/
def closesPass (index turn : Nat) (version : VersionToken) (ms : Nat) : List (Event ℚ) :=
  [.move index (.censused (.ok sample) (.error down) (stopped ms) (turnNonces turn)),
    .commit 0 version (nanos ms)]

/-- A leader goes on and is stopped. -/
def stops (index turn : Nat) (acknowledged version : VersionToken) (ms : Nat) : List (Event ℚ) :=
  [.move index (.put (.stored acknowledged) (stopped ms)),
    .move index (.reschedule (stopped ms)),
    .move index .stop,
    .move index (.release (turnNonces turn)),
    .commit 0 version (nanos ms)]

/-- A process starts and takes over a released lease. -/
def takesOver (index : Nat) (config : Config) (turn : Nat) (read : Object ℚ)
    (version : VersionToken) (ms : Nat) : List (Event ℚ) :=
  [.start index config 0,
    .move index (.got (.ok (some read)) (stopped ms) (turnNonces turn)),
    .move index (.wake (stopped ms)),
    .move index (.slept (stopped ms)),
    .move index (.got (.ok (some read)) (stopped ms) (turnNonces turn)),
    .commit 0 version (nanos ms),
    .move index (.put (.stored version) (stopped ms))]

/-- The first process founds the pool and begins a pass. -/
def begins : List (Event ℚ) :=
  [.start 0 leading 0,
    .move 0 (.got (.ok none) (stopped 486000) (turnNonces 0)),
    .commit 0 "v1" (nanos 486000),
    .move 0 (.put (.stored "v1") (stopped 486000)),
    .move 0 (.wake (stopped 490000))] ++
  opensPass 0 1 (object founded "v1" 486000) "v2" 490000

/-- Two passes that cross window boundaries, and a successor four seconds behind. -/
def wedges : List (Event ℚ) :=
  begins ++ closesPass 0 2 "v3" 545000 ++ stops 0 3 "v3" "v4" 545000 ++
  takesOver 1 following 4 (object released "v4" 545000) "v5" 548000 ++
  opensPass 1 5 (object claimed "v5" 548000) "v6" 550000 ++
  closesPass 1 6 "v7" 600001 ++ stops 1 7 "v7" "v8" 600001 ++
  takesOver 2 lagging 8 (object releasedAgain "v8" 600001) "v9" 598000 ++
  opensPass 2 9 (object claimedAgain "v9" 598000) "v10" 599500 ++
  closesPass 2 10 "v11" 599600

variable {events : List (Event ℚ)}

theorem clocksAgree_of_readings {readings : List (Option Nat)}
    (hclocks : events.map Event.clock = readings.map (Option.map stopped))
    (hpairwise : readings.Pairwise fun earlier later =>
      (earlier.all fun ms => later.all fun ms' => ms ≤ ms' + skew) = true) :
    ClocksAgree skew events := by
  have hagree : (readings.map (Option.map stopped)).Pairwise fun earlier later =>
      ∀ clock clock' : Clock, earlier = some clock → later = some clock' →
        ∀ call call', clock call ≤ clock' call' + nanos skew := by
    refine List.pairwise_map.mpr (hpairwise.imp ?_)
    intro earlier later hle clock clock' hclock hclock' call call'
    rcases Option.map_eq_some_iff.mp hclock with ⟨ms, rfl, rfl⟩
    rcases Option.map_eq_some_iff.mp hclock' with ⟨ms', rfl, rfl⟩
    have hms : ms ≤ ms' + skew := by simpa using hle
    show ((nanos ms : Nat) : Int) ≤ (nanos ms' : Nat) + (nanos skew : Nat)
    unfold nanos
    omega
  rw [← hclocks] at hagree
  exact (List.pairwise_map (f := Event.clock)).mp hagree

/-- The readings of the clocks in `takesOver`, `opensPass`, `closesPass` and `stops`. -/
def takesOverAt (ms : Nat) : List (Option Nat) :=
  [none, some ms, some ms, some ms, some ms, none, some ms]
def opensAt (ms : Nat) : List (Option Nat) := [some ms, some ms, none, some ms]
def closesAt (ms : Nat) : List (Option Nat) := [some ms, none]
def stopsAt (ms : Nat) : List (Option Nat) := [some ms, some ms, none, none, none]

theorem clocksAgree_wedges : ClocksAgree 5000 wedges := by
  refine @clocksAgree_of_readings 5000 wedges
    ([none, some 486000, none, some 486000, some 490000] ++ opensAt 490000 ++
      closesAt 545000 ++ stopsAt 545000 ++ takesOverAt 548000 ++ opensAt 550000 ++
      closesAt 600001 ++ stopsAt 600001 ++ takesOverAt 598000 ++ opensAt 599500 ++
      closesAt 599600) ?_ ?_
  · rfl
  · decide

/-- Whether the events start processes for the skew. -/
def startsFor (skew : Nat) (events : List (Event ℚ)) : Bool :=
  events.all fun event =>
    match event with
    | .start _ config _ => skew ≤ config.maxClockSkew
    | _ => true

theorem tolerates_of_startsFor
    (h : startsFor skew events = true) : ∀ event ∈ events, event.Tolerates skew := by
  rintro event hmem index config uncertainty rfl
  exact of_decide_eq_true (List.all_eq_true.mp h _ hmem)

/-- A pass that ends in the window it began in. -/
def timelyPass : List (Event ℚ) := begins ++ closesPass 0 2 "v3" 491000

theorem phase_of_begins :
    (run Fleet.step (Fleet.empty none) begins).map (fun fleet =>
      (fleet.processes 0).map fun process =>
        match process.phase with
        | .observing now window reserved => some (now, window, reserved.roster.nextControl)
        | _ => none) = some (some (some (490000, 6, none))) := by
  decide

theorem along_timelyPass : Along Fleet.step Fleet.Timely (Fleet.empty none) timelyPass := by
  have hbegins : (begins.all fun event => event.finished.isNone) = true := by
    decide
  apply along_append
  · apply along_of_forall
    intro event hmem fleet
    exact Fleet.timely_of_finished
      (Option.isNone_iff_eq_none.mp (List.all_eq_true.mp hbegins _ hmem))
  · intro fleet hrun
    refine ⟨?_, fun _ _ => ⟨Fleet.timely_of_finished rfl, fun _ _ => trivial⟩⟩
    rintro index census profilers clock nonces process now window reserved finished hevent hprocess
      hphase hfinished
    rcases Event.move.inj hevent with ⟨rfl, hmove⟩
    rcases Move.censused.inj hmove with ⟨-, -, rfl, -⟩
    have hstart := phase_of_begins
    rw [hrun, Option.map_some, hprocess, Option.map_some, hphase] at hstart
    simp only [Option.some.injEq, Prod.mk.injEq] at hstart
    rcases hstart with ⟨rfl, rfl, hnext⟩
    obtain rfl : 491000 = finished := Except.ok.inj hfinished
    refine ⟨by decide, ?_⟩
    intro control hcontrol
    rw [hnext] at hcontrol
    cases hcontrol

/-- The rosters of a pass that ends timely are read. -/
theorem readable_of_timelyPass :
    ∃ fleet, run Fleet.step (Fleet.empty none) timelyPass = some fleet ∧ fleet.Readable ∧
      fleet.commits.length = 3 := by
  have hlength : (run Fleet.step (Fleet.empty none) timelyPass).map (fun fleet =>
      fleet.commits.length) = some 3 := by
    decide
  rcases Option.map_eq_some_iff.mp hlength with ⟨fleet, hrun, hcommits⟩
  have hagree : ClocksAgree 5000 timelyPass := by
    refine @clocksAgree_of_readings 5000 timelyPass
      ([none, some 486000, none, some 486000, some 490000] ++ opensAt 490000 ++
        closesAt 491000) ?_ ?_
    · rfl
    · decide
  have hreadable := Fleet.readable_throughout 5000 none timelyPass (by simp)
    (tolerates_of_startsFor (by decide)) hagree along_timelyPass
  exact ⟨fleet, hrun, hreadable.last hrun, hcommits⟩

/-- The last roster of the run is not valid. -/
theorem invalid_of_wedges :
    (run Fleet.step (Fleet.empty none) wedges).map (fun fleet =>
        fleet.commits.head?.map fun c => c.request.roster.fieldsValid) =
      some (some false) := by
  decide +kernel

/-- A successor whose clock is four seconds behind wedges the pool. -/
theorem not_readable_of_wedges :
    ¬ ∀ (skew : Nat) (first : Option (Object ℚ)) (events : List (Event ℚ)) (fleet : Fleet ℚ),
      (∀ object roster, first = some object → object.body ≠ .roster roster) →
        (∀ event ∈ events, event.Tolerates skew) → ClocksAgree skew events →
          run Fleet.step (Fleet.empty first) events = some fleet → fleet.Readable := by
  intro hall
  rcases Option.map_eq_some_iff.mp invalid_of_wedges with ⟨fleet, hrun, hlast⟩
  rcases Option.map_eq_some_iff.mp hlast with ⟨commit, hhead, hinvalid⟩
  have hreadable := hall 5000 none wedges fleet (by simp)
    (tolerates_of_startsFor (by decide)) clocksAgree_wedges hrun
  have hmem : commit ∈ fleet.commits := List.mem_of_mem_head? hhead
  have hvalid := Roster.validate_eq_ok.mp (hreadable.valid commit hmem)
  rw [← Roster.fieldsValid_iff, hinvalid] at hvalid
  cases hvalid

end Dial9.Sampling
