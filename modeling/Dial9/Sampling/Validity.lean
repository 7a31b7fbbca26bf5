/-
# Rosters that pass the check

What `validate` demands of a roster, and which edits keep it. Only the end of a
pass can break it: the next control is dated by the leader's clock, and the
control in force may have been promoted by a clock that is ahead.
-/

import Dial9.Sampling.Roster
import Mathlib.Algebra.Order.Group.Int
import Mathlib.Order.Basic

namespace Dial9.Sampling

variable {F : Type} [Outside F]

/-! ## The check, by field -/

structure Control.Valid (control : Control) : Prop where
  reporting : 0 < control.reporting.value
  source : ∀ window, control.sourceWindow = some window → window < control.effectiveWindow

theorem Control.valid_iff {control : Control} : control.valid = true ↔ control.Valid := by
  unfold Control.valid
  simp only [Bool.and_eq_true, decide_eq_true_eq, Option.all_eq_true]
  exact ⟨fun h => ⟨h.1, h.2⟩, fun h => ⟨h.reporting, h.source⟩⟩

theorem Control.valid_bootstrap : Control.bootstrap.Valid where
  reporting := by decide
  source := by simp [Control.bootstrap]

namespace Roster

/-- What `validate` demands. -/
structure Valid (roster : Roster F) : Prop where
  holder : Outside.isUlid F roster.holder = true
  revision : Outside.isUlid F roster.revision = true
  control : roster.control.Valid
  next : ∀ control, roster.nextControl = some control →
    control.Valid ∧ roster.control.effectiveWindow < control.effectiveWindow
  population : ∀ population, roster.population = some population →
    Outside.isFinite population.estimate = true ∧
      Outside.le population.estimate (Outside.ofNat 0) = false
  trim : ∀ trim, roster.trim = some trim → trimValid (F := F) roster.epoch trim = true

variable {roster : Roster F}

theorem fieldsValid_iff : roster.fieldsValid = true ↔ roster.Valid := by
  unfold fieldsValid
  simp only [Bool.and_eq_true, Option.all_eq_true, Control.valid_iff, decide_eq_true_eq,
    Bool.not_eq_true']
  constructor
  · rintro ⟨⟨⟨⟨⟨hholder, hrevision⟩, hcontrol⟩, hnext⟩, hpopulation⟩, htrim⟩
    exact ⟨hholder, hrevision, hcontrol, hnext, hpopulation, htrim⟩
  · intro h
    exact ⟨⟨⟨⟨⟨h.holder, h.revision⟩, h.control⟩, h.next⟩, h.population⟩, h.trim⟩

theorem validate_eq_ok : roster.validate = .ok () ↔ roster.Valid := by
  unfold validate
  rw [← fieldsValid_iff]
  split_ifs with h <;> simp [h]

/-! ## Promotion -/

omit [Outside F] in
theorem promote_cases (roster : Roster F) (window : Nat) :
    roster.promote window = roster ∨
      ∃ control, roster.nextControl = some control ∧ control.effectiveWindow ≤ window ∧
        roster.promote window = { roster with control, nextControl := none } := by
  unfold promote
  split
  · rename_i control hnext
    split_ifs with hcome
    · exact .inr ⟨control, hnext, hcome, rfl⟩
    · exact .inl rfl
  · exact .inl rfl

theorem Valid.promote (h : roster.Valid) (window : Nat) : (roster.promote window).Valid := by
  rcases roster.promote_cases window with hsame | ⟨control, hnext, -, hpromote⟩
  · rw [hsame]
    exact h
  · rw [hpromote]
    exact ⟨h.holder, h.revision, (h.next control hnext).1, by simp, h.population, h.trim⟩

/-! ## Edits -/

variable {before after : Roster F} {config : Config} {revision : String}

theorem trimValid_mono {epoch later : Nat} {trim : Trim} (hle : epoch ≤ later)
    (h : trimValid (F := F) epoch trim = true) : trimValid (F := F) later trim = true := by
  unfold trimValid at h ⊢
  simp only [Bool.and_eq_true, decide_eq_true_eq] at h ⊢
  exact ⟨⟨⟨h.1.1.1.trans hle, h.1.1.2⟩, h.1.2⟩, h.2⟩

section

variable (h : before.Valid) (hid : Outside.isUlid F config.invocationId = true)
  (hrevision : Outside.isUlid F revision = true)
include h hid hrevision

theorem Valid.mutate
    (released : Bool) (lastWindow : Option Nat) :
    Valid { before with
      released, lastWindow, holder := config.invocationId, revision,
      epoch := before.epoch + 1 } := by
  refine ⟨hid, hrevision, h.control, h.next, h.population, ?_⟩
  intro trim htrim
  exact trimValid_mono (Nat.le_succ _) (h.trim trim htrim)

theorem Valid.claim (hclaim : before.claim config revision = .ok after) : after.Valid := by
  rw [claim_eq_ok hclaim]
  exact h.mutate hid hrevision false before.lastWindow

theorem Valid.release (hrelease : before.release config revision = .ok after) : after.Valid := by
  rw [release_eq_ok hrelease]
  exact h.mutate hid hrevision true before.lastWindow

end

theorem Valid.found {now : Nat} {discarded : String}
    (hid : Outside.isUlid F config.invocationId = true)
    (hrevision : Outside.isUlid F revision = true)
    (hfound : Roster.found config now discarded revision = .ok after) : after.Valid := by
  rw [found_eq_ok hfound]
  exact ⟨hid, hrevision, Control.valid_bootstrap, by simp [initial], by simp [initial],
    by simp [initial]⟩

theorem Valid.reserve {now : Nat} (h : before.Valid)
    (hid : Outside.isUlid F config.invocationId = true)
    (hrevision : Outside.isUlid F revision = true)
    (hreserve : before.reserve config now revision = .ok after) : after.Valid := by
  rw [reserve_eq_ok hreserve]
  have hvalid := (h.promote (now / (Timing.new config).width)).mutate hid hrevision
    (before.promote (now / (Timing.new config).width)).released
    ((before.assess config now).or before.lastWindow)
  rcases before.promote_frame (now / (Timing.new config).width) with ⟨control, next, hpromote⟩
  rw [hpromote] at hvalid ⊢
  exact hvalid

/-! ## Updates -/

variable {roster : Roster F} {window now : Nat}

theorem Valid.updateControl (h : roster.Valid)
    (hcome : roster.control.effectiveWindow ≤ now / (Timing.new config).width)
    (hwindow : window ≤ now / (Timing.new config).width) (census : Except StoreError (Sample F)) :
    (roster.updateControl config window now census).Valid := by
  cases census with
  | error e => exact h
  | ok sample =>
    refine ⟨h.holder, h.revision, h.control, ?_, ?_, h.trim⟩
    · rintro control ⟨⟩
      refine ⟨⟨Cutoff.value_threshold_pos (lt_of_lt_of_le one_pos (le_max_right _ _)), ?_⟩,
        Nat.lt_succ_of_le hcome⟩
      rintro source ⟨⟩
      exact Nat.lt_succ_of_le hwindow
    · intro population hpopulation
      by_cases hpositive : Outside.lt (Outside.ofNat 0) sample.estimate = true
      · simp only [Roster.updateControl, hpositive, if_true, Option.some.injEq] at hpopulation
        rw [← hpopulation]
        exact ⟨sample.finite, Outside.not_le_of_lt _ _ hpositive⟩
      · simp only [Roster.updateControl, hpositive, Bool.false_eq_true, if_false] at hpopulation
        exact h.population population hpopulation

variable {salt : String}

theorem trimValid_newTrim (hwindow : window ≤ now / (Timing.new config).width)
    (hnow : now ≤ u64Max) (sample : Sample F) (hsalt : Outside.isUlid F salt = true) :
    trimValid (F := F) roster.epoch (roster.newTrim config window now sample salt) = true := by
  have hlead : now ≤ saturatingAdd now (trimLead config) :=
    le_min (Nat.le_add_right _ _) hnow
  have hsurvival : 0 < (roster.newTrim config window now sample salt).survival.value :=
    Cutoff.value_threshold_pos (lt_of_lt_of_le one_pos (le_max_right _ _))
  have hbegins : window < (roster.newTrim config window now sample salt).effectiveWindow :=
    Nat.lt_succ_of_le (hwindow.trans (Nat.div_le_div_right hlead))
  unfold trimValid
  simp only [Bool.and_eq_true, decide_eq_true_eq, bne_iff_ne, ne_eq]
  exact ⟨⟨⟨le_refl roster.epoch, hsalt⟩, hbegins⟩, hsurvival.ne'⟩

theorem Valid.updateTrim (h : roster.Valid)
    (hwindow : window ≤ now / (Timing.new config).width) (hnow : now ≤ u64Max)
    (profilers : Except StoreError (Sample F)) (hsalt : Outside.isUlid F salt = true) :
    (roster.updateTrim config window now profilers salt).Valid := by
  unfold Roster.updateTrim
  split
  · exact h
  · rename_i sample
    split_ifs
    · refine ⟨h.holder, h.revision, h.control, h.next, h.population, ?_⟩
      rintro trim ⟨⟩
      exact trimValid_newTrim hwindow hnow sample hsalt
    · exact h

/-- The end of a pass: the control that is then in force must have come by the
clock that dates the next one. -/
theorem Valid.publish {finished : Nat} {census profilers : Except StoreError (Sample F)}
    (h : before.Valid) (hid : Outside.isUlid F config.invocationId = true)
    (hrevision : Outside.isUlid F revision = true) (hsalt : Outside.isUlid F salt = true)
    (hcome : before.control.effectiveWindow ≤ finished / (Timing.new config).width)
    (hwindow : window ≤ finished / (Timing.new config).width) (hfinished : finished ≤ u64Max)
    (hpublish : before.publish config window finished census profilers revision salt =
      .ok after) : after.Valid := by
  rw [publish_eq_ok hpublish]
  have hvalid := (h.promote (finished / (Timing.new config).width)).mutate hid hrevision
    (before.promote (finished / (Timing.new config).width)).released
    (before.promote (finished / (Timing.new config).width)).lastWindow
  have hcome' : (before.promote (finished / (Timing.new config).width)).control.effectiveWindow ≤
      finished / (Timing.new config).width := by
    rcases before.promote_cases (finished / (Timing.new config).width) with
      hsame | ⟨control, -, hcontrol, hpromote⟩
    · rw [hsame]
      exact hcome
    · rw [hpromote]
      exact hcontrol
  rcases before.promote_frame (finished / (Timing.new config).width) with
    ⟨control, next, hpromote⟩
  rw [hpromote] at hvalid hcome' ⊢
  exact (hvalid.updateControl hcome' hwindow census).updateTrim hwindow hfinished profilers hsalt

end Roster

end Dial9.Sampling
