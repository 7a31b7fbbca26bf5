/-
# The sampling roster

The roster is the one object a pool of sampling processes shares: who leads,
which reporting control is in force and which comes next, the last population
estimate, the last trim, and the last window a leader has assessed. This module
has its data, the check every reader makes of it, and the edits a leader makes.
Times are milliseconds since the epoch, windows are counted from it.
-/

import Mathlib.Data.Nat.Basic
import Mathlib.Tactic.SplitIfs
import Mathlib.Tactic.Ring

namespace Dial9.Sampling

/-- What the engine takes from elsewhere: double arithmetic, with the few
operations it applies to an estimate, and the ULID parser. -/
class Outside (F : Type) where
  isUlid : String → Bool
  isFinite : F → Bool
  ofNat : Nat → F
  div : F → F → F
  mul : F → F → F
  lt : F → F → Bool
  le : F → F → Bool
  /-- `(p.clamp(0.0, 1.0) * SPACE as f64) as u128`. -/
  scale : F → Nat
  not_le_of_lt : ∀ x y, lt x y = true → le y x = false

/-- `StoreErrorKind`. -/
inductive StoreErrorKind
  | unavailable
  | unauthorized
  | invalidResponse
  | unsupported
  | writeOutcomeUnknown
  deriving DecidableEq

structure StoreError where
  kind : StoreErrorKind
  message : String
  deriving DecidableEq

/-- `invalid`. -/
def invalid (message : String) : StoreError := ⟨.invalidResponse, message⟩

/-- `u64::MAX`. -/
def u64Max : Nat := 2 ^ 64 - 1

/-- `u64::saturating_add`. -/
def saturatingAdd (a b : Nat) : Nat := min (a + b) u64Max

/-! ## Cutoffs -/

/-- `SPACE`: the number of ranks. -/
def space : Nat := 2 ^ 64

/-- `Cutoff`: a rank below which reports are made; none is the entire space. -/
structure Cutoff where
  below : Option UInt64
  deriving DecidableEq

namespace Cutoff

def value (cutoff : Cutoff) : Nat := cutoff.below.elim space UInt64.toNat

def threshold (value : Nat) : Cutoff :=
  ⟨if value < space then some (UInt64.ofNat value) else none⟩

def fromProbability {F : Type} [Outside F] (probability : F) : Cutoff :=
  threshold (Outside.scale probability)

/-- `probability`. -/
def probability {F : Type} [Outside F] (cutoff : Cutoff) : F :=
  Outside.div (Outside.ofNat cutoff.value) (Outside.ofNat space)

def includes (cutoff : Cutoff) (rank : UInt64) : Bool := rank.toNat < cutoff.value

@[simp]
theorem value_threshold (v : Nat) : (threshold v).value = min v space := by
  unfold threshold value
  split_ifs with h
  · have hlt : v < 2 ^ 64 := h
    simp only [Option.elim_some, UInt64.toNat_ofNat', Nat.mod_eq_of_lt hlt]
    omega
  · simp only [Option.elim_none]
    omega

theorem value_threshold_pos {v : Nat} (h : 0 < v) : 0 < (threshold v).value := by
  rw [value_threshold]
  exact lt_min h (by decide)

end Cutoff

/-! ## Configuration and timing -/

/-- `Config`: the resolved settings of one process run. Durations are whole
milliseconds, as `validate` demands. -/
structure Config where
  invocationId : String
  pool : String
  target : Nat
  overshoot : Nat
  pollInterval : Nat
  bucketWidth : Nat
  maxClockSkew : Nat
  deriving DecidableEq

/-- `Config::validate`. -/
def Config.validate (F : Type) [Outside F] (config : Config) : Except String Unit :=
  if !Outside.isUlid F config.invocationId then
    .error "process run identity must be a valid ULID"
  else if config.target > 10000 || config.pollInterval < 100 ||
      config.pollInterval > config.bucketWidth || config.bucketWidth < 1000 ||
      config.bucketWidth > 86400000 || config.maxClockSkew * 4 ≥ config.bucketWidth then
    .error ("target must be at most 10000; leader cadence must be 100ms..window; " ++
      "window must be 1s..1d and exceed four clock skews; durations need whole milliseconds")
  else .ok ()

/-- What a validated configuration promises. -/
structure Config.Valid (F : Type) [Outside F] (config : Config) : Prop where
  ulid : Outside.isUlid F config.invocationId = true
  width_pos : 1000 ≤ config.bucketWidth
  width_le : config.bucketWidth ≤ 86400000
  skew_lt : config.maxClockSkew * 4 < config.bucketWidth

theorem Config.valid_of_validate {F : Type} [Outside F] {config : Config}
    (h : config.validate F = .ok ()) : config.Valid F := by
  unfold validate at h
  split_ifs at h with hulid hsettings
  simp only [Bool.or_eq_true, decide_eq_true_eq, not_or, not_lt, ge_iff_le, not_le] at hsettings
  simp only [Bool.not_eq_true, Bool.not_eq_false'] at hulid
  exact ⟨hulid, hsettings.1.1.2, hsettings.1.2, hsettings.2⟩

/-- `SCHEMA`. -/
def rosterSchema : Nat := 6

structure Policy where
  schema : Nat
  pool : String
  pollMs : Nat
  windowMs : Nat
  skewMs : Nat
  deriving DecidableEq

/-- `Policy::new`. -/
def Policy.new (config : Config) : Policy where
  schema := rosterSchema
  pool := config.pool
  pollMs := config.pollInterval
  windowMs := config.bucketWidth
  skewMs := config.maxClockSkew

structure Timing where
  width : Nat
  poll : Nat
  operation : Nat
  dispatch : Nat
  submission : Nat
  closure : Nat
  age : Nat

namespace Timing

/-- `Timing::new`. -/
def new (config : Config) : Timing where
  width := config.bucketWidth
  poll := config.bucketWidth * 5
  operation := config.bucketWidth / 20
  dispatch := config.bucketWidth / 30
  submission := config.bucketWidth / 30 + 3 * (config.bucketWidth / 20)
  closure := config.bucketWidth / 30 + 3 * (config.bucketWidth / 20) + 2 * config.maxClockSkew +
    config.bucketWidth / 60
  age := config.bucketWidth * 10

/-- `end`: the first millisecond after a window. -/
def windowEnd (timing : Timing) (window : Nat) : Option Nat :=
  if window + 1 ≤ u64Max ∧ (window + 1) * timing.width ≤ u64Max then
    some ((window + 1) * timing.width)
  else none

/-- `completed`: the last window whose reports are all in. -/
def completed (timing : Timing) (now : Nat) : Option Nat :=
  if timing.closure ≤ now ∧ 0 < timing.width ∧ 1 ≤ (now - timing.closure) / timing.width then
    some ((now - timing.closure) / timing.width - 1)
  else none

end Timing

/-! ## The roster -/

structure Control where
  sourceWindow : Option Nat
  effectiveWindow : Nat
  reporting : Cutoff
  deriving DecidableEq

namespace Control

def bootstrap : Control where
  sourceWindow := none
  effectiveWindow := 0
  reporting := ⟨none⟩

def valid (control : Control) : Bool :=
  control.reporting.value > 0 && control.sourceWindow.all fun w => w < control.effectiveWindow

end Control

structure Population (F : Type) where
  window : Nat
  estimate : F
  computedMs : Nat
  deriving DecidableEq

structure Trim where
  epoch : Nat
  salt : String
  sourceWindow : Nat
  effectiveWindow : Nat
  createdMs : Nat
  survival : Cutoff
  deriving DecidableEq

structure Roster (F : Type) where
  policy : Policy
  holder : String
  revision : String
  epoch : Nat
  control : Control
  nextControl : Option Control
  population : Option (Population F)
  trim : Option Trim
  lastWindow : Option Nat
  released : Bool
  deriving DecidableEq

/-- `census::Sample`. `observe` refuses an estimate that is not finite. -/
structure Sample (F : Type) [Outside F] where
  estimate : F
  retained : Nat
  finite : Outside.isFinite estimate = true

variable {now window finished : Nat}

namespace Roster

variable {F : Type}

/-- `Roster::initial`, with the nonce it draws. -/
def initial (config : Config) (invocationId : String) (revision : String) : Roster F where
  policy := .new config
  holder := invocationId
  revision := revision
  epoch := 0
  control := .bootstrap
  nextControl := none
  population := none
  trim := none
  lastWindow := none
  released := false

/-- `Roster::created`: the epoch starts at the creation time. -/
def created (config : Config) (invocationId : String) (revision : String) (nowMs : Nat) :
    Roster F :=
  { initial config invocationId revision with epoch := nowMs }

/-- `applicable`: the control in force in a window. -/
def applicable (roster : Roster F) (window : Nat) : Option Control :=
  (roster.nextControl.filter fun c => c.effectiveWindow ≤ window).or
    (if roster.control.effectiveWindow ≤ window then some roster.control else none)

/-- `promote`: the pending control takes over once its window has come. -/
def promote (roster : Roster F) (window : Nat) : Roster F :=
  match roster.nextControl with
  | some control =>
    if control.effectiveWindow ≤ window then
      { roster with control := control, nextControl := none }
    else roster
  | none => roster

/-- `mutate`, with the nonce it draws. -/
def mutate (roster : Roster F) (invocationId : String) (revision : String) :
    Except StoreError (Roster F) :=
  if roster.epoch + 1 ≤ u64Max then
    .ok { roster with holder := invocationId, revision := revision, epoch := roster.epoch + 1 }
  else .error (invalid "roster epoch overflow")

variable [Outside F]

def trimValid (epoch : Nat) (trim : Trim) : Bool :=
  trim.epoch ≤ epoch && Outside.isUlid F trim.salt &&
    trim.sourceWindow < trim.effectiveWindow && trim.survival.value != 0

/-- The fields `validate` demands. -/
def fieldsValid (roster : Roster F) : Bool :=
  Outside.isUlid F roster.holder && Outside.isUlid F roster.revision && roster.control.valid &&
    (roster.nextControl.all fun c =>
      c.valid && roster.control.effectiveWindow < c.effectiveWindow) &&
    (roster.population.all fun p =>
      Outside.isFinite p.estimate && !Outside.le p.estimate (Outside.ofNat 0)) &&
    roster.trim.all (trimValid (F := F) roster.epoch)

/-- `Roster::validate`. -/
def validate (roster : Roster F) : Except StoreError Unit :=
  if roster.fieldsValid then .ok () else .error (invalid "invalid sampling roster fields")

/-! ## What a leader publishes -/

/-- `config.target() * 32`: the reports a census keeps. -/
def censusBudget (config : Config) : Nat := config.target * 32

/-- The cutoff a census calls for: double the current one when reports are
few, else the one the estimate suggests. -/
def nextReporting (config : Config) (reporting : Cutoff) (sample : Sample F) : Cutoff :=
  let budget := censusBudget config
  let nominal :=
    if Outside.lt (Outside.ofNat 0) sample.estimate then
      some (Cutoff.fromProbability (Outside.div (Outside.ofNat budget) sample.estimate))
    else none
  if sample.retained < budget / 2 then
    Cutoff.threshold (max (min (reporting.value * 2) space) (nominal.elim 1 Cutoff.value))
  else nominal.getD reporting

/-- The census half of `update`. -/
def updateControl (roster : Roster F) (config : Config) (window now : Nat)
    (census : Except StoreError (Sample F)) : Roster F :=
  match census with
  | .error _ => roster
  | .ok sample =>
    { roster with
      nextControl := some
        { sourceWindow := some window
          effectiveWindow := now / (Timing.new config).width + 1
          reporting :=
            .threshold (max (nextReporting config roster.control.reporting sample).value 1) }
      population :=
        if Outside.lt (Outside.ofNat 0) sample.estimate then
          some ⟨window, sample.estimate, now⟩
        else roster.population }

/-- `u32::saturating_add` of the target and the tolerated overshoot. -/
def tolerated (config : Config) : Nat := min (config.target + config.overshoot) (2 ^ 32 - 1)

/-- The lead a trim is given, so that every process sees it in time. -/
def trimLead (config : Config) : Nat :=
  (Timing.new config).width + 2 * config.maxClockSkew + 3 * (Timing.new config).operation +
    (Timing.new config).dispatch

/-- The trim a profiler census calls for, with the nonce it draws. -/
def newTrim (roster : Roster F) (config : Config) (window now : Nat) (sample : Sample F)
    (salt : String) : Trim where
  epoch := roster.epoch
  salt := salt
  sourceWindow := window
  effectiveWindow := saturatingAdd now (trimLead config) / (Timing.new config).width + 1
  createdMs := now
  survival := .threshold
    (max (Cutoff.fromProbability (Outside.div (Outside.ofNat config.target) sample.estimate)).value
      1)

/-- The profiler half of `update`: at most one trim is pending at a time. -/
def updateTrim (roster : Roster F) (config : Config) (window now : Nat)
    (profilers : Except StoreError (Sample F)) (salt : String) : Roster F :=
  match profilers with
  | .error _ => roster
  | .ok sample =>
    if Outside.lt (Outside.ofNat (tolerated config)) sample.estimate &&
        roster.trim.all fun t => saturatingAdd t.effectiveWindow 1 ≤ window then
      { roster with trim := some (newTrim roster config window now sample salt) }
    else roster

/-- `update`. -/
def update (roster : Roster F) (config : Config) (window now : Nat)
    (census profilers : Except StoreError (Sample F)) (salt : String) : Roster F :=
  (roster.updateControl config window now census).updateTrim config window now profilers salt

/-! ## Edits

Every write of a roster is one of four edits of the roster it replaces, or the
roster of a pool that has none yet. An edit carries the nonces it draws. -/

/-- `election`: a claimable lease is taken over. -/
def claim (roster : Roster F) (config : Config) (revision : String) :
    Except StoreError (Roster F) :=
  { roster with released := false }.mutate config.invocationId revision

/-- `release`: a held lease is given up. -/
def release (roster : Roster F) (config : Config) (revision : String) :
    Except StoreError (Roster F) :=
  { roster with released := true }.mutate config.invocationId revision

/-- The window a pass that starts now is to assess: the completed one, if no
leader has reserved it. -/
def assess (roster : Roster F) (config : Config) (now : Nat) : Option Nat :=
  ((Timing.new config).completed now).filter fun window =>
    roster.lastWindow.all fun last => last < window

/-- The first write of a pass: it reserves the window before anything is listed. -/
def reserve (roster : Roster F) (config : Config) (now : Nat) (revision : String) :
    Except StoreError (Roster F) :=
  ((roster.promote (now / (Timing.new config).width)).mutate config.invocationId revision).map
    fun mutated => { mutated with lastWindow := (roster.assess config now).or mutated.lastWindow }

/-- The second write of a pass: what the two censuses call for. -/
def publish (roster : Roster F) (config : Config) (window finished : Nat)
    (census profilers : Except StoreError (Sample F)) (revision salt : String) :
    Except StoreError (Roster F) :=
  ((roster.promote (finished / (Timing.new config).width)).mutate config.invocationId revision).map
    fun mutated => mutated.update config window finished census profilers salt

/-- `create_roster`, and an election that finds nothing it can build on. -/
def found (config : Config) (now : Nat) (discarded revision : String) :
    Except StoreError (Roster F) :=
  (created config config.invocationId discarded now).mutate config.invocationId revision

/-! ## What edits keep -/

omit [Outside F] in
theorem promote_frame (roster : Roster F) (window : Nat) :
    ∃ control next, roster.promote window = { roster with control, nextControl := next } := by
  unfold promote
  split
  · split_ifs
    · exact ⟨_, _, rfl⟩
    · exact ⟨roster.control, roster.nextControl, rfl⟩
  · exact ⟨roster.control, roster.nextControl, rfl⟩

theorem update_frame (roster : Roster F) (config : Config) (window now : Nat)
    (census profilers : Except StoreError (Sample F)) (salt : String) :
    ∃ next population trim, roster.update config window now census profilers salt =
      { roster with nextControl := next, population, trim } := by
  have hcontrol : ∃ next population, roster.updateControl config window now census =
      { roster with nextControl := next, population } := by
    cases census with
    | error e => exact ⟨roster.nextControl, roster.population, rfl⟩
    | ok sample => exact ⟨_, _, rfl⟩
  rcases hcontrol with ⟨next, population, hcontrol⟩
  unfold update updateTrim
  rw [hcontrol]
  split
  · exact ⟨next, population, roster.trim, rfl⟩
  · split_ifs
    · exact ⟨next, population, _, rfl⟩
    · exact ⟨next, population, roster.trim, rfl⟩

omit [Outside F] in
theorem exists_of_map_eq_ok {mutated : Except StoreError (Roster F)} {edit : Roster F → Roster F}
    {edited : Roster F} (h : mutated.map edit = .ok edited) :
    ∃ roster, mutated = .ok roster ∧ edit roster = edited := by
  cases mutated with
  | error e => cases h
  | ok roster => exact ⟨roster, rfl, Except.ok.inj h⟩

omit [Outside F] in
theorem mutate_eq_ok {roster mutated : Roster F} {invocationId revision : String}
    (h : roster.mutate invocationId revision = .ok mutated) :
    mutated = { roster with
      holder := invocationId, revision := revision, epoch := roster.epoch + 1 } := by
  unfold mutate at h
  split_ifs at h
  exact (Except.ok.inj h).symm

/-- An edit is made under the policy of the roster it edits, in the name of the
process and under the drawn revision, and counts the epoch up by one. -/
structure Succeeds (config : Config) (revision : String) (before after : Roster F) : Prop where
  policy : after.policy = before.policy
  holder : after.holder = config.invocationId
  revision : after.revision = revision
  epoch : after.epoch = before.epoch + 1

variable {before after : Roster F} {config : Config} {revision : String}

section

omit [Outside F]

theorem claim_eq_ok (h : before.claim config revision = .ok after) :
    after = { before with
      released := false, holder := config.invocationId, revision, epoch := before.epoch + 1 } :=
  mutate_eq_ok h

theorem release_eq_ok (h : before.release config revision = .ok after) :
    after = { before with
      released := true, holder := config.invocationId, revision, epoch := before.epoch + 1 } :=
  mutate_eq_ok h

theorem reserve_eq_ok (h : before.reserve config now revision = .ok after) :
    after = { before.promote (now / (Timing.new config).width) with
      holder := config.invocationId, revision, epoch := before.epoch + 1
      lastWindow := (before.assess config now).or before.lastWindow } := by
  rcases exists_of_map_eq_ok h with ⟨mutated, hmutate, rfl⟩
  rcases promote_frame before (now / (Timing.new config).width) with ⟨control, next, hpromote⟩
  rw [mutate_eq_ok hmutate, hpromote]

end

variable {census profilers : Except StoreError (Sample F)}

theorem publish_eq_ok {salt : String}
    (h : before.publish config window finished census profilers revision salt = .ok after) :
    after = update { before.promote (finished / (Timing.new config).width) with
      holder := config.invocationId, revision, epoch := before.epoch + 1 } config window finished
        census profilers salt := by
  rcases exists_of_map_eq_ok h with ⟨mutated, hmutate, rfl⟩
  rcases promote_frame before (finished / (Timing.new config).width) with ⟨control, next, hpromote⟩
  rw [mutate_eq_ok hmutate, hpromote]

section

omit [Outside F]

theorem found_eq_ok {discarded : String} (h : found config now discarded revision = .ok after) :
    after = { initial config config.invocationId revision with epoch := now + 1 } :=
  mutate_eq_ok h

theorem succeeds_of_claim (h : before.claim config revision = .ok after) :
    Succeeds config revision before after := by
  rw [claim_eq_ok h]
  exact ⟨rfl, rfl, rfl, rfl⟩

theorem succeeds_of_release (h : before.release config revision = .ok after) :
    Succeeds config revision before after := by
  rw [release_eq_ok h]
  exact ⟨rfl, rfl, rfl, rfl⟩

theorem succeeds_of_reserve (h : before.reserve config now revision = .ok after) :
    Succeeds config revision before after := by
  rcases promote_frame before (now / (Timing.new config).width) with ⟨control, next, hpromote⟩
  rw [reserve_eq_ok h, hpromote]
  exact ⟨rfl, rfl, rfl, rfl⟩

end

theorem succeeds_of_publish {salt : String}
    (h : before.publish config window finished census profilers revision salt = .ok after) :
    Succeeds config revision before after ∧ after.lastWindow = before.lastWindow := by
  rcases promote_frame before (finished / (Timing.new config).width) with ⟨control, next, hpromote⟩
  rw [publish_eq_ok h, hpromote]
  rcases update_frame { before with
      control, nextControl := next, holder := config.invocationId, revision,
      epoch := before.epoch + 1 } config window finished census profilers salt with
    ⟨next', population, trim, hupdate⟩
  rw [hupdate]
  exact ⟨⟨rfl, rfl, rfl, rfl⟩, rfl⟩

end Roster

end Dial9.Sampling
