/-
# Trims and expansion weights

A process that records knows the probability with which it was admitted, and
the inverse of it is its weight when counts are extrapolated. A trim thins the
recording processes by lot: one that survives multiplies its weight, one that
does not stops for good. `ObservationDriver::boundary` looks at the cached
roster once a window. The roster may be old, may come twice or not at all, so
the driver remembers the last trim it has seen.
-/

import Dial9.Lib.Run
import Dial9.Sampling.Cache
import Mathlib

namespace Dial9.Sampling

open Dial9.Lib

variable {F : Type} [Outside F]

/-! ## Trace weights -/

/-- The weights `TraceWeights::new` accepts. -/
def positiveFinite (weight : F) : Bool :=
  Outside.isFinite weight && Outside.lt (Outside.ofNat 0) weight

/-- The probability with which a recording process was admitted. -/
structure Admission (F : Type) [Outside F] where
  probability : F
  positive : positiveFinite (Outside.div (Outside.ofNat 1) probability) = true

/-- `1.0 / startup_probability`. -/
def Admission.inverse (admission : Admission F) : F :=
  Outside.div (Outside.ofNat 1) admission.probability

/-- `TraceWeights`: no weight is an unknown one, zero a stopped process. -/
structure TraceWeights (F : Type) where
  weight : Option F
  deriving DecidableEq

namespace TraceWeights

def new (initialWeight : F) : TraceWeights F := ⟨some initialWeight⟩

/-- Weights for a process that was not randomly admitted. -/
def unknown : TraceWeights F := ⟨none⟩

/-- The weights `prepare_using` starts a recording process with: the creator of
a roster was not admitted by lot. -/
def startup (admission : Option (Admission F)) : TraceWeights F :=
  admission.elim unknown fun admitted => new admitted.inverse

/-- `multiply`: a product that is no longer finite and positive is unknown from
then on, and the caller is told. -/
def multiply (weights : TraceWeights F) (factor : F) : TraceWeights F × Except StoreError Unit :=
  if weights.weight.any fun weight => Outside.lt (Outside.ofNat 0) weight then
    let product := ((weights.weight.filter fun _ => positiveFinite factor).map fun weight =>
      Outside.mul weight factor).filter positiveFinite
    (⟨product⟩,
      if product.isSome then .ok ()
      else .error (invalid "sampling expansion weight is no longer finite and positive"))
  else (weights, .error (invalid "cannot thin an excluded or unknown sampling weight"))

def stop (_weights : TraceWeights F) : TraceWeights F := ⟨some (Outside.ofNat 0)⟩

end TraceWeights

/-! ## The driver -/

/-- `Config::draw`, over the digest of the identity, the purpose and the round. -/
def Config.draw (digest : String → String → String → UInt64) (config : Config)
    (purpose round : String) : UInt64 :=
  digest config.invocationId purpose round

structure Plan where
  window : Nat
  cutoff : Cutoff
  censusRank : UInt64
  censusAt : Nat
  profilerRank : UInt64
  profilerAt : Nat
  censusDone : Bool
  profilerDone : Bool
  deriving DecidableEq

/-- A lot drawn for a trim, for the record. -/
structure Application where
  window : Nat
  trim : Trim
  survived : Bool
  deriving DecidableEq

/-- `ObservationDriver`, without its poll schedule and its report jobs. The
cache, the signal and the weights are shared with the process's other tasks. -/
structure ObservationDriver (F : Type) where
  config : Config
  /-- `store.modification_time_uncertainty()`. -/
  uncertainty : Nat
  cache : Cache F
  signal : Bool
  weights : Option (TraceWeights F)
  bornMs : Nat
  cutoff : Cutoff
  plan : Option Plan
  lastTrimEpoch : Nat
  /-- Newest first. -/
  history : List Application

namespace ObservationDriver

def timing (driver : ObservationDriver F) : Timing := .new driver.config

/-- `ObservationDriver::new`. -/
def new (config : Config) (uncertainty : Nat) (clock : SystemTime) (cache : Cache F)
    (signal : Bool) (weights : Option (TraceWeights F)) :
    Except StoreError (ObservationDriver F) :=
  (millis clock).map fun bornMs =>
    { config, uncertainty, cache, signal, weights, bornMs
      cutoff := ((cache.observed.bind fun o =>
        o.roster.applicable (bornMs / (Timing.new config).width)).map Control.reporting).getD ⟨none⟩
      plan := none
      lastTrimEpoch := cache.observed.elim 0 fun o => o.roster.epoch
      history := [] }

variable (digest : String → String → String → UInt64)

/-- The lot of a trim: a survivor's weight grows, unless it is unknown, and the
others stop. -/
def applyTrim (driver : ObservationDriver F) (window : Nat) (trim : Trim) :
    ObservationDriver F × Except StoreError Unit :=
  if trim.survival.includes (driver.config.draw digest "trim" trim.salt) then
    let survivor := { driver with history := ⟨window, trim, true⟩ :: driver.history }
    match driver.weights with
    | some ⟨some weight⟩ =>
      let thinned := (TraceWeights.mk (some weight)).multiply
        (Outside.div (Outside.ofNat 1) trim.survival.probability)
      ({ survivor with weights := some thinned.1 }, thinned.2)
    | _ => (survivor, .ok ())
  else
    ({ driver with
        weights := driver.weights.map .stop
        signal := false
        history := ⟨window, trim, false⟩ :: driver.history }, .ok ())

/-- Whether a trim seen for the first time is applied now. -/
def takesEffect (driver : ObservationDriver F) (observed : Observed F) (trim : Trim) (now : Nat)
    (clock : SystemTime) : Bool :=
  let window := now / driver.timing.width
  trim.effectiveWindow == window && driver.bornMs / driver.timing.width ≤ trim.sourceWindow &&
    now ≤ window * driver.timing.width + driver.timing.dispatch && driver.signal &&
    !observed.expired driver.config driver.uncertainty clock &&
    (driver.timing.windowEnd trim.sourceWindow).any fun windowEnd =>
      now ≤ saturatingAdd windowEnd driver.timing.age

/-- The part of `boundary` about the roster's trim. -/
def noteTrim (driver : ObservationDriver F) (observed : Observed F) (now : Nat)
    (clock : SystemTime) : ObservationDriver F × Except StoreError Unit :=
  match observed.roster.trim with
  | none => (driver, .ok ())
  | some trim =>
    if trim.epoch > driver.lastTrimEpoch && trim.effectiveWindow ≤ now / driver.timing.width then
      let noted := { driver with lastTrimEpoch := trim.epoch }
      if noted.takesEffect observed trim now clock then
        noted.applyTrim digest (now / driver.timing.width) trim
      else (noted, .ok ())
    else (driver, .ok ())

/-- The part of `boundary` about the roster's control. -/
def noteControl (driver : ObservationDriver F) (observed : Observed F) (window : Nat) :
    ObservationDriver F :=
  match observed.roster.applicable window with
  | some control =>
    if control.sourceWindow.all fun source => source < window then
      { driver with cutoff := control.reporting }
    else driver
  | none => driver

/-- An instant of the window, by lot. -/
def instant (driver : ObservationDriver F) (purpose : String) (window : Nat) : Nat :=
  window * driver.timing.width +
    (driver.config.draw digest purpose (toString window)).toNat * driver.timing.width / space

/-- The window's observations: two instants, each missed if the process was not
yet born or the driver comes too late. -/
def newPlan (driver : ObservationDriver F) (window now : Nat) : Plan where
  window := window
  cutoff := driver.cutoff
  censusRank := driver.config.draw digest "census-rank" (toString window)
  censusAt := driver.instant digest "census-instant" window
  profilerRank := driver.config.draw digest "profiler-rank" (toString window)
  profilerAt := driver.instant digest "profiler-instant" window
  censusDone := driver.instant digest "census-instant" window < driver.bornMs ||
    now > saturatingAdd (driver.instant digest "census-instant" window) driver.timing.dispatch
  profilerDone := driver.instant digest "profiler-instant" window < driver.bornMs ||
    now > saturatingAdd (driver.instant digest "profiler-instant" window) driver.timing.dispatch

/-- The roster is read only while no other policy owns it. -/
def noteRoster (driver : ObservationDriver F) (now : Nat) (clock : SystemTime) :
    ObservationDriver F × Except StoreError Unit :=
  match driver.cache.observed with
  | some observed =>
    if driver.cache.compatible then
      (driver.noteControl observed (now / driver.timing.width)).noteTrim digest observed now clock
    else (driver, .ok ())
  | none => (driver, .ok ())

/-- `ObservationDriver::boundary`. A failed one has made no plan. -/
def boundary (driver : ObservationDriver F) (now : Nat) (clock : SystemTime) :
    ObservationDriver F × Except StoreError Unit :=
  let window := now / driver.timing.width
  if driver.plan.any fun p => p.window ≥ window then (driver, .ok ())
  else
    match driver.noteRoster digest now clock with
    | (driver, .error error) => (driver, .error error)
    | (driver, .ok ()) => ({ driver with plan := some (driver.newPlan digest window now) }, .ok ())

end ObservationDriver

/-! ## What a boundary does -/

/-- The factor a survivor's weight is multiplied by. -/
def inverseSurvival (trim : Trim) : F :=
  Outside.div (Outside.ofNat 1) trim.survival.probability

/-- A weight after one more survived trim. -/
def thinned (weight : Option F) (trim : Trim) : Option F :=
  ((weight.filter fun _ => positiveFinite (inverseSurvival (F := F) trim)).map fun weight =>
    Outside.mul weight (inverseSurvival trim)).filter positiveFinite

/-- The weight after a record of survived trims: checked after each of them. -/
def checkedProduct (initial : Option F) (history : List Application) : Option F :=
  history.foldr (fun application weight => thinned weight application.trim) initial

/-- The plain product of an initial weight and the factors of a record. -/
def product (initial : F) (history : List Application) : F :=
  history.foldr (fun application weight => Outside.mul weight (inverseSurvival application.trim))
    initial

theorem thinned_positive {weight : Option F} {trim : Trim} :
    (thinned weight trim).all positiveFinite = true := by
  simp [thinned]

theorem thinned_eq_some {weight : Option F} {trim : Trim} {w : F}
    (h : thinned weight trim = some w) :
    ∃ before, weight = some before ∧ w = Outside.mul before (inverseSurvival trim) := by
  simp only [thinned, Option.filter_eq_some_iff, Option.map_eq_some_iff] at h
  rcases h with ⟨⟨before, ⟨hbefore, -⟩, rfl⟩, -⟩
  exact ⟨before, hbefore, rfl⟩

variable {initial : Option F}

theorem checkedProduct_eq_some {history : List Application} {w : F}
    (h : checkedProduct initial history = some w) :
    ∃ first, initial = some first ∧ w = product first history := by
  induction history generalizing w with
  | nil => exact ⟨w, h, rfl⟩
  | cons application earlier ih =>
    rcases thinned_eq_some h with ⟨before, hbefore, rfl⟩
    rcases ih hbefore with ⟨first, hfirst, rfl⟩
    exact ⟨first, hfirst, rfl⟩

theorem checkedProduct_positive
    (hinitial : initial.all positiveFinite = true) (history : List Application) :
    (checkedProduct initial history).all positiveFinite = true := by
  cases history with
  | nil => exact hinitial
  | cons application earlier => exact thinned_positive

theorem checkedProduct_append_eq_none {earlier : List Application}
    (h : checkedProduct initial earlier = none) (later : List Application) :
    checkedProduct initial (later ++ earlier) = none := by
  induction later with
  | nil => exact h
  | cons application later ih =>
    show thinned (checkedProduct initial (later ++ earlier)) application.trim = none
    rw [ih]
    rfl

namespace TraceWeights

theorem multiply_weight {weight : F} {trim : Trim} (hpositive : positiveFinite weight = true) :
    ((mk (some weight)).multiply (inverseSurvival trim)).1 = ⟨thinned (some weight) trim⟩ := by
  have hlt : Outside.lt (Outside.ofNat 0) weight = true := by
    simp only [positiveFinite, Bool.and_eq_true] at hpositive
    exact hpositive.2
  simp [multiply, thinned, hlt]

end TraceWeights

namespace ObservationDriver

variable (digest : String → String → String → UInt64)

/-- Nothing a process is bound by changed, except that it may have seen a trim
it does not apply. -/
structure Quiet (driver next : ObservationDriver F) : Prop where
  config : next.config = driver.config
  bornMs : next.bornMs = driver.bornMs
  signal : next.signal = driver.signal
  weights : next.weights = driver.weights
  history : next.history = driver.history
  epoch : driver.lastTrimEpoch ≤ next.lastTrimEpoch

/-- A recording process drew its lot for a trim of a later epoch than any it has seen. -/
structure Applied (driver next : ObservationDriver F) (application : Application) : Prop where
  config : next.config = driver.config
  bornMs : next.bornMs = driver.bornMs
  recording : driver.signal = true
  newer : driver.lastTrimEpoch < application.trim.epoch
  epoch : next.lastTrimEpoch = application.trim.epoch
  history : next.history = application :: driver.history
  window : application.window = application.trim.effectiveWindow
  born : driver.bornMs / driver.timing.width ≤ application.trim.sourceWindow
  signal : next.signal = application.survived
  survivor : application.survived = true → ∀ weights, driver.weights = some weights →
    weights.weight.all positiveFinite = true →
      next.weights = some ⟨thinned weights.weight application.trim⟩
  stopped : application.survived = false → next.weights = driver.weights.map .stop

theorem applied_applyTrim {driver : ObservationDriver F} {window : Nat} {trim : Trim}
    {earlier : Nat} (hepoch : driver.lastTrimEpoch = trim.epoch) (hnewer : earlier < trim.epoch)
    (hsignal : driver.signal = true) (hwindow : window = trim.effectiveWindow)
    (hborn : driver.bornMs / driver.timing.width ≤ trim.sourceWindow) :
    ∃ application, Applied { driver with lastTrimEpoch := earlier }
      (driver.applyTrim digest window trim).1 application := by
  unfold applyTrim
  split
  · refine ⟨⟨window, trim, true⟩, ?_⟩
    cases driver.weights with
    | none => exact ⟨rfl, rfl, hsignal, hnewer, hepoch, rfl, hwindow, hborn, hsignal,
        fun _ weights h => by simp at h, fun h => by simp at h⟩
    | some weights =>
      rcases weights with ⟨weight⟩
      cases weight with
      | none =>
        refine ⟨rfl, rfl, hsignal, hnewer, hepoch, rfl, hwindow, hborn, hsignal, ?_,
          fun h => by simp at h⟩
        intro _ weights h _
        cases h
        rfl
      | some weight =>
        refine ⟨rfl, rfl, hsignal, hnewer, hepoch, rfl, hwindow, hborn, hsignal, ?_,
          fun h => by simp at h⟩
        intro _ weights h hpositive
        cases h
        exact congrArg some (TraceWeights.multiply_weight hpositive)
  · refine ⟨⟨window, trim, false⟩, ?_⟩
    exact ⟨rfl, rfl, hsignal, hnewer, hepoch, rfl, hwindow, hborn, rfl, fun h => by simp at h,
      fun _ => rfl⟩

theorem noteTrim_cases (driver : ObservationDriver F) (observed : Observed F) (now : Nat)
    (clock : SystemTime) :
    Quiet driver (driver.noteTrim digest observed now clock).1 ∨
      ∃ application, Applied driver (driver.noteTrim digest observed now clock).1 application := by
  unfold noteTrim
  cases observed.roster.trim with
  | none => exact .inl ⟨rfl, rfl, rfl, rfl, rfl, le_rfl⟩
  | some trim =>
    simp only
    split
    · rename_i hseen
      simp only [Bool.and_eq_true, decide_eq_true_eq, gt_iff_lt] at hseen
      split
      · rename_i heffect
        simp only [takesEffect, Bool.and_eq_true, decide_eq_true_eq, beq_iff_eq] at heffect
        rcases heffect with ⟨⟨⟨⟨⟨hwindow, hborn⟩, -⟩, hsignal⟩, -⟩, -⟩
        right
        exact @applied_applyTrim _ _ digest { driver with lastTrimEpoch := trim.epoch } _ _ _
          rfl hseen.1 hsignal hwindow.symm hborn
      · exact .inl ⟨rfl, rfl, rfl, rfl, rfl, hseen.1.le⟩
    · exact .inl ⟨rfl, rfl, rfl, rfl, rfl, le_rfl⟩

omit [Outside F] in
theorem noteControl_fields (driver : ObservationDriver F) (observed : Observed F) (window : Nat) :
    ∃ cutoff, driver.noteControl observed window = { driver with cutoff } := by
  unfold noteControl
  split
  · split
    · exact ⟨_, rfl⟩
    · exact ⟨driver.cutoff, rfl⟩
  · exact ⟨driver.cutoff, rfl⟩

theorem boundary_cases (driver : ObservationDriver F) (now : Nat) (clock : SystemTime) :
    Quiet driver (driver.boundary digest now clock).1 ∨
      ∃ application, Applied driver (driver.boundary digest now clock).1 application := by
  have hroster : Quiet driver (driver.noteRoster digest now clock).1 ∨
      ∃ application, Applied driver (driver.noteRoster digest now clock).1 application := by
    unfold noteRoster
    split
    · rename_i observed _
      split
      · rcases driver.noteControl_fields observed (now / driver.timing.width)
          with ⟨cutoff, hcontrol⟩
        rw [hcontrol]
        rcases noteTrim_cases digest { driver with cutoff } observed now clock with
          hquiet | ⟨application, happlied⟩
        · exact .inl { hquiet with }
        · exact .inr ⟨application, { happlied with }⟩
      · exact .inl ⟨rfl, rfl, rfl, rfl, rfl, le_rfl⟩
    · exact .inl ⟨rfl, rfl, rfl, rfl, rfl, le_rfl⟩
  unfold boundary
  simp only
  split
  · exact .inl ⟨rfl, rfl, rfl, rfl, rfl, le_rfl⟩
  · revert hroster
    rcases driver.noteRoster digest now clock with ⟨next, error | done⟩
    · exact id
    · intro hroster
      rcases hroster with hquiet | ⟨application, happlied⟩
      · exact .inl { hquiet with }
      · exact .inr ⟨application, { happlied with }⟩

end ObservationDriver

/-! ## Runs -/

/-- The driver's task: running, ended by an error, or shut down. -/
inductive ObservationPhase
  | running
  | failed
  | shutDown
  deriving DecidableEq

structure Observation (F : Type) where
  driver : ObservationDriver F
  phase : ObservationPhase

/-- A read of the roster comes back, the driver comes to a boundary, or the
session ends. -/
inductive ObservationEvent (F : Type)
  | deliver (incoming : Option (Decoded F))
  | boundary (now : Nat) (clock : SystemTime)
  | shutdown

namespace Observation

variable (digest : String → String → String → UInt64)

def step (s : Observation F) : ObservationEvent F → Option (Observation F)
  | .deliver incoming =>
    some { s with driver := { s.driver with cache := s.driver.cache.publish incoming } }
  | .boundary now clock =>
    if s.phase = .running then
      match s.driver.boundary digest now clock with
      | (driver, .ok ()) => some ⟨driver, .running⟩
      | (driver, .error _) => some ⟨driver, .failed⟩
    else none
  | .shutdown =>
    some ⟨{ s.driver with weights := s.driver.weights.map .stop, signal := false }, .shutDown⟩

/-- A trim has excluded the process, or its session has ended. -/
def Stopped (s : Observation F) : Prop :=
  s.phase = .shutDown ∨ ∃ application ∈ s.driver.history, application.survived = false

/-- The recorded expansion weight. -/
def weight (s : Observation F) : Option F := s.driver.weights.bind TraceWeights.weight

theorem step_boundary {s next : Observation F} {now : Nat} {clock : SystemTime}
    (h : s.step digest (.boundary now clock) = some next) :
    s.phase = .running ∧ next.phase ≠ .shutDown ∧
      next.driver = (s.driver.boundary digest now clock).1 := by
  rcases Option.ite_none_right_eq_some.mp h with ⟨hrunning, hnext⟩
  refine ⟨hrunning, ?_⟩
  revert hnext
  rcases s.driver.boundary digest now clock with ⟨driver, error | done⟩
  · rintro ⟨⟩
    simp
  · rintro ⟨⟩
    simp

/-- What a run keeps of a process admitted with an initial weight. -/
structure Inv (config : Config) (bornMs : Nat) (initial : Option F) (s : Observation F) : Prop where
  config_eq : s.driver.config = config
  bornMs_eq : s.driver.bornMs = bornMs
  epochs : ∀ a ∈ s.driver.history, a.trim.epoch ≤ s.driver.lastTrimEpoch
  once : (s.driver.history.map fun a => a.trim.epoch).Nodup
  inTime : ∀ a ∈ s.driver.history, a.window = a.trim.effectiveWindow ∧
    bornMs / (Timing.new config).width ≤ a.trim.sourceWindow
  weighted : ∃ weights, s.driver.weights = some weights
  stopped : s.Stopped → s.driver.signal = false ∧ s.weight = some (Outside.ofNat 0)
  going : ¬ s.Stopped → s.weight = checkedProduct initial s.driver.history

section Invariant

variable {digest} {config : Config} {bornMs : Nat} {initial : Option F} {s next : Observation F}

omit [Outside F] in
theorem Stopped.mono (h : s.Stopped) (hphase : s.phase = .shutDown → next.phase = .shutDown)
    (hhistory : s.driver.history ⊆ next.driver.history) : next.Stopped := by
  rcases h with hshut | ⟨application, hmem, hsurvived⟩
  · exact .inl (hphase hshut)
  · exact .inr ⟨application, hhistory hmem, hsurvived⟩

theorem Inv.quiet (h : Inv config bornMs initial s) (hquiet : s.driver.Quiet next.driver)
    (hphase : next.phase = .shutDown ↔ s.phase = .shutDown) : Inv config bornMs initial next := by
  have hstopped : next.Stopped ↔ s.Stopped := by
    simp only [Stopped, hphase, hquiet.history]
  have hweight : next.weight = s.weight := by
    simp only [weight, hquiet.weights]
  exact
    { config_eq := by rw [hquiet.config, h.config_eq]
      bornMs_eq := by rw [hquiet.bornMs, h.bornMs_eq]
      epochs := by
        rw [hquiet.history]
        exact fun a ha => (h.epochs a ha).trans hquiet.epoch
      once := by
        rw [hquiet.history]
        exact h.once
      inTime := by
        rw [hquiet.history]
        exact h.inTime
      weighted := by
        rw [hquiet.weights]
        exact h.weighted
      stopped := by
        rw [hstopped, hweight, hquiet.signal]
        exact h.stopped
      going := by
        rw [hstopped, hweight, hquiet.history]
        exact h.going }

theorem Inv.applied (hinitial : initial.all positiveFinite = true)
    (h : Inv config bornMs initial s) (hphase : next.phase ≠ .shutDown) {application : Application}
    (happlied : s.driver.Applied next.driver application) : Inv config bornMs initial next := by
  have hgoing : ¬ s.Stopped := by
    intro hstopped
    have hoff := (h.stopped hstopped).1
    rw [happlied.recording] at hoff
    cases hoff
  have hstopped : next.Stopped ↔ application.survived = false := by
    have hbefore : ∀ a ∈ s.driver.history, a.survived ≠ false :=
      fun a ha hsurvived => hgoing (.inr ⟨a, ha, hsurvived⟩)
    simp only [Stopped, hphase, happlied.history, List.mem_cons, false_or]
    constructor
    · rintro ⟨a, rfl | ha, hsurvived⟩
      · exact hsurvived
      · exact absurd hsurvived (hbefore a ha)
    · exact fun hsurvived => ⟨application, .inl rfl, hsurvived⟩
  rcases h.weighted with ⟨weights, hweights⟩
  have hcurrent : weights.weight = checkedProduct initial s.driver.history := by
    have hweight := h.going hgoing
    simpa only [weight, hweights, Option.bind_some] using hweight
  have hpositive : weights.weight.all positiveFinite = true := by
    rw [hcurrent]
    exact checkedProduct_positive hinitial _
  exact
    { config_eq := by rw [happlied.config, h.config_eq]
      bornMs_eq := by rw [happlied.bornMs, h.bornMs_eq]
      epochs := by
        rw [happlied.history, happlied.epoch]
        intro a ha
        rcases List.mem_cons.mp ha with rfl | ha
        · exact le_rfl
        · exact (h.epochs a ha).trans happlied.newer.le
      once := by
        rw [happlied.history, List.map_cons, List.nodup_cons]
        refine ⟨?_, h.once⟩
        intro hmem
        rcases List.mem_map.mp hmem with ⟨a, ha, hepoch⟩
        have hle := h.epochs a ha
        rw [hepoch] at hle
        exact absurd happlied.newer (not_lt_of_ge hle)
      inTime := by
        rw [happlied.history]
        intro a ha
        rcases List.mem_cons.mp ha with rfl | ha
        · have hborn := happlied.born
          rw [ObservationDriver.timing, h.config_eq, h.bornMs_eq] at hborn
          exact ⟨happlied.window, hborn⟩
        · exact h.inTime a ha
      weighted := by
        cases hsurvived : application.survived with
        | true => exact ⟨_, happlied.survivor hsurvived weights hweights hpositive⟩
        | false => exact ⟨weights.stop, by rw [happlied.stopped hsurvived, hweights]; rfl⟩
      stopped := by
        rw [hstopped]
        intro hsurvived
        rw [happlied.signal, hsurvived, weight, happlied.stopped hsurvived, hweights]
        exact ⟨rfl, rfl⟩
      going := by
        rw [hstopped, Bool.not_eq_false]
        intro hsurvived
        rw [weight, happlied.survivor hsurvived weights hweights hpositive, happlied.history]
        show thinned weights.weight application.trim = _
        rw [hcurrent]
        rfl }

theorem Inv.shutdown (h : Inv config bornMs initial s) :
    Inv config bornMs initial
      ⟨{ s.driver with weights := s.driver.weights.map .stop, signal := false }, .shutDown⟩ := by
  rcases h.weighted with ⟨weights, hweights⟩
  exact
    { h with
      weighted := ⟨weights.stop, by simp [hweights]⟩
      stopped := fun _ => ⟨rfl, by simp [weight, hweights, TraceWeights.stop]⟩
      going := fun hgoing => absurd (.inl rfl) hgoing }

theorem inv_step (hinitial : initial.all positiveFinite = true) {e : ObservationEvent F}
    (h : Inv config bornMs initial s) (hnext : s.step digest e = some next) :
    Inv config bornMs initial next := by
  cases e with
  | deliver incoming =>
    cases hnext
    exact h.quiet ⟨rfl, rfl, rfl, rfl, rfl, le_rfl⟩ Iff.rfl
  | boundary now clock =>
    rcases step_boundary digest hnext with ⟨hrunning, hphase, hdriver⟩
    rcases s.driver.boundary_cases digest now clock with hquiet | ⟨application, happlied⟩
    · apply h.quiet
      · rw [hdriver]
        exact hquiet
      · simp [hrunning, hphase]
    · rw [← hdriver] at happlied
      exact h.applied hinitial hphase happlied
  | shutdown =>
    cases hnext
    exact h.shutdown

end Invariant

/-- What a later state keeps of an earlier one. -/
structure Later (s t : Observation F) : Prop where
  signal : s.driver.signal = false → t.driver.signal = false
  shutDown : s.phase = .shutDown → t.phase = .shutDown
  history : ∃ later, t.driver.history = later ++ s.driver.history

theorem Later.step {s t next : Observation F} {e : ObservationEvent F} (h : Later s t)
    (hnext : t.step digest e = some next) : Later s next := by
  rcases h.history with ⟨later, hlater⟩
  cases e with
  | deliver incoming =>
    cases hnext
    exact ⟨h.signal, h.shutDown, later, hlater⟩
  | boundary now clock =>
    rcases step_boundary digest hnext with ⟨hrunning, -, hdriver⟩
    have hshut : s.phase = .shutDown → next.phase = .shutDown := by
      intro hs
      rw [h.shutDown hs] at hrunning
      cases hrunning
    rcases t.driver.boundary_cases digest now clock with hquiet | ⟨application, happlied⟩
    · rw [← hdriver] at hquiet
      refine ⟨?_, hshut, later, ?_⟩
      · rw [hquiet.signal]
        exact h.signal
      · rw [hquiet.history, hlater]
    · rw [← hdriver] at happlied
      refine ⟨?_, hshut, application :: later, ?_⟩
      · intro hs
        have hoff := h.signal hs
        rw [happlied.recording] at hoff
        cases hoff
      · rw [happlied.history, hlater]
        rfl
  | shutdown =>
    cases hnext
    exact ⟨fun _ => rfl, fun _ => rfl, later, hlater⟩

theorem later_of_run {s t : Observation F} {events : List (ObservationEvent F)}
    (h : run (step digest) s events = some t) : Later s t := by
  have hself : Later s s := ⟨id, id, [], rfl⟩
  apply run_invariant _ hself (along_true s events) h
  exact fun mid e next hmid _ hnext => hmid.step digest hnext

theorem inv_new {config : Config} {uncertainty : Nat} {clock : SystemTime} {cache : Cache F}
    {signal : Bool} {admission : Option (Admission F)} {driver : ObservationDriver F}
    (h : ObservationDriver.new config uncertainty clock cache signal
      (some (.startup admission)) = .ok driver) :
    Inv config driver.bornMs (admission.map Admission.inverse) ⟨driver, .running⟩ := by
  unfold ObservationDriver.new at h
  cases hborn : millis clock with
  | error error =>
    rw [hborn] at h
    cases h
  | ok bornMs =>
    rw [hborn] at h
    cases h
    have hgoing : ∀ driver : ObservationDriver F, driver.history = [] →
        ¬ Stopped (Observation.mk driver .running) := by
      intro driver hempty
      simp [Stopped, hempty]
    exact
      { config_eq := rfl
        bornMs_eq := rfl
        epochs := by simp
        once := by simp
        inTime := by simp
        weighted := ⟨_, rfl⟩
        stopped := fun hstopped => absurd hstopped (hgoing _ rfl)
        going := fun _ => by cases admission <;> rfl }

/-- Over every run of boundaries and deliveries: each trim epoch is applied at
most once, only in its effective window and only to a process born by its source
window; a signal once off stays off; and the weight is the product of the inverse
admission probability and the inverse survival probabilities, checked after each
factor, until the process stops and zero from then on. Between, once unknown it
stays unknown. -/
theorem trims_and_weights {config : Config} {uncertainty : Nat} {clock : SystemTime}
    {cache : Cache F} {signal : Bool} {admission : Option (Admission F)}
    {driver : ObservationDriver F}
    (hnew : ObservationDriver.new config uncertainty clock cache signal
      (some (.startup admission)) = .ok driver)
    {before after : List (ObservationEvent F)} {s t : Observation F}
    (hbefore : run (step digest) ⟨driver, .running⟩ before = some s)
    (hafter : run (step digest) s after = some t) :
    (t.driver.history.map fun a => a.trim.epoch).Nodup ∧
      (∀ a ∈ t.driver.history, a.window = a.trim.effectiveWindow ∧
        driver.bornMs / (Timing.new config).width ≤ a.trim.sourceWindow) ∧
      (s.driver.signal = false → t.driver.signal = false) ∧
      (s.Stopped → t.weight = some (Outside.ofNat 0)) ∧
      (¬ t.Stopped →
        t.weight = checkedProduct (admission.map Admission.inverse) t.driver.history) ∧
      (¬ t.Stopped → ∀ weight, t.weight = some weight → ∃ admitted, admission = some admitted ∧
        weight = product admitted.inverse t.driver.history) ∧
      (¬ t.Stopped → s.weight = none → t.weight = none) := by
  have hinitial : (admission.map Admission.inverse).all positiveFinite = true := by
    cases admission with
    | none => rfl
    | some admitted => exact admitted.positive
  have hstep : ∀ (s : Observation F) e next,
      Inv config driver.bornMs (admission.map Admission.inverse) s → True →
        s.step digest e = some next →
          Inv config driver.bornMs (admission.map Admission.inverse) next :=
    fun s e next hs _ hnext => inv_step hinitial hs hnext
  have hs := run_invariant hstep (inv_new hnew) (along_true _ before) hbefore
  have ht := run_invariant hstep hs (along_true s after) hafter
  have hlater := later_of_run digest hafter
  rcases hlater.history with ⟨later, hhistory⟩
  have hstays : s.Stopped → t.Stopped := by
    intro hstopped
    apply hstopped.mono hlater.shutDown
    rw [hhistory]
    exact List.subset_append_right later s.driver.history
  refine ⟨ht.once, ht.inTime, hlater.signal, fun hstopped => (ht.stopped (hstays hstopped)).2,
    ht.going, ?_, ?_⟩
  · intro hgoing weight hweight
    rw [ht.going hgoing] at hweight
    rcases checkedProduct_eq_some hweight with ⟨first, hfirst, rfl⟩
    rcases Option.map_eq_some_iff.mp hfirst with ⟨admitted, hadmitted, rfl⟩
    exact ⟨admitted, hadmitted, rfl⟩
  · intro hgoing hunknown
    rw [hs.going fun hstopped => hgoing (hstays hstopped)] at hunknown
    rw [ht.going hgoing, hhistory]
    exact checkedProduct_append_eq_none hunknown later

/-! ## Two processes in one pool -/

/-- Exact arithmetic, for weights that doubles represent exactly. -/
instance exactOutside : Outside ℚ where
  isUlid text := text.length == 26 && text.toList.all fun c => c.isDigit || c.isUpper
  isFinite _ := true
  ofNat n := n
  div x y := x / y
  mul x y := x * y
  lt x y := x < y
  le x y := x ≤ y
  scale x := (min (max x 0) 1 * 2 ^ 64).floor.toNat
  not_le_of_lt x y h := by simpa using h

def smallConfig : Config where
  invocationId := "01ARZ3NDEKTSV4RRFFQ69G5FAV"
  pool := "service=demo/"
  target := 10
  overshoot := 3
  pollInterval := 1000
  bucketWidth := 60000
  maxClockSkew := 5000

/-- A roster with a trim from one window that takes effect two windows later. -/
def trimmedRoster (epoch source : Nat) (survival : UInt64) : Roster ℚ where
  policy := .new smallConfig
  holder := "01ARZ3NDEKTSV4RRFFQ69G5FAW"
  revision := "01ARZ3NDEKTSV4RRFFQ69G5FAX"
  epoch := epoch
  control := .bootstrap
  nextControl := none
  population := none
  trim := some ⟨epoch, "01ARZ3NDEKTSV4RRFFQ69G5FAY", source, source + 2, 0, ⟨some survival⟩⟩
  lastWindow := some source
  released := false

/-- The lot of every draw. -/
def fixedLot : String → String → String → UInt64 := fun _ _ _ => 0x2f

/-- A roster is read and the driver comes to the window its trim takes effect in. -/
def trimmedAt (epoch source : Nat) (survival : UInt64) : List (ObservationEvent ℚ) :=
  [.deliver (some (.roster ⟨trimmedRoster epoch source survival, "v", (source + 2) * 60 * 10 ^ 9⟩)),
    .boundary ((source + 2) * 60000) ((source + 2) * 60 * 10 ^ 9)]

/-- A recording process at its start. -/
def recording (admission : Option (Admission ℚ)) : Observation ℚ where
  driver :=
    { config := smallConfig, uncertainty := 0, cache := ⟨none, none⟩, signal := true
      weights := some (.startup admission), bornMs := 0, cutoff := ⟨none⟩, plan := none
      lastTrimEpoch := 0, history := [] }
  phase := .running

theorem new_recording (admission : Option (Admission ℚ)) :
    ObservationDriver.new smallConfig 0 0 ⟨none, none⟩ true (some (.startup admission)) =
      .ok (recording admission).driver := rfl

def evenOdds : Admission ℚ := ⟨1 / 2, by decide +kernel⟩

/-- A process admitted at even odds survives a trim to a quarter, and is stopped
by the next. -/
theorem trims_and_weights_evenOdds :
    ∃ s t, run (step fixedLot) (recording (some evenOdds)) (trimmedAt 7 0 (2 ^ 62)) = some s ∧
      run (step fixedLot) s (trimmedAt 9 2 1) = some t ∧ s.weight = some 8 ∧
        (t.driver.history.map fun a => a.trim.epoch).Nodup ∧ (s.driver.signal = false →
          t.driver.signal = false) ∧ t.weight = some 0 := by
  have hrun : (run (step fixedLot) (recording (some evenOdds)) (trimmedAt 7 0 (2 ^ 62))).map
      (fun s => (s.weight, (run (step fixedLot) s (trimmedAt 9 2 1)).map weight)) =
        some (some 8, some (some 0)) := by
    decide +kernel
  rcases Option.map_eq_some_iff.mp hrun with ⟨s, hs, hpair⟩
  rw [Prod.mk.injEq] at hpair
  rcases Option.map_eq_some_iff.mp hpair.2 with ⟨t, ht, hweight⟩
  rcases trims_and_weights fixedLot (new_recording (some evenOdds)) hs ht with
    ⟨honce, -, hsignal, -, -, -, -⟩
  exact ⟨s, t, hs, ht, hpair.1, honce, hsignal, hweight⟩

/-- The creator of a roster has an unknown weight. When a trim stops it, the
weight is known to be zero. -/
theorem creator_stopped_by_trim :
    ¬ ∀ (digest : String → String → String → UInt64) (driver : ObservationDriver ℚ)
        (before after : List (ObservationEvent ℚ)) (s t : Observation ℚ),
      ObservationDriver.new smallConfig 0 0 ⟨none, none⟩ true (some .unknown) = .ok driver →
        run (step digest) ⟨driver, .running⟩ before = some s →
          run (step digest) s after = some t → s.weight = none → t.weight = none := by
  intro hall
  have hrun : (run (step fixedLot) (recording none) (trimmedAt 7 0 1)).map weight =
      some (some 0) := by
    decide
  rcases Option.map_eq_some_iff.mp hrun with ⟨t, ht, hweight⟩
  have hunknown := hall fixedLot (recording none).driver [] (trimmedAt 7 0 1) (recording none) t
    (new_recording none) rfl ht rfl
  rw [hweight] at hunknown
  cases hunknown

end Observation

end Dial9.Sampling
