/-
# Step machines that emit

A loop that reads a stream is a machine: each turn emits a value, moves on
silently, or halts. The machine of a loop is its body; running it collects the
emitted values, each with the state it left behind, so that an observer may
read both. A loop is resumed on a longer stream by lifting its turns along an
embedding of states.
-/

import Mathlib.Data.List.Basic
import Mathlib.Tactic.Common

namespace Dial9.Lib

universe u v w

/-- One turn of a machine with states `σ`, emitting `α`, halting with `ε`. -/
inductive Turn (σ : Type u) (α : Type v) (ε : Type w)
  | emit (value : α) (next : σ)
  | silent (next : σ)
  | halt (reason : ε) (last : σ)

/-- Move a turn along a map of states and a map of halting reasons. -/
def Turn.map {σ : Type u} {α : Type v} {ε : Type w} {τ : Type u} {δ : Type w} (lift : σ → τ)
    (reason : ε → δ) : Turn σ α ε → Turn τ α δ
  | .emit value next => .emit value (lift next)
  | .silent next => .silent (lift next)
  | .halt r last => .halt (reason r) (lift last)

/-- The state a turn leads to. -/
def Turn.next {σ : Type u} {α : Type v} {ε : Type w} : Turn σ α ε → σ
  | .emit _ next => next
  | .silent next => next
  | .halt _ last => last

/-- The turn does not halt. -/
def Turn.GoesOn {σ : Type u} {α : Type v} {ε : Type w} : Turn σ α ε → Prop
  | .halt _ _ => False
  | _ => True

theorem Turn.map_of_goesOn {σ τ α ε δ : Type} {turn : Turn σ α ε} (h : turn.GoesOn) (lift : σ → τ)
    (reason reason' : ε → δ) : turn.map lift reason = turn.map lift reason' := by
  cases turn with
  | emit _ _ | silent _ => rfl
  | halt r last => exact h.elim

namespace Machine

variable {σ α ε τ β δ γ : Type}

/-- Values emitted along a run, each with the state right after it. -/
abbrev Log (σ α : Type) := List (α × σ)

/-- A finite run that has not halted. -/
inductive Steps (step : σ → Turn σ α ε) : σ → Log σ α → σ → Prop
  | refl (s : σ) : Steps step s [] s
  | silent {s next last : σ} {log : Log σ α} (turn : step s = .silent next)
      (rest : Steps step next log last) : Steps step s log last
  | emit {s next last : σ} {value : α} {log : Log σ α} (turn : step s = .emit value next)
      (rest : Steps step next log last) : Steps step s ((value, next) :: log) last

/-- Collect what a machine emits, and how it halts, within `fuel` turns. -/
def collect (step : σ → Turn σ α ε) : Nat → σ → Log σ α × Option (ε × σ)
  | 0, _ => ([], none)
  | fuel + 1, s =>
    match step s with
    | .emit value next =>
      ((value, next) :: (collect step fuel next).1, (collect step fuel next).2)
    | .silent next => collect step fuel next
    | .halt reason last => ([], some (reason, last))

/-- Skip silent turns: the next emission or the halt. Running out of fuel is
reported as a silent turn. -/
def settle (step : σ → Turn σ α ε) : Nat → σ → Turn σ α ε
  | 0, s => .silent s
  | fuel + 1, s =>
    match step s with
    | .silent next => settle step fuel next
    | turn => turn

/-- A turn that goes on ends below the bound. -/
def Below (measure : σ → Nat) (bound : Nat) : Turn σ α ε → Prop
  | .emit _ next => measure next < bound
  | .silent next => measure next < bound
  | .halt _ _ => True

/-- Every turn that does not halt decreases the measure. -/
def Decreases (step : σ → Turn σ α ε) (measure : σ → Nat) : Prop :=
  ∀ s, Below measure (measure s) (step s)

variable {log : Log σ α}

variable {s t : σ}

section Basic

variable {step : σ → Turn σ α ε}

theorem Steps.trans {s t u : σ} {first second : Log σ α}
    (h : Steps step s first t) (h' : Steps step t second u) :
    Steps step s (first ++ second) u := by
  induction h with
  | refl s => exact h'
  | silent turn _ ih => exact .silent turn (ih h')
  | emit turn _ ih => exact .emit turn (ih h')

theorem Steps.single_emit {s next : σ} {value : α} (turn : step s = .emit value next) :
    Steps step s [(value, next)] next := .emit turn (.refl next)

theorem Steps.single_silent {s next : σ} (turn : step s = .silent next) :
    Steps step s [] next := .silent turn (.refl next)

variable {measure : σ → Nat}

/-- A run followed by a halt is what `collect` returns, given enough fuel. -/
theorem Steps.collect_eq (hdec : Decreases step measure) {s t last : σ} {reason : ε}
    (h : Steps step s log t) (hhalt : step t = .halt reason last) :
    ∀ {fuel : Nat}, measure s < fuel → collect step fuel s = (log, some (reason, last)) := by
  induction h with
  | refl s =>
    intro fuel hfuel
    obtain ⟨fuel, rfl⟩ : ∃ m, fuel = m + 1 := ⟨fuel - 1, by omega⟩
    simp [collect, hhalt]
  | @silent s next _ _ turn _ ih =>
    intro fuel hfuel
    obtain ⟨fuel, rfl⟩ : ∃ m, fuel = m + 1 := ⟨fuel - 1, by omega⟩
    have hless := hdec s
    rw [turn] at hless
    have hless : measure next < measure s := hless
    simp only [collect, turn]
    exact ih hhalt (by omega)
  | @emit s next _ _ _ turn _ ih =>
    intro fuel hfuel
    obtain ⟨fuel, rfl⟩ : ∃ m, fuel = m + 1 := ⟨fuel - 1, by omega⟩
    have hless := hdec s
    rw [turn] at hless
    have hless : measure next < measure s := hless
    simp [collect, turn, ih hhalt (show measure next < fuel by omega)]

theorem Steps.halt_unique {s t u tlast ulast : σ} {first second : Log σ α} {treason ureason : ε}
    (h : Steps step s first t) (hhalt : step t = .halt treason tlast)
    (h' : Steps step s second u) (hhalt' : step u = .halt ureason ulast) : t = u := by
  induction h generalizing second with
  | refl s =>
    cases h' with
    | refl => rfl
    | silent turn _ | emit turn _ => simp [hhalt] at turn
  | silent turn _ ih =>
    cases h' with
    | refl => simp [hhalt'] at turn
    | silent turn' rest =>
      rw [turn, Turn.silent.injEq] at turn'
      subst turn'
      exact ih hhalt rest
    | emit turn' _ => simp [turn] at turn'
  | emit turn _ ih =>
    cases h' with
    | refl => simp [hhalt'] at turn
    | silent turn' _ => simp [turn] at turn'
    | emit turn' rest =>
      rw [turn, Turn.emit.injEq] at turn'
      obtain ⟨-, rfl⟩ := turn'
      exact ih hhalt rest

/-- A machine with a decreasing measure always reaches a halt. -/
theorem exists_steps_halt (hdec : Decreases step measure) (s : σ) :
    ∃ log t reason last, Steps step s log t ∧ step t = .halt reason last := by
  induction hn : measure s using Nat.strongRecOn generalizing s with
  | ind n ih =>
    have hless := hdec s
    cases hturn : step s with
    | emit value next =>
      rw [hturn] at hless
      obtain ⟨log, t, reason, last, hsteps, hhalt⟩ := ih (measure next) (hn ▸ hless) next rfl
      exact ⟨_, t, reason, last, .emit hturn hsteps, hhalt⟩
    | silent next =>
      rw [hturn] at hless
      obtain ⟨log, t, reason, last, hsteps, hhalt⟩ := ih (measure next) (hn ▸ hless) next rfl
      exact ⟨log, t, reason, last, .silent hturn hsteps, hhalt⟩
    | halt reason last => exact ⟨[], s, reason, last, .refl s, hturn⟩

/-- `collect` with enough fuel is a run to a halt. -/
theorem steps_of_collect (hdec : Decreases step measure) {fuel : Nat} (hfuel : measure s < fuel) :
    ∃ t reason last, Steps step s (collect step fuel s).1 t ∧ step t = .halt reason last ∧
      (collect step fuel s).2 = some (reason, last) := by
  obtain ⟨log, t, reason, last, hsteps, hhalt⟩ := exists_steps_halt hdec s
  have hcollect := hsteps.collect_eq hdec hhalt hfuel
  exact ⟨t, reason, last, by rw [hcollect]; exact hsteps, hhalt, by rw [hcollect]⟩

end Basic

/-! ## Settling silent turns -/

section Settle

variable {step : σ → Turn σ α ε} {measure : σ → Nat}

/-- With enough fuel, settling unfolds like the recursion it models: a silent
turn is followed by settling again, any other turn is the answer. -/
theorem settle_eq (hdec : Decreases step measure) :
    ∀ {fuel fuel' : Nat} {s : σ}, measure s < fuel → measure s < fuel' →
      settle step fuel s = settle step fuel' s
  | 0, _, _, h, _ => absurd h (Nat.not_lt_zero _)
  | _ + 1, 0, _, _, h => absurd h (Nat.not_lt_zero _)
  | fuel + 1, fuel' + 1, s, h, h' => by
      have hless := hdec s
      unfold settle
      cases hturn : step s with
      | emit _ _ | halt _ _ => rfl
      | silent next =>
        rw [hturn] at hless
        have hless : measure next < measure s := hless
        exact settle_eq hdec (by omega) (by omega)

/-- Iterating the settled machine collects exactly what the machine collects. -/
theorem steps_settle (hdec : Decreases step measure) {s t last : σ} {reason : ε}
    (h : Steps step s log t) (hhalt : step t = .halt reason last) :
    ∃ u, Steps (fun x => settle step (measure x + 1) x) s log u ∧
      settle step (measure u + 1) u = .halt reason last := by
  induction h with
  | refl s => exact ⟨s, .refl s, by simp [settle, hhalt]⟩
  | @emit s next _ value _ turn _ ih =>
    obtain ⟨u, hsteps, hend⟩ := ih hhalt
    exact ⟨u, .emit (by simp [settle, turn]) hsteps, hend⟩
  | @silent s next _ _ turn _ ih =>
    obtain ⟨u, hsteps, hend⟩ := ih hhalt
    have hless := hdec s
    rw [turn] at hless
    have hless : measure next < measure s := hless
    have hskip : settle step (measure s + 1) s = settle step (measure next + 1) next := by
      rw [settle, turn]
      exact settle_eq hdec (by omega) (by omega)
    -- The settled turn at `s` is the settled turn at `next`.
    cases hsteps with
    | refl => exact ⟨s, .refl s, hskip.trans hend⟩
    | silent turn' rest => exact ⟨u, .silent (hskip.trans turn') rest, hend⟩
    | emit turn' rest => exact ⟨u, .emit (hskip.trans turn') rest, hend⟩

theorem settle_decreases (hdec : Decreases step measure) {fuel : Nat} :
    Below measure (measure s) (settle step (fuel + 1) s) := by
  induction fuel generalizing s with
  | zero =>
    have hless := hdec s
    unfold settle
    cases hturn : step s with
    | emit value next => simpa [hturn] using hless
    | halt reason last => trivial
    | silent next => simpa [hturn, settle] using hless
  | succ fuel ih =>
    have hless := hdec s
    unfold settle
    cases hturn : step s with
    | emit value next => simpa [hturn] using hless
    | halt reason last => trivial
    | silent next =>
      rw [hturn] at hless
      have hless : measure next < measure s := hless
      have hnext := ih (s := next)
      revert hnext
      dsimp only
      cases settle step (fuel + 1) next with
      | emit _ _ | silent _ => exact fun h => Nat.lt_trans h hless
      | halt reason last => exact fun _ => trivial

theorem decreases_settle (hdec : Decreases step measure) :
    Decreases (fun x => settle step (measure x + 1) x) measure :=
  fun _ => settle_decreases hdec

theorem collect_settle (hdec : Decreases step measure) {fuel : Nat} (hfuel : measure s < fuel) :
    collect (fun x => settle step (measure x + 1) x) fuel s = collect step fuel s := by
  obtain ⟨log, t, reason, last, hsteps, hhalt⟩ := exists_steps_halt hdec s
  obtain ⟨u, hsettled, hend⟩ := steps_settle hdec hsteps hhalt
  rw [hsettled.collect_eq (decreases_settle hdec) hend hfuel, hsteps.collect_eq hdec hhalt hfuel]

end Settle

/-! ## Lifting along an embedding -/

variable {step : σ → Turn σ α ε}

/-- A map of states that commutes with every turn that does not halt carries
runs to runs. -/
theorem Steps.map {step' : τ → Turn τ α δ} (lift : σ → τ) (reason : ε → δ)
    (hlift : ∀ s, (step s).GoesOn → step' (lift s) = (step s).map lift reason)
    (h : Steps step s log t) :
    Steps step' (lift s) (log.map fun entry => (entry.1, lift entry.2)) (lift t) := by
  induction h with
  | refl s => exact .refl _
  | @silent s next _ _ turn _ ih =>
    refine .silent ?_ ih
    rw [hlift s (by rw [turn]; trivial), turn]
    rfl
  | @emit s next _ value _ turn _ ih =>
    refine .emit ?_ ih
    rw [hlift s (by rw [turn]; trivial), turn]
    rfl

/-- A relation between consecutive states holds along every run, once it is
reflexive and transitive. -/
theorem Steps.relates (related : σ → σ → Prop) (hrefl : ∀ s, related s s)
    (htrans : ∀ s t u, related s t → related t u → related s u)
    (hturn : ∀ s, (step s).GoesOn → related s (step s).next) (h : Steps step s log t) :
    related s t := by
  induction h with
  | refl s => exact hrefl s
  | @silent s next _ _ turn _ ih =>
    have hfirst := hturn s (by rw [turn]; trivial)
    rw [turn] at hfirst
    exact htrans _ _ _ hfirst ih
  | @emit s next _ value _ turn _ ih =>
    have hfirst := hturn s (by rw [turn]; trivial)
    rw [turn] at hfirst
    exact htrans _ _ _ hfirst ih

/-! ## Two machines in step -/

/-- Two turns do the same, and lead to related states. -/
inductive Matches (related : σ → τ → Prop) : Turn σ α ε → Turn τ α δ → Prop
  | emit (value : α) {next : σ} {next' : τ} (h : related next next') :
      Matches related (.emit value next) (.emit value next')
  | silent {next : σ} {next' : τ} (h : related next next') :
      Matches related (.silent next) (.silent next')
  | halt (reason : ε) (reason' : δ) (last : σ) (last' : τ) :
      Matches related (.halt reason last) (.halt reason' last')

/-- Machines whose turns match from related states emit the same values. -/
theorem collect_of_matches {step' : τ → Turn τ α δ} {related : σ → τ → Prop}
    (hmatches : ∀ s t, related s t → Matches related (step s) (step' t)) (fuel : Nat)
    {s : σ} {t : τ} (h : related s t) :
    (collect step fuel s).1.map Prod.fst = (collect step' fuel t).1.map Prod.fst := by
  induction fuel generalizing s t with
  | zero => rfl
  | succ fuel ih =>
    have hturn := hmatches s t h
    unfold collect
    generalize step s = turn at hturn ⊢
    generalize step' t = turn' at hturn ⊢
    cases hturn with
    | emit value hnext => exact congrArg (value :: ·) (ih hnext)
    | silent hnext => exact ih hnext
    | halt _ _ _ _ => rfl

/-! ## Observations -/

/-- The observations along a log. -/
def seen (look : α → σ → Option γ) (log : Log σ α) : List γ :=
  log.filterMap fun entry => look entry.1 entry.2

end Machine

end Dial9.Lib
