/-
# What a turn can do

Two facts about a turn carry everything that is proved about a fleet. It issues
a write only as one of five edits, each of a roster the process has at hand. And
what it remembers of the roster it has read, or had acknowledged as its own.
-/

import Dial9.Sampling.Process

namespace Dial9.Sampling

open Dial9.Lib

variable {F : Type} [Outside F]

/-! ## Reads -/

variable {observed : Observed F} {now : SystemTime} {turn : Turn F}

variable {incoming : Option (Decoded F)} {purpose : Purpose} {own : Observed F} {move : Move F}

omit [Outside F] in
theorem Cache.observed_of_publish {cache : Cache F}
    (h : (cache.publish incoming).observed = some observed) :
    cache.observed = some observed ∨ incoming = some (.roster observed) := by
  unfold Cache.publish at h
  split at h
  · exact .inl h
  · split_ifs at h
    exact .inl h
  · split at h <;> split_ifs at h
    · exact .inl h
    · exact .inr (by rw [← Option.some.inj h])
    · exact .inl h
    · exact .inr (by rw [← Option.some.inj h])

variable {config : Config}

theorem decode_eq_roster {object : Object F} (h : decode object config = .ok (.roster observed)) :
    object.body = .roster observed.roster ∧ object.version = observed.version ∧
      observed.roster.policy = .new config ∧ observed.roster.validate = .ok () := by
  unfold decode at h
  split at h
  · cases h
  · cases h
  · rename_i roster hbody
    split_ifs at h with hpolicy
    · cases h
    · cases hvalid : roster.validate with
      | error e =>
        rw [hvalid] at h
        cases h
      | ok u =>
        rw [hvalid] at h
        cases h
        exact ⟨hbody, rfl, not_not.mp hpolicy, hvalid⟩

theorem decode_eq_foreign {object : Object F} {foreign : Foreign}
    (h : decode object config = .ok (.foreign foreign)) :
    object.version = foreign.version ∧
      ∀ roster, object.body = .roster roster → roster.policy ≠ .new config := by
  unfold decode at h
  split at h
  · cases h
  · rename_i bytes hbody
    cases h
    refine ⟨rfl, ?_⟩
    intro roster hroster
    rw [hbody] at hroster
    cases hroster
  · rename_i roster hbody
    split_ifs at h with hpolicy
    · cases h
      refine ⟨rfl, ?_⟩
      intro other hother
      rw [hbody] at hother
      cases hother
      exact hpolicy
    · cases hvalid : roster.validate <;> rw [hvalid] at h <;> cases h

theorem readRoster_eq_some {answer : Answer F} {decoded : Decoded F}
    (h : readRoster config answer = .ok (some decoded)) :
    ∃ object, answer = .ok (some object) ∧ decode object config = .ok decoded := by
  cases answer with
  | error e => cases h
  | ok held =>
    cases held with
    | none => cases h
    | some object =>
      refine ⟨object, rfl, ?_⟩
      cases hdecode : decode object config with
      | error e => simp [readRoster, Except.bind, hdecode, Except.map] at h
      | ok d =>
        simp only [readRoster, Except.bind, hdecode, Except.map, Except.ok.injEq,
          Option.some.injEq] at h
        rw [h]

/-! ## Custody -/

/-- The write was issued for the purpose. -/
def Write.serves : Write → Purpose → Prop
  | .creation, .found => True
  | .election, .found => True
  | .election, .claim => True
  | .reservation now window, .reserve now' window' => now = now' ∧ window = window'
  | .publication, .publish _ => True
  | .release, .release => True
  | _, _ => False

theorem Write.purpose_of_reservation {now : Nat} {window : Option Nat}
    (h : (Write.reservation now window).serves purpose) : purpose = .reserve now window := by
  cases purpose with
  | reserve => rw [h.1, h.2]
  | found | claim | publish | release => exact absurd h id

/-- Every roster the worker remembers meets `P`, and the one it leads with names it. -/
structure Worker.Remembers (P : Observed F → Prop) (worker : Worker F) : Prop where
  cached : ∀ observed, worker.cache.observed = some observed → P observed
  leading : ∀ observed, worker.leader = some observed →
    P observed ∧ observed.roster.holder = worker.config.invocationId

/-- The roster of a call was issued, and so was the one a pass has reserved with. -/
def Phase.Sound (P : Observed F → Prop) (Issued : Write → Roster F → Prop) : Phase F → Prop
  | .replacing write call => Issued write call.roster
  | .observing now window reserved =>
    P reserved ∧ Issued (.reservation now (some window)) reserved.roster
  | _ => True

/-- What holds of a process at any time. -/
structure Custody (P : Observed F → Prop) (Issued : Write → Roster F → Prop) (config : Config)
    (worker : Worker F) (phase : Phase F) : Prop where
  config : worker.config = config
  remembers : worker.Remembers P
  phase : phase.Sound P Issued

variable {basis : Option (Observed F)} {previous : Option VersionToken}
  {edited : Except StoreError (Roster F)} {result : Except StoreError (Option (Decoded F))}

namespace Worker

variable {P : Observed F → Prop} {Issued : Write → Roster F → Prop} {worker : Worker F}

section

omit [Outside F]

theorem Remembers.lost (h : worker.Remembers P) : Remembers P { worker with leader := none } :=
  ⟨h.cached, fun _ hleader => nomatch hleader⟩

theorem Remembers.lead (h : worker.Remembers P) (hown : P own)
    (hholder : own.roster.holder = worker.config.invocationId) :
    Remembers P { worker with leader := some own } := by
  refine ⟨h.cached, ?_⟩
  intro observed hobserved
  rw [← Option.some.inj hobserved]
  exact ⟨hown, hholder⟩

theorem Remembers.publish (h : worker.Remembers P) {incoming : Option (Decoded F)}
    (hincoming : ∀ observed, incoming = some (.roster observed) → P observed) :
    Remembers P { worker with cache := worker.cache.publish incoming } := by
  refine ⟨?_, h.leading⟩
  intro observed hobserved
  rcases Cache.observed_of_publish hobserved with hold | hnew
  · exact h.cached observed hold
  · exact hincoming observed hnew

@[simp]
theorem consumeCache_config (clock : Clock) :
    (worker.consumeCache clock).config = worker.config := by
  unfold consumeCache
  split <;> rfl

theorem Remembers.consumeCache (h : worker.Remembers P) (clock : Clock) :
    (worker.consumeCache clock).Remembers P := by
  unfold Worker.consumeCache
  split
  · exact ⟨h.cached, fun _ hleader => nomatch hleader⟩
  · refine ⟨h.cached, ?_⟩
    intro observed hobserved
    rcases Option.or_eq_some_iff.mp hobserved with hkept | ⟨-, hadopted⟩
    · exact h.leading observed (Option.filter_eq_some_iff.mp hkept).1
    · rcases Option.filter_eq_some_iff.mp hadopted with ⟨hcached, hholds⟩
      refine ⟨h.cached observed hcached, ?_⟩
      exact eq_of_beq (Bool.and_eq_true_iff.mp hholds).1

@[simp]
theorem learn_config (incoming : Option (Decoded F)) (clock : Clock) :
    (worker.learn incoming clock).config = worker.config :=
  consumeCache_config clock

theorem Remembers.learn (h : worker.Remembers P)
    (hincoming : ∀ observed, incoming = some (.roster observed) → P observed) (clock : Clock) :
    (worker.learn incoming clock).Remembers P :=
  (h.publish hincoming).consumeCache clock

end

/-! ## Turns keep custody -/

variable {clock : Clock} {nonces : Nonces F} {phase : Phase F} {answer : Answer F}

/-- Custody of what a turn leaves behind. -/
abbrev Kept (P : Observed F → Prop) (Issued : Write → Roster F → Prop) (worker : Worker F)
    (turn : Turn F) : Prop :=
  Custody P Issued worker.config turn.worker turn.phase

/-- What a turn has issued counts as issued. -/
def Notes (Issued : Write → Roster F → Prop) (turn : Turn F) : Prop :=
  ∀ request, turn.issued = some request →
    ∀ write : Write, write.serves request.purpose → Issued write request.roster

section

omit [Outside F]

section

variable (h : worker.Remembers P)
include h

theorem Remembers.goTo (hphase : phase.Sound P Issued) : Kept P Issued worker (worker.goTo phase) :=
  ⟨rfl, h, hphase⟩

theorem Remembers.lose (hphase : phase.Sound P Issued) : Kept P Issued worker (worker.lose phase) :=
  ⟨rfl, h.lost, hphase⟩

theorem Remembers.write {failed : Turn F} {write : Write} (hfailed : Kept P Issued worker failed)
    (hserves : write.serves purpose)
    (hnotes : Notes Issued (worker.write failed write purpose basis previous edited)) :
    Kept P Issued worker (worker.write failed write purpose basis previous edited) := by
  cases edited with
  | error e => exact hfailed
  | ok roster => exact ⟨rfl, h, hnotes _ rfl write hserves⟩

theorem Remembers.launch {observed : Option (Observed F)}
    (hobserved : ∀ o, observed = some o → P o) (foreign : Option Foreign) (authoritative : Bool)
    (clock : Clock) :
    Kept P Issued worker (worker.launch observed foreign authoritative clock) := by
  unfold Worker.launch Worker.new
  cases millis (clock 0) with
  | error e => exact h.goTo trivial
  | ok bornMs =>
    cases millis (clock 3) with
    | error e => exact h.goTo trivial
    | ok ms =>
      refine ⟨rfl, ⟨hobserved, ?_⟩, trivial⟩
      intro o ho
      rcases Option.filter_eq_some_iff.mp ho with ⟨hmem, hholds⟩
      exact ⟨hobserved o hmem, eq_of_beq (Bool.and_eq_true_iff.mp hholds).1⟩

end

end

theorem Remembers.prepared (h : worker.Remembers P)
    (hread : ∀ o, readRoster worker.config answer = .ok (some (.roster o)) → P o)
    (hnotes : Notes Issued (worker.prepared answer clock nonces)) :
    Kept P Issued worker (worker.prepared answer clock nonces) := by
  unfold Worker.prepared at hnotes ⊢
  split
  · exact h.launch (by simp) none false clock
  · exact h.write (h.launch (by simp) none true _) trivial hnotes
  · rename_i object
    have hdecoded : ∀ o, decode object worker.config = .ok (.roster o) → P o := by
      intro o ho
      apply hread o
      simp only [readRoster, Except.bind, ho, Except.map]
    split
    · exact h.launch (by simp) none false clock
    · exact h.launch (by simp) (some _) true clock
    · rename_i observed hdecode
      apply h.launch _ none
      intro o ho
      rw [← Option.some.inj ho]
      exact hdecoded observed hdecode

omit [Outside F] in
theorem Remembers.loop (h : worker.Remembers P) : Kept P Issued worker (worker.loop clock) := by
  unfold Worker.loop
  split
  · exact h.goTo trivial
  · have hconsumed := h.consumeCache (clock.later 1)
    dsimp only
    split_ifs
    · exact ⟨consumeCache_config _, ⟨hconsumed.cached, hconsumed.leading⟩, trivial⟩
    · exact ⟨consumeCache_config _, hconsumed, trivial⟩

omit [Outside F] in
theorem Remembers.learned (h : worker.Remembers P)
    (hincoming : ∀ observed, incoming = some (.roster observed) → P observed)
    (hphase : phase.Sound P Issued) :
    Kept P Issued worker ((worker.learn incoming clock).goTo phase) :=
  ⟨learn_config incoming clock, h.learn hincoming clock, hphase⟩

theorem Remembers.elect (h : worker.Remembers P)
    (hread : ∀ o, readRoster worker.config answer = .ok (some (.roster o)) → P o)
    (hnotes : Notes Issued (worker.elect now answer clock nonces)) :
    Kept P Issued worker (worker.elect now answer clock nonces) := by
  unfold Worker.elect at hnotes ⊢
  dsimp only at hnotes ⊢
  have hfailed : Kept P Issued worker (worker.lose .elected) := h.lose trivial
  split
  · exact hfailed
  · rename_i hnone
    rw [hnone] at hnotes
    exact h.write hfailed trivial hnotes
  · rename_i foreign hforeign
    rw [hforeign] at hnotes
    dsimp only at hnotes ⊢
    split_ifs at hnotes ⊢
    · exact h.write hfailed trivial hnotes
    · exact h.learned (by simp) trivial
  · rename_i observed hobserved
    rw [hobserved] at hnotes
    dsimp only at hnotes ⊢
    split_ifs at hnotes ⊢
    · exact h.write hfailed trivial hnotes
    · refine h.learned ?_ trivial
      intro o ho
      rw [← Decoded.roster.inj (Option.some.inj ho)]
      exact hread observed hobserved

omit [Outside F] in
theorem Remembers.rest (h : worker.Remembers P) (now : SystemTime) :
    Kept P Issued worker (worker.rest now) := by
  unfold Worker.rest
  split <;> exact h.goTo trivial

omit [Outside F] in
theorem Remembers.proceed (h : worker.Remembers P) (since : Nat) :
    Kept P Issued worker (worker.proceed since clock) := by
  unfold Worker.proceed
  split
  · exact h.rest _
  · split
    · exact h.goTo trivial
    · split_ifs
      · exact ⟨rfl, h.lost, trivial⟩
      · exact h.rest _

theorem Remembers.reserve (h : worker.Remembers P) {previous : Observed F}
    (hread : ∀ o, readRoster worker.config answer = .ok (some (.roster o)) → P o)
    (hnotes : Notes Issued (worker.reserve previous answer clock nonces)) :
    Kept P Issued worker (worker.reserve previous answer clock nonces) := by
  unfold Worker.reserve at hnotes ⊢
  dsimp only at hnotes ⊢
  have hfailed : Kept P Issued worker (worker.lose .passed) := h.lose trivial
  split
  · exact hfailed
  · rename_i current hcurrent
    rw [hcurrent] at hnotes
    dsimp only at hnotes ⊢
    split_ifs at hnotes ⊢
    · refine h.learned ?_ trivial
      intro o ho
      rw [← Decoded.roster.inj (Option.some.inj ho)]
      exact hread current hcurrent
    · split at hnotes
      · exact hfailed
      · exact h.write hfailed ⟨rfl, rfl⟩ hnotes
  · rename_i other hother hread'
    refine h.learned ?_ trivial
    intro o ho
    rw [ho] at hread'
    exact hread o hread'

theorem Remembers.publication (h : worker.Remembers P) {window : Nat} {reserved : Observed F}
    {census profilers : Except StoreError (Sample F)}
    (hnotes : Notes Issued (worker.publish window reserved census profilers clock nonces)) :
    Kept P Issued worker (worker.publish window reserved census profilers clock nonces) := by
  unfold Worker.publish at hnotes ⊢
  split
  · exact h.lose trivial
  · rename_i finished hfinished
    rw [hfinished] at hnotes
    exact h.write (h.lose trivial) trivial hnotes

omit [Outside F] in
theorem Remembers.reschedule (h : worker.Remembers P) :
    Kept P Issued worker (worker.reschedule clock) := by
  unfold Worker.reschedule
  split
  · exact h.goTo trivial
  · rename_i now _
    have hnext : Remembers P { worker with nextPassMs := worker.schedule now } :=
      ⟨h.cached, h.leading⟩
    exact hnext.rest (clock 1)

theorem Remembers.release (h : worker.Remembers P) (hnotes : Notes Issued (worker.release nonces)) :
    Kept P Issued worker (worker.release nonces) := by
  unfold Worker.release at hnotes ⊢
  dsimp only at hnotes ⊢
  split
  · exact ⟨rfl, h.lost, trivial⟩
  · rename_i leader hleader
    rw [hleader] at hnotes
    exact h.lost.write (h.lost.goTo trivial) trivial hnotes

section

omit [Outside F]

theorem Remembers.leads (h : worker.Remembers P) (hown : P own)
    (hholder : own.roster.holder = worker.config.invocationId) (clock : Clock) :
    (Worker.learn { worker with leader := some own } (some (.roster own)) clock).Remembers P := by
  apply (h.lead hown hholder).learn
  intro observed hobserved
  rw [← Decoded.roster.inj (Option.some.inj hobserved)]
  exact hown

theorem replaced_config (result : Except StoreError (Option (Decoded F))) :
    (worker.replaced result).1.config = worker.config := by
  unfold Worker.replaced
  split <;> rfl

theorem Remembers.replaced (h : worker.Remembers P)
    (result : Except StoreError (Option (Decoded F))) :
    (worker.replaced result).1.Remembers P := by
  unfold Worker.replaced
  split
  · exact h
  · exact h
  · exact h
  · exact h.publish (by simp)

theorem replaced_eq_some
    (h : (worker.replaced result).2 = .ok (some own)) : result = .ok (some (.roster own)) := by
  unfold Worker.replaced at h
  split at h
  · cases h
  · cases h
  · rw [Option.some.inj (Except.ok.inj h)]
  · cases h

theorem Remembers.settle (h : worker.Remembers P) {write : Write}
    (hown : ∀ o, result = .ok (some (.roster o)) →
      P o ∧ o.roster.holder = worker.config.invocationId ∧ Issued write o.roster) :
    Kept P Issued worker (worker.settle write result clock) := by
  have hconfig := @replaced_config F worker result
  have hnoted := h.replaced result
  have hsome : ∀ o, (worker.replaced result).2 = .ok (some o) →
      P o ∧ o.roster.holder = (worker.replaced result).1.config.invocationId ∧
        Issued write o.roster := by
    intro o ho
    rw [hconfig]
    exact hown o (replaced_eq_some ho)
  unfold Worker.settle
  rcases hreplaced : worker.replaced result with ⟨noted, outcome⟩
  rw [hreplaced] at hconfig hnoted hsome
  unfold Kept
  rw [← hconfig]
  cases write with
  | creation =>
    rw [hconfig]
    dsimp only
    split
    · rename_i claimed
      apply h.launch
      intro o ho
      rw [← Option.some.inj ho]
      exact (hown claimed rfl).1
    · exact h.launch (by simp) _ true clock
    · exact h.launch (by simp) none true clock
  | election =>
    dsimp only
    split
    · rename_i claimed
      rcases hsome claimed rfl with ⟨hP, hholder, -⟩
      have hleads := hnoted.leads hP hholder clock
      split
      · exact ⟨learn_config _ _, hleads.lost, trivial⟩
      · exact ⟨learn_config _ _, ⟨hleads.cached, hleads.leading⟩, trivial⟩
    · exact hnoted.lose trivial
  | reservation now window =>
    dsimp only
    split
    · exact hnoted.lose trivial
    · exact hnoted.goTo trivial
    · rename_i reserved
      rcases hsome reserved rfl with ⟨hP, hholder, hissued⟩
      have hleads := hnoted.leads hP hholder clock
      split
      · exact ⟨learn_config _ _, hleads, trivial⟩
      · exact ⟨learn_config _ _, hleads, hP, hissued⟩
  | publication =>
    dsimp only
    split
    · rename_i published
      rcases hsome published rfl with ⟨hP, hholder, -⟩
      exact ⟨learn_config _ _, hnoted.leads hP hholder clock, trivial⟩
    · exact hnoted.lose trivial
  | release => exact hnoted.goTo trivial

theorem Remembers.expire (h : worker.Remembers P) (hturn : worker.expire clock phase = some turn) :
    Kept P Issued worker turn := by
  unfold Worker.expire at hturn
  split at hturn
  · rw [← Option.some.inj hturn]
    exact h.launch (by simp) none false clock
  · rw [← Option.some.inj hturn]
    exact h.launch (by simp) none true clock
  · split_ifs at hturn
    rw [← Option.some.inj hturn]
    exact h.lose trivial

end

end Worker

/-! ## The turns -/

namespace Process

variable [DecidableEq F]

/-- Every turn there is, by the move and what the process waited for. -/
inductive Turns (history : History VersionToken (Body F) SystemTime) (process : Process F) :
    Move F → Turn F → Prop
  | startup {since : Nat} {answer : Answer F} {clock : Clock} {nonces : Nonces F} :
      answers history since answer = true →
      Turns history process (.got answer clock nonces) (process.worker.prepared answer clock nonces)
  | election {now : SystemTime} {since : Nat} {answer : Answer F} {clock : Clock}
      {nonces : Nonces F} :
      answers history since answer = true →
      Turns history process (.got answer clock nonces)
        (process.worker.elect now answer clock nonces)
  | pass {previous : Observed F} {since : Nat} {answer : Answer F} {clock : Clock}
      {nonces : Nonces F} :
      answers history since answer = true →
      Turns history process (.got answer clock nonces)
        (process.worker.reserve previous answer clock nonces)
  | reconciled {write : Write} {call : Call F} {error : StoreError} {since : Nat}
      {answer : Answer F} {clock : Clock} {nonces : Nonces F} :
      process.phase = .replacing write call → answers history since answer = true →
      Turns history process (.got answer clock nonces)
        (process.worker.settle write (call.reconciled process.worker.config error answer) clock)
  | uncertain {write : Write} {roster : Roster F} {stage : Stage} {answer : PutAnswer}
      {clock : Clock} :
      process.phase = .replacing write ⟨roster, .putting⟩ →
      Turns history process (.put answer clock)
        (process.worker.goTo (.replacing write ⟨roster, stage⟩))
  | written {write : Write} {roster : Roster F} {answer : PutAnswer} {clock : Clock}
      {result : Except StoreError (Option (Decoded F))} :
      process.phase = .replacing write ⟨roster, .putting⟩ →
      acknowledges history roster answer = true →
      Call.written ⟨roster, .putting⟩ history.length (clock 0) answer = .finished result →
      Turns history process (.put answer clock)
        (process.worker.settle write result (clock.later 1))
  | expired {clock : Clock} {turn : Turn F} :
      process.worker.expire clock process.phase = some turn →
      Turns history process (.expired clock) turn
  | wake {clock : Clock} : Turns history process (.wake clock) (process.worker.loop clock)
  | notice {clock : Clock} :
      Turns history process (.notice clock) ((process.worker.consumeCache clock).goTo .noticed)
  | slept {clock : Clock} :
      Turns history process (.slept clock)
        (process.worker.goTo (.reading (.election (clock 0)) history.length))
  | proceed {clock : Clock} :
      Turns history process (.proceed clock) (process.worker.proceed history.length clock)
  | censused {now window : Nat} {reserved : Observed F}
      {census profilers : Except StoreError (Sample F)}
      {clock : Clock} {nonces : Nonces F} :
      process.phase = .observing now window reserved →
      Turns history process (.censused census profilers clock nonces)
        (process.worker.publish window reserved census profilers clock nonces)
  | reschedule {clock : Clock} :
      Turns history process (.reschedule clock) (process.worker.reschedule clock)
  | stop : Turns history process .stop (process.worker.goTo .ending)
  | release {nonces : Nonces F} :
      Turns history process (.release nonces) (process.worker.release nonces)
  | die : Turns history process .die (process.worker.goTo .stopped)

variable {history : History VersionToken (Body F) SystemTime} {process : Process F}

omit [Outside F] [DecidableEq F] in
theorem roster_of_waiting {roster : Roster F} {since : Nat} {answer : PutAnswer} {call : Call F}
    (h : Call.written ⟨roster, .putting⟩ since now answer = .waiting call) :
    call = ⟨roster, call.stage⟩ := by
  cases answer with
  | stored _ | preconditionFailed => cases h
  | failed error =>
    rw [Call.written] at h
    split_ifs at h
    cases h
    rfl

theorem turns_of_turn (h : process.turn history move = some turn) :
    Turns history process move turn := by
  cases move with
  | got answer clock nonces =>
    simp only [Process.turn, Process.got] at h
    split at h
    · split_ifs at h with hanswer
      split at h <;> rw [← Option.some.inj h]
      · exact .startup hanswer
      · exact .election hanswer
      · exact .pass hanswer
    · rename_i hphase
      split_ifs at h with hanswer
      rw [← Option.some.inj h]
      exact .reconciled hphase hanswer
    · cases h
  | put answer clock =>
    simp only [Process.turn, Process.put] at h
    split at h
    · rename_i hphase
      split_ifs at h with hack
      split at h
      · rename_i call hcall
        rw [← Option.some.inj h, roster_of_waiting hcall]
        exact .uncertain hphase
      · rename_i result hresult
        rw [← Option.some.inj h]
        exact .written hphase hack hresult
    · cases h
  | expired clock => exact .expired h
  | censused census profilers clock nonces =>
    simp only [Process.turn] at h
    split at h <;> cases h
    rename_i hphase
    exact .censused hphase
  | wake clock =>
    simp only [Process.turn] at h
    split at h <;> cases h
    · exact .wake
    · exact .wake
  | notice clock =>
    simp only [Process.turn] at h
    split at h <;> cases h
    exact .notice
  | slept clock =>
    simp only [Process.turn] at h
    split at h <;> cases h
    exact .slept
  | proceed clock =>
    simp only [Process.turn] at h
    split at h <;> cases h
    exact .proceed
  | reschedule clock =>
    simp only [Process.turn] at h
    split at h <;> cases h
    exact .reschedule
  | stop =>
    simp only [Process.turn] at h
    split_ifs at h
    cases h
    exact .stop
  | release nonces =>
    simp only [Process.turn] at h
    split at h <;> cases h
    exact .release
  | die =>
    cases h
    exact .die
  | poll | polled _ _ => cases h

theorem stopped_of_turn (hstopped : process.phase = .stopped)
    (h : process.turn history move = some turn) :
    turn.phase = .stopped ∧ turn.issued = none := by
  cases move <;>
    simp only [Process.turn, Process.got, Process.put, Worker.expire, hstopped, Phase.inPass,
      Phase.awaits, Bool.false_eq_true, if_false, reduceCtorEq] at h
  rw [← Option.some.inj h]
  exact ⟨rfl, rfl⟩

end Process

/-! ## What a turn issues -/

namespace Process

variable [DecidableEq F]

/-- The writes a process can issue with a move, each an edit of what it has at hand. -/
inductive Emits (history : History VersionToken (Body F) SystemTime) (process : Process F) :
    Move F → Request F → Prop
  | found {since : Nat} {answer : Answer F} {clock : Clock} {nonces : Nonces F}
      {previous : Option VersionToken} {roster : Roster F} :
      answers history since answer = true →
      (readRoster process.worker.config answer = .ok none ∧ previous = none ∨
        ∃ foreign, readRoster process.worker.config answer = .ok (some (.foreign foreign)) ∧
          previous = some foreign.version) →
      process.worker.found (clock 0) nonces = .ok roster →
      Emits history process (.got answer clock nonces) ⟨.found, none, previous, roster⟩
  | claim {since : Nat} {answer : Answer F} {clock : Clock} {nonces : Nonces F}
      {observed : Observed F} {roster : Roster F} :
      answers history since answer = true →
      readRoster process.worker.config answer = .ok (some (.roster observed)) →
      observed.roster.claim process.worker.config nonces.revision.val = .ok roster →
      Emits history process (.got answer clock nonces)
        ⟨.claim, some observed, some observed.version, roster⟩
  | reserve {since now : Nat} {answer : Answer F} {clock : Clock} {nonces : Nonces F}
      {current : Observed F} {roster : Roster F} :
      answers history since answer = true →
      readRoster process.worker.config answer = .ok (some (.roster current)) →
      millis (clock 0) = .ok now →
      current.roster.reserve process.worker.config now nonces.revision.val = .ok roster →
      Emits history process (.got answer clock nonces)
        ⟨.reserve now (current.roster.assess process.worker.config now), some current,
          some current.version, roster⟩
  | publish {now window finished : Nat} {reserved : Observed F}
      {census profilers : Except StoreError (Sample F)} {clock : Clock} {nonces : Nonces F}
      {roster : Roster F} :
      process.phase = .observing now window reserved →
      millis (clock 0) = .ok finished →
      reserved.roster.publish process.worker.config window finished census profilers
        nonces.revision.val nonces.salt.val = .ok roster →
      Emits history process (.censused census profilers clock nonces)
        ⟨.publish window, some reserved, some reserved.version, roster⟩
  | release {nonces : Nonces F} {leader : Observed F} {roster : Roster F} :
      process.worker.leader = some leader →
      leader.roster.release process.worker.config nonces.revision.val = .ok roster →
      Emits history process (.release nonces) ⟨.release, some leader, some leader.version, roster⟩

variable {history : History VersionToken (Body F) SystemTime} {process : Process F}
  {request : Request F}

section

omit [DecidableEq F] [Outside F]

theorem issued_of_write {worker : Worker F} {failed : Turn F} {write : Write}
    (hfailed : failed.issued = none)
    (h : (worker.write failed write purpose basis previous edited).issued = some request) :
    ∃ roster, edited = .ok roster ∧ request = ⟨purpose, basis, previous, roster⟩ := by
  cases edited with
  | error e =>
    rw [Worker.write, hfailed] at h
    cases h
  | ok roster => exact ⟨roster, rfl, (Option.some.inj h).symm⟩

section

variable (worker : Worker F)
include worker

@[simp]
theorem launch_issued (observed : Option (Observed F))
    (foreign : Option Foreign) (authoritative : Bool) (clock : Clock) :
    (worker.launch observed foreign authoritative clock).issued = none := by
  unfold Worker.launch
  split <;> rfl

@[simp]
theorem settle_issued (write : Write)
    (result : Except StoreError (Option (Decoded F))) (clock : Clock) :
    (worker.settle write result clock).issued = none := by
  unfold Worker.settle
  rcases worker.replaced result with ⟨noted, outcome⟩
  cases write with
  | creation =>
    dsimp only
    split <;> simp
  | election =>
    dsimp only
    split
    · split <;> rfl
    · rfl
  | reservation now window =>
    dsimp only
    split
    · rfl
    · rfl
    · split <;> rfl
  | publication =>
    dsimp only
    split <;> rfl
  | release => rfl

@[simp]
theorem rest_issued (now : SystemTime) : (worker.rest now).issued = none := by
  unfold Worker.rest
  split <;> rfl

@[simp]
theorem loop_issued (clock : Clock) : (worker.loop clock).issued = none := by
  unfold Worker.loop
  split
  · rfl
  · dsimp only
    split_ifs <;> rfl

@[simp]
theorem proceed_issued (since : Nat) (clock : Clock) :
    (worker.proceed since clock).issued = none := by
  unfold Worker.proceed
  split
  · simp
  · split
    · rfl
    · split_ifs
      · rfl
      · simp

@[simp]
theorem reschedule_issued (clock : Clock) : (worker.reschedule clock).issued = none := by
  unfold Worker.reschedule
  split <;> simp [Worker.goTo]

end

theorem expire_issued {worker : Worker F} {clock : Clock} {phase : Phase F}
    (h : worker.expire clock phase = some turn) : turn.issued = none := by
  unfold Worker.expire at h
  split at h
  · rw [← Option.some.inj h, launch_issued]
  · rw [← Option.some.inj h, launch_issued]
  · split_ifs at h
    rw [← Option.some.inj h]
    rfl

end

variable {answer : Answer F} {clock : Clock} {nonces : Nonces F} {since : Nat}

section

variable (hanswer : answers history since answer = true)
include hanswer

theorem emits_of_prepared
    (h : (process.worker.prepared answer clock nonces).issued = some request) :
    Emits history process (.got answer clock nonces) request := by
  unfold Worker.prepared at h
  split at h
  · simp at h
  · rcases issued_of_write (launch_issued ..) h with ⟨roster, hroster, rfl⟩
    exact .found hanswer (.inl ⟨rfl, rfl⟩) hroster
  · split at h <;> simp at h

theorem emits_of_elect (h : (process.worker.elect now answer clock nonces).issued = some request) :
    Emits history process (.got answer clock nonces) request := by
  unfold Worker.elect at h
  dsimp only at h
  split at h
  · cases h
  · rename_i hnone
    rcases issued_of_write rfl h with ⟨roster, hroster, rfl⟩
    exact .found hanswer (.inl ⟨hnone, rfl⟩) hroster
  · rename_i foreign hforeign
    split_ifs at h
    · rcases issued_of_write rfl h with ⟨roster, hroster, rfl⟩
      exact .found hanswer (.inr ⟨foreign, hforeign, rfl⟩) hroster
    · cases h
  · rename_i observed hobserved
    split_ifs at h
    · rcases issued_of_write rfl h with ⟨roster, hroster, rfl⟩
      exact .claim hanswer hobserved hroster
    · cases h

theorem emits_of_reserve {previous : Observed F}
    (h : (process.worker.reserve previous answer clock nonces).issued = some request) :
    Emits history process (.got answer clock nonces) request := by
  unfold Worker.reserve at h
  dsimp only at h
  split at h
  · cases h
  · rename_i current hcurrent
    split_ifs at h
    · cases h
    · split at h
      · cases h
      · rename_i now hnow
        rcases issued_of_write rfl h with ⟨roster, hroster, rfl⟩
        exact .reserve hanswer hcurrent hnow hroster
  · cases h

end

theorem Turns.emits (hturn : Turns history process move turn) (h : turn.issued = some request) :
    Emits history process move request := by
  cases hturn with
  | startup hanswer => exact emits_of_prepared hanswer h
  | election hanswer => exact emits_of_elect hanswer h
  | pass hanswer => exact emits_of_reserve hanswer h
  | reconciled | written =>
    rw [settle_issued] at h
    cases h
  | uncertain | notice | slept | stop | die => cases h
  | expired hexpire =>
    rw [expire_issued hexpire] at h
    cases h
  | wake =>
    rw [loop_issued] at h
    cases h
  | proceed =>
    rw [proceed_issued] at h
    cases h
  | censused hphase =>
    unfold Worker.publish at h
    split at h
    · cases h
    · rename_i finished hfinished
      rcases issued_of_write rfl h with ⟨roster, hroster, rfl⟩
      exact .publish hphase hfinished hroster
  | reschedule =>
    rw [reschedule_issued] at h
    cases h
  | release =>
    unfold Worker.release at h
    dsimp only at h
    split at h
    · cases h
    · rename_i leader hleader
      rcases issued_of_write rfl h with ⟨roster, hroster, rfl⟩
      exact .release hleader hroster

/-! ## A turn keeps custody -/

variable {P : Observed F → Prop} {Issued : Write → Roster F → Prop}

/-- What is asked of the two predicates for a turn to keep custody: what the
store holds under the process's policy may be remembered, and so may an
acknowledged write of its own; and no two issued rosters have one revision. -/
structure Sources (history : History VersionToken (Body F) SystemTime) (config : Config)
    (P : Observed F → Prop) (Issued : Write → Roster F → Prop) : Prop where
  read : ∀ object observed, some object ∈ history →
    decode object config = .ok (.roster observed) → P observed
  acknowledged : ∀ write object now, some object ∈ history → ∀ roster,
    object.body = .roster roster → Issued write roster → P ⟨roster, object.version, now⟩
  holder : ∀ write roster, Issued write roster → roster.holder = config.invocationId
  revision : ∀ write roster observed, Issued write roster → P observed →
    observed.roster.revision = roster.revision → observed.roster = roster

namespace Sources

variable {config : Config} (hsources : Sources history config P Issued)

include hsources

theorem readRoster (hanswer : answers history since answer = true)
    (h : Sampling.readRoster config answer = .ok (some (.roster observed))) : P observed := by
  rcases readRoster_eq_some h with ⟨object, rfl, hdecode⟩
  have hmem : some object ∈ history.since since := List.contains_iff_mem.mp hanswer
  exact hsources.read object observed (History.mem_of_mem_since hmem) hdecode

theorem written {write : Write} {roster : Roster F} {answer : PutAnswer}
    (hissued : Issued write roster) (hack : acknowledges history roster answer = true)
    (h : Call.written ⟨roster, .putting⟩ since now answer =
      .finished (.ok (some (.roster observed)))) :
    P observed ∧ observed.roster.holder = config.invocationId ∧ Issued write observed.roster := by
  cases answer with
  | stored version =>
    rcases List.any_eq_true.mp hack with ⟨held, hmem, hheld⟩
    rcases (Option.any_eq_true _ _).mp hheld with ⟨object, rfl, hobject⟩
    rcases Bool.and_eq_true_iff.mp hobject with ⟨hversion, hbody⟩
    obtain rfl : ⟨roster, version, now⟩ = observed := by
      simpa only [Call.written, Replaced.finished.injEq, Except.ok.injEq, Option.some.injEq,
        Decoded.roster.injEq] using h
    refine ⟨?_, hsources.holder write roster hissued, hissued⟩
    rw [← eq_of_beq hversion]
    exact hsources.acknowledged write object now hmem roster (eq_of_beq hbody) hissued
  | preconditionFailed => simp [Call.written] at h
  | failed error =>
    rw [Call.written] at h
    split_ifs at h
    cases h

theorem reconciled {write : Write} {call : Call F} {error : StoreError}
    (hissued : Issued write call.roster) (hanswer : answers history since answer = true)
    (h : call.reconciled config error answer = .ok (some (.roster observed))) :
    P observed ∧ observed.roster.holder = config.invocationId ∧ Issued write observed.roster := by
  unfold Call.reconciled at h
  split at h
  · cases h
  · cases h
  · cases h
  · rename_i own hown
    split_ifs at h with hsame
    · have hP := hsources.readRoster hanswer hown
      have hroster := hsources.revision write call.roster own hissued hP hsame.1
      rw [← Decoded.roster.inj (Option.some.inj (Except.ok.inj h))]
      refine ⟨hP, hsame.2, ?_⟩
      rw [hroster]
      exact hissued
    · cases h

end Sources

theorem Turns.custody (hturn : Turns history process move turn)
    (hsources : Sources history process.worker.config P Issued)
    (hworker : process.worker.Remembers P) (hphase : process.phase.Sound P Issued)
    (hnotes : Worker.Notes Issued turn) : Worker.Kept P Issued process.worker turn := by
  cases hturn with
  | startup hanswer => exact hworker.prepared (fun _ => hsources.readRoster hanswer) hnotes
  | election hanswer => exact hworker.elect (fun _ => hsources.readRoster hanswer) hnotes
  | pass hanswer => exact hworker.reserve (fun _ => hsources.readRoster hanswer) hnotes
  | reconciled hreplacing hanswer =>
    rw [hreplacing] at hphase
    exact hworker.settle fun _ => hsources.reconciled hphase hanswer
  | uncertain hreplacing =>
    rw [hreplacing] at hphase
    exact hworker.goTo hphase
  | written hreplacing hack hresult =>
    rw [hreplacing] at hphase
    apply hworker.settle
    rintro own rfl
    exact hsources.written hphase hack hresult
  | expired hexpire => exact hworker.expire hexpire
  | wake => exact hworker.loop
  | notice => exact ⟨Worker.consumeCache_config _, hworker.consumeCache _, trivial⟩
  | slept | stop | die => exact hworker.goTo trivial
  | proceed => exact hworker.proceed _
  | censused => exact hworker.publication hnotes
  | reschedule => exact hworker.reschedule
  | release => exact hworker.release hnotes

end Process

end Dial9.Sampling
