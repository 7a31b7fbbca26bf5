/-
# What a bump and a drain hand over

The drain law follows the events of calls that had returned before a bump. An
epoch stamped after the bump witnesses that they were handed over, and a drain
started after it passes over no buffer that still has them, unless the buffer
is poisoned or its last reference is gone.
-/

import Dial9.Core.EpochDrain

namespace Dial9.Core.Buffers

open Dial9.Lib

variable {T D E : Type} [DecidableEq T] [DecidableEq D]

/-- The epoch a drain works for. -/
def DrainPhase.epoch? : DrainPhase T → Option Nat
  | .idle => none
  | .loaded epoch | .visiting epoch _ | .upgrading epoch _ _ | .locking epoch _ _
  | .stamping epoch _ _ | .releasing epoch _ _ | .dropping epoch _ _ => some epoch

/-- In a call that is not the thread's first. -/
def Phase.Again : Phase → Prop
  | .encoded first | .loaded first _ | .flushed first _ | .leaving first => first = false
  | _ => False

/-! ## The epoch and the registered handles -/

/-- What a step does to the epoch and the handles. -/
structure Registry (a : Action T D E) (s next : State T D E) : Prop where
  epoch : s.epoch ≤ next.epoch
  kept : ∀ t ∈ s.handles, t ∈ next.handles ∨ (s.threads t).strongCount = 0
  registered : ∀ t, a = .register t → t ∈ next.handles

section Step

variable {bytesWritten : List E → Nat} {batchSize : Nat} {s next : State T D E}
  {a : Action T D E}

omit [DecidableEq T] [DecidableEq D] in
theorem registry_of_same (hepoch : next.epoch = s.epoch) (hhandles : next.handles = s.handles)
    (haction : ∀ t, a ≠ .register t) : Registry a s next :=
  ⟨hepoch.ge, fun _ h => .inl (hhandles ▸ h), fun t h => absurd h (haction t)⟩

omit [DecidableEq D] in
theorem registry_flushPending (s : State T D E) (t : T) :
    (s.flushPending t).epoch = s.epoch ∧ (s.flushPending t).handles = s.handles := by
  unfold State.flushPending
  split <;> exact ⟨rfl, rfl⟩

omit [DecidableEq D] in
theorem registry_dropThread (s : State T D E) (t : T) :
    (s.dropThread t).epoch = s.epoch ∧ (s.dropThread t).handles = s.handles := by
  have hflush := registry_flushPending s t
  unfold State.dropThread
  split
  · exact hflush
  · exact ⟨rfl, rfl⟩

theorem step_registry (h : s.step bytesWritten batchSize a = some next) : Registry a s next := by
  cases a with
  | register t =>
    rcases Option.ite_none_right_eq_some.mp h with ⟨-, ⟨⟩⟩
    constructor
    · exact le_rfl
    · exact fun _ hmem => .inl (List.mem_append_left _ hmem)
    · intro u hu
      cases hu
      exact List.mem_append_right _ (List.mem_singleton.mpr rfl)
  | bump =>
    cases h
    exact ⟨Nat.le_succ _, fun _ hmem => .inl hmem, fun _ => by simp⟩
  | prune d =>
    simp only [State.step] at h
    split at h
    · cases h
      refine ⟨le_rfl, fun t hmem => ?_, fun _ => by simp⟩
      by_cases hstrong : (s.threads t).strongCount = 0
      · exact .inr hstrong
      · exact .inl (List.mem_filter.mpr ⟨hmem, by simpa using Nat.pos_of_ne_zero hstrong⟩)
    · simp at h
  | drop t =>
    rcases Option.ite_none_right_eq_some.mp h with ⟨-, ⟨⟩⟩
    exact registry_of_same (registry_dropThread s t).1 (registry_dropThread s t).2 (by simp)
  | dropBuffer d =>
    simp only [State.step] at h
    split at h
    · next epoch t rest hphase =>
        cases h
        exact registry_of_same (registry_dropThread s t).1 (registry_dropThread s t).2 (by simp)
    · simp at h
  | selfDrain t =>
    rcases Option.ite_none_right_eq_some.mp h with ⟨-, hnext⟩
    split at hnext <;> cases hnext
    · exact registry_of_same rfl rfl (by simp)
    · exact registry_of_same (registry_flushPending s t).1 (registry_flushPending s t).2 (by simp)
  | lockBuffer d =>
    simp only [State.step] at h
    split at h
    · next epoch t rest hphase =>
        rcases Option.ite_none_right_eq_some.mp h with ⟨-, hnext⟩
        split at hnext <;> cases hnext
        · exact registry_of_same rfl rfl (by simp)
        · have hflush := registry_flushPending s t
          exact registry_of_same hflush.1 hflush.2 (by simp)
    · simp at h
  | _ =>
    simp only [State.step] at h
    repeat' split at h
    all_goals first
      | (cases h; exact registry_of_same rfl rfl (by simp))
      | simp at h

end Step

/-- No epoch in use is ahead of the current one. -/
structure Dated (s : State T D E) : Prop where
  stamped : ∀ t, (s.threads t).flushEpoch ≤ s.epoch
  loaded : ∀ t first epoch, (s.threads t).phase = .loaded first epoch → epoch ≤ s.epoch
  flushed : ∀ t first epoch, (s.threads t).phase = .flushed first epoch → epoch ≤ s.epoch
  drains : ∀ d epoch, (s.drains d).epoch? = some epoch → epoch ≤ s.epoch

omit [DecidableEq T] [DecidableEq D] in
theorem Dated.start : Dated (.start : State T D E) := by
  constructor <;> simp [State.start, Thread.fresh, DrainPhase.epoch?]

/-- A thread that has returned from a call, or is past its first one, is
`listed`: its handle is registered, or its buffer is gone. -/
structure Enlisted (th : Thread D E) (listed : Prop) : Prop where
  idle : th.phase = .idle → th.collector = true → th.poisoned = false → listed
  again : th.phase.Again → listed
  returned : th.returned ≠ [] → listed

section Step

variable {bytesWritten : List E → Nat} {batchSize : Nat} {s next : State T D E}
  {a : Action T D E} {t : T} {th th' : Thread D E} {batch : List E}

omit [DecidableEq T] in
theorem ThreadStep.stamped (h : ThreadStep s a t th batch th') (hdated : Dated s)
    (hth : s.threads t = th) : th'.flushEpoch ≤ s.epoch := by
  have hstamped := hdated.stamped t
  rw [hth] at hstamped
  cases h with
  | stamp hphase => exact hdated.flushed t _ _ (hth ▸ hphase)
  | stampBuffer hlock haction hdrain =>
    apply hdated.drains
    rw [hdrain, DrainPhase.epoch?]
  | _ => exact hstamped

omit [DecidableEq T] in
/-- An epoch that a call has loaded is the current one, or was in use before. -/
theorem ThreadStep.inUse {first : Bool} {epoch : Nat} (h : ThreadStep s a t th batch th')
    (hdated : Dated s) (hth : s.threads t = th)
    (hphase' : th'.phase = .loaded first epoch ∨ th'.phase = .flushed first epoch) :
    epoch ≤ s.epoch := by
  have hused : th.phase = .loaded first epoch ∨ th.phase = .flushed first epoch →
      epoch ≤ s.epoch := by
    subst hth
    exact fun hphase => hphase.elim (hdated.loaded t first epoch) (hdated.flushed t first epoch)
  cases h with
  | loadEpoch hphase =>
    rcases hphase' with ⟨⟨⟩⟩ | ⟨⟨⟩⟩
    exact le_rfl
  | flush hphase =>
    rcases hphase' with ⟨⟨⟩⟩ | ⟨⟨⟩⟩
    exact hused (.inl hphase)
  | record written panics => cases panics <;> simp [Thread.encode] at hphase'
  | unlock hphase => simp [Thread.unlock] at hphase'; split at hphase' <;> simp at hphase'
  | exit hphase => simp [Thread.exit] at hphase'; split at hphase' <;> simp at hphase'
  | keep | stamp | register | drop => simp at hphase'
  | _ => exact hused hphase'

omit [DecidableEq T] [DecidableEq D] in
theorem DrainStep.epoch? {d : D} {phase phase' : DrainPhase T} {epoch : Nat}
    (h : DrainStep a s next d phase phase') (hepoch : phase'.epoch? = some epoch) :
    phase.epoch? = some epoch ∨ epoch = s.epoch := by
  cases h with
  | start => exact .inr (Option.some.inj hepoch).symm
  | prune => cases hepoch
  | _ => exact .inl hepoch

theorem Dated.step (h : Dated s) (hsound : Sound s)
    (hstep : s.step bytesWritten batchSize a = some next) : Dated next := by
  have hepoch := (step_registry hstep).epoch
  have hmoves := step_moves hsound.locks hstep
  constructor
  · intro t
    rcases hmoves t with ⟨batch, hthread, -⟩
    exact (hthread.stamped h rfl).trans hepoch
  · intro t first epoch hphase
    rcases hmoves t with ⟨batch, hthread, -⟩
    exact (hthread.inUse h rfl (.inl hphase)).trans hepoch
  · intro t first epoch hphase
    rcases hmoves t with ⟨batch, hthread, -⟩
    exact (hthread.inUse h rfl (.inr hphase)).trans hepoch
  · intro d epoch hphase
    rcases (step_drains hstep d).epoch? hphase with hsame | rfl
    · exact (h.drains d epoch hsame).trans hepoch
    · exact hepoch

section

omit [DecidableEq T]

/-- A thread stays enlisted: a call that is not its first found the collector
stored, and a first call returns once its handle is registered. -/
theorem Enlisted.step {listed listed' : Prop} (h : Enlisted th listed)
    (hstep : ThreadStep s a t th batch th') (hkept : listed → listed')
    (hregister : a = .register t → listed') : Enlisted th' listed' := by
  have hreturned : th.returned ≠ [] → listed' := fun hne => hkept (h.returned hne)
  have hagain : th.phase.Again → listed' := fun hphase => hkept (h.again hphase)
  have hidle : th.phase = .idle → th.collector = true → th.poisoned = false → listed' :=
    fun hphase hcollector hpoisoned => hkept (h.idle hphase hcollector hpoisoned)
  cases hstep with
  | record written panics hphase hlock hpoisoned =>
    refine ⟨fun hnext _ hclean => ?_, fun hnext => ?_, hreturned⟩
    · simp only [Thread.encode] at hnext hclean
      simp [hclean] at hnext
    · cases panics with
      | true => simp [Thread.encode, Phase.Again] at hnext
      | false => exact hidle hphase (by simpa [Thread.encode, Phase.Again] using hnext) hpoisoned
  | loadEpoch hphase | flush hphase | keep hphase | stamp hphase =>
    refine ⟨by simp, fun hnext => hagain ?_, hreturned⟩
    rw [hphase]
    exact hnext
  | unlock hphase =>
    rename_i first
    cases first with
    | true => exact ⟨by simp [Thread.unlock], by simp [Thread.unlock, Phase.Again], hreturned⟩
    | false =>
      have hlisted : listed' := hagain (hphase ▸ rfl)
      exact ⟨fun _ _ _ => hlisted, fun _ => hlisted, fun _ => hlisted⟩
  | register hphase haction =>
    have hlisted := hregister haction
    exact ⟨fun _ _ _ => hlisted, fun _ => hlisted, fun _ => hlisted⟩
  | exit hphase =>
    refine ⟨fun hnext => ?_, fun hnext => ?_, hreturned⟩
    · simp only [Thread.exit] at hnext
      split at hnext <;> cases hnext
    · simp only [Thread.exit] at hnext
      split at hnext <;> exact hnext.elim
  | drop hphase => exact ⟨by simp, fun hnext => hnext.elim, hreturned⟩
  | _ => exact ⟨hidle, hagain, hreturned⟩

theorem ThreadStep.strongCount (h : ThreadStep s a t th batch th')
    (hdead : th.strongCount = 0) : th'.strongCount = 0 := by
  cases h with
  | exit hphase => simp_all [Thread.strongCount, Thread.exit]
  | upgrade d hstrong => exact absurd hdead hstrong
  | release d => simp_all [Thread.strongCount, Thread.release]
  | _ => exact hdead

theorem ThreadStep.poisoned (h : ThreadStep s a t th batch th')
    (hpoisoned : th.poisoned = true) : th'.poisoned = true := by
  cases h with
  | record written panics hphase hlock hclean => simp [hpoisoned] at hclean
  | _ => exact hpoisoned

end

end Step

/-- The thread's handle is registered, or nothing refers to its buffer. -/
def Listed (s : State T D E) (t : T) : Prop :=
  t ∈ s.handles ∨ (s.threads t).strongCount = 0

/-- What holds in every reachable state. -/
structure Reached (s : State T D E) : Prop where
  sound : Sound s
  dated : Dated s
  enlisted : ∀ t, Enlisted (s.threads t) (Listed s t)

omit [DecidableEq D] in
theorem Reached.start : Reached (.start : State T D E) := by
  refine ⟨.start, .start, fun t => ?_⟩
  constructor <;> simp [State.start, Thread.fresh, Phase.Again]

/-! ## The mark of a bump -/

/-- The marked events were handed over, or they are out of the drain's reach. -/
def Covered (mark : T → List E) (s : State T D E) (t : T) : Prop :=
  mark t <+: s.handedOf t ∨ (s.threads t).poisoned = true ∨ (s.threads t).strongCount = 0

/-- The buffers the drain has yet to flush. -/
def DrainPhase.pending : DrainPhase T → List T
  | .idle | .loaded _ => []
  | .visiting _ rest | .stamping _ _ rest | .releasing _ _ rest | .dropping _ _ rest => rest
  | .upgrading _ t rest | .locking _ t rest => t :: rest

/-- A drain whose epoch was loaded after the bump that began epoch `bumped`. -/
structure Covers (bumped : Nat) (mark : T → List E) (s : State T D E) (phase : DrainPhase T) :
    Prop where
  epoch : ∀ epoch, phase.epoch? = some epoch → bumped ≤ epoch
  passed : (∀ epoch, phase ≠ .loaded epoch) → ∀ t, t ∈ phase.pending ∨ Covered mark s t

/-- The events `mark` were recorded before the bump that began epoch `bumped`. -/
structure Marked (bumped : Nat) (mark : T → List E) (s : State T D E) : Prop where
  epoch : bumped ≤ s.epoch
  recorded : ∀ t, mark t <+: (s.threads t).recorded
  listed : ∀ t, mark t ≠ [] → Listed s t
  stamped : ∀ t, bumped ≤ (s.threads t).flushEpoch → mark t <+: s.handedOf t

section Step

variable {bytesWritten : List E → Nat} {batchSize : Nat} {s next : State T D E}
  {a : Action T D E} {t : T} {bumped : Nat} {mark : T → List E}

theorem Listed.step (h : Listed s t) (hlocks : Locks s)
    (hstep : s.step bytesWritten batchSize a = some next) : Listed next t := by
  rcases step_moves hlocks hstep t with ⟨batch, hthread, -⟩
  have hgone : (s.threads t).strongCount = 0 → Listed next t :=
    fun hdead => .inr (hthread.strongCount hdead)
  rcases h with hmem | hdead
  · rcases (step_registry hstep).kept t hmem with hmem' | hdead
    · exact .inl hmem'
    · exact hgone hdead
  · exact hgone hdead

theorem Reached.step (h : Reached s) (hstep : s.step bytesWritten batchSize a = some next) :
    Reached next := by
  refine ⟨h.sound.step hstep, h.dated.step h.sound hstep, fun t => ?_⟩
  rcases step_moves h.sound.locks hstep t with ⟨batch, hthread, -⟩
  apply (h.enlisted t).step hthread
  · exact fun hlisted => hlisted.step h.sound.locks hstep
  · exact fun haction => .inl ((step_registry hstep).registered t haction)

theorem Covered.step (h : Covered mark s t) (hlocks : Locks s)
    (hstep : s.step bytesWritten batchSize a = some next) : Covered mark next t := by
  rcases step_moves hlocks hstep t with ⟨batch, hthread, hhanded⟩
  rcases h with hmark | hpoisoned | hdead
  · left
    rw [hhanded]
    exact hmark.trans (List.prefix_append _ _)
  · exact .inr (.inl (hthread.poisoned hpoisoned))
  · exact .inr (.inr (hthread.strongCount hdead))

omit [DecidableEq T] in
theorem ThreadStep.recorded {th th' : Thread D E} {batch : List E}
    (h : ThreadStep s a t th batch th') : th.recorded <+: th'.recorded := by
  cases h with
  | record written panics => exact List.prefix_append _ _
  | _ => exact List.prefix_rfl

omit [DecidableEq T] in
theorem ThreadStep.restamped {th th' : Thread D E} {handed batch : List E}
    (h : ThreadStep s a t th batch th') (haccounted : Accounted th handed) :
    th'.flushEpoch = th.flushEpoch ∨ th.events = [] := by
  cases h with
  | stamp hphase => exact .inr (haccounted.flushed _ _ hphase)
  | stampBuffer hlock haction hdrain => exact .inr (haccounted.drained _ hlock)
  | _ => exact .inl rfl

omit [DecidableEq D] in
theorem Marked.handed_of_empty (h : Marked bumped mark s) (hsound : Sound s)
    (hempty : (s.threads t).events = []) : mark t <+: s.handedOf t := by
  have hsplit := (hsound.accounted t).split
  rw [hempty, List.append_nil] at hsplit
  exact hsplit ▸ h.recorded t

theorem Marked.step (h : Marked bumped mark s) (hsound : Sound s)
    (hstep : s.step bytesWritten batchSize a = some next) : Marked bumped mark next := by
  have hmoves := step_moves hsound.locks hstep
  constructor
  · exact h.epoch.trans (step_registry hstep).epoch
  · intro t
    rcases hmoves t with ⟨batch, hthread, -⟩
    exact (h.recorded t).trans hthread.recorded
  · exact fun t hne => (h.listed t hne).step hsound.locks hstep
  · intro t hstamped
    rcases hmoves t with ⟨batch, hthread, hhanded⟩
    rw [hhanded]
    apply List.IsPrefix.trans _ (List.prefix_append _ _)
    rcases hthread.restamped (hsound.accounted t) with hsame | hempty
    · exact h.stamped t (hsame ▸ hstamped)
    · exact h.handed_of_empty hsound hempty

omit [DecidableEq D] in
theorem Covered.leave {u : T} {rest : List T} (h : Covered mark s u)
    (hpassed : t ∈ u :: rest ∨ Covered mark s t) : t ∈ rest ∨ Covered mark s t := by
  rcases hpassed with hmem | hcovered
  · rcases List.mem_cons.mp hmem with rfl | hrest
    · exact .inr h
    · exact .inl hrest
  · exact .inr hcovered

theorem Covers.step {d : D} (h : Covers bumped mark s (s.drains d)) (hmarked : Marked bumped mark s)
    (hsound : Sound s) (hstep : s.step bytesWritten batchSize a = some next) :
    Covers bumped mark next (next.drains d) := by
  have hkept : ∀ t, Covered mark s t → Covered mark next t :=
    fun t hcovered => hcovered.step hsound.locks hstep
  have hdrain := step_drains hstep d
  constructor
  · intro epoch hphase
    rcases hdrain.epoch? hphase with hsame | rfl
    · exact h.epoch epoch hsame
    · exact hmarked.epoch
  · intro hstarted t
    have hpassed := h.passed
    have hepoch := h.epoch
    generalize s.drains d = phase at hdrain hpassed hepoch
    generalize next.drains d = phase' at hdrain hstarted
    cases hdrain with
    | stay => exact (hpassed hstarted t).imp_right (hkept t)
    | start => exact absurd rfl (hstarted s.epoch)
    | snapshot epoch =>
      by_cases hnil : mark t = []
      · exact .inr (.inl (hnil ▸ List.nil_prefix))
      · rcases hmarked.listed t hnil with hmem | hdead
        · exact .inl hmem
        · exact .inr (hkept t (.inr (.inr hdead)))
    | skip hskipped =>
      have hcovered : Covered mark s _ :=
        .inl (hmarked.stamped _ ((hepoch _ rfl).trans hskipped))
      exact (hcovered.leave (hpassed (by simp) t)).imp_right (hkept t)
    | take _ _ _ | hold _ _ _ => exact (hpassed (by simp) t).imp_right (hkept t)
    | gone hdead =>
      have hcovered : Covered mark s _ := .inr (.inr hdead)
      exact (hcovered.leave (hpassed (by simp) t)).imp_right (hkept t)
    | refuse hpoisoned =>
      have hcovered : Covered mark s _ := .inr (.inl hpoisoned)
      exact (hcovered.leave (hpassed (by simp) t)).imp_right (hkept t)
    | flush hlock hempty =>
      have hcovered : Covered mark next _ :=
        .inl ((hmarked.step hsound hstep).handed_of_empty (hsound.step hstep) hempty)
      exact hcovered.leave ((hpassed (by simp) t).imp_right (hkept t))
    | stamp | release | last | drop | prune => exact (hpassed (by simp) t).imp_right (hkept t)

end Step

/-! ## Runs -/

section Run

variable {bytesWritten : List E → Nat} {batchSize : Nat} {s next last : State T D E}
  {bumped : Nat} {mark : T → List E} {events : List (Action T D E)}

theorem Reached.run (h : Reached s)
    (hrun : run (State.step bytesWritten batchSize) s events = some last) : Reached last := by
  apply run_invariant _ h (along_true _ _) hrun
  exact fun _ _ _ hs _ hstep => hs.step hstep

theorem Marked.run (h : Marked bumped mark s) (hreached : Reached s)
    (hrun : Lib.run (State.step bytesWritten batchSize) s events = some last) :
    Marked bumped mark last := by
  have hboth : Reached last ∧ Marked bumped mark last := by
    apply run_invariant _ ⟨hreached, h⟩ (along_true _ _) hrun
    exact fun _ _ _ hs _ hstep => ⟨hs.1.step hstep, hs.2.step hs.1.sound hstep⟩
  exact hboth.2

theorem Covers.run {d : D} (h : Covers bumped mark s (s.drains d))
    (hmarked : Marked bumped mark s) (hreached : Reached s)
    (hrun : Lib.run (State.step bytesWritten batchSize) s events = some last) :
    Covers bumped mark last (last.drains d) := by
  have hall : Reached last ∧ Marked bumped mark last ∧
      Covers bumped mark last (last.drains d) := by
    apply run_invariant _ ⟨hreached, hmarked, h⟩ (along_true _ _) hrun
    intro before a next hs _ hstep
    have hsound := hs.1.sound
    exact ⟨hs.1.step hstep, hs.2.1.step hsound hstep, hs.2.2.step hs.2.1 hsound hstep⟩
  exact hall.2.2

theorem Reached.bump (h : Reached s) (hstep : s.step bytesWritten batchSize .bump = some next) :
    Marked (s.epoch + 1) (fun t => (s.threads t).returned) next := by
  cases hstep
  constructor
  · exact le_rfl
  · exact fun t => (h.sound.accounted t).returned
  · exact fun t hne => (h.enlisted t).returned hne
  · intro t hstamped
    have hold := h.dated.stamped t
    exact absurd (hstamped.trans hold) (Nat.not_succ_le_self _)

theorem Marked.startDrain {d : D} (h : Marked bumped mark s)
    (hstep : s.step bytesWritten batchSize (.startDrain d) = some next) :
    Covers bumped mark next (next.drains d) := by
  rcases Option.ite_none_right_eq_some.mp hstep with ⟨-, ⟨⟩⟩
  have hphase : (s.setDrain d (.loaded s.epoch)).drains d = .loaded s.epoch := by
    simp [State.setDrain]
  rw [hphase]
  constructor
  · intro epoch hepoch
    cases hepoch
    exact h.epoch
  · exact fun hstarted => absurd rfl (hstarted s.epoch)

/-- A bump of the epoch and, after it, a whole drain by `d`, among steps of all parties. -/
def BumpThenDrain (bytesWritten : List E → Nat) (batchSize : Nat) (s : State T D E) (d : D)
    (last : State T D E) : Prop :=
  ∃ between during bumped started drained,
    run (State.step bytesWritten batchSize) s (.bump :: between) = some bumped ∧
    bumped.step bytesWritten batchSize (.startDrain d) = some started ∧
    run (State.step bytesWritten batchSize) started during = some drained ∧
    drained.step bytesWritten batchSize (.prune d) = some last

theorem BumpThenDrain.covered {d : D} (h : BumpThenDrain bytesWritten batchSize s d last)
    (hreached : Reached s) (t : T) :
    Reached last ∧ (s.threads t).returned <+: (last.threads t).recorded ∧
      Covered (fun t => (s.threads t).returned) last t := by
  rcases h with ⟨between, during, bumped, started, drained, hbump, hstart, hduring, hprune⟩
  rcases run_cons hbump with ⟨next, hnext, hbetween⟩
  have hmarked := (hreached.bump hnext).run (hreached.step hnext) hbetween
  have hbumped := (hreached.step hnext).run hbetween
  have hstarted := hbumped.step hstart
  have hcovers := (hmarked.startDrain hstart).run (hmarked.step hbumped.sound hstart) hstarted
    hduring
  have hdrained := hstarted.run hduring
  have hmarked' := (hmarked.step hbumped.sound hstart).run hstarted hduring
  have hlast := hcovers.step hmarked' hdrained.sound hprune
  refine ⟨hdrained.step hprune, (hmarked'.step hdrained.sound hprune).recorded t, ?_⟩
  have hidle : last.drains d = .idle := by
    simp only [State.step] at hprune
    split at hprune
    · cases hprune
      simp [State.setDrain]
    · simp at hprune
  rw [hidle] at hlast
  exact (hlast.passed (by simp) t).resolve_left (by simp [DrainPhase.pending])

/-- Every recorded event was handed over once, in order, or is still in its
thread's buffer. After a bump and a drain, what was recorded in calls returned
before the bump was handed over, unless the buffer is poisoned, or its last
reference is gone and its destructor is yet to hand the events over. -/
theorem drain_accounts (bytesWritten : List E → Nat) (batchSize : Nat)
    (events : List (Action T D E)) (s : State T D E)
    (hrun : run (State.step bytesWritten batchSize) .start events = some s) :
    (∀ t, (s.threads t).recorded = s.handedOf t ++ (s.threads t).events) ∧
    ∀ d last, BumpThenDrain bytesWritten batchSize s d last →
      ∀ t, (s.threads t).returned <+: last.handedOf t ∨ (last.threads t).poisoned = true ∨
        (last.threads t).strongCount = 0 ∧ (last.threads t).dying = true := by
  have hreached : Reached s := Reached.start.run hrun
  refine ⟨fun t => (hreached.sound.accounted t).split, fun d last hdrain t => ?_⟩
  rcases hdrain.covered hreached t with ⟨hlast, hrecorded, hhanded | hpoisoned | hdead⟩
  · exact .inl hhanded
  · exact .inr (.inl hpoisoned)
  · cases hdying : (last.threads t).dying with
    | true => exact .inr (.inr ⟨hdead, rfl⟩)
    | false =>
      -- The destructor has run, or found nothing.
      have hsplit := (hlast.sound.accounted t).split
      rw [(hlast.sound.accounted t).dead hdead hdying, List.append_nil] at hsplit
      exact .inl (hsplit ▸ hrecorded)

end Run

/-- One call of the only thread, from the lock to its return. -/
def oneCall : List (Action Unit Unit Nat) :=
  [.record () [7] false, .loadEpoch (), .check (), .unlock (), .register ()]

/-- The state the run ends in, `start` where a step of it is not enabled. -/
def after (events : List (Action Unit Unit Nat)) : State Unit Unit Nat :=
  (run (State.step List.length 2) .start events).getD .start

/-- A bump and a drain that finds the buffer. -/
def wholeDrain : List (Action Unit Unit Nat) :=
  [.bump, .startDrain (), .snapshot (), .visit (), .upgrade (), .lockBuffer (), .stampBuffer (),
    .release (), .prune ()]

theorem drain_accounts_oneCall :
    (∀ t, ((after oneCall).threads t).recorded =
      (after oneCall).handedOf t ++ ((after oneCall).threads t).events) ∧
    ∀ t, ((after oneCall).threads t).returned <+: (after (oneCall ++ wholeDrain)).handedOf t ∨
      ((after (oneCall ++ wholeDrain)).threads t).poisoned = true ∨
      ((after (oneCall ++ wholeDrain)).threads t).strongCount = 0 ∧
        ((after (oneCall ++ wholeDrain)).threads t).dying = true := by
  have hdrain : BumpThenDrain List.length 2 (after oneCall) () (after (oneCall ++ wholeDrain)) :=
    ⟨[], [.snapshot (), .visit (), .upgrade (), .lockBuffer (), .stampBuffer (), .release ()],
      _, _, _, rfl, rfl, rfl, rfl⟩
  have haccounts := drain_accounts List.length 2 oneCall (after oneCall) rfl
  exact ⟨haccounts.1, haccounts.2 () _ hdrain⟩

/-- The thread drops its buffer's last reference before the drain, and its
destructor has not run when the drain is done. -/
theorem drain_passes_dying :
    ¬ ∀ (events : List (Action Unit Unit Nat)) (s : State Unit Unit Nat),
      run (State.step List.length 2) .start events = some s →
      ∀ d last, BumpThenDrain List.length 2 s d last →
        ∀ t, (s.threads t).returned <+: last.handedOf t := by
  intro h
  have hdrain : BumpThenDrain List.length 2 (after oneCall) ()
      (after (oneCall ++ [.bump, .exit (), .startDrain (), .snapshot (), .visit (), .upgrade (),
        .prune ()])) :=
    ⟨[.exit ()], [.snapshot (), .visit (), .upgrade ()], _, _, _, rfl, rfl, rfl, rfl⟩
  have hlost := h oneCall (after oneCall) rfl () _ hdrain ()
  revert hlost
  decide

end Dial9.Core.Buffers
