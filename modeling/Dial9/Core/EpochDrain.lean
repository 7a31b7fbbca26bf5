/-
# Nothing recorded is lost or handed over twice

What a step can do to one thread is said once, as a relation between the thread
before and after and the events handed over, and what it can do to one drain as
another. Every invariant is kept by these relations, so it holds in every state
of a run: a thread's recorded events are those handed over, in order, followed
by those in its buffer.
-/

import Dial9.Core.ThreadBuffers
import Dial9.Lib.Run

namespace Dial9.Core.Buffers

open Dial9.Lib

variable {T D E : Type} [DecidableEq T] [DecidableEq D]

/-! ## What a step does to a thread -/

/-- A step of any party, seen from one thread: the events handed over from its
buffer and the thread after it. -/
inductive ThreadStep (s : State T D E) (a : Action T D E) (t : T) :
    Thread D E → List E → Thread D E → Prop
  | stay (th) : ThreadStep s a t th [] th
  | record {th} (written : List E) (panics : Bool) (hphase : th.phase = .idle)
      (hlock : th.lock = none) (hpoisoned : th.poisoned = false) :
      ThreadStep s a t th [] (th.encode written panics)
  | loadEpoch {th first} (hphase : th.phase = .encoded first) :
      ThreadStep s a t th [] { th with phase := .loaded first s.epoch }
  | flush {th first epoch} (hphase : th.phase = .loaded first epoch) :
      ThreadStep s a t th th.events { th with events := [], phase := .flushed first epoch }
  | keep {th first epoch} (hphase : th.phase = .loaded first epoch) :
      ThreadStep s a t th [] { th with phase := .leaving first }
  | stamp {th first epoch} (hphase : th.phase = .flushed first epoch) :
      ThreadStep s a t th [] { th with flushEpoch := epoch, phase := .leaving first }
  | unlock {th first} (hphase : th.phase = .leaving first) :
      ThreadStep s a t th [] (th.unlock first)
  | register {th} (hphase : th.phase = .registering) (haction : a = .register t) :
      ThreadStep s a t th [] { th with phase := .idle, returned := th.recorded }
  | selfDrain {th} (hphase : th.phase = .idle) (hlock : th.lock = none) :
      ThreadStep s a t th th.events { th with events := [] }
  | exit {th} (hphase : th.phase = .idle) : ThreadStep s a t th [] th.exit
  | drop {th} (hphase : th.phase = .dropping) :
      ThreadStep s a t th (if th.collector then th.events else [])
        { th with events := [], dying := false, phase := .exited }
  | upgrade {th} (d : D) (hstrong : th.strongCount ≠ 0) :
      ThreadStep s a t th [] { th with upgraded := d :: th.upgraded }
  | lockBuffer {th} (d : D) (hlock : th.lock = none) :
      ThreadStep s a t th th.events { th with events := [], lock := some (.drain d) }
  | stampBuffer {th} {d : D} {epoch : Nat} {rest : List T} (hlock : th.lock = some (.drain d))
      (haction : a = .stampBuffer d) (hdrain : s.drains d = .stamping epoch t rest) :
      ThreadStep s a t th [] { th with flushEpoch := epoch, lock := none }
  | release {th} (d : D) : ThreadStep s a t th [] (th.release d)
  | dropBuffer {th} :
      ThreadStep s a t th (if th.collector then th.events else [])
        { th with events := [], dying := false }

/-- The step changes one thread, and hands over events of that thread. -/
structure Touches (s next : State T D E) (t : T) (batch : List E) : Prop where
  others : ∀ u, u ≠ t → next.threads u = s.threads u
  handed : ∀ u, next.handedOf u = s.handedOf u ++ if u = t then batch else []

namespace State

variable {s next : State T D E}

omit [DecidableEq D] in
@[simp]
theorem handedOf_setThread (s : State T D E) (t : T) (th : Thread D E) :
    (s.setThread t th).handedOf = s.handedOf := rfl

omit [DecidableEq T] in
@[simp]
theorem threads_setDrain (s : State T D E) (d : D) (phase : DrainPhase T) :
    (s.setDrain d phase).threads = s.threads := rfl

section

omit [DecidableEq D]

@[simp]
theorem setThread_self (s : State T D E) (t : T) (th : Thread D E) :
    (s.setThread t th).threads t = th := by
  simp [setThread]

theorem setThread_of_ne {t u : T} (th : Thread D E) (h : u ≠ t) :
    (s.setThread t th).threads u = s.threads u := by
  simp [setThread, h]

theorem handedOf_acceptFlush (s : State T D E) (t u : T) :
    (s.acceptFlush t).handedOf u =
      s.handedOf u ++ if u = t then (s.threads t).events else [] := by
  unfold handedOf acceptFlush
  rw [List.flatMap_append, List.flatMap_singleton]
  by_cases h : t = u
  · simp [h]
  · simp [h, Ne.symm h]

theorem flushPending_spec (s : State T D E) (t : T) :
    Touches s (s.flushPending t) t (s.threads t).events ∧
      (s.flushPending t).threads t = { s.threads t with events := [] } := by
  unfold flushPending
  split
  · next hnil =>
      refine ⟨⟨fun _ _ => rfl, fun u => by simp [hnil]⟩, ?_⟩
      rw [← hnil]
  · refine ⟨⟨fun u h => ?_, s.handedOf_acceptFlush t⟩, ?_⟩
    · simp [acceptFlush, h]
    · simp [acceptFlush]

theorem dropThread_spec (s : State T D E) (t : T) :
    Touches s (s.dropThread t) t (if (s.threads t).collector then (s.threads t).events else []) ∧
      (s.dropThread t).threads t = { s.threads t with events := [], dying := false } := by
  rcases s.flushPending_spec t with ⟨htouches, hthread⟩
  unfold dropThread
  by_cases hcollector : (s.threads t).collector = true
  · simp only [if_pos hcollector]
    refine ⟨⟨fun u h => ?_, htouches.handed⟩, ?_⟩
    · rw [setThread_of_ne _ h, htouches.others u h]
    · rw [setThread_self, hthread]
  · simp only [if_neg hcollector]
    refine ⟨⟨fun u h => ?_, fun u => by simp⟩, by simp⟩
    rw [setThread_of_ne _ h, setThread_of_ne _ h]

end

end State

/-- A drain at its stamp holds the mutex it took. -/
def Locks (s : State T D E) : Prop :=
  ∀ d epoch t rest, s.drains d = .stamping epoch t rest → (s.threads t).lock = some (.drain d)

variable {t : T}

section Step

variable {bytesWritten : List E → Nat} {batchSize : Nat} {s next : State T D E}
  {a : Action T D E}

/-- Each thread makes one of the listed steps. -/
def Moves (a : Action T D E) (s next : State T D E) : Prop :=
  ∀ t, ∃ batch, ThreadStep s a t (s.threads t) batch (next.threads t) ∧
    next.handedOf t = s.handedOf t ++ batch

variable {batch : List E}

theorem Touches.moves (h : Touches s next t batch)
    (hstep : ThreadStep s a t (s.threads t) batch (next.threads t)) : Moves a s next := by
  intro u
  by_cases hu : u = t
  · subst hu
    exact ⟨batch, hstep, by rw [h.handed, if_pos rfl]⟩
  · refine ⟨[], ?_, by rw [h.handed, if_neg hu]⟩
    rw [h.others u hu]
    exact .stay _

omit [DecidableEq D] in
theorem Touches.setThread (h : Touches s next t batch)
    (th : Thread D E) : Touches s (next.setThread t th) t batch :=
  ⟨fun u hu => (State.setThread_of_ne th hu).trans (h.others u hu), h.handed⟩

theorem Touches.setDrain (h : Touches s next t batch) (d : D)
    (phase : DrainPhase T) : Touches s (next.setDrain d phase) t batch :=
  ⟨h.others, h.handed⟩

theorem moves_of_same (hthreads : next.threads = s.threads) (hhanded : next.handed = s.handed) :
    Moves a s next := by
  intro u
  refine ⟨[], ?_, by simp [State.handedOf, hhanded]⟩
  rw [hthreads]
  exact .stay _

theorem moves_setThread {th : Thread D E} (h : ThreadStep s a t (s.threads t) [] th)
    (hthreads : next.threads = (s.setThread t th).threads) (hhanded : next.handed = s.handed) :
    Moves a s next := by
  apply Touches.moves (t := t) ⟨fun u hu => ?_, fun u => ?_⟩
  · rw [hthreads, State.setThread_self]
    exact h
  · rw [hthreads, State.setThread_of_ne th hu]
  · simp [State.handedOf, hhanded]

theorem step_moves (hlocks : Locks s)
    (h : s.step bytesWritten batchSize a = some next) : Moves a s next := by
  cases a with
  | record t written panics =>
    rcases Option.ite_none_right_eq_some.mp h with ⟨⟨hphase, hlock⟩, hnext⟩
    split at hnext
    · cases hnext
      exact moves_of_same rfl rfl
    · next hpoisoned =>
        cases hnext
        exact moves_setThread (.record written panics hphase hlock (by simpa using hpoisoned))
          rfl rfl
  | loadEpoch t =>
    simp only [State.step] at h
    split at h
    · next first hphase =>
        cases h
        exact moves_setThread (.loadEpoch hphase) rfl rfl
    · simp at h
  | check t =>
    simp only [State.step] at h
    split at h
    · next first epoch hphase =>
        split at h
        · cases h
          have htouches : Touches s _ t (s.threads t).events :=
            ⟨fun u hu => by simp [State.acceptFlush, hu], s.handedOf_acceptFlush t⟩
          apply (htouches.setThread _).moves
          rw [State.setThread_self]
          exact .flush hphase
        · cases h
          exact moves_setThread (.keep hphase) rfl rfl
    · simp at h
  | stamp t =>
    simp only [State.step] at h
    split at h
    · next first epoch hphase =>
        cases h
        exact moves_setThread (.stamp hphase) rfl rfl
    · simp at h
  | unlock t =>
    simp only [State.step] at h
    split at h
    · next first hphase =>
        cases h
        exact moves_setThread (.unlock hphase) rfl rfl
    · simp at h
  | register t =>
    rcases Option.ite_none_right_eq_some.mp h with ⟨hphase, ⟨⟩⟩
    exact moves_setThread (.register hphase rfl) rfl rfl
  | selfDrain t =>
    rcases Option.ite_none_right_eq_some.mp h with ⟨⟨hphase, hlock⟩, hnext⟩
    split at hnext
    · cases hnext
      exact moves_of_same rfl rfl
    · cases hnext
      rcases s.flushPending_spec t with ⟨htouches, hthread⟩
      exact htouches.moves (hthread ▸ .selfDrain hphase hlock)
  | exit t =>
    rcases Option.ite_none_right_eq_some.mp h with ⟨hphase, ⟨⟩⟩
    exact moves_setThread (.exit hphase) rfl rfl
  | drop t =>
    rcases Option.ite_none_right_eq_some.mp h with ⟨hphase, ⟨⟩⟩
    rcases s.dropThread_spec t with ⟨htouches, hthread⟩
    apply (htouches.setThread _).moves
    rw [State.setThread_self, hthread]
    exact .drop hphase
  | upgrade d =>
    simp only [State.step] at h
    split at h
    · split at h
      · cases h
        exact moves_of_same rfl rfl
      · next hstrong =>
          cases h
          exact moves_setThread (.upgrade d hstrong) rfl rfl
    · simp at h
  | lockBuffer d =>
    simp only [State.step] at h
    split at h
    · next epoch t rest hdrain =>
        rcases Option.ite_none_right_eq_some.mp h with ⟨hlock, hnext⟩
        split at hnext
        · cases hnext
          exact moves_of_same rfl rfl
        · cases hnext
          rcases s.flushPending_spec t with ⟨htouches, hthread⟩
          apply ((htouches.setThread _).setDrain _ _).moves
          rw [State.threads_setDrain, State.setThread_self, hthread]
          exact .lockBuffer d hlock
    · simp at h
  | stampBuffer d =>
    simp only [State.step] at h
    split at h
    · next epoch t rest hdrain =>
        cases h
        exact moves_setThread (.stampBuffer (hlocks d epoch t rest hdrain) rfl hdrain) rfl rfl
    · simp at h
  | release d =>
    simp only [State.step] at h
    split at h
    · cases h
      exact moves_setThread (.release d) rfl rfl
    · simp at h
  | dropBuffer d =>
    simp only [State.step] at h
    split at h
    · next epoch t rest hdrain =>
        cases h
        rcases s.dropThread_spec t with ⟨htouches, hthread⟩
        apply (htouches.setDrain _ _).moves
        rw [State.threads_setDrain, hthread]
        exact .dropBuffer
    · simp at h
  | _ =>
    -- The other actions are at no thread.
    simp only [State.step] at h
    repeat' split at h
    all_goals first
      | (cases h; exact moves_of_same rfl rfl)
      | simp at h

end Step

/-! ## What holds of one thread -/

/-- The thread is between taking the mutex and releasing it. -/
def Phase.Critical : Phase → Prop
  | .encoded _ | .loaded _ _ | .flushed _ _ | .leaving _ => True
  | _ => False

/-- A thread whose recorded events are accounted for: those handed over, in
order, and then those in the buffer. -/
structure Accounted (th : Thread D E) (handed : List E) : Prop where
  split : th.recorded = handed ++ th.events
  collector : th.events ≠ [] → th.collector = true
  owner : th.phase.Critical → th.lock = some .owner
  flushed : ∀ first epoch, th.phase = .flushed first epoch → th.events = []
  drained : ∀ d, th.lock = some (.drain d) → th.events = []
  alive : th.phase ≠ .dropping → th.phase ≠ .exited → th.owned = true
  dead : th.strongCount = 0 → th.dying = false → th.events = []
  returned : th.returned <+: th.recorded

namespace Accounted

variable {th th' : Thread D E} {handed batch : List E}

section

omit [DecidableEq D]

section

variable (h : Accounted th handed)
include h

theorem proceed (phase : Phase) (flushEpoch : Nat) (howner : phase.Critical → th.lock = some .owner)
    (hflushed : ∀ first epoch, phase = .flushed first epoch → th.events = [])
    (halive : phase ≠ .dropping → phase ≠ .exited → th.owned = true) :
    Accounted { th with flushEpoch := flushEpoch, phase := phase } (handed ++ []) where
  split := by
    rw [List.append_nil]
    exact h.split
  collector := h.collector
  owner := howner
  flushed := hflushed
  drained := h.drained
  alive := halive
  dead := h.dead
  returned := h.returned

theorem emptied (hbatch : batch = th.events) (hevents : th'.events = [])
    (hrecorded : th'.recorded = th.recorded) (hreturned : th'.returned = th.returned)
    (howner : th'.phase.Critical → th'.lock = some .owner)
    (halive : th'.phase ≠ .dropping → th'.phase ≠ .exited → th'.owned = true) :
    Accounted th' (handed ++ batch) where
  split := by rw [hrecorded, h.split, hbatch, hevents, List.append_nil]
  collector hne := absurd hevents hne
  owner := howner
  flushed _ _ _ := hevents
  drained _ _ := hevents
  alive := halive
  dead _ _ := hevents
  returned := by
    rw [hreturned, hrecorded]
    exact h.returned

theorem dropped_eq : (if th.collector then th.events else []) = th.events := by
  split
  · rfl
  · rename_i hnone
    by_contra hne
    exact hnone (h.collector fun hnil => hne hnil.symm)

theorem record (written : List E) (panics : Bool)
    (hphase : th.phase = .idle) : Accounted (th.encode written panics) (handed ++ []) := by
  have howned : th.owned = true := h.alive (by simp [hphase]) (by simp [hphase])
  have hstrong : (th.encode written panics).strongCount ≠ 0 := by
    simp [Thread.strongCount, Thread.encode, howned]
  constructor
  · simp [Thread.encode, h.split]
  · exact fun _ => rfl
  · cases panics <;> simp [Thread.encode, Phase.Critical]
  · cases panics <;> simp [Thread.encode]
  · cases panics <;> simp [Thread.encode]
  · exact fun _ _ => howned
  · exact fun hzero => absurd hzero hstrong
  · exact h.returned.trans (List.prefix_append _ _)

theorem unlock {first : Bool} (hphase : th.phase = .leaving first) :
    Accounted (th.unlock first) (handed ++ []) where
  split := by
    rw [List.append_nil]
    exact h.split
  collector := h.collector
  owner := by cases first <;> exact False.elim
  flushed := by cases first <;> exact nofun
  drained _ hlock := absurd hlock nofun
  alive _ _ := h.alive (by simp [hphase]) (by simp [hphase])
  dead := h.dead
  returned := by
    cases first with
    | false => exact List.prefix_rfl
    | true => exact h.returned

theorem exit : Accounted th.exit (handed ++ []) where
  split := by
    rw [List.append_nil]
    exact h.split
  collector := h.collector
  owner := by
    rw [Thread.exit]
    cases th.upgraded with
    | nil | cons => exact False.elim
  flushed := by
    rw [Thread.exit]
    cases th.upgraded with
    | nil | cons => exact nofun
  drained := h.drained
  alive hdropping hexited := by
    rw [Thread.exit] at hdropping hexited
    cases hupgraded : th.upgraded with
    | nil => exact absurd (by simp [hupgraded]) hdropping
    | cons => exact absurd (by simp [hupgraded]) hexited
  dead hzero hdying := by
    rw [Thread.strongCount, Thread.exit] at hzero
    rw [Thread.exit] at hdying
    cases hupgraded : th.upgraded with
    | nil => simp [hupgraded] at hdying
    | cons => simp [hupgraded] at hzero
  returned := h.returned

end

end

theorem release (h : Accounted th handed) (d : D) : Accounted (th.release d) (handed ++ []) := by
  have hdead : (th.release d).strongCount = 0 → (th.release d).dying = true := by
    cases howned : th.owned <;> simp [Thread.strongCount, Thread.release, howned]
  constructor
  · simpa [Thread.release] using h.split
  · exact h.collector
  · exact h.owner
  · exact h.flushed
  · exact h.drained
  · exact h.alive
  · intro hzero hdying
    rw [hdead hzero] at hdying
    exact absurd hdying (by decide)
  · exact h.returned

end Accounted

omit [DecidableEq T] in
theorem Accounted.step {s : State T D E} {a : Action T D E} {t : T} {th th' : Thread D E}
    {handed batch : List E} (h : Accounted th handed) (hstep : ThreadStep s a t th batch th') :
    Accounted th' (handed ++ batch) := by
  cases hstep with
  | stay =>
    rw [List.append_nil]
    exact h
  | record written panics hphase _ _ => exact h.record written panics hphase
  | loadEpoch hphase | keep hphase | stamp hphase =>
    exact h.proceed _ _ (fun _ => h.owner (by simp [hphase, Phase.Critical])) nofun
      fun _ _ => h.alive (by simp [hphase]) (by simp [hphase])
  | flush hphase =>
    exact h.emptied rfl rfl rfl rfl (fun _ => h.owner (by simp [hphase, Phase.Critical]))
      fun _ _ => h.alive (by simp [hphase]) (by simp [hphase])
  | unlock hphase => exact h.unlock hphase
  | register hphase _ =>
    exact {
      h.proceed .idle th.flushEpoch False.elim nofun fun _ _ =>
        h.alive (by simp [hphase]) (by simp [hphase]) with
      returned := List.prefix_rfl }
  | selfDrain _ _ => exact h.emptied rfl rfl rfl rfl h.owner h.alive
  | exit _ => exact h.exit
  | drop hphase =>
    exact h.emptied h.dropped_eq rfl rfl rfl False.elim fun _ hexited => absurd rfl hexited
  | upgrade d hstrong =>
    rw [List.append_nil]
    exact { h with dead := fun hzero => absurd hzero (by simp [Thread.strongCount]) }
  | lockBuffer d hlock =>
    refine h.emptied rfl rfl rfl rfl (fun hcritical => ?_) h.alive
    exact absurd (h.owner hcritical) (by simp [hlock])
  | stampBuffer hlock _ _ =>
    rw [List.append_nil]
    exact {
      h with
      owner := fun hcritical => absurd (h.owner hcritical) (by simp [hlock])
      drained := fun _ hnone => absurd hnone nofun }
  | release d => exact h.release d
  | dropBuffer => exact h.emptied h.dropped_eq rfl rfl rfl h.owner h.alive

/-! ## What a step does to a drain -/

/-- A step of any party, seen from one drain. -/
inductive DrainStep (a : Action T D E) (s next : State T D E) (d : D) :
    DrainPhase T → DrainPhase T → Prop
  | stay (phase) (haction : a ≠ .stampBuffer d) : DrainStep a s next d phase phase
  | start : DrainStep a s next d .idle (.loaded s.epoch)
  | snapshot (epoch) : DrainStep a s next d (.loaded epoch) (.visiting epoch s.handles)
  | skip {epoch t rest} (hstamped : epoch ≤ (s.threads t).flushEpoch) :
      DrainStep a s next d (.visiting epoch (t :: rest)) (.visiting epoch rest)
  | take (epoch t rest) :
      DrainStep a s next d (.visiting epoch (t :: rest)) (.upgrading epoch t rest)
  | gone {epoch t rest} (hdead : (s.threads t).strongCount = 0) :
      DrainStep a s next d (.upgrading epoch t rest) (.visiting epoch rest)
  | hold (epoch t rest) :
      DrainStep a s next d (.upgrading epoch t rest) (.locking epoch t rest)
  | refuse {epoch t rest} (hpoisoned : (s.threads t).poisoned = true) :
      DrainStep a s next d (.locking epoch t rest) (.releasing epoch t rest)
  | flush {epoch t rest} (hlock : (next.threads t).lock = some (.drain d))
      (hempty : (next.threads t).events = []) :
      DrainStep a s next d (.locking epoch t rest) (.stamping epoch t rest)
  | stamp (epoch t rest) :
      DrainStep a s next d (.stamping epoch t rest) (.releasing epoch t rest)
  | release (epoch t rest) :
      DrainStep a s next d (.releasing epoch t rest) (.visiting epoch rest)
  | last (epoch t rest) :
      DrainStep a s next d (.releasing epoch t rest) (.dropping epoch t rest)
  | drop (epoch t rest) :
      DrainStep a s next d (.dropping epoch t rest) (.visiting epoch rest)
  | prune (epoch) : DrainStep a s next d (.visiting epoch []) .idle

section Step

variable {bytesWritten : List E → Nat} {batchSize : Nat} {s next : State T D E}
  {a : Action T D E}

omit [DecidableEq T] [DecidableEq D] in
theorem drainStep_of_same (hdrains : next.drains = s.drains) (haction : ∀ d, a ≠ .stampBuffer d)
    (d : D) : DrainStep a s next d (s.drains d) (next.drains d) := by
  rw [hdrains]
  exact .stay _ (haction d)

omit [DecidableEq T] in
theorem drainStep_setDrain {d : D} {before phase : DrainPhase T} (hbefore : s.drains d = before)
    (h : DrainStep a s next d before phase)
    (hdrains : next.drains = Function.update s.drains d phase)
    (haction : ∀ d', d' ≠ d → a ≠ .stampBuffer d') (d' : D) :
    DrainStep a s next d' (s.drains d') (next.drains d') := by
  rw [hdrains]
  by_cases hd : d' = d
  · subst hd
    rwa [hbefore, Function.update_self]
  · rw [Function.update_of_ne hd]
    exact .stay _ (haction d' hd)

omit [DecidableEq D] in
theorem drains_flushPending (s : State T D E) (t : T) : (s.flushPending t).drains = s.drains := by
  unfold State.flushPending
  split <;> rfl

omit [DecidableEq D] in
theorem drains_dropThread (s : State T D E) (t : T) : (s.dropThread t).drains = s.drains := by
  have hflush := drains_flushPending s t
  unfold State.dropThread
  split
  · exact hflush
  · rfl

theorem step_drains (h : s.step bytesWritten batchSize a = some next) (d' : D) :
    DrainStep a s next d' (s.drains d') (next.drains d') := by
  cases a with
  | selfDrain t =>
    rcases Option.ite_none_right_eq_some.mp h with ⟨-, hnext⟩
    split at hnext
    · cases hnext
      exact drainStep_of_same (by rfl) (by simp) d'
    · cases hnext
      exact drainStep_of_same (drains_flushPending s t) (by simp) d'
  | drop t =>
    rcases Option.ite_none_right_eq_some.mp h with ⟨-, ⟨⟩⟩
    exact drainStep_of_same (by exact drains_dropThread s t) (by simp) d'
  | startDrain d =>
    rcases Option.ite_none_right_eq_some.mp h with ⟨hidle, ⟨⟩⟩
    exact drainStep_setDrain hidle .start (by rfl) (by simp) d'
  | snapshot d =>
    simp only [State.step] at h
    split at h
    · next epoch hphase =>
        cases h
        exact drainStep_setDrain hphase (.snapshot epoch) (by rfl) (by simp) d'
    · simp at h
  | visit d =>
    simp only [State.step] at h
    split at h
    · next epoch t rest hphase =>
        split at h
        · next hstamped =>
            cases h
            exact drainStep_setDrain hphase (.skip hstamped) (by rfl) (by simp) d'
        · cases h
          exact drainStep_setDrain hphase (.take epoch t rest) (by rfl) (by simp) d'
    · simp at h
  | upgrade d =>
    simp only [State.step] at h
    split at h
    · next epoch t rest hphase =>
        split at h
        · next hdead =>
            cases h
            exact drainStep_setDrain hphase (.gone hdead) (by rfl) (by simp) d'
        · cases h
          exact drainStep_setDrain hphase (.hold epoch t rest) (by rfl) (by simp) d'
    · simp at h
  | lockBuffer d =>
    simp only [State.step] at h
    split at h
    · next epoch t rest hphase =>
        rcases Option.ite_none_right_eq_some.mp h with ⟨hlock, hnext⟩
        split at hnext
        · next hpoisoned =>
            cases hnext
            exact drainStep_setDrain hphase (.refuse hpoisoned) (by rfl) (by simp) d'
        · cases hnext
          have hdrains := drains_flushPending s t
          have hthread := (s.flushPending_spec t).2
          refine drainStep_setDrain hphase (.flush ?_ ?_)
            (congrArg (Function.update · d (.stamping epoch t rest)) hdrains)
            (by simp) d'
          · rw [State.threads_setDrain, State.setThread_self]
          · rw [State.threads_setDrain, State.setThread_self, hthread]
    · simp at h
  | stampBuffer d =>
    simp only [State.step] at h
    split at h
    · next epoch t rest hphase =>
        cases h
        exact drainStep_setDrain hphase (.stamp epoch t rest) rfl
          (fun e he => by simpa using he.symm) d'
    · simp at h
  | release d =>
    simp only [State.step] at h
    split at h
    · next epoch t rest hphase =>
        cases h
        refine drainStep_setDrain hphase ?_ (by rfl) (by simp) d'
        split
        · exact .last epoch t rest
        · exact .release epoch t rest
    · simp at h
  | dropBuffer d =>
    simp only [State.step] at h
    split at h
    · next epoch t rest hphase =>
        cases h
        exact drainStep_setDrain hphase (.drop epoch t rest)
          (congrArg (Function.update · d (.visiting epoch rest)) (drains_dropThread s t))
          (by simp) d'
    · simp at h
  | prune d =>
    simp only [State.step] at h
    split at h
    · next epoch hphase =>
        cases h
        exact drainStep_setDrain hphase (.prune epoch) (by rfl) (by simp) d'
    · simp at h
  | _ =>
    -- No other action is a drain's.
    simp only [State.step] at h
    repeat' split at h
    all_goals first
      | (cases h; exact drainStep_of_same (by rfl) (by simp) d')
      | simp at h

end Step

/-! ## Locks and accounts along a run -/

omit [DecidableEq T] in
/-- The mutex of a buffer stays with the drain that holds it until the stamp. -/
theorem ThreadStep.lock_drain {s : State T D E} {a : Action T D E} {th th' : Thread D E}
    {handed batch : List E} {d : D} (h : Accounted th handed)
    (hstep : ThreadStep s a t th batch th')
    (hlock : th.lock = some (.drain d)) (haction : a ≠ .stampBuffer d) :
    th'.lock = some (.drain d) := by
  have howner : ¬ th.phase.Critical := fun hcritical => by
    have := h.owner hcritical
    simp [hlock] at this
  cases hstep with
  | unlock hphase => simp [hphase, Phase.Critical] at howner
  | record written panics hphase hnone hpoisoned => simp [hlock] at hnone
  | lockBuffer d' hnone => simp [hlock] at hnone
  | stampBuffer hholder haction' hdrain =>
    rw [hlock] at hholder
    cases hholder
    exact absurd haction' haction
  | _ => exact hlock

/-- What holds in every state of a run. -/
structure Sound (s : State T D E) : Prop where
  locks : Locks s
  accounted : ∀ t, Accounted (s.threads t) (s.handedOf t)

omit [DecidableEq D] in
theorem Sound.start : Sound (.start : State T D E) := by
  refine ⟨fun d epoch t rest h => by simp [State.start] at h, fun t => ?_⟩
  constructor <;> simp [State.start, State.handedOf, Thread.fresh, Phase.Critical]

section Step

variable {bytesWritten : List E → Nat} {batchSize : Nat} {s next : State T D E}
  {a : Action T D E}

theorem Sound.step (h : Sound s) (hstep : s.step bytesWritten batchSize a = some next) :
    Sound next := by
  have hmoves := step_moves h.locks hstep
  constructor
  · intro d epoch t rest hphase
    have hdrain := step_drains hstep d
    rw [hphase] at hdrain
    generalize hbefore : s.drains d = phase at hdrain
    cases hdrain with
    | stay _ haction =>
      rcases hmoves t with ⟨batch, hthread, -⟩
      exact hthread.lock_drain (h.accounted t) (h.locks d epoch t rest hbefore) haction
    | flush hlock hempty => exact hlock
  · intro t
    rcases hmoves t with ⟨batch, hthread, hhanded⟩
    rw [hhanded]
    exact (h.accounted t).step hthread

end Step

end Dial9.Core.Buffers
