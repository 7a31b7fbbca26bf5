/-
# What the sample ring guarantees

The slots serve the `bufferCap` tickets from the first one that was not drained:
the sequence number of a slot is its ticket, or the next one once the ticket's sample
is published. A producer owns its slot from its exchange of the tail until it
publishes, and the drainer reads published slots only.
-/

import Dial9.Lib.Run
import Dial9.SelfProfile.SampleBuffer
import Mathlib.Order.Interval.Finset.Nat

namespace Dial9.SelfProfile

open Dial9.Lib

namespace Producer

/-- The word that the producer has for its cursor or its ticket. -/
def ticket : Producer → Option Nat
  | .loading ticket _ | .reserving ticket _ | .writing ticket | .abandoning ticket => some ticket
  | .idle | .reloading _ | .dropping _ => none

/-- The slot that the producer holds. -/
def owns : Producer → Option Nat
  | .writing ticket | .abandoning ticket => some (ticket % bufferCap)
  | .idle | .loading _ _ | .reserving _ _ | .reloading _ | .dropping _ => none

/-- A bound on the steps that a call of `claim_slot` still takes; none is going on at zero. -/
def budget : Producer → Nat
  | .loading _ attempts => 3 * attempts + 4
  | .reserving _ attempts | .reloading attempts => 3 * attempts + 3
  | .dropping _ => 1
  | .idle | .writing _ | .abandoning _ => 0

end Producer

variable {head slot : Nat}

namespace Ring

/-- The slot that the drainer has found ready and not released yet. -/
def reads (s : Ring) : Option Nat :=
  match s.drainer with
  | .reading head | .releasing head _ => some (head % bufferCap)
  | .idle | .checking _ | .delivering _ _ | .finishing _ => none

/-- How a step of a call changes the cursors: the call goes on, or yields the ticket
that was next, or ends with one more drop. -/
inductive CallStep (s next : Ring) (p : Nat) : Prop where
  | goesOn (call : (next.producers p).budget ≠ 0) (tail : next.buffer.tail = s.buffer.tail)
      (claimed : next.claimed = s.claimed) (dropped : next.buffer.dropped = s.buffer.dropped)
  | yields (ticket : next.producers p = .writing s.buffer.tail) (cursor : next.cursor p = s.claimed)
      (tail : next.buffer.tail = wrappingAdd s.buffer.tail 1)
      (claimed : next.claimed = s.claimed + 1) (dropped : next.buffer.dropped = s.buffer.dropped)
  | drops (ended : next.producers p = .idle) (tail : next.buffer.tail = s.buffer.tail)
      (claimed : next.claimed = s.claimed)
      (dropped : next.buffer.dropped = wrappingAdd s.buffer.dropped 1)

/-- The tickets that the slots are for are fewer than `2 ^ 63` from the cursor in use. -/
def Near (s : Ring) : Event → Prop
  | .attempt p => s.drained + bufferCap ≤ s.cursor p + 2 ^ 63
  | _ => True

structure Safe (s : Ring) : Prop where
  /-- A slot has one owner. -/
  exclusive : ∀ p q slot, (s.producers p).owns = some slot →
    (s.producers q).owns = some slot → p = q
  /-- The drainer reads a slot that no producer owns. -/
  unowned : ∀ slot, s.reads = some slot → ∀ p, (s.producers p).owns ≠ some slot
  /-- The samples of the tickets are passed on in order, each once. -/
  delivered : ∀ ticket, ticket < s.delivered.length → s.published ticket = s.delivered[ticket]?
  /-- A ticket is published once, and after it was claimed. -/
  fresh : ∀ p slot, (s.producers p).owns = some slot → s.published (s.cursor p) = none
  claimed : ∀ ticket, s.published ticket ≠ none → ticket < s.claimed
  /-- `drain` stops only at a ticket that is not published yet. -/
  stops : ∀ head head' next, s.drainer = .checking head → s.step .drainStep = some next →
    next.drainer = .finishing head' → s.published s.delivered.length = none
  /-- Once all claimed tickets are published, draining passes all of them on. -/
  catchesUp : s.drainer = .idle → (∀ ticket < s.claimed, s.published ticket ≠ none) →
    ∃ count last, run step s (.drain :: List.replicate count .drainStep) = some last ∧
      last.drainer = .idle ∧ last.delivered.length = s.claimed
  /-- A call of `claim_slot` ends, with a ticket or with one more drop. -/
  call : ∀ p next, s.Near (.attempt p) → s.step (.attempt p) = some next →
    CallStep s next p ∧ (next.producers p).budget < (s.producers p).budget
  /-- Nothing but a call that yields a ticket moves the tail. -/
  tail : ∀ event next, (∀ p, event ≠ .attempt p) → s.step event = some next →
    next.buffer.tail = s.buffer.tail ∧ next.claimed = s.claimed
  /-- A step of one producer is no step of another. -/
  others : ∀ event next p, event.producer ≠ some p → s.step event = some next →
    next.producers p = s.producers p
  /-- A call finds the buffer full only when it is. -/
  full : ∀ p next ticket attempts, s.Near (.attempt p) → s.producers p = .loading ticket attempts →
    s.step (.attempt p) = some next → next.producers p = .dropping true →
      s.claimed = s.drained + bufferCap

/-! ## The window of the slots -/

structure Slots (s : Ring) : Prop where
  tail : s.buffer.tail = s.claimed % 2 ^ 64
  floor : s.drained ≤ s.claimed
  ceiling : s.claimed ≤ s.drained + bufferCap
  unclaimed : ∀ ticket, s.claimed ≤ ticket → s.published ticket = none
  past : ∀ ticket, ticket < s.drained → s.published ticket ≠ none
  seq : ∀ ticket, s.drained ≤ ticket → ticket < s.drained + bufferCap →
    (s.slot ticket).seq = (if s.published ticket = none then ticket else ticket + 1) % 2 ^ 64
  data : ∀ ticket sample, s.drained ≤ ticket → s.published ticket = some sample →
    (s.slot ticket).data = sample

/-- The producer's word is its cursor, which lies where the producer may be. -/
structure Placed (s : Ring) (producer : Producer) (cursor : Nat) : Prop where
  word : ∀ ticket, producer.ticket = some ticket → ticket = cursor % 2 ^ 64
  below : ∀ ticket, producer.ticket = some ticket → cursor ≤ s.claimed
  reserving : ∀ ticket attempts, producer = .reserving ticket attempts →
    cursor < s.drained + bufferCap
  owned : ∀ slot, producer.owns = some slot → cursor < s.claimed ∧ s.published cursor = none

structure Cursors (s : Ring) : Prop where
  placed : ∀ p, s.Placed (s.producers p) (s.cursor p)
  distinct : ∀ p q slot slot', (s.producers p).owns = some slot →
    (s.producers q).owns = some slot' → s.cursor p = s.cursor q → p = q

/-- The drainer's head, and the sample it has read. -/
def Phase (s : Ring) : Prop :=
  match s.drainer with
  | .idle => s.buffer.head = s.drained % 2 ^ 64 ∧ s.delivered.length = s.drained
  | .checking head | .finishing head =>
    head = s.drained % 2 ^ 64 ∧ s.delivered.length = s.drained
  | .reading head =>
    head = s.drained % 2 ^ 64 ∧ s.delivered.length = s.drained ∧ s.published s.drained ≠ none
  | .releasing head sample =>
    head = s.drained % 2 ^ 64 ∧ s.delivered.length = s.drained ∧
      s.published s.drained = some sample
  | .delivering head sample =>
    head = s.delivered.length % 2 ^ 64 ∧ s.drained = s.delivered.length + 1 ∧
      s.published s.delivered.length = some sample

structure Drains (s : Ring) : Prop where
  phase : s.Phase
  delivered : ∀ ticket, ticket < s.delivered.length → s.published ticket = s.delivered[ticket]?

structure Sound (s : Ring) : Prop where
  slots : s.Slots
  cursors : s.Cursors
  drains : s.Drains

variable {s next : Ring} {p q ticket c : Nat} {producer : Producer}

theorem sound_empty : Sound empty where
  slots :=
    { tail := rfl
      floor := le_rfl
      ceiling := Nat.zero_le _
      unclaimed := fun _ _ => rfl
      past := nofun
      seq := by
        intro ticket _ hlt
        have hlt' : ticket < bufferCap := by
          simpa [empty] using hlt
        have hword : ticket < 2 ^ 64 := hlt'.trans (by decide)
        show ticket % bufferCap = ticket % 2 ^ 64
        rw [Nat.mod_eq_of_lt hlt', Nat.mod_eq_of_lt hword]
      data := nofun }
  cursors := ⟨fun _ => ⟨nofun, nofun, nofun, nofun⟩, nofun⟩
  drains := ⟨⟨rfl, rfl⟩, nofun⟩

theorem eq_of_slot {base a b : Nat} (ha : base ≤ a ∧ a < base + bufferCap)
    (hb : base ≤ b ∧ b < base + bufferCap) (hslot : a % bufferCap = b % bufferCap) : a = b :=
  Nat.mod_injOn_Ico base bufferCap (Finset.mem_coe.mpr (Finset.mem_Ico.mpr ha))
    (Finset.mem_coe.mpr (Finset.mem_Ico.mpr hb)) hslot

theorem exists_window (base c : Nat) :
    ∃ t, base ≤ t ∧ t < base + bufferCap ∧ t % bufferCap = c % bufferCap := by
  refine ⟨base + (c % bufferCap + bufferCap - base % bufferCap) % bufferCap, ?_, ?_, ?_⟩
  · omega
  · simp only [bufferCap]
    omega
  · simp only [bufferCap]
    omega

theorem slot_word (s : Ring) (ticket : Nat) : s.slot (ticket % 2 ^ 64) = s.slot ticket := by
  have hmod : ticket % 2 ^ 64 % bufferCap = ticket % bufferCap :=
    Nat.mod_mod_of_dvd ticket (by decide)
  rw [slot, hmod, slot]

theorem slot_setSlot_self (s : Ring) (ticket : Nat) (new : SampleSlot) :
    (s.setSlot ticket new).slot ticket = new :=
  Function.update_self _ _ _

theorem slot_setSlot_of_ne (new : SampleSlot) (h : c % bufferCap ≠ ticket % bufferCap) :
    (s.setSlot ticket new).slot c = s.slot c :=
  Function.update_of_ne h _ _

theorem Slots.ready (h : Slots s) (hbelow : c ≤ s.claimed)
    (hseq : (s.slot c).seq = c % 2 ^ 64) : c < s.drained + bufferCap := by
  rcases exists_window s.drained c with ⟨t, hle, hlt, hslot⟩
  have hseq' := h.seq t hle hlt
  rw [show s.slot t = s.slot c from congrArg s.buffer.slots hslot, hseq] at hseq'
  have hceiling := h.ceiling
  simp only [bufferCap] at *
  split at hseq' <;> omega

theorem Slots.full (h : Slots s) (hbelow : c ≤ s.claimed)
    (hnear : s.drained + bufferCap ≤ c + 2 ^ 63)
    (hbehind : isNegative (wrappingSub (s.slot c).seq (c % 2 ^ 64)) = true) :
    s.claimed = s.drained + bufferCap := by
  rcases exists_window s.drained c with ⟨t, hle, hlt, hslot⟩
  rw [show s.slot c = s.slot t from (congrArg s.buffer.slots hslot).symm,
    h.seq t hle hlt] at hbehind
  have hsign := of_decide_eq_true hbehind
  have hceiling := h.ceiling
  simp only [bufferCap, wrappingSub] at *
  split at hsign <;> omega

/-! ## Producers -/

theorem Placed.mono (h : s.Placed producer c) (hclaimed : s.claimed ≤ next.claimed)
    (hdrained : s.drained ≤ next.drained)
    (hpublished : ∀ slot, producer.owns = some slot → s.published c = none →
      next.published c = none) : next.Placed producer c where
  word := h.word
  below := fun ticket hticket => (h.below ticket hticket).trans hclaimed
  reserving := fun ticket attempts hproducer =>
    lt_of_lt_of_le (h.reserving ticket attempts hproducer) (Nat.add_le_add_right hdrained _)
  owned := by
    intro slot hslot
    rcases h.owned slot hslot with ⟨hlt, hnone⟩
    exact ⟨lt_of_lt_of_le hlt hclaimed, hpublished slot hslot hnone⟩

theorem Placed.free (hticket : producer.ticket = none) (howns : producer.owns = none)
    (s : Ring) (c : Nat) : s.Placed producer c where
  word := fun ticket h => absurd (hticket.symm.trans h) (Option.some_ne_none ticket).symm
  below := fun ticket h => absurd (hticket.symm.trans h) (Option.some_ne_none ticket).symm
  reserving := by
    rintro ticket attempts rfl
    cases hticket
  owned := fun slot h => absurd (howns.symm.trans h) (Option.some_ne_none slot).symm

theorem Cursors.move (h : Cursors s)
    (hproducers : next.producers = Function.update s.producers p producer)
    (hcursor : next.cursor = Function.update s.cursor p c) (hclaimed : s.claimed ≤ next.claimed)
    (hdrained : s.drained ≤ next.drained) (hplaced : next.Placed producer c)
    (hpublished : ∀ q slot, q ≠ p → (s.producers q).owns = some slot →
      next.published (s.cursor q) = none)
    (hdistinct : ∀ q slot slot', q ≠ p → producer.owns = some slot →
      (s.producers q).owns = some slot' → c ≠ s.cursor q) : Cursors next where
  placed := by
    intro q
    rw [hproducers, hcursor, Function.update_apply, Function.update_apply]
    by_cases heq : q = p
    · rw [if_pos heq, if_pos heq]
      exact hplaced
    · rw [if_neg heq, if_neg heq]
      exact (h.placed q).mono hclaimed hdrained fun slot hslot _ => hpublished q slot heq hslot
  distinct := by
    intro q r slot slot' hq hr heq
    rw [hproducers, Function.update_apply] at hq hr
    rw [hcursor, Function.update_apply, Function.update_apply] at heq
    by_cases hqp : q = p
    · by_cases hrp : r = p
      · exact hqp.trans hrp.symm
      · rw [if_pos hqp] at hq heq
        rw [if_neg hrp] at hr heq
        exact absurd heq (hdistinct r slot slot' hrp hq hr)
    · by_cases hrp : r = p
      · rw [if_neg hqp] at hq heq
        rw [if_pos hrp] at hr heq
        exact absurd heq.symm (hdistinct q slot' slot hqp hr hq)
      · rw [if_neg hqp] at hq heq
        rw [if_neg hrp] at hr heq
        exact h.distinct q r slot slot' hq hr heq

section

variable (h : Sound s)
include h

theorem Sound.setProducer (hplaced : s.Placed producer (s.cursor p))
    (howns : producer.owns = none) : Sound (s.setProducer p producer) where
  slots := { h.slots with }
  cursors := by
    refine h.cursors.move rfl (Function.update_eq_self p s.cursor).symm le_rfl le_rfl
      { hplaced with } ?_ ?_
    · intro q slot _ hslot
      exact ((h.cursors.placed q).owned slot hslot).2
    · intro q slot slot' _ hslot
      exact absurd (howns.symm.trans hslot) (Option.some_ne_none slot).symm
  drains := { h.drains with }

theorem Sound.loadTail (p attempts : Nat) : Sound (s.loadTail p attempts) where
  slots := { h.slots with }
  cursors := by
    refine h.cursors.move rfl rfl le_rfl le_rfl ⟨?_, ?_, nofun, nofun⟩ ?_ nofun
    · rintro ticket ⟨⟩
      exact h.slots.tail
    · rintro ticket ⟨⟩
      exact le_rfl
    · intro q slot _ hslot
      exact ((h.cursors.placed q).owned slot hslot).2
  drains := { h.drains with }

theorem Sound.retry (p attempts : Nat) : Sound (s.retry p attempts) := by
  cases attempts with
  | zero => exact h.setProducer (.free rfl rfl s _) rfl
  | succ attempts => exact h.loadTail p attempts

theorem Sound.reserving {attempts : Nat}
    (hproducer : s.producers p = .loading ticket attempts) (hseq : (s.slot ticket).seq = ticket) :
    Sound (s.setProducer p (.reserving ticket attempts)) := by
  have hplaced := h.cursors.placed p
  rw [hproducer] at hplaced
  obtain rfl := hplaced.word ticket rfl
  rw [slot_word] at hseq
  have hbelow := hplaced.below _ rfl
  refine h.setProducer ⟨hplaced.word, hplaced.below, ?_, nofun⟩ rfl
  rintro _ _ ⟨⟩
  exact h.slots.ready hbelow hseq

theorem Sound.reserve {attempts : Nat}
    (hproducer : s.producers p = .reserving ticket attempts) (htail : s.buffer.tail = ticket)
    (hnear : s.Near (.attempt p)) :
    s.cursor p = s.claimed ∧
      Sound
        { s.setProducer p (.writing ticket) with
          buffer.tail := wrappingAdd ticket 1
          claimed := s.claimed + 1 } := by
  have hplaced := h.cursors.placed p
  rw [hproducer] at hplaced
  obtain rfl := hplaced.word ticket rfl
  have hbelow := hplaced.below _ rfl
  have hwindow := hplaced.reserving _ _ rfl
  have hceiling := h.slots.ceiling
  have hcursor : s.cursor p = s.claimed := by
    have hword := htail.symm.trans h.slots.tail
    have hfar : s.drained + bufferCap ≤ s.cursor p + 2 ^ 63 := hnear
    simp only [bufferCap] at *
    omega
  refine ⟨hcursor, ?_, ?_, h.drains.phase, h.drains.delivered⟩
  · refine ⟨?_, h.slots.floor.trans (Nat.le_succ _), hcursor ▸ hwindow, ?_, h.slots.past,
      h.slots.seq, h.slots.data⟩
    · show wrappingAdd (s.cursor p % 2 ^ 64) 1 = (s.claimed + 1) % 2 ^ 64
      rw [wrappingAdd, hcursor, Nat.mod_add_mod]
    · intro ticket hle
      exact h.slots.unclaimed ticket ((Nat.le_succ _).trans hle)
  · refine h.cursors.move rfl (Function.update_eq_self p s.cursor).symm (Nat.le_succ _) le_rfl
      ⟨hplaced.word, ?_, nofun, ?_⟩ ?_ ?_
    · rintro _ ⟨⟩
      exact hbelow.trans (Nat.le_succ _)
    · intro slot _
      exact ⟨hcursor ▸ Nat.lt_succ_self _, h.slots.unclaimed _ hcursor.ge⟩
    · intro q slot _ hslot
      exact ((h.cursors.placed q).owned slot hslot).2
    · intro q slot slot' _ _ hslot'
      exact (hcursor ▸ ((h.cursors.placed q).owned slot' hslot').1).ne'

end

/-! ## Slots -/

theorem setSlot_word (s : Ring) (ticket : Nat) (new : SampleSlot) :
    s.setSlot (ticket % 2 ^ 64) new = s.setSlot ticket new := by
  have hmod : ticket % 2 ^ 64 % bufferCap = ticket % bufferCap :=
    Nat.mod_mod_of_dvd ticket (by decide)
  rw [setSlot, hmod, setSlot]

section

variable (h : Slots s)
include h

theorem Slots.lt_claimed (hpublished : s.published ticket ≠ none) : ticket < s.claimed :=
  not_le.mp fun hle => hpublished (h.unclaimed ticket hle)

section

variable (hfloor : s.drained ≤ c) (hlt : c < s.claimed)
include hfloor hlt

theorem Slots.slot_ne
    (hle : s.drained ≤ ticket) (hceiling : ticket < s.drained + bufferCap) (hne : ticket ≠ c) :
    ticket % bufferCap ≠ c % bufferCap := fun hslot =>
  hne (eq_of_slot ⟨hle, hceiling⟩ ⟨hfloor, lt_of_lt_of_le hlt h.ceiling⟩ hslot)

theorem Slots.write (hnone : s.published c = none) (data : SampleData) :
    Slots (s.setSlot c { s.slot c with data := data }) where
  tail := h.tail
  floor := h.floor
  ceiling := h.ceiling
  unclaimed := h.unclaimed
  past := h.past
  seq := by
    intro ticket hle hceiling
    by_cases heq : ticket = c
    · subst heq
      rw [slot_setSlot_self]
      exact h.seq ticket hle hceiling
    · rw [slot_setSlot_of_ne _ (h.slot_ne hfloor hlt hle hceiling heq)]
      exact h.seq ticket hle hceiling
  data := by
    intro ticket sample hle hsome
    have hpublished : s.published ticket ≠ none := by
      rw [show s.published ticket = some sample from hsome]
      exact Option.some_ne_none sample
    have hne : ticket ≠ c := by
      rintro rfl
      exact hpublished hnone
    have hceiling := lt_of_lt_of_le (h.lt_claimed hpublished) h.ceiling
    rw [slot_setSlot_of_ne _ (h.slot_ne hfloor hlt hle hceiling hne)]
    exact h.data ticket sample hle hsome

theorem Slots.publish :
    Slots
      { s.setSlot c { s.slot c with seq := (c + 1) % 2 ^ 64 } with
        published := Function.update s.published c (some (s.slot c).data) } where
  tail := h.tail
  floor := h.floor
  ceiling := h.ceiling
  unclaimed := by
    intro ticket hle
    have hne : ticket ≠ c := (lt_of_lt_of_le hlt hle).ne'
    exact (Function.update_of_ne hne _ _).trans (h.unclaimed ticket hle)
  past := by
    intro ticket hpast
    have hne : ticket ≠ c := (lt_of_lt_of_le hpast hfloor).ne
    have hsame : Function.update s.published c (some (s.slot c).data) ticket = s.published ticket :=
      Function.update_of_ne hne _ _
    exact fun hnone => h.past ticket hpast (hsame.symm.trans hnone)
  seq := by
    intro ticket hle hceiling
    show ((s.setSlot c { s.slot c with seq := (c + 1) % 2 ^ 64 }).slot ticket).seq =
      (if Function.update s.published c (some (s.slot c).data) ticket = none then ticket
        else ticket + 1) % 2 ^ 64
    by_cases heq : ticket = c
    · subst heq
      rw [slot_setSlot_self, Function.update_self, if_neg (Option.some_ne_none _)]
    · rw [slot_setSlot_of_ne _ (h.slot_ne hfloor hlt hle hceiling heq), Function.update_of_ne heq]
      exact h.seq ticket hle hceiling
  data := by
    intro ticket sample hle hsome
    show ((s.setSlot c { s.slot c with seq := (c + 1) % 2 ^ 64 }).slot ticket).data = sample
    by_cases heq : ticket = c
    · subst heq
      rw [slot_setSlot_self]
      exact Option.some.inj ((Function.update_self ticket _ s.published).symm.trans hsome)
    · have hold : s.published ticket = some sample :=
        (Function.update_of_ne heq _ _).symm.trans hsome
      have hpublished : s.published ticket ≠ none := by
        rw [hold]
        exact Option.some_ne_none sample
      have hceiling := lt_of_lt_of_le (h.lt_claimed hpublished) h.ceiling
      rw [slot_setSlot_of_ne _ (h.slot_ne hfloor hlt hle hceiling heq)]
      exact h.data ticket sample hle hold

end

theorem Slots.release (hpublished : s.published s.drained ≠ none) :
    Slots
      { s.setSlot s.drained { s.slot s.drained with seq := (s.drained + bufferCap) % 2 ^ 64 } with
        drained := s.drained + 1 } := by
  have hlt := h.lt_claimed hpublished
  have hother : ∀ ticket, s.drained + 1 ≤ ticket → ticket < s.drained + bufferCap →
      ticket % bufferCap ≠ s.drained % bufferCap := by
    intro ticket hle hceiling
    exact h.slot_ne le_rfl hlt ((Nat.le_succ _).trans hle) hceiling (Nat.ne_of_gt hle)
  refine ⟨h.tail, hlt, ?_, h.unclaimed, ?_, ?_, ?_⟩
  · show s.claimed ≤ s.drained + 1 + bufferCap
    exact h.ceiling.trans (Nat.add_le_add_right (Nat.le_succ _) _)
  · intro ticket hpast
    rcases Nat.lt_succ_iff_lt_or_eq.mp hpast with hbefore | rfl
    · exact h.past ticket hbefore
    · exact hpublished
  · intro ticket hle hceiling
    show ((s.setSlot s.drained { s.slot s.drained with
        seq := (s.drained + bufferCap) % 2 ^ 64 }).slot ticket).seq =
      (if s.published ticket = none then ticket else ticket + 1) % 2 ^ 64
    have hle' : s.drained + 1 ≤ ticket := hle
    have hceiling' : ticket < s.drained + 1 + bufferCap := hceiling
    by_cases hlast : ticket = s.drained + bufferCap
    · subst hlast
      have hslot : (s.drained + bufferCap) % bufferCap = s.drained % bufferCap :=
        Nat.add_mod_right _ _
      have hself := slot_setSlot_self s s.drained
        { s.slot s.drained with seq := (s.drained + bufferCap) % 2 ^ 64 }
      rw [if_pos (h.unclaimed _ h.ceiling), slot, hslot]
      rw [slot] at hself
      rw [hself]
    · have hwindow : ticket < s.drained + bufferCap := by omega
      rw [slot_setSlot_of_ne _ (hother ticket hle' hwindow)]
      exact h.seq ticket ((Nat.le_succ _).trans hle') hwindow
  · intro ticket sample hle hsome
    have hle' : s.drained + 1 ≤ ticket := hle
    have hold : s.published ticket = some sample := hsome
    have hpublished' : s.published ticket ≠ none := by
      rw [hold]
      exact Option.some_ne_none sample
    have hwindow := lt_of_lt_of_le (h.lt_claimed hpublished') h.ceiling
    show ((s.setSlot s.drained { s.slot s.drained with
      seq := (s.drained + bufferCap) % 2 ^ 64 }).slot ticket).data = sample
    rw [slot_setSlot_of_ne _ (hother ticket hle' hwindow)]
    exact h.data ticket sample ((Nat.le_succ _).trans hle') hold

end

/-! ## Owners -/

theorem Sound.owner (h : Sound s) (howns : (s.producers p).owns = some slot) :
    s.drained ≤ s.cursor p ∧ s.cursor p < s.claimed ∧ s.published (s.cursor p) = none := by
  rcases (h.cursors.placed p).owned slot howns with ⟨hlt, hnone⟩
  exact ⟨not_lt.mp fun hpast => h.slots.past _ hpast hnone, hlt, hnone⟩

theorem Sound.write (h : Sound s) (hproducer : s.producers p = .writing ticket)
    (data : SampleData) : Sound (s.setSlot ticket { s.slot ticket with data := data }) := by
  have howns : (s.producers p).owns = some (ticket % bufferCap) := by
    rw [hproducer, Producer.owns]
  rcases h.owner howns with ⟨hfloor, hlt, hnone⟩
  have hword := (h.cursors.placed p).word ticket (by rw [hproducer, Producer.ticket])
  rw [hword, setSlot_word, slot_word]
  refine ⟨h.slots.write hfloor hlt hnone data, ⟨fun q => ?_, h.cursors.distinct⟩, h.drains.phase,
    h.drains.delivered⟩
  have hplaced := h.cursors.placed q
  exact { hplaced with }

theorem Sound.keep (h : Sound s) (hproducer : s.producers p = .writing ticket) :
    Sound (s.setProducer p (.abandoning ticket)) where
  slots := { h.slots with }
  cursors := by
    have hplaced := h.cursors.placed p
    have howns : (s.producers p).owns = some (ticket % bufferCap) := by
      rw [hproducer, Producer.owns]
    rw [hproducer] at hplaced
    refine h.cursors.move rfl (Function.update_eq_self p s.cursor).symm le_rfl le_rfl
      ⟨hplaced.word, hplaced.below, nofun, hplaced.owned⟩ ?_ ?_
    · intro q slot _ hslot
      exact ((h.cursors.placed q).owned slot hslot).2
    · intro q slot slot' hne _ hslot' heq
      exact hne (h.cursors.distinct p q _ slot' howns hslot' heq).symm
  drains := { h.drains with }

theorem published_update (hnone : s.published c = none) (sample : SampleData)
    (hpublished : s.published ticket ≠ none) :
    Function.update s.published c (some sample) ticket = s.published ticket := by
  apply Function.update_of_ne
  rintro rfl
  exact hpublished hnone

theorem Drains.publish (h : Drains s) (hnone : s.published c = none) (sample : SampleData)
    (hdrainer : next.drainer = s.drainer) (hhead : next.buffer.head = s.buffer.head)
    (hdrained : next.drained = s.drained) (hdelivered : next.delivered = s.delivered)
    (hpublished : next.published = Function.update s.published c (some sample)) : Drains next where
  phase := by
    have hphase := h.phase
    unfold Phase at hphase ⊢
    rw [hdrainer, hhead, hdrained, hdelivered, hpublished]
    cases hs : s.drainer with
    | idle | checking head | finishing head =>
      rw [hs] at hphase
      exact hphase
    | reading head =>
      rw [hs] at hphase
      rcases hphase with ⟨hword, hlength, hsome⟩
      exact ⟨hword, hlength, by rwa [published_update hnone sample hsome]⟩
    | releasing head read | delivering head read =>
      rw [hs] at hphase
      rcases hphase with ⟨hword, hlength, hsome⟩
      refine ⟨hword, hlength, ?_⟩
      rw [published_update hnone sample (hsome ▸ Option.some_ne_none read), hsome]
  delivered := by
    intro ticket hlt
    rw [hdelivered] at hlt ⊢
    have hold := h.delivered ticket hlt
    have hsome : s.published ticket ≠ none := by
      rw [hold, List.getElem?_eq_getElem hlt]
      exact Option.some_ne_none _
    rw [hpublished, published_update hnone sample hsome, hold]

theorem Sound.publishSeq (h : Sound s) (hticket : (s.producers p).ticket = some ticket)
    (howns : (s.producers p).owns = some (ticket % bufferCap)) : Sound (s.publishSeq p ticket) := by
  rcases h.owner howns with ⟨hfloor, hlt, hnone⟩
  have hword := (h.cursors.placed p).word ticket hticket
  have hseq : wrappingAdd ticket 1 = (s.cursor p + 1) % 2 ^ 64 := by
    rw [wrappingAdd, hword, Nat.mod_add_mod]
  have hslots := h.slots.publish hfloor hlt
  have heq : s.publishSeq p ticket =
      { (s.setSlot (s.cursor p) { s.slot (s.cursor p) with
          seq := (s.cursor p + 1) % 2 ^ 64 }).setProducer p .idle with
        published :=
          Function.update s.published (s.cursor p) (some (s.slot (s.cursor p)).data) } := by
    rw [Ring.publishSeq, hseq, hword, setSlot_word, slot_word]
  rw [heq]
  refine ⟨{ hslots with }, ?_, h.drains.publish hnone _ rfl rfl rfl rfl rfl⟩
  refine h.cursors.move rfl (Function.update_eq_self p s.cursor).symm le_rfl le_rfl
    (.free rfl rfl _ _) ?_ nofun
  intro q slot hne hslot
  have hother : s.cursor q ≠ s.cursor p := fun hcursor =>
    hne (h.cursors.distinct q p slot _ hslot howns hcursor)
  exact (Function.update_of_ne hother _ _).trans ((h.cursors.placed q).owned slot hslot).2

theorem Sound.attempt (h : Sound s) (hnear : s.Near (.attempt p))
    (hstep : s.attempt p = some next) : Sound next := by
  unfold Ring.attempt at hstep
  cases hproducer : s.producers p with
  | idle | writing ticket | abandoning ticket =>
    rw [hproducer] at hstep
    cases hstep
  | loading ticket attempts =>
    rw [hproducer] at hstep
    cases hstep
    by_cases hseq : (s.slot ticket).seq = ticket
    · rw [if_pos hseq]
      exact h.reserving hproducer hseq
    · rw [if_neg hseq]
      split
      · exact h.setProducer (.free rfl rfl s _) rfl
      · exact h.setProducer (.free rfl rfl s _) rfl
  | reserving ticket attempts =>
    rw [hproducer] at hstep
    cases hstep
    by_cases htail : s.buffer.tail = ticket
    · rw [if_pos htail]
      exact (h.reserve hproducer htail hnear).2
    · rw [if_neg htail]
      exact h.retry p attempts
  | reloading attempts =>
    rw [hproducer] at hstep
    cases hstep
    exact h.retry p attempts
  | dropping full =>
    rw [hproducer] at hstep
    cases hstep
    have hidle : Sound (s.setProducer p .idle) := h.setProducer (.free rfl rfl s _) rfl
    exact
      { slots := { h.slots with }
        cursors := ⟨fun q => { hidle.cursors.placed q with },
          hidle.cursors.distinct⟩
        drains := { h.drains with } }

/-! ## The drainer -/

theorem Sound.setDrainer (h : Sound s) {drainer : Drainer}
    (hphase : Phase { s with drainer := drainer }) : Sound { s with drainer := drainer } where
  slots := { h.slots with }
  cursors := ⟨fun q => { h.cursors.placed q with }, h.cursors.distinct⟩
  drains := ⟨hphase, h.drains.delivered⟩

theorem Slots.seq_drained (h : Slots s) :
    (s.slot (s.drained % 2 ^ 64)).seq = wrappingAdd (s.drained % 2 ^ 64) 1 ↔
      s.published s.drained ≠ none := by
  have hseq := h.seq s.drained le_rfl (Nat.lt_add_of_pos_right (by decide))
  rw [slot_word, hseq, wrappingAdd, Nat.mod_add_mod]
  by_cases hnone : s.published s.drained = none
  · rw [if_pos hnone]
    have hne : s.drained % 2 ^ 64 ≠ (s.drained + 1) % 2 ^ 64 := by omega
    exact iff_of_false hne (not_not.mpr hnone)
  · rw [if_neg hnone]
    exact iff_of_true rfl hnone

section

variable (h : Sound s)
include h

theorem Sound.check (hdrainer : s.drainer = .checking head) :
    Sound
      { s with
        drainer :=
          if (s.slot head).seq = wrappingAdd head 1 then .reading head else .finishing head } := by
  have hphase := h.drains.phase
  rw [Phase, hdrainer] at hphase
  obtain ⟨rfl, hlength⟩ := hphase
  apply h.setDrainer
  by_cases hseq : (s.slot (s.drained % 2 ^ 64)).seq = wrappingAdd (s.drained % 2 ^ 64) 1
  · rw [if_pos hseq]
    exact ⟨rfl, hlength, h.slots.seq_drained.mp hseq⟩
  · rw [if_neg hseq]
    exact ⟨rfl, hlength⟩

theorem Sound.read (hdrainer : s.drainer = .reading head) :
    Sound { s with drainer := .releasing head (s.slot head).data } := by
  have hphase := h.drains.phase
  rw [Phase, hdrainer] at hphase
  obtain ⟨rfl, hlength, hpublished⟩ := hphase
  apply h.setDrainer
  refine ⟨rfl, hlength, ?_⟩
  rcases Option.ne_none_iff_exists'.mp hpublished with ⟨sample, hsome⟩
  rw [slot_word, h.slots.data s.drained sample le_rfl hsome]
  exact hsome

theorem Sound.release {sample : SampleData}
    (hdrainer : s.drainer = .releasing head sample) :
    Sound
      { s.setSlot head { s.slot head with seq := wrappingAdd head bufferCap } with
        drainer := .delivering head sample
        drained := s.drained + 1 } := by
  have hphase := h.drains.phase
  rw [Phase, hdrainer] at hphase
  obtain ⟨rfl, hlength, hsome⟩ := hphase
  have hslots := h.slots.release (hsome ▸ Option.some_ne_none sample)
  rw [wrappingAdd, Nat.mod_add_mod, setSlot_word, slot_word]
  refine ⟨{ hslots with }, ⟨fun q => ?_, h.cursors.distinct⟩,
    ⟨?_, congrArg (· + 1) hlength.symm, ?_⟩,
    h.drains.delivered⟩
  · exact (h.cursors.placed q).mono le_rfl (Nat.le_succ _) fun _ _ hnone => hnone
  · exact congrArg (· % 2 ^ 64) hlength.symm
  · exact hlength ▸ hsome

theorem Sound.deliver {sample : SampleData}
    (hdrainer : s.drainer = .delivering head sample) :
    Sound
      { s with
        drainer := .checking (wrappingAdd head 1)
        delivered := s.delivered ++ [sample] } := by
  have hphase := h.drains.phase
  rw [Phase, hdrainer] at hphase
  obtain ⟨rfl, hdrained, hsome⟩ := hphase
  have hword : wrappingAdd (s.delivered.length % 2 ^ 64) 1 = s.drained % 2 ^ 64 := by
    rw [wrappingAdd, Nat.mod_add_mod, hdrained]
  have hlength : (s.delivered ++ [sample]).length = s.drained := by
    rw [List.length_append, List.length_singleton, hdrained]
  refine ⟨{ h.slots with }, ⟨fun q => { h.cursors.placed q with }, h.cursors.distinct⟩,
    ⟨hword, hlength⟩, ?_⟩
  intro ticket hlt
  have hlt' : ticket < s.delivered.length + 1 := by
    rw [← hdrained, ← hlength]
    exact hlt
  rcases Nat.lt_succ_iff_lt_or_eq.mp hlt' with hbefore | rfl
  · show s.published ticket = (s.delivered ++ [sample])[ticket]?
    rw [List.getElem?_append_left hbefore]
    exact h.drains.delivered ticket hbefore
  · exact hsome.trans List.getElem?_concat_length.symm

theorem Sound.finish (hdrainer : s.drainer = .finishing head) :
    Sound { s with buffer.head := head, drainer := .idle } := by
  have hphase := h.drains.phase
  rw [Phase, hdrainer] at hphase
  exact ⟨{ h.slots with }, ⟨fun q => { h.cursors.placed q with }, h.cursors.distinct⟩, hphase,
    h.drains.delivered⟩

theorem Sound.drainStep (hstep : s.drainStep = some next) : Sound next := by
  unfold Ring.drainStep at hstep
  cases hdrainer : s.drainer with
  | idle =>
    rw [hdrainer] at hstep
    cases hstep
  | checking head =>
    rw [hdrainer] at hstep
    cases hstep
    exact h.check hdrainer
  | reading head =>
    rw [hdrainer] at hstep
    cases hstep
    exact h.read hdrainer
  | releasing head sample =>
    rw [hdrainer] at hstep
    cases hstep
    exact h.release hdrainer
  | delivering head sample =>
    rw [hdrainer] at hstep
    cases hstep
    exact h.deliver hdrainer
  | finishing head =>
    rw [hdrainer] at hstep
    cases hstep
    exact h.finish hdrainer

end

/-! ## Steps -/

theorem writing_of_step {f : Nat → Ring}
    (hstep : (match s.producers p with
      | .writing ticket => some (f ticket)
      | _ => none) = some next) : ∃ ticket, s.producers p = .writing ticket ∧ f ticket = next := by
  cases hproducer : s.producers p with
  | writing ticket =>
    rw [hproducer] at hstep
    exact ⟨ticket, rfl, Option.some.inj hstep⟩
  | idle | loading ticket attempts | reserving ticket attempts | reloading attempts
  | dropping full | abandoning ticket =>
    rw [hproducer] at hstep
    cases hstep

section

variable (h : Sound s)
include h

theorem Sound.step {event : Event} (hnear : s.Near event)
    (hstep : s.step event = some next) : Sound next := by
  cases event with
  | claim p =>
    rcases Option.ite_none_right_eq_some.mp hstep with ⟨-, hnext⟩
    cases hnext
    exact h.loadTail p _
  | attempt p => exact h.attempt hnear hstep
  | write p write =>
    rcases writing_of_step hstep with ⟨ticket, hproducer, rfl⟩
    exact h.write hproducer _
  | commit p =>
    rcases writing_of_step hstep with ⟨ticket, hproducer, rfl⟩
    apply h.publishSeq
    · rw [hproducer, Producer.ticket]
    · rw [hproducer, Producer.owns]
  | abandon p =>
    rcases writing_of_step hstep with ⟨ticket, hproducer, rfl⟩
    exact (h.write hproducer _).keep hproducer
  | publish p =>
    cases hproducer : s.producers p with
    | abandoning ticket =>
      have hnext : s.publishSeq p ticket = next := by
        simpa [Ring.step, hproducer] using hstep
      rw [← hnext]
      apply h.publishSeq
      · rw [hproducer, Producer.ticket]
      · rw [hproducer, Producer.owns]
    | idle | loading ticket attempts | reserving ticket attempts | reloading attempts
    | dropping full | writing ticket =>
      simp [Ring.step, hproducer] at hstep
  | drain =>
    cases hdrainer : s.drainer with
    | idle =>
      have hnext : { s with drainer := .checking s.buffer.head } = next := by
        simpa [Ring.step, hdrainer] using hstep
      have hphase := h.drains.phase
      rw [Phase, hdrainer] at hphase
      exact hnext ▸ h.setDrainer hphase
    | checking head | reading head | releasing head sample | delivering head sample
    | finishing head =>
      simp [Ring.step, hdrainer] at hstep
  | drainStep => exact h.drainStep hstep
  | takeDroppedCount =>
    cases hstep
    exact
      { slots := { h.slots with }
        cursors := ⟨fun q => { h.cursors.placed q with }, h.cursors.distinct⟩
        drains := { h.drains with } }

/-! ## Guarantees -/

theorem Sound.slot_of_owns (howns : (s.producers p).owns = some slot) :
    slot = s.cursor p % bufferCap := by
  have hword := (h.cursors.placed p).word
  have hmod : s.cursor p % 2 ^ 64 % bufferCap = s.cursor p % bufferCap :=
    Nat.mod_mod_of_dvd _ (by decide)
  cases hproducer : s.producers p with
  | writing ticket | abandoning ticket =>
    rw [hproducer] at howns hword
    cases howns
    rw [hword ticket rfl, hmod]
  | idle | loading ticket attempts | reserving ticket attempts | reloading attempts
  | dropping full =>
    rw [hproducer] at howns
    cases howns

theorem Sound.exclusive (hp : (s.producers p).owns = some slot)
    (hq : (s.producers q).owns = some slot) : p = q := by
  rcases h.owner hp with ⟨hfloor, hlt, -⟩
  rcases h.owner hq with ⟨hfloor', hlt', -⟩
  have hceiling := h.slots.ceiling
  have hslot := (h.slot_of_owns hp).symm.trans (h.slot_of_owns hq)
  apply h.cursors.distinct p q slot slot hp hq
  exact eq_of_slot ⟨hfloor, lt_of_lt_of_le hlt hceiling⟩ ⟨hfloor',
    lt_of_lt_of_le hlt' hceiling⟩ hslot

theorem Sound.reads (hreads : s.reads = some slot) :
    slot = s.drained % bufferCap ∧ s.published s.drained ≠ none := by
  have hphase := h.drains.phase
  have hmod : s.drained % 2 ^ 64 % bufferCap = s.drained % bufferCap :=
    Nat.mod_mod_of_dvd _ (by decide)
  unfold Phase at hphase
  unfold Ring.reads at hreads
  cases hdrainer : s.drainer with
  | reading head =>
    rw [hdrainer] at hphase hreads
    obtain ⟨rfl, -, hpublished⟩ := hphase
    cases hreads
    exact ⟨hmod, hpublished⟩
  | releasing head sample =>
    rw [hdrainer] at hphase hreads
    obtain ⟨rfl, -, hsome⟩ := hphase
    cases hreads
    exact ⟨hmod, hsome ▸ Option.some_ne_none sample⟩
  | idle | checking head | delivering head sample | finishing head =>
    rw [hdrainer] at hreads
    cases hreads

theorem Sound.unowned (hreads : s.reads = some slot) (p : Nat) :
    (s.producers p).owns ≠ some slot := by
  intro howns
  rcases h.reads hreads with ⟨hslot, hpublished⟩
  rcases h.owner howns with ⟨hfloor, hlt, hnone⟩
  have heq : s.cursor p = s.drained :=
    eq_of_slot ⟨hfloor, lt_of_lt_of_le hlt h.slots.ceiling⟩
      ⟨le_rfl, Nat.lt_add_of_pos_right (by decide)⟩ ((h.slot_of_owns howns).symm.trans hslot)
  exact hpublished (heq ▸ hnone)

theorem Sound.stops {head head' : Nat} (hdrainer : s.drainer = .checking head)
    (hstep : s.drainStep = some next) (hnext : next.drainer = .finishing head') :
    s.published s.delivered.length = none := by
  have hphase := h.drains.phase
  rw [Phase, hdrainer] at hphase
  obtain ⟨rfl, hlength⟩ := hphase
  rw [Ring.drainStep, hdrainer] at hstep
  cases hstep
  by_contra hpublished
  have hseq := h.slots.seq_drained.mpr (hlength ▸ hpublished)
  rw [if_pos hseq] at hnext
  cases hnext

end

theorem run_drainStep {last : Ring} {count : Nat} (hstep : s.drainStep = some next)
    (hrun : run step next (List.replicate count .drainStep) = some last) :
    run step s (List.replicate (count + 1) .drainStep) = some last := by
  rw [List.replicate_succ, run]
  exact Option.bind_eq_some_iff.mpr ⟨next, hstep, hrun⟩

theorem Sound.turn (h : Sound s) (hdrainer : s.drainer = .checking head)
    (hpublished : s.published s.drained ≠ none) :
    ∃ next head', (∀ count last, run Ring.step next (List.replicate count .drainStep) = some last →
        run Ring.step s (List.replicate (count + 4) .drainStep) = some last) ∧
      Sound next ∧ next.drainer = .checking head' ∧ next.claimed = s.claimed ∧
        next.published = s.published ∧ next.drained = s.drained + 1 := by
  have hphase := h.drains.phase
  rw [Phase, hdrainer] at hphase
  obtain ⟨rfl, -⟩ := hphase
  have hseq := h.slots.seq_drained.mpr hpublished
  have hcheck : s.drainStep = some { s with drainer := .reading (s.drained % 2 ^ 64) } := by
    rw [Ring.drainStep, hdrainer]
    exact congrArg some (by rw [if_pos hseq])
  have hreading := h.drainStep hcheck
  have hreleasing := hreading.drainStep rfl
  have hdelivering := hreleasing.drainStep rfl
  have hchecking := hdelivering.drainStep rfl
  refine ⟨_, _, ?_, hchecking, rfl, rfl, rfl, rfl⟩
  intro count last hrun
  exact run_drainStep hcheck (run_drainStep rfl (run_drainStep rfl (run_drainStep rfl hrun)))

theorem Sound.drainAll (h : Sound s) (hdrainer : s.drainer = .checking head)
    (hpublished : ∀ ticket < s.claimed, s.published ticket ≠ none) :
    ∃ count last, run Ring.step s (List.replicate count .drainStep) = some last ∧
      last.drainer = .idle ∧ last.delivered.length = s.claimed := by
  obtain ⟨left, hleft⟩ := Nat.exists_eq_add_of_le h.slots.floor
  induction left generalizing s head with
  | zero =>
    have hphase := h.drains.phase
    rw [Phase, hdrainer] at hphase
    obtain ⟨rfl, hlength⟩ := hphase
    have hnone := h.slots.unclaimed s.drained hleft.le
    have hseq : (s.slot (s.drained % 2 ^ 64)).seq ≠ wrappingAdd (s.drained % 2 ^ 64) 1 :=
      fun hseq => h.slots.seq_drained.mp hseq hnone
    have hcheck : s.drainStep = some { s with drainer := .finishing (s.drained % 2 ^ 64) } := by
      rw [Ring.drainStep, hdrainer]
      exact congrArg some (by rw [if_neg hseq])
    refine ⟨2, _, run_drainStep hcheck (run_drainStep rfl rfl), rfl, ?_⟩
    exact hlength.trans hleft.symm
  | succ left ih =>
    have hlt : s.drained < s.claimed := by omega
    rcases h.turn hdrainer (hpublished s.drained hlt) with
      ⟨next, head', hrun, hsound, hnext, hclaimed, hsame, hdrained⟩
    have hpublished' : ∀ ticket < next.claimed, next.published ticket ≠ none := by
      rw [hclaimed, hsame]
      exact hpublished
    rcases ih hsound hnext hpublished' (by omega) with ⟨count, last, hrest, hidle, hlength⟩
    exact ⟨count + 4, last, hrun count last hrest, hidle, hlength.trans hclaimed⟩

theorem Sound.catchesUp (h : Sound s) (hidle : s.drainer = .idle)
    (hpublished : ∀ ticket < s.claimed, s.published ticket ≠ none) :
    ∃ count last, run Ring.step s (.drain :: List.replicate count .drainStep) = some last ∧
      last.drainer = .idle ∧ last.delivered.length = s.claimed := by
  have hstep : s.step .drain = some { s with drainer := .checking s.buffer.head } := by
    rw [Ring.step, hidle]
  have hsound := @Sound.step _ _ h .drain trivial hstep
  rcases hsound.drainAll rfl hpublished with ⟨count, last, hrun, hlast⟩
  exact ⟨count, last, Option.bind_eq_some_iff.mpr ⟨_, hstep, hrun⟩, hlast⟩

theorem callStep_retry (s : Ring) (p attempts : Nat) :
    CallStep s (s.retry p attempts) p ∧
      ((s.retry p attempts).producers p).budget < 3 * attempts + 3 := by
  cases attempts with
  | zero =>
    have hproducer : (s.retry p 0).producers p = .dropping false := Function.update_self _ _ _
    rw [hproducer]
    exact ⟨.goesOn (hproducer ▸ Nat.one_ne_zero) rfl rfl rfl, by decide⟩
  | succ attempts =>
    have hproducer : (s.retry p (attempts + 1)).producers p = .loading s.buffer.tail attempts :=
      Function.update_self _ _ _
    rw [hproducer]
    refine ⟨.goesOn (hproducer ▸ Nat.succ_ne_zero _) rfl rfl rfl, ?_⟩
    rw [Producer.budget]
    omega

theorem Sound.call (h : Sound s) (hnear : s.Near (.attempt p)) (hstep : s.attempt p = some next) :
    CallStep s next p ∧ (next.producers p).budget < (s.producers p).budget := by
  have hmoves : ∀ producer : Producer, producer.budget ≠ 0 →
      CallStep s (s.setProducer p producer) p ∧
        ((s.setProducer p producer).producers p).budget = producer.budget := by
    intro producer hbudget
    have hproducer : (s.setProducer p producer).producers p = producer := Function.update_self _ _ _
    exact ⟨.goesOn (hproducer.symm ▸ hbudget) rfl rfl rfl, congrArg Producer.budget hproducer⟩
  unfold Ring.attempt at hstep
  cases hproducer : s.producers p with
  | idle | writing ticket | abandoning ticket =>
    rw [hproducer] at hstep
    cases hstep
  | loading ticket attempts =>
    rw [hproducer] at hstep
    cases hstep
    by_cases hseq : (s.slot ticket).seq = ticket
    · rw [if_pos hseq]
      rcases hmoves (.reserving ticket attempts) (Nat.succ_ne_zero _) with ⟨hcall, hbudget⟩
      exact ⟨hcall, hbudget.trans_lt (Nat.lt_succ_self _)⟩
    · rw [if_neg hseq]
      split
      · rcases hmoves (.dropping true) Nat.one_ne_zero with ⟨hcall, hbudget⟩
        refine ⟨hcall, hbudget.trans_lt ?_⟩
        rw [Producer.budget, Producer.budget]
        omega
      · rcases hmoves (.reloading attempts) (Nat.succ_ne_zero _) with ⟨hcall, hbudget⟩
        exact ⟨hcall, hbudget.trans_lt (Nat.lt_succ_self _)⟩
  | reserving ticket attempts =>
    rw [hproducer] at hstep
    cases hstep
    by_cases htail : s.buffer.tail = ticket
    · rw [if_pos htail]
      have hcursor := (h.reserve hproducer htail hnear).1
      have hwriting : ∀ r : Ring, r.producers = Function.update s.producers p (.writing ticket) →
          r.producers p = .writing ticket := fun r hr => hr ▸ Function.update_self _ _ _
      refine ⟨.yields ?_ hcursor ?_ rfl rfl, ?_⟩
      · rw [htail]
        exact hwriting _ rfl
      · rw [htail]
      · rw [hwriting _ rfl]
        exact Nat.succ_pos _
    · rw [if_neg htail]
      exact callStep_retry s p attempts
  | reloading attempts =>
    rw [hproducer] at hstep
    cases hstep
    exact callStep_retry s p attempts
  | dropping full =>
    rw [hproducer] at hstep
    cases hstep
    have hidle : (s.setProducer p .idle).producers p = .idle := Function.update_self _ _ _
    refine ⟨.drops hidle rfl rfl rfl, ?_⟩
    exact (congrArg Producer.budget hidle).trans_lt Nat.one_pos

theorem drainStep_same (hstep : s.drainStep = some next) :
    next.producers = s.producers ∧ next.buffer.tail = s.buffer.tail ∧ next.claimed = s.claimed := by
  unfold Ring.drainStep at hstep
  split at hstep
  · cases hstep
  all_goals
    cases hstep
    exact ⟨rfl, rfl, rfl⟩

theorem attempt_others (hne : q ≠ p) (hstep : s.attempt p = some next) :
    next.producers q = s.producers q := by
  have hset : ∀ producer, (s.setProducer p producer).producers q = s.producers q := fun _ =>
    Function.update_of_ne hne _ _
  have hretry : ∀ attempts, (s.retry p attempts).producers q = s.producers q := by
    intro attempts
    cases attempts with
    | zero | succ _ => exact hset _
  unfold Ring.attempt at hstep
  split at hstep
  · cases hstep
    split
    · exact hset _
    · split
      · exact hset _
      · exact hset _
  · cases hstep
    split
    · exact hset _
    · exact hretry _
  · cases hstep
    exact hretry _
  · cases hstep
    exact hset _
  all_goals cases hstep

theorem step_same {event : Event} (hstep : s.step event = some next) :
    ((∀ p, event ≠ .attempt p) →
      next.buffer.tail = s.buffer.tail ∧ next.claimed = s.claimed) ∧
      ∀ p, event.producer ≠ some p → next.producers p = s.producers p := by
  have hother {p q : Nat} {producer : Producer} (hne : some q ≠ some p) :
      Function.update s.producers q producer p = s.producers p :=
    Function.update_of_ne (fun heq => hne (congrArg some heq.symm)) _ _
  cases event with
  | claim q =>
    rcases Option.ite_none_right_eq_some.mp hstep with ⟨-, ⟨⟩⟩
    exact ⟨fun _ => ⟨rfl, rfl⟩, fun _ => hother⟩
  | attempt q =>
    refine ⟨fun hevent => absurd rfl (hevent q), fun p hne => attempt_others ?_ hstep⟩
    exact fun heq => hne (congrArg some heq.symm)
  | write q write =>
    rcases writing_of_step hstep with ⟨ticket, -, rfl⟩
    exact ⟨fun _ => ⟨rfl, rfl⟩, fun _ _ => rfl⟩
  | commit q | abandon q =>
    rcases writing_of_step hstep with ⟨ticket, -, rfl⟩
    exact ⟨fun _ => ⟨rfl, rfl⟩, fun _ => hother⟩
  | publish q =>
    rw [Ring.step] at hstep
    split at hstep
    · cases hstep
      exact ⟨fun _ => ⟨rfl, rfl⟩, fun _ => hother⟩
    · cases hstep
  | drain =>
    rw [Ring.step] at hstep
    split at hstep
    · cases hstep
      exact ⟨fun _ => ⟨rfl, rfl⟩, fun _ _ => rfl⟩
    · cases hstep
  | drainStep =>
    rcases drainStep_same hstep with ⟨hproducers, hsame⟩
    exact ⟨fun _ => hsame, fun p _ => congrFun hproducers p⟩
  | takeDroppedCount =>
    cases hstep
    exact ⟨fun _ => ⟨rfl, rfl⟩, fun _ _ => rfl⟩

theorem Sound.full (h : Sound s) {attempts : Nat} (hnear : s.Near (.attempt p))
    (hproducer : s.producers p = .loading ticket attempts) (hstep : s.attempt p = some next)
    (hnext : next.producers p = .dropping true) : s.claimed = s.drained + bufferCap := by
  have hplaced := h.cursors.placed p
  rw [hproducer] at hplaced
  obtain rfl := hplaced.word ticket rfl
  have hset : ∀ producer, (s.setProducer p producer).producers p = producer := fun _ =>
    Function.update_self _ _ _
  rw [Ring.attempt, hproducer] at hstep
  cases hstep
  split at hnext
  · cases (hset _).symm.trans hnext
  · split at hnext
    case isTrue hbehind =>
      rw [slot_word] at hbehind
      exact h.slots.full (hplaced.below _ rfl) hnear hbehind
    · cases (hset _).symm.trans hnext

theorem Sound.safe (h : Sound s) : Safe s where
  exclusive := fun _ _ _ => h.exclusive
  unowned := fun _ => h.unowned
  delivered := h.drains.delivered
  fresh := fun _ _ howns => (h.owner howns).2.2
  claimed := fun _ => h.slots.lt_claimed
  stops := fun _ _ _ => h.stops
  catchesUp := h.catchesUp
  call := fun _ _ => h.call
  tail := fun _ _ hevent hstep => (step_same hstep).1 hevent
  others := fun _ _ p hevent hstep => (step_same hstep).2 p hevent
  full := fun _ _ _ _ => h.full

/-- Between drains, `has_pending` asks whether a claimed ticket was not drained. -/
theorem Sound.hasPending (h : Sound s) (hidle : s.drainer = .idle) :
    s.hasPending = true ↔ s.drained < s.claimed := by
  have hphase := h.drains.phase
  rw [Phase, hidle] at hphase
  have hfloor := h.slots.floor
  have hceiling := h.slots.ceiling
  simp only [bufferCap] at hceiling
  simp only [Ring.hasPending, h.slots.tail, hphase.1, wrappingSub, isNegative, Bool.and_eq_true,
    Bool.not_eq_true', decide_eq_false_iff_not, decide_eq_true_eq]
  omega

/-- Never more tickets are out than there are slots, and between drains `has_pending`
tells whether one of them was not passed on. -/
theorem pending_throughout (events : List Event) (hnear : Along step Near empty events) :
    Throughout step (fun s => s.claimed ≤ s.drained + bufferCap ∧
      (s.drainer = .idle → (s.hasPending = true ↔ s.drained < s.claimed))) empty events :=
  throughout_of_along (fun _ _ _ h hnear hstep => h.step hnear hstep)
    (fun _ h => ⟨h.slots.ceiling, h.hasPending⟩) sound_empty hnear

theorem near_of_drained {p n : Nat} (hdrained : s.drained = n) (hlow : n ≤ 1) :
    s.Near (.attempt p) := by
  rw [Near, hdrained]
  exact Nat.le_add_left_of_le ((Nat.add_le_add_right hlow _).trans (by decide))

/-- One ticket is drained, and another is out. -/
theorem pending_drained :
    Throughout step (fun s => s.claimed ≤ s.drained + bufferCap ∧
      (s.drainer = .idle → (s.hasPending = true ↔ s.drained < s.claimed))) empty
      ([.claim 0, .attempt 0, .attempt 0, .commit 0, .drain] ++ List.replicate 6 .drainStep ++
        [.claim 1, .attempt 1, .attempt 1]) ∧
    ∃ s, run step empty ([.claim 0, .attempt 0, .attempt 0, .commit 0, .drain] ++
        List.replicate 6 .drainStep ++ [.claim 1, .attempt 1, .attempt 1]) = some s ∧
      s.drained = 1 ∧ s.claimed = 2 := by
  refine ⟨?_, _, rfl, rfl, rfl⟩
  apply pending_throughout
  refine ⟨trivial, ?_⟩
  rintro _ ⟨⟩
  iterate 2
    refine ⟨near_of_drained rfl (by decide), ?_⟩
    rintro _ ⟨⟩
  iterate 9
    refine ⟨trivial, ?_⟩
    rintro _ ⟨⟩
  iterate 2
    refine ⟨near_of_drained rfl (by decide), ?_⟩
    rintro _ ⟨⟩
  trivial

/-- The ring keeps its guarantees over all interleavings. -/
theorem ring_safe (events : List Event) (hnear : Along step Near empty events) :
    Throughout step Safe empty events := by
  refine throughout_of_along ?_ ?_ sound_empty hnear
  · intro s event next hsound hnear' hstep
    exact hsound.step hnear' hstep
  · intro s hsound
    exact hsound.safe

/-- A handler claims and commits between another's steps, which then abandons. -/
theorem ring_safe_nested :
    Throughout step Safe empty
      [.claim 0, .attempt 0, .claim 1, .attempt 1, .attempt 1, .attempt 0, .attempt 0, .attempt 0,
        .commit 1, .abandon 0, .publish 0, .drain, .drainStep] := by
  apply ring_safe
  refine ⟨trivial, ?_⟩
  rintro _ ⟨⟩
  refine ⟨near_of_drained rfl (by decide), ?_⟩
  rintro _ ⟨⟩
  refine ⟨trivial, ?_⟩
  rintro _ ⟨⟩
  iterate 5
    refine ⟨near_of_drained rfl (by decide), ?_⟩
    rintro _ ⟨⟩
  iterate 5
    refine ⟨trivial, ?_⟩
    rintro _ ⟨⟩
  trivial

end Ring

end Dial9.SelfProfile
