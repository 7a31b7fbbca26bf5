/-
# A free reports the allocation it frees

An entry of the liveset is of the last allocation that was recorded at its address,
and a free makes at most one record. So frees report the right allocations as long as
no lookup meets the entry of an earlier one: an allocation that never got into the
liveset leaves such an entry where it is, and so does a lookup that is postponed.
-/

import Dial9.Lib.Run
import Dial9.Lib.Updates
import Dial9.SelfProfile.Liveset
import Mathlib.Data.List.Nodup
import Mathlib.Data.Nat.Basic
import Mathlib.Order.Basic

namespace Dial9.SelfProfile.Liveset.Profiler

open Dial9.Lib

/-! ## Matching -/

structure Matched (s : Profiler) : Prop where
  /-- An event has the values of the allocation that was freed. -/
  values : ∀ e ∈ s.events, s.address e.freed = e.addr ∧
    s.samples e.freed = some ⟨e.size, e.allocTimestamp⟩
  /-- No allocation has two events. -/
  once : (s.events.map FreeEvent.freed).Nodup
  /-- A free that removes a live allocation's entry is its own. -/
  kept : ∀ r ∈ s.removals, r.live = true → r.removed = r.freed

/-- A lookup finds no entry of an earlier allocation: the freed one got into the liveset
itself, or there is no entry, or one of later than the free. Between the consolidator's
two lookups, the address is not recorded again. -/
def Clean (s : Profiler) : Event → Prop
  | .take c => ∀ addr purpose block, s.calls c = .taking addr purpose →
      s.blocks addr = some block → s.recorded block.alloc = true ∨ s.liveset addr = none
  | .handle => ∀ free entry, s.consolidator = .handling free → free.shutdown = true →
      s.liveset free.addr = some entry →
        s.recorded free.freed = true ∨ free.timestamp ≤ entry.value.timestamp
  | .remove => ∀ free entry entry', s.consolidator = .removing free entry →
      s.liveset free.addr = some entry' → entry' = entry
  | _ => True

/-! ## Allocations and entries -/

/-- The block of an address is of the last allocation there, and its entry of the last
one that was recorded. -/
structure Ordered (s : Profiler) : Prop where
  unborn : ∀ a, s.nextAlloc ≤ a → s.samples a = none ∧ s.recorded a = false
  block : ∀ addr block, s.blocks addr = some block → block.alloc < s.nextAlloc ∧
    s.address block.alloc = addr ∧ ∀ a < s.nextAlloc, s.address a = addr → a ≤ block.alloc
  entry : ∀ addr entry, s.liveset addr = some entry → entry.alloc < s.nextAlloc ∧
    s.address entry.alloc = addr ∧ s.samples entry.alloc = some entry.value ∧
      ∀ a, s.recorded a = true → s.address a = addr → a ≤ entry.alloc

/-- The record of a free is of the freed allocation, and what is sampled at its address
later is not older. -/
structure FreeOk (s : Profiler) (f : RawFree) : Prop where
  born : f.freed < s.nextAlloc
  address : s.address f.freed = f.addr
  past : f.timestamp ≤ s.clock
  values : f.shutdown = false → s.samples f.freed = some ⟨f.size, f.allocTimestamp⟩
  later : ∀ a value, f.freed < a → s.address a = f.addr → s.samples a = some value →
    f.timestamp ≤ value.timestamp

/-- What time changes: allocations and samples are added, at later times. -/
structure Grows (s next : Profiler) : Prop where
  clock : s.clock ≤ next.clock
  born : s.nextAlloc ≤ next.nextAlloc
  address : ∀ a < s.nextAlloc, next.address a = s.address a
  kept : ∀ a value, s.samples a = some value → next.samples a = some value
  fresh : ∀ a value, s.samples a = none → next.samples a = some value → s.clock ≤ value.timestamp

/-- Where the record of an allocation's free is. -/
inductive Stage where
  | unfreed
  | held (call : Nat)
  | queued
  | taken
  | done

variable {s next : Profiler} {stage stage' : Nat → Stage} {capacity c c' addr alloc : Nat}
  {f : RawFree} {call : Call} {a timestamp clock tid : Nat} {block : Block}
  {taken : Option Entry} {purpose : Purpose} {new : Option (Nat × Nat × Nat)}
  {consolidator : Consolidator}

theorem Ordered.born (h : Ordered s) {value : Sample} (hsample : s.samples a = some value) :
    a < s.nextAlloc := by
  by_contra hle
  rw [(h.unborn a (not_lt.mp hle)).1] at hsample
  cases hsample

theorem Ordered.lt_of_recorded (h : Ordered s) (hrecorded : s.recorded a = true) :
    a < s.nextAlloc := by
  by_contra hle
  rw [(h.unborn a (not_lt.mp hle)).2] at hrecorded
  cases hrecorded

theorem FreeOk.mono (h : FreeOk s f) (hordered : Ordered s) (hgrows : Grows s next) :
    FreeOk next f where
  born := lt_of_lt_of_le h.born hgrows.born
  address := (hgrows.address _ h.born).trans h.address
  past := h.past.trans hgrows.clock
  values := fun hshutdown => hgrows.kept _ _ (h.values hshutdown)
  later := by
    intro a value hlt haddress hsample
    cases hold : s.samples a with
    | none => exact h.past.trans (hgrows.fresh a value hold hsample)
    | some value' =>
      obtain rfl : value' = value := by
        have hkept := hgrows.kept a value' hold
        rw [hsample] at hkept
        exact (Option.some.inj hkept).symm
      have haddress' := (hgrows.address a (hordered.born hold)).symm.trans haddress
      exact h.later a value' hlt haddress' hold

/-- The block of the address is the call's to work on. -/
def Holds (s : Profiler) (stage : Nat → Stage) (c addr alloc : Nat) : Prop :=
  s.blocks addr = some ⟨alloc, some c⟩ ∧ stage alloc = .unfreed

/-- What was taken from the liveset for a block is its allocation's. -/
def Own (s : Profiler) (alloc : Nat) (taken : Option Entry) : Prop :=
  ∀ entry, taken = some entry → entry.alloc = alloc ∧ s.samples alloc = some entry.value

def Purpose.Past (clock : Nat) : Purpose → Prop
  | .dealloc => True
  | .realloc _ timestamp => timestamp ≤ clock

def CallOk (s : Profiler) (stage : Nat → Stage) (c : Nat) : Call → Prop
  | .idle => True
  | .allocated alloc addr _ => s.Holds stage c addr alloc ∧ s.samples alloc = none
  | .inserting alloc addr value | .overwriting alloc addr value =>
    s.Holds stage c addr alloc ∧ s.samples alloc = some value
  | .freeing addr purpose | .taking addr purpose =>
    ∃ alloc, s.Holds stage c addr alloc ∧ Purpose.Past s.clock purpose
  | .stamping addr taken => ∃ alloc, s.Holds stage c addr alloc ∧ s.Own alloc taken
  | .reallocating addr _ timestamp taken _ =>
    ∃ alloc, s.Holds stage c addr alloc ∧ s.Own alloc taken ∧ timestamp ≤ s.clock
  | .restoring addr entry => ∃ alloc, s.Holds stage c addr alloc ∧ s.Own alloc (some entry)
  | .pushing f new =>
    s.FreeOk f ∧ stage f.freed = .held c ∧
      match new with
      | none => s.blocks f.addr = some ⟨f.freed, some c⟩
      | some (alloc, addr, _) => s.Holds stage c addr alloc ∧ s.samples alloc = none
  | .releasing addr => ∃ alloc, s.blocks addr = some ⟨alloc, some c⟩

theorem Own.mono (h : s.Own alloc taken) (hgrows : Grows s next) : next.Own alloc taken := by
  intro entry htaken
  rcases h entry htaken with ⟨hentry, hsample⟩
  exact ⟨hentry, hgrows.kept _ _ hsample⟩

theorem Purpose.Past.mono {clock clock' : Nat} (h : Purpose.Past clock purpose)
    (hle : clock ≤ clock') : Purpose.Past clock' purpose := by
  cases purpose with
  | dealloc => trivial
  | realloc newSize timestamp => exact le_trans h hle

theorem CallOk.mono (h : s.CallOk stage c call) (hordered : Ordered s) (hgrows : Grows s next)
    (hblocks : ∀ addr alloc, s.blocks addr = some ⟨alloc, some c⟩ →
      next.blocks addr = some ⟨alloc, some c⟩ ∧ next.samples alloc = s.samples alloc ∧
        (stage alloc = .unfreed → stage' alloc = .unfreed))
    (hheld : ∀ f new, call = .pushing f new → stage' f.freed = stage f.freed) :
    next.CallOk stage' c call := by
  have hholds : ∀ addr alloc, s.Holds stage c addr alloc → next.Holds stage' c addr alloc := by
    rintro addr alloc ⟨hblock, hstage⟩
    rcases hblocks addr alloc hblock with ⟨hblock', -, hstage'⟩
    exact ⟨hblock', hstage' hstage⟩
  cases call with
  | idle => trivial
  | allocated alloc addr size =>
    rcases h with ⟨hold, hnone⟩
    exact ⟨hholds _ _ hold, (hblocks _ _ hold.1).2.1.trans hnone⟩
  | inserting alloc addr value | overwriting alloc addr value =>
    exact ⟨hholds _ _ h.1, hgrows.kept _ _ h.2⟩
  | freeing addr purpose | taking addr purpose =>
    rcases h with ⟨alloc, hold, hpast⟩
    exact ⟨alloc, hholds _ _ hold, hpast.mono hgrows.clock⟩
  | stamping addr taken =>
    rcases h with ⟨alloc, hold, hown⟩
    exact ⟨alloc, hholds _ _ hold, hown.mono hgrows⟩
  | reallocating addr newSize timestamp taken shutdown =>
    rcases h with ⟨alloc, hold, hown, hpast⟩
    exact ⟨alloc, hholds _ _ hold, hown.mono hgrows, hpast.trans hgrows.clock⟩
  | restoring addr entry =>
    rcases h with ⟨alloc, hold, hown⟩
    exact ⟨alloc, hholds _ _ hold, hown.mono hgrows⟩
  | pushing f new =>
    rcases h with ⟨hok, hstage, hnew⟩
    refine ⟨hok.mono hordered hgrows, (hheld f new rfl).trans hstage, ?_⟩
    cases new with
    | none => exact (hblocks _ _ hnew).1
    | some block => exact ⟨hholds _ _ hnew.1, (hblocks _ _ hnew.1.1).2.1.trans hnew.2⟩
  | releasing addr =>
    rcases h with ⟨alloc, hblock⟩
    exact ⟨alloc, (hblocks _ _ hblock).1⟩

/-! ## The invariant -/

/-- The record that the consolidator is at. -/
def ConsolidatorOk (s : Profiler) (stage : Nat → Stage) : Consolidator → Prop
  | .idle => True
  | .handling f => s.FreeOk f ∧ stage f.freed = .taken
  | .removing f entry => s.FreeOk f ∧ stage f.freed = .taken ∧ s.Own f.freed (some entry)

structure Sound (s : Profiler) (stage : Nat → Stage) : Prop where
  ordered : s.Ordered
  calls : ∀ c, s.CallOk stage c (s.calls c)
  /-- Blocks that no call is at work on are not freed. -/
  live : ∀ addr alloc, s.blocks addr = some ⟨alloc, none⟩ → stage alloc = .unfreed
  unborn : ∀ a, s.nextAlloc ≤ a → stage a = .unfreed
  queue : ∀ f ∈ s.freeQueue, s.FreeOk f ∧ stage f.freed = .queued
  queueOnce : (s.freeQueue.map RawFree.freed).Nodup
  consolidator : s.ConsolidatorOk stage s.consolidator
  events : ∀ e ∈ s.events, e.freed < s.nextAlloc ∧ stage e.freed = .done ∧
    s.address e.freed = e.addr ∧ s.samples e.freed = some ⟨e.size, e.allocTimestamp⟩
  once : (s.events.map FreeEvent.freed).Nodup
  kept : ∀ r ∈ s.removals, r.removed = r.freed

theorem Sound.matched (h : Sound s stage) : Matched s where
  values := fun e he => (h.events e he).2.2
  once := h.once
  kept := fun r hr _ => h.kept r hr

theorem sound_empty : Sound empty fun _ => .unfreed where
  ordered := ⟨fun _ _ => ⟨rfl, rfl⟩, nofun, nofun⟩
  calls := fun _ => trivial
  live := nofun
  unborn := fun _ _ => rfl
  queue := nofun
  queueOnce := List.nodup_nil
  consolidator := trivial
  events := nofun
  once := List.nodup_nil
  kept := nofun

/-- What a step of a call leaves alone. -/
structure Frame (s next : Profiler) (stage stage' : Nat → Stage) (c : Nat) : Prop where
  grows : Grows s next
  held : ∀ addr alloc c', c' ≠ c → s.blocks addr = some ⟨alloc, some c'⟩ →
    next.blocks addr = some ⟨alloc, some c'⟩ ∧ next.samples alloc = s.samples alloc ∧
      (stage alloc = .unfreed → stage' alloc = .unfreed)
  live : ∀ addr alloc, next.blocks addr = some ⟨alloc, none⟩ →
    (s.blocks addr = some ⟨alloc, none⟩ ∧ stage' alloc = stage alloc) ∨ stage' alloc = .unfreed
  stages : ∀ a, stage a ≠ .unfreed → stage' a = stage a
  unborn : ∀ a, next.nextAlloc ≤ a → stage' a = stage a
  freeQueue : next.freeQueue = s.freeQueue
  consolidator : next.consolidator = s.consolidator
  events : next.events = s.events

theorem Sound.callStep (h : Sound s stage) (hframe : Frame s next stage stage' c)
    (hordered : next.Ordered) (hcalls : next.calls = Function.update s.calls c call)
    (hcall : next.CallOk stage' c call) (hkept : ∀ r ∈ next.removals, r.removed = r.freed) :
    Sound next stage' where
  ordered := hordered
  calls := by
    intro c'
    rw [hcalls, Function.update_apply]
    by_cases heq : c' = c
    · rw [if_pos heq, heq]
      exact hcall
    · rw [if_neg heq]
      refine (h.calls c').mono h.ordered hframe.grows ?_ ?_
      · intro addr alloc
        exact hframe.held addr alloc c' heq
      · intro f new hpushing
        have hold := h.calls c'
        rw [hpushing] at hold
        apply hframe.stages
        rw [hold.2.1]
        exact nofun
  live := by
    intro addr alloc hblock
    rcases hframe.live addr alloc hblock with ⟨hold, hstage⟩ | hnew
    · exact hstage.trans (h.live addr alloc hold)
    · exact hnew
  unborn := fun a hle => (hframe.unborn a hle).trans (h.unborn a (hframe.grows.born.trans hle))
  queue := by
    intro f hf
    rw [hframe.freeQueue] at hf
    rcases h.queue f hf with ⟨hok, hstage⟩
    refine ⟨hok.mono h.ordered hframe.grows, (hframe.stages _ ?_).trans hstage⟩
    rw [hstage]
    exact nofun
  queueOnce := by
    rw [hframe.freeQueue]
    exact h.queueOnce
  consolidator := by
    rw [hframe.consolidator]
    have hold := h.consolidator
    cases hat : s.consolidator with
    | idle => trivial
    | handling f =>
      rw [hat] at hold
      rcases hold with ⟨hok, hstage⟩
      refine ⟨hok.mono h.ordered hframe.grows, (hframe.stages _ ?_).trans hstage⟩
      rw [hstage]
      exact nofun
    | removing f entry =>
      rw [hat] at hold
      rcases hold with ⟨hok, hstage, hown⟩
      refine ⟨hok.mono h.ordered hframe.grows, (hframe.stages _ ?_).trans hstage,
        hown.mono hframe.grows⟩
      rw [hstage]
      exact nofun
  events := by
    intro e he
    rw [hframe.events] at he
    rcases h.events e he with ⟨hborn, hstage, haddress, hsample⟩
    refine ⟨lt_of_lt_of_le hborn hframe.grows.born, (hframe.stages _ ?_).trans hstage,
      (hframe.grows.address _ hborn).trans haddress, hframe.grows.kept _ _ hsample⟩
    rw [hstage]
    exact nofun
  once := by
    rw [hframe.events]
    exact h.once
  kept := hkept

/-! ## Steps of a call -/

theorem Grows.of_same (hclock : next.clock = s.clock) (hborn : next.nextAlloc = s.nextAlloc)
    (haddress : next.address = s.address) (hsamples : next.samples = s.samples) :
    Grows s next where
  clock := hclock.ge
  born := hborn.ge
  address := fun a _ => congrFun haddress a
  kept := fun a value hsample => (congrFun hsamples a).trans hsample
  fresh := by
    intro a value hnone hsome
    rw [hsamples, hnone] at hsome
    cases hsome

theorem Sound.setCall (h : Sound s stage) (hcall : s.CallOk stage c call) :
    Sound (s.setCall c call) stage := by
  have hgrows : Grows s (s.setCall c call) := .of_same rfl rfl rfl rfl
  refine h.callStep
    { grows := hgrows
      held := fun _ _ _ _ hblock => ⟨hblock, rfl, id⟩
      live := fun _ _ hblock => .inl ⟨hblock, rfl⟩
      stages := fun _ _ => rfl
      unborn := fun _ _ => rfl
      freeQueue := rfl
      consolidator := rfl
      events := rfl }
    { h.ordered with } rfl ?_ h.kept
  exact hcall.mono h.ordered hgrows (fun _ _ hblock => ⟨hblock, rfl, id⟩) fun _ _ _ => rfl

theorem ne_addr {other a : Nat} (h : s.blocks addr = some ⟨alloc, some c⟩) (hne : c' ≠ c)
    (hother : s.blocks other = some ⟨a, some c'⟩) : other ≠ addr := by
  rintro rfl
  rw [h] at hother
  cases hother
  exact hne rfl

theorem Sound.finish (h : Sound s stage) (hold : s.Holds stage c addr alloc) :
    Sound (s.finish c addr alloc) stage := by
  refine @Sound.callStep _ _ _ _ _ .idle h
    { grows := .of_same rfl rfl rfl rfl
      held := fun other a c' hne hblock =>
        ⟨(Function.update_of_ne (ne_addr hold.1 hne hblock) _ _).trans hblock, rfl, id⟩
      live := ?_
      stages := fun _ _ => rfl
      unborn := fun _ _ => rfl
      freeQueue := rfl
      consolidator := rfl
      events := rfl }
    ⟨h.ordered.unborn, ?_, h.ordered.entry⟩ rfl trivial h.kept
  · intro other a hblock
    rcases updated_eq_iff.mp hblock with ⟨rfl, ⟨⟩⟩ | ⟨-, hother⟩
    · exact .inr hold.2
    · exact .inl ⟨hother, rfl⟩
  · intro other block hblock
    rcases updated_eq_iff.mp hblock with ⟨rfl, ⟨⟩⟩ | ⟨-, hother⟩
    · exact h.ordered.block other ⟨alloc, some c⟩ hold.1
    · exact h.ordered.block other block hother

theorem Ordered.put (h : Ordered s) {entry : Entry} {recorded : Nat → Bool}
    (hblock : s.blocks addr = some block) (hentry : entry.alloc = block.alloc)
    (hsample : s.samples block.alloc = some entry.value)
    (hrecorded : ∀ a, recorded a = true → s.recorded a = true ∨ a = block.alloc) :
    Ordered
      { s with liveset := Function.update s.liveset addr (some entry), recorded := recorded } := by
  rcases h.block addr block hblock with ⟨hborn, haddress, hlast⟩
  have hborn' : ∀ a, recorded a = true → a < s.nextAlloc := by
    intro a htrue
    rcases hrecorded a htrue with hold | rfl
    · exact h.lt_of_recorded hold
    · exact hborn
  refine ⟨fun a hle => ⟨(h.unborn a hle).1, ?_⟩, h.block, ?_⟩
  · exact Bool.eq_false_iff.mpr fun htrue => absurd (hborn' a htrue) (not_lt.mpr hle)
  intro other entry' hentry'
  rcases updated_eq_iff.mp hentry' with ⟨rfl, ⟨⟩⟩ | ⟨hne, hold⟩
  · rw [hentry]
    refine ⟨hborn, haddress, hsample, ?_⟩
    intro a htrue haddress'
    exact hlast a (hborn' a htrue) haddress'
  · rcases h.entry other entry' hold with ⟨hborn', haddress', hsample', hlast'⟩
    refine ⟨hborn', haddress', hsample', ?_⟩
    intro a htrue haddress''
    rcases hrecorded a htrue with hold' | rfl
    · exact hlast' a hold' haddress''
    · exact absurd (haddress''.symm.trans haddress) hne

section

variable (h : Sound s stage)
include h

theorem Sound.liveset {liveset : Nat → Option Entry} {recorded : Nat → Bool}
    {removals : List Removal}
    (hordered : Ordered { s with liveset := liveset, recorded := recorded })
    (hkept : ∀ r ∈ removals, r.removed = r.freed) :
    Sound { s with liveset := liveset, recorded := recorded, removals := removals } stage := by
  have hgrows :
      Grows s { s with liveset := liveset, recorded := recorded, removals := removals } :=
    .of_same rfl rfl rfl rfl
  refine @Sound.callStep _ _ _ _ 0 (s.calls 0) h
    { grows := hgrows
      held := fun _ _ _ _ hblock => ⟨hblock, rfl, id⟩
      live := fun _ _ hblock => .inl ⟨hblock, rfl⟩
      stages := fun _ _ => rfl
      unborn := fun _ _ => rfl
      freeQueue := rfl
      consolidator := rfl
      events := rfl }
    { hordered with } (Function.update_eq_self 0 s.calls).symm ?_
    hkept
  exact (h.calls 0).mono h.ordered hgrows (fun _ _ hblock => ⟨hblock, rfl, id⟩) fun _ _ _ => rfl

theorem Sound.setEntry {value : Sample} (hold : s.Holds stage c addr alloc)
    (hsample : s.samples alloc = some value) : Sound (s.setEntry addr alloc value) stage := by
  refine h.liveset (h.ordered.put hold.1 rfl hsample ?_) h.kept
  intro a htrue
  by_cases heq : a = alloc
  · exact .inr heq
  · exact .inl ((Function.update_of_ne heq _ _).symm.trans htrue)

theorem Sound.removeEntry {freed : Nat}
    (hclean : ∀ entry, s.liveset addr = some entry → entry.alloc = freed) :
    Sound (s.removeEntry addr freed) stage := by
  unfold Profiler.removeEntry
  cases hentry : s.liveset addr with
  | none => exact h
  | some entry =>
    refine h.liveset ⟨h.ordered.unborn, h.ordered.block, ?_⟩ ?_
    · intro other entry' hentry'
      rcases updated_eq_iff.mp hentry' with ⟨rfl, ⟨⟩⟩ | ⟨-, hold⟩
      exact h.ordered.entry other entry' hold
    · intro r hr
      rcases List.mem_append.mp hr with hold | hnew
      · exact h.kept r hold
      · rw [List.mem_singleton.mp hnew]
        exact hclean entry hentry

theorem Sound.release (hblock : s.blocks addr = some ⟨alloc, some c⟩) :
    Sound { s.setCall c .idle with blocks := Function.update s.blocks addr none } stage := by
  have hblocks : ∀ other block, Function.update s.blocks addr none other = some block →
      s.blocks other = some block := by
    intro other block hother
    rcases updated_eq_iff.mp hother with ⟨rfl, ⟨⟩⟩ | ⟨-, hold⟩
    exact hold
  exact @Sound.callStep _ _ _ _ _ .idle h
    { grows := .of_same rfl rfl rfl rfl
      held := fun other a c' hne hother =>
        ⟨(Function.update_of_ne (ne_addr hblock hne hother) _ _).trans hother, rfl, id⟩
      live := fun other a hother => .inl ⟨hblocks other _ hother, rfl⟩
      stages := fun _ _ => rfl
      unborn := fun _ _ => rfl
      freeQueue := rfl
      consolidator := rfl
      events := rfl }
    ⟨h.ordered.unborn, fun other block hother => h.ordered.block other block (hblocks _ _ hother),
      h.ordered.entry⟩ rfl trivial h.kept

end

theorem Ordered.acquire (h : Ordered s) (c addr : Nat) : Ordered (s.acquire c addr) := by
  have haddress : ∀ a < s.nextAlloc, Function.update s.address s.nextAlloc addr a = s.address a :=
    fun a hlt => Function.update_of_ne hlt.ne _ _
  refine ⟨fun a hle => h.unborn a ((Nat.le_succ _).trans hle), ?_, ?_⟩
  · intro other block hblock
    rcases updated_eq_iff.mp hblock with ⟨rfl, ⟨⟩⟩ | ⟨heq, hold⟩
    · exact ⟨Nat.lt_succ_self _, Function.update_self _ _ _, fun a hlt _ => Nat.le_of_lt_succ hlt⟩
    · rcases h.block other block hold with ⟨hborn, haddress', hlast⟩
      refine ⟨Nat.lt_succ_of_lt hborn, (haddress _ hborn).trans haddress', ?_⟩
      intro a hlt hother
      rcases Nat.lt_succ_iff_lt_or_eq.mp hlt with hold | rfl
      · exact hlast a hold ((haddress a hold).symm.trans hother)
      · exact absurd ((Function.update_self _ _ _).symm.trans hother) (Ne.symm heq)
  · intro other entry hentry
    rcases h.entry other entry hentry with ⟨hborn, haddress', hsample, hlast⟩
    refine ⟨Nat.lt_succ_of_lt hborn, (haddress _ hborn).trans haddress', hsample, ?_⟩
    intro a htrue hother
    have hborn' := h.lt_of_recorded htrue
    exact hlast a htrue ((haddress a hborn').symm.trans hother)

theorem Grows.of_acquire (hclock : next.clock = s.clock) (hborn : next.nextAlloc = s.nextAlloc + 1)
    (haddress : next.address = Function.update s.address s.nextAlloc addr)
    (hsamples : next.samples = s.samples) : Grows s next where
  clock := hclock.ge
  born := hborn ▸ Nat.le_succ _
  address := fun a hlt => (congrFun haddress a).trans (Function.update_of_ne hlt.ne _ _)
  kept := fun a value hsample => (congrFun hsamples a).trans hsample
  fresh := by
    intro a value hnone hsome
    rw [hsamples, hnone] at hsome
    cases hsome

section

variable (h : Sound s stage)
include h

theorem Sound.acquire (hfree : s.blocks addr = none)
    (hcall : (s.acquire c addr).CallOk stage c call) :
    Sound ((s.acquire c addr).setCall c call) stage := by
  have hgrows : Grows s ((s.acquire c addr).setCall c call) := .of_acquire rfl rfl rfl rfl
  have hordered := h.ordered.acquire c addr
  have hne : ∀ other block, s.blocks other = some block → other ≠ addr := by
    rintro other block hother rfl
    rw [hfree] at hother
    cases hother
  refine h.callStep
    { grows := hgrows
      held := fun other a c' _ hother =>
        ⟨(Function.update_of_ne (hne other _ hother) _ _).trans hother, rfl, id⟩
      live := ?_
      stages := fun _ _ => rfl
      unborn := fun _ _ => rfl
      freeQueue := rfl
      consolidator := rfl
      events := rfl }
    { hordered with } rfl ?_ h.kept
  · intro other a hother
    rcases updated_eq_iff.mp hother with ⟨rfl, ⟨⟩⟩ | ⟨-, hold⟩
    exact .inl ⟨hold, rfl⟩
  · exact hcall.mono hordered (.of_same rfl rfl rfl rfl) (fun _ _ hblock => ⟨hblock, rfl, id⟩)
      fun _ _ _ => rfl

theorem Sound.holds_acquire (c addr : Nat) :
    (s.acquire c addr).Holds stage c addr s.nextAlloc ∧
      (s.acquire c addr).samples s.nextAlloc = none :=
  ⟨⟨Function.update_self _ _ _, h.unborn _ le_rfl⟩, (h.ordered.unborn _ le_rfl).1⟩

theorem Sound.sample {size timestamp : Nat}
    (hold : s.Holds stage c addr alloc) (hnone : s.samples alloc = none)
    (hclock : s.clock ≤ timestamp) :
    Sound
      { s.setCall c (.inserting alloc addr ⟨size, timestamp⟩) with
        clock := timestamp
        samples := Function.update s.samples alloc (some ⟨size, timestamp⟩) } stage := by
  have hborn := (h.ordered.block addr _ hold.1).1
  have hkeep : ∀ a value, s.samples a = some value →
      Function.update s.samples alloc (some ⟨size, timestamp⟩) a = some value := by
    intro a value hsample
    have hne : a ≠ alloc := by
      rintro rfl
      rw [hnone] at hsample
      cases hsample
    exact (Function.update_of_ne hne _ _).trans hsample
  refine h.callStep
    { grows :=
        { clock := hclock
          born := le_rfl
          address := fun _ _ => rfl
          kept := hkeep
          fresh := ?_ }
      held := ?_
      live := fun _ _ hblock => .inl ⟨hblock, rfl⟩
      stages := fun _ _ => rfl
      unborn := fun _ _ => rfl
      freeQueue := rfl
      consolidator := rfl
      events := rfl }
    ⟨?_, h.ordered.block, ?_⟩ rfl ⟨hold, Function.update_self _ _ _⟩ h.kept
  · intro a value hnone' hsome
    rcases updated_eq_iff.mp hsome with ⟨rfl, ⟨⟩⟩ | ⟨-, hold⟩
    · exact hclock
    · cases hnone'.symm.trans hold
  · intro other a c' hne hblock
    have hneq : a ≠ alloc := by
      rintro rfl
      have haddress := (h.ordered.block other _ hblock).2.1
      have haddress' := (h.ordered.block addr _ hold.1).2.1
      exact ne_addr hold.1 hne hblock (haddress.symm.trans haddress')
    exact ⟨hblock, Function.update_of_ne hneq _ _, id⟩
  · intro a hle
    have hneq : a ≠ alloc := by
      rintro rfl
      exact absurd hborn (not_lt.mpr hle)
    exact ⟨(Function.update_of_ne hneq _ _).trans (h.ordered.unborn a hle).1,
      (h.ordered.unborn a hle).2⟩
  · intro other entry hentry
    rcases h.ordered.entry other entry hentry with ⟨hborn', haddress, hsample, hlast⟩
    exact ⟨hborn', haddress, hkeep _ _ hsample, hlast⟩

theorem Sound.take
    (hblock : s.blocks addr = some ⟨alloc, none⟩) (hclock : s.clock ≤ timestamp)
    (hpast : Purpose.Past timestamp purpose) :
    Sound
      { s.setCall c (.freeing addr purpose) with
        clock := timestamp
        blocks := Function.update s.blocks addr (some ⟨alloc, some c⟩) } stage := by
  have hself : Function.update s.blocks addr (some ⟨alloc, some c⟩) addr = some ⟨alloc, some c⟩ :=
    Function.update_self _ _ _
  refine h.callStep
    { grows := ⟨hclock, le_rfl, fun _ _ => rfl, fun _ _ => id, ?_⟩
      held := ?_
      live := ?_
      stages := fun _ _ => rfl
      unborn := fun _ _ => rfl
      freeQueue := rfl
      consolidator := rfl
      events := rfl }
    ⟨h.ordered.unborn, ?_, h.ordered.entry⟩ rfl ⟨alloc, ⟨hself, h.live addr alloc hblock⟩, hpast⟩
    h.kept
  · intro a value hnone hsome
    have hnone' : s.samples a = some value := hsome
    rw [hnone] at hnone'
    cases hnone'
  · intro other a c' hne hother
    have hneq : other ≠ addr := by
      rintro rfl
      rw [hblock] at hother
      cases hother
    exact ⟨(Function.update_of_ne hneq _ _).trans hother, rfl, id⟩
  · intro other a hother
    rcases updated_eq_iff.mp hother with ⟨rfl, ⟨⟩⟩ | ⟨-, hold⟩
    exact .inl ⟨hold, rfl⟩
  · intro other block hother
    rcases updated_eq_iff.mp hother with ⟨rfl, ⟨⟩⟩ | ⟨-, hold⟩
    · exact h.ordered.block other ⟨alloc, none⟩ hblock
    · exact h.ordered.block other block hold

end

/-! ## Records of frees -/

theorem Ordered.unsampled_later (h : Ordered s)
    (hblock : s.blocks addr = some block) (hlt : block.alloc < a) (haddress : s.address a = addr) :
    s.samples a = none := by
  by_contra hsome
  rcases Option.ne_none_iff_exists'.mp hsome with ⟨value, hsample⟩
  have hle := (h.block addr block hblock).2.2 a (h.born hsample) haddress
  exact absurd hlt (not_lt.mpr hle)

theorem freeOk_rawFree {tid timestamp freed : Nat} {shutdown : Bool} (hborn : freed < s.nextAlloc)
    (haddress : s.address freed = addr) (hpast : timestamp ≤ s.clock) (hown : s.Own freed taken)
    (htaken : shutdown = false → taken ≠ none)
    (hlater : ∀ a, freed < a → s.address a = addr → s.samples a = none) :
    s.FreeOk (rawFree tid addr timestamp freed taken shutdown) where
  born := hborn
  address := haddress
  past := hpast
  values := by
    intro hshutdown
    rcases Option.ne_none_iff_exists'.mp (htaken hshutdown) with ⟨entry, rfl⟩
    exact (hown entry rfl).2
  later := by
    intro a value hlt haddress' hsample
    rw [hlater a hlt haddress'] at hsample
    cases hsample

theorem Sound.record (h : Sound s stage) (hclock : s.clock ≤ clock)
    (hok : FreeOk { s with clock := clock } f) (hstage : stage f.freed = .unfreed)
    (hblocks : ∀ addr block, s.blocks addr = some block → block.alloc = f.freed →
      block.call = some c) (hnew : match new with
      | none => s.blocks f.addr = some ⟨f.freed, some c⟩
      | some (alloc, addr, _) =>
        s.Holds stage c addr alloc ∧ s.samples alloc = none ∧ alloc ≠ f.freed) :
    Sound { s.setCall c (.pushing f new) with clock := clock }
      (Function.update stage f.freed (.held c)) := by
  have hgrows :
      Grows { s with clock := clock } { s.setCall c (.pushing f new) with clock := clock } :=
    .of_same rfl rfl rfl rfl
  have hsame : ∀ a, a ≠ f.freed → Function.update stage f.freed (.held c) a = stage a :=
    fun a hne => Function.update_of_ne hne _ _
  refine h.callStep
    { grows := ⟨hclock, le_rfl, fun _ _ => rfl, fun _ _ => id, ?_⟩
      held := ?_
      live := ?_
      stages := ?_
      unborn := ?_
      freeQueue := rfl
      consolidator := rfl
      events := rfl }
    { h.ordered with } rfl ⟨?_, Function.update_self _ _ _, ?_⟩
    h.kept
  · intro a value hnone hsome
    have hnone' : s.samples a = some value := hsome
    rw [hnone] at hnone'
    cases hnone'
  · intro addr a c' hne hblock
    have hneq : a ≠ f.freed := fun heq => hne (Option.some.inj (hblocks addr _ hblock heq))
    exact ⟨hblock, rfl, fun hunfreed => (hsame a hneq).trans hunfreed⟩
  · intro addr a hblock
    have hneq : a ≠ f.freed := fun heq => Option.some_ne_none c (hblocks addr _ hblock heq).symm
    exact .inl ⟨hblock, hsame a hneq⟩
  · intro a hne
    exact hsame a fun heq => hne (heq ▸ hstage)
  · intro a hle
    exact hsame a fun heq => absurd hok.born (not_lt.mpr (heq ▸ hle))
  · exact hok.mono { h.ordered with } hgrows
  · cases new with
    | none => exact hnew
    | some block => exact ⟨⟨hnew.1.1, (hsame _ hnew.2.2).trans hnew.1.2⟩, hnew.2.1⟩

theorem Sound.move (h : Sound s stage) {freeQueue : List RawFree} {droppedFrees : Nat}
    {events : List FreeEvent} (hunfreed : ∀ a, stage a = .unfreed → stage' a = .unfreed)
    (hheld : ∀ c g new, s.calls c = .pushing g new → stage' g.freed = stage g.freed)
    (hqueue : ∀ g ∈ freeQueue, s.FreeOk g ∧ stage' g.freed = .queued)
    (hqueueOnce : (freeQueue.map RawFree.freed).Nodup)
    (hconsolidator : s.ConsolidatorOk stage' consolidator)
    (hevents : ∀ e ∈ events, e.freed < s.nextAlloc ∧ stage' e.freed = .done ∧
      s.address e.freed = e.addr ∧ s.samples e.freed = some ⟨e.size, e.allocTimestamp⟩)
    (honce : (events.map FreeEvent.freed).Nodup) :
    Sound
      { s with
        consolidator := consolidator
        freeQueue := freeQueue
        droppedFrees := droppedFrees
        events := events } stage' := by
  have hgrows : Grows s
      { s with
        consolidator := consolidator
        freeQueue := freeQueue
        droppedFrees := droppedFrees
        events := events } := .of_same rfl rfl rfl rfl
  refine ⟨{ h.ordered with }, ?_, ?_, ?_, ?_, hqueueOnce, ?_,
    hevents, honce, h.kept⟩
  · intro c
    exact (h.calls c).mono h.ordered hgrows (fun _ a hblock => ⟨hblock, rfl, hunfreed a⟩) (hheld c)
  · exact fun addr a hblock => hunfreed a (h.live addr a hblock)
  · exact fun a hle => hunfreed a (h.unborn a hle)
  · intro g hg
    rcases hqueue g hg with ⟨hok, hstage⟩
    exact ⟨hok.mono h.ordered hgrows, hstage⟩
  · cases consolidator with
    | idle => trivial
    | handling f => exact ⟨hconsolidator.1.mono h.ordered hgrows, hconsolidator.2⟩
    | removing f entry =>
      exact ⟨hconsolidator.1.mono h.ordered hgrows, hconsolidator.2.1,
        hconsolidator.2.2.mono hgrows⟩

theorem update_stage {a b : Nat} {old new : Stage} (hstage : stage a = old) (hne : stage b ≠ old) :
    Function.update stage a new b = stage b := by
  apply Function.update_of_ne
  rintro rfl
  exact hne hstage

theorem ConsolidatorOk.restage (h : s.ConsolidatorOk stage consolidator)
    (hstages : ∀ a, stage a = .taken → stage' a = stage a) :
    s.ConsolidatorOk stage' consolidator := by
  cases consolidator with
  | idle => trivial
  | handling f => exact ⟨h.1, (hstages _ h.2).trans h.2⟩
  | removing f entry => exact ⟨h.1, (hstages _ h.2.1).trans h.2.1, h.2.2⟩

section

variable (h : Sound s stage)
include h

theorem Sound.push (hcall : s.calls c = .pushing f new) :
    ∃ stage', Sound ((pushFree capacity s f).setCall c (pushed f new)) stage' := by
  have hpushing := h.calls c
  rw [hcall] at hpushing
  rcases hpushing with ⟨hok, hstage, hnew⟩
  have hnext : s.CallOk stage c (pushed f new) := by
    cases new with
    | none => exact ⟨_, hnew⟩
    | some block => exact hnew
  have hmoved := h.setCall hnext
  unfold pushFree
  by_cases hroom : s.freeQueue.length < capacity
  · rw [if_pos hroom]
    have hkeep : ∀ a old, stage a = old → old ≠ .held c →
        Function.update stage f.freed .queued a = old := by
      rintro a old rfl hne
      exact update_stage hstage hne
    refine ⟨Function.update stage f.freed .queued, hmoved.move ?_ ?_ ?_ ?_ ?_ ?_ h.once⟩
    · intro a hunfreed
      exact hkeep a _ hunfreed nofun
    · intro c' g new' hpushing'
      by_cases heq : c' = c
      · subst heq
        have hself : (s.setCall c' (pushed f new)).calls c' = pushed f new :=
          Function.update_self _ _ _
        rw [hself] at hpushing'
        cases new with
        | none | some _ => cases hpushing'
      · have hheld := hmoved.calls c'
        rw [hpushing'] at hheld
        rw [hheld.2.1]
        exact hkeep _ _ hheld.2.1 fun hheld' => heq (Stage.held.inj hheld')
    · intro g hg
      rcases List.mem_append.mp hg with hold | hlast
      · rcases hmoved.queue g hold with ⟨hok', hqueued⟩
        exact ⟨hok', hkeep _ _ hqueued nofun⟩
      · rw [List.mem_singleton.mp hlast]
        exact ⟨hok.mono h.ordered (.of_same rfl rfl rfl rfl), Function.update_self _ _ _⟩
    · have hfresh : f.freed ∉ s.freeQueue.map RawFree.freed := by
        intro hmem
        rcases List.mem_map.mp hmem with ⟨g, hg, heq⟩
        have hqueued := (h.queue g hg).2
        rw [heq, hstage] at hqueued
        cases hqueued
      rw [List.map_append]
      exact List.nodup_append.mpr ⟨h.queueOnce, List.nodup_singleton _, by
        intro a ha b hb heq
        rw [List.mem_singleton.mp hb] at heq
        exact hfresh (heq ▸ ha)⟩
    · apply hmoved.consolidator.restage
      intro a htaken
      rw [htaken]
      exact hkeep a _ htaken nofun
    · intro e he
      rcases hmoved.events e he with ⟨hborn, hdone, hrest⟩
      exact ⟨hborn, hkeep _ _ hdone nofun, hrest⟩
  · rw [if_neg hroom]
    exact ⟨stage, hmoved.move (fun _ => id) (fun _ _ _ _ => rfl) hmoved.queue h.queueOnce
      hmoved.consolidator hmoved.events h.once⟩

/-! ## Steps of the consolidator -/

theorem Sound.held_of_pushing (hcall : s.calls c = .pushing f new) : stage f.freed = .held c := by
  have hpushing := h.calls c
  rw [hcall] at hpushing
  exact hpushing.2.1

theorem Sound.pop {rest : List RawFree} (hqueue : s.freeQueue = f :: rest) :
    ∃ stage', Sound { s with consolidator := .handling f, freeQueue := rest } stage' := by
  have hall := h.queue
  have honce := h.queueOnce
  rw [hqueue] at hall honce
  rcases hall f List.mem_cons_self with ⟨hok, hstage⟩
  rcases List.nodup_cons.mp honce with ⟨hfresh, honce'⟩
  have hkeep : ∀ a old, stage a = old → old ≠ .queued →
      Function.update stage f.freed .taken a = old := by
    rintro a old rfl hne
    exact update_stage hstage hne
  refine ⟨Function.update stage f.freed .taken, h.move ?_ ?_ ?_ honce' ?_ ?_ h.once⟩
  · intro a hunfreed
    exact hkeep a _ hunfreed nofun
  · intro c g new hpushing
    have hheld := h.held_of_pushing hpushing
    rw [hheld]
    exact hkeep _ _ hheld nofun
  · intro g hg
    rcases hall g (List.mem_cons_of_mem f hg) with ⟨hok', hqueued⟩
    have hne : g.freed ≠ f.freed := fun heq => hfresh (heq ▸ List.mem_map_of_mem hg)
    exact ⟨hok', (Function.update_of_ne hne _ _).trans hqueued⟩
  · exact ⟨hok, Function.update_self _ _ _⟩
  · intro e he
    rcases h.events e he with ⟨hborn, hdone, hrest⟩
    exact ⟨hborn, hkeep _ _ hdone nofun, hrest⟩

theorem Sound.setConsolidator (hconsolidator : s.ConsolidatorOk stage consolidator) :
    Sound { s with consolidator := consolidator } stage :=
  h.move (fun _ => id) (fun _ _ _ _ => rfl) h.queue h.queueOnce hconsolidator h.events h.once

theorem Sound.emit {size allocTimestamp : Nat} (hok : s.FreeOk f)
    (hstage : stage f.freed = .taken) (hsample : s.samples f.freed = some ⟨size, allocTimestamp⟩) :
    ∃ stage', Sound (s.emit f size allocTimestamp) stage' := by
  have hkeep : ∀ a old, stage a = old → old ≠ .taken →
      Function.update stage f.freed .done a = old := by
    rintro a old rfl hne
    exact update_stage hstage hne
  refine ⟨Function.update stage f.freed .done, h.move ?_ ?_ ?_ h.queueOnce trivial ?_ ?_⟩
  · intro a hunfreed
    exact hkeep a _ hunfreed nofun
  · intro c g new hpushing
    have hheld := h.held_of_pushing hpushing
    rw [hheld]
    exact hkeep _ _ hheld nofun
  · intro g hg
    rcases h.queue g hg with ⟨hok', hqueued⟩
    exact ⟨hok', hkeep _ _ hqueued nofun⟩
  · intro e he
    rcases List.mem_append.mp he with hold | hnew
    · rcases h.events e hold with ⟨hborn, hdone, hrest⟩
      exact ⟨hborn, hkeep _ _ hdone nofun, hrest⟩
    · rw [List.mem_singleton.mp hnew]
      exact ⟨hok.born, Function.update_self _ _ _, hok.address, hsample⟩
  · rw [List.map_append]
    refine List.nodup_append.mpr ⟨h.once, List.nodup_singleton _, ?_⟩
    intro a ha b hb heq
    rw [List.mem_singleton.mp hb] at heq
    rcases List.mem_map.mp ha with ⟨e, he, hfreed⟩
    have hdone := (h.events e he).2.1
    rw [hfreed, heq, show stage (FreeEvent.freed ⟨f.timestamp, f.tid, f.addr, size, allocTimestamp,
      f.freed⟩) = .taken from hstage] at hdone
    cases hdone

/-- An entry that a record finds is of the freed allocation, if that was recorded and
the entry is older than the free. -/
theorem Sound.own_of_recorded {entry : Entry} (hok : s.FreeOk f)
    (hentry : s.liveset f.addr = some entry) (hrecorded : s.recorded f.freed = true)
    (holder : ¬f.timestamp ≤ entry.value.timestamp) : s.Own f.freed (some entry) := by
  rcases h.ordered.entry f.addr entry hentry with ⟨-, haddress, hsample, hlast⟩
  have hle := hlast f.freed hrecorded hok.address
  have heq : entry.alloc = f.freed := by
    by_contra hne
    exact holder (hok.later entry.alloc entry.value (lt_of_le_of_ne hle (Ne.symm hne)) haddress
      hsample)
  rintro entry' ⟨⟩
  exact ⟨heq, heq ▸ hsample⟩

end

theorem Grows.removeEntry (s : Profiler) (addr freed : Nat) :
    Grows s (s.removeEntry addr freed) := by
  unfold Profiler.removeEntry
  cases s.liveset addr with
  | none | some _ => exact .of_same rfl rfl rfl rfl

theorem Sound.stepConsolidator (h : Sound s stage) {event : Event} (hclean : s.Clean event)
    (hstep : s.stepConsolidator event = some next) : ∃ stage', Sound next stage' := by
  have hat := h.consolidator
  cases event with
  | pop =>
    rw [Profiler.stepConsolidator] at hstep
    split at hstep
    case h_1 hqueue =>
        cases hstep
        exact h.pop hqueue
    case h_2 => cases hstep
  | handle =>
    rw [Profiler.stepConsolidator] at hstep
    split at hstep
    case h_2 => cases hstep
    case h_1 f hconsolidator =>
        rw [hconsolidator] at hat
        rcases hat with ⟨hok, hstage⟩
        cases hstep
        cases hshutdown : f.shutdown with
        | false => exact h.emit hok hstage (hok.values hshutdown)
        | true =>
          refine ⟨stage, ?_⟩
          cases hentry : s.liveset f.addr with
          | none => exact h.setConsolidator trivial
          | some entry =>
            by_cases hnewer : f.timestamp ≤ entry.value.timestamp
            · simp only [if_pos hnewer]
              exact h.setConsolidator trivial
            · simp only [if_neg hnewer]
              have hrecorded :=
                (hclean f entry hconsolidator hshutdown hentry).resolve_right hnewer
              exact h.setConsolidator
                ⟨hok, hstage, h.own_of_recorded hok hentry hrecorded hnewer⟩
  | remove =>
    rw [Profiler.stepConsolidator] at hstep
    split at hstep
    case h_2 => cases hstep
    case h_1 f entry hconsolidator =>
        rw [hconsolidator] at hat
        rcases hat with ⟨hok, hstage, hown⟩
        cases hstep
        have hremoved : Sound (s.removeEntry f.addr f.freed) stage := by
          apply h.removeEntry
          intro entry' hentry'
          rw [hclean f entry entry' hconsolidator hentry']
          exact (hown entry rfl).1
        have hgrows := Grows.removeEntry s f.addr f.freed
        exact hremoved.emit (hok.mono h.ordered hgrows) hstage (hgrows.kept _ _ (hown entry rfl).2)
  | alloc | onAlloc | insert | overwrite | dealloc | realloc | enter | take | stamp | push | release
  | reallocFailed | restore | reallocated => cases hstep

/-! ## Steps of the calls -/

theorem callOk_looked (hold : s.Holds stage c addr alloc) (hown : s.Own alloc taken)
    (hpast : Purpose.Past s.clock purpose) :
    s.CallOk stage c (looked addr taken purpose) := by
  cases purpose with
  | dealloc =>
    cases taken with
    | none => exact ⟨alloc, hold.1⟩
    | some entry => exact ⟨alloc, hold, hown⟩
  | realloc newSize timestamp => exact ⟨alloc, hold, hown, hpast⟩

theorem own_none (s : Profiler) (alloc : Nat) : s.Own alloc none := nofun

theorem Sound.enter (h : Sound s stage) {guard : Guard} (hcall : s.calls c = .freeing addr purpose)
    (hstep : s.stepCall capacity (.enter c guard) = some next) :
    Sound next stage := by
  have hat := h.calls c
  rw [hcall] at hat
  rcases hat with ⟨alloc, hold, hpast⟩
  have hlooked : Sound (s.setCall c (looked addr none purpose)) stage :=
    h.setCall (callOk_looked hold (own_none s alloc) hpast)
  rw [Profiler.stepCall, hcall] at hstep
  cases hstep
  cases guard with
  | skip => exact hlooked
  | peek =>
    cases hentry : s.liveset addr with
    | none => exact hlooked
    | some entry => exact h.setCall ⟨alloc, hold, hpast⟩
  | shutdown =>
    cases purpose with
    | dealloc => exact h.setCall ⟨alloc, hold, own_none s alloc⟩
    | realloc newSize timestamp => exact h.setCall ⟨alloc, hold, own_none s alloc, hpast⟩

theorem Ordered.own (h : Ordered s) (hblock : s.blocks addr = some block)
    (hclean : s.recorded block.alloc = true ∨ s.liveset addr = none) :
    s.Own block.alloc (s.liveset addr) := by
  intro entry hentry
  rcases hclean with hrecorded | hnone
  · rcases h.entry addr entry hentry with ⟨hborn, haddress, hsample, hlast⟩
    rcases h.block addr block hblock with ⟨-, haddress', hlast'⟩
    have heq : entry.alloc = block.alloc :=
      Nat.le_antisymm (hlast' _ hborn haddress) (hlast _ hrecorded haddress')
    exact ⟨heq, heq ▸ hsample⟩
  · rw [hnone] at hentry
    cases hentry

theorem Sound.takeEntry (h : Sound s stage) (hcall : s.calls c = .taking addr purpose)
    (hclean : s.Clean (.take c)) (hstep : s.stepCall capacity (.take c) = some next) :
    Sound next stage := by
  have hat := h.calls c
  rw [hcall] at hat
  rcases hat with ⟨alloc, hold, hpast⟩
  have hown := h.ordered.own hold.1 (hclean addr purpose _ hcall hold.1)
  rw [stepCall_take capacity hcall hold.1] at hstep
  cases hstep
  have hremoved : Sound (s.removeEntry addr alloc) stage :=
    h.removeEntry fun entry hentry => (hown entry hentry).1
  have hgrows := Grows.removeEntry s addr alloc
  have hblocks : (s.removeEntry addr alloc).blocks = s.blocks := by
    unfold Profiler.removeEntry
    cases s.liveset addr with
    | none | some _ => rfl
  apply hremoved.setCall
  apply callOk_looked ⟨(congrFun hblocks addr).trans hold.1, hold.2⟩ (hown.mono hgrows)
  exact hpast.mono hgrows.clock

theorem Sound.stamp (h : Sound s stage) (hcall : s.calls c = .stamping addr taken)
    (hstep : s.stepCall capacity (.stamp c tid timestamp) = some next) :
    ∃ stage', Sound next stage' := by
  have hat := h.calls c
  rw [hcall] at hat
  rcases hat with ⟨alloc, hold, hown⟩
  rw [Profiler.stepCall, hcall] at hstep
  rcases Option.ite_none_right_eq_some.mp hstep with ⟨hclock, hnext⟩
  rw [hold.1] at hnext
  cases hnext
  rcases h.ordered.block addr _ hold.1 with ⟨hborn, haddress, -⟩
  refine ⟨_, h.record hclock ?_ hold.2 ?_ ?_⟩
  · apply @freeOk_rawFree { s with clock := timestamp } _ _ _ _ _ _ hborn haddress le_rfl hown
    · intro hshutdown
      exact Option.isSome_iff_ne_none.mp (by simpa using hshutdown)
    · exact fun a => h.ordered.unsampled_later hold.1
  · intro other block hblock hfreed
    have heq : other = addr := by
      have haddress' := (h.ordered.block other block hblock).2.1
      rw [← haddress', hfreed]
      exact haddress
    subst heq
    rw [hold.1] at hblock
    cases hblock
    rfl
  · exact hold.1

theorem setCall_setCall (s : Profiler) (c : Nat) (call call' : Call) :
    (s.setCall c call).setCall c call' = s.setCall c call' := by
  rw [setCall, setCall, setCall, Function.update_idem]

section

variable (h : Sound s stage)
include h

theorem Sound.reallocated {shutdown : Bool} {newSize timestamp tid newAddr : Nat}
    (hcall : s.calls c = .reallocating addr newSize timestamp taken shutdown)
    (hstep : s.stepCall capacity (.reallocated c tid newAddr) = some next) :
    ∃ stage', Sound next stage' := by
  have hat := h.calls c
  rw [hcall] at hat
  rcases hat with ⟨alloc, hold, hown, hpast⟩
  rw [Profiler.stepCall, hcall] at hstep
  dsimp only at hstep
  rw [hold.1, Option.bind_some] at hstep
  rcases Option.ite_none_right_eq_some.mp hstep with ⟨hfree, hnext⟩
  cases hnext
  rcases h.ordered.block addr _ hold.1 with ⟨hborn, haddress, -⟩
  have hreleased := h.release hold.1
  have hfree' : Function.update s.blocks addr none newAddr = none := by
    by_cases heq : newAddr = addr
    · exact updated_eq_iff.mpr (.inl ⟨heq, rfl⟩)
    · exact updated_eq_iff.mpr (.inr ⟨heq, hfree.resolve_left heq⟩)
  have hholds := hreleased.holds_acquire c newAddr
  have hacquired := @Sound.acquire _ _ _ _ (.allocated s.nextAlloc newAddr newSize) hreleased hfree'
    hholds
  have hset : ∀ call call', ((({ s with blocks := Function.update s.blocks addr none } :
      Profiler).acquire c newAddr).setCall c call).setCall c call' =
        (({ s with blocks := Function.update s.blocks addr none } : Profiler).acquire c
          newAddr).setCall c call' := fun _ _ => setCall_setCall _ _ _ _
  have hsame := hset .idle (.allocated s.nextAlloc newAddr newSize)
  have hacquired' := hsame ▸ hacquired
  by_cases hrecord : shutdown = true ∨ taken ≠ none
  · rw [if_pos hrecord]
    have hne : s.nextAlloc ≠ alloc := fun heq => absurd hborn (heq ▸ Nat.lt_irrefl _)
    have hother : ∀ other block,
        Function.update (Function.update s.blocks addr none) newAddr
          (some ⟨s.nextAlloc, some c⟩) other = some block → block.alloc ≠ alloc := by
      intro other block hblock heq
      rcases updated_eq_iff.mp hblock with ⟨rfl, ⟨⟩⟩ | ⟨-, hkept⟩
      · exact hne heq
      · rcases updated_eq_iff.mp hkept with ⟨rfl, ⟨⟩⟩ | ⟨hsame, hold'⟩
        apply hsame
        rw [← (h.ordered.block other block hold').2.1, heq]
        exact haddress
    refine ⟨_, hset (.allocated s.nextAlloc newAddr newSize) _ ▸ hacquired'.record le_rfl ?_ hold.2
      ?_ ?_⟩
    · have hok : s.FreeOk (rawFree tid addr timestamp alloc taken shutdown) := by
        apply freeOk_rawFree hborn haddress hpast hown
        · intro hshutdown
          rw [hshutdown] at hrecord
          exact hrecord.resolve_left Bool.false_ne_true
        · exact fun a => h.ordered.unsampled_later hold.1
      exact hok.mono h.ordered (.of_acquire rfl rfl rfl rfl)
    · intro other block hblock heq
      exact absurd heq (hother other block hblock)
    · exact ⟨hholds.1, hholds.2, hne⟩
  · rw [if_neg hrecord]
    exact ⟨stage, hacquired'⟩

theorem Sound.onAlloc {sampled : Option Nat}
    (hstep : s.stepCall capacity (.onAlloc c sampled) = some next) : Sound next stage := by
  have hat := h.calls c
  unfold Profiler.stepCall at hstep
  dsimp only at hstep
  split at hstep
  case h_1 hcall =>
    rw [hcall] at hat
    cases hstep
    exact h.finish hat.1
  case h_2 hcall =>
    rw [hcall] at hat
    rcases Option.ite_none_right_eq_some.mp hstep with ⟨hclock, hnext⟩
    cases hnext
    exact h.sample hat.1 hat.2 hclock
  case h_3 => cases hstep

theorem Sound.insert {shutdown : Bool}
    (hstep : s.stepCall capacity (.insert c shutdown) = some next) : Sound next stage := by
  have hat := h.calls c
  rw [Profiler.stepCall] at hstep
  split at hstep
  case h_1 hcall =>
    rw [hcall] at hat
    cases hstep
    cases shutdown with
    | true => exact h.finish hat.1
    | false =>
      rw [if_neg Bool.false_ne_true]
      split
      · exact (h.setEntry hat.1 hat.2).finish hat.1
      · exact h.setCall hat
  case h_2 => cases hstep

theorem Sound.overwrite
    (hstep : s.stepCall capacity (.overwrite c) = some next) : Sound next stage := by
  have hat := h.calls c
  rw [Profiler.stepCall] at hstep
  split at hstep
  case h_1 hcall =>
    rw [hcall] at hat
    cases hstep
    exact (h.setEntry hat.1 hat.2).finish hat.1
  case h_2 => cases hstep

theorem Sound.reallocFailed
    (hstep : s.stepCall capacity (.reallocFailed c) = some next) : Sound next stage := by
  have hat := h.calls c
  rw [Profiler.stepCall] at hstep
  split at hstep
  case h_1 hcall =>
    rw [hcall] at hat
    rcases hat with ⟨alloc, hold, -, -⟩
    rw [hold.1] at hstep
    cases hstep
    exact h.finish hold
  case h_2 hcall =>
    rw [hcall] at hat
    rcases hat with ⟨alloc, hold, hown, -⟩
    cases hstep
    exact h.setCall ⟨alloc, hold, hown⟩
  case h_3 => cases hstep

theorem Sound.restore {skip : Bool}
    (hstep : s.stepCall capacity (.restore c skip) = some next) : Sound next stage := by
  have hat := h.calls c
  rw [Profiler.stepCall] at hstep
  split at hstep
  case h_1 hcall =>
    rw [hcall] at hat
    rcases hat with ⟨alloc, hold, hown⟩
    rw [hold.1] at hstep
    cases hstep
    split
    · exact h.finish hold
    · rcases hown _ rfl with ⟨hentry, hsample⟩
      have hput := h.liveset (h.ordered.put hold.1 hentry hsample fun a => .inl) h.kept
      exact hput.finish hold
  case h_2 => cases hstep

theorem Sound.stepCall {event : Event} (hclean : s.Clean event)
    (hstep : s.stepCall capacity event = some next) : ∃ stage', Sound next stage' := by
  cases event with
  | onAlloc c sampled => exact ⟨stage, h.onAlloc hstep⟩
  | insert c shutdown => exact ⟨stage, h.insert hstep⟩
  | overwrite c => exact ⟨stage, h.overwrite hstep⟩
  | enter c guard =>
    have hstep' := hstep
    rw [Profiler.stepCall] at hstep'
    split at hstep'
    case h_1 hcall => exact ⟨stage, h.enter hcall hstep⟩
    case h_2 => cases hstep'
  | take c =>
    have hstep' := hstep
    rw [Profiler.stepCall] at hstep'
    split at hstep'
    case h_1 hcall => exact ⟨stage, h.takeEntry hcall hclean hstep⟩
    case h_2 => cases hstep'
  | stamp c tid timestamp =>
    have hstep' := hstep
    rw [Profiler.stepCall] at hstep'
    split at hstep'
    case h_1 hcall => exact h.stamp hcall hstep
    case h_2 => cases hstep'
  | push c =>
    rw [Profiler.stepCall] at hstep
    split at hstep
    case h_1 hcall =>
      cases hstep
      exact h.push hcall
    case h_2 => cases hstep
  | release c =>
    have hat := h.calls c
    rw [Profiler.stepCall] at hstep
    split at hstep
    case h_1 hcall =>
      rw [hcall] at hat
      rcases hat with ⟨alloc, hblock⟩
      cases hstep
      exact ⟨stage, h.release hblock⟩
    case h_2 => cases hstep
  | reallocFailed c => exact ⟨stage, h.reallocFailed hstep⟩
  | restore c skip => exact ⟨stage, h.restore hstep⟩
  | reallocated c tid newAddr =>
    have hstep' := hstep
    rw [Profiler.stepCall] at hstep'
    split at hstep'
    case h_1 hcall => exact h.reallocated hcall hstep
    case h_2 => cases hstep'
  | alloc | dealloc | realloc | pop | handle | remove => cases hstep

theorem Sound.step {event : Event} (hclean : s.Clean event)
    (hstep : s.step capacity event = some next) : ∃ stage', Sound next stage' := by
  cases event with
  | alloc c addr size =>
    rcases Option.ite_none_right_eq_some.mp hstep with ⟨⟨-, hfree⟩, hnext⟩
    cases hnext
    exact ⟨stage, h.acquire hfree (h.holds_acquire c addr)⟩
  | dealloc c addr =>
    rw [Profiler.step] at hstep
    split at hstep
    case h_1 _ hblock =>
      cases hstep
      exact ⟨stage, h.take hblock le_rfl trivial⟩
    case h_2 => cases hstep
  | realloc c addr newSize timestamp =>
    rw [Profiler.step] at hstep
    split at hstep
    case h_1 _ hblock =>
      rcases Option.ite_none_right_eq_some.mp hstep with ⟨hclock, hnext⟩
      cases hnext
      exact ⟨stage, h.take hblock hclock le_rfl⟩
    case h_2 => cases hstep
  | pop | handle | remove => exact h.stepConsolidator hclean hstep
  | onAlloc | insert | overwrite | enter | take | stamp | push | release | reallocFailed | restore
  | reallocated => exact @Sound.stepCall _ _ _ capacity h _ hclean hstep

end

/-- Frees report the allocations they free, where no lookup meets an earlier one's entry. -/
theorem frees_matched (capacity : Nat) (events : List Event)
    (hclean : Along (step capacity) Clean empty events) :
    Throughout (step capacity) Matched empty events := by
  refine @throughout_of_along _ _ _ _ _ (fun s => ∃ stage, Sound s stage) ?_ ?_ _ _
    ⟨_, sound_empty⟩ hclean
  · rintro s event next ⟨stage, h⟩ hclean' hstep
    exact h.step hclean' hstep
  · rintro s ⟨stage, h⟩
    exact h.matched

/-- A sampled allocation is freed by a thread in teardown. -/
theorem frees_matched_teardown :
    Throughout (step 4) Matched empty
      [.alloc 0 64 16, .onAlloc 0 (some 1), .insert 0 false, .dealloc 0 64, .enter 0 .shutdown,
        .stamp 0 7 2, .push 0, .release 0, .pop, .handle, .remove] := by
  apply frees_matched
  iterate 9
    refine ⟨trivial, ?_⟩
    rintro _ ⟨⟩
  constructor
  · rintro free entry ⟨⟩ - -
    exact .inl rfl
  rintro _ ⟨⟩
  constructor
  · rintro free entry entry' ⟨⟩ ⟨⟩
    rfl
  rintro _ ⟨⟩
  trivial

/-- A free that waits for the consolidator leaves its entry to the next allocation. -/
theorem postponedFree_misreports :
    ¬∀ (capacity : Nat) (events : List Event), Throughout (step capacity) Matched empty events := by
  intro h
  have hrun := h 4
    [.alloc 0 64 16, .onAlloc 0 (some 1), .insert 0 false, .dealloc 0 64, .enter 0 .shutdown,
      .stamp 0 7 2, .push 0, .release 0, .alloc 0 64 32, .onAlloc 0 none, .dealloc 0 64,
      .enter 0 .peek, .take 0, .stamp 0 8 3, .push 0, .release 0, .pop, .handle, .pop, .handle]
  have hlast := hrun.last rfl
  have hvalues := hlast.values ⟨3, 8, 64, 16, 1, 1⟩ List.mem_cons_self
  cases hvalues.2

end Dial9.SelfProfile.Liveset.Profiler
