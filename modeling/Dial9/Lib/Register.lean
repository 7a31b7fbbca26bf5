/-
# Registers that keep the latest value

Values are written in one order and heard of in another. A register that, at
each value it hears, is left with one that was not written before this one or
before the one it held, ends with the latest of all it heard, in whatever order
they came and however often each did.
-/

import Mathlib.Data.Set.Defs
import Mathlib.Order.Lattice

namespace Dial9.Lib

variable {S α W : Type} [LinearOrder W]

/-- What a register is left with, of the value it held and the one it hears: either, if
neither was written later. -/
structure Later (written : α → W) (held : Option α) (incoming next : α) : Prop where
  source : next = incoming ∨ held = some next
  incoming_le : written incoming ≤ written next
  held_le : ∀ old, held = some old → written old ≤ written next

/-- On values of a set, `hear` leaves a state that holds a value with one that holds the later. -/
def IsRegister (written : α → W) (values : Set α) (holding : Option α → S) (hear : S → α → S) :
    Prop :=
  ∀ held incoming, (∀ old, held = some old → old ∈ values) → incoming ∈ values →
    ∃ next, hear (holding held) incoming = holding (some next) ∧ Later written held incoming next

/-- The value held after some were heard: one of them all, and the latest. -/
structure Latest (written : α → W) (heard : List (Option α)) (held : Option α) : Prop where
  source : held = none ∨ held ∈ heard
  le : ∀ value, some value ∈ heard → ∃ last, held = some last ∧ written value ≤ written last

variable {written : α → W} {values : Set α} {holding : Option α → S} {hear : S → α → S}

theorem latest_singleton (held : Option α) : Latest written [held] held where
  source := .inr (List.mem_singleton_self held)
  le := fun value hvalue => ⟨value, (List.mem_singleton.mp hvalue).symm, le_rfl⟩

variable {heard : List (Option α)}

variable {held : Option α}

theorem Latest.append_none (h : Latest written heard held) :
    Latest written (heard ++ [none]) held where
  source := h.source.imp_right fun hmem => List.mem_append_left _ hmem
  le := fun value hvalue => h.le value ((List.mem_append.mp hvalue).resolve_right (by simp))

theorem Latest.append_some {incoming next : α} (h : Latest written heard held)
    (hlater : Later written held incoming next) :
    Latest written (heard ++ [some incoming]) (some next) where
  source := by
    right
    rcases hlater.source with rfl | hheld
    · exact List.mem_append_right _ (List.mem_singleton_self _)
    · have hmem := (hheld ▸ h.source : some next = none ∨ some next ∈ heard)
      exact List.mem_append_left _ (hmem.resolve_left (Option.some_ne_none next))
  le := by
    intro value hvalue
    refine ⟨next, rfl, ?_⟩
    rcases List.mem_append.mp hvalue with hearlier | hnew
    · obtain ⟨last, hlast, hle⟩ := h.le value hearlier
      exact hle.trans (hlater.held_le last hlast)
    · cases List.mem_singleton.mp hnew
      exact hlater.incoming_le

/-- A register hears of a value, or of none. -/
def listen (hear : S → α → S) (state : S) : Option α → S
  | none => state
  | some value => hear state value

theorem IsRegister.listen_latest (h : IsRegister written values holding hear)
    {held incoming : Option α}
    (hvalues : ∀ value, some value ∈ heard ++ [incoming] → value ∈ values)
    (hlatest : Latest written heard held) :
    ∃ next, listen hear (holding held) incoming = holding next ∧
      Latest written (heard ++ [incoming]) next := by
  cases incoming with
  | none => exact ⟨held, rfl, hlatest.append_none⟩
  | some incoming =>
    have hold : ∀ old, held = some old → old ∈ values := by
      intro old hheld
      have hmem := (hheld ▸ hlatest.source : some old = none ∨ some old ∈ heard)
      exact hvalues old (List.mem_append_left _ (hmem.resolve_left (Option.some_ne_none old)))
    obtain ⟨next, hnext, hlater⟩ := h held incoming hold
      (hvalues incoming (List.mem_append_right _ (List.mem_singleton_self _)))
    exact ⟨some next, hnext, hlatest.append_some hlater⟩

/-- After any deliveries a register holds the latest value it heard. -/
theorem IsRegister.run_latest (h : IsRegister written values holding hear)
    {heard deliveries : List (Option α)}
    (hvalues : ∀ value, some value ∈ heard ++ deliveries → value ∈ values)
    (hlatest : Latest written heard held) :
    ∃ last, deliveries.foldl (listen hear) (holding held) = holding last ∧
      Latest written (heard ++ deliveries) last := by
  induction deliveries generalizing heard held with
  | nil => exact ⟨held, rfl, by rwa [List.append_nil]⟩
  | cons incoming deliveries ih =>
    have hassoc : heard ++ incoming :: deliveries = (heard ++ [incoming]) ++ deliveries := by
      rw [List.append_assoc, List.singleton_append]
    rw [hassoc] at hvalues ⊢
    obtain ⟨next, hnext, hstep⟩ := h.listen_latest
      (fun value hvalue => hvalues value (List.mem_append_left _ hvalue)) hlatest
    rw [List.foldl_cons, hnext]
    exact ih hvalues hstep

end Dial9.Lib
