/-
# Maps that keep the order of insertion

A map as the list of its entries, the first inserted first. Updating a key changes
its entry where it stands; a key that has none gets one at the end.
-/

import Mathlib.Data.List.Basic

namespace Dial9.Lib

/-- Entries of keys and values. -/
abbrev InsertionMap (κ α : Type*) := List (κ × α)

namespace InsertionMap

variable {κ α : Type*} [DecidableEq κ] {m : InsertionMap κ α} {k k' : κ} {f : Option α → α}

def get? : InsertionMap κ α → κ → Option α
  | [], _ => none
  | (k', a) :: rest, k => if k' = k then some a else get? rest k

/-- The value is made from the one that the key had, if it had any. -/
def update : InsertionMap κ α → κ → (Option α → α) → InsertionMap κ α
  | [], k, f => [(k, f none)]
  | (k', a) :: rest, k, f =>
    if k' = k then (k', f (some a)) :: rest else (k', a) :: update rest k f

@[simp] theorem get?_update_self : get? (update m k f) k = some (f (get? m k)) := by
  induction m with
  | nil => simp [update, get?]
  | cons entry rest ih =>
    by_cases hk : entry.1 = k
    · simp [update, get?, hk]
    · simp [update, get?, hk, ih]

theorem get?_update_of_ne (hne : k ≠ k') : get? (update m k f) k' = get? m k' := by
  induction m with
  | nil => simp [update, get?, hne]
  | cons entry rest ih =>
    by_cases hk : entry.1 = k
    · simp [update, get?, hk, hne]
    · simp [update, get?, hk, ih]

theorem get?_update :
    get? (update m k f) k' = if k = k' then some (f (get? m k)) else get? m k' := by
  by_cases hk : k = k'
  · subst hk
    rw [if_pos rfl, get?_update_self]
  · rw [if_neg hk, get?_update_of_ne hk]

end InsertionMap

end Dial9.Lib
