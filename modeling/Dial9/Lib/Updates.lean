/-
# Functions changed at one place

A value of an updated function is the new one, at the place of the update, or one
that was there before, at any other.
-/

import Mathlib.Logic.Function.Basic

namespace Dial9.Lib

variable {α β : Type} [DecidableEq α] {f : α → β} {a b : α} {old new : β}

theorem updated_eq_iff : Function.update f a new b = old ↔ b = a ∧ new = old ∨ b ≠ a ∧ f b = old :=
  Function.pred_update (fun _ value => value = old) f a new b

end Dial9.Lib
