/-
# Circular buffers

What is stored from a position on goes around the end of the buffer: the element a
number of places on lies at that place modulo the length. A stretch that is no longer
than the buffer is one slice of it, or two.
-/

import Mathlib.Data.Nat.ModEq
import Mathlib.Data.List.Basic

namespace Dial9.Lib.Circular

variable {α : Type*} {data xs ys : List α} {pos : ℕ}

/-- From the position on, around the end, the buffer has the elements. -/
def Holds (data : List α) (pos : ℕ) (xs : List α) : Prop :=
  ∀ i (hi : i < xs.length), data[(pos + i) % data.length]? = some xs[i]

theorem holds_append :
    Holds data pos (xs ++ ys) ↔ Holds data pos xs ∧ Holds data (pos + xs.length) ys := by
  constructor
  · intro h
    constructor
    · intro i hi
      rw [h i (by rw [List.length_append]; omega), List.getElem_append_left hi]
    · intro i hi
      have hplace := h (xs.length + i) (by rw [List.length_append]; omega)
      rw [List.getElem_append_right (by omega)] at hplace
      simpa [Nat.add_assoc] using hplace
  · intro ⟨hxs, hys⟩ i hi
    by_cases hlt : i < xs.length
    · rw [hxs i hlt, List.getElem_append_left hlt]
    · rw [List.length_append] at hi
      have hplace := hys (i - xs.length) (by omega)
      rw [Nat.add_assoc, Nat.add_sub_cancel' (Nat.le_of_not_lt hlt)] at hplace
      rw [hplace, List.getElem_append_right (Nat.le_of_not_lt hlt)]

@[simp] theorem holds_mod : Holds data (pos % data.length) xs ↔ Holds data pos xs := by
  simp only [Holds, Nat.mod_add_mod]

/-! ## Slices -/

theorem Holds.eq_slice (h : Holds data pos xs) (hfits : pos + xs.length ≤ data.length) :
    (data.drop pos).take xs.length = xs := by
  apply List.ext_getElem
  · rw [List.length_take, List.length_drop]
    omega
  · intro i hi hi'
    have hplace := h i hi'
    rw [Nat.mod_eq_of_lt (by omega), List.getElem?_eq_getElem (by omega)] at hplace
    rw [List.getElem_take, List.getElem_drop]
    exact Option.some.inj hplace

/-- A stretch that reaches past the end is the rest of the buffer and a slice of its start. -/
theorem Holds.eq_slices (h : Holds data pos xs) (hpos : pos ≤ data.length)
    (hpast : data.length ≤ pos + xs.length) (hsize : xs.length ≤ data.length) :
    data.drop pos ++ data.take (xs.length - (data.length - pos)) = xs := by
  apply List.ext_getElem
  · rw [List.length_append, List.length_drop, List.length_take]
    omega
  · intro i hi hi'
    have hplace := h i hi'
    by_cases hlt : i < data.length - pos
    · rw [Nat.mod_eq_of_lt (by omega), List.getElem?_eq_getElem (by omega)] at hplace
      rw [List.getElem_append_left (by rw [List.length_drop]; exact hlt), List.getElem_drop]
      exact Option.some.inj hplace
    · rw [Nat.mod_eq_sub_mod (by omega), Nat.mod_eq_of_lt (by omega),
        List.getElem?_eq_getElem (by omega)] at hplace
      rw [List.getElem_append_right (by rw [List.length_drop]; omega), List.getElem_take]
      rw [← Option.some.inj hplace]
      congr 1
      rw [List.length_drop]
      omega

theorem Holds.eq_ofFn (h : Holds data pos xs) {n : ℕ} (hn : xs.length = n) (fallback : α) :
    (List.ofFn fun i : Fin n => data.getD ((pos + i) % data.length) fallback) = xs := by
  subst hn
  apply List.ext_getElem
  · exact List.length_ofFn
  · intro i hi hi'
    rw [List.getElem_ofFn, List.getD_eq_getElem?_getD, h i hi', Option.getD_some]

end Dial9.Lib.Circular
