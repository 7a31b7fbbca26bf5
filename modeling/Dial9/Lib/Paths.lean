/-
# Paths of parts

A text made of parts that each end in a separator, and do not contain it. The
parts can be read off the text: of two such texts that start alike, the parts of
one are the first parts of the other.
-/

import Dial9.Lib.Strings
import Mathlib.Data.List.Basic

namespace Dial9.Lib.Str

variable {sep : Char}

/-- Each part with a separator after it. -/
def terminated (sep : Char) (parts : List Str) : Str := parts.flatMap fun part => part ++ [sep]

@[simp]
theorem terminated_nil : terminated sep [] = [] := rfl

@[simp]
theorem terminated_cons (part : Str) (parts : List Str) :
    terminated sep (part :: parts) = part ++ sep :: terminated sep parts := by
  rw [terminated, List.flatMap_cons, List.append_assoc]
  rfl

@[simp]
theorem terminated_append (front back : List Str) :
    terminated sep (front ++ back) = terminated sep front ++ terminated sep back :=
  List.flatMap_append

theorem append_sep_inj {a b s t : Str} (ha : sep ∉ a) (hb : sep ∉ b)
    (h : a ++ sep :: s = b ++ sep :: t) : a = b ∧ s = t := by
  have hsplit := congrArg (splitOnce sep) h
  rw [splitOnce_append a s ha, splitOnce_append b t hb] at hsplit
  exact ⟨congrArg Prod.fst (Option.some.inj hsplit), congrArg Prod.snd (Option.some.inj hsplit)⟩

/-- Where two texts of parts are equal, one has the other's parts and then more. -/
theorem terminated_append_eq {p q : List Str} {s t : Str} (hp : ∀ part ∈ p, sep ∉ part)
    (hq : ∀ part ∈ q, sep ∉ part) (h : terminated sep p ++ s = terminated sep q ++ t) :
    (∃ more, q = p ++ more ∧ s = terminated sep more ++ t) ∨
      ∃ more, p = q ++ more ∧ t = terminated sep more ++ s := by
  induction p generalizing q with
  | nil => exact .inl ⟨q, rfl, h⟩
  | cons a p ih =>
    cases q with
    | nil => exact .inr ⟨a :: p, rfl, h.symm⟩
    | cons b q =>
      rw [terminated_cons, terminated_cons, List.append_assoc, List.append_assoc,
        List.cons_append, List.cons_append] at h
      obtain ⟨rfl, hrest⟩ := append_sep_inj (hp a List.mem_cons_self) (hq b List.mem_cons_self) h
      have hp' := fun part hpart => hp part (List.mem_cons_of_mem a hpart)
      have hq' := fun part hpart => hq part (List.mem_cons_of_mem a hpart)
      rcases ih hp' hq' hrest with ⟨more, rfl, hs⟩ | ⟨more, rfl, ht⟩
      · exact .inl ⟨more, rfl, hs⟩
      · exact .inr ⟨more, rfl, ht⟩

theorem terminated_eq_nil {parts : List Str} (h : terminated sep parts = []) : parts = [] := by
  cases parts with
  | nil => rfl
  | cons part parts => simp at h

theorem terminated_inj {p q : List Str} (hp : ∀ part ∈ p, sep ∉ part)
    (hq : ∀ part ∈ q, sep ∉ part) (h : terminated sep p = terminated sep q) : p = q := by
  have happend : terminated sep p ++ [] = terminated sep q ++ [] := congrArg (· ++ []) h
  rcases terminated_append_eq hp hq happend with ⟨more, rfl, hnil⟩ | ⟨more, rfl, hnil⟩
  · have hmore : more = [] := terminated_eq_nil (List.append_eq_nil_iff.mp hnil.symm).1
    rw [hmore, List.append_nil]
  · have hmore : more = [] := terminated_eq_nil (List.append_eq_nil_iff.mp hnil.symm).1
    rw [hmore, List.append_nil]

end Dial9.Lib.Str
