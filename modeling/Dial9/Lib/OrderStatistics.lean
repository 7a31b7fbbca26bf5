/-
# Order statistics of a list

The element at a position of a list sorted by rank is characterized by counts:
its rank is at most a bound exactly when more elements than its position are at
most the bound. So one more element moves the statistics in one way: from below
a statistic it pushes that statistic one position on, and from above it bounds
the next one.
-/

import Mathlib.Data.List.Basic
import Mathlib.Data.List.Count
import Mathlib.Data.List.Perm.Basic

namespace Dial9.Lib

variable {α : Type} {rank : α → Nat} {as bs : List α} {a : α}

/-! ## Prefixes

A test that an element passes only if the ones before it do is passed by a prefix, and
the prefix is as long as the test is often passed. -/

variable {k : Nat}

section Prefix

variable {p q : α → Bool}

theorem not_of_head (h : (a :: as).Pairwise fun a b => p b = true → p a = true)
    (ha : p a ≠ true) : ∀ b ∈ a :: as, p b ≠ true := by
  intro b hb hpb
  rcases List.mem_cons.mp hb with rfl | hmem
  · exact ha hpb
  · exact ha ((List.pairwise_cons.mp h).1 b hmem hpb)

section

variable (h : as.Pairwise fun a b => p b = true → p a = true)
include h

theorem takeWhile_eq_filter : as.takeWhile p = as.filter p := by
  induction as with
  | nil => rfl
  | cons a as ih =>
    by_cases hp : p a = true
    · rw [List.takeWhile_cons_of_pos hp, List.filter_cons_of_pos hp,
        ih (List.pairwise_cons.mp h).2]
    · rw [List.takeWhile_cons_of_neg hp]
      exact (List.filter_eq_nil_iff.mpr (not_of_head h hp)).symm

theorem length_takeWhile : (as.takeWhile p).length = as.countP p := by
  rw [takeWhile_eq_filter h, List.countP_eq_length_filter]

theorem getElem_iff_lt_countP (hk : k < as.length) : p as[k] = true ↔ k < as.countP p := by
  induction as generalizing k with
  | nil => exact absurd hk (Nat.not_lt_zero k)
  | cons a as ih =>
    by_cases hp : p a = true
    · rw [List.countP_cons_of_pos hp]
      cases k with
      | zero => exact iff_of_true hp (Nat.succ_pos _)
      | succ k =>
        rw [List.getElem_cons_succ,
          ih (List.pairwise_cons.mp h).2 (Nat.lt_of_succ_lt_succ hk)]
        exact Nat.succ_lt_succ_iff.symm
    · rw [List.countP_eq_zero.mpr (not_of_head h hp)]
      exact iff_of_false (not_of_head h hp _ (List.getElem_mem hk)) (Nat.not_lt_zero k)

theorem drop_countP : as.drop (as.countP p) = as.filter fun a => !p a := by
  induction as with
  | nil => rfl
  | cons a as ih =>
    by_cases hp : p a = true
    · rw [List.countP_cons_of_pos hp, List.drop_succ_cons, ih (List.pairwise_cons.mp h).2,
        List.filter_cons_of_neg (by simp [hp])]
    · rw [List.countP_eq_zero.mpr (not_of_head h hp), List.drop_zero]
      exact (List.filter_eq_self.mpr fun b hb => by simpa using not_of_head h hp b hb).symm

end

theorem countP_add_takeWhile (hp : as.Pairwise fun a b => p b = true → p a = true)
    (hq : as.Pairwise fun a b => q b = true → q a = true) (hpq : ∀ a, p a = true → q a = true) :
    as.countP p + ((as.drop (as.countP p)).takeWhile q).length = as.countP q := by
  rw [length_takeWhile (hq.sublist (List.drop_sublist _ _)), drop_countP hp,
    List.countP_eq_countP_filter_add as q p]
  congr 1
  rw [List.countP_filter]
  exact List.countP_congr fun a _ => by simpa using hpq a

theorem countP_lt_countP (hpq : ∀ a, p a = true → q a = true) (ha : a ∈ as) (hp : p a = false)
    (hq : q a = true) : as.countP p < as.countP q := by
  obtain ⟨front, back, rfl⟩ := List.append_of_mem ha
  have hle (l : List α) : l.countP p ≤ l.countP q := List.countP_mono_left fun b _ => hpq b
  have hfront := hle front
  have hback := hle back
  rw [List.countP_append, List.countP_append, List.countP_cons_of_neg (by simp [hp]),
    List.countP_cons_of_pos hq]
  omega

end Prefix

/-! ## Ranks -/

/-- How many elements have a rank of at most the bound. -/
def countUpTo (rank : α → Nat) (bound : Nat) (as : List α) : Nat :=
  as.countP fun a => rank a ≤ bound

theorem countUpTo_cons (bound : Nat) (a : α) (as : List α) :
    countUpTo rank bound (a :: as) =
      countUpTo rank bound as + if rank a ≤ bound then 1 else 0 := by
  simp [countUpTo, List.countP_cons]

theorem countUpTo_perm (hperm : as.Perm bs) (bound : Nat) :
    countUpTo rank bound as = countUpTo rank bound bs :=
  hperm.countP_eq _

theorem getElem_le_iff (hsorted : as.Pairwise fun a b => rank a ≤ rank b)
    (hk : k < as.length) (bound : Nat) :
    rank as[k] ≤ bound ↔ k < countUpTo rank bound as := by
  have hprefix := getElem_iff_lt_countP (p := fun a => rank a ≤ bound)
    (hsorted.imp fun hab hb => decide_eq_true (Nat.le_trans hab (of_decide_eq_true hb))) hk
  exact decide_eq_true_iff.symm.trans hprefix

section

variable (hperm : bs.Perm (a :: as)) (hsorted : as.Pairwise fun a b => rank a ≤ rank b)
  (hsorted' : bs.Pairwise fun a b => rank a ≤ rank b) (hk : k < as.length) (hk' : k + 1 < bs.length)
include hperm hsorted hsorted' hk hk'

theorem getElem_of_insert_lt (hlt : rank a < rank as[k]) : rank bs[k + 1] = rank as[k] := by
  have hbound : ∀ bound, rank bs[k + 1] ≤ bound ↔ rank as[k] ≤ bound := by
    intro bound
    have hcount : countUpTo rank bound bs = countUpTo rank bound (a :: as) :=
      countUpTo_perm hperm bound
    rw [countUpTo_cons] at hcount
    rw [getElem_le_iff hsorted' hk', hcount]
    by_cases ha : rank a ≤ bound
    · rw [if_pos ha, getElem_le_iff hsorted hk]
      omega
    · have hcountAs := getElem_le_iff hsorted hk bound
      rw [if_neg ha]
      omega
  exact Nat.le_antisymm ((hbound _).mpr (Nat.le_refl _)) ((hbound _).mp (Nat.le_refl _))

theorem getElem_of_insert_le (hle : rank as[k] ≤ rank a) : rank bs[k + 1] ≤ rank a := by
  have hcount : countUpTo rank (rank a) bs = countUpTo rank (rank a) (a :: as) :=
    countUpTo_perm hperm (rank a)
  rw [countUpTo_cons, if_pos (Nat.le_refl _)] at hcount
  rw [getElem_le_iff hsorted' hk', hcount]
  exact Nat.succ_lt_succ ((getElem_le_iff hsorted hk _).mp hle)

end

end Dial9.Lib
