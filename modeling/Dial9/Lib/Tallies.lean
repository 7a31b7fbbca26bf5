/-
# Tallies in order of their keys

A map from keys to totals, kept as the list of its entries in order of their keys.
Adding to a key makes an entry for it where there is none.
-/

import Mathlib.Algebra.Order.Ring.Nat

namespace Dial9.Lib

/-- Entries of keys and totals. -/
abbrev Tallies := List (Nat × Nat)

namespace Tallies

/-- `*tallies.entry(key).or_default() += amount` -/
def add : Tallies → (key amount : Nat) → Tallies
  | [], key, amount => [(key, amount)]
  | (k, total) :: rest, key, amount =>
    if key < k then (key, amount) :: (k, total) :: rest
    else if key = k then (k, total + amount) :: rest
    else (k, total) :: add rest key amount

/-- The keys are in order, each of them once. -/
def Sorted (tallies : Tallies) : Prop := tallies.Pairwise fun a b => a.1 < b.1

/-- The amounts under a key. -/
def sumAt (tallies : Tallies) (key : Nat) : Nat :=
  ((tallies.filter fun entry => entry.1 = key).map Prod.snd).sum

variable {tallies : Tallies} {key amount : Nat}

theorem mem_keys_add {k : Nat} :
    k ∈ (tallies.add key amount).map Prod.fst ↔ k = key ∨ k ∈ tallies.map Prod.fst := by
  induction tallies with
  | nil => simp [add]
  | cons entry rest ih =>
    rcases entry with ⟨first, total⟩
    rw [add]
    split_ifs with hless heq
    · simp
    · subst heq
      simp
    · rw [List.map_cons, List.mem_cons, ih, List.map_cons, List.mem_cons]
      exact or_left_comm

theorem Sorted.add (h : Sorted tallies) (key amount : Nat) : Sorted (tallies.add key amount) := by
  induction tallies with
  | nil => exact List.pairwise_singleton _ _
  | cons entry rest ih =>
    rcases entry with ⟨first, total⟩
    rcases List.pairwise_cons.mp h with ⟨hfirst, hrest⟩
    rw [Tallies.add]
    split_ifs with hless heq
    · apply List.pairwise_cons.mpr
      refine ⟨fun entry hentry => ?_, h⟩
      rcases List.mem_cons.mp hentry with rfl | hentry
      · exact hless
      · exact hless.trans (hfirst entry hentry)
    · exact List.pairwise_cons.mpr ⟨hfirst, hrest⟩
    · apply List.pairwise_cons.mpr
      refine ⟨fun entry hentry => ?_, ih hrest⟩
      rcases mem_keys_add.mp (List.mem_map_of_mem hentry) with hkey | hkey
      · show first < entry.1
        omega
      · rcases List.mem_map.mp hkey with ⟨other, hother, heq'⟩
        exact heq' ▸ hfirst other hother

theorem sumAt_add (k : Nat) :
    (tallies.add key amount).sumAt k = tallies.sumAt k + if k = key then amount else 0 := by
  induction tallies with
  | nil =>
    by_cases hk : k = key
    · simp [add, sumAt, hk]
    · simp [add, sumAt, hk, Ne.symm hk]
  | cons entry rest ih =>
    rcases entry with ⟨first, total⟩
    simp only [sumAt, List.filter_cons] at ih ⊢
    rw [add]
    split_ifs with hless heq hk <;> grind

theorem sumAt_of_mem (h : Sorted tallies) {entry : Nat × Nat} (hentry : entry ∈ tallies) :
    tallies.sumAt entry.1 = entry.2 := by
  induction tallies with
  | nil => exact absurd hentry List.not_mem_nil
  | cons first rest ih =>
    rcases List.pairwise_cons.mp h with ⟨hfirst, hrest⟩
    rw [sumAt, List.filter_cons]
    rcases List.mem_cons.mp hentry with rfl | hentry
    · have hnone : rest.filter (fun other => decide (other.1 = entry.1)) = [] := by
        apply List.filter_eq_nil_iff.mpr
        intro other hother heq
        exact (hfirst other hother).ne' (of_decide_eq_true heq)
      rw [if_pos (decide_eq_true rfl), hnone]
      exact Nat.add_zero entry.2
    · have hne : first.1 ≠ entry.1 := (hfirst entry hentry).ne
      rw [if_neg fun heq => hne (of_decide_eq_true heq)]
      exact ih hrest hentry

theorem Sorted.nodup_keys (h : Sorted tallies) : (tallies.map Prod.fst).Nodup :=
  List.pairwise_map.mpr (h.imp Nat.ne_of_lt)

theorem Sorted.le_last (h : Sorted tallies) {last : Nat × Nat}
    (hlast : tallies.getLast? = some last)
    {k : Nat} (hk : k ∈ tallies.map Prod.fst) : k ≤ last.1 := by
  rcases List.getLast?_eq_some_iff.mp hlast with ⟨front, rfl⟩
  rcases List.mem_map.mp hk with ⟨entry, hentry, rfl⟩
  rcases List.mem_append.mp hentry with hfront | hend
  · exact ((List.pairwise_append.mp h).2.2 entry hfront last List.mem_cons_self).le
  · rw [List.mem_singleton.mp hend]

end Tallies

end Dial9.Lib
