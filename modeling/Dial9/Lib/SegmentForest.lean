/-
# Segment forests

An implicit segment tree over any number of leaves: node `i` merges nodes `2 * i`
and `2 * i + 1`, and the leaves stand at the end. Where the number of leaves is
no power of two, a node near the root may merge leaves that are not next to each
other. A query adds up nodes from both ends inward; level by level, the nodes
that are left stand for the same leaves.
-/

import Mathlib.Algebra.Order.Ring.Nat
import Mathlib.Data.List.Basic
import Mathlib.Data.Option.NAry

namespace Dial9.Lib

structure SegmentForest (α : Type) where
  tree : List (Option α)
  n : ℕ
  merge : α → α → α

namespace SegmentForest

variable {α : Type}

/-- What is at a node, if anything. -/
def nodeAt (tree : List (Option α)) (i : ℕ) : Option α := tree.getD i none

/-- The inner nodes, from the given one down to the first. -/
def fill (merge : α → α → α) : ℕ → List (Option α) → List (Option α)
  | 0, tree => tree
  | i + 1, tree =>
    fill merge i (tree.set (i + 1)
      (Option.map₂ merge (nodeAt tree (2 * (i + 1))) (nodeAt tree (2 * (i + 1) + 1))))

def build (leaves : List α) (merge : α → α → α) : SegmentForest α where
  tree := fill merge (leaves.length - 1)
    (List.replicate leaves.length none ++ leaves.map some)
  n := leaves.length
  merge := merge

/-- The loop of a query, with the fuel for it. -/
def queryFrom (forest : SegmentForest α) : (fuel l r : ℕ) → Option α → Option α
  | 0, _, _, acc => acc
  | fuel + 1, l, r, acc =>
    if l < r then
      let accL := if l % 2 = 1 then acc.merge forest.merge (nodeAt forest.tree l) else acc
      let accR := if r % 2 = 1 then accL.merge forest.merge (nodeAt forest.tree (r - 1)) else accL
      queryFrom forest fuel ((l + l % 2) / 2) ((r - r % 2) / 2) accR
    else acc

/-- The aggregate over `[lo, hi)`, with both ends moved into the leaves. -/
def query (forest : SegmentForest α) (lo hi : ℤ) : Option α :=
  if min hi forest.n ≤ max lo 0 then none
  else
    queryFrom forest ((min hi forest.n).toNat + forest.n) ((max lo 0).toNat + forest.n)
      ((min hi forest.n).toNat + forest.n) none

/-! ## The tree -/

variable {merge : α → α → α} {leaves : List α} {tree : List (Option α)} {i : ℕ}

theorem nodeAt_set_self {v : Option α} (hi : i < tree.length) : nodeAt (tree.set i v) i = v := by
  rw [nodeAt, List.getD_eq_getElem?_getD, List.getElem?_set_self hi, Option.getD_some]

theorem nodeAt_set_ne {v : Option α} {j : ℕ} (hne : i ≠ j) :
    nodeAt (tree.set i v) j = nodeAt tree j := by
  rw [nodeAt, nodeAt, List.getD_eq_getElem?_getD, List.getD_eq_getElem?_getD,
    List.getElem?_set_ne hne]

theorem fill_above {k : ℕ} (hi : k < i) : nodeAt (fill merge k tree) i = nodeAt tree i := by
  induction k generalizing tree with
  | zero => rfl
  | succ k ih => rw [fill, ih (Nat.lt_of_succ_lt hi), nodeAt_set_ne hi.ne]

theorem fill_inner {k : ℕ} (hlen : k < tree.length) (hpos : 1 ≤ i) (hi : i ≤ k) :
    nodeAt (fill merge k tree) i =
      Option.map₂ merge (nodeAt (fill merge k tree) (2 * i))
        (nodeAt (fill merge k tree) (2 * i + 1)) := by
  induction k generalizing tree with
  | zero => omega
  | succ k ih =>
    rcases hi.eq_or_lt with rfl | hlt
    · have hleft : nodeAt (fill merge (k + 1) tree) (2 * (k + 1)) = nodeAt tree (2 * (k + 1)) :=
        fill_above (by omega)
      have hright : nodeAt (fill merge (k + 1) tree) (2 * (k + 1) + 1) =
          nodeAt tree (2 * (k + 1) + 1) := fill_above (by omega)
      rw [hleft, hright, fill, fill_above (Nat.lt_succ_self k), nodeAt_set_self hlen]
    · rw [fill]
      apply ih _ (Nat.le_of_lt_succ hlt)
      rw [List.length_set]
      exact Nat.lt_of_succ_lt hlen

theorem nodeAt_leaf {j : ℕ} (hj : j < leaves.length) :
    nodeAt (build leaves merge).tree (j + leaves.length) = some leaves[j] := by
  rw [build]
  dsimp only
  rw [fill_above (by omega), nodeAt, List.getD_eq_getElem?_getD,
    List.getElem?_append_right (by simp),
    List.length_replicate, Nat.add_sub_cancel, List.getElem?_map, List.getElem?_eq_getElem hj]
  rfl

theorem nodeAt_map₂ (hpos : 1 ≤ i) (hi : i < leaves.length) :
    nodeAt (build leaves merge).tree i =
      Option.map₂ merge (nodeAt (build leaves merge).tree (2 * i))
        (nodeAt (build leaves merge).tree (2 * i + 1)) := by
  have hlen :
      leaves.length - 1 < (List.replicate leaves.length none ++ leaves.map some).length := by
    rw [List.length_append, List.length_replicate, List.length_map]
    omega
  exact fill_inner hlen hpos (by omega)

theorem nodeAt_isSome (hpos : 1 ≤ i) (hi : i < 2 * leaves.length) :
    (nodeAt (build leaves merge).tree i).isSome = true := by
  induction hrest : 2 * leaves.length - i using Nat.strong_induction_on generalizing i with
  | _ rest ih =>
    by_cases hleaf : leaves.length ≤ i
    · have hnode := @nodeAt_leaf _ merge leaves (i - leaves.length) (by omega)
      rw [Nat.sub_add_cancel hleaf] at hnode
      rw [hnode, Option.isSome_some]
    · have hleft := ih _ (by omega) (i := 2 * i) (by omega) (by omega) rfl
      have hright := ih _ (by omega) (i := 2 * i + 1) (by omega) (by omega) rfl
      rcases Option.isSome_iff_exists.mp hleft with ⟨a, ha⟩
      rcases Option.isSome_iff_exists.mp hright with ⟨b, hb⟩
      rw [nodeAt_map₂ hpos (by omega), ha, hb]
      rfl

theorem nodeAt_inner (hpos : 1 ≤ i) (hi : i < leaves.length) :
    nodeAt (build leaves merge).tree i =
      (nodeAt (build leaves merge).tree (2 * i)).merge merge
        (nodeAt (build leaves merge).tree (2 * i + 1)) := by
  have hleft : (nodeAt (build leaves merge).tree (2 * i)).isSome = true :=
    nodeAt_isSome (by omega) (by omega)
  have hright : (nodeAt (build leaves merge).tree (2 * i + 1)).isSome = true :=
    nodeAt_isSome (by omega) (by omega)
  rcases Option.isSome_iff_exists.mp hleft with ⟨a, ha⟩
  rcases Option.isSome_iff_exists.mp hright with ⟨b, hb⟩
  rw [nodeAt_map₂ hpos hi, ha, hb]
  rfl

/-! ## A query -/

/-- What the nodes of a range merge to. -/
def total (merge : α → α → α) (node : ℕ → Option α) (l r : ℕ) : Option α :=
  ((List.range' l (r - l)).map node).foldr (Option.merge merge) none

section Total

variable {node : ℕ → Option α} {l r : ℕ}

theorem total_self (l : ℕ) : total merge node l l = none := by
  rw [total, Nat.sub_self]
  rfl

theorem total_left (h : l < r) :
    total merge node l r = (node l).merge merge (total merge node (l + 1) r) := by
  rw [total, show r - l = r - (l + 1) + 1 by omega, List.range'_succ]
  rfl

theorem merge_comm [Std.Commutative merge] (a b : Option α) : a.merge merge b = b.merge merge a :=
  Std.Commutative.comm a b

variable [Std.Associative merge]

theorem merge_assoc (a b c : Option α) :
    (a.merge merge b).merge merge c = a.merge merge (b.merge merge c) :=
  Std.Associative.assoc a b c

theorem total_right (h : l ≤ r) :
    total merge node l (r + 1) = (total merge node l r).merge merge (node r) := by
  induction hrest : r - l generalizing l with
  | zero =>
    obtain rfl : l = r := by omega
    rw [total_left (Nat.lt_succ_self l), total_self, total_self, Option.merge_none_left,
      Option.merge_none_right]
  | succ rest ih =>
    rw [total_left (by omega), ih (by omega) (by omega), total_left (by omega : l < r),
      merge_assoc]

theorem total_double {n : ℕ}
    (hnode : ∀ i, 1 ≤ i → i < n → node i = (node (2 * i)).merge merge (node (2 * i + 1)))
    {a b : ℕ} (ha : 1 ≤ a) (hab : a ≤ b) (hb : b ≤ n) :
    total merge node (2 * a) (2 * b) = total merge node a b := by
  induction hrest : b - a generalizing a with
  | zero =>
    obtain rfl : a = b := by omega
    rw [total_self, total_self]
  | succ rest ih =>
    rw [total_left (by omega), total_left (by omega), total_left (by omega : a < b),
      hnode a ha (by omega), ← ih (by omega) (by omega) (by omega),
      merge_assoc]
    rfl

theorem total_evenLeft (h : l < r) (acc : Option α) :
    Option.merge merge (if l % 2 = 1 then acc.merge merge (node l) else acc)
      (total merge node (l + l % 2) r) = acc.merge merge (total merge node l r) := by
  rcases Nat.mod_two_eq_zero_or_one l with heven | hodd
  · rw [heven, if_neg (by decide), Nat.add_zero]
  · rw [hodd, if_pos rfl, total_left h, merge_assoc]

theorem total_evenRight [Std.Commutative merge] (h : l ≤ r - r % 2) (acc : Option α) :
    Option.merge merge (if r % 2 = 1 then acc.merge merge (node (r - 1)) else acc)
      (total merge node l (r - r % 2)) = acc.merge merge (total merge node l r) := by
  rcases Nat.mod_two_eq_zero_or_one r with heven | hodd
  · rw [heven, if_neg (by decide), Nat.sub_zero]
  · rw [hodd] at h ⊢
    obtain ⟨r, rfl⟩ : ∃ r', r = r' + 1 := ⟨r - 1, by omega⟩
    rw [Nat.add_sub_cancel] at h ⊢
    rw [if_pos rfl, total_right h, merge_assoc,
      merge_comm (node r)]

theorem queryFrom_eq [Std.Commutative merge] {forest : SegmentForest α}
    (hmerge : forest.merge = merge) (hnode : ∀ i, 1 ≤ i → i < forest.n → nodeAt forest.tree i =
      (nodeAt forest.tree (2 * i)).merge merge (nodeAt forest.tree (2 * i + 1)))
    {fuel : ℕ} {acc : Option α} (hl : 1 ≤ l) (hlr : l ≤ r) (hr : r ≤ 2 * forest.n)
    (hfuel : r ≤ fuel) :
    forest.queryFrom fuel l r acc = acc.merge merge (total merge (nodeAt forest.tree) l r) := by
  induction fuel generalizing l r acc with
  | zero => omega
  | succ fuel ih =>
    rw [queryFrom, hmerge]
    by_cases hlt : l < r
    · rw [if_pos hlt]
      dsimp only
      have hhalves : (l + l % 2) / 2 ≤ (r - r % 2) / 2 := by omega
      rw [ih (by omega) hhalves (by omega) (by omega),
        ← total_double hnode (by omega) hhalves (by omega),
        Nat.mul_div_cancel' (by omega : 2 ∣ l + l % 2),
        Nat.mul_div_cancel' (by omega : 2 ∣ r - r % 2),
        total_evenRight (by omega), total_evenLeft hlt]
    · obtain rfl : l = r := by omega
      rw [if_neg hlt, total_self, Option.merge_none_right]

end Total

theorem map_nodeAt (leaves : List α) {lo hi : ℕ} (hlo : lo ≤ hi) (hhi : hi ≤ leaves.length) :
    (List.range' (lo + leaves.length) (hi - lo)).map (nodeAt (build leaves merge).tree) =
      ((leaves.take hi).drop lo).map some := by
  apply List.ext_getElem
  · rw [List.length_map, List.length_range', List.length_map, List.length_drop, List.length_take,
      min_eq_left hhi]
  · intro k hk _
    rw [List.length_map, List.length_range'] at hk
    rw [List.getElem_map, List.getElem_range', Nat.one_mul, Nat.add_right_comm,
      nodeAt_leaf (by omega), List.getElem_map, List.getElem_drop, List.getElem_take]

theorem query_eq_foldr [Std.Associative merge] [Std.Commutative merge] (leaves : List α)
    (lo hi : ℤ) :
    (build leaves merge).query lo hi =
      (((leaves.take hi.toNat).drop lo.toNat).map some).foldr (Option.merge merge) none := by
  rw [query]
  have hn : (build leaves merge).n = leaves.length := rfl
  have hmerge : (build leaves merge).merge = merge := rfl
  rw [hn]
  by_cases hempty : min hi leaves.length ≤ max lo 0
  · have hnone : (leaves.take hi.toNat).drop lo.toNat = [] := by
      apply List.drop_eq_nil_of_le
      rw [List.length_take]
      omega
    rw [if_pos hempty, hnone]
    rfl
  · rw [if_neg hempty, queryFrom_eq hmerge (fun i => nodeAt_inner) (by omega) (by omega)
      (by rw [hn]; omega) le_rfl, Option.merge_none_left, total, Nat.add_sub_add_right,
      map_nodeAt leaves (by omega) (by omega)]
    have hlo : (max lo 0).toNat = lo.toNat := by omega
    have htake : leaves.take (min hi leaves.length).toNat = leaves.take hi.toNat := by
      rcases le_total hi leaves.length with hle | hge
      · rw [min_eq_left hle]
      · rw [min_eq_right hge, Int.toNat_natCast, List.take_length,
          List.take_of_length_le (by omega)]
    rw [hlo, htake]

end SegmentForest

end Dial9.Lib
