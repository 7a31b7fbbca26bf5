/-
# Statistics of slow and typical spans

A comparison of two samples rests on three numbers: how far apart their
distributions are, how often one exceeds the other, and where each value ranks.
The code finds each in passes over sorted values that take equal values together.
-/

import Dial9.Lib.OrderStatistics
import Dial9.Viewer.Polls
import Mathlib.Algebra.BigOperators.Intervals
import Mathlib.Algebra.Order.Field.Rat
import Mathlib.Order.Bounds.Basic
import Mathlib.Tactic.Linarith

namespace Dial9.Viewer.Tail

open Lib
  (length_takeWhile takeWhile_eq_filter getElem_iff_lt_countP drop_countP countP_add_takeWhile
  countP_lt_countP)
open Polls (partitionPoint)

/-! ## The computations -/

def fraction (count total : Nat) : ℚ := if total = 0 then 0 else count / total

/-- `while samples.get(i).is_some_and(|n| *n <= value) { i += 1 }`. -/
def advance (samples : List ℚ) (value : ℚ) (i : Nat) : Nat :=
  i + ((samples.drop i).takeWhile fun n => n ≤ value).length

/-- The lower of the next values, or the next of the list that is not at its end. -/
def nextValue : Option ℚ → Option ℚ → Option ℚ
  | some a, some b => some (min a b)
  | some a, none => some a
  | none, some b => some b
  | none, none => none

/-- The loop over both samples. Each turn passes a value, so as many turns as there are values
suffice. -/
def cdfDistanceFrom (a b : List ℚ) : (fuel ai bi : Nat) → ℚ → ℚ
  | 0, _, _, distance => distance
  | fuel + 1, ai, bi, distance =>
    match nextValue a[ai]? b[bi]? with
    | none => distance
    | some value =>
      cdfDistanceFrom a b fuel (advance a value ai) (advance b value bi)
        (max distance |fraction (advance a value ai) a.length -
          fraction (advance b value bi) b.length|)

def cdfDistance (a b : List ℚ) : ℚ := cdfDistanceFrom a b (a.length + b.length) 0 0 0

def separation (typical slow : List ℚ) : Option ℚ :=
  if typical.isEmpty || slow.isEmpty then none
  else
    let sorted := typical.insertionSort (· ≤ ·)
    let wins := (slow.map fun n =>
      let below := partitionPoint (fun v => v < n) sorted
      let equalEnd := partitionPoint (fun v => v ≤ n) sorted
      (below : ℚ) + ((equalEnd - below : Nat) : ℚ) / 2).sum
    some (2 * wins / ((typical.length : ℚ) * slow.length) - 1)

def valueAt (values : List ℚ) (k : Nat) : ℚ := values.getD k 0

/-- Where the run of values equal to the one at `i` ends. -/
def runEnd (values : List ℚ) (order : List Nat) (i first : Nat) : Nat :=
  i + 1 + ((order.drop (i + 1)).takeWhile fun k =>
    valueAt values k = valueAt values first).length

/-- The loop over the runs of equal values; each turn passes one. -/
def ranksFrom (values : List ℚ) (order : List Nat) : (fuel i : Nat) → List ℚ → List ℚ
  | 0, _, ranks => ranks
  | fuel + 1, i, ranks =>
    match order[i]? with
    | none => ranks
    | some first =>
      let stop := runEnd values order i first
      ranksFrom values order fuel stop
        (((order.drop i).take (stop - i)).foldl
          (fun ranks index => ranks.set index (((i + stop - 1 : Nat) : ℚ) / 2)) ranks)

def ranks (values : List ℚ) : List ℚ :=
  ranksFrom values
    ((List.range values.length).insertionSort fun a b => valueAt values a ≤ valueAt values b)
    values.length 0 (List.replicate values.length 0)

/-! ## What they are to be -/

/-- The empirical distribution function: the share of the samples up to `x`. -/
def empirical (samples : List ℚ) (x : ℚ) : ℚ := samples.countP (· ≤ x) / samples.length

def gap (a b : List ℚ) (x : ℚ) : ℚ := |empirical a x - empirical b x|

/-- The pairs of a value of `xs` and a value of `ys` that are related. -/
def pairs (related : ℚ → ℚ → Bool) (xs ys : List ℚ) : Nat :=
  (xs ×ˢ ys).countP fun pair => related pair.1 pair.2

/-- The positions that hold the value once the values are sorted. -/
def positions (values : List ℚ) (v : ℚ) : Finset Nat :=
  (Finset.range values.length).filter fun k => (values.insertionSort (· ≤ ·))[k]? = some v

def averagePosition (values : List ℚ) (v : ℚ) : ℚ :=
  (∑ k ∈ positions values v, (k : ℚ)) / (positions values v).card

example : cdfDistance [1, 2, 2] [2, 3] = 1 / 2 := by decide +kernel

example : ranks [5, 1, 5, 2] = [5 / 2, 0, 5 / 2, 1] := by decide +kernel

/-! ## Distance -/

/-- A test that lower values pass. -/
def Lower (p : ℚ → Bool) : Prop := ∀ x y, x ≤ y → p y = true → p x = true

theorem lower_le (v : ℚ) : Lower fun x => decide (x ≤ v) := fun _ _ hxy hy =>
  decide_eq_true (hxy.trans (of_decide_eq_true hy))

theorem lower_lt (v : ℚ) : Lower fun x => decide (x < v) := fun _ _ hxy hy =>
  decide_eq_true (hxy.trans_lt (of_decide_eq_true hy))

variable {samples a b values typical slow : List ℚ} {p : ℚ → Bool} {v x : ℚ}

theorem Lower.pairwise (hp : Lower p) (hsorted : samples.Pairwise (· ≤ ·)) :
    samples.Pairwise fun x y => p y = true → p x = true :=
  hsorted.imp fun hxy => hp _ _ hxy

theorem fraction_eq (count total : Nat) : fraction count total = count / total := by
  unfold fraction
  split
  · simp [*]
  · rfl

theorem advance_eq (hsorted : samples.Pairwise (· ≤ ·)) (hp : Lower p)
    (hpv : ∀ x, p x = true → x ≤ v) :
    advance samples v (samples.countP p) = samples.countP (· ≤ v) :=
  countP_add_takeWhile (hp.pairwise hsorted) ((lower_le v).pairwise hsorted)
    fun x hx => decide_eq_true (hpv x hx)

theorem getElem?_countP {α : Type} {as : List α} (key : α → ℚ)
    (hsorted : as.Pairwise fun x y => key x ≤ key y) (hp : Lower p) :
    (as[as.countP fun x => p (key x)]? = none ∧ ∀ x ∈ as, p (key x) = true) ∨
      ∃ v, as[as.countP fun x => p (key x)]? = some v ∧ v ∈ as ∧ p (key v) = false ∧
        ∀ x ∈ as, p (key x) = false → key v ≤ key x := by
  have hrest := hsorted.sublist (List.filter_sublist (p := fun x => !p (key x)))
  rw [← List.head?_drop, drop_countP (hsorted.imp fun hxy => hp _ _ hxy)]
  have hmem (x : α) : x ∈ as.filter (fun x => !p (key x)) ↔ x ∈ as ∧ p (key x) = false := by
    simp
  cases hfilter : as.filter fun x => !p (key x) with
  | nil =>
    refine .inl ⟨rfl, fun x hx => ?_⟩
    rw [hfilter] at hmem
    by_contra hfail
    exact List.not_mem_nil ((hmem x).mpr ⟨hx, by simpa using hfail⟩)
  | cons v rest =>
    rw [hfilter] at hmem hrest
    obtain ⟨hv, hfail⟩ := (hmem v).mp List.mem_cons_self
    refine .inr ⟨v, rfl, hv, hfail, fun x hx hxfail => ?_⟩
    rcases List.mem_cons.mp ((hmem x).mpr ⟨hx, hxfail⟩) with rfl | hx
    · exact le_rfl
    · exact (List.pairwise_cons.mp hrest).1 x hx

theorem nextValue_spec (ha : a.Pairwise (· ≤ ·)) (hb : b.Pairwise (· ≤ ·)) (hp : Lower p) :
    (nextValue a[a.countP p]? b[b.countP p]? = none ∧ ∀ x ∈ a ++ b, p x = true) ∨
      ∃ v, nextValue a[a.countP p]? b[b.countP p]? = some v ∧ v ∈ a ++ b ∧ p v = false ∧
        ∀ x ∈ a ++ b, p x = false → v ≤ x := by
  simp only [List.mem_append]
  obtain ⟨hnone, hall⟩ | ⟨v, hsome, hv, hfail, hleast⟩ := getElem?_countP (fun x => x) ha hp
  · obtain ⟨hnone', hall'⟩ | ⟨w, hsome', hw, hfail', hleast'⟩ := getElem?_countP (fun x => x) hb hp
    · rw [hnone, hnone']
      exact .inl ⟨rfl, fun x hx => hx.elim (hall x) (hall' x)⟩
    · rw [hnone, hsome']
      refine .inr ⟨w, rfl, .inr hw, hfail', fun x hx hxfail => ?_⟩
      rcases hx with hx | hx
      · rw [hall x hx] at hxfail
        cases hxfail
      · exact hleast' x hx hxfail
  · obtain ⟨hnone', hall'⟩ | ⟨w, hsome', hw, hfail', hleast'⟩ := getElem?_countP (fun x => x) hb hp
    · rw [hsome, hnone']
      refine .inr ⟨v, rfl, .inl hv, hfail, fun x hx hxfail => ?_⟩
      rcases hx with hx | hx
      · exact hleast x hx hxfail
      · rw [hall' x hx] at hxfail
        cases hxfail
    · rw [hsome, hsome']
      have hmin : (min v w ∈ a ∨ min v w ∈ b) ∧ p (min v w) = false := by
        rcases min_choice v w with h | h
        · rw [h]
          exact ⟨.inl hv, hfail⟩
        · rw [h]
          exact ⟨.inr hw, hfail'⟩
      refine .inr ⟨min v w, rfl, hmin.1, hmin.2, fun x hx hxfail => ?_⟩
      rcases hx with hx | hx
      · exact (min_le_left v w).trans (hleast x hx hxfail)
      · exact (min_le_right v w).trans (hleast' x hx hxfail)

/-- The loop returns the largest gap at a value still ahead, if none before was larger. -/
theorem cdfDistanceFrom_spec (ha : a.Pairwise (· ≤ ·)) (hb : b.Pairwise (· ≤ ·)) (fuel : Nat)
    (hp : Lower p) (hfuel : (a ++ b).length ≤ (a ++ b).countP p + fuel) (distance : ℚ) :
    let result := cdfDistanceFrom a b fuel (a.countP p) (b.countP p) distance
    distance ≤ result ∧ (∀ v ∈ a ++ b, p v = false → gap a b v ≤ result) ∧
      (result = distance ∨ ∃ v ∈ a ++ b, gap a b v = result) := by
  induction fuel generalizing p distance with
  | zero =>
    have hall := List.countP_eq_length.mp (le_antisymm List.countP_le_length hfuel)
    exact ⟨le_rfl, fun v hv hfail => absurd (hall v hv) (by simp [hfail]), .inl rfl⟩
  | succ fuel ih =>
    dsimp only [cdfDistanceFrom]
    obtain ⟨hnone, hall⟩ | ⟨v, hsome, hv, hfail, hleast⟩ := nextValue_spec ha hb hp
    · rw [hnone]
      refine ⟨le_rfl, fun v hv hfail => ?_, .inl rfl⟩
      rw [hall v hv] at hfail
      cases hfail
    · have hpv (x : ℚ) (hx : p x = true) : x ≤ v := by
        by_contra hlt
        rw [hp v x (not_le.mp hlt).le hx] at hfail
        cases hfail
      have hmore : (a ++ b).countP p < (a ++ b).countP fun x => decide (x ≤ v) :=
        countP_lt_countP (fun x hx => decide_eq_true (hpv x hx)) hv hfail (decide_eq_true le_rfl)
      rw [hsome]
      dsimp only
      rw [advance_eq ha hp hpv, advance_eq hb hp hpv, fraction_eq, fraction_eq]
      obtain ⟨hgrown, hahead, hfrom⟩ := ih (lower_le v) (by omega) (max distance (gap a b v))
      refine ⟨(le_max_left _ _).trans hgrown, fun w hw hwfail => ?_, ?_⟩
      · rcases le_or_gt w v with hwv | hwv
        · rw [le_antisymm hwv (hleast w hw hwfail)]
          exact (le_max_right _ _).trans hgrown
        · exact hahead w hw (decide_eq_false (not_le.mpr hwv))
      · rcases hfrom with heq | hgap
        · rcases max_choice distance (gap a b v) with h | h
          · exact .inl (heq.trans h)
          · exact .inr ⟨v, hv, (heq.trans h).symm⟩
        · exact .inr hgap

theorem gap_cases (a b : List ℚ) (x : ℚ) : gap a b x = 0 ∨ ∃ v ∈ a ++ b, gap a b v = gap a b x := by
  by_cases hnone : ∀ v ∈ a ++ b, ¬ v ≤ x
  · left
    have hcount (samples : List ℚ) (h : ∀ v ∈ samples, ¬ v ≤ x) : empirical samples x = 0 := by
      rw [empirical, List.countP_eq_zero.mpr (by simpa using h)]
      simp
    rw [gap, hcount a fun v hv => hnone v (List.mem_append_left _ hv),
      hcount b fun v hv => hnone v (List.mem_append_right _ hv), sub_zero, abs_zero]
  · right
    push Not at hnone
    obtain ⟨w, hw, hwx⟩ := hnone
    let below := (a ++ b).toFinset.filter (· ≤ x)
    have hne : below.Nonempty := ⟨w, Finset.mem_filter.mpr ⟨List.mem_toFinset.mpr hw, hwx⟩⟩
    obtain ⟨hmem, hle⟩ := Finset.mem_filter.mp (below.max'_mem hne)
    have hcount (samples : List ℚ) (hsub : ∀ v ∈ samples, v ∈ a ++ b) :
        empirical samples (below.max' hne) = empirical samples x := by
      rw [empirical, empirical, List.countP_congr fun v hv => ?_]
      rw [decide_eq_true_iff, decide_eq_true_iff]
      refine ⟨fun h => h.trans hle, fun h => below.le_max' v ?_⟩
      exact Finset.mem_filter.mpr ⟨List.mem_toFinset.mpr (hsub v hv), h⟩
    refine ⟨_, List.mem_toFinset.mp hmem, ?_⟩
    rw [gap, gap, hcount a fun v => List.mem_append_left _,
      hcount b fun v => List.mem_append_right _]

theorem cdfDistance_isLUB (ha : a.Pairwise (· ≤ ·)) (hb : b.Pairwise (· ≤ ·)) :
    IsLUB (Set.range (gap a b)) (cdfDistance a b) := by
  have hnone (samples : List ℚ) : samples.countP (fun _ => false) = 0 := by simp
  obtain ⟨hzero, hahead, hfrom⟩ := cdfDistanceFrom_spec (p := fun _ => false) ha hb
    (a.length + b.length) (fun _ _ _ h => h) (by simp) 0
  rw [hnone a, hnone b] at hzero hahead hfrom
  constructor
  · rintro _ ⟨x, rfl⟩
    rcases gap_cases a b x with h | ⟨v, hv, h⟩
    · rw [h]
      exact hzero
    · rw [← h]
      exact hahead v hv rfl
  · intro bound hbound
    have hgap (x : ℚ) : gap a b x ≤ bound := hbound ⟨x, rfl⟩
    rcases hfrom with h | ⟨v, -, h⟩
    · exact h.le.trans ((abs_nonneg _).trans (hgap 0))
    · exact h.symm.le.trans (hgap v)

/-! ## Separation -/

theorem countP_insertionSort (q : ℚ → Bool) :
    (values.insertionSort (· ≤ ·)).countP q = values.countP q :=
  (List.perm_insertionSort _ _).countP_eq q

theorem partitionPoint_eq (hp : Lower p) :
    partitionPoint p (values.insertionSort (· ≤ ·)) = values.countP p := by
  rw [← countP_insertionSort]
  exact length_takeWhile (hp.pairwise (List.pairwise_insertionSort _ _))

theorem pairs_cons (related : ℚ → ℚ → Bool) (x : ℚ) (xs ys : List ℚ) :
    pairs related (x :: xs) ys = ys.countP (related x) + pairs related xs ys := by
  rw [pairs, List.product_cons, List.countP_append, List.countP_map]
  rfl

theorem pairs_comm (related : ℚ → ℚ → Bool) (xs ys : List ℚ) :
    pairs related xs ys = pairs (fun y x => related x y) ys xs := by
  induction xs with
  | nil => induction ys with
    | nil => rfl
    | cons y ys ih => rw [pairs_cons, ← ih]; rfl
  | cons x xs ih =>
    rw [pairs_cons, ih]
    clear ih
    induction ys with
    | nil => rfl
    | cons y ys ih =>
      rw [pairs_cons, pairs_cons, List.countP_cons, List.countP_cons, ← ih]
      omega

theorem countP_le_add (v : ℚ) (samples : List ℚ) :
    samples.countP (· ≤ v) + samples.countP (v < ·) = samples.length := by
  rw [List.length_eq_countP_add_countP (p := fun n => decide (n ≤ v))]
  congr 1
  exact List.countP_congr fun n _ => by simp

theorem wins_eq (typical slow : List ℚ) :
    2 * (slow.map fun n => (typical.countP (· < n) : ℚ) +
        ((typical.countP (· ≤ n) - typical.countP (· < n) : Nat) : ℚ) / 2).sum =
      pairs (fun n v => v < n) slow typical - pairs (fun n v => n < v) slow typical +
        (typical.length : ℚ) * slow.length := by
  induction slow with
  | nil => simp [pairs]
  | cons n slow ih =>
    have hbelow : typical.countP (· < n) ≤ typical.countP (· ≤ n) :=
      List.countP_mono_left fun v _ hv => decide_eq_true (of_decide_eq_true hv).le
    have hall : (typical.countP (· ≤ n) : ℚ) + typical.countP (n < ·) = typical.length :=
      mod_cast countP_le_add n typical
    rw [List.map_cons, List.sum_cons, mul_add, ih, pairs_cons, pairs_cons, List.length_cons,
      Nat.cast_sub hbelow]
    push_cast
    linarith

theorem separation_eq (htypical : typical ≠ []) (hslow : slow ≠ []) :
    separation typical slow = some
      ((pairs (fun n v => v < n) slow typical - pairs (fun n v => n < v) slow typical) /
        ((typical.length : ℚ) * slow.length)) := by
  have hpos (samples : List ℚ) (h : samples ≠ []) : (samples.length : ℚ) ≠ 0 :=
    mod_cast (List.length_pos_iff.mpr h).ne'
  have hall : (typical.length : ℚ) * slow.length ≠ 0 :=
    mul_ne_zero (hpos typical htypical) (hpos slow hslow)
  rw [separation, if_neg (by simp [htypical, hslow])]
  simp only [partitionPoint_eq (lower_lt _), partitionPoint_eq (lower_le _)]
  rw [wins_eq, add_div, div_self hall, add_sub_cancel_right]

/-! ## Ranks -/

/-- Halfway through the positions of the values equal to `v`. -/
def midRank (values : List ℚ) (v : ℚ) : ℚ :=
  ((values.countP (· < v) + values.countP (· ≤ v) - 1 : Nat) : ℚ) / 2

theorem getElem?_foldl_set (run : List Nat) (rank : ℚ) (ranks : List ℚ) (k : Nat) :
    (run.foldl (fun ranks index => ranks.set index rank) ranks)[k]? =
      if k ∈ run ∧ k < ranks.length then some rank else ranks[k]? := by
  induction run generalizing ranks with
  | nil => simp
  | cons index run ih =>
    rw [List.foldl_cons, ih, List.length_set, List.getElem?_set]
    by_cases hk : index = k
    · subst hk
      by_cases hlt : index < ranks.length
      · simp [hlt]
      · simp [hlt]
    · simp [hk, Ne.symm hk]

theorem length_foldl_set (run : List Nat) (rank : ℚ) (ranks : List ℚ) :
    (run.foldl (fun ranks index => ranks.set index rank) ranks).length = ranks.length := by
  induction run generalizing ranks with
  | nil => rfl
  | cons index run ih => rw [List.foldl_cons, ih, List.length_set]

theorem map_valueAt (values : List ℚ) :
    (List.range values.length).map (valueAt values) = values := by
  apply List.ext_getElem
  · simp
  · intro k hk hk'
    simp [valueAt, List.getElem?_eq_getElem hk']

section Runs

variable {order : List Nat} {first : Nat}
  (hsorted : order.Pairwise fun j k => valueAt values j ≤ valueAt values k)
include hsorted

theorem runEnd_eq (hp : Lower p)
    (hfirst : order[order.countP fun k => p (valueAt values k)]? = some first)
    (hleast : ∀ k ∈ order, p (valueAt values k) = false → valueAt values first ≤ valueAt values k)
    (hbelow : ∀ v, p v = true → v ≤ valueAt values first) :
    runEnd values order (order.countP fun k => p (valueAt values k)) first =
      order.countP fun k => valueAt values k ≤ valueAt values first := by
  have hlower := lower_le (valueAt values first)
  have hpre := hsorted.imp fun {j k} hjk => hp (valueAt values j) (valueAt values k) hjk
  have hwide := hsorted.imp fun {j k} hjk => hlower (valueAt values j) (valueAt values k) hjk
  rw [← countP_add_takeWhile hpre hwide fun k hk => decide_eq_true (hbelow _ hk)]
  have hdrop := drop_countP hpre
  obtain ⟨hlt, hget⟩ := List.getElem?_eq_some_iff.mp hfirst
  have hcons := List.drop_eq_getElem_cons hlt
  rw [hget] at hcons
  have hrest (k : Nat) (hk : k ∈ order.drop ((order.countP fun k => p (valueAt values k)) + 1)) :
      valueAt values first ≤ valueAt values k := by
    have hmem := List.mem_cons_of_mem first hk
    rw [← hcons, hdrop] at hmem
    exact hleast k (List.mem_filter.mp hmem).1 (by simpa using (List.mem_filter.mp hmem).2)
  rw [runEnd, hcons]
  dsimp only
  rw [List.takeWhile_cons_of_pos (by simp), List.length_cons, length_takeWhile,
    length_takeWhile (hwide.sublist (List.drop_sublist _ _)), add_assoc, add_comm 1]
  · congr 2
    exact List.countP_congr fun k hk => by
      rw [decide_eq_true_iff, decide_eq_true_iff]
      exact ⟨fun h => h.le, fun h => le_antisymm h (hrest k hk)⟩
  · refine (hsorted.sublist (List.drop_sublist _ _)).imp_of_mem fun {j k} hj _ hjk hk => ?_
    exact decide_eq_true (le_antisymm (hjk.trans (of_decide_eq_true hk).le) (hrest j hj))

theorem mem_run (hp : Lower p) (hbelow : ∀ x, p x = true → x ≤ v) {k : Nat} :
    k ∈ (order.drop (order.countP fun k => p (valueAt values k))).take
      ((order.countP fun k => valueAt values k ≤ v) - order.countP fun k => p (valueAt values k)) ↔
        k ∈ order ∧ p (valueAt values k) = false ∧ valueAt values k ≤ v := by
  have hpre := hsorted.imp fun {j k} hjk => hp (valueAt values j) (valueAt values k) hjk
  have hwide := hsorted.imp fun {j k} hjk =>
    lower_le v (valueAt values j) (valueAt values k) hjk
  rw [← countP_add_takeWhile hpre hwide fun k hk => decide_eq_true (hbelow _ hk),
    Nat.add_sub_cancel_left, ← List.prefix_iff_eq_take.mp (List.takeWhile_prefix _),
    takeWhile_eq_filter (hwide.sublist (List.drop_sublist _ _)), drop_countP hpre]
  simp [and_comm]

/-- The loop leaves every value its rank, if those that pass have theirs. -/
theorem ranksFrom_spec (hperm : order.Perm (List.range values.length)) (fuel : Nat)
    (hp : Lower p) (hfuel : order.length ≤ order.countP (fun k => p (valueAt values k)) + fuel)
    {ranks : List ℚ} (hlength : ranks.length = values.length)
    (hset : ∀ k < values.length, p (valueAt values k) = true →
      ranks[k]? = some (midRank values (valueAt values k))) :
    let result := ranksFrom values order fuel (order.countP fun k => p (valueAt values k)) ranks
    result.length = values.length ∧
      ∀ k < values.length, result[k]? = some (midRank values (valueAt values k)) := by
  have hmem (k : Nat) : k ∈ order ↔ k < values.length := by
    rw [hperm.mem_iff, List.mem_range]
  have hcount (q : ℚ → Bool) : order.countP (fun k => q (valueAt values k)) = values.countP q := by
    conv_rhs => rw [← map_valueAt values, List.countP_map]
    exact hperm.countP_eq _
  induction fuel generalizing p ranks with
  | zero =>
    have hall := List.countP_eq_length.mp (le_antisymm List.countP_le_length hfuel)
    exact ⟨hlength, fun k hk => hset k hk (hall k ((hmem k).mpr hk))⟩
  | succ fuel ih =>
    dsimp only [ranksFrom]
    obtain ⟨hnone, hall⟩ | ⟨first, hsome, hfirst, hfail, hleast⟩ :=
      getElem?_countP (valueAt values) hsorted hp
    · rw [hnone]
      exact ⟨hlength, fun k hk => hset k hk (hall k ((hmem k).mpr hk))⟩
    · have hbelow (x : ℚ) (hx : p x = true) : x < valueAt values first := by
        by_contra hle
        rw [hp _ x (not_lt.mp hle) hx] at hfail
        cases hfail
      have hle (x : ℚ) (hx : p x = true) := (hbelow x hx).le
      have hstart : order.countP (fun k => p (valueAt values k)) =
          values.countP (· < valueAt values first) := by
        rw [← hcount]
        refine List.countP_congr fun k hk => ?_
        rw [decide_eq_true_iff]
        refine ⟨hbelow _, fun hlt => ?_⟩
        by_contra hkfail
        exact absurd (hleast k hk (by simpa using hkfail)) (not_le.mpr hlt)
      rw [hsome]
      dsimp only
      rw [runEnd_eq hsorted hp hsome hleast hle]
      refine ih (lower_le (valueAt values first)) ?_ ?_ fun k hk hkle => ?_
      · have hmore :=
          countP_lt_countP (fun k hk => decide_eq_true (hle (valueAt values k) hk)) hfirst
          hfail (decide_eq_true le_rfl)
        omega
      · rw [length_foldl_set, hlength]
      · rw [decide_eq_true_iff] at hkle
        have hrun := mem_run hsorted hp hle (k := k)
        rw [getElem?_foldl_set]
        by_cases hkp : p (valueAt values k) = true
        · rw [if_neg fun h => by simp [hkp] at hrun; exact hrun h.1]
          exact hset k hk hkp
        · have hkfail : p (valueAt values k) = false := by simpa using hkp
          have hupTo := hcount fun x => decide (x ≤ valueAt values first)
          rw [if_pos ⟨hrun.mpr ⟨(hmem k).mpr hk, hkfail, hkle⟩, by omega⟩,
            le_antisymm hkle (hleast k ((hmem k).mpr hk) hkfail), midRank, hstart, hupTo]

end Runs

theorem ranks_eq (values : List ℚ) : ranks values = values.map (midRank values) := by
  have hsorted := List.pairwise_insertionSort (fun j k => valueAt values j ≤ valueAt values k)
    (List.range values.length)
  have hnone (order : List Nat) : order.countP (fun _ => false) = 0 := by simp
  obtain ⟨hlength, hget⟩ := ranksFrom_spec hsorted (List.perm_insertionSort _ _)
    values.length (p := fun _ => false) (fun _ _ _ h => h) (by simp)
    (List.length_replicate (a := (0 : ℚ))) (fun _ _ h => by cases h)
  rw [hnone] at hlength hget
  apply List.ext_getElem?
  intro k
  by_cases hk : k < values.length
  · rw [ranks, hget k hk]
    simp [valueAt, hk]
  · rw [ranks, List.getElem?_eq_none (by omega), List.getElem?_eq_none (by simpa using hk)]

theorem positions_eq (values : List ℚ) (v : ℚ) :
    positions values v = Finset.Ico (values.countP (· < v)) (values.countP (· ≤ v)) := by
  have hsorted := List.pairwise_insertionSort (· ≤ ·) values
  ext k
  rw [positions, Finset.mem_filter, Finset.mem_range, Finset.mem_Ico]
  have hle : values.countP (· ≤ v) ≤ values.length := List.countP_le_length
  by_cases hk : k < values.length
  · have hk' : k < (values.insertionSort (· ≤ ·)).length := by rwa [List.length_insertionSort]
    have hlt := getElem_iff_lt_countP ((lower_lt v).pairwise hsorted) hk'
    have hupTo := getElem_iff_lt_countP ((lower_le v).pairwise hsorted) hk'
    rw [countP_insertionSort, decide_eq_true_iff] at hlt hupTo
    rw [List.getElem?_eq_getElem hk', Option.some_inj, ← hupTo, ← not_lt (a := k), ← hlt,
      not_lt]
    exact ⟨fun h => ⟨h.2.symm.le, h.2.le⟩, fun h => ⟨hk, le_antisymm h.2 h.1⟩⟩
  · exact iff_of_false (fun h => hk h.1) (by omega)

theorem sum_Ico {m n : Nat} (h : m ≤ n) :
    (∑ k ∈ Finset.Ico m n, (k : ℚ)) = (n - m) * (m + n - 1) / 2 := by
  induction n, h using Nat.le_induction with
  | base => simp
  | succ n h ih =>
    rw [Finset.sum_Ico_succ_top h, ih]
    push_cast
    ring

theorem midRank_eq_averagePosition (hv : v ∈ values) :
    midRank values v = averagePosition values v := by
  have hlt : values.countP (· < v) < values.countP (· ≤ v) :=
    countP_lt_countP (fun x hx => decide_eq_true (of_decide_eq_true hx).le) hv (by simp) (by simp)
  rw [averagePosition, positions_eq, sum_Ico hlt.le, Nat.card_Ico, midRank, Nat.cast_sub hlt.le,
    Nat.cast_sub (by omega)]
  have hne : (values.countP (· ≤ v) : ℚ) - values.countP (· < v) ≠ 0 :=
    sub_ne_zero.mpr (by exact_mod_cast hlt.ne')
  push_cast
  rw [mul_div_assoc, mul_div_cancel_left₀ _ hne]

/-- Every pair of values counts once, towards the rank of the higher or of both. -/
theorem sum_ranks (values : List ℚ) :
    (ranks values).sum = values.length * (values.length - 1) / 2 := by
  have hsum (samples : List ℚ) (hsub : ∀ v ∈ samples, v ∈ values) :
      2 * (samples.map (midRank values)).sum =
        pairs (fun v n => n < v) samples values - pairs (fun v n => v < n) samples values +
          samples.length * (values.length - 1) := by
    induction samples with
    | nil => simp [pairs]
    | cons v samples ih =>
      have hpos : 0 < values.countP (· ≤ v) :=
        List.countP_pos_iff.mpr ⟨v, hsub v List.mem_cons_self, by simp⟩
      have hall : (values.countP (· ≤ v) : ℚ) + values.countP (v < ·) = values.length :=
        mod_cast countP_le_add v values
      rw [List.map_cons, List.sum_cons, mul_add,
        ih fun w hw => hsub w (List.mem_cons_of_mem v hw), pairs_cons, pairs_cons,
        List.length_cons, midRank, Nat.cast_sub (by omega)]
      push_cast
      linarith
  have hself := hsum values fun _ hv => hv
  rw [pairs_comm (fun v n => v < n)] at hself
  rw [ranks_eq]
  linarith

/-- The distance is the supremum of the gap between the distributions, the separation is the
surplus of pairs, and each value ranks at the average of its positions. -/
theorem tail_statistics :
    (∀ a b : List ℚ, a ≠ [] → b ≠ [] → a.Pairwise (· ≤ ·) → b.Pairwise (· ≤ ·) →
      IsLUB (Set.range (gap a b)) (cdfDistance a b)) ∧
    (∀ typical slow : List ℚ, typical ≠ [] → slow ≠ [] → separation typical slow = some
      (((pairs (fun n v => v < n) slow typical : ℚ) - pairs (fun n v => n < v) slow typical) /
        pairs (fun _ _ => true) slow typical)) ∧
    ∀ values : List ℚ, ranks values = values.map (averagePosition values) ∧
      (ranks values).sum = values.length * (values.length - 1) / 2 := by
  refine ⟨fun a b _ _ ha hb => cdfDistance_isLUB ha hb, fun typical slow htypical hslow => ?_,
    fun values => ⟨?_, sum_ranks values⟩⟩
  · have hall : pairs (fun _ _ => true) slow typical = typical.length * slow.length := by
      rw [pairs, List.countP_true, List.length_product, mul_comm]
    rw [separation_eq htypical hslow, hall, Nat.cast_mul]
  · rw [ranks_eq]
    exact List.map_congr_left fun v hv => midRank_eq_averagePosition hv

theorem tail_statistics_tied :
    IsLUB (Set.range (gap [1, 2, 2] [2, 3])) (cdfDistance [1, 2, 2] [2, 3]) ∧
      separation [1, 2] [2, 3] = some
        (((pairs (fun n v => v < n) [2, 3] [1, 2] : ℚ) - pairs (fun n v => n < v) [2, 3] [1, 2]) /
          pairs (fun _ _ => true) [2, 3] [1, 2]) :=
  ⟨tail_statistics.1 _ _ (by decide) (by decide) (by decide) (by decide),
    tail_statistics.2.1 _ _ (by decide) (by decide)⟩

end Dial9.Viewer.Tail
