/-
# Halving searches

Two loops that halve a window of indices by a test. One runs over a half-open
window and ends at the first index that fails; the other runs over a closed
window and keeps the last index that it saw pass. Where the test goes from
passing to failing once, both find the place.
-/

import Mathlib.Algebra.Order.Ring.Nat
import Mathlib.Data.List.Basic

namespace Dial9.Lib

/-! ## The loops -/

/-- `while (a < b)` over `[a, b)`, with the fuel for it. -/
def firstFailingFrom (p : ℕ → Bool) : (fuel a b : ℕ) → ℕ
  | 0, a, _ => a
  | fuel + 1, a, b =>
    if a < b then
      if p ((a + b) / 2) then firstFailingFrom p fuel ((a + b) / 2 + 1) b
      else firstFailingFrom p fuel a ((a + b) / 2)
    else a

/-- The index at which the search over `[a, b)` ends. -/
def firstFailing (p : ℕ → Bool) (a b : ℕ) : ℕ := firstFailingFrom p (b - a) a b

/-- `while (lo <= hi)` with `b` for `hi + 1`, which leaves no bound below zero, and the last
index that passed so far. -/
def lastPassingFrom (p : ℕ → Bool) : (fuel lo b : ℕ) → Option ℕ → Option ℕ
  | 0, _, _, best => best
  | fuel + 1, lo, b, best =>
    if lo < b then
      if p ((lo + (b - 1)) / 2) then
        lastPassingFrom p fuel ((lo + (b - 1)) / 2 + 1) b (some ((lo + (b - 1)) / 2))
      else lastPassingFrom p fuel lo ((lo + (b - 1)) / 2) best
    else best

/-- The last index of `[lo, b)` that the search saw pass. -/
def lastPassing (p : ℕ → Bool) (lo b : ℕ) : Option ℕ := lastPassingFrom p (b - lo) lo b none

/-! ## What they find -/

/-- In the window, what is before an index that passes passes. -/
def Downward (p : ℕ → Bool) (lo b : ℕ) : Prop :=
  ∀ ⦃i j⦄, lo ≤ i → i ≤ j → j < b → p j = true → p i = true

variable {p : ℕ → Bool} {a b lo fuel k : ℕ}

theorem Downward.mono (h : Downward p lo b) {lo' b' : ℕ} (hlo : lo ≤ lo') (hb : b' ≤ b) :
    Downward p lo' b' :=
  fun _ _ hi hij hj => h (hlo.trans hi) hij (hj.trans_le hb)

/-- The window is split at the index: it passes before and fails from there on. -/
structure Splits (p : ℕ → Bool) (a b k : ℕ) : Prop where
  lower : a ≤ k
  upper : k ≤ b
  passes : ∀ i, a ≤ i → i < k → p i = true
  fails : ∀ i, k ≤ i → i < b → p i = false

theorem Splits.lt_iff (h : Splits p a b k) {i : ℕ} (hi : a ≤ i) (hib : i < b) :
    i < k ↔ p i = true := by
  constructor
  · exact h.passes i hi
  · intro hpass
    by_contra hle
    rw [h.fails i (Nat.le_of_not_lt hle) hib] at hpass
    exact Bool.false_ne_true hpass

theorem firstFailingFrom_splits (hdown : Downward p a b) (hab : a ≤ b) (hfuel : b - a ≤ fuel) :
    Splits p a b (firstFailingFrom p fuel a b) := by
  induction fuel generalizing a b with
  | zero =>
    have heq : a = b := by omega
    subst heq
    exact ⟨le_rfl, le_rfl, fun i hi hlt => absurd hlt hi.not_gt,
      fun i hi hlt => absurd hlt hi.not_gt⟩
  | succ fuel ih =>
    rw [firstFailingFrom]
    by_cases hlt : a < b
    · rw [if_pos hlt]
      generalize hm : (a + b) / 2 = m
      have ham : a ≤ m := by omega
      have hmb : m < b := by omega
      cases hpass : p m with
      | true =>
        rw [if_pos rfl]
        have hrest := ih (hdown.mono (ham.trans (Nat.le_add_right m 1)) le_rfl)
          (Nat.succ_le_of_lt hmb) (by omega)
        refine ⟨by have := hrest.lower; omega, hrest.upper, fun i hi hik => ?_, hrest.fails⟩
        by_cases him : i ≤ m
        · exact hdown hi him hmb hpass
        · exact hrest.passes i (by omega) hik
      | false =>
        rw [if_neg Bool.false_ne_true]
        have hrest := ih (hdown.mono le_rfl hmb.le) ham (by omega)
        refine ⟨hrest.lower, hrest.upper.trans hmb.le, hrest.passes, fun i hki hib => ?_⟩
        by_cases him : i < m
        · exact hrest.fails i hki him
        · apply Bool.eq_false_iff.mpr
          intro hi
          rw [hdown ham (Nat.le_of_not_lt him) hib hi] at hpass
          exact Bool.false_ne_true hpass.symm
    · rw [if_neg hlt]
      exact ⟨le_rfl, hab, fun i hi hlt' => absurd hlt' hi.not_gt,
        fun i hi hib => absurd (hi.trans_lt hib) hlt⟩

theorem firstFailing_splits (hdown : Downward p a b) (hab : a ≤ b) :
    Splits p a b (firstFailing p a b) :=
  firstFailingFrom_splits hdown hab le_rfl

variable {best : Option ℕ}

/-- With no order in the window, what the search keeps has still passed. -/
theorem lastPassingFrom_passes (h : lastPassingFrom p fuel lo b best = some k) :
    best = some k ∨ (lo ≤ k ∧ k < b ∧ p k = true) := by
  induction fuel generalizing lo b best with
  | zero => exact .inl h
  | succ fuel ih =>
    rw [lastPassingFrom] at h
    by_cases hlt : lo < b
    · rw [if_pos hlt] at h
      generalize hm : (lo + (b - 1)) / 2 = m at h
      cases hpass : p m with
      | true =>
        rw [hpass, if_pos rfl] at h
        rcases ih h with hkept | ⟨hk, hkb, hp⟩
        · cases hkept
          exact .inr ⟨by omega, by omega, hpass⟩
        · exact .inr ⟨by omega, hkb, hp⟩
      | false =>
        rw [hpass, if_neg Bool.false_ne_true] at h
        rcases ih h with hkept | ⟨hk, hkb, hp⟩
        · exact .inl hkept
        · exact .inr ⟨hk, by omega, hp⟩
    · rw [if_neg hlt] at h
      exact .inl h

theorem lastPassing_passes (h : lastPassing p lo b = some k) : lo ≤ k ∧ k < b ∧ p k = true :=
  (lastPassingFrom_passes h).resolve_left (Option.some_ne_none k).symm

/-- The index passes, and none of the window after it does. -/
structure IsLast (p : ℕ → Bool) (lo b k : ℕ) : Prop where
  lower : lo ≤ k
  upper : k < b
  passes : p k = true
  fails : ∀ i, k < i → i < b → p i = false

theorem IsLast.le (h : IsLast p lo b k) {i : ℕ} (hib : i < b) (hpass : p i = true) : i ≤ k := by
  by_contra hlt
  rw [h.fails i (Nat.lt_of_not_le hlt) hib] at hpass
  exact Bool.false_ne_true hpass

theorem lastPassingFrom_isLast (hdown : Downward p lo b) (hfuel : b - lo ≤ fuel) :
    (lastPassingFrom p fuel lo b best = best ∧ ∀ i, lo ≤ i → i < b → p i = false) ∨
      ∃ k, lastPassingFrom p fuel lo b best = some k ∧ IsLast p lo b k := by
  induction fuel generalizing lo b best with
  | zero => exact .inl ⟨rfl, fun i hi hib => by omega⟩
  | succ fuel ih =>
    rw [lastPassingFrom]
    by_cases hlt : lo < b
    · rw [if_pos hlt]
      generalize hm : (lo + (b - 1)) / 2 = m
      have hlom : lo ≤ m := by omega
      have hmb : m < b := by omega
      cases hpass : p m with
      | true =>
        rw [if_pos rfl]
        rcases @ih _ _ (some m) (hdown.mono (hlom.trans (Nat.le_add_right m 1)) le_rfl) (by omega)
          with ⟨hkept, hnone⟩ | ⟨k, hk, hlast⟩
        · exact .inr ⟨m, hkept, hlom, hmb, hpass, hnone⟩
        · exact .inr ⟨k, hk, by have := hlast.lower; omega, hlast.upper, hlast.passes, hlast.fails⟩
      | false =>
        rw [if_neg Bool.false_ne_true]
        have hrest : ∀ i, m ≤ i → i < b → p i = false := by
          intro i hmi hib
          apply Bool.eq_false_iff.mpr
          intro hi
          rw [hdown hlom hmi hib hi] at hpass
          exact Bool.false_ne_true hpass.symm
        rcases @ih _ _ best (hdown.mono le_rfl hmb.le) (by omega)
          with ⟨hkept, hnone⟩ | ⟨k, hk, hlast⟩
        · refine .inl ⟨hkept, fun i hi hib => ?_⟩
          by_cases him : i < m
          · exact hnone i hi him
          · exact hrest i (Nat.le_of_not_lt him) hib
        · refine .inr ⟨k, hk, hlast.lower, hlast.upper.trans hmb, hlast.passes, fun i hki hib => ?_⟩
          by_cases him : i < m
          · exact hlast.fails i hki him
          · exact hrest i (Nat.le_of_not_lt him) hib
    · rw [if_neg hlt]
      exact .inl ⟨rfl, fun i hi hib => absurd (hi.trans_lt hib) hlt⟩

theorem lastPassing_isLast (hdown : Downward p lo b) :
    (lastPassing p lo b = none ∧ ∀ i, lo ≤ i → i < b → p i = false) ∨
      ∃ k, lastPassing p lo b = some k ∧ IsLast p lo b k :=
  lastPassingFrom_isLast hdown le_rfl

/-! ## Where it looks -/

/-- The indices that the search over `[lo, b)` looks at, if what is before the cut passes at
them and the rest fails. -/
def probesFrom (cut : ℕ) : (fuel lo b : ℕ) → List ℕ
  | 0, _, _ => []
  | fuel + 1, lo, b =>
    if lo < b then
      (lo + (b - 1)) / 2 ::
        if (lo + (b - 1)) / 2 < cut then probesFrom cut fuel ((lo + (b - 1)) / 2 + 1) b
        else probesFrom cut fuel lo ((lo + (b - 1)) / 2)
    else []

def probes (cut lo b : ℕ) : List ℕ := probesFrom cut (b - lo) lo b

/-- Where it looks, the test passes before the cut and fails from there on. -/
def Leads (p : ℕ → Bool) (cut : ℕ) (indices : List ℕ) : Prop :=
  ∀ i ∈ indices, p i = true ↔ i < cut

theorem lastPassingFrom_of_leads {cut : ℕ} (hlo : lo ≤ cut) (hcut : cut ≤ b)
    (hfuel : b - lo ≤ fuel) (hleads : Leads p cut (probesFrom cut fuel lo b)) :
    lastPassingFrom p fuel lo b best = if cut = lo then best else some (cut - 1) := by
  induction fuel generalizing lo b best with
  | zero =>
    have heq : cut = lo := by omega
    rw [lastPassingFrom, if_pos heq]
  | succ fuel ih =>
    rw [lastPassingFrom]
    rw [probesFrom] at hleads
    by_cases hlt : lo < b
    · rw [if_pos hlt] at hleads
      rw [if_pos hlt]
      generalize hm : (lo + (b - 1)) / 2 = m at hleads
      have hhere := hleads m List.mem_cons_self
      have hrest : ∀ i ∈ _, p i = true ↔ i < cut := fun i hi => hleads i (List.mem_cons_of_mem m hi)
      by_cases hmc : m < cut
      · rw [if_pos hmc] at hrest
        rw [if_pos (hhere.mpr hmc), ih hmc hcut (by omega) hrest, if_neg (by omega : cut ≠ lo)]
        by_cases heq : cut = m + 1
        · rw [if_pos heq, heq, Nat.add_sub_cancel]
        · rw [if_neg heq]
      · rw [if_neg hmc] at hrest
        rw [if_neg fun hpass => hmc (hhere.mp hpass), ih hlo (by omega) (by omega) hrest]
    · have heq : cut = lo := by omega
      rw [if_neg hlt, if_pos heq]

theorem exists_leadsFrom (p : ℕ → Bool) (hlo : lo ≤ b) :
    ∃ cut, lo ≤ cut ∧ cut ≤ b ∧ Leads p cut (probesFrom cut fuel lo b) := by
  induction fuel generalizing lo b with
  | zero => exact ⟨lo, le_rfl, hlo, fun i hi => absurd hi List.not_mem_nil⟩
  | succ fuel ih =>
    by_cases hlt : lo < b
    · generalize hm : (lo + (b - 1)) / 2 = m
      cases hpass : p m with
      | true =>
        obtain ⟨cut, hmc, hcut, hleads⟩ := @ih b (m + 1) (by omega)
        refine ⟨cut, by omega, hcut, ?_⟩
        rw [probesFrom, if_pos hlt, hm, if_pos (by omega : m < cut)]
        intro i hi
        rcases List.mem_cons.mp hi with rfl | hi
        · exact iff_of_true hpass (by omega)
        · exact hleads i hi
      | false =>
        obtain ⟨cut, hloc, hcut, hleads⟩ := @ih m lo (by omega)
        refine ⟨cut, hloc, by omega, ?_⟩
        rw [probesFrom, if_pos hlt, hm, if_neg (by omega : ¬ m < cut)]
        intro i hi
        rcases List.mem_cons.mp hi with rfl | hi
        · exact iff_of_false (by rw [hpass]; exact Bool.false_ne_true) (by omega)
        · exact hleads i hi
    · refine ⟨lo, le_rfl, hlo, ?_⟩
      rw [probesFrom, if_neg hlt]
      exact fun i hi => absurd hi List.not_mem_nil

theorem lastPassing_eq_some_iff :
    lastPassing p lo b = some k ↔ lo ≤ k ∧ k < b ∧ Leads p (k + 1) (probes (k + 1) lo b) := by
  constructor
  · intro h
    obtain ⟨hlo, hkb, -⟩ := lastPassing_passes h
    obtain ⟨cut, hloc, hcut, hleads⟩ := @exists_leadsFrom b lo (b - lo) p (by omega)
    have hfound := @lastPassingFrom_of_leads p b lo (b - lo) none cut hloc hcut le_rfl hleads
    rw [← lastPassing, h] at hfound
    by_cases heq : cut = lo
    · rw [if_pos heq] at hfound
      cases hfound
    · rw [if_neg heq] at hfound
      have hk : cut = k + 1 := by
        have := Option.some_inj.mp hfound
        omega
      subst hk
      exact ⟨hlo, hkb, hleads⟩
  · intro ⟨hlo, hkb, hleads⟩
    have hcut : k + 1 ≤ b := hkb
    rw [lastPassing, lastPassingFrom_of_leads (by omega) hcut le_rfl hleads,
      if_neg (by omega : k + 1 ≠ lo), Nat.add_sub_cancel]

theorem lastPassing_eq_none_iff : lastPassing p lo b = none ↔ Leads p lo (probes lo lo b) := by
  constructor
  · intro h
    by_cases hlob : lo ≤ b
    · obtain ⟨cut, hloc, hcut, hleads⟩ := @exists_leadsFrom b lo (b - lo) p hlob
      have hfound := @lastPassingFrom_of_leads p b lo (b - lo) none cut hloc hcut le_rfl hleads
      rw [← lastPassing, h] at hfound
      by_cases heq : cut = lo
      · rw [heq] at hleads
        exact hleads
      · rw [if_neg heq] at hfound
        cases hfound
    · rw [probes, Nat.sub_eq_zero_of_le (by omega : b ≤ lo)]
      exact fun i hi => absurd hi List.not_mem_nil
  · intro hleads
    by_cases hlob : lo ≤ b
    · rw [lastPassing, lastPassingFrom_of_leads le_rfl hlob le_rfl hleads, if_pos rfl]
    · rw [lastPassing, Nat.sub_eq_zero_of_le (by omega : b ≤ lo), lastPassingFrom]

/-! ## Over a list -/

variable {α : Type*} {q : α → Bool} {as : List α}

/-- The test on what is at an index. -/
def testAt (as : List α) (q : α → Bool) (i : ℕ) : Bool := as[i]?.any q

theorem testAt_of_lt {i : ℕ} (hi : i < as.length) : testAt as q i = q as[i] := by
  rw [testAt, List.getElem?_eq_getElem hi, Option.any_some]

theorem downward_testAt (h : as.Pairwise fun a b => q b = true → q a = true) (lo : ℕ) {b : ℕ}
    (hb : b ≤ as.length) : Downward (testAt as q) lo b := by
  intro i j _ hij hj hpass
  have hjlen : j < as.length := hj.trans_le hb
  rw [testAt_of_lt hjlen] at hpass
  rw [testAt_of_lt (hij.trans_lt hjlen)]
  rcases hij.eq_or_lt with rfl | hlt
  · exact hpass
  · exact List.pairwise_iff_getElem.mp h i j _ hjlen hlt hpass

/-- What the search keeps is the last of what passes. -/
theorem lastPassing_testAt (h : as.Pairwise fun a b => q b = true → q a = true) :
    (lastPassing (testAt as q) 0 as.length).bind (fun i => as[i]?) = (as.filter q).getLast? := by
  rcases lastPassing_isLast (downward_testAt h 0 le_rfl) with ⟨hnone, hfails⟩ | ⟨k, hk, hlast⟩
  · have hempty : as.filter q = [] := by
      apply List.filter_eq_nil_iff.mpr
      intro a ha
      rcases List.mem_iff_getElem.mp ha with ⟨i, hi, rfl⟩
      rw [← testAt_of_lt (q := q) hi, hfails i (Nat.zero_le i) hi]
      exact Bool.false_ne_true
    rw [hnone, hempty]
    rfl
  · have hafter : (as.drop (k + 1)).filter q = [] := by
      apply List.filter_eq_nil_iff.mpr
      intro a ha
      rcases List.mem_iff_getElem.mp ha with ⟨i, hi, rfl⟩
      rw [List.length_drop] at hi
      rw [List.getElem_drop, ← testAt_of_lt (q := q) (by omega),
        hlast.fails _ (by omega) (by omega)]
      exact Bool.false_ne_true
    have hk' := hlast.upper
    have hpass := hlast.passes
    rw [testAt_of_lt hk'] at hpass
    have hsplit : as = as.take k ++ as[k] :: as.drop (k + 1) := by
      rw [← List.drop_eq_getElem_cons hk', List.take_append_drop]
    have hfilter : as.filter q = (as.take k).filter q ++ [as[k]] := by
      conv_lhs => rw [hsplit]
      rw [List.filter_append, List.filter_cons_of_pos hpass, hafter]
    rw [hk, Option.bind_some, List.getElem?_eq_getElem hk', hfilter, List.getLast?_concat]

end Dial9.Lib
