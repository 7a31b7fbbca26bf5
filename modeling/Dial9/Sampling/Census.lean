/-
# The census of a window

The processes of a pool each draw a rank for a window, and report it when it is
below their cutoff. A census lists the reports from the lowest rank on, one more
than it keeps, and takes the rank of the last one as its boundary: the reports
below it stand for their share of the ranks below the boundary and their cutoff.
Estimates are exact rationals here.
-/

import Dial9.Lib.OrderStatistics
import Dial9.Sampling.Roster
import Mathlib.Algebra.BigOperators.Group.Finset.Piecewise
import Mathlib.Algebra.Order.Field.Rat
import Mathlib.Data.List.Sort
import Mathlib.Data.Prod.Lex
import Mathlib.Tactic.FieldSimp

namespace Dial9.Sampling.Census

open Dial9.Lib

/-! ## Listing the reports -/

/-- A report as its key has it: the rank, the run's ULID, and the cutoff chosen. -/
structure Report where
  rank : Nat
  cutoff : Nat
  identity : Nat
  deriving DecidableEq

/-- The fields of a key have fixed widths, so keys are ordered as their fields are. -/
def Report.key (report : Report) : Nat ×ₗ Nat ×ₗ Nat :=
  toLex (report.rank, toLex (report.identity, report.cutoff))

/-- What `parse` demands of the fields. -/
def Report.eligible (profiler : Bool) (report : Report) : Bool :=
  report.cutoff ≠ 0 && report.cutoff ≤ space && report.rank < report.cutoff &&
    !(profiler && report.cutoff ≠ space)

structure Page where
  objects : List Report
  continuation : Option Nat

/-- `list_sorted_page`, by page size and cursor. -/
abbrev Store := Nat → Option Nat → Page

/-- The objects of a page join the reports read so far. -/
def readObjects (profiler : Bool) : List Report → List Report → Except StoreError (List Report)
  | reports, [] => .ok reports
  | reports, object :: objects =>
    if reports.getLast?.any fun last => object.key ≤ last.key then
      .error (invalid "LIST keys are not globally strictly ordered")
    else if object.eligible profiler = false then
      .error (invalid "invalid report encoding or eligibility")
    else if object.identity ∈ reports.map Report.identity then
      .error (invalid "duplicate run identity in census window")
    else readObjects profiler (reports ++ [object]) objects

/-- The pages that the budget allows, until the reports are complete or exhausted. -/
def readPages (store : Store) (profiler : Bool) (recordBudget : Nat) :
    Nat → List Report → Option Nat → List Nat → Except StoreError (List Report × Bool)
  | 0, reports, _, _ => .ok (reports, false)
  | pages + 1, reports, cursor, cursors =>
    let size := min (recordBudget - reports.length) 1000
    let page := store size cursor
    if size < page.objects.length then .error (invalid "LIST exceeded requested page bound")
    else
      match readObjects profiler reports page.objects with
      | .error e => .error e
      | .ok reports =>
        let exhausted := page.continuation.isNone
        if page.continuation.any fun token => token ∈ cursors then
          .error (invalid "repeated LIST continuation cursor")
        else if exhausted || reports.length = recordBudget then .ok (reports, exhausted)
        else readPages store profiler recordBudget pages reports page.continuation
          (cursors ++ page.continuation.toList)

/-! ## The estimate -/

/-- The reports read, and the boundary they establish. -/
structure Sketch where
  reports : List Report
  boundary : Nat
  deriving DecidableEq

def boundaryOf (keep : Nat) (reports : List Report) (exhausted : Bool) : Except StoreError Nat :=
  if h : reports.length = keep + 1 then .ok reports[keep].rank
  else if exhausted then .ok space
  else .error (invalid "LIST page cap reached without boundary or verified exhaustion")

def sketch (store : Store) (profiler : Bool) (keep : Nat) : Except StoreError Sketch :=
  if 2 ^ 64 ≤ keep + 1 then .error (invalid "record budget overflow")
  else
    match readPages store profiler (keep + 1) ((keep + 1 + 999) / 1000) [] none [] with
    | .error e => .error e
    | .ok (reports, exhausted) =>
      match boundaryOf keep reports exhausted with
      | .error e => .error e
      | .ok boundary =>
        if boundary = 0 then
          .error (invalid "zero rank boundary has no usable retained sample")
        else .ok ⟨reports, boundary⟩

namespace Sketch

def retained (sketch : Sketch) : List Report :=
  sketch.reports.filter fun report => report.rank < sketch.boundary

/-- The processes that a retained report stands for. -/
def weight (sketch : Sketch) (report : Report) : ℚ :=
  space / (min report.cutoff sketch.boundary : ℕ)

def estimate (sketch : Sketch) : ℚ := (sketch.retained.map sketch.weight).sum

/-- The part of the estimate that the reports of one run make up. -/
def contribution (sketch : Sketch) (identity : Nat) : ℚ :=
  ((sketch.retained.filter fun report => report.identity = identity).map sketch.weight).sum

end Sketch

structure Sample where
  estimate : ℚ
  retained : Nat

def observe (store : Store) (profiler : Bool) (keep : Nat) : Except StoreError Sample :=
  (sketch store profiler keep).map fun s => ⟨s.estimate, s.retained.length⟩

/-- What a run's report adds to the estimate of an observation, if there is one. -/
def contribution (store : Store) (profiler : Bool) (keep identity : Nat) : ℚ :=
  match sketch store profiler keep with
  | .error _ => 0
  | .ok s => s.contribution identity

/-! ## A store that lists everything -/

/-- The reports that are present, in the order of their keys. -/
def listing (reports : List Report) : List Report :=
  (reports.filter fun report => report.rank < report.cutoff).insertionSort
    fun a b => a.key ≤ b.key

/-- A store whose pages are full as long as there are more objects. -/
def pages (objects : List Report) : Store := fun size cursor =>
  let start := cursor.getD 0
  { objects := (objects.drop start).take size
    continuation := if start + size < objects.length then some (start + size) else none }

/-- Objects that a census accepts: strictly ordered, eligible, of distinct runs. -/
structure Accepted (profiler : Bool) (objects : List Report) : Prop where
  ordered : objects.Pairwise fun a b => a.key < b.key
  eligible : ∀ report ∈ objects, report.eligible profiler = true
  distinct : (objects.map Report.identity).Nodup

variable {objects reports : List Report}

variable {profiler : Bool}

theorem readObjects_accepted (h : Accepted profiler (reports ++ objects)) :
    readObjects profiler reports objects = .ok (reports ++ objects) := by
  induction objects generalizing reports with
  | nil => rw [readObjects, List.append_nil]
  | cons object objects ih =>
    have hordered : reports.getLast?.any (fun last => decide (object.key ≤ last.key)) = false := by
      cases hlast : reports.getLast? with
      | none => rfl
      | some last =>
        have hlt := (List.pairwise_append.mp h.ordered).2.2 last (List.mem_of_getLast? hlast)
          object List.mem_cons_self
        simpa using hlt
    have heligible := h.eligible object (List.mem_append_right _ List.mem_cons_self)
    have hfresh : object.identity ∉ reports.map Report.identity := by
      have hdistinct := h.distinct
      rw [List.map_append, List.nodup_append] at hdistinct
      intro hmem
      exact hdistinct.2.2 _ hmem _ (by simp) rfl
    rw [readObjects, hordered, heligible]
    simp only [Bool.false_eq_true, if_false, hfresh, reduceCtorEq]
    rw [ih (by simpa using h), List.append_assoc, List.singleton_append]

theorem Accepted.take (h : Accepted profiler objects) (n : Nat) :
    Accepted profiler (objects.take n) where
  ordered := h.ordered.sublist (List.take_sublist n objects)
  eligible := fun report hreport => h.eligible report (List.mem_of_mem_take hreport)
  distinct := h.distinct.sublist ((List.take_sublist n objects).map _)

/-- Enough pages read the objects up to the budget. -/
theorem readPages_pages {objects : List Report} (h : Accepted profiler objects)
    {budget read count : Nat} {cursor : Option Nat} {cursors : List Nat} (hread : read < budget)
    (hread' : read ≤ objects.length) (hcursor : cursor.getD 0 = read)
    (hcount : budget - read ≤ 1000 * count) (hcursors : ∀ token ∈ cursors, token ≤ read) :
    ∃ exhausted, readPages (pages objects) profiler budget count (objects.take read) cursor
        cursors = .ok (objects.take budget, exhausted) ∧
      (objects.length < budget → exhausted = true) := by
  induction count generalizing read cursor cursors with
  | zero => omega
  | succ count ih =>
    obtain ⟨size, hsize⟩ : ∃ size, size = min (budget - read) 1000 := ⟨_, rfl⟩
    have hlength : (objects.take read).length = read := List.length_take_of_le hread'
    have hobjects : objects.take read ++ (objects.drop read).take size =
        objects.take (read + size) := List.take_add.symm
    have haccepted := h.take (read + size)
    rw [← hobjects] at haccepted
    have hreports := readObjects_accepted haccepted
    rw [hobjects] at hreports
    have hpage : ¬ size < ((objects.drop read).take size).length :=
      Nat.not_lt.mpr (List.length_take_le _ _)
    have hpos : 0 < size := by omega
    unfold readPages
    simp only [hlength, pages, hcursor, ← hsize]
    rw [if_neg hpage, hreports]
    dsimp only
    by_cases hmore : read + size < objects.length
    · -- There are more objects: their cursor is a new one.
      have hfresh : read + size ∉ cursors := fun hmem => by
        have hle := hcursors _ hmem
        omega
      simp only [if_pos hmore, Option.any_some, hfresh, decide_false, Bool.false_eq_true,
        if_false, Option.isNone_some, Bool.false_or, decide_eq_true_eq]
      by_cases hfull : (objects.take (read + size)).length = budget
      · rw [if_pos hfull]
        rw [List.length_take_of_le hmore.le] at hfull
        rw [hfull]
        exact ⟨false, rfl, fun hlt => by omega⟩
      · rw [if_neg hfull]
        rw [List.length_take_of_le hmore.le] at hfull
        apply ih (by omega) hmore.le rfl (by omega)
        intro token htoken
        rcases List.mem_append.mp htoken with hearlier | hnew
        · exact (hcursors token hearlier).trans (Nat.le_add_right _ _)
        · exact (List.mem_singleton.mp hnew).le
    · have hall : objects.take (read + size) = objects.take budget := by
        rw [List.take_of_length_le (by omega), List.take_of_length_le (by omega)]
      simp only [if_neg hmore, Option.any_none, Option.isNone_none, Bool.true_or, if_true,
        Bool.false_eq_true, if_false, hall]
      exact ⟨true, rfl, fun _ => rfl⟩

/-- The boundary of a complete listing: the rank after the ones kept, or the whole space. -/
def boundaryAt (keep : Nat) (objects : List Report) : Nat :=
  objects[keep]?.elim space Report.rank

theorem boundaryOf_take {keep : Nat} {exhausted : Bool}
    (h : reports.length < keep + 1 → exhausted = true) :
    boundaryOf keep (reports.take (keep + 1)) exhausted = .ok (boundaryAt keep reports) := by
  unfold boundaryOf boundaryAt
  by_cases hkeep : keep < reports.length
  · rw [dif_pos (List.length_take_of_le hkeep), List.getElem_take,
      List.getElem?_eq_getElem hkeep]
    rfl
  · have hshort : ¬ (reports.take (keep + 1)).length = keep + 1 := by
      rw [List.length_take]
      omega
    rw [dif_neg hshort, if_pos (h (by omega)), List.getElem?_eq_none (by omega)]
    rfl

theorem sketch_pages (h : Accepted profiler objects) {keep : Nat} (hbudget : keep + 1 < 2 ^ 64) :
    sketch (pages objects) profiler keep =
      if boundaryAt keep objects = 0 then
        .error (invalid "zero rank boundary has no usable retained sample")
      else .ok ⟨objects.take (keep + 1), boundaryAt keep objects⟩ := by
  rcases @readPages_pages profiler objects h (keep + 1) 0 ((keep + 1 + 999) / 1000) none []
    (Nat.succ_pos keep) (Nat.zero_le _) rfl (by omega)
    (fun token htoken => absurd htoken List.not_mem_nil) with ⟨exhausted, hread, hexhausted⟩
  rw [List.take_zero] at hread
  have hboundary := boundaryOf_take hexhausted
  simp only [sketch, Nat.not_le.mpr hbudget, if_false, hread, hboundary]

/-! ## One rank after another -/

variable {report : Report}

theorem mem_listing :
    report ∈ listing reports ↔ report ∈ reports ∧ report.rank < report.cutoff := by
  rw [listing, (List.perm_insertionSort _ _).mem_iff, List.mem_filter, decide_eq_true_eq]

theorem listing_perm (reports : List Report) :
    (listing reports).Perm (reports.filter fun report => report.rank < report.cutoff) :=
  List.perm_insertionSort _ _

theorem listing_sorted (reports : List Report) :
    (listing reports).Pairwise fun a b => a.key ≤ b.key :=
  List.pairwise_insertionSort _ _

theorem rank_le_of_key_le {a b : Report} (h : a.key ≤ b.key) : a.rank ≤ b.rank := by
  rcases Prod.Lex.le_iff.mp h with hlt | ⟨heq, -⟩
  · exact hlt.le
  · exact heq.le

theorem identity_eq_of_key_eq {a b : Report} (h : a.key = b.key) : a.identity = b.identity := by
  have hpair : (a.rank, toLex (a.identity, a.cutoff)) = (b.rank, toLex (b.identity, b.cutoff)) :=
    toLex.injective h
  have hinner : (a.identity, a.cutoff) = (b.identity, b.cutoff) :=
    toLex.injective (congrArg Prod.snd hpair)
  exact congrArg Prod.fst hinner

/-- Reports that runs can make: each with one of its own, and a cutoff of the space. -/
structure Reports (profiler : Bool) (reports : List Report) : Prop where
  cutoff_pos : ∀ report ∈ reports, 0 < report.cutoff
  cutoff_le : ∀ report ∈ reports, report.cutoff ≤ space
  profiler : profiler = true → ∀ report ∈ reports, report.cutoff = space
  distinct : (reports.map Report.identity).Nodup

theorem Reports.accepted (h : Reports profiler reports) : Accepted profiler (listing reports) where
  ordered := by
    have hdistinct : ((listing reports).map Report.identity).Nodup :=
      (((listing_perm reports).map _).nodup_iff).mpr
        (h.distinct.sublist (List.filter_sublist.map _))
    have hne := List.pairwise_map.mp hdistinct
    apply ((listing_sorted reports).and hne).imp
    rintro a b ⟨hle, hidentity⟩
    exact hle.lt_of_ne fun heq => hidentity (identity_eq_of_key_eq heq)
  eligible := by
    intro report hreport
    rcases mem_listing.mp hreport with ⟨hmem, hpresent⟩
    have hpos := h.cutoff_pos report hmem
    have hle := h.cutoff_le report hmem
    have hwhole : (profiler && decide (report.cutoff ≠ space)) = false := by
      cases profiler with
      | false => rfl
      | true => simp [h.profiler rfl report hmem]
    rw [Report.eligible, hwhole]
    simp [hpresent, hle, Nat.ne_of_gt hpos]
  distinct := (((listing_perm reports).map _).nodup_iff).mpr
    (h.distinct.sublist (List.filter_sublist.map _))

theorem filter_identity (h : (objects.map Report.identity).Nodup) (hmem : report ∈ objects) :
    (objects.filter fun other => other.identity = report.identity) = [report] := by
  rcases List.append_of_mem hmem with ⟨front, back, rfl⟩
  rw [List.map_append, List.map_cons, List.nodup_append, List.nodup_cons] at h
  have hfront : (front.filter fun other => other.identity = report.identity) = [] := by
    apply List.filter_eq_nil_iff.mpr
    intro other hother
    have hne := h.2.2 _ (List.mem_map_of_mem hother) _ List.mem_cons_self
    simpa using hne
  have hback : (back.filter fun other => other.identity = report.identity) = [] := by
    apply List.filter_eq_nil_iff.mpr
    intro other hother
    have hne : other.identity ≠ report.identity := fun heq =>
      h.2.1.1 (heq ▸ List.mem_map_of_mem hother)
    simpa using hne
  simp [hfront, hback]

theorem contribution_eq_zero {s : Sketch} {identity : Nat}
    (h : ∀ report ∈ s.retained, report.identity ≠ identity) : s.contribution identity = 0 := by
  have hnil : (s.retained.filter fun report => report.identity = identity) = [] := by
    apply List.filter_eq_nil_iff.mpr
    intro report hreport
    simpa using h report hreport
  rw [Sketch.contribution, hnil]
  rfl

theorem contribution_eq_weight {s : Sketch} {report : Report}
    (hdistinct : (s.reports.map Report.identity).Nodup) (hmem : report ∈ s.reports)
    (hlt : report.rank < s.boundary) : s.contribution report.identity = s.weight report := by
  have hretained : report ∈ s.retained := List.mem_filter.mpr ⟨hmem, decide_eq_true hlt⟩
  have hsub : (s.retained.map Report.identity).Nodup :=
    hdistinct.sublist (List.filter_sublist.map _)
  rw [Sketch.contribution, filter_identity hsub hretained]
  simp

section Rank

variable {profiler : Bool} {keep cutoff identity rank : Nat} {others : List Report}

/-- The other runs' report whose rank a new one has to be below to be kept. -/
def kthRank (keep : Nat) (others : List Report) : Nat :=
  (listing others)[keep - 1]?.elim space Report.rank

theorem listing_cons (hpresent : rank < cutoff) :
    (listing (⟨rank, cutoff, identity⟩ :: others)).Perm
      (⟨rank, cutoff, identity⟩ :: listing others) := by
  apply (listing_perm _).trans
  rw [List.filter_cons_of_pos (by simpa using hpresent)]
  exact (listing_perm others).symm.cons _

theorem ranks_sorted (reports : List Report) :
    (listing reports).Pairwise fun a b => a.rank ≤ b.rank :=
  (listing_sorted reports).imp rank_le_of_key_le

theorem boundaryAt_of_lt (hkeep : 0 < keep) (hpresent : rank < cutoff)
    (hlt : rank < kthRank keep others) :
    boundaryAt keep (listing (⟨rank, cutoff, identity⟩ :: others)) = kthRank keep others := by
  have hperm := @listing_cons cutoff identity rank others hpresent
  have hlength := hperm.length_eq
  rw [List.length_cons] at hlength
  unfold boundaryAt kthRank at *
  by_cases hfull : keep - 1 < (listing others).length
  · have hkeep' : keep < (listing (⟨rank, cutoff, identity⟩ :: others)).length := by omega
    rw [List.getElem?_eq_getElem hfull] at hlt ⊢
    rw [List.getElem?_eq_getElem hkeep']
    have hsucc : keep - 1 + 1 = keep := Nat.sub_add_cancel hkeep
    have hpush := getElem_of_insert_lt hperm (ranks_sorted others) (ranks_sorted _) hfull
      (hsucc.symm ▸ hkeep') hlt
    simpa only [hsucc, Option.elim_some] using hpush
  · rw [List.getElem?_eq_none (by omega), List.getElem?_eq_none (by omega)]

theorem boundaryAt_of_le (hkeep : 0 < keep) (hpresent : rank < cutoff) (hrank : rank < space)
    (hle : kthRank keep others ≤ rank) :
    boundaryAt keep (listing (⟨rank, cutoff, identity⟩ :: others)) ≤ rank := by
  have hperm := @listing_cons cutoff identity rank others hpresent
  have hlength := hperm.length_eq
  rw [List.length_cons] at hlength
  unfold boundaryAt kthRank at *
  by_cases hfull : keep - 1 < (listing others).length
  · have hkeep' : keep < (listing (⟨rank, cutoff, identity⟩ :: others)).length := by omega
    rw [List.getElem?_eq_getElem hfull] at hle
    rw [List.getElem?_eq_getElem hkeep']
    have hsucc : keep - 1 + 1 = keep := Nat.sub_add_cancel hkeep
    have hbound := getElem_of_insert_le hperm (ranks_sorted others) (ranks_sorted _) hfull
      (hsucc.symm ▸ hkeep') hle
    simpa only [hsucc, Option.elim_some] using hbound
  · rw [List.getElem?_eq_none (by omega)] at hle
    exact absurd (lt_of_le_of_lt hle hrank) (Nat.lt_irrefl _)

theorem boundaryAt_le_of_mem_drop (hsorted : objects.Pairwise fun a b => a.rank ≤ b.rank)
    (hmem : report ∈ objects.drop (keep + 1)) :
    boundaryAt keep objects ≤ report.rank := by
  have hkeep : keep < objects.length := by
    have hpos := List.length_pos_of_mem hmem
    rw [List.length_drop] at hpos
    omega
  have hread : objects[keep] ∈ objects.take (keep + 1) :=
    List.mem_take_iff_getElem.mpr ⟨keep, by omega, rfl⟩
  rw [← List.take_append_drop (keep + 1) objects] at hsorted
  have hle := (List.pairwise_append.mp hsorted).2.2 _ hread _ hmem
  rwa [boundaryAt, List.getElem?_eq_getElem hkeep]

theorem mem_take_of_lt {objects : List Report}
    (hsorted : objects.Pairwise fun a b => a.rank ≤ b.rank)
    {report : Report} (hmem : report ∈ objects) (hlt : report.rank < boundaryAt keep objects) :
    report ∈ objects.take (keep + 1) := by
  rw [← List.take_append_drop (keep + 1) objects] at hmem
  rcases List.mem_append.mp hmem with hread | hdropped
  · exact hread
  · exact absurd hlt (Nat.not_lt.mpr (boundaryAt_le_of_mem_drop hsorted hdropped))

/-- The part of the estimate that a run with this rank makes up. -/
theorem contribution_at (hkeep : 0 < keep) (hbudget : keep + 1 < 2 ^ 64) (hrank : rank < space)
    (hreports : Reports profiler (⟨rank, cutoff, identity⟩ :: others)) :
    contribution (pages (listing (⟨rank, cutoff, identity⟩ :: others))) profiler keep identity =
      if rank < min cutoff (kthRank keep others) then
        (space : ℚ) / (min cutoff (kthRank keep others) : ℕ)
      else 0 := by
  have haccepted := hreports.accepted
  have hidentity := List.nodup_cons.mp hreports.distinct
  rw [contribution, sketch_pages haccepted hbudget]
  by_cases hlt : rank < min cutoff (kthRank keep others)
  · -- Present and kept: the boundary is the rank to beat.
    rcases lt_min_iff.mp hlt with ⟨hpresent, hkept⟩
    have hboundary := @boundaryAt_of_lt keep cutoff identity rank others hkeep hpresent hkept
    have hlisted : (⟨rank, cutoff, identity⟩ : Report) ∈
        listing (⟨rank, cutoff, identity⟩ :: others) :=
      mem_listing.mpr ⟨List.mem_cons_self, hpresent⟩
    have hread := @mem_take_of_lt keep _ (ranks_sorted _) _ hlisted (hboundary.symm ▸ hkept)
    rw [if_pos hlt, hboundary, if_neg (Nat.ne_of_gt (Nat.zero_lt_of_lt hkept))]
    exact @contribution_eq_weight ⟨_, kthRank keep others⟩ ⟨rank, cutoff, identity⟩
      (haccepted.take (keep + 1)).distinct hread hkept
  · rw [if_neg hlt]
    by_cases hzero : boundaryAt keep (listing (⟨rank, cutoff, identity⟩ :: others)) = 0
    · rw [if_pos hzero]
    · rw [if_neg hzero]
      apply contribution_eq_zero
      intro report hretained heq
      rcases List.mem_filter.mp hretained with ⟨hread, hbelow⟩
      rcases mem_listing.mp (List.mem_of_mem_take hread) with ⟨hmem, hpresent⟩
      rcases List.mem_cons.mp hmem with rfl | hother
      · have hle := @boundaryAt_of_le keep cutoff identity rank others hkeep hpresent hrank
          (Nat.le_of_not_lt fun hkept => hlt (lt_min hpresent hkept))
        exact absurd (of_decide_eq_true hbelow) (Nat.not_lt.mpr hle)
      · exact hidentity.1 (List.mem_map.mpr ⟨report, hother, heq⟩)

end Rank

/-! ## All ranks together -/

/-- A constant share of the ranks below a bound adds up to the whole. -/
theorem sum_share {bound total : Nat} (hpos : 0 < bound) (hle : bound ≤ total) :
    (∑ rank ∈ Finset.range total, if rank < bound then (total : ℚ) / (bound : ℕ) else 0) =
      total := by
  have hbelow : (Finset.range total).filter (fun rank => rank < bound) = Finset.range bound := by
    ext rank
    rw [Finset.mem_filter, Finset.mem_range, Finset.mem_range]
    omega
  have hne : (bound : ℚ) ≠ 0 := Nat.cast_ne_zero.mpr (Nat.ne_of_gt hpos)
  rw [← Finset.sum_filter, hbelow, Finset.sum_const, Finset.card_range, nsmul_eq_mul]
  exact mul_div_cancel₀ _ hne

theorem sum_filter_identity (weight : Report → ℚ) {reports : List Report} {identities : Finset Nat}
    (h : ∀ report ∈ reports, report.identity ∈ identities) :
    ∑ identity ∈ identities,
        ((reports.filter fun report => report.identity = identity).map weight).sum =
      (reports.map weight).sum := by
  induction reports with
  | nil => simp
  | cons report reports ih =>
    have hone : ∀ identity,
        (((report :: reports).filter fun report => report.identity = identity).map weight).sum =
          (if report.identity = identity then weight report else 0) +
            ((reports.filter fun report => report.identity = identity).map weight).sum := by
      intro identity
      by_cases hidentity : report.identity = identity
      · simp [hidentity]
      · simp [hidentity]
    rw [Finset.sum_congr rfl fun identity _ => hone identity, Finset.sum_add_distrib,
      Finset.sum_ite_eq, if_pos (h report List.mem_cons_self),
      ih fun report hmem => h report (List.mem_cons_of_mem _ hmem), List.map_cons, List.sum_cons]

/-- The estimate of an observation is what the runs add to it. -/
theorem observe_estimate {store : Store} {profiler : Bool} {keep : Nat} {sample : Sample}
    (h : observe store profiler keep = .ok sample) : ∃ identities : Finset Nat,
    sample.estimate = ∑ identity ∈ identities, contribution store profiler keep identity ∧
      ∀ identity, identity ∉ identities → contribution store profiler keep identity = 0 := by
  unfold observe at h
  cases hsketch : sketch store profiler keep with
  | error e =>
    rw [hsketch] at h
    cases h
  | ok s =>
    rw [hsketch] at h
    cases h
    have hcontribution : ∀ identity,
        contribution store profiler keep identity = s.contribution identity := by
      intro identity
      rw [contribution, hsketch]
    refine ⟨(s.retained.map Report.identity).toFinset, ?_, ?_⟩
    · rw [Finset.sum_congr rfl fun identity _ => hcontribution identity]
      refine (sum_filter_identity s.weight fun report hmem => ?_).symm
      exact List.mem_toFinset.mpr (List.mem_map_of_mem hmem)
    · intro identity hnot
      rw [hcontribution]
      apply contribution_eq_zero
      rintro report hmem rfl
      exact hnot (List.mem_toFinset.mpr (List.mem_map_of_mem hmem))

/-- A run's part of the estimate adds up to the whole space over the ranks it can draw,
whatever the others reported, unless a rank of zero is the one to beat. -/
theorem contribution_unbiased {profiler : Bool} {keep cutoff identity : Nat}
    {others : List Report} (hkeep : 0 < keep) (hbudget : keep + 1 < 2 ^ 64)
    (hreports : ∀ rank, Reports profiler (⟨rank, cutoff, identity⟩ :: others))
    (hbeat : ∀ kth, (listing others)[keep - 1]? = some kth → 0 < kth.rank) :
    ∑ rank ∈ Finset.range space, contribution
      (pages (listing (⟨rank, cutoff, identity⟩ :: others))) profiler keep identity = space := by
  have hbound : 0 < min cutoff (kthRank keep others) := by
    apply lt_min ((hreports 0).cutoff_pos _ List.mem_cons_self)
    unfold kthRank
    cases hkth : (listing others)[keep - 1]? with
    | none => exact Nat.two_pow_pos 64
    | some kth => exact hbeat kth hkth
  have hspace : min cutoff (kthRank keep others) ≤ space :=
    (min_le_left _ _).trans ((hreports 0).cutoff_le _ List.mem_cons_self)
  rw [← sum_share hbound hspace]
  apply Finset.sum_congr rfl
  intro rank hrank
  exact contribution_at hkeep hbudget (Finset.mem_range.mp hrank) (hreports rank)

/-- Two other runs and one kept report: the lower of their ranks is the one to beat. -/
theorem contribution_unbiased_twoOthers :
    ∑ rank ∈ Finset.range space, contribution
      (pages (listing (⟨rank, 100, 3⟩ :: [⟨7, 50, 1⟩, ⟨9, 2 ^ 64, 2⟩]))) false 1 3 = space := by
  apply contribution_unbiased (by decide) (by decide)
  · intro rank
    exact ⟨by simp, by simp [space], nofun, by simp⟩
  · intro kth hkth
    have hfirst : (listing [⟨7, 50, 1⟩, ⟨9, 2 ^ 64, 2⟩])[0]? = some ⟨7, 50, 1⟩ := by
      decide
    cases hfirst.symm.trans hkth
    decide

end Dial9.Sampling.Census
