/-
# Columns

A table keeps values by index, each of them once, and an interned value reads back. Rows
are grouped by key in one flat column, where each key has a stretch: a group's rows are
counted, placed one after another and sorted in their stretch, and so a group reads back
as the rows of its key, sorted.
-/

import Mathlib.Algebra.Order.Ring.Nat
import Mathlib.Data.List.Forall2
import Mathlib.Data.List.Infix
import Mathlib.Data.List.Pairwise
import Mathlib.Data.List.Sort

namespace Dial9.Lib

/-! ## Interned values -/

section Intern

variable {α : Type} [DecidableEq α] {table : List α} {a : α}

/-- The index of a value, which joins the table where it is new. -/
def intern (table : List α) (a : α) : List α × Nat :=
  if a ∈ table then (table, table.idxOf a) else (table ++ [a], table.length)

theorem prefix_intern (table : List α) (a : α) : table <+: (intern table a).1 := by
  rw [intern]
  split
  · exact List.prefix_rfl
  · exact List.prefix_append _ _

theorem getElem?_intern (table : List α) (a : α) :
    (intern table a).1[(intern table a).2]? = some a := by
  rw [intern]
  split
  · rename_i hmem
    exact List.getElem?_eq_some_iff.mpr ⟨List.idxOf_lt_length_iff.mpr hmem, List.getElem_idxOf _⟩
  · exact List.getElem?_concat_length

omit [DecidableEq α] in
theorem getElem?_of_grown {later : List α} (h : table <+: later) {i : Nat}
    (hi : table[i]? = some a) : later[i]? = some a := by
  rcases h with ⟨more, rfl⟩
  rw [List.getElem?_append_left (List.getElem?_eq_some_iff.mp hi).1, hi]

/-- The index of a value that may be absent, which is -1. -/
def internOption (table : List α) : Option α → List α × Int
  | none => (table, -1)
  | some a => ((intern table a).1, (intern table a).2)

section

omit [DecidableEq α]

/-- The value at an index, absent where the index is negative. -/
def decode (table : List α) (index : Int) : Option α :=
  if index < 0 then none else table[index.toNat]?

/-- An index stands for a value of the table, or for none. -/
def Decodes (table : List α) (index : Int) : Option α → Prop
  | none => index = -1
  | some a => ∃ i : Nat, index = i ∧ table[i]? = some a

theorem Decodes.decode {index : Int} {a? : Option α} (h : Decodes table index a?) :
    decode table index = a? := by
  cases a? with
  | none =>
    obtain rfl : index = -1 := h
    rfl
  | some a =>
    rcases h with ⟨i, rfl, hi⟩
    rw [Lib.decode, if_neg (by omega), Int.toNat_natCast, hi]

theorem Decodes.of_grown {later : List α} {index : Int} {a? : Option α}
    (h : Decodes table index a?) (hlater : table <+: later) : Decodes later index a? := by
  cases a? with
  | none => exact h
  | some a =>
    rcases h with ⟨i, rfl, hi⟩
    exact ⟨i, rfl, getElem?_of_grown hlater hi⟩

end

theorem prefix_internOption (table : List α) (a? : Option α) :
    table <+: (internOption table a?).1 := by
  cases a? with
  | none => exact List.prefix_rfl
  | some a => exact prefix_intern table a

theorem decodes_internOption (table : List α) (a? : Option α) :
    Decodes (internOption table a?).1 (internOption table a?).2 a? := by
  cases a? with
  | none => rfl
  | some a => exact ⟨_, rfl, getElem?_intern table a⟩

end Intern

/-! ## Stretches of a column -/

/-- A stretch of a column. -/
structure Span where
  start : Nat
  length : Nat

section Cells

variable {V : Type} {cells vs : List V} {span other : Span}

def slice (cells : List V) (span : Span) : List V := (cells.drop span.start).take span.length

/-- The column with other values from a position on. -/
def splice (cells : List V) (start : Nat) (vs : List V) : List V :=
  cells.take start ++ vs ++ cells.drop (start + vs.length)

/-- Nothing is in both stretches. -/
def SpansApart (span other : Span) : Prop :=
  span.start + span.length ≤ other.start ∨ other.start + other.length ≤ span.start

section

variable (h : span.start + span.length ≤ cells.length)
include h

theorem slice_length : (slice cells span).length = span.length := by
  rw [slice, List.length_take, List.length_drop]
  omega

section

variable (hlength : vs.length = span.length)
include hlength

theorem splice_length : (splice cells span.start vs).length = cells.length := by
  simp only [splice, List.length_append, List.length_take, List.length_drop]
  omega

theorem slice_splice_self : slice (splice cells span.start vs) span = vs := by
  have hstart : (cells.take span.start).length = span.start := by
    rw [List.length_take]
    omega
  rw [slice, splice, List.append_assoc, List.drop_append, hstart, Nat.sub_self, List.drop_zero,
    List.drop_eq_nil_of_le hstart.le, List.nil_append, ← hlength, List.take_left]

theorem getElem?_splice_apart {i : Nat} (hi : i < span.start ∨ span.start + span.length ≤ i) :
    (splice cells span.start vs)[i]? = cells[i]? := by
  simp only [splice, List.getElem?_append, List.length_append, List.length_take,
    List.getElem?_take, List.getElem?_drop]
  grind

theorem slice_splice_apart (hapart : SpansApart span other) :
    slice (splice cells span.start vs) other = slice cells other := by
  apply List.ext_getElem?
  intro j
  simp only [slice, List.getElem?_take, List.getElem?_drop]
  split
  · apply getElem?_splice_apart h hlength
    rcases hapart with hapart | hapart <;> omega
  · rfl

end

end

end Cells

/-! ## Counting -/

variable {size : Nat}

section Groups

variable {K V : Type} [DecidableEq K]

/-- One more row of a key. -/
def countRow (key : K) : List (K × Nat) → List (K × Nat)
  | [] => [(key, 1)]
  | (k, n) :: rest => if k = key then (k, n + 1) :: rest else (k, n) :: countRow key rest

/-- How many rows each key has, with the keys as they first appear. -/
def countRows (keys : List K) : List (K × Nat) :=
  keys.foldl (fun counts key => countRow key counts) []

/-- The stretches of the groups, one after another. -/
def spansFrom (start : Nat) : List (K × Nat) → List (K × Span)
  | [] => []
  | (key, n) :: rest => (key, ⟨start, n⟩) :: spansFrom (start + n) rest

def spanOf (spans : List (K × Span)) (key : K) : Option Span :=
  (spans.find? fun entry => entry.1 = key).map Prod.snd

/-- Each row goes behind the rows of its key that are placed already. -/
def place (spans : List (K × Span)) : (K → Nat) → List V → List (K × V) → List V
  | _, cells, [] => cells
  | filled, cells, (key, v) :: rows =>
    place spans (Function.update filled key (filled key + 1))
      ((spanOf spans key).elim cells fun span => cells.set (span.start + filled key) v) rows

variable (le : V → V → Bool)

def sortSpans : List (K × Span) → List V → List V
  | [], cells => cells
  | (_, span) :: rest, cells =>
    sortSpans rest (splice cells span.start ((slice cells span).insertionSort fun a b => le a b))

/-- Where each key's group is, and the rows of the groups. -/
structure Groups (K V : Type) where
  spans : List (K × Span)
  cells : List V

/-- Rows grouped by key, and each group sorted. -/
def Groups.build (blank : V) (rows : List (K × V)) : Groups K V :=
  let spans := spansFrom 0 (countRows (rows.map Prod.fst))
  { spans := spans
    cells := sortSpans le spans
      (place spans (fun _ => 0) (List.replicate rows.length blank) rows) }

def Groups.rows (groups : Groups K V) (key : K) : List V :=
  (spanOf groups.spans key).elim [] (slice groups.cells)

/-! ## The groups are the rows of their keys -/

/-- The counts of some rows' keys. -/
structure Counted (counts : List (K × Nat)) (keys : List K) : Prop where
  nodup : (counts.map Prod.fst).Nodup
  mem : ∀ key, key ∈ counts.map Prod.fst ↔ key ∈ keys
  count : ∀ entry ∈ counts, entry.2 = keys.count entry.1
  total : (counts.map Prod.snd).sum = keys.length

theorem countRow_fst (key : K) (counts : List (K × Nat)) :
    (countRow key counts).map Prod.fst =
      if key ∈ counts.map Prod.fst then counts.map Prod.fst else counts.map Prod.fst ++ [key] := by
  induction counts with
  | nil => rfl
  | cons entry rest ih =>
    rw [countRow]
    by_cases heq : entry.1 = key
    · rw [if_pos heq, if_pos (List.mem_map.mpr ⟨entry, List.mem_cons_self, heq⟩)]
      rfl
    · rw [if_neg heq, List.map_cons, ih, List.map_cons]
      have hmem : key ∈ entry.1 :: rest.map Prod.fst ↔ key ∈ rest.map Prod.fst := by
        rw [List.mem_cons]
        exact or_iff_right fun h => heq h.symm
      rw [if_congr hmem rfl rfl]
      split
      · rfl
      · rfl

variable {counts : List (K × Nat)} {spans : List (K × Span)}

theorem mem_countRow {key : K} (hnodup : (counts.map Prod.fst).Nodup) {entry : K × Nat}
    (h : entry ∈ countRow key counts) :
    (entry.1 ≠ key ∧ entry ∈ counts) ∨
      (entry.1 = key ∧ ((∃ n, (key, n) ∈ counts ∧ entry.2 = n + 1) ∨
        (key ∉ counts.map Prod.fst ∧ entry.2 = 1))) := by
  induction counts with
  | nil =>
    rw [countRow, List.mem_singleton] at h
    subst h
    exact .inr ⟨rfl, .inr ⟨List.not_mem_nil, rfl⟩⟩
  | cons first rest ih =>
    rcases List.nodup_cons.mp hnodup with ⟨hfirst, hrest⟩
    rw [countRow] at h
    by_cases heq : first.1 = key
    · rw [if_pos heq] at h
      rcases List.mem_cons.mp h with rfl | h
      · exact .inr ⟨heq, .inl ⟨first.2, heq ▸ List.mem_cons_self, rfl⟩⟩
      · refine .inl ⟨fun hkey => hfirst ?_, List.mem_cons_of_mem _ h⟩
        rw [heq, ← hkey]
        exact List.mem_map_of_mem h
    · rw [if_neg heq] at h
      rcases List.mem_cons.mp h with rfl | h
      · exact .inl ⟨heq, List.mem_cons_self⟩
      · rcases ih hrest h with ⟨hne, hmem⟩ | ⟨hkey, ⟨n, hmem, hn⟩ | ⟨hnew, hn⟩⟩
        · exact .inl ⟨hne, List.mem_cons_of_mem _ hmem⟩
        · exact .inr ⟨hkey, .inl ⟨n, List.mem_cons_of_mem _ hmem, hn⟩⟩
        · refine .inr ⟨hkey, .inr ⟨fun hmem => ?_, hn⟩⟩
          rcases List.mem_cons.mp hmem with hmem | hmem
          · exact heq hmem.symm
          · exact hnew hmem

theorem countRow_total (key : K) (counts : List (K × Nat)) :
    ((countRow key counts).map Prod.snd).sum = (counts.map Prod.snd).sum + 1 := by
  induction counts with
  | nil => rfl
  | cons entry rest ih =>
    rw [countRow]
    split
    · simp only [List.map_cons, List.sum_cons]
      omega
    · simp only [List.map_cons, List.sum_cons, ih]
      omega

theorem Counted.countRow {keys : List K} (h : Counted counts keys) (key : K) :
    Counted (countRow key counts) (keys ++ [key]) where
  nodup := by
    rw [countRow_fst]
    split
    · exact h.nodup
    · rename_i hnew
      exact List.nodup_append.mpr ⟨h.nodup, List.nodup_singleton _, fun a ha b hb heq =>
        hnew (List.mem_singleton.mp hb ▸ heq ▸ ha)⟩
  mem k := by
    rw [countRow_fst, List.mem_append, ← h.mem, List.mem_singleton]
    split
    · rename_i hmem
      exact ⟨.inl, fun hor => hor.elim id fun heq => heq ▸ hmem⟩
    · rw [List.mem_append, List.mem_singleton]
  count entry hentry := by
    rw [List.count_append]
    rcases mem_countRow h.nodup hentry with ⟨hne, hmem⟩ | ⟨hkey, ⟨n, hmem, hn⟩ | ⟨hnew, hn⟩⟩
    · rw [h.count entry hmem, List.count_singleton, beq_false_of_ne hne.symm]
      rfl
    · have hcount : n = keys.count key := h.count _ hmem
      rw [hn, hcount, hkey, List.count_singleton_self]
    · have hzero : keys.count key = 0 :=
        List.count_eq_zero.mpr fun hmem => hnew ((h.mem key).mpr hmem)
      rw [hn, hkey, List.count_singleton_self, hzero]
  total := by rw [countRow_total, h.total, List.length_append, List.length_singleton]

theorem countRows_counted (keys : List K) : Counted (countRows keys) keys := by
  induction keys using List.reverseRecOn with
  | nil =>
    exact {
      nodup := List.nodup_nil
      mem := fun _ => Iff.rfl
      count := fun _ h => absurd h List.not_mem_nil
      total := rfl }
  | append_singleton keys key ih =>
    rw [countRows, List.foldl_concat]
    exact ih.countRow key

/-- Stretches with distinct keys, one after another, up to a bound. -/
structure Laid (spans : List (K × Span)) (size : Nat) : Prop where
  nodup : (spans.map Prod.fst).Nodup
  order : spans.Pairwise fun a b => a.2.start + a.2.length ≤ b.2.start
  bound : ∀ entry ∈ spans, entry.2.start + entry.2.length ≤ size

section

omit [DecidableEq K]

theorem spansFrom_fst (start : Nat) (counts : List (K × Nat)) :
    (spansFrom start counts).map Prod.fst = counts.map Prod.fst := by
  induction counts generalizing start with
  | nil => rfl
  | cons entry rest ih => rw [spansFrom, List.map_cons, List.map_cons, ih]

theorem mem_spansFrom {start : Nat} {entry : K × Span} (h : entry ∈ spansFrom start counts) :
    start ≤ entry.2.start ∧ entry.2.start + entry.2.length ≤ start + (counts.map Prod.snd).sum ∧
      (entry.1, entry.2.length) ∈ counts := by
  induction counts generalizing start with
  | nil => cases h
  | cons first rest ih =>
    rw [List.map_cons, List.sum_cons]
    rcases List.mem_cons.mp h with rfl | h
    · exact ⟨le_rfl, by dsimp only; omega, List.mem_cons_self⟩
    · rcases ih h with ⟨hstart, hbound, hmem⟩
      exact ⟨by omega, by omega, List.mem_cons_of_mem _ hmem⟩

theorem spansFrom_order (start : Nat) (counts : List (K × Nat)) :
    (spansFrom start counts).Pairwise fun a b => a.2.start + a.2.length ≤ b.2.start := by
  induction counts generalizing start with
  | nil => exact .nil
  | cons first rest ih => exact List.pairwise_cons.mpr ⟨fun b hb => (mem_spansFrom hb).1, ih _⟩

end

theorem spansFrom_laid {keys : List K} (h : Counted counts keys) :
    Laid (spansFrom 0 counts) keys.length where
  nodup := by
    rw [spansFrom_fst]
    exact h.nodup
  order := spansFrom_order 0 counts
  bound entry hentry := by
    have hbound := (mem_spansFrom hentry).2.1
    rwa [h.total, Nat.zero_add] at hbound

omit [DecidableEq K] in
theorem Laid.apart (h : Laid spans size) {a b : K × Span} (ha : a ∈ spans) (hb : b ∈ spans)
    (hne : a.1 ≠ b.1) : SpansApart a.2 b.2 := by
  have hor : spans.Pairwise fun a b => SpansApart a.2 b.2 := h.order.imp .inl
  have : Std.Symm fun a b : K × Span => SpansApart a.2 b.2 := ⟨fun _ _ => Or.symm⟩
  exact hor.forall ha hb fun heq => hne (congrArg Prod.fst heq)

theorem spanOf_eq_some (hnodup : (spans.map Prod.fst).Nodup) {key : K} {span : Span} :
    spanOf spans key = some span ↔ (key, span) ∈ spans := by
  induction spans with
  | nil => exact iff_of_false nofun List.not_mem_nil
  | cons first rest ih =>
    rcases List.nodup_cons.mp hnodup with ⟨hfirst, hrest⟩
    rw [spanOf, List.find?_cons]
    by_cases heq : first.1 = key
    · rw [decide_eq_true heq]
      dsimp only
      rw [Option.map_some, Option.some.injEq, List.mem_cons]
      constructor
      · rintro rfl
        exact .inl (heq ▸ rfl)
      · rintro (rfl | hmem)
        · rfl
        · exact absurd (heq ▸ List.mem_map_of_mem hmem) hfirst
    · rw [decide_eq_false heq, List.mem_cons]
      refine (ih hrest).trans ⟨.inr, fun hor => hor.resolve_left ?_⟩
      rintro rfl
      exact heq rfl

/-- The rows of a key, in order. -/
def rowsOf (key : K) (rows : List (K × V)) : List V :=
  (rows.filter fun row => row.1 = key).map Prod.snd

theorem rowsOf_append (key : K) (done rows : List (K × V)) :
    rowsOf key (done ++ rows) = rowsOf key done ++ rowsOf key rows := by
  rw [rowsOf, List.filter_append, List.map_append]
  rfl

theorem rowsOf_singleton (key : K) (row : K × V) :
    rowsOf key [row] = if row.1 = key then [row.2] else [] := by
  rw [rowsOf, List.filter_singleton]
  by_cases heq : row.1 = key
  · rw [if_pos heq, decide_eq_true heq]
    rfl
  · rw [if_neg heq, decide_eq_false heq]
    rfl

theorem rowsOf_length (key : K) (rows : List (K × V)) :
    (rowsOf key rows).length = (rows.map Prod.fst).count key := by
  rw [rowsOf, List.length_map, List.count, List.countP_map, List.countP_eq_length_filter]
  congr 1

/-- The rows of a key, where each key's rows are in one place. -/
theorem rowsOf_flatMap (keys : List K) (f : K → List V) (key : K) :
    rowsOf key (keys.flatMap fun k => (f k).map fun v => (k, v)) =
      (keys.filter fun k => k = key).flatMap fun _ => f key := by
  induction keys with
  | nil => rfl
  | cons k keys ih =>
    rw [List.flatMap_cons, rowsOf_append, ih, List.filter_cons]
    by_cases heq : k = key
    · subst heq
      rw [if_pos (decide_eq_true rfl), List.flatMap_cons]
      congr 1
      rw [rowsOf, List.filter_eq_self.mpr, List.map_map]
      · exact List.map_id _
      · intro row hrow
        rcases List.mem_map.mp hrow with ⟨v, -, rfl⟩
        exact decide_eq_true rfl
    · rw [if_neg fun h => heq (of_decide_eq_true h)]
      have hnil : rowsOf key ((f k).map fun v => (k, v)) = [] := by
        rw [rowsOf, List.map_eq_nil_iff, List.filter_eq_nil_iff]
        intro row hrow h
        rcases List.mem_map.mp hrow with ⟨v, -, rfl⟩
        exact heq (of_decide_eq_true h)
      rw [hnil, List.nil_append]

/-- The rows that are placed are at the fronts of their stretches. -/
structure Placed (spans : List (K × Span)) (size : Nat) (done : List (K × V)) (filled : K → Nat)
    (cells : List V) : Prop where
  filled : ∀ key, filled key = (rowsOf key done).length
  size : cells.length = size
  front : ∀ entry ∈ spans, ∀ j < (rowsOf entry.1 done).length,
    cells[entry.2.start + j]? = (rowsOf entry.1 done)[j]?

/-- There is room for all rows. -/
structure Roomy (spans : List (K × Span)) (all : List (K × V)) : Prop where
  length : ∀ entry ∈ spans, entry.2.length = (rowsOf entry.1 all).length
  mem : ∀ row ∈ all, ∃ span, (row.1, span) ∈ spans

variable {filled : K → Nat}

variable {done rows : List (K × V)}

theorem Placed.step {spans : List (K × Span)} {size : Nat}
    {cells : List V} {row : K × V} (h : Placed spans size done filled cells)
    (hlaid : Laid spans size) (hroomy : Roomy spans (done ++ row :: rows)) :
    Placed spans size (done ++ [row]) (Function.update filled row.1 (filled row.1 + 1))
      ((spanOf spans row.1).elim cells
        fun span => cells.set (span.start + filled row.1) row.2) := by
  rcases hroomy.mem row (List.mem_append_right _ List.mem_cons_self) with ⟨span, hspan⟩
  rw [(spanOf_eq_some hlaid.nodup).mpr hspan, Option.elim_some]
  have hroom : ∀ entry ∈ spans, (rowsOf entry.1 (done ++ [row])).length ≤ entry.2.length := by
    intro entry hentry
    have hall : done ++ row :: rows = (done ++ [row]) ++ rows := (List.append_cons _ _ _)
    rw [hroomy.length entry hentry, hall, rowsOf_append _ (done ++ [row]), List.length_append]
    exact Nat.le_add_right _ _
  have hown : filled row.1 < span.length := by
    have hle := hroom _ hspan
    rw [rowsOf_append, List.length_append, rowsOf_singleton, if_pos rfl, ← h.filled] at hle
    exact hle
  have hbound : span.start + span.length ≤ size := hlaid.bound _ hspan
  constructor
  case filled =>
    intro key
    rw [rowsOf_append, List.length_append, rowsOf_singleton, ← h.filled]
    by_cases heq : row.1 = key
    · subst heq
      rw [Function.update_self, if_pos rfl, List.length_singleton]
    · rw [Function.update_of_ne fun h => heq h.symm, if_neg heq]
      rfl
  case size =>
    rw [List.length_set]
    exact h.size
  case front =>
    intro entry hentry j hj
    have hentryRoom := hroom entry hentry
    rw [rowsOf_append, rowsOf_singleton] at hj hentryRoom ⊢
    by_cases heq : row.1 = entry.1
    · have hsame : entry.2 = span := by
        have hfound := (spanOf_eq_some hlaid.nodup).mpr hentry
        rw [← heq, (spanOf_eq_some hlaid.nodup).mpr hspan] at hfound
        exact (Option.some.inj hfound).symm
      rw [if_pos heq, List.length_append, List.length_singleton] at hj
      rw [if_pos heq, hsame]
      by_cases hlast : j = (rowsOf entry.1 done).length
      · have hfilled : filled row.1 = j := by rw [h.filled, heq, hlast]
        rw [hfilled, List.getElem?_set_self (by rw [h.size]; omega), hlast,
          List.getElem?_concat_length]
      · rw [List.getElem?_append_left (by omega), ← hsame, List.getElem?_set_ne]
        · exact h.front entry hentry j (by omega)
        · rw [h.filled, heq]
          omega
    · rw [if_neg heq, List.append_nil] at hj hentryRoom ⊢
      rw [← h.front entry hentry j hj]
      apply List.getElem?_set_ne
      have hapart := hlaid.apart hspan hentry heq
      rcases hapart with hapart | hapart <;> dsimp only at hapart <;> omega

variable {cells : List V}

theorem place_placed (h : Placed spans size done filled cells) (hlaid : Laid spans size)
    (hroomy : Roomy spans (done ++ rows)) :
    ∃ filled', Placed spans size (done ++ rows) filled' (place spans filled cells rows) := by
  induction rows generalizing done filled cells with
  | nil =>
    rw [List.append_nil]
    exact ⟨filled, h⟩
  | cons row rows ih =>
    have hroomy' := hroomy
    rw [List.append_cons] at hroomy' ⊢
    exact ih (h.step hlaid hroomy) hroomy'

theorem Placed.slice {rows : List (K × V)}
    (h : Placed spans size rows filled cells) (hroomy : Roomy spans rows) {entry : K × Span}
    (hentry : entry ∈ spans) :
    slice cells entry.2 = rowsOf entry.1 rows := by
  apply List.ext_getElem?
  intro j
  rw [Lib.slice, List.getElem?_take, List.getElem?_drop]
  split
  · rename_i hj
    exact h.front entry hentry j (hroomy.length entry hentry ▸ hj)
  · rename_i hj
    rw [hroomy.length entry hentry] at hj
    exact (List.getElem?_eq_none (Nat.le_of_not_lt hj)).symm

omit [DecidableEq K] in
theorem Laid.tail {first : K × Span} (h : Laid (first :: spans) size) : Laid spans size where
  nodup := (List.nodup_cons.mp h.nodup).2
  order := (List.pairwise_cons.mp h.order).2
  bound entry hentry := h.bound entry (List.mem_cons_of_mem _ hentry)

omit [DecidableEq K] in
theorem sortSpans_slice (le : V → V → Bool) (hlaid : Laid spans cells.length) :
    (∀ span, (∀ entry ∈ spans, SpansApart entry.2 span) →
      slice (sortSpans le spans cells) span = slice cells span) ∧
      ∀ entry ∈ spans, slice (sortSpans le spans cells) entry.2 =
        (slice cells entry.2).insertionSort fun a b => le a b := by
  induction spans generalizing cells with
  | nil => exact ⟨fun _ _ => rfl, fun _ h => absurd h List.not_mem_nil⟩
  | cons first rest ih =>
    have hbound := hlaid.bound first List.mem_cons_self
    have hlength :
        ((slice cells first.2).insertionSort fun a b => le a b).length = first.2.length :=
      (List.length_insertionSort _ _).trans (slice_length hbound)
    have hapart : ∀ entry ∈ rest, SpansApart first.2 entry.2 := fun entry hentry =>
      .inl ((List.pairwise_cons.mp hlaid.order).1 entry hentry)
    have hrest : Laid rest (splice cells first.2.start
        ((slice cells first.2).insertionSort fun a b => le a b)).length := by
      rw [splice_length hbound hlength]
      exact hlaid.tail
    rcases ih hrest with ⟨hother, hsorted⟩
    rw [sortSpans]
    constructor
    · intro span hspan
      rw [hother span fun entry hentry => hspan entry (List.mem_cons_of_mem _ hentry)]
      exact slice_splice_apart hbound hlength (hspan first List.mem_cons_self)
    · intro entry hentry
      rcases List.mem_cons.mp hentry with rfl | hentry
      · rw [hother entry.2 fun later hlater => (hapart later hlater).symm]
        exact slice_splice_self hbound hlength
      · rw [hsorted entry hentry, slice_splice_apart hbound hlength (hapart entry hentry)]

theorem Groups.build_roomy (rows : List (K × V)) :
    Roomy (spansFrom 0 (countRows (rows.map Prod.fst))) rows where
  length entry hentry := by
    have hcount := (countRows_counted (rows.map Prod.fst)).count _ (mem_spansFrom hentry).2.2
    rw [rowsOf_length]
    exact hcount
  mem row hrow := by
    have hmem : row.1 ∈ (spansFrom 0 (countRows (rows.map Prod.fst))).map Prod.fst := by
      rw [spansFrom_fst, (countRows_counted _).mem]
      exact List.mem_map_of_mem hrow
    rcases List.mem_map.mp hmem with ⟨entry, hentry, heq⟩
    exact ⟨entry.2, heq ▸ hentry⟩

theorem Groups.rows_build (le : V → V → Bool) (blank : V) (rows : List (K × V)) (key : K) :
    (Groups.build le blank rows).rows key =
      (rowsOf key rows).insertionSort fun a b => le a b := by
  have hcounted := countRows_counted (rows.map Prod.fst)
  have hlaid := spansFrom_laid hcounted
  have hroomy := Groups.build_roomy rows
  rw [List.length_map] at hlaid
  have hstart : Placed (spansFrom 0 (countRows (rows.map Prod.fst))) rows.length [] (fun _ => 0)
      (List.replicate rows.length blank) := {
    filled := fun _ => rfl
    size := List.length_replicate
    front := fun _ _ _ hj => absurd hj (Nat.not_lt_zero _) }
  rcases place_placed hstart hlaid hroomy with ⟨filled, hplaced⟩
  rw [List.nil_append] at hplaced
  rw [Groups.rows, Groups.build]
  dsimp only
  cases hspan : spanOf (spansFrom 0 (countRows (rows.map Prod.fst))) key with
  | none =>
    have hnil : rowsOf key rows = [] := by
      rw [rowsOf, List.map_eq_nil_iff, List.filter_eq_nil_iff]
      intro row hrow heq
      rcases hroomy.mem row hrow with ⟨span, hmem⟩
      rw [of_decide_eq_true heq, ← spanOf_eq_some hlaid.nodup, hspan] at hmem
      cases hmem
    rw [hnil]
    rfl
  | some span =>
    have hmem := (spanOf_eq_some hlaid.nodup).mp hspan
    rw [← hplaced.size] at hlaid
    rw [Option.elim_some, (sortSpans_slice le hlaid).2 _ hmem, hplaced.slice hroomy hmem]

end Groups

/-! ## Rows and their indices in one order -/

section Sorting

variable {A B : Type} {R : A → B → Prop} {as : List A} {bs : List B} {r : A → A → Prop}
  {s : B → B → Prop} [DecidableRel r] [DecidableRel s]

theorem forall₂_orderedInsert (hrel : ∀ {a a' b b'}, R a b → R a' b' → (r a a' ↔ s b b'))
    (h : List.Forall₂ R as bs) {a : A} {b : B} (hab : R a b) :
    List.Forall₂ R (as.orderedInsert r a) (bs.orderedInsert s b) := by
  induction h with
  | nil => exact .cons hab .nil
  | @cons a' b' as bs hfirst hrest ih =>
    rw [List.orderedInsert_cons, List.orderedInsert_cons]
    by_cases hle : r a a'
    · rw [if_pos hle, if_pos ((hrel hab hfirst).mp hle)]
      exact .cons hab (.cons hfirst hrest)
    · rw [if_neg hle, if_neg fun hs => hle ((hrel hab hfirst).mpr hs)]
      exact .cons hfirst ih

theorem forall₂_insertionSort (hrel : ∀ {a a' b b'}, R a b → R a' b' → (r a a' ↔ s b b'))
    (h : List.Forall₂ R as bs) :
    List.Forall₂ R (as.insertionSort r) (bs.insertionSort s) := by
  induction h with
  | nil => exact .nil
  | cons hfirst _ ih => exact forall₂_orderedInsert (R := R) (fun ha hb => hrel ha hb) ih hfirst

theorem foldl_eq_of_forall₂ {S T : Type} {f : S → A → S} {g : T → B → T} {v : S → T}
    (hstep : ∀ s a b, R a b → v (f s a) = g (v s) b) (h : List.Forall₂ R as bs) (start : S) :
    v (as.foldl f start) = bs.foldl g (v start) := by
  induction h generalizing start with
  | nil => rfl
  | cons hfirst _ ih => rw [List.foldl_cons, List.foldl_cons, ih, hstep _ _ _ hfirst]

omit [DecidableRel r] [DecidableRel s] in
theorem map_eq_of_forall₂ {T : Type} {f : A → T} {g : B → T} (hrel : ∀ {a b}, R a b → f a = g b)
    (h : List.Forall₂ R as bs) : as.map f = bs.map g := by
  induction h with
  | nil => rfl
  | cons hfirst _ ih => rw [List.map_cons, List.map_cons, hrel hfirst, ih]

theorem forall₂_filter {p : A → Bool} {q : B → Bool} (hrel : ∀ {a b}, R a b → p a = q b)
    (h : List.Forall₂ R as bs) : List.Forall₂ R (as.filter p) (bs.filter q) := by
  induction h with
  | nil => exact .nil
  | @cons a b as bs hfirst _ ih =>
    rw [List.filter_cons, List.filter_cons, hrel hfirst]
    split
    · exact .cons hfirst ih
    · exact ih

end Sorting

end Dial9.Lib
