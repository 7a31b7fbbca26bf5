/-
# Histograms of span durations

A duration is counted under the key of its bucket: a logarithmic one where it is
positive, and a sentinel above all of those where it is zero. Percentiles walk the
buckets with the sentinel first; what is emitted is in order of the keys.
-/

import Dial9.Lib.Tallies
import Mathlib.Data.List.Induction
import Mathlib.Data.List.Sort
import Mathlib.Data.Nat.Log

namespace Dial9.Viewer.Durations

open Lib (Tallies)

def zeroDurationBucket : Nat := 2 ^ 32 - 1

/-- A span as it is recorded: its duration, and the classified total of its composition. -/
structure Span where
  elapsedNs : Int
  classifiedTotal : Option Int

/-- The counts of a span type that its histograms are made from. -/
structure SpanTypeAccum where
  count : Nat
  histogram : Tallies
  compositionByBucket : Tallies

def SpanTypeAccum.new : SpanTypeAccum := ⟨0, [], []⟩

section Buckets

variable (bucket : Nat → Nat)

/-- `bucket` is the logarithm of a positive duration in quarter octaves. -/
def histBucketKey (elapsedNs : Int) : Nat :=
  if 0 < elapsedNs then bucket elapsedNs.toNat else zeroDurationBucket

/-- One span is counted, and where its composition is known in the bucket of that too. A
composition without classified time makes its bucket but is no instance. -/
def SpanTypeAccum.record (accum : SpanTypeAccum) (span : Span) : SpanTypeAccum where
  count := accum.count + 1
  histogram := accum.histogram.add (histBucketKey bucket span.elapsedNs) 1
  compositionByBucket :=
    match span.classifiedTotal with
    | none => accum.compositionByBucket
    | some total => accum.compositionByBucket.add (histBucketKey bucket span.elapsedNs)
        (if 0 < total then 1 else 0)

def accumulate (spans : List Span) : SpanTypeAccum :=
  spans.foldl (SpanTypeAccum.record bucket) .new

end Buckets

/-- The buckets in an order of their keys. -/
def inOrder (before : Nat → Nat → Bool) (counts : Tallies) : Tallies :=
  ((counts.map Prod.fst).insertionSort fun a b => before a b = true).map fun k =>
    (k, counts.sumAt k)

def ascending (a b : Nat) : Bool := a ≤ b

/-- The sentinel is before every other key. -/
def zeroFirst (a b : Nat) : Bool :=
  match decide (a = zeroDurationBucket), decide (b = zeroDurationBucket) with
  | true, false => true
  | false, true => false
  | _, _ => a ≤ b

/-- The first bucket at which the cumulative count reaches the target. -/
def walk (target : Nat) : (cumulative : Nat) → Tallies → Option Nat
  | _, [] => none
  | cumulative, (k, count) :: rest =>
    if target ≤ cumulative + count then some k else walk target (cumulative + count) rest

namespace SpanTypeAccum

/-- The histogram of `to_stats`. -/
def toHistogram (accum : SpanTypeAccum) : Tallies := inOrder ascending accum.histogram

/-- The composition histogram of `to_stats`. -/
def toCompositionHistogram (accum : SpanTypeAccum) : Tallies :=
  inOrder ascending accum.compositionByBucket

/-- The bucket that `percentile_from_histogram` chooses. -/
def percentileFromHistogram (accum : SpanTypeAccum) (target : Nat) : Option Nat :=
  if accum.count = 0 then none else walk target 0 (inOrder zeroFirst accum.histogram)

end SpanTypeAccum

section Spans

variable (bucket : Nat → Nat) (spans : List Span)

/-- What an earlier bucket counts is shorter than what a later one does. -/
def Ordered (counted : Span → Bool) (buckets : Tallies) : Prop :=
  buckets.Pairwise fun a b => ∀ s ∈ spans, ∀ t ∈ spans, counted s = true → counted t = true →
    histBucketKey bucket s.elapsedNs = a.1 → histBucketKey bucket t.elapsedNs = b.1 →
      s.elapsedNs < t.elapsedNs

/-- The emitted histograms are ordered and complete, and a walk over the first of them stops
where the percentiles do. -/
structure Faithful : Prop where
  ordered : Ordered bucket spans (fun _ => true) (accumulate bucket spans).toHistogram
  composition : Ordered bucket spans (fun s => s.classifiedTotal.isSome)
    (accumulate bucket spans).toCompositionHistogram
  complete : ((accumulate bucket spans).toHistogram.map Prod.snd).sum = spans.length
  percentile : ∀ target, walk target 0 (accumulate bucket spans).toHistogram =
    (accumulate bucket spans).percentileFromHistogram target

/-- What is accumulated: every span in the bucket of its key, in one count. -/
structure Accumulated (accum : SpanTypeAccum) : Prop where
  count : accum.count = spans.length
  sorted : accum.histogram.Sorted
  compositionSorted : accum.compositionByBucket.Sorted
  mem : ∀ k, k ∈ accum.histogram.map Prod.fst ↔
    ∃ s ∈ spans, histBucketKey bucket s.elapsedNs = k
  sum : (accum.histogram.map Prod.snd).sum = spans.length

end Spans

variable {bucket : Nat → Nat} {spans : List Span} {counts : Tallies}

theorem sum_add (key amount : Nat) :
    ((counts.add key amount).map Prod.snd).sum = (counts.map Prod.snd).sum + amount := by
  induction counts with
  | nil => simp [Tallies.add]
  | cons entry rest ih =>
    rw [Tallies.add]
    split_ifs
    · simp [Nat.add_comm]
    · simp [Nat.add_right_comm]
    · simp [ih, Nat.add_assoc]

theorem accumulated (bucket : Nat → Nat) (spans : List Span) :
    Accumulated bucket spans (accumulate bucket spans) := by
  induction spans using List.reverseRecOn with
  | nil => exact ⟨rfl, .nil, .nil, fun k => by simp [accumulate, SpanTypeAccum.new], rfl⟩
  | append_singleton spans span ih =>
    rw [accumulate, List.foldl_concat]
    refine ⟨?_, ih.sorted.add _ _, ?_, fun k => ?_, ?_⟩
    · rw [SpanTypeAccum.record, List.length_append]
      exact congrArg (· + 1) ih.count
    · rw [SpanTypeAccum.record]
      cases span.classifiedTotal with
      | none => exact ih.compositionSorted
      | some total => exact ih.compositionSorted.add _ _
    · refine Tallies.mem_keys_add.trans ((or_congr_right (ih.mem k)).trans ?_)
      simp [or_and_right, exists_or, or_comm, eq_comm]
    · rw [SpanTypeAccum.record, sum_add, List.length_append]
      exact congrArg (· + 1) ih.sum

theorem inOrder_eq {before : Nat → Nat → Bool} (hsorted : counts.Sorted)
    (hbefore : counts.Pairwise fun a b => before a.1 b.1 = true) :
      inOrder before counts = counts := by
  rw [inOrder, (List.pairwise_map.mpr hbefore).insertionSort_eq, List.map_map]
  conv_rhs => rw [← List.map_id counts]
  exact List.map_congr_left fun entry hentry =>
    Prod.ext rfl (Tallies.sumAt_of_mem hsorted hentry)

theorem inOrder_ascending (hsorted : counts.Sorted) : inOrder ascending counts = counts :=
  inOrder_eq hsorted (hsorted.imp fun hlt => decide_eq_true hlt.le)

/-- The histograms are faithful exactly when the spans do not mix durations of zero with
positive ones. -/
theorem faithful_iff (hmono : ∀ a b, 0 < a → a ≤ b → bucket a ≤ bucket b)
    (hbelow : ∀ a, 0 < a → bucket a < zeroDurationBucket) :
    Faithful bucket spans ↔ (∀ s ∈ spans, s.elapsedNs ≤ 0) ∨ ∀ s ∈ spans, 0 < s.elapsedNs := by
  have hacc := accumulated bucket spans
  have hzero (s : Span) (hs : s.elapsedNs ≤ 0) :
      histBucketKey bucket s.elapsedNs = zeroDurationBucket := if_neg (by omega)
  have hpos (s : Span) (hs : 0 < s.elapsedNs) :
      histBucketKey bucket s.elapsedNs < zeroDurationBucket := by
    rw [histBucketKey, if_pos hs]
    exact hbelow _ (by omega)
  constructor
  · intro h
    by_contra hmixed
    push Not at hmixed
    obtain ⟨⟨s, hs, hspos⟩, t, ht, htzero⟩ := hmixed
    obtain ⟨a, ha, hakey⟩ := List.mem_map.mp ((hacc.mem _).mpr ⟨s, hs, rfl⟩)
    obtain ⟨b, hb, hbkey⟩ := List.mem_map.mp ((hacc.mem _).mpr ⟨t, ht, rfl⟩)
    have hordered := h.ordered
    rw [SpanTypeAccum.toHistogram, inOrder_ascending hacc.sorted] at hordered
    -- The bucket of the positive duration is before the sentinel.
    have hkeys : a.1 < b.1 := by
      rw [hakey, hbkey, hzero t htzero]
      exact hpos s hspos
    obtain ⟨i, hi, rfl⟩ := List.getElem_of_mem ha
    obtain ⟨j, hj, rfl⟩ := List.getElem_of_mem hb
    rcases lt_trichotomy i j with hij | rfl | hji
    · have hlt := List.pairwise_iff_getElem.mp hordered i j hi hj hij s hs t ht rfl rfl
        hakey.symm hbkey.symm
      omega
    · exact hkeys.false
    · exact hkeys.not_gt (List.pairwise_iff_getElem.mp hacc.sorted j i hj hi hji)
  · intro hplain
    have hordered (s t : Span) (hs : s ∈ spans) (ht : t ∈ spans)
        (hlt : histBucketKey bucket s.elapsedNs < histBucketKey bucket t.elapsedNs) :
        s.elapsedNs < t.elapsedNs := by
      rcases hplain with hall | hall
      · rw [hzero s (hall s hs), hzero t (hall t ht)] at hlt
        exact absurd hlt (lt_irrefl _)
      · rw [histBucketKey, histBucketKey, if_pos (hall s hs), if_pos (hall t ht)] at hlt
        by_contra hle
        have ht := hall t ht
        exact absurd (hmono t.elapsedNs.toNat s.elapsedNs.toNat (by omega) (by omega))
          (not_le.mpr hlt)
    have hsorted {counts : Tallies} (h : counts.Sorted) (counted : Span → Bool) :
        Ordered bucket spans counted (inOrder ascending counts) := by
      rw [inOrder_ascending h]
      exact h.imp fun hlt s hs t ht _ _ hskey htkey => hordered s t hs ht (by rwa [hskey, htkey])
    refine ⟨hsorted hacc.sorted _, hsorted hacc.compositionSorted _, ?_, fun target => ?_⟩
    · rw [SpanTypeAccum.toHistogram, inOrder_ascending hacc.sorted]
      exact hacc.sum
    · have hfirst : inOrder zeroFirst (accumulate bucket spans).histogram =
          (accumulate bucket spans).histogram := by
        refine inOrder_eq hacc.sorted (hacc.sorted.imp_of_mem fun {a b} ha hb hlt => ?_)
        obtain ⟨s, hs, hakey⟩ := (hacc.mem a.1).mp (List.mem_map_of_mem ha)
        obtain ⟨t, ht, hbkey⟩ := (hacc.mem b.1).mp (List.mem_map_of_mem hb)
        rw [← hakey, ← hbkey] at hlt ⊢
        rcases hplain with hall | hall
        · rw [hzero s (hall s hs), hzero t (hall t ht)] at hlt
          exact absurd hlt (lt_irrefl _)
        · rw [zeroFirst, decide_eq_false (hpos s (hall s hs)).ne,
            decide_eq_false (hpos t (hall t ht)).ne]
          exact decide_eq_true hlt.le
      rw [SpanTypeAccum.toHistogram, SpanTypeAccum.percentileFromHistogram,
        inOrder_ascending hacc.sorted, hfirst]
      split
      · rename_i hnone
        rw [hacc.count, List.length_eq_zero_iff] at hnone
        rw [hnone]
        rfl
      · rfl

/-- Quarter octaves, counted on powers of two. -/
def octaves (a : Nat) : Nat := min (4 * Nat.log 2 a) 252

theorem faithful_iff_positive :
    Faithful octaves [⟨1, none⟩, ⟨2, some 2⟩] ↔
      (∀ s ∈ [Span.mk 1 none, ⟨2, some 2⟩], s.elapsedNs ≤ 0) ∨
        ∀ s ∈ [Span.mk 1 none, ⟨2, some 2⟩], 0 < s.elapsedNs :=
  faithful_iff
    (fun _ _ _ hab => min_le_min_right 252 (Nat.mul_le_mul_left 4 (Nat.log_mono_right hab)))
    fun _ _ => (min_le_right _ 252).trans_lt (by decide)

theorem mixed_not_faithful : ¬ Faithful octaves [⟨0, none⟩, ⟨1, none⟩] := by
  intro h
  have hlast := (List.pairwise_cons.mp h.ordered).1 (zeroDurationBucket, 1) (by decide) ⟨1, none⟩
    (by simp) ⟨0, none⟩ (by simp) rfl rfl (by decide) (by decide)
  exact absurd hlast (by decide)

end Dial9.Viewer.Durations
