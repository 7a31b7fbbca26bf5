/-
# Segment residency budgets

Which segments a viewport needs, which to prefetch, what to admit within the budget
and what to evict. Sizes are bytes and extents nanoseconds. Distances from a center
are taken twice, so that they stay whole numbers.
-/

import Mathlib.Algebra.BigOperators.Group.List.Basic
import Mathlib.Algebra.Order.Group.Int
import Mathlib.Algebra.Order.BigOperators.Group.List
import Mathlib.Algebra.Order.Ring.Nat
import Mathlib.Data.List.Dedup
import Mathlib.Data.List.Sort

namespace Dial9.Viewer.Segments

structure TimeRange where
  startNs : Int
  endNs : Int
  deriving DecidableEq

/-- A segment of the listing, with its extent. -/
structure ListedSegment (K : Type) where
  key : K
  sizeBytes : Nat
  extent : TimeRange

/-- Bytes after decompression for one byte of the listing, before the first parse. -/
def gzipExpansionEstimate : Nat := 4

variable {K : Type}

/-- Extents that touch overlap. -/
def extentsOverlap (a b : TimeRange) : Bool :=
  decide (a.startNs ≤ b.endNs) && decide (b.startNs ≤ a.endNs)

/-- The gap between an extent and the view. -/
def extentDistance (extent view : TimeRange) : Int :=
  if extentsOverlap extent view then 0
  else if extent.endNs < view.startNs then view.startNs - extent.endNs
  else extent.startNs - view.endNs

/-- Twice the distance of the centers. -/
def centerDistance (extent view : TimeRange) : Nat :=
  (extent.startNs + extent.endNs - (view.startNs + view.endNs)).natAbs

def computeNeedSet (segments : List (ListedSegment K)) (view : TimeRange) : List K :=
  (segments.filter fun s => extentsOverlap s.extent view).map ListedSegment.key

/-- The segment before the first needed one and the one after the last, or the nearest
ones on each side of a view without segments. -/
def computePrefetchSet [DecidableEq K] (segments : List (ListedSegment K)) (needKeys : List K)
    (view : TimeRange) : List K :=
  match needKeys.head?, needKeys.getLast? with
  | some firstKey, some lastKey =>
    let before := (segments.findIdx? fun s => s.key = firstKey).bind fun first =>
      if 0 < first then segments[first - 1]? else none
    let after := (segments.findIdx? fun s => s.key = lastKey).bind fun last => segments[last + 1]?
    (before.map ListedSegment.key).toList ++ (after.map ListedSegment.key).toList
  | _, _ =>
    -- The scan for the segment before stops at the first one after the view.
    let scanned := segments.takeWhile fun s => !decide (view.endNs < s.extent.startNs)
    let after := segments.find? fun s => decide (view.endNs < s.extent.startNs)
    let candidates := scanned ++ after.toList
    let before := (candidates.filter fun s => decide (s.extent.endNs < view.startNs)).getLast?
    (before.map ListedSegment.key).toList ++ (after.map ListedSegment.key).toList

/-- A segment that may be admitted. -/
structure AdmissionCandidate (K : Type) where
  key : K
  extent : TimeRange
  estimatedRawBytes : Nat

structure AdmissionPlan (K : Type) where
  admitted : List K
  deferred : List K

/-- Nearest to the view's center first, and earlier first among equals. -/
def nearer (view : TimeRange) (a b : AdmissionCandidate K) : Prop :=
  centerDistance a.extent view < centerDistance b.extent view ∨
    (centerDistance a.extent view = centerDistance b.extent view ∧
      a.extent.startNs ≤ b.extent.startNs)

instance (view : TimeRange) : DecidableRel (nearer (K := K) view) := fun _ _ =>
  inferInstanceAs (Decidable (_ ∨ _))

/-- The loop of `capToBudget`, with what was admitted so far and its total. -/
def capLoop (capacityBytes baseBytes : Nat) :
    List (AdmissionCandidate K) → AdmissionPlan K → Nat → AdmissionPlan K
  | [], plan, _ => plan
  | c :: rest, plan, total =>
    if total + c.estimatedRawBytes ≤ capacityBytes ∨ (plan.admitted = [] ∧ baseBytes = 0) then
      capLoop capacityBytes baseBytes rest { plan with admitted := plan.admitted ++ [c.key] }
        (total + c.estimatedRawBytes)
    else
      capLoop capacityBytes baseBytes rest { plan with deferred := plan.deferred ++ [c.key] } total

/-- Candidates are admitted while they fit on top of the base; the nearest one of the
first round always is. -/
def capToBudget (candidates : List (AdmissionCandidate K)) (view : TimeRange)
    (capacityBytes baseBytes : Nat) : AdmissionPlan K :=
  capLoop capacityBytes baseBytes (candidates.insertionSort (nearer view)) ⟨[], []⟩ baseBytes

/-- A parsed segment. -/
structure ResidentSegment (K : Type) where
  key : K
  extent : TimeRange
  rawBytes : Nat

/-- Farthest from the view first, and earlier first among equals. -/
def farther (view : TimeRange) (a b : ResidentSegment K) : Prop :=
  extentDistance b.extent view < extentDistance a.extent view ∨
    (extentDistance b.extent view = extentDistance a.extent view ∧
      a.extent.startNs ≤ b.extent.startNs)

instance (view : TimeRange) : DecidableRel (farther (K := K) view) := fun _ _ =>
  inferInstanceAs (Decidable (_ ∨ _))

/-- Farthest from the view's center first, and earlier first among equals. -/
def fartherCenter (view : TimeRange) (a b : ResidentSegment K) : Prop :=
  centerDistance b.extent view < centerDistance a.extent view ∨
    (centerDistance b.extent view = centerDistance a.extent view ∧
      a.extent.startNs ≤ b.extent.startNs)

instance (view : TimeRange) : DecidableRel (fartherCenter (K := K) view) := fun _ _ =>
  inferInstanceAs (Decidable (_ ∨ _))

/-- Evict in order until the total is small enough; what is evicted, and the new total. -/
def evictFrom (stopAtBytes : Nat) : List (ResidentSegment K) → Nat → List K × Nat
  | [], total => ([], total)
  | segment :: rest, total =>
    if total ≤ stopAtBytes then ([], total)
    else
      let (evict, total) := evictFrom stopAtBytes rest (total - segment.rawBytes)
      (segment.key :: evict, total)

/-- The bytes of some segments. -/
def rawBytes (resident : List (ResidentSegment K)) : Nat :=
  (resident.map ResidentSegment.rawBytes).sum

/-- Past the trigger, unprotected segments are evicted; past the hard budget, prefetched
ones too, and at last needed ones. Both marks leave room for the reserved bytes. -/
def planEviction [DecidableEq K] (resident : List (ResidentSegment K))
    (needKeys prefetchKeys : List K)
    (view : TimeRange) (budgetBytes triggerBytes reservedBytes : Nat) : List K :=
  let trigger := triggerBytes - reservedBytes
  let hardBudget := budgetBytes - reservedBytes
  let total := rawBytes resident
  if total ≤ trigger then []
  else
    let unprotected := resident.filter fun r => decide (r.key ∉ needKeys ∧ r.key ∉ prefetchKeys)
    let (evict, total) := evictFrom trigger (unprotected.insertionSort (farther view)) total
    let prefetch := resident.filter fun r => decide (r.key ∈ prefetchKeys)
    let (evict', total) :=
      if total ≤ hardBudget then ([], total)
      else evictFrom hardBudget (prefetch.insertionSort (farther view)) total
    let need := resident.filter fun r => decide (r.key ∈ needKeys)
    let evict'' :=
      if total ≤ hardBudget then []
      else (evictFrom hardBudget (need.insertionSort (fartherCenter view)) total).1
    evict ++ evict' ++ evict''

/-! ## What is admitted -/

variable {capacityBytes baseBytes : Nat} {estimate : K → Nat}

/-- What is admitted fits on top of the base, or is the one nearest segment. -/
def Fits (estimate : K → Nat) (capacityBytes baseBytes : Nat) (admitted : List K) : Prop :=
  baseBytes + (admitted.map estimate).sum ≤ capacityBytes ∨ admitted = [] ∨
    (baseBytes = 0 ∧ ∃ key, admitted = [key])

variable {candidates : List (AdmissionCandidate K)}

section

variable (hestimate : ∀ c ∈ candidates, c.estimatedRawBytes = estimate c.key)
include hestimate

theorem capLoop_fits {plan : AdmissionPlan K} {total : Nat}
    (htotal : total = baseBytes + (plan.admitted.map estimate).sum)
    (hfits : Fits estimate capacityBytes baseBytes plan.admitted) :
    Fits estimate capacityBytes baseBytes
      (capLoop capacityBytes baseBytes candidates plan total).admitted := by
  induction candidates generalizing plan total with
  | nil => exact hfits
  | cons c rest ih =>
    have hrest : ∀ c ∈ rest, c.estimatedRawBytes = estimate c.key := fun c hc =>
      hestimate c (List.mem_cons_of_mem _ hc)
    have hc := hestimate c List.mem_cons_self
    have hsum : total + c.estimatedRawBytes =
        baseBytes + ((plan.admitted ++ [c.key]).map estimate).sum := by
      rw [List.map_append, List.sum_append, List.map_singleton, List.sum_singleton, htotal, hc,
        Nat.add_assoc]
    rw [capLoop]
    split
    case isTrue hadmit =>
      apply ih hrest hsum
      rcases hadmit with hroom | ⟨hempty, hbase⟩
      · exact .inl (hsum ▸ hroom)
      · refine .inr (.inr ⟨hbase, c.key, ?_⟩)
        rw [hempty, List.nil_append]
    case isFalse => exact ih hrest htotal hfits

theorem capToBudget_fits (view : TimeRange) :
    Fits estimate capacityBytes baseBytes
      (capToBudget candidates view capacityBytes baseBytes).admitted := by
  apply capLoop_fits _ rfl (.inr (.inl rfl))
  intro c hc
  exact hestimate c ((List.perm_insertionSort _ candidates).mem_iff.mp hc)

end

theorem capLoop_mem {plan : AdmissionPlan K} {total : Nat} {key : K}
    (hkey : key ∈ (capLoop capacityBytes baseBytes candidates plan total).admitted) :
    key ∈ plan.admitted ∨ ∃ c ∈ candidates, c.key = key := by
  induction candidates generalizing plan total with
  | nil => exact .inl hkey
  | cons c rest ih =>
    rw [capLoop] at hkey
    split at hkey
    case isTrue =>
      rcases ih hkey with hadmitted | ⟨c', hc', rfl⟩
      · rcases List.mem_append.mp hadmitted with hold | hnew
        · exact .inl hold
        · exact .inr ⟨c, List.mem_cons_self, (List.mem_singleton.mp hnew).symm⟩
      · exact .inr ⟨c', List.mem_cons_of_mem _ hc', rfl⟩
    case isFalse =>
      rcases ih hkey with hold | ⟨c', hc', rfl⟩
      · exact .inl hold
      · exact .inr ⟨c', List.mem_cons_of_mem _ hc', rfl⟩

theorem mem_of_mem_capToBudget {view : TimeRange} {key : K}
    (hkey : key ∈ (capToBudget candidates view capacityBytes baseBytes).admitted) :
    ∃ c ∈ candidates, c.key = key := by
  rcases capLoop_mem hkey with hnone | ⟨c, hc, hkey⟩
  · cases hnone
  · exact ⟨c, (List.perm_insertionSort _ candidates).mem_iff.mp hc, hkey⟩

/-! ## What is evicted -/

theorem evictFrom_spec (stopAtBytes : Nat) (pool : List (ResidentSegment K)) (total : Nat) :
    ∃ evicted rest, pool = evicted ++ rest ∧
      (evictFrom stopAtBytes pool total).1 = evicted.map ResidentSegment.key ∧
        (evictFrom stopAtBytes pool total).2 = total - rawBytes evicted ∧
          ((evictFrom stopAtBytes pool total).2 ≤ stopAtBytes ∨ rest = []) := by
  induction pool generalizing total with
  | nil => exact ⟨[], [], rfl, rfl, rfl, .inr rfl⟩
  | cons segment rest ih =>
    rw [evictFrom]
    split
    case isTrue hstop => exact ⟨[], segment :: rest, rfl, rfl, rfl, .inl hstop⟩
    case isFalse =>
      rcases ih (total - segment.rawBytes) with ⟨evicted, left, hpool, hkeys, htotal, hend⟩
      refine ⟨segment :: evicted, left, congrArg _ hpool, congrArg _ hkeys, ?_, hend⟩
      rw [htotal, Nat.sub_sub]
      rfl

theorem rawBytes_append (a b : List (ResidentSegment K)) :
    rawBytes (a ++ b) = rawBytes a + rawBytes b := by
  rw [rawBytes, List.map_append, List.sum_append, rawBytes, rawBytes]

theorem rawBytes_perm {a b : List (ResidentSegment K)} (h : a.Perm b) : rawBytes a = rawBytes b :=
  (h.map ResidentSegment.rawBytes).sum_eq

theorem rawBytes_filter (resident : List (ResidentSegment K)) (p : ResidentSegment K → Bool) :
    rawBytes (resident.filter p) + rawBytes (resident.filter fun r => !p r) =
      rawBytes resident := by
  rw [← rawBytes_append]
  exact rawBytes_perm (List.filter_append_perm p resident)

theorem rawBytes_not_mem_le [DecidableEq K] {resident evicted : List (ResidentSegment K)}
    (hnodup : (resident.map ResidentSegment.key).Nodup) (hevicted : evicted.Subperm resident) :
    rawBytes (resident.filter fun r => decide (r.key ∉ evicted.map ResidentSegment.key)) ≤
      rawBytes resident - rawBytes evicted := by
  have hsplit := rawBytes_filter resident fun r => decide (r.key ∈ evicted.map ResidentSegment.key)
  have hsub : evicted.Subperm
      (resident.filter fun r => decide (r.key ∈ evicted.map ResidentSegment.key)) := by
    obtain ⟨kept, hperm, hsublist⟩ := hevicted
    apply List.subperm_of_subset (hperm.nodup_iff.mp (hsublist.nodup hnodup.of_map))
    intro r hr
    have hmem := hsublist.subset (hperm.mem_iff.mpr hr)
    exact List.mem_filter.mpr ⟨hmem, decide_eq_true (List.mem_map_of_mem hr)⟩
  have hle : rawBytes evicted ≤
      rawBytes (resident.filter fun r => decide (r.key ∈ evicted.map ResidentSegment.key)) := by
    obtain ⟨kept, hperm, hsublist⟩ := hsub
    rw [← rawBytes_perm hperm]
    exact (hsublist.map ResidentSegment.rawBytes).sum_le_sum fun _ _ => Nat.zero_le _
  have hsame : (resident.filter fun r => decide (r.key ∉ evicted.map ResidentSegment.key)) =
      resident.filter fun r => !decide (r.key ∈ evicted.map ResidentSegment.key) := by
    apply List.filter_congr
    intro r _
    exact decide_not
  rw [hsame]
  omega

variable {resident : List (ResidentSegment K)} {needKeys prefetchKeys : List K} {view : TimeRange}
  {budgetBytes triggerBytes reservedBytes : Nat}

/-- Where what is protected fits beside the reservations, only unprotected segments are
evicted, and what is left fits too. -/
theorem planEviction_spares [DecidableEq K] (hnodup : (resident.map ResidentSegment.key).Nodup)
    (htrigger : triggerBytes ≤ budgetBytes)
    (hprotected : rawBytes (resident.filter fun r =>
      !decide (r.key ∉ needKeys ∧ r.key ∉ prefetchKeys)) ≤ budgetBytes - reservedBytes) :
    let evict :=
      planEviction resident needKeys prefetchKeys view budgetBytes triggerBytes reservedBytes
    (∀ key ∈ evict, key ∈ resident.map ResidentSegment.key ∧ key ∉ needKeys ∧ key ∉ prefetchKeys) ∧
      rawBytes (resident.filter fun r => decide (r.key ∉ evict)) ≤ budgetBytes - reservedBytes := by
  have hmarks : triggerBytes - reservedBytes ≤ budgetBytes - reservedBytes :=
    Nat.sub_le_sub_right htrigger _
  rw [planEviction]
  by_cases hroom : rawBytes resident ≤ triggerBytes - reservedBytes
  · rw [if_pos hroom]
    refine ⟨nofun, ?_⟩
    have hall : (resident.filter fun r => decide (r.key ∉ ([] : List K))) = resident := by
      apply List.filter_eq_self.mpr
      intro r _
      exact decide_eq_true List.not_mem_nil
    rw [hall]
    exact hroom.trans hmarks
  · rw [if_neg hroom]
    obtain ⟨unprotected, hunprotected⟩ : ∃ unprotected, unprotected = resident.filter fun r =>
      decide (r.key ∉ needKeys ∧ r.key ∉ prefetchKeys) := ⟨_, rfl⟩
    have hsplit := rawBytes_filter resident fun r =>
      decide (r.key ∉ needKeys ∧ r.key ∉ prefetchKeys)
    have hperm := List.perm_insertionSort (farther view) unprotected
    rcases evictFrom_spec (triggerBytes - reservedBytes)
      (unprotected.insertionSort (farther view)) (rawBytes resident) with
      ⟨evicted, rest, hpool, hkeys, htotal, hend⟩
    have hsubset : evicted.Subperm unprotected := by
      refine List.Subperm.trans ?_ hperm.subperm
      rw [hpool]
      exact (List.sublist_append_left _ _).subperm
    have hfits : rawBytes resident - rawBytes evicted ≤ budgetBytes - reservedBytes := by
      rcases hend with hstop | rfl
      · rw [← htotal]
        exact hstop.trans hmarks
      · rw [List.append_nil] at hpool
        rw [← hunprotected] at hsplit
        have hevicted : rawBytes evicted = rawBytes unprotected := by
          rw [← hpool]
          exact rawBytes_perm hperm
        omega
    simp only [← hunprotected, hkeys, htotal, if_pos hfits, List.append_nil]
    constructor
    · intro key hkey
      rcases List.mem_map.mp hkey with ⟨r, hr, rfl⟩
      have hmem := hsubset.subset hr
      rw [hunprotected] at hmem
      rcases List.mem_filter.mp hmem with ⟨hresident, hopen⟩
      exact ⟨List.mem_map_of_mem hresident, of_decide_eq_true hopen⟩
    · have hresident : evicted.Subperm resident := by
        refine hsubset.trans ?_
        rw [hunprotected]
        exact List.filter_sublist.subperm
      exact (rawBytes_not_mem_le hnodup hresident).trans hfits

/-! ## What is protected -/

theorem sum_le_of_single {keys : List K} {single : K} (hnodup : keys.Nodup)
    (hzero : ∀ key ∈ keys, key ≠ single → estimate key = 0) :
    (keys.map estimate).sum ≤ estimate single := by
  induction keys with
  | nil => exact Nat.zero_le _
  | cons key rest ih =>
    rcases List.nodup_cons.mp hnodup with ⟨hfresh, hrest⟩
    have hzero' : ∀ other ∈ rest, other ≠ single → estimate other = 0 := fun other hother =>
      hzero other (List.mem_cons_of_mem _ hother)
    rw [List.map_cons, List.sum_cons]
    by_cases heq : key = single
    · have hsum : (rest.map estimate).sum = 0 := by
        apply List.sum_eq_zero
        intro size hsize
        rcases List.mem_map.mp hsize with ⟨other, hother, rfl⟩
        apply hzero' other hother
        rintro rfl
        exact hfresh (heq ▸ hother)
      rw [hsum, heq, Nat.add_zero]
    · rw [hzero key List.mem_cons_self heq, Nat.zero_add]
      exact ih hrest hzero'

theorem sum_eq_zero_of_not_mem {keys : List K} {single : K} (hmem : single ∉ keys)
    (hzero : ∀ key ∈ keys, key ≠ single → estimate key = 0) : (keys.map estimate).sum = 0 := by
  apply List.sum_eq_zero
  intro size hsize
  rcases List.mem_map.mp hsize with ⟨key, hkey, rfl⟩
  apply hzero key hkey
  rintro rfl
  exact hmem hkey

theorem fits_or_single {need prefetch : List K} (hneed : Fits estimate capacityBytes 0 need)
    (hprefetch : Fits estimate capacityBytes (need.map estimate).sum prefetch) :
    ((need ++ prefetch).map estimate).sum ≤ capacityBytes ∨
      ∃ single, ∀ key ∈ need ++ prefetch, key ≠ single → estimate key = 0 := by
  have happend : ((need ++ prefetch).map estimate).sum =
      (need.map estimate).sum + (prefetch.map estimate).sum := by
    rw [List.map_append, List.sum_append]
  rcases hprefetch with hroom | rfl | ⟨hzero, single, rfl⟩
  · exact .inl (happend ▸ hroom)
  · rw [List.append_nil]
    rcases hneed with hroom | rfl | ⟨-, single, rfl⟩
    · exact .inl (by rwa [Nat.zero_add] at hroom)
    · exact .inl (Nat.zero_le _)
    · exact .inr ⟨single, fun key hkey hne => absurd (List.mem_singleton.mp hkey) hne⟩
  · right
    refine ⟨single, fun key hkey hne => ?_⟩
    rcases List.mem_append.mp hkey with hmem | hmem
    · exact List.sum_eq_zero_iff_forall_eq_nat.mp hzero _ (List.mem_map_of_mem hmem)
    · exact absurd (List.mem_singleton.mp hmem) hne

/-- What is parsed of the admitted segments fits beside what is reserved for the others. -/
theorem kept_le_budget [DecidableEq K] {need prefetch kept : List K} {parsed : K → Bool}
    (hneed : Fits estimate capacityBytes 0 need)
    (hprefetch : Fits estimate capacityBytes (need.map estimate).sum prefetch)
    (hcapacity : capacityBytes ≤ budgetBytes)
    (hsize : ∀ key, parsed key = true → estimate key ≤ budgetBytes) (hnodup : kept.Nodup)
    (hkept : ∀ key ∈ kept, key ∈ need ++ prefetch ∧ parsed key = true) :
    (kept.map estimate).sum ≤ budgetBytes -
      (((need ++ prefetch).dedup.filter fun key => !parsed key).map estimate).sum := by
  have hopen : ∀ key ∈ (need ++ prefetch).dedup.filter fun key => !parsed key,
      key ∈ need ++ prefetch ∧ parsed key = false := by
    intro key hkey
    rcases List.mem_filter.mp hkey with ⟨hmem, hparsed⟩
    exact ⟨List.mem_dedup.mp hmem, by simpa using hparsed⟩
  have hopenNodup : ((need ++ prefetch).dedup.filter fun key => !parsed key).Nodup :=
    (List.nodup_dedup _).filter _
  rcases fits_or_single hneed hprefetch with hroom | ⟨single, hzero⟩
  · have hsub : (kept ++ (need ++ prefetch).dedup.filter fun key => !parsed key).Subperm
        (need ++ prefetch).dedup := by
      apply List.subperm_of_subset
      · refine List.nodup_append.mpr ⟨hnodup, hopenNodup, ?_⟩
        rintro key hkey _ hopen' rfl
        have hfalse := (hopen key hopen').2
        rw [(hkept key hkey).2] at hfalse
        cases hfalse
      · intro key hkey
        rcases List.mem_append.mp hkey with hmem | hmem
        · exact List.mem_dedup.mpr (hkept key hmem).1
        · exact (List.mem_filter.mp hmem).1
    obtain ⟨kept', hperm, hsublist⟩ := hsub.trans (List.dedup_sublist _).subperm
    have hle : (kept'.map estimate).sum ≤ ((need ++ prefetch).map estimate).sum :=
      (hsublist.map estimate).sum_le_sum fun _ _ => Nat.zero_le _
    rw [(hperm.map estimate).sum_eq, List.map_append, List.sum_append] at hle
    omega
  · have hkeptZero : ∀ key ∈ kept, key ≠ single → estimate key = 0 := fun key hkey =>
      hzero key (hkept key hkey).1
    by_cases hmem : single ∈ kept
    · have hnone : single ∉ (need ++ prefetch).dedup.filter fun key => !parsed key := by
        intro hopen'
        have hfalse := (hopen single hopen').2
        rw [(hkept single hmem).2] at hfalse
        cases hfalse
      rw [sum_eq_zero_of_not_mem hnone fun key hkey => hzero key (hopen key hkey).1, Nat.sub_zero]
      exact (sum_le_of_single hnodup hkeptZero).trans (hsize single (hkept single hmem).2)
    · rw [sum_eq_zero_of_not_mem hmem hkeptZero]
      exact Nat.zero_le _

end Dial9.Viewer.Segments
