/-
# Dumps

A dump request names a window of time. The triggered worker registers it,
counts the segments that overlap the window and pass the pipeline, and answers
the request with a receipt, or with an error where nothing passed and something
failed. The S3 stage keeps the object keys of each open dump for its manifest.
-/

import Dial9.Core.MemFs
import Mathlib.Data.List.Perm.Basic

namespace Dial9.Core

/-- `ProcessErrorKind`, with the one error kind the worker tells apart. -/
inductive ProcessErrorKind
  | io (notFound : Bool) (message : String)
  | transfer (message : String) (retryable : Bool)
  deriving DecidableEq

namespace ProcessErrorKind

def alreadyDeleted : ProcessErrorKind → Bool
  | io notFound _ => notFound
  | transfer _ _ => false

def retryable : ProcessErrorKind → Bool
  | io _ _ => false
  | transfer _ retryable => retryable

/-- The `Display` form. -/
def display : ProcessErrorKind → String
  | io _ message => "I/O error: " ++ message
  | transfer message _ => "S3 transfer error: " ++ message

end ProcessErrorKind

/-- `DumpId`, a ULID. -/
abbrev DumpId := BitVec 128

/-- Crockford's base 32. -/
def crockford : List Char := "0123456789ABCDEFGHJKMNPQRSTVWXYZ".toList

/-- The last base-32 digits of a number, highest first. -/
def base32 (value : Nat) : Nat → List Char
  | 0 => []
  | digits + 1 => base32 (value / 32) digits ++ [crockford.getD (value % 32) '0']

/-- The `Display` form of a ULID: 26 digits. -/
def DumpId.display (id : DumpId) : List Char := base32 id.toNat 26

theorem comma_not_mem_crockford : ∀ digit < 32, crockford.getD digit '0' ≠ ',' := by decide

theorem crockford_injective :
    ∀ a < 32, ∀ b < 32, crockford.getD a '0' = crockford.getD b '0' → a = b := by
  decide

theorem comma_not_mem_base32 (value digits : Nat) : ',' ∉ base32 value digits := by
  induction digits generalizing value with
  | zero => simp [base32]
  | succ digits ih =>
    rw [base32, List.mem_append, not_or, List.mem_singleton]
    have hne := comma_not_mem_crockford (value % 32) (Nat.mod_lt _ (by decide))
    exact ⟨ih _, fun h => hne h.symm⟩

theorem base32_injective {digits a b : Nat} (ha : a < 32 ^ digits) (hb : b < 32 ^ digits)
    (h : base32 a digits = base32 b digits) : a = b := by
  induction digits generalizing a b with
  | zero => omega
  | succ digits ih =>
    rcases List.append_inj' h rfl with ⟨hhigh, hlow⟩
    have hlt : ∀ n : Nat, n % 32 < 32 := fun n => Nat.mod_lt n (by decide)
    have hdigit := crockford_injective _ (hlt a) _ (hlt b) (List.singleton_inj.mp hlow)
    rw [Nat.pow_succ] at ha hb
    have hquotient := ih (Nat.div_lt_of_lt_mul (by omega)) (Nat.div_lt_of_lt_mul (by omega)) hhigh
    omega

theorem DumpId.display_injective {a b : DumpId} (h : a.display = b.display) : a = b := by
  have hlt : ∀ id : DumpId, id.toNat < 32 ^ 26 :=
    fun id => Nat.lt_of_lt_of_le id.isLt (by decide)
  exact BitVec.eq_of_toNat_eq (base32_injective (hlt a) (hlt b) h)

theorem DumpId.display_ne_nil (id : DumpId) : id.display ≠ [] := by
  simp [display, base32]


/-- `Lookback`, in nanoseconds. -/
inductive Lookback
  | unbounded
  | window (nanos : Nat)
  deriving DecidableEq

/-- `DumpRequest`: times in nanoseconds, the trigger time since the epoch. The
receipt channel is the one of this request. -/
structure DumpRequest where
  id : DumpId
  triggeredAt : Int
  lookback : Lookback
  lookforward : Nat
  metadata : List (String × String)
  deriving DecidableEq

/-- The forward window ends at an instant: there are fewer than `2 ^ 63` seconds of them. -/
def DumpRequest.Anchored (req : DumpRequest) (now elapsed : Nat) : Prop :=
  req.lookforward = 0 ∨ now + (req.lookforward - elapsed) < 2 ^ 63 * 10 ^ 9

instance (req : DumpRequest) (now elapsed : Nat) : Decidable (req.Anchored now elapsed) :=
  inferInstanceAs (Decidable (_ ∨ _))

/-- `DumpReceipt`. -/
structure DumpReceipt where
  dumpId : DumpId
  segmentsProcessed : Nat
  finishedAt : Int
  timeRange : Int × Int
  manifestKey : Option String
  deriving DecidableEq

/-- `DumpError`, without the error of a trigger that was never sent. -/
inductive DumpError
  | workerStopped
  | pipelineUnavailable
  | pipeline (kind : ProcessErrorKind)
  deriving DecidableEq

/-- `DumpCompletion`. -/
structure DumpCompletion where
  dumpId : DumpId
  triggeredAt : Int
  timeRange : Int × Int
  segmentsProcessed : Nat
  metadata : List (String × String)
  failed : Bool
  deriving DecidableEq

/-- A segment and the creation and seal seconds stored with it. -/
structure Span where
  index : Nat
  epochSecs : Nat
  sealSecs : Nat
  deriving DecidableEq

/-- `ActiveDump`. Deadlines are instants in nanoseconds. -/
structure ActiveDump where
  id : DumpId
  triggeredAt : Int
  window : EpochWindow
  deadline : Option Nat
  metadata : List (String × String)
  segmentsProcessed : Nat
  firstEpoch : Option Nat
  lastEpoch : Option Nat
  firstError : Option ProcessErrorKind
  pipelineUnavailable : Bool
  /-- What the ring held when the dump was registered, for the record. -/
  ring : List Span
  deriving DecidableEq

/-- `u64::saturating_add`. -/
def saturatingAdd (a b : Nat) : Nat := min (a + b) (2 ^ 64 - 1)

/-- `epoch_to_system`. -/
def epochToSystem (secs : Nat) : Int := secs * 10 ^ 9

variable {manifestKey : Option String}

namespace ActiveDump

/-- The dump of a request, registered at an instant, with the wall-clock time since the trigger. -/
def registered (req : DumpRequest) (now elapsed : Nat) (ring : List Span) : ActiveDump :=
  let triggerEpoch := req.triggeredAt.toNat / 10 ^ 9
  { id := req.id
    triggeredAt := req.triggeredAt
    window :=
      { startSecs :=
          match req.lookback with
          | .unbounded => none
          | .window nanos => some (triggerEpoch - nanos / 10 ^ 9)
        endSecs := saturatingAdd triggerEpoch (req.lookforward / 10 ^ 9) }
    deadline := if req.lookforward = 0 then none else some (now + (req.lookforward - elapsed))
    metadata := req.metadata
    segmentsProcessed := 0
    firstEpoch := none
    lastEpoch := none
    firstError := none
    pipelineUnavailable := false
    ring := ring }

/-- `register`; `none` is the panic of a sum of an instant and a duration that is past the last
instant. -/
def register (req : DumpRequest) (now elapsed : Nat) (ring : List Span) : Option ActiveDump :=
  if req.Anchored now elapsed then some (registered req now elapsed ring) else none

/-- `due`: no forward window, or its deadline has elapsed. -/
def due (dump : ActiveDump) (now : Nat) : Bool := dump.deadline.all fun deadline => deadline ≤ now

/-- `mark_pipeline_unavailable`. -/
def markPipelineUnavailable (dump : ActiveDump) : ActiveDump :=
  if dump.firstError.isNone then { dump with pipelineUnavailable := true } else dump

/-- `time_range`: the captured span, or the trigger instant for an empty dump. -/
def timeRange (dump : ActiveDump) : Int × Int :=
  match dump.firstEpoch, dump.lastEpoch with
  | some first, some last => (epochToSystem first, epochToSystem last)
  | _, _ => (dump.triggeredAt, dump.triggeredAt)

/-- `failed`: something went wrong and nothing made it through. -/
def failed (dump : ActiveDump) : Bool :=
  (dump.firstError.isSome || dump.pipelineUnavailable) && dump.segmentsProcessed == 0

def completion (dump : ActiveDump) : DumpCompletion where
  dumpId := dump.id
  triggeredAt := dump.triggeredAt
  timeRange := dump.timeRange
  segmentsProcessed := dump.segmentsProcessed
  metadata := dump.metadata
  failed := dump.failed

/-- `into_result`. Nothing is the arm the source marks unreachable. -/
def intoResult (dump : ActiveDump) (finishedAt : Int) (manifestKey : Option String) :
    Option (Except DumpError DumpReceipt) :=
  match dump.failed, dump.firstError, dump.pipelineUnavailable with
  | true, some kind, _ => some (.error (.pipeline kind))
  | true, none, true => some (.error .pipelineUnavailable)
  | true, none, false => none
  | false, _, _ =>
    some (.ok
      { dumpId := dump.id
        segmentsProcessed := dump.segmentsProcessed
        finishedAt := finishedAt
        timeRange := dump.timeRange
        manifestKey := manifestKey })

/-- A segment that passed every stage. -/
def count (dump : ActiveDump) (epochSecs sealSecs : Nat) : ActiveDump :=
  { dump with
    segmentsProcessed := dump.segmentsProcessed + 1
    firstEpoch := some (dump.firstEpoch.elim epochSecs fun e => min e epochSecs)
    lastEpoch := some (dump.lastEpoch.elim sealSecs fun e => max e sealSecs) }

/-- The arm marked unreachable is. -/
theorem intoResult_ne_none (dump : ActiveDump) (finishedAt : Int) (manifestKey : Option String) :
    dump.intoResult finishedAt manifestKey ≠ none := by
  unfold intoResult
  split
  · simp
  · simp
  · rename_i hfailed herror hunavailable
    simp [failed, herror, hunavailable] at hfailed
  · simp

/-- A dump is answered with an error exactly when nothing passed and something
went wrong. -/
theorem intoResult_isError_iff {dump : ActiveDump} {finishedAt : Int}
    {result : Except DumpError DumpReceipt}
    (h : dump.intoResult finishedAt manifestKey = some result) :
    (∃ error, result = .error error) ↔
      dump.segmentsProcessed = 0 ∧
        (dump.firstError.isSome = true ∨ dump.pipelineUnavailable = true) := by
  have hiff : dump.failed = true ↔ dump.segmentsProcessed = 0 ∧
      (dump.firstError.isSome = true ∨ dump.pipelineUnavailable = true) := by
    simp [failed, and_comm]
  rw [← hiff]
  unfold intoResult at h
  split at h
  · rename_i hfailed _
    cases h
    simp [hfailed]
  · rename_i hfailed _ _
    cases h
    simp [hfailed]
  · cases h
  · rename_i hfailed
    cases h
    simp [hfailed]

theorem intoResult_eq_ok {dump : ActiveDump} {finishedAt : Int}
    {receipt : DumpReceipt} (h : dump.intoResult finishedAt manifestKey = some (.ok receipt)) :
    receipt.dumpId = dump.id ∧ receipt.segmentsProcessed = dump.segmentsProcessed := by
  unfold intoResult at h
  split at h
  · simp at h
  · simp at h
  · cases h
  · cases h
    exact ⟨rfl, rfl⟩

end ActiveDump

/-! ## The vector of active dumps -/

/-- The positions of the dumps whose window a span overlaps. -/
def matchedDumps (dumps : List ActiveDump) (epochSecs sealSecs : Nat) : List Nat :=
  dumps.findIdxs fun d => d.window.overlaps epochSecs sealSecs

/-- `record_dump_error`: the first matched dump without an error takes the error
itself, the others a copy of its text. -/
def recordDumpError (dumps : List ActiveDump) (matched : List Nat) (kind : ProcessErrorKind) :
    List ActiveDump :=
  let first := matched.find? fun i => dumps[i]?.any fun d => d.firstError.isNone
  dumps.mapIdx fun i d =>
    if i ∈ matched ∧ d.firstError.isNone then
      { d with firstError := some (if first = some i then kind else .io false kind.display) }
    else d

/-- The matched dumps count a segment that passed. -/
def countMatched (dumps : List ActiveDump) (matched : List Nat) (epochSecs sealSecs : Nat) :
    List ActiveDump :=
  dumps.mapIdx fun i d => if i ∈ matched then d.count epochSecs sealSecs else d

/-- `Vec::swap_remove` at the first position: the last dump takes the place. -/
def swapRemoveFirst : List ActiveDump → List ActiveDump
  | [] => []
  | _ :: rest => rest.getLast?.toList ++ rest.dropLast

/-- The resolving loop: from a position on, dumps that meet the test leave by
`swap_remove`, in the order they are met. Returns what left and what stays. -/
def sweepFrom (test : ActiveDump → Bool) : Nat → List ActiveDump → List ActiveDump × List ActiveDump
  | _, [] => ([], [])
  | 0, rest => ([], rest)
  | fuel + 1, dump :: rest =>
    if test dump then
      let swept := sweepFrom test fuel (swapRemoveFirst (dump :: rest))
      (dump :: swept.1, swept.2)
    else
      let swept := sweepFrom test fuel rest
      (swept.1, dump :: swept.2)

def sweep (test : ActiveDump → Bool) (dumps : List ActiveDump) :
    List ActiveDump × List ActiveDump :=
  sweepFrom test dumps.length dumps

@[simp]
theorem recordDumpError_ids (dumps : List ActiveDump) (matched : List Nat)
    (kind : ProcessErrorKind) :
    (recordDumpError dumps matched kind).map ActiveDump.id = dumps.map ActiveDump.id := by
  apply List.ext_getElem (by simp [recordDumpError])
  intro i _ _
  simp only [recordDumpError, List.getElem_map, List.getElem_mapIdx]
  split <;> rfl

@[simp]
theorem countMatched_ids (dumps : List ActiveDump) (matched : List Nat) (epochSecs sealSecs : Nat) :
    (countMatched dumps matched epochSecs sealSecs).map ActiveDump.id =
      dumps.map ActiveDump.id := by
  apply List.ext_getElem (by simp [countMatched])
  intro i _ _
  simp only [countMatched, List.getElem_map, List.getElem_mapIdx]
  split <;> rfl

theorem swapRemoveFirst_perm (dump : ActiveDump) (rest : List ActiveDump) :
    (swapRemoveFirst (dump :: rest)).Perm rest := by
  rcases List.eq_nil_or_concat rest with rfl | ⟨front, last, rfl⟩
  · rfl
  · simpa [swapRemoveFirst] using (List.perm_append_singleton last front).symm

theorem sweepFrom_spec (test : ActiveDump → Bool) (fuel : Nat) (dumps : List ActiveDump)
    (hfuel : dumps.length ≤ fuel) :
    ((sweepFrom test fuel dumps).1 ++ (sweepFrom test fuel dumps).2).Perm dumps ∧
      (∀ d ∈ (sweepFrom test fuel dumps).1, test d = true) ∧
      ∀ d ∈ (sweepFrom test fuel dumps).2, test d = false := by
  induction fuel generalizing dumps with
  | zero =>
    obtain rfl : dumps = [] := List.eq_nil_of_length_eq_zero (Nat.le_zero.mp hfuel)
    simp [sweepFrom]
  | succ fuel ih =>
    cases dumps with
    | nil => simp [sweepFrom]
    | cons dump rest =>
      rw [List.length_cons] at hfuel
      unfold sweepFrom
      by_cases htest : test dump = true
      · rw [if_pos htest]
        have hperm := swapRemoveFirst_perm dump rest
        have hrest := ih (swapRemoveFirst (dump :: rest)) (by rw [hperm.length_eq]; omega)
        refine ⟨(hrest.1.trans hperm).cons dump, ?_, hrest.2.2⟩
        intro d hd
        rcases List.mem_cons.mp hd with rfl | hd
        · exact htest
        · exact hrest.2.1 d hd
      · rw [if_neg htest]
        have hrest := ih rest (by omega)
        refine ⟨?_, hrest.2.1, ?_⟩
        · exact List.perm_middle.trans (hrest.1.cons dump)
        · intro d hd
          rcases List.mem_cons.mp hd with rfl | hd
          · exact Bool.not_eq_true _ ▸ htest
          · exact hrest.2.2 d hd

/-- A sweep loses no dump and takes exactly those that meet the test. -/
theorem sweep_perm (test : ActiveDump → Bool) (dumps : List ActiveDump) :
    ((sweep test dumps).1 ++ (sweep test dumps).2).Perm dumps :=
  (sweepFrom_spec test dumps.length dumps (Nat.le_refl _)).1

theorem test_of_mem_sweep {test : ActiveDump → Bool} {dumps : List ActiveDump} {d : ActiveDump}
    (h : d ∈ (sweep test dumps).1) : test d = true :=
  (sweepFrom_spec test dumps.length dumps (Nat.le_refl _)).2.1 d h

end Dial9.Core
