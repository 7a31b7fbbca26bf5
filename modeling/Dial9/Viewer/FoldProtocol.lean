/-
# The commit protocol of folds over whole runs

For any interleaving of folds, drops of folds at any await, and requests that
fail or commit late: a samples part has its companions, one samples key has one
fold at work, and the listing of a bucket and a service gives exactly the files
that were folded there, where the listing can reach the output prefix.
-/

import Dial9.Viewer.FoldSafety

namespace Dial9.Viewer.Aggregate

open Dial9.Lib Dial9.Keys.Viewer

section

variable {B T : Type} [DecidableEq B] [DecidableEq T] {outputs : B → Output}
  {blake3 : List UInt8 → List UInt8} {files : Set Str} {s : State B T}

omit [DecidableEq T] in
theorem State.Sound.start : (State.start : State B T).Sound outputs blake3 files := by
  constructor <;> simp [State.start]

/-- The source files whose folds the run starts. -/
def Starts (files : Set Str) (events : List (Action B T)) : Prop :=
  ∀ t ctx rawKey, .start t ctx rawKey ∈ events →
    fullSourceKey ctx.sourceIsLocal ctx.sourceBucket rawKey ∈ files

variable (outputs blake3 files) in
/-- What holds in every state of a run. -/
structure Reached (s : State B T) : Prop where
  sound : s.Sound outputs blake3 files
  coherent : LockRegistry.Coherent s.locks

theorem Reached.step {a : Action B T} {next : State B T} (h : Reached outputs blake3 files s)
    (hfile : ∀ t ctx rawKey, a = .start t ctx rawKey →
      fullSourceKey ctx.sourceIsLocal ctx.sourceBucket rawKey ∈ files)
    (hstep : s.step outputs blake3 a = some next) : Reached outputs blake3 files next := by
  refine ⟨h.sound.step hfile hstep, ?_⟩
  rcases State.step_locks hstep with hsame | ⟨b, hlocks⟩
  · rw [hsame]
    exact h.coherent
  · exact h.coherent.step hlocks

theorem Reached.run {events : List (Action B T)} (hstarts : Starts files events)
    (hrun : Lib.run (State.step outputs blake3) .start events = some s) :
    Reached outputs blake3 files s := by
  have halong : Along (State.step outputs blake3) (fun _ a => ∀ t ctx rawKey,
      a = .start t ctx rawKey → fullSourceKey ctx.sourceIsLocal ctx.sourceBucket rawKey ∈ files)
      State.start events := by
    apply along_of_forall
    rintro a ha - t ctx rawKey rfl
    exact hstarts t ctx rawKey ha
  have hstart : Reached outputs blake3 files (State.start : State B T) := ⟨.start, .start⟩
  exact run_invariant (fun _ _ _ h hfile hstep => h.step hfile hstep) hstart halong hrun

/-- In every state of every run, the tasks at one source file share one lock, whatever was pruned
in between, and whatever is stored anywhere is a part of a decode that completed. -/
theorem locks_throughout (outputs : B → Output) (blake3 : List UInt8 → List UInt8)
    (events : List (Action B T)) :
    Throughout (State.step outputs blake3) (fun s =>
      (∀ t u identity lock lock', (s.locks.stages t).attached? = some (identity, lock) →
        (s.locks.stages u).attached? = some (identity, lock') → lock = lock') ∧
      ∀ object ∈ s.objects, ∃ put ∈ s.puts, ∃ encoded, (put.fullKey, encoded) ∈ s.decoded ∧
        State.partPlace outputs blake3 put.ctx put.fullKey put.part = some object.1 ∧
          object.2 = encoded.buf put.part) .start events := by
  have hstart : Reached outputs blake3 Set.univ (State.start : State B T) := ⟨.start, .start⟩
  refine throughout_of_along (fun _ _ _ h _ hstep => h.step (fun _ _ _ _ => trivial) hstep) ?_
    hstart (along_true _ events)
  rintro s ⟨hsound, hcoherent⟩
  constructor
  · intro t u identity lock lock' ht hu
    exact Option.some.inj ((hcoherent.entry t _ _ ht).symm.trans (hcoherent.entry u _ _ hu))
  · intro object hobject
    rcases hsound.objects object hobject with ⟨put, hput, hplace, hdata⟩
    rcases (hsound.puts put hput).1 with ⟨encoded, hdecoded, hbuf⟩
    exact ⟨put, hput, encoded, hdecoded, hplace, hdata.symm.trans hbuf⟩

/-- A part of a source file is stored and was produced by a completed decode of it. -/
def Produced (outputs : B → Output) (blake3 : List UInt8 → List UInt8) (s : State B T)
    (ctx : AggContext B) (fullKey : Str) (part : Part) : Prop :=
  ∃ place encoded, State.partPlace outputs blake3 ctx fullKey part = some place ∧
    (fullKey, encoded) ∈ s.decoded ∧ s.lookup place = some (encoded.buf part)

omit [DecidableEq T] in
theorem produced_of_exists {ctx : AggContext B} {fullKey : Str} {part : Part}
    (hsound : s.Sound outputs blake3 files) (hinj : Set.InjOn (partLeafOf blake3) files)
    (hfile : fullKey ∈ files) (h : s.Exists outputs blake3 ctx fullKey part) :
    Produced outputs blake3 s ctx fullKey part := by
  rcases h with ⟨place, data, hplace, hdata⟩
  rcases hsound.origin hinj hfile hplace hdata with ⟨put, hput, rfl, rfl, -, rfl⟩
  rcases hsound.puts put hput with ⟨⟨encoded, hdecoded, hbuf⟩, -⟩
  exact ⟨place, encoded, hplace, hdecoded, hbuf ▸ hdata⟩

/-- The three laws of the commit protocol, in every reachable state. -/
theorem foldCommit (outputs : B → Output) (blake3 : List UInt8 → List UInt8) (files : Set Str)
    (hinj : Set.InjOn (partLeafOf blake3) files) (events : List (Action B T)) (s : State B T)
    (hstarts : Starts files events)
    (hrun : run (State.step outputs blake3) .start events = some s) :
    (∀ ctx, ∀ fullKey ∈ files, s.Exists outputs blake3 ctx fullKey .samples →
      ∀ part, Produced outputs blake3 s ctx fullKey part) ∧
    (∀ t u identity lock lock', s.locks.stages t = .holding identity lock →
      s.locks.stages u = .holding identity lock' → t = u) ∧
    ∀ ctx, (outputs ctx.output).Listable → ∀ sourceBucket, '/' ∉ sourceBucket →
      ∀ service, ∀ fullKey ∈ files,
        (partLeafOf blake3 fullKey ∈ listFoldedLeaves (some (listObjectsAll outputs s ctx.output
            ctx.outputBucket
            (foldedSetPrefix (outputs ctx.output).outputPrefix sourceBucket service))) ↔
          s.Exists outputs blake3 ctx fullKey .samples ∧
            parseSourceBucket fullKey = sourceBucket ∧
            ∀ name, service = some name → serviceOf fullKey = some name) := by
  rcases Reached.run hstarts hrun with ⟨hsound, hcoherent⟩
  refine ⟨?_, ?_, ?_⟩
  · intro ctx fullKey hfile hsamples part
    apply produced_of_exists hsound hinj hfile
    by_cases hpart : part = .samples
    · exact hpart ▸ hsamples
    · have hside : part ∈ sideParts := by
        cases part <;> simp_all [sideParts]
      rcases hsamples with ⟨place, data, hplace, hdata⟩
      rcases hsound.origin hinj hfile hplace hdata with ⟨put, hput, hkind, rfl, hsame, -⟩
      rcases (hsound.puts put hput).2 hkind part hside with ⟨place', data', hplace', hdata'⟩
      exact ⟨place', data', hsame part ▸ hplace', hdata'⟩
  · exact fun _ _ _ _ _ => hcoherent.exclusive
  · exact fun ctx houtput sourceBucket hbucket service fullKey hfile =>
      mem_listFoldedLeaves hsound hinj houtput hbucket service hfile

end

/-- A trace segment of a local source. -/
def localSegment : Str := "2026-08-14/1937/api/host/1-0.bin".toList

/-- BLAKE3 of the segment's key. -/
def localHash (bytes : List UInt8) : List UInt8 :=
  if bytes = Str.asBytes localSegment then
    [232, 13, 144, 249, 197, 145, 42, 214, 221, 23, 67, 82, 92, 108, 100, 81,
      138, 238, 94, 134, 197, 154, 163, 125, 219, 37, 252, 219, 57, 1, 204, 43]
  else []

/-- Aggregation of a local directory into a local directory. -/
def localContext : AggContext Unit := ⟨(), "local".toList, "local".toList, true⟩

def localParts : EncodedParts := ⟨[1], [2], [3], [4]⟩

/-- One fold, from its lock to the acknowledged samples part. -/
def oneFold : List (Action Unit Unit) :=
  [.start () localContext localSegment, .acquire (), .check () false, .fetch () false,
    .decode () (some localParts), .issue () .dict, .issue () .polls, .issue () .spans,
    .commit 0, .commit 1, .commit 2, .acknowledge () .dict, .acknowledge () .polls,
    .acknowledge () .spans, .join (), .issue () .samples, .commit 3, .acknowledge () .samples]

/-- A local output directory under an output prefix. -/
def localOutput (outputPrefix : Str) (_ : Unit) : Output := ⟨.localDir, outputPrefix⟩

/-- The state after the fold, with the given output prefix. -/
def afterFold (outputPrefix : Str) : State Unit Unit :=
  (run (State.step (localOutput outputPrefix) localHash) .start oneFold).getD .start

theorem starts_oneFold : Starts {localSegment} oneFold := by
  intro t ctx rawKey h
  simp only [oneFold, List.mem_cons, Action.start.injEq, reduceCtorEq, List.not_mem_nil,
    or_false] at h
  rcases h with ⟨-, rfl, rfl⟩
  rfl

theorem runs_oneFold {outputPrefix : Str}
    (h : (run (State.step (localOutput outputPrefix) localHash) .start oneFold).isSome = true) :
    run (State.step (localOutput outputPrefix) localHash) .start oneFold =
      some (afterFold outputPrefix) := by
  rcases Option.isSome_iff_exists.mp h with ⟨last, hlast⟩
  rw [afterFold, hlast, Option.getD_some]

theorem exists_of_isSome {outputPrefix : Str}
    (h : ((State.partPlace (localOutput outputPrefix) localHash localContext localSegment
      .samples).bind (afterFold outputPrefix).lookup).isSome = true) :
    (afterFold outputPrefix).Exists (localOutput outputPrefix) localHash localContext localSegment
      .samples := by
  rcases Option.isSome_iff_exists.mp h with ⟨data, hdata⟩
  rcases Option.bind_eq_some_iff.mp hdata with ⟨place, hplace, hlookup⟩
  exact ⟨place, data, hplace, hlookup⟩

theorem foldCommit_oneFold :
    (afterFold "agg".toList).Exists (localOutput "agg".toList) localHash localContext localSegment
        .samples ∧
      (∀ part, Produced (localOutput "agg".toList) localHash (afterFold "agg".toList) localContext
        localSegment part) ∧
      partLeafOf localHash localSegment ∈ listFoldedLeaves (some (listObjectsAll
        (localOutput "agg".toList) (afterFold "agg".toList) () "local".toList
        (foldedSetPrefix "agg".toList "local".toList (some "api".toList)))) := by
  have hlaws := foldCommit (localOutput "agg".toList) localHash {localSegment}
    (Set.injOn_singleton _ _) oneFold (afterFold "agg".toList) starts_oneFold
    (runs_oneFold (by decide))
  have hsamples : (afterFold "agg".toList).Exists (localOutput "agg".toList) localHash
      localContext localSegment .samples := exists_of_isSome (by decide)
  have hlisted := hlaws.2.2 localContext (by decide) "local".toList (by decide)
    (some "api".toList) localSegment rfl
  refine ⟨hsamples, hlaws.1 localContext localSegment rfl hsamples, hlisted.mpr ?_⟩
  refine ⟨hsamples, by decide, ?_⟩
  rintro name ⟨⟩
  decide

/-- Under the output prefix that local aggregation uses, the part is stored and
never listed: the listed names have no `.` component and do not begin with the
prefix. -/
theorem folded_unlisted_under_dot :
    ¬ ∀ (outputs : Unit → Output) (blake3 : List UInt8 → List UInt8) (files : Set Str),
      Set.InjOn (partLeafOf blake3) files → ∀ (events : List (Action Unit Unit))
        (s : State Unit Unit), Starts files events →
        run (State.step outputs blake3) .start events = some s →
        ∀ ctx sourceBucket, '/' ∉ sourceBucket → ∀ service, ∀ fullKey ∈ files,
          (partLeafOf blake3 fullKey ∈ listFoldedLeaves (some (listObjectsAll outputs s ctx.output
              ctx.outputBucket
              (foldedSetPrefix (outputs ctx.output).outputPrefix sourceBucket service))) ↔
            s.Exists outputs blake3 ctx fullKey .samples ∧
              parseSourceBucket fullKey = sourceBucket ∧
              ∀ name, service = some name → serviceOf fullKey = some name) := by
  intro h
  have hsamples : (afterFold ".".toList).Exists (localOutput ".".toList) localHash
      localContext localSegment .samples := exists_of_isSome (by decide)
  have hlisted := h (localOutput ".".toList) localHash {localSegment} (Set.injOn_singleton _ _)
    oneFold (afterFold ".".toList) starts_oneFold (runs_oneFold (by decide)) localContext
    "local".toList (by decide) none localSegment rfl
  have hmem := hlisted.mpr ⟨hsamples, by decide, by simp⟩
  revert hmem
  decide

end Dial9.Viewer.Aggregate
