/-
# The stream of fold updates

One driver serves the streaming endpoints. It hands the already folded keys to
a sink in bounded batches, then takes new folds as their tasks finish, and
emits the coverage after each step. The sink merges a part into its accumulator
and reports one outcome for each key it was given, in any order; the driver
counts.
-/

import Dial9.Viewer.Refine
import Mathlib.Data.String.Basic
import Mathlib.Data.List.Lex

namespace Dial9.Viewer.FoldStream

open Dial9.Lib Dial9.Viewer.Aggregate Dial9.Viewer.Refine

/-- What the sink did with one key: `none` after a merge, else the key and the
message of the error. -/
abbrev Outcome := Option (Str × Str)

/-- A length as eight little-endian bytes. -/
def lenBytes (n : Nat) : List UInt8 := (List.range 8).map fun i => UInt8.ofNat (n / 256 ^ i)

/-- What the digest of a set of leaves is taken of. -/
def foldedBytes (folded : Finset Str) : List UInt8 :=
  (folded.sort (· ≤ ·)).flatMap fun leaf =>
    lenBytes (Str.asBytes leaf).length ++ Str.asBytes leaf

def foldedSetId (blake3 : List UInt8 → List UInt8) (folded : Finset Str) : Str :=
  toHex (blake3 (foldedBytes folded))

/-- The coverage block of an update. -/
structure Coverage where
  filesMatched : Nat
  filesFolded : Nat
  foldedSetId : Str
  targetFoldedSetId : Option Str
  foldWorkCap : Nat
  totalBytes : Nat
  hostsMatched : Nat
  hostsFolded : Nat
  foldErrors : Nat
  foldErrorSample : Option Str

inductive Phase where
  | seeding
  | folding
  | done
  deriving DecidableEq

structure Driver where
  resolved : Resolved
  folded : Finset Str
  filesFolded : Nat
  filesSeeded : Nat
  filesFoldedCold : Nat
  foldedHosts : Finset Str
  errors : FoldErrors
  seedKeys : List Str
  seedNext : Nat
  targetFoldedSetId : Option Str
  /-- The fold tasks that have not been joined. -/
  folds : List (Str × Str)
  phase : Phase
  events : List Coverage
  /-- The keys handed to the sink for seeding; no step reads them. -/
  handed : List Str
  /-- The leaves merged into the accumulator; no step reads them. -/
  merged : List Str

inductive Action where
  | seed (batchSize : Nat) (outcomes : List (Str × Outcome))
  | folded (task : Str × Str) (outcome : Outcome)
  | failed (task : Str × Str) (error : Str)
  | panicked (task : Str × Str) (error : Str)
  | drained (finalEvent : Bool)

namespace Driver

variable (blake3 : List UInt8 → List UInt8)

/-- `coverage_from`, less the endpoint's own scalar. -/
def coverage (d : Driver) : Coverage where
  filesMatched := d.resolved.filesMatched
  filesFolded := d.filesFolded
  foldedSetId := foldedSetId blake3 d.folded
  targetFoldedSetId := d.targetFoldedSetId
  foldWorkCap := d.resolved.foldWorkCap
  totalBytes := d.resolved.totalBytes
  hostsMatched := d.resolved.hostsMatched
  hostsFolded := d.foldedHosts.card
  foldErrors := d.errors.count
  foldErrorSample := d.errors.sample

def emit (d : Driver) : Driver := { d with events := d.events ++ [d.coverage blake3] }

/-- Count a merged leaf, once, and by the phase that merged it. -/
def applyFolded (d : Driver) (leaf : Str) : Driver :=
  if leaf ∈ d.folded then d
  else
    match d.resolved.matchedHostForLeaf leaf with
    | none => { d with folded := insert leaf d.folded }
    | some host =>
      { d with
        folded := insert leaf d.folded
        filesFolded := d.filesFolded + 1
        filesSeeded := if d.phase = .seeding then d.filesSeeded + 1 else d.filesSeeded
        filesFoldedCold :=
          if d.phase = .folding then d.filesFoldedCold + 1 else d.filesFoldedCold
        foldedHosts := insert host d.foldedHosts }

/-- The sink's report on one key, and the driver's account of it. -/
def apply (d : Driver) (key : Str) : Outcome → Driver
  | none =>
    let merged := { d with merged := d.merged ++ [partLeafOf blake3 key] }
    merged.applyFolded (partLeafOf blake3 key)
  | some (errorKey, error) => { d with errors := d.errors.record errorKey error }

def seedBatchEnd (next len batchSize : Nat) : Nat := min (next + max batchSize 1) len

/-- A driver for a resolved scope; with `seedOnly` nothing new is folded. -/
def new (resolved : Resolved) (seedOnly : Bool) : Driver :=
  let seedKeys := resolved.foldedMatchingFullKeys blake3
  { resolved
    folded := ∅
    filesFolded := 0
    filesSeeded := 0
    filesFoldedCold := 0
    foldedHosts := ∅
    errors := ⟨0, none⟩
    seedKeys
    seedNext := 0
    targetFoldedSetId :=
      if seedOnly then some (foldedSetId blake3 (seedKeys.map (partLeafOf blake3)).toFinset)
      else none
    folds := if seedOnly then [] else resolved.unfoldedCapped blake3
    phase := .seeding
    events := []
    handed := []
    merged := [] }

/-- One turn of the stream. -/
def step (d : Driver) : Action → Option Driver
  | .seed batchSize outcomes =>
    let last := seedBatchEnd d.seedNext d.seedKeys.length batchSize
    let keys := (d.seedKeys.take last).drop d.seedNext
    if d.phase = .seeding ∧ (outcomes.map Prod.fst).Perm keys then
      let handed := { d with handed := d.handed ++ keys }
      let applied := outcomes.foldl (fun d outcome => d.apply blake3 outcome.1 outcome.2) handed
      let emitted := { applied with seedNext := last }.emit blake3
      some { emitted with
        phase := if last = emitted.seedKeys.length then .folding else .seeding }
    else none
  | .folded task outcome =>
    if d.phase = .folding ∧ task ∈ d.folds then
      some (({ d with folds := d.folds.erase task }.apply blake3 task.2 outcome).emit blake3)
    else none
  | .failed task error =>
    if d.phase = .folding ∧ task ∈ d.folds then
      some ({ d with
        folds := d.folds.erase task
        errors := d.errors.record task.1 error }.emit blake3)
    else none
  | .panicked task error =>
    if d.phase = .folding ∧ task ∈ d.folds then
      some ({ d with
        folds := d.folds.erase task
        errors := d.errors.record [] ("fold task panicked: ".toList ++ error) }.emit blake3)
    else none
  | .drained finalEvent =>
    if d.phase = .folding ∧ d.folds = [] then
      some { (if finalEvent then d.emit blake3 else d) with phase := .done }
    else none

end Driver

end Dial9.Viewer.FoldStream
