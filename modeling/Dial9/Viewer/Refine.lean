/-
# Resolving the scope of a query

A query lists its source, keeps the trace segments of its scope, and orders
them by a hash. The first files of that order may be folded anew; files that
the output listing shows as folded are reused wherever they stand. Listings are
inputs here, one for each listed prefix; the listing of a local directory is
modelled with the links it follows.
-/

import Dial9.Viewer.FoldCommit
import Mathlib.Data.Finset.Sort

namespace Dial9.Viewer.Refine

open Dial9.Lib Dial9.Keys.Viewer Dial9.Viewer.Aggregate

structure ObjectInfo where
  key : Str
  size : Int
  deriving DecidableEq

/-- A query's selection. -/
structure Scope where
  startNs : Option Int
  endNs : Option Int
  service : Option Str
  hosts : List Str

/-! ## Matching -/

/-- The file start time in the filename `{ts}-{i}.bin.gz`. -/
def parseEpochSecs (key : Str) : Option Int := do
  let file ← (key.splitOn '/').getLast?
  let stem ← (file.splitOn '.').head?
  let ts ← (stem.splitOn '-').head?
  Str.parseSigned 64 ts

/-- `saturating_mul` on `i64`. -/
def saturatingMul (a b : Int) : Int := max (-2 ^ 63) (min (a * b) (2 ^ 63 - 1))

/-- Addition on `i64`. -/
def wrappingAdd (a b : Int) : Int := (a + b + 2 ^ 63) % 2 ^ 64 - 2 ^ 63

def scopeMatches (key : Str) (scope : Scope) (segmentDurationSecs : Int) : Bool :=
  match scopeFields key with
  | none => false
  | some (_, service, host) =>
    if scope.service.any (service ≠ ·) then false
    else if scope.hosts ≠ [] ∧ !scope.hosts.any (· = host) then false
    else if scope.startNs.isSome ∨ scope.endNs.isSome then
      match parseEpochSecs key with
      -- A file without a time is kept.
      | none => true
      | some epochSecs =>
        let fileStart := saturatingMul epochSecs 1000000000
        let fileEnd := saturatingMul (wrappingAdd epochSecs segmentDurationSecs) 1000000000
        !(scope.startNs.any (fileEnd ≤ ·)) && !(scope.endNs.any (· ≤ fileStart))
    else true

def matchedAndOrdered (blake3 : List UInt8 → List UInt8) (objects : List ObjectInfo)
    (scope : Scope) (segmentDurationSecs : Int) : List ObjectInfo :=
  ((objects.filter fun object => isTraceSegment object.key).filter fun object =>
      scopeMatches object.key scope segmentDurationSecs).mergeSort
    fun a b => decide (orderKey blake3 a.key ≤ orderKey blake3 b.key)

/-- The matched keys, each raw and bucket-qualified, and their total size. -/
def orderedFullKeysWithSize (blake3 : List UInt8 → List UInt8) (objects : List ObjectInfo)
    (scope : Scope) (segmentDurationSecs : Int) (sourceIsLocal : Bool) (sourceBucket : Str) :
    List (Str × Str) × Nat :=
  let matched := matchedAndOrdered blake3 objects scope segmentDurationSecs
  (matched.map fun object => (object.key, fullSourceKey sourceIsLocal sourceBucket object.key),
    (matched.map fun object => object.size.toNat).sum)

/-! ## Resolving -/

/-- A scope always folds at least this many files. -/
def baselineFiles : Nat := 4

/-- The hard ceiling on a client's `max_files`. -/
def capMaxFilesOverride : Nat := 2000

/-- The share of the matched files and the ceiling that hold by default. -/
structure DefaultCap where
  byFraction : Nat → Nat
  capMax : Nat

/-- How many files a scope may fold before plateauing. -/
def samplingCap (default : DefaultCap) (filesMatched : Nat) (maxFilesOverride : Option Nat) : Nat :=
  let target := match maxFilesOverride with
    | some explicit => min explicit capMaxFilesOverride
    | none => min (default.byFraction filesMatched) default.capMax
  min (max target baselineFiles) filesMatched

structure Resolved where
  /-- Every matched file in order, raw and full key. -/
  matched : List (Str × Str)
  matchedLeafHosts : List (Str × Str)
  /-- The prefix of `matched` that new folds are taken from. -/
  capped : List (Str × Str)
  folded : List Str
  filesMatched : Nat
  totalBytes : Nat
  hostsMatched : Nat

inductive Unresolved where
  /-- No source file matches the scope. -/
  | noMatch
  /-- A matched key without scope fields. -/
  | panicked
  deriving DecidableEq

/-- The host component of a key. -/
def hostOf (key : Str) : Option Str := (scopeFields key).map fun fields => fields.2.2

/-- Resolve a scope from its listings and the folded leaves. -/
def resolve (blake3 : List UInt8 → List UInt8) (default : DefaultCap)
    (listings : List (List ObjectInfo)) (scope : Scope) (segmentDurationSecs : Int)
    (sourceIsLocal : Bool) (sourceBucket : Str)
    (maxFiles : Option Nat) (folded : List Str) : Except Unresolved Resolved :=
  let (ordered, totalBytes) := orderedFullKeysWithSize blake3 listings.flatten scope
    segmentDurationSecs sourceIsLocal sourceBucket
  match ordered.mapM fun keys => hostOf keys.2 with
  | none => .error .panicked
  | some hosts =>
    if ordered.length = 0 then .error .noMatch
    else
      .ok {
        matched := ordered
        matchedLeafHosts := (ordered.map fun keys => partLeafOf blake3 keys.2).zip hosts
        capped := ordered.take (samplingCap default ordered.length maxFiles)
        folded
        filesMatched := ordered.length
        totalBytes
        hostsMatched := hosts.toFinset.card }

namespace Resolved

variable (blake3 : List UInt8 → List UInt8) (r : Resolved)

/-- Whether the part files of a full key have been folded. -/
def isFolded (fullKey : Str) : Bool := r.folded.contains (partLeafOf blake3 fullKey)

/-- Already-folded full keys anywhere in the matched scope. -/
def foldedMatchingFullKeys : List Str :=
  (r.matched.filter fun keys => r.isFolded blake3 keys.2).map Prod.snd

/-- Host for a matched part leaf; a later entry replaces an earlier one. -/
def matchedHostForLeaf (leaf : Str) : Option Str :=
  (r.matchedLeafHosts.reverse.find? fun entry => entry.1 = leaf).map Prod.snd

def foldWorkCap : Nat := r.capped.length

/-- The capped files not yet folded, in order. -/
def unfoldedCapped : List (Str × Str) :=
  r.capped.filter fun keys => !r.isFolded blake3 keys.2

/-- What `resolve` makes of its listings. -/
structure WellFormed : Prop where
  capped : r.capped <+: r.matched
  hosts : r.matchedLeafHosts.map Prod.fst = r.matched.map fun keys => partLeafOf blake3 keys.2

end Resolved

/-- The longest error message on the wire. -/
def foldErrorMaxLen : Nat := 300

/-- Running tally of failures, with the most recent message. -/
structure FoldErrors where
  count : Nat
  sample : Option Str
  deriving DecidableEq

def FoldErrors.record (errors : FoldErrors) (rawKey error : Str) : FoldErrors :=
  let key := (rawKey.splitOn '/').getLast?.getD rawKey
  let msg := if key = [] then error else key ++ ": ".toList ++ error
  { count := errors.count + 1
    sample := some
      (if foldErrorMaxLen < msg.length then msg.take foldErrorMaxLen ++ "…".toList else msg) }

/-! ## Listing a local directory -/

/-- What an entry of a directory leads to once links are followed. -/
inductive Target where
  | directory (path : List Str)
  | file (size : Nat)
  deriving DecidableEq

/-- The entries of each directory below the root, under its own path. -/
abbrev LocalTree := List Str → List (Str × Target)

/-- All files whose key starts with the prefix, with the directories that links
lead to entered under their own path. -/
def collectFilesUncapped (tree : LocalTree) (keyPrefix : Str) : Nat → List Str → List ObjectInfo
  | 0, _ => []
  | depth + 1, path =>
    (tree path).flatMap fun entry =>
      match entry.2 with
      | .directory target =>
        if isSkippedDir entry.1 then [] else collectFilesUncapped tree keyPrefix depth target
      | .file size =>
        let key := ['/'].intercalate (path ++ [entry.1])
        if keyPrefix <+: key then [⟨key, size⟩] else []

end Dial9.Viewer.Refine
