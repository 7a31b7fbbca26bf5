/-
# The browser's reading of object keys

The browser parses the key of a trace segment on its own, from the components
of the path alone: the versioned layout first, then the two historical ones, and
a guess by position when nothing looks like a date. A text is a list of
characters; the regular expressions of the source are spelled out.
-/

import Dial9.Lib.UriComponent
import Dial9.Viewer.WorkerParity

namespace Dial9.Viewer.TraceKeys

open Dial9.Lib

/-- `/^\d{4}-\d{2}-\d{2}$/`. -/
def dateRe : Str → Bool
  | [a, b, c, d, '-', m, m', '-', n, n'] => [a, b, c, d, m, m', n, n'].all Char.isDigit
  | _ => false

/-- `/^\d{4}$/`. -/
def timeRe : Str → Bool
  | [a, b, c, d] => [a, b, c, d].all Char.isDigit
  | _ => false

/-- `/^(\d+)-(\d+)\.bin(?:\.gz)?$/` and its two groups. A run of digits ends at
the character that has to follow it, so there is nothing to backtrack over. -/
def fileRe (file : Str) : Option (Str × Str) :=
  match file.dropWhile Char.isDigit with
  | '-' :: rest =>
    let epoch := file.takeWhile Char.isDigit
    let index := rest.takeWhile Char.isDigit
    let ending := rest.dropWhile Char.isDigit
    if epoch ≠ [] ∧ index ≠ [] ∧ (ending = ".bin".toList ∨ ending = ".bin.gz".toList) then
      some (epoch, index)
    else none
  | _ => none

/-- `parseInt` of decimal digits. -/
def parseInt (digits : Str) : Nat := TraceParser.num (Nat.ofDigitChars 10 digits 0)

/-- `ParsedTraceKey`. -/
inductive ParsedTraceKey where
  | known (service host bootId : Str) (epoch : Nat) (segIndex : Str)
  | unknown (rawKey : Str) (epoch : Nat) (segIndex : Str)
  deriving DecidableEq

namespace ParsedTraceKey

def epoch : ParsedTraceKey → Nat
  | known _ _ _ epoch _ => epoch
  | unknown _ epoch _ => epoch

def segIndex : ParsedTraceKey → Str
  | known _ _ _ _ segIndex => segIndex
  | unknown _ _ segIndex => segIndex

end ParsedTraceKey

structure HistoricalLayout where
  start : Nat
  hasBoot : Bool
  deriving DecidableEq

def historicalLayout (parts : List Str) : Option HistoricalLayout :=
  [true, false].findSome? fun hasBoot =>
    let width := if hasBoot then 6 else 5
    if parts.length < width then none
    else
      let start := parts.length - width
      if dateRe (parts.getD start []) && timeRe (parts.getD (start + 1) []) then
        some ⟨start, hasBoot⟩
      else none

/-- The partitions behind `version=1`, each `none` when it is not there or does
not decode. -/
structure Version1Layout where
  start : Nat
  date : Option Str
  time : Option Str
  service : Option Str
  inst : Option Str
  boot : Option Str
  deriving DecidableEq

def decodePartition (segment name : Str) : Option Str :=
  (segment.dropPrefix? (name ++ "=".toList)).bind Str.decodeURIComponent

def version1Layout (parts : List Str) : Option Version1Layout :=
  if parts.length < 7 then none
  else
    let start := parts.length - 7
    if parts.getD start [] ≠ "version=1".toList then none
    else
      some
        { start
          date := decodePartition (parts.getD (start + 1) []) "date".toList
          service := decodePartition (parts.getD (start + 2) []) "service".toList
          time := decodePartition (parts.getD (start + 3) []) "time".toList
          inst := decodePartition (parts.getD (start + 4) []) "instance".toList
          boot := decodePartition (parts.getD (start + 5) []) "boot".toList }

/-- The partitions, when all of them are strings and two have the right shape. -/
def Version1Layout.fields (layout : Version1Layout) : Option (Str × Str × Str × Str × Str) := do
  let date ← layout.date.filter dateRe
  let service ← layout.service
  let time ← layout.time.filter timeRe
  let inst ← layout.inst
  let boot ← layout.boot
  some (date, service, time, inst, boot)

/-- Parse an S3 trace key into service / host / boot / segment metadata. -/
def parseKey (key : Str) : ParsedTraceKey :=
  let parts := key.splitOn '/'
  let file := parts.getLast?.getD []
  let epoch := (fileRe file).elim 0 fun groups => parseInt groups.1
  let segIndex := (fileRe file).elim [] Prod.snd
  match version1Layout parts with
  | some version1 =>
    match version1.fields with
    | some (_, service, _, inst, boot) => .known service inst boot epoch segIndex
    | none => .unknown key epoch segIndex
  | none =>
    match historicalLayout parts with
    | some historical =>
      .known (parts.getD (historical.start + 2) []) (parts.getD (historical.start + 3) [])
        (if historical.hasBoot then parts.getD (historical.start + 4) [] else []) epoch segIndex
    | none =>
      if parts.any fun part => dateRe part || part = "version=1".toList then
        .unknown key epoch segIndex
      else if parts.length ≥ 5 then
        .known (parts.getD (parts.length - 3) []) (parts.getD (parts.length - 2) []) [] epoch
          segIndex
      else .unknown key epoch segIndex

end Dial9.Viewer.TraceKeys
