/-
# The viewer's reading of object keys

The parser of segment object keys with its historical layouts, the scope fields
derived from them, and the filter that keeps the viewer's own output out of a
source listing.
-/

import Dial9.Keys.Codec

namespace Dial9.Keys.Viewer

open Dial9.Lib

inductive SegmentObjectKeyLayout where
  | version1
  | positionalWithBoot
  | positionalWithoutBoot
  | unknown
  deriving DecidableEq, Repr

structure ParsedSegmentObjectKey where
  layout : SegmentObjectKeyLayout
  date : Option Str
  time : Option Str
  service : Option Str
  inst : Option Str
  bootId : Option Str
  filename : Str
  epochSecs : Option Int
  segmentIndex : Option Nat
  deriving DecidableEq

def stripS3 (key : Str) : Str :=
  match key.dropPrefix? "s3://".toList with
  | some rest =>
    match Str.splitOnce '/' rest with
    | some (_, path) => path
    | none => rest
  | none => key

def isAsciiDigit (byte : UInt8) : Bool := 0x30 ≤ byte && byte ≤ 0x39

def isDate (value : Str) : Bool :=
  let bytes := Str.asBytes value
  bytes.length = 10 && bytes.getD 4 0 = 0x2d && bytes.getD 7 0 = 0x2d &&
    (bytes.take 4).all isAsciiDigit && ((bytes.drop 5).take 2).all isAsciiDigit &&
    (bytes.drop 8).all isAsciiDigit

def isTime (value : Str) : Bool :=
  (Str.asBytes value).length = 4 && (Str.asBytes value).all isAsciiDigit

/-- The outer `none` is a segment of another name, the inner one a value that
does not unescape. -/
def decodePartition (segment name : Str) : Option (Option Str) := do
  let rest ← segment.dropPrefix? name
  let encoded ← rest.dropPrefix? "=".toList
  some (hiveUnescape encoded)

def parseVersion1 (parts : List Str) : Option (Str × Str × Str × Str × Str) :=
  if parts.length < 7 then none
  else
    match parts.drop (parts.length - 7) with
    | [version, date, service, time, inst, boot, _] => do
        if version ≠ "version=1".toList then none
        let date ← (← decodePartition date "date".toList).filter isDate
        let service ← (← decodePartition service "service".toList)
        let time ← (← decodePartition time "time".toList).filter isTime
        let inst ← (← decodePartition inst "instance".toList)
        let boot ← (← decodePartition boot "boot".toList)
        some (date, service, time, inst, boot)
    | _ => none

def hasVersion1Anchor (key : Str) : Bool :=
  ((stripS3 key).splitOn '/').any (· = "version=1".toList)

/-- The start time and the index in a filename `{ts}-{index}.bin.gz`. -/
def parseFilename (filename : Str) : Option (Int × Nat) := do
  let stem ← (filename.dropSuffix? ".bin.gz".toList).or (filename.dropSuffix? ".bin".toList)
  let (epoch, index) ← Str.splitOnce '-' stem
  if '-' ∈ index then none
  let epoch ← Str.parseSigned 64 epoch
  let index ← Str.parseUnsigned 32 index
  some (epoch, index)

/-- Parse a dial9 segment object key, including historical layouts. -/
def parseSegmentObjectKey (key : Str) : ParsedSegmentObjectKey :=
  let parts := (stripS3 key).splitOn '/'
  let filename := parts.getLast?.getD []
  let epochSecs := (parseFilename filename).map Prod.fst
  let segmentIndex := (parseFilename filename).map Prod.snd
  match parseVersion1 parts with
  | some (date, service, time, inst, bootId) =>
    ⟨.version1, some date, some time, some service, some inst, some bootId, filename,
      epochSecs, segmentIndex⟩
  | none =>
    let positional := parts.drop (parts.length - 6)
    if parts.length ≥ 6 && isDate (positional.getD 0 []) && isTime (positional.getD 1 []) then
      ⟨.positionalWithBoot, positional[0]?, positional[1]?, positional[2]?, positional[3]?,
        positional[4]?, filename, epochSecs, segmentIndex⟩
    else
      let positional := parts.drop (parts.length - 5)
      if parts.length ≥ 5 && isDate (positional.getD 0 []) && isTime (positional.getD 1 []) then
        ⟨.positionalWithoutBoot, positional[0]?, positional[1]?, positional[2]?,
          positional[3]?, none, filename, epochSecs, segmentIndex⟩
      else
        ⟨.unknown, none, none, none, none, none, filename, epochSecs, segmentIndex⟩

/-! ## Scope fields -/

/-- The last place where a date is followed by a time. -/
def positionalAnchor (parts : List Str) : Option Nat :=
  (List.range parts.length).reverse.find? fun i =>
    isDate (parts.getD i []) && isTime (parts.getD (i + 1) [])

def scopeFieldsInner (key : Str) (allowCustomFallback : Bool) : Option (Str × Str × Str) :=
  let parsed := parseSegmentObjectKey key
  if parsed.layout ≠ .unknown then do
    let _ ← parsed.time
    some (← parsed.date, ← parsed.service, ← parsed.inst)
  else if hasVersion1Anchor key then none
  else
    let path := (((key.dropPrefix? "s3://".toList).bind (Str.splitOnce '/')).map Prod.snd).getD key
    let parts := path.splitOn '/'
    match positionalAnchor parts with
    | some anchor => do
        some (← parts[anchor]?, ← parts[anchor + 2]?, ← parts[anchor + 3]?)
    | none =>
      if allowCustomFallback then
        some (parts.getD 0 [], parts.getD 2 [], parts.getD 3 [])
      else none

/-- The date, service and instance of a key. -/
def scopeFields (key : Str) : Option (Str × Str × Str) := scopeFieldsInner key true

/-! ## Source listings -/

/-- Whether a raw source key is a trace segment and not the viewer's own output. -/
def isTraceSegment (key : Str) : Bool :=
  (".bin.gz".toList.isSuffixOf key || ".bin".toList.isSuffixOf key) &&
    !decide ("/samples/".toList <:+: key) && !decide ("/dict/".toList <:+: key) &&
    !decide ("/flamegraph-data/".toList <:+: key)

end Dial9.Keys.Viewer
