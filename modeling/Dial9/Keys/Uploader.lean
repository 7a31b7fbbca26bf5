/-
# Object keys of the S3 uploader

How the uploader names a sealed segment. The crate has its own copy of the Hive
escape, so the two are defined apart and compared. The calendar belongs to the
`time` crate and is a parameter: what is fixed is the range of the values it
reports.
-/

import Dial9.Keys.Codec

namespace Dial9.Keys

open Dial9.Lib

/-- A UTC time as `time::OffsetDateTime` reports it. -/
structure OffsetDateTime where
  year : Int
  month : Nat
  day : Nat
  hour : Nat
  minute : Nat
  month_le : month ≤ 12
  day_le : day ≤ 31
  hour_lt : hour < 24
  minute_lt : minute < 60

def OffsetDateTime.unixEpoch : OffsetDateTime :=
  ⟨1970, 1, 1, 0, 0, by decide, by decide, by decide, by decide⟩

/-- `OffsetDateTime::from_unix_timestamp`. -/
abbrev Calendar := Int → Option OffsetDateTime

/-- The last second of the year 9999. -/
def lastSecond : Nat := 253402300799

/-- A second after the epoch and up to the year 9999 is a time of a year with at
most four digits. -/
def Calendar.Covers (calendar : Calendar) : Prop :=
  ∀ secs : Nat, secs ≤ lastSecond →
    ∃ time, calendar secs = some time ∧ 0 ≤ time.year ∧ time.year ≤ 9999

namespace S3

/-! ## The crate's own codec -/

def needsHiveEscape (byte : UInt8) : Bool :=
  byte < 0x20 || byte = 0x7f ||
    byte ∈ ([0x22, 0x23, 0x25, 0x27, 0x2a, 0x2f, 0x3a, 0x3d, 0x3f, 0x5c, 0x7b, 0x5b, 0x5d,
      0x5e] : List UInt8)

def hexDigits : Str := "0123456789ABCDEF".toList

def hexDigit (nibble : UInt8) : Char := hexDigits.getD nibble.toNat '0'

def escapeChar (c : Char) : Str :=
  if c.toNat < 128 ∧ needsHiveEscape (UInt8.ofNat c.toNat) then
    let byte := UInt8.ofNat c.toNat
    ['%', hexDigit (byte >>> 4), hexDigit (byte &&& 0x0f)]
  else [c]

/-- Escape a Hive partition-path value using Hive's canonical ASCII table. -/
def hiveEscape (value : Str) : Str := value.flatMap escapeChar

theorem hiveEscape_eq (value : Str) : hiveEscape value = Viewer.hiveEscape value := rfl

/-- Format the canonical Hive-style segment object key. -/
def formatV1SegmentObjectKey (keyPrefix : Option Str)
    (date service time inst bootId filename : Str) : Str :=
  let suffix := "version=1/date=".toList ++ hiveEscape date ++
    "/service=".toList ++ hiveEscape service ++ "/time=".toList ++ hiveEscape time ++
    "/instance=".toList ++ hiveEscape inst ++ "/boot=".toList ++ hiveEscape bootId ++
    "/".toList ++ filename
  match keyPrefix with
  | some keyPrefix => keyPrefix ++ "/".toList ++ suffix
  | none => suffix

/-! ## The key of a segment -/

/-- What a custom key function gets to build an object key from. -/
structure KeyContext where
  index : UInt32
  epochSecs : Nat
  bootId : Str

/-- The fields of the configuration that a key is built from. -/
structure S3Config where
  serviceName : Str
  instancePath : Str
  bootId : Str
  keyPrefix : Option Str
  keyFn : Option (KeyContext → Str)

/-- The string metadata of a segment. -/
abbrev Metadata := Str → Option Str

/-- The creation second in the metadata, `0` where it is missing or malformed. -/
def epochSecs (metadata : Metadata) : Nat :=
  ((metadata "epoch_secs".toList).bind (Str.parseUnsigned 64)).getD 0

def isGzip (metadata : Metadata) : Bool :=
  (metadata "content_encoding".toList).any (· = "gzip".toList)

/-- Reinterpret an unsigned 64-bit value as a signed one. -/
def asI64 (n : Nat) : Int := if n < 2 ^ 63 then n else n - 2 ^ 64

/-- `{:04}` of a year. -/
def formatYear (year : Int) : Str :=
  if year < 0 then '-' :: Str.zeroPad 3 year.natAbs else Str.zeroPad 4 year.toNat

def timeBucketFromEpoch (calendar : Calendar) (epochSecs : Nat) : Str × Str :=
  let time := (calendar (asI64 epochSecs)).getD .unixEpoch
  (formatYear time.year ++ "-".toList ++ Str.zeroPad 2 time.month ++ "-".toList ++
      Str.zeroPad 2 time.day,
    Str.zeroPad 2 time.hour ++ Str.zeroPad 2 time.minute)

def segmentExtension (metadata : Metadata) : Str :=
  if isGzip metadata then ".bin.gz".toList else ".bin".toList

/-- `{epoch_secs}-{index}` and the extension. -/
def segmentFilename (index : UInt32) (metadata : Metadata) : Str :=
  Str.display (epochSecs metadata) ++ "-".toList ++ Str.display index.toNat ++
    segmentExtension metadata

/-- Build the S3 object key for a sealed segment. -/
def S3Config.objectKey (calendar : Calendar) (config : S3Config) (index : UInt32)
    (metadata : Metadata) : Str :=
  match config.keyFn with
  | some keyFn => keyFn ⟨index, epochSecs metadata, config.bootId⟩
  | none =>
    let bucket := timeBucketFromEpoch calendar (epochSecs metadata)
    formatV1SegmentObjectKey config.keyPrefix bucket.1 config.serviceName bucket.2
      config.instancePath config.bootId (segmentFilename index metadata)

end S3

end Dial9.Keys
