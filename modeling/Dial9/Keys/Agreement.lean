/-
# Uploader keys read back by the viewer

A key is compared by its path components: those of the configured prefix, then
seven that the uploader writes. The escaped values contain no separator, so the
last seven components are exactly the seven written, whatever the prefix is.
The prefix matters in two places only: the parser drops a leading `s3://`
bucket, and the listing filter looks for the viewer's output directories
anywhere in the key.
-/

import Dial9.Keys.Uploader
import Dial9.Keys.Parser

namespace Dial9.Keys

open Dial9.Lib Viewer

/-! ## Dates and times -/

theorem isAsciiDigit_of_isDigit {c : Char} (hc : c.isDigit = true) :
    c.toNat < 128 ∧ isAsciiDigit (UInt8.ofNat c.toNat) = true := by
  have hrange : 48 ≤ c.toNat ∧ c.toNat ≤ 57 := by
    simpa [Char.isDigit, UInt32.le_iff_toNat_le] using hc
  have hbyte : (UInt8.ofNat c.toNat).toNat = c.toNat := by
    rw [UInt8.toNat_ofNat']
    omega
  refine ⟨by omega, ?_⟩
  simp only [isAsciiDigit, Bool.and_eq_true, decide_eq_true_eq, UInt8.le_iff_toNat_le, hbyte]
  exact hrange

theorem zeroPad_two {n : Nat} (hn : n < 100) :
    ∃ a b : Char, Str.zeroPad 2 n = [a, b] ∧ a.isDigit = true ∧ b.isDigit = true := by
  have hlength := @Str.length_zeroPad 2 n (by decide) hn
  rcases List.length_eq_two.mp hlength with ⟨a, b, hab⟩
  have hdigit : ∀ c ∈ Str.zeroPad 2 n, c.isDigit = true := fun c => Str.isDigit_of_mem_zeroPad
  rw [hab] at hdigit
  exact ⟨a, b, hab, hdigit a (by simp), hdigit b (by simp)⟩

theorem zeroPad_four {n : Nat} (hn : n < 10000) :
    ∃ a b c d : Char, Str.zeroPad 4 n = [a, b, c, d] ∧
      a.isDigit = true ∧ b.isDigit = true ∧ c.isDigit = true ∧ d.isDigit = true := by
  have hlength := @Str.length_zeroPad 4 n (by decide) hn
  rcases List.length_eq_four.mp hlength with ⟨a, b, c, d, habcd⟩
  have hdigit : ∀ c ∈ Str.zeroPad 4 n, c.isDigit = true := fun c => Str.isDigit_of_mem_zeroPad
  rw [habcd] at hdigit
  exact ⟨a, b, c, d, habcd, hdigit a (by simp), hdigit b (by simp), hdigit c (by simp),
    hdigit d (by simp)⟩

variable {calendar : Calendar}

theorem isDate_of_digits {a b c d m m' n n' : Char}
    (hyear : (a.isDigit = true ∧ b.isDigit = true) ∧ c.isDigit = true ∧ d.isDigit = true)
    (hmonth : m.isDigit = true ∧ m'.isDigit = true) (hday : n.isDigit = true ∧ n'.isDigit = true) :
    isDate [a, b, c, d, '-', m, m', '-', n, n'] = true := by
  rcases hyear with ⟨⟨ha, hb⟩, hc, hd⟩
  rcases hmonth with ⟨hm, hm'⟩
  rcases hday with ⟨hn, hn'⟩
  have hascii : ∀ e ∈ [a, b, c, d, '-', m, m', '-', n, n'], e.toNat < 128 := by
    simp [isAsciiDigit_of_isDigit, ha, hb, hc, hd, hm, hm', hn, hn']
  unfold isDate
  rw [Str.asBytes_of_ascii hascii]
  simp [isAsciiDigit_of_isDigit, ha, hb, hc, hd, hm, hm', hn, hn']

theorem isTime_of_digits {h h' n n' : Char} (hhour : h.isDigit = true ∧ h'.isDigit = true)
    (hminute : n.isDigit = true ∧ n'.isDigit = true) : isTime [h, h', n, n'] = true := by
  have hascii : ∀ e ∈ [h, h', n, n'], e.toNat < 128 := by
    simp [isAsciiDigit_of_isDigit, hhour, hminute]
  unfold isTime
  rw [Str.asBytes_of_ascii hascii]
  simp [isAsciiDigit_of_isDigit, hhour, hminute]

theorem timeBucket_spec (hcalendar : calendar.Covers) {secs : Nat} (hsecs : secs ≤ lastSecond) :
    isDate (S3.timeBucketFromEpoch calendar secs).1 = true ∧
      isTime (S3.timeBucketFromEpoch calendar secs).2 = true := by
  rcases hcalendar secs hsecs with ⟨time, htime, hfirst, hlast⟩
  have hsigned : S3.asI64 secs = secs := by
    unfold S3.asI64
    rw [if_pos (lt_of_le_of_lt hsecs (by decide))]
  have hyear : S3.formatYear time.year = Str.zeroPad 4 time.year.toNat := by
    unfold S3.formatYear
    rw [if_neg (by omega)]
  have hmonth := time.month_le
  have hday := time.day_le
  have hhour := time.hour_lt
  have hminute := time.minute_lt
  rcases zeroPad_four (n := time.year.toNat) (by omega) with ⟨a, b, c, d, hyears, ha, hb, hcd⟩
  rcases zeroPad_two (n := time.month) (by omega) with ⟨m, m', hm, hmonths⟩
  rcases zeroPad_two (n := time.day) (by omega) with ⟨n, n', hn, hdays⟩
  rcases zeroPad_two (n := time.hour) (by omega) with ⟨h, h', hh, hhours⟩
  rcases zeroPad_two (n := time.minute) (by omega) with ⟨s, s', hs, hminutes⟩
  have hbucket : S3.timeBucketFromEpoch calendar secs =
      ([a, b, c, d, '-', m, m', '-', n, n'], [h, h', s, s']) := by
    unfold S3.timeBucketFromEpoch
    rw [hsigned, htime]
    simp only [Option.getD_some, hyear, hyears, hm, hn, hh, hs]
    rfl
  rw [hbucket]
  exact ⟨isDate_of_digits ⟨⟨ha, hb⟩, hcd⟩ hmonths hdays, isTime_of_digits hhours hminutes⟩

/-! ## Filenames -/

theorem segmentFilename_not_slash (index : UInt32) (metadata : S3.Metadata) :
    '/' ∉ S3.segmentFilename index metadata := by
  have hdigits : ∀ n, '/' ∉ Str.display n := fun n => Str.not_mem_display (by decide)
  unfold S3.segmentFilename S3.segmentExtension
  split <;> simp [hdigits]

theorem stem_of_extension {stem extension : Str}
    (hextension : extension = ".bin".toList ∨ extension = ".bin.gz".toList) :
    ((stem ++ extension).dropSuffix? ".bin.gz".toList).or
        ((stem ++ extension).dropSuffix? ".bin".toList) = some stem := by
  rcases hextension with rfl | rfl
  · have hnone : ((stem ++ ".bin".toList).dropSuffix? ".bin.gz".toList) = none := by
      rw [Option.eq_none_iff_forall_ne_some]
      intro stem' hstem
      rcases List.dropSuffix?_eq_some_iff.mp hstem with ⟨suffix, hsplit, hsuffix⟩
      rw [eq_of_beq hsuffix] at hsplit
      have hlast := congrArg List.getLast? hsplit
      rw [List.getLast?_append, List.getLast?_append] at hlast
      simp at hlast
    rw [hnone, List.dropSuffix?_eq_some_iff.mpr ⟨_, rfl, by decide⟩]
    rfl
  · rw [List.dropSuffix?_eq_some_iff.mpr ⟨_, rfl, by decide⟩]
    rfl

theorem parseFilename_of_digits? {epoch index extension : Str} {n m : Nat}
    (hepoch : Str.digits? epoch = some n) (hindex : Str.digits? index = some m)
    (hn : n < 2 ^ 63) (hm : m < 2 ^ 32)
    (hextension : extension = ".bin".toList ∨ extension = ".bin.gz".toList) :
    parseFilename (epoch ++ "-".toList ++ index ++ extension) = some ((n : Int), m) := by
  have hdash : ∀ {s : Str} {k : Nat}, Str.digits? s = some k → '-' ∉ s := by
    intro s k hs hmem
    exact absurd (Str.isDigit_of_digits? hs hmem) (by decide)
  have hsigned : Str.parseSigned 64 epoch = some (n : Int) := Str.parseSigned_of_digits? hepoch hn
  unfold parseFilename
  rw [stem_of_extension hextension]
  simp [Str.splitOnce_append, hdash hepoch, hdash hindex, hsigned,
    Str.parseUnsigned_of_digits? hindex hm]

theorem parseFilename_segmentFilename (index : UInt32) {metadata : S3.Metadata}
    (hsecs : S3.epochSecs metadata ≤ lastSecond) :
    parseFilename (S3.segmentFilename index metadata) =
      some ((S3.epochSecs metadata : Int), index.toNat) := by
  have hepoch : S3.epochSecs metadata < 2 ^ 63 := lt_of_le_of_lt hsecs (by decide)
  unfold S3.segmentFilename
  apply parseFilename_of_digits? (Str.digits?_display _) (Str.digits?_display _) hepoch
    index.toNat_lt
  unfold S3.segmentExtension
  split
  · exact .inr rfl
  · exact .inl rfl

/-! ## Path components -/

/-- The components a configured prefix contributes. -/
def prefixParts : Option Str → List Str
  | none => []
  | some keyPrefix => keyPrefix.splitOn '/'

/-- The seven components written by the uploader. -/
def segmentParts (date service time inst bootId filename : Str) : List Str :=
  ["version=1".toList, "date=".toList ++ hiveEscape date,
    "service=".toList ++ hiveEscape service, "time=".toList ++ hiveEscape time,
    "instance=".toList ++ hiveEscape inst, "boot=".toList ++ hiveEscape bootId, filename]

variable {keyPrefix : Option Str} {key : Str}

theorem formatV1_splitOn {date service time inst bootId filename : Str}
    (hfilename : '/' ∉ filename) :
    (S3.formatV1SegmentObjectKey keyPrefix date service time inst bootId filename).splitOn '/' =
      prefixParts keyPrefix ++ segmentParts date service time inst bootId filename := by
  have hparts : ∀ part ∈ segmentParts date service time inst bootId filename, '/' ∉ part := by
    simp [segmentParts, not_slash_mem_hiveEscape, hfilename]
  have hsuffix : "version=1/date=".toList ++ S3.hiveEscape date ++
      "/service=".toList ++ S3.hiveEscape service ++ "/time=".toList ++ S3.hiveEscape time ++
      "/instance=".toList ++ S3.hiveEscape inst ++ "/boot=".toList ++ S3.hiveEscape bootId ++
      "/".toList ++ filename =
        ['/'].intercalate (segmentParts date service time inst bootId filename) := by
    simp [segmentParts, List.intercalate, S3.hiveEscape_eq]
  have hsplit := List.splitOn_intercalate '/' hparts (by simp [segmentParts])
  unfold S3.formatV1SegmentObjectKey
  rw [hsuffix]
  cases keyPrefix with
  | none => exact hsplit
  | some keyPrefix =>
    show (keyPrefix ++ ['/'] ++ _).splitOn '/' = _
    rw [List.append_assoc, List.singleton_append, Str.splitOn_append_sep, hsplit]
    rfl

theorem stripS3_splitOn (key : Str) :
    (stripS3 key = key ∧ ¬ "s3://".toList <+: key) ∨
      ∃ rest : Str, key.splitOn '/' = "s3:".toList :: [] :: rest.splitOn '/' ∧
        ((stripS3 key).splitOn '/' = (rest.splitOn '/').tail ∨
          '/' ∉ rest ∧ stripS3 key = rest) := by
  cases hdrop : key.dropPrefix? "s3://".toList with
  | none =>
    left
    refine ⟨by rw [stripS3, hdrop], ?_⟩
    rintro ⟨rest, rfl⟩
    rw [List.dropPrefix?_append_of_beq _ (by decide)] at hdrop
    simp at hdrop
  | some rest =>
    right
    rcases List.dropPrefix?_eq_some_iff.mp hdrop with ⟨scheme, hkey, hscheme⟩
    rw [eq_of_beq hscheme] at hkey
    refine ⟨rest, ?_, ?_⟩
    · rw [hkey]
      exact (Str.splitOn_append_sep "s3:".toList ('/' :: rest)).trans
        (congrArg _ (Str.splitOn_append_sep [] rest))
    · by_cases hslash : '/' ∈ rest
      · left
        rcases List.eq_append_cons_of_mem hslash with ⟨bucket, path, rfl, hbucket⟩
        have hstrip : stripS3 key = path := by
          rw [stripS3, hdrop]
          simp only [Str.splitOnce_append bucket path hbucket]
        rw [hstrip, Str.splitOn_append_sep, List.splitOn_eq_singleton hbucket]
        rfl
      · right
        refine ⟨hslash, ?_⟩
        rw [stripS3, hdrop]
        simp only [Str.splitOnce_eq_none rest hslash]

/-! ## Parsing the seven components -/

theorem decodePartition_hiveEscape (name value : Str) :
    decodePartition (name ++ "=".toList ++ hiveEscape value) name = some (some value) := by
  unfold decodePartition
  rw [List.append_assoc, List.dropPrefix?_append_of_beq _ (by simp)]
  simp only [Option.bind_eq_bind, Option.bind_some]
  rw [List.dropPrefix?_append_of_beq _ (by simp), Option.bind_some, hiveUnescape_hiveEscape]

variable {date service time inst bootId filename : Str}

theorem parseVersion1_segmentParts (front : List Str) (hdate : isDate date = true)
    (htime : isTime time = true) :
    parseVersion1 (front ++ segmentParts date service time inst bootId filename) =
      some (date, service, time, inst, bootId) := by
  have hlength : (front ++ segmentParts date service time inst bootId filename).length =
      front.length + 7 := by simp [segmentParts]
  have hdrop : (front ++ segmentParts date service time inst bootId filename).drop
      (front.length + 7 - 7) = segmentParts date service time inst bootId filename := by
    rw [Nat.add_sub_cancel, List.drop_left]
  have hpart : ∀ (name text : Str) (value : Str), text = name ++ "=".toList →
      decodePartition (text ++ hiveEscape value) name = some (some value) := by
    rintro name text value rfl
    exact decodePartition_hiveEscape name value
  unfold parseVersion1
  rw [hlength, if_neg (by omega), hdrop]
  simp only [segmentParts, hpart "date".toList "date=".toList date (by decide),
    hpart "service".toList "service=".toList service (by decide),
    hpart "time".toList "time=".toList time (by decide),
    hpart "instance".toList "instance=".toList inst (by decide),
    hpart "boot".toList "boot=".toList bootId (by decide)]
  simp [Option.filter, hdate, htime]

theorem parseSegmentObjectKey_of_parts {front : List Str} (hparts : (stripS3 key).splitOn '/' =
      front ++ segmentParts date service time inst bootId filename) (hdate : isDate date = true)
    (htime : isTime time = true) :
    parseSegmentObjectKey key =
      ⟨.version1, some date, some time, some service, some inst, some bootId, filename,
        (parseFilename filename).map Prod.fst, (parseFilename filename).map Prod.snd⟩ := by
  have hfilename : ((front ++ segmentParts date service time inst bootId filename).getLast?).getD
      [] = filename := by
    simp [segmentParts, List.getLast?_append]
  unfold parseSegmentObjectKey
  simp only [hparts, parseVersion1_segmentParts front hdate htime, hfilename]

theorem layout_ne_version1_of_length (hlength : ((stripS3 key).splitOn '/').length < 7) :
    (parseSegmentObjectKey key).layout ≠ .version1 := by
  have hnone : parseVersion1 ((stripS3 key).splitOn '/') = none := by
    unfold parseVersion1
    rw [if_pos hlength]
  unfold parseSegmentObjectKey
  simp only [hnone]
  split
  · simp
  · split <;> simp

/-! ## Which prefixes are harmless -/

/-- The directories of the viewer's own output. -/
def outputDirectories : List Str :=
  ["samples".toList, "dict".toList, "flamegraph-data".toList]

/-- Behind its first component the prefix names none of the viewer's own output
directories, and it is not the start of a bucket URI without a bucket. -/
def PlainPrefix (keyPrefix : Option Str) : Prop :=
  (∀ directory ∈ outputDirectories, directory ∉ (prefixParts keyPrefix).tail) ∧
    keyPrefix ≠ some "s3:/".toList

instance (keyPrefix : Option Str) : Decidable (PlainPrefix keyPrefix) :=
  inferInstanceAs (Decidable (_ ∧ _))

theorem isTraceSegment_iff (key : Str) (hend : ".bin.gz".toList <:+ key ∨ ".bin".toList <:+ key) :
    isTraceSegment key = true ↔
      ∀ directory ∈ outputDirectories, directory ∉ Str.inner '/' key := by
  have hsuffix : (".bin.gz".toList.isSuffixOf key || ".bin".toList.isSuffixOf key) = true := by
    simpa only [Bool.or_eq_true, List.isSuffixOf_iff_suffix] using hend
  have hdelimited : ∀ (text directory : Str), text = '/' :: directory ++ ['/'] →
      '/' ∉ directory → (decide (text <:+: key) = true ↔ directory ∈ Str.inner '/' key) := by
    rintro text directory rfl hslash
    rw [decide_eq_true_iff]
    exact Str.delimited_infix_iff hslash key
  have hsamples := hdelimited "/samples/".toList "samples".toList (by decide) (by decide)
  have hdict := hdelimited "/dict/".toList "dict".toList (by decide) (by decide)
  have hflame := hdelimited "/flamegraph-data/".toList "flamegraph-data".toList (by decide)
    (by decide)
  unfold isTraceSegment outputDirectories
  rw [hsuffix]
  simp only [Bool.true_and, Bool.and_eq_true, Bool.not_eq_true', ← Bool.not_eq_true, hsamples,
    hdict, hflame, List.forall_mem_cons, List.not_mem_nil, false_imp_iff, implies_true, and_true,
    and_assoc]

/-- Among the inner components of a key only the prefix's own can name an output
directory, and of these not the first. -/
theorem inner_iff {key directory : Str} (hparts : key.splitOn '/' =
      prefixParts keyPrefix ++ segmentParts date service time inst bootId filename)
    (hdirectory : directory ∈ outputDirectories) :
    directory ∈ Str.inner '/' key ↔ directory ∈ (prefixParts keyPrefix).tail := by
  have hwritten : directory ∉ (segmentParts date service time inst bootId filename).dropLast := by
    simp only [outputDirectories, List.mem_cons, List.not_mem_nil, or_false] at hdirectory
    rcases hdirectory with rfl | rfl | rfl <;> simp [segmentParts]
  have hlast : segmentParts date service time inst bootId filename ≠ [] := by simp [segmentParts]
  unfold Str.inner
  rw [hparts]
  cases hfront : prefixParts keyPrefix with
  | nil =>
    have htail : directory ∉
        (segmentParts date service time inst bootId filename).tail.dropLast := by
      rw [List.tail_dropLast.symm]
      exact fun hmem => hwritten (List.mem_of_mem_tail hmem)
    simpa using htail
  | cons part parts =>
    rw [List.cons_append, List.tail_cons, List.dropLast_append_of_ne_nil hlast,
      List.mem_append, List.tail_cons]
    exact or_iff_left hwritten

theorem stripS3_parts (hparts : key.splitOn '/' =
      prefixParts keyPrefix ++ segmentParts date service time inst bootId filename)
    (hnotScheme : keyPrefix ≠ some "s3:/".toList) :
    ∃ front, (stripS3 key).splitOn '/' =
      front ++ segmentParts date service time inst bootId filename := by
  rcases stripS3_splitOn key with ⟨hsame, -⟩ | ⟨rest, hkey, hstrip⟩
  · exact ⟨prefixParts keyPrefix, hsame.symm ▸ hparts⟩
  · rw [hparts] at hkey
    rcases hstrip with hstrip | ⟨hslash, hrest⟩
    · -- `s3:` and the empty component are the prefix's own, and so is the bucket.
      cases hfront : prefixParts keyPrefix with
      | nil => simp [hfront, segmentParts] at hkey
      | cons part parts =>
        cases parts with
        | nil => simp [hfront, segmentParts] at hkey
        | cons part' parts =>
          rw [hfront] at hkey
          simp only [List.cons_append, List.cons.injEq] at hkey
          rcases hkey with ⟨rfl, rfl, hrest⟩
          cases parts with
          | nil =>
            cases keyPrefix with
            | none => simp [prefixParts] at hfront
            | some text =>
              have htext : text = "s3:/".toList := by
                rw [← @List.intercalate_splitOn _ text _ _ '/']
                exact congrArg _ hfront
              exact absurd (congrArg some htext) hnotScheme
          | cons bucket parts =>
            exact ⟨parts, by rw [hstrip, ← hrest]; rfl⟩
    · have hsingle := List.splitOn_eq_singleton hslash
      have hlength := congrArg List.length hkey
      simp [hsingle, segmentParts] at hlength

theorem stripS3_parts_of_schemeOnly (hparts : key.splitOn '/' = prefixParts (some "s3:/".toList) ++
      segmentParts date service time inst bootId filename) :
    ((stripS3 key).splitOn '/').length < 7 := by
  have hfront : prefixParts (some "s3:/".toList) = ["s3:".toList, []] := by decide
  have hscheme : "s3://".toList <+: key := by
    rw [← @List.intercalate_splitOn _ key _ _ '/', hparts, hfront]
    exact ⟨['/'].intercalate (segmentParts date service time inst bootId filename), by
      simp [segmentParts, List.intercalate]⟩
  rcases stripS3_splitOn key with ⟨-, hnot⟩ | ⟨rest, hkey, hstrip⟩
  · exact absurd hscheme hnot
  · rw [hparts, hfront] at hkey
    simp only [List.cons_append, List.cons.injEq, List.nil_append, true_and] at hkey
    rcases hstrip with hstrip | ⟨hslash, hrest⟩
    · rw [hstrip, ← hkey]
      simp [segmentParts]
    · rw [hrest, List.splitOn_eq_singleton hslash]
      simp

/-- The viewer's own keys parse back to what they were made from, escapes and all, unless the
prefix is a bucket URI without a bucket. -/
theorem parse_format_iff (hdate : isDate date = true) (htime : isTime time = true)
    (hfilename : '/' ∉ filename) :
    parseSegmentObjectKey
        (formatV1SegmentObjectKey keyPrefix date service time inst bootId filename) =
      ⟨.version1, some date, some time, some service, some inst, some bootId, filename,
        (parseFilename filename).map Prod.fst, (parseFilename filename).map Prod.snd⟩ ↔
      keyPrefix ≠ some "s3:/".toList := by
  have hparts := @formatV1_splitOn keyPrefix date service time inst bootId filename hfilename
  constructor
  · rintro hparse rfl
    exact layout_ne_version1_of_length (stripS3_parts_of_schemeOnly hparts)
      (congrArg (·.layout) hparse)
  · intro hprefix
    rcases stripS3_parts hparts hprefix with ⟨front, hfront⟩
    exact parseSegmentObjectKey_of_parts hfront hdate htime

theorem parse_format_escaped :
    (parseSegmentObjectKey (formatV1SegmentObjectKey (some "prod".toList) "2026-08-14".toList
      "a/b".toList "1937".toList "host".toList "boot".toList "9-3.bin".toList)).service =
      some "a/b".toList :=
  congrArg (·.service)
    ((parse_format_iff (by decide) (by decide) (by decide)).mpr (by decide))

/-! ## The two crates together -/

/-- What the viewer makes of the key of a segment: it recovers every field,
takes the object for a trace segment, and knows the scope it belongs to. -/
structure Agrees (calendar : Calendar) (config : S3.S3Config) (index : UInt32)
    (metadata : S3.Metadata) : Prop where
  parsed : parseSegmentObjectKey (config.objectKey calendar index metadata) =
    { layout := .version1
      date := some (S3.timeBucketFromEpoch calendar (S3.epochSecs metadata)).1
      time := some (S3.timeBucketFromEpoch calendar (S3.epochSecs metadata)).2
      service := some config.serviceName
      inst := some config.instancePath
      bootId := some config.bootId
      filename := S3.segmentFilename index metadata
      epochSecs := some (S3.epochSecs metadata : Int)
      segmentIndex := some index.toNat }
  segment : isTraceSegment (config.objectKey calendar index metadata) = true
  scope : scopeFields (config.objectKey calendar index metadata) =
    some ((S3.timeBucketFromEpoch calendar (S3.epochSecs metadata)).1, config.serviceName,
      config.instancePath)

/-- The components of a segment's key. -/
def S3.S3Config.segmentParts (calendar : Calendar) (config : S3.S3Config) (index : UInt32)
    (metadata : S3.Metadata) : List Str :=
  let bucket := S3.timeBucketFromEpoch calendar (S3.epochSecs metadata)
  Keys.segmentParts bucket.1 config.serviceName bucket.2 config.instancePath config.bootId
    (S3.segmentFilename index metadata)

variable {config config' : S3.S3Config} {index index' : UInt32}
  {metadata metadata' : S3.Metadata}

theorem objectKey_splitOn (hdefault : config.keyFn = none) :
    (config.objectKey calendar index metadata).splitOn '/' =
      prefixParts config.keyPrefix ++ config.segmentParts calendar index metadata := by
  unfold S3.S3Config.objectKey
  rw [hdefault]
  exact formatV1_splitOn (segmentFilename_not_slash index metadata)

theorem objectKey_suffix (hdefault : config.keyFn = none) :
    ".bin.gz".toList <:+ config.objectKey calendar index metadata ∨
      ".bin".toList <:+ config.objectKey calendar index metadata := by
  have hfilename : S3.segmentFilename index metadata <:+
      config.objectKey calendar index metadata := by
    unfold S3.S3Config.objectKey S3.formatV1SegmentObjectKey
    rw [hdefault]
    cases config.keyPrefix with
    | none => exact List.suffix_append _ _
    | some keyPrefix => exact (List.suffix_append _ _).trans (List.suffix_append _ _)
  have hextension : S3.segmentExtension metadata <:+ S3.segmentFilename index metadata :=
    List.suffix_append _ _
  unfold S3.segmentExtension at hextension
  split at hextension
  · exact .inl (hextension.trans hfilename)
  · exact .inr (hextension.trans hfilename)

theorem agrees_iff (hcalendar : calendar.Covers) (hdefault : config.keyFn = none)
    (hsecs : S3.epochSecs metadata ≤ lastSecond) :
    Agrees calendar config index metadata ↔ PlainPrefix config.keyPrefix := by
  have hparts := @objectKey_splitOn calendar config index metadata hdefault
  have hsegment := isTraceSegment_iff (config.objectKey calendar index metadata)
    (objectKey_suffix hdefault)
  have hbucket := timeBucket_spec hcalendar hsecs
  constructor
  · intro hagrees
    refine ⟨fun directory hdirectory hmem => ?_, fun hscheme => ?_⟩
    · exact hsegment.mp hagrees.segment directory hdirectory
        ((inner_iff hparts hdirectory).mpr hmem)
    · have hshort := stripS3_parts_of_schemeOnly (hscheme ▸ hparts)
      exact layout_ne_version1_of_length hshort (congrArg (·.layout) hagrees.parsed)
  · rintro ⟨hdirectories, hscheme⟩
    rcases stripS3_parts hparts hscheme with ⟨front, hfront⟩
    have hparsed := parseSegmentObjectKey_of_parts hfront hbucket.1 hbucket.2
    rw [parseFilename_segmentFilename index hsecs] at hparsed
    refine ⟨hparsed, ?_, ?_⟩
    · rw [hsegment]
      intro directory hdirectory hmem
      exact hdirectories directory hdirectory ((inner_iff hparts hdirectory).mp hmem)
    · unfold scopeFields scopeFieldsInner
      simp [hparsed]

theorem prefixParts_injective : Function.Injective prefixParts := by
  intro p q h
  cases p with
  | none =>
    cases q with
    | none => rfl
    | some q => exact absurd h.symm (List.splitOn_ne_nil '/' q)
  | some p =>
    cases q with
    | none => exact absurd h (List.splitOn_ne_nil '/' p)
    | some q =>
      have hjoin := congrArg (List.intercalate ['/']) h
      unfold prefixParts at hjoin
      rw [List.intercalate_splitOn, List.intercalate_splitOn] at hjoin
      exact congrArg some hjoin

theorem isGzip_eq_of_segmentFilename (hsecs : S3.epochSecs metadata = S3.epochSecs metadata')
    (hfilename : S3.segmentFilename index metadata = S3.segmentFilename index metadata') :
    S3.isGzip metadata = S3.isGzip metadata' := by
  unfold S3.segmentFilename at hfilename
  rw [hsecs, List.append_cancel_left_eq] at hfilename
  unfold S3.segmentExtension at hfilename
  split at hfilename <;> split at hfilename
  · simp_all
  · exact absurd hfilename (by decide)
  · exact absurd hfilename (by decide)
  · simp_all

theorem objectKey_inj (hdefault : config.keyFn = none) (hdefault' : config'.keyFn = none)
    (hsecs : S3.epochSecs metadata ≤ lastSecond) (hsecs' : S3.epochSecs metadata' ≤ lastSecond)
    (hkey : config.objectKey calendar index metadata =
      config'.objectKey calendar index' metadata') :
    config = config' ∧ index = index' ∧ S3.epochSecs metadata = S3.epochSecs metadata' ∧
      S3.isGzip metadata = S3.isGzip metadata' := by
  have hparts := congrArg (List.splitOn '/') hkey
  rw [objectKey_splitOn hdefault, objectKey_splitOn hdefault'] at hparts
  have hlength : (config.segmentParts calendar index metadata).length =
      (config'.segmentParts calendar index' metadata').length := by
    simp [S3.S3Config.segmentParts, segmentParts]
  rcases List.append_inj' hparts hlength with ⟨hfront, hwritten⟩
  have hprefix := prefixParts_injective hfront
  simp only [S3.S3Config.segmentParts, segmentParts, List.cons.injEq, List.append_cancel_left_eq,
    hiveEscape_injective.eq_iff, true_and, and_true] at hwritten
  rcases hwritten with ⟨-, hservice, -, hinst, hboot, hfilename⟩
  have hnumbers := congrArg parseFilename hfilename
  rw [parseFilename_segmentFilename index hsecs, parseFilename_segmentFilename index' hsecs']
    at hnumbers
  simp only [Option.some.injEq, Prod.mk.injEq, Nat.cast_inj, UInt32.toNat_inj] at hnumbers
  rcases hnumbers with ⟨hepoch, rfl⟩
  refine ⟨?_, rfl, hepoch, isGzip_eq_of_segmentFilename hepoch hfilename⟩
  cases config
  cases config'
  simp_all

/-- The escapes of the two crates are one function with the viewer's unescape as
its inverse, different segments have different keys, and the viewer reads a key
back exactly when the configured prefix is harmless. -/
theorem uploaderKeys_agree (hcalendar : calendar.Covers) :
    (∀ value, S3.hiveEscape value = hiveEscape value ∧
      hiveUnescape (S3.hiveEscape value) = some value) ∧
    (∀ (config config' : S3.S3Config) (index index' : UInt32) (metadata metadata' : S3.Metadata),
      config.keyFn = none → config'.keyFn = none →
      S3.epochSecs metadata ≤ lastSecond → S3.epochSecs metadata' ≤ lastSecond →
      config.objectKey calendar index metadata = config'.objectKey calendar index' metadata' →
      config = config' ∧ index = index' ∧ S3.epochSecs metadata = S3.epochSecs metadata' ∧
        S3.isGzip metadata = S3.isGzip metadata') ∧
    ∀ (config : S3.S3Config) (index : UInt32) (metadata : S3.Metadata),
      config.keyFn = none → S3.epochSecs metadata ≤ lastSecond →
      (Agrees calendar config index metadata ↔ PlainPrefix config.keyPrefix) := by
  refine ⟨fun value => ⟨rfl, hiveUnescape_hiveEscape value⟩, ?_, ?_⟩
  · intro config config' index index' metadata metadata' hdefault hdefault' hsecs hsecs' hkey
    exact objectKey_inj hdefault hdefault' hsecs hsecs' hkey
  · intro config index metadata hdefault hsecs
    exact agrees_iff hcalendar hdefault hsecs

/-! ## The proleptic Gregorian calendar -/

/-- The date of a day counted from 1970-01-01, by the 400-year era of 146097
days that starts on the first of March. -/
def civilTime (secs : Nat) : OffsetDateTime :=
  let day := secs / 86400 + 719468
  let dayOfEra := day % 146097
  let yearOfEra := (dayOfEra - dayOfEra / 1460 + dayOfEra / 36524 - dayOfEra / 146096) / 365
  let dayOfYear := dayOfEra - (365 * yearOfEra + yearOfEra / 4 - yearOfEra / 100)
  let marchMonth := (5 * dayOfYear + 2) / 153
  let month := if marchMonth < 10 then marchMonth + 3 else marchMonth - 9
  { year := yearOfEra + 400 * (day / 146097) + (if month ≤ 2 then 1 else 0)
    month := month
    day := dayOfYear - (153 * marchMonth + 2) / 5 + 1
    hour := secs / 3600 % 24
    minute := secs / 60 % 60
    month_le := by
      show (if marchMonth < 10 then marchMonth + 3 else marchMonth - 9) ≤ 12
      split <;> omega
    day_le := by omega
    hour_lt := by omega
    minute_lt := by omega }

/-- Times since the epoch, as far as the crate supports them. -/
def gregorian : Calendar := fun secs =>
  if 0 ≤ secs ∧ secs ≤ lastSecond then some (civilTime secs.toNat) else none

theorem gregorian_covers : gregorian.Covers := by
  intro secs hsecs
  have hrange : (0 : Int) ≤ secs ∧ (secs : Int) ≤ lastSecond := by omega
  refine ⟨civilTime secs, ?_, ?_, ?_⟩
  · unfold gregorian
    rw [if_pos hrange]
    rfl
  · simp only [civilTime]
    split <;> omega
  · unfold lastSecond at hsecs
    simp only [civilTime]
    split <;> omega

/-! ## A prefix with a directory of the viewer's own -/

/-- The uploader of a service under a prefix. -/
def uploaderUnder (keyPrefix : Str) : S3.S3Config where
  serviceName := "payments/api".toList
  instancePath := "host".toList
  bootId := "abcd-4242".toList
  keyPrefix := some keyPrefix
  keyFn := none

/-- The metadata of a compressed segment. -/
def gzipMetadata : S3.Metadata := fun name =>
  if name = "epoch_secs".toList then some "1786736220".toList
  else if name = "content_encoding".toList then some "gzip".toList
  else none

theorem epochSecs_gzipMetadata : S3.epochSecs gzipMetadata = 1786736220 := by decide

set_option maxRecDepth 4000 in
/-- The viewer skips every segment uploaded under `prod/samples`. -/
theorem segment_under_samples :
    (uploaderUnder "prod/samples".toList).objectKey gregorian 3 gzipMetadata =
      ("prod/samples/version=1/date=2026-08-14/service=payments%2Fapi/time=1937/" ++
        "instance=host/boot=abcd-4242/1786736220-3.bin.gz").toList ∧
    isTraceSegment ((uploaderUnder "prod/samples".toList).objectKey gregorian 3 gzipMetadata) =
      false := by
  decide

/-- Under `prod` it reads the key back. -/
theorem agrees_under_prod : Agrees gregorian (uploaderUnder "prod".toList) 3 gzipMetadata :=
  ((uploaderKeys_agree gregorian_covers).2.2 (uploaderUnder "prod".toList) 3 gzipMetadata rfl
    (by rw [epochSecs_gzipMetadata]; decide)).mpr (by decide)

end Dial9.Keys
