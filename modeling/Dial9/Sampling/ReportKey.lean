/-
# Keys of reports

Every report is an empty object whose key says all: the channel, the pool's
dimensions, the window, and the rank, the run and the cutoff of the report. A
census lists by the part up to the window and parses the rest. Dimensions are
named by users and escaped, so that a pool's prefix covers its own reports only.
-/

import Dial9.Keys.Codec
import Dial9.Lib.Paths
import Dial9.Lib.Radix
import Dial9.Sampling.Census

namespace Dial9.Sampling

open Dial9.Lib

/-! ## The crate's own escape -/

def needsHiveEscape (byte : UInt8) : Bool :=
  byte < 0x20 || byte = 0x7f ||
    byte ∈ ([0x22, 0x23, 0x25, 0x27, 0x2a, 0x2f, 0x3a, 0x3d, 0x3f, 0x5c, 0x7b, 0x5b, 0x5d,
      0x5e] : List UInt8)

/-- `HEX`. -/
def hexTable : Str := "0123456789ABCDEF".toList

def escapeChar (c : Char) : Str :=
  if c.toNat < 128 ∧ needsHiveEscape (UInt8.ofNat c.toNat) then
    let byte := UInt8.ofNat c.toNat
    ['%', hexTable.getD (byte >>> 4).toNat '0', hexTable.getD (byte &&& 0x0f).toNat '0']
  else [c]

/-- Escape a Hive partition-path value using Hive's canonical ASCII table. -/
def hiveEscape (value : Str) : Str := value.flatMap escapeChar

/-! ## Pools -/

/-- The fields of a configuration that keys are built from. -/
structure PoolConfig where
  invocationId : Str
  dimensions : List (Str × Str)

/-- Pairs of texts are compared by the first and then by the second. -/
def dimensionBefore (a b : Str × Str) : Bool :=
  Str.before a.1 b.1 || (a.1 = b.1 && Str.before a.2 b.2)

/-- `dimensions.sort()`. -/
def sortDimensions (dimensions : List (Str × Str)) : List (Str × Str) :=
  dimensions.insertionSort fun a b => dimensionBefore b a = false

/-- A dimension as a part of a path. -/
def dimensionPart (dimension : Str × Str) : Str :=
  hiveEscape dimension.1 ++ '=' :: hiveEscape dimension.2

namespace PoolConfig

/-- `pool_path`. -/
def poolPath (config : PoolConfig) : Str :=
  (sortDimensions config.dimensions).flatMap fun dimension => dimensionPart dimension ++ ['/']

/-- `report_prefix`. Dimensions contain an equals sign, so `windows` ends them. -/
def reportPrefix (config : PoolConfig) (channel : Str) (window : UInt64) : Str :=
  "v3/".toList ++ channel ++ "/".toList ++ config.poolPath ++ "windows/window=".toList ++
    Str.formatHex 16 window.toNat ++ "/".toList

end PoolConfig

/-- `report_key`. -/
def reportKey (config : PoolConfig) (channel : Str) (window rank : UInt64) (cutoff : Cutoff) :
    Str :=
  config.reportPrefix channel window ++ Str.formatHex 16 rank.toNat ++ ".".toList ++
    config.invocationId ++ ".".toList ++ Str.formatHex 17 cutoff.value

/-! ## Parsing -/

/-- The ULID parser and printer; a ULID is an unsigned integer of 128 bits. -/
structure Ulids where
  parse : Str → Option Nat
  display : Nat → Str

/-- A printed ULID has a letter or a digit in each place, and parses as itself. -/
structure Ulids.Lawful (ulids : Ulids) : Prop where
  parse_lt : ∀ s id, ulids.parse s = some id → id < 2 ^ 128
  parse_display : ∀ id < 2 ^ 128, ulids.parse (ulids.display id) = some id
  alphanum : ∀ id < 2 ^ 128, ∀ c ∈ ulids.display id, c.isAlphanum = true

/-- What `parse` makes of the three fields of a name. -/
def parseFields (ulids : Ulids) (profiler : Bool) (rankHex identity cutoffHex : Str)
    (more : List Str) : Except StoreError Census.Report :=
  match Str.fromHex 64 rankHex with
  | none => .error (invalid "invalid report rank")
  | some rank =>
    match Str.fromHex 128 cutoffHex with
    | none => .error (invalid "invalid chosen cutoff")
    | some cutoff =>
      match ulids.parse identity with
      | none => .error (invalid "invalid run identity")
      | some id =>
        if more ≠ [] || rankHex ≠ Str.formatHex 16 rank || identity ≠ ulids.display id ||
            cutoffHex ≠ Str.formatHex 17 cutoff || cutoff = 0 || space < cutoff ||
            cutoff ≤ rank || (profiler && cutoff ≠ space) then
          .error (invalid "invalid report encoding or eligibility")
        else .ok ⟨rank, cutoff, id⟩

/-- `parse`. -/
def parseReport (ulids : Ulids) (key keyPrefix : Str) (profiler : Bool) :
    Except StoreError Census.Report :=
  match Str.stripPrefix keyPrefix key with
  | none => .error (invalid "report outside requested prefix")
  | some suffix =>
    match suffix.splitOn '.' with
    | [] => .error (invalid "missing report rank")
    | [_] => .error (invalid "missing run identity")
    | [_, _] => .error (invalid "missing chosen cutoff")
    | rankHex :: identity :: cutoffHex :: more =>
      parseFields ulids profiler rankHex identity cutoffHex more

/-! ## One pool's prefix covers its own reports -/

theorem not_equals_mem_hiveEscape (value : Str) : '=' ∉ hiveEscape value :=
  Keys.Viewer.notMem_hiveEscape (by decide) (by decide) (by decide) value

theorem not_slash_mem_dimensionPart (dimension : Str × Str) : '/' ∉ dimensionPart dimension := by
  intro hmem
  rcases List.mem_append.mp hmem with hname | hvalue
  · exact Keys.Viewer.not_slash_mem_hiveEscape dimension.1 hname
  · rcases List.mem_cons.mp hvalue with heq | hvalue
    · exact absurd heq (by decide)
    · exact Keys.Viewer.not_slash_mem_hiveEscape dimension.2 hvalue

theorem dimensionPart_injective : Function.Injective dimensionPart := by
  intro a b h
  obtain ⟨hname, hvalue⟩ := Str.append_sep_inj (not_equals_mem_hiveEscape a.1)
    (not_equals_mem_hiveEscape b.1) h
  exact Prod.ext (Keys.Viewer.hiveEscape_injective hname) (Keys.Viewer.hiveEscape_injective hvalue)

theorem toNat_lt_hex (n : UInt64) : n.toNat < 16 ^ 16 := by
  calc n.toNat < 2 ^ 64 := n.toNat_lt
    _ = 16 ^ 16 := by norm_num

theorem formatHex_toNat (n : UInt64) : Str.formatHex 16 n.toNat = hex.numeral 16 n.toNat :=
  @Str.formatHex_eq 16 n.toNat (by decide) (toNat_lt_hex n)

variable {window rank : UInt64} {cutoff : Cutoff}

variable {config a b : PoolConfig} {id : Nat}

variable {channel part channel' : Str}

namespace PoolConfig

/-- The parts of a pool's path. -/
def poolParts (config : PoolConfig) : List Str :=
  (sortDimensions config.dimensions).map dimensionPart

theorem poolPath_eq (config : PoolConfig) :
    config.poolPath = Str.terminated '/' config.poolParts := by
  rw [poolPath, poolParts, Str.terminated, List.flatMap_map]

theorem not_slash_mem_poolParts (h : part ∈ config.poolParts) : '/' ∉ part := by
  obtain ⟨dimension, -, rfl⟩ := List.mem_map.mp h
  exact not_slash_mem_dimensionPart dimension

theorem dimensions_eq_of_poolPath_eq (h : a.poolPath = b.poolPath) :
    sortDimensions a.dimensions = sortDimensions b.dimensions := by
  rw [poolPath_eq, poolPath_eq] at h
  have hparts := Str.terminated_inj (fun _ => not_slash_mem_poolParts)
    (fun _ => not_slash_mem_poolParts) h
  exact List.map_injective_iff.mpr dimensionPart_injective hparts

/-- The part that names a window. -/
def windowPart (window : UInt64) : Str := "window=".toList ++ Str.formatHex 16 window.toNat

theorem not_slash_mem_windowPart (window : UInt64) : '/' ∉ windowPart window := by
  intro hmem
  unfold windowPart at hmem
  rw [formatHex_toNat] at hmem
  rcases List.mem_append.mp hmem with hname | hnumber
  · exact absurd hname (by decide)
  · exact not_mem_hex_numeral (toNat_lt_hex window) (by decide) hnumber

theorem windowPart_injective : Function.Injective windowPart := by
  intro a b h
  have hformat := List.append_cancel_left h
  rw [formatHex_toNat, formatHex_toNat] at hformat
  exact UInt64.toNat_inj.mp (hex_numeral_inj (toNat_lt_hex a) (toNat_lt_hex b) hformat)

def prefixParts (config : PoolConfig) (channel : Str) (window : UInt64) : List Str :=
  "v3".toList :: channel :: (config.poolParts ++ ["windows".toList, windowPart window])

theorem reportPrefix_eq (config : PoolConfig) (channel : Str) (window : UInt64) :
    config.reportPrefix channel window =
      Str.terminated '/' (config.prefixParts channel window) := by
  unfold reportPrefix prefixParts windowPart
  rw [poolPath_eq]
  simp

theorem not_slash_mem_prefixParts (h : '/' ∉ channel)
    (hpart : part ∈ config.prefixParts channel window) :
    '/' ∉ part := by
  rcases List.mem_cons.mp hpart with rfl | hpart
  · decide
  rcases List.mem_cons.mp hpart with rfl | hpart
  · exact h
  rcases List.mem_append.mp hpart with hpool | hwindow
  · exact not_slash_mem_poolParts hpool
  · simp only [List.mem_cons, List.not_mem_nil, or_false] at hwindow
    rcases hwindow with rfl | rfl
    · decide
    · exact not_slash_mem_windowPart window

theorem takeWhile_parts (config : PoolConfig) (rest : List Str) :
    (config.poolParts ++ "windows".toList :: rest).takeWhile (fun part => decide ('=' ∈ part)) =
      config.poolParts := by
  have hpool : ∀ part ∈ config.poolParts, decide ('=' ∈ part) = true := by
    intro part hpart
    obtain ⟨dimension, -, rfl⟩ := List.mem_map.mp hpart
    simp [dimensionPart]
  rw [List.takeWhile_append_of_pos hpool, List.takeWhile_cons_of_neg (by decide),
    List.append_nil]

theorem prefixParts_eq {window window' : UInt64} {more : List Str}
    (h : a.prefixParts channel window = b.prefixParts channel' window' ++ more) :
    a.poolPath = b.poolPath ∧ channel = channel' ∧ window = window' := by
  rw [prefixParts, prefixParts, List.cons_append, List.cons_append, List.cons_inj_right,
    List.cons.injEq, List.append_assoc] at h
  obtain ⟨hchannel, hrest⟩ := h
  have hpool := congrArg (List.takeWhile fun part => decide ('=' ∈ part)) hrest
  rw [takeWhile_parts] at hpool
  have hpool' : a.poolParts = b.poolParts := hpool.trans (takeWhile_parts b _)
  rw [hpool', List.append_cancel_left_eq] at hrest
  injection hrest with _ hwindow
  injection hwindow with hwindow _
  exact ⟨by rw [poolPath_eq, poolPath_eq, hpool'], hchannel, windowPart_injective hwindow⟩

/-- Prefixes are equal, or keys of the one do not start with the other. -/
theorem reportPrefix_isPrefix_iff (ha : '/' ∉ channel)
    (hb : '/' ∉ channel') {window window' : UInt64} {name : Str} :
    b.reportPrefix channel' window' <+: a.reportPrefix channel window ++ name ↔
      a.poolPath = b.poolPath ∧ channel = channel' ∧ window = window' := by
  constructor
  · rintro ⟨rest, hrest⟩
    rw [reportPrefix_eq, reportPrefix_eq] at hrest
    rcases Str.terminated_append_eq (fun _ => not_slash_mem_prefixParts hb)
      (fun _ => not_slash_mem_prefixParts ha) hrest with ⟨more, hmore, -⟩ | ⟨more, hmore, -⟩
    · exact prefixParts_eq hmore
    · obtain ⟨hpool, hchannel, hwindow⟩ := prefixParts_eq hmore
      exact ⟨hpool.symm, hchannel.symm, hwindow.symm⟩
  · rintro ⟨hpool, rfl, rfl⟩
    have hpre : b.reportPrefix channel window = a.reportPrefix channel window := by
      rw [reportPrefix, reportPrefix, hpool]
    rw [hpre]
    exact List.prefix_append _ _

end PoolConfig

/-! ## What the parser accepts -/

variable {ulids : Ulids} {profiler : Bool}

/-- What a report must be for its key to be one that a run writes. -/
structure Eligible (profiler : Bool) (rank : UInt64) (cutoff : Cutoff) : Prop where
  includes : cutoff.includes rank = true
  whole : profiler = true → cutoff = ⟨none⟩

theorem value_le_space (cutoff : Cutoff) : cutoff.value ≤ space := by
  cases cutoff with
  | mk below =>
    cases below with
    | none => exact le_rfl
    | some below => exact below.toNat_lt.le

theorem space_lt : space < 16 ^ 17 := by
  unfold space
  norm_num

theorem formatHex_value (cutoff : Cutoff) :
    Str.formatHex 17 cutoff.value = hex.numeral 17 cutoff.value :=
  @Str.formatHex_eq 17 cutoff.value (by decide) ((value_le_space cutoff).trans_lt space_lt)

theorem eq_whole_of_value_eq (h : cutoff.value = space) : cutoff = ⟨none⟩ := by
  cases cutoff with
  | mk below =>
    cases below with
    | none => rfl
    | some below => exact absurd h (Nat.ne_of_lt below.toNat_lt)

theorem parseFields_eq_ok (hulids : ulids.Lawful) {rankHex identity cutoffHex : Str}
    {more : List Str} {report : Census.Report}
    (h : parseFields ulids profiler rankHex identity cutoffHex more = .ok report) :
    ∃ (rank : UInt64) (cutoff : Cutoff) (id : Nat), id < 2 ^ 128 ∧
      Eligible profiler rank cutoff ∧ more = [] ∧ rankHex = Str.formatHex 16 rank.toNat ∧
      identity = ulids.display id ∧ cutoffHex = Str.formatHex 17 cutoff.value ∧
      report = ⟨rank.toNat, cutoff.value, id⟩ := by
  unfold parseFields at h
  cases hrank : Str.fromHex 64 rankHex with
  | none =>
    rw [hrank] at h
    cases h
  | some rank =>
    cases hcutoff : Str.fromHex 128 cutoffHex with
    | none =>
      rw [hrank, hcutoff] at h
      cases h
    | some cutoff =>
      cases hid : ulids.parse identity with
      | none =>
        rw [hrank, hcutoff, hid] at h
        cases h
      | some id =>
        simp only [hrank, hcutoff, hid] at h
        split_ifs at h with hbad
        cases h
        simp only [Bool.or_eq_true, decide_eq_true_eq, Bool.and_eq_true, not_or, not_not,
          not_and, not_lt, not_le] at hbad
        obtain ⟨⟨⟨⟨⟨⟨⟨hmore, hrankHex⟩, hidentity⟩, hcutoffHex⟩, hzero⟩, hspace⟩, hlt⟩,
          hwhole⟩ := hbad
        have hvalue : (Cutoff.threshold cutoff).value = cutoff := by
          rw [Cutoff.value_threshold, min_eq_left hspace]
        have htoNat : (UInt64.ofNat rank).toNat = rank := by
          rw [UInt64.toNat_ofNat', Nat.mod_eq_of_lt (Str.fromHex_lt hrank)]
        refine ⟨UInt64.ofNat rank, Cutoff.threshold cutoff, id, hulids.parse_lt _ _ hid,
          ⟨?_, ?_⟩, hmore, ?_, hidentity, ?_, ?_⟩
        · rw [Cutoff.includes, htoNat, hvalue]
          exact decide_eq_true hlt
        · intro hprofiler
          apply eq_whole_of_value_eq
          rw [hvalue]
          exact hwhole hprofiler
        · rw [htoNat, hrankHex]
        · rw [hvalue, hcutoffHex]
        · rw [htoNat, hvalue]

theorem fromHex_formatHex_toNat (n : UInt64) : Str.fromHex 64 (Str.formatHex 16 n.toNat) =
    some n.toNat := by
  rw [formatHex_toNat]
  exact @Str.fromHex_numeral 64 16 n.toNat (by decide) (toNat_lt_hex n) n.toNat_lt

theorem fromHex_formatHex_value (cutoff : Cutoff) :
    Str.fromHex 128 (Str.formatHex 17 cutoff.value) = some cutoff.value := by
  have hlt : space < 2 ^ 128 := by
    unfold space
    norm_num
  rw [formatHex_value]
  exact @Str.fromHex_numeral 128 17 cutoff.value (by decide)
    ((value_le_space cutoff).trans_lt space_lt) ((value_le_space cutoff).trans_lt hlt)

section

variable (hulids : ulids.Lawful) (hid : id < 2 ^ 128)
include hulids hid

theorem parseFields_format (h : Eligible profiler rank cutoff) :
    parseFields ulids profiler (Str.formatHex 16 rank.toNat) (ulids.display id)
      (Str.formatHex 17 cutoff.value) [] = .ok ⟨rank.toNat, cutoff.value, id⟩ := by
  have hincludes : rank.toNat < cutoff.value := of_decide_eq_true h.includes
  have hle := value_le_space cutoff
  have hwhole : (profiler && decide (cutoff.value ≠ space)) = false := by
    cases profiler with
    | false => rfl
    | true => rw [h.whole rfl]; rfl
  unfold parseFields
  simp only [fromHex_formatHex_toNat, fromHex_formatHex_value, hulids.parse_display id hid]
  rw [if_neg]
  rw [hwhole]
  simp only [ne_eq, not_true_eq_false, decide_false, Bool.false_or, Bool.or_false, Bool.or_eq_true,
    decide_eq_true_eq, not_or]
  omega

theorem parseFields_format_of_le (h : cutoff.value ≤ rank.toNat) :
    parseFields ulids profiler (Str.formatHex 16 rank.toNat) (ulids.display id)
      (Str.formatHex 17 cutoff.value) [] =
        .error (invalid "invalid report encoding or eligibility") := by
  unfold parseFields
  simp only [fromHex_formatHex_toNat, fromHex_formatHex_value, hulids.parse_display id hid]
  rw [if_pos]
  simp [h]

theorem splitOn_name :
    (Str.formatHex 16 rank.toNat ++ '.' :: (ulids.display id ++
      '.' :: Str.formatHex 17 cutoff.value)).splitOn '.' =
        [Str.formatHex 16 rank.toNat, ulids.display id, Str.formatHex 17 cutoff.value] := by
  have hrank : '.' ∉ Str.formatHex 16 rank.toNat := by
    rw [formatHex_toNat]
    exact not_mem_hex_numeral (toNat_lt_hex rank) (by decide)
  have hdisplay : '.' ∉ ulids.display id := by
    intro hmem
    exact absurd (hulids.alphanum id hid '.' hmem) (by decide)
  have hcutoff : '.' ∉ Str.formatHex 17 cutoff.value := by
    rw [formatHex_value]
    exact not_mem_hex_numeral ((value_le_space cutoff).trans_lt space_lt) (by decide)
  rw [Str.splitOn_append_sep, Str.splitOn_append_sep, List.splitOn_eq_singleton hrank,
    List.splitOn_eq_singleton hdisplay, List.splitOn_eq_singleton hcutoff]
  rfl

end

theorem reportKey_eq (config : PoolConfig) (channel : Str) (window rank : UInt64)
    (cutoff : Cutoff) :
    reportKey config channel window rank cutoff = config.reportPrefix channel window ++
      (Str.formatHex 16 rank.toNat ++ '.' :: (config.invocationId ++
        '.' :: Str.formatHex 17 cutoff.value)) := by
  unfold reportKey
  simp

theorem parseReport_reportKey (hulids : ulids.Lawful) {run config : PoolConfig}
    (hpool : run.poolPath = config.poolPath) (hid : id < 2 ^ 128)
    (hrun : run.invocationId = ulids.display id) :
    parseReport ulids (reportKey run channel window rank cutoff)
      (config.reportPrefix channel window) profiler =
        parseFields ulids profiler (Str.formatHex 16 rank.toNat) (ulids.display id)
          (Str.formatHex 17 cutoff.value) [] := by
  have hpre : run.reportPrefix channel window = config.reportPrefix channel window := by
    rw [PoolConfig.reportPrefix, PoolConfig.reportPrefix, hpool]
  unfold parseReport
  rw [reportKey_eq, hpre, hrun, Str.stripPrefix_eq_some.mpr rfl]
  dsimp only
  rw [splitOn_name hulids hid]

/-- Under its pool's prefix a key is accepted exactly if a run of the pool writes it for a
report it can make, and then for that report. -/
theorem parseReport_eq_ok_iff (hulids : ulids.Lawful) {channel key : Str} {report : Census.Report} :
    parseReport ulids key (config.reportPrefix channel window) profiler = .ok report ↔
      ∃ (run : PoolConfig) (rank : UInt64) (cutoff : Cutoff) (id : Nat),
        run.poolPath = config.poolPath ∧ id < 2 ^ 128 ∧ run.invocationId = ulids.display id ∧
        Eligible profiler rank cutoff ∧ key = reportKey run channel window rank cutoff ∧
        report = ⟨rank.toNat, cutoff.value, id⟩ := by
  constructor
  · intro h
    unfold parseReport at h
    cases hsuffix : Str.stripPrefix (config.reportPrefix channel window) key with
    | none =>
      rw [hsuffix] at h
      cases h
    | some suffix =>
      have hkey := Str.stripPrefix_eq_some.mp hsuffix
      have hjoin := (@List.intercalate_splitOn _ suffix _ _ '.').symm
      rw [hsuffix] at h
      dsimp only at h
      split at h
      · cases h
      · cases h
      · cases h
      · next rankHex identity cutoffHex more hsplit =>
          obtain ⟨rank, cutoff, id, hid, heligible, rfl, rfl, rfl, rfl, hreport⟩ :=
            parseFields_eq_ok hulids h
          refine ⟨⟨ulids.display id, config.dimensions⟩, rank, cutoff, id, rfl, hid, rfl,
            heligible, ?_, hreport⟩
          have hname : ['.'].intercalate [Str.formatHex 16 rank.toNat, ulids.display id,
              Str.formatHex 17 cutoff.value] = Str.formatHex 16 rank.toNat ++ '.' ::
                (ulids.display id ++ '.' :: Str.formatHex 17 cutoff.value) := by
            simp [List.intercalate]
          rw [hkey, hjoin, hsplit, reportKey_eq, hname]
          rfl
  · rintro ⟨run, rank, cutoff, id, hpool, hid, hrun, heligible, rfl, rfl⟩
    rw [parseReport_reportKey hulids hpool hid hrun]
    exact parseFields_format hulids hid heligible

/-- Keys of one pool, channel and window are told from all others by their prefix, a pool's
path by its dimensions, and the reports of a key by its name. -/
theorem report_namespace (hulids : ulids.Lawful) :
    (∀ (a b : PoolConfig) (channel channel' : Str) (window window' rank : UInt64)
      (cutoff : Cutoff), '/' ∉ channel → '/' ∉ channel' →
      (b.reportPrefix channel' window' <+: reportKey a channel window rank cutoff ↔
        a.poolPath = b.poolPath ∧ channel = channel' ∧ window = window')) ∧
    (∀ a b : PoolConfig, sortDimensions a.dimensions = a.dimensions →
      sortDimensions b.dimensions = b.dimensions → a.poolPath = b.poolPath →
      a.dimensions = b.dimensions) ∧
    ∀ (config : PoolConfig) (channel key : Str) (window : UInt64) (profiler : Bool)
      (report : Census.Report),
      parseReport ulids key (config.reportPrefix channel window) profiler = .ok report ↔
        ∃ (run : PoolConfig) (rank : UInt64) (cutoff : Cutoff) (id : Nat),
          run.poolPath = config.poolPath ∧ id < 2 ^ 128 ∧ run.invocationId = ulids.display id ∧
          Eligible profiler rank cutoff ∧ key = reportKey run channel window rank cutoff ∧
          report = ⟨rank.toNat, cutoff.value, id⟩ := by
  refine ⟨?_, ?_, ?_⟩
  · intro a b channel channel' window window' rank cutoff ha hb
    rw [reportKey_eq]
    exact PoolConfig.reportPrefix_isPrefix_iff ha hb
  · intro a b ha hb h
    rw [← ha, ← hb]
    exact PoolConfig.dimensions_eq_of_poolPath_eq h
  · intro config channel key window profiler report
    exact parseReport_eq_ok_iff hulids

/-! ## ULIDs in Crockford's alphabet -/

def crockfordDigits : Str :=
  ['0', '1', '2', '3', '4', '5', '6', '7', '8', '9', 'A', 'B', 'C', 'D', 'E', 'F', 'G', 'H',
    'J', 'K', 'M', 'N', 'P', 'Q', 'R', 'S', 'T', 'V', 'W', 'X', 'Y', 'Z']

/-- Lower case is read as upper case. -/
def crockford : Digits where
  base := 32
  char := fun d => crockfordDigits.getD d '0'
  value := fun c => crockfordDigits.findIdx? (· = c.toUpper)
  one_lt := by decide
  value_char := by
    intro d hd
    interval_cases d <;> decide
  char_lt := by
    have hrise : ∀ e < 32, ∀ d < e,
        (crockfordDigits.getD d '0').toNat < (crockfordDigits.getD e '0').toNat := by
      decide
    intro d e hde he
    exact hrise e he d hde

/-- Twenty-six digits, of which the two uppermost bits are dropped. -/
def crockfordUlids : Ulids where
  parse := fun s => if s.length = 26 then (crockford.read s).map (· % 2 ^ 128) else none
  display := fun id => crockford.numeral 26 id

theorem lt_crockford (h : id < 2 ^ 128) : id < crockford.base ^ 26 := by
  have hbase : crockford.base ^ 26 = 2 ^ 130 := by
    show 32 ^ 26 = 2 ^ 130
    norm_num
  rw [hbase]
  exact h.trans (by norm_num)

theorem crockfordUlids_lawful : crockfordUlids.Lawful where
  parse_lt := by
    intro s id h
    obtain ⟨n, -, rfl⟩ := Option.map_eq_some_iff.mp (Option.ite_none_right_eq_some.mp h).2
    exact Nat.mod_lt n (Nat.two_pow_pos 128)
  parse_display := by
    intro id hid
    have hlength := crockford.length_numeral 26 id
    have hread := crockford.read_numeral (lt_crockford hid)
    show (if (crockford.numeral 26 id).length = 26 then
      (crockford.read (crockford.numeral 26 id)).map (· % 2 ^ 128) else none) = some id
    rw [if_pos hlength, hread, Option.map_some, Nat.mod_eq_of_lt hid]
  alphanum := by
    intro id hid c hc
    obtain ⟨d, hd, rfl⟩ := crockford.mem_numeral (lt_crockford hid) hc
    have hall : ∀ d < 32, (crockfordDigits.getD d '0').isAlphanum = true := by decide
    exact hall d hd

def demoPool (invocation : Nat) : PoolConfig where
  invocationId := crockfordUlids.display invocation
  dimensions := [("service".toList, "demo".toList)]

/-- A prefix of a pool covers another run's report of the window, and no other window's. -/
theorem report_namespace_demo :
    (demoPool 2).reportPrefix "census".toList 9 <+:
        reportKey (demoPool 1) "census".toList 9 5 ⟨some 7⟩ ∧
      ¬ (demoPool 2).reportPrefix "census".toList 8 <+:
        reportKey (demoPool 1) "census".toList 9 5 ⟨some 7⟩ := by
  have h := (report_namespace crockfordUlids_lawful).1 (demoPool 1) (demoPool 2) "census".toList
    "census".toList 9
  refine ⟨(h 9 5 ⟨some 7⟩ (by decide) (by decide)).mpr ⟨rfl, rfl, rfl⟩, fun hpre => ?_⟩
  exact absurd ((h 8 5 ⟨some 7⟩ (by decide) (by decide)).mp hpre).2.2 (by decide)

/-- The key of a rank that is not below its cutoff is well formed, and refused. -/
theorem parseReport_ineligible :
    parseReport crockfordUlids (reportKey (demoPool 1) "census".toList 9 5 ⟨some 3⟩)
      ((demoPool 1).reportPrefix "census".toList 9) false =
        .error (invalid "invalid report encoding or eligibility") := by
  rw [parseReport_reportKey crockfordUlids_lawful rfl (by decide : 1 < 2 ^ 128) rfl]
  exact parseFields_format_of_le crockfordUlids_lawful (by decide) (by decide)

end Dial9.Sampling
