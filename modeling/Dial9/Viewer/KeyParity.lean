/-
# Two parsers of object keys

The server and the browser both take the last components of a key for one of
three layouts. They differ in how they spell the tests and decode escapes, which
comes to the same, and in what follows a `version=1` component whose partitions
are not right: the server goes on to the historical layouts and the browser
gives up.
-/

import Dial9.Keys.Agreement
import Dial9.Keys.UriDecoding
import Dial9.Viewer.TraceKeys

namespace Dial9.Viewer.TraceKeys

open Dial9.Lib Dial9.Keys Dial9.Keys.Viewer

/-! ## Dates and times -/

theorem lt_of_asBytes {s : Str} (h : ∀ b ∈ Str.asBytes s, b.toNat < 128) {c : Char} (hc : c ∈ s) :
    c.toNat < 128 := by
  by_contra hhigh
  obtain ⟨octet, more, hoctets, -⟩ := Str.utf8EncodeChar_shape c
  have hmem : octet ∈ String.utf8EncodeChar c := hoctets ▸ List.mem_cons_self
  have hle := Str.le_of_mem_utf8EncodeChar (Nat.le_of_not_lt hhigh) hmem
  have hlt := h octet (List.mem_flatMap.mpr ⟨c, hc, hmem⟩)
  omega

theorem isDigit_of_isAsciiDigit {c : Char} (hc : c.toNat < 128)
    (h : isAsciiDigit (UInt8.ofNat c.toNat) = true) : c.isDigit = true := by
  have hbyte : (UInt8.ofNat c.toNat).toNat = c.toNat := by
    rw [UInt8.toNat_ofNat']
    omega
  simp only [isAsciiDigit, Bool.and_eq_true, decide_eq_true_eq, UInt8.le_iff_toNat_le, hbyte] at h
  simpa [Char.isDigit, UInt32.le_iff_toNat_le] using h

theorem isAsciiDigit_lt {b : UInt8} (h : isAsciiDigit b = true) : b.toNat < 128 := by
  simp only [isAsciiDigit, Bool.and_eq_true, decide_eq_true_eq, UInt8.le_iff_toNat_le] at h
  have hlast : (0x39 : UInt8).toNat = 57 := rfl
  omega

theorem timeRe_eq (s : Str) : timeRe s = isTime s := by
  rw [Bool.eq_iff_iff]
  constructor
  · intro h
    unfold timeRe at h
    split at h
    · simp only [List.all_cons, List.all_nil, Bool.and_true, Bool.and_eq_true] at h
      exact isTime_of_digits ⟨h.1, h.2.1⟩ ⟨h.2.2.1, h.2.2.2⟩
    · cases h
  · intro h
    unfold isTime at h
    rw [Bool.and_eq_true, decide_eq_true_eq, List.all_eq_true] at h
    obtain ⟨hlength, hdigits⟩ := h
    have hascii : ∀ c ∈ s, c.toNat < 128 := fun c =>
      lt_of_asBytes fun b hb => isAsciiDigit_lt (hdigits b hb)
    rw [Str.asBytes_of_ascii hascii] at hlength hdigits
    rw [List.length_map] at hlength
    obtain ⟨a, b, c, d, rfl⟩ := List.length_eq_four.mp hlength
    simp only [timeRe, List.all_eq_true]
    intro e he
    exact isDigit_of_isAsciiDigit (hascii e he) (hdigits _ (List.mem_map_of_mem he))

theorem eq_dash {c : Char} (hc : c.toNat < 128) (h : UInt8.ofNat c.toNat = 0x2d) : c = '-' := by
  have hnat := congrArg UInt8.toNat h
  rw [UInt8.toNat_ofNat', Nat.mod_eq_of_lt (by omega)] at hnat
  exact Char.toNat_inj.mp hnat

theorem date_bytes {bytes : List UInt8} (h : (bytes.length = 10 && bytes.getD 4 0 = 0x2d &&
    bytes.getD 7 0 = 0x2d && (bytes.take 4).all isAsciiDigit &&
    ((bytes.drop 5).take 2).all isAsciiDigit && (bytes.drop 8).all isAsciiDigit) = true) :
    ∃ a b c d m m' n n', bytes = [a, b, c, d, 0x2d, m, m', 0x2d, n, n'] ∧
      ∀ e ∈ [a, b, c, d, m, m', n, n'], isAsciiDigit e = true := by
  simp only [Bool.and_eq_true, decide_eq_true_eq] at h
  obtain ⟨⟨⟨⟨⟨hlength, hdash⟩, hdash'⟩, hyear⟩, hmonth⟩, hday⟩ := h
  match bytes, hlength with
  | [a, b, c, d, e, m, m', e', n, n'], _ =>
    obtain rfl : e = 0x2d := hdash
    obtain rfl : e' = 0x2d := hdash'
    refine ⟨a, b, c, d, m, m', n, n', rfl, ?_⟩
    simp only [List.take_succ_cons, List.take_zero, List.drop_succ_cons, List.drop_zero,
      List.all_cons, List.all_nil, Bool.and_true, Bool.and_eq_true] at hyear hmonth hday
    simp only [List.forall_mem_cons, List.not_mem_nil, false_imp_iff, implies_true, and_true]
    exact ⟨hyear.1, hyear.2.1, hyear.2.2.1, hyear.2.2.2, hmonth.1, hmonth.2, hday⟩

theorem dateRe_eq (s : Str) : dateRe s = isDate s := by
  rw [Bool.eq_iff_iff]
  constructor
  · intro h
    unfold dateRe at h
    split at h
    · simp only [List.all_cons, List.all_nil, Bool.and_true, Bool.and_eq_true] at h
      obtain ⟨ha, hb, hc, hd, hm, hm', hn, hn'⟩ := h
      exact isDate_of_digits ⟨⟨ha, hb⟩, hc, hd⟩ ⟨hm, hm'⟩ ⟨hn, hn'⟩
    · cases h
  · intro h
    obtain ⟨a, b, c, d, m, m', n, n', hbytes, hdigits⟩ := date_bytes h
    have hascii : ∀ c ∈ s, c.toNat < 128 := by
      intro c
      apply lt_of_asBytes
      intro e he
      rw [hbytes] at he
      by_cases hdash : e = 0x2d
      · rw [hdash]
        decide
      · exact isAsciiDigit_lt (hdigits e (by simpa [hdash] using he))
    rw [Str.asBytes_of_ascii hascii] at hbytes
    have hlength : s.length = 10 := by simpa using congrArg List.length hbytes
    match s, hlength with
    | [a', b', c', d', e, x, x', e', y, y'], _ =>
      simp only [List.map_cons, List.map_nil, List.cons.injEq, and_true] at hbytes
      obtain ⟨rfl, rfl, rfl, rfl, hdash, rfl, rfl, hdash', rfl, rfl⟩ := hbytes
      obtain rfl := eq_dash (hascii e (by simp)) hdash
      obtain rfl := eq_dash (hascii e' (by simp)) hdash'
      have hall : ∀ f ∈ [a', b', c', d', x, x', y, y'], f.isDigit = true := by
        intro f hf
        have hdigit := hdigits (UInt8.ofNat f.toNat)
          (List.mem_map_of_mem (f := fun c : Char => UInt8.ofNat c.toNat) hf)
        refine isDigit_of_isAsciiDigit (hascii f ?_) hdigit
        simp only [List.mem_cons, List.not_mem_nil, or_false] at hf ⊢
        tauto
      exact List.all_eq_true.mpr hall

/-! ## Partitions -/

theorem dropPrefix?_append (s p q : Str) :
    s.dropPrefix? (p ++ q) = (s.dropPrefix? p).bind (·.dropPrefix? q) := by
  apply Option.ext
  intro rest
  rw [Option.bind_eq_some_iff]
  simp only [List.dropPrefix?_eq_some_iff, beq_iff_eq]
  constructor
  · rintro ⟨front, rfl, rfl⟩
    exact ⟨q ++ rest, ⟨p, by simp, rfl⟩, q, rfl, rfl⟩
  · rintro ⟨middle, ⟨front, rfl, rfl⟩, front', rfl, rfl⟩
    exact ⟨front ++ front', by simp, rfl⟩

theorem decodePartition_eq (segment name : Str) :
    TraceKeys.decodePartition segment name = (Keys.Viewer.decodePartition segment name).join := by
  unfold TraceKeys.decodePartition Keys.Viewer.decodePartition
  rw [dropPrefix?_append]
  cases segment.dropPrefix? name with
  | none => rfl
  | some rest =>
    simp only [Option.bind_some, Option.bind_eq_bind]
    cases rest.dropPrefix? "=".toList with
    | none => rfl
    | some encoded => exact (hiveUnescape_eq encoded).symm

theorem decodePartition_of_digit {d c : Char} {segment name : Str} (hd : d.isDigit = true)
    (hc : c.isDigit = false) : TraceKeys.decodePartition (d :: segment) (c :: name) = none := by
  have hne : d ≠ c := by
    rintro rfl
    rw [hd] at hc
    cases hc
  simp [TraceKeys.decodePartition, List.dropPrefix?, hne]

/-! ## The last components -/

variable {parts : List Str}

theorem exists_last {n : Nat} (h : n ≤ parts.length) :
    ∃ front back, parts = front ++ back ∧ back.length = n :=
  ⟨parts.take (parts.length - n), parts.drop (parts.length - n),
    (List.take_append_drop _ _).symm, by rw [List.length_drop]; omega⟩

theorem getD_last (front back : List Str) (k : Nat) :
    (front ++ back).getD (front.length + k) [] = back.getD k [] := by
  rw [List.getD_eq_getElem?_getD, List.getElem?_append_right (Nat.le_add_right _ _),
    Nat.add_sub_cancel_left, List.getD_eq_getElem?_getD]

theorem join_bind {α β : Type} (a : Option (Option α)) (k : α → Option β) :
    a.join.bind k = a.bind fun inner => inner.bind k := by
  cases a <;> rfl

theorem filter_join_bind {α β : Type} (a : Option (Option α)) (p : α → Bool) (k : α → Option β) :
    (a.join.filter p).bind k = a.bind fun inner => (inner.filter p).bind k := by
  cases a <;> rfl

/-- The server looks at the partitions that the browser does. -/
theorem parseVersion1_eq (parts : List Str) :
    parseVersion1 parts = (version1Layout parts).bind Version1Layout.fields := by
  unfold parseVersion1 version1Layout
  by_cases hshort : parts.length < 7
  · rw [if_pos hshort, if_pos hshort]
    rfl
  · rw [if_neg hshort, if_neg hshort]
    obtain ⟨front, back, rfl, hback⟩ := exists_last (Nat.le_of_not_lt hshort)
    have hstart : (front ++ back).length - 7 = front.length := by
      rw [List.length_append]
      omega
    rw [hstart, List.drop_left]
    match back, hback with
    | [version, date, service, time, inst, boot, file], _ =>
      have hversion : (front ++ [version, date, service, time, inst, boot, file]).getD
          front.length [] = version := getD_last front _ 0
      simp only [hversion, getD_last, List.getD_cons_succ, List.getD_cons_zero]
      by_cases hanchor : version = "version=1".toList
      · rw [if_neg (not_not.mpr hanchor), if_neg (not_not.mpr hanchor)]
        simp only [Option.bind_some, Option.bind_eq_bind, Version1Layout.fields,
          decodePartition_eq, join_bind, filter_join_bind, funext dateRe_eq, funext timeRe_eq]
      · rw [if_pos hanchor, if_pos hanchor]
        rfl

/-- A date and then a time stand that many components before the end. -/
def DatedAt (parts : List Str) (width : Nat) : Prop :=
  width ≤ parts.length ∧ isDate (parts.getD (parts.length - width) []) = true ∧
    isTime (parts.getD (parts.length - width + 1) []) = true

instance (parts : List Str) (width : Nat) : Decidable (DatedAt parts width) :=
  inferInstanceAs (Decidable (_ ∧ _ ∧ _))

theorem historicalLayout_eq (parts : List Str) : historicalLayout parts =
    if DatedAt parts 6 then some ⟨parts.length - 6, true⟩
    else if DatedAt parts 5 then some ⟨parts.length - 5, false⟩
    else none := by
  have hwidth : ∀ (width : Nat) (hasBoot : Bool),
      (if parts.length < width then none
        else if dateRe (parts.getD (parts.length - width) []) &&
          timeRe (parts.getD (parts.length - width + 1) []) then
            some (⟨parts.length - width, hasBoot⟩ : HistoricalLayout)
        else none) =
      if DatedAt parts width then some ⟨parts.length - width, hasBoot⟩ else none := by
    intro width hasBoot
    by_cases hdated : DatedAt parts width
    · rw [if_pos hdated, if_neg (Nat.not_lt.mpr hdated.1), dateRe_eq, timeRe_eq, hdated.2.1,
        hdated.2.2]
      rfl
    · rw [if_neg hdated]
      split
      · rfl
      · next hlong =>
          split
          · next htests =>
              rw [dateRe_eq, timeRe_eq, Bool.and_eq_true] at htests
              exact absurd ⟨Nat.le_of_not_lt hlong, htests⟩ hdated
          · rfl
  unfold historicalLayout
  simp only [List.findSome?_cons, List.findSome?_nil, if_true, Bool.false_eq_true, if_false, hwidth]
  by_cases hboot : DatedAt parts 6
  · simp only [if_pos hboot]
  · simp only [if_neg hboot]
    by_cases hplain : DatedAt parts 5
    · simp only [if_pos hplain]
    · simp only [if_neg hplain]

/-- Service, instance and boot id as a historical layout has them. -/
def HistoricalLayout.fields (parts : List Str) (layout : HistoricalLayout) : Str × Str × Str :=
  (parts.getD (layout.start + 2) [], parts.getD (layout.start + 3) [],
    if layout.hasBoot then parts.getD (layout.start + 4) [] else [])

/-! ## The readings -/

/-- Service, host and boot id of a known key. -/
def ParsedTraceKey.fields : ParsedTraceKey → Option (Str × Str × Str)
  | known service host bootId _ _ => some (service, host, bootId)
  | unknown _ _ _ => none

/-- What the browser takes from a documented layout, and not by position. -/
def browserReading (key : Str) : Option (Str × Str × Str) :=
  if (version1Layout (key.splitOn '/')).isSome ∨ (historicalLayout (key.splitOn '/')).isSome then
    (parseKey key).fields
  else none

/-- Service, instance and boot id, when the server knows the layout; an absent
boot id is empty. -/
def serverReading (key : Str) : Option (Str × Str × Str) :=
  let parsed := parseSegmentObjectKey key
  if parsed.layout = .unknown then none
  else do
    let service ← parsed.service
    let inst ← parsed.inst
    some (service, inst, parsed.bootId.getD [])

theorem browserReading_eq (key : Str) : browserReading key =
    match version1Layout (key.splitOn '/') with
    | some version1 => version1.fields.map fun fields => (fields.2.1, fields.2.2.2)
    | none =>
      (historicalLayout (key.splitOn '/')).map (HistoricalLayout.fields (key.splitOn '/')) := by
  unfold browserReading parseKey
  dsimp only
  cases version1Layout (key.splitOn '/') with
  | some version1 =>
    rw [if_pos (.inl rfl)]
    dsimp only
    cases version1.fields with
    | none | some _ => rfl
  | none =>
    cases historicalLayout (key.splitOn '/') with
    | some historical =>
      rw [if_pos (.inr rfl)]
      rfl
    | none => exact if_neg fun h => h.elim (fun h => by cases h) fun h => by cases h

variable {key : Str}

/-- Without a bucket in front both parsers see the same components. -/
theorem stripS3_eq_self (hkey : ¬ "s3://".toList <+: key) : stripS3 key = key := by
  cases hdrop : key.dropPrefix? "s3://".toList with
  | none => rw [stripS3, hdrop]
  | some rest =>
    obtain ⟨scheme, rfl, hscheme⟩ := List.dropPrefix?_eq_some_iff.mp hdrop
    rw [eq_of_beq hscheme] at hkey
    exact absurd (List.prefix_append _ _) hkey

theorem getD_drop (parts : List Str) (k i : Nat) :
    (parts.drop k).getD i [] = parts.getD (k + i) [] := by
  rw [List.getD_eq_getElem?_getD, List.getElem?_drop, List.getD_eq_getElem?_getD]

/-- The server's test of a historical layout. -/
theorem datedAt_iff (parts : List Str) (width : Nat) :
    (decide (parts.length ≥ width) && isDate ((parts.drop (parts.length - width)).getD 0 []) &&
      isTime ((parts.drop (parts.length - width)).getD 1 [])) = true ↔ DatedAt parts width := by
  rw [getD_drop, getD_drop, Bool.and_eq_true, Bool.and_eq_true, decide_eq_true_eq, and_assoc]
  rfl

theorem getElem?_of_datedAt {width : Nat} (h : width ≤ parts.length) {i : Nat} (hi : i < width) :
    (parts.drop (parts.length - width))[i]? =
      some (parts.getD (parts.length - width + i) []) := by
  rw [List.getElem?_drop, List.getD_eq_getElem?_getD,
    List.getElem?_eq_getElem (by omega : parts.length - width + i < parts.length)]
  rfl

theorem serverReading_eq (hkey : ¬ "s3://".toList <+: key) : serverReading key =
    match parseVersion1 (key.splitOn '/') with
    | some fields => some (fields.2.1, fields.2.2.2)
    | none =>
      (historicalLayout (key.splitOn '/')).map (HistoricalLayout.fields (key.splitOn '/')) := by
  unfold serverReading parseSegmentObjectKey
  rw [stripS3_eq_self hkey]
  dsimp only
  generalize key.splitOn '/' = parts
  cases parseVersion1 parts with
  | some fields => rfl
  | none =>
    dsimp only
    simp only [datedAt_iff, historicalLayout_eq]
    by_cases hboot : DatedAt parts 6
    · simp only [if_pos hboot]
      have hat := @getElem?_of_datedAt parts 6 hboot.1
      rw [hat (by decide), hat (by decide), hat (by decide)]
      rfl
    · simp only [if_neg hboot]
      by_cases hplain : DatedAt parts 5
      · simp only [if_pos hplain]
        have hat := @getElem?_of_datedAt parts 5 hplain.1
        rw [hat (by decide), hat (by decide)]
        rfl
      · simp only [if_neg hplain]
        rfl

/-! ## File names -/

theorem fileRe_of_dash {file rest : Str} (h : file.dropWhile Char.isDigit = '-' :: rest) :
    fileRe file =
      if file.takeWhile Char.isDigit ≠ [] ∧ rest.takeWhile Char.isDigit ≠ [] ∧
          (rest.dropWhile Char.isDigit = ".bin".toList ∨
            rest.dropWhile Char.isDigit = ".bin.gz".toList) then
        some (file.takeWhile Char.isDigit, rest.takeWhile Char.isDigit)
      else none := by
  rw [fileRe, h]
  rfl

theorem fileRe_of_digits? {epoch index extension : Str} {n m : Nat}
    (hepoch : Str.digits? epoch = some n) (hindex : Str.digits? index = some m)
    (hextension : extension = ".bin".toList ∨ extension = ".bin.gz".toList) :
    fileRe (epoch ++ "-".toList ++ index ++ extension) = some (epoch, index) := by
  have hdigits : ∀ {s : Str} {k : Nat}, Str.digits? s = some k →
      s ≠ [] ∧ ∀ c ∈ s, c.isDigit = true := by
    intro s k hs
    refine ⟨?_, fun c hc => Str.isDigit_of_digits? hs hc⟩
    rintro rfl
    cases hs
  obtain ⟨hepochNe, hepochDigits⟩ := hdigits hepoch
  obtain ⟨hindexNe, hindexDigits⟩ := hdigits hindex
  have hdot : extension.takeWhile Char.isDigit = [] ∧
      extension.dropWhile Char.isDigit = extension := by
    obtain rfl | rfl := hextension <;> exact ⟨rfl, rfl⟩
  have hdash : ('-' :: (index ++ extension)).takeWhile Char.isDigit = [] ∧
      ('-' :: (index ++ extension)).dropWhile Char.isDigit = '-' :: (index ++ extension) :=
    ⟨rfl, rfl⟩
  have hsplit : epoch ++ "-".toList ++ index ++ extension =
      epoch ++ '-' :: (index ++ extension) := by
    simp
  have hrest : (epoch ++ '-' :: (index ++ extension)).dropWhile Char.isDigit =
      '-' :: (index ++ extension) := by
    rw [List.dropWhile_append_of_pos hepochDigits, hdash.2]
  rw [hsplit, fileRe_of_dash hrest, List.takeWhile_append_of_pos hepochDigits, hdash.1,
    List.append_nil, List.takeWhile_append_of_pos hindexDigits, hdot.1, List.append_nil,
    List.dropWhile_append_of_pos hindexDigits, hdot.2]
  exact if_pos ⟨hepochNe, hindexNe, hextension⟩

theorem parseInt_of_digits? {digits : Str} {n : Nat} (h : Str.digits? digits = some n)
    (hn : n < 2 ^ 53) : parseInt digits = n := by
  unfold Str.digits? at h
  split at h
  · obtain rfl := Option.some.inj h
    exact TraceParser.num_of_lt hn
  · cases h

theorem parseKey_file (key : Str) :
    (parseKey key).epoch =
      (fileRe ((key.splitOn '/').getLast?.getD [])).elim 0 (fun groups => parseInt groups.1) ∧
    (parseKey key).segIndex = (fileRe ((key.splitOn '/').getLast?.getD [])).elim [] Prod.snd := by
  unfold parseKey
  dsimp only
  cases version1Layout (key.splitOn '/') with
  | some version1 =>
    dsimp only
    cases version1.fields <;> exact ⟨rfl, rfl⟩
  | none =>
    cases historicalLayout (key.splitOn '/') with
    | some historical => exact ⟨rfl, rfl⟩
    | none =>
      dsimp only
      split
      · exact ⟨rfl, rfl⟩
      · split <;> exact ⟨rfl, rfl⟩

theorem parseSegmentObjectKey_file (hkey : ¬ "s3://".toList <+: key) :
    (parseSegmentObjectKey key).epochSecs =
      (parseFilename ((key.splitOn '/').getLast?.getD [])).map Prod.fst ∧
    (parseSegmentObjectKey key).segmentIndex =
      (parseFilename ((key.splitOn '/').getLast?.getD [])).map Prod.snd := by
  unfold parseSegmentObjectKey
  rw [stripS3_eq_self hkey]
  dsimp only
  cases parseVersion1 (key.splitOn '/') with
  | some fields => exact ⟨rfl, rfl⟩
  | none =>
    dsimp only
    split
    · exact ⟨rfl, rfl⟩
    · split <;> exact ⟨rfl, rfl⟩

/-! ## The two parsers together -/

/-- The browser and the server read a key alike: the same fields from a
documented layout, no guess where something looks like one, and the same numbers
from a file name. -/
structure SameReading (key : Str) : Prop where
  fields : ∀ service host bootId, browserReading key = some (service, host, bootId) ↔
    serverReading key = some (service, host, bootId)
  unknown : (parseSegmentObjectKey key).layout = .unknown →
    (∃ part ∈ key.splitOn '/', isDate part = true ∨ part = "version=1".toList) →
    ∃ epoch segIndex, parseKey key = .unknown key epoch segIndex
  file : ∀ (epoch index extension : Str) (n m : Nat),
    (key.splitOn '/').getLast? = some (epoch ++ "-".toList ++ index ++ extension) →
    Str.digits? epoch = some n → Str.digits? index = some m →
    (extension = ".bin".toList ∨ extension = ".bin.gz".toList) → n < 2 ^ 53 → m < 2 ^ 32 →
    (parseKey key).epoch = n ∧ (parseKey key).segIndex = index ∧
      (parseSegmentObjectKey key).epochSecs = some (n : Int) ∧
      (parseSegmentObjectKey key).segmentIndex = some m

/-- A component `version=1` stands where the versioned layout has it, and a date
and a time follow it as in a historical layout. -/
def VersionedPositional (parts : List Str) : Prop :=
  7 ≤ parts.length ∧ parts.getD (parts.length - 7) [] = "version=1".toList ∧
    (DatedAt parts 6 ∨ DatedAt parts 5)

instance (parts : List Str) : Decidable (VersionedPositional parts) :=
  inferInstanceAs (Decidable (_ ∧ _ ∧ _))

/-- Partitions among which stand a date and a time have no fields. -/
theorem VersionedPositional.fields (h : VersionedPositional parts) :
    ∃ version1, version1Layout parts = some version1 ∧ version1.fields = none := by
  obtain ⟨hlong, hversion, hdated⟩ := h
  have hdigit : ∀ {segment : Str}, isDate segment = true →
      ∃ d rest, segment = d :: rest ∧ d.isDigit = true := by
    intro segment hsegment
    rw [← dateRe_eq] at hsegment
    unfold dateRe at hsegment
    split at hsegment
    · exact ⟨_, _, rfl, List.all_eq_true.mp hsegment _ List.mem_cons_self⟩
    · cases hsegment
  unfold version1Layout
  rw [if_neg (Nat.not_lt.mpr hlong)]
  dsimp only
  rw [if_neg (not_not.mpr hversion)]
  refine ⟨_, rfl, ?_⟩
  obtain hboot | hplain := hdated
  · obtain ⟨d, rest, hdate, hd⟩ := hdigit hboot.2.1
    rw [show parts.length - 6 = parts.length - 7 + 1 by omega] at hdate
    have hnone : TraceKeys.decodePartition (d :: rest) "date".toList = none :=
      decodePartition_of_digit hd rfl
    rw [hdate, hnone]
    rfl
  · obtain ⟨d, rest, hdate, hd⟩ := hdigit hplain.2.1
    rw [show parts.length - 5 = parts.length - 7 + 2 by omega] at hdate
    have hnone : TraceKeys.decodePartition (d :: rest) "service".toList = none :=
      decodePartition_of_digit hd rfl
    rw [hdate, hnone]
    exact Option.bind_eq_none_iff.mpr fun _ _ => rfl

/-- Both layouts can only be found in a key whose versioned one is broken. -/
theorem versionedPositional_of_some {version1 : Version1Layout} {historical : HistoricalLayout}
    (hversion : version1Layout parts = some version1)
    (hhistorical : historicalLayout parts = some historical) : VersionedPositional parts := by
  unfold version1Layout at hversion
  split at hversion
  · cases hversion
  · next hlong =>
      dsimp only at hversion
      split at hversion
      · cases hversion
      · next hanchor =>
          refine ⟨Nat.le_of_not_lt hlong, not_not.mp hanchor, ?_⟩
          rw [historicalLayout_eq] at hhistorical
          split at hhistorical
          · next hboot => exact .inl hboot
          · split at hhistorical
            · next hplain => exact .inr hplain
            · cases hhistorical

theorem exists_historicalLayout (h : DatedAt parts 6 ∨ DatedAt parts 5) :
    ∃ historical, historicalLayout parts = some historical := by
  rw [historicalLayout_eq]
  by_cases hboot : DatedAt parts 6
  · exact ⟨_, if_pos hboot⟩
  · rw [if_neg hboot]
    exact ⟨_, if_pos (h.resolve_left hboot)⟩

/-- What the server takes for no layout at all, the browser does not know either,
where a component asks for one. -/
theorem parseKey_of_unknown (hkey : ¬ "s3://".toList <+: key)
    (hunknown : (parseSegmentObjectKey key).layout = .unknown)
    (hpart : ∃ part ∈ key.splitOn '/', isDate part = true ∨ part = "version=1".toList) :
    ∃ epoch segIndex, parseKey key = .unknown key epoch segIndex := by
  have hreading : serverReading key = none := if_pos hunknown
  have hany : ((key.splitOn '/').any fun part =>
      dateRe part || part = "version=1".toList) = true := by
    obtain ⟨part, hmem, htest⟩ := hpart
    refine List.any_eq_true.mpr ⟨part, hmem, ?_⟩
    rw [dateRe_eq, Bool.or_eq_true, decide_eq_true_eq]
    exact htest
  rw [serverReading_eq hkey, parseVersion1_eq] at hreading
  unfold parseKey
  dsimp only
  cases hversion : version1Layout (key.splitOn '/') with
  | some version1 =>
    rw [hversion, Option.bind_some] at hreading
    dsimp only
    cases hfields : version1.fields with
    | none => exact ⟨_, _, rfl⟩
    | some fields =>
      rw [hfields] at hreading
      cases hreading
  | none =>
    rw [hversion, Option.bind_none] at hreading
    rw [Option.map_eq_none_iff.mp hreading]
    exact ⟨_, _, if_pos hany⟩

/-- For every key without a bucket in front: the two parsers read it alike,
unless its `version=1` component is followed by a date and a time. -/
theorem sameReading_iff {key : Str} (hkey : ¬ "s3://".toList <+: key) :
    SameReading key ↔ ¬ VersionedPositional (key.splitOn '/') := by
  constructor
  · intro hsame hclash
    obtain ⟨version1, hversion, hnone⟩ := hclash.fields
    obtain ⟨historical, hhistorical⟩ := exists_historicalLayout hclash.2.2
    have hserver : serverReading key = some (historical.fields (key.splitOn '/')) := by
      rw [serverReading_eq hkey, parseVersion1_eq, hversion, Option.bind_some, hnone, hhistorical]
      rfl
    have hbrowser : browserReading key = none := by
      rw [browserReading_eq, hversion]
      simp only [hnone, Option.map_none]
    have hboth := (hsame.fields _ _ _).mpr hserver
    rw [hbrowser] at hboth
    cases hboth
  · intro hclash
    refine ⟨?_, parseKey_of_unknown hkey, ?_⟩
    · have hequal : browserReading key = serverReading key := by
        rw [browserReading_eq, serverReading_eq hkey, parseVersion1_eq]
        cases hversion : version1Layout (key.splitOn '/') with
        | none => rfl
        | some version1 =>
          cases hhistorical : historicalLayout (key.splitOn '/') with
          | none => cases hfields : version1.fields <;> simp [hfields]
          | some historical =>
            exact absurd (versionedPositional_of_some hversion hhistorical) hclash
      intro service host bootId
      rw [hequal]
    · intro epoch index extension n m hfile hepoch hindex hextension hn hm
      obtain ⟨hepochs, hindices⟩ := parseKey_file key
      obtain ⟨hepochs', hindices'⟩ := parseSegmentObjectKey_file hkey
      have hbrowser := fileRe_of_digits? hepoch hindex hextension
      have hserver := parseFilename_of_digits? hepoch hindex (by omega) hm hextension
      rw [hfile, Option.getD_some, hbrowser] at hepochs hindices
      rw [hfile, Option.getD_some, hserver] at hepochs' hindices'
      exact ⟨hepochs.trans (parseInt_of_digits? hepoch hn), hindices, hepochs', hindices'⟩

set_option maxRecDepth 4000 in
/-- A key of the uploader, under a prefix that looks like a partition. -/
theorem sameReading_uploaded : SameReading ("date=archive/version=1/date=2026-08-14/" ++
    "service=payments%2Fapi/time=1937/instance=host/boot=boot/1786736220-3.bin.gz").toList :=
  (sameReading_iff (by decide)).mpr (by decide)

/-- A historical key under the prefix `version=1`. -/
def versionedPositionalKey : Str :=
  "version=1/2026-04-09/1910/service/host/boot/1744224000-3.bin.gz".toList

/-- The server takes the fields of the historical layout, and the browser does
not know the key. -/
theorem versionedPositionalKey_not_sameReading :
    parseKey versionedPositionalKey = .unknown versionedPositionalKey 1744224000 "3".toList ∧
      serverReading versionedPositionalKey =
        some ("service".toList, "host".toList, "boot".toList) ∧
      ¬ SameReading versionedPositionalKey := by
  have hserver : serverReading versionedPositionalKey =
      some ("service".toList, "host".toList, "boot".toList) := by decide
  have hbrowser : browserReading versionedPositionalKey = none := by decide
  refine ⟨by decide, hserver, ?_⟩
  intro hsame
  have hboth := (hsame.fields _ _ _).mpr hserver
  rw [hbrowser] at hboth
  cases hboth

end Dial9.Viewer.TraceKeys
