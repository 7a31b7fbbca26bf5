/-
# The files of a segment

A closed segment is a family of files: the `.bin` file and what is written beside it.
When a writer starts it finds the families that earlier writers left, sums their sizes
by index and unlinks stale active files. Later it evicts a family through the name that
it builds from the stem and the index.

Calls of the file system succeed. A name is text; what is not UTF-8 is passed over both
when the writer starts and when it evicts.
-/

import Dial9.Lib.Strings
import Dial9.Lib.Tallies

namespace Dial9.Core.SegmentFamily

open Lib Str

def binExt : Str := ['.', 'b', 'i', 'n']

def activeExt : Str := ['.', 'a', 'c', 't', 'i', 'v', 'e']

inductive SegmentArtifact where
  | retained (index : Nat)
  | active
  deriving DecidableEq

/-- `suffix` is empty or goes on with a dot. -/
def goesOn (suffix : Str) : Bool := suffix.isEmpty || suffix.head? == some '.'

/-- Classify a file name against the family of names `{stem}.{index}.bin*`. -/
def parseSegmentArtifact (fileName stem : Str) : Option SegmentArtifact :=
  ((stripPrefix stem fileName).bind (stripPrefix ['.'])).bind fun rest =>
    if ((stripSuffix (binExt ++ activeExt) rest).bind (parseUnsigned 32)).isSome then some .active
    else
      (splitOnceWord binExt rest).bind fun halves =>
        if goesOn halves.2 then (parseUnsigned 32 halves.1).map .retained else none

structure File where
  name : Str
  size : Nat
  deriving DecidableEq

/-- A closed segment, by the name of its `.bin` file. -/
structure ClosedFile where
  fileName : Str
  index : Nat
  size : Nat
  deriving DecidableEq

structure DiscoveredArtifacts where
  closedFiles : List ClosedFile
  nextActiveIndex : Nat
  deriving DecidableEq

/-- `{stem}.{index}.bin` -/
def segmentName (stem : Str) (index : Nat) : Str := stem ++ '.' :: (display index ++ binExt)

section Directory

variable (stem : Str) (files : List File)

def retainedSizes : Tallies :=
  files.foldl
    (fun sizes file =>
      match parseSegmentArtifact file.name stem with
      | some (.retained index) => sizes.add index file.size
      | _ => sizes)
    []

/-- What is left in the directory after `discover_existing`. -/
def unlinkStale : List File :=
  files.filter fun file => parseSegmentArtifact file.name stem ≠ some .active

def discoverExisting : Except String DiscoveredArtifacts :=
  let sizes := retainedSizes stem files
  let closedFiles := sizes.map fun entry => ⟨segmentName stem entry.1, entry.1, entry.2⟩
  match sizes.getLast? with
  | none => .ok ⟨closedFiles, 0⟩
  | some last =>
    if last.1 + 1 < 2 ^ 32 then .ok ⟨closedFiles, last.1 + 1⟩
    else .error "trace segment index overflow"

end Directory

def isFamily (fileName name : Str) : Bool :=
  name == fileName || (stripPrefix fileName name).any fun suffix => suffix.head? == some '.'

/-- What is left of the files after the family of a name is unlinked. -/
def removeSegmentFamily (fileName : Str) (files : List File) : List File :=
  files.filter fun file => !isFamily fileName file.name

/-- The families of some closed segments are unlinked, one after the other. -/
def evictAll (closed : List ClosedFile) (files : List File) : List File :=
  closed.foldl (fun files entry => removeSegmentFamily entry.fileName files) files

/-! ## Names -/

variable {stem name : Str} {index : Nat}

theorem goesOn_iff {suffix : Str} :
    goesOn suffix = true ↔ suffix = [] ∨ suffix.head? = some '.' := by
  rw [goesOn, Bool.or_eq_true, List.isEmpty_iff, beq_iff_eq]

theorem dot_notMem_of_parse {t : Str} (h : parseUnsigned 32 t = some index) : '.' ∉ t :=
  not_mem_of_parseUnsigned h (by decide) (by decide)

/-- A name of a retained file, taken apart. -/
structure Retains (stem name : Str) (index : Nat) (number suffix : Str) : Prop where
  text : name = stem ++ '.' :: (number ++ (binExt ++ suffix))
  parsed : parseUnsigned 32 number = some index
  goes : goesOn suffix = true
  notActive : suffix ≠ activeExt

/-- Up to the first dot both ways of reading a name agree. -/
theorem number_inj {number number' suffix suffix' : Str} (hdot : '.' ∉ number)
    (hdot' : '.' ∉ number')
    (h : number ++ (binExt ++ suffix) = number' ++ (binExt ++ suffix')) :
    number = number' ∧ suffix = suffix' := by
  have hcons : number ++ '.' :: (['b', 'i', 'n'] ++ suffix) =
      number' ++ '.' :: (['b', 'i', 'n'] ++ suffix') := h
  have hsplit := congrArg (splitOnce '.') hcons
  rw [splitOnce_append _ _ hdot, splitOnce_append _ _ hdot'] at hsplit
  rcases Prod.mk.inj (Option.some.inj hsplit) with ⟨hnumber, hrest⟩
  exact ⟨hnumber, List.append_cancel_left hrest⟩

theorem parse_eq {number suffix : Str} (hdot : '.' ∉ number) :
    parseSegmentArtifact (stem ++ '.' :: (number ++ (binExt ++ suffix))) stem =
      (parseUnsigned 32 number).bind fun index =>
        if suffix = activeExt then some .active
        else if goesOn suffix = true then some (.retained index) else none := by
  have hrest : (stripPrefix stem (stem ++ '.' :: (number ++ (binExt ++ suffix)))).bind
      (stripPrefix ['.']) = some (number ++ (binExt ++ suffix)) := by
    rw [stripPrefix_eq_some.mpr rfl, Option.bind_some, stripPrefix_eq_some]
    rfl
  have hsplit : splitOnceWord binExt (number ++ (binExt ++ suffix)) = some (number, suffix) :=
    splitOnceWord_append hdot
  have hactive : (stripSuffix (binExt ++ activeExt) (number ++ (binExt ++ suffix))).bind
      (parseUnsigned 32) = if suffix = activeExt then parseUnsigned 32 number else none := by
    by_cases hsuffix : suffix = activeExt
    · rw [if_pos hsuffix, hsuffix, stripSuffix_eq_some.mpr rfl, Option.bind_some]
    · rw [if_neg hsuffix]
      cases hstrip : stripSuffix (binExt ++ activeExt) (number ++ (binExt ++ suffix)) with
      | none => rfl
      | some number' =>
        rw [Option.bind_some]
        by_contra hsome
        rcases Option.ne_none_iff_exists'.mp hsome with ⟨index, hparse⟩
        have hdot' : '.' ∉ number' := dot_notMem_of_parse hparse
        exact hsuffix (number_inj hdot hdot' (stripSuffix_eq_some.mp hstrip)).2
  rw [parseSegmentArtifact, hrest, Option.bind_some, hactive, hsplit, Option.bind_some]
  cases parseUnsigned 32 number with
  | none => simp
  | some index =>
    by_cases hsuffix : suffix = activeExt
    · simp [hsuffix]
    · simp [hsuffix]

theorem parse_retained_iff :
    parseSegmentArtifact name stem = some (.retained index) ↔
      ∃ number suffix, Retains stem name index number suffix := by
  constructor
  · intro h
    have hparse := h
    rw [parseSegmentArtifact] at h
    rcases Option.bind_eq_some_iff.mp h with ⟨rest, hrest, hretained⟩
    rcases Option.bind_eq_some_iff.mp hrest with ⟨dotted, hstem, hdotted⟩
    split_ifs at hretained with hactive
    · cases hretained
    rcases Option.bind_eq_some_iff.mp hretained with ⟨⟨number, suffix⟩, hsplit, hnumber⟩
    dsimp only at hnumber
    split_ifs at hnumber with hgoes
    rcases Option.map_eq_some_iff.mp hnumber with ⟨index', hparsed, hindex⟩
    cases hindex
    have htext : name = stem ++ '.' :: (number ++ (binExt ++ suffix)) := by
      rw [stripPrefix_eq_some.mp hstem, stripPrefix_eq_some.mp hdotted,
        splitOnceWord_eq_some hsplit]
      rfl
    refine ⟨number, suffix, htext, hparsed, hgoes, fun hsuffix => ?_⟩
    rw [htext, parse_eq (dot_notMem_of_parse hparsed), hparsed, Option.bind_some, if_pos hsuffix]
      at hparse
    cases hparse
  · rintro ⟨number, suffix, htext, hparsed, hgoes, hactive⟩
    rw [htext, parse_eq (dot_notMem_of_parse hparsed), hparsed, Option.bind_some, if_neg hactive,
      if_pos hgoes]

theorem lt_of_parse (h : parseSegmentArtifact name stem = some (.retained index)) :
    index < 2 ^ 32 := by
  rcases parse_retained_iff.mp h with ⟨number, suffix, hretains⟩
  exact parseUnsigned_lt hretains.parsed

theorem isFamily_iff {fileName : Str} :
    isFamily fileName name = true ↔ ∃ suffix, goesOn suffix = true ∧ name = fileName ++ suffix := by
  rw [isFamily, Bool.or_eq_true, beq_iff_eq, Option.any_eq_true]
  constructor
  · rintro (rfl | ⟨suffix, hstrip, hdot⟩)
    · exact ⟨[], rfl, (List.append_nil _).symm⟩
    · exact ⟨suffix, goesOn_iff.mpr (.inr (beq_iff_eq.mp hdot)), stripPrefix_eq_some.mp hstrip⟩
  · rintro ⟨suffix, hgoes, rfl⟩
    rcases goesOn_iff.mp hgoes with rfl | hdot
    · exact .inl (List.append_nil _)
    · exact .inr ⟨suffix, stripPrefix_eq_some.mpr rfl, beq_iff_eq.mpr hdot⟩

theorem segmentName_append (stem : Str) (index : Nat) (suffix : Str) :
    segmentName stem index ++ suffix = stem ++ '.' :: (display index ++ (binExt ++ suffix)) := by
  rw [segmentName, List.append_assoc, List.cons_append, List.append_assoc]

theorem parse_of_isFamily (hindex : index < 2 ^ 32)
    (h : isFamily (segmentName stem index) name = true) :
    parseSegmentArtifact name stem = some (.retained index) ∨
      parseSegmentArtifact name stem = some .active := by
  rcases isFamily_iff.mp h with ⟨suffix, hgoes, rfl⟩
  rw [segmentName_append, parse_eq (not_mem_display (by decide)), parseUnsigned_display hindex,
    Option.bind_some, if_pos hgoes]
  by_cases hactive : suffix = activeExt
  · exact .inr (if_pos hactive)
  · exact .inl (if_neg hactive)

/-- The index is spelled as the writer spells it. -/
def Spelled (stem name : Str) : Prop :=
  ∀ index, parseSegmentArtifact name stem = some (.retained index) →
    segmentName stem index <+: name

theorem isFamily_of_spelled (hspelled : Spelled stem name)
    (h : parseSegmentArtifact name stem = some (.retained index)) :
    isFamily (segmentName stem index) name = true := by
  rcases hspelled index h with ⟨suffix, hname⟩
  rcases parse_retained_iff.mp h with ⟨number, suffix', hretains⟩
  have htext := hretains.text
  rw [← hname, segmentName_append] at htext
  have hrest := List.cons_inj_right _ |>.mp (List.append_cancel_left htext)
  have hsame := number_inj (not_mem_display (by decide)) (dot_notMem_of_parse hretains.parsed) hrest
  exact isFamily_iff.mpr ⟨suffix, hsame.2 ▸ hretains.goes, hname.symm⟩

/-! ## Sizes -/

section Sizes

variable (stem : Str)

/-- The index that a file is retained under. -/
def retainedIndex (file : File) : Option Nat :=
  match parseSegmentArtifact file.name stem with
  | some (.retained index) => some index
  | _ => none

/-- The size of what is retained under an index. -/
def bytesOf (index : Nat) (files : List File) : Nat :=
  ((files.filter fun file => retainedIndex stem file = some index).map File.size).sum

def retainedBytes (files : List File) : Nat :=
  ((files.filter fun file => (retainedIndex stem file).isSome).map File.size).sum

end Sizes

variable {file : File}

theorem retainedIndex_eq_some :
    retainedIndex stem file = some index ↔
      parseSegmentArtifact file.name stem = some (.retained index) := by
  rw [retainedIndex]
  cases parseSegmentArtifact file.name stem with
  | none => simp
  | some artifact => cases artifact <;> simp

theorem retainedSizes_concat (files : List File) (file : File) :
    retainedSizes stem (files ++ [file]) =
      match retainedIndex stem file with
      | some index => (retainedSizes stem files).add index file.size
      | none => retainedSizes stem files := by
  rw [retainedSizes, List.foldl_concat, retainedIndex]
  cases parseSegmentArtifact file.name stem with
  | none => rfl
  | some artifact => cases artifact <;> rfl

/-- What the tallies of some files say. -/
structure Counts (stem : Str) (sizes : Tallies) (files : List File) : Prop where
  sorted : sizes.Sorted
  keys : ∀ index, index ∈ sizes.map Prod.fst ↔ ∃ file ∈ files, retainedIndex stem file = some index
  sizes : ∀ index, sizes.sumAt index = bytesOf stem index files

theorem retainedSizes_counts (stem : Str) (files : List File) :
    Counts stem (retainedSizes stem files) files := by
  induction files using List.reverseRecOn with
  | nil => exact ⟨.nil, fun _ => by simp [retainedSizes], fun _ => rfl⟩
  | append_singleton files file ih =>
    rw [retainedSizes_concat]
    cases hindex : retainedIndex stem file with
    | none =>
      refine ⟨ih.sorted, fun index => ?_, fun index => ?_⟩
      · simp [ih.keys, hindex]
      · rw [ih.sizes, bytesOf, bytesOf, List.filter_append]
        simp [hindex]
    | some found =>
      refine ⟨ih.sorted.add found file.size, fun index => ?_, fun index => ?_⟩
      · simp only [Tallies.mem_keys_add, ih.keys, List.mem_append, List.mem_singleton,
          or_and_right, exists_or, exists_eq_left, hindex, Option.some_inj]
        rw [or_comm, eq_comm]
      · rw [Tallies.sumAt_add, ih.sizes, bytesOf, bytesOf, List.filter_append, List.map_append,
          List.sum_append]
        congr 1
        by_cases heq : index = found
        · simp [hindex, heq]
        · simp [hindex, heq, Ne.symm heq]

theorem sum_filter_or {p q : File → Bool} {files : List File}
    (h : ∀ file ∈ files, ¬ (p file = true ∧ q file = true)) :
    ((files.filter fun file => p file || q file).map File.size).sum =
      ((files.filter p).map File.size).sum + ((files.filter q).map File.size).sum := by
  induction files with
  | nil => rfl
  | cons file files ih =>
    have hrest := ih fun other hother => h other (List.mem_cons_of_mem file hother)
    have hfirst := h file List.mem_cons_self
    simp only [List.filter_cons]
    cases hp : p file with
    | true =>
      cases hq : q file with
      | true => exact absurd ⟨hp, hq⟩ hfirst
      | false => simp [hrest, Nat.add_assoc]
    | false =>
      cases hq : q file with
      | true => simp [hrest, Nat.add_left_comm]
      | false => simp [hrest]

theorem sum_bytesOf {indices : List Nat} (h : indices.Nodup) (files : List File) :
    (indices.map fun index => bytesOf stem index files).sum =
      ((files.filter fun file => indices.any fun index =>
        retainedIndex stem file = some index).map File.size).sum := by
  induction indices with
  | nil => simp
  | cons index indices ih =>
    rcases List.nodup_cons.mp h with ⟨hnew, hrest⟩
    simp only [List.map_cons, List.sum_cons, List.any_cons]
    rw [sum_filter_or, ih hrest, bytesOf]
    rintro file - ⟨hfirst, hlater⟩
    rcases List.any_eq_true.mp hlater with ⟨other, hother, heq⟩
    have hsame := (of_decide_eq_true hfirst).symm.trans (of_decide_eq_true heq)
    exact hnew (Option.some.inj hsame ▸ hother)

/-! ## What a writer finds and evicts -/

/-- One entry for each index, with the size of its family, which an eviction removes. -/
structure FamilyLaw (stem : Str) (files : List File) (found : DiscoveredArtifacts) : Prop where
  once : found.closedFiles.Pairwise fun a b => a.index < b.index
  entries : ∀ index, (∃ entry ∈ found.closedFiles, entry.index = index) ↔
    ∃ file ∈ files, parseSegmentArtifact file.name stem = some (.retained index)
  sizes : ∀ entry ∈ found.closedFiles, entry.size = bytesOf stem entry.index files
  next : ∀ file ∈ files, ∀ index,
    parseSegmentArtifact file.name stem = some (.retained index) → index < found.nextActiveIndex
  evicts : ∀ entry ∈ found.closedFiles,
    removeSegmentFamily entry.fileName (unlinkStale stem files) =
      (unlinkStale stem files).filter fun file =>
        parseSegmentArtifact file.name stem ≠ some (.retained entry.index)
  /-- What the writer accounts for is what is on disk, whichever it has evicted. -/
  accounted : ∀ evicted kept, found.closedFiles = evicted ++ kept →
    (kept.map ClosedFile.size).sum =
      retainedBytes stem (evictAll evicted (unlinkStale stem files))

/-- What a writer finds obeys the law, unless no index is left for the next segment. -/
def Lawful (stem : Str) (files : List File) : Prop :=
  match discoverExisting stem files with
  | .ok found => FamilyLaw stem files found
  | .error _ => ∃ file ∈ files, parseSegmentArtifact file.name stem = some (.retained (2 ^ 32 - 1))

section Law

variable {files : List File}

theorem mem_unlinkStale :
    file ∈ unlinkStale stem files ↔
      file ∈ files ∧ parseSegmentArtifact file.name stem ≠ some .active := by
  rw [unlinkStale, List.mem_filter, decide_eq_true_iff]

theorem bytesOf_unlinkStale (index : Nat) :
    bytesOf stem index (unlinkStale stem files) = bytesOf stem index files := by
  rw [bytesOf, bytesOf, unlinkStale, List.filter_filter]
  congr 2
  apply List.filter_congr
  intro file _
  rw [retainedIndex]
  cases parseSegmentArtifact file.name stem with
  | none => rfl
  | some artifact => cases artifact <;> simp

theorem isFamily_iff_retained (hspelled : ∀ file ∈ files, Spelled stem file.name)
    (hindex : index < 2 ^ 32) (hfile : file ∈ unlinkStale stem files) :
    isFamily (segmentName stem index) file.name = true ↔ retainedIndex stem file = some index := by
  rcases mem_unlinkStale.mp hfile with ⟨hmem, hactive⟩
  rw [retainedIndex_eq_some]
  constructor
  · intro hfamily
    rcases parse_of_isFamily hindex hfamily with hretained | hstale
    · exact hretained
    · exact absurd hstale hactive
  · exact isFamily_of_spelled (hspelled file hmem)

theorem evictAll_eq {evicted : List ClosedFile} (h : ∀ entry ∈ evicted, ∀ file ∈ files,
      isFamily entry.fileName file.name = true ↔ retainedIndex stem file = some entry.index) :
    evictAll evicted files = files.filter fun file =>
      !(evicted.map ClosedFile.index).any fun index => retainedIndex stem file = some index := by
  induction evicted generalizing files with
  | nil => simp [evictAll]
  | cons entry evicted ih =>
    rw [evictAll, List.foldl_cons]
    have hrest := @ih (removeSegmentFamily entry.fileName files) fun other hother file hfile =>
      h other (List.mem_cons_of_mem entry hother) file (List.mem_filter.mp hfile).1
    rw [evictAll] at hrest
    rw [hrest, removeSegmentFamily, List.filter_filter]
    apply List.filter_congr
    intro file hfile
    have hentry := h entry List.mem_cons_self file hfile
    rw [List.map_cons, List.any_cons, Bool.not_or, Bool.and_comm]
    congr 2
    rw [Bool.eq_iff_iff, hentry, decide_eq_true_iff]

variable {found : DiscoveredArtifacts}

theorem discoverExisting_ok (h : discoverExisting stem files = .ok found) :
    found.closedFiles = (retainedSizes stem files).map (fun entry =>
        ⟨segmentName stem entry.1, entry.1, entry.2⟩) ∧
      ∀ index ∈ (retainedSizes stem files).map Prod.fst, index < found.nextActiveIndex := by
  rw [discoverExisting] at h
  cases hlast : (retainedSizes stem files).getLast? with
  | none =>
    rw [hlast] at h
    cases h
    rw [List.getLast?_eq_none_iff.mp hlast]
    exact ⟨rfl, fun index hindex => absurd hindex List.not_mem_nil⟩
  | some last =>
    rw [hlast] at h
    dsimp only at h
    split_ifs at h with hroom
    cases h
    refine ⟨rfl, fun index hindex => ?_⟩
    exact Nat.lt_succ_of_le ((retainedSizes_counts stem files).sorted.le_last hlast hindex)

theorem discoverExisting_error {message : String}
    (h : discoverExisting stem files = .error message) :
    ∃ file ∈ files, parseSegmentArtifact file.name stem = some (.retained (2 ^ 32 - 1)) := by
  rw [discoverExisting] at h
  cases hlast : (retainedSizes stem files).getLast? with
  | none =>
    rw [hlast] at h
    cases h
  | some last =>
    rw [hlast] at h
    dsimp only at h
    split_ifs at h with hroom
    have hkey := List.mem_map_of_mem (f := Prod.fst) (List.mem_of_getLast? hlast)
    rcases ((retainedSizes_counts stem files).keys last.1).mp hkey with ⟨file, hfile, hindex⟩
    have hparse := retainedIndex_eq_some.mp hindex
    have hlt := lt_of_parse hparse
    obtain heq : last.1 = 2 ^ 32 - 1 := by omega
    exact ⟨file, hfile, heq ▸ hparse⟩

theorem exists_of_full (hfile : file ∈ files)
    (hfull : parseSegmentArtifact file.name stem = some (.retained (2 ^ 32 - 1))) :
    ∃ message, discoverExisting stem files = .error message := by
  have hkey := ((retainedSizes_counts stem files).keys _).mpr
    ⟨file, hfile, retainedIndex_eq_some.mpr hfull⟩
  rw [discoverExisting]
  cases hlast : (retainedSizes stem files).getLast? with
  | none =>
    rw [List.getLast?_eq_none_iff.mp hlast] at hkey
    exact absurd hkey List.not_mem_nil
  | some last =>
    have hle := (retainedSizes_counts stem files).sorted.le_last hlast hkey
    dsimp only
    rw [if_neg (by omega)]
    exact ⟨_, rfl⟩

theorem familyLaw_of_spelled (hspelled : ∀ file ∈ files, Spelled stem file.name)
    (h : discoverExisting stem files = .ok found) : FamilyLaw stem files found := by
  rcases discoverExisting_ok h with ⟨hclosed, hnext⟩
  have hcounts := retainedSizes_counts stem files
  have hindices :
      found.closedFiles.map ClosedFile.index = (retainedSizes stem files).map Prod.fst := by
    rw [hclosed, List.map_map]
    rfl
  have hentries : ∀ index, (∃ entry ∈ found.closedFiles, entry.index = index) ↔
      ∃ file ∈ files, retainedIndex stem file = some index := by
    intro index
    rw [← hcounts.keys, ← hindices, List.mem_map]
  have hname : ∀ entry ∈ found.closedFiles,
      entry.fileName = segmentName stem entry.index ∧ entry.index < 2 ^ 32 ∧
        entry.size = bytesOf stem entry.index files := by
    intro entry hentry
    rcases (hentries entry.index).mp ⟨entry, hentry, rfl⟩ with ⟨file, hfile, hindex⟩
    rw [hclosed] at hentry
    rcases List.mem_map.mp hentry with ⟨tally, htally, rfl⟩
    refine ⟨rfl, lt_of_parse (retainedIndex_eq_some.mp hindex), ?_⟩
    rw [← hcounts.sizes]
    exact (Tallies.sumAt_of_mem hcounts.sorted htally).symm
  have hfamily : ∀ entry ∈ found.closedFiles, ∀ file ∈ unlinkStale stem files,
      isFamily entry.fileName file.name = true ↔ retainedIndex stem file = some entry.index := by
    intro entry hentry file hfile
    rcases hname entry hentry with ⟨hfileName, hlt, -⟩
    rw [hfileName]
    exact isFamily_iff_retained hspelled hlt hfile
  constructor
  · have hsorted : (found.closedFiles.map ClosedFile.index).Pairwise fun a b => a < b := by
      rw [hindices]
      exact List.pairwise_map.mpr hcounts.sorted
    exact List.pairwise_map.mp hsorted
  · intro index
    rw [hentries]
    simp only [retainedIndex_eq_some]
  · exact fun entry hentry => (hname entry hentry).2.2
  · intro file hfile index hindex
    apply hnext
    rw [hcounts.keys]
    exact ⟨file, hfile, retainedIndex_eq_some.mpr hindex⟩
  · intro entry hentry
    apply List.filter_congr
    intro file hfile
    rw [Bool.eq_iff_iff, Bool.not_eq_true', decide_eq_true_iff, ← Bool.not_eq_true,
      hfamily entry hentry file hfile, retainedIndex_eq_some]
  · intro evicted kept happend
    have hmem : ∀ entry ∈ evicted, entry ∈ found.closedFiles := fun entry hentry =>
      happend ▸ List.mem_append_left kept hentry
    have hnodup : (evicted.map ClosedFile.index ++ kept.map ClosedFile.index).Nodup := by
      rw [← List.map_append, ← happend, hindices]
      exact hcounts.sorted.nodup_keys
    have hsizes : kept.map ClosedFile.size = (kept.map ClosedFile.index).map fun index =>
        bytesOf stem index (unlinkStale stem files) := by
      rw [List.map_map]
      apply List.map_congr_left
      intro entry hentry
      rw [Function.comp_apply, bytesOf_unlinkStale]
      exact (hname entry (happend ▸ List.mem_append_right evicted hentry)).2.2
    rw [evictAll_eq fun entry hentry => hfamily entry (hmem entry hentry), retainedBytes,
      List.filter_filter, hsizes, sum_bytesOf (List.nodup_append.mp hnodup).2.1]
    congr 2
    apply List.filter_congr
    intro file hfile
    cases hindex : retainedIndex stem file with
    | none => simp
    | some index =>
      have hlisted : index ∈ evicted.map ClosedFile.index ++ kept.map ClosedFile.index := by
        rw [← List.map_append, ← happend, hindices, hcounts.keys]
        exact ⟨file, (mem_unlinkStale.mp hfile).1, hindex⟩
      have hdisjoint := (List.nodup_append.mp hnodup).2.2
      rw [Bool.eq_iff_iff]
      simp only [Option.some_inj, List.any_eq_true, decide_eq_true_iff, Option.isSome_some,
        Bool.true_and, Bool.not_eq_true', List.any_eq_false, exists_eq_right']
      constructor
      · intro hkept other hother heq
        exact hdisjoint other hother index hkept heq.symm
      · intro hnone
        rcases List.mem_append.mp hlisted with hevicted | hkept
        · exact absurd rfl (hnone index hevicted)
        · exact hkept

/-- A writer's accounts agree with the disk exactly where every index is spelled as it spells it. -/
theorem lawful_iff (stem : Str) (files : List File) :
    Lawful stem files ↔
      (∃ file ∈ files, parseSegmentArtifact file.name stem = some (.retained (2 ^ 32 - 1))) ∨
        ∀ file ∈ files, Spelled stem file.name := by
  rw [Lawful]
  cases hfound : discoverExisting stem files with
  | error message =>
      exact iff_of_true (discoverExisting_error hfound) (.inl (discoverExisting_error hfound))
  | ok found =>
    constructor
    · intro hlaw
      right
      intro file hfile index hretained
      rcases (hlaw.entries index).mpr ⟨file, hfile, hretained⟩ with ⟨entry, hentry, rfl⟩
      have hleft : file ∈ unlinkStale stem files := by
        refine mem_unlinkStale.mpr ⟨hfile, fun hactive => ?_⟩
        rw [hretained] at hactive
        cases hactive
      have hgone : file ∉ removeSegmentFamily entry.fileName (unlinkStale stem files) := by
        rw [hlaw.evicts entry hentry, List.mem_filter, decide_eq_true_iff]
        exact fun hkept => hkept.2 hretained
      rw [removeSegmentFamily, List.mem_filter, Bool.not_eq_true', not_and,
        Bool.not_eq_false] at hgone
      rcases isFamily_iff.mp (hgone hleft) with ⟨suffix, -, hname⟩
      rw [(discoverExisting_ok hfound).1] at hentry
      rcases List.mem_map.mp hentry with ⟨tally, -, rfl⟩
      exact ⟨suffix, hname.symm⟩
    · rintro (⟨file, hfile, hfull⟩ | hspelled)
      · rcases exists_of_full hfile hfull with ⟨message, herror⟩
        rw [hfound] at herror
        cases herror
      · exact familyLaw_of_spelled hspelled hfound

/-- An index with zeros in front. -/
def padded : List File := [⟨"trace.007.bin".toList, 10⟩]

/-- The file is accounted for under index 7, and an eviction of index 7 leaves it. -/
theorem padded_unlawful : ¬ Lawful "trace".toList padded := by
  have hfound : discoverExisting "trace".toList padded =
      .ok ⟨[⟨segmentName "trace".toList 7, 7, 10⟩], 8⟩ := by rfl
  intro hlaw
  rw [Lawful, hfound] at hlaw
  have hevicts := hlaw.evicts _ List.mem_cons_self
  exact absurd hevicts (by decide)

end Law

end Dial9.Core.SegmentFamily
