/-
# Keys of the part files

A folded source file leaves four part files in the output store, each at a key
derived from the source key alone. The leaf is a hash of the source key; the
components above it are the output prefix, the format version, the source
bucket and, for samples and spans, the escaped scope fields. No component
contains a separator, so a key is known by its components, and the prefix that
lists the folded set of a bucket and a service selects the samples parts of
exactly that bucket and service.

The hash function is a parameter.
-/

import Dial9.Keys.Parser
import Mathlib.Data.List.DropRight

namespace Dial9.Lib.Str

variable {sep : Char}

/-- A text followed by a separator begins another exactly when its pieces begin
the other's pieces and are not all of them. -/
theorem startsWith_sep_iff (s t : Str) :
    s ++ [sep] <+: t ↔ s.splitOn sep <+: (t.splitOn sep).dropLast := by
  constructor
  · rintro ⟨rest, rfl⟩
    rw [List.append_assoc, List.singleton_append, splitOn_append_sep,
      List.dropLast_append_of_ne_nil (by simp)]
    exact List.prefix_append _ _
  · rintro ⟨pieces, hpieces⟩
    have hne : t.splitOn sep ≠ [] := by simp
    have hsplit : t.splitOn sep = s.splitOn sep ++ (pieces ++ [(t.splitOn sep).getLast hne]) := by
      rw [← List.append_assoc, hpieces]
      exact (List.dropLast_append_getLast hne).symm
    have ht := (@List.intercalate_splitOn _ t _ _ sep).symm
    rw [hsplit, intercalate_append (by simp) (by simp), List.intercalate_splitOn] at ht
    exact ⟨_, by rw [List.append_assoc, List.singleton_append]; exact ht.symm⟩

end Dial9.Lib.Str

namespace Dial9.Viewer.Aggregate

open Dial9.Lib Dial9.Keys.Viewer

/-- Storage-format version baked into the output key path. -/
def samplesFormatVersion : Nat := 11

def lowerHexDigit (nibble : UInt8) : Char := "0123456789abcdef".toList.getD nibble.toNat '0'

def toHex (bytes : List UInt8) : Str :=
  bytes.flatMap fun (byte : UInt8) => [lowerHexDigit (byte >>> 4), lowerHexDigit (byte &&& 0x0f)]

/-- `trim_end_matches('/')`. -/
def trimEnd (s : Str) : Str := s.rdropWhile (· = '/')

/-- Sanitize a bucket name for use as a path segment. -/
def bucketSegment (sourceBucket : Str) : Str :=
  sourceBucket.map fun c => if c = '/' then '_' else c

def versionedRoot (outputPrefix sourceBucket : Str) : Str :=
  trimEnd outputPrefix ++ "/v".toList ++ Str.display samplesFormatVersion ++
    "/bucket=".toList ++ bucketSegment sourceBucket

/-- The source bucket a source key came from, `local` for a bare key. -/
def parseSourceBucket (sourceKey : Str) : Str :=
  match sourceKey.dropPrefix? "s3://".toList with
  | some rest => ((Str.splitOnce '/' rest).map Prod.fst).getD rest
  | none => "local".toList

def fullSourceKey (sourceIsLocal : Bool) (sourceBucket key : Str) : Str :=
  if sourceIsLocal then key else "s3://".toList ++ sourceBucket ++ "/".toList ++ key

def samplesPrefix (outputPrefix sourceBucket : Str) : Str :=
  versionedRoot outputPrefix sourceBucket ++ "/samples/".toList

def foldedSetPrefix (outputPrefix sourceBucket : Str) : Option Str → Str
  | some service =>
    samplesPrefix outputPrefix sourceBucket ++ "service=".toList ++ hiveEscape service ++
      "/".toList
  | none => samplesPrefix outputPrefix sourceBucket

section

variable (blake3 : List UInt8 → List UInt8)

/-- The pseudo-random order of source files. -/
def orderKey (sourceKey : Str) : List UInt8 :=
  (blake3 ([1, 0, 0, 0] ++ Str.asBytes sourceKey)).take 16

/-- Content-addressed leaf name for a source file's part files. -/
def partLeafOf (sourceKey : Str) : Str := (toHex (blake3 (Str.asBytes sourceKey))).take 32

/-- A key under the scope fields, `none` where they are required and absent. -/
def scopedPartKey (directory outputPrefix sourceKey : Str) : Option Str :=
  (scopeFields sourceKey).map fun (date, service, host) =>
    versionedRoot outputPrefix (parseSourceBucket sourceKey) ++ "/".toList ++ directory ++
      "/service=".toList ++ hiveEscape service ++ "/date=".toList ++ hiveEscape date ++
      "/host=".toList ++ hiveEscape host ++ "/".toList ++ partLeafOf blake3 sourceKey ++
      ".parquet".toList

def flatPartKey (directory outputPrefix sourceKey : Str) : Str :=
  versionedRoot outputPrefix (parseSourceBucket sourceKey) ++ "/".toList ++ directory ++
    "/".toList ++ partLeafOf blake3 sourceKey ++ ".parquet".toList

def samplesPartKey (outputPrefix sourceKey : Str) : Option Str :=
  scopedPartKey blake3 "samples".toList outputPrefix sourceKey

def dictPartKey (outputPrefix sourceKey : Str) : Str :=
  flatPartKey blake3 "dict/stacks".toList outputPrefix sourceKey

def pollsPartKey (outputPrefix sourceKey : Str) : Str :=
  flatPartKey blake3 "polls".toList outputPrefix sourceKey

def spansPartKey (outputPrefix sourceKey : Str) : Option Str :=
  scopedPartKey blake3 "spans".toList outputPrefix sourceKey

end

/-- The four part files of a source file. -/
inductive Part where
  | samples
  | dict
  | polls
  | spans
  deriving DecidableEq, Repr

def partKey (blake3 : List UInt8 → List UInt8) (outputPrefix sourceKey : Str) :
    Part → Option Str
  | .samples => samplesPartKey blake3 outputPrefix sourceKey
  | .dict => some (dictPartKey blake3 outputPrefix sourceKey)
  | .polls => some (pollsPartKey blake3 outputPrefix sourceKey)
  | .spans => spansPartKey blake3 outputPrefix sourceKey

/-! ## The components of a key -/

variable {parts : List Str}

variable {part : Part}

variable {sourceKey outputPrefix bucket key sourceBucket : Str}

section

variable {blake3 : List UInt8 → List UInt8}

theorem lowerHexDigit_ne_slash (nibble : UInt8) : lowerHexDigit nibble ≠ '/' := by
  unfold lowerHexDigit
  rw [List.getD_eq_getElem?_getD]
  cases hget : ("0123456789abcdef".toList)[nibble.toNat]? with
  | none => decide
  | some c =>
    have hmem : c ∈ "0123456789abcdef".toList := List.mem_of_getElem? hget
    rintro rfl
    revert hmem
    decide

theorem slash_notMem_partLeafOf (sourceKey : Str) : '/' ∉ partLeafOf blake3 sourceKey := by
  intro hmem
  have hhex := List.mem_of_mem_take hmem
  rcases List.mem_flatMap.mp hhex with ⟨byte, -, hdigit⟩
  simp only [List.mem_cons, List.not_mem_nil, or_false] at hdigit
  rcases hdigit with h | h
  · exact lowerHexDigit_ne_slash _ h.symm
  · exact lowerHexDigit_ne_slash _ h.symm

theorem slash_notMem_bucketSegment (bucket : Str) : '/' ∉ bucketSegment bucket := by
  intro hmem
  rcases List.mem_map.mp hmem with ⟨c, -, hc⟩
  split at hc
  · simp at hc
  · next hne => exact hne hc

theorem bucketSegment_eq_self (h : '/' ∉ bucket) : bucketSegment bucket = bucket := by
  unfold bucketSegment
  conv_rhs => rw [← List.map_id bucket]
  apply List.map_congr_left
  intro c hc
  have hne : c ≠ '/' := fun heq => h (heq ▸ hc)
  simp [hne]

theorem slash_notMem_parseSourceBucket (sourceKey : Str) : '/' ∉ parseSourceBucket sourceKey := by
  unfold parseSourceBucket
  split
  · next rest hrest =>
      by_cases hslash : '/' ∈ rest
      · rcases List.eq_append_cons_of_mem hslash with ⟨bucket, path, rfl, hbucket⟩
        rw [Str.splitOnce_append bucket path hbucket]
        exact hbucket
      · rw [Str.splitOnce_eq_none rest hslash]
        exact hslash
  · decide

/-- The components above the directory of a part. -/
def rootParts (outputPrefix sourceBucket : Str) : List Str :=
  (trimEnd outputPrefix).splitOn '/' ++
    ["v11".toList, "bucket=".toList ++ bucketSegment sourceBucket]

/-- The components below the root, under the scope fields. -/
def scopedParts (blake3 : List UInt8 → List UInt8) (directory sourceKey : Str) :
    Option (List Str) :=
  (scopeFields sourceKey).map fun (date, service, host) =>
    [directory, "service=".toList ++ hiveEscape service, "date=".toList ++ hiveEscape date,
      "host=".toList ++ hiveEscape host, partLeafOf blake3 sourceKey ++ ".parquet".toList]

/-- The components of a part below the root. -/
def partParts (blake3 : List UInt8 → List UInt8) (sourceKey : Str) : Part → Option (List Str)
  | .samples => scopedParts blake3 "samples".toList sourceKey
  | .dict =>
    some ["dict".toList, "stacks".toList, partLeafOf blake3 sourceKey ++ ".parquet".toList]
  | .polls => some ["polls".toList, partLeafOf blake3 sourceKey ++ ".parquet".toList]
  | .spans => scopedParts blake3 "spans".toList sourceKey

theorem versionedRoot_splitOn (outputPrefix sourceBucket rest : Str) :
    (versionedRoot outputPrefix sourceBucket ++ '/' :: rest).splitOn '/' =
      rootParts outputPrefix sourceBucket ++ rest.splitOn '/' := by
  have hkey : versionedRoot outputPrefix sourceBucket ++ '/' :: rest =
      trimEnd outputPrefix ++ '/' :: ("v11".toList ++ '/' ::
        ("bucket=".toList ++ bucketSegment sourceBucket ++ '/' :: rest)) := by
    simp [versionedRoot, show Str.display samplesFormatVersion = "11".toList from rfl]
  have hbucket : '/' ∉ "bucket=".toList ++ bucketSegment sourceBucket := by
    simp [slash_notMem_bucketSegment]
  rw [hkey, Str.splitOn_append_sep, Str.splitOn_append_sep, Str.splitOn_append_sep,
    List.splitOn_eq_singleton hbucket,
    List.splitOn_eq_singleton (show '/' ∉ "v11".toList by decide), rootParts,
    List.append_assoc]
  rfl

theorem leaf_splitOn (sourceKey : Str) :
    (partLeafOf blake3 sourceKey ++ ".parquet".toList).splitOn '/' =
      [partLeafOf blake3 sourceKey ++ ".parquet".toList] := by
  apply List.splitOn_eq_singleton
  simp [slash_notMem_partLeafOf]

theorem partition_splitOn (name value rest : Str) (hname : '/' ∉ name) :
    (name ++ hiveEscape value ++ '/' :: rest).splitOn '/' =
      (name ++ hiveEscape value) :: rest.splitOn '/' := by
  have hpiece : '/' ∉ name ++ hiveEscape value := by
    simp [hname, not_slash_mem_hiveEscape]
  rw [Str.splitOn_append_sep, List.splitOn_eq_singleton hpiece]
  rfl

theorem scopedPartKey_splitOn {directory outputPrefix sourceKey key : Str}
    (hdirectory : '/' ∉ directory)
    (h : scopedPartKey blake3 directory outputPrefix sourceKey = some key) :
    ∃ parts, scopedParts blake3 directory sourceKey = some parts ∧
      key.splitOn '/' = rootParts outputPrefix (parseSourceBucket sourceKey) ++ parts := by
  rcases Option.map_eq_some_iff.mp h with ⟨⟨date, service, host⟩, hfields, hkey⟩
  refine ⟨_, by rw [scopedParts, hfields, Option.map_some], ?_⟩
  have hassoc : key = versionedRoot outputPrefix (parseSourceBucket sourceKey) ++ '/' ::
      (directory ++ '/' :: ("service=".toList ++ hiveEscape service ++ '/' ::
        ("date=".toList ++ hiveEscape date ++ '/' :: ("host=".toList ++ hiveEscape host ++ '/' ::
          (partLeafOf blake3 sourceKey ++ ".parquet".toList))))) := by
    rw [← hkey]
    simp
  rw [hassoc, versionedRoot_splitOn, Str.splitOn_append_sep, List.splitOn_eq_singleton hdirectory,
    partition_splitOn _ _ _ (by decide), partition_splitOn _ _ _ (by decide),
    partition_splitOn _ _ _ (by decide), leaf_splitOn]
  rfl

theorem flatPartKey_splitOn (directory outputPrefix sourceKey : Str) :
    (flatPartKey blake3 directory outputPrefix sourceKey).splitOn '/' =
      rootParts outputPrefix (parseSourceBucket sourceKey) ++ (directory.splitOn '/' ++
        [partLeafOf blake3 sourceKey ++ ".parquet".toList]) := by
  have hassoc : flatPartKey blake3 directory outputPrefix sourceKey =
      versionedRoot outputPrefix (parseSourceBucket sourceKey) ++ '/' ::
        (directory ++ '/' :: (partLeafOf blake3 sourceKey ++ ".parquet".toList)) := by
    simp [flatPartKey]
  rw [hassoc, versionedRoot_splitOn, Str.splitOn_append_sep, leaf_splitOn]

/-- A part key is the root of its bucket and the components of the part. -/
theorem partKey_splitOn (h : partKey blake3 outputPrefix sourceKey part = some key) :
    ∃ parts, partParts blake3 sourceKey part = some parts ∧
      key.splitOn '/' = rootParts outputPrefix (parseSourceBucket sourceKey) ++ parts := by
  cases part with
  | samples | spans => exact scopedPartKey_splitOn (by decide) h
  | dict | polls =>
    cases h
    exact ⟨_, rfl, flatPartKey_splitOn _ _ _⟩

theorem slash_notMem_partParts
    (h : partParts blake3 sourceKey part = some parts) : ∀ piece ∈ parts, '/' ∉ piece := by
  have hscoped : ∀ directory, '/' ∉ directory →
      scopedParts blake3 directory sourceKey = some parts → ∀ piece ∈ parts, '/' ∉ piece := by
    intro directory hdirectory hparts
    rcases Option.map_eq_some_iff.mp hparts with ⟨⟨date, service, host⟩, -, rfl⟩
    simp [hdirectory, not_slash_mem_hiveEscape, slash_notMem_partLeafOf]
  cases part with
  | samples | spans => exact hscoped _ (by decide) h
  | dict | polls =>
    cases h
    simp [slash_notMem_partLeafOf]

/-- The directory of each part. -/
def Part.directory : Part → Str
  | .samples => "samples".toList
  | .dict => "dict".toList
  | .polls => "polls".toList
  | .spans => "spans".toList

theorem Part.directory_injective : Function.Injective Part.directory := by
  intro a b h
  cases a <;> cases b <;> first | rfl | exact absurd h (by decide)

theorem partParts_ends (h : partParts blake3 sourceKey part = some parts) :
    ∃ middle, parts = part.directory :: (middle ++
      [partLeafOf blake3 sourceKey ++ ".parquet".toList]) := by
  have hscoped : ∀ directory, scopedParts blake3 directory sourceKey = some parts →
      ∃ middle, parts = directory :: (middle ++
        [partLeafOf blake3 sourceKey ++ ".parquet".toList]) := by
    intro directory hparts
    rcases Option.map_eq_some_iff.mp hparts with ⟨⟨date, service, host⟩, -, rfl⟩
    exact ⟨[_, _, _], rfl⟩
  cases part with
  | samples | spans => exact hscoped _ h
  | dict =>
    cases h
    exact ⟨["stacks".toList], rfl⟩
  | polls =>
    cases h
    exact ⟨[], rfl⟩

theorem partParts_inj {sourceKey sourceKey' : Str} {part part' : Part}
    (h : partParts blake3 sourceKey part = some parts)
    (h' : partParts blake3 sourceKey' part' = some parts) :
    part = part' ∧ partLeafOf blake3 sourceKey = partLeafOf blake3 sourceKey' := by
  rcases partParts_ends h with ⟨middle, hparts⟩
  rcases partParts_ends h' with ⟨middle', hparts'⟩
  rw [hparts] at hparts'
  have hcons := List.cons.inj hparts'
  have hleaf := (List.append_inj' hcons.2 rfl).2
  exact ⟨Part.directory_injective hcons.1,
    List.append_cancel_right (List.singleton_inj.mp hleaf)⟩

/-! ## The listing prefix -/

/-- The service of a source key. -/
def serviceOf (sourceKey : Str) : Option Str := (scopeFields sourceKey).map fun fields => fields.2.1

/-- The components of the listing prefix. -/
def foldedSetParts (outputPrefix sourceBucket : Str) (service : Option Str) : List Str :=
  rootParts outputPrefix sourceBucket ++ "samples".toList ::
    (service.map fun service => "service=".toList ++ hiveEscape service).toList

theorem foldedSetPrefix_splitOn (outputPrefix sourceBucket : Str) (service : Option Str) :
    ∃ text, foldedSetPrefix outputPrefix sourceBucket service = text ++ ['/'] ∧
      text.splitOn '/' = foldedSetParts outputPrefix sourceBucket service := by
  cases service with
  | none =>
    refine ⟨versionedRoot outputPrefix sourceBucket ++ '/' :: "samples".toList, ?_, ?_⟩
    · simp [foldedSetPrefix, samplesPrefix]
    · rw [versionedRoot_splitOn, List.splitOn_eq_singleton (by decide)]
      rfl
  | some service =>
    have hpiece : '/' ∉ "service=".toList ++ hiveEscape service := by
      simp [not_slash_mem_hiveEscape]
    refine ⟨versionedRoot outputPrefix sourceBucket ++ '/' :: ("samples".toList ++ '/' ::
      ("service=".toList ++ hiveEscape service)), ?_, ?_⟩
    · simp [foldedSetPrefix, samplesPrefix]
    · rw [versionedRoot_splitOn, Str.splitOn_append_sep, List.splitOn_eq_singleton hpiece,
        List.splitOn_eq_singleton (show '/' ∉ "samples".toList by decide)]
      rfl

theorem length_rootParts (outputPrefix bucket bucket' : Str) :
    (rootParts outputPrefix bucket).length = (rootParts outputPrefix bucket').length := by
  simp [rootParts]

theorem rootParts_inj {outputPrefix bucket bucket' : Str}
    (h : rootParts outputPrefix bucket = rootParts outputPrefix bucket') :
    bucketSegment bucket = bucketSegment bucket' := by
  have htail := List.append_cancel_left h
  simpa using htail

theorem append_startsWith_iff {front front' back back' : List Str}
    (hlength : front.length = front'.length) :
    front ++ back <+: front' ++ back' ↔ front = front' ∧ back <+: back' := by
  constructor
  · rintro ⟨rest, h⟩
    rw [List.append_assoc] at h
    have hparts := List.append_inj h hlength
    exact ⟨hparts.1, rest, hparts.2⟩
  · rintro ⟨rfl, rest, rfl⟩
    exact ⟨rest, by rw [List.append_assoc]⟩

theorem rootParts_eq_iff (hbucket : '/' ∉ sourceBucket) :
    rootParts outputPrefix sourceBucket = rootParts outputPrefix (parseSourceBucket sourceKey) ↔
      parseSourceBucket sourceKey = sourceBucket := by
  constructor
  · intro h
    have hsegment := rootParts_inj h
    rw [bucketSegment_eq_self hbucket,
      bucketSegment_eq_self (slash_notMem_parseSourceBucket sourceKey)] at hsegment
    exact hsegment.symm
  · rintro rfl
    rfl

/-- The first component below the samples directory is the service's. -/
theorem samplesParts_service {sourceKey last : Str} {middle : List Str}
    (h : partParts blake3 sourceKey .samples =
      some (Part.samples.directory :: (middle ++ [last]))) :
    ∃ service rest, serviceOf sourceKey = some service ∧
      middle = ("service=".toList ++ hiveEscape service) :: rest := by
  rcases Option.map_eq_some_iff.mp h with ⟨⟨date, service, host⟩, hfields, hshape⟩
  have htail : ["service=".toList ++ hiveEscape service, "date=".toList ++ hiveEscape date,
      "host=".toList ++ hiveEscape host] ++
        [partLeafOf blake3 sourceKey ++ ".parquet".toList] = middle ++ [last] :=
    (List.cons.inj hshape).2
  exact ⟨service, _, by rw [serviceOf, hfields]; rfl, (List.append_inj' htail rfl).1.symm⟩

/-- The prefix of a bucket and a service selects the samples parts of that
bucket and service. -/
theorem foldedSetParts_iff {service : Option Str}
    (hbucket : '/' ∉ sourceBucket) (h : partParts blake3 sourceKey part = some parts) :
    foldedSetParts outputPrefix sourceBucket service <+:
        (rootParts outputPrefix (parseSourceBucket sourceKey) ++ parts).dropLast ↔
      part = .samples ∧ parseSourceBucket sourceKey = sourceBucket ∧
        ∀ name, service = some name → serviceOf sourceKey = some name := by
  rcases partParts_ends h with ⟨middle, hparts⟩
  have hdrop : (rootParts outputPrefix (parseSourceBucket sourceKey) ++ parts).dropLast =
      rootParts outputPrefix (parseSourceBucket sourceKey) ++ part.directory :: middle := by
    rw [hparts, List.dropLast_append_of_ne_nil (by simp),
      List.dropLast_cons_of_ne_nil (by simp), List.dropLast_concat]
  have hdirectory : "samples".toList = part.directory ↔ part = .samples :=
    ⟨fun heq => (@Part.directory_injective .samples part heq).symm, fun heq => heq ▸ rfl⟩
  rw [hdrop, foldedSetParts, append_startsWith_iff (length_rootParts _ _ _),
    rootParts_eq_iff hbucket, List.cons_prefix_cons, hdirectory, and_left_comm]
  apply and_congr_right
  rintro rfl
  apply and_congr_right'
  rcases samplesParts_service (hparts ▸ h) with ⟨found, rest, hfound, rfl⟩
  cases service with
  | none => simp
  | some name =>
    have hname : ["service=".toList ++ hiveEscape name] <+:
        ("service=".toList ++ hiveEscape found) :: rest ↔ name = found := by
      rw [List.cons_prefix_cons, and_iff_left List.nil_prefix, List.append_cancel_left_eq]
      exact hiveEscape_injective.eq_iff
    simp only [Option.map_some, Option.toList_some, Option.some.injEq, forall_eq']
    rw [hname, hfound, Option.some.injEq]
    exact eq_comm

end

end Dial9.Viewer.Aggregate
