/-
# The claim set of the disk backend

`DiskFs` hands out sealed files by scanning their directory, and remembers the
indices it has handed out in a claim set, so that the next scan skips them. A
scan is three steps: the directory listing, the reading of the claim set, and
the locked region that records the new claims. Between them the writer may
evict a file, which unlinks it first and drops its claim afterwards. A segment
that loses both after the listing looks new to the scan and is handed out
again. This module says when that does not happen.
-/

import Dial9.Lib.Run
import Mathlib.Data.List.Nodup

namespace Dial9.Core

open Dial9.Lib

/-- `DiskFs`: claimed indices with their sizes, and evictions not yet reported. -/
structure DiskFs where
  claimed : List (Nat × Nat)
  dropped : Nat
  deriving DecidableEq

variable {index i : Nat}

variable {onDisk segments : List Nat}

namespace DiskFs

def new : DiskFs := ⟨[], 0⟩

def claimedIndices (fs : DiskFs) : List Nat := fs.claimed.map Prod.fst

/-- `claimed.remove(&index)`: `release_claim`, and the locked region of `remove_sealed`. -/
def unclaim (fs : DiskFs) (index : Nat) : DiskFs :=
  { fs with claimed := fs.claimed.filter fun claim => claim.1 != index }

/-- `claimed.insert(index, size)`. -/
def claim (fs : DiskFs) (index size : Nat) : DiskFs :=
  { fs with claimed := (index, size) :: (fs.unclaim index).claimed }

/-- The listed segments a scan takes for new. -/
def newSegments (onDisk alreadyClaimed : List Nat) : List Nat :=
  onDisk.filter fun index => !alreadyClaimed.contains index

/-- The last locked region of `take_files`: claims without a listed file go,
this scan's claims come, and the eviction count is handed over. -/
def recordClaims (fs : DiskFs) (onDisk segments : List Nat) (sizeOf : Nat → Nat) : DiskFs :=
  segments.foldl (fun fs index => fs.claim index (sizeOf index))
    { claimed := fs.claimed.filter fun claim => onDisk.contains claim.1, dropped := 0 }

variable {fs : DiskFs}

theorem mem_unclaim {index i : Nat} :
    i ∈ (fs.unclaim index).claimedIndices ↔ i ∈ fs.claimedIndices ∧ i ≠ index := by
  simp only [claimedIndices, unclaim, List.mem_map, List.mem_filter, bne_iff_ne]
  constructor
  · rintro ⟨claim, ⟨hmem, hne⟩, rfl⟩
    exact ⟨⟨claim, hmem, rfl⟩, hne⟩
  · rintro ⟨⟨claim, hmem, rfl⟩, hne⟩
    exact ⟨claim, ⟨hmem, hne⟩, rfl⟩

theorem mem_claim {index size i : Nat} :
    i ∈ (fs.claim index size).claimedIndices ↔ i = index ∨ i ∈ fs.claimedIndices := by
  have hunclaim := @mem_unclaim fs index i
  simp only [claimedIndices, claim, List.map_cons, List.mem_cons] at hunclaim ⊢
  rw [hunclaim]
  tauto

theorem mem_recordClaims {sizeOf : Nat → Nat} :
    i ∈ (fs.recordClaims onDisk segments sizeOf).claimedIndices ↔
      i ∈ segments ∨ (i ∈ fs.claimedIndices ∧ i ∈ onDisk) := by
  have hfold : ∀ fs' : DiskFs,
      i ∈ (segments.foldl (fun fs index => fs.claim index (sizeOf index)) fs').claimedIndices ↔
        i ∈ segments ∨ i ∈ fs'.claimedIndices := by
    induction segments with
    | nil => simp
    | cons index segments ih =>
      intro fs'
      rw [List.foldl_cons, ih, mem_claim, List.mem_cons]
      tauto
  rw [recordClaims, hfold]
  simp [claimedIndices]

theorem mem_newSegments {onDisk alreadyClaimed : List Nat} :
    i ∈ newSegments onDisk alreadyClaimed ↔ i ∈ onDisk ∧ i ∉ alreadyClaimed := by
  simp [newSegments]

end DiskFs

/-! ## Scans, removals and releases interleaved -/

/-- Where a `take_files` call is: not running, after its directory listing, or
after it has read the claim set and chosen its segments. -/
inductive Scan
  | idle
  | listed (onDisk : List Nat)
  | chosen (onDisk segments : List Nat)
  deriving DecidableEq

/-- What happened to a segment, for the record. -/
inductive Mark
  | dispatched (index : Nat)
  | removed (index : Nat)
  deriving DecidableEq

structure DiskSystem where
  fs : DiskFs
  /-- Sealed files in the directory, by index. -/
  files : List Nat
  sealed : List Nat
  scan : Scan
  /-- Removals that have unlinked their file and not yet dropped the claim. -/
  removing : List Nat
  /-- Dispatches the worker has not settled or released. -/
  outstanding : List Nat
  /-- Newest first. -/
  history : List Mark

/-- One lock region, directory listing or unlink. `evicting` tells the writer's
backpressure from the worker's cleanup. -/
inductive DiskEvent
  | sealSegment (index : Nat)
  | list
  | listFailed
  | readClaims
  | recordClaims (sizeOf : Nat → Nat)
  | unlink (index : Nat)
  | dropClaim (index : Nat) (evicting : Bool)
  | release (index : Nat)
  | settle (index : Nat)

variable {s : DiskSystem}

namespace DiskSystem

def new : DiskSystem := ⟨.new, [], [], .idle, [], [], []⟩

def step (s : DiskSystem) : DiskEvent → Option DiskSystem
  | .sealSegment index =>
    if s.sealed.all fun i => i < index then
      some { s with files := s.files ++ [index], sealed := index :: s.sealed }
    else none
  | .list =>
    match s.scan with
    | .idle => some { s with scan := .listed s.files }
    | _ => none
  | .listFailed =>
    match s.scan with
    | .idle => some { s with fs := { s.fs with dropped := 0 } }
    | _ => none
  | .readClaims =>
    match s.scan with
    | .listed onDisk =>
      some { s with scan := .chosen onDisk (DiskFs.newSegments onDisk s.fs.claimedIndices) }
    | _ => none
  | .recordClaims sizeOf =>
    match s.scan with
    | .chosen onDisk segments =>
      some { s with
        fs := s.fs.recordClaims onDisk segments sizeOf
        scan := .idle
        outstanding := segments ++ s.outstanding
        history := segments.map .dispatched ++ s.history }
    | _ => none
  | .unlink index =>
    if index ∈ s.sealed then
      some { s with
        files := s.files.erase index
        removing := index :: s.removing
        history := if index ∈ s.files then .removed index :: s.history else s.history }
    else none
  | .dropClaim index evicting =>
    if index ∈ s.removing then
      some { s with
        fs := { s.fs.unclaim index with dropped := s.fs.dropped + if evicting then 1 else 0 }
        removing := s.removing.erase index }
    else none
  | .release index =>
    if index ∈ s.outstanding then
      some { s with fs := s.fs.unclaim index, outstanding := s.outstanding.erase index }
    else none
  | .settle index =>
    if index ∈ s.outstanding then some { s with outstanding := s.outstanding.erase index }
    else none

/-- A segment dispatched and then removed is not dispatched again. -/
def NoRedispatch (history : List Mark) : Prop :=
  ∀ later earlier index, history = later ++ .removed index :: earlier →
    .dispatched index ∈ earlier → .dispatched index ∉ later

/-- The segment was handed out before. -/
def WasDispatched (s : DiskSystem) (index : Nat) : Prop := .dispatched index ∈ s.history

/-- No step takes the file or the claim of a segment dispatched before away from
a scan that has listed it and would then take it for new: between the listing
and the reading of the claim set the last of file and claim, and after that the
file of a chosen segment. -/
def Unraced (s : DiskSystem) : DiskEvent → Prop
  | .unlink index =>
    (∀ onDisk, s.scan = .listed onDisk → index ∈ onDisk → s.WasDispatched index →
      index ∈ s.fs.claimedIndices) ∧
    ∀ onDisk segments, s.scan = .chosen onDisk segments → index ∈ segments →
      ¬ s.WasDispatched index
  | .dropClaim index _ | .release index =>
    ∀ onDisk, s.scan = .listed onDisk → index ∈ onDisk → s.WasDispatched index →
      index ∈ s.files
  | _ => True

/-! ## The invariant -/

/-- What a scan in progress may rely on. -/
def ScanInv (s : DiskSystem) : Prop :=
  match s.scan with
  | .idle => True
  | .listed onDisk =>
    onDisk.Nodup ∧ (∀ i ∈ onDisk, i ∈ s.sealed) ∧
      (∀ i ∈ s.files, s.WasDispatched i → i ∈ onDisk) ∧
      ∀ i ∈ onDisk, s.WasDispatched i → i ∈ s.files ∨ i ∈ s.fs.claimedIndices
  | .chosen onDisk segments =>
    segments.Nodup ∧ (∀ i ∈ segments, i ∈ s.sealed) ∧
      (∀ i ∈ s.files, s.WasDispatched i → i ∈ onDisk) ∧
      ∀ i ∈ segments, i ∉ s.outstanding ∧ (s.WasDispatched i → i ∈ s.files)

structure Inv (s : DiskSystem) : Prop where
  filesSealed : ∀ i ∈ s.files, i ∈ s.sealed
  filesNodup : s.files.Nodup
  removingGone : ∀ i ∈ s.removing, i ∉ s.files ∧ i ∈ s.sealed
  removedGone : ∀ i, .removed i ∈ s.history → i ∉ s.files ∧ i ∈ s.sealed
  dispatchedSealed : ∀ i, s.WasDispatched i → i ∈ s.sealed
  outstandingDispatched : ∀ i ∈ s.outstanding, s.WasDispatched i
  outstandingNodup : s.outstanding.Nodup
  claimedOrGone : ∀ i ∈ s.outstanding, i ∈ s.fs.claimedIndices ∨ i ∉ s.files
  noRedispatch : NoRedispatch s.history
  scanInv : s.ScanInv

theorem noRedispatch_nil : NoRedispatch [] := by
  intro later earlier index h
  simp at h

theorem NoRedispatch.removed {history : List Mark} (h : NoRedispatch history) (index : Nat) :
    NoRedispatch (.removed index :: history) := by
  intro later earlier i hsplit hearlier
  cases later with
  | nil => simp
  | cons mark later =>
    rw [List.cons_append, List.cons.injEq] at hsplit
    rcases hsplit with ⟨rfl, hsplit⟩
    have hold := h later earlier i hsplit hearlier
    simp [hold]

theorem NoRedispatch.dispatched {history : List Mark} (h : NoRedispatch history)
    (hsegments : ∀ i ∈ segments, .removed i ∈ history → .dispatched i ∉ history) :
    NoRedispatch (segments.map .dispatched ++ history) := by
  intro later earlier i hsplit hearlier
  rcases List.append_eq_append_iff.mp hsplit with ⟨between, rfl, hhistory⟩ | ⟨between, hmap, hrest⟩
  · have hremoved : .removed i ∈ history := by simp [hhistory]
    have hdispatched : .dispatched i ∈ history := by simp [hhistory, hearlier]
    rw [List.mem_append, not_or]
    constructor
    · intro hmem
      rcases List.mem_map.mp hmem with ⟨j, hj, heq⟩
      obtain rfl : j = i := Mark.dispatched.inj heq
      exact hsegments j hj hremoved hdispatched
    · exact h between earlier i hhistory hearlier
  · cases between with
    | nil =>
      rw [List.nil_append] at hrest
      rw [List.append_nil] at hmap
      have hremoved : .removed i ∈ history := by simp [← hrest]
      have hdispatched : .dispatched i ∈ history := by simp [← hrest, hearlier]
      rw [← hmap]
      intro hmem
      rcases List.mem_map.mp hmem with ⟨j, hj, heq⟩
      obtain rfl : j = i := Mark.dispatched.inj heq
      exact hsegments j hj hremoved hdispatched
    | cons mark between =>
      rw [List.cons_append, List.cons.injEq] at hrest
      have hmark : Mark.removed i ∈ segments.map Mark.dispatched := by
        rw [hmap, ← hrest.1]
        simp
      simp at hmark

theorem inv_new : Inv new where
  filesSealed := by simp [new]
  filesNodup := by simp [new]
  removingGone := by simp [new]
  removedGone := by simp [new]
  dispatchedSealed := by simp [new, WasDispatched]
  outstandingDispatched := by simp [new]
  outstandingNodup := by simp [new]
  claimedOrGone := by simp [new]
  noRedispatch := noRedispatch_nil
  scanInv := trivial

section

variable (h : Inv s)
include h

theorem inv_sealSegment (hnew : index ∉ s.sealed) :
    Inv { s with files := s.files ++ [index], sealed := index :: s.sealed } where
  filesSealed := by
    intro i hi
    rcases List.mem_append.mp hi with hi | hi
    · exact List.mem_cons_of_mem _ (h.filesSealed i hi)
    · simp [List.mem_singleton.mp hi]
  filesNodup := by
    have hfresh : index ∉ s.files := fun hi => hnew (h.filesSealed index hi)
    simp [List.nodup_append, h.filesNodup]
    rintro i hi rfl
    exact hfresh hi
  removingGone := by
    intro i hi
    rcases h.removingGone i hi with ⟨hgone, hsealed⟩
    have hne : i ≠ index := by
      rintro rfl
      exact hnew hsealed
    simp [hgone, hsealed, hne]
  removedGone := by
    intro i hi
    rcases h.removedGone i hi with ⟨hgone, hsealed⟩
    have hne : i ≠ index := by
      rintro rfl
      exact hnew hsealed
    simp [hgone, hsealed, hne]
  dispatchedSealed := fun i hi => List.mem_cons_of_mem _ (h.dispatchedSealed i hi)
  outstandingDispatched := h.outstandingDispatched
  outstandingNodup := h.outstandingNodup
  claimedOrGone := by
    intro i hi
    have hne : i ≠ index := by
      rintro rfl
      exact hnew (h.dispatchedSealed i (h.outstandingDispatched i hi))
    simpa [hne] using h.claimedOrGone i hi
  noRedispatch := h.noRedispatch
  scanInv := by
    have hold : ∀ i ∈ s.files ++ [index], s.WasDispatched i → i ∈ s.files := by
      intro i hi hdispatched
      rcases List.mem_append.mp hi with hi | hi
      · exact hi
      · rw [List.mem_singleton.mp hi] at hdispatched
        exact absurd (h.dispatchedSealed index hdispatched) hnew
    have hscan := h.scanInv
    unfold ScanInv at hscan ⊢
    cases hs : s.scan with
    | idle => simp
    | listed onDisk =>
      rw [hs] at hscan
      rcases hscan with ⟨hnodup, hsealed, hlisted, hkept⟩
      refine ⟨hnodup, fun i hi => List.mem_cons_of_mem _ (hsealed i hi), ?_, ?_⟩
      · exact fun i hi hdispatched => hlisted i (hold i hi hdispatched) hdispatched
      · intro i hi hdispatched
        rcases hkept i hi hdispatched with hfile | hclaim
        · exact .inl (List.mem_append_left _ hfile)
        · exact .inr hclaim
    | chosen onDisk segments =>
      rw [hs] at hscan
      rcases hscan with ⟨hnodup, hsealed, hlisted, hkept⟩
      refine ⟨hnodup, fun i hi => List.mem_cons_of_mem _ (hsealed i hi), ?_, ?_⟩
      · exact fun i hi hdispatched => hlisted i (hold i hi hdispatched) hdispatched
      · intro i hi
        refine ⟨(hkept i hi).1, ?_⟩
        exact fun hdispatched => List.mem_append_left _ ((hkept i hi).2 hdispatched)

theorem inv_list : Inv { s with scan := .listed s.files } :=
  { h with
    scanInv := ⟨h.filesNodup, h.filesSealed, fun _ hi _ => hi, fun _ hi _ => .inl hi⟩ }

theorem inv_readClaims (hs : s.scan = .listed onDisk) :
    Inv { s with scan := .chosen onDisk (DiskFs.newSegments onDisk s.fs.claimedIndices) } :=
  { h with
    scanInv := by
      have hscan := h.scanInv
      simp only [ScanInv, hs] at hscan
      rcases hscan with ⟨hnodup, hsealed, hlisted, hkept⟩
      refine ⟨hnodup.filter _, ?_, hlisted, ?_⟩
      · exact fun i hi => hsealed i (DiskFs.mem_newSegments.mp hi).1
      · intro i hi
        rcases DiskFs.mem_newSegments.mp hi with ⟨honDisk, hunclaimed⟩
        have hfile : s.WasDispatched i → i ∈ s.files := by
          intro hdispatched
          rcases hkept i honDisk hdispatched with hfile | hclaim
          · exact hfile
          · exact absurd hclaim hunclaimed
        refine ⟨?_, hfile⟩
        intro hout
        rcases h.claimedOrGone i hout with hclaim | hgone
        · exact hunclaimed hclaim
        · exact hgone (hfile (h.outstandingDispatched i hout)) }

theorem inv_recordClaims (hs : s.scan = .chosen onDisk segments) (sizeOf : Nat → Nat) :
    Inv { s with
      fs := s.fs.recordClaims onDisk segments sizeOf
      scan := .idle
      outstanding := segments ++ s.outstanding
      history := segments.map .dispatched ++ s.history } := by
  have hscan := h.scanInv
  simp only [ScanInv, hs] at hscan
  rcases hscan with ⟨hnodup, hsealed, hlisted, hkept⟩
  have hdispatched : ∀ i, Mark.dispatched i ∈ segments.map Mark.dispatched ++ s.history ↔
      i ∈ segments ∨ s.WasDispatched i := by
    intro i
    simp [WasDispatched]
  exact
    { filesSealed := h.filesSealed
      filesNodup := h.filesNodup
      removingGone := h.removingGone
      removedGone := by
        intro i hi
        exact h.removedGone i (by simpa using hi)
      dispatchedSealed := by
        intro i hi
        rcases (hdispatched i).mp hi with hi | hi
        · exact hsealed i hi
        · exact h.dispatchedSealed i hi
      outstandingDispatched := by
        intro i hi
        apply (hdispatched i).mpr
        rcases List.mem_append.mp hi with hi | hi
        · exact .inl hi
        · exact .inr (h.outstandingDispatched i hi)
      outstandingNodup :=
        hnodup.append h.outstandingNodup fun i hi hout => (hkept i hi).1 hout
      claimedOrGone := by
        intro i hi
        rw [DiskFs.mem_recordClaims]
        rcases List.mem_append.mp hi with hi | hi
        · exact .inl (.inl hi)
        · rcases h.claimedOrGone i hi with hclaim | hgone
          · by_cases hfile : i ∈ s.files
            · have honDisk := hlisted i hfile (h.outstandingDispatched i hi)
              exact .inl (.inr ⟨hclaim, honDisk⟩)
            · exact .inr hfile
          · exact .inr hgone
      noRedispatch := by
        apply h.noRedispatch.dispatched
        intro i hi hremoved hbefore
        exact (h.removedGone i hremoved).1 ((hkept i hi).2 hbefore)
      scanInv := trivial }

theorem mem_erase_files : i ∈ s.files.erase index ↔ i ≠ index ∧ i ∈ s.files :=
  h.filesNodup.mem_erase_iff

theorem inv_unlink (hsealed : index ∈ s.sealed) (hunraced : s.Unraced (.unlink index)) :
    Inv { s with
      files := s.files.erase index
      removing := index :: s.removing
      history := if index ∈ s.files then .removed index :: s.history else s.history } := by
  have hdispatched : ∀ i, Mark.dispatched i ∈
      (if index ∈ s.files then .removed index :: s.history else s.history) ↔
        s.WasDispatched i := by
    intro i
    split <;> simp [WasDispatched]
  exact
    { filesSealed := fun i hi => h.filesSealed i (List.mem_of_mem_erase hi)
      filesNodup := h.filesNodup.erase index
      removingGone := by
        intro i hi
        rw [mem_erase_files h]
        rcases List.mem_cons.mp hi with rfl | hi
        · exact ⟨fun hgone => hgone.1 rfl, hsealed⟩
        · rcases h.removingGone i hi with ⟨hgone, hold⟩
          exact ⟨fun hfile => hgone hfile.2, hold⟩
      removedGone := by
        intro i hi
        rw [mem_erase_files h]
        by_cases hi' : i = index
        · rw [hi']
          exact ⟨fun hgone => hgone.1 rfl, hsealed⟩
        · have hmem : Mark.removed i ∈ s.history := by
            split at hi
            · simpa [hi'] using hi
            · exact hi
          rcases h.removedGone i hmem with ⟨hgone, hold⟩
          exact ⟨fun hfile => hgone hfile.2, hold⟩
      dispatchedSealed := fun i hi => h.dispatchedSealed i ((hdispatched i).mp hi)
      outstandingDispatched :=
        fun i hi => (hdispatched i).mpr (h.outstandingDispatched i hi)
      outstandingNodup := h.outstandingNodup
      claimedOrGone := by
        intro i hi
        rcases h.claimedOrGone i hi with hclaim | hgone
        · exact .inl hclaim
        · exact .inr fun hfile => hgone (List.mem_of_mem_erase hfile)
      noRedispatch := by
        show NoRedispatch (if index ∈ s.files then .removed index :: s.history else s.history)
        split
        · exact h.noRedispatch.removed index
        · exact h.noRedispatch
      scanInv := by
        have hscan := h.scanInv
        unfold ScanInv at hscan ⊢
        cases hs : s.scan with
        | idle => simp
        | listed onDisk =>
          rw [hs] at hscan
          rcases hscan with ⟨hnodup, hold, hlisted, hkept⟩
          refine ⟨hnodup, hold, ?_, ?_⟩
          · intro i hi hmark
            exact hlisted i (List.mem_of_mem_erase hi) ((hdispatched i).mp hmark)
          · intro i hi hmark
            have hbefore := (hdispatched i).mp hmark
            by_cases hi' : i = index
            · rw [hi'] at hi hbefore ⊢
              exact .inr (hunraced.1 onDisk hs hi hbefore)
            · rcases hkept i hi hbefore with hfile | hclaim
              · exact .inl ((mem_erase_files h).mpr ⟨hi', hfile⟩)
              · exact .inr hclaim
        | chosen onDisk segments =>
          rw [hs] at hscan
          rcases hscan with ⟨hnodup, hold, hlisted, hkept⟩
          refine ⟨hnodup, hold, ?_, ?_⟩
          · intro i hi hmark
            exact hlisted i (List.mem_of_mem_erase hi) ((hdispatched i).mp hmark)
          · intro i hi
            refine ⟨(hkept i hi).1, ?_⟩
            intro hmark
            have hbefore := (hdispatched i).mp hmark
            have hne : i ≠ index := by
              rintro rfl
              exact hunraced.2 onDisk segments hs hi hbefore
            exact (mem_erase_files h).mpr ⟨hne, (hkept i hi).2 hbefore⟩ }

/-- Dropping a claim keeps what a scan relies on, unless the scan has listed a
segment that has no file any more. -/
theorem scanInv_unclaim {index dropped : Nat} {removing : List Nat}
    {outstanding : List Nat} (hsub : outstanding ⊆ s.outstanding)
    (hunraced : ∀ onDisk, s.scan = .listed onDisk → index ∈ onDisk → s.WasDispatched index →
      index ∈ s.files) :
    ScanInv { s with
      fs := { s.fs.unclaim index with dropped }
      removing, outstanding } := by
  have hscan := h.scanInv
  unfold ScanInv at hscan ⊢
  cases hs : s.scan with
  | idle => simp
  | listed onDisk =>
    rw [hs] at hscan
    rcases hscan with ⟨hnodup, hold, hlisted, hkept⟩
    refine ⟨hnodup, hold, hlisted, ?_⟩
    intro i hi hdispatched
    by_cases hi' : i = index
    · rw [hi'] at hi hdispatched ⊢
      exact .inl (hunraced onDisk hs hi hdispatched)
    · rcases hkept i hi hdispatched with hfile | hclaim
      · exact .inl hfile
      · exact .inr (DiskFs.mem_unclaim.mpr ⟨hclaim, hi'⟩)
  | chosen onDisk segments =>
    rw [hs] at hscan
    rcases hscan with ⟨hnodup, hold, hlisted, hkept⟩
    refine ⟨hnodup, hold, hlisted, ?_⟩
    intro i hi
    exact ⟨fun hout => (hkept i hi).1 (hsub hout), (hkept i hi).2⟩

theorem inv_dropClaim (hremoving : index ∈ s.removing) (dropped : Nat)
    (hunraced : ∀ onDisk, s.scan = .listed onDisk → index ∈ onDisk → s.WasDispatched index →
      index ∈ s.files) :
    Inv { s with
      fs := { s.fs.unclaim index with dropped }
      removing := s.removing.erase index } :=
  { h with
    removingGone := fun i hi => h.removingGone i (List.mem_of_mem_erase hi)
    claimedOrGone := by
      intro i hi
      by_cases hi' : i = index
      · rw [hi']
        exact .inr (h.removingGone index hremoving).1
      · rcases h.claimedOrGone i hi with hclaim | hgone
        · exact .inl (DiskFs.mem_unclaim.mpr ⟨hclaim, hi'⟩)
        · exact .inr hgone
    scanInv := scanInv_unclaim h (fun _ hi => hi) hunraced }

theorem inv_release
    (hunraced : ∀ onDisk, s.scan = .listed onDisk → index ∈ onDisk → s.WasDispatched index →
      index ∈ s.files) :
    Inv { s with fs := s.fs.unclaim index, outstanding := s.outstanding.erase index } :=
  { h with
    outstandingDispatched :=
      fun i hi => h.outstandingDispatched i (List.mem_of_mem_erase hi)
    outstandingNodup := h.outstandingNodup.erase index
    claimedOrGone := by
      intro i hi
      rcases h.outstandingNodup.mem_erase_iff.mp hi with ⟨hne, hi⟩
      rcases h.claimedOrGone i hi with hclaim | hgone
      · exact .inl (DiskFs.mem_unclaim.mpr ⟨hclaim, hne⟩)
      · exact .inr hgone
    scanInv := scanInv_unclaim h List.erase_subset hunraced }

theorem inv_settle (index : Nat) : Inv { s with outstanding := s.outstanding.erase index } :=
  { h with
    outstandingDispatched :=
      fun i hi => h.outstandingDispatched i (List.mem_of_mem_erase hi)
    outstandingNodup := h.outstandingNodup.erase index
    claimedOrGone := fun i hi => h.claimedOrGone i (List.mem_of_mem_erase hi)
    scanInv := by
      have hscan := h.scanInv
      unfold ScanInv at hscan ⊢
      cases hs : s.scan with
      | idle => simp
      | listed onDisk =>
        rw [hs] at hscan
        exact hscan
      | chosen onDisk segments =>
        rw [hs] at hscan
        rcases hscan with ⟨hnodup, hold, hlisted, hkept⟩
        refine ⟨hnodup, hold, hlisted, ?_⟩
        intro i hi
        exact ⟨fun hout => (hkept i hi).1 (List.mem_of_mem_erase hout), (hkept i hi).2⟩ }

end

theorem inv_step {s next : DiskSystem} {e : DiskEvent} (h : Inv s) (hunraced : s.Unraced e)
    (hnext : s.step e = some next) : Inv next := by
  cases e with
  | sealSegment index =>
    rcases Option.ite_none_right_eq_some.mp hnext with ⟨hlast, ⟨⟩⟩
    apply inv_sealSegment h
    intro hmem
    have hlt := List.all_eq_true.mp hlast index hmem
    simp at hlt
  | list =>
    simp only [step] at hnext
    split at hnext
    · cases hnext
      exact inv_list h
    · cases hnext
  | listFailed =>
    simp only [step] at hnext
    split at hnext
    · cases hnext
      exact { h with }
    · cases hnext
  | readClaims =>
    simp only [step] at hnext
    split at hnext
    · cases hnext
      exact inv_readClaims h ‹_›
    · cases hnext
  | recordClaims sizeOf =>
    simp only [step] at hnext
    split at hnext
    · cases hnext
      exact inv_recordClaims h ‹_› sizeOf
    · cases hnext
  | unlink index =>
    rcases Option.ite_none_right_eq_some.mp hnext with ⟨hsealed, ⟨⟩⟩
    exact inv_unlink h hsealed hunraced
  | dropClaim index evicting =>
    rcases Option.ite_none_right_eq_some.mp hnext with ⟨hremoving, ⟨⟩⟩
    exact inv_dropClaim h hremoving _ hunraced
  | release index =>
    rcases Option.ite_none_right_eq_some.mp hnext with ⟨-, ⟨⟩⟩
    exact inv_release h hunraced
  | settle index =>
    rcases Option.ite_none_right_eq_some.mp hnext with ⟨-, ⟨⟩⟩
    exact inv_settle h index

/-! ## Whole runs -/

/-- No segment is dispatched again after its removal, and none is in two
outstanding dispatches. -/
def DispatchedOnce (s : DiskSystem) : Prop := NoRedispatch s.history ∧ s.outstanding.Nodup

/-- A segment is dispatched, evicted between two scans, and not found again. -/
def evictedBetweenScans : List DiskEvent :=
  [.sealSegment 0, .list, .readClaims, .recordClaims fun _ => 0x5d, .unlink 0, .dropClaim 0 true,
    .sealSegment 1, .list, .readClaims, .recordClaims fun _ => 0x5d, .release 1, .settle 0]

/-- The same eviction inside a scan, after the listing: file and claim are both
gone when the scan reads the claim set, and the segment looks new. -/
def evictedInsideScan : List DiskEvent :=
  [.sealSegment 0, .list, .readClaims, .recordClaims fun _ => 0x5d, .settle 0, .list, .unlink 0,
    .dropClaim 0 true, .readClaims, .recordClaims fun _ => 0]

end DiskSystem

end Dial9.Core
