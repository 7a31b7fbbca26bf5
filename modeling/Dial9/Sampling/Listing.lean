/-
# A census of keys

The census as it reads the store: pages of keys under the window's prefix, each
key to follow the last and to be one that a run writes, no run twice, up to one
report more than are kept. Whatever the pages are, as long as they are full, it
takes the reports of the lowest ranks and none but these.
-/

import Dial9.Sampling.ReportKey

namespace Dial9.Sampling.Listing

open Dial9.Lib
open Dial9.Sampling.Census (Report Sketch boundaryOf boundaryAt)

/-! ## Reading pages -/

structure KeyPage where
  objects : List Str
  continuation : Option Str

/-- `list_sorted_page`, by prefix, page size and cursor. -/
abbrev KeyStore := Str → Nat → Option Str → Except StoreError KeyPage

/-- The objects of a page, after the last key and the reports read so far. -/
def readKeys (ulids : Ulids) (keyPrefix : Str) (profiler : Bool) :
    Option Str → List Report → List Str → Except StoreError (Option Str × List Report)
  | last, reports, [] => .ok (last, reports)
  | last, reports, key :: keys =>
    if last.any fun last => Str.before last key = false then
      .error (invalid "LIST keys are not globally strictly ordered")
    else
      match parseReport ulids key keyPrefix profiler with
      | .error e => .error e
      | .ok report =>
        if report.identity ∈ reports.map Report.identity then
          .error (invalid "duplicate run identity in census window")
        else readKeys ulids keyPrefix profiler (some key) (reports ++ [report]) keys

/-- The pages that the budget allows, until the reports are complete or exhausted. -/
def readKeyPages (ulids : Ulids) (store : KeyStore) (keyPrefix : Str) (profiler : Bool)
    (recordBudget : Nat) : Nat → Option Str → List Report → Option Str → List Str →
      Except StoreError (List Report × Bool)
  | 0, _, reports, _, _ => .ok (reports, false)
  | pages + 1, last, reports, cursor, cursors =>
    let size := min (recordBudget - reports.length) 1000
    match store keyPrefix size cursor with
    | .error e => .error e
    | .ok page =>
      if size < page.objects.length then .error (invalid "LIST exceeded requested page bound")
      else
        match readKeys ulids keyPrefix profiler last reports page.objects with
        | .error e => .error e
        | .ok (last, reports) =>
          if page.continuation.any fun token => cursors.contains token then
            .error (invalid "repeated LIST continuation cursor")
          else if page.continuation.isNone || reports.length = recordBudget then
            .ok (reports, page.continuation.isNone)
          else readKeyPages ulids store keyPrefix profiler recordBudget pages last reports
            page.continuation (cursors ++ page.continuation.toList)

/-- What `observe` has read when it comes to the estimate. -/
def sketchKeys (ulids : Ulids) (store : KeyStore) (config : PoolConfig) (channel : Str)
    (window : UInt64) (keep : Nat) : Except StoreError Sketch :=
  if 2 ^ 64 ≤ keep + 1 then .error (invalid "record budget overflow")
  else
    match readKeyPages ulids store (config.reportPrefix channel window)
        (channel = "profilers".toList) (keep + 1) ((keep + 1 + 999) / 1000) none [] none [] with
    | .error e => .error e
    | .ok (reports, exhausted) =>
      match boundaryOf keep reports exhausted with
      | .error e => .error e
      | .ok boundary =>
        if boundary = 0 then
          .error (invalid "zero rank boundary has no usable retained sample")
        else .ok ⟨reports, boundary⟩

/-- `census::observe`. -/
def observeKeys (ulids : Ulids) (store : KeyStore) (config : PoolConfig) (channel : Str)
    (window : UInt64) (keep : Nat) : Except StoreError Census.Sample :=
  (sketchKeys ulids store config channel window keep).map fun s =>
    ⟨s.estimate, s.retained.length⟩

/-! ## Stores that list in full pages -/

/-- A listing under a prefix that is split into full pages. `resumes` says where in the listing
a cursor resumes; a page that is not full is the last one. -/
structure FullPages (store : KeyStore) (keyPrefix : Str) (objects : List Str)
    (resumes : Option Str → Nat → Prop) : Prop where
  start : resumes none 0
  unique : ∀ cursor p q, resumes cursor p → resumes cursor q → p = q
  page : ∀ size cursor p, 0 < size → resumes cursor p → ∃ page,
    store keyPrefix size cursor = .ok page ∧ page.objects = (objects.drop p).take size ∧
    (page.continuation = none → objects.length ≤ p + size) ∧
    ∀ token, page.continuation = some token →
      p + size ≤ objects.length ∧ resumes (some token) (p + size)

/-- The keys of a listing, in order, with the reports they are the keys of. -/
structure ListedAs (ulids : Ulids) (keyPrefix : Str) (profiler : Bool) (objects : List Str)
    (reports : List Report) : Prop where
  ordered : objects.Pairwise fun a b => Str.before a b = true
  parsed : List.Forall₂ (fun key report =>
    parseReport ulids key keyPrefix profiler = .ok report) objects reports
  distinct : (reports.map Report.identity).Nodup

variable {ulids : Ulids} {store : KeyStore} {keyPrefix : Str} {profiler : Bool}
  {objects : List Str} {reports : List Report}

theorem readKeys_append {front keys : List Str} {read more : List Report}
    (hordered : (front ++ keys).Pairwise fun a b => Str.before a b = true)
    (hparsed : List.Forall₂ (fun key report =>
      parseReport ulids key keyPrefix profiler = .ok report) keys more)
    (hdistinct : ((read ++ more).map Report.identity).Nodup) :
    readKeys ulids keyPrefix profiler front.getLast? read keys =
      .ok ((front ++ keys).getLast?, read ++ more) := by
  induction hparsed generalizing front read with
  | nil => rw [readKeys, List.append_nil, List.append_nil]
  | @cons key report keys more hkey hparsed ih =>
    have hnext : front.getLast?.any (fun last => decide (Str.before last key = false)) = false := by
      cases hlast : front.getLast? with
      | none => rfl
      | some last =>
        have hbefore := (List.pairwise_append.mp hordered).2.2 last
          (List.mem_of_getLast? hlast) key List.mem_cons_self
        simp [hbefore]
    have hfresh : report.identity ∉ read.map Report.identity := by
      rw [List.map_append, List.nodup_append] at hdistinct
      intro hmem
      exact hdistinct.2.2 _ hmem _ (by simp) rfl
    have hassoc : front ++ key :: keys = (front ++ [key]) ++ keys := by simp
    have hassoc' : read ++ report :: more = (read ++ [report]) ++ more := by simp
    have hlast : (front ++ [key]).getLast? = some key := by simp
    rw [hassoc] at hordered ⊢
    rw [hassoc'] at hdistinct ⊢
    rw [readKeys, hnext, hkey]
    simp only [Bool.false_eq_true, if_false, hfresh]
    rw [← hlast]
    exact ih hordered hdistinct

theorem ListedAs.length_eq (h : ListedAs ulids keyPrefix profiler objects reports) :
    objects.length = reports.length :=
  h.parsed.length_eq

theorem ListedAs.readKeys_page (h : ListedAs ulids keyPrefix profiler objects reports)
    (read size : Nat) :
    readKeys ulids keyPrefix profiler (objects.take read).getLast? (reports.take read)
      ((objects.drop read).take size) =
        .ok ((objects.take (read + size)).getLast?, reports.take (read + size)) := by
  have hordered := h.ordered.sublist (List.take_sublist (read + size) objects)
  have hdistinct := h.distinct.sublist ((List.take_sublist (read + size) reports).map _)
  rw [List.take_add] at hordered hdistinct
  have hparsed := List.forall₂_take size (List.forall₂_drop read h.parsed)
  rw [List.take_add, List.take_add]
  exact readKeys_append hordered hparsed hdistinct

variable {resumes : Option Str → Nat → Prop}

theorem readKeyPages_full (hpages : FullPages store keyPrefix objects resumes)
    (h : ListedAs ulids keyPrefix profiler objects reports) {budget read count : Nat}
    {cursor : Option Str} {cursors : List Str} (hread : read < budget)
    (hread' : read ≤ objects.length) (hcursor : resumes cursor read)
    (hcount : budget - read ≤ 1000 * count)
    (hcursors : ∀ token ∈ cursors, ∃ p ≤ read, resumes (some token) p) :
    ∃ exhausted, readKeyPages ulids store keyPrefix profiler budget count
        (objects.take read).getLast? (reports.take read) cursor cursors =
          .ok (reports.take budget, exhausted) ∧
      (reports.length < budget → exhausted = true) := by
  induction count generalizing read cursor cursors with
  | zero => omega
  | succ count ih =>
    have hlength := h.length_eq
    obtain ⟨size, hsize⟩ : ∃ size, size = min (budget - read) 1000 := ⟨_, rfl⟩
    have htake : (reports.take read).length = read :=
      List.length_take_of_le (hlength ▸ hread')
    obtain ⟨page, hpage, hobjects, hlast, hmore⟩ :=
      hpages.page size cursor read (by omega) hcursor
    have hbound : ¬ size < ((objects.drop read).take size).length :=
      Nat.not_lt.mpr (List.length_take_le _ _)
    unfold readKeyPages
    simp only [htake, ← hsize, hpage, hobjects, if_neg hbound, h.readKeys_page]
    cases hcontinuation : page.continuation with
    | none =>
      have hend := hlast hcontinuation
      have hall : reports.take (read + size) = reports.take budget := by
        rw [List.take_of_length_le (by omega), List.take_of_length_le (by omega)]
      simp only [Option.any_none, Bool.false_eq_true, if_false, Option.isNone_none,
        Bool.true_or, if_true, hall]
      exact ⟨true, rfl, fun _ => rfl⟩
    | some token =>
      obtain ⟨hfull, hresumes⟩ := hmore token hcontinuation
      have hfresh : cursors.contains token = false := by
        rw [← Bool.not_eq_true, List.contains_iff_mem]
        intro hmem
        obtain ⟨p, hp, hresumes'⟩ := hcursors token hmem
        have := hpages.unique _ _ _ hresumes hresumes'
        omega
      have hnext : (reports.take (read + size)).length = read + size :=
        List.length_take_of_le (hlength ▸ hfull)
      simp only [Option.any_some, hfresh, Bool.false_eq_true, if_false, Option.isNone_some,
        Bool.false_or, decide_eq_true_eq, hnext]
      by_cases hdone : read + size = budget
      · rw [if_pos hdone, hdone]
        exact ⟨false, rfl, fun hlt => by omega⟩
      · rw [if_neg hdone]
        apply ih (by omega) hfull hresumes (by omega)
        intro other hother
        rcases List.mem_append.mp hother with hearlier | hnew
        · obtain ⟨p, hp, hresumes'⟩ := hcursors other hearlier
          exact ⟨p, by omega, hresumes'⟩
        · cases List.mem_singleton.mp hnew
          exact ⟨read + size, le_rfl, hresumes⟩

/-! ## The sample -/

/-- The rank that comes after the ones kept, in rising order, or the number of all ranks. -/
def rankAfter (keep : Nat) (reports : List Report) : Nat :=
  ((reports.map Report.rank).insertionSort (· ≤ ·))[keep]?.getD space

variable {config : PoolConfig} {channel : Str} {window : UInt64} {keep : Nat}

theorem rank_le_of_before (hulids : ulids.Lawful) {a b : Str} {r s : Report}
    (ha : parseReport ulids a (config.reportPrefix channel window) profiler = .ok r)
    (hb : parseReport ulids b (config.reportPrefix channel window) profiler = .ok s)
    (h : Str.before a b = true) : r.rank ≤ s.rank := by
  obtain ⟨run, rank, cutoff, id, hpool, -, -, -, rfl, rfl⟩ :=
    (parseReport_eq_ok_iff hulids).mp ha
  obtain ⟨run', rank', cutoff', id', hpool', -, -, -, rfl, rfl⟩ :=
    (parseReport_eq_ok_iff hulids).mp hb
  have hpre : run.reportPrefix channel window = run'.reportPrefix channel window := by
    rw [PoolConfig.reportPrefix, PoolConfig.reportPrefix, hpool, hpool']
  rw [reportKey_eq, reportKey_eq, hpre, Str.before_append_left, formatHex_toNat,
    formatHex_toNat] at h
  exact hex.le_of_before_append (toNat_lt_hex rank) h

theorem exists_mem_of_forall₂ {α β : Type} {R : α → β → Prop} {as : List α} {bs : List β}
    (h : List.Forall₂ R as bs) {b : β} (hb : b ∈ bs) : ∃ a ∈ as, R a b := by
  induction h with
  | nil => cases hb
  | @cons a b' as bs hhead _ ih =>
    rcases List.mem_cons.mp hb with rfl | hrest
    · exact ⟨a, List.mem_cons_self, hhead⟩
    · obtain ⟨a', ha', hR⟩ := ih hrest
      exact ⟨a', List.mem_cons_of_mem a ha', hR⟩

theorem ListedAs.ranks_sorted (hulids : ulids.Lawful)
    (h : ListedAs ulids (config.reportPrefix channel window) profiler objects reports) :
    reports.Pairwise fun a b => a.rank ≤ b.rank := by
  have hordered := h.ordered
  have hparsed := h.parsed
  clear h
  induction hparsed with
  | nil => exact .nil
  | @cons key report keys reports hkey hparsed ih =>
    obtain ⟨hfirst, hrest⟩ := List.pairwise_cons.mp hordered
    refine .cons ?_ (ih hrest)
    intro other hother
    obtain ⟨key', hmem, hkey'⟩ := exists_mem_of_forall₂ hparsed hother
    exact rank_le_of_before hulids hkey hkey' (hfirst key' hmem)

theorem rankAfter_eq (h : reports.Pairwise fun a b => a.rank ≤ b.rank) :
    rankAfter keep reports = boundaryAt keep reports := by
  have hsorted : (reports.map Report.rank).Pairwise (· ≤ ·) := List.pairwise_map.mpr h
  rw [rankAfter, hsorted.insertionSort_eq, List.getElem?_map, boundaryAt]
  cases reports[keep]? <;> rfl

theorem filter_take_boundary (h : reports.Pairwise fun a b => a.rank ≤ b.rank) :
    (reports.take (keep + 1)).filter (fun report => report.rank < boundaryAt keep reports) =
      reports.filter fun report => report.rank < boundaryAt keep reports := by
  have hdropped : (reports.drop (keep + 1)).filter
      (fun report => report.rank < boundaryAt keep reports) = [] := by
    apply List.filter_eq_nil_iff.mpr
    intro report hreport
    have hle := Census.boundaryAt_le_of_mem_drop h hreport
    simpa using hle
  have hsplit := congrArg (List.filter fun report => report.rank < boundaryAt keep reports)
    (List.take_append_drop (keep + 1) reports)
  rwa [List.filter_append, hdropped, List.append_nil] at hsplit

theorem sketchKeys_full
    (hpages : FullPages store (config.reportPrefix channel window) objects resumes)
    (h : ListedAs ulids (config.reportPrefix channel window) (channel = "profilers".toList)
      objects reports) (hkeep : keep + 1 < 2 ^ 64) :
    sketchKeys ulids store config channel window keep =
      if boundaryAt keep reports = 0 then
        .error (invalid "zero rank boundary has no usable retained sample")
      else .ok ⟨reports.take (keep + 1), boundaryAt keep reports⟩ := by
  obtain ⟨exhausted, hread, hexhausted⟩ := readKeyPages_full hpages h (Nat.succ_pos keep)
    (Nat.zero_le _) hpages.start (by omega : keep + 1 - 0 ≤ 1000 * ((keep + 1 + 999) / 1000))
    (fun token htoken => absurd htoken List.not_mem_nil)
  rw [List.take_zero, List.take_zero, List.getLast?_nil] at hread
  have hboundary := Census.boundaryOf_take hexhausted
  simp only [sketchKeys, Nat.not_le.mpr hkeep, if_false, hread, hboundary]

/-- The census of a window's keys in order, in full pages: the reports below the rank that comes
after the ones kept, each standing for its share of the ranks. -/
theorem observeKeys_census (hulids : ulids.Lawful) {resumes : Option Str → Nat → Prop}
    (hpages : FullPages store (config.reportPrefix channel window) objects resumes)
    (h : ListedAs ulids (config.reportPrefix channel window) (channel = "profilers".toList)
      objects reports) (hkeep : keep + 1 < 2 ^ 64) :
    (rankAfter keep reports = 0 → observeKeys ulids store config channel window keep =
      .error (invalid "zero rank boundary has no usable retained sample")) ∧
    (rankAfter keep reports ≠ 0 → ∃ s,
      sketchKeys ulids store config channel window keep = .ok s ∧
      s.boundary = rankAfter keep reports ∧
      s.retained = reports.filter (fun report => report.rank < rankAfter keep reports) ∧
      s.estimate = ((reports.filter fun report => report.rank < rankAfter keep reports).map
        fun report => (space : ℚ) / (min report.cutoff (rankAfter keep reports) : ℕ)).sum ∧
      s.reports.length = min (keep + 1) reports.length ∧
      observeKeys ulids store config channel window keep =
        .ok ⟨s.estimate, s.retained.length⟩) := by
  have hsorted := h.ranks_sorted hulids
  have hsketch := sketchKeys_full hpages h hkeep
  rw [rankAfter_eq hsorted]
  constructor
  · intro hzero
    rw [observeKeys, hsketch, if_pos hzero]
    rfl
  · intro hpos
    rw [if_neg hpos] at hsketch
    have hretained := @filter_take_boundary _ keep hsorted
    refine ⟨_, hsketch, rfl, hretained, ?_, List.length_take, ?_⟩
    · rw [Sketch.estimate, Sketch.retained, hretained]
      rfl
    · rw [observeKeys, hsketch]
      rfl

/-! ## A store of two reports -/

/-- A store whose cursors are the numbers of the objects listed. -/
def keyPages (objects : List Str) : KeyStore := fun _ size cursor =>
  let start := (cursor.bind Str.digits?).getD 0
  .ok
    { objects := (objects.drop start).take size
      continuation :=
        if start + size < objects.length then some (Str.display (start + size)) else none }

theorem keyPages_full (keyPrefix : Str) (objects : List Str) :
    FullPages (keyPages objects) keyPrefix objects
      fun cursor p => cursor.bind Str.digits? = some p ∨ (cursor = none ∧ p = 0) where
  start := .inr ⟨rfl, rfl⟩
  unique := by
    rintro cursor p q (hp | ⟨rfl, rfl⟩) (hq | ⟨hnone, rfl⟩)
    · exact Option.some.inj (hp.symm.trans hq)
    · rw [hnone] at hp
      cases hp
    · cases hq
    · rfl
  page := by
    intro size cursor p hsize hresumes
    have hstart : (cursor.bind Str.digits?).getD 0 = p := by
      rcases hresumes with hp | ⟨rfl, rfl⟩
      · rw [hp, Option.getD_some]
      · rfl
    refine ⟨_, rfl, by rw [hstart], ?_, ?_⟩
    · intro hnone
      dsimp only at hnone
      rw [hstart] at hnone
      exact Nat.le_of_not_lt fun hlt => by simp [hlt] at hnone
    · intro token htoken
      dsimp only at htoken
      rw [hstart] at htoken
      obtain ⟨hlt, htoken⟩ := Option.ite_none_right_eq_some.mp htoken
      cases htoken
      exact ⟨hlt.le, .inl (Str.digits?_display _)⟩

/-- The keys of two runs of one pool for a window. -/
def twoKeys (rank rank' : UInt64) : List Str :=
  [reportKey (demoPool 1) "census".toList 9 rank ⟨some 100⟩,
    reportKey (demoPool 2) "census".toList 9 rank' ⟨none⟩]

theorem twoKeys_listedAs {rank rank' : UInt64} (hrank : rank.toNat ≤ rank'.toNat)
    (hbelow : rank.toNat < 100) :
    ListedAs crockfordUlids ((demoPool 3).reportPrefix "census".toList 9) false
      (twoKeys rank rank') [⟨rank.toNat, 100, 1⟩, ⟨rank'.toNat, space, 2⟩] where
  ordered := by
    apply List.pairwise_pair.mpr
    have hpre : (demoPool 1).reportPrefix "census".toList 9 =
        (demoPool 2).reportPrefix "census".toList 9 := rfl
    rw [reportKey_eq, reportKey_eq, hpre, Str.before_append_left, formatHex_toNat,
      formatHex_toNat]
    rcases hrank.lt_or_eq with hlt | heq
    · exact hex.before_numeral_append (toNat_lt_hex rank') hlt
    · rw [heq, Str.before_append_left]
      apply Str.before_cons.mpr
      exact .inr ⟨rfl, crockford.before_numeral_append (lt_crockford (by decide)) (by decide)⟩
  parsed := by
    refine .cons ?_ (.cons ?_ .nil)
    · apply (parseReport_eq_ok_iff crockfordUlids_lawful).mpr
      exact ⟨demoPool 1, rank, ⟨some 100⟩, 1, rfl, by decide, rfl,
        ⟨decide_eq_true hbelow, nofun⟩, rfl, rfl⟩
    · apply (parseReport_eq_ok_iff crockfordUlids_lawful).mpr
      exact ⟨demoPool 2, rank', ⟨none⟩, 2, rfl, by decide, rfl,
        ⟨decide_eq_true rank'.toNat_lt, fun _ => rfl⟩, rfl, rfl⟩
  distinct := by simp

/-- Of two reports one is kept, below the rank of the other. -/
theorem observeKeys_census_twoKeys :
    ∃ s, sketchKeys crockfordUlids (keyPages (twoKeys 5 7)) (demoPool 3) "census".toList 9 1 =
        .ok s ∧ s.boundary = 7 ∧ s.retained = [⟨5, 100, 1⟩] := by
  have hafter : rankAfter 1 [⟨5, 100, 1⟩, ⟨7, space, 2⟩] = 7 := by decide
  obtain ⟨s, hsketch, hboundary, hretained, -⟩ := (observeKeys_census crockfordUlids_lawful
    (keyPages_full _ _) (@twoKeys_listedAs 5 7 (by decide) (by decide))
    (by decide : 1 + 1 < 2 ^ 64)).2 (by decide)
  exact ⟨s, hsketch, hboundary.trans hafter, hretained⟩

/-- Two reports of rank zero and one to keep: nothing is below the boundary, and the census
is refused. -/
theorem observeKeys_zeroRanks :
    observeKeys crockfordUlids (keyPages (twoKeys 0 0)) (demoPool 3) "census".toList 9 1 =
      .error (invalid "zero rank boundary has no usable retained sample") := by
  have hsketch := sketchKeys_full (keyPages_full _ _)
    (@twoKeys_listedAs 0 0 (by decide) (by decide)) (by decide : 1 + 1 < 2 ^ 64)
  rw [observeKeys, hsketch]
  rfl

end Dial9.Sampling.Listing
