/-
# Windows along a lineage

A lineage runs from one founding of the roster to the next. Along it a leader
reserves a window before it lists anything, and publishes over its own
reservation or not at all. Whatever becomes of a leader, its successor starts
from the reserved window: no window is reserved twice, and none is published
twice.
-/

import Dial9.Sampling.Ledger

namespace Dial9.Sampling

open Dial9.Lib

variable {F : Type}

/-! ## The last window -/

/-- The commits since the roster was last founded, newest first. -/
def lineage : List (Commit F) → List (Commit F)
  | [] => []
  | commit :: commits =>
    if commit.request.purpose = .found then [commit] else commit :: lineage commits

def Commit.lastWindow (commit : Commit F) : Option Nat := commit.request.roster.lastWindow

/-- The window the commit reserves: the assessment it spends. -/
def Commit.reserved (commit : Commit F) : Option Nat :=
  match commit.request.purpose with
  | .reserve _ window => window
  | _ => none

/-- The window whose assessment the commit publishes. -/
def Commit.published (commit : Commit F) : Option Nat :=
  match commit.request.purpose with
  | .publish window => some window
  | _ => none

variable {commit : Commit F} {window : Nat} {commits : List (Commit F)}

theorem Commit.reserved_eq_some :
    commit.reserved = some window ↔
      ∃ now, commit.request.purpose = .reserve now (some window) := by
  unfold Commit.reserved
  split <;> simp_all

theorem Commit.published_eq_some :
    commit.published = some window ↔ commit.request.purpose = .publish window := by
  unfold Commit.published
  split <;> simp_all

theorem lastWindow_le_trans {a b c : Option Nat} (hab : a ≤ b) (hbc : b ≤ c) : a ≤ c := by
  cases a <;> cases b <;> cases c <;> simp_all
  omega

theorem lastWindow_lt_of_le {a b c : Option Nat} (hab : a ≤ b) (hbc : b < c) : a < c := by
  cases a <;> cases b <;> cases c <;> simp_all
  omega

variable [Outside F]

variable {config : Config} {before after : Roster F}

theorem Edits.lastWindow_of_reserve {now : Nat}
    (h : Edits config (.reserve now (some window)) before after) :
    after.lastWindow = some window ∧ before.lastWindow < some window := by
  generalize hpurpose : Purpose.reserve now (some window) = purpose at h
  cases h with
  | reserve hreserve =>
    have hassess := (Purpose.reserve.inj hpurpose).2.symm
    rw [Roster.reserve_eq_ok hreserve, hassess]
    refine ⟨rfl, ?_⟩
    have hlater := (Option.filter_eq_some_iff.mp hassess).2
    cases hlast : before.lastWindow with
    | none => exact Option.none_lt_some
    | some last =>
      rw [hlast] at hlater
      exact Option.some_lt_some.mpr (of_decide_eq_true hlater)
  | claim | publish | release => cases hpurpose

theorem Edits.lastWindow_of_publish (h : Edits config (.publish window) before after) :
    after.lastWindow = before.lastWindow := by
  cases h with
  | publish hpublish => exact (Roster.succeeds_of_publish hpublish).2

theorem Edits.lastWindow_le {purpose : Purpose} (h : Edits config purpose before after) :
    before.lastWindow ≤ after.lastWindow := by
  have hrefl : before.lastWindow ≤ before.lastWindow := by
    cases before.lastWindow <;> simp
  cases h with
  | claim hclaim =>
    rw [Roster.claim_eq_ok hclaim]
    exact hrefl
  | @reserve _ _ now revision hreserve =>
    cases hassess : before.assess config now with
    | none =>
      rw [Roster.reserve_eq_ok hreserve, hassess]
      exact hrefl
    | some window =>
      have hedits : Edits config (.reserve now (some window)) before after := by
        rw [← hassess]
        exact .reserve hreserve
      rcases hedits.lastWindow_of_reserve with ⟨hafter, hbefore⟩
      rw [hafter]
      cases hlast : before.lastWindow with
      | none => exact Option.none_le
      | some last =>
        rw [hlast, Option.some_lt_some] at hbefore
        exact Option.some_le_some.mpr hbefore.le
  | publish hpublish =>
    rw [(Roster.succeeds_of_publish hpublish).2]
    exact hrefl
  | release hrelease =>
    rw [Roster.release_eq_ok hrelease]
    exact hrefl

/-! ## One commit after another -/

/-- What a commit other than a founding makes of the one before it. -/
structure Follows (newer older : Commit F) : Prop where
  le : newer.request.purpose ≠ .found → older.lastWindow ≤ newer.lastWindow
  reserves : ∀ window, newer.reserved = some window →
    newer.lastWindow = some window ∧ older.lastWindow < some window
  publishes : ∀ window, newer.published = some window →
    newer.lastWindow = older.lastWindow ∧ older.reserved = some window

/-- What holds between any two commits of a lineage. -/
structure After (newer older : Commit F) : Prop where
  le : older.lastWindow ≤ newer.lastWindow
  reserves : ∀ window, newer.reserved = some window → older.lastWindow < some window
  publishes : ∀ window window', newer.published = some window →
    older.published = some window' → window' < window

section

omit [Outside F]

theorem mem_of_mem_lineage (h : commit ∈ lineage commits) : commit ∈ commits := by
  induction commits with
  | nil => exact h
  | cons newest commits ih =>
    rw [lineage] at h
    split_ifs at h
    · rw [List.mem_singleton.mp h]
      exact List.mem_cons_self
    · rcases List.mem_cons.mp h with rfl | hold
      · exact List.mem_cons_self
      · exact List.mem_cons_of_mem _ (ih hold)

theorem after_head {newest commit : Commit F} (h : (lineage (newest :: commits)).Pairwise After)
    (hcommit : commit ∈ lineage (newest :: commits)) : commit = newest ∨ After newest commit := by
  rw [lineage] at h hcommit
  split_ifs at h hcommit
  · exact .inl (List.mem_singleton.mp hcommit)
  · rcases List.mem_cons.mp hcommit with hnewest | hold
    · exact .inl hnewest
    · exact .inr ((List.pairwise_cons.mp h).1 commit hold)

theorem after_of_follows {newer older commit : Commit F} (h : Follows newer older)
    (hne : newer.request.purpose ≠ .found) (hcommit : commit = older ∨ After older commit)
    (hlast : ∀ window, commit.published = some window → commit.lastWindow = some window) :
    After newer commit := by
  have hle : commit.lastWindow ≤ older.lastWindow := by
    rcases hcommit with rfl | hafter
    · cases commit.lastWindow <;> simp
    · exact hafter.le
  refine ⟨lastWindow_le_trans hle (h.le hne), ?_, ?_⟩
  · intro window hreserved
    exact lastWindow_lt_of_le hle (h.reserves window hreserved).2
  · intro window window' hpublished hpublished'
    have hreserved := (h.publishes window hpublished).2
    rcases hcommit with rfl | hafter
    · rcases Commit.reserved_eq_some.mp hreserved with ⟨now, hpurpose⟩
      rw [Commit.published_eq_some, hpurpose] at hpublished'
      cases hpublished'
    · have hlt := hafter.reserves window hreserved
      rw [hlast window' hpublished'] at hlt
      exact Option.some_lt_some.mp hlt

end

variable [DecidableEq F]

omit [Outside F] [DecidableEq F] in
theorem Chain.replaces_older {requests : List (Request F)} {first : Option (Object F)}
    {newer older : Commit F} (h : Chain requests first (newer :: older :: commits))
    (hreplaces : newer.Replaces before) : before = older.request.roster := by
  cases h with
  | cons hchain _ hreplaced _ _ =>
    cases hchain with
    | cons _ _ _ hbody _ =>
      rcases hreplaces with ⟨object, hobject, hbefore⟩
      obtain rfl : object = older.stored := Option.some.inj (hobject.symm.trans hreplaced)
      exact Body.roster.inj (hbefore.symm.trans hbody)

namespace Fleet.Ledger

variable {fleet : Fleet F}

section

variable (h : fleet.Ledger)
include h

theorem edits_of_ne_found (hmem : commit ∈ fleet.commits) (hne : commit.request.purpose ≠ .found) :
    ∃ config before, commit.Replaces before ∧
      Edits config commit.request.purpose before commit.request.roster := by
  cases h.computed hmem with
  | found hfound => exact absurd hfound hne
  | edit hreplaces _ hedits => exact ⟨_, _, hreplaces, hedits⟩

theorem lastWindow_of_reserved {request : Request F} {now : Nat}
    (hrequest : request ∈ fleet.requests)
    (hpurpose : request.purpose = .reserve now (some window)) :
    request.roster.lastWindow = some window := by
  cases h.sound request hrequest with
  | found => cases hpurpose
  | edit _ hedits _ =>
    obtain rfl := hpurpose
    exact hedits.lastWindow_of_reserve.1

theorem lastWindow_of_published (hmem : commit ∈ fleet.commits)
    (hpublished : commit.published = some window) :
    commit.lastWindow = some window := by
  have hpurpose := Commit.published_eq_some.mp hpublished
  rcases h.reserved_of_published hmem hpurpose with ⟨now, request, hrequest, hreserve, hreplaces⟩
  rcases h.edits_of_ne_found hmem (by simp [hpurpose]) with ⟨config, before, hbefore, hedits⟩
  rw [hpurpose] at hedits
  obtain rfl : request.roster = before := by
    rcases hreplaces with ⟨object, hobject, hbody⟩
    rcases hbefore with ⟨object', hobject', hbody'⟩
    obtain rfl : object = object' := Option.some.inj (hobject.symm.trans hobject')
    exact Body.roster.inj (hbody.symm.trans hbody')
  exact hedits.lastWindow_of_publish.trans (h.lastWindow_of_reserved hrequest hreserve)

theorem follows {newer older : Commit F} (hnewer : newer ∈ fleet.commits)
    (hchain : Chain fleet.requests fleet.first (newer :: older :: commits)) :
    Follows newer older := by
  have hedits : newer.request.purpose ≠ .found → ∃ config,
      Edits config newer.request.purpose older.request.roster newer.request.roster := by
    intro hne
    rcases h.edits_of_ne_found hnewer hne with ⟨config, before, hreplaces, hedits⟩
    rw [hchain.replaces_older hreplaces] at hedits
    exact ⟨config, hedits⟩
  refine ⟨?_, ?_, ?_⟩
  · intro hne
    rcases hedits hne with ⟨config, hedits⟩
    exact hedits.lastWindow_le
  · intro window hreserved
    rcases Commit.reserved_eq_some.mp hreserved with ⟨now, hpurpose⟩
    rcases hedits (by simp [hpurpose]) with ⟨config, hedits⟩
    rw [hpurpose] at hedits
    exact hedits.lastWindow_of_reserve
  · intro window hpublished
    have hpurpose := Commit.published_eq_some.mp hpublished
    rcases hedits (by simp [hpurpose]) with ⟨config, hedits⟩
    rw [hpurpose] at hedits
    refine ⟨hedits.lastWindow_of_publish, ?_⟩
    rcases h.reserved_of_published hnewer hpurpose with
      ⟨now, request, hrequest, hreserve, hreplaces⟩
    have hroster := hchain.replaces_older hreplaces
    have holder : older.request ∈ fleet.requests := by
      cases hchain with
      | cons holder _ _ _ _ =>
        cases holder with
        | cons _ hmem _ _ _ => exact hmem
    rw [h.eq_of_revision hrequest holder (congrArg Roster.revision hroster)] at hreserve
    exact Commit.reserved_eq_some.mpr ⟨now, hreserve⟩

theorem lineage_pairwise (hchain : Chain fleet.requests fleet.first commits)
    (hmem : ∀ commit ∈ commits, commit ∈ fleet.commits) :
    (lineage commits).Pairwise After := by
  induction hchain with
  | nil => exact .nil
  | @cons newer commits hchain hrequest hreplaced hbody hmet ih =>
    have hpairwise := ih fun commit hcommit => hmem commit (List.mem_cons_of_mem _ hcommit)
    cases commits with
    | nil =>
      simp only [lineage]
      split_ifs <;> exact List.pairwise_singleton _ _
    | cons older commits =>
      rw [lineage]
      split_ifs with hfound
      · exact List.pairwise_singleton _ _
      · refine List.pairwise_cons.mpr ⟨?_, hpairwise⟩
        have hfollows := h.follows (hmem newer List.mem_cons_self)
          (hchain.cons hrequest hreplaced hbody hmet)
        intro commit hcommit
        have hcommits : commit ∈ fleet.commits :=
          hmem commit (List.mem_cons_of_mem _ (mem_of_mem_lineage hcommit))
        exact after_of_follows hfollows hfound (after_head hpairwise hcommit)
          (fun _ => h.lastWindow_of_published hcommits)

end

end Fleet.Ledger

/-! ## Whole runs -/

/-- Along a lineage the last window never goes back, a commit that spends an
assessment raises it, and no window is reserved or published twice. -/
structure Fleet.AssessedOnce (fleet : Fleet F) : Prop where
  neverBack : (lineage fleet.commits).Pairwise fun newer older =>
    older.lastWindow ≤ newer.lastWindow
  builds : ∀ commit ∈ fleet.commits, commit.request.purpose ≠ .found →
    ∃ before, commit.Replaces before ∧ before.lastWindow ≤ commit.lastWindow
  spends : ∀ commit ∈ fleet.commits, ∀ window, commit.reserved = some window →
    commit.lastWindow = some window ∧
      ∃ before, commit.Replaces before ∧ before.lastWindow < some window
  reservedOnce : ((lineage fleet.commits).filterMap Commit.reserved).Nodup
  publishedOnce : ((lineage fleet.commits).filterMap Commit.published).Nodup

theorem Fleet.Ledger.assessedOnce {fleet : Fleet F} (h : fleet.Ledger) : fleet.AssessedOnce := by
  have hpairwise := h.lineage_pairwise h.chain fun _ => id
  have hmem : ∀ commit ∈ lineage fleet.commits, commit ∈ fleet.commits :=
    fun _ => mem_of_mem_lineage
  have hspends : ∀ commit ∈ fleet.commits, ∀ window, commit.reserved = some window →
      commit.lastWindow = some window ∧
        ∃ before, commit.Replaces before ∧ before.lastWindow < some window := by
    intro commit hcommit window hreserved
    rcases Commit.reserved_eq_some.mp hreserved with ⟨now, hpurpose⟩
    rcases h.edits_of_ne_found hcommit (by simp [hpurpose]) with
      ⟨config, before, hreplaces, hedits⟩
    rw [hpurpose] at hedits
    rcases hedits.lastWindow_of_reserve with ⟨hafter, hbefore⟩
    exact ⟨hafter, before, hreplaces, hbefore⟩
  refine ⟨hpairwise.imp After.le, ?_, hspends, ?_, ?_⟩
  · intro commit hcommit hne
    rcases h.edits_of_ne_found hcommit hne with ⟨config, before, hreplaces, hedits⟩
    exact ⟨before, hreplaces, hedits.lastWindow_le⟩
  · refine List.pairwise_filterMap.mpr (hpairwise.imp_of_mem ?_)
    intro newer older _ holder hafter window hnewer window' hreserved
    have hlt := hafter.reserves window hnewer
    rw [(hspends older (hmem older holder) window' hreserved).1, Option.some_lt_some] at hlt
    exact hlt.ne'
  · refine List.pairwise_filterMap.mpr (hpairwise.imp ?_)
    intro newer older hafter window hnewer window' holder
    exact (hafter.publishes window window' hnewer holder).ne'

/-- Over any run of any number of processes each window is assessed at most once
in a lineage. -/
theorem Fleet.assessedOnce_throughout (first : Option (Object F)) (events : List (Event F)) :
    Throughout Fleet.step Fleet.AssessedOnce (Fleet.empty first) events :=
  throughout_of_along (fun _ _ _ h _ hstep => Fleet.Ledger.step h hstep)
    (fun _ h => Fleet.Ledger.assessedOnce h) (Fleet.Ledger.empty first) (along_true _ events)

end Dial9.Sampling
