/-
# The coverage of a stream is truthful

What one outcome does to the driver is said once. From it follow the counts of
every state of a run: the folded set is the set of merged leaves and the files
counted are its members. That no leaf is merged twice rests on the resolved
scope: its reused keys, and its keys to be folded anew, have distinct leaves.
-/

import Dial9.Viewer.FoldStream

namespace Dial9.Viewer.Refine

open Dial9.Lib Dial9.Viewer.Aggregate

variable {blake3 : List UInt8 → List UInt8}

/-! ## Resolved scopes -/

theorem length_of_mapM {α β : Type} {f : α → Option β} {as : List α} {bs : List β}
    (h : as.mapM f = some bs) : bs.length = as.length := by
  induction as generalizing bs with
  | nil =>
    cases h
    rfl
  | cons a as ih =>
    simp only [List.mapM_cons, Option.bind_eq_bind, Option.bind_eq_some_iff] at h
    rcases h with ⟨b, -, rest, hrest, ⟨⟩⟩
    simp [ih hrest]

theorem resolve_wellFormed {default : DefaultCap} {listings : List (List ObjectInfo)}
    {scope : Scope} {segmentDurationSecs : Int} {sourceIsLocal : Bool} {sourceBucket : Str}
    {maxFiles : Option Nat} {folded : List Str} {r : Resolved}
    (h : resolve blake3 default listings scope segmentDurationSecs sourceIsLocal sourceBucket
      maxFiles folded = .ok r) : r.WellFormed blake3 := by
  unfold resolve at h
  simp only at h
  split at h
  · cases h
  · next hosts hhosts =>
      split at h
      · cases h
      · cases h
        refine ⟨List.take_prefix _ _, ?_⟩
        apply List.map_fst_zip
        rw [List.length_map, length_of_mapM hhosts]

namespace Resolved

variable {r : Resolved} {seedOnly : Bool}

/-- The keys that a stream reuses, and the keys that it folds, have distinct leaves. -/
structure Distinct (blake3 : List UInt8 → List UInt8) (r : Resolved) (seedOnly : Bool) : Prop where
  seeds : ((r.foldedMatchingFullKeys blake3).map (partLeafOf blake3)).Nodup
  folds : seedOnly = false →
    ((r.unfoldedCapped blake3).map fun keys => partLeafOf blake3 keys.2).Nodup

theorem host_of_matched (h : r.WellFormed blake3) {keys : Str × Str} (hmem : keys ∈ r.matched) :
    (r.matchedHostForLeaf (partLeafOf blake3 keys.2)).isSome = true := by
  have hleaf : partLeafOf blake3 keys.2 ∈ r.matchedLeafHosts.map Prod.fst := by
    rw [h.hosts]
    exact List.mem_map_of_mem hmem
  rcases List.mem_map.mp hleaf with ⟨entry, hentry, heq⟩
  rw [matchedHostForLeaf, Option.isSome_map, List.find?_isSome]
  exact ⟨entry, List.mem_reverse.mpr hentry, by simp [heq]⟩

theorem mem_foldedMatchingFullKeys {key : Str} :
    key ∈ r.foldedMatchingFullKeys blake3 ↔
      ∃ keys ∈ r.matched, r.isFolded blake3 keys.2 = true ∧ keys.2 = key := by
  simp [foldedMatchingFullKeys, and_assoc]

theorem leaf_ne {key : Str} {task : Str × Str} (hkey : key ∈ r.foldedMatchingFullKeys blake3)
    (htask : task ∈ r.unfoldedCapped blake3) :
    partLeafOf blake3 key ≠ partLeafOf blake3 task.2 := by
  rcases mem_foldedMatchingFullKeys.mp hkey with ⟨keys, -, hfolded, rfl⟩
  have hunfolded := (List.mem_filter.mp htask).2
  intro heq
  rw [isFolded, heq, ← isFolded] at hfolded
  simp [hfolded] at hunfolded

end Resolved

end Dial9.Viewer.Refine

namespace Dial9.Viewer.FoldStream

open Dial9.Lib Dial9.Keys.Viewer Dial9.Viewer.Aggregate Dial9.Viewer.Refine

variable {blake3 : List UInt8 → List UInt8}

variable {more : List Str} {task : Str × Str}

variable {outcomes : List (Str × Outcome)}

namespace Driver

variable {d next : Driver} {key : Str} {outcome : Outcome}

/-! ## One outcome -/

/-- The driver's plan: everything but the accounts of what was merged. -/
structure SamePlan (d next : Driver) : Prop where
  resolved : next.resolved = d.resolved
  seedKeys : next.seedKeys = d.seedKeys
  folds : next.folds = d.folds
  phase : next.phase = d.phase
  handed : next.handed = d.handed
  seedNext : next.seedNext = d.seedNext
  events : next.events = d.events

theorem SamePlan.trans {last : Driver} (h : SamePlan d next) (h' : SamePlan next last) :
    SamePlan d last :=
  ⟨h'.resolved.trans h.resolved, h'.seedKeys.trans h.seedKeys, h'.folds.trans h.folds,
    h'.phase.trans h.phase, h'.handed.trans h.handed, h'.seedNext.trans h.seedNext,
    h'.events.trans h.events⟩

/-- The leaf that an outcome adds to the accumulator. -/
def mergedLeaf (blake3 : List UInt8 → List UInt8) (key : Str) : Outcome → List Str
  | none => [partLeafOf blake3 key]
  | some _ => []

theorem samePlan_applyFolded (d : Driver) (leaf : Str) :
    SamePlan d (d.applyFolded leaf) ∧ (d.applyFolded leaf).merged = d.merged := by
  unfold applyFolded
  split
  · exact ⟨⟨rfl, rfl, rfl, rfl, rfl, rfl, rfl⟩, rfl⟩
  · split <;> exact ⟨⟨rfl, rfl, rfl, rfl, rfl, rfl, rfl⟩, rfl⟩

theorem apply_plan (d : Driver) (key : Str) (outcome : Outcome) :
    SamePlan d (d.apply blake3 key outcome) ∧
      (d.apply blake3 key outcome).merged = d.merged ++ mergedLeaf blake3 key outcome := by
  cases outcome with
  | none =>
    rcases samePlan_applyFolded { d with merged := d.merged ++ [partLeafOf blake3 key] }
      (partLeafOf blake3 key) with ⟨hplan, hmerged⟩
    exact ⟨{ hplan with }, hmerged⟩
  | some error => exact ⟨⟨rfl, rfl, rfl, rfl, rfl, rfl, rfl⟩, by simp [apply, mergedLeaf]⟩

/-- The counts agree with what was merged. -/
structure Counted (d : Driver) : Prop where
  split : d.filesFolded = d.filesSeeded + d.filesFoldedCold
  folded : d.folded = d.merged.toFinset
  card : d.filesFolded = d.folded.card

theorem Counted.apply (h : Counted d) (hphase : d.phase ≠ .done)
    (hhost : (d.resolved.matchedHostForLeaf (partLeafOf blake3 key)).isSome = true) :
    Counted (d.apply blake3 key outcome) := by
  cases outcome with
  | some error => exact { h with }
  | none =>
    rcases Option.isSome_iff_exists.mp hhost with ⟨host, hsome⟩
    unfold Driver.apply applyFolded
    simp only [hsome]
    split
    · next hmem =>
        refine ⟨h.split, ?_, h.card⟩
        show d.folded = _
        rw [List.toFinset_append, ← h.folded]
        simp [hmem]
    · next hmem =>
        refine ⟨?_, ?_, ?_⟩
        · have hsplit := h.split
          cases hcase : d.phase with
          | seeding | folding =>
            simp
            omega
          | done => exact absurd hcase hphase
        · show insert _ d.folded = _
          rw [List.toFinset_append, ← h.folded]
          ext leaf
          simp [or_comm]
        · show d.filesFolded + 1 = (insert _ d.folded).card
          rw [Finset.card_insert_of_notMem hmem, h.card]

/-! ## A batch of outcomes -/

/-- Apply the outcomes of a batch in the order the sink reports them. -/
def applyAll (blake3 : List UInt8 → List UInt8) (d : Driver) (outcomes : List (Str × Outcome)) :
    Driver :=
  outcomes.foldl (fun d outcome => d.apply blake3 outcome.1 outcome.2) d

theorem applyAll_plan (d : Driver) (outcomes : List (Str × Outcome)) :
    SamePlan d (d.applyAll blake3 outcomes) ∧
      (d.applyAll blake3 outcomes).merged =
        d.merged ++ outcomes.flatMap fun outcome => mergedLeaf blake3 outcome.1 outcome.2 := by
  induction outcomes generalizing d with
  | nil => exact ⟨⟨rfl, rfl, rfl, rfl, rfl, rfl, rfl⟩, by simp [applyAll]⟩
  | cons outcome outcomes ih =>
    rcases @apply_plan blake3 d outcome.1 outcome.2 with ⟨hplan, hmerged⟩
    rcases ih (d.apply blake3 outcome.1 outcome.2) with ⟨hrest, hmergedRest⟩
    refine ⟨hplan.trans hrest, ?_⟩
    rw [applyAll, List.foldl_cons, ← applyAll, hmergedRest, hmerged]
    simp

theorem Counted.applyAll (h : Counted d) (hphase : d.phase ≠ .done) (hhost : ∀ outcome ∈ outcomes,
      (d.resolved.matchedHostForLeaf (partLeafOf blake3 outcome.1)).isSome = true) :
    Counted (d.applyAll blake3 outcomes) := by
  induction outcomes generalizing d with
  | nil => exact h
  | cons outcome outcomes ih =>
    have hplan := (@apply_plan blake3 d outcome.1 outcome.2).1
    apply ih
    · exact h.apply hphase (hhost outcome List.mem_cons_self)
    · rwa [hplan.phase]
    · intro later hlater
      rw [hplan.resolved]
      exact hhost later (List.mem_cons_of_mem _ hlater)

theorem mergedLeaf_sublist (outcomes : List (Str × Outcome)) :
    (outcomes.flatMap fun outcome => mergedLeaf blake3 outcome.1 outcome.2).Sublist
      ((outcomes.map Prod.fst).map (partLeafOf blake3)) := by
  induction outcomes with
  | nil => exact List.nil_sublist _
  | cons outcome outcomes ih =>
    simp only [List.flatMap_cons, List.map_cons]
    cases outcome.2 with
    | none => exact ih.cons_cons _
    | some error => exact ih.cons _

/-! ## Every state of a stream -/

/-- The leaves of the keys still to be handed out. -/
def leavesToSeed (blake3 : List UInt8 → List UInt8) (d : Driver) : List Str :=
  (d.seedKeys.drop d.seedNext).map (partLeafOf blake3)

/-- The leaves of the fold tasks that have not been joined. -/
def leavesToFold (blake3 : List UInt8 → List UInt8) (d : Driver) : List Str :=
  d.folds.map fun task => partLeafOf blake3 task.2

/-- The event reports exactly the leaves of some earlier state of the accumulator. -/
def Reports (blake3 : List UInt8 → List UInt8) (event : Coverage) (merged : List Str) : Prop :=
  event.filesFolded = merged.toFinset.card ∧
    event.foldedSetId = foldedSetId blake3 merged.toFinset

/-- What holds of a driver between two turns. -/
structure Sound (blake3 : List UInt8 → List UInt8) (d : Driver) : Prop where
  counted : Counted d
  wellFormed : d.resolved.WellFormed blake3
  seeds : d.seedKeys = d.resolved.foldedMatchingFullKeys blake3
  worklist : ∀ task ∈ d.folds, task ∈ d.resolved.unfoldedCapped blake3
  handed : d.handed = d.seedKeys.take d.seedNext
  seedNext_le : d.seedNext ≤ d.seedKeys.length
  seeded : d.phase ≠ .seeding → d.seedNext = d.seedKeys.length
  merged : ∀ leaf ∈ d.merged, ∃ keys ∈ d.resolved.matched, leaf = partLeafOf blake3 keys.2
  reported : ∀ event ∈ d.events, ∃ merged, merged <+: d.merged ∧ Reports blake3 event merged
  latest : ∀ event ∈ d.events.getLast?, Reports blake3 event d.merged

theorem Counted.reports (h : Counted d) : Reports blake3 (d.coverage blake3) d.merged := by
  refine ⟨?_, ?_⟩
  · rw [← h.folded]
    exact h.card
  · show foldedSetId blake3 d.folded = _
    rw [h.folded]

section

variable (h : Sound blake3 d)
include h

theorem reported_emit (hcounted : Counted next)
    (hevents : next.events = d.events) (hmerged : next.merged = d.merged ++ more) :
    (∀ event ∈ (next.emit blake3).events,
      ∃ merged, merged <+: next.merged ∧ Reports blake3 event merged) ∧
    ∀ event ∈ (next.emit blake3).events.getLast?, Reports blake3 event next.merged := by
  have hlast := @Counted.reports blake3 _ hcounted
  constructor
  · intro event hevent
    rw [emit, hevents] at hevent
    rcases List.mem_append.mp hevent with hold | hnew
    · rcases h.reported event hold with ⟨merged, hprefix, hreports⟩
      refine ⟨merged, hprefix.trans ?_, hreports⟩
      rw [hmerged]
      exact List.prefix_append _ _
    · obtain rfl := List.mem_singleton.mp hnew
      exact ⟨next.merged, List.prefix_refl _, hlast⟩
  · intro event hevent
    rw [emit, List.getLast?_concat] at hevent
    cases hevent
    exact hlast

theorem Sound.host_of_seed (hkey : key ∈ d.seedKeys) :
    ∃ keys ∈ d.resolved.matched, partLeafOf blake3 key = partLeafOf blake3 keys.2 := by
  rw [h.seeds] at hkey
  rcases Resolved.mem_foldedMatchingFullKeys.mp hkey with ⟨keys, hmem, -, rfl⟩
  exact ⟨keys, hmem, rfl⟩

theorem Sound.matched_of_task (htask : task ∈ d.folds) : task ∈ d.resolved.matched := by
  have hcapped := (List.mem_filter.mp (h.worklist task htask)).1
  exact h.wellFormed.capped.subset hcapped

theorem Sound.join (htask : task ∈ d.folds)
    (hplan : SamePlan { d with folds := d.folds.erase task } next) (hcounted : Counted next)
    (hmerged : next.merged = d.merged ++ more) (hmore : more.Sublist [partLeafOf blake3 task.2]) :
    Sound blake3 (next.emit blake3) := by
  have hevents := reported_emit h hcounted hplan.events hmerged
  exact {
    counted := { hcounted with }
    wellFormed := by
      show next.resolved.WellFormed blake3
      rw [hplan.resolved]
      exact h.wellFormed
    seeds := by
      show next.seedKeys = next.resolved.foldedMatchingFullKeys blake3
      rw [hplan.resolved, hplan.seedKeys]
      exact h.seeds
    worklist := by
      show ∀ task ∈ next.folds, task ∈ next.resolved.unfoldedCapped blake3
      rw [hplan.folds, hplan.resolved]
      exact fun other hother => h.worklist other (List.mem_of_mem_erase hother)
    handed := by
      show next.handed = next.seedKeys.take next.seedNext
      rw [hplan.handed, hplan.seedKeys, hplan.seedNext]
      exact h.handed
    seedNext_le := by
      show next.seedNext ≤ next.seedKeys.length
      rw [hplan.seedNext, hplan.seedKeys]
      exact h.seedNext_le
    seeded := by
      show next.phase ≠ .seeding → next.seedNext = next.seedKeys.length
      rw [hplan.phase, hplan.seedNext, hplan.seedKeys]
      exact h.seeded
    merged := by
      show ∀ leaf ∈ next.merged, ∃ keys ∈ next.resolved.matched, leaf = partLeafOf blake3 keys.2
      rw [hmerged, hplan.resolved]
      intro leaf hleaf
      rcases List.mem_append.mp hleaf with hold | hnew
      · exact h.merged leaf hold
      · obtain rfl := List.mem_singleton.mp (hmore.subset hnew)
        exact ⟨task, h.matched_of_task htask, rfl⟩
    reported := hevents.1
    latest := hevents.2 }

end

/-- The keys of the next batch. -/
def batchKeys (d : Driver) (batchSize : Nat) : List Str :=
  (d.seedKeys.take (seedBatchEnd d.seedNext d.seedKeys.length batchSize)).drop d.seedNext

theorem le_seedBatchEnd {next len : Nat} (h : next ≤ len) (batchSize : Nat) :
    next ≤ seedBatchEnd next len batchSize := by
  unfold seedBatchEnd
  omega

theorem take_seedNext_append (d : Driver) (batchSize : Nat) (h : d.seedNext ≤ d.seedKeys.length) :
    d.seedKeys.take d.seedNext ++ d.batchKeys batchSize =
      d.seedKeys.take (seedBatchEnd d.seedNext d.seedKeys.length batchSize) := by
  have hle := le_seedBatchEnd h batchSize
  conv_rhs => rw [← List.take_append_drop d.seedNext
    (d.seedKeys.take (seedBatchEnd d.seedNext d.seedKeys.length batchSize))]
  rw [List.take_take, min_eq_left hle, batchKeys]

theorem drop_seedNext (d : Driver) (batchSize : Nat) (h : d.seedNext ≤ d.seedKeys.length) :
    d.seedKeys.drop d.seedNext =
      d.batchKeys batchSize ++
        d.seedKeys.drop (seedBatchEnd d.seedNext d.seedKeys.length batchSize) := by
  apply @List.append_cancel_left _ (d.seedKeys.take d.seedNext)
  rw [List.take_append_drop, ← List.append_assoc, take_seedNext_append d batchSize h,
    List.take_append_drop]

/-- The driver after the outcomes of a batch, at the end of it. -/
def seeded (blake3 : List UInt8 → List UInt8) (d : Driver) (batchSize : Nat)
    (outcomes : List (Str × Outcome)) : Driver :=
  { ({ d with handed := d.handed ++ d.batchKeys batchSize }.applyAll blake3 outcomes) with
    seedNext := seedBatchEnd d.seedNext d.seedKeys.length batchSize }

theorem step_seed {batchSize : Nat} (h : step blake3 d (.seed batchSize outcomes) = some next) :
    d.phase = .seeding ∧ (outcomes.map Prod.fst).Perm (d.batchKeys batchSize) ∧
      next = { ((d.seeded blake3 batchSize outcomes).emit blake3) with
        phase :=
          if (d.seeded blake3 batchSize outcomes).seedNext =
            (d.seeded blake3 batchSize outcomes).seedKeys.length then .folding
          else .seeding } := by
  rcases Option.ite_none_right_eq_some.mp h with ⟨⟨hphase, hperm⟩, ⟨⟩⟩
  exact ⟨hphase, hperm, rfl⟩

theorem seeded_plan (d : Driver) (batchSize : Nat) (outcomes : List (Str × Outcome)) :
    SamePlan { d with
        handed := d.handed ++ d.batchKeys batchSize
        seedNext := seedBatchEnd d.seedNext d.seedKeys.length batchSize }
      (d.seeded blake3 batchSize outcomes) ∧
    (d.seeded blake3 batchSize outcomes).merged =
      d.merged ++ outcomes.flatMap fun outcome => mergedLeaf blake3 outcome.1 outcome.2 := by
  rcases @applyAll_plan blake3
    { d with handed := d.handed ++ d.batchKeys batchSize } outcomes with ⟨hplan, hmerged⟩
  exact ⟨⟨hplan.resolved, hplan.seedKeys, hplan.folds, hplan.phase, hplan.handed, rfl,
    hplan.events⟩, hmerged⟩

theorem Sound.seed (h : Sound blake3 d) {batchSize : Nat}
    (hstep : step blake3 d (.seed batchSize outcomes) = some next) : Sound blake3 next := by
  rcases step_seed hstep with ⟨hphase, hperm, rfl⟩
  rcases @seeded_plan blake3 d batchSize outcomes with ⟨hplan, hmerged⟩
  have hkeys : ∀ outcome ∈ outcomes, ∃ keys ∈ d.resolved.matched,
      partLeafOf blake3 outcome.1 = partLeafOf blake3 keys.2 := by
    intro outcome hmem
    have hkey := hperm.subset (List.mem_map_of_mem hmem)
    exact h.host_of_seed (List.mem_of_mem_take (List.mem_of_mem_drop hkey))
  have hcounted : Counted (d.seeded blake3 batchSize outcomes) := by
    have hhanded : Counted { d with handed := d.handed ++ d.batchKeys batchSize } :=
      { h.counted with }
    have happlied : Counted ({ d with handed := d.handed ++ d.batchKeys batchSize }.applyAll
        blake3 outcomes) := by
      apply hhanded.applyAll
      · show d.phase ≠ .done
        simp [hphase]
      · intro outcome hmem
        rcases hkeys outcome hmem with ⟨keys, hmatched, heq⟩
        show (d.resolved.matchedHostForLeaf _).isSome = true
        rw [heq]
        exact Resolved.host_of_matched h.wellFormed hmatched
    exact { happlied with }
  have hevents := reported_emit h hcounted hplan.events hmerged
  generalize d.seeded blake3 batchSize outcomes = applied at *
  exact {
    counted := { hcounted with }
    wellFormed := by
      show applied.resolved.WellFormed blake3
      rw [hplan.resolved]
      exact h.wellFormed
    seeds := by
      show applied.seedKeys = applied.resolved.foldedMatchingFullKeys blake3
      rw [hplan.resolved, hplan.seedKeys]
      exact h.seeds
    worklist := by
      show ∀ task ∈ applied.folds, task ∈ applied.resolved.unfoldedCapped blake3
      rw [hplan.folds, hplan.resolved]
      exact h.worklist
    handed := by
      show applied.handed = applied.seedKeys.take applied.seedNext
      rw [hplan.handed, hplan.seedKeys, hplan.seedNext]
      show d.handed ++ _ = _
      rw [h.handed, take_seedNext_append d batchSize h.seedNext_le]
    seedNext_le := by
      show applied.seedNext ≤ applied.seedKeys.length
      rw [hplan.seedNext, hplan.seedKeys]
      exact min_le_right _ _
    seeded := by
      show (if applied.seedNext = applied.seedKeys.length then Phase.folding else .seeding) ≠
        .seeding → applied.seedNext = applied.seedKeys.length
      split <;> simp_all
    merged := by
      show ∀ leaf ∈ applied.merged,
        ∃ keys ∈ applied.resolved.matched, leaf = partLeafOf blake3 keys.2
      rw [hmerged, hplan.resolved]
      intro leaf hleaf
      rcases List.mem_append.mp hleaf with hold | hnew
      · exact h.merged leaf hold
      · rcases List.mem_map.mp ((mergedLeaf_sublist outcomes).subset hnew) with ⟨key, hkey, rfl⟩
        rcases List.mem_map.mp hkey with ⟨outcome, hmem, rfl⟩
        exact hkeys outcome hmem
    reported := hevents.1
    latest := hevents.2 }

theorem Sound.spoil (h : Sound blake3 d) (htask : task ∈ d.folds) (errors : FoldErrors) :
    Sound blake3 ({ d with folds := d.folds.erase task, errors := errors }.emit blake3) := by
  have hplan : SamePlan { d with folds := d.folds.erase task }
      { d with folds := d.folds.erase task, errors := errors } :=
    ⟨rfl, rfl, rfl, rfl, rfl, rfl, rfl⟩
  have hcounted : Counted { d with folds := d.folds.erase task, errors := errors } :=
    { h.counted with }
  exact h.join htask hplan hcounted (List.append_nil _).symm (List.nil_sublist _)

variable {action : Action}

theorem Sound.step (h : Sound blake3 d)
    (hstep : step blake3 d action = some next) : Sound blake3 next := by
  cases action with
  | seed batchSize outcomes => exact h.seed hstep
  | folded task outcome =>
    rcases Option.ite_none_right_eq_some.mp hstep with ⟨⟨hphase, htask⟩, ⟨⟩⟩
    rcases @apply_plan blake3 { d with folds := d.folds.erase task } task.2 outcome
      with ⟨hplan, hmerged⟩
    have hjoined : Counted { d with folds := d.folds.erase task } :=
      { h.counted with }
    apply h.join htask hplan _ hmerged
    · cases outcome with
      | none => exact List.Sublist.refl _
      | some error => exact List.nil_sublist _
    · apply hjoined.apply
      · show d.phase ≠ .done
        simp [hphase]
      · exact Resolved.host_of_matched h.wellFormed (h.matched_of_task htask)
  | failed _ _ | panicked _ _ =>
    rcases Option.ite_none_right_eq_some.mp hstep with ⟨⟨-, htask⟩, ⟨⟩⟩
    exact h.spoil htask _
  | drained finalEvent =>
    rcases Option.ite_none_right_eq_some.mp hstep with ⟨⟨hphase, -⟩, ⟨⟩⟩
    have hseeded : d.seedNext = d.seedKeys.length := h.seeded (by simp [hphase])
    cases finalEvent with
    | false =>
      exact ⟨{ h.counted with }, h.wellFormed, h.seeds,
        h.worklist, h.handed, h.seedNext_le, fun _ => hseeded, h.merged, h.reported, h.latest⟩
    | true =>
      have hevents := reported_emit h h.counted rfl (List.append_nil _).symm
      exact ⟨{ h.counted with }, h.wellFormed, h.seeds,
        h.worklist, h.handed, h.seedNext_le, fun _ => hseeded, h.merged, hevents.1, hevents.2⟩

theorem sound_new {r : Resolved} (h : r.WellFormed blake3) (seedOnly : Bool) :
    Sound blake3 (new blake3 r seedOnly) where
  counted := ⟨rfl, rfl, rfl⟩
  wellFormed := h
  seeds := rfl
  worklist := by
    intro task htask
    cases seedOnly with
    | true => cases htask
    | false => exact htask
  handed := List.take_zero.symm
  seedNext_le := Nat.zero_le _
  seeded := fun hphase => absurd rfl hphase
  merged := fun leaf hleaf => nomatch hleaf
  reported := fun event hevent => nomatch hevent
  latest := fun event hevent => nomatch hevent

/-! ## Every leaf once -/

/-- Nothing is in the accumulator, to be seeded or to be folded twice, or in two of them. -/
def Once (blake3 : List UInt8 → List UInt8) (d : Driver) : Prop :=
  (d.merged ++ (d.leavesToSeed blake3 ++ d.leavesToFold blake3)).Nodup

/-- A turn takes what it merges from what was still to come. -/
theorem Once.of_subperm (h : Once blake3 d) (hmerged : next.merged = d.merged ++ more)
    (hleft : (more ++ (next.leavesToSeed blake3 ++ next.leavesToFold blake3)).Subperm
      (d.leavesToSeed blake3 ++ d.leavesToFold blake3)) : Once blake3 next := by
  rcases (List.subperm_append_left d.merged).mpr hleft with ⟨leaves, hperm, hsublist⟩
  rw [Once, hmerged, List.append_assoc]
  exact hperm.nodup_iff.mp (h.sublist hsublist)

theorem Once.join (h : Once blake3 d) (htask : task ∈ d.folds)
    (hplan : SamePlan { d with folds := d.folds.erase task } next)
    (hmerged : next.merged = d.merged ++ more) (hmore : more.Sublist [partLeafOf blake3 task.2]) :
    Once blake3 (next.emit blake3) := by
  apply h.of_subperm hmerged
  have herased : (partLeafOf blake3 task.2 ::
      ((d.folds.erase task).map fun task => partLeafOf blake3 task.2)).Perm
      (d.leavesToFold blake3) :=
    ((List.perm_cons_erase htask).map fun other : Str × Str => partLeafOf blake3 other.2).symm
  show (more ++ ((next.seedKeys.drop next.seedNext).map _ ++ next.folds.map _)).Subperm _
  rw [hplan.seedKeys, hplan.seedNext, hplan.folds]
  apply ((List.subperm_append_right _).mpr hmore.subperm).trans
  exact (List.perm_middle.symm.trans (herased.append_left _)).subperm

theorem Once.spoil (h : Once blake3 d) (htask : task ∈ d.folds) (errors : FoldErrors) :
    Once blake3 ({ d with folds := d.folds.erase task, errors := errors }.emit blake3) := by
  have hplan : SamePlan { d with folds := d.folds.erase task }
      { d with folds := d.folds.erase task, errors := errors } :=
    ⟨rfl, rfl, rfl, rfl, rfl, rfl, rfl⟩
  exact h.join htask hplan (List.append_nil _).symm (List.nil_sublist _)

theorem Once.step (hsound : Sound blake3 d) (h : Once blake3 d)
    (hstep : step blake3 d action = some next) : Once blake3 next := by
  cases action with
  | seed batchSize outcomes =>
    rcases step_seed hstep with ⟨-, hperm, rfl⟩
    rcases @seeded_plan blake3 d batchSize outcomes with ⟨hplan, hmerged⟩
    apply h.of_subperm hmerged
    have hbatch := (@mergedLeaf_sublist blake3 outcomes).subperm.trans
      (hperm.map (partLeafOf blake3)).subperm
    show (_ ++ (((d.seeded blake3 batchSize outcomes).seedKeys.drop
      (d.seeded blake3 batchSize outcomes).seedNext).map _ ++
        (d.seeded blake3 batchSize outcomes).folds.map _)).Subperm _
    rw [hplan.seedKeys, hplan.seedNext, hplan.folds, leavesToSeed,
      drop_seedNext d batchSize hsound.seedNext_le, List.map_append, List.append_assoc]
    exact (List.subperm_append_right _).mpr hbatch
  | folded task outcome =>
    rcases Option.ite_none_right_eq_some.mp hstep with ⟨⟨-, htask⟩, ⟨⟩⟩
    rcases @apply_plan blake3 { d with folds := d.folds.erase task } task.2 outcome
      with ⟨hplan, hmerged⟩
    apply h.join htask hplan hmerged
    cases outcome with
    | none => exact List.Sublist.refl _
    | some error => exact List.nil_sublist _
  | failed _ _ | panicked _ _ =>
    rcases Option.ite_none_right_eq_some.mp hstep with ⟨⟨-, htask⟩, ⟨⟩⟩
    exact h.spoil htask _
  | drained finalEvent =>
    rcases Option.ite_none_right_eq_some.mp hstep with ⟨-, ⟨⟩⟩
    cases finalEvent with
    | false | true => exact h

theorem once_new {r : Resolved} {seedOnly : Bool} (h : r.Distinct blake3 seedOnly) :
    Once blake3 (new blake3 r seedOnly) := by
  show (([] : List Str) ++ (((r.foldedMatchingFullKeys blake3).drop 0).map _ ++
    (if seedOnly then [] else r.unfoldedCapped blake3).map _)).Nodup
  rw [List.nil_append, List.drop_zero]
  cases seedOnly with
  | true => simpa using h.seeds
  | false =>
    apply List.Nodup.append h.seeds (h.folds rfl)
    intro leaf hseed hfold
    rcases List.mem_map.mp hseed with ⟨key, hkey, rfl⟩
    rcases List.mem_map.mp hfold with ⟨task, htask, heq⟩
    exact Resolved.leaf_ne hkey htask heq.symm

/-! ## The coverage of a stream -/

/-- What a client may take the coverage of a stream to say, in any state of it. -/
structure Truthful (blake3 : List UInt8 → List UInt8) (d : Driver) : Prop where
  split : d.filesFolded = d.filesSeeded + d.filesFoldedCold
  distinct : d.filesFolded = d.merged.toFinset.card
  matched : ∀ leaf ∈ d.merged, ∃ keys ∈ d.resolved.matched, leaf = partLeafOf blake3 keys.2
  /-- No leaf is merged into the accumulator twice. -/
  once : d.merged.Nodup
  /-- No seed key is handed out twice, and after seeding none is left. -/
  handedOnce : d.handed.Nodup
  handed : d.handed <+: d.resolved.foldedMatchingFullKeys blake3
  handedAll : d.phase ≠ .seeding → d.handed = d.resolved.foldedMatchingFullKeys blake3
  disjoint : ∀ key ∈ d.resolved.foldedMatchingFullKeys blake3,
    ∀ task ∈ d.resolved.unfoldedCapped blake3, partLeafOf blake3 key ≠ partLeafOf blake3 task.2
  /-- Each event reports the leaves merged by then, and the last one all of them. -/
  reported : ∀ event ∈ d.events, ∃ merged, merged <+: d.merged ∧ Reports blake3 event merged
  latest : ∀ event ∈ d.events.getLast?, Reports blake3 event d.merged
  closed : d.phase = .done → ∀ action, step blake3 d action = none

theorem step_done (h : d.phase = .done) (action : Action) : step blake3 d action = none := by
  cases action <;> simp [step, h]

/-- What the run keeps besides: the seeds it hands out have distinct leaves. -/
theorem Sound.truthful (h : Sound blake3 d) (honce : Once blake3 d)
    (hseeds : ((d.resolved.foldedMatchingFullKeys blake3).map (partLeafOf blake3)).Nodup) :
    Truthful blake3 d where
  split := h.counted.split
  distinct := by
    rw [h.counted.card, h.counted.folded]
  matched := h.merged
  once := (List.nodup_append.mp honce).1
  handedOnce := by
    rw [h.handed, h.seeds]
    exact hseeds.of_map.sublist (List.take_sublist _ _)
  handed := by
    rw [h.handed, h.seeds]
    exact List.take_prefix _ _
  handedAll := by
    intro hphase
    rw [h.handed, h.seeded hphase, List.take_length, h.seeds]
  disjoint := fun key hkey task htask => Resolved.leaf_ne hkey htask
  reported := h.reported
  latest := h.latest
  closed := fun hdone action => step_done hdone action

theorem step_resolved (hstep : step blake3 d action = some next) : next.resolved = d.resolved := by
  cases action with
  | seed batchSize outcomes =>
    rcases step_seed hstep with ⟨-, -, rfl⟩
    exact (@seeded_plan blake3 d batchSize outcomes).1.resolved
  | folded task outcome =>
    rcases Option.ite_none_right_eq_some.mp hstep with ⟨-, ⟨⟩⟩
    exact (@apply_plan blake3 { d with folds := d.folds.erase task } task.2
      outcome).1.resolved
  | failed _ _ | panicked _ _ =>
    rcases Option.ite_none_right_eq_some.mp hstep with ⟨-, ⟨⟩⟩
    rfl
  | drained finalEvent =>
    rcases Option.ite_none_right_eq_some.mp hstep with ⟨-, ⟨⟩⟩
    cases finalEvent <;> rfl

/-- In every state of every stream over a resolved scope whose reused keys, and
whose keys to be folded, have distinct leaves, the coverage is truthful. -/
theorem coverage_truthful {default : DefaultCap} {listings : List (List ObjectInfo)}
    {scope : Scope} {segmentDurationSecs : Int} {sourceIsLocal : Bool} {sourceBucket : Str}
    {maxFiles : Option Nat} {folded : List Str} {r : Resolved} {seedOnly : Bool}
    {actions : List Action}
    (hresolve : resolve blake3 default listings scope segmentDurationSecs sourceIsLocal
      sourceBucket maxFiles folded = .ok r)
    (hdistinct : r.Distinct blake3 seedOnly)
    (hrun : run (step blake3) (new blake3 r seedOnly) actions = some d) :
    d.resolved = r ∧ Truthful blake3 d := by
  have hstart : (new blake3 r seedOnly).resolved = r ∧ Sound blake3 (new blake3 r seedOnly) ∧
      Once blake3 (new blake3 r seedOnly) :=
    ⟨rfl, sound_new (resolve_wellFormed hresolve) seedOnly, once_new hdistinct⟩
  have hinv : d.resolved = r ∧ Sound blake3 d ∧ Once blake3 d := by
    apply run_invariant (S := Driver) _
      hstart (along_true _ _) hrun
    rintro d action next ⟨hresolved, hsound, honce⟩ - hstep
    exact ⟨(step_resolved hstep).trans hresolved, hsound.step hstep, honce.step hsound hstep⟩
  rcases hinv with ⟨rfl, hsound, honce⟩
  exact ⟨rfl, hsound.truthful honce hdistinct.seeds⟩

/-- The turns that a stream may still take. -/
def turnsLeft (d : Driver) : Nat :=
  d.folds.length +
    match d.phase with
    | .seeding => 2 + (d.seedKeys.length - d.seedNext)
    | .folding => 1
    | .done => 0

theorem turnsLeft_step (hstep : step blake3 d action = some next) :
    next.turnsLeft < d.turnsLeft := by
  have hjoin : ∀ {task : Str × Str} {joined : Driver}, d.phase = .folding ∧ task ∈ d.folds →
      joined.phase = d.phase → joined.folds = d.folds.erase task →
        (joined.emit blake3).turnsLeft < d.turnsLeft := by
    rintro task joined ⟨hphase, htask⟩ hsame hfolds
    have hlength := List.length_erase_add_one htask
    simp only [turnsLeft, emit, hsame, hfolds, hphase]
    omega
  cases action with
  | seed batchSize outcomes =>
    rcases step_seed hstep with ⟨hphase, -, rfl⟩
    rcases @seeded_plan blake3 d batchSize outcomes with ⟨hplan, -⟩
    simp only [turnsLeft, emit, hplan.folds, hplan.seedKeys, hplan.seedNext, hphase, seedBatchEnd]
    generalize hlast : min (d.seedNext + max batchSize 1) d.seedKeys.length = last
    by_cases hall : last = d.seedKeys.length
    · simp only [if_pos hall]
      omega
    · simp only [if_neg hall]
      omega
  | folded task outcome =>
    rcases Option.ite_none_right_eq_some.mp hstep with ⟨hready, ⟨⟩⟩
    have hplan := (@apply_plan blake3 { d with folds := d.folds.erase task } task.2 outcome).1
    exact hjoin hready hplan.phase hplan.folds
  | failed _ _ | panicked _ _ =>
    rcases Option.ite_none_right_eq_some.mp hstep with ⟨hready, ⟨⟩⟩
    exact hjoin hready rfl rfl
  | drained finalEvent =>
    rcases Option.ite_none_right_eq_some.mp hstep with ⟨⟨hphase, hfolds⟩, ⟨⟩⟩
    cases finalEvent with
    | false | true => simp [turnsLeft, emit, hphase, hfolds]

/-- Every stream ends, and nothing but its end stops it. -/
theorem stream_ends (d : Driver) :
    Terminates (step blake3) d ∧ ((∀ action, step blake3 d action = none) ↔ d.phase = .done) := by
  refine ⟨?_, ?_, step_done⟩
  · exact @terminates_of_measure _ _ _ (fun _ => True) _ _ _ _ turnsLeft
      (fun _ _ _ _ hstep => ⟨trivial, turnsLeft_step hstep⟩) trivial
  · intro hstuck
    cases hphase : d.phase with
    | done => rfl
    | seeding =>
      have hkeys : ((d.batchKeys 1).map (·, (none : Outcome))).map Prod.fst = d.batchKeys 1 :=
        List.map_map.trans (List.map_id _)
      exact absurd ((hstuck (.seed 1 _)).symm.trans (if_pos ⟨hphase, .of_eq hkeys⟩)) nofun
    | folding =>
      cases hfolds : d.folds with
      | nil =>
        have h := hstuck (.drained false)
        simp [step, hphase, hfolds] at h
      | cons task folds =>
        have h := hstuck (.folded task none)
        simp [step, hphase, hfolds] at h

/-! ### A directory with a link -/

def linkedKey : Str := "2026-08-14/1937/api/host/1-0.bin".toList

/-- A directory of one segment, with a link beside its date. -/
def linkedTree : LocalTree := fun path =>
  if path = [] then
    [("2026-08-14".toList, .directory ["2026-08-14".toList]),
      ("latest".toList, .directory ["2026-08-14".toList])]
  else if path = ["2026-08-14".toList] then
    [("1937".toList, .directory ["2026-08-14".toList, "1937".toList])]
  else if path = ["2026-08-14".toList, "1937".toList] then
    [("api".toList, .directory ["2026-08-14".toList, "1937".toList, "api".toList])]
  else if path = ["2026-08-14".toList, "1937".toList, "api".toList] then
    [("host".toList,
      .directory ["2026-08-14".toList, "1937".toList, "api".toList, "host".toList])]
  else if path = ["2026-08-14".toList, "1937".toList, "api".toList, "host".toList] then
    [("1-0.bin".toList, .file 64)]
  else []

/-- The hash of the one key. -/
def linkedBlake3 (bytes : List UInt8) : List UInt8 :=
  if bytes = Str.asBytes linkedKey then
    [232, 13, 144, 249, 197, 145, 42, 214, 221, 23, 67, 82, 92, 108, 100, 81, 138, 238, 94, 134,
      197, 154, 163, 125, 219, 37, 252, 219, 57, 1, 204, 43]
  else []

def linkedResolved : Resolved where
  matched := [(linkedKey, linkedKey), (linkedKey, linkedKey)]
  matchedLeafHosts :=
    [(partLeafOf linkedBlake3 linkedKey, "host".toList),
      (partLeafOf linkedBlake3 linkedKey, "host".toList)]
  capped := [(linkedKey, linkedKey), (linkedKey, linkedKey)]
  folded := []
  filesMatched := 2
  totalBytes := 128
  hostsMatched := 1

/-- The listing enters the directory twice, under one path. -/
theorem collectFilesUncapped_linkedTree :
    collectFilesUncapped linkedTree [] 6 [] = [⟨linkedKey, 64⟩, ⟨linkedKey, 64⟩] := by
  decide

theorem matchedAndOrdered_linked :
    matchedAndOrdered linkedBlake3 [⟨linkedKey, 64⟩, ⟨linkedKey, 64⟩] ⟨none, none, none, []⟩ 60 =
      [⟨linkedKey, 64⟩, ⟨linkedKey, 64⟩] := by
  have hkept : (([⟨linkedKey, 64⟩, ⟨linkedKey, 64⟩] : List ObjectInfo).filter fun object =>
        isTraceSegment object.key).filter (fun object =>
        scopeMatches object.key ⟨none, none, none, []⟩ 60) =
      List.replicate 2 ⟨linkedKey, 64⟩ := by
    decide
  rw [matchedAndOrdered, hkept]
  exact List.perm_replicate.mp (List.mergeSort_perm _ _)

theorem resolve_linked :
    resolve linkedBlake3 ⟨fun _ => 0, 300⟩ [collectFilesUncapped linkedTree [] 6 []]
      ⟨none, none, none, []⟩ 60 true [] none [] = .ok linkedResolved := by
  rw [collectFilesUncapped_linkedTree, resolve, orderedFullKeysWithSize, List.flatten_singleton,
    matchedAndOrdered_linked]
  rfl

/-- The two listings of the file are two tasks, and its part is merged twice. -/
theorem merged_twice :
    resolve linkedBlake3 ⟨fun _ => 0, 300⟩ [collectFilesUncapped linkedTree [] 6 []]
      ⟨none, none, none, []⟩ 60 true [] none [] = .ok linkedResolved ∧
    ∃ d, run (step linkedBlake3) (new linkedBlake3 linkedResolved false)
        [.seed 1 [], .folded (linkedKey, linkedKey) none, .folded (linkedKey, linkedKey) none] =
          some d ∧
      d.merged = [partLeafOf linkedBlake3 linkedKey, partLeafOf linkedBlake3 linkedKey] ∧
      ¬ Truthful linkedBlake3 d := by
  have hmerged : ∃ d, run (step linkedBlake3) (new linkedBlake3 linkedResolved false)
        [.seed 1 [], .folded (linkedKey, linkedKey) none, .folded (linkedKey, linkedKey) none] =
          some d ∧
      d.merged = [partLeafOf linkedBlake3 linkedKey, partLeafOf linkedBlake3 linkedKey] :=
    ⟨_, rfl, rfl⟩
  rcases hmerged with ⟨d, hrun, hmerged⟩
  refine ⟨resolve_linked, d, hrun, hmerged, ?_⟩
  intro htruthful
  have honce := htruthful.once
  rw [hmerged] at honce
  simp at honce

/-- The scope without the link. -/
def unlinkedResolved : Resolved where
  matched := [(linkedKey, linkedKey)]
  matchedLeafHosts := [(partLeafOf linkedBlake3 linkedKey, "host".toList)]
  capped := [(linkedKey, linkedKey)]
  folded := []
  filesMatched := 1
  totalBytes := 64
  hostsMatched := 1

theorem resolve_unlinked :
    resolve linkedBlake3 ⟨fun _ => 0, 300⟩ [[⟨linkedKey, 64⟩]] ⟨none, none, none, []⟩ 60 true []
      none [] = .ok unlinkedResolved := by
  have hkept : (([⟨linkedKey, 64⟩] : List ObjectInfo).filter fun object =>
        isTraceSegment object.key).filter (fun object =>
        scopeMatches object.key ⟨none, none, none, []⟩ 60) = [⟨linkedKey, 64⟩] := by
    decide
  rw [resolve, orderedFullKeysWithSize, List.flatten_singleton, matchedAndOrdered, hkept,
    List.mergeSort_singleton]
  rfl

/-- The stream over it folds the one file. -/
theorem coverage_truthful_unlinked :
    ∃ d, run (step linkedBlake3) (new linkedBlake3 unlinkedResolved false)
        [.seed 1 [], .folded (linkedKey, linkedKey) none, .drained true] = some d ∧
      d.resolved = unlinkedResolved ∧ Truthful linkedBlake3 d := by
  have hdistinct : unlinkedResolved.Distinct linkedBlake3 false :=
    ⟨by decide, fun _ => by decide⟩
  have hrun : ∃ d, run (step linkedBlake3) (new linkedBlake3 unlinkedResolved false)
      [.seed 1 [], .folded (linkedKey, linkedKey) none, .drained true] = some d :=
    ⟨_, rfl⟩
  rcases hrun with ⟨d, hrun⟩
  exact ⟨d, hrun, coverage_truthful resolve_unlinked hdistinct hrun⟩

end Driver

end Dial9.Viewer.FoldStream
