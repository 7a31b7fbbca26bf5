/-
# Attributes of the example spans

A report refers to a span wherever it shows it as an example. The attributes of those
spans are read once the report is made, and every reference gets a copy. What all the
copies take is bounded: each reference has room for its brackets set aside, and a span
is given no more than the rest divided by its references.
-/

import Dial9.Lib.InsertionMap
import Dial9.Lib.Strings
import Mathlib.Algebra.BigOperators.Group.Finset.Basic
import Mathlib.Algebra.Order.BigOperators.Group.Finset

namespace Dial9.Viewer.Tail

open Lib (InsertionMap Str)

def maxExampleAttributes : Nat := 64

def maxExampleAttributeBytes : Nat := 8 * 1024

def maxReportAttributeBytes : Nat := 16 * 1024 * 1024

/-- A source, the start and end of a span in it, and the span's uid. -/
abbrev Identity := Nat × (Int × Int) × String

abbrev Attributes := List (String × String)

structure Example where
  startNs : String
  endNs : String
  attributes : Option Attributes
  attributesOmitted : Option Nat
  source : Nat
  spanUid : String

/-- The examples of a report, and those of each signal's points. -/
structure Report where
  examples : List Example
  points : List (List Example)

def Report.every (report : Report) : List Example := report.examples ++ report.points.flatten

/-- `None` where a coordinate does not parse. -/
def Example.identity (shown : Example) : Option Identity := do
  let start ← Str.parseSigned 64 shown.startNs.toList
  let stop ← Str.parseSigned 64 shown.endNs.toList
  some (shown.source, (start, stop), shown.spanUid)

def Report.references (report : Report) : List Identity := report.every.filterMap Example.identity

structure ExampleMetadata where
  references : Nat := 0
  seen : Bool := false
  attributes : Option Attributes := none
  omitted : Option Nat := none
  extraBytes : Nat := 0

/-- The maps from sources, coordinates and uids are one map from all three. -/
structure MetadataHydrator where
  sources : InsertionMap Identity ExampleMetadata
  bytesUsed : Nat

/-- The arguments of a call of `record`. -/
structure Row where
  identity : Identity
  attributes : Attributes

/-- A difference, where nothing wraps. -/
def sub? (a b : Nat) : Option Nat := if b ≤ a then some (a - b) else none

def div? (a b : Nat) : Option Nat := if b = 0 then none else some (a / b)

section

variable {ε : Type} (pairBytes : String × String → Except ε Nat) (budget : Nat)

/-- The loop over the pairs. The length of a pair as JSON is the serializer's, which may fail. -/
def capture : Attributes → (captured : Attributes) → (bytes : Nat) → Except ε (Attributes × Nat)
  | [], captured, bytes => .ok (captured, bytes)
  | pair :: rest, captured, bytes =>
    if captured.length = maxExampleAttributes ∨
        budget < pair.1.utf8ByteSize + pair.2.utf8ByteSize then
      capture rest captured bytes
    else do
      let additional := (← pairBytes pair) + (!captured.isEmpty).toNat
      if bytes + additional ≤ budget then
        capture rest (captured ++ [pair]) (bytes + additional)
      else capture rest captured bytes

/-- What a call makes of the entry of its identity, given the bytes that it may take. -/
def ExampleMetadata.record (entry : ExampleMetadata) (attributes : Attributes) : ExampleMetadata :=
  if entry.seen then { entry with extraBytes := 0, attributes := none, omitted := none }
  else
    match capture pairBytes budget attributes [] 2 with
    | .error _ => { entry with seen := true }
    | .ok (captured, bytes) =>
      { entry with
        seen := true
        attributes := some captured
        omitted := some (attributes.length - captured.length)
        extraBytes := bytes - 2 }

variable {pairBytes budget} {pairs captured captured' : Attributes} {bytes bytes' : Nat}

theorem capture_bounds (hle : bytes ≤ budget)
    (hcapture : capture pairBytes budget pairs captured bytes = .ok (captured', bytes')) :
    captured'.length ≤ captured.length + pairs.length ∧ bytes ≤ bytes' ∧ bytes' ≤ budget := by
  induction pairs generalizing captured bytes with
  | nil =>
    obtain ⟨rfl, rfl⟩ : captured = captured' ∧ bytes = bytes' := by simpa [capture] using hcapture
    exact ⟨le_rfl, le_rfl, hle⟩
  | cons pair rest ih =>
    have hpassed (h : capture pairBytes budget rest captured bytes = .ok (captured', bytes')) :
        captured'.length ≤ captured.length + (pair :: rest).length ∧ bytes ≤ bytes' ∧
          bytes' ≤ budget := by
      have := ih hle h
      rw [List.length_cons]
      omega
    rw [capture] at hcapture
    split_ifs at hcapture with hskip
    · exact hpassed hcapture
    · cases hbytes : pairBytes pair with
      | error e =>
        rw [hbytes] at hcapture
        cases hcapture
      | ok size =>
        simp only [hbytes, bind, Except.bind] at hcapture
        generalize size + (!captured.isEmpty).toNat = additional at hcapture
        split_ifs at hcapture with hfits
        · have := ih hfits hcapture
          simp only [List.length_append, List.length_cons, List.length_nil] at this ⊢
          omega
        · exact hpassed hcapture

end

namespace MetadataHydrator

variable {ε : Type} (pairBytes : String × String → Except ε Nat)

def refer (state : InsertionMap Identity ExampleMetadata × Nat) (shown : Example) :
    InsertionMap Identity ExampleMetadata × Nat :=
  match shown.identity with
  | none => state
  | some id =>
    (state.1.update id fun entry =>
      let entry := entry.getD {}
      { entry with references := entry.references + 1 }, state.2 + 1)

def new (report : Report) : MetadataHydrator :=
  let (sources, references) := report.every.foldl refer ([], 0)
  { sources, bytesUsed := references * 2 }

def budget? (h : MetadataHydrator) (references : Nat) : Option Nat := do
  let extraBudget ← div? (← sub? maxReportAttributeBytes h.bytesUsed) references
  some (min maxExampleAttributeBytes (extraBudget + 2))

/-- `None` if a subtraction wraps or a divisor is zero; the result of the call otherwise, with
what it leaves. -/
def record (h : MetadataHydrator) (row : Row) : Option (MetadataHydrator × Except ε Unit) :=
  match h.sources.get? row.identity with
  | none => some (h, .ok ())
  | some entry =>
    if entry.seen then do
      let bytesUsed ← sub? h.bytesUsed (entry.extraBytes * entry.references)
      let entry := { entry with extraBytes := 0, attributes := none, omitted := none }
      some (⟨h.sources.update row.identity fun _ => entry, bytesUsed⟩, .ok ())
    else do
      let entry := { entry with seen := true }
      let budget ← h.budget? entry.references
      match capture pairBytes budget row.attributes [] 2 with
      | .error e =>
        some ({ h with sources := h.sources.update row.identity fun _ => entry }, .error e)
      | .ok (captured, bytes) =>
        let omitted ← sub? row.attributes.length captured.length
        let extraBytes ← sub? bytes 2
        let entry := { entry with omitted := some omitted, attributes := some captured, extraBytes }
        some (⟨h.sources.update row.identity fun _ => entry,
          h.bytesUsed + extraBytes * entry.references⟩, .ok ())

/-- A call that fails leaves what it has done. -/
def recordAll (h : MetadataHydrator) : List Row → Option MetadataHydrator
  | [] => some h
  | row :: rest => do
    let (h, _) ← h.record pairBytes row
    h.recordAll rest

def hydrate (h : MetadataHydrator) (shown : Example) : Example :=
  match shown.identity.bind h.sources.get? with
  | none => shown
  | some entry => { shown with attributes := entry.attributes, attributesOmitted := entry.omitted }

def finish (h : MetadataHydrator) (report : Report) : Report where
  examples := report.examples.map h.hydrate
  points := report.points.map (List.map h.hydrate)

/-! ## The counter -/

def extraBytes (h : MetadataHydrator) (id : Identity) : Nat :=
  ((h.sources.get? id).map ExampleMetadata.extraBytes).getD 0

/-- What the references take over what is set aside for each. -/
def retained (h : MetadataHydrator) (references : List Identity) : Nat :=
  ∑ id ∈ references.toFinset, h.extraBytes id * references.count id

/-- The bytes that a span with so many references may take. -/
def allowance (h : MetadataHydrator) (references : Nat) : Nat :=
  min maxExampleAttributeBytes ((maxReportAttributeBytes - h.bytesUsed) / references + 2)

/-- The counter of a hydrator for a report with these references. -/
structure Accounted (references : List Identity) (h : MetadataHydrator) : Prop where
  bytesUsed : h.bytesUsed = 2 * references.length + h.retained references
  withinBudget : h.bytesUsed ≤ maxReportAttributeBytes
  entry : ∀ id entry, h.sources.get? id = some entry →
    id ∈ references ∧ entry.references = references.count id ∧
      (entry.seen = false → entry.extraBytes = 0)

variable {references : List Identity} {h : MetadataHydrator} {known : ExampleMetadata}
  {id : Identity} {row : Row}

theorem retained_update (hmem : id ∈ references) (entry' : ExampleMetadata) (bytesUsed : Nat) :
    retained ⟨h.sources.update id fun _ => entry', bytesUsed⟩ references +
        h.extraBytes id * references.count id =
      h.retained references + entry'.extraBytes * references.count id := by
  have hmem : id ∈ references.toFinset := List.mem_toFinset.mpr hmem
  rw [retained, retained, ← Finset.add_sum_erase _ _ hmem, ← Finset.add_sum_erase _ _ hmem]
  have hself : extraBytes ⟨h.sources.update id fun _ => entry', bytesUsed⟩ id =
      entry'.extraBytes := by
    rw [extraBytes, InsertionMap.get?_update_self]
    rfl
  have hothers : ∑ other ∈ references.toFinset.erase id,
      extraBytes ⟨h.sources.update id fun _ => entry', bytesUsed⟩ other * references.count other =
        ∑ other ∈ references.toFinset.erase id, h.extraBytes other * references.count other := by
    refine Finset.sum_congr rfl fun other hother => ?_
    rw [extraBytes, InsertionMap.get?_update_of_ne (Finset.ne_of_mem_erase hother).symm]
    rfl
  rw [hself, hothers]
  omega

theorem budget?_eq (hused : h.bytesUsed ≤ maxReportAttributeBytes) {n : Nat} (hn : n ≠ 0) :
    h.budget? n = some (h.allowance n) := by
  simp [budget?, allowance, sub?, div?, hused, hn]

section

variable (hacc : h.Accounted references)
include hacc

theorem Accounted.replace (hget : h.sources.get? id = some known)
    (entry' : ExampleMetadata) (href : entry'.references = known.references)
    (hseen : entry'.seen = true) (hroom : entry'.extraBytes * known.references ≤
      maxReportAttributeBytes - h.bytesUsed + known.extraBytes * known.references) :
    known.extraBytes * known.references ≤ h.bytesUsed ∧
      Accounted references ⟨h.sources.update id fun _ => entry',
        h.bytesUsed - known.extraBytes * known.references +
          entry'.extraBytes * known.references⟩ := by
  rcases hacc.entry id known hget with ⟨hmem, hcount, -⟩
  have hextra : h.extraBytes id = known.extraBytes := by
    rw [extraBytes, hget]
    rfl
  have hused := hacc.bytesUsed
  have hbudget := hacc.withinBudget
  have hsum := retained_update (h := h) hmem entry' (h.bytesUsed -
    known.extraBytes * known.references + entry'.extraBytes * known.references)
  have hnone := retained_update (h := h) hmem {} 0
  rw [show ({} : ExampleMetadata).extraBytes = 0 from rfl, Nat.zero_mul] at hnone
  rw [hextra, ← hcount] at hsum hnone
  refine ⟨by omega, ?_, ?_, fun other entry hother => ?_⟩
  · change _ + _ = _
    omega
  · change _ + _ ≤ _
    omega
  · rw [InsertionMap.get?_update] at hother
    split_ifs at hother with hid
    · cases hother
      refine ⟨hid ▸ hmem, hid ▸ href.trans hcount, fun hunseen => ?_⟩
      rw [hseen] at hunseen
      cases hunseen
    · exact hacc.entry other entry hother

theorem Accounted.record_known (hget : h.sources.get? row.identity = some known) :
    ∃ after result, h.record pairBytes row = some (after, result) ∧ after.Accounted references ∧
      after.sources = h.sources.update row.identity fun _ =>
        known.record pairBytes (h.allowance known.references) row.attributes := by
  rcases hacc.entry _ known hget with ⟨hmem, hcount, hunseen⟩
  have hreferences : known.references ≠ 0 := hcount ▸ (List.count_pos_iff.mpr hmem).ne'
  by_cases hseen : known.seen = true
  · obtain ⟨hle, hafter⟩ := hacc.replace hget
      { known with extraBytes := 0, attributes := none, omitted := none } rfl hseen (by simp)
    refine ⟨_, .ok (), ?_, hafter, ?_⟩
    · simp [record, hget, hseen, sub?, hle]
    · simp [ExampleMetadata.record, hseen]
  · have hextra := hunseen (Bool.eq_false_of_not_eq_true hseen)
    have hallowed := budget?_eq hacc.withinBudget hreferences
    cases hcapture : capture pairBytes (h.allowance known.references) row.attributes [] 2 with
    | error e =>
      obtain ⟨hle, hafter⟩ := hacc.replace hget { known with seen := true } rfl rfl (by simp)
      refine ⟨_, .error e, ?_, hafter, ?_⟩
      · simp [record, hget, hseen, hallowed, hcapture, Nat.sub_add_cancel hle]
      · simp [ExampleMetadata.record, hseen, hcapture]
    | ok taken =>
      rcases taken with ⟨captured, bytes⟩
      rcases capture_bounds (Nat.le_min.mpr ⟨by decide, Nat.le_add_left _ _⟩) hcapture with
        ⟨hlength, hleast, hmost⟩
      have hshare : bytes - 2 ≤ (maxReportAttributeBytes - h.bytesUsed) / known.references := by
        have := (Nat.le_min.mp hmost).2
        omega
      have hroom := (Nat.le_div_iff_mul_le (Nat.pos_of_ne_zero hreferences)).mp hshare
      obtain ⟨-, hafter⟩ := hacc.replace hget { known with
        seen := true
        attributes := some captured
        omitted := some (row.attributes.length - captured.length)
        extraBytes := bytes - 2 } rfl rfl (hroom.trans (Nat.le_add_right _ _))
      refine ⟨_, .ok (), ?_, hafter, ?_⟩
      · have hlength : captured.length ≤ row.attributes.length := by simpa using hlength
        simp [record, hget, hseen, hallowed, hcapture, sub?, hlength, hleast, hextra]
      · simp [ExampleMetadata.record, hseen, hcapture]

/-- A call leaves the counter right, and changes the entry of its identity only. -/
theorem Accounted.record_spec (row : Row) :
    ∃ after result, h.record pairBytes row = some (after, result) ∧ after.Accounted references ∧
      ∀ id, after.sources.get? id = (h.sources.get? id).map fun entry =>
        if row.identity = id then
          entry.record pairBytes (h.allowance entry.references) row.attributes
        else entry := by
  cases hget : h.sources.get? row.identity with
  | none =>
    refine ⟨h, .ok (), by rw [record, hget], hacc, fun id => ?_⟩
    by_cases hid : row.identity = id
    · rw [← hid, hget]
      rfl
    · simp [hid]
  | some entry =>
    obtain ⟨after, result, hrecord, hafter, hsources⟩ := hacc.record_known pairBytes hget
    refine ⟨after, result, hrecord, hafter, fun id => ?_⟩
    rw [hsources, InsertionMap.get?_update]
    split_ifs with hid
    · rw [← hid, hget]
      rfl
    · simp

end

/-! ## Runs -/

theorem recordAll_append (h : MetadataHydrator) (rows more : List Row) :
    h.recordAll pairBytes (rows ++ more) =
      (h.recordAll pairBytes rows).bind fun h => h.recordAll pairBytes more := by
  induction rows generalizing h with
  | nil => rfl
  | cons row rest ih =>
    cases hrecord : h.record pairBytes row with
    | none => simp [recordAll, hrecord]
    | some result => simp [recordAll, hrecord, ih]

/-- What an entry holds once its identity has been recorded so many times. -/
def Sightings (entry : ExampleMetadata) : Nat → Prop
  | 0 => entry.seen = false
  | 1 => entry.seen = true
  | _ + 2 => entry.seen = true ∧ entry.attributes = none ∧ entry.omitted = none

theorem Sightings.record {n budget : Nat} (h : Sightings known n) (attributes : Attributes) :
    Sightings (known.record pairBytes budget attributes) (n + 1) := by
  match n, h with
  | 0, h =>
    have hunseen : ¬ known.seen = true := by simpa [Sightings] using h
    rw [ExampleMetadata.record, if_neg hunseen]
    split <;> rfl
  | 1, h =>
    have h : known.seen = true := h
    simp [ExampleMetadata.record, h, Sightings]
  | n + 2, h => simp [ExampleMetadata.record, h.1, Sightings]

theorem Accounted.recordAll_spec (hacc : h.Accounted references) (rows : List Row) :
    ∃ after, h.recordAll pairBytes rows = some after ∧ after.Accounted references ∧
      ∀ id entry n, h.sources.get? id = some entry → Sightings entry n →
        ∃ entry', after.sources.get? id = some entry' ∧
          Sightings entry' (n + (rows.map Row.identity).count id) ∧
          (id ∉ rows.map Row.identity → entry' = entry) := by
  induction rows generalizing h with
  | nil => exact ⟨h, rfl, hacc, fun id entry n hget hn => ⟨entry, hget, hn, fun _ => rfl⟩⟩
  | cons row rest ih =>
    obtain ⟨middle, result, hrecord, hmiddle, hgets⟩ := hacc.record_spec pairBytes row
    obtain ⟨after, hafter, hacc, hspec⟩ := ih hmiddle
    refine ⟨after, by simp [recordAll, hrecord, hafter], hacc, fun id entry n hget hn => ?_⟩
    have hstep := hgets id
    rw [hget, Option.map_some] at hstep
    split_ifs at hstep with hid
    · obtain ⟨entry', hget', hsight, -⟩ := hspec id _ _ hstep (hn.record pairBytes row.attributes)
      subst hid
      refine ⟨entry', hget', ?_, fun hnot => absurd List.mem_cons_self hnot⟩
      rwa [List.map_cons, List.count_cons_self, ← Nat.add_assoc, Nat.add_right_comm]
    · obtain ⟨entry', hget', hsight, hsame⟩ := hspec id _ _ hstep hn
      refine ⟨entry', hget', ?_, fun hnot => hsame fun hmem => hnot (List.mem_cons_of_mem _ hmem)⟩
      rwa [List.map_cons, List.count_cons_of_ne hid]

/-- The entry of an identity that a report refers to so many times. -/
def tallied (n : Nat) : Option ExampleMetadata :=
  if n = 0 then none else some { references := n }

theorem foldl_refer (shown : List Example) :
    (shown.foldl refer ([], 0)).2 = (shown.filterMap Example.identity).length ∧
      ∀ id, (shown.foldl refer ([], 0)).1.get? id =
        tallied ((shown.filterMap Example.identity).count id) := by
  induction shown using List.reverseRecOn with
  | nil => exact ⟨rfl, fun _ => rfl⟩
  | append_singleton shown last ih =>
    rw [List.foldl_append, List.filterMap_append, List.foldl_cons, List.foldl_nil]
    cases hlast : last.identity with
    | none => simpa [refer, hlast] using ih
    | some id =>
      simp only [refer, hlast, List.filterMap_cons, List.filterMap_nil, List.length_append,
        List.length_singleton, List.count_append, List.count_singleton]
      refine ⟨congrArg (· + 1) ih.1, fun other => ?_⟩
      rw [InsertionMap.get?_update, ih.2, ih.2]
      by_cases hid : id = other
      · subst hid
        by_cases hnone : (shown.filterMap Example.identity).count id = 0
        · simp [tallied, hnone]
        · simp [tallied, hnone]
      · rw [if_neg hid, if_neg (by simpa using hid)]
        rfl

theorem get?_new (report : Report) (id : Identity) :
    (new report).sources.get? id = tallied (report.references.count id) :=
  (foldl_refer report.every).2 id

theorem accounted_new {report : Report}
    (hfit : 2 * report.references.length ≤ maxReportAttributeBytes) :
    (new report).Accounted report.references := by
  have hused : (new report).bytesUsed = 2 * report.references.length := by
    rw [Nat.mul_comm]
    exact congrArg (· * 2) (foldl_refer report.every).1
  have hnone (id : Identity) : (new report).extraBytes id = 0 := by
    rw [extraBytes, get?_new, tallied]
    split_ifs <;> rfl
  constructor
  · rw [hused, retained, Finset.sum_eq_zero fun id _ => by rw [hnone, Nat.zero_mul], Nat.add_zero]
  · rwa [hused]
  · intro id entry hget
    rw [get?_new, tallied] at hget
    split_ifs at hget with hcount
    cases hget
    exact ⟨List.count_pos_iff.mp (Nat.pos_of_ne_zero hcount), rfl, fun _ => rfl⟩

theorem every_finish (h : MetadataHydrator) (report : Report) :
    (h.finish report).every = report.every.map h.hydrate := by
  simp [finish, Report.every, List.map_append, List.map_flatten]

theorem attributes_hydrate {shown : Example} (hid : shown.identity = some id)
    (hget : h.sources.get? id = some known) :
    (h.hydrate shown).attributes = known.attributes := by
  rw [hydrate, hid, Option.bind_some, hget]

theorem identity_hydrate (h : MetadataHydrator) (shown : Example) :
    (h.hydrate shown).identity = shown.identity := by
  rw [hydrate]
  split <;> rfl

end MetadataHydrator

theorem attributes_record {ε : Type} (pairBytes : String × String → Except ε Nat) (budget n : Nat)
    (attributes : Attributes) :
    (({ references := n } : ExampleMetadata).record pairBytes budget attributes).attributes =
      (capture pairBytes budget attributes [] 2).toOption.map Prod.fst := by
  rw [ExampleMetadata.record]
  cases capture pairBytes budget attributes [] 2 with
  | error _ | ok _ => rfl

open MetadataHydrator

variable {ε : Type}

/-- No operation of the hydrator wraps, and its counter is what the references take: their
reserve and what they retain, within the bound. In the report that it finishes, an example whose
identity was recorded twice or more has no attributes, and one whose identity was recorded once
has what was captured then. -/
theorem metadata_budget (pairBytes : String × String → Except ε Nat) (report : Report)
    (rows : List Row) (hfit : 2 * report.references.length ≤ maxReportAttributeBytes) :
    ∃ h, (new report).recordAll pairBytes rows = some h ∧
      h.bytesUsed = 2 * report.references.length +
        ∑ id ∈ report.references.toFinset, h.extraBytes id * report.references.count id ∧
      h.bytesUsed ≤ maxReportAttributeBytes ∧
      ∀ shown ∈ (h.finish report).every, ∀ id, shown.identity = some id →
        (2 ≤ (rows.map Row.identity).count id → shown.attributes = none) ∧
        ∀ before row after, rows = before ++ row :: after → row.identity = id →
          id ∉ before.map Row.identity → id ∉ after.map Row.identity →
          ∃ h₀, (new report).recordAll pairBytes before = some h₀ ∧
            shown.attributes = (capture pairBytes (h₀.allowance (report.references.count id))
              row.attributes [] 2).toOption.map Prod.fst := by
  have hnew := accounted_new hfit
  obtain ⟨h, hrun, hacc, hspec⟩ := hnew.recordAll_spec pairBytes rows
  refine ⟨h, hrun, hacc.bytesUsed, hacc.withinBudget, fun shown hshown id hid => ?_⟩
  rw [every_finish] at hshown
  obtain ⟨source, hsource, rfl⟩ := List.mem_map.mp hshown
  rw [identity_hydrate] at hid
  have hmem : id ∈ report.references := List.mem_filterMap.mpr ⟨source, hsource, hid⟩
  have hfresh : (new report).sources.get? id =
      some { references := report.references.count id } := by
    rw [get?_new, tallied, if_neg (List.count_pos_iff.mpr hmem).ne']
  constructor
  · intro htwice
    obtain ⟨entry, hget, hsight, -⟩ := hspec id _ 0 hfresh rfl
    obtain ⟨n, hn⟩ := Nat.exists_eq_add_of_le' htwice
    rw [Nat.zero_add, hn] at hsight
    rw [attributes_hydrate hid hget]
    exact hsight.2.1
  · rintro before row after rfl rfl hbefore hafter
    obtain ⟨h₀, hrun₀, hacc₀, hspec₀⟩ := hnew.recordAll_spec pairBytes before
    obtain ⟨h₁, result, hrecord, hacc₁, hgets⟩ := hacc₀.record_spec pairBytes row
    obtain ⟨h₂, hrun₂, -, hspec₂⟩ := hacc₁.recordAll_spec pairBytes after
    have hend : h₂ = h := by
      rw [recordAll_append, hrun₀, Option.bind_some, recordAll, hrecord] at hrun
      exact Option.some.inj (hrun₂.symm.trans hrun)
    subst hend
    refine ⟨h₀, hrun₀, ?_⟩
    obtain ⟨entry₀, hget₀, hsight₀, hsame₀⟩ := hspec₀ _ _ 0 hfresh rfl
    have hget₁ := hgets row.identity
    rw [hget₀, hsame₀ hbefore, Option.map_some, if_pos rfl] at hget₁
    have hunseen : Sightings { references := report.references.count row.identity } 0 := rfl
    obtain ⟨entry₂, hget₂, -, hsame₂⟩ :=
      hspec₂ _ _ 1 hget₁ (hunseen.record pairBytes row.attributes)
    rw [attributes_hydrate hid hget₂, hsame₂ hafter]
    exact attributes_record pairBytes _ _ _

theorem metadata_budget_repeated :
    let row : Row := ⟨(0, (1, 5), "a"), [("k", "v")]⟩
    ∃ h, (new ⟨[⟨"1", "5", none, none, 0, "a"⟩], []⟩).recordAll
        (fun pair => (.ok (pair.1.utf8ByteSize + pair.2.utf8ByteSize + 7) : Except Empty Nat))
        [row, row] = some h ∧ h.bytesUsed ≤ maxReportAttributeBytes := by
  intro row
  obtain ⟨h, hrun, -, hbudget, -⟩ := metadata_budget _ ⟨[⟨"1", "5", none, none, 0, "a"⟩], []⟩
    [row, row] (by decide +kernel)
  exact ⟨h, hrun, hbudget⟩

end Dial9.Viewer.Tail
