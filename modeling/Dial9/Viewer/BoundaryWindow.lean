/-
# The window's boundary polls

What `computeWindowBoundaryPolls` reports, for a listing whose segments follow one
another in time. With every segment resident and no gap, the stitched polls are the
starts that their own segment leaves open with the ends that come next.
-/

import Dial9.Viewer.BoundaryHonesty
import Mathlib.Data.List.Chain

namespace Dial9.Viewer.Boundary

open Segments

variable {w : Nat} {seg : Seg} {segs passed rest : List Seg}

/-! ## With everything resident -/

/-- Every segment is resident, and there is no gap. -/
structure Seen (passed rest : List Seg) : Prop where
  resident : ∀ seg, seg ∈ passed ∨ seg ∈ rest → seg.1.resident = true
  leftward : passed.IsChain fun right prev => adjacent prev.1 right.1 = true
  boundary : ∀ prev ∈ passed.head?, ∀ seg ∈ rest.head?, adjacent prev.1 seg.1 = true
  rightward : rest.IsChain fun a b => adjacent a.1 b.1 = true

theorem Seen.step (h : Seen passed (seg :: rest)) : Seen (seg :: passed) rest where
  resident s hs := by
    apply h.resident s
    rcases hs with hs | hs
    · rcases List.mem_cons.mp hs with rfl | hs
      · exact .inr List.mem_cons_self
      · exact .inl hs
    · exact .inr (List.mem_cons_of_mem _ hs)
  leftward := List.isChain_cons.mpr
    ⟨fun prev hprev => h.boundary prev hprev seg rfl, h.leftward⟩
  boundary := by
    rintro _ ⟨⟩ next hnext
    exact (List.isChain_cons.mp h.rightward).1 next hnext
  rightward := (List.isChain_cons.mp h.rightward).2

theorem Sourced.seen (hseg : Sourced seg) (hresident : seg.1.resident = true) :
    seg.1.edgePolls.isSome = true ∧ ∃ invariants, seg.1.invariants = some invariants := by
  have hedges := hseg.resident hresident
  exact ⟨hedges, Option.isSome_iff_exists.mp (hseg.together hedges)⟩

theorem walkLeft_seen {right : Spot} {stretches : List Stretch} {live : Bool}
    (hsourced : ∀ seg ∈ passed, Sourced seg) (hresident : ∀ seg ∈ passed, seg.1.resident = true)
    (hadjacent : ∀ prev ∈ passed.head?, adjacent prev.1 right = true)
    (hchain : passed.IsChain fun right prev => adjacent prev.1 right.1 = true) :
    (walkLeft w right (passed.map Prod.fst) stretches live).1 = .listingStart ∨
      ∃ stopper, (walkLeft w right (passed.map Prod.fst) stretches live).1 = .active stopper ∧
        stopper.edgePolls.isSome = true := by
  induction passed generalizing right stretches live with
  | nil => exact .inl rfl
  | cons prev older ih =>
    rcases (hsourced prev List.mem_cons_self).seen (hresident prev List.mem_cons_self) with
      ⟨hedges, invariants, hinv⟩
    rcases List.isChain_cons.mp hchain with ⟨hnext, hchain⟩
    have hgo : ∀ {more : List Stretch} {live : Bool},
        (walkLeft w prev.1 (older.map Prod.fst) more live).1 = .listingStart ∨
          ∃ stopper, (walkLeft w prev.1 (older.map Prod.fst) more live).1 = .active stopper ∧
            stopper.edgePolls.isSome = true :=
      ih (fun s hs => hsourced s (List.mem_cons_of_mem _ hs))
        (fun s hs => hresident s (List.mem_cons_of_mem _ hs)) hnext hchain
    rw [List.map_cons, walkLeft, if_pos (hadjacent prev rfl), hinv]
    dsimp only
    split
    · exact .inr ⟨prev.1, rfl, hedges⟩
    · split
      · split
        · split
          · exact hgo
          · exact hgo
        · exact hgo
      · exact hgo

theorem resolveClose_seen (hsplit : Split segs passed (seg :: rest))
    (hseen : Seen passed (seg :: rest)) :
    resolveClose w seg.1 (passed.map Prod.fst) = [] := by
  rw [resolveClose]
  cases closeAt w seg.1 with
  | none => rfl
  | some close =>
    rw [Option.elim_some, resolveDanglingClose]
    have hsourced : ∀ p ∈ passed, Sourced p := fun p hp =>
      hsplit.sourced p (hsplit.eq ▸ List.mem_append_left _ (List.mem_reverse.mpr hp))
    obtain ⟨found, hfound⟩ : ∃ found, walkLeft w seg.1 (passed.map Prod.fst)
      (closeStretches seg.1 close.endTs) seg.1.resident = found := ⟨_, rfl⟩
    have hstop : found.1 = .listingStart ∨
        ∃ stopper, found.1 = .active stopper ∧ stopper.edgePolls.isSome = true :=
      hfound ▸ walkLeft_seen hsourced (fun p hp => hseen.resident p (.inl hp))
        (fun prev hprev => hseen.boundary prev hprev seg rfl) hseen.leftward
    rw [hfound]
    split
    · rfl
    · rename_i stopper stretches
      rcases hstop with hstart | ⟨stopper', hactive, hedges⟩
      · cases hstart
      · cases hactive
        rw [if_pos hedges]
    · rename_i stop stretches hnotStart hnotActive
      rcases hstop with hstart | ⟨stopper, hactive, -⟩
      · exact absurd hstart hnotStart
      · exact absurd hactive (hnotActive stopper)

/-- The poll's end is a worker's next event. -/
def Ends (w : Nat) (opened : SegmentEdgeOpenPoll) (rest : List Seg) (e : Emitted) : Prop :=
  ∃ (mid : List Seg) (seg : Seg) (after : List Seg) (close : SegmentEdgeDanglingClose),
    rest = mid ++ seg :: after ∧ (∀ s ∈ mid, s.events w = []) ∧
      closeAt w seg.1 = some close ∧ e = .stitched opened close.endTs

variable {e : Emitted}

theorem ends_cons {opened : SegmentEdgeOpenPoll} :
    Ends w opened (seg :: rest) e ↔
      (∃ close, closeAt w seg.1 = some close ∧ e = .stitched opened close.endTs) ∨
        (seg.events w = [] ∧ Ends w opened rest e) := by
  constructor
  · rintro ⟨mid, last, after, close, hrest, hsilent, hclose, he⟩
    cases mid with
    | nil =>
      cases hrest
      exact .inl ⟨close, hclose, he⟩
    | cons first mid =>
      cases hrest
      refine .inr ⟨hsilent _ List.mem_cons_self, mid, last, after, close, rfl, ?_, hclose, he⟩
      exact fun s hs => hsilent s (List.mem_cons_of_mem _ hs)
  · rintro (⟨close, hclose, he⟩ | ⟨hnil, mid, last, after, close, rfl, hsilent, hclose, he⟩)
    · exact ⟨[], seg, rest, close, rfl, fun _ hs => absurd hs List.not_mem_nil, hclose, he⟩
    · refine ⟨seg :: mid, last, after, close, rfl, fun s hs => ?_, hclose, he⟩
      rcases List.mem_cons.mp hs with rfl | hs
      · exact hnil
      · exact hsilent s hs

/-- A poll that a segment leaves open is ended later. -/
def Starts (w : Nat) (segs : List Seg) (e : Emitted) : Prop :=
  ∃ (before : List Seg) (seg : Seg) (rest : List Seg) (opened : SegmentEdgeOpenPoll),
    segs = before ++ seg :: rest ∧ openAt w seg.1 = some opened ∧ Ends w opened rest e

theorem starts_cons :
    Starts w (seg :: rest) e ↔
      (∃ opened, openAt w seg.1 = some opened ∧ Ends w opened rest e) ∨ Starts w rest e := by
  constructor
  · rintro ⟨before, first, after, opened, hsegs, hopen, hends⟩
    cases before with
    | nil =>
      cases hsegs
      exact .inl ⟨opened, hopen, hends⟩
    | cons _ before =>
      cases hsegs
      exact .inr ⟨before, first, after, opened, rfl, hopen, hends⟩
  · rintro (⟨opened, hopen, hends⟩ | ⟨before, first, after, opened, rfl, hopen, hends⟩)
    · exact ⟨[], seg, rest, opened, rfl, hopen, hends⟩
    · exact ⟨seg :: before, first, after, opened, rfl, hopen, hends⟩

section

variable (hsplit : Split segs passed (seg :: rest))
include hsplit

section

variable (hseen : Seen passed (seg :: rest))
include hseen

theorem walkSpot_seen_none :
    walkSpot w (passed.map Prod.fst) none seg.1 =
      ([], (openAt w seg.1).map (startCarry seg.1)) := by
  rw [walkSpot, Option.elim_none]
  dsimp only
  rw [if_neg Bool.false_ne_true, resolveClose_seen hsplit hseen]
  rfl

theorem head_adjacent (hpassed : passed ≠ []) :
    (passed.map Prod.fst).head?.any (fun prev => adjacent prev seg.1) = true := by
  cases passed with
  | nil => exact absurd rfl hpassed
  | cons prev older => exact hseen.boundary prev rfl seg rfl

theorem walkSpot_seen_some (hpassed : passed ≠ []) {c : Carry} (hstitch : c.stitchable = true) :
    (seg.events w = [] ∧ ∃ c', walkSpot w (passed.map Prod.fst) (some c) seg.1 = ([], some c') ∧
      c'.opened = c.opened ∧ c'.stitchable = true) ∨
      (seg.events w ≠ [] ∧ walkSpot w (passed.map Prod.fst) (some c) seg.1 =
        ((closeAt w seg.1).elim [] fun close => [.stitched c.opened close.endTs],
          (openAt w seg.1).map (startCarry seg.1))) := by
  have hresident := hseen.resident seg (.inr List.mem_cons_self)
  rcases hsplit.head.seen hresident with ⟨hedges, invariants, hinv⟩
  rw [walkSpot, Option.elim_some, Carry.advance, if_pos (head_adjacent hsplit hseen hpassed), hinv]
  dsimp only
  by_cases hactive : w ∈ invariants.workerIds
  · right
    refine ⟨fun hnil => (hsplit.head.silent_iff hinv).mpr hnil hactive, ?_⟩
    rw [if_pos hactive, if_pos hedges]
    cases hclose : closeAt w seg.1 with
    | none =>
      rw [Option.elim_none]
      dsimp only
      rw [if_neg Bool.false_ne_true, resolveClose_seen hsplit hseen, List.append_nil]
    | some close =>
      dsimp only
      rw [if_pos hresident, Option.elim_some, Carry.close, if_pos hstitch]
      rfl
  · left
    refine ⟨(hsplit.head.silent_iff hinv).mp hactive, c.extend seg.1 invariants, ?_⟩
    rw [if_neg hactive, Carry.extend, if_pos hresident, hresident, hstitch, Bool.and_true]
    refine ⟨rfl, ?_⟩
    split
    · split
      · exact ⟨rfl, rfl⟩
      · exact ⟨rfl, rfl⟩
    · exact ⟨rfl, rfl⟩

theorem startCarry_stitchable
    {c : Carry} (hc : (openAt w seg.1).map (startCarry seg.1) = some c) : c.stitchable = true := by
  have hresident := hseen.resident seg (.inr List.mem_cons_self)
  rcases hsplit.head.seen hresident with ⟨-, invariants, hinv⟩
  rcases Option.map_eq_some_iff.mp hc with ⟨opened, -, rfl⟩
  rw [startCarry, hresident, hinv]

end

end

theorem exists_startCarry {P : SegmentEdgeOpenPoll → Prop} :
    (∃ c, (openAt w seg.1).map (startCarry seg.1) = some c ∧ P c.opened) ↔
      ∃ opened, openAt w seg.1 = some opened ∧ P opened := by
  constructor
  · rintro ⟨c, hc, hP⟩
    rcases Option.map_eq_some_iff.mp hc with ⟨opened, hopen, rfl⟩
    rw [startCarry_opened] at hP
    exact ⟨opened, hopen, hP⟩
  · rintro ⟨opened, hopen, hP⟩
    refine ⟨startCarry seg.1 opened, by rw [hopen, Option.map_some], ?_⟩
    rwa [startCarry_opened]

theorem not_ends_nil {opened : SegmentEdgeOpenPoll} : ¬ Ends w opened [] e := by
  rintro ⟨mid, _, _, _, hnil, -⟩
  exact List.append_ne_nil_of_right_ne_nil mid (List.cons_ne_nil _ _) hnil.symm

theorem not_starts_nil : ¬ Starts w [] e := by
  rintro ⟨before, _, _, _, hnil, -⟩
  exact List.append_ne_nil_of_right_ne_nil before (List.cons_ne_nil _ _) hnil.symm

theorem Sourced.silent (hseg : Sourced seg) (hnil : seg.events w = []) :
    Boundary.openAt w seg.1 = none ∧ Boundary.closeAt w seg.1 = none := by
  constructor
  · cases hopen : Boundary.openAt w seg.1 with
    | none => rfl
    | some opened =>
      rcases (hseg.openAt_some hopen).2 with ⟨pre, e, mid, hevents, -⟩
      rw [hnil] at hevents
      exact absurd hevents.symm (List.append_ne_nil_of_right_ne_nil pre (List.cons_ne_nil _ _))
  · cases hclose : Boundary.closeAt w seg.1 with
    | none => rfl
    | some close =>
      rcases (hseg.closeAt_some hclose).2 with ⟨first, others, hevents, -⟩
      rw [hnil] at hevents
      cases hevents

theorem walkListing_seen (hsplit : Split segs passed rest) (hseen : Seen passed rest)
    {carry : Option Carry} (hcarry : ∀ c, carry = some c → c.stitchable = true ∧ passed ≠ []) :
    e ∈ walkListing w (passed.map Prod.fst) carry (rest.map Prod.fst) ↔
      (∃ c, carry = some c ∧ Ends w c.opened rest e) ∨ Starts w rest e := by
  induction rest generalizing passed carry with
  | nil =>
    refine iff_of_false List.not_mem_nil ?_
    rintro (⟨_, -, hends⟩ | hstarts)
    · exact not_ends_nil hends
    · exact not_starts_nil hstarts
  | cons seg rest ih =>
    have hopens : ∀ c, (openAt w seg.1).map (startCarry seg.1) = some c →
        c.stitchable = true ∧ seg :: passed ≠ [] := fun c hc =>
      ⟨startCarry_stitchable hsplit hseen hc, List.cons_ne_nil _ _⟩
    have hopened := ih hsplit.step hseen.step hopens
    rw [@exists_startCarry w seg fun opened => Ends w opened rest e, ← starts_cons,
      List.map_cons] at hopened
    rw [List.map_cons, walkListing]
    cases carry with
    | none =>
      rw [walkSpot_seen_none hsplit hseen]
      dsimp only
      rw [List.nil_append, hopened]
      constructor
      · exact .inr
      · rintro (⟨c, hc, -⟩ | h)
        · cases hc
        · exact h
    | some c =>
      rcases hcarry c rfl with ⟨hstitch, hpassed⟩
      have hcarried : (∃ c', some c = some c' ∧ Ends w c'.opened (seg :: rest) e) ↔
          Ends w c.opened (seg :: rest) e := by
        constructor
        · rintro ⟨_, ⟨⟩, h⟩
          exact h
        · exact fun h => ⟨c, rfl, h⟩
      rw [hcarried, ends_cons]
      rcases walkSpot_seen_some (w := w) hsplit hseen hpassed hstitch with
        ⟨hnil, c', hstep, hsame, hstitch'⟩ | ⟨hne, hstep⟩
      · rcases hsplit.head.silent hnil with ⟨hopen, hclose⟩
        have hcarry' : ∀ c'', some c' = some c'' →
            c''.stitchable = true ∧ seg :: passed ≠ [] := by
          rintro _ ⟨⟩
          exact ⟨hstitch', List.cons_ne_nil _ _⟩
        have hrest := ih hsplit.step hseen.step hcarry'
        rw [List.map_cons] at hrest
        rw [hstep]
        dsimp only
        rw [List.nil_append, hrest, starts_cons, hopen, hclose]
        constructor
        · rintro (⟨_, ⟨⟩, hends⟩ | hstarts)
          · exact .inl (.inr ⟨hnil, hsame ▸ hends⟩)
          · exact .inr (.inr hstarts)
        · rintro ((⟨_, hnone, -⟩ | ⟨-, hends⟩) | ⟨_, hnone, -⟩ | hstarts)
          · cases hnone
          · exact .inl ⟨c', rfl, hsame.symm ▸ hends⟩
          · cases hnone
          · exact .inr hstarts
      · rw [hstep]
        dsimp only
        rw [List.mem_append, hopened]
        apply or_congr_left
        constructor
        · intro he
          cases hclose : closeAt w seg.1 with
          | none =>
            rw [hclose, Option.elim_none] at he
            exact absurd he List.not_mem_nil
          | some close =>
            rw [hclose, Option.elim_some] at he
            exact .inl ⟨close, rfl, List.mem_singleton.mp he⟩
        · rintro (⟨close, hclose, rfl⟩ | ⟨hnil, -⟩)
          · rw [hclose, Option.elim_some]
            exact List.mem_singleton_self _
          · exact absurd hnil hne

/-! ## Spans of one worker -/

theorem history_sorted (w : Nat) (horder : segs.Pairwise fun a b => Before a.2 b.2) :
    (history w segs).Pairwise fun a b => a.timestamp ≤ b.timestamp := by
  induction segs with
  | nil => exact .nil
  | cons seg rest ih =>
    rcases List.pairwise_cons.mp horder with ⟨hseg, hrest⟩
    rw [history_cons]
    refine List.pairwise_append.mpr ⟨events_sorted seg w, ih hrest, fun e he e' he' => ?_⟩
    rcases mem_history.mp he' with ⟨s, hs, he'⟩
    exact (hseg s hs).event_le_event he he'

theorem Opened.clear {events : List TraceEvent} {opened : SegmentEdgeOpenPoll} {start endTs : Int}
    (h : Opened w events opened start endTs)
    (hsorted : events.Pairwise fun a b => a.timestamp ≤ b.timestamp) :
      Clear events start endTs := by
  rcases h with ⟨pre, e, mid, post, rfl, -, -, hidle, hstart, hpost⟩
  intro e' he' hbusy
  rcases List.mem_append.mp he' with hpre | hrest
  · left
    exact ((List.pairwise_append.mp hsorted).2.2 e' hpre e List.mem_cons_self).trans hstart
  · rcases List.mem_cons.mp hrest with rfl | hrest
    · exact .inl hstart
    · rcases List.mem_append.mp hrest with hmid | hpost'
      · rw [hidle e' hmid] at hbusy
        cases hbusy
      · exact .inr (hpost e' hpost')

theorem Stitched.opened {events : List TraceEvent} {opened : SegmentEdgeOpenPoll} {endTs : Int}
    (h : Stitched w events opened endTs)
    (hsorted : events.Pairwise fun a b => a.timestamp ≤ b.timestamp) :
    Opened w events opened opened.start endTs := by
  rcases h with ⟨pre, e, mid, close, post, rfl, hstart, rfl, hidle, -, rfl⟩
  refine ⟨pre, e, mid, close :: post, rfl, hstart, rfl, hidle, le_rfl, fun e' he' => ?_⟩
  rcases List.mem_cons.mp he' with rfl | he'
  · exact le_rfl
  · have htail := (List.pairwise_cons.mp (List.pairwise_append.mp hsorted).2.1).2
    exact (List.pairwise_cons.mp (List.pairwise_append.mp htail).2.1).1 e' he'

/-- The spans that are reported for a worker. -/
def WindowBoundaryPolls.spans (polls : WindowBoundaryPolls) (w : Nat) : List (Int × Int) :=
  (polls.truncated.filter fun p => p.workerId = w).map (fun p => (p.start, p.endTs)) ++
    (polls.stitched.filter fun p => p.workerId = w).map fun p => (p.start, p.endTs)

theorem filter_flatMap {α : Type} {key : α → Nat} {f : Nat → List α}
    (hkey : ∀ w, ∀ a ∈ f w, key a = w) {workers : List Nat} (hnodup : workers.Nodup) (w : Nat) :
    ((workers.flatMap f).filter fun a => key a = w) = if w ∈ workers then f w else [] := by
  induction workers with
  | nil => rfl
  | cons first rest ih =>
    rcases List.nodup_cons.mp hnodup with ⟨hfirst, hrest⟩
    rw [List.flatMap_cons, List.filter_append, ih hrest]
    by_cases heq : first = w
    · subst heq
      rw [if_neg hfirst, if_pos List.mem_cons_self, List.append_nil, List.filter_eq_self]
      exact fun a ha => decide_eq_true (hkey first a ha)
    · have hnil : ((f first).filter fun a => key a = w) = [] := by
        rw [List.filter_eq_nil_iff]
        intro a ha
        rw [decide_eq_true_iff, hkey first a ha]
        exact heq
      have hmem : w ∈ first :: rest ↔ w ∈ rest := by
        rw [List.mem_cons]
        exact or_iff_right fun h => heq h.symm
      rw [hnil, List.nil_append, if_congr hmem rfl rfl]

theorem truncated?_eq_some {p : WindowEdgePoll} (h : e.truncated? w = some p) :
    p.workerId = w ∧ p.start = e.start ∧ p.endTs = e.endTs ∧ ∃ s identity,
      e = .stretch s identity ∧ p.taskId = identity.map SegmentEdgeOpenPoll.taskId ∧
        p.spawnLocId = identity.bind SegmentEdgeOpenPoll.spawnLocId ∧
          p.spawnLoc = identity.bind SegmentEdgeOpenPoll.spawnLoc := by
  cases e with
  | stretch s identity =>
    cases h
    exact ⟨rfl, rfl, rfl, s, identity, rfl, rfl, rfl, rfl⟩
  | stitched opened endTs => cases h

theorem stitched?_eq_some {p : StitchedBoundaryPoll} (h : e.stitched? w = some p) :
    p.workerId = w ∧ p.start = e.start ∧ p.endTs = e.endTs ∧ ∃ opened endTs,
      e = .stitched opened endTs ∧
        p = ⟨w, opened.start, endTs, opened.taskId, opened.spawnLocId, opened.spawnLoc⟩ := by
  cases e with
  | stretch s identity => cases h
  | stitched opened endTs =>
    cases h
    exact ⟨rfl, rfl, rfl, opened, endTs, rfl, rfl⟩

theorem edgeWorkers_nodup (spots : List Spot) : (edgeWorkers spots).Nodup :=
  (List.perm_insertionSort _ _).nodup_iff.mpr (List.nodup_dedup _)

theorem openAt_mem_edgeWorkers {spots : List Spot} {spot : Spot} (hspot : spot ∈ spots)
    {opened : SegmentEdgeOpenPoll} (h : openAt w spot = some opened) : w ∈ edgeWorkers spots := by
  rcases Option.bind_eq_some_iff.mp h with ⟨polls, hpolls, hfind⟩
  rw [edgeWorkers, (List.perm_insertionSort _ _).mem_iff, List.mem_dedup]
  refine List.mem_flatMap.mpr ⟨spot, hspot, ?_⟩
  rw [hpolls, Option.elim_some]
  refine List.mem_append_left _ (List.mem_map.mpr ⟨opened, List.mem_of_find?_eq_some hfind, ?_⟩)
  have hw := List.find?_some hfind
  exact of_decide_eq_true hw

/-! ## The window's polls -/

variable {K : Type} {orderedKeys : List K} {entries : K → Option Entry} {traces : K → ParsedTrace}

/-- What an entry retains of a segment is computed from its parse, and the edges are
retained with the rest. -/
structure Retained (trace : ParsedTrace) (entry : Entry) : Prop where
  invariants : ∀ invariants ∈ entry.invariants, invariants = segmentInvariants trace
  edgePolls : ∀ polls ∈ entry.edgePolls, polls = computeSegmentEdgePolls trace
  together : entry.edgePolls.isSome = true → entry.invariants.isSome = true

/-- The listing with the parses that the entries are from. -/
def toSegs (orderedKeys : List K) (entries : K → Option Entry) (traces : K → ParsedTrace) :
    List Seg :=
  orderedKeys.map fun key => (toSpot (entries key), traces key)

theorem toSpot_sourced {trace : ParsedTrace} {entry : Option Entry}
    (h : ∀ e ∈ entry, Retained trace e) : Sourced (toSpot entry, trace) := by
  cases entry with
  | none =>
    exact {
      invariants := nofun
      edgePolls := nofun
      together := nofun
      resident := nofun }
  | some e =>
    have hretained := h e rfl
    exact {
      invariants := fun hinv => hretained.invariants _ hinv
      edgePolls := fun hpolls => hretained.edgePolls _ hpolls
      together := hretained.together
      resident := by
        intro hresident
        simp only [toSpot, Option.any_some, Bool.and_eq_true] at hresident
        exact hresident.1.2 }

theorem toSegs_fst (orderedKeys : List K) (entries : K → Option Entry) (traces : K → ParsedTrace) :
    (toSegs orderedKeys entries traces).map Prod.fst =
      orderedKeys.map fun key => toSpot (entries key) := by
  rw [toSegs, List.map_map]
  rfl

/-- A poll that a segment leaves open, and the end that is the worker's next event. -/
def Crosses (segs : List Seg) (p : StitchedBoundaryPoll) : Prop :=
  ∃ (before : List Seg) (a : Seg) (mid : List Seg) (b : Seg) (after : List Seg)
    (pre idle others : List TraceEvent) (start close : TraceEvent),
    segs = before ++ a :: (mid ++ b :: after) ∧
      a.events p.workerId = pre ++ start :: idle ∧ (∀ e ∈ idle, busy e = false) ∧
      (∀ s ∈ mid, s.events p.workerId = []) ∧ b.events p.workerId = close :: others ∧
      start.eventType = .pollStart ∧ close.eventType = .pollEnd ∧
      p = ⟨p.workerId, start.timestamp, close.timestamp, start.taskId, start.spawnLocId,
        start.spawnLoc⟩

theorem starts_iff_crosses (hsourced : ∀ seg ∈ segs, Sourced seg)
    (hedges : ∀ seg ∈ segs, seg.1.edgePolls.isSome = true) {opened : SegmentEdgeOpenPoll}
    {endTs : Int} :
    Starts w segs (.stitched opened endTs) ↔ opened.workerId = w ∧
      Crosses segs ⟨w, opened.start, endTs, opened.taskId, opened.spawnLocId, opened.spawnLoc⟩ := by
  constructor
  · rintro ⟨before, a, rest, opened', rfl, hopen, mid, b, after, close, rfl, hsilent, hclose, heq⟩
    injection heq with hopened hend
    subst hopened hend
    have ha := hsourced a (by simp)
    have hb := hsourced b (by simp)
    rcases (ha.openAt_some hopen).2 with ⟨pre, start, idle, hevents, hstart, hidle, rfl⟩
    rcases (hb.closeAt_some hclose).2 with ⟨first, others, hfirst, hend, rfl⟩
    exact ⟨rfl, before, a, mid, b, after, pre, idle, others, start, first, rfl, hevents, hidle,
      hsilent, hfirst, hstart, hend, rfl⟩
  · rintro ⟨rfl, before, a, mid, b, after, pre, idle, others, start, close, rfl, hevents, hidle,
      hsilent, hfirst, hstart, hend, heq⟩
    injection heq with _ hts hendTs htask hlocId hloc
    have ha : Sourced a ∧ a.1.edgePolls.isSome = true := ⟨hsourced a (by simp), hedges a (by simp)⟩
    have hb : Sourced b ∧ b.1.edgePolls.isSome = true := ⟨hsourced b (by simp), hedges b (by simp)⟩
    refine ⟨before, a, _, opened, rfl, ?_, mid, b, after, ⟨opened.workerId, close.timestamp⟩, rfl,
      hsilent, ?_, by rw [hendTs]⟩
    · rw [ha.1.openAt ha.2, openAfter_eq_some_iff.mpr ⟨pre, idle, hevents, hstart, hidle⟩,
        Option.map_some, toOpenPoll, ← hts, ← htask, ← hlocId, ← hloc]
    · rw [hb.1.closeAt hb.2]
      exact danglingClose_eq_some_iff.mpr ⟨close, others, hfirst, hend, rfl⟩

/-- The polls that a window shows are those of the workers' histories, as far as they are
seen. -/
structure Honest (segs : List Seg) (polls : WindowBoundaryPolls) : Prop where
  truncated : ∀ p ∈ polls.truncated,
    Clear (history p.workerId segs) p.start p.endTs ∧
      ((∃ opened, Opened p.workerId (history p.workerId segs) opened p.start p.endTs ∧
        p.taskId = some opened.taskId ∧ p.spawnLocId = opened.spawnLocId ∧
          p.spawnLoc = opened.spawnLoc) ∨
        p.taskId = none ∧ p.spawnLocId = none ∧ p.spawnLoc = none ∧
          StartUnseen p.workerId segs p.endTs)
  stitched : ∀ p ∈ polls.stitched,
    Clear (history p.workerId segs) p.start p.endTs ∧
      Stitched p.workerId (history p.workerId segs)
        ⟨p.workerId, p.start, p.taskId, p.spawnLocId, p.spawnLoc⟩ p.endTs
  disjoint : ∀ w, (polls.spans w).Pairwise fun a b => a.2 ≤ b.1 ∨ b.2 ≤ a.1

theorem spans_eq (w : Nat) :
    (computeWindowBoundaryPolls orderedKeys entries).spans w =
      if w ∈ edgeWorkers (orderedKeys.map fun key => toSpot (entries key)) then
        ((emittedFor w (orderedKeys.map fun key => toSpot (entries key))).filterMap
          (Emitted.truncated? w)).map (fun p => (p.start, p.endTs)) ++
        ((emittedFor w (orderedKeys.map fun key => toSpot (entries key))).filterMap
          (Emitted.stitched? w)).map fun p => (p.start, p.endTs)
      else [] := by
  rw [WindowBoundaryPolls.spans, computeWindowBoundaryPolls]
  dsimp only
  rw [filter_flatMap _ (edgeWorkers_nodup _), filter_flatMap _ (edgeWorkers_nodup _)]
  · split
    · rfl
    · rfl
  · intro w p hp
    rcases List.mem_filterMap.mp hp with ⟨e, -, he⟩
    exact (stitched?_eq_some he).1
  · intro w p hp
    rcases List.mem_filterMap.mp hp with ⟨e, -, he⟩
    exact (truncated?_eq_some he).1

theorem spans_disjoint (w : Nat)
    (hsorted : (emittedFor w (orderedKeys.map fun key => toSpot (entries key))).Pairwise
      fun a b => a.endTs ≤ b.start) :
    ((computeWindowBoundaryPolls orderedKeys entries).spans w).Pairwise
      fun a b => a.2 ≤ b.1 ∨ b.2 ≤ a.1 := by
  rw [spans_eq]
  split
  case isFalse => exact .nil
  case isTrue =>
    refine List.pairwise_append.mpr ⟨?_, ?_, ?_⟩
    · refine List.pairwise_map.mpr (List.pairwise_filterMap.mpr (hsorted.imp ?_))
      intro a b hle p hp q hq
      rcases truncated?_eq_some hp with ⟨-, -, hend, -⟩
      rcases truncated?_eq_some hq with ⟨-, hstart, -, -⟩
      left
      rwa [hend, hstart]
    · refine List.pairwise_map.mpr (List.pairwise_filterMap.mpr (hsorted.imp ?_))
      intro a b hle p hp q hq
      rcases stitched?_eq_some hp with ⟨-, -, hend, -⟩
      rcases stitched?_eq_some hq with ⟨-, hstart, -, -⟩
      left
      rwa [hend, hstart]
    · intro x hx y hy
      rcases List.mem_map.mp hx with ⟨p, hp, rfl⟩
      rcases List.mem_map.mp hy with ⟨q, hq, rfl⟩
      rcases List.mem_filterMap.mp hp with ⟨a, ha, hp⟩
      rcases List.mem_filterMap.mp hq with ⟨b, hb, hq⟩
      rcases truncated?_eq_some hp with ⟨-, hpstart, hpend, _, _, rfl, -⟩
      rcases stitched?_eq_some hq with ⟨-, hqstart, hqend, _, _, rfl, -⟩
      -- A stretch and a stitched poll are two entries of the list.
      have hsymm : (emittedFor w (orderedKeys.map fun key => toSpot (entries key))).Pairwise
          fun a b => a.endTs ≤ b.start ∨ b.endTs ≤ a.start := hsorted.imp .inl
      have : Std.Symm fun a b : Emitted => a.endTs ≤ b.start ∨ b.endTs ≤ a.start :=
        ⟨fun _ _ => Or.symm⟩
      rw [hpstart, hpend, hqstart, hqend]
      exact hsymm.forall ha hb nofun

theorem EmittedOk.truncated {p : WindowEdgePoll} (hok : EmittedOk w segs e)
    (he : e.truncated? w = some p)
    (hsorted : (history w segs).Pairwise fun a b => a.timestamp ≤ b.timestamp) :
    Clear (history w segs) p.start p.endTs ∧
      ((∃ opened, Opened w (history w segs) opened p.start p.endTs ∧
        p.taskId = some opened.taskId ∧ p.spawnLocId = opened.spawnLocId ∧
          p.spawnLoc = opened.spawnLoc) ∨
        p.taskId = none ∧ p.spawnLocId = none ∧ p.spawnLoc = none ∧
          StartUnseen w segs p.endTs) := by
  rcases truncated?_eq_some he with ⟨-, hstart, hend, s, identity, rfl, htask, hlocId, hloc⟩
  rw [hstart, hend]
  cases identity with
  | none =>
    rcases hok with ⟨-, -, hclear, hunseen⟩
    exact ⟨hclear, .inr ⟨htask, hlocId, hloc, hunseen⟩⟩
  | some opened =>
    rcases hok with ⟨-, -, hopened⟩
    exact ⟨hopened.clear hsorted, .inl ⟨opened, hopened, htask, hlocId, hloc⟩⟩

theorem EmittedOk.stitched {p : StitchedBoundaryPoll} (hok : EmittedOk w segs e)
    (he : e.stitched? w = some p) :
    Stitched w (history w segs) ⟨w, p.start, p.taskId, p.spawnLocId, p.spawnLoc⟩ p.endTs := by
  rcases stitched?_eq_some he with ⟨-, -, -, opened, endTs, rfl, rfl⟩
  have hworker : opened.workerId = w := by
    rcases hok with ⟨_, _, _, _, _, -, -, rfl, -⟩
    rfl
  rw [← hworker]
  rwa [← hworker] at hok

theorem toSegs_sourced
    (hretained : ∀ key ∈ orderedKeys, ∀ entry ∈ entries key, Retained (traces key) entry) :
    ∀ seg ∈ toSegs orderedKeys entries traces, Sourced seg := by
  intro seg hseg
  rcases List.mem_map.mp hseg with ⟨key, hkey, rfl⟩
  exact toSpot_sourced (hretained key hkey)

section

variable (hretained : ∀ key ∈ orderedKeys, ∀ entry ∈ entries key, Retained (traces key) entry)
  (horder : orderedKeys.Pairwise fun a b => Before (traces a) (traces b))
include hretained horder

theorem honest_of_retained :
    Honest (toSegs orderedKeys entries traces) (computeWindowBoundaryPolls orderedKeys entries) ∧
      ∀ w s identity,
        .stretch s identity ∈ emittedFor w (orderedKeys.map fun key => toSpot (entries key)) →
        ¬(s.openObserved = true ∧ s.closeObserved = true) := by
  have hsourced := toSegs_sourced hretained
  have hbefore : (toSegs orderedKeys entries traces).Pairwise fun a b => Before a.2 b.2 :=
    List.pairwise_map.mpr horder
  have hall := fun w => emittedFor_ok w hsourced hbefore
  rw [toSegs_fst] at hall
  constructor
  · exact {
      truncated := by
        intro p hp
        rcases List.mem_flatMap.mp hp with ⟨w, -, hp⟩
        rcases List.mem_filterMap.mp hp with ⟨e, he, hp⟩
        obtain rfl := (truncated?_eq_some hp).1
        exact ((hall _).1 e he).truncated hp (history_sorted _ hbefore)
      stitched := by
        intro p hp
        rcases List.mem_flatMap.mp hp with ⟨w, -, hp⟩
        rcases List.mem_filterMap.mp hp with ⟨e, he, hp⟩
        obtain rfl := (stitched?_eq_some hp).1
        have hstitched := ((hall _).1 e he).stitched hp
        have hsorted := history_sorted p.workerId hbefore
        exact ⟨(hstitched.opened hsorted).clear hsorted, hstitched⟩
      disjoint := fun w => spans_disjoint w (hall w).2 }
  · intro w s identity hs
    have hok := (hall w).1 _ hs
    cases identity with
    | none | some _ => exact hok.2.1

section

variable (hresident : ∀ key ∈ orderedKeys, (toSpot (entries key)).resident = true)
  (hadjacent : orderedKeys.IsChain
    fun a b => adjacent (toSpot (entries a)) (toSpot (entries b)) = true)
include hresident hadjacent

theorem emittedFor_seen {e : Emitted} :
    e ∈ emittedFor w (orderedKeys.map fun key => toSpot (entries key)) ↔
      Starts w (toSegs orderedKeys entries traces) e := by
  have hsplit : Split (toSegs orderedKeys entries traces) [] (toSegs orderedKeys entries traces) :=
    ⟨rfl, toSegs_sourced hretained, List.pairwise_map.mpr horder⟩
  have hseen : Seen [] (toSegs orderedKeys entries traces) := {
    resident := by
      intro seg hseg
      rcases List.mem_map.mp (hseg.resolve_left List.not_mem_nil) with ⟨key, hkey, rfl⟩
      exact hresident key hkey
    leftward := .nil
    boundary := fun _ hnone => absurd hnone (Option.not_mem_none _)
    rightward := (List.isChain_map _).mpr hadjacent }
  have hcarry : ∀ c : Carry, none = some c → c.stitchable = true ∧ ([] : List Seg) ≠ [] := by
    intro c hc
    cases hc
  rw [← toSegs_fst orderedKeys entries traces]
  refine (walkListing_seen hsplit hseen hcarry).trans ⟨?_, .inr⟩
  rintro (⟨c, hnone, -⟩ | hstarts)
  · cases hnone
  · exact hstarts

/-- With every segment resident and no gap, no poll is truncated, and the stitched polls
are those that cross segments. -/
theorem stitched_of_resident :
    (computeWindowBoundaryPolls orderedKeys entries).truncated = [] ∧
      ∀ p, p ∈ (computeWindowBoundaryPolls orderedKeys entries).stitched ↔
        Crosses (toSegs orderedKeys entries traces) p := by
  have hsourced := toSegs_sourced hretained
  have hwalk :=
    fun w e => @emittedFor_seen w _ _ entries traces hretained horder hresident hadjacent e
  have hedges : ∀ seg ∈ toSegs orderedKeys entries traces, seg.1.edgePolls.isSome = true := by
    intro seg hseg
    apply (hsourced seg hseg).resident
    rcases List.mem_map.mp hseg with ⟨key, hkey, rfl⟩
    exact hresident key hkey
  have hpairs := fun w opened endTs => @starts_iff_crosses w _ hsourced hedges opened endTs
  constructor
  · rw [List.eq_nil_iff_forall_not_mem]
    intro p hp
    rcases List.mem_flatMap.mp hp with ⟨w, -, hp⟩
    rcases List.mem_filterMap.mp hp with ⟨e, he, hp⟩
    rcases (hwalk w e).mp he with ⟨_, _, _, _, -, -, _, _, _, _, -, -, -, rfl⟩
    cases hp
  · intro p
    constructor
    · intro hp
      rcases List.mem_flatMap.mp hp with ⟨w, -, hp⟩
      rcases List.mem_filterMap.mp hp with ⟨e, he, hp⟩
      rcases stitched?_eq_some hp with ⟨-, -, -, opened, endTs, rfl, rfl⟩
      exact ((hpairs w opened endTs).mp ((hwalk w _).mp he)).2
    · intro hp
      have hstarts := (hpairs p.workerId ⟨p.workerId, p.start, p.taskId, p.spawnLocId, p.spawnLoc⟩
        p.endTs).mpr ⟨rfl, hp⟩
      refine List.mem_flatMap.mpr ⟨p.workerId, ?_, List.mem_filterMap.mpr
        ⟨_, (hwalk _ _).mpr hstarts, rfl⟩⟩
      rcases hstarts with ⟨before, seg, rest, opened, hsegs, hopen, -⟩
      rw [← toSegs_fst orderedKeys entries traces]
      refine openAt_mem_edgeWorkers (List.mem_map.mpr ⟨seg, ?_, rfl⟩) hopen
      rw [hsegs]
      exact List.mem_append_right _ List.mem_cons_self

end

end

/-- The boundary polls of a listing in order of time are honest, and complete where every
segment is resident and there is no gap. -/
theorem computeWindowBoundaryPolls_honest
    (hretained : ∀ key ∈ orderedKeys, ∀ entry ∈ entries key, Retained (traces key) entry)
    (horder : orderedKeys.Pairwise fun a b => Before (traces a) (traces b)) :
    Honest (toSegs orderedKeys entries traces) (computeWindowBoundaryPolls orderedKeys entries) ∧
      (∀ w s identity,
        .stretch s identity ∈ emittedFor w (orderedKeys.map fun key => toSpot (entries key)) →
          ¬(s.openObserved = true ∧ s.closeObserved = true)) ∧
      ((∀ key ∈ orderedKeys, (toSpot (entries key)).resident = true) →
        (orderedKeys.IsChain fun a b =>
          adjacent (toSpot (entries a)) (toSpot (entries b)) = true) →
        (computeWindowBoundaryPolls orderedKeys entries).truncated = [] ∧
          ∀ p, p ∈ (computeWindowBoundaryPolls orderedKeys entries).stitched ↔
            Crosses (toSegs orderedKeys entries traces) p) := by
  rcases honest_of_retained hretained horder with ⟨hhonest, hobserved⟩
  exact ⟨hhonest, hobserved, stitched_of_resident hretained horder⟩

/-! ## Two and three segments -/

/-- A lifecycle event. -/
def lifecycleEvent (eventType : EventType) (workerId : Nat) (timestamp : Int) (taskId : Nat) :
    TraceEvent where
  eventType := eventType
  timestamp := timestamp
  workerId := workerId
  localQueue := 0
  globalQueue := 0
  cpuTime := 0
  schedWait := none
  schedulingDelay := none
  taskId := taskId
  spawnLocId := none
  spawnLoc := none
  wakerTaskId := none
  wokenTaskId := none
  targetWorker := none

/-- The parse of a segment with some events and its bounds. -/
def parseOf (events : List TraceEvent) (lo hi : Int) (hle : lo ≤ hi)
    (hbounds : ∀ e ∈ events, lo ≤ e.timestamp ∧ e.timestamp ≤ hi) : ParsedTrace where
  events := events
  minTs := some lo
  maxTs := some hi
  bounded e he := ⟨lo, hi, rfl, rfl, hbounds e he⟩
  both := rfl
  ordered := by
    rintro _ _ ⟨⟩ ⟨⟩
    exact hle

/-- An entry with everything that its parse gives. -/
def parsedEntry (startNs endNs : Int) (trace : ParsedTrace) : Entry where
  state := .parsed
  extent := ⟨startNs, endNs⟩
  sizeBytes := 0
  trace := some trace
  rawByteLength := none
  invariants := some (segmentInvariants trace)
  edgePolls := some (computeSegmentEdgePolls trace)

/-- What is left of an entry after its eviction. -/
def evictedEntry (startNs endNs : Int) (trace : ParsedTrace) : Entry :=
  { parsedEntry startNs endNs trace with
    state := .evicted
    trace := none }

/-- A poll starts at 10 and ends in the next segment, at 40. -/
def startTrace : ParsedTrace :=
  parseOf [lifecycleEvent .pollStart 0 10 7] 0 20 (by decide) (by decide)

def endTrace : ParsedTrace :=
  parseOf [lifecycleEvent .pollEnd 0 40 0] 30 50 (by decide) (by decide)

/-- Entries and their parses, listed from 0. -/
def listedEntries (listing : List (Entry × ParsedTrace)) (key : Nat) : Option Entry :=
  listing[key]?.map Prod.fst

def listedTraces (listing : List (Entry × ParsedTrace)) (key : Nat) : ParsedTrace :=
  listing[key]?.elim endTrace Prod.snd

theorem retained_parsedEntry (startNs endNs : Int) (trace : ParsedTrace) :
    Retained trace (parsedEntry startNs endNs trace) where
  invariants := fun _ h => (Option.some.inj h).symm
  edgePolls := fun _ h => (Option.some.inj h).symm
  together := fun _ => rfl

/-- The end's segment follows without a gap. -/
def adjacentListing : List (Entry × ParsedTrace) :=
  [(parsedEntry 0 30 startTrace, startTrace), (parsedEntry 30 50 endTrace, endTrace)]

theorem computeWindowBoundaryPolls_honest_adjacent :
    Honest (toSegs [0, 1] (listedEntries adjacentListing) (listedTraces adjacentListing))
      (computeWindowBoundaryPolls [0, 1] (listedEntries adjacentListing)) ∧
      Crosses (toSegs [0, 1] (listedEntries adjacentListing) (listedTraces adjacentListing))
        ⟨0, 10, 40, 7, none, none⟩ := by
  have hretained : ∀ key ∈ [0, 1], ∀ entry ∈ listedEntries adjacentListing key,
      Retained (listedTraces adjacentListing key) entry := by
    intro key hkey entry hentry
    rcases List.mem_pair.mp hkey with rfl | rfl
    · cases hentry
      exact retained_parsedEntry 0 30 startTrace
    · cases hentry
      exact retained_parsedEntry 30 50 endTrace
  have horder : [0, 1].Pairwise fun a b =>
      Before (listedTraces adjacentListing a) (listedTraces adjacentListing b) := by
    refine List.pairwise_pair.mpr fun hi lo hhi hlo => ?_
    cases hhi
    cases hlo
    decide
  rcases computeWindowBoundaryPolls_honest hretained horder with ⟨hhonest, -, hresident⟩
  have hadjacent : [0, 1].IsChain fun a b =>
      adjacent (toSpot (listedEntries adjacentListing a))
        (toSpot (listedEntries adjacentListing b)) = true :=
    List.isChain_pair.mpr rfl
  exact ⟨hhonest, ((hresident (by decide) hadjacent).2 _).mp (by decide)⟩

/-- Between the segments is a gap. -/
def gapListing : List (Entry × ParsedTrace) :=
  [(parsedEntry 0 20 startTrace, startTrace), (parsedEntry 30 50 endTrace, endTrace)]

/-- Nothing of the worker. -/
def silentTrace : ParsedTrace :=
  parseOf [] 22 28 (by decide) (by decide)

/-- The edges of the outer segments are retained without the rest. -/
def edgesOnlyListing : List (Entry × ParsedTrace) :=
  [({ evictedEntry 0 22 startTrace with invariants := none }, startTrace),
    (parsedEntry 22 30 silentTrace, silentTrace),
    ({ evictedEntry 30 50 endTrace with invariants := none }, endTrace)]

/-- Another worker's event makes the first segment last longer than the poll. -/
def longTrace : ParsedTrace :=
  parseOf [lifecycleEvent .pollStart 0 10 7, lifecycleEvent .workerUnpark 1 100 0] 0 100 (by decide)
    (by decide)

def overlappingListing : List (Entry × ParsedTrace) :=
  [(parsedEntry 0 100 longTrace, longTrace), (evictedEntry 30 50 endTrace, endTrace)]

/-- Behind a gap the poll's task is not told although its start was parsed; with edges that
are retained alone a span is shown twice; and in segments that overlap a span has the
poll's end inside. -/
theorem boundaryPolls_not_honest :
    computeWindowBoundaryPolls [0, 1] (listedEntries gapListing) =
        { truncated :=
          [⟨0, 10, 20, some 7, none, none, .end_⟩, ⟨0, 30, 40, none, none, none, .start⟩]
          stitched := [] } ∧
      (computeWindowBoundaryPolls [0, 1, 2] (listedEntries edgesOnlyListing)).spans 0 =
        [(22, 28), (22, 28)] ∧
      (computeWindowBoundaryPolls [0, 1] (listedEntries overlappingListing)).spans 0 = [(10, 100)] ∧
      ¬ Clear (history 0 (toSegs [0, 1] (listedEntries overlappingListing)
        (listedTraces overlappingListing))) 10 100 := by
  refine ⟨by decide, by decide, by decide, fun hclear => ?_⟩
  rcases hclear (lifecycleEvent .pollEnd 0 40 0) (by decide) (by decide) with h | h
  · exact absurd h (by decide)
  · exact absurd h (by decide)

end Dial9.Viewer.Boundary
