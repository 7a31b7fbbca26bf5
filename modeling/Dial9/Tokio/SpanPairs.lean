/-
# The poll events of a thread

While recording stays on and no runtime is detached, each poll of an attached wrapper that
is not inside of another such poll is recorded, and nothing else: what is recorded is one
start and one end around each of them, with one worker id.
-/

import Dial9.Tokio.PollSpans

namespace Dial9.Tokio.PollSpans

open Dial9.Lib

/-! ## The outermost attached polls -/

/-- What is left of a history when polls inside of an attached poll, and polls that are not
attached, are not looked at. -/
inductive Mark where
  | pollStart (event : PollStart)
  | polled
  | finished
  | pollEnd (event : PollEnd)
  deriving DecidableEq

/-- Whether each of the polls under way is attached, the innermost first, and the marks so far. -/
structure View where
  polls : List Bool
  marks : List Mark
  deriving DecidableEq

def View.see (v : View) : Entry → View
  | .pollStart start => { v with marks := v.marks ++ [.pollStart start] }
  | .pollEnd stop => { v with marks := v.marks ++ [.pollEnd stop] }
  | .polled wrapper =>
    { polls := wrapper.attached :: v.polls
      marks := if wrapper.attached ∧ true ∉ v.polls then v.marks ++ [.polled] else v.marks }
  | .finished =>
    match v.polls with
    | [] => v
    | attached :: outer =>
      { polls := outer
        marks := if attached ∧ true ∉ outer then v.marks ++ [.finished] else v.marks }

def outermost (history : List Entry) : View := history.foldl View.see ⟨[], []⟩

@[simp] theorem outermost_append (history : List Entry) (entry : Entry) :
    outermost (history ++ [entry]) = (outermost history).see entry := by
  rw [outermost, List.foldl_append]
  rfl

/-- A start and an end of one worker. -/
structure Pair where
  start : PollStart
  stop : PollEnd
  same : start.workerId = stop.workerId

/-- The pair around one poll. -/
def Pair.marks (pair : Pair) : List Mark :=
  [.pollStart pair.start, .polled, .finished, .pollEnd pair.stop]

/-! ## Claimed ids -/

variable {s next : State} {frame : Frame} {rest : List Frame}

theorem claimed_claimThreadWorkerId (s : State) (ctx : RuntimeContext) :
    (s.claimThreadWorkerId ctx).2.claimed ctx.id = some (s.claimThreadWorkerId ctx).1 := by
  rw [State.claimThreadWorkerId]
  split
  · assumption
  · next hnone =>
      have hfind : (s.locals.claimedWorkerIds.find? fun entry => entry.1 = ctx.id) = none := by
        simpa [State.claimed] using hnone
      simp [State.claimed, List.find?_append, hfind]

theorem claimThreadWorkerId_of_claimed {ctx : RuntimeContext} {id : Nat}
    (h : s.claimed ctx.id = some id) : s.claimThreadWorkerId ctx = (id, s) := by
  rw [State.claimThreadWorkerId, h]

theorem claimed_mono (s : State) (ctx : RuntimeContext) {owner id : Nat}
    (h : s.claimed owner = some id) : (s.eventWorkerId ctx).2.claimed owner = some id := by
  change (s.claimThreadWorkerId ctx).2.claimed owner = some id
  rw [State.claimThreadWorkerId]
  split
  · exact h
  · obtain ⟨entry, hentry, hid⟩ := Option.map_eq_some_iff.mp h
    simp [State.claimed, List.find?_append, hentry, hid]

/-! ## Where the thread stands -/

/-- A poll that records nothing and hides nothing. -/
def Frame.Plain (frame : Frame) : Prop :=
  frame.stage = .polling none ∧ frame.wrapper.attached = false

/-- The poll with the start is under way, and polls that have no guard are inside of it. -/
inductive Inside (claimed : Nat → Option Nat) (start : PollStart) : List Frame → Prop where
  | here {frame : Frame} {rest : List Frame} {ctx : RuntimeContext}
      (hplain : ∀ frame ∈ rest, frame.Plain) (hattached : frame.wrapper.attached)
      (hstage : frame.stage = .polling (some ⟨ctx, true⟩))
      (hclaimed : claimed ctx.id = some start.workerId) : Inside claimed start (frame :: rest)
  | nested {frame : Frame} {rest : List Frame} (hguarded : frame.guarded = false)
      (hrest : Inside claimed start rest) : Inside claimed start (frame :: rest)

/-- The marker, the stack, and the marks since the last whole pair. -/
inductive Standing (claimed : Nat → Option Nat) : Bool → List Frame → List Mark → Prop where
  /-- No attached poll is under way. -/
  | outside {frames : List Frame} (hplain : ∀ frame ∈ frames, frame.Plain) :
      Standing claimed false frames []
  | entering {frame : Frame} {rest : List Frame} (hplain : ∀ frame ∈ rest, frame.Plain)
      (hstage : frame.stage = .entered ∨ frame.stage = .enabled) :
      Standing claimed false (frame :: rest) []
  | opening {frame : Frame} {rest : List Frame} {ctx : RuntimeContext}
      (hplain : ∀ frame ∈ rest, frame.Plain) (hattached : frame.wrapper.attached)
      (hstage : frame.stage = .guarded ctx ∨ frame.stage = .starting ctx) :
      Standing claimed false (frame :: rest) []
  | inside {frames : List Frame} {start : PollStart} (hinside : Inside claimed start frames) :
      Standing claimed true frames [.pollStart start, .polled]
  | closing {frame : Frame} {rest : List Frame} {ctx : RuntimeContext} {start : PollStart}
      (hplain : ∀ frame ∈ rest, frame.Plain) (hstage : frame.stage = .closing ⟨ctx, true⟩)
      (hclaimed : claimed ctx.id = some start.workerId) :
      Standing claimed true (frame :: rest) [.pollStart start, .polled, .finished]
  | ending {frame : Frame} {rest : List Frame} {ctx : RuntimeContext} {start : PollStart}
      (hplain : ∀ frame ∈ rest, frame.Plain) (hstage : frame.stage = .ending ⟨ctx, true⟩)
      (hclaimed : claimed ctx.id = some start.workerId) :
      Standing claimed false (frame :: rest) [.pollStart start, .polled, .finished]

/-- Whether each poll whose inner future is being polled is attached. -/
def attachedPolls (frames : List Frame) : List Bool :=
  (frames.filter Frame.isPolling).map fun frame => frame.wrapper.attached

/-- What holds at any time while recording is on and no runtime is detached. -/
structure Kept (s : State) : Prop where
  on : ∀ recorder, s.enabled recorder
  live : ∀ ctx, s.detached ctx = false
  polls : (outermost s.history).polls = attachedPolls s.stack
  marks : ∃ (pairs : List Pair) (marks : List Mark),
    (outermost s.history).marks = pairs.flatMap Pair.marks ++ marks ∧
      Standing s.claimed s.pollStartTs.isSome s.stack marks

/-- Recording stays on, and no runtime is detached. -/
def Event.Quiet : Event → Prop
  | .setEnabled _ on => on
  | .detach _ _ => False
  | _ => True

/-! ## Attached polls -/

theorem attachedPolls_cons (h : frame.isPolling) :
    attachedPolls (frame :: rest) = frame.wrapper.attached :: attachedPolls rest := by
  simp [attachedPolls, h]

theorem attachedPolls_polling (wrapper : Wrapper) (guard : Option PollSpanGuard)
    (rest : List Frame) :
    attachedPolls (⟨wrapper, .polling guard⟩ :: rest) = wrapper.attached :: attachedPolls rest :=
  attachedPolls_cons rfl

theorem attachedPolls_cons_of_not (h : frame.isPolling = false) :
    attachedPolls (frame :: rest) = attachedPolls rest := by
  simp [attachedPolls, h]

theorem Frame.Plain.guarded (h : frame.Plain) : frame.guarded = false := by
  simp [Frame.guarded, h.1]

theorem not_mem_attachedPolls {frames : List Frame} (h : ∀ frame ∈ frames, frame.Plain) :
    true ∉ attachedPolls frames := by
  intro hmem
  obtain ⟨frame, hframe, hattached⟩ := List.mem_map.mp hmem
  have hplain := (h frame (List.mem_filter.mp hframe).1).2
  exact Bool.noConfusion (hplain.symm.trans hattached)

/-! ## Steps of the view -/

variable {v : View}

theorem View.see_polled_hidden {wrapper : Wrapper} (h : wrapper.attached = false ∨ true ∈ v.polls) :
    v.see (.polled wrapper) = ⟨wrapper.attached :: v.polls, v.marks⟩ := by
  rw [View.see, if_neg]
  rintro ⟨hattached, hnone⟩
  obtain hplain | hmem := h
  · exact Bool.noConfusion (hplain.symm.trans hattached)
  · exact hnone hmem

theorem View.see_polled {wrapper : Wrapper} (hattached : wrapper.attached)
    (hnone : true ∉ v.polls) :
    v.see (.polled wrapper) = ⟨wrapper.attached :: v.polls, v.marks ++ [.polled]⟩ := by
  rw [View.see, if_pos ⟨hattached, hnone⟩]

theorem View.see_finished_hidden {attached : Bool} {outer : List Bool}
    (hpolls : v.polls = attached :: outer) (h : attached = false ∨ true ∈ outer) :
    v.see .finished = ⟨outer, v.marks⟩ := by
  simp only [View.see, hpolls]
  rw [if_neg]
  rintro ⟨hattached, hnone⟩
  obtain hplain | hmem := h
  · exact Bool.noConfusion (hplain.symm.trans hattached)
  · exact hnone hmem

theorem View.see_finished {outer : List Bool} (hpolls : v.polls = true :: outer)
    (hnone : true ∉ outer) : v.see .finished = ⟨outer, v.marks ++ [.finished]⟩ := by
  simp only [View.see, hpolls]
  rw [if_pos ⟨trivial, hnone⟩]

/-! ## What the top of the stack says -/

variable {guard : PollSpanGuard}

section Top

variable {claimed claimed' : Nat → Option Nat} {marker : Bool} {frames : List Frame}
  {marks : List Mark} {start : PollStart}

theorem Inside.mem_attachedPolls (h : Inside claimed start frames) :
    true ∈ attachedPolls frames := by
  induction h with
  | here _ hattached hstage _ =>
    rw [attachedPolls_cons (by simp [Frame.isPolling, hstage]), hattached]
    exact List.mem_cons_self
  | @nested frame rest _ _ ih =>
    cases hpolling : frame.isPolling with
    | true =>
      rw [attachedPolls_cons hpolling]
      exact List.mem_cons_of_mem _ ih
    | false =>
      rw [attachedPolls_cons_of_not hpolling]
      exact ih

theorem Inside.mono (h : Inside claimed start frames)
    (hmono : ∀ owner id, claimed owner = some id → claimed' owner = some id) :
    Inside claimed' start frames := by
  induction h with
  | here hplain hattached hstage hclaimed =>
    exact .here hplain hattached hstage (hmono _ _ hclaimed)
  | nested hguarded _ ih => exact .nested hguarded ih

theorem Standing.mono (h : Standing claimed marker frames marks)
    (hmono : ∀ owner id, claimed owner = some id → claimed' owner = some id) :
    Standing claimed' marker frames marks := by
  cases h with
  | outside hplain => exact .outside hplain
  | entering hplain hstage => exact .entering hplain hstage
  | opening hplain hattached hstage => exact .opening hplain hattached hstage
  | inside hinside => exact .inside (hinside.mono hmono)
  | closing hplain hstage hclaimed => exact .closing hplain hstage (hmono _ _ hclaimed)
  | ending hplain hstage hclaimed => exact .ending hplain hstage (hmono _ _ hclaimed)

section

variable (h : Standing claimed marker (frame :: rest) marks)
include h

/-- Under a frame without a guard there is no attached poll, or the thread is inside of one. -/
theorem Standing.of_unguarded (hguarded : frame.guarded = false) :
    (marker = false ∧ marks = [] ∧ (∀ g ∈ rest, g.Plain) ∧ (frame.isPolling → frame.Plain)) ∨
      ∃ start, marker = true ∧ marks = [.pollStart start, .polled] ∧ Inside claimed start rest := by
  cases h with
  | outside hplain =>
    exact .inl ⟨rfl, rfl, fun g hg => hplain g (List.mem_cons_of_mem _ hg),
      fun _ => hplain frame List.mem_cons_self⟩
  | entering hplain hstage =>
    refine .inl ⟨rfl, rfl, hplain, ?_⟩
    intro hpolling
    obtain hstage | hstage := hstage <;> simp [Frame.isPolling, hstage] at hpolling
  | opening _ _ hstage =>
      obtain hstage | hstage := hstage <;> simp [Frame.guarded, hstage] at hguarded
  | inside hinside =>
    cases hinside with
    | here _ _ hstage _ => simp [Frame.guarded, hstage] at hguarded
    | nested _ hrest => exact .inr ⟨_, rfl, rfl, hrest⟩
  | closing _ hstage _ | ending _ hstage _ => simp [Frame.guarded, hstage] at hguarded

theorem Standing.of_opening {ctx : RuntimeContext}
    (hframe : frame.stage = .guarded ctx ∨ frame.stage = .starting ctx) :
    marker = false ∧ marks = [] ∧ (∀ g ∈ rest, g.Plain) ∧ frame.wrapper.attached := by
  have hguarded : frame.guarded := by
    obtain hframe | hframe := hframe <;> simp [Frame.guarded, hframe]
  cases h with
  | outside hplain =>
    rw [(hplain frame List.mem_cons_self).guarded] at hguarded
    cases hguarded
  | entering _ hstage =>
      obtain hstage | hstage := hstage <;> simp [Frame.guarded, hstage] at hguarded
  | opening hplain hattached _ => exact ⟨rfl, rfl, hplain, hattached⟩
  | inside hinside =>
    cases hinside with
    | here _ _ hstage _ => simp [hstage] at hframe
    | nested hnone _ =>
      rw [hnone] at hguarded
      cases hguarded
  | closing _ hstage _ | ending _ hstage _ => simp [hstage] at hframe

theorem Standing.of_polling (hframe : frame.stage = .polling (some guard)) :
    ∃ start, marker = true ∧ marks = [.pollStart start, .polled] ∧ (∀ g ∈ rest, g.Plain) ∧
      frame.wrapper.attached ∧ guard.recorded ∧ claimed guard.ctx.id = some start.workerId := by
  cases h with
  | outside hplain => cases hframe.symm.trans (hplain frame List.mem_cons_self).1
  | entering _ hstage => simp [hframe] at hstage
  | opening _ _ hstage => simp [hframe] at hstage
  | inside hinside =>
    cases hinside with
    | here hplain hattached hstage hclaimed =>
      cases hframe.symm.trans hstage
      exact ⟨_, rfl, rfl, hplain, hattached, rfl, hclaimed⟩
    | nested hnone _ => simp [Frame.guarded, hframe] at hnone
  | closing _ hstage _ | ending _ hstage _ => cases hframe.symm.trans hstage

theorem Standing.of_closing (hframe : frame.stage = .closing guard) :
    ∃ start, marks = [.pollStart start, .polled, .finished] ∧ (∀ g ∈ rest, g.Plain) ∧
      guard.recorded ∧ claimed guard.ctx.id = some start.workerId := by
  cases h with
  | outside hplain => cases hframe.symm.trans (hplain frame List.mem_cons_self).1
  | entering _ hstage => simp [hframe] at hstage
  | opening _ _ hstage => simp [hframe] at hstage
  | inside hinside =>
    cases hinside with
    | here _ _ hstage _ => cases hframe.symm.trans hstage
    | nested hnone _ => simp [Frame.guarded, hframe] at hnone
  | closing hplain hstage hclaimed =>
    cases hframe.symm.trans hstage
    exact ⟨_, rfl, hplain, rfl, hclaimed⟩
  | ending _ hstage _ => cases hframe.symm.trans hstage

theorem Standing.of_ending (hframe : frame.stage = .ending guard) :
    ∃ start, marker = false ∧ marks = [.pollStart start, .polled, .finished] ∧
      (∀ g ∈ rest, g.Plain) ∧ claimed guard.ctx.id = some start.workerId := by
  cases h with
  | outside hplain => cases hframe.symm.trans (hplain frame List.mem_cons_self).1
  | entering _ hstage => simp [hframe] at hstage
  | opening _ _ hstage => simp [hframe] at hstage
  | inside hinside =>
    cases hinside with
    | here _ _ hstage _ => cases hframe.symm.trans hstage
    | nested hnone _ => simp [Frame.guarded, hframe] at hnone
  | closing _ hstage _ => cases hframe.symm.trans hstage
  | ending hplain hstage hclaimed =>
    cases hframe.symm.trans hstage
    exact ⟨_, rfl, rfl, hplain, hclaimed⟩

end

end Top

/-! ## Steps -/

theorem Kept.of_history_eq (h : Kept s) (hon : ∀ recorder, next.enabled recorder)
    (hlive : next.detached = s.detached) (hhistory : next.history = s.history)
    (hpolls : attachedPolls next.stack = attachedPolls s.stack)
    (hstanding : ∀ marks, Standing s.claimed s.pollStartTs.isSome s.stack marks →
      Standing next.claimed next.pollStartTs.isSome next.stack marks) : Kept next where
  on := hon
  live := hlive ▸ h.live
  polls := by rw [hhistory, hpolls, h.polls]
  marks := by
    obtain ⟨pairs, marks, hmarks, hnow⟩ := h.marks
    exact ⟨pairs, marks, hhistory ▸ hmarks, hstanding marks hnow⟩

theorem Kept.goTo (h : Kept s) (hstack : s.stack = frame :: rest) {stage : Stage}
    (hbefore : frame.isPolling = false) (hafter : { frame with stage }.isPolling = false)
    (hstanding : ∀ marks, Standing s.claimed s.pollStartTs.isSome (frame :: rest) marks →
      Standing s.claimed s.pollStartTs.isSome ({ frame with stage } :: rest) marks) :
    Kept (s.goTo frame rest stage) := by
  refine h.of_history_eq h.on rfl rfl ?_ ?_
  · rw [hstack, attachedPolls_cons_of_not hbefore]
    exact attachedPolls_cons_of_not hafter
  · intro marks hmarks
    rw [hstack] at hmarks
    exact hstanding marks hmarks

theorem Kept.pollInner_none (h : Kept s) (hstack : s.stack = frame :: rest)
    (hguarded : frame.guarded = false) (hpolling : frame.isPolling = false)
    (hhidden : s.pollStartTs.isSome = false → frame.wrapper.attached = false) :
    Kept (s.pollInner frame rest none) := by
  obtain ⟨pairs, marks, hmarks, hstanding⟩ := h.marks
  have hpolls := h.polls
  rw [hstack] at hstanding hpolls
  rw [attachedPolls_cons_of_not hpolling] at hpolls
  have hview : (frame.wrapper.attached = false ∨ true ∈ attachedPolls rest) ∧
      Standing s.claimed s.pollStartTs.isSome ({ frame with stage := .polling none } :: rest)
        marks := by
    obtain ⟨hmarker, rfl, hplain, -⟩ | ⟨start, hmarker, rfl, hinside⟩ :=
      hstanding.of_unguarded hguarded
    · refine ⟨.inl (hhidden hmarker), ?_⟩
      rw [hmarker]
      apply Standing.outside
      intro g hg
      obtain rfl | hg := List.mem_cons.mp hg
      · exact ⟨rfl, hhidden hmarker⟩
      · exact hplain g hg
    · refine ⟨.inr hinside.mem_attachedPolls, ?_⟩
      rw [hmarker]
      exact .inside (.nested rfl hinside)
  have hsee : outermost (s.pollInner frame rest none).history =
      ⟨frame.wrapper.attached :: attachedPolls rest, (outermost s.history).marks⟩ := by
    rw [State.pollInner, outermost_append, View.see_polled_hidden (hpolls ▸ hview.1), hpolls]
  exact {
    on := h.on
    live := h.live
    polls := by
      rw [hsee]
      exact (attachedPolls_polling _ _ rest).symm
    marks := ⟨pairs, marks, by rw [hsee, hmarks], hview.2⟩ }

@[simp] theorem eventWorkerId_enabled (s : State) (ctx : RuntimeContext) :
    (s.eventWorkerId ctx).2.enabled = s.enabled := by
  change (s.claimThreadWorkerId ctx).2.enabled = s.enabled
  rw [State.claimThreadWorkerId]
  split <;> rfl

@[simp] theorem eventWorkerId_detached (s : State) (ctx : RuntimeContext) :
    (s.eventWorkerId ctx).2.detached = s.detached := by
  change (s.claimThreadWorkerId ctx).2.detached = s.detached
  rw [State.claimThreadWorkerId]
  split <;> rfl

section

variable (h : Kept s)
include h

section

variable (hstack : s.stack = frame :: rest)
include hstack

theorem Kept.start {ctx : RuntimeContext}
    (hstage : frame.stage = .starting ctx) {clock : Nat} (hclock : clock ≠ 0) :
    Kept ((s.makePollStart frame.wrapper ctx clock).pollInner frame rest (some ⟨ctx, true⟩)) := by
  obtain ⟨pairs, marks, hmarks, hstanding⟩ := h.marks
  have hpolls := h.polls
  rw [hstack] at hstanding hpolls
  rw [attachedPolls_cons_of_not (by simp [Frame.isPolling, hstage])] at hpolls
  obtain ⟨-, rfl, hplain, hattached⟩ := hstanding.of_opening (.inr hstage)
  let start : PollStart :=
    ⟨clock, (s.eventWorkerId ctx).1, 0, frame.wrapper.taskId, frame.wrapper.spawnLoc⟩
  have hsee : outermost ((s.makePollStart frame.wrapper ctx clock).pollInner frame rest
      (some ⟨ctx, true⟩)).history =
        ⟨true :: attachedPolls rest, pairs.flatMap Pair.marks ++ [.pollStart start, .polled]⟩ := by
    have hhistory : (s.makePollStart frame.wrapper ctx clock).history =
        s.history ++ [.pollStart start] := by simp [State.makePollStart, start]
    rw [State.pollInner, outermost_append, hhistory, outermost_append,
      View.see_polled hattached (by simpa [View.see, hpolls] using not_mem_attachedPolls hplain)]
    simp [View.see, hpolls, hmarks, hattached]
  exact {
    on := by simpa [State.pollInner, State.goTo, State.makePollStart] using h.on
    live := by simpa [State.pollInner, State.goTo, State.makePollStart] using h.live
    polls := by
      rw [hsee, ← hattached]
      exact (attachedPolls_polling _ _ rest).symm
    marks := by
      refine ⟨pairs, [.pollStart start, .polled], by rw [hsee], ?_⟩
      rw [show ((s.makePollStart frame.wrapper ctx clock).pollInner frame rest
        (some ⟨ctx, true⟩)).pollStartTs.isSome = true from isSome_nonZero hclock]
      exact .inside (.here hplain hattached rfl (claimed_claimThreadWorkerId s ctx)) }

theorem Kept.stop (hstage : frame.stage = .ending guard) (clock : Nat) :
    Kept ((s.makePollEnd guard.ctx clock).pop rest) := by
  obtain ⟨pairs, marks, hmarks, hstanding⟩ := h.marks
  have hpolls := h.polls
  rw [hstack] at hstanding hpolls
  rw [attachedPolls_cons_of_not (by simp [Frame.isPolling, hstage])] at hpolls
  obtain ⟨start, hmarker, rfl, hplain, hclaimed⟩ := hstanding.of_ending hstage
  have hresolved : s.eventWorkerId guard.ctx =
      (start.workerId, { s with locals.globalWorkerId := some start.workerId }) := by
    rw [State.eventWorkerId, claimThreadWorkerId_of_claimed hclaimed]
  let pair : Pair := ⟨start, ⟨clock, start.workerId⟩, rfl⟩
  have hsee : outermost ((s.makePollEnd guard.ctx clock).pop rest).history =
      ⟨attachedPolls rest, (pairs ++ [pair]).flatMap Pair.marks⟩ := by
    have hhistory : ((s.makePollEnd guard.ctx clock).pop rest).history =
        s.history ++ [.pollEnd pair.stop] := by simp [State.pop, State.makePollEnd, hresolved, pair]
    rw [hhistory, outermost_append]
    simp [View.see, hpolls, hmarks, pair, Pair.marks]
  exact {
    on := by simpa [State.pop, State.makePollEnd] using h.on
    live := by simpa [State.pop, State.makePollEnd] using h.live
    polls := by
      rw [hsee]
      rfl
    marks := by
      refine ⟨pairs ++ [pair], [], by rw [hsee, List.append_nil], ?_⟩
      rw [show ((s.makePollEnd guard.ctx clock).pop rest).pollStartTs.isSome = false by
        simpa [State.pop, State.makePollEnd] using hmarker]
      exact .outside hplain }

theorem Kept.advance {clock : Nat}
    (hclock : clock ≠ 0) (hnext : s.advance frame rest clock = some next) : Kept next := by
  obtain ⟨wrapper, stage⟩ := frame
  cases stage with
  | entered =>
    simp only [State.advance, h.on, if_true] at hnext
    cases hnext
    apply h.goTo hstack rfl rfl
    intro marks hmarks
    obtain ⟨hmarker, rfl, hplain, -⟩ | ⟨start, hmarker, rfl, hinside⟩ := hmarks.of_unguarded rfl
    · rw [hmarker]
      exact .entering hplain (.inr rfl)
    · rw [hmarker]
      exact .inside (.nested rfl hinside)
  | enabled =>
    simp only [State.advance] at hnext
    split at hnext
    · next hnone =>
        cases hnext
        apply h.pollInner_none hstack rfl rfl
        intro hclear
        rw [Option.filter_eq_none_iff] at hnone
        cases hctx : wrapper.runtimeCtx with
        | none => simp [Wrapper.attached, hctx]
        | some ctx =>
          have hset := hnone ctx hctx
          rw [Option.isSome_eq_false_iff.mp hclear] at hset
          exact absurd rfl hset
    · next ctx hctx =>
        cases hnext
        obtain ⟨hctx, hclear⟩ := Option.filter_eq_some_iff.mp hctx
        apply h.goTo hstack rfl rfl
        intro marks hmarks
        obtain ⟨hmarker, rfl, hplain, -⟩ | ⟨start, hmarker, -, -⟩ := hmarks.of_unguarded rfl
        · rw [hmarker]
          exact .opening hplain (by simp [Wrapper.attached, hctx]) (.inl rfl)
        · rw [Option.isNone_iff_eq_none.mp hclear] at hmarker
          cases hmarker
  | guarded ctx =>
    simp only [State.advance, h.live, Bool.false_eq_true, if_false] at hnext
    cases hnext
    apply h.goTo hstack rfl rfl
    intro marks hmarks
    obtain ⟨hmarker, rfl, hplain, hattached⟩ := hmarks.of_opening (.inl rfl)
    rw [hmarker]
    exact .opening hplain hattached (.inr rfl)
  | starting ctx =>
    simp only [State.advance, h.on, if_true] at hnext
    cases hnext
    exact h.start hstack rfl hclock
  | polling guard => simp [State.advance] at hnext
  | closing guard =>
    simp only [State.advance, h.live, Bool.false_eq_true, if_false] at hnext
    cases hnext
    refine h.of_history_eq h.on rfl rfl ?_ ?_
    · rw [hstack]
      rfl
    · intro marks hmarks
      rw [hstack] at hmarks
      obtain ⟨ctx, recorded⟩ := guard
      obtain ⟨start, rfl, hplain, hrecorded, hclaimed⟩ := hmarks.of_closing rfl
      cases hrecorded
      exact .ending hplain rfl hclaimed
  | ending guard =>
    simp only [State.advance, h.on, if_true] at hnext
    cases hnext
    exact h.stop hstack rfl clock

theorem Kept.leave (hnext : s.leave frame rest = some next) : Kept next := by
  obtain ⟨pairs, marks, hmarks, hstanding⟩ := h.marks
  have hpolls := h.polls
  rw [hstack] at hstanding hpolls
  obtain ⟨wrapper, stage⟩ := frame
  cases stage with
  | polling guard =>
    rw [attachedPolls_polling] at hpolls
    cases guard with
    | none =>
      cases hnext
      have hview : (wrapper.attached = false ∨ true ∈ attachedPolls rest) ∧
          Standing s.claimed s.pollStartTs.isSome rest marks := by
        obtain ⟨hmarker, rfl, hplain, htop⟩ | ⟨start, hmarker, rfl, hinside⟩ :=
          hstanding.of_unguarded rfl
        · rw [hmarker]
          exact ⟨.inl (htop rfl).2, .outside hplain⟩
        · rw [hmarker]
          exact ⟨.inr hinside.mem_attachedPolls, .inside hinside⟩
      have hsee : outermost (s.history ++ [.finished]) =
          ⟨attachedPolls rest, (outermost s.history).marks⟩ := by
        rw [outermost_append, View.see_finished_hidden hpolls hview.1]
      exact {
        on := h.on
        live := h.live
        polls := congrArg View.polls hsee
        marks := ⟨pairs, marks, (congrArg View.marks hsee).trans hmarks, hview.2⟩ }
    | some guard =>
      cases hnext
      obtain ⟨ctx, recorded⟩ := guard
      obtain ⟨start, hmarker, rfl, hplain, hattached, hrecorded, hclaimed⟩ :=
        hstanding.of_polling rfl
      cases hrecorded
      rw [hattached] at hpolls
      have hsee : outermost (s.history ++ [.finished]) =
          ⟨attachedPolls rest, pairs.flatMap Pair.marks ++
            [.pollStart start, .polled, .finished]⟩ := by
        rw [outermost_append, View.see_finished hpolls (not_mem_attachedPolls hplain), hmarks]
        simp
      exact {
        on := h.on
        live := h.live
        polls := congrArg View.polls hsee
        marks := by
          refine ⟨pairs, _, congrArg View.marks hsee, ?_⟩
          change Standing s.claimed s.pollStartTs.isSome _ _
          rw [hmarker]
          exact .closing hplain rfl hclaimed }
  | entered | enabled | guarded | starting | closing | ending => simp [State.leave] at hnext

end

theorem Kept.poll (hopen : s.isOpen) (wrapper : Wrapper) :
    Kept { s with stack := ⟨wrapper, .entered⟩ :: s.stack } := by
  refine h.of_history_eq h.on rfl rfl (attachedPolls_cons_of_not rfl) ?_
  intro marks hmarks
  change Standing s.claimed s.pollStartTs.isSome _ marks
  generalize hmarker : s.pollStartTs.isSome = marker at hmarks
  generalize hframes : s.stack = frames at hmarks
  have htop : ∀ frame rest, frames = frame :: rest → frame.isPolling := by
    intro frame rest hcons
    simpa [State.isOpen, hframes, hcons] using hopen
  cases hmarks with
  | outside hplain => exact .entering hplain (.inl rfl)
  | inside hinside => exact .inside (.nested rfl hinside)
  | entering _ hstage =>
    have hpolling := htop _ _ rfl
    obtain hstage | hstage := hstage <;> simp [Frame.isPolling, hstage] at hpolling
  | opening _ _ hstage =>
    have hpolling := htop _ _ rfl
    obtain hstage | hstage := hstage <;> simp [Frame.isPolling, hstage] at hpolling
  | closing _ hstage _ | ending _ hstage _ =>
    have hpolling := htop _ _ rfl
    simp [Frame.isPolling, hstage] at hpolling

theorem Kept.step {event : Event} (htimed : event.Timed) (hquiet : event.Quiet)
    (hnext : s.step event = some next) : Kept next := by
  cases event with
  | poll wrapper =>
    simp only [State.step] at hnext
    split at hnext
    · next hopen =>
        cases hnext
        exact h.poll hopen wrapper
    · cases hnext
  | proceed clock =>
    simp only [State.step] at hnext
    split at hnext
    · cases hnext
    · next frame rest hstack => exact h.advance hstack htimed hnext
  | leave outcome =>
    simp only [State.step] at hnext
    split at hnext
    · cases hnext
    · next frame rest hstack => exact h.leave hstack hnext
  | park ctx =>
    simp only [State.step] at hnext
    split at hnext
    · split at hnext
      · cases hnext
        apply h.of_history_eq (by simpa using h.on) (by simp) (by simp) (by simp)
        intro marks hmarks
        rw [eventWorkerId_pollStartTs, eventWorkerId_stack]
        exact hmarks.mono fun owner id => claimed_mono s ctx
      · cases hnext
        exact h
    · cases hnext
  | setEnabled recorder on =>
    cases hnext
    have hon : ∀ other, Function.update s.enabled recorder on other := by
      intro other
      rw [Function.update_apply]
      split
      · exact hquiet
      · exact h.on other
    exact h.of_history_eq hon rfl rfl rfl fun _ => id
  | detach ctx here => exact hquiet.elim
  | reserve recorder =>
    cases hnext
    exact h.of_history_eq h.on rfl rfl rfl fun _ => id

end

theorem kept_initial {enabled : Nat → Bool} (hon : ∀ recorder, enabled recorder)
    (workerIdCounter : Nat → Nat) : Kept (.initial enabled workerIdCounter) where
  on := hon
  live _ := rfl
  polls := rfl
  marks := ⟨[], [], rfl, .outside (by simp [State.initial])⟩

theorem Kept.run (h : Kept s) {events : List Event} (htimed : ∀ event ∈ events, event.Timed)
    (hquiet : ∀ event ∈ events, event.Quiet) (hrun : run State.step s events = some next) :
    Kept next :=
  run_invariant (P := fun _ event => event.Timed ∧ event.Quiet)
    (fun _ _ _ hkept hevent hnext => hkept.step hevent.1 hevent.2 hnext) h
    (along_of_forall (fun event hevent _ => ⟨htimed event hevent, hquiet event hevent⟩) s) hrun

/-! ## Pairs -/

variable {claimed : Nat → Option Nat}

theorem Standing.begins_pair {marker : Bool} {frames : List Frame}
    {marks : List Mark} (h : Standing claimed marker frames marks) (hmarks : marks ≠ []) :
    ∃ pair : Pair, marks <+: pair.marks := by
  cases h with
  | outside | entering | opening => exact absurd rfl hmarks
  | @inside _ start _ => exact ⟨⟨start, ⟨0, start.workerId⟩, rfl⟩, ⟨_, rfl⟩⟩
  | @closing _ _ _ start => exact ⟨⟨start, ⟨0, start.workerId⟩, rfl⟩, ⟨_, rfl⟩⟩
  | @ending _ _ _ start => exact ⟨⟨start, ⟨0, start.workerId⟩, rfl⟩, ⟨_, rfl⟩⟩

theorem Standing.of_nil {marker : Bool} {marks : List Mark}
    (h : Standing claimed marker [] marks) : marks = [] := by
  cases h with
  | outside => rfl
  | inside hinside => cases hinside

/-- The outermost attached polls, each with a start and an end of one worker around it. The last
pair may still be open while a wrapper is being polled. -/
theorem Kept.pairs (h : Kept s) :
    ∃ pairs : List Pair, (outermost s.history).marks <+: pairs.flatMap Pair.marks ∧
      (s.stack = [] → (outermost s.history).marks = pairs.flatMap Pair.marks) := by
  obtain ⟨pairs, marks, hmarks, hstanding⟩ := h.marks
  by_cases hnil : marks = []
  · rw [hnil, List.append_nil] at hmarks
    exact ⟨pairs, hmarks ▸ List.prefix_refl _, fun _ => hmarks⟩
  · obtain ⟨pair, hpair⟩ := hstanding.begins_pair hnil
    refine ⟨pairs ++ [pair], ?_, ?_⟩
    · rw [hmarks, List.flatMap_append, List.prefix_append_right_inj]
      simpa using hpair
    · intro hstack
      rw [hstack] at hstanding
      exact absurd hstanding.of_nil hnil

/-- A thread on which wrappers are polled inside of each other, return or panic, while recording is
paused and runtimes are detached. No start is recorded while a span is open, and the marker is clear
outside of all polls. While recording stays on and nothing is detached, each outermost attached poll
has a start and an end of one worker around it, and no other poll has events. -/
theorem spans_apart (enabled : Nat → Bool) (workerIdCounter : Nat → Nat) (events : List Event)
    (htimed : ∀ event ∈ events, event.Timed)
    (hrun : run State.step (.initial enabled workerIdCounter) events = some s) :
    (∀ event next, s.step event = some next → starts next.history ≠ starts s.history →
        ∀ frame ∈ s.stack, frame.recorded = false) ∧
      (s.stack = [] → s.pollStartTs = none) ∧
      ((∀ recorder, enabled recorder) → (∀ event ∈ events, event.Quiet) →
        ∃ pairs : List Pair, (outermost s.history).marks <+: pairs.flatMap Pair.marks ∧
          (s.stack = [] → (outermost s.history).marks = pairs.flatMap Pair.marks)) := by
  have hsound := (sound_initial enabled workerIdCounter).run htimed hrun
  refine ⟨?_, hsound.pollStartTs_eq_none, ?_⟩
  · intro event next hnext hstarts
    exact hsound.not_recorded hnext hstarts
  · intro hon hquiet
    exact ((kept_initial hon workerIdCounter).run htimed hquiet hrun).pairs

/-- An attached task polls a task of another runtime, which panics. -/
def nestedPolls : List Event :=
  let outer : Wrapper := ⟨0, some ⟨1, 0⟩, 10, 100⟩
  let inner : Wrapper := ⟨0, some ⟨2, 0⟩, 11, 101⟩
  [.poll outer, .proceed 5, .proceed 5, .proceed 5, .proceed 6,
    .poll inner, .proceed 7, .proceed 7, .leave .panicked,
    .leave .returned, .proceed 8, .proceed 9]

theorem spans_apart_nested :
    ∃ s, run State.step (.initial (fun _ => true) fun _ => 0) nestedPolls = some s ∧
      (outermost s.history).marks =
        [.pollStart ⟨6, 0, 0, 10, 100⟩, .polled, .finished, .pollEnd ⟨9, 0⟩] ∧
      ∃ pairs : List Pair, (outermost s.history).marks = pairs.flatMap Pair.marks := by
  have htimed : ∀ event ∈ nestedPolls, event.Timed := by simp [nestedPolls, Event.Timed]
  have hquiet : ∀ event ∈ nestedPolls, event.Quiet := by simp [nestedPolls, Event.Quiet]
  obtain ⟨s, hs⟩ : ∃ s, run State.step (.initial (fun _ => true) fun _ => 0) nestedPolls = some s :=
    ⟨_, rfl⟩
  obtain ⟨pairs, -, hpairs⟩ := (spans_apart _ _ nestedPolls htimed hs).2.2 (fun _ => rfl) hquiet
  refine ⟨s, hs, ?_, pairs, hpairs ?_⟩ <;> cases hs <;> rfl

end Dial9.Tokio.PollSpans
