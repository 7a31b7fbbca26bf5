/-
# One component of the streaming fetch

The stream of a body is in one of few states, and each step takes it from one to another.
What was read off it is what the body delivered without its empty chunks, and what was
handed on is that, or what it unzips to. The body comes through unless two empty chunks
follow each other after the first chunk that is not empty: on the second of them no pull
is at work any more and none will be.
-/

import Dial9.Viewer.FetchStream
import Mathlib.Algebra.Order.BigOperators.Group.List
import Mathlib.Algebra.Order.Ring.Nat
import Mathlib.Data.Prod.Lex

namespace Dial9.Viewer.FetchStream

open Lib

/-! ## Cuts -/

/-- No empty chunk right after another. -/
def Steady (chunks : List Bytes) : Prop := chunks.IsChain fun a b => ¬ (a = [] ∧ b = [])

variable {chunk : Bytes} {rest : List Bytes}

theorem steady_cons (h : chunk ≠ []) (chunks : List Bytes) :
    Steady (chunk :: chunks) ↔ Steady chunks := by
  rw [Steady, Steady]
  cases chunks with
  | nil => simp
  | cons other chunks => simp [h]

theorem not_steady_two (chunks : List Bytes) : ¬ Steady ([] :: [] :: chunks) := by
  simp [Steady]

theorem steady_gap (h : chunk ≠ []) (chunks : List Bytes) :
    Steady ([] :: chunk :: chunks) ↔ Steady chunks := by
  rw [← steady_cons h chunks, Steady, List.isChain_cons_cons, ← Steady]
  simp [h]

/-- The chunks of a body that are not empty. -/
def nonempty (chunks : List Bytes) : List Bytes := chunks.filter fun chunk => !chunk.isEmpty

theorem nonempty_cons (h : chunk ≠ []) (chunks : List Bytes) :
    nonempty (chunk :: chunks) = chunk :: nonempty chunks := by
  rw [nonempty, nonempty, List.filter_cons_of_pos]
  simpa using h

theorem nonempty_skip (chunks : List Bytes) : nonempty ([] :: chunks) = nonempty chunks := rfl

theorem flatten_nonempty (chunks : List Bytes) : (nonempty chunks).flatten = chunks.flatten := by
  induction chunks with
  | nil => rfl
  | cons chunk chunks ih =>
    by_cases hchunk : chunk = []
    · subst hchunk
      rw [nonempty_skip, ih]
      rfl
    · rw [nonempty_cons hchunk, List.flatten_cons, List.flatten_cons, ih]

/-! ## Decompression in chunks -/

namespace DecompressionStream

variable {σ : Type} (gz : DecompressionStream σ)

def feed : σ → List Bytes → Option (σ × List Bytes)
  | state, [] => some (state, [])
  | state, chunk :: chunks =>
    (gz.write state chunk).bind fun written =>
      (feed written.1 chunks).map fun fed => (fed.1, written.2 ++ fed.2)

/-- All that comes out for the chunks of a body. -/
def decompress (chunks : List Bytes) : Option (List Bytes) :=
  (gz.feed gz.init chunks).bind fun fed => (gz.close fed.1).map fun last => fed.2 ++ last

/-- However a body is cut, it unzips to the same bytes. -/
def Computes (gunzip : Bytes → Option Bytes) : Prop :=
  ∀ chunks : List Bytes, (∀ chunk ∈ chunks, chunk ≠ []) →
    (gz.decompress chunks).map List.flatten = gunzip chunks.flatten

variable {gz}

theorem feed_append (state : σ) (first second : List Bytes) :
    gz.feed state (first ++ second) =
      (gz.feed state first).bind fun fed =>
        (gz.feed fed.1 second).map fun more => (more.1, fed.2 ++ more.2) := by
  induction first generalizing state with
  | nil => simp [feed]
  | cons chunk first ih =>
    rw [List.cons_append, feed, feed]
    cases gz.write state chunk with
    | none => rfl
    | some written =>
      simp only [Option.bind_some, ih]
      cases gz.feed written.1 first with
      | none => rfl
      | some fed =>
        simp only [Option.bind_some, Option.map_some, Option.map_map, Function.comp_def,
          List.append_assoc]

theorem feed_concat (state : σ) (chunks : List Bytes) (chunk : Bytes) :
    gz.feed state (chunks ++ [chunk]) =
      (gz.feed state chunks).bind fun fed =>
        (gz.write fed.1 chunk).map fun written => (written.1, fed.2 ++ written.2) := by
  rw [feed_append]
  congr 1
  funext fed
  rw [feed]
  cases gz.write fed.1 chunk with
  | none => rfl
  | some written => simp [feed]

theorem feed_isSome {chunks more : List Bytes} (h : (gz.decompress (chunks ++ more)).isSome) :
    (gz.feed gz.init chunks).isSome := by
  rw [decompress, feed_append] at h
  cases hfeed : gz.feed gz.init chunks with
  | none =>
    rw [hfeed] at h
    exact absurd h Bool.false_ne_true
  | some fed => rfl

end DecompressionStream

/-! ## How far a stream is -/

/-- The states that the stream of a body is in. -/
inductive Mode where
  | holding (chunk : Bytes) (queue : List Bytes)
  /-- Pulling ahead of a read. -/
  | ahead
  /-- Pulling, and asked to pull again. -/
  | asked
  /-- Pulling for a read, and not asked to pull again. -/
  | last
  | idle
  /-- A read waits, and nothing will pull. -/
  | stalled
  | closed (queue : List Bytes)

namespace Mode

def raw : Mode → RawStream
  | .holding chunk queue => ⟨chunk :: queue, false, false, false, false⟩
  | .ahead => ⟨[], false, true, false, false⟩
  | .asked => ⟨[], true, true, true, false⟩
  | .last => ⟨[], true, true, false, false⟩
  | .idle => ⟨[], false, false, false, false⟩
  | .stalled => ⟨[], true, false, false, false⟩
  | .closed queue => ⟨queue, false, false, false, true⟩

/-- The rest of the body will come through; before the last pull an empty chunk went by. -/
def Flows (body : List Bytes) : Mode → Prop
  | .holding _ _ | .ahead | .asked => Steady body
  | .last | .idle => Steady ([] :: body)
  | .stalled => False
  | .closed _ => True

end Mode

namespace Component

variable {σ : Type} {gz : DecompressionStream σ} {resp : Response} {c : Component σ} {mode : Mode}

/-- What was read off the stream was handed on, as it is or unzipped, or can be. -/
def Made (gz : DecompressionStream σ) (c : Component σ) : Prop :=
  match c.inflate with
  | none => c.given ++ c.output = c.taken
  | some state =>
    ∃ out last, gz.feed gz.init c.taken = some (state, out) ∧
      (bif c.ended then gz.close state else some []) = some last ∧
      c.given ++ c.output = out ++ last

/-- A component whose body streams. -/
structure Streams (gz : DecompressionStream σ) (resp : Response) (c : Component σ) (mode : Mode) :
    Prop where
  phase : c.phase = .streaming
  complete : c.complete = true
  raw : c.raw = mode.raw
  sum : nonempty resp.cuts = c.taken ++ (mode.raw.queue ++ nonempty c.body)
  sniffed : c.inflate.isSome = (nonempty resp.cuts).head?.any isGzip
  made : Made gz c
  closed : mode.raw.closing = true → c.body = []
  ended : c.ended = true → mode = .closed []
  flows : mode.Flows c.body ↔ Steady (resp.cuts.dropWhile List.isEmpty)

/-- A component whose body arrives whole, on its way. -/
inductive Stage (gz : DecompressionStream σ) (resp : Response) : Component σ → Prop where
  | fetching : Stage gz resp (start (some resp))
  | sniffing (body : List Bytes) (hbody : nonempty body = nonempty resp.cuts)
      (hsteady : Steady (body.dropWhile List.isEmpty) ↔
        Steady (resp.cuts.dropWhile List.isEmpty)) :
      Stage gz resp { start (some resp) with phase := .sniffing, body := body, complete := true }
  | streaming {c : Component σ} {mode : Mode} (h : Streams gz resp c mode) : Stage gz resp c

/-- A body that arrives whole, and unzips if it is taken for gzipped. -/
structure Whole (gz : DecompressionStream σ) (resp : Response) : Prop where
  ok : resp.ok = true
  complete : resp.complete = true
  unzips : (nonempty resp.cuts).head?.any isGzip = true →
    (gz.decompress (nonempty resp.cuts)).isSome = true

/-- How much a component has before it. -/
def cost (c : Component σ) : Nat :=
  match c.phase with
  | .fetching => 3 * (c.answer.elim 0 fun resp => resp.cuts.length) + 9
  | .sniffing => 3 * c.body.length + 8
  | .streaming =>
    3 * c.body.length + 2 * c.raw.queue.length + (if c.raw.closing then 0 else 2) +
      (if c.raw.requested then 0 else 1) + if c.ended then 0 else 1
  | .failed => 0

theorem Made.take (h : Made gz c) (hended : c.ended = false)
    (hfeeds : c.inflate.isSome = true → (gz.feed gz.init (c.taken ++ [chunk])).isSome = true) :
    ∃ inflate output, c.take gz chunk =
        { c with inflate := inflate, output := output, taken := c.taken ++ [chunk] } ∧
      inflate.isSome = c.inflate.isSome ∧
      Made gz { c with inflate := inflate, output := output, taken := c.taken ++ [chunk] } := by
  rcases c with ⟨answer, phase, body, complete, raw, inflate, output, ended, taken, given⟩
  obtain rfl : ended = false := hended
  cases inflate with
  | none =>
    refine ⟨none, output ++ [chunk], rfl, rfl, ?_⟩
    have hmade : given ++ output = taken := h
    show given ++ (output ++ [chunk]) = taken ++ [chunk]
    rw [← List.append_assoc, hmade]
  | some state =>
    rcases h with ⟨out, last, hfeed, hlast, hout⟩
    cases hlast
    have hsome := hfeeds rfl
    dsimp only at hfeed hout hsome
    rw [DecompressionStream.feed_concat, hfeed, Option.bind_some, Option.isSome_map] at hsome
    rcases Option.isSome_iff_exists.mp hsome with ⟨⟨state', chunks⟩, hwrite⟩
    refine ⟨some state', output ++ chunks, ?_, rfl, out ++ chunks, [], ?_, rfl, ?_⟩
    · rw [Component.take]
      dsimp only
      rw [hwrite]
    · dsimp only
      rw [DecompressionStream.feed_concat, hfeed, Option.bind_some, hwrite, Option.map_some]
    · rw [List.append_nil] at hout
      rw [List.append_nil, ← hout, List.append_assoc]

theorem Made.finish (h : Made gz c) (hended : c.ended = false)
    (hcloses : c.inflate.isSome = true → (gz.decompress c.taken).isSome = true) :
    ∃ output, c.finish gz = { c with output := output, ended := true } ∧
      Made gz { c with output := output, ended := true } := by
  rcases c with ⟨answer, phase, body, complete, raw, inflate, output, ended, taken, given⟩
  obtain rfl : ended = false := hended
  cases inflate with
  | none => exact ⟨output, rfl, h⟩
  | some state =>
    rcases h with ⟨out, last, hfeed, hlast, hout⟩
    cases hlast
    have hsome := hcloses rfl
    dsimp only at hfeed hout hsome
    rw [DecompressionStream.decompress, hfeed, Option.bind_some, Option.isSome_map] at hsome
    rcases Option.isSome_iff_exists.mp hsome with ⟨last, hclose⟩
    refine ⟨output ++ last, ?_, out, last, hfeed, hclose, ?_⟩
    · rw [Component.finish]
      dsimp only
      rw [hclose]
    · rw [List.append_nil] at hout
      rw [← hout, List.append_assoc]

theorem enqueue_of_ne (h : chunk ≠ []) :
    c.enqueue gz chunk =
      if c.raw.requested then
        take gz { c with raw := ({ c.raw with requested := false }).callPullIfNeeded.pulled } chunk
      else
        { c with
          raw := ({ c.raw with queue := c.raw.queue ++ [chunk] }).callPullIfNeeded.pulled } := by
  rw [enqueue, if_neg]
  simpa using h

/-- A step of a component hands nothing on, and brings it nearer to its end. -/
structure Moves (gz : DecompressionStream σ) (resp : Response) (c next : Component σ) : Prop where
  stage : Stage gz resp next
  given : next.given = c.given
  cost : next.cost < c.cost

variable {next : Component σ}

namespace Streams

section

variable (h : Streams gz resp c mode)
include h

theorem cost_eq :
    c.cost = 3 * c.body.length + 2 * mode.raw.queue.length +
      (if mode.raw.closing then 0 else 2) + (if mode.raw.requested then 0 else 1) +
        if c.ended then 0 else 1 := by
  rw [Component.cost, h.phase, h.raw]

theorem not_ended (hmode : mode ≠ .closed []) : c.ended = false := by
  cases hended : c.ended with
  | false => rfl
  | true => exact absurd (h.ended hended) hmode

theorem turn (mode' : Mode) (body' : List Bytes)
    (hsum : mode.raw.queue ++ nonempty c.body = mode'.raw.queue ++ nonempty body')
    (hclosed : mode'.raw.closing = true → body' = []) (hended : c.ended = false)
    (hflows : mode'.Flows body' ↔ mode.Flows c.body) :
    Streams gz resp { c with body := body', raw := mode'.raw } mode' where
  phase := h.phase
  complete := h.complete
  raw := rfl
  sum := hsum ▸ h.sum
  sniffed := h.sniffed
  made := h.made
  closed := hclosed
  ended htrue := absurd (hended.symm.trans htrue) Bool.false_ne_true
  flows := hflows.trans h.flows

theorem receive (hwhole : Whole gz resp) (mode' : Mode)
    (body' : List Bytes)
    (hsum : mode.raw.queue ++ nonempty c.body = chunk :: (mode'.raw.queue ++ nonempty body'))
    (hclosed : mode'.raw.closing = true → body' = []) (hended : c.ended = false)
    (hflows : mode'.Flows body' ↔ mode.Flows c.body) :
    ∃ next, take gz { c with body := body', raw := mode'.raw } chunk = next ∧
      Streams gz resp next mode' ∧ next.given = c.given ∧ next.body = body' ∧
        next.ended = false := by
  have hall : nonempty resp.cuts = (c.taken ++ [chunk]) ++ (mode'.raw.queue ++ nonempty body') := by
    rw [h.sum, hsum, List.append_assoc]
    rfl
  have hmade : Made gz { c with body := body', raw := mode'.raw } := h.made
  have hfeeds : c.inflate.isSome = true →
      (gz.feed gz.init (c.taken ++ [chunk])).isSome = true := by
    intro hsome
    have hunzips := hwhole.unzips (h.sniffed ▸ hsome)
    rw [hall] at hunzips
    exact DecompressionStream.feed_isSome hunzips
  rcases hmade.take hended hfeeds with ⟨inflate, output, htake, hsome, hmade'⟩
  refine ⟨_, htake, ?_, rfl, rfl, hended⟩
  exact {
    phase := h.phase
    complete := h.complete
    raw := rfl
    sum := hall
    sniffed := hsome.trans h.sniffed
    made := hmade'
    closed := hclosed
    ended := fun htrue => absurd (hended.symm.trans htrue) Bool.false_ne_true
    flows := hflows.trans h.flows }

theorem ends (hwhole : Whole gz resp) (hqueue : mode.raw.queue = [])
    (hbody : c.body = []) (hended : c.ended = false) (hflows : mode.Flows []) :
    ∃ next, finish gz { c with raw := (Mode.closed []).raw } = next ∧
      Streams gz resp next (.closed []) ∧ next.given = c.given ∧ next.body = [] ∧
      next.ended = true := by
  have hall : nonempty resp.cuts = c.taken := by
    rw [h.sum, hqueue, hbody]
    exact List.append_nil _
  have hmade : Made gz { c with raw := (Mode.closed []).raw } := h.made
  rcases hmade.finish hended fun hsome => hall ▸ hwhole.unzips (h.sniffed ▸ hsome) with
    ⟨output, hfinish, hmade'⟩
  refine ⟨_, hfinish, ?_, rfl, hbody, rfl⟩
  exact {
    phase := h.phase
    complete := h.complete
    raw := rfl
    sum := by
      dsimp only
      rw [hbody, hall]
      exact (List.append_nil _).symm
    sniffed := h.sniffed
    made := hmade'
    closed := fun _ => hbody
    ended := fun _ => rfl
    flows := iff_of_true trivial (h.flows.mp (hbody ▸ hflows)) }

theorem skip (mode' : Mode) (hbody : c.body = [] :: rest)
    (hqueue : mode.raw.queue = []) (hqueue' : mode'.raw.queue = [])
    (hopen : mode'.raw.closing = false) (hended : c.ended = false)
    (hflows : mode'.Flows rest ↔ mode.Flows ([] :: rest))
    (hcost : (if mode'.raw.closing then 0 else 2) + (if mode'.raw.requested then 0 else 1) ≤
      (if mode.raw.closing then 0 else 2) + if mode.raw.requested then 0 else 1) :
    Moves gz resp c { c with body := rest, raw := mode'.raw } := by
  have hstreams := h.turn mode' rest
    (by rw [hqueue, hqueue', hbody, nonempty_skip]) (by simp [hopen]) hended (hbody ▸ hflows)
  refine ⟨.streaming hstreams, rfl, ?_⟩
  rw [hstreams.cost_eq, h.cost_eq, hqueue, hqueue', hbody, List.length_cons]
  dsimp only
  omega

theorem serve (hwhole : Whole gz resp) (hchunk : chunk ≠ [])
    (hbody : c.body = chunk :: rest) (hqueue : mode.raw.queue = []) (hended : c.ended = false)
    (hopen : mode.raw.closing = false) (hflows : mode.Flows (chunk :: rest) ↔ Steady rest) :
    Moves gz resp c (take gz { c with body := rest, raw := Mode.ahead.raw } chunk) := by
  rcases h.receive hwhole .ahead rest
    (by rw [hqueue, hbody, nonempty_cons hchunk]; rfl) (fun hclosing => Bool.noConfusion hclosing)
    hended (hbody ▸ hflows.symm) with ⟨next, hnext, hstreams, hgiven, hbody', hended'⟩
  rw [hnext]
  refine ⟨.streaming hstreams, hgiven, ?_⟩
  rw [hstreams.cost_eq, h.cost_eq, hbody', hbody, hended', hended, hqueue, hopen, List.length_cons]
  simp only [Mode.raw]
  split_ifs <;> omega

theorem queue (hchunk : chunk ≠ []) (hbody : c.body = chunk :: rest)
    (hqueue : mode.raw.queue = []) (hopen : mode.raw.closing = false)
    (hwaits : mode.raw.requested = false) (hended : c.ended = false)
    (hflows : mode.Flows (chunk :: rest) ↔ Steady rest) :
    Moves gz resp c { c with body := rest, raw := (Mode.holding chunk []).raw } := by
  have hstreams := h.turn (.holding chunk []) rest
    (by rw [hqueue, hbody, nonempty_cons hchunk]; rfl) (fun hclosing => Bool.noConfusion hclosing)
    hended (hbody ▸ hflows.symm)
  refine ⟨.streaming hstreams, rfl, ?_⟩
  rw [hstreams.cost_eq, h.cost_eq, hqueue, hopen, hwaits, hbody, List.length_cons]
  simp only [Mode.raw, List.length_singleton]
  simp
  omega

theorem shut (hbody : c.body = []) (hqueue : mode.raw.queue = [])
    (hopen : mode.raw.closing = false) (hwaits : mode.raw.requested = false)
    (hended : c.ended = false) (hflows : mode.Flows []) :
    Moves gz resp c { c with raw := (Mode.closed []).raw } := by
  have hstreams := h.turn (.closed []) c.body (by rw [hqueue]; rfl)
    (fun _ => hbody) hended (iff_of_true trivial (hbody ▸ hflows))
  refine ⟨.streaming hstreams, rfl, ?_⟩
  rw [hstreams.cost_eq, h.cost_eq, hqueue, hopen, hwaits]
  dsimp only
  simp [Mode.raw]

theorem last (hwhole : Whole gz resp) (hbody : c.body = [])
    (hqueue : mode.raw.queue = []) (hopen : mode.raw.closing = false) (hended : c.ended = false)
    (hflows : mode.Flows []) :
    Moves gz resp c (finish gz { c with raw := (Mode.closed []).raw }) := by
  rcases h.ends hwhole hqueue hbody hended hflows with
    ⟨next, hnext, hstreams, hgiven, hbody', hended'⟩
  rw [hnext]
  refine ⟨.streaming hstreams, hgiven, ?_⟩
  rw [hstreams.cost_eq, h.cost_eq, hbody', hbody, hended', hended, hqueue, hopen]
  simp [Mode.raw]

theorem settle (hwhole : Whole gz resp)
    (hstep : c.settle gz = some next) : Moves gz resp c next := by
  rcases c with ⟨answer, phase, body, complete, raw, inflate, output, ended, taken, given⟩
  obtain rfl : phase = .streaming := h.phase
  obtain rfl : complete = true := h.complete
  obtain rfl : raw = mode.raw := h.raw
  cases mode with
  | holding _ _ | idle | stalled | closed _ => cases hstep
  | ahead =>
    have hended := h.not_ended Mode.noConfusion
    cases body with
    | nil =>
      cases hstep
      exact h.shut rfl rfl rfl rfl hended .nil
    | cons chunk rest =>
      by_cases hchunk : chunk = []
      · subst hchunk
        cases hstep
        exact h.skip .idle rfl rfl rfl rfl hended Iff.rfl le_rfl
      · rw [← Option.some.inj hstep]
        dsimp only
        rw [enqueue_of_ne hchunk]
        exact h.queue hchunk rfl rfl rfl rfl hended (steady_cons hchunk rest)
  | asked =>
    have hended := h.not_ended Mode.noConfusion
    cases body with
    | nil =>
      cases hstep
      exact h.last hwhole rfl rfl rfl hended .nil
    | cons chunk rest =>
      by_cases hchunk : chunk = []
      · subst hchunk
        cases hstep
        exact h.skip .last rfl rfl rfl rfl hended Iff.rfl le_rfl
      · rw [← Option.some.inj hstep]
        dsimp only
        rw [enqueue_of_ne hchunk]
        exact h.serve hwhole hchunk rfl rfl hended rfl (steady_cons hchunk rest)
  | last =>
    have hended := h.not_ended Mode.noConfusion
    cases body with
    | nil =>
      cases hstep
      exact h.last hwhole rfl rfl rfl hended (.singleton _)
    | cons chunk rest =>
      by_cases hchunk : chunk = []
      · subst hchunk
        cases hstep
        exact h.skip .stalled rfl rfl rfl rfl hended
          (iff_of_false id (not_steady_two rest)) le_rfl
      · rw [← Option.some.inj hstep]
        dsimp only
        rw [enqueue_of_ne hchunk]
        exact h.serve hwhole hchunk rfl rfl hended rfl (steady_gap hchunk rest)

theorem pop (hwhole : Whole gz resp) (mode' : Mode)
    (hqueue : mode.raw.queue = chunk :: mode'.raw.queue) (hwaits : mode'.raw.requested = false)
    (hopen : mode'.raw.closing = mode.raw.closing) (hwaits' : mode.raw.requested = false)
    (hended : c.ended = false) (hflows : mode'.Flows c.body ↔ mode.Flows c.body) :
    Moves gz resp c (take gz { c with raw := mode'.raw } chunk) := by
  rcases h.receive hwhole mode' c.body
    (by rw [hqueue]; rfl) (fun hclosing => h.closed (hopen ▸ hclosing)) hended hflows with
    ⟨next, hnext, hstreams, hgiven, hbody, hended'⟩
  refine ⟨hnext ▸ .streaming hstreams, hnext ▸ hgiven, ?_⟩
  have hless : next.cost < c.cost := by
    rw [hstreams.cost_eq, h.cost_eq, hbody, hended', hended, hqueue, hopen, hwaits, hwaits',
      List.length_cons]
    omega
  exact hnext ▸ hless

theorem request (mode' : Mode) (hqueue : mode.raw.queue = [])
    (hqueue' : mode'.raw.queue = []) (hopen : mode.raw.closing = false)
    (hopen' : mode'.raw.closing = false) (hwaits : mode.raw.requested = false)
    (hwaits' : mode'.raw.requested = true) (hended : c.ended = false)
    (hflows : mode'.Flows c.body ↔ mode.Flows c.body) :
    Moves gz resp c { c with raw := mode'.raw } := by
  have hstreams := h.turn mode' c.body (by rw [hqueue, hqueue'])
    (by simp [hopen']) hended hflows
  refine ⟨.streaming hstreams, rfl, ?_⟩
  rw [hstreams.cost_eq, h.cost_eq, hqueue, hqueue', hopen, hopen', hwaits, hwaits']
  dsimp only
  simp

theorem read (hwhole : Whole gz resp) (hstep : c.read gz = some next) : Moves gz resp c next := by
  rcases c with ⟨answer, phase, body, complete, raw, inflate, output, ended, taken, given⟩
  obtain rfl : phase = .streaming := h.phase
  obtain rfl : complete = true := h.complete
  obtain rfl : raw = mode.raw := h.raw
  rcases Option.ite_none_right_eq_some.mp hstep with ⟨⟨-, hwaits, hended⟩, hnext⟩
  obtain rfl : ended = false := hended
  cases mode with
  | holding chunk queue =>
    cases hnext
    cases queue with
    | nil => exact h.pop hwhole .ahead rfl rfl rfl rfl rfl Iff.rfl
    | cons second queue => exact h.pop hwhole (.holding second queue) rfl rfl rfl rfl rfl Iff.rfl
  | ahead =>
    cases hnext
    exact h.request .asked rfl rfl rfl rfl rfl rfl rfl Iff.rfl
  | asked | last | stalled => exact Bool.noConfusion hwaits
  | idle =>
    cases hnext
    exact h.request .last rfl rfl rfl rfl rfl rfl rfl Iff.rfl
  | closed queue =>
    cases queue with
    | nil =>
      cases hnext
      rcases h.ends hwhole rfl (h.closed rfl) rfl trivial with
        ⟨next, hnext, hstreams, hgiven, hbody, hended⟩
      refine ⟨hnext ▸ .streaming hstreams, hnext ▸ hgiven, ?_⟩
      have hless : next.cost < Component.cost ⟨answer, .streaming, body, true,
          (Mode.closed []).raw, inflate, output, false, taken, given⟩ := by
        rw [hstreams.cost_eq, h.cost_eq, hbody, hended]
        simp [Mode.raw]
      exact hnext ▸ hless
    | cons chunk queue =>
      cases hnext
      exact h.pop hwhole (.closed queue) rfl rfl rfl rfl rfl Iff.rfl

end

end Streams

section

variable (h : Stage gz resp c)
include h

theorem Stage.settle (hwhole : Whole gz resp)
    (hstep : c.settle gz = some next) : Moves gz resp c next := by
  cases h with
  | fetching =>
    rw [settle, start] at hstep
    have hnext := Option.some.inj hstep
    dsimp only at hnext
    rw [hwhole.ok, hwhole.complete, Bool.or_true, Bool.and_true, if_pos rfl] at hnext
    rw [← hnext]
    refine ⟨.sniffing resp.cuts rfl Iff.rfl, rfl, ?_⟩
    show 3 * resp.cuts.length + 8 < 3 * resp.cuts.length + 9
    omega
  | sniffing body hbody hsteady =>
    cases body with
    | nil =>
      cases hstep
      have hstreams : Streams gz resp
          { start (some resp) with
            phase := .streaming, body := [], complete := true, raw := Mode.ahead.raw }
          .ahead := {
        phase := rfl
        complete := rfl
        raw := rfl
        sum := hbody.symm
        sniffed := by
          rw [← hbody]
          rfl
        made := rfl
        closed := fun hclosing => Bool.noConfusion hclosing
        ended := fun hended => Bool.noConfusion hended
        flows := hsteady }
      refine ⟨.streaming hstreams, rfl, ?_⟩
      show 4 < 8
      omega
    | cons chunk rest =>
      by_cases hchunk : chunk = []
      · subst hchunk
        cases hstep
        refine ⟨.sniffing rest hbody hsteady, rfl, ?_⟩
        show 3 * rest.length + 8 < 3 * (rest.length + 1) + 8
        omega
      · have hempty : chunk.isEmpty = false := by simpa using hchunk
        rw [settle] at hstep
        have hnext := Option.some.inj hstep
        dsimp only at hnext
        rw [hempty, if_neg Bool.false_ne_true] at hnext
        have hfirst : nonempty resp.cuts = chunk :: nonempty rest := by
          rw [← hbody, nonempty_cons hchunk]
        have hstreams : Streams gz resp next (.holding chunk []) := by
          rw [← hnext]
          exact {
            phase := rfl
            complete := rfl
            raw := rfl
            sum := hfirst
            sniffed := by
              rw [hfirst]
              show (if isGzip chunk then some gz.init else none).isSome = isGzip chunk
              cases isGzip chunk <;> rfl
            made := by
              rw [Made]
              dsimp only
              cases isGzip chunk with
              | false => rfl
              | true => exact ⟨[], [], rfl, rfl, rfl⟩
            closed := fun hclosing => Bool.noConfusion hclosing
            ended := fun hended => Bool.noConfusion hended
            flows := by
              rw [← hsteady, List.dropWhile_cons, hempty, if_neg Bool.false_ne_true,
                steady_cons hchunk]
              rfl }
        refine ⟨.streaming hstreams, ?_, ?_⟩
        · rw [← hnext]
        · rw [hstreams.cost_eq, ← hnext]
          show 3 * rest.length + 2 * 1 + 2 + 1 + 1 < 3 * (rest.length + 1) + 8
          omega
  | streaming hstreams => exact hstreams.settle hwhole hstep

theorem Stage.read (hwhole : Whole gz resp) (hstep : c.read gz = some next) :
    Moves gz resp c next := by
  cases h with
  | fetching | sniffing _ _ _ =>
    rcases Option.ite_none_right_eq_some.mp hstep with ⟨⟨hphase, -⟩, -⟩
    cases hphase
  | streaming hstreams => exact hstreams.read hwhole hstep

theorem Stage.handOn (houtput : c.output = chunk :: rest) :
    Stage gz resp { c with output := rest, given := c.given ++ [chunk] } := by
  cases h with
  | fetching | sniffing _ _ _ => cases houtput
  | streaming hstreams =>
    rename_i mode
    have hmade : Made gz { c with output := rest, given := c.given ++ [chunk] } := by
      have hjoin : c.given ++ [chunk] ++ rest = c.given ++ c.output := by
        rw [houtput, List.append_assoc]
        rfl
      have hmade := hstreams.made
      rw [Made] at hmade ⊢
      dsimp only
      rwa [hjoin]
    exact .streaming (show Streams gz resp _ mode from { hstreams with made := hmade })

theorem Stage.phase_ne_failed : c.phase ≠ .failed := by
  cases h with
  | fetching | sniffing _ _ _ => exact Phase.noConfusion
  | streaming hstreams => exact hstreams.phase ▸ Phase.noConfusion

theorem Stage.onward (hended : c.ended = false)
    (hsteady : Steady (resp.cuts.dropWhile List.isEmpty)) :
    (c.settle gz).isSome = true ∨ (c.read gz).isSome = true := by
  cases h with
  | fetching | sniffing _ _ _ => exact .inl rfl
  | streaming hstreams =>
    rename_i mode
    have hflows := hstreams.flows.mpr hsteady
    rcases c with ⟨answer, phase, body, complete, raw, inflate, output, ended, taken, given⟩
    obtain rfl : phase = .streaming := hstreams.phase
    obtain rfl : raw = mode.raw := hstreams.raw
    obtain rfl : ended = false := hended
    cases mode with
    | holding _ _ | idle | closed _ => exact .inr rfl
    | ahead | asked | last => exact .inl rfl
    | stalled => exact hflows.elim

end

/-! ## What was handed on -/

/-- All of the component was handed on. -/
structure Done (c : Component σ) : Prop where
  phase : c.phase = .streaming
  ended : c.ended = true
  output : c.output = []

variable {gunzip : Bytes → Option Bytes}

theorem flatten_cuts (resp : Response) : resp.cuts.flatten = resp.chunks.flatten := by
  rw [Response.cuts]
  split_ifs
  · rfl
  · exact List.append_nil _

/-- What the stream of a body comes to, whose first chunk shows if it is gzipped. -/
def streamed (gunzip : Bytes → Option Bytes) (resp : Response) : Option Bytes :=
  if (nonempty resp.cuts).head?.any isGzip then gunzip resp.chunks.flatten
  else some resp.chunks.flatten

theorem Stage.done (h : Stage gz resp c) (hgz : gz.Computes gunzip) (hdone : c.Done) :
    streamed gunzip resp = some c.given.flatten ∧ Steady (resp.cuts.dropWhile List.isEmpty) := by
  cases h with
  | fetching | sniffing _ _ _ => exact absurd hdone.phase Phase.noConfusion
  | streaming hstreams =>
    rename_i mode
    obtain rfl := hstreams.ended hdone.ended
    refine ⟨?_, hstreams.flows.mp trivial⟩
    have htaken : nonempty resp.cuts = c.taken := by
      rw [hstreams.sum, hstreams.closed rfl]
      exact List.append_nil _
    have hflat : c.taken.flatten = resp.chunks.flatten := by
      rw [← htaken, flatten_nonempty, flatten_cuts]
    have hmade := hstreams.made
    have hsniffed := hstreams.sniffed
    rw [Made, hdone.ended, hdone.output, List.append_nil] at hmade
    rw [streamed, ← hsniffed]
    cases hinflate : c.inflate with
    | none =>
      rw [hinflate] at hmade
      dsimp only at hmade
      rw [hmade, hflat]
      rfl
    | some state =>
      rw [hinflate] at hmade
      rcases hmade with ⟨out, last, hfeed, hlast, hgiven⟩
      have hcomputes := hgz (nonempty resp.cuts) fun chunk hchunk => by
        simpa using (List.mem_filter.mp hchunk).2
      rw [htaken, hflat, DecompressionStream.decompress, hfeed, Option.bind_some,
        show gz.close state = some last from hlast, Option.map_some, Option.map_some,
        ← hgiven] at hcomputes
      exact hcomputes.symm

end Component

end Dial9.Viewer.FetchStream
