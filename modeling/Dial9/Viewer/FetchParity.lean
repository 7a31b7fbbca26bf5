/-
# The streaming fetch and the buffered one

The streaming fetch hands the components on in their order, and nothing after one that
failed. Where all the bodies arrive and unzip, it hands on what the buffered fetch
returns exactly where two things hold of every body: its first chunk that is not empty
shows the magic number of gzip if the body does, or else unzipping changes nothing; and
no two empty chunks follow each other after that chunk.
-/

import Dial9.Viewer.FetchComponent
import Mathlib.Algebra.BigOperators.Group.List.Basic

namespace Dial9.Viewer.FetchStream

open Lib

variable {σ : Type} {gz : DecompressionStream σ} {gunzip : Bytes → Option Bytes}

/-! ## Components in their order -/

namespace RawStream

@[simp]
theorem callPullIfNeeded_closing (s : RawStream) : s.callPullIfNeeded.closing = s.closing := by
  rw [callPullIfNeeded]
  split_ifs <;> rfl

theorem callPullIfNeeded_of_closing {s : RawStream} (h : s.closing = true) :
    s.callPullIfNeeded = s := by
  rw [callPullIfNeeded, shouldCallPull, h]
  exact if_neg Bool.false_ne_true

@[simp]
theorem pulled_closing (s : RawStream) : s.pulled.closing = s.closing := by
  rw [pulled]
  split_ifs
  · exact callPullIfNeeded_closing _
  · rfl

theorem pulled_pulling {s : RawStream} (h : s.closing = true) : s.pulled.pulling = false := by
  rw [pulled]
  split_ifs
  · have hclosing : { s with pulling := false, pullAgain := false }.closing = true := h
    rw [callPullIfNeeded_of_closing hclosing]
  · rfl

end RawStream

namespace Component

variable {c next : Component σ}

/-- Nothing is at work behind a stream that was read to its end. -/
structure Tidy (c : Component σ) : Prop where
  quiet : c.raw.closing = true → c.raw.pulling = false
  shut : c.ended = true → c.phase = .streaming ∧ c.raw.closing = true

/-- A step of a component hands nothing on, and there is none after its end. -/
structure Works (c next : Component σ) : Prop where
  tidy : next.Tidy
  given : next.given = c.given
  ended : c.ended = false

section Works

variable {raw : RawStream} {body : List Bytes}

theorem works_fail (hquiet : raw.closing = true → raw.pulling = false) (hended : c.ended = false) :
    Works c (fail { c with raw := raw, body := body }) :=
  ⟨⟨hquiet, fun htrue => absurd (hended.symm.trans htrue) Bool.false_ne_true⟩, rfl, hended⟩

theorem works_turn {phase : Phase} {complete : Bool} {inflate : Option σ}
    (hquiet : raw.closing = true → raw.pulling = false) (hended : c.ended = false) :
    Works c { c with
      phase := phase, raw := raw, body := body, complete := complete, inflate := inflate } :=
  ⟨⟨hquiet, fun htrue => absurd (hended.symm.trans htrue) Bool.false_ne_true⟩, rfl, hended⟩

theorem works_take (chunk : Bytes) (hquiet : raw.closing = true → raw.pulling = false)
    (hended : c.ended = false) : Works c (take gz { c with raw := raw, body := body } chunk) := by
  have hshut (phase : Phase) : c.ended = true → phase = .streaming ∧ raw.closing = true :=
    fun htrue => absurd (hended.symm.trans htrue) Bool.false_ne_true
  rw [take]
  cases c.inflate with
  | none => exact ⟨⟨hquiet, hshut _⟩, rfl, hended⟩
  | some state =>
    dsimp only
    cases gz.write state chunk with
    | none | some _ => exact ⟨⟨hquiet, hshut _⟩, rfl, hended⟩

theorem works_finish (hphase : c.phase = .streaming) (hclosing : raw.closing = true)
    (hquiet : raw.pulling = false) (hended : c.ended = false) :
    Works c (finish gz { c with raw := raw, body := body }) := by
  have hshut (phase : Phase) : c.ended = true → phase = .streaming ∧ raw.closing = true :=
    fun htrue => absurd (hended.symm.trans htrue) Bool.false_ne_true
  rw [finish]
  cases c.inflate with
  | none => exact ⟨⟨fun _ => hquiet, fun _ => ⟨hphase, hclosing⟩⟩, rfl, hended⟩
  | some state =>
    dsimp only
    cases gz.close state with
    | none => exact ⟨⟨fun _ => hquiet, hshut _⟩, rfl, hended⟩
    | some last => exact ⟨⟨fun _ => hquiet, fun _ => ⟨hphase, hclosing⟩⟩, rfl, hended⟩

theorem works_enqueue (chunk : Bytes) (hopen : c.raw.closing = false) (hended : c.ended = false) :
    Works c (enqueue gz { c with body := body } chunk) := by
  have hquiet (raw : RawStream) (h : raw.closing = false) :
      raw.closing = true → raw.pulling = false :=
    fun htrue => absurd (h.symm.trans htrue) Bool.false_ne_true
  rw [enqueue]
  split_ifs with hempty hwaits
  · exact works_turn (hquiet _ (by simpa using hopen)) hended
  · exact works_take chunk (hquiet _ (by simpa using hopen)) hended
  · exact works_turn (hquiet _ (by simpa using hopen)) hended

theorem works_close (hphase : c.phase = .streaming) (hended : c.ended = false) :
    Works c (c.close gz) := by
  rw [close]
  split_ifs
  · apply works_finish hphase _ (RawStream.pulled_pulling rfl) hended
    rw [RawStream.pulled_closing]
  · exact works_turn (fun _ => RawStream.pulled_pulling rfl) hended

end Works

theorem Tidy.settle (h : c.Tidy) (hstep : c.settle gz = some next) : Works c next := by
  have hopen (hphase : c.phase ≠ .streaming) : c.ended = false := by
    cases hended : c.ended with
    | false => rfl
    | true => exact absurd (h.shut hended).1 hphase
  rcases c with ⟨answer, phase, body, complete, raw, inflate, output, ended, taken, given⟩
  cases phase with
  | fetching =>
    have hended := hopen Phase.noConfusion
    rw [← Option.some.inj hstep]
    cases answer with
    | none => exact works_fail h.quiet hended
    | some resp =>
      dsimp only
      split_ifs
      · exact works_turn h.quiet hended
      · exact works_fail h.quiet hended
  | sniffing =>
    have hended := hopen Phase.noConfusion
    rw [← Option.some.inj hstep]
    cases body with
    | nil =>
      dsimp only
      split_ifs
      · exact works_turn (fun hclosing => Bool.noConfusion hclosing) hended
      · exact works_fail h.quiet hended
    | cons chunk rest =>
      dsimp only
      split_ifs
      · exact works_turn h.quiet hended
      · exact works_turn (fun hclosing => Bool.noConfusion hclosing) hended
      · exact works_turn (fun hclosing => Bool.noConfusion hclosing) hended
  | streaming =>
    rcases Option.ite_none_right_eq_some.mp hstep with ⟨hpulling, hnext⟩
    have hclosing : raw.closing = false := by
      cases hclosing : raw.closing with
      | false => rfl
      | true => exact absurd ((h.quiet hclosing).symm.trans hpulling) Bool.false_ne_true
    have hended : ended = false := by
      cases hended : ended with
      | false => rfl
      | true => exact absurd (hclosing.symm.trans (h.shut hended).2) Bool.false_ne_true
    rw [← Option.some.inj hnext]
    cases body with
    | nil =>
      dsimp only
      split_ifs
      · exact works_close rfl hended
      · exact works_fail h.quiet hended
    | cons chunk rest => exact works_enqueue chunk hclosing hended
  | failed => cases hstep

theorem Tidy.read (h : c.Tidy) (hstep : c.read gz = some next) : Works c next := by
  rcases Option.ite_none_right_eq_some.mp hstep with ⟨⟨hphase, -, hended⟩, hnext⟩
  have hquiet (raw : RawStream) (hclosing : raw.closing = c.raw.closing)
      (hpulling : raw.pulling = c.raw.pulling) :
      raw.callPullIfNeeded.closing = true → raw.callPullIfNeeded.pulling = false := by
    rw [RawStream.callPullIfNeeded_closing]
    intro htrue
    rw [RawStream.callPullIfNeeded_of_closing htrue, hpulling]
    exact h.quiet (hclosing ▸ htrue)
  rw [← Option.some.inj hnext]
  cases c.raw.queue with
  | nil =>
    dsimp only
    split_ifs with hclosing
    · exact works_finish hphase hclosing (h.quiet hclosing) hended
    · exact works_turn (hquiet _ rfl rfl) hended
  | cons chunk rest => exact works_take chunk (hquiet _ rfl rfl) hended

end Component

variable {j : Nat} {resp : Response} {α β : Type} {part chunk : Bytes}

theorem map_set_same (f : α → β) {l : List α} {a b : α} (h : l[j]? = some a)
    (hf : f b = f a) : (l.set j b).map f = l.map f := by
  rw [List.map_set, hf]
  apply List.ext_getElem?
  intro k
  rw [List.getElem?_set]
  split_ifs with hk hlt
  · rw [← hk, List.getElem?_map, h]
    rfl
  · rw [← hk, List.getElem?_eq_none (Nat.le_of_not_lt hlt)]
  · rfl

theorem flatten_set_last {l : List (List α)} {i : Nat} {xs : List α}
    (h : l[i]? = some xs) (hafter : ∀ j ys, i < j → l[j]? = some ys → ys = []) (more : List α) :
    (l.set i (xs ++ more)).flatten = l.flatten ++ more := by
  induction l generalizing i with
  | nil => cases h
  | cons head tail ih =>
    cases i with
    | zero =>
      obtain rfl : head = xs := Option.some.inj h
      have htail : tail.flatten = [] := by
        rw [List.flatten_eq_nil_iff]
        intro ys hys
        rcases List.mem_iff_getElem?.mp hys with ⟨j, hj⟩
        exact hafter (j + 1) ys (Nat.succ_pos j) hj
      rw [List.set_cons_zero, List.flatten_cons, List.flatten_cons, htail, List.append_nil,
        List.append_nil]
    | succ i =>
      have hset := ih (i := i) h fun j ys hij hj => hafter (j + 1) ys (Nat.succ_lt_succ hij) hj
      rw [List.set_cons_succ, List.flatten_cons, hset, List.flatten_cons, List.append_assoc]

namespace TracesStream

variable {s next : TracesStream σ} {c c' : Component σ} {answers : List (Option Response)}

/-- A component is handed on only after all of every earlier one, and not after one that
failed. -/
structure InOrder (s : TracesStream σ) : Prop where
  yielded : s.yielded = (s.components.map Component.given).flatten
  strict : s.components.Pairwise fun earlier later => later.given ≠ [] → earlier.Done
  failure : s.components.Pairwise fun earlier later =>
    earlier.phase = .failed → later.given = []

structure Ordered (s : TracesStream σ) : Prop where
  yielded : s.yielded = (s.components.map Component.given).flatten
  tidy : ∀ c ∈ s.components, c.Tidy
  before : ∀ j c, s.components[j]? = some c → j < s.current → c.Done
  after : ∀ j c, s.components[j]? = some c → s.current < j → c.given = []

theorem Ordered.inOrder (h : s.Ordered) : s.InOrder where
  yielded := h.yielded
  strict := by
    rw [List.pairwise_iff_getElem]
    intro i j hi hj hij hgiven
    have hcurrent : ¬ s.current < j := fun hlt =>
      hgiven (h.after j _ (List.getElem?_eq_getElem hj) hlt)
    exact h.before i _ (List.getElem?_eq_getElem hi) (by omega)
  failure := by
    rw [List.pairwise_iff_getElem]
    intro i j hi hj hij hfailed
    apply h.after j _ (List.getElem?_eq_getElem hj)
    by_contra hcurrent
    have hdone := h.before i _ (List.getElem?_eq_getElem hi) (by omega)
    exact absurd (hdone.phase.symm.trans hfailed) Phase.noConfusion

theorem start_ordered (answers : List (Option Response)) :
    (start answers : TracesStream σ).Ordered where
  yielded := by
    symm
    show (List.map Component.given (start answers).components).flatten = []
    rw [List.flatten_eq_nil_iff]
    intro given hgiven
    rw [start, List.map_map, List.mem_map] at hgiven
    rcases hgiven with ⟨answer, -, rfl⟩
    rfl
  tidy := by
    intro c hc
    rcases List.mem_map.mp hc with ⟨answer, -, rfl⟩
    exact ⟨fun hclosing => Bool.noConfusion hclosing, fun hended => Bool.noConfusion hended⟩
  before _ _ _ hlt := absurd hlt (Nat.not_lt_zero _)
  after := by
    intro j c hj _
    rcases List.mem_map.mp (List.mem_of_getElem? hj) with ⟨answer, -, rfl⟩
    rfl

theorem advance_some {f : Component σ → Option (Component σ)} (h : s.advance j f = some next) :
    ∃ c c', s.components[j]? = some c ∧ f c = some c' ∧
      next = { s with components := s.components.set j c' } := by
  rcases Option.map_eq_some_iff.mp h with ⟨c', hbind, hnext⟩
  rcases Option.bind_eq_some_iff.mp hbind with ⟨c, hc, hf⟩
  exact ⟨c, c', hc, hf, hnext.symm⟩

theorem getElem?_set_some {l : List α} {i j : Nat} {a b : α}
    (h : (l.set i b)[j]? = some a) : (j = i ∧ a = b) ∨ (j ≠ i ∧ l[j]? = some a) := by
  rw [List.getElem?_set] at h
  split_ifs at h with hij hlt
  · exact .inl ⟨hij.symm, (Option.some.inj h).symm⟩
  · exact .inr ⟨Ne.symm hij, h⟩

theorem Ordered.works (h : s.Ordered) (hc : s.components[j]? = some c) (hworks : c.Works c') :
    { s with components := s.components.set j c' }.Ordered where
  yielded := by
    rw [map_set_same Component.given hc hworks.given]
    exact h.yielded
  tidy b hb := by
    rcases List.mem_or_eq_of_mem_set hb with hold | rfl
    · exact h.tidy b hold
    · exact hworks.tidy
  before k b hb hlt := by
    rcases getElem?_set_some hb with ⟨rfl, rfl⟩ | ⟨-, hold⟩
    · exact absurd ((h.before k c hc hlt).ended.symm.trans hworks.ended) Bool.noConfusion
    · exact h.before k b hold hlt
  after k b hb hlt := by
    rcases getElem?_set_some hb with ⟨rfl, rfl⟩ | ⟨-, hold⟩
    · rw [hworks.given]
      exact h.after k c hc hlt
    · exact h.after k b hold hlt

theorem next_some (h : s.next = some next) :
    ∃ c, s.components[s.current]? = some c ∧
      ((c.phase = .failed ∧ next = { s with failed := true }) ∨
        (c.phase ≠ .failed ∧ ∃ chunk rest, c.output = chunk :: rest ∧
          next = { s with
            components :=
              s.components.set s.current { c with output := rest, given := c.given ++ [chunk] }
            yielded := s.yielded ++ [chunk] }) ∨
        (c.phase ≠ .failed ∧ c.output = [] ∧ c.ended = true ∧
          next = { s with current := s.current + 1 })) := by
  rw [TracesStream.next] at h
  split_ifs at h with hfailed
  rcases Option.bind_eq_some_iff.mp h with ⟨c, hc, hstep⟩
  refine ⟨c, hc, ?_⟩
  by_cases hphase : c.phase = .failed
  · rw [if_pos hphase] at hstep
    exact .inl ⟨hphase, (Option.some.inj hstep).symm⟩
  · rw [if_neg hphase] at hstep
    cases houtput : c.output with
    | cons chunk rest =>
      rw [houtput] at hstep
      exact .inr (.inl ⟨hphase, chunk, rest, rfl, (Option.some.inj hstep).symm⟩)
    | nil =>
      rw [houtput] at hstep
      rcases Option.ite_none_right_eq_some.mp hstep with ⟨hended, hnext⟩
      exact .inr (.inr ⟨hphase, rfl, hended, (Option.some.inj hnext).symm⟩)

theorem Ordered.handOn (h : s.Ordered) (hc : s.components[s.current]? = some c) (chunk : Bytes)
    (rest : List Bytes) :
    { s with
      components :=
        s.components.set s.current { c with output := rest, given := c.given ++ [chunk] }
      yielded := s.yielded ++ [chunk] }.Ordered where
  yielded := by
    rw [List.map_set]
    dsimp only
    rw [flatten_set_last (by rw [List.getElem?_map, hc]; rfl), h.yielded]
    intro j ys hlt hj
    rw [List.getElem?_map] at hj
    rcases Option.map_eq_some_iff.mp hj with ⟨b, hb, rfl⟩
    exact h.after j b hb hlt
  tidy b hb := by
    rcases List.mem_or_eq_of_mem_set hb with hold | rfl
    · exact h.tidy b hold
    · have htidy := h.tidy c (List.mem_of_getElem? hc)
      exact ⟨htidy.quiet, htidy.shut⟩
  before k b hb hlt := by
    rcases getElem?_set_some hb with ⟨rfl, -⟩ | ⟨-, hold⟩
    · exact absurd hlt (Nat.lt_irrefl _)
    · exact h.before k b hold hlt
  after k b hb hlt := by
    rcases getElem?_set_some hb with ⟨rfl, -⟩ | ⟨-, hold⟩
    · exact absurd hlt (Nat.lt_irrefl _)
    · exact h.after k b hold hlt

theorem Ordered.turn (h : s.Ordered) (hc : s.components[s.current]? = some c)
    (houtput : c.output = []) (hended : c.ended = true) :
    { s with current := s.current + 1 }.Ordered where
  yielded := h.yielded
  tidy := h.tidy
  before k b hb hlt := by
    by_cases hk : k = s.current
    · subst hk
      obtain rfl : c = b := Option.some.inj (hc.symm.trans hb)
      exact ⟨((h.tidy c (List.mem_of_getElem? hc)).shut hended).1, hended, houtput⟩
    · have hlt' : k < s.current + 1 := hlt
      exact h.before k b hb (by omega)
  after k b hb hlt := by
    have hlt' : s.current + 1 < k := hlt
    exact h.after k b hb (by omega)

theorem Ordered.step (h : s.Ordered) {event : Event} (hstep : s.step gz event = some next) :
    next.Ordered := by
  cases event with
  | settle j =>
    rcases advance_some hstep with ⟨c, c', hc, hsettle, rfl⟩
    exact h.works hc ((h.tidy c (List.mem_of_getElem? hc)).settle hsettle)
  | read j =>
    rcases advance_some hstep with ⟨c, c', hc, hread, rfl⟩
    exact h.works hc ((h.tidy c (List.mem_of_getElem? hc)).read hread)
  | next =>
    rcases next_some hstep with
      ⟨c, hc, ⟨-, rfl⟩ | ⟨-, chunk, rest, -, rfl⟩ | ⟨-, houtput, hended, rfl⟩⟩
    · exact { h with }
    · exact h.handOn hc chunk rest
    · exact h.turn hc houtput hended

theorem ordered_of_run {answers : List (Option Response)} {events : List Event}
    (hrun : run (step gz) (start answers) events = some s) : s.Ordered :=
  run_invariant (P := fun _ _ => True) (fun _ _ _ h _ hstep => Ordered.step h hstep)
    (start_ordered answers) (along_true _ events) hrun

/-! ## Bodies that arrive and unzip -/

/-- The requests of the components are answered by bodies that arrive and unzip. -/
def AllWhole (gz : DecompressionStream σ) (answers : List (Option Response)) : Prop :=
  ∀ answer ∈ answers, ∃ resp, answer = some resp ∧ Component.Whole gz resp

/-- The components are on their way, each to the end of its body. -/
structure Sound (gz : DecompressionStream σ) (answers : List (Option Response))
    (s : TracesStream σ) : Prop where
  length : s.components.length = answers.length
  stage : ∀ (j : Nat) (c : Component σ), s.components[j]? = some c →
    ∃ resp, answers[j]? = some (some resp) ∧ Component.Whole gz resp ∧ Component.Stage gz resp c
  sound : s.failed = false
  current : s.current ≤ s.components.length

theorem start_sound (h : AllWhole gz answers) : Sound gz answers (start answers) where
  length := List.length_map _
  stage j c hj := by
    rcases Option.map_eq_some_iff.mp (List.getElem?_map ▸ hj) with ⟨answer, hanswer, rfl⟩
    rcases h answer (List.mem_of_getElem? hanswer) with ⟨resp, rfl, hwhole⟩
    exact ⟨resp, hanswer, hwhole, .fetching⟩
  sound := rfl
  current := Nat.zero_le _

/-- What the components have before them, and then what the parser has. -/
def load (s : TracesStream σ) : ℕ ×ₗ ℕ :=
  toLex ((s.components.map Component.cost).sum,
    (s.components.map fun c => c.output.length).sum + (s.components.length - s.current))

theorem sum_map_set (f : α → Nat) {l : List α} {a : α} (h : l[j]? = some a) (b : α) :
    ((l.set j b).map f).sum + f a = (l.map f).sum + f b := by
  induction l generalizing j with
  | nil => cases h
  | cons head tail ih =>
    cases j with
    | zero =>
      obtain rfl : head = a := Option.some.inj h
      simp only [List.set_cons_zero, List.map_cons, List.sum_cons]
      omega
    | succ j =>
      have htail := ih (j := j) h
      simp only [List.set_cons_succ, List.map_cons, List.sum_cons]
      omega

theorem Sound.put (h : Sound gz answers s) {yielded : List Bytes} (hc : s.components[j]? = some c)
    (hstage : ∀ resp, Component.Stage gz resp c → Component.Whole gz resp →
      Component.Stage gz resp c') :
    Sound gz answers { s with components := s.components.set j c', yielded := yielded } where
  length := by
    rw [List.length_set]
    exact h.length
  stage k b hb := by
    rcases getElem?_set_some hb with ⟨rfl, rfl⟩ | ⟨-, hold⟩
    · rcases h.stage k c hc with ⟨resp, hanswer, hwhole, hc'⟩
      exact ⟨resp, hanswer, hwhole, hstage resp hc' hwhole⟩
    · exact h.stage k b hold
  sound := h.sound
  current := by
    rw [List.length_set]
    exact h.current

theorem Sound.moves (h : Sound gz answers s) (hc : s.components[j]? = some c)
    (hmoves : ∀ resp, Component.Stage gz resp c → Component.Whole gz resp →
      Component.Moves gz resp c c') :
    Sound gz answers { s with components := s.components.set j c' } ∧
      load { s with components := s.components.set j c' } < load s := by
  refine ⟨h.put hc fun resp hstage hwhole => (hmoves resp hstage hwhole).stage, ?_⟩
  rcases h.stage j c hc with ⟨resp, -, hwhole, hstage⟩
  have hless := (hmoves resp hstage hwhole).cost
  have hsum := sum_map_set Component.cost hc c'
  rw [load, load, Prod.Lex.toLex_lt_toLex]
  left
  dsimp only
  omega

theorem Sound.step (h : Sound gz answers s) {event : Event}
    (hstep : s.step gz event = some next) : Sound gz answers next ∧ next.load < s.load := by
  cases event with
  | settle j =>
    rcases advance_some hstep with ⟨c, c', hc, hsettle, rfl⟩
    exact h.moves hc fun resp hstage hwhole => hstage.settle hwhole hsettle
  | read j =>
    rcases advance_some hstep with ⟨c, c', hc, hread, rfl⟩
    exact h.moves hc fun resp hstage hwhole => hstage.read hwhole hread
  | next =>
    rcases next_some hstep with ⟨c, hc, hcase⟩
    rcases h.stage s.current c hc with ⟨resp, -, -, hstage⟩
    have hcurrent := (List.getElem?_eq_some_iff.mp hc).1
    rcases hcase with
      ⟨hphase, -⟩ | ⟨-, chunk, rest, houtput, rfl⟩ | ⟨-, -, -, rfl⟩
    · exact absurd hphase hstage.phase_ne_failed
    · refine ⟨h.put hc fun resp hstage _ => hstage.handOn houtput, ?_⟩
      have hcost := sum_map_set Component.cost hc
        { c with output := rest, given := c.given ++ [chunk] }
      have hsum := sum_map_set (fun c : Component σ => c.output.length) hc
        { c with output := rest, given := c.given ++ [chunk] }
      have hlength : c.output.length = rest.length + 1 := by
        rw [houtput]
        rfl
      rw [load, load, Prod.Lex.toLex_lt_toLex]
      right
      refine ⟨Nat.add_right_cancel hcost, ?_⟩
      dsimp only at hsum ⊢
      rw [List.length_set]
      omega
    · refine ⟨⟨h.length, h.stage, h.sound, hcurrent⟩, ?_⟩
      rw [load, load, Prod.Lex.toLex_lt_toLex]
      right
      refine ⟨rfl, ?_⟩
      dsimp only
      omega

theorem sound_of_run (h : AllWhole gz answers) {events : List Event}
    (hrun : run (step gz) (start answers) events = some s) : Sound gz answers s :=
  run_invariant (P := fun _ _ => True) (fun _ _ _ h _ hstep => (h.step hstep).1) (start_sound h)
    (along_true _ events) hrun

theorem terminates (h : AllWhole gz answers) : Terminates (step gz) (start answers) :=
  terminates_of_measure load (fun _ _ _ hsound hstep => Sound.step hsound hstep) (start_sound h)

theorem next_isSome (hfailed : s.failed = false) (hc : s.components[s.current]? = some c)
    (hphase : c.phase ≠ .failed) (hready : c.output ≠ [] ∨ c.ended = true) :
    s.next.isSome = true := by
  rw [TracesStream.next, hfailed, if_neg Bool.false_ne_true, hc, Option.bind_some, if_neg hphase]
  cases houtput : c.output with
  | cons chunk rest => rfl
  | nil =>
    have hended : c.ended = true := hready.resolve_left fun hne => hne houtput
    dsimp only
    rw [if_pos hended]
    rfl

theorem Sound.onward (h : Sound gz answers s) (hunfinished : ¬ s.Finished)
    (hsteady : ∀ resp, some resp ∈ answers → Steady (resp.cuts.dropWhile List.isEmpty)) :
    ∃ event ∈ [Event.settle s.current, .read s.current, .next],
      (s.step gz event).isSome = true := by
  have hlt : s.current < s.components.length := Nat.lt_of_le_of_ne h.current hunfinished
  have hc := List.getElem?_eq_getElem hlt
  rcases h.stage s.current _ hc with ⟨resp, hanswer, -, hstage⟩
  by_cases hended : s.components[s.current].ended = true
  · exact ⟨.next, by simp, next_isSome h.sound hc hstage.phase_ne_failed (.inr hended)⟩
  · have hopen := Bool.eq_false_iff.mpr hended
    rcases hstage.onward hopen (hsteady resp (List.mem_of_getElem? hanswer)) with hstep | hstep
    · refine ⟨.settle s.current, by simp, ?_⟩
      rw [TracesStream.step, advance, hc, Option.bind_some, Option.isSome_map]
      exact hstep
    · refine ⟨.read s.current, by simp, ?_⟩
      rw [TracesStream.step, advance, hc, Option.bind_some, Option.isSome_map]
      exact hstep

/-- Where all was handed on, a component came to what its stream comes to. -/
theorem Sound.finished (h : Sound gz answers s) (hordered : s.Ordered) (hgz : gz.Computes gunzip)
    (hfinished : s.Finished) (hc : s.components[j]? = some c) :
    ∃ resp, answers[j]? = some (some resp) ∧
      Component.streamed gunzip resp = some c.given.flatten ∧
      Steady (resp.cuts.dropWhile List.isEmpty) := by
  rcases h.stage j c hc with ⟨resp, hanswer, -, hstage⟩
  have hlt : j < s.current := hfinished ▸ (List.getElem?_eq_some_iff.mp hc).1
  exact ⟨resp, hanswer, hstage.done hgz (hordered.before j c hc hlt)⟩

end TracesStream

/-! ## The parts of the buffered fetch -/

theorem mapM_some {f : α → Option β} {l : List α} {ys : List β}
    (h : l.mapM f = some ys) : l.map f = ys.map some := by
  induction l generalizing ys with
  | nil =>
    cases h
    rfl
  | cons a l ih =>
    rw [List.mapM_cons] at h
    rcases Option.bind_eq_some_iff.mp h with ⟨y, hy, hrest⟩
    rcases Option.bind_eq_some_iff.mp hrest with ⟨rest, hl, hys⟩
    cases hys
    rw [List.map_cons, List.map_cons, hy, ih hl]

theorem fetchPart_some {answer : Option Response} (h : fetchPart gunzip answer = some part) :
    ∃ resp, answer = some resp ∧ resp.ok = true ∧ resp.complete = true ∧
      maybeGunzip gunzip resp.chunks.flatten = some part := by
  rcases Option.bind_eq_some_iff.mp h with ⟨resp, rfl, hpart⟩
  rcases Option.ite_none_right_eq_some.mp hpart with ⟨hwhole, hpart⟩
  rw [Bool.and_eq_true] at hwhole
  exact ⟨resp, rfl, hwhole.1, hwhole.2, hpart⟩

theorem isGzip_cons_cons (a b : UInt8) (rest : Bytes) :
    isGzip (a :: b :: rest) = (a == 0x1f && b == 0x8b) := by
  rw [isGzip.eq_def]
  split
  · rename_i heq
    cases heq
    rfl
  · rename_i hne
    symm
    rw [Bool.and_eq_false_iff]
    by_contra hboth
    simp only [beq_eq_false_iff_ne, ne_eq, not_or, not_not] at hboth
    exact hne rest (by rw [hboth.1, hboth.2])

theorem two_le_of_isGzip (h : isGzip chunk = true) : 2 ≤ chunk.length := by
  cases chunk with
  | nil => cases h
  | cons a chunk =>
    cases chunk with
    | nil =>
      simp [isGzip] at h
    | cons b chunk =>
      rw [List.length_cons, List.length_cons]
      omega

theorem isGzip_append (h : 2 ≤ chunk.length) (rest : Bytes) :
    isGzip (chunk ++ rest) = isGzip chunk := by
  match chunk, h with
  | a :: b :: chunk, _ =>
    rw [List.cons_append, List.cons_append, isGzip_cons_cons, isGzip_cons_cons]

theorem flatten_of_nonempty {first : Bytes} {rest : List Bytes}
    (h : nonempty resp.cuts = first :: rest) : resp.chunks.flatten = first ++ rest.flatten := by
  rw [← Component.flatten_cuts, ← flatten_nonempty, h, List.flatten_cons]

theorem isGzip_of_first (h : (nonempty resp.cuts).head?.any isGzip = true) :
    isGzip resp.chunks.flatten = true := by
  cases hcuts : nonempty resp.cuts with
  | nil =>
    rw [hcuts] at h
    cases h
  | cons first rest =>
    rw [hcuts] at h
    have hfirst : isGzip first = true := h
    rw [flatten_of_nonempty hcuts, isGzip_append (two_le_of_isGzip hfirst), hfirst]

theorem whole_of_fetchPart (hgz : gz.Computes gunzip)
    (h : fetchPart gunzip (some resp) = some part) : Component.Whole gz resp := by
  rcases fetchPart_some h with ⟨_, hresp, hok, hcomplete, hpart⟩
  cases hresp
  refine ⟨hok, hcomplete, ?_⟩
  intro hfirst
  have hcomputes := hgz (nonempty resp.cuts) fun chunk hchunk => by
    simpa using (List.mem_filter.mp hchunk).2
  rw [maybeGunzip, if_pos (isGzip_of_first hfirst)] at hpart
  rw [flatten_nonempty, Component.flatten_cuts, hpart] at hcomputes
  rcases Option.map_eq_some_iff.mp hcomputes with ⟨chunks, hchunks, -⟩
  exact hchunks ▸ rfl

/-- A body in chunks that the streaming fetch can deal with. -/
structure WellCut (gunzip : Bytes → Option Bytes) (resp : Response) : Prop where
  shows : isGzip resp.chunks.flatten = true →
    (∃ first rest, nonempty resp.cuts = first :: rest ∧ 2 ≤ first.length) ∨
      gunzip resp.chunks.flatten = some resp.chunks.flatten
  steady : Steady (resp.cuts.dropWhile List.isEmpty)

theorem streamed_eq_iff (h : maybeGunzip gunzip resp.chunks.flatten = some part) :
    Component.streamed gunzip resp = some part ↔
      (isGzip resp.chunks.flatten = true →
        (∃ first rest, nonempty resp.cuts = first :: rest ∧ 2 ≤ first.length) ∨
          gunzip resp.chunks.flatten = some resp.chunks.flatten) := by
  rw [Component.streamed]
  by_cases hfirst : (nonempty resp.cuts).head?.any isGzip = true
  · rw [if_pos hfirst]
    rw [maybeGunzip, if_pos (isGzip_of_first hfirst)] at h
    refine iff_of_true h fun _ => .inl ?_
    cases hcuts : nonempty resp.cuts with
    | nil =>
      rw [hcuts] at hfirst
      cases hfirst
    | cons first rest =>
      rw [hcuts] at hfirst
      exact ⟨first, rest, rfl, two_le_of_isGzip hfirst⟩
  · rw [if_neg hfirst]
    rw [maybeGunzip] at h
    by_cases hbody : isGzip resp.chunks.flatten = true
    · rw [if_pos hbody] at h
      rw [h]
      constructor
      · intro hpart _
        exact .inr hpart.symm
      · intro hshows
        rcases hshows hbody with ⟨first, rest, hcuts, hlong⟩ | hpart
        · exfalso
          apply hfirst
          rw [hcuts]
          rwa [flatten_of_nonempty hcuts, isGzip_append hlong] at hbody
        · exact hpart.symm
    · rw [if_neg hbody] at h
      exact iff_of_true h fun htrue => absurd htrue hbody

/-! ## Agreement -/

/-- The streaming fetch comes to what the buffered one does, whatever the order of the
steps: component by component and joined, it hands on the parts, the component at hand or
the parser can go on until then, and no run goes on forever. -/
structure Delivers (gz : DecompressionStream σ) (gunzip : Bytes → Option Bytes)
    (answers : List (Option Response)) (parts : List Bytes) : Prop where
  whole : ∀ events s, run (TracesStream.step gz) (.start answers) events = some s → s.Finished →
    (s.components.map fun c => c.given.flatten) = parts ∧
      fetchTraces gunzip answers = some s.yielded.flatten
  onward : ∀ events s, run (TracesStream.step gz) (.start answers) events = some s →
    ¬ s.Finished → ∃ event ∈ [Event.settle s.current, .read s.current, .next],
      (s.step gz event).isSome = true
  ends : Terminates (TracesStream.step gz) (.start answers)

structure SameAsBuffered (gz : DecompressionStream σ) (gunzip : Bytes → Option Bytes)
    (answers : List (Option Response)) : Prop where
  ordered : ∀ events s, run (TracesStream.step gz) (.start answers) events = some s → s.InOrder
  delivers : ∀ parts, fetchParts gunzip answers = some parts → Delivers gz gunzip answers parts

variable {answers : List (Option Response)} {parts : List Bytes}

theorem part_of_answer (h : fetchParts gunzip answers = some parts) {answer : Option Response}
    (hanswer : answers[j]? = some answer) :
    ∃ part, parts[j]? = some part ∧ fetchPart gunzip answer = some part := by
  have hparts := congrArg (fun parts => parts[j]?) (mapM_some h)
  rw [List.getElem?_map, List.getElem?_map, hanswer, Option.map_some] at hparts
  rcases Option.map_eq_some_iff.mp hparts.symm with ⟨part, hpart, hfetch⟩
  exact ⟨part, hpart, hfetch.symm⟩

section

variable (hgz : gz.Computes gunzip) (h : fetchParts gunzip answers = some parts)
include hgz h

theorem allWhole : TracesStream.AllWhole gz answers := by
  intro answer hanswer
  rcases List.mem_iff_getElem?.mp hanswer with ⟨j, hj⟩
  rcases part_of_answer h hj with ⟨part, -, hpart⟩
  rcases fetchPart_some hpart with ⟨resp, rfl, -⟩
  exact ⟨resp, rfl, whole_of_fetchPart hgz hpart⟩

theorem delivers_of_wellCut (hcut : ∀ resp, some resp ∈ answers → WellCut gunzip resp) :
    Delivers gz gunzip answers parts where
  whole := by
    intro events s hrun hfinished
    have hsound := TracesStream.sound_of_run (allWhole hgz h) hrun
    have hordered := TracesStream.ordered_of_run hrun
    have hparts : (s.components.map fun c => c.given.flatten) = parts := by
      have hlength : parts.length = s.components.length := by
        rw [hsound.length, ← List.length_map some, ← mapM_some h, List.length_map]
      apply List.ext_getElem? fun j => ?_
      rw [List.getElem?_map]
      cases hc : s.components[j]? with
      | none =>
        symm
        rw [Option.map_none, List.getElem?_eq_none_iff, hlength]
        exact List.getElem?_eq_none_iff.mp hc
      | some c =>
        rcases hsound.finished hordered hgz hfinished hc with ⟨resp, hanswer, hstreamed, -⟩
        rcases part_of_answer h hanswer with ⟨part, hpart, hfetch⟩
        rcases fetchPart_some hfetch with ⟨_, hresp, -, -, hbody⟩
        cases hresp
        have hshows := (hcut resp (List.mem_of_getElem? hanswer)).shows
        rw [(streamed_eq_iff hbody).mpr hshows] at hstreamed
        rw [hpart, Option.some.inj hstreamed]
        rfl
    refine ⟨hparts, ?_⟩
    rw [fetchTraces, h, hordered.yielded, List.flatten_flatten, List.map_map, ← hparts]
    rfl
  onward events s hrun hunfinished :=
    (TracesStream.sound_of_run (allWhole hgz h) hrun).onward hunfinished fun resp hresp =>
      (hcut resp hresp).steady
  ends := TracesStream.terminates (allWhole hgz h)

theorem wellCut_of_delivers (hdelivers : Delivers gz gunzip answers parts)
    (hresp : some resp ∈ answers) : WellCut gunzip resp := by
  rcases hdelivers.ends.completes TracesStream.Finished (fun events s hrun hunfinished => by
      rcases hdelivers.onward events s hrun hunfinished with ⟨event, -, hstep⟩
      exact ⟨event, Option.isSome_iff_exists.mp hstep⟩) with
    ⟨events, s, hrun, hfinished⟩
  have hsound := TracesStream.sound_of_run (allWhole hgz h) hrun
  rcases List.mem_iff_getElem?.mp hresp with ⟨j, hj⟩
  have hlt : j < s.components.length := by
    rw [hsound.length]
    exact (List.getElem?_eq_some_iff.mp hj).1
  have hc := List.getElem?_eq_getElem hlt
  rcases hsound.finished (TracesStream.ordered_of_run hrun) hgz hfinished hc with
    ⟨_, hanswer, hstreamed, hsteady⟩
  cases hj.symm.trans hanswer
  rcases part_of_answer h hj with ⟨part, hpart, hfetch⟩
  rcases fetchPart_some hfetch with ⟨_, hresp, -, -, hbody⟩
  cases hresp
  have hgiven := congrArg (fun parts => parts[j]?) (hdelivers.whole events s hrun hfinished).1
  rw [List.getElem?_map, hc, hpart, Option.map_some] at hgiven
  rw [Option.some.inj hgiven] at hstreamed
  exact ⟨(streamed_eq_iff hbody).mp hstreamed, hsteady⟩

end

/-- The streaming fetch is the buffered one exactly where all bodies are well cut, if all
arrive and unzip. -/
theorem sameAsBuffered_iff (hgz : gz.Computes gunzip) (answers : List (Option Response)) :
    SameAsBuffered gz gunzip answers ↔
      ((fetchTraces gunzip answers).isSome = true →
        ∀ resp, some resp ∈ answers → WellCut gunzip resp) := by
  constructor
  · intro hsame htraces resp hresp
    rw [fetchTraces, Option.isSome_map] at htraces
    rcases Option.isSome_iff_exists.mp htraces with ⟨parts, hparts⟩
    exact wellCut_of_delivers hgz hparts (hsame.delivers parts hparts) hresp
  · intro hcut
    refine ⟨fun events s hrun => (TracesStream.ordered_of_run hrun).inOrder, ?_⟩
    intro parts hparts
    apply delivers_of_wellCut hgz hparts
    apply hcut
    rw [fetchTraces, hparts]
    rfl

/-- A decompressor that unzips once the body has ended. -/
def unzipsAtEnd (gunzip : Bytes → Option Bytes) : DecompressionStream Bytes where
  init := []
  write body chunk := some (body ++ chunk, [])
  close body := (gunzip body).map fun out => [out]

theorem unzipsAtEnd_feed (body : Bytes) (chunks : List Bytes) :
    (unzipsAtEnd gunzip).feed body chunks = some (body ++ chunks.flatten, []) := by
  induction chunks generalizing body with
  | nil =>
    rw [List.flatten_nil, List.append_nil]
    rfl
  | cons chunk chunks ih =>
    rw [DecompressionStream.feed, unzipsAtEnd, Option.bind_some, ← unzipsAtEnd, ih,
      List.append_assoc, ← List.flatten_cons]
    rfl

theorem unzipsAtEnd_computes (gunzip : Bytes → Option Bytes) :
    (unzipsAtEnd gunzip).Computes gunzip := by
  intro chunks _
  rw [DecompressionStream.decompress, unzipsAtEnd_feed]
  show ((((gunzip chunks.flatten).map fun out => [out]).map fun out => [] ++ out).map
    List.flatten) = gunzip chunks.flatten
  cases gunzip chunks.flatten with
  | none => rfl
  | some out => simp

/-- Unzips a member with a plain header and one stored block. -/
def gunzipStored (member : Bytes) : Option Bytes :=
  if member.take 4 = [0x1f, 0x8b, 8, 0] ∧ (member.drop 10).take 1 = [1] then
    some ((member.drop 15).take (member.length - 23))
  else none

/-- A gzipped letter. -/
def storedLetter : Bytes :=
  [0x1f, 0x8b, 8, 0, 0, 0, 0, 0, 0, 0xff, 1, 1, 0, 0xfe, 0xff, 0x61, 0x43, 0xbe, 0xb7, 0xe8, 1, 0,
    0, 0]

theorem sameAsBuffered_letter :
    SameAsBuffered (unzipsAtEnd gunzipStored) gunzipStored
      [some ⟨true, true, [[], storedLetter.take 2, [], storedLetter.drop 2], true⟩] := by
  apply (sameAsBuffered_iff (unzipsAtEnd_computes gunzipStored) _).mpr
  intro _ resp hresp
  cases Option.some.inj (List.mem_singleton.mp hresp)
  refine ⟨fun _ => .inl ⟨[0x1f, 0x8b], [storedLetter.drop 2], rfl, le_rfl⟩, ?_⟩
  show Steady [storedLetter.take 2, [], storedLetter.drop 2]
  simp [Steady, storedLetter]

/-- A first chunk of one byte hides that the body is gzipped, and a second empty chunk
stalls the stream. -/
theorem oneByte_and_twoEmpty_differ :
    ¬ SameAsBuffered (unzipsAtEnd gunzipStored) gunzipStored
        [some ⟨true, true, [storedLetter.take 1, storedLetter.drop 1], true⟩] ∧
      ¬ SameAsBuffered (unzipsAtEnd gunzipStored) gunzipStored
        [some ⟨true, true, [[0x54], [], [], [0x52]], true⟩] := by
  constructor
  · intro hsame
    have hparts : fetchParts gunzipStored
        [some ⟨true, true, [storedLetter.take 1, storedLetter.drop 1], true⟩] = some [[0x61]] := by
      decide
    have hcut := wellCut_of_delivers (unzipsAtEnd_computes gunzipStored) hparts
      (hsame.delivers _ hparts) List.mem_cons_self
    rcases hcut.shows rfl with ⟨first, rest, hcuts, hlong⟩ | hquine
    · cases (hcuts : [storedLetter.take 1, storedLetter.drop 1] = first :: rest)
      exact absurd hlong (by decide)
    · exact absurd hquine (by decide)
  · intro hsame
    have hparts : fetchParts gunzipStored [some ⟨true, true, [[0x54], [], [], [0x52]], true⟩] =
        some [[0x54, 0x52]] := by
      decide
    have hcut := wellCut_of_delivers (unzipsAtEnd_computes gunzipStored) hparts
      (hsame.delivers _ hparts) List.mem_cons_self
    have hsteady : Steady [[0x54], [], [], [0x52]] := hcut.steady
    simp [Steady] at hsteady

end Dial9.Viewer.FetchStream
