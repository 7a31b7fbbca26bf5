/-
# What a samples part stands for

The parts of a file are in the store before its samples part is sent, and every
stored object was sent after a completed decode of its file. Nothing removes an
object, so a samples part always has its companions. The locks of the folds are
a run of the lock registry, so one samples key has one fold at work.
-/

import Dial9.Viewer.FoldCommit

namespace Dial9.Viewer.Aggregate

open Dial9.Lib Dial9.Keys.Viewer

variable {B T : Type} [DecidableEq B] [DecidableEq T] {outputs : B → Output}
  {blake3 : List UInt8 → List UInt8} {files : Set Str}

variable {job : Job B}

variable {a : LockRegistry.Action (FoldIdentity B) T} {bucket piece outputPrefix : Str}

namespace State

variable {s next : State B T} {t : T}

/-! ## The lock registry -/

theorem lockStep_locks (h : s.lockStep a = some next) :
    s.locks.step a = some next.locks ∧ next = { s with locks := next.locks } := by
  rcases Option.map_eq_some_iff.mp h with ⟨locks, hlocks, rfl⟩
  exact ⟨hlocks, rfl⟩

theorem step_locks {a : Action B T} (h : s.step outputs blake3 a = some next) :
    next.locks = s.locks ∨ ∃ b, s.locks.step b = some next.locks := by
  cases a with
  | start t ctx rawKey =>
    simp only [step, Option.bind_eq_bind, Option.bind_eq_some_iff] at h
    rcases h with ⟨samplesKey, -, locked, hlocked, ⟨⟩⟩
    exact .inr ⟨_, (lockStep_locks hlocked).1⟩
  | acquire _ | abandon _ | leave _ | prune _ | release _ => exact .inr ⟨_, (lockStep_locks h).1⟩
  | commit put =>
    simp only [step, Option.bind_eq_bind, Option.bind_eq_some_iff] at h
    rcases h with ⟨request, -, place, -, ⟨⟩⟩
    exact .inl rfl
  | check t fails =>
    rcases Option.bind_eq_some_iff.mp h with ⟨job, -, hnext⟩
    left
    split at hnext
    · split at hnext
      · cases hnext
        rfl
      · split at hnext <;> cases hnext <;> rfl
    · cases hnext
  | fetch t fails =>
    rcases Option.bind_eq_some_iff.mp h with ⟨job, -, hnext⟩
    split at hnext
    · cases hnext
      exact .inl rfl
    · cases hnext
  | decode t result =>
    rcases Option.bind_eq_some_iff.mp h with ⟨job, -, hnext⟩
    split at hnext <;> cases hnext <;> exact .inl rfl
  | issue _ _ | fail _ _ =>
    rcases Option.bind_eq_some_iff.mp h with ⟨job, -, hnext⟩
    split at hnext
    · rcases Option.ite_none_right_eq_some.mp hnext with ⟨-, ⟨⟩⟩
      exact .inl rfl
    · rcases Option.ite_none_right_eq_some.mp hnext with ⟨-, ⟨⟩⟩
      exact .inl rfl
    · cases hnext
  | acknowledge t part =>
    rcases Option.bind_eq_some_iff.mp h with ⟨job, -, hnext⟩
    left
    split at hnext
    · split at hnext
      · rcases Option.ite_none_right_eq_some.mp hnext with ⟨-, ⟨⟩⟩
        rfl
      · cases hnext
    · rcases Option.ite_none_right_eq_some.mp hnext with ⟨-, ⟨⟩⟩
      rfl
    · cases hnext
  | join t =>
    rcases Option.bind_eq_some_iff.mp h with ⟨job, -, hnext⟩
    left
    split at hnext
    · split at hnext
      · cases hnext
        rfl
      · rcases Option.ite_none_right_eq_some.mp hnext with ⟨-, ⟨⟩⟩
        rfl
    · cases hnext

/-! ## The parts of a file -/

variable (outputs blake3 files) in
/-- What has been established for a fold at its place. -/
def JobOk (s : State B T) (job : Job B) : Prop :=
  job.fullKey ∈ files ∧
  match job.work with
  | .writing encoded writes =>
    (job.fullKey, encoded) ∈ s.decoded ∧
      (∀ part put, writes part = .issued put →
        s.puts[put]? = some ⟨job.ctx, job.fullKey, part, encoded.buf part⟩) ∧
      ∀ part, writes part = .ok → s.Exists outputs blake3 job.ctx job.fullKey part
  | .marking encoded write =>
    (job.fullKey, encoded) ∈ s.decoded ∧
      (∀ part ∈ sideParts, s.Exists outputs blake3 job.ctx job.fullKey part) ∧
      ∀ put, write = .issued put →
        s.puts[put]? = some ⟨job.ctx, job.fullKey, .samples, encoded.buf .samples⟩
  | _ => True

variable (outputs blake3) in
/-- A request carries a part of a completed decode, and the samples part only
after its companions are in the store. -/
def PutOk (s : State B T) (put : Put B) : Prop :=
  (∃ encoded, (put.fullKey, encoded) ∈ s.decoded ∧ put.data = encoded.buf put.part) ∧
    (put.part = .samples →
      ∀ part ∈ sideParts, s.Exists outputs blake3 put.ctx put.fullKey part)

variable (outputs blake3 files) in
structure Sound (s : State B T) : Prop where
  sources : ∀ pair ∈ s.decoded, pair.1 ∈ files
  jobs : ∀ t job, s.jobs t = some job → s.JobOk outputs blake3 files job
  puts : ∀ put ∈ s.puts, s.PutOk outputs blake3 put
  objects : ∀ object ∈ s.objects, ∃ put ∈ s.puts,
    partPlace outputs blake3 put.ctx put.fullKey put.part = some object.1 ∧
      put.data = object.2
  committed : ∀ i ∈ s.committed, ∃ put, s.puts[i]? = some put ∧
    s.Exists outputs blake3 put.ctx put.fullKey put.part

/-- Nothing that was decoded, sent or stored goes away. -/
structure Grows (s next : State B T) : Prop where
  decoded : s.decoded ⊆ next.decoded
  puts : ∀ (i : Nat) (put : Put B), s.puts[i]? = some put → next.puts[i]? = some put
  stored : ∀ place, s.lookup place ≠ none → next.lookup place ≠ none

variable {part : Part}

section

omit [DecidableEq T]

theorem Exists.mono {ctx : AggContext B} {fullKey : Str} (hgrows : Grows s next)
    (h : s.Exists outputs blake3 ctx fullKey part) :
    next.Exists outputs blake3 ctx fullKey part := by
  rcases h with ⟨place, data, hplace, hdata⟩
  rcases Option.ne_none_iff_exists'.mp (hgrows.stored place (by simp [hdata])) with ⟨data', hdata'⟩
  exact ⟨place, data', hplace, hdata'⟩

theorem JobOk.mono (hgrows : Grows s next) (h : s.JobOk outputs blake3 files job) :
    next.JobOk outputs blake3 files job := by
  unfold JobOk at h ⊢
  refine ⟨h.1, ?_⟩
  have hprogress := h.2
  cases hwork : job.work with
  | writing encoded writes =>
    simp only [hwork] at hprogress ⊢
    refine ⟨hgrows.decoded hprogress.1, fun part put hissued => ?_, fun part hok => ?_⟩
    · exact hgrows.puts _ _ (hprogress.2.1 part put hissued)
    · exact (hprogress.2.2 part hok).mono hgrows
  | marking encoded write =>
    simp only [hwork] at hprogress ⊢
    refine ⟨hgrows.decoded hprogress.1, fun part hpart => (hprogress.2.1 part hpart).mono hgrows,
      fun put hissued => ?_⟩
    exact hgrows.puts _ _ (hprogress.2.2 put hissued)
  | _ => trivial

theorem PutOk.mono {put : Put B} (hgrows : Grows s next) (h : s.PutOk outputs blake3 put) :
    next.PutOk outputs blake3 put := by
  rcases h with ⟨⟨encoded, hdecoded, hdata⟩, hmark⟩
  refine ⟨⟨encoded, hgrows.decoded hdecoded, hdata⟩, fun hpart part hside => ?_⟩
  exact (hmark hpart part hside).mono hgrows

theorem Sound.of_quiet (h : s.Sound outputs blake3 files) (hdecoded : s.decoded ⊆ next.decoded)
    (hfiles : ∀ pair ∈ next.decoded, pair.1 ∈ files) (hputs : next.puts = s.puts)
    (hobjects : next.objects = s.objects)
    (hcommitted : next.committed = s.committed) (hjobs : ∀ u job, next.jobs u = some job →
      s.jobs u = some job ∨ next.JobOk outputs blake3 files job) :
    next.Sound outputs blake3 files := by
  have hlookup : next.lookup = s.lookup := by
    funext place
    rw [lookup, lookup, hobjects]
  have hgrows : Grows s next :=
    ⟨hdecoded, fun _ _ hput => hputs ▸ hput, fun _ hne => hlookup ▸ hne⟩
  constructor
  · exact hfiles
  · intro u job hjob
    rcases hjobs u job hjob with hold | hok
    · exact (h.jobs u job hold).mono hgrows
    · exact hok
  · rw [hputs]
    exact fun put hput => (h.puts put hput).mono hgrows
  · rw [hputs, hobjects]
    exact h.objects
  · rw [hputs, hcommitted]
    intro i hi
    rcases h.committed i hi with ⟨put, hput, hexists⟩
    exact ⟨put, hput, hexists.mono hgrows⟩

end

omit [DecidableEq B] [DecidableEq T] in
theorem working_jobs (h : s.working t = some job) : s.jobs t = some job := by
  unfold working at h
  split at h
  · exact h
  · cases h

theorem Sound.setWork {work : Work} (h : s.Sound outputs blake3 files)
    (hok : s.JobOk outputs blake3 files { job with work }) :
    (s.setWork t job work).Sound outputs blake3 files := by
  refine h.of_quiet (by exact List.Subset.refl _) h.sources (by rfl) (by rfl) (by rfl) ?_
  intro u found hfound
  by_cases hu : u = t
  · subst hu
    simp only [State.setWork, Function.update_self, Option.some.injEq] at hfound
    exact .inr (hfound ▸ hok)
  · simp only [State.setWork, Function.update_of_ne hu] at hfound
    exact .inl hfound

omit [DecidableEq T] in
theorem Sound.send {encoded : EncodedParts} (h : s.Sound outputs blake3 files)
    (hput : s.PutOk outputs blake3 ⟨job.ctx, job.fullKey, part, encoded.buf part⟩) :
    (s.send job encoded part).Sound outputs blake3 files ∧ Grows s (s.send job encoded part) := by
  have hgrows : Grows s (s.send job encoded part) := by
    refine ⟨List.Subset.refl _, fun i put hput => ?_, fun _ hne => hne⟩
    have hlt : i < s.puts.length := by
      by_contra hge
      rw [List.getElem?_eq_none (Nat.le_of_not_lt hge)] at hput
      cases hput
    show (s.puts ++ _)[i]? = some put
    rw [List.getElem?_append_left hlt, hput]
  refine ⟨⟨h.sources, fun u found hfound => (h.jobs u found hfound).mono hgrows, ?_, ?_, ?_⟩,
    hgrows⟩
  · intro put hmem
    rcases List.mem_append.mp hmem with hold | hnew
    · exact (h.puts put hold).mono hgrows
    · rw [List.mem_singleton.mp hnew]
      exact hput.mono hgrows
  · intro object hobject
    rcases h.objects object hobject with ⟨put, hmem, hplace⟩
    exact ⟨put, List.mem_append_left _ hmem, hplace⟩
  · intro i hi
    rcases h.committed i hi with ⟨put, hold, hexists⟩
    exact ⟨put, hgrows.puts i put hold, hexists.mono hgrows⟩

omit [DecidableEq T] in
theorem Sound.commit {i : Nat} {put : Put B} {place : Place B} (h : s.Sound outputs blake3 files)
    (hput : s.puts[i]? = some put)
    (hplace : partPlace outputs blake3 put.ctx put.fullKey put.part = some place) :
    Sound outputs blake3 files { s with
      objects := (place, put.data) :: s.objects
      committed := i :: s.committed } := by
  have hnew : lookup { s with objects := (place, put.data) :: s.objects } place =
      some put.data := by
    simp [lookup]
  have hgrows : Grows s { s with
      objects := (place, put.data) :: s.objects
      committed := i :: s.committed } := by
    refine ⟨List.Subset.refl _, fun _ _ hold => hold, fun other hne => ?_⟩
    by_cases heq : place = other
    · simp [lookup, heq]
    · simpa [lookup, heq] using hne
  constructor
  · exact h.sources
  · exact fun u job hjob => (h.jobs u job hjob).mono hgrows
  · exact fun put hmem => (h.puts put hmem).mono hgrows
  · intro object hobject
    rcases List.mem_cons.mp hobject with rfl | hold
    · exact ⟨put, List.mem_of_getElem? hput, hplace, rfl⟩
    · exact h.objects object hold
  · intro j hj
    rcases List.mem_cons.mp hj with rfl | hold
    · exact ⟨put, hput, place, put.data, hplace, hnew⟩
    · rcases h.committed j hold with ⟨other, hother, hexists⟩
      exact ⟨other, hother, hexists.mono hgrows⟩

theorem Sound.lockStep (h : s.Sound outputs blake3 files)
    (hstep : s.lockStep a = some next) : next.Sound outputs blake3 files := by
  rw [(lockStep_locks hstep).2]
  exact { h with }

variable {writes : Part → Write} {write : Write}

theorem issued_update {P : Part → Nat → Prop} (hnew : ∀ put, write = .issued put → P part put)
    (hold : ∀ other put, writes other = .issued put → P other put) (other : Part) (put : Nat)
    (h : Function.update writes part write other = .issued put) : P other put := by
  rcases Lib.updated_eq_iff.mp h with ⟨rfl, hwrite⟩ | ⟨-, hwrites⟩
  · exact hnew put hwrite
  · exact hold other put hwrites

theorem ok_update {P : Part → Prop} (hnew : write = .ok → P part)
    (hold : ∀ other, writes other = .ok → P other) (other : Part)
    (h : Function.update writes part write other = .ok) : P other := by
  rcases Lib.updated_eq_iff.mp h with ⟨rfl, hwrite⟩ | ⟨-, hwrites⟩
  · exact hnew hwrite
  · exact hold other hwrites

section

variable (h : s.Sound outputs blake3 files)
include h

theorem Sound.issue (hstep : s.step outputs blake3 (.issue t part) = some next) :
    next.Sound outputs blake3 files := by
  rcases Option.bind_eq_some_iff.mp hstep with ⟨job, hworking, hnext⟩
  rcases h.jobs t job (working_jobs hworking) with ⟨hfile, hok⟩
  split at hnext
  · next encoded writes hwork =>
      rcases Option.ite_none_right_eq_some.mp hnext with ⟨⟨hside, hpending⟩, ⟨⟩⟩
      simp only [hwork] at hok
      have hput : s.PutOk outputs blake3 ⟨job.ctx, job.fullKey, part, encoded.buf part⟩ :=
        ⟨⟨encoded, hok.1, rfl⟩, fun hpart => by
          rw [show part = .samples from hpart] at hside
          exact absurd hside (by decide)⟩
      rcases h.send hput with ⟨hsent, hgrows⟩
      apply hsent.setWork
      refine ⟨hfile, hgrows.decoded hok.1, ?_, ?_⟩
      · refine issued_update ?_ fun other put hissued =>
          hgrows.puts _ _ (hok.2.1 other put hissued)
        rintro put ⟨⟩
        exact List.getElem?_concat_length
      · exact ok_update nofun fun other hdone => (hok.2.2 other hdone).mono hgrows
  · next encoded write hwork =>
      rcases Option.ite_none_right_eq_some.mp hnext with ⟨⟨rfl, hpending⟩, ⟨⟩⟩
      simp only [hwork] at hok
      have hput : s.PutOk outputs blake3
          ⟨job.ctx, job.fullKey, .samples, encoded.buf .samples⟩ :=
        ⟨⟨encoded, hok.1, rfl⟩, fun _ => hok.2.1⟩
      rcases h.send hput with ⟨hsent, hgrows⟩
      apply hsent.setWork
      refine ⟨hfile, hgrows.decoded hok.1,
        fun other hside => (hok.2.1 other hside).mono hgrows, ?_⟩
      rintro put ⟨⟩
      exact List.getElem?_concat_length
  · cases hnext

theorem Sound.acknowledge (hstep : s.step outputs blake3 (.acknowledge t part) = some next) :
    next.Sound outputs blake3 files := by
  rcases Option.bind_eq_some_iff.mp hstep with ⟨job, hworking, hnext⟩
  rcases h.jobs t job (working_jobs hworking) with ⟨hfile, hok⟩
  split at hnext
  · next encoded writes hwork =>
      simp only [hwork] at hok
      split at hnext
      · next put hissued =>
          rcases Option.ite_none_right_eq_some.mp hnext with ⟨hcommitted, ⟨⟩⟩
          apply h.setWork
          refine ⟨hfile, hok.1, issued_update nofun hok.2.1, ok_update (fun _ => ?_) hok.2.2⟩
          -- The committed request is the one this fold sent for the part.
          rcases h.committed put hcommitted with ⟨sent, hsent, hexists⟩
          rw [hok.2.1 part put hissued] at hsent
          cases hsent
          exact hexists
      · cases hnext
  · rcases Option.ite_none_right_eq_some.mp hnext with ⟨-, ⟨⟩⟩
    exact h.setWork ⟨hfile, trivial⟩
  · cases hnext

theorem Sound.step {a : Action B T} (hfile : ∀ t ctx rawKey, a = .start t ctx rawKey →
      fullSourceKey ctx.sourceIsLocal ctx.sourceBucket rawKey ∈ files)
    (hstep : s.step outputs blake3 a = some next) : next.Sound outputs blake3 files := by
  cases a with
  | start t ctx rawKey =>
    simp only [State.step, Option.bind_eq_bind, Option.bind_eq_some_iff] at hstep
    rcases hstep with ⟨samplesKey, -, locked, hlocked, ⟨⟩⟩
    refine (h.lockStep hlocked).of_quiet (by exact List.Subset.refl _)
      (by exact (h.lockStep hlocked).sources) (by rfl) (by rfl)
      (by rfl) ?_
    intro u job hjob
    by_cases hu : u = t
    · subst hu
      simp only [Function.update_self, Option.some.injEq] at hjob
      right
      rw [← hjob]
      exact ⟨hfile u ctx rawKey rfl, trivial⟩
    · simp only [Function.update_of_ne hu] at hjob
      exact .inl hjob
  | acquire _ | abandon _ | leave _ | prune _ | release _ => exact h.lockStep hstep
  | commit put =>
    simp only [State.step, Option.bind_eq_bind, Option.bind_eq_some_iff] at hstep
    rcases hstep with ⟨request, hrequest, place, hplace, ⟨⟩⟩
    exact h.commit hrequest hplace
  | check t fails =>
    rcases Option.bind_eq_some_iff.mp hstep with ⟨job, hworking, hnext⟩
    have hfile := (h.jobs t job (working_jobs hworking)).1
    split at hnext
    · split at hnext
      · cases hnext
        exact h.setWork ⟨hfile, trivial⟩
      · split at hnext <;> cases hnext <;> exact h.setWork ⟨hfile, trivial⟩
    · cases hnext
  | fetch t fails =>
    rcases Option.bind_eq_some_iff.mp hstep with ⟨job, hworking, hnext⟩
    have hfile := (h.jobs t job (working_jobs hworking)).1
    split at hnext
    · cases hnext
      apply h.setWork
      exact ⟨hfile, by cases fails <;> trivial⟩
    · cases hnext
  | decode t result =>
    rcases Option.bind_eq_some_iff.mp hstep with ⟨job, hworking, hnext⟩
    have hsource := (h.jobs t job (working_jobs hworking)).1
    split at hnext
    · cases hnext
      exact h.setWork ⟨hsource, trivial⟩
    · next encoded hwork =>
        cases hnext
        have hsources : ∀ pair ∈ s.decoded ++ [(job.fullKey, encoded)], pair.1 ∈ files := by
          intro pair hpair
          rcases List.mem_append.mp hpair with hold | hnew
          · exact h.sources pair hold
          · rw [List.mem_singleton.mp hnew]
            exact hsource
        have hsound : Sound outputs blake3 files
            { s with decoded := s.decoded ++ [(job.fullKey, encoded)] } :=
          h.of_quiet (by exact List.subset_append_left _ _) (by exact hsources) (by rfl)
            (by rfl) (by rfl) (fun _ _ hjob => .inl hjob)
        apply hsound.setWork
        exact ⟨hsource, List.mem_append_right _ (List.mem_singleton.mpr rfl), by simp, by simp⟩
    · cases hnext
  | issue t part => exact h.issue hstep
  | acknowledge t part => exact h.acknowledge hstep
  | fail t part =>
    rcases Option.bind_eq_some_iff.mp hstep with ⟨job, hworking, hnext⟩
    rcases h.jobs t job (working_jobs hworking) with ⟨hfile, hok⟩
    split at hnext
    · next encoded writes hwork =>
        rcases Option.ite_none_right_eq_some.mp hnext with ⟨-, ⟨⟩⟩
        simp only [hwork] at hok
        apply h.setWork
        exact ⟨hfile, hok.1, issued_update nofun hok.2.1, ok_update nofun hok.2.2⟩
    · rcases Option.ite_none_right_eq_some.mp hnext with ⟨-, ⟨⟩⟩
      exact h.setWork ⟨hfile, trivial⟩
    · cases hnext
  | join t =>
    rcases Option.bind_eq_some_iff.mp hstep with ⟨job, hworking, hnext⟩
    rcases h.jobs t job (working_jobs hworking) with ⟨hfile, hok⟩
    split at hnext
    · next encoded writes hwork =>
        simp only [hwork] at hok
        split at hnext
        · next hall =>
            cases hnext
            apply h.setWork
            exact ⟨hfile, hok.1, fun part hside => hok.2.2 part (hall part hside), by simp⟩
        · rcases Option.ite_none_right_eq_some.mp hnext with ⟨-, ⟨⟩⟩
          exact h.setWork ⟨hfile, trivial⟩
    · cases hnext

end

end State

/-! ## Places -/

/-- A component that a path keeps as it is. -/
def Plain (piece : Str) : Prop := piece ≠ [] ∧ piece ≠ ".".toList

instance (piece : Str) : Decidable (Plain piece) := inferInstanceAs (Decidable (_ ∧ _))

/-- The components of the root as they are stored. -/
def StorageKind.rootName (kind : StorageKind) (outputPrefix sourceBucket : Str) : List Str :=
  match kind with
  | .object => rootParts outputPrefix sourceBucket
  | .localDir => (rootParts outputPrefix sourceBucket).filter (Plain ·)

variable {parts : List Str}

section

variable {ctx ctx' : AggContext B} {fullKey fullKey' : Str} {part part' : Part} {place : Place B}

theorem plain_of_length (h : 2 ≤ piece.length) : Plain piece := by
  constructor
  · rintro rfl
    simp at h
  · rintro rfl
    simp at h

theorem plain_partParts (h : partParts blake3 fullKey part = some parts) :
    ∀ piece ∈ parts, Plain piece := by
  have hscoped : ∀ directory : Str, 2 ≤ directory.length →
      scopedParts blake3 directory fullKey = some parts → ∀ piece ∈ parts, Plain piece := by
    intro directory hdirectory hparts piece hpiece
    apply plain_of_length
    rcases Option.map_eq_some_iff.mp hparts with ⟨⟨date, service, host⟩, -, rfl⟩
    simp only [List.mem_cons, List.not_mem_nil, or_false] at hpiece
    rcases hpiece with rfl | rfl | rfl | rfl | rfl
    · exact hdirectory
    · simp
    · simp
    · simp
    · simp
  have hflat : ∀ piece ∈ ["dict".toList, "stacks".toList, "polls".toList,
      partLeafOf blake3 fullKey ++ ".parquet".toList], Plain piece := by
    intro piece hpiece
    apply plain_of_length
    simp only [List.mem_cons, List.not_mem_nil, or_false] at hpiece
    rcases hpiece with rfl | rfl | rfl | rfl
    · decide
    · decide
    · decide
    · simp
  cases part with
  | samples | spans => exact hscoped _ (by decide) h
  | dict | polls =>
    cases h
    exact fun piece hpiece => hflat piece (by simp at hpiece ⊢; tauto)

theorem length_rootName (kind : StorageKind) (outputPrefix bucket bucket' : Str) :
    (kind.rootName outputPrefix bucket).length = (kind.rootName outputPrefix bucket').length := by
  cases kind with
  | object => exact length_rootParts _ _ _
  | localDir =>
    have hlast : ∀ bucket, ["v11".toList, "bucket=".toList ++ bucketSegment bucket].filter
        (Plain ·) = ["v11".toList, "bucket=".toList ++ bucketSegment bucket] := by
      intro bucket
      rw [List.filter_eq_self]
      intro piece hpiece
      simp only [List.mem_cons, List.not_mem_nil, or_false] at hpiece
      rcases hpiece with rfl | rfl
      · decide
      · exact decide_eq_true (plain_of_length (by simp))
    simp only [StorageKind.rootName, rootParts, List.filter_append, hlast]
    simp

section

omit [DecidableEq B]

section

variable (h : State.partPlace outputs blake3 ctx fullKey part = some place)
include h

theorem partPlace_eq :
    ∃ parts, partParts blake3 fullKey part = some parts ∧
      place = ⟨ctx.output, (outputs ctx.output).kind.bucketOf ctx.outputBucket,
        (outputs ctx.output).kind.rootName (outputs ctx.output).outputPrefix
          (parseSourceBucket fullKey) ++ parts⟩ := by
  rcases Option.bind_eq_some_iff.mp h with ⟨key, hkey, hplace⟩
  rcases partKey_splitOn hkey with ⟨parts, hparts, hsplit⟩
  rcases Option.map_eq_some_iff.mp hplace with ⟨name, hname, rfl⟩
  refine ⟨parts, hparts, ?_⟩
  congr 1
  cases hkind : (outputs ctx.output).kind with
  | object =>
    rw [hkind] at hname
    rw [← Option.some.inj hname, hsplit]
    rfl
  | localDir =>
    rw [hkind] at hname
    simp only [StorageKind.locate] at hname
    split at hname
    · cases hname
    · have hplain : parts.filter (Plain ·) = parts :=
        List.filter_eq_self.mpr fun piece hpiece =>
          decide_eq_true (plain_partParts hparts piece hpiece)
      rw [← Option.some.inj hname, hsplit]
      show ((_ ++ parts).filter (Plain ·)) = _
      rw [List.filter_append, hplain]
      rfl

/-- The place of a part tells the store, the part and the leaf. -/
theorem partPlace_inj (h' : State.partPlace outputs blake3 ctx' fullKey' part' = some place) :
    ctx.output = ctx'.output ∧
      (outputs ctx.output).kind.bucketOf ctx.outputBucket =
        (outputs ctx'.output).kind.bucketOf ctx'.outputBucket ∧
      part = part' ∧ partLeafOf blake3 fullKey = partLeafOf blake3 fullKey' := by
  rcases partPlace_eq h with ⟨parts, hparts, hplace⟩
  rcases partPlace_eq h' with ⟨parts', hparts', hplace'⟩
  rw [hplace] at hplace'
  simp only [Place.mk.injEq] at hplace'
  rcases hplace' with ⟨houtput, hbucket, hname⟩
  rw [houtput] at hname
  have hsame := (List.append_inj hname (length_rootName _ _ _ _)).2
  subst hsame
  exact ⟨houtput, hbucket, partParts_inj hparts hparts'⟩

end

theorem partPlace_congr (houtput : ctx.output = ctx'.output)
    (hbucket : (outputs ctx.output).kind.bucketOf ctx.outputBucket =
      (outputs ctx'.output).kind.bucketOf ctx'.outputBucket) :
    State.partPlace outputs blake3 ctx fullKey part =
      State.partPlace outputs blake3 ctx' fullKey part := by
  unfold State.partPlace State.placeOf State.keyOf
  rw [hbucket, houtput]

end

/-! ## The listing -/

/-- A local listing comes to everything below the output prefix. -/
def Output.Listable (output : Output) : Prop :=
  output.kind = .localDir →
    ∀ piece ∈ (trimEnd output.outputPrefix).splitOn '/', piece ≠ [] ∧ isSkippedDir piece = false

instance (output : Output) : Decidable output.Listable := inferInstanceAs (Decidable (_ → _))

theorem plain_of_listed (h : piece ≠ [] ∧ isSkippedDir piece = false) : Plain piece := by
  refine ⟨h.1, ?_⟩
  rintro rfl
  exact absurd h.2 (by decide)

theorem rootName_of_listable {output : Output} (h : output.Listable) (bucket : Str) :
    output.kind.rootName output.outputPrefix bucket = rootParts output.outputPrefix bucket := by
  cases hkind : output.kind with
  | object => rfl
  | localDir =>
    apply List.filter_eq_self.mpr
    intro piece hpiece
    apply decide_eq_true
    rcases List.mem_append.mp hpiece with hfront | hback
    · exact plain_of_listed (h hkind piece hfront)
    · simp only [List.mem_cons, List.not_mem_nil, or_false] at hback
      rcases hback with rfl | rfl
      · decide
      · exact plain_of_length (by simp)

theorem slash_notMem_rootParts (outputPrefix bucket : Str) :
    ∀ piece ∈ rootParts outputPrefix bucket, '/' ∉ piece := by
  intro piece hpiece
  rcases List.mem_append.mp hpiece with hfront | hback
  · exact Str.notMem_of_mem_splitOn hfront
  · simp only [List.mem_cons, List.not_mem_nil, or_false] at hback
    rcases hback with rfl | rfl
    · decide
    · simp [slash_notMem_bucketSegment]

variable {s : State B T}

omit [DecidableEq T] in
theorem mem_listObjectsAll {output : B} {bucket keyPrefix text : Str} :
    text ∈ listObjectsAll outputs s output bucket keyPrefix ↔
      ∃ object ∈ s.objects, object.1.backend = output ∧
        object.1.bucket = (outputs output).kind.bucketOf bucket ∧
        (outputs output).kind.visits object.1.name = true ∧
        keyPrefix <+: ['/'].intercalate object.1.name ∧
        ['/'].intercalate object.1.name = text := by
  simp only [listObjectsAll, List.mem_filterMap]
  constructor
  · rintro ⟨object, hmem, htext⟩
    rcases Option.ite_none_right_eq_some.mp htext with ⟨⟨hbackend, hbucket, hvisits, hstart⟩, heq⟩
    exact ⟨object, hmem, hbackend, hbucket, hvisits, hstart, Option.some.inj heq⟩
  · rintro ⟨object, hmem, hbackend, hbucket, hvisits, hstart, heq⟩
    exact ⟨object, hmem, by rw [if_pos ⟨hbackend, hbucket, hvisits, hstart⟩, heq]⟩

theorem name_splitOn (h : partParts blake3 fullKey part = some parts) :
    (['/'].intercalate (rootParts outputPrefix bucket ++ parts)).splitOn '/' =
      rootParts outputPrefix bucket ++ parts := by
  apply List.splitOn_intercalate
  · intro piece hpiece
    rcases List.mem_append.mp hpiece with hroot | hpart
    · exact slash_notMem_rootParts _ _ piece hroot
    · exact slash_notMem_partParts h piece hpart
  · simp [rootParts]

theorem leafOfKey_name (h : partParts blake3 fullKey part = some parts) :
    leafOfKey (['/'].intercalate (rootParts outputPrefix bucket ++ parts)) =
      some (partLeafOf blake3 fullKey) := by
  rcases partParts_ends h with ⟨middle, rfl⟩
  unfold leafOfKey
  have hlast : rootParts outputPrefix bucket ++ part.directory :: (middle ++
      [partLeafOf blake3 fullKey ++ ".parquet".toList]) =
      (rootParts outputPrefix bucket ++ part.directory :: middle) ++
        [partLeafOf blake3 fullKey ++ ".parquet".toList] := by
    rw [List.append_assoc, List.cons_append]
  rw [name_splitOn h, hlast, List.getLast?_concat, Option.bind_some,
    List.dropSuffix?_eq_some_iff.mpr ⟨_, rfl, by decide⟩]

theorem visits_samples {output : Output} (houtput : output.Listable)
    (h : partParts blake3 fullKey .samples = some parts) :
    output.kind.visits (rootParts output.outputPrefix bucket ++ parts) = true := by
  cases hkind : output.kind with
  | object => rfl
  | localDir =>
    rcases Option.map_eq_some_iff.mp h with ⟨⟨date, service, host⟩, -, rfl⟩
    have hdirs : (rootParts output.outputPrefix bucket ++ ["samples".toList,
        "service=".toList ++ hiveEscape service, "date=".toList ++ hiveEscape date,
        "host=".toList ++ hiveEscape host,
          partLeafOf blake3 fullKey ++ ".parquet".toList]).dropLast =
        rootParts output.outputPrefix bucket ++ ["samples".toList,
          "service=".toList ++ hiveEscape service, "date=".toList ++ hiveEscape date,
          "host=".toList ++ hiveEscape host] :=
      List.dropLast_append_of_ne_nil (by simp)
    show List.all _ _ = true
    rw [hdirs, List.all_append, rootParts, List.all_append, Bool.and_eq_true, Bool.and_eq_true,
      List.all_eq_true]
    refine ⟨⟨fun piece hpiece => ?_, ?_⟩, ?_⟩
    · rw [(houtput hkind piece hpiece).2]
      rfl
    · simp [isSkippedDir]
      exact ⟨rfl, rfl⟩
    · simp [isSkippedDir]
      exact ⟨rfl, rfl, rfl, rfl⟩

section

omit [DecidableEq T]

theorem lookup_ne_none_iff : s.lookup place ≠ none ↔ ∃ object ∈ s.objects, object.1 = place := by
  simp [State.lookup]

section

variable (hsound : s.Sound outputs blake3 files) (hinj : Set.InjOn (partLeafOf blake3) files)
include hsound hinj

/-- A leaf is listed under a bucket and a service exactly when the samples part
of its file is stored there and the file is of that bucket and service. -/
theorem mem_listFoldedLeaves (houtput : (outputs ctx.output).Listable)
    {sourceBucket : Str} (hbucket : '/' ∉ sourceBucket) (service : Option Str)
    (hfile : fullKey ∈ files) :
    partLeafOf blake3 fullKey ∈ listFoldedLeaves (some (listObjectsAll outputs s ctx.output
        ctx.outputBucket
        (foldedSetPrefix (outputs ctx.output).outputPrefix sourceBucket service))) ↔
      s.Exists outputs blake3 ctx fullKey .samples ∧ parseSourceBucket fullKey = sourceBucket ∧
        ∀ name, service = some name → serviceOf fullKey = some name := by
  rcases foldedSetPrefix_splitOn (outputs ctx.output).outputPrefix sourceBucket service with
    ⟨text, htext, hsplit⟩
  rw [listFoldedLeaves, Option.getD_some, List.mem_filterMap]
  constructor
  · rintro ⟨key, hkey, hleaf⟩
    rcases mem_listObjectsAll.mp hkey with
      ⟨object, hmem, hbackend, hplaceBucket, -, hstart, rfl⟩
    rcases hsound.objects object hmem with ⟨put, hput, hplace, -⟩
    rcases partPlace_eq hplace with ⟨parts, hparts, hobject⟩
    rw [hobject] at hbackend hplaceBucket hstart hleaf
    simp only at hbackend hplaceBucket hstart hleaf
    rw [hbackend, rootName_of_listable houtput] at hstart hleaf
    rw [leafOfKey_name hparts, Option.some.injEq] at hleaf
    rw [htext, Str.startsWith_sep_iff, hsplit, name_splitOn hparts,
      foldedSetParts_iff hbucket hparts] at hstart
    rcases hsound.puts put hput with ⟨⟨encoded, hdecoded, -⟩, -⟩
    have hsame : put.fullKey = fullKey := hinj (hsound.sources _ hdecoded) hfile hleaf
    rcases hstart with ⟨hpart, hsource, hservice⟩
    rw [hsame] at hsource hservice
    refine ⟨?_, hsource, hservice⟩
    rw [hpart, hsame, partPlace_congr hbackend hplaceBucket] at hplace
    have hlookup : s.lookup object.1 ≠ none := lookup_ne_none_iff.mpr ⟨object, hmem, rfl⟩
    rcases Option.ne_none_iff_exists'.mp hlookup with ⟨data, hdata⟩
    exact ⟨object.1, data, hplace, hdata⟩
  · rintro ⟨⟨place, data, hplace, hdata⟩, hsource, hservice⟩
    have hlookup : s.lookup place ≠ none := by simp [hdata]
    rcases lookup_ne_none_iff.mp hlookup with ⟨object, hmem, rfl⟩
    rcases partPlace_eq hplace with ⟨parts, hparts, hobject⟩
    refine ⟨_, mem_listObjectsAll.mpr ⟨object, hmem, ?_, ?_, ?_, ?_, rfl⟩, ?_⟩
    · rw [hobject]
    · rw [hobject]
    · rw [hobject, rootName_of_listable houtput]
      exact visits_samples houtput hparts
    · rw [hobject, rootName_of_listable houtput, htext, Str.startsWith_sep_iff, hsplit,
        name_splitOn hparts, foldedSetParts_iff hbucket hparts]
      exact ⟨rfl, hsource, hservice⟩
    · rw [hobject, rootName_of_listable houtput]
      exact leafOfKey_name hparts

theorem State.Sound.origin {data : List UInt8} (hfile : fullKey ∈ files)
    (hplace : State.partPlace outputs blake3 ctx fullKey part = some place)
    (hdata : s.lookup place = some data) :
    ∃ put ∈ s.puts, put.part = part ∧ put.fullKey = fullKey ∧
      (∀ other, State.partPlace outputs blake3 put.ctx fullKey other =
        State.partPlace outputs blake3 ctx fullKey other) ∧ put.data = data := by
  rcases Option.map_eq_some_iff.mp hdata with ⟨object, hfind, rfl⟩
  have hobject : object.1 = place := by simpa using List.find?_some hfind
  rcases hsound.objects object (List.mem_of_find?_eq_some hfind) with
    ⟨put, hput, hsent, hsame⟩
  rw [hobject] at hsent
  rcases partPlace_inj hsent hplace with ⟨houtput, hbucket, hpart, hleaf⟩
  rcases hsound.puts put hput with ⟨⟨encoded, hdecoded, -⟩, -⟩
  exact ⟨put, hput, hpart, hinj (hsound.sources _ hdecoded) hfile hleaf,
    fun other => partPlace_congr houtput hbucket, hsame⟩

end

end

end

end Dial9.Viewer.Aggregate
