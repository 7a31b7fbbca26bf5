/-
# The metadata is never stale

Between two detaches the list of attached runtimes only grows at its end, and the sets
of their workers only grow. So two readings with one fingerprint are the same reading,
and what was emitted for the first of them still holds.
-/

import Dial9.Tokio.RuntimeMetadata

namespace Dial9.Tokio.Metadata

open Lib (Str)

/-! ## Readings that grow -/

/-- The same contexts in order, each with no fewer workers, and maybe more contexts behind. -/
inductive Grown : (old new : List (RuntimeContext × Finset Nat)) → Prop where
  | nil (new : List (RuntimeContext × Finset Nat)) : Grown [] new
  | cons (ctx : RuntimeContext) {ids ids' : Finset Nat}
      {old new : List (RuntimeContext × Finset Nat)}
      (hids : ids ⊆ ids') (hrest : Grown old new) : Grown ((ctx, ids) :: old) ((ctx, ids') :: new)

variable {old new more : List (RuntimeContext × Finset Nat)}

theorem Grown.append (h : Grown old new) : Grown old (new ++ more) := by
  induction h with
  | nil new => exact .nil _
  | cons ctx hids _ ih => exact .cons ctx hids ih

theorem Grown.trans (h : Grown old new) (h' : Grown new more) : Grown old more := by
  induction h generalizing more with
  | nil new => exact .nil more
  | cons ctx hids _ ih =>
    cases h' with
    | cons _ hids' hrest' => exact .cons ctx (hids.trans hids') (ih hrest')

theorem grown_append (front : List (RuntimeContext × Finset Nat)) (h : Grown old new) :
    Grown (front ++ old) (front ++ new) := by
  induction front with
  | nil => exact h
  | cons entry front ih => exact .cons entry.1 subset_rfl ih

theorem grown_map {ids ids' : RuntimeContext → Finset Nat} (h : ∀ ctx, ids ctx ⊆ ids' ctx)
    (contexts : List RuntimeContext) :
    Grown (contexts.map fun ctx => (ctx, ids ctx)) (contexts.map fun ctx => (ctx, ids' ctx)) := by
  induction contexts with
  | nil => exact .nil []
  | cons ctx contexts ih => exact .cons ctx (h ctx) ih

theorem grown_current {ids : Nat → Finset Nat} {done : List (RuntimeContext × Finset Nat)}
    (h : ∀ entry ∈ done, entry.2 ⊆ ids entry.1.id) :
    Grown done ((done.map Prod.fst).map fun ctx => (ctx, ids ctx.id)) := by
  induction done with
  | nil => exact .nil []
  | cons entry done ih =>
    obtain ⟨hentry, hdone⟩ := List.forall_mem_cons.mp h
    exact .cons entry.1 hentry (ih hdone)

/-- The count of the contexts and of their workers. -/
def size (contexts : List (RuntimeContext × Finset Nat)) : Nat :=
  contexts.length + (contexts.map fun entry => entry.2.card).sum

theorem size_cons (entry : RuntimeContext × Finset Nat) :
    size (entry :: new) = size new + entry.2.card + 1 := by
  simp only [size, List.length_cons, List.map_cons, List.sum_cons]
  omega

theorem Grown.size_le (h : Grown old new) : size old ≤ size new := by
  induction h with
  | nil new => exact Nat.zero_le _
  | cons ctx hids _ ih =>
    have hcard := Finset.card_le_card hids
    rw [size_cons, size_cons]
    dsimp only
    omega

theorem Grown.eq_of_size_eq (h : Grown old new) (hsize : size old = size new) : old = new := by
  induction h with
  | nil new =>
    cases new with
    | nil => rfl
    | cons entry new =>
      rw [size_cons] at hsize
      cases hsize
  | @cons ctx ids ids' old new hids hrest ih =>
    have hcard := Finset.card_le_card hids
    have hle := hrest.size_le
    rw [size_cons, size_cons] at hsize
    dsimp only at hsize
    have heq : ids = ids' := Finset.eq_of_subset_of_card_le hids (by omega)
    rw [heq, ih (by omega)]

/-! ## The map of the entries -/

variable {out : List Entry} {key : Str} {name : Str} {build : Build}

theorem merged_append_self (value : Str) : merged (out ++ [(key, value)]) key = some value := by
  simp [merged]

theorem merged_append_of_ne {entries : List Entry} (h : ∀ entry ∈ entries, entry.1 ≠ key) :
    merged (out ++ entries) key = merged out key := by
  have hnone : entries.filter (fun entry => entry.1 = key) = [] := by
    simpa [List.filter_eq_nil_iff] using h
  rw [merged, List.filter_append, hnone, List.append_nil, merged]

theorem runtimeKey_injective : Function.Injective runtimeKey :=
  fun _ _ h => List.append_cancel_left h

theorem fixedMetadata_ne {entry : Entry} (h : entry ∈ fixedMetadata build) :
    entry.1 ≠ runtimeKey name := by
  have hkey : runtimeKey name = 'r' :: ("untime.".toList ++ name) := rfl
  rw [hkey]
  simp only [fixedMetadata, List.mem_cons, List.not_mem_nil, or_false] at h
  rcases h with rfl | rfl | rfl | rfl <;> exact fun heq => absurd (List.cons.inj heq).1 (by decide)

/-- The entry of a context says its workers, under a key that only contexts of its name have. -/
theorem metadataEntry_eq_some {ctx : RuntimeContext} {ids : Finset Nat} {entry : Entry} :
    metadataEntry ctx ids = some entry ↔
      ∃ name, ctx.runtimeName = some name ∧ ids ≠ ∅ ∧ entry = (runtimeKey name, csv ids) := by
  rw [metadataEntry]
  cases ctx.runtimeName with
  | none => simp
  | some name =>
    by_cases hids : ids = ∅
    · simp [hids]
    · simp [hids, eq_comm]

/-- The parts between the commas are the ids in order, in decimal. -/
def Lists (value : Str) (ids : Finset Nat) : Prop :=
  (value.splitOn ',').map Str.digits? = (ids.sort (· ≤ ·)).map some

theorem lists_csv {ids : Finset Nat} (hids : ids ≠ ∅) : Lists (csv ids) ids := by
  have hcomma : ∀ part ∈ (ids.sort (· ≤ ·)).map Str.display, ',' ∉ part := by
    intro part hpart hmem
    obtain ⟨id, -, rfl⟩ := List.mem_map.mp hpart
    cases Str.isDigit_of_digits? (Str.digits?_display id) hmem
  have hsome : (ids.sort (· ≤ ·)).map Str.display ≠ [] := by
    rw [Ne, List.map_eq_nil_iff, ← List.length_eq_zero_iff, Finset.length_sort]
    exact mt Finset.card_eq_zero.mp hids
  rw [Lists, csv, List.splitOn_intercalate _ hcomma hsome, List.map_map]
  exact List.map_congr_left fun id _ => Str.digits?_display id

/-! ## Along a run -/

namespace Source

/-- The reading that a call makes, if no worker registers before it is done. -/
def view (s : Source) : List (RuntimeContext × Finset Nat) :=
  match s.call with
  | .counting done todo => done ++ todo.map fun ctx => (ctx, s.workerIds ctx.id)
  | .idle | .emitting _ => s.contexts.map fun ctx => (ctx, s.workerIds ctx.id)

theorem view_idle {s : Source} (h : s.call = .idle) :
    s.view = s.contexts.map fun ctx => (ctx, s.workerIds ctx.id) := by
  rw [view, h]

variable {todo : List RuntimeContext}

theorem view_counting {s : Source} {done : List (RuntimeContext × Finset Nat)}
    (h : s.call = .counting done todo) :
    s.view = done ++ todo.map fun ctx => (ctx, s.workerIds ctx.id) := by
  rw [view, h]

theorem view_emitting {s : Source} (h : s.call = .emitting todo) :
    s.view = s.contexts.map fun ctx => (ctx, s.workerIds ctx.id) := by
  rw [view, h]

/-- The contexts whose entries a call still has to emit. -/
def pending (s : Source) : List RuntimeContext :=
  match s.call with
  | .emitting todo => todo
  | .idle | .counting _ _ => []

/-- Readings with one fingerprint, one after the other, are the same. -/
def Consistent (readings : List Reading) : Prop :=
  readings.IsChain fun later earlier => later.fingerprint = earlier.fingerprint → later = earlier

/-- What holds between the last reading, the state, and what was emitted. -/
structure Fresh (s : Source) : Prop where
  last : s.lastFingerprint = s.latest.fingerprint
  detached : s.latest.detached ≤ s.detachedRuntimes
  grown : s.latest.detached = s.detachedRuntimes → Grown s.latest.contexts s.view
  kept : ∀ entry ∈ s.latest.contexts, entry.2 ⊆ s.workerIds entry.1.id
  counted : ∀ done todo, s.call = .counting done todo →
    s.contexts = done.map Prod.fst ++ todo ∧ ∀ entry ∈ done, entry.2 ⊆ s.workerIds entry.1.id
  read : ∀ ctx ∈ s.pending, ctx ∈ s.latest.contexts.map Prod.fst
  emitted : ∀ ctx ids name, (ctx, ids) ∈ s.latest.contexts → ctx.runtimeName = some name →
    (∀ other ∈ s.latest.contexts.map Prod.fst, other.runtimeName = some name → other = ctx) →
    ids ≠ ∅ → s.workerIds ctx.id = ids → ctx ∉ s.pending →
    merged s.out (runtimeKey name) = some (csv ids)
  consistent : Consistent s.readings

variable {s next : Source}

theorem fresh_new : Fresh Source.new where
  last := rfl
  detached := le_rfl
  grown _ := .nil _
  kept _ h := absurd h List.not_mem_nil
  counted _ _ h := nomatch h
  read _ h := absurd h List.not_mem_nil
  emitted _ _ _ h := absurd h List.not_mem_nil
  consistent := .nil

theorem Fresh.attach (h : Fresh s) (hidle : s.call = .idle) (ctx : RuntimeContext) :
    Fresh (s.attach ctx) where
  last := h.last
  detached := h.detached
  grown hdetached := by
    have hview : (s.attach ctx).view = s.view ++ [(ctx, s.workerIds ctx.id)] := by
      rw [view_idle hidle, view_idle (show (s.attach ctx).call = .idle from hidle)]
      exact List.map_append
    rw [hview]
    exact (h.grown hdetached).append
  kept := h.kept
  counted done todo hcall := by
    have hcall' : s.call = .counting done todo := hcall
    rw [hidle] at hcall'
    cases hcall'
  read := h.read
  emitted := h.emitted
  consistent := h.consistent

theorem Fresh.detach (h : Fresh s) (hidle : s.call = .idle) (runtimeId : Nat) :
    Fresh (s.detach runtimeId) := by
  rw [Source.detach]
  split
  · exact h
  · have hmore : s.latest.detached < s.detachedRuntimes + 1 := Nat.lt_succ_of_le h.detached
    exact
      { last := h.last
        detached := hmore.le
        grown := fun hdetached => absurd hdetached hmore.ne
        kept := h.kept
        counted := fun done todo hcall => by
          have hcall' : s.call = .counting done todo := hcall
          rw [hidle] at hcall'
          cases hcall'
        read := h.read
        emitted := h.emitted
        consistent := h.consistent }

theorem subset_register (s : Source) (ctx workerId id : Nat) :
    s.workerIds id ⊆ (s.register ctx workerId).workerIds id := by
  rw [register]
  by_cases hid : id = ctx
  · subst hid
    simp [Finset.subset_insert]
  · simp [Function.update_of_ne hid]

theorem Fresh.register (h : Fresh s) (ctx workerId : Nat) : Fresh (s.register ctx workerId) where
  last := h.last
  detached := h.detached
  grown hdetached := by
    refine (h.grown hdetached).trans ?_
    have hsub : ∀ c : RuntimeContext, s.workerIds c.id ⊆ (s.register ctx workerId).workerIds c.id :=
      fun c => s.subset_register ctx workerId c.id
    have hcall : (s.register ctx workerId).call = s.call := rfl
    rw [view, view, hcall]
    split
    · exact grown_append _ (grown_map hsub _)
    · exact grown_map hsub s.contexts
    · exact grown_map hsub s.contexts
  kept entry hentry := (h.kept entry hentry).trans (s.subset_register ctx workerId _)
  counted done todo hcall := by
    obtain ⟨hcontexts, hdone⟩ := h.counted done todo hcall
    exact ⟨hcontexts,
      fun entry hentry => (hdone entry hentry).trans (s.subset_register ctx workerId _)⟩
  read := h.read
  emitted c ids name hmem hname hunique hids hworkers hpending := by
    -- A set that has what was counted now had it before, too.
    have hbefore : s.workerIds c.id = ids := by
      apply Finset.Subset.antisymm
      · rw [← hworkers]
        exact s.subset_register ctx workerId c.id
      · exact h.kept (c, ids) hmem
    exact h.emitted c ids name hmem hname hunique hids hbefore hpending
  consistent := h.consistent

theorem Fresh.flush (h : Fresh s) (hidle : s.call = .idle) : Fresh (s.flush build) where
  last := h.last
  detached := h.detached
  grown hdetached := by
    have hgrown := h.grown hdetached
    rw [view_idle hidle] at hgrown
    exact hgrown
  kept := h.kept
  counted done todo hcall := by
    cases hcall
    exact ⟨rfl, by simp⟩
  read ctx hctx := absurd hctx List.not_mem_nil
  emitted ctx ids name hmem hname hunique hids hworkers _ := by
    have hpending : ctx ∉ s.pending := by
      rw [pending, hidle]
      exact List.not_mem_nil
    have hmerged := h.emitted ctx ids name hmem hname hunique hids hworkers hpending
    show merged (if s.fixedMetadataEmitted then s.out else s.out ++ fixedMetadata build) _ = _
    split
    · exact hmerged
    · rw [merged_append_of_ne fun _ => fixedMetadata_ne]
      exact hmerged
  consistent := h.consistent

variable {done : List (RuntimeContext × Finset Nat)} {todo : List RuntimeContext}
  {ctx : RuntimeContext}

section

variable (h : Fresh s)
include h

theorem Fresh.count (hcall : s.call = .counting done (ctx :: todo)) :
    Fresh { s with call := .counting (done ++ [(ctx, s.workerIds ctx.id)]) todo } where
  last := h.last
  detached := h.detached
  grown hdetached := by
    have hgrown := h.grown hdetached
    rw [view_counting hcall] at hgrown
    show Grown s.latest.contexts (done ++ [(ctx, s.workerIds ctx.id)] ++ _)
    rw [List.append_assoc]
    exact hgrown
  kept := h.kept
  counted done' todo' hcall' := by
    cases hcall'
    obtain ⟨hcontexts, hdone⟩ := h.counted _ _ hcall
    constructor
    · rw [List.map_append, List.append_assoc]
      exact hcontexts
    · intro entry hentry
      rcases List.mem_append.mp hentry with hentry | hentry
      · exact hdone entry hentry
      · rw [List.mem_singleton.mp hentry]
  read _ hctx := absurd hctx List.not_mem_nil
  emitted c ids name hmem hname hunique hids hworkers _ := by
    have hpending : c ∉ s.pending := by
      rw [pending, hcall]
      exact List.not_mem_nil
    exact h.emitted c ids name hmem hname hunique hids hworkers hpending
  consistent := h.consistent

section

variable (hcall : s.call = .counting done [])
include hcall

/-- Equal fingerprints: no runtime was detached since the last reading, what it read has grown at
most, and is of the same size. -/
theorem Fresh.reading_eq
    (hfingerprint : Reading.fingerprint ⟨done, s.detachedRuntimes⟩ = s.latest.fingerprint) :
    (⟨done, s.detachedRuntimes⟩ : Reading) = s.latest := by
  obtain ⟨hsize, hdetached⟩ := Prod.mk.inj hfingerprint
  have hgrown := h.grown hdetached.symm
  rw [view_counting hcall, List.map_nil, List.append_nil] at hgrown
  have hcontexts : s.latest.contexts = done := hgrown.eq_of_size_eq hsize.symm
  exact Reading.ext hcontexts.symm hdetached

theorem Fresh.consistent_cons : Consistent (⟨done, s.detachedRuntimes⟩ :: s.readings) := by
  rw [Consistent]
  cases hreadings : s.readings with
  | nil => exact .singleton _
  | cons r readings =>
    have hlatest : s.latest = r := by rw [latest, hreadings, List.headD_cons]
    refine .cons_cons ?_ (hreadings ▸ h.consistent)
    intro hfingerprint
    rw [← hlatest] at hfingerprint ⊢
    exact h.reading_eq hcall hfingerprint

theorem Fresh.compare : Fresh (s.compare done) := by
  obtain ⟨hcontexts, hdone⟩ := h.counted _ _ hcall
  rw [List.append_nil] at hcontexts
  have hgrown : Grown done (s.contexts.map fun ctx => (ctx, s.workerIds ctx.id)) := by
    rw [hcontexts]
    exact grown_current hdone
  rw [Source.compare]
  split
  case isTrue heq =>
      -- The reading is the last one again, so what was emitted for that one counts for it.
      have hsame := congrArg Reading.contexts (h.reading_eq hcall (heq.trans h.last))
      have hpending : s.pending = [] := by rw [pending, hcall]
      exact
        { last := heq.symm
          detached := le_rfl
          grown := fun _ => hgrown
          kept := hdone
          counted := fun _ _ hnot => nomatch hnot
          read := fun _ hctx => absurd hctx List.not_mem_nil
          emitted := fun ctx ids name hmem hname hunique hids hworkers _ =>
            h.emitted ctx ids name (hsame ▸ hmem) hname (hsame ▸ hunique) hids hworkers
              (by rw [hpending]; exact List.not_mem_nil)
          consistent := h.consistent_cons hcall }
  case isFalse hne =>
      exact
        { last := rfl
          detached := le_rfl
          grown := fun _ => hgrown
          kept := hdone
          counted := fun _ _ hnot => nomatch hnot
          read := fun ctx hctx => hcontexts ▸ hctx
          emitted := fun ctx ids name hmem _ _ _ _ hpending =>
            absurd (List.mem_map_of_mem hmem) (hcontexts ▸ hpending)
          consistent := h.consistent_cons hcall }

end

theorem Fresh.emit (hcall : s.call = .emitting (ctx :: todo)) :
    Fresh { s with
      out := s.out ++ (metadataEntry ctx (s.workerIds ctx.id)).toList
      call := .emitting todo } where
  last := h.last
  detached := h.detached
  grown hdetached := by
    have hgrown := h.grown hdetached
    rw [view_emitting hcall] at hgrown
    exact hgrown
  kept := h.kept
  counted _ _ hnot := nomatch hnot
  read c hc := h.read c (by rw [pending, hcall]; exact List.mem_cons_of_mem ctx hc)
  emitted c ids name hmem hname hunique hids hworkers hpending := by
    by_cases hc : c = ctx
    · subst hc
      have hentry : metadataEntry c (s.workerIds c.id) = some (runtimeKey name, csv ids) :=
        metadataEntry_eq_some.mpr ⟨name, hname, hworkers ▸ hids, by rw [← hworkers]⟩
      show merged (s.out ++ _) _ = _
      rw [hentry]
      exact merged_append_self _
    · have hbefore : c ∉ s.pending := by
        rw [pending, hcall, List.mem_cons, not_or]
        exact ⟨hc, hpending⟩
      have hctx : ctx ∈ s.latest.contexts.map Prod.fst :=
        h.read ctx (by rw [pending, hcall]; exact List.mem_cons_self)
      show merged (s.out ++ _) _ = _
      rw [merged_append_of_ne]
      · exact h.emitted c ids name hmem hname hunique hids hworkers hbefore
      · intro entry hentry hkey
        obtain ⟨name', hname', -, rfl⟩ := metadataEntry_eq_some.mp (Option.mem_toList.mp hentry)
        obtain rfl := runtimeKey_injective hkey
        exact hc (hunique ctx hctx hname').symm
  consistent := h.consistent

theorem Fresh.finish (hcall : s.call = .emitting []) : Fresh { s with call := .idle } where
  last := h.last
  detached := h.detached
  grown hdetached := by
    have hgrown := h.grown hdetached
    rw [view_emitting hcall] at hgrown
    exact hgrown
  kept := h.kept
  counted _ _ hnot := nomatch hnot
  read _ hctx := absurd hctx List.not_mem_nil
  emitted c ids name hmem hname hunique hids hworkers _ := by
    have hpending : c ∉ s.pending := by
      rw [pending, hcall]
      exact List.not_mem_nil
    exact h.emitted c ids name hmem hname hunique hids hworkers hpending
  consistent := h.consistent

theorem Fresh.proceed (hnext : s.proceed = some next) : Fresh next := by
  rw [Source.proceed] at hnext
  split at hnext
  case h_1 => cases hnext
  case h_2 done hcall =>
      cases hnext
      exact h.compare hcall
  case h_3 done ctx todo hcall =>
      cases hnext
      exact h.count hcall
  case h_4 hcall =>
      cases hnext
      exact h.finish hcall
  case h_5 ctx todo hcall =>
      cases hnext
      exact h.emit hcall

theorem Fresh.step {event : Event} (hnext : step build s event = some next) : Fresh next := by
  cases event with
  | attach ctx =>
    obtain ⟨hidle, heq⟩ := Option.ite_none_right_eq_some.mp hnext
    cases heq
    exact h.attach hidle ctx
  | detach runtimeId =>
    obtain ⟨hidle, heq⟩ := Option.ite_none_right_eq_some.mp hnext
    cases heq
    exact h.detach hidle runtimeId
  | register ctx workerId =>
    cases hnext
    exact h.register ctx workerId
  | flush =>
    obtain ⟨hidle, heq⟩ := Option.ite_none_right_eq_some.mp hnext
    cases heq
    exact h.flush hidle
  | proceed => exact h.proceed hnext

end

theorem Reached.fresh (h : Reached build s) : Fresh s := by
  obtain ⟨events, hrun⟩ := h
  exact Lib.run_invariant (P := fun _ _ => True) (fun _ _ _ hs _ hnext => hs.step hnext) fresh_new
    (Lib.along_true _ _) hrun

/-! ## A call that no registration interrupts -/

/-- What the call has read so far is what the contexts have. -/
def Exact (s : Source) : Prop :=
  match s.call with
  | .counting done todo =>
    done ++ todo.map (fun ctx => (ctx, s.workerIds ctx.id)) =
      s.contexts.map fun ctx => (ctx, s.workerIds ctx.id)
  | .idle | .emitting _ =>
    s.latest.contexts = s.contexts.map fun ctx => (ctx, s.workerIds ctx.id)

theorem exact_flush : Exact (s.flush build) := rfl

theorem Exact.proceed (h : Exact s) (hnext : s.proceed = some next) : Exact next := by
  rw [Source.proceed] at hnext
  rw [Exact] at h
  split at hnext
  case h_1 => cases hnext
  case h_2 done hcall =>
      cases hnext
      rw [hcall] at h
      have hdone : done = s.contexts.map fun ctx => (ctx, s.workerIds ctx.id) := by
        simpa using h
      rw [Source.compare]
      split
      · exact hdone
      · exact hdone
  case h_3 done ctx todo hcall =>
      cases hnext
      rw [hcall] at h
      show done ++ [(ctx, s.workerIds ctx.id)] ++ _ = _
      rw [List.append_assoc]
      exact h
  case h_4 hcall =>
      cases hnext
      rw [hcall] at h
      exact h
  case h_5 ctx todo hcall =>
      cases hnext
      rw [hcall] at h
      exact h

theorem exact_of_run {regions : Nat} (h : Exact s)
    (hrun : Lib.run (step build) s (List.replicate regions .proceed) = some next) : Exact next := by
  induction regions generalizing s with
  | zero =>
    cases hrun
    exact h
  | succ regions ih =>
    obtain ⟨mid, hmid, hrest⟩ := Lib.run_cons hrun
    exact ih (h.proceed hmid) hrest

/-- In every run, readings with one fingerprint one after the other are the same; and after a call
that no registration interrupts, the emitted entries list exactly the workers of each attached
runtime that has a name of its own and a worker. -/
theorem Reached.metadata_fresh (h : Reached build s) :
    Consistent s.readings ∧
      ∀ regions next,
        Lib.run (step build) s (.flush :: List.replicate regions .proceed) = some next →
        next.call = .idle → ∀ ctx ∈ next.contexts, ∀ name, ctx.runtimeName = some name →
          next.workerIds ctx.id ≠ ∅ →
          (∀ other ∈ next.contexts, other.runtimeName = some name → other = ctx) →
          ∃ value, merged next.out (runtimeKey name) = some value ∧
            Lists value (next.workerIds ctx.id) := by
  refine ⟨h.fresh.consistent, ?_⟩
  intro regions next hrun hidle ctx hctx name hname hworkers hunique
  obtain ⟨events, hevents⟩ := h
  have hnext : Fresh next :=
    (show Reached build next from ⟨events ++ _, (Lib.run_append hevents).trans hrun⟩).fresh
  obtain ⟨begun, hbegun, hrest⟩ := Lib.run_cons hrun
  obtain ⟨-, heq⟩ := Option.ite_none_right_eq_some.mp hbegun
  cases heq
  have hexact := exact_of_run exact_flush hrest
  rw [Exact, hidle] at hexact
  have hnames : next.latest.contexts.map Prod.fst = next.contexts := by
    rw [hexact, List.map_map]
    exact List.map_id _
  refine ⟨_, hnext.emitted ctx _ name ?_ hname (hnames ▸ hunique) hworkers rfl ?_,
    lists_csv hworkers⟩
  · rw [hexact]
    exact List.mem_map_of_mem hctx
  · rw [pending, hidle]
    exact List.not_mem_nil

/-- A worker registers between the count and the entry of the first call, another one after it, and
the second call tells of both. -/
theorem metadata_fresh_sample :
    ∃ next, Lib.run (step ⟨false, 10⟩) Source.new
        ([.attach ⟨1, 7, some ['a']⟩, .flush, .proceed, .register 1 3, .proceed, .proceed, .proceed,
          .register 1 12] ++ .flush :: List.replicate 4 .proceed) = some next ∧
      ∃ value, merged next.out (runtimeKey ['a']) = some value ∧ Lists value {3, 12} := by
  have hreached : Reached ⟨false, 10⟩ _ :=
    ⟨[.attach ⟨1, 7, some ['a']⟩, .flush, .proceed, .register 1 3, .proceed, .proceed, .proceed,
      .register 1 12], rfl⟩
  refine ⟨_, rfl, ?_⟩
  obtain ⟨value, hvalue, hlists⟩ := hreached.metadata_fresh.2 4 _ rfl rfl ⟨1, 7, some ['a']⟩
    List.mem_cons_self ['a'] rfl (by decide) (fun other hother _ => List.mem_singleton.mp hother)
  exact ⟨value, hvalue, (by decide : ({12, 3} : Finset Nat) = {3, 12}) ▸ hlists⟩

end Source

end Dial9.Tokio.Metadata
