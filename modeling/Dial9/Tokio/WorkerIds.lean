/-
# Global worker ids

All runtimes on one recorder take their workers' ids from one counter: a block
for each runtime where tokio tells a worker's index, and else one id for each
thread and runtime. The counter only grows, and ids 254 and 255 have a meaning of
their own on the wire, so ids mean what they should as long as they stay below
254. A thread keeps the id it last resolved as, also when it is a worker no more.
-/

import Dial9.Lib.Run
import Dial9.Viewer.Polls

namespace Dial9.Tokio

open Dial9.Lib Dial9.Viewer.Polls

/-- `WorkerId::UNKNOWN`, of threads that are no workers. -/
def unknown : Nat := 255

/-- `WorkerId::BLOCKING`, of tokio's blocking pool. -/
def blocking : Nat := 254

/-- Whom an id is for: a worker of a runtime by its index, or a thread in a runtime. -/
inductive Slot where
  | worker (index : Nat)
  | thread (thread : Nat)
  deriving DecidableEq

/-- A slot of a runtime, by the identity of its context. -/
structure Owner where
  context : Nat
  slot : Slot
  deriving DecidableEq

structure RuntimeContext where
  /-- Tokio's metric of the runtime. -/
  numWorkers : Nat
  workerIdBase : Option Nat
  workerIds : List Nat
  detached : Bool
  deriving DecidableEq

structure ThreadLocals where
  globalWorkerId : Option Nat
  claimedWorkerIds : List (Nat × Nat)
  deriving DecidableEq

def ThreadLocals.empty : ThreadLocals := ⟨none, []⟩

/-- A recorded wake, and the worker that the waking thread is, if it is one. -/
structure Wake where
  waker : Option Owner
  targetWorker : Nat
  deriving DecidableEq

structure Recorder where
  workerIdCounter : Nat
  nextId : Nat
  contexts : Nat → Option RuntimeContext
  threads : Nat → ThreadLocals
  /-- What each thread last resolved as, for the record. -/
  resolved : Nat → Option Owner
  /-- Every id that was assigned, for the record. -/
  assigned : List (Owner × Nat)
  wakes : List Wake

inductive Event where
  | attach (numWorkers : Nat)
  | detach (context thread : Nat)
  /-- A hook of the runtime on the thread, with tokio's `worker_index`. -/
  | resolve (thread context localIndex : Nat)
  /-- A wake on the thread, which is that worker at the time, or none. -/
  | wake (thread : Nat) (waker : Option Owner)

namespace Recorder

def empty : Recorder := ⟨0, 1, fun _ => none, fun _ => .empty, fun _ => none, [], []⟩

def setContext (s : Recorder) (context : Nat) (ctx : RuntimeContext) : Recorder :=
  { s with contexts := Function.update s.contexts context (some ctx) }

def setThread (s : Recorder) (thread : Nat) (locals : ThreadLocals) : Recorder :=
  { s with threads := Function.update s.threads thread locals }

/-- `reserve_worker_ids`: the first id of the block, and the counter past it. -/
def reserveWorkerIds (s : Recorder) (count : Nat) : Nat × Recorder :=
  (s.workerIdCounter, { s with workerIdCounter := (s.workerIdCounter + count) % 2 ^ 64 })

/-- `claim_worker_id`: the runtime's block is reserved once. -/
def claimWorkerId (s : Recorder) (context : Nat) (ctx : RuntimeContext) (localIndex : Nat) :
    Nat × Recorder :=
  match ctx.workerIdBase with
  | some base => ((base + localIndex) % 2 ^ 64, s)
  | none =>
    let (base, s) := s.reserveWorkerIds ctx.numWorkers
    ((base + localIndex) % 2 ^ 64, s.setContext context { ctx with workerIdBase := some base })

/-- The id that the thread holds in the runtime. -/
def claimed (s : Recorder) (thread context : Nat) : Option Nat :=
  ((s.threads thread).claimedWorkerIds.find? fun entry => entry.1 = context).map Prod.snd

/-- `claim_thread_worker_id`. -/
def claimThreadWorkerId (s : Recorder) (thread context : Nat) : Nat × Recorder :=
  match s.claimed thread context with
  | some id => (id, s)
  | none =>
    let (id, s) := s.reserveWorkerIds 1
    let locals := s.threads thread
    (id, s.setThread thread
      { locals with claimedWorkerIds := locals.claimedWorkerIds ++ [(context, id)] })

/-- `register_worker_if_needed`. -/
def registerWorker (s : Recorder) (context id : Nat) : Recorder :=
  match s.contexts context with
  | none => s
  | some ctx => s.setContext context { ctx with workerIds := ctx.workerIds.insert id }

/-- The thread's id is set, and the assignment noted. -/
def assign (s : Recorder) (thread : Nat) (owner : Owner) (id : Nat) : Recorder :=
  let locals := s.threads thread
  { s.setThread thread { locals with globalWorkerId := some id } with
    resolved := Function.update s.resolved thread (some owner)
    assigned := s.assigned ++ [(owner, id)] }

/-- `resolve_worker`, in a build with `tokio_unstable` or without it. -/
def resolveWorker (unstable : Bool) (s : Recorder) (thread context : Nat) (ctx : RuntimeContext)
    (localIndex : Nat) : Recorder :=
  if unstable then
    let (id, s) := s.claimWorkerId context ctx localIndex
    (s.assign thread ⟨context, .worker localIndex⟩ id).registerWorker context id
  else
    let (id, s) := s.claimThreadWorkerId thread context
    (s.assign thread ⟨context, .thread thread⟩ id).registerWorker context id

/-- `current_worker_id`. -/
def currentWorkerId (s : Recorder) (thread : Nat) : Nat :=
  (s.threads thread).globalWorkerId.getD unknown

/-- `record_wake_event`: the wire has a byte for the worker. -/
def recordWakeEvent (s : Recorder) (thread : Nat) (waker : Option Owner) : Recorder :=
  let wakingWorkerId := s.currentWorkerId thread
  { s with
    wakes := s.wakes ++ [⟨waker, if wakingWorkerId ≤ 254 then wakingWorkerId else 255⟩] }

/-- `release_claimed_worker_id`. -/
def releaseClaimed (s : Recorder) (thread context : Nat) : Recorder :=
  let locals := s.threads thread
  s.setThread thread
    { locals with
      claimedWorkerIds := locals.claimedWorkerIds.filter fun entry => entry.1 ≠ context }

/-- A hook may have checked that the runtime is attached before a detach, so
resolving does not ask again. With `tokio_unstable`, tokio's index is below its count. -/
def step (unstable : Bool) (s : Recorder) : Event → Option Recorder
  | .attach numWorkers =>
    some { s.setContext s.nextId ⟨numWorkers, none, [], false⟩ with nextId := s.nextId + 1 }
  | .detach context thread =>
    (s.contexts context).map fun ctx =>
      (s.setContext context { ctx with detached := true }).releaseClaimed thread context
  | .resolve thread context localIndex =>
    (s.contexts context).bind fun ctx =>
      if unstable = false ∨ localIndex < ctx.numWorkers then
        some (s.resolveWorker unstable thread context ctx localIndex)
      else none
  | .wake thread waker => some (s.recordWakeEvent thread waker)

/-! ## What ids should mean -/

structure Meaningful (s : Recorder) : Prop where
  /-- Two owners never have one id. -/
  distinct : ∀ a ∈ s.assigned, ∀ b ∈ s.assigned, a.2 = b.2 → a.1 = b.1
  notSentinel : ∀ a ∈ s.assigned, a.2 ≠ unknown ∧ a.2 ≠ blocking
  /-- The ingest attributes a sample of a thread bound to the id to it. -/
  attributed : ∀ a ∈ s.assigned, ∀ (timeline : PollTimeline) (tid timestamp : Nat),
    timeline.workerForTidAt tid timestamp = some a.2 →
      timeline.attributeSampleWorker tid timestamp = some a.2
  /-- A wake has the id of the waking worker, and 255 exactly if there is none. -/
  wakes : ∀ wake ∈ s.wakes,
    (∀ owner, wake.waker = some owner → (owner, wake.targetWorker) ∈ s.assigned) ∧
      (wake.targetWorker = 255 ↔ wake.waker = none)

/-- The counter does not wrap, the id that a resolve assigns is below the
sentinels, and a thread wakes as the worker it last resolved as, or as none if
it never did. -/
def Fits (unstable : Bool) (s : Recorder) : Event → Prop
  | .resolve thread context localIndex =>
    if unstable then
      ∀ ctx, s.contexts context = some ctx →
        (ctx.workerIdBase = none → s.workerIdCounter + ctx.numWorkers < 2 ^ 64) ∧
          ctx.workerIdBase.getD s.workerIdCounter + localIndex < blocking
    else s.claimed thread context = none → s.workerIdCounter < blocking
  | .wake thread waker => waker = s.resolved thread
  | _ => True

/-! ## Blocks -/

/-- The runtime's reserved block starts at the base. -/
def Reserved (s : Recorder) (context base : Nat) (ctx : RuntimeContext) : Prop :=
  s.contexts context = some ctx ∧ ctx.workerIdBase = some base

/-- Blocks are apart, and the ids in a block are those of its runtime's workers. -/
structure Blocks (s : Recorder) : Prop where
  counter : s.workerIdCounter < 2 ^ 64
  below : ∀ a ∈ s.assigned, a.2 < s.workerIdCounter ∧ a.2 < blocking
  distinct : ∀ a ∈ s.assigned, ∀ b ∈ s.assigned, a.2 = b.2 → a.1 = b.1
  block : ∀ context base ctx, s.Reserved context base ctx →
    base + ctx.numWorkers ≤ s.workerIdCounter
  inside : ∀ context base ctx, s.Reserved context base ctx → ∀ a ∈ s.assigned, base ≤ a.2 →
    a.2 < base + ctx.numWorkers → a.1 = ⟨context, .worker (a.2 - base)⟩
  apart : ∀ context base ctx context' base' ctx', s.Reserved context base ctx →
    s.Reserved context' base' ctx' → context ≠ context' →
      base + ctx.numWorkers ≤ base' ∨ base' + ctx'.numWorkers ≤ base
  known : ∀ context ctx, s.contexts context = some ctx → context < s.nextId

/-- What threads hold was assigned to them. -/
structure Held (s : Recorder) : Prop where
  resolved : ∀ thread owner, s.resolved thread = some owner →
    ∃ id, (s.threads thread).globalWorkerId = some id ∧ (owner, id) ∈ s.assigned
  unresolved : ∀ thread, s.resolved thread = none → (s.threads thread).globalWorkerId = none
  claims : ∀ thread, ∀ entry ∈ (s.threads thread).claimedWorkerIds,
    (⟨entry.1, .thread thread⟩, entry.2) ∈ s.assigned

structure Sound (s : Recorder) : Prop where
  blocks : s.Blocks
  held : s.Held
  wakes : ∀ wake ∈ s.wakes,
    (∀ owner, wake.waker = some owner → (owner, wake.targetWorker) ∈ s.assigned) ∧
      (wake.targetWorker = 255 ↔ wake.waker = none)

variable {s next : Recorder} {context thread id localIndex : Nat} {ctx ctx' : RuntimeContext}
  {owner : Owner}

theorem sound_empty : Sound empty where
  blocks :=
    { counter := by decide
      below := nofun
      distinct := nofun
      block := by
        rintro context base ctx ⟨⟨⟩, -⟩
      inside := by
        rintro context base ctx ⟨⟨⟩, -⟩
      apart := by
        rintro context base ctx context' base' ctx' ⟨⟨⟩, -⟩
      known := nofun }
  held := ⟨nofun, fun _ _ => rfl, nofun⟩
  wakes := nofun

theorem Sound.meaningful (h : Sound s) : Meaningful s where
  distinct := h.blocks.distinct
  notSentinel := by
    intro a ha
    have hlt : a.2 < 254 := (h.blocks.below a ha).2
    constructor
    · exact Nat.ne_of_lt (Nat.lt_succ_of_lt hlt)
    · exact Nat.ne_of_lt hlt
  attributed := by
    intro a ha timeline tid timestamp hworker
    rw [PollTimeline.attributeSampleWorker, hworker]
    exact Option.filter_some_pos (decide_eq_true (h.blocks.below a ha).2)
  wakes := h.wakes

theorem Blocks.setContext (h : Blocks s) (hctx : s.contexts context = some ctx)
    (hworkers : ctx'.numWorkers = ctx.numWorkers) (hbase : ctx'.workerIdBase = ctx.workerIdBase) :
    Blocks (s.setContext context ctx') := by
  have hreserved : ∀ other base ctx₁, (s.setContext context ctx').Reserved other base ctx₁ →
      ∃ ctx₀, s.Reserved other base ctx₀ ∧ ctx₁.numWorkers = ctx₀.numWorkers := by
    rintro other base ctx₁ ⟨hother, hbase₁⟩
    by_cases heq : other = context
    · subst heq
      obtain rfl : ctx' = ctx₁ := by simpa [Recorder.setContext] using hother
      exact ⟨ctx, ⟨hctx, hbase ▸ hbase₁⟩, hworkers⟩
    · have hsame : s.contexts other = some ctx₁ := by
        simpa [Recorder.setContext, heq] using hother
      exact ⟨ctx₁, ⟨hsame, hbase₁⟩, rfl⟩
  refine ⟨h.counter, h.below, h.distinct, ?_, ?_, ?_, ?_⟩
  · intro other base ctx₁ hother
    rcases hreserved other base ctx₁ hother with ⟨ctx₀, hold, heq⟩
    exact heq ▸ h.block other base ctx₀ hold
  · intro other base ctx₁ hother
    rcases hreserved other base ctx₁ hother with ⟨ctx₀, hold, heq⟩
    exact heq ▸ h.inside other base ctx₀ hold
  · intro other base ctx₁ other' base' ctx₁' hother hother'
    rcases hreserved other base ctx₁ hother with ⟨ctx₀, hold, heq⟩
    rcases hreserved other' base' ctx₁' hother' with ⟨ctx₀', hold', heq'⟩
    exact heq ▸ heq' ▸ h.apart other base ctx₀ other' base' ctx₀' hold hold'
  · intro other ctx₁ hother
    by_cases heq : other = context
    · subst heq
      exact h.known other ctx hctx
    · apply h.known other ctx₁
      simpa [Recorder.setContext, heq] using hother

theorem Blocks.attach (h : Blocks s) (numWorkers : Nat) :
    Blocks { s.setContext s.nextId ⟨numWorkers, none, [], false⟩ with nextId := s.nextId + 1 } := by
  have hreserved : ∀ other base ctx₁,
      (s.setContext s.nextId ⟨numWorkers, none, [], false⟩).Reserved other base ctx₁ →
        s.Reserved other base ctx₁ := by
    rintro other base ctx₁ ⟨hother, hbase⟩
    by_cases heq : other = s.nextId
    · subst heq
      obtain rfl : (⟨numWorkers, none, [], false⟩ : RuntimeContext) = ctx₁ := by
        simpa [Recorder.setContext] using hother
      cases hbase
    · exact ⟨by simpa [Recorder.setContext, heq] using hother, hbase⟩
  refine ⟨h.counter, h.below, h.distinct, ?_, ?_, ?_, ?_⟩
  · intro other base ctx₁ hother
    exact h.block other base ctx₁ (hreserved other base ctx₁ hother)
  · intro other base ctx₁ hother
    exact h.inside other base ctx₁ (hreserved other base ctx₁ hother)
  · intro other base ctx₁ other' base' ctx₁' hother hother'
    exact h.apart other base ctx₁ other' base' ctx₁' (hreserved _ _ _ hother)
      (hreserved _ _ _ hother')
  · intro other ctx₁ hother
    by_cases heq : other = s.nextId
    · exact heq ▸ Nat.lt_succ_self _
    · have hold : s.contexts other = some ctx₁ := by
        simpa [Recorder.setContext, heq] using hother
      exact Nat.lt_succ_of_lt (h.known other ctx₁ hold)

theorem Blocks.reserve (h : Blocks s) (hctx : s.contexts context = some ctx)
    (hfits : s.workerIdCounter + ctx.numWorkers < 2 ^ 64) :
    Blocks ((s.reserveWorkerIds ctx.numWorkers).2.setContext context
      { ctx with workerIdBase := some s.workerIdCounter }) := by
  let reserved := (s.reserveWorkerIds ctx.numWorkers).2.setContext context
    { ctx with workerIdBase := some s.workerIdCounter }
  have hcounter : reserved.workerIdCounter = s.workerIdCounter + ctx.numWorkers :=
    Nat.mod_eq_of_lt hfits
  -- A reserved block is an old one, or the new one of this context.
  have hreserved : ∀ other base ctx₁, reserved.Reserved other base ctx₁ →
      (other ≠ context ∧ s.Reserved other base ctx₁) ∨
        (other = context ∧ base = s.workerIdCounter ∧ ctx₁.numWorkers = ctx.numWorkers) := by
    rintro other base ctx₁ ⟨hother, hbase₁⟩
    by_cases heq : other = context
    · subst heq
      obtain rfl : { ctx with workerIdBase := some s.workerIdCounter } = ctx₁ := by
        simpa [reserved, Recorder.setContext] using hother
      exact .inr ⟨rfl, (Option.some.inj hbase₁).symm, rfl⟩
    · refine .inl ⟨heq, ?_, hbase₁⟩
      simpa [reserved, Recorder.setContext, Recorder.reserveWorkerIds, heq] using hother
  refine ⟨Nat.mod_lt _ (by decide), ?_, h.distinct, ?_, ?_, ?_, ?_⟩
  · intro a ha
    rcases h.below a ha with ⟨hlt, hblocking⟩
    exact ⟨hcounter ▸ Nat.lt_add_right _ hlt, hblocking⟩
  · intro other base ctx₁ hother
    show base + ctx₁.numWorkers ≤ reserved.workerIdCounter
    rw [hcounter]
    rcases hreserved other base ctx₁ hother with ⟨_, hold⟩ | ⟨rfl, rfl, heq⟩
    · exact Nat.le_add_right_of_le (h.block other base ctx₁ hold)
    · exact (congrArg _ heq).le
  · intro other base ctx₁ hother a ha hle hlt
    rcases hreserved other base ctx₁ hother with ⟨_, hold⟩ | ⟨rfl, rfl, heq⟩
    · exact h.inside other base ctx₁ hold a ha hle hlt
    · exact absurd (h.below a ha).1 (Nat.not_lt.mpr hle)
  · intro other base ctx₁ other' base' ctx₁' hother hother' hne
    rcases hreserved other base ctx₁ hother with ⟨_, hold⟩ | ⟨rfl, rfl, heq⟩
    · rcases hreserved other' base' ctx₁' hother' with ⟨_, hold'⟩ | ⟨rfl, rfl, heq'⟩
      · exact h.apart other base ctx₁ other' base' ctx₁' hold hold' hne
      · exact .inl (h.block other base ctx₁ hold)
    · rcases hreserved other' base' ctx₁' hother' with ⟨_, hold'⟩ | ⟨rfl, -, -⟩
      · exact .inr (h.block other' base' ctx₁' hold')
      · exact absurd rfl hne
  · intro other ctx₁ hother
    by_cases heq : other = context
    · subst heq
      exact h.known other ctx hctx
    · apply h.known other ctx₁
      simpa [Recorder.setContext, Recorder.reserveWorkerIds, heq] using hother

/-- The id can be the owner's: no other owner has it, and it lies in no other's block. -/
structure Free (s : Recorder) (owner : Owner) (id : Nat) : Prop where
  counted : id < s.workerIdCounter
  low : id < blocking
  unique : ∀ a ∈ s.assigned, a.2 = id → a.1 = owner
  inside : ∀ context base ctx, s.Reserved context base ctx → base ≤ id →
    id < base + ctx.numWorkers → owner = ⟨context, .worker (id - base)⟩

theorem Blocks.assign (h : Blocks s) (hfree : Free s owner id) :
    Blocks (s.assign thread owner id) where
  counter := h.counter
  below := by
    intro a ha
    rcases List.mem_append.mp ha with hold | hnew
    · exact h.below a hold
    · rw [List.mem_singleton.mp hnew]
      exact ⟨hfree.counted, hfree.low⟩
  distinct := by
    intro a ha b hb heq
    rcases List.mem_append.mp ha with hold | hnew
    · rcases List.mem_append.mp hb with hold' | hnew'
      · exact h.distinct a hold b hold' heq
      · rw [List.mem_singleton.mp hnew'] at heq ⊢
        exact hfree.unique a hold heq
    · rw [List.mem_singleton.mp hnew] at heq ⊢
      rcases List.mem_append.mp hb with hold' | hnew'
      · exact (hfree.unique b hold' heq.symm).symm
      · rw [List.mem_singleton.mp hnew']
  block := h.block
  inside := by
    intro context base ctx hreserved a ha hle hlt
    rcases List.mem_append.mp ha with hold | hnew
    · exact h.inside context base ctx hreserved a hold hle hlt
    · rw [List.mem_singleton.mp hnew] at hle hlt ⊢
      exact hfree.inside context base ctx hreserved hle hlt
  apart := h.apart
  known := h.known

/-! ## Threads -/

theorem Held.assign (h : Held s) {locals : ThreadLocals}
    (hthreads : next.threads = Function.update s.threads thread locals)
    (hresolved : next.resolved = Function.update s.resolved thread (some owner))
    (hassigned : next.assigned = s.assigned ++ [(owner, id)])
    (hglobal : locals.globalWorkerId = some id) (hclaims : ∀ entry ∈ locals.claimedWorkerIds,
      entry ∈ (s.threads thread).claimedWorkerIds ∨
        (⟨entry.1, .thread thread⟩, entry.2) = (owner, id)) : Held next := by
  have hmem : ∀ a ∈ s.assigned, a ∈ next.assigned := fun a ha =>
    hassigned ▸ List.mem_append_left _ ha
  have hnew : (owner, id) ∈ next.assigned := hassigned ▸ List.mem_concat_self
  constructor
  · intro other owner' hother
    rw [hresolved, Function.update_apply] at hother
    rw [hthreads, Function.update_apply]
    by_cases heq : other = thread
    · rw [if_pos heq] at hother ⊢
      cases hother
      exact ⟨id, hglobal, hnew⟩
    · rw [if_neg heq] at hother ⊢
      rcases h.resolved other owner' hother with ⟨id', hid, ha⟩
      exact ⟨id', hid, hmem _ ha⟩
  · intro other hother
    rw [hresolved, Function.update_apply] at hother
    rw [hthreads, Function.update_apply]
    by_cases heq : other = thread
    · rw [if_pos heq] at hother
      cases hother
    · rw [if_neg heq] at hother ⊢
      exact h.unresolved other hother
  · intro other entry hentry
    rw [hthreads, Function.update_apply] at hentry
    by_cases heq : other = thread
    · rw [if_pos heq] at hentry
      subst heq
      rcases hclaims entry hentry with hold | heq
      · exact hmem _ (h.claims other entry hold)
      · exact heq ▸ hnew
    · rw [if_neg heq] at hentry
      exact hmem _ (h.claims other entry hentry)

theorem registerWorker_same (s : Recorder) (context id : Nat) :
    (s.registerWorker context id).threads = s.threads ∧
      (s.registerWorker context id).resolved = s.resolved ∧
      (s.registerWorker context id).assigned = s.assigned ∧
      (s.registerWorker context id).wakes = s.wakes := by
  unfold registerWorker
  cases s.contexts context with
  | none | some _ => exact ⟨rfl, rfl, rfl, rfl⟩

theorem Blocks.registerWorker (h : Blocks s) (context id : Nat) :
    Blocks (s.registerWorker context id) := by
  unfold Recorder.registerWorker
  cases hctx : s.contexts context with
  | none => exact h
  | some ctx => exact h.setContext hctx rfl rfl

theorem Sound.assign (h : Sound s) {claimed : Recorder} (hblocks : Blocks claimed)
    (hfree : Free claimed owner id) (hresolved : claimed.resolved = s.resolved)
    (hassigned : claimed.assigned = s.assigned) (hwakes : claimed.wakes = s.wakes)
    {locals : ThreadLocals} (hthreads : claimed.threads = Function.update s.threads thread locals)
    (hclaims : ∀ entry ∈ locals.claimedWorkerIds,
      entry ∈ (s.threads thread).claimedWorkerIds ∨
        (⟨entry.1, .thread thread⟩, entry.2) = (owner, id)) :
    Sound ((claimed.assign thread owner id).registerWorker owner.context id) := by
  rcases registerWorker_same (claimed.assign thread owner id) owner.context id with
    ⟨hthreads', hresolved', hassigned', hwakes'⟩
  have hassigned'' : ((claimed.assign thread owner id).registerWorker owner.context id).assigned =
      s.assigned ++ [(owner, id)] := by
    rw [hassigned', ← hassigned]
    rfl
  refine ⟨(hblocks.assign hfree).registerWorker _ _, ?_, ?_⟩
  · apply @Held.assign _ _ _ _ _ h.held
      { locals with globalWorkerId := some id } _ _ hassigned'' rfl hclaims
    · rw [hthreads']
      show Function.update claimed.threads thread
        { claimed.threads thread with globalWorkerId := some id } = _
      rw [hthreads, Function.update_self, Function.update_idem]
    · rw [hresolved', ← hresolved]
      rfl
  · intro wake hwake
    rw [hwakes'] at hwake
    have hold := h.wakes wake (hwakes ▸ hwake)
    refine ⟨fun owner' howner => ?_, hold.2⟩
    rw [hassigned'']
    exact List.mem_append_left _ (hold.1 owner' howner)

theorem Blocks.free_worker (h : Blocks s) {base : Nat}
    (hreserved : s.Reserved context base ctx) (hindex : localIndex < ctx.numWorkers)
    (hlow : base + localIndex < blocking) :
    Free s ⟨context, .worker localIndex⟩ (base + localIndex) where
  counted := lt_of_lt_of_le (Nat.add_lt_add_left hindex base) (h.block _ _ _ hreserved)
  low := hlow
  unique := by
    intro a ha heq
    have howner := h.inside context base ctx hreserved a ha (by omega) (by omega)
    rw [howner, heq, Nat.add_sub_cancel_left]
  inside := by
    intro other base' ctx' hother hle hlt
    by_cases heq : other = context
    · subst heq
      obtain rfl : ctx = ctx' := Option.some.inj (hreserved.1.symm.trans hother.1)
      obtain rfl : base = base' := Option.some.inj (hreserved.2.symm.trans hother.2)
      rw [Nat.add_sub_cancel_left]
    · have hapart := h.apart _ _ _ _ _ _ hreserved hother (Ne.symm heq)
      omega

theorem Sound.resolveUnstable (h : Sound s) (hctx : s.contexts context = some ctx)
    (hindex : localIndex < ctx.numWorkers)
    (hfits : Fits true s (.resolve thread context localIndex)) :
    Sound (s.resolveWorker true thread context ctx localIndex) := by
  rcases hfits ctx hctx with ⟨hcount, hlow⟩
  have hthreads : s.threads = Function.update s.threads thread (s.threads thread) :=
    (Function.update_eq_self thread s.threads).symm
  unfold resolveWorker
  rw [if_pos rfl]
  unfold claimWorkerId
  cases hbase : ctx.workerIdBase with
  | some base =>
    rw [hbase, Option.getD_some] at hlow
    have hmod : (base + localIndex) % 2 ^ 64 = base + localIndex :=
      Nat.mod_eq_of_lt (hlow.trans (by decide))
    simp only [hmod]
    have hfree := h.blocks.free_worker ⟨hctx, hbase⟩ hindex hlow
    exact h.assign h.blocks hfree rfl rfl rfl hthreads fun _ => .inl
  | none =>
    rw [hbase, Option.getD_none] at hlow
    have hmod : (s.workerIdCounter + localIndex) % 2 ^ 64 = s.workerIdCounter + localIndex :=
      Nat.mod_eq_of_lt (hlow.trans (by decide))
    have hblocks := h.blocks.reserve hctx (hcount hbase)
    simp only [reserveWorkerIds, hmod]
    have hreserved : Reserved ((s.reserveWorkerIds ctx.numWorkers).2.setContext context
        { ctx with workerIdBase := some s.workerIdCounter }) context s.workerIdCounter
        { ctx with workerIdBase := some s.workerIdCounter } :=
      ⟨Function.update_self _ _ _, rfl⟩
    have hfree := hblocks.free_worker hreserved hindex hlow
    exact h.assign hblocks hfree rfl rfl rfl hthreads fun _ => .inl

theorem mem_of_claimed (h : s.claimed thread context = some id) :
    (context, id) ∈ (s.threads thread).claimedWorkerIds := by
  rcases Option.map_eq_some_iff.mp h with ⟨entry, hfind, rfl⟩
  have hcontext := List.find?_some hfind
  obtain rfl : entry.1 = context := of_decide_eq_true hcontext
  exact List.mem_of_find?_eq_some hfind

theorem Blocks.free_of_mem (h : Blocks s) (hmem : (owner, id) ∈ s.assigned) : Free s owner id where
  counted := (h.below _ hmem).1
  low := (h.below _ hmem).2
  unique := fun a ha heq => h.distinct a ha _ hmem heq
  inside := fun context base ctx hreserved hle hlt =>
    h.inside context base ctx hreserved _ hmem hle hlt

theorem counter_reserveOne (hlow : s.workerIdCounter < blocking) :
    (s.reserveWorkerIds 1).2.workerIdCounter = s.workerIdCounter + 1 :=
  Nat.mod_eq_of_lt (lt_of_le_of_lt hlow (by decide))

theorem Blocks.reserveOne (h : Blocks s) (hlow : s.workerIdCounter < blocking) :
    Blocks (s.reserveWorkerIds 1).2 where
  counter := Nat.mod_lt _ (by decide)
  below := by
    intro a ha
    rcases h.below a ha with ⟨hlt, hblocking⟩
    exact ⟨counter_reserveOne hlow ▸ Nat.lt_succ_of_lt hlt, hblocking⟩
  distinct := h.distinct
  block := by
    intro context base ctx hreserved
    exact counter_reserveOne hlow ▸ Nat.le_succ_of_le (h.block context base ctx hreserved)
  inside := h.inside
  apart := h.apart
  known := h.known

theorem Blocks.free_counter (h : Blocks s) (hlow : s.workerIdCounter < blocking) (owner : Owner) :
    Free (s.reserveWorkerIds 1).2 owner s.workerIdCounter where
  counted := counter_reserveOne hlow ▸ Nat.lt_succ_self _
  low := hlow
  unique := fun a ha heq => absurd (h.below a ha).1 (heq ▸ Nat.lt_irrefl _)
  inside := fun context base ctx hreserved _ hlt =>
    absurd (h.block context base ctx hreserved) (Nat.not_le.mpr hlt)

theorem Blocks.setThread (h : Blocks s) (thread : Nat) (locals : ThreadLocals) :
    Blocks (s.setThread thread locals) :=
  { h with }

theorem Free.setThread (h : Free s owner id) (thread : Nat) (locals : ThreadLocals) :
    Free (s.setThread thread locals) owner id :=
  { h with }

theorem Sound.resolveStable (h : Sound s)
    (hfits : Fits false s (.resolve thread context localIndex)) :
    Sound (s.resolveWorker false thread context ctx localIndex) := by
  unfold resolveWorker
  rw [if_neg Bool.false_ne_true]
  unfold claimThreadWorkerId
  cases hclaimed : s.claimed thread context with
  | some id =>
    have hmem := h.held.claims thread _ (mem_of_claimed hclaimed)
    have hthreads : s.threads = Function.update s.threads thread (s.threads thread) :=
      (Function.update_eq_self thread s.threads).symm
    exact h.assign h.blocks (h.blocks.free_of_mem hmem) rfl rfl rfl hthreads fun _ => .inl
  | none =>
    have hlow : s.workerIdCounter < blocking := hfits hclaimed
    have hblocks := h.blocks.reserveOne hlow
    have hfree := h.blocks.free_counter hlow ⟨context, .thread thread⟩
    apply h.assign (hblocks.setThread thread _) (hfree.setThread thread _) rfl rfl rfl rfl
    intro entry hentry
    rcases List.mem_append.mp hentry with hold | hnew
    · exact .inl hold
    · right
      rw [List.mem_singleton.mp hnew]

theorem Sound.resolveWorker (h : Sound s) {unstable : Bool} (hctx : s.contexts context = some ctx)
    (hindex : unstable = false ∨ localIndex < ctx.numWorkers)
    (hfits : Fits unstable s (.resolve thread context localIndex)) :
    Sound (s.resolveWorker unstable thread context ctx localIndex) := by
  cases unstable with
  | false => exact h.resolveStable hfits
  | true =>
    rcases hindex with heq | hindex
    · cases heq
    · exact h.resolveUnstable hctx hindex hfits

/-! ## Steps -/

theorem Held.releaseClaimed (h : Held s) (thread context : Nat) :
    Held (s.releaseClaimed thread context) where
  resolved := by
    intro other owner hother
    rcases h.resolved other owner hother with ⟨id, hid, hmem⟩
    refine ⟨id, ?_, hmem⟩
    by_cases heq : other = thread
    · subst heq
      simpa [Recorder.releaseClaimed, Recorder.setThread] using hid
    · simpa [Recorder.releaseClaimed, Recorder.setThread, heq] using hid
  unresolved := by
    intro other hother
    have hnone := h.unresolved other hother
    by_cases heq : other = thread
    · subst heq
      simpa [Recorder.releaseClaimed, Recorder.setThread] using hnone
    · simpa [Recorder.releaseClaimed, Recorder.setThread, heq] using hnone
  claims := by
    intro other entry hentry
    apply h.claims other entry
    by_cases heq : other = thread
    · subst heq
      have hfilter : entry ∈ (s.threads other).claimedWorkerIds.filter
          fun entry => entry.1 ≠ context := by
        simpa [Recorder.releaseClaimed, Recorder.setThread] using hentry
      exact List.mem_of_mem_filter hfilter
    · simpa [Recorder.releaseClaimed, Recorder.setThread, heq] using hentry

theorem Sound.detach (h : Sound s) (hctx : s.contexts context = some ctx) (thread : Nat) :
    Sound ((s.setContext context { ctx with detached := true }).releaseClaimed thread context) where
  blocks := by
    have hblocks : Blocks (s.setContext context { ctx with detached := true }) :=
      h.blocks.setContext hctx rfl rfl
    exact hblocks.setThread thread _
  held := by
    have hheld : Held (s.setContext context { ctx with detached := true }) :=
      { h.held with }
    exact hheld.releaseClaimed thread context
  wakes := h.wakes

/-- A thread wakes as what it last resolved as. -/
theorem Sound.recordWakeEvent (h : Sound s) (thread : Nat) :
    Sound (s.recordWakeEvent thread (s.resolved thread)) where
  blocks := { h.blocks with }
  held := { h.held with }
  wakes := by
    intro wake hwake
    rcases List.mem_append.mp hwake with hold | hnew
    · exact h.wakes wake hold
    · rw [List.mem_singleton.mp hnew]
      cases hresolved : s.resolved thread with
      | none =>
        have hcurrent : s.currentWorkerId thread = unknown := by
          rw [currentWorkerId, h.held.unresolved thread hresolved, Option.getD_none]
        rw [hcurrent]
        exact ⟨nofun, fun _ => rfl, fun _ => rfl⟩
      | some owner =>
        rcases h.held.resolved thread owner hresolved with ⟨id, hid, hmem⟩
        have hcurrent : s.currentWorkerId thread = id := by
          rw [currentWorkerId, hid, Option.getD_some]
        have hlt : id < 254 := (h.blocks.below _ hmem).2
        rw [hcurrent, if_pos hlt.le]
        refine ⟨?_, ?_, nofun⟩
        · rintro owner' ⟨⟩
          exact hmem
        · intro heq
          exact absurd hlt (by rw [show id = 255 from heq]; decide)

theorem Sound.step (h : Sound s) {unstable : Bool} {event : Event} (hfits : Fits unstable s event)
    (hstep : s.step unstable event = some next) : Sound next := by
  cases event with
  | attach numWorkers =>
    cases hstep
    exact ⟨h.blocks.attach numWorkers, { h.held with },
      h.wakes⟩
  | detach context thread =>
    rcases Option.map_eq_some_iff.mp hstep with ⟨ctx, hctx, rfl⟩
    exact h.detach hctx thread
  | resolve thread context localIndex =>
    rcases Option.bind_eq_some_iff.mp hstep with ⟨ctx, hctx, hif⟩
    rcases Option.ite_none_right_eq_some.mp hif with ⟨hindex, hnext⟩
    cases hnext
    exact h.resolveWorker hctx hindex hfits
  | wake thread waker =>
    cases hstep
    obtain rfl : waker = s.resolved thread := hfits
    exact h.recordWakeEvent thread

/-- While ids stay below the sentinels, and threads wake as what they resolved
as, ids mean what they should. -/
theorem ids_meaningful (unstable : Bool) (events : List Event)
    (hfits : Along (step unstable) (Fits unstable) empty events) :
    Throughout (step unstable) Meaningful empty events := by
  refine throughout_of_along ?_ ?_ sound_empty hfits
  · intro s event next hsound hfit hstep
    exact hsound.step hfit hstep
  · intro s hsound
    exact hsound.meaningful

theorem fits_resolve (hctx : s.contexts context = some ctx)
    (hcount : s.workerIdCounter + ctx.numWorkers < 2 ^ 64)
    (hlow : ctx.workerIdBase.getD s.workerIdCounter + localIndex < 254) :
    Fits true s (.resolve thread context localIndex) := by
  intro ctx' hctx'
  cases hctx.symm.trans hctx'
  exact ⟨fun _ => hcount, hlow⟩

/-- Two runtimes, a worker of each, and a thread of none. -/
theorem ids_meaningful_twoRuntimes :
    Throughout (step true) Meaningful empty
      [.attach 2, .attach 3, .resolve 0 2 1, .resolve 1 1 1, .wake 0 (some ⟨2, .worker 1⟩),
        .wake 7 none, .detach 1 1, .resolve 1 2 0] := by
  apply ids_meaningful
  refine ⟨trivial, ?_⟩
  rintro _ ⟨⟩
  refine ⟨trivial, ?_⟩
  rintro _ ⟨⟩
  refine ⟨@fits_resolve _ _ _ _ ⟨3, none, [], false⟩ rfl (by decide) (by decide), ?_⟩
  rintro _ ⟨⟩
  refine ⟨@fits_resolve _ _ _ _ ⟨2, none, [], false⟩ rfl (by decide) (by decide), ?_⟩
  rintro _ ⟨⟩
  refine ⟨rfl, ?_⟩
  rintro _ ⟨⟩
  refine ⟨rfl, ?_⟩
  rintro _ ⟨⟩
  refine ⟨trivial, ?_⟩
  rintro _ ⟨⟩
  refine ⟨@fits_resolve _ _ _ _ ⟨3, some 0, [1], false⟩ rfl (by decide) (by decide), ?_⟩
  rintro _ ⟨⟩
  trivial

/-- The last worker of a runtime of 256 has the id of threads that are no
workers, and a thread that is a worker no more wakes as the worker it was. -/
theorem ids_not_meaningful :
    ¬ Throughout (step true) Meaningful empty [.attach 256, .resolve 0 1 255] ∧
      ¬ Throughout (step true) Meaningful empty [.attach 1, .resolve 0 1 0, .wake 0 none] := by
  constructor
  · intro hrun
    have hlast := (hrun.2 _ rfl).2 _ rfl
    have hassigned := hlast.notSentinel (⟨1, .worker 255⟩, 255) List.mem_concat_self
    exact hassigned.1 rfl
  · intro hrun
    have hlast := ((hrun.2 _ rfl).2 _ rfl).2 _ rfl
    have hwake : (0 : Nat) = 255 ↔ (none : Option Owner) = none :=
      (hlast.wakes ⟨none, 0⟩ List.mem_concat_self).2
    exact absurd (hwake.mpr rfl) (by decide)

/-- Meanwhile the blocks that runtimes reserve stay apart, and hold ids of their own workers only;
what a thread goes by, or has claimed for a runtime, was assigned to it. -/
theorem blocks_throughout (unstable : Bool) (events : List Event)
    (hfits : Along (step unstable) (Fits unstable) empty events) :
    Throughout (step unstable) (fun s => s.Blocks ∧ s.Held) empty events :=
  throughout_of_along (fun _ _ _ h hfit hstep => h.step hfit hstep)
    (fun _ h => ⟨h.blocks, h.held⟩) sound_empty hfits

/-- Two runtimes reserve a block each, the second one first. -/
theorem blocks_throughout_reserved :
    Throughout (step true) (fun s => s.Blocks ∧ s.Held) empty
      [.attach 2, .attach 3, .resolve 0 2 1, .resolve 1 1 1] ∧
    ∃ s, run (step true) empty [.attach 2, .attach 3, .resolve 0 2 1, .resolve 1 1 1] = some s ∧
      (s.contexts 2).map RuntimeContext.workerIdBase = some (some 0) ∧
      (s.contexts 1).map RuntimeContext.workerIdBase = some (some 3) := by
  refine ⟨?_, _, rfl, rfl, rfl⟩
  apply blocks_throughout
  refine ⟨trivial, ?_⟩
  rintro _ ⟨⟩
  refine ⟨trivial, ?_⟩
  rintro _ ⟨⟩
  refine ⟨@fits_resolve _ _ _ _ ⟨3, none, [], false⟩ rfl (by decide) (by decide), ?_⟩
  rintro _ ⟨⟩
  refine ⟨@fits_resolve _ _ _ _ ⟨2, none, [], false⟩ rfl (by decide) (by decide), ?_⟩
  rintro _ ⟨⟩
  trivial

end Recorder

end Dial9.Tokio
