/-
# The chain of rosters

Every roster that is stored over another of its policy was computed from that
very one and counts its epoch up by one, and no write under a replaced version
takes effect any more. A lease is held under the version it was granted with, so
two processes never hold it under the store's current version. A roster that is
founded anew starts from the clock, not from what it replaces.
-/

import Dial9.Sampling.Ledger
import Dial9.Sampling.Observation

namespace Dial9.Sampling

open Dial9.Lib

variable {F : Type} [Outside F] [DecidableEq F]

namespace Fleet

/-! ## One leader -/

/-- No two processes have one identity. -/
def Identified (fleet : Fleet F) : Prop :=
  ∀ i j p q, fleet.processes i = some p → fleet.processes j = some q →
    p.worker.config.invocationId = q.worker.config.invocationId → i = j

/-- A process is started under an identity that none has yet. -/
def StartsFresh (fleet : Fleet F) (event : Event F) : Prop :=
  ∀ index config uncertainty, event = .start index config uncertainty →
    ∀ other process, fleet.processes other = some process →
      process.worker.config.invocationId ≠ config.invocationId

variable {fleet next : Fleet F} {event : Event F}

theorem Identified.step (hledger : fleet.Ledger) (h : fleet.Identified)
    (hfresh : fleet.StartsFresh event) (hstep : fleet.step event = some next) :
    next.Identified := by
  intro i j p q hp hq hid
  rcases hledger.config_of_step hstep hp with ⟨_, hstart⟩ | ⟨p', hp', hconfig⟩ <;>
    rcases hledger.config_of_step hstep hq with ⟨_, hstart'⟩ | ⟨q', hq', hconfig'⟩
  · rw [hstart] at hstart'
    exact (Event.start.inj hstart').1
  · rw [hconfig'] at hid
    exact absurd hid.symm (hfresh i _ _ hstart j q' hq')
  · rw [hconfig] at hid
    exact absurd hid (hfresh j _ _ hstart' i p' hp')
  · rw [hconfig, hconfig'] at hid
    exact h i j p' q' hp' hq' hid

/-- The identities a run starts processes under. -/
def startIds (events : List (Event F)) : List String :=
  events.filterMap fun event =>
    match event with
    | .start _ config _ => some config.invocationId
    | _ => none

omit [DecidableEq F] in
theorem startIds_sublist (event : Event F) (events : List (Event F)) :
    (startIds events).Sublist (startIds (event :: events)) :=
  (List.sublist_cons_self event events).filterMap _

theorem along_startsFresh {events : List (Event F)} (hledger : fleet.Ledger)
    (hids : (startIds events).Nodup) (hnew : ∀ index process, fleet.processes index = some process →
      process.worker.config.invocationId ∉ startIds events) :
    Along Fleet.step StartsFresh fleet events := by
  induction events generalizing fleet with
  | nil => trivial
  | cons event events ih =>
    refine ⟨?_, ?_⟩
    · rintro index config uncertainty rfl other process hprocess heq
      apply hnew other process hprocess
      simp [startIds, heq]
    · intro next hstep
      have hsublist := startIds_sublist event events
      apply ih (hledger.step hstep) (hids.sublist hsublist)
      intro index process hprocess
      rcases hledger.config_of_step hstep hprocess with ⟨_, rfl⟩ | ⟨before, hbefore, hconfig⟩
      · exact (List.nodup_cons.mp hids).1
      · rw [hconfig]
        exact fun hmem => hnew index before hbefore (hsublist.subset hmem)

theorem Ledger.holder_of_current (h : fleet.Ledger) {index : Nat} {process : Process F}
    (hprocess : fleet.processes index = some process) {leader : Observed F}
    (hleader : process.worker.leader = some leader) {object : Object F}
    (hcurrent : some object ∈ fleet.history) (hversion : leader.version = object.version) :
    ∃ roster, object.body = .roster roster ∧
      roster.holder = process.worker.config.invocationId := by
  rcases (h.custody index process hprocess).remembers.leading leader hleader with
    ⟨⟨-, known, hknown, hbody, hknownVersion⟩, hholder⟩
  refine ⟨leader.roster, ?_, hholder⟩
  rw [h.grown.identified hcurrent hknown (hversion.symm.trans hknownVersion.symm)]
  exact hbody

/-! ## Whole runs -/

/-- What the compare-and-swap keeps. -/
structure CasChain (fleet : Fleet F) : Prop where
  /-- Computed from what was replaced, except where nothing there can be built on. -/
  computed : ∀ commit ∈ fleet.commits, commit.Computed
  epochs : ∀ commit ∈ fleet.commits, commit.request.purpose ≠ .found →
    ∃ before, commit.Replaces before ∧ commit.request.roster.epoch = before.epoch + 1
  /-- A write took effect over the version it names. -/
  current : ∀ commit ∈ fleet.commits, ∀ version, commit.request.previous = some version →
    ∃ object, commit.replaced = some object ∧ object.version = version
  /-- A write that names a replaced version cannot take effect. -/
  stale : ∀ request ∈ fleet.requests, ∀ object, some object ∈ fleet.history.tail →
    request.previous = some object.version →
      request.put.condition.met fleet.history.current = false
  oneLeader : ∀ i j p q lease lease' object, fleet.processes i = some p →
    fleet.processes j = some q → p.worker.leader = some lease → q.worker.leader = some lease' →
    fleet.history.current = some object → lease.version = object.version →
    lease'.version = object.version → i = j

omit [Outside F] [DecidableEq F] in
theorem mem_of_current {object : Object F} (h : fleet.history.current = some object) :
    some object ∈ fleet.history :=
  List.mem_of_head? (Option.join_eq_some_iff.mp h)

theorem Ledger.casChain (h : fleet.Ledger) (hids : fleet.Identified) : fleet.CasChain := by
  refine ⟨fun _ => h.computed, ?_, ?_, ?_, ?_⟩
  · intro commit hcommit hne
    cases h.computed hcommit with
    | found hfound => exact absurd hfound hne
    | edit hreplaces _ hedits => exact ⟨_, hreplaces, hedits.succeeds.epoch⟩
  · intro commit hcommit version hversion
    have hmet := (h.chain.of_mem hcommit).2.2
    simp only [Request.put, hversion, Option.elim_some, Condition.met] at hmet
    rcases (Option.any_eq_true _ _).mp hmet with ⟨object, hobject, hmatches⟩
    exact ⟨object, hobject, eq_of_beq hmatches⟩
  · intro request hrequest object hstale hversion
    have hmem := List.mem_map_of_mem (f := Request.put) hrequest
    apply h.grown.not_met_of_tail (h.grown.versions_nodup h.distinct)
      (h.distinct.conditional _ hmem) hstale
    simp [Request.put, hversion, Condition.met]
  · intro i j p q lease lease' object hp hq hlease hlease' hcurrent hversion hversion'
    have hmem := mem_of_current hcurrent
    rcases h.holder_of_current hp hlease hmem hversion with ⟨roster, hbody, hholder⟩
    rcases h.holder_of_current hq hlease' hmem hversion' with ⟨roster', hbody', hholder'⟩
    rw [Body.roster.inj (hbody.symm.trans hbody')] at hholder
    exact hids i j p q hp hq (hholder.symm.trans hholder')

theorem Ledger.throughout {Inv : Fleet F → Prop} (h : ∀ fleet, Ledger fleet → Inv fleet)
    (first : Option (Object F)) (events : List (Event F)) :
    Throughout Fleet.step Inv (Fleet.empty first) events :=
  throughout_of_along (fun _ _ _ h _ hstep => h.step hstep) h (.empty first) (along_true _ events)

/-- What a process leads by was stored in its own name, under that version. -/
theorem leases_throughout (first : Option (Object F)) (events : List (Event F)) :
    Throughout Fleet.step (fun fleet => ∀ index process lease,
      fleet.processes index = some process → process.worker.leader = some lease →
        lease.roster.holder = process.worker.config.invocationId ∧
          lease.roster.policy = .new process.worker.config ∧
          ∃ object, some object ∈ fleet.history ∧ object.body = .roster lease.roster ∧
            object.version = lease.version) (Fleet.empty first) events := by
  refine Ledger.throughout ?_ first events
  intro fleet h index process lease hprocess hlease
  rcases (h.custody index process hprocess).remembers.leading lease hlease with ⟨hknown, hholder⟩
  exact ⟨hholder, hknown⟩

variable {requests : List (Request F)} {first : Option (Object F)} {commits : List (Commit F)}

omit [Outside F] [DecidableEq F] in
theorem replaced_mem_tail (h : Chain requests first commits) {commit : Commit F}
    (hmem : commit ∈ commits) : commit.replaced ∈ (historyOf first commits).tail := by
  induction h with
  | nil => cases hmem
  | @cons newest commits _ _ hreplaced _ _ ih =>
    change _ ∈ historyOf first commits
    rcases List.mem_cons.mp hmem with rfl | hold
    · rw [hreplaced]
      cases commits with
      | nil | cons _ _ => simp [historyOf, History.current]
    · exact List.mem_of_mem_tail (ih hold)

omit [Outside F] in
/-- A request that took effect is dead: what it was conditioned on is replaced. -/
theorem requests_nodup (h : Chain requests first commits)
    (hgrown : Grown (requests.map Request.put) first (historyOf first commits))
    (hdistinct : Distinct (requests.map Request.put) first) :
    (commits.map Commit.request).Nodup := by
  induction h with
  | nil => exact .nil
  | @cons newest commits hchain hrequest hreplaced _ hmet ih =>
    have hgrown : Grown (requests.map Request.put) first (historyOf first commits) :=
      hgrown.of_cons (by simp)
    refine List.nodup_cons.mpr ⟨?_, ih hgrown⟩
    intro hmem
    rcases List.mem_map.mp hmem with ⟨older, holder, heq⟩
    have hcond := hdistinct.conditional _ (List.mem_map_of_mem hrequest)
    have hbelow := (hchain.of_mem holder).2.2
    rw [heq] at hbelow
    have hdead := hgrown.not_met_of_tail (hgrown.versions_nodup hdistinct) hcond
      (replaced_mem_tail hchain holder) hbelow
    rw [← hreplaced, hmet] at hdead
    cases hdead

/-- No write takes effect twice, and no version is ever given again. -/
theorem takesEffectOnce_throughout (first : Option (Object F)) (events : List (Event F)) :
    Throughout Fleet.step (fun fleet => (fleet.commits.map Commit.request).Nodup ∧
      fleet.history.versions.Nodup) (Fleet.empty first) events :=
  Ledger.throughout (fun _ h => ⟨requests_nodup h.chain h.grown h.distinct,
    h.grown.versions_nodup h.distinct⟩) first events

/-- A published sample was reserved, for its window, by the write it replaces. -/
theorem publishesReserved_throughout (first : Option (Object F)) (events : List (Event F)) :
    Throughout Fleet.step (fun fleet => ∀ commit ∈ fleet.commits, ∀ window,
      commit.request.purpose = .publish window → ∃ now, ∃ request ∈ fleet.requests,
        request.purpose = .reserve now (some window) ∧ commit.Replaces request.roster)
      (Fleet.empty first) events :=
  Ledger.throughout (fun _ h _ hmem _ => h.reserved_of_published hmem) first events

/-- Over any run whose processes have identities of their own. -/
theorem casChain_throughout (first : Option (Object F)) (events : List (Event F))
    (hids : (startIds events).Nodup) :
    Throughout Fleet.step CasChain (Fleet.empty first) events := by
  have halong : Along Fleet.step StartsFresh (Fleet.empty first) events :=
    along_startsFresh (.empty first) hids (by simp [Fleet.empty])
  have hgood : (Fleet.empty first).Ledger ∧ (Fleet.empty first).Identified :=
    ⟨.empty first, by simp [Identified, Fleet.empty]⟩
  have hstep : ∀ (fleet : Fleet F) event next, fleet.Ledger ∧ fleet.Identified →
      fleet.StartsFresh event → fleet.step event = some next → next.Ledger ∧ next.Identified := by
    rintro fleet event next ⟨hledger, hids⟩ hfresh hstep
    exact ⟨hledger.step hstep, hids.step hledger hfresh hstep⟩
  exact throughout_of_along hstep (fun _ h => h.1.casChain h.2) hgood halong

end Fleet

/-! ## A change of policy -/

open Observation

/-- A configuration of the same pool under another policy. -/
def slowConfig : Config :=
  { smallConfig with invocationId := "01ARZ3NDEKTSV4RRFFQ69G5FAZ", pollInterval := 2000 }

def nonce (text : String) (h : Outside.isUlid ℚ text = true) : Nonce ℚ := ⟨text, h⟩

/-- All nonces of a turn. -/
def nonces (revision : Nonce ℚ) : Nonces ℚ := ⟨revision, revision, revision⟩

def firstNonces : Nonces ℚ := nonces (nonce "01ARZ3NDEKTSV4RRFFQ69G5FB1" (by decide))
def secondNonces : Nonces ℚ := nonces (nonce "01ARZ3NDEKTSV4RRFFQ69G5FB2" (by decide))

/-- A clock that stands still, in milliseconds. -/
def stopped (ms : Nat) : Clock := fun _ => nanos ms

/-- What the first process founds the pool with. -/
def firstRoster : Roster ℚ :=
  { Roster.initial smallConfig smallConfig.invocationId firstNonces.revision.val with
    epoch := 1001 }

def firstObject : Object ℚ := ⟨.roster firstRoster, "v1", nanos 1000⟩

/-- The creator of a roster dies, and a process of another policy finds its
lease lapsed. -/
def changeOfPolicy : List (Event ℚ) :=
  [.start 0 smallConfig 0,
    .move 0 (.got (.ok none) (stopped 1000) firstNonces),
    .commit 0 "v1" (nanos 1000),
    .move 0 (.put (.stored "v1") (stopped 1000)),
    .move 0 .die,
    .start 1 slowConfig 0,
    .move 1 (.got (.ok (some firstObject)) (stopped 600000) secondNonces),
    .move 1 (.wake (stopped 600000)),
    .move 1 (.slept (stopped 600000)),
    .move 1 (.got (.ok (some firstObject)) (stopped 600000) secondNonces),
    .commit 0 "v2" (nanos 600000)]

theorem commits_of_changeOfPolicy :
    (run Fleet.step (Fleet.empty none) changeOfPolicy).map (fun fleet =>
        fleet.commits.map fun c =>
          (c.request.roster.epoch, decide (c.replaced = some firstObject))) =
      some [(600001, true), (1001, false)] := by
  decide

/-- A takeover over another policy does not count the epoch up. -/
theorem epoch_after_changeOfPolicy :
    ¬ ∀ (first : Option (Object ℚ)) (events : List (Event ℚ)) (fleet : Fleet ℚ),
      (Fleet.startIds events).Nodup → run Fleet.step (Fleet.empty first) events = some fleet →
        ∀ commit ∈ fleet.commits, ∀ before, commit.Replaces before →
          commit.request.roster.epoch = before.epoch + 1 := by
  intro hall
  rcases Option.map_eq_some_iff.mp commits_of_changeOfPolicy with ⟨fleet, hrun, hcommits⟩
  rcases List.map_eq_cons_iff.mp hcommits with ⟨commit, older, hfleet, hcommit, -⟩
  simp only [Prod.mk.injEq] at hcommit
  have hmem : commit ∈ fleet.commits := by
    rw [hfleet]
    exact List.mem_cons_self
  have hepoch := hall none changeOfPolicy fleet (by decide) hrun commit hmem firstRoster
    ⟨firstObject, of_decide_eq_true hcommit.2, rfl⟩
  rw [hcommit.1] at hepoch
  exact absurd hepoch (by decide)

/-- The chain along that run. -/
theorem casChain_changeOfPolicy :
    ∃ fleet, run Fleet.step (Fleet.empty none) changeOfPolicy = some fleet ∧ fleet.CasChain ∧
      fleet.commits.length = 2 := by
  rcases Option.map_eq_some_iff.mp commits_of_changeOfPolicy with ⟨fleet, hrun, hcommits⟩
  refine ⟨fleet, hrun, ?_, ?_⟩
  · exact (Fleet.casChain_throughout none changeOfPolicy (by decide)).last hrun
  · simpa using congrArg List.length hcommits

end Dial9.Sampling
