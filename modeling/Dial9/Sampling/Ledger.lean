/-
# The ledger of a fleet

What a process remembers of the roster was stored, every write it issues is an
edit of something it remembers, and no two writes are alike. So the body a write
replaces is the very one it was computed from: a version names one body, and a
version that was replaced never comes back.
-/

import Dial9.Sampling.Fleet
import Dial9.Sampling.Turns

namespace Dial9.Sampling

open Dial9.Lib

variable {F : Type} [Outside F]

/-! ## Requests -/

/-- The edits of a roster, by what they are for. -/
inductive Edits (config : Config) : Purpose → Roster F → Roster F → Prop
  | claim {before after : Roster F} {revision : String} :
      before.claim config revision = .ok after → Edits config .claim before after
  | reserve {before after : Roster F} {now : Nat} {revision : String} :
      before.reserve config now revision = .ok after →
      Edits config (.reserve now (before.assess config now)) before after
  | publish {before after : Roster F} {window finished : Nat}
      {census profilers : Except StoreError (Sample F)} {revision salt : String} :
      before.publish config window finished census profilers revision salt = .ok after →
      Edits config (.publish window) before after
  | release {before after : Roster F} {revision : String} :
      before.release config revision = .ok after → Edits config .release before after

theorem Edits.succeeds {config : Config} {purpose : Purpose} {before after : Roster F}
    (h : Edits config purpose before after) :
    Roster.Succeeds config after.revision before after := by
  cases h with
  | claim h =>
    have hsucceeds := Roster.succeeds_of_claim h
    rwa [← hsucceeds.revision] at hsucceeds
  | reserve h =>
    have hsucceeds := Roster.succeeds_of_reserve h
    rwa [← hsucceeds.revision] at hsucceeds
  | publish h =>
    have hsucceeds := (Roster.succeeds_of_publish h).1
    rwa [← hsucceeds.revision] at hsucceeds
  | release h =>
    have hsucceeds := Roster.succeeds_of_release h
    rwa [← hsucceeds.revision] at hsucceeds

/-- The object is one that the policy of the configuration cannot build on. -/
def ForeignTo (config : Config) (object : Object F) : Prop :=
  ∀ roster, object.body = .roster roster → roster.policy ≠ .new config

/-- The roster was stored, under the version it is remembered with, and its
policy is the process's own. -/
def Known (history : History VersionToken (Body F) SystemTime) (config : Config)
    (observed : Observed F) : Prop :=
  observed.roster.policy = .new config ∧
    ∃ object, some object ∈ history ∧ object.body = .roster observed.roster ∧
      object.version = observed.version

/-- The roster is of a write the process has issued. -/
def Sent (requests : List (Request F)) (config : Config) (write : Write) (roster : Roster F) :
    Prop :=
  roster.holder = config.invocationId ∧ roster.policy = .new config ∧
    ∃ request ∈ requests, request.roster = roster ∧ write.serves request.purpose

/-- How a write came about: a new roster over nothing or another policy's, or
the edit of a known one. What is published was reserved before. -/
inductive Request.Sound (history : History VersionToken (Body F) SystemTime)
    (requests : List (Request F)) : Request F → Prop
  | found {config : Config} {now : Nat} {discarded revision : String} {roster : Roster F}
      {previous : Option VersionToken} :
      Roster.found config now discarded revision = .ok roster →
      (∀ version, previous = some version →
        ∃ object, some object ∈ history ∧ object.version = version ∧ ForeignTo config object) →
      Sound history requests ⟨.found, none, previous, roster⟩
  | edit {config : Config} {purpose : Purpose} {observed : Observed F} {roster : Roster F} :
      Known history config observed →
      Edits config purpose observed.roster roster →
      (∀ window, purpose = .publish window → ∃ now, ∃ request ∈ requests,
        request.purpose = .reserve now (some window) ∧ request.roster = observed.roster) →
      Sound history requests ⟨purpose, some observed, some observed.version, roster⟩

/-- The requests that took effect, each over what was there. -/
inductive Chain (requests : List (Request F)) (first : Option (Object F)) :
    List (Commit F) → Prop
  | nil : Chain requests first []
  | cons {commit : Commit F} {commits : List (Commit F)} :
      Chain requests first commits → commit.request ∈ requests →
      commit.replaced = (historyOf first commits).current →
      commit.stored.body = .roster commit.request.roster →
      commit.request.put.condition.met commit.replaced = true →
      Chain requests first (commit :: commits)

variable {request : Request F}

variable {observed : Observed F} {commits : List (Commit F)}

section Growth

variable {history later : History VersionToken (Body F) SystemTime}
  {requests more : List (Request F)} {config : Config} {first : Option (Object F)}

omit [Outside F] in
theorem Known.mono (h : Known history config observed) (hsub : ∀ held ∈ history, held ∈ later) :
    Known later config observed := by
  rcases h with ⟨hpolicy, object, hmem, hobject⟩
  exact ⟨hpolicy, object, hsub _ hmem, hobject⟩

omit [Outside F] in
theorem Sent.mono {write : Write} {roster : Roster F} (h : Sent requests config write roster)
    (hsub : ∀ request ∈ requests, request ∈ more) : Sent more config write roster := by
  rcases h with ⟨hholder, hpolicy, request, hmem, hrequest⟩
  exact ⟨hholder, hpolicy, request, hsub _ hmem, hrequest⟩

theorem Request.Sound.mono (h : request.Sound history requests)
    (hhistory : ∀ held ∈ history, held ∈ later) (hrequests : ∀ r ∈ requests, r ∈ more) :
    request.Sound later more := by
  cases h with
  | found hfound hforeign =>
    refine .found hfound ?_
    intro version hversion
    rcases hforeign version hversion with ⟨object, hmem, hobject⟩
    exact ⟨object, hhistory _ hmem, hobject⟩
  | edit hknown hedit hreserved =>
    refine .edit (hknown.mono hhistory) hedit ?_
    intro window hwindow
    rcases hreserved window hwindow with ⟨now, request, hmem, hrequest⟩
    exact ⟨now, request, hrequests _ hmem, hrequest⟩

omit [Outside F] in
theorem Chain.mono (h : Chain requests first commits)
    (hsub : ∀ request ∈ requests, request ∈ more) : Chain more first commits := by
  induction h with
  | nil => exact .nil
  | cons _ hmem hreplaced hbody hmet ih => exact .cons ih (hsub _ hmem) hreplaced hbody hmet

omit [Outside F] in
theorem Custody.mono {worker : Worker F} {phase : Phase F}
    (h : Custody (Known history config) (Sent requests config) config worker phase)
    (hhistory : ∀ held ∈ history, held ∈ later) (hrequests : ∀ r ∈ requests, r ∈ more) :
    Custody (Known later config) (Sent more config) config worker phase := by
  refine ⟨h.config, ⟨?_, ?_⟩, ?_⟩
  · intro observed hobserved
    exact (h.remembers.cached observed hobserved).mono hhistory
  · intro observed hobserved
    rcases h.remembers.leading observed hobserved with ⟨hknown, hholder⟩
    exact ⟨hknown.mono hhistory, hholder⟩
  · have hphase := h.phase
    cases phase with
    | replacing write call => exact Sent.mono hphase hrequests
    | observing now window reserved => exact ⟨hphase.1.mono hhistory, hphase.2.mono hrequests⟩
    | reading | idle | noticed | backingOff | elected | passed | ending | stopped => trivial

end Growth

/-! ## Steps -/

variable [DecidableEq F]

variable {move : Move F}

namespace Process

variable {history : History VersionToken (Body F) SystemTime} {process : Process F}
  {requests : List (Request F)} {config : Config}

omit [DecidableEq F] in
theorem known_of_decode {object : Object F} (hmem : some object ∈ history)
    (h : decode object config = .ok (.roster observed)) : Known history config observed := by
  rcases decode_eq_roster h with ⟨hbody, hversion, hpolicy, -⟩
  exact ⟨hpolicy, object, hmem, hbody, hversion⟩

theorem known_of_readRoster {since : Nat} {answer : Answer F}
    (hanswer : answers history since answer = true)
    (h : readRoster config answer = .ok (some (.roster observed))) :
    Known history config observed := by
  rcases readRoster_eq_some h with ⟨object, rfl, hdecode⟩
  have hmem : some object ∈ history.since since := List.contains_iff_mem.mp hanswer
  exact known_of_decode (History.mem_of_mem_since hmem) hdecode

theorem foreign_of_readRoster {since : Nat} {answer : Answer F} {foreign : Foreign}
    (hanswer : answers history since answer = true)
    (h : readRoster config answer = .ok (some (.foreign foreign))) :
    ∃ object, some object ∈ history ∧ object.version = foreign.version ∧
      ForeignTo config object := by
  rcases readRoster_eq_some h with ⟨object, rfl, hdecode⟩
  have hmem : some object ∈ history.since since := List.contains_iff_mem.mp hanswer
  exact ⟨object, History.mem_of_mem_since hmem, decode_eq_foreign hdecode⟩

theorem Emits.sound (h : Emits history process move request)
    (hcustody : Custody (Known history config) (Sent requests config) config process.worker
      process.phase) :
    request.Sound history requests ∧ request.roster.holder = config.invocationId ∧
      request.roster.policy = .new config := by
  have hconfig := hcustody.config
  have hedit : ∀ {purpose : Purpose} {observed : Observed F} {roster : Roster F},
      Known history config observed → Edits config purpose observed.roster roster →
      roster.holder = config.invocationId ∧ roster.policy = .new config := by
    intro purpose observed roster hknown hedits
    exact ⟨hedits.succeeds.holder, hedits.succeeds.policy.trans hknown.1⟩
  cases h with
  | @found since answer clock nonces previous roster hanswer hprevious hfound =>
    rw [hconfig] at hprevious
    unfold Worker.found at hfound
    rw [hconfig] at hfound
    cases hnow : millis (clock 0) with
    | error e =>
      rw [hnow] at hfound
      cases hfound
    | ok now =>
      rw [hnow] at hfound
      have hroster := Roster.found_eq_ok hfound
      refine ⟨.found hfound ?_, by rw [hroster]; rfl, by rw [hroster]; rfl⟩
      rintro version rfl
      rcases hprevious with ⟨-, hnone⟩ | ⟨foreign, hforeign, hversion⟩
      · cases hnone
      · rw [Option.some.inj hversion]
        exact foreign_of_readRoster hanswer hforeign
  | claim hanswer hread hclaim =>
    rw [hconfig] at hread hclaim
    have hknown := known_of_readRoster hanswer hread
    exact ⟨.edit hknown (.claim hclaim) (by simp), hedit hknown (.claim hclaim)⟩
  | reserve hanswer hread _ hreserve =>
    rw [hconfig] at hread hreserve ⊢
    have hknown := known_of_readRoster hanswer hread
    exact ⟨.edit hknown (.reserve hreserve) (by simp), hedit hknown (.reserve hreserve)⟩
  | @publish now window finished reserved census profilers clock nonces roster hphase _ hpublish =>
    rw [hconfig] at hpublish
    have hobserving := hcustody.phase
    rw [hphase] at hobserving
    rcases hobserving with ⟨hknown, -, -, request, hmem, hroster, hserves⟩
    refine ⟨.edit hknown (.publish hpublish) ?_, hedit hknown (.publish hpublish)⟩
    rintro window' ⟨⟩
    exact ⟨now, request, hmem, Write.purpose_of_reservation hserves, hroster⟩
  | release hleader hrelease =>
    rw [hconfig] at hrelease
    have hknown := (hcustody.remembers.leading _ hleader).1
    exact ⟨.edit hknown (.release hrelease) (by simp), hedit hknown (.release hrelease)⟩

theorem custody_of_pollTurn {polled : Process F} (h : process.pollTurn history move = some polled)
    (hcustody : Custody (Known history config) (Sent requests config) config process.worker
      process.phase) :
    Custody (Known history config) (Sent requests config) config polled.worker polled.phase := by
  unfold Process.pollTurn at h
  split at h
  · rcases Option.ite_none_right_eq_some.mp h with ⟨-, hpolled⟩
    rw [← Option.some.inj hpolled]
    exact hcustody
  · rename_i index answer
    rcases Option.bind_eq_some_iff.mp h with ⟨since, -, hread⟩
    rcases Option.ite_none_right_eq_some.mp hread with ⟨hanswer, hdone⟩
    dsimp only at hdone
    split at hdone
    · rw [← Option.some.inj hdone]
      exact hcustody
    · rename_i incoming hincoming
      rw [← Option.some.inj hdone]
      refine ⟨hcustody.config, hcustody.remembers.publish ?_, hcustody.phase⟩
      rintro observed rfl
      rw [hcustody.config] at hincoming
      exact known_of_readRoster hanswer hincoming
  · cases h

theorem phase_of_pollTurn {polled : Process F}
    (h : process.pollTurn history move = some polled) : polled.phase = process.phase := by
  unfold Process.pollTurn at h
  split at h
  · rcases Option.ite_none_right_eq_some.mp h with ⟨-, hpolled⟩
    rw [← Option.some.inj hpolled]
  · rcases Option.bind_eq_some_iff.mp h with ⟨since, -, hread⟩
    rcases Option.ite_none_right_eq_some.mp hread with ⟨-, hdone⟩
    dsimp only at hdone
    split at hdone <;> rw [← Option.some.inj hdone]
  · cases h

end Process

namespace Fleet

/-- Every step there is. -/
inductive Steps (fleet : Fleet F) : Event F → Fleet F → Prop
  | start {index uncertainty : Nat} {config : Config} :
      Steps fleet (.start index config uncertainty)
        (fleet.put index (.start config uncertainty fleet.history.length))
  | polled {index : Nat} {move : Move F} {process polled : Process F} :
      fleet.processes index = some process →
      process.pollTurn fleet.history move = some polled →
      Steps fleet (.move index move) (fleet.put index polled)
  | silent {index : Nat} {move : Move F} {process : Process F} {turn : Turn F} :
      fleet.processes index = some process → process.turn fleet.history move = some turn →
      turn.issued = none →
      Steps fleet (.move index move)
        (fleet.put index { process with worker := turn.worker, phase := turn.phase })
  | issued {index : Nat} {move : Move F} {process : Process F} {turn : Turn F}
      {request : Request F} :
      fleet.processes index = some process → process.turn fleet.history move = some turn →
      turn.issued = some request → fleet.fresh request.roster.revision = true →
      Steps fleet (.move index move)
        { fleet.put index { process with worker := turn.worker, phase := turn.phase } with
          requests := request :: fleet.requests }
  | commit {index : Nat} {version : VersionToken} {modifiedAt : SystemTime}
      {request : Request F} :
      request ∈ fleet.requests → request.put.condition.met fleet.history.current = true →
      fleet.history.identifies version request.put.body = true →
      Steps fleet (.commit index version modifiedAt)
        { fleet with
          commits := ⟨request, fleet.history.current, ⟨request.put.body, version, modifiedAt⟩⟩ ::
            fleet.commits }

theorem steps_of_step {fleet next : Fleet F} {event : Event F} (h : fleet.step event = some next) :
    Steps fleet event next := by
  cases event with
  | start index config uncertainty =>
    simp only [step] at h
    split at h
    · cases h
    · rw [← Option.some.inj h]
      exact .start
  | move index move =>
    rcases Option.bind_eq_some_iff.mp h with ⟨process, hprocess, hact⟩
    unfold act at hact
    split at hact
    · rename_i polled hpolled
      rw [← Option.some.inj hact]
      exact .polled hprocess hpolled
    · rcases Option.bind_eq_some_iff.mp hact with ⟨turn, hturn, hissue⟩
      cases hissued : turn.issued with
      | none =>
        rw [hissued] at hissue
        rw [← Option.some.inj hissue]
        exact .silent hprocess hturn hissued
      | some request =>
        rw [hissued] at hissue
        rcases Option.ite_none_right_eq_some.mp hissue with ⟨hfresh, hnext⟩
        rw [← Option.some.inj hnext]
        exact .issued hprocess hturn hissued hfresh
  | commit index version modifiedAt =>
    rcases Option.bind_eq_some_iff.mp h with ⟨request, hrequest, hcommit⟩
    rcases Option.ite_none_right_eq_some.mp hcommit with ⟨⟨hmet, hident⟩, hnext⟩
    rw [← Option.some.inj hnext]
    exact .commit (List.mem_of_getElem? hrequest) hmet hident

/-- Every write is told apart by its revision, and the object has been what the
writes made of it. -/
structure Records (fleet : Fleet F) : Prop where
  grown : Grown (fleet.requests.map Request.put) fleet.first fleet.history
  revisions : (fleet.requests.map fun request => request.roster.revision).Nodup
  unused : ∀ object roster, fleet.first = some object → object.body = .roster roster →
    ∀ request ∈ fleet.requests, roster.revision ≠ request.roster.revision

namespace Records

variable {fleet : Fleet F}

section

omit [Outside F]

theorem eq_of_revision (h : fleet.Records) {r₁ r₂ : Request F} (h₁ : r₁ ∈ fleet.requests)
    (h₂ : r₂ ∈ fleet.requests) (hrevision : r₁.roster.revision = r₂.roster.revision) :
    r₁ = r₂ :=
  List.inj_on_of_nodup_map h.revisions h₁ h₂ hrevision

theorem distinct (h : fleet.Records) : Distinct (fleet.requests.map Request.put) fleet.first := by
  refine ⟨?_, ?_, ?_⟩
  · simp only [List.mem_map, forall_exists_index, and_imp]
    rintro p r₁ h₁ rfl q r₂ h₂ rfl hbody
    have hroster : r₁.roster = r₂.roster := Body.roster.inj hbody
    rw [h.eq_of_revision h₁ h₂ (congrArg Roster.revision hroster)]
  · simp only [List.mem_map, forall_exists_index, and_imp]
    rintro p request hrequest rfl object hfirst hbody
    exact h.unused object request.roster hfirst hbody request hrequest rfl
  · simp only [List.mem_map, forall_exists_index, and_imp]
    rintro p request - rfl
    cases hprevious : request.previous <;> simp [Request.put, hprevious]

theorem roster_of_revision (h : fleet.Records) {object : Object F} {roster : Roster F}
    (hmem : some object ∈ fleet.history) (hbody : object.body = .roster roster)
    (hrequest : request ∈ fleet.requests) (hrevision : roster.revision = request.roster.revision) :
    roster = request.roster := by
  rcases h.grown.written hmem with hfirst | ⟨put, hput, hputBody, -⟩
  · exact absurd hrevision (h.unused object roster hfirst hbody request hrequest)
  · rcases List.mem_map.mp hput with ⟨writer, hwriter, rfl⟩
    have hroster : writer.roster = roster := Body.roster.inj (hputBody.trans hbody)
    rw [← hroster] at hrevision ⊢
    rw [h.eq_of_revision hwriter hrequest hrevision]

end

theorem sources (h : fleet.Records) (config : Config) :
    Process.Sources fleet.history config (Known fleet.history config)
      (Sent fleet.requests config) where
  read _ _ := Process.known_of_decode
  acknowledged := by
    intro write object now hmem roster hbody hsent
    exact ⟨hsent.2.1, object, hmem, hbody, rfl⟩
  holder _ _ hsent := hsent.1
  revision := by
    rintro write roster observed ⟨-, -, request, hrequest, rfl, -⟩ ⟨-, object, hmem, hbody, -⟩
    exact h.roster_of_revision hmem hbody hrequest

end Records

/-- What holds of every fleet that processes have made. -/
structure Ledger (fleet : Fleet F) : Prop extends Records fleet where
  sound : ∀ request ∈ fleet.requests, request.Sound fleet.history fleet.requests
  chain : Chain fleet.requests fleet.first fleet.commits
  custody : ∀ index process, fleet.processes index = some process →
    Custody (Known fleet.history process.worker.config)
      (Sent fleet.requests process.worker.config) process.worker.config process.worker
      process.phase

omit [Outside F] [DecidableEq F] in
theorem put_eq_some {fleet : Fleet F} {index other : Nat} {process found : Process F}
    (h : (fleet.put index process).processes other = some found) :
    other = index ∧ found = process ∨ fleet.processes other = some found := by
  simp only [put, Function.update_apply] at h
  split_ifs at h with hindex
  · exact .inl ⟨hindex, (Option.some.inj h).symm⟩
  · exact .inr h

namespace Ledger

variable {fleet next : Fleet F} {event : Event F}

theorem empty (first : Option (Object F)) : (Fleet.empty first).Ledger where
  grown := .start
  revisions := .nil
  unused := by simp [Fleet.empty]
  sound := by simp [Fleet.empty]
  chain := .nil
  custody := by simp [Fleet.empty]

theorem commit (h : fleet.Ledger) {request : Request F} (hrequest : request ∈ fleet.requests)
    (hmet : request.put.condition.met fleet.history.current = true) {version : VersionToken}
    (hident : fleet.history.identifies version request.put.body = true)
    (modifiedAt : SystemTime) :
    Ledger { fleet with
      commits := ⟨request, fleet.history.current, ⟨request.put.body, version, modifiedAt⟩⟩ ::
        fleet.commits } := by
  have hsub : ∀ held ∈ fleet.history,
      held ∈ some ⟨request.put.body, version, modifiedAt⟩ :: fleet.history :=
    fun _ => List.mem_cons_of_mem _
  refine ⟨⟨?_, h.revisions, h.unused⟩, ?_, ?_, ?_⟩
  · exact h.grown.commit version modifiedAt (List.mem_map_of_mem hrequest) hmet hident
  · intro r hr
    exact (h.sound r hr).mono hsub fun _ => id
  · exact h.chain.cons hrequest rfl rfl hmet
  · intro index process hprocess
    exact (h.custody index process hprocess).mono hsub fun _ => id

theorem put (h : fleet.Ledger) (index : Nat) {process : Process F}
    (hprocess : Custody (Known fleet.history process.worker.config)
      (Sent fleet.requests process.worker.config) process.worker.config process.worker
      process.phase) : (fleet.put index process).Ledger := by
  refine ⟨{ h with }, h.sound, h.chain, ?_⟩
  intro other found hfound
  rcases put_eq_some hfound with ⟨-, rfl⟩ | hold
  · exact hprocess
  · exact h.custody other found hold

omit [Outside F] [DecidableEq F] in
theorem fresh_iff {revision : String} : fleet.fresh revision = true ↔
    (∀ request ∈ fleet.requests, request.roster.revision ≠ revision) ∧
      ∀ object roster, fleet.first = some object → object.body = .roster roster →
        roster.revision ≠ revision := by
  unfold Fleet.fresh
  simp only [Bool.and_eq_true, List.all_eq_true, bne_iff_ne, ne_eq, Option.all_eq_true]
  refine and_congr_right fun _ => ⟨?_, ?_⟩
  · intro h object roster hfirst hbody
    have hobject := h object hfirst
    rw [hbody] at hobject
    exact bne_iff_ne.mp hobject
  · intro h object hfirst
    split
    · rename_i roster hbody
      exact bne_iff_ne.mpr (h object roster hfirst hbody)
    · rfl

theorem issue (h : fleet.Ledger) (hfresh : fleet.fresh request.roster.revision = true)
    (hsound : request.Sound fleet.history fleet.requests) :
    Ledger { fleet with requests := request :: fleet.requests } := by
  rcases fresh_iff.mp hfresh with ⟨hrequests, hfirst⟩
  have hsub : ∀ r ∈ fleet.requests, r ∈ request :: fleet.requests :=
    fun _ => List.mem_cons_of_mem _
  refine ⟨⟨?_, ?_, ?_⟩, ?_, h.chain.mono hsub, ?_⟩
  · apply h.grown.mono
    intro put hput
    exact List.mem_cons_of_mem _ hput
  · refine List.nodup_cons.mpr ⟨?_, h.revisions⟩
    simp only [List.mem_map, not_exists, not_and]
    exact hrequests
  · intro object roster hobject hbody r hr
    rcases List.mem_cons.mp hr with rfl | hold
    · exact hfirst object roster hobject hbody
    · exact h.unused object roster hobject hbody r hold
  · intro r hr
    rcases List.mem_cons.mp hr with rfl | hold
    · exact hsound.mono (fun _ => id) hsub
    · exact (h.sound r hold).mono (fun _ => id) hsub
  · intro index process hprocess
    exact (h.custody index process hprocess).mono (fun _ => id) hsub

omit [DecidableEq F] in
theorem custody_start (config : Config) (uncertainty since : Nat) :
    Custody (Known fleet.history config) (Sent fleet.requests config) config
      (Process.start (F := F) config uncertainty since).worker
      (Process.start (F := F) config uncertainty since).phase := by
  refine ⟨rfl, ⟨fun _ hcached => (nomatch hcached), fun _ hleader => nomatch hleader⟩, ?_⟩
  unfold Process.start
  dsimp only
  split_ifs <;> trivial

section

variable (h : fleet.Ledger)
include h

variable {process : Process F}

variable {index : Nat}

theorem silent (hprocess : fleet.processes index = some process) {move : Move F} {turn : Turn F}
    (hturn : process.turn fleet.history move = some turn) (hissued : turn.issued = none) :
    Worker.Kept (Known fleet.history process.worker.config)
      (Sent fleet.requests process.worker.config) process.worker turn := by
  have hcustody := h.custody _ _ hprocess
  apply (Process.turns_of_turn hturn).custody (h.sources _) hcustody.remembers hcustody.phase
  intro request hrequest
  rw [hissued] at hrequest
  cases hrequest

theorem issued
    (hprocess : fleet.processes index = some process) {move : Move F} {turn : Turn F}
    (hturn : process.turn fleet.history move = some turn) {request : Request F}
    (hissued : turn.issued = some request)
    (hfresh : fleet.fresh request.roster.revision = true) :
    Ledger { fleet with requests := request :: fleet.requests } ∧
      Worker.Kept (Known fleet.history process.worker.config)
        (Sent (request :: fleet.requests) process.worker.config) process.worker turn := by
  have hturns := Process.turns_of_turn hturn
  rcases (hturns.emits hissued).sound (h.custody _ _ hprocess) with ⟨hsound, hholder, hpolicy⟩
  have hnext := h.issue hfresh hsound
  have hcustody := hnext.custody _ _ hprocess
  refine ⟨hnext, hturns.custody (hnext.sources _) hcustody.remembers hcustody.phase ?_⟩
  intro other hother write hserves
  obtain rfl : request = other := Option.some.inj (hissued.symm.trans hother)
  exact ⟨hholder, hpolicy, request, List.mem_cons_self, rfl, hserves⟩

theorem step (hstep : fleet.step event = some next) : next.Ledger := by
  cases steps_of_step hstep with
  | start => exact h.put _ (custody_start _ _ _)
  | polled hprocess hpolled =>
    have hcustody := Process.custody_of_pollTurn hpolled (h.custody _ _ hprocess)
    apply h.put
    rw [hcustody.config]
    exact hcustody
  | silent hprocess hturn hissued =>
    have hcustody := h.silent hprocess hturn hissued
    apply h.put
    rw [hcustody.config]
    exact hcustody
  | issued hprocess hturn hissued hfresh =>
    rcases h.issued hprocess hturn hissued hfresh with ⟨hnext, hcustody⟩
    apply hnext.put
    rw [hcustody.config]
    exact hcustody
  | commit hrequest hmet hident => exact h.commit hrequest hmet hident _

theorem config_of_step (hstep : fleet.step event = some next)
    (hprocess : next.processes index = some process) :
    (∃ uncertainty, event = .start index process.worker.config uncertainty) ∨
      ∃ before, fleet.processes index = some before ∧
        process.worker.config = before.worker.config := by
  cases steps_of_step hstep with
  | @start started uncertainty config =>
    rcases put_eq_some hprocess with ⟨rfl, rfl⟩ | hold
    · exact .inl ⟨uncertainty, rfl⟩
    · exact .inr ⟨process, hold, rfl⟩
  | polled hbefore hpolled =>
    rcases put_eq_some hprocess with ⟨rfl, rfl⟩ | hold
    · exact .inr ⟨_, hbefore, (Process.custody_of_pollTurn hpolled (h.custody _ _ hbefore)).config⟩
    · exact .inr ⟨process, hold, rfl⟩
  | silent hbefore hturn hissued =>
    rcases put_eq_some hprocess with ⟨rfl, rfl⟩ | hold
    · exact .inr ⟨_, hbefore, (h.silent hbefore hturn hissued).config⟩
    · exact .inr ⟨process, hold, rfl⟩
  | issued hbefore hturn hissued hfresh =>
    rcases put_eq_some hprocess with ⟨rfl, rfl⟩ | hold
    · exact .inr ⟨_, hbefore, (h.issued hbefore hturn hissued hfresh).2.config⟩
    · exact .inr ⟨process, hold, rfl⟩
  | commit => exact .inr ⟨process, hprocess, rfl⟩

end

end Ledger

end Fleet

/-! ## What a write replaces -/

/-- The commit replaced the roster. -/
def Commit.Replaces (commit : Commit F) (before : Roster F) : Prop :=
  ∃ object, commit.replaced = some object ∧ object.body = .roster before

/-- What was stored by a commit's request was computed from what it replaced:
from nothing, where that is absent or another policy's, else by an edit of it. -/
inductive Commit.Computed (commit : Commit F) : Prop
  | found {config : Config} {now : Nat} {discarded revision : String} :
      commit.request.purpose = .found →
      Roster.found config now discarded revision = .ok commit.request.roster →
      (∀ object, commit.replaced = some object → ForeignTo config object) → Computed commit
  | edit {config : Config} {before : Roster F} :
      commit.Replaces before → before.policy = .new config →
      Edits config commit.request.purpose before commit.request.roster → Computed commit

variable {requests : List (Request F)}

variable {first : Option (Object F)}

omit [Outside F] [DecidableEq F] in
theorem Chain.of_mem
    (h : Chain requests first commits) {commit : Commit F} (hmem : commit ∈ commits) :
    commit.request ∈ requests ∧ commit.replaced ∈ historyOf first commits ∧
      commit.request.put.condition.met commit.replaced = true := by
  induction h with
  | nil => cases hmem
  | @cons newest commits _ hrequest hreplaced _ hmet ih =>
    rcases List.mem_cons.mp hmem with rfl | hold
    · refine ⟨hrequest, ?_, hmet⟩
      rw [hreplaced]
      cases commits with
      | nil | cons _ _ => simp [historyOf, History.current]
    · rcases ih hold with ⟨hrequest, hreplaced, hmet⟩
      exact ⟨hrequest, List.mem_cons_of_mem _ hreplaced, hmet⟩

omit [Outside F] [DecidableEq F] in
theorem Chain.body_of_mem
    (h : Chain requests first commits) {commit : Commit F} (hmem : commit ∈ commits) :
    commit.stored.body = .roster commit.request.roster := by
  induction h with
  | nil => cases hmem
  | cons _ _ _ hbody _ ih =>
    rcases List.mem_cons.mp hmem with rfl | hold
    · exact hbody
    · exact ih hold

namespace Fleet.Ledger

variable {fleet : Fleet F}

variable {commit : Commit F}

section

variable (h : fleet.Ledger) (hmem : commit ∈ fleet.commits)
include h hmem

theorem replaced_of_version {known : Object F} (hknown : some known ∈ fleet.history)
    (hprevious : commit.request.previous = some known.version) :
    ∃ object, commit.replaced = some object ∧ object.body = known.body := by
  rcases h.chain.of_mem hmem with ⟨-, hreplaced, hmet⟩
  simp only [Request.put, hprevious, Option.elim_some, Condition.met] at hmet
  rcases (Option.any_eq_true _ _).mp hmet with ⟨object, hobject, hversion⟩
  rw [hobject] at hreplaced
  exact ⟨object, hobject, h.grown.identified hreplaced hknown (eq_of_beq hversion)⟩

theorem computed : commit.Computed := by
  have hreplaced := h.chain.of_mem hmem
  rcases commit with ⟨request, replaced, stored⟩
  cases h.sound request hreplaced.1 with
  | @found config now discarded revision roster previous hfound hforeign =>
    refine .found rfl hfound ?_
    rintro object rfl
    cases previous with
    | none => exact absurd hreplaced.2.2 Bool.false_ne_true
    | some version =>
      rcases hforeign version rfl with ⟨known, hknown, rfl, hother⟩
      rcases h.replaced_of_version hmem hknown rfl with ⟨current, hcurrent, hbody⟩
      obtain rfl : object = current := Option.some.inj hcurrent
      intro roster hroster
      exact hother roster (hbody.symm.trans hroster)
  | @edit config purpose observed roster hknown hedits _ =>
    rcases hknown with ⟨hpolicy, known, hmemKnown, hknownBody, hversion⟩
    have hprevious : some observed.version = some known.version := by rw [hversion]
    rcases h.replaced_of_version hmem hmemKnown hprevious with ⟨object, hobject, hbody⟩
    exact .edit ⟨object, hobject, hbody.trans hknownBody⟩ hpolicy hedits

theorem reserved_of_published {window : Nat} (hpurpose : commit.request.purpose = .publish window) :
    ∃ now, ∃ request ∈ fleet.requests, request.purpose = .reserve now (some window) ∧
      commit.Replaces request.roster := by
  have hreplaced := h.chain.of_mem hmem
  rcases commit with ⟨request, replaced, stored⟩
  cases h.sound request hreplaced.1 with
  | found => cases hpurpose
  | @edit config purpose observed roster hknown _ hreserved =>
    rcases hreserved window hpurpose with ⟨now, reserved, hrequest, hreserves, hroster⟩
    rcases hknown with ⟨-, known, hmemKnown, hknownBody, hversion⟩
    have hprevious : some observed.version = some known.version := by rw [hversion]
    rcases h.replaced_of_version hmem hmemKnown hprevious with ⟨object, hobject, hbody⟩
    refine ⟨now, reserved, hrequest, hreserves, object, hobject, ?_⟩
    rw [hroster]
    exact hbody.trans hknownBody

end

end Fleet.Ledger

end Dial9.Sampling
