/-
# The maintenance task of a sampling process

A process prepares itself from the stored roster, creates one if there is none,
and then maintains it: it watches the lease, stands for election when the lease
is free, and while it leads makes passes over the completed windows. Every write
of the roster goes through `replace`, which reads back what it cannot be sure
of. The task is cut at its awaits: a turn runs from one to the next, and each
call of the clock in a turn has a reading of its own.
-/

import Dial9.Lib.CasStore
import Dial9.Sampling.Cache

namespace Dial9.Sampling

open Dial9.Lib

variable {F : Type}

/-! ## Stored rosters -/

/-- What is stored under the roster's key, by what a reader makes of it. A body
of another schema is not read beyond its schema, and one that is no roster at
all has the parser's complaint. -/
inductive Body (F : Type)
  | roster (roster : Roster F)
  | alien (bytes : List UInt8)
  | garbage (bytes : List UInt8) (complaint : String)
  deriving DecidableEq

/-- `StoredObject`. -/
abbrev Object (F : Type) := Stored VersionToken (Body F) SystemTime

/-- What a read of the roster comes back with. -/
abbrev Answer (F : Type) := Except StoreError (Option (Object F))

/-- `decode`. -/
def decode [Outside F] (object : Object F) (config : Config) : Except StoreError (Decoded F) :=
  match object.body with
  | .garbage _ complaint => .error (invalid complaint)
  | .alien _ => .ok (.foreign ⟨object.version, object.modifiedAt⟩)
  | .roster roster =>
    if roster.policy ≠ .new config then .ok (.foreign ⟨object.version, object.modifiedAt⟩)
    else roster.validate.map fun _ => .roster ⟨roster, object.version, object.modifiedAt⟩

/-- `read_roster`, once the store has answered. -/
def readRoster [Outside F] (config : Config) (answer : Answer F) :
    Except StoreError (Option (Decoded F)) :=
  answer.bind fun held =>
    match held with
    | none => .ok none
    | some object => (decode object config).map some

/-- The readings of the clock in one turn, in the order of the calls. -/
abbrev Clock := Nat → SystemTime

/-- The readings that are left after some calls. -/
def Clock.later (clock : Clock) (calls : Nat) : Clock := fun call => clock (call + calls)

/-- What `nonce` draws: always a ULID. -/
abbrev Nonce (F : Type) [Outside F] := { text : String // Outside.isUlid F text = true }

/-! ## Requests -/

/-- What a write of the roster is for. -/
inductive Purpose
  /-- A roster where there is none that the process can build on. -/
  | found
  | claim
  /-- The first write of a pass, with the time the pass began and the window it
  is going to assess. -/
  | reserve (now : Nat) (window : Option Nat)
  /-- The second write of a pass. -/
  | publish (window : Nat)
  | release
  deriving DecidableEq

/-- A write of the roster: what it is for, the roster it edits, the version it
replaces and what it writes. -/
structure Request (F : Type) where
  purpose : Purpose
  basis : Option (Observed F)
  previous : Option VersionToken
  roster : Roster F
  deriving DecidableEq

/-- `PutRequest`, as `replace` builds it. -/
def Request.put (request : Request F) : Lib.Put VersionToken (Body F) where
  body := .roster request.roster
  condition := request.previous.elim .absent .matching

/-- `PutOutcome`, or the error in its place. -/
inductive PutAnswer
  | stored (version : VersionToken)
  | preconditionFailed
  | failed (error : StoreError)
  deriving DecidableEq

/-! ## Replacing the roster -/

/-- Where `replace` waits: for its write, or for the read that reconciles it. -/
inductive Stage
  | putting
  | reconciling (error : StoreError) (since : Nat)

/-- A `replace` under way. -/
structure Call (F : Type) where
  roster : Roster F
  stage : Stage

/-- The errors that leave open whether the write took effect. -/
def StoreError.uncertain (error : StoreError) : Bool :=
  error.kind == .writeOutcomeUnknown || error.kind == .unavailable

/-- What becomes of a `replace`. -/
inductive Replaced (F : Type)
  | waiting (call : Call F)
  | finished (result : Except StoreError (Option (Decoded F)))

/-- `replace`, once its write is answered. The reading is the time it notes for
a write that was stored. -/
def Call.written (call : Call F) (since : Nat) (now : SystemTime) : PutAnswer → Replaced F
  | .stored version => .finished (.ok (some (.roster ⟨call.roster, version, now⟩)))
  | .preconditionFailed => .finished (.ok none)
  | .failed error =>
    if error.uncertain then .waiting { call with stage := .reconciling error since }
    else .finished (.error error)

/-- `replace`, once the read that reconciles its write is answered: only the
exact revision it wrote tells that the write took effect. -/
def Call.reconciled [Outside F] (call : Call F) (config : Config) (error : StoreError)
    (answer : Answer F) : Except StoreError (Option (Decoded F)) :=
  match readRoster config answer with
  | .error readError => .error readError
  | .ok none => .error error
  | .ok (some (.foreign foreign)) => .ok (some (.foreign foreign))
  | .ok (some (.roster observed)) =>
    if observed.roster.revision = call.roster.revision ∧
        observed.roster.holder = config.invocationId then
      .ok (some (.roster observed))
    else .ok none

/-! ## The worker -/

/-- `Worker`. The cache is shared with the tasks that poll the roster. -/
structure Worker (F : Type) where
  config : Config
  /-- `store.modification_time_uncertainty()`. -/
  uncertainty : Nat
  leader : Option (Observed F)
  cache : Cache F
  nextPassMs : Nat
  electionNeeded : Bool

namespace Worker

/-- The worker's lease test. -/
def lapsed (worker : Worker F) (foreign : Foreign) (now : SystemTime) : Bool :=
  leaseExpired foreign.modifiedAt worker.config worker.uncertainty now

def claimable (worker : Worker F) (observed : Observed F) (now : SystemTime) : Bool :=
  observed.claimable worker.config worker.uncertainty now

/-- The roster names this process. -/
def holds (worker : Worker F) (observed : Observed F) : Bool :=
  observed.roster.holder == worker.config.invocationId

/-- `Worker::new`. -/
def new (config : Config) (uncertainty : Nat) (observed : Option (Observed F))
    (foreign : Option Foreign) (authoritative : Bool) (clock : Clock) :
    Except StoreError (Worker F) :=
  (millis (clock 0)).map fun bornMs =>
    { config, uncertainty
      leader := observed.filter fun o => o.roster.holder == config.invocationId &&
        !o.claimable config uncertainty (clock 2)
      cache := ⟨observed, foreign⟩
      nextPassMs := bornMs
      electionNeeded := authoritative &&
        match foreign with
        | some f => leaseExpired f.modifiedAt config uncertainty (clock 1)
        | none => observed.all fun o => o.claimable config uncertainty (clock 1) }

/-- `consume_cache`. The lease is the worker's only while the cached roster is
the one it was granted with, and a roster in the cache that names the worker
grants it. -/
def consumeCache (worker : Worker F) (clock : Clock) : Worker F :=
  match worker.cache.foreign with
  | some foreign =>
    { worker with leader := none, electionNeeded := worker.lapsed foreign (clock 0) }
  | none =>
    let kept := worker.leader.filter fun leader =>
      worker.cache.observed.any fun current =>
        current.version == leader.version && worker.holds current
    let adopted := worker.cache.observed.filter fun current =>
      worker.holds current && !worker.claimable current (clock 0)
    { worker with
      leader := kept.or adopted
      electionNeeded := worker.cache.observed.all fun o => worker.claimable o (clock 1) }

/-- `learn`. -/
def learn (worker : Worker F) (incoming : Option (Decoded F)) (clock : Clock) : Worker F :=
  consumeCache { worker with cache := worker.cache.publish incoming } clock

/-- `Worker::replace`, once the free function has returned: another policy's
roster goes to the cache. -/
def replaced (worker : Worker F) (result : Except StoreError (Option (Decoded F))) :
    Worker F × Except StoreError (Option (Observed F)) :=
  match result with
  | .error error => (worker, .error error)
  | .ok none => (worker, .ok none)
  | .ok (some (.roster observed)) => (worker, .ok (some observed))
  | .ok (some (.foreign foreign)) =>
    ({ worker with cache := worker.cache.publish (some (.foreign foreign)) }, .ok none)

end Worker

end Dial9.Sampling
