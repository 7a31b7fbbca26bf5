/-
# The turns of a sampling process

`prepare_using`, `create_roster`, `run_checked`, `election`, `leader_pass` and
`release`, each from one await to the next. What a process waits for may come
late or not at all, the session may be stopped at any await, and the process may
die at any time. A turn issues at most one write.
-/

import Dial9.Sampling.Worker

namespace Dial9.Sampling

open Dial9.Lib

variable {F : Type}

/-! ## Where a process waits -/

/-- The reads a process waits for. -/
inductive Read (F : Type)
  | startup
  /-- `election`'s read after its back-off, with the time before it. -/
  | election (now : SystemTime)
  /-- The read that opens a pass, with the lease that was held. -/
  | pass (previous : Observed F)

/-- The writes a process waits for. -/
inductive Write
  | creation
  | election
  | reservation (now : Nat) (window : Option Nat)
  | publication
  | release

inductive Phase (F : Type)
  | reading (read : Read F) (since : Nat)
  | replacing (write : Write) (call : Call F)
  | idle
  /-- Woken by a change of the cache. -/
  | noticed
  | backingOff
  | elected
  /-- The censuses of a pass that began at a time are being listed. -/
  | observing (now window : Nat) (reserved : Observed F)
  | passed
  | ending
  | stopped

/-- A write of a pass or its read: what `leader_pass` bounds by the poll interval. -/
def Phase.inPass : Phase F → Bool
  | .reading (.pass _) _ => true
  | .replacing (.reservation ..) _ => true
  | .replacing .publication _ => true
  | .observing .. => true
  | _ => false

/-- The awaits of `run`, at which the session can be stopped. -/
def Phase.awaits : Phase F → Bool
  | .idle => true
  | .backingOff => true
  | .reading (.election _) _ => true
  | .replacing .election _ => true
  | phase => phase.inPass

/-- The session is up: the driver polls beside the worker. -/
def Phase.launched : Phase F → Bool
  | .reading .startup _ => false
  | .replacing .creation _ => false
  | .stopped => false
  | _ => true

/-- The maintenance task of one process, with the polls it has under way. -/
structure Process (F : Type) where
  worker : Worker F
  phase : Phase F
  polls : List Nat

/-- The outcome of a turn. -/
structure Turn (F : Type) where
  worker : Worker F
  phase : Phase F
  issued : Option (Request F)

/-- The nonces of a turn. -/
structure Nonces (F : Type) [Outside F] where
  revision : Nonce F
  /-- The revision of `Roster::initial`, which `mutate` overwrites. -/
  discarded : Nonce F
  salt : Nonce F

namespace Worker

def goTo (worker : Worker F) (phase : Phase F) : Turn F := ⟨worker, phase, none⟩

/-- An error in an election or a pass costs the lease. -/
def lose (worker : Worker F) (phase : Phase F) : Turn F := goTo { worker with leader := none } phase

/-- Write an edited roster, unless the edit failed. -/
def write (worker : Worker F) (failed : Turn F) (write : Write) (purpose : Purpose)
    (basis : Option (Observed F)) (previous : Option VersionToken)
    (edited : Except StoreError (Roster F)) : Turn F :=
  match edited with
  | .error _ => failed
  | .ok roster =>
    ⟨worker, .replacing write ⟨roster, .putting⟩, some ⟨purpose, basis, previous, roster⟩⟩

/-- The rest of `prepare_using`: the worker and the driver are made, or sampling
is disabled. -/
def launch (worker : Worker F) (observed : Option (Observed F)) (foreign : Option Foreign)
    (authoritative : Bool) (clock : Clock) : Turn F :=
  match new worker.config worker.uncertainty observed foreign authoritative clock,
      millis (clock 3) with
  | .ok launched, .ok _ => launched.goTo .idle
  | _, _ => worker.goTo .stopped

variable [Outside F]

/-- `Roster::created` and `mutate`, where nothing can be built on. -/
def found (worker : Worker F) (now : SystemTime) (nonces : Nonces F) :
    Except StoreError (Roster F) :=
  (millis now).bind fun nowMs =>
    Roster.found worker.config nowMs nonces.discarded.val nonces.revision.val

/-- `prepare_using` after its read. Whatever goes wrong in `create_roster`, the
roster was missing for all this process knows. -/
def prepared (worker : Worker F) (answer : Answer F) (clock : Clock) (nonces : Nonces F) : Turn F :=
  match answer with
  | .error _ => worker.launch none none false clock
  | .ok none =>
    worker.write (worker.launch none none true (clock.later 1)) .creation .found none none
      (worker.found (clock 0) nonces)
  | .ok (some object) =>
    match decode object worker.config with
    | .error _ => worker.launch none none false clock
    | .ok (.foreign foreign) => worker.launch none (some foreign) true clock
    | .ok (.roster observed) =>
      worker.launch (some observed) none (millis (clock 0)).isOk (clock.later 1)

/-- The head of the loop of `run_checked`, up to `election`'s back-off. -/
def loop (worker : Worker F) (clock : Clock) : Turn F :=
  match millis (clock 0) with
  | .error _ => worker.goTo .ending
  | .ok _ =>
    let consumed := worker.consumeCache (clock.later 1)
    if consumed.electionNeeded then
      goTo { consumed with electionNeeded := false } .backingOff
    else consumed.goTo .elected

/-- `election` after its read. -/
def elect (worker : Worker F) (now : SystemTime) (answer : Answer F) (clock : Clock)
    (nonces : Nonces F) : Turn F :=
  let failed := worker.lose .elected
  match readRoster worker.config answer with
  | .error _ => failed
  | .ok none => worker.write failed .election .found none none (worker.found (clock 0) nonces)
  | .ok (some (.foreign foreign)) =>
    if worker.lapsed foreign now then
      worker.write failed .election .found none (some foreign.version)
        (worker.found (clock 0) nonces)
    else (worker.learn (some (.foreign foreign)) clock).goTo .elected
  | .ok (some (.roster observed)) =>
    if worker.claimable observed now then
      worker.write failed .election .claim (some observed) (some observed.version)
        (observed.roster.claim worker.config nonces.revision.val)
    else (worker.learn (some (.roster observed)) clock).goTo .elected

/-- The end of the loop of `run_checked`, up to its sleep. -/
def rest (worker : Worker F) (now : SystemTime) : Turn F :=
  match millis now with
  | .error _ => worker.goTo .ending
  | .ok _ => worker.goTo .idle

/-- `run_checked` after `election`: a leader whose time has come makes a pass. -/
def proceed (worker : Worker F) (since : Nat) (clock : Clock) : Turn F :=
  match worker.leader with
  | none => worker.rest (clock 0)
  | some leader =>
    match millis (clock 0) with
    | .error _ => worker.goTo .ending
    | .ok now =>
      if worker.nextPassMs ≤ now then
        goTo { worker with leader := none } (.reading (.pass leader) since)
      else worker.rest (clock 1)

/-- `leader_pass_inner` after its read: the roster must be the one the lease was
granted with. -/
def reserve (worker : Worker F) (previous : Observed F) (answer : Answer F) (clock : Clock)
    (nonces : Nonces F) : Turn F :=
  let failed := worker.lose .passed
  match readRoster worker.config answer with
  | .error _ => failed
  | .ok (some (.roster current)) =>
    if current.version ≠ previous.version ∨ ¬worker.holds current then
      (worker.learn (some (.roster current)) clock).goTo .passed
    else
      match millis (clock 0) with
      | .error _ => failed
      | .ok now =>
        let window := current.roster.assess worker.config now
        worker.write failed (.reservation now window) (.reserve now window) (some current)
          (some current.version)
          (current.roster.reserve worker.config now nonces.revision.val)
  | .ok other => (worker.learn other clock).goTo .passed

/-- `leader_pass_inner` after both censuses. -/
def publish (worker : Worker F) (window : Nat) (reserved : Observed F)
    (census profilers : Except StoreError (Sample F)) (clock : Clock) (nonces : Nonces F) :
    Turn F :=
  match millis (clock 0) with
  | .error _ => worker.lose .passed
  | .ok finished =>
    worker.write (worker.lose .passed) .publication (.publish window) (some reserved)
      (some reserved.version)
      (reserved.roster.publish worker.config window finished census profilers nonces.revision.val
        nonces.salt.val)

/-- `next_pass_ms` after a pass: the next close of a window, or the next poll. -/
def schedule (worker : Worker F) (now : Nat) : Nat :=
  let timing := Timing.new worker.config
  let close := now / timing.width * timing.width + timing.closure
  min (if now < close then close else saturatingAdd close timing.width)
    (saturatingAdd now worker.config.pollInterval)

/-- `run_checked` after a pass. -/
def reschedule (worker : Worker F) (clock : Clock) : Turn F :=
  match millis (clock 0) with
  | .error _ => worker.goTo .ending
  | .ok now => rest { worker with nextPassMs := worker.schedule now } (clock 1)

/-- `release`. -/
def release (worker : Worker F) (nonces : Nonces F) : Turn F :=
  let taken := { worker with leader := none }
  match worker.leader with
  | none => taken.goTo .stopped
  | some leader =>
    taken.write (taken.goTo .stopped) .release .release (some leader) (some leader.version)
      (leader.roster.release worker.config nonces.revision.val)

/-- What follows a `replace`, by what it was for. -/
def settle (worker : Worker F) (write : Write) (result : Except StoreError (Option (Decoded F)))
    (clock : Clock) : Turn F :=
  let (noted, outcome) := worker.replaced result
  match write with
  | .creation =>
    match result with
    | .ok (some (.roster claimed)) => worker.launch (some claimed) none true clock
    | .ok (some (.foreign foreign)) => worker.launch none (some foreign) true clock
    | _ => worker.launch none none true clock
  | .election =>
    match outcome with
    | .ok (some claimed) =>
      let leading := learn { noted with leader := some claimed } (some (.roster claimed)) clock
      match millis (clock 2) with
      | .error _ => leading.lose .elected
      | .ok now => goTo { leading with nextPassMs := now } .elected
    | _ => noted.lose .elected
  | .reservation now window =>
    match outcome with
    | .error _ => noted.lose .passed
    | .ok none => noted.goTo .passed
    | .ok (some reserved) =>
      let leading := learn { noted with leader := some reserved } (some (.roster reserved)) clock
      match window with
      | none => leading.goTo .passed
      | some window => leading.goTo (.observing now window reserved)
  | .publication =>
    match outcome with
    | .ok (some published) =>
      (learn { noted with leader := some published } (some (.roster published)) clock).goTo
        .passed
    | _ => noted.lose .passed
  | .release => noted.goTo .stopped

/-- A deadline passes: the one of the startup, or the one of a pass. -/
def expire (worker : Worker F) (clock : Clock) : Phase F → Option (Turn F)
  | .reading .startup _ => some (worker.launch none none false clock)
  | .replacing .creation _ => some (worker.launch none none true clock)
  | phase => if phase.inPass then some (worker.lose .passed) else none

end Worker

/-! ## Moves -/

/-- What can happen to a process, with what it depends on. -/
inductive Move (F : Type) [Outside F]
  /-- A read is answered. -/
  | got (answer : Answer F) (clock : Clock) (nonces : Nonces F)
  /-- A write is answered. -/
  | put (answer : PutAnswer) (clock : Clock)
  | expired (clock : Clock)
  /-- The loop starts over, after its sleep or a change it has consumed. -/
  | wake (clock : Clock)
  /-- The cache has changed. -/
  | notice (clock : Clock)
  | slept (clock : Clock)
  | proceed (clock : Clock)
  | censused (census profilers : Except StoreError (Sample F)) (clock : Clock) (nonces : Nonces F)
  | reschedule (clock : Clock)
  /-- The session is stopped, or a task of it ended. -/
  | stop
  | release (nonces : Nonces F)
  /-- The process dies. -/
  | die
  /-- The driver reads the roster, and is answered. -/
  | poll
  | polled (index : Nat) (answer : Answer F)

namespace Process

variable [Outside F] [DecidableEq F]

/-- The answer is an error or something the object was since the read was issued. -/
def answers (history : History VersionToken (Body F) SystemTime) (since : Nat) :
    Answer F → Bool
  | .error _ => true
  | .ok held => (history.since since).contains held

/-- A write is acknowledged only once it has taken effect. -/
def acknowledges (history : History VersionToken (Body F) SystemTime) (roster : Roster F) :
    PutAnswer → Bool
  | .stored version => history.any fun held => held.any fun object =>
    object.version == version && object.body == .roster roster
  | _ => true

/-- A read is answered. -/
def got (process : Process F) (history : History VersionToken (Body F) SystemTime)
    (answer : Answer F) (clock : Clock) (nonces : Nonces F) : Option (Turn F) :=
  match process.phase with
  | .reading read since =>
    if answers history since answer then
      match read with
      | .startup => some (process.worker.prepared answer clock nonces)
      | .election now => some (process.worker.elect now answer clock nonces)
      | .pass previous => some (process.worker.reserve previous answer clock nonces)
    else none
  | .replacing write ⟨roster, .reconciling error since⟩ =>
    if answers history since answer then
      some (process.worker.settle write
        (Call.reconciled ⟨roster, .reconciling error since⟩ process.worker.config error answer)
        clock)
    else none
  | _ => none

/-- A write is answered. -/
def put (process : Process F) (history : History VersionToken (Body F) SystemTime)
    (answer : PutAnswer) (clock : Clock) : Option (Turn F) :=
  match process.phase with
  | .replacing write ⟨roster, .putting⟩ =>
    if acknowledges history roster answer then
      match Call.written ⟨roster, .putting⟩ history.length (clock 0) answer with
      | .waiting call => some (process.worker.goTo (.replacing write call))
      | .finished result => some (process.worker.settle write result (clock.later 1))
    else none
  | _ => none

/-- A turn of the maintenance task. -/
def turn (process : Process F) (history : History VersionToken (Body F) SystemTime) :
    Move F → Option (Turn F)
  | .got answer clock nonces => process.got history answer clock nonces
  | .put answer clock => process.put history answer clock
  | .expired clock => process.worker.expire clock process.phase
  | .wake clock =>
    match process.phase with
    | .idle | .noticed => some (process.worker.loop clock)
    | _ => none
  | .notice clock =>
    match process.phase with
    | .idle => some ((process.worker.consumeCache clock).goTo .noticed)
    | _ => none
  | .slept clock =>
    match process.phase with
    | .backingOff =>
      some (process.worker.goTo (.reading (.election (clock 0)) history.length))
    | _ => none
  | .proceed clock =>
    match process.phase with
    | .elected => some (process.worker.proceed history.length clock)
    | _ => none
  | .censused census profilers clock nonces =>
    match process.phase with
    | .observing _ window reserved =>
      some (process.worker.publish window reserved census profilers clock nonces)
    | _ => none
  | .reschedule clock =>
    match process.phase with
    | .passed => some (process.worker.reschedule clock)
    | _ => none
  | .stop => if process.phase.awaits then some (process.worker.goTo .ending) else none
  | .release nonces =>
    match process.phase with
    | .ending => some (process.worker.release nonces)
    | _ => none
  | .die => some (process.worker.goTo .stopped)
  | .poll | .polled .. => none

/-- What the driver's polls do: the cache learns what they read. -/
def pollTurn (process : Process F) (history : History VersionToken (Body F) SystemTime) :
    Move F → Option (Process F)
  | .poll =>
    if process.phase.launched then
      some { process with polls := history.length :: process.polls }
    else none
  | .polled index answer =>
    process.polls[index]?.bind fun since =>
      if answers history since answer then
        let finished := { process with polls := process.polls.eraseIdx index }
        match readRoster process.worker.config answer with
        | .error _ => some finished
        | .ok incoming =>
          some { finished with
            worker := { process.worker with
              cache := process.worker.cache.publish incoming } }
      else none
  | _ => none

/-- `prepare_using` up to its read, unless the configuration disables sampling. -/
def start (config : Config) (uncertainty since : Nat) : Process F where
  worker := ⟨config, uncertainty, none, ⟨none, none⟩, 0, false⟩
  phase :=
    if (config.validate F).isOk && config.target != 0 then .reading .startup since else .stopped
  polls := []

end Process

end Dial9.Sampling
