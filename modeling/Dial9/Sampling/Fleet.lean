/-
# The fleet

Any number of processes over one conditional store. A write takes effect at any
time after it was issued, whatever its process has made of it in the meantime,
and a read may be answered late. Of the store it is assumed that a version
identifies a body, and of `nonce` that a revision is drawn once.
-/

import Dial9.Lib.Run
import Dial9.Sampling.Process

namespace Dial9.Sampling

open Dial9.Lib

variable {F : Type} [Outside F] [DecidableEq F]

/-- A write that took effect: what it replaced and what it stored. -/
structure Commit (F : Type) where
  request : Request F
  replaced : Option (Object F)
  stored : Object F

/-- The processes, what was stored before the first of them, and every write
that was issued and that took effect, newest first. -/
structure Fleet (F : Type) where
  first : Option (Object F)
  commits : List (Commit F)
  requests : List (Request F)
  processes : Nat → Option (Process F)

/-- Everything the roster's object has been. -/
def historyOf (first : Option (Object F)) (commits : List (Commit F)) :
    History VersionToken (Body F) SystemTime :=
  commits.map (fun commit => some commit.stored) ++ [first]

inductive Event (F : Type) [Outside F]
  | start (index : Nat) (config : Config) (uncertainty : Nat)
  | move (index : Nat) (move : Move F)
  /-- An issued write takes effect. -/
  | commit (index : Nat) (version : VersionToken) (modifiedAt : SystemTime)

namespace Fleet

/-- Before any process. -/
def empty (first : Option (Object F)) : Fleet F := ⟨first, [], [], fun _ => none⟩

def history (fleet : Fleet F) : History VersionToken (Body F) SystemTime :=
  historyOf fleet.first fleet.commits

/-- No roster has the revision yet. -/
def fresh (fleet : Fleet F) (revision : String) : Bool :=
  (fleet.requests.all fun request => request.roster.revision != revision) &&
    fleet.first.all fun object =>
      match object.body with
      | .roster roster => roster.revision != revision
      | _ => true

/-- Replace one process. -/
def put (fleet : Fleet F) (index : Nat) (process : Process F) : Fleet F :=
  { fleet with processes := Function.update fleet.processes index (some process) }

/-- Note what a turn has issued. -/
def issue (fleet : Fleet F) : Option (Request F) → Option (Fleet F)
  | none => some fleet
  | some request =>
    if fleet.fresh request.roster.revision then
      some { fleet with requests := request :: fleet.requests }
    else none

/-- A move of one process: the driver's, or a turn of the worker. -/
def act (fleet : Fleet F) (index : Nat) (move : Move F) (process : Process F) : Option (Fleet F) :=
  match process.pollTurn fleet.history move with
  | some polled => some (fleet.put index polled)
  | none =>
    (process.turn fleet.history move).bind fun turn =>
      (fleet.put index { process with worker := turn.worker, phase := turn.phase }).issue
        turn.issued

def step (fleet : Fleet F) : Event F → Option (Fleet F)
  | .start index config uncertainty =>
    match fleet.processes index with
    | some _ => none
    | none => some (fleet.put index (.start config uncertainty fleet.history.length))
  | .move index move => (fleet.processes index).bind fun process => fleet.act index move process
  | .commit index version modifiedAt =>
    fleet.requests[index]?.bind fun request =>
      if request.put.condition.met fleet.history.current ∧
          fleet.history.identifies version request.put.body then
        some { fleet with
          commits :=
            ⟨request, fleet.history.current, ⟨request.put.body, version, modifiedAt⟩⟩ ::
              fleet.commits }
      else none

end Fleet

end Dial9.Sampling
