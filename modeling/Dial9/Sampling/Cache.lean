/-
# What a process knows of the roster

A stored roster is read under the reader's own policy: one of another policy
has a lease and nothing else. A process keeps the latest roster it has read in
a cache that its tasks share. Reads can come back out of order, so the cache
takes a roster only if it is not older than the one it holds.
-/

import Dial9.Sampling.Roster
import Mathlib.Algebra.Order.Group.Int

namespace Dial9.Sampling

/-- `SystemTime`, in nanoseconds since the epoch. -/
abbrev SystemTime := Int

/-- `SystemTime::checked_add`: seconds are an `i64`. -/
def checkedAdd (time : SystemTime) (nanos : Nat) : Option SystemTime :=
  if time + nanos < 2 ^ 63 * 10 ^ 9 then some (time + nanos) else none

/-- `millis`. -/
def millis (time : SystemTime) : Except StoreError Nat :=
  if time < 0 then .error (invalid "second time provided was later than self")
  else if time.toNat / 10 ^ 6 ≤ u64Max then .ok (time.toNat / 10 ^ 6)
  else .error (invalid "out of range integral type conversion attempted")

theorem millis_eq_ok {time : Int} {ms : Nat} (h : millis time = .ok ms) :
    0 ≤ time ∧ ms = time.toNat / 1000000 ∧ ms ≤ u64Max := by
  unfold millis at h
  split_ifs at h with hneg hle
  obtain rfl := Except.ok.inj h
  exact ⟨not_lt.mp hneg, rfl, hle⟩

/-- Milliseconds as nanoseconds. -/
def nanos (ms : Nat) : Nat := ms * 10 ^ 6

/-- `lease_deadline`. The store's clock stamps the object, so the reader adds
its skew and what the store says of its own precision. -/
def leaseDeadline (modifiedAt : SystemTime) (config : Config) (uncertainty : Nat) :
    Option SystemTime :=
  (checkedAdd modifiedAt (nanos (config.pollInterval * 3))).bind fun t =>
    (checkedAdd t (nanos config.maxClockSkew)).bind fun t => checkedAdd t uncertainty

/-- `lease_expired`. -/
def leaseExpired (modifiedAt : SystemTime) (config : Config) (uncertainty : Nat)
    (now : SystemTime) : Bool :=
  (leaseDeadline modifiedAt config uncertainty).any fun deadline => deadline < now

/-- `VersionToken`. -/
abbrev VersionToken := String

structure Observed (F : Type) where
  roster : Roster F
  version : VersionToken
  modifiedAt : SystemTime
  deriving DecidableEq

/-- A roster written under another schema or policy. Only its lease is understood. -/
structure Foreign where
  version : VersionToken
  modifiedAt : SystemTime
  deriving DecidableEq

inductive Decoded (F : Type)
  | roster (observed : Observed F)
  | foreign (foreign : Foreign)
  deriving DecidableEq

variable {F : Type}

/-- `expired`. -/
def Observed.expired (observed : Observed F) (config : Config) (uncertainty : Nat)
    (now : SystemTime) : Bool :=
  leaseExpired observed.modifiedAt config uncertainty now

/-- `claimable`: the lease was released or has lapsed. -/
def Observed.claimable (observed : Observed F) (config : Config) (uncertainty : Nat)
    (now : SystemTime) : Bool :=
  observed.roster.released || observed.expired config uncertainty now

structure Cache (F : Type) where
  observed : Option (Observed F)
  /-- Set while another policy owns the roster. -/
  foreign : Option Foreign
  deriving DecidableEq

namespace Cache

def compatible (cache : Cache F) : Bool := cache.foreign.isNone

/-- `publish_cache`. -/
def publish (current : Cache F) : Option (Decoded F) → Cache F
  | none => current
  | some (.foreign foreign) =>
    if (current.foreign.any fun f => f.modifiedAt ≥ foreign.modifiedAt) ||
        current.observed.any fun o => o.modifiedAt > foreign.modifiedAt then
      current
    else ⟨none, some foreign⟩
  | some (.roster incoming) =>
    match current.foreign with
    | some foreign =>
      if incoming.modifiedAt ≤ foreign.modifiedAt then current else ⟨some incoming, none⟩
    | none =>
      if current.observed.any fun old =>
          incoming.roster.epoch < old.roster.epoch ||
            (incoming.roster.epoch == old.roster.epoch &&
              incoming.roster.revision != old.roster.revision) then
        current
      else { current with observed := some incoming }

end Cache

end Dial9.Sampling
