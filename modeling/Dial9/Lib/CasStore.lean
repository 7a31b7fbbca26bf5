/-
# A conditional store

One object, written only under a condition on what is there. The history keeps
every state the object was in, newest first, so that a late answer can be told
from a current one. A request may take effect at any time after it was issued:
only its condition decides. When versions identify bodies and no two requests
carry the same body, no version ever returns, so a request conditioned on a
replaced version is dead for good.
-/

import Mathlib.Data.List.Nodup

namespace Dial9.Lib

/-- An object as a read returns it. -/
structure Stored (V B T : Type) where
  body : B
  version : V
  modifiedAt : T
  deriving DecidableEq

/-- What must be there for a write to happen. -/
inductive Condition (V : Type)
  | unconditional
  | absent
  | matching (version : V)
  deriving DecidableEq

structure Put (V B : Type) where
  body : B
  condition : Condition V
  deriving DecidableEq

variable {V B T : Type}

/-- The condition holds of what is there. -/
def Condition.met [DecidableEq V] : Condition V → Option (Stored V B T) → Bool
  | .unconditional, _ => true
  | .absent, held => held.isNone
  | .matching version, held => held.any fun object => object.version == version

/-- Everything the object has been, newest first. -/
abbrev History (V B T : Type) := List (Option (Stored V B T))

/-- What a read returns now. -/
def History.current (history : History V B T) : Option (Stored V B T) := history.head?.join

/-- What the object has been at some time since the history had a given length:
what a read issued then may return. -/
def History.since (history : History V B T) (length : Nat) : History V B T :=
  history.take (history.length - length + 1)

theorem History.mem_of_mem_since {history : History V B T} {length : Nat}
    {held : Option (Stored V B T)} (h : held ∈ history.since length) : held ∈ history :=
  List.mem_of_mem_take h

/-- The version, if it names something already held, names that very body. -/
def History.identifies [DecidableEq V] [DecidableEq B] (history : History V B T) (version : V)
    (body : B) : Bool :=
  history.all fun held => held.all fun object => object.version != version || object.body == body

/-- The versions of a history, newest first. -/
def History.versions (history : History V B T) : List V :=
  history.filterMap fun held => held.map Stored.version

theorem History.mem_versions {history : History V B T} {version : V} :
    version ∈ history.versions ↔ ∃ object, some object ∈ history ∧ object.version = version := by
  simp only [History.versions, List.mem_filterMap, Option.map_eq_some_iff]
  constructor
  · rintro ⟨held, hmem, object, rfl, hversion⟩
    exact ⟨object, hmem, hversion⟩
  · rintro ⟨object, hmem, hversion⟩
    exact ⟨_, hmem, object, rfl, hversion⟩

variable [DecidableEq V] [DecidableEq B]

/-- A history grown from `first` by writes of the issued requests. -/
inductive Grown (puts : List (Put V B)) (first : Option (Stored V B T)) : History V B T → Prop
  | start : Grown puts first [first]
  | commit {history : History V B T} {put : Put V B} (version : V) (modifiedAt : T) :
      Grown puts first history → put ∈ puts → put.condition.met history.current = true →
      history.identifies version put.body = true →
      Grown puts first (some ⟨put.body, version, modifiedAt⟩ :: history)

/-- Requests whose bodies are told apart, from each other and from the first
body, and none of which writes regardless. -/
structure Distinct (puts : List (Put V B)) (first : Option (Stored V B T)) : Prop where
  injective : ∀ p ∈ puts, ∀ q ∈ puts, p.body = q.body → p = q
  fresh : ∀ p ∈ puts, ∀ object, first = some object → object.body ≠ p.body
  conditional : ∀ p ∈ puts, p.condition ≠ .unconditional

namespace Grown

variable {puts more : List (Put V B)} {first : Option (Stored V B T)} {history : History V B T}

theorem of_cons {held : Option (Stored V B T)} (h : Grown puts first (held :: history))
    (hne : history ≠ []) : Grown puts first history := by
  cases h with
  | start => exact absurd rfl hne
  | commit _ _ hgrown => exact hgrown

theorem mono (h : Grown puts first history) (hsub : ∀ p ∈ puts, p ∈ more) :
    Grown more first history := by
  induction h with
  | start => exact .start
  | commit version modifiedAt _ hmem hmet hident ih =>
    exact .commit version modifiedAt ih (hsub _ hmem) hmet hident

theorem identifies_iff {version : V} {body : B} :
    history.identifies version body = true ↔
      ∀ object, some object ∈ history → object.version = version → object.body = body := by
  simp only [History.identifies, List.all_eq_true, Option.all_eq_true, Bool.or_eq_true, bne_iff_ne,
    beq_iff_eq]
  constructor
  · intro h object hmem hversion
    exact (h _ hmem object rfl).resolve_left (not_not_intro hversion)
  · intro h held hmem object hheld
    rw [or_iff_not_imp_left, not_not]
    exact h object (hheld ▸ hmem)

section

variable (h : Grown puts first history)
include h

theorem identified {o₁ o₂ : Stored V B T}
    (h₁ : some o₁ ∈ history) (h₂ : some o₂ ∈ history) (hversion : o₁.version = o₂.version) :
    o₁.body = o₂.body := by
  induction h with
  | start =>
    rw [List.mem_singleton] at h₁ h₂
    exact congrArg Stored.body (Option.some.inj (h₁.trans h₂.symm))
  | @commit history put version modifiedAt _ _ _ hident ih =>
    have hold := identifies_iff.mp hident
    rcases List.mem_cons.mp h₁ with hnew₁ | hold₁ <;>
      rcases List.mem_cons.mp h₂ with hnew₂ | hold₂
    · cases hnew₁
      cases hnew₂
      rfl
    · cases hnew₁
      exact (hold o₂ hold₂ hversion.symm).symm
    · cases hnew₂
      exact hold o₁ hold₁ hversion
    · exact ih hold₁ hold₂

/-- A body in the history is the first one or was written by a request, over
something of the history that met its condition. -/
theorem written {object : Stored V B T} (hmem : some object ∈ history) :
    first = some object ∨ ∃ put ∈ puts, put.body = object.body ∧
      ∃ below, below ∈ history.tail ∧ put.condition.met below = true := by
  induction h with
  | start => exact .inl (List.mem_singleton.mp hmem).symm
  | @commit history put version modifiedAt hgrown hput hmet _ ih =>
    have hcurrent : history.current ∈ history := by
      cases hgrown with
      | start => exact List.mem_singleton.mpr rfl
      | commit => exact List.mem_cons_self
    rcases List.mem_cons.mp hmem with hnew | hold
    · cases hnew
      exact .inr ⟨put, hput, rfl, history.current, hcurrent, hmet⟩
    · rcases ih hold with hfirst | ⟨p, hp, hbody, below, hbelow, hmet'⟩
      · exact .inl hfirst
      · exact .inr ⟨p, hp, hbody, below, List.mem_of_mem_tail hbelow, hmet'⟩

/-- What met a condition below the newest state does not meet it now: the
versions of the history are all different. -/
theorem not_met_of_tail (hnodup : history.versions.Nodup)
    {put : Put V B} (hcond : put.condition ≠ .unconditional) {below : Option (Stored V B T)}
    (hbelow : below ∈ history.tail) (hmet : put.condition.met below = true) :
    put.condition.met history.current = false := by
  cases h with
  | start => simp at hbelow
  | @commit history put' version modifiedAt hgrown _ _ _ =>
    change below ∈ history at hbelow
    rw [show History.current (some _ :: history) = some _ from rfl]
    cases hcondition : put.condition with
    | unconditional => exact absurd hcondition hcond
    | absent => rfl
    | matching v =>
      rw [hcondition] at hmet
      rcases (Option.any_eq_true _ _).mp hmet with ⟨object, rfl, hv⟩
      have hv : object.version = v := eq_of_beq hv
      have hnot : version ∉ history.versions := (List.nodup_cons.mp hnodup).1
      rw [Condition.met, Option.any_some, beq_eq_false_iff_ne]
      rintro rfl
      exact hnot (History.mem_versions.mpr ⟨object, hbelow, hv⟩)

theorem versions_nodup (hdistinct : Distinct puts first) : history.versions.Nodup := by
  induction h with
  | start => cases first <;> simp [History.versions]
  | @commit history put version modifiedAt hgrown hput hmet hident ih =>
    apply List.nodup_cons.mpr ⟨_, ih⟩
    intro hmem
    rcases History.mem_versions.mp hmem with ⟨object, hobject, hversion⟩
    have hbody := identifies_iff.mp hident object hobject hversion
    rcases hgrown.written hobject with hfirst | ⟨p, hp, hpbody, below, hbelow, hpmet⟩
    · exact hdistinct.fresh put hput object hfirst hbody
    · -- the same request took effect before, so its condition has been overwritten since
      obtain rfl := hdistinct.injective p hp put hput (hpbody.trans hbody)
      have hfalse := hgrown.not_met_of_tail ih (hdistinct.conditional p hp) hbelow hpmet
      rw [hfalse] at hmet
      exact absurd hmet Bool.false_ne_true

end

end Grown

end Dial9.Lib
