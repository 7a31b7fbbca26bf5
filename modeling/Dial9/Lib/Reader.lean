/-
# Byte readers

A reader takes a prefix of a byte string and returns a value with the bytes it
did not touch. Two facts about a reader carry every later argument about a
wire format. `Reads p b x` says that `p` turns exactly the bytes `b` into `x`,
whatever follows them; it is the completeness half and composes through
concatenation. `IsLocal p` says that success is always of that form: the bytes
consumed are a prefix, and nothing beyond them influenced the result.
-/

import Mathlib.Data.List.Basic
import Mathlib.Tactic.Common

namespace Dial9.Lib

/-- Byte strings, as the sequence a slice of bytes denotes. -/
abbrev Bytes := List UInt8

/-- A reader consumes some prefix of its input, or fails. -/
def Reader (α : Type) : Type := Bytes → Option (α × Bytes)

variable {b input : Bytes} {condition : Prop} {γ : Type}

namespace Reader

variable {α β : Type}

instance : Monad Reader where
  pure a := fun input => some (a, input)
  bind p f := fun input =>
    match p input with
    | none => none
    | some (a, rest) => f a rest

/-- The reader that never succeeds. -/
def fail : Reader α := fun _ => none

/-- Lift a partial value: the input is untouched. -/
def ofOption : Option α → Reader α
  | none => fail
  | some a => pure a

/-- Continue only when the condition holds. -/
def require (condition : Prop) [Decidable condition] : Reader Unit :=
  if condition then pure () else fail

/-- One byte. -/
def byte : Reader UInt8
  | [] => none
  | b :: rest => some (b, rest)

/-- Exactly `n` bytes. -/
def take (n : Nat) : Reader Bytes := fun input =>
  if n ≤ input.length then some (input.take n, input.drop n) else none

/-- Run a reader a fixed number of times, in order. -/
def times (p : Reader α) : Nat → Reader (List α)
  | 0 => pure []
  | n + 1 => do
      let a ← p
      let as ← times p n
      pure (a :: as)

/-- Run one reader for each element of a list, in order. -/
def forEach (f : β → Reader α) : List β → Reader (List α)
  | [] => pure []
  | b :: bs => do
      let a ← f b
      let as ← forEach f bs
      pure (a :: as)

/-- Run a reader and return the bytes it consumed instead of its value. -/
def consumed (p : Reader α) : Reader Bytes := fun input =>
  match p input with
  | none => none
  | some (_, rest) => some (input.take (input.length - rest.length), rest)

@[simp]
theorem pure_apply (a : α) (input : Bytes) :
    (pure a : Reader α) input = some (a, input) := rfl

@[simp]
theorem fail_apply (input : Bytes) : (fail : Reader α) input = none := rfl

theorem bind_apply (p : Reader α) (f : α → Reader β) (input : Bytes) :
    (p >>= f) input =
      match p input with
      | none => none
      | some (a, rest) => f a rest := rfl

variable {p : Reader α} {f : α → Reader β} {x : α}

/-- A successful bind is a successful first read followed by a successful
continuation; this is how every later inversion peels a reader apart. -/
theorem bind_eq_some {out : β × Bytes} :
    (p >>= f) input = some out ↔ ∃ a rest, p input = some (a, rest) ∧ f a rest = some out := by
  rw [bind_apply]
  cases h : p input with
  | none => simp
  | some pair =>
    obtain ⟨a, rest⟩ := pair
    simp

@[simp]
theorem ofOption_none : (ofOption none : Reader α) = fail := rfl

@[simp]
theorem ofOption_some (a : α) : ofOption (some a) = pure a := rfl

variable {input rest : Bytes}

theorem require_pos [Decidable condition] (h : condition) :
    require condition = pure () := if_pos h

theorem require_neg [Decidable condition] (h : ¬ condition) :
    require condition = fail := if_neg h

theorem require_eq_some [Decidable condition] {out : Unit × Bytes} :
    require condition input = some out ↔ condition ∧ out = ((), input) := by
  by_cases h : condition
  · rw [require_pos h, pure_apply, Option.some.injEq, eq_comm]
    simp [h]
  · rw [require_neg h, fail_apply]
    simp [h]

/-! ## Reading back what was written -/

/-- `p` turns exactly the bytes `b` into `x`, whatever follows. -/
def Reads (p : Reader α) (b : Bytes) (x : α) : Prop :=
  ∀ rest, p (b ++ rest) = some (x, rest)

theorem reads_pure (x : α) : Reads (pure x) [] x := fun _ => rfl

theorem Reads.bind {b c : Bytes} {y : β} (hp : Reads p b x) (hf : Reads (f x) c y) :
    Reads (p >>= f) (b ++ c) y := by
  intro rest
  rw [bind_apply, List.append_assoc, hp]
  exact hf rest

theorem Reads.bind_nil {y : β} (hp : Reads p b x) (hf : Reads (f x) [] y) :
    Reads (p >>= f) b y := by
  intro rest
  rw [bind_apply, hp]
  exact hf rest

theorem Reads.map {f : α → β} (hp : Reads p b x) : Reads (p >>= fun a => pure (f a)) b (f x) := by
  intro rest
  rw [bind_apply, hp]
  rfl

theorem Reads.require [Decidable condition] {f : Unit → Reader α} (h : condition)
    (hf : Reads (f ()) b x) :
    Reads (Reader.require condition >>= f) b x := by
  rw [require_pos h]
  exact hf

theorem reads_ofOption {o : Option α} (h : o = some x) : Reads (ofOption o) [] x := by
  subst h
  exact reads_pure x

theorem reads_byte (b : UInt8) : Reads byte [b] b := fun _ => rfl

theorem reads_take (b : Bytes) : Reads (take b.length) b b := by
  intro rest
  simp [take]

theorem reads_take_of_length {n : Nat} (h : b.length = n) : Reads (take n) b b := by
  subst h
  exact reads_take b

theorem reads_times {enc : α → Bytes} :
    ∀ {xs : List α}, (∀ x ∈ xs, Reads p (enc x) x) →
      Reads (times p xs.length) (xs.flatMap enc) xs
  | [], _ => reads_pure []
  | x :: xs, h => by
      have hx : Reads p (enc x) x := h x (by simp)
      have hxs : Reads (times p xs.length) (xs.flatMap enc) xs :=
        reads_times fun y hy => h y (by simp [hy])
      exact hx.bind hxs.map

theorem reads_forEach {f : γ → Reader α} {key : β → γ} {val : β → α} {enc : β → Bytes} :
    ∀ {xs : List β}, (∀ x ∈ xs, Reads (f (key x)) (enc x) (val x)) →
      Reads (forEach f (xs.map key)) (xs.flatMap enc) (xs.map val)
  | [], _ => reads_pure []
  | x :: xs, h => by
      have hx : Reads (f (key x)) (enc x) (val x) := h x (by simp)
      have hxs : Reads (forEach f (xs.map key)) (xs.flatMap enc) (xs.map val) :=
        reads_forEach fun y hy => h y (by simp [hy])
      exact hx.bind hxs.map

theorem exists_reads_times {enc : β → Bytes} {xs : List β}
    (h : ∀ x ∈ xs, ∃ a, Reads p (enc x) a) :
    ∃ as, Reads (times p xs.length) (xs.flatMap enc) as := by
  induction xs with
  | nil => exact ⟨[], reads_pure []⟩
  | cons x xs ih =>
    obtain ⟨⟨a, ha⟩, hxs⟩ := List.forall_mem_cons.mp h
    obtain ⟨as, has⟩ := ih hxs
    exact ⟨a :: as, ha.bind has.map⟩

theorem exists_reads_forEach {f : γ → Reader α} {key : β → γ} {enc : β → Bytes} {xs : List β}
    (h : ∀ x ∈ xs, ∃ a, Reads (f (key x)) (enc x) a) :
    ∃ as, Reads (forEach f (xs.map key)) (xs.flatMap enc) as := by
  induction xs with
  | nil => exact ⟨[], reads_pure []⟩
  | cons x xs ih =>
    obtain ⟨⟨a, ha⟩, hxs⟩ := List.forall_mem_cons.mp h
    obtain ⟨as, has⟩ := ih hxs
    exact ⟨a :: as, ha.bind has.map⟩

theorem Reads.consumed (h : Reads p b x) : Reads p.consumed b b := by
  intro rest
  simp [Reader.consumed, h rest]

/-! ## Partial conversions -/

/-- Convert what a reader returns, failing where the conversion does. -/
def convert (p : Reader α) (f : α → Option β) : Reader β := p >>= fun a => ofOption (f a)

theorem convert_apply (p : Reader α) (f : α → Option β) (input : Bytes) :
    p.convert f input = (p input).bind fun pair => (f pair.1).map fun b => (b, pair.2) := by
  rw [convert, bind_apply]
  cases p input with
  | none => rfl
  | some pair =>
    simp only [Option.bind_some]
    cases f pair.1 with
    | none | some _ => rfl

/-- A read before a conversion is a read before the converted reader. -/
theorem bind_convert {x : Reader α} {p : α → Reader β} {q : α → Reader γ} {f : β → Option γ}
    (h : ∀ a, q a = (p a).convert f) : (x >>= q) = (x >>= p).convert f := by
  funext input
  simp only [convert_apply, bind_apply]
  cases x input with
  | none => rfl
  | some pair => simp only [h, convert_apply]

theorem convert_bind_pure (p : Reader α) (g : α → β) (f : β → Option γ) :
    (p >>= fun a => pure (g a)).convert f = p.convert fun a => f (g a) := by
  funext input
  simp only [convert_apply, bind_apply]
  cases p input with
  | none | some _ => rfl

theorem bind_pure_convert (p : Reader α) (f : α → Option β) (g : β → γ) :
    (p.convert f >>= fun b => pure (g b)) = p.convert fun a => (f a).map g := by
  funext input
  simp only [convert_apply, bind_apply]
  cases p input with
  | none => rfl
  | some pair =>
    simp only [Option.bind_some]
    cases f pair.1 with
    | none | some _ => rfl

theorem leaf_convert {g : α → β} {h : α → γ} {f : β → Option γ}
    (hconvert : ∀ a, f (g a) = some (h a)) :
    (p >>= fun a => pure (h a)) = (p >>= fun a => pure (g a)).convert f := by
  rw [convert_bind_pure]
  simp only [hconvert]
  rfl

theorem times_convert (p : Reader α) (f : α → Option β) :
    ∀ n, times (p.convert f) n = (times p n).convert (List.mapM f)
  | 0 => rfl
  | n + 1 => by
      funext input
      have ih := times_convert p f n
      simp only [times, bind_apply, convert_apply, ih]
      cases p input with
      | none => rfl
      | some pair =>
        simp only [Option.bind_some]
        cases hread : times p n pair.2 with
        | none => cases f pair.1 <;> simp [hread]
        | some rest =>
          cases hf : f pair.1 with
          | none => simp [hf]
          | some b => cases hfs : List.mapM f rest.1 <;> simp [hf, hfs, hread]

theorem forEach_convert (p : γ → Reader α) (f : α → Option β) :
    ∀ keys, forEach (fun key => (p key).convert f) keys = (forEach p keys).convert (List.mapM f)
  | [] => rfl
  | key :: keys => by
      funext input
      have ih := forEach_convert p f keys
      simp only [forEach, bind_apply, convert_apply, ih]
      cases p key input with
      | none => rfl
      | some pair =>
        simp only [Option.bind_some]
        cases hread : forEach p keys pair.2 with
        | none => cases f pair.1 <;> simp [hread]
        | some rest =>
          cases hf : f pair.1 with
          | none => simp [hf]
          | some b => cases hfs : List.mapM f rest.1 <;> simp [hf, hfs, hread]

/-! ## Locality -/

/-- Success depends only on a consumed prefix. -/
def IsLocal (p : Reader α) : Prop :=
  ∀ input x rest, p input = some (x, rest) → ∃ b, input = b ++ rest ∧ Reads p b x

theorem isLocal_pure (x : α) : IsLocal (pure x) := by
  rintro input y rest h
  obtain ⟨rfl, rfl⟩ : x = y ∧ input = rest := by simpa using h
  exact ⟨[], rfl, reads_pure x⟩

theorem isLocal_fail : IsLocal (fail : Reader α) := by
  rintro input y rest h
  simp at h

theorem IsLocal.bind (hp : IsLocal p) (hf : ∀ a, IsLocal (f a)) : IsLocal (p >>= f) := by
  intro input y rest h
  obtain ⟨a, mid, hfirst, hsecond⟩ := bind_eq_some.mp h
  obtain ⟨b, rfl, hb⟩ := hp input a mid hfirst
  obtain ⟨c, rfl, hc⟩ := hf a mid y rest hsecond
  exact ⟨b ++ c, by simp, hb.bind hc⟩

theorem IsLocal.map (hp : IsLocal p) (f : α → β) : IsLocal (p >>= fun a => pure (f a)) :=
  hp.bind fun _ => isLocal_pure _

theorem isLocal_ofOption (o : Option α) : IsLocal (ofOption o) := by
  cases o with
  | none => exact isLocal_fail
  | some a => exact isLocal_pure a

theorem isLocal_require (condition : Prop) [Decidable condition] : IsLocal (require condition) := by
  by_cases h : condition
  · rw [require_pos h]
    exact isLocal_pure ()
  · rw [require_neg h]
    exact isLocal_fail

theorem isLocal_byte : IsLocal byte := by
  intro input x rest h
  cases input with
  | nil => simp [byte] at h
  | cons b tail =>
    obtain ⟨rfl, rfl⟩ : b = x ∧ tail = rest := by simpa [byte] using h
    exact ⟨[b], rfl, reads_byte b⟩

theorem isLocal_take (n : Nat) : IsLocal (take n) := by
  intro input x rest h
  unfold take at h
  split at h
  · next hle =>
      obtain ⟨rfl, rfl⟩ : input.take n = x ∧ input.drop n = rest := by simpa using h
      exact ⟨input.take n, (List.take_append_drop n input).symm,
        reads_take_of_length (by simp [hle])⟩
  · simp at h

theorem IsLocal.times (hp : IsLocal p) : ∀ n, IsLocal (times p n)
  | 0 => isLocal_pure []
  | n + 1 => hp.bind fun _ => (hp.times n).map _

theorem isLocal_forEach {f : β → Reader α} (hf : ∀ b, IsLocal (f b)) :
    ∀ bs, IsLocal (forEach f bs)
  | [] => isLocal_pure []
  | b :: bs => (hf b).bind fun _ => (isLocal_forEach hf bs).map _

theorem IsLocal.consumed (hp : IsLocal p) : IsLocal p.consumed := by
  intro input x rest h
  unfold Reader.consumed at h
  split at h
  · simp at h
  · next y mid heq =>
      obtain ⟨rfl, rfl⟩ :
          input.take (input.length - mid.length) = x ∧ mid = rest := by simpa using h
      obtain ⟨b, rfl, hb⟩ := hp input y mid heq
      refine ⟨b, rfl, ?_⟩
      simpa using hb.consumed

/-! ## Postconditions -/

/-- Every value the reader can return satisfies the predicate. -/
def Yields (good : α → Prop) (p : Reader α) : Prop :=
  ∀ input x rest, p input = some (x, rest) → good x

variable {good : α → Prop}

theorem yields_pure (h : good x) : Yields good (pure x) := by
  intro input y rest heq
  obtain ⟨rfl, -⟩ : x = y ∧ input = rest := by simpa using heq
  exact h

theorem Yields.bind {good : β → Prop} (h : ∀ a, Yields good (f a)) : Yields good (p >>= f) := by
  intro input y rest heq
  obtain ⟨a, mid, -, hsecond⟩ := bind_eq_some.mp heq
  exact h a mid y rest hsecond

theorem Yields.times (h : Yields good p) :
    ∀ n, Yields (fun xs => ∀ x ∈ xs, good x) (times p n)
  | 0 => yields_pure (by simp)
  | n + 1 => by
      intro input xs rest heq
      obtain ⟨x, mid, hx, heq⟩ := bind_eq_some.mp heq
      obtain ⟨tail, mid', htail, heq⟩ := bind_eq_some.mp heq
      obtain ⟨rfl, -⟩ : x :: tail = xs ∧ mid' = rest := by simpa using heq
      exact List.forall_mem_cons.mpr ⟨h _ _ _ hx, h.times n _ _ _ htail⟩

theorem yields_forEach {f : β → Reader α} (h : ∀ b, Yields good (f b)) :
    ∀ bs, Yields (fun xs => ∀ x ∈ xs, good x) (forEach f bs)
  | [] => yields_pure (by simp)
  | b :: bs => by
      intro input xs rest heq
      obtain ⟨x, mid, hx, heq⟩ := bind_eq_some.mp heq
      obtain ⟨tail, mid', htail, heq⟩ := bind_eq_some.mp heq
      obtain ⟨rfl, -⟩ : x :: tail = xs ∧ mid' = rest := by simpa using heq
      exact List.forall_mem_cons.mpr ⟨h b _ _ _ hx, yields_forEach h bs _ _ _ htail⟩

theorem IsLocal.length_le (hp : IsLocal p) (h : p input = some (x, rest)) :
    rest.length ≤ input.length := by
  obtain ⟨b, rfl, _⟩ := hp input x rest h
  simp

theorem IsLocal.append (hp : IsLocal p) (h : p input = some (x, rest)) (tail : Bytes) :
    p (input ++ tail) = some (x, rest ++ tail) := by
  obtain ⟨b, rfl, hb⟩ := hp input x rest h
  rw [List.append_assoc]
  exact hb (rest ++ tail)

end Reader

end Dial9.Lib
