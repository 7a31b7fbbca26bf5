/-
# Operations on a sink that can fail

An operation changes a state and hands bytes to a sink, in some order. The sink
accepts so many bytes and then fails, in the middle of a write if need be; the
operation ends there and leaves the state as it was at that write. On a sink
that accepts all its bytes an operation comes to what the same operation does
without a sink, and `Lifts` carries that from the parts to the whole.
-/

import Mathlib.Data.Option.Basic

namespace Dial9.Lib

/-- What ends an operation: a fault of its own, or the sink. -/
inductive Broken (F : Type)
  | fault (f : F)
  | sink
  deriving DecidableEq

/-- A state with the bytes that the sink still accepts; `none` is a sink that
does not fail. -/
structure Sink (S : Type) where
  state : S
  room : Option Nat
  deriving DecidableEq

/-- An operation on a sink. What it did to the state stays done when it fails. -/
def SinkM (S F α : Type) : Type := Sink S → Except (Broken F) α × Sink S

variable {bytes : List UInt8}

namespace SinkM

variable {S F α β : Type}

instance : Monad (SinkM S F) where
  pure a := fun sink => (.ok a, sink)
  bind m f := fun sink =>
    match m sink with
    | (.ok a, sink) => f a sink
    | (.error broken, sink) => (.error broken, sink)

def get : SinkM S F S := fun sink => (.ok sink.state, sink)

def modify (f : S → S) : SinkM S F Unit := fun sink => (.ok (), { sink with state := f sink.state })

def fail (fault : F) : SinkM S F α := fun sink => (.error (.fault fault), sink)

/-- `write_all`: the sink takes all the bytes, or those it has room for. -/
def writeAll (write : S → List UInt8 → S) (bytes : List UInt8) : SinkM S F Unit := fun sink =>
  match sink.room with
  | none => (.ok (), { sink with state := write sink.state bytes })
  | some k =>
    if bytes.length ≤ k then (.ok (), ⟨write sink.state bytes, some (k - bytes.length)⟩)
    else (.error .sink, ⟨write sink.state (bytes.take k), some 0⟩)

theorem bind_of_ok {m : SinkM S F α} {f : α → SinkM S F β} {sink next : Sink S} {a : α}
    (h : m sink = (.ok a, next)) : (m >>= f) sink = f a next := by
  change (match m sink with
    | (.ok a, sink) => f a sink
    | (.error broken, sink) => (.error broken, sink)) = _
  rw [h]

theorem bind_of_error {m : SinkM S F α} {f : α → SinkM S F β} {sink next : Sink S}
    {broken : Broken F} (h : m sink = (.error broken, next)) :
    (m >>= f) sink = (.error broken, next) := by
  change (match m sink with
    | (.ok a, sink) => f a sink
    | (.error broken, sink) => (.error broken, sink)) = _
  rw [h]

theorem get_bind (f : S → SinkM S F β) (sink : Sink S) :
    ((get : SinkM S F S) >>= f) sink = f sink.state sink := rfl

theorem modify_bind (g : S → S) (f : Unit → SinkM S F β) (sink : Sink S) :
    ((modify g : SinkM S F Unit) >>= f) sink = f () { sink with state := g sink.state } := rfl

theorem writeAll_none_left (write : S → List UInt8 → S) (hbytes : bytes ≠ []) (s : S) :
    (writeAll write bytes : SinkM S F Unit) ⟨s, some 0⟩ =
      (.error .sink, ⟨write s [], some 0⟩) := by
  have hlength : ¬ bytes.length ≤ 0 := by
    rw [Nat.le_zero, List.length_eq_zero_iff]
    exact hbytes
  simp only [writeAll, if_neg hlength, List.take_zero]

theorem writeAll_of_le (write : S → List UInt8 → S) {k : Nat} (h : bytes.length ≤ k) (s : S) :
    (writeAll write bytes : SinkM S F Unit) ⟨s, some k⟩ =
      (.ok (), ⟨write s bytes, some (k - bytes.length)⟩) := by
  simp only [writeAll, if_pos h]

end SinkM

/-! ## Operations that are not interrupted -/

/-- The sink accepts that many bytes. -/
def Accepts (room : Option Nat) (n : Nat) : Prop := ∀ k, room = some k → n ≤ k

theorem Accepts.mono {room : Option Nat} {n m : Nat} (h : Accepts room n) (hle : m ≤ n) :
    Accepts room m := fun k hk => Nat.le_trans hle (h k hk)

theorem accepts_none (n : Nat) : Accepts none n := fun _ h => by cases h

theorem accepts_some {k n : Nat} : Accepts (some k) n ↔ n ≤ k :=
  ⟨fun h => h k rfl, fun h _ hk => Option.some.inj hk ▸ h⟩

variable {S F α β : Type} (size : S → Nat)

/-- From a state the operation comes to the result, and to the state behind it,
as long as the sink accepts what is added to the output. -/
structure Lifts (m : SinkM S F α) (s : S) (result : Except F α × S) : Prop where
  grows : size s ≤ size result.2
  whole : ∀ room, Accepts room (size result.2 - size s) →
    m ⟨s, room⟩ = (result.1.mapError .fault, ⟨result.2, room.map (· - (size result.2 - size s))⟩)

namespace Lifts

variable {size} {m : SinkM S F α} {next : α → SinkM S F β} {s s' : S}

variable {result : Except F α × S}

theorem of_still (hsize : size result.2 = size s)
    (h : ∀ room, m ⟨s, room⟩ = (result.1.mapError .fault, ⟨result.2, room⟩)) :
    Lifts size m s result where
  grows := Nat.le_of_eq hsize.symm
  whole room _ := by
    rw [h, hsize, Nat.sub_self]
    cases room <;> rfl

theorem pure (a : α) : Lifts size (Pure.pure a : SinkM S F α) s (.ok a, s) :=
  .of_still rfl fun _ => rfl

theorem fail (fault : F) : Lifts size (SinkM.fail fault : SinkM S F α) s (.error fault, s) :=
  .of_still rfl fun _ => rfl

theorem modify {g : S → S} (hsize : size (g s) = size s) :
    Lifts size (SinkM.modify g : SinkM S F Unit) s (.ok (), g s) :=
  .of_still hsize fun _ => rfl

theorem writeAll {write : S → List UInt8 → S}
    (hsize : size (write s bytes) = size s + bytes.length) :
    Lifts size (SinkM.writeAll write bytes : SinkM S F Unit) s (.ok (), write s bytes) where
  grows := by
    rw [hsize]
    exact Nat.le_add_right _ _
  whole room hroom := by
    rw [hsize, Nat.add_sub_cancel_left] at hroom ⊢
    cases room with
    | none => rfl
    | some k => exact SinkM.writeAll_of_le write (accepts_some.mp hroom) s

theorem get {f : S → SinkM S F α} (h : Lifts size (f s) s result) :
    Lifts size (SinkM.get >>= f) s result where
  grows := h.grows
  whole room hroom := h.whole room hroom

theorem bind_error {fault : F} (h : Lifts size m s (.error fault, s')) :
    Lifts size (m >>= next) s (.error fault, s') where
  grows := h.grows
  whole room hroom := SinkM.bind_of_error (h.whole room hroom)

theorem bind_ok {a : α} {result : Except F β × S} (h : Lifts size m s (.ok a, s'))
    (hnext : Lifts size (next a) s' result) : Lifts size (m >>= next) s result := by
  have hfirst := h.grows
  have hlater := hnext.grows
  dsimp only at hfirst
  refine ⟨Nat.le_trans hfirst hlater, ?_⟩
  intro room hroom
  have hwhole := h.whole room (hroom.mono (by dsimp only; omega))
  refine (SinkM.bind_of_ok hwhole).trans ?_
  rw [hnext.whole]
  · cases room with
    | none => rfl
    | some k =>
      simp only [Option.map_some, Prod.mk.injEq, true_and, Sink.mk.injEq, Option.some.injEq]
      omega
  · intro k hk
    obtain ⟨k₀, hk₀, rfl⟩ := Option.map_eq_some_iff.mp hk
    have hle := hroom k₀ hk₀
    dsimp only
    omega

end Lifts

end Dial9.Lib
