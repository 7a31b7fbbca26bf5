/-
# Code that walks a slice by index

A decoder that keeps a position into a slice can go wrong where a reader of
suffixes cannot: an index behind the end, a range with crossed bounds, a sum
that leaves the 64 bits of a machine word. `Outcome` keeps such a panic apart
from an early return, `Cursor` is a block of code with a mutable position, and
`Follows` says that the block does without a panic what a reader does on the
suffix at its position.
-/

import Dial9.Lib.Words

namespace Dial9.Lib

theorem Reader.take_apply (n : Nat) (input : Bytes) :
    Reader.take n input =
      if n ≤ input.length then some (input.take n, input.drop n) else none := rfl

/-- What a piece of code does: come to a value, return early, or panic. -/
inductive Outcome (ε α : Type)
  | value (a : α)
  | stop (e : ε)
  | panic
  deriving DecidableEq

variable {a b pos n : Nat}

namespace Outcome

variable {ε α β : Type}

instance : Monad (Outcome ε) where
  pure a := .value a
  bind o f :=
    match o with
    | .value a => f a
    | .stop e => .stop e
    | .panic => .panic

@[simp]
theorem pure_eq (a : α) : (pure a : Outcome ε α) = .value a := rfl

@[simp]
theorem value_bind (a : α) (f : α → Outcome ε β) : (.value a >>= f) = f a := rfl

@[simp]
theorem stop_bind (e : ε) (f : α → Outcome ε β) : (.stop e >>= f) = .stop e := rfl

@[simp]
theorem panic_bind (f : α → Outcome ε β) : (.panic >>= f) = .panic := rfl

/-- The `?` on an option: none returns early with `e`. -/
def orStop (o : Option α) (e : ε) : Outcome ε α :=
  match o with
  | some a => .value a
  | none => .stop e

@[simp]
theorem orStop_some (a : α) (e : ε) : orStop (some a) e = .value a := rfl

@[simp]
theorem orStop_none (e : ε) : orStop (none : Option α) e = .stop e := rfl

/-- `a + b` on machine words. -/
def add (a b : Nat) : Outcome ε Nat := if a + b < 2 ^ 64 then .value (a + b) else .panic

/-- `a - b` on machine words. -/
def sub (a b : Nat) : Outcome ε Nat := if b ≤ a then .value (a - b) else .panic

/-- `a * b` on machine words. -/
def mul (a b : Nat) : Outcome ε Nat := if a * b < 2 ^ 64 then .value (a * b) else .panic

/-- `a / b` on machine words. -/
def div (a b : Nat) : Outcome ε Nat := if b = 0 then .panic else .value (a / b)

theorem add_eq (h : a + b < 2 ^ 64) : (add a b : Outcome ε Nat) = .value (a + b) :=
  if_pos h

theorem sub_eq (h : b ≤ a) : (sub a b : Outcome ε Nat) = .value (a - b) := if_pos h

theorem mul_eq (h : a * b < 2 ^ 64) : (mul a b : Outcome ε Nat) = .value (a * b) :=
  if_pos h

theorem div_eq (h : b ≠ 0) : (div a b : Outcome ε Nat) = .value (a / b) := if_neg h

end Outcome

/-- `a.checked_add(b)`. -/
def checkedAddWord (a b : Nat) : Option Nat := if a + b < 2 ^ 64 then some (a + b) else none

/-- `a.checked_sub(b)`. -/
def checkedSubWord (a b : Nat) : Option Nat := if b ≤ a then some (a - b) else none

/-- `a.checked_mul(b)`. -/
def checkedMulWord (a b : Nat) : Option Nat := if a * b < 2 ^ 64 then some (a * b) else none

/-- A slice in memory, which is never longer than `isize::MAX` bytes. -/
structure Slice where
  bytes : Bytes
  fits : bytes.length < 2 ^ 63

namespace Slice

def length (data : Slice) : Nat := data.bytes.length

/-- The slice from an index on. -/
def drop (data : Slice) (n : Nat) : Slice where
  bytes := data.bytes.drop n
  fits := by
    rw [List.length_drop]
    exact Nat.lt_of_le_of_lt (Nat.sub_le _ _) data.fits

@[simp]
theorem drop_bytes (data : Slice) (n : Nat) : (data.drop n).bytes = data.bytes.drop n := rfl

@[simp]
theorem drop_length (data : Slice) (n : Nat) : (data.drop n).length = data.length - n :=
  List.length_drop

theorem drop_drop (data : Slice) (n m : Nat) : (data.drop n).drop m = data.drop (n + m) := by
  unfold drop
  simp only [List.drop_drop]

theorem length_lt (data : Slice) : data.length < 2 ^ 63 := data.fits

/-- `data.get(lo..hi)`. -/
def get (data : Slice) (lo hi : Nat) : Option Bytes :=
  if lo ≤ hi ∧ hi ≤ data.length then some ((data.bytes.drop lo).take (hi - lo)) else none

/-- `data.get(lo..)`. -/
def getFrom (data : Slice) (lo : Nat) : Option Slice :=
  if lo ≤ data.length then some (data.drop lo) else none

/-- `&data[lo..]`. -/
def suffix {ε : Type} (data : Slice) (lo : Nat) : Outcome ε Slice :=
  if lo ≤ data.length then .value (data.drop lo) else .panic

/-- `&data[lo..hi]`. -/
def range {ε : Type} (data : Slice) (lo hi : Nat) : Outcome ε Bytes :=
  if lo ≤ hi ∧ hi ≤ data.length then .value ((data.bytes.drop lo).take (hi - lo)) else .panic

theorem suffix_eq {ε : Type} {data : Slice} {lo : Nat} (h : lo ≤ data.length) :
    (data.suffix lo : Outcome ε Slice) = .value (data.drop lo) := if_pos h

end Slice

/-- Code with a mutable position into `data` that may return `None`. -/
def Cursor (_data : Slice) (α : Type) : Type := Nat → Outcome Unit (α × Nat)

namespace Cursor

variable {data : Slice} {α β : Type}

instance : Monad (Cursor data) where
  pure a := fun pos => .value (a, pos)
  bind c f := fun pos => c pos >>= fun pair => f pair.1 pair.2

@[simp]
theorem pure_apply (a : α) (pos : Nat) : (pure a : Cursor data α) pos = .value (a, pos) := rfl

theorem bind_apply (c : Cursor data α) (f : α → Cursor data β) (pos : Nat) :
    (c >>= f) pos = c pos >>= fun pair => f pair.1 pair.2 := rfl

/-- The `?` on an option. -/
def ofOption (o : Option α) : Cursor data α := fun pos =>
  match o with
  | some a => .value (a, pos)
  | none => .stop ()

/-- Return `None` unless the condition holds. -/
def require (condition : Prop) [Decidable condition] : Cursor data Unit := fun pos =>
  if condition then .value ((), pos) else .stop ()

/-- `*data.get(pos)?` and `pos += 1`. -/
def byte : Cursor data UInt8 := fun pos => do
  let b ← Outcome.orStop data.bytes[pos]? ()
  let pos ← Outcome.add pos 1
  pure (b, pos)

/-- `data.get(pos..pos + n)?` and `pos += n`. -/
def read (n : Nat) : Cursor data Bytes := fun pos => do
  let stop ← Outcome.add pos n
  let bytes ← Outcome.orStop (data.get pos stop) ()
  let pos ← Outcome.add pos n
  pure (bytes, pos)

/-- `read` and `try_into().ok()?` into an array of `n` bytes, taken as a number. -/
def word (n : Nat) : Cursor data Nat := do
  let bytes ← read n
  require (bytes.length = n)
  pure (leNat bytes)

def u16 : Cursor data UInt16 := do
  let n ← word 2
  pure (UInt16.ofNat n)

def u32 : Cursor data UInt32 := do
  let n ← word 4
  pure (UInt32.ofNat n)

def u64 : Cursor data UInt64 := do
  let n ← word 8
  pure (UInt64.ofNat n)

/-- A counted loop that collects what its body returns. -/
def times (c : Cursor data α) : Nat → Cursor data (List α)
  | 0 => pure []
  | n + 1 => do
      let a ← c
      let as ← times c n
      pure (a :: as)

/-- A loop over a list that collects what its body returns. -/
def forEach (f : β → Cursor data α) : List β → Cursor data (List α)
  | [] => pure []
  | b :: bs => do
      let a ← f b
      let as ← forEach f bs
      pure (a :: as)

/-- A call on the rest `&data[pos..]` that returns what it leaves of it:
`pos += data.len() - pos - rest.len()`. -/
def call (f : Slice → Outcome Unit (α × Slice)) : Cursor data α := fun pos => do
  let rest ← data.suffix pos
  let (a, left) ← f rest
  let unread ← Outcome.sub data.length pos
  let used ← Outcome.sub unread left.length
  let pos ← Outcome.add pos used
  pure (a, pos)

/-- A call at `offset + pos` that returns how much it used: `pos += used`. -/
def callAt (offset : Nat) (f : Nat → Outcome Unit (α × Nat)) : Cursor data α := fun pos => do
  let start ← Outcome.add offset pos
  let (a, used) ← f start
  let pos ← Outcome.add pos used
  pure (a, pos)

/-- A call on the rest `&data[pos..]` that returns how much of it it used:
`pos += used`. -/
def callUsing (f : Slice → Outcome Unit (α × Nat)) : Cursor data α := fun pos => do
  let rest ← data.suffix pos
  let (a, used) ← f rest
  let pos ← Outcome.add pos used
  pure (a, pos)

/-- Run, and return the bytes `&data[start..pos]` that were passed over. -/
def passed (c : Cursor data α) : Cursor data Bytes := fun start => do
  let (_, pos) ← c start
  let bytes ← data.range start pos
  pure (bytes, pos)

/-- Run from a position and return the value with the rest `&data[pos..]`. -/
def leave (data : Slice) (start : Nat) (c : Cursor data α) : Outcome Unit (α × Slice) := do
  let (a, pos) ← c start
  let rest ← data.suffix pos
  pure (a, rest)

/-! ## Following a reader -/

/-- The code at `pos` does what a reader does there: it stops where the reader
fails, and otherwise returns the same value at the position the reader leaves. -/
inductive Agrees (data : Slice) (pos : Nat) :
    Outcome Unit (α × Nat) → Option (α × Bytes) → Prop
  | none : Agrees data pos (.stop ()) none
  | some (a : α) (stop : Nat) (hle : pos ≤ stop) (hstop : stop ≤ data.length) :
      Agrees data pos (.value (a, stop)) (some (a, data.bytes.drop stop))

theorem Agrees.weaken {pos later : Nat} {o : Outcome Unit (α × Nat)} {r : Option (α × Bytes)}
    (h : Agrees data later o r) (hle : pos ≤ later) : Agrees data pos o r := by
  cases h with
  | none => exact .none
  | some a stop hle' hstop => exact .some a stop (Nat.le_trans hle hle') hstop

/-- Code that does a reader's work at every position in the slice. -/
def Follows (c : Cursor data α) (p : Reader α) : Prop :=
  ∀ pos, pos ≤ data.length → Agrees data pos (c pos) (p (data.bytes.drop pos))

theorem follows_pure (a : α) : Follows (pure a : Cursor data α) (pure a) :=
  fun pos hpos => .some a pos (Nat.le_refl pos) hpos

variable {c : Cursor data α} {p : Reader α}

theorem Follows.bind {f : α → Cursor data β} {g : α → Reader β} (hc : Follows c p)
    (hf : ∀ a, Follows (f a) (g a)) :
    Follows (c >>= f) (p >>= g) := by
  intro pos hpos
  have hfirst := hc pos hpos
  rw [bind_apply, Reader.bind_apply]
  revert hfirst
  generalize c pos = outcome
  generalize p (data.bytes.drop pos) = read
  intro hfirst
  cases hfirst with
  | none => exact .none
  | some a stop hle hstop =>
    rw [Outcome.value_bind]
    exact (hf a stop hstop).weaken hle

theorem Follows.map (hc : Follows c p) (f : α → β) :
    Follows (c >>= fun a => pure (f a)) (p >>= fun a => pure (f a)) :=
  hc.bind fun _ => follows_pure _

theorem follows_ofOption (o : Option α) :
    Follows (ofOption o : Cursor data α) (Reader.ofOption o) := by
  intro pos hpos
  cases o with
  | none => exact .none
  | some a => exact .some a pos (Nat.le_refl pos) hpos

theorem follows_require (condition : Prop) [Decidable condition] :
    Follows (require condition : Cursor data Unit) (Reader.require condition) := by
  intro pos hpos
  by_cases h : condition
  · rw [require, if_pos h, Reader.require_pos h]
    exact .some () pos (Nat.le_refl pos) hpos
  · rw [require, if_neg h, Reader.require_neg h]
    exact .none

theorem byte_of_drop_nil (h : data.bytes.drop pos = []) :
    (byte : Cursor data UInt8) pos = .stop () := by
  have hlen := congrArg List.length h
  rw [List.length_drop, List.length_nil] at hlen
  have hget : data.bytes[pos]? = none := by
    rw [List.getElem?_eq_none_iff]
    omega
  simp only [byte, hget, Outcome.orStop_none, Outcome.stop_bind]

theorem byte_of_drop_cons {b : UInt8} {rest : Bytes} (h : data.bytes.drop pos = b :: rest) :
    (byte : Cursor data UInt8) pos = .value (b, pos + 1) ∧
      data.bytes.drop (pos + 1) = rest ∧ pos + 1 ≤ data.length := by
  have hfits := data.fits
  have hget : data.bytes[pos]? = some b := by
    rw [← Nat.add_zero pos, ← List.getElem?_drop, h]
    rfl
  have hdrop : data.bytes.drop (pos + 1) = rest := by
    rw [← List.drop_drop, h]
    rfl
  have hlen := congrArg List.length h
  rw [List.length_drop, List.length_cons] at hlen
  refine ⟨?_, hdrop, by unfold Slice.length; omega⟩
  simp only [byte, hget, Outcome.orStop_some, Outcome.value_bind,
    Outcome.add_eq (show pos + 1 < 2 ^ 64 by omega), Outcome.pure_eq]

theorem follows_byte : Follows (byte : Cursor data UInt8) Reader.byte := by
  intro pos hpos
  cases hrest : data.bytes.drop pos with
  | nil =>
    rw [byte_of_drop_nil hrest]
    exact .none
  | cons b rest =>
    obtain ⟨hbyte, rfl, hstop⟩ := byte_of_drop_cons hrest
    rw [hbyte, Reader.byte]
    exact .some b (pos + 1) (Nat.le_succ pos) hstop

theorem follows_read (hn : n < 2 ^ 63) : Follows (read n : Cursor data Bytes) (Reader.take n) := by
  intro pos hpos
  have hfits := data.fits
  have hpos' : pos ≤ data.bytes.length := hpos
  have hadd : (Outcome.add pos n : Outcome Unit Nat) = .value (pos + n) :=
    Outcome.add_eq (by omega)
  unfold Reader.take
  by_cases hle : n ≤ (data.bytes.drop pos).length
  · have hstop : pos + n ≤ data.length := by
      rw [List.length_drop] at hle
      unfold Slice.length
      omega
    have hget : data.get pos (pos + n) = some ((data.bytes.drop pos).take n) := by
      rw [Slice.get, if_pos ⟨Nat.le_add_right pos n, hstop⟩, Nat.add_sub_cancel_left]
    rw [if_pos hle, List.drop_drop]
    simp only [read, hadd, hget, Outcome.value_bind, Outcome.orStop_some]
    exact .some _ (pos + n) (Nat.le_add_right pos n) hstop
  · have hget : data.get pos (pos + n) = none := by
      rw [Slice.get, if_neg]
      rintro ⟨-, hstop⟩
      rw [List.length_drop] at hle
      unfold Slice.length at hstop
      omega
    rw [if_neg hle]
    simp only [read, hadd, hget, Outcome.value_bind, Outcome.orStop_none, Outcome.stop_bind]
    exact .none

theorem follows_word (hn : n < 2 ^ 63) : Follows (word n : Cursor data Nat) (Reader.word n) := by
  intro pos hpos
  have hread := follows_read hn pos hpos
  simp only [word, Reader.word, bind_apply, Reader.bind_apply]
  unfold Reader.take at hread ⊢
  by_cases hle : n ≤ (data.bytes.drop pos).length
  · rw [if_pos hle] at hread ⊢
    revert hread
    generalize read n pos = outcome
    generalize hrest : (data.bytes.drop pos).drop n = rest
    intro hread
    cases hread with
    | some _ stop hle' hstop =>
      have hlen : ((data.bytes.drop pos).take n).length = n := by
        rw [List.length_take]
        omega
      simp only [Outcome.value_bind, require, hlen, if_true]
      exact .some _ stop hle' hstop
  · rw [if_neg hle] at hread ⊢
    revert hread
    generalize read n pos = outcome
    intro hread
    cases hread with
    | none => exact .none

theorem follows_u16 : Follows (u16 : Cursor data UInt16) Reader.u16 :=
  (follows_word (by decide)).map _

theorem follows_u32 : Follows (u32 : Cursor data UInt32) Reader.u32 :=
  (follows_word (by decide)).map _

theorem follows_u64 : Follows (u64 : Cursor data UInt64) Reader.u64 :=
  (follows_word (by decide)).map _

theorem Follows.times (h : Follows c p) :
    ∀ n, Follows (times c n) (Reader.times p n)
  | 0 => follows_pure []
  | n + 1 => h.bind fun _ => (h.times n).map _

theorem follows_forEach {f : β → Cursor data α} {g : β → Reader α}
    (h : ∀ b, Follows (f b) (g b)) : ∀ bs, Follows (forEach f bs) (Reader.forEach g bs)
  | [] => follows_pure []
  | b :: bs => (h b).bind fun _ => (follows_forEach h bs).map _

/-- Code that takes a slice does what a reader does on its bytes, and returns
the rest of the slice. -/
inductive Leaves (data : Slice) : Outcome Unit (α × Slice) → Option (α × Bytes) → Prop
  | none : Leaves data (.stop ()) none
  | some (a : α) (n : Nat) (hn : n ≤ data.length) :
      Leaves data (.value (a, data.drop n)) (some (a, data.bytes.drop n))

theorem Leaves.pure (data : Slice) (a : α) :
    Leaves data (.value (a, data)) ((Pure.pure a : Reader α) data.bytes) :=
  .some a 0 (Nat.zero_le _)

variable {o : Outcome Unit (α × Slice)}

theorem Leaves.within {r : Option (α × Bytes)}
    (h : Leaves (data.drop n) o r) (hn : n ≤ data.length) : Leaves data o r := by
  cases h with
  | none => exact .none
  | some a m hm =>
    rw [Slice.drop_length] at hm
    rw [Slice.drop_drop, Slice.drop_bytes, List.drop_drop]
    exact .some a (n + m) (by omega)

theorem Leaves.bind {g : α → Reader β}
    {f : α → Slice → Outcome Unit (β × Slice)} (h : Leaves data o (p data.bytes))
    (hf : ∀ a rest, Leaves rest (f a rest) (g a rest.bytes)) :
    Leaves data (o >>= fun pair => f pair.1 pair.2) ((p >>= g) data.bytes) := by
  rw [Reader.bind_apply]
  revert h
  generalize p data.bytes = read
  intro h
  cases h with
  | none => exact .none
  | some a n hn =>
    rw [Outcome.value_bind]
    exact (hf a (data.drop n)).within hn

theorem Follows.leave (h : Follows c p) {start : Nat} (hstart : start ≤ data.length) :
    Leaves data (leave data start c) (p (data.bytes.drop start)) := by
  have hrun := h start hstart
  unfold Cursor.leave
  revert hrun
  generalize c start = outcome
  generalize p (data.bytes.drop start) = read
  intro hrun
  cases hrun with
  | none => exact .none
  | some a stop hle hstop =>
    rw [Outcome.value_bind]
    dsimp only
    rw [Slice.suffix_eq hstop, Outcome.value_bind]
    exact .some a stop hstop

theorem follows_call {f : Slice → Outcome Unit (α × Slice)}
    (h : ∀ rest : Slice, Leaves rest (f rest) (p rest.bytes)) :
    Follows (call f : Cursor data α) p := by
  intro pos hpos
  have hcall := h (data.drop pos)
  have hfits := data.length_lt
  simp only [call, Slice.suffix_eq hpos, Outcome.value_bind]
  rw [Slice.drop_bytes] at hcall
  revert hcall
  generalize f (data.drop pos) = outcome
  generalize p (data.bytes.drop pos) = read
  intro hcall
  cases hcall with
  | none => exact .none
  | some a n hn =>
    rw [Slice.drop_length] at hn
    simp only [Outcome.value_bind, Outcome.sub_eq hpos]
    rw [Outcome.sub_eq (by simp only [Slice.drop_length]; omega), Outcome.value_bind,
      Outcome.add_eq (by simp only [Slice.drop_length]; omega), Outcome.value_bind]
    have hstop : pos + (data.length - pos - ((data.drop pos).drop n).length) = pos + n := by
      simp only [Slice.drop_length]
      omega
    rw [hstop, Slice.drop_bytes, List.drop_drop]
    exact .some a (pos + n) (Nat.le_add_right pos n) (by omega)

theorem follows_callUsing {f : Slice → Outcome Unit (α × Nat)}
    (h : ∀ rest : Slice, Agrees rest 0 (f rest) (p rest.bytes)) :
    Follows (callUsing f : Cursor data α) p := by
  intro pos hpos
  have hcall := h (data.drop pos)
  have hfits := data.length_lt
  simp only [callUsing, Slice.suffix_eq hpos, Outcome.value_bind]
  rw [Slice.drop_bytes] at hcall
  revert hcall
  generalize f (data.drop pos) = outcome
  generalize p (data.bytes.drop pos) = read
  intro hcall
  cases hcall with
  | none => exact .none
  | some a used _ hused =>
    rw [Slice.drop_length] at hused
    simp only [Outcome.value_bind]
    rw [Outcome.add_eq (by omega), Outcome.value_bind, Slice.drop_bytes, List.drop_drop]
    exact .some a (pos + used) (Nat.le_add_right pos used) (by omega)

theorem Follows.passed (h : Follows c p) : Follows (passed c) p.consumed := by
  intro start hstart
  have hrun := h start hstart
  unfold Cursor.passed Reader.consumed
  revert hrun
  generalize c start = outcome
  generalize p (data.bytes.drop start) = read
  intro hrun
  cases hrun with
  | none => exact .none
  | some a stop hle hstop =>
    have hrange : (data.range start stop : Outcome Unit Bytes) =
        .value ((data.bytes.drop start).take (stop - start)) := if_pos ⟨hle, hstop⟩
    have hstop' : stop ≤ data.bytes.length := hstop
    have hused : (data.bytes.drop start).length - (data.bytes.drop stop).length =
        stop - start := by
      rw [List.length_drop, List.length_drop]
      omega
    simp only [Outcome.value_bind, hrange, hused]
    exact .some _ stop hle hstop

theorem follows_callAt {whole : Slice} {offset : Nat} (hoffset : offset ≤ whole.length)
    {f : Nat → Outcome Unit (α × Nat)} (h : ∀ start, start ≤ whole.length →
      Agrees (whole.drop start) 0 (f start) (p (whole.bytes.drop start))) :
    Follows (callAt offset f : Cursor (whole.drop offset) α) p := by
  intro pos hpos
  rw [Slice.drop_length] at hpos
  have hfits := whole.length_lt
  have hcall := h (offset + pos) (by omega)
  rw [callAt, Outcome.add_eq (by omega), Outcome.value_bind, Slice.drop_bytes, List.drop_drop]
  revert hcall
  generalize f (offset + pos) = outcome
  generalize p (whole.bytes.drop (offset + pos)) = read
  intro hcall
  cases hcall with
  | none => exact .none
  | some a used _ hused =>
    rw [Slice.drop_length] at hused
    rw [Outcome.value_bind]
    dsimp only
    rw [Outcome.add_eq (by omega), Outcome.value_bind]
    have hdrop : (whole.drop (offset + pos)).bytes.drop used =
        (whole.drop offset).bytes.drop (pos + used) := by
      simp only [Slice.drop_bytes, List.drop_drop, Nat.add_assoc]
    rw [hdrop]
    exact .some a (pos + used) (Nat.le_add_right pos used) (by rw [Slice.drop_length]; omega)

end Cursor

end Dial9.Lib
