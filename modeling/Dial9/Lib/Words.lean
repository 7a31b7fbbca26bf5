/-
# Fixed-width little-endian words

A word of `w` bytes is written least significant byte first. Writing takes a
natural number and keeps it modulo `256 ^ w`, which is what a narrowing cast
followed by a little-endian store does; reading a word of `w` bytes back yields
exactly that residue.
-/

import Dial9.Lib.Reader
import Mathlib.Tactic.Ring
import Mathlib.Tactic.Linarith

namespace Dial9.Lib

/-- The `w` low bytes of `n`, least significant first. -/
def leBytes : Nat → Nat → Bytes
  | 0, _ => []
  | w + 1, n => UInt8.ofNat (n % 256) :: leBytes w (n / 256)

/-- The number a little-endian byte string denotes. -/
def leNat : Bytes → Nat
  | [] => 0
  | b :: bs => b.toNat + 256 * leNat bs

@[simp]
theorem leBytes_length (w n : Nat) : (leBytes w n).length = w := by
  induction w generalizing n with
  | zero => rfl
  | succ w ih => simp [leBytes, ih]

theorem leNat_lt (bs : Bytes) : leNat bs < 256 ^ bs.length := by
  induction bs with
  | nil => simp [leNat]
  | cons b bs ih =>
    have hb := b.toNat_lt
    simp only [leNat, List.length_cons, pow_succ]
    omega

theorem leNat_leBytes (w n : Nat) : leNat (leBytes w n) = n % 256 ^ w := by
  induction w generalizing n with
  | zero => simp [leBytes, leNat, Nat.mod_one]
  | succ w ih =>
    have hbyte : (UInt8.ofNat (n % 256)).toNat = n % 256 := by
      rw [UInt8.toNat_ofNat']
      omega
    rw [leBytes, leNat, ih, hbyte, pow_succ, Nat.mul_comm (256 ^ w) 256, Nat.mod_mul]

theorem leBytes_leNat (bs : Bytes) : leBytes bs.length (leNat bs) = bs := by
  induction bs with
  | nil => rfl
  | cons b bs ih =>
    have hb := b.toNat_lt
    have hmod : (b.toNat + 256 * leNat bs) % 256 = b.toNat := by omega
    have hdiv : (b.toNat + 256 * leNat bs) / 256 = leNat bs := by omega
    simp only [leNat, List.length_cons, leBytes, hmod, hdiv, ih]
    simp

/-! ## Either byte order -/

/-- The order in which a target stores the bytes of a word. -/
inductive ByteOrder where
  | little
  | big
  deriving DecidableEq

namespace ByteOrder

/-- The number that the bytes denote. -/
def nat : ByteOrder → Bytes → Nat
  | little, bs => leNat bs
  | big, bs => leNat bs.reverse

/-- The `w` low bytes of `n`. -/
def bytes : ByteOrder → Nat → Nat → Bytes
  | little, w, n => leBytes w n
  | big, w, n => (leBytes w n).reverse

variable {order : ByteOrder}

@[simp]
theorem bytes_length (w n : Nat) : (order.bytes w n).length = w := by
  cases order <;> simp [bytes]

theorem nat_bytes (w n : Nat) : order.nat (order.bytes w n) = n % 256 ^ w := by
  cases order <;> simp [nat, bytes, leNat_leBytes]

end ByteOrder

variable {n w : Nat}

namespace Reader

/-- A little-endian word of `w` bytes. -/
def word (w : Nat) : Reader Nat := do
  let b ← take w
  pure (leNat b)

def u16 : Reader UInt16 := do
  let n ← word 2
  pure (UInt16.ofNat n)

def u32 : Reader UInt32 := do
  let n ← word 4
  pure (UInt32.ofNat n)

def u64 : Reader UInt64 := do
  let n ← word 8
  pure (UInt64.ofNat n)

theorem word_eq_some {input rest : Bytes} (h : word w input = some (n, rest)) :
    n < 256 ^ w ∧ input = leBytes w n ++ rest := by
  obtain ⟨b, mid, htake, hpure⟩ := bind_eq_some.mp h
  obtain ⟨rfl, rfl⟩ : leNat b = n ∧ mid = rest := by simpa using hpure
  unfold take at htake
  split at htake
  · next hle =>
      obtain ⟨rfl, rfl⟩ : input.take w = b ∧ input.drop w = mid := by simpa using htake
      have hlen : (input.take w).length = w := by simp [hle]
      refine ⟨by simpa [hlen] using leNat_lt (input.take w), ?_⟩
      have hback := leBytes_leNat (input.take w)
      rw [hlen] at hback
      rw [hback, List.take_append_drop]
  · simp at htake

theorem reads_word (w n : Nat) : Reads (word w) (leBytes w n) (n % 256 ^ w) := by
  rw [← leNat_leBytes]
  exact (reads_take_of_length (leBytes_length w n)).map

theorem reads_word_of_lt (h : n < 256 ^ w) : Reads (word w) (leBytes w n) n := by
  simpa [Nat.mod_eq_of_lt h] using reads_word w n

theorem reads_u16 (v : UInt16) : Reads u16 (leBytes 2 v.toNat) v := by
  have h : Reads (word 2) (leBytes 2 v.toNat) v.toNat := reads_word_of_lt v.toNat_lt
  simpa [u16] using h.map (f := UInt16.ofNat)

theorem reads_u32 (v : UInt32) : Reads u32 (leBytes 4 v.toNat) v := by
  have h : Reads (word 4) (leBytes 4 v.toNat) v.toNat := reads_word_of_lt v.toNat_lt
  simpa [u32] using h.map (f := UInt32.ofNat)

theorem reads_u64 (v : UInt64) : Reads u64 (leBytes 8 v.toNat) v := by
  have h : Reads (word 8) (leBytes 8 v.toNat) v.toNat := reads_word_of_lt v.toNat_lt
  simpa [u64] using h.map (f := UInt64.ofNat)

theorem reads_u16_length (h : n < 2 ^ 16) : Reads u16 (leBytes 2 n) (UInt16.ofNat n) :=
  (reads_word_of_lt (w := 2) (by simpa using h)).map (f := UInt16.ofNat)

theorem reads_u32_length (h : n < 2 ^ 32) : Reads u32 (leBytes 4 n) (UInt32.ofNat n) :=
  (reads_word_of_lt (w := 4) (by simpa using h)).map (f := UInt32.ofNat)

theorem isLocal_word (w : Nat) : IsLocal (word w) :=
  (isLocal_take w).map _

theorem isLocal_u16 : IsLocal u16 := (isLocal_word 2).map _

theorem isLocal_u32 : IsLocal u32 := (isLocal_word 4).map _

theorem isLocal_u64 : IsLocal u64 := (isLocal_word 8).map _

end Reader

end Dial9.Lib
