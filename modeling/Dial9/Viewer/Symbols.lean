/-
# Symbolization in the two parsers

A trace names the frames of an address by symbol entries, one for each inline
depth. The ingest appends every entry to a list of its address and sorts the
list by depth; the browser's parser writes each entry into the slot of its
depth. Both expand a callchain by the entries of its addresses, the innermost
inlined callee first.
-/

import Dial9.Lib.Strings

namespace Dial9.Viewer

open Dial9.Lib

/-- A `SymbolTableEntry` event, as far as the two parsers use it for names. -/
structure SymbolEntry where
  addr : UInt64
  inlineDepth : Nat
  symbolName : Str
  deriving DecidableEq

/-- `0x` and the address in hexadecimal. -/
def hexText (addr : UInt64) : Str := "0x".toList ++ Nat.toDigits 16 addr.toNat

/-- A depth and a name. -/
abbrev Inline := Nat × Str

/-! ## The ingest -/

namespace Ingest

abbrev AddrToKeys := UInt64 → Option (List Inline)

def AddrToKeys.push (table : AddrToKeys) (sym : SymbolEntry) : AddrToKeys := fun addr =>
  if addr = sym.addr then some ((table addr).getD [] ++ [(sym.inlineDepth, sym.symbolName)])
  else table addr

/-- The table after all events of a trace. -/
def addrToKeys (symbols : List SymbolEntry) : AddrToKeys :=
  symbols.foldl AddrToKeys.push fun _ => none

/-- An arrangement `sort_unstable_by_key` may leave of a list of entries. -/
structure Arrangement (entries sorted : List Inline) : Prop where
  perm : sorted.Perm entries
  ascending : sorted.Pairwise fun e e' => e.1 ≤ e'.1

/-- A table whose lists have all been sorted by depth. -/
def Sorted (table sorted : AddrToKeys) : Prop :=
  ∀ addr,
    match table addr, sorted addr with
    | none, none => True
    | some entries, some arranged => Arrangement entries arranged
    | _, _ => False

/-- The frame names of a callchain, leaf to root. -/
def flattenCallchain (callchain : List UInt64) (table : AddrToKeys) : List Str :=
  callchain.flatMap fun addr =>
    match table addr with
    | some entries => entries.reverse.map Prod.snd
    | none => [hexText addr]

/-- What the hasher is fed: the names with NUL between them. -/
def joinNul (frames : List Str) : Str := ['\x00'].intercalate frames

/-- The stack id stored for a callchain. -/
def stackId {α : Type*} (hash : Str → α) (callchain : List UInt64) (table : AddrToKeys) : α :=
  hash (joinNul (flattenCallchain callchain table))

end Ingest

/-! ## The browser's parser -/

namespace Browser

/-- Indices from here on are plain properties of an array. -/
def arrayIndexBound : Nat := 2 ^ 32 - 1

/-- An array with holes. -/
structure SparseArray where
  length : Nat
  slots : Nat → Option Str

/-- An array literal with one element. -/
def SparseArray.singleton (name : Str) : SparseArray :=
  ⟨1, fun i => if i = 0 then some name else none⟩

/-- Assignment at an index. Behind the last index a property is set, which the
length and the elements do not show. -/
def SparseArray.set (arr : SparseArray) (index : Nat) (name : Str) : SparseArray :=
  if index < arrayIndexBound then
    ⟨max arr.length (index + 1), fun i => if i = index then some name else arr.slots i⟩
  else arr

/-- What the parser knows of an address. -/
inductive CallframeEntry where
  | frame (symbol : Str)
  | inlined (arr : SparseArray)

abbrev CallframeSymbols := Str → Option CallframeEntry

def CallframeSymbols.set (table : CallframeSymbols) (key : Str) (entry : CallframeEntry) :
    CallframeSymbols := fun other => if other = key then some entry else table other

/-- `processFrame` on a symbol entry. -/
def CallframeSymbols.process (table : CallframeSymbols) (sym : SymbolEntry) : CallframeSymbols :=
  let addrKey := hexText sym.addr
  if sym.inlineDepth = 0 then
    match table addrKey with
    | some (.inlined arr) => table.set addrKey (.inlined (arr.set 0 sym.symbolName))
    | _ => table.set addrKey (.frame sym.symbolName)
  else
    let arr := match table addrKey with
      | some (.inlined arr) => arr
      | some (.frame symbol) => .singleton symbol
      | none => .singleton addrKey
    table.set addrKey (.inlined (arr.set sym.inlineDepth sym.symbolName))

def callframeSymbols (symbols : List SymbolEntry) : CallframeSymbols :=
  symbols.foldl CallframeSymbols.process fun _ => none

/-- The elements from the last to the first, holes skipped. -/
def SparseArray.downward (arr : SparseArray) : List Str :=
  (List.range arr.length).reverse.filterMap arr.slots

/-- The frame names of a callchain of address strings, leaf to root. -/
def symbolizeChain (callchain : List Str) (table : CallframeSymbols) : List Str :=
  callchain.flatMap fun addr =>
    match table addr with
    | none => [addr]
    | some (.inlined arr) => arr.downward
    | some (.frame symbol) => [symbol]

end Browser

/-! ## Address texts -/

theorem digitChar_injective {m n : Nat} (hm : m < 16) (hn : n < 16)
    (h : m.digitChar = n.digitChar) : m = n := by
  have hall : ∀ i j : Fin 16, i.val.digitChar = j.val.digitChar → i = j := by decide
  exact congrArg Fin.val (hall ⟨m, hm⟩ ⟨n, hn⟩ h)

theorem toDigits_injective {m n : Nat} (h : Nat.toDigits 16 m = Nat.toDigits 16 n) : m = n := by
  induction m using Nat.strongRecOn generalizing n with
  | ind m ih =>
    rw [Nat.toDigits_eq_if (by decide), Nat.toDigits_eq_if (n := n) (by decide)] at h
    split at h
    · next hm =>
        split at h
        · next hn => exact digitChar_injective hm hn (List.cons.inj h).1
        · have hlength := congrArg List.length h
          have hpos : 0 < (Nat.toDigits 16 (n / 16)).length := Nat.length_toDigits_pos
          simp only [List.length_append, List.length_cons, List.length_nil] at hlength
          omega
    · next hm =>
        split at h
        · have hlength := congrArg List.length h
          have hpos : 0 < (Nat.toDigits 16 (m / 16)).length := Nat.length_toDigits_pos
          simp only [List.length_append, List.length_cons, List.length_nil] at hlength
          omega
        · rcases List.append_inj' h rfl with ⟨hhigh, hlow⟩
          have hquotient := ih (m / 16) (by omega) hhigh
          have hremainder := digitChar_injective (Nat.mod_lt m (by decide))
            (Nat.mod_lt n (by decide)) (List.cons.inj hlow).1
          omega

theorem hexText_injective : Function.Injective hexText := by
  intro a b h
  exact UInt64.toNat_inj.mp (toDigits_injective (List.append_cancel_left h))

theorem digitChar_ne_nul {n : Nat} (hn : n < 16) : '\x00' ≠ n.digitChar := by
  have hall : ∀ i : Fin 16, '\x00' ≠ i.val.digitChar := by decide
  exact hall ⟨n, hn⟩

theorem nul_not_mem_toDigits (n : Nat) : '\x00' ∉ Nat.toDigits 16 n := by
  induction n using Nat.strongRecOn with
  | ind n ih =>
    rw [Nat.toDigits_eq_if (by decide)]
    split
    · next hn => exact fun hmem => digitChar_ne_nul hn (List.mem_singleton.mp hmem)
    · intro hmem
      rcases List.mem_append.mp hmem with hmem | hmem
      · exact ih (n / 16) (by omega) hmem
      · exact digitChar_ne_nul (Nat.mod_lt n (by decide)) (List.mem_singleton.mp hmem)

theorem nul_not_mem_hexText (addr : UInt64) : '\x00' ∉ hexText addr := by
  simp [hexText, nul_not_mem_toDigits]

end Dial9.Viewer
