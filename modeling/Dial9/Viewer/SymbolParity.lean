/-
# Parity of the two symbolizations

Both parsers reduce a trace to what its symbol entries say about one address.
The ingest keeps all of them, the browser one for each depth, with a made-up
one at depth zero. The frame lists of all callchains agree exactly when no
address shows the difference: its depths are distinct and start at zero, or one
entry too many and the made-up one make up for each other.
-/

import Dial9.Viewer.Symbols
import Mathlib.Data.List.Sort

namespace Dial9.Viewer

open Dial9.Lib Ingest Browser

/-- The entries of one address, in recorded order. -/
def entriesOf (symbols : List SymbolEntry) (addr : UInt64) : List Inline :=
  symbols.filterMap fun sym =>
    if sym.addr = addr then some (sym.inlineDepth, sym.symbolName) else none

theorem entriesOf_append (symbols : List SymbolEntry) (sym : SymbolEntry) (addr : UInt64) :
    entriesOf (symbols ++ [sym]) addr =
      entriesOf symbols addr ++
        (if sym.addr = addr then [(sym.inlineDepth, sym.symbolName)] else []) := by
  unfold entriesOf
  rw [List.filterMap_append]
  split <;> simp [*]

/-! ## What each parser keeps of an address -/

theorem addrToKeys_eq (symbols : List SymbolEntry) (addr : UInt64) :
    addrToKeys symbols addr =
      if entriesOf symbols addr = [] then none else some (entriesOf symbols addr) := by
  induction symbols using List.reverseRecOn with
  | nil => rfl
  | append_singleton symbols sym ih =>
    have hpush : addrToKeys (symbols ++ [sym]) = (addrToKeys symbols).push sym := by
      simp [addrToKeys, List.foldl_append]
    rw [hpush, entriesOf_append]
    unfold AddrToKeys.push
    by_cases haddr : sym.addr = addr
    · rw [if_pos haddr.symm, if_pos haddr, if_neg (by simp), ih]
      split
      · next hnil => simp [hnil]
      · simp
    · rw [if_neg (fun h => haddr h.symm), if_neg haddr, List.append_nil, ih]

/-- The name last recorded at a depth. -/
def lastAt (entries : List Inline) (depth : Nat) : Option Str :=
  (entries.reverse.find? fun e => e.1 = depth).map Prod.snd

@[simp]
theorem lastAt_nil (depth : Nat) : lastAt [] depth = none := rfl

theorem lastAt_append (entries : List Inline) (depth' : Nat) (name : Str) (depth : Nat) :
    lastAt (entries ++ [(depth', name)]) depth =
      if depth' = depth then some name else lastAt entries depth := by
  unfold lastAt
  rw [List.reverse_append, List.reverse_singleton, List.singleton_append, List.find?_cons]
  by_cases h : depth' = depth <;> simp [h]

variable {depth : Nat}

theorem mem_of_lastAt {entries : List Inline} {name : Str} (h : lastAt entries depth = some name) :
    (depth, name) ∈ entries := by
  rcases Option.map_eq_some_iff.mp h with ⟨e, hfind, rfl⟩
  have hdepth : e.1 = depth := by simpa using List.find?_some hfind
  have hmem := List.mem_reverse.mp (List.mem_of_find?_eq_some hfind)
  rw [← hdepth]
  exact hmem

theorem lastAt_isSome {entries : List Inline} (h : depth ∈ entries.map Prod.fst) :
    ∃ name, lastAt entries depth = some name := by
  rcases List.mem_map.mp h with ⟨e, he, rfl⟩
  cases hfind : entries.reverse.find? fun e' => e'.1 = e.1 with
  | none =>
    have hnone := List.find?_eq_none.mp hfind e (List.mem_reverse.mpr he)
    simp at hnone
  | some e' => exact ⟨e'.2, by simp [lastAt, hfind]⟩

/-- The element the browser shows at an index. -/
def slotOf (addr : UInt64) (entries : List Inline) (index : Nat) : Option Str :=
  if index = 0 then some ((lastAt entries 0).getD (hexText addr))
  else if index < arrayIndexBound then lastAt entries index
  else none

/-- The browser's entry for an address after its symbol entries. -/
def Represents (addr : UInt64) (entries : List Inline) : Option CallframeEntry → Prop
  | none => entries = []
  | some (.frame symbol) => (∀ e ∈ entries, e.1 = 0) ∧ lastAt entries 0 = some symbol
  | some (.inlined arr) =>
    entries ≠ [] ∧ arr.slots = slotOf addr entries ∧
      0 < arr.length ∧ ∀ i, arr.slots i ≠ none → i < arr.length

theorem slotOf_append_zero (addr : UInt64) (entries : List Inline) (name : Str) :
    slotOf addr (entries ++ [(0, name)]) =
      fun i => if i = 0 then some name else slotOf addr entries i := by
  funext i
  unfold slotOf
  by_cases hi : i = 0
  · simp [hi, lastAt_append]
  · simp [hi, lastAt_append, Ne.symm hi]

theorem slotOf_append_succ (addr : UInt64) (entries : List Inline) (name : Str)
    (hdepth : depth ≠ 0) :
    slotOf addr (entries ++ [(depth, name)]) = fun i =>
      if i = depth ∧ depth < arrayIndexBound then some name else slotOf addr entries i := by
  funext i
  unfold slotOf
  by_cases hi : i = 0
  · simp [hi, lastAt_append, hdepth, Ne.symm hdepth]
  · by_cases hsame : depth = i
    · subst hsame
      by_cases hbound : depth < arrayIndexBound <;> simp [hi, lastAt_append, hbound]
    · simp [hi, lastAt_append, hsame, Ne.symm hsame]

theorem Represents.set {addr : UInt64} {entries : List Inline} {arr : SparseArray} {name : Str}
    (hpos : 0 < arr.length) (hbound : ∀ i, arr.slots i ≠ none → i < arr.length)
    (hslots : slotOf addr (entries ++ [(depth, name)]) = fun i =>
      if i = depth ∧ depth < arrayIndexBound then some name else arr.slots i) :
    Represents addr (entries ++ [(depth, name)]) (some (.inlined (arr.set depth name))) := by
  unfold SparseArray.set
  by_cases hdepth : depth < arrayIndexBound
  · rw [if_pos hdepth]
    refine ⟨by simp, ?_, ?_, ?_⟩
    · rw [hslots]
      simp [hdepth]
    · show 0 < max arr.length (depth + 1)
      omega
    · intro i hi
      show i < max arr.length (depth + 1)
      by_cases heq : i = depth
      · omega
      · have hold : arr.slots i ≠ none := by simpa [heq] using hi
        have := hbound i hold
        omega
  · rw [if_neg hdepth]
    refine ⟨by simp, ?_, hpos, hbound⟩
    rw [hslots]
    simp [hdepth]

theorem Represents.process {sym : SymbolEntry} {entries : List Inline} {table : CallframeSymbols}
    (h : Represents sym.addr entries (table (hexText sym.addr))) :
    Represents sym.addr (entries ++ [(sym.inlineDepth, sym.symbolName)])
      (table.process sym (hexText sym.addr)) := by
  have hset : ∀ entry, table.set (hexText sym.addr) entry (hexText sym.addr) = some entry :=
    fun entry => if_pos rfl
  unfold CallframeSymbols.process
  by_cases hdepth : sym.inlineDepth = 0
  · simp only [hdepth, if_true]
    cases htable : table (hexText sym.addr) with
    | none =>
      rw [htable] at h
      obtain rfl : entries = [] := h
      simp only [hset]
      exact ⟨by simp, by simp [lastAt]⟩
    | some entry =>
      cases entry with
      | frame symbol =>
        rw [htable] at h
        simp only [hset]
        refine ⟨?_, by rw [lastAt_append, if_pos rfl]⟩
        intro e he
        rcases List.mem_append.mp he with he | he
        · exact h.1 e he
        · rw [List.mem_singleton.mp he]
      | inlined arr =>
        rw [htable] at h
        rcases h with ⟨hne, hslots, hpos, hbound⟩
        simp only [hset]
        apply Represents.set hpos hbound
        rw [slotOf_append_zero, hslots]
        simp [arrayIndexBound]
  · simp only [hdepth, if_false, hset]
    have hsingleton : ∀ name, entries = [] ∧ name = hexText sym.addr ∨
        (∀ e ∈ entries, e.1 = 0) ∧ lastAt entries 0 = some name →
        slotOf sym.addr entries = (SparseArray.singleton name).slots := by
      rintro name hname
      funext i
      have hlater : i ≠ 0 → lastAt entries i = none := by
        intro hi
        cases hlast : lastAt entries i with
        | none => rfl
        | some last =>
          have hmem := mem_of_lastAt hlast
          rcases hname with ⟨rfl, -⟩ | ⟨hzero, -⟩
          · simp at hmem
          · exact absurd (hzero _ hmem) hi
      have hfirst : (lastAt entries 0).getD (hexText sym.addr) = name := by
        rcases hname with ⟨rfl, rfl⟩ | ⟨-, hlast⟩
        · rfl
        · simp [hlast]
      unfold slotOf SparseArray.singleton
      by_cases hi : i = 0
      · simp [hi, hfirst]
      · simp [hi, hlater hi]
    have hshort : ∀ name i, (SparseArray.singleton name).slots i ≠ none →
        i < (SparseArray.singleton name).length := by
      intro name i hi
      by_contra hge
      have hne : i ≠ 0 := by
        rintro rfl
        exact hge Nat.one_pos
      exact hi (if_neg hne)
    cases htable : table (hexText sym.addr) with
    | none =>
      rw [htable] at h
      simp only
      apply Represents.set Nat.one_pos (hshort _)
      rw [slotOf_append_succ _ _ _ hdepth, hsingleton _ (.inl ⟨h, rfl⟩)]
    | some entry =>
      cases entry with
      | frame symbol =>
        rw [htable] at h
        simp only
        apply Represents.set Nat.one_pos (hshort _)
        rw [slotOf_append_succ _ _ _ hdepth, hsingleton _ (.inr h)]
      | inlined arr =>
        rw [htable] at h
        rcases h with ⟨hne, hslots, hpos, hbound⟩
        simp only
        apply Represents.set hpos hbound
        rw [slotOf_append_succ _ _ _ hdepth, hslots]

theorem process_of_ne {sym : SymbolEntry} {addr : UInt64} (table : CallframeSymbols)
    (haddr : sym.addr ≠ addr) : table.process sym (hexText addr) = table (hexText addr) := by
  have hkey : hexText addr ≠ hexText sym.addr := fun h => haddr (hexText_injective h).symm
  have hset : ∀ entry, table.set (hexText sym.addr) entry (hexText addr) = table (hexText addr) :=
    fun entry => if_neg hkey
  unfold CallframeSymbols.process
  split
  · cases table (hexText sym.addr) with
    | none => exact hset _
    | some entry => cases entry <;> exact hset _
  · exact hset _

theorem represents_callframeSymbols (symbols : List SymbolEntry) (addr : UInt64) :
    Represents addr (entriesOf symbols addr) (callframeSymbols symbols (hexText addr)) := by
  induction symbols using List.reverseRecOn with
  | nil => exact rfl
  | append_singleton symbols sym ih =>
    have hprocess : callframeSymbols (symbols ++ [sym]) =
        (callframeSymbols symbols).process sym := by
      simp [callframeSymbols, List.foldl_append]
    rw [hprocess, entriesOf_append]
    by_cases haddr : sym.addr = addr
    · subst haddr
      rw [if_pos rfl]
      exact ih.process
    · rw [if_neg haddr, List.append_nil, process_of_ne _ haddr]
      exact ih

/-- The elements below an index that exist, with their indices. -/
def kept (addr : UInt64) (entries : List Inline) (length : Nat) : List Inline :=
  (List.range length).filterMap fun i => (slotOf addr entries i).map fun name => (i, name)

theorem downward_slotOf (addr : UInt64) (entries : List Inline) (length : Nat) :
    (List.range length).reverse.filterMap (slotOf addr entries) =
      (kept addr entries length).reverse.map Prod.snd := by
  unfold kept
  rw [List.filterMap_reverse, List.map_reverse, List.map_filterMap]
  congr 2
  funext i
  cases slotOf addr entries i <;> rfl

variable {symbols : List SymbolEntry}

/-- What the browser shows for one address with symbol entries. -/
theorem symbolizeChain_singleton {addr : UInt64} (hne : entriesOf symbols addr ≠ []) :
    ∃ length, 0 < length ∧
      (∀ i, slotOf addr (entriesOf symbols addr) i ≠ none → i < length) ∧
      symbolizeChain [hexText addr] (callframeSymbols symbols) =
        (kept addr (entriesOf symbols addr) length).reverse.map Prod.snd := by
  have hrepresents := represents_callframeSymbols symbols addr
  unfold symbolizeChain
  rw [List.flatMap_singleton]
  cases htable : callframeSymbols symbols (hexText addr) with
  | none =>
    rw [htable] at hrepresents
    exact absurd hrepresents hne
  | some entry =>
    cases entry with
    | frame symbol =>
      rw [htable] at hrepresents
      rcases hrepresents with ⟨hzero, hlast⟩
      refine ⟨1, Nat.one_pos, ?_, ?_⟩
      · intro i hi
        by_contra hge
        unfold slotOf at hi
        rw [if_neg (by omega)] at hi
        split at hi
        · rcases Option.ne_none_iff_exists'.mp hi with ⟨name, hname⟩
          have := hzero _ (mem_of_lastAt hname)
          simp only at this
          omega
        · exact hi rfl
      · rw [← downward_slotOf]
        simp [slotOf, hlast]
    | inlined arr =>
      rw [htable] at hrepresents
      rcases hrepresents with ⟨-, hslots, hpos, hbound⟩
      refine ⟨arr.length, hpos, hslots ▸ hbound, ?_⟩
      rw [← downward_slotOf, ← hslots]
      rfl

/-! ## Comparing the two lists -/

theorem mem_kept {addr : UInt64} {entries : List Inline} {length : Nat}
    (hbound : ∀ i, slotOf addr entries i ≠ none → i < length) {e : Inline} :
    e ∈ kept addr entries length ↔ slotOf addr entries e.1 = some e.2 := by
  unfold kept
  rw [List.mem_filterMap]
  constructor
  · rintro ⟨i, -, hi⟩
    rcases Option.map_eq_some_iff.mp hi with ⟨name, hname, rfl⟩
    exact hname
  · intro hslot
    refine ⟨e.1, List.mem_range.mpr (hbound e.1 (by simp [hslot])), ?_⟩
    rw [hslot]
    rfl

theorem kept_ascending (addr : UInt64) (entries : List Inline) (length : Nat) :
    (kept addr entries length).Pairwise fun e e' => e.1 < e'.1 := by
  unfold kept
  rw [List.pairwise_filterMap]
  apply List.pairwise_lt_range.imp
  intro i j hij e he e' he'
  rcases Option.map_eq_some_iff.mp he with ⟨name, -, rfl⟩
  rcases Option.map_eq_some_iff.mp he' with ⟨name', -, rfl⟩
  exact hij

theorem kept_nodup (addr : UInt64) (entries : List Inline) (length : Nat) :
    (kept addr entries length).Nodup := by
  apply (kept_ascending addr entries length).imp
  rintro e e' hlt rfl
  exact lt_irrefl _ hlt

theorem Ingest.Arrangement.map_snd_eq {entries sorted sorted' : List Inline}
    (h : Arrangement entries sorted) (h' : Arrangement entries sorted')
    (hnames : ∀ e ∈ entries, ∀ e' ∈ entries, e.1 = e'.1 → e.2 = e'.2) :
    sorted.map Prod.snd = sorted'.map Prod.snd := by
  have hsame : sorted = sorted' := by
    apply List.Perm.eq_of_pairwise _ h.ascending h'.ascending (h.perm.trans h'.perm.symm)
    intro e e' he he' hle hge
    have hdepth := le_antisymm hle hge
    exact Prod.ext hdepth (hnames e (h.perm.mem_iff.mp he) e' (h'.perm.mem_iff.mp he') hdepth)
  rw [hsame]

/-- Insertion behind the entries of the same depth. -/
def insertBehind (extra : Inline) : List Inline → List Inline
  | [] => [extra]
  | e :: entries => if extra.1 < e.1 then extra :: e :: entries else e :: insertBehind extra entries

theorem insertBehind_perm (extra : Inline) (entries : List Inline) :
    (insertBehind extra entries).Perm (extra :: entries) := by
  induction entries with
  | nil => exact .refl _
  | cons e entries ih =>
    unfold insertBehind
    split
    · exact .refl _
    · exact (ih.cons e).trans (.swap extra e entries)

theorem insertBehind_ascending (extra : Inline) {entries : List Inline}
    (h : entries.Pairwise fun e e' => e.1 ≤ e'.1) :
    (insertBehind extra entries).Pairwise fun e e' => e.1 ≤ e'.1 := by
  induction entries with
  | nil => exact List.pairwise_singleton _ _
  | cons e entries ih =>
    rcases List.pairwise_cons.mp h with ⟨hfirst, hrest⟩
    unfold insertBehind
    split
    · next hlt =>
        refine List.pairwise_cons.mpr ⟨?_, h⟩
        intro e' he'
        rcases List.mem_cons.mp he' with rfl | he'
        · exact le_of_lt hlt
        · exact le_trans (le_of_lt hlt) (hfirst e' he')
    · next hge =>
        refine List.pairwise_cons.mpr ⟨?_, ih hrest⟩
        intro e' he'
        rcases List.mem_cons.mp ((insertBehind_perm extra entries).mem_iff.mp he') with rfl | he'
        · exact not_lt.mp hge
        · exact hfirst e' he'

theorem exists_arrangement (entries : List Inline) : ∃ sorted, Arrangement entries sorted := by
  induction entries with
  | nil => exact ⟨[], .refl _, .nil⟩
  | cons e entries ih =>
    rcases ih with ⟨sorted, hsorted⟩
    exact ⟨insertBehind e sorted, (insertBehind_perm e sorted).trans (hsorted.perm.cons e),
      insertBehind_ascending e hsorted.ascending⟩

/-- An inserted entry and a made-up first one have the same effect on the names
exactly when every name up to the insertion is the made-up one. -/
theorem insertBehind_map_snd_iff (extra : Inline) (text : Str) {entries : List Inline}
    (h : entries.Pairwise fun e e' => e.1 ≤ e'.1) :
    (insertBehind extra entries).map Prod.snd = text :: entries.map Prod.snd ↔
      extra.2 = text ∧ ∀ e ∈ entries, e.1 ≤ extra.1 → e.2 = text := by
  induction entries with
  | nil => simp [insertBehind]
  | cons e entries ih =>
    rcases List.pairwise_cons.mp h with ⟨hfirst, hrest⟩
    unfold insertBehind
    split
    · next hlt =>
        have hlater : ∀ e' ∈ e :: entries, ¬ e'.1 ≤ extra.1 := by
          intro e' he'
          rcases List.mem_cons.mp he' with rfl | he'
          · exact not_le.mpr hlt
          · exact not_le.mpr (lt_of_lt_of_le hlt (hfirst e' he'))
        constructor
        · intro hnames
          exact ⟨(List.cons.inj hnames).1, fun e' he' hle => absurd hle (hlater e' he')⟩
        · rintro ⟨htext, -⟩
          simp [htext]
    · next hge =>
        have hle := not_lt.mp hge
        rw [List.map_cons, List.map_cons, List.cons.injEq]
        constructor
        · rintro ⟨htext, hnames⟩
          rw [← htext] at ih
          rcases (ih hrest).mp hnames with ⟨hextra, hearlier⟩
          refine ⟨hextra.trans htext, ?_⟩
          intro e' he' hle'
          rcases List.mem_cons.mp he' with rfl | he'
          · exact htext
          · exact (hearlier e' he' hle').trans htext
        · rintro ⟨hextra, hearlier⟩
          have htext := hearlier e (by simp) hle
          refine ⟨htext, ?_⟩
          rw [htext]
          exact (ih hrest).mpr
            ⟨hextra, fun e' he' => hearlier e' (List.mem_cons_of_mem _ he')⟩

/-! ## When an address shows no difference -/

/-- One entry for each of some depths, the outermost among them. -/
structure Regular (entries : List Inline) : Prop where
  zero : 0 ∈ entries.map Prod.fst
  distinct : (entries.map Prod.fst).Nodup
  bounded : ∀ e ∈ entries, e.1 < arrayIndexBound

/-- The outermost entry is missing, one other is superfluous (its depth is
recorded twice, or is no array index), and up to that one all names are the text
of the address, as is the name the browser makes up. -/
structure Compensated (addr : UInt64) (entries : List Inline) (extra : Inline) : Prop where
  mem : extra ∈ entries
  noZero : 0 ∉ entries.map Prod.fst
  distinct : ((entries.erase extra).map Prod.fst).Nodup
  bounded : ∀ e ∈ entries.erase extra, e.1 < arrayIndexBound
  hidden : arrayIndexBound ≤ extra.1 ∨ extra.1 ∈ (entries.erase extra).map Prod.fst
  names : ∀ e ∈ entries, e.1 ≤ extra.1 → e.2 = hexText addr

/-- The condition on the entries of one address. -/
def NamesAgree (addr : UInt64) (entries : List Inline) : Prop :=
  entries = [] ∨ Regular entries ∨ ∃ extra, Compensated addr entries extra

section Kept

variable {addr : UInt64} {entries : List Inline} {length : Nat}
  (hbound : ∀ i, slotOf addr entries i ≠ none → i < length)

include hbound

theorem lt_of_mem_kept {e : Inline} (he : e ∈ kept addr entries length) :
    e.1 < arrayIndexBound := by
  have hslot := (mem_kept hbound).mp he
  unfold slotOf at hslot
  split at hslot
  · next hzero =>
      rw [hzero]
      decide
  · split at hslot
    · assumption
    · simp at hslot

theorem mem_of_mem_kept {e : Inline} (he : e ∈ kept addr entries length)
    (hzero : e.1 = 0 → 0 ∈ entries.map Prod.fst) : e ∈ entries := by
  have hslot := (mem_kept hbound).mp he
  unfold slotOf at hslot
  split at hslot
  · next hfirst =>
      rcases lastAt_isSome (hzero hfirst) with ⟨name, hname⟩
      rw [hname, Option.getD_some, Option.some.injEq] at hslot
      have hmem := mem_of_lastAt hname
      rw [hslot, ← hfirst] at hmem
      exact hmem
  · split at hslot
    · exact mem_of_lastAt hslot
    · simp at hslot

theorem mem_kept_of_lastAt {name : Str} (hdepth : depth < arrayIndexBound)
    (h : lastAt entries depth = some name) : (depth, name) ∈ kept addr entries length := by
  rw [mem_kept hbound]
  unfold slotOf
  split
  · next hzero =>
      have hzero : depth = 0 := hzero
      rw [← hzero, h]
      rfl
  · simpa [hdepth] using h

theorem kept_eq_cons (hzero : 0 ∉ entries.map Prod.fst) :
    ∃ rest, kept addr entries length = (0, hexText addr) :: rest := by
  have hnone : lastAt entries 0 = none := by
    cases hlast : lastAt entries 0 with
    | none => rfl
    | some name => exact absurd (List.mem_map.mpr ⟨_, mem_of_lastAt hlast, rfl⟩) hzero
  have hmem : (0, hexText addr) ∈ kept addr entries length := by
    rw [mem_kept hbound]
    simp [slotOf, hnone]
  have hascending := kept_ascending addr entries length
  cases hkept : kept addr entries length with
  | nil => simp [hkept] at hmem
  | cons e rest =>
    rw [hkept] at hmem hascending
    rcases List.mem_cons.mp hmem with rfl | hlater
    · exact ⟨rest, rfl⟩
    · exact absurd ((List.pairwise_cons.mp hascending).1 _ hlater) (Nat.not_lt_zero _)

theorem regular_of_map_snd_eq (hzero : 0 ∈ entries.map Prod.fst)
    (hlength : entries.length = (kept addr entries length).length) : Regular entries := by
  have hsubset : kept addr entries length ⊆ entries := fun e he =>
    mem_of_mem_kept hbound he fun _ => hzero
  have hperm : (kept addr entries length).Perm entries :=
    (List.subperm_of_subset (kept_nodup addr entries length) hsubset).perm_of_length_le
      (le_of_eq hlength)
  refine ⟨hzero, ?_, fun e he => lt_of_mem_kept hbound (hperm.mem_iff.mpr he)⟩
  rw [← (hperm.map Prod.fst).nodup_iff]
  exact (List.pairwise_map.mpr (kept_ascending addr entries length)).imp fun hlt => ne_of_lt hlt

theorem compensated_of_map_snd_eq (hzero : 0 ∉ entries.map Prod.fst)
    (hall : ∀ sorted, Arrangement entries sorted →
      sorted.map Prod.snd = (kept addr entries length).map Prod.snd) :
    ∃ extra, Compensated addr entries extra := by
  rcases kept_eq_cons hbound hzero with ⟨rest, hkept⟩
  have hmemkept : ∀ e ∈ rest, e ∈ kept addr entries length := fun e he => by
    rw [hkept]
    exact List.mem_cons_of_mem _ he
  have hascending := List.pairwise_cons.mp (hkept ▸ kept_ascending addr entries length)
  have hsubset : rest ⊆ entries := by
    intro e he
    apply mem_of_mem_kept hbound (hmemkept e he)
    intro hfirst
    exact absurd (hascending.1 e he) (by rw [hfirst]; exact lt_irrefl _)
  have hlength : entries.length = rest.length + 1 := by
    rcases exists_arrangement entries with ⟨sorted, hsorted⟩
    have hnames := congrArg List.length (hall sorted hsorted)
    rw [hkept, List.length_map, List.length_map, List.length_cons] at hnames
    exact hsorted.perm.length_eq.symm.trans hnames
  have hnodup : rest.Nodup := hascending.2.imp fun hlt heq => ne_of_lt hlt (congrArg Prod.fst heq)
  rcases (List.subperm_of_subset hnodup hsubset).exists_of_length_lt (by omega) with
    ⟨extra, hextra⟩
  have hperm : (extra :: rest).Perm entries :=
    hextra.perm_of_length_le (le_of_eq hlength)
  have herase : (entries.erase extra).Perm rest := by
    have h := hperm.symm.erase extra
    rwa [List.erase_cons_head] at h
  have hmem : extra ∈ entries := hperm.mem_iff.mp List.mem_cons_self
  have harrangement : Arrangement entries (insertBehind extra rest) :=
    ⟨(insertBehind_perm extra rest).trans hperm,
      insertBehind_ascending extra (hascending.2.imp le_of_lt)⟩
  have hnames := hall _ harrangement
  rw [hkept, List.map_cons] at hnames
  rcases (insertBehind_map_snd_iff extra (hexText addr) (hascending.2.imp le_of_lt)).mp hnames
    with ⟨hextraname, hearlier⟩
  refine ⟨extra, hmem, hzero, ?_, ?_, ?_, ?_⟩
  · rw [(herase.map Prod.fst).nodup_iff]
    exact (List.pairwise_map.mpr hascending.2).imp fun hlt => ne_of_lt hlt
  · intro e he
    exact lt_of_mem_kept hbound (hmemkept e (herase.mem_iff.mp he))
  · by_cases hdepth : arrayIndexBound ≤ extra.1
    · exact .inl hdepth
    · right
      rcases lastAt_isSome (List.mem_map.mpr ⟨extra, hmem, rfl⟩) with ⟨name, hname⟩
      have htwin := mem_kept_of_lastAt hbound (not_le.mp hdepth) hname
      rw [hkept] at htwin
      rcases List.mem_cons.mp htwin with hfirst | htwin
      · have hdepth0 : extra.1 = 0 := congrArg Prod.fst hfirst
        exact absurd (List.mem_map.mpr ⟨extra, hmem, hdepth0⟩) hzero
      · exact List.mem_map.mpr ⟨_, herase.mem_iff.mpr htwin, rfl⟩
  · intro e he hle
    rcases List.mem_cons.mp (hperm.mem_iff.mpr he) with rfl | he
    · exact hextraname
    · exact hearlier e he hle

theorem Regular.map_snd_eq (h : Regular entries) {sorted : List Inline}
    (hsorted : Arrangement entries sorted) :
    sorted.map Prod.snd = (kept addr entries length).map Prod.snd := by
  have hunique : ∀ e ∈ entries, ∀ e' ∈ entries, e.1 = e'.1 → e = e' :=
    fun e he e' he' => List.inj_on_of_nodup_map h.distinct he he'
  have hmem : ∀ e, e ∈ kept addr entries length ↔ e ∈ entries := by
    intro e
    constructor
    · exact fun he => mem_of_mem_kept hbound he fun _ => h.zero
    · intro he
      rcases lastAt_isSome (List.mem_map.mpr ⟨e, he, rfl⟩) with ⟨name, hname⟩
      have hsame := hunique e he (e.1, name) (mem_of_lastAt hname) rfl
      rw [hsame]
      exact mem_kept_of_lastAt hbound (h.bounded e he) hname
  have hperm : (kept addr entries length).Perm entries :=
    (List.perm_ext_iff_of_nodup (kept_nodup addr entries length)
      (List.Nodup.of_map _ h.distinct)).mpr hmem
  have hkept : Arrangement entries (kept addr entries length) :=
    ⟨hperm, (kept_ascending addr entries length).imp le_of_lt⟩
  exact hsorted.map_snd_eq hkept fun e he e' he' heq => congrArg Prod.snd (hunique e he e' he' heq)

theorem Compensated.map_snd_eq {extra : Inline} (h : Compensated addr entries extra)
    {sorted : List Inline} (hsorted : Arrangement entries sorted) :
    sorted.map Prod.snd = (kept addr entries length).map Prod.snd := by
  rcases kept_eq_cons hbound h.noZero with ⟨rest, hkept⟩
  have hascending := List.pairwise_cons.mp (hkept ▸ kept_ascending addr entries length)
  have hentries : entries.Perm (extra :: entries.erase extra) := List.perm_cons_erase h.mem
  have hsplit : ∀ e, e ∈ entries ↔ e = extra ∨ e ∈ entries.erase extra := fun e =>
    hentries.mem_iff.trans List.mem_cons
  have hunique : ∀ e ∈ entries.erase extra, ∀ e' ∈ entries.erase extra, e.1 = e'.1 → e = e' :=
    fun e he e' he' => List.inj_on_of_nodup_map h.distinct he he'
  have hnames : ∀ e ∈ entries, ∀ e' ∈ entries, e.1 = e'.1 → e.2 = e'.2 := by
    intro e he e' he' heq
    by_cases hle : e.1 ≤ extra.1
    · exact (h.names e he hle).trans (h.names e' he' (heq ▸ hle)).symm
    · have hlater : ∀ e ∈ entries, ¬ e.1 ≤ extra.1 → e ∈ entries.erase extra := by
        intro e he hnot
        rcases (hsplit e).mp he with rfl | he
        · exact absurd le_rfl hnot
        · exact he
      rw [hunique e (hlater e he hle) e' (hlater e' he' (heq ▸ hle)) heq]
  have hmem : ∀ e, e ∈ rest ↔ e ∈ entries.erase extra := by
    intro e
    constructor
    · intro he
      have hmemkept : e ∈ kept addr entries length := by
        rw [hkept]
        exact List.mem_cons_of_mem _ he
      have hpos := hascending.1 e he
      have hmem := mem_of_mem_kept hbound hmemkept fun hfirst =>
        absurd hpos (by rw [hfirst]; exact lt_irrefl _)
      rcases (hsplit e).mp hmem with rfl | hmem
      · rcases h.hidden with hlarge | htwin
        · exact absurd (lt_of_mem_kept hbound hmemkept) (not_lt.mpr hlarge)
        · rcases List.mem_map.mp htwin with ⟨twin, htwin, hdepth⟩
          have hname := hnames twin (List.mem_of_mem_erase htwin) e hmem hdepth
          rwa [Prod.ext hdepth hname] at htwin
      · exact hmem
    · intro he
      have hentry := List.mem_of_mem_erase he
      rcases lastAt_isSome (List.mem_map.mpr ⟨e, hentry, rfl⟩) with ⟨name, hname⟩
      have hsame : e.2 = name := hnames e hentry (e.1, name) (mem_of_lastAt hname) rfl
      have hmemkept := mem_kept_of_lastAt hbound (h.bounded e he) hname
      rw [← hsame, hkept] at hmemkept
      rcases List.mem_cons.mp hmemkept with hfirst | hmemrest
      · have hzero : e.1 = 0 := congrArg Prod.fst hfirst
        exact absurd (List.mem_map.mpr ⟨e, hentry, hzero⟩) h.noZero
      · exact hmemrest
  have hnodup : rest.Nodup := hascending.2.imp fun hlt heq => ne_of_lt hlt (congrArg Prod.fst heq)
  have hrest : rest.Perm (entries.erase extra) :=
    (List.perm_ext_iff_of_nodup hnodup (List.Nodup.of_map _ h.distinct)).mpr hmem
  have harrangement : Arrangement entries (insertBehind extra rest) :=
    ⟨(insertBehind_perm extra rest).trans ((hrest.cons extra).trans hentries.symm),
      insertBehind_ascending extra (hascending.2.imp le_of_lt)⟩
  have hinsert := (insertBehind_map_snd_iff extra (hexText addr)
    (hascending.2.imp le_of_lt)).mpr ⟨h.names extra h.mem le_rfl, fun e he =>
      h.names e (List.mem_of_mem_erase ((hmem e).mp he))⟩
  rw [hsorted.map_snd_eq harrangement hnames, hinsert, hkept]
  rfl

/-- The arranged names of an address are the browser's exactly under the
condition. -/
theorem map_snd_eq_kept_iff (hne : entries ≠ []) :
    (∀ sorted, Arrangement entries sorted →
      sorted.map Prod.snd = (kept addr entries length).map Prod.snd) ↔
      NamesAgree addr entries := by
  constructor
  · intro hall
    right
    by_cases hzero : 0 ∈ entries.map Prod.fst
    · left
      apply regular_of_map_snd_eq hbound hzero
      rcases exists_arrangement entries with ⟨sorted, hsorted⟩
      have hlength := congrArg List.length (hall sorted hsorted)
      rw [List.length_map, List.length_map] at hlength
      exact hsorted.perm.length_eq.symm.trans hlength
    · exact .inr (compensated_of_map_snd_eq hbound hzero hall)
  · rintro (hnil | hregular | ⟨extra, hextra⟩) sorted hsorted
    · exact absurd hnil hne
    · exact hregular.map_snd_eq hbound hsorted
    · exact hextra.map_snd_eq hbound hsorted

end Kept

/-! ## All callchains of a trace -/

variable {table sorted : AddrToKeys}

theorem Ingest.Sorted.of_none (h : Sorted table sorted)
    {addr : UInt64} (hnone : table addr = none) : sorted addr = none := by
  have haddr := h addr
  rw [hnone] at haddr
  cases hsorted : sorted addr with
  | none => rfl
  | some arranged => simp [hsorted] at haddr

theorem Ingest.Sorted.of_some (h : Sorted table sorted)
    {addr : UInt64} {entries : List Inline} (hsome : table addr = some entries) :
    ∃ arranged, sorted addr = some arranged ∧ Arrangement entries arranged := by
  have haddr := h addr
  rw [hsome] at haddr
  cases hsorted : sorted addr with
  | none => simp [hsorted] at haddr
  | some arranged =>
    rw [hsorted] at haddr
    exact ⟨arranged, rfl, haddr⟩

theorem exists_sorted (table : AddrToKeys) {addr : UInt64} {entries arranged : List Inline}
    (hsome : table addr = some entries) (harranged : Arrangement entries arranged) :
    ∃ sorted, Sorted table sorted ∧ sorted addr = some arranged := by
  classical
  refine ⟨fun other => if other = addr then some arranged
    else (table other).map fun entries => (exists_arrangement entries).choose, ?_, if_pos rfl⟩
  intro other
  by_cases hother : other = addr
  · subst hother
    simpa [hsome] using harranged
  · cases htable : table other with
    | none => simp [hother, htable]
    | some entries => simpa [hother, htable] using (exists_arrangement entries).choose_spec

theorem addr_names_eq_iff (symbols : List SymbolEntry) (addr : UInt64) :
    (∀ sorted, Sorted (addrToKeys symbols) sorted →
      flattenCallchain [addr] sorted =
        symbolizeChain [hexText addr] (callframeSymbols symbols)) ↔
      NamesAgree addr (entriesOf symbols addr) := by
  by_cases hnil : entriesOf symbols addr = []
  · have hnone : addrToKeys symbols addr = none := by
      rw [addrToKeys_eq, if_pos hnil]
    have hbrowser : callframeSymbols symbols (hexText addr) = none := by
      have hrepresents := represents_callframeSymbols symbols addr
      rw [hnil] at hrepresents
      cases htable : callframeSymbols symbols (hexText addr) with
      | none => rfl
      | some entry =>
        rw [htable] at hrepresents
        cases entry with
        | frame symbol => simp [Represents] at hrepresents
        | inlined arr => exact absurd rfl hrepresents.1
    refine ⟨fun _ => .inl hnil, fun _ sorted hsorted => ?_⟩
    simp [flattenCallchain, symbolizeChain, hsorted.of_none hnone, hbrowser]
  · have hsome : addrToKeys symbols addr = some (entriesOf symbols addr) := by
      rw [addrToKeys_eq, if_neg hnil]
    rcases symbolizeChain_singleton hnil with ⟨length, -, hbound, hbrowser⟩
    rw [← map_snd_eq_kept_iff hbound hnil, hbrowser]
    have hflatten : ∀ {sorted : AddrToKeys} {arranged : List Inline}, sorted addr = some arranged →
        (flattenCallchain [addr] sorted =
          (kept addr (entriesOf symbols addr) length).reverse.map Prod.snd ↔
        arranged.map Prod.snd =
          (kept addr (entriesOf symbols addr) length).map Prod.snd) := by
      intro sorted arranged haddr
      simp [flattenCallchain, haddr]
    constructor
    · intro hall arranged harranged
      rcases exists_sorted _ hsome harranged with ⟨sorted, hsorted, haddr⟩
      exact (hflatten haddr).mp (hall sorted hsorted)
    · intro hall sorted hsorted
      rcases hsorted.of_some hsome with ⟨arranged, haddr, harranged⟩
      exact (hflatten haddr).mpr (hall arranged harranged)

theorem flattenCallchain_eq_flatMap (callchain : List UInt64) (table : AddrToKeys) :
    flattenCallchain callchain table = callchain.flatMap fun addr =>
      flattenCallchain [addr] table := by
  simp [flattenCallchain]

theorem symbolizeChain_map (callchain : List UInt64) (table : CallframeSymbols) :
    symbolizeChain (callchain.map hexText) table =
      callchain.flatMap fun addr => symbolizeChain [hexText addr] table := by
  simp [symbolizeChain, List.flatMap_map]

theorem flattenCallchain_ne_nil {sorted : AddrToKeys}
    (hsorted : Sorted (addrToKeys symbols) sorted) {callchain : List UInt64}
    (hne : callchain ≠ []) : flattenCallchain callchain sorted ≠ [] := by
  cases callchain with
  | nil => exact absurd rfl hne
  | cons addr callchain =>
    intro hnil
    have hfirst := (List.append_eq_nil_iff.mp hnil).1
    by_cases hentries : entriesOf symbols addr = []
    · have hnone := @Ingest.Sorted.of_none _ _ hsorted addr (by rw [addrToKeys_eq, if_pos hentries])
      simp [hnone] at hfirst
    · rcases @Ingest.Sorted.of_some _ _ hsorted addr _ (by rw [addrToKeys_eq, if_neg hentries]) with
        ⟨arranged, haddr, harranged⟩
      have harrangednil : arranged = [] := by simpa [haddr] using hfirst
      rw [harrangednil] at harranged
      exact hentries harranged.perm.symm.eq_nil

theorem nul_not_mem_flattenCallchain {sorted : AddrToKeys}
    (hsorted : Sorted (addrToKeys symbols) sorted)
    (hnames : ∀ sym ∈ symbols, '\x00' ∉ sym.symbolName) {callchain : List UInt64} {frame : Str}
    (hframe : frame ∈ flattenCallchain callchain sorted) : '\x00' ∉ frame := by
  rcases List.mem_flatMap.mp hframe with ⟨addr, -, hframe⟩
  by_cases hentries : entriesOf symbols addr = []
  · have hnone := @Ingest.Sorted.of_none _ _ hsorted addr (by rw [addrToKeys_eq, if_pos hentries])
    rw [hnone] at hframe
    rw [List.mem_singleton.mp hframe]
    exact nul_not_mem_hexText addr
  · rcases @Ingest.Sorted.of_some _ _ hsorted addr _ (by rw [addrToKeys_eq, if_neg hentries]) with
      ⟨arranged, haddr, harranged⟩
    rw [haddr] at hframe
    rcases List.mem_map.mp hframe with ⟨e, he, rfl⟩
    have hentry := harranged.perm.mem_iff.mp (List.mem_reverse.mp he)
    rcases List.mem_filterMap.mp hentry with ⟨sym, hsym, hsome⟩
    split at hsome
    · rw [← Option.some.inj hsome]
      exact hnames sym hsym
    · simp at hsome

theorem joinNul_inj {frames frames' : List Str} (hne : frames ≠ []) (hne' : frames' ≠ [])
    (hnul : ∀ frame ∈ frames, '\x00' ∉ frame) (hnul' : ∀ frame ∈ frames', '\x00' ∉ frame)
    (h : joinNul frames = joinNul frames') : frames = frames' := by
  rw [← List.splitOn_intercalate '\x00' hnul hne, ← List.splitOn_intercalate '\x00' hnul' hne']
  exact congrArg _ h

/-- What the two parsers make of the samples of a trace: the same frame names,
and stack ids that tell two samples apart exactly when the names differ. -/
structure SymbolizationAgrees {α : Type*} (hash : Str → α) (symbols : List SymbolEntry)
    (sorted : AddrToKeys) : Prop where
  names : ∀ callchain : List UInt64, callchain ≠ [] →
    flattenCallchain callchain sorted =
      symbolizeChain (callchain.map hexText) (callframeSymbols symbols)
  ids : ∀ callchain callchain' : List UInt64, callchain ≠ [] → callchain' ≠ [] →
    (stackId hash callchain sorted = stackId hash callchain' sorted ↔
      symbolizeChain (callchain.map hexText) (callframeSymbols symbols) =
        symbolizeChain (callchain'.map hexText) (callframeSymbols symbols))

theorem symbolization_agrees_iff {α : Type*} {hash : Str → α} (hhash : ∀ frames frames' : List Str,
      hash (joinNul frames) = hash (joinNul frames') → joinNul frames = joinNul frames')
    (symbols : List SymbolEntry) (hnames : ∀ sym ∈ symbols, '\x00' ∉ sym.symbolName) :
    (∀ sorted, Sorted (addrToKeys symbols) sorted → SymbolizationAgrees hash symbols sorted) ↔
      ∀ addr, NamesAgree addr (entriesOf symbols addr) := by
  constructor
  · intro hagrees addr
    rw [← addr_names_eq_iff]
    intro sorted hsorted
    exact (hagrees sorted hsorted).names [addr] (by simp)
  · intro haddrs sorted hsorted
    have hsame : ∀ callchain : List UInt64, flattenCallchain callchain sorted =
        symbolizeChain (callchain.map hexText) (callframeSymbols symbols) := by
      intro callchain
      rw [flattenCallchain_eq_flatMap, symbolizeChain_map]
      apply List.flatMap_congr
      intro addr _
      exact (addr_names_eq_iff symbols addr).mpr (haddrs addr) sorted hsorted
    refine ⟨fun callchain _ => hsame callchain, ?_⟩
    intro callchain callchain' hne hne'
    rw [← hsame, ← hsame]
    constructor
    · intro hid
      exact joinNul_inj (flattenCallchain_ne_nil hsorted hne) (flattenCallchain_ne_nil hsorted hne')
        (fun frame => nul_not_mem_flattenCallchain hsorted hnames)
        (fun frame => nul_not_mem_flattenCallchain hsorted hnames) (hhash _ _ hid)
    · intro hframes
      unfold stackId
      rw [hframes]

/-! ## A repeated entry and a missing one -/

/-- Two functions: the entry of one is recorded twice, and of the other only the
inlined callee. -/
def driftingSymbols : List SymbolEntry :=
  [⟨0x10, 0, "main".toList⟩, ⟨0x10, 0, "main".toList⟩, ⟨0x20, 1, "inner".toList⟩]

theorem sorted_driftingSymbols :
    Sorted (addrToKeys driftingSymbols) (addrToKeys driftingSymbols) := by
  intro addr
  rw [addrToKeys_eq]
  by_cases hnil : entriesOf driftingSymbols addr = []
  · simp [hnil]
  · simp only [hnil, if_false]
    refine ⟨.refl _, ?_⟩
    by_cases h16 : addr = 0x10
    · subst h16
      decide
    · by_cases h32 : addr = 0x20
      · subst h32
        decide
      · exact absurd (by simp [entriesOf, driftingSymbols, Ne.symm h16, Ne.symm h32]) hnil

/-- The ingest stores a frame for each of the two equal entries, and the browser
shows a frame that no entry names. -/
theorem names_driftingSymbols :
    Sorted (addrToKeys driftingSymbols) (addrToKeys driftingSymbols) ∧
      flattenCallchain [0x10] (addrToKeys driftingSymbols) = ["main".toList, "main".toList] ∧
      symbolizeChain ([0x10].map hexText) (callframeSymbols driftingSymbols) = ["main".toList] ∧
      flattenCallchain [0x20] (addrToKeys driftingSymbols) = ["inner".toList] ∧
      symbolizeChain ([0x20].map hexText) (callframeSymbols driftingSymbols) =
        ["inner".toList, "0x20".toList] := by
  refine ⟨sorted_driftingSymbols, ?_⟩
  decide

/-- One function with two inlined callees, recorded out of order. -/
def inlinedSymbols : List SymbolEntry :=
  [⟨0x10, 2, "leaf".toList⟩, ⟨0x10, 0, "main".toList⟩, ⟨0x10, 5, "inner".toList⟩]

/-- Its table with the list sorted. -/
def inlinedSorted : AddrToKeys := fun addr =>
  if addr = 0x10 then some [(0, "main".toList), (2, "leaf".toList), (5, "inner".toList)] else none

theorem sorted_inlinedSymbols : Sorted (addrToKeys inlinedSymbols) inlinedSorted := by
  intro addr
  by_cases haddr : addr = 0x10
  · subst haddr
    exact ⟨by decide, by decide⟩
  · rw [addrToKeys_eq, if_pos (by simp [entriesOf, inlinedSymbols, Ne.symm haddr])]
    simp [inlinedSorted, haddr]

/-- Its symbolizations agree, with the joined names themselves as stack ids. -/
theorem symbolization_agrees_inlinedSymbols :
    SymbolizationAgrees id inlinedSymbols inlinedSorted := by
  have hnames : ∀ sym ∈ inlinedSymbols, '\x00' ∉ sym.symbolName := by decide
  apply (symbolization_agrees_iff (fun _ _ h => h) inlinedSymbols hnames).mpr _ _
    sorted_inlinedSymbols
  intro addr
  by_cases haddr : addr = 0x10
  · subst haddr
    exact .inr (.inl ⟨by decide, by decide, by decide⟩)
  · exact .inl (by simp [entriesOf, inlinedSymbols, Ne.symm haddr])

end Dial9.Viewer
