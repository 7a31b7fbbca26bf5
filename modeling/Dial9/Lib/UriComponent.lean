/-
# Decoding of URI components

`decodeURIComponent` goes through a text one character at a time. An escape
gives an octet, and the leading ones of that octet say how many more escapes
belong to the same character; the octets must be the UTF-8 encoding of one. On
the other side, an escaped text spells bytes: those of its characters, with each
escape for one byte. Since UTF-8 synchronizes itself, decoding one character at a
time and decoding all the bytes at once come to the same.
-/

import Dial9.Lib.Strings

namespace Dial9.Lib

variable {n fuel : Nat} {s t rest : Str}

namespace Str

/-! ## The encoding of one character -/

/-- The number of leading ones of an octet, as far as UTF-8 uses them. -/
def leadingOnes (octet : UInt8) : Nat :=
  if octet < 0x80 then 0
  else if octet < 0xc0 then 1
  else if octet < 0xe0 then 2
  else if octet < 0xf0 then 3
  else if octet < 0xf8 then 4
  else 5

theorem leadingOnes_ofNat (hn : n < 256) : leadingOnes (UInt8.ofNat n) =
    if n < 0x80 then 0 else if n < 0xc0 then 1 else if n < 0xe0 then 2
    else if n < 0xf0 then 3 else if n < 0xf8 then 4 else 5 := by
  simp [leadingOnes, UInt8.lt_iff_toNat_lt, Nat.mod_eq_of_lt hn]

theorem leadingOnes_continuation (n : Nat) : leadingOnes (UInt8.ofNat (n % 0x40 + 0x80)) = 1 := by
  rw [leadingOnes_ofNat (by omega), if_neg (by omega), if_pos (by omega)]

/-- What the octets of a character look like: one without leading ones, or one
that counts them all, followed by octets with a single leading one. -/
theorem utf8EncodeChar_shape (c : Char) : ∃ octet more, String.utf8EncodeChar c = octet :: more ∧
    (∀ b ∈ more, leadingOnes b = 1) ∧
    (leadingOnes octet = 0 ∧ more = [] ∨
      leadingOnes octet = more.length + 1 ∧ more ≠ [] ∧ more.length < 4) := by
  unfold String.utf8EncodeChar
  dsimp only
  split_ifs with hone htwo hthree
  · refine ⟨_, [], rfl, by simp, .inl ⟨?_, rfl⟩⟩
    rw [leadingOnes_ofNat (by omega), if_pos (by omega)]
  · refine ⟨_, _, rfl, ?_, .inr ⟨?_, by simp, by simp⟩⟩
    · simp only [List.forall_mem_cons, leadingOnes_continuation, List.not_mem_nil, false_imp_iff,
        implies_true, and_self]
    · rw [leadingOnes_ofNat (by omega), if_neg (by omega), if_neg (by omega), if_pos (by omega)]
      rfl
  · refine ⟨_, _, rfl, ?_, .inr ⟨?_, by simp, by simp⟩⟩
    · simp only [List.forall_mem_cons, leadingOnes_continuation, List.not_mem_nil, false_imp_iff,
        implies_true, and_self]
    · rw [leadingOnes_ofNat (by omega), if_neg (by omega), if_neg (by omega), if_neg (by omega),
        if_pos (by omega)]
      rfl
  · refine ⟨_, _, rfl, ?_, .inr ⟨?_, by simp, by simp⟩⟩
    · simp only [List.forall_mem_cons, leadingOnes_continuation, List.not_mem_nil, false_imp_iff,
        implies_true, and_self]
    · rw [leadingOnes_ofNat (by omega), if_neg (by omega), if_neg (by omega), if_neg (by omega),
        if_neg (by omega), if_pos (by omega)]
      rfl

theorem asBytes_injective : Function.Injective asBytes := by
  intro s t h
  have hread := congrArg fromUtf8 h
  rw [fromUtf8_asBytes, fromUtf8_asBytes] at hread
  exact Option.some.inj hread

theorem fromUtf8_eq_some {bytes : List UInt8} : fromUtf8 bytes = some s ↔ bytes = asBytes s := by
  constructor
  · intro h
    obtain ⟨text, htext, rfl⟩ := Option.map_eq_some_iff.mp h
    unfold String.fromUTF8? at htext
    split at htext
    · next hvalid =>
        obtain rfl := Option.some.inj htext
        have hbytes : (asBytes (String.fromUTF8 bytes.toByteArray hvalid).toList).toByteArray =
            bytes.toByteArray := by
          unfold asBytes
          rw [← List.utf8Encode, ← String.toByteArray_ofList, String.ofList_toList]
          rfl
        have hlist := congrArg (fun array => array.data.toList) hbytes
        simpa using hlist.symm
    · cases htext
  · rintro rfl
    exact fromUtf8_asBytes s

theorem eq_cons_of_asBytes {c : Char} {rest : List UInt8}
    (h : String.utf8EncodeChar c ++ rest = asBytes t) : ∃ t', t = c :: t' ∧ rest = asBytes t' := by
  obtain ⟨octet, more, hoctets, -, hlead⟩ := utf8EncodeChar_shape c
  cases t with
  | nil =>
    rw [hoctets] at h
    cases h
  | cons d t =>
    obtain ⟨octet', more', hoctets', -, hlead'⟩ := utf8EncodeChar_shape d
    rw [asBytes_cons, hoctets, hoctets', List.cons_append, List.cons_append] at h
    obtain ⟨rfl, htail⟩ := List.cons.inj h
    have hlength : more.length = more'.length := by
      obtain ⟨hzero, rfl⟩ | ⟨hcount, hne, -⟩ := hlead
      · obtain ⟨-, rfl⟩ | ⟨hcount', -, -⟩ := hlead'
        · rfl
        · omega
      · obtain ⟨hzero', -⟩ | ⟨hcount', -, -⟩ := hlead'
        · omega
        · omega
    obtain ⟨rfl, rfl⟩ := List.append_inj htail hlength
    have hsame : asBytes [c] = asBytes [d] := by
      rw [asBytes_cons, asBytes_cons, hoctets, hoctets']
    obtain rfl := (List.cons.inj (asBytes_injective hsame)).1
    exact ⟨t, rfl, rfl⟩

/-! ## Escapes -/

/-- The value of a hexadecimal digit. -/
def hexDigitValue (c : Char) : Option UInt8 :=
  if '0' ≤ c ∧ c ≤ '9' then some (UInt8.ofNat (c.toNat - '0'.toNat))
  else if 'a' ≤ c ∧ c ≤ 'f' then some (UInt8.ofNat (c.toNat - 'a'.toNat + 10))
  else if 'A' ≤ c ∧ c ≤ 'F' then some (UInt8.ofNat (c.toNat - 'A'.toNat + 10))
  else none

/-- The escape at the start of a text, and the text behind it. -/
def parseOctet : Str → Option (UInt8 × Str)
  | '%' :: high :: low :: rest => do
      let high ← hexDigitValue high
      let low ← hexDigitValue low
      some (high <<< 4 ||| low, rest)
  | _ => none

/-- That many escapes, one after the other. -/
def parseOctets : Nat → Str → Option (List UInt8 × Str)
  | 0, s => some ([], s)
  | n + 1, s => do
      let (octet, rest) ← parseOctet s
      let (octets, rest) ← parseOctets n rest
      some (octet :: octets, rest)

/-- The decoding loop of `decodeURIComponent`, for at most `fuel` characters. -/
def decodeLoop : Nat → Str → Option Str
  | _, [] => some []
  | 0, _ :: _ => none
  | fuel + 1, c :: s =>
    if c ≠ '%' then (decodeLoop fuel s).map (c :: ·)
    else do
      let (octet, rest) ← parseOctet (c :: s)
      let ones := leadingOnes octet
      if ones = 1 ∨ 4 < ones then none
      let (octets, rest) ← parseOctets (ones - 1) rest
      match fromUtf8 (octet :: octets) with
      | some [d] => (decodeLoop fuel rest).map (d :: ·)
      | _ => none

/-- `decodeURIComponent`; `none` where it throws. -/
def decodeURIComponent (s : Str) : Option Str := decodeLoop s.length s

/-- The bytes that an escaped text spells. -/
def percentBytes : Str → Option (List UInt8)
  | [] => some []
  | c :: s =>
    if c ≠ '%' then (percentBytes s).map (String.utf8EncodeChar c ++ ·)
    else
      match s with
      | high :: low :: rest => do
          let high ← hexDigitValue high
          let low ← hexDigitValue low
          (percentBytes rest).map ((high <<< 4 ||| low) :: ·)
      | _ => none

theorem percentBytes_of_ne {c : Char} (h : c ≠ '%') (s : Str) :
    percentBytes (c :: s) = (percentBytes s).map (String.utf8EncodeChar c ++ ·) := by
  rcases s with _ | ⟨high, _ | ⟨low, rest⟩⟩ <;> simp [percentBytes, h]

theorem percentBytes_escape (s : Str) : percentBytes ('%' :: s) =
    (parseOctet ('%' :: s)).bind fun parsed => (percentBytes parsed.2).map (parsed.1 :: ·) := by
  rcases s with _ | ⟨high, _ | ⟨low, rest⟩⟩
  · rfl
  · rfl
  · rw [percentBytes, if_neg (not_not.mpr rfl), parseOctet]
    cases hexDigitValue high with
    | none => rfl
    | some h =>
      cases hexDigitValue low with
      | none | some _ => rfl

theorem length_of_parseOctet {octet : UInt8}
    (h : parseOctet s = some (octet, rest)) : rest.length < s.length := by
  unfold parseOctet at h
  split at h
  · obtain ⟨high, -, h⟩ := Option.bind_eq_some_iff.mp h
    obtain ⟨low, -, h⟩ := Option.bind_eq_some_iff.mp h
    obtain ⟨-, rfl⟩ := Prod.mk.inj (Option.some.inj h)
    simp only [List.length_cons]
    omega
  · cases h

theorem percentBytes_of_parseOctets : ∀ {s rest : Str} {octets : List UInt8},
    parseOctets n s = some (octets, rest) →
      percentBytes s = (percentBytes rest).map (octets ++ ·) ∧ rest.length ≤ s.length := by
  induction n with
  | zero =>
    intro s rest octets h
    obtain ⟨rfl, rfl⟩ := Prod.mk.inj (Option.some.inj h)
    exact ⟨Option.map_id'.symm, Nat.le_refl _⟩
  | succ n ih =>
    intro s rest octets h
    obtain ⟨⟨octet, middle⟩, hoctet, h⟩ := Option.bind_eq_some_iff.mp h
    obtain ⟨⟨more, last⟩, hmore, h⟩ := Option.bind_eq_some_iff.mp h
    obtain ⟨rfl, rfl⟩ := Prod.mk.inj (Option.some.inj h)
    obtain ⟨hbytes, hlength⟩ := ih hmore
    have hshorter := length_of_parseOctet hoctet
    refine ⟨?_, by omega⟩
    obtain ⟨s', rfl⟩ : ∃ s', s = '%' :: s' := by
      unfold parseOctet at hoctet
      split at hoctet
      · exact ⟨_, rfl⟩
      · cases hoctet
    rw [percentBytes_escape, hoctet, Option.bind_some, hbytes, Option.map_map]
    rfl

theorem parseOctets_of_continuations {more : List UInt8} : ∀ {s : Str} {tail : List UInt8},
    (∀ b ∈ more, leadingOnes b = 1) → percentBytes s = some (more ++ tail) →
      ∃ rest, parseOctets more.length s = some (more, rest) ∧ percentBytes rest = some tail := by
  induction more with
  | nil => exact fun {s tail} _ h => ⟨s, rfl, h⟩
  | cons b more ih =>
    intro s tail hones h
    cases s with
    | nil => cases h
    | cons c s =>
      by_cases hc : c = '%'
      · subst hc
        rw [percentBytes_escape] at h
        obtain ⟨⟨octet, middle⟩, hoctet, h⟩ := Option.bind_eq_some_iff.mp h
        obtain ⟨bytes, hbytes, h⟩ := Option.map_eq_some_iff.mp h
        obtain ⟨rfl, rfl⟩ := List.cons.inj h
        obtain ⟨rest, hparsed, hrest⟩ :=
          ih (fun b hb => hones b (List.mem_cons_of_mem _ hb)) hbytes
        refine ⟨rest, ?_, hrest⟩
        rw [List.length_cons, parseOctets, hoctet]
        simp only [Option.bind_eq_bind, Option.bind_some, hparsed]
      · -- A character of its own does not start with a continuation octet.
        rw [percentBytes_of_ne hc] at h
        obtain ⟨bytes, -, h⟩ := Option.map_eq_some_iff.mp h
        obtain ⟨octet, others, hoctets, -, hlead⟩ := utf8EncodeChar_shape c
        rw [hoctets] at h
        obtain ⟨rfl, -⟩ := List.cons.inj h
        have hone := hones octet List.mem_cons_self
        obtain ⟨hzero, -⟩ | ⟨hcount, hne, -⟩ := hlead
        · omega
        · have hpos := List.length_pos_iff.mpr hne
          omega

/-! ## Decoding -/

theorem decodeLoop_nil (fuel : Nat) (t : Str) :
    decodeLoop fuel [] = some t ↔ percentBytes [] = some (asBytes t) := by
  have hloop : decodeLoop fuel [] = some [] := by
    cases fuel <;> rfl
  rw [hloop, percentBytes, Option.some.injEq, Option.some.injEq]
  constructor
  · rintro rfl
    rfl
  · intro h
    exact asBytes_injective h

theorem decodeLoop_escape {octet : UInt8} (ih : ∀ {s t : Str}, s.length ≤ fuel →
      (decodeLoop fuel s = some t ↔ percentBytes s = some (asBytes t)))
    (hfuel : s.length ≤ fuel) (hoctet : parseOctet ('%' :: s) = some (octet, rest)) :
    decodeLoop (fuel + 1) ('%' :: s) = some t ↔ percentBytes ('%' :: s) = some (asBytes t) := by
  have hshorter := length_of_parseOctet hoctet
  rw [List.length_cons] at hshorter
  rw [decodeLoop, if_neg (not_not.mpr rfl), percentBytes_escape, hoctet]
  simp only [Option.bind_eq_bind, Option.bind_some]
  constructor
  · intro h
    split at h
    · cases h
    · obtain ⟨⟨octets, last⟩, hoctets, h⟩ := Option.bind_eq_some_iff.mp h
      obtain ⟨hspelled, hlength⟩ := percentBytes_of_parseOctets hoctets
      split at h
      · next d hchar =>
          obtain ⟨t', hloop, rfl⟩ := Option.map_eq_some_iff.mp h
          have hfuel' : last.length ≤ fuel := by omega
          have hlast := (ih hfuel').mp hloop
          have hd := fromUtf8_eq_some.mp hchar
          rw [hspelled, hlast, asBytes_cons]
          have hone : asBytes [d] = String.utf8EncodeChar d := by
            rw [asBytes_cons]
            exact List.append_nil _
          rw [← hone, ← hd]
          rfl
      · cases h
  · intro h
    obtain ⟨bytes, hbytes, h⟩ := Option.map_eq_some_iff.mp h
    cases t with
    | nil => cases h
    | cons d t =>
      obtain ⟨octet', more, hoctets, hones, hlead⟩ := utf8EncodeChar_shape d
      rw [asBytes_cons, hoctets, List.cons_append] at h
      obtain ⟨rfl, rfl⟩ := List.cons.inj h
      have hcount : leadingOnes octet - 1 = more.length ∧
          ¬ (leadingOnes octet = 1 ∨ 4 < leadingOnes octet) := by
        obtain ⟨hzero, rfl⟩ | ⟨hcount, hne, hlt⟩ := hlead
        · rw [hzero]
          exact ⟨rfl, by omega⟩
        · have hpos := List.length_pos_iff.mpr hne
          omega
      obtain ⟨last, hparsed, hlast⟩ := parseOctets_of_continuations hones hbytes
      have hlength := (percentBytes_of_parseOctets hparsed).2
      have hchar : fromUtf8 (octet :: more) = some [d] := by
        rw [fromUtf8_eq_some, asBytes_cons, hoctets]
        exact (List.append_nil _).symm
      have hloop := (ih (by omega)).mpr hlast
      rw [if_neg hcount.2, hcount.1, hparsed]
      simp only [Option.bind_some, hchar, hloop, Option.map_some]

theorem decodeLoop_eq_some : ∀ {s t : Str}, s.length ≤ fuel →
    (decodeLoop fuel s = some t ↔ percentBytes s = some (asBytes t)) := by
  induction fuel with
  | zero =>
    intro s t hfuel
    obtain rfl := List.length_eq_zero_iff.mp (Nat.le_zero.mp hfuel)
    exact decodeLoop_nil 0 t
  | succ fuel ih =>
    intro s t hfuel
    cases s with
    | nil => exact decodeLoop_nil _ t
    | cons c s =>
      have hfuel' : s.length ≤ fuel := Nat.le_of_succ_le_succ hfuel
      by_cases hc : c = '%'
      · subst hc
        cases hoctet : parseOctet ('%' :: s) with
        | none =>
          rw [decodeLoop, if_neg (not_not.mpr rfl), percentBytes_escape, hoctet]
          simp
        | some parsed => exact decodeLoop_escape ih hfuel' hoctet
      · rw [decodeLoop, if_pos hc, percentBytes_of_ne hc]
        constructor
        · intro h
          obtain ⟨t', hloop, rfl⟩ := Option.map_eq_some_iff.mp h
          rw [(ih hfuel').mp hloop]
          rfl
        · intro h
          obtain ⟨bytes, hbytes, h⟩ := Option.map_eq_some_iff.mp h
          obtain ⟨t', rfl, rfl⟩ := eq_cons_of_asBytes h
          rw [(ih hfuel').mpr hbytes]
          rfl

theorem decodeURIComponent_eq (s : Str) :
    decodeURIComponent s = (percentBytes s).bind fromUtf8 := by
  apply Option.ext
  intro t
  have hbytes : ((percentBytes s).bind fromUtf8 = some t) ↔ percentBytes s = some (asBytes t) := by
    rw [Option.bind_eq_some_iff]
    simp only [fromUtf8_eq_some, exists_eq_right]
  rw [decodeURIComponent, decodeLoop_eq_some (Nat.le_refl _), hbytes]

end Str

end Dial9.Lib
