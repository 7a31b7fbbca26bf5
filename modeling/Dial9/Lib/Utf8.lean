/-
# UTF-8 text

Validation of a byte string as UTF-8, and the replacement of invalid sequences
by U+FFFD. Both follow the Unicode table of well-formed byte sequences; a
replaced sequence is always a maximal subpart, so a rejected byte starts the
next sequence. The validator is a small automaton whose state is the list of
byte ranges the current sequence still expects.
-/

import Dial9.Lib.Reader

namespace Dial9.Lib

namespace Utf8

/-- An inclusive range of byte values. -/
structure Range where
  low : UInt8
  high : UInt8
  deriving DecidableEq, Repr

def Range.contains (r : Range) (b : UInt8) : Bool := r.low ≤ b && b ≤ r.high

/-- The range of an ordinary continuation byte. -/
def continuation : Range := ⟨0x80, 0xBF⟩

/-- What a lead byte expects after it; `none` for a byte that starts nothing. -/
def lead (b : UInt8) : Option (List Range) :=
  if b < 0x80 then some []
  else if 0xC2 ≤ b && b ≤ 0xDF then some [continuation]
  else if b = 0xE0 then some [⟨0xA0, 0xBF⟩, continuation]
  else if b = 0xED then some [⟨0x80, 0x9F⟩, continuation]
  else if 0xE1 ≤ b && b ≤ 0xEF then some [continuation, continuation]
  else if b = 0xF0 then some [⟨0x90, 0xBF⟩, continuation, continuation]
  else if 0xF1 ≤ b && b ≤ 0xF3 then some [continuation, continuation, continuation]
  else if b = 0xF4 then some [⟨0x80, 0x8F⟩, continuation, continuation]
  else none

/-- Whether the bytes complete the expected ranges and are well formed after. -/
def validFrom : List Range → Bytes → Bool
  | [], [] => true
  | _ :: _, [] => false
  | [], b :: bs =>
    match lead b with
    | some expected => validFrom expected bs
    | none => false
  | r :: expected, b :: bs => if r.contains b then validFrom expected bs else false

/-- U+FFFD in UTF-8. -/
def replacement : Bytes := [0xEF, 0xBF, 0xBD]

/-- Replace invalid sequences. `held` is the unfinished sequence so far and
`expected` what it still waits for; a byte that does not fit closes the held
sequence with one replacement and is itself read as a lead byte. -/
def lossyFrom : Bytes → List Range → Bytes → Bytes
  | _, [], [] => []
  | _, _ :: _, [] => replacement
  | _, [], b :: bs =>
    match lead b with
    | some [] => b :: lossyFrom [] [] bs
    | some (r :: expected) => lossyFrom [b] (r :: expected) bs
    | none => replacement ++ lossyFrom [] [] bs
  | held, r :: expected, b :: bs =>
    if r.contains b then
      match expected with
      | [] => held ++ b :: lossyFrom [] [] bs
      | next :: later => lossyFrom (held ++ [b]) (next :: later) bs
    else
      replacement ++
        match lead b with
        | some [] => b :: lossyFrom [] [] bs
        | some (next :: later) => lossyFrom [b] (next :: later) bs
        | none => replacement ++ lossyFrom [] [] bs

end Utf8

/-- Whether a byte string is well-formed UTF-8. -/
def isUtf8 (bs : Bytes) : Bool := Utf8.validFrom [] bs

/-- Text: a byte string carrying the evidence that it is UTF-8. -/
structure Text where
  bytes : Bytes
  valid : isUtf8 bytes = true
  deriving DecidableEq

namespace Text

theorem ext_bytes {s t : Text} (h : s.bytes = t.bytes) : s = t := by
  cases s
  cases t
  simpa using h

instance : Inhabited Text := ⟨⟨[], rfl⟩⟩

/-- Checked conversion. -/
def fromUtf8 (bs : Bytes) : Option Text :=
  if h : isUtf8 bs = true then some ⟨bs, h⟩ else none

@[simp]
theorem fromUtf8_bytes (s : Text) : fromUtf8 s.bytes = some s := by
  simp [fromUtf8, s.valid]

end Text

namespace Utf8

/-- `held` is a sequence after which exactly `expected` is still missing. -/
def Awaits (held : Bytes) (expected : List Range) : Prop :=
  ∀ bs, validFrom [] (held ++ bs) = validFrom expected bs

theorem awaits_nil : Awaits [] [] := fun _ => rfl

theorem awaits_lead {b : UInt8} {expected : List Range} (h : lead b = some expected) :
    Awaits [b] expected := by
  intro bs
  simp [validFrom, h]

theorem Awaits.snoc {held : Bytes} {r : Range} {expected : List Range} {b : UInt8}
    (h : Awaits held (r :: expected)) (hb : r.contains b = true) :
    Awaits (held ++ [b]) expected := by
  intro bs
  rw [List.append_assoc, h]
  simp [validFrom, hb]

theorem validFrom_replacement (bs : Bytes) :
    validFrom [] (replacement ++ bs) = validFrom [] bs := by
  have hlead : Awaits [0xEF] [continuation, continuation] := awaits_lead (by decide)
  have hheld : Awaits replacement [] := (hlead.snoc (by decide)).snoc (by decide)
  exact hheld bs

theorem validFrom_lossyFrom (bs : Bytes) :
    ∀ {held : Bytes} {expected : List Range}, Awaits held expected →
      validFrom [] (lossyFrom held expected bs) = true := by
  induction bs with
  | nil =>
    intro held expected _
    cases expected with
    | nil | cons _ _ => rfl
  | cons b bs ih =>
    -- The restart on `b` is shared by the start state and by a rejected byte.
    have hstart : validFrom [] (match lead b with
        | some [] => b :: lossyFrom [] [] bs
        | some (next :: later) => lossyFrom [b] (next :: later) bs
        | none => replacement ++ lossyFrom [] [] bs) = true := by
      split
      · next hlead => simpa [validFrom, hlead] using ih awaits_nil
      · next hlead => exact ih (awaits_lead hlead)
      · rw [validFrom_replacement]
        exact ih awaits_nil
    intro held expected hheld
    cases expected with
    | nil => exact hstart
    | cons r expected =>
      unfold lossyFrom
      by_cases hb : r.contains b = true
      · rw [if_pos hb]
        cases expected with
        | nil =>
          have hdone := hheld.snoc hb (lossyFrom [] [] bs)
          simp only [List.append_assoc, List.singleton_append] at hdone
          rw [hdone]
          exact ih awaits_nil
        | cons next later => exact ih (hheld.snoc hb)
      · rw [if_neg hb, validFrom_replacement]
        exact hstart

theorem lossyFrom_of_validFrom (bs : Bytes) :
    ∀ {held : Bytes} {expected : List Range}, (expected = [] → held = []) →
      validFrom expected bs = true → lossyFrom held expected bs = held ++ bs := by
  induction bs with
  | nil =>
    intro held expected hheld hvalid
    cases expected with
    | nil => simp [hheld rfl, lossyFrom]
    | cons r later => simp [validFrom] at hvalid
  | cons b bs ih =>
    intro held expected hheld hvalid
    cases expected with
    | nil =>
      rw [hheld rfl]
      unfold validFrom at hvalid
      unfold lossyFrom
      cases hlead : lead b with
      | none => simp [hlead] at hvalid
      | some expected =>
        simp only [hlead] at hvalid
        cases expected with
        | nil => simpa using ih (fun _ => rfl) hvalid
        | cons next later => exact ih (by simp) hvalid
    | cons r expected =>
      unfold validFrom at hvalid
      split at hvalid
      · next hb =>
          unfold lossyFrom
          rw [if_pos hb]
          cases expected with
          | nil => simpa using ih (fun _ => rfl) hvalid
          | cons next later =>
            have hmore : lossyFrom (held ++ [b]) (next :: later) bs =
                (held ++ [b]) ++ bs := ih (by simp) hvalid
            rw [List.append_assoc] at hmore
            exact hmore
      · simp at hvalid

end Utf8

namespace Text

/-- Conversion that replaces invalid sequences. -/
def fromUtf8Lossy (bs : Bytes) : Text :=
  ⟨Utf8.lossyFrom [] [] bs, Utf8.validFrom_lossyFrom bs Utf8.awaits_nil⟩

theorem fromUtf8Lossy_bytes_of_isUtf8 {bs : Bytes} (h : isUtf8 bs = true) :
    (fromUtf8Lossy bs).bytes = bs :=
  Utf8.lossyFrom_of_validFrom bs (fun _ => rfl) h

@[simp]
theorem fromUtf8Lossy_bytes (s : Text) : fromUtf8Lossy s.bytes = s :=
  ext_bytes (fromUtf8Lossy_bytes_of_isUtf8 s.valid)

example : (fromUtf8Lossy [0x61, 0xE2, 0x82, 0x62]).bytes = [0x61, 0xEF, 0xBF, 0xBD, 0x62] := by
  decide

end Text

end Dial9.Lib
