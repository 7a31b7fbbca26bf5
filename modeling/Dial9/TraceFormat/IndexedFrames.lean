/-
# The index decoders follow the readers

Nothing in the decoders by index goes out of range: on every slice, at every
nesting depth and for every schema they do what the readers of suffixes do, and
the call stack they were given is deep enough.
-/

import Dial9.TraceFormat.Indexed
import Dial9.TraceFormat.Scan

namespace Dial9.TraceFormat

open Dial9.Lib Dial9.Lib.Cursor

namespace Leb128

/-- What the loop does with a byte. -/
def afterByte (data : Slice) (turns shift : Nat) (result : UInt64) (byte : UInt8) (pos : Nat) :
    Outcome Unit (UInt64 × Nat) := do
  let group ← shiftLeft (byte &&& 0x7f).toUInt64 shift
  let shift ← addShift shift
  if byte &&& 0x80 = 0 then pure (result ||| group, pos)
  else if 10 ≤ pos then .stop ()
  else decodeLoop data turns pos shift (result ||| group)

theorem decodeLoop_succ (data : Slice) (turns pos shift : Nat) (result : UInt64) :
    decodeLoop data (turns + 1) pos shift result =
      (byte : Cursor data UInt8) pos >>= fun pair =>
        afterByte data turns shift result pair.1 pair.2 := by
  unfold decodeLoop byte
  cases data.bytes[pos]? with
  | none => rfl
  | some b =>
    simp only [Outcome.orStop_some, Outcome.value_bind]
    cases (Outcome.add pos 1 : Outcome Unit Nat) with
    | value _ | stop _ | panic => rfl

/-- The loop ends within ten turns and its shift stays within the word. -/
theorem decodeLoop_agrees {data : Slice} :
    ∀ (room pos : Nat) (result : UInt64), pos + room = 9 → pos ≤ data.length →
      Agrees data pos (decodeLoop data (room + 1) pos (7 * pos) result)
        (decodeFrom (room + 1) (7 * pos) result (data.bytes.drop pos))
  | room, pos, result, hroom, hpos => by
      rw [decodeLoop_succ, decodeFrom, Reader.bind_apply]
      cases hrest : data.bytes.drop pos with
      | nil =>
        rw [byte_of_drop_nil hrest]
        exact .none
      | cons b rest =>
        obtain ⟨hbyte, rfl, hstop⟩ := byte_of_drop_cons hrest
        rw [hbyte, Outcome.value_bind, afterByte, shiftLeft, if_pos (by omega), addShift,
          if_pos (by omega)]
        simp only [Outcome.value_bind, Reader.byte]
        by_cases hlast : b &&& 0x80 = 0
        · rw [if_pos hlast, if_pos hlast]
          exact .some _ (pos + 1) (Nat.le_succ pos) hstop
        · rw [if_neg hlast, if_neg hlast]
          cases room with
          | zero =>
            rw [if_pos (by omega)]
            exact .none
          | succ room =>
            rw [if_neg (by omega)]
            have hnext := decodeLoop_agrees room (pos + 1)
              (result ||| ((b &&& 0x7f).toUInt64 <<< UInt64.ofNat (7 * pos))) (by omega) hstop
            rw [Nat.mul_succ] at hnext
            exact hnext.weaken (Nat.le_succ pos)

theorem decodeUnsignedAt_agrees (data : Slice) :
    Agrees data 0 (decodeUnsignedAt data) (decodeUnsigned data.bytes) :=
  decodeLoop_agrees 9 0 0 rfl (Nat.zero_le _)

end Leb128

section Pieces

variable {data : Slice} {α : Type}

theorem u32_toNat_lt (n : UInt32) : n.toNat < 2 ^ 63 := by
  have h := n.toNat_lt
  omega

theorem follows_bytesAt : Follows (bytesAt : Cursor data Bytes) decodeBytes :=
  follows_u32.bind fun len => follows_read (u32_toNat_lt len)

theorem follows_textAt : Follows (textAt : Cursor data Text) decodeText :=
  follows_bytesAt.bind fun _ => follows_ofOption _

theorem follows_pairAt : Follows (pairAt : Cursor data (Bytes × Bytes)) decodePair :=
  follows_bytesAt.bind fun _ => follows_bytesAt.map _

theorem follows_countAt : Follows (countAt : Cursor data Nat) decodeCount :=
  follows_u32.bind fun _ => (follows_require _).map _

variable {decode : FieldType → Cursor data α} {read : FieldType → Reader α}

theorem follows_taggedAt
    (h : ∀ ft, Follows (decode ft) (read ft)) : Follows (taggedAt decode) (decodeTagged read) :=
  follows_byte.bind fun _ => (follows_ofOption _).bind h

theorem follows_entryAt
    (h : ∀ ft, Follows (decode ft) (read ft)) : Follows (entryAt decode) (decodeEntry read) :=
  (follows_taggedAt h).bind fun _ => (follows_taggedAt h).map _

theorem follows_varint : Follows (callUsing Leb128.decodeUnsignedAt : Cursor data UInt64)
    Leb128.decodeUnsigned :=
  follows_callUsing Leb128.decodeUnsignedAt_agrees

end Pieces

/-- Calls still to come from a depth on. -/
def callsFrom (depth : Nat) : Nat := 2 * (maxDecodeRecursionDepth + 1 - depth) + 1

variable {budget room depth offset : Nat}

theorem drop_of_cons {data : Slice} {tag : UInt8} {input : Bytes}
    (h : data.bytes = tag :: input) : 1 ≤ data.length ∧ input = data.bytes.drop 1 := by
  unfold Slice.length
  rw [h]
  exact ⟨Nat.succ_le_succ (Nat.zero_le _), rfl⟩

theorem add_depth (hdepth : depth ≤ maxDecodeRecursionDepth) :
    (Outcome.add depth 1 : Outcome Unit Nat) = .value (depth + 1) := by
  apply Outcome.add_eq
  unfold maxDecodeRecursionDepth at hdepth
  omega

namespace FieldValue

theorem follows_decodeArmAt {data : Slice} {nested : FieldType → Cursor data FieldValue}
    (h : ∀ ft, Follows (nested ft) (decodeDepth budget ft)) (ft : FieldType) :
    Follows (decodeArmAt nested ft.inner) (decodeDepth (budget + 1) ft) := by
  unfold decodeDepth
  cases ft.inner with
  | i64 | f64 => exact follows_u64.map _
  | bool | u8 => exact follows_byte.map _
  | string | bytes => exact follows_bytesAt.map _
  | pooledString | pooledStackFrames | u32 => exact follows_u32.map _
  | varint => exact follows_varint.map _
  | u16 => exact follows_u16.map _
  | stackFrames =>
    exact follows_countAt.bind fun _ => (follows_u64.times _).map _
  | stringMap =>
    exact follows_countAt.bind fun _ => (follows_pairAt.times _).map _
  | dynamicList =>
    exact follows_countAt.bind fun _ => ((follows_taggedAt h).times _).map _
  | dynamicMap =>
    exact follows_countAt.bind fun _ => ((follows_entryAt h).times _).map _

theorem leaves_decodeArmAt (hdepth : depth ≤ maxDecodeRecursionDepth)
    (ih : ∀ ft rest, Leaves rest (decodeDepthAt room ft rest (depth + 1))
      (decodeDepth (maxDecodeRecursionDepth - depth) ft rest.bytes))
    (data : Slice) (ft : FieldType) :
    Leaves data
      (leave data 0 (decodeArmAt (fun ft => call fun rest => do
        let deeper ← Outcome.add depth 1
        decodeDepthAt room ft rest deeper) ft.inner))
      (decodeDepth (maxDecodeRecursionDepth + 1 - depth) ft data.bytes) := by
  have hnested : ∀ ft, Follows (call fun rest => do
        let deeper ← Outcome.add depth 1
        decodeDepthAt room ft rest deeper : Cursor data FieldValue)
      (decodeDepth (maxDecodeRecursionDepth - depth) ft) := by
    intro ft
    apply follows_call
    intro rest
    rw [add_depth hdepth]
    exact ih ft rest
  rw [Nat.succ_sub hdepth]
  exact (follows_decodeArmAt hnested ft).leave (Nat.zero_le _)

/-- With room for the calls still to come, a value decodes as its reader does. -/
theorem leaves_decodeDepthAt (room : Nat) : ∀ (ft : FieldType) (data : Slice) (depth : Nat),
    callsFrom depth ≤ room →
    Leaves data (decodeDepthAt room ft data depth)
      (decodeDepth (maxDecodeRecursionDepth + 1 - depth) ft data.bytes) := by
  induction room using Nat.strongRecOn with
  | _ room ih =>
    intro ft data depth hroom
    unfold callsFrom at hroom
    obtain ⟨room, rfl⟩ : ∃ n, room = n + 1 := ⟨room - 1, by omega⟩
    unfold decodeDepthAt
    by_cases hdepth : maxDecodeRecursionDepth < depth
    · have hbudget : maxDecodeRecursionDepth + 1 - depth = 0 := by omega
      rw [if_pos hdepth, hbudget]
      exact .none
    · have hle : depth ≤ maxDecodeRecursionDepth := Nat.le_of_not_lt hdepth
      have hnext : maxDecodeRecursionDepth + 1 - (depth + 1) =
          maxDecodeRecursionDepth - depth := by omega
      have hcall : ∀ lower, lower < room + 1 → 2 * (maxDecodeRecursionDepth - depth) + 1 ≤ lower →
          ∀ ft rest, Leaves rest (decodeDepthAt lower ft rest (depth + 1))
            (decodeDepth (maxDecodeRecursionDepth - depth) ft rest.bytes) := by
        intro lower hlower hfree ft rest
        rw [← hnext]
        exact ih lower hlower ft rest (depth + 1) (by unfold callsFrom; omega)
      rw [if_neg hdepth]
      cases ft with
      | plain base =>
        exact leaves_decodeArmAt hle (hcall room (by omega) (by omega)) data (.plain base)
      | optional base =>
        have harm := leaves_decodeArmAt hle (hcall room (by omega) (by omega)) data
          (.optional base)
        -- A container decodes in the same call, any other type in one more.
        have hhop : Leaves data (decodeDepthAt room (.plain base) data depth)
            (decodeDepth (maxDecodeRecursionDepth + 1 - depth) (.optional base)
              data.bytes) := by
          obtain ⟨room, rfl⟩ : ∃ n, room = n + 1 := ⟨room - 1, by omega⟩
          unfold decodeDepthAt
          rw [if_neg hdepth]
          exact leaves_decodeArmAt hle (hcall room (by omega) (by omega)) data
            (.optional base)
        cases base with
        | dynamicList | dynamicMap => exact harm
        | _ => exact hhop

end FieldValue

namespace FieldValueRef

section Pieces

variable {d : Slice}

theorem checkedPieceAt_eq {pos : Nat} (hpos : pos ≤ d.length) :
    (checkedPieceAt : Cursor d Bytes) pos = (bytesAt : Cursor d Bytes) pos := by
  have hfits := d.length_lt
  have hadd : (Outcome.add pos 4 : Outcome Unit Nat) = .value (pos + 4) :=
    Outcome.add_eq (by omega)
  have hchecked : checkedAddWord pos 4 = some (pos + 4) := if_pos (by omega)
  simp only [checkedPieceAt, bytesAt, Cursor.u32, Cursor.word, Cursor.read, bind_apply, hadd,
    hchecked, Outcome.orStop_some, Outcome.value_bind]
  cases hget : d.get pos (pos + 4) with
  | none => rfl
  | some b =>
    have hlen : b.length = 4 := by
      unfold Slice.get at hget
      split at hget
      · next hrange =>
          obtain rfl := Option.some.inj hget
          have hstop : pos + 4 ≤ d.bytes.length := hrange.2
          rw [List.length_take, List.length_drop]
          omega
      · cases hget
    have hlt : leNat b < 2 ^ 32 := by
      have h := leNat_lt b
      rw [hlen] at h
      simpa using h
    have hcast : (UInt32.ofNat (leNat b)).toNat = leNat b := by
      rw [UInt32.toNat_ofNat', Nat.mod_eq_of_lt hlt]
    have hmore : checkedAddWord (pos + 4) (leNat b) = some (pos + 4 + leNat b) :=
      if_pos (by omega)
    have hback : checkedSubWord (pos + 4 + leNat b) (leNat b) = some (pos + 4) := by
      rw [checkedSubWord, if_pos (Nat.le_add_left _ _), Nat.add_sub_cancel]
    have hsum : (Outcome.add (pos + 4) (leNat b) : Outcome Unit Nat) =
        .value (pos + 4 + leNat b) := Outcome.add_eq (by omega)
    simp only [Outcome.orStop_some, Outcome.value_bind, Cursor.require, hlen, if_true,
      hcast, hmore, hback, hsum, Outcome.pure_eq, Cursor.pure_apply]

theorem follows_checkedPieceAt : Follows (checkedPieceAt : Cursor d Bytes) decodeBytes := by
  intro pos hpos
  rw [checkedPieceAt_eq hpos]
  exact follows_bytesAt pos hpos

theorem follows_checkedPairAt : Follows (checkedPairAt : Cursor d (Bytes × Bytes)) decodePair :=
  follows_checkedPieceAt.bind fun _ => follows_checkedPieceAt.map _

theorem follows_packedAt (count : UInt32) :
    Follows (packedAt count.toNat : Cursor d Bytes) (Reader.take (count.toNat * 8)) := by
  intro start hstart
  have hcount := count.toNat_lt
  have hfits := d.length_lt
  have hread : Agrees d start _ _ :=
    follows_read (show count.toNat * 8 < 2 ^ 63 by omega) start hstart
  have hmul : (Outcome.mul count.toNat 8 : Outcome Unit Nat) = .value (count.toNat * 8) :=
    Outcome.mul_eq (by omega)
  have hadd : (Outcome.add start (count.toNat * 8) : Outcome Unit Nat) =
      .value (start + count.toNat * 8) := Outcome.add_eq (by omega)
  have heq : (packedAt count.toNat : Cursor d Bytes) start =
      (Cursor.read (count.toNat * 8) : Cursor d Bytes) start := by
    simp only [packedAt, Cursor.read, hmul, hadd, Outcome.value_bind]
    unfold Slice.get Slice.range
    split
    · rfl
    · rfl
  rw [heq]
  exact hread

end Pieces

theorem follows_decodeArmAt {d : Slice} {nested : FieldType → Cursor d FieldValueRef}
    (h : ∀ ft, Follows (nested ft) (decodeDepth budget ft)) (ft : FieldType) :
    Follows (decodeArmAt nested ft.inner) (decodeDepth (budget + 1) ft) := by
  unfold decodeDepth
  cases ft.inner with
  | i64 | f64 => exact follows_u64.map _
  | bool | u8 => exact follows_byte.map _
  | string => exact follows_textAt.map _
  | bytes => exact follows_bytesAt.map _
  | pooledString | pooledStackFrames | u32 => exact follows_u32.map _
  | varint => exact follows_varint.map _
  | u16 => exact follows_u16.map _
  | stackFrames =>
    exact follows_u32.bind fun count => (follows_packedAt count).map _
  | stringMap =>
    exact follows_u32.bind fun _ => (follows_require _).bind fun _ =>
      (follows_checkedPairAt.times _).passed.map _
  | dynamicList =>
    exact follows_countAt.bind fun _ => ((follows_taggedAt h).times _).map _
  | dynamicMap =>
    exact follows_countAt.bind fun _ => ((follows_entryAt h).times _).map _

theorem agrees_decodeArmAt (hdepth : depth ≤ maxDecodeRecursionDepth) {data : Slice}
    (ih : ∀ ft start, start ≤ data.length →
      Agrees (data.drop start) 0 (decodeDepthAt room ft data start (depth + 1))
        (decodeDepth (maxDecodeRecursionDepth - depth) ft (data.bytes.drop start)))
    (hoffset : offset ≤ data.length) (ft : FieldType) :
    Agrees (data.drop offset) 0
      ((decodeArmAt (fun ft => callAt offset fun start => do
        let deeper ← Outcome.add depth 1
        decodeDepthAt room ft data start deeper) ft.inner : Cursor (data.drop offset) _) 0)
      (decodeDepth (maxDecodeRecursionDepth + 1 - depth) ft (data.bytes.drop offset)) := by
  have hnested : ∀ ft, Follows (callAt offset fun start => do
        let deeper ← Outcome.add depth 1
        decodeDepthAt room ft data start deeper : Cursor (data.drop offset) FieldValueRef)
      (decodeDepth (maxDecodeRecursionDepth - depth) ft) := by
    intro ft
    apply follows_callAt hoffset
    intro start hstart
    rw [add_depth hdepth]
    exact ih ft start hstart
  rw [Nat.succ_sub hdepth]
  exact follows_decodeArmAt hnested ft 0 (Nat.zero_le _)

theorem agrees_decodeDepthAt (data : Slice) (room : Nat) :
    ∀ (ft : FieldType) (offset depth : Nat), offset ≤ data.length → callsFrom depth ≤ room →
      Agrees (data.drop offset) 0 (decodeDepthAt room ft data offset depth)
        (decodeDepth (maxDecodeRecursionDepth + 1 - depth) ft (data.bytes.drop offset)) := by
  induction room using Nat.strongRecOn with
  | _ room ih =>
    intro ft offset depth hoffset hroom
    have hget : data.getFrom offset = some (data.drop offset) := if_pos hoffset
    unfold callsFrom at hroom
    obtain ⟨room, rfl⟩ : ∃ n, room = n + 1 := ⟨room - 1, by omega⟩
    unfold decodeDepthAt
    by_cases hdepth : maxDecodeRecursionDepth < depth
    · have hbudget : maxDecodeRecursionDepth + 1 - depth = 0 := by omega
      rw [if_pos hdepth, hbudget]
      exact .none
    · have hle : depth ≤ maxDecodeRecursionDepth := Nat.le_of_not_lt hdepth
      have hnext : maxDecodeRecursionDepth + 1 - (depth + 1) =
          maxDecodeRecursionDepth - depth := by omega
      have hcall : ∀ lower, lower < room + 1 → 2 * (maxDecodeRecursionDepth - depth) + 1 ≤ lower →
          ∀ ft start, start ≤ data.length →
            Agrees (data.drop start) 0 (decodeDepthAt lower ft data start (depth + 1))
              (decodeDepth (maxDecodeRecursionDepth - depth) ft (data.bytes.drop start)) := by
        intro lower hlower hfree ft start hstart
        rw [← hnext]
        exact ih lower hlower ft start (depth + 1) hstart (by unfold callsFrom; omega)
      rw [if_neg hdepth, hget]
      cases ft with
      | plain base =>
        exact agrees_decodeArmAt hle (hcall room (by omega) (by omega)) hoffset (.plain base)
      | optional base =>
        have harm := agrees_decodeArmAt hle (hcall room (by omega) (by omega)) hoffset
          (.optional base)
        -- A container decodes in the same call, any other type in one more.
        have hhop : Agrees (data.drop offset) 0
            (decodeDepthAt room (.plain base) data offset depth)
            (decodeDepth (maxDecodeRecursionDepth + 1 - depth) (.optional base)
              (data.bytes.drop offset)) := by
          obtain ⟨room, rfl⟩ : ∃ n, room = n + 1 := ⟨room - 1, by omega⟩
          unfold decodeDepthAt
          rw [if_neg hdepth, hget]
          exact agrees_decodeArmAt hle (hcall room (by omega) (by omega)) hoffset
            (.optional base)
        cases base with
        | dynamicList | dynamicMap => exact harm
        | _ => exact hhop

theorem agrees_decodeAt (ft : FieldType) {data : Slice} (hoffset : offset ≤ data.length) :
    Agrees (data.drop offset) 0 (decodeAt ft data offset) (decode ft (data.bytes.drop offset)) :=
  agrees_decodeDepthAt data decodeCallStack ft offset 0 hoffset (Nat.le_refl _)

end FieldValueRef

theorem FieldValue.leaves_decodeAt (ft : FieldType) (data : Slice) :
    Leaves data (decodeAt ft data) (decode ft data.bytes) :=
  leaves_decodeDepthAt decodeCallStack ft data 0 (Nat.le_refl _)

/-! ## Frames -/

theorem decodeHeaderAt_eq (data : Slice) :
    decodeHeaderAt data = match decodeHeader data.bytes with
      | none => .stop ()
      | some (v, _) => .value v := by
  unfold decodeHeaderAt decodeHeader Slice.get
  rw [Reader.bind_apply, Reader.take_apply]
  by_cases hlen : 4 ≤ data.bytes.length
  · have hlen' : 0 ≤ 4 ∧ 4 ≤ data.length := ⟨Nat.zero_le _, hlen⟩
    rw [if_pos hlen', if_pos hlen]
    simp only [Outcome.orStop_some, Outcome.value_bind, List.drop_zero, Nat.sub_zero]
    by_cases hmagic : data.bytes.take 4 = magic
    · have hget : data.bytes[4]? = (data.bytes.drop 4).head? := by
        rw [List.head?_drop]
      rw [if_neg (not_not.mpr hmagic), Reader.require_pos hmagic, hget, Reader.bind_apply,
        Reader.pure_apply]
      cases data.bytes.drop 4 with
      | nil | cons _ _ => rfl
    · rw [if_pos hmagic, Reader.require_neg hmagic]
      rfl
  · have hlen' : ¬ (0 ≤ 4 ∧ 4 ≤ data.length) := fun h => hlen h.2
    rw [if_neg hlen', if_neg hlen]
    rfl

theorem decodeU24Le_apply (input : Bytes) :
    decodeU24Le input =
      if 3 ≤ input.length then some (leNat (input.take 3), input.drop 3) else none := by
  unfold decodeU24Le Reader.word
  rw [Reader.bind_apply, Reader.take_apply]
  by_cases hlen : 3 ≤ input.length
  · rw [if_pos hlen, if_pos hlen]
    rfl
  · rw [if_neg hlen, if_neg hlen]

theorem decodeU24LeAt_eq (data : Slice) :
    decodeU24LeAt data = match decodeU24Le data.bytes with
      | none => .stop ()
      | some (delta, _) => .value delta := by
  unfold decodeU24LeAt Slice.get
  rw [decodeU24Le_apply]
  by_cases hlen : 3 ≤ data.bytes.length
  · have hlen' : 0 ≤ 3 ∧ 3 ≤ data.length := ⟨Nat.zero_le _, hlen⟩
    rw [if_pos hlen', if_pos hlen]
    match data.bytes, hlen with
    | b₀ :: b₁ :: b₂ :: rest, _ => rfl
  · have hlen' : ¬ (0 ≤ 3 ∧ 3 ≤ data.length) := fun h => hlen h.2
    rw [if_neg hlen', if_neg hlen]
    rfl

section Frames

variable {data : Slice} {α V F : Type}

theorem follows_deltaAt (base : UInt64) :
    Follows (deltaAt base : Cursor data UInt64)
      (decodeU24Le >>= fun delta => Reader.ofOption (checkedAdd base delta)) := by
  intro pos hpos
  have hfits := data.length_lt
  rw [deltaAt, Slice.suffix_eq hpos, Outcome.value_bind, decodeU24LeAt_eq, Slice.drop_bytes,
    Reader.bind_apply, decodeU24Le_apply]
  by_cases hlen : 3 ≤ (data.bytes.drop pos).length
  · have hstop : pos + 3 ≤ data.length := by
      rw [List.length_drop] at hlen
      unfold Slice.length
      omega
    rw [if_pos hlen]
    dsimp only
    rw [Outcome.value_bind, Outcome.add_eq (by omega), Outcome.value_bind, List.drop_drop]
    cases checkedAdd base (leNat ((data.bytes.drop pos).take 3)) with
    | none => exact .none
    | some ts => exact .some ts (pos + 3) (Nat.le_add_right pos 3) hstop
  · rw [if_neg hlen]
    exact .none

theorem follows_timestampAt (info : SchemaInfo) (base : UInt64) :
    Follows (timestampAt info base : Cursor data UInt64) (decodeTimestamp info base) := by
  unfold timestampAt decodeTimestamp
  cases info.hasTimestampOnWire with
  | false => exact follows_pure base
  | true => exact follows_deltaAt base

theorem leaves_fieldAt (tag : UInt8) (remaining : Slice) :
    Leaves remaining (fieldAt tag remaining) (decodeField owned tag remaining.bytes) := by
  unfold fieldAt decodeField
  rw [Reader.bind_apply]
  cases FieldType.fromTag tag with
  | none => exact .none
  | some ft =>
    simp only [Outcome.orStop_some, Outcome.value_bind, Reader.ofOption_some,
      Reader.pure_apply, owned_decodeValue]
    cases ft.isOptional with
    | false => exact FieldValue.leaves_decodeAt ft remaining
    | true =>
      simp only [if_true]
      rw [Reader.bind_apply]
      cases hbytes : remaining.bytes with
      | nil => exact .none
      | cons present rest =>
        have hlen : 1 ≤ remaining.length := by
          unfold Slice.length
          rw [hbytes]
          exact Nat.succ_le_succ (Nat.zero_le _)
        have hrest : rest = (remaining.drop 1).bytes := by
          rw [Slice.drop_bytes, hbytes]
          rfl
        simp only [List.head?_cons, Outcome.orStop_some, Outcome.value_bind,
          Slice.suffix_eq hlen, Reader.byte]
        by_cases hzero : present = 0x00
        · rw [if_pos hzero, if_pos hzero, hrest]
          exact .some _ 1 hlen
        · rw [if_neg hzero, if_neg hzero, hrest]
          exact (FieldValue.leaves_decodeAt (.plain ft.inner) (remaining.drop 1)).within hlen

theorem leaves_fieldsAt (tags : List UInt8) (remaining : Slice) :
    Leaves remaining (fieldsAt tags remaining)
      (Reader.forEach (decodeField owned) tags remaining.bytes) := by
  induction tags generalizing remaining with
  | nil => exact Leaves.pure remaining []
  | cons tag tags ih =>
    exact (leaves_fieldAt tag remaining).bind fun value rest =>
      (ih rest).bind fun values rest => Leaves.pure rest (value :: values)

theorem follows_valueRefAt (ft : FieldType) :
    Follows (valueRefAt ft : Cursor data FieldValueRef) (FieldValueRef.decode ft) := by
  intro pos hpos
  have hfits := data.length_lt
  have hcall := FieldValueRef.agrees_decodeAt ft hpos
  unfold valueRefAt
  revert hcall
  generalize FieldValueRef.decodeAt ft data pos = outcome
  generalize FieldValueRef.decode ft (data.bytes.drop pos) = read
  intro hcall
  cases hcall with
  | none => exact .none
  | some a used _ hused =>
    rw [Slice.drop_length] at hused
    simp only [Outcome.value_bind]
    rw [Outcome.add_eq (by omega), Outcome.value_bind, Slice.drop_bytes, List.drop_drop]
    exact .some a (pos + used) (Nat.le_add_right pos used) (by omega)

theorem follows_fieldRefAt (tag : UInt8) :
    Follows (fieldRefAt tag : Cursor data FieldValueRef) (decodeField zeroCopy tag) := by
  refine (follows_ofOption _).bind fun ft => ?_
  cases ft.isOptional with
  | false => exact follows_valueRefAt ft
  | true =>
    refine follows_byte.bind fun present => ?_
    by_cases hzero : present = 0x00
    · rw [if_pos hzero, if_pos hzero]
      exact follows_pure _
    · rw [if_neg hzero, if_neg hzero]
      exact follows_valueRefAt _

/-- What stands before an event's fields, as a reader. -/
def readEventHead (schemaLookup : WireTypeId → Option SchemaInfo) (timestampBaseNs : UInt64) :
    Reader (WireTypeId × SchemaInfo × UInt64) := do
  let typeId ← Reader.u16
  let info ← Reader.ofOption (schemaLookup typeId)
  let timestampNs ← decodeTimestamp info timestampBaseNs
  pure (typeId, info, timestampNs)

theorem follows_eventHeadAt (lookup : WireTypeId → Option SchemaInfo) (base : UInt64) :
    Follows (eventHeadAt lookup base : Cursor data _) (readEventHead lookup base) :=
  follows_u16.bind fun _ => (follows_ofOption _).bind fun info =>
    (follows_timestampAt info base).map _

theorem decodeEventFrameWith_eq (flavour : Flavour V F) (lookup : WireTypeId → Option SchemaInfo)
    (base : UInt64) :
    decodeEventFrameWith flavour lookup base = (do
      let (typeId, info, timestampNs) ← readEventHead lookup base
      let values ← Reader.forEach (decodeField flavour) info.fieldTags
      pure (.event typeId timestampNs values)) := by
  funext input
  simp only [decodeEventFrameWith, readEventHead, Reader.bind_apply]
  cases Reader.u16 input with
  | none => rfl
  | some idPair =>
    dsimp only
    cases lookup idPair.1 with
    | none => rfl
    | some info =>
      simp only [Reader.ofOption_some, Reader.pure_apply]
      cases decodeTimestamp info base idPair.2 with
      | none | some _ => rfl

theorem follows_eventFrameRefAt (lookup : WireTypeId → Option SchemaInfo) (base : UInt64) :
    Follows (eventFrameRefAt lookup base : Cursor data _)
      (decodeEventFrameWith zeroCopy lookup base) := by
  rw [decodeEventFrameWith_eq]
  exact (follows_eventHeadAt lookup base).bind fun head =>
    (follows_forEach follows_fieldRefAt head.2.1.fieldTags).map _

/-- The owned event frame counts what it consumed from both ends. -/
theorem agrees_decodeEventFrameAt (lookup : WireTypeId → Option SchemaInfo) (base : UInt64)
    (hlen : 1 ≤ data.length) :
    Agrees data 1 (decodeEventFrameAt lookup base data)
      (decodeEventFrameWith owned lookup base (data.bytes.drop 1)) := by
  rw [decodeEventFrameWith_eq, decodeEventFrameAt, Reader.bind_apply]
  have hhead : Agrees data 1 _ _ := follows_eventHeadAt lookup base 1 hlen
  revert hhead
  generalize (eventHeadAt lookup base : Cursor data _) 1 = outcome
  generalize readEventHead lookup base (data.bytes.drop 1) = read
  intro hhead
  cases hhead with
  | none => exact .none
  | some head pos hle hpos =>
    obtain ⟨typeId, info, timestampNs⟩ := head
    rw [Outcome.value_bind]
    dsimp only
    rw [Slice.suffix_eq hpos, Outcome.value_bind, Reader.bind_apply]
    have hfields := leaves_fieldsAt info.fieldTags (data.drop pos)
    rw [Slice.drop_bytes] at hfields
    revert hfields
    generalize fieldsAt info.fieldTags (data.drop pos) = outcome'
    generalize Reader.forEach (decodeField owned) info.fieldTags (data.bytes.drop pos) = read'
    intro hfields
    cases hfields with
    | none => exact .none
    | some values used hused =>
      rw [Slice.drop_length] at hused
      have hconsumed : data.length - ((data.drop pos).drop used).length = pos + used := by
        simp only [Slice.drop_length]
        omega
      rw [Outcome.value_bind]
      dsimp only
      rw [Outcome.sub_eq (by simp only [Slice.drop_length]; omega), Outcome.value_bind,
        hconsumed, Slice.drop_bytes, List.drop_drop]
      exact .some _ (pos + used) (by omega) (by omega)

theorem follows_capacityAt {after : Nat → Cursor data α} {read : Reader α} (count : Nat)
    {width : Nat} (hwidth : width ≠ 0) (h : ∀ capacity, Follows (after capacity) read) :
    Follows (capacityAt count width >>= after) read := by
  intro pos hpos
  rw [bind_apply, capacityAt, Outcome.sub_eq hpos, Outcome.value_bind, Outcome.div_eq hwidth]
  exact h _ pos hpos

theorem follows_nameAt : Follows (nameAt : Cursor data Text) decodeName :=
  follows_u16.bind fun len => (follows_read (by have h := len.toNat_lt; omega)).bind fun _ =>
    follows_ofOption _

theorem follows_fieldDefAt : Follows (fieldDefAt : Cursor data FieldDef) decodeFieldDef :=
  follows_nameAt.bind fun _ => follows_byte.bind fun _ => (follows_ofOption _).map _

theorem follows_schemaFrameAt :
    Follows (schemaFrameAt : Cursor data (Frame V F)) decodeSchemaFrame :=
  follows_u16.bind fun _ => follows_nameAt.bind fun _ => follows_byte.bind fun _ =>
    follows_u16.bind fun _ => (follows_fieldDefAt.times _).map _

theorem follows_poolEntryAt : Follows (poolEntryAt : Cursor data PoolEntry) decodePoolEntry :=
  follows_u32.bind fun _ => follows_bytesAt.map _

theorem follows_stringPoolFrameAt :
    Follows (stringPoolFrameAt : Cursor data (Frame V F)) decodeStringPoolFrame :=
  follows_u32.bind fun count => follows_capacityAt count.toNat (by decide) fun _ =>
    (follows_poolEntryAt.times _).map _

theorem follows_stackPoolFrameAt {flavour : Flavour V F} {frames : Nat → Cursor data F}
    (h : ∀ count : UInt32, Follows (frames count.toNat) (flavour.decodeFrames count.toNat)) :
    Follows (stackPoolFrameAt frames : Cursor data (Frame V F))
      (decodeStackPoolFrameWith flavour) := by
  have hentry : Follows (stackPoolEntryAt frames) (decodeStackPoolEntryWith flavour) :=
    follows_u32.bind fun _ => follows_u32.bind fun count => (h count).map _
  exact follows_u32.bind fun count => follows_capacityAt count.toNat (by decide) fun _ =>
    (hentry.times _).map _

theorem follows_stackFramesRefAt (count : UInt32) :
    Follows (stackFramesRefAt count.toNat : Cursor data Bytes)
      (zeroCopy.decodeFrames count.toNat) := by
  intro pos hpos
  have hcount := count.toNat_lt
  have hmul : checkedMulWord count.toNat 8 = some (count.toNat * 8) := if_pos (by omega)
  rw [stackFramesRefAt, hmul]
  exact follows_read (by omega) pos hpos

theorem follows_stackFramesAt (count : UInt32) :
    Follows (stackFramesAt count.toNat : Cursor data (List UInt64))
      (owned.decodeFrames count.toNat) := by
  intro pos hpos
  have hcount := count.toNat_lt
  have hfits := data.length_lt
  have hmul : checkedMulWord count.toNat 8 = some (count.toNat * 8) := if_pos (by omega)
  have hstop : checkedAddWord pos (count.toNat * 8) = some (pos + count.toNat * 8) :=
    if_pos (by omega)
  have hadd : (Outcome.add pos (count.toNat * 8) : Outcome Unit Nat) =
      .value (pos + count.toNat * 8) := Outcome.add_eq (by omega)
  change Agrees data pos _ (Reader.times Reader.u64 count.toNat (data.bytes.drop pos))
  simp only [stackFramesAt, hmul, hstop, hadd, Outcome.orStop_some, Outcome.value_bind]
  rw [times_u64_apply, List.length_drop]
  unfold Slice.get
  by_cases hlen : pos + count.toNat * 8 ≤ data.length
  · have hlen' : count.toNat * 8 ≤ data.bytes.length - pos := by
      unfold Slice.length at hlen
      omega
    have hwords : ((data.bytes.drop pos).take (pos + count.toNat * 8 - pos)).length / 8 =
        count.toNat := by
      rw [List.length_take, List.length_drop]
      omega
    rw [if_pos ⟨Nat.le_add_right _ _, hlen⟩, if_pos hlen', Outcome.orStop_some,
      Outcome.value_bind, hwords, Nat.add_sub_cancel_left, List.drop_drop]
    exact .some _ _ (Nat.le_add_right _ _) hlen
  · have hlen' : ¬ count.toNat * 8 ≤ data.bytes.length - pos := by
      unfold Slice.length at hlen hpos
      omega
    rw [if_neg fun h => hlen h.2, if_neg hlen']
    exact .none

theorem follows_annotationEntryAt :
    Follows (annotationEntryAt : Cursor data FieldAnnotation) decodeAnnotationEntry :=
  follows_u16.bind fun _ => follows_nameAt.bind fun _ => follows_textAt.map _

theorem follows_schemaAnnotationsFrameAt :
    Follows (schemaAnnotationsFrameAt : Cursor data (Frame V F)) decodeSchemaAnnotationsFrame :=
  follows_varint.bind fun _ => follows_u16.bind fun _ =>
    (follows_annotationEntryAt.times _).map _

theorem follows_timestampResetFrameAt :
    Follows (timestampResetFrameAt : Cursor data (Frame V F)) (do
      let ts ← Reader.u64
      pure (.timestampReset ts)) :=
  follows_u64.map _

theorem agrees_decodeFrameAt (lookup : WireTypeId → Option SchemaInfo) (base : UInt64)
    (data : Slice) :
    Agrees data 0 (decodeFrameAt lookup base data) (decodeFrame lookup base data.bytes) := by
  unfold decodeFrameAt decodeFrame
  cases hbytes : data.bytes with
  | nil => exact .none
  | cons tag input =>
    obtain ⟨hlen, hinput⟩ := drop_of_cons hbytes
    rw [decodeFrameWith_cons, List.head?_cons, Outcome.orStop_some, Outcome.value_bind, hinput]
    cases FrameTag.ofByte tag with
    | none => exact .none
    | some frameTag =>
      rw [Option.bind_some]
      cases frameTag with
      | schema => exact (follows_schemaFrameAt 1 hlen).weaken (Nat.zero_le 1)
      | event => exact (agrees_decodeEventFrameAt lookup base hlen).weaken (Nat.zero_le 1)
      | stringPool => exact (follows_stringPoolFrameAt 1 hlen).weaken (Nat.zero_le 1)
      | stackPool =>
        exact (follows_stackPoolFrameAt follows_stackFramesAt 1 hlen).weaken (Nat.zero_le 1)
      | timestampReset =>
        exact (follows_timestampResetFrameAt 1 hlen).weaken (Nat.zero_le 1)
      | schemaAnnotations =>
        exact (follows_schemaAnnotationsFrameAt 1 hlen).weaken (Nat.zero_le 1)

theorem agrees_decodeFrameRefAt (lookup : WireTypeId → Option SchemaInfo) (base : UInt64)
    (data : Slice) :
    Agrees data 0 (decodeFrameRefAt lookup base data) (decodeFrameRef lookup base data.bytes) := by
  unfold decodeFrameRefAt decodeFrameRef
  cases hbytes : data.bytes with
  | nil => exact .none
  | cons tag input =>
    obtain ⟨hlen, hinput⟩ := drop_of_cons hbytes
    rw [decodeFrameWith_cons, List.head?_cons, Outcome.orStop_some, Outcome.value_bind, hinput]
    cases FrameTag.ofByte tag with
    | none => exact .none
    | some frameTag =>
      rw [Option.bind_some]
      cases frameTag with
      | schema => exact (follows_schemaFrameAt 1 hlen).weaken (Nat.zero_le 1)
      | event => exact (follows_eventFrameRefAt lookup base 1 hlen).weaken (Nat.zero_le 1)
      | stringPool => exact (follows_stringPoolFrameAt 1 hlen).weaken (Nat.zero_le 1)
      | stackPool =>
        exact (follows_stackPoolFrameAt follows_stackFramesRefAt 1 hlen).weaken
          (Nat.zero_le 1)
      | timestampReset =>
        exact (follows_timestampResetFrameAt 1 hlen).weaken (Nat.zero_le 1)
      | schemaAnnotations =>
        exact (follows_schemaAnnotationsFrameAt 1 hlen).weaken (Nat.zero_le 1)

end Frames

end Dial9.TraceFormat
