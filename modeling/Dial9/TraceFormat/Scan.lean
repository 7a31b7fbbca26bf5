/-
# What is on the wire

A third reading of an event's fields, neither owned nor zero-copy: it follows
the wire format and keeps every payload as the bytes it is. The two decoders
are this scan followed by a conversion that may refuse. The owned decoder
refuses stack frames above the container limit; the zero-copy decoder refuses a
string that is not UTF-8.
-/

import Dial9.TraceFormat.Decoder

namespace Dial9.TraceFormat

open Dial9.Lib Dial9.Lib.Reader

/-- A field as the wire carries it. -/
inductive RawValue
  | i64 (v : Int64)
  | f64 (bits : UInt64)
  | bool (v : Bool)
  | string (payload : Bytes)
  | bytes (v : Bytes)
  | pooledString (id : UInt32)
  | stackFrames (frames : StackFramesRef)
  | pooledStackFrames (id : UInt32)
  | varint (v : UInt64)
  | stringMap (pairs : List (Bytes × Bytes))
  | list (items : List RawValue)
  | map (pairs : List (RawValue × RawValue))
  | none

namespace RawValue

/-- Scan a value of the given type, with a nesting budget. -/
def decodeDepth : Nat → FieldType → Reader RawValue
  | 0, _ => fail
  | budget + 1, fieldType =>
    match fieldType.inner with
    | .i64 => do
        let v ← u64
        pure (i64 ⟨v⟩)
    | .f64 => do
        let v ← u64
        pure (f64 v)
    | .bool => do
        let b ← byte
        pure (bool (b != 0))
    | .string => do
        let b ← decodeBytes
        pure (string b)
    | .bytes => do
        let b ← decodeBytes
        pure (bytes b)
    | .pooledString => do
        let id ← u32
        pure (pooledString id)
    | .pooledStackFrames => do
        let id ← u32
        pure (pooledStackFrames id)
    | .varint => do
        let v ← Leb128.decodeUnsigned
        pure (varint v)
    | .u8 => do
        let v ← byte
        pure (varint v.toUInt64)
    | .u16 => do
        let v ← u16
        pure (varint v.toUInt64)
    | .u32 => do
        let v ← u32
        pure (varint v.toUInt64)
    | .stackFrames => do
        let count ← u32
        let data ← take (count.toNat * 8)
        pure (stackFrames ⟨data, count⟩)
    | .stringMap => do
        let count ← decodeCount
        let pairs ← times decodePair count
        pure (stringMap pairs)
    | .dynamicList => do
        let count ← decodeCount
        let items ← times (decodeTagged (decodeDepth budget)) count
        pure (list items)
    | .dynamicMap => do
        let count ← decodeCount
        let pairs ← times (decodeEntry (decodeDepth budget)) count
        pure (map pairs)

def decode (fieldType : FieldType) : Reader RawValue :=
  decodeDepth (maxDecodeRecursionDepth + 1) fieldType

mutual

/-- The owned value, unless stack frames exceed the container limit. -/
def toOwned? : RawValue → Option FieldValue
  | i64 v => some (.i64 v)
  | f64 bits => some (.f64 bits)
  | bool v => some (.bool v)
  | string payload => some (.string (Text.fromUtf8Lossy payload))
  | bytes v => some (.bytes v)
  | pooledString id => some (.pooledString id)
  | stackFrames frames =>
    if frames.count.toNat ≤ maxDecodeContainerElements then
      some (.stackFrames (stackFrameIter frames.count.toNat frames.data))
    else Option.none
  | pooledStackFrames id => some (.pooledStackFrames id)
  | varint v => some (.varint v)
  | stringMap pairs => some (.stringMap pairs)
  | list items => (toOwnedItems? items).map .list
  | map pairs => (toOwnedEntries? pairs).map .map
  | none => some .none

def toOwnedItems? : List RawValue → Option (List FieldValue)
  | [] => some []
  | item :: items =>
    item.toOwned?.bind fun value => (toOwnedItems? items).map fun values => value :: values

def toOwnedEntries? : List (RawValue × RawValue) → Option (List (FieldValue × FieldValue))
  | [] => some []
  | (key, value) :: entries =>
    key.toOwned?.bind fun key => value.toOwned?.bind fun value =>
      (toOwnedEntries? entries).map fun rest => (key, value) :: rest

end

mutual

/-- The zero-copy value, unless a string is not UTF-8. -/
def toRef? : RawValue → Option FieldValueRef
  | i64 v => some (.i64 v)
  | f64 bits => some (.f64 bits)
  | bool v => some (.bool v)
  | string payload => (Text.fromUtf8 payload).map .string
  | bytes v => some (.bytes v)
  | pooledString id => some (.pooledString id)
  | stackFrames frames => some (.stackFrames frames)
  | pooledStackFrames id => some (.pooledStackFrames id)
  | varint v => some (.varint v)
  | stringMap pairs =>
    some (.stringMap ⟨pairs.flatMap encodePair, UInt32.ofNat pairs.length⟩)
  | list items => (toRefItems? items).map .list
  | map pairs => (toRefEntries? pairs).map .map
  | none => some .none

def toRefItems? : List RawValue → Option (List FieldValueRef)
  | [] => some []
  | item :: items =>
    item.toRef?.bind fun value => (toRefItems? items).map fun values => value :: values

def toRefEntries? : List (RawValue × RawValue) → Option (List (FieldValueRef × FieldValueRef))
  | [] => some []
  | (key, value) :: entries =>
    key.toRef?.bind fun key => value.toRef?.bind fun value =>
      (toRefEntries? entries).map fun rest => (key, value) :: rest

end

/-- Convert both halves of an entry. -/
def bothOf? {α : Type} (f : RawValue → Option α) (pair : RawValue × RawValue) : Option (α × α) :=
  (f pair.1).bind fun key => (f pair.2).map fun value => (key, value)

theorem toOwnedItems?_eq (items : List RawValue) : toOwnedItems? items = items.mapM toOwned? := by
  induction items with
  | nil => rfl
  | cons item items ih =>
    rw [toOwnedItems?, ih, List.mapM_cons]
    cases item.toOwned? with
    | none => rfl
    | some value => cases List.mapM toOwned? items <;> rfl

theorem toRefItems?_eq (items : List RawValue) : toRefItems? items = items.mapM toRef? := by
  induction items with
  | nil => rfl
  | cons item items ih =>
    rw [toRefItems?, ih, List.mapM_cons]
    cases item.toRef? with
    | none => rfl
    | some value => cases List.mapM toRef? items <;> rfl

theorem toOwnedEntries?_eq (entries : List (RawValue × RawValue)) :
    toOwnedEntries? entries = entries.mapM (bothOf? toOwned?) := by
  induction entries with
  | nil => rfl
  | cons entry entries ih =>
    obtain ⟨key, value⟩ := entry
    rw [toOwnedEntries?, ih, List.mapM_cons, bothOf?]
    cases key.toOwned? with
    | none => rfl
    | some key =>
      cases value.toOwned? with
      | none => rfl
      | some value => cases List.mapM (bothOf? toOwned?) entries <;> rfl

theorem toRefEntries?_eq (entries : List (RawValue × RawValue)) :
    toRefEntries? entries = entries.mapM (bothOf? toRef?) := by
  induction entries with
  | nil => rfl
  | cons entry entries ih =>
    obtain ⟨key, value⟩ := entry
    rw [toRefEntries?, ih, List.mapM_cons, bothOf?]
    cases key.toRef? with
    | none => rfl
    | some key =>
      cases value.toRef? with
      | none => rfl
      | some value => cases List.mapM (bothOf? toRef?) entries <;> rfl

end RawValue

/-! ## Decoding is scanning and converting -/

theorem decodeTagged_convert {α β : Type} (decode : FieldType → Reader α) (f : α → Option β) :
    decodeTagged (fun ft => (decode ft).convert f) = (decodeTagged decode).convert f := by
  funext input
  simp only [decodeTagged, convert_apply, bind_apply]
  cases byte input with
  | none => rfl
  | some pair =>
    simp only
    cases FieldType.fromTag pair.1 with
    | none => rfl
    | some ft => simp

theorem decodeEntry_convert {α : Type} (decode : FieldType → Reader RawValue)
    (f : RawValue → Option α) :
    decodeEntry (fun ft => (decode ft).convert f) =
      (decodeEntry decode).convert (RawValue.bothOf? f) := by
  funext input
  simp only [decodeEntry, decodeTagged_convert, convert_apply, bind_apply]
  cases decodeTagged decode input with
  | none => rfl
  | some key =>
    simp only [Option.bind_some]
    cases hval : decodeTagged decode key.2 with
    | none => cases f key.1 <;> simp [hval]
    | some value =>
      cases hkey : f key.1 with
      | none => simp [RawValue.bothOf?, hkey]
      | some k => cases hv : f value.1 <;> simp [RawValue.bothOf?, hkey, hv, hval]

theorem u64_apply (input : Bytes) :
    u64 input = if 8 ≤ input.length then
      some (UInt64.ofNat (leNat (input.take 8)), input.drop 8) else none := by
  simp only [u64, word, take, bind_apply]
  by_cases h : 8 ≤ input.length
  · simp [h]
  · simp [h]

theorem times_u64_apply (n : Nat) (input : Bytes) :
    times u64 n input = if n * 8 ≤ input.length then
      some (stackFrameIter n (input.take (n * 8)), input.drop (n * 8)) else none := by
  induction n generalizing input with
  | zero => simp [times, stackFrameIter]
  | succ n ih =>
    rw [times, bind_apply, u64_apply]
    by_cases hshort : 8 ≤ input.length
    · rw [if_pos hshort]
      dsimp only
      rw [bind_apply, ih]
      have hiff : n * 8 ≤ (input.drop 8).length ↔ (n + 1) * 8 ≤ input.length := by
        rw [List.length_drop]
        omega
      by_cases hlong : (n + 1) * 8 ≤ input.length
      · rw [if_pos (hiff.mpr hlong), if_pos hlong]
        have hfirst : 8 ≤ (input.take ((n + 1) * 8)).length := by
          rw [List.length_take]
          omega
        rw [stackFrameIter, u64_apply, if_pos hfirst]
        simp only [pure_apply, Option.some.injEq, Prod.mk.injEq, List.cons.injEq,
          List.take_take, List.drop_take, List.drop_drop]
        have hmin : min 8 ((n + 1) * 8) = 8 := by omega
        have hsub : (n + 1) * 8 - 8 = n * 8 := by omega
        have hadd : 8 + n * 8 = (n + 1) * 8 := by omega
        rw [hmin, hsub, hadd]
        exact ⟨⟨rfl, rfl⟩, rfl⟩
      · rw [if_neg (mt hiff.mp hlong), if_neg hlong]
    · rw [if_neg hshort, if_neg (by omega)]

theorem times_u64_eq (n : Nat) :
    times u64 n = (take (n * 8)).convert fun data => some (stackFrameIter n data) := by
  funext input
  rw [times_u64_apply, convert_apply]
  unfold take
  split
  · rfl
  · rfl

theorem decodeBytes_eq_some {input rest b : Bytes} (h : decodeBytes input = some (b, rest)) :
    b.length < 2 ^ 32 ∧ input = encodeBytes b ++ rest := by
  obtain ⟨len, mid, hlen, htake⟩ := bind_eq_some.mp h
  obtain ⟨n, mid', hword, hpure⟩ := bind_eq_some.mp hlen
  obtain ⟨rfl, rfl⟩ : UInt32.ofNat n = len ∧ mid' = mid := by simpa using hpure
  obtain ⟨hlt, rfl⟩ := word_eq_some hword
  have hn : (UInt32.ofNat n).toNat = n := by
    rw [UInt32.toNat_ofNat', Nat.mod_eq_of_lt (by simpa using hlt)]
  rw [hn] at htake
  unfold take at htake
  split at htake
  · next hle =>
      obtain ⟨rfl, rfl⟩ : mid'.take n = b ∧ mid'.drop n = rest := by simpa using htake
      have hlength : (mid'.take n).length = n := by simp [hle]
      refine ⟨by rw [hlength]; simpa using hlt, ?_⟩
      rw [encodeBytes, hlength, List.append_assoc, List.take_append_drop]
  · cases htake

theorem decodePair_eq_some {input rest : Bytes} {pair : Bytes × Bytes}
    (h : decodePair input = some (pair, rest)) :
    pair.1.length < 2 ^ 32 ∧ pair.2.length < 2 ^ 32 ∧ input = encodePair pair ++ rest := by
  obtain ⟨k, mid, hk, h⟩ := bind_eq_some.mp h
  obtain ⟨v, mid', hv, hpure⟩ := bind_eq_some.mp h
  obtain ⟨rfl, rfl⟩ : (k, v) = pair ∧ mid' = rest := by simpa using hpure
  obtain ⟨hklt, rfl⟩ := decodeBytes_eq_some hk
  obtain ⟨hvlt, rfl⟩ := decodeBytes_eq_some hv
  exact ⟨hklt, hvlt, by simp [encodePair]⟩

variable {pairs : List (Bytes × Bytes)}

theorem times_decodePair_eq_some {n : Nat} {input rest : Bytes}
    (h : times decodePair n input = some (pairs, rest)) :
    pairs.length = n ∧ (∀ pair ∈ pairs, pair.1.length < 2 ^ 32 ∧ pair.2.length < 2 ^ 32) ∧
      input = pairs.flatMap encodePair ++ rest := by
  induction n generalizing input pairs with
  | zero =>
    obtain ⟨rfl, rfl⟩ : [] = pairs ∧ input = rest := by simpa [times] using h
    exact ⟨rfl, by simp, by simp⟩
  | succ n ih =>
    obtain ⟨pair, mid, hpair, h⟩ := bind_eq_some.mp h
    obtain ⟨tail, mid', htail, hpure⟩ := bind_eq_some.mp h
    obtain ⟨rfl, rfl⟩ : pair :: tail = pairs ∧ mid' = rest := by simpa using hpure
    obtain ⟨hk, hv, rfl⟩ := decodePair_eq_some hpair
    obtain ⟨hlen, hall, rfl⟩ := ih htail
    refine ⟨by simp [hlen], ?_, by simp⟩
    exact List.forall_mem_cons.mpr ⟨⟨hk, hv⟩, hall⟩

theorem consumed_times_decodePair (n : Nat) :
    (times decodePair n).consumed =
      (times decodePair n).convert fun pairs => some (pairs.flatMap encodePair) := by
  funext input
  rw [convert_apply, consumed]
  cases h : times decodePair n input with
  | none => rfl
  | some pair =>
    obtain ⟨pairs, rest⟩ := pair
    obtain ⟨-, -, rfl⟩ := times_decodePair_eq_some h
    simp

theorem decodeCount_apply (input : Bytes) :
    decodeCount input = (u32 input).bind fun pair =>
      if pair.1.toNat ≤ maxDecodeContainerElements then some (pair.1.toNat, pair.2) else none := by
  rw [decodeCount, bind_apply]
  cases u32 input with
  | none => rfl
  | some pair =>
    simp only [bind_apply, Option.bind_some, require]
    by_cases h : pair.1.toNat ≤ maxDecodeContainerElements
    · simp [h]
    · simp [h]

theorem FieldValue.decodeDepth_eq (budget : Nat) (ft : FieldType) :
    decodeDepth budget ft = (RawValue.decodeDepth budget ft).convert RawValue.toOwned? := by
  induction budget generalizing ft with
  | zero => rfl
  | succ budget ih =>
    have ih' : decodeDepth budget =
        fun ft => (RawValue.decodeDepth budget ft).convert RawValue.toOwned? := funext ih
    unfold decodeDepth RawValue.decodeDepth
    cases ft.inner with
    | i64 | f64 | bool | string | bytes | pooledString | pooledStackFrames | varint | u8 | u16
    | u32 => exact leaf_convert fun _ => rfl
    | stackFrames =>
      funext input
      simp only [bind_apply, decodeCount_apply, convert_apply]
      cases u32 input with
      | none => rfl
      | some pair =>
        obtain ⟨count, rest⟩ := pair
        simp only [Option.bind_some]
        by_cases hlimit : count.toNat ≤ maxDecodeContainerElements
        · simp only [if_pos hlimit, times_u64_eq, convert_apply]
          cases take (count.toNat * 8) rest with
          | none => rfl
          | some data => simp [RawValue.toOwned?, hlimit]
        · simp only [if_neg hlimit]
          cases take (count.toNat * 8) rest with
          | none => rfl
          | some data => simp [RawValue.toOwned?, hlimit]
    | stringMap => exact bind_convert fun _ => leaf_convert fun _ => rfl
    | dynamicList =>
      refine bind_convert fun n => ?_
      rw [ih', decodeTagged_convert, times_convert, bind_pure_convert, convert_bind_pure]
      simp only [RawValue.toOwned?, RawValue.toOwnedItems?_eq]
    | dynamicMap =>
      refine bind_convert fun n => ?_
      rw [ih', decodeEntry_convert, times_convert, bind_pure_convert, convert_bind_pure]
      simp only [RawValue.toOwned?, RawValue.toOwnedEntries?_eq]

theorem FieldValueRef.decodeDepth_eq (budget : Nat) (ft : FieldType) :
    decodeDepth budget ft = (RawValue.decodeDepth budget ft).convert RawValue.toRef? := by
  induction budget generalizing ft with
  | zero => rfl
  | succ budget ih =>
    have ih' : decodeDepth budget =
        fun ft => (RawValue.decodeDepth budget ft).convert RawValue.toRef? := funext ih
    unfold decodeDepth RawValue.decodeDepth
    cases ft.inner with
    | i64 | f64 | bool | bytes | pooledString | pooledStackFrames | varint | u8 | u16 | u32 =>
      exact leaf_convert fun _ => rfl
    | string =>
      change (decodeBytes.convert Text.fromUtf8 >>= fun v => pure (FieldValueRef.string v)) = _
      rw [bind_pure_convert, convert_bind_pure]
      rfl
    | stackFrames =>
      funext input
      simp only [bind_apply, convert_apply]
      cases u32 input with
      | none => rfl
      | some pair =>
        simp only
        cases take (pair.1.toNat * 8) pair.2 with
        | none | some _ => rfl
    | stringMap =>
      funext input
      simp only [bind_apply, decodeCount_apply, convert_apply, consumed_times_decodePair]
      cases u32 input with
      | none => rfl
      | some pair =>
        obtain ⟨count, rest⟩ := pair
        simp only [Option.bind_some, require]
        by_cases hlimit : count.toNat ≤ maxDecodeContainerElements
        · simp only [if_pos hlimit, pure_apply]
          cases hpairs : times decodePair count.toNat rest with
          | none => rfl
          | some pair =>
            obtain ⟨hlen, -, -⟩ := times_decodePair_eq_some hpairs
            simp [RawValue.toRef?, hlen]
        · simp only [if_neg hlimit]
          rfl
    | dynamicList =>
      refine bind_convert fun n => ?_
      rw [ih', decodeTagged_convert, times_convert, bind_pure_convert, convert_bind_pure]
      simp only [RawValue.toRef?, RawValue.toRefItems?_eq]
    | dynamicMap =>
      refine bind_convert fun n => ?_
      rw [ih', decodeEntry_convert, times_convert, bind_pure_convert, convert_bind_pure]
      simp only [RawValue.toRef?, RawValue.toRefEntries?_eq]

/-! ## What the conversions ask for -/

variable {items : List RawValue}

namespace RawValue

mutual

/-- The payloads that are text: strings, and the keys and values of string maps. -/
def texts : RawValue → List Bytes
  | string payload => [payload]
  | stringMap pairs => pairs.flatMap fun pair => [pair.1, pair.2]
  | list items => textsItems items
  | map pairs => textsEntries pairs
  | _ => []

def textsItems : List RawValue → List Bytes
  | [] => []
  | item :: items => item.texts ++ textsItems items

def textsEntries : List (RawValue × RawValue) → List Bytes
  | [] => []
  | (key, value) :: entries => key.texts ++ value.texts ++ textsEntries entries

end

mutual

/-- The element counts of the stack-frame payloads. -/
def stackCounts : RawValue → List Nat
  | stackFrames frames => [frames.count.toNat]
  | list items => stackCountsItems items
  | map pairs => stackCountsEntries pairs
  | _ => []

def stackCountsItems : List RawValue → List Nat
  | [] => []
  | item :: items => item.stackCounts ++ stackCountsItems items

def stackCountsEntries : List (RawValue × RawValue) → List Nat
  | [] => []
  | (key, value) :: entries => key.stackCounts ++ value.stackCounts ++ stackCountsEntries entries

end

theorem forall_textsItems {good : Bytes → Prop} :
    (∀ b ∈ textsItems items, good b) ↔ ∀ item ∈ items, ∀ b ∈ item.texts, good b := by
  induction items with
  | nil => simp [textsItems]
  | cons item items ih => simp only [textsItems, List.forall_mem_append, List.forall_mem_cons, ih]

theorem forall_stackCountsItems {good : Nat → Prop} :
    (∀ n ∈ stackCountsItems items, good n) ↔ ∀ item ∈ items, ∀ n ∈ item.stackCounts, good n := by
  induction items with
  | nil => simp [stackCountsItems]
  | cons item items ih =>
    simp only [stackCountsItems, List.forall_mem_append, List.forall_mem_cons, ih]

/-- Every text payload is UTF-8. -/
def Utf8 (value : RawValue) : Prop := ∀ b ∈ value.texts, isUtf8 b = true

/-- Every stack-frame payload is within the container limit. -/
def StacksWithinLimit (value : RawValue) : Prop :=
  ∀ n ∈ value.stackCounts, n ≤ maxDecodeContainerElements

mutual

theorem toOwned?_isSome : ∀ value : RawValue,
    value.toOwned?.isSome = true ↔ value.StacksWithinLimit
  | i64 _ | f64 _ | bool _ | string _ | bytes _ | pooledString _ | pooledStackFrames _ | varint _
  | stringMap _ | none => by simp [toOwned?, StacksWithinLimit, stackCounts]
  | stackFrames frames => by
      by_cases h : frames.count.toNat ≤ maxDecodeContainerElements
      · simp [toOwned?, StacksWithinLimit, stackCounts, h]
      · simp [toOwned?, StacksWithinLimit, stackCounts, h]
  | list items => by
      simpa [toOwned?, StacksWithinLimit, stackCounts] using toOwnedItems?_isSome items
  | map pairs => by
      simpa [toOwned?, StacksWithinLimit, stackCounts] using toOwnedEntries?_isSome pairs

theorem toOwnedItems?_isSome : ∀ items : List RawValue,
    (toOwnedItems? items).isSome = true ↔
      ∀ n ∈ stackCountsItems items, n ≤ maxDecodeContainerElements
  | [] => by simp [toOwnedItems?, stackCountsItems]
  | item :: items => by
      have hitem := toOwned?_isSome item
      have hitems := toOwnedItems?_isSome items
      unfold StacksWithinLimit at hitem
      simp only [stackCountsItems, List.forall_mem_append, ← hitem, ← hitems, toOwnedItems?]
      cases item.toOwned? with
      | none | some _ => simp

theorem toOwnedEntries?_isSome : ∀ entries : List (RawValue × RawValue),
    (toOwnedEntries? entries).isSome = true ↔
      ∀ n ∈ stackCountsEntries entries, n ≤ maxDecodeContainerElements
  | [] => by simp [toOwnedEntries?, stackCountsEntries]
  | (key, value) :: entries => by
      have hkey := toOwned?_isSome key
      have hvalue := toOwned?_isSome value
      have hentries := toOwnedEntries?_isSome entries
      unfold StacksWithinLimit at hkey hvalue
      simp only [stackCountsEntries, List.forall_mem_append, ← hkey, ← hvalue, ← hentries,
        toOwnedEntries?]
      cases key.toOwned? with
      | none => simp
      | some key =>
        cases value.toOwned? with
        | none | some _ => simp

end

/-- The zero-copy conversion succeeds on UTF-8, and where the owned one does
too, `to_owned` turns the one into the other. -/
def Converts (value : RawValue) : Prop :=
  value.Utf8 → ∃ ref, value.toRef? = some ref ∧
    ∀ own, value.toOwned? = some own → ref.toOwned = own

theorem stringMapIter_flatMap
    (hshort : ∀ pair ∈ pairs, pair.1.length < 2 ^ 32 ∧ pair.2.length < 2 ^ 32)
    (hutf8 : ∀ pair ∈ pairs, isUtf8 pair.1 = true ∧ isUtf8 pair.2 = true) (rest : Bytes) :
    (stringMapIter pairs.length (pairs.flatMap encodePair ++ rest)).map
      (fun pair => (pair.1.bytes, pair.2.bytes)) = pairs := by
  induction pairs with
  | nil => rfl
  | cons pair pairs ih =>
    obtain ⟨⟨hk, hv⟩, hshort⟩ := List.forall_mem_cons.mp hshort
    obtain ⟨⟨hku, hvu⟩, hutf8⟩ := List.forall_mem_cons.mp hutf8
    have hread : ∀ {b : Bytes}, b.length < 2 ^ 32 → (hu : isUtf8 b = true) →
        Reads decodeText (encodeBytes b) ⟨b, hu⟩ := fun hb hu =>
      (reads_decodeBytes hb).bind_nil (reads_ofOption (Text.fromUtf8_bytes ⟨_, hu⟩))
    have hpair : Reads decodeTextPair (encodePair pair) (⟨pair.1, hku⟩, ⟨pair.2, hvu⟩) :=
      (hread hk hku).bind (hread hv hvu).map
    simp only [List.length_cons, List.flatMap_cons, List.append_assoc, stringMapIter,
      hpair _, List.map_cons, ih hshort hutf8]

theorem converts_list (h : ∀ item ∈ items, item.Converts)
    (hutf8 : ∀ b ∈ textsItems items, isUtf8 b = true) :
    ∃ refs, toRefItems? items = some refs ∧
      ∀ owns, toOwnedItems? items = some owns → FieldValueRef.toOwnedItems refs = owns := by
  induction items with
  | nil => exact ⟨[], rfl, fun owns hown => Option.some.inj hown⟩
  | cons item items ih =>
    obtain ⟨hitem, hitems⟩ := List.forall_mem_cons.mp h
    rw [textsItems, List.forall_mem_append] at hutf8
    obtain ⟨ref, href, hown⟩ := hitem hutf8.1
    obtain ⟨refs, hrefs, howns⟩ := ih hitems hutf8.2
    refine ⟨ref :: refs, by simp [toRefItems?, href, hrefs], ?_⟩
    intro owns hall
    rw [toOwnedItems?] at hall
    obtain ⟨own, hown', hall⟩ := Option.bind_eq_some_iff.mp hall
    obtain ⟨rest, hrest, rfl⟩ := Option.map_eq_some_iff.mp hall
    rw [FieldValueRef.toOwnedItems, hown own hown', howns rest hrest]

theorem converts_entries {entries : List (RawValue × RawValue)}
    (h : ∀ entry ∈ entries, entry.1.Converts ∧ entry.2.Converts)
    (hutf8 : ∀ b ∈ textsEntries entries, isUtf8 b = true) :
    ∃ refs, toRefEntries? entries = some refs ∧
      ∀ owns, toOwnedEntries? entries = some owns →
        FieldValueRef.toOwnedEntries refs = owns := by
  induction entries with
  | nil => exact ⟨[], rfl, fun owns hown => Option.some.inj hown⟩
  | cons entry entries ih =>
    obtain ⟨key, value⟩ := entry
    obtain ⟨⟨hkey, hvalue⟩, hentries⟩ := List.forall_mem_cons.mp h
    rw [textsEntries, List.forall_mem_append, List.forall_mem_append] at hutf8
    obtain ⟨kref, hkref, hkown⟩ := hkey hutf8.1.1
    obtain ⟨vref, hvref, hvown⟩ := hvalue hutf8.1.2
    obtain ⟨refs, hrefs, howns⟩ := ih hentries hutf8.2
    refine ⟨(kref, vref) :: refs, by simp [toRefEntries?, hkref, hvref, hrefs], ?_⟩
    intro owns hall
    rw [toOwnedEntries?] at hall
    obtain ⟨kown, hkown', hall⟩ := Option.bind_eq_some_iff.mp hall
    obtain ⟨vown, hvown', hall⟩ := Option.bind_eq_some_iff.mp hall
    obtain ⟨rest, hrest, rfl⟩ := Option.map_eq_some_iff.mp hall
    rw [FieldValueRef.toOwnedEntries, hkown kown hkown', hvown vown hvown', howns rest hrest]

theorem yields_leaf {α : Type} {p : Reader α} {g : α → RawValue} {ref : α → FieldValueRef}
    (hrefs : ∀ a, (g a).toRef? = some (ref a))
    (howns : ∀ a own, (g a).toOwned? = some own → (ref a).toOwned = own) :
    Yields Converts (p >>= fun a => pure (g a)) :=
  .bind fun a => yields_pure fun _ => ⟨ref a, hrefs a, howns a⟩

theorem yields_decodeDepth (budget : Nat) (ft : FieldType) :
    Yields Converts (decodeDepth budget ft) := by
  induction budget generalizing ft with
  | zero =>
    intro input value rest h
    cases h
  | succ budget ih =>
    have htagged : Yields Converts (decodeTagged (decodeDepth budget)) :=
      .bind fun _ => .bind fun ft => ih ft
    have hsimple : ∀ {own own' : FieldValue}, some own = some own' → own = own' :=
      fun h => Option.some.inj h
    unfold decodeDepth
    cases ft.inner with
    | i64 | f64 | bool | bytes | pooledString | pooledStackFrames | varint | u8 | u16 | u32 =>
      exact yields_leaf (fun _ => rfl) fun _ _ h => hsimple h
    | string =>
      refine .bind fun b => yields_pure fun hutf8 => ?_
      have hb : isUtf8 b = true := hutf8 b (by simp [texts])
      refine ⟨.string ⟨b, hb⟩, by simp [toRef?, Text.fromUtf8, hb], ?_⟩
      intro own hown
      obtain rfl := hsimple hown
      simp only [FieldValueRef.toOwned]
      exact congrArg FieldValue.string
        (Text.ext_bytes (Text.fromUtf8Lossy_bytes_of_isUtf8 hb).symm)
    | stackFrames =>
      refine .bind fun count => yields_leaf (fun _ => rfl) fun data own hown => ?_
      rw [toOwned?] at hown
      split at hown
      · exact hsimple hown
      · cases hown
    | stringMap =>
      intro input value rest h
      obtain ⟨count, mid, hcount, h⟩ := bind_eq_some.mp h
      obtain ⟨pairs, mid', hpairs, h⟩ := bind_eq_some.mp h
      obtain ⟨rfl, rfl⟩ : stringMap pairs = value ∧ mid' = rest := by simpa using h
      obtain ⟨hlen, hshort, -⟩ := times_decodePair_eq_some hpairs
      intro hutf8
      refine ⟨_, rfl, fun own hown => ?_⟩
      obtain rfl := hsimple hown
      have hcast : (UInt32.ofNat pairs.length).toNat = pairs.length := by
        rw [decodeCount_apply] at hcount
        obtain ⟨pair, -, hlimit⟩ := Option.bind_eq_some_iff.mp hcount
        split at hlimit
        · next hle =>
            obtain ⟨rfl, -⟩ := Prod.mk.inj (Option.some.inj hlimit)
            rw [UInt32.toNat_ofNat', hlen, Nat.mod_eq_of_lt pair.1.toNat_lt]
        · cases hlimit
      have hpairsUtf8 : ∀ pair ∈ pairs, isUtf8 pair.1 = true ∧ isUtf8 pair.2 = true := by
        intro pair hpair
        refine ⟨hutf8 _ ?_, hutf8 _ ?_⟩
        · exact List.mem_flatMap.mpr ⟨pair, hpair, by simp⟩
        · exact List.mem_flatMap.mpr ⟨pair, hpair, by simp⟩
      have hiter := stringMapIter_flatMap hshort hpairsUtf8 []
      rw [List.append_nil] at hiter
      rw [FieldValueRef.toOwned, hcast, hiter]
    | dynamicList =>
      intro input value rest h
      obtain ⟨count, mid, hcount, h⟩ := bind_eq_some.mp h
      obtain ⟨items, mid', hitems, h⟩ := bind_eq_some.mp h
      obtain ⟨rfl, rfl⟩ : list items = value ∧ mid' = rest := by simpa using h
      intro hutf8
      obtain ⟨refs, hrefs, howns⟩ :=
        converts_list (htagged.times _ _ _ _ hitems) hutf8
      refine ⟨.list refs, by simp [toRef?, hrefs], fun own hown => ?_⟩
      obtain ⟨owns, hall, rfl⟩ := Option.map_eq_some_iff.mp hown
      rw [FieldValueRef.toOwned, howns owns hall]
    | dynamicMap =>
      have hentry : Yields (fun entry : RawValue × RawValue =>
          entry.1.Converts ∧ entry.2.Converts) (decodeEntry (decodeDepth budget)) := by
        intro input entry rest h
        obtain ⟨key, mid, hkey, h⟩ := bind_eq_some.mp h
        obtain ⟨value, mid', hvalue, h⟩ := bind_eq_some.mp h
        obtain ⟨rfl, rfl⟩ : (key, value) = entry ∧ mid' = rest := by simpa using h
        exact ⟨htagged _ _ _ hkey, htagged _ _ _ hvalue⟩
      intro input value rest h
      obtain ⟨count, mid, hcount, h⟩ := bind_eq_some.mp h
      obtain ⟨pairs, mid', hpairs, h⟩ := bind_eq_some.mp h
      obtain ⟨rfl, rfl⟩ : map pairs = value ∧ mid' = rest := by simpa using h
      intro hutf8
      obtain ⟨refs, hrefs, howns⟩ :=
        converts_entries (hentry.times _ _ _ _ hpairs) hutf8
      refine ⟨.map refs, by simp [toRef?, hrefs], fun own hown => ?_⟩
      obtain ⟨owns, hall, rfl⟩ := Option.map_eq_some_iff.mp hown
      rw [FieldValueRef.toOwned, howns owns hall]

end RawValue

end Dial9.TraceFormat
