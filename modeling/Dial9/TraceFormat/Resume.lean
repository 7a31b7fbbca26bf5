/-
# Resuming a decoded trace

`into_encoder` turns a decoder into an encoder that appends to the trace: it
inverts the pools, finds the schemas by name and puts every counter past the
ids in use. The maps are walked in an order that is not specified, so the
encoder is one of those some order gives; a counter that would pass the largest
id is a panic and gives none. Whatever the order, the encoder is in step with
the decoder it came from.
-/

import Dial9.TraceFormat.ForEach
import Dial9.TraceFormat.Lockstep

namespace Dial9.TraceFormat

open Dial9.Lib Dial9.Lib.Reader

/-- Move a counter past ids in use, below a limit. -/
def pastIds (limit : Nat) : Nat → List Nat → Option Nat
  | next, [] => some next
  | next, id :: ids =>
    if next ≤ id then
      if id + 1 < limit then pastIds limit (id + 1) ids else none
    else pastIds limit next ids

theorem pastIds_spec {limit : Nat} :
    ∀ {next : Nat} {ids : List Nat} {past : Nat}, next < limit →
      pastIds limit next ids = some past → next ≤ past ∧ past < limit ∧ ∀ id ∈ ids, id < past
  | next, [], past, hnext, h => by
      obtain rfl := Option.some.inj h
      exact ⟨Nat.le_refl _, hnext, by simp⟩
  | next, id :: ids, past, hnext, h => by
      unfold pastIds at h
      split at h
      · split at h
        · next hle hroom =>
            obtain ⟨hge, hlt, hall⟩ := pastIds_spec hroom h
            exact ⟨by omega, hlt, List.forall_mem_cons.mpr ⟨by omega, hall⟩⟩
        · cases h
      · next hgt =>
          obtain ⟨hge, hlt, hall⟩ := pastIds_spec hnext h
          exact ⟨hge, hlt, List.forall_mem_cons.mpr ⟨by omega, hall⟩⟩

/-- The entries of a map, in the order the model keeps them. -/
def entriesOf {α β : Type} (map : AList fun _ : α => β) : List (α × β) :=
  map.entries.map fun entry => (entry.1, entry.2)

theorem mem_entriesOf {α β : Type} [DecidableEq α] {map : AList fun _ : α => β} {a : α} {b : β} :
    (a, b) ∈ entriesOf map ↔ map.lookup a = some b := by
  constructor
  · intro h
    obtain ⟨entry, hentry, heq⟩ := List.mem_map.mp h
    obtain ⟨rfl, rfl⟩ := Prod.mk.inj heq
    exact AList.mem_lookup_iff.mpr hentry
  · intro h
    exact List.mem_map.mpr ⟨⟨a, b⟩, AList.mem_lookup_iff.mp h, rfl⟩

/-- Insert the pairs one after the other, values as keys. -/
def invertInto {α β : Type} [DecidableEq β] (pairs : List (α × β)) : AList fun _ : β => α :=
  pairs.foldl (fun map pair => map.insert pair.2 pair.1) ∅

theorem mem_of_lookup_invertInto {α β : Type} [DecidableEq β] {pairs : List (α × β)} {a : α}
    {b : β} (h : (invertInto pairs).lookup b = some a) : (a, b) ∈ pairs := by
  have hfold : ∀ (pairs : List (α × β)) (map : AList fun _ : β => α),
      (pairs.foldl (fun map pair => map.insert pair.2 pair.1) map).lookup b = some a →
        (a, b) ∈ pairs ∨ map.lookup b = some a := by
    intro pairs
    induction pairs with
    | nil => exact fun map hmap => .inr hmap
    | cons pair pairs ih =>
      intro map hmap
      rcases ih _ hmap with hmem | hlookup
      · exact .inl (List.mem_cons_of_mem _ hmem)
      · by_cases hb : b = pair.2
        · subst hb
          rw [AList.lookup_insert] at hlookup
          obtain rfl := Option.some.inj hlookup
          exact .inl (List.mem_cons_self ..)
        · rw [AList.lookup_insert_ne hb] at hlookup
          exact .inr hlookup
  rcases hfold pairs ∅ h with hmem | hempty
  · exact hmem
  · cases hempty

namespace Encoder

/-- `from_decoder`, with the orders in which the maps are walked. -/
def fromDecoder (registry : SchemaRegistry) (strings : List (UInt32 × Text))
    (frames : List (UInt32 × List UInt64)) (named : List (WireTypeId × SchemaEntry))
    (timestampBaseNs : UInt64) : Option Encoder := do
  let nextPoolId ← pastIds (2 ^ 32) 0 (strings.map fun pair => pair.1.toNat)
  let nextStackPoolId ← pastIds (2 ^ 32) 0 (frames.map fun pair => pair.1.toNat)
  let nextId ← pastIds (2 ^ 16) staticWireIdLimit.toNat (named.map fun pair => pair.1.toNat)
  some
    { out := []
      timestampBaseNs := timestampBaseNs
      registry := { registry with nextId := UInt16.ofNat nextId }
      stringPool := invertInto strings
      nextPoolId := UInt32.ofNat nextPoolId
      stackPool := invertInto frames
      nextStackPoolId := UInt32.ofNat nextStackPoolId
      schemaIds := invertInto (named.map fun pair => (pair.1, .name pair.2.name))
      dynamicSchemaCache := ∅
      slotCache := []
      registeredIds := fun _ => false }

end Encoder

/-- `into_encoder`: the encoder some order of the maps gives. -/
def Decoder.IntoEncoder (d : Decoder) (e : Encoder) : Prop :=
  ∃ strings frames named, strings.Perm (entriesOf d.state.stringPool) ∧
    frames.Perm (entriesOf d.state.stackPool) ∧
    named.Perm (entriesOf d.state.registry.schemas) ∧
    Encoder.fromDecoder d.state.registry strings frames named d.state.timestampBaseNs = some e

/-! ## The state a decoder keeps -/

namespace DecoderState

/-- The cached schemas are the registered ones, under their own field tags. -/
structure Coherent (s : DecoderState) : Prop where
  synced : Decoder.CacheSynced s
  tagged : ∀ id cache, s.schemaCache id = some cache →
    cache.fieldTags = cache.entry.fields.map fun field => field.fieldType.tag

theorem coherent_new : Coherent .new := ⟨Decoder.cacheSynced_new, fun _ _ h => by cases h⟩

theorem coherent_accept {V F : Type} {flavour : Flavour V F} {s : DecoderState} {frame : Frame V F}
    (h : s.Coherent) (hgo : (s.accept flavour frame).GoesOn) :
    (s.accept flavour frame).next.Coherent := by
  refine ⟨Decoder.cacheSynced_accept h.synced hgo, ?_⟩
  cases frame with
  | schema typeId entry ts =>
    obtain ⟨registry, -, hok⟩ | ⟨message, -, hrefused⟩ := accept_schema flavour s typeId entry ts
    · rw [hok]
      intro other cache hcache
      by_cases hother : other = typeId
      · subst hother
        obtain rfl : schemaCacheOf entry ts = cache := by simpa [Turn.next] using hcache
        rfl
      · rw [Turn.next] at hcache
        dsimp only at hcache
        rw [Function.update_of_ne hother] at hcache
        exact h.tagged other cache hcache
    · rw [hrefused] at hgo
      exact hgo.elim
  | event _ _ _ | stringPool _ | stackPool _ | timestampReset _ => exact h.tagged
  | schemaAnnotations typeId annotations =>
    intro other cache hcache
    simp only [accept, Turn.next, mergeAnnotations] at hcache
    cases hknown : s.schemaCache typeId with
    | none =>
      rw [hknown] at hcache
      exact h.tagged other cache hcache
    | some known =>
      rw [hknown] at hcache
      dsimp only at hcache
      by_cases hother : other = typeId
      · subst hother
        rw [Function.update_self] at hcache
        obtain rfl := Option.some.inj hcache
        exact h.tagged other known hknown
      · rw [Function.update_of_ne hother] at hcache
        exact h.tagged other cache hcache

/-- Schemas of the stream that are declared without a packed timestamp. -/
def Untimed (s : DecoderState) (entry : SchemaEntry) : Prop :=
  ∃ id cache, s.schemaCache id = some cache ∧ cache.entry = entry ∧
    cache.hasTimestampOnWire = false

theorem Coherent.knows {s : DecoderState} (h : s.Coherent) {id : WireTypeId} {entry : SchemaEntry}
    (hget : s.registry.get id = some entry) : s.Knows s.Untimed id entry := by
  refine ⟨hget, ?_⟩
  have hcached := h.synced id
  rw [hget] at hcached
  obtain ⟨cache, hcache, rfl⟩ := Option.map_eq_some_iff.mp hcached
  refine ⟨cache.hasTimestampOnWire, ?_, ?_⟩
  · simp [schemaInfo, hcache, h.tagged id cache hcache]
  · cases hts : cache.hasTimestampOnWire with
    | true => exact .inl rfl
    | false => exact .inr ⟨id, cache, hcache, rfl, hts⟩

end DecoderState

/-- The encoder of a decoded trace is in step with the decoder. -/
theorem Decoder.IntoEncoder.synced {d : Decoder} {e : Encoder} (h : d.IntoEncoder e)
    (hcoherent : d.state.Coherent) : Synced d.state.Untimed e d.state := by
  obtain ⟨strings, frames, named, hstrings, hframes, hnamed, hsome⟩ := h
  unfold Encoder.fromDecoder at hsome
  obtain ⟨nextPoolId, hpool, hsome⟩ := Option.bind_eq_some_iff.mp hsome
  obtain ⟨nextStackPoolId, hstack, hsome⟩ := Option.bind_eq_some_iff.mp hsome
  obtain ⟨nextId, hid, hsome⟩ := Option.bind_eq_some_iff.mp hsome
  obtain rfl := Option.some.inj hsome
  obtain ⟨-, hpoolLt, hpoolAll⟩ := pastIds_spec (by decide) hpool
  obtain ⟨-, hstackLt, hstackAll⟩ := pastIds_spec (by decide) hstack
  obtain ⟨-, hidLt, hidAll⟩ := pastIds_spec (by decide) hid
  constructor
  case base => rfl
  case schemas => exact fun id entry hget => hcoherent.knows hget
  case handles => exact fun schema id hcached => by cases hcached
  case freeTypeIds =>
    intro id hle
    cases hget : d.state.registry.get id with
    | none => rfl
    | some entry =>
      have hmem := hnamed.mem_iff.mpr (mem_entriesOf.mpr hget)
      have hlt := hidAll id.toNat (List.mem_map.mpr ⟨_, hmem, rfl⟩)
      rw [UInt16.le_iff_toNat_le, UInt16.toNat_ofNat', Nat.mod_eq_of_lt hidLt] at hle
      omega
  case stringPool =>
    intro text id hlookup
    exact mem_entriesOf.mp (hstrings.mem_iff.mp (mem_of_lookup_invertInto hlookup))
  case freePoolIds =>
    intro id hle
    cases hget : d.state.stringPool.lookup id with
    | none => rfl
    | some text =>
      have hmem := hstrings.mem_iff.mpr (mem_entriesOf.mpr hget)
      have hlt := hpoolAll id.toNat (List.mem_map.mpr ⟨_, hmem, rfl⟩)
      rw [UInt32.le_iff_toNat_le, UInt32.toNat_ofNat', Nat.mod_eq_of_lt hpoolLt] at hle
      omega
  case stackPool =>
    intro addrs id hlookup
    exact mem_entriesOf.mp (hframes.mem_iff.mp (mem_of_lookup_invertInto hlookup))
  case freeStackPoolIds =>
    intro id hle
    cases hget : d.state.stackPool.lookup id with
    | none => rfl
    | some addrs =>
      have hmem := hframes.mem_iff.mpr (mem_entriesOf.mpr hget)
      have hlt := hstackAll id.toNat (List.mem_map.mpr ⟨_, hmem, rfl⟩)
      rw [UInt32.le_iff_toNat_le, UInt32.toNat_ofNat', Nat.mod_eq_of_lt hstackLt] at hle
      omega

end Dial9.TraceFormat
