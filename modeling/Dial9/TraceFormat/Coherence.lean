/-
# The two copies of a schema

A decoder keeps every schema twice: in the registry it reports, and in the
cache that events are decoded with. A schema frame is written to the cache
before the registry decides on it, so a refused frame leaves the two apart.
They stay apart under annotations, and meet again at an accepted frame for the
same id or at a header.
-/

import Dial9.TraceFormat.ForEach

namespace Dial9.TraceFormat

open Dial9.Lib Dial9.Lib.Reader

/-- The cache and the registry hold the same definition for every type id, and
an event's fields are decoded by the types the registry reports. -/
structure Coherent (s : DecoderState) : Prop where
  same : ∀ typeId, (s.schemaCache typeId).map SchemaCache.entry = s.registry.get typeId
  decoded : ∀ typeId, (s.schemaInfo typeId).map SchemaInfo.fieldTags =
    (s.registry.get typeId).map fun entry => entry.fields.map fun field => field.fieldType.tag

/-- The definition a schema frame carries, and the id it carries it for. -/
def Frame.definition {V F : Type} : Frame V F → Option (WireTypeId × SchemaEntry)
  | .schema typeId entry _ => some (typeId, entry)
  | _ => none

/-! ## Every order of calls -/

/-- The paths a caller may take through a stream. -/
inductive DecodePath
  | nextFrame
  | nextFrameRef
  | tryForEachEvent
  deriving DecidableEq

namespace Decoder

/-- The decoder that one turn of a path leaves behind, an error included. -/
def afterTurn (d : Decoder) : DecodePath → Decoder
  | .nextFrame => d.nextTurn.next
  | .nextFrameRef => d.nextTurnRef.next
  | .tryForEachEvent => d.eventTurn.next

/-- The definition in the schema frame the decoder stands at. -/
def definitionHere (d : Decoder) : Option (WireTypeId × SchemaEntry) :=
  (decodeFrame d.state.schemaInfo d.state.timestampBaseNs d.rest).bind fun (frame, _) =>
    frame.definition

/-- The registry refuses an entry for an id. -/
def refuses (s : DecoderState) (typeId : WireTypeId) (entry : SchemaEntry) : Bool :=
  match s.registry.register typeId entry with
  | .ok _ => false
  | .error _ => true

/-- The ids whose last schema frame since the last header was refused, brought
up to date by the turn the decoder is about to take. -/
def refusedAfter (d : Decoder) (refused : WireTypeId → Bool) : WireTypeId → Bool :=
  match d.tryConsumeResetHeader with
  | some _ => fun _ => false
  | none =>
    match d.definitionHere with
    | some (typeId, entry) => Function.update refused typeId (refuses d.state typeId entry)
    | none => refused

/-- A decoder that some order of turns over `data` reaches, each on a path of
the caller's choice and going on after errors, and the ids whose last schema
frame was refused on the way. -/
inductive Reaches (data : Bytes) : Decoder → (WireTypeId → Bool) → Prop
  | new {d : Decoder} (hnew : new data = some d) : Reaches data d fun _ => false
  | turn {d : Decoder} {refused : WireTypeId → Bool} (path : DecodePath)
      (h : Reaches data d refused) : Reaches data (d.afterTurn path) (d.refusedAfter refused)

end Decoder

/-! ## What holds of every reached state -/

/-- A type id whose last schema frame was not refused has one definition; one
whose last frame was refused has two, which differ. The field tags always
belong to the cached one. -/
structure Tracks (s : DecoderState) (refused : WireTypeId → Bool) : Prop where
  tags : ∀ typeId cache, s.schemaCache typeId = some cache →
    cache.fieldTags = cache.entry.fields.map fun field => field.fieldType.tag
  accepted : ∀ typeId, refused typeId = false →
    (s.schemaCache typeId).map SchemaCache.entry = s.registry.get typeId
  refused : ∀ typeId, refused typeId = true → ∃ cache entry,
    s.schemaCache typeId = some cache ∧ s.registry.get typeId = some entry ∧ cache.entry ≠ entry

theorem tracks_new : Tracks .new fun _ => false where
  tags := fun _ _ h => by cases h
  accepted := fun _ _ => rfl
  refused := fun _ h => by cases h

theorem DecoderState.annotate_injective (annotations : List FieldAnnotation) :
    Function.Injective fun entry => annotate entry annotations := by
  rintro ⟨name, fields, first⟩ ⟨name', fields', second⟩ h
  simpa [annotate] using h

variable {s : DecoderState} {refused : WireTypeId → Bool} {d : Decoder}

theorem Tracks.known (h : Tracks s refused) (typeId : WireTypeId) :
    (s.schemaCache typeId).isSome = (s.registry.get typeId).isSome := by
  cases hrefused : refused typeId with
  | false => rw [← h.accepted typeId hrefused, Option.isSome_map]
  | true =>
    obtain ⟨cache, entry, hcache, hentry, -⟩ := h.refused typeId hrefused
    rw [hcache, hentry]
    rfl

theorem Tracks.coherent_iff (h : Tracks s refused) :
    Coherent s ↔ ∀ typeId, refused typeId = false := by
  constructor
  · intro hcoherent typeId
    cases hrefused : refused typeId with
    | false => rfl
    | true =>
      obtain ⟨cache, entry, hcache, hentry, hne⟩ := h.refused typeId hrefused
      have hsame := hcoherent.same typeId
      rw [hcache, hentry] at hsame
      exact absurd (Option.some.inj hsame) hne
  · intro hnone
    refine ⟨fun typeId => h.accepted typeId (hnone typeId), fun typeId => ?_⟩
    rw [← h.accepted typeId (hnone typeId), DecoderState.schemaInfo]
    cases hcache : s.schemaCache typeId with
    | none => rfl
    | some cache => exact congrArg some (h.tags typeId cache hcache)

theorem tracks_schema (h : Tracks s refused) (typeId : WireTypeId) (entry : SchemaEntry)
    (ts : Bool) :
    Tracks (s.registerSchema typeId entry ts).2
      (Function.update refused typeId (Decoder.refuses s typeId entry)) := by
  have hcache : (s.registerSchema typeId entry ts).2.schemaCache =
      Function.update s.schemaCache typeId (some (DecoderState.schemaCacheOf entry ts)) := by
    unfold DecoderState.registerSchema
    cases s.registry.register typeId entry with
    | ok _ | error _ => rfl
  have helse : ∀ other, other ≠ typeId →
      (s.registerSchema typeId entry ts).2.registry.get other = s.registry.get other := by
    intro other hother
    unfold DecoderState.registerSchema
    cases hreg : s.registry.register typeId entry with
    | ok registry => exact SchemaRegistry.get_of_register_ne hreg hother
    | error message => rfl
  refine ⟨?_, ?_, ?_⟩
  · intro other cache hsome
    rw [hcache] at hsome
    by_cases hother : other = typeId
    · subst hother
      rw [Function.update_self] at hsome
      obtain rfl := Option.some.inj hsome
      rfl
    · rw [Function.update_of_ne hother] at hsome
      exact h.tags other cache hsome
  · intro other hfalse
    rw [hcache]
    by_cases hother : other = typeId
    · subst hother
      rw [Function.update_self] at hfalse ⊢
      unfold Decoder.refuses at hfalse
      unfold DecoderState.registerSchema
      cases hreg : s.registry.register other entry with
      | ok registry => exact (SchemaRegistry.get_of_register_eq_ok hreg).symm
      | error message =>
        rw [hreg] at hfalse
        cases hfalse
    · rw [Function.update_of_ne hother] at hfalse ⊢
      rw [helse other hother]
      exact h.accepted other hfalse
  · intro other htrue
    rw [hcache]
    by_cases hother : other = typeId
    · subst hother
      rw [Function.update_self] at htrue ⊢
      unfold Decoder.refuses at htrue
      obtain ⟨existing, hexisting, hne⟩ : ∃ existing, s.registry.get other = some existing ∧
          existing ≠ entry := by
        unfold SchemaRegistry.register at htrue
        cases hget : s.registry.get other with
        | none => simp [hget] at htrue
        | some existing =>
          refine ⟨existing, rfl, ?_⟩
          rintro rfl
          simp [hget] at htrue
      refine ⟨_, existing, rfl, ?_, hne.symm⟩
      unfold DecoderState.registerSchema
      cases hreg : s.registry.register other entry with
      | ok registry =>
        rw [hreg] at htrue
        cases htrue
      | error message => exact hexisting
    · rw [Function.update_of_ne hother] at htrue ⊢
      rw [helse other hother]
      exact h.refused other htrue

theorem tracks_annotations (h : Tracks s refused) (typeId : WireTypeId)
    (annotations : List FieldAnnotation) :
    Tracks (s.mergeAnnotations typeId annotations) refused := by
  have hcache : ∀ other, (s.mergeAnnotations typeId annotations).schemaCache other =
      if other = typeId then (s.schemaCache typeId).map fun cache =>
        { cache with entry := DecoderState.annotate cache.entry annotations }
      else s.schemaCache other := by
    intro other
    unfold DecoderState.mergeAnnotations
    by_cases hother : other = typeId
    · subst hother
      cases hsome : s.schemaCache other with
      | none => simp [hsome]
      | some cache => simp
    · cases hsome : s.schemaCache typeId with
      | none | some _ => simp [hother]
  have hregistry : ∀ other, (s.mergeAnnotations typeId annotations).registry.get other =
      if other = typeId then (s.registry.get typeId).map fun entry =>
        DecoderState.annotate entry annotations
      else s.registry.get other := by
    intro other
    unfold DecoderState.mergeAnnotations
    by_cases hother : other = typeId
    · subst hother
      cases hsome : s.registry.get other with
      | none => simp [hsome]
      | some entry => simp
    · cases hsome : s.registry.get typeId with
      | none => simp [hother]
      | some entry => simp [hother, SchemaRegistry.get_set_ne _ _ hother]
  refine ⟨?_, ?_, ?_⟩
  · intro other cache hsome
    rw [hcache] at hsome
    by_cases hother : other = typeId
    · rw [if_pos hother] at hsome
      obtain ⟨before, hbefore, rfl⟩ := Option.map_eq_some_iff.mp hsome
      exact h.tags typeId before hbefore
    · rw [if_neg hother] at hsome
      exact h.tags other cache hsome
  · intro other hfalse
    rw [hcache, hregistry]
    by_cases hother : other = typeId
    · subst hother
      rw [if_pos rfl, if_pos rfl, ← h.accepted other hfalse, Option.map_map, Option.map_map]
      rfl
    · rw [if_neg hother, if_neg hother]
      exact h.accepted other hfalse
  · intro other htrue
    rw [hcache, hregistry]
    obtain ⟨cache, entry, hsome, hentry, hne⟩ := h.refused other htrue
    by_cases hother : other = typeId
    · subst hother
      rw [if_pos rfl, if_pos rfl, hsome, hentry]
      exact ⟨_, _, rfl, rfl, fun heq => hne (DecoderState.annotate_injective annotations heq)⟩
    · rw [if_neg hother, if_neg hother]
      exact ⟨cache, entry, hsome, hentry, hne⟩

/-! ## Turn by turn -/

variable {tag : FrameTag}

namespace Decoder

/-- What a turn that finds no header does to the schemas: a definition is
offered to the registry, annotations are merged, or nothing happens to them. -/
inductive Touches (d : Decoder) : DecoderState → Prop
  | schema {typeId : WireTypeId} {entry : SchemaEntry} (ts : Bool)
      (hhere : d.definitionHere = some (typeId, entry)) :
      Touches d (d.state.registerSchema typeId entry ts).2
  | annotations (typeId : WireTypeId) (annotations : List FieldAnnotation)
      (hhere : d.definitionHere = none) : Touches d (d.state.mergeAnnotations typeId annotations)
  | same {s : DecoderState} (hhere : d.definitionHere = none)
      (hregistry : s.registry = d.state.registry) (hcache : s.schemaCache = d.state.schemaCache) :
      Touches d s

section Turns

variable {V F V' F' : Type}

theorem bind_congr_of_next {α β γ δ : Type} (p : Reader α) {f : α → Reader β} {g : α → Reader γ}
    {see : β × Bytes → Option δ} {see' : γ × Bytes → Option δ}
    (h : ∀ a rest, (f a rest).bind see = (g a rest).bind see') (input : Bytes) :
    ((p >>= f) input).bind see = ((p >>= g) input).bind see' := by
  rw [bind_apply, bind_apply]
  cases p input with
  | none => rfl
  | some pair => exact h pair.1 pair.2

theorem definition_of_ne_schema (flavour : Flavour V F) (lookup : WireTypeId → Option SchemaInfo)
    (base : UInt64) (input : Bytes) (hschema : tag ≠ .schema) :
    ((decodeBodyWith flavour lookup base tag input).bind fun pair => pair.1.definition) =
      none := by
  cases hbody : decodeBodyWith flavour lookup base tag input with
  | none => rfl
  | some pair =>
    have hkind := yields_decodeBodyWith flavour lookup base tag input pair.1 pair.2 hbody
    rw [Option.bind_some]
    cases hframe : pair.1 with
    | schema typeId entry ts =>
      rw [hframe] at hkind
      exact absurd hkind.symm hschema
    | _ => rfl

theorem definition_decodeBodyWith (flavour : Flavour V F) (flavour' : Flavour V' F')
    (lookup : WireTypeId → Option SchemaInfo) (base : UInt64) (tag : FrameTag) (input : Bytes) :
    ((decodeBodyWith flavour lookup base tag input).bind fun pair => pair.1.definition) =
      (decodeBodyWith flavour' lookup base tag input).bind fun pair => pair.1.definition := by
  by_cases hschema : tag = .schema
  · subst hschema
    unfold decodeBodyWith decodeSchemaFrame
    apply bind_congr_of_next
    intro typeId
    apply bind_congr_of_next
    intro name
    apply bind_congr_of_next
    intro hasTimestamp
    apply bind_congr_of_next
    intro fieldCount
    apply bind_congr_of_next
    intro fields rest
    rfl
  · rw [definition_of_ne_schema flavour lookup base input hschema,
      definition_of_ne_schema flavour' lookup base input hschema]

theorem definitionHere_eq (flavour : Flavour V F) {input : Bytes}
    (hrest : d.rest = tag.byte :: input) :
    d.definitionHere =
      (decodeBodyWith flavour d.state.schemaInfo d.state.timestampBaseNs tag input).bind
        fun pair => pair.1.definition := by
  unfold definitionHere decodeFrame
  rw [hrest, decodeFrameWith_cons, FrameTag.ofByte_byte, Option.bind_some]
  exact definition_decodeBodyWith owned flavour _ _ tag input

theorem definitionHere_of_nil (hrest : d.rest = []) : d.definitionHere = none := by
  rw [definitionHere, hrest]
  rfl

theorem touches_nextTurnWith (flavour : Flavour V F) (hheader : d.tryConsumeResetHeader = none) :
    d.Touches (nextTurnWith flavour d).next.state := by
  rcases nextTurnWith_cases flavour d with ⟨hrest, hstep⟩ | ⟨d', hsome, -⟩ |
      ⟨b, input, hrest, -, htag, hstep⟩ |
      ⟨tag, input, hrest, -, ⟨hbody, hstep⟩ | ⟨frame, rest, hbody, -, hstep⟩⟩
  · rw [hstep]
    exact .same (definitionHere_of_nil hrest) rfl rfl
  · rw [hheader] at hsome
    cases hsome
  · rw [hstep]
    refine .same ?_ rfl rfl
    rw [definitionHere, hrest, decodeFrame, decodeFrameWith_cons, htag]
    rfl
  · rw [hstep]
    refine .same ?_ rfl rfl
    rw [definitionHere_eq flavour hrest, hbody]
    rfl
  · have hhere : d.definitionHere = frame.definition := by
      rw [definitionHere_eq flavour hrest, hbody]
      rfl
    have hstate : (nextTurnWith flavour d).next.state = (d.state.accept flavour frame).next := by
      rw [hstep, accept, advance_state]
      cases d.state.accept flavour frame with
      | emit _ _ | silent _ | halt _ _ => rfl
    rw [hstate]
    cases frame with
    | schema typeId entry ts =>
      have hnext : (d.state.accept flavour (.schema typeId entry ts)).next =
          (d.state.registerSchema typeId entry ts).2 := by
        rcases hreg : d.state.registerSchema typeId entry ts with ⟨⟨⟩ | ⟨⟨⟩⟩, after⟩
        · simp only [DecoderState.accept, hreg, Turn.next]
        · simp only [DecoderState.accept, hreg, Turn.next]
      rw [hnext]
      exact .schema ts hhere
    | schemaAnnotations typeId annotations => exact .annotations typeId annotations hhere
    | event _ _ _ | stringPool _ | stackPool _ | timestampReset _ => exact .same hhere rfl rfl

end Turns

theorem eventFrameTurn_schemas (d : Decoder) (input : Bytes) :
    (d.eventFrameTurn input).next.state.registry = d.state.registry ∧
      (d.eventFrameTurn input).next.state.schemaCache = d.state.schemaCache := by
  unfold eventFrameTurn
  cases u16 input with
  | none => exact ⟨rfl, rfl⟩
  | some idPair =>
    dsimp only
    cases d.state.schemaCache idPair.1 with
    | none => exact ⟨rfl, rfl⟩
    | some cache =>
      dsimp only
      cases d.eventTimestamp cache idPair.2 with
      | error reason => exact ⟨rfl, rfl⟩
      | ok tsPair =>
        dsimp only
        cases d.eventFields cache.fieldTags tsPair.2 with
        | error _ | ok _ => exact ⟨rfl, rfl⟩

theorem resetFrameTurn_schemas (d : Decoder) (input : Bytes) :
    (d.resetFrameTurn input).next.state.registry = d.state.registry ∧
      (d.resetFrameTurn input).next.state.schemaCache = d.state.schemaCache := by
  unfold resetFrameTurn
  cases u64 input with
  | none | some _ => exact ⟨rfl, rfl⟩

theorem definitionHere_of_tag {input : Bytes} (hrest : d.rest = tag.byte :: input)
    (hschema : tag ≠ .schema) : d.definitionHere = none := by
  rw [definitionHere_eq owned hrest]
  exact definition_of_ne_schema owned _ _ input hschema

/-- A turn of the callback loop is one of its own, or one of `next_frame_ref`. -/
theorem eventTurn_schemas (d : Decoder) :
    (d.definitionHere = none ∧ d.tryConsumeResetHeader = none ∧
      d.eventTurn.next.state.registry = d.state.registry ∧
      d.eventTurn.next.state.schemaCache = d.state.schemaCache) ∨
    d.eventTurn.next = d.nextTurnRef.next := by
  cases hrest : d.rest with
  | nil =>
    refine .inr ?_
    unfold eventTurn nextTurnRef nextTurnWith
    rw [hrest]
    rfl
  | cons tag input =>
    by_cases hevent : tag = FrameTag.event.byte
    · subst hevent
      have hturn : d.eventTurn = d.eventFrameTurn input := by
        unfold eventTurn
        rw [hrest]
        rfl
      rw [hturn]
      refine .inl ⟨definitionHere_of_tag hrest (by decide), ?_, eventFrameTurn_schemas d input⟩
      rw [tryConsumeResetHeader, hrest, decodeHeader_of_ne (FrameTag.byte_ne_magic _)]
      rfl
    · by_cases hreset : tag = FrameTag.timestampReset.byte
      · subst hreset
        have hturn : d.eventTurn = d.resetFrameTurn input := by
          unfold eventTurn
          rw [hrest]
          rfl
        rw [hturn]
        refine .inl ⟨definitionHere_of_tag hrest (by decide), ?_, resetFrameTurn_schemas d input⟩
        rw [tryConsumeResetHeader, hrest, decodeHeader_of_ne (FrameTag.byte_ne_magic _)]
        rfl
      · refine .inr ?_
        rw [eventTurn_of_other hrest hevent hreset]
        cases d.nextTurnRef with
        | emit _ _ | silent _ => rfl
        | halt reason last =>
          cases reason with
          | exhausted | error _ => rfl

/-- Whatever the path, a turn that finds no header touches the schemas in one of three ways. -/
theorem touches_afterTurn (path : DecodePath) (hheader : d.tryConsumeResetHeader = none) :
    d.Touches (d.afterTurn path).state := by
  cases path with
  | nextFrame => exact touches_nextTurnWith owned hheader
  | nextFrameRef => exact touches_nextTurnWith zeroCopy hheader
  | tryForEachEvent =>
    rcases eventTurn_schemas d with ⟨hhere, -, hregistry, hcache⟩ | hnext
    · exact .same hhere hregistry hcache
    · rw [afterTurn, hnext]
      exact touches_nextTurnWith zeroCopy hheader

theorem afterTurn_of_header (path : DecodePath) {d' : Decoder}
    (hheader : d.tryConsumeResetHeader = some d') : (d.afterTurn path).state = .new := by
  have hnext : ∀ {V F : Type} (flavour : Flavour V F),
      (nextTurnWith flavour d).next.state = .new := by
    intro V F flavour
    obtain ⟨v, hrest, -, hstate⟩ := tryConsumeResetHeader_eq_some hheader
    have hturn : nextTurnWith flavour d = .silent d' := by
      unfold nextTurnWith
      rw [hrest, hheader]
      rfl
    rw [hturn, Turn.next, hstate]
  cases path with
  | nextFrame => exact hnext owned
  | nextFrameRef => exact hnext zeroCopy
  | tryForEachEvent =>
    rcases eventTurn_schemas d with ⟨-, hnone, -⟩ | hnext'
    · rw [hheader] at hnone
      cases hnone
    · rw [afterTurn, hnext']
      exact hnext zeroCopy

/-- The step lemma: a turn of any path brings the refused ids up to date. -/
theorem tracks_afterTurn (h : Tracks d.state refused) (path : DecodePath) :
    Tracks (d.afterTurn path).state (d.refusedAfter refused) := by
  unfold refusedAfter
  cases hheader : d.tryConsumeResetHeader with
  | some d' =>
    rw [afterTurn_of_header path hheader]
    exact tracks_new
  | none =>
    have htouches := touches_afterTurn path hheader
    generalize (d.afterTurn path).state = after at htouches ⊢
    cases htouches with
    | schema ts hhere =>
      rw [hhere]
      exact tracks_schema h _ _ ts
    | annotations typeId annotations hhere =>
      rw [hhere]
      exact tracks_annotations h typeId annotations
    | same hhere hregistry hcache =>
      rw [hhere]
      refine ⟨?_, ?_, ?_⟩
      · rw [hcache]
        exact h.tags
      · rw [hcache, hregistry]
        exact h.accepted
      · rw [hcache, hregistry]
        exact h.refused

variable {data : Bytes}

/-- The run lemma: whatever the order of turns, the refused ids are tracked. -/
theorem Reaches.tracks (h : Reaches data d refused) : Tracks d.state refused := by
  induction h with
  | new hnew =>
    obtain ⟨pair, -, rfl⟩ := Option.map_eq_some_iff.mp hnew
    exact tracks_new
  | turn path _ ih => exact tracks_afterTurn ih path

/-! ## The entry points are runs of turns -/

/-- Some order of turns over `data` reaches the decoder. -/
def Reached (data : Bytes) (d : Decoder) : Prop := ∃ refused, Reaches data d refused

theorem Reached.afterTurn (h : Reached data d) (path : DecodePath) :
    Reached data (d.afterTurn path) := by
  obtain ⟨refused, h⟩ := h
  exact ⟨_, h.turn path⟩

section EntryPoints

variable {data : Bytes} {α ε : Type} {step : Decoder → Turn Decoder α ε}

section

variable (hstep : ∀ d, Reached data d → Reached data (step d).next) (fuel : Nat)
  (h : Reached data d)
include hstep fuel h

theorem reached_settle : Reached data (Machine.settle step fuel d).next := by
  induction fuel generalizing d with
  | zero => exact h
  | succ fuel ih =>
    have hnext := hstep d h
    unfold Machine.settle
    cases hturn : step d with
    | emit _ _ | halt _ _ =>
      rw [hturn] at hnext
      exact hnext
    | silent next =>
      rw [hturn] at hnext
      exact ih hnext

/-- A loop passes through reached decoders and ends at one. -/
theorem reached_collect :
    (∀ entry ∈ (Machine.collect step fuel d).1, Reached data entry.2) ∧
      ∀ entry ∈ (Machine.collect step fuel d).2, Reached data entry.2 := by
  induction fuel generalizing d with
  | zero => exact ⟨fun _ hmem => absurd hmem List.not_mem_nil, fun _ hmem => by cases hmem⟩
  | succ fuel ih =>
    have hnext := hstep d h
    unfold Machine.collect
    cases hturn : step d with
    | emit value next =>
      rw [hturn] at hnext
      refine ⟨fun entry hmem => ?_, (ih hnext).2⟩
      rcases List.mem_cons.mp hmem with rfl | hmem
      · exact hnext
      · exact (ih hnext).1 entry hmem
    | silent next =>
      rw [hturn] at hnext
      exact ih hnext
    | halt reason last =>
      rw [hturn] at hnext
      refine ⟨fun _ hmem => absurd hmem List.not_mem_nil, fun entry hmem => ?_⟩
      obtain rfl := Option.some.inj hmem
      exact hnext

end

end EntryPoints

/-- A decoder in a caller's hands: new, left by a call, or lent to a callback. -/
inductive Called (data : Bytes) : Decoder → Prop
  | new {d : Decoder} (h : Decoder.new data = some d) : Called data d
  | nextFrame {d : Decoder} (h : Called data d) : Called data d.nextFrame.next
  | nextFrameRef {d : Decoder} (h : Called data d) : Called data d.nextFrameRef.next
  | callback {d : Decoder} {entry : RawEvent × Decoder} (h : Called data d)
      (hentry : entry ∈ d.tryForEachEvent.1) : Called data entry.2
  | forEach {d : Decoder} {entry : _ × Decoder} (h : Called data d)
      (hentry : entry ∈ d.tryForEachEvent.2) : Called data entry.2

theorem Called.reached (h : Called data d) : Reached data d := by
  induction h with
  | new hnew => exact ⟨_, .new hnew⟩
  | nextFrame _ ih => exact reached_settle (fun _ hd => hd.afterTurn .nextFrame) _ ih
  | nextFrameRef _ ih => exact reached_settle (fun _ hd => hd.afterTurn .nextFrameRef) _ ih
  | callback _ hentry ih =>
    exact (reached_collect (fun _ hd => hd.afterTurn .tryForEachEvent) _ ih).1 _ hentry
  | forEach _ hentry ih =>
    exact (reached_collect (fun _ hd => hd.afterTurn .tryForEachEvent) _ ih).2 _ hentry

/-! ## Coherence -/

/-- Even past refused schemas, whatever was called: the cache knows the type ids of the registry,
and decodes by the field types of its own definition. -/
theorem known_of_called (h : Called data d) (typeId : WireTypeId) :
    (d.state.schemaCache typeId).isSome = (d.state.registry.get typeId).isSome ∧
      ∀ cache, d.state.schemaCache typeId = some cache →
        cache.fieldTags = cache.entry.fields.map fun field => field.fieldType.tag := by
  obtain ⟨refused, hreaches⟩ := h.reached
  exact ⟨hreaches.tracks.known typeId, hreaches.tracks.tags typeId⟩

/-- In every state reached on a byte string, through any order of the entry
points and past any errors, the cache and the registry agree exactly when no
type id is left with its last schema frame refused. -/
theorem coherent_iff_none_refused {data : Bytes} {d : Decoder} {refused : WireTypeId → Bool}
    (h : Reaches data d refused) : Coherent d.state ↔ ∀ typeId, refused typeId = false :=
  h.tracks.coherent_iff

/-- The type `t` without fields. -/
def plainEntry : SchemaEntry := ⟨⟨[0x74], isUtf8_t⟩, [], []⟩

/-- The type `t` with a boolean field `b`. -/
def flaggedEntry : SchemaEntry := ⟨⟨[0x74], isUtf8_t⟩, [⟨⟨[0x62], by decide⟩, .plain .bool⟩], []⟩

/-- A header, a schema at id 1, and a second schema at the same id. -/
def twoSchemas (first second : SchemaEntry) : Bytes :=
  encodeHeader ++ encodeSchema 1 first ++ encodeSchema 1 second

theorem coherent_iff_none_refused_repeated :
    ∃ d refused, Reaches (twoSchemas plainEntry plainEntry) d refused ∧ d.rest = [] ∧
      (Coherent d.state ↔ ∀ typeId, refused typeId = false) := by
  obtain ⟨d, refused, h, hrest⟩ :
      ∃ d refused, Reaches (twoSchemas plainEntry plainEntry) d refused ∧ d.rest = [] :=
    ⟨_, _, .turn .nextFrameRef (.turn .nextFrame (.new rfl)), rfl⟩
  exact ⟨d, refused, h, hrest, coherent_iff_none_refused h⟩

/-- The second schema is refused, and from then on events of id 1 are decoded
with a field that the registry does not report. -/
theorem twoSchemas_not_coherent :
    ∃ d refused, Reaches (twoSchemas plainEntry flaggedEntry) d refused ∧
      (d.state.schemaCache 1).map SchemaCache.entry = some flaggedEntry ∧
      d.state.registry.get 1 = some plainEntry ∧ ¬ Coherent d.state := by
  obtain ⟨d, refused, h, hcache, hregistry⟩ :
      ∃ d refused, Reaches (twoSchemas plainEntry flaggedEntry) d refused ∧
        (d.state.schemaCache 1).map SchemaCache.entry = some flaggedEntry ∧
        d.state.registry.get 1 = some plainEntry :=
    ⟨_, _, .turn .nextFrame (.turn .nextFrame (.new rfl)), rfl, rfl⟩
  refine ⟨d, refused, h, hcache, hregistry, fun hcoherent => ?_⟩
  have hsame := hcoherent.same 1
  rw [hcache, hregistry] at hsame
  exact absurd (Option.some.inj hsame) (by decide)

theorem known_of_called_twoSchemas :
    ∃ d, Called (twoSchemas plainEntry flaggedEntry) d ∧ d.state.registry.get 1 = some plainEntry ∧
      (d.state.schemaCache 1).isSome = (d.state.registry.get 1).isSome := by
  obtain ⟨d, h, hget⟩ : ∃ d, Called (twoSchemas plainEntry flaggedEntry) d ∧
      d.state.registry.get 1 = some plainEntry :=
    ⟨_, .nextFrame (.nextFrame (.new rfl)), rfl⟩
  exact ⟨d, h, hget, (known_of_called h 1).1⟩

end Decoder

end Dial9.TraceFormat
