/-
# Every batch is in one segment

One write adds one chunk to the open segment, or a torn part of it; closing a
segment moves it, as it is, behind the ones before it. So in every state the
batches taken are those of the closed segments, in order, followed by those of
the open one, whatever failed on the way.
-/

import Dial9.Core.SegmentWriter

namespace Dial9.Core.SegmentWriter

open Dial9.Lib Dial9.TraceFormat

variable {slots : Slots}

/-! ## What a segment holds -/

/-- The metadata last written, and the batches so far, each with the metadata
that was the last one before it. -/
abbrev Tally := Option Entries × List (Option Entries × Batch)

def Chunk.tally (tally : Tally) : Chunk → Tally
  | .metadata entries _ => (some entries, tally.2)
  | .batch written => (tally.1, tally.2 ++ [(tally.1, written)])
  | .prologue _ | .torn _ => tally

def RawEncoder.tally (raw : RawEncoder) : Tally := raw.chunks.foldl Chunk.tally (none, [])

def RawEncoder.metadata (raw : RawEncoder) : Option Entries := raw.tally.1

def RawEncoder.batches (raw : RawEncoder) : List (Option Entries × Batch) := raw.tally.2

def Segment.batches (segment : Segment) : List (Option Entries × Batch) := segment.raw.batches

/-- The bytes of a metadata frame are those of its entries, and these were in
force at some time, perhaps with the entry that seals a segment behind them. -/
def Stated (slots : Slots) (known : Entries → Prop) (entries : Entries) (bytes : Bytes) : Prop :=
  (∃ clock, bytes = metadataBytes slots entries clock) ∧
    ∃ base, known base ∧ (entries = base ∨ ∃ complete,
      entries = base ++ [(Writer.segmentCompleteKey, Writer.boolText complete)])

/-- Nothing but torn writes comes before the segment's metadata. -/
def Described : List Chunk → Prop
  | [] => True
  | .torn _ :: rest => Described rest
  | .metadata _ _ :: _ => True
  | _ :: _ => False

/-- The segment starts with a fresh header and a clock anchor, and with its
metadata and another anchor before anything else. -/
structure Opens (slots : Slots) (known : Entries → Prop) (raw : RawEncoder) : Prop where
  prologue : ∃ clock rest, raw.chunks = .prologue (prologueBytes slots clock) :: rest ∧
    Described rest
  stated : ∀ entries bytes, .metadata entries bytes ∈ raw.chunks →
    Stated slots known entries bytes

variable {known : Entries → Prop}

def HasMetadata (chunks : List Chunk) : Prop := ∃ entries bytes, .metadata entries bytes ∈ chunks

/-- What a chunk may be: the metadata the writer writes, a part of a write, or
anything once the metadata is there. -/
def Follows (slots : Slots) (known : Entries → Prop) (chunks : List Chunk) : Chunk → Prop
  | .torn _ => True
  | .metadata entries bytes => Stated slots known entries bytes
  | .prologue _ => False
  | .batch _ => HasMetadata chunks

variable {chunk : Chunk}

theorem Described.append {chunks : List Chunk} (h : Described chunks)
    (hfollows : Follows slots known chunks chunk) : Described (chunks ++ [chunk]) := by
  induction chunks with
  | nil =>
    cases chunk with
    | torn bytes | metadata entries bytes => trivial
    | prologue bytes => exact hfollows.elim
    | batch written =>
      rcases hfollows with ⟨entries, bytes, hmem⟩
      cases hmem
  | cons first rest ih =>
    cases first with
    | torn bytes =>
      apply ih h
      cases chunk with
      | torn _ | metadata _ _ | prologue _ => exact hfollows
      | batch written =>
        rcases hfollows with ⟨entries, bytes, hmem⟩
        exact ⟨entries, bytes, by simpa using hmem⟩
    | metadata _ _ | prologue _ | batch _ => exact h

theorem Opens.append {raw next : RawEncoder} (h : Opens slots known raw)
    (hchunks : next.chunks = raw.chunks ++ [chunk])
    (hfollows : Follows slots known raw.chunks chunk) : Opens slots known next where
  prologue := by
    rcases h.prologue with ⟨clock, rest, hopen, hdescribed⟩
    refine ⟨clock, rest ++ [chunk], by rw [hchunks, hopen]; rfl, ?_⟩
    apply @Described.append slots known _ _ hdescribed
    cases chunk with
    | torn _ | metadata _ _ | prologue _ => exact hfollows
    | batch written =>
      rcases hfollows with ⟨entries, bytes, hmem⟩
      rw [hopen] at hmem
      exact ⟨entries, bytes, by simpa using hmem⟩
  stated := by
    intro entries bytes hmem
    rw [hchunks] at hmem
    rcases List.mem_append.mp hmem with hold | hnew
    · exact h.stated entries bytes hold
    · obtain rfl := List.mem_singleton.mp hnew
      exact hfollows

theorem hasMetadata_of_tally {chunks : List Chunk} {tally : Tally} (hnone : tally.1 = none)
    {entries : Entries} (h : (chunks.foldl Chunk.tally tally).1 = some entries) :
    HasMetadata chunks := by
  induction chunks generalizing tally with
  | nil =>
    rw [List.foldl_nil, hnone] at h
    cases h
  | cons first rest ih =>
    have hlater : (Chunk.tally tally first).1 = none → HasMetadata (first :: rest) := by
      intro hnone'
      rcases ih hnone' h with ⟨entries, bytes, hmem⟩
      exact ⟨entries, bytes, List.mem_cons_of_mem _ hmem⟩
    cases first with
    | metadata entries bytes => exact ⟨entries, bytes, List.mem_cons_self⟩
    | prologue _ | batch _ | torn _ => exact hlater hnone

/-! ## One write and one flush -/

namespace RawEncoder

variable {raw : RawEncoder}

/-- What the segment takes of a write. -/
def taken (chunk : Chunk) (io : WriteIo) : Chunk :=
  match io.torn with
  | none => chunk
  | some n => .torn (chunk.bytes.take n)

theorem writeRaw_chunks (chunk : Chunk) (io : WriteIo) :
    (raw.writeRaw chunk io).2.chunks = raw.chunks ++ [taken chunk io] := by
  unfold writeRaw taken
  cases io.torn with
  | none | some _ => rfl

theorem writeRaw_ok {io : WriteIo} {next : RawEncoder}
    (h : raw.writeRaw chunk io = (.ok (), next)) : next.chunks = raw.chunks ++ [chunk] := by
  have hchunks := @writeRaw_chunks raw chunk io
  rw [h] at hchunks
  unfold writeRaw at h
  unfold taken at hchunks
  cases htorn : io.torn with
  | none =>
    rw [htorn] at hchunks
    exact hchunks
  | some n =>
    rw [htorn] at h
    cases h

theorem writeRaw_error {io : WriteIo} {next : RawEncoder} {e : IoError}
    (h : raw.writeRaw chunk io = (.error e, next)) :
    ∃ bytes, next.chunks = raw.chunks ++ [.torn bytes] := by
  have hchunks := @writeRaw_chunks raw chunk io
  rw [h] at hchunks
  unfold writeRaw at h
  unfold taken at hchunks
  cases htorn : io.torn with
  | none =>
    rw [htorn] at h
    cases h
  | some n =>
    rw [htorn] at hchunks
    exact ⟨_, hchunks⟩

@[simp]
theorem flush_chunks (through : Option Nat) : (raw.flush through).2.chunks = raw.chunks := by
  cases through <;> rfl

theorem flush_persisted (h : (raw.flush through).1 = .ok ()) :
    (raw.flush through).2.bytes.length ≤ (raw.flush through).2.persisted := by
  cases through with
  | none =>
    show raw.bytes.length ≤ max raw.persisted (min raw.bytes.length raw.bytes.length)
    omega
  | some n => cases h

end RawEncoder

/-- The segment keeps its batches and its start. -/
structure Quiet (slots : Slots) (known : Entries → Prop) (raw next : RawEncoder) : Prop where
  opens : Opens slots known raw → Opens slots known next
  batches : next.batches = raw.batches

namespace Quiet

variable {raw next last : RawEncoder}

theorem of_chunks (h : next.chunks = raw.chunks) : Quiet slots known raw next where
  opens := by
    rintro ⟨hprologue, hstated⟩
    rw [← h] at hprologue hstated
    exact ⟨hprologue, hstated⟩
  batches := by rw [RawEncoder.batches, RawEncoder.tally, h, RawEncoder.batches, RawEncoder.tally]

theorem trans (h : Quiet slots known raw next) (h' : Quiet slots known next last) :
    Quiet slots known raw last :=
  ⟨fun hopens => h'.opens (h.opens hopens), h'.batches.trans h.batches⟩

theorem of_append (hchunks : next.chunks = raw.chunks ++ [chunk])
    (hfollows : Follows slots known raw.chunks chunk)
    (hbatch : ∀ tally, (Chunk.tally tally chunk).2 = tally.2) : Quiet slots known raw next where
  opens := fun hopens => hopens.append hchunks hfollows
  batches := by
    rw [RawEncoder.batches, RawEncoder.tally, hchunks, List.foldl_append, List.foldl_cons,
      List.foldl_nil, hbatch]
    rfl

theorem torn {bytes : Bytes} (hchunks : next.chunks = raw.chunks ++ [.torn bytes]) :
    Quiet slots known raw next :=
  of_append hchunks trivial fun _ => rfl

end Quiet

/-! ## Every state of the writer -/

variable {need : Bool}

namespace Writer

variable {w next : Writer}

theorem quiet_metadata (raw : RawEncoder) {entries : Entries} {clock : Clock} (io : WriteIo)
    (hstated : Stated slots known entries (metadataBytes slots entries clock)) :
    Quiet slots known raw
      (raw.writeRaw (.metadata entries (metadataBytes slots entries clock)) io).2 := by
  cases hwrite : raw.writeRaw (.metadata entries (metadataBytes slots entries clock)) io with
  | mk result next =>
    cases result with
    | ok => exact Quiet.of_append (RawEncoder.writeRaw_ok hwrite) hstated fun _ => rfl
    | error e =>
      rcases RawEncoder.writeRaw_error hwrite with ⟨bytes, hchunks⟩
      exact Quiet.torn hchunks

theorem quiet_sealMetadata (w : Writer) (raw : RawEncoder) (kind : SealKind) (io : Io)
    (hknown : known w.segmentMetadata) :
    Quiet w.slots known raw (w.sealMetadata raw kind io) :=
  quiet_metadata raw io.sealMetadata ⟨⟨io.clock, rfl⟩, _, hknown, .inr ⟨_, rfl⟩⟩

theorem quiet_drainBuffer (raw : RawEncoder) (io : Io) :
    Quiet slots known raw (drainBuffer raw io).2 := by
  apply Quiet.of_chunks
  simp [drainBuffer]

variable {raw : RawEncoder}

variable {io : Io}

theorem drainBuffer_flushed (h : (drainBuffer raw io).1 = true) :
    (drainBuffer raw io).2.bytes.length ≤ (drainBuffer raw io).2.persisted := by
  apply RawEncoder.flush_persisted
  simpa [drainBuffer] using h

def activeBatches (w : Writer) : List (Option Entries × Batch) :=
  match w.state with
  | .active raw _ => raw.batches
  | .finished => []

theorem activeBatches_active (h : w.state = .active raw need) : w.activeBatches = raw.batches := by
  rw [activeBatches, h]

theorem activeBatches_finished (h : w.state = .finished) : w.activeBatches = [] := by
  rw [activeBatches, h]

/-- The `n`-th index after the first one. -/
def indexAfter (first n : Nat) : Nat := (first + n) % 2 ^ 32

theorem wrappingSucc_indexAfter (first n : Nat) :
    wrappingSucc (indexAfter first n) = indexAfter first (n + 1) := by
  unfold wrappingSucc indexAfter
  omega

/-- A closed segment, whatever became of it. -/
structure Segment.Sound (slots : Slots) (known : Entries → Prop) (segment : Segment) : Prop where
  opens : Opens slots known segment.raw
  flushed : segment.flushed = true → segment.raw.bytes.length ≤ segment.raw.persisted
  empty : segment.fate = .removed ∨ segment.fate = .stopped → segment.batches = []

/-- The open segment. -/
structure OpenSound (slots : Slots) (known : Entries → Prop) (first : Nat) (w : Writer)
    (raw : RawEncoder) (need : Bool) : Prop where
  opens : Opens slots known raw
  inForce : need = false → raw.metadata = some w.segmentMetadata
  quiet : w.hasRealEvents = false → raw.batches = []
  index : w.activeIndex = indexAfter first w.segments.length
  next : w.nextIndex = indexAfter first (w.segments.length + 1)

structure Sound (slots : Slots) (known : Entries → Prop) (first : Nat) (w : Writer) : Prop where
  slots_eq : w.slots = slots
  current : known w.segmentMetadata
  closed : ∀ segment ∈ w.segments, Segment.Sound slots known segment
  order : w.segments.flatMap Segment.batches ++ w.activeBatches =
    w.accepted.map (Prod.map some id)
  indices : w.segments.map Segment.index =
    (List.range w.segments.length).map (indexAfter first)
  active : ∀ raw need, w.state = .active raw need → OpenSound slots known first w raw need

variable {first : Nat}

section

variable (h : Sound slots known first w)
include h

theorem Sound.set (hstate : next.state = .active raw need)
    (hslots : next.slots = w.slots) (hmetadata : next.segmentMetadata = w.segmentMetadata)
    (hsegments : next.segments = w.segments)
    (horder : w.segments.flatMap Segment.batches ++ raw.batches =
      next.accepted.map (Prod.map some id))
    (hopen : OpenSound slots known first next raw need) : Sound slots known first next where
  slots_eq := hslots.trans h.slots_eq
  current := by
    rw [hmetadata]
    exact h.current
  closed := by
    rw [hsegments]
    exact h.closed
  order := by
    rw [hsegments, activeBatches_active hstate]
    exact horder
  indices := by
    rw [hsegments]
    exact h.indices
  active := by
    intro raw' need' hstate'
    rw [hstate] at hstate'
    cases hstate'
    exact hopen

theorem Sound.close {raw raw' : RawEncoder} {need flushed : Bool}
    {fate : Fate} (hstate : w.state = .active raw need) (hquiet : Quiet slots known raw raw')
    (hflushed : flushed = true → raw'.bytes.length ≤ raw'.persisted)
    (hempty : fate = .removed ∨ fate = .stopped → raw.batches = [])
    (hnext : next.state = .finished) (hslots : next.slots = w.slots)
    (hmetadata : next.segmentMetadata = w.segmentMetadata)
    (hsegments : next.segments = w.segments ++ [⟨w.activeIndex, raw', flushed, fate⟩])
    (haccepted : next.accepted = w.accepted) : Sound slots known first next where
  slots_eq := hslots.trans h.slots_eq
  current := by
    rw [hmetadata]
    exact h.current
  closed := by
    intro segment hmem
    rw [hsegments] at hmem
    rcases List.mem_append.mp hmem with hold | hnew
    · exact h.closed segment hold
    · obtain rfl := List.mem_singleton.mp hnew
      refine ⟨hquiet.opens (h.active raw need hstate).opens, hflushed, ?_⟩
      intro hfate
      exact hquiet.batches.trans (hempty hfate)
  order := by
    have horder := h.order
    rw [activeBatches_active hstate] at horder
    rw [activeBatches_finished hnext, hsegments, haccepted, ← horder]
    simp [Segment.batches, hquiet.batches]
  indices := by
    rw [hsegments, List.map_append, h.indices, List.length_append, List.length_singleton,
      List.range_succ, List.map_append]
    simp [(h.active raw need hstate).index]
  active := by
    intro raw need hstate
    rw [hnext] at hstate
    cases hstate

theorem Sound.of_same (hslots : next.slots = w.slots)
    (hmetadata : next.segmentMetadata = w.segmentMetadata) (hstate : next.state = w.state)
    (hsegments : next.segments = w.segments)
    (haccepted : next.accepted = w.accepted) (hactive : next.activeIndex = w.activeIndex)
    (hnext : next.nextIndex = w.nextIndex) (hevents : next.hasRealEvents = w.hasRealEvents) :
    Sound slots known first next where
  slots_eq := hslots.trans h.slots_eq
  current := by
    rw [hmetadata]
    exact h.current
  closed := by
    rw [hsegments]
    exact h.closed
  order := by
    rw [hsegments, activeBatches, hstate, haccepted]
    exact h.order
  indices := by
    rw [hsegments]
    exact h.indices
  active := by
    intro raw need hopen
    rw [hstate] at hopen
    have hsound := h.active raw need hopen
    exact ⟨hsound.opens, by rw [hmetadata]; exact hsound.inForce,
      by rw [hevents]; exact hsound.quiet,
      by rw [hactive, hsegments]; exact hsound.index, by rw [hnext, hsegments]; exact hsound.next⟩

/-! ## What each operation keeps -/

theorem Sound.evictOldest (hempty : w.activeBatches = []) :
    Sound slots known first w.evictOldest := by
  have hkept : ∀ kept, Sound slots known first { w with closedFiles := kept } := fun kept =>
    h.of_same rfl rfl rfl rfl rfl rfl rfl rfl
  unfold Writer.evictOldest
  split
  · simp only
    split
    · split
      · next raw need hstate =>
          rw [activeBatches_active hstate] at hempty
          have hsegments : (w.close raw false .stopped).segments =
            w.segments ++ [⟨w.activeIndex, raw, false, .stopped⟩] := rfl
          exact h.close hstate (Quiet.of_chunks (Eq.refl raw.chunks)) (by simp) (fun _ => hempty)
            (by rfl) (by rfl) (by rfl) hsegments (by rfl)
      · exact hkept _
    · exact hkept _
  · exact h

end

/-- The metadata in force and the batches taken stay. -/
structure Kept (w next : Writer) : Prop where
  accepted : next.accepted = w.accepted
  segmentMetadata : next.segmentMetadata = w.segmentMetadata

theorem kept_evictOldest (w : Writer) : Kept w w.evictOldest := by
  unfold Writer.evictOldest
  split
  · simp only
    split
    · split <;> exact ⟨rfl, rfl⟩
    · exact ⟨rfl, rfl⟩
  · exact ⟨rfl, rfl⟩

theorem opens_prepareSegment (clock : Clock) (h : prepareSegment slots clock = .active raw need) :
    Opens slots known raw ∧ raw.batches = [] ∧ need = true := by
  cases h
  exact ⟨⟨⟨clock, [], rfl, trivial⟩, by simp⟩, rfl, rfl⟩

theorem Sound.openNext (h : Sound slots known first w) (hstate : w.state = .finished)
    (hnext : w.nextIndex = indexAfter first w.segments.length) (io : Io) :
    Sound slots known first (w.openNext io).2 := by
  have hidle : Sound slots known first { w with nextIndex := wrappingSucc w.nextIndex } := by
    refine ⟨h.slots_eq, h.current, h.closed, h.order, h.indices, ?_⟩
    intro raw need hopen
    exact absurd (hstate.symm.trans hopen) (by simp)
  have hopened : Sound slots known first { w with
      nextIndex := wrappingSucc w.nextIndex
      state := prepareSegment w.slots io.clock
      activeIndex := w.nextIndex
      hasRealEvents := false
      metadataChangedSinceSeal := false } := by
    have horder := h.order
    rw [activeBatches_finished hstate] at horder
    refine ⟨h.slots_eq, h.current, h.closed, horder, h.indices, ?_⟩
    intro raw need hopen
    rw [h.slots_eq] at hopen
    rcases opens_prepareSegment io.clock hopen with ⟨hopens, hbatches, rfl⟩
    refine ⟨hopens, by simp, fun _ => hbatches, hnext, ?_⟩
    show wrappingSucc w.nextIndex = _
    rw [hnext, wrappingSucc_indexAfter]
  unfold Writer.openNext
  cases io.create with
  | some e => exact hidle
  | none =>
    cases io.prepare with
    | some e => exact hidle
    | none => exact hopened.evictOldest rfl

theorem kept_openNext (w : Writer) (io : Io) : Kept w (w.openNext io).2 := by
  unfold Writer.openNext
  cases io.create with
  | some e => exact ⟨rfl, rfl⟩
  | none =>
    cases io.prepare with
    | some e => exact ⟨rfl, rfl⟩
    | none =>
      have hkept := @kept_evictOldest
      exact ⟨(hkept _).accepted, (hkept _).segmentMetadata⟩

theorem kept_rotate (w : Writer) (kind : SealKind) (io : Io) : Kept w (w.rotate kind io).2 := by
  have hkept := @kept_openNext
  unfold Writer.rotate
  cases w.state with
  | finished => exact ⟨rfl, rfl⟩
  | active raw need =>
    cases io.sealing with
    | none => exact ⟨(hkept _ io).accepted, (hkept _ io).segmentMetadata⟩
    | some e =>
      cases e with
      | notFound => exact ⟨(hkept _ io).accepted, (hkept _ io).segmentMetadata⟩
      | other => exact ⟨rfl, rfl⟩

theorem Sound.rotate (h : Sound slots known first w) (kind : SealKind) (io : Io) :
    Sound slots known first (w.rotate kind io).2 := by
  unfold Writer.rotate
  cases hstate : w.state with
  | finished => exact h
  | active raw need =>
    have hopen := h.active raw need hstate
    have hquiet : Quiet slots known raw (drainBuffer (w.sealMetadata raw kind io) io).2 := by
      have hseal := quiet_sealMetadata w raw kind io h.current
      rw [h.slots_eq] at hseal
      exact hseal.trans (quiet_drainBuffer _ io)
    have hflushed := @drainBuffer_flushed (w.sealMetadata raw kind io) io
    -- Whatever became of the file, its segment joins the closed ones.
    have hclosed : ∀ fate, (fate = .removed ∨ fate = .stopped → raw.batches = []) →
        Sound slots known first ({ w with priorSealKind := kind, state := .finished }.close
          (drainBuffer (w.sealMetadata raw kind io) io).2
          (drainBuffer (w.sealMetadata raw kind io) io).1 fate) := fun fate hempty =>
      h.close hstate hquiet hflushed hempty (by rfl) (by rfl) (by rfl) (by rfl) (by rfl)
    have hindex : w.nextIndex = indexAfter first (w.segments.length + 1) := hopen.next
    simp only
    cases io.sealing with
    | none =>
      apply Sound.openNext _ rfl _ io
      · exact (hclosed .sealed (by simp)).of_same rfl rfl rfl rfl rfl rfl rfl rfl
      · simpa [pushClosed, Writer.close] using hindex
    | some e =>
      cases e with
      | notFound =>
        apply Sound.openNext _ rfl _ io
        · exact hclosed .abandoned (by simp)
        · simpa [Writer.close] using hindex
      | other => exact hclosed .unsealed (by simp)

theorem kept_maybeRotate (w : Writer) (io : Io) : Kept w (w.maybeRotate io).2 := by
  unfold Writer.maybeRotate
  cases w.state with
  | finished => exact ⟨rfl, rfl⟩
  | active raw need =>
    simp only
    split
    · exact kept_rotate w .overflow io
    · exact ⟨rfl, rfl⟩

theorem Sound.maybeRotate (h : Sound slots known first w) (io : Io) :
    Sound slots known first (w.maybeRotate io).2 := by
  unfold Writer.maybeRotate
  split
  · exact h
  · split
    · exact h.rotate .overflow io
    · exact h

theorem Sound.grow (h : Sound slots known first w) {raw raw' : RawEncoder} {need need' : Bool}
    (hstate : w.state = .active raw need) (hquiet : Quiet slots known raw raw')
    (hinForce : need' = false → raw'.metadata = some w.segmentMetadata) :
    Sound slots known first { w with state := .active raw' need' } := by
  have hopen := h.active raw need hstate
  have horder := h.order
  rw [activeBatches_active hstate, ← hquiet.batches] at horder
  have hopen' : OpenSound slots known first { w with state := .active raw' need' } raw' need' :=
    ⟨hquiet.opens hopen.opens, hinForce,
      fun hevents => hquiet.batches.trans (hopen.quiet hevents), hopen.index, hopen.next⟩
  exact h.set rfl rfl rfl rfl horder hopen'

theorem Sound.writeMetadataIfNeeded (h : Sound slots known first w) (io : Io) :
    Sound slots known first (w.writeMetadataIfNeeded io).2 := by
  unfold Writer.writeMetadataIfNeeded
  cases hstate : w.state with
  | finished => exact h
  | active raw need =>
    cases need with
    | false => exact h.grow hstate (Quiet.of_chunks rfl) (h.active raw false hstate).inForce
    | true =>
      have hquiet : Quiet slots known raw
          (w.writeSegmentMetadata raw w.segmentMetadata io.clock io.metadata).2 := by
        rw [writeSegmentMetadata, h.slots_eq]
        exact quiet_metadata raw io.metadata ⟨⟨io.clock, rfl⟩, _, h.current, .inl rfl⟩
      simp only
      cases hwrite : w.writeSegmentMetadata raw w.segmentMetadata io.clock io.metadata with
      | mk result raw' =>
        rw [hwrite] at hquiet
        cases result with
        | error e => exact h.grow hstate hquiet (by simp)
        | ok =>
          apply h.grow hstate hquiet
          intro _
          rw [RawEncoder.metadata, RawEncoder.tally, RawEncoder.writeRaw_ok hwrite,
            List.foldl_append]
          rfl

theorem writeMetadataIfNeeded_ok (h : w.writeMetadataIfNeeded io = (.ok (), next))
    (hstate : next.state = .active raw need) :
    need = false := by
  unfold Writer.writeMetadataIfNeeded at h
  cases hopen : w.state with
  | finished =>
    rw [hopen] at h
    cases h
    cases hopen.symm.trans hstate
  | active raw' need' =>
    rw [hopen] at h
    cases need' with
    | false =>
      cases h
      cases hstate
      rfl
    | true =>
      simp only at h
      cases hwrite : w.writeSegmentMetadata raw' w.segmentMetadata io.clock io.metadata with
      | mk result raw'' =>
        rw [hwrite] at h
        cases result with
        | error e => cases h
        | ok =>
          cases h
          cases hstate
          rfl

section

variable (h : Sound slots known first w)
include h

theorem Sound.batch {raw raw' : RawEncoder} {written : Batch}
    (hstate : w.state = .active raw false)
    (hchunks : raw'.chunks = raw.chunks ++ [.batch written]) :
    Sound slots known first { w with
      state := .active raw' false
      hasRealEvents := true
      accepted := w.accepted ++ [(w.segmentMetadata, written)] } := by
  have hopen := h.active raw false hstate
  have hinForce := hopen.inForce rfl
  have htally : raw'.tally = (raw.metadata, raw.batches ++ [(raw.metadata, written)]) := by
    rw [RawEncoder.tally, hchunks, List.foldl_append]
    rfl
  have horder := h.order
  rw [activeBatches_active hstate] at horder
  apply h.set (by rfl) (by rfl) (by rfl) (by rfl)
  · rw [RawEncoder.batches, htally, ← List.append_assoc, horder, hinForce, List.map_append]
    rfl
  · refine ⟨hopen.opens.append hchunks (hasMetadata_of_tally rfl hinForce), fun _ => ?_, by simp,
      hopen.index, hopen.next⟩
    rw [RawEncoder.metadata, htally]
    exact hinForce

theorem Sound.writeEncodedBatch (written : Batch) (io : Io) :
    Sound slots known first (w.writeEncodedBatch written io).2 := by
  have hmetadata := h.writeMetadataIfNeeded io
  unfold Writer.writeEncodedBatch
  cases hwrite : w.writeMetadataIfNeeded io with
  | mk result next =>
    rw [hwrite] at hmetadata
    cases result with
    | error e => exact hmetadata
    | ok =>
      simp only
      cases hstate : next.state with
      | finished => exact hmetadata.of_same rfl rfl hstate.symm rfl rfl rfl rfl rfl
      | active raw need =>
        obtain rfl := writeMetadataIfNeeded_ok hwrite hstate
        simp only
        split
        · cases hraw : raw.writeRaw (.batch written) io.batch with
          | mk result raw' =>
            cases result with
            | error e =>
              rcases RawEncoder.writeRaw_error hraw with ⟨bytes, hchunks⟩
              have hquiet : Quiet slots known raw raw' := Quiet.torn hchunks
              refine hmetadata.grow hstate hquiet fun hneed => ?_
              rw [RawEncoder.metadata, RawEncoder.tally, hchunks, List.foldl_append]
              exact (hmetadata.active raw false hstate).inForce hneed
            | ok =>
              exact (hmetadata.batch hstate (RawEncoder.writeRaw_ok hraw)).maybeRotate io
        · exact hmetadata

theorem Sound.drained (io : Io) : Sound slots known first (w.drained io).2 := by
  have hrotate := h.rotate .drained io
  unfold Writer.drained
  split
  · exact h
  · split
    · split
      · next hresult => rwa [hresult] at hrotate
      · next hresult => rwa [hresult] at hrotate
    · exact h

theorem Sound.finalize (io : Io) : Sound slots known first (w.finalize io).2 := by
  unfold Writer.finalize
  cases hstate : w.state with
  | finished => exact h
  | active raw need =>
    have hopen := h.active raw need hstate
    have hquiet : Quiet slots known raw (drainBuffer (w.sealMetadata raw .drained io) io).2 := by
      have hseal := quiet_sealMetadata w raw .drained io h.current
      rw [h.slots_eq] at hseal
      exact hseal.trans (quiet_drainBuffer _ io)
    have hflushed := @drainBuffer_flushed (w.sealMetadata raw .drained io) io
    have hclosed : ∀ fate, (fate = .removed ∨ fate = .stopped → raw.batches = []) →
        Sound slots known first ({ w with state := .finished }.close
          (drainBuffer (w.sealMetadata raw .drained io) io).2
          (drainBuffer (w.sealMetadata raw .drained io) io).1 fate) := fun fate hempty =>
      h.close hstate hquiet hflushed hempty (by rfl) (by rfl) (by rfl) (by rfl) (by rfl)
    simp only
    split
    · cases io.sealing with
      | none =>
        apply Sound.evictOldest _ rfl
        exact (hclosed .sealed (by simp)).of_same rfl rfl rfl rfl rfl rfl rfl rfl
      | some e =>
        cases e with
        | notFound => exact (hclosed .abandoned (by simp)).evictOldest rfl
        | other => exact hclosed .unsealed (by simp)
    · next hnothing =>
        have hevents : w.hasRealEvents = false := by
          simp only [not_or] at hnothing
          simpa using hnothing.1
        have hremoved := (hclosed .removed fun _ => hopen.quiet hevents).evictOldest rfl
        cases io.removeActive with
        | none => exact hremoved
        | some e =>
          cases e with
          | notFound => exact hremoved
          | other => exact hclosed .unsealed (by simp)

theorem Sound.flush (io : Io) : Sound slots known first (w.flush io).2 := by
  unfold Writer.flush
  cases hstate : w.state with
  | finished => exact h
  | active raw need =>
    have hchunks : (raw.flush io.flush).2.chunks = raw.chunks := by simp
    refine h.grow hstate (Quiet.of_chunks hchunks) fun hneed => ?_
    rw [RawEncoder.metadata, RawEncoder.tally, hchunks]
    exact (h.active raw need hstate).inForce hneed

theorem Sound.updateSegmentMetadata (incoming : Entries)
    (hknown : known (w.updateSegmentMetadata incoming).segmentMetadata) :
    Sound slots known first (w.updateSegmentMetadata incoming) := by
  unfold Writer.updateSegmentMetadata at hknown ⊢
  cases hmerge : mergeEntries w.segmentMetadata incoming with
  | none => exact h
  | some entries =>
    rw [hmerge] at hknown
    refine ⟨h.slots_eq, hknown, h.closed, ?_, h.indices, ?_⟩
    · have horder := h.order
      unfold activeBatches at horder ⊢
      cases hstate : w.state with
      | finished | active _ _ => simpa only [hstate] using horder
    · intro raw need hopen
      cases hstate : w.state with
      | finished =>
        simp only [hstate] at hopen
        cases hopen
      | active raw' need' =>
        simp only [hstate] at hopen
        cases hopen
        have hsound := h.active raw need' hstate
        exact ⟨hsound.opens, by simp, hsound.quiet, hsound.index, hsound.next⟩

theorem Sound.call (call : Call) (hknown : known (w.call call).segmentMetadata) :
    Sound slots known first (w.call call) := by
  cases call with
  | writeEncodedBatch written io => exact h.writeEncodedBatch written io
  | rotate kind io => exact h.rotate kind io
  | drained io => exact h.drained io
  | finalize io => exact h.finalize io
  | flush io => exact h.flush io
  | updateSegmentMetadata incoming => exact h.updateSegmentMetadata incoming hknown
  | writeCurrentSegmentMetadata io => exact h.writeMetadataIfNeeded io

end

/-! ## What the calls bring -/

/-- The metadata in force after some calls. -/
def metadataAfter (metadata : Entries) (calls : List Call) : Entries :=
  calls.foldl (fun metadata call =>
    match call with
    | .updateSegmentMetadata incoming => (mergeEntries metadata incoming).getD metadata
    | _ => metadata) metadata

/-- The writer is open, and neither the write of a batch with events nor that
of the metadata it may have to follow fails. -/
def takes (w : Writer) (written : Batch) (io : Io) : Bool :=
  match w.state with
  | .finished => false
  | .active _ need =>
    decide (0 < written.eventCount) && io.batch.torn.isNone && (!need || io.metadata.torn.isNone)

/-- The batch that a call writes, with the metadata in force. -/
def takenBy (w : Writer) (metadata : Entries) : Call → List (Entries × Batch)
  | .writeEncodedBatch written io => if w.takes written io then [(metadata, written)] else []
  | _ => []

/-- The batches that some calls write, each with the metadata then in force. -/
def taken (w : Writer) (metadata : Entries) : List Call → List (Entries × Batch)
  | [] => []
  | call :: calls =>
    w.takenBy metadata call ++ (w.call call).taken (metadataAfter metadata [call]) calls

theorem writeEncodedBatch_taken (w : Writer) (written : Batch) (io : Io) :
    (w.writeEncodedBatch written io).2.segmentMetadata = w.segmentMetadata ∧
    (w.writeEncodedBatch written io).2.accepted =
      w.accepted ++ (if w.takes written io then [(w.segmentMetadata, written)] else []) ∧
    (w.state ≠ .finished → 0 < written.eventCount → (w.writeEncodedBatch written io).1 = .ok () →
      w.takes written io = true) := by
  have hkept := @kept_maybeRotate
  unfold Writer.writeEncodedBatch takes writeMetadataIfNeeded writeSegmentMetadata
    RawEncoder.writeRaw
  cases hstate : w.state with
  | finished => simp [hstate]
  | active raw need =>
    by_cases hevents : 0 < written.eventCount
    · cases need with
      | false =>
        cases io.batch.torn with
        | none => simp [hevents, (hkept _ io).accepted, (hkept _ io).segmentMetadata]
        | some n => simp [hevents]
      | true =>
        cases io.metadata.torn with
        | none =>
          cases io.batch.torn with
          | none => simp [hevents, (hkept _ io).accepted, (hkept _ io).segmentMetadata]
          | some n => simp [hevents]
        | some n => simp
    · cases need with
      | false => simp [hevents]
      | true =>
        cases io.metadata.torn with
        | none | some _ => simp [hevents]

theorem kept_call (w : Writer) {call : Call}
    (hwrite : ∀ written io, call ≠ .writeEncodedBatch written io)
    (hupdate : ∀ incoming, call ≠ .updateSegmentMetadata incoming) : Kept w (w.call call) := by
  have hevict := @kept_evictOldest
  cases call with
  | writeEncodedBatch written io => exact absurd rfl (hwrite written io)
  | updateSegmentMetadata incoming => exact absurd rfl (hupdate incoming)
  | rotate kind io => exact kept_rotate w kind io
  | drained io =>
    have hrotate := kept_rotate w .drained io
    show Kept w (w.drained io).2
    unfold Writer.drained
    split
    · exact ⟨rfl, rfl⟩
    · split
      · split
        · next hresult => rwa [hresult] at hrotate
        · next hresult => rwa [hresult] at hrotate
      · exact ⟨rfl, rfl⟩
  | finalize io =>
    show Kept w (w.finalize io).2
    unfold Writer.finalize
    split
    · exact ⟨rfl, rfl⟩
    · simp only
      split <;> split <;>
        first
          | exact ⟨rfl, rfl⟩
          | exact ⟨(hevict _).accepted, (hevict _).segmentMetadata⟩
  | flush io =>
    show Kept w (w.flush io).2
    unfold Writer.flush
    split <;> exact ⟨rfl, rfl⟩
  | writeCurrentSegmentMetadata io =>
    show Kept w (w.writeMetadataIfNeeded io).2
    unfold Writer.writeMetadataIfNeeded
    split
    · exact ⟨rfl, rfl⟩
    · exact ⟨rfl, rfl⟩
    · split <;> exact ⟨rfl, rfl⟩

theorem call_segmentMetadata (w : Writer) (call : Call) :
    (w.call call).segmentMetadata = metadataAfter w.segmentMetadata [call] := by
  cases call with
  | writeEncodedBatch written io => exact (writeEncodedBatch_taken w written io).1
  | updateSegmentMetadata incoming =>
    show (w.updateSegmentMetadata incoming).segmentMetadata =
      (mergeEntries w.segmentMetadata incoming).getD w.segmentMetadata
    unfold Writer.updateSegmentMetadata
    cases mergeEntries w.segmentMetadata incoming with
    | none | some _ => rfl
  | rotate _ _ | drained _ | finalize _ | flush _ | writeCurrentSegmentMetadata _ =>
    exact (kept_call w (by simp) (by simp)).segmentMetadata

theorem call_accepted (w : Writer) (call : Call) :
    (w.call call).accepted = w.accepted ++ w.takenBy w.segmentMetadata call := by
  cases call with
  | writeEncodedBatch written io => exact (writeEncodedBatch_taken w written io).2.1
  | updateSegmentMetadata incoming =>
    show (w.updateSegmentMetadata incoming).accepted = w.accepted ++ []
    unfold Writer.updateSegmentMetadata
    cases mergeEntries w.segmentMetadata incoming with
    | none | some _ => exact (List.append_nil _).symm
  | rotate _ _ | drained _ | finalize _ | flush _ | writeCurrentSegmentMetadata _ =>
    exact (kept_call w (by simp) (by simp)).accepted.trans (List.append_nil _).symm

theorem runCalls_accepted (w : Writer) (calls : List Call) :
    (w.runCalls calls).accepted = w.accepted ++ w.taken w.segmentMetadata calls := by
  induction calls generalizing w with
  | nil => exact (List.append_nil _).symm
  | cons call calls ih =>
    have hrun : w.runCalls (call :: calls) = (w.call call).runCalls calls := rfl
    rw [hrun, ih, call_accepted, call_segmentMetadata, taken, List.append_assoc]

/-- What every run keeps, once all the metadata it puts in force is known. -/
theorem Sound.runCalls (h : Sound slots known first w) (calls : List Call)
    (hknown : ∀ before, before <+: calls → known (metadataAfter w.segmentMetadata before)) :
    Sound slots known first (w.runCalls calls) := by
  induction calls generalizing w with
  | nil => exact h
  | cons call calls ih =>
    have hcall := call_segmentMetadata w call
    apply ih (h.call call (hcall ▸ hknown [call] (List.prefix_append [call] calls)))
    intro before hbefore
    rw [hcall]
    exact hknown (call :: before) (List.cons_prefix_cons.mpr ⟨rfl, hbefore⟩)

/-! ## The end of a writer -/

/-- The events that the batches of some calls bring. -/
def offeredEvents (calls : List Call) : Nat :=
  (calls.map fun
    | .writeEncodedBatch written _ => written.eventCount
    | _ => 0).sum

/-- A finished writer stays as it is, and counts what it is given. -/
structure Over (w : Writer) (events : Nat) (next : Writer) : Prop where
  finished : next.state = .finished
  segments : next.segments = w.segments
  accepted : next.accepted = w.accepted
  dropped : next.droppedEvents = w.droppedEvents + events

theorem over_writeEncodedBatch (h : w.state = .finished) (written : Batch) (io : Io) :
    Over w written.eventCount (w.writeEncodedBatch written io).2 := by
  have hmetadata : w.writeMetadataIfNeeded io = (.ok (), w) := by
    rw [writeMetadataIfNeeded, h]
  unfold Writer.writeEncodedBatch
  rw [hmetadata]
  simp only
  rw [h]
  exact ⟨rfl, rfl, rfl, rfl⟩

theorem over_call (h : w.state = .finished) (call : Call) :
    Over w (offeredEvents [call]) (w.call call) := by
  have hrotate : ∀ kind io, w.rotate kind io = (.ok (), w) := by
    intro kind io
    rw [rotate, h]
  cases call with
  | writeEncodedBatch written io => exact over_writeEncodedBatch h written io
  | rotate kind io =>
    rw [call, hrotate]
    exact ⟨h, rfl, rfl, rfl⟩
  | drained io =>
    have hsame : (w.drained io).2 = w := by
      unfold Writer.drained
      rw [hrotate]
      split
      · rfl
      · split <;> rfl
    show Over w 0 (w.drained io).2
    rw [hsame]
    exact ⟨h, rfl, rfl, rfl⟩
  | finalize io =>
    rw [call, finalize, h]
    exact ⟨h, rfl, rfl, rfl⟩
  | flush io =>
    rw [call, flush, h]
    exact ⟨h, rfl, rfl, rfl⟩
  | updateSegmentMetadata incoming =>
    show Over w 0 (w.updateSegmentMetadata incoming)
    unfold Writer.updateSegmentMetadata
    cases mergeEntries w.segmentMetadata incoming with
    | none => exact ⟨h, rfl, rfl, rfl⟩
    | some entries =>
      rw [h]
      exact ⟨rfl, rfl, rfl, rfl⟩
  | writeCurrentSegmentMetadata io =>
    rw [call, writeMetadataIfNeeded, h]
    exact ⟨h, rfl, rfl, rfl⟩

theorem over_runCalls (h : w.state = .finished) (calls : List Call) :
    Over w (offeredEvents calls) (w.runCalls calls) := by
  induction calls generalizing w with
  | nil => exact ⟨h, rfl, rfl, rfl⟩
  | cons call calls ih =>
    have hcall := over_call h call
    have hrest := ih hcall.finished
    refine ⟨hrest.finished, hrest.segments.trans hcall.segments,
      hrest.accepted.trans hcall.accepted, ?_⟩
    show ((w.call call).runCalls calls).droppedEvents = _
    rw [hrest.dropped, hcall.dropped]
    simp [offeredEvents, Nat.add_assoc]

/-! ## The account of a run -/

/-- The metadata was in force after some of the calls. -/
def InForce (metadata : Entries) (calls : List Call) (entries : Entries) : Prop :=
  ∃ before, before <+: calls ∧ entries = metadataAfter metadata before

/-- What a run accounts for that took these batches. -/
structure Accounted (slots : Slots) (known : Entries → Prop) (first : Nat)
    (taken : List (Entries × Batch)) (w : Writer) : Prop where
  /-- Each batch taken is in one segment, in order, behind the metadata then in force. -/
  order : w.segments.flatMap Segment.batches ++ w.activeBatches = taken.map (Prod.map some id)
  accepts : ∀ written io, w.state ≠ .finished → 0 < written.eventCount →
    (w.writeEncodedBatch written io).1 = .ok () → w.takes written io = true
  opens : ∀ segment ∈ w.segments, Opens slots known segment.raw
  whole : ∀ segment ∈ w.segments, segment.flushed = true → segment.file = segment.raw.bytes
  /-- A segment that is given up without a failure holds no batch. -/
  empty : ∀ segment ∈ w.segments, segment.fate = .removed ∨ segment.fate = .stopped →
    segment.batches = []
  /-- The indices increase while they fit. -/
  increasing : first + w.segments.length ≤ 2 ^ 32 →
    (w.segments.map Segment.index).Pairwise (· < ·)
  above : first + w.segments.length < 2 ^ 32 → w.state ≠ .finished →
    ∀ segment ∈ w.segments, segment.index < w.activeIndex
  terminal : w.state = .finished → ∀ calls, Over w (offeredEvents calls) (w.runCalls calls)

theorem indexAfter_lt {first i j : Nat} (hlt : i < j) (hfit : first + j < 2 ^ 32) :
    indexAfter first i < indexAfter first j := by
  unfold indexAfter
  omega

theorem Sound.accounted (h : Sound slots known first w) {taken : List (Entries × Batch)}
    (htaken : w.accepted = taken) : Accounted slots known first taken w where
  order := htaken ▸ h.order
  accepts := fun written io => (writeEncodedBatch_taken w written io).2.2
  opens := fun segment hmem => (h.closed segment hmem).opens
  whole := by
    intro segment hmem hflushed
    exact List.take_of_length_le ((h.closed segment hmem).flushed hflushed)
  empty := fun segment hmem => (h.closed segment hmem).empty
  increasing := by
    intro hfit
    rw [h.indices, List.pairwise_map]
    apply List.pairwise_lt_range.imp_of_mem
    intro i j _ hj hlt
    have hbound := List.mem_range.mp hj
    exact indexAfter_lt hlt (by omega)
  above := by
    intro hfit hactive segment hmem
    cases hstate : w.state with
    | finished => exact absurd hstate hactive
    | active raw need =>
      have hindex : segment.index ∈ w.segments.map Segment.index := List.mem_map_of_mem hmem
      rw [h.indices] at hindex
      rcases List.mem_map.mp hindex with ⟨i, hi, heq⟩
      rw [← heq, (h.active raw need hstate).index]
      exact indexAfter_lt (List.mem_range.mp hi) hfit
  terminal := fun hfinished calls => over_runCalls hfinished calls

theorem sound_create {isDisk : Bool} {maxFileSize maxTotalSize : Nat}
    {closedFiles : List (Nat × Nat)} {metadata : Entries} {clock : Clock}
    (h : create slots isDisk maxFileSize maxTotalSize closedFiles first metadata clock = some w)
    (hknown : known metadata) :
    Sound slots known first w ∧ w.accepted = [] ∧ w.segmentMetadata = metadata := by
  rcases Option.ite_none_right_eq_some.mp h with ⟨hfit, ⟨⟩⟩
  refine ⟨?_, (kept_evictOldest _).accepted, (kept_evictOldest _).segmentMetadata⟩
  apply Sound.evictOldest _ rfl
  refine ⟨rfl, hknown, by simp, rfl, rfl, ?_⟩
  intro raw need hstate
  rcases opens_prepareSegment clock hstate with ⟨hopens, hbatches, rfl⟩
  refine ⟨hopens, by simp, fun _ => hbatches, ?_, ?_⟩
  · show first = (first + 0) % 2 ^ 32
    omega
  · show first + 1 = (first + 1) % 2 ^ 32
    omega

/-- In every run of calls, with any failures, every batch that a call writes is
in one segment behind the metadata then in force, and they keep their order; the
segments start with their prologue and metadata and their indices increase; a
finished writer stays finished and counts what it drops. -/
theorem segments_account {isDisk : Bool} {maxFileSize maxTotalSize : Nat}
    {closedFiles : List (Nat × Nat)} {metadata : Entries} {clock : Clock}
    (h : create slots isDisk maxFileSize maxTotalSize closedFiles first metadata clock = some w)
    (calls : List Call) :
    Accounted slots (InForce metadata calls) first (w.taken metadata calls)
      (w.runCalls calls) := by
  have hknown : InForce metadata calls metadata := ⟨[], List.nil_prefix, rfl⟩
  rcases sound_create h hknown with ⟨hsound, haccepted, hmetadata⟩
  apply (hsound.runCalls calls fun before hbefore => ⟨before, hbefore, by rw [hmetadata]⟩).accounted
  rw [runCalls_accepted, haccepted, hmetadata]
  rfl

/-! ### A full disk, and a file that is gone -/

/-- A call in which nothing fails. -/
def quietIo : Io where
  metadata := ⟨none, 0⟩
  batch := ⟨none, 0⟩
  sealMetadata := ⟨none, 0⟩
  flush := none
  intoInner := none
  sealing := none
  create := none
  prepare := none
  removeActive := none
  clock := ⟨1000, 1700000000000000000⟩
  deadline := true

def hostSlots : Slots := ⟨1, 2, by decide⟩

/-- A batch of one event. -/
def oneEvent : Batch := ⟨prologueBytes hostSlots ⟨2000, 1700000000000001000⟩, 1⟩

set_option maxRecDepth 4000 in
/-- A segment on a full disk is sealed without what its buffer held, and one
whose file is gone is given up: either way a batch taken is in no file. -/
theorem batch_lost :
    ∃ w, create hostSlots true 104857600 1073741824 [] 0 [] quietIo.clock = some w ∧
      w.taken [] [.writeEncodedBatch oneEvent quietIo,
        .drained { quietIo with flush := some 0, intoInner := some 0 }] = [([], oneEvent)] ∧
      (¬ ∃ segment ∈ (w.runCalls [.writeEncodedBatch oneEvent quietIo,
        .drained { quietIo with flush := some 0, intoInner := some 0 }]).segments,
        oneEvent.encodedBytes <:+: segment.file) ∧
      (w.runCalls [.writeEncodedBatch oneEvent quietIo,
        .drained { quietIo with flush := some 0, intoInner := some 0 }]).activeBatches = [] ∧
      w.taken [] [.writeEncodedBatch oneEvent quietIo,
        .drained { quietIo with sealing := some .notFound }] = [([], oneEvent)] ∧
      (w.runCalls [.writeEncodedBatch oneEvent quietIo,
        .drained { quietIo with sealing := some .notFound }]).segments.map Segment.fate =
          [.abandoned] ∧
      (w.runCalls [.writeEncodedBatch oneEvent quietIo,
        .drained { quietIo with sealing := some .notFound }]).activeBatches = [] := by
  refine ⟨_, rfl, ?_⟩
  decide

/-- One entry of metadata. -/
def complete : Entries := [(segmentCompleteKey, boolText true)]

set_option maxRecDepth 4000 in
/-- A writer that takes a batch, puts metadata in force, takes another batch, seals its
segment, and is finalized. -/
theorem segments_account_twoBatches :
    ∃ w, create hostSlots true 104857600 1073741824 [] 0 [] quietIo.clock = some w ∧
      Accounted hostSlots (InForce [] [.writeEncodedBatch oneEvent quietIo,
        .updateSegmentMetadata complete, .writeEncodedBatch oneEvent quietIo, .drained quietIo,
        .finalize quietIo]) 0 (w.taken [] [.writeEncodedBatch oneEvent quietIo,
        .updateSegmentMetadata complete, .writeEncodedBatch oneEvent quietIo, .drained quietIo,
        .finalize quietIo]) (w.runCalls [.writeEncodedBatch oneEvent quietIo,
        .updateSegmentMetadata complete, .writeEncodedBatch oneEvent quietIo, .drained quietIo,
        .finalize quietIo]) ∧
      (w.runCalls [.writeEncodedBatch oneEvent quietIo, .updateSegmentMetadata complete,
        .writeEncodedBatch oneEvent quietIo, .drained quietIo,
        .finalize quietIo]).segments.map Segment.batches =
          [[(some [], oneEvent), (some complete, oneEvent)], []] := by
  have hcreate : ∃ w, create hostSlots true 104857600 1073741824 [] 0 [] quietIo.clock = some w ∧
      (w.runCalls [.writeEncodedBatch oneEvent quietIo, .updateSegmentMetadata complete,
        .writeEncodedBatch oneEvent quietIo, .drained quietIo,
        .finalize quietIo]).segments.map Segment.batches =
          [[(some [], oneEvent), (some complete, oneEvent)], []] := by
    refine ⟨_, rfl, ?_⟩
    decide
  rcases hcreate with ⟨w, hcreate, hbatches⟩
  exact ⟨w, hcreate, segments_account hcreate _, hbatches⟩

end Writer

end Dial9.Core.SegmentWriter
