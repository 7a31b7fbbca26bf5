/-
# What a dump counts

A dump counts the segments that overlap its window and pass every stage while
it is open. The S3 stage, when it is the last, sees the same segments: it finds
the ids of their dumps in the metadata, comma-joined, and keeps the key of each
upload under them. This module shows that the counter of a dump is the number of
those segments, and that its manifest lists their keys.
-/

import Dial9.Core.Receipts
import Dial9.Core.Hand

namespace Dial9.Core

open Dial9.Lib

/-! ## Matched dumps -/

/-- The dumps whose window a span overlaps. -/
def overlapping (dumps : List ActiveDump) (epochSecs sealSecs : Nat) : List ActiveDump :=
  dumps.filter fun d => d.window.overlaps epochSecs sealSecs

theorem filterMap_findIdxs {α : Type} (p : α → Bool) (before xs : List α) :
    (xs.findIdxs p before.length).filterMap (fun i => (before ++ xs)[i]?) = xs.filter p := by
  induction xs generalizing before with
  | nil => rfl
  | cons x xs ih =>
    have hrest := ih (before ++ [x])
    rw [List.length_append, List.length_singleton, List.append_assoc, List.singleton_append]
      at hrest
    rw [List.findIdxs_cons]
    split
    · rename_i hx
      rw [List.filterMap_cons, List.getElem?_append_right (Nat.le_refl _), Nat.sub_self]
      simp only [List.getElem?_cons_zero]
      rw [hrest, List.filter_cons_of_pos hx]
    · rename_i hx
      rw [hrest, List.filter_cons_of_neg hx]

theorem filterMap_matchedDumps (dumps : List ActiveDump) (epochSecs sealSecs : Nat) :
    (matchedDumps dumps epochSecs sealSecs).filterMap (fun i => dumps[i]?) =
      overlapping dumps epochSecs sealSecs :=
  filterMap_findIdxs _ [] dumps

theorem matchedDumps_isEmpty (dumps : List ActiveDump) (epochSecs sealSecs : Nat) :
    (matchedDumps dumps epochSecs sealSecs).isEmpty =
      (overlapping dumps epochSecs sealSecs).isEmpty := by
  have hlength : (matchedDumps dumps epochSecs sealSecs).length =
      (overlapping dumps epochSecs sealSecs).length := by
    simp [matchedDumps, overlapping, List.countP_eq_length_filter]
  rw [Bool.eq_iff_iff, List.isEmpty_iff, List.isEmpty_iff, ← List.length_eq_zero_iff,
    ← List.length_eq_zero_iff, hlength]

variable {dumps todo : List ActiveDump} {metadata : List (Text × Text)}
  {manifests : List DumpManifest}

theorem mem_matchedDumps {epochSecs sealSecs i : Nat} (hi : i < dumps.length) :
    i ∈ matchedDumps dumps epochSecs sealSecs ↔
      (dumps.get ⟨i, hi⟩).window.overlaps epochSecs sealSecs = true :=
  List.mem_findIdxs_iff_pos_getElem hi

theorem countMatched_matchedDumps (dumps : List ActiveDump) (epochSecs sealSecs : Nat) :
    countMatched dumps (matchedDumps dumps epochSecs sealSecs) epochSecs sealSecs =
      dumps.map fun d =>
        if d.window.overlaps epochSecs sealSecs then d.count epochSecs sealSecs else d := by
  apply List.ext_getElem (by simp [countMatched])
  intro i hi _
  have hlt : i < dumps.length := by simpa [countMatched] using hi
  simp only [countMatched, List.getElem_mapIdx, List.getElem_map]
  by_cases hmem : i ∈ matchedDumps dumps epochSecs sealSecs
  · rw [if_pos hmem, if_pos]
    exact (mem_matchedDumps hlt).mp hmem
  · rw [if_neg hmem, if_neg]
    exact fun h => hmem ((mem_matchedDumps hlt).mpr h)

/-! ## Keys -/

theorem lookup_orInsert {key value : Text}
    (h : metadata.lookup key = some value) (pair : Text × Text) :
    (orInsert metadata pair).lookup key = some value := by
  unfold orInsert
  split
  · exact h
  · rw [List.lookup_append, h]
    rfl

theorem lookup_foldl_orInsert {key value : Text}
    (h : metadata.lookup key = some value) (pairs : List (Text × Text)) :
    (pairs.foldl orInsert metadata).lookup key = some value := by
  induction pairs generalizing metadata with
  | nil => exact h
  | cons pair pairs ih => exact ih (lookup_orInsert h pair)

theorem lookup_segmentMetadata (index epochSecs : Nat) (matched : List ActiveDump) :
    (segmentMetadata index epochSecs matched).lookup "dump_id".toList =
      if matched.isEmpty then none
      else some ([','].intercalate (matched.map fun d => d.id.display)) := by
  unfold segmentMetadata
  simp only
  split
  · rfl
  · apply lookup_foldl_orInsert
    rfl

theorem foldl_push {ids : List Text} (hnodup : ids.Nodup) (keys : DumpKeys) (key : String)
    (text : Text) :
    ids.foldl (fun keys id => Function.update keys id (keys id ++ [key])) keys text =
      if text ∈ ids then keys text ++ [key] else keys text := by
  induction ids generalizing keys with
  | nil => rfl
  | cons id ids ih =>
    rcases List.nodup_cons.mp hnodup with ⟨hnew, hrest⟩
    rw [List.foldl_cons, ih hrest]
    by_cases heq : text = id
    · rw [heq, if_neg hnew, if_pos List.mem_cons_self, Function.update_self]
    · rw [Function.update_of_ne heq]
      simp [heq]

theorem push_segmentMetadata (keys : DumpKeys) (index epochSecs : Nat) {matched : List ActiveDump}
    (hnodup : (matched.map ActiveDump.id).Nodup) (key : String) (id : DumpId) :
    keys.push (segmentMetadata index epochSecs matched) key id.display =
      if id ∈ matched.map ActiveDump.id then keys id.display ++ [key] else keys id.display := by
  rw [DumpKeys.push, lookup_segmentMetadata]
  split
  · rename_i hempty
    rw [List.isEmpty_iff.mp hempty]
    rfl
  · rename_i hempty
    have hne : matched.map (fun d => d.id.display) ≠ [] := by
      simpa [List.isEmpty_iff] using hempty
    have hsplit : ([','].intercalate (matched.map fun d => d.id.display)).splitOn ',' =
        matched.map fun d => d.id.display := by
      apply List.splitOn_intercalate _ _ hne
      intro text htext
      rcases List.mem_map.mp htext with ⟨d, -, rfl⟩
      exact comma_not_mem_base32 _ _
    have hfilter : (matched.map fun d => d.id.display).filter (fun id => !id.isEmpty) =
        (matched.map ActiveDump.id).map DumpId.display := by
      rw [List.map_map, List.filter_eq_self.mpr]
      · rfl
      · intro text htext
        rcases List.mem_map.mp htext with ⟨d, -, rfl⟩
        simp [d.id.display_ne_nil]
    have hinjective : Function.Injective DumpId.display := fun _ _ h => DumpId.display_injective h
    simp only [hsplit, hfilter]
    rw [foldl_push (hnodup.map hinjective)]
    simp only [List.mem_map_of_injective hinjective]

variable {d d' : ActiveDump} {w next : Worker} {e : WorkerEvent} {stage : Nat}

theorem id_mem_overlapping (hnodup : (dumps.map ActiveDump.id).Nodup)
    (hd : d ∈ dumps) (epochSecs sealSecs : Nat) :
    d.id ∈ (overlapping dumps epochSecs sealSecs).map ActiveDump.id ↔
      d.window.overlaps epochSecs sealSecs = true := by
  constructor
  · intro hmem
    rcases List.mem_map.mp hmem with ⟨d', hd', hid⟩
    rcases List.mem_filter.mp hd' with ⟨hmem', hoverlaps⟩
    rwa [List.inj_on_of_nodup_map hnodup hmem' hd hid] at hoverlaps
  · intro hoverlaps
    exact List.mem_map.mpr ⟨d, List.mem_filter.mpr ⟨hd, hoverlaps⟩, rfl⟩

variable {dump : ActiveDump} {manifest : Option String}

namespace Worker

/-! ## The invariant -/

/-- The segments a dump should have counted, newest first. -/
def counted (w : Worker) (d : ActiveDump) : List Pass :=
  w.passes.filter fun pass =>
    pass.active.contains d.id && d.window.overlaps pass.epochSecs pass.sealSecs

/-- The keys of these segments, in the order of their uploads. -/
def keysOf (w : Worker) (d : ActiveDump) : List String := ((w.counted d).map Pass.key).reverse

def Counted (w : Worker) (d : ActiveDump) : Prop := d.segmentsProcessed = (w.counted d).length

/-- The S3 stage has kept the dump's keys. -/
def Keyed (w : Worker) (d : ActiveDump) : Prop :=
  w.pipeline.s3Last = true → w.dumpKeys d.id.display = w.keysOf d

/-- A segment in the pipeline is stamped with the dumps it overlaps. -/
def Stamped (w : Worker) (job : Job) : Prop :=
  job.matched = matchedDumps w.dumps job.epochSecs job.sealSecs ∧
    job.dumpIds = (overlapping w.dumps job.epochSecs job.sealSecs).map ActiveDump.id ∧
    job.metadata = segmentMetadata job.taken.index job.epochSecs
      (overlapping w.dumps job.epochSecs job.sealSecs)

/-- A manifest that tells what its dump counted. -/
def Listed (w : Worker) (m : DumpManifest) (d : ActiveDump) : Prop :=
  m.dumpId = d.id ∧ m.segmentsProcessed = d.segmentsProcessed ∧ m.segments = w.keysOf d

structure CountInv (w : Worker) : Prop where
  dumps : ∀ d ∈ w.dumps, w.Counted d ∧ w.Keyed d
  waiting : ∀ d ∈ (todoOf w.phase).drop 1, w.Counted d ∧ w.Keyed d
  head : ∀ d todo stage manifest after, w.phase = .resolving (d :: todo) stage manifest after →
    w.Counted d ∧ (stage < w.pipeline.stages → w.Keyed d) ∧
      (stage = w.pipeline.stages → w.pipeline.s3Last = true → w.dumpKeys d.id.display = [])
  answered : ∀ a ∈ w.answers, ∀ d, a.dump = some d → w.Counted d
  active : ∀ pass ∈ w.passes, ∀ id ∈ pass.active,
    id ∈ w.sent.map DumpRequest.id ∧ id ∉ w.channel.map DumpRequest.id
  noKeys : w.pipeline.s3Last = true → ∀ id, id ∉ openIds w → w.dumpKeys id.display = []
  manifests : ∀ m ∈ w.manifests, ∃ d, (d ∈ todoOf w.phase ∨ ∃ a ∈ w.answers, a.dump = some d) ∧
    w.Listed m d
  stamped : ∀ purpose job stage pending stats,
    w.phase = .staged purpose job stage pending stats → w.Stamped job

theorem Entered.stamped {job : Job} (h : w.Entered job) : w.Stamped job := by
  rcases h with ⟨hmatched, hids, hmetadata⟩
  rw [hmatched, filterMap_matchedDumps] at hids hmetadata
  exact ⟨hmatched, hids, hmetadata⟩

/-- What the counts depend on is the same. -/
structure SamePasses (w next : Worker) : Prop where
  pipeline : next.pipeline = w.pipeline
  passes : next.passes = w.passes
  dumpKeys : next.dumpKeys = w.dumpKeys

section

variable (h : SamePasses w next)
include h

section

variable (hd : SameCount d d')
include hd

theorem SamePasses.counted_eq : next.counted d' = w.counted d := by
  unfold counted
  rw [h.passes, hd.id, hd.window]

theorem SamePasses.counted (hcounted : w.Counted d) : next.Counted d' := by
  rw [Counted, hd.processed, h.counted_eq hd]
  exact hcounted

theorem SamePasses.keysOf_eq : next.keysOf d' = w.keysOf d := by
  rw [keysOf, keysOf, h.counted_eq hd]

theorem SamePasses.keyed (hkeyed : w.Keyed d) : next.Keyed d' := by
  rw [Keyed, h.pipeline, h.dumpKeys, hd.id, h.keysOf_eq hd]
  exact hkeyed

end

end

section

variable (h : CountInv w)
include h

theorem CountInv.ordinary (hnext : Ordinary w next) : CountInv next := by
  have hsame := hnext.untouched
  have hpasses : SamePasses w next := { hsame with }
  have hopen : ∀ d ∈ next.dumps ++ todoOf next.phase, next.Counted d ∧ next.Keyed d := by
    intro d hd
    rcases hnext.dumps d hd with ⟨d₀, hd₀, hcount⟩
    exact ⟨hpasses.counted hcount (h.dumps d₀ hd₀).1, hpasses.keyed hcount (h.dumps d₀ hd₀).2⟩
  exact
    { dumps := fun d hd => hopen d (List.mem_append_left _ hd)
      waiting := fun d hd => hopen d (List.mem_append_right _ (List.mem_of_mem_drop hd))
      head := by
        intro d todo stage manifest after hphase
        have hd := hopen d (by rw [hphase]; simp [todoOf])
        refine ⟨hd.1, fun _ => hd.2, ?_⟩
        intro hstage hs3
        have hpos := next.pipeline.s3_stage hs3
        rw [← hstage, hnext.started _ _ _ _ hphase] at hpos
        exact absurd hpos (Nat.lt_irrefl 0)
      answered := by
        rw [hsame.answers]
        exact fun a ha d hd => hpasses.counted (.refl d) (h.answered a ha d hd)
      active := by
        rw [hsame.passes, hsame.sent, hsame.channel]
        exact h.active
      noKeys := by
        rw [hsame.pipeline, hsame.dumpKeys]
        exact fun hs3 id hid => h.noKeys hs3 id fun hmem => hid (hnext.opens.mem_iff.mpr hmem)
      manifests := by
        rw [hsame.manifests, hsame.answers]
        intro m hm
        rcases h.manifests m hm with ⟨d, hor, hid, hcount, hkeys⟩
        rw [hnext.todo] at hor
        rcases hor with hnil | hanswered
        · simp at hnil
        · exact ⟨d, .inr hanswered, hid, hcount, by rw [hkeys, hpasses.keysOf_eq (.refl d)]⟩
      stamped := by
        intro purpose job stage pending stats hphase
        rcases hnext.staged _ _ _ _ _ hphase with ⟨hdumps, ⟨stage', hold⟩ | hentered⟩
        · rw [Stamped, hdumps]
          exact h.stamped _ _ _ _ _ hold
        · rw [Stamped, hdumps]
          exact hentered.stamped }

/-! ## Requests come and go -/

theorem countInv_outside (hnext : w.outside e = some next) : CountInv next := by
  rcases outside_cases hnext with ⟨req, hopen, hnew, rfl⟩ |
    ⟨store, triggers, stop, writerDone, now, rfl⟩
  · exact
      { h with
        active := by
          intro pass hpass id hid
          rcases h.active pass hpass id hid with ⟨hsent, hchannel⟩
          have hne : id ≠ req.id := by
            rintro rfl
            exact hnew hsent
          simp only [List.map_append, List.map_cons, List.map_nil, List.mem_append,
            List.mem_singleton, not_or]
          exact ⟨List.mem_cons_of_mem _ hsent, hchannel, hne⟩ }
  · exact { h with }

theorem CountInv.refuse {req : DumpRequest} {rest : List DumpRequest}
    (hchannel : w.channel = req :: rest) (error : DumpError) :
    CountInv { w.refuse req error with channel := rest } :=
  { h with
    answered := by
      intro a ha d hd
      rcases List.mem_cons.mp ha with rfl | ha
      · cases hd
      · exact h.answered a ha d hd
    active := by
      intro pass hpass id hid
      rcases h.active pass hpass id hid with ⟨hsent, hnot⟩
      refine ⟨hsent, fun hmem => hnot ?_⟩
      rw [hchannel]
      exact List.mem_cons_of_mem _ hmem
    manifests := by
      intro m hm
      rcases h.manifests m hm with ⟨d, htodo | ⟨a, ha, hd⟩, hlisted⟩
      · exact ⟨d, .inl htodo, hlisted⟩
      · exact ⟨d, .inr ⟨a, List.mem_cons_of_mem _ ha, hd⟩, hlisted⟩ }

theorem CountInv.register (hdesk : DeskInv w) {req : DumpRequest}
    {rest : List DumpRequest} (hphase : w.phase = .select) (hchannel : w.channel = req :: rest)
    (elapsed : Nat) :
    CountInv { w with
      channel := rest
      dumps := w.dumps ++ [.registered req w.now elapsed w.store.ring]
      phase := .top } := by
  have hwaits : req.id ∈ w.channel.map DumpRequest.id := by
    rw [hchannel]
    exact List.mem_cons_self
  have hnone : w.counted (.registered req w.now elapsed w.store.ring) = [] := by
    apply List.filter_eq_nil_iff.mpr
    intro pass hpass hcounts
    simp only [Bool.and_eq_true, List.contains_iff_mem] at hcounts
    exact (h.active pass hpass _ hcounts.1).2 hwaits
  have hclosed : req.id ∉ openIds w := by
    intro hopen
    have hapart := List.disjoint_of_nodup_append hdesk.nodup
    exact hapart (List.mem_append_right _ hwaits) hopen
  exact
    { h with
      dumps := by
        intro d hd
        rcases List.mem_append.mp hd with hd | hd
        · exact h.dumps d hd
        · rw [List.mem_singleton.mp hd]
          constructor
          · exact (congrArg List.length hnone).symm
          · intro hs3
            show w.dumpKeys req.id.display = ((w.counted _).map Pass.key).reverse
            rw [hnone, h.noKeys hs3 req.id hclosed]
            rfl
      waiting := by simp [todoOf]
      head := by simp
      active := by
        intro pass hpass id hid
        rcases h.active pass hpass id hid with ⟨hsent, hnot⟩
        refine ⟨hsent, fun hmem => hnot ?_⟩
        rw [hchannel]
        exact List.mem_cons_of_mem _ hmem
      noKeys := by
        intro hs3 id hid
        apply h.noKeys hs3 id
        intro hmem
        apply hid
        simp only [openIds, hphase, todoOf, List.map_nil, List.append_nil] at hmem
        simp [openIds, hmem]
      manifests := by
        intro m hm
        rcases h.manifests m hm with ⟨d, htodo | hanswered, hlisted⟩
        · simp [hphase, todoOf] at htodo
        · exact ⟨d, .inr hanswered, hlisted⟩
      stamped := by simp }

theorem CountInv.die (hphase : w.phase = .select) :
    CountInv { w with rxClosed := true, phase := .panicked } := by
  have hkeys := h.noKeys
  have hlisted := h.manifests
  rw [hphase] at hlisted
  rw [openIds, hphase] at hkeys
  exact
    { h with
      waiting := by simp [todoOf]
      head := by simp
      noKeys := hkeys
      manifests := hlisted
      stamped := by simp }

theorem CountInv.answer (hdesk : DeskInv w)
    {after : After} (hphase : w.phase = .resolving (dump :: todo) stage manifest after)
    (hstage : w.pipeline.stages ≤ stage) (message : Except DumpError DumpReceipt) :
    CountInv { w with
      answers := ⟨dump.id, message, some dump⟩ :: w.answers
      phase := .resolving todo 0 none after } := by
  have hlast : stage = w.pipeline.stages :=
    Nat.le_antisymm (hdesk.started _ _ _ _ _ hphase).1 hstage
  rcases h.head _ _ _ _ _ hphase with ⟨hcounted, -, htaken⟩
  have hwaiting : ∀ d ∈ todo, w.Counted d ∧ w.Keyed d := by
    have hwaiting := h.waiting
    rw [hphase] at hwaiting
    exact hwaiting
  exact
    { h with
      waiting := fun d hd => hwaiting d (List.mem_of_mem_drop hd)
      head := by
        intro d todo' stage' manifest' after' hphase'
        rw [Phase.resolving.injEq] at hphase'
        rcases hphase' with ⟨rfl, rfl, rfl, rfl⟩
        rcases hwaiting d List.mem_cons_self with ⟨hd, hkeyed⟩
        refine ⟨hd, fun _ => hkeyed, ?_⟩
        intro hzero hs3
        have hpos := w.pipeline.s3_stage hs3
        exact absurd hpos (hzero ▸ Nat.lt_irrefl 0)
      answered := by
        intro a ha d hd
        rcases List.mem_cons.mp ha with rfl | ha
        · cases hd
          exact hcounted
        · exact h.answered a ha d hd
      noKeys := by
        intro hs3 id hid
        by_cases heq : id = dump.id
        · rw [heq]
          exact htaken hlast hs3
        · apply h.noKeys hs3 id
          intro hmem
          apply hid
          simp only [openIds, hphase, todoOf, List.map_cons, List.mem_append, List.mem_cons,
            heq, false_or] at hmem
          exact List.mem_append.mpr hmem
      manifests := by
        intro m hm
        rcases h.manifests m hm with ⟨d, htodo | ⟨a, ha, hd⟩, hlisted⟩
        · rw [hphase] at htodo
          rcases List.mem_cons.mp htodo with rfl | htodo
          · exact ⟨d, .inr ⟨_, List.mem_cons_self, rfl⟩, hlisted⟩
          · exact ⟨d, .inl htodo, hlisted⟩
        · exact ⟨d, .inr ⟨a, List.mem_cons_of_mem _ ha, hd⟩, hlisted⟩
      stamped := by simp }

theorem CountInv.close (hphase : w.phase = .resolving [] stage manifest .close) :
    CountInv (w.resolvedAll .close) :=
  { h with
    waiting := by simp [resolvedAll, todoOf]
    head := by simp [resolvedAll]
    answered := by
      intro a ha d hd
      rcases List.mem_append.mp ha with ha | ha
      · rcases List.mem_map.mp (List.mem_reverse.mp ha) with ⟨req, -, rfl⟩
        cases hd
      · exact h.answered a ha d hd
    active := fun pass hpass id hid => ⟨(h.active pass hpass id hid).1, List.not_mem_nil⟩
    noKeys := by
      have hopen : openIds (w.resolvedAll .close) = openIds w := by
        rw [openIds, openIds, hphase]
        rfl
      rw [hopen]
      exact h.noKeys
    manifests := by
      intro m hm
      rcases h.manifests m hm with ⟨d, htodo | ⟨a, ha, hd⟩, hlisted⟩
      · simp [hphase, todoOf] at htodo
      · exact ⟨d, .inr ⟨a, List.mem_append_right _ ha, hd⟩, hlisted⟩
    stamped := by simp [resolvedAll] }

end

/-! ## Stages are told of a dump -/

/-- Keys and manifests that a stage of the dump in hand may leave. -/
structure Told (w : Worker) (dump : ActiveDump) (stage : Nat) (dumpKeys : DumpKeys)
    (manifests : List DumpManifest) : Prop where
  others : ∀ id, id ≠ dump.id → dumpKeys id.display = w.dumpKeys id.display
  kept : stage + 1 < w.pipeline.stages → dumpKeys = w.dumpKeys
  taken : stage + 1 = w.pipeline.stages → w.pipeline.s3Last = true → dumpKeys dump.id.display = []
  listed : ∀ m ∈ manifests, m ∈ w.manifests ∨ w.pipeline.s3Last = true ∧
    m = ⟨dump.id, dump.segmentsProcessed, w.dumpKeys dump.id.display⟩

theorem told_taken (hlast : stage + 1 = w.pipeline.stages)
    (hlisted : ∀ m ∈ manifests, m ∈ w.manifests ∨ w.pipeline.s3Last = true ∧
      m = ⟨dump.id, dump.segmentsProcessed, w.dumpKeys dump.id.display⟩) :
    Told w dump stage (Function.update w.dumpKeys dump.id.display []) manifests where
  others := by
    intro id hne
    rw [Function.update_of_ne]
    exact fun heq => hne (DumpId.display_injective heq)
  kept := fun hlt => absurd hlt (hlast ▸ Nat.lt_irrefl _)
  taken := fun _ _ => by rw [Function.update_self]
  listed := hlisted

theorem told_finalizeStage (w : Worker) (dump : ActiveDump) (stage : Nat)
    (written : Option String) :
    Told w dump stage (w.finalizeStage dump stage written).1.dumpKeys
      (w.finalizeStage dump stage written).1.manifests := by
  unfold finalizeStage
  simp only
  split
  · rename_i hs3
    simp only [Bool.and_eq_true, beq_iff_eq] at hs3
    split
    · exact told_taken hs3.2 fun m hm => .inl hm
    · split
      · apply told_taken hs3.2
        intro m hm
        rcases List.mem_cons.mp hm with rfl | hm
        · exact .inr ⟨hs3.1, rfl⟩
        · exact .inl hm
      · exact told_taken hs3.2 fun m hm => .inl hm
  · rename_i hs3
    refine ⟨fun _ _ => rfl, fun _ => rfl, ?_, fun m hm => .inl hm⟩
    intro hlast hs3'
    simp [hs3', hlast] at hs3

theorem CountInv.finalize (h : CountInv w) (hdesk : DeskInv w)
    {after : After} (hphase : w.phase = .resolving (dump :: todo) stage manifest after)
    (hstage : stage < w.pipeline.stages) (manifest' : Option String) {dumpKeys : DumpKeys}
    (htold : Told w dump stage dumpKeys manifests) :
    CountInv { w with
      finalized := (dump.id, stage) :: w.finalized
      dumpKeys, manifests
      phase := .resolving (dump :: todo) (stage + 1) manifest' after } := by
  rcases h.head _ _ _ _ _ hphase with ⟨hcounted, hkeyed, -⟩
  have helsewhere := (hdesk.head_apart hphase).2
  have hothers : ∀ d ∈ w.dumps ++ todo, w.Keyed d →
      (w.pipeline.s3Last = true → dumpKeys d.id.display = w.keysOf d) := by
    intro d hd hkeyed hs3
    rw [htold.others, hkeyed hs3]
    intro heq
    apply helsewhere
    rw [← heq, ← List.map_append]
    exact List.mem_append_right _ (List.mem_map.mpr ⟨d, hd, rfl⟩)
  have hwaiting : ∀ d ∈ todo, w.Counted d ∧ w.Keyed d := by
    have hwaiting := h.waiting
    rw [hphase] at hwaiting
    exact hwaiting
  exact
    { h with
      dumps := by
        intro d hd
        rcases h.dumps d hd with ⟨hd', hkeyed'⟩
        exact ⟨hd', hothers d (List.mem_append_left _ hd) hkeyed'⟩
      waiting := by
        intro d hd
        rcases hwaiting d hd with ⟨hd', hkeyed'⟩
        exact ⟨hd', hothers d (List.mem_append_right _ hd) hkeyed'⟩
      head := by
        intro d todo' stage' manifest'' after' hphase'
        rw [Phase.resolving.injEq, List.cons.injEq] at hphase'
        rcases hphase' with ⟨⟨rfl, rfl⟩, rfl, rfl, rfl⟩
        refine ⟨hcounted, ?_, htold.taken⟩
        intro hlt hs3
        show dumpKeys dump.id.display = w.keysOf dump
        rw [htold.kept hlt]
        exact hkeyed hstage hs3
      noKeys := by
        intro hs3 id hid
        have hopen : id ∉ openIds w := by
          rw [openIds, hphase]
          exact hid
        have hne : id ≠ dump.id := by
          rintro rfl
          exact hid (List.mem_append_right _ List.mem_cons_self)
        show dumpKeys id.display = []
        rw [htold.others id hne]
        exact h.noKeys hs3 id hopen
      manifests := by
        intro m hm
        rcases htold.listed m hm with hold | ⟨hs3, rfl⟩
        · have hlisted := h.manifests m hold
          rw [hphase] at hlisted
          exact hlisted
        · exact ⟨dump, .inl List.mem_cons_self, rfl, rfl, hkeyed hstage hs3⟩
      stamped := by simp }

/-! ## A segment passes -/

theorem counted_succeed (w : Worker) (purpose : Purpose) (job : Job) (key : String)
    (pending : List Taken) (stats : PassStats) (d : ActiveDump) :
    (w.succeed purpose job key pending stats).counted d =
      if d.id ∈ w.dumps.map ActiveDump.id ∧
          d.window.overlaps job.epochSecs job.sealSecs = true then
        ⟨job.taken.index, job.epochSecs, job.sealSecs, w.dumps.map ActiveDump.id, key⟩ ::
          w.counted d
      else w.counted d := by
  simp only [counted, succeed, List.filter_cons, Bool.and_eq_true, List.contains_iff_mem]

theorem counted_succeed_of_closed (hclosed : d.id ∉ w.dumps.map ActiveDump.id) (purpose : Purpose)
    (job : Job) (key : String) (pending : List Taken) (stats : PassStats) :
    (w.succeed purpose job key pending stats).counted d = w.counted d := by
  rw [counted_succeed, if_neg]
  exact fun h => hclosed h.1

theorem DeskInv.dumps_nodup (h : DeskInv w) : (w.dumps.map ActiveDump.id).Nodup :=
  (List.nodup_append.mp (List.nodup_append.mp h.nodup).2.1).1

theorem DeskInv.overlapping_nodup (h : DeskInv w) (epochSecs sealSecs : Nat) :
    ((overlapping w.dumps epochSecs sealSecs).map ActiveDump.id).Nodup :=
  h.dumps_nodup.sublist (List.filter_sublist.map _)

section

variable (h : CountInv w) (hdesk : DeskInv w)
include h hdesk

theorem CountInv.succeed_dumps {purpose : Purpose}
    {job : Job} {pending : List Taken} {stats : PassStats} (key : String)
    (hphase : w.phase = .staged purpose job stage pending stats) :
    ∀ d ∈ (w.succeed purpose job key pending stats).dumps,
      (w.succeed purpose job key pending stats).Counted d ∧
        (w.succeed purpose job key pending stats).Keyed d := by
  rcases h.stamped _ _ _ _ _ hphase with ⟨hmatched, -, hmetadata⟩
  intro d hd
  have hd' : d ∈ countMatched w.dumps job.matched job.epochSecs job.sealSecs := hd
  rw [hmatched, countMatched_matchedDumps] at hd'
  rcases List.mem_map.mp hd' with ⟨d₀, hd₀, rfl⟩
  rcases h.dumps d₀ hd₀ with ⟨hcounted, hkeyed⟩
  have hid : d₀.id ∈ w.dumps.map ActiveDump.id := List.mem_map.mpr ⟨d₀, hd₀, rfl⟩
  have hpushed : w.pipeline.s3Last = true →
      (w.succeed purpose job key pending stats).dumpKeys d₀.id.display =
        if d₀.window.overlaps job.epochSecs job.sealSecs = true then w.keysOf d₀ ++ [key]
        else w.keysOf d₀ := by
    intro hs3
    show (if w.pipeline.s3Last then w.dumpKeys.push job.metadata key else w.dumpKeys)
      d₀.id.display = _
    rw [if_pos hs3, hmetadata, push_segmentMetadata _ _ _ (hdesk.overlapping_nodup _ _),
      hkeyed hs3]
    simp only [id_mem_overlapping hdesk.dumps_nodup hd₀]
  split
  · rename_i hoverlaps
    have hnew : (w.succeed purpose job key pending stats).counted
        (d₀.count job.epochSecs job.sealSecs) = ⟨job.taken.index, job.epochSecs, job.sealSecs,
          w.dumps.map ActiveDump.id, key⟩ :: w.counted d₀ := by
      rw [counted_succeed, if_pos]
      · rfl
      · exact ⟨hid, hoverlaps⟩
    constructor
    · rw [Counted, hnew, List.length_cons, ← hcounted]
      rfl
    · intro hs3
      rw [keysOf, hnew, List.map_cons, List.reverse_cons]
      exact (hpushed hs3).trans (if_pos hoverlaps)
  · rename_i hoverlaps
    have hold : (w.succeed purpose job key pending stats).counted d₀ = w.counted d₀ := by
      rw [counted_succeed, if_neg]
      exact fun h => hoverlaps h.2
    constructor
    · rw [Counted, hold]
      exact hcounted
    · intro hs3
      rw [keysOf, hold]
      exact (hpushed hs3).trans (if_neg hoverlaps)

theorem CountInv.succeed {purpose : Purpose} {job : Job}
    {pending : List Taken} {stats : PassStats} (key : String)
    (hphase : w.phase = .staged purpose job stage pending stats) :
    CountInv (w.succeed purpose job key pending stats) := by
  have hanswered : ∀ a ∈ w.answers, ∀ d, a.dump = some d →
      (w.succeed purpose job key pending stats).counted d = w.counted d := by
    intro a ha d hd
    apply counted_succeed_of_closed
    intro hopen
    have hapart := List.disjoint_of_nodup_append hdesk.nodup
    apply hapart (List.mem_append_left _ (List.mem_map.mpr ⟨a, ha, rfl⟩))
    rw [← (hdesk.answered a ha d hd).1]
    exact List.mem_append_left _ hopen
  have hids := countMatched_ids w.dumps job.matched job.epochSecs job.sealSecs
  exact
    { dumps := h.succeed_dumps hdesk key hphase
      waiting := by simp [Worker.succeed, todoOf]
      head := by simp [Worker.succeed]
      answered := by
        intro a ha d hd
        rw [Counted, hanswered a ha d hd]
        exact h.answered a ha d hd
      active := by
        intro pass hpass id hid
        rcases List.mem_cons.mp hpass with rfl | hpass
        · have hopen : id ∈ openIds w := List.mem_append_left _ hid
          constructor
          · exact hdesk.conserved.mem_iff.mp (List.mem_append_right _ hopen)
          · intro hwaits
            have hapart := List.disjoint_of_nodup_append hdesk.nodup
            exact hapart (List.mem_append_right _ hwaits) hopen
        · exact h.active pass hpass id hid
      noKeys := by
        intro (hs3 : w.pipeline.s3Last = true) id hid
        have hclosed : id ∉ w.dumps.map ActiveDump.id := by
          intro hmem
          apply hid
          rw [openIds]
          exact List.mem_append_left _ (hids ▸ hmem)
        rcases h.stamped _ _ _ _ _ hphase with ⟨-, -, hmetadata⟩
        show (if w.pipeline.s3Last then w.dumpKeys.push job.metadata key else w.dumpKeys)
          id.display = []
        rw [if_pos hs3, hmetadata, push_segmentMetadata _ _ _ (hdesk.overlapping_nodup _ _),
          if_neg]
        · apply h.noKeys hs3 id
          rw [openIds, hphase]
          simpa [todoOf] using hclosed
        · exact fun hmem => hclosed (List.map_subset _ List.filter_sublist.subset hmem)
      manifests := by
        intro m hm
        rcases h.manifests m hm with ⟨d, htodo | ⟨a, ha, hd⟩, hid, hprocessed, hsegments⟩
        · simp [hphase, todoOf] at htodo
        · refine ⟨d, .inr ⟨a, ha, hd⟩, hid, hprocessed, ?_⟩
          rw [hsegments, keysOf, keysOf, hanswered a ha d hd]
      stamped := by simp [Worker.succeed] }

/-! ## Steps -/

theorem countInv_move (hmove : Move w e next) : CountInv next := by
  cases deskMove_of_move hdesk.mode hmove with
  | ordinary hnext => exact h.ordinary hnext
  | rejects hchannel => exact h.refuse hchannel .pipelineUnavailable
  | succeeds key hphase => exact h.succeed hdesk key hphase
  | closes hphase => exact h.close hphase
  | @finalizes dump todo stage manifest after written hphase hstage =>
    have htold := told_finalizeStage w dump stage written
    rcases finalizeStage_fields w dump stage written with ⟨dumpKeys, manifests, hfields⟩
    rw [hfields] at htold ⊢
    exact h.finalize hdesk hphase hstage _ htold
  | answers hphase hstage hmessage => exact h.answer hdesk hphase hstage _
  | registers elapsed hphase hchannel => exact h.register hdesk hphase hchannel elapsed
  | dies hevent hphase hchannel hpast => exact h.die hphase

theorem countInv_step (hnext : w.step e = some next) : CountInv next := by
  rcases step_cases hnext with houtside | hmove
  · exact countInv_outside h houtside
  · exact countInv_move h hdesk hmove

end

theorem countInv_triggered (pipeline : Pipeline) (store : Store) :
    CountInv (triggered pipeline store) where
  dumps := by simp [triggered, new]
  waiting := by simp [triggered, new, todoOf]
  head := by simp [triggered, new]
  answered := by simp [triggered, new]
  active := by simp [triggered, new]
  noKeys := fun _ _ _ => rfl
  manifests := by simp [triggered, new]
  stamped := by simp [triggered, new]

/-! ## What the caller of a dump gets -/

/-- The answer to a registered dump comes after every stage was told once, and
says what happened: an error if nothing passed and something went wrong, else how
many segments passed. -/
structure Truthful (w : Worker) (a : Answer) (d : ActiveDump) : Prop where
  id : d.id = a.id
  told : w.finalizedOf d.id = (List.range w.pipeline.stages).reverse
  error : (∃ error, a.message = .error error) ↔ d.segmentsProcessed = 0 ∧
    (d.firstError.isSome = true ∨ d.pipelineUnavailable = true)
  receipt : ∀ receipt, a.message = .ok receipt →
    receipt.dumpId = d.id ∧ receipt.segmentsProcessed = d.segmentsProcessed
  counted : d.segmentsProcessed = (w.counted d).length

/-- No request is answered twice or left without an answer at the exit, no segment
is counted twice, and every answer and every manifest is true. -/
structure Resolved (w : Worker) : Prop where
  noPanic : w.phase ≠ .panicked
  once : (w.answers.map Answer.id).Nodup
  sent : ∀ a ∈ w.answers, a.id ∈ w.sent.map DumpRequest.id
  all : w.phase = .exited → (w.answers.map Answer.id).Perm (w.sent.map DumpRequest.id)
  truthful : ∀ a ∈ w.answers, ∀ d, a.dump = some d → w.Truthful a d
  passedOnce : (w.passes.map Pass.index).Nodup
  manifests : ∀ m ∈ w.manifests, ∃ d, (d ∈ todoOf w.phase ∨ ∃ a ∈ w.answers, a.dump = some d) ∧
    m.dumpId = d.id ∧ m.segmentsProcessed = (w.counted d).length ∧
      m.segments = ((w.counted d).map Pass.key).reverse

/-- The three invariants together. -/
structure TriggeredInv (w : Worker) : Prop where
  desk : DeskInv w
  count : CountInv w
  store : StoreInv w

theorem triggeredInv_step (h : TriggeredInv w) (hnext : w.step e = some next) : TriggeredInv next :=
  ⟨deskInv_step h.desk hnext, countInv_step h.count h.desk hnext, storeInv_step h.store hnext⟩

/-- The look-forward of a request that is received ends at an instant. -/
def InReach (w : Worker) : WorkerEvent → Prop
  | .receive elapsed => ∀ req ∈ w.channel.head?, req.Anchored w.now elapsed
  | _ => True

instance (w : Worker) (e : WorkerEvent) : Decidable (w.InReach e) := by
  unfold InReach
  split <;> infer_instance

theorem notPanicked_step (hmode : inTriggered w.phase = true) (h : w.phase ≠ .panicked)
    (hreach : w.InReach e) (hnext : w.step e = some next) : next.phase ≠ .panicked := by
  rcases step_cases hnext with houtside | hmove
  · rcases outside_cases houtside with ⟨req, -, -, rfl⟩ | ⟨_, _, _, _, _, rfl⟩
    · exact h
    · exact h
  · cases deskMove_of_move hmode hmove with
    | ordinary hordinary => exact hordinary.notPanicked
    | rejects hchannel => exact h
    | dies hevent hphase hchannel hpast =>
      subst hevent
      exact absurd (hreach _ hchannel) hpast
    | succeeds _ _ | closes _ | finalizes _ _ _ | answers _ _ _ | registers _ _ _ => nofun

theorem triggeredInv_triggered (pipeline : Pipeline) {store : Store} (hfresh : Fresh store) :
    TriggeredInv (triggered pipeline store) :=
  ⟨deskInv_triggered pipeline store, countInv_triggered pipeline store,
    storeInv_new pipeline hfresh .top rfl⟩

theorem TriggeredInv.truthful (h : TriggeredInv w) {a : Answer} (ha : a ∈ w.answers)
    (hd : a.dump = some d) : w.Truthful a d := by
  rcases h.desk.answered a ha d hd with ⟨hid, htold, finishedAt, manifest, hmessage⟩
  exact
    { id := hid
      told := hid ▸ htold
      error := ActiveDump.intoResult_isError_iff hmessage
      receipt := fun receipt hreceipt => ActiveDump.intoResult_eq_ok (hreceipt ▸ hmessage)
      counted := h.count.answered a ha d hd }

theorem TriggeredInv.listed (h : TriggeredInv w) {m : DumpManifest} (hm : m ∈ w.manifests) :
    ∃ d, (d ∈ todoOf w.phase ∨ ∃ a ∈ w.answers, a.dump = some d) ∧
      m.dumpId = d.id ∧ m.segmentsProcessed = (w.counted d).length ∧
        m.segments = ((w.counted d).map Pass.key).reverse := by
  rcases h.count.manifests m hm with ⟨d, hor, hid, hprocessed, hsegments⟩
  have hcounted : w.Counted d := by
    rcases hor with htodo | ⟨a, ha, hd⟩
    · cases hphase : w.phase with
      | resolving todo stage manifest after =>
        rw [hphase] at htodo
        rcases List.mem_iff_getElem.mp htodo with ⟨n, hn, rfl⟩
        cases todo with
        | nil => simp [todoOf] at hn
        | cons head todo =>
          cases n with
          | zero => exact (h.count.head _ _ _ _ _ hphase).1
          | succ n =>
            apply (h.count.waiting _ _).1
            rw [hphase]
            exact List.getElem_mem _
      | _ => simp [hphase, todoOf] at htodo
    · exact h.count.answered a ha d hd
  exact ⟨d, hor, hid, hprocessed.trans hcounted, hsegments⟩

/-- The invariant of a run in which the worker does not die. -/
def Live (w : Worker) : Prop := TriggeredInv w ∧ w.phase ≠ .panicked

theorem TriggeredInv.resolved (h : TriggeredInv w) (hphase : w.phase ≠ .panicked) : Resolved w where
  noPanic := hphase
  once := (List.nodup_append.mp (List.nodup_append.mp h.desk.nodup).1).1
  sent := by
    intro a ha
    apply h.desk.conserved.mem_iff.mp
    exact List.mem_append_left _ (List.mem_append_left _ (List.mem_map.mpr ⟨a, ha, rfl⟩))
  all := by
    intro hexited
    rcases h.desk.exited hexited with ⟨hchannel, hdumps, -⟩
    have hconserved := h.desk.conserved
    simp only [openIds, hexited, hchannel, hdumps, todoOf, List.map_nil, List.append_nil]
      at hconserved
    exact hconserved
  truthful := fun a ha d hd => h.truthful ha hd
  passedOnce := h.store.passedNodup
  manifests := fun m hm => h.listed hm

/-- One stage, which uploads. -/
def uploading : Pipeline := ⟨1, true, by decide, fun _ => none⟩

/-- A dump of everything, asked for with the id seven. -/
def dumpAll : DumpRequest := ⟨7, 0x44 * 10 ^ 9, .unbounded, 0, []⟩

/-- A file is sealed and dumped, and the session stopped. -/
def dumpedOnce : List WorkerEvent :=
  [.sealFile ⟨0, 0x41, 0x42⟩, .send dumpAll, .proceed, .proceed, .receive 0, .proceed, .ready,
    .list, .readClaims, .recordClaims fun _ => 0, .ready, .load .loaded, .inspected 0x41 0x42,
    .stage (.passed "key"), .proceed, .ready, .list, .readClaims, .recordClaims fun _ => 0,
    .finalize (some "manifest"), .receipt 0, .proceed, .cancel, .proceed, .proceed, .proceed]

/-- A dump that looks ahead as far as a duration can, and a dump of everything behind it. -/
def dumpedForever : List WorkerEvent :=
  [.send { dumpAll with id := 8, lookforward := 2 ^ 64 * 10 ^ 9 - 1 }, .send dumpAll, .proceed,
    .proceed, .receive 0]

end Worker

end Dial9.Core
