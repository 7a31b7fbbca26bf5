/-
# Every request is answered once

A dump request is in the trigger channel, then in the vector of open dumps,
then among those being resolved, and in the end answered. Requests that come at
the wrong moment are refused on the way. This module shows that none is lost or
answered twice, that every stage is told of a finished dump before its receipt
goes out, and that the receipt says what happened.
-/

import Dial9.Core.Worker

namespace Dial9.Core

open Dial9.Lib

variable {w next : Worker} {purpose : Purpose} {stage : Nat} {todo : List ActiveDump}
  {e : WorkerEvent} {manifest : Option String}

variable {after : After} {req : DumpRequest} {dump : ActiveDump}

namespace Worker

/-- The dumps a resolving loop has yet to answer. -/
def todoOf : Phase → List ActiveDump
  | .resolving todo _ _ _ => todo
  | _ => []

/-- Registered and not answered. -/
def openIds (w : Worker) : List DumpId :=
  w.dumps.map ActiveDump.id ++ (todoOf w.phase).map ActiveDump.id

/-- The stages told of a dump, last first. -/
def finalizedOf (w : Worker) (id : DumpId) : List Nat :=
  (w.finalized.filter fun told => told.1 == id).map Prod.snd

/-! ## Moves that touch no request -/

/-- No request came, went or was answered, and no segment passed. -/
structure Untouched (w next : Worker) : Prop where
  pipeline : next.pipeline = w.pipeline
  answers : next.answers = w.answers
  channel : next.channel = w.channel
  sent : next.sent = w.sent
  rxClosed : next.rxClosed = w.rxClosed
  finalized : next.finalized = w.finalized
  passes : next.passes = w.passes
  dumpKeys : next.dumpKeys = w.dumpKeys
  manifests : next.manifests = w.manifests

/-- Two states of one dump that count the same. -/
structure SameCount (d d' : ActiveDump) : Prop where
  id : d'.id = d.id
  window : d'.window = d.window
  processed : d'.segmentsProcessed = d.segmentsProcessed
  ring : d'.ring = d.ring

theorem SameCount.refl (d : ActiveDump) : SameCount d d := ⟨rfl, rfl, rfl, rfl⟩

/-- A job that has just entered the pipeline. -/
def Entered (w : Worker) (job : Job) : Prop :=
  job.matched = matchedDumps w.dumps job.epochSecs job.sealSecs ∧
    job.dumpIds = (job.matched.filterMap fun i => w.dumps[i]?).map ActiveDump.id ∧
    job.metadata = segmentMetadata job.taken.index job.epochSecs
      (job.matched.filterMap fun i => w.dumps[i]?)

/-- The worker goes on: open dumps may come to be resolved and may have new
errors, and that is all. -/
structure Ordinary (w next : Worker) : Prop where
  untouched : Untouched w next
  todo : todoOf w.phase = []
  opens : (openIds next).Perm (openIds w)
  dumps : ∀ d ∈ next.dumps ++ todoOf next.phase, ∃ d₀ ∈ w.dumps, SameCount d₀ d
  mode : inTriggered next.phase = true
  notExited : next.phase ≠ .exited
  notPanicked : next.phase ≠ .panicked
  closing : ∀ todo stage manifest, next.phase = .resolving todo stage manifest .close →
    next.dumps = []
  started : ∀ todo stage manifest after, next.phase = .resolving todo stage manifest after →
    stage = 0
  staged : ∀ purpose job stage pending stats,
    next.phase = .staged purpose job stage pending stats → next.dumps = w.dumps ∧
      ((∃ stage', w.phase = .staged purpose job stage' pending stats) ∨ w.Entered job)

/-- Phases between a drain and the next. -/
inductive Busy : Phase → Prop
  | waiting (purpose : Purpose) (pending : List Taken) (stats : PassStats) :
      Busy (.waiting purpose pending stats)
  | opening (purpose : Purpose) (taken : Taken) (pending : List Taken) (stats : PassStats) :
      Busy (.opening purpose taken pending stats)
  | opened (purpose : Purpose) (taken : Taken) (pending : List Taken) (stats : PassStats) :
      Busy (.opened purpose taken pending stats)
  | sleeping (purpose : Purpose) (slot : MemSegment) (job : Job) (pending : List Taken)
      (stats : PassStats) : Busy (.sleeping purpose slot job pending stats)
  | resting {phase : Phase} (h : Resting phase) (hexited : phase ≠ .exited) : Busy phase

theorem todoOf_of_resting {phase : Phase} (h : Resting phase) : todoOf phase = [] := by
  cases h <;> rfl

theorem todoOf_of_busy {phase : Phase} (h : Busy phase) : todoOf phase = [] := by
  cases h with
  | resting h _ => exact todoOf_of_resting h
  | _ => rfl

section

variable (hsame : Untouched w next)
include hsame

theorem Ordinary.of_busy (hids : next.dumps.map ActiveDump.id = w.dumps.map ActiveDump.id)
    (hdumps : ∀ d ∈ next.dumps, ∃ d₀ ∈ w.dumps, SameCount d₀ d) (htodo : todoOf w.phase = [])
    (hmode : inTriggered next.phase = true) (hbusy : Busy next.phase) : Ordinary w next where
  untouched := hsame
  todo := htodo
  opens := by
    rw [openIds, openIds, hids, htodo, todoOf_of_busy hbusy]
  dumps := by
    rw [todoOf_of_busy hbusy, List.append_nil]
    exact hdumps
  mode := hmode
  notExited := by
    intro hphase
    rw [hphase] at hbusy
    cases hbusy with
    | resting _ hexited => exact hexited rfl
  notPanicked := by
    intro hphase
    rw [hphase] at hbusy
    cases hbusy with
    | resting h _ => cases h
  closing := by
    intro todo stage manifest hphase
    rw [hphase] at hbusy
    cases hbusy with
    | resting h _ => cases h
  started := by
    intro todo stage manifest after hphase
    rw [hphase] at hbusy
    cases hbusy with
    | resting h _ => cases h
  staged := by
    intro purpose job stage pending stats hphase
    rw [hphase] at hbusy
    cases hbusy with
    | resting h _ => cases h

theorem Ordinary.of_dumps_eq (hdumps : next.dumps = w.dumps)
    (htodo : todoOf w.phase = []) (hmode : inTriggered next.phase = true)
    (hbusy : Busy next.phase) : Ordinary w next := by
  apply Ordinary.of_busy hsame (by rw [hdumps]) _ htodo hmode hbusy
  rw [hdumps]
  exact fun d hd => ⟨d, hd, .refl d⟩

theorem Ordinary.of_staged (hdumps : next.dumps = w.dumps)
    (htodo : todoOf w.phase = []) {job : Job} {pending : List Taken} {stats : PassStats}
    (hphase : next.phase = .staged purpose job stage pending stats)
    (hpurpose : forDumps purpose = true)
    (hjob : (∃ stage', w.phase = .staged purpose job stage' pending stats) ∨ w.Entered job) :
    Ordinary w next where
  untouched := hsame
  todo := htodo
  opens := by
    rw [openIds, openIds, hdumps, htodo, hphase]
    exact .refl _
  dumps := by
    rw [hdumps, hphase]
    intro d hd
    exact ⟨d, by simpa [todoOf] using hd, .refl d⟩
  mode := by
    rw [hphase]
    exact hpurpose
  notExited := by simp [hphase]
  notPanicked := by simp [hphase]
  closing := by simp [hphase]
  started := by simp [hphase]
  staged := by
    intro purpose' job' stage' pending' stats' hphase'
    rw [hphase, Phase.staged.injEq] at hphase'
    rcases hphase' with ⟨rfl, rfl, rfl, rfl, rfl⟩
    exact ⟨hdumps, hjob⟩

theorem Ordinary.of_resolving (htodo : todoOf w.phase = [])
    (hphase : next.phase = .resolving todo 0 none after)
    (hopens : (next.dumps.map ActiveDump.id ++ todo.map ActiveDump.id).Perm
      (w.dumps.map ActiveDump.id))
    (hdumps : ∀ d ∈ next.dumps ++ todo, ∃ d₀ ∈ w.dumps, SameCount d₀ d)
    (hclose : after = .close → next.dumps = []) : Ordinary w next where
  untouched := hsame
  todo := htodo
  opens := by
    rw [openIds, openIds, htodo, hphase, List.map_nil, List.append_nil]
    exact hopens
  dumps := by
    rw [hphase]
    exact hdumps
  mode := by rw [hphase]; rfl
  notExited := by simp [hphase]
  notPanicked := by simp [hphase]
  closing := by
    intro todo' stage manifest hphase'
    rw [hphase, Phase.resolving.injEq] at hphase'
    exact hclose hphase'.2.2.2
  started := by
    intro todo' stage manifest after' hphase'
    rw [hphase, Phase.resolving.injEq] at hphase'
    exact hphase'.2.1.symm
  staged := by simp [hphase]

end

theorem sameCount_markPipelineUnavailable (d : ActiveDump) :
    SameCount d d.markPipelineUnavailable := by
  unfold ActiveDump.markPipelineUnavailable
  split
  · exact ⟨rfl, rfl, rfl, rfl⟩
  · exact .refl d

theorem sweep_open (test : ActiveDump → Bool) {mark : ActiveDump → ActiveDump}
    (hmark : ∀ d, SameCount d (mark d)) (dumps : List ActiveDump) :
    ((sweep test dumps).2.map ActiveDump.id ++
        ((sweep test dumps).1.map mark).map ActiveDump.id).Perm (dumps.map ActiveDump.id) ∧
      ∀ d ∈ (sweep test dumps).2 ++ (sweep test dumps).1.map mark,
        ∃ d₀ ∈ dumps, SameCount d₀ d := by
  have hperm := sweep_perm test dumps
  constructor
  · have hids : ((sweep test dumps).1.map mark).map ActiveDump.id =
        (sweep test dumps).1.map ActiveDump.id := by
      rw [List.map_map]
      exact List.map_congr_left fun d _ => (hmark d).id
    rw [hids]
    apply List.perm_append_comm.trans
    rw [← List.map_append]
    exact hperm.map _
  · intro d hd
    rcases List.mem_append.mp hd with hstays | hleaves
    · exact ⟨d, hperm.mem_iff.mp (List.mem_append_right _ hstays), .refl d⟩
    · rcases List.mem_map.mp hleaves with ⟨d₀, hd₀, rfl⟩
      exact ⟨d₀, hperm.mem_iff.mp (List.mem_append_left _ hd₀), hmark d₀⟩

theorem Ordinary.quiet {store : Store} {epochCache : Nat → Option (Nat × Nat)} {rxOpen : Bool}
    {phase : Phase} {reportedGone : List Nat} (htodo : todoOf w.phase = [])
    (hmode : inTriggered phase = true) (hbusy : Busy phase) :
    Ordinary w { w with store, epochCache, rxOpen, phase, reportedGone } :=
  .of_dumps_eq ⟨rfl, rfl, rfl, rfl, rfl, rfl, rfl, rfl, rfl⟩ rfl htodo hmode hbusy

theorem ordinary_drainDone (result : DrainResult) (hpurpose : forDumps purpose = true)
    (htodo : todoOf w.phase = []) :
    Ordinary w (w.drainDone purpose result) := by
  cases purpose with
  | triggered =>
    unfold drainDone
    simp only
    split
    · rcases sweep_open (fun d => d.due w.now) sameCount_markPipelineUnavailable w.dumps with
        ⟨hopens, hdumps⟩
      exact .of_resolving ⟨rfl, rfl, rfl, rfl, rfl, rfl, rfl, rfl, rfl⟩ htodo rfl hopens hdumps
        (by simp)
    · rcases sweep_open (fun d => d.due w.now &&
        !(!(if result.interruption = some .stopped then [] else result.retryHold).isEmpty &&
          (!w.store.takeIsExhaustive ||
            (if result.interruption = some .stopped then [] else result.retryHold).contains
              d.id))) .refl w.dumps with ⟨hopens, hdumps⟩
      rw [List.map_id'] at hopens hdumps
      exact .of_resolving ⟨rfl, rfl, rfl, rfl, rfl, rfl, rfl, rfl, rfl⟩ htodo rfl hopens hdumps
        (by simp)
  | final =>
    exact .of_resolving ⟨rfl, rfl, rfl, rfl, rfl, rfl, rfl, rfl, rfl⟩ htodo rfl (.refl _)
      (fun d hd => ⟨d, hd, .refl d⟩) fun _ => rfl
  | continuous | finishing => cases hpurpose

theorem ordinary_passDone (stats : PassStats) (hpurpose : forDumps purpose = true)
    (htodo : todoOf w.phase = []) :
    Ordinary w (w.passDone purpose stats) := by
  unfold passDone
  split
  · cases hpurpose
  · cases hpurpose
  · split
    · exact ordinary_drainDone _ hpurpose htodo
    · split
      · exact ordinary_drainDone _ hpurpose htodo
      · exact .quiet htodo hpurpose (.resting (.draining purpose) (by simp))

theorem Ordinary.of_stored {store : Store} {epochCache : Nat → Option (Nat × Nat)}
    (h : Ordinary { w with store, epochCache } next) : Ordinary w next :=
  { h with untouched := { h.untouched with } }

theorem ordinary_tookFiles (segments : List Taken) (hpurpose : forDumps purpose = true)
    (htodo : todoOf w.phase = []) :
    Ordinary w (w.tookFiles purpose segments) := by
  unfold tookFiles
  split
  · cases hpurpose
  · cases hpurpose
  · simp only
    split
    · exact (@ordinary_drainDone
        { w with
          store := w.store
          epochCache := fun i => if i ∈ segments.map Taken.index then w.epochCache i else none }
        purpose .default hpurpose htodo).of_stored
    · unfold processSegments
      split
      · exact (@ordinary_passDone
          { w with
            store := w.store
            epochCache := fun i => if i ∈ segments.map Taken.index then w.epochCache i else none }
          purpose .default hpurpose htodo).of_stored
      · exact .quiet htodo hpurpose (.waiting _ _ _)

theorem ordinary_inspect {taken : Taken} (epochSecs sealSecs : Nat) (pending : List Taken)
    (stats : PassStats) (htodo : todoOf w.phase = []) (hpurpose : forDumps purpose = true) :
    Ordinary w (w.inspect purpose taken epochSecs sealSecs pending stats) := by
  unfold inspect
  simp only
  split
  · cases taken with
    | disk _ | memory _ =>
      exact .quiet htodo hpurpose (.waiting _ _ _)
  · exact .of_staged ⟨rfl, rfl, rfl, rfl, rfl, rfl, rfl, rfl, rfl⟩ rfl htodo rfl hpurpose
      (.inr ⟨rfl, rfl, rfl⟩)

theorem sameCount_recordDumpError {dumps : List ActiveDump} {matched : List Nat}
    {kind : ProcessErrorKind} {d : ActiveDump} (hd : d ∈ recordDumpError dumps matched kind) :
    ∃ d₀ ∈ dumps, SameCount d₀ d := by
  rcases List.mem_mapIdx.mp hd with ⟨i, hi, rfl⟩
  refine ⟨dumps.get ⟨i, hi⟩, List.get_mem _ _, ?_⟩
  split
  · exact ⟨rfl, rfl, rfl, rfl⟩
  · exact .refl _

theorem ordinary_failDumps {job : Job} {kind : ProcessErrorKind} (hsame : Untouched w next)
    (hdumps : next.dumps = (w.failDumps job kind).dumps) (htodo : todoOf w.phase = [])
    (hmode : inTriggered next.phase = true) (hbusy : Busy next.phase) : Ordinary w next := by
  apply Ordinary.of_busy hsame _ _ htodo hmode hbusy
  · rw [hdumps]
    unfold failDumps
    simp only
    split
    · rfl
    · exact recordDumpError_ids _ _ _
  · rw [hdumps]
    unfold failDumps
    simp only
    split
    · exact fun d hd => ⟨d, hd, .refl d⟩
    · exact fun d hd => sameCount_recordDumpError hd

section

variable (job : Job) (kind : ProcessErrorKind) (pending : List Taken) (stats : PassStats)
  (htodo : todoOf w.phase = []) (hpurpose : forDumps purpose = true)
include job kind pending stats htodo hpurpose

theorem ordinary_remove : Ordinary w (w.remove purpose job kind pending stats) :=
  ordinary_failDumps ⟨rfl, rfl, rfl, rfl, rfl, rfl, rfl, rfl, rfl⟩ rfl htodo hpurpose
    (.waiting _ _ _)

theorem ordinary_stageFailed : Ordinary w (w.stageFailed purpose job kind pending stats) := by
  unfold stageFailed
  split
  · exact .quiet htodo hpurpose (.waiting _ _ _)
  · split
    · split
      · split
        · exact ordinary_failDumps ⟨rfl, rfl, rfl, rfl, rfl, rfl, rfl, rfl, rfl⟩ rfl htodo hpurpose
            (.waiting _ _ _)
        · exact .quiet htodo hpurpose (.sleeping _ _ _ _ _)
      · exact .quiet htodo hpurpose (.waiting _ _ _)
    · exact ordinary_remove job kind pending stats htodo hpurpose

end

/-- What a move of a triggered worker is to its requests. -/
inductive DeskMove (w : Worker) (e : WorkerEvent) : Worker → Prop
  | ordinary {next : Worker} (h : Ordinary w next) : DeskMove w e next
  | rejects {req : DumpRequest} {rest : List DumpRequest} (hchannel : w.channel = req :: rest) :
      DeskMove w e { w.refuse req .pipelineUnavailable with channel := rest }
  | succeeds {purpose : Purpose} {job : Job} {stage : Nat} {pending : List Taken}
      {stats : PassStats} (key : String)
      (hphase : w.phase = .staged purpose job stage pending stats) :
      DeskMove w e (w.succeed purpose job key pending stats)
  | closes {stage : Nat} {manifest : Option String}
      (hphase : w.phase = .resolving [] stage manifest .close) : DeskMove w e (w.resolvedAll .close)
  | finalizes {dump : ActiveDump} {todo : List ActiveDump} {stage : Nat}
      {manifest : Option String} {after : After} (written : Option String)
      (hphase : w.phase = .resolving (dump :: todo) stage manifest after)
      (hstage : stage < w.pipeline.stages) :
      DeskMove w e
        { (w.finalizeStage dump stage written).1 with
          phase := .resolving (dump :: todo) (stage + 1)
            ((w.finalizeStage dump stage written).2.or manifest) after }
  | answers {dump : ActiveDump} {todo : List ActiveDump} {stage : Nat}
      {manifest : Option String} {after : After} {finishedAt : Int}
      {message : Except DumpError DumpReceipt}
      (hphase : w.phase = .resolving (dump :: todo) stage manifest after)
      (hstage : w.pipeline.stages ≤ stage)
      (hmessage : dump.intoResult finishedAt manifest = some message) :
      DeskMove w e
        { w with
          answers := ⟨dump.id, message, some dump⟩ :: w.answers
          phase := .resolving todo 0 none after }
  | registers {req : DumpRequest} {rest : List DumpRequest} (elapsed : Nat)
      (hphase : w.phase = .select) (hchannel : w.channel = req :: rest) :
      DeskMove w e
        { w with
          channel := rest
          dumps := w.dumps ++ [.registered req w.now elapsed w.store.ring]
          phase := .top }
  | dies {req : DumpRequest} {elapsed : Nat} (hevent : e = .receive elapsed)
      (hphase : w.phase = .select) (hchannel : req ∈ w.channel.head?)
      (hpast : ¬ req.Anchored w.now elapsed) :
        DeskMove w e { w with rxClosed := true, phase := .panicked }

theorem deskMove_of_move (hmode : inTriggered w.phase = true) (hmove : Move w e next) :
    DeskMove w e next := by
  cases hmove with
  | turn rxOpen hfrom hto hscan hturn =>
    rcases hturn hmode with ⟨hnext, hexited⟩
    exact .ordinary (.quiet (todoOf_of_resting hfrom) hnext (.resting hto hexited))
  | drained result hphase hpurpose hresult =>
    exact .ordinary (ordinary_drainDone result hpurpose (by rw [hphase]; rfl))
  | @tookMem purpose m hphase hstore =>
    rw [hphase] at hmode
    exact .ordinary (@ordinary_tookFiles
      { w with
        store := .mem { m with queue := m.queue.pop (w.takeWindows purpose) }
        epochCache := w.epochCache } purpose _ hmode (by rw [hphase]; rfl)).of_stored
  | listed hphase hstore | readClaims hphase hstore =>
    rw [hphase] at hmode
    exact .ordinary (.quiet (by rw [hphase]; rfl) hmode (.resting (.scanning _ _) (by simp)))
  | @listFailed purpose d hphase hstore =>
    rw [hphase] at hmode
    exact .ordinary (@ordinary_tookFiles
      { w with
        store := .disk { d with fs := { d.fs with dropped := 0 } }
        epochCache := w.epochCache } purpose [] hmode (by rw [hphase]; rfl)).of_stored
  | @tookDisk purpose d onDisk segments sizeOf hphase hstore =>
    rw [hphase] at hmode
    exact .ordinary (@ordinary_tookFiles
      { w with
        store := .disk { d with fs := d.fs.recordClaims onDisk segments sizeOf }
        epochCache := w.epochCache } purpose _ hmode (by rw [hphase]; rfl)).of_stored
  | passed hphase =>
    rw [hphase] at hmode
    exact .ordinary (ordinary_passDone _ hmode (by rw [hphase]; rfl))
  | opens hphase =>
    rw [hphase] at hmode
    exact .ordinary (.quiet (by rw [hphase]; rfl) hmode (.opening _ _ _ _))
  | @interrupts purpose pending stats interruption hphase =>
    rw [hphase] at hmode
    exact .ordinary (@ordinary_passDone
      { w with
        store := pending.foldl Store.releaseUnprocessed w.store
        epochCache := w.epochCache } purpose _ hmode (by rw [hphase]; rfl)).of_stored
  | rejects hchannel hphase => exact .rejects hchannel
  | hangsUp hphase =>
    rcases hphase with ⟨purpose, pending, stats, hphase⟩
    exact .ordinary (.quiet (by rw [hphase]; rfl) hmode (hphase ▸ .waiting _ _ _))
  | skips hphase houtside =>
    rw [hphase] at hmode
    exact .ordinary (.quiet (by rw [hphase]; rfl) hmode (.waiting _ _ _))
  | loads hphase hload =>
    rw [hphase] at hmode
    exact .ordinary (.quiet (by rw [hphase]; rfl) hmode (.opened _ _ _ _))
  | misses hphase hload houtcome =>
    rw [hphase] at hmode
    exact .ordinary (.quiet (by rw [hphase]; rfl) hmode (.waiting _ _ _))
  | inspects hphase hepochs =>
    rw [hphase] at hmode
    exact .ordinary (ordinary_inspect _ _ _ _ (by rw [hphase]; rfl) hmode)
  | nextStage key hphase hstage =>
    rw [hphase] at hmode
    exact .ordinary (.of_staged ⟨rfl, rfl, rfl, rfl, rfl, rfl, rfl, rfl, rfl⟩ rfl
      (by rw [hphase]; rfl) rfl hmode (.inl ⟨_, hphase⟩))
  | succeeds key hphase hstage => exact .succeeds key hphase
  | fails kind hphase =>
    rw [hphase] at hmode
    exact .ordinary (ordinary_stageFailed _ kind _ _ (by rw [hphase]; rfl) hmode)
  | panics message hphase =>
    rw [hphase] at hmode
    exact .ordinary (ordinary_remove _ _ _ _ (by rw [hphase]; rfl) hmode)
  | retries hphase =>
    rw [hphase] at hmode
    exact .ordinary (.quiet (by rw [hphase]; rfl) hmode (.waiting _ _ _))
  | @resolvedAll stage manifest after hphase =>
    cases after with
    | again =>
      exact .ordinary (.quiet (by rw [hphase]; rfl) rfl (.resting .top (by simp)))
    | check =>
      exact .ordinary (.quiet (by rw [hphase]; rfl) rfl (.resting .check (by simp)))
    | close => exact .closes hphase
  | finalizes written hphase hstage => exact .finalizes written hphase hstage
  | answers finishedAt hphase hstage =>
    rcases sendReceipt_eq w _ _ finishedAt _ _ with ⟨message, hmessage, hsent⟩
    rw [hsent]
    exact .answers hphase hstage hmessage
  | registers elapsed hphase hchannel => exact .registers elapsed hphase hchannel
  | dies hphase hchannel hpast => exact .dies rfl hphase hchannel hpast

/-! ## The invariant -/

/-- Where every request is, and what each stage has been told. -/
structure DeskInv (w : Worker) : Prop where
  conserved : (w.answers.map Answer.id ++ w.channel.map DumpRequest.id ++ openIds w).Perm
    (w.sent.map DumpRequest.id)
  distinct : (w.sent.map DumpRequest.id).Nodup
  mode : inTriggered w.phase = true
  closing : ∀ todo stage manifest, w.phase = .resolving todo stage manifest .close → w.dumps = []
  exited : w.phase = .exited → w.channel = [] ∧ w.dumps = [] ∧ w.rxClosed = true
  finalizedSent : ∀ told ∈ w.finalized, told.1 ∈ w.sent.map DumpRequest.id
  untouched : ∀ id ∈ w.channel.map DumpRequest.id ++ (w.dumps.map ActiveDump.id ++
    ((todoOf w.phase).drop 1).map ActiveDump.id), w.finalizedOf id = []
  started : ∀ dump todo stage manifest after,
    w.phase = .resolving (dump :: todo) stage manifest after →
      stage ≤ w.pipeline.stages ∧ w.finalizedOf dump.id = (List.range stage).reverse
  answered : ∀ a ∈ w.answers, ∀ d, a.dump = some d → d.id = a.id ∧
    w.finalizedOf a.id = (List.range w.pipeline.stages).reverse ∧
      ∃ finishedAt manifest, d.intoResult finishedAt manifest = some a.message

theorem Ordinary.finalizedOf_eq (h : Ordinary w next) : next.finalizedOf = w.finalizedOf := by
  unfold finalizedOf
  rw [h.untouched.finalized]

section

variable (h : DeskInv w)
include h

theorem DeskInv.ordinary (hnext : Ordinary w next) : DeskInv next := by
  have hsame := hnext.untouched
  have hopen : ∀ id ∈ openIds next, w.finalizedOf id = [] := by
    intro id hid
    have hmem := hnext.opens.mem_iff.mp hid
    rw [openIds, hnext.todo] at hmem
    apply h.untouched id
    rw [hnext.todo]
    exact List.mem_append_right _ hmem
  exact
    { conserved := by
        rw [hsame.answers, hsame.channel, hsame.sent]
        exact (hnext.opens.append_left _).trans h.conserved
      distinct := by
        rw [hsame.sent]
        exact h.distinct
      mode := hnext.mode
      closing := hnext.closing
      exited := fun hexited => absurd hexited hnext.notExited
      finalizedSent := by
        rw [hsame.finalized, hsame.sent]
        exact h.finalizedSent
      untouched := by
        rw [hnext.finalizedOf_eq, hsame.channel]
        intro id hid
        rcases List.mem_append.mp hid with hchannel | hrest
        · exact h.untouched id (List.mem_append_left _ hchannel)
        · apply hopen id
          rcases List.mem_append.mp hrest with hdumps | hdrop
          · exact List.mem_append_left _ hdumps
          · apply List.mem_append_right
            exact List.map_subset _ (List.drop_subset 1 _) hdrop
      started := by
        intro dump todo stage manifest after hphase
        have hzero := hnext.started _ _ _ _ hphase
        have hhead : dump.id ∈ openIds next := by
          rw [openIds, hphase]
          exact List.mem_append_right _ List.mem_cons_self
        rw [hzero, hnext.finalizedOf_eq, hopen dump.id hhead]
        exact ⟨Nat.zero_le _, rfl⟩
      answered := by
        rw [hsame.answers, hnext.finalizedOf_eq, hsame.pipeline]
        exact h.answered }

theorem DeskInv.succeed {job : Job} {pending : List Taken} {stats : PassStats}
    (key : String) (hphase : w.phase = .staged purpose job stage pending stats) :
    DeskInv (w.succeed purpose job key pending stats) := by
  have hids := countMatched_ids w.dumps job.matched job.epochSecs job.sealSecs
  have hopen : openIds (w.succeed purpose job key pending stats) = openIds w := by
    rw [openIds, openIds, hphase]
    exact congrArg (· ++ []) hids
  exact
    { h with
      conserved := by
        rw [hopen]
        exact h.conserved
      mode := by
        have hmode := h.mode
        rw [hphase] at hmode
        exact hmode
      closing := by simp [Worker.succeed]
      exited := by simp [Worker.succeed]
      untouched := by
        intro id hid
        apply h.untouched id
        simp only [Worker.succeed, hids, todoOf] at hid
        rw [hphase]
        exact hid
      started := by simp [Worker.succeed] }

theorem DeskInv.send (hopen : w.rxClosed = false) (hnew : req.id ∉ w.sent.map DumpRequest.id) :
    DeskInv { w with channel := w.channel ++ [req], sent := req :: w.sent } :=
  { h with
    conserved := by
      simp only [List.map_append, List.map_cons, List.map_nil]
      have hmiddle : ((w.answers.map Answer.id ++ (w.channel.map DumpRequest.id ++ [req.id])) ++
          openIds w).Perm (req.id :: (w.answers.map Answer.id ++
            w.channel.map DumpRequest.id ++ openIds w)) := by
        rw [← List.append_assoc, List.append_assoc _ [req.id]]
        exact List.perm_middle
      exact hmiddle.trans (h.conserved.cons req.id)
    distinct := List.nodup_cons.mpr ⟨hnew, h.distinct⟩
    exited := by
      intro hexited
      rw [(h.exited hexited).2.2] at hopen
      cases hopen
    finalizedSent := fun told htold => List.mem_cons_of_mem _ (h.finalizedSent told htold)
    untouched := by
      intro id hid
      simp only [List.map_append, List.map_cons, List.map_nil] at hid
      rcases List.mem_append.mp hid with hchannel | hrest
      · rcases List.mem_append.mp hchannel with hold | hsent
        · exact h.untouched id (List.mem_append_left _ hold)
        · rw [List.mem_singleton.mp hsent]
          show (w.finalized.filter fun told => told.1 == req.id).map Prod.snd = []
          rw [List.map_eq_nil_iff, List.filter_eq_nil_iff]
          intro told htold heq
          rw [beq_iff_eq] at heq
          exact hnew (heq ▸ h.finalizedSent told htold)
      · exact h.untouched id (List.mem_append_right _ hrest) }

theorem deskInv_outside (hnext : w.outside e = some next) : DeskInv next := by
  rcases outside_cases hnext with ⟨req, hopen, hnew, rfl⟩ |
    ⟨store, triggers, stop, writerDone, now, rfl⟩
  · exact h.send hopen hnew
  · exact { h with }

theorem DeskInv.refuse {rest : List DumpRequest}
    (hchannel : w.channel = req :: rest) (error : DumpError) :
    DeskInv { w.refuse req error with channel := rest } :=
  { h with
    conserved := by
      have hconserved := h.conserved
      rw [hchannel] at hconserved
      apply List.Perm.trans _ hconserved
      simp only [Worker.refuse, List.map_cons, List.append_assoc, List.cons_append]
      exact List.perm_middle.symm
    exited := by
      intro hexited
      rw [(h.exited hexited).1] at hchannel
      cases hchannel
    untouched := by
      intro id hid
      apply h.untouched id
      rw [hchannel]
      exact List.mem_cons_of_mem _ hid
    answered := by
      intro a ha d hd
      rcases List.mem_cons.mp ha with rfl | ha
      · cases hd
      · exact h.answered a ha d hd }

theorem DeskInv.register {rest : List DumpRequest} (hphase : w.phase = .select)
    (hchannel : w.channel = req :: rest) (elapsed : Nat) :
    DeskInv { w with
      channel := rest
      dumps := w.dumps ++ [.registered req w.now elapsed w.store.ring]
      phase := .top } :=
  { h with
    conserved := by
      have hconserved := h.conserved
      rw [hchannel, openIds, hphase] at hconserved
      apply List.Perm.trans _ hconserved
      simp only [openIds, todoOf, List.map_append, List.map_cons, List.map_nil, List.append_nil,
        List.append_assoc, ActiveDump.registered]
      apply List.Perm.append_left
      rw [← List.append_assoc]
      exact List.perm_append_singleton _ _
    mode := rfl
    closing := by simp
    exited := by simp
    untouched := by
      intro id hid
      apply h.untouched id
      rw [hchannel, hphase]
      simp only [todoOf, List.drop_nil, List.map_nil, List.map_append, List.map_cons,
        List.append_nil, List.mem_append, List.mem_cons, List.not_mem_nil, or_false,
        ActiveDump.registered] at hid ⊢
      tauto
    started := by simp }

theorem DeskInv.die (hphase : w.phase = .select) :
    DeskInv { w with rxClosed := true, phase := .panicked } :=
  { h with
    conserved := by
      have hconserved := h.conserved
      rwa [openIds, hphase] at hconserved
    mode := rfl
    closing := by simp
    exited := by simp
    untouched := by
      have huntouched := h.untouched
      rwa [hphase] at huntouched
    started := by simp }

theorem DeskInv.nodup :
    (w.answers.map Answer.id ++ w.channel.map DumpRequest.id ++ openIds w).Nodup :=
  h.conserved.nodup_iff.mpr h.distinct

theorem DeskInv.head_apart (hphase : w.phase = .resolving (dump :: todo) stage manifest after) :
    dump.id ∉ w.answers.map Answer.id ∧ dump.id ∉ w.channel.map DumpRequest.id ++
      (w.dumps.map ActiveDump.id ++ todo.map ActiveDump.id) := by
  have hperm : (w.answers.map Answer.id ++ w.channel.map DumpRequest.id ++ openIds w).Perm
      (dump.id :: (w.answers.map Answer.id ++ (w.channel.map DumpRequest.id ++
        (w.dumps.map ActiveDump.id ++ todo.map ActiveDump.id)))) := by
    simp only [openIds, hphase, todoOf, List.map_cons]
    simp only [← List.append_assoc]
    exact List.perm_middle
  have hnodup := (hperm.nodup_iff.mp h.nodup)
  rw [List.nodup_cons, List.mem_append, not_or] at hnodup
  exact hnodup.1

end

theorem finalizedOf_cons (w : Worker) (id other : DumpId) (stage : Nat) :
    ((((id, stage) :: w.finalized).filter fun told => told.1 == other).map Prod.snd) =
      if id = other then stage :: w.finalizedOf other else w.finalizedOf other := by
  by_cases heq : id = other
  · simp [finalizedOf, heq]
  · simp [finalizedOf, heq]

section

variable (h : DeskInv w)
include h

section

variable (hphase : w.phase = .resolving (dump :: todo) stage manifest after)
include hphase

theorem DeskInv.finalize
    (hstage : stage < w.pipeline.stages) (manifest' : Option String) (dumpKeys : DumpKeys)
    (manifests : List DumpManifest) :
    DeskInv { w with
      finalized := (dump.id, stage) :: w.finalized
      dumpKeys, manifests
      phase := .resolving (dump :: todo) (stage + 1) manifest' after } := by
  rcases h.head_apart hphase with ⟨hanswered, helsewhere⟩
  have hopen : openIds w = w.dumps.map ActiveDump.id ++ (dump :: todo).map ActiveDump.id := by
    rw [openIds, hphase]
    rfl
  exact
    { h with
      conserved := by
        have hconserved := h.conserved
        rw [hopen] at hconserved
        exact hconserved
      mode := rfl
      closing := by
        intro todo' stage' manifest'' hphase'
        rw [Phase.resolving.injEq] at hphase'
        exact h.closing _ _ _ (hphase'.2.2.2 ▸ hphase)
      exited := by simp
      finalizedSent := by
        intro told htold
        rcases List.mem_cons.mp htold with rfl | htold
        · apply h.conserved.mem_iff.mp
          rw [hopen]
          simp
        · exact h.finalizedSent told htold
      untouched := by
        intro id hid
        have hne : dump.id ≠ id := by
          rintro rfl
          exact helsewhere hid
        show (((dump.id, stage) :: w.finalized).filter fun told => told.1 == id).map Prod.snd = []
        rw [finalizedOf_cons, if_neg hne]
        apply h.untouched id
        rw [hphase]
        exact hid
      started := by
        intro dump' todo' stage' manifest'' after' hphase'
        rw [Phase.resolving.injEq, List.cons.injEq] at hphase'
        rcases hphase' with ⟨⟨rfl, rfl⟩, rfl, rfl, rfl⟩
        refine ⟨hstage, ?_⟩
        show (((dump.id, stage) :: w.finalized).filter fun told => told.1 == dump.id).map
          Prod.snd = _
        rw [finalizedOf_cons, if_pos rfl, (h.started _ _ _ _ _ hphase).2, List.range_succ,
          List.reverse_append]
        rfl
      answered := by
        intro a ha d hd
        rcases h.answered a ha d hd with ⟨hid, htold, hresult⟩
        refine ⟨hid, ?_, hresult⟩
        have hne : dump.id ≠ a.id := by
          intro heq
          exact hanswered (heq ▸ List.mem_map.mpr ⟨a, ha, rfl⟩)
        show (((dump.id, stage) :: w.finalized).filter fun told => told.1 == a.id).map Prod.snd = _
        rw [finalizedOf_cons, if_neg hne, htold] }

theorem DeskInv.answer
    (hstage : w.pipeline.stages ≤ stage) {finishedAt : Int}
    {message : Except DumpError DumpReceipt}
    (hmessage : dump.intoResult finishedAt manifest = some message) :
    DeskInv { w with
      answers := ⟨dump.id, message, some dump⟩ :: w.answers
      phase := .resolving todo 0 none after } := by
  rcases h.started _ _ _ _ _ hphase with ⟨hle, htold⟩
  obtain rfl : stage = w.pipeline.stages := Nat.le_antisymm hle hstage
  exact
    { h with
      conserved := by
        apply List.Perm.trans _ h.conserved
        simp only [openIds, hphase, todoOf, List.map_cons, List.cons_append]
        rw [← List.append_assoc (_ ++ _), ← List.append_assoc (_ ++ _)]
        exact List.perm_middle.symm
      mode := rfl
      closing := by
        intro todo' stage' manifest'' hphase'
        rw [Phase.resolving.injEq] at hphase'
        exact h.closing _ _ _ (hphase'.2.2.2 ▸ hphase)
      exited := by simp
      untouched := by
        intro id hid
        apply h.untouched id
        rw [hphase]
        rcases List.mem_append.mp hid with hchannel | hrest
        · exact List.mem_append_left _ hchannel
        · apply List.mem_append_right
          rcases List.mem_append.mp hrest with hdumps | hdrop
          · exact List.mem_append_left _ hdumps
          · apply List.mem_append_right
            exact List.map_subset _ (List.drop_subset 1 todo) hdrop
      started := by
        intro dump' todo' stage' manifest'' after' hphase'
        rw [Phase.resolving.injEq] at hphase'
        rcases hphase' with ⟨rfl, rfl, rfl, rfl⟩
        refine ⟨Nat.zero_le _, ?_⟩
        show w.finalizedOf dump'.id = []
        apply h.untouched
        rw [hphase]
        simp [todoOf]
      answered := by
        intro a ha d hd
        rcases List.mem_cons.mp ha with rfl | ha
        · cases hd
          exact ⟨rfl, htold, finishedAt, manifest, hmessage⟩
        · exact h.answered a ha d hd }

end

/-- The last resolving loop is over: what is left in the channel is refused. -/
theorem DeskInv.close (hphase : w.phase = .resolving [] stage manifest .close) :
    DeskInv (w.resolvedAll .close) := by
  have hdumps := h.closing _ _ _ hphase
  exact
    { h with
      conserved := by
        have hconserved := h.conserved
        simp only [openIds, hphase, todoOf, hdumps, List.map_nil, List.append_nil] at hconserved
        simp only [openIds, resolvedAll, todoOf, hdumps, List.map_append, List.map_reverse,
          List.map_map, List.map_nil, List.append_nil]
        apply List.Perm.trans _ hconserved
        apply List.perm_append_comm.trans
        apply List.Perm.append_left
        exact List.reverse_perm _
      mode := rfl
      closing := by simp [resolvedAll]
      exited := fun _ => ⟨rfl, hdumps, rfl⟩
      untouched := by
        intro id hid
        simp [resolvedAll, todoOf, hdumps] at hid
      started := by simp [resolvedAll]
      answered := by
        intro a ha d hd
        rcases List.mem_append.mp ha with ha | ha
        · rcases List.mem_map.mp (List.mem_reverse.mp ha) with ⟨req, -, rfl⟩
          cases hd
        · exact h.answered a ha d hd }

/-! ## Steps -/

theorem deskInv_move (hmove : Move w e next) : DeskInv next := by
  cases deskMove_of_move h.mode hmove with
  | ordinary hnext => exact h.ordinary hnext
  | rejects hchannel => exact h.refuse hchannel .pipelineUnavailable
  | succeeds key hphase => exact h.succeed key hphase
  | closes hphase => exact h.close hphase
  | finalizes written hphase hstage =>
    rcases finalizeStage_fields w _ _ written with ⟨dumpKeys, manifests, hfields⟩
    rw [hfields]
    exact h.finalize hphase hstage _ dumpKeys manifests
  | answers hphase hstage hmessage => exact h.answer hphase hstage hmessage
  | registers elapsed hphase hchannel => exact h.register hphase hchannel elapsed
  | dies hevent hphase hchannel hpast => exact h.die hphase

theorem deskInv_step (hnext : w.step e = some next) : DeskInv next := by
  rcases step_cases hnext with houtside | hmove
  · exact deskInv_outside h houtside
  · exact deskInv_move h hmove

end

theorem deskInv_triggered (pipeline : Pipeline) (store : Store) :
    DeskInv (triggered pipeline store) where
  conserved := .refl _
  distinct := List.nodup_nil
  mode := rfl
  closing := by simp [triggered, new]
  exited := by simp [triggered, new]
  finalizedSent := by simp [triggered, new]
  untouched := by simp [triggered, new, todoOf]
  started := by simp [triggered, new]
  answered := by simp [triggered, new]

end Worker

end Dial9.Core
