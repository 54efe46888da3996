import StorTrace.Ext4Dio.Program
import StorTrace.Ext4Dio.Module
import StorTrace.Lib.Duration

/-!
# `Ext4Dio.Durations` — are the logged stages of a direct I/O true durations?

One direct I/O is followed from `new_sync_*` to its completion. Its three stages are differences of
consecutive stamps, and their sum is always the time from start to end. They are durations as long as
`iomap_dio_bio_actor` ran at least once: a direct I/O that touches no extent leaves `start_block_io` at
zero, and `start_block_io - start_ext4` wraps while the sum hides it.
-/

namespace StorTrace.Ext4Dio

/-! ## What the post-processor reads -/

/-- The columns of `dio_simple_event_log` and `dio_info_event_log` that both reports use. -/
structure DioStages where
  endDioIo : UInt64
  kernelCrossing : UInt64
  fileSystem : UInt64
  blockIo : UInt64
deriving DecidableEq

namespace DioStages

/-- A row of `ext4_dio_simple_event`, as `struct dio_simple_event_log`. -/
def ofSimpleRow (row : List UInt8) : DioStages := ⟨wordAt row 0, wordAt row 1, wordAt row 2, wordAt row 3⟩

/-- A row of `dio_info_event`, as `struct dio_info_event_log`. -/
def ofInfoRow (row : List UInt8) : DioStages := ⟨wordAt row 1, wordAt row 2, wordAt row 3, wordAt row 4⟩

/-- `sum_time[i]`. -/
def sumTime (r : DioStages) : UInt64 := r.kernelCrossing + r.fileSystem + r.blockIo

/-- The stages of an event. -/
def ofEvent (v : SimpleDioEvent) : DioStages :=
  ⟨v.endBlockIo, v.startExt4 - v.startDio, v.startBlockIo - v.startExt4, v.endBlockIo - v.startBlockIo⟩

end DioStages

/-- **The row the simple module logs holds the stages of its event.** -/
theorem ofSimpleRow_doEvent {δ : Type} {m : Simple.SimpleModule δ} {v : SimpleDioEvent} {call : CommitCall}
    (h : (Simple.doEvent m v).1.commits = m.commits ++ [call]) :
    DioStages.ofSimpleRow call.row = .ofEvent v := by
  have hcall : call = commitWords Simple.formats "ext4_dio_simple_event" (Simple.eventWords v) := by
    unfold Simple.doEvent at h
    split at h
    · exact (List.singleton_inj.mp (List.append_cancel_left h)).symm
    · split at h
      · exact absurd h (by simp)
      · exact (List.singleton_inj.mp (List.append_cancel_left h)).symm
  have hrow : call.row = wordsBytes (Simple.eventWords v) := by rw [hcall]; exact commitWords_row rfl
  have hword (k : Nat) (hk : k < (Simple.eventWords v).length) := wordAt_wordsBytes (Simple.eventWords v) k hk
  rw [hrow, DioStages.ofSimpleRow, hword 0 (by simp [Simple.eventWords]),
    hword 1 (by simp [Simple.eventWords]), hword 2 (by simp [Simple.eventWords]),
    hword 3 (by simp [Simple.eventWords])]
  rfl

/-- **The row the info module logs holds the stages of its event.** -/
theorem ofInfoRow_doEventDio {m : Info.InfoModule} {log : DioInfoEvent} {call : CommitCall}
    (h : (Info.doEventDio m log).commits = m.commits ++ [call]) :
    DioStages.ofInfoRow call.row = .ofEvent log.simEvent := by
  have hcall : call = commitWords Info.formats "dio_info_event" (Info.dioWords log) :=
    (List.singleton_inj.mp (List.append_cancel_left h)).symm
  have hrow : call.row = wordsBytes (Info.dioWords log) := by rw [hcall]; exact commitWords_row rfl
  have hword (k : Nat) (hk : k < (Info.dioWords log).length) := wordAt_wordsBytes (Info.dioWords log) k hk
  rw [hrow, DioStages.ofInfoRow, hword 1 (by simp [Info.dioWords]), hword 2 (by simp [Info.dioWords]),
    hword 3 (by simp [Info.dioWords]), hword 4 (by simp [Info.dioWords])]
  rfl

/-! ## One direct I/O -/

/-- A direct I/O on one kiocb: its task, the task its completion runs in, and the clock readings of its
    probes. -/
structure DioRun where
  dir : Direction
  task : Task
  doneTask : Task
  dio : Ptr
  iocb : Ptr
  inodeId : UInt64
  smallName : CharArray 16
  size : Int64
  syncNow : TimeStramp
  iterNow : TimeStramp
  actorNows : List TimeStramp
  doneNow : TimeStramp
  reserve : Bool

/-- The probe a sync call fires. -/
def SyncCall.probe (c : SyncCall) : DioProbe :=
  match c.dir with
  | .write => .newSyncWrite c.task c.inodeId c.now
  | .read => .newSyncRead c.task c.inodeId c.now

/-- The probe an iter call fires. -/
def IterCall.probe (c : IterCall) : DioProbe :=
  match c.dir with
  | .write => .ext4DioWriteIter c.task c.iocb c.inodeId c.smallName c.now
  | .read => .ext4DioReadIter c.task c.iocb c.inodeId c.smallName c.now

namespace DioRun

variable (r : DioRun)

def sync : SyncCall := ⟨r.dir, r.task, r.inodeId, r.syncNow⟩

def iter : IterCall := ⟨r.dir, r.task, r.iocb, r.inodeId, r.smallName, r.iterNow⟩

def actor (now : TimeStramp) : DioProbe := .iomapDioBioActor r.task r.dio r.iocb now

def complete : DioProbe := .iomapDioComplete r.doneTask r.dio r.iocb r.size r.doneNow r.reserve

/-- The probes of the run, in order. -/
def events : List DioProbe := [r.sync.probe, r.iter.probe] ++ r.actorNows.map r.actor ++ [r.complete]

/-- The clock readings, in order. -/
def readings : List TimeStramp := [r.syncNow, r.iterNow] ++ r.actorNows ++ [r.doneNow]

/-- The entry the start probes leave, stamped by the actors. -/
def entry : SimpleDioEvent :=
  { SimpleDioEvent.zero with
    startDio := r.syncNow, startExt4 := r.iterNow, startBlockIo := r.actorNows.getLast?.getD 0
    inodeId := r.inodeId, filename := r.smallName, type := r.dir.type }

/-- The record of the run. -/
def record : SimpleDioEvent := r.entry.onComplete r.doneTask r.size r.doneNow

/-- The start call is accepted, and there is room for its entry. -/
def Traced (cfg : DioConfig) (s : DioState) : Prop := r.iter.Accepted cfg ∧ s.eventCache.HasRoom

/-- The I/O is traced and its record reaches the ring buffer. -/
def Emitted (cfg : DioConfig) (s : DioState) : Prop :=
  r.Traced cfg s ∧ passes cfg.filter r.doneTask = true ∧ r.reserve = true

instance (cfg : DioConfig) (s : DioState) : Decidable (r.Traced cfg s) :=
  inferInstanceAs (Decidable (_ ∧ _))

instance (cfg : DioConfig) (s : DioState) : Decidable (r.Emitted cfg s) :=
  inferInstanceAs (Decidable (_ ∧ _ ∧ _))

end DioRun

/-- The state after the probes `evs`. -/
def afterDio (cfg : DioConfig) (s : DioState) (evs : List DioProbe) : DioState :=
  evs.foldl (fun s p => (dioStep cfg s p).1) s

/-- A sync call leaves the entries alone. -/
theorem eventCache_sync (cfg : DioConfig) (s : DioState) (c : SyncCall) :
    (dioStep cfg s c.probe).1.eventCache = s.eventCache := by
  cases c with
  | mk dir => cases dir <;> rfl

theorem eventAct_iter (cfg : DioConfig) (s : DioState) (c : IterCall) (k : Ptr) :
    eventAct cfg s c.probe k = iterAct cfg s c k := by
  cases c with
  | mk dir => cases dir <;> rfl

theorem startWrite_sync {cfg : DioConfig} {c : SyncCall} (h : c.Accepted cfg) :
    startWrite cfg c.probe c.dir = some c.now := by
  have hc : c.probe.sync? = some c := by
    cases c with
    | mk dir => cases dir <;> rfl
  rw [startWrite, hc]
  exact if_pos ⟨rfl, h⟩

section Run

variable {cfg : DioConfig} {s : DioState} {r : DioRun}

/-- The entry after the start probes, on a kiocb that had none. -/
theorem lookup_start (hfresh : s.eventCache.lookupElem r.iocb = none) :
    (afterDio cfg s [r.sync.probe, r.iter.probe]).eventCache.lookupElem r.iocb =
      if r.Traced cfg s then some { r.entry with startBlockIo := 0 } else none := by
  show (dioStep cfg (dioStep cfg s r.sync.probe).1 r.iter.probe).1.eventCache.lookupElem r.iocb = _
  rw [dioStep_eventCache, eventAct_iter, iterAct, eventCache_sync, hfresh]
  by_cases hacc : r.iter.Accepted cfg
  · -- both start calls read the same inode, so the filters accept both or neither
    have hstart : (dioStep cfg s r.sync.probe).1.start r.dir = r.syncNow := by
      have hw : startWrite cfg r.sync.probe r.dir = some r.syncNow := startWrite_sync (c := r.sync) hacc
      rw [start_step, hw, Option.getD_some]
    have hentry : r.iter.entry (dioStep cfg s r.sync.probe).1 = { r.entry with startBlockIo := 0 } := by
      rw [IterCall.entry, show r.iter.dir = r.dir from rfl, hstart]
      rfl
    rw [if_pos hacc, show r.iter.iocb = r.iocb from rfl, CacheAction.onKey_self, hfresh]
    by_cases hr : s.eventCache.HasRoom
    · rw [if_pos ⟨rfl, hr⟩, if_pos ⟨hacc, hr⟩, CacheAction.apply_put, hentry]
    · rw [if_neg (fun h => hr h.2), if_neg (fun h => hr h.2), CacheAction.apply_keep]
  · rw [if_neg hacc, if_neg (fun h => hacc h.1), CacheAction.apply_keep]

/-- An accepted actor stamps the entry. -/
theorem lookup_actor (now : TimeStramp) :
    (dioStep cfg s (r.actor now)).1.eventCache.lookupElem r.iocb =
      (s.eventCache.lookupElem r.iocb).map
        (fun v => if passes cfg.filter r.task = true then { v with startBlockIo := now } else v) := by
  rw [dioStep_eventCache]
  show (if passes cfg.filter r.task = true then _ else _ : CacheAction SimpleDioEvent).apply _ = _
  by_cases hp : passes cfg.filter r.task = true
  · simp only [hp, if_true, CacheAction.onKey_self, CacheAction.apply_update]
  · simp [hp]

/-- The last of the actors leaves its reading. -/
theorem lookup_actors (nows : List TimeStramp) :
    (afterDio cfg s (nows.map r.actor)).eventCache.lookupElem r.iocb =
      (s.eventCache.lookupElem r.iocb).map (fun v =>
        if passes cfg.filter r.task = true then
          { v with startBlockIo := nows.getLast?.getD v.startBlockIo }
        else v) := by
  induction nows using List.reverseRecOn with
  | nil => simp [afterDio]
  | append_singleton nows now ih =>
      rw [List.map_append, afterDio, List.foldl_append]
      show (dioStep cfg (afterDio cfg s (nows.map r.actor)) (r.actor now)).1.eventCache.lookupElem r.iocb = _
      rw [lookup_actor, ih, Option.map_map]
      by_cases hp : passes cfg.filter r.task = true
      · simp [hp, Function.comp_def]
      · simp [hp, Function.comp_def]

/-- **The records of a run**: one if the I/O is traced and its completion accepted and reserved. -/
theorem emitFrom_events (hfresh : s.eventCache.lookupElem r.iocb = none) :
    (dioTracer cfg).emitFrom s r.events = if r.Emitted cfg s then [r.record] else [] := by
  have hquiet (s : DioState) : ∀ p ∈ [r.sync.probe, r.iter.probe] ++ r.actorNows.map r.actor,
      (dioStep cfg s p).2 = [] := by
    intro p hp
    rcases List.mem_append.mp hp with hp | hp
    · rcases List.mem_pair.mp hp with rfl | rfl
      · unfold SyncCall.probe; split <;> rfl
      · unfold IterCall.probe; split <;> rfl
    · obtain ⟨now, -, rfl⟩ := List.mem_map.mp hp
      rfl
  have hentry : (afterDio cfg s ([r.sync.probe, r.iter.probe] ++ r.actorNows.map r.actor)).eventCache.lookupElem
      r.iocb = if r.Traced cfg s then some r.entry else none := by
    rw [afterDio, List.foldl_append]
    show (afterDio cfg (afterDio cfg s [r.sync.probe, r.iter.probe])
      (r.actorNows.map r.actor)).eventCache.lookupElem r.iocb = _
    rw [lookup_actors, lookup_start hfresh]
    by_cases ht : r.Traced cfg s
    · have hp : passes cfg.filter r.task = true := ht.1.1
      rw [if_pos ht, if_pos ht, Option.map_some, if_pos hp]
      rfl
    · rw [if_neg ht, if_neg ht]; rfl
  rw [DioRun.events, Machine.emitFrom_append, Machine.emitFrom_quiet (dioTracer cfg) hquiet, List.nil_append]
  show (kpIomapDioComplete cfg (afterDio cfg s _) r.doneTask r.iocb r.size r.doneNow r.reserve).2 ++ [] = _
  rw [List.append_nil, kpIomapDioComplete, hentry]
  unfold DioRun.Emitted
  by_cases ht : r.Traced cfg s
  · by_cases hp : passes cfg.filter r.doneTask = true <;> by_cases hres : r.reserve = true <;>
      simp [ht, hp, hres, DioRun.record]
  · by_cases hp : passes cfg.filter r.doneTask = true <;> simp [ht, hp]

end Run

/-! ## The logged stages -/

/-- The three stages are durations between clock readings of the run, and their sum is the time from the
    start of the system call to the end. -/
def DioRun.TrueDurations (r : DioRun) (row : DioStages) : Prop :=
  (IsDuration r.readings row.kernelCrossing ∧ IsDuration r.readings row.fileSystem ∧
    IsDuration r.readings row.blockIo) ∧ row.sumTime = r.doneNow - r.syncNow

/-- **The simple tracer**: whatever its module logs for the run has true durations. -/
def SimpleDurations (cfg : DioConfig) (s : DioState) (r : DioRun) : Prop :=
  ∀ v ∈ (dioTracer cfg).emitFrom s r.events, ∀ (δ : Type) (m : Simple.SimpleModule δ) (call : CommitCall),
    (Simple.doEvent m v).1.commits = m.commits ++ [call] → r.TrueDurations (.ofSimpleRow call.row)

/-- **The info tracer**: whatever its module logs for the run has true durations. Request probes may fire
    in between, so `evs` is any run whose direct-I/O probes are those of `r`. -/
def InfoDurations (cfg : DioConfig) (s : InfoState) (r : DioRun) (evs : List InfoProbe) : Prop :=
  ∀ log, .dioInfo log ∈ (infoTracer cfg).emitFrom s evs → ∀ (m : Info.InfoModule) (call : CommitCall),
    (Info.doEventDio m log).commits = m.commits ++ [call] → r.TrueDurations (.ofInfoRow call.row)

/-- The records of a run whose direct-I/O part is a given run of the simple tracer. -/
theorem DioProgram.emitFrom_record {σ ε ο : Type} {cfg : DioConfig} {M : Machine σ ε ο}
    (P : DioProgram cfg M) (s : σ) (evs : List ε) :
    (M.emitFrom s evs).filterMap P.record =
      (dioTracer cfg).emitFrom (P.state s) (evs.filterMap P.probe) := by
  induction evs generalizing s with
  | nil => rfl
  | cons e rest ih =>
      rw [Machine.emitFrom, List.filterMap_append, P.record_step, ih, P.state_step]
      cases hp : P.probe e with
      | none => rw [List.filterMap_cons_none hp, List.nil_append]
      | some p => rw [List.filterMap_cons_some hp, Machine.emitFrom]; rfl

section Logged

variable {cfg : DioConfig} {r : DioRun}

/-- A run of the simple tracer is judged by its record, if it emits one. -/
theorem simpleDurations_iff {s : DioState} (hfresh : s.eventCache.lookupElem r.iocb = none) :
    SimpleDurations cfg s r ↔ (r.Emitted cfg s → r.TrueDurations (.ofEvent r.record)) := by
  unfold SimpleDurations
  rw [emitFrom_events hfresh]
  constructor
  · intro h he
    -- a module without a filter logs every event
    let m : Simple.SimpleModule Unit := ⟨[], ⟨.new 0, .new, .new⟩, none⟩
    have hcommit : (Simple.doEvent m r.record).1.commits = m.commits ++ [_] := rfl
    rw [← ofSimpleRow_doEvent hcommit]
    exact h r.record (by simp [he]) Unit m _ hcommit
  · intro h v hv δ m call hcall
    rw [ofSimpleRow_doEvent hcall]
    by_cases he : r.Emitted cfg s
    · obtain rfl : v = r.record := by simpa [he] using hv
      exact h he
    · exact absurd hv (by simp [he])

/-- So is a run of the info tracer: its records are those of its direct-I/O part. -/
theorem infoDurations_iff {s : InfoState} {evs : List InfoProbe}
    (hfresh : s.dio.eventCache.lookupElem r.iocb = none) (hevs : evs.filterMap InfoProbe.dio = r.events) :
    InfoDurations cfg s r evs ↔ (r.Emitted cfg s.dio → r.TrueDurations (.ofEvent r.record)) := by
  have hrecords := (infoProgram cfg).emitFrom_record s evs
  have hprobe : evs.filterMap (infoProgram cfg).probe = r.events := hevs
  rw [hprobe, show (infoProgram cfg).state s = s.dio from rfl, emitFrom_events hfresh] at hrecords
  have hmem (v : SimpleDioEvent) : (∃ log, .dioInfo log ∈ (infoTracer cfg).emitFrom s evs ∧
      log.simEvent = v) ↔ v ∈ (if r.Emitted cfg s.dio then [r.record] else []) := by
    rw [← hrecords, List.mem_filterMap]
    constructor
    · rintro ⟨log, hlog, rfl⟩
      exact ⟨_, hlog, rfl⟩
    · rintro ⟨rec, hrec, hv⟩
      cases rec with
      | dioInfo log => exact ⟨log, hrec, Option.some.inj hv⟩
      | hctx state => exact absurd hv (by simp [infoProgram, InfoRecord.simple, InfoRecord.dioInfo?])
      | rqInfo log => exact absurd hv (by simp [infoProgram, InfoRecord.simple, InfoRecord.dioInfo?])
  unfold InfoDurations
  constructor
  · intro h he
    obtain ⟨log, hlog, hv⟩ := (hmem r.record).mpr (by simp [he])
    let m := Info.InfoModule.new 0 0
    have hcommit : (Info.doEventDio m log).commits = m.commits ++ [_] := rfl
    rw [← hv, ← ofInfoRow_doEventDio hcommit]
    exact h log hlog m _ hcommit
  · intro h log hlog m call hcall
    have hv := (hmem log.simEvent).mp ⟨log, hlog, rfl⟩
    rw [ofInfoRow_doEventDio hcall]
    by_cases he : r.Emitted cfg s.dio
    · obtain hv : log.simEvent = r.record := by simpa [he] using hv
      rw [hv]
      exact h he
    · exact absurd hv (by simp [he])

end Logged

/-! ## With and without a block actor -/

/-- The sum of the stages telescopes, wrapped or not. -/
theorem sumTime_record (r : DioRun) : (DioStages.ofEvent r.record).sumTime = r.doneNow - r.syncNow := by
  show (r.iterNow - r.syncNow) + (r.record.startBlockIo - r.iterNow) +
    (r.doneNow - r.record.startBlockIo) = r.doneNow - r.syncNow
  grind

/-- With an actor, the stages are the gaps between the start, the iter call, the last actor and the end. -/
theorem trueDurations_of_actor {r : DioRun} (hc : r.readings.Pairwise (· ≤ ·)) (ha : r.actorNows ≠ []) :
    r.TrueDurations (.ofEvent r.record) := by
  obtain ⟨init, last, hlast⟩ := (List.eq_nil_or_concat' r.actorNows).resolve_left ha
  have hblock : r.record.startBlockIo = last := by
    show r.actorNows.getLast?.getD 0 = last
    rw [hlast, List.getLast?_concat, Option.getD_some]
  have hreadings : r.readings = [r.syncNow, r.iterNow] ++ init ++ [last, r.doneNow] := by
    rw [DioRun.readings, hlast]; simp
  have hsync : r.syncNow ∈ r.readings := by simp [DioRun.readings]
  have hiter : r.iterNow ∈ r.readings := by simp [DioRun.readings]
  have hmem : last ∈ r.readings := by simp [hreadings]
  have hdone : r.doneNow ∈ r.readings := by simp [DioRun.readings]
  rw [hreadings] at hc
  simp only [List.pairwise_append, List.pairwise_cons, List.mem_append, List.mem_cons, List.not_mem_nil,
    or_false] at hc
  refine ⟨⟨?_, ?_, ?_⟩, sumTime_record r⟩
  · exact isDuration_sub hsync hiter (hc.1.1.1 _ rfl)
  · -- the last actor ran after the iter call
    show IsDuration r.readings (r.record.startBlockIo - r.iterNow)
    rw [hblock]
    exact isDuration_sub hiter hmem (hc.2.2 _ (Or.inl (Or.inr rfl)) _ (Or.inl rfl))
  · show IsDuration r.readings (r.doneNow - r.record.startBlockIo)
    rw [hblock]
    exact isDuration_sub hmem hdone (hc.2.1.1 _ rfl)

/-- Without one, the file-system stage wraps. -/
theorem not_trueDurations_of_no_actor {r : DioRun} (ha : r.actorNows = []) (hpos : 0 < r.iterNow)
    (hsigned : ∀ t ∈ r.readings, t.toNat < clockLimit) : ¬ r.TrueDurations (.ofEvent r.record) := by
  rintro ⟨⟨-, hfile, -⟩, -⟩
  have hblock : r.record.startBlockIo = 0 := by
    show r.actorNows.getLast?.getD 0 = 0
    rw [ha]; rfl
  have hfile' : IsDuration r.readings (r.record.startBlockIo - r.iterNow) := hfile
  rw [hblock] at hfile'
  exact not_isDuration_of_wrap hpos (hsigned _ (by simp [DioRun.readings])) hsigned hfile'

/-- **In both programs, the stages logged for a direct I/O are true durations if it is not emitted without
    a block actor having run**; with positive readings below `clockLimit`, only then. -/
theorem trueDurations_iff_actor {cfg : DioConfig} {s : InfoState} {r : DioRun} {evs : List InfoProbe}
    (hfresh : s.dio.eventCache.lookupElem r.iocb = none) (hevs : evs.filterMap InfoProbe.dio = r.events)
    (hc : r.readings.Pairwise (· ≤ ·)) :
    (¬ (r.Emitted cfg s.dio ∧ r.actorNows = []) →
      SimpleDurations cfg s.dio r ∧ InfoDurations cfg s r evs) ∧
    (0 < r.iterNow → (∀ t ∈ r.readings, t.toNat < clockLimit) →
      SimpleDurations cfg s.dio r ∨ InfoDurations cfg s r evs →
      ¬ (r.Emitted cfg s.dio ∧ r.actorNows = [])) := by
  rw [simpleDurations_iff hfresh, infoDurations_iff hfresh hevs, and_self, or_self]
  constructor
  · intro h he
    exact trueDurations_of_actor hc (fun ha => h ⟨he, ha⟩)
  · rintro hpos hsigned h ⟨he, ha⟩
    exact not_trueDurations_of_no_actor ha hpos hsigned (h he)

/-! ## A read with and without an extent -/

/-- A read of process `7`, with one block actor for each of `actorNows`. -/
def readRun (actorNows : List TimeStramp) : DioRun where
  dir := .read
  task := ⟨7, 7, 1, none⟩
  doneTask := ⟨7, 7, 1, none⟩
  dio := 5
  iocb := 1
  inodeId := 100
  smallName := CharArray.zero 16
  size := 4096
  syncNow := 10
  iterNow := 20
  actorNows := actorNows
  doneNow := 60
  reserve := true

/-- The same read in the info tracer, with a request tracked after each actor. -/
def readProbes (actorNows : List TimeStramp) : List InfoProbe :=
  [.newSyncRead ⟨7, 7, 1, none⟩ 100 10, .ext4DioReadIter ⟨7, 7, 1, none⟩ 1 100 (CharArray.zero 16) 20] ++
    actorNows.flatMap (fun now =>
      [.iomapDioBioActor ⟨7, 7, 1, none⟩ 5 1 now, .rqQosTrack ⟨7, 7, 1, none⟩ 9 5 now]) ++
    [.kfree ⟨7, 7, 1, none⟩ 5 1 4096 60 (some 0)]

/-- Two extents: true durations in both programs. -/
theorem trueDurations_twoExtents :
    SimpleDurations .off .init (readRun [30, 30]) ∧
      InfoDurations .off .init (readRun [30, 30]) (readProbes [30, 30]) :=
  (trueDurations_iff_actor (s := .init) (BpfHash.lookupElem_empty _) (by decide) (by decide)).1
    (fun h => absurd h.2 (by decide))

/-- A read that only touches holes: neither program logs true durations. -/
theorem not_trueDurations_hole :
    ¬ SimpleDurations .off .init (readRun []) ∧
      ¬ InfoDurations .off .init (readRun []) (readProbes []) := by
  rw [simpleDurations_iff (BpfHash.lookupElem_empty _),
    infoDurations_iff (s := .init) (BpfHash.lookupElem_empty _) (by decide)]
  have hwraps : ¬ (readRun []).TrueDurations (.ofEvent (readRun []).record) :=
    not_trueDurations_of_no_actor rfl (by decide) (by simp [DioRun.readings, readRun, clockLimit])
  exact ⟨fun h => hwraps (h (by decide)), fun h => hwraps (h (by decide))⟩

end StorTrace.Ext4Dio
