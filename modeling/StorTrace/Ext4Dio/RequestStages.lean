import StorTrace.Ext4Dio.RqCache
import StorTrace.Ext4Dio.Module
import StorTrace.Lib.Duration

/-!
# `Ext4Dio.RequestStages` — are the logged stages of a request true durations?

One request is followed through the info tracer, from `__rq_qos_track` to `blk_account_io_done`. On its
way to the driver, `queue_rq` and `blk_mq_start_request` run for it any number of times, each in the task
that issued it or in a worker, and both probes are filtered by the task they run in, while the completion
probes are not. A request whose `queue_rq` or start only ran in rejected tasks keeps a zero for that time,
and the stage that subtracts from it or subtracts it is no duration.
-/

namespace StorTrace.Ext4Dio

/-! ## What the post-processor reads -/

/-- The stages of a row of `rq_info_event`, as `struct rq_info_event_log` has them. -/
structure RqStages where
  blockSched : UInt64
  nvmeExecute : UInt64
  scsiExecute : UInt64
  nvmeVerify : UInt64
  scsiVerify : UInt64
  accountIo : UInt64
deriving DecidableEq

def RqStages.ofRow (row : List UInt8) : RqStages :=
  ⟨wordAt row 2, wordAt row 3, wordAt row 4, wordAt row 5, wordAt row 6, wordAt row 7⟩

/-- The stages among the words of a row. -/
theorem RqStages.ofRow_wordsBytes (w₀ w₁ w₂ w₃ w₄ w₅ w₆ w₇ : UInt64) :
    RqStages.ofRow (wordsBytes [w₀, w₁, w₂, w₃, w₄, w₅, w₆, w₇]) = ⟨w₂, w₃, w₄, w₅, w₆, w₇⟩ := by
  have hword (k : Nat) (hk : k < 8) := wordAt_wordsBytes [w₀, w₁, w₂, w₃, w₄, w₅, w₆, w₇] k hk
  rw [RqStages.ofRow, hword 2 (by decide), hword 3 (by decide), hword 4 (by decide), hword 5 (by decide),
    hword 6 (by decide), hword 7 (by decide)]
  rfl

/-! ## One request -/

/-- One call on the way to the driver. -/
inductive SubmitStep where
  | queue (t : Task) (h : HctxFields) (now : TimeStramp) (reserve : Bool)
  | start (t : Task) (now : TimeStramp)
deriving DecidableEq

/-- The driver that takes and completes the request. -/
inductive DriverPath where
  | nvme
  | scsi
deriving DecidableEq

def DriverPath.drive : DriverPath → UInt32
  | .nvme => nvmeDrive
  | .scsi => scsiDrive

namespace SubmitStep

/-- The probe that fires. -/
def probe (path : DriverPath) (rq : Ptr) : SubmitStep → InfoProbe
  | queue t h now reserve =>
      match path with
      | .nvme => .nvmeQueueRq t rq h now reserve
      | .scsi => .scsiQueueRq t rq h now reserve
  | start t now => .blkMqStartRequest t rq now

def now : SubmitStep → TimeStramp
  | queue _ _ now _ => now
  | start _ now     => now

/-- The reading of an accepted `queue_rq`. -/
def queueReading (cfg : DioConfig) : SubmitStep → Option TimeStramp
  | queue t _ now _ => if passes cfg.filter t then some now else none
  | start _ _       => none

/-- The reading of an accepted `blk_mq_start_request`. -/
def startReading (cfg : DioConfig) : SubmitStep → Option TimeStramp
  | queue _ _ _ _ => none
  | start t now   => if passes cfg.filter t then some now else none

end SubmitStep

/-- What a step writes into the entry. -/
def RqInfoEvent.onSubmit (cfg : DioConfig) (v : RqInfoEvent) : SubmitStep → RqInfoEvent
  | .queue t _ now _ => if passes cfg.filter t then v.onQueueRq now else v
  | .start t now     => if passes cfg.filter t then v.onStartRequest now else v

/-- A request from `__rq_qos_track` to `blk_account_io_done`. -/
structure InfoRequestRun where
  task : Task
  rq : Ptr
  biPrivate : Ptr
  trackNow : TimeStramp
  steps : List SubmitStep
  path : DriverPath
  firstNow : TimeStramp
  secondNow : TimeStramp
  sector : UInt64
  hctxPtr : Ptr
  statsSectors : UInt16
  nrPhysSegments : UInt16
  accountNow : TimeStramp
  reserve : Bool
deriving DecidableEq

namespace InfoRequestRun

variable (r : InfoRequestRun)

def track : InfoProbe := .rqQosTrack r.task r.rq r.biPrivate r.trackNow

/-- The two completion probes of the driver. -/
def firstComplete : InfoProbe :=
  match r.path with
  | .nvme => .nvmePciCompleteRq r.rq r.firstNow
  | .scsi => .scsiSoftirqDone r.rq r.firstNow

def secondComplete : InfoProbe :=
  match r.path with
  | .nvme => .nvmeCompleteRq r.rq r.secondNow
  | .scsi => .scsiEndRequest r.rq r.secondNow

/-- The probes before the request is accounted for. -/
def before : List InfoProbe :=
  [r.track] ++ r.steps.map (SubmitStep.probe r.path r.rq) ++ [r.firstComplete, r.secondComplete]

def done : InfoProbe :=
  .blkAccountIoDone r.rq r.accountNow r.sector r.hctxPtr r.statsSectors r.nrPhysSegments r.reserve

def events : List InfoProbe := r.before ++ [r.done]

/-- The clock readings taken for the request, in order. -/
def readings : List TimeStramp :=
  [r.trackNow] ++ r.steps.map SubmitStep.now ++ [r.firstNow, r.secondNow, r.accountNow]

/-- The last readings the filters let through. -/
def lastQueue (cfg : DioConfig) : Option TimeStramp := (r.steps.filterMap (SubmitStep.queueReading cfg)).getLast?

def lastStart (cfg : DioConfig) : Option TimeStramp := (r.steps.filterMap (SubmitStep.startReading cfg)).getLast?

/-- Some `queue_rq` and some `blk_mq_start_request` of the request ran in a task the filters accept. -/
def Stamped (cfg : DioConfig) : Prop := r.lastQueue cfg ≠ none ∧ r.lastStart cfg ≠ none

/-- The request is traced and its record reaches the ring buffer. -/
def Emitted (cfg : DioConfig) (s : InfoState) : Prop :=
  (passes cfg.filter r.task = true ∧ s.dioFilter.lookupElem r.biPrivate ≠ none ∧ s.rqCache.HasRoom) ∧
    r.reserve = true

instance (cfg : DioConfig) : Decidable (r.Stamped cfg) := inferInstanceAs (Decidable (_ ∧ _))

instance (cfg : DioConfig) (s : InfoState) : Decidable (r.Emitted cfg s) :=
  inferInstanceAs (Decidable ((_ ∧ _ ∧ _) ∧ _))

/-- The entry when the request is accounted for. -/
def entry (cfg : DioConfig) (dioUid : UInt64) : RqInfoEvent :=
  ((r.steps.foldl (RqInfoEvent.onSubmit cfg) (newRqInfo dioUid r.rq r.trackNow)).onFirstComplete
    r.path.drive r.firstNow).onSecondComplete r.secondNow

/-- The record of the run. -/
def log (cfg : DioConfig) (dioUid : UInt64) : RqInfoEvent :=
  (r.entry cfg dioUid).onAccountIoDone r.accountNow r.sector r.hctxPtr r.statsSectors r.nrPhysSegments

end InfoRequestRun

/-! ## What the steps leave in the entry -/

section Submit

variable {cfg : DioConfig}

/-- An accepted reading is the reading of a step. -/
theorem SubmitStep.mem_now_of_reading {steps : List SubmitStep} {t : TimeStramp}
    (h : t ∈ steps.filterMap (queueReading cfg) ∨ t ∈ steps.filterMap (startReading cfg)) :
    t ∈ steps.map SubmitStep.now := by
  rcases h with h | h
  · obtain ⟨x, hx, hr⟩ := List.mem_filterMap.mp h
    refine List.mem_map.mpr ⟨x, hx, ?_⟩
    cases x with
    | queue u f now reserve => simp [queueReading] at hr; exact hr.2
    | start u now => exact absurd hr (by simp [queueReading])
  · obtain ⟨x, hx, hr⟩ := List.mem_filterMap.mp h
    refine List.mem_map.mpr ⟨x, hx, ?_⟩
    cases x with
    | queue u f now reserve => exact absurd hr (by simp [startReading])
    | start u now => simp [startReading] at hr; exact hr.2

/-- The steps leave the submission time alone. -/
theorem foldl_onSubmit_rqBioStart (steps : List SubmitStep) (v : RqInfoEvent) :
    (steps.foldl (RqInfoEvent.onSubmit cfg) v).rqBioStart = v.rqBioStart := by
  induction steps generalizing v with
  | nil => rfl
  | cons x rest ih =>
      have hx : (v.onSubmit cfg x).rqBioStart = v.rqBioStart := by
        cases x with
        | queue t h now reserve => simp only [RqInfoEvent.onSubmit]; split <;> rfl
        | start t now => simp only [RqInfoEvent.onSubmit]; split <;> rfl
      exact (ih (v.onSubmit cfg x)).trans hx

/-- `queue_rq` is that of the last accepted call, `rq_start` that of the last accepted start. -/
theorem foldl_onSubmit_times (steps : List SubmitStep) (v : RqInfoEvent) :
    (steps.foldl (RqInfoEvent.onSubmit cfg) v).queueRq =
        ((steps.filterMap (SubmitStep.queueReading cfg)).getLast?).getD v.queueRq ∧
      (steps.foldl (RqInfoEvent.onSubmit cfg) v).rqComp.rqStart =
        ((steps.filterMap (SubmitStep.startReading cfg)).getLast?).getD v.rqComp.rqStart := by
  induction steps using List.reverseRecOn with
  | nil => exact ⟨rfl, rfl⟩
  | append_singleton rest x ih =>
      obtain ⟨hq, hs⟩ := ih
      rw [List.foldl_append, List.foldl_cons, List.foldl_nil, List.filterMap_append, List.filterMap_append]
      cases x with
      | queue t h now reserve =>
          by_cases hp : passes cfg.filter t = true
          · constructor
            · simp [RqInfoEvent.onSubmit, SubmitStep.queueReading, hp, RqInfoEvent.onQueueRq]
            · simpa [RqInfoEvent.onSubmit, SubmitStep.startReading, hp, RqInfoEvent.onQueueRq] using hs
          · constructor
            · simpa [RqInfoEvent.onSubmit, SubmitStep.queueReading, hp] using hq
            · simpa [RqInfoEvent.onSubmit, SubmitStep.startReading, hp] using hs
      | start t now =>
          by_cases hp : passes cfg.filter t = true
          · constructor
            · simpa [RqInfoEvent.onSubmit, SubmitStep.queueReading, hp, RqInfoEvent.onStartRequest] using hq
            · simp [RqInfoEvent.onSubmit, SubmitStep.startReading, hp, RqInfoEvent.onStartRequest]
          · constructor
            · simpa [RqInfoEvent.onSubmit, SubmitStep.queueReading, hp] using hq
            · simpa [RqInfoEvent.onSubmit, SubmitStep.startReading, hp] using hs

end Submit

/-! ## What the tracer emits for the request -/

/-- The state after the probes `evs`. -/
def afterInfo (cfg : DioConfig) (s : InfoState) (evs : List InfoProbe) : InfoState :=
  evs.foldl (fun s e => (infoStep cfg s e).1) s

namespace InfoRequestRun

variable {cfg : DioConfig} {s : InfoState} {r : InfoRequestRun}

/-- A step rewrites the entry of its request if it is accepted. -/
theorem lookup_submit (s : InfoState) (x : SubmitStep) :
    (infoStep cfg s (x.probe r.path r.rq)).1.rqCache.lookupElem r.rq =
      (s.rqCache.lookupElem r.rq).map (·.onSubmit cfg x) := by
  rw [infoStep_rqCache]
  cases x with
  | queue t h now reserve =>
      unfold SubmitStep.probe
      cases r.path <;> by_cases hp : passes cfg.filter t = true <;> simp [infoRqAct, RqInfoEvent.onSubmit, hp]
  | start t now =>
      by_cases hp : passes cfg.filter t = true <;> simp [SubmitStep.probe, infoRqAct, RqInfoEvent.onSubmit, hp]

theorem lookup_steps (s : InfoState) (steps : List SubmitStep) :
    (afterInfo cfg s (steps.map (SubmitStep.probe r.path r.rq))).rqCache.lookupElem r.rq =
      (s.rqCache.lookupElem r.rq).map (fun v => steps.foldl (RqInfoEvent.onSubmit cfg) v) := by
  induction steps generalizing s with
  | nil => simp [afterInfo]
  | cons x rest ih =>
      have hrest := ih (infoStep cfg s (x.probe r.path r.rq)).1
      rw [List.map_cons, afterInfo, List.foldl_cons, ← afterInfo, hrest, lookup_submit, Option.map_map]
      rfl

/-- The completion probes are not filtered. -/
theorem lookup_completions (s : InfoState) :
    (afterInfo cfg s [r.firstComplete, r.secondComplete]).rqCache.lookupElem r.rq =
      (s.rqCache.lookupElem r.rq).map
        (fun v => (v.onFirstComplete r.path.drive r.firstNow).onSecondComplete r.secondNow) := by
  show (infoStep cfg (infoStep cfg s r.firstComplete).1 r.secondComplete).1.rqCache.lookupElem r.rq = _
  rw [infoStep_rqCache, infoStep_rqCache]
  unfold firstComplete secondComplete
  cases r.path <;> simp [infoRqAct, DriverPath.drive, Option.map_map, Function.comp_def]

/-- The entry of a request that starts without one. -/
theorem lookup_before (hfresh : s.rqCache.lookupElem r.rq = none) :
    (afterInfo cfg s r.before).rqCache.lookupElem r.rq =
      if passes cfg.filter r.task = true ∧ s.rqCache.HasRoom then
        (s.dioFilter.lookupElem r.biPrivate).map (r.entry cfg)
      else none := by
  have hrec : s.rqCache.recycleElem r.rq = s.rqCache := by simp [BpfHash.recycleElem, hfresh]
  have htrack : (infoStep cfg s r.track).1.rqCache.lookupElem r.rq =
      if passes cfg.filter r.task = true ∧ s.rqCache.HasRoom then
        (s.dioFilter.lookupElem r.biPrivate).map (fun uid => newRqInfo uid r.rq r.trackNow)
      else none := by
    rw [infoStep_rqCache, hfresh]
    simp only [track, infoRqAct, hrec, CacheAction.onKey_self]
    by_cases hp : passes cfg.filter r.task = true <;> by_cases hr : s.rqCache.HasRoom <;>
      cases s.dioFilter.lookupElem r.biPrivate <;> simp [hp, hr]
  rw [before, afterInfo, List.foldl_append, List.foldl_append, ← afterInfo, lookup_completions, ← afterInfo,
    lookup_steps]
  show (((infoStep cfg s r.track).1.rqCache.lookupElem r.rq).map _).map _ = _
  rw [htrack]
  split
  · cases s.dioFilter.lookupElem r.biPrivate <;> rfl
  · rfl

/-- **The request records of the run**: one if the request is traced and its record reserved. -/
theorem mem_emitFrom_events (hfresh : s.rqCache.lookupElem r.rq = none) {log : RqInfoEvent} :
    .rqInfo log ∈ (infoTracer cfg).emitFrom s r.events ↔
      r.Emitted cfg s ∧ ∃ uid, s.dioFilter.lookupElem r.biPrivate = some uid ∧ log = r.log cfg uid := by
  -- only the last probe sends request records
  have hquiet : .rqInfo log ∉ (infoTracer cfg).emitFrom s r.before := by
    intro hmem
    obtain ⟨s', e, he, hsent⟩ := Machine.exists_of_mem_emitFrom _ hmem
    cases mem_infoStep_iff.mp hsent with
    | rqInfo hu =>
        simp only [before, List.mem_append, List.mem_cons, List.not_mem_nil, or_false, List.mem_map] at he
        rcases he with (he | ⟨x, -, he⟩) | he | he
        · exact absurd he (by simp [track])
        · cases x with
          | queue t h now reserve => exact absurd he (by unfold SubmitStep.probe; cases r.path <;> simp)
          | start t now => exact absurd he (by simp [SubmitStep.probe])
        · exact absurd he (by unfold firstComplete; cases r.path <;> simp)
        · exact absurd he (by unfold secondComplete; cases r.path <;> simp)
  rw [events, Machine.emitFrom_append, List.mem_append, or_iff_right hquiet]
  show _ ∈ (infoStep cfg (afterInfo cfg s r.before) r.done).2 ++ [] ↔ _
  rw [List.append_nil]
  have hl : (afterInfo cfg s r.before).rqCache.lookupElem r.rq = _ := lookup_before hfresh
  constructor
  · intro hsent
    generalize hd : r.done = e at hsent
    cases mem_infoStep_iff.mp hsent with
    | rqInfo hu =>
        obtain ⟨rfl, rfl, rfl, rfl, rfl, rfl, hres⟩ := InfoProbe.blkAccountIoDone.inj hd
        rw [hl] at hu
        by_cases hp : passes cfg.filter r.task = true ∧ s.rqCache.HasRoom
        · rw [if_pos hp] at hu
          obtain ⟨uid, huid, rfl⟩ := Option.map_eq_some_iff.mp hu
          exact ⟨⟨⟨hp.1, by simp [huid], hp.2⟩, hres⟩, uid, huid, rfl⟩
        · rw [if_neg hp] at hu
          exact absurd hu (by simp)
  · rintro ⟨⟨⟨hp, -, hroom⟩, hres⟩, uid, huid, rfl⟩
    rw [if_pos ⟨hp, hroom⟩, huid, Option.map_some] at hl
    rw [done, hres]
    exact mem_infoStep_iff.mpr (.rqInfo hl)

end InfoRequestRun

/-! ## The logged stages -/

/-- The stages of a row are durations between readings of the run, and those of the other driver are
    zero. -/
def InfoRequestRun.TrueStages (r : InfoRequestRun) (row : RqStages) : Prop :=
  IsDuration r.readings row.blockSched ∧ IsDuration r.readings row.accountIo ∧
    match r.path with
    | .nvme => (IsDuration r.readings row.nvmeExecute ∧ IsDuration r.readings row.nvmeVerify) ∧
        row.scsiExecute = 0 ∧ row.scsiVerify = 0
    | .scsi => (IsDuration r.readings row.scsiExecute ∧ IsDuration r.readings row.scsiVerify) ∧
        row.nvmeExecute = 0 ∧ row.nvmeVerify = 0

/-- **Every row `do_event` writes for the request has true stages.** -/
def RequestStagesTrue (cfg : DioConfig) (s : InfoState) (r : InfoRequestRun) : Prop :=
  ∀ log, .rqInfo log ∈ (infoTracer cfg).emitFrom s r.events → ∀ (m m' : Info.InfoModule) (call : CommitCall),
    Info.doEventRq m log = .ok m' → m'.commits = m.commits ++ [call] → r.TrueStages (.ofRow call.row)

section Logged

variable {cfg : DioConfig} {r : InfoRequestRun}

/-- The times of the record: those of the last accepted calls, or zero. -/
theorem InfoRequestRun.log_times (r : InfoRequestRun) (cfg : DioConfig) (uid : UInt64) :
    (r.log cfg uid).rqBioStart = r.trackNow ∧ (r.log cfg uid).queueRq = (r.lastQueue cfg).getD 0 ∧
      (r.log cfg uid).rqComp.rqStart = (r.lastStart cfg).getD 0 := by
  obtain ⟨hqueue, hstart⟩ := @foldl_onSubmit_times cfg r.steps (newRqInfo uid r.rq r.trackNow)
  exact ⟨foldl_onSubmit_rqBioStart r.steps (newRqInfo uid r.rq r.trackNow), hqueue, hstart⟩

/-- **The row of the record**: the stages between consecutive times, in the columns of the driver. -/
theorem InfoRequestRun.row_doEventRq {uid : UInt64} {m m' : Info.InfoModule} {call : CommitCall}
    (h : Info.doEventRq m (r.log cfg uid) = .ok m') (hc : m'.commits = m.commits ++ [call]) :
    RqStages.ofRow call.row =
      match r.path with
      | .nvme => ⟨(r.lastQueue cfg).getD 0 - r.trackNow, r.firstNow - (r.lastStart cfg).getD 0, 0,
          r.secondNow - r.firstNow, 0, r.accountNow - r.secondNow⟩
      | .scsi => ⟨(r.lastQueue cfg).getD 0 - r.trackNow, 0, r.firstNow - (r.lastStart cfg).getD 0, 0,
          r.secondNow - r.firstNow, r.accountNow - r.secondNow⟩ := by
  obtain ⟨htrack, hqueue, hstart⟩ := r.log_times cfg uid
  obtain ⟨d, hd, hm⟩ := bind_eq_ok.mp h
  rw [← Except.ok.inj hm] at hc
  have hcall : call = commitWords Info.formats "rq_info_event" d :=
    (List.singleton_inj.mp (List.append_cancel_left hc)).symm
  have hdrive : (r.log cfg uid).rqComp.drive = r.path.drive := rfl
  unfold Info.rqWords at hd
  rw [hdrive, htrack, hqueue, hstart] at hd
  -- the driver decides which columns are filled
  cases hp : r.path with
  | nvme =>
      rw [hp] at hd
      obtain rfl := Except.ok.inj hd
      rw [hcall, commitWords_row rfl]
      exact RqStages.ofRow_wordsBytes ..
  | scsi =>
      rw [hp] at hd
      obtain rfl := Except.ok.inj hd
      rw [hcall, commitWords_row rfl]
      exact RqStages.ofRow_wordsBytes ..

/-- The stages of the record of a run. -/
def InfoRequestRun.StagesOfLog (r : InfoRequestRun) (cfg : DioConfig) : Prop :=
  IsDuration r.readings ((r.lastQueue cfg).getD 0 - r.trackNow) ∧
    IsDuration r.readings (r.firstNow - (r.lastStart cfg).getD 0) ∧
    IsDuration r.readings (r.secondNow - r.firstNow) ∧ IsDuration r.readings (r.accountNow - r.secondNow)

/-- A run is judged by its record, if it emits one. -/
theorem requestStagesTrue_iff {s : InfoState} (hfresh : s.rqCache.lookupElem r.rq = none) :
    RequestStagesTrue cfg s r ↔ (r.Emitted cfg s → r.StagesOfLog cfg) := by
  constructor
  · intro h he
    obtain ⟨uid, huid⟩ := Option.ne_none_iff_exists'.mp he.1.2.1
    have hmem := (InfoRequestRun.mem_emitFrom_events hfresh).mpr ⟨he, uid, huid, rfl⟩
    -- the row can be logged: the drive of the record is known
    have hwords : ∃ d, Info.rqWords (r.log cfg uid) = .ok d := by
      have hdrive : (r.log cfg uid).rqComp.drive = r.path.drive := rfl
      unfold Info.rqWords
      rw [hdrive]
      cases r.path <;> exact ⟨_, rfl⟩
    obtain ⟨d, hd⟩ := hwords
    let m := Info.InfoModule.new 0 0
    have hm : Info.doEventRq m (r.log cfg uid) = .ok _ := bind_eq_ok.mpr ⟨d, hd, rfl⟩
    have htrue := h _ hmem m _ _ hm rfl
    rw [InfoRequestRun.TrueStages, InfoRequestRun.row_doEventRq hm rfl] at htrue
    unfold InfoRequestRun.StagesOfLog
    cases hp : r.path with
    | nvme =>
        rw [hp] at htrue
        obtain ⟨hsched, haccount, ⟨hexec, hverify⟩, -, -⟩ := htrue
        exact ⟨hsched, hexec, hverify, haccount⟩
    | scsi =>
        rw [hp] at htrue
        obtain ⟨hsched, haccount, ⟨hexec, hverify⟩, -, -⟩ := htrue
        exact ⟨hsched, hexec, hverify, haccount⟩
  · intro h log hlog m m' call hm hc
    obtain ⟨he, uid, -, rfl⟩ := (InfoRequestRun.mem_emitFrom_events hfresh).mp hlog
    obtain ⟨hsched, hexec, hverify, haccount⟩ := h he
    rw [InfoRequestRun.TrueStages, InfoRequestRun.row_doEventRq hm hc]
    cases r.path with
    | nvme => exact ⟨hsched, haccount, ⟨hexec, hverify⟩, rfl, rfl⟩
    | scsi => exact ⟨hsched, haccount, ⟨hexec, hverify⟩, rfl, rfl⟩

end Logged

/-! ## With and without accepted calls -/

section Stamped

variable {cfg : DioConfig} {r : InfoRequestRun}

/-- The order of the readings. -/
theorem InfoRequestRun.readings_order (hc : r.readings.Pairwise (· ≤ ·)) :
    (∀ t ∈ r.steps.map SubmitStep.now, r.trackNow ≤ t ∧ t ≤ r.firstNow) ∧ r.firstNow ≤ r.secondNow ∧
      r.secondNow ≤ r.accountNow := by
  rw [InfoRequestRun.readings, List.append_assoc] at hc
  obtain ⟨-, hrest, htrack⟩ := List.pairwise_append.mp hc
  obtain ⟨-, hend, hfirst⟩ := List.pairwise_append.mp hrest
  refine ⟨?_, ?_, ?_⟩
  · intro t ht
    exact ⟨htrack _ (by simp) t (List.mem_append_left _ ht), hfirst t ht _ (by simp)⟩
  · exact (List.pairwise_cons.mp hend).1 _ (by simp)
  · exact (List.pairwise_cons.mp (List.pairwise_cons.mp hend).2).1 _ (by simp)

/-- With an accepted `queue_rq` and an accepted start, the stages are gaps between readings. -/
theorem InfoRequestRun.stages_of_stamped (hc : r.readings.Pairwise (· ≤ ·)) (h : r.Stamped cfg) :
    r.StagesOfLog cfg := by
  obtain ⟨hsteps, hsecond, haccount⟩ := r.readings_order hc
  obtain ⟨q, hq⟩ := Option.ne_none_iff_exists'.mp h.1
  obtain ⟨t, ht⟩ := Option.ne_none_iff_exists'.mp h.2
  have hqmem : q ∈ r.steps.map SubmitStep.now :=
    SubmitStep.mem_now_of_reading (Or.inl (List.mem_of_getLast? hq))
  have htmem : t ∈ r.steps.map SubmitStep.now :=
    SubmitStep.mem_now_of_reading (Or.inr (List.mem_of_getLast? ht))
  have hmem {x : TimeStramp} (hx : x ∈ r.steps.map SubmitStep.now) : x ∈ r.readings := by
    rw [InfoRequestRun.readings]
    exact List.mem_append_left _ (List.mem_append_right _ hx)
  have htrack : r.trackNow ∈ r.readings := by simp [InfoRequestRun.readings]
  have hfirst : r.firstNow ∈ r.readings := by simp [InfoRequestRun.readings]
  have hsecondMem : r.secondNow ∈ r.readings := by simp [InfoRequestRun.readings]
  have haccountMem : r.accountNow ∈ r.readings := by simp [InfoRequestRun.readings]
  unfold InfoRequestRun.StagesOfLog
  rw [hq, ht, Option.getD_some, Option.getD_some]
  exact ⟨isDuration_sub htrack (hmem hqmem) (hsteps q hqmem).1, isDuration_sub (hmem htmem) hfirst (hsteps t htmem).2,
    isDuration_sub hfirst hsecondMem hsecond, isDuration_sub hsecondMem haccountMem haccount⟩

/-- A reading that is later than the request took is no duration of the request. -/
theorem InfoRequestRun.not_isDuration_of_late (hc : r.readings.Pairwise (· ≤ ·)) {v : TimeStramp}
    (hv : r.accountNow - r.trackNow < v) : ¬ IsDuration r.readings v := by
  rintro ⟨a, ha, b, hb, hab, rfl⟩
  have hlow : ∀ x ∈ r.readings, r.trackNow ≤ x := by
    intro x hx
    rw [InfoRequestRun.readings, List.append_assoc, List.singleton_append] at hx hc
    rcases List.mem_cons.mp hx with rfl | hx
    · exact UInt64.le_refl _
    · exact (List.pairwise_cons.mp hc).1 x hx
  have hhigh : ∀ x ∈ r.readings, x ≤ r.accountNow := by
    intro x hx
    have hlast : r.readings = ([r.trackNow] ++ r.steps.map SubmitStep.now ++ [r.firstNow, r.secondNow]) ++
        [r.accountNow] := by simp [InfoRequestRun.readings]
    rw [hlast] at hx hc
    rcases List.mem_append.mp hx with hx | hx
    · exact (List.pairwise_append.mp hc).2.2 x hx _ (by simp)
    · rw [List.mem_singleton.mp hx]
      exact UInt64.le_refl _
  have hlowa := UInt64.le_iff_toNat_le.mp (hlow a ha)
  have hhighb := UInt64.le_iff_toNat_le.mp (hhigh b hb)
  have hle := UInt64.le_iff_toNat_le.mp hab
  have hspan : r.trackNow ≤ r.accountNow := hlow _ (by simp [InfoRequestRun.readings])
  have hlt := UInt64.lt_iff_toNat_lt.mp hv
  rw [UInt64.toNat_sub_of_le _ _ hspan, UInt64.toNat_sub_of_le _ _ hab] at hlt
  omega

/-- Without an accepted `queue_rq` the first stage wraps; without an accepted start the second is the
    clock reading itself. -/
theorem InfoRequestRun.stamped_of_stages (hc : r.readings.Pairwise (· ≤ ·)) (hpos : 0 < r.trackNow)
    (hsigned : ∀ t ∈ r.readings, t.toNat < clockLimit) (hlate : r.accountNow - r.trackNow < r.firstNow)
    (h : r.StagesOfLog cfg) : r.Stamped cfg := by
  obtain ⟨hsched, hexec, -, -⟩ := h
  constructor
  · intro hnone
    rw [hnone] at hsched
    exact not_isDuration_of_wrap hpos (hsigned _ (by simp [InfoRequestRun.readings])) hsigned hsched
  · intro hnone
    rw [hnone, Option.getD_none, UInt64.sub_zero] at hexec
    exact InfoRequestRun.not_isDuration_of_late hc hlate hexec

/-- **The stages logged for a request are true durations if a `queue_rq` and a start of it ran in tasks the
    filters accept**; with positive readings below `clockLimit`, and a request that took less time than the
    clock shows when it completes, only then. -/
theorem requestStagesTrue_iff_stamped {s : InfoState} (hfresh : s.rqCache.lookupElem r.rq = none)
    (hc : r.readings.Pairwise (· ≤ ·)) :
    ((r.Emitted cfg s → r.Stamped cfg) → RequestStagesTrue cfg s r) ∧
      (0 < r.trackNow → (∀ t ∈ r.readings, t.toNat < clockLimit) →
        r.accountNow - r.trackNow < r.firstNow → RequestStagesTrue cfg s r →
        r.Emitted cfg s → r.Stamped cfg) := by
  rw [requestStagesTrue_iff hfresh]
  constructor
  · intro h he
    exact InfoRequestRun.stages_of_stamped hc (h he)
  · intro hpos hsigned hlate h he
    exact InfoRequestRun.stamped_of_stages hc hpos hsigned hlate (h he)

end Stamped

/-! ## A request with its driver calls in the task or in a worker -/

/-- `"db"`. -/
def dbComm : CharArray 16 := ⟨[100, 98, 0, 0, 0, 0, 0, 0, 0, 0, 0, 0, 0, 0, 0, 0], rfl⟩

/-- `"kworker"`. -/
def kworkerComm : CharArray 16 := ⟨[107, 119, 111, 114, 107, 101, 114, 0, 0, 0, 0, 0, 0, 0, 0, 0], rfl⟩

/-- Only tasks named `"db"` are traced. -/
def onlyDb : DioConfig :=
  { DioConfig.off with filter := { FilterConfig.off with usingCommonFilter := true, tcommonName := dbComm } }

/-- A request of a task named `"db"` on an `nvme` queue; its `queue_rq` and start run in `t`. -/
def requestIn (t : Task) : InfoRequestRun where
  task := ⟨7, 7, 1, some dbComm⟩
  rq := 2
  biPrivate := 5
  trackNow := 1020
  steps := [.queue t ⟨9, 0, 0, 0, 0, CharArray.zero 32⟩ 1030 true, .start t 1035]
  path := .nvme
  firstNow := 1040
  secondNow := 1050
  sector := 0
  hctxPtr := 9
  statsSectors := 8
  nrPhysSegments := 1
  accountNow := 1060
  reserve := true

/-- The state in which the request is tracked: its `iomap_dio` is registered. -/
def registered : InfoState := { InfoState.init with dioFilter := ((BpfHash.empty).updateElem 5 1000 .any).1 }

/-- In the selected task the stages are true durations. -/
theorem requestStagesTrue_ownTask : RequestStagesTrue onlyDb registered (requestIn ⟨7, 7, 1, some dbComm⟩) :=
  (requestStagesTrue_iff_stamped (BpfHash.lookupElem_empty _) (by decide)).1 (by decide)

/-- A worker puts the request into the queue and starts it: the stages are not. -/
theorem not_requestStagesTrue_worker :
    ¬ RequestStagesTrue onlyDb registered (requestIn ⟨2, 2, 1, some kworkerComm⟩) := by
  rw [requestStagesTrue_iff (BpfHash.lookupElem_empty _)]
  intro h
  have hsigned : ∀ t ∈ (requestIn ⟨2, 2, 1, some kworkerComm⟩).readings, t.toNat < clockLimit := by
    simp [InfoRequestRun.readings, requestIn, SubmitStep.now, clockLimit]
  have hstamped := InfoRequestRun.stamped_of_stages (by decide) (by decide) hsigned (by decide) (h (by decide))
  exact absurd hstamped (by decide)

end StorTrace.Ext4Dio
