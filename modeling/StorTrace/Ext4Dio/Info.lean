import StorTrace.Ext4Dio.Simple

/-!
# `Ext4Dio.Info` — the kernel side of the info tracer (`ext4_dio_info.bpf.c`)

On top of the simple tracer's stages the info tracer follows the block requests of a direct I/O.
`iomap_dio_bio_actor` registers the `iomap_dio` in `dio_filter` under a unique id, its clock reading;
`__rq_qos_track` looks up the owner of a request there and opens an entry in `rq_cache`. The direct I/O
ends when `kfree` is called on an object whose first word is a traced kiocb.
-/

namespace StorTrace.Ext4Dio

/-- The state of the simple part and the two further maps. -/
structure InfoState where
  dio : DioState
  dioFilter : BpfHash Ptr UInt64 256
  rqCache : BpfHash Ptr RqInfoEvent 512

/-- The state the program is loaded with. -/
def InfoState.init : InfoState := ⟨.init, .empty, .empty⟩

/-- What `queue_rq` reads from the hardware queue and the request's disk. -/
structure HctxFields where
  hctx : Ptr
  run : UInt64
  queued : UInt64
  numaNode : Int16
  queueNum : Int16
  diskName : CharArray 32
deriving DecidableEq

namespace RqInfoEvent

variable (log : RqInfoEvent)

def onQueueRq (now : TimeStramp) : RqInfoEvent := { log with queueRq := now }

def onStartRequest (now : TimeStramp) : RqInfoEvent :=
  { log with rqComp := { log.rqComp with rqStart := now } }

/-- A first completion probe: the first word of the union, and the drive. -/
def onFirstComplete (drive : UInt32) (now : TimeStramp) : RqInfoEvent :=
  { log with rqComp :=
      { log.rqComp with path := { log.rqComp.path with word0 := now }, drive := drive } }

/-- A second completion probe: the second word of the union. -/
def onSecondComplete (now : TimeStramp) : RqInfoEvent :=
  { log with rqComp := { log.rqComp with path := { log.rqComp.path with word1 := now } } }

def onAccountIoDone (now : TimeStramp) (sector : UInt64) (hctxPtr : Ptr)
    (statsSectors nrPhysSegments : UInt16) : RqInfoEvent :=
  { log with rqComp :=
      { log.rqComp with
        accountIo := now, sector := sector, hctxPtr := hctxPtr, statsSectors := statsSectors
        nrPhysSegments := nrPhysSegments } }

end RqInfoEvent

/-- The entry `kp__rq_qos_track` fills on its stack. -/
def newRqInfo (dioUid : UInt64) (rq : Ptr) (now : TimeStramp) : RqInfoEvent :=
  { RqInfoEvent.zero with dioUid := dioUid, rqPtr := rq, rqBioStart := now }

section Handlers

variable (cfg : DioConfig) (s : InfoState)

/-- Look up `rq` in `rq_cache` and write through the returned pointer. -/
def InfoState.touch (rq : Ptr) (f : RqInfoEvent → RqInfoEvent) : InfoState :=
  { s with rqCache := s.rqCache.modifyElem rq f }

/-- The simple part, and the registration of the dio under its id. -/
def kpIomapDioBioActorInfo (t : Task) (dio iocb : Ptr) (now : TimeStramp) : InfoState :=
  if passes cfg.filter t then
    match s.dio.eventCache.lookupElem iocb with
    | some _ =>
        -- the stamp of the stage is at once the id of the dio
        { s with
          dio := { s.dio with
            eventCache := s.dio.eventCache.modifyElem iocb (fun v => { v with startBlockIo := now }) }
          dioFilter := (s.dioFilter.updateElem dio now .any).1 }
    | none => s
  else s

/-- `kfree(obj)`, where `iocb` and `size` are what the probe reads from `obj` as if it were an
    `iomap_dio`. `slot` is the record `bpf_ringbuf_reserve` returned, as the bytes its `dio_uid` field
    happens to hold (`none` when the reservation fails). -/
def kpKfree (t : Task) (obj iocb : Ptr) (size : Int64) (now : TimeStramp) (slot : Option UInt64) :
    InfoState × List InfoRecord :=
  if passes cfg.filter t then
    match s.dio.eventCache.lookupElem iocb with
    | some v =>
        let dio := { s.dio with eventCache := s.dio.eventCache.deleteElem iocb }
        match slot with
        | some uninit =>
            -- a failed lookup leaves the field as it was reserved
            let dioUid := (s.dioFilter.lookupElem obj).getD uninit
            ({ s with dio := dio, dioFilter := s.dioFilter.deleteElem obj },
              [.dioInfo ⟨dioUid, v.onComplete t size now⟩])
        -- without a record the entry of the kiocb goes, the registration stays
        | none => ({ s with dio := dio }, [])
    | none => (s, [])
  else (s, [])

def kpRqQosTrackInfo (t : Task) (rq biPrivate : Ptr) (now : TimeStramp) : InfoState :=
  if passes cfg.filter t then
    -- an entry still there belongs to a request that never reached its completion
    let cache := s.rqCache.recycleElem rq
    match s.dioFilter.lookupElem biPrivate with
    | some dioUid =>
        { s with rqCache := (cache.updateElem rq (newRqInfo dioUid rq now) .noexist).1 }
    -- the bio belongs to no registered dio
    | none => { s with rqCache := cache }
  else s

/-- The common body of the two `queue_rq` probes. -/
def queueRqInfo (t : Task) (rq : Ptr) (h : HctxFields) (now : TimeStramp) (reserve : Bool) :
    InfoState × List InfoRecord :=
  if passes cfg.filter t then
    match s.rqCache.lookupElem rq with
    | some _ =>
        (s.touch rq (·.onQueueRq now),
          if reserve then
            [.hctx ⟨h.hctx, now, h.run, h.queued, h.numaNode, h.queueNum, h.diskName⟩]
          else [])
    | none => (s, [])
  else (s, [])

def kpNvmeQueueRqInfo (t : Task) (rq : Ptr) (h : HctxFields) (now : TimeStramp) (reserve : Bool) :
    InfoState × List InfoRecord :=
  queueRqInfo cfg s t rq h now reserve

def kpScsiQueueRqInfo (t : Task) (rq : Ptr) (h : HctxFields) (now : TimeStramp) (reserve : Bool) :
    InfoState × List InfoRecord :=
  queueRqInfo cfg s t rq h now reserve

def kpBlkMqStartRequest (t : Task) (rq : Ptr) (now : TimeStramp) : InfoState :=
  if passes cfg.filter t then s.touch rq (·.onStartRequest now) else s

def kpScsiSoftirqDone (rq : Ptr) (now : TimeStramp) : InfoState :=
  s.touch rq (·.onFirstComplete scsiDrive now)

def kpScsiEndRequestInfo (rq : Ptr) (now : TimeStramp) : InfoState := s.touch rq (·.onSecondComplete now)

def kpNvmePciCompleteRq (rq : Ptr) (now : TimeStramp) : InfoState :=
  s.touch rq (·.onFirstComplete nvmeDrive now)

def kpNvmeCompleteRqInfo (rq : Ptr) (now : TimeStramp) : InfoState := s.touch rq (·.onSecondComplete now)

def kpBlkAccountIoDoneInfo (rq : Ptr) (now : TimeStramp) (sector : UInt64) (hctxPtr : Ptr)
    (statsSectors nrPhysSegments : UInt16) (reserve : Bool) : InfoState × List InfoRecord :=
  match s.rqCache.lookupElem rq with
  | some log =>
      -- the entry itself is written before the record is reserved
      let log := log.onAccountIoDone now sector hctxPtr statsSectors nrPhysSegments
      let s := s.touch rq (·.onAccountIoDone now sector hctxPtr statsSectors nrPhysSegments)
      if reserve then ({ s with rqCache := s.rqCache.deleteElem rq }, [.rqInfo log])
      -- without a record the entry stays in the map
      else (s, [])
  | none => (s, [])

end Handlers

/-- A probe of the info program firing. -/
inductive InfoProbe where
  | newSyncWrite (t : Task) (inodeId : UInt64) (now : TimeStramp)
  | newSyncRead (t : Task) (inodeId : UInt64) (now : TimeStramp)
  | ext4DioWriteIter (t : Task) (iocb : Ptr) (inodeId : UInt64) (smallName : CharArray 16)
      (now : TimeStramp)
  | ext4DioReadIter (t : Task) (iocb : Ptr) (inodeId : UInt64) (smallName : CharArray 16)
      (now : TimeStramp)
  | iomapDioBioActor (t : Task) (dio iocb : Ptr) (now : TimeStramp)
  | kfree (t : Task) (obj iocb : Ptr) (size : Int64) (now : TimeStramp) (slot : Option UInt64)
  | rqQosTrack (t : Task) (rq biPrivate : Ptr) (now : TimeStramp)
  | nvmeQueueRq (t : Task) (rq : Ptr) (h : HctxFields) (now : TimeStramp) (reserve : Bool)
  | scsiQueueRq (t : Task) (rq : Ptr) (h : HctxFields) (now : TimeStramp) (reserve : Bool)
  | blkMqStartRequest (t : Task) (rq : Ptr) (now : TimeStramp)
  | scsiSoftirqDone (rq : Ptr) (now : TimeStramp)
  | scsiEndRequest (rq : Ptr) (now : TimeStramp)
  | nvmePciCompleteRq (rq : Ptr) (now : TimeStramp)
  | nvmeCompleteRq (rq : Ptr) (now : TimeStramp)
  | blkAccountIoDone (rq : Ptr) (now : TimeStramp) (sector : UInt64) (hctxPtr : Ptr)
      (statsSectors nrPhysSegments : UInt16) (reserve : Bool)
deriving DecidableEq

/-- Run the probe of one event. -/
def infoStep (cfg : DioConfig) (s : InfoState) : InfoProbe → InfoState × List InfoRecord
  | .newSyncWrite t inodeId now => ({ s with dio := kpNewSyncWrite cfg s.dio t inodeId now }, [])
  | .newSyncRead t inodeId now => ({ s with dio := kpNewSyncRead cfg s.dio t inodeId now }, [])
  | .ext4DioWriteIter t iocb inodeId smallName now =>
      ({ s with dio := kpExt4DioWriteIter cfg s.dio t iocb inodeId smallName now }, [])
  | .ext4DioReadIter t iocb inodeId smallName now =>
      ({ s with dio := kpExt4DioReadIter cfg s.dio t iocb inodeId smallName now }, [])
  | .iomapDioBioActor t dio iocb now => (kpIomapDioBioActorInfo cfg s t dio iocb now, [])
  | .kfree t obj iocb size now slot => kpKfree cfg s t obj iocb size now slot
  | .rqQosTrack t rq biPrivate now => (kpRqQosTrackInfo cfg s t rq biPrivate now, [])
  | .nvmeQueueRq t rq h now reserve => kpNvmeQueueRqInfo cfg s t rq h now reserve
  | .scsiQueueRq t rq h now reserve => kpScsiQueueRqInfo cfg s t rq h now reserve
  | .blkMqStartRequest t rq now => (kpBlkMqStartRequest cfg s t rq now, [])
  | .scsiSoftirqDone rq now => (kpScsiSoftirqDone s rq now, [])
  | .scsiEndRequest rq now => (kpScsiEndRequestInfo s rq now, [])
  | .nvmePciCompleteRq rq now => (kpNvmePciCompleteRq s rq now, [])
  | .nvmeCompleteRq rq now => (kpNvmeCompleteRqInfo s rq now, [])
  | .blkAccountIoDone rq now sector hctxPtr stats segs reserve =>
      kpBlkAccountIoDoneInfo s rq now sector hctxPtr stats segs reserve

/-- The info tracer's kernel side. -/
def infoTracer (cfg : DioConfig) : Machine InfoState InfoProbe InfoRecord where
  init := .init
  step := infoStep cfg

/-! ## What the probes send -/

/-- The records a probe sends: a `kfree` the direct I/O it ends, a `queue_rq` the state of its hardware
    queue, a completion the entry of its request. -/
inductive Sends (cfg : DioConfig) (s : InfoState) : InfoProbe → InfoRecord → Prop where
  | dioInfo {t : Task} {obj iocb : Ptr} {size : Int64} {now : TimeStramp} {uninit : UInt64}
      {v : SimpleDioEvent} (hp : passes cfg.filter t = true)
      (hv : s.dio.eventCache.lookupElem iocb = some v) :
      Sends cfg s (.kfree t obj iocb size now (some uninit))
        (.dioInfo ⟨(s.dioFilter.lookupElem obj).getD uninit, v.onComplete t size now⟩)
  | nvmeHctx {t : Task} {rq : Ptr} {h : HctxFields} {now : TimeStramp} (hp : passes cfg.filter t = true)
      (hl : s.rqCache.lookupElem rq ≠ none) :
      Sends cfg s (.nvmeQueueRq t rq h now true)
        (.hctx ⟨h.hctx, now, h.run, h.queued, h.numaNode, h.queueNum, h.diskName⟩)
  | scsiHctx {t : Task} {rq : Ptr} {h : HctxFields} {now : TimeStramp} (hp : passes cfg.filter t = true)
      (hl : s.rqCache.lookupElem rq ≠ none) :
      Sends cfg s (.scsiQueueRq t rq h now true)
        (.hctx ⟨h.hctx, now, h.run, h.queued, h.numaNode, h.queueNum, h.diskName⟩)
  | rqInfo {rq : Ptr} {now : TimeStramp} {sector : UInt64} {hctxPtr : Ptr} {stats segs : UInt16}
      {u : RqInfoEvent} (hu : s.rqCache.lookupElem rq = some u) :
      Sends cfg s (.blkAccountIoDone rq now sector hctxPtr stats segs true)
        (.rqInfo (u.onAccountIoDone now sector hctxPtr stats segs))

/-- A `queue_rq` sends a record of an entry it finds, if it is accepted and gets one. -/
theorem mem_queueRqInfo {cfg : DioConfig} {s : InfoState} {t : Task} {rq : Ptr} {h : HctxFields}
    {now : TimeStramp} {reserve : Bool} {r : InfoRecord} :
    r ∈ (queueRqInfo cfg s t rq h now reserve).2 ↔
      passes cfg.filter t = true ∧ s.rqCache.lookupElem rq ≠ none ∧ reserve = true ∧
        r = .hctx ⟨h.hctx, now, h.run, h.queued, h.numaNode, h.queueNum, h.diskName⟩ := by
  unfold queueRqInfo
  by_cases hp : passes cfg.filter t = true
  · cases hl : s.rqCache.lookupElem rq with
    | none => simp [hp]
    | some log => cases reserve <;> simp [hp]
  · simp [hp]

/-- **Every step sends what `Sends` says, and nothing else.** -/
theorem mem_infoStep_iff {cfg : DioConfig} {s : InfoState} {e : InfoProbe} {r : InfoRecord} :
    r ∈ (infoStep cfg s e).2 ↔ Sends cfg s e r := by
  constructor
  · intro h
    cases e with
    | kfree t obj iocb size now slot =>
        simp only [infoStep, kpKfree] at h
        by_cases hp : passes cfg.filter t = true
        · cases hl : s.dio.eventCache.lookupElem iocb with
          | none => simp [hp, hl] at h
          | some v =>
              cases slot with
              | none => simp [hp, hl] at h
              | some uninit =>
                  obtain rfl : r = .dioInfo ⟨(s.dioFilter.lookupElem obj).getD uninit,
                      v.onComplete t size now⟩ := by simpa [hp, hl] using h
                  exact .dioInfo hp hl
        · simp [hp] at h
    | nvmeQueueRq t rq hf now reserve =>
        obtain ⟨hp, hl, rfl, rfl⟩ := mem_queueRqInfo.mp h
        exact .nvmeHctx hp hl
    | scsiQueueRq t rq hf now reserve =>
        obtain ⟨hp, hl, rfl, rfl⟩ := mem_queueRqInfo.mp h
        exact .scsiHctx hp hl
    | blkAccountIoDone rq now sector hctxPtr stats segs reserve =>
        simp only [infoStep, kpBlkAccountIoDoneInfo] at h
        cases hl : s.rqCache.lookupElem rq with
        | none => simp [hl] at h
        | some u =>
            cases reserve with
            | false => simp [hl] at h
            | true =>
                obtain rfl : r = .rqInfo (u.onAccountIoDone now sector hctxPtr stats segs) := by
                  simpa [hl] using h
                exact .rqInfo hl
    -- the other probes send nothing
    | _ => exact absurd h (by simp [infoStep])
  · intro h
    cases h with
    | dioInfo hp hv => simp [infoStep, kpKfree, hp, hv]
    | nvmeHctx hp hl => exact mem_queueRqInfo.mpr ⟨hp, hl, rfl, rfl⟩
    | scsiHctx hp hl => exact mem_queueRqInfo.mpr ⟨hp, hl, rfl, rfl⟩
    | rqInfo hu => simp [infoStep, kpBlkAccountIoDoneInfo, hu]

end StorTrace.Ext4Dio
