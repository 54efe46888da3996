import StorTrace.BlockTrace.Event
import StorTrace.Lib.BpfMap
import StorTrace.Lib.Run

/-!
# `BlockTrace.Probes` — the kernel side of the block tracer (`block_trace.bpf.c`)

One definition for each probe, over the state of the two hash maps, and the event machine they make up.
An event carries what its probe reads: the task, the addresses it is called with, the kernel fields it
loads, its clock reading, and whether the ring buffer had room for its record.

Most probes do the same thing: look the request up in `rq_cache` and, if it is there, write into the
entry. What each writes is an operation on `RqTraceEvent` (`onPlug`, `onDispatch`, …).
-/

namespace StorTrace.BlockTrace

/-! ## What the probes write into an entry -/

namespace RqTraceEvent

variable (log : RqTraceEvent)

def onPlug (now : TimeStramp) : RqTraceEvent :=
  { log with rqSub := { log.rqSub with plug := now } }

def onBypassInsert (now : TimeStramp) : RqTraceEvent :=
  { log with rqSub :=
      { log.rqSub with path := { log.rqSub.path with word0 := now }, sType := .bypass } }

def onInsert (sType : Schedu) : RqTraceEvent :=
  { log with rqSub := { log.rqSub with sType := sType } }

/-- An insert that neither `dd_` nor `bfq_insert_request` announced is `kyber`'s. -/
def onSchedInserted (now : TimeStramp) : RqTraceEvent :=
  { log with rqSub :=
      { log.rqSub with
        path := { log.rqSub.path with word0 := now }
        sType := if log.rqSub.sType ≠ .mqDeadline ∧ log.rqSub.sType ≠ .bfq then .kyber
                 else log.rqSub.sType } }

def onDispatch (dType : Dispatch) (now : TimeStramp) : RqTraceEvent :=
  { log with rqSub :=
      { log.rqSub with dType := dType, path := { log.rqSub.path with word1 := now } } }

def onIssueDirectly (now : TimeStramp) : RqTraceEvent :=
  { log with rqSub :=
      { log.rqSub with
        path := { log.rqSub.path with word0 := now }, sType := .noSchedu, dType := .directDispatch } }

def onQueueRq (drive : DriveType) (diskName : CharArray 32) (now : TimeStramp) : RqTraceEvent :=
  { log with
    rqSub := { log.rqSub with queueRq := now }
    rqComp := { log.rqComp with drive := drive }
    diskName := diskName }

def onComplete (now : TimeStramp) : RqTraceEvent :=
  { log with rqComp := { log.rqComp with path := ⟨now⟩ } }

def onAccountIoDone (now : TimeStramp) (sector : UInt64) (statsSectors nrPhysSegments : UInt16) :
    RqTraceEvent :=
  { log with rqComp :=
      { log.rqComp with
        accountIo := now, sector := sector, statsSectors := statsSectors
        nrPhysSegments := nrPhysSegments } }

end RqTraceEvent

/-! ## The probes -/

/-- The hash maps of the program. -/
structure BlkState where
  bioPass : BpfHash Ptr TimeStramp (256 * 128)
  rqCache : BpfHash Ptr RqTraceEvent 256

/-- `bio_op(bi_opf)`: the low `REQ_OP_BITS` bits. -/
def bioOp (biOpf : UInt32) : UInt32 := biOpf &&& 0xff

def opIsWrite (op : UInt32) : Bool := op &&& 1 ≠ 0

/-- `bio_data_dir(bi_opf)`. -/
def bioDataDir (biOpf : UInt32) : IoDirect := if opIsWrite (bioOp biOpf) then .write else .read

/-- The entry `kp__rq_qos_track` fills on its stack. -/
def newTrace (bioEnter : TimeStramp) (t : Task) (biOpf : UInt32) (now : TimeStramp) : RqTraceEvent :=
  { RqTraceEvent.zero with
    bioEnter := bioEnter
    rqStart := now
    rqSub := { RqTraceEvent.zero.rqSub with ioType := bioDataDir biOpf }
    commonName := t.currentComm }

section Handlers

variable (cfg : FilterConfig) (s : BlkState)

/-- Look up `rq` in `rq_cache` and write through the returned pointer. -/
def BlkState.touch (rq : Ptr) (f : RqTraceEvent → RqTraceEvent) : BlkState :=
  { s with rqCache := s.rqCache.modifyElem rq f }

def kpBlkMqSubmitBio (t : Task) (bio biPrivate : Ptr) (now : TimeStramp) (reserve : Bool) :
    BlkState × List BlkRecord :=
  if passes cfg t then
    -- the submission time is kept also when its record is lost
    ({ s with bioPass := (s.bioPass.updateElem bio now .any).1 },
      if reserve then [.bioEnter ⟨bio, biPrivate, now⟩] else [])
  else (s, [])

def kpRqQosTrack (t : Task) (rq bio : Ptr) (biOpf : UInt32) (now : TimeStramp) : BlkState :=
  if passes cfg t then
    -- an entry still there belongs to a request that never reached its completion
    let cache := s.rqCache.recycleElem rq
    match s.bioPass.lookupElem bio with
    | some bioEnter =>
        { s with rqCache := (cache.updateElem rq (newTrace bioEnter t biOpf now) .noexist).1 }
    -- the bio was not seen by an accepted submission: the request stays untraced
    | none => { s with rqCache := cache }
  else s

def kpBlkAddRqToPlug (rq : Ptr) (now : TimeStramp) : BlkState := s.touch rq (·.onPlug now)

def kpBlkMqRequestBypassInsert (rq : Ptr) (now : TimeStramp) : BlkState :=
  s.touch rq (·.onBypassInsert now)

def kpDdInsertRequest (rq : Ptr) : BlkState := s.touch rq (·.onInsert .mqDeadline)

def kpBfqInsertRequest (rq : Ptr) : BlkState := s.touch rq (·.onInsert .bfq)

def kpBlkMqSchedRequestInserted (rq : Ptr) (now : TimeStramp) : BlkState :=
  s.touch rq (·.onSchedInserted now)

def krpBfqDispatchRequest (rq : Ptr) (now : TimeStramp) : BlkState := s.touch rq (·.onDispatch .bfq now)

def krpDdDispatchRequest (rq : Ptr) (now : TimeStramp) : BlkState :=
  s.touch rq (·.onDispatch .mqDeadline now)

def krKyberDispatchRequest (rq : Ptr) (now : TimeStramp) : BlkState :=
  s.touch rq (·.onDispatch .kyber now)

def krpBlkMqDequeueFromCtx (rq : Ptr) (now : TimeStramp) : BlkState :=
  s.touch rq (·.onDispatch .dequeueCtx now)

def kpBlkMqIssueDirectly (rq : Ptr) (now : TimeStramp) : BlkState := s.touch rq (·.onIssueDirectly now)

def kpNvmeQueueRq (rq : Ptr) (diskName : CharArray 32) (now : TimeStramp) : BlkState :=
  s.touch rq (·.onQueueRq .nvme diskName now)

def kpScsiQueueRq (rq : Ptr) (diskName : CharArray 32) (now : TimeStramp) : BlkState :=
  s.touch rq (·.onQueueRq .scsi diskName now)

def kpScsiEndRequest (rq : Ptr) (now : TimeStramp) : BlkState := s.touch rq (·.onComplete now)

def kpNvmeCompleteRq (rq : Ptr) (now : TimeStramp) : BlkState := s.touch rq (·.onComplete now)

def kpBlkAccountIoDone (rq : Ptr) (now : TimeStramp) (sector : UInt64)
    (statsSectors nrPhysSegments : UInt16) (reserve : Bool) : BlkState × List BlkRecord :=
  match s.rqCache.lookupElem rq with
  | some log =>
      -- the entry itself is written before the record is reserved
      let log := log.onAccountIoDone now sector statsSectors nrPhysSegments
      let s := s.touch rq (·.onAccountIoDone now sector statsSectors nrPhysSegments)
      if reserve then ({ s with rqCache := s.rqCache.deleteElem rq }, [.rqTrace log])
      -- without a record the probe returns early and leaves the entry in the map
      else (s, [])
  | none => (s, [])

end Handlers

/-! ## The machine -/

/-- A probe firing. -/
inductive BlkProbe where
  | blkMqSubmitBio (t : Task) (bio biPrivate : Ptr) (now : TimeStramp) (reserve : Bool)
  | rqQosTrack (t : Task) (rq bio : Ptr) (biOpf : UInt32) (now : TimeStramp)
  | blkAddRqToPlug (rq : Ptr) (now : TimeStramp)
  | blkMqRequestBypassInsert (rq : Ptr) (now : TimeStramp)
  | ddInsertRequest (rq : Ptr)
  | bfqInsertRequest (rq : Ptr)
  | blkMqSchedRequestInserted (rq : Ptr) (now : TimeStramp)
  | bfqDispatchRequest (rq : Ptr) (now : TimeStramp)
  | ddDispatchRequest (rq : Ptr) (now : TimeStramp)
  | kyberDispatchRequest (rq : Ptr) (now : TimeStramp)
  | blkMqDequeueFromCtx (rq : Ptr) (now : TimeStramp)
  | blkMqIssueDirectly (rq : Ptr) (now : TimeStramp)
  | nvmeQueueRq (rq : Ptr) (diskName : CharArray 32) (now : TimeStramp)
  | scsiQueueRq (rq : Ptr) (diskName : CharArray 32) (now : TimeStramp)
  | scsiEndRequest (rq : Ptr) (now : TimeStramp)
  | nvmeCompleteRq (rq : Ptr) (now : TimeStramp)
  | blkAccountIoDone (rq : Ptr) (now : TimeStramp) (sector : UInt64)
      (statsSectors nrPhysSegments : UInt16) (reserve : Bool)
deriving DecidableEq

/-- Run the probe of one event. -/
def blkStep (cfg : FilterConfig) (s : BlkState) : BlkProbe → BlkState × List BlkRecord
  | .blkMqSubmitBio t bio biPrivate now reserve => kpBlkMqSubmitBio cfg s t bio biPrivate now reserve
  | .rqQosTrack t rq bio biOpf now      => (kpRqQosTrack cfg s t rq bio biOpf now, [])
  | .blkAddRqToPlug rq now              => (kpBlkAddRqToPlug s rq now, [])
  | .blkMqRequestBypassInsert rq now    => (kpBlkMqRequestBypassInsert s rq now, [])
  | .ddInsertRequest rq                 => (kpDdInsertRequest s rq, [])
  | .bfqInsertRequest rq                => (kpBfqInsertRequest s rq, [])
  | .blkMqSchedRequestInserted rq now   => (kpBlkMqSchedRequestInserted s rq now, [])
  | .bfqDispatchRequest rq now          => (krpBfqDispatchRequest s rq now, [])
  | .ddDispatchRequest rq now           => (krpDdDispatchRequest s rq now, [])
  | .kyberDispatchRequest rq now        => (krKyberDispatchRequest s rq now, [])
  | .blkMqDequeueFromCtx rq now         => (krpBlkMqDequeueFromCtx s rq now, [])
  | .blkMqIssueDirectly rq now          => (kpBlkMqIssueDirectly s rq now, [])
  | .nvmeQueueRq rq diskName now        => (kpNvmeQueueRq s rq diskName now, [])
  | .scsiQueueRq rq diskName now        => (kpScsiQueueRq s rq diskName now, [])
  | .scsiEndRequest rq now              => (kpScsiEndRequest s rq now, [])
  | .nvmeCompleteRq rq now              => (kpNvmeCompleteRq s rq now, [])
  | .blkAccountIoDone rq now sector stats segs reserve =>
      kpBlkAccountIoDone s rq now sector stats segs reserve

/-- The block tracer's kernel side: the maps are empty when the program is loaded. -/
def blkTracer (cfg : FilterConfig) : Machine BlkState BlkProbe BlkRecord where
  init := ⟨.empty, .empty⟩
  step := blkStep cfg

end StorTrace.BlockTrace
