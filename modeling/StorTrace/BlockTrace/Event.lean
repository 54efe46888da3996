import StorTrace.Common.Filter

/-!
# `BlockTrace.Event` — the records of `block_trace.h`

The two unions of `rq_trace_event` are kept as the words they overlay: `sched_path` and `direct_path`
share their first word, `scsi_path` and `nvme_path` are one word. The accessors carry the member names,
so a read of one member after a write of the other is visible in the model as it is in memory.
-/

namespace StorTrace.BlockTrace

inductive IoDirect where
  | read
  | write
deriving DecidableEq

inductive Schedu where
  | unknownSchedu
  | bypass
  | mqDeadline
  | bfq
  | kyber
  | noSchedu
deriving DecidableEq

inductive Dispatch where
  | unknownDispatch
  | dequeueCtx
  | mqDeadline
  | bfq
  | kyber
  | directDispatch
deriving DecidableEq

inductive DriveType where
  | error
  | nvme
  | scsi
deriving DecidableEq

/-- `struct bio_enter`. -/
structure BioEnter where
  bioPtr : Ptr
  biPrivate : Ptr
  tp : TimeStramp
deriving DecidableEq

/-- The 16 bytes shared by `struct sched_insert sched_path` and `struct direct_insert direct_path`. -/
structure PathUnion where
  word0 : TimeStramp
  word1 : TimeStramp
deriving DecidableEq

namespace PathUnion

/-- `sched_path.sched`. -/
def sched (p : PathUnion) : TimeStramp := p.word0

/-- `sched_path.dispatch`. -/
def dispatch (p : PathUnion) : TimeStramp := p.word1

/-- `direct_path.direct`. -/
def direct (p : PathUnion) : TimeStramp := p.word0

end PathUnion

/-- `struct rq_submit_event`. -/
structure RqSubmitEvent where
  plug : TimeStramp
  path : PathUnion
  queueRq : TimeStramp
  sType : Schedu
  dType : Dispatch
  ioType : IoDirect
deriving DecidableEq

/-- The word shared by `scsi_path.scsi_end` and `nvme_path.nvme_complete_rq`. -/
structure DoneUnion where
  word : TimeStramp
deriving DecidableEq

namespace DoneUnion

/-- `scsi_path.scsi_end`. -/
def scsiEnd (d : DoneUnion) : TimeStramp := d.word

/-- `nvme_path.nvme_complete_rq`. -/
def nvmeCompleteRq (d : DoneUnion) : TimeStramp := d.word

end DoneUnion

/-- `struct rq_complete_event`. -/
structure RqCompleteEvent where
  path : DoneUnion
  accountIo : TimeStramp
  sector : UInt64
  statsSectors : UInt16
  nrPhysSegments : UInt16
  drive : DriveType
deriving DecidableEq

/-- `struct rq_trace_event`. -/
structure RqTraceEvent where
  bioEnter : TimeStramp
  diskName : CharArray 32
  commonName : CharArray 16
  rqStart : TimeStramp
  rqSub : RqSubmitEvent
  rqComp : RqCompleteEvent
deriving DecidableEq

/-- `__builtin_memset(&trace, 0, sizeof(struct rq_trace_event))`. -/
def RqTraceEvent.zero : RqTraceEvent where
  bioEnter := 0
  diskName := CharArray.zero 32
  commonName := CharArray.zero 16
  rqStart := 0
  rqSub := ⟨0, ⟨0, 0⟩, 0, .unknownSchedu, .unknownDispatch, .read⟩
  rqComp := ⟨⟨0⟩, 0, 0, 0, 0, .error⟩

/-- Every time stamp of the event except the submission time of its bio. -/
def RqTraceEvent.stamps (v : RqTraceEvent) : List TimeStramp :=
  [v.rqStart, v.rqSub.plug, v.rqSub.path.word0, v.rqSub.path.word1, v.rqSub.queueRq,
    v.rqComp.path.word, v.rqComp.accountIo]

/-- What the programs put into the ring buffer `blk_log`. -/
inductive BlkRecord where
  | bioEnter (log : BioEnter)
  | rqTrace (log : RqTraceEvent)
deriving DecidableEq

/-- The request event of a ring-buffer record. -/
def BlkRecord.rqTrace? : BlkRecord → Option RqTraceEvent
  | .bioEnter _ => none
  | .rqTrace log => some log

end StorTrace.BlockTrace
