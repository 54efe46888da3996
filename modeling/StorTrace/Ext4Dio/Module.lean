import StorTrace.Ext4Dio.Event
import StorTrace.Collector.TimeAq
import StorTrace.Collector.HctxState
import StorTrace.Collector.Heatmap
import StorTrace.Logger.Format

/-!
# `Ext4Dio.Module` — the user side of the two direct-I/O tracers (`ext4_dio_simple.hpp`, `ext4_dio_info.hpp`)

Each module's `proxy` receives the ring-buffer records in order, commits rows to the logger and feeds the
in-memory collectors. A `LOG(FATAL)` ends the program and is an error here.
-/

namespace StorTrace.Ext4Dio

/-- The four bytes of an `unsigned int`, low byte first. -/
def u32Bytes (w : UInt32) : List UInt8 := (u64Bytes w.toUInt64).take 4

/-- `std::string(log->filename)`: the bytes from `filename` on. -/
def fileName (log : SimpleDioEvent) : Str := cString (log.filename.data ++ u32Bytes log.type)

/-- `std::string(log->common)`. -/
def processStr (log : SimpleDioEvent) : Str :=
  cString (log.common.data ++ log.filename.data ++ u32Bytes log.type)

/-- `"+dr"`. -/
def dioRFlag : Str := [43, 100, 114]

/-- `"+dw"`. -/
def dioWFlag : Str := [43, 100, 119]

/-- The flag of an operation; any other type is fatal. -/
def opFlag (type : UInt32) : Except String Str :=
  if type = dRead then .ok dioRFlag
  else if type = dWrite then .ok dioWFlag
  else .error "Unknown type of opeartion shoud be process"

/-- The words of a metadata row: type, size and the two names. -/
def metaWords (log : SimpleDioEvent) : List UInt64 :=
  [log.type.toUInt64, log.dioSize.toUInt64,
    u64OfBytes (log.common.data.take 8), u64OfBytes (log.common.data.drop 8),
    u64OfBytes (log.filename.data.take 8), u64OfBytes (log.filename.data.drop 8)]

/-- The collectors both modules feed from a direct-I/O event. -/
structure DioCollectors where
  dioThroughtput : TimeThroughputPmc
  fileOp : Counter
  commonOp : Counter
deriving DecidableEq

/-- The part of `do_meta` that both modules share. -/
def DioCollectors.commit (c : DioCollectors) (log : SimpleDioEvent) (flag : Str) : DioCollectors where
  dioThroughtput := c.dioThroughtput.commit log.endBlockIo log.dioSize.toUInt64
  fileOp := c.fileOp.commit (fileName log ++ flag) 1
  commonOp := c.commonOp.commit (processStr log ++ flag) 1

/-! ## The simple module -/

namespace Simple

def fwfEvent : FileWithFormat :=
  .make "ext4_dio_simple_event" [8, 8, 8, 8] ["end_dio_io", "kernel_crossing", "file_system", "block_io"]

def fwfMeta : FileWithFormat :=
  .make "ext4_dio_simple_meta" [8, 8, 16, 16] ["type", "dio_size", "common", "filename"]

def formats : List FileWithFormat := [fwfEvent, fwfMeta]

/-- `enum filter_stage`. -/
inductive FilterStage where
  | sum
  | kernelCrossing
  | fileSystem
  | blockIo
deriving DecidableEq

/-- The quantile filter: a digest of earlier values, its `quantile` at the configured rank and its
    `insert`, both on `unsigned int`. -/
structure QuantileFilter (δ : Type) where
  digest : δ
  quantile : δ → UInt32
  insert : δ → UInt32 → δ
  stage : FilterStage

/-- `Ext4DioSimpleModule`; `filter` is present when `using_filter`. -/
structure SimpleModule (δ : Type) where
  commits : List CommitCall
  collectors : DioCollectors
  filter : Option (QuantileFilter δ)

variable {δ : Type}

/-- The row `do_event` builds: the end time and the three stages. -/
def eventWords (log : SimpleDioEvent) : List UInt64 :=
  [log.endBlockIo, log.startExt4 - log.startDio, log.startBlockIo - log.startExt4,
    log.endBlockIo - log.startBlockIo]

/-- The value the filter compares. It is kept in an `int` and compared as `unsigned int`. -/
def filterValue (stage : FilterStage) (log : SimpleDioEvent) : UInt32 :=
  match stage with
  | .sum            => (log.endBlockIo - log.startDio).toUInt32
  | .kernelCrossing => (log.startExt4 - log.startDio).toUInt32
  | .fileSystem     => (log.startBlockIo - log.startExt4).toUInt32
  | .blockIo        => (log.endBlockIo - log.startBlockIo).toUInt32

/-- The filter's verdict on an event, and the filter with the event's value in its digest. -/
def QuantileFilter.check (f : QuantileFilter δ) (log : SimpleDioEvent) : Bool × QuantileFilter δ :=
  let value := filterValue f.stage log
  (decide (value < f.quantile f.digest), { f with digest := f.insert f.digest value })

/-- `do_event`: the new state and whether the event was selected. -/
def doEvent (m : SimpleModule δ) (log : SimpleDioEvent) : SimpleModule δ × Bool :=
  let call := commitWords formats "ext4_dio_simple_event" (eventWords log)
  match m.filter with
  | none => ({ m with commits := m.commits ++ [call] }, true)
  | some f =>
      -- a value below the quantile is not logged, but enters the digest like any other
      if (f.check log).1 then ({ m with filter := some (f.check log).2 }, false)
      else ({ m with commits := m.commits ++ [call], filter := some (f.check log).2 }, true)

/-- `do_meta`. -/
def doMeta (m : SimpleModule δ) (log : SimpleDioEvent) (select : Bool) :
    Except String (SimpleModule δ) :=
  opFlag log.type >>= fun flag =>
    .ok { m with
      collectors := m.collectors.commit log flag
      commits :=
        if select then m.commits ++ [commitWords formats "ext4_dio_simple_meta" (metaWords log)]
        else m.commits }

/-- `proxy`, on a record of the only size the kernel side reserves. -/
def proxy (m : SimpleModule δ) (log : SimpleDioEvent) : Except String (SimpleModule δ) :=
  let r := doEvent m log
  doMeta r.1 log r.2

end Simple

/-! ## The info module -/

namespace Info

def fwfDioInfoEvent : FileWithFormat :=
  .make "dio_info_event" [8, 8, 8, 8, 8]
    ["dio_uid", "end_dio_io", "kernel_crossing", "file_system", "block_io"]

def fwfDioInfoEventMeta : FileWithFormat :=
  .make "dio_info_event_meta" [8, 8, 16, 16] ["type", "dio_size", "common", "filename"]

def fwfRqInfoEvent : FileWithFormat :=
  .make "rq_info_event" [8, 8, 8, 8, 8, 8, 8, 8]
    ["dio_uid", "rq_ptr", "block_sched", "nvme_execute", "scsi_execute", "nvme_verify", "scsi_verify",
      "account_io"]

def formats : List FileWithFormat := [fwfDioInfoEvent, fwfDioInfoEventMeta, fwfRqInfoEvent]

/-- `Ext4DioInfoModule`. -/
structure InfoModule where
  commits : List CommitCall
  collectors : DioCollectors
  heatmapTrace : HeatmapCollector
  hctxTrace : HctxStateCollector
  hctxMapping : Hctx2disk

/-- The module as it is constructed: its collectors are empty. -/
def InfoModule.new (pmcInv : UInt64) (heatmapRow : Int) : InfoModule :=
  ⟨[], ⟨.new pmcInv, .new, .new⟩, .new heatmapRow, .new pmcInv, .new⟩

/-- The row `do_event(const dio_info_event*)` builds. -/
def dioWords (log : DioInfoEvent) : List UInt64 :=
  [log.dioUid, log.simEvent.endBlockIo, log.simEvent.startExt4 - log.simEvent.startDio,
    log.simEvent.startBlockIo - log.simEvent.startExt4, log.simEvent.endBlockIo - log.simEvent.startBlockIo]

/-- `do_event(const dio_info_event*)`. -/
def doEventDio (m : InfoModule) (log : DioInfoEvent) : InfoModule :=
  { m with commits := m.commits ++ [commitWords formats "dio_info_event" (dioWords log)] }

/-- `do_meta(const dio_info_event*)`; `select` is always `1`. -/
def doMetaDio (m : InfoModule) (log : DioInfoEvent) : Except String InfoModule :=
  opFlag log.simEvent.type >>= fun flag =>
    .ok { m with
      collectors := m.collectors.commit log.simEvent flag
      commits := m.commits ++ [commitWords formats "dio_info_event_meta" (metaWords log.simEvent)] }

/-- The row `do_event(const rq_info_event*)` builds. -/
def rqWords (log : RqInfoEvent) : Except String (List UInt64) :=
  let start := [log.dioUid, log.rqPtr, log.queueRq - log.rqBioStart]
  if log.rqComp.drive = scsiDrive then
    .ok (start ++ [0, log.rqComp.path.softirqDone - log.rqComp.rqStart, 0,
      log.rqComp.path.scsiEnd - log.rqComp.path.softirqDone,
      log.rqComp.accountIo - log.rqComp.path.scsiEnd])
  else if log.rqComp.drive = nvmeDrive then
    .ok (start ++ [log.rqComp.path.pciCompleteRq - log.rqComp.rqStart, 0,
      log.rqComp.path.nvmeCompleteRq - log.rqComp.path.pciCompleteRq, 0,
      log.rqComp.accountIo - log.rqComp.path.nvmeCompleteRq])
  else .error "Recv unknown type drive data"

/-- `do_event(const rq_info_event*)`. -/
def doEventRq (m : InfoModule) (log : RqInfoEvent) : Except String InfoModule :=
  rqWords log >>= fun d =>
    .ok { m with commits := m.commits ++ [commitWords formats "rq_info_event" d] }

/-- `do_meta(const hctx_metadata*)`. -/
def doMetaHctx (m : InfoModule) (state : HctxMetadata) : InfoModule :=
  { m with
    hctxMapping :=
      -- a hardware queue keeps the disk it was first seen with
      match m.hctxMapping.find state.hctxPtr with
      | some _ => m.hctxMapping
      | none => m.hctxMapping.insert state.hctxPtr (cString state.diskName.data)
    hctxTrace := m.hctxTrace.commit state }

/-- `HeatmapCollector::commit(const rq_info_event*, Hctx2disk&)`. -/
def heatmapCommit (c : HeatmapCollector) (log : RqInfoEvent) (hctxMap : Hctx2disk) :
    Except String HeatmapCollector :=
  match hctxMap.find log.rqComp.hctxPtr with
  | some diskName => .ok (c.commitTo diskName log.rqComp.sector log.rqComp.statsSectors)
  | none => .error "rec unknow disk"

/-- `do_meta(const rq_info_event*)`. -/
def doMetaRq (m : InfoModule) (log : RqInfoEvent) : Except String InfoModule :=
  heatmapCommit m.heatmapTrace log m.hctxMapping >>= fun h => .ok { m with heatmapTrace := h }

/-- `proxy`: the record is told by its size, in the order of the cases of the `switch`. -/
def proxy (m : InfoModule) (data : InfoRecord) : Except String InfoModule :=
  if data.dataSz = sizeofDioInfoEvent then
    match data with
    | .dioInfo log => doMetaDio (doEventDio m log) log
    | _ => .error "Getting unknown type message, exit"
  else if data.dataSz = sizeofHctxMetadata then
    match data with
    | .hctx state => .ok (doMetaHctx m state)
    | _ => .error "Getting unknown type message, exit"
  else if data.dataSz = sizeofRqInfoEvent then
    match data with
    | .rqInfo log => doEventRq m log >>= fun m => doMetaRq m log
    | _ => .error "Getting unknown type message, exit"
  else .error "Getting unknown type message, exit"

end Info

end StorTrace.Ext4Dio
