import StorTrace.Common.Filter

/-!
# `Ext4Dio.Event` — the records of `ext4_dio_simple.h` and `ext4_dio_info.h`

The completion union of `rq_info_event` overlays two pairs of words and is kept as the pair; the accessors
carry the member names. `type` and `drive` are plain `unsigned int`s in the records, so they are here too:
the user side has to cope with every value.
-/

namespace StorTrace.Ext4Dio

/-- `D_WRITE` of `enum dio_type`. -/
def dWrite : UInt32 := 0

/-- `D_READ` of `enum dio_type`. -/
def dRead : UInt32 := 1

/-- `struct simple_dio_event`. -/
structure SimpleDioEvent where
  startDio : TimeStramp
  startExt4 : TimeStramp
  startBlockIo : TimeStramp
  endBlockIo : TimeStramp
  dioSize : Int64
  inodeId : UInt64
  common : CharArray 16
  filename : CharArray 16
  type : UInt32
deriving DecidableEq

/-- `my_memset_zero(&dio_simple, sizeof(struct simple_dio_event))`. -/
def SimpleDioEvent.zero : SimpleDioEvent :=
  ⟨0, 0, 0, 0, 0, 0, CharArray.zero 16, CharArray.zero 16, 0⟩

/-- `struct dio_info_event`. -/
structure DioInfoEvent where
  dioUid : UInt64
  simEvent : SimpleDioEvent
deriving DecidableEq

def nvmeDrive : UInt32 := 1

def scsiDrive : UInt32 := 2

/-- `struct hctx_metadata`. -/
structure HctxMetadata where
  hctxPtr : Ptr
  tp : TimeStramp
  runed : UInt64
  queued : UInt64
  numaNode : Int16
  queueNum : Int16
  diskName : CharArray 32
deriving DecidableEq

/-- The two words shared by `scsi_path` and `nvme_path`. -/
structure CompletePath where
  word0 : TimeStramp
  word1 : TimeStramp
deriving DecidableEq

namespace CompletePath

/-- `scsi_path.softirq_done`. -/
def softirqDone (p : CompletePath) : TimeStramp := p.word0

/-- `scsi_path.scsi_end`. -/
def scsiEnd (p : CompletePath) : TimeStramp := p.word1

/-- `nvme_path.pci_complete_rq`. -/
def pciCompleteRq (p : CompletePath) : TimeStramp := p.word0

/-- `nvme_path.nvme_complete_rq`. -/
def nvmeCompleteRq (p : CompletePath) : TimeStramp := p.word1

end CompletePath

/-- `struct rq_complete_event` of `ext4_dio_info.h`. -/
structure RqCompleteEvent where
  rqStart : TimeStramp
  path : CompletePath
  accountIo : TimeStramp
  hctxPtr : Ptr
  sector : UInt64
  statsSectors : UInt16
  nrPhysSegments : UInt16
  drive : UInt32
deriving DecidableEq

/-- `struct rq_info_event`. -/
structure RqInfoEvent where
  dioUid : UInt64
  rqPtr : Ptr
  rqBioStart : TimeStramp
  queueRq : TimeStramp
  rqComp : RqCompleteEvent
deriving DecidableEq

/-- `__builtin_memset(&rq_info, 0, sizeof(struct rq_info_event))`. -/
def RqInfoEvent.zero : RqInfoEvent := ⟨0, 0, 0, 0, ⟨0, ⟨0, 0⟩, 0, 0, 0, 0, 0, 0⟩⟩

/-- Every time stamp of a request record. -/
def RqInfoEvent.stamps (v : RqInfoEvent) : List TimeStramp :=
  [v.rqBioStart, v.queueRq, v.rqComp.rqStart, v.rqComp.path.word0, v.rqComp.path.word1,
    v.rqComp.accountIo]

/-- What the info program puts into the ring buffer `ext4_dio_log`. -/
inductive InfoRecord where
  | dioInfo (log : DioInfoEvent)
  | hctx (state : HctxMetadata)
  | rqInfo (log : RqInfoEvent)
deriving DecidableEq

/-- The direct-I/O event of a record. -/
def InfoRecord.dioInfo? : InfoRecord → Option DioInfoEvent
  | .dioInfo log => some log
  | .hctx _      => none
  | .rqInfo _    => none

/-- The request event of a record. -/
def InfoRecord.rqInfo? : InfoRecord → Option RqInfoEvent
  | .dioInfo _  => none
  | .hctx _     => none
  | .rqInfo log => some log

/-! ## Record sizes -/

def sizeofSimpleDioEvent : Nat :=
  structSize [(8, 8), (8, 8), (8, 8), (8, 8), (8, 8), (8, 8), (16, 1), (16, 1), (4, 4)]

def sizeofDioInfoEvent : Nat := structSize [(8, 8), (sizeofSimpleDioEvent, 8)]

def sizeofHctxMetadata : Nat :=
  structSize [(8, 8), (8, 8), (8, 8), (8, 8), (2, 2), (2, 2), (32, 1)]

def sizeofRqCompleteEvent : Nat :=
  structSize [(8, 8), (16, 8), (8, 8), (8, 8), (8, 8), (2, 2), (2, 2), (4, 4)]

def sizeofRqInfoEvent : Nat := structSize [(8, 8), (8, 8), (8, 8), (8, 8), (sizeofRqCompleteEvent, 8)]

/-- The size a record of the info program was reserved with. -/
def InfoRecord.dataSz : InfoRecord → Nat
  | .dioInfo _ => sizeofDioInfoEvent
  | .hctx _    => sizeofHctxMetadata
  | .rqInfo _  => sizeofRqInfoEvent

/-- The three sizes `proxy` switches on are different. -/
theorem sizeof_infoRecords :
    sizeofDioInfoEvent = 96 ∧ sizeofHctxMetadata = 72 ∧ sizeofRqInfoEvent = 88 := by decide

end StorTrace.Ext4Dio
