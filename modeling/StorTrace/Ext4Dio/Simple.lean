import StorTrace.Ext4Dio.Event
import StorTrace.Lib.BpfMap
import StorTrace.Lib.Run

/-!
# `Ext4Dio.Simple` — the kernel side of the simple tracer (`ext4_dio_simple.bpf.c`)

The start of a direct I/O is read at `new_sync_write`/`new_sync_read` into a global variable, one for each
direction; `ext4_dio_write_iter`/`ext4_dio_read_iter` copy it into a fresh `event_cache` entry of the
kiocb. `iomap_dio_bio_actor` and `iomap_dio_complete` stamp the entry, and the completion emits it.

`ext4_dio_info.bpf.c` has the same four start probes and the same two stages, so its state extends
`DioState` and its handlers call these.
-/

namespace StorTrace.Ext4Dio

/-- The variables user space configures before loading: the task filters, and the inode filter with its
    map `file_filter`. -/
structure DioConfig where
  filter : FilterConfig
  usingInodeFilter : Bool
  fileFilter : BpfHash UInt64 Bool 16

/-- No filter configured. -/
def DioConfig.off : DioConfig := ⟨.off, false, .empty⟩

/-- The global variables and the map `event_cache`. -/
structure DioState where
  dioWriteStart : TimeStramp
  dioReadStart : TimeStramp
  eventCache : BpfHash Ptr SimpleDioEvent (1024 * 8)

/-- The state the program is loaded with. -/
def DioState.init : DioState := ⟨0, 0, .empty⟩

section Handlers

variable (cfg : DioConfig) (s : DioState)

/-- The inode filter: off, or the inode is in `file_filter`. -/
def inodeSelected (inodeId : UInt64) : Bool :=
  !cfg.usingInodeFilter || (cfg.fileFilter.lookupElem inodeId).isSome

/-- The common part of the two `new_sync` probes: the new value of the start variable. -/
def newSync (start : TimeStramp) (t : Task) (inodeId : UInt64) (now : TimeStramp) : TimeStramp :=
  if passes cfg.filter t then
    -- a call on a file that is not selected leaves the variable to the call before it
    if inodeSelected cfg inodeId then now else start
  else start

def kpNewSyncWrite (t : Task) (inodeId : UInt64) (now : TimeStramp) : DioState :=
  { s with dioWriteStart := newSync cfg s.dioWriteStart t inodeId now }

def kpNewSyncRead (t : Task) (inodeId : UInt64) (now : TimeStramp) : DioState :=
  { s with dioReadStart := newSync cfg s.dioReadStart t inodeId now }

/-- The common part of the two `ext4_dio_*_iter` probes: a fresh entry, unless the kiocb has one. -/
def dioIter (start : TimeStramp) (type : UInt32) (t : Task) (iocb : Ptr) (inodeId : UInt64)
    (smallName : CharArray 16) (now : TimeStramp) : DioState :=
  if passes cfg.filter t then
    if inodeSelected cfg inodeId then
      let dioSimple := { SimpleDioEvent.zero with
        startDio := start, startExt4 := now, inodeId := inodeId, filename := smallName, type := type }
      -- a failed update is only printed
      { s with eventCache := (s.eventCache.updateElem iocb dioSimple .noexist).1 }
    else s
  else s

def kpExt4DioWriteIter (t : Task) (iocb : Ptr) (inodeId : UInt64) (smallName : CharArray 16)
    (now : TimeStramp) : DioState :=
  dioIter cfg s s.dioWriteStart dWrite t iocb inodeId smallName now

def kpExt4DioReadIter (t : Task) (iocb : Ptr) (inodeId : UInt64) (smallName : CharArray 16)
    (now : TimeStramp) : DioState :=
  dioIter cfg s s.dioReadStart dRead t iocb inodeId smallName now

def kpIomapDioBioActor (t : Task) (iocb : Ptr) (now : TimeStramp) : DioState :=
  if passes cfg.filter t then
    { s with eventCache := s.eventCache.modifyElem iocb (fun v => { v with startBlockIo := now }) }
  else s

/-- What the completion writes into the entry. -/
def SimpleDioEvent.onComplete (v : SimpleDioEvent) (t : Task) (size : Int64) (now : TimeStramp) :
    SimpleDioEvent :=
  { v with endBlockIo := now, dioSize := size, common := t.currentComm }

def kpIomapDioComplete (t : Task) (iocb : Ptr) (size : Int64) (now : TimeStramp) (reserve : Bool) :
    DioState × List SimpleDioEvent :=
  if passes cfg.filter t then
    match s.eventCache.lookupElem iocb with
    | some v =>
        -- the entry goes with or without a record
        ({ s with eventCache := s.eventCache.deleteElem iocb },
          if reserve then [v.onComplete t size now] else [])
    | none => (s, [])
  else (s, [])

end Handlers

/-- A probe of the simple program firing. Of the `iomap_dio` it is called with, a probe reads the kiocb
    and the size. -/
inductive DioProbe where
  | newSyncWrite (t : Task) (inodeId : UInt64) (now : TimeStramp)
  | newSyncRead (t : Task) (inodeId : UInt64) (now : TimeStramp)
  | ext4DioWriteIter (t : Task) (iocb : Ptr) (inodeId : UInt64) (smallName : CharArray 16)
      (now : TimeStramp)
  | ext4DioReadIter (t : Task) (iocb : Ptr) (inodeId : UInt64) (smallName : CharArray 16)
      (now : TimeStramp)
  | iomapDioBioActor (t : Task) (dio iocb : Ptr) (now : TimeStramp)
  | iomapDioComplete (t : Task) (dio iocb : Ptr) (size : Int64) (now : TimeStramp) (reserve : Bool)
deriving DecidableEq

/-- Run the probe of one event. -/
def dioStep (cfg : DioConfig) (s : DioState) : DioProbe → DioState × List SimpleDioEvent
  | .newSyncWrite t inodeId now => (kpNewSyncWrite cfg s t inodeId now, [])
  | .newSyncRead t inodeId now => (kpNewSyncRead cfg s t inodeId now, [])
  | .ext4DioWriteIter t iocb inodeId smallName now =>
      (kpExt4DioWriteIter cfg s t iocb inodeId smallName now, [])
  | .ext4DioReadIter t iocb inodeId smallName now =>
      (kpExt4DioReadIter cfg s t iocb inodeId smallName now, [])
  | .iomapDioBioActor t _ iocb now => (kpIomapDioBioActor cfg s t iocb now, [])
  | .iomapDioComplete t _ iocb size now reserve => kpIomapDioComplete cfg s t iocb size now reserve

/-- The simple tracer's kernel side. -/
def dioTracer (cfg : DioConfig) : Machine DioState DioProbe SimpleDioEvent where
  init := .init
  step := dioStep cfg

end StorTrace.Ext4Dio
