import Mathlib.Algebra.GroupWithZero.Nat
import StorTrace.BlockTrace.Event
import StorTrace.Collector.Heatmap
import StorTrace.Logger.Format

/-!
# `BlockTrace.Module` — the user side of the block tracer (`block_trace.hpp`)

`BlkTraceModule::proxy` receives the ring-buffer records in order; `do_event` turns a request record into
a row of the log `blk_trace_record`. The row is built in a freshly allocated array of twelve words, whose
initial contents are a parameter (`heap`), and `DLOG(FATAL)` aborts only in a debug build, so the build
(`ndebug`) is a parameter too.
-/

namespace StorTrace.BlockTrace

/-! ## The registered logs (`__init_logger_normal`) -/

def fwfTrace : FileWithFormat :=
  .make "blk_trace_record" [8, 8, 8, 8, 8, 8, 8, 8, 8, 8, 16]
    ["bio_enter", "alloc_request", "io_direction", "plug", "scheduling", "dispatch", "nvme_exec",
      "scsi_exec", "nvme_verify", "scsi_verify", "common_name"]

def fwfBioEnter : FileWithFormat :=
  .make "bio_enter_record" [8, 8] ["bio_ptr", "enter_time"]

def blkFormats : List FileWithFormat := [fwfTrace, fwfBioEnter]

/-! ## `do_event` for a request record, section by section -/

/-- `new unsigned long long[12]`. -/
abbrev EventData := Vector UInt64 12

/-- The array has words, so that they can be indexed by literals. -/
instance neZeroWords : NeZero 12 := ⟨by decide⟩

/-- `event_data[i] = v`. -/
def EventData.put (d : EventData) (i : Fin 12) (v : UInt64) : EventData := d.set i v

@[simp] theorem EventData.get_put (d : EventData) (i j : Fin 12) (v : UInt64) :
    (d.put i v).get j = if i = j then v else d.get j := by
  show (d.set i v)[(j : Nat)] = if i = j then v else d[(j : Nat)]
  rw [Vector.getElem_set]
  simp only [Fin.ext_iff]

/-- Writing a word back leaves the array as it was. -/
@[simp] theorem EventData.put_get (d : EventData) (i : Fin 12) : d.put i (d.get i) = d :=
  Vector.set_getElem_self i.isLt

section DoEvent

variable (ndebug : Bool) (log : RqTraceEvent)

/-- `bio_enter_time`, `alloc_request` and the direction; a record without a plug time is not logged. -/
def startWords (d : EventData) : Except EarlyExit EventData :=
  let d := (d.put 0 log.bioEnter).put 1 (log.rqStart - log.bioEnter)
  if log.rqSub.plug > 0 then
    -- `1` for a write, `0` for a read
    .ok (if log.rqSub.ioType = .write then d.put 2 1 else d.put 2 0)
  else if ndebug then .error .dropped
  else .error (.fatal "NO PLUG, drop")

/-- `plug` and `scheduling`. -/
def schedWords (d : EventData) : Except EarlyExit EventData :=
  if log.rqSub.sType = .noSchedu then
    -- issued directly: no scheduling, and `plug` lasts to the issue
    if ndebug = false ∧ log.rqSub.path.direct < log.rqSub.plug then .error (.fatal "Error for plug")
    else .ok ((d.put 3 (log.rqSub.path.direct - log.rqSub.plug)).put 4 0)
  else if log.rqSub.sType ≠ .unknownSchedu then
    .ok ((d.put 3 (log.rqSub.path.sched - log.rqSub.plug)).put 4
      (log.rqSub.path.dispatch - log.rqSub.path.sched))
  -- a release build leaves both words as they were allocated
  else if ndebug then .ok d
  else .error (.fatal "UNKNOWN_SCHEDU")

/-- `dispatch`. -/
def dispatchWord (d : EventData) : Except EarlyExit EventData :=
  if log.rqSub.dType = .directDispatch then
    .ok (d.put 5 (log.rqSub.queueRq - log.rqSub.path.direct))
  else if log.rqSub.dType = .unknownDispatch then .error .dropped
  else .ok (d.put 5 (log.rqSub.queueRq - log.rqSub.path.dispatch))

/-- `nvme_exec` and `scsi_exec`. -/
def execWords (d : EventData) : Except EarlyExit EventData :=
  if log.rqComp.drive = .nvme then
    .ok ((d.put 6 (log.rqComp.path.nvmeCompleteRq - log.rqSub.queueRq)).put 7 0)
  else if log.rqComp.drive = .scsi then
    .ok ((d.put 6 0).put 7 (log.rqComp.path.scsiEnd - log.rqSub.queueRq))
  else if ndebug then .ok d
  else .error (.fatal "Unknow drive type")

/-- `nvme_verify` and `scsi_verify`. -/
def verifyWords (d : EventData) : Except EarlyExit EventData :=
  if log.rqComp.drive = .nvme then
    .ok ((d.put 8 (log.rqComp.accountIo - log.rqComp.path.nvmeCompleteRq)).put 9 0)
  else if log.rqComp.drive = .scsi then
    .ok ((d.put 8 0).put 9 (log.rqComp.accountIo - log.rqComp.path.scsiEnd))
  else if ndebug then .ok d
  else .error (.fatal "Unknow drive type")

/-- `__builtin_memcpy(&event_data[10], log->common_name, 16)`. -/
def commonWords (d : EventData) : EventData :=
  (d.put 10 (u64OfBytes (log.commonName.data.take 8))).put 11 (u64OfBytes (log.commonName.data.drop 8))

/-- The array `do_event` fills. The `DLOG_IF(FATAL, event_data[i] < 0)` checks compare unsigned words
    with `0` and never fire. -/
def eventData (heap : EventData) : Except EarlyExit EventData := do
  let d ← startWords ndebug log heap
  let d ← schedWords ndebug log d
  let d ← dispatchWord log d
  let d ← execWords ndebug log d
  let d ← verifyWords ndebug log d
  return commonWords log d

/-- `BlkTraceModule::do_event(const rq_trace_event*)`. -/
def doEventRq (heap : EventData) : Except EarlyExit CommitCall := do
  let d ← eventData ndebug log heap
  return commitWords blkFormats "blk_trace_record" d.toList

end DoEvent

/-- `BlkTraceModule::do_event(const bio_enter*)`. -/
def doEventBio (log : BioEnter) : CommitCall :=
  commitWords blkFormats "bio_enter_record" [log.bioPtr, log.tp]

/-! ## The module -/

/-- `sizeof(struct bio_enter)`. -/
def sizeofBioEnter : Nat := structSize [(8, 8), (8, 8), (8, 8)]

/-- `sizeof(struct rq_trace_event)`: the header, `rq_sub` and `rq_comp`. -/
def sizeofRqTraceEvent : Nat :=
  structSize [(8, 8), (32, 1), (16, 1), (8, 8),
    (structSize [(8, 8), (16, 8), (8, 8), (4, 4), (4, 4), (4, 4)], 8),
    (structSize [(8, 8), (8, 8), (8, 8), (2, 2), (2, 2), (4, 4)], 8)]

/-- The size a record was reserved with. -/
def BlkRecord.dataSz : BlkRecord → Nat
  | .bioEnter _ => sizeofBioEnter
  | .rqTrace _ => sizeofRqTraceEvent

/-- The calls made to the logger, in order, and the heat maps. -/
structure BlkTraceModule where
  commits : List CommitCall
  heatmapTrace : HeatmapCollector

/-- `HeatmapCollector::commit(const rq_trace_event*)`: the disk name is read as a C string. -/
def heatmapCommit (c : HeatmapCollector) (log : RqTraceEvent) : HeatmapCollector :=
  c.commitTo (cString (log.diskName.data ++ log.commonName.data)) log.rqComp.sector
    log.rqComp.statsSectors

/-- `BlkTraceModule::do_meta`. -/
def doMeta (m : BlkTraceModule) (log : RqTraceEvent) : BlkTraceModule :=
  if log.rqSub.plug ≠ 0 then { m with heatmapTrace := heatmapCommit m.heatmapTrace log } else m

/-- `BlkTraceModule::proxy`; an abort is an error. -/
def proxy (ndebug : Bool) (m : BlkTraceModule) (heap : EventData) (data : BlkRecord) :
    Except String BlkTraceModule :=
  if data.dataSz = sizeofRqTraceEvent then
    match data with
    | .rqTrace log =>
        -- a record that was never plugged is ignored
        if log.rqSub.plug ≠ 0 then
          match doEventRq ndebug log heap with
          | .ok call => .ok (doMeta { m with commits := m.commits ++ [call] } log)
          | .error .dropped => .ok (doMeta m log)
          | .error (.fatal msg) => .error msg
        else .ok m
    | .bioEnter _ => .error "Getting unknown type message, exit"
  else if data.dataSz = sizeofBioEnter then
    match data with
    | .bioEnter log => .ok { m with commits := m.commits ++ [doEventBio log] }
    | .rqTrace _ => .error "Getting unknown type message, exit"
  else .error "Getting unknown type message, exit"

/-- The two record sizes `proxy` switches on. -/
theorem sizeof_records : sizeofBioEnter = 24 ∧ sizeofRqTraceEvent = 144 := by decide

/-- **What `proxy` does with a record**, unless it aborts. -/
theorem proxy_cases {ndebug : Bool} {m m' : BlkTraceModule} {heap : EventData} {r : BlkRecord}
    (h : proxy ndebug m heap r = .ok m') :
    (∃ log, r = .bioEnter log ∧ m' = { m with commits := m.commits ++ [doEventBio log] }) ∨
      (∃ log, r = .rqTrace log ∧ log.rqSub.plug = 0 ∧ m' = m) ∨
      (∃ log call, r = .rqTrace log ∧ log.rqSub.plug ≠ 0 ∧ doEventRq ndebug log heap = .ok call ∧
        m' = doMeta { m with commits := m.commits ++ [call] } log) ∨
      ∃ log, r = .rqTrace log ∧ log.rqSub.plug ≠ 0 ∧ doEventRq ndebug log heap = .error .dropped ∧
        m' = doMeta m log := by
  have hne : sizeofBioEnter ≠ sizeofRqTraceEvent := by decide
  cases r with
  | bioEnter log =>
      have hsz : (BlkRecord.bioEnter log).dataSz ≠ sizeofRqTraceEvent := hne
      have hsz' : (BlkRecord.bioEnter log).dataSz = sizeofBioEnter := rfl
      rw [proxy, if_neg hsz, if_pos hsz'] at h
      exact Or.inl ⟨log, rfl, (Except.ok.inj h).symm⟩
  | rqTrace log =>
      have hsz : (BlkRecord.rqTrace log).dataSz = sizeofRqTraceEvent := rfl
      rw [proxy, if_pos hsz] at h
      by_cases hp : log.rqSub.plug = 0
      · simp only [hp, ne_eq, not_true_eq_false, if_false] at h
        exact Or.inr (Or.inl ⟨log, rfl, hp, (Except.ok.inj h).symm⟩)
      · simp only [hp, ne_eq, not_false_eq_true, if_true] at h
        cases hc : doEventRq ndebug log heap with
        | ok call =>
            rw [hc] at h
            exact Or.inr (Or.inr (Or.inl ⟨log, call, rfl, hp, hc, (Except.ok.inj h).symm⟩))
        | error o =>
            rw [hc] at h
            cases o with
            | dropped => exact Or.inr (Or.inr (Or.inr ⟨log, rfl, hp, hc, (Except.ok.inj h).symm⟩))
            | fatal msg => cases h

end StorTrace.BlockTrace
