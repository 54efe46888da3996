import StorTrace.BlockTrace.Probes
import StorTrace.BlockTrace.Report

/-!
# `BlockTrace.Telescope` — do the stages of a request add up to its total?

The stages of a record are differences of consecutive stamps, so their sum telescopes along the path the
request took. One link is missing: the time from the request's allocation (`rq_start`) to its plugging
(`plug`) belongs to no stage. The sum therefore falls short of `account_io - bio_enter` by exactly that
crossing, and the end time the post-processor reconstructs is early by as much.
-/

namespace StorTrace.BlockTrace

/-- The scheduling and dispatch tags name the same path: both the direct issue, or both a scheduler. -/
def MatchingPath (log : RqTraceEvent) : Prop :=
  (log.rqSub.sType = .noSchedu ∧ log.rqSub.dType = .directDispatch) ∨
    (log.rqSub.sType ≠ .unknownSchedu ∧ log.rqSub.sType ≠ .noSchedu ∧
      log.rqSub.dType ≠ .unknownDispatch ∧ log.rqSub.dType ≠ .directDispatch)

instance (log : RqTraceEvent) : Decidable (MatchingPath log) :=
  inferInstanceAs (Decidable (_ ∨ _))

/-- From the plugging of a request to its completion, the stages telescope. -/
theorem sum_after_plug {log : RqTraceEvent} (heap : EventData) (hm : MatchingPath log)
    (hd : KnownDrive log) :
    ((stageValues log heap).drop 1).foldl (· + ·) 0 = log.rqComp.accountIo - log.rqSub.plug := by
  have hdrive : driveStage log .nvme (log.rqComp.path.nvmeCompleteRq - log.rqSub.queueRq) (heap.get 6)
      + driveStage log .scsi (log.rqComp.path.scsiEnd - log.rqSub.queueRq) (heap.get 7)
      + driveStage log .nvme (log.rqComp.accountIo - log.rqComp.path.nvmeCompleteRq) (heap.get 8)
      + driveStage log .scsi (log.rqComp.accountIo - log.rqComp.path.scsiEnd) (heap.get 9)
      = log.rqComp.accountIo - log.rqSub.queueRq := by
    -- the stages of the other drive are `0`
    rcases hd with hd | hd
    · simp only [driveStage, hd]; grind
    · simp only [driveStage, hd]; grind
  have hpath : plugStage log heap + schedulingStage log heap + dispatchStage log
      = log.rqSub.queueRq - log.rqSub.plug := by
    rcases hm with ⟨hs, ht⟩ | ⟨hu, hs, -, ht⟩
    · simp only [plugStage, schedulingStage, dispatchStage, hs, ht]; grind
    · simp only [plugStage, schedulingStage, dispatchStage, if_neg hs, if_pos hu, if_neg ht]
      -- `sched` cancels between `plug` and `scheduling`, `dispatch` between `scheduling` and `dispatch`
      grind
  simp only [stageValues, List.drop_succ_cons, List.drop_zero, List.foldl_cons, List.foldl_nil]
  grind

/-- **The eight stages fall short of the total by the time between allocation and plugging.** -/
theorem sum_add_crossing {log : RqTraceEvent} (heap : EventData) (hm : MatchingPath log)
    (hd : KnownDrive log) :
    (stageValues log heap).foldl (· + ·) 0 + (log.rqSub.plug - log.rqStart)
      = log.rqComp.accountIo - log.bioEnter := by
  have hafter := sum_after_plug heap hm hd
  simp only [stageValues, List.drop_succ_cons, List.drop_zero, List.foldl_cons, List.foldl_nil]
    at hafter ⊢
  grind

/-! ## The post-processed table -/

/-- Row `k` of the table sums to the total of `log`, and its end time is the completion of `log`. -/
def SumsToTotal (table : List BlkTraceRecord) (k : Nat) (log : RqTraceEvent) : Prop :=
  (latencySums table)[k]? = some (log.rqComp.accountIo - log.bioEnter) ∧
    (blkEnd table)[k]? = some (log.rqComp.accountIo, k)

instance (table : List BlkTraceRecord) (k : Nat) (log : RqTraceEvent) :
    Decidable (SumsToTotal table k log) := inferInstanceAs (Decidable (_ ∧ _))

/-- A committed record has its own row in the table, after the rows of the records before it. -/
theorem traceTable_at {ndebug : Bool} {a b : List (EventData × RqTraceEvent)} {heap : EventData}
    {log : RqTraceEvent} (hc : Commits ndebug log heap) :
    ∃ row, committedRow (doEventRq ndebug log heap) = some row ∧
      (traceTable ndebug (a ++ (heap, log) :: b))[(traceRows ndebug a).length]?
        = some (BlkTraceRecord.ofRow row) := by
  obtain ⟨row, hrow⟩ := Option.ne_none_iff_exists'.mp hc
  refine ⟨row, hrow, ?_⟩
  have hrows : traceRows ndebug (a ++ (heap, log) :: b)
      = traceRows ndebug a ++ row :: traceRows ndebug b := by
    simp only [traceRows, List.filterMap_append, List.filterMap_cons, hrow]
  rw [traceTable_eq, hrows, List.getElem?_map, List.getElem?_append_right (Nat.le_refl _)]
  simp

/-- The sum and the end time of row `k`. -/
theorem sumsToTotal_iff_of_row {table : List BlkTraceRecord} {k : Nat} {r : BlkTraceRecord}
    {log : RqTraceEvent} (hr : table[k]? = some r) (hb : r.bioEnter = log.bioEnter) :
    SumsToTotal table k log ↔
      (stageLatencies r).foldl (· + ·) 0 = log.rqComp.accountIo - log.bioEnter := by
  have hsum : (latencySums table)[k]? = some ((stageLatencies r).foldl (· + ·) 0) := by
    rw [latencySums, List.getElem?_map, hr]; rfl
  have hend : (blkEnd table)[k]? = some (r.bioEnter + (stageLatencies r).foldl (· + ·) 0, k) := by
    have hzip : (table.zip (latencySums table))[k]? = some (r, (stageLatencies r).foldl (· + ·) 0) :=
      List.getElem?_zip_eq_some.mpr ⟨hr, hsum⟩
    rw [blkEnd, List.getElem?_map, List.getElem?_zipIdx, hzip]
    simp
  rw [SumsToTotal, hsum, hend, hb]
  simp only [Option.some.injEq, Prod.mk.injEq, and_true]
  constructor
  · exact And.left
  · intro h
    -- `blk_end` is the start time plus the sum
    have hend : log.bioEnter + (stageLatencies r).foldl (· + ·) 0 = log.rqComp.accountIo := by
      rw [h]; grind
    exact ⟨h, hend⟩

/-- **The stages of a committed record add up to its total exactly when it was plugged at the clock
    reading it was allocated at.** -/
theorem sumsToTotal_iff {ndebug : Bool} {a b : List (EventData × RqTraceEvent)} {heap : EventData}
    {log : RqTraceEvent} (hm : MatchingPath log) (hd : KnownDrive log)
    (hc : Commits ndebug log heap) :
    SumsToTotal (traceTable ndebug (a ++ (heap, log) :: b)) (traceRows ndebug a).length log ↔
      log.rqSub.plug = log.rqStart := by
  obtain ⟨row, hrow, hget⟩ := traceTable_at (a := a) (b := b) hc
  obtain ⟨hbio, hstages⟩ := stageLatencies_row hrow
  rw [sumsToTotal_iff_of_row hget hbio, hstages]
  have hsum := sum_add_crossing heap hm hd
  constructor
  · -- nothing is missing from the sum, so the crossing is zero
    intro h
    have hzero : log.rqSub.plug - log.rqStart = 0 := by grind
    grind
  · intro h
    have hzero : log.rqSub.plug - log.rqStart = 0 := by rw [h]; grind
    grind

/-- A write issued directly to an `nvme` queue: submitted at `10`, allocated at `20`, plugged at `30`. -/
def directWrite : List BlkProbe :=
  let t : Task := ⟨7, 7, 1, none⟩
  [.blkMqSubmitBio t 1 0 10 true, .rqQosTrack t 2 1 1 20, .blkAddRqToPlug 2 30,
    .blkMqIssueDirectly 2 40, .nvmeQueueRq 2 (CharArray.zero 32) 50, .nvmeCompleteRq 2 60,
    .blkAccountIoDone 2 70 0 8 1 true]

/-- The record of that write. -/
def directWriteLog : RqTraceEvent where
  bioEnter := 10
  diskName := CharArray.zero 32
  commonName := CharArray.zero 16
  rqStart := 20
  rqSub := ⟨30, ⟨40, 0⟩, 50, .noSchedu, .directDispatch, .write⟩
  rqComp := ⟨⟨60⟩, 70, 0, 8, 1, .nvme⟩

/-- The same write plugged at the reading it was allocated at. -/
theorem sumsToTotal_samePlug :
    let log := { directWriteLog with rqStart := 30 }
    MatchingPath log ∧ KnownDrive log ∧ Commits true log (Vector.replicate 12 0) ∧
      SumsToTotal (traceTable true [(Vector.replicate 12 0, log)]) 0 log :=
  ⟨by decide, by decide, by decide,
    (sumsToTotal_iff (a := []) (b := []) (by decide) (by decide) (by decide)).mpr rfl⟩

/-- A write that was allocated before it was plugged is emitted, committed, and does not add up. -/
theorem not_sumsToTotal_directWrite :
    .rqTrace directWriteLog ∈ (blkTracer .off).emit directWrite ∧ MatchingPath directWriteLog ∧
      KnownDrive directWriteLog ∧ Commits true directWriteLog (Vector.replicate 12 0) ∧
      ¬ SumsToTotal (traceTable true [(Vector.replicate 12 0, directWriteLog)]) 0 directWriteLog := by
  decide

end StorTrace.BlockTrace
