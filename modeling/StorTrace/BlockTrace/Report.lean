import StorTrace.BlockTrace.Module

/-!
# `BlockTrace.Report` — the post-processor's reading of the block log (`process_blk_trace_log`)

The log file is cut into `blk_trace_record` rows, the eight stage latencies of each row are copied into
eight columns and summed into a ninth, and the end time of request `k` is its submission time plus that
sum.
-/

namespace StorTrace.BlockTrace

/-- `struct blk_trace_record`. -/
structure BlkTraceRecord where
  bioEnter : UInt64
  allocRequest : UInt64
  ioDirection : UInt64
  plug : UInt64
  scheduling : UInt64
  dispatch : UInt64
  nvmeExec : UInt64
  scsiExec : UInt64
  nvmeVerify : UInt64
  scsiVerify : UInt64
  common : List UInt8
deriving DecidableEq

/-- `sizeof(struct blk_trace_record)`. -/
def sizeofBlkTraceRecord : Nat :=
  structSize [(8, 8), (8, 8), (8, 8), (8, 8), (8, 8), (8, 8), (8, 8), (8, 8), (8, 8), (8, 8), (16, 1)]

/-- A row of the file read as a record. -/
def BlkTraceRecord.ofRow (row : List UInt8) : BlkTraceRecord where
  bioEnter := wordAt row 0
  allocRequest := wordAt row 1
  ioDirection := wordAt row 2
  plug := wordAt row 3
  scheduling := wordAt row 4
  dispatch := wordAt row 5
  nvmeExec := wordAt row 6
  scsiExec := wordAt row 7
  nvmeVerify := wordAt row 8
  scsiVerify := wordAt row 9
  common := (row.drop 80).take 16

/-- `LogCollecterVector<blk_trace_record>::make_table` on a file of `n` rows. -/
def makeBlkTable (n : Nat) (file : List UInt8) : List BlkTraceRecord :=
  (rowsOf sizeofBlkTraceRecord n file).map BlkTraceRecord.ofRow

/-- `latency[0][k]` to `latency[7][k]` of one row. -/
def stageLatencies (r : BlkTraceRecord) : List UInt64 :=
  [r.allocRequest, r.plug, r.scheduling, r.dispatch, r.nvmeExec, r.scsiExec, r.nvmeVerify, r.scsiVerify]

/-- The column `latency[8]`: each row's eight stages added up, starting from `0`. -/
def latencySums (table : List BlkTraceRecord) : List UInt64 :=
  table.map (fun r => (stageLatencies r).foldl (· + ·) 0)

/-- The vector `blk_end` before it is sorted: end time and row index. -/
def blkEnd (table : List BlkTraceRecord) : List (TimeStramp × Nat) :=
  (table.zip (latencySums table)).zipIdx.map (fun p => (p.1.1.bioEnter + p.1.2, p.2))

/-- The rows of the block log after the request records `logs` were delivered, each with the contents
    its array was allocated with. -/
def traceRows (ndebug : Bool) (logs : List (EventData × RqTraceEvent)) : List (List UInt8) :=
  logs.filterMap (fun l => committedRow (doEventRq ndebug l.2 l.1))

/-- The table the post-processor loads from that log. -/
def traceTable (ndebug : Bool) (logs : List (EventData × RqTraceEvent)) : List BlkTraceRecord :=
  makeBlkTable (traceRows ndebug logs).length (traceRows ndebug logs).flatten

/-! ## From delivered records to the log -/

/-- Deliver ring-buffer records in order, each with the contents its array is allocated with. -/
def deliver (ndebug : Bool) : BlkTraceModule → List (EventData × BlkRecord) → Except String BlkTraceModule
  | m, [] => .ok m
  | m, r :: rest => proxy ndebug m r.1 r.2 >>= fun m => deliver ndebug m rest

/-- The request records among the delivered ones. -/
def requests (recs : List (EventData × BlkRecord)) : List (EventData × RqTraceEvent) :=
  recs.filterMap (fun r => r.2.rqTrace?.map (fun log => (r.1, log)))

theorem requests_cons (r : EventData × BlkRecord) (rest : List (EventData × BlkRecord)) :
    requests (r :: rest) = requests [r] ++ requests rest := by
  simp only [requests, ← List.filterMap_append, List.singleton_append]

/-- The rows of the log file `blk_trace_record`. -/
def BlkTraceModule.traceLog (m : BlkTraceModule) : List (List UInt8) :=
  (m.commits.filter (fun c => c.fName = "blk_trace_record")).map CommitCall.row

/-- A record that was not plugged commits no row. -/
theorem committedRow_of_plug_zero {ndebug : Bool} {log : RqTraceEvent} {heap : EventData}
    (h : log.rqSub.plug = 0) : committedRow (doEventRq ndebug log heap) = none := by
  cases ndebug <;> simp [doEventRq, eventData, startWords, h, bind, Except.bind, committedRow]

/-- One delivery appends the row of its record, if it has one. -/
theorem traceLog_proxy {ndebug : Bool} {m m' : BlkTraceModule} {heap : EventData} {r : BlkRecord}
    (h : proxy ndebug m heap r = .ok m') :
    m'.traceLog = m.traceLog ++ traceRows ndebug (requests [(heap, r)]) := by
  have hmeta (m : BlkTraceModule) (log : RqTraceEvent) : (doMeta m log).traceLog = m.traceLog := by
    unfold doMeta
    split <;> rfl
  have hrows (log : RqTraceEvent) : traceRows ndebug (requests [(heap, .rqTrace log)]) =
      (committedRow (doEventRq ndebug log heap)).toList := by
    have hreq : requests [(heap, BlkRecord.rqTrace log)] = [(heap, log)] := rfl
    rw [hreq, traceRows, List.filterMap_cons, List.filterMap_nil]
    cases committedRow (doEventRq ndebug log heap) <;> rfl
  obtain ⟨log, rfl, rfl⟩ | ⟨log, rfl, hp, rfl⟩ | ⟨log, call, rfl, -, hc, rfl⟩ | ⟨log, rfl, -, hc, rfl⟩ :=
    proxy_cases h
  · simp [BlkTraceModule.traceLog, requests, traceRows, BlkRecord.rqTrace?, doEventBio, commitWords]
  · rw [hrows, committedRow_of_plug_zero hp, Option.toList_none, List.append_nil]
  · obtain ⟨d, -, hcall⟩ := bind_eq_ok.mp hc
    have hname : call.fName = "blk_trace_record" := by rw [← Except.ok.inj hcall]; rfl
    rw [hrows, hmeta, hc]
    simp [BlkTraceModule.traceLog, hname, committedRow]
  · rw [hrows, hmeta, hc]
    simp [committedRow]

/-- **The log holds the rows of the delivered request records, in order.** -/
theorem traceLog_deliver {ndebug : Bool} {m m' : BlkTraceModule} {recs : List (EventData × BlkRecord)}
    (h : deliver ndebug m recs = .ok m') :
    m'.traceLog = m.traceLog ++ traceRows ndebug (requests recs) := by
  -- by induction on the deliveries still to come
  induction recs generalizing m with
  | nil => rw [← Except.ok.inj h]; simp [requests, traceRows]
  | cons r rest ih =>
      obtain ⟨m₁, h₁, h₂⟩ := bind_eq_ok.mp h
      rw [ih h₂, traceLog_proxy h₁, requests_cons r rest, traceRows, traceRows, traceRows, List.filterMap_append,
        List.append_assoc]

/-! ## Rows -/

/-- A committed row is the whole array of twelve words. -/
theorem row_doEventRq {ndebug : Bool} {log : RqTraceEvent} {heap : EventData} {row : List UInt8}
    (h : committedRow (doEventRq ndebug log heap) = some row) :
    ∃ d, eventData ndebug log heap = .ok d ∧ row = wordsBytes d.toList := by
  cases hc : doEventRq ndebug log heap with
  | error o => rw [hc] at h; exact absurd h (by simp [committedRow])
  | ok call =>
      obtain ⟨d, hd, hcall⟩ := bind_eq_ok.mp hc
      refine ⟨d, hd, ?_⟩
      rw [hc] at h
      rw [← Option.some.inj h, ← Except.ok.inj hcall]
      exact commitWords_row (by rw [Vector.length_toList]; rfl)

/-- Rows of the block log all have the size of a record. -/
theorem length_traceRows {ndebug : Bool} {logs : List (EventData × RqTraceEvent)} {row : List UInt8}
    (h : row ∈ traceRows ndebug logs) : row.length = sizeofBlkTraceRecord := by
  obtain ⟨l, -, hl⟩ := List.mem_filterMap.mp h
  obtain ⟨d, -, rfl⟩ := row_doEventRq hl
  rw [length_wordsBytes, Vector.length_toList]
  rfl

/-- **The table holds one record for each committed row, in order.** -/
theorem traceTable_eq (ndebug : Bool) (logs : List (EventData × RqTraceEvent)) :
    traceTable ndebug logs = (traceRows ndebug logs).map BlkTraceRecord.ofRow := by
  rw [traceTable, makeBlkTable, rowsOf_flatten (fun r hr => length_traceRows hr)]

/-- Word `k` of a committed row is word `k` of the array. -/
theorem wordAt_row (d : EventData) (k : Fin 12) : wordAt (wordsBytes d.toList) k = d.get k := by
  have hk : (k : Nat) < d.toList.length := by rw [Vector.length_toList]; exact k.isLt
  rw [wordAt_wordsBytes _ _ hk, Vector.getElem_toList]
  rfl

/-! ## The stages of one record -/

/-- The record was tagged by one of the two drivers. -/
def KnownDrive (log : RqTraceEvent) : Prop := log.rqComp.drive = .nvme ∨ log.rqComp.drive = .scsi

instance (log : RqTraceEvent) : Decidable (KnownDrive log) := inferInstanceAs (Decidable (_ ∨ _))

/-- `do_event` commits a row for the record. -/
def Commits (ndebug : Bool) (log : RqTraceEvent) (heap : EventData) : Prop :=
  committedRow (doEventRq ndebug log heap) ≠ none

instance (ndebug : Bool) (log : RqTraceEvent) (heap : EventData) :
    Decidable (Commits ndebug log heap) := inferInstanceAs (Decidable (_ ≠ none))


section Stages

variable (log : RqTraceEvent)

/-- The stage `plug`: from plugging to the direct issue or the insert, by the scheduling tag. An untagged
    record leaves the word as it was allocated. -/
def plugStage (heap : EventData) : UInt64 :=
  if log.rqSub.sType = .noSchedu then log.rqSub.path.direct - log.rqSub.plug
  else if log.rqSub.sType ≠ .unknownSchedu then log.rqSub.path.sched - log.rqSub.plug
  else heap.get 3

/-- The stage `scheduling`. -/
def schedulingStage (heap : EventData) : UInt64 :=
  if log.rqSub.sType = .noSchedu then 0
  else if log.rqSub.sType ≠ .unknownSchedu then log.rqSub.path.dispatch - log.rqSub.path.sched
  else heap.get 4

/-- The stage `dispatch`. -/
def dispatchStage : UInt64 :=
  if log.rqSub.dType = .directDispatch then log.rqSub.queueRq - log.rqSub.path.direct
  else log.rqSub.queueRq - log.rqSub.path.dispatch

/-- An execution stage: the time of `done` for a record of `drive`, `0` for the other drive. -/
def driveStage (drive : DriveType) (value : UInt64) (heap : UInt64) : UInt64 :=
  if log.rqComp.drive = drive then value
  else if log.rqComp.drive = .error then heap
  else 0

/-- The eight stages the post-processor reads from a record that was committed. -/
def stageValues (heap : EventData) : List UInt64 :=
  [log.rqStart - log.bioEnter, plugStage log heap, schedulingStage log heap, dispatchStage log,
    driveStage log .nvme (log.rqComp.path.nvmeCompleteRq - log.rqSub.queueRq) (heap.get 6),
    driveStage log .scsi (log.rqComp.path.scsiEnd - log.rqSub.queueRq) (heap.get 7),
    driveStage log .nvme (log.rqComp.accountIo - log.rqComp.path.nvmeCompleteRq) (heap.get 8),
    driveStage log .scsi (log.rqComp.accountIo - log.rqComp.path.scsiEnd) (heap.get 9)]

end Stages

/-! ## The array of one record -/

section Words

variable {ndebug : Bool} {log : RqTraceEvent}

/-- A record that was committed had been plugged; its first words are the submission and the allocation. -/
theorem startWords_ok {d d' : EventData} (h : startWords ndebug log d = .ok d') :
    0 < log.rqSub.plug ∧
      ∃ dir, d' = ((d.put 0 log.bioEnter).put 1 (log.rqStart - log.bioEnter)).put 2 dir := by
  unfold startWords at h
  by_cases hp : log.rqSub.plug > 0
  · simp only [hp, if_true] at h
    refine ⟨hp, if log.rqSub.ioType = .write then 1 else 0, ?_⟩
    rw [← Except.ok.inj h]
    split <;> rfl
  · cases ndebug <;> simp [hp] at h

/-- `plug` and `scheduling` are the two stages before the dispatch. -/
theorem schedWords_ok {d d' : EventData} (h : schedWords ndebug log d = .ok d') :
    d' = (d.put 3 (plugStage log d)).put 4 (schedulingStage log d) := by
  unfold schedWords at h
  unfold plugStage schedulingStage
  by_cases hn : log.rqSub.sType = .noSchedu
  · rw [if_pos hn] at h
    split at h
    · cases h
    · simp only [if_pos hn]
      exact (Except.ok.inj h).symm
  · rw [if_neg hn] at h
    simp only [if_neg hn]
    split at h
    · next hu =>
      simp only [if_pos hu]
      exact (Except.ok.inj h).symm
    · -- an untagged record: only a release build gets here, with the words as they were
      next hu =>
      simp only [if_neg hu]
      split at h
      · rw [← Except.ok.inj h]; simp
      · cases h

/-- A record without a dispatch tag is dropped. -/
theorem dispatchWord_ok {d d' : EventData} (h : dispatchWord log d = .ok d') :
    log.rqSub.dType ≠ .unknownDispatch ∧ d' = d.put 5 (dispatchStage log) := by
  unfold dispatchWord at h
  unfold dispatchStage
  split at h
  · next hd =>
    rw [if_pos hd]
    exact ⟨by rw [hd]; decide, (Except.ok.inj h).symm⟩
  · next hd =>
    split at h
    · cases h
    · next hu => exact ⟨hu, by rw [if_neg hd]; exact (Except.ok.inj h).symm⟩

/-- Each drive has its execution stage; the other drive's is `0`. -/
theorem execWords_ok {d d' : EventData} (h : execWords ndebug log d = .ok d') :
    d' = (d.put 6 (driveStage log .nvme (log.rqComp.path.nvmeCompleteRq - log.rqSub.queueRq) (d.get 6))).put 7
      (driveStage log .scsi (log.rqComp.path.scsiEnd - log.rqSub.queueRq) (d.get 7)) := by
  unfold execWords at h
  unfold driveStage
  cases hd : log.rqComp.drive with
  | error =>
      cases ndebug with
      | true => simp [hd] at h; simp [h]
      | false => simp [hd] at h
  | nvme => simp [hd] at h; simp [← h]
  | scsi => simp [hd] at h; simp [← h]

/-- Each drive has its verification stage; the other drive's is `0`. -/
theorem verifyWords_ok {d d' : EventData} (h : verifyWords ndebug log d = .ok d') :
    d' = (d.put 8
      (driveStage log .nvme (log.rqComp.accountIo - log.rqComp.path.nvmeCompleteRq) (d.get 8))).put 9
      (driveStage log .scsi (log.rqComp.accountIo - log.rqComp.path.scsiEnd) (d.get 9)) := by
  unfold verifyWords at h
  unfold driveStage
  cases hd : log.rqComp.drive with
  | error =>
      cases ndebug with
      | true => simp [hd] at h; simp [h]
      | false => simp [hd] at h
  | nvme => simp [hd] at h; simp [← h]
  | scsi => simp [hd] at h; simp [← h]

/-- **What a committed array holds**: the submission time, and the eight stages of its record. -/
theorem eventData_ok {heap d : EventData} (h : eventData ndebug log heap = .ok d) :
    0 < log.rqSub.plug ∧ log.rqSub.dType ≠ .unknownDispatch ∧ d.get 0 = log.bioEnter ∧
      [d.get 1, d.get 3, d.get 4, d.get 5, d.get 6, d.get 7, d.get 8, d.get 9] = stageValues log heap := by
  -- the array passes through the six sections in turn
  obtain ⟨d₁, h₁, h⟩ := bind_eq_ok.mp h
  obtain ⟨d₂, h₂, h⟩ := bind_eq_ok.mp h
  obtain ⟨d₃, h₃, h⟩ := bind_eq_ok.mp h
  obtain ⟨d₄, h₄, h⟩ := bind_eq_ok.mp h
  obtain ⟨d₅, h₅, h⟩ := bind_eq_ok.mp h
  obtain ⟨hp, dir, e₁⟩ := startWords_ok h₁
  have e₂ := schedWords_ok h₂
  obtain ⟨hu, e₃⟩ := dispatchWord_ok h₃
  have e₄ := execWords_ok h₄
  have e₅ := verifyWords_ok h₅
  have e₆ : d = commonWords log d₅ := (Except.ok.inj h).symm
  refine ⟨hp, hu, ?_, ?_⟩
  · simp [e₆, commonWords, e₅, e₄, e₃, e₂, e₁]
  · simp [e₆, commonWords, e₅, e₄, e₃, e₂, e₁, stageValues, plugStage, schedulingStage]

end Words

/-- A tagged record is committed, unless a debug build finds its direct issue before its plugging. -/
theorem commits_of_tagged {ndebug : Bool} {log : RqTraceEvent} (heap : EventData)
    (hp : 0 < log.rqSub.plug) (hs : log.rqSub.sType ≠ .unknownSchedu)
    (hdirect : log.rqSub.sType = .noSchedu → log.rqSub.plug ≤ log.rqSub.path.direct)
    (ht : log.rqSub.dType ≠ .unknownDispatch) (hd : log.rqComp.drive ≠ .error) :
    Commits ndebug log heap := by
  have h₁ (d : EventData) : ∃ d', startWords ndebug log d = .ok d' := by
    simp only [startWords, if_pos hp]; exact ⟨_, rfl⟩
  have h₂ (d : EventData) : ∃ d', schedWords ndebug log d = .ok d' := by
    unfold schedWords
    split
    · next hn => rw [if_neg (fun h => absurd h.2 (UInt64.not_lt.mpr (hdirect hn)))]; exact ⟨_, rfl⟩
    · exact ⟨_, rfl⟩
  have h₃ (d : EventData) : ∃ d', dispatchWord log d = .ok d' := by
    unfold dispatchWord
    split
    · exact ⟨_, rfl⟩
    · exact ⟨_, rfl⟩
  have h₄ (d : EventData) : ∃ d', execWords ndebug log d = .ok d' := by
    unfold execWords
    cases hdr : log.rqComp.drive with
    | error => exact absurd hdr hd
    | nvme => exact ⟨_, rfl⟩
    | scsi => exact ⟨_, rfl⟩
  have h₅ (d : EventData) : ∃ d', verifyWords ndebug log d = .ok d' := by
    unfold verifyWords
    cases hdr : log.rqComp.drive with
    | error => exact absurd hdr hd
    | nvme => exact ⟨_, rfl⟩
    | scsi => exact ⟨_, rfl⟩
  obtain ⟨d₁, e₁⟩ := h₁ heap
  obtain ⟨d₂, e₂⟩ := h₂ d₁
  obtain ⟨d₃, e₃⟩ := h₃ d₂
  obtain ⟨d₄, e₄⟩ := h₄ d₃
  obtain ⟨d₅, e₅⟩ := h₅ d₄
  have hdata : eventData ndebug log heap = .ok (commonWords log d₅) :=
    bind_eq_ok.mpr ⟨d₁, e₁, bind_eq_ok.mpr ⟨d₂, e₂, bind_eq_ok.mpr ⟨d₃, e₃, bind_eq_ok.mpr
      ⟨d₄, e₄, bind_eq_ok.mpr ⟨d₅, e₅, rfl⟩⟩⟩⟩⟩
  have hcall : doEventRq ndebug log heap = .ok _ := bind_eq_ok.mpr ⟨_, hdata, rfl⟩
  rw [Commits, hcall]
  exact Option.some_ne_none _

/-- **The stages the post-processor reads from a committed row are the record's.** -/
theorem stageLatencies_row {ndebug : Bool} {log : RqTraceEvent} {heap : EventData} {row : List UInt8}
    (h : committedRow (doEventRq ndebug log heap) = some row) :
    (BlkTraceRecord.ofRow row).bioEnter = log.bioEnter ∧
      stageLatencies (BlkTraceRecord.ofRow row) = stageValues log heap := by
  obtain ⟨d, hd, rfl⟩ := row_doEventRq h
  obtain ⟨-, -, h0, hstages⟩ := eventData_ok hd
  have hword := wordAt_row d
  constructor
  · exact (hword 0).trans h0
  · rw [← hstages]
    simp only [← hword]
    rfl

end StorTrace.BlockTrace
