import StorTrace.BlockTrace.Determined
import StorTrace.BlockTrace.RowOrder
import StorTrace.BlockTrace.Telescope
import StorTrace.Pipeline.Schedule

/-!
# `Pipeline.BlockTrace` — from the records of the block tracer to the tables of its report

The block tracer logs the bios that enter in one log and the requests it can make a row of in another. What
`process_blk_trace_log` reads back is a record for each of them, field by field.
-/

namespace StorTrace.BlockTrace

open Pipeline

/-! ## The record of a request -/

/-- The record that is read back for a request. -/
def recordOf (l : EventData × RqTraceEvent) : BlkTraceRecord where
  bioEnter := l.2.bioEnter
  allocRequest := l.2.rqStart - l.2.bioEnter
  ioDirection := directionWord l.2
  plug := plugStage l.2 l.1
  scheduling := schedulingStage l.2 l.1
  dispatch := dispatchStage l.2
  nvmeExec := driveStage l.2 .nvme (l.2.rqComp.path.nvmeCompleteRq - l.2.rqSub.queueRq) (l.1.get 6)
  scsiExec := driveStage l.2 .scsi (l.2.rqComp.path.scsiEnd - l.2.rqSub.queueRq) (l.1.get 7)
  nvmeVerify := driveStage l.2 .nvme (l.2.rqComp.accountIo - l.2.rqComp.path.nvmeCompleteRq) (l.1.get 8)
  scsiVerify := driveStage l.2 .scsi (l.2.rqComp.accountIo - l.2.rqComp.path.scsiEnd) (l.1.get 9)
  common := l.2.commonName.data

/-- The words that no stage is in. -/
theorem eventData_words {ndebug : Bool} {log : RqTraceEvent} {heap d : EventData}
    (h : eventData ndebug log heap = .ok d) :
    d.get 2 = directionWord log ∧ d.get 10 = u64OfBytes (log.commonName.data.take 8) ∧
      d.get 11 = u64OfBytes (log.commonName.data.drop 8) := by
  obtain ⟨d₁, h₁, h⟩ := bind_eq_ok.mp h
  obtain ⟨d₂, h₂, h⟩ := bind_eq_ok.mp h
  obtain ⟨d₃, h₃, h⟩ := bind_eq_ok.mp h
  obtain ⟨d₄, h₄, h⟩ := bind_eq_ok.mp h
  obtain ⟨d₅, h₅, h⟩ := bind_eq_ok.mp h
  have hdirection : d₁.get 2 = directionWord log := by
    unfold startWords at h₁
    unfold directionWord
    by_cases hplug : log.rqSub.plug > 0
    · simp only [hplug, if_true] at h₁
      rw [← Except.ok.inj h₁]
      split <;> simp
    · cases ndebug <;> simp [hplug] at h₁
  have e₂ := schedWords_ok h₂
  obtain ⟨-, e₃⟩ := dispatchWord_ok h₃
  have e₄ := execWords_ok h₄
  have e₅ := verifyWords_ok h₅
  have e₆ : d = commonWords log d₅ := (Except.ok.inj h).symm
  refine ⟨?_, ?_, ?_⟩
  · simp [e₆, commonWords, e₅, e₄, e₃, e₂, hdirection]
  · simp [e₆, commonWords]
  · simp [e₆, commonWords]

/-- The member `common` of a row is the end of its array. -/
theorem common_row (d : EventData) :
    (BlkTraceRecord.ofRow (wordsBytes d.toList)).common = u64Bytes (d.get 10) ++ u64Bytes (d.get 11) := by
  have hlast : d.toList.drop 10 = [d.get 10, d.get 11] := by
    rw [toList_eventData]
    rfl
  have hdrop : (wordsBytes d.toList).drop 80 = wordsBytes [d.get 10, d.get 11] := by
    rw [← hlast]
    exact drop_wordsBytes d.toList 10
  show ((wordsBytes d.toList).drop 80).take 16 = _
  rw [hdrop]
  simp [wordsBytes]

/-- **A committed row is read back as the record of its request.** -/
theorem ofRow_committed {ndebug : Bool} {l : EventData × RqTraceEvent} {row : Str}
    (h : committedRow (doEventRq ndebug l.2 l.1) = some row) : BlkTraceRecord.ofRow row = recordOf l := by
  obtain ⟨hbio, hstages⟩ := stageLatencies_row h
  obtain ⟨d, hd, rfl⟩ := row_doEventRq h
  obtain ⟨hdir, hfirst, hsecond⟩ := eventData_words hd
  have hdirection : (BlkTraceRecord.ofRow (wordsBytes d.toList)).ioDirection = directionWord l.2 :=
    (wordAt_row d 2).trans hdir
  have hcommon : (BlkTraceRecord.ofRow (wordsBytes d.toList)).common = l.2.commonName.data := by
    have hsize := l.2.commonName.size_eq
    rw [common_row, hfirst, hsecond, u64Bytes_u64OfBytes (by rw [List.length_take]; omega),
      u64Bytes_u64OfBytes (by rw [List.length_drop]; omega), List.take_append_drop]
  generalize BlkTraceRecord.ofRow (wordsBytes d.toList) = r at hbio hstages hdirection hcommon
  obtain ⟨bioEnter, allocRequest, ioDirection, plug, scheduling, dispatch, nvmeExec, scsiExec, nvmeVerify, scsiVerify,
    common⟩ := r
  simp only [stageLatencies, stageValues, List.cons.injEq, and_true] at hbio hstages hdirection hcommon
  obtain ⟨h1, h2, h3, h4, h5, h6, h7, h8⟩ := hstages
  simp only [recordOf, hbio, hdirection, hcommon, h1, h2, h3, h4, h5, h6, h7, h8]

/-! ## The calls of the module -/

/-- The bios among the delivered records. -/
def bios (recs : List (EventData × BlkRecord)) : List BioEnter :=
  recs.filterMap (fun r =>
    match r.2 with
    | .bioEnter log => some log
    | .rqTrace _ => none)

/-- The requests a row is committed for, each with the contents its array was allocated with. -/
def committed (ndebug : Bool) (recs : List (EventData × BlkRecord)) : List (EventData × RqTraceEvent) :=
  (requests recs).filter (fun l => Commits ndebug l.2 l.1)

/-- The calls for one record. -/
def callsOf (ndebug : Bool) (r : EventData × BlkRecord) : List CommitCall :=
  match r.2 with
  | .bioEnter log => [⟨"bio_enter_record", wordsBytes [log.bioPtr, log.tp]⟩]
  | .rqTrace log => (committedRow (doEventRq ndebug log r.1)).toList.map (CommitCall.mk "blk_trace_record")

variable {ndebug : Bool} {m m' : BlkTraceModule} {recs : List (EventData × BlkRecord)}

theorem commits_proxy {heap : EventData} {r : BlkRecord} (h : proxy ndebug m heap r = .ok m') :
    m'.commits = m.commits ++ callsOf ndebug (heap, r) := by
  have hmeta : ∀ (m : BlkTraceModule) (log : RqTraceEvent), (doMeta m log).commits = m.commits := by
    intro m log
    unfold doMeta
    split <;> rfl
  obtain ⟨log, rfl, rfl⟩ | ⟨log, rfl, hp, rfl⟩ | ⟨log, call, rfl, -, hc, rfl⟩ | ⟨log, rfl, -, hc, rfl⟩ :=
    proxy_cases h
  · rfl
  · simp [callsOf, committedRow_of_plug_zero hp]
  · obtain ⟨d, -, hcall⟩ := bind_eq_ok.mp hc
    have hname : call.fName = "blk_trace_record" := by
      rw [← Except.ok.inj hcall]
      rfl
    rw [hmeta]
    simp [callsOf, hc, committedRow, ← hname]
  · rw [hmeta]
    simp [callsOf, hc, committedRow]

theorem commits_deliver (h : deliver ndebug m recs = .ok m') :
    m'.commits = m.commits ++ recs.flatMap (callsOf ndebug) := by
  induction recs generalizing m with
  | nil =>
      rw [← Except.ok.inj h]
      exact (List.append_nil _).symm
  | cons r recs ih =>
      obtain ⟨m₁, h₁, h₂⟩ := bind_eq_ok.mp h
      rw [ih h₂, commits_proxy h₁, List.flatMap_cons, List.append_assoc]

theorem callsFit_callsOf (ndebug : Bool) (recs : List (EventData × BlkRecord)) :
    CallsFit blkFormats (recs.flatMap (callsOf ndebug)) := by
  intro c hc
  obtain ⟨⟨heap, r⟩, -, hc⟩ := List.mem_flatMap.mp hc
  cases r with
  | bioEnter log =>
      obtain rfl := List.mem_singleton.mp hc
      exact ⟨fwfBioEnter, by simp [blkFormats], rfl, length_wordsBytes _⟩
  | rqTrace log =>
      obtain ⟨row, hrow, rfl⟩ := List.mem_map.mp hc
      obtain ⟨d, -, hd⟩ := row_doEventRq (Option.mem_toList.mp hrow)
      refine ⟨fwfTrace, by simp [blkFormats], rfl, ?_⟩
      show row.length = _
      rw [hd, length_wordsBytes, Vector.length_toList]
      rfl

/-- The rows of the two logs. -/
theorem rowsTo_callsOf (ndebug : Bool) (recs : List (EventData × BlkRecord)) :
    rowsTo "blk_trace_record" (recs.flatMap (callsOf ndebug)) = traceRows ndebug (requests recs) ∧
      rowsTo "bio_enter_record" (recs.flatMap (callsOf ndebug)) =
        (bios recs).map (fun log => wordsBytes [log.bioPtr, log.tp]) := by
  induction recs with
  | nil => exact ⟨rfl, rfl⟩
  | cons r recs ih =>
      have hcons : ∀ name, rowsTo name ((r :: recs).flatMap (callsOf ndebug)) =
          rowsTo name (callsOf ndebug r) ++ rowsTo name (recs.flatMap (callsOf ndebug)) := by
        intro name
        rw [List.flatMap_cons, rowsTo, List.filter_append, List.map_append]
        rfl
      rw [hcons, hcons, ih.1, ih.2]
      obtain ⟨heap, r⟩ := r
      cases r with
      | bioEnter log => exact ⟨rfl, rfl⟩
      | rqTrace log =>
          have hrequests : requests ((heap, BlkRecord.rqTrace log) :: recs) = (heap, log) :: requests recs := rfl
          have hbios : bios ((heap, BlkRecord.rqTrace log) :: recs) = bios recs := rfl
          rw [hrequests, hbios]
          cases hrow : committedRow (doEventRq ndebug log heap) with
          | none => simp [callsOf, rowsTo, hrow, traceRows]
          | some row => simp [callsOf, rowsTo, hrow, traceRows]

/-- The rows of the requests, read back. -/
theorem map_ofRow_traceRows (ndebug : Bool) (logs : List (EventData × RqTraceEvent)) :
    (traceRows ndebug logs).map BlkTraceRecord.ofRow =
      (logs.filter (fun l => Commits ndebug l.2 l.1)).map recordOf := by
  induction logs with
  | nil => rfl
  | cons l logs ih =>
      rw [traceRows, List.filterMap_cons, List.filter_cons]
      cases hrow : committedRow (doEventRq ndebug l.2 l.1) with
      | none =>
          have hdrop : ¬ Commits ndebug l.2 l.1 := fun h => h hrow
          rw [if_neg (by simpa using hdrop)]
          exact ih
      | some row =>
          have hcommit : Commits ndebug l.2 l.1 := by
            rw [Commits, hrow]
            exact Option.some_ne_none row
          rw [if_pos (decide_eq_true hcommit), List.map_cons, List.map_cons, ofRow_committed hrow]
          exact congrArg _ ih

/-! ## A whole trace -/

/-- `struct bio_enter_record` from a row. -/
def BioEnterRecord.ofRow (row : Str) : BioEnterRecord := ⟨wordAt row 0, wordAt row 1⟩

/-- What the post-processor reads of a trace in which the records `recs` were delivered. -/
structure Loads (disk : Disk) (path : Str) (ndebug : Bool) (recs : List (EventData × BlkRecord)) : Prop where
  /-- A record for each request that a row was committed for, and one for each bio, in the order of delivery. -/
  load : ∃ blkRecord bioEnter, disk.loadTables path = some (.blkTrace blkRecord bioEnter) ∧
    blkRecord.map BlkTraceRecord.ofRow = (committed ndebug recs).map recordOf ∧
    bioEnter.map BioEnterRecord.ofRow = (bios recs).map (fun log => ⟨log.bioPtr, log.tp⟩)
  /-- The loop over the rows is defined if the names of the tasks end within their fields. -/
  defined : (∀ l ∈ committed ndebug recs, 0 ∈ l.2.commonName.data) → RowsDefined ((committed ndebug recs).map recordOf)
  /-- The end of a request on one path is its completion, less the time from its allocation to its plugging. -/
  ends : ∀ l ∈ committed ndebug recs, MatchingPath l.2 → KnownDrive l.2 →
    endTime (recordOf l) + (l.2.rqSub.plug - l.2.rqStart) = l.2.rqComp.accountIo

/-- The rows of the bios, read back. -/
theorem map_ofRow_bios (logs : List BioEnter) :
    (logs.map (fun log => wordsBytes [log.bioPtr, log.tp])).map BioEnterRecord.ofRow =
      logs.map (fun log => ⟨log.bioPtr, log.tp⟩) := by
  rw [List.map_map]
  refine List.map_congr_left (fun log _ => ?_)
  have hfirst : wordAt (wordsBytes [log.bioPtr, log.tp]) 0 = log.bioPtr := wordAt_wordsBytes _ 0 (by simp)
  have hsecond : wordAt (wordsBytes [log.bioPtr, log.tp]) 1 = log.tp := wordAt_wordsBytes _ 1 (by simp)
  simp only [Function.comp_apply, BioEnterRecord.ofRow, hfirst, hsecond]

/-- What is loaded, row by row. -/
theorem loadTables_deliver {φ : Type} [DecidableEq φ] {heatmapTrace : HeatmapCollector}
    (h : deliver ndebug ⟨[], heatmapTrace⟩ recs = .ok m) {L : Logger φ} {disk : Disk}
    (hformat : L.fileFormat = blkFormats) (hserved : Served L m.commits disk) :
    disk.loadTables L.path = some (.blkTrace (traceRows ndebug (requests recs))
        ((bios recs).map (fun log => wordsBytes [log.bioPtr, log.tp]))) ∧
      (traceRows ndebug (requests recs)).length < 0x80000000 := by
  have hcommits : m.commits = recs.flatMap (callsOf ndebug) := commits_deliver h
  have hfit : CallsFit blkFormats m.commits := hcommits ▸ callsFit_callsOf ndebug recs
  obtain ⟨htrace, henter⟩ := rowsTo_callsOf ndebug recs
  have hload := hserved.blkTrace hformat hfit
  have hlen : (rowsTo "blk_trace_record" m.commits).length < 0x80000000 :=
    hserved.rowsTo_lt (by rw [hformat]; exact hfit) 0 fwfTrace (by rw [hformat]; rfl)
  rw [hcommits, htrace] at hlen
  rw [hcommits, htrace, henter] at hload
  exact ⟨hload, hlen⟩

/-- The loop over the rows is defined if the names of the tasks end within their fields. -/
theorem rowsDefined_committed (hlen : (traceRows ndebug (requests recs)).length < 0x80000000)
    (hnames : ∀ l ∈ committed ndebug recs, 0 ∈ l.2.commonName.data) :
    RowsDefined ((committed ndebug recs).map recordOf) := by
  have hrecords : (traceRows ndebug (requests recs)).map BlkTraceRecord.ofRow = (committed ndebug recs).map recordOf :=
    map_ofRow_traceRows ndebug (requests recs)
  constructor
  · have hlength := congrArg List.length hrecords
    rw [List.length_map] at hlength
    rw [← hlength]
    unfold intMax
    omega
  · exact commonName_ne_none (List.forall_mem_map.mpr hnames)

/-- **A trace of the block tracer, from its records to its tables**, whatever the order in which the ring carries out
    the writes. -/
theorem loads_blkTrace {φ : Type} [DecidableEq φ] {heatmapTrace : HeatmapCollector}
    (h : deliver ndebug ⟨[], heatmapTrace⟩ recs = .ok m) {L : Logger φ} {disk : Disk}
    (hformat : L.fileFormat = blkFormats) (hserved : Served L m.commits disk) : Loads disk L.path ndebug recs := by
  obtain ⟨hload, hlen⟩ := loadTables_deliver h hformat hserved
  refine ⟨⟨_, _, hload, map_ofRow_traceRows ndebug (requests recs), map_ofRow_bios (bios recs)⟩,
    rowsDefined_committed hlen, ?_⟩
  intro l _ hpath hdrive
  have hsum : endTime (recordOf l) = l.2.bioEnter + (stageValues l.2 l.1).foldl (· + ·) 0 := rfl
  have hcrossing := sum_add_crossing l.1 hpath hdrive
  rw [hsum]
  grind

/-- The logger of the module, on a file system where every path is a file of its own. -/
def blkLog : Logger Str where
  path := strBytes "t"
  fileFormat := blkFormats
  fileAt := id
  disk := fun _ => .empty
  sqEntries := 8

/-- What the probes of a direct write send, with arrays of zeros. -/
def directWriteRecords : List (EventData × BlkRecord) :=
  ((blkTracer .off).emit directWrite).map (fun r => (Vector.replicate 12 0, r))

/-- A run of its trace. -/
theorem exists_directWriteTrace : ∃ (m : BlkTraceModule) (disk : Disk),
    deliver true ⟨[], .new 1⟩ directWriteRecords = .ok m ∧ Served blkLog m.commits disk := by
  have hok : (deliver true ⟨[], .new 1⟩ directWriteRecords).toOption.isSome = true := by decide
  obtain ⟨m, hm⟩ : ∃ m, deliver true ⟨[], .new 1⟩ directWriteRecords = .ok m := by
    cases hdeliver : deliver true ⟨[], .new 1⟩ directWriteRecords with
    | ok m => exact ⟨m, rfl⟩
    | error msg => simp [hdeliver, Except.toOption] at hok
  have hcommits : m.commits = directWriteRecords.flatMap (callsOf true) := commits_deliver hm
  obtain ⟨disk, hdisk⟩ : ∃ disk, Served blkLog m.commits disk := by
    rw [hcommits]
    exact exists_served (L := blkLog) (by decide +kernel) registered_blkFormats (callsFit_callsOf true _) (by decide)
      (by decide) (by decide) (by decide +kernel)
  exact ⟨m, disk, hm, hdisk⟩

theorem loads_blkTrace_write :
    ∃ (m : BlkTraceModule) (disk : Disk), deliver true ⟨[], .new 1⟩ directWriteRecords = .ok m ∧
      Served blkLog m.commits disk ∧ Loads disk blkLog.path true directWriteRecords := by
  obtain ⟨m, disk, hm, hdisk⟩ := exists_directWriteTrace
  exact ⟨m, disk, hm, hdisk, loads_blkTrace hm rfl hdisk⟩

end StorTrace.BlockTrace
