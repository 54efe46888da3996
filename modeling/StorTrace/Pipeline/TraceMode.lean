import StorTrace.BlockTrace.Statistics
import StorTrace.Collector.TableRead
import StorTrace.Ext4Dio.Aligned
import StorTrace.Logger.Reload

/-!
# `Pipeline.TraceMode` — from the calls of a tracer to the tables of the post-processor

In trace mode `main` lets a tracer commit its rows, releases its logger and reads everything back: the lines of
`log_meta`, by the first of which it picks a `process_*` function, and the tables that function loads. Whatever
the order in which the ring carries out the writes, the tables are the rows of the calls, by name and in order.
-/

namespace StorTrace.Pipeline

variable {φ : Type}

/-! ## What `main` loads -/

/-- The disk as the post-processor reads it: the bytes of the file at a path, and how many of them the one `read`
    of a table transfers. -/
structure Disk where
  bytes : Str → Str
  transferred : Str → ℕ

/-- The tables of `process_blk_trace_log`, `process_dio_simple_event` and `process_dio_info_event`, or of no
    function at all. -/
inductive Tables where
  | blkTrace (blkRecord bioEnter : List Str)
  | dioSimple (dSimple dSimpleMeta : List Str)
  | dioInfo (dInfo dInfoMeta rqInfo : List Str)
  | other
deriving DecidableEq

/-- `sizeof(struct bio_enter_record)`. -/
def sizeofBioEnterRecord : ℕ := structSize [(8, 8), (8, 8)]

namespace Disk

variable (disk : Disk) (path : Str)

/-- `LogCollecterVector<T> log(line, path); log.make_table();`. -/
def loadLog (sizeofT : ℕ) (line : Str) : Option (List Str) :=
  (LogCollecterVector.new line).bind (fun c =>
    c.makeTableRead sizeofT (disk.bytes (path ++ [47] ++ c.logName)) (disk.transferred (path ++ [47] ++ c.logName)))

/-- `log_map`. -/
def logMap : List (Str × Str) := StorTrace.logMap (disk.bytes (path ++ [47] ++ strBytes "log_meta"))

/-- A table, from the line `log_map[i]`; there may be no such line. -/
def loadEntry (sizeofT i : ℕ) : Option (List Str) :=
  (disk.logMap path)[i]?.bind (fun entry => disk.loadLog path sizeofT entry.2)

/-- The tables of the function `main` picks, where loading them is defined. -/
def loadTables : Option Tables := do
  let first ← (disk.logMap path)[0]?
  if first.1 = strBytes "blk_trace_record" then
    let blkRecord ← disk.loadEntry path BlockTrace.sizeofBlkTraceRecord 0
    let bioEnter ← disk.loadEntry path sizeofBioEnterRecord 1
    return .blkTrace blkRecord bioEnter
  else if first.1 = strBytes "ext4_dio_simple_event" then
    let dSimple ← disk.loadEntry path Ext4Dio.Simple.sizeofDioSimpleEventLog 0
    let dSimpleMeta ← disk.loadEntry path Ext4Dio.sizeofDioMetaLog 1
    return .dioSimple dSimple dSimpleMeta
  else if first.1 = strBytes "dio_info_event" then
    let dInfo ← disk.loadEntry path Ext4Dio.Info.sizeofDioInfoEventLog 0
    let dInfoMeta ← disk.loadEntry path Ext4Dio.sizeofDioMetaLog 1
    let rqInfo ← disk.loadEntry path Ext4Dio.Info.sizeofRqInfoEventLog 2
    return .dioInfo dInfo dInfoMeta rqInfo
  else return .other

end Disk

/-! ## The calls a run of the logger serves -/

/-- The call of `commit` an event is. -/
def callOf : LoggerEvent → Option CommitCall
  | .commit fName row _ => some ⟨fName, row⟩
  | _ => none

/-- The calls of `commit` in a run of the logger, in order. -/
def commitCalls (evs : List LoggerEvent) : List CommitCall := evs.filterMap callOf

/-- The rows of the calls under a name. -/
def rowsTo (name : String) (calls : List CommitCall) : List Str :=
  (calls.filter (fun c => c.fName = name)).map CommitCall.row

/-- Every call names a registered log and has its row size. -/
def CallsFit (formats : List FileWithFormat) (calls : List CommitCall) : Prop :=
  ∀ c ∈ calls, ∃ fwf ∈ formats, fwf.fileName = c.fName ∧ c.row.length = fwf.rowSize

theorem committedTo_eq (name : String) (evs : List LoggerEvent) :
    Logger.committedTo name evs = rowsTo name (commitCalls evs) := by
  induction evs with
  | nil => rfl
  | cons e evs ih =>
      cases e with
      | commit fName row buf =>
          by_cases hname : fName = name
          · simpa [Logger.committedTo, commitCalls, callOf, rowsTo, hname] using ih
          · simpa [Logger.committedTo, commitCalls, callOf, rowsTo, hname] using ih
      | _ => exact ih

theorem CallsFit.registered {L : Logger φ} {evs : List LoggerEvent} (h : CallsFit L.fileFormat (commitCalls evs)) :
    Logger.CommitsRegistered L evs := by
  intro e he fName row buf heq
  have hmem : (⟨fName, row⟩ : CommitCall) ∈ commitCalls evs := List.mem_filterMap.mpr ⟨e, he, by rw [heq, callOf]⟩
  exact h _ hmem

/-! ## What is loaded -/

/-- The post-processor reads what the files hold when the logger has been released, each table with one `read`. -/
structure Shows (L : Logger φ) (s : LoggerState φ) (disk : Disk) : Prop where
  bytes : ∀ path text, (s.files (L.fileAt path)).Holds text → disk.bytes path = text
  transferred : ∀ path, disk.transferred path = (disk.bytes path).length

/-- A tracer's logger after a run that served the calls `calls`: every write was stored whole, the logger has been
    released, and the disk shows its files. -/
structure Served [DecidableEq φ] (L : Logger φ) (calls : List CommitCall) (disk : Disk) : Prop where
  distinct : L.FilesDistinct
  run : ∃ evs s t, L.system.run evs = some (s, t) ∧ s.pc = .released ∧ commitCalls evs = calls ∧
    Run.AllSteps (L.system.Before L.StoresAll) evs ∧ Shows L s disk

variable [DecidableEq φ] {L : Logger φ} {calls : List CommitCall} {disk : Disk}

theorem rowsTo_length {formats : List FileWithFormat} (hnames : (formats.map FileWithFormat.fileName).Nodup)
    (hfit : CallsFit formats calls) {fwf : FileWithFormat} (hfwf : fwf ∈ formats) :
    ∀ r ∈ rowsTo fwf.fileName calls, r.length = fwf.rowSize := by
  intro r hr
  obtain ⟨c, hc, rfl⟩ := List.mem_map.mp hr
  obtain ⟨hmem, hname⟩ := List.mem_filter.mp hc
  obtain ⟨g, hg, hgname, hlen⟩ := hfit c hmem
  have hsame : g = fwf :=
    List.inj_on_of_nodup_map hnames hg hfwf (hgname.trans (by simpa using hname))
  rw [hlen, hsame]

/-- A log's file, when the logger has been released. -/
theorem holds_rows {evs : List LoggerEvent} {s : LoggerState φ} {t : List (LoggerAction φ)}
    (hfiles : L.FilesDistinct) (hfit : CallsFit L.fileFormat (commitCalls evs))
    (hstored : Run.AllSteps (L.system.Before L.StoresAll) evs) (hrun : L.system.run evs = some (s, t))
    (hpc : s.pc = .released) {i : ℕ} {fwf : FileWithFormat} (hfwf : L.fileFormat[i]? = some fwf) :
    (s.files (L.fileAt (L.filePath (strBytes fwf.fileName)))).Holds (rowsTo fwf.fileName (commitCalls evs)).flatten ∧
      s.fileCommitCount i = (rowsTo fwf.fileName (commitCalls evs)).length := by
  have hfile : L.fdSet[i]? = some (L.fileAt (L.filePath (strBytes fwf.fileName))) := by
    rw [Logger.fdSet, List.getElem?_map, hfwf]
    rfl
  have hdata := Logger.dataInv_run hfiles hfile hrun
  have hcommitted : Logger.committed L i evs = rowsTo fwf.fileName (commitCalls evs) := by
    rw [hfit.registered.committed_eq hfiles.names hfwf, committedTo_eq]
  rw [← hcommitted]
  refine ⟨(Assembly.holds_iff_whole hdata.file.inv ?_).mpr ?_, hdata.count⟩
  · simp [Logger.view, ((Logger.phase_run hrun).of_released hpc).1]
  · exact hdata.file.whole_iff.mpr (Logger.allSteps_storesWhole hstored _)

/-- **A log is loaded as it was committed.** -/
theorem Served.loadEntry (h : Served L calls disk) (hreg : ∀ fwf ∈ L.fileFormat, fwf.Registered)
    (hfit : CallsFit L.fileFormat calls) (i : ℕ) (fwf : FileWithFormat) (hfwf : L.fileFormat[i]? = some fwf) :
    (∃ line, (disk.logMap L.path)[i]? = some (strBytes fwf.fileName, line)) ∧
      disk.loadEntry L.path fwf.rowSize i = some (rowsTo fwf.fileName calls) := by
  obtain ⟨evs, s, t, hrun, hpc, rfl, hstored, hshow⟩ := h.run
  have hmem : fwf ∈ L.fileFormat := List.mem_of_getElem? hfwf
  have hregistered := hreg fwf hmem
  obtain ⟨hholds, hcount⟩ := holds_rows h.distinct hfit hstored hrun hpc hfwf
  have hmeta : disk.bytes (L.path ++ [47] ++ strBytes "log_meta") = Meta.logData L.fileFormat s.fileCommitCount :=
    hshow.bytes _ _ (Logger.holds_logData h.distinct hstored hrun hpc)
  have hentry : (disk.logMap L.path)[i]? =
      some (strBytes fwf.fileName, Meta.metaLine fwf (s.fileCommitCount i)) := by
    rw [Disk.logMap, hmeta]
    exact getElem?_logMap hreg _ hfwf
  have hlt := Logger.fileCommitCount_lt hrun i
  have hnew := hregistered.decodable.new_metaLine (s.fileCommitCount i) (by omega)
  have hsize : ((fwf.elemsSize.sum : ℕ) : Int) = fwf.rowSize := by
    rw [List.sum_eq_foldl_nat, ← hregistered.rowSize]
  have hbytes : disk.bytes (L.path ++ [47] ++ strBytes fwf.fileName) =
      (rowsTo fwf.fileName (commitCalls evs)).flatten := hshow.bytes _ _ hholds
  have hrows := rowsTo_length h.distinct.names hfit hmem
  refine ⟨⟨_, hentry⟩, ?_⟩
  unfold Disk.loadEntry Disk.loadLog
  rw [hentry, Option.bind_some, hnew, Option.bind_some, hshow.transferred, hbytes,
    ← LogCollecterVector.makeTable_eq_read, LogCollecterVector.makeTable_flatten (by rw [hcount]) hsize hrows]
  intro n hn
  obtain rfl := Option.some.inj hn
  rw [Contents.length_flatten hrows, Int.toNat_natCast, hcount]

/-- A log never has more rows than its count can say. -/
theorem Served.rowsTo_lt (h : Served L calls disk) (hfit : CallsFit L.fileFormat calls) (i : ℕ) (fwf : FileWithFormat)
    (hfwf : L.fileFormat[i]? = some fwf) : (rowsTo fwf.fileName calls).length < 0x80000000 := by
  obtain ⟨evs, s, t, hrun, hpc, rfl, hstored, -⟩ := h.run
  rw [← (holds_rows h.distinct hfit hstored hrun hpc hfwf).2]
  exact Logger.fileCommitCount_lt hrun i

/-! ## The three tracers -/

/-- The formats of the three tracers are such that what is registered can be read back. -/
theorem registered_blkFormats : ∀ fwf ∈ BlockTrace.blkFormats, fwf.Registered := by
  intro fwf hfwf
  simp only [BlockTrace.blkFormats, List.mem_cons, List.not_mem_nil, or_false] at hfwf
  rcases hfwf with rfl | rfl <;> exact ⟨rfl, by decide, rfl, by decide, by decide +kernel⟩

theorem registered_simpleFormats : ∀ fwf ∈ Ext4Dio.Simple.formats, fwf.Registered := by
  intro fwf hfwf
  simp only [Ext4Dio.Simple.formats, List.mem_cons, List.not_mem_nil, or_false] at hfwf
  rcases hfwf with rfl | rfl <;> exact ⟨rfl, by decide, rfl, by decide, by decide +kernel⟩

theorem registered_infoFormats : ∀ fwf ∈ Ext4Dio.Info.formats, fwf.Registered := by
  intro fwf hfwf
  simp only [Ext4Dio.Info.formats, List.mem_cons, List.not_mem_nil, or_false] at hfwf
  rcases hfwf with rfl | rfl | rfl <;> exact ⟨rfl, by decide, rfl, by decide, by decide +kernel⟩

/-- The tables of the block tracer. -/
theorem Served.blkTrace (h : Served L calls disk) (hformat : L.fileFormat = BlockTrace.blkFormats)
    (hfit : CallsFit BlockTrace.blkFormats calls) :
    disk.loadTables L.path =
      some (.blkTrace (rowsTo "blk_trace_record" calls) (rowsTo "bio_enter_record" calls)) := by
  have hload := h.loadEntry (by rw [hformat]; exact registered_blkFormats) (by rw [hformat]; exact hfit)
  obtain ⟨⟨line, hfirst⟩, htrace⟩ := hload 0 BlockTrace.fwfTrace (by rw [hformat]; rfl)
  obtain ⟨-, henter⟩ := hload 1 BlockTrace.fwfBioEnter (by rw [hformat]; rfl)
  have hname : strBytes BlockTrace.fwfTrace.fileName = strBytes "blk_trace_record" := rfl
  unfold Disk.loadTables
  simp only [hfirst, Option.bind_eq_bind, Option.bind_some, if_pos hname]
  change (disk.loadEntry L.path BlockTrace.fwfTrace.rowSize 0).bind (fun blkRecord =>
    (disk.loadEntry L.path BlockTrace.fwfBioEnter.rowSize 1).bind _) = _
  rw [htrace, henter]
  rfl

/-- The tables of the simple direct-I/O tracer. -/
theorem Served.dioSimple (h : Served L calls disk) (hformat : L.fileFormat = Ext4Dio.Simple.formats)
    (hfit : CallsFit Ext4Dio.Simple.formats calls) :
    disk.loadTables L.path =
      some (.dioSimple (rowsTo "ext4_dio_simple_event" calls) (rowsTo "ext4_dio_simple_meta" calls)) := by
  have hload := h.loadEntry (by rw [hformat]; exact registered_simpleFormats) (by rw [hformat]; exact hfit)
  obtain ⟨⟨line, hfirst⟩, hevent⟩ := hload 0 Ext4Dio.Simple.fwfEvent (by rw [hformat]; rfl)
  obtain ⟨-, hmeta⟩ := hload 1 Ext4Dio.Simple.fwfMeta (by rw [hformat]; rfl)
  have hblk : strBytes Ext4Dio.Simple.fwfEvent.fileName ≠ strBytes "blk_trace_record" := by decide +kernel
  have hname : strBytes Ext4Dio.Simple.fwfEvent.fileName = strBytes "ext4_dio_simple_event" := rfl
  unfold Disk.loadTables
  simp only [hfirst, Option.bind_eq_bind, Option.bind_some, if_neg hblk, if_pos hname]
  change (disk.loadEntry L.path Ext4Dio.Simple.fwfEvent.rowSize 0).bind (fun dSimple =>
    (disk.loadEntry L.path Ext4Dio.Simple.fwfMeta.rowSize 1).bind _) = _
  rw [hevent, hmeta]
  rfl

/-- The tables of the direct-I/O tracer with requests. -/
theorem Served.dioInfo (h : Served L calls disk) (hformat : L.fileFormat = Ext4Dio.Info.formats)
    (hfit : CallsFit Ext4Dio.Info.formats calls) :
    disk.loadTables L.path =
      some (.dioInfo (rowsTo "dio_info_event" calls) (rowsTo "dio_info_event_meta" calls)
        (rowsTo "rq_info_event" calls)) := by
  have hload := h.loadEntry (by rw [hformat]; exact registered_infoFormats) (by rw [hformat]; exact hfit)
  obtain ⟨⟨line, hfirst⟩, hdio⟩ := hload 0 Ext4Dio.Info.fwfDioInfoEvent (by rw [hformat]; rfl)
  obtain ⟨-, hmeta⟩ := hload 1 Ext4Dio.Info.fwfDioInfoEventMeta (by rw [hformat]; rfl)
  obtain ⟨-, hrq⟩ := hload 2 Ext4Dio.Info.fwfRqInfoEvent (by rw [hformat]; rfl)
  have hblk : strBytes Ext4Dio.Info.fwfDioInfoEvent.fileName ≠ strBytes "blk_trace_record" := by decide +kernel
  have hsimple : strBytes Ext4Dio.Info.fwfDioInfoEvent.fileName ≠ strBytes "ext4_dio_simple_event" := by
    decide +kernel
  have hname : strBytes Ext4Dio.Info.fwfDioInfoEvent.fileName = strBytes "dio_info_event" := rfl
  unfold Disk.loadTables
  simp only [hfirst, Option.bind_eq_bind, Option.bind_some, if_neg hblk, if_neg hsimple, if_pos hname]
  change (disk.loadEntry L.path Ext4Dio.Info.fwfDioInfoEvent.rowSize 0).bind (fun dInfo =>
    (disk.loadEntry L.path Ext4Dio.Info.fwfDioInfoEventMeta.rowSize 1).bind (fun dInfoMeta =>
      (disk.loadEntry L.path Ext4Dio.Info.fwfRqInfoEvent.rowSize 2).bind _)) = _
  rw [hdio, hmeta, hrq]
  rfl

end StorTrace.Pipeline
