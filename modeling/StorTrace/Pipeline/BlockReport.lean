import StorTrace.Pipeline.BlockTrace
import StorTrace.Viewer.BlockReport

/-!
# `Pipeline.BlockReport` — from the records of the block tracer to the charts of its report

The tables that are read back are those of the requests a row was committed for, and the viewer is started on the output
directory that `main` has made for them. So its charts are charts of these requests, whenever their ends fit into the
windows.
-/

namespace StorTrace.BlockTrace

open Pipeline FileTree FileTree.FileSystem

/-- **The report of a block trace**, from its records to the charts: the viewer shows the throughput, the averages and
    the distributions of the requests exactly if the windows of their ends fit, in whatever order the ring carried out
    the writes and `std::sort` left equal ends. -/
theorem reportShown_blkTrace {φ : Type} [DecidableEq φ] {ndebug : Bool} {m : BlkTraceModule}
    {recs : List (EventData × BlkRecord)} {heatmapTrace : HeatmapCollector}
    (h : deliver ndebug ⟨[], heatmapTrace⟩ recs = .ok m) {L : Logger φ} {disk : Disk}
    (hformat : L.fileFormat = blkFormats) (hserved : Served L m.commits disk) {blkRecord bioEnter : List Str}
    (hload : disk.loadTables L.path = some (.blkTrace blkRecord bioEnter))
    (hcommon : ∀ l ∈ committed ndebug recs, 0 ∈ l.2.commonName.data) {first : TimeStramp × ℕ}
    {rest : List (TimeStramp × ℕ)} (hsorted : SortedByTime (blkEnd (blkRecord.map .ofRow)) (first :: rest))
    {fs : FileSystem ReportFile} {d : Place} (hdir : TraceDir fs L.path d) {names : List Name}
    (hnames : Expansion fs d names) (hfree : ∀ name ∈ blkNames, fs.node (d ++ [resultFile name]) = none)
    (pmcInv : UInt32) :
    ReportShown ((processBlkTraceLog ndebug pmcInv (blkRecord.map .ofRow) (bioEnter.map .ofRow) (first :: rest)).write
        (setUpOutput fs L.path (outPath L.path) names) (outPath L.path)) (viewerPath (outPath L.path))
        (intParam pmcInv.toUInt64) first.1 ((committed ndebug recs).map recordOf) ↔
      WindowsFit (intParam pmcInv.toUInt64) first.1 ((first :: rest).map Prod.fst) := by
  obtain ⟨htables, hlen⟩ := loadTables_deliver h hformat hserved
  have hsame := Option.some.inj (hload.symm.trans htables)
  rw [Tables.blkTrace.injEq] at hsame
  obtain ⟨rfl, rfl⟩ := hsame
  have hrecords : (traceRows ndebug (requests recs)).map BlkTraceRecord.ofRow = (committed ndebug recs).map recordOf :=
    map_ofRow_traceRows ndebug (requests recs)
  have hdefined := rowsDefined_committed hlen hcommon
  have hout := (freshCopy_setUpOutput hdir hnames).outputDir hfree
  rw [hrecords] at hsorted ⊢
  constructor
  · exact windowsFit_of_reportShown hout hdefined hsorted
  · exact reportShown_of_fits hout hdefined hsorted

/-- The report of a direct write, on a run of its trace. -/
theorem reportShown_blkTrace_write :
    ∃ (m : BlkTraceModule) (disk : Disk), deliver true ⟨[], .new 1⟩ directWriteRecords = .ok m ∧
      Served blkLog m.commits disk ∧ ∃ blkRecord bioEnter, disk.loadTables blkLog.path = some (.blkTrace blkRecord bioEnter) ∧
        ReportShown ((processBlkTraceLog true 1 (blkRecord.map .ofRow) (bioEnter.map .ofRow) [(60, 0)]).write
          (setUpOutput (onlyDir blkLog.path) blkLog.path (outPath blkLog.path) []) (outPath blkLog.path))
          (viewerPath (outPath blkLog.path)) 1 60
          ((committed true directWriteRecords).map recordOf) := by
  obtain ⟨m, disk, hm, hdisk⟩ := exists_directWriteTrace
  obtain ⟨htables, -⟩ := loadTables_deliver hm rfl hdisk
  have hends : blkEnd ((traceRows true (requests directWriteRecords)).map .ofRow) = [(60, 0)] := by decide +kernel
  have hsorted : SortedByTime (blkEnd ((traceRows true (requests directWriteRecords)).map .ofRow)) [(60, 0)] :=
    ⟨by rw [hends], List.pairwise_singleton _ _⟩
  have hdir : TraceDir (onlyDir blkLog.path : FileSystem ReportFile) blkLog.path [blkLog.path] :=
    traceDir_onlyDir (by decide) (by decide) (by decide)
  have hshown := reportShown_blkTrace hm rfl hdisk htables (by decide +kernel) hsorted hdir (expansion_onlyDir _)
    (fun name _ => node_onlyDir _ _) 1
  -- the only request is in the first window
  have hfirst : windowNo (intParam (1 : Int64).toUInt64) 60 60 < 30 := by decide
  refine ⟨m, disk, hm, hdisk, _, _, htables, hshown.mpr (windowsFit_of_lt (by decide) ?_)⟩
  exact List.forall_mem_singleton.mpr hfirst

end StorTrace.BlockTrace
