import StorTrace.BlockTrace.RowOrder
import StorTrace.Collector.Histogram
import StorTrace.Collector.RwRate
import StorTrace.Viewer.Charts
import StorTrace.Viewer.OutputDir

/-!
# `Viewer.BlockReport` — the block report as the viewer shows it (`io_per_pmc`, `query_avg`, `query_dis`)

`process_blk_trace_log` writes its results into the output directory of the trace, one after another until one cannot
be made. The viewer is started on that directory and puts the throughput, the averages and the distributions into
charts. Each chart has the numbers of the requests where their windows fit (`reportShown_of_fits`), and only there
(`windowsFit_of_reportShown`).
-/

namespace StorTrace

open BlockTrace FileTree JsString Meta

/-! ## The files -/

/-- What a file of the output directory holds. -/
inductive ReportFile where
  | result (json : BlkJson)
  | other

/-- The file of a result. -/
def resultFile (name : String) : Name := strBytes name ++ jsonSuffix

/-- What a run dumped, written into the output directory. -/
def BlockTrace.Dumped.write (dumped : Dumped) (fs : FileSystem ReportFile) (out : Str) : FileSystem ReportFile :=
  fs.writeFiles (dumpPath out) (dumped.files.map (fun f => (resultFile f.1, .result f.2)))

/-- The names of the results. -/
def blkNames : List String :=
  "sum_io_pmc" :: disList.flatMap (fun name => [name ++ "_dis", name ++ "_avg"]) ++ ["Read_write_percent", "merge_rate"]

/-- `json.load(open(path+"/"+name+".json"))`. -/
def loadResult (fs : FileSystem ReportFile) (path : Str) (name : String) : Option BlkJson :=
  (fs.read (path ++ 47 :: resultFile name)).bind (fun file =>
    match file with
    | .result json => some json
    | .other => none)

/-! ## The viewer -/

/-- `io_per_pmc`. -/
def ioPerPmc (fs : FileSystem ReportFile) (path : Str) : Option AvgPage :=
  (loadResult fs path "sum_io_pmc").bind (fun file =>
    match file with
    | .ioPmc json => some ⟨"io_per_pmc".toList, pyJoin ' ' (json.seqData.map (fun v => v.toNat))⟩
    | _ => none)

/-- `query_avg(stage)`. -/
def queryAvg (fs : FileSystem ReportFile) (path : Str) (stage : String) : Option AvgPage :=
  (loadResult fs path (stage ++ "_avg")).bind (fun file =>
    match file with
    | .avgs json => some ⟨(stage ++ "_avg").toList, pyJoin ' ' (json.avgs.map (fun v => v.toNat))⟩
    | _ => none)

/-- `query_dis(stage)`. -/
def queryDis (fs : FileSystem ReportFile) (path : Str) (stage : String) : Option DisPage :=
  (loadResult fs path (stage ++ "_dis")).bind (fun file =>
    match file with
    | .dis json => some ⟨json.name.toList, (stage ++ "_distribution").toList, pyJoin ' ' json.distribution⟩
    | _ => none)

/-! ## What should be shown -/

/-- The requests that ended in window `i`. -/
def endedIn (interval start : UInt64) (rows : List BlkTraceRecord) (i : Nat) : List BlkTraceRecord :=
  rows.filter (fun r => windowNo interval start (endTime r) = i)

/-- The average of a column over some requests; their sum is a `u64`. -/
def averageOf (column : BlkTraceRecord → UInt64) (rows : List BlkTraceRecord) : Nat :=
  (wrapSum (rows.map column)).toNat / rows.length

/-- The requests whose value in a column is in bucket `b` of its distribution. -/
def inBucket (column : BlkTraceRecord → UInt64) (rows : List BlkTraceRecord) (b : Nat) : List BlkTraceRecord :=
  rows.filter (fun r => disBucket (maxOf (rows.map column)) (minOf (rows.map column)) (column r) = b)

/-- A chart of one number for each window, up to the last window in which a request ended. -/
def ShowsWindows (interval start : UInt64) (rows : List BlkTraceRecord) (value : Nat → Nat) (title : String)
    (chart : Option AvgChart) : Prop :=
  ∃ n, chart = some ⟨ofText title.toList, List.range n, jsNumbers ((List.range n).map (fun i => (value i : Int)))⟩ ∧
    ∀ r ∈ rows, windowNo interval start (endTime r) < n

/-- **The viewer shows the block report of the requests `rows`**: how many ended in each window, the averages of the
    stages in each window, and how the values of each stage are distributed. -/
structure ReportShown (fs : FileSystem ReportFile) (path : Str) (interval start : UInt64) (rows : List BlkTraceRecord) :
    Prop where
  io : ShowsWindows interval start rows (fun i => (endedIn interval start rows i).length) "io_per_pmc"
    ((ioPerPmc fs path).bind avgWithMark)
  avg : ∀ stage ∈ disList.zip blkColumns,
    ShowsWindows interval start rows (fun i => averageOf stage.2 (endedIn interval start rows i)) (stage.1 ++ "_avg")
      ((queryAvg fs path stage.1).bind avgWithMark)
  dis : ∀ stage ∈ disList.zip blkColumns, (queryDis fs path stage.1).bind disWithMark =
    some ⟨ofText stage.1.toList, ofText (stage.1 ++ "_distribution").toList, List.range 101,
      jsNumbers ((List.range 101).map (fun b => ((inBucket stage.2 rows b).length : Int)))⟩

/-- **The windows fit**: the interval is not zero, the array of windows grows in time, and its size stays an `int`. -/
structure WindowsFit (interval start : UInt64) (ends : List UInt64) : Prop where
  interval_ne : interval ≠ 0
  grows : GrowsInTime (ends.map (windowNo interval start))
  below : ∀ t ∈ ends, windowNo interval start t < windowBound

/-- The output directory `d` of a trace, with none of the results in it. -/
structure OutputDir (fs : FileSystem ReportFile) (out : Str) (d : Place) : Prop where
  dir : fs.dirAt (dumpPath out) = some d
  path_ne : viewerPath out ≠ []
  free : ∀ name ∈ blkNames, fs.node (d ++ [resultFile name]) = none

/-! ## The output directory -/

theorem nodup_blkNames : (blkNames.map resultFile).Nodup := by decide +kernel

theorem notMem_blkNames : ∀ name ∈ blkNames, (47 : UInt8) ∉ strBytes name := by decide +kernel

/-- A fresh copy has no result in it where there was none to copy. -/
theorem FreshCopy.outputDir {fs fs' : FileSystem ReportFile} {name : Str} {d d' : Place}
    (h : FreshCopy fs fs' name d d') (hfree : ∀ name ∈ blkNames, fs.node (d ++ [resultFile name]) = none) :
    OutputDir fs' (outPath name) d' where
  dir := h.dump
  path_ne := viewerPath_outPath_ne_nil name
  free result hresult := by
    rw [h.file, FileSystem.contents, hfree result hresult, Option.map_none, ite_self]

theorem proper_resultFile {name : String} (hname : (47 : UInt8) ∉ strBytes name) :
    FileSystem.Proper (resultFile name) ∧ (47 : UInt8) ∉ resultFile name :=
  ⟨proper_append_jsonSuffix _, notMem_append_jsonSuffix hname⟩

/-- What the viewer finds under a name. -/
theorem loadResult_eq {fs fs' : FileSystem ReportFile} {out : Str} {d : Place} (hdir : OutputDir fs out d) {name : String}
    (hname : name ∈ blkNames) (hsame : FileSystem.SameDirs fs fs') :
    loadResult fs' (viewerPath out) name = (fs'.contents (d ++ [resultFile name])).bind (fun file =>
      match file with
      | .result json => some json
      | .other => none) := by
  obtain ⟨hproper, hslash⟩ := proper_resultFile (notMem_blkNames name hname)
  rw [loadResult, FileSystem.read_slash hdir.path_ne hproper hslash, hsame.dirAt, dirAt_viewerPath, hdir.dir,
    Option.bind_some]

/-! ## Distributions -/

/-- The minimum that is found is not above any value. -/
theorem minOf_le (latency : List UInt64) : ∀ v ∈ latency, minOf latency ≤ v := by
  have hfold : ∀ (latency : List UInt64) (low : UInt64),
      latency.foldl (fun minV v => if v < minV then v else minV) low ≤ low ∧
        ∀ v ∈ latency, latency.foldl (fun minV v => if v < minV then v else minV) low ≤ v := by
    intro latency
    induction latency with
    | nil => exact fun low => ⟨UInt64.le_refl low, by simp⟩
    | cons v rest ih =>
        intro low
        rw [List.foldl_cons]
        obtain ⟨hlow, hrest⟩ := ih (if v < low then v else low)
        by_cases hv : v < low
        · rw [if_pos hv] at hlow hrest ⊢
          exact ⟨UInt64.le_trans hlow (UInt64.le_of_lt hv), List.forall_mem_cons.mpr ⟨hlow, hrest⟩⟩
        · rw [if_neg hv] at hlow hrest ⊢
          exact ⟨hlow, List.forall_mem_cons.mpr ⟨UInt64.le_trans hlow (UInt64.not_lt.mp hv), hrest⟩⟩
  exact (hfold latency _).2

theorem le_maxOf (latency : List UInt64) : ∀ v ∈ latency, v ≤ maxOf latency := by
  intro v hv
  exact (maxOf_spec (List.ne_nil_of_mem hv)).2 v hv

/-- **A distribution is made of any column**, and each request is in one bucket. -/
theorem getDis_column (name : String) (column : BlkTraceRecord → UInt64) (rows : List BlkTraceRecord) :
    getDis name (rows.map column) = .ok ⟨name, maxOf (rows.map column), minOf (rows.map column),
      (List.range 101).map (fun b => ((inBucket column rows b).length : Int))⟩ := by
  rw [getDis_eq name (minOf_le _) (le_maxOf _)]
  have hcount (b : Nat) : Buckets.weightIn (disBucket (maxOf (rows.map column)) (minOf (rows.map column))) (fun _ => 1)
      (rows.map column) b = (inBucket column rows b).length := by
    rw [weightIn_one, List.filter_map, List.length_map]
    rfl
  simp only [Buckets.filled, hcount]

/-! ## Windows that fit -/

section Fit

variable {δ : Type} {interval start : UInt64}

/-- Samples that fit are in time. -/
theorem WindowsFit.inTime {seq : List (UInt64 × δ)} (h : WindowsFit interval start (seq.map Prod.fst))
    (hstart : ∀ t ∈ seq, start ≤ t.1) : InTime interval start seq := by
  intro t ht
  have hbelow := h.below _ (List.mem_map_of_mem ht)
  have hbound : windowBound < 2147483648 := by decide
  exact ⟨hstart t ht, Nat.lt_trans hbelow hbound⟩

/-- The windows of samples in time fit exactly if the samples do. -/
theorem fitsAll_pmcIndices_iff {seq : List (UInt64 × δ)} (h : InTime interval start seq) :
    Window.FitsAll 0 intMax.toNat 30 (pmcIndices interval start seq) ↔
      GrowsInTime ((seq.map Prod.fst).map (windowNo interval start)) ∧
        ∀ t ∈ seq.map Prod.fst, windowNo interval start t < windowBound := by
  rw [pmcIndices_eq h, fitsAll_zero_iff, List.map_map, List.forall_mem_map, List.forall_mem_map]
  rfl

/-- The first windows fit. -/
theorem windowsFit_of_lt {ends : List UInt64} (hI : interval ≠ 0)
    (hfirst : ∀ t ∈ ends, windowNo interval start t < 30) : WindowsFit interval start ends := by
  have hbound : 30 ≤ windowBound := by decide
  refine ⟨hI, Run.allSteps_iff.mpr (fun pre k post hks m hm => ?_),
    fun t ht => Nat.lt_of_lt_of_le (hfirst t ht) hbound⟩
  have hk : k ∈ ends.map (windowNo interval start) := by
    rw [hks, List.mem_append]
    exact Or.inr List.mem_cons_self
  obtain ⟨t, ht, rfl⟩ := List.mem_map.mp hk
  -- no array is smaller than the first one
  have hsmall := hfirst t ht
  have hpow : 0 < 2 ^ m := Nat.two_pow_pos m
  omega

variable {s : UInt64 × UInt64} {rest : List (UInt64 × UInt64)}

/-- **Where the windows fit, the samples of each are summed up.** -/
theorem throughputExact_of_fit (hstart : ∀ t ∈ s :: rest, s.1 ≤ t.1)
    (hfit : WindowsFit interval s.1 ((s :: rest).map Prod.fst)) : ThroughputExact interval s.1 (s :: rest) := by
  have htime := hfit.inTime hstart
  exact (throughputExact_iff hfit.interval_ne htime).mpr ((fitsAll_pmcIndices_iff htime).mpr ⟨hfit.grows, hfit.below⟩)

/-- **And only there** are the commits defined and their windows in the array. -/
theorem windowsFit_of_commits (hstart : ∀ t ∈ s :: rest, s.1 ≤ t.1) {c : TimeThroughputPmc}
    (hc : (TimeThroughputPmc.ofInterval interval).commits? (s :: rest) = some c)
    (hlt : ∀ t ∈ s :: rest, windowNo interval s.1 t.1 < c.pmcData.length) :
    WindowsFit interval s.1 ((s :: rest).map Prod.fst) := by
  obtain ⟨hI, -, hall, hdata⟩ := TimeThroughputPmc.commits?_iff.mp hc
  have hsize : c.pmcData.length ≤ 2147483647 := by
    show c.toPmc.data.length ≤ 2147483647
    rw [hdata]
    exact length_stored_le hall
  have htime : InTime interval s.1 (s :: rest) := fun t ht =>
    ⟨hstart t ht, Nat.lt_of_lt_of_le (hlt t ht) (Nat.le_succ_of_le hsize)⟩
  obtain ⟨hgrows, hbelow⟩ := (fitsAll_pmcIndices_iff htime).mp hall
  exact ⟨hI, hgrows, hbelow⟩

/-- The array has its windows from the beginning. -/
theorem length_commits {c : TimeThroughputPmc}
    (hc : (TimeThroughputPmc.ofInterval interval).commits? (s :: rest) = some c) : 30 ≤ c.pmcData.length := by
  obtain ⟨-, -, -, hdata⟩ := TimeThroughputPmc.commits?_iff.mp hc
  have hrun : c.pmcData = Window.run 0 0 (List.replicate 30 0) _ := congrArg Pmc.data hdata
  rw [hrun]
  exact Nat.le_trans (Nat.le_of_eq List.length_replicate.symm) Window.length_le_run

end Fit

/-! ## Windows -/

section Windows

variable {rows rows' : List BlkTraceRecord} {interval start : UInt64}

theorem endedIn_perm (h : rows'.Perm rows) (i : Nat) : (endedIn interval start rows' i).Perm (endedIn interval start rows i) :=
  h.filter _

theorem wrapSum_perm {xs ys : List UInt64} (h : xs.Perm ys) : wrapSum xs = wrapSum ys :=
  h.foldr_eq' (fun x _ y _ z => by rw [← UInt64.add_assoc, ← UInt64.add_assoc, UInt64.add_comm x]) 0

theorem averageOf_perm (column : BlkTraceRecord → UInt64) (h : rows'.Perm rows) :
    averageOf column rows' = averageOf column rows := by
  rw [averageOf, averageOf, wrapSum_perm (h.map column), h.length_eq]

/-- A list that is known element by element. -/
theorem eq_map_range {α : Type} {l : List α} {n : Nat} {f : Nat → α} (hlen : l.length = n)
    (h : ∀ i < n, l[i]? = some (f i)) : l = (List.range n).map f := by
  refine List.ext_getElem? (fun i => ?_)
  by_cases hi : i < n
  · rw [h i hi, List.getElem?_map, List.getElem?_range hi, Option.map_some]
  · rw [List.getElem?_eq_none (by omega), List.getElem?_eq_none (by simpa using hi)]

/-- The samples that are committed for rows, with a value for each. -/
def samples (value : BlkTraceRecord → UInt64) (rows : List BlkTraceRecord) : List (UInt64 × UInt64) :=
  rows.map (fun r => (endTime r, value r))

theorem inWindow_samples (value : BlkTraceRecord → UInt64) (rows : List BlkTraceRecord) (i : Nat) :
    inWindow (fun s => windowNo interval start s.1) (samples value rows) i =
      samples value (endedIn interval start rows i) := by
  rw [inWindow, samples, List.filter_map]
  rfl

theorem windowCount_samples (value : BlkTraceRecord → UInt64) (rows : List BlkTraceRecord) (i : Nat) :
    windowCount interval start (samples value rows) i = (endedIn interval start rows i).length := by
  rw [windowCount, inWindow_samples, samples, List.length_map]

theorem windowSum_samples (value : BlkTraceRecord → UInt64) (rows : List BlkTraceRecord) (i : Nat) :
    windowSum interval start (samples value rows) i = wrapSum ((endedIn interval start rows i).map value) := by
  rw [windowSum, inWindow_samples, samples, List.map_map]
  rfl

theorem map_fst_samples (value : BlkTraceRecord → UInt64) (rows : List BlkTraceRecord) :
    (samples value rows).map Prod.fst = rows.map endTime := by
  rw [samples, List.map_map]
  rfl

end Windows

/-! ## The statistics of sorted rows -/

/-- Commits of samples, as a loop. -/
theorem foldlM_commitDlog_avg (ndebug : Bool) {c c' : TimeAvgPmc} {seq : List (UInt64 × UInt64)} :
    seq.foldlM (fun c s => c.commitDlog ndebug s.1 s.2) c = .ok c' ↔ c.commits? seq = some c' := by
  induction seq generalizing c with
  | nil =>
      show Except.ok c = .ok c' ↔ some c = some c'
      simp
  | cons s rest ih =>
      rw [List.foldlM_cons, bind_eq_ok]
      show _ ↔ (c.commit? s.1 s.2).bind (fun c => c.commits? rest) = some c'
      rw [Option.bind_eq_some_iff]
      refine exists_congr (fun c₁ => and_congr ?_ ih)
      unfold TimeAvgPmc.commitDlog
      cases c.commit? s.1 s.2 with
      | none => simp
      | some c₂ => simp

/-- The requests `rows`, and the times `ends` that the sort left, which list them as `sorted`. -/
structure SortedRows (rows : List BlkTraceRecord) (ends : List (TimeStramp × Nat)) (sorted : List BlkTraceRecord) : Prop where
  perm : sorted.Perm rows
  refers : List.Forall₂ (RefersTo endTime rows) ends sorted
  ordered : sorted.Pairwise (fun r r' => endTime r ≤ endTime r')

theorem exists_sortedRows {rows : List BlkTraceRecord} {ends : List (TimeStramp × Nat)}
    (h : SortedByTime (blkEnd rows) ends) : ∃ sorted, SortedRows rows ends sorted := by
  obtain ⟨sorted, hperm, hordered, hrefers⟩ := h.exists_rows
  exact ⟨sorted, hperm, hrefers, hordered⟩

section Sorted

variable {rows sorted : List BlkTraceRecord} {ends : List (TimeStramp × Nat)} {first : TimeStramp × Nat}
  {rest : List (TimeStramp × Nat)} {ndebug : Bool} {pmc : UInt64} {name : String}

theorem SortedRows.times (h : SortedRows rows ends sorted) : ends.map Prod.fst = sorted.map endTime := map_fst_eq h.refers

/-- The first of them is the earliest. -/
theorem SortedRows.exists_first (h : SortedRows rows (first :: rest) sorted) :
    ∃ r later, sorted = r :: later ∧ endTime r = first.1 ∧ ∀ r ∈ sorted, first.1 ≤ endTime r := by
  have htimes := h.times
  have hordered := h.ordered
  cases sorted with
  | nil => cases htimes
  | cons r later =>
      obtain ⟨hfirst, -⟩ := List.cons.inj htimes
      refine ⟨r, later, rfl, hfirst.symm, ?_⟩
      rw [hfirst]
      exact List.forall_mem_cons.mpr ⟨UInt64.le_refl _, (List.pairwise_cons.mp hordered).1⟩

/-- The samples that are committed begin with the first time. -/
theorem SortedRows.exists_samples (h : SortedRows rows (first :: rest) sorted) (value : BlkTraceRecord → UInt64) :
    ∃ v later, samples value sorted = (first.1, v) :: later ∧ ∀ t ∈ (first.1, v) :: later, first.1 ≤ t.1 := by
  obtain ⟨r, later, rfl, hr, hstart⟩ := h.exists_first
  have hcons : samples value (r :: later) = (first.1, value r) :: samples value later := by
    rw [← hr]
    rfl
  refine ⟨value r, samples value later, hcons, ?_⟩
  rw [← hcons]
  exact List.forall_mem_map.mpr hstart

theorem getIOPmc_eq_ok (h : SortedRows rows ends sorted) {json : SeqJson} : getIOPmc ndebug pmc name ends = .ok json ↔
    ∃ c, (TimeThroughputPmc.new pmc).commits? (samples (fun _ => 1) sorted) = some c ∧ c.getJson name = json := by
  have hsamples : samples (fun _ => 1) sorted = (ends.map Prod.fst).map (fun t => (t, (1 : UInt64))) := by
    rw [h.times, samples, List.map_map]
    rfl
  have hloop : getIOPmc ndebug pmc name ends =
      (ends.map Prod.fst).foldlM (fun ioPmc t => ioPmc.commitDlog ndebug t 1) (TimeThroughputPmc.new pmc) >>=
        fun ioPmc => .ok (ioPmc.getJson name) := by
    rw [List.foldlM_map]
    rfl
  rw [hloop, bind_eq_ok, hsamples]
  refine exists_congr (fun c => and_congr (foldlM_commitDlog_eq_ok ndebug) ?_)
  rw [Except.ok.injEq]

theorem getAvgSeq_eq_ok (h : SortedRows rows ends sorted) (column : BlkTraceRecord → UInt64) {json : AvgsJson} :
    getAvgSeq ndebug pmc name ends (rows.map column) = .ok json ↔
      ∃ c, (TimeAvgPmc.new pmc).commits? (samples column sorted) = some c ∧ c.getJson name = json := by
  have hlen : ends.length = rows.length := h.refers.length_eq.trans h.perm.length_eq
  have hloop : sorted.foldlM (fun c r => c.commitDlog ndebug (endTime r) (column r)) (TimeAvgPmc.new pmc) =
      (samples column sorted).foldlM (fun c s => c.commitDlog ndebug s.1 s.2) (TimeAvgPmc.new pmc) := by
    rw [samples, List.foldlM_map]
  rw [getAvgSeq_eq h.refers hlen, hloop, bind_eq_ok]
  refine exists_congr (fun c => and_congr (foldlM_commitDlog_avg ndebug) ?_)
  rw [Except.ok.injEq]

/-- **Where the windows fit, the requests of each are counted.** -/
theorem exists_ioPmc (ndebug : Bool) (pmc : UInt64) (name : String) (h : SortedRows rows (first :: rest) sorted)
    (hlen : (rows.length : Int) ≤ intMax)
    (hfit : WindowsFit (intParam pmc) first.1 (sorted.map endTime)) :
    ∃ json n, getIOPmc ndebug pmc name (first :: rest) = .ok json ∧
      json.seqData.map (fun v => (v.toNat : Int)) =
        (List.range n).map (fun i => ((endedIn (intParam pmc) first.1 rows i).length : Int)) ∧
      ∀ r ∈ rows, windowNo (intParam pmc) first.1 (endTime r) < n := by
  obtain ⟨v, later, hcons, hstart⟩ := h.exists_samples (fun _ => 1)
  rw [← map_fst_samples (fun _ => 1), hcons] at hfit
  obtain ⟨c, hc, hlt, hsum⟩ := throughputExact_of_fit hstart hfit
  rw [← hcons] at hc hlt hsum
  refine ⟨c.getJson name, c.pmcData.length, (getIOPmc_eq_ok h).mpr ⟨c, hc, rfl⟩, ?_, ?_⟩
  · refine eq_map_range (by rw [List.length_map]; rfl) (fun i hi => ?_)
    rw [List.getElem?_map, hsum name i hi, windowSum_samples, wrapSum_one, (endedIn_perm h.perm i).length_eq,
      Option.map_some]
    have hcount : (endedIn (intParam pmc) first.1 rows i).length < 18446744073709551616 := by
      have hle := List.length_filter_le (fun r => windowNo (intParam pmc) first.1 (endTime r) = i) rows
      have hmax : intMax = 2147483647 := rfl
      unfold endedIn
      omega
    rw [UInt64.toNat_ofNat_of_lt' hcount]
  · intro r hr
    exact hlt _ (List.mem_map_of_mem (h.perm.mem_iff.mpr hr))

/-- **And so is their average.** -/
theorem exists_avgSeq (ndebug : Bool) (pmc : UInt64) (name : String) (h : SortedRows rows (first :: rest) sorted)
    (hlen : (rows.length : Int) ≤ intMax)
    (hfit : WindowsFit (intParam pmc) first.1 (sorted.map endTime)) (column : BlkTraceRecord → UInt64) :
    ∃ json n, getAvgSeq ndebug pmc name (first :: rest) (rows.map column) = .ok json ∧
      json.avgs.map (fun v => (v.toNat : Int)) =
        (List.range n).map (fun i => (averageOf column (endedIn (intParam pmc) first.1 rows i) : Int)) ∧
      ∀ r ∈ rows, windowNo (intParam pmc) first.1 (endTime r) < n := by
  obtain ⟨v, later, hcons, hstart⟩ := h.exists_samples column
  rw [← map_fst_samples column, hcons] at hfit
  have htime := hfit.inTime hstart
  have hfits := (fitsAll_pmcIndices_iff htime).mpr ⟨hfit.grows, hfit.below⟩
  have hcount : ∀ i, windowCount (intParam pmc) first.1 (samples column sorted) i < 2147483648 := by
    intro i
    have hle := List.length_filter_le (fun r => windowNo (intParam pmc) first.1 (endTime r) = i) rows
    have hmax : intMax = 2147483647 := rfl
    rw [windowCount_samples, (endedIn_perm h.perm i).length_eq]
    unfold endedIn
    omega
  rw [hcons] at hcount
  obtain ⟨c, hc, hlt, havg⟩ := (averageExact_iff hfit.interval_ne htime).mpr ⟨hfits, hcount⟩
  rw [← hcons] at hc hlt havg
  refine ⟨c.getJson name, c.pmcData.length, (getAvgSeq_eq_ok h column).mpr ⟨c, hc, rfl⟩, ?_, ?_⟩
  · refine eq_map_range (by rw [List.length_map]; exact List.length_map _) (fun i hi => ?_)
    obtain ⟨avg, hget, hvalue⟩ := havg name i hi
    rw [windowCount_samples, windowSum_samples] at hvalue
    rw [List.getElem?_map, hget, Option.map_some, hvalue, ← averageOf_perm column (endedIn_perm h.perm i), averageOf]
    by_cases hzero : (endedIn (intParam pmc) first.1 sorted i).length = 0
    · rw [if_pos hzero, hzero, Nat.div_zero]
    · rw [if_neg hzero]
  · intro r hr
    exact hlt _ (List.mem_map_of_mem (h.perm.mem_iff.mpr hr))

/-- **Windows that are all in the array fit.** -/
theorem windowsFit_of_ioPmc (h : SortedRows rows (first :: rest) sorted) {json : SeqJson}
    (hok : getIOPmc ndebug pmc name (first :: rest) = .ok json)
    (hlt : ∀ r ∈ rows, windowNo (intParam pmc) first.1 (endTime r) < json.seqData.length) :
    WindowsFit (intParam pmc) first.1 (sorted.map endTime) := by
  obtain ⟨v, later, hcons, hstart⟩ := h.exists_samples (fun _ => 1)
  obtain ⟨c, hc, rfl⟩ := (getIOPmc_eq_ok h).mp hok
  have hinside : ∀ t ∈ samples (fun _ => 1) sorted, windowNo (intParam pmc) first.1 t.1 < c.pmcData.length :=
    List.forall_mem_map.mpr (fun r hr => hlt r (h.perm.mem_iff.mp hr))
  rw [hcons] at hc hinside
  rw [← map_fst_samples (fun _ => 1), hcons]
  exact windowsFit_of_commits hstart hc hinside

end Sorted

/-! ## Dumped results -/

section Dumps

variable {early late : List (String × Except Fault BlkJson)} {name : String} {json : BlkJson}

/-- **A result that was made is dumped**, if all before it were. -/
theorem mem_files_dumpJsons (hmade : ∀ f ∈ early, ∃ json, f.2 = .ok json) (h : (name, .ok json) ∈ early) :
    (name, json) ∈ (dumpJsons (early ++ late)).files := by
  induction early with
  | nil => cases h
  | cons f rest ih =>
      obtain ⟨⟨json', hjson'⟩, hrest⟩ := List.forall_mem_cons.mp hmade
      obtain ⟨name', made⟩ := f
      obtain rfl : made = .ok json' := hjson'
      have hfiles : (dumpJsons ((name', .ok json') :: rest ++ late)).files =
          (name', json') :: (dumpJsons (rest ++ late)).files := rfl
      rw [hfiles]
      rcases List.mem_cons.mp h with heq | hmem
      · obtain ⟨rfl, hok⟩ := Prod.mk.inj heq
        rw [Except.ok.inj hok]
        exact List.mem_cons_self
      · exact List.mem_cons_of_mem _ (ih hrest hmem)

/-- The names that are dumped are the first ones. -/
theorem names_dumpJsons (l : List (String × Except Fault BlkJson)) :
    (dumpJsons l).files.map Prod.fst <+: l.map Prod.fst := by
  induction l with
  | nil => exact List.prefix_refl _
  | cons f rest ih =>
      obtain ⟨name, made⟩ := f
      cases made with
      | ok json => exact (List.prefix_cons_inj name).mpr ih
      | error fault => exact List.nil_prefix

end Dumps

theorem verbatim_disList : ∀ name ∈ disList, Verbatim name.toList ∧ Verbatim (name ++ "_avg").toList ∧
    Verbatim (name ++ "_distribution").toList := by decide +kernel

section Report

variable {ndebug : Bool} {pmcInv : UInt32} {rows : List BlkTraceRecord} {bioEnter : List BioEnterRecord}
  {ends : List (TimeStramp × Nat)} {fs : FileSystem ReportFile} {out : Str} {d : Place}

theorem names_blkJsons : (blkJsons ndebug pmcInv rows bioEnter ends).map Prod.fst = blkNames := rfl

/-- The results the viewer reads come first. -/
def statistics (ndebug : Bool) (pmcInv : UInt32) (rows : List BlkTraceRecord) (ends : List (TimeStramp × Nat)) :
    List (String × Except Fault BlkJson) :=
  ("sum_io_pmc", (getIOPmc ndebug pmcInv.toUInt64 "sum" ends).map .ioPmc) ::
    (disList.zip blkColumns).flatMap (fun l => latencyJsons ndebug pmcInv ends l.1 (rows.map l.2))

theorem blkJsons_eq : blkJsons ndebug pmcInv rows bioEnter ends = statistics ndebug pmcInv rows ends ++
    [("Read_write_percent",
        (getRwRate ndebug pmcInv.toUInt64 "Read_write_percent" ends (ioTypes rows)).map .rwRate),
      ("merge_rate", (beforeMerge bioEnter >>= getMergeRate ndebug pmcInv.toUInt64 ends).map .mergeRate)] := by
  rw [blkJsons, statistics, latencies_eq, List.zip_map_right, List.flatMap_map]
  rfl

/-- **A dumped result is what the viewer loads.** -/
theorem loadResult_of_mem (hdir : OutputDir fs out d) (hdefined : RowsDefined rows) {name : String} {json : BlkJson}
    (hmem : (name, json) ∈ (processBlkTraceLog ndebug pmcInv rows bioEnter ends).files) :
    loadResult ((processBlkTraceLog ndebug pmcInv rows bioEnter ends).write fs out) (viewerPath out) name = some json := by
  have hprocess : processBlkTraceLog ndebug pmcInv rows bioEnter ends =
      dumpJsons (blkJsons ndebug pmcInv rows bioEnter ends) := if_pos hdefined
  rw [hprocess] at hmem ⊢
  have hnames := names_dumpJsons (blkJsons ndebug pmcInv rows bioEnter ends)
  rw [names_blkJsons] at hnames
  generalize dumpJsons (blkJsons ndebug pmcInv rows bioEnter ends) = dumped at hmem hnames
  have hname : ∀ f ∈ dumped.files, f.1 ∈ blkNames := fun f hf => hnames.subset (List.mem_map_of_mem hf)
  have hfiles : ∀ f ∈ dumped.files.map (fun f => (resultFile f.1, ReportFile.result f.2)),
      FileSystem.Proper f.1 ∧ (47 : UInt8) ∉ f.1 :=
    List.forall_mem_map.mpr (fun f hf => proper_resultFile (notMem_blkNames _ (hname f hf)))
  have hnodup : ((dumped.files.map (fun f => (resultFile f.1, ReportFile.result f.2))).map Prod.fst).Nodup := by
    have hsub := (hnames.map resultFile).sublist.nodup nodup_blkNames
    rw [List.map_map] at hsub ⊢
    exact hsub
  have hfree : fs.isDir (d ++ [resultFile name]) = false := by
    rw [FileSystem.isDir, hdir.free name (hname _ hmem)]
  have hsame : FileSystem.SameDirs fs (dumped.write fs out) := FileSystem.sameDirs_writeFiles _ _
  have hnode : (dumped.write fs out).node (d ++ [resultFile name]) = some (.file (.result json)) := by
    refine (FileSystem.node_writeFiles_of_mem (List.cons_ne_nil 46 (47 :: out)) hfiles hnodup (List.mem_map_of_mem hmem) d).trans ?_
    exact if_pos ⟨hdir.dir, hfree⟩
  rw [loadResult_eq hdir (hname _ hmem) hsame, FileSystem.contents, hnode]
  rfl

/-- A chart of windows, from the numbers that were dumped. -/
theorem showsWindows_of_page {interval start : UInt64} {value : Nat → Nat} {title : String} {page : Option AvgPage}
    {seq : List Int} {n : Nat} (hpage : page = some ⟨title.toList, pyJoin ' ' seq⟩) (hname : Verbatim title.toList)
    (hseq : seq = (List.range n).map (fun i => (value i : Int))) (hne : rows ≠ [])
    (hlt : ∀ r ∈ rows, windowNo interval start (endTime r) < n) :
    ShowsWindows interval start rows value title (page.bind avgWithMark) := by
  have hpos : 0 < n := by
    obtain ⟨r, hr⟩ := List.exists_mem_of_ne_nil rows hne
    exact Nat.lt_of_le_of_lt (Nat.zero_le _) (hlt r hr)
  have hlen : seq.length = n := by rw [hseq, List.length_map, List.length_range]
  refine ⟨n, ?_, hlt⟩
  rw [hpage, Option.bind_some, avgWithMark_pyJoin hname (List.ne_nil_of_length_pos (by omega)), hlen, hseq]

/-- **The report is shown where the windows fit.** -/
theorem reportShown_of_fits (hdir : OutputDir fs out d) (hdefined : RowsDefined rows) {first : TimeStramp × Nat}
    {rest : List (TimeStramp × Nat)} (hsorted : SortedByTime (blkEnd rows) (first :: rest))
    (hfit : WindowsFit (intParam pmcInv.toUInt64) first.1 ((first :: rest).map Prod.fst)) :
    ReportShown ((processBlkTraceLog ndebug pmcInv rows bioEnter (first :: rest)).write fs out) (viewerPath out)
      (intParam pmcInv.toUInt64) first.1 rows := by
  obtain ⟨sorted, h⟩ := exists_sortedRows hsorted
  rw [h.times] at hfit
  have hne : rows ≠ [] := by
    obtain ⟨r, later, hcons, -, -⟩ := h.exists_first
    exact List.ne_nil_of_mem (h.perm.subset (hcons ▸ List.mem_cons_self))
  have hprocess : processBlkTraceLog ndebug pmcInv rows bioEnter (first :: rest) =
      dumpJsons (blkJsons ndebug pmcInv rows bioEnter (first :: rest)) := if_pos hdefined
  -- every statistic is made
  have hio := exists_ioPmc ndebug pmcInv.toUInt64 "sum" h hdefined.1 hfit
  have havg (l : String × (BlkTraceRecord → UInt64)) :=
    exists_avgSeq ndebug pmcInv.toUInt64 l.1 h hdefined.1 hfit l.2
  have hmade : ∀ f ∈ statistics ndebug pmcInv rows (first :: rest), ∃ json, f.2 = .ok json := by
    refine List.forall_mem_cons.mpr ⟨?_, ?_⟩
    · obtain ⟨json, -, hjson, -⟩ := hio
      exact ⟨.ioPmc json, by rw [hjson]; rfl⟩
    · intro f hf
      obtain ⟨l, -, hf⟩ := List.mem_flatMap.mp hf
      simp only [latencyJsons, List.mem_cons, List.not_mem_nil, or_false] at hf
      rcases hf with rfl | rfl
      · exact ⟨_, by rw [getDis_column]; rfl⟩
      · obtain ⟨json, -, hjson, -⟩ := havg l
        exact ⟨.avgs json, by rw [hjson]; rfl⟩
  -- so each is dumped and loaded
  have hload (name : String) (json : BlkJson) (hmem : (name, .ok json) ∈ statistics ndebug pmcInv rows (first :: rest)) :
      loadResult ((processBlkTraceLog ndebug pmcInv rows bioEnter (first :: rest)).write fs out) (viewerPath out) name =
        some json := by
    refine loadResult_of_mem hdir hdefined ?_
    rw [hprocess, blkJsons_eq]
    exact mem_files_dumpJsons hmade hmem
  have hcolumn {l : String × (BlkTraceRecord → UInt64)} {f : String × Except Fault BlkJson} (hl : l ∈ disList.zip blkColumns)
      (hf : f ∈ latencyJsons ndebug pmcInv (first :: rest) l.1 (rows.map l.2)) :
      f ∈ statistics ndebug pmcInv rows (first :: rest) :=
    List.mem_cons_of_mem _ (List.mem_flatMap.mpr ⟨l, hl, hf⟩)
  refine ⟨?_, ?_, ?_⟩
  · obtain ⟨json, n, hjson, hseq, hlt⟩ := hio
    have hfile := hload "sum_io_pmc" (.ioPmc json) (by rw [statistics, hjson]; exact List.mem_cons_self)
    exact showsWindows_of_page (by rw [ioPerPmc, hfile, Option.bind_some]) (by decide +kernel) hseq hne hlt
  · intro l hl
    obtain ⟨json, n, hjson, hseq, hlt⟩ := havg l
    have hfile := hload (l.1 ++ "_avg") (.avgs json)
      (hcolumn hl (by rw [latencyJsons, hjson]; exact List.mem_cons_of_mem _ List.mem_cons_self))
    exact showsWindows_of_page (by rw [queryAvg, hfile, Option.bind_some])
      (verbatim_disList l.1 (List.of_mem_zip hl).1).2.1 hseq hne hlt
  · intro l hl
    obtain ⟨htitle, -, hmode⟩ := verbatim_disList l.1 (List.of_mem_zip hl).1
    have hfile := hload (l.1 ++ "_dis") (.dis ⟨l.1, maxOf (rows.map l.2), minOf (rows.map l.2),
      (List.range 101).map (fun b => ((inBucket l.2 rows b).length : Int))⟩)
      (hcolumn hl (by rw [latencyJsons, getDis_column]; exact List.mem_cons_self))
    rw [queryDis, hfile, Option.bind_some, Option.bind_some, disWithMark_pyJoin htitle hmode (by simp), List.length_map,
      List.length_range]

/-- The array of the throughput has its windows from the beginning. -/
theorem length_ioPmc {sorted : List BlkTraceRecord} {first : TimeStramp × Nat} {rest : List (TimeStramp × Nat)}
    (h : SortedRows rows (first :: rest) sorted) {pmc : UInt64} {name : String} {json : SeqJson}
    (hok : getIOPmc ndebug pmc name (first :: rest) = .ok json) : 30 ≤ json.seqData.length := by
  obtain ⟨v, later, hcons, -⟩ := h.exists_samples (fun _ => 1)
  obtain ⟨c, hc, rfl⟩ := (getIOPmc_eq_ok h).mp hok
  rw [hcons] at hc
  exact length_commits hc

/-- **And only where they do.** -/
theorem windowsFit_of_reportShown (hdir : OutputDir fs out d) (hdefined : RowsDefined rows) {first : TimeStramp × Nat}
    {rest : List (TimeStramp × Nat)} (hsorted : SortedByTime (blkEnd rows) (first :: rest))
    (hshown : ReportShown ((processBlkTraceLog ndebug pmcInv rows bioEnter (first :: rest)).write fs out) (viewerPath out)
      (intParam pmcInv.toUInt64) first.1 rows) :
    WindowsFit (intParam pmcInv.toUInt64) first.1 ((first :: rest).map Prod.fst) := by
  obtain ⟨sorted, h⟩ := exists_sortedRows hsorted
  have hprocess : processBlkTraceLog ndebug pmcInv rows bioEnter (first :: rest) =
      dumpJsons (blkJsons ndebug pmcInv rows bioEnter (first :: rest)) := if_pos hdefined
  obtain ⟨n, hchart, hlt⟩ := hshown.io
  rw [h.times]
  cases hio : getIOPmc ndebug pmcInv.toUInt64 "sum" (first :: rest) with
  | error fault =>
      -- the first result could not be made, and nothing was dumped
      have hnone : processBlkTraceLog ndebug pmcInv rows bioEnter (first :: rest) = ⟨[], some fault⟩ := by
        rw [hprocess, blkJsons_eq, statistics, hio]
        rfl
      rw [hnone] at hchart
      have hsame : FileSystem.SameDirs fs (Dumped.write ⟨[], some fault⟩ fs out) := .refl fs
      have hname : "sum_io_pmc" ∈ blkNames := List.mem_cons_self
      have hnode : (Dumped.write ⟨[], some fault⟩ fs out).node (d ++ [resultFile "sum_io_pmc"]) = none :=
        hdir.free _ hname
      rw [ioPerPmc, loadResult_eq hdir hname hsame, FileSystem.contents, hnode] at hchart
      cases hchart
  | ok json =>
      have hmem : ("sum_io_pmc", BlkJson.ioPmc json) ∈
          (processBlkTraceLog ndebug pmcInv rows bioEnter (first :: rest)).files := by
        rw [hprocess, blkJsons_eq, statistics, hio]
        exact List.mem_cons_self
      have hlen := length_ioPmc h hio
      have hne : json.seqData.map (fun v => (v.toNat : Int)) ≠ [] := by
        refine List.ne_nil_of_length_pos ?_
        rw [List.length_map]
        omega
      rw [ioPerPmc, loadResult_of_mem hdir hdefined hmem, Option.bind_some, Option.bind_some,
        avgWithMark_pyJoin (by decide +kernel) hne, Option.some_inj, AvgChart.mk.injEq, List.length_map] at hchart
      have hn : json.seqData.length = n := by
        have hranges := congrArg List.length hchart.2.1
        rw [List.length_range, List.length_range] at hranges
        exact hranges
      exact windowsFit_of_ioPmc h hio (fun r hr => by rw [hn]; exact hlt r hr)

end Report

end StorTrace
