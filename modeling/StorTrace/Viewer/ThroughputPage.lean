import StorTrace.Ext4Dio.RecordOrder
import StorTrace.Viewer.BlockReport

/-!
# `Viewer.ThroughputPage` — the throughput of a direct-I/O trace, from its records to the chart (`dio_throughput`)

Both direct-I/O modules commit the size of every direct I/O to `dio_throughtput`, in the window in which it ended; the
release writes the windows into the directory of the trace, `main` copies them, and `pmc_aq.html` puts them into a
chart. The page does not know the interval of the windows: it is told `100`, and that is right for no other interval
(`throughput_reported`).
-/

namespace StorTrace

open FileTree FileTree.FileSystem JsString
open Ext4Dio (SimpleDioEvent InfoRecord DioInfoEvent throughputOf)

/-! ## The file -/

/-- The JSON record of `TimeThroughputPmc::dump_json`. -/
structure SeqText where
  name : List Char
  seqData : List Char
deriving DecidableEq

/-- What a file of the directory holds. -/
inductive PmcFile where
  | throughput (json : SeqText)
  | other
deriving DecidableEq

/-- `TimeThroughputPmc::dump_json`, of a collector with a name: `absl::StrJoin` of `std::to_string`. -/
def TimeThroughputPmc.dumpJson (fs : FileSystem PmcFile) (c : TimeThroughputPmc) (name : String) (pre : Str) :
    FileSystem PmcFile :=
  fs.write (pre ++ 47 :: resultFile name)
    (.throughput ⟨name.toList, ([','] : List Char).intercalate (c.pmcData.map (fun aq => pyStr aq.toNat))⟩)

/-- The name both modules give to `dio_throughtput`. -/
def throughputName : String := "dio_throughput"

/-! ## The page -/

/-- What `pmc_aq.html` is rendered with. -/
structure PmcPage where
  graphName : List Char
  data : List Char
  inv : Nat
deriving DecidableEq

/-- `dio_throughput`. -/
def dioThroughputPage (fs : FileSystem PmcFile) (path : Str) : Option PmcPage :=
  (fs.read (path ++ 47 :: resultFile "dio_throughput")).bind (fun file =>
    match file with
    | .throughput data => some ⟨data.name, data.seqData, 100⟩
    | .other => none)

/-- The `option` of `pmc_aq.html`, as far as it depends on the page; the times are in milliseconds. -/
structure PmcChart where
  text : JsText
  xAxisData : List Nat
  plotData : List JsText
deriving DecidableEq

/-- The script of `pmc_aq.html`. -/
def pmcAq (page : PmcPage) : Option PmcChart := do
  let plotName ← templateValue page.graphName
  let plotData ← splitValue ',' page.data
  return ⟨plotName, (List.range plotData.length).map (page.inv * ·), plotData⟩

/-! ## What should be shown -/

/-- The size of each direct I/O, at its end. -/
def dioSamples (logs : List SimpleDioEvent) : List (UInt64 × UInt64) := logs.map (fun v => (v.endBlockIo, v.dioSize.toUInt64))

/-- **The chart shows the bytes of each window**: of the direct I/Os that ended in it. Their sum is a `u64`. -/
def BytesShown (interval start : UInt64) (logs : List SimpleDioEvent) (chart : Option PmcChart) : Prop :=
  ∃ n times, chart = some ⟨ofText throughputName.toList, times, jsNumbers ((List.range n).map (fun i =>
      ((windowSum interval start (dioSamples logs) i).toNat : Int)))⟩ ∧
    ∀ v ∈ logs, windowNo interval start v.endBlockIo < n

/-- **The times of the chart are those at which its windows begin**, in milliseconds of `1000000` nanoseconds. -/
def TimesRight (interval : UInt64) (chart : Option PmcChart) : Prop :=
  ∃ c, chart = some c ∧ c.xAxisData.length = c.plotData.length ∧
    ∀ i time, c.xAxisData[i]? = some time → time * 1000000 = i * interval.toNat

/-- Only this file matters. -/
def IsThroughput (n : Name) : Prop := n = resultFile throughputName

/-- **The throughput of the direct I/Os `logs` is reported** by the collector `c`: all commits are defined, and their
    windows are in its array, exactly if the windows fit; and then the chart shows them, at the right times exactly if
    the interval is 100 milliseconds. -/
structure ThroughputReported (c : TimeThroughputPmc) (pmcInv start : UInt64) (logs : List SimpleDioEvent) : Prop where
  defined : ((TimeThroughputPmc.new pmcInv).commits? (dioSamples logs) = some c ∧
      ∀ v ∈ logs, windowNo (intParam pmcInv) start v.endBlockIo < c.pmcData.length) ↔
    WindowsFit (intParam pmcInv) start (logs.map SimpleDioEvent.endBlockIo)
  shown : WindowsFit (intParam pmcInv) start (logs.map SimpleDioEvent.endBlockIo) →
    ∀ fs fs₂ fs₃ name d names, TraceDir fs name d → fs.isDir (d ++ [resultFile throughputName]) = false →
      Keeps IsThroughput (c.dumpJson fs throughputName name) fs₂ → Expansion fs₂ d names →
      Keeps IsThroughput (setUpOutput fs₂ name (outPath name) names) fs₃ →
      BytesShown (intParam pmcInv) start logs ((dioThroughputPage fs₃ (viewerPath (outPath name))).bind pmcAq) ∧
        (TimesRight (intParam pmcInv) ((dioThroughputPage fs₃ (viewerPath (outPath name))).bind pmcAq) ↔
          intParam pmcInv = 100000000)

/-! ## The windows -/

/-- Commits that are defined are those that are made. -/
theorem throughputOf_of_commits {c c' : TimeThroughputPmc} {logs : List SimpleDioEvent}
    (h : c.commits? (dioSamples logs) = some c') : throughputOf c logs = c' := by
  induction logs generalizing c with
  | nil => exact Option.some.inj h
  | cons v rest ih =>
      obtain ⟨c₁, h₁, h₂⟩ := Option.bind_eq_some_iff.mp h
      have hcommit : c.commit v.endBlockIo v.dioSize.toUInt64 = c₁ := by
        unfold TimeThroughputPmc.commit? at h₁
        rw [Option.ite_none_right_eq_some] at h₁
        exact Option.some.inj h₁.2
      show throughputOf (c.commit v.endBlockIo v.dioSize.toUInt64) rest = c'
      rw [hcommit]
      exact ih h₂

/-! ## The chart -/

/-- The script has every number, `100` milliseconds after the one before it. -/
theorem pmcAq_pyJoin {name : List Char} (hname : Verbatim name) {seq : List Int} (hne : seq ≠ []) (inv : Nat) :
    pmcAq ⟨name, pyJoin ',' seq, inv⟩ = some ⟨ofText name, (List.range seq.length).map (inv * ·), jsNumbers seq⟩ := by
  simp only [pmcAq, hname.templateValue_eq, splitValue_pyJoin (Or.inl rfl) hne, Option.bind_eq_bind, Option.bind_some,
    length_jsNumbers]
  rfl

/-- **The times are right exactly if** a window is 100 milliseconds long. -/
theorem timesRight_iff {interval : UInt64} {text : JsText} {n : Nat} (hn : 2 ≤ n) {plotData : List JsText}
    (hlen : plotData.length = n) :
    TimesRight interval (some ⟨text, (List.range n).map (100 * ·), plotData⟩) ↔ interval = 100000000 := by
  have hget {i : Nat} (hi : i < n) : ((List.range n).map (100 * ·))[i]? = some (100 * i) := by
    rw [List.getElem?_map, List.getElem?_range hi, Option.map_some]
  constructor
  · rintro ⟨c, hc, -, htimes⟩
    obtain rfl := Option.some.inj hc
    -- the second window tells
    have hone : 100 * 1 * 1000000 = 1 * interval.toNat := htimes 1 (100 * 1) (hget hn)
    exact UInt64.toNat_inj.mp (by rw [← Nat.one_mul interval.toNat, ← hone]; rfl)
  · rintro rfl
    refine ⟨_, rfl, by rw [List.length_map, List.length_range, hlen], fun i time htime => ?_⟩
    obtain ⟨j, hj, rfl⟩ := List.getElem?_eq_some_iff.mp htime
    rw [List.getElem_map, List.getElem_range]
    show 100 * i * 1000000 = i * 100000000
    omega

/-! ## From the file to the chart -/

/-- Both languages join the numbers to the same text. -/
theorem strJoin_eq (pmcData : List UInt64) : ([','] : List Char).intercalate (pmcData.map (fun aq => pyStr aq.toNat)) =
    pyJoin ',' (pmcData.map (fun aq => (aq.toNat : Int))) := by
  rw [pyJoin, List.map_map]
  exact congrArg _ (List.map_congr_left (fun aq _ => (pyStrInt_natCast aq.toNat).symm))

/-- The page that is made of the file, after `main` has copied it. -/
theorem dioThroughputPage_eq {fs fs₂ fs₃ : FileSystem PmcFile} {c : TimeThroughputPmc} {name : Str} {d : Place}
    {names : List Name} (htrace : TraceDir fs name d) (hfree : fs.isDir (d ++ [resultFile throughputName]) = false)
    (hrest : Keeps IsThroughput (c.dumpJson fs throughputName name) fs₂) (hnames : Expansion fs₂ d names)
    (hreport : Keeps IsThroughput (setUpOutput fs₂ name (outPath name) names) fs₃) :
    dioThroughputPage fs₃ (viewerPath (outPath name)) =
      some ⟨throughputName.toList, pyJoin ',' (c.pmcData.map (fun aq => (aq.toNat : Int))), 100⟩ := by
  have hmatch : Matches (resultFile throughputName) := by decide +kernel
  have hcontents : (c.dumpJson fs throughputName name).contents (d ++ [resultFile throughputName]) = some _ :=
    htrace.contents_write hmatch hfree _
  have htrace₂ : TraceDir fs₂ name d := (htrace.writeFiles [(resultFile throughputName, _)]).keeps hrest
  have hread := (freshCopy_setUpOutput htrace₂ hnames).read_viewer hreport (rfl : IsThroughput _) hmatch
  rw [hrest.contents d (rfl : IsThroughput _), hcontents] at hread
  show (fs₃.read (viewerPath (outPath name) ++ 47 :: resultFile throughputName)).bind _ = _
  rw [hread, ← strJoin_eq]
  rfl

/-- **What the collector of a stream reports.** -/
theorem throughputReported_throughputOf (pmcInv : UInt64) {first : SimpleDioEvent} {rest : List SimpleDioEvent}
    (hstart : ∀ v ∈ first :: rest, first.endBlockIo ≤ v.endBlockIo) :
    ThroughputReported (throughputOf (.new pmcInv) (first :: rest)) pmcInv first.endBlockIo (first :: rest) := by
  have hsamples : ∀ t ∈ dioSamples (first :: rest), first.endBlockIo ≤ t.1 := List.forall_mem_map.mpr hstart
  have hends : (dioSamples (first :: rest)).map Prod.fst = (first :: rest).map SimpleDioEvent.endBlockIo := by
    rw [dioSamples, List.map_map]
    rfl
  have hexact (hfit : WindowsFit (intParam pmcInv) first.endBlockIo ((first :: rest).map SimpleDioEvent.endBlockIo)) :
      ThroughputExact (intParam pmcInv) first.endBlockIo (dioSamples (first :: rest)) := by
    rw [← hends] at hfit
    exact throughputExact_of_fit hsamples hfit
  have hwindows {n : Nat} : (∀ t ∈ dioSamples (first :: rest), windowNo (intParam pmcInv) first.endBlockIo t.1 < n) ↔
      ∀ v ∈ first :: rest, windowNo (intParam pmcInv) first.endBlockIo v.endBlockIo < n := List.forall_mem_map
  constructor
  · constructor
    · rintro ⟨hc, hlt⟩
      rw [← hends]
      exact windowsFit_of_commits hsamples hc (hwindows.mpr hlt)
    · intro hfit
      obtain ⟨c, hc, hlt, -⟩ := hexact hfit
      obtain rfl : throughputOf (.new pmcInv) (first :: rest) = c := throughputOf_of_commits hc
      exact ⟨hc, hwindows.mp hlt⟩
  · intro hfit fs fs₂ fs₃ name d names htrace hfree hrest hnames hreport
    obtain ⟨c, hc, hlt, hsum⟩ := hexact hfit
    obtain rfl : throughputOf (.new pmcInv) (first :: rest) = c := throughputOf_of_commits hc
    have hlen : 30 ≤ (throughputOf (.new pmcInv) (first :: rest)).pmcData.length := length_commits hc
    generalize throughputOf (.new pmcInv) (first :: rest) = c at hrest hlt hsum hlen
    have hdata : c.pmcData.map (fun aq => (aq.toNat : Int)) = (List.range c.pmcData.length).map (fun i =>
        ((windowSum (intParam pmcInv) first.endBlockIo (dioSamples (first :: rest)) i).toNat : Int)) := by
      refine eq_map_range (List.length_map _) (fun i hi => ?_)
      have hget : c.pmcData[i]? = _ := hsum throughputName i hi
      rw [List.getElem?_map, hget, Option.map_some]
    have hne : c.pmcData.map (fun aq => (aq.toNat : Int)) ≠ [] :=
      List.ne_nil_of_length_pos (by rw [List.length_map]; omega)
    rw [dioThroughputPage_eq htrace hfree hrest hnames hreport, Option.bind_some, pmcAq_pyJoin (by decide +kernel) hne,
      List.length_map]
    refine ⟨⟨c.pmcData.length, _, by rw [hdata], hwindows.mp hlt⟩, timesRight_iff (by omega) ?_⟩
    rw [length_jsNumbers, List.length_map]

/-- In a directory with nothing else in it, the chart is shown. -/
theorem ThroughputReported.exists_shown {c : TimeThroughputPmc} {pmcInv start : UInt64} {logs : List SimpleDioEvent}
    (h : ThroughputReported c pmcInv start logs)
    (hfit : WindowsFit (intParam pmcInv) start (logs.map SimpleDioEvent.endBlockIo)) {name : Name}
    (hproper : Proper name) (hslash : (47 : UInt8) ∉ name) (hword : ShellWord name) :
    ∃ fs, BytesShown (intParam pmcInv) start logs ((dioThroughputPage fs (viewerPath (outPath name))).bind pmcAq) ∧
      (TimesRight (intParam pmcInv) ((dioThroughputPage fs (viewerPath (outPath name))).bind pmcAq) ↔
        intParam pmcInv = 100000000) := by
  have htrace : TraceDir (onlyDir name : FileSystem PmcFile) name [name] := traceDir_onlyDir hproper hslash hword
  have hmatch : Matches (resultFile throughputName) := by decide +kernel
  have hfree : (onlyDir name : FileSystem PmcFile).isDir ([name] ++ [resultFile throughputName]) = false := by
    rw [isDir, node_onlyDir]
  have hnames (content : PmcFile) :
      Expansion ((onlyDir name).write (name ++ 47 :: resultFile throughputName) content) [name] [resultFile throughputName] := by
    have hfile : ∀ f ∈ [(resultFile throughputName, content)], Matches f.1 := List.forall_mem_singleton.mpr hmatch
    exact Expansion.writeFiles htrace (expansion_onlyDir name) hfile (List.nodup_singleton _)
  exact ⟨_, h.shown hfit _ _ _ _ _ _ htrace hfree (.refl _) (hnames _) (.refl _)⟩

/-! ## Both tracers -/

/-- The direct I/Os of the info tracer's records. -/
def dioLogs (recs : List InfoRecord) : List SimpleDioEvent :=
  (recs.filterMap InfoRecord.dioInfo?).map DioInfoEvent.simEvent

/-- **The throughput of both direct-I/O tracers**, from the delivered records to the chart, if no direct I/O ended before
    the first one that is delivered. -/
theorem throughput_reported (pmcInv : UInt64) (first : SimpleDioEvent) (rest : List SimpleDioEvent)
    (hstart : ∀ v ∈ first :: rest, first.endBlockIo ≤ v.endBlockIo) :
    (∀ {δ : Type} (filter : Option (Ext4Dio.Simple.QuantileFilter δ)) (m : Ext4Dio.Simple.SimpleModule δ),
      Ext4Dio.Simple.deliver (.new pmcInv filter) (first :: rest) = .ok m →
        ThroughputReported m.collectors.dioThroughtput pmcInv first.endBlockIo (first :: rest)) ∧
    ∀ (heatmapRow : Int) (recs : List InfoRecord) (m : Ext4Dio.Info.InfoModule), dioLogs recs = first :: rest →
      Ext4Dio.Info.deliver (.new pmcInv heatmapRow) recs = .ok m →
        ThroughputReported m.collectors.dioThroughtput pmcInv first.endBlockIo (first :: rest) := by
  constructor
  · intro δ filter m h
    rw [Ext4Dio.dioThroughtput_deliver h]
    exact throughputReported_throughputOf pmcInv hstart
  · intro heatmapRow recs m hlogs h
    have hdio : m.collectors.dioThroughtput = throughputOf (.new pmcInv) (dioLogs recs) :=
      Ext4Dio.dioThroughtput_deliver_info h
    rw [hdio, hlogs]
    exact throughputReported_throughputOf pmcInv hstart

/-- A read of 4096 bytes that ends at a time. -/
def readEndedAt (time : TimeStramp) : SimpleDioEvent :=
  { SimpleDioEvent.zero with endBlockIo := time, dioSize := 4096, type := 1 }

/-- Two reads, in windows of 100 and of 10 milliseconds: both charts have the bytes, one has the right times. -/
theorem throughput_reported_two :
    (∃ m fs, Ext4Dio.Simple.deliver (δ := Unit) (.new 100000000 none) [readEndedAt 5, readEndedAt 250000005] = .ok m ∧
        BytesShown 100000000 5 [readEndedAt 5, readEndedAt 250000005]
          ((dioThroughputPage fs (viewerPath (outPath [116]))).bind pmcAq) ∧
        TimesRight 100000000 ((dioThroughputPage fs (viewerPath (outPath [116]))).bind pmcAq)) ∧
      ∃ m fs, Ext4Dio.Info.deliver (.new 10000000 1)
          [.dioInfo ⟨1, readEndedAt 5⟩, .dioInfo ⟨2, readEndedAt 250000005⟩] = .ok m ∧
        BytesShown 10000000 5 [readEndedAt 5, readEndedAt 250000005]
          ((dioThroughputPage fs (viewerPath (outPath [116]))).bind pmcAq) ∧
        ¬ TimesRight 10000000 ((dioThroughputPage fs (viewerPath (outPath [116]))).bind pmcAq) := by
  have hstart : ∀ v ∈ [readEndedAt 5, readEndedAt 250000005], (readEndedAt 5).endBlockIo ≤ v.endBlockIo := by decide
  constructor
  · have hinterval : intParam 100000000 = 100000000 := by decide
    have hfirst : ∀ t ∈ [(5 : TimeStramp), 250000005], windowNo (intParam 100000000) 5 t < 30 :=
      List.forall_mem_cons.mpr ⟨by decide, List.forall_mem_singleton.mpr (by decide)⟩
    have hreported := (throughput_reported 100000000 _ _ hstart).1 (δ := Unit) none _ rfl
    obtain ⟨fs, hbytes, htimes⟩ := hreported.exists_shown (windowsFit_of_lt (by decide) hfirst)
      (by decide : Proper [116]) (by decide) (by decide)
    rw [hinterval] at hbytes htimes
    exact ⟨_, fs, rfl, hbytes, htimes.mpr rfl⟩
  · have hinterval : intParam 10000000 = 10000000 := by decide
    have hfirst : ∀ t ∈ [(5 : TimeStramp), 250000005], windowNo (intParam 10000000) 5 t < 30 :=
      List.forall_mem_cons.mpr ⟨by decide, List.forall_mem_singleton.mpr (by decide)⟩
    have hreported := (throughput_reported 10000000 _ _ hstart).2 1
      [.dioInfo ⟨1, readEndedAt 5⟩, .dioInfo ⟨2, readEndedAt 250000005⟩] _ rfl rfl
    obtain ⟨fs, hbytes, htimes⟩ := hreported.exists_shown (windowsFit_of_lt (by decide) hfirst)
      (by decide : Proper [116]) (by decide) (by decide)
    rw [hinterval] at hbytes htimes
    exact ⟨_, fs, rfl, hbytes, fun h => absurd (htimes.mp h) (by decide)⟩

end StorTrace
