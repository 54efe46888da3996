import StorTrace.Collector.HeatmapWidth
import StorTrace.DiskHeatmaps
import StorTrace.Lib.Text
import StorTrace.Viewer.DriveList
import StorTrace.Viewer.OutputDir

/-!
# `Viewer.HeatmapReport` — the requests of a disk, from its heat map to the grid of the viewer

`HeatmapCollector::dump_json` makes the buckets of each disk and writes them into the directory of the trace; `main`
copies them, and `io_heatmap` lays them out in a grid. Every request is in one cell, and every cell has the sectors of
its requests, exactly if they can be counted in an `int` (`heatmaps_reported`).
-/

namespace StorTrace

open FileTree FileTree.FileSystem
open Ext4Dio (InfoRecord)
open Ext4Dio.Info (InfoModule)
open BlockTrace (BlkRecord BlkTraceModule EventData)

/-! ## The release -/

/-- `HeatmapCollector::dump_json`, in the order of the map, as far as it is defined. -/
def HeatmapCollector.dumpJson (fs : FileSystem DataFile) (pre : Str) (order : List (Str × Heatmap)) :
    Option (FileSystem DataFile) :=
  order.foldlM (fun fs e => e.2.genHeatmap.map (fun bucket =>
    fs.write (pre ++ 47 :: heatmapFile e.2.driveName) (.heatmap (e.2.dumpJson bucket)))) fs

/-! ## What should be shown -/

/-- The width of a bucket. -/
def bucketWidth (row : Nat) (reqs : List HeatmapRequest) : Nat :=
  (highestSector reqs - lowestSector reqs) / (row * 8) + 100

/-- The sectors of bucket `b` are `[sectorFrom row reqs b, sectorFrom row reqs (b + 1))`. -/
def sectorFrom (row : Nat) (reqs : List HeatmapRequest) (b : Nat) : Nat := lowestSector reqs + b * bucketWidth row reqs

/-- The bucket of a cell. -/
def HeatmapPage.bucketOf (page : HeatmapPage) (c : Nat × Nat × Option Int) : Nat := c.2.1 * page.length + c.1

/-- **The page shows the requests**: each is in one cell, and each cell has the sum of their sectors (none if it has no
    number). -/
structure RequestsShown (page : HeatmapPage) (row : Nat) (reqs : List HeatmapRequest) : Prop where
  cell : ∀ c ∈ page.sectorData, c.2.2.getD 0 =
    (sectorSum reqs (sectorFrom row reqs (page.bucketOf c)) (sectorFrom row reqs (page.bucketOf c + 1)) : Int)
  covered : ∀ q ∈ reqs, ∃! c, c ∈ page.sectorData ∧ sectorFrom row reqs (page.bucketOf c) ≤ q.1.toNat ∧
    q.1.toNat < sectorFrom row reqs (page.bucketOf c + 1)

/-- The page of a disk shows its requests, whatever the length of its rows. -/
def DiskShown (fs : FileSystem DataFile) (path : Str) (row : Nat) (disk : Str) (reqs : List HeatmapRequest) : Prop :=
  ∀ length, 1 ≤ length → ∃ page, (loadHeatmap fs path disk).bind (ioHeatmap · length) = some page ∧
    page.length = length ∧ page.drive = disk ∧ RequestsShown page row reqs

/-- **Every disk with a request is shown.** -/
def DisksShown (fs : FileSystem DataFile) (path : Str) (row : Nat) (reqs : List (Str × HeatmapRequest)) : Prop :=
  ∀ disk ∈ reqs.map Prod.fst, DiskShown fs path row disk (Grouping.itemsOf disk reqs)

/-- The sectors of each bucket can be counted in an `int`. -/
def SectorsFit (row : Nat) (reqs : List HeatmapRequest) : Prop :=
  ∀ b, sectorSum reqs (sectorFrom row reqs b) (sectorFrom row reqs (b + 1)) ≤ 2147483647

/-- The number of rows is positive, the partitions are an `int`, and so are the widths of the buckets; no name of a disk
    hides its file from the shell, and all of them can be written as JSON. -/
structure Regular (row : Nat) (reqs : List (Str × HeatmapRequest)) : Prop where
  row_pos : 1 ≤ row
  partition_lt : row * 8 < 2147483648
  width_lt : ∀ disk ∈ reqs.map Prod.fst, bucketWidth row (Grouping.itemsOf disk reqs) < 2147483648
  name : ∀ disk ∈ reqs.map Prod.fst, (47 : UInt8) ∉ disk ∧ disk.head? ≠ some 46
  utf8 : ∀ disk ∈ reqs.map Prod.fst, Text.IsUtf8 disk

/-- Only the heat maps matter. -/
def IsHeatmap (n : Name) : Prop := heatmapSuffix <:+ n

/-- **The heat maps report the requests**: their release comes to its end exactly if the sectors can be counted, and then
    every disk is shown, whatever else is written besides the heat maps. -/
structure HeatmapsReported (fs : FileSystem DataFile) (name : Str) (order : List (Str × Heatmap)) (row : Nat)
    (reqs : List (Str × HeatmapRequest)) : Prop where
  released : (HeatmapCollector.dumpJson fs name order).isSome ↔
    ∀ disk ∈ reqs.map Prod.fst, SectorsFit row (Grouping.itemsOf disk reqs)
  shown : ∀ fs₁ fs₂ fs₃ d names, TraceDir fs name d → HeatmapCollector.dumpJson fs name order = some fs₁ →
    (∀ disk ∈ reqs.map Prod.fst, fs.isDir (d ++ [heatmapFile disk]) = false) →
    Keeps IsHeatmap fs₁ fs₂ → Expansion fs₂ d names → Keeps IsHeatmap (setUpOutput fs₂ name (outPath name) names) fs₃ →
    DisksShown fs₃ (viewerPath (outPath name)) row reqs

/-! ## One disk -/

section Disk

variable {row : Nat} {disk : Str} {reqs : List HeatmapRequest}

/-- The heat map of a disk knows the range of its requests. -/
theorem range_commits (hne : reqs ≠ []) :
    ((Heatmap.new row disk).commits reqs).min ≤ ((Heatmap.new row disk).commits reqs).max := by
  have hrec := Heatmap.recorded row disk reqs
  obtain ⟨q, hq⟩ := List.exists_mem_of_ne_nil reqs hne
  exact UInt64.le_trans (hrec.min_le q hq) (hrec.le_max q hq)

/-- The width of its buckets. -/
theorem size_commits (hpartition : row * 8 < 2147483648) (hne : reqs ≠ []) (hwidth : bucketWidth row reqs < 2147483648) :
    ((Heatmap.new row disk).commits reqs).size = (bucketWidth row reqs : Nat) := by
  have hrec := Heatmap.recorded row disk reqs
  have hrange : ((Heatmap.new row disk).commits reqs).range.toNat = highestSector reqs - lowestSector reqs := by
    rw [Heatmap.range, UInt64.toNat_sub_of_le _ _ (range_commits hne), Heatmap.max_commits, Heatmap.min_commits]
  have hp : ((Heatmap.new row disk).commits reqs).partition = (row * 8 : Nat) := by
    rw [hrec.partition]
    push_cast
    rfl
  have hsize := Heatmap.size_eq hp hpartition (by rw [hrange]; exact hwidth)
  rw [hrange] at hsize
  exact hsize

/-- The buckets of a disk. -/
def diskBuckets (row : Nat) (disk : Str) (reqs : List HeatmapRequest) : List Int :=
  ((Heatmap.new row disk).commits reqs).filled ((highestSector reqs - lowestSector reqs) / bucketWidth row reqs + 1) reqs

variable (hpos : 1 ≤ row) (hpartition : row * 8 < 2147483648) (hne : reqs ≠ [])
  (hwidth : bucketWidth row reqs < 2147483648)

include hpartition hne hwidth

/-- A bucket has the sectors of its requests. -/
theorem weightIn_commits (b : Nat) :
    Buckets.weightIn (fun r => ((Heatmap.new row disk).commits reqs).bucketOf r.1) (fun r => r.2.toNat) reqs b =
      sectorSum reqs (sectorFrom row reqs b) (sectorFrom row reqs (b + 1)) := by
  have hbias : 0 < bucketWidth row reqs := Nat.succ_pos _
  rw [weightIn_eq_sectorSum (size_commits hpartition hne hwidth) hbias hwidth (Heatmap.recorded row disk reqs).min_le,
    Heatmap.min_commits]
  rfl

/-- The bucket of a request. -/
theorem bucketOf_commits {q : HeatmapRequest} (hq : q ∈ reqs) :
    ((Heatmap.new row disk).commits reqs).bucketOf q.1 = (q.1.toNat - lowestSector reqs) / bucketWidth row reqs := by
  rw [Heatmap.bucketOf_eq (size_commits hpartition hne hwidth) hwidth ((Heatmap.recorded row disk reqs).min_le q hq),
    Heatmap.min_commits]

/-- It is one of the buckets there are. -/
theorem bucketOf_commits_lt {q : HeatmapRequest} (hq : q ∈ reqs) : ((Heatmap.new row disk).commits reqs).bucketOf q.1 <
    (highestSector reqs - lowestSector reqs) / bucketWidth row reqs + 1 := by
  have hmax := UInt64.le_iff_toNat_le.mp ((Heatmap.recorded row disk reqs).le_max q hq)
  rw [Heatmap.max_commits] at hmax
  rw [bucketOf_commits hpartition hne hwidth hq]
  exact Nat.lt_succ_of_le (Nat.div_le_div_right (by omega))

/-- The interval of a bucket holds the sectors that fall into it. -/
theorem mem_bucket_iff {q : HeatmapRequest} (hq : q ∈ reqs) (b : Nat) :
    (sectorFrom row reqs b ≤ q.1.toNat ∧ q.1.toNat < sectorFrom row reqs (b + 1)) ↔
      ((Heatmap.new row disk).commits reqs).bucketOf q.1 = b := by
  have hmin := UInt64.le_iff_toNat_le.mp ((Heatmap.recorded row disk reqs).min_le q hq)
  rw [Heatmap.min_commits] at hmin
  have hbias : 0 < bucketWidth row reqs := Nat.succ_pos _
  rw [bucketOf_commits hpartition hne hwidth hq, Nat.div_eq_iff hbias, sectorFrom, sectorFrom, Nat.add_mul]
  constructor <;> intro hb <;> omega

include hpos

/-- **The buckets of a disk** are made exactly if its sectors can be counted. -/
theorem genHeatmap_commits {bucket : List Int} : ((Heatmap.new row disk).commits reqs).genHeatmap = some bucket ↔
    SectorsFit row reqs ∧ bucket = diskBuckets row disk reqs := by
  have hrec := Heatmap.recorded row disk reqs
  have hp : ((Heatmap.new row disk).commits reqs).partition ≠ 0 := by
    rw [hrec.partition]
    omega
  rw [Heatmap.genHeatmap_eq_some_iff (size_commits hpartition hne hwidth) (Nat.le_add_left 100 _) hwidth hp
    (fun q hq => ⟨hrec.min_le q (hrec.recvData ▸ hq), hrec.le_max q (hrec.recvData ▸ hq)⟩) (range_commits hne),
    hrec.recvData, Heatmap.max_commits, Heatmap.min_commits]
  refine and_congr (forall_congr' (fun b => ?_)) Iff.rfl
  rw [weightIn_commits hpartition hne hwidth]

/-- **The grid shows the requests of the disk.** -/
theorem requestsShown_commits {length : Nat} (hlength : 1 ≤ length) :
    ∃ page, ioHeatmap (((Heatmap.new row disk).commits reqs).dumpJson (diskBuckets row disk reqs)) length = some page ∧
      page.length = length ∧ page.drive = disk ∧ RequestsShown page row reqs := by
  have hrec := Heatmap.recorded row disk reqs
  have hweight (b : Nat) : Buckets.weightIn (fun r => ((Heatmap.new row disk).commits reqs).bucketOf r.1)
      (fun r => r.2.toNat) reqs b = _ := weightIn_commits hpartition hne hwidth b
  have hbucket {q : HeatmapRequest} (hq : q ∈ reqs) : ((Heatmap.new row disk).commits reqs).bucketOf q.1 < _ :=
    bucketOf_commits_lt hpartition hne hwidth hq
  have hmem {q : HeatmapRequest} (hq : q ∈ reqs) (b : Nat) :
      _ ↔ ((Heatmap.new row disk).commits reqs).bucketOf q.1 = b := mem_bucket_iff hpartition hne hwidth hq b
  have hlen : (diskBuckets row disk reqs).length = (highestSector reqs - lowestSector reqs) / bucketWidth row reqs + 1 :=
    Heatmap.length_filled _ _
  have hfew : (highestSector reqs - lowestSector reqs) / bucketWidth row reqs + 1 ≤ row * 8 := Heatmap.buckets_le (by omega)
  have hsome : diskBuckets row disk reqs ≠ [] := List.ne_nil_of_length_pos (by rw [hlen]; exact Nat.succ_pos _)
  have hnonneg : ∀ v ∈ diskBuckets row disk reqs, 0 ≤ v := by
    intro v hv
    obtain ⟨b, -, rfl⟩ := List.mem_map.mp hv
    exact Int.natCast_nonneg _
  have hvalue (i j : Nat) : HeatmapPage.value ⟨row * 8 / length + 1, length,
      (((Heatmap.new row disk).commits reqs).dumpJson (diskBuckets row disk reqs)).seqData,
      ((Heatmap.new row disk).commits reqs).driveName⟩ i j = (diskBuckets row disk reqs)[i * length + j]? :=
    HeatmapPage.value_dumpJson hsome hnonneg
  have hpage : ioHeatmap (((Heatmap.new row disk).commits reqs).dumpJson (diskBuckets row disk reqs)) length =
      some ⟨row * 8 / length + 1, length,
        (((Heatmap.new row disk).commits reqs).dumpJson (diskBuckets row disk reqs)).seqData,
        ((Heatmap.new row disk).commits reqs).driveName⟩ := by
    have hp : ((Heatmap.new row disk).commits reqs).partition.toNat = row * 8 := by
      rw [hrec.partition]
      omega
    rw [ioHeatmap, if_neg (by omega)]
    show some (HeatmapPage.mk (((Heatmap.new row disk).commits reqs).partition.toNat / length + 1) _ _ _) = _
    rw [hp]
    rfl
  generalize (((Heatmap.new row disk).commits reqs).dumpJson (diskBuckets row disk reqs)).seqData = text at hvalue hpage
  refine ⟨_, hpage, rfl, hrec.driveName, ?_, ?_⟩
  · rintro ⟨j, i, v⟩ hc
    obtain ⟨-, -, rfl⟩ := HeatmapPage.mem_sectorData.mp hc
    rw [hvalue]
    show _ = (sectorSum reqs (sectorFrom row reqs (i * length + j)) (sectorFrom row reqs (i * length + j + 1)) : Int)
    rw [← hweight]
    by_cases hb : i * length + j < (highestSector reqs - lowestSector reqs) / bucketWidth row reqs + 1
    · have hget : (diskBuckets row disk reqs)[i * length + j]? = _ := Heatmap.getElem?_filled reqs hb
      rw [hget, Option.getD_some]
    · -- past the last bucket there is no request, and nothing is shown
      have hget : (diskBuckets row disk reqs)[i * length + j]? = none := List.getElem?_eq_none (by omega)
      rw [hget, Option.getD_none, Buckets.weightIn_eq_zero]
      · rfl
      · intro q hq heq
        have hlt := hbucket hq
        omega
  · intro q hq
    obtain ⟨⟨i, j⟩, ⟨hi, hj, hij⟩, huniq⟩ :=
      Buckets.existsUnique_cell hlength (Nat.lt_of_lt_of_le (hbucket hq) hfew)
    refine ⟨(j, i, _), ⟨HeatmapPage.mem_sectorData.mpr ⟨hi, hj, rfl⟩, (hmem hq _).mpr hij.symm⟩, ?_⟩
    rintro ⟨j', i', v'⟩ ⟨hc, hin⟩
    obtain ⟨hi', hj', rfl⟩ := HeatmapPage.mem_sectorData.mp hc
    have hcell := huniq (i', j') ⟨hi', hj', ((hmem hq _).mp hin).symm⟩
    obtain ⟨rfl, rfl⟩ := Prod.mk.inj hcell
    rfl

end Disk

/-! ## All disks -/

/-- The files of the release. -/
def releasedFiles (order : List (Str × Heatmap)) : List (Name × DataFile) :=
  order.map (fun e => (heatmapFile e.2.driveName, .heatmap (e.2.dumpJson (e.2.genHeatmap.getD []))))

/-- **The release writes a file for each disk**, if all buckets are made. -/
theorem dumpJson_eq (fs : FileSystem DataFile) (pre : Str) (order : List (Str × Heatmap)) :
    HeatmapCollector.dumpJson fs pre order =
      if ∀ e ∈ order, e.2.genHeatmap ≠ none then some (fs.writeFiles pre (releasedFiles order)) else none := by
  induction order generalizing fs with
  | nil => rfl
  | cons e rest ih =>
      have hcons : HeatmapCollector.dumpJson fs pre (e :: rest) = (e.2.genHeatmap.map (fun bucket =>
          fs.write (pre ++ 47 :: heatmapFile e.2.driveName) (.heatmap (e.2.dumpJson bucket)))).bind
            (HeatmapCollector.dumpJson · pre rest) := rfl
      rw [hcons]
      cases hgen : e.2.genHeatmap with
      | none =>
          rw [if_neg (fun hall => hall e List.mem_cons_self hgen)]
          rfl
      | some bucket =>
          have hfiles : fs.writeFiles pre (releasedFiles (e :: rest)) =
              (fs.write (pre ++ 47 :: heatmapFile e.2.driveName) (.heatmap (e.2.dumpJson bucket))).writeFiles pre
                (releasedFiles rest) := by
            rw [releasedFiles, List.map_cons, hgen]
            rfl
          rw [Option.map_some, Option.bind_some, ih, hfiles]
          refine if_congr ?_ rfl rfl
          rw [List.forall_mem_cons, hgen]
          exact (and_iff_right (Option.some_ne_none bucket)).symm

section Disks

variable {row : Nat} {reqs : List (Str × HeatmapRequest)} {order : List (Str × Heatmap)}

/-- The map of the collector has the heat map of each disk with a request. -/
theorem mem_order_iff (hlist : Grouping.Listing ((HeatmapCollector.new row).commitAll reqs).collector order) (disk : Str)
    (h : Heatmap) : (disk, h) ∈ order ↔
      disk ∈ reqs.map Prod.fst ∧ (Heatmap.new row disk).commits (Grouping.itemsOf disk reqs) = h := by
  have hlookup : ((HeatmapCollector.new row).commitAll reqs).collector.lookup disk =
      if Grouping.itemsOf disk reqs = [] then none
      else some ((Heatmap.new row disk).commits (Grouping.itemsOf disk reqs)) := by
    rw [HeatmapCollector.commitAll_eq]
    exact Grouping.lookup_groupAll_empty
  rw [hlist.mem_iff, hlookup, ← Grouping.itemsOf_ne_nil]
  by_cases hnil : Grouping.itemsOf disk reqs = []
  · rw [if_pos hnil]
    exact iff_of_false (by simp) (fun hboth => hboth.1 hnil)
  · rw [if_neg hnil, Option.some.injEq]
    exact (and_iff_right hnil).symm

/-- Its file has the name of the disk. -/
theorem driveName_of_mem (hlist : Grouping.Listing ((HeatmapCollector.new row).commitAll reqs).collector order)
    {e : Str × Heatmap} (he : e ∈ order) : e.2.driveName = e.1 := by
  obtain ⟨-, hcommits⟩ := (mem_order_iff hlist e.1 e.2).mp he
  rw [← hcommits, (Heatmap.recorded row e.1 _).driveName]

theorem names_releasedFiles (hlist : Grouping.Listing ((HeatmapCollector.new row).commitAll reqs).collector order) :
    (releasedFiles order).map Prod.fst = (order.map Prod.fst).map heatmapFile := by
  rw [releasedFiles, List.map_map, List.map_map]
  exact List.map_congr_left (fun e he => congrArg heatmapFile (driveName_of_mem hlist he))

/-- The file of a disk is copied. -/
theorem matches_heatmapFile {disk : Str} (hslash : (47 : UInt8) ∉ disk) (hhidden : disk.head? ≠ some 46) :
    Matches (heatmapFile disk) := by
  refine ⟨(by decide : jsonSuffix <:+ heatmapSuffix).trans (List.suffix_append disk heatmapSuffix), ?_,
    (proper_heatmapFile hslash).2⟩
  cases disk with
  | nil => decide
  | cons c rest => exact hhidden

/-- They are the files of the disks. -/
theorem matches_releasedFiles (hregular : Regular row reqs)
    (hlist : Grouping.Listing ((HeatmapCollector.new row).commitAll reqs).collector order) :
    ∀ f ∈ releasedFiles order, Matches f.1 := by
  refine List.forall_mem_map.mpr (fun e he => ?_)
  have hname := hregular.name e.1 ((mem_order_iff hlist e.1 e.2).mp he).1
  rw [driveName_of_mem hlist he]
  exact matches_heatmapFile hname.1 hname.2

theorem proper_releasedFiles (hregular : Regular row reqs)
    (hlist : Grouping.Listing ((HeatmapCollector.new row).commitAll reqs).collector order) :
    ∀ f ∈ releasedFiles order, Proper f.1 ∧ (47 : UInt8) ∉ f.1 :=
  fun f hf => (matches_releasedFiles hregular hlist f hf).proper

theorem nodup_releasedFiles (hlist : Grouping.Listing ((HeatmapCollector.new row).commitAll reqs).collector order) :
    ((releasedFiles order).map Prod.fst).Nodup := by
  rw [names_releasedFiles hlist]
  exact hlist.nodup.map (fun _ _ => heatmapFile_injective)

/-- The disks of the collector. -/
theorem mem_disks_iff (hlist : Grouping.Listing ((HeatmapCollector.new row).commitAll reqs).collector order) (disk : Str) :
    disk ∈ order.map Prod.fst ↔ disk ∈ reqs.map Prod.fst := by
  rw [List.mem_map]
  constructor
  · rintro ⟨e, he, rfl⟩
    exact ((mem_order_iff hlist e.1 e.2).mp he).1
  · intro hmem
    exact ⟨(disk, _), (mem_order_iff hlist disk _).mpr ⟨hmem, rfl⟩, rfl⟩

/-- **The heat maps of a collector report the requests that were recorded in it.** -/
theorem reported_commitAll (hregular : Regular row reqs)
    (hlist : Grouping.Listing ((HeatmapCollector.new row).commitAll reqs).collector order) (fs : FileSystem DataFile)
    (name : Str) : HeatmapsReported fs name order row reqs := by
  have hdisk {disk : Str} (hmem : disk ∈ reqs.map Prod.fst) {bucket : List Int} :
      ((Heatmap.new row disk).commits (Grouping.itemsOf disk reqs)).genHeatmap = some bucket ↔
        SectorsFit row (Grouping.itemsOf disk reqs) ∧ bucket = diskBuckets row disk (Grouping.itemsOf disk reqs) :=
    genHeatmap_commits hregular.row_pos hregular.partition_lt (Grouping.itemsOf_ne_nil.mpr hmem)
      (hregular.width_lt disk hmem)
  have hall : (∀ e ∈ order, e.2.genHeatmap ≠ none) ↔
      ∀ disk ∈ reqs.map Prod.fst, SectorsFit row (Grouping.itemsOf disk reqs) := by
    constructor
    · intro hgen disk hmem
      obtain ⟨bucket, hbucket⟩ := Option.ne_none_iff_exists'.mp
        (hgen (disk, _) ((mem_order_iff hlist disk _).mpr ⟨hmem, rfl⟩))
      exact ((hdisk hmem).mp hbucket).1
    · intro hcount e he
      obtain ⟨hmem, hcommits⟩ := (mem_order_iff hlist e.1 e.2).mp he
      rw [← hcommits, (hdisk hmem).mpr ⟨hcount e.1 hmem, rfl⟩]
      exact Option.some_ne_none _
  constructor
  · rw [dumpJson_eq, ← hall]
    split
    · next hgen => exact iff_of_true rfl hgen
    · next hgen => exact iff_of_false (by simp) hgen
  · intro fs₁ fs₂ fs₃ d names htrace hdump hfree hrest hnames hreport disk hmem length hlength
    rw [dumpJson_eq, Option.ite_none_right_eq_some] at hdump
    obtain ⟨hgen, hfs₁⟩ := hdump
    obtain rfl := Option.some.inj hfs₁
    have hbucket : ((Heatmap.new row disk).commits (Grouping.itemsOf disk reqs)).genHeatmap =
        some (diskBuckets row disk (Grouping.itemsOf disk reqs)) := (hdisk hmem).mpr ⟨hall.mp hgen disk hmem, rfl⟩
    -- the file in the directory of the trace
    have hfile : (heatmapFile disk, DataFile.heatmap (((Heatmap.new row disk).commits (Grouping.itemsOf disk reqs)).dumpJson
        (diskBuckets row disk (Grouping.itemsOf disk reqs)))) ∈ releasedFiles order := by
      refine List.mem_map.mpr ⟨(disk, _), (mem_order_iff hlist disk _).mpr ⟨hmem, rfl⟩, ?_⟩
      rw [hbucket, Option.getD_some, (Heatmap.recorded row disk _).driveName]
    have hnode : (fs.writeFiles name (releasedFiles order)).node (d ++ [heatmapFile disk]) = _ :=
      (node_writeFiles_of_mem htrace.plain.ne_nil (proper_releasedFiles hregular hlist) (nodup_releasedFiles hlist)
        hfile d).trans (if_pos ⟨htrace.dirAt, hfree disk hmem⟩)
    -- and in the output directory
    have htrace₂ : TraceDir fs₂ name d := (htrace.writeFiles _).keeps hrest
    have hname := hregular.name disk hmem
    have hsuffix : IsHeatmap (heatmapFile disk) := ⟨disk, rfl⟩
    have hread : fs₃.read (viewerPath (outPath name) ++ 47 :: heatmapFile disk) =
        some (.heatmap (((Heatmap.new row disk).commits (Grouping.itemsOf disk reqs)).dumpJson
          (diskBuckets row disk (Grouping.itemsOf disk reqs)))) := by
      rw [(freshCopy_setUpOutput htrace₂ hnames).read_viewer hreport hsuffix (matches_heatmapFile hname.1 hname.2),
        hrest.contents d hsuffix, contents, hnode]
    obtain ⟨page, hpage, hshown⟩ := requestsShown_commits hregular.row_pos hregular.partition_lt
      (Grouping.itemsOf_ne_nil.mpr hmem) (hregular.width_lt disk hmem) hlength
    refine ⟨page, ?_, hshown⟩
    rw [loadHeatmap, hread]
    exact hpage

/-- In a directory with nothing else in it, they are all that is copied. -/
theorem expansion_releasedFiles (hregular : Regular row reqs)
    (hlist : Grouping.Listing ((HeatmapCollector.new row).commitAll reqs).collector order) {name : Name}
    (hproper : Proper name) (hslash : (47 : UInt8) ∉ name) (hword : ShellWord name) :
    Expansion ((onlyDir name).writeFiles name (releasedFiles order)) [name] ((releasedFiles order).map Prod.fst) :=
  Expansion.writeFiles (traceDir_onlyDir hproper hslash hword) (expansion_onlyDir name) (matches_releasedFiles hregular hlist)
    (nodup_releasedFiles hlist)

/-- They are shown then. -/
theorem HeatmapsReported.exists_disksShown {name : Name}
    (h : HeatmapsReported (onlyDir name) name order row reqs) (hregular : Regular row reqs)
    (hlist : Grouping.Listing ((HeatmapCollector.new row).commitAll reqs).collector order) (hproper : Proper name)
    (hslash : (47 : UInt8) ∉ name) (hword : ShellWord name)
    (hfit : ∀ disk ∈ reqs.map Prod.fst, SectorsFit row (Grouping.itemsOf disk reqs)) :
    ∃ fs, DisksShown fs (viewerPath (outPath name)) row reqs := by
  obtain ⟨fs₁, hfs₁⟩ := Option.isSome_iff_exists.mp (h.released.mpr hfit)
  have htrace : TraceDir (onlyDir name : FileSystem DataFile) name [name] := traceDir_onlyDir hproper hslash hword
  have hwritten := hfs₁
  rw [dumpJson_eq, Option.ite_none_right_eq_some] at hwritten
  obtain rfl := Option.some.inj hwritten.2
  have hfree : ∀ disk ∈ reqs.map Prod.fst,
      (onlyDir name : FileSystem DataFile).isDir ([name] ++ [heatmapFile disk]) = false := by
    intro disk _
    rw [isDir, node_onlyDir]
  exact ⟨_, h.shown _ _ _ _ _ htrace hfs₁ hfree (.refl _) (expansion_releasedFiles hregular hlist hproper hslash hword)
    (.refl _)⟩

end Disks

/-! ## Both tracers -/

/-- **The heat maps of both tracers**, from the delivered records to the grids of the viewer: those of the info tracer
    report the requests under the disks first reported for their queues, those of the block tracer the plugged ones. -/
theorem heatmaps_reported (row : Nat) :
    (∀ (pmcInv : UInt64) (recs : List InfoRecord) (m : InfoModule),
      Ext4Dio.Info.deliver (.new pmcInv row) recs = .ok m → Regular row (diskRequests firstDisk [] recs) →
        ∀ order, Grouping.Listing m.heatmapTrace.collector order →
          ∀ fs name, HeatmapsReported fs name order row (diskRequests firstDisk [] recs)) ∧
    ∀ (ndebug : Bool) (recs : List (EventData × BlkRecord)) (m : BlkTraceModule),
      BlockTrace.deliver ndebug ⟨[], .new row⟩ recs = .ok m → Regular row (pluggedRequests recs) →
        ∀ order, Grouping.Listing m.heatmapTrace.collector order →
          ∀ fs name, HeatmapsReported fs name order row (pluggedRequests recs) := by
  constructor
  · intro pmcInv recs m h hregular order hlist fs name
    have hnew (q : Ptr) : (InfoModule.new pmcInv row).hctxMapping.find q = firstDisk [] q := Hctx2disk.find_new q
    rw [Ext4Dio.Info.heatmap_deliver h hnew] at hlist
    exact reported_commitAll hregular hlist fs name
  · intro ndebug recs m h hregular order hlist fs name
    rw [BlockTrace.heatmap_deliver h] at hlist
    exact reported_commitAll hregular hlist fs name

/-- One request on one disk is regular, and its sectors can be counted. -/
theorem regular_one {c : UInt8} (hslash : c ≠ 47) (hdot : c ≠ 46) (hascii : c.toNat < 128) : Regular 1 [([c], (5, 8))] ∧
    ∀ disk ∈ [([c], ((5, 8) : HeatmapRequest))].map Prod.fst,
      SectorsFit 1 (Grouping.itemsOf disk [([c], ((5, 8) : HeatmapRequest))]) := by
  have hitems : Grouping.itemsOf [c] [([c], ((5, 8) : HeatmapRequest))] = [(5, 8)] := by simp [Grouping.itemsOf]
  refine ⟨⟨by decide, by decide, List.forall_mem_singleton.mpr ?_, List.forall_mem_singleton.mpr ⟨?_, ?_⟩,
    List.forall_mem_singleton.mpr (Text.isUtf8_of_ascii ?_)⟩, List.forall_mem_singleton.mpr (fun b => ?_)⟩
  · rw [hitems]
    decide
  · exact fun hmem => hslash (List.mem_singleton.mp hmem).symm
  · exact fun hhead => hdot (Option.some.inj hhead)
  · rw [List.all_cons, List.all_nil, Bool.and_true, decide_eq_true hascii]
  · rw [hitems, sectorSum, List.filter_cons, List.filter_nil]
    split <;> decide

/-- A request of the info tracer, and one of the block tracer. -/
theorem heatmaps_reported_one :
    (∃ m fs, Ext4Dio.Info.deliver (.new 10 1) [reportOf 97, requestAt 5] = .ok m ∧
        DisksShown fs (viewerPath (outPath [116])) 1 [([97], (5, 8))]) ∧
      ∃ m fs, BlockTrace.deliver true ⟨[], .new 1⟩ [(Vector.replicate 12 0, pluggedRequest)] = .ok m ∧
        DisksShown fs (viewerPath (outPath [116])) 1 [([97], (5, 8))] := by
  obtain ⟨hregular, hfit⟩ := regular_one (by decide : (97 : UInt8) ≠ 47) (by decide) (by decide)
  constructor
  · have hreqs : diskRequests firstDisk [] [reportOf 97, requestAt 5] = [([97], (5, 8))] := by decide
    have hreported := (heatmaps_reported 1).1 10 [reportOf 97, requestAt 5] _ rfl (by rw [hreqs]; exact hregular) _
      (Grouping.Listing.refl _) (onlyDir [116]) [116]
    rw [hreqs] at hreported
    obtain ⟨fs, hshown⟩ := hreported.exists_disksShown hregular (Grouping.Listing.refl _) (by decide) (by decide) (by decide)
      hfit
    exact ⟨_, fs, rfl, hshown⟩
  · have hreqs : pluggedRequests [((Vector.replicate 12 0 : EventData), pluggedRequest)] = [([97], (5, 8))] := by decide
    have hreported := (heatmaps_reported 1).2 true [(Vector.replicate 12 0, pluggedRequest)] _ rfl
      (by rw [hreqs]; exact hregular) _ (Grouping.Listing.refl _) (onlyDir [116]) [116]
    rw [hreqs] at hreported
    obtain ⟨fs, hshown⟩ := hreported.exists_disksShown hregular (Grouping.Listing.refl _) (by decide) (by decide) (by decide)
      hfit
    exact ⟨_, fs, rfl, hshown⟩

end StorTrace
