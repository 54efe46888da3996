import StorTrace.Viewer.HeatmapReport

/-!
# `Viewer.HeatmapDrives` — the disks of a trace, and the drives that are listed after it (`blk_heatmap`)

`main` copies whatever matches in the directory of the trace, and nothing clears that directory: a second trace of the
same name also gets the heat maps of the first one. `blk_heatmap` lists all of them, with their names stripped once too
often. `heatmap_drives` says when it lists the disks of the trace, each once, and nothing else.
-/

namespace StorTrace

open FileTree FileTree.FileSystem
open Ext4Dio (InfoRecord)
open Ext4Dio.Info (InfoModule)
open BlockTrace (BlkRecord BlkTraceModule EventData)

/-! ## What is there, and what should be shown -/

/-- **The heat maps are released and copied**: into the directory `d` of the trace and then into the output directory,
    whatever else is written in between and afterwards. -/
structure HeatmapsCopied (fs fs₃ : FileSystem DataFile) (name : Str) (d : Place) (order : List (Str × Heatmap)) : Prop where
  trace : TraceDir fs name d
  free : ∀ e ∈ order, fs.isDir (d ++ [heatmapFile e.1]) = false
  copied : ∃ fs₁ fs₂ names, HeatmapCollector.dumpJson fs name order = some fs₁ ∧ Keeps IsHeatmap fs₁ fs₂ ∧
    Expansion fs₂ d names ∧ Keeps IsHeatmap (setUpOutput fs₂ name (outPath name) names) fs₃

/-- What `blk_heatmap` lists: `os.listdir` may return the names in any order. -/
def DrivesListed (fs : FileSystem DataFile) (path : Str) (drives : List Str) : Prop :=
  ∃ d listing, fs.dirAt path = some d ∧ Listdir fs d listing ∧ blkHeatmap listing = drives

/-- An earlier trace has left a heat map of a disk. -/
def LeftBehind (fs : FileSystem DataFile) (d : Place) (disk : Str) : Prop :=
  Matches (heatmapFile disk) ∧ fs.contents (d ++ [heatmapFile disk]) ≠ none

/-- **The drives are the disks with a request**, each once, and the page of each shows its requests. -/
structure DrivesShown (fs : FileSystem DataFile) (path : Str) (row : Nat) (reqs : List (Str × HeatmapRequest))
    (drives : List Str) : Prop where
  nodup : drives.Nodup
  mem_iff : ∀ drive, drive ∈ drives ↔ drive ∈ reqs.map Prod.fst
  shown : ∀ drive ∈ drives, DiskShown fs path row drive (Grouping.itemsOf drive reqs)

/-- **When the drives are the disks of a trace.** -/
def DrivesReported (order : List (Str × Heatmap)) (row : Nat) (reqs : List (Str × HeatmapRequest)) : Prop :=
  ∀ fs fs₃ name d drives, HeatmapsCopied fs fs₃ name d order → DrivesListed fs₃ (viewerPath (outPath name)) drives →
    (DrivesShown fs₃ (viewerPath (outPath name)) row reqs drives ↔
      (∀ disk ∈ reqs.map Prod.fst, ∀ c ∈ disk.getLast?, c ∉ heatmapSuffix) ∧
        ∀ disk, LeftBehind fs d disk → disk ∈ reqs.map Prod.fst)

/-! ## The list of the drives -/

/-- Stripping again changes nothing. -/
theorem rstrip_rstrip (chars text : Str) : rstrip chars (rstrip chars text) = rstrip chars text :=
  List.rdropWhile_idempotent _ text

/-- **A list of drives names its disks exactly if** no name is changed, and there are no other disks. -/
theorem blkHeatmap_iff {listing : List Name} (hnodup : listing.Nodup) {disks : List Str} {Old : Str → Prop}
    (hfiles : ∀ n, n ∈ listing ∧ heatmapSuffix <:+ n ↔ ∃ disk, (disk ∈ disks ∨ Old disk) ∧ heatmapFile disk = n) :
    ((blkHeatmap listing).Nodup ∧ ∀ drive, drive ∈ blkHeatmap listing ↔ drive ∈ disks) ↔
      (∀ disk ∈ disks, ∀ c ∈ disk.getLast?, c ∉ heatmapSuffix) ∧ ∀ disk, Old disk → disk ∈ disks := by
  have hmem (n : Name) : n ∈ listing.filter (heatmapSuffix.isSuffixOf ·) ↔
      ∃ disk, (disk ∈ disks ∨ Old disk) ∧ heatmapFile disk = n := by
    rw [List.mem_filter, List.isSuffixOf_iff_suffix]
    exact hfiles n
  have hdrive (drive : Str) : drive ∈ blkHeatmap listing ↔
      ∃ disk, (disk ∈ disks ∨ Old disk) ∧ rstrip heatmapSuffix disk = drive := by
    rw [blkHeatmap, List.mem_map]
    constructor
    · rintro ⟨n, hn, rfl⟩
      obtain ⟨disk, hdisk, rfl⟩ := (hmem n).mp hn
      exact ⟨disk, hdisk, (rstrip_heatmapFile disk).symm⟩
    · rintro ⟨disk, hdisk, rfl⟩
      exact ⟨heatmapFile disk, (hmem _).mpr ⟨disk, hdisk, rfl⟩, rstrip_heatmapFile disk⟩
  constructor
  · rintro ⟨hdrives, hall⟩
    constructor
    · intro disk hdisk
      -- it is listed, so it has been stripped
      obtain ⟨disk', -, hstrip⟩ := (hdrive disk).mp ((hall disk).mpr hdisk)
      rw [← rstrip_eq_self_iff, ← hstrip, rstrip_rstrip]
    · intro disk hold
      have hdisk : rstrip heatmapSuffix disk ∈ disks := (hall _).mp ((hdrive _).mpr ⟨disk, Or.inr hold, rfl⟩)
      -- two files with one name in the list are one file
      have hsame : heatmapFile disk = heatmapFile (rstrip heatmapSuffix disk) := by
        refine List.inj_on_of_nodup_map hdrives ((hmem _).mpr ⟨disk, Or.inr hold, rfl⟩)
          ((hmem _).mpr ⟨_, Or.inl hdisk, rfl⟩) ?_
        rw [rstrip_heatmapFile, rstrip_heatmapFile, rstrip_rstrip]
      rw [heatmapFile_injective hsame]
      exact hdisk
  · rintro ⟨hself, hold⟩
    have hstrip {disk : Str} (hdisk : disk ∈ disks ∨ Old disk) : disk ∈ disks ∧ rstrip heatmapSuffix disk = disk := by
      have hin : disk ∈ disks := hdisk.elim id (hold disk)
      exact ⟨hin, rstrip_eq_self_iff.mpr (hself disk hin)⟩
    constructor
    · refine (hnodup.filter _).map_on (fun n hn n' hn' heq => ?_)
      obtain ⟨disk, hdisk, rfl⟩ := (hmem n).mp hn
      obtain ⟨disk', hdisk', rfl⟩ := (hmem n').mp hn'
      rw [rstrip_heatmapFile, rstrip_heatmapFile, (hstrip hdisk).2, (hstrip hdisk').2] at heq
      rw [heq]
    · intro drive
      rw [hdrive]
      constructor
      · rintro ⟨disk, hdisk, rfl⟩
        rw [(hstrip hdisk).2]
        exact (hstrip hdisk).1
      · intro hin
        exact ⟨drive, Or.inl hin, (hstrip (Or.inl hin)).2⟩

/-! ## The output directory -/

section Disks

variable {row : Nat} {reqs : List (Str × HeatmapRequest)} {order : List (Str × Heatmap)} {fs fs₃ : FileSystem DataFile}
  {name : Str} {d : Place}

/-- **The heat maps in the directory of the trace** are those of the disks and those that were there before. -/
theorem contents_released (hregular : Regular row reqs)
    (hlist : Grouping.Listing ((HeatmapCollector.new row).commitAll reqs).collector order) (htrace : TraceDir fs name d)
    (hfree : ∀ e ∈ order, fs.isDir (d ++ [heatmapFile e.1]) = false) (disk : Str) :
    (fs.writeFiles name (releasedFiles order)).contents (d ++ [heatmapFile disk]) ≠ none ↔
      disk ∈ reqs.map Prod.fst ∨ fs.contents (d ++ [heatmapFile disk]) ≠ none := by
  have hproper := proper_releasedFiles hregular hlist
  by_cases hmem : disk ∈ order.map Prod.fst
  · obtain ⟨e, he, rfl⟩ := List.mem_map.mp hmem
    have hfile : (heatmapFile e.1, DataFile.heatmap (e.2.dumpJson (e.2.genHeatmap.getD []))) ∈ releasedFiles order := by
      rw [← driveName_of_mem hlist he]
      exact List.mem_map_of_mem he
    have hnode : (fs.writeFiles name (releasedFiles order)).node (d ++ [heatmapFile e.1]) = _ :=
      (node_writeFiles_of_mem htrace.plain.ne_nil hproper (nodup_releasedFiles hlist) hfile d).trans
        (if_pos ⟨htrace.dirAt, hfree e he⟩)
    rw [contents, hnode]
    exact iff_of_true (Option.some_ne_none _) (Or.inl ((mem_disks_iff hlist e.1).mp hmem))
  · have hnot : heatmapFile disk ∉ (releasedFiles order).map Prod.fst := by
      rw [names_releasedFiles hlist, List.mem_map]
      rintro ⟨disk', hdisk', heq⟩
      exact hmem (heatmapFile_injective heq ▸ hdisk')
    rw [contents, node_writeFiles_of_notMem htrace.plain.ne_nil hproper hnot, ← mem_disks_iff hlist]
    exact (or_iff_right hmem).symm

/-- **The heat maps the viewer finds.** -/
theorem HeatmapsCopied.mem_listing_iff (h : HeatmapsCopied fs fs₃ name d order) (hregular : Regular row reqs)
    (hlist : Grouping.Listing ((HeatmapCollector.new row).commitAll reqs).collector order) {d' : Place}
    {listing : List Name} (hdir : fs₃.dirAt (viewerPath (outPath name)) = some d') (hlisting : Listdir fs₃ d' listing)
    (n : Name) : n ∈ listing ∧ heatmapSuffix <:+ n ↔
      ∃ disk, (disk ∈ reqs.map Prod.fst ∨ LeftBehind fs d disk) ∧ heatmapFile disk = n := by
  obtain ⟨fs₁, fs₂, names, hdump, hrest, hnames, hreport⟩ := h.copied
  rw [dumpJson_eq, Option.ite_none_right_eq_some] at hdump
  obtain rfl := Option.some.inj hdump.2
  have hfresh := freshCopy_setUpOutput ((h.trace.writeFiles _).keeps hrest) hnames
  obtain rfl : outPlace fs₂ name = d' := Option.some.inj ((hreport.dirAt hfresh.viewer).symm.trans hdir)
  -- what is there has been copied
  have hfile (disk : Str) : heatmapFile disk ∈ listing ↔ disk ∈ reqs.map Prod.fst ∨ LeftBehind fs d disk := by
    have hsuffix : IsHeatmap (heatmapFile disk) := ⟨disk, rfl⟩
    rw [hlisting.mem_iff, hreport.file _ _ hsuffix, hfresh.file, hrest.contents d hsuffix]
    by_cases hmatch : Matches (heatmapFile disk)
    · rw [if_pos hmatch, ne_eq, Option.map_eq_none_iff, LeftBehind, and_iff_right hmatch]
      exact contents_released hregular hlist h.trace h.free disk
    · rw [if_neg hmatch]
      refine iff_of_false (fun hnone => hnone rfl) ?_
      rintro (hmem | hold)
      · have hname := hregular.name disk hmem
        exact hmatch (matches_heatmapFile hname.1 hname.2)
      · exact hmatch hold.1
  constructor
  · rintro ⟨hn, disk, rfl⟩
    exact ⟨disk, (hfile disk).mp hn, rfl⟩
  · rintro ⟨disk, hdisk, rfl⟩
    exact ⟨(hfile disk).mpr hdisk, disk, rfl⟩

/-- **The drives of a collector are the disks that were recorded in it, exactly if** no name ends in one of the characters
    of `"_heatmap.json"`, and no heat map of another disk was left behind. -/
theorem drivesReported_commitAll (hregular : Regular row reqs)
    (hlist : Grouping.Listing ((HeatmapCollector.new row).commitAll reqs).collector order) :
    DrivesReported order row reqs := by
  intro fs fs₃ name d drives h hdrives
  obtain ⟨d', listing, hdir, hlisting, rfl⟩ := hdrives
  rw [← blkHeatmap_iff hlisting.nodup (h.mem_listing_iff hregular hlist hdir hlisting)]
  refine ⟨fun hshown => ⟨hshown.nodup, hshown.mem_iff⟩, fun hboth => ⟨hboth.1, hboth.2, ?_⟩⟩
  intro drive hdrive
  obtain ⟨fs₁, fs₂, names, hdump, hrest, hnames, hreport⟩ := h.copied
  have hfree : ∀ disk ∈ reqs.map Prod.fst, fs.isDir (d ++ [heatmapFile disk]) = false := by
    intro disk hmem
    obtain ⟨e, he, rfl⟩ := List.mem_map.mp ((mem_disks_iff hlist disk).mpr hmem)
    exact h.free e he
  exact (reported_commitAll hregular hlist fs name).shown fs₁ fs₂ fs₃ d names h.trace hdump hfree hrest hnames hreport
    drive ((hboth.2 drive).mp hdrive)

/-- **In a directory with nothing else in it**, the drives are the disks, stripped. -/
theorem exists_drivesListed (hregular : Regular row reqs)
    (hlist : Grouping.Listing ((HeatmapCollector.new row).commitAll reqs).collector order) (hproper : Proper name)
    (hslash : (47 : UInt8) ∉ name) (hword : ShellWord name)
    (hfit : ∀ disk ∈ reqs.map Prod.fst, SectorsFit row (Grouping.itemsOf disk reqs)) :
    ∃ fs₃, HeatmapsCopied (onlyDir name) fs₃ name [name] order ∧
      DrivesListed fs₃ (viewerPath (outPath name)) ((order.map Prod.fst).map (rstrip heatmapSuffix)) := by
  have htrace : TraceDir (onlyDir name : FileSystem DataFile) name [name] := traceDir_onlyDir hproper hslash hword
  have hdump : HeatmapCollector.dumpJson (onlyDir name) name order =
      some ((onlyDir name).writeFiles name (releasedFiles order)) := by
    obtain ⟨fs₁, hfs₁⟩ := Option.isSome_iff_exists.mp
      ((reported_commitAll hregular hlist (onlyDir name) name).released.mpr hfit)
    rw [hfs₁]
    rw [dumpJson_eq, Option.ite_none_right_eq_some] at hfs₁
    exact hfs₁.2.symm
  have hnames := expansion_releasedFiles hregular hlist hproper hslash hword
  have hfresh := freshCopy_setUpOutput (htrace.writeFiles (releasedFiles order)) hnames
  have hlisting : Listdir (setUpOutput ((onlyDir name).writeFiles name (releasedFiles order)) name (outPath name)
      ((releasedFiles order).map Prod.fst)) (outPlace ((onlyDir name).writeFiles name (releasedFiles order)) name)
      ((releasedFiles order).map Prod.fst) := by
    refine ⟨nodup_releasedFiles hlist, fun n => ?_⟩
    rw [hfresh.file]
    constructor
    · intro hn
      obtain ⟨f, hf, rfl⟩ := List.mem_map.mp hn
      have hfree : (onlyDir name : FileSystem DataFile).isDir ([name] ++ [f.1]) = false := by rw [isDir, node_onlyDir]
      have hnode : ((onlyDir name).writeFiles name (releasedFiles order)).node ([name] ++ [f.1]) = _ :=
        (node_writeFiles_of_mem htrace.plain.ne_nil (proper_releasedFiles hregular hlist) (nodup_releasedFiles hlist) hf
          [name]).trans (if_pos ⟨htrace.dirAt, hfree⟩)
      rw [if_pos ((hnames.mem_iff f.1).mp hn).2, contents, hnode]
      exact Option.some_ne_none _
    · intro hne
      rw [ne_eq, ite_eq_right_iff, Classical.not_imp, Option.map_eq_none_iff] at hne
      refine (hnames.mem_iff n).mpr ⟨fun hnone => hne.2 ?_, hne.1⟩
      rw [contents, hnone]
  have hall : ((releasedFiles order).map Prod.fst).filter (heatmapSuffix.isSuffixOf ·) =
      (releasedFiles order).map Prod.fst := by
    rw [List.filter_eq_self, names_releasedFiles hlist]
    refine List.forall_mem_map.mpr (fun disk _ => ?_)
    rw [List.isSuffixOf_iff_suffix]
    exact ⟨disk, rfl⟩
  refine ⟨_, ⟨htrace, fun e _ => ?_, _, _, _, hdump, .refl _, hnames, .refl _⟩, _, _, hfresh.viewer, hlisting, ?_⟩
  · rw [isDir, node_onlyDir]
  · rw [blkHeatmap, hall, names_releasedFiles hlist, List.map_map]
    exact List.map_congr_left (fun disk _ => rstrip_heatmapFile disk)

end Disks

/-! ## Both tracers -/

/-- **The drives of both tracers**, from the delivered records to the list of the viewer. -/
theorem heatmap_drives (row : Nat) :
    (∀ (pmcInv : UInt64) (recs : List InfoRecord) (m : InfoModule),
      Ext4Dio.Info.deliver (.new pmcInv row) recs = .ok m → Regular row (diskRequests firstDisk [] recs) →
        ∀ order, Grouping.Listing m.heatmapTrace.collector order →
          DrivesReported order row (diskRequests firstDisk [] recs)) ∧
    ∀ (ndebug : Bool) (recs : List (EventData × BlkRecord)) (m : BlkTraceModule),
      BlockTrace.deliver ndebug ⟨[], .new row⟩ recs = .ok m → Regular row (pluggedRequests recs) →
        ∀ order, Grouping.Listing m.heatmapTrace.collector order →
          DrivesReported order row (pluggedRequests recs) := by
  constructor
  · intro pmcInv recs m h hregular order hlist
    have hnew (q : Ptr) : (InfoModule.new pmcInv row).hctxMapping.find q = firstDisk [] q := Hctx2disk.find_new q
    rw [Ext4Dio.Info.heatmap_deliver h hnew] at hlist
    exact drivesReported_commitAll hregular hlist
  · intro ndebug recs m h hregular order hlist
    rw [BlockTrace.heatmap_deliver h] at hlist
    exact drivesReported_commitAll hregular hlist

/-- A request on disk `b` in info mode, and one on disk `a` in block mode, that is listed without a name. -/
theorem heatmap_drives_one :
    (∃ m fs, Ext4Dio.Info.deliver (.new 10 1) [reportOf 98, requestAt 5] = .ok m ∧
        DrivesShown fs (viewerPath (outPath [116])) 1 [([98], (5, 8))] [[98]]) ∧
      ∃ m fs, BlockTrace.deliver true ⟨[], .new 1⟩ [(Vector.replicate 12 0, pluggedRequest)] = .ok m ∧
        DrivesListed fs (viewerPath (outPath [116])) [[]] ∧
        ¬ DrivesShown fs (viewerPath (outPath [116])) 1 [([97], (5, 8))] [[]] := by
  constructor
  · obtain ⟨hregular, hfit⟩ := regular_one (by decide : (98 : UInt8) ≠ 47) (by decide) (by decide)
    have hreqs : diskRequests firstDisk [] [reportOf 98, requestAt 5] = [([98], (5, 8))] := by decide
    have hreported := (heatmap_drives 1).1 10 [reportOf 98, requestAt 5] _ rfl (by rw [hreqs]; exact hregular) _
      (Grouping.Listing.refl _)
    rw [hreqs] at hreported
    obtain ⟨fs, hcopied, hdrives⟩ := exists_drivesListed hregular (Grouping.Listing.refl _)
      (by decide : Proper [116]) (by decide) (by decide) hfit
    refine ⟨_, fs, rfl, (hreported _ _ _ _ _ hcopied hdrives).mpr ⟨List.forall_mem_singleton.mpr ?_, fun disk hold => ?_⟩⟩
    · intro c hc
      obtain rfl : (98 : UInt8) = c := Option.some.inj hc
      decide
    · exact absurd (by rw [contents, node_onlyDir]) hold.2
  · obtain ⟨hregular, hfit⟩ := regular_one (by decide : (97 : UInt8) ≠ 47) (by decide) (by decide)
    have hreqs : pluggedRequests [((Vector.replicate 12 0 : EventData), pluggedRequest)] = [([97], (5, 8))] := by decide
    have hreported := (heatmap_drives 1).2 true [(Vector.replicate 12 0, pluggedRequest)] _ rfl
      (by rw [hreqs]; exact hregular) _ (Grouping.Listing.refl _)
    rw [hreqs] at hreported
    obtain ⟨fs, hcopied, hdrives⟩ := exists_drivesListed hregular (Grouping.Listing.refl _)
      (by decide : Proper [116]) (by decide) (by decide) hfit
    refine ⟨_, fs, rfl, hdrives, fun hshown => ?_⟩
    exact ((hreported _ _ _ _ _ hcopied hdrives).mp hshown).1 [97] List.mem_cons_self 97 rfl (by decide)

end StorTrace
