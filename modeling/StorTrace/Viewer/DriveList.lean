import Mathlib.Algebra.Order.BigOperators.Group.List
import Mathlib.Data.List.DropRight
import StorTrace.Lib.FileTree
import StorTrace.Viewer.HeatmapPage

/-!
# `Viewer.DriveList` — can every disk with a heat map be opened? (`blk_heatmap`, `io_heatmap`)

`Heatmap::dump_json` names the file of a disk after the disk. The viewer takes the names back from the directory
with `rstrip("_heatmap.json")`, which removes every trailing character of that **set**: `sda` is listed as `sd`.
-/

namespace StorTrace

open FileTree

/-! ## The files of the disks -/

/-- `"_heatmap.json"`. -/
def heatmapSuffix : Str := strBytes "_heatmap.json"

/-- The file of a disk. -/
def heatmapFile (driveName : Str) : Name := driveName ++ heatmapSuffix

/-- What a file of the data directory holds. -/
inductive DataFile where
  | heatmap (json : HeatmapJson)
  | other
deriving DecidableEq

/-- `HeatmapCollector::dump_json`: each heat map, with its buckets, in the order of the map. -/
def dumpHeatmaps (fs : FileSystem DataFile) (pre : Str) (maps : List (Heatmap × List Int)) : FileSystem DataFile :=
  maps.foldl (fun fs m => fs.write (pre ++ 47 :: heatmapFile m.1.driveName) (.heatmap (m.1.dumpJson m.2))) fs

/-! ## The viewer -/

/-- `text.rstrip(chars)`. -/
def rstrip (chars text : Str) : Str := text.rdropWhile (· ∈ chars)

/-- `drive_json`, from what `os.listdir` returns. -/
def blkHeatmap (listing : List Name) : List Str :=
  (listing.filter (heatmapSuffix.isSuffixOf ·)).map (rstrip heatmapSuffix)

/-- `json.load(open(path+"/"+drive+"_heatmap.json"))`. -/
def loadHeatmap (fs : FileSystem DataFile) (path drive : Str) : Option HeatmapJson :=
  (fs.read (path ++ 47 :: heatmapFile drive)).bind (fun file =>
    match file with
    | .heatmap json => some json
    | .other => none)

/-- `os.listdir` of the directory `d`, in some order. -/
structure Listdir (fs : FileSystem DataFile) (d : Place) (listing : List Name) : Prop where
  nodup : listing.Nodup
  mem_iff : ∀ n, n ∈ listing ↔ fs.node (d ++ [n]) ≠ none

/-- **Every disk with a heat map can be opened**: the disks listed are those with a heat map, and each is shown
    from the file that was written for it. -/
structure DrivesOpen (fs : FileSystem DataFile) (path : Str) (listing : List Name)
    (maps : List (Heatmap × List Int)) : Prop where
  listed : ∀ drive, drive ∈ blkHeatmap listing ↔ ∃ m ∈ maps, m.1.driveName = drive
  opened : ∀ drive ∈ blkHeatmap listing, ∃ m ∈ maps, m.1.driveName = drive ∧
    ∀ length, (loadHeatmap fs path drive).bind (ioHeatmap · length) = ioHeatmap (m.1.dumpJson m.2) length

/-- The data directory before the heat maps are written: the collector and the viewer mean the same one, no two
    disks share a name, and no name is taken. -/
structure DataDir (fs : FileSystem DataFile) (pre path : Str) (d : Place) (maps : List (Heatmap × List Int)) : Prop where
  pre_ne : pre ≠ []
  path_ne : path ≠ []
  pre_dir : fs.dirAt pre = some d
  path_dir : fs.dirAt path = some d
  nodup : (maps.map (fun m => m.1.driveName)).Nodup
  noSlash : ∀ m ∈ maps, (47 : UInt8) ∉ m.1.driveName
  free : ∀ n, heatmapSuffix <:+ n → fs.node (d ++ [n]) = none

/-! ## `rstrip` -/

/-- What is made of the set is stripped whole. -/
theorem rstrip_append {chars suffix : Str} (h : ∀ c ∈ suffix, c ∈ chars) (text : Str) :
    rstrip chars (text ++ suffix) = rstrip chars text := by
  have hall : ∀ c ∈ suffix.reverse, decide (c ∈ chars) = true := by
    intro c hc
    exact decide_eq_true (h c (List.mem_reverse.mp hc))
  rw [rstrip, List.rdropWhile, List.reverse_append, List.dropWhile_append_of_pos hall]
  rfl

theorem rstrip_heatmapFile (driveName : Str) :
    rstrip heatmapSuffix (heatmapFile driveName) = rstrip heatmapSuffix driveName :=
  rstrip_append (fun _ hc => hc) driveName

/-- **A text is left as it is exactly if** it does not end in a character of the set. -/
theorem rstrip_eq_self_iff {chars text : Str} : rstrip chars text = text ↔ ∀ c ∈ text.getLast?, c ∉ chars := by
  rw [rstrip, List.rdropWhile_eq_self_iff]
  rcases List.eq_nil_or_concat text with rfl | ⟨body, c, rfl⟩
  · exact iff_of_true (fun hne => absurd rfl hne) (by simp)
  · simp

theorem length_rstrip_le (chars text : Str) : (rstrip chars text).length ≤ text.length :=
  (List.rdropWhile_prefix _ text).length_le

/-- A map that lengthens nothing and only renames the members of a list keeps their lengths. -/
theorem length_map_eq {f : Str → Str} (hle : ∀ x, (f x).length ≤ x.length) {names : List Str} (hnodup : names.Nodup)
    (hsub : names ⊆ names.map f) : ∀ x ∈ names, (f x).length = x.length := by
  have hperm : names.Perm (names.map f) := (hnodup.subperm hsub).perm_of_length_le (by rw [List.length_map])
  have hsum : (names.map (fun x => (f x).length)).sum = (names.map List.length).sum := by
    have hlens := (hperm.map List.length).sum_eq
    rw [List.map_map] at hlens
    exact hlens.symm
  intro x hx
  by_contra hne
  have hlt : (names.map (fun x => (f x).length)).sum < (names.map List.length).sum :=
    List.sum_lt_sum _ _ (fun y _ => hle y) ⟨x, hx, Nat.lt_of_le_of_ne (hle x) hne⟩
  omega

/-! ## The directory with the heat maps -/

section Directory

variable {fs : FileSystem DataFile} {pre path : Str} {d : Place} {maps : List (Heatmap × List Int)} {listing : List Name}

/-- The files that are written. -/
def heatmapFiles (maps : List (Heatmap × List Int)) : List (Name × DataFile) :=
  maps.map (fun m => (heatmapFile m.1.driveName, .heatmap (m.1.dumpJson m.2)))

theorem dumpHeatmaps_eq : dumpHeatmaps fs pre maps = fs.writeFiles pre (heatmapFiles maps) := by
  rw [FileSystem.writeFiles, heatmapFiles, List.foldl_map]
  rfl

theorem heatmapFile_injective {name name' : Str} (h : heatmapFile name = heatmapFile name') : name = name' :=
  List.append_cancel_right h

theorem proper_heatmapFile {name : Str} (hslash : (47 : UInt8) ∉ name) :
    FileSystem.Proper (heatmapFile name) ∧ (47 : UInt8) ∉ heatmapFile name := by
  have hlen : 2 < (heatmapFile name).length := by
    rw [heatmapFile, List.length_append]
    exact Nat.lt_of_lt_of_le (by decide : 2 < heatmapSuffix.length) (Nat.le_add_left _ _)
  refine ⟨⟨?_, ?_, ?_⟩, ?_⟩
  · intro h
    rw [h] at hlen
    exact absurd hlen (by decide)
  · intro h
    rw [h] at hlen
    exact absurd hlen (by decide)
  · intro h
    rw [h] at hlen
    exact absurd hlen (by decide)
  · rw [heatmapFile, List.mem_append, not_or]
    exact ⟨hslash, by decide⟩

variable (hdir : DataDir fs pre path d maps)

include hdir

theorem DataDir.proper : ∀ f ∈ heatmapFiles maps, FileSystem.Proper f.1 ∧ (47 : UInt8) ∉ f.1 := by
  intro f hf
  obtain ⟨m, hm, rfl⟩ := List.mem_map.mp hf
  exact proper_heatmapFile (hdir.noSlash m hm)

/-- The file of a heat map. -/
theorem DataDir.node_heatmapFile {m : Heatmap × List Int} (hm : m ∈ maps) :
    (dumpHeatmaps fs pre maps).node (d ++ [heatmapFile m.1.driveName]) =
      some (.file (.heatmap (m.1.dumpJson m.2))) := by
  have hnames : ((heatmapFiles maps).map Prod.fst).Nodup := by
    have hmap := hdir.nodup.map (f := heatmapFile) (fun _ _ => heatmapFile_injective)
    rw [List.map_map] at hmap
    rw [heatmapFiles, List.map_map]
    exact hmap
  have hfree : fs.isDir (d ++ [heatmapFile m.1.driveName]) = false := by
    have hnone : fs.node (d ++ [heatmapFile m.1.driveName]) = none := hdir.free _ ⟨m.1.driveName, rfl⟩
    rw [FileSystem.isDir, hnone]
  rw [dumpHeatmaps_eq, FileSystem.node_writeFiles_of_mem hdir.pre_ne hdir.proper hnames (List.mem_map_of_mem hm) d,
    if_pos ⟨hdir.pre_dir, hfree⟩]

/-- **The names that are read are those that were written.** -/
theorem DataDir.mem_filter_iff (hlist : Listdir (dumpHeatmaps fs pre maps) d listing) (n : Name) :
    n ∈ listing.filter (heatmapSuffix.isSuffixOf ·) ↔ ∃ m ∈ maps, heatmapFile m.1.driveName = n := by
  rw [List.mem_filter, hlist.mem_iff, List.isSuffixOf_iff_suffix]
  constructor
  · rintro ⟨hnode, hsuffix⟩
    by_contra hnone
    have hnot : n ∉ (heatmapFiles maps).map Prod.fst := by
      intro hmem
      obtain ⟨f, hf, rfl⟩ := List.mem_map.mp hmem
      obtain ⟨m, hm, rfl⟩ := List.mem_map.mp hf
      exact hnone ⟨m, hm, rfl⟩
    rw [dumpHeatmaps_eq, FileSystem.node_writeFiles_of_notMem hdir.pre_ne hdir.proper hnot] at hnode
    exact hnode (hdir.free n hsuffix)
  · rintro ⟨m, hm, rfl⟩
    rw [hdir.node_heatmapFile hm]
    exact ⟨by simp, m.1.driveName, rfl⟩

/-- What is listed: the names of the disks, stripped once more. -/
theorem DataDir.mem_blkHeatmap_iff (hlist : Listdir (dumpHeatmaps fs pre maps) d listing) (drive : Str) :
    drive ∈ blkHeatmap listing ↔ ∃ m ∈ maps, rstrip heatmapSuffix m.1.driveName = drive := by
  rw [blkHeatmap, List.mem_map]
  constructor
  · rintro ⟨n, hn, rfl⟩
    obtain ⟨m, hm, rfl⟩ := (hdir.mem_filter_iff hlist n).mp hn
    exact ⟨m, hm, (rstrip_heatmapFile _).symm⟩
  · rintro ⟨m, hm, rfl⟩
    exact ⟨_, (hdir.mem_filter_iff hlist _).mpr ⟨m, hm, rfl⟩, rstrip_heatmapFile _⟩

/-- The file of a disk is found under the path of the viewer. -/
theorem DataDir.loadHeatmap_eq {m : Heatmap × List Int} (hm : m ∈ maps) :
    loadHeatmap (dumpHeatmaps fs pre maps) path m.1.driveName = some (m.1.dumpJson m.2) := by
  have hproper := proper_heatmapFile (hdir.noSlash m hm)
  have hdirs : FileSystem.SameDirs fs (dumpHeatmaps fs pre maps) := by
    rw [dumpHeatmaps_eq]
    exact FileSystem.sameDirs_writeFiles _ _
  rw [loadHeatmap, FileSystem.read_slash hdir.path_ne hproper.1 hproper.2, hdirs.dirAt, hdir.path_dir, Option.bind_some,
    FileSystem.contents, hdir.node_heatmapFile hm]
  rfl

end Directory

/-- **Every disk can be opened exactly if** no name ends in one of the characters of `"_heatmap.json"`. -/
theorem drivesOpen_iff {fs : FileSystem DataFile} {pre path : Str} {d : Place} {maps : List (Heatmap × List Int)}
    {listing : List Name} (hdir : DataDir fs pre path d maps)
    (hlist : Listdir (dumpHeatmaps fs pre maps) d listing) :
    DrivesOpen (dumpHeatmaps fs pre maps) path listing maps ↔
      ∀ m ∈ maps, ∀ c ∈ m.1.driveName.getLast?, c ∉ heatmapSuffix := by
  constructor
  · intro h m hm
    rw [← rstrip_eq_self_iff]
    have hsub : maps.map (fun m => m.1.driveName) ⊆
        (maps.map (fun m => m.1.driveName)).map (rstrip heatmapSuffix) := by
      intro drive hdrive
      obtain ⟨m, hm, rfl⟩ := List.mem_map.mp hdrive
      obtain ⟨m', hm', heq⟩ := (hdir.mem_blkHeatmap_iff hlist _).mp ((h.listed _).mpr ⟨m, hm, rfl⟩)
      exact List.mem_map.mpr ⟨_, List.mem_map_of_mem hm', heq⟩
    have hlen := length_map_eq (length_rstrip_le heatmapSuffix) hdir.nodup hsub _ (List.mem_map_of_mem hm)
    exact (List.rdropWhile_prefix _ _).eq_of_length hlen
  · intro h
    have hself : ∀ m ∈ maps, rstrip heatmapSuffix m.1.driveName = m.1.driveName :=
      fun m hm => rstrip_eq_self_iff.mpr (h m hm)
    have hlisted : ∀ drive, drive ∈ blkHeatmap listing ↔ ∃ m ∈ maps, m.1.driveName = drive := by
      intro drive
      rw [hdir.mem_blkHeatmap_iff hlist]
      exact exists_congr (fun m => and_congr_right (fun hm => by rw [hself m hm]))
    refine ⟨hlisted, ?_⟩
    intro drive hdrive
    obtain ⟨m, hm, rfl⟩ := (hlisted drive).mp hdrive
    refine ⟨m, hm, rfl, ?_⟩
    intro length
    rw [hdir.loadHeatmap_eq hm, Option.bind_some]

/-! ## One disk in an empty directory -/

/-- Nothing but the root. -/
def emptyRoot : FileSystem DataFile where
  node p := if p = [] then some .dir else none
  cwd := []
  root_dir := if_pos rfl
  cwd_dir := if_pos rfl
  parent_dir d n h := absurd (if_neg (by simp)) h

theorem node_emptyRoot (n : Name) : emptyRoot.node ([] ++ [n]) = none := by
  show (if [n] = [] then some Node.dir else none) = none
  exact if_neg (List.cons_ne_nil n [])

/-- The heat map of a disk, with one bucket. -/
def oneDisk (name : Str) : List (Heatmap × List Int) := [(.new 1 name, [8])]

theorem dataDir_oneDisk {name : Str} (hslash : (47 : UInt8) ∉ name) : DataDir emptyRoot [46] [46] [] (oneDisk name) where
  pre_ne := by simp
  path_ne := by simp
  pre_dir := by decide
  path_dir := by decide
  nodup := by simp [oneDisk]
  noSlash m hm := by
    obtain rfl := List.mem_singleton.mp hm
    exact hslash
  free n _ := node_emptyRoot n

theorem listdir_oneDisk {name : Str} (hslash : (47 : UInt8) ∉ name) :
    Listdir (dumpHeatmaps emptyRoot [46] (oneDisk name)) [] [heatmapFile name] where
  nodup := by simp
  mem_iff n := by
    have hdir := dataDir_oneDisk hslash
    rw [List.mem_singleton]
    by_cases hn : n = heatmapFile name
    · subst hn
      have hnode := hdir.node_heatmapFile (m := (.new 1 name, [8])) List.mem_cons_self
      exact iff_of_true rfl (fun h => absurd (hnode.symm.trans h) (by simp))
    · have hnot : n ∉ (heatmapFiles (oneDisk name)).map Prod.fst := fun h => hn (List.mem_singleton.mp h)
      rw [dumpHeatmaps_eq, FileSystem.node_writeFiles_of_notMem hdir.pre_ne hdir.proper hnot]
      exact iff_of_false hn (fun h => h (node_emptyRoot n))

/-- The disk `sdb`. -/
theorem drivesOpen_iff_sdb :
    DrivesOpen (dumpHeatmaps emptyRoot [46] (oneDisk (strBytes "sdb"))) [46] [heatmapFile (strBytes "sdb")]
        (oneDisk (strBytes "sdb")) ↔
      ∀ m ∈ oneDisk (strBytes "sdb"), ∀ c ∈ m.1.driveName.getLast?, c ∉ heatmapSuffix :=
  drivesOpen_iff (dataDir_oneDisk (by decide)) (listdir_oneDisk (by decide))

/-- **Not every disk can be opened**: `sda` is listed as `sd`. -/
theorem not_drivesOpen_sda :
    ¬ ∀ (fs : FileSystem DataFile) (pre path : Str) (d : Place) (maps : List (Heatmap × List Int)) (listing : List Name),
      DataDir fs pre path d maps → (∀ m ∈ maps, m.1.driveName ≠ []) →
      Listdir (dumpHeatmaps fs pre maps) d listing → DrivesOpen (dumpHeatmaps fs pre maps) path listing maps := by
  intro h
  have hopen := h emptyRoot [46] [46] [] (oneDisk (strBytes "sda")) [heatmapFile (strBytes "sda")]
    (dataDir_oneDisk (by decide)) (by decide) (listdir_oneDisk (by decide))
  have hmem := (hopen.listed (strBytes "sda")).mpr ⟨(.new 1 (strBytes "sda"), [8]), List.mem_cons_self, rfl⟩
  have hlisted : blkHeatmap [heatmapFile (strBytes "sda")] = [strBytes "sd"] := by decide
  rw [hlisted, List.mem_singleton] at hmem
  exact absurd hmem (by decide)

end StorTrace
