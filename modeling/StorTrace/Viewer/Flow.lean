import StorTrace.Collector.HashJoin
import StorTrace.Collector.LogCollecter
import StorTrace.Ext4Dio.RequestStages
import StorTrace.Lib.FileCopy
import StorTrace.Lib.Grouping

/-!
# `Viewer.Flow` — the requests of a direct I/O, from the post-processor's files to the viewer (`query_flow`)

`process_dio_info_event` makes the directory `rq_result` in the output directory and writes one file for
each direct I/O with requests, but into a path that names the output directory **twice**; nothing checks
that a file could be opened. The viewer reads from the output directory.

`flowsShown_iff` says for which trace names the viewer finds the files.
-/

namespace StorTrace

open FileTree Meta
open Ext4Dio (RqStages)

/-! ## The post-processor -/

/-- A value in a result file: a text, or an object with the member `"latency"`. -/
inductive RqValue where
  | text (s : Str)
  | latency (stage : List UInt64)
deriving DecidableEq

/-- A JSON object, by its keys in ascending order. -/
abbrev RqObject := List (Str × RqValue)

/-- `this_dio_rq_data[key] = value`. -/
def RqObject.set (key : Str) (value : RqValue) : RqObject → RqObject
  | [] => [(key, value)]
  | e :: rest =>
      if key = e.1 then (key, value) :: rest
      else if key < e.1 then (key, value) :: e :: rest
      else e :: RqObject.set key value rest

/-- The contents of a result file. -/
inductive ResultFile where
  | requests (data : RqObject)
  | other (text : Str)
deriving DecidableEq

/-- `stage` of row `row` of `rq_info`. -/
def stageOf (r : RqStages) : List UInt64 :=
  [r.blockSched, r.nvmeExecute, r.nvmeVerify, r.scsiExecute, r.scsiVerify, r.accountIo]

/-- `"dio_index"`. -/
def dioIndexKey : Str := [100, 105, 111, 95, 105, 110, 100, 101, 120]

/-- `this_dio_rq_data` of one direct I/O. -/
def rqData (rqInfo : List (List UInt8)) (dio : Nat) (rows : List Nat) : RqObject :=
  rows.foldl (fun data row => data.set (stdToString row) (.latency (stageOf (.ofRow (rqInfo.getD row [])))))
    (RqObject.set dioIndexKey (.text (stdToString dio)) [])

/-- `dio_rq_map`: the joined rows of each direct I/O. -/
def dioRqMap (dInfo rqInfo : List (List UInt8)) : AList (fun _ : Nat => List Nat) :=
  Grouping.groupAll (fun _ => []) (fun rows row => rows ++ [row]) ∅ (hashjoinVector 0 0 dInfo rqInfo 1)

/-- `".json"`. -/
def jsonSuffix : Str := [46, 106, 115, 111, 110]

/-- `dump_json`: written to `"%s/%s.json"`, whether or not it can be opened. -/
def dumpJson (fs : FileSystem ResultFile) (result : ResultFile) (name outPrefix : Str) : FileSystem ResultFile :=
  fs.write (outPrefix ++ 47 :: (name ++ jsonSuffix)) result

/-- `"dio_record_time"`. -/
def recordTimeName : Str := [100, 105, 111, 95, 114, 101, 99, 111, 114, 100, 95, 116, 105, 109, 101]

/-- `"dio_event_latency"`. -/
def eventLatencyName : Str := [100, 105, 111, 95, 101, 118, 101, 110, 116, 95, 108, 97, 116, 101, 110, 99, 121]

/-- `"/rq_result"`. -/
def rqResult : Str := [47, 114, 113, 95, 114, 101, 115, 117, 108, 116]

/-- `out_path`, from the name of the trace: `env.trace_state.name + "_dump"`. -/
def outPath (name : Str) : Str := name ++ [95, 100, 117, 109, 112]

/-- `dir_name`. -/
def dirName (out : Str) : Str := out ++ rqResult

/-- `"./" + out_path`. -/
def dumpPath (out : Str) : Str := 46 :: 47 :: out

/-- `"./" + out_path + dir_name`. -/
def rqDumpPath (out : Str) : Str := dumpPath out ++ dirName out

/-- `process_dio_info_event`, as far as it writes; `strampSeq` and `latency` are the results for the direct
    I/Os themselves, and `order` is the order in which `dio_rq_map` is iterated over. -/
def processDioInfoEvent (fs : FileSystem ResultFile) (out : Str) (strampSeq latency : ResultFile)
    (rqInfo : List (List UInt8)) (order : List (Nat × List Nat)) : Except String (FileSystem ResultFile) :=
  let fs := dumpJson fs strampSeq recordTimeName (dumpPath out)
  let fs := dumpJson fs latency eventLatencyName (dumpPath out)
  if fs.exists? (dirName out) then .error "please using clean data, rq_result existed"
  else
    .ok (order.foldl (fun fs e => dumpJson fs (.requests (rqData rqInfo e.1 e.2)) (stdToString e.1) (rqDumpPath out))
      (fs.mkdir (dirName out)))

/-! ## The viewer -/

/-- What `query_flow` collects: the keys, and for each type the latencies in the order of the keys. -/
structure Flow where
  rqIndexs : List Str
  latencys : List (List UInt64)
deriving DecidableEq

/-- One key: its value has a member `"latency"` with an element for each type. -/
def flowStep (flow : Flow) (e : Str × RqValue) : Option Flow :=
  if e.1 = dioIndexKey then some flow
  else
    match e.2 with
    | .latency stage =>
        if flow.latencys.length ≤ stage.length then
          some ⟨flow.rqIndexs ++ [e.1], List.zipWith (fun latency x => latency ++ [x]) flow.latencys stage⟩
        else none
    | .text _ => none

/-- `sys.argv[1].lstrip("/")`. -/
def viewerPath (out : Str) : Str := out.dropWhile (· = 47)

/-- `query_flow(index)`, started with the output path `out`; `none` where it raises. -/
def queryFlow (fs : FileSystem ResultFile) (out index : Str) : Option Flow :=
  (fs.read (viewerPath out ++ rqResult ++ 47 :: (index ++ jsonSuffix))).bind (fun file =>
    match file with
    | .requests data => data.foldlM flowStep ⟨[], List.replicate 6 []⟩
    | .other _ => none)

/-! ## What should be shown -/

/-- Request row `b` is joined to direct I/O row `i`: they carry the same id. -/
def Joined (dInfo rqInfo : List (List UInt8)) (i b : Nat) : Prop :=
  ∃ ra rb, dInfo[i]? = some ra ∧ rqInfo[b]? = some rb ∧ itemk ra 0 = itemk rb 0

/-- The list `type` of `query_flow`. -/
def flowTypes : List (RqStages → UInt64) :=
  [RqStages.blockSched, RqStages.nvmeExecute, RqStages.nvmeVerify, RqStages.scsiExecute, RqStages.scsiVerify,
    RqStages.accountIo]

/-- **The viewer shows row `i`**: for exactly the requests joined to it, their six latencies, in the order
    of the types. -/
def ShowsFlow (fs : FileSystem ResultFile) (out : Str) (dInfo rqInfo : List (List UInt8)) (i : Nat) : Prop :=
  ∃ (flow : Flow) (rows : List Nat), queryFlow fs out (stdToString i) = some flow ∧ rows.Nodup ∧
    (∀ b, b ∈ rows ↔ Joined dInfo rqInfo i b) ∧ flow.rqIndexs = rows.map stdToString ∧
    flow.latencys = flowTypes.map (fun stage => rows.map (fun b => stage (.ofRow (rqInfo.getD b []))))

/-- Every direct I/O with a request is shown after `process_dio_info_event`, in whatever order the map is
    iterated over. -/
def FlowsShown (fs : FileSystem ResultFile) (name : Str) (strampSeq latency : ResultFile)
    (dInfo rqInfo : List (List UInt8)) : Prop :=
  ∀ order, Grouping.Listing (dioRqMap dInfo rqInfo) order → ∀ fs',
    processDioInfoEvent fs (outPath name) strampSeq latency rqInfo order = .ok fs' →
      ∀ i, (∃ b, Joined dInfo rqInfo i b) → ShowsFlow fs' (outPath name) dInfo rqInfo i

/-- The path the files are written to and the one the viewer reads from lead to the same directory, and
    there is no directory in place of the file of row `i`. -/
def SamePlace (fs : FileSystem ResultFile) (out : Str) (i : Nat) : Prop :=
  ∃ d, fs.dirAt (rqDumpPath out) = some d ∧ fs.dirAt (viewerPath out ++ rqResult) = some d ∧
    fs.isDir (d ++ [stdToString i ++ jsonSuffix]) = false

/-! ## What a file contains -/

section Contents

variable {rqInfo : List (List UInt8)}

/-- Setting a new key adds its entry. -/
theorem RqObject.set_perm {key : Str} (value : RqValue) {data : RqObject} (hkey : key ∉ data.map Prod.fst) :
    (RqObject.set key value data).Perm ((key, value) :: data) := by
  induction data with
  | nil => exact .refl _
  | cons e rest ih =>
      rw [List.map_cons, List.mem_cons, not_or] at hkey
      rw [RqObject.set, if_neg hkey.1]
      split
      · exact .refl _
      · exact ((ih hkey.2).cons e).trans (.swap _ _ _)

/-- The entry of a request. -/
def rqEntry (rqInfo : List (List UInt8)) (row : Nat) : Str × RqValue :=
  (stdToString row, .latency (stageOf (.ofRow (rqInfo.getD row []))))

theorem stdToString_injective {m n : Nat} (h : stdToString m = stdToString n) : m = n := by
  rw [← horner_stdToString m, h, horner_stdToString]

/-- A number is not the key `"dio_index"`. -/
theorem stdToString_ne_dioIndexKey (n : Nat) : stdToString n ≠ dioIndexKey := by
  intro h
  have hmem : (100 : UInt8) ∈ stdToString n := by
    rw [h]
    decide
  exact notMem_stdToString (by decide) n hmem

/-- **A file has an entry for each row** besides the index. -/
theorem rqData_perm {dio : Nat} {rows : List Nat} (hrows : rows.Nodup) :
    (rqData rqInfo dio rows).Perm ((dioIndexKey, .text (stdToString dio)) :: rows.map (rqEntry rqInfo)) := by
  have hfold : ∀ (rows : List Nat) (data : RqObject), rows.Nodup → (∀ row ∈ rows, stdToString row ∉ data.map Prod.fst) →
      (rows.foldl (fun data row => data.set (stdToString row) (.latency (stageOf (.ofRow (rqInfo.getD row []))))) data).Perm
        (data ++ rows.map (rqEntry rqInfo)) := by
    intro rows
    induction rows with
    | nil =>
        intro data _ _
        simp
    | cons row rest ih =>
        intro data hnodup hdata
        obtain ⟨hrow, hrest⟩ := List.nodup_cons.mp hnodup
        have hset := RqObject.set_perm (rqEntry rqInfo row).2 (hdata row List.mem_cons_self)
        have hdata' : ∀ r ∈ rest, stdToString r ∉ (RqObject.set (stdToString row) (rqEntry rqInfo row).2 data).map Prod.fst := by
          intro r hr
          rw [(hset.map Prod.fst).mem_iff, List.map_cons, List.mem_cons, not_or]
          refine ⟨?_, hdata r (List.mem_cons_of_mem _ hr)⟩
          intro heq
          exact hrow (stdToString_injective heq ▸ hr)
        refine (ih _ hrest hdata').trans ?_
        rw [List.map_cons]
        exact (hset.append_right _).trans List.perm_middle.symm
  refine hfold rows _ hrows ?_
  intro row _
  simp only [RqObject.set, List.map_cons, List.map_nil, List.mem_singleton]
  exact stdToString_ne_dioIndexKey row

/-- What `query_flow` has collected after the requests `rows`. -/
def flowOf (rqInfo : List (List UInt8)) (rows : List Nat) : Flow where
  rqIndexs := rows.map stdToString
  latencys := flowTypes.map (fun stage => rows.map (fun b => stage (.ofRow (rqInfo.getD b []))))

/-- One request more. -/
theorem flowStep_rqEntry (rows : List Nat) (row : Nat) :
    flowStep (flowOf rqInfo rows) (rqEntry rqInfo row) = some (flowOf rqInfo (rows ++ [row])) := by
  have hkey : (rqEntry rqInfo row).1 ≠ dioIndexKey := stdToString_ne_dioIndexKey row
  rw [flowStep, if_neg hkey]
  simp [rqEntry, flowOf, flowTypes, stageOf]

/-- **The viewer collects the requests of a file** in the order of its keys. -/
theorem foldlM_flowStep {dio : Nat} {data : RqObject} {rows : List Nat}
    (hdata : data.Perm ((dioIndexKey, .text (stdToString dio)) :: rows.map (rqEntry rqInfo))) :
    ∃ rows', rows'.Perm rows ∧ data.foldlM flowStep (flowOf rqInfo []) = some (flowOf rqInfo rows') := by
  have hentry : ∀ e ∈ data, e = (dioIndexKey, .text (stdToString dio)) ∨ ∃ row, e = rqEntry rqInfo row := by
    intro e he
    rcases List.mem_cons.mp (hdata.mem_iff.mp he) with rfl | he
    · exact Or.inl rfl
    · obtain ⟨row, -, rfl⟩ := List.mem_map.mp he
      exact Or.inr ⟨row, rfl⟩
  -- the rows are read back from the keys that are no index
  let rowOf (e : Str × RqValue) : Option Nat :=
    if e.1 = dioIndexKey then none else some (Text.horner (e.1.map (fun c => c.toNat - 48)))
  have hrowOf (row : Nat) : rowOf (rqEntry rqInfo row) = some row := by
    show (if stdToString row = dioIndexKey then none else _) = _
    rw [if_neg (stdToString_ne_dioIndexKey row)]
    exact congrArg some (horner_stdToString row)
  have hfold : ∀ (data : RqObject) (done : List Nat),
      (∀ e ∈ data, e = (dioIndexKey, .text (stdToString dio)) ∨ ∃ row, e = rqEntry rqInfo row) →
        data.foldlM flowStep (flowOf rqInfo done) = some (flowOf rqInfo (done ++ data.filterMap rowOf)) := by
    intro data
    induction data with
    | nil =>
        intro done _
        rw [List.filterMap_nil, List.append_nil]
        rfl
    | cons e rest ih =>
        intro done h
        obtain ⟨he, hrest⟩ := List.forall_mem_cons.mp h
        rw [List.foldlM_cons]
        rcases he with rfl | ⟨row, rfl⟩
        · have hnone : rowOf (dioIndexKey, .text (stdToString dio)) = none := if_pos rfl
          rw [List.filterMap_cons_none hnone]
          exact ih done hrest
        · rw [flowStep_rqEntry, List.filterMap_cons_some (hrowOf row)]
          show rest.foldlM flowStep (flowOf rqInfo (done ++ [row])) = _
          rw [ih _ hrest, List.append_assoc, List.singleton_append]
  refine ⟨data.filterMap rowOf, ?_, hfold data [] hentry⟩
  have hnone : rowOf (dioIndexKey, .text (stdToString dio)) = none := if_pos rfl
  have hperm := hdata.filterMap rowOf
  rw [List.filterMap_cons_none hnone, List.filterMap_map] at hperm
  have hid : rowOf ∘ rqEntry rqInfo = some := funext hrowOf
  rw [hid, List.filterMap_some] at hperm
  exact hperm

end Contents

/-! ## Where the files go -/

section Places

variable {fs fs' : FileSystem ResultFile} {out : Str}

/-- The name of the file of a direct I/O. -/
def rqFile (i : Nat) : Name := stdToString i ++ jsonSuffix

theorem proper_append_jsonSuffix (name : Str) : FileSystem.Proper (name ++ jsonSuffix) := by
  have hlen : 2 < (name ++ jsonSuffix).length := by
    rw [List.length_append]
    exact Nat.lt_of_lt_of_le (by decide : 2 < jsonSuffix.length) (Nat.le_add_left _ _)
  refine ⟨?_, ?_, ?_⟩ <;>
  · intro h
    rw [h] at hlen
    exact absurd hlen (by decide)

theorem notMem_append_jsonSuffix {name : Str} (hname : (47 : UInt8) ∉ name) : (47 : UInt8) ∉ name ++ jsonSuffix := by
  rw [List.mem_append, not_or]
  exact ⟨hname, by decide⟩

theorem sameDirs_dumpJson (result : ResultFile) (name outPrefix : Str) :
    FileSystem.SameDirs fs (dumpJson fs result name outPrefix) := FileSystem.sameDirs_write _ _

theorem notMem_rqFile (i : Nat) : (47 : UInt8) ∉ stdToString i := notMem_stdToString (by decide) i

theorem rqFile_injective {i j : Nat} (h : rqFile i = rqFile j) : i = j :=
  stdToString_injective (List.append_cancel_right h)

/-- The files of the direct I/Os. -/
def dumpAll (rqInfo : List (List UInt8)) (out : Str) (fs : FileSystem ResultFile) (order : List (Nat × List Nat)) :
    FileSystem ResultFile :=
  order.foldl (fun fs e => dumpJson fs (.requests (rqData rqInfo e.1 e.2)) (stdToString e.1) (rqDumpPath out)) fs

variable {rqInfo : List (List UInt8)} {order : List (Nat × List Nat)}

theorem rqDumpPath_ne_nil : rqDumpPath out ≠ [] := List.cons_ne_nil _ _

/-- They are files written into one directory. -/
theorem dumpAll_eq : dumpAll rqInfo out fs order = fs.writeFiles (rqDumpPath out)
    (order.map (fun e => (rqFile e.1, .requests (rqData rqInfo e.1 e.2)))) := by
  rw [FileSystem.writeFiles, List.foldl_map]
  rfl

theorem sameDirs_dumpAll : FileSystem.SameDirs fs (dumpAll rqInfo out fs order) := by
  rw [dumpAll_eq]
  exact FileSystem.sameDirs_writeFiles _ _

/-- **What is at the place of a file** after all are written: the new file, if the path leads to its
    directory; otherwise what was there. -/
theorem node_dumpAll (hnodup : (order.map Prod.fst).Nodup) {i : Nat} {rows : List Nat} (hi : (i, rows) ∈ order)
    (d : Place) :
    (dumpAll rqInfo out fs order).node (d ++ [rqFile i]) =
      if fs.dirAt (rqDumpPath out) = some d ∧ fs.isDir (d ++ [rqFile i]) = false
      then some (.file (.requests (rqData rqInfo i rows))) else fs.node (d ++ [rqFile i]) := by
  have hfiles : ∀ f ∈ order.map (fun e => (rqFile e.1, ResultFile.requests (rqData rqInfo e.1 e.2))),
      FileSystem.Proper f.1 ∧ (47 : UInt8) ∉ f.1 := by
    intro f hf
    obtain ⟨e, -, rfl⟩ := List.mem_map.mp hf
    exact ⟨proper_append_jsonSuffix _, notMem_append_jsonSuffix (notMem_rqFile e.1)⟩
  have hnames : ((order.map (fun e => (rqFile e.1, ResultFile.requests (rqData rqInfo e.1 e.2)))).map Prod.fst).Nodup := by
    have hmap := hnodup.map (f := rqFile) (fun _ _ => rqFile_injective)
    rw [List.map_map] at hmap ⊢
    exact hmap
  rw [dumpAll_eq]
  exact FileSystem.node_writeFiles_of_mem rqDumpPath_ne_nil hfiles hnames (List.mem_map.mpr ⟨_, hi, rfl⟩) d

/-! ## The directory of the files -/

/-- `"rq_result"`. -/
def rqResultName : Name := [114, 113, 95, 114, 101, 115, 117, 108, 116]

theorem outPath_ne_nil (name : Str) : outPath name ≠ [] := by
  intro h
  exact absurd (List.append_eq_nil_iff.mp h).2 (by decide)

/-- `dir_name` is the name `rq_result` in the output directory. -/
theorem locate_dirName (hout : out ≠ []) :
    fs.locate (dirName out) = (fs.dirAt out).map (fun d => (d, rqResultName)) :=
  FileSystem.locate_slash hout (by decide) (by decide)

/-- Making it changes no file. -/
theorem node_mkdir_dirName (hout : out ≠ []) {n : Name} (hn : n ≠ rqResultName) (d : Place) :
    (fs.mkdir (dirName out)).node (d ++ [n]) = fs.node (d ++ [n]) :=
  (FileSystem.keeps_mkdir hout (by decide : FileSystem.Proper rqResultName) (by decide)).file d n hn

/-- The results for the direct I/Os themselves change nothing at other names. -/
theorem node_dumpJson_of_ne {name outPrefix : Str} (houter : outPrefix ≠ []) (hname : (47 : UInt8) ∉ name)
    (result : ResultFile) {n : Name} (hn : n ≠ name ++ jsonSuffix) (d : Place) :
    (dumpJson fs result name outPrefix).node (d ++ [n]) = fs.node (d ++ [n]) :=
  FileSystem.node_write_slash_of_ne houter (proper_append_jsonSuffix name) (notMem_append_jsonSuffix hname) hn result d

variable (fs out) in
/-- The file system when `dir_name` is looked for. -/
def afterSeries (strampSeq latency : ResultFile) : FileSystem ResultFile :=
  dumpJson (dumpJson fs strampSeq recordTimeName (dumpPath out)) latency eventLatencyName (dumpPath out)

variable {strampSeq latency : ResultFile}

theorem sameDirs_afterSeries : FileSystem.SameDirs fs (afterSeries fs out strampSeq latency) :=
  (sameDirs_dumpJson _ _ _).trans (sameDirs_dumpJson _ _ _)

theorem node_afterSeries {n : Name} (hrecord : n ≠ recordTimeName ++ jsonSuffix)
    (hevent : n ≠ eventLatencyName ++ jsonSuffix) (d : Place) :
    (afterSeries fs out strampSeq latency).node (d ++ [n]) = fs.node (d ++ [n]) := by
  have houter : dumpPath out ≠ [] := List.cons_ne_nil _ _
  rw [afterSeries, node_dumpJson_of_ne houter (by decide) _ hevent, node_dumpJson_of_ne houter (by decide) _ hrecord]

/-- They do not make `dir_name`. -/
theorem exists_afterSeries (hout : out ≠ []) :
    (afterSeries fs out strampSeq latency).exists? (dirName out) = fs.exists? (dirName out) := by
  have hdirs : FileSystem.SameDirs fs (afterSeries fs out strampSeq latency) := sameDirs_afterSeries
  unfold FileSystem.exists?
  rw [hdirs.dirAt, hdirs.locate, locate_dirName hout]
  cases fs.dirAt out with
  | none => rfl
  | some d =>
      simp only [Option.map_some, Option.any_some]
      rw [node_afterSeries (by decide) (by decide)]

theorem rqFile_ne {i : Nat} {n : Name} {c : UInt8} {rest : List UInt8} (hc : isDigit c = false)
    (hn : n = c :: rest) : rqFile i ≠ n := by
  rintro rfl
  have hne := stdToString_ne_nil i
  cases hs : stdToString i with
  | nil => exact hne hs
  | cons d ds =>
      have hd : d ∈ stdToString i := by
        rw [hs]
        exact List.mem_cons_self
      rw [rqFile, hs, List.cons_append] at hn
      rw [(List.cons.inj hn).1] at hd
      exact notMem_stdToString hc i hd

/-- What the viewer reads of row `i`. -/
theorem read_rqFile (i : Nat) :
    fs.read (viewerPath out ++ rqResult ++ 47 :: (stdToString i ++ jsonSuffix)) =
      (fs.dirAt (viewerPath out ++ rqResult)).bind (fun d => fs.contents (d ++ [rqFile i])) := by
  apply FileSystem.read_slash
  · intro h
    exact absurd (List.append_eq_nil_iff.mp h).2 (by decide)
  · exact proper_append_jsonSuffix _
  · rw [List.mem_append, not_or]
    exact ⟨notMem_rqFile i, by decide⟩

variable (rqInfo strampSeq latency) in
/-- **What the viewer reads after the post-processor**: the new file, if both paths lead to the same place;
    otherwise what was there when the directory was made. -/
theorem read_dumpAll (hout : out ≠ []) (hfree : fs.exists? (dirName out) = false)
    (hnodup : (order.map Prod.fst).Nodup) {i : Nat} {rows : List Nat} (hi : (i, rows) ∈ order) :
    (SamePlace (fs.mkdir (dirName out)) out i →
      (dumpAll rqInfo out ((afterSeries fs out strampSeq latency).mkdir (dirName out)) order).read
        (viewerPath out ++ rqResult ++ 47 :: (stdToString i ++ jsonSuffix)) =
          some (.requests (rqData rqInfo i rows))) ∧
    (¬ SamePlace (fs.mkdir (dirName out)) out i →
      (dumpAll rqInfo out ((afterSeries fs out strampSeq latency).mkdir (dirName out)) order).read
        (viewerPath out ++ rqResult ++ 47 :: (stdToString i ++ jsonSuffix)) =
          (fs.mkdir (dirName out)).read (viewerPath out ++ rqResult ++ 47 :: (stdToString i ++ jsonSuffix))) := by
  have hfree' : (afterSeries fs out strampSeq latency).exists? (dirName out) = false := by
    rw [exists_afterSeries hout, hfree]
  have hmade : FileSystem.SameDirs (fs.mkdir (dirName out))
      ((afterSeries fs out strampSeq latency).mkdir (dirName out)) := sameDirs_afterSeries.mkdir hfree hfree'
  have hall : FileSystem.SameDirs (fs.mkdir (dirName out))
      (dumpAll rqInfo out ((afterSeries fs out strampSeq latency).mkdir (dirName out)) order) :=
    hmade.trans sameDirs_dumpAll
  have hnode (d : Place) : ((afterSeries fs out strampSeq latency).mkdir (dirName out)).node (d ++ [rqFile i]) =
      (fs.mkdir (dirName out)).node (d ++ [rqFile i]) := by
    have hname : rqFile i ≠ rqResultName := rqFile_ne (by decide) rfl
    rw [node_mkdir_dirName hout hname, node_mkdir_dirName hout hname,
      node_afterSeries (rqFile_ne (by decide) rfl) (rqFile_ne (by decide) rfl)]
  simp only [read_rqFile, hall.dirAt]
  constructor
  · rintro ⟨d, hdump, hview, hdir⟩
    have hdir' : (fs.mkdir (dirName out)).isDir (d ++ [rqFile i]) = false := hdir
    rw [hview, Option.bind_some, FileSystem.contents, node_dumpAll hnodup hi, hmade.dirAt, hmade.isDir,
      if_pos ⟨hdump, hdir'⟩]
  · intro hother
    cases hview : (fs.mkdir (dirName out)).dirAt (viewerPath out ++ rqResult) with
    | none => rfl
    | some d =>
        have hsame : (dumpAll rqInfo out ((afterSeries fs out strampSeq latency).mkdir (dirName out)) order).node
            (d ++ [rqFile i]) = (fs.mkdir (dirName out)).node (d ++ [rqFile i]) := by
          rw [node_dumpAll hnodup hi, hmade.dirAt, hmade.isDir, hnode, if_neg]
          rintro ⟨hdump, hdir⟩
          exact hother ⟨d, hdump, hview, hdir⟩
        rw [Option.bind_some, Option.bind_some, FileSystem.contents, hsame]
        rfl

end Places

/-! ## When the viewer finds the files -/

section Shown

variable {fs : FileSystem ResultFile} {dInfo rqInfo : List (List UInt8)}

/-- The rows of a direct I/O in `dio_rq_map` are the joined ones. -/
theorem exists_rows {i : Nat} (hi : ∃ b, Joined dInfo rqInfo i b) :
    ∃ rows, (dioRqMap dInfo rqInfo).lookup i = some rows ∧ rows.Nodup ∧ ∀ b, b ∈ rows ↔ Joined dInfo rqInfo i b := by
  have hmem (b : Nat) : b ∈ Grouping.itemsOf i (hashjoinVector 0 0 dInfo rqInfo 1) ↔ Joined dInfo rqInfo i b := by
    rw [Grouping.mem_itemsOf, mem_hashjoinVector_one]
    rfl
  have hfold : ∀ (rows done : List Nat), rows.foldl (fun rows row => rows ++ [row]) done = done ++ rows := by
    intro rows
    induction rows with
    | nil => simp
    | cons row rest ih => intro done; rw [List.foldl_cons, ih, List.append_assoc, List.singleton_append]
  refine ⟨Grouping.itemsOf i (hashjoinVector 0 0 dInfo rqInfo 1), ?_, ?_, hmem⟩
  · obtain ⟨b, hb⟩ := hi
    have hne : Grouping.itemsOf i (hashjoinVector 0 0 dInfo rqInfo 1) ≠ [] := List.ne_nil_of_mem ((hmem b).mpr hb)
    rw [dioRqMap, Grouping.lookup_groupAll_empty, if_neg hne, hfold, List.nil_append]
  · have hnodup := (nodup_hashjoinVector_one 0 0 dInfo rqInfo).filter (fun p => p.1 = i)
    refine hnodup.map_on ?_
    intro p hp q hq heq
    rw [List.mem_filter, decide_eq_true_eq] at hp hq
    exact Prod.ext (hp.2.trans hq.2.symm) heq

/-- A file of the right requests is shown. -/
theorem showsFlow_of_read {out : Str} {i : Nat} {rows : List Nat} (hnodup : rows.Nodup)
    (hrows : ∀ b, b ∈ rows ↔ Joined dInfo rqInfo i b)
    (hread : fs.read (viewerPath out ++ rqResult ++ 47 :: (stdToString i ++ jsonSuffix)) =
      some (.requests (rqData rqInfo i rows))) : ShowsFlow fs out dInfo rqInfo i := by
  have hdata : (rqData rqInfo i rows).Perm _ := rqData_perm hnodup
  obtain ⟨rows', hperm, hflow⟩ := foldlM_flowStep hdata
  refine ⟨flowOf rqInfo rows', rows', ?_, hperm.nodup_iff.mpr hnodup, ?_, rfl, rfl⟩
  · rw [queryFlow, hread]
    exact hflow
  · intro b
    rw [hperm.mem_iff, hrows]

/-- A run in a clean output directory comes to its end. -/
theorem processDioInfoEvent_eq {name : Str} (strampSeq latency : ResultFile) (rqInfo : List (List UInt8))
    (hclean : fs.exists? (dirName (outPath name)) = false) (order : List (Nat × List Nat)) :
    processDioInfoEvent fs (outPath name) strampSeq latency rqInfo order =
      .ok (dumpAll rqInfo (outPath name)
        ((afterSeries fs (outPath name) strampSeq latency).mkdir (dirName (outPath name))) order) := by
  have hfree : (afterSeries fs (outPath name) strampSeq latency).exists? (dirName (outPath name)) = false := by
    rw [exists_afterSeries (outPath_ne_nil name), hclean]
  show (if (afterSeries fs (outPath name) strampSeq latency).exists? (dirName (outPath name)) then _ else _) = _
  rw [hfree]
  rfl

/-- **Every direct I/O is shown exactly if**, for each one with requests, the path its file is written to
    and the path it is read from are the same place, or the file was there already. -/
theorem flowsShown_iff (fs : FileSystem ResultFile) (name : Str) (strampSeq latency : ResultFile)
    (dInfo rqInfo : List (List UInt8)) (hclean : fs.exists? (dirName (outPath name)) = false) :
    FlowsShown fs name strampSeq latency dInfo rqInfo ↔
      ∀ i, (∃ b, Joined dInfo rqInfo i b) →
        SamePlace (fs.mkdir (dirName (outPath name))) (outPath name) i ∨
          ShowsFlow (fs.mkdir (dirName (outPath name))) (outPath name) dInfo rqInfo i := by
  have hout := outPath_ne_nil name
  constructor
  · intro h i hi
    have hlist : Grouping.Listing (dioRqMap dInfo rqInfo) _ := Grouping.Listing.refl _
    obtain ⟨rows, hlookup, -⟩ := exists_rows hi
    have hread := read_dumpAll rqInfo strampSeq latency hout hclean hlist.nodup (hlist.mem_iff.mpr hlookup)
    obtain ⟨flow, shown, hflow, hshown⟩ := h _ hlist _ (processDioInfoEvent_eq strampSeq latency rqInfo hclean _) i hi
    by_cases hsame : SamePlace (fs.mkdir (dirName (outPath name))) (outPath name) i
    · exact Or.inl hsame
    · -- the file was not touched
      right
      rw [queryFlow, hread.2 hsame] at hflow
      exact ⟨flow, shown, hflow, hshown⟩
  · intro h order hlist fs' hfs' i hi
    obtain rfl := Except.ok.inj ((processDioInfoEvent_eq strampSeq latency rqInfo hclean order).symm.trans hfs')
    obtain ⟨rows, hlookup, hnodup, hrows⟩ := exists_rows hi
    have hread := read_dumpAll rqInfo strampSeq latency hout hclean hlist.nodup (hlist.mem_iff.mpr hlookup)
    by_cases hsame : SamePlace (fs.mkdir (dirName (outPath name))) (outPath name) i
    · exact showsFlow_of_read hnodup hrows (hread.1 hsame)
    · obtain ⟨flow, shown, hflow, hshown⟩ := (h i hi).resolve_left hsame
      refine ⟨flow, shown, ?_, hshown⟩
      rw [queryFlow, hread.2 hsame]
      exact hflow

/-- The components of the path the dump writes under. -/
theorem splitOn_rqDumpPath {out : Str} (hslash : (47 : UInt8) ∉ out) :
    (rqDumpPath out).splitOn 47 = [[46], out ++ out, rqResultName] := by
  have hpath : rqDumpPath out = [46] ++ 47 :: ((out ++ out) ++ 47 :: rqResultName) := by
    simp [rqDumpPath, dumpPath, dirName, rqResult, rqResultName]
  rw [hpath, List.splitOn_append_cons_self_of_not_mem (by decide),
    List.splitOn_append_cons_self_of_not_mem (by simp [hslash]), List.splitOn_eq_singleton (by decide)]

/-- A path without a slash is the viewer's as it is. -/
theorem viewerPath_of_notMem {out : Str} (hslash : (47 : UInt8) ∉ out) : viewerPath out = out := by
  unfold viewerPath
  cases out with
  | nil => rfl
  | cons c rest =>
      have hne : c ≠ 47 := Ne.symm (List.ne_of_not_mem_cons hslash)
      exact List.dropWhile_cons_of_neg (by simpa using hne)

/-- The components of the path the viewer reads under. -/
theorem splitOn_viewerPath {out : Str} (hslash : (47 : UInt8) ∉ out) :
    (viewerPath out ++ rqResult).splitOn 47 = [out, rqResultName] := by
  have hpath : viewerPath out ++ rqResult = out ++ 47 :: rqResultName := by
    rw [viewerPath_of_notMem hslash]
    rfl
  rw [hpath, List.splitOn_append_cons_self_of_not_mem hslash, List.splitOn_eq_singleton (by decide)]

/-- **Without a slash in the name of the trace the two places differ**: the files go into a directory with
    the name `<name>_dump<name>_dump`. -/
theorem not_samePlace {name : Str} (hname : (47 : UInt8) ∉ name) (i : Nat) : ¬ SamePlace fs (outPath name) i := by
  have hslash : (47 : UInt8) ∉ outPath name := by
    rw [outPath, List.mem_append, not_or]
    exact ⟨hname, by decide⟩
  have hlen : 5 ≤ (outPath name).length := by
    rw [outPath, List.length_append]
    exact Nat.le_add_left _ _
  have hproper : ∀ n : Name, 5 ≤ n.length → FileSystem.Proper n := by
    intro n hn
    refine ⟨?_, ?_, ?_⟩
    all_goals
      rintro rfl
      exact absurd hn (by decide)
  have hlong : 5 ≤ (outPath name ++ outPath name).length := by
    rw [List.length_append]
    omega
  rintro ⟨d, hd, hd', -⟩
  unfold FileSystem.dirAt at hd hd'
  rw [splitOn_rqDumpPath hslash] at hd
  rw [splitOn_viewerPath hslash] at hd'
  -- `.` is the directory itself
  have hdown : fs.walk (fs.start (rqDumpPath (outPath name))) [outPath name ++ outPath name, rqResultName] = some d := hd
  have hdump := FileSystem.walk_proper (by
    simp only [List.mem_cons, List.not_mem_nil, or_false, forall_eq_or_imp, forall_eq]
    exact ⟨hproper _ hlong, by decide⟩) hdown
  have hview := FileSystem.walk_proper (by
    simp only [List.mem_cons, List.not_mem_nil, or_false, forall_eq_or_imp, forall_eq]
    exact ⟨hproper _ hlen, by decide⟩) hd'
  have hsame := List.append_inj_right' (hdump.symm.trans hview) rfl
  have hself := congrArg List.length (List.cons.inj hsame).1
  rw [List.length_append] at hself
  omega

/-- The output directory of the trace `t`, in the root, and nothing else. -/
def cleanOutput : FileSystem ResultFile := FileSystem.onlyDir (outPath [116])

/-- Rows with the id `0`. -/
def zeroRow (n : Nat) : List UInt8 := List.replicate n 0

/-- One direct I/O with one request. -/
theorem flowsShown_iff_one_request :
    FlowsShown cleanOutput [116] (.other []) (.other []) [zeroRow 40] [zeroRow 64] ↔
      ∀ i, (∃ b, Joined [zeroRow 40] [zeroRow 64] i b) →
        SamePlace (cleanOutput.mkdir (dirName (outPath [116]))) (outPath [116]) i ∨
          ShowsFlow (cleanOutput.mkdir (dirName (outPath [116]))) (outPath [116]) [zeroRow 40] [zeroRow 64] i :=
  flowsShown_iff cleanOutput [116] (.other []) (.other []) [zeroRow 40] [zeroRow 64] (by decide)

/-- **Not every trace name works**: for the trace `t` the viewer finds no file of the direct I/O. -/
theorem not_flowsShown_noSlash :
    ¬ ∀ (fs : FileSystem ResultFile) (name : Str) (strampSeq latency : ResultFile) (dInfo rqInfo : List (List UInt8)),
      fs.exists? (dirName (outPath name)) = false → FlowsShown fs name strampSeq latency dInfo rqInfo := by
  intro h
  have hclean : cleanOutput.exists? (dirName (outPath [116])) = false := by decide
  have hjoined : Joined [zeroRow 40] [zeroRow 64] 0 0 := ⟨zeroRow 40, zeroRow 64, rfl, rfl, by decide⟩
  have hlist : Grouping.Listing (dioRqMap [zeroRow 40] [zeroRow 64]) _ := Grouping.Listing.refl _
  obtain ⟨rows, hlookup, -⟩ := exists_rows ⟨0, hjoined⟩
  have hread := read_dumpAll [zeroRow 64] (.other []) (.other []) (outPath_ne_nil [116]) hclean hlist.nodup
    (hlist.mem_iff.mpr hlookup)
  have hrun := processDioInfoEvent_eq (.other []) (.other []) [zeroRow 64] hclean
    ((dioRqMap [zeroRow 40] [zeroRow 64]).entries.map (fun e => (e.1, e.2)))
  obtain ⟨flow, shown, hflow, -⟩ := h cleanOutput [116] (.other []) (.other []) _ _ hclean _ hlist _ hrun 0 ⟨0, hjoined⟩
  have hnone : (cleanOutput.mkdir (dirName (outPath [116]))).read
      (viewerPath (outPath [116]) ++ rqResult ++ 47 :: (stdToString 0 ++ jsonSuffix)) = none := by decide
  rw [queryFlow, hread.2 (not_samePlace (by decide) 0), hnone] at hflow
  exact absurd hflow (by simp)

end Shown

end StorTrace
