import Mathlib.Data.Bool.AllAny
import StorTrace.Ext4Dio.Aligned
import StorTrace.Lib.Buckets
import StorTrace.Lib.JsString
import StorTrace.Viewer.HeatmapPage

/-!
# `Viewer.LatencyPage` — does the latency page decode what the server encodes? (`ext4_simple_dio_latency`, `latency.html`)

The server joins five columns with commas and blanks, and the template puts the text between the quotes of a
JavaScript literal. The script splits it and deals the columns out in pages. Nothing is quoted on the way:
`latencyPage_iff` says which names get through.
-/

namespace StorTrace

open Ext4Dio Meta JsString

/-! ## The server -/

/-- A row of `dio_event_latency.json`, with the texts that `json.load` makes of the names. -/
structure LatencyRow where
  stages : DioStages
  common : List Char
  file : List Char
deriving DecidableEq

/-- `latency_of_dio_info`, as far as the page reads it. -/
structure LatencyJson where
  kernelCrossing : List UInt64
  fileSystem : List UInt64
  blockIo : List UInt64
  common : List (List Char)
  file : List (List Char)
deriving DecidableEq

/-- `process_dio_simple_event`: a column for each field. -/
def latencyJson (rows : List LatencyRow) : LatencyJson where
  kernelCrossing := rows.map (·.stages.kernelCrossing)
  fileSystem := rows.map (·.stages.fileSystem)
  blockIo := rows.map (·.stages.blockIo)
  common := rows.map (·.common)
  file := rows.map (·.file)

/-- `str(x)` of a number that is not negative. -/
def pyStr (n : Nat) : List Char := (stdToString n).map (fun b => Char.ofNat b.toNat)

/-- The list `type`. -/
def latencyTypes : List (List Char) :=
  ["kernel_crossing", "file_system", "block_io", "common", "file"].map String.toList

/-- `type_data`, with `str(x)` of every entry. -/
def LatencyJson.typeData (data : LatencyJson) : List (List (List Char)) :=
  [data.kernelCrossing.map (fun x => pyStr x.toNat), data.fileSystem.map (fun x => pyStr x.toNat),
    data.blockIo.map (fun x => pyStr x.toNat), data.common, data.file]

/-- What `latency.html` is rendered with. -/
structure LatencyPage where
  data : List Char
  type : List Char
  splitCount : List Char
deriving DecidableEq

/-- `ext4_simple_dio_latency`. -/
def ext4SimpleDioLatency (data : LatencyJson) (splitPage : List Char) : LatencyPage :=
  let typeDataStr := data.typeData.map ([','] : List Char).intercalate
  let allStr := ([' '] : List Char).intercalate typeDataStr
  ⟨allStr, ([','] : List Char).intercalate latencyTypes, splitPage⟩

/-! ## The script -/

/-- A JavaScript string. -/
abbrev JsText := List UInt16

/-- `undefined`, put into a text. -/
def jsUndefined : JsText := ofText "undefined".toList

/-- The rounds of `arrayChunk`, from the index `i` on. -/
def chunksFrom {α : Type} (array : List α) (size : Nat) : Nat → Nat → List (List α)
  | 0, _ => []
  | fuel + 1, i =>
      if i < array.length then (array.drop i).take size :: chunksFrom array size fuel (i + size) else []

/-- `arrayChunk`. With a size that is not a number there is one round, and `slice` is empty; with one that is not
    positive the loop does not end. -/
def arrayChunk {α : Type} (array : List α) : Option Int → Option (List (List α))
  | none => some (if array.isEmpty then [] else [[]])
  | some size =>
      if array.isEmpty then some []
      else if size ≤ 0 then none
      else some (chunksFrom array size.toNat array.length 0)

/-- `obj`. -/
structure LatencyObj where
  stage0 : List JsText
  stage1 : List JsText
  stage2 : List JsText
  commonsData : List JsText
  filesData : List JsText
deriving DecidableEq

def LatencyObj.columns (obj : LatencyObj) : List (List JsText) :=
  [obj.stage0, obj.stage1, obj.stage2, obj.commonsData, obj.filesData]

/-- `type_data_str` taken apart; a part that is not there has no `split`. -/
def latencyObj (typeDataStr : List JsText) : Option LatencyObj :=
  match typeDataStr with
  | s0 :: s1 :: s2 :: s3 :: s4 :: _ =>
      some ⟨s0.splitOn 44, s1.splitOn 44, s2.splitOn 44, s3.splitOn 44, s4.splitOn 44⟩
  | _ => none

/-- A bar of a page: a value that is `undefined` is missing. -/
structure LatencySeries where
  name : Option JsText
  data : Option (List JsText)
deriving DecidableEq

/-- An `option` of the timeline. -/
structure LatencyOption where
  text : Nat
  metas : List JsText
  series : List LatencySeries
deriving DecidableEq

/-- The loop that makes `metas`; a page that `files_Arr` does not have cannot be indexed. -/
def latencyMetas (commonsData : List JsText) (filesData : Option (List JsText)) : Option (List JsText) :=
  (List.range commonsData.length).mapM (fun i => do
    let common ← commonsData[i]?
    let files ← filesData
    return common ++ 32 :: (files[i]?).getD jsUndefined)

/-- The option of the page `index`. -/
def latencyOption (types : List JsText) (commonsArr filesArr : List (List JsText))
    (typeDataArr : List (List (List JsText))) (index : Nat) : Option LatencyOption := do
  let commonsData ← commonsArr[index]?
  let metas ← latencyMetas commonsData filesArr[index]?
  return ⟨index, metas, (List.range 3).map (fun i => ⟨types[i]?, typeDataArr[i]?.bind (·[index]?)⟩)⟩

/-- A code unit as a character that `parseInt` looks for; there are none above ASCII. -/
def asciiByte (u : UInt16) : UInt8 := if u < 128 then u.toUInt8 else 255

/-- The script of `latency.html`: `obj` and `options`. -/
def latencyScript (page : LatencyPage) : Option (LatencyObj × List LatencyOption) := do
  let data ← templateValue page.data
  let type ← templateValue page.type
  let splitCount ← templateValue page.splitCount
  let obj ← latencyObj (data.splitOn 32)
  let splitLen := parseInt (splitCount.map asciiByte)
  let commonsArr ← arrayChunk obj.commonsData splitLen
  let filesArr ← arrayChunk obj.filesData splitLen
  let typeDataArr ← [obj.stage0, obj.stage1, obj.stage2].mapM (arrayChunk · splitLen)
  let options ← (List.range commonsArr.length).mapM (latencyOption (type.splitOn 44) commonsArr filesArr typeDataArr)
  return (obj, options)

/-- What the `formatter` of the tooltip writes for an entry. -/
structure LatencyTooltip where
  common : JsText
  files : JsText
  values : List (Option JsText × JsText)
deriving DecidableEq

/-- The tooltip of the entry `k`: the chart hands `formatter` the category there as `axisValue`, and the name and
    the value of every bar that has one there. -/
def LatencyOption.tooltip (option : LatencyOption) (k : Nat) : Option LatencyTooltip := do
  let axisValue ← option.metas[k]?
  let temp := axisValue.splitOn 32
  return ⟨(temp[0]?).getD jsUndefined, (temp[1]?).getD jsUndefined,
    option.series.filterMap (fun s => (s.data.bind (·[k]?)).map (fun v => (s.name, v)))⟩

/-! ## The property -/

/-- The columns of the table, as the page should have them. -/
def latencyColumns (rows : List LatencyRow) : List (List JsText) :=
  (latencyJson rows).typeData.map (List.map ofText)

/-- What the page should show for a row. -/
def shownRow (row : LatencyRow) : LatencyTooltip where
  common := ofText row.common
  files := ofText row.file
  values :=
    [("kernel_crossing", row.stages.kernelCrossing), ("file_system", row.stages.fileSystem),
      ("block_io", row.stages.blockIo)].map (fun v => (some (ofText v.1.toList), ofText (pyStr v.2.toNat)))

/-- The entry `k` of the page `p`. -/
def latencyEntry (options : List LatencyOption) (p k : Nat) : Option LatencyTooltip := options[p]?.bind (·.tooltip k)

/-- **The page decodes the table**: it has its columns, the entry `k` of the page `p` is the row `p * s + k`, and
    every row has exactly one place. -/
structure LatencyShown (rows : List LatencyRow) (s : Nat) (obj : LatencyObj) (options : List LatencyOption) : Prop where
  columns : obj.columns = latencyColumns rows
  entries : ∀ p k, latencyEntry options p k = if k < s then rows[p * s + k]?.map shownRow else none
  once : ∀ i < rows.length, ∃! c : Nat × Nat, latencyEntry options c.1 c.2 ≠ none ∧ c.1 * s + c.2 = i

/-- The script runs on the page of the table `rows` with the split size `s`, and the page decodes the table. -/
def DecodesLatency (rows : List LatencyRow) (s : Nat) : Prop :=
  ∃ obj options, latencyScript (ext4SimpleDioLatency (latencyJson rows) (pyStr s)) = some (obj, options) ∧
    LatencyShown rows s obj options

/-- A character of a name that gets through to the page. -/
def GetsThrough (c : Char) : Prop := c ≠ ',' ∧ c ≠ ' ' ∧ c ≠ '\\' ∧ c ≠ '\n' ∧ c ≠ '\r' ∧ c ≠ '\x00'

instance : DecidablePred GetsThrough :=
  fun c => inferInstanceAs (Decidable (c ≠ ',' ∧ c ≠ ' ' ∧ c ≠ '\\' ∧ c ≠ '\n' ∧ c ≠ '\r' ∧ c ≠ '\x00'))

/-! ## The text of the table -/

/-- The digits of a number. -/
theorem forall_mem_pyStr {P : Char → Prop} (h : ∀ d < 10, P (Char.ofNat (48 + d))) (n : Nat) : ∀ c ∈ pyStr n, P c := by
  intro c hc
  obtain ⟨b, hb, rfl⟩ := List.mem_map.mp hc
  have hdigit := isDigit_of_mem_stdToString hb
  simp only [isDigit, decide_eq_true_eq, UInt8.le_iff_toNat_le] at hdigit
  obtain ⟨d, hd⟩ : ∃ d, b.toNat = 48 + d := ⟨b.toNat - 48, (Nat.add_sub_cancel' hdigit.1).symm⟩
  rw [hd]
  refine h d ?_
  have hle : b.toNat ≤ 57 := hdigit.2
  omega

/-- The text of a number is read back as its digits. -/
theorem map_asciiByte_pyStr (n : Nat) : (ofText (pyStr n)).map asciiByte = stdToString n := by
  have hdigit : ∀ m < 128, (codeUnits (Char.ofNat m).toNat).map asciiByte = [UInt8.ofNat m] := by decide
  have hall : ∀ bs : List UInt8, (∀ b ∈ bs, isDigit b = true) →
      (ofText (bs.map (fun b => Char.ofNat b.toNat))).map asciiByte = bs := by
    intro bs hbs
    induction bs with
    | nil => rfl
    | cons b bs ih =>
        obtain ⟨hb, hbs⟩ := List.forall_mem_cons.mp hbs
        simp only [isDigit, decide_eq_true_eq, UInt8.le_iff_toNat_le] at hb
        have hlt : b.toNat < 128 := Nat.lt_of_le_of_lt hb.2 (by decide)
        rw [List.map_cons, ofText_cons, List.map_append, hdigit _ hlt, UInt8.ofNat_toNat, ih hbs, List.singleton_append]
  exact hall _ (fun b hb => isDigit_of_mem_stdToString hb)

section Encode

variable {rows : List LatencyRow} {s : Nat}

/-- A test of all names. -/
theorem forall_mem_names {P : Char → Prop} [DecidablePred P]
    (h : rows.all (fun row => (row.common ++ row.file).all (fun c => decide (P c))) = true) :
    ∀ row ∈ rows, ∀ c ∈ row.common ++ row.file, P c :=
  fun row hrow => List.all_iff_forall_prop.mp (List.all_eq_true.mp h row hrow)

/-- What holds of the digits and of the names holds of every entry. -/
theorem forall_mem_typeData {P : Char → Prop} (hdigit : ∀ d < 10, P (Char.ofNat (48 + d)))
    (hnames : ∀ row ∈ rows, ∀ c ∈ row.common ++ row.file, P c) :
    ∀ col ∈ (latencyJson rows).typeData, ∀ p ∈ col, ∀ c ∈ p, P c := by
  have hnumber : ∀ f : LatencyRow → UInt64, ∀ p ∈ (rows.map f).map (fun x => pyStr x.toNat), ∀ c ∈ p, P c := by
    intro f p hp
    obtain ⟨x, -, rfl⟩ := List.mem_map.mp hp
    exact forall_mem_pyStr hdigit x.toNat
  intro col hcol
  simp only [LatencyJson.typeData, latencyJson, List.mem_cons, List.not_mem_nil, or_false] at hcol
  rcases hcol with rfl | rfl | rfl | rfl | rfl
  · exact hnumber _
  · exact hnumber _
  · exact hnumber _
  · intro p hp c hc
    obtain ⟨row, hrow, rfl⟩ := List.mem_map.mp hp
    exact hnames row hrow c (List.mem_append_left _ hc)
  · intro p hp c hc
    obtain ⟨row, hrow, rfl⟩ := List.mem_map.mp hp
    exact hnames row hrow c (List.mem_append_right _ hc)

/-- The text is the table of the entries. -/
theorem data_eq_table (data : LatencyJson) (splitPage : List Char) :
    (ext4SimpleDioLatency data splitPage).data = Text.table ',' ' ' data.typeData := rfl

/-- What holds of the separators too holds of the text. -/
theorem forall_mem_data {P : Char → Prop} (hdigit : ∀ d < 10, P (Char.ofNat (48 + d))) (hcomma : P ',') (hblank : P ' ')
    (hnames : ∀ row ∈ rows, ∀ c ∈ row.common ++ row.file, P c) :
    ∀ c ∈ (ext4SimpleDioLatency (latencyJson rows) (pyStr s)).data, P c := by
  intro c hc
  rcases Text.mem_of_mem_intercalate hc with hc | ⟨text, htext, hc⟩
  · rw [List.mem_singleton.mp hc]
    exact hblank
  · obtain ⟨col, hcol, rfl⟩ := List.mem_map.mp htext
    rcases Text.mem_of_mem_intercalate hc with hc | ⟨p, hp, hc⟩
    · rw [List.mem_singleton.mp hc]
      exact hcomma
    · exact forall_mem_typeData hdigit hnames col hcol p hp c hc

/-- The units of the text are the table of the columns. -/
theorem ofText_data : ofText (ext4SimpleDioLatency (latencyJson rows) (pyStr s)).data =
    Text.table 44 32 (latencyColumns rows) := by
  rw [data_eq_table, ofText_table (by decide) (by decide)]
  rfl

/-- `obj` takes the first five columns. -/
theorem latencyObj_eq_some {typeDataStr : List JsText} {obj : LatencyObj} :
    latencyObj typeDataStr = some obj ↔ ∃ rest, typeDataStr.map (·.splitOn 44) = obj.columns ++ rest := by
  constructor
  · intro h
    unfold latencyObj at h
    split at h
    · next rest =>
      cases h
      exact ⟨rest.map (·.splitOn 44), rfl⟩
    · cases h
  · rintro ⟨rest, h⟩
    simp only [LatencyObj.columns, List.cons_append, List.nil_append, List.map_eq_cons_iff] at h
    obtain ⟨s0, _, rfl, h0, s1, _, rfl, h1, s2, _, rfl, h2, s3, _, rfl, h3, s4, _, rfl, h4, -⟩ := h
    rw [latencyObj, h0, h1, h2, h3, h4]

/-- What a script that ran through made of the text. -/
theorem latencyScript_obj {page : LatencyPage} {obj : LatencyObj} {options : List LatencyOption}
    (h : latencyScript page = some (obj, options)) :
    ∃ data, templateValue page.data = some data ∧ latencyObj (data.splitOn 32) = some obj := by
  simp only [latencyScript, Option.bind_eq_bind, Option.bind_eq_some_iff, Option.pure_def, Option.some.injEq,
    Prod.mk.injEq] at h
  obtain ⟨data, hdata, type, -, count, -, obj', hobj, -, -, -, -, -, -, -, -, rfl, -⟩ := h
  exact ⟨data, hdata, hobj⟩

/-- **A text whose columns come back** has no separator in a name, and it arrived whole. -/
theorem getsThrough_of_columns {data : JsText} {obj : LatencyObj}
    (hspecial : ∀ row ∈ rows, ∀ c ∈ row.common ++ row.file, ¬ Special c)
    (hdata : templateValue (ext4SimpleDioLatency (latencyJson rows) (pyStr s)).data = some data)
    (hobj : latencyObj (data.splitOn 32) = some obj) (hcols : obj.columns = latencyColumns rows) :
    ∀ row ∈ rows, ∀ c ∈ row.common ++ row.file, GetsThrough c := by
  obtain ⟨rest, hrest⟩ := latencyObj_eq_some.mp hobj
  rw [hcols] at hrest
  obtain ⟨hpre, hsep⟩ := Text.table_prefix_of_splitOn hrest
  rw [← ofText_data (s := s)] at hpre
  have hplain := plain_of_prefix (forall_mem_data (by decide) (by decide) (by decide) hspecial) hdata hpre
  have hname : ∀ name, (∃ col ∈ (latencyJson rows).typeData, name ∈ col) → ∀ c ∈ name, GetsThrough c := by
    rintro name ⟨col, hcol, hname⟩ c hc
    have hunits := hsep (col.map ofText) (List.mem_map_of_mem hcol) (ofText name) (List.mem_map_of_mem hname)
    have hcomma : ',' ∉ name := fun h => hunits.1 ((ofNat_mem_ofText (by decide)).mpr h)
    have hblank : ' ' ∉ name := fun h => hunits.2 ((ofNat_mem_ofText (by decide)).mpr h)
    have hin : c ∈ (ext4SimpleDioLatency (latencyJson rows) (pyStr s)).data := by
      rw [data_eq_table]
      exact Text.mem_intercalate_of_mem (List.mem_map_of_mem hcol) (Text.mem_intercalate_of_mem hname hc)
    obtain ⟨⟨hslash, -, hlf, hcr⟩, hnul⟩ := hplain c hin
    exact ⟨fun h => hcomma (h ▸ hc), fun h => hblank (h ▸ hc), hslash, hlf, hcr, hnul⟩
  intro row hrow c hc
  rcases List.mem_append.mp hc with hc | hc
  · exact hname row.common ⟨rows.map (·.common), by simp [LatencyJson.typeData, latencyJson], List.mem_map_of_mem hrow⟩ c hc
  · exact hname row.file ⟨rows.map (·.file), by simp [LatencyJson.typeData, latencyJson], List.mem_map_of_mem hrow⟩ c hc

end Encode

/-! ## The pages -/

/-- The chunks of a column are the columns of the chunks. -/
theorem chunksFrom_map {α β : Type} (f : α → β) (array : List α) (size fuel i : Nat) :
    chunksFrom (array.map f) size fuel i = (chunksFrom array size fuel i).map (List.map f) := by
  induction fuel generalizing i with
  | zero => rfl
  | succ fuel ih =>
      rw [chunksFrom, chunksFrom, List.length_map]
      split
      · rw [List.map_cons, ih, List.map_take, List.map_drop]
      · rfl

/-- The chunk `p` after `i`. -/
theorem getElem?_chunksFrom {α : Type} {array : List α} {size fuel i : Nat} (hs : 1 ≤ size)
    (hfuel : array.length ≤ i + fuel) (p : Nat) :
    (chunksFrom array size fuel i)[p]? =
      if i + p * size < array.length then some ((array.drop (i + p * size)).take size) else none := by
  induction fuel generalizing i p with
  | zero => rw [chunksFrom, List.getElem?_nil, if_neg (by omega)]
  | succ fuel ih =>
      rw [chunksFrom]
      split
      · next hlt =>
        cases p with
        | zero => rw [List.getElem?_cons_zero, Nat.zero_mul, Nat.add_zero, if_pos hlt]
        | succ p =>
            have hnext : i + size + p * size = i + (p + 1) * size := by
              rw [Nat.succ_mul]
              omega
            rw [List.getElem?_cons_succ, ih (by omega), hnext]
      · next hge => rw [List.getElem?_nil, if_neg (by omega)]

/-- A loop that finds every value of a list. -/
theorem mapM_range_eq {β : Type} {f : Nat → Option β} {bs : List β} (h : ∀ i < bs.length, f i = bs[i]?) :
    (List.range bs.length).mapM f = some bs := by
  refine mapM_eq_some_iff.mpr (List.ext_getElem? (fun i => ?_))
  rw [List.getElem?_map, List.getElem?_map]
  by_cases hi : i < bs.length
  · rw [List.getElem?_range hi, Option.map_some, h i hi, List.getElem?_eq_getElem hi, Option.map_some]
  · simp [hi]

/-- The two names of every entry. -/
theorem latencyMetas_map (f g : LatencyRow → JsText) (page : List LatencyRow) :
    latencyMetas (page.map f) (some (page.map g)) = some (page.map (fun row => f row ++ 32 :: g row)) := by
  have hround : ∀ i < (page.map (fun row => f row ++ 32 :: g row)).length,
      ((page.map f)[i]?.bind (fun common =>
        some (common ++ 32 :: ((page.map g)[i]?).getD jsUndefined))) = (page.map (fun row => f row ++ 32 :: g row))[i]? := by
    intro i hi
    rw [List.length_map] at hi
    simp [List.getElem?_eq_getElem hi]
  have hloop := mapM_range_eq hround
  rw [List.length_map] at hloop
  rw [latencyMetas, List.length_map]
  exact hloop

/-- The rows of each page. -/
def latencyPages (rows : List LatencyRow) (s : Nat) : List (List LatencyRow) := chunksFrom rows s rows.length 0

/-- The texts of a stage. -/
def stageTexts (f : DioStages → UInt64) (rows : List LatencyRow) : List JsText :=
  rows.map (fun row => ofText (pyStr (f row.stages).toNat))

/-- The option of a page with the rows `page`. -/
def optionOf (index : Nat) (page : List LatencyRow) : LatencyOption where
  text := index
  metas := page.map (fun row => ofText row.common ++ 32 :: ofText row.file)
  series :=
    [⟨some (ofText "kernel_crossing".toList), some (stageTexts (·.kernelCrossing) page)⟩,
      ⟨some (ofText "file_system".toList), some (stageTexts (·.fileSystem) page)⟩,
      ⟨some (ofText "block_io".toList), some (stageTexts (·.blockIo) page)⟩]

/-- `obj` of the table. -/
def objOf (rows : List LatencyRow) : LatencyObj where
  stage0 := stageTexts (·.kernelCrossing) rows
  stage1 := stageTexts (·.fileSystem) rows
  stage2 := stageTexts (·.blockIo) rows
  commonsData := rows.map (fun row => ofText row.common)
  filesData := rows.map (fun row => ofText row.file)

theorem columns_objOf (rows : List LatencyRow) : (objOf rows).columns = latencyColumns rows := by
  simp only [latencyColumns, LatencyJson.typeData, latencyJson, List.map_cons, List.map_nil, List.map_map]
  rfl

section Pages

variable {rows : List LatencyRow} {s : Nat}

theorem getElem?_latencyPages (hs : 1 ≤ s) (p : Nat) :
    (latencyPages rows s)[p]? = if p * s < rows.length then some ((rows.drop (p * s)).take s) else none := by
  rw [latencyPages, getElem?_chunksFrom hs (by omega), Nat.zero_add]

/-- **The entry `k` of the page `p` is the row `p * s + k`.** -/
theorem row_latencyPages (hs : 1 ≤ s) (p k : Nat) :
    (latencyPages rows s)[p]?.bind (·[k]?) = if k < s then rows[p * s + k]? else none := by
  rw [getElem?_latencyPages hs]
  split
  · rw [Option.bind_some, List.getElem?_take, List.getElem?_drop]
  · rw [Option.bind_none, List.getElem?_eq_none (by omega), ite_self]

/-- Every column is dealt out in the same pages. -/
theorem arrayChunk_map {β : Type} (f : LatencyRow → β) (hne : rows ≠ []) (hs : 1 ≤ s) :
    arrayChunk (rows.map f) (some (s : Int)) = some ((latencyPages rows s).map (List.map f)) := by
  have hempty : ¬ (rows.map f).isEmpty = true := by simpa using hne
  have hpos : ¬ (s : Int) ≤ 0 := by omega
  rw [arrayChunk, if_neg hempty, if_neg hpos, Int.toNat_natCast, List.length_map, chunksFrom_map]
  rfl

/-- The names of the bars. -/
theorem splitOn_latencyTypes :
    (ofText (([','] : List Char).intercalate latencyTypes)).splitOn 44 = latencyTypes.map ofText := by
  have htexts : ofText (([','] : List Char).intercalate latencyTypes) = [44].intercalate (latencyTypes.map ofText) := by
    rw [ofText, Text.flatMap_intercalate]
    rfl
  rw [htexts]
  exact List.splitOn_intercalate 44 (by decide) (by decide)

/-- The option of a page. -/
theorem latencyOption_eq {index : Nat} {page : List LatencyRow} (hpage : (latencyPages rows s)[index]? = some page) :
    latencyOption (latencyTypes.map ofText) ((latencyPages rows s).map (List.map (fun row => ofText row.common)))
        ((latencyPages rows s).map (List.map (fun row => ofText row.file)))
        [(latencyPages rows s).map (stageTexts (·.kernelCrossing)), (latencyPages rows s).map (stageTexts (·.fileSystem)),
          (latencyPages rows s).map (stageTexts (·.blockIo))] index = some (optionOf index page) := by
  have hcolumn : ∀ {β : Type} (f : List LatencyRow → β), ((latencyPages rows s).map f)[index]? = some (f page) := by
    intro β f
    rw [List.getElem?_map, hpage, Option.map_some]
  rw [latencyOption, hcolumn, hcolumn]
  simp only [Option.bind_eq_bind, Option.bind_some, latencyMetas_map]
  simp only [List.range, List.range.loop, List.map_cons, List.map_nil, List.getElem?_cons_zero, List.getElem?_cons_succ,
    Option.bind_some, hcolumn]
  rfl

/-- **An entry shows its row**, if its names have no blank. -/
theorem tooltip_optionOf {index k : Nat} {page : List LatencyRow}
    (hblank : ∀ row ∈ page, ' ' ∉ row.common ∧ ' ' ∉ row.file) :
    (optionOf index page).tooltip k = page[k]?.map shownRow := by
  cases hrow : page[k]? with
  | none =>
      have hmetas : (optionOf index page).metas[k]? = none := by rw [optionOf, List.getElem?_map, hrow, Option.map_none]
      rw [LatencyOption.tooltip, hmetas]
      rfl
  | some row =>
      have hcolumn : ∀ f : LatencyRow → JsText, (page.map f)[k]? = some (f row) := by
        intro f
        rw [List.getElem?_map, hrow, Option.map_some]
      obtain ⟨hcommon, hfile⟩ := hblank row (List.mem_of_getElem? hrow)
      have htemp : (ofText row.common ++ 32 :: ofText row.file).splitOn 32 = [ofText row.common, ofText row.file] := by
        have hparts : ∀ part ∈ [ofText row.common, ofText row.file], (32 : UInt16) ∉ part := by
          simp only [List.mem_cons, List.not_mem_nil, or_false, forall_eq_or_imp, forall_eq]
          exact ⟨fun h => hcommon ((ofNat_mem_ofText (by decide)).mp h), fun h => hfile ((ofNat_mem_ofText (by decide)).mp h)⟩
        have hsplit := List.splitOn_intercalate 32 hparts (by simp)
        rwa [List.intercalate_cons_cons, List.intercalate_singleton, List.append_assoc, List.singleton_append] at hsplit
      have hmetas : (optionOf index page).metas[k]? = some (ofText row.common ++ 32 :: ofText row.file) := hcolumn _
      rw [LatencyOption.tooltip, hmetas, Option.bind_eq_bind, Option.bind_some, htemp]
      simp only [optionOf, stageTexts, List.filterMap_cons, List.filterMap_nil, Option.bind_some, hcolumn, Option.map_some]
      rfl

/-- The options of all pages. -/
def optionsOf (rows : List LatencyRow) (s : Nat) : List LatencyOption :=
  (latencyPages rows s).zipIdx.map (fun p => optionOf p.2 p.1)

theorem getElem?_optionsOf (p : Nat) : (optionsOf rows s)[p]? = (latencyPages rows s)[p]?.map (optionOf p) := by
  rw [optionsOf, List.getElem?_map, List.getElem?_zipIdx, Option.map_map, Nat.zero_add]
  rfl

/-- The loop over `Pages`. -/
theorem mapM_latencyOption :
    (List.range (latencyPages rows s).length).mapM
        (latencyOption (latencyTypes.map ofText) ((latencyPages rows s).map (List.map (fun row => ofText row.common)))
          ((latencyPages rows s).map (List.map (fun row => ofText row.file)))
          [(latencyPages rows s).map (stageTexts (·.kernelCrossing)), (latencyPages rows s).map (stageTexts (·.fileSystem)),
            (latencyPages rows s).map (stageTexts (·.blockIo))]) = some (optionsOf rows s) := by
  have hlength : (latencyPages rows s).length = (optionsOf rows s).length := by
    rw [optionsOf, List.length_map, List.length_zipIdx]
  rw [hlength]
  apply mapM_range_eq
  intro i hi
  rw [← hlength] at hi
  have hpage := List.getElem?_eq_getElem hi
  rw [latencyOption_eq hpage, getElem?_optionsOf, hpage, Option.map_some]

/-- Names without separators are taken apart into the columns. -/
theorem latencyObj_data (hne : rows ≠ []) (hnames : ∀ row ∈ rows, ∀ c ∈ row.common ++ row.file, GetsThrough c) :
    latencyObj ((ofText (ext4SimpleDioLatency (latencyJson rows) (pyStr s)).data).splitOn 32) = some (objOf rows) := by
  refine latencyObj_eq_some.mpr ⟨[], ?_⟩
  have hentries := forall_mem_typeData (P := fun c => c ≠ ',' ∧ c ≠ ' ') (by decide)
    (fun row hrow c hc => ⟨(hnames row hrow c hc).1, (hnames row hrow c hc).2.1⟩)
  rw [List.append_nil, columns_objOf, ofText_data]
  refine Text.splitOn_table (by decide) (by simp [latencyColumns, LatencyJson.typeData]) ?_ ?_
  · intro col hcol
    simp only [latencyColumns, LatencyJson.typeData, latencyJson, List.map_cons, List.map_nil, List.mem_cons,
      List.not_mem_nil, or_false] at hcol
    rcases hcol with rfl | rfl | rfl | rfl | rfl <;> simpa using hne
  · intro col hcol p hp
    obtain ⟨texts, htexts, rfl⟩ := List.mem_map.mp hcol
    obtain ⟨text, htext, rfl⟩ := List.mem_map.mp hp
    have hclean := hentries texts htexts text htext
    constructor
    · intro h
      exact (hclean ',' ((ofNat_mem_ofText (by decide)).mp h)).1 rfl
    · intro h
      exact (hclean ' ' ((ofNat_mem_ofText (by decide)).mp h)).2 rfl

/-- **The script runs through** on a table whose names get through. -/
theorem latencyScript_eq (hne : rows ≠ []) (hs : 1 ≤ s)
    (hspecial : ∀ row ∈ rows, ∀ c ∈ row.common ++ row.file, ¬ Special c)
    (hnames : ∀ row ∈ rows, ∀ c ∈ row.common ++ row.file, GetsThrough c) :
    latencyScript (ext4SimpleDioLatency (latencyJson rows) (pyStr s)) = some (objOf rows, optionsOf rows s) := by
  have hplain : ∀ row ∈ rows, ∀ c ∈ row.common ++ row.file, Plain c ∧ c ≠ '\x00' := by
    intro row hrow c hc
    obtain ⟨-, -, hslash, hlf, hcr, hnul⟩ := hnames row hrow c hc
    have hquote : c ≠ '\'' := fun h => hspecial row hrow c hc (Or.inr (Or.inr (Or.inr (Or.inl h))))
    exact ⟨⟨hslash, hquote, hlf, hcr⟩, hnul⟩
  have hdata := templateValue_of_plain (forall_mem_data (s := s) (by decide) (by decide) (by decide) hspecial)
    (forall_mem_data (by decide) (by decide) (by decide) hplain)
  have htypes : templateValue (([','] : List Char).intercalate latencyTypes) =
      some (ofText (([','] : List Char).intercalate latencyTypes)) :=
    templateValue_of_plain (List.all_iff_forall_prop.mp (by decide)) (List.all_iff_forall_prop.mp (by decide))
  have htype : templateValue (ext4SimpleDioLatency (latencyJson rows) (pyStr s)).type =
      some (ofText (([','] : List Char).intercalate latencyTypes)) := htypes
  have hcount : templateValue (ext4SimpleDioLatency (latencyJson rows) (pyStr s)).splitCount = some (ofText (pyStr s)) :=
    templateValue_of_plain (forall_mem_pyStr (by decide) s) (forall_mem_pyStr (by decide) s)
  have hlen : parseInt ((ofText (pyStr s)).map asciiByte) = some (s : Int) := by
    rw [map_asciiByte_pyStr, ← intToString_natCast]
    exact parseInt_intToString (Int.natCast_nonneg s)
  have hstage : ∀ f : DioStages → UInt64, arrayChunk (stageTexts f rows) (some (s : Int)) =
      some ((latencyPages rows s).map (stageTexts f)) := fun f => arrayChunk_map _ hne hs
  rw [latencyScript, hdata, htype, hcount]
  simp only [Option.bind_eq_bind, Option.bind_some, latencyObj_data hne hnames, hlen, splitOn_latencyTypes]
  simp only [objOf, arrayChunk_map _ hne hs, Option.bind_some, List.mapM_cons, List.mapM_nil, hstage, Option.bind_eq_bind,
    Option.pure_def, List.length_map, mapM_latencyOption]

/-- The entries of the pages. -/
theorem latencyEntry_optionsOf (hs : 1 ≤ s) (hnames : ∀ row ∈ rows, ∀ c ∈ row.common ++ row.file, GetsThrough c) (p k : Nat) :
    latencyEntry (optionsOf rows s) p k = if k < s then rows[p * s + k]?.map shownRow else none := by
  have hentry : latencyEntry (optionsOf rows s) p k = ((latencyPages rows s)[p]?.bind (·[k]?)).map shownRow := by
    rw [latencyEntry, getElem?_optionsOf]
    cases hpage : (latencyPages rows s)[p]? with
    | none => rfl
    | some page =>
        have hsub : ∀ row ∈ page, row ∈ rows := by
          intro row hrow
          rw [getElem?_latencyPages hs] at hpage
          split at hpage
          · cases hpage
            exact List.mem_of_mem_drop (List.mem_of_mem_take hrow)
          · cases hpage
        refine tooltip_optionOf (fun row hrow => ⟨?_, ?_⟩)
        · exact fun h => (hnames row (hsub row hrow) ' ' (List.mem_append_left _ h)).2.1 rfl
        · exact fun h => (hnames row (hsub row hrow) ' ' (List.mem_append_right _ h)).2.1 rfl
  rw [hentry, row_latencyPages hs]
  split
  · rfl
  · rfl

/-- **A table whose names get through is decoded.** -/
theorem decodesLatency_of_getsThrough (hne : rows ≠ []) (hs : 1 ≤ s)
    (hspecial : ∀ row ∈ rows, ∀ c ∈ row.common ++ row.file, ¬ Special c)
    (hnames : ∀ row ∈ rows, ∀ c ∈ row.common ++ row.file, GetsThrough c) : DecodesLatency rows s := by
  refine ⟨objOf rows, optionsOf rows s, latencyScript_eq hne hs hspecial hnames, columns_objOf rows,
    latencyEntry_optionsOf hs hnames, ?_⟩
  intro i hi
  obtain ⟨c, ⟨-, hk, hc⟩, hunique⟩ := Buckets.existsUnique_cell hs hi
  refine ⟨c, ⟨?_, hc⟩, ?_⟩
  · rw [latencyEntry_optionsOf hs hnames, if_pos hk, hc, List.getElem?_eq_getElem hi]
    exact Option.some_ne_none _
  · rintro c' ⟨hshown, hc'⟩
    have hk' : c'.2 < s := by
      by_contra hge
      rw [latencyEntry_optionsOf hs hnames, if_neg hge] at hshown
      exact hshown rfl
    have hpage : c'.1 ≤ rows.length / s := (Nat.le_div_iff_mul_le hs).mpr (by omega)
    exact hunique c' ⟨Nat.lt_succ_of_le hpage, hk', hc'⟩

end Pages

/-! ## The equivalence -/

/-- **The page decodes exactly the tables whose names get through.** -/
theorem latencyPage_iff {rows : List LatencyRow} {s : Nat} (hne : rows ≠ []) (hs : 1 ≤ s)
    (hspecial : ∀ row ∈ rows, ∀ c ∈ row.common ++ row.file, ¬ Special c) :
    DecodesLatency rows s ↔ ∀ row ∈ rows, ∀ c ∈ row.common ++ row.file, GetsThrough c := by
  constructor
  · rintro ⟨obj, options, hscript, hshown⟩
    obtain ⟨data, hdata, hobj⟩ := latencyScript_obj hscript
    exact getsThrough_of_columns hspecial hdata hobj hshown.columns
  · exact decodesLatency_of_getsThrough hne hs hspecial

/-- Three rows on two pages. -/
theorem latencyPage_iff_three_rows :
    DecodesLatency [⟨⟨0, 1, 2, 3⟩, "fio".toList, "a.dat".toList⟩, ⟨⟨0, 4, 5, 6⟩, "dd".toList, "b".toList⟩,
      ⟨⟨0, 7, 8, 9⟩, "fio".toList, []⟩] 2 :=
  (latencyPage_iff (by decide) (by decide) (forall_mem_names (by decide))).mpr (forall_mem_names (by decide))

/-- **Not every table is decoded**: a process is named with a blank. -/
theorem not_decodesLatency_blank :
    ¬ ∀ (rows : List LatencyRow) (s : Nat), rows ≠ [] → 1 ≤ s →
      (∀ row ∈ rows, ∀ c ∈ row.common ++ row.file, ¬ Special c) → DecodesLatency rows s := by
  intro h
  have hspecial : ∀ row ∈ [LatencyRow.mk ⟨0, 1, 2, 3⟩ "tmux: server".toList "a.dat".toList],
      ∀ c ∈ row.common ++ row.file, ¬ Special c := forall_mem_names (by decide)
  obtain ⟨obj, options, hscript, hshown⟩ := h _ 1 (by decide) (by decide) hspecial
  obtain ⟨data, hdata, hobj⟩ := latencyScript_obj hscript
  have hnames := getsThrough_of_columns hspecial hdata hobj hshown.columns
  exact (hnames _ List.mem_cons_self ' ' (by decide)).2.1 rfl

end StorTrace
