import Mathlib.Data.List.TakeWhile
import StorTrace.Ext4Dio.Aligned

/-!
# `Ext4Dio.FileNames` — does a file name end where its field ends?

`filename` holds the first sixteen bytes of a name, and a longer name leaves no NUL in it. `std::string` then
reads on: in an event into `type`, which is `D_WRITE = 0` or `D_READ = 1`; in a row of the meta table into the
`type` of the next row, or past the table.
-/

namespace StorTrace.Ext4Dio

/-! ## Reading past a field -/

/-- Memory is read as an empty string if it begins with a NUL. -/
theorem cString_eq_nil_iff {mem : List UInt8} : cString mem = [] ↔ mem = [] ∨ mem.head? = some 0 := by
  cases mem with
  | nil => exact iff_of_true rfl (Or.inl rfl)
  | cons b rest =>
      by_cases hb : b = 0
      · simp [cString, hb]
      · simp [cString, hb]

/-- **A field is read to its end, and no further, exactly if** it has a NUL or one follows it. -/
theorem cString_append_eq_iff {bs rest : List UInt8} :
    cString (bs ++ rest) = cString bs ↔ 0 ∈ bs ∨ cString rest = [] := by
  by_cases hmem : 0 ∈ bs
  · exact iff_of_true (cString_append hmem rest) (Or.inl hmem)
  · have hall : ∀ b ∈ bs, decide (b ≠ 0) = true := by
      intro b hb
      rw [decide_eq_true_eq]
      rintro rfl
      exact hmem hb
    have hbs : cString bs = bs := List.takeWhile_eq_self_iff.mpr hall
    have happend : cString (bs ++ rest) = bs ++ cString rest := List.takeWhile_append_of_pos hall
    rw [hbs, happend, List.append_right_eq_self]
    exact (or_iff_right hmem).symm

/-- The name in the field: the bytes up to the first NUL, or all sixteen. -/
def fieldName (filename : CharArray 16) : Str := cString filename.data

/-- The first byte of a word, low byte first. -/
theorem head_u64Bytes (w : UInt64) : (u64Bytes w).head? = some 0 ↔ w.toNat % 256 = 0 := by
  show some (UInt8.ofNat (w.toNat / 1)) = some 0 ↔ _
  rw [Nat.div_one, Option.some_inj, ← UInt8.toNat_inj, UInt8.toNat_ofNat']
  exact Iff.rfl

/-! ## The key of an event -/

/-- The key is the name in the field exactly if the field has a NUL, or `type` begins with one. -/
theorem fileName_eq_iff (log : SimpleDioEvent) :
    fileName log = fieldName log.filename ↔ 0 ∈ log.filename.data ∨ log.type.toNat % 256 = 0 := by
  have hhead : (u32Bytes log.type).head? = (u64Bytes log.type.toUInt64).head? := rfl
  have hne : u32Bytes log.type ≠ [] := by simp [u32Bytes, u64Bytes]
  rw [fileName, fieldName, cString_append_eq_iff, cString_eq_nil_iff, or_iff_right hne, hhead, head_u64Bytes,
    UInt32.toNat_toUInt64]

/-! ## The rows of the meta table -/

/-- `struct dio_simple_meta_log` and `struct dio_info_event_meta_log`. -/
structure DioMetaLog where
  type : UInt64
  dioSize : UInt64
  common : CharArray 16
  filename : CharArray 16
deriving DecidableEq

/-- A row as it stands in memory. -/
def DioMetaLog.bytes (row : DioMetaLog) : List UInt8 :=
  u64Bytes row.type ++ u64Bytes row.dioSize ++ row.common.data ++ row.filename.data

/-- `files[i]`. -/
def reportFile (stages : List UInt8 → DioStages) (events metas : List (List UInt8)) (i : Nat) : Option Str :=
  (reportRow stages events metas i).bind DioReportRow.file

variable {stages : List UInt8 → DioStages} {events : List (List UInt8)} {table : List DioMetaLog} {i : Nat}
  {row : DioMetaLog}

/-- The memory from a row on. -/
theorem metaFrom_eq (hrow : table[i]? = some row) :
    metaFrom (table.map DioMetaLog.bytes) i = row.bytes ++ metaFrom (table.map DioMetaLog.bytes) (i + 1) := by
  obtain ⟨hlt, hget⟩ := List.getElem?_eq_some_iff.mp hrow
  have hlt' : i < (table.map DioMetaLog.bytes).length := by rw [List.length_map]; exact hlt
  rw [metaFrom, List.drop_eq_getElem_cons hlt', List.getElem_map, hget, List.flatten_cons]
  rfl

/-- What follows the file name of a row. -/
theorem drop_metaFrom (hrow : table[i]? = some row) :
    (metaFrom (table.map DioMetaLog.bytes) i).drop 32 =
      row.filename.data ++ metaFrom (table.map DioMetaLog.bytes) (i + 1) := by
  have hlen : (u64Bytes row.type ++ u64Bytes row.dioSize ++ row.common.data).length = 32 := by
    simp [row.common.size_eq]
  rw [metaFrom_eq hrow, DioMetaLog.bytes, List.append_assoc, List.drop_left' hlen]

/-- Whether a NUL follows the last field of a row. -/
theorem head_metaFrom_iff :
    (metaFrom (table.map DioMetaLog.bytes) i).head? = some 0 ↔
      ∃ next, table[i]? = some next ∧ next.type.toNat % 256 = 0 := by
  cases hnext : table[i]? with
  | none =>
      have hnil : metaFrom (table.map DioMetaLog.bytes) i = [] := by
        rw [metaFrom, List.drop_eq_nil_of_le (by rw [List.length_map]; exact List.getElem?_eq_none_iff.mp hnext)]
        rfl
      rw [hnil]
      simp
  | some next =>
      have hhead : (metaFrom (table.map DioMetaLog.bytes) i).head? = (u64Bytes next.type).head? := by
        rw [metaFrom_eq hnext]
        rfl
      rw [hhead, head_u64Bytes]
      simp

/-- The name of row `i` is emitted exactly if its field has a NUL, or the next row begins with one. -/
theorem reportFile_eq_iff (hevent : i < events.length) (hrow : table[i]? = some row) :
    reportFile stages events (table.map DioMetaLog.bytes) i = some (fieldName row.filename) ↔
      0 ∈ row.filename.data ∨ ∃ next, table[i + 1]? = some next ∧ next.type.toNat % 256 = 0 := by
  have hreport : reportFile stages events (table.map DioMetaLog.bytes) i =
      stdString ((metaFrom (table.map DioMetaLog.bytes) i).drop 32) := by
    rw [reportFile, reportRow, List.getElem?_eq_getElem hevent, List.getElem?_map, hrow]
    rfl
  rw [hreport, stdString, Option.ite_none_right_eq_some, Option.some_inj, drop_metaFrom hrow, fieldName,
    cString_append_eq_iff, List.mem_append, ← or_and_left, ← head_metaFrom_iff]
  refine or_congr_right ?_
  rw [cString_eq_nil_iff]
  constructor
  · rintro ⟨hmem, hnil | hhead⟩
    · rw [hnil] at hmem
      cases hmem
    · exact hhead
  · intro hhead
    exact ⟨List.mem_of_head? hhead, Or.inr hhead⟩

/-! ## Both places -/

/-- The key of an event is the name in its field. -/
def KeyIsName (log : SimpleDioEvent) : Prop := fileName log = fieldName log.filename

/-- The file that both reports emit for row `i` is the name in its field. -/
def EmitsName (table : List DioMetaLog) (i : Nat) (row : DioMetaLog) : Prop :=
  ∀ (stages : List UInt8 → DioStages) (events : List (List UInt8)), i < events.length →
    reportFile stages events (table.map DioMetaLog.bytes) i = some (fieldName row.filename)

/-- **File names do not bleed into what follows exactly if** a NUL ends them: in the field, or right behind it. -/
theorem fileNames_iff (v : SimpleDioEvent) (table : List DioMetaLog) (i : Nat) (row : DioMetaLog)
    (hrow : table[i]? = some row) :
    (KeyIsName v ↔ 0 ∈ v.filename.data ∨ v.type.toNat % 256 = 0) ∧
      (∀ w : SimpleDioEvent, v.filename = w.filename → v.type = dRead → w.type = dWrite →
        (fileName v = fileName w ↔ 0 ∈ v.filename.data)) ∧
      (EmitsName table i row ↔ 0 ∈ row.filename.data ∨ ∃ next, table[i + 1]? = some next ∧ next.type.toNat % 256 = 0) := by
  refine ⟨fileName_eq_iff v, ?_, ?_⟩
  · intro w hname hread hwrite
    -- the key of a write is always the name in the field
    have hw : fileName w = fieldName w.filename := by
      rw [fileName_eq_iff, hwrite]
      exact Or.inr rfl
    have hne : ¬ dRead.toNat % 256 = 0 := by decide
    rw [hw, ← hname, fileName_eq_iff, hread]
    exact or_iff_left hne
  · constructor
    · intro h
      have hlt : i < (List.replicate (i + 1) ([] : List UInt8)).length := by simp
      exact (reportFile_eq_iff hlt hrow).mp (h .ofSimpleRow _ hlt)
    · intro h stages events hevent
      exact (reportFile_eq_iff hevent hrow).mpr h

/-- Sixteen bytes without a NUL. -/
def longName : CharArray 16 := ⟨List.replicate 16 97, rfl⟩

/-- An event on a file with a long name. -/
def longNamed (type : UInt32) : SimpleDioEvent := ⟨0, 0, 0, 0, 0, 0, .zero 16, longName, type⟩

/-- A read of a file with a long name, a write of it, and a row of it in front of another. -/
theorem fileNames_iff_long :
    ¬ KeyIsName (longNamed dRead) ∧ fileName (longNamed dRead) ≠ fileName (longNamed dWrite) ∧
      EmitsName [⟨0, 0, .zero 16, longName⟩, ⟨0, 0, .zero 16, .zero 16⟩] 0 ⟨0, 0, .zero 16, longName⟩ := by
  obtain ⟨hkey, hsame, hrow⟩ := fileNames_iff (longNamed dRead)
    [⟨0, 0, .zero 16, longName⟩, ⟨0, 0, .zero 16, .zero 16⟩] 0 ⟨0, 0, .zero 16, longName⟩ rfl
  refine ⟨?_, ?_, ?_⟩
  · rw [hkey]
    decide
  · rw [Ne, hsame (longNamed dWrite) rfl rfl rfl]
    decide
  · exact hrow.mpr (Or.inr ⟨⟨0, 0, .zero 16, .zero 16⟩, rfl, by decide⟩)

/-- **File names do bleed**: a read of a file with a long name is counted under another name. -/
theorem not_keyIsName_read :
    ¬ ((∀ log : SimpleDioEvent, KeyIsName log) ∧
      ∀ (table : List DioMetaLog) (i : Nat) (row : DioMetaLog), table[i]? = some row → EmitsName table i row) := by
  rintro ⟨h, -⟩
  exact absurd ((fileName_eq_iff _).mp (h (longNamed dRead))) (by decide)

end StorTrace.Ext4Dio
