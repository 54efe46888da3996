import Mathlib.Data.Rat.Floor
import Mathlib.Tactic.Positivity
import StorTrace.Ext4Dio.RecordOrder
import StorTrace.Lib.Buckets
import StorTrace.Viewer.HeatmapPage

/-!
# `Viewer.TimeBuckets` — does the time-bucket page count every record? (`dio_time_stramp_bucket`)

The post-processor writes one time for each row of the table, counted from the first row. The page takes the
length of its bucket list from the **last** of these times, with ten buckets to spare, so a row before it
may be later than the list is long. `timeBuckets_iff` says when none is.
-/

namespace StorTrace

open Ext4Dio Meta

/-! ## The page -/

/-- `dio_record_time.json`, as far as the page reads it. -/
structure RecordTimeJson where
  name : Str
  xData : List UInt64
deriving DecidableEq

/-- `stramp_seq` of a table; an empty table has no first row to count from. -/
def recordTimeJson (stages : List UInt8 → DioStages) (table : List (List UInt8)) : Option RecordTimeJson :=
  table.head?.map (fun first =>
    ⟨strBytes "dio_record_time", table.map (fun row => recordTime (stages first).endDioIo (stages row))⟩)

/-- `int(x)` of a number, which rounds toward zero. -/
def pyTrunc (x : ℚ) : Int := if 0 ≤ x then ⌊x⌋ else ⌈x⌉

/-- `bucket[index] += 1`; a negative index counts from the end. -/
def pyIncr (bucket : List Int) (index : Int) : Option (List Int) :=
  let pos := if index < 0 then index + bucket.length else index
  if 0 ≤ pos ∧ pos < bucket.length then some (bucket.modify pos.toNat (· + 1)) else none

/-- `tp/sec_acc` as an index, for the accuracy `acc`. -/
def timeIndex (acc : ℚ) (tp : UInt64) : Int := pyTrunc (tp.toNat / (acc * 1000000000))

/-- The list `bucket`. -/
def timeBuckets (xData : List UInt64) (acc : ℚ) : Option (List Int) :=
  if acc * 1000000000 = 0 then none
  else do
    let last ← xData.getLast?
    let lastTp := timeIndex acc last + 10
    xData.foldlM (fun bucket tp => pyIncr bucket (timeIndex acc tp)) (List.replicate lastTp.toNat 0)

/-- What `record_bucket.html` is rendered with. -/
structure RecordBucketPage where
  title : Str
  mode : Str
  bucket : Str
deriving DecidableEq

/-- `dio_time_stramp_bucket`, in exact arithmetic. -/
def dioTimeStrampBucket (data : RecordTimeJson) (acc : ℚ) : Option RecordBucketPage := do
  let bucket ← timeBuckets data.xData acc
  let bucketStr := ([44] : Str).intercalate (bucket.map intToString)
  return ⟨data.name, strBytes "ext4_info_dio", bucketStr⟩

/-! ## The bucket of a record -/

/-- The bucket a record belongs to: the number of whole periods of `acc` seconds before it. -/
def timeBucket (acc : ℚ) (tp : UInt64) : Nat := ⌊(tp.toNat : ℚ) / (acc * 10 ^ 9)⌋₊

section Counting

variable {acc : ℚ} {xData : List UInt64}

/-- With a positive accuracy the index of a record is its bucket. -/
theorem timeIndex_eq (hacc : 0 < acc) (tp : UInt64) : timeIndex acc tp = timeBucket acc tp := by
  have hnonneg : (0 : ℚ) ≤ tp.toNat / (acc * 1000000000) := by positivity
  have hbillion : (1000000000 : ℚ) = 10 ^ 9 := by norm_num
  rw [timeIndex, pyTrunc, if_pos hnonneg, timeBucket, hbillion, Int.natCast_floor_eq_floor (by rw [← hbillion]; exact hnonneg)]

/-- An index that is not negative. -/
theorem pyIncr_natCast (bucket : List Int) (k : Nat) :
    pyIncr bucket k = if k < bucket.length then some (bucket.modify k (· + 1)) else none := by
  have hk : ¬ (k : Int) < 0 := by omega
  unfold pyIncr
  simp only [if_neg hk]
  simp

/-- **A loop that ends had every index inside.** -/
theorem lt_length_of_foldlM {key : UInt64 → Nat} {bucket bucket' : List Int}
    (h : xData.foldlM (fun bucket tp => pyIncr bucket (key tp)) bucket = some bucket') :
    ∀ tp ∈ xData, key tp < bucket.length := by
  induction xData generalizing bucket with
  | nil => simp
  | cons tp rest ih =>
      rw [List.foldlM_cons, pyIncr_natCast] at h
      split at h
      · next hlt =>
        have hrest := ih h
        rw [List.length_modify] at hrest
        exact List.forall_mem_cons.mpr ⟨hlt, hrest⟩
      · cases h

/-- A loop whose indices are all inside counts the elements. -/
theorem foldlM_pyIncr {key : UInt64 → Nat} {n : Nat} (hlt : ∀ tp ∈ xData, key tp < n) :
    xData.foldlM (fun bucket tp => pyIncr bucket (key tp)) (List.replicate n 0) =
      some (Buckets.filled key (fun _ => 1) n xData) := by
  rw [← Buckets.filled_nil key (fun _ => 1)]
  refine Buckets.foldlM_filled key (fun _ => 1) xData [] ?_
  intro before tp after hsplit
  have htp : key tp < n := hlt tp (by rw [← List.nil_append xData, hsplit]; simp)
  have hmodify := Buckets.modify_filled key (fun _ => 1) n before tp
  rw [pyIncr_natCast, if_pos (by rw [Buckets.length_filled]; exact htp)]
  exact congrArg some hmodify

/-- The list `bucket` of a sequence whose last time is `last`. -/
theorem timeBuckets_eq (hacc : 0 < acc) {last : UInt64} (hlast : xData.getLast? = some last) :
    timeBuckets xData acc = xData.foldlM (fun bucket tp => pyIncr bucket (timeBucket acc tp))
      (List.replicate (timeBucket acc last + 10) 0) := by
  have hne : acc * 1000000000 ≠ 0 := by positivity
  unfold timeBuckets
  simp only [if_neg hne, hlast, Option.bind_eq_bind, Option.bind_some, timeIndex_eq hacc]
  rfl

end Counting

/-! ## The page of a table -/

/-- **The buckets count every record**: each has the number of its records, and together they have all. -/
structure CountsRecords (acc : ℚ) (xData : List UInt64) (bucket : List Int) : Prop where
  inside : ∀ tp ∈ xData, timeBucket acc tp < bucket.length
  count : ∀ b < bucket.length, bucket[b]? = some ((xData.filter (fun tp => timeBucket acc tp = b)).length : Int)
  sum : bucket.sum = xData.length

/-- **The page of a table counts every record of it.** -/
def PageCounts (stages : List UInt8 → DioStages) (table : List (List UInt8)) (acc : ℚ) : Prop :=
  ∃ data bucket, recordTimeJson stages table = some data ∧ CountsRecords acc data.xData bucket ∧
    dioTimeStrampBucket data acc =
      some ⟨data.name, strBytes "ext4_info_dio", ([44] : Str).intercalate (bucket.map intToString)⟩

section Page

variable {stages : List UInt8 → DioStages} {table : List (List UInt8)} {acc : ℚ}

/-- The times of a table that has rows. -/
theorem recordTimeJson_eq (hne : table ≠ []) : recordTimeJson stages table =
    some ⟨strBytes "dio_record_time", table.map (fun row => recordTime (stages (table.head hne)).endDioIo (stages row))⟩ := by
  rw [recordTimeJson, List.head?_eq_some_head hne]
  rfl

/-- The buckets of times that are all below the end of the list. -/
theorem countsRecords_filled {xData : List UInt64} {n : Nat} (hlt : ∀ tp ∈ xData, timeBucket acc tp < n) :
    CountsRecords acc xData (Buckets.filled (timeBucket acc) (fun _ => 1) n xData) := by
  refine ⟨?_, ?_, ?_⟩
  · rw [Buckets.length_filled]
    exact hlt
  · intro b hb
    rw [Buckets.length_filled] at hb
    rw [Buckets.getElem?_filled _ _ _ hb, Buckets.weightIn]
    simp
  · rw [Buckets.sum_filled hlt]
    simp

/-- The last time of a table that has rows. -/
theorem getLast?_recordTimes (hne : table ≠ []) :
    (table.map (fun row => recordTime (stages (table.head hne)).endDioIo (stages row))).getLast? =
      some (recordTime (stages (table.head hne)).endDioIo (stages (table.getLast hne))) := by
  rw [List.getLast?_map, List.getLast?_eq_some_getLast hne, Option.map_some]

/-- A page that was rendered had every record in its list. -/
theorem PageCounts.lt_last (h : PageCounts stages table acc) (hne : table ≠ []) (hacc : 0 < acc) :
    ∀ row ∈ table, timeBucket acc (recordTime (stages (table.head hne)).endDioIo (stages row)) <
      timeBucket acc (recordTime (stages (table.head hne)).endDioIo (stages (table.getLast hne))) + 10 := by
  obtain ⟨data, bucket, hdata, -, hpage⟩ := h
  rw [recordTimeJson_eq hne] at hdata
  obtain rfl := Option.some.inj hdata
  obtain ⟨bucket', hbucket', -⟩ := Option.bind_eq_some_iff.mp hpage
  rw [timeBuckets_eq hacc (getLast?_recordTimes hne)] at hbucket'
  have hinside := lt_length_of_foldlM hbucket'
  rw [List.length_replicate] at hinside
  exact List.forall_mem_map.mp hinside

/-- A table with every record in the list. -/
theorem pageCounts_of_lt_last (hne : table ≠ []) (hacc : 0 < acc)
    (h : ∀ row ∈ table, timeBucket acc (recordTime (stages (table.head hne)).endDioIo (stages row)) <
      timeBucket acc (recordTime (stages (table.head hne)).endDioIo (stages (table.getLast hne))) + 10) :
    PageCounts stages table acc := by
  have hlt := List.forall_mem_map (P := fun tp => timeBucket acc tp < _).mpr h
  refine ⟨_, _, recordTimeJson_eq hne, countsRecords_filled hlt, ?_⟩
  rw [dioTimeStrampBucket, timeBuckets_eq hacc (getLast?_recordTimes hne), foldlM_pyIncr hlt]
  rfl

/-- **The page counts every record exactly if** none is ten buckets or more behind the last one. -/
theorem pageCounts_iff (stages : List UInt8 → DioStages) (table : List (List UInt8)) (acc : ℚ) (hne : table ≠ [])
    (hacc : 0 < acc) :
    PageCounts stages table acc ↔ ∀ row ∈ table,
      timeBucket acc (recordTime (stages (table.head hne)).endDioIo (stages row)) <
        timeBucket acc (recordTime (stages (table.head hne)).endDioIo (stages (table.getLast hne))) + 10 := by
  constructor
  · intro h
    exact h.lt_last hne hacc
  · intro h
    exact pageCounts_of_lt_last hne hacc h

/-- A row of the simple tracer with the given end. -/
def simpleRowAt (endDioIo : UInt8) : List UInt8 := endDioIo :: List.replicate 31 0

/-- Two direct I/Os. -/
theorem pageCounts_iff_two_rows :
    PageCounts .ofSimpleRow [simpleRowAt 3, simpleRowAt 5] 1 ↔ ∀ row ∈ [simpleRowAt 3, simpleRowAt 5],
      timeBucket 1 (recordTime (DioStages.ofSimpleRow (simpleRowAt 3)).endDioIo (.ofSimpleRow row)) <
        timeBucket 1 (recordTime (DioStages.ofSimpleRow (simpleRowAt 3)).endDioIo (.ofSimpleRow (simpleRowAt 5))) + 10 :=
  pageCounts_iff .ofSimpleRow [simpleRowAt 3, simpleRowAt 5] 1 (by simp) (by norm_num)

/-- **Not every page is rendered**: the first row is that of a completion that read the clock at `5` and was
    logged before one that had read it at `3`. The time of the second row wraps, and its index is outside
    the list. -/
theorem not_pageCounts_overtaken :
    ¬ ∀ (stages : List UInt8 → DioStages) (table : List (List UInt8)) (acc : ℚ), table ≠ [] → 0 < acc →
      PageCounts stages table acc := by
  intro h
  have hpage := h .ofSimpleRow [simpleRowAt 5, simpleRowAt 3, simpleRowAt 6] 1 (by simp) (by norm_num)
  have hlt := hpage.lt_last (by simp) (by norm_num) (simpleRowAt 3) (by simp)
  have hwraps : recordTime (DioStages.ofSimpleRow (simpleRowAt 5)).endDioIo (.ofSimpleRow (simpleRowAt 3)) =
      18446744073709551614 := by decide
  have hlast : recordTime (DioStages.ofSimpleRow (simpleRowAt 5)).endDioIo (.ofSimpleRow (simpleRowAt 6)) = 1 := by decide
  simp only [List.head_cons, List.getLast_cons_cons, List.getLast_singleton, hwraps, hlast] at hlt
  have hfirst : timeBucket 1 1 = 0 := by
    have hone : (1 : UInt64).toNat = 1 := rfl
    rw [timeBucket, hone, Nat.floor_eq_zero]
    norm_num
  have hlate : 10 ≤ timeBucket 1 18446744073709551614 := by
    have hwrapped : (18446744073709551614 : UInt64).toNat = 18446744073709551614 := rfl
    rw [timeBucket, hwrapped]
    refine Nat.le_floor ?_
    norm_num
  omega

/-- A later time is not in an earlier bucket. -/
theorem timeBucket_mono (hacc : 0 < acc) {tp tp' : UInt64} (h : tp.toNat ≤ tp'.toNat) :
    timeBucket acc tp ≤ timeBucket acc tp' := by
  refine Nat.floor_le_floor ?_
  have hcast : (tp.toNat : ℚ) ≤ tp'.toNat := Nat.cast_le.mpr h
  exact div_le_div_of_nonneg_right hcast (by positivity)

/-- **A table in time order**, as `records_in_order` delivers it, is counted on every page. -/
theorem pageCounts_of_sorted {vs : List SimpleDioEvent} (hrows : table.map stages = vs.map DioStages.ofEvent)
    (hsorted : vs.Pairwise (fun v w => v.endBlockIo ≤ w.endBlockIo)) (hne : table ≠ []) (hacc : 0 < acc) :
    PageCounts stages table acc := by
  have hexact := recordTimesExact_of_sorted hrows hsorted
  have hends : table.Pairwise (fun row row' => (stages row).endDioIo ≤ (stages row').endDioIo) := by
    have hpair : (vs.map DioStages.ofEvent).Pairwise (fun r r' => r.endDioIo ≤ r'.endDioIo) := List.pairwise_map.mpr hsorted
    rw [← hrows, List.pairwise_map] at hpair
    exact hpair
  refine pageCounts_of_lt_last hne hacc ?_
  intro row hrow
  have hlast := hexact _ (List.head?_eq_some_head hne) _ (List.getLast_mem hne)
  have htime := hexact _ (List.head?_eq_some_head hne) row hrow
  have hle : (stages row).endDioIo.toNat ≤ (stages (table.getLast hne)).endDioIo.toNat :=
    UInt64.le_iff_toNat_le.mp (hends.rel_getLast_of_rel_getLast_getLast hrow (UInt64.le_refl _))
  have hbefore : (recordTime (stages (table.head hne)).endDioIo (stages row)).toNat ≤
      (recordTime (stages (table.head hne)).endDioIo (stages (table.getLast hne))).toNat := by omega
  exact Nat.lt_of_le_of_lt (timeBucket_mono hacc hbefore) (Nat.lt_add_of_pos_right (by decide))

end Page

end StorTrace
