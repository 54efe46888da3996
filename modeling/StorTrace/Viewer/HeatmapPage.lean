import Mathlib.Data.List.TakeWhile
import StorTrace.Collector.HeatmapBuckets
import StorTrace.Collector.LogCollecter

/-!
# `Viewer.HeatmapPage` — the heat map as the viewer shows it (`io_heatmap`, `heatmap.html`)

The page lays the buckets of a disk out row by row, in a grid whose height is computed from `partition` and
not from the number of buckets. `heatmap_partitions` follows the recorded requests to the cells.
-/

namespace StorTrace

open Meta

/-! ## The page -/

/-- `parseInt`, on a text that starts with a sign or a digit. -/
def parseInt (text : Str) : Option Int :=
  let negative := text.head? = some dash
  let digits := (if negative then text.tail else text).takeWhile isDigit
  let value : Int := Text.horner (digits.map (fun c => c.toNat - 48))
  if digits = [] then none else some (if negative then -value else value)

/-- What `heatmap.html` is rendered with. -/
structure HeatmapPage where
  height : Nat
  length : Nat
  seqData : Str
  drive : Str
deriving DecidableEq

/-- `io_heatmap`: `int(partition / int(length)) + 1` rows; the quotient of two such integers is rounded
    toward zero as it would be without floats. -/
def ioHeatmap (data : HeatmapJson) (length : Nat) : Option HeatmapPage :=
  if length = 0 then none
  else some ⟨data.partition.toNat / length + 1, length, data.seqData, data.name⟩

namespace HeatmapPage

/-- `parseInt(seq_str[i*length+j])`; there is no number past the end of the sequence. -/
def value (page : HeatmapPage) (i j : Nat) : Option Int :=
  ((page.seqData.splitOn 44)[i * page.length + j]?).bind parseInt

/-- `sector_data`. -/
def sectorData (page : HeatmapPage) : List (Nat × Nat × Option Int) :=
  (List.range page.height).flatMap (fun i => (List.range page.length).map (fun j => (j, i, page.value i j)))

/-- The cells of the grid. -/
theorem mem_sectorData {page : HeatmapPage} {i j : Nat} {v : Option Int} :
    (j, i, v) ∈ page.sectorData ↔ i < page.height ∧ j < page.length ∧ v = page.value i j := by
  simp only [sectorData, List.mem_flatMap, List.mem_map, List.mem_range, Prod.mk.injEq]
  constructor
  · rintro ⟨i', hi, j', hj, rfl, rfl, rfl⟩
    exact ⟨hi, hj, rfl⟩
  · rintro ⟨hi, hj, rfl⟩
    exact ⟨i, hi, j, hj, rfl, rfl, rfl⟩

end HeatmapPage

/-! ## The numbers survive the text -/

/-- A number that is not negative is printed as its digits. -/
theorem intToString_natCast (n : Nat) : intToString (n : Int) = stdToString n := by
  rw [intToString, if_neg (by omega), Int.natAbs_natCast]

/-- A printed number is read back. -/
theorem parseInt_intToString {v : Int} (hv : 0 ≤ v) : parseInt (intToString v) = some v := by
  obtain ⟨n, rfl⟩ := Int.eq_ofNat_of_zero_le hv
  have hdash : (stdToString n).head? ≠ some dash := by
    intro hh
    exact notMem_stdToString (by decide) n (List.mem_of_mem_head? hh)
  have hdigits : (stdToString n).takeWhile isDigit = stdToString n :=
    List.takeWhile_eq_self_iff.mpr (fun c hc => isDigit_of_mem_stdToString hc)
  rw [intToString_natCast]
  unfold parseInt
  simp only [hdash, if_false, hdigits, horner_stdToString, if_neg (stdToString_ne_nil n)]

/-- The text of the buckets is taken apart into the numbers. -/
theorem splitOn_seqData {vs : List Int} (hne : vs ≠ []) (hvs : ∀ v ∈ vs, 0 ≤ v) :
    (([44] : Str).intercalate (vs.map intToString)).splitOn 44 = vs.map intToString := by
  apply List.splitOn_intercalate
  · intro text htext
    obtain ⟨v, hv, rfl⟩ := List.mem_map.mp htext
    obtain ⟨n, rfl⟩ := Int.eq_ofNat_of_zero_le (hvs v hv)
    rw [intToString_natCast]
    exact notMem_stdToString (by decide) n
  · simpa using hne

/-- **A cell holds the number of its bucket.** -/
theorem HeatmapPage.value_dumpJson {h : Heatmap} {bucket : List Int} (hne : bucket ≠ [])
    (hbucket : ∀ v ∈ bucket, 0 ≤ v) {height length i j : Nat} :
    (HeatmapPage.mk height length (h.dumpJson bucket).seqData h.driveName).value i j = bucket[i * length + j]? := by
  show ((([44] : Str).intercalate (bucket.map intToString)).splitOn 44)[i * length + j]?.bind parseInt = _
  rw [splitOn_seqData hne hbucket, List.getElem?_map]
  cases hget : bucket[i * length + j]? with
  | none => rfl
  | some v => exact parseInt_intToString (hbucket v (List.mem_of_getElem? hget))

/-! ## From the requests to the cells -/

/-- The count of the requests in `[lo, hi)`. -/
def sectorSum (reqs : List (UInt64 × UInt16)) (lo hi : Nat) : Nat :=
  ((reqs.filter (fun r => lo ≤ r.1.toNat ∧ r.1.toNat < hi)).map (fun r => r.2.toNat)).sum

/-- **The heat map `h` of the requests partitions their sectors** into `bucket`: each bucket counts an
    interval of sectors, the buckets add up to everything, there are at most `partition` of them, and the page
    shows each in exactly one cell, whatever the length of its rows. -/
structure Partitions (h : Heatmap) (reqs : List (UInt64 × UInt16)) (partition : Nat) (bucket : List Int) : Prop where
  entries : ∀ b < bucket.length, bucket[b]? =
    some (sectorSum reqs (h.min.toNat + b * h.size.toNat) (h.min.toNat + (b + 1) * h.size.toNat) : Int)
  total : bucket.sum = ((reqs.map (fun r => r.2.toNat)).sum : Nat)
  length_le : bucket.length ≤ partition
  shown (length : Nat) (hlength : 1 ≤ length) : ∃ page, ioHeatmap (h.dumpJson bucket) length = some page ∧
    page.height = partition / length + 1 ∧
      ∀ b < bucket.length, ∃! c : Nat × Nat, (c.2, c.1, bucket[b]?) ∈ page.sectorData ∧ c.1 * length + c.2 = b

section Partitions

variable {h : Heatmap} {reqs : List (UInt64 × UInt16)} {w n : Nat}

/-- A bucket counts the sectors of its interval. -/
theorem weightIn_eq_sectorSum (hw : h.size = w) (hpos : 0 < w) (hlt : w < 2147483648)
    (hmin : ∀ r ∈ reqs, h.min ≤ r.1) (b : Nat) :
    Buckets.weightIn (fun r => h.bucketOf r.1) (fun r => r.2.toNat) reqs b =
      sectorSum reqs (h.min.toNat + b * w) (h.min.toNat + (b + 1) * w) := by
  have hfilter : reqs.filter (fun r => h.bucketOf r.1 = b) =
      reqs.filter (fun r => h.min.toNat + b * w ≤ r.1.toNat ∧ r.1.toNat < h.min.toNat + (b + 1) * w) := by
    refine List.filter_congr (fun r hr => ?_)
    have hle : h.min.toNat ≤ r.1.toNat := UInt64.le_iff_toNat_le.mp (hmin r hr)
    rw [decide_eq_decide, Heatmap.bucketOf_eq hw hlt (hmin r hr), Nat.div_eq_iff hpos, Nat.add_mul]
    constructor <;> intro hb <;> omega
  rw [Buckets.weightIn, hfilter]
  rfl

/-- The page shows the buckets it was dumped with, each in one cell. -/
theorem shown_filled {partition length : Nat} (hp : h.partition = partition) (hn : 0 < n) (hle : n ≤ partition)
    (hlength : 1 ≤ length) :
    ∃ page, ioHeatmap (h.dumpJson (h.filled n reqs)) length = some page ∧ page.height = partition / length + 1 ∧
      ∀ b < (h.filled n reqs).length,
        ∃! c : Nat × Nat, (c.2, c.1, (h.filled n reqs)[b]?) ∈ page.sectorData ∧ c.1 * length + c.2 = b := by
  have hne : h.filled n reqs ≠ [] := by
    intro hnil
    have hlen := Heatmap.length_filled (h := h) n reqs
    rw [hnil] at hlen
    exact absurd hlen (by simpa using Nat.ne_of_lt hn)
  have hnonneg : ∀ v ∈ h.filled n reqs, 0 ≤ v := by
    intro v hv
    obtain ⟨b, -, rfl⟩ := List.mem_map.mp hv
    exact Int.natCast_nonneg _
  have hheight : h.partition.toNat / length + 1 = partition / length + 1 := by rw [hp, Int.toNat_natCast]
  refine ⟨_, if_neg (by omega), hheight, ?_⟩
  intro b hb
  rw [Heatmap.length_filled] at hb
  obtain ⟨c, ⟨hi, hj, hij⟩, huniq⟩ := Buckets.existsUnique_cell hlength (Nat.lt_of_lt_of_le hb hle)
  refine ⟨c, ⟨HeatmapPage.mem_sectorData.mpr ⟨by rw [← hheight] at hi; exact hi, hj, ?_⟩, hij⟩, ?_⟩
  · rw [← hij]
    exact (HeatmapPage.value_dumpJson hne hnonneg).symm
  · rintro c' ⟨hc', hij'⟩
    obtain ⟨hi', hj', -⟩ := HeatmapPage.mem_sectorData.mp hc'
    exact huniq c' ⟨by rw [← hheight]; exact hi', hj', hij'⟩

end Partitions

/-- **The disk heat map partitions all recorded sectors**, from the first request to the cells of the page. -/
theorem heatmap_partitions (r : Nat) (name : Str) (reqs : List (UInt64 × UInt16)) (hr : 1 ≤ r)
    (hr' : r * 8 < 2147483648) (hne : reqs ≠ []) (hsector : ∀ q ∈ reqs, q.1.toNat < 9223372036854775808)
    (hwidth : (((Heatmap.new r name).commits reqs).max.toNat - ((Heatmap.new r name).commits reqs).min.toNat) /
      (r * 8) + 100 < 2147483648)
    (htotal : (reqs.map (fun q => q.2.toNat)).sum < 2147483648) :
    (∃ q ∈ reqs, q.1 = ((Heatmap.new r name).commits reqs).min) ∧
      (∃ q ∈ reqs, q.1 = ((Heatmap.new r name).commits reqs).max) ∧
      ∃ bucket, ((Heatmap.new r name).commits reqs).genHeatmap = some bucket ∧
        Partitions ((Heatmap.new r name).commits reqs) reqs (r * 8) bucket := by
  have hrec := Heatmap.recorded r name reqs
  generalize (Heatmap.new r name).commits reqs = h at hrec hwidth ⊢
  obtain ⟨q, hq⟩ := List.exists_mem_of_ne_nil reqs hne
  have hmin := hrec.min_le q hq
  have hmax := hrec.le_max q hq
  have hle : h.min ≤ h.max := UInt64.le_trans hmin hmax
  have hrange : h.range.toNat = h.max.toNat - h.min.toNat := UInt64.toNat_sub_of_le _ _ hle
  have hp : h.partition = (r * 8 : Nat) := by rw [hrec.partition]; push_cast; rfl
  -- the bias keeps the width positive, and the number of buckets within the partitions
  have hsize := Heatmap.size_eq hp hr' (by rw [hrange]; exact hwidth)
  rw [hrange] at hsize
  generalize hw : (h.max.toNat - h.min.toNat) / (r * 8) + 100 = w at hwidth hsize
  have hbias : 100 ≤ w := hw ▸ Nat.le_add_left _ _
  have hgen := Heatmap.genHeatmap_eq_some hsize hbias hwidth (by omega)
    (fun q hq => ⟨hrec.min_le q (hrec.recvData ▸ hq), hrec.le_max q (hrec.recvData ▸ hq)⟩) hle
    (by rw [hrec.recvData]; exact htotal)
  rw [hrec.recvData] at hgen
  have hfew : (h.max.toNat - h.min.toNat) / w + 1 ≤ r * 8 := by
    rw [← hw]
    exact Heatmap.buckets_le (by omega)
  refine ⟨?_, ?_, _, hgen, ?_, ?_, ?_, ?_⟩
  · rcases hrec.min_mem with hinit | hmem
    · -- no sector is above the initial minimum
      refine ⟨q, hq, UInt64.le_antisymm ?_ hmin⟩
      rw [hinit, UInt64.le_iff_toNat_le]
      exact Nat.le_of_lt_succ (hsector q hq)
    · exact hmem
  · rcases hrec.max_mem with hinit | hmem
    · refine ⟨q, hq, UInt64.le_antisymm hmax ?_⟩
      rw [hinit]
      exact UInt64.zero_le
    · exact hmem
  · intro b hb
    rw [Heatmap.length_filled] at hb
    rw [Heatmap.getElem?_filled _ hb, weightIn_eq_sectorSum hsize (by omega) hwidth hrec.min_le, hsize, Int.toNat_natCast]
  · have hbucket : ∀ q ∈ reqs, h.bucketOf q.1 < (h.max.toNat - h.min.toNat) / w + 1 := by
      intro q hq
      have hq' : q.1.toNat ≤ h.max.toNat := UInt64.le_iff_toNat_le.mp (hrec.le_max q hq)
      rw [Heatmap.bucketOf_eq hsize hwidth (hrec.min_le q hq)]
      exact Nat.lt_succ_of_le (Nat.div_le_div_right (by omega))
    rw [Heatmap.filled_eq]
    exact Buckets.sum_filled hbucket
  · rw [Heatmap.length_filled]
    exact hfew
  · intro length hlength
    exact shown_filled hp (Nat.succ_pos _) hfew hlength

/-- Two requests of `sda`, with eight partitions. -/
theorem heatmap_partitions_two_requests :
    ∃ bucket, ((Heatmap.new 1 (strBytes "sda")).commits [(10, 8), (2000, 16)]).genHeatmap = some bucket ∧
      Partitions ((Heatmap.new 1 (strBytes "sda")).commits [(10, 8), (2000, 16)]) [(10, 8), (2000, 16)] 8 bucket := by
  have hsector : ∀ q ∈ [((10 : UInt64), (8 : UInt16)), (2000, 16)], q.1.toNat < 9223372036854775808 := by
    intro q hq
    simp only [List.mem_cons, List.not_mem_nil, or_false] at hq
    rcases hq with rfl | rfl <;> simp
  have hmin : ((Heatmap.new 1 (strBytes "sda")).commits [(10, 8), (2000, 16)]).min = 10 := by decide
  have hmax : ((Heatmap.new 1 (strBytes "sda")).commits [(10, 8), (2000, 16)]).max = 2000 := by decide
  exact (heatmap_partitions 1 (strBytes "sda") [(10, 8), (2000, 16)] (by simp) (by simp) (by simp) hsector
    (by simp [hmin, hmax]) (by simp)).2.2

end StorTrace
