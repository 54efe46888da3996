import StorTrace.Collector.HeatmapBuckets

/-!
# `Collector.HeatmapWidth` — is the width of a bucket right for every range of sectors?

`gen_heatmap` computes the width in 64 bits and keeps it in an `int`. A range of `partition * 2 ^ 31` sectors or
more leaves a width that is negative, zero or far too small.
-/

namespace StorTrace

/-- A value kept in an `int` is at most the largest `int`. -/
theorem toInt_le (w : UInt64) : toInt w ≤ 2147483647 := Int.le_of_lt_add_one w.toUInt32.toInt32.toInt_lt

/-- The largest of the sectors. -/
def highestSector (reqs : List (UInt64 × UInt16)) : Nat := reqs.foldl (fun m r => max m r.1.toNat) 0

/-- The smallest of the sectors and `INT64_MAX`. -/
def lowestSector (reqs : List (UInt64 × UInt16)) : Nat :=
  reqs.foldl (fun m r => min m r.1.toNat) 9223372036854775807

theorem highestSector_concat (pre : List (UInt64 × UInt16)) (r : UInt64 × UInt16) :
    highestSector (pre ++ [r]) = max (highestSector pre) r.1.toNat := by
  rw [highestSector, List.foldl_append]
  rfl

theorem lowestSector_concat (pre : List (UInt64 × UInt16)) (r : UInt64 × UInt16) :
    lowestSector (pre ++ [r]) = min (lowestSector pre) r.1.toNat := by
  rw [lowestSector, List.foldl_append]
  rfl

namespace Heatmap

theorem max_commits (par : Int) (name : Str) (reqs : List (UInt64 × UInt16)) :
    ((new par name).commits reqs).max.toNat = highestSector reqs := by
  induction reqs using List.reverseRecOn with
  | nil => rfl
  | append_singleton pre r ih =>
      rw [commits_concat, highestSector_concat, ← ih]
      show (if r.1 > ((new par name).commits pre).max then r.1 else ((new par name).commits pre).max).toNat = _
      split
      · next hgt => exact (Nat.max_eq_right (Nat.le_of_lt (UInt64.lt_iff_toNat_lt.mp hgt))).symm
      · next hgt => exact (Nat.max_eq_left (UInt64.le_iff_toNat_le.mp (UInt64.not_lt.mp hgt))).symm

theorem min_commits (par : Int) (name : Str) (reqs : List (UInt64 × UInt16)) :
    ((new par name).commits reqs).min.toNat = lowestSector reqs := by
  induction reqs using List.reverseRecOn with
  | nil => rfl
  | append_singleton pre r ih =>
      rw [commits_concat, lowestSector_concat, ← ih]
      show (if r.1 < ((new par name).commits pre).min then r.1 else ((new par name).commits pre).min).toNat = _
      split
      · next hlt => exact (Nat.min_eq_right (Nat.le_of_lt (UInt64.lt_iff_toNat_lt.mp hlt))).symm
      · next hlt => exact (Nat.min_eq_left (UInt64.le_iff_toNat_le.mp (UInt64.not_lt.mp hlt))).symm

/-- **The width of a bucket is right**: it is positive, a share of the range plus the bias, nothing is divided by
    zero, and no more than `partition` buckets are asked for. -/
structure WidthSafe (h : Heatmap) (partition : Nat) : Prop where
  pos : 0 < h.size
  size_eq : h.size = ((h.max.toNat - h.min.toNat) / partition + 100 : Nat)
  divides : h.partition ≠ 0 ∧ UInt64.ofInt h.size ≠ 0
  buckets_le : (h.range / UInt64.ofInt h.size + 1).toNat ≤ partition

/-- Whether it is right, once the recorded range is known. -/
theorem widthSafe_iff_of_le {h : Heatmap} {p : Nat} (hp : h.partition = p) (hpos : 0 < p) (hlt : p < 2147483648)
    (hle : h.min ≤ h.max) : WidthSafe h p ↔ (h.max.toNat - h.min.toNat) / p + 100 < 2147483648 := by
  constructor
  · intro hsafe
    have hsize := toInt_le (h.range / UInt64.ofInt h.partition + 100)
    have heq := hsafe.size_eq
    rw [size] at heq
    rw [heq] at hsize
    exact Nat.lt_succ_of_le (Int.ofNat_le.mp hsize)
  · intro hw
    have hrange : h.range.toNat = h.max.toNat - h.min.toNat := UInt64.toNat_sub_of_le _ _ hle
    have hsize := size_eq hp hlt (by rw [hrange]; exact hw)
    rw [hrange] at hsize
    have hwidth : (UInt64.ofInt h.size).toNat = (h.max.toNat - h.min.toNat) / p + 100 := by
      rw [hsize, toNat_ofInt_of_lt hw]
    have hbias : 0 < (h.max.toNat - h.min.toNat) / p + 100 := Nat.succ_pos _
    refine ⟨by rw [hsize]; exact Int.natCast_pos.mpr hbias, hsize, ⟨by rw [hp]; omega, ?_⟩, ?_⟩
    · intro hzero
      rw [hzero] at hwidth
      exact absurd hwidth (Nat.ne_of_lt hbias)
    · have hfew : (h.max.toNat - h.min.toNat) / ((h.max.toNat - h.min.toNat) / p + 100) + 1 ≤ p :=
        Heatmap.buckets_le hpos
      rw [UInt64.toNat_add, UInt64.toNat_div, hwidth, hrange]
      exact Nat.le_trans (Nat.mod_le _ _) hfew

/-- **The width is right exactly if** the share of the range stays a positive `int` with the bias on top. -/
theorem widthSafe_iff (r : Nat) (name : Str) (reqs : List (UInt64 × UInt16)) (hr : 1 ≤ r)
    (hr' : 8 * r < 2147483648) (hne : reqs ≠ []) :
    WidthSafe ((new r name).commits reqs) (8 * r) ↔
      (highestSector reqs - lowestSector reqs) / (8 * r) + 100 < 2147483648 := by
  have hrec := recorded r name reqs
  obtain ⟨q, hq⟩ := List.exists_mem_of_ne_nil reqs hne
  have hle := UInt64.le_trans (hrec.min_le q hq) (hrec.le_max q hq)
  have hp : ((new r name).commits reqs).partition = (8 * r : Nat) := by
    rw [hrec.partition]
    omega
  rw [widthSafe_iff_of_le hp (by omega) hr' hle, max_commits, min_commits]

/-- One request. -/
theorem widthSafe_iff_one :
    WidthSafe ((new 1 [115]).commits [(5, 8)]) 8 ↔ (highestSector [(5, 8)] - lowestSector [(5, 8)]) / 8 + 100 < 2147483648 :=
  widthSafe_iff 1 [115] [(5, 8)] (by decide) (by decide) (by simp)

/-- **The width is not right for every range**: with a request at sector `0` and one at `-1`, the sector of a request
    without data, it is `99`. -/
theorem not_widthSafe_no_sector :
    ¬ ∀ (r : Nat) (name : Str) (reqs : List (UInt64 × UInt16)), 1 ≤ r → 8 * r < 2147483648 → reqs ≠ [] →
      WidthSafe ((new r name).commits reqs) (8 * r) := by
  intro h
  have hsize := (h 1 [115] [(0, 8), (0xffffffffffffffff, 0)] (by decide) (by decide) (by simp)).size_eq
  exact absurd hsize (by decide)

end Heatmap

end StorTrace
