import StorTrace.Collector.Heatmap
import StorTrace.Collector.TimeAq
import StorTrace.Lib.Buckets
import StorTrace.Logger.Meta

/-!
# `Collector.HeatmapBuckets` — from recorded sectors to buckets (`Heatmap::gen_heatmap`)

The recorded range is cut into buckets of equal width; the width is a share of the range plus a bias of
`100`. `genHeatmap_eq_some_iff` says when they are made and what they hold, `buckets_le` that there are no more of
them than `partition`.
-/

namespace StorTrace

/-- The JSON record of `Heatmap::dump_json`. -/
structure HeatmapJson where
  name : Str
  partition : Int
  seqData : Str
deriving DecidableEq

namespace Heatmap

/-- `range`. -/
def range (h : Heatmap) : UInt64 := h.max - h.min

/-- `size`, the width of a bucket. -/
def size (h : Heatmap) : Int := toInt (h.range / UInt64.ofInt h.partition + 100)

/-- `(sector - min) / size`. -/
def bucketOf (h : Heatmap) (sector : UInt64) : Nat := ((sector - h.min) / UInt64.ofInt h.size).toNat

/-- `bucket[(item.first - min) / size] += item.second`, if the element exists and stays an `int`. -/
def addItem (h : Heatmap) (bucket : List Int) (item : UInt64 × UInt16) : Option (List Int) :=
  let index := h.bucketOf item.1
  if index < bucket.length ∧ bucket.getD index 0 + item.2.toNat ≤ intMax then
    some (bucket.modify index (· + item.2.toNat))
  else none

/-- `gen_heatmap`: the buckets, unless it divides by zero or writes outside them. -/
def genHeatmap (h : Heatmap) : Option (List Int) :=
  if h.partition = 0 ∨ h.size = 0 then none
  else h.recvData.foldlM h.addItem (List.replicate (h.range / UInt64.ofInt h.size + 1).toNat 0)

/-- `dump_json`. -/
def dumpJson (h : Heatmap) (bucket : List Int) : HeatmapJson where
  name := h.driveName
  partition := h.partition
  seqData := [44].intercalate (bucket.map Meta.intToString)

/-- A heat map after requests were recorded. -/
def commits (h : Heatmap) (reqs : List (UInt64 × UInt16)) : Heatmap := reqs.foldl (fun h r => h.commit r.1 r.2) h

/-! ## The recorded range -/

@[simp] theorem commits_concat (h : Heatmap) (pre : List (UInt64 × UInt16)) (r : UInt64 × UInt16) :
    h.commits (pre ++ [r]) = (h.commits pre).commit r.1 r.2 := by
  simp [commits]

/-- **What recording leaves**: the requests in order, and a range that contains their sectors. -/
structure Recorded (par : Int) (name : Str) (reqs : List (UInt64 × UInt16)) (h : Heatmap) : Prop where
  recvData : h.recvData = reqs
  partition : h.partition = par * 8
  driveName : h.driveName = name
  min_le : ∀ r ∈ reqs, h.min ≤ r.1
  le_max : ∀ r ∈ reqs, r.1 ≤ h.max
  min_mem : h.min = 0x7fffffffffffffff ∨ ∃ r ∈ reqs, r.1 = h.min
  max_mem : h.max = 0 ∨ ∃ r ∈ reqs, r.1 = h.max

/-- The range is the extremes of the sectors, looked for from the start values on. -/
theorem commits_range (h : Heatmap) (reqs : List (UInt64 × UInt16)) :
    (h.commits reqs).max = Buckets.best (· > ·) h.max (reqs.map Prod.fst) ∧
      (h.commits reqs).min = Buckets.best (· < ·) h.min (reqs.map Prod.fst) := by
  induction reqs using List.reverseRecOn with
  | nil => exact ⟨rfl, rfl⟩
  | append_singleton pre r ih =>
      rw [commits_concat, List.map_append, List.map_singleton, Buckets.best_concat, Buckets.best_concat, ← ih.1, ← ih.2]
      exact ⟨rfl, rfl⟩

/-- Nothing else but the list of requests changes. -/
theorem commits_frame (h : Heatmap) (reqs : List (UInt64 × UInt16)) :
    (h.commits reqs).recvData = h.recvData ++ reqs ∧ (h.commits reqs).partition = h.partition ∧
      (h.commits reqs).driveName = h.driveName := by
  induction reqs using List.reverseRecOn with
  | nil => exact ⟨(List.append_nil _).symm, rfl, rfl⟩
  | append_singleton pre r ih =>
      rw [commits_concat, ← List.append_assoc, ← ih.1]
      exact ⟨rfl, ih.2⟩

theorem recorded (par : Int) (name : Str) (reqs : List (UInt64 × UInt16)) :
    Recorded par name reqs ((new par name).commits reqs) := by
  obtain ⟨hdata, hpart, hname⟩ := commits_frame (new par name) reqs
  obtain ⟨hmax, hmin⟩ := commits_range (new par name) reqs
  obtain ⟨-, hbelow, hlargest⟩ := Buckets.largest_spec (new par name).max (reqs.map Prod.fst)
  obtain ⟨-, habove, hsmallest⟩ := Buckets.smallest_spec (new par name).min (reqs.map Prod.fst)
  rw [← hmax] at hbelow hlargest
  rw [← hmin] at habove hsmallest
  refine ⟨hdata, hpart, hname, ?_, ?_, ?_, ?_⟩
  · exact fun r hr => habove r.1 (List.mem_map_of_mem hr)
  · exact fun r hr => hbelow r.1 (List.mem_map_of_mem hr)
  · exact hsmallest.imp_right List.mem_map.mp
  · exact hlargest.imp_right List.mem_map.mp

/-! ## The buckets -/

section Buckets

variable {h : Heatmap} {p : Nat}

/-- The width of a bucket. -/
theorem size_eq (hp : h.partition = p) (hlt : p < 2147483648) (hw : h.range.toNat / p + 100 < 2147483648) :
    h.size = (h.range.toNat / p + 100 : Nat) := by
  have hdiv : (h.range / UInt64.ofInt h.partition + 100).toNat = h.range.toNat / p + 100 := by
    rw [UInt64.toNat_add, UInt64.toNat_div, hp, toNat_ofInt_of_lt hlt]
    exact Nat.mod_eq_of_lt (Nat.lt_trans hw (by decide))
  rw [size, toInt_of_lt (by rw [hdiv]; exact hw), hdiv]

/-- **No more buckets than partitions**: the bias makes the width more than a share of the range. -/
theorem buckets_le {range : Nat} (hp : 0 < p) : range / (range / p + 100) + 1 ≤ p := by
  have hshare : range < p * (range / p + 100) := by
    have hmod := Nat.div_add_mod range p
    have hlt := Nat.mod_lt range hp
    rw [Nat.mul_add]
    omega
  exact Nat.div_lt_of_lt_mul (by rw [Nat.mul_comm]; exact hshare)

/-- The bucket of a sector. -/
theorem bucketOf_eq {w : Nat} (hw : h.size = w) (hlt : w < 2147483648) {sector : UInt64} (hmin : h.min ≤ sector) :
    h.bucketOf sector = (sector.toNat - h.min.toNat) / w := by
  rw [bucketOf, UInt64.toNat_div, hw, toNat_ofInt_of_lt hlt, UInt64.toNat_sub_of_le _ _ hmin]

/-- The buckets that hold the items `seq`. -/
def filled (h : Heatmap) (n : Nat) (seq : List (UInt64 × UInt16)) : List Int :=
  (List.range n).map (fun b => (Buckets.weightIn (fun r => h.bucketOf r.1) (fun r => r.2.toNat) seq b : Int))

theorem filled_eq (n : Nat) (seq : List (UInt64 × UInt16)) :
    h.filled n seq = Buckets.filled (fun r => h.bucketOf r.1) (fun r => r.2.toNat) n seq := rfl

@[simp] theorem length_filled (n : Nat) (seq : List (UInt64 × UInt16)) : (h.filled n seq).length = n :=
  Buckets.length_filled _ _ n seq

theorem getElem?_filled {n b : Nat} (seq : List (UInt64 × UInt16)) (hb : b < n) :
    (h.filled n seq)[b]? =
      some (Buckets.weightIn (fun r => h.bucketOf r.1) (fun r => r.2.toNat) seq b : Int) :=
  Buckets.getElem?_filled _ _ seq hb

/-- The number of buckets does not overflow. -/
theorem toNat_buckets {w : Nat} (hw : h.size = w) (hbias : 100 ≤ w) (hlt : w < 2147483648) (hle : h.min ≤ h.max) :
    (h.range / UInt64.ofInt h.size + 1).toNat = (h.max.toNat - h.min.toNat) / w + 1 := by
  have hrng : h.range.toNat = h.max.toNat - h.min.toNat := UInt64.toNat_sub_of_le _ _ hle
  have hdiv : (h.range / UInt64.ofInt h.size).toNat = (h.max.toNat - h.min.toNat) / w := by
    rw [UInt64.toNat_div, hw, toNat_ofInt_of_lt hlt, hrng]
  have hfew : (h.max.toNat - h.min.toNat) / w ≤ h.max.toNat / 2 :=
    Nat.le_trans (Nat.div_le_div_left (by omega) (by decide)) (Nat.div_le_div_right (Nat.sub_le _ _))
  have hmax := h.max.toNat_lt
  rw [UInt64.toNat_add, hdiv]
  exact Nat.mod_eq_of_lt (by show _ + 1 < 18446744073709551616; omega)

/-- **One item** is added unless its bucket would not be an `int` any longer. -/
theorem addItem_eq {n : Nat} {pre : List (UInt64 × UInt16)} {r : UInt64 × UInt16} (hr : h.bucketOf r.1 < n) :
    h.addItem (h.filled n pre) r =
      if Buckets.weightIn (fun r => h.bucketOf r.1) (fun r => r.2.toNat) (pre ++ [r]) (h.bucketOf r.1) ≤ 2147483647
      then some (h.filled n (pre ++ [r])) else none := by
  have hget : (h.filled n pre).getD (h.bucketOf r.1) 0 =
      (Buckets.weightIn (fun r => h.bucketOf r.1) (fun r : UInt64 × UInt16 => r.2.toNat) pre (h.bucketOf r.1) : Int) := by
    rw [List.getD_eq_getElem?_getD, getElem?_filled pre hr, Option.getD_some]
  have hmax : intMax = 2147483647 := rfl
  have hmodify := Buckets.modify_filled (fun r => h.bucketOf r.1) (fun r : UInt64 × UInt16 => r.2.toNat) n pre r
  simp only [← filled_eq] at hmodify
  rw [Buckets.weightIn_concat, if_pos rfl]
  unfold addItem
  refine if_congr ?_ (congrArg some hmodify) rfl
  rw [length_filled, hget, hmax]
  constructor
  · rintro ⟨-, hle⟩
    omega
  · intro hle
    exact ⟨hr, by omega⟩

/-- **`gen_heatmap` comes to its end exactly if** every bucket stays an `int`. -/
theorem genHeatmap_eq_some_iff {w : Nat} (hw : h.size = w) (hbias : 100 ≤ w) (hlt : w < 2147483648)
    (hp : h.partition ≠ 0) (hrange : ∀ r ∈ h.recvData, h.min ≤ r.1 ∧ r.1 ≤ h.max) (hle : h.min ≤ h.max)
    {bucket : List Int} : h.genHeatmap = some bucket ↔
      (∀ b, Buckets.weightIn (fun r => h.bucketOf r.1) (fun r => r.2.toNat) h.recvData b ≤ 2147483647) ∧
        bucket = h.filled ((h.max.toNat - h.min.toNat) / w + 1) h.recvData := by
  have hn : (h.range / UInt64.ofInt h.size + 1).toNat = (h.max.toNat - h.min.toNat) / w + 1 :=
    toNat_buckets hw hbias hlt hle
  have hempty : List.replicate ((h.max.toNat - h.min.toNat) / w + 1) (0 : Int) =
      h.filled ((h.max.toNat - h.min.toNat) / w + 1) [] := by
    simp [filled, List.map_const']
  have hzero : ¬ (h.partition = 0 ∨ h.size = 0) := by
    rw [hw]
    omega
  rw [genHeatmap, if_neg hzero, hn, hempty]
  refine Buckets.foldlM_filled_iff _ _ h.recvData [] ?_ (fun b => by simp)
  intro before r after hsplit
  have hr : r ∈ h.recvData := by
    rw [List.nil_append] at hsplit
    rw [hsplit]
    simp
  obtain ⟨hmin, hmax⟩ := hrange r hr
  have hmax' : r.1.toNat ≤ h.max.toNat := UInt64.le_iff_toNat_le.mp hmax
  apply addItem_eq
  rw [bucketOf_eq hw hlt hmin]
  exact Nat.lt_succ_of_le (Nat.div_le_div_right (by omega))

/-- **`gen_heatmap`** fills the buckets with the items recorded for them, if all of them together can be counted. -/
theorem genHeatmap_eq_some {w : Nat} (hw : h.size = w) (hbias : 100 ≤ w) (hlt : w < 2147483648)
    (hp : h.partition ≠ 0) (hrange : ∀ r ∈ h.recvData, h.min ≤ r.1 ∧ r.1 ≤ h.max)
    (hle : h.min ≤ h.max) (htotal : (h.recvData.map (fun r => r.2.toNat)).sum < 2147483648) :
    h.genHeatmap = some (h.filled ((h.max.toNat - h.min.toNat) / w + 1) h.recvData) := by
  refine (genHeatmap_eq_some_iff hw hbias hlt hp hrange hle).mpr ⟨fun b => ?_, rfl⟩
  exact Nat.le_of_lt_succ (Nat.lt_of_le_of_lt (Buckets.weightIn_le _ _ _ b) htotal)

end Buckets

end Heatmap

end StorTrace
