import Mathlib.Data.List.Perm.Subperm
import Mathlib.Data.Rat.Cast.Order
import Mathlib.Tactic.Linarith
import StorTrace.Collector.Throughput

/-!
# `Collector.MergeRate` — is the merge rate a rate? (`get_merge_rate`)

Bios are counted by the window they were submitted in, requests by the window they ended in, and the first
submission is counted with the requests to align the two. The loop over the windows is bounded by the array
of the requests. `readsInside_iff` says when the other array is long enough, and `isRate_iff` when, in exact
arithmetic, every entry is between `0` and `1`.
-/

namespace StorTrace

/-! ## The loop over the windows -/

section Loop

variable {β : Type} (share : UInt64 → UInt64 → β) (ndebug : Bool) (pmc : UInt64) (timeSeq : List (UInt64 × Nat))

/-- `get_merge_rate`, whatever the arithmetic of its entries. -/
def mergeRateWith (before : List UInt64) : Except Fault (List β) := do
  let ioBefore ← before.foldlM (fun ioBefore t => ioBefore.commitDlog ndebug t 1) (TimeThroughputPmc.new pmc)
  let first ← vecAt before 0
  let ioAfter ← (TimeThroughputPmc.new pmc).commitDlog ndebug first 1
  let ioAfter ← timeSeq.foldlM (fun ioAfter t => ioAfter.commitDlog ndebug t.1 1) ioAfter
  (List.range ioAfter.pmcData.length).mapM (fun i => do
    let all ← vecAt ioBefore.pmcData i
    let merged ← vecAt ioAfter.pmcData i
    return share all merged)

/-- With the arithmetic of the code. -/
theorem getMergeRate_eq (before : List UInt64) : getMergeRate ndebug pmc timeSeq before =
    mergeRateWith (fun all merged => mergedShare all.toFloat32 merged.toFloat32) ndebug pmc timeSeq before >>=
      fun rate => .ok ⟨rate⟩ := by
  unfold getMergeRate mergeRateWith
  simp only [bind_assoc]
  rfl

variable {share ndebug pmc timeSeq}

/-- **Two arrays read up to the end of the second.** -/
theorem mapM_vecAt_eq_ok {befores afters : List UInt64} {rate : List β} :
    (List.range afters.length).mapM (fun i => do
      let all ← vecAt befores i
      let merged ← vecAt afters i
      return share all merged) = Except.ok rate ↔
    afters.length ≤ befores.length ∧ rate = List.zipWith share befores afters := by
  induction afters generalizing befores rate with
  | nil =>
      show Except.ok [] = Except.ok rate ↔ _
      simp [eq_comm]
  | cons a afters ih =>
      rw [List.length_cons, List.range_succ_eq_map, List.mapM_cons, List.mapM_map]
      cases befores with
      | nil =>
          refine iff_of_false ?_ (by simp)
          intro h
          cases h
      | cons b befores =>
          show (List.mapM _ (List.range afters.length) >>= fun rest => Except.ok (share b a :: rest)) = Except.ok rate ↔ _
          rw [bind_eq_ok]
          constructor
          · rintro ⟨rest, hrest, hrate⟩
            obtain ⟨hlen, rfl⟩ := ih.mp hrest
            rw [← Except.ok.inj hrate]
            exact ⟨Nat.succ_le_succ hlen, rfl⟩
          · rintro ⟨hlen, rfl⟩
            exact ⟨_, ih.mpr ⟨Nat.le_of_succ_le_succ hlen, rfl⟩, rfl⟩

/-- **What the loop returns**, and when. -/
theorem mergeRateWith_eq_ok {first : UInt64} {rest : List UInt64} {rate : List β} :
    mergeRateWith share ndebug pmc timeSeq (first :: rest) = .ok rate ↔
      ∃ b a, (TimeThroughputPmc.new pmc).commits? ((first :: rest).map (fun t => (t, 1))) = some b ∧
        (TimeThroughputPmc.new pmc).commits? ((first :: timeSeq.map Prod.fst).map (fun t => (t, 1))) = some a ∧
        a.pmcData.length ≤ b.pmcData.length ∧ rate = List.zipWith share b.pmcData a.pmcData := by
  -- the two statements that fill the second array are one sequence of commits
  have hafter (a : TimeThroughputPmc) : ((TimeThroughputPmc.new pmc).commitDlog ndebug first 1 >>= fun ioAfter =>
      timeSeq.foldlM (fun ioAfter t => ioAfter.commitDlog ndebug t.1 1) ioAfter) = .ok a ↔
      (TimeThroughputPmc.new pmc).commits? ((first :: timeSeq.map Prod.fst).map (fun t => (t, 1))) = some a := by
    rw [← foldlM_commitDlog_eq_ok ndebug, List.foldlM_cons]
    simp only [List.foldlM_map]
  have hsplit : mergeRateWith share ndebug pmc timeSeq (first :: rest) =
      (first :: rest).foldlM (fun ioBefore t => ioBefore.commitDlog ndebug t 1) (TimeThroughputPmc.new pmc) >>=
        fun b => ((TimeThroughputPmc.new pmc).commitDlog ndebug first 1 >>= fun ioAfter =>
          timeSeq.foldlM (fun ioAfter t => ioAfter.commitDlog ndebug t.1 1) ioAfter) >>=
        fun a => (List.range a.pmcData.length).mapM (fun i => do
          let all ← vecAt b.pmcData i
          let merged ← vecAt a.pmcData i
          return share all merged) := by
    unfold mergeRateWith
    simp only [bind_assoc]
    rfl
  rw [hsplit]
  simp only [bind_eq_ok, hafter, foldlM_commitDlog_eq_ok, mapM_vecAt_eq_ok]
  constructor
  · rintro ⟨b, hb, a, ha, hle, hrate⟩
    exact ⟨b, a, hb, ha, hle, hrate⟩
  · rintro ⟨b, a, hb, ha, hle, hrate⟩
    exact ⟨b, hb, a, ha, hle, hrate⟩

end Loop

/-! ## The reads -/

/-- **A bio was submitted late enough** for each doubling of the array of the requests. -/
def GrowsWith (interval first : UInt64) (before ends : List UInt64) : Prop :=
  ∀ m, (∃ t ∈ ends, (30 * 2 ^ m : Nat) ≤ pmcIndex interval first t) →
    ∃ t ∈ before, (30 * 2 ^ m : Nat) ≤ pmcIndex interval first t

section Reads

variable {interval first : UInt64} {rest ends : List UInt64} {b a : TimeThroughputPmc}

/-- **The array of the bios is long enough exactly if** it grew with that of the requests. -/
theorem length_le_iff (hb : Counted interval first (first :: rest) b) (ha : Counted interval first (first :: ends) a) :
    a.pmcData.length ≤ b.pmcData.length ↔ GrowsWith interval first (first :: rest) ends := by
  obtain ⟨n, hb⟩ := hb.capacity
  obtain ⟨n', ha⟩ := ha.capacity
  have hindex (times : List UInt64) (m : Nat) : (∃ k ∈ timeIndices interval first times, 30 * 2 ^ m + 0 ≤ k) ↔
      ∃ t ∈ times, (30 * 2 ^ m : Nat) ≤ pmcIndex interval first t := by
    have hpos : 0 < 30 * 2 ^ m := Nat.mul_pos (by decide) (Nat.two_pow_pos m)
    simp only [timeIndices, List.mem_map, exists_exists_and_eq_and]
    refine exists_congr (fun t => and_congr_right (fun _ => ?_))
    omega
  rw [ha.le_iff (by decide) hb]
  simp only [hindex]
  refine forall_congr' (fun m => ?_)
  -- the alignment is in the first window
  have hfirst : ¬ ((30 * 2 ^ m : Nat) : Int) ≤ pmcIndex interval first first := by
    have hpos : 0 < 30 * 2 ^ m := Nat.mul_pos (by decide) (Nat.two_pow_pos m)
    rw [pmcIndex_self]
    omega
  simp only [List.mem_cons, exists_eq_or_imp, hfirst, false_or]

/-- A call that returned had every read inside. -/
theorem growsWith_of_ok {ndebug : Bool} {pmc : UInt64} {timeSeq : List (UInt64 × Nat)} {json : MergeRateJson}
    (h : getMergeRate ndebug pmc timeSeq (first :: rest) = .ok json) :
    GrowsWith (intParam pmc) first (first :: rest) (timeSeq.map Prod.fst) := by
  rw [getMergeRate_eq, bind_eq_ok] at h
  obtain ⟨rate, hrate, -⟩ := h
  obtain ⟨b, a, hb, ha, hle, -⟩ := mergeRateWith_eq_ok.mp hrate
  exact (length_le_iff (counted_of_commits? hb) (counted_of_commits? ha)).mp hle

/-- **No read is outside exactly if** a bio was submitted late enough for each doubling that an end time
    caused. -/
theorem readsInside_iff (ndebug : Bool) (pmc first : UInt64) (rest : List UInt64) (timeSeq : List (UInt64 × Nat))
    (hbefore : ((TimeThroughputPmc.new pmc).commits? ((first :: rest).map (fun t => (t, 1)))).isSome)
    (hafter : ((TimeThroughputPmc.new pmc).commits? ((first :: timeSeq.map Prod.fst).map (fun t => (t, 1)))).isSome) :
    (∃ json, getMergeRate ndebug pmc timeSeq (first :: rest) = .ok json) ↔
      GrowsWith (intParam pmc) first (first :: rest) (timeSeq.map Prod.fst) := by
  constructor
  · rintro ⟨json, hjson⟩
    exact growsWith_of_ok hjson
  · intro hgrows
    obtain ⟨b, hb⟩ := Option.isSome_iff_exists.mp hbefore
    obtain ⟨a, ha⟩ := Option.isSome_iff_exists.mp hafter
    have hle := (length_le_iff (counted_of_commits? hb) (counted_of_commits? ha)).mpr hgrows
    simp only [getMergeRate_eq, bind_eq_ok, mergeRateWith_eq_ok]
    exact ⟨_, _, ⟨b, a, hb, ha, hle, rfl⟩, rfl⟩

/-- A bio and its request. -/
theorem readsInside_iff_one_bio :
    (∃ json, getMergeRate true 10 [(7, 0)] [2] = .ok json) ↔ GrowsWith (intParam 10) 2 [2] [7] :=
  readsInside_iff true 10 2 [] [(7, 0)] (by decide) (by decide)

/-- **Not every read is inside**: one bio, whose request ends thirty windows later. -/
theorem not_readsInside_thirty :
    ¬ ∀ (ndebug : Bool) (pmc first : UInt64) (rest : List UInt64) (timeSeq : List (UInt64 × Nat)), 1 ≤ pmc →
      (∀ t ∈ rest, first ≤ t) → timeSeq.Pairwise (fun t t' => t.1 ≤ t'.1) → (∀ t ∈ timeSeq, first ≤ t.1) →
      ((TimeThroughputPmc.new pmc).commits? ((first :: rest).map (fun t => (t, 1)))).isSome →
      ((TimeThroughputPmc.new pmc).commits? ((first :: timeSeq.map Prod.fst).map (fun t => (t, 1)))).isSome →
        ∃ json, getMergeRate ndebug pmc timeSeq (first :: rest) = .ok json := by
  intro h
  obtain ⟨json, hjson⟩ := h true 1 0 [] [(30, 0)] (by decide) (by simp) (by simp) (by simp) (by decide) (by decide)
  obtain ⟨t, ht, hle⟩ := growsWith_of_ok hjson 0 ⟨30, by simp, by decide⟩
  obtain rfl := List.mem_singleton.mp ht
  exact absurd hle (by decide)

end Reads

/-! ## The rates -/

/-- `mergedShare` of two counts, in exact arithmetic. -/
def exactShare (all merged : UInt64) : ℚ := if (all.toNat : ℚ) > 1 then (all.toNat - merged.toNat) / all.toNat else 0

/-- `get_merge_rate` in exact arithmetic. -/
def exactMergeRate (ndebug : Bool) (pmc : UInt64) (timeSeq : List (UInt64 × Nat)) (before : List UInt64) :
    Except Fault (List ℚ) :=
  mergeRateWith exactShare ndebug pmc timeSeq before

/-- **The requests stem from bios**: each from one of its own, submitted no later than the request ended. -/
def StemFrom (before ends : List UInt64) : Prop :=
  ∃ bios, bios.Subperm before ∧ List.Forall₂ (fun submitted ended => submitted ≤ ended) bios ends

/-- **Every bio is completed as a request of its own** in the window it was submitted in. -/
def OwnWindows (interval first : UInt64) (before ends : List UInt64) : Prop :=
  ∃ bios, bios.Perm before ∧ List.Forall₂ (fun submitted ended => submitted ≤ ended ∧
    pmcIndex interval first ended = pmcIndex interval first submitted) bios ends

/-- **The merge rate is a rate**: every entry is between `0` and `1`, and `0` if nothing was merged. -/
def IsRate (ndebug : Bool) (pmc : UInt64) (timeSeq : List (UInt64 × Nat)) (before : List UInt64) : Prop :=
  ∃ rate, exactMergeRate ndebug pmc timeSeq before = .ok rate ∧ (∀ r ∈ rate, 0 ≤ r ∧ r ≤ 1) ∧
    ∀ first ∈ before.head?, OwnWindows (intParam pmc) first before (timeSeq.map Prod.fst) → ∀ r ∈ rate, r = 0

/-- A share is between `0` and `1` exactly if it is not computed or at most everything was merged. -/
theorem exactShare_mem_iff {all merged : UInt64} :
    0 ≤ exactShare all merged ∧ exactShare all merged ≤ 1 ↔ all.toNat ≤ 1 ∨ merged.toNat ≤ all.toNat := by
  have hall : (all.toNat : ℚ) > 1 ↔ 1 < all.toNat := by exact_mod_cast Iff.rfl
  unfold exactShare
  by_cases h : 1 < all.toNat
  · have hpos : (0 : ℚ) < all.toNat := by exact_mod_cast Nat.lt_trans Nat.zero_lt_one h
    have hmerged : (0 : ℚ) ≤ merged.toNat := Nat.cast_nonneg _
    have hcast : (merged.toNat : ℚ) ≤ all.toNat ↔ merged.toNat ≤ all.toNat := Nat.cast_le
    rw [if_pos (hall.mpr h), le_div_iff₀ hpos, zero_mul, div_le_one₀ hpos]
    constructor
    · rintro ⟨hle, -⟩
      exact Or.inr (hcast.mp (by linarith))
    · rintro (hle | hle)
      · omega
      · have hle' := hcast.mpr hle
        exact ⟨by linarith, by linarith⟩
  · rw [if_neg (fun hgt => h (hall.mp hgt))]
    simp [Nat.le_of_not_lt h]

/-- Nothing is merged if the counts are equal. -/
theorem exactShare_self (all : UInt64) : exactShare all all = 0 := by
  unfold exactShare
  rw [sub_self, zero_div, ite_self]

section Rate

variable {ndebug : Bool} {pmc interval first : UInt64} {rest times ends : List UInt64} {timeSeq : List (UInt64 × Nat)}
  {c : TimeThroughputPmc}

/-- Where everything is completed in its own window, the windows have the same counts. -/
theorem OwnWindows.count_eq {before : List UInt64} (h : OwnWindows interval first before ends) (w : Nat) :
    indexCount interval first ends w = indexCount interval first before w := by
  obtain ⟨bios, hperm, hown⟩ := h
  have hsame : indexCount interval first ends w = indexCount interval first bios w := by
    clear hperm
    unfold indexCount
    induction hown with
    | nil => rfl
    | cons hb _ ih => rw [List.filter_cons, List.filter_cons, hb.2, apply_ite List.length, apply_ite List.length,
        List.length_cons, List.length_cons, ih]
  rw [hsame]
  exact (hperm.filter _).length_eq

/-- The entry of a window. -/
theorem getElem?_zipWith_exactShare {a b : TimeThroughputPmc} {before : List UInt64}
    (hb : Counted interval first before b) (ha : Counted interval first ends a)
    (hle : a.pmcData.length ≤ b.pmcData.length) {w : Nat} (hw : w < a.pmcData.length) :
    (List.zipWith exactShare b.pmcData a.pmcData)[w]? = some (exactShare (UInt64.ofNat (indexCount interval first before w))
      (UInt64.ofNat (indexCount interval first ends w))) := by
  rw [List.getElem?_zipWith, hb.count w (Nat.lt_of_lt_of_le hw hle), ha.count w hw]

/-- A share that is not computed. -/
theorem exactShare_of_le_one {all : UInt64} (merged : UInt64) (h : all.toNat ≤ 1) : exactShare all merged = 0 := by
  have hcast : (all.toNat : ℚ) ≤ 1 := by exact_mod_cast h
  exact if_neg (not_lt.mpr hcast)

/-- The window `w` gets a rate: no more requests are counted in it than bios, or fewer than two bios. -/
def RateIn (interval first : UInt64) (before ends : List UInt64) (w : Nat) : Prop :=
  indexCount interval first before w ≤ 1 ∨
    indexCount interval first ends w + (if w = 0 then 1 else 0) ≤ indexCount interval first before w

/-- What a merge rate that is a rate says about its windows. -/
theorem IsRate.rateIn (h : IsRate ndebug pmc timeSeq (first :: rest)) (hbefore : (first :: rest).length < 18446744073709551616)
    (hafter : timeSeq.length + 1 < 18446744073709551616) (w : Nat) :
    RateIn (intParam pmc) first (first :: rest) (timeSeq.map Prod.fst) w := by
  obtain ⟨rate, hrate, hmem, -⟩ := h
  obtain ⟨b, a, hb, ha, hle, rfl⟩ := mergeRateWith_eq_ok.mp hrate
  have hcb := counted_of_commits? hb
  have hca := counted_of_commits? ha
  rw [RateIn, ← indexCount_cons_self]
  by_cases hw : w < a.pmcData.length
  · have hentry := hmem _ (List.mem_of_getElem? (getElem?_zipWith_exactShare hcb hca hle hw))
    rw [exactShare_mem_iff, toNat_indexCount hbefore, toNat_indexCount (by simpa using hafter)] at hentry
    exact hentry
  · rw [hca.count_eq_zero (Nat.le_of_not_lt hw)]
    exact Or.inr (Nat.zero_le _)

/-- **The merge rate is a rate exactly if** the commits and the reads are inside and every window gets a rate. -/
theorem isRate_iff (ndebug : Bool) (pmc first : UInt64) (rest : List UInt64) (timeSeq : List (UInt64 × Nat))
    (hbefore : (first :: rest).length < 18446744073709551616) (hafter : timeSeq.length + 1 < 18446744073709551616) :
    IsRate ndebug pmc timeSeq (first :: rest) ↔
      InRange (intParam pmc) first (first :: rest) ∧ InRange (intParam pmc) first (first :: timeSeq.map Prod.fst) ∧
        GrowsWith (intParam pmc) first (first :: rest) (timeSeq.map Prod.fst) ∧
        ∀ w, RateIn (intParam pmc) first (first :: rest) (timeSeq.map Prod.fst) w := by
  constructor
  · intro h
    have hrates := h.rateIn hbefore hafter
    obtain ⟨rate, hrate, -⟩ := h
    obtain ⟨b, a, hb, ha, hle, -⟩ := mergeRateWith_eq_ok.mp hrate
    have hgrows := (length_le_iff (counted_of_commits? hb) (counted_of_commits? ha)).mp hle
    exact ⟨exists_commits?_iff.mp ⟨b, hb⟩, exists_commits?_iff.mp ⟨a, ha⟩, hgrows, hrates⟩
  · rintro ⟨hinb, hina, hgrows, hrates⟩
    obtain ⟨b, hb⟩ := exists_commits?_iff.mpr hinb
    obtain ⟨a, ha⟩ := exists_commits?_iff.mpr hina
    have hcb := counted_of_commits? hb
    have hca := counted_of_commits? ha
    have hle := (length_le_iff hcb hca).mpr hgrows
    have hentry : ∀ r ∈ List.zipWith exactShare b.pmcData a.pmcData, ∃ w,
        r = exactShare (UInt64.ofNat (indexCount (intParam pmc) first (first :: rest) w))
          (UInt64.ofNat (indexCount (intParam pmc) first (first :: timeSeq.map Prod.fst) w)) := by
      intro r hr
      obtain ⟨w, hw⟩ := List.mem_iff_getElem?.mp hr
      have hlt : w < a.pmcData.length := by
        have hlen := (List.getElem?_eq_some_iff.mp hw).1
        rw [List.length_zipWith] at hlen
        omega
      rw [getElem?_zipWith_exactShare hcb hca hle hlt] at hw
      exact ⟨w, (Option.some.inj hw).symm⟩
    refine ⟨_, mergeRateWith_eq_ok.mpr ⟨b, a, hb, ha, hle, rfl⟩, ?_, ?_⟩
    · intro r hr
      obtain ⟨w, rfl⟩ := hentry r hr
      rw [exactShare_mem_iff, toNat_indexCount hbefore, toNat_indexCount (by simpa using hafter),
        indexCount_cons_self _ _ (timeSeq.map Prod.fst)]
      exact hrates w
    · intro first' hfirst hown r hr
      obtain rfl : first = first' := Option.some.inj hfirst
      obtain ⟨w, rfl⟩ := hentry r hr
      have hsame := hown.count_eq w
      rcases hrates w with hone | hmerged
      · exact exactShare_of_le_one _ (by rw [toNat_indexCount hbefore]; exact hone)
      · -- the alignment is one too many in the first window
        have hw : w ≠ 0 := by
          rintro rfl
          rw [if_pos rfl] at hmerged
          omega
        rw [indexCount_cons_self _ _ (timeSeq.map Prod.fst), if_neg hw, Nat.add_zero, hsame]
        exact exactShare_self _

/-- Three bios, of which two were merged. -/
theorem isRate_iff_three_bios : IsRate true 10 [(7, 0)] [2, 3, 4] ↔
    InRange (intParam 10) 2 [2, 3, 4] ∧ InRange (intParam 10) 2 [2, 7] ∧ GrowsWith (intParam 10) 2 [2, 3, 4] [7] ∧
      ∀ w, RateIn (intParam 10) 2 [2, 3, 4] [7] w :=
  isRate_iff true 10 2 [3, 4] [(7, 0)] (by decide) (by decide)

/-- **Not every merge rate is a rate**: two bios, each completed as a request of its own in the window of its
    submission. With the alignment there are three requests in that window, and the rate is below `0`. -/
theorem not_isRate_two_bios :
    ¬ ∀ (ndebug : Bool) (pmc : UInt64) (before : List UInt64) (timeSeq : List (UInt64 × Nat)), before ≠ [] →
      StemFrom before (timeSeq.map Prod.fst) → IsRate ndebug pmc timeSeq before := by
  intro h
  have hstem : StemFrom [2, 3] [4, 5] := by
    refine ⟨[2, 3], List.Subperm.refl _, .cons (by decide) (.cons (by decide) .nil)⟩
  have hrate := (h true 10 [2, 3] [(4, 0), (5, 1)] (by simp) hstem).rateIn (by decide) (by decide) 0
  have hbios : indexCount (intParam 10) 2 [2, 3] 0 = 2 := by decide
  have hrequests : indexCount (intParam 10) 2 ([(4, 0), (5, 1)].map Prod.fst) 0 = 2 := by decide
  rw [RateIn, hbios, hrequests, if_pos rfl] at hrate
  omega

end Rate

end StorTrace
