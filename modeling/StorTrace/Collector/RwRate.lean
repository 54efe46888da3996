import Mathlib.Data.Rat.Cast.Order
import Mathlib.Tactic.FieldSimp
import Mathlib.Tactic.Linarith
import StorTrace.Collector.Throughput

/-!
# `Collector.RwRate` — are the shares of reads and writes right? (`get_rw_rate`)

Reads and writes are counted by two collectors, each started with an extra sample at the first end time. The
loop over the windows runs to the end of the shorter array, and a window gets its shares only if both counts
are above `1`; the share of the reads is computed from the writes. `sharesRight_iff` says for which
sequences the result is still the shares.
-/

namespace StorTrace

/-! ## The loop over the windows -/

/-- The end times of the requests of a type. -/
def timesOf (ioTypes : List Int) (ioType : Int) (timeSeq : List (UInt64 × Nat)) : List UInt64 :=
  (timeSeq.filter (fun t => ioTypes[t.2]? = some ioType)).map Prod.fst

section Loop

variable {β : Type} (share : UInt64 → UInt64 → β × β) (ndebug : Bool) (pmc : UInt64) (name : String)
  (timeSeq : List (UInt64 × Nat)) (ioTypes : List Int)

/-- `get_rw_rate`, whatever the arithmetic of the shares. -/
def rwRateWith : Except Fault (List (β × β)) := do
  let first ← vecAt timeSeq 0
  let readPmc ← (TimeThroughputPmc.new pmc).commitDlog ndebug first.1 1
  let writePmc ← (TimeThroughputPmc.new pmc).commitDlog ndebug first.1 1
  let rw ← timeSeq.foldlM (fun rw t => do
    let ioType ← vecAt ioTypes t.2
    rwCommit ndebug rw t.1 ioType) (readPmc, writePmc)
  return List.zipWith share rw.1.pmcData rw.2.pmcData

/-- With the arithmetic of the code. -/
theorem getRwRate_eq_rwRateWith : getRwRate ndebug pmc name timeSeq ioTypes =
    rwRateWith (fun r w => rwRate r.toFloat32 w.toFloat32) ndebug pmc timeSeq ioTypes >>= fun rates =>
      .ok ⟨rates.map Prod.fst, rates.map Prod.snd, name⟩ := by
  unfold getRwRate rwRateWith
  simp only [bind_assoc]
  rfl

variable {share ndebug pmc timeSeq ioTypes}

/-- **The two collectors do not touch each other**: a loop over requests of known types is a loop over the
    reads and one over the writes. -/
theorem foldlM_rwCommit_eq_ok (htypes : ∀ t ∈ timeSeq, ioTypes[t.2]? = some 0 ∨ ioTypes[t.2]? = some 1)
    {rw rw' : TimeThroughputPmc × TimeThroughputPmc} :
    timeSeq.foldlM (fun rw t => do
      let ioType ← vecAt ioTypes t.2
      rwCommit ndebug rw t.1 ioType) rw = .ok rw' ↔
    (timesOf ioTypes 0 timeSeq).foldlM (fun c t => c.commitDlog ndebug t 1) rw.1 = .ok rw'.1 ∧
      (timesOf ioTypes 1 timeSeq).foldlM (fun c t => c.commitDlog ndebug t 1) rw.2 = .ok rw'.2 := by
  induction timeSeq generalizing rw with
  | nil =>
      show Except.ok rw = .ok rw' ↔ Except.ok rw.1 = .ok rw'.1 ∧ Except.ok rw.2 = .ok rw'.2
      simp [Prod.ext_iff]
  | cons t rest ih =>
      obtain ⟨ht, hrest⟩ := List.forall_mem_cons.mp htypes
      rw [List.foldlM_cons, bind_eq_ok]
      simp only [ih hrest]
      rcases ht with hread | hwrite
      · have hat : vecAt ioTypes t.2 = .ok 0 := by rw [vecAt, hread]
        have hreads : timesOf ioTypes 0 (t :: rest) = t.1 :: timesOf ioTypes 0 rest := by simp [timesOf, hread]
        have hwrites : timesOf ioTypes 1 (t :: rest) = timesOf ioTypes 1 rest := by simp [timesOf, hread]
        rw [hat, hreads, hwrites, List.foldlM_cons, bind_eq_ok]
        show (∃ rw₁, (rw.1.commitDlog ndebug t.1 1 >>= fun readPmc => Except.ok (readPmc, rw.2)) = .ok rw₁ ∧ _) ↔ _
        simp only [bind_eq_ok]
        constructor
        · rintro ⟨rw₁, ⟨c, hc, hrw₁⟩, hr, hw⟩
          obtain rfl := Except.ok.inj hrw₁
          exact ⟨⟨c, hc, hr⟩, hw⟩
        · rintro ⟨⟨c, hc, hr⟩, hw⟩
          exact ⟨(c, rw.2), ⟨c, hc, rfl⟩, hr, hw⟩
      · have hat : vecAt ioTypes t.2 = .ok 1 := by rw [vecAt, hwrite]
        have hreads : timesOf ioTypes 0 (t :: rest) = timesOf ioTypes 0 rest := by simp [timesOf, hwrite]
        have hwrites : timesOf ioTypes 1 (t :: rest) = t.1 :: timesOf ioTypes 1 rest := by simp [timesOf, hwrite]
        rw [hat, hreads, hwrites, List.foldlM_cons, bind_eq_ok]
        show (∃ rw₁, (rw.2.commitDlog ndebug t.1 1 >>= fun writePmc => Except.ok (rw.1, writePmc)) = .ok rw₁ ∧ _) ↔ _
        simp only [bind_eq_ok]
        constructor
        · rintro ⟨rw₁, ⟨c, hc, hrw₁⟩, hr, hw⟩
          obtain rfl := Except.ok.inj hrw₁
          exact ⟨hr, ⟨c, hc, hw⟩⟩
        · rintro ⟨hr, ⟨c, hc, hw⟩⟩
          exact ⟨(rw.1, c), ⟨c, hc, rfl⟩, hr, hw⟩

/-- **What the loop returns**, and when. -/
theorem rwRateWith_eq_ok {first : UInt64 × Nat} {rest : List (UInt64 × Nat)} {rates : List (β × β)}
    (htypes : ∀ t ∈ first :: rest, ioTypes[t.2]? = some 0 ∨ ioTypes[t.2]? = some 1) :
    rwRateWith share ndebug pmc (first :: rest) ioTypes = .ok rates ↔
      ∃ r w, (TimeThroughputPmc.new pmc).commits?
          ((first.1 :: timesOf ioTypes 0 (first :: rest)).map (fun t => (t, 1))) = some r ∧
        (TimeThroughputPmc.new pmc).commits?
          ((first.1 :: timesOf ioTypes 1 (first :: rest)).map (fun t => (t, 1))) = some w ∧
        rates = List.zipWith share r.pmcData w.pmcData := by
  simp only [← foldlM_commitDlog_eq_ok ndebug, List.foldlM_cons, bind_eq_ok]
  show (TimeThroughputPmc.commitDlog _ _ first.1 1 >>= fun readPmc =>
    TimeThroughputPmc.commitDlog _ _ first.1 1 >>= fun writePmc =>
    (first :: rest).foldlM (fun rw t => vecAt ioTypes t.2 >>= fun ioType => rwCommit ndebug rw t.1 ioType)
      (readPmc, writePmc) >>= fun rw => .ok (List.zipWith share rw.1.pmcData rw.2.pmcData)) = .ok rates ↔ _
  simp only [bind_eq_ok, foldlM_rwCommit_eq_ok htypes]
  constructor
  · rintro ⟨readPmc, hread, writePmc, hwrite, rw, ⟨hr, hw⟩, hrates⟩
    exact ⟨rw.1, rw.2, ⟨readPmc, hread, hr⟩, ⟨writePmc, hwrite, hw⟩, (Except.ok.inj hrates).symm⟩
  · rintro ⟨r, w, ⟨readPmc, hread, hr⟩, ⟨writePmc, hwrite, hw⟩, rfl⟩
    exact ⟨readPmc, hread, writePmc, hwrite, (r, w), ⟨hr, hw⟩, rfl⟩

end Loop

/-! ## The shares of a window -/

/-- `rwRate` of two counts, in exact arithmetic. -/
def exactRwRate (rCount wCount : ℚ) : ℚ × ℚ :=
  let allCount := rCount + wCount
  if rCount > 1 ∧ wCount > 1 then (wCount / allCount, rCount / allCount) else (0, 0)

/-- `get_rw_rate` in exact arithmetic: `r_rate` and `w_rate`. -/
def exactRwRates (ndebug : Bool) (pmc : UInt64) (timeSeq : List (UInt64 × Nat)) (ioTypes : List Int) :
    Except Fault (List ℚ × List ℚ) := do
  let rates ← rwRateWith (fun r w => exactRwRate r.toNat w.toNat) ndebug pmc timeSeq ioTypes
  return (rates.map Prod.fst, rates.map Prod.snd)

/-- The share that `n` requests have of themselves and `m` others. -/
def shareOf (n m : Nat) : ℚ := if n + m = 0 then 0 else n / (n + m)

/-- The two shares add up. -/
theorem shareOf_add_shareOf {n m : Nat} (h : 0 < n + m) : shareOf n m + shareOf m n = 1 := by
  have hpos : (0 : ℚ) < n + m := by exact_mod_cast h
  rw [shareOf, shareOf, if_neg (by omega), if_neg (by omega), add_comm (m : ℚ), ← add_div, div_self hpos.ne']

/-- **When the code's shares are the shares**: with `e` samples too many on both sides, exactly if there are as
    many reads as writes, and not one of each without the extra samples. -/
theorem exactRwRate_eq_iff {r w e : Nat} (he : e ≤ 1) (hne : e = 1 → 0 < r + w) :
    exactRwRate ((r + e : Nat) : ℚ) ((w + e : Nat) : ℚ) = (shareOf r w, shareOf w r) ↔ r = w ∧ (e = 0 → r ≠ 1) := by
  have hgt (n : Nat) : ((n : Nat) : ℚ) > 1 ↔ 1 < n := by exact_mod_cast Iff.rfl
  unfold exactRwRate
  simp only [hgt]
  by_cases hnone : r + w = 0
  · have hr : r = 0 := by omega
    have hw : w = 0 := by omega
    subst hr hw
    have he0 : e = 0 := by
      by_contra h
      exact absurd (hne (by omega)) (by omega)
    subst he0
    simp [shareOf]
  · have hall : (0 : ℚ) < r + w := by exact_mod_cast Nat.pos_of_ne_zero hnone
    have hread : shareOf r w = r / (r + w) := if_neg hnone
    have hwrite : shareOf w r = w / (r + w) := by rw [add_comm (r : ℚ)]; exact if_neg (by omega)
    rw [hread, hwrite]
    by_cases hboth : 1 < r + e ∧ 1 < w + e
    · have hextra : (0 : ℚ) ≤ e := Nat.cast_nonneg e
      have hall' : (0 : ℚ) < (r + e) + (w + e) := by linarith
      rw [if_pos hboth, Prod.mk.injEq]
      push_cast
      rw [div_eq_div_iff hall'.ne' hall.ne', div_eq_div_iff hall'.ne' hall.ne']
      constructor
      · rintro ⟨h, -⟩
        have hzero : ((w : ℚ) - r) * (w + r + e) = 0 := by linarith
        have hpos : (0 : ℚ) < w + r + e := by linarith
        have hdiff := (mul_eq_zero.mp hzero).resolve_right hpos.ne'
        have hrw : (w : ℚ) = r := by linarith
        have hrw' : r = w := by exact_mod_cast hrw.symm
        exact ⟨hrw', by omega⟩
      · rintro ⟨rfl, -⟩
        exact ⟨by ring, by ring⟩
    · -- no shares, although there are requests
      rw [if_neg hboth, Prod.mk.injEq]
      constructor
      · rintro ⟨hr, hw⟩
        have hr' : (r : ℚ) = 0 := by simpa [hall.ne'] using hr.symm
        have hw' : (w : ℚ) = 0 := by simpa [hall.ne'] using hw.symm
        rw [hr', hw'] at hall
        exact absurd hall (by norm_num)
      · rintro ⟨rfl, hone⟩
        omega

/-! ## The windows of reads and writes -/

/-- The number of times in window `w`. -/
def countIn (interval start : UInt64) (times : List UInt64) (w : Nat) : Nat :=
  (times.filter (fun t => windowNo interval start t = w)).length

section Windows

variable {interval start : UInt64} {times : List UInt64} {w : Nat}

theorem countIn_pos_iff : 0 < countIn interval start times w ↔ ∃ t ∈ times, windowNo interval start t = w := by
  rw [countIn, List.length_pos_iff_exists_mem]
  simp only [List.mem_filter, decide_eq_true_eq]

/-- The first time is in the first window. -/
theorem windowNo_self (interval start : UInt64) : windowNo interval start start = 0 := by
  rw [windowNo, Nat.sub_self, Nat.zero_div]

/-- Times that are not before the first and not too late are indexed by their windows. -/
theorem timeIndices_eq (h : ∀ t ∈ times, start ≤ t ∧ windowNo interval start t < 2147483648) :
    timeIndices interval start times = times.map (windowNo interval start) := by
  refine List.map_congr_left (fun t ht => ?_)
  rw [pmcIndex_eq (h t ht).1 (h t ht).2, Int.toNat_natCast]

theorem indexCount_eq (h : ∀ t ∈ times, start ≤ t ∧ windowNo interval start t < 2147483648) :
    indexCount interval start times w = countIn interval start times w := by
  unfold indexCount countIn
  congr 1
  refine List.filter_congr (fun t ht => ?_)
  rw [pmcIndex_eq (h t ht).1 (h t ht).2, decide_eq_decide, Int.natCast_inj]

/-- The windows of times in order are in order. -/
theorem sorted_windows (interval start : UInt64) (h : times.Pairwise (· ≤ ·)) : (times.map (windowNo interval start)).Pairwise (· ≤ ·) := by
  rw [List.pairwise_map]
  refine h.imp ?_
  intro t t' hle
  exact Nat.div_le_div_right (Nat.sub_le_sub_right (UInt64.le_iff_toNat_le.mp hle) _)

end Windows

section Types

variable {ioTypes : List Int} {timeSeq : List (UInt64 × Nat)} {first : UInt64 × Nat} {rest : List (UInt64 × Nat)}
  {interval : UInt64} {k : Int}

theorem mem_timesOf {t : UInt64} : t ∈ timesOf ioTypes k timeSeq ↔ ∃ x ∈ timeSeq, ioTypes[x.2]? = some k ∧ x.1 = t := by
  simp only [timesOf, List.mem_map, List.mem_filter, decide_eq_true_eq, and_assoc]

/-- The first end time of a sorted sequence is the earliest. -/
theorem first_le (hsorted : (first :: rest).Pairwise (fun t t' => t.1 ≤ t'.1)) : ∀ t ∈ first :: rest, first.1 ≤ t.1 := by
  intro t ht
  rcases List.mem_cons.mp ht with rfl | ht
  · exact UInt64.le_refl _
  · exact List.rel_of_pairwise_cons hsorted ht

/-- The times committed for a type are in order. -/
theorem sorted_timesOf (hsorted : (first :: rest).Pairwise (fun t t' => t.1 ≤ t'.1)) :
    (first.1 :: timesOf ioTypes k (first :: rest)).Pairwise (· ≤ ·) := by
  refine List.pairwise_cons.mpr ⟨?_, List.pairwise_map.mpr (hsorted.filter _)⟩
  intro t ht
  obtain ⟨x, hx, -, rfl⟩ := mem_timesOf.mp ht
  exact first_le hsorted x hx

/-- **With as many reads as writes in each window** every window of a request has one of either type. -/
theorem exists_ofType (htypes : ∀ t ∈ timeSeq, ioTypes[t.2]? = some 0 ∨ ioTypes[t.2]? = some 1)
    (heq : ∀ w, countIn interval first.1 (timesOf ioTypes 0 timeSeq) w =
      countIn interval first.1 (timesOf ioTypes 1 timeSeq) w) (hk : k = 0 ∨ k = 1) :
    ∀ t ∈ timeSeq, ∃ t' ∈ timesOf ioTypes k timeSeq, windowNo interval first.1 t' = windowNo interval first.1 t.1 := by
  intro t ht
  rw [← countIn_pos_iff]
  have hone : 0 < countIn interval first.1 (timesOf ioTypes 0 timeSeq) (windowNo interval first.1 t.1) ∨
      0 < countIn interval first.1 (timesOf ioTypes 1 timeSeq) (windowNo interval first.1 t.1) := by
    rw [countIn_pos_iff, countIn_pos_iff]
    rcases htypes t ht with hread | hwrite
    · exact Or.inl ⟨t.1, mem_timesOf.mpr ⟨t, ht, hread, rfl⟩, rfl⟩
    · exact Or.inr ⟨t.1, mem_timesOf.mpr ⟨t, ht, hwrite, rfl⟩, rfl⟩
  have hsame := heq (windowNo interval first.1 t.1)
  rcases hk with rfl | rfl
  · omega
  · omega

/-- The windows committed for a type are then those of all requests. -/
theorem mem_windows_iff (htypes : ∀ t ∈ first :: rest, ioTypes[t.2]? = some 0 ∨ ioTypes[t.2]? = some 1)
    (heq : ∀ w, countIn interval first.1 (timesOf ioTypes 0 (first :: rest)) w =
      countIn interval first.1 (timesOf ioTypes 1 (first :: rest)) w) (hk : k = 0 ∨ k = 1) (w : Nat) :
    w ∈ (first.1 :: timesOf ioTypes k (first :: rest)).map (windowNo interval first.1) ↔
      w ∈ (first :: rest).map (fun t => windowNo interval first.1 t.1) := by
  constructor
  · intro hw
    obtain ⟨t, ht, rfl⟩ := List.mem_map.mp hw
    rcases List.mem_cons.mp ht with rfl | ht
    · exact List.mem_map.mpr ⟨first, by simp, rfl⟩
    · obtain ⟨x, hx, -, rfl⟩ := mem_timesOf.mp ht
      exact List.mem_map.mpr ⟨x, hx, rfl⟩
  · intro hw
    obtain ⟨t, ht, rfl⟩ := List.mem_map.mp hw
    obtain ⟨t', ht', hsame⟩ := exists_ofType htypes heq hk t ht
    exact List.mem_map.mpr ⟨t', by simp [ht'], hsame⟩

/-- **The sequences of the two types are in range exactly if** the whole sequence is. -/
theorem inRange_iff (hsorted : (first :: rest).Pairwise (fun t t' => t.1 ≤ t'.1))
    (htypes : ∀ t ∈ first :: rest, ioTypes[t.2]? = some 0 ∨ ioTypes[t.2]? = some 1)
    (heq : ∀ w, countIn interval first.1 (timesOf ioTypes 0 (first :: rest)) w =
      countIn interval first.1 (timesOf ioTypes 1 (first :: rest)) w) (hk : k = 0 ∨ k = 1)
    (hintime : ∀ t ∈ first :: rest, windowNo interval first.1 t.1 < 2147483648) :
    InRange interval first.1 (first.1 :: timesOf ioTypes k (first :: rest)) ↔
      interval ≠ 0 ∧ GrowsInTime ((first :: rest).map (fun t => windowNo interval first.1 t.1)) ∧
        ∀ t ∈ first :: rest, windowNo interval first.1 t.1 < windowBound := by
  have hin : ∀ t ∈ first.1 :: timesOf ioTypes k (first :: rest),
      first.1 ≤ t ∧ windowNo interval first.1 t < 2147483648 := by
    intro t ht
    rcases List.mem_cons.mp ht with rfl | ht
    · exact ⟨UInt64.le_refl _, by rw [windowNo_self]; decide⟩
    · obtain ⟨x, hx, -, rfl⟩ := mem_timesOf.mp ht
      exact ⟨first_le hsorted x hx, hintime x hx⟩
  have hsort : ((first :: rest).map (fun t => windowNo interval first.1 t.1)).Pairwise (· ≤ ·) := by
    have h := sorted_windows interval first.1 (List.pairwise_map.mpr hsorted)
    rw [List.map_map] at h
    exact h
  have hgrows := growsInTime_congr (sorted_windows interval first.1 (sorted_timesOf hsorted)) hsort
    (mem_windows_iff htypes heq hk)
  have hbelow : (∀ w ∈ (first.1 :: timesOf ioTypes k (first :: rest)).map (windowNo interval first.1), w < windowBound) ↔
      ∀ t ∈ first :: rest, windowNo interval first.1 t.1 < windowBound := by
    simp only [mem_windows_iff htypes heq hk]
    exact List.forall_mem_map
  rw [← hgrows, ← hbelow, ← timeIndices_eq hin]
  constructor
  · intro h
    exact ⟨h.interval_ne, h.grows, h.below⟩
  · rintro ⟨hI, hgrows, hbelow⟩
    refine ⟨hI, ?_, hgrows, hbelow⟩
    intro t ht
    rw [pmcIndex_eq (hin t ht).1 (hin t ht).2]
    exact Int.natCast_nonneg _

end Types

/-! ## The shares -/

/-- The two rates of a window are the shares of its reads and writes. -/
structure RightIn (reads writes : Nat) (rRate wRate : Option ℚ) : Prop where
  read : rRate = some (shareOf reads writes)
  write : wRate = some (shareOf writes reads)
  sum : 0 < reads + writes → shareOf reads writes + shareOf writes reads = 1

/-- **The shares are right** in every window up to the last one with a request. -/
def SharesRight (ndebug : Bool) (pmc : UInt64) (first : UInt64 × Nat) (rest : List (UInt64 × Nat))
    (ioTypes : List Int) : Prop :=
  ∃ rRate wRate, exactRwRates ndebug pmc (first :: rest) ioTypes = .ok (rRate, wRate) ∧
    ∀ w, (∃ t ∈ first :: rest, w ≤ windowNo (intParam pmc) first.1 t.1) →
      RightIn (countIn (intParam pmc) first.1 (timesOf ioTypes 0 (first :: rest)) w)
        (countIn (intParam pmc) first.1 (timesOf ioTypes 1 (first :: rest)) w) rRate[w]? wRate[w]?

section Shares

variable {ndebug : Bool} {pmc : UInt64} {first : UInt64 × Nat} {rest : List (UInt64 × Nat)} {ioTypes : List Int}

/-- The rates of two arrays of counts. -/
def ratesOf (r w : TimeThroughputPmc) : List (ℚ × ℚ) :=
  List.zipWith (fun rCount wCount => exactRwRate rCount.toNat wCount.toNat) r.pmcData w.pmcData

theorem exactRwRates_eq_ok {rRate wRate : List ℚ}
    (htypes : ∀ t ∈ first :: rest, ioTypes[t.2]? = some 0 ∨ ioTypes[t.2]? = some 1) :
    exactRwRates ndebug pmc (first :: rest) ioTypes = .ok (rRate, wRate) ↔
      ∃ r w, (TimeThroughputPmc.new pmc).commits?
          ((first.1 :: timesOf ioTypes 0 (first :: rest)).map (fun t => (t, 1))) = some r ∧
        (TimeThroughputPmc.new pmc).commits?
          ((first.1 :: timesOf ioTypes 1 (first :: rest)).map (fun t => (t, 1))) = some w ∧
        rRate = (ratesOf r w).map Prod.fst ∧ wRate = (ratesOf r w).map Prod.snd := by
  unfold exactRwRates
  rw [bind_eq_ok]
  constructor
  · rintro ⟨rates, hrates, hok⟩
    obtain ⟨r, w, hr, hw, rfl⟩ := (rwRateWith_eq_ok htypes).mp hrates
    obtain ⟨rfl, rfl⟩ := Prod.mk.inj (Except.ok.inj hok)
    exact ⟨r, w, hr, hw, rfl, rfl⟩
  · rintro ⟨r, w, hr, hw, rfl, rfl⟩
    exact ⟨_, (rwRateWith_eq_ok htypes).mpr ⟨r, w, hr, hw, rfl⟩, rfl⟩

variable {interval start : UInt64} {reads writes : List UInt64} {r w : TimeThroughputPmc}

/-- **The rates of a window**, from the counts with the alignment. -/
theorem getElem?_ratesOf (hr : Counted interval start (start :: reads) r) (hw : Counted interval start (start :: writes) w)
    (hreads : reads.length < 18446744073709551615) (hwrites : writes.length < 18446744073709551615)
    (htimes : ∀ t ∈ reads ++ writes, start ≤ t ∧ windowNo interval start t < 2147483648)
    {i : Nat} (hi : i < r.pmcData.length) (hi' : i < w.pmcData.length) :
    (ratesOf r w)[i]? = some (exactRwRate
      ((countIn interval start reads i + (if i = 0 then 1 else 0) : Nat) : ℚ)
      ((countIn interval start writes i + (if i = 0 then 1 else 0) : Nat) : ℚ)) := by
  have hr' : ∀ t ∈ reads, start ≤ t ∧ windowNo interval start t < 2147483648 :=
    fun t ht => htimes t (List.mem_append_left _ ht)
  have hw' : ∀ t ∈ writes, start ≤ t ∧ windowNo interval start t < 2147483648 :=
    fun t ht => htimes t (List.mem_append_right _ ht)
  rw [ratesOf, List.getElem?_zipWith, hr.count i hi, hw.count i hi']
  show some (exactRwRate ((UInt64.ofNat _).toNat : ℚ) ((UInt64.ofNat _).toNat : ℚ)) = _
  rw [toNat_indexCount (by rw [List.length_cons]; omega), toNat_indexCount (by rw [List.length_cons]; omega),
    indexCount_cons_self, indexCount_cons_self, indexCount_eq hr', indexCount_eq hw']

/-- **A window is right exactly if** it has as many reads as writes, and not one of each unless the alignment
    is added to them. -/
theorem rightIn_iff (hr : Counted interval start (start :: reads) r) (hw : Counted interval start (start :: writes) w)
    (hreads : reads.length < 18446744073709551615) (hwrites : writes.length < 18446744073709551615)
    (htimes : ∀ t ∈ reads ++ writes, start ≤ t ∧ windowNo interval start t < 2147483648)
    {i : Nat} (hi : i < r.pmcData.length) (hi' : i < w.pmcData.length)
    (hfirst : i = 0 → 0 < countIn interval start reads i + countIn interval start writes i) :
    RightIn (countIn interval start reads i) (countIn interval start writes i)
        ((ratesOf r w).map Prod.fst)[i]? ((ratesOf r w).map Prod.snd)[i]? ↔
      countIn interval start reads i = countIn interval start writes i ∧ (i ≠ 0 → countIn interval start reads i ≠ 1) := by
  have hextra : (if i = 0 then 1 else 0) ≤ 1 := by split <;> omega
  have hsome : (if i = 0 then 1 else 0) = 1 → i = 0 := by split <;> simp_all
  have hnone : (if i = 0 then 1 else 0) = 0 ↔ i ≠ 0 := by split <;> simp_all
  have hiff := exactRwRate_eq_iff hextra (fun h => hfirst (hsome h))
  rw [hnone] at hiff
  rw [← hiff, Prod.ext_iff, List.getElem?_map, List.getElem?_map,
    getElem?_ratesOf hr hw hreads hwrites htimes hi hi', Option.map_some, Option.map_some]
  constructor
  · intro h
    exact ⟨Option.some.inj h.read, Option.some.inj h.write⟩
  · rintro ⟨hread, hwrite⟩
    exact ⟨congrArg some hread, congrArg some hwrite, shareOf_add_shareOf⟩

/-- The times of a type are no more than the requests. -/
theorem length_timesOf_lt (ioTypes : List Int) (k : Int) {timeSeq : List (UInt64 × Nat)}
    (hlen : timeSeq.length < 18446744073709551615) : (timesOf ioTypes k timeSeq).length < 18446744073709551615 := by
  rw [timesOf, List.length_map]
  exact Nat.lt_of_le_of_lt (List.length_filter_le _ _) hlen

/-- And, like the requests, not before the first and not too late. -/
theorem inTime_timesOf (hsorted : (first :: rest).Pairwise (fun t t' => t.1 ≤ t'.1))
    (hintime : ∀ t ∈ first :: rest, windowNo interval first.1 t.1 < 2147483648) :
    ∀ t ∈ timesOf ioTypes 0 (first :: rest) ++ timesOf ioTypes 1 (first :: rest),
      first.1 ≤ t ∧ windowNo interval first.1 t < 2147483648 := by
  intro t ht
  rcases List.mem_append.mp ht with ht | ht
  · obtain ⟨x, hx, -, rfl⟩ := mem_timesOf.mp ht
    exact ⟨first_le hsorted x hx, hintime x hx⟩
  · obtain ⟨x, hx, -, rfl⟩ := mem_timesOf.mp ht
    exact ⟨first_le hsorted x hx, hintime x hx⟩

/-- A window that has a request has a read or a write. -/
theorem countIn_pos_of_mem (interval start : UInt64) {timeSeq : List (UInt64 × Nat)} {t : UInt64 × Nat}
    (htypes : ∀ t ∈ timeSeq, ioTypes[t.2]? = some 0 ∨ ioTypes[t.2]? = some 1) (ht : t ∈ timeSeq) :
    0 < countIn interval start (timesOf ioTypes 0 timeSeq) (windowNo interval start t.1) +
      countIn interval start (timesOf ioTypes 1 timeSeq) (windowNo interval start t.1) := by
  rcases htypes t ht with hread | hwrite
  · exact Nat.add_pos_left (countIn_pos_iff.mpr ⟨t.1, mem_timesOf.mpr ⟨t, ht, hread, rfl⟩, rfl⟩) _
  · exact Nat.add_pos_right _ (countIn_pos_iff.mpr ⟨t.1, mem_timesOf.mpr ⟨t, ht, hwrite, rfl⟩, rfl⟩)

/-- The first window always has one. -/
theorem countIn_first_pos (interval : UInt64) (htypes : ∀ t ∈ first :: rest, ioTypes[t.2]? = some 0 ∨ ioTypes[t.2]? = some 1) :
    0 < countIn interval first.1 (timesOf ioTypes 0 (first :: rest)) 0 +
      countIn interval first.1 (timesOf ioTypes 1 (first :: rest)) 0 := by
  have hpos := countIn_pos_of_mem interval first.1 htypes List.mem_cons_self
  rw [windowNo_self] at hpos
  exact hpos

/-- What shares that are right say about the windows. -/
theorem SharesRight.equal (h : SharesRight ndebug pmc first rest ioTypes)
    (hsorted : (first :: rest).Pairwise (fun t t' => t.1 ≤ t'.1))
    (htypes : ∀ t ∈ first :: rest, ioTypes[t.2]? = some 0 ∨ ioTypes[t.2]? = some 1)
    (hlen : (first :: rest).length < 18446744073709551615) :
    (∀ t ∈ first :: rest, windowNo (intParam pmc) first.1 t.1 < 2147483648) ∧
      ∀ i, countIn (intParam pmc) first.1 (timesOf ioTypes 0 (first :: rest)) i =
          countIn (intParam pmc) first.1 (timesOf ioTypes 1 (first :: rest)) i ∧
        (i ≠ 0 → countIn (intParam pmc) first.1 (timesOf ioTypes 0 (first :: rest)) i ≠ 1) := by
  obtain ⟨rRate, wRate, hok, hright⟩ := h
  obtain ⟨r, w, hr, hw, rfl, rfl⟩ := (exactRwRates_eq_ok htypes).mp hok
  have hcr := counted_of_commits? hr
  have hcw := counted_of_commits? hw
  -- every window that is looked at has an entry
  have hinside {i : Nat} (hi : ∃ t ∈ first :: rest, i ≤ windowNo (intParam pmc) first.1 t.1) :
      i < r.pmcData.length ∧ i < w.pmcData.length := by
    have hread := (hright i hi).read
    obtain ⟨hlt, -⟩ := List.getElem?_eq_some_iff.mp hread
    rw [List.length_map, ratesOf, List.length_zipWith] at hlt
    omega
  have hintime : ∀ t ∈ first :: rest, windowNo (intParam pmc) first.1 t.1 < 2147483648 := by
    intro t ht
    have hlt := (hinside ⟨t, ht, Nat.le_refl _⟩).1
    have hle := hcr.length_le
    omega
  refine ⟨hintime, ?_⟩
  intro i
  by_cases hi : ∃ t ∈ first :: rest, i ≤ windowNo (intParam pmc) first.1 t.1
  · obtain ⟨hlt, hlt'⟩ := hinside hi
    refine (rightIn_iff hcr hcw (length_timesOf_lt _ _ hlen) (length_timesOf_lt _ _ hlen) (inTime_timesOf hsorted hintime)
      hlt hlt' ?_).mp (hright i hi)
    rintro rfl
    exact countIn_first_pos (intParam pmc) htypes
  · -- no request is in a later window
    have hnone (k : Int) : countIn (intParam pmc) first.1 (timesOf ioTypes k (first :: rest)) i = 0 := by
      refine Nat.eq_zero_of_not_pos (fun hpos => hi ?_)
      obtain ⟨t, ht, rfl⟩ := countIn_pos_iff.mp hpos
      obtain ⟨x, hx, -, rfl⟩ := mem_timesOf.mp ht
      exact ⟨x, hx, Nat.le_refl _⟩
    rw [hnone, hnone]
    exact ⟨rfl, fun _ => Nat.zero_ne_one⟩

/-- **The shares are right exactly if** every window has as many reads as writes, no window but the first has
    one of each, and the windows fit into the arrays. -/
theorem sharesRight_iff (ndebug : Bool) (pmc : UInt64) (first : UInt64 × Nat) (rest : List (UInt64 × Nat))
    (ioTypes : List Int) (hsorted : (first :: rest).Pairwise (fun t t' => t.1 ≤ t'.1))
    (htypes : ∀ t ∈ first :: rest, ioTypes[t.2]? = some 0 ∨ ioTypes[t.2]? = some 1)
    (hlen : (first :: rest).length < 18446744073709551615) :
    SharesRight ndebug pmc first rest ioTypes ↔
      (intParam pmc ≠ 0 ∧ GrowsInTime ((first :: rest).map (fun t => windowNo (intParam pmc) first.1 t.1)) ∧
        ∀ t ∈ first :: rest, windowNo (intParam pmc) first.1 t.1 < windowBound) ∧
      ∀ w, countIn (intParam pmc) first.1 (timesOf ioTypes 0 (first :: rest)) w =
          countIn (intParam pmc) first.1 (timesOf ioTypes 1 (first :: rest)) w ∧
        (w ≠ 0 → countIn (intParam pmc) first.1 (timesOf ioTypes 0 (first :: rest)) w ≠ 1) := by
  constructor
  · intro h
    obtain ⟨hintime, hequal⟩ := h.equal hsorted htypes hlen
    refine ⟨?_, hequal⟩
    obtain ⟨rRate, wRate, hok, -⟩ := h
    obtain ⟨r, w, hr, -⟩ := (exactRwRates_eq_ok htypes).mp hok
    exact (inRange_iff hsorted htypes (fun w => (hequal w).1) (Or.inl rfl) hintime).mp (exists_commits?_iff.mp ⟨r, hr⟩)
  · rintro ⟨hrange, hequal⟩
    have hbound : windowBound < 2147483648 := by decide
    have hintime : ∀ t ∈ first :: rest, windowNo (intParam pmc) first.1 t.1 < 2147483648 :=
      fun t ht => Nat.lt_trans (hrange.2.2 t ht) hbound
    have hin {k : Int} (hk : k = 0 ∨ k = 1) := (inRange_iff hsorted htypes (fun w => (hequal w).1) hk hintime).mpr hrange
    obtain ⟨r, hr⟩ := exists_commits?_iff.mpr (hin (Or.inl rfl))
    obtain ⟨w, hw⟩ := exists_commits?_iff.mpr (hin (Or.inr rfl))
    have hcr := counted_of_commits? hr
    have hcw := counted_of_commits? hw
    refine ⟨_, _, (exactRwRates_eq_ok htypes).mpr ⟨r, w, hr, hw, rfl, rfl⟩, ?_⟩
    -- the last window has a read and a write, so both arrays have it
    have hinside {k : Int} {c : TimeThroughputPmc} (hk : k = 0 ∨ k = 1)
        (hc : Counted (intParam pmc) first.1 (first.1 :: timesOf ioTypes k (first :: rest)) c) {i : Nat}
        (hi : ∃ t ∈ first :: rest, i ≤ windowNo (intParam pmc) first.1 t.1) : i < c.pmcData.length := by
      obtain ⟨t, ht, hle⟩ := hi
      obtain ⟨t', ht', hsame⟩ := exists_ofType htypes (fun w => (hequal w).1) hk t ht
      obtain ⟨x, hx, -, rfl⟩ := mem_timesOf.mp ht'
      have hlt := hc.index_lt (List.mem_cons_of_mem _ ht')
      rw [pmcIndex_eq (first_le hsorted x hx) (hintime x hx), Int.toNat_natCast] at hlt
      omega
    intro i hi
    refine (rightIn_iff hcr hcw (length_timesOf_lt _ _ hlen) (length_timesOf_lt _ _ hlen) (inTime_timesOf hsorted hintime)
      (hinside (Or.inl rfl) hcr hi) (hinside (Or.inr rfl) hcw hi) ?_).mpr (hequal i)
    rintro rfl
    exact countIn_first_pos (intParam pmc) htypes

/-- Two I/Os. -/
theorem sharesRight_iff_two :
    SharesRight true 10 (3, 0) [(4, 1)] [0, 1] ↔
      (intParam 10 ≠ 0 ∧ GrowsInTime [0, 0] ∧ ∀ t ∈ [((3 : UInt64), 0), (4, 1)], windowNo (intParam 10) 3 t.1 < windowBound) ∧
      ∀ w, countIn (intParam 10) 3 [3] w = countIn (intParam 10) 3 [4] w ∧ (w ≠ 0 → countIn (intParam 10) 3 [3] w ≠ 1) :=
  sharesRight_iff true 10 (3, 0) [(4, 1)] [0, 1] (by simp) (by simp) (by simp)

/-- **Not all shares are right**: two reads and a write in the first window. The rate of the reads is `2 / 5`
    and not `2 / 3`. -/
theorem not_sharesRight_two_reads :
    ¬ ∀ (ndebug : Bool) (pmc : UInt64) (first : UInt64 × Nat) (rest : List (UInt64 × Nat)) (ioTypes : List Int), 1 ≤ pmc →
      (first :: rest).Pairwise (fun t t' => t.1 ≤ t'.1) →
      (∀ t ∈ first :: rest, ioTypes[t.2]? = some 0 ∨ ioTypes[t.2]? = some 1) →
        SharesRight ndebug pmc first rest ioTypes := by
  intro h
  have hsorted : [((0 : UInt64), 0), (1, 1), (2, 2)].Pairwise (fun t t' => t.1 ≤ t'.1) := by decide
  have htypes : ∀ t ∈ [((0 : UInt64), 0), (1, 1), (2, 2)],
      ([0, 0, 1] : List Int)[t.2]? = some 0 ∨ ([0, 0, 1] : List Int)[t.2]? = some 1 := by decide
  obtain ⟨-, hequal⟩ := (h true 10 (0, 0) [(1, 1), (2, 2)] [0, 0, 1] (by decide) hsorted htypes).equal hsorted htypes (by simp)
  have hreads : countIn (intParam 10) 0 (timesOf [0, 0, 1] 0 [(0, 0), (1, 1), (2, 2)]) 0 = 2 := by decide
  have hwrites : countIn (intParam 10) 0 (timesOf [0, 0, 1] 1 [(0, 0), (1, 1), (2, 2)]) 0 = 1 := by decide
  have heq := (hequal 0).1
  rw [hreads, hwrites] at heq
  exact absurd heq (by decide)

end Shares

end StorTrace
