import StorTrace.Collector.Statistics
import StorTrace.Collector.WindowTotals

/-!
# `Collector.Throughput` — times counted in windows

The rates of the block report count times: each is committed to a `TimeThroughputPmc` as the sample `1`. What
a collector of times holds is the number of times in each window (`Counted`), and how many windows it has
depends on the times alone.
-/

namespace StorTrace

/-- The windows of times, as the code indexes them. -/
def timeIndices (interval start : UInt64) (times : List UInt64) : List Nat :=
  times.map (fun t => (pmcIndex interval start t).toNat)

/-- **The times can be committed**: no index is negative, the array grows in time, and its size stays an
    `int`. -/
structure InRange (interval start : UInt64) (times : List UInt64) : Prop where
  interval_ne : interval ≠ 0
  nonneg : ∀ t ∈ times, 0 ≤ pmcIndex interval start t
  grows : GrowsInTime (timeIndices interval start times)
  below : ∀ k ∈ timeIndices interval start times, k < windowBound

/-- The number of times with the index `i`. -/
def indexCount (interval start : UInt64) (times : List UInt64) (i : Nat) : Nat :=
  (times.filter (fun t => pmcIndex interval start t = i)).length

/-- **What a collector of times holds.** -/
structure Counted (interval start : UInt64) (times : List UInt64) (c : TimeThroughputPmc) : Prop where
  capacity : ∃ n, Window.CapacityAfter 0 30 (timeIndices interval start times) c.pmcData.length n
  length_le : c.pmcData.length ≤ 2147483647
  count : ∀ i < c.pmcData.length, c.pmcData[i]? = some (UInt64.ofNat (indexCount interval start times i))

/-- The index of the first time. -/
theorem pmcIndex_self (interval start : UInt64) : pmcIndex interval start start = 0 := by
  rw [pmcIndex, UInt64.sub_self, UInt64.zero_div]
  rfl

/-- The times with the alignment in front. -/
theorem indexCount_cons_self (interval start : UInt64) (times : List UInt64) (w : Nat) :
    indexCount interval start (start :: times) w = indexCount interval start times w + if w = 0 then 1 else 0 := by
  unfold indexCount
  rw [List.filter_cons, pmcIndex_self]
  by_cases hw : w = 0
  · simp [hw]
  · have hw' : ¬ (0 : Int) = w := by omega
    simp [hw, hw']

section Times

variable {interval start : UInt64} {times : List UInt64} {c c' : TimeThroughputPmc}

/-- A loop of `commit`s of times. -/
theorem foldlM_commitDlog_eq_ok (ndebug : Bool) : times.foldlM (fun c t => c.commitDlog ndebug t 1) c = .ok c' ↔
    c.commits? (times.map (fun t => (t, 1))) = some c' := by
  induction times generalizing c with
  | nil =>
      show Except.ok c = .ok c' ↔ some c = some c'
      simp
  | cons t rest ih =>
      rw [List.foldlM_cons, bind_eq_ok]
      show _ ↔ (c.commit? t 1).bind (fun c => c.commits? (rest.map (fun t => (t, 1)))) = some c'
      rw [Option.bind_eq_some_iff]
      refine exists_congr (fun c₁ => and_congr ?_ ih)
      unfold TimeThroughputPmc.commitDlog
      cases c.commit? t 1 with
      | none => simp
      | some c₂ => simp

/-- The sum of ones. -/
theorem wrapSum_one {σ : Type} (seq : List σ) : wrapSum (seq.map (fun _ => 1)) = UInt64.ofNat seq.length := by
  induction seq with
  | nil => rfl
  | cons s rest ih =>
      rw [List.map_cons, wrapSum_cons, ih, List.length_cons, UInt64.ofNat_add, UInt64.add_comm]
      rfl

/-- The windows of times are those of the samples committed for them. -/
theorem pmcIndices_times (times : List UInt64) :
    pmcIndices interval start (times.map (fun t => (t, (1 : UInt64)))) = timeIndices interval start times := by
  rw [pmcIndices, List.map_map]
  rfl

variable {rest : List UInt64}

/-- **Commits of times are defined exactly if** the times are in range. -/
theorem exists_commits?_iff :
    (∃ c, (TimeThroughputPmc.ofInterval interval).commits? ((start :: rest).map (fun t => (t, 1))) = some c) ↔
      InRange interval start (start :: rest) := by
  simp only [List.map_cons, TimeThroughputPmc.commits?_iff]
  rw [← List.map_cons (f := fun t : UInt64 => (t, (1 : UInt64))), pmcIndices_times, fitsAll_zero_iff, List.forall_mem_map]
  constructor
  · rintro ⟨c, hI, hnonneg, ⟨hgrows, hbelow⟩, -⟩
    exact ⟨hI, hnonneg, hgrows, hbelow⟩
  · rintro ⟨hI, hnonneg, hgrows, hbelow⟩
    let p := (Pmc.alignedAt 0 interval start).stored 0 0
      (pmcUpdates interval start (fun d a => a + d) ((start :: rest).map (fun t => (t, (1 : UInt64)))))
    exact ⟨⟨p.data, p.startTime, p.interval, p.size, p.started⟩, hI, hnonneg, ⟨hgrows, hbelow⟩, rfl⟩

/-- **And leave the times counted.** -/
theorem counted_of_commits?
    (h : (TimeThroughputPmc.ofInterval interval).commits? ((start :: rest).map (fun t => (t, 1))) = some c) :
    Counted interval start (start :: rest) c := by
  obtain ⟨-, hnonneg, hfits, hc⟩ := TimeThroughputPmc.commits?_iff.mp h
  have hnew : (List.replicate 30 (0 : UInt64)).length = 30 := List.length_replicate
  generalize hus : pmcUpdates interval start (fun d a => a + d) ((start, 1) :: rest.map (fun t => (t, (1 : UInt64)))) = us
    at hc
  have hkeys : us.map Prod.fst = timeIndices interval start (start :: rest) := by
    rw [← hus, pmcUpdates, List.map_map, ← pmcIndices_times]
    rfl
  have hfits' : Window.FitsAll 0 intMax.toNat (List.replicate 30 (0 : UInt64)).length (us.map Prod.fst) := by
    rw [← hus]
    exact fitsAll_pmcUpdates hfits
  have hdata : c.pmcData = Window.run 0 0 (List.replicate 30 0) us := congrArg Pmc.data hc
  refine ⟨?_, ?_, ?_⟩
  · have hfresh : Window.CapacityAfter 0 30 [] (List.replicate 30 (0 : UInt64)).length 0 := by
      rw [hnew]
      exact .nil 0 30
    obtain ⟨n, hcap⟩ := hfresh.run hfits'
    rw [List.nil_append, hkeys, ← hdata] at hcap
    exact ⟨n, hcap⟩
  · rw [hdata]
    exact Window.length_run_le hfits' (by rw [hnew]; exact (pmcLimit 0).mpr (Nat.zero_le _))
  · intro i hi
    have hget : c.pmcData.getD i 0 = UInt64.ofNat (indexCount interval start (start :: rest) i) := by
      rw [hdata, Window.getD_run hfits', getD_replicate, ← hus, pmcUpdates,
        total_add (fun t : UInt64 × UInt64 => (pmcIndex interval start t.1).toNat) Prod.snd,
        ← List.map_cons (f := fun t : UInt64 => (t, (1 : UInt64))), inWindow, List.filter_map, List.map_map,
        UInt64.zero_add, indexCount]
      show wrapSum (((start :: rest).filter (fun t => (pmcIndex interval start t).toNat = i)).map (fun _ => 1)) = _
      have hindex : (start :: rest).filter (fun t => (pmcIndex interval start t).toNat = i) =
          (start :: rest).filter (fun t => pmcIndex interval start t = i) := by
        refine List.filter_congr (fun t ht => ?_)
        have hmem : (t, (1 : UInt64)) ∈ (start :: rest).map (fun t => (t, 1)) := List.mem_map.mpr ⟨t, ht, rfl⟩
        have hle : 0 ≤ pmcIndex interval start t := hnonneg (t, 1) hmem
        rw [decide_eq_decide]
        omega
      rw [wrapSum_one, hindex]
    rw [← hget, List.getD_eq_getElem _ _ hi, List.getElem?_eq_getElem hi]

/-- Every time has an element. -/
theorem Counted.index_lt (h : Counted interval start times c) {t : UInt64} (ht : t ∈ times) :
    (pmcIndex interval start t).toNat < c.pmcData.length := by
  obtain ⟨n, hcap⟩ := h.capacity
  exact hcap.lt_cap _ (List.mem_map.mpr ⟨t, ht, rfl⟩)

/-- A window that the array does not have has no times. -/
theorem Counted.count_eq_zero (h : Counted interval start times c) {w : Nat} (hw : c.pmcData.length ≤ w) :
    indexCount interval start times w = 0 := by
  rw [indexCount, List.length_eq_zero_iff, List.filter_eq_nil_iff]
  intro t ht heq
  have hlt := h.index_lt ht
  have hw' : pmcIndex interval start t = w := of_decide_eq_true heq
  rw [hw'] at hlt
  omega

/-- No count wraps. -/
theorem toNat_indexCount (hlen : times.length < 18446744073709551616) (w : Nat) :
    (UInt64.ofNat (indexCount interval start times w)).toNat = indexCount interval start times w := by
  have hle : indexCount interval start times w ≤ times.length := List.length_filter_le _ _
  rw [UInt64.toNat_ofNat']
  exact Nat.mod_eq_of_lt (by omega)

end Times

end StorTrace
