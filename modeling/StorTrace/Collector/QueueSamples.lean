import StorTrace.Collector.HctxState
import StorTrace.Collector.WindowTotals

/-!
# `Collector.QueueSamples` — does `HctxState` keep the last sample of every window?

The growth test of `HctxState::commit` is off by one: an index that is equal to the size of the array does
not enlarge it and is written outside. `keepsLast_iff` says exactly which sequences of samples, in the order
of their times, are all written inside.
-/

namespace StorTrace

open Ext4Dio

/-! ## The array inside `HctxState` -/

namespace HctxState

def toPmc (c : HctxState) : Pmc (UInt64 × UInt64) := ⟨c.pmcData, c.pmcSize, c.startTime, c.interval, c.started⟩

theorem toPmc_align (c : HctxState) (data : HctxMetadata) : (c.align data).toPmc = c.toPmc.align data.tp := by
  unfold align
  cases hs : c.started with
  | true => simp [toPmc, Pmc.align, hs]
  | false => simp [toPmc, Pmc.align, hs]

/-- The time of a record and the pair it stores. -/
def sample (data : HctxMetadata) : UInt64 × (UInt64 × UInt64) := (data.tp, (data.runed, data.queued))

/-- A sample replaces its element. -/
def replace (pair : UInt64 × UInt64) (_ : UInt64 × UInt64) : UInt64 × UInt64 := pair

/-- `commit` is that of the array inside. -/
theorem toPmc_commit? (c : HctxState) (data : HctxMetadata) :
    (c.commit? data).map toPmc =
      c.toPmc.commit? 1 (0, 0) (fun _ => True) data.tp (replace (data.runed, data.queued)) := by
  unfold commit? Pmc.commit?
  rw [← toPmc_align]
  simp only [and_true]
  rw [apply_ite (Option.map toPmc)]
  rfl

/-- So are the commits of a sequence. -/
theorem toPmc_commits? (c : HctxState) (recs : List HctxMetadata) :
    (c.commits? recs).map toPmc =
      c.toPmc.commits? 1 (0, 0) (fun _ => True) ((recs.map sample).map (fun t => (t.1, replace t.2))) := by
  rw [List.map_map]
  exact foldlM_map toPmc _ toPmc_commit? c recs

end HctxState

/-! ## The last sample of a window -/

/-- Replacing the element by each sample of a window leaves the last one. -/
theorem total_replace {σ : Type} (key : σ → Nat) (value : σ → UInt64 × UInt64) (seq : List σ) (i : Nat)
    (a : UInt64 × UInt64) :
    Window.total (seq.map (fun s => (key s, HctxState.replace (value s)))) i a =
      (((inWindow key seq i).getLast?).map value).getD a := by
  induction seq generalizing a with
  | nil => simp [inWindow]
  | cons s rest ih =>
      rw [List.map_cons, Window.total_cons, ih]
      unfold inWindow
      by_cases hs : key s = i
      · simp only [hs, if_true, HctxState.replace, decide_true, List.filter_cons_of_pos]
        rw [List.getLast?_cons]
        cases (rest.filter (fun s => key s = i)).getLast? <;> rfl
      · simp [hs]

/-- **Which windows, in order, are all inside an array whose growth test is off by one.** -/
theorem fitsAll_one_iff {ks : List Nat} (hsort : ks.Pairwise (· ≤ ·)) :
    Window.FitsAll 1 intMax.toNat 30 ks ↔
      GrowsInTime ks ∧ (∀ k ∈ ks, ∀ m, k ≠ 30 * 2 ^ m) ∧ ∀ k ∈ ks, k < windowBound := by
  rw [Window.fitsAll_iff (M := 26) (by decide) pmcLimit, Window.allSteps_reached_one hsort, and_assoc]
  exact and_congr_left (fun _ => Run.allSteps_congr (fun _ _ => Window.reached_zero) ks)

section KeepsLast

variable (interval hctx : UInt64) (recs : List HctxMetadata)

/-- The time of the first record. -/
def firstTp : UInt64 := ((recs.head?).map HctxMetadata.tp).getD 0

/-- The windows of the records. -/
def hctxWindows : List Nat := recs.map (fun r => windowNo interval (firstTp recs) r.tp)

/-- The pair of the last record in window `i`, or zeros. -/
def lastPair (i : Nat) : UInt64 × UInt64 :=
  (((inWindow (fun r => windowNo interval (firstTp recs) r.tp) recs i).getLast?).map
    (fun r => (r.runed, r.queued))).getD (0, 0)

/-- **`HctxState` keeps the last sample of every window**: no commit writes outside the array, every record
    has an element of its own window, and afterwards each element is the last pair of its window. -/
def KeepsLast : Prop :=
  ∃ c, (HctxState.ofInterval interval hctx).commits? recs = some c ∧
    (∀ k ∈ hctxWindows interval recs, k < c.pmcData.length) ∧
    ∀ i < c.pmcData.length, c.pmcData[i]? = some (lastPair interval recs i)

end KeepsLast

section KeepsLast

variable {interval hctx : UInt64} {r : HctxMetadata} {rest : List HctxMetadata}

/-- **Commits to a new collector** are defined exactly if no index is negative and every window fits. -/
theorem HctxState.exists_commits?_iff {p : Pmc (UInt64 × UInt64)} :
    (∃ c, (ofInterval interval hctx).commits? (r :: rest) = some c ∧ c.toPmc = p) ↔
      interval ≠ 0 ∧ (∀ t ∈ (r :: rest).map sample, 0 ≤ pmcIndex interval r.tp t.1) ∧
        Window.FitsAll 1 intMax.toNat 30 (pmcIndices interval r.tp ((r :: rest).map sample)) ∧
        p = (Pmc.alignedAt (0, 0) interval r.tp).stored 1 (0, 0)
          (pmcUpdates interval r.tp replace ((r :: rest).map sample)) := by
  have hfresh : (ofInterval interval hctx).toPmc = Pmc.fresh (0, 0) interval := rfl
  have hfirst : (sample r).1 = r.tp := rfl
  rw [← Option.map_eq_some_iff, toPmc_commits?, hfresh, List.map_cons, Pmc.commits?_fresh, hfirst]
  simp only [Pmc.okAll_true, true_and]

/-- The windows of the records are those of their samples. -/
theorem hctxWindows_cons :
    hctxWindows interval (r :: rest) =
      ((r :: rest).map HctxState.sample).map (fun t => windowNo interval r.tp t.1) := by
  rw [List.map_map]
  rfl

/-- Times in order give windows in order. -/
theorem pairwise_hctxWindows (hsort : (r :: rest).Pairwise (fun a b => a.tp ≤ b.tp)) :
    (hctxWindows interval (r :: rest)).Pairwise (· ≤ ·) := by
  rw [hctxWindows, List.pairwise_map]
  refine hsort.imp ?_
  intro a b hab
  have hab' : a.tp.toNat ≤ b.tp.toNat := UInt64.le_iff_toNat_le.mp hab
  exact Nat.div_le_div_right (by omega)

/-- The records of an ordered sequence come after its first one. -/
theorem le_tp_of_pairwise (hsort : (r :: rest).Pairwise (fun a b => a.tp ≤ b.tp)) :
    ∀ a ∈ r :: rest, r.tp ≤ a.tp := by
  intro a ha
  rcases List.mem_cons.mp ha with rfl | ha
  · exact UInt64.le_refl _
  · exact (List.pairwise_cons.mp hsort).1 a ha

/-- Records in order whose windows are small are samples of the kind `InTime`. -/
theorem inTime_of_windows (hsort : (r :: rest).Pairwise (fun a b => a.tp ≤ b.tp))
    (hlt : ∀ k ∈ hctxWindows interval (r :: rest), k < 2147483648) :
    InTime interval r.tp ((r :: rest).map HctxState.sample) := by
  intro t ht
  obtain ⟨a, ha, rfl⟩ := List.mem_map.mp ht
  exact ⟨le_tp_of_pairwise hsort a ha, hlt _ (List.mem_map.mpr ⟨a, ha, rfl⟩)⟩

/-- **The last samples are kept exactly if** the array grows in time, no window is `30`, `60`, `120` and so
    on, and none is beyond the largest array. -/
theorem keepsLast_iff (interval hctx : UInt64) (recs : List HctxMetadata) (hI : 1 ≤ interval)
    (hsort : recs.Pairwise (fun a b => a.tp ≤ b.tp)) :
    KeepsLast interval hctx recs ↔
      GrowsInTime (hctxWindows interval recs) ∧ (∀ k ∈ hctxWindows interval recs, ∀ m, k ≠ 30 * 2 ^ m) ∧
        ∀ k ∈ hctxWindows interval recs, k < windowBound := by
  have hI' : interval ≠ 0 := by
    rintro rfl
    exact absurd hI (by decide)
  cases recs with
  | nil =>
      refine iff_of_true ⟨_, rfl, by simp [hctxWindows], ?_⟩ ⟨Run.allSteps_nil _, by simp [hctxWindows], by simp [hctxWindows]⟩
      intro i hi
      exact (List.getElem?_eq_getElem hi).trans (congrArg some (List.getElem_replicate _))
  | cons r rest =>
      have hpair : (hctxWindows interval (r :: rest)).Pairwise (· ≤ ·) := pairwise_hctxWindows hsort
      have hfits := fitsAll_one_iff hpair
      rw [← hfits]
      constructor
      · rintro ⟨c, hc, hlt, -⟩
        obtain ⟨-, -, hf, hp⟩ := HctxState.exists_commits?_iff.mp ⟨c, hc, rfl⟩
        -- the array has at most `INT_MAX` elements, so every window is small
        have hlen : (c.toPmc).data.length ≤ 2147483647 := by
          rw [hp]
          exact length_stored_le hf
        have hin := inTime_of_windows hsort (fun k hk => Nat.lt_of_lt_of_le (hlt k hk) (Nat.le_succ_of_le hlen))
        rw [hctxWindows_cons, ← pmcIndices_eq hin]
        exact hf
      · intro hf
        have hsmall (k : Nat) (hk : k ∈ hctxWindows interval (r :: rest)) : k < 2147483648 :=
          Nat.lt_trans ((hfits.mp hf).2.2 k hk) (by decide)
        have hin := inTime_of_windows hsort hsmall
        have hf' : Window.FitsAll 1 intMax.toNat 30 (pmcIndices interval r.tp ((r :: rest).map HctxState.sample)) := by
          rw [pmcIndices_eq hin, ← hctxWindows_cons]
          exact hf
        obtain ⟨c, hc, hp⟩ := HctxState.exists_commits?_iff.mpr ⟨hI', hin.index_nonneg, hf', rfl⟩
        have hdata : c.pmcData = (c.toPmc).data := rfl
        refine ⟨c, hc, ?_, ?_⟩
        · intro k hk
          obtain ⟨a, ha, rfl⟩ := List.mem_map.mp hk
          rw [hdata, hp]
          exact windowNo_lt_length hin hf' _ (List.mem_map.mpr ⟨a, ha, rfl⟩)
        · intro i hi
          have hget : c.pmcData.getD i (0, 0) = lastPair interval (r :: rest) i := by
            rw [hdata, hp]
            rw [getD_stored hin hf', List.map_map]
            exact total_replace _ _ (r :: rest) i (0, 0)
          rw [← hget, List.getD_eq_getElem _ _ hi, List.getElem?_eq_getElem hi]

/-- A record of queue `hctxPtr` at `tp`, with `runed` as given. -/
def sampleAt (hctxPtr tp runed : UInt64) : HctxMetadata := ⟨hctxPtr, tp, runed, 0, 0, 0, .zero 32⟩

/-- Two records in the first window. -/
theorem keepsLast_iff_two_records :
    KeepsLast 10 1 [sampleAt 1 5 7, sampleAt 1 6 8] ↔
      GrowsInTime [0, 0] ∧ (∀ k ∈ [0, 0], ∀ m, k ≠ 30 * 2 ^ m) ∧ ∀ k ∈ [0, 0], k < windowBound :=
  keepsLast_iff 10 1 [sampleAt 1 5 7, sampleAt 1 6 8] (by decide)
    (List.pairwise_pair.mpr (by decide))

/-- **Not every sequence is kept**: a second record thirty intervals after the first is written behind the
    last element, without any gap being too long. -/
theorem not_keepsLast_thirty :
    ¬ ∀ (interval hctx : UInt64) (recs : List HctxMetadata), 1 ≤ interval →
      recs.Pairwise (fun a b => a.tp ≤ b.tp) → KeepsLast interval hctx recs := by
  intro h
  obtain ⟨c, hc, -⟩ := h 1 1 [sampleAt 1 0 7, sampleAt 1 30 8] (by decide) (List.pairwise_pair.mpr (by decide))
  have hnone : (HctxState.ofInterval 1 1).commits? [sampleAt 1 0 7, sampleAt 1 30 8] = none := by decide
  rw [hnone] at hc
  cases hc

end KeepsLast

end StorTrace
