import StorTrace.Collector.Windows

/-!
# `Collector.WindowTotals` — do the windowed collectors add up every sample?

The window array grows by **one** doubling for each sample past its end, so a sample that lies further away
is written outside the array. `totals_exact_iff` says exactly when that does not happen to any sample, and
that the elements are then the sums and averages of their windows.
-/

namespace StorTrace

/-! ## The windows of a sequence -/

/-- The index a collector computes for a sample at `tp`, if its first sample was at `start`. -/
def pmcIndex (interval start tp : UInt64) : Int := toInt ((tp - start) / interval)

/-- The window of a sample: the number of whole intervals since the first sample. -/
def windowNo (interval start tp : UInt64) : Nat := (tp.toNat - start.toNat) / interval.toNat

/-- The index of a sample that is not too late is its window. -/
theorem pmcIndex_eq {interval start tp : UInt64} (hle : start ≤ tp)
    (hlt : windowNo interval start tp < 2147483648) : pmcIndex interval start tp = windowNo interval start tp := by
  have hdiv : ((tp - start) / interval).toNat = windowNo interval start tp := by
    rw [UInt64.toNat_div, UInt64.toNat_sub_of_le _ _ hle]
    rfl
  rw [pmcIndex, toInt_of_lt (by rw [hdiv]; exact hlt), hdiv]

/-- The array can be doubled 26 times. -/
theorem pmcLimit (m : Nat) : 30 * 2 ^ m ≤ intMax.toNat ↔ m ≤ 26 := by
  have hmax : intMax.toNat = 2147483647 := rfl
  constructor
  · intro h
    by_contra hm
    have hpow : 2 ^ 27 ≤ 2 ^ m := Nat.pow_le_pow_right (by decide) (by omega)
    omega
  · intro h
    have hpow : 2 ^ m ≤ 2 ^ 26 := Nat.pow_le_pow_right (by decide) h
    omega

/-- **The array grows in time**: a sample whose window is at least `60 * 2 ^ m` comes after one whose window
    is at least `30 * 2 ^ m`. -/
def GrowsInTime (ks : List Nat) : Prop :=
  Run.AllSteps (fun pre k => ∀ m, 2 * (30 * 2 ^ m) ≤ k → ∃ k' ∈ pre, 30 * 2 ^ m ≤ k') ks

/-- The windows from which on the size of the array is not an `int`. -/
def windowBound : Nat := 30 * 2 ^ 26

/-- **Which windows are all inside an array that is doubled in time.** -/
theorem fitsAll_zero_iff {ks : List Nat} :
    Window.FitsAll 0 intMax.toNat 30 ks ↔ GrowsInTime ks ∧ ∀ k ∈ ks, k < windowBound := by
  rw [Window.fitsAll_iff (M := 26) (by decide) pmcLimit]
  refine and_congr_left (fun _ => ?_)
  exact Run.allSteps_congr (fun _ _ => Window.reached_zero) ks

/-- **Of windows in order** only the set matters. -/
theorem growsInTime_congr {ks ks' : List Nat} (hsort : ks.Pairwise (· ≤ ·)) (hsort' : ks'.Pairwise (· ≤ ·))
    (hmem : ∀ k, k ∈ ks ↔ k ∈ ks') : GrowsInTime ks ↔ GrowsInTime ks' := by
  have hreached (ks : List Nat) : GrowsInTime ks ↔ Run.AllSteps (Window.Reached 0 30) ks :=
    Run.allSteps_congr (fun _ _ => Window.reached_zero.symm) ks
  rw [hreached, hreached, Window.allSteps_reached_zero hsort, Window.allSteps_reached_zero hsort']
  simp only [hmem]

/-! ## Sums and counts -/

/-- The sum of 64-bit values, which wraps as the collectors' additions do. -/
def wrapSum (xs : List UInt64) : UInt64 := xs.foldr (· + ·) 0

@[simp] theorem wrapSum_nil : wrapSum [] = 0 := rfl

@[simp] theorem wrapSum_cons (x : UInt64) (xs : List UInt64) : wrapSum (x :: xs) = x + wrapSum xs := rfl

section Sums

variable {σ : Type} (key : σ → Nat) (value : σ → UInt64)

/-- The samples of window `i`. -/
def inWindow (seq : List σ) (i : Nat) : List σ := seq.filter (fun s => key s = i)

/-- Adding up the samples of a window. -/
theorem total_add (seq : List σ) (i : Nat) (a : UInt64) :
    Window.total (seq.map (fun s => (key s, (· + value s)))) i a =
      a + wrapSum ((inWindow key seq i).map value) := by
  induction seq generalizing a with
  | nil => simp [inWindow]
  | cons s rest ih =>
      rw [List.map_cons, Window.total_cons, ih]
      unfold inWindow
      by_cases hs : key s = i
      · simp [hs, UInt64.add_assoc]
      · simp [hs]

/-- Adding up and counting them. -/
theorem total_avg (seq : List σ) (i : Nat) (aq : UInt64 × Int) :
    Window.total (seq.map (fun s => (key s, TimeAvgPmc.add (value s)))) i aq =
      (aq.1 + wrapSum ((inWindow key seq i).map value), aq.2 + (inWindow key seq i).length) := by
  induction seq generalizing aq with
  | nil => simp [inWindow]
  | cons s rest ih =>
      rw [List.map_cons, Window.total_cons, ih]
      unfold inWindow
      by_cases hs : key s = i
      · simp [hs, TimeAvgPmc.add, UInt64.add_assoc]
        omega
      · simp [hs]

/-- The counts of the samples stay an `int`. -/
theorem okAll_canCount_iff {cells : List (UInt64 × Int)} {seq : List σ}
    (hf : Window.FitsAll 0 intMax.toNat cells.length (seq.map key))
    (hcells : ∀ i, (cells.getD i (0, 0)).2 ≤ intMax) :
    Pmc.OkAll 0 (0, 0) TimeAvgPmc.CanCount cells (seq.map (fun s => (key s, TimeAvgPmc.add (value s)))) ↔
      ∀ i, (cells.getD i (0, 0)).2 + (inWindow key seq i).length ≤ intMax := by
  induction seq generalizing cells with
  | nil =>
      refine iff_of_true trivial ?_
      intro i
      simpa [inWindow] using hcells i
  | cons s rest ih =>
      obtain ⟨hs, hrest⟩ := hf
      have hcell (i : Nat) : ((Window.store 0 (0, 0) cells (key s) (TimeAvgPmc.add (value s))).getD i (0, 0)).2 =
          (cells.getD i (0, 0)).2 + if key s = i then 1 else 0 := by
        rw [Window.getD_store _ hs.2]
        split
        · rfl
        · simp
      have hcount (i : Nat) : ((inWindow key (s :: rest) i).length : Int) =
          (if key s = i then 1 else 0) + (inWindow key rest i).length := by
        unfold inWindow
        by_cases hk : key s = i
        · simp [hk]; omega
        · simp [hk]
      show (cells.getD (key s) (0, 0)).2 < intMax ∧ Pmc.OkAll _ _ _ _ _ ↔ _
      constructor
      · rintro ⟨hlt, hok⟩ i
        have hstep : ∀ i, ((Window.store 0 (0, 0) cells (key s) (TimeAvgPmc.add (value s))).getD i (0, 0)).2 ≤
            intMax := by
          intro i
          rw [hcell]
          have hi := hcells i
          split
          · next hk => subst hk; omega
          · omega
        have h := (ih (by rw [Window.length_store]; exact hrest) hstep).mp hok i
        rw [hcell] at h
        rw [hcount]
        omega
      · intro h
        have hlt : (cells.getD (key s) (0, 0)).2 < intMax := by
          have hk := h (key s)
          rw [hcount, if_pos rfl] at hk
          omega
        have hle (i : Nat) := h i
        simp only [hcount] at hle
        refine ⟨hlt, (ih (by rw [Window.length_store]; exact hrest) ?_).mpr ?_⟩
        · intro i
          rw [hcell]
          have hi := hle i
          omega
        · intro i
          rw [hcell]
          have hi := hle i
          omega

end Sums

/-! ## What a sequence of commits leaves -/

/-- The windows of the samples, as the code indexes them. -/
def pmcIndices {δ : Type} (interval start : UInt64) (seq : List (UInt64 × δ)) : List Nat :=
  seq.map (fun t => (pmcIndex interval start t.1).toNat)

/-- The samples as updates of the array. -/
def pmcUpdates {α δ : Type} (interval start : UInt64) (f : δ → α → α) (seq : List (UInt64 × δ)) :
    List (Nat × (α → α)) :=
  seq.map (fun t => ((pmcIndex interval start t.1).toNat, f t.2))

/-- The array of a new collector. -/
def Pmc.fresh {α : Type} (zero : α) (interval : UInt64) : Pmc α := ⟨List.replicate 30 zero, 30, 0, interval, false⟩

/-- A new array whose first sample was at `start`. -/
def Pmc.alignedAt {α : Type} (zero : α) (interval start : UInt64) : Pmc α :=
  ⟨List.replicate 30 zero, 30, start, interval, true⟩

/-- Every element of a new array is `zero`. -/
theorem getD_replicate {α : Type} (n i : Nat) (zero : α) : (List.replicate n zero).getD i zero = zero := by
  rw [List.getD_eq_getElem?_getD, List.getElem?_replicate]
  split <;> rfl

section Commits

variable {α δ : Type} {zero : α} {ok : α → Prop} [DecidablePred ok] {slack : Nat} {interval : UInt64}
  {f : δ → α → α} {s : UInt64 × δ} {rest : List (UInt64 × δ)}

/-- **Commits to a new array.** -/
theorem Pmc.commits?_fresh {c : Pmc α} :
    (Pmc.fresh zero interval).commits? slack zero ok ((s :: rest).map (fun t => (t.1, f t.2))) = some c ↔
      interval ≠ 0 ∧ (∀ t ∈ s :: rest, 0 ≤ pmcIndex interval s.1 t.1) ∧
        Window.FitsAll slack intMax.toNat 30 (pmcIndices interval s.1 (s :: rest)) ∧
        Pmc.OkAll slack zero ok (List.replicate 30 zero) (pmcUpdates interval s.1 f (s :: rest)) ∧
        c = (Pmc.alignedAt zero interval s.1).stored slack zero (pmcUpdates interval s.1 f (s :: rest)) := by
  have hupdates : (Pmc.alignedAt zero interval s.1).updates ((s :: rest).map (fun t => (t.1, f t.2))) =
      pmcUpdates interval s.1 f (s :: rest) := by
    rw [Pmc.updates, List.map_map]
    rfl
  have hfst : (pmcUpdates interval s.1 f (s :: rest)).map Prod.fst = pmcIndices interval s.1 (s :: rest) := by
    rw [pmcUpdates, List.map_map]
    rfl
  have halign : (Pmc.fresh zero interval).align s.1 = Pmc.alignedAt zero interval s.1 := rfl
  have hlen : (List.replicate 30 zero).length = 30 := List.length_replicate
  rw [List.map_cons, Pmc.commits?_eq_some (by show (30 : Int) = ((List.replicate 30 zero).length : Int); rw [hlen]; rfl),
    ← List.map_cons (f := fun t : UInt64 × δ => (t.1, f t.2)), halign, hupdates, hfst, List.forall_mem_map]
  show _ ∧ _ ∧ Window.FitsAll slack intMax.toNat (List.replicate 30 zero).length _ ∧ _ ↔ _
  rw [hlen]
  exact Iff.rfl

/-- What a class says about a sequence, in terms of the array inside. -/
theorem map_eq_some_of_injective {σ τ : Type} {g : σ → τ} (hg : ∀ {a b}, g a = g b → a = b) {o : Option σ} {a : σ} :
    o = some a ↔ o.map g = some (g a) := by
  constructor
  · rintro rfl
    rfl
  · intro h
    obtain ⟨b, hb, heq⟩ := Option.map_eq_some_iff.mp h
    rw [hb, hg heq]

/-- **Throughput**: commits are defined exactly if no index is negative and every window fits. -/
theorem TimeThroughputPmc.commits?_iff {s : UInt64 × UInt64} {rest : List (UInt64 × UInt64)}
    {c : TimeThroughputPmc} :
    (ofInterval interval).commits? (s :: rest) = some c ↔
      interval ≠ 0 ∧ (∀ t ∈ s :: rest, 0 ≤ pmcIndex interval s.1 t.1) ∧
        Window.FitsAll 0 intMax.toNat 30 (pmcIndices interval s.1 (s :: rest)) ∧
        c.toPmc = (Pmc.alignedAt 0 interval s.1).stored 0 0
          (pmcUpdates interval s.1 (fun d a => a + d) (s :: rest)) := by
  have hfresh : (ofInterval interval).toPmc = Pmc.fresh 0 interval := rfl
  rw [map_eq_some_of_injective toPmc_injective, toPmc_commits?, hfresh, Pmc.commits?_fresh (f := fun d a => a + d)]
  simp only [Pmc.okAll_true, true_and]

/-- **Averages**: the numbers of samples have to stay an `int` as well. -/
theorem TimeAvgPmc.commits?_iff {s : UInt64 × UInt64} {rest : List (UInt64 × UInt64)} {c : TimeAvgPmc} :
    (ofInterval interval).commits? (s :: rest) = some c ↔
      interval ≠ 0 ∧ (∀ t ∈ s :: rest, 0 ≤ pmcIndex interval s.1 t.1) ∧
        Window.FitsAll 0 intMax.toNat 30 (pmcIndices interval s.1 (s :: rest)) ∧
        (∀ i, ((inWindow (fun t => (pmcIndex interval s.1 t.1).toNat) (s :: rest) i).length : Int) ≤ intMax) ∧
        c.toPmc = (Pmc.alignedAt (0, 0) interval s.1).stored 0 (0, 0)
          (pmcUpdates interval s.1 add (s :: rest)) := by
  have hfresh : (ofInterval interval).toPmc = Pmc.fresh (0, 0) interval := rfl
  rw [map_eq_some_of_injective toPmc_injective, toPmc_commits?, hfresh, Pmc.commits?_fresh]
  refine and_congr_right (fun _ => and_congr_right (fun _ => and_congr_right (fun hf => and_congr_left (fun _ => ?_))))
  have hlen : (List.replicate 30 ((0 : UInt64), (0 : Int))).length = 30 := List.length_replicate
  have hcells (i : Nat) : ((List.replicate 30 ((0 : UInt64), (0 : Int))).getD i (0, 0)).2 = 0 := by
    rw [getD_replicate]
  have hfits : Window.FitsAll 0 intMax.toNat (List.replicate 30 ((0 : UInt64), (0 : Int))).length
      ((s :: rest).map (fun t => (pmcIndex interval s.1 t.1).toNat)) := by
    rw [hlen]
    exact hf
  have hle (i : Nat) : ((List.replicate 30 ((0 : UInt64), (0 : Int))).getD i (0, 0)).2 ≤ intMax := by
    rw [hcells]
    show (0 : Int) ≤ 2147483647
    omega
  have hok := okAll_canCount_iff _ Prod.snd hfits hle
  simp only [hcells, zero_add] at hok
  exact hok

end Commits

/-! ## Exactness -/

section Exact

variable (interval : UInt64) (start : UInt64) (seq : List (UInt64 × UInt64))

/-- The sum of the samples of window `i`. -/
def windowSum (i : Nat) : UInt64 :=
  wrapSum ((inWindow (fun s => windowNo interval start s.1) seq i).map Prod.snd)

/-- The number of samples of window `i`. -/
def windowCount (i : Nat) : Nat := (inWindow (fun s => windowNo interval start s.1) seq i).length

/-- **`TimeThroughputPmc` is exact**: no commit writes outside the array, and afterwards each element is the
    sum of its window. -/
def ThroughputExact : Prop :=
  ∃ c, (TimeThroughputPmc.ofInterval interval).commits? seq = some c ∧
    (∀ s ∈ seq, windowNo interval start s.1 < c.pmcData.length) ∧
    ∀ name, ∀ i < c.pmcData.length, (c.getJson name).seqData[i]? = some (windowSum interval start seq i)

/-- **`TimeAvgPmc` is exact**: no commit writes outside the array, and afterwards each average is the sum
    of its window divided by the number of its samples, or `0`. -/
def AverageExact : Prop :=
  ∃ c, (TimeAvgPmc.ofInterval interval).commits? seq = some c ∧
    (∀ s ∈ seq, windowNo interval start s.1 < c.pmcData.length) ∧
    ∀ name, ∀ i < c.pmcData.length, ∃ avg, (c.getJson name).avgs[i]? = some avg ∧
      avg.toNat = if windowCount interval start seq i = 0 then 0
        else (windowSum interval start seq i).toNat / windowCount interval start seq i

end Exact

section Exact

variable {α δ : Type} {zero : α} {slack : Nat} {f : δ → α → α} {interval start : UInt64}

/-- The samples of the claimed kind: none before the first, none too late for an `int`. -/
def InTime (interval start : UInt64) (seq : List (UInt64 × δ)) : Prop :=
  ∀ t ∈ seq, start ≤ t.1 ∧ windowNo interval start t.1 < 2147483648

/-- Their indices are their windows. -/
theorem pmcIndices_eq {seq : List (UInt64 × δ)} (h : InTime interval start seq) :
    pmcIndices interval start seq = seq.map (fun t => windowNo interval start t.1) := by
  refine List.map_congr_left (fun t ht => ?_)
  rw [pmcIndex_eq (h t ht).1 (h t ht).2]
  rfl

theorem pmcUpdates_eq {seq : List (UInt64 × δ)} (h : InTime interval start seq) :
    pmcUpdates interval start f seq = seq.map (fun t => (windowNo interval start t.1, f t.2)) := by
  refine List.map_congr_left (fun t ht => ?_)
  rw [pmcIndex_eq (h t ht).1 (h t ht).2]
  rfl

/-- The indices of such samples are not negative. -/
theorem InTime.index_nonneg {seq : List (UInt64 × δ)} (h : InTime interval start seq) :
    ∀ t ∈ seq, 0 ≤ pmcIndex interval start t.1 := by
  intro t ht
  rw [pmcIndex_eq (h t ht).1 (h t ht).2]
  exact Int.natCast_nonneg _

/-- The updates of a new array fit if the windows do. -/
theorem fitsAll_pmcUpdates {seq : List (UInt64 × δ)}
    (hf : Window.FitsAll slack intMax.toNat 30 (pmcIndices interval start seq)) :
    Window.FitsAll slack intMax.toNat (List.replicate 30 zero).length
      ((pmcUpdates interval start f seq).map Prod.fst) := by
  have hlen : (List.replicate 30 zero).length = 30 := List.length_replicate
  rw [hlen, pmcUpdates, List.map_map]
  exact hf

/-- The array never has more than `INT_MAX` elements. -/
theorem length_stored_le {seq : List (UInt64 × δ)}
    (hf : Window.FitsAll slack intMax.toNat 30 (pmcIndices interval start seq)) :
    ((Pmc.alignedAt zero interval start).stored slack zero (pmcUpdates interval start f seq)).data.length ≤
      2147483647 := by
  have hlen : (List.replicate 30 zero).length ≤ intMax.toNat := by
    rw [List.length_replicate]
    exact (pmcLimit 0).mpr (Nat.zero_le _)
  exact Window.length_run_le (fitsAll_pmcUpdates hf) hlen

/-- The array after commits that were all defined. -/
theorem getD_stored {seq : List (UInt64 × δ)} (h : InTime interval start seq)
    (hf : Window.FitsAll slack intMax.toNat 30 (pmcIndices interval start seq)) (i : Nat) :
    ((Pmc.alignedAt zero interval start).stored slack zero (pmcUpdates interval start f seq)).data.getD i zero =
      Window.total (seq.map (fun t => (windowNo interval start t.1, f t.2))) i zero := by
  show (Window.run slack zero (List.replicate 30 zero) _).getD i zero = _
  rw [Window.getD_run (fitsAll_pmcUpdates hf), getD_replicate, pmcUpdates_eq h]

/-- Every sample has an element of its own window. -/
theorem windowNo_lt_length {seq : List (UInt64 × δ)} (h : InTime interval start seq)
    (hf : Window.FitsAll slack intMax.toNat 30 (pmcIndices interval start seq)) :
    ∀ t ∈ seq, windowNo interval start t.1 <
      ((Pmc.alignedAt zero interval start).stored slack zero (pmcUpdates interval start f seq)).data.length := by
  intro t ht
  have hmem : (windowNo interval start t.1, f t.2) ∈ pmcUpdates interval start f seq := by
    rw [pmcUpdates_eq h]
    exact List.mem_map.mpr ⟨t, ht, rfl⟩
  exact Window.lt_length_run (fitsAll_pmcUpdates hf) _ hmem

variable {s : UInt64 × UInt64} {rest : List (UInt64 × UInt64)}

/-- Throughput is exact exactly if every window fits. -/
theorem throughputExact_iff (hI : interval ≠ 0) (h : InTime interval s.1 (s :: rest)) :
    ThroughputExact interval s.1 (s :: rest) ↔
      Window.FitsAll 0 intMax.toNat 30 (pmcIndices interval s.1 (s :: rest)) := by
  constructor
  · rintro ⟨c, hc, -⟩
    exact (TimeThroughputPmc.commits?_iff.mp hc).2.2.1
  · intro hf
    let p := (Pmc.alignedAt 0 interval s.1).stored 0 0 (pmcUpdates interval s.1 (fun d a => a + d) (s :: rest))
    let c : TimeThroughputPmc := ⟨p.data, p.startTime, p.interval, p.size, p.started⟩
    have hlt : ∀ t ∈ s :: rest, windowNo interval s.1 t.1 < p.data.length := windowNo_lt_length h hf
    refine ⟨c, TimeThroughputPmc.commits?_iff.mpr ⟨hI, h.index_nonneg, hf, rfl⟩, hlt, ?_⟩
    intro _ i hi
    have hget : p.data.getD i 0 = windowSum interval s.1 (s :: rest) i := by
      rw [getD_stored h hf, total_add (fun t : UInt64 × UInt64 => windowNo interval s.1 t.1) Prod.snd]
      exact UInt64.zero_add _
    rw [← hget]
    show p.data[i]? = some (p.data.getD i 0)
    rw [List.getD_eq_getElem _ _ hi, List.getElem?_eq_getElem hi]

/-- Averages are exact exactly if, besides, no window has `2 ^ 31` samples. -/
theorem averageExact_iff (hI : interval ≠ 0) (h : InTime interval s.1 (s :: rest)) :
    AverageExact interval s.1 (s :: rest) ↔
      Window.FitsAll 0 intMax.toNat 30 (pmcIndices interval s.1 (s :: rest)) ∧
        ∀ i, windowCount interval s.1 (s :: rest) i < 2147483648 := by
  have hcount (i : Nat) : inWindow (fun t => (pmcIndex interval s.1 t.1).toNat) (s :: rest) i =
      inWindow (fun t => windowNo interval s.1 t.1) (s :: rest) i := by
    refine List.filter_congr (fun t ht => ?_)
    have hk : (pmcIndex interval s.1 t.1).toNat = windowNo interval s.1 t.1 := by
      rw [pmcIndex_eq (h t ht).1 (h t ht).2]
      exact Int.toNat_natCast _
    show decide ((pmcIndex interval s.1 t.1).toNat = i) = decide (windowNo interval s.1 t.1 = i)
    rw [hk]
  have hmax : intMax = 2147483647 := rfl
  constructor
  · rintro ⟨c, hc, -⟩
    obtain ⟨-, -, hf, hn, -⟩ := TimeAvgPmc.commits?_iff.mp hc
    refine ⟨hf, ?_⟩
    intro i
    have hi := hn i
    rw [hcount, hmax] at hi
    show (inWindow _ _ i).length < 2147483648
    omega
  · rintro ⟨hf, hn⟩
    have hn' (i : Nat) :
        ((inWindow (fun t => (pmcIndex interval s.1 t.1).toNat) (s :: rest) i).length : Int) ≤ intMax := by
      have hi : (inWindow (fun t => windowNo interval s.1 t.1) (s :: rest) i).length < 2147483648 := hn i
      rw [hcount, hmax]
      omega
    let p := (Pmc.alignedAt (0, 0) interval s.1).stored 0 (0, 0) (pmcUpdates interval s.1 TimeAvgPmc.add (s :: rest))
    let c : TimeAvgPmc := ⟨p.data, p.startTime, p.interval, p.size, p.started⟩
    have hlt : ∀ t ∈ s :: rest, windowNo interval s.1 t.1 < p.data.length := windowNo_lt_length h hf
    refine ⟨c, TimeAvgPmc.commits?_iff.mpr ⟨hI, h.index_nonneg, hf, hn', rfl⟩, hlt, ?_⟩
    intro _ i hi
    have hget : p.data.getD i (0, 0) =
        (windowSum interval s.1 (s :: rest) i, (windowCount interval s.1 (s :: rest) i : Int)) := by
      rw [getD_stored h hf, total_avg (fun t : UInt64 × UInt64 => windowNo interval s.1 t.1) Prod.snd]
      simp [windowSum, windowCount]
    have hsome : p.data[i]? = some (p.data.getD i (0, 0)) := by
      rw [List.getD_eq_getElem _ _ hi, List.getElem?_eq_getElem hi]
    refine ⟨TimeAvgPmc.average (windowSum interval s.1 (s :: rest) i, windowCount interval s.1 (s :: rest) i), ?_, ?_⟩
    · show (p.data.map TimeAvgPmc.average)[i]? = _
      rw [List.getElem?_map, hsome, hget, Option.map_some]
    · unfold TimeAvgPmc.average
      by_cases hz : windowCount interval s.1 (s :: rest) i = 0
      · simp [hz]
      · have hcast : ((windowCount interval s.1 (s :: rest) i : Nat) : Int) ≠ 0 := by omega
        rw [if_pos hcast, if_neg hz, UInt64.toNat_div, toNat_ofInt_of_lt (hn i)]

/-- **Both collectors are exact exactly if** the array grows in time, no window is beyond the largest array,
    and no window has `2 ^ 31` samples. -/
theorem totals_exact_iff (interval : UInt64) (s : UInt64 × UInt64) (rest : List (UInt64 × UInt64))
    (hI : 1 ≤ interval) (h : InTime interval s.1 (s :: rest)) :
    (ThroughputExact interval s.1 (s :: rest) ∧ AverageExact interval s.1 (s :: rest)) ↔
      GrowsInTime ((s :: rest).map (fun t => windowNo interval s.1 t.1)) ∧
        (∀ t ∈ s :: rest, windowNo interval s.1 t.1 < windowBound) ∧
        ∀ i, windowCount interval s.1 (s :: rest) i < 2147483648 := by
  have hI' : interval ≠ 0 := by
    rintro rfl
    exact absurd hI (by decide)
  rw [throughputExact_iff hI' h, averageExact_iff hI' h, ← and_assoc, and_self, pmcIndices_eq h, fitsAll_zero_iff,
    List.forall_mem_map, and_assoc]

/-- Two samples of the same window: `(7, 3)` and `(9, 5)` with an interval of `10`. -/
theorem totals_exact_iff_two_samples :
    InTime (δ := UInt64) 10 7 [(7, 3), (9, 5)] ∧
      ((ThroughputExact 10 7 [(7, 3), (9, 5)] ∧ AverageExact 10 7 [(7, 3), (9, 5)]) ↔
        GrowsInTime [0, 0] ∧ (∀ t ∈ [((7 : UInt64), (3 : UInt64)), (9, 5)], windowNo 10 7 t.1 < windowBound) ∧
          ∀ i, windowCount 10 7 [(7, 3), (9, 5)] i < 2147483648) := by
  have h : InTime (δ := UInt64) 10 7 [(7, 3), (9, 5)] := by
    intro t ht
    simp only [List.mem_cons, List.not_mem_nil, or_false] at ht
    rcases ht with rfl | rfl
    · exact ⟨by decide, by decide⟩
    · exact ⟨by decide, by decide⟩
  exact ⟨h, totals_exact_iff 10 (7, 3) [(9, 5)] (by decide) h⟩

/-- **Not every sample is added up**: a second sample sixty intervals after the first is written outside the
    array, which has been doubled to sixty elements. -/
theorem not_throughputExact_gap :
    ¬ ∀ (interval : UInt64) (s : UInt64 × UInt64) (rest : List (UInt64 × UInt64)), 1 ≤ interval →
      InTime interval s.1 (s :: rest) →
        ThroughputExact interval s.1 (s :: rest) ∧ AverageExact interval s.1 (s :: rest) := by
  intro h
  have hin : InTime (δ := UInt64) 1 0 [(0, 1), (60, 1)] := by
    intro t ht
    simp only [List.mem_cons, List.not_mem_nil, or_false] at ht
    rcases ht with rfl | rfl
    · exact ⟨by decide, by decide⟩
    · exact ⟨by decide, by decide⟩
  obtain ⟨⟨c, hc, -⟩, -⟩ := h 1 (0, 1) [(60, 1)] (by decide) hin
  have hnone : (TimeThroughputPmc.ofInterval 1).commits? [(0, 1), (60, 1)] = none := by decide
  rw [hnone] at hc
  cases hc

end Exact

end StorTrace
