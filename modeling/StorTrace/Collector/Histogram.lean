import StorTrace.Collector.Statistics
import StorTrace.Lib.Buckets

/-!
# `Collector.Histogram` — does a distribution count every sample once?

`get_dis` cuts the range of the samples into a hundred buckets and puts what is left over into one more. The
width of a bucket is rounded down, so the raw index may be as large as `199`; it never is larger.

The loop over the samples and the counters are `int`s. Up to `2 ^ 31 - 1` samples they do not overflow, and the
run is `getDis` (`getDisRun_eq`); one sample more and the loop does.
-/

namespace StorTrace

/-! ## Extremes -/

variable {latency : List UInt64}

/-- `max_v` is the largest sample. -/
theorem maxOf_spec (hne : latency ≠ []) : maxOf latency ∈ latency ∧ ∀ v ∈ latency, v ≤ maxOf latency := by
  obtain ⟨-, hall, hzero | hmem⟩ := Buckets.largest_spec 0 latency
  · obtain ⟨v, hv⟩ := List.exists_mem_of_ne_nil latency hne
    have hle : v ≤ maxOf latency := hall v hv
    have hv0 : maxOf latency = v := by
      refine UInt64.le_antisymm ?_ hle
      show Buckets.best (· > ·) 0 latency ≤ v
      rw [hzero]
      exact UInt64.zero_le
    exact ⟨hv0 ▸ hv, hall⟩
  · exact ⟨hmem, hall⟩

/-- `min_v` is the smallest one, if none is above `INT64_MAX`. -/
theorem minOf_spec (hne : latency ≠ []) (hlt : ∀ v ∈ latency, v.toNat < 9223372036854775808) :
    minOf latency ∈ latency ∧ ∀ v ∈ latency, minOf latency ≤ v := by
  obtain ⟨-, hall, hinit | hmem⟩ := Buckets.smallest_spec 0x7fffffffffffffff latency
  · obtain ⟨v, hv⟩ := List.exists_mem_of_ne_nil latency hne
    have hle : minOf latency ≤ v := hall v hv
    have hv0 : v ≤ minOf latency := by
      show v ≤ Buckets.best (· < ·) 0x7fffffffffffffff latency
      rw [hinit, UInt64.le_iff_toNat_le]
      exact Nat.le_of_lt_succ (hlt v hv)
    have heq : v = minOf latency := UInt64.le_antisymm hv0 hle
    exact ⟨heq ▸ hv, hall⟩
  · exact ⟨hmem, hall⟩

/-! ## The index of a sample -/

variable {maxV minV v : UInt64}

/-- The width of a bucket is a hundredth of the range, but not `0`. -/
theorem toNat_disStep (hle : minV ≤ maxV) :
    (disStep maxV minV).toNat = max 1 ((maxV.toNat - minV.toNat) / 100) := by
  have hdiv : ((maxV - minV) / 100).toNat = (maxV.toNat - minV.toNat) / 100 := by
    rw [UInt64.toNat_div, UInt64.toNat_sub_of_le _ _ hle]
    rfl
  show (if (maxV - minV) / 100 = 0 then 1 else (maxV - minV) / 100).toNat = _
  split
  · next hzero =>
    rw [← hdiv, hzero]
    rfl
  · next hzero =>
    have hne : ((maxV - minV) / 100).toNat ≠ 0 := fun h => hzero (UInt64.toNat_inj.mp h)
    rw [← hdiv]
    omega

/-- **The raw index of a sample is at most `199`.** -/
theorem rawIndex_le {lo hi x : Nat} (hlo : lo ≤ x) (hhi : x ≤ hi) : (x - lo) / max 1 ((hi - lo) / 100) ≤ 199 := by
  have hpos : 0 < max 1 ((hi - lo) / 100) := by omega
  have hlt : x - lo < 200 * max 1 ((hi - lo) / 100) := by omega
  exact Nat.le_of_lt_succ (Nat.div_lt_of_lt_mul (by rw [Nat.mul_comm]; exact hlt))

/-- The index of a sample: the conversion to an `int` changes nothing. -/
theorem disIndex_eq (hmin : minV ≤ v) (hmax : v ≤ maxV) :
    toInt ((v - minV) / disStep maxV minV) = ((v.toNat - minV.toNat) / (disStep maxV minV).toNat : Nat) ∧
      disIndex minV (disStep maxV minV) v =
        (min 100 ((v.toNat - minV.toNat) / (disStep maxV minV).toNat) : Nat) := by
  have hstep := toNat_disStep (UInt64.le_trans hmin hmax)
  have hraw : (v.toNat - minV.toNat) / (disStep maxV minV).toNat ≤ 199 := by
    rw [hstep]
    exact rawIndex_le (UInt64.le_iff_toNat_le.mp hmin) (UInt64.le_iff_toNat_le.mp hmax)
  have hdiv : ((v - minV) / disStep maxV minV).toNat = (v.toNat - minV.toNat) / (disStep maxV minV).toNat := by
    rw [UInt64.toNat_div, UInt64.toNat_sub_of_le _ _ hmin]
  have hint : toInt ((v - minV) / disStep maxV minV) = ((v.toNat - minV.toNat) / (disStep maxV minV).toNat : Nat) := by
    rw [toInt_of_lt (by rw [hdiv]; omega), hdiv]
  refine ⟨hint, ?_⟩
  rw [disIndex, hint]
  generalize (v.toNat - minV.toNat) / (disStep maxV minV).toNat = k
  show (if (k : Int) ≥ 100 then 100 else (k : Int)) = _
  split <;> omega

/-! ## The buckets -/

/-- Samples whose indices are all inside are counted in their buckets. -/
theorem foldlM_bump (index : UInt64 → Int) (key : UInt64 → Nat) {n : Nat} (seq : List UInt64)
    (hindex : ∀ v ∈ seq, index v = key v ∧ key v < n) :
    seq.foldlM (fun bucket v => bump bucket (index v)) (List.replicate n 0) =
      .ok (Buckets.filled key (fun _ => 1) n seq) := by
  rw [← Buckets.filled_nil key (fun _ => 1)]
  refine Buckets.foldlM_filled key (fun _ => 1) seq [] ?_
  intro before v after hsplit
  obtain ⟨hv, hlt⟩ := hindex v (by rw [← List.nil_append seq, hsplit]; simp)
  have hin : 0 ≤ index v ∧ index v < (Buckets.filled key (fun _ => 1) n before).length := by
    rw [hv, Buckets.length_filled]
    omega
  have hmodify := Buckets.modify_filled key (fun _ => 1) n before v
  rw [bump, if_pos hin, hv, Int.toNat_natCast]
  exact congrArg Except.ok hmodify

/-- The bucket of a sample. -/
def disBucket (maxV minV v : UInt64) : Nat := min 100 ((v.toNat - minV.toNat) / (disStep maxV minV).toNat)

/-- What `get_dis` returns. -/
theorem getDis_eq (disName : String) (hmin : ∀ v ∈ latency, minOf latency ≤ v) (hmax : ∀ v ∈ latency, v ≤ maxOf latency) :
    getDis disName latency = .ok ⟨disName, maxOf latency, minOf latency,
      Buckets.filled (disBucket (maxOf latency) (minOf latency)) (fun _ => 1) 101 latency⟩ := by
  have hfold := foldlM_bump (disIndex (minOf latency) (disStep (maxOf latency) (minOf latency)))
    (disBucket (maxOf latency) (minOf latency)) (n := 101) latency
    (fun v hv => ⟨(disIndex_eq (hmin v hv) (hmax v hv)).2, Nat.lt_succ_of_le (Nat.min_le_left _ _)⟩)
  unfold getDis
  simp only [hfold]
  rfl

/-- The samples of a bucket, counted. -/
theorem weightIn_one (key : UInt64 → Nat) (b : Nat) :
    Buckets.weightIn key (fun _ => 1) latency b = (latency.filter (fun v => key v = b)).length := by
  simp [Buckets.weightIn]

/-- **Every sample is counted once**, in the bucket of its value. No counter exceeds the number of samples, so
    it is an `int` if that number is. -/
structure CountsOnce (latency : List UInt64) (json : DisJson) : Prop where
  min_mem : json.minValue ∈ latency
  min_le : ∀ v ∈ latency, json.minValue ≤ v
  max_mem : json.maxValue ∈ latency
  le_max : ∀ v ∈ latency, v ≤ json.maxValue
  step : (disStep json.maxValue json.minValue).toNat = max 1 ((json.maxValue.toNat - json.minValue.toNat) / 100)
  index_int : ∀ v ∈ latency, toInt ((v - json.minValue) / disStep json.maxValue json.minValue) =
    ((v.toNat - json.minValue.toNat) / (disStep json.maxValue json.minValue).toNat : Nat)
  index_mem : ∀ v ∈ latency, 0 ≤ disIndex json.minValue (disStep json.maxValue json.minValue) v ∧
    disIndex json.minValue (disStep json.maxValue json.minValue) v ≤ 100
  length : json.distribution.length = 101
  sum : json.distribution.sum = latency.length
  counter_le : ∀ c ∈ json.distribution, 0 ≤ c ∧ c ≤ latency.length
  bucket : ∀ b < 100, json.distribution[b]? = some ((latency.filter (fun v =>
    (v.toNat - json.minValue.toNat) / (disStep json.maxValue json.minValue).toNat = b)).length : Int)
  rest : json.distribution[100]? = some ((latency.filter (fun v =>
    100 ≤ (v.toNat - json.minValue.toNat) / (disStep json.maxValue json.minValue).toNat)).length : Int)

/-- **The latency histogram counts every sample once.** -/
theorem getDis_countsOnce (disName : String) (latency : List UInt64) (hne : latency ≠ [])
    (hlt : ∀ v ∈ latency, v.toNat < 9223372036854775808) :
    ∃ json, getDis disName latency = .ok json ∧ CountsOnce latency json := by
  obtain ⟨hminmem, hmin⟩ := minOf_spec hne hlt
  obtain ⟨hmaxmem, hmax⟩ := maxOf_spec hne
  have hindex (v : UInt64) (hv : v ∈ latency) := disIndex_eq (hmin v hv) (hmax v hv)
  have hbucket : ∀ v ∈ latency, disBucket (maxOf latency) (minOf latency) v < 101 := by
    intro v _
    exact Nat.lt_succ_of_le (Nat.min_le_left _ _)
  refine ⟨_, getDis_eq disName hmin hmax, hminmem, hmin, hmaxmem, hmax, toNat_disStep (hmin _ hmaxmem),
    fun v hv => (hindex v hv).1, ?_, Buckets.length_filled _ _ _ _, ?_, ?_, ?_, ?_⟩
  · intro v hv
    show 0 ≤ disIndex (minOf latency) (disStep (maxOf latency) (minOf latency)) v ∧
      disIndex (minOf latency) (disStep (maxOf latency) (minOf latency)) v ≤ 100
    rw [(hindex v hv).2]
    exact ⟨Int.natCast_nonneg _, Int.ofNat_le.mpr (Nat.min_le_left _ _)⟩
  · rw [Buckets.sum_filled hbucket]
    simp
  · intro c hc
    obtain ⟨b, -, rfl⟩ := List.mem_map.mp hc
    refine ⟨Int.natCast_nonneg _, Int.ofNat_le.mpr ?_⟩
    rw [weightIn_one]
    exact List.length_filter_le _ _
  · intro b hb
    rw [Buckets.getElem?_filled _ _ _ (by omega), weightIn_one]
    congr 3
    refine List.filter_congr (fun v _ => ?_)
    rw [decide_eq_decide, disBucket]
    generalize (v.toNat - (minOf latency).toNat) / (disStep (maxOf latency) (minOf latency)).toNat = k
    omega
  · rw [Buckets.getElem?_filled _ _ _ (by omega), weightIn_one]
    congr 3
    refine List.filter_congr (fun v _ => ?_)
    rw [decide_eq_decide, disBucket]
    generalize (v.toNat - (minOf latency).toNat) / (disStep (maxOf latency) (minOf latency)).toNat = k
    omega

/-! ## The run -/

/-- `bucket[index]++`, on a counter that is an `int`. -/
def bumpInt (bucket : List Int) (index : Int) : Except Fault (List Int) :=
  if bucket.getD index.toNat 0 < intMax then bump bucket index else .error .undefined

/-- One turn of the loop, which ends with `i++`. -/
def disTurn (minV step : UInt64) (s : Int × List Int) (v : UInt64) : Except Fault (Int × List Int) := do
  let bucket ← bumpInt s.2 (disIndex minV step v)
  if s.1 < intMax then .ok (s.1 + 1, bucket) else .error .undefined

/-- `get_dis`, as it runs. -/
def getDisRun (disName : String) (latency : List UInt64) : Except Fault DisJson := do
  let maxV := maxOf latency
  let minV := minOf latency
  let step := disStep maxV minV
  let s ← latency.foldlM (disTurn minV step) (0, List.replicate 101 0)
  return ⟨disName, maxV, minV, s.2⟩

section Run

variable {minV step : UInt64} {seq : List UInt64}

/-- The last turn of a loop that ends. -/
theorem foldlM_concat_eq_ok {ε σ τ : Type} {f : τ → σ → Except ε τ} {pre : List σ} {v : σ} {t u : τ} :
    (pre ++ [v]).foldlM f t = .ok u ↔ ∃ s, pre.foldlM f t = .ok s ∧ f s v = .ok u := by
  simp only [List.foldlM_append, List.foldlM_cons, List.foldlM_nil, bind_pure, bind_eq_ok]

/-- One sample adds at most one to a counter. -/
theorem getD_bump_le {bucket bucket' : List Int} {index k : Int} (hle : ∀ b, bucket.getD b 0 ≤ k)
    (h : bump bucket index = .ok bucket') (b : Nat) : bucket'.getD b 0 ≤ k + 1 := by
  have hb := hle b
  unfold bump at h
  split at h
  · obtain rfl := Except.ok.inj h
    rw [List.getD_eq_getElem?_getD, List.getElem?_modify]
    rw [List.getD_eq_getElem?_getD] at hb
    cases hget : bucket[b]? with
    | none => simp [hget] at hb ⊢; omega
    | some c =>
        simp only [hget, Option.getD_some] at hb
        simp only [Option.map_eq_map, Option.map_some, Option.getD_some]
        split <;> omega
  · cases h

/-- **No counter exceeds the number of samples.** -/
theorem counters_le {bucket : List Int}
    (h : seq.foldlM (fun bucket v => bump bucket (disIndex minV step v)) (List.replicate 101 0) = .ok bucket)
    (b : Nat) : bucket.getD b 0 ≤ seq.length := by
  induction seq using List.reverseRecOn generalizing bucket b with
  | nil =>
      obtain rfl := Except.ok.inj h
      rw [List.getD_eq_getElem?_getD, List.getElem?_replicate]
      split <;> exact le_refl _
  | append_singleton pre v ih =>
      obtain ⟨before, hpre, hbump⟩ := foldlM_concat_eq_ok.mp h
      rw [List.length_append, List.length_singleton, Int.natCast_add]
      exact getD_bump_le (fun b => ih hpre b) hbump b

/-- A turn without overflow. -/
theorem disTurn_eq {i : Int} {bucket : List Int} {v : UInt64} (hi : i < intMax)
    (hcount : bucket.getD (disIndex minV step v).toNat 0 < intMax) :
    disTurn minV step (i, bucket) v = (bump bucket (disIndex minV step v)).map (fun bucket => (i + 1, bucket)) := by
  unfold disTurn bumpInt
  simp only [if_pos hcount, if_pos hi]
  cases bump bucket (disIndex minV step v) <;> rfl

/-- **The loop**: as long as its variable is an `int`, no counter overflows. -/
theorem foldlM_disTurn (hlen : (seq.length : Int) ≤ intMax) :
    seq.foldlM (disTurn minV step) (0, List.replicate 101 0) =
      (seq.foldlM (fun bucket v => bump bucket (disIndex minV step v)) (List.replicate 101 0)).map
        (fun bucket => ((seq.length : Int), bucket)) := by
  induction seq using List.reverseRecOn with
  | nil => rfl
  | append_singleton pre v ih =>
      rw [List.length_append, List.length_singleton, Int.natCast_add] at hlen
      have hlt : (pre.length : Int) < intMax := Int.lt_of_lt_of_le (Int.lt_succ _) hlen
      rw [List.foldlM_append, List.foldlM_append, ih (Int.le_of_lt hlt)]
      cases hpre : pre.foldlM (fun bucket v => bump bucket (disIndex minV step v)) (List.replicate 101 0) with
      | error e => rfl
      | ok before =>
          have hcount : before.getD (disIndex minV step v).toNat 0 < intMax :=
            Int.lt_of_le_of_lt (counters_le hpre _) hlt
          show (disTurn minV step ((pre.length : Int), before) v >>= pure) =
            (bump before (disIndex minV step v) >>= pure).map _
          rw [bind_pure, bind_pure, disTurn_eq hlt hcount, List.length_append, List.length_singleton, Int.natCast_add]
          rfl

/-- A loop that ends has made no more turns than its variable can count. -/
theorem turns_le {bucket : List Int} {s : Int × List Int}
    (h : seq.foldlM (disTurn minV step) (0, bucket) = .ok s) : s.1 = seq.length ∧ s.1 ≤ intMax := by
  induction seq using List.reverseRecOn generalizing s with
  | nil =>
      obtain rfl := Except.ok.inj h
      exact ⟨rfl, by show (0 : Int) ≤ intMax; decide⟩
  | append_singleton pre v ih =>
      obtain ⟨t, hpre, hturn⟩ := foldlM_concat_eq_ok.mp h
      obtain ⟨bucket', -, hnext⟩ := bind_eq_ok.mp hturn
      obtain ⟨hlen, -⟩ := ih hpre
      split at hnext
      · next hlt =>
        obtain rfl := Except.ok.inj hnext
        rw [List.length_append, List.length_singleton, Int.natCast_add, ← hlen]
        exact ⟨rfl, hlt⟩
      · cases hnext

end Run

/-- **The run is `getDis`**, up to `2 ^ 31 - 1` samples. -/
theorem getDisRun_eq (disName : String) (hlen : (latency.length : Int) ≤ intMax) :
    getDisRun disName latency = getDis disName latency := by
  unfold getDisRun getDis
  simp only [foldlM_disTurn hlen]
  cases latency.foldlM
    (fun bucket v => bump bucket (disIndex (minOf latency) (disStep (maxOf latency) (minOf latency)) v))
    (List.replicate 101 0) <;> rfl

/-- **The latency histogram counts every sample once**, as many as its loop can count. -/
theorem getDisRun_countsOnce (disName : String) (latency : List UInt64) (hne : latency ≠ [])
    (hlen : (latency.length : Int) ≤ intMax) (hlt : ∀ v ∈ latency, v.toNat < 9223372036854775808) :
    ∃ json, getDisRun disName latency = .ok json ∧ CountsOnce latency json := by
  rw [getDisRun_eq disName hlen]
  exact getDis_countsOnce disName latency hne hlt

/-- Three samples. -/
theorem getDisRun_countsOnce_three :
    ∃ json, getDisRun "plug" [7, 3, 900] = .ok json ∧ CountsOnce [7, 3, 900] json := by
  refine getDisRun_countsOnce "plug" [7, 3, 900] (by simp) (by decide) ?_
  intro v hv
  simp only [List.mem_cons, List.not_mem_nil, or_false] at hv
  rcases hv with rfl | rfl | rfl <;> decide

/-- **Not every histogram counts every sample**: at `2 ^ 31` samples the loop overflows. -/
theorem not_getDisRun_countsOnce_long :
    ¬ ∀ (disName : String) (latency : List UInt64), latency ≠ [] →
      (∀ v ∈ latency, v.toNat < 9223372036854775808) →
      ∃ json, getDisRun disName latency = .ok json ∧ CountsOnce latency json := by
  intro h
  have hlt : ∀ v ∈ List.replicate 2147483648 (0 : UInt64), v.toNat < 9223372036854775808 := by
    intro v hv
    rw [List.eq_of_mem_replicate hv]
    decide
  have hne : List.replicate 2147483648 (0 : UInt64) ≠ [] := List.ne_nil_of_length_pos (by rw [List.length_replicate]; decide)
  obtain ⟨json, hrun, -⟩ := h "plug" _ hne hlt
  generalize hlatency : List.replicate 2147483648 (0 : UInt64) = latency at hrun
  have hlen : latency.length = 2147483648 := by rw [← hlatency, List.length_replicate]
  obtain ⟨s, hfold, -⟩ := bind_eq_ok.mp hrun
  obtain ⟨hturns, hmax⟩ := turns_le hfold
  rw [hturns, hlen] at hmax
  exact absurd hmax (by decide)

end StorTrace
