import StorTrace.Digestible.Tdigest
import StorTrace.Lib.Neighbours

/-!
# `Digestible.Compress` — what one pass of `merge` makes of its sorted inputs

Where `compress_fn` closes a run depends on the scaling function, of which nothing is assumed here. Wherever the
runs end, each is made into one centroid that weighs what the run weighs, and whose mean lies among the means of
the run: no rounding of the doubles takes it out of there, nor does the conversion to `unsigned int`.
-/

namespace StorTrace.Digestible

open Binary64 Rounding Neighbours

/-- The samples a list of centroids stands for. -/
def weightOf (cs : List Centroid) : ℕ := (cs.map (fun c => c.weight.toNat)).sum

@[simp] theorem weightOf_nil : weightOf [] = 0 := rfl

@[simp] theorem weightOf_cons (c : Centroid) (cs : List Centroid) :
    weightOf (c :: cs) = c.weight.toNat + weightOf cs := rfl

@[simp] theorem weightOf_append (cs cs' : List Centroid) : weightOf (cs ++ cs') = weightOf cs + weightOf cs' := by
  simp [weightOf]

theorem weightOf_perm {cs cs' : List Centroid} (h : cs.Perm cs') : weightOf cs = weightOf cs' :=
  (h.map _).sum_eq

/-- A centroid made of a run of centroids: it weighs what they weigh, and its mean lies among theirs. -/
def Made (run : List Centroid) (c : Centroid) : Prop :=
  c.weight.toNat = weightOf run ∧ Among (· ≤ ·) Centroid.mean Centroid.mean run c

/-- The weight and the mean `compress_fn` keeps for the run it is joining. -/
structure Joined (run : List Centroid) (weight mean : Float) : Prop where
  weight : value weight = some (weightOf run : ℚ)
  mean : ∃ m, value mean = some m ∧ (∃ x ∈ run, (x.mean.toNat : ℚ) ≤ m) ∧ ∃ x ∈ run, m ≤ x.mean.toNat

theorem Joined.single (c : Centroid) : Joined [c] c.weight.toFloat c.mean.toFloat where
  weight := value_toFloat c.weight
  mean := ⟨c.mean.toNat, value_toFloat c.mean, ⟨c, by simp, le_refl _⟩, ⟨c, by simp, le_refl _⟩⟩

variable {run : List Centroid} {weight mean : Float} {c : Centroid}

theorem weight_le_weightOf {c : Centroid} {cs : List Centroid} (h : c ∈ cs) : c.weight.toNat ≤ weightOf cs :=
  List.single_le_sum (by simp) _ (List.mem_map_of_mem h)

/-- Joining one more centroid to a run. -/
theorem Joined.join (h : Joined run weight mean) (hrun : 0 < weightOf run)
    (hle : weightOf (run ++ [c]) ≤ 2 ^ 32) :
    Joined (run ++ [c]) (weight + c.weight.toFloat)
      (mean + (c.mean.toFloat - mean) * c.weight.toFloat / (weight + c.weight.toFloat)) := by
  rw [weightOf_append, weightOf_cons, weightOf_nil, Nat.add_zero] at hle
  have hweight : value (weight + c.weight.toFloat) = some ((weightOf run + c.weight.toNat : ℕ) : ℚ) :=
    value_add_natCast h.weight (value_toFloat c.weight) (by omega)
  refine ⟨by simpa using hweight, ?_⟩
  obtain ⟨m, hm, ⟨x, hx, hxm⟩, ⟨y, hy, hmy⟩⟩ := h.mean
  have hlt : ∀ z : Centroid, (z.mean.toNat : ℚ) ≤ 2 ^ 64 := by
    intro z
    have := z.mean.toNat_lt
    exact_mod_cast (by omega : z.mean.toNat ≤ 2 ^ 64)
  have hm0 : 0 ≤ m := le_trans (by positivity) hxm
  obtain ⟨v, hv, hstep⟩ := value_step hm (by rw [abs_of_nonneg hm0]; exact le_trans hmy (hlt y))
    (value_toFloat c.mean) (by rw [Nat.abs_cast]; exact hlt c) (value_toFloat c.weight) hweight
    (by omega) hle
  obtain ⟨hge, hle'⟩ := hstep.between (isDouble_of_value hm) (isDouble_of_value (value_toFloat c.mean))
    (by omega) hle
  refine ⟨v, hv, ?_, ?_⟩
  · rcases le_total m c.mean.toNat with hmc | hmc
    · rw [min_eq_left hmc] at hge
      exact ⟨x, List.mem_append_left _ hx, le_trans hxm hge⟩
    · rw [min_eq_right hmc] at hge
      exact ⟨c, by simp, hge⟩
  · rcases le_total m c.mean.toNat with hmc | hmc
    · rw [max_eq_right hmc] at hle'
      exact ⟨c, by simp, hle'⟩
    · rw [max_eq_left hmc] at hle'
      exact ⟨y, List.mem_append_left _ hy, le_trans hle' hmy⟩

/-- A weight is converted as it is. -/
theorem Joined.toUInt32_weight (h : Joined run weight mean) (hlt : weightOf run < 2 ^ 32) :
    weight.toUInt32.toNat = weightOf run := by
  rw [toUInt32_value h.weight (by positivity) (by exact_mod_cast hlt), Nat.floor_natCast]

/-- A whole number next to a mean lies among the means of the run. -/
theorem Joined.among (h : Joined run weight mean) {n : UInt32}
    (hn : ∀ m, value mean = some m → ∀ k : ℕ, ((k : ℚ) ≤ m → k ≤ n.toNat) ∧ (m ≤ k → n.toNat ≤ k)) (w : UInt32) :
    Among (· ≤ ·) Centroid.mean Centroid.mean run ⟨n, w⟩ := by
  obtain ⟨m, hm, ⟨x, hx, hxm⟩, ⟨y, hy, hmy⟩⟩ := h.mean
  exact ⟨⟨x, hx, UInt32.le_iff_toNat_le.mpr ((hn m hm _).1 hxm)⟩,
    ⟨y, hy, UInt32.le_iff_toNat_le.mpr ((hn m hm _).2 hmy)⟩⟩

theorem Joined.mean_bounds (h : Joined run weight mean) {m : ℚ} (hm : value mean = some m) :
    0 ≤ m ∧ m ≤ 4294967295 := by
  obtain ⟨m', hm', ⟨x, -, hx⟩, ⟨y, -, hy⟩⟩ := h.mean
  obtain rfl : m' = m := Option.some.inj (hm'.symm.trans hm)
  refine ⟨le_trans (by positivity) hx, le_trans hy ?_⟩
  have := y.mean.toNat_lt
  exact_mod_cast Nat.le_of_lt_succ this

/-- A run that is closed by the last line of `merge`. -/
theorem Joined.made_trunc (h : Joined run weight mean) (hlt : weightOf run < 2 ^ 32) :
    Made run ⟨mean.toUInt32, weight.toUInt32⟩ := by
  refine ⟨h.toUInt32_weight hlt, h.among (fun m hm k => ?_) _⟩
  obtain ⟨hm0, hm1⟩ := h.mean_bounds hm
  rw [toUInt32_value hm hm0 (by linarith)]
  exact ⟨fun hk => Nat.le_floor hk, fun hk => Nat.floor_le_of_le hk⟩

/-- A run that is closed by `compress_fn`, which rounds the mean first. -/
theorem Joined.made_round (h : Joined run weight mean) (hlt : weightOf run < 2 ^ 32) :
    Made run ⟨(stdRound mean).toUInt32, weight.toUInt32⟩ := by
  refine ⟨h.toUInt32_weight hlt, h.among (fun m hm k => ?_) _⟩
  obtain ⟨hm0, hm1⟩ := h.mean_bounds hm
  have hfloor : (⌊m + 1 / 2⌋₊ : ℚ) < 4294967296 := by
    have := Nat.floor_le (by positivity : 0 ≤ m + 1 / 2)
    linarith
  rw [toUInt32_value (value_stdRound hm hm0) (by positivity) hfloor, Nat.floor_natCast]
  constructor
  · intro hk
    exact Nat.le_floor (by linarith)
  · intro hk
    refine Nat.le_of_lt_succ ((Nat.floor_lt (by positivity)).mpr ?_)
    push_cast
    linarith

/-! ## The pass over the inputs -/

/-- What `compress_fn` has made of the inputs `pre`: the closed runs are in `inactive`, the last one is open. -/
def Pass (pre : List Centroid) (s : Tdigest.Compress) : Prop :=
  ∃ xs run, pre = xs ++ run ∧ Cut Made xs s.inactive.values ∧ s.inactive.totalWeight.toNat = weightOf xs ∧
    0 < weightOf run ∧ Joined run s.weightToAdd s.meanToAdd

open Tdigest

theorem TdigestImpl.insert_fst (d : TdigestImpl) (value weight : UInt32) :
    (d.insert value weight).1.values = d.values ++ [⟨value, weight⟩] ∧
      (d.insert value weight).1.totalWeight = d.totalWeight + weight := ⟨rfl, rfl⟩

/-- Closing a run. -/
theorem close_run {d : TdigestImpl} {xs : List Centroid} {mean' weight' : UInt32} (hcut : Cut Made xs d.values)
    (hd : d.totalWeight.toNat = weightOf xs) (hmade : Made run ⟨mean', weight'⟩)
    (hlt : weightOf (xs ++ run) < 2 ^ 32) :
    Cut Made (xs ++ run) (d.insert mean' weight').1.values ∧
      (d.insert mean' weight').1.totalWeight.toNat = weightOf (xs ++ run) := by
  rw [weightOf_append] at hlt ⊢
  refine ⟨hcut.concat hmade, ?_⟩
  show (d.totalWeight + weight').toNat = _
  rw [UInt32.toNat_add, hd, hmade.1, Nat.mod_eq_of_lt hlt]

theorem pass_start {total : UInt32} {normalizer : Float} {inactive : TdigestImpl} {front : Centroid}
    (hvalues : inactive.values = []) (htotal : inactive.totalWeight = 0) (hfront : 0 < front.weight) :
    Pass [front] (startCompress total normalizer inactive front) := by
  refine ⟨[], [front], rfl, ?_, ?_, ?_, Joined.single front⟩
  · show Cut Made [] inactive.values
    rw [hvalues]
    exact Cut.nil
  · show inactive.totalWeight.toNat = 0
    rw [htotal]
    rfl
  · simpa using UInt32.lt_iff_toNat_lt.mp hfront

/-- **One call of `compress_fn`** joins the next centroid to the open run or closes it. -/
theorem pass_step {pre : List Centroid} {s : Compress} {total : UInt32} {normalizer : Float} {current : Centroid}
    (h : Pass pre s) (hcurrent : 0 < current.weight) (hlt : weightOf (pre ++ [current]) < 2 ^ 32) :
    Pass (pre ++ [current]) (compressFn total normalizer s current) := by
  obtain ⟨xs, run, rfl, hcut, htotal, hrun, hjoined⟩ := h
  have hpre : weightOf (xs ++ run) < 2 ^ 32 := by
    rw [weightOf_append] at hlt
    omega
  unfold compressFn
  split
  · refine ⟨xs, run ++ [current], List.append_assoc _ _ _, hcut, htotal, ?_, hjoined.join hrun ?_⟩
    · rw [weightOf_append]
      omega
    · rw [List.append_assoc, weightOf_append] at hlt
      omega
  · have hmade := hjoined.made_round (by rw [weightOf_append] at hpre; omega)
    obtain ⟨hcut', htotal'⟩ := close_run hcut htotal hmade hpre
    refine ⟨xs ++ run, [current], rfl, hcut', htotal', ?_, Joined.single current⟩
    simpa using UInt32.lt_iff_toNat_lt.mp hcurrent

theorem pass_foldl {rest pre : List Centroid} {s : Compress} {total : UInt32} {normalizer : Float}
    (h : Pass pre s) (hrest : ∀ c ∈ rest, 0 < c.weight) (hlt : weightOf (pre ++ rest) < 2 ^ 32) :
    Pass (pre ++ rest) (rest.foldl (compressFn total normalizer) s) := by
  induction rest generalizing pre s with
  | nil => simpa using h
  | cons c rest ih =>
      have hstep : Pass (pre ++ [c]) (compressFn total normalizer s c) := by
        refine pass_step h (hrest c (by simp)) ?_
        simp only [weightOf_append, weightOf_cons, weightOf_nil] at hlt ⊢
        omega
      have hrun := ih hstep (fun x hx => hrest x (by simp [hx])) (by simpa using hlt)
      simpa using hrun

theorem finish_spec {pre : List Centroid} {s : Compress} (h : Pass pre s) (hlt : weightOf pre < 2 ^ 32) :
    Cut Made pre s.finish.values ∧ s.finish.totalWeight.toNat = weightOf pre := by
  obtain ⟨xs, run, rfl, hcut, htotal, hrun, hjoined⟩ := h
  have hne : (s.weightToAdd != 0) = true := by
    have hbeq : ¬ (s.weightToAdd == 0) = true := by
      rw [beq_iff_value hjoined.weight value_zero]
      exact_mod_cast hrun.ne'
    rwa [bne, Bool.not_eq_true', ← Bool.not_eq_true]
  unfold Compress.finish
  rw [if_pos hne]
  exact close_run hcut htotal (hjoined.made_trunc (by rw [weightOf_append] at hlt; omega)) hlt

/-- **The pass cuts its inputs into runs** and loses none of their weight. -/
theorem compress_spec {d : Tdigest} {front : Centroid} {rest : List Centroid}
    (hvalues : d.inactiveImpl.values = []) (htotal : d.inactiveImpl.totalWeight = 0)
    (hpos : ∀ c ∈ front :: rest, 0 < c.weight) (hlt : weightOf (front :: rest) < 2 ^ 32) :
    Cut Made (front :: rest) (compress d front rest).values ∧
      (compress d front rest).totalWeight.toNat = weightOf (front :: rest) :=
  finish_spec (pass_foldl (pass_start hvalues htotal (hpos front (by simp))) (fun c hc => hpos c (by simp [hc])) hlt) hlt

end StorTrace.Digestible
