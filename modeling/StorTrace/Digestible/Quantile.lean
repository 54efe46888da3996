import StorTrace.Digestible.Samples

/-!
# `Digestible.Quantile` — what the digest answers

`quantile` searches its centroids on `unsigned int`, modulo `2 ^ 32`, and blends the two ends on `double`. Whatever
the digest holds, the answer is at most `max_val`; where no product wraps around it is at least `min_val` and
follows the rank. At one index of some digests the answer is not a number.
-/

namespace StorTrace.Digestible

open Binary64 Rounding Tdigest

/-! ## The pair that brackets the index -/

/-- `quantile_fn` on natural numbers; what is multiplied and added there is `unsigned int`. -/
def bracketNat (index : ℕ) : ℕ → List Centroid → Option ℕ
  | weightSoFar, left :: right :: rest =>
      let deltaWeight := (left.weight.toNat + right.weight.toNat) / 2
      if index < weightSoFar + deltaWeight then
        some ((left.mean.toNat * (weightSoFar + deltaWeight - index) + right.mean.toNat * (index - weightSoFar)) %
          4294967296 / deltaWeight)
      else bracketNat index (weightSoFar + deltaWeight) (right :: rest)
  | _, _ => none

/-- The machine computes it, as long as the weights fit. -/
theorem bracket_toNat {index : UInt32} {weightSoFar : UInt32} {cs : List Centroid}
    (hle : weightSoFar.toNat ≤ index.toNat) (hlt : weightOf cs < 2 ^ 32)
    (hsoFar : ∀ c ∈ cs.head?, 2 * weightSoFar.toNat + 2 * weightOf cs < 2 ^ 33 + c.weight.toNat) :
    (bracket index weightSoFar cs).map UInt32.toNat = bracketNat index.toNat weightSoFar.toNat cs := by
  -- by induction on the centroids still to come
  induction cs generalizing weightSoFar with
  | nil => rfl
  | cons left cs ih =>
      cases cs with
      | nil => rfl
      | cons right rest =>
          have hmid := hsoFar left rfl
          simp only [weightOf_cons] at hlt hmid ih
          have hdelta : ((left.weight + right.weight) / 2).toNat =
              (left.weight.toNat + right.weight.toNat) / 2 := by
            rw [UInt32.toNat_div, UInt32.toNat_add, Nat.mod_eq_of_lt (by omega)]
            rfl
          have hsum : (weightSoFar + (left.weight + right.weight) / 2).toNat =
              weightSoFar.toNat + (left.weight.toNat + right.weight.toNat) / 2 := by
            rw [UInt32.toNat_add, hdelta, Nat.mod_eq_of_lt (by omega)]
          unfold bracket bracketNat
          simp only [GT.gt, UInt32.lt_iff_toNat_lt, hsum]
          by_cases hin : index.toNat < weightSoFar.toNat + (left.weight.toNat + right.weight.toNat) / 2
          · rw [if_pos hin, if_pos hin, Option.map_some]
            have hlower : (index - weightSoFar).toNat = index.toNat - weightSoFar.toNat :=
              UInt32.toNat_sub_of_le _ _ (UInt32.le_iff_toNat_le.mpr hle)
            have hupper : (weightSoFar + (left.weight + right.weight) / 2 - index).toNat =
                weightSoFar.toNat + (left.weight.toNat + right.weight.toNat) / 2 - index.toNat := by
              rw [UInt32.toNat_sub_of_le _ _ (UInt32.le_iff_toNat_le.mpr (by omega)), hsum]
            congr 1
            rw [UInt32.toNat_div, UInt32.toNat_add, UInt32.toNat_add, UInt32.toNat_mul, UInt32.toNat_mul, hlower,
              hupper, ← Nat.add_mod]
            congr 1
            rw [Nat.mod_eq_of_lt (by omega)]
            omega
          · rw [if_neg hin, if_neg hin, ih (by omega) (by omega) ?_, hsum]
            intro c hc
            obtain rfl : right = c := Option.some.inj hc
            omega

/-- Ascending centroids of positive weight. -/
structure Ascending (cs : List Centroid) : Prop where
  sorted : cs.Pairwise (fun a b => a.mean ≤ b.mean)
  positive : ∀ c ∈ cs, 0 < c.weight

variable {left right : Centroid} {rest cs : List Centroid} {i j so : ℕ}

theorem Ascending.tail (h : Ascending (left :: cs)) : Ascending cs :=
  ⟨(List.pairwise_cons.mp h.sorted).2, fun c hc => h.positive c (List.mem_cons_of_mem _ hc)⟩

theorem Ascending.delta_pos (h : Ascending (left :: right :: rest)) :
    0 < (left.weight.toNat + right.weight.toNat) / 2 := by
  have hl := UInt32.lt_iff_toNat_lt.mp (h.positive left (by simp))
  have hr := UInt32.lt_iff_toNat_lt.mp (h.positive right (by simp))
  simp only [UInt32.toNat_zero] at hl hr
  omega

theorem Ascending.le (h : Ascending (left :: right :: rest)) : left.mean.toNat ≤ right.mean.toNat :=
  UInt32.le_iff_toNat_le.mp ((List.pairwise_cons.mp h.sorted).1 right (by simp))

/-- The weighted mean of two neighbours. -/
def between (l r delta x : ℕ) : ℕ := (l * (delta - x) + r * x) / delta

theorem between_bounds {l r delta x : ℕ} (hlr : l ≤ r) (hx : x ≤ delta) (hdelta : 0 < delta) :
    l ≤ between l r delta x ∧ between l r delta x ≤ r := by
  obtain ⟨y, rfl⟩ := Nat.exists_eq_add_of_le hx
  have hsub : x + y - x = y := by omega
  unfold between
  rw [hsub]
  constructor
  · rw [Nat.le_div_iff_mul_le hdelta]
    nlinarith [Nat.mul_le_mul_right x hlr]
  · refine Nat.div_le_of_le_mul ?_
    nlinarith [Nat.mul_le_mul_right y hlr]

theorem between_mono {l r delta x x' : ℕ} (hlr : l ≤ r) (hx : x ≤ x') (hx' : x' ≤ delta) :
    between l r delta x ≤ between l r delta x' := by
  obtain ⟨y, rfl⟩ := Nat.exists_eq_add_of_le hx'
  obtain ⟨z, rfl⟩ := Nat.exists_eq_add_of_le hx
  have hsub : x + z + y - x = z + y := by omega
  have hsub' : x + z + y - (x + z) = y := by omega
  unfold between
  rw [hsub, hsub']
  refine Nat.div_le_div_right ?_
  nlinarith [Nat.mul_le_mul_right z hlr]

/-- A bracketing pair answers with the weighted mean, modulo `2 ^ 32` before the division. -/
theorem bracketNat_cons (hso : so ≤ i) :
    bracketNat i so (left :: right :: rest) =
      if i < so + (left.weight.toNat + right.weight.toNat) / 2 then
        some ((left.mean.toNat * ((left.weight.toNat + right.weight.toNat) / 2 - (i - so)) +
          right.mean.toNat * (i - so)) % 4294967296 / ((left.weight.toNat + right.weight.toNat) / 2))
      else bracketNat i (so + (left.weight.toNat + right.weight.toNat) / 2) (right :: rest) := by
  have hupper : so + (left.weight.toNat + right.weight.toNat) / 2 - i =
      (left.weight.toNat + right.weight.toNat) / 2 - (i - so) := by omega
  show (if i < _ then _ else _) = _
  rw [hupper]

/-- The answer does not exceed the largest mean, whether the product wraps around or not. -/
theorem bracketNat_le (h : Ascending cs) (hso : so ≤ i) {most v : ℕ} (hmost : ∀ c ∈ cs, c.mean.toNat ≤ most)
    (hv : bracketNat i so cs = some v) : v ≤ most := by
  induction cs generalizing so with
  | nil => cases hv
  | cons left cs ih =>
      cases cs with
      | nil => cases hv
      | cons right rest =>
          have hdelta := h.delta_pos
          rw [bracketNat_cons hso] at hv
          split at hv
          · next hin =>
              obtain rfl := Option.some.inj hv
              refine le_trans (Nat.div_le_div_right (Nat.mod_le _ _)) ?_
              exact le_trans (between_bounds h.le (by omega) hdelta).2 (hmost right (by simp))
          · next hout =>
              exact ih h.tail (by omega) (fun c hc => hmost c (List.mem_cons_of_mem _ hc)) hv

/-- No product of `quantile_fn` wraps around. -/
def Fits (cs : List Centroid) (most : ℕ) : Prop :=
  (∀ c ∈ cs, c.mean.toNat ≤ most) ∧ most * weightOf cs < 4294967296

theorem Fits.tail {most : ℕ} (h : Fits (left :: cs) most) : Fits cs most := by
  refine ⟨fun c hc => h.1 c (List.mem_cons_of_mem _ hc), lt_of_le_of_lt (Nat.mul_le_mul_left _ ?_) h.2⟩
  rw [weightOf_cons]
  omega

theorem Fits.bracketNat_cons {most : ℕ} (hfits : Fits (left :: right :: rest) most)
    (h : Ascending (left :: right :: rest)) (hso : so ≤ i)
    (hin : i < so + (left.weight.toNat + right.weight.toNat) / 2) :
    bracketNat i so (left :: right :: rest) =
      some (between left.mean.toNat right.mean.toNat ((left.weight.toNat + right.weight.toNat) / 2) (i - so)) := by
  have hdelta := h.delta_pos
  rw [Digestible.bracketNat_cons hso, if_pos hin, Nat.mod_eq_of_lt]
  · rfl
  · refine lt_of_le_of_lt ?_ hfits.2
    have hl := hfits.1 left (by simp)
    have hr := hfits.1 right (by simp)
    have hsum : left.mean.toNat * ((left.weight.toNat + right.weight.toNat) / 2 - (i - so)) +
        right.mean.toNat * (i - so) ≤ most * ((left.weight.toNat + right.weight.toNat) / 2) := by
      calc _ ≤ most * ((left.weight.toNat + right.weight.toNat) / 2 - (i - so)) + most * (i - so) :=
            Nat.add_le_add (Nat.mul_le_mul_right _ hl) (Nat.mul_le_mul_right _ hr)
        _ = most * ((left.weight.toNat + right.weight.toNat) / 2) := by
            rw [← Nat.mul_add]
            congr 1
            omega
    refine le_trans hsum (Nat.mul_le_mul_left _ ?_)
    simp only [weightOf_cons]
    omega

/-- What the search answers; `last`, the last mean, if no pair brackets the index. -/
def searched (i so : ℕ) (cs : List Centroid) (last : ℕ) : ℕ := (bracketNat i so cs).getD last

/-- The answer lies between the first and the last mean. -/
theorem searched_bounds {most last : ℕ} (hfits : Fits (left :: cs) most) (h : Ascending (left :: cs)) (hso : so ≤ i)
    (hlast : ∀ c ∈ left :: cs, c.mean.toNat ≤ last) :
    left.mean.toNat ≤ searched i so (left :: cs) last ∧ searched i so (left :: cs) last ≤ last := by
  induction cs generalizing left so with
  | nil => exact ⟨hlast left (by simp), le_refl _⟩
  | cons right rest ih =>
      have hdelta := h.delta_pos
      unfold searched
      by_cases hin : i < so + (left.weight.toNat + right.weight.toNat) / 2
      · obtain ⟨hge, hle⟩ := between_bounds h.le (by omega : i - so ≤ _) hdelta
        rw [hfits.bracketNat_cons h hso hin, Option.getD_some]
        exact ⟨hge, le_trans hle (hlast right (by simp))⟩
      · have hso' : so + (left.weight.toNat + right.weight.toNat) / 2 ≤ i := by omega
        obtain ⟨hge, hle⟩ := ih hfits.tail h.tail hso' (fun c hc => hlast c (List.mem_cons_of_mem _ hc))
        rw [bracketNat_cons hso, if_neg hin]
        exact ⟨le_trans h.le hge, hle⟩

/-- **The search follows the index.** -/
theorem searched_mono {most last : ℕ} (hfits : Fits (left :: cs) most) (h : Ascending (left :: cs)) (hso : so ≤ i)
    (hij : i ≤ j) (hlast : ∀ c ∈ left :: cs, c.mean.toNat ≤ last) :
    searched i so (left :: cs) last ≤ searched j so (left :: cs) last := by
  induction cs generalizing left so with
  | nil => exact le_refl _
  | cons right rest ih =>
      have hlast' : ∀ c ∈ right :: rest, c.mean.toNat ≤ last := fun c hc => hlast c (List.mem_cons_of_mem _ hc)
      have hdelta := h.delta_pos
      unfold searched
      by_cases hin : i < so + (left.weight.toNat + right.weight.toNat) / 2
      · rw [hfits.bracketNat_cons h hso hin, Option.getD_some]
        by_cases hjn : j < so + (left.weight.toNat + right.weight.toNat) / 2
        · rw [hfits.bracketNat_cons h (by omega) hjn, Option.getD_some]
          exact between_mono h.le (by omega) (by omega)
        · -- the later index lies behind the pair
          rw [bracketNat_cons (by omega), if_neg hjn]
          exact le_trans (between_bounds h.le (by omega) hdelta).2
            (searched_bounds hfits.tail h.tail (by omega) hlast').1
      · rw [bracketNat_cons hso, if_neg hin, bracketNat_cons (by omega), if_neg (by omega)]
        exact ih hfits.tail h.tail (by omega) hlast'

/-! ## The two ends -/

theorem toNat_le_cast (n : UInt32) : (n.toNat : ℚ) ≤ 2 ^ 32 := by
  have := n.toNat_lt
  exact_mod_cast this.le

theorem isDouble_toNat (n : UInt32) : IsDouble (n.toNat : ℚ) := isDouble_of_value (value_toFloat n)

/-- A fraction of two whole numbers. -/
theorem value_frac {x n : UInt32} (hxn : x.toNat ≤ n.toNat) (hn : 0 < n.toNat) :
    ∃ frac, value (x.toFloat / n.toFloat) = some frac ∧ Rounds ((x.toNat : ℚ) / n.toNat) frac := by
  have hn0 : (0 : ℚ) < n.toNat := by exact_mod_cast hn
  refine value_div (value_toFloat x) (value_toFloat n) hn0.ne' (lt_limit ?_)
  rw [abs_of_nonneg (by positivity)]
  exact le_trans (div_le_one_of_le₀ (by exact_mod_cast hxn) hn0.le) (by norm_num)

/-- A fraction of a whole number. -/
theorem value_frac_mul {f g : Float} {frac : ℚ} {k : ℕ} (hf : value f = some frac) (h0 : 0 ≤ frac) (h1 : frac ≤ 1)
    (hg : value g = some (k : ℚ)) (hk : (k : ℚ) ≤ 2 ^ 32) :
    ∃ prod, value (f * g) = some prod ∧ Rounds (frac * k) prod ∧ 0 ≤ prod ∧ prod ≤ 2 ^ 32 := by
  have hle : frac * k ≤ 2 ^ 32 := le_trans (mul_le_of_le_one_left (by positivity) h1) hk
  obtain ⟨prod, hprod, hrounds⟩ := value_mul hf hg (lt_limit (by
    rw [abs_of_nonneg (by positivity)]
    exact le_trans hle (by norm_num)))
  exact ⟨prod, hprod, hrounds, hrounds.ge isDouble_zero (by positivity), hrounds.le (isDouble_two_pow 32) hle⟩

section Lerp

variable {a b : UInt32} {t : Float} {frac : ℚ}

theorem isDouble_toNat_sub (hab : a.toNat ≤ b.toNat) : IsDouble ((b.toNat : ℚ) - a.toNat) := by
  rw [← Nat.cast_sub hab]
  exact isDouble_natCast (by have := b.toNat_lt; omega)

/-- The last case of `lerp`, before it is bounded. -/
theorem value_line (hab : a.toNat ≤ b.toNat) (ht : value t = some frac) (h0 : 0 ≤ frac) (h1 : frac ≤ 1) :
    ∃ prod v, value (a.toFloat + t * (b.toFloat - a.toFloat)) = some v ∧
      Rounds (frac * (b.toNat - a.toNat)) prod ∧ Rounds (a.toNat + prod) v := by
  have hab' : (a.toNat : ℚ) ≤ b.toNat := by exact_mod_cast hab
  have ha32 := toNat_le_cast a
  have hb32 := toNat_le_cast b
  have ha0 : (0 : ℚ) ≤ a.toNat := by positivity
  obtain ⟨diff, hdiff, hdiffr⟩ := value_sub (value_toFloat b) (value_toFloat a) (lt_limit (by
    rw [abs_of_nonneg (sub_nonneg.mpr hab')]
    linarith))
  rw [hdiffr.eq_self (isDouble_toNat_sub hab), ← Nat.cast_sub hab] at hdiff
  obtain ⟨prod, hprod, hprodr, hprod0, hprod32⟩ := value_frac_mul ht h0 h1 hdiff (by
    rw [Nat.cast_sub hab]
    linarith)
  rw [Nat.cast_sub hab] at hprodr
  obtain ⟨v, hv, hvr⟩ := value_add (value_toFloat a) hprod (lt_limit (by
    rw [abs_of_nonneg (by positivity)]
    linarith))
  exact ⟨prod, v, hv, hprodr, hvr⟩

/-- The first case of `lerp`, when the lower end is zero. -/
theorem value_weighted (ha : (a.toNat : ℚ) = 0) (ht : value t = some frac) (h0 : 0 ≤ frac) (h1 : frac ≤ 1) :
    ∃ prod, value (t * b.toFloat + (1 - t) * a.toFloat) = some prod ∧ Rounds (frac * b.toNat) prod := by
  obtain ⟨prod, hprod, hprodr, hprod0, hprod32⟩ := value_frac_mul ht h0 h1 (value_toFloat b) (toNat_le_cast b)
  obtain ⟨u, hu, hur⟩ := value_sub value_one ht (lt_limit (by
    rw [abs_of_nonneg (by linarith)]
    linarith))
  have hu1 : u ≤ 1 := hur.le (by exact_mod_cast isDouble_natCast (n := 1) (by norm_num)) (by linarith)
  have hu0 : 0 ≤ u := hur.ge isDouble_zero (by linarith)
  obtain ⟨none, hnone, hnoner, -, -⟩ := value_frac_mul hu hu0 hu1 (value_toFloat a) (toNat_le_cast a)
  rw [ha, mul_zero] at hnoner
  rw [hnoner.eq_self isDouble_zero] at hnone
  obtain ⟨w, hw, hwr⟩ := value_add hprod hnone (lt_limit (by
    rw [add_zero, abs_of_nonneg hprod0]
    linarith))
  rw [add_zero] at hwr
  rw [hwr.eq_self hprodr.isDouble] at hw
  exact ⟨prod, hw, hprodr⟩

/-- `lerp` at a fraction blends its ends, in every one of its cases. -/
theorem value_lerp {x n : UInt32} (hab : a.toNat ≤ b.toNat) (hxn : x.toNat ≤ n.toNat) (hn : 0 < n.toNat) :
    ∃ v, value (lerp a.toFloat b.toFloat (x.toFloat / n.toFloat)) = some v ∧
      Blend a.toNat (b.toNat - a.toNat) x.toNat n.toNat v := by
  have hab' : (a.toNat : ℚ) ≤ b.toNat := by exact_mod_cast hab
  have ha0 : (0 : ℚ) ≤ a.toNat := by positivity
  obtain ⟨frac, hfrac, hfracr⟩ := value_frac hxn hn
  obtain ⟨hfrac0, hfrac1⟩ := frac_bounds hxn hfracr
  obtain ⟨prod, v, hv, hprodr, hvr⟩ := value_line hab hfrac hfrac0 hfrac1
  have hblend : Blend a.toNat (b.toNat - a.toNat) x.toNat n.toNat v := ⟨frac, prod, hfracr, hprodr, hvr⟩
  have hbounds := hblend.bounds (isDouble_toNat a) (isDouble_toNat_sub hab)
    (by rw [add_sub_cancel]; exact isDouble_toNat b) (sub_nonneg.mpr hab') hxn
  rw [add_sub_cancel] at hbounds
  refine ⟨v, ?_, hblend⟩
  generalize x.toFloat / n.toFloat = t at *
  unfold lerp
  split
  · next hzero =>
      simp only [ge_iff_le, le_iff_value (value_toFloat a) value_zero,
        le_iff_value value_zero (value_toFloat b), le_iff_value (value_toFloat b) value_zero] at hzero
      have haz : (a.toNat : ℚ) = 0 := by
        rcases hzero with hzero | hzero
        · linarith [hzero.1]
        · linarith [hzero.2]
      obtain ⟨prod', hprod', hprodr'⟩ := value_weighted (b := b) haz hfrac hfrac0 hfrac1
      rw [haz, sub_zero] at hprodr
      rw [haz, zero_add, hprodr.unique hprodr'] at hvr
      rw [hprod', hvr.eq_self hprodr'.isDouble]
  · -- what is returned is the point on the line, or the upper end with the same value
    have hupper : (b.toNat : ℚ) ≤ v → value b.toFloat = some v := fun hle => by
      rw [le_antisymm hbounds.2 hle]
      exact value_toFloat b
    split
    · next hone =>
        rw [beq_iff_value hfrac value_one] at hone
        rw [hone, one_mul] at hprodr
        rw [hprodr.eq_self (isDouble_toNat_sub hab), add_sub_cancel] at hvr
        exact hupper (hvr.eq_self (isDouble_toNat b)).ge
    · have hle1 : ¬ t > 1 := by
        rw [gt_iff_lt, lt_iff_value value_one hfrac]
        exact not_lt.mpr hfrac1
      simp only [hle1, decide_false]
      split
      · next hsame =>
          have hba : (b.toNat : ℚ) ≤ a.toNat := by
            rw [eq_comm, decide_eq_false_iff_not, gt_iff_lt, lt_iff_value (value_toFloat a) (value_toFloat b)] at hsame
            exact not_lt.mp hsame
          split
          · exact hv
          · exact hupper (le_trans hba hbounds.1)
      · split
        · exact hv
        · next hnlt =>
            rw [lt_iff_value hv (value_toFloat b)] at hnlt
            exact hupper (not_lt.mp hnlt)

end Lerp

/-- `max_val` less a fraction of what it exceeds the last mean by. -/
theorem value_below {a b x n : UInt32} (hab : b.toNat ≤ a.toNat) (hxn : x.toNat ≤ n.toNat) (hn : 0 < n.toNat) :
    ∃ v, value (a.toFloat - x.toFloat / n.toFloat * (a - b).toFloat) = some v ∧
      Blend (-a.toNat) (a.toNat - b.toNat) x.toNat n.toNat (-v) := by
  have hsub : ((a - b).toNat : ℚ) = a.toNat - b.toNat := by
    rw [UInt32.toNat_sub_of_le _ _ (UInt32.le_iff_toNat_le.mpr hab), Nat.cast_sub hab]
  obtain ⟨frac, hfrac, hfracr⟩ := value_frac hxn hn
  obtain ⟨hfrac0, hfrac1⟩ := frac_bounds hxn hfracr
  obtain ⟨prod, hprod, hprodr, hprod0, hprod32⟩ :=
    value_frac_mul hfrac hfrac0 hfrac1 (value_toFloat (a - b)) (toNat_le_cast (a - b))
  obtain ⟨v, hv, hvr⟩ := value_sub (value_toFloat a) hprod (lt_limit (by
    have ha32 := toNat_le_cast a
    have ha0 : (0 : ℚ) ≤ a.toNat := by positivity
    rw [abs_le]
    constructor <;> linarith))
  rw [hsub] at hprodr
  refine ⟨v, hv, frac, prod, hfracr, hprodr, ?_⟩
  rw [show -(a.toNat : ℚ) + prod = -(a.toNat - prod) by ring]
  exact hvr.neg

/-! ## What `quantile` answers -/

/-- The answer at an index of at least one, in a digest whose first and last centroid are `first` and `last`: a
    blend of `min_val` and the first mean, what the search finds, a blend of the last mean and `max_val`, or
    `max_val`. -/
inductive Answer (d : Tdigest) (first last : Centroid) (index : UInt32) : ℚ → Prop
  | low {v : ℚ} (hi : index.toNat < first.weight.toNat / 2)
      (h : Blend d.minVal.toNat (first.mean.toNat - d.minVal.toNat) (index.toNat - 1)
        (first.weight.toNat / 2 - 1) v) :
      Answer d first last index v
  | middle {w : UInt32} (hlo : first.weight.toNat / 2 ≤ index.toNat)
      (hhi : index.toNat + last.weight.toNat / 2 < d.activeImpl.totalWeight.toNat)
      (h : w = (bracket index (first.weight / 2) d.activeImpl.values).getD last.mean) :
      Answer d first last index w.toNat
  | high {v : ℚ} (hlo : first.weight.toNat / 2 ≤ index.toNat) (hi : index.toNat < d.activeImpl.totalWeight.toNat)
      (hhi : d.activeImpl.totalWeight.toNat ≤ index.toNat + last.weight.toNat / 2)
      (h : Blend (-d.maxVal.toNat) (d.maxVal.toNat - last.mean.toNat)
        (d.activeImpl.totalWeight.toNat - index.toNat - 1) (last.weight.toNat / 2 - 1) (-v)) :
      Answer d first last index v
  | top (hlo : first.weight.toNat / 2 ≤ index.toNat) (hi : d.activeImpl.totalWeight.toNat ≤ index.toNat) :
      Answer d first last index d.maxVal.toNat

variable {d : Tdigest} {first last : Centroid} {index : UInt32}

/-- The one index at which the last case divides zero by zero. -/
def Undefined (d : Tdigest) (last : Centroid) (index : UInt32) : Prop :=
  last.weight.toNat / 2 = 1 ∧ index.toNat + 1 = d.activeImpl.totalWeight.toNat

/-- The digest has at least the two centroids `first` and `last`. -/
structure Ends (d : Tdigest) (first last : Centroid) : Prop where
  head : d.activeImpl.values.head? = some first
  mem : last ∈ d.activeImpl.values
  le_last : ∀ c ∈ d.activeImpl.values, c.mean ≤ last.mean
  weights : first.weight.toNat + last.weight.toNat ≤ d.activeImpl.totalWeight.toNat
  bounds : d.minVal ≤ first.mean ∧ last.mean ≤ d.maxVal
  ascending : Ascending d.activeImpl.values
  total : weightOf d.activeImpl.values = d.activeImpl.totalWeight.toNat

theorem quantileAt_answer (h : Ends d first last) (hindex : 1 ≤ index.toNat) (hdef : ¬ Undefined d last index) :
    ∃ v, value (quantileAt d first last index) = some v ∧ Answer d first last index v := by
  have hT := d.activeImpl.totalWeight.toNat_lt
  have hlastpos := UInt32.lt_iff_toNat_lt.mp (h.ascending.positive last h.mem)
  have htwo : ∀ c : Centroid, (c.weight / 2).toNat = c.weight.toNat / 2 := fun c => UInt32.toNat_div _ _
  have hone : (1 : UInt32).toNat = 1 := rfl
  simp only [UInt32.toNat_zero] at hlastpos
  have hpred : (d.activeImpl.totalWeight - 1).toNat = d.activeImpl.totalWeight.toNat - 1 :=
    UInt32.toNat_sub_of_le _ _ (UInt32.le_iff_toNat_le.mpr (by have := h.weights; rw [hone]; omega))
  unfold quantileAt
  simp only [gt_iff_lt, UInt32.lt_iff_toNat_lt, UInt32.le_iff_toNat_le, htwo, hone, hpred]
  split
  · next hlow =>
      have hw1 : (first.weight / 2 - 1).toNat = first.weight.toNat / 2 - 1 := by
        rw [UInt32.toNat_sub_of_le _ _ (UInt32.le_iff_toNat_le.mpr (by rw [htwo, hone]; omega)), htwo, hone]
      have hi1 : (index - 1).toNat = index.toNat - 1 :=
        UInt32.toNat_sub_of_le _ _ (UInt32.le_iff_toNat_le.mpr (by rw [hone]; omega))
      obtain ⟨v, hv, hblend⟩ := value_lerp (UInt32.le_iff_toNat_le.mp h.bounds.1)
        (by rw [hi1, hw1]; omega : (index - 1).toNat ≤ (first.weight / 2 - 1).toNat) (by rw [hw1]; omega)
      rw [hi1, hw1] at hblend
      exact ⟨v, hv, .low hlow.2 hblend⟩
  · next hlow =>
      have hlo : first.weight.toNat / 2 ≤ index.toNat := by omega
      split
      · next htop => exact ⟨_, value_toFloat _, .top hlo (by omega)⟩
      · next htop =>
          have hsub : (d.activeImpl.totalWeight - index).toNat = d.activeImpl.totalWeight.toNat - index.toNat :=
            UInt32.toNat_sub_of_le _ _ (UInt32.le_iff_toNat_le.mpr (by omega))
          rw [hsub]
          split
          · next hhigh =>
              have hw1 : (last.weight / 2 - 1).toNat = last.weight.toNat / 2 - 1 := by
                rw [UInt32.toNat_sub_of_le _ _ (UInt32.le_iff_toNat_le.mpr (by rw [htwo, hone]; omega)), htwo, hone]
              have hi1 : (d.activeImpl.totalWeight - index - 1).toNat =
                  d.activeImpl.totalWeight.toNat - index.toNat - 1 := by
                rw [UInt32.toNat_sub_of_le _ _ (UInt32.le_iff_toNat_le.mpr (by rw [hsub, hone]; omega)), hsub, hone]
              have hn : 0 < last.weight.toNat / 2 - 1 := by
                unfold Undefined at hdef
                omega
              obtain ⟨v, hv, hblend⟩ := value_below (UInt32.le_iff_toNat_le.mp h.bounds.2)
                (by rw [hi1, hw1]; omega :
                  (d.activeImpl.totalWeight - index - 1).toNat ≤ (last.weight / 2 - 1).toNat) (by rw [hw1]; exact hn)
              rw [hi1, hw1] at hblend
              exact ⟨v, hv, .high hlo (by omega) (by omega) hblend⟩
          · next hhigh =>
              cases hb : bracket index (first.weight / 2) d.activeImpl.values with
              | some w => exact ⟨_, value_toFloat w, .middle hlo (by omega) (by rw [hb]; rfl)⟩
              | none => exact ⟨_, value_toFloat last.mean, .middle hlo (by omega) (by rw [hb]; rfl)⟩

/-- Where the last case divides zero by zero, the answer is not a number. -/
theorem quantileAt_undefined (h : Ends d first last) (hdef : Undefined d last index) :
    IsNaN (quantileAt d first last index) := by
  obtain ⟨hw, hi⟩ := hdef
  have hT := d.activeImpl.totalWeight.toNat_lt
  have hweights := h.weights
  have htwo : ∀ c : Centroid, (c.weight / 2).toNat = c.weight.toNat / 2 := fun c => UInt32.toNat_div _ _
  have hone : (1 : UInt32).toNat = 1 := rfl
  have hpred : (d.activeImpl.totalWeight - 1).toNat = d.activeImpl.totalWeight.toNat - 1 :=
    UInt32.toNat_sub_of_le _ _ (UInt32.le_iff_toNat_le.mpr (by rw [hone]; omega))
  have hsub : (d.activeImpl.totalWeight - index).toNat = d.activeImpl.totalWeight.toNat - index.toNat :=
    UInt32.toNat_sub_of_le _ _ (UInt32.le_iff_toNat_le.mpr (by omega))
  have hnum : d.activeImpl.totalWeight - index - 1 = 0 := by
    refine UInt32.toNat_inj.mp ?_
    rw [UInt32.toNat_sub_of_le _ _ (UInt32.le_iff_toNat_le.mpr (by rw [hsub, hone]; omega)), hsub, hone]
    simp only [UInt32.toNat_zero]
    omega
  have hden : last.weight / 2 - 1 = 0 := by
    refine UInt32.toNat_inj.mp ?_
    rw [UInt32.toNat_sub_of_le _ _ (UInt32.le_iff_toNat_le.mpr (by rw [htwo, hone]; omega)), htwo, hone]
    simp only [UInt32.toNat_zero]
    omega
  unfold quantileAt
  simp only [gt_iff_lt, UInt32.lt_iff_toNat_lt, UInt32.le_iff_toNat_le, htwo, hone, hpred, hsub]
  rw [if_neg (by omega), if_neg (by omega), if_pos (by omega), hnum, hden]
  exact (isNaN_zero_div_zero.mul _).sub _

/-! ## Bounds and order of the answers -/

/-- What the search of the machine finds. -/
theorem Ends.toNat_searched (h : Ends d first last) (hlo : first.weight.toNat / 2 ≤ index.toNat) :
    ((bracket index (first.weight / 2) d.activeImpl.values).getD last.mean).toNat =
      searched index.toNat (first.weight.toNat / 2) d.activeImpl.values last.mean.toNat := by
  have hT := d.activeImpl.totalWeight.toNat_lt
  have hhalf : (first.weight / 2).toNat = first.weight.toNat / 2 := UInt32.toNat_div _ _
  have hle : (first.weight / 2).toNat ≤ index.toNat := by
    rw [hhalf]
    exact hlo
  have hnat := bracket_toNat hle (by rw [h.total]; omega) (by
    intro c hc
    rw [h.head] at hc
    obtain rfl : first = c := Option.some.inj hc
    rw [hhalf, h.total]
    omega)
  rw [hhalf] at hnat
  unfold searched
  rw [← hnat]
  cases bracket index (first.weight / 2) d.activeImpl.values with
  | none => rfl
  | some w => rfl

theorem Ends.exists_cons (h : Ends d first last) : ∃ rest, d.activeImpl.values = first :: rest := by
  have hhead := h.head
  cases hvalues : d.activeImpl.values with
  | nil => rw [hvalues] at hhead; cases hhead
  | cons c rest =>
      rw [hvalues] at hhead
      obtain rfl : c = first := Option.some.inj hhead
      exact ⟨rest, rfl⟩

theorem Ends.first_le_last (h : Ends d first last) : first.mean.toNat ≤ last.mean.toNat := by
  obtain ⟨rest, hrest⟩ := h.exists_cons
  exact UInt32.le_iff_toNat_le.mp (h.le_last first (by rw [hrest]; exact List.mem_cons_self))

theorem Ends.min_le (h : Ends d first last) : d.minVal.toNat ≤ first.mean.toNat :=
  UInt32.le_iff_toNat_le.mp h.bounds.1

theorem Ends.le_max (h : Ends d first last) : last.mean.toNat ≤ d.maxVal.toNat :=
  UInt32.le_iff_toNat_le.mp h.bounds.2

theorem isDouble_gap (a b : UInt32) :
    IsDouble (a.toNat + (b.toNat - a.toNat : ℚ)) ∧ IsDouble (-b.toNat + (b.toNat - a.toNat : ℚ)) := by
  rw [show (a.toNat + (b.toNat - a.toNat : ℚ)) = b.toNat by ring,
    show (-b.toNat + (b.toNat - a.toNat : ℚ)) = -a.toNat by ring]
  exact ⟨isDouble_toNat b, (isDouble_toNat a).neg⟩

/-- Below the first mean. -/
theorem Ends.low_bounds (h : Ends d first last) {v : ℚ} (hi : index.toNat < first.weight.toNat / 2)
    (hv : Blend d.minVal.toNat (first.mean.toNat - d.minVal.toNat) (index.toNat - 1)
      (first.weight.toNat / 2 - 1) v) : (d.minVal.toNat : ℚ) ≤ v ∧ v ≤ first.mean.toNat := by
  have hle : (d.minVal.toNat : ℚ) ≤ first.mean.toNat := by exact_mod_cast h.min_le
  have hbounds := hv.bounds (isDouble_toNat _) (isDouble_toNat_sub h.min_le) (isDouble_gap _ _).1
    (sub_nonneg.mpr hle) (by omega)
  rwa [add_sub_cancel] at hbounds

/-- Above the last mean. -/
theorem Ends.high_bounds (h : Ends d first last) {v : ℚ}
    (hhi : d.activeImpl.totalWeight.toNat ≤ index.toNat + last.weight.toNat / 2)
    (hv : Blend (-d.maxVal.toNat) (d.maxVal.toNat - last.mean.toNat)
      (d.activeImpl.totalWeight.toNat - index.toNat - 1) (last.weight.toNat / 2 - 1) (-v)) :
    (last.mean.toNat : ℚ) ≤ v ∧ v ≤ d.maxVal.toNat := by
  have hle : (last.mean.toNat : ℚ) ≤ d.maxVal.toNat := by exact_mod_cast h.le_max
  have hbounds := hv.bounds (isDouble_toNat _).neg (isDouble_toNat_sub h.le_max) (isDouble_gap _ _).2
    (sub_nonneg.mpr hle) (by omega)
  constructor <;> linarith [hbounds.1, hbounds.2]

/-- The answer never exceeds `max_val`. -/
theorem Answer.le_max {v : ℚ} (hv : Answer d first last index v) (h : Ends d first last) : v ≤ d.maxVal.toNat := by
  cases hv with
  | low hi hblend =>
      refine le_trans (h.low_bounds hi hblend).2 ?_
      exact_mod_cast le_trans h.first_le_last h.le_max
  | middle hlo hhi hw =>
      rw [hw, h.toNat_searched hlo]
      refine Nat.cast_le.mpr ?_
      unfold searched
      cases hb : bracketNat index.toNat (first.weight.toNat / 2) d.activeImpl.values with
      | none => exact h.le_max
      | some w =>
          exact bracketNat_le h.ascending hlo
            (fun c hc => le_trans (UInt32.le_iff_toNat_le.mp (h.le_last c hc)) h.le_max) hb
  | high hlo hi hhi hblend => exact (h.high_bounds hhi hblend).2
  | top hlo hi => exact le_refl _

/-- No product wraps around in the search of a digest of this size. -/
def NoWrap (d : Tdigest) : Prop := d.maxVal.toNat * d.activeImpl.totalWeight.toNat < 4294967296

theorem Ends.fits (h : Ends d first last) (hwrap : NoWrap d) : Fits d.activeImpl.values d.maxVal.toNat := by
  refine ⟨fun c hc => ?_, ?_⟩
  · exact le_trans (UInt32.le_iff_toNat_le.mp (h.le_last c hc)) h.le_max
  · rw [h.total]
    exact hwrap

/-- What the search finds lies between the first and the last mean. -/
theorem Ends.middle_bounds (h : Ends d first last) (hwrap : NoWrap d) (hlo : first.weight.toNat / 2 ≤ index.toNat) :
    first.mean.toNat ≤ searched index.toNat (first.weight.toNat / 2) d.activeImpl.values last.mean.toNat ∧
      searched index.toNat (first.weight.toNat / 2) d.activeImpl.values last.mean.toNat ≤ last.mean.toNat := by
  obtain ⟨rest, hrest⟩ := h.exists_cons
  have hfits := h.fits hwrap
  have hascending := h.ascending
  have hlast := h.le_last
  rw [hrest] at hfits hascending hlast ⊢
  exact searched_bounds hfits hascending hlo (fun c hc => UInt32.le_iff_toNat_le.mp (hlast c hc))

/-- Without wrapping it does not fall below `min_val`. -/
theorem Answer.ge_min {v : ℚ} (hv : Answer d first last index v) (h : Ends d first last) (hwrap : NoWrap d) :
    (d.minVal.toNat : ℚ) ≤ v := by
  cases hv with
  | low hi hblend => exact (h.low_bounds hi hblend).1
  | middle hlo hhi hw =>
      rw [hw, h.toNat_searched hlo]
      exact_mod_cast le_trans h.min_le (h.middle_bounds hwrap hlo).1
  | high hlo hi hhi hblend =>
      refine le_trans ?_ (h.high_bounds hhi hblend).1
      exact_mod_cast le_trans h.min_le h.first_le_last
  | top hlo hi => exact_mod_cast le_trans h.min_le (le_trans h.first_le_last h.le_max)

/-- **Without wrapping, a later index is answered with no smaller value.** -/
theorem Answer.mono {index' : UInt32} {v v' : ℚ} (hv : Answer d first last index v)
    (hv' : Answer d first last index' v') (h : Ends d first last) (hwrap : NoWrap d)
    (hle : index.toNat ≤ index'.toNat) : v ≤ v' := by
  cases hv with
  | low hi hblend =>
      have hfirst := (h.low_bounds hi hblend).2
      cases hv' with
      | low hi' hblend' =>
          have hgap : (0 : ℚ) ≤ first.mean.toNat - d.minVal.toNat := sub_nonneg.mpr (by exact_mod_cast h.min_le)
          exact hblend.mono hblend' hgap (by omega)
      | middle hlo' hhi' hw' =>
          rw [hw', h.toNat_searched hlo']
          exact le_trans hfirst (Nat.cast_le.mpr (h.middle_bounds hwrap hlo').1)
      | high hlo' hi' hhi' hblend' =>
          exact le_trans hfirst (le_trans (Nat.cast_le.mpr h.first_le_last) (h.high_bounds hhi' hblend').1)
      | top hlo' hi' => exact le_trans hfirst (Nat.cast_le.mpr (le_trans h.first_le_last h.le_max))
  | middle hlo hhi hw =>
      rw [hw, h.toNat_searched hlo]
      have hlast : (searched index.toNat (first.weight.toNat / 2) d.activeImpl.values last.mean.toNat : ℚ) ≤
          last.mean.toNat := Nat.cast_le.mpr (h.middle_bounds hwrap hlo).2
      cases hv' with
      | low hi' _ => omega
      | middle hlo' hhi' hw' =>
          rw [hw', h.toNat_searched hlo']
          obtain ⟨rest, hrest⟩ := h.exists_cons
          have hfits := h.fits hwrap
          have hascending := h.ascending
          have hlasts := h.le_last
          rw [hrest] at hfits hascending hlasts ⊢
          exact Nat.cast_le.mpr (searched_mono hfits hascending hlo hle
            (fun c hc => UInt32.le_iff_toNat_le.mp (hlasts c hc)))
      | high hlo' hi' hhi' hblend' => exact le_trans hlast (h.high_bounds hhi' hblend').1
      | top hlo' hi' => exact le_trans hlast (Nat.cast_le.mpr h.le_max)
  | high hlo hi hhi hblend =>
      have hmax := (h.high_bounds hhi hblend).2
      cases hv' with
      | low hi' _ => omega
      | middle hlo' hhi' _ => omega
      | high hlo' hi' hhi' hblend' =>
          have hgap : (0 : ℚ) ≤ d.maxVal.toNat - last.mean.toNat := sub_nonneg.mpr (by exact_mod_cast h.le_max)
          exact neg_le_neg_iff.mp (hblend'.mono hblend hgap (by omega))
      | top hlo' hi' => exact hmax
  | top hlo hi =>
      cases hv' with
      | low hi' _ => omega
      | middle hlo' hhi' _ => omega
      | high hlo' hi' hhi' _ => omega
      | top hlo' hi' => exact le_refl _

/-! ## The index -/

theorem value_frac_hundred {p : Float} {rank : ℚ} (hp : value p = some rank) (h0 : 0 ≤ rank) (h100 : rank ≤ 100) :
    ∃ frac, value (p / 100) = some frac ∧ Rounds (rank / 100) frac ∧ 0 ≤ frac ∧ frac ≤ 1 := by
  have hle : rank / 100 ≤ 1 := by rwa [div_le_one (by norm_num)]
  obtain ⟨frac, hfrac, hrounds⟩ := value_div hp value_hundred (by norm_num) (lt_limit (by
    rw [abs_of_nonneg (by positivity)]
    exact le_trans hle (by norm_num)))
  exact ⟨frac, hfrac, hrounds, hrounds.ge isDouble_zero (by positivity),
    hrounds.le (by exact_mod_cast isDouble_natCast (n := 1) (by norm_num)) hle⟩

/-- The index is a part of the total weight, rounded twice and then down. -/
theorem indexOf_spec {p : Float} {rank : ℚ} (hp : value p = some rank) (h0 : 0 ≤ rank) (h100 : rank ≤ 100) :
    ∃ frac prod, Rounds (rank / 100) frac ∧ Rounds (frac * d.activeImpl.totalWeight.toNat) prod ∧
      (d.indexOf p).toNat = ⌊prod⌋₊ := by
  obtain ⟨frac, hfrac, hrounds, hfrac0, hfrac1⟩ := value_frac_hundred hp h0 h100
  obtain ⟨prod, hprod, hprodr, hprod0, -⟩ :=
    value_frac_mul hfrac hfrac0 hfrac1 (value_toFloat d.activeImpl.totalWeight) (toNat_le_cast _)
  have hlt : (d.activeImpl.totalWeight.toNat : ℚ) < 4294967296 := by
    exact_mod_cast d.activeImpl.totalWeight.toNat_lt
  have hle : prod ≤ d.activeImpl.totalWeight.toNat :=
    hprodr.le (isDouble_toNat _) (mul_le_of_le_one_left (by positivity) hfrac1)
  exact ⟨frac, prod, hrounds, hprodr, toUInt32_value hprod hprod0 (lt_of_le_of_lt hle hlt)⟩

/-- The index follows the rank. -/
theorem indexOf_mono {p p' : Float} {rank rank' : ℚ} (hp : value p = some rank) (hp' : value p' = some rank')
    (h0 : 0 ≤ rank) (hle : rank ≤ rank') (h100 : rank' ≤ 100) : (d.indexOf p).toNat ≤ (d.indexOf p').toNat := by
  obtain ⟨frac, prod, hfrac, hprod, hindex⟩ := indexOf_spec (d := d) hp h0 (le_trans hle h100)
  obtain ⟨frac', prod', hfrac', hprod', hindex'⟩ := indexOf_spec (d := d) hp' (le_trans h0 hle) h100
  have hfracs : frac ≤ frac' := hfrac.mono hfrac' (div_le_div_of_nonneg_right hle (by norm_num))
  rw [hindex, hindex']
  exact Nat.floor_le_floor (hprod.mono hprod' (mul_le_mul_of_nonneg_right hfracs (by positivity)))

/-! ## The quantile of a reachable digest -/

variable {merged pending : List UInt32} {first second : Centroid} {rest : List Centroid}

theorem ends_of_ordered (hw : Weighs d merged pending) (ho : Ordered d merged)
    (hvalues : d.activeImpl.values = first :: second :: rest) :
    Ends d first ((second :: rest).getLast (List.cons_ne_nil second rest)) := by
  have hlast : (second :: rest).getLast (List.cons_ne_nil second rest) ∈ second :: rest := List.getLast_mem _
  have hmem : (second :: rest).getLast (List.cons_ne_nil second rest) ∈ d.activeImpl.values := by
    rw [hvalues]
    exact List.mem_cons_of_mem _ hlast
  have htotal : weightOf d.activeImpl.values = d.activeImpl.totalWeight.toNat := by
    rw [hw.weights, hw.activeWeight]
  have hsorted := ho.sorted
  rw [hvalues] at hsorted
  have hbelow := getLast_of_pairwise (fun c => UInt32.le_refl c.mean) hsorted
  refine ⟨by rw [hvalues]; rfl, hmem, ?_, ?_, ?_, ⟨ho.sorted, hw.positive⟩, htotal⟩
  · intro c hc
    rw [hvalues] at hc
    have hle := hbelow c hc
    rwa [List.getLast_cons (List.cons_ne_nil second rest)] at hle
  · rw [← htotal, hvalues, weightOf_cons]
    exact Nat.add_le_add_left (weight_le_weightOf hlast) _
  · refine ⟨(ho.bounds first ?_).1, (ho.bounds _ hmem).2⟩
    rw [hvalues]
    exact List.mem_cons_self

/-- The index at which `quantile` divides zero by zero: the last before the total, when half the weight of the
    last of several centroids is one. -/
def Hole (d : Tdigest) (index : UInt32) : Prop :=
  ∃ first second rest, d.activeImpl.values = first :: second :: rest ∧
    Undefined d ((second :: rest).getLast (List.cons_ne_nil second rest)) index

/-- What a digest that is not empty answers at an index. -/
inductive Found (d : Tdigest) (index : UInt32) : ℚ → Prop
  | only {c : Centroid} (h : d.activeImpl.values = [c]) : Found d index c.mean.toNat
  | least {first second : Centroid} {rest : List Centroid} (h : d.activeImpl.values = first :: second :: rest)
      (hi : index.toNat = 0) : Found d index d.minVal.toNat
  | several {first second : Centroid} {rest : List Centroid} {v : ℚ}
      (h : d.activeImpl.values = first :: second :: rest) (hi : 1 ≤ index.toNat)
      (ha : Answer d first ((second :: rest).getLast (List.cons_ne_nil second rest)) index v) : Found d index v

theorem Found.le_max {v : ℚ} (hv : Found d index v) (hw : Weighs d merged pending) (ho : Ordered d merged) :
    v ≤ d.maxVal.toNat := by
  cases hv with
  | only h =>
      have hle := (ho.bounds _ (by rw [h]; exact List.mem_singleton_self _)).2
      exact_mod_cast UInt32.le_iff_toNat_le.mp hle
  | least h hi =>
      have hends := ends_of_ordered hw ho h
      exact_mod_cast le_trans hends.min_le (le_trans hends.first_le_last hends.le_max)
  | several h hi ha => exact ha.le_max (ends_of_ordered hw ho h)

theorem Found.ge_min {v : ℚ} (hv : Found d index v) (hw : Weighs d merged pending) (ho : Ordered d merged)
    (hwrap : NoWrap d) : (d.minVal.toNat : ℚ) ≤ v := by
  cases hv with
  | only h =>
      have hle := (ho.bounds _ (by rw [h]; exact List.mem_singleton_self _)).1
      exact_mod_cast UInt32.le_iff_toNat_le.mp hle
  | least h hi => exact le_refl _
  | several h hi ha => exact ha.ge_min (ends_of_ordered hw ho h) hwrap

theorem Found.mono {index' : UInt32} {v v' : ℚ} (hv : Found d index v) (hv' : Found d index' v')
    (hw : Weighs d merged pending) (ho : Ordered d merged) (hwrap : NoWrap d)
    (hle : index.toNat ≤ index'.toNat) : v ≤ v' := by
  cases hv with
  | only h =>
      cases hv' with
      | only h' =>
          obtain rfl := (List.cons.inj (h.symm.trans h')).1
          exact le_refl _
      | least h' _ => exact absurd (h.symm.trans h') (by simp)
      | several h' _ _ => exact absurd (h.symm.trans h') (by simp)
  | least h hi => exact hv'.ge_min hw ho hwrap
  | several h hi ha =>
      cases hv' with
      | only h' => exact absurd (h.symm.trans h') (by simp)
      | least h' hi' => omega
      | several h' hi' ha' =>
          obtain ⟨rfl, htail⟩ := List.cons.inj (h.symm.trans h')
          obtain ⟨rfl, rfl⟩ := List.cons.inj htail
          exact ha.mono ha' (ends_of_ordered hw ho h) hwrap hle

theorem Answer.nonneg {v : ℚ} (hv : Answer d first last index v) (h : Ends d first last) : 0 ≤ v := by
  cases hv with
  | low hi hblend => exact le_trans (Nat.cast_nonneg _) (h.low_bounds hi hblend).1
  | middle hlo hhi hw => exact Nat.cast_nonneg _
  | high hlo hi hhi hblend => exact le_trans (Nat.cast_nonneg _) (h.high_bounds hhi hblend).1
  | top hlo hi => exact Nat.cast_nonneg _

theorem Found.nonneg {v : ℚ} (hv : Found d index v) (hw : Weighs d merged pending) (ho : Ordered d merged) :
    0 ≤ v := by
  cases hv with
  | only h => exact Nat.cast_nonneg _
  | least h hi => exact Nat.cast_nonneg _
  | several h hi ha => exact ha.nonneg (ends_of_ordered hw ho h)

/-- What `quantile` answers, once samples have been merged. -/
theorem quantile_found (hw : Weighs d merged pending) (ho : Ordered d merged) (hne : merged ≠ []) {p : Float}
    {rank : ℚ} (hp : value p = some rank) (h0 : 0 ≤ rank) (h100 : rank ≤ 100) :
    ∃ r, d.quantile p = .ok r ∧ (IsNaN r ∧ Hole d (d.indexOf p) ∨
      ¬ Hole d (d.indexOf p) ∧ ∃ v, value r = some v ∧ Found d (d.indexOf p) v) := by
  have hrange : ¬ (p < 0 ∨ p > 100) := by
    rw [gt_iff_lt, lt_iff_value hp value_zero, lt_iff_value value_hundred hp]
    exact not_or.mpr ⟨not_lt.mpr h0, not_lt.mpr h100⟩
  have hone : (1 : UInt32).toNat = 1 := rfl
  unfold quantile
  rw [if_neg hrange]
  cases hvalues : d.activeImpl.values with
  | nil =>
      have hweights := hw.weights
      rw [hvalues, weightOf_nil] at hweights
      exact absurd (List.length_eq_zero_iff.mp hweights.symm) hne
  | cons first tail =>
      cases tail with
      | nil =>
          refine ⟨_, rfl, Or.inr ⟨?_, _, value_toFloat _, .only hvalues⟩⟩
          rintro ⟨c, c', cs, hcs, -⟩
          exact absurd (hvalues.symm.trans hcs) (by simp)
      | cons second rest =>
          have hends := ends_of_ordered hw ho hvalues
          by_cases hzero : d.indexOf p < 1
          · have hi : (d.indexOf p).toNat = 0 := by
              rw [UInt32.lt_iff_toNat_lt, hone] at hzero
              omega
            simp only [if_pos hzero]
            refine ⟨_, rfl, Or.inr ⟨?_, _, value_toFloat _, .least hvalues hi⟩⟩
            -- the last centroid weighs two or more, and so the total is not one
            rintro ⟨c, c', cs, hcs, hw', hi'⟩
            have hweights := (ends_of_ordered hw ho hcs).weights
            omega
          · have hi : 1 ≤ (d.indexOf p).toNat := by
              rw [UInt32.lt_iff_toNat_lt, hone] at hzero
              omega
            simp only [if_neg hzero]
            refine ⟨_, rfl, ?_⟩
            by_cases hdef : Undefined d ((second :: rest).getLast (List.cons_ne_nil second rest)) (d.indexOf p)
            · exact Or.inl ⟨quantileAt_undefined hends hdef, first, second, rest, hvalues, hdef⟩
            · obtain ⟨v, hv, ha⟩ := quantileAt_answer hends hi hdef
              refine Or.inr ⟨?_, v, hv, .several hvalues hi ha⟩
              rintro ⟨c, c', cs, hcs, hdef'⟩
              obtain ⟨rfl, htail⟩ := List.cons.inj (hvalues.symm.trans hcs)
              obtain ⟨rfl, rfl⟩ := List.cons.inj htail
              exact hdef hdef'

/-- Before the first merge. -/
theorem quantile_empty (hw : Weighs d [] pending) {p : Float} {rank : ℚ} (hp : value p = some rank) (h0 : 0 ≤ rank)
    (h100 : rank ≤ 100) : d.quantile p = .ok 0 := by
  have hrange : ¬ (p < 0 ∨ p > 100) := by
    rw [gt_iff_lt, lt_iff_value hp value_zero, lt_iff_value value_hundred hp]
    exact not_or.mpr ⟨not_lt.mpr h0, not_lt.mpr h100⟩
  have hweights := hw.weights
  unfold quantile
  rw [if_neg hrange]
  cases hvalues : d.activeImpl.values with
  | nil => rfl
  | cons c cs =>
      have hpos := UInt32.lt_iff_toNat_lt.mp (hw.positive c (by rw [hvalues]; exact List.mem_cons_self))
      rw [hvalues, weightOf_cons, List.length_nil] at hweights
      simp only [UInt32.toNat_zero] at hpos
      omega

theorem Weighs.noWrap (hw : Weighs d merged pending) (ho : Ordered d merged) {b : UInt32}
    (hb : ∀ x ∈ merged, x ≤ b) (hwrap : b.toNat * merged.length < 2 ^ 32) : NoWrap d := by
  have hmax : d.maxVal.toNat ≤ b.toNat := UInt32.le_iff_toNat_le.mp (ho.maxVal.2 hb)
  unfold NoWrap
  rw [hw.activeWeight]
  exact lt_of_le_of_lt (Nat.mul_le_mul_right _ hmax) hwrap

/-- What `quantile` answers at the rank `p` when the samples `merged` have been merged. -/
structure Answers (d : Tdigest) (merged : List UInt32) (p r : Float) : Prop where
  /-- Before the first merge it is zero. -/
  empty : merged = [] → r = 0
  /-- At the hole it is zero divided by zero. -/
  hole : merged ≠ [] → Hole d (d.indexOf p) → IsNaN r
  /-- Everywhere else it is a number, not above the largest merged sample, and not below the smallest one as long
      as the products of `unsigned int` fit. -/
  number : merged ≠ [] → ¬ Hole d (d.indexOf p) → ∃ v, value r = some v ∧ 0 ≤ v ∧
    ∀ a b, (∀ x ∈ merged, a ≤ x ∧ x ≤ b) →
      v ≤ b.toNat ∧ (b.toNat * merged.length < 2 ^ 32 → (a.toNat : ℚ) ≤ v)

/-- **Every quantile of fewer than `2 ^ 32` values is a number between the samples**, but for one index of some
    digests. -/
theorem quantile_insertAll (S : StdSort) (size : ℕ) (values : List UInt32) (hlt : values.length < 2 ^ 32) {p : Float}
    {rank : ℚ} (hp : value p = some rank) (h0 : 0 ≤ rank) (h100 : rank ≤ 100) :
    ∃ r, (insertAll S size values).quantile p = .ok r ∧
      Answers (insertAll S size values) (mergedOf S size values) p r := by
  obtain ⟨hw, ho⟩ := insertAll_state S size values hlt
  by_cases hne : mergedOf S size values = []
  · rw [hne] at hw ⊢
    exact ⟨0, quantile_empty hw hp h0 h100, fun _ => rfl, fun h => absurd rfl h, fun h => absurd rfl h⟩
  · obtain ⟨r, hr, hcases⟩ := quantile_found hw ho hne hp h0 h100
    refine ⟨r, hr, fun h => absurd h hne, fun _ hhole => ?_, fun _ hhole => ?_⟩
    · rcases hcases with ⟨hnan, -⟩ | ⟨hnot, -⟩
      · exact hnan
      · exact absurd hhole hnot
    · rcases hcases with ⟨-, hhole'⟩ | ⟨-, v, hv, hfound⟩
      · exact absurd hhole' hhole
      · refine ⟨v, hv, hfound.nonneg hw ho, fun a b hab => ⟨?_, fun hwrap => ?_⟩⟩
        · have hmax := UInt32.le_iff_toNat_le.mp (ho.maxVal.2 (fun x hx => (hab x hx).2))
          exact le_trans (hfound.le_max hw ho) (by exact_mod_cast hmax)
        · have hmin := UInt32.le_iff_toNat_le.mp (ho.minVal.2 (fun x hx => (hab x hx).1))
          exact le_trans (by exact_mod_cast hmin)
            (hfound.ge_min hw ho (hw.noWrap ho (fun x hx => (hab x hx).2) hwrap))

theorem quantile_insertAll_three : ∃ r, (insertAll .stable 1 [30, 10, 20]).quantile 100 = .ok r ∧
    Answers (insertAll .stable 1 [30, 10, 20]) (mergedOf .stable 1 [30, 10, 20]) 100 r :=
  quantile_insertAll .stable 1 [30, 10, 20] (by decide) value_hundred (by norm_num) (by norm_num)

/-- **Quantiles are monotone**: at a higher rank a digest of fewer than `2 ^ 32` values does not answer with a
    smaller number, as long as the products of `unsigned int` fit. -/
theorem quantile_mono (S : StdSort) (size : ℕ) (values : List UInt32) (hlt : values.length < 2 ^ 32) {b : UInt32}
    (hb : ∀ x ∈ mergedOf S size values, x ≤ b) (hwrap : b.toNat * (mergedOf S size values).length < 2 ^ 32)
    {p p' : Float} {rank rank' : ℚ} (hp : value p = some rank) (hp' : value p' = some rank') (h0 : 0 ≤ rank)
    (hle : rank ≤ rank') (h100 : rank' ≤ 100) :
    ∃ r r', (insertAll S size values).quantile p = .ok r ∧ (insertAll S size values).quantile p' = .ok r' ∧
      ∀ v v', value r = some v → value r' = some v' → v ≤ v' := by
  obtain ⟨hw, ho⟩ := insertAll_state S size values hlt
  by_cases hne : mergedOf S size values = []
  · rw [hne] at hw
    refine ⟨0, 0, quantile_empty hw hp h0 (le_trans hle h100), quantile_empty hw hp' (le_trans h0 hle) h100, ?_⟩
    intro v v' hv hv'
    exact (Option.some.inj (hv.symm.trans hv')).le
  · obtain ⟨r, hr, hcases⟩ := quantile_found hw ho hne hp h0 (le_trans hle h100)
    obtain ⟨r', hr', hcases'⟩ := quantile_found hw ho hne hp' (le_trans h0 hle) h100
    refine ⟨r, r', hr, hr', fun v v' hv hv' => ?_⟩
    rcases hcases with ⟨hnan, -⟩ | ⟨-, w, hw', hfound⟩
    · exact absurd (hnan.value.symm.trans hv) (by simp)
    · rcases hcases' with ⟨hnan, -⟩ | ⟨-, w', hw'', hfound'⟩
      · exact absurd (hnan.value.symm.trans hv') (by simp)
      · obtain rfl := Option.some.inj (hw'.symm.trans hv)
        obtain rfl := Option.some.inj (hw''.symm.trans hv')
        exact hfound.mono hfound' hw ho (hw.noWrap ho hb hwrap) (indexOf_mono hp hp' h0 hle h100)

theorem quantile_mono_three : ∃ r r', (insertAll .stable 1 [30, 10, 20]).quantile 1 = .ok r ∧
    (insertAll .stable 1 [30, 10, 20]).quantile 100 = .ok r' ∧
    ∀ v v', value r = some v → value r' = some v' → v ≤ v' :=
  quantile_mono .stable 1 [30, 10, 20] (b := 30) (by decide)
    (fun x hx => (by simp : ∀ x ∈ [30, 10, 20], x ≤ (30 : UInt32)) x (List.mem_of_mem_take hx))
    (lt_of_le_of_lt (Nat.mul_le_mul_left _ (List.length_take_le' _ _)) (by decide))
    value_one value_hundred (by norm_num) (by norm_num) (by norm_num)

end StorTrace.Digestible
