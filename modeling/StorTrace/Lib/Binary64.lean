import StorTrace.Lib.Unpacked

/-!
# `Lib.Binary64` — the doubles of the machine and the rationals they stand for

`value f` is the rational the double `f` stands for. The operations on doubles are those on the rationals,
rounded, as long as the exact result is not too large; comparisons and the conversions from and to 32-bit
integers are exact.
-/

namespace Binary64

open Float.Model Float.Model.UnpackedFloat Rounding

/-- The rational a double stands for. -/
def value (f : Float) : Option ℚ := rational f.toModel.unpack

theorem canonical_toModel (f : Float) : Canonical f.toModel.unpack := canonical_unpack _

theorem unpack_ofModel_pack {u : UnpackedFloat} (h : Canonical u) : (Float.ofModel (.pack u)).toModel.unpack = u :=
  unpack_pack h

theorem IsResult.value {u : UnpackedFloat} {q : ℚ} (h : IsResult u q) :
    ∃ v, value (.ofModel (.pack u)) = some v ∧ Rounds q v := by
  unfold Binary64.value
  rw [unpack_ofModel_pack h.canonical]
  exact h.rounds

variable {f g : Float} {p q : ℚ}

theorem isDouble_of_value (h : value f = some q) : IsDouble q := isDouble_of_rational (canonical_toModel f) h

theorem value_add (hf : value f = some p) (hg : value g = some q) (h : |p + q| < 2 ^ (1023 : ℤ)) :
    ∃ v, value (f + g) = some v ∧ Rounds (p + q) v :=
  (isResult_add (canonical_toModel f) (canonical_toModel g) hf hg h).value

theorem value_sub (hf : value f = some p) (hg : value g = some q) (h : |p - q| < 2 ^ (1023 : ℤ)) :
    ∃ v, value (f - g) = some v ∧ Rounds (p - q) v :=
  (isResult_sub (canonical_toModel f) (canonical_toModel g) hf hg h).value

theorem value_mul (hf : value f = some p) (hg : value g = some q) (h : |p * q| < 2 ^ (1023 : ℤ)) :
    ∃ v, value (f * g) = some v ∧ Rounds (p * q) v :=
  (isResult_mul (canonical_toModel f) (canonical_toModel g) hf hg h).value

theorem value_div (hf : value f = some p) (hg : value g = some q) (hq : q ≠ 0) (h : |p / q| < 2 ^ (1023 : ℤ)) :
    ∃ v, value (f / g) = some v ∧ Rounds (p / q) v :=
  (isResult_div (canonical_toModel f) (canonical_toModel g) hf hg hq h).value

theorem compare_value (hf : value f = some p) (hg : value g = some q) :
    f.toModel.unpack.compare g.toModel.unpack = some (compare p q) :=
  compare_eq (canonical_toModel f) (canonical_toModel g) hf hg

theorem lt_iff_value (hf : value f = some p) (hg : value g = some q) : f < g ↔ p < q := by
  have hdef : f < g ↔ (f.toModel.unpack.compare g.toModel.unpack == some .lt) = true := decide_eq_true_iff
  rw [hdef, compare_value hf hg, ← compare_lt_iff_lt]
  simp

theorem le_iff_value (hf : value f = some p) (hg : value g = some q) : f ≤ g ↔ p ≤ q := by
  have hdef : f ≤ g ↔ (f.toModel.unpack.compare g.toModel.unpack).any (·.isLE) = true := decide_eq_true_iff
  rw [hdef, compare_value hf hg, ← compare_le_iff_le]
  simp [Ordering.isLE_iff_ne_gt]

theorem beq_iff_value (hf : value f = some p) (hg : value g = some q) : (f == g) = true ↔ p = q := by
  show (f.toModel.unpack.compare g.toModel.unpack == some .eq) = true ↔ p = q
  rw [compare_value hf hg, ← compare_eq_iff_eq]
  simp

theorem toUInt32_value (hf : value f = some q) (hq : 0 ≤ q) (hlt : q < 4294967296) :
    f.toUInt32.toNat = ⌊q⌋₊ := toUInt32_eq hf hq hlt

theorem lt_limit {q : ℚ} (h : |q| ≤ 2 ^ 128) : |q| < 2 ^ (1023 : ℤ) := by
  refine lt_of_le_of_lt h ?_
  rw [← zpow_natCast]
  exact zpow_lt_zpow_right₀ (by norm_num) (by norm_num)

/-- Whole numbers of 53 bits are added exactly. -/
theorem value_add_natCast {a b : ℕ} (hf : value f = some (a : ℚ)) (hg : value g = some (b : ℚ))
    (h : a + b ≤ 2 ^ 53) : value (f + g) = some ((a + b : ℕ) : ℚ) := by
  have hbound : |(a : ℚ) + b| ≤ 2 ^ 128 := by
    rw [abs_of_nonneg (by positivity)]
    exact le_trans (by exact_mod_cast h) (by norm_num : (2 : ℚ) ^ 53 ≤ 2 ^ 128)
  obtain ⟨v, hv, hrounds⟩ := value_add hf hg (lt_limit hbound)
  have hdouble : IsDouble ((a : ℚ) + b) := by exact_mod_cast isDouble_natCast h
  rw [hv, hrounds.eq_self hdouble, Nat.cast_add]

/-- **A weighted step of a mean**, with every operation rounded. -/
theorem value_step {weight total : Float} {w W : ℕ} (hf : value f = some p) (hp : |p| ≤ 2 ^ 64)
    (hg : value g = some q) (hq : |q| ≤ 2 ^ 64) (hweight : value weight = some (w : ℚ))
    (htotal : value total = some (W : ℚ)) (hw : w < W) (hW : W ≤ 2 ^ 32) :
    ∃ v, value (f + (g - f) * weight / total) = some v ∧ Step p q w W v := by
  have hW0 : (0 : ℚ) < W := by exact_mod_cast Nat.zero_lt_of_lt hw
  have hw32 : |(w : ℚ)| ≤ 2 ^ 32 := by
    rw [Nat.abs_cast]
    exact_mod_cast le_trans hw.le hW
  -- every intermediate result is far below the largest double
  have hdiff : |q - p| ≤ 2 ^ 65 := le_trans (abs_sub q p) (by linarith)
  obtain ⟨diff, hdiffv, hdiffr⟩ := value_sub hg hf (lt_limit (le_trans hdiff (by norm_num)))
  have hdiff' := hdiffr.abs_le_of (isDouble_two_pow 65) hdiff
  have hprod : |diff * w| ≤ 2 ^ 97 := by
    rw [abs_mul]
    exact le_trans (mul_le_mul hdiff' hw32 (abs_nonneg _) (by positivity)) (by norm_num)
  obtain ⟨prod, hprodv, hprodr⟩ := value_mul hdiffv hweight (lt_limit (le_trans hprod (by norm_num)))
  have hprod' := hprodr.abs_le_of (isDouble_two_pow 97) hprod
  have hquot : |prod / W| ≤ 2 ^ 97 := by
    rw [abs_div, abs_of_pos hW0]
    exact le_trans (div_le_self (abs_nonneg _) (by exact_mod_cast Nat.zero_lt_of_lt hw)) hprod'
  obtain ⟨quot, hquotv, hquotr⟩ := value_div hprodv htotal hW0.ne' (lt_limit (le_trans hquot (by norm_num)))
  have hquot' := hquotr.abs_le_of (isDouble_two_pow 97) hquot
  have hsum : |p + quot| ≤ 2 ^ 98 := le_trans (abs_add_le p quot) (by linarith)
  obtain ⟨v, hv, hvr⟩ := value_add hf hquotv (lt_limit (le_trans hsum (by norm_num)))
  exact ⟨v, hv, ⟨diff, prod, quot, hdiffr, hprodr, hquotr, hvr⟩⟩

theorem value_ofInt {n : ℤ} (h : |n| ≤ 2 ^ 53) :
    value (.ofModel (.pack (ofInt Format.binary64 n))) = some (n : ℚ) := by
  have hcast : |(n : ℚ)| ≤ 2 ^ 53 := by
    rw [← Int.cast_abs]
    exact_mod_cast h
  have hres := isResult_normalize (n := n) (e := 0) (lt_limit (by
    rw [zpow_zero, mul_one]
    exact le_trans hcast (by norm_num)))
  rw [zpow_zero, mul_one] at hres
  obtain ⟨v, hv, hrounds⟩ := hres.value
  rwa [hrounds.eq_self (isDouble_intCast h)] at hv

/-- A whole number of 32 bits is converted as it is. -/
theorem value_toFloat (n : UInt32) : value n.toFloat = some (n.toNat : ℚ) := by
  have hlt := n.toNat_lt
  have hvalue := value_ofInt (n := n.toNat) (by rw [Nat.abs_cast]; omega)
  exact_mod_cast hvalue

theorem value_zero : value 0 = some 0 := by
  have hzero : (0 : Float) = UInt32.toFloat 0 := by decide
  rw [hzero, value_toFloat]
  rfl

theorem value_one : value 1 = some 1 := by
  have hone : (1 : Float) = UInt32.toFloat 1 := by decide
  rw [hone, value_toFloat]
  rfl

theorem value_hundred : value 100 = some 100 := by
  have hhundred : (100 : Float) = UInt32.toFloat 100 := by decide
  rw [hhundred, value_toFloat]
  rfl

/-! ## What is not a number -/

def IsNaN (f : Float) : Prop := f.toModel.unpack = .notANumber

theorem IsNaN.value (h : IsNaN f) : value f = none := by
  have hrat : rational f.toModel.unpack = none := by
    rw [show f.toModel.unpack = _ from h]
    rfl
  exact hrat

theorem isNaN_of_unpacked {u : UnpackedFloat} (h : u = .notANumber) : IsNaN (.ofModel (.pack u)) := by
  subst h
  exact unpack_ofModel_pack (u := .notANumber) trivial

theorem IsNaN.mul (h : IsNaN f) (g : Float) : IsNaN (f * g) := by
  refine isNaN_of_unpacked (u := UnpackedFloat.mul Format.binary64 f.toModel.unpack g.toModel.unpack) ?_
  rw [show f.toModel.unpack = _ from h]
  rfl

theorem IsNaN.sub (h : IsNaN f) (g : Float) : IsNaN (g - f) := by
  refine isNaN_of_unpacked (u := UnpackedFloat.sub Format.binary64 g.toModel.unpack f.toModel.unpack) ?_
  rw [show f.toModel.unpack = _ from h]
  cases g.toModel.unpack <;> rfl

/-- Zero divided by zero. -/
theorem isNaN_zero_div_zero : IsNaN (UInt32.toFloat 0 / UInt32.toFloat 0) := rfl

/-! ## Rounding to a whole number -/


/-- `std::round`: the nearest whole number, halves away from zero. -/
def stdRound (f : Float) : Float :=
  match f.toModel.unpack with
  | .finite s m e _ =>
      if 0 ≤ e then f
      else
        let n := (m + 2 ^ ((-e).toNat - 1)) / 2 ^ (-e).toNat
        .ofModel (.pack (if n = 0 then .zero s else UnpackedFloat.round Format.binary64 s n 0))
  | _ => f

/-- A number that is not negative is rounded to the whole number below it and a half. -/
theorem value_stdRound (hf : value f = some q) (hq : 0 ≤ q) :
    value (stdRound f) = some (⌊q + 1 / 2⌋₊ : ℚ) := by
  have hcanon := canonical_toModel f
  have hrat : rational f.toModel.unpack = some q := hf
  unfold stdRound
  cases hu : f.toModel.unpack with
  | infinity s =>
      rw [hu] at hrat
      cases hrat
  | notANumber =>
      rw [hu] at hrat
      cases hrat
  | zero s =>
      rw [hu] at hrat
      obtain rfl : (0 : ℚ) = q := Option.some.inj hrat
      have hfloor : ⌊(0 : ℚ) + 1 / 2⌋₊ = 0 := by
        rw [Nat.floor_eq_zero]
        norm_num
      rw [hfloor, Nat.cast_zero]
      exact hf
  | finite s m e hm =>
      rw [hu] at hrat hcanon
      obtain rfl : signed s (m * 2 ^ e) = q := Option.some.inj hrat
      cases s with
      | negative => exact absurd hq (not_le.mpr (signed_lt_zero hm e))
      | positive =>
          simp only [signed] at *
          by_cases he : 0 ≤ e
          · -- a whole number already
            obtain ⟨k, rfl⟩ : ∃ k : ℕ, e = k := ⟨e.toNat, by omega⟩
            have hwhole : (m : ℚ) * 2 ^ (k : ℤ) = ((m * 2 ^ k : ℕ) : ℚ) := by
              push_cast
              rw [zpow_natCast]
            have hfloor : ⌊((m * 2 ^ k : ℕ) : ℚ) + 1 / 2⌋₊ = m * 2 ^ k := by
              rw [Nat.floor_eq_iff (by positivity)]
              constructor <;> linarith
            rw [if_pos he, hf, hwhole, hfloor]
          · obtain ⟨k, rfl⟩ : ∃ k : ℕ, e = -((k + 1 : ℕ) : ℤ) := ⟨(-e).toNat - 1, by omega⟩
            have hquot : (m : ℚ) * 2 ^ (-((k + 1 : ℕ) : ℤ)) = m / 2 ^ (k + 1) := by
              rw [zpow_neg, zpow_natCast, div_eq_mul_inv]
            have hfloor : ⌊(m : ℚ) * 2 ^ (-((k + 1 : ℕ) : ℤ)) + 1 / 2⌋₊ = (m + 2 ^ k) / 2 ^ (k + 1) := by
              have hsum : (m : ℚ) / 2 ^ (k + 1) + 1 / 2 = ((m + 2 ^ k : ℕ) : ℚ) / (2 ^ (k + 1) : ℕ) := by
                push_cast
                rw [pow_succ]
                field_simp
              rw [hquot, hsum, Nat.floor_div_eq_div]
            have hsmall : (m + 2 ^ k) / 2 ^ (k + 1) ≤ m := by
              refine Nat.div_le_of_le_mul ?_
              have hpow : 0 < 2 ^ k := by positivity
              rw [pow_succ]
              nlinarith
            rw [if_neg he, hfloor]
            simp only [neg_neg, Int.toNat_natCast, Nat.add_sub_cancel]
            generalize (m + 2 ^ k) / 2 ^ (k + 1) = n at *
            have hn53 : n ≤ 2 ^ 53 := le_trans hsmall hcanon.1.le
            by_cases hn : n = 0
            · rw [if_pos hn]
              unfold value
              rw [unpack_ofModel_pack (u := .zero .positive) trivial, hn, Nat.cast_zero]
              rfl
            · have hres := isResult_round .positive (Nat.pos_of_ne_zero hn) (e := 0) (lt_of_abs_lt (lt_limit (by
                rw [zpow_zero, mul_one, Nat.abs_cast]
                exact le_trans (by exact_mod_cast hn53) (by norm_num : (2 : ℚ) ^ 53 ≤ 2 ^ 128))))
              rw [zpow_zero, mul_one] at hres
              obtain ⟨v, hv, hrounds⟩ := hres.value
              rw [if_neg hn, hv, hrounds.eq_self (isDouble_natCast hn53)]
              rfl

end Binary64
