import Mathlib
import StorTrace.Lib.Rounding

/-!
# `Lib.Unpacked` — what the model of `Float` computes, on rationals

Lean defines the operations of `Float` on unpacked numbers: a sign, a mantissa and an exponent. Here each of
them is read as an operation on rationals. A result is the exact one rounded (`IsResult`), unless it is too
large for a double. The heart is `isResult_roundWithAccuracy`: the mantissa with its round and sticky bit
describes the exact value (`Describes`), a shift to the right keeps that, and the mantissa they round to is
half a place away at most.
-/

namespace Binary64

open Float.Model Float.Model.UnpackedFloat Rounding

/-- A number with the sign `s`. -/
def signed (s : Sign) (q : ℚ) : ℚ :=
  match s with
  | .negative => -q
  | .positive => q

/-- The rational an unpacked number stands for; none for an infinity and for what is not a number. -/
def rational : UnpackedFloat → Option ℚ
  | .finite s m e _ => some (signed s (m * 2 ^ e))
  | .zero _ => some 0
  | .infinity _ => none
  | .notANumber => none

/-- The unpacked numbers that fit into a double as they are. -/
def Canonical : UnpackedFloat → Prop
  | .finite _ m e _ => m < 2 ^ 53 ∧ -1074 ≤ e ∧ e ≤ 971 ∧ (2 ^ 52 ≤ m ∨ e = -1074)
  | _ => True

/-! ## Packing -/

theorem unpackSign_packComponents (s : Sign) (e : BitVec 11) (m : BitVec 52) :
    Sign.ofBitVec (unpackSign (packComponents Format.binary64 s e m)) = s := by
  have hsign : unpackSign (packComponents Format.binary64 s e m) = s.toBitVec := by
    ext i hi
    simp only [unpackSign, packComponents]
    grind
  rw [hsign]
  cases s with
  | negative => rfl
  | positive => rfl

theorem toNat_implicit (m : BitVec 52) : (1#1 ++ m).toNat = 2 ^ 52 + m.toNat := by
  have hor := Nat.two_pow_add_eq_or_of_lt m.isLt 1
  rw [BitVec.toNat_append, Nat.shiftLeft_eq]
  simpa using hor.symm

/-- What is unpacked is canonical. -/
theorem canonical_unpack (b : BitVec 64) : Canonical (unpack Format.binary64 b) := by
  have hmant := (@unpackMantissa Format.binary64 b).isLt
  have hexp := (@unpackExponent Format.binary64 b).isLt
  have hbias : Format.binary64.exponentBias = 1023 := by decide
  unfold UnpackedFloat.unpack
  simp only [hbias]
  split
  · split
    · trivial
    · trivial
  · rename_i hmax
    split
    · rename_i hzero
      split
      · trivial
      · simp only [Canonical, hzero, Format.binary64] at hmant ⊢
        simp
        omega
    · rename_i hzero
      have hmax' : (@unpackExponent Format.binary64 b).toNat ≠ 2047 := by
        intro h
        exact hmax (BitVec.eq_of_toNat_eq h)
      have hzero' : (@unpackExponent Format.binary64 b).toNat ≠ 0 := by
        intro h
        exact hzero (BitVec.eq_of_toNat_eq h)
      have himp := toNat_implicit (@unpackMantissa Format.binary64 b)
      simp only [Canonical, Format.binary64] at *
      rw [himp]
      omega

theorem finite_congr {s : Sign} {m m' : ℕ} {e e' : ℤ} {hm : 0 < m} {hm' : 0 < m'} (h : m = m') (he : e = e') :
    UnpackedFloat.finite s m e hm = .finite s m' e' hm' := by
  subst h he
  rfl

theorem unpack_normal (s : Sign) (e : BitVec 11) (m : BitVec 52) (hmax : e ≠ -1#11) (hzero : e ≠ 0#11) :
    UnpackedFloat.unpack Format.binary64 (packComponents Format.binary64 s e m) =
      .finite s (2 ^ 52 + m.toNat) (e.toNat - 1075) (by omega) := by
  have hbias : Format.binary64.exponentBias = 1023 := by decide
  unfold UnpackedFloat.unpack
  simp only [unpackExponent_packComponents, unpackMantissa_packComponents, unpackSign_packComponents]
  rw [if_neg hmax, if_neg hzero]
  refine finite_congr (toNat_implicit m) ?_
  rw [hbias]
  norm_num

theorem unpack_subnormal (s : Sign) (m : BitVec 52) (hm : m ≠ 0#52) :
    UnpackedFloat.unpack Format.binary64 (packComponents Format.binary64 s 0#11 m) =
      .finite s m.toNat (-1074) (by simpa [BitVec.toNat_pos, BitVec.pos_iff_ne_zero]) := by
  have hbias : Format.binary64.exponentBias = 1023 := by decide
  unfold UnpackedFloat.unpack
  simp only [unpackExponent_packComponents, unpackMantissa_packComponents, unpackSign_packComponents]
  rw [if_neg (by decide), if_pos trivial, dif_neg hm]
  refine finite_congr rfl ?_
  rw [hbias]
  rfl

/-- **Packing loses nothing of a canonical number.** -/
theorem unpack_pack {u : UnpackedFloat} (h : Canonical u) :
    UnpackedFloat.unpack Format.binary64 (UnpackedFloat.pack Format.binary64 u) = u := by
  cases u with
  | infinity s => simp [UnpackedFloat.pack, UnpackedFloat.unpack, packedInfinity]
  | notANumber => simp [UnpackedFloat.pack, UnpackedFloat.unpack, packedNaN]
  | zero s => simp [UnpackedFloat.pack, UnpackedFloat.unpack, packedZero]
  | finite s m e hm =>
      obtain ⟨hm53, hel, heu, hlo⟩ := h
      have hbias : Format.binary64.exponentBias = 1023 := by decide
      have hbits : Format.binary64.mantissaBits = 53 := by decide
      have hfits : ¬ 2 ^ 11 ≤ (e + (1023 : ℕ) + (52 : ℕ)).toNat + 1 := by omega
      unfold UnpackedFloat.pack
      simp only [hbias, hbits]
      rw [if_neg hfits]
      by_cases hnormal : 2 ^ 52 ≤ m
      · have hlog : m.log2 = 52 := (Nat.log2_eq_iff hm.ne').mpr ⟨hnormal, hm53⟩
        have hexp : (BitVec.ofNat 11 (e + (1023 : ℕ) + (52 : ℕ)).toNat).toNat = (e + 1075).toNat := by
          rw [BitVec.toNat_ofNat, Nat.mod_eq_of_lt (by omega)]
          congr 1
          omega
        rw [if_pos (by omega), unpack_normal]
        · refine finite_congr ?_ ?_
          · rw [BitVec.toNat_ofNat]
            omega
          · rw [hexp]
            omega
        · intro hmax
          rw [hmax] at hexp
          simp at hexp
          omega
        · intro hzero
          rw [hzero] at hexp
          simp at hexp
          omega
      · have hlog : m.log2 < 52 := (Nat.log2_lt hm.ne').mpr (by omega)
        have hmant : (BitVec.ofNat 52 m).toNat = m := by
          rw [BitVec.toNat_ofNat, Nat.mod_eq_of_lt (by omega)]
        rw [if_neg (by omega), unpack_subnormal]
        · exact finite_congr hmant (by omega)
        · intro hzero
          rw [hzero] at hmant
          simp at hmant
          omega

/-! ## Rounding a mantissa -/

/-- What a mantissa and its round and sticky bit say about the exact value `y`. -/
def Describes : ExtendedMantissa → ℚ → Prop
  | ⟨m, false, false⟩, y => y = m
  | ⟨m, false, true⟩,  y => m < y ∧ y < m + 1 / 2
  | ⟨m, true, false⟩,  y => y = m + 1 / 2
  | ⟨m, true, true⟩,   y => m + 1 / 2 < y ∧ y < m + 1

theorem Describes.shiftRightOne {em : ExtendedMantissa} {y : ℚ} (h : Describes em y) :
    Describes em.shiftRightOne (y / 2) := by
  obtain ⟨m, roundBit, stickyBit⟩ := em
  obtain ⟨n, rfl | rfl⟩ : ∃ n, m = 2 * n ∨ m = 2 * n + 1 := ⟨m / 2, by omega⟩
  · have hdiv : 2 * n / 2 = n := by omega
    have hmod : (2 * n % 2 != 0) = false := by simp
    cases roundBit <;> cases stickyBit <;>
      simp only [Describes, ExtendedMantissa.shiftRightOne, hdiv, hmod, Bool.or_false, Bool.or_true] at h ⊢ <;>
      push_cast at h <;> first | linarith | exact ⟨by linarith, by linarith⟩
  · have hdiv : (2 * n + 1) / 2 = n := by omega
    have hmod : ((2 * n + 1) % 2 != 0) = true := by simp [Nat.add_mod]
    cases roundBit <;> cases stickyBit <;>
      simp only [Describes, ExtendedMantissa.shiftRightOne, hdiv, hmod, Bool.or_false, Bool.or_true] at h ⊢ <;>
      push_cast at h <;> first | linarith | exact ⟨by linarith, by linarith⟩

theorem Describes.shiftRight {em : ExtendedMantissa} {y : ℚ} (h : Describes em y) (k : ℕ) :
    Describes (em >>> k) (y / 2 ^ k) := by
  induction k with
  | zero => simpa [HShiftRight.hShiftRight, Nat.repeat] using h
  | succ k ih =>
      have hstep := ih.shiftRightOne
      rw [div_div, ← pow_succ] at hstep
      exact hstep

/-- The rounded mantissa is half a place away at most, and even if it is that far. -/
theorem Describes.near {em : ExtendedMantissa} {y : ℚ} (h : Describes em y) :
    |(em.roundedMantissa : ℚ) - y| ≤ 1 / 2 ∧ (|(em.roundedMantissa : ℚ) - y| = 1 / 2 → Even em.roundedMantissa) := by
  obtain ⟨m, roundBit, stickyBit⟩ := em
  cases roundBit <;> cases stickyBit <;>
    simp only [Describes, ExtendedMantissa.roundedMantissa, ExtendedMantissa.accuracy,
      Accuracy.roundToNearestEven] at h ⊢
  · rw [h, sub_self, abs_zero]
    exact ⟨by norm_num, fun htie => absurd htie (by norm_num)⟩
  · have habs : |(m : ℚ) - y| < 1 / 2 := abs_lt.mpr ⟨by linarith, by linarith⟩
    exact ⟨habs.le, fun htie => absurd htie habs.ne⟩
  · -- the tie
    obtain ⟨n, rfl | rfl⟩ : ∃ n, m = 2 * n ∨ m = 2 * n + 1 := ⟨m / 2, by omega⟩
    · have hmod : 2 * n % 2 = 0 := by omega
      rw [hmod, h, Nat.add_zero]
      exact ⟨abs_le.mpr ⟨by linarith, by linarith⟩, fun _ => even_two_mul n⟩
    · have hmod : (2 * n + 1) % 2 = 1 := by omega
      rw [hmod, h]
      push_cast
      exact ⟨abs_le.mpr ⟨by linarith, by linarith⟩, fun _ => ⟨n + 1, by ring⟩⟩
  · push_cast
    have habs : |(m : ℚ) + 1 - y| < 1 / 2 := abs_lt.mpr ⟨by linarith, by linarith⟩
    exact ⟨habs.le, fun htie => absurd htie habs.ne⟩

theorem describes_exact (m : ℕ) : Describes (.ofMantissaAndAccuracy m .exact) m := rfl

theorem describes_fraction {m num den : ℕ} (h : num < den) :
    Describes (.ofMantissaAndAccuracy m (accuracyOfFraction num den)) (m + num / den) := by
  have hden : (0 : ℚ) < den := by exact_mod_cast Nat.zero_lt_of_lt h
  have hlt : (num : ℚ) / den < 1 := by
    rw [div_lt_one hden]
    exact_mod_cast h
  unfold accuracyOfFraction
  by_cases hzero : num = 0
  · rw [if_pos hzero]
    simp [hzero, Describes, ExtendedMantissa.ofMantissaAndAccuracy]
  · rw [if_neg hzero]
    have hpos : (0 : ℚ) < num / den := div_pos (by exact_mod_cast Nat.pos_of_ne_zero hzero) hden
    cases hcmp : compare (2 * num) den with
    | lt =>
        have hhalf : (num : ℚ) / den < 1 / 2 := by
          rw [div_lt_div_iff₀ hden (by norm_num)]
          have := Nat.compare_eq_lt.mp hcmp
          have hcast : (2 : ℚ) * num < den := by exact_mod_cast this
          linarith
        exact ⟨by linarith, by linarith⟩
    | eq =>
        have hhalf : (num : ℚ) / den = 1 / 2 := by
          rw [div_eq_div_iff hden.ne' (by norm_num)]
          have := Nat.compare_eq_eq.mp hcmp
          have hcast : (2 : ℚ) * num = den := by exact_mod_cast this
          linarith
        simp only [ExtendedMantissa.ofMantissaAndAccuracy, Describes]
        rw [hhalf]
    | gt =>
        have hhalf : (1 : ℚ) / 2 < num / den := by
          rw [div_lt_div_iff₀ (by norm_num) hden]
          have := Nat.compare_eq_gt.mp hcmp
          have hcast : (den : ℚ) < 2 * num := by exact_mod_cast this
          linarith
        exact ⟨by linarith, by linarith⟩

theorem rounds_signed {x v : ℚ} (h : Rounds x v) (s : Sign) : Rounds (signed s x) (signed s v) := by
  cases s with
  | negative => exact h.neg
  | positive => exact h

/-! ## Results -/

/-- The unpacked number `u` fits into a double, and is `x` rounded. -/
structure IsResult (u : UnpackedFloat) (x : ℚ) : Prop where
  canonical : Canonical u
  rounds : ∃ v, rational u = some v ∧ Rounds x v

/-- The exponent of the last place of the doubles of the size of `m * 2 ^ e`. -/
def place (m : ℕ) (e : ℤ) : ℤ := max (m.log2 + 1 + e - 53) (-1074)

theorem targetExponent_eq (m : ℕ) (e : ℤ) : Format.binary64.targetExponent (totalExponent m e) = place m e := by
  have hbits : Format.binary64.mantissaBits = 53 := by decide
  have hmin : Format.binary64.minExponent = -1074 := by decide
  unfold Format.targetExponent totalExponent place
  rw [hbits, hmin]
  rfl

/-- The place of a long mantissa is not below its exponent. -/
theorem le_place {m : ℕ} (hm : 2 ^ 52 ≤ m) (e : ℤ) : e ≤ place m e := by
  have hlog : 52 ≤ m.log2 := (Nat.le_log2 (by omega)).mpr hm
  unfold place
  omega

theorem min_le_place (m : ℕ) (e : ℤ) : -1074 ≤ place m e := le_max_right _ _

theorem shiftToTargetExponent_eq {m : ℕ} {e : ℤ} {acc : Accuracy} (he : e ≤ place m e) :
    shiftToTargetExponent Format.binary64 m e acc =
      (ExtendedMantissa.ofMantissaAndAccuracy m acc >>> (place m e - e).toNat, place m e) := by
  unfold shiftToTargetExponent shiftToExponent
  rw [targetExponent_eq]
  refine Prod.ext rfl ?_
  show e + ((place m e - e).toNat : ℤ) = place m e
  omega

/-! ## The two shifts of a rounding -/

/-- A mantissa of 53 bits stays as it is. -/
theorem shift_self {r : ℕ} {t : ℤ} (hr : r < 2 ^ 53) (ht : -1074 ≤ t) :
    shiftToTargetExponent Format.binary64 r t .exact = (⟨r, false, false⟩, t) := by
  have hlog : r.log2 ≤ 52 := by
    by_cases h : r = 0
    · rw [h]
      decide
    · exact Nat.le_of_lt_succ ((Nat.log2_lt h).mpr hr)
  have hplace : place r t ≤ t := by
    unfold place
    omega
  have hzero : (place r t - t).toNat = 0 := Int.toNat_eq_zero.mpr (by omega)
  unfold shiftToTargetExponent shiftToExponent
  simp only [targetExponent_eq, hzero]
  exact Prod.ext rfl (Int.add_zero t)

/-- A mantissa that has just outgrown them is halved. -/
theorem shift_carry {t : ℤ} (ht : -1074 ≤ t) :
    shiftToTargetExponent Format.binary64 (2 ^ 53) t .exact = (⟨2 ^ 52, false, false⟩, t + 1) := by
  have hplace : place (2 ^ 53) t = t + 1 := by
    unfold place
    rw [Nat.log2_two_pow]
    omega
  have he : t ≤ place (2 ^ 53) t := by omega
  rw [shiftToTargetExponent_eq he, hplace, show (t + 1 - t).toNat = 1 by omega]
  rfl

/-- What a rounding returns, given the mantissa its first shift is rounded to. -/
theorem roundWithAccuracy_eq {s : Sign} {m : ℕ} {e : ℤ} {acc : Accuracy} (he : e ≤ place m e) {r : ℕ}
    (hr : (ExtendedMantissa.ofMantissaAndAccuracy m acc >>> (place m e - e).toNat).roundedMantissa = r)
    (hle : r ≤ 2 ^ 53) :
    roundWithAccuracy Format.binary64 s m e acc =
      if h : r = 0 then .zero s
      else if r < 2 ^ 53 then .finite s r (place m e) (Nat.pos_of_ne_zero h)
      else .finite s (2 ^ 52) (place m e + 1) (by norm_num) := by
  have hmin : -1074 ≤ place m e := le_max_right _ _
  unfold roundWithAccuracy
  rw [shiftToTargetExponent_eq he]
  simp only [hr]
  rcases Nat.lt_or_eq_of_le hle with hlt | rfl
  · simp only [shift_self hlt hmin, if_pos hlt]
  · simp only [shift_carry hmin]
    rfl

/-- The exact value lies within one of its mantissa. -/
theorem Describes.bounds {em : ExtendedMantissa} {y : ℚ} (h : Describes em y) :
    (em.mantissa : ℚ) ≤ y ∧ y < em.mantissa + 1 := by
  obtain ⟨m, roundBit, stickyBit⟩ := em
  cases roundBit <;> cases stickyBit <;> simp only [Describes] at h ⊢ <;> constructor <;> linarith

theorem mantissa_ofMantissaAndAccuracy (m : ℕ) (acc : Accuracy) :
    (ExtendedMantissa.ofMantissaAndAccuracy m acc).mantissa = m := by
  cases acc with
  | exact => rfl
  | inexact o => cases o <;> rfl

/-- The exact value is of the size its place says. -/
theorem size_of_describes {m : ℕ} {e : ℤ} {acc : Accuracy} {y : ℚ}
    (hy : Describes (.ofMantissaAndAccuracy m acc) y) (he : e ≤ place m e) :
    0 ≤ y * 2 ^ e ∧ y * 2 ^ e < 2 ^ (place m e + 53) ∧
      (place m e = -1074 ∨ 2 ^ (place m e + 52) ≤ y * 2 ^ e) := by
  have hpos := two_zpow_pos e
  obtain ⟨hlo, hhi⟩ := hy.bounds
  rw [mantissa_ofMantissaAndAccuracy] at hlo hhi
  have hm0 : (0 : ℚ) ≤ m := by positivity
  refine ⟨mul_nonneg (le_trans hm0 hlo) hpos.le, ?_, ?_⟩
  · have hlog : (m : ℚ) + 1 ≤ 2 ^ ((m.log2 : ℤ) + 1) := by
      have := Nat.lt_log2_self (n := m)
      exact_mod_cast this
    calc y * 2 ^ e < 2 ^ ((m.log2 : ℤ) + 1) * 2 ^ e := mul_lt_mul_of_pos_right (lt_of_lt_of_le hhi hlog) hpos
      _ = 2 ^ ((m.log2 : ℤ) + 1 + e) := (two_zpow_add _ _).symm
      _ ≤ 2 ^ (place m e + 53) := zpow_le_zpow_right₀ (by norm_num) (by unfold place; omega)
  · rcases max_choice ((m.log2 : ℤ) + 1 + e - 53) (-1074) with hplace | hplace
    · right
      change place m e = _ at hplace
      have hm : m ≠ 0 := by
        rintro rfl
        rw [Nat.log2_zero] at hplace
        omega
      have hlog : (2 : ℚ) ^ (m.log2 : ℤ) ≤ m := by
        have := Nat.log2_self_le hm
        exact_mod_cast this
      calc (2 : ℚ) ^ (place m e + 52) = 2 ^ (m.log2 : ℤ) * 2 ^ e := by
            rw [← two_zpow_add]
            congr 1
            omega
        _ ≤ y * 2 ^ e := mul_le_mul_of_nonneg_right (le_trans hlog hlo) hpos.le
    · exact Or.inl hplace

/-- **Rounding a mantissa gives the exact value rounded.** -/
theorem isResult_roundWithAccuracy {m : ℕ} {e : ℤ} {acc : Accuracy} {y : ℚ} (s : Sign)
    (hy : Describes (.ofMantissaAndAccuracy m acc) y) (he : e ≤ place m e) (hx : y * 2 ^ e < 2 ^ (1023 : ℤ)) :
    IsResult (roundWithAccuracy Format.binary64 s m e acc) (signed s (y * 2 ^ e)) := by
  obtain ⟨hx0, hlt, hge⟩ := size_of_describes hy he
  have hmin : -1074 ≤ place m e := le_max_right _ _
  generalize ht : place m e = t at *
  have hpos := two_zpow_pos t
  -- the exact value in units of the last place, and the whole number it is rounded to
  have hshift := hy.shiftRight (t - e).toNat
  have hscale : y / 2 ^ (t - e).toNat * 2 ^ t = y * 2 ^ e := by
    have hpow : (2 : ℚ) ^ t = 2 ^ (t - e).toNat * 2 ^ e := by
      rw [← zpow_natCast, ← two_zpow_add, Int.toNat_of_nonneg (by omega)]
      congr 1
      omega
    rw [hpow]
    field_simp
  generalize y / 2 ^ (t - e).toNat = z at *
  have hnear := hshift.near
  generalize hr : (ExtendedMantissa.ofMantissaAndAccuracy m acc >>> (t - e).toNat).roundedMantissa = r at *
  rw [← hscale] at hx hx0 hlt hge ⊢
  obtain ⟨hnear, heven⟩ := hnear
  obtain ⟨hnear1, hnear2⟩ := abs_le.mp hnear
  have hz53 : z < 2 ^ 53 := by
    rw [add_comm, two_zpow_add] at hlt
    exact lt_of_mul_lt_mul_right hlt hpos.le
  have hr53 : r ≤ 2 ^ 53 := by
    have hlt' : (r : ℚ) < 2 ^ 53 + 1 := by linarith
    exact Nat.le_of_lt_succ (by exact_mod_cast hlt')
  have hr52 : t = -1074 ∨ 2 ^ 52 ≤ r := by
    refine hge.imp_right (fun h => ?_)
    rw [add_comm, two_zpow_add] at h
    have hz52 : (2 : ℚ) ^ 52 ≤ z := le_of_mul_le_mul_right h hpos
    have hlt' : (2 : ℚ) ^ 52 < r + 1 := by linarith
    exact Nat.le_of_lt_succ (by exact_mod_cast hlt')
  have ht970 : t ≤ 970 := by
    rcases hge with rfl | hge
    · norm_num
    · have hexp : t + 52 < 1023 := (zpow_lt_zpow_iff_right₀ (by norm_num)).mp (lt_of_le_of_lt hge hx)
      omega
  have hrounds : Rounds (z * 2 ^ t) (r * 2 ^ t) := by
    refine ⟨t, ⟨r, by push_cast; ring, fun htie => ?_⟩, ?_, hmin, ?_, ?_⟩
    · rw [← sub_mul, abs_mul, abs_of_pos hpos] at htie
      have hhalf : |(r : ℚ) - z| = 1 / 2 := mul_right_cancel₀ hpos.ne' (by rw [htie]; ring)
      exact_mod_cast heven hhalf
    · rw [← sub_mul, abs_mul, abs_of_pos hpos]
      linarith [mul_le_mul_of_nonneg_right hnear hpos.le]
    · rwa [abs_of_nonneg hx0]
    · rwa [abs_of_nonneg hx0]
  rw [roundWithAccuracy_eq (ht ▸ he) (ht ▸ hr) hr53, ht]
  by_cases hzero : r = 0
  · rw [dif_pos hzero]
    refine ⟨trivial, 0, rfl, ?_⟩
    have hz := rounds_signed hrounds s
    cases s with
    | negative => simpa [signed, hzero] using hz
    | positive => simpa [signed, hzero] using hz
  · rw [dif_neg hzero]
    by_cases hlt53 : r < 2 ^ 53
    · rw [if_pos hlt53]
      exact ⟨⟨hlt53, hmin, by omega, hr52.symm⟩, _, rfl, rounds_signed hrounds s⟩
    · obtain rfl : r = 2 ^ 53 := by omega
      rw [if_neg hlt53]
      refine ⟨⟨by norm_num, by omega, by omega, Or.inl (le_refl _)⟩, _, rfl, ?_⟩
      have hcarry : ((2 ^ 52 : ℕ) : ℚ) * 2 ^ (t + 1) = ((2 ^ 53 : ℕ) : ℚ) * 2 ^ t := by
        rw [two_zpow_add]
        push_cast
        ring
      rw [hcarry]
      exact rounds_signed hrounds s

/-! ## The operations -/

theorem signed_mul (s s' : Sign) (p q : ℚ) : signed (s * s') (p * q) = signed s p * signed s' q := by
  cases s with
  | negative =>
      cases s' with
      | negative => exact (neg_mul_neg p q).symm
      | positive => exact (neg_mul p q).symm
  | positive =>
      cases s' with
      | negative => exact (mul_neg p q).symm
      | positive => rfl

theorem signed_div (s s' : Sign) (p q : ℚ) : signed (s / s') (p / q) = signed s p / signed s' q := by
  cases s with
  | negative =>
      cases s' with
      | negative => exact (neg_div_neg_eq p q).symm
      | positive => exact (neg_div q p).symm
  | positive =>
      cases s' with
      | negative => exact (div_neg p).symm
      | positive => rfl

theorem abs_signed (s : Sign) (q : ℚ) : |signed s q| = |q| := by
  cases s with
  | negative => exact abs_neg q
  | positive => rfl

/-- A canonical number is its own rounding. -/
theorem isResult_self {u : UnpackedFloat} {q : ℚ} (hu : Canonical u) (hq : rational u = some q) : IsResult u q := by
  refine ⟨hu, q, hq, ?_⟩
  cases u with
  | infinity s => cases hq
  | notANumber => cases hq
  | zero s =>
      obtain rfl : (0 : ℚ) = q := Option.some.inj hq
      refine ⟨minExp, ⟨0, by simp, fun _ => Even.zero⟩, ?_, le_refl _, ?_, Or.inl rfl⟩
      · rw [sub_self, abs_zero]
        exact (half_pos (two_zpow_pos _)).le
      · rw [abs_zero]
        exact two_zpow_pos _
  | finite s m e hm =>
      obtain rfl : signed s (m * 2 ^ e) = q := Option.some.inj hq
      obtain ⟨hm53, hel, heu, hlo⟩ := hu
      have hpos := two_zpow_pos e
      refine rounds_signed ⟨e, ⟨m, by push_cast; ring, fun htie => ?_⟩, ?_, hel, ?_, ?_⟩ s
      · rw [sub_self, abs_zero] at htie
        exact absurd htie (half_pos hpos).ne
      · rw [sub_self, abs_zero]
        positivity
      · rw [abs_of_nonneg (by positivity), add_comm, two_zpow_add]
        exact mul_lt_mul_of_pos_right (by exact_mod_cast hm53) hpos
      · rw [abs_of_nonneg (by positivity), add_comm, two_zpow_add]
        refine hlo.symm.imp_right (fun h => ?_)
        exact mul_le_mul_of_nonneg_right (by exact_mod_cast h) hpos.le

theorem isDouble_of_rational {u : UnpackedFloat} {q : ℚ} (hu : Canonical u) (hq : rational u = some q) :
    IsDouble q := by
  cases u with
  | infinity s => cases hq
  | notANumber => cases hq
  | zero s =>
      obtain rfl : (0 : ℚ) = q := Option.some.inj hq
      exact isDouble_zero
  | finite s m e hm =>
      obtain rfl : signed s (m * 2 ^ e) = q := Option.some.inj hq
      have hdouble : IsDouble (m * 2 ^ e) := ⟨m, e, by rw [Nat.abs_cast]; exact_mod_cast hu.1.le, hu.2.1, by push_cast; ring⟩
      cases s with
      | negative => exact hdouble.neg
      | positive => exact hdouble

theorem log2_mul_two_pow {m : ℕ} (hm : 0 < m) (k : ℕ) : (m * 2 ^ k).log2 = m.log2 + k := by
  refine (Nat.log2_eq_iff (by positivity)).mpr ⟨?_, ?_⟩
  · rw [pow_add]
    exact Nat.mul_le_mul_right _ (Nat.log2_self_le hm.ne')
  · rw [show m.log2 + k + 1 = m.log2 + 1 + k by omega, pow_add _ _ k]
    exact Nat.mul_lt_mul_of_pos_right Nat.lt_log2_self (by positivity)

theorem isResult_round (s : Sign) {m : ℕ} (hm : 0 < m) {e : ℤ} (hx : (m : ℚ) * 2 ^ e < 2 ^ (1023 : ℤ)) :
    IsResult (UnpackedFloat.round Format.binary64 s m e) (signed s (m * 2 ^ e)) := by
  have hvalue : ((m <<< (e - place m e).toNat : ℕ) : ℚ) * 2 ^ (e - (e - place m e).toNat) = m * 2 ^ e := by
    rw [Nat.shiftLeft_eq]
    push_cast
    rw [mul_assoc, ← zpow_natCast, ← two_zpow_add]
    congr 2
    omega
  have hplace : place (m <<< (e - place m e).toNat) (e - (e - place m e).toNat) = place m e := by
    unfold place
    rw [Nat.shiftLeft_eq, log2_mul_two_pow hm]
    push_cast
    congr 1
    omega
  unfold UnpackedFloat.round
  simp only [targetExponent_eq, decreaseExponent]
  rw [← hvalue]
  refine isResult_roundWithAccuracy s (describes_exact _) ?_ ?_
  · rw [hplace]
    omega
  · rwa [hvalue]

theorem isResult_normalize {n e : ℤ} (hx : |(n : ℚ) * 2 ^ e| < 2 ^ (1023 : ℤ)) :
    IsResult (normalize Format.binary64 n e .positive) (n * 2 ^ e) := by
  rw [abs_mul, abs_of_pos (two_zpow_pos e)] at hx
  unfold UnpackedFloat.normalize
  cases hcmp : compare n 0 with
  | lt =>
      have hn : n < 0 := by simpa [compare_lt_iff_lt] using hcmp
      obtain ⟨m, rfl⟩ : ∃ m : ℕ, n = -m := ⟨(-n).toNat, by omega⟩
      have hres := isResult_round .negative (m := m) (by omega) (e := e) (by simpa using hx)
      simpa [signed] using hres
  | eq =>
      have hn : n = 0 := by simpa [compare_eq_iff_eq] using hcmp
      simpa [hn] using isResult_self (u := .zero .positive) trivial rfl
  | gt =>
      have hn : 0 < n := by simpa [compare_gt_iff_gt] using hcmp
      obtain ⟨m, rfl⟩ : ∃ m : ℕ, n = m := ⟨n.toNat, by omega⟩
      have hres := isResult_round .positive (m := m) (by omega) (e := e) (by simpa using hx)
      simpa [signed] using hres

/-- A mantissa brought to a smaller exponent. -/
theorem apply_align (s : Sign) (m : ℕ) {e t : ℤ} (h : t ≤ e) :
    ((s.apply ((m <<< (e - t).toNat : ℕ) : ℤ) : ℤ) : ℚ) * 2 ^ t = signed s (m * 2 ^ e) := by
  have hpow : (2 : ℚ) ^ e = 2 ^ (e - t).toNat * 2 ^ t := by
    rw [← zpow_natCast, ← two_zpow_add, Int.toNat_of_nonneg (by omega)]
    congr 1
    omega
  rw [Nat.shiftLeft_eq, hpow]
  cases s with
  | negative =>
      simp only [Sign.apply, signed]
      push_cast
      ring
  | positive =>
      simp only [Sign.apply, signed]
      push_cast
      ring

variable {a b : UnpackedFloat} {x y : ℚ}

theorem isResult_add (ha : Canonical a) (hb : Canonical b) (hx : rational a = some x) (hy : rational b = some y)
    (hbound : |x + y| < 2 ^ (1023 : ℤ)) : IsResult (UnpackedFloat.add Format.binary64 a b) (x + y) := by
  cases a with
  | infinity s => cases hx
  | notANumber => cases hx
  | zero s =>
      obtain rfl : (0 : ℚ) = x := Option.some.inj hx
      rw [zero_add]
      cases b with
      | infinity s' => cases hy
      | notANumber => cases hy
      | zero s' =>
          obtain rfl : (0 : ℚ) = y := Option.some.inj hy
          show IsResult (if s == s' then .zero s else .zero .positive) 0
          split
          · exact isResult_self trivial rfl
          · exact isResult_self trivial rfl
      | finite s' m' e' hm' => exact isResult_self hb hy
  | finite s m e hm =>
      cases b with
      | infinity s' => cases hy
      | notANumber => cases hy
      | zero s' =>
          obtain rfl : (0 : ℚ) = y := Option.some.inj hy
          rw [add_zero]
          exact isResult_self ha hx
      | finite s' m' e' hm' =>
          obtain rfl : signed s (m * 2 ^ e) = x := Option.some.inj hx
          obtain rfl : signed s' (m' * 2 ^ e') = y := Option.some.inj hy
          have hsum := (congrArg₂ (· + ·) (apply_align s m (min_le_left e e'))
            (apply_align s' m' (min_le_right e e'))).symm
          simp only [← add_mul, ← Int.cast_add] at hsum
          rw [hsum] at hbound ⊢
          exact isResult_normalize hbound

theorem signed_neg (s : Sign) (q : ℚ) : signed (-s) q = -signed s q := by
  cases s with
  | negative => exact (neg_neg q).symm
  | positive => rfl

theorem isResult_sub (ha : Canonical a) (hb : Canonical b) (hx : rational a = some x) (hy : rational b = some y)
    (hbound : |x - y| < 2 ^ (1023 : ℤ)) : IsResult (UnpackedFloat.sub Format.binary64 a b) (x - y) := by
  cases a with
  | infinity s => cases hx
  | notANumber => cases hx
  | zero s =>
      obtain rfl : (0 : ℚ) = x := Option.some.inj hx
      cases b with
      | infinity s' => cases hy
      | notANumber => cases hy
      | zero s' =>
          obtain rfl : (0 : ℚ) = y := Option.some.inj hy
          rw [sub_zero]
          show IsResult (if s == -s' then .zero s else .zero .positive) 0
          split
          · exact isResult_self trivial rfl
          · exact isResult_self trivial rfl
      | finite s' m' e' hm' =>
          obtain rfl : signed s' (m' * 2 ^ e') = y := Option.some.inj hy
          rw [zero_sub, ← signed_neg]
          exact isResult_self (u := .finite (-s') m' e' hm') hb rfl
  | finite s m e hm =>
      cases b with
      | infinity s' => cases hy
      | notANumber => cases hy
      | zero s' =>
          obtain rfl : (0 : ℚ) = y := Option.some.inj hy
          rw [sub_zero]
          exact isResult_self ha hx
      | finite s' m' e' hm' =>
          obtain rfl : signed s (m * 2 ^ e) = x := Option.some.inj hx
          obtain rfl : signed s' (m' * 2 ^ e') = y := Option.some.inj hy
          have hdiff := (congrArg₂ (· - ·) (apply_align s m (min_le_left e e'))
            (apply_align s' m' (min_le_right e e'))).symm
          simp only [← sub_mul, ← Int.cast_sub] at hdiff
          rw [hdiff] at hbound ⊢
          exact isResult_normalize hbound

theorem isResult_mul (ha : Canonical a) (hb : Canonical b) (hx : rational a = some x) (hy : rational b = some y)
    (hbound : |x * y| < 2 ^ (1023 : ℤ)) : IsResult (UnpackedFloat.mul Format.binary64 a b) (x * y) := by
  cases a with
  | infinity s => cases hx
  | notANumber => cases hx
  | zero s =>
      obtain rfl : (0 : ℚ) = x := Option.some.inj hx
      rw [zero_mul]
      cases b with
      | infinity s' => cases hy
      | notANumber => cases hy
      | zero s' => exact isResult_self trivial rfl
      | finite s' m' e' hm' => exact isResult_self trivial rfl
  | finite s m e hm =>
      cases b with
      | infinity s' => cases hy
      | notANumber => cases hy
      | zero s' =>
          obtain rfl : (0 : ℚ) = y := Option.some.inj hy
          rw [mul_zero]
          exact isResult_self trivial rfl
      | finite s' m' e' hm' =>
          obtain rfl : signed s (m * 2 ^ e) = x := Option.some.inj hx
          obtain rfl : signed s' (m' * 2 ^ e') = y := Option.some.inj hy
          have hprod : (m : ℚ) * 2 ^ e * (m' * 2 ^ e') = ((m * m' : ℕ) : ℚ) * 2 ^ (e + e') := by
            rw [two_zpow_add]
            push_cast
            ring
          rw [← signed_mul, hprod] at hbound ⊢
          rw [abs_signed, abs_of_nonneg (by positivity)] at hbound
          refine isResult_roundWithAccuracy (s * s') (describes_exact (m * m')) ?_ hbound
          rcases ha.2.2.2 with hlong | he
          · exact le_place (le_trans hlong (Nat.le_mul_of_pos_right m hm')) _
          · rcases hb.2.2.2 with hlong | he'
            · exact le_place (le_trans hlong (Nat.le_mul_of_pos_left m' hm)) _
            · have hmin := min_le_place (m * m') (e + e')
              omega

/-- What the division of two mantissas computes. -/
theorem divCore_spec {m m' : ℕ} (hm : 0 < m) (hm' : 0 < m') (e e' : ℤ) :
    ∃ (n : ℕ) (t : ℤ) (acc : Accuracy) (z : ℚ), divCore Format.binary64 m e m' e' = (n, t, acc) ∧
      Describes (.ofMantissaAndAccuracy n acc) z ∧ z * 2 ^ t = m * 2 ^ e / (m' * 2 ^ e') ∧ t ≤ place n t := by
  have hbits : Format.binary64.mantissaBits = 53 := by decide
  have hmin : Format.binary64.minExponent = -1074 := by decide
  have hm'0 : (m' : ℚ) ≠ 0 := by exact_mod_cast hm'.ne'
  generalize ht : min (e - e')
    (Format.binary64.targetExponent (totalExponent m e - totalExponent m' e')) = t
  have hcore : divCore Format.binary64 m e m' e' = (m <<< (e - e' - t).toNat / m', t,
      accuracyOfFraction (m <<< (e - e' - t).toNat % m') m') := by
    rw [← ht]
    rfl
  refine ⟨_, _, _, _, hcore, describes_fraction (Nat.mod_lt _ hm'), ?_, ?_⟩
  · have hdiv : ((m <<< (e - e' - t).toNat / m' : ℕ) : ℚ) + (m <<< (e - e' - t).toNat % m' : ℕ) / m' =
        (m <<< (e - e' - t).toNat : ℕ) / m' := by
      rw [eq_div_iff hm'0, add_mul, div_mul_cancel₀ _ hm'0]
      exact_mod_cast Nat.div_add_mod' _ _
    have hpow : (2 : ℚ) ^ e = 2 ^ (e - e' - t).toNat * 2 ^ t * 2 ^ e' := by
      rw [← zpow_natCast, ← two_zpow_add, ← two_zpow_add, Int.toNat_of_nonneg (by omega)]
      congr 1
      omega
    rw [hdiv, hpow, Nat.shiftLeft_eq]
    push_cast
    field_simp
  · unfold Format.targetExponent totalExponent at ht
    rw [hbits, hmin] at ht
    rcases le_or_gt t (-1074) with hle | hgt
    · exact le_trans hle (min_le_place _ _)
    · -- the dividend is shifted far enough for a quotient of 53 bits
      refine le_place ?_ _
      rw [Nat.le_div_iff_mul_le hm', Nat.shiftLeft_eq]
      calc 2 ^ 52 * m' ≤ 2 ^ 52 * 2 ^ (m'.log2 + 1) := Nat.mul_le_mul_left _ Nat.lt_log2_self.le
        _ = 2 ^ (52 + (m'.log2 + 1)) := (pow_add _ _ _).symm
        _ ≤ 2 ^ (m.log2 + (e - e' - t).toNat) := Nat.pow_le_pow_right (by norm_num) (by omega)
        _ = 2 ^ m.log2 * 2 ^ (e - e' - t).toNat := pow_add _ _ _
        _ ≤ m * 2 ^ (e - e' - t).toNat := Nat.mul_le_mul_right _ (Nat.log2_self_le hm.ne')

theorem isResult_div (ha : Canonical a) (hb : Canonical b) (hx : rational a = some x) (hy : rational b = some y)
    (hy0 : y ≠ 0) (hbound : |x / y| < 2 ^ (1023 : ℤ)) :
    IsResult (UnpackedFloat.div Format.binary64 a b) (x / y) := by
  cases b with
  | infinity s' => cases hy
  | notANumber => cases hy
  | zero s' => exact absurd (Option.some.inj hy).symm hy0
  | finite s' m' e' hm' =>
      cases a with
      | infinity s => cases hx
      | notANumber => cases hx
      | zero s =>
          obtain rfl : (0 : ℚ) = x := Option.some.inj hx
          rw [zero_div]
          exact isResult_self trivial rfl
      | finite s m e hm =>
          obtain rfl : signed s (m * 2 ^ e) = x := Option.some.inj hx
          obtain rfl : signed s' (m' * 2 ^ e') = y := Option.some.inj hy
          obtain ⟨n, t, acc, z, hcore, hz, hvalue, hplace⟩ := divCore_spec hm hm' e e'
          rw [← signed_div, ← hvalue] at hbound ⊢
          rw [abs_signed] at hbound
          show IsResult (roundWithAccuracy Format.binary64 (s / s') (divCore Format.binary64 m e m' e').1
            (divCore Format.binary64 m e m' e').2.1 (divCore Format.binary64 m e m' e').2.2) _
          rw [hcore]
          exact isResult_roundWithAccuracy (s / s') hz hplace (lt_of_abs_lt hbound)

/-! ## Comparing -/

/-- With canonical mantissas the larger exponent decides. -/
theorem lt_of_exp_lt {m m' : ℕ} {e e' : ℤ} (hm : m < 2 ^ 53) (hel : -1074 ≤ e) (hlo : 2 ^ 52 ≤ m' ∨ e' = -1074)
    (h : e < e') : (m : ℚ) * 2 ^ e < m' * 2 ^ e' := by
  have hm' : (2 : ℚ) ^ (52 : ℤ) ≤ m' := by
    rcases hlo with hlo | rfl
    · exact_mod_cast hlo
    · omega
  calc (m : ℚ) * 2 ^ e < 2 ^ (53 : ℤ) * 2 ^ e :=
        mul_lt_mul_of_pos_right (by exact_mod_cast hm) (two_zpow_pos e)
    _ = 2 ^ (53 + e) := (two_zpow_add _ _).symm
    _ ≤ 2 ^ (52 + e') := zpow_le_zpow_right₀ (by norm_num) (by omega)
    _ = 2 ^ (52 : ℤ) * 2 ^ e' := two_zpow_add _ _
    _ ≤ m' * 2 ^ e' := mul_le_mul_of_nonneg_right hm' (two_zpow_pos e').le

theorem compare_mantissas {s s' : Sign} {m m' : ℕ} {e e' : ℤ} {hm : 0 < m} {hm' : 0 < m'}
    (ha : Canonical (.finite s m e hm)) (hb : Canonical (.finite s' m' e' hm')) :
    (compare e e').then (compare m m') = compare ((m : ℚ) * 2 ^ e) (m' * 2 ^ e') := by
  rcases lt_trichotomy e e' with h | rfl | h
  · rw [compare_lt_iff_lt.mpr h, compare_lt_iff_lt.mpr (lt_of_exp_lt ha.1 ha.2.1 hb.2.2.2 h)]
    rfl
  · have hpos := two_zpow_pos e
    rw [compare_eq_iff_eq.mpr rfl]
    rcases lt_trichotomy m m' with h | rfl | h
    · rw [compare_lt_iff_lt.mpr (mul_lt_mul_of_pos_right (by exact_mod_cast h) hpos), compare_lt_iff_lt.mpr h]
      rfl
    · rw [compare_eq_iff_eq.mpr rfl, compare_eq_iff_eq.mpr rfl]
      rfl
    · rw [compare_gt_iff_gt.mpr (mul_lt_mul_of_pos_right (by exact_mod_cast h) hpos), compare_gt_iff_gt.mpr h]
      rfl
  · rw [compare_gt_iff_gt.mpr h, compare_gt_iff_gt.mpr (lt_of_exp_lt hb.1 hb.2.1 ha.2.2.2 h)]
    rfl

theorem compare_neg_neg (p q : ℚ) : compare (-p) (-q) = (compare p q).swap := by
  rcases lt_trichotomy p q with h | rfl | h
  · rw [compare_lt_iff_lt.mpr h, compare_gt_iff_gt.mpr (neg_lt_neg h)]
    rfl
  · rw [compare_eq_iff_eq.mpr rfl, compare_eq_iff_eq.mpr rfl]
    rfl
  · rw [compare_gt_iff_gt.mpr h, compare_lt_iff_lt.mpr (neg_lt_neg h)]
    rfl

theorem signed_pos {m : ℕ} (hm : 0 < m) (e : ℤ) : 0 < signed .positive ((m : ℚ) * 2 ^ e) :=
  mul_pos (by exact_mod_cast hm) (two_zpow_pos e)

theorem signed_lt_zero {m : ℕ} (hm : 0 < m) (e : ℤ) : signed .negative ((m : ℚ) * 2 ^ e) < 0 :=
  neg_lt_zero.mpr (signed_pos hm e)

/-- **Canonical numbers compare as the rationals they stand for.** -/
theorem compare_eq (ha : Canonical a) (hb : Canonical b) (hx : rational a = some x) (hy : rational b = some y) :
    a.compare b = some (compare x y) := by
  cases a with
  | infinity s => cases hx
  | notANumber => cases hx
  | zero s =>
      obtain rfl : (0 : ℚ) = x := Option.some.inj hx
      cases b with
      | infinity s' => cases hy
      | notANumber => cases hy
      | zero s' =>
          obtain rfl : (0 : ℚ) = y := Option.some.inj hy
          rw [compare_eq_iff_eq.mpr rfl]
          rfl
      | finite s' m' e' hm' =>
          obtain rfl : signed s' (m' * 2 ^ e') = y := Option.some.inj hy
          cases s' with
          | negative =>
              rw [compare_gt_iff_gt.mpr (signed_lt_zero hm' e')]
              rfl
          | positive =>
              rw [compare_lt_iff_lt.mpr (signed_pos hm' e')]
              rfl
  | finite s m e hm =>
      obtain rfl : signed s (m * 2 ^ e) = x := Option.some.inj hx
      cases b with
      | infinity s' => cases hy
      | notANumber => cases hy
      | zero s' =>
          obtain rfl : (0 : ℚ) = y := Option.some.inj hy
          cases s with
          | negative =>
              rw [compare_lt_iff_lt.mpr (signed_lt_zero hm e)]
              rfl
          | positive =>
              rw [compare_gt_iff_gt.mpr (signed_pos hm e)]
              rfl
      | finite s' m' e' hm' =>
          obtain rfl : signed s' (m' * 2 ^ e') = y := Option.some.inj hy
          cases s with
          | negative =>
              cases s' with
              | negative =>
                  simp only [signed]
                  rw [compare_neg_neg, ← compare_mantissas ha hb]
                  rfl
              | positive =>
                  rw [compare_lt_iff_lt.mpr (lt_trans (signed_lt_zero hm e) (signed_pos hm' e'))]
                  rfl
          | positive =>
              cases s' with
              | negative =>
                  rw [compare_gt_iff_gt.mpr (lt_trans (signed_lt_zero hm' e') (signed_pos hm e))]
                  rfl
              | positive =>
                  simp only [signed]
                  rw [← compare_mantissas ha hb]
                  rfl

/-! ## Conversions -/

/-- The part of the mantissa before the point. -/
theorem roundToInt_eq (m : ℕ) (e : ℤ) :
    roundToInt .positive m e = (⌊(m : ℚ) * 2 ^ e⌋₊ : ℤ) := by
  have hdesc := (describes_exact (m <<< (e - 0).toNat)).shiftRight (0 - (e - (e - 0).toNat)).toNat
  obtain ⟨hlo, hhi⟩ := hdesc.bounds
  have hvalue : ((m <<< (e - 0).toNat : ℕ) : ℚ) / 2 ^ (0 - (e - (e - 0).toNat)).toNat = m * 2 ^ e := by
    rw [Nat.shiftLeft_eq, div_eq_iff (by positivity)]
    push_cast
    rw [mul_assoc, ← zpow_natCast, ← zpow_natCast, ← two_zpow_add]
    congr 2
    omega
  rw [hvalue] at hlo hhi
  rw [(Nat.floor_eq_iff (by positivity)).mpr ⟨hlo, hhi⟩]
  rfl

theorem toUInt32_eq (hx : rational a = some x) (hx0 : 0 ≤ x) (hlt : x < 4294967296) :
    a.toUInt32.toNat = ⌊x⌋₊ := by
  cases a with
  | infinity s => cases hx
  | notANumber => cases hx
  | zero s =>
      obtain rfl : (0 : ℚ) = x := Option.some.inj hx
      rw [Nat.floor_zero]
      rfl
  | finite s m e hm =>
      obtain rfl : signed s (m * 2 ^ e) = x := Option.some.inj hx
      cases s with
      | negative => exact absurd hx0 (not_le.mpr (signed_lt_zero hm e))
      | positive =>
          have hfloor : ⌊(m : ℚ) * 2 ^ e⌋₊ < UInt32.size := (Nat.floor_lt hx0).mpr (by exact_mod_cast hlt)
          unfold UnpackedFloat.toUInt32 UnpackedFloat.toInt
          simp only [roundToInt_eq, Int.toNat_natCast, UInt32.ofNatClamp, dif_pos hfloor]
          rfl

end Binary64
