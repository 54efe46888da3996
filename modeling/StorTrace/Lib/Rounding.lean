import Mathlib.Algebra.Order.Field.Power
import Mathlib.Algebra.Order.Field.Rat
import Mathlib.Algebra.Order.Round
import Mathlib.Tactic.Linarith
import Mathlib.Tactic.Positivity
import Mathlib.Tactic.Ring
import Mathlib.Tactic.NormNum
import Mathlib.Tactic.FieldSimp

/-!
# `Lib.Rounding` — rounding to the nearest double, as a relation on rationals

A double is a whole number of at most 53 bits times a power of two not below `2 ^ (-1074)`. `Rounds x v` says
that `v` is `x` rounded to the grid of the doubles of `x`'s size, half a step away at most; a tie goes to the
even side, and there is no largest double. What the programs rest on follows from that: rounding keeps the order with
respect to doubles (`Rounds.le`, `Rounds.ge`), leaves doubles alone (`Rounds.eq_self`) and has a small relative
error (`Rounds.error`).

`Step.between` is the use of all three: a weighted step from one double towards another, computed as
`m + (c - m) * w / W` with every operation rounded, does not leave the interval between the two.
-/

namespace Rounding

/-- The exponent of the smallest double. -/
def minExp : ℤ := -1074

/-- The finite doubles, without a bound on the size. -/
def IsDouble (q : ℚ) : Prop := ∃ m e : ℤ, |m| ≤ 2 ^ 53 ∧ minExp ≤ e ∧ q = m * 2 ^ e

/-- `v` is `x` rounded to the multiples of `2 ^ t`, where `2 ^ t` is the last place of the doubles of `x`'s
    size. -/
structure RoundsAt (t : ℤ) (x v : ℚ) : Prop where
  grid : ∃ r : ℤ, v = r * 2 ^ t ∧ (|v - x| = 2 ^ t / 2 → Even r)
  near : |v - x| ≤ 2 ^ t / 2
  min : minExp ≤ t
  lt : |x| < 2 ^ (t + 53)
  ge : t = minExp ∨ 2 ^ (t + 52) ≤ |x|

/-- `v` is `x` rounded to a nearest double. -/
def Rounds (x v : ℚ) : Prop := ∃ t, RoundsAt t x v

theorem two_zpow_pos (t : ℤ) : (0 : ℚ) < 2 ^ t := zpow_pos (by norm_num) t

theorem two_zpow_add (s t : ℤ) : (2 : ℚ) ^ (s + t) = 2 ^ s * 2 ^ t := zpow_add₀ (by norm_num) s t

/-! ## Doubles -/

theorem isDouble_intCast {n : ℤ} (h : |n| ≤ 2 ^ 53) : IsDouble n := ⟨n, 0, h, by simp [minExp], by simp⟩

theorem isDouble_natCast {n : ℕ} (h : n ≤ 2 ^ 53) : IsDouble n := by
  have hn : |(n : ℤ)| ≤ 2 ^ 53 := by
    rw [Nat.abs_cast]
    exact_mod_cast h
  exact_mod_cast isDouble_intCast hn

theorem isDouble_two_pow (k : ℕ) : IsDouble (2 ^ k) :=
  ⟨1, k, by norm_num, by unfold minExp; omega, by simp⟩

theorem isDouble_zero : IsDouble 0 := by exact_mod_cast isDouble_natCast (n := 0) (by norm_num)

theorem IsDouble.neg {q : ℚ} (h : IsDouble q) : IsDouble (-q) := by
  obtain ⟨m, e, hm, he, rfl⟩ := h
  exact ⟨-m, e, by rwa [abs_neg], he, by push_cast; ring⟩

/-- The grid of all doubles: the multiples of the smallest one. -/
def OnGrid (q : ℚ) : Prop := ∃ n : ℤ, q = n * 2 ^ minExp

theorem IsDouble.onGrid {q : ℚ} (h : IsDouble q) : OnGrid q := by
  obtain ⟨m, e, -, he, rfl⟩ := h
  refine ⟨m * 2 ^ (e - minExp).toNat, ?_⟩
  have hpow : (2 : ℚ) ^ e = 2 ^ (e - minExp).toNat * 2 ^ minExp := by
    rw [← zpow_natCast, ← two_zpow_add, Int.toNat_of_nonneg (by omega)]
    congr 1
    omega
  rw [hpow]
  push_cast
  ring

theorem OnGrid.sub {p q : ℚ} (hp : OnGrid p) (hq : OnGrid q) : OnGrid (p - q) := by
  obtain ⟨n, rfl⟩ := hp
  obtain ⟨k, rfl⟩ := hq
  exact ⟨n - k, by push_cast; ring⟩

theorem OnGrid.mul_natCast {p : ℚ} (hp : OnGrid p) (w : ℕ) : OnGrid (p * w) := by
  obtain ⟨n, rfl⟩ := hp
  exact ⟨n * w, by push_cast; ring⟩

/-- A number of the grid is a double unless it is large. -/
theorem OnGrid.isDouble_or_le {q : ℚ} (h : OnGrid q) : IsDouble q ∨ 2 ^ (53 + minExp) ≤ |q| := by
  obtain ⟨n, rfl⟩ := h
  rcases le_or_gt |n| (2 ^ 53) with hn | hn
  · exact Or.inl ⟨n, minExp, hn, le_refl _, rfl⟩
  · right
    have hcast : (2 : ℚ) ^ (53 : ℤ) ≤ |(n : ℚ)| := by
      rw [← Int.cast_abs]
      exact_mod_cast hn.le
    rw [abs_mul, abs_of_pos (two_zpow_pos _), two_zpow_add]
    exact mul_le_mul_of_nonneg_right hcast (two_zpow_pos _).le

/-! ## What rounding does -/

variable {t : ℤ} {x v d : ℚ}

theorem RoundsAt.neg (h : RoundsAt t x v) : RoundsAt t (-x) (-v) where
  grid := by
    obtain ⟨r, rfl, heven⟩ := h.grid
    refine ⟨-r, by push_cast; ring, fun htie => (heven ?_).neg⟩
    rwa [show -(r * 2 ^ t) - -x = -(r * 2 ^ t - x) by ring, abs_neg] at htie
  near := by
    rw [show -v - -x = -(v - x) by ring, abs_neg]
    exact h.near
  min := h.min
  lt := by
    rw [abs_neg]
    exact h.lt
  ge := by
    rw [abs_neg]
    exact h.ge

theorem Rounds.neg (h : Rounds x v) : Rounds (-x) (-v) := by
  obtain ⟨t, ht⟩ := h
  exact ⟨t, ht.neg⟩

/-- Rounding does not pass a point of its own grid. -/
theorem RoundsAt.le_of_grid (h : RoundsAt t x v) {n : ℤ} (hx : x ≤ n * 2 ^ t) : v ≤ n * 2 ^ t := by
  obtain ⟨r, rfl, -⟩ := h.grid
  have hpos := two_zpow_pos t
  have hnear := (abs_le.mp h.near).2
  have hlt : (r : ℚ) < n + 1 := by
    refine lt_of_mul_lt_mul_right ?_ hpos.le
    linarith
  have hle : r ≤ n := by
    have hcast : r < n + 1 := by exact_mod_cast hlt
    omega
  exact mul_le_mul_of_nonneg_right (by exact_mod_cast hle) hpos.le

/-- Between a number and a double not below it there is a point of the number's own grid. -/
theorem RoundsAt.exists_grid (h : RoundsAt t x v) (hd : IsDouble d) (hx : x ≤ d) :
    ∃ n : ℤ, x ≤ n * 2 ^ t ∧ (n : ℚ) * 2 ^ t ≤ d := by
  obtain ⟨m, e, hm, he, rfl⟩ := hd
  rcases le_or_gt t e with hte | hte
  · -- the double's own grid is not finer
    have hpow : (2 : ℚ) ^ e = 2 ^ (e - t).toNat * 2 ^ t := by
      rw [← zpow_natCast, ← two_zpow_add, Int.toNat_of_nonneg (by omega)]
      congr 1
      omega
    refine ⟨m * 2 ^ (e - t).toNat, ?_⟩
    push_cast
    rw [mul_assoc, ← hpow]
    exact ⟨hx, le_refl _⟩
  · -- the double is not larger than the smallest of `x`'s size
    have hge : (2 : ℚ) ^ (t + 52) ≤ |x| := by
      rcases h.ge with hmin | hge
      · omega
      · exact hge
    have hcast : |(m : ℚ)| ≤ 2 ^ (53 : ℤ) := by
      rw [← Int.cast_abs]
      exact_mod_cast hm
    have hstep : (2 : ℚ) ^ (53 : ℤ) * 2 ^ e ≤ 2 ^ (t + 52) := by
      rw [← two_zpow_add]
      exact zpow_le_zpow_right₀ (by norm_num) (by omega)
    have hsmall : |(m : ℚ) * 2 ^ e| ≤ 2 ^ (t + 52) := by
      rw [abs_mul, abs_of_pos (two_zpow_pos e)]
      exact le_trans (mul_le_mul_of_nonneg_right hcast (two_zpow_pos e).le) hstep
    have hpow : (2 : ℚ) ^ (t + 52) = (2 ^ 52 : ℤ) * 2 ^ t := by
      rw [two_zpow_add]
      push_cast
      ring
    have hle := (abs_le.mp hsmall).1
    rcases le_total 0 x with hx0 | hx0
    · refine ⟨2 ^ 52, ?_, ?_⟩
      · rw [← hpow]
        exact le_trans hx (le_trans (le_abs_self _) hsmall)
      · rw [← hpow]
        rw [abs_of_nonneg hx0] at hge
        exact le_trans hge hx
    · refine ⟨-2 ^ 52, ?_, ?_⟩
      · rw [abs_of_nonpos hx0] at hge
        push_cast at hpow ⊢
        linarith
      · push_cast at hpow ⊢
        linarith

/-- **Rounding does not pass a double from below.** -/
theorem Rounds.le (h : Rounds x v) (hd : IsDouble d) (hx : x ≤ d) : v ≤ d := by
  obtain ⟨t, ht⟩ := h
  obtain ⟨n, hxn, hnd⟩ := ht.exists_grid hd hx
  exact le_trans (ht.le_of_grid hxn) hnd

/-- **Rounding does not pass a double from above.** -/
theorem Rounds.ge (h : Rounds x v) (hd : IsDouble d) (hx : d ≤ x) : d ≤ v := by
  have hle := h.neg.le hd.neg (neg_le_neg hx)
  exact neg_le_neg_iff.mp hle

theorem Rounds.abs_le_of (h : Rounds x v) (hd : IsDouble d) (hx : |x| ≤ d) : |v| ≤ d := by
  rw [abs_le] at hx ⊢
  exact ⟨h.ge hd.neg hx.1, h.le hd hx.2⟩

/-- **A double is rounded to itself.** -/
theorem Rounds.eq_self (h : Rounds x v) (hx : IsDouble x) : v = x :=
  le_antisymm (h.le hx (le_refl x)) (h.ge hx (le_refl x))

theorem Rounds.onGrid (h : Rounds x v) : OnGrid v := by
  obtain ⟨t, ht⟩ := h
  obtain ⟨r, rfl, -⟩ := ht.grid
  refine ⟨r * 2 ^ (t - minExp).toNat, ?_⟩
  have hpow : (2 : ℚ) ^ t = 2 ^ (t - minExp).toNat * 2 ^ minExp := by
    rw [← zpow_natCast, ← two_zpow_add, Int.toNat_of_nonneg (by have := ht.min; omega)]
    congr 1
    omega
  rw [hpow]
  push_cast
  ring

/-- What rounding returns is a double. -/
theorem Rounds.isDouble (h : Rounds x v) : IsDouble v := by
  obtain ⟨t, ht⟩ := h
  have hpos := two_zpow_pos t
  have hlt := ht.lt
  have hnear := ht.near
  obtain ⟨r, rfl, -⟩ := ht.grid
  refine ⟨r, t, ?_, ht.min, rfl⟩
  rw [add_comm, two_zpow_add] at hlt
  have habs : |(r : ℚ)| * 2 ^ t < (2 ^ 53 + 1) * 2 ^ t := by
    have htri := abs_sub_abs_le_abs_sub ((r : ℚ) * 2 ^ t) x
    rw [abs_mul, abs_of_pos hpos] at htri
    have h53 : (2 : ℚ) ^ (53 : ℤ) = 2 ^ 53 := by norm_num
    rw [h53] at hlt
    linarith
  have hr : |(r : ℚ)| < 2 ^ 53 + 1 := lt_of_mul_lt_mul_right habs hpos.le
  rw [← Int.cast_abs] at hr
  have hr' : |r| < 2 ^ 53 + 1 := by exact_mod_cast hr
  omega

/-- Two numbers of one grid between the same two neighbours are rounded to one of them. -/
theorem RoundsAt.mono {y w : ℚ} (hx : RoundsAt t x v) (hy : RoundsAt t y w) (hxy : x ≤ y) : v ≤ w := by
  by_contra hlt
  have hpos := two_zpow_pos t
  obtain ⟨r, rfl, hr⟩ := hx.grid
  obtain ⟨k, rfl, hk⟩ := hy.grid
  have hstep : k + 1 ≤ r := by
    by_contra hle
    exact hlt (mul_le_mul_of_nonneg_right (by exact_mod_cast (by omega : r ≤ k)) hpos.le)
  have hgap : (k : ℚ) * 2 ^ t + 2 ^ t ≤ r * 2 ^ t := by
    have hcast : (k : ℚ) + 1 ≤ r := by exact_mod_cast hstep
    linarith [mul_le_mul_of_nonneg_right hcast hpos.le]
  obtain ⟨-, hnear⟩ := abs_le.mp hx.near
  obtain ⟨hnear', -⟩ := abs_le.mp hy.near
  -- the two lie in the middle, and both of the neighbours would be even
  have hr2 : Even r := hr (by rw [abs_of_pos (by linarith)]; linarith)
  have hk2 : Even k := hk (by rw [abs_of_neg (by linarith)]; linarith)
  have heq : (r : ℚ) * 2 ^ t = (k + 1 : ℤ) * 2 ^ t := by
    push_cast
    linarith
  have hrk : r = k + 1 := by exact_mod_cast mul_right_cancel₀ hpos.ne' heq
  rw [hrk] at hr2
  exact Int.not_even_iff_odd.mpr hk2.add_one hr2

/-- Between numbers of different grids there is a double. -/
theorem RoundsAt.exists_between {s : ℤ} {y w : ℚ} (hx : RoundsAt t x v) (hy : RoundsAt s y w) (hts : t ≠ s)
    (hxy : x ≤ y) : ∃ d, IsDouble d ∧ x ≤ d ∧ d ≤ y := by
  have hdouble : ∀ k, minExp ≤ k → IsDouble (2 ^ (k + 52)) := by
    intro k hk
    refine ⟨2 ^ 52, k, by norm_num, hk, ?_⟩
    rw [add_comm, two_zpow_add]
    push_cast
    norm_num
  rcases lt_or_gt_of_ne hts with hlt | hlt
  · -- the smallest of `y`'s size in absolute value
    have hge : (2 : ℚ) ^ (s + 52) ≤ |y| := by
      rcases hy.ge with hmin | hge
      · have := hx.min
        omega
      · exact hge
    have hsmall : |x| < 2 ^ (s + 52) := lt_of_lt_of_le hx.lt (zpow_le_zpow_right₀ (by norm_num) (by omega))
    have hx' := (abs_lt.mp hsmall)
    rcases le_total 0 y with hy0 | hy0
    · rw [abs_of_nonneg hy0] at hge
      exact ⟨_, hdouble s hy.min, hx'.2.le, hge⟩
    · rw [abs_of_nonpos hy0] at hge
      linarith
  · have hge : (2 : ℚ) ^ (t + 52) ≤ |x| := by
      rcases hx.ge with hmin | hge
      · have := hy.min
        omega
      · exact hge
    have hsmall : |y| < 2 ^ (t + 52) := lt_of_lt_of_le hy.lt (zpow_le_zpow_right₀ (by norm_num) (by omega))
    have hy' := (abs_lt.mp hsmall)
    rcases le_total 0 x with hx0 | hx0
    · rw [abs_of_nonneg hx0] at hge
      linarith
    · rw [abs_of_nonpos hx0] at hge
      exact ⟨_, (hdouble t hx.min).neg, by linarith, hy'.1.le⟩

/-- **Rounding keeps the order.** -/
theorem Rounds.mono {y w : ℚ} (hx : Rounds x v) (hy : Rounds y w) (hxy : x ≤ y) : v ≤ w := by
  obtain ⟨t, ht⟩ := hx
  obtain ⟨s, hs⟩ := hy
  by_cases hts : t = s
  · subst hts
    exact ht.mono hs hxy
  · obtain ⟨d, hd, hxd, hdy⟩ := ht.exists_between hs hts hxy
    exact le_trans (Rounds.le ⟨t, ht⟩ hd hxd) (Rounds.ge ⟨s, hs⟩ hd hdy)

theorem Rounds.unique {w : ℚ} (h : Rounds x v) (h' : Rounds x w) : v = w :=
  le_antisymm (h.mono h' (le_refl x)) (h'.mono h (le_refl x))

/-- The error is half a place, relative to the number if that is not tiny. -/
theorem Rounds.error (h : Rounds x v) : |v - x| ≤ |x| / 2 ^ 53 + 2 ^ minExp / 2 := by
  obtain ⟨t, ht⟩ := h
  have hnear := ht.near
  rcases ht.ge with rfl | hge
  · have hnonneg : 0 ≤ |x| / 2 ^ 53 := by positivity
    linarith
  · have hhalf : (2 : ℚ) ^ t / 2 = 2 ^ (t + 52) / 2 ^ 53 := by
      rw [two_zpow_add]
      norm_num
      ring
    have hle : (2 : ℚ) ^ (t + 52) / 2 ^ 53 ≤ |x| / 2 ^ 53 := div_le_div_of_nonneg_right hge (by norm_num)
    have hpos := two_zpow_pos minExp
    linarith

/-- On the grid of the doubles the error is relative. -/
theorem Rounds.error_of_onGrid (h : Rounds x v) (hx : OnGrid x) : |v - x| ≤ |x| / 2 ^ 53 := by
  obtain ⟨t, ht⟩ := h
  rcases ht.ge with rfl | hge
  · -- numbers of this size on the grid are doubles
    obtain ⟨n, rfl⟩ := hx
    have hle := ht.le_of_grid (le_refl ((n : ℚ) * 2 ^ minExp))
    have hge : (n : ℚ) * 2 ^ minExp ≤ v := by
      have hneg := ht.neg.le_of_grid (n := -n) (by push_cast; linarith)
      push_cast at hneg
      linarith
    rw [le_antisymm hle hge, sub_self, abs_zero]
    positivity
  · have hhalf : (2 : ℚ) ^ t / 2 = 2 ^ (t + 52) / 2 ^ 53 := by
      rw [two_zpow_add]
      norm_num
      ring
    have hle : (2 : ℚ) ^ (t + 52) / 2 ^ 53 ≤ |x| / 2 ^ 53 := div_le_div_of_nonneg_right hge (by norm_num)
    linarith [ht.near]

/-! ## A weighted step -/

/-- The rounded results of `m + (c - m) * w / W`, in the order they are computed. -/
structure Step (m c : ℚ) (w W : ℕ) (v : ℚ) : Prop where
  rounds : ∃ diff prod quot, Rounds (c - m) diff ∧ Rounds (diff * w) prod ∧ Rounds (prod / W) quot ∧
    Rounds (m + quot) v

variable {m c : ℚ} {w W : ℕ}

theorem Step.neg (h : Step m c w W v) : Step (-m) (-c) w W (-v) := by
  obtain ⟨diff, prod, quot, hdiff, hprod, hquot, hv⟩ := h.rounds
  refine ⟨-diff, -prod, -quot, ?_, ?_, ?_, ?_⟩
  · rw [show -c - -m = -(c - m) by ring]
    exact hdiff.neg
  · rw [neg_mul]
    exact hprod.neg
  · rw [neg_div]
    exact hquot.neg
  · rw [← neg_add]
    exact hv.neg

/-- The quotient of a step upwards is not larger than the way there is. -/
theorem quot_le (hm : IsDouble m) (hc : IsDouble c) (hw : w < W) (hW : W ≤ 2 ^ 32) (hmc : m ≤ c)
    {diff prod quot : ℚ} (hdiff : Rounds (c - m) diff) (hprod : Rounds (diff * w) prod)
    (hquot : Rounds (prod / W) quot) : quot ≤ c - m := by
  have hd : OnGrid (c - m) := hc.onGrid.sub hm.onGrid
  have hd0 : 0 ≤ c - m := sub_nonneg.mpr hmc
  have hdiff0 : 0 ≤ diff := hdiff.ge isDouble_zero hd0
  have hprod0 : 0 ≤ prod := hprod.ge isDouble_zero (by positivity)
  have hWpos : (0 : ℚ) < W := by exact_mod_cast Nat.zero_lt_of_lt hw
  have hw1 : (w : ℚ) + 1 ≤ W := by exact_mod_cast hw
  have hW32 : (W : ℚ) ≤ 4294967296 := by exact_mod_cast hW
  have hprodle : prod ≤ diff * (w * (1 + 1 / 2 ^ 53)) := by
    have herr := (abs_le.mp (hprod.error_of_onGrid (hdiff.onGrid.mul_natCast w))).2
    rw [abs_of_nonneg (by positivity)] at herr
    linarith
  rcases hd.isDouble_or_le with hdouble | hlarge
  · -- the difference is exact, and one rounding does not make up for what the weights leave
    rw [hdiff.eq_self hdouble] at hprodle
    refine hquot.le hdouble ?_
    rw [div_le_iff₀ hWpos]
    refine le_trans hprodle (mul_le_mul_of_nonneg_left ?_ hd0)
    linarith
  · -- three roundings and half of the smallest double
    rw [abs_of_nonneg hd0] at hlarge
    have hdiffle : diff ≤ (c - m) * (1 + 1 / 2 ^ 53) := by
      have herr := (abs_le.mp (hdiff.error_of_onGrid hd)).2
      rw [abs_of_nonneg hd0] at herr
      linarith
    have hquotle : quot ≤ prod / W * (1 + 1 / 2 ^ 53) + (c - m) / 2 ^ 54 := by
      have herr := (abs_le.mp hquot.error).2
      have hsmall : (2 : ℚ) ^ minExp / 2 ≤ (c - m) / 2 ^ 54 := by
        rw [two_zpow_add] at hlarge
        norm_num at hlarge ⊢
        linarith
      rw [abs_of_nonneg (by positivity)] at herr
      linarith
    refine le_of_mul_le_mul_right ?_ hWpos
    have hprodle' : prod ≤ (c - m) * (1 + 1 / 2 ^ 53) * (w * (1 + 1 / 2 ^ 53)) :=
      le_trans hprodle (mul_le_mul_of_nonneg_right hdiffle (by positivity))
    calc quot * W ≤ (prod / W * (1 + 1 / 2 ^ 53) + (c - m) / 2 ^ 54) * W :=
          mul_le_mul_of_nonneg_right hquotle hWpos.le
      _ = prod * (1 + 1 / 2 ^ 53) + (c - m) * (W / 2 ^ 54) := by field_simp
      _ ≤ (c - m) * (1 + 1 / 2 ^ 53) * (w * (1 + 1 / 2 ^ 53)) * (1 + 1 / 2 ^ 53) + (c - m) * (W / 2 ^ 54) := by
          linarith [mul_le_mul_of_nonneg_right hprodle' (by norm_num : (0 : ℚ) ≤ 1 + 1 / 2 ^ 53)]
      _ = (c - m) * (w * (1 + 1 / 2 ^ 53) ^ 3 + W / 2 ^ 54) := by ring
      _ ≤ (c - m) * W := by
          refine mul_le_mul_of_nonneg_left ?_ hd0
          norm_num
          linarith

/-- A step upwards ends between the two doubles. -/
theorem Step.between_of_le (h : Step m c w W v) (hm : IsDouble m) (hc : IsDouble c) (hw : w < W)
    (hW : W ≤ 2 ^ 32) (hmc : m ≤ c) : m ≤ v ∧ v ≤ c := by
  obtain ⟨diff, prod, quot, hdiff, hprod, hquot, hv⟩ := h.rounds
  have hdiff0 : 0 ≤ diff := hdiff.ge isDouble_zero (sub_nonneg.mpr hmc)
  have hprod0 : 0 ≤ prod := hprod.ge isDouble_zero (by positivity)
  have hquot0 : 0 ≤ quot := hquot.ge isDouble_zero (by positivity)
  have hle := quot_le hm hc hw hW hmc hdiff hprod hquot
  exact ⟨hv.ge hm (by linarith), hv.le hc (by linarith)⟩

/-- **A weighted step stays between the two doubles.** -/
theorem Step.between (h : Step m c w W v) (hm : IsDouble m) (hc : IsDouble c) (hw : w < W) (hW : W ≤ 2 ^ 32) :
    min m c ≤ v ∧ v ≤ max m c := by
  rcases le_total m c with hmc | hmc
  · rw [min_eq_left hmc, max_eq_right hmc]
    exact h.between_of_le hm hc hw hW hmc
  · obtain ⟨hge, hle⟩ := h.neg.between_of_le hm.neg hc.neg hw hW (neg_le_neg hmc)
    rw [min_eq_right hmc, max_eq_left hmc]
    exact ⟨neg_le_neg_iff.mp hle, neg_le_neg_iff.mp hge⟩

/-! ## Blending -/

/-- The rounded results of `a + i / n * d`, in the order they are computed. -/
structure Blend (a d : ℚ) (i n : ℕ) (v : ℚ) : Prop where
  rounds : ∃ frac prod, Rounds (i / n) frac ∧ Rounds (frac * d) prod ∧ Rounds (a + prod) v

variable {a : ℚ} {i j n : ℕ}

theorem Blend.neg (h : Blend a d i n v) : Blend (-a) (-d) i n (-v) := by
  obtain ⟨frac, prod, hfrac, hprod, hv⟩ := h.rounds
  refine ⟨frac, -prod, hfrac, ?_, ?_⟩
  · rw [mul_neg]
    exact hprod.neg
  · rw [← neg_add]
    exact hv.neg

theorem frac_bounds {frac : ℚ} (hin : i ≤ n) (h : Rounds (i / n) frac) : 0 ≤ frac ∧ frac ≤ 1 := by
  refine ⟨h.ge isDouble_zero (by positivity), h.le (by exact_mod_cast isDouble_natCast (n := 1) (by norm_num)) ?_⟩
  exact div_le_one_of_le₀ (by exact_mod_cast hin) (by positivity)

/-- A blend lies between its ends. -/
theorem Blend.bounds (h : Blend a d i n v) (ha : IsDouble a) (hd : IsDouble d) (had : IsDouble (a + d)) (hd0 : 0 ≤ d)
    (hin : i ≤ n) : a ≤ v ∧ v ≤ a + d := by
  obtain ⟨frac, prod, hfrac, hprod, hv⟩ := h.rounds
  obtain ⟨hfrac0, hfrac1⟩ := frac_bounds hin hfrac
  have hprod0 : 0 ≤ prod := hprod.ge isDouble_zero (mul_nonneg hfrac0 hd0)
  have hprodd : prod ≤ d := hprod.le hd (mul_le_of_le_one_left hd0 hfrac1)
  exact ⟨hv.ge ha (by linarith), hv.le had (by linarith)⟩

/-- **A blend follows its index.** -/
theorem Blend.mono {v' : ℚ} (h : Blend a d i n v) (h' : Blend a d j n v') (hd0 : 0 ≤ d) (hij : i ≤ j) : v ≤ v' := by
  obtain ⟨frac, prod, hfrac, hprod, hv⟩ := h.rounds
  obtain ⟨frac', prod', hfrac', hprod', hv'⟩ := h'.rounds
  have hle : frac ≤ frac' :=
    hfrac.mono hfrac' (div_le_div_of_nonneg_right (by exact_mod_cast hij) (by positivity))
  have hle' : prod ≤ prod' := hprod.mono hprod' (mul_le_mul_of_nonneg_right hle hd0)
  exact hv.mono hv' (by linarith)

end Rounding
