import Mathlib.Data.List.Basic

/-!
# `Lib.Duration` — differences of clock readings in 64-bit arithmetic

Durations are computed by unsigned subtraction, which wraps when the minuend is the earlier reading.
`IsDuration stamps v` says that `v` is an honest duration between two of the readings `stamps`: the later
minus the earlier. A wrapped difference of readings below `clockLimit` (the range of a signed
nanosecond clock) is never one (`not_isDuration_of_wrap`).
-/

/-- The first value that a signed 64-bit clock never shows. -/
def clockLimit : Nat := 0x8000000000000000

/-- `v` is the later minus the earlier of two of the readings. -/
def IsDuration (stamps : List UInt64) (v : UInt64) : Prop :=
  ∃ a ∈ stamps, ∃ b ∈ stamps, a ≤ b ∧ v = b - a

instance (stamps : List UInt64) (v : UInt64) : Decidable (IsDuration stamps v) :=
  inferInstanceAs (Decidable (∃ a ∈ stamps, ∃ b ∈ stamps, a ≤ b ∧ v = b - a))

/-- Subtracting the earlier of two readings from the later. -/
theorem isDuration_sub {stamps : List UInt64} {a b : UInt64} (ha : a ∈ stamps) (hb : b ∈ stamps)
    (h : a ≤ b) : IsDuration stamps (b - a) :=
  ⟨a, ha, b, hb, h, rfl⟩

/-- A stage that the path does not have takes no time. -/
theorem isDuration_zero {stamps : List UInt64} {a : UInt64} (ha : a ∈ stamps) :
    IsDuration stamps 0 :=
  ⟨a, ha, a, ha, UInt64.le_refl a, by simp⟩

/-- A duration between readings below `clockLimit` is below it. -/
theorem IsDuration.toNat_lt {stamps : List UInt64} {v : UInt64} (h : IsDuration stamps v)
    (hs : ∀ a ∈ stamps, a.toNat < clockLimit) : v.toNat < clockLimit := by
  obtain ⟨a, ha, b, hb, hab, rfl⟩ := h
  rw [UInt64.toNat_sub_of_le b a hab]
  have hlt := hs b hb
  omega

/-- The earlier reading minus the later one wraps. -/
theorem toNat_sub_of_lt {a b : UInt64} (h : a < b) :
    (a - b).toNat = UInt64.size - (b.toNat - a.toNat) := by
  have hlt : a.toNat < b.toNat := UInt64.lt_iff_toNat_lt.mp h
  have hb := b.toNat_lt
  rw [UInt64.toNat_sub, UInt64.size]
  omega

/-- **A wrapped difference is no duration.** -/
theorem not_isDuration_of_wrap {stamps : List UInt64} {a b : UInt64} (h : a < b)
    (hb : b.toNat < clockLimit) (hs : ∀ c ∈ stamps, c.toNat < clockLimit) : ¬ IsDuration stamps (a - b) := by
  intro hd
  have hv := hd.toNat_lt hs
  rw [toNat_sub_of_lt h, UInt64.size] at hv
  -- the wrapped value is at least `2 ^ 64` minus the limit, a duration is below the limit
  unfold clockLimit at hv hb
  omega
