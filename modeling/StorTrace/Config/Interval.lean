import StorTrace.Config.Env
import StorTrace.Collector.WindowTotals

/-!
# `Config.Interval` — is the configured sampling interval the one used?

`pmc_inv` is read in milliseconds and multiplied in an `unsigned long`, stored in an `unsigned int`, passed
through an `int` parameter on every route and kept in an `unsigned long`. `intervalUsed_iff` says exactly for
which values the collectors get the interval that was configured.
-/

namespace StorTrace

open Ext4Dio

/-! ## The conversions -/

/-- Passing through an `int` extends the sign of the low half. -/
theorem toNat_intParam (w : UInt64) :
    (intParam w).toNat =
      if w.toNat % 4294967296 < 2147483648 then w.toNat % 4294967296
      else w.toNat % 4294967296 + 18446744069414584320 := by
  have hlow : w.toUInt32.toBitVec.toNat = w.toNat % 4294967296 := UInt64.toNat_toUInt32 w
  show (BitVec.signExtend 64 w.toUInt32.toBitVec).toNat = _
  rw [BitVec.toNat_signExtend, BitVec.toNat_setWidth, BitVec.msb_eq_decide, hlow]
  by_cases hs : w.toNat % 4294967296 < 2147483648
  · rw [if_pos hs, if_neg (by simpa using hs)]
    omega
  · rw [if_neg hs, if_pos (by simpa using hs)]
    omega

/-- The member `pmc_inv` of the environment. -/
theorem pmcInv_of_readConfig {config : Config} {env₀ env : Env} {stIno : Str → Option UInt64}
    (h : readConfig config env₀ stIno = .ok env) : env.pmcInv = (1000000 * config.pmcInv).toUInt32 := by
  obtain ⟨eType, -, h⟩ := bind_eq_ok.mp h
  obtain ⟨tLevel, -, h⟩ := bind_eq_ok.mp h
  obtain ⟨env₁, -, h⟩ := bind_eq_ok.mp h
  obtain ⟨env₂, -, h⟩ := bind_eq_ok.mp h
  obtain ⟨env₃, -, h⟩ := bind_eq_ok.mp h
  rw [← Except.ok.inj h]
  rfl

/-- The intervals that survive the way through `unsigned int` and `int`. -/
def FitsInt (ms : Nat) : Prop := ms ≤ 2147 ∨ 18446744071563 ≤ ms ∧ ms ≤ 18446744073709

instance (ms : Nat) : Decidable (FitsInt ms) := inferInstanceAs (Decidable (_ ∨ _))

/-- **The interval a collector keeps** is the configured one exactly for these values. -/
theorem toNat_intParam_pmcInv (ms : UInt64) :
    (intParam (1000000 * ms).toUInt32.toUInt64).toNat = ms.toNat * 1000000 ↔ FitsInt ms.toNat := by
  have hprod : (1000000 * ms).toUInt32.toUInt64.toNat = 1000000 * ms.toNat % 4294967296 := by
    rw [UInt32.toNat_toUInt64, UInt64.toNat_toUInt32, UInt64.toNat_mul]
    show 1000000 * ms.toNat % 18446744073709551616 % 4294967296 = _
    omega
  have hlt : ms.toNat < 18446744073709551616 := ms.toNat_lt
  rw [toNat_intParam, hprod, Nat.mod_mod]
  unfold FitsInt
  constructor
  · intro h
    split at h <;> omega
  · rintro (hsmall | ⟨hge, hle⟩)
    · -- the product is an `int`
      have hmod : 1000000 * ms.toNat % 4294967296 = 1000000 * ms.toNat := Nat.mod_eq_of_lt (by omega)
      rw [if_pos (by omega), hmod, Nat.mul_comm]
    · -- the sign is extended back into the product
      have hdiv : 1000000 * ms.toNat / 4294967296 = 4294967295 := by
        apply Nat.div_eq_of_lt_le <;> omega
      have hmod := Nat.div_add_mod (1000000 * ms.toNat) 4294967296
      rw [hdiv] at hmod
      rw [if_neg (by omega)]
      omega

/-! ## The collectors built from the environment -/

/-- **The configured interval is the one used**: by the throughput collectors, by the averages, and by the
    states of the hardware queues. It is not zero, and events `ms` milliseconds apart are in different
    windows. -/
structure IntervalUsed (ms : Nat) (env : Env) : Prop where
  throughput : (TimeThroughputPmc.new env.pmcInv.toUInt64).interval.toNat = ms * 1000000
  average : (TimeAvgPmc.new env.pmcInv.toUInt64).interval.toNat = ms * 1000000
  hctx (row : Int) (q : Ptr) :
    (HctxState.new (Info.InfoModule.new env.pmcInv.toUInt64 row).hctxTrace.interval q).interval.toNat = ms * 1000000
  dioThroughput (row : Int) :
    (Info.InfoModule.new env.pmcInv.toUInt64 row).collectors.dioThroughtput.interval.toNat = ms * 1000000
  ne_zero : (TimeThroughputPmc.new env.pmcInv.toUInt64).interval ≠ 0
  windows (start tp tp' : UInt64) (hstart : start ≤ tp) (hlater : tp.toNat + ms * 1000000 ≤ tp'.toNat) :
    windowNo (TimeThroughputPmc.new env.pmcInv.toUInt64).interval start tp ≠
      windowNo (TimeThroughputPmc.new env.pmcInv.toUInt64).interval start tp'

/-- Samples at least an interval apart are in different windows. -/
theorem windowNo_ne_of_apart {interval start tp tp' : UInt64} (hI : 0 < interval.toNat) (hstart : start ≤ tp)
    (hlater : tp.toNat + interval.toNat ≤ tp'.toNat) : windowNo interval start tp ≠ windowNo interval start tp' := by
  have hle : start.toNat ≤ tp.toNat := UInt64.le_iff_toNat_le.mp hstart
  have hnext : windowNo interval start tp + 1 ≤ windowNo interval start tp' := by
    unfold windowNo
    rw [← Nat.add_div_right _ hI]
    exact Nat.div_le_div_right (by omega)
  omega

/-- **The configured interval is used exactly** up to `2147` milliseconds, and where the product is within
    `2 ^ 31` below `2 ^ 64`. -/
theorem intervalUsed_iff {config : Config} {env₀ env : Env} {stIno : Str → Option UInt64}
    (h : readConfig config env₀ stIno = .ok env) (hms : 1 ≤ config.pmcInv) :
    IntervalUsed config.pmcInv.toNat env ↔ FitsInt config.pmcInv.toNat := by
  have hpmc := pmcInv_of_readConfig h
  have hpos : 1 ≤ config.pmcInv.toNat := UInt64.le_iff_toNat_le.mp hms
  -- every route passes the value through the same conversions
  have hkept : (intParam env.pmcInv.toUInt64).toNat = config.pmcInv.toNat * 1000000 ↔ FitsInt config.pmcInv.toNat := by
    rw [hpmc]
    exact toNat_intParam_pmcInv config.pmcInv
  constructor
  · intro hu
    exact hkept.mp hu.throughput
  · intro hf
    have heq := hkept.mpr hf
    have hinterval : (TimeThroughputPmc.new env.pmcInv.toUInt64).interval = intParam env.pmcInv.toUInt64 := rfl
    refine ⟨heq, heq, fun _ _ => heq, fun _ => heq, ?_, ?_⟩
    · intro hzero
      rw [hinterval] at hzero
      rw [hzero] at heq
      have hzero' : (0 : UInt64).toNat = 0 := rfl
      omega
    · intro start tp tp' hstart hlater
      rw [hinterval]
      exact windowNo_ne_of_apart (by omega) hstart (by rw [heq]; exact hlater)

/-- A direct-I/O configuration with the interval `ms`. -/
def intervalConfig (ms : UInt64) : Config where
  name := []
  eventType := "dio"
  traceLevel := "info"
  filter := ⟨false, 30, "sum"⟩
  loggerIoUringDepth := 1
  pid := -1
  common := []
  files := []
  showBpfInternal := false
  pmcInv := ms
  heatmapRow := 1

/-- It is accepted. -/
theorem readConfig_intervalConfig (ms : UInt64) :
    ∃ env, readConfig (intervalConfig ms) .init (fun _ => none) = .ok env :=
  ⟨_, rfl⟩

/-- With an interval of `100` milliseconds. -/
theorem intervalUsed_iff_hundred :
    ∃ env, readConfig (intervalConfig 100) .init (fun _ => none) = .ok env ∧
      (IntervalUsed 100 env ↔ FitsInt 100) := by
  obtain ⟨env, henv⟩ := readConfig_intervalConfig 100
  exact ⟨env, henv, intervalUsed_iff henv (by decide)⟩

/-- **The configured interval is not always used**: three seconds become an interval of centuries. -/
theorem not_intervalUsed_three_seconds :
    ¬ ∀ (config : Config) (env : Env), readConfig config .init (fun _ => none) = .ok env → 1 ≤ config.pmcInv →
      IntervalUsed config.pmcInv.toNat env := by
  intro h
  obtain ⟨env, henv⟩ := readConfig_intervalConfig 3000
  have hu := (h (intervalConfig 3000) env henv (by decide)).throughput
  have hpmc : env.pmcInv = 3000000000 := pmcInv_of_readConfig henv
  rw [hpmc] at hu
  exact absurd hu (by decide)

end StorTrace
