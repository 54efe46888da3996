import StorTrace.Lib.Layout

/-!
# `Common.Filter` — `common.h` and `common_bpf.h`

The task filters every probe may apply before it does anything else: by process (`if_target_pid`) and by
command name (`if_target_common`). A probe sees the task it runs in through three helper calls; `Task`
holds what they return.
-/

namespace StorTrace

/-- `typedef long long unsigned int time_stramp`. -/
abbrev TimeStramp := UInt64

/-- A kernel address, as the programs cast it. -/
abbrev Ptr := UInt64

/-- The task a probe runs in: `bpf_get_current_pid_tgid` (split), the parent's `tgid`, and the result of
    `bpf_get_current_comm` (`none` when the helper fails). -/
structure Task where
  tgid : Int
  tid : Int
  parentTgid : Int
  comm : Option (CharArray 16)
deriving DecidableEq

/-- `bpf_get_current_comm(buf, 16)` into a zeroed buffer: the helper clears it when it fails. -/
def Task.currentComm (t : Task) : CharArray 16 := t.comm.getD (CharArray.zero 16)

/-- The `.bss`/`.data` variables of a program that configure the task filters. -/
structure FilterConfig where
  usingPidFilter : Bool
  tpid : Int
  usingCommonFilter : Bool
  tcommonName : CharArray 16
deriving DecidableEq

/-- No filter configured (the values the program is loaded with). -/
def FilterConfig.off : FilterConfig :=
  ⟨false, 0, false, ⟨[78, 111, 110, 101, 0, 0, 0, 0, 0, 0, 0, 0, 0, 0, 0, 0], rfl⟩⟩

/-- `if_target_pid`. -/
def ifTargetPid (t : Task) (tpid : Int) : Int :=
  if tpid ≠ 0 then
    if t.parentTgid ≠ tpid ∧ t.tgid ≠ tpid then -1 else 0
  else 0

/-- `my_strncmp`: the loop over the two buffers, `0` when the first `n` bytes agree. -/
def myStrncmp : List UInt8 → Nat → List UInt8 → Int
  | s :: src, n + 1, t :: target => if s ≠ t then -1 else myStrncmp src n target
  | _, _, _ => 0

/-- `if_target_common`. -/
def ifTargetCommon (t : Task) (tcommon : CharArray 16) : Int :=
  match t.comm with
  | some common => if myStrncmp tcommon.data 16 common.data = 0 then 0 else -1
  | none => -1

/-- The guard at the head of the filtered probes: `CHECK_TPID` and `CHECK_COMMON`, each under its
    switch. -/
def passes (cfg : FilterConfig) (t : Task) : Bool :=
  (!cfg.usingPidFilter || ifTargetPid t cfg.tpid == 0) &&
    (!cfg.usingCommonFilter || ifTargetCommon t cfg.tcommonName == 0)

/-- Without filters every task passes. -/
@[simp] theorem passes_off (t : Task) : passes FilterConfig.off t = true := rfl

/-- `my_strncmp` over two buffers of `n` bytes is equality. -/
theorem myStrncmp_eq_zero {n : Nat} {src target : List UInt8} (hs : src.length = n)
    (ht : target.length = n) : myStrncmp src n target = 0 ↔ src = target := by
  induction n generalizing src target with
  | zero =>
      rw [List.length_eq_zero_iff] at hs ht
      subst hs; subst ht
      simp [myStrncmp]
  | succ n ih =>
      match src, target, hs, ht with
      | s :: src, t :: target, hs, ht =>
        have hs' : src.length = n := by simpa using hs
        have ht' : target.length = n := by simpa using ht
        by_cases hst : s = t
        · simp only [myStrncmp, hst, ne_eq, not_true_eq_false, if_false, ih hs' ht',
            List.cons.injEq, true_and]
        · simp [myStrncmp, hst]

/-- The pid filter accepts the target process and its direct children (and everything for pid `0`). -/
theorem ifTargetPid_eq_zero (t : Task) (tpid : Int) :
    ifTargetPid t tpid = 0 ↔ tpid = 0 ∨ t.parentTgid = tpid ∨ t.tgid = tpid := by
  unfold ifTargetPid
  by_cases h0 : tpid = 0
  · simp [h0]
  · rw [if_pos h0]
    by_cases hp : t.parentTgid = tpid
    · simp [hp]
    · by_cases hg : t.tgid = tpid <;> simp [h0, hp, hg]

/-- The name filter accepts exactly the tasks whose 16 command-name bytes are the target's. -/
theorem ifTargetCommon_eq_zero (t : Task) (tcommon : CharArray 16) :
    ifTargetCommon t tcommon = 0 ↔ t.comm = some tcommon := by
  unfold ifTargetCommon
  cases t.comm with
  | none => simp
  | some common =>
      have heq := myStrncmp_eq_zero tcommon.size_eq common.size_eq
      have hext : common = tcommon ↔ tcommon.data = common.data := by
        cases common; cases tcommon; simp [eq_comm]
      rw [Option.some.injEq, hext, ← heq]
      split <;> simp_all

/-- **What a passing task satisfies**: under the pid filter its process or its parent is the target, and
    under the name filter its command name is the target's. -/
theorem passes_iff (cfg : FilterConfig) (t : Task) :
    passes cfg t = true ↔
      (cfg.usingPidFilter = true → cfg.tpid = 0 ∨ t.parentTgid = cfg.tpid ∨ t.tgid = cfg.tpid) ∧
      (cfg.usingCommonFilter = true → t.comm = some cfg.tcommonName) := by
  simp only [passes, Bool.and_eq_true, Bool.or_eq_true, Bool.not_eq_true', beq_iff_eq,
    ifTargetPid_eq_zero, ifTargetCommon_eq_zero]
  cases cfg.usingPidFilter <;> cases cfg.usingCommonFilter <;> simp

end StorTrace
