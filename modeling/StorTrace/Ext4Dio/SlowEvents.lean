import StorTrace.Ext4Dio.Module

/-!
# `Ext4Dio.SlowEvents` — does the quantile filter keep every slow direct I/O?

`do_event` computes the latency of the selected stage in 64 bits, keeps it in an `int` and compares that with
the quantile as an `unsigned int`. A latency is compared modulo `2 ^ 32`, about four seconds.
-/

namespace StorTrace.Ext4Dio.Simple

variable {δ : Type}

/-- The latency of the selected stage, in nanoseconds. -/
def stageLatency (stage : FilterStage) (log : SimpleDioEvent) : UInt64 :=
  match stage with
  | .sum            => log.endBlockIo - log.startDio
  | .kernelCrossing => log.startExt4 - log.startDio
  | .fileSystem     => log.startBlockIo - log.startExt4
  | .blockIo        => log.endBlockIo - log.startBlockIo

/-- The filter sees the low half of the latency. -/
theorem toNat_filterValue (stage : FilterStage) (log : SimpleDioEvent) :
    (filterValue stage log).toNat = (stageLatency stage log).toNat % 4294967296 := by
  cases stage with
  | sum => exact UInt64.toNat_toUInt32 _
  | kernelCrossing => exact UInt64.toNat_toUInt32 _
  | fileSystem => exact UInt64.toNat_toUInt32 _
  | blockIo => exact UInt64.toNat_toUInt32 _

section Filtered

variable (commits : List CommitCall) (collectors : DioCollectors) (f : QuantileFilter δ) (log : SimpleDioEvent)

/-- `do_event` of a module with the filter `f` commits the event. -/
def Logs : Prop :=
  (doEvent ⟨commits, collectors, some f⟩ log).1.commits =
    commits ++ [commitWords formats "ext4_dio_simple_event" (eventWords log)]

/-- **The filter keeps the event if it is slow**: the event is committed exactly if its latency is not below
    the quantile, and committed if an event with a smaller latency is. -/
structure KeepsSlow : Prop where
  logs_iff : Logs commits collectors f log ↔ (f.quantile f.digest).toNat ≤ (stageLatency f.stage log).toNat
  mono : ∀ log', stageLatency f.stage log' < stageLatency f.stage log → Logs commits collectors f log' →
    Logs commits collectors f log

end Filtered

variable {commits : List CommitCall} {collectors : DioCollectors} {f : QuantileFilter δ} {log : SimpleDioEvent}

/-- What the code compares. -/
theorem logs_iff_mod : Logs commits collectors f log ↔
    (f.quantile f.digest).toNat ≤ (stageLatency f.stage log).toNat % 4294967296 := by
  have hcheck : (f.check log).1 = true ↔
      (stageLatency f.stage log).toNat % 4294967296 < (f.quantile f.digest).toNat := by
    rw [← toNat_filterValue, ← UInt32.lt_iff_toNat_lt]
    exact decide_eq_true_iff
  rw [← Nat.not_lt, ← hcheck]
  unfold Logs doEvent
  cases hsel : (f.check log).1 with
  | true => simp [hsel]
  | false => simp [hsel]

/-- **A slow event is kept exactly if** its latency fits into 32 bits, or what is left of it does not fall below
    the quantile. -/
theorem keepsSlow_iff (commits : List CommitCall) (collectors : DioCollectors) (f : QuantileFilter δ)
    (log : SimpleDioEvent) :
    KeepsSlow commits collectors f log ↔
      (stageLatency f.stage log).toNat < 4294967296 ∨
        (f.quantile f.digest).toNat ≤ (stageLatency f.stage log).toNat % 4294967296 := by
  have hq := (f.quantile f.digest).toNat_lt
  constructor
  · intro h
    by_cases hlt : (stageLatency f.stage log).toNat < 4294967296
    · exact Or.inl hlt
    · right
      exact logs_iff_mod.mp (h.logs_iff.mpr (by omega))
  · intro hcond
    have hiff : Logs commits collectors f log ↔
        (f.quantile f.digest).toNat ≤ (stageLatency f.stage log).toNat := by
      rw [logs_iff_mod]
      rcases hcond with hlt | hle
      · rw [Nat.mod_eq_of_lt hlt]
      · exact iff_of_true hle (Nat.le_trans hle (Nat.mod_le _ _))
    refine ⟨hiff, ?_⟩
    intro log' hlt hlogs'
    -- the faster event was committed, so its latency is not below the quantile
    have hle' : (f.quantile f.digest).toNat ≤ (stageLatency f.stage log').toNat :=
      Nat.le_trans (logs_iff_mod.mp hlogs') (Nat.mod_le _ _)
    have hlt' := UInt64.lt_iff_toNat_lt.mp hlt
    exact hiff.mpr (by omega)

/-- A filter whose quantile is one nanosecond, on the whole latency. -/
def oneNanosecond : QuantileFilter Unit := ⟨(), fun _ => 1, fun _ _ => (), .sum⟩

/-- **Not every slow event is kept**: one that took `2 ^ 32` nanoseconds is dropped by a filter whose quantile is
    one nanosecond. -/
theorem not_keepsSlow_four_seconds :
    ¬ ∀ (δ : Type) (commits : List CommitCall) (collectors : DioCollectors) (f : QuantileFilter δ)
      (log : SimpleDioEvent), KeepsSlow commits collectors f log := by
  intro h
  have hlogs := (h Unit [] ⟨.new 1, .new, .new⟩ oneNanosecond
    ⟨0, 0, 0, 4294967296, 0, 0, .zero 16, .zero 16, dRead⟩).logs_iff.mpr (by decide)
  exact absurd (logs_iff_mod.mp hlogs) (by decide)

end StorTrace.Ext4Dio.Simple
