import StorTrace.Config.Env
import StorTrace.BlockTrace.Probes
import StorTrace.Ext4Dio.Program

/-!
# `Config.Setup` — from the environment to the loaded programs

Each module's `bpf_load_and_verify` writes the task filters into its skeleton, and the constructors of the
two direct-I/O modules fill `file_filter`. `readConfig_spec` says what an accepted configuration leaves in
the environment, `filter_of_config` which tasks the programs loaded from it let through.
-/

namespace StorTrace

/-- `for (i < common_length) skel->data->tcommon_name[i] = env.target_common[i]`. -/
def copyCommon (n : Nat) (src dst : CharArray 16) : CharArray 16 where
  data := src.data.take n ++ dst.data.drop n
  size_eq := by
    have hsrc := src.size_eq
    have hdst := dst.size_eq
    rw [List.length_append, List.length_take, List.length_drop]
    omega

/-- Sixteen bytes replace the name the program was compiled with. -/
theorem copyCommon_full (src dst : CharArray 16) : copyCommon 16 src dst = src := by
  have htake : src.data.take 16 = src.data := List.take_of_length_le (by rw [src.size_eq])
  have hdrop : dst.data.drop 16 = [] := List.drop_eq_nil_of_le (by rw [dst.size_eq])
  cases src with
  | mk data size_eq =>
      simp only [copyCommon] at htake ⊢
      simp only [htake, hdrop, List.append_nil]

/-- The task filters the three modules write into their skeletons. -/
def taskFilter (env : Env) : Except String FilterConfig :=
  if env.selectCommon = true ∧ 16 < env.commonLength then .error "env.common_length <= 16"
  else
    .ok {
      usingPidFilter := env.selectPid
      tpid := if env.selectPid then env.targetPid.toInt else FilterConfig.off.tpid
      usingCommonFilter := env.selectCommon
      tcommonName :=
        if env.selectCommon then copyCommon env.commonLength env.targetCommon FilterConfig.off.tcommonName
        else FilterConfig.off.tcommonName }

/-- A module without a latency filter refuses one. -/
def taskFilterOnly (msg : String) (env : Env) : Except String FilterConfig :=
  taskFilter env >>= fun filter => if env.useFilter then .error msg else .ok filter

/-- `BlkTraceModule::bpf_load_and_verify`. -/
def BlockTrace.bpfLoadAndVerify (env : Env) : Except String FilterConfig :=
  taskFilterOnly "blk_trace mode not support filter" env

namespace Ext4Dio

/-- `Ext4DioSimpleModule::bpf_load_and_verify`. -/
def Simple.bpfLoadAndVerify (env : Env) : Except String FilterConfig := taskFilter env

/-- `Ext4DioInfoModule::bpf_load_and_verify`. -/
def Info.bpfLoadAndVerify (env : Env) : Except String FilterConfig :=
  taskFilterOnly "ext4_dio_info mode not support filter" env

/-- One round of the loop over `env.inode`. -/
def addTargetFile (m : BpfHash UInt64 Bool 16) (id : UInt64) : Except String (BpfHash UInt64 Bool 16) :=
  if (m.updateElem id true .noexist).2 ≠ 0 then .error "Fail to init file_trace"
  else .ok (m.updateElem id true .noexist).1

/-- The map `file_filter` as the constructors fill it. -/
def fillFileFilter (env : Env) : Except String (BpfHash UInt64 Bool 16) :=
  if env.selectFile then env.inode.foldlM addTargetFile .empty else .ok .empty

/-- The configuration a direct-I/O program runs with, once its module is constructed. -/
def construct (load : Env → Except String FilterConfig) (env : Env) : Except String DioConfig :=
  load env >>= fun filter =>
    -- nothing in user space writes `using_inode_filter`
    fillFileFilter env >>= fun fileFilter => .ok ⟨filter, false, fileFilter⟩

/-- `Ext4DioSimpleModule::Ext4DioSimpleModule`. -/
def Simple.construct (env : Env) : Except String DioConfig := Ext4Dio.construct Simple.bpfLoadAndVerify env

/-- `Ext4DioInfoModule::Ext4DioInfoModule`. -/
def Info.construct (env : Env) : Except String DioConfig := Ext4Dio.construct Info.bpfLoadAndVerify env

end Ext4Dio

/-! ## What an accepted configuration leaves in the environment -/

section Accepted

variable {config : Config} {env : Env} {stIno : Str → Option UInt64}

/-- The latency filter has nothing to do with the task filters. -/
theorem readFilter_selectPid {env' : Env} (h : readFilter config env = .ok env') :
    env'.selectPid = env.selectPid := by
  unfold readFilter at h
  split at h
  · simp only at h
    split at h
    · rw [← Except.ok.inj h]
    · split at h
      · rw [← Except.ok.inj h]
      · split at h
        · rw [← Except.ok.inj h]
        · split at h
          · rw [← Except.ok.inj h]
          · cases h
  · rw [← Except.ok.inj h]

/-- **The pid section switches no pid filter on.** -/
theorem readPid_selectPid (config : Config) {env : Env} (h : env.selectPid = false) :
    (readPid config env).selectPid = false := by
  simp only [readPid]
  split
  · rfl
  · exact h

/-- What the section of the command name leaves. -/
structure CommonSpec (config : Config) (env : Env) : Prop where
  selectCommon : env.selectCommon = decide (config.common ≠ [])
  commonLength : env.commonLength = 16
  targetCommon : config.common ≠ [] → config.common.length ≤ 16 ∧ env.targetCommon = padCommon config.common

/-- **The section of the command name overwrites whatever flag the pid section set.** -/
theorem readCommon_spec {env' : Env} (h : readCommon config env = .ok env') :
    env'.selectPid = env.selectPid ∧ CommonSpec config env' := by
  simp only [readCommon] at h
  split at h
  · next hc =>
    rw [← Except.ok.inj h]
    exact ⟨rfl, by simp [hc], rfl, fun hne => absurd hc hne⟩
  · next hc =>
    split at h
    · cases h
    · next hlen =>
      rw [← Except.ok.inj h]
      exact ⟨rfl, by simp [hc], rfl, fun _ => ⟨by omega, rfl⟩⟩

/-- The section of the files. -/
theorem readFiles_spec {env' : Env} (h : readFiles config env stIno = .ok env') :
    (env'.selectPid = env.selectPid ∧ (CommonSpec config env → CommonSpec config env')) ∧
      env'.selectFile = decide (config.files ≠ [] ∧ config.eventType ≠ "blk") ∧
      (env'.selectFile = true → config.files.mapM (getInode stIno) = .ok env'.inode) := by
  simp only [readFiles] at h
  split at h
  · next hnone =>
    rw [← Except.ok.inj h]
    refine ⟨⟨rfl, fun hc => ⟨hc.selectCommon, hc.commonLength, hc.targetCommon⟩⟩, ?_, fun hs => absurd hs (by simp)⟩
    rcases hnone with hnone | hblk
    · simp [List.length_eq_zero_iff.mp hnone]
    · simp [hblk]
  · next hsome =>
    obtain ⟨inode, hinode, henv⟩ := bind_eq_ok.mp h
    obtain ⟨hlen, hblk⟩ := not_or.mp hsome
    rw [← Except.ok.inj henv]
    refine ⟨⟨rfl, fun hc => ⟨hc.selectCommon, hc.commonLength, hc.targetCommon⟩⟩, ?_, fun _ => ?_⟩
    · have hne : config.files ≠ [] := fun hnil => hlen (by rw [hnil]; rfl)
      simp [hne, hblk]
    · rw [pathToInode, if_neg hlen] at hinode
      exact hinode

/-- What an accepted configuration leaves in the environment, as far as it selects tasks and files. -/
structure ConfigSpec (config : Config) (stIno : Str → Option UInt64) (env : Env) : Prop where
  selectPid : env.selectPid = false
  common : CommonSpec config env
  selectFile : env.selectFile = decide (config.files ≠ [] ∧ config.eventType ≠ "blk")
  inode : env.selectFile = true → config.files.mapM (getInode stIno) = .ok env.inode

/-- **Whatever the configuration says about a process, the flag of the pid filter stays off.** -/
theorem readConfig_spec (h : readConfig config .init stIno = .ok env) : ConfigSpec config stIno env := by
  obtain ⟨eType, -, h⟩ := bind_eq_ok.mp h
  obtain ⟨tLevel, -, h⟩ := bind_eq_ok.mp h
  obtain ⟨env₁, h₁, h⟩ := bind_eq_ok.mp h
  obtain ⟨env₂, h₂, h⟩ := bind_eq_ok.mp h
  obtain ⟨env₃, h₃, h⟩ := bind_eq_ok.mp h
  obtain ⟨hpid₂, hcommon₂⟩ := readCommon_spec h₂
  obtain ⟨⟨hpid₃, hcommon₃⟩, hfile, hinode⟩ := readFiles_spec h₃
  have hpid₁ : env₁.selectPid = false := readFilter_selectPid h₁
  rw [← Except.ok.inj h]
  have hcommon := hcommon₃ hcommon₂
  refine ⟨?_, ⟨hcommon.selectCommon, hcommon.commonLength, hcommon.targetCommon⟩, hfile, hinode⟩
  show env₃.selectPid = false
  rw [hpid₃, hpid₂]
  exact readPid_selectPid config hpid₁

/-! ## What the loaded programs let through -/

/-- The task filters of an accepted configuration: none on the process, and the name if there is one. -/
structure FilterSpec (config : Config) (filter : FilterConfig) : Prop where
  usingPidFilter : filter.usingPidFilter = false
  usingCommonFilter : filter.usingCommonFilter = decide (config.common ≠ [])
  tcommonName : config.common ≠ [] → filter.tcommonName = padCommon config.common

theorem taskFilter_spec (h : ConfigSpec config stIno env) {filter : FilterConfig}
    (hf : taskFilter env = .ok filter) : FilterSpec config filter := by
  unfold taskFilter at hf
  split at hf
  · cases hf
  · rw [← Except.ok.inj hf]
    refine ⟨h.selectPid, h.common.selectCommon, ?_⟩
    intro hc
    have hsel : env.selectCommon = true := by rw [h.common.selectCommon]; simp [hc]
    obtain ⟨-, htarget⟩ := h.common.targetCommon hc
    simp only [hsel, if_true, h.common.commonLength, htarget, copyCommon_full]

/-- A module that refuses a latency filter loads the same task filters. -/
theorem taskFilterOnly_ok {msg : String} {filter : FilterConfig} (h : taskFilterOnly msg env = .ok filter) :
    taskFilter env = .ok filter := by
  obtain ⟨filter', hf, h⟩ := bind_eq_ok.mp h
  split at h
  · cases h
  · rw [hf, Except.ok.inj h]

/-- **The programs of an accepted configuration let a task through exactly by its name.** -/
theorem passes_of_config {filter : FilterConfig} (h : FilterSpec config filter) (t : Task) :
    passes filter t = true ↔ (config.common ≠ [] → t.comm = some (padCommon config.common)) := by
  rw [passes_iff, h.usingPidFilter, h.usingCommonFilter]
  constructor
  · rintro ⟨-, hname⟩ hc
    rw [← h.tcommonName hc]
    exact hname (by simpa using hc)
  · intro hname
    refine ⟨fun hp => absurd hp (by simp), fun hc => ?_⟩
    have hne : config.common ≠ [] := by simpa using hc
    rw [h.tcommonName hne]
    exact hname hne

end Accepted

end StorTrace
