import StorTrace.Pipeline.TraceMode
import StorTrace.Logger.Progress

/-!
# `Pipeline.Schedule` — every stream of calls can be served

The logger never runs into a corner: it can take any calls that fit its logs, and wherever its destructor stands,
the kernel can carry out what it still has, so that the logger is released with every write stored whole.
-/

namespace StorTrace.Pipeline

open Logger

variable {φ : Type} [DecidableEq φ] {L : Logger φ} {calls : List CommitCall} {s s' : LoggerState φ} {e : LoggerEvent}
  {o : List (LoggerAction φ)}

/-- The logger can come to `s` when it serves the calls `calls` and every write is stored whole. -/
def Reaches (L : Logger φ) (calls : List CommitCall) (s : LoggerState φ) : Prop :=
  ∃ evs t, L.system.run evs = some (s, t) ∧ commitCalls evs = calls ∧
    Run.AllSteps (L.system.Before L.StoresAll) evs

theorem Reaches.step (h : Reaches L calls s) (hstep : L.system.step s e = some (s', o)) (hstored : L.StoresAll s e) :
    Reaches L (calls ++ (callOf e).toList) s' := by
  obtain ⟨evs, t, hrun, rfl, hall⟩ := h
  refine ⟨evs ++ [e], t ++ o, L.system.run_concat.mpr ⟨s, t, o, hrun, hstep, rfl⟩, ?_, ?_⟩
  · rw [commitCalls, commitCalls, List.filterMap_append]
    cases hcall : callOf e <;> simp [hcall]
  · exact (System.allSteps_before_concat hrun).mpr ⟨hall, hstored⟩

/-- An event that is no call. -/
theorem Reaches.quiet (h : Reaches L calls s) (hstep : L.system.step s e = some (s', o)) (hstored : L.StoresAll s e)
    (hcall : callOf e = none) : Reaches L calls s' := by
  have hreach := h.step hstep hstored
  rwa [hcall, Option.toList_none, List.append_nil] at hreach

/-! ## The calls -/

/-- The calls so far on each log. -/
def callCounts (formats : List FileWithFormat) (calls : List CommitCall) : ℕ → ℕ :=
  fun i => calls.countP (fun c => fdMap formats c.fName = i)

/-- Between two calls, with nothing left of the last. -/
structure Rests (L : Logger φ) (calls : List CommitCall) (s : LoggerState φ) : Prop where
  pc : s.pc = .idle
  submitted : s.submitted = []
  cq : s.cq = []
  heap : s.heap 1 = none
  counts : s.fileCommitCount = callCounts L.fileFormat calls

theorem callCounts_concat (formats : List FileWithFormat) (calls : List CommitCall) (c : CommitCall) :
    callCounts formats (calls ++ [c]) =
      Function.update (callCounts formats calls) (fdMap formats c.fName)
        (callCounts formats calls (fdMap formats c.fName) + 1) := by
  funext i
  by_cases hi : i = fdMap formats c.fName
  · rw [hi, Function.update_self]
    simp [callCounts, List.countP_append]
  · rw [Function.update_of_ne hi]
    simp [callCounts, List.countP_append, Ne.symm hi]

/-- One call: its row is stored at once, and its buffer deleted in the same loop. -/
theorem Reaches.call (h : Reaches L calls s) (hr : Rests L calls s) {c : CommitCall} (hentries : 1 ≤ L.sqEntries)
    (hlt : fdMap L.fileFormat c.fName < L.fileFormat.length) (hrow : c.row.length < 0x80000000)
    (hcalls : calls.length < 0x7fffffff) :
    ∃ s', Reaches L (calls ++ [c]) s' ∧ Rests L (calls ++ [c]) s' := by
  obtain ⟨fName, row⟩ := c
  set index := fdMap L.fileFormat fName with hindex
  have hcount : s.fileCommitCount index < 0x7fffffff := by
    rw [hr.counts]
    exact lt_of_le_of_lt List.countP_le_length hcalls
  let s₁ : LoggerState φ :=
    { s with
      fileCommitCount := Function.update s.fileCommitCount index (s.fileCommitCount index + 1)
      heap := Function.update s.heap 1 (some row)
      submitted := [.dataWrite index 1 row.length (s.offSetOf index)]
      offSetOf := Function.update s.offSetOf index (s.offSetOf index + row.length)
      pc := .reaping }
  have hstep₁ : L.system.step s (.commit fName row 1) = some (s₁, [.allocated 1]) := by
    have hfresh : Fresh s row.length 1 := ⟨hr.heap, by decide, by decide, hrow⟩
    have hguard : s.pc = .idle ∧ index < L.fileFormat.length ∧ s.fileCommitCount index < 0x7fffffff ∧
        1 ≤ L.sqEntries ∧ Fresh s row.length 1 := ⟨hr.pc, hlt, hcount, hentries, hfresh⟩
    simp only [Logger.system, Logger.commit, ← hindex, if_pos hguard, hr.submitted, List.nil_append, s₁]
  let s₂ : LoggerState φ :=
    { s₁ with
      submitted := []
      cq := [⟨1, row.length⟩]
      files := L.carryOut s₁ (.dataWrite index 1 row.length (s.offSetOf index)) row.length }
  have hstep₂ : L.system.step s₁ (.execute 0 row.length) =
      some (s₂, [.executed (.dataWrite index 1 row.length (s.offSetOf index)) row.length]) := by
    simp [Logger.system, Logger.execute, s₁, s₂, Sqe.dataWrite, hr.cq]
  have hstored₂ : L.StoresAll s₁ (.execute 0 row.length) := by
    intro sqe hsqe _
    obtain rfl : Sqe.dataWrite index 1 row.length (s.offSetOf index) = sqe := by simpa [s₁] using hsqe
    refine ⟨?_, le_refl _⟩
    simp [Logger.fileOf, Sqe.dataWrite, Logger.fdSet, hlt]
  let s₃ : LoggerState φ := { s₂ with heap := Function.update s₂.heap 1 none, cq := [] }
  have hstep₃ : L.system.step s₂ (.peek true) = some (s₃, [.freed 1]) := by
    simp [Logger.system, Logger.peek, Logger.reap, Logger.deleteBuf, s₁, s₂, s₃]
  have hstep₄ : L.system.step s₃ (.peek false) = some ({ s₃ with pc := .idle }, []) := by
    simp [Logger.system, Logger.peek, Logger.reap, s₁, s₂, s₃]
  have h₁ : Reaches L (calls ++ [⟨fName, row⟩]) s₁ := h.step hstep₁ trivial
  have h₂ := h₁.quiet hstep₂ hstored₂ rfl
  have h₃ := h₂.quiet hstep₃ trivial rfl
  refine ⟨_, h₃.quiet hstep₄ trivial rfl, rfl, rfl, rfl, by simp [s₃], ?_⟩
  show Function.update s.fileCommitCount index (s.fileCommitCount index + 1) = _
  rw [hr.counts, callCounts_concat]

/-- A stream of calls that fit. -/
theorem exists_rests (hentries : 1 ≤ L.sqEntries) (hreg : ∀ fwf ∈ L.fileFormat, fwf.Registered)
    (hnames : (L.fileFormat.map FileWithFormat.fileName).Nodup) (hfit : CallsFit L.fileFormat calls)
    (hcalls : calls.length < 0x80000000) : ∃ s, Reaches L calls s ∧ Rests L calls s := by
  induction calls using List.reverseRecOn with
  | nil => exact ⟨L.init, ⟨[], [], rfl, rfl, Run.allSteps_nil _⟩, ⟨rfl, rfl, rfl, rfl, rfl⟩⟩
  | append_singleton calls c ih =>
      rw [List.length_append, List.length_singleton] at hcalls
      obtain ⟨s, hs, hr⟩ := ih (fun c hc => hfit c (List.mem_append_left _ hc)) (by omega)
      obtain ⟨fwf, hfwf, hname, hlen⟩ := hfit c (by simp)
      obtain ⟨i, hi⟩ := List.getElem?_of_mem hfwf
      refine hs.call hr hentries ?_ ?_ (by omega)
      · rw [← hname, fdMap_eq hnames hi]
        exact (List.getElem?_eq_some_iff.mp hi).1
      · rw [hlen]
        exact (hreg fwf hfwf).fits

/-! ## The release -/

/-- Every write the kernel still has goes to a file. -/
def HaveFiles (L : Logger φ) (s : LoggerState φ) : Prop :=
  ∀ sqe ∈ s.submitted, sqe.op ≠ .fsync → L.fileOf sqe.target ≠ none

theorem HaveFiles.step (h : HaveFiles L s) (hd : Draining s) (hstep : Step L s e s' o) : HaveFiles L s' := by
  unfold Draining at hd
  cases hstep with
  | commit index hidx hpc hlt hcount hbuf => simp [hpc] at hd
  | stop hpc => simp [hpc] at hd
  | wait hpc => exact h
  | spin hpc hcq hud => simp [hpc] at hd
  | delete hpc hcq hud => exact h
  | synced hpc hcq hud => exact h
  | finish hpc hcq hud => exact h
  | flushAll hpc => simp [hpc] at hd
  | dumpMeta hpc hbuf file hfile => simp [hpc] at hd
  | dumpSync hpc => simp [hpc] at hd
  | execute before after sqe hsub hdrain =>
      intro sqe' hsqe
      refine h sqe' ?_
      rw [hsub]
      rcases List.mem_append.mp hsqe with hbefore | hafter
      · exact List.mem_append_left _ hbefore
      · exact List.mem_append_right _ (List.mem_cons_of_mem _ hafter)

/-- Something of what is left can be done, and a write stored whole. -/
theorem exists_stored_effort (hpc : s.pc = .draining) (hwork : work s ≠ 0) (hfiles : HaveFiles L s) :
    ∃ e, effort e = 1 ∧ callOf e = none ∧ (L.system.step s e).isSome ∧ L.StoresAll s e := by
  cases hs : s.submitted with
  | cons sqe rest =>
      refine ⟨.execute 0 sqe.op.length, rfl, rfl, by simp [Logger.system, Logger.execute, hs], ?_⟩
      intro sqe' hsqe hwrite
      obtain rfl : sqe = sqe' := by simpa [hs] using hsqe
      exact ⟨hfiles sqe (by simp [hs]) hwrite, le_refl _⟩
  | nil =>
      cases hcq : s.cq with
      | nil => simp [work, hs, hcq] at hwork
      | cons cqe rest => exact ⟨.peek true, rfl, rfl, by simp [Logger.system, Logger.peek, drain, hpc, hcq], trivial⟩

/-- **The destructor's loop can be left**: the work that is left can be done to its end. -/
theorem exists_released (h : Reaches L calls s) (hd : Draining s) (hfiles : HaveFiles L s) :
    ∃ s', Reaches L calls s' ∧ s'.pc = .released := by
  induction hn : work s generalizing s with
  | zero =>
      obtain ⟨evs, t, hrun, -, -⟩ := id h
      exact ⟨s, h, ((phase_run hrun).work_eq_zero_iff hd).mpr hn⟩
  | succ n ih =>
      obtain ⟨evs, t, hrun, -, -⟩ := id h
      have hpc : s.pc = .draining := by
        rcases hd with hpc | hpc
        · exact hpc
        · have hzero := ((phase_run hrun).work_eq_zero_iff (Or.inr hpc)).mp hpc
          omega
      obtain ⟨e, heffort, hcall, hsome, hstored⟩ := exists_stored_effort hpc (by omega) hfiles
      obtain ⟨⟨s', o⟩, hstep⟩ := Option.isSome_iff_exists.mp hsome
      obtain ⟨hd', hnone⟩ := draining_step hd (step_of_system hstep)
      have hbalance : effort e + work s' = work s + 2 * requests L e := (balanced_work L).step hrun hstep
      exact ih (h.quiet hstep hstored hcall) hd' (hfiles.step hd (step_of_system hstep)) (by omega)

/-- From between two calls, the destructor can be run to its end. -/
theorem Reaches.release (h : Reaches L calls s) (hr : Rests L calls s) (hentries : 1 ≤ L.sqEntries)
    (hlogs : L.fileFormat.length ≤ L.sqEntries)
    (hmeta : (Meta.logData L.fileFormat (callCounts L.fileFormat calls)).length < 0x80000000) :
    ∃ s', Reaches L calls s' ∧ s'.pc = .released := by
  set logData := Meta.logData L.fileFormat (callCounts L.fileFormat calls) with hdata
  let s₁ : LoggerState φ :=
    { s with submitted := (List.range L.fileFormat.length).map Sqe.dataSync, pc := .flushed logData }
  have hstep₁ : L.system.step s .flushAll = some (s₁, []) := by
    have hguard : s.pc = .idle ∧ L.fileFormat.length ≤ L.sqEntries := ⟨hr.pc, hlogs⟩
    simp only [Logger.system, Logger.flushAll, if_pos hguard, hr.submitted, List.nil_append, hr.counts, ← hdata, s₁]
  let s₂ : LoggerState φ :=
    { s₁ with
      files := Function.update s.files L.logMeta .empty
      heap := Function.update s.heap 1 (some logData)
      submitted := s₁.submitted ++ [.metaWrite (some L.logMeta) 1 logData.length]
      pc := .written (some L.logMeta) }
  have hstep₂ : L.system.step s₁ (.dumpMeta 5 1) = some (s₂, [.allocated 1]) := by
    have hfresh : Fresh s₁ logData.length 1 := ⟨hr.heap, by decide, by decide, hmeta⟩
    simp [Logger.system, Logger.dumpMeta, s₁, s₂, hentries, hfresh]
  let s₃ : LoggerState φ :=
    { s₂ with submitted := s₂.submitted ++ [.finish (some L.logMeta)], pc := .draining }
  have hstep₃ : L.system.step s₂ .dumpSync = some (s₃, []) := rfl
  have h₁ := h.quiet hstep₁ trivial rfl
  have h₂ := h₁.quiet hstep₂ trivial rfl
  refine exists_released (h₂.quiet hstep₃ trivial rfl) (Or.inl rfl) ?_
  intro sqe hsqe hwrite
  simp only [s₃, s₂, s₁, List.mem_append, List.mem_map, List.mem_singleton] at hsqe
  rcases hsqe with ⟨⟨i, -, rfl⟩ | rfl⟩ | rfl
  · exact absurd rfl hwrite
  · simp [Logger.fileOf, Sqe.metaWrite]
  · exact absurd rfl hwrite

/-! ## The disk -/

open Classical in
/-- A disk that shows the files of a logger. -/
noncomputable def diskOf (L : Logger φ) (s : LoggerState φ) : Disk :=
  let bytes := fun path => if h : ∃ text, (s.files (L.fileAt path)).Holds text then h.choose else []
  ⟨bytes, fun path => (bytes path).length⟩

omit [DecidableEq φ] in
theorem shows_diskOf (L : Logger φ) (s : LoggerState φ) : Shows L s (diskOf L s) where
  bytes path text htext := by
    have hexists : ∃ text, (s.files (L.fileAt path)).Holds text := ⟨text, htext⟩
    have hshown : (s.files (L.fileAt path)).Holds ((diskOf L s).bytes path) := by
      simp only [diskOf, dif_pos hexists]
      exact hexists.choose_spec
    exact List.ext_getElem? (fun p => (hshown p).symm.trans (htext p))
  transferred _ := rfl

/-- **Every stream of calls can be served.** -/
theorem exists_served (hdistinct : L.FilesDistinct) (hreg : ∀ fwf ∈ L.fileFormat, fwf.Registered)
    (hfit : CallsFit L.fileFormat calls) (hcalls : calls.length < 0x80000000) (hentries : 1 ≤ L.sqEntries)
    (hlogs : L.fileFormat.length ≤ L.sqEntries)
    (hmeta : (Meta.logData L.fileFormat (callCounts L.fileFormat calls)).length < 0x80000000) :
    ∃ disk, Served L calls disk := by
  obtain ⟨s, hs, hr⟩ := exists_rests hentries hreg hdistinct.names hfit hcalls
  obtain ⟨s', ⟨evs, t, hrun, hevs, hstored⟩, hpc⟩ := hs.release hr hentries hlogs hmeta
  exact ⟨diskOf L s', hdistinct, evs, s', t, hrun, hpc, hevs, hstored, shows_diskOf L s'⟩

end StorTrace.Pipeline
