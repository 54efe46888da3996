import StorTrace.Logger.Buffers

/-!
# `Logger.Sync` — which writes are synced when the logger is released

`__flush_all` submits one fsync for each log, and nothing orders it after the writes still outstanding: it may
be executed before them. The log's records are synced exactly if it is not (`recordsSynced_iff`). Only the
last fsync is drained, and it is that of `log_meta`.
-/

namespace StorTrace

variable {φ : Type}

/-- A write to the file. -/
def Sqe.WritesTo (file : Target φ) (sqe : Sqe φ) : Prop := sqe.target = file ∧ sqe.op ≠ .fsync

/-- An fsync of the file. -/
def Sqe.Syncs (file : Target φ) (sqe : Sqe φ) : Prop := sqe.target = file ∧ sqe.op = .fsync

/-- A write to the file is executed. -/
def LoggerAction.WritesTo (file : Target φ) : LoggerAction φ → Prop
  | .executed sqe _ => sqe.WritesTo file
  | _ => False

/-- An fsync of the file is executed. -/
def LoggerAction.Syncs (file : Target φ) : LoggerAction φ → Prop
  | .executed sqe _ => sqe.Syncs file
  | _ => False

theorem Sqe.Syncs.not_writesTo {file : Target φ} {sqe : Sqe φ} (h : sqe.Syncs file) (file' : Target φ) :
    ¬ sqe.WritesTo file' := fun hw => hw.2 h.2

theorem Sqe.not_writesTo_finish (file : Target φ) (file' : Option φ) : ¬ (Sqe.finish file').WritesTo file :=
  fun h => h.2 rfl

section Decidable

variable [DecidableEq φ] (file : Target φ)

instance (sqe : Sqe φ) : Decidable (sqe.WritesTo file) := inferInstanceAs (Decidable (_ ∧ _))

instance (sqe : Sqe φ) : Decidable (sqe.Syncs file) := inferInstanceAs (Decidable (_ ∧ _))

instance : DecidablePred (LoggerAction.WritesTo file)
  | .executed sqe _ => inferInstanceAs (Decidable (sqe.WritesTo file))
  | .allocated _ => inferInstanceAs (Decidable False)
  | .freed _ => inferInstanceAs (Decidable False)

instance : DecidablePred (LoggerAction.Syncs file)
  | .executed sqe _ => inferInstanceAs (Decidable (sqe.Syncs file))
  | .allocated _ => inferInstanceAs (Decidable False)
  | .freed _ => inferInstanceAs (Decidable False)

end Decidable

namespace Logger

/-- Every write to the file was executed before an fsync of it. -/
def Synced (file : Target φ) (t : List (LoggerAction φ)) : Prop :=
  Run.Followed (LoggerAction.WritesTo file) (LoggerAction.Syncs file) t

/-- An action that is no request leaves what is synced as it was. -/
theorem synced_concat {file : Target φ} {t : List (LoggerAction φ)} {a : LoggerAction φ}
    (hw : ¬ a.WritesTo file) (hs : ¬ a.Syncs file) : Synced file (t ++ [a]) ↔ Synced file t := by
  rw [Synced, Run.followed_concat]
  simp [hw, hs, Synced]

theorem synced_allocated (file : Target φ) (t : List (LoggerAction φ)) (buf : Nat) :
    Synced file (t ++ [.allocated buf]) ↔ Synced file t :=
  synced_concat (by simp [LoggerAction.WritesTo]) (by simp [LoggerAction.Syncs])

theorem synced_freed (file : Target φ) (t : List (LoggerAction φ)) (buf : Nat) :
    Synced file (t ++ [.freed buf]) ↔ Synced file t :=
  synced_concat (by simp [LoggerAction.WritesTo]) (by simp [LoggerAction.Syncs])

/-- If the request executed is the fsync of a log, none of the log's writes is outstanding. -/
def SyncsLate (index : Nat) (s : LoggerState φ) : LoggerEvent → Prop
  | .execute k _ =>
      ∀ sqe ∈ s.submitted[k]?, sqe.Syncs (.fixed index) →
        ∀ q ∈ s.submitted, ¬ q.WritesTo (.fixed index)
  | _ => True

instance [DecidableEq φ] (index : Nat) (s : LoggerState φ) (e : LoggerEvent) :
    Decidable (SyncsLate index s e) :=
  match e with
  | .execute k _ =>
      inferInstanceAs (Decidable (∀ sqe ∈ s.submitted[k]?, sqe.Syncs (.fixed index) →
        ∀ q ∈ s.submitted, ¬ q.WritesTo (.fixed index)))
  | .commit _ _ _ => inferInstanceAs (Decidable True)
  | .peek _ => inferInstanceAs (Decidable True)
  | .flushAll => inferInstanceAs (Decidable True)
  | .dumpMeta _ _ => inferInstanceAs (Decidable True)
  | .dumpSync => inferInstanceAs (Decidable True)

variable [DecidableEq φ]

/-- The writes to the file that have been executed. -/
def executedWrites (file : Target φ) (t : List (LoggerAction φ)) : Nat :=
  t.countP (fun a => a.WritesTo file)

/-- The writes to the file that are outstanding. -/
def outstandingWrites (file : Target φ) (submitted : List (Sqe φ)) : Nat :=
  submitted.countP (fun sqe => sqe.WritesTo file)

/-- The fsyncs of the file that are outstanding. -/
def outstandingSyncs (file : Target φ) (submitted : List (Sqe φ)) : Nat :=
  submitted.countP (fun sqe => sqe.Syncs file)

/-- **Every record is synced**: as many writes to a log were executed as records were committed to it, one
    write to `log_meta`, and each before an fsync of the same file. -/
def RecordsSynced (L : Logger φ) (s : LoggerState φ) (t : List (LoggerAction φ)) : Prop :=
  (∀ index, index < L.fileFormat.length →
      executedWrites (.fixed index) t = s.fileCommitCount index ∧ Synced (.fixed index) t) ∧
    ∃ file, executedWrites (.fd file) t = 1 ∧ Synced (.fd file) t

/-! ## Counting requests -/

section Counts

variable (file : Target φ)

theorem executedWrites_concat (t : List (LoggerAction φ)) (a : LoggerAction φ) :
    executedWrites file (t ++ [a]) = executedWrites file t + if a.WritesTo file then 1 else 0 := by
  simp [executedWrites, List.countP_append, List.countP_singleton]

theorem outstandingWrites_concat (submitted : List (Sqe φ)) (sqe : Sqe φ) :
    outstandingWrites file (submitted ++ [sqe]) =
      outstandingWrites file submitted + if sqe.WritesTo file then 1 else 0 := by
  simp [outstandingWrites, List.countP_append, List.countP_singleton]

theorem outstandingWrites_middle (before after : List (Sqe φ)) (sqe : Sqe φ) :
    outstandingWrites file (before ++ sqe :: after) =
      outstandingWrites file (before ++ after) + if sqe.WritesTo file then 1 else 0 := by
  simp only [outstandingWrites, List.countP_append, List.countP_cons, decide_eq_true_eq]
  omega

theorem outstandingSyncs_concat (submitted : List (Sqe φ)) (sqe : Sqe φ) :
    outstandingSyncs file (submitted ++ [sqe]) =
      outstandingSyncs file submitted + if sqe.Syncs file then 1 else 0 := by
  simp [outstandingSyncs, List.countP_append, List.countP_singleton]

theorem outstandingSyncs_middle (before after : List (Sqe φ)) (sqe : Sqe φ) :
    outstandingSyncs file (before ++ sqe :: after) =
      outstandingSyncs file (before ++ after) + if sqe.Syncs file then 1 else 0 := by
  simp only [outstandingSyncs, List.countP_append, List.countP_cons, decide_eq_true_eq]
  omega

theorem outstandingWrites_eq_zero {submitted : List (Sqe φ)} :
    outstandingWrites file submitted = 0 ↔ ∀ sqe ∈ submitted, ¬ sqe.WritesTo file := by
  simp [outstandingWrites, List.countP_eq_zero]

/-- The fsyncs of `__flush_all` write nothing. -/
theorem outstandingWrites_syncs (submitted : List (Sqe φ)) (n : Nat) :
    outstandingWrites file (submitted ++ (List.range n).map Sqe.dataSync) =
      outstandingWrites file submitted := by
  have hzero : outstandingWrites file ((List.range n).map Sqe.dataSync) = 0 := by
    rw [outstandingWrites_eq_zero]
    intro sqe hsqe
    obtain ⟨index, -, rfl⟩ := List.mem_map.mp hsqe
    exact fun hw => hw.2 rfl
  rw [outstandingWrites, List.countP_append]
  exact Nat.add_eq_left.mpr hzero

/-- They sync each log once. -/
theorem outstandingSyncs_syncs (submitted : List (Sqe φ)) {n index : Nat} (h : index < n) :
    outstandingSyncs (.fixed index) (submitted ++ (List.range n).map Sqe.dataSync) =
      outstandingSyncs (.fixed index) submitted + 1 := by
  have hone : outstandingSyncs (.fixed index : Target φ) ((List.range n).map Sqe.dataSync) = 1 := by
    have hcomp : ((fun sqe => decide (Sqe.Syncs (.fixed index : Target φ) sqe)) ∘ Sqe.dataSync) =
        fun i => i == index := by
      funext i
      simp [Sqe.Syncs, Sqe.dataSync, beq_eq_decide]
    rw [outstandingSyncs, List.countP_map, hcomp]
    exact List.count_eq_one_of_mem List.nodup_range (List.mem_range.mpr h)
  rw [outstandingSyncs, List.countP_append]
  exact congrArg _ hone

end Counts

variable {L : Logger φ}

/-! ## No write to a log is forgotten -/

/-- The writes to a log, executed or not, are its commits. -/
def Counted (index : Nat) (s : LoggerState φ) (t : List (LoggerAction φ)) : Prop :=
  executedWrites (.fixed index) t + outstandingWrites (.fixed index) s.submitted =
    s.fileCommitCount index

theorem executedWrites_allocated (file : Target φ) (t : List (LoggerAction φ)) (buf : Nat) :
    executedWrites file (t ++ [.allocated buf]) = executedWrites file t := by
  rw [executedWrites_concat, if_neg (by simp [LoggerAction.WritesTo]), Nat.add_zero]

theorem executedWrites_freed (file : Target φ) (t : List (LoggerAction φ)) (buf : Nat) :
    executedWrites file (t ++ [.freed buf]) = executedWrites file t := by
  rw [executedWrites_concat, if_neg (by simp [LoggerAction.WritesTo]), Nat.add_zero]

/-- Executing a request moves it from one count to the other. -/
theorem writes_execute (file : Target φ) (t : List (LoggerAction φ)) (before after : List (Sqe φ))
    (sqe : Sqe φ) (res : Int) :
    executedWrites file (t ++ [.executed sqe res]) + outstandingWrites file (before ++ after) =
      executedWrites file t + outstandingWrites file (before ++ sqe :: after) := by
  rw [executedWrites_concat, outstandingWrites_middle]
  by_cases hw : sqe.WritesTo file
  · rw [if_pos hw, if_pos (by exact hw)]
    omega
  · rw [if_neg hw, if_neg (by exact hw)]
    omega

theorem counted_step {index : Nat} {s s' : LoggerState φ} {t o : List (LoggerAction φ)} {e : LoggerEvent}
    (h : Counted index s t) (hstep : Step L s e s' o) : Counted index s' (t ++ o) := by
  unfold Counted at h ⊢
  cases hstep with
  | @commit fName row buf i hidx hpc hlt hcount hbuf =>
      show executedWrites (.fixed index) (t ++ [.allocated buf]) +
          outstandingWrites (.fixed index) (s.submitted ++ [.dataWrite i buf row.length (s.offSetOf i)]) =
        Function.update s.fileCommitCount i (s.fileCommitCount i + 1) index
      rw [executedWrites_allocated, outstandingWrites_concat]
      by_cases hi : i = index
      · subst hi
        rw [Function.update_self, if_pos (by simp [Sqe.WritesTo, Sqe.dataWrite])]
        omega
      · rw [Function.update_of_ne (Ne.symm hi), if_neg (by simp [Sqe.WritesTo, Sqe.dataWrite, hi])]
        omega
  | stop hpc => simpa using h
  | wait hpc => simpa using h
  | spin hpc hcq hud => simpa using h
  | delete hpc hcq hud => simpa only [executedWrites_freed] using h
  | synced hpc hcq hud => simpa using h
  | finish hpc hcq hud => simpa using h
  | flushAll hpc => simpa only [List.append_nil, outstandingWrites_syncs] using h
  | dumpMeta hpc hbuf file hfile =>
      simp only [executedWrites_allocated, outstandingWrites_concat]
      rw [if_neg (by simp [Sqe.WritesTo, Sqe.metaWrite])]
      exact h
  | dumpSync hpc =>
      simp only [List.append_nil, outstandingWrites_concat]
      rw [if_neg (Sqe.not_writesTo_finish _ _)]
      exact h
  | execute before after sqe hsub hdrain =>
      rw [writes_execute, ← hsub]
      exact h

/-! ## The fsync of a log -/

/-- What can still happen to the fsync of a log, and whether it came too early. -/
inductive SyncState (L : Logger φ) (index : Nat) (evs : List LoggerEvent) (s : LoggerState φ)
    (t : List (LoggerAction φ)) : Prop
  /-- Not submitted. -/
  | before (hpc : s.pc = .idle ∨ s.pc = .reaping)
      (hq : outstandingSyncs (.fixed index) s.submitted = 0)
      (hc : Run.AllSteps (L.system.Before (SyncsLate index)) evs)
  /-- Submitted. -/
  | waiting (hpc : ¬ (s.pc = .idle ∨ s.pc = .reaping))
      (hq : outstandingSyncs (.fixed index) s.submitted = 1)
      (hc : Run.AllSteps (L.system.Before (SyncsLate index)) evs)
  /-- Executed after all the writes. -/
  | synced (hpc : ¬ (s.pc = .idle ∨ s.pc = .reaping))
      (hq : outstandingSyncs (.fixed index) s.submitted = 0)
      (hw : outstandingWrites (.fixed index) s.submitted = 0) (hs : Synced (.fixed index) t)
      (hc : Run.AllSteps (L.system.Before (SyncsLate index)) evs)
  /-- Executed with a write outstanding, which has been executed since or has not. -/
  | missed (hpc : ¬ (s.pc = .idle ∨ s.pc = .reaping))
      (hq : outstandingSyncs (.fixed index) s.submitted = 0)
      (hw : outstandingWrites (.fixed index) s.submitted ≠ 0 ∨ ¬ Synced (.fixed index) t)
      (hc : ¬ Run.AllSteps (L.system.Before (SyncsLate index)) evs)

/-- A step that executes nothing and leaves the counts as they are. -/
theorem SyncState.frame {index : Nat} {evs evs' : List LoggerEvent} {s s' : LoggerState φ}
    {t t' : List (LoggerAction φ)} (h : SyncState L index evs s t)
    (hpc : (s'.pc = .idle ∨ s'.pc = .reaping) ↔ (s.pc = .idle ∨ s.pc = .reaping))
    (hq : outstandingSyncs (.fixed index) s'.submitted = outstandingSyncs (.fixed index) s.submitted)
    (hw : ¬ (s.pc = .idle ∨ s.pc = .reaping) →
      outstandingWrites (.fixed index) s'.submitted = outstandingWrites (.fixed index) s.submitted)
    (hs : Synced (.fixed index) t' ↔ Synced (.fixed index) t)
    (hc : Run.AllSteps (L.system.Before (SyncsLate index)) evs' ↔
      Run.AllSteps (L.system.Before (SyncsLate index)) evs) : SyncState L index evs' s' t' := by
  cases h with
  | before hpc₀ hq₀ hc₀ => exact .before (hpc.mpr hpc₀) (hq.trans hq₀) (hc.mpr hc₀)
  | waiting hpc₀ hq₀ hc₀ => exact .waiting (mt hpc.mp hpc₀) (hq.trans hq₀) (hc.mpr hc₀)
  | synced hpc₀ hq₀ hw₀ hs₀ hc₀ =>
      exact .synced (mt hpc.mp hpc₀) (hq.trans hq₀) ((hw hpc₀).trans hw₀) (hs.mpr hs₀) (hc.mpr hc₀)
  | missed hpc₀ hq₀ hw₀ hc₀ =>
      refine .missed (mt hpc.mp hpc₀) (hq.trans hq₀) ?_ (mt hc.mp hc₀)
      rw [hw hpc₀, hs]
      exact hw₀

/-- **The execution of a request.** -/
theorem SyncState.execute {index : Nat} {evs : List LoggerEvent} {s : LoggerState φ}
    {t : List (LoggerAction φ)} (h : SyncState L index evs s t) (hrun : L.system.run evs = some (s, t))
    {before after : List (Sqe φ)} {sqe : Sqe φ} (hsub : s.submitted = before ++ sqe :: after) {res : Int}
    {s' : LoggerState φ} (hpc : s'.pc = s.pc) (hs' : s'.submitted = before ++ after) :
    SyncState L index (evs ++ [.execute before.length res]) s' (t ++ [.executed sqe res]) := by
  have hsyncs := outstandingSyncs_middle (.fixed index) before after sqe
  have hwrites := outstandingWrites_middle (.fixed index) before after sqe
  rw [← hsub, ← hs'] at hsyncs hwrites
  have hk : s.submitted[before.length]? = some sqe := by
    rw [hsub, List.getElem?_middle]
  by_cases hsync : sqe.Syncs (.fixed index)
  · -- the fsync of this log: it comes too early exactly if a write is outstanding
    rw [if_pos hsync] at hsyncs
    rw [if_neg (hsync.not_writesTo _)] at hwrites
    have hlate : SyncsLate index s (.execute before.length res) ↔
        outstandingWrites (.fixed index) s.submitted = 0 := by
      rw [outstandingWrites_eq_zero]
      simp [SyncsLate, hk, hsync]
    have hsynced : Synced (.fixed index) (t ++ [.executed sqe res]) :=
      Run.followed_concat.mpr ⟨hsync.not_writesTo _, Or.inl hsync⟩
    cases h with
    | before _ hq => omega
    | waiting hpc₀ hq hc =>
        rw [← hpc] at hpc₀
        by_cases hw : outstandingWrites (.fixed index) s.submitted = 0
        · refine .synced hpc₀ (by omega) (by omega) hsynced ?_
          exact (System.allSteps_before_concat hrun).mpr ⟨hc, hlate.mpr hw⟩
        · refine .missed hpc₀ (by omega) (Or.inl (by omega)) ?_
          intro hall
          exact hw (hlate.mp ((System.allSteps_before_concat hrun).mp hall).2)
    | synced _ hq => omega
    | missed _ hq => omega
  · -- any other request is under no condition
    rw [if_neg hsync] at hsyncs
    have hcond : Run.AllSteps (L.system.Before (SyncsLate index)) (evs ++ [.execute before.length res]) ↔
        Run.AllSteps (L.system.Before (SyncsLate index)) evs := by
      rw [System.allSteps_before_concat hrun]
      simp [SyncsLate, hk, hsync]
    by_cases hw : sqe.WritesTo (.fixed index)
    · rw [if_pos hw] at hwrites
      have hunsynced : ¬ Synced (.fixed index) (t ++ [.executed sqe res]) :=
        fun hs => (Run.followed_concat.mp hs).1 hw
      cases h with
      | before hpc₀ hq hc => exact .before (by rw [hpc]; exact hpc₀) (by omega) (hcond.mpr hc)
      | waiting hpc₀ hq hc => exact .waiting (by rw [hpc]; exact hpc₀) (by omega) (hcond.mpr hc)
      | synced _ _ hw₀ => omega
      | missed hpc₀ hq _ hc =>
          exact .missed (by rw [hpc]; exact hpc₀) (by omega) (Or.inr hunsynced) (mt hcond.mp hc)
    · rw [if_neg hw] at hwrites
      exact h.frame (by rw [hpc]) (by omega) (fun _ => by omega) (synced_concat hw hsync) hcond

/-- **Every step keeps the state of the fsync of a log.** -/
theorem syncState_step {index : Nat} (hidx : index < L.fileFormat.length) {evs : List LoggerEvent}
    {s s' : LoggerState φ} {t o : List (LoggerAction φ)} {e : LoggerEvent}
    (hrun : L.system.run evs = some (s, t)) (h : SyncState L index evs s t) (hstep : Step L s e s' o) :
    SyncState L index (evs ++ [e]) s' (t ++ o) := by
  have hcond : Run.AllSteps (L.system.Before (SyncsLate index)) (evs ++ [e]) ↔
      Run.AllSteps (L.system.Before (SyncsLate index)) evs ∧ SyncsLate index s e :=
    System.allSteps_before_concat hrun
  cases hstep with
  | commit i hi hpc hlt hcount hbuf =>
      refine h.frame (by simp [hpc]) ?_ (by simp [hpc]) (synced_allocated _ _ _) (by simp [hcond, SyncsLate])
      rw [outstandingSyncs_concat, if_neg (by simp [Sqe.Syncs, Sqe.dataWrite]), Nat.add_zero]
  | stop hpc =>
      exact h.frame (by simp [hpc]) rfl (fun _ => rfl) (by rw [List.append_nil])
        (by simp [hcond, SyncsLate])
  | wait hpc =>
      exact h.frame Iff.rfl rfl (fun _ => rfl) (by rw [List.append_nil]) (by simp [hcond, SyncsLate])
  | spin hpc hcq hud =>
      exact h.frame Iff.rfl rfl (fun _ => rfl) (by rw [List.append_nil]) (by simp [hcond, SyncsLate])
  | delete hpc hcq hud =>
      exact h.frame Iff.rfl rfl (fun _ => rfl) (synced_freed _ _ _) (by simp [hcond, SyncsLate])
  | synced hpc hcq hud =>
      exact h.frame Iff.rfl rfl (fun _ => rfl) (by rw [List.append_nil]) (by simp [hcond, SyncsLate])
  | finish hpc hcq hud =>
      exact h.frame (by simp [hpc]) rfl (fun _ => rfl) (by rw [List.append_nil])
        (by simp [hcond, SyncsLate])
  | flushAll hpc =>
      cases h with
      | before _ hq hc =>
          refine .waiting (by simp) ?_ (hcond.mpr ⟨hc, trivial⟩)
          rw [outstandingSyncs_syncs _ hidx, hq]
      | waiting hpc₀ => exact absurd (Or.inl hpc) hpc₀
      | synced hpc₀ => exact absurd (Or.inl hpc) hpc₀
      | missed hpc₀ => exact absurd (Or.inl hpc) hpc₀
  | dumpMeta hpc hbuf file hfile =>
      refine h.frame (by simp [hpc]) ?_ ?_ (synced_allocated _ _ _) (by simp [hcond, SyncsLate])
      · rw [outstandingSyncs_concat, if_neg (by simp [Sqe.Syncs, Sqe.metaWrite]), Nat.add_zero]
      · intro _
        rw [outstandingWrites_concat, if_neg (by simp [Sqe.WritesTo, Sqe.metaWrite]), Nat.add_zero]
  | dumpSync hpc =>
      refine h.frame (by simp [hpc]) ?_ ?_ (by rw [List.append_nil]) (by simp [hcond, SyncsLate])
      · rw [outstandingSyncs_concat, if_neg (by simp [Sqe.Syncs, Sqe.finish]), Nat.add_zero]
      · intro _
        rw [outstandingWrites_concat, if_neg (Sqe.not_writesTo_finish _ _), Nat.add_zero]
  | execute before after sqe hsub hdrain => exact h.execute hrun hsub rfl rfl

/-! ## The fsync of `log_meta` -/

/-- The writes to a descriptor, executed or not. -/
def metaWrites (file : Option φ) (s : LoggerState φ) (t : List (LoggerAction φ)) : Nat :=
  executedWrites (.fd file) t + outstandingWrites (.fd file) s.submitted

/-- How far the dump of `log_meta` is. -/
inductive MetaState (s : LoggerState φ) (t : List (LoggerAction φ)) : Prop
  | before (hpc : s.pc = .idle ∨ s.pc = .reaping ∨ ∃ logData, s.pc = .flushed logData)
      (hsum : ∀ file, metaWrites file s t = 0)
  | during (file : Option φ) (hpc : s.pc = .written file ∨ (s.pc = .draining ∧ .finish file ∈ s.submitted))
      (hsum : metaWrites file s t = 1)
  | after (file : Option φ) (hpc : s.pc = .draining ∨ s.pc = .released) (hs : s.submitted = [])
      (hsum : executedWrites (.fd file) t = 1) (hsy : Synced (.fd file) t)

/-- Up to the dump nothing was written to a descriptor. -/
theorem MetaState.metaWrites_eq_zero {s : LoggerState φ} {t : List (LoggerAction φ)} (h : MetaState s t)
    (hpc : s.pc = .idle ∨ s.pc = .reaping ∨ ∃ logData, s.pc = .flushed logData) (file : Option φ) :
    metaWrites file s t = 0 := by
  cases h with
  | before _ hsum => exact hsum file
  | during _ hpc₀ => rcases hpc with hpc | hpc | ⟨_, hpc⟩ <;> simp [hpc] at hpc₀
  | after _ hpc₀ => rcases hpc with hpc | hpc | ⟨_, hpc⟩ <;> simp [hpc] at hpc₀

/-- A step that leaves the requests and where the user side is. -/
theorem MetaState.frame {s s' : LoggerState φ} {t t' : List (LoggerAction φ)} (h : MetaState s t)
    (hpc : s'.pc = s.pc) (hs : s'.submitted = s.submitted)
    (hw : ∀ file, executedWrites (.fd file) t' = executedWrites (.fd file) t)
    (hsy : ∀ file, Synced (.fd file) t' ↔ Synced (.fd file) t) : MetaState s' t' := by
  cases h with
  | before hpc₀ hsum =>
      refine .before (by rw [hpc]; exact hpc₀) ?_
      intro file
      rw [metaWrites, hw, hs]
      exact hsum file
  | during file hpc₀ hsum =>
      refine .during file (by rw [hpc, hs]; exact hpc₀) ?_
      rw [metaWrites, hw, hs]
      exact hsum
  | after file hpc₀ hs₀ hsum hsy₀ =>
      exact .after file (by rw [hpc]; exact hpc₀) (hs.trans hs₀) ((hw file).trans hsum) ((hsy file).mpr hsy₀)

/-- The execution of a request: the drained one comes last, after the write to `log_meta`. -/
theorem MetaState.execute {s s' : LoggerState φ} {t : List (LoggerAction φ)} (hp : Phase s)
    (h : MetaState s t) {before after : List (Sqe φ)} {sqe : Sqe φ}
    (hsub : s.submitted = before ++ sqe :: after) (hdrain : sqe.drain = true → before = []) {res : Int}
    (hpc : s'.pc = s.pc) (hs' : s'.submitted = before ++ after) :
    MetaState s' (t ++ [.executed sqe res]) := by
  have hsum' : ∀ file, metaWrites file s' (t ++ [.executed sqe res]) = metaWrites file s t := by
    intro file
    rw [metaWrites, hs', writes_execute, ← hsub, metaWrites]
  cases h with
  | before hpc₀ hsum =>
      refine .before (by rw [hpc]; exact hpc₀) ?_
      intro file
      rw [hsum', hsum]
  | during file hpc₀ hsum =>
      rcases hpc₀ with hpc₀ | ⟨hpc₀, hmem⟩
      · exact .during file (Or.inl (hpc.trans hpc₀)) ((hsum' file).trans hsum)
      · rcases hp.of_draining hpc₀ with ⟨rest, file', hs, hr, -⟩ | ⟨_, _, hs, -⟩
        · -- the sentinel is the one that was submitted
          have hfile : file' = file := by
            rw [hs] at hmem
            rcases List.mem_append.mp hmem with hold | hlast
            · exact absurd rfl (hr _ hold).userData
            · simpa [Sqe.finish, eq_comm] using hlast
          subst hfile
          rcases middle_eq_finish (hsub.symm.trans hs) hdrain with
            ⟨rfl, rfl, rfl, rfl⟩ | ⟨after', rfl, rfl⟩
          · have hempty : s'.submitted = [] := by simpa using hs'
            have hone := (hsum' file').trans hsum
            rw [metaWrites, hempty] at hone
            refine .after file' (Or.inl (hpc.trans hpc₀)) hempty (by simpa [outstandingWrites] using hone) ?_
            exact Run.followed_concat.mpr ⟨Sqe.not_writesTo_finish _ _, Or.inl ⟨rfl, rfl⟩⟩
          · refine .during file' (Or.inr ⟨hpc.trans hpc₀, ?_⟩) ((hsum' file').trans hsum)
            rw [hs']
            simp
        · simp [hsub] at hs
  | after _ _ hs => simp [hsub] at hs

/-- **Every step takes the dump of `log_meta` further, or leaves it.** -/
theorem metaState_step {s s' : LoggerState φ} {t o : List (LoggerAction φ)} {e : LoggerEvent}
    (hp : Phase s) (h : MetaState s t) (hstep : Step L s e s' o) : MetaState s' (t ++ o) := by
  cases hstep with
  | commit i hi hpc hlt hcount hbuf =>
      refine .before (Or.inr (Or.inl rfl)) ?_
      intro file
      have hzero := h.metaWrites_eq_zero (Or.inl hpc) file
      unfold metaWrites at hzero ⊢
      rw [executedWrites_allocated, outstandingWrites_concat, if_neg (by simp [Sqe.WritesTo, Sqe.dataWrite])]
      exact hzero
  | stop hpc =>
      rw [List.append_nil]
      exact .before (Or.inl rfl) (h.metaWrites_eq_zero (Or.inr (Or.inl hpc)))
  | wait hpc => simpa using h
  | spin hpc hcq hud => simpa using h
  | delete hpc hcq hud =>
      exact h.frame rfl rfl (fun _ => executedWrites_freed _ _ _) (fun _ => synced_freed _ _ _)
  | synced hpc hcq hud =>
      rw [List.append_nil]
      exact h.frame rfl rfl (fun _ => rfl) (fun _ => Iff.rfl)
  | finish hpc hcq hud =>
      rw [List.append_nil]
      cases h with
      | before hpc₀ => simp [hpc] at hpc₀
      | during file hpc₀ =>
          -- the sentinel's completion is seen only once nothing is outstanding
          have hmem : Sqe.finish file ∈ s.submitted := by
            rcases hpc₀ with hpc₀ | hpc₀
            · simp [hpc] at hpc₀
            · exact hpc₀.2
          rcases hp.of_draining hpc with ⟨_, _, _, _, hc⟩ | ⟨_, _, hs, -⟩
          · exact absurd hud (hc _ (by rw [hcq]; exact List.mem_cons_self))
          · simp [hs] at hmem
      | after file _ hs hsum hsy => exact .after file (Or.inr rfl) hs hsum hsy
  | flushAll hpc =>
      rw [List.append_nil]
      refine .before (Or.inr (Or.inr ⟨_, rfl⟩)) ?_
      intro file
      rw [metaWrites, outstandingWrites_syncs]
      exact h.metaWrites_eq_zero (Or.inl hpc) file
  | dumpMeta hpc hbuf file hfile =>
      refine .during file (Or.inl rfl) ?_
      have hzero := h.metaWrites_eq_zero (Or.inr (Or.inr ⟨_, hpc⟩)) file
      unfold metaWrites at hzero ⊢
      rw [executedWrites_allocated, outstandingWrites_concat, if_pos (by simp [Sqe.WritesTo, Sqe.metaWrite])]
      omega
  | @dumpSync file hpc =>
      rw [List.append_nil]
      cases h with
      | before hpc₀ => simp [hpc] at hpc₀
      | during file' hpc₀ hsum =>
          obtain rfl : file = file' := by simpa [hpc] using hpc₀
          refine .during file (Or.inr ⟨rfl, by simp⟩) ?_
          rw [metaWrites, outstandingWrites_concat, if_neg (Sqe.not_writesTo_finish _ _)]
          exact hsum
      | after _ hpc₀ => simp [hpc] at hpc₀
  | execute before after sqe hsub hdrain => exact h.execute hp hsub hdrain rfl rfl

/-! ## What is synced at the end -/

/-- After every run, the counts are right and the dump of `log_meta` is in one of its states. -/
theorem sync_run {evs : List LoggerEvent} {s : LoggerState φ} {t : List (LoggerAction φ)}
    (h : L.system.run evs = some (s, t)) :
    Phase s ∧ MetaState s t ∧ ∀ index, Counted index s t ∧
      (index < L.fileFormat.length → SyncState L index evs s t) := by
  refine System.run_induction (P := fun evs s t => Phase s ∧ MetaState s t ∧ ∀ index, Counted index s t ∧
    (index < L.fileFormat.length → SyncState L index evs s t)) ?_ ?_ h
  · refine ⟨phase_init, .before (Or.inl rfl) (fun _ => rfl), ?_⟩
    intro index
    exact ⟨rfl, fun _ => .before (Or.inl rfl) rfl (Run.allSteps_nil _)⟩
  · rintro evs s t e s' o hrun ⟨hp, hm, hi⟩ hstep
    have hst : Step L s e s' o := step_of_system hstep
    refine ⟨phase_step hp hst, metaState_step hp hm hst, ?_⟩
    intro index
    exact ⟨counted_step (hi index).1 hst,
      fun hidx => syncState_step hidx hrun ((hi index).2 hidx) hst⟩

/-- **When the logger is released every record has been synced exactly if no fsync of a log was executed
    while a write to that log was outstanding.** -/
theorem recordsSynced_iff {evs : List LoggerEvent} {s : LoggerState φ} {t : List (LoggerAction φ)}
    (h : L.system.run evs = some (s, t)) (hpc : s.pc = .released) :
    RecordsSynced L s t ↔ ∀ index, index < L.fileFormat.length →
      Run.AllSteps (L.system.Before (SyncsLate index)) evs := by
  obtain ⟨hp, hm, hi⟩ := sync_run h
  have hempty : s.submitted = [] := (hp.of_released hpc).1
  have hmeta : ∃ file, executedWrites (.fd file) t = 1 ∧ Synced (.fd file) t := by
    cases hm with
    | before hpc₀ => simp [hpc] at hpc₀
    | during _ hpc₀ => simp [hpc] at hpc₀
    | after file _ _ hsum hsy => exact ⟨file, hsum, hsy⟩
  have hcount : ∀ index, executedWrites (.fixed index) t = s.fileCommitCount index := by
    intro index
    have hc := (hi index).1
    rw [Counted, hempty] at hc
    exact hc
  have hlog : ∀ index, index < L.fileFormat.length →
      (Synced (.fixed index) t ↔ Run.AllSteps (L.system.Before (SyncsLate index)) evs) := by
    intro index hidx
    cases (hi index).2 hidx with
    | before hpc₀ => simp [hpc] at hpc₀
    | waiting _ hq => simp [hempty, outstandingSyncs] at hq
    | synced _ _ _ hs hc => exact iff_of_true hs hc
    | missed _ _ hw hc =>
        refine iff_of_false ?_ hc
        exact hw.resolve_left (by simp [hempty, outstandingWrites])
  constructor
  · rintro ⟨hsynced, -⟩ index hidx
    exact (hlog index hidx).mp (hsynced index hidx).2
  · intro hall
    refine ⟨?_, hmeta⟩
    intro index hidx
    exact ⟨hcount index, (hlog index hidx).mpr (hall index hidx)⟩

theorem recordsSynced_oneRecord :
    ∃ s t, oneLog.system.run (oneRecord 15 [.execute 0 2, .execute 0 0]) = some (s, t) ∧
      s.pc = .released ∧ RecordsSynced oneLog s t := by
  obtain ⟨s, t, hst, hpc⟩ := oneRecord_released
  refine ⟨s, t, hst, hpc, (recordsSynced_iff hst hpc).mpr ?_⟩
  intro index hidx
  obtain rfl : index = 0 := by
    have hlen : oneLog.fileFormat.length = 1 := rfl
    omega
  decide

/-- The log's fsync is executed first, then the write of its record. -/
theorem not_recordsSynced_oneRecord :
    ∃ s t, oneLog.system.run (oneRecord 15 [.execute 1 0, .execute 0 2]) = some (s, t) ∧
      s.pc = .released ∧ ¬ RecordsSynced oneLog s t := by
  have hrun : (oneLog.system.run (oneRecord 15 [.execute 1 0, .execute 0 2])).map
      (fun r => (r.1.pc, decide (Run.Followed (LoggerAction.WritesTo (.fixed 0))
        (LoggerAction.Syncs (.fixed 0)) r.2))) = some (.released, false) := by decide
  obtain ⟨⟨s, t⟩, hst, heq⟩ := Option.map_eq_some_iff.mp hrun
  obtain ⟨hpc, hfollowed⟩ := Prod.mk.inj heq
  refine ⟨s, t, hst, hpc, ?_⟩
  rintro ⟨hsynced, -⟩
  exact of_decide_eq_false hfollowed (hsynced 0 (by decide)).2

end Logger

end StorTrace
