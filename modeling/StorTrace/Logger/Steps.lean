import StorTrace.Logger.Machine

/-!
# `Logger.Steps` — what one step of the logger does, and the phases of a run

`Step` lists everything a step can do (`step_of_system`); the invariants go by its cases. The first of them,
`Phase`, says where a run is and what its queues can hold there: only data writes while the program
commits, untagged fsyncs after `__flush_all`, and at the end the sentinel, behind everything else.
-/

namespace StorTrace

namespace Sqe

variable {φ : Type}

/-- A write tagged with its buffer. -/
def IsWrite (sqe : Sqe φ) : Prop :=
  sqe.drain = false ∧ sqe.userData ≠ 0 ∧ sqe.userData ≠ int16Max ∧
    ∃ length off, sqe.op = .write sqe.userData length off

/-- An fsync that is neither tagged nor drained. -/
def IsSync (sqe : Sqe φ) : Prop := sqe.drain = false ∧ sqe.userData = 0 ∧ sqe.op = .fsync

/-- A request other than the sentinel. -/
def Plain (sqe : Sqe φ) : Prop := sqe.IsWrite ∨ sqe.IsSync

theorem Plain.drain {sqe : Sqe φ} (h : sqe.Plain) : sqe.drain = false := by
  rcases h with hw | hs
  · exact hw.1
  · exact hs.1

theorem Plain.userData {sqe : Sqe φ} (h : sqe.Plain) : sqe.userData ≠ int16Max := by
  rcases h with hw | hs
  · exact hw.2.2.1
  · rw [hs.2.1]
    decide

theorem isSync_dataSync (index : Nat) : (dataSync index : Sqe φ).IsSync := ⟨rfl, rfl, rfl⟩

end Sqe

namespace Logger

variable {φ : Type}

theorem Fresh.ne {s : LoggerState φ} {length buf : Nat} (h : Fresh s length buf) :
    buf ≠ 0 ∧ buf ≠ int16Max := ⟨h.2.1, h.2.2.1⟩

theorem Fresh.isWrite_dataWrite {s : LoggerState φ} {length buf : Nat} (h : Fresh s length buf)
    (index off : Nat) : (Sqe.dataWrite index buf length off : Sqe φ).IsWrite :=
  ⟨rfl, h.2.1, h.2.2.1, length, off, rfl⟩

theorem Fresh.isWrite_metaWrite {s : LoggerState φ} {length buf : Nat} (h : Fresh s length buf)
    (file : Option φ) : (Sqe.metaWrite file buf length).IsWrite :=
  ⟨rfl, h.2.1, h.2.2.1, length, 0, rfl⟩

/-! ## What a step can do -/

variable [DecidableEq φ] {L : Logger φ}

/-- **Everything a step can do**, with the conditions under which it does it. -/
inductive Step (L : Logger φ) (s : LoggerState φ) :
    LoggerEvent → LoggerState φ → List (LoggerAction φ) → Prop
  | commit {fName : String} {row : Str} {buf : Nat} (index : Nat) (hidx : fdMap L.fileFormat fName = index)
      (hpc : s.pc = .idle) (hlt : index < L.fileFormat.length)
      (hcount : s.fileCommitCount index < 0x7fffffff) (hbuf : Fresh s row.length buf) :
      Step L s (.commit fName row buf)
        { s with
          fileCommitCount := Function.update s.fileCommitCount index (s.fileCommitCount index + 1)
          heap := Function.update s.heap buf (some row)
          submitted := s.submitted ++ [.dataWrite index buf row.length (s.offSetOf index)]
          offSetOf := Function.update s.offSetOf index (s.offSetOf index + row.length)
          pc := .reaping } [.allocated buf]
  | stop (hpc : s.pc = .reaping) : Step L s (.peek false) { s with pc := .idle } []
  | wait (hpc : s.pc = .draining) : Step L s (.peek false) s []
  | spin {cqe : Cqe} {rest : List Cqe} (hpc : s.pc = .reaping) (hcq : s.cq = cqe :: rest)
      (hud : cqe.userData = 0) : Step L s (.peek true) s []
  | delete {cqe : Cqe} {rest : List Cqe}
      (hpc : s.pc = .reaping ∨ (s.pc = .draining ∧ cqe.userData ≠ int16Max))
      (hcq : s.cq = cqe :: rest) (hud : cqe.userData ≠ 0) :
      Step L s (.peek true)
        { s with heap := Function.update s.heap cqe.userData none, cq := rest } [.freed cqe.userData]
  | synced {cqe : Cqe} {rest : List Cqe} (hpc : s.pc = .draining) (hcq : s.cq = cqe :: rest)
      (hud : cqe.userData = 0) : Step L s (.peek true) { s with cq := rest } []
  | finish {cqe : Cqe} {rest : List Cqe} (hpc : s.pc = .draining) (hcq : s.cq = cqe :: rest)
      (hud : cqe.userData = int16Max) : Step L s (.peek true) { s with cq := rest, pc := .released } []
  | flushAll (hpc : s.pc = .idle) :
      Step L s .flushAll
        { s with
          submitted := s.submitted ++ (List.range L.fileFormat.length).map Sqe.dataSync
          pc := .flushed (Meta.logData L.fileFormat s.fileCommitCount) } []
  | dumpMeta {fd : Int} {buf : Nat} {logData : Str} (hpc : s.pc = .flushed logData)
      (hbuf : Fresh s logData.length buf) (file : Option φ)
      (hfile : file = if fd < 0 then none else some L.logMeta) :
      Step L s (.dumpMeta fd buf)
        { s with
          files := if fd < 0 then s.files else Function.update s.files L.logMeta .empty
          heap := Function.update s.heap buf (some logData)
          submitted := s.submitted ++ [.metaWrite file buf logData.length]
          pc := .written file } [.allocated buf]
  | dumpSync {file : Option φ} (hpc : s.pc = .written file) :
      Step L s .dumpSync { s with submitted := s.submitted ++ [.finish file], pc := .draining } []
  | execute {res : Int} (before after : List (Sqe φ)) (sqe : Sqe φ)
      (hsub : s.submitted = before ++ sqe :: after) (hdrain : sqe.drain = true → before = []) :
      Step L s (.execute before.length res)
        { s with
          submitted := before ++ after
          cq := s.cq ++ [⟨sqe.userData, res⟩]
          files := L.carryOut s sqe res } [.executed sqe res]

theorem step_of_reap {s s' : LoggerState φ} {visible : Bool} {o : List (LoggerAction φ)}
    (hpc : s.pc = .reaping) (h : reap s visible = some (s', o)) : Step L s (.peek visible) s' o := by
  unfold reap at h
  cases visible with
  | false =>
      obtain ⟨rfl, rfl⟩ := by simpa using h
      exact .stop hpc
  | true =>
      cases hcq : s.cq with
      | nil => simp [hcq] at h
      | cons cqe rest =>
          by_cases hud : cqe.userData = 0
          · obtain ⟨rfl, rfl⟩ := by simpa [hcq, hud] using h
            exact .spin hpc hcq hud
          · obtain ⟨rfl, rfl⟩ := by simpa [hcq, hud, deleteBuf] using h
            exact .delete (Or.inl hpc) hcq hud

theorem step_of_drain {s s' : LoggerState φ} {visible : Bool} {o : List (LoggerAction φ)}
    (hpc : s.pc = .draining) (h : drain s visible = some (s', o)) : Step L s (.peek visible) s' o := by
  unfold drain at h
  cases visible with
  | false =>
      obtain ⟨rfl, rfl⟩ := by simpa using h
      exact .wait hpc
  | true =>
      cases hcq : s.cq with
      | nil => simp [hcq] at h
      | cons cqe rest =>
          by_cases hmax : cqe.userData = int16Max
          · obtain ⟨rfl, rfl⟩ := by simpa [hcq, hmax] using h
            exact .finish hpc hcq hmax
          · by_cases hud : cqe.userData = 0
            · obtain ⟨rfl, rfl⟩ := by simpa [hcq, hmax, hud] using h
              exact .synced hpc hcq hud
            · obtain ⟨rfl, rfl⟩ := by simpa [hcq, hmax, hud, deleteBuf] using h
              exact .delete (Or.inr ⟨hpc, hmax⟩) hcq hud

theorem step_of_execute {s s' : LoggerState φ} {k : Nat} {res : Int} {o : List (LoggerAction φ)}
    (h : L.execute s k res = some (s', o)) : Step L s (.execute k res) s' o := by
  unfold execute at h
  cases hk : s.submitted[k]? with
  | none => simp [hk] at h
  | some sqe =>
      obtain ⟨hlt, rfl⟩ := List.getElem?_eq_some_iff.mp hk
      simp only [hk, Option.ite_none_right_eq_some, Option.some.injEq, Prod.mk.injEq] at h
      obtain ⟨hdrain, rfl, rfl⟩ := h
      -- the request splits the queue into those before it and those after it
      have hsplit : s.submitted = s.submitted.take k ++ s.submitted[k] :: s.submitted.drop (k + 1) := by
        rw [List.getElem_cons_drop, List.take_append_drop]
      have hlen : (s.submitted.take k).length = k := by
        rw [List.length_take]
        omega
      have hstep : Step L s (.execute (s.submitted.take k).length res) _ _ :=
        .execute (s.submitted.take k) (s.submitted.drop (k + 1)) s.submitted[k] hsplit
          (by intro hd; simp [hdrain hd])
      rw [hlen] at hstep
      rw [List.eraseIdx_eq_take_drop_succ]
      exact hstep

/-- **A step of the system is one of the listed ones.** -/
theorem step_of_system {s s' : LoggerState φ} {e : LoggerEvent} {o : List (LoggerAction φ)}
    (h : L.system.step s e = some (s', o)) : Step L s e s' o := by
  cases e with
  | commit fName row buf =>
      simp only [system, commit, Option.ite_none_right_eq_some, Option.some.injEq, Prod.mk.injEq] at h
      obtain ⟨⟨hpc, hlt, hcount, -, hbuf⟩, rfl, rfl⟩ := h
      exact .commit _ rfl hpc hlt hcount hbuf
  | peek visible =>
      simp only [system, peek] at h
      cases hpc : s.pc with
      | reaping => exact step_of_reap hpc (by simpa [hpc] using h)
      | draining => exact step_of_drain hpc (by simpa [hpc] using h)
      | _ => simp [hpc] at h
  | flushAll =>
      simp only [system, flushAll, Option.ite_none_right_eq_some, Option.some.injEq, Prod.mk.injEq] at h
      obtain ⟨⟨hpc, -⟩, rfl, rfl⟩ := h
      exact .flushAll hpc
  | dumpMeta fd buf =>
      simp only [system, dumpMeta] at h
      cases hpc : s.pc with
      | flushed logData =>
          simp only [hpc, Option.ite_none_right_eq_some, Option.some.injEq, Prod.mk.injEq] at h
          obtain ⟨⟨-, -, hbuf⟩, rfl, rfl⟩ := h
          exact .dumpMeta hpc hbuf _ rfl
      | _ => simp [hpc] at h
  | dumpSync =>
      simp only [system, dumpSync] at h
      cases hpc : s.pc with
      | written file =>
          obtain ⟨rfl, rfl⟩ := by simpa [hpc] using h
          exact .dumpSync hpc
      | _ => simp [hpc] at h
  | execute k res => exact step_of_execute h

/-! ## The phases of a run -/

/-- Where a run is, and what its queues can hold there. -/
inductive Phase (s : LoggerState φ) : Prop
  | committing (hpc : s.pc = .idle ∨ s.pc = .reaping) (hs : ∀ sqe ∈ s.submitted, sqe.IsWrite)
      (hc : ∀ cqe ∈ s.cq, cqe.userData ≠ 0 ∧ cqe.userData ≠ int16Max)
  | flushing (hpc : (∃ logData, s.pc = .flushed logData) ∨ ∃ file, s.pc = .written file)
      (hs : ∀ sqe ∈ s.submitted, sqe.Plain) (hc : ∀ cqe ∈ s.cq, cqe.userData ≠ int16Max)
  | draining (rest : List (Sqe φ)) (file : Option φ) (hpc : s.pc = .draining)
      (hs : s.submitted = rest ++ [.finish file]) (hr : ∀ sqe ∈ rest, sqe.Plain)
      (hc : ∀ cqe ∈ s.cq, cqe.userData ≠ int16Max)
  | finished (seen : List Cqe) (res : Int) (hpc : s.pc = .draining) (hs : s.submitted = [])
      (hcq : s.cq = seen ++ [⟨int16Max, res⟩]) (hseen : ∀ cqe ∈ seen, cqe.userData ≠ int16Max)
  | released (hpc : s.pc = .released) (hs : s.submitted = []) (hcq : s.cq = [])

theorem phase_init : Phase L.init := by
  apply Phase.committing
  · exact Or.inl rfl
  · simp [init]
  · simp [init]

section Queues

omit [DecidableEq φ]

variable {s : LoggerState φ}

theorem Phase.of_committing (h : Phase s) (hpc : s.pc = .idle ∨ s.pc = .reaping) :
    (∀ sqe ∈ s.submitted, sqe.IsWrite) ∧ ∀ cqe ∈ s.cq, cqe.userData ≠ 0 ∧ cqe.userData ≠ int16Max := by
  cases h with
  | committing _ hs hc => exact ⟨hs, hc⟩
  | flushing hpc' => rcases hpc with hpc | hpc <;> simp [hpc] at hpc'
  | draining _ _ hpc' => simp [hpc'] at hpc
  | finished _ _ hpc' => simp [hpc'] at hpc
  | released hpc' => simp [hpc'] at hpc

theorem Phase.of_flushing (h : Phase s)
    (hpc : (∃ logData, s.pc = .flushed logData) ∨ ∃ file, s.pc = .written file) :
    (∀ sqe ∈ s.submitted, sqe.Plain) ∧ ∀ cqe ∈ s.cq, cqe.userData ≠ int16Max := by
  cases h with
  | committing hpc' => rcases hpc with ⟨d, hpc⟩ | ⟨f, hpc⟩ <;> simp [hpc] at hpc'
  | flushing _ hs hc => exact ⟨hs, hc⟩
  | draining _ _ hpc' => simp [hpc'] at hpc
  | finished _ _ hpc' => simp [hpc'] at hpc
  | released hpc' => simp [hpc'] at hpc

theorem Phase.of_draining (h : Phase s) (hpc : s.pc = .draining) :
    (∃ rest file, s.submitted = rest ++ [.finish file] ∧ (∀ sqe ∈ rest, sqe.Plain) ∧
        ∀ cqe ∈ s.cq, cqe.userData ≠ int16Max) ∨
      ∃ seen res, s.submitted = [] ∧ s.cq = seen ++ [⟨int16Max, res⟩] ∧
        ∀ cqe ∈ seen, cqe.userData ≠ int16Max := by
  cases h with
  | committing hpc' => simp [hpc] at hpc'
  | flushing hpc' => simp [hpc] at hpc'
  | draining rest file _ hs hr hc => exact Or.inl ⟨rest, file, hs, hr, hc⟩
  | finished seen res _ hs hcq hseen => exact Or.inr ⟨seen, res, hs, hcq, hseen⟩
  | released hpc' => simp [hpc] at hpc'

theorem Phase.of_released (h : Phase s) (hpc : s.pc = .released) : s.submitted = [] ∧ s.cq = [] := by
  cases h with
  | committing hpc' => simp [hpc] at hpc'
  | flushing hpc' => simp [hpc] at hpc'
  | draining _ _ hpc' => simp [hpc] at hpc'
  | finished _ _ hpc' => simp [hpc] at hpc'
  | released _ hs hcq => exact ⟨hs, hcq⟩

/-! ### What moves between the queues -/

/-- The completion seen first is the sentinel's only if no other is left. -/
theorem cons_eq_sentinel {cqe : Cqe} {rest seen : List Cqe} {res : Int}
    (h : cqe :: rest = seen ++ [⟨int16Max, res⟩]) :
    (cqe.userData = int16Max ∧ rest = []) ∨
      ∃ seen', seen = cqe :: seen' ∧ rest = seen' ++ [⟨int16Max, res⟩] := by
  cases seen with
  | nil =>
      obtain ⟨rfl, rfl⟩ : cqe = ⟨int16Max, res⟩ ∧ rest = [] := by simpa using h
      exact Or.inl ⟨rfl, rfl⟩
  | cons c seen =>
      obtain ⟨rfl, rfl⟩ : cqe = c ∧ rest = seen ++ [⟨int16Max, res⟩] := by simpa using h
      exact Or.inr ⟨seen, rfl, rfl⟩

/-- A drained request is executed alone, if it was submitted last. -/
theorem middle_eq_finish {before after rest : List (Sqe φ)} {sqe : Sqe φ} {file : Option φ}
    (hsub : before ++ sqe :: after = rest ++ [.finish file]) (hdrain : sqe.drain = true → before = []) :
    (sqe = .finish file ∧ before = [] ∧ after = [] ∧ rest = []) ∨
      ∃ after', after = after' ++ [.finish file] ∧ rest = before ++ sqe :: after' := by
  rcases Run.concat_eq_split.mp hsub.symm with ⟨rfl, rfl, rfl⟩ | ⟨after', rfl, rfl⟩
  · have hnil : before = [] := hdrain rfl
    exact Or.inl ⟨rfl, hnil, rfl, hnil⟩
  · exact Or.inr ⟨after', rfl, rfl⟩

theorem forall_mem_concat {α : Type} {P : α → Prop} {xs : List α} {x : α} (h : ∀ y ∈ xs, P y)
    (hx : P x) : ∀ y ∈ xs ++ [x], P y := by
  intro y hy
  rcases List.mem_append.mp hy with hy | hy
  · exact h y hy
  · rw [List.mem_singleton.mp hy]
    exact hx

/-- A completion seen in the last loop, other than the sentinel's, leaves the run in that loop. -/
theorem Phase.see {s : LoggerState φ} {cqe : Cqe} {rest : List Cqe} (h : Phase s) (hpc : s.pc = .draining)
    (hcq : s.cq = cqe :: rest) (hud : cqe.userData ≠ int16Max) (heap : Nat → Option Str) :
    Phase { s with heap := heap, cq := rest } := by
  rcases h.of_draining hpc with ⟨rest', file, hs, hr, hc⟩ | ⟨seen, res, hs, hcq', hseen⟩
  · refine .draining rest' file hpc hs hr ?_
    intro c hmem
    exact hc c (by rw [hcq]; exact List.mem_cons_of_mem cqe hmem)
  · rcases cons_eq_sentinel (hcq.symm.trans hcq') with ⟨hmax, -⟩ | ⟨seen', rfl, hrest⟩
    · exact absurd hmax hud
    · refine .finished seen' res hpc hs hrest ?_
      intro c hmem
      exact hseen c (List.mem_cons_of_mem cqe hmem)

end Queues

/-- **A step leads from one phase to the same or the next.** -/
theorem phase_step {s s' : LoggerState φ} {e : LoggerEvent} {o : List (LoggerAction φ)} (h : Phase s)
    (hstep : Step L s e s' o) : Phase s' := by
  cases hstep with
  | commit index hidx hpc hlt hcount hbuf =>
      obtain ⟨hs, hc⟩ := h.of_committing (Or.inl hpc)
      exact .committing (Or.inr rfl) (forall_mem_concat hs (hbuf.isWrite_dataWrite _ _)) hc
  | stop hpc =>
      obtain ⟨hs, hc⟩ := h.of_committing (Or.inr hpc)
      exact .committing (Or.inl rfl) hs hc
  | wait hpc => exact h
  | spin hpc hcq hud => exact h
  | @delete cqe rest hpc hcq hud =>
      rcases hpc with hpc | ⟨hpc, hmax⟩
      · obtain ⟨hs, hc⟩ := h.of_committing (Or.inr hpc)
        refine .committing (Or.inr hpc) hs ?_
        intro c hmem
        exact hc c (by rw [hcq]; exact List.mem_cons_of_mem cqe hmem)
      · exact h.see hpc hcq hmax _
  | @synced cqe rest hpc hcq hud =>
      have hne : cqe.userData ≠ int16Max := by
        rw [hud]
        decide
      exact h.see hpc hcq hne s.heap
  | finish hpc hcq hud =>
      rcases h.of_draining hpc with ⟨_, _, _, _, hc⟩ | ⟨seen, res, hs, hcq', hseen⟩
      · exact absurd hud (hc _ (by rw [hcq]; exact List.mem_cons_self))
      · rcases cons_eq_sentinel (hcq.symm.trans hcq') with ⟨-, rfl⟩ | ⟨seen', rfl, -⟩
        · exact .released rfl hs rfl
        · exact absurd hud (hseen _ List.mem_cons_self)
  | flushAll hpc =>
      obtain ⟨hs, hc⟩ := h.of_committing (Or.inl hpc)
      refine .flushing (Or.inl ⟨_, rfl⟩) ?_ (fun cqe hcqe => (hc cqe hcqe).2)
      intro sqe hsqe
      rcases List.mem_append.mp hsqe with hold | hnew
      · exact Or.inl (hs sqe hold)
      · obtain ⟨index, -, rfl⟩ := List.mem_map.mp hnew
        exact Or.inr (Sqe.isSync_dataSync index)
  | dumpMeta hpc hbuf file hfile =>
      obtain ⟨hs, hc⟩ := h.of_flushing (Or.inl ⟨_, hpc⟩)
      have hw : (Sqe.metaWrite file _ _).Plain := Or.inl (hbuf.isWrite_metaWrite file)
      exact .flushing (Or.inr ⟨file, rfl⟩) (forall_mem_concat hs hw) hc
  | dumpSync hpc =>
      obtain ⟨hs, hc⟩ := h.of_flushing (Or.inr ⟨_, hpc⟩)
      exact .draining s.submitted _ rfl rfl hs hc
  | execute before after sqe hsub hdrain =>
      cases h with
      | committing hpc hs hc =>
          have hw : sqe.IsWrite := hs sqe (by simp [hsub])
          refine .committing hpc ?_ (forall_mem_concat hc ⟨hw.2.1, hw.2.2.1⟩)
          intro q hq
          exact hs q (by rw [hsub]; exact List.mem_of_mem_middle hq)
      | flushing hpc hs hc =>
          have hp : sqe.Plain := hs sqe (by simp [hsub])
          refine .flushing hpc ?_ (forall_mem_concat hc hp.userData)
          intro q hq
          exact hs q (by rw [hsub]; exact List.mem_of_mem_middle hq)
      | draining rest file hpc hs hr hc =>
          rcases middle_eq_finish (hsub.symm.trans hs) hdrain with
            ⟨rfl, rfl, rfl, rfl⟩ | ⟨after', rfl, rfl⟩
          · exact .finished s.cq _ hpc rfl rfl hc
          · have hp : sqe.Plain := hr sqe (by simp)
            refine .draining (before ++ after') file hpc (by simp) ?_ (forall_mem_concat hc hp.userData)
            intro q hq
            exact hr q (List.mem_of_mem_middle hq)
      | finished _ _ _ hs => simp [hsub] at hs
      | released _ hs => simp [hsub] at hs

/-- **Every run is in one of the phases.** -/
theorem phase_run {evs : List LoggerEvent} {s : LoggerState φ} {t : List (LoggerAction φ)}
    (h : L.system.run evs = some (s, t)) : Phase s := by
  refine System.run_induction (P := fun _ s _ => Phase s) phase_init ?_ h
  intro evs s t e s' o _ hp hstep
  exact phase_step hp (step_of_system hstep)

end Logger

end StorTrace
