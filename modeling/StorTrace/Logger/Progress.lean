import StorTrace.Lib.Ledger
import StorTrace.Logger.Buffers

/-!
# `Logger.Progress` — the loops of the logger end

`commit` and `__dump_logger_meta` poll for completions in a loop with no bound. A request is open work until it
is executed and until its completion is seen, and in neither loop does new work come due. So the loop of `commit`
can be gone through only so often, and that of `__dump_logger_meta` is left as soon as everything has been
executed and seen, for which nothing but the kernel is waited for.
-/

namespace StorTrace.Logger

variable {φ : Type}

/-! ## Counting -/

/-- Requests an event submits. -/
def requests (L : Logger φ) : LoggerEvent → ℕ
  | .commit _ _ _ => 1
  | .flushAll => L.fileFormat.length
  | .dumpMeta _ _ => 1
  | .dumpSync => 1
  | _ => 0

/-- Requests it executes. -/
def executions : LoggerEvent → ℕ
  | .execute _ _ => 1
  | _ => 0

/-- Completions it finds. -/
def sightings : LoggerEvent → ℕ
  | .peek true => 1
  | _ => 0

/-- What is left to do: to execute a request and to see its completion. -/
def work (s : LoggerState φ) : ℕ := 2 * s.submitted.length + s.cq.length

def effort (e : LoggerEvent) : ℕ := executions e + sightings e

variable [DecidableEq φ] {L : Logger φ} {s s' : LoggerState φ} {e : LoggerEvent} {o : List (LoggerAction φ)}

theorem submitted_balance (h : Step L s e s' o) :
    executions e + s'.submitted.length = s.submitted.length + requests L e := by
  cases h with
  | commit index hidx hpc hlt hcount hbuf => simp [executions, requests]
  | stop hpc => simp [executions, requests]
  | wait hpc => simp [executions, requests]
  | spin hpc hcq hud => simp [executions, requests]
  | delete hpc hcq hud => simp [executions, requests]
  | synced hpc hcq hud => simp [executions, requests]
  | finish hpc hcq hud => simp [executions, requests]
  | flushAll hpc => simp [executions, requests]
  | dumpMeta hpc hbuf file hfile => simp [executions, requests]
  | dumpSync hpc => simp [executions, requests]
  | execute before after sqe hsub hdrain =>
      simp only [hsub, executions, requests, List.length_append, List.length_cons]
      omega

/-- A completion that is found is seen: while the program commits none is untagged. -/
theorem cq_balance (hphase : Phase s) (h : Step L s e s' o) :
    sightings e + s'.cq.length = s.cq.length + executions e := by
  cases h with
  | commit index hidx hpc hlt hcount hbuf => simp [executions, sightings]
  | stop hpc => simp [executions, sightings]
  | wait hpc => simp [executions, sightings]
  | @spin cqe rest hpc hcq hud =>
      have hc := (hphase.of_committing (Or.inr hpc)).2
      exact absurd hud (hc cqe (by rw [hcq]; exact List.mem_cons_self)).1
  | delete hpc hcq hud =>
      simp only [hcq, executions, sightings, List.length_cons]
      omega
  | synced hpc hcq hud =>
      simp only [hcq, executions, sightings, List.length_cons]
      omega
  | finish hpc hcq hud =>
      simp only [hcq, executions, sightings, List.length_cons]
      omega
  | flushAll hpc => simp [executions, sightings]
  | dumpMeta hpc hbuf file hfile => simp [executions, sightings]
  | dumpSync hpc => simp [executions, sightings]
  | execute before after sqe hsub hdrain => simp [executions, sightings]

theorem balanced_submitted (L : Logger φ) :
    L.system.Balanced (fun s => s.submitted.length) executions (requests L) :=
  ⟨fun _ hstep => submitted_balance (step_of_system hstep)⟩

theorem balanced_cq (L : Logger φ) : L.system.Balanced (fun s => s.cq.length) sightings executions :=
  ⟨fun hrun hstep => cq_balance (phase_run hrun) (step_of_system hstep)⟩

theorem balanced_work (L : Logger φ) : L.system.Balanced work effort (fun e => 2 * requests L e) := by
  constructor
  intro evs s s' t o e hrun hstep
  have hsub := submitted_balance (step_of_system hstep)
  have hcq := cq_balance (phase_run hrun) (step_of_system hstep)
  show executions e + sightings e + (2 * s'.submitted.length + s'.cq.length) =
    2 * s.submitted.length + s.cq.length + 2 * requests L e
  omega

variable {evs more : List LoggerEvent} {t t' : List (LoggerAction φ)}

/-- **Every request is executed once and seen once.** At any time the requests made are those executed and those
    the kernel still has, and of the executed ones the completions are seen or waiting; when the logger is released
    nothing is left of either. -/
theorem requests_completed (h : L.system.run evs = some (s, t)) :
    (evs.map executions).sum + s.submitted.length = (evs.map (requests L)).sum ∧
      (evs.map sightings).sum + s.cq.length = (evs.map executions).sum ∧
      (s.pc = .released → (evs.map sightings).sum = (evs.map (requests L)).sum) := by
  have hsub := (balanced_submitted L).run rfl h
  have hcq := (balanced_cq L).run rfl h
  refine ⟨hsub, hcq, fun hpc => ?_⟩
  obtain ⟨hs, hc⟩ := (phase_run h).of_released hpc
  simp only [hs, hc, List.length_nil] at hsub hcq
  omega

theorem requests_completed_oneRecord :
    ∃ s t, oneLog.system.run (oneRecord 15 [.execute 0 2, .execute 0 0]) = some (s, t) ∧
      ((oneRecord 15 [.execute 0 2, .execute 0 0]).map executions).sum + s.submitted.length =
        ((oneRecord 15 [.execute 0 2, .execute 0 0]).map (requests oneLog)).sum ∧
      ((oneRecord 15 [.execute 0 2, .execute 0 0]).map sightings).sum + s.cq.length =
        ((oneRecord 15 [.execute 0 2, .execute 0 0]).map executions).sum ∧
      (s.pc = .released → ((oneRecord 15 [.execute 0 2, .execute 0 0]).map sightings).sum =
        ((oneRecord 15 [.execute 0 2, .execute 0 0]).map (requests oneLog)).sum) := by
  obtain ⟨s, t, hst, -⟩ := oneRecord_released
  exact ⟨s, t, hst, requests_completed hst⟩

/-! ## The loop of `__dump_logger_meta` -/

/-- Past the second `io_uring_submit` of `__dump_logger_meta`. -/
def Draining (s : LoggerState φ) : Prop := s.pc = .draining ∨ s.pc = .released

omit [DecidableEq φ] in
theorem Phase.work_eq_zero_iff (hphase : Phase s) (h : Draining s) : s.pc = .released ↔ work s = 0 := by
  constructor
  · intro hpc
    obtain ⟨hs, hc⟩ := hphase.of_released hpc
    simp [work, hs, hc]
  · intro hzero
    rcases h with hpc | hpc
    · -- the sentinel is in one of the queues
      rcases hphase.of_draining hpc with ⟨rest, file, hs, -, -⟩ | ⟨seen, res, -, hcq, -⟩
      · simp [work, hs] at hzero
      · simp [work, hcq] at hzero
    · exact hpc

theorem draining_step (h : Draining s) (hstep : Step L s e s' o) : Draining s' ∧ requests L e = 0 := by
  unfold Draining at h ⊢
  cases hstep with
  | commit index hidx hpc hlt hcount hbuf => simp [hpc] at h
  | stop hpc => simp [hpc] at h
  | wait hpc => exact ⟨h, rfl⟩
  | spin hpc hcq hud => simp [hpc] at h
  | delete hpc hcq hud => exact ⟨h, rfl⟩
  | synced hpc hcq hud => exact ⟨h, rfl⟩
  | finish hpc hcq hud => exact ⟨Or.inr rfl, rfl⟩
  | flushAll hpc => simp [hpc] at h
  | dumpMeta hpc hbuf file hfile => simp [hpc] at h
  | dumpSync hpc => simp [hpc] at h
  | execute before after sqe hsub hdrain => exact ⟨h, rfl⟩

/-- The oldest request can be executed, and the oldest completion can be seen. -/
theorem exists_effort (hpc : s.pc = .draining) (hwork : work s ≠ 0) :
    ∃ e, effort e = 1 ∧ (L.system.step s e).isSome := by
  cases hs : s.submitted with
  | cons sqe rest =>
      refine ⟨.execute 0 0, rfl, ?_⟩
      simp [system, execute, hs]
  | nil =>
      cases hcq : s.cq with
      | nil => simp [work, hs, hcq] at hwork
      | cons cqe rest =>
          refine ⟨.peek true, rfl, ?_⟩
          simp [system, peek, drain, hpc, hcq]

/-- **The destructor's loop ends.** What is left to do counts down with every execution and every completion seen.
    As long as something is left, one of these is possible; as soon as nothing is, the loop has been left. -/
structure DrainEnds (L : Logger φ) (s : LoggerState φ) (more : List LoggerEvent) (s' : LoggerState φ) : Prop where
  countdown : (more.map effort).sum + work s' = work s
  released_iff : s'.pc = .released ↔ (more.map effort).sum = work s
  enabled : s'.pc ≠ .released → ∃ e, effort e = 1 ∧ (L.system.step s' e).isSome

theorem drain_ends (h : L.system.run evs = some (s, t)) (hpc : s.pc = .draining)
    (hmore : L.system.run (evs ++ more) = some (s', t')) : DrainEnds L s more s' := by
  -- the loop is never left for anything but the end, and nothing is submitted in it
  obtain ⟨hdraining, hnone⟩ := System.piece_induction (P := Draining) (C := fun _ => True)
    (Q := fun e => requests L e = 0) (fun hd _ hstep => draining_step hd (step_of_system hstep)) h (Or.inl hpc) hmore
    (fun _ _ => trivial)
  have hcount := (balanced_work L).countdown h hmore (fun e he => by rw [hnone e he])
  have hzero := (phase_run hmore).work_eq_zero_iff hdraining
  refine ⟨hcount, ?_, fun hne => ?_⟩
  · rw [hzero]
    omega
  · rcases hdraining with hpc' | hpc'
    · exact exists_effort hpc' (fun hw => hne (hzero.mpr hw))
    · exact absurd hpc' hne

theorem drain_ends_oneRecord :
    ∃ s t s' t', oneLog.system.run [.commit "a" [7, 8] 4096, .peek false, .flushAll, .dumpMeta 5 8192, .dumpSync] =
        some (s, t) ∧ s.pc = .draining ∧
      oneLog.system.run ([.commit "a" [7, 8] 4096, .peek false, .flushAll, .dumpMeta 5 8192, .dumpSync] ++
        [.execute 0 2, .peek false, .peek true]) = some (s', t') ∧
      DrainEnds oneLog s [.execute 0 2, .peek false, .peek true] s' := by
  obtain ⟨s, t, hst, hpc⟩ : ∃ s t,
      oneLog.system.run [.commit "a" [7, 8] 4096, .peek false, .flushAll, .dumpMeta 5 8192, .dumpSync] =
        some (s, t) ∧ s.pc = .draining := System.exists_of_map_run (by decide)
  obtain ⟨s', t', hst', -⟩ : ∃ s' t',
      oneLog.system.run ([.commit "a" [7, 8] 4096, .peek false, .flushAll, .dumpMeta 5 8192, .dumpSync] ++
        [.execute 0 2, .peek false, .peek true]) = some (s', t') ∧ s'.pc = .draining :=
    System.exists_of_map_run (by decide)
  exact ⟨s, t, s', t', hst, hpc, hst', drain_ends hst hpc hst'⟩

/-! ## The loop of `commit` -/

/-- Any event but leaving the loop goes on with it, and does some of the work that is left. -/
theorem reaping_step (hphase : Phase s) (hpc : s.pc = .reaping) (hne : e ≠ .peek false) (hstep : Step L s e s' o) :
    s'.pc = .reaping ∧ requests L e = 0 ∧ effort e = 1 := by
  cases hstep with
  | commit index hidx hpc' hlt hcount hbuf => simp [hpc] at hpc'
  | stop hpc' => exact absurd rfl hne
  | wait hpc' => exact absurd rfl hne
  | @spin cqe rest hpc' hcq hud =>
      have hc := (hphase.of_committing (Or.inr hpc)).2
      exact absurd hud (hc cqe (by rw [hcq]; exact List.mem_cons_self)).1
  | delete hpc' hcq hud => exact ⟨hpc, rfl, rfl⟩
  | synced hpc' hcq hud => simp [hpc] at hpc'
  | finish hpc' hcq hud => simp [hpc] at hpc'
  | flushAll hpc' => simp [hpc] at hpc'
  | dumpMeta hpc' hbuf file hfile => simp [hpc] at hpc'
  | dumpSync hpc' => simp [hpc] at hpc'
  | execute before after sqe hsub hdrain => exact ⟨hpc, rfl, rfl⟩

/-- **The loop of `commit` ends.** It never turns on the spot: as long as it is not left, every event in it is the
    execution of a request or the deletion of its buffer, of which there are no more than what was left to do. -/
theorem reap_ends (h : L.system.run evs = some (s, t)) (hpc : s.pc = .reaping)
    (hmore : L.system.run (evs ++ more) = some (s', t')) (hstay : .peek false ∉ more) :
    s'.pc = .reaping ∧ more.length + work s' = work s ∧ (L.system.step s' (.peek false)).isSome := by
  obtain ⟨⟨-, hreaping⟩, hevents⟩ := System.piece_induction (P := fun s => Phase s ∧ s.pc = .reaping)
    (C := fun e => e ≠ .peek false) (Q := fun e => requests L e = 0 ∧ effort e = 1)
    (fun {s e s' o} hs hne hstep =>
      have hgoes := reaping_step hs.1 hs.2 hne (step_of_system hstep)
      ⟨⟨phase_step hs.1 (step_of_system hstep), hgoes.1⟩, hgoes.2⟩)
    h ⟨phase_run h, hpc⟩ hmore (fun e he heq => hstay (heq ▸ he))
  have hcount := (balanced_work L).countdown h hmore (fun e he => by rw [(hevents e he).1])
  have hlength : (more.map effort).sum = more.length := System.sum_of_ones (fun e he => (hevents e he).2)
  refine ⟨hreaping, by omega, ?_⟩
  simp [system, peek, reap, hreaping]

theorem reap_ends_oneRecord :
    ∃ s t s' t', oneLog.system.run [.commit "a" [7, 8] 4096] = some (s, t) ∧ s.pc = .reaping ∧
      oneLog.system.run ([.commit "a" [7, 8] 4096] ++ [.execute 0 2, .peek true]) = some (s', t') ∧
      s'.pc = .reaping ∧ [LoggerEvent.execute 0 2, .peek true].length + work s' = work s ∧
      (oneLog.system.step s' (.peek false)).isSome := by
  obtain ⟨s, t, hst, hpc⟩ : ∃ s t, oneLog.system.run [.commit "a" [7, 8] 4096] = some (s, t) ∧ s.pc = .reaping :=
    System.exists_of_map_run (by decide)
  obtain ⟨s', t', hst', -⟩ : ∃ s' t',
      oneLog.system.run ([.commit "a" [7, 8] 4096] ++ [.execute 0 2, .peek true]) = some (s', t') ∧
        s'.pc = .reaping := System.exists_of_map_run (by decide)
  exact ⟨s, t, s', t', hst, hpc, hst', reap_ends hst hpc hst' (by decide)⟩

end StorTrace.Logger
