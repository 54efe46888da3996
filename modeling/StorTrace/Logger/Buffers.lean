import StorTrace.Logger.Steps

/-!
# `Logger.Buffers` — every write buffer is released once, after its write

The life of a buffer is read off the trace of a run: it is allocated, the write from it is executed, it is freed,
and then the address may be allocated again. `lifecycle` follows it and fails at the first action out of
order: a second free, a free before the write, a write from memory that is not allocated.

`Owned` ties the state to that life: at every moment an allocated buffer has one request or one completion that
stands for it, and a free one has none.
-/

namespace StorTrace

/-- The buffer a request writes from. -/
def Op.buf : Op → Option Nat
  | .write buf _ _ => some buf
  | .fsync => none

inductive Life where
  | free
  | submitted
  | completed
deriving DecidableEq

/-- What an action does to the life of a buffer; actions on other buffers do nothing. -/
def Life.next {φ : Type} (buf : Nat) (l : Life) : LoggerAction φ → Option Life
  | .allocated b => if b = buf then (if l = .free then some .submitted else none) else some l
  | .executed sqe _ =>
      if sqe.op.buf = some buf then (if l = .submitted then some .completed else none) else some l
  | .freed b => if b = buf then (if l = .completed then some .free else none) else some l

namespace Logger

/-- Where a buffer is in its life after the trace `t`; `none` if something happened to it out of order. -/
def lifecycle {φ : Type} (buf : Nat) (t : List (LoggerAction φ)) : Option Life :=
  t.foldlM (Life.next buf) .free

variable {φ : Type}

theorem lifecycle_concat (buf : Nat) (t : List (LoggerAction φ)) (a : LoggerAction φ) :
    lifecycle buf (t ++ [a]) = (lifecycle buf t).bind (fun l => l.next buf a) := by
  rw [lifecycle, List.foldlM_append, ← lifecycle]
  cases lifecycle buf t <;> simp

/-- The requests that write from a buffer. -/
def inFlight (submitted : List (Sqe φ)) (buf : Nat) : Nat :=
  submitted.countP (fun sqe => sqe.op.buf = some buf)

/-- The completions tagged with a buffer. -/
def inCq (cq : List Cqe) (buf : Nat) : Nat := cq.countP (fun cqe => cqe.userData = buf)

theorem inFlight_concat (submitted : List (Sqe φ)) (sqe : Sqe φ) (buf : Nat) :
    inFlight (submitted ++ [sqe]) buf =
      inFlight submitted buf + if sqe.op.buf = some buf then 1 else 0 := by
  simp [inFlight, List.countP_append, List.countP_singleton]

theorem inFlight_middle (before after : List (Sqe φ)) (sqe : Sqe φ) (buf : Nat) :
    inFlight (before ++ sqe :: after) buf =
      inFlight (before ++ after) buf + if sqe.op.buf = some buf then 1 else 0 := by
  simp only [inFlight, List.countP_append, List.countP_cons, decide_eq_true_eq]
  omega

theorem inFlight_syncs (submitted : List (Sqe φ)) (n buf : Nat) :
    inFlight (submitted ++ (List.range n).map Sqe.dataSync) buf = inFlight submitted buf := by
  have hzero : ((List.range n).map (Sqe.dataSync : Nat → Sqe φ)).countP
      (fun sqe => sqe.op.buf = some buf) = 0 := by
    rw [List.countP_eq_zero]
    intro sqe hsqe
    obtain ⟨index, -, rfl⟩ := List.mem_map.mp hsqe
    simp [Sqe.dataSync, Op.buf]
  rw [inFlight, List.countP_append, hzero, Nat.add_zero, inFlight]

theorem inCq_concat (cq : List Cqe) (cqe : Cqe) (buf : Nat) :
    inCq (cq ++ [cqe]) buf = inCq cq buf + if cqe.userData = buf then 1 else 0 := by
  simp [inCq, List.countP_append, List.countP_singleton]

theorem inCq_cons (cqe : Cqe) (cq : List Cqe) (buf : Nat) :
    inCq (cqe :: cq) buf = inCq cq buf + if cqe.userData = buf then 1 else 0 := by
  simp [inCq, List.countP_cons]

/-- **What stands for a buffer**: nothing while it is free, one request until its write is executed, one
    completion until it is freed. -/
inductive Owned (s : LoggerState φ) (t : List (LoggerAction φ)) (buf : Nat) : Prop
  | free (hl : lifecycle buf t = some .free) (hheap : s.heap buf = none)
      (hs : inFlight s.submitted buf = 0) (hc : inCq s.cq buf = 0)
  | submitted (hl : lifecycle buf t = some .submitted) (hheap : s.heap buf ≠ none)
      (hs : inFlight s.submitted buf = 1) (hc : inCq s.cq buf = 0)
  | completed (hl : lifecycle buf t = some .completed) (hheap : s.heap buf ≠ none)
      (hs : inFlight s.submitted buf = 0) (hc : inCq s.cq buf = 1)

theorem Owned.lifecycle_ne_none {s : LoggerState φ} {t : List (LoggerAction φ)} {buf : Nat}
    (h : Owned s t buf) : lifecycle buf t ≠ none := by
  cases h with
  | free hl => simp [hl]
  | submitted hl => simp [hl]
  | completed hl => simp [hl]

/-- An action that is not on a buffer leaves its life as it was. -/
theorem lifecycle_of_next {buf : Nat} {a : LoggerAction φ} (h : ∀ l, Life.next buf l a = some l)
    (t : List (LoggerAction φ)) : lifecycle buf (t ++ [a]) = lifecycle buf t := by
  rw [lifecycle_concat]
  cases lifecycle buf t with
  | none => rfl
  | some l => exact h l

section Step

variable {s : LoggerState φ} {t : List (LoggerAction φ)} {buf : Nat}

/-- A buffer that a step does not concern keeps what stands for it. -/
theorem Owned.frame (h : Owned s t buf) {s' : LoggerState φ} {t' : List (LoggerAction φ)}
    (hl : lifecycle buf t' = lifecycle buf t) (hheap : s'.heap buf = s.heap buf)
    (hs : inFlight s'.submitted buf = inFlight s.submitted buf) (hc : inCq s'.cq buf = inCq s.cq buf) :
    Owned s' t' buf := by
  cases h with
  | free hl' hh hs' hc' => exact .free (hl.trans hl') (hheap.trans hh) (hs.trans hs') (hc.trans hc')
  | submitted hl' hh hs' hc' =>
      exact .submitted (hl.trans hl') (by rw [hheap]; exact hh) (hs.trans hs') (hc.trans hc')
  | completed hl' hh hs' hc' =>
      exact .completed (hl.trans hl') (by rw [hheap]; exact hh) (hs.trans hs') (hc.trans hc')

/-- Allocating a buffer and submitting the write from it. -/
theorem Owned.allocate (h : Owned s t buf) {s' : LoggerState φ} {b : Nat} {data : Str} {sqe : Sqe φ}
    (hfree : s.heap b = none) (hop : sqe.op.buf = some b)
    (hheap : s'.heap = Function.update s.heap b (some data)) (hs : s'.submitted = s.submitted ++ [sqe])
    (hc : s'.cq = s.cq) : Owned s' (t ++ [.allocated b]) buf := by
  by_cases hb : b = buf
  · subst hb
    cases h with
    | free hl _ hs' hc' =>
        refine .submitted ?_ ?_ ?_ ?_
        · simp [lifecycle_concat, hl, Life.next]
        · simp [hheap]
        · rw [hs, inFlight_concat, hs', if_pos hop]
        · rw [hc, hc']
    | submitted _ hh => exact absurd hfree hh
    | completed _ hh => exact absurd hfree hh
  · have hne : ¬ sqe.op.buf = some buf := by
      rw [hop]
      simpa using hb
    refine h.frame (lifecycle_of_next (by intro l; simp [Life.next, hb]) t) ?_ ?_ (by rw [hc])
    · rw [hheap, Function.update_of_ne (Ne.symm hb)]
    · rw [hs, inFlight_concat, if_neg hne, Nat.add_zero]

/-- Executing a request, whose completion carries the tag of its buffer. -/
theorem Owned.execute (h : Owned s t buf) {s' : LoggerState φ} {before after : List (Sqe φ)} {sqe : Sqe φ}
    {res : Int} (hsub : s.submitted = before ++ sqe :: after)
    (htag : sqe.op.buf = some buf ↔ sqe.userData = buf) (hheap : s'.heap = s.heap)
    (hs : s'.submitted = before ++ after) (hc : s'.cq = s.cq ++ [⟨sqe.userData, res⟩]) :
    Owned s' (t ++ [.executed sqe res]) buf := by
  have hcount := inFlight_middle before after sqe buf
  rw [← hsub, ← hs] at hcount
  by_cases hop : sqe.op.buf = some buf
  · have hud : sqe.userData = buf := htag.mp hop
    rw [if_pos hop] at hcount
    cases h with
    | free _ _ hs' => omega
    | submitted hl hh hs' hc' =>
        refine .completed ?_ (by rw [hheap]; exact hh) (by omega) ?_
        · simp [lifecycle_concat, hl, Life.next, hop]
        · rw [hc, inCq_concat, hc', if_pos hud]
    | completed _ _ hs' => omega
  · have hud : ¬ sqe.userData = buf := fun hud => hop (htag.mpr hud)
    rw [if_neg hop] at hcount
    refine h.frame (lifecycle_of_next (by intro l; simp [Life.next, hop]) t) (by rw [hheap]) (by omega) ?_
    rw [hc, inCq_concat, if_neg hud, Nat.add_zero]

/-- Freeing the buffer of the completion at the head of the queue. -/
theorem Owned.delete (h : Owned s t buf) {s' : LoggerState φ} {cqe : Cqe} (hcq : s.cq = cqe :: s'.cq)
    (hheap : s'.heap = Function.update s.heap cqe.userData none) (hs : s'.submitted = s.submitted) :
    Owned s' (t ++ [.freed cqe.userData]) buf := by
  have hcount := inCq_cons cqe s'.cq buf
  rw [← hcq] at hcount
  by_cases hud : cqe.userData = buf
  · rw [if_pos hud] at hcount
    cases h with
    | free _ _ _ hc' => omega
    | submitted _ _ _ hc' => omega
    | completed hl hh hs' hc' =>
        refine .free ?_ ?_ (by rw [hs]; exact hs') (by omega)
        · simp [lifecycle_concat, hl, Life.next, hud]
        · rw [hheap, hud, Function.update_self]
  · rw [if_neg hud] at hcount
    refine h.frame (lifecycle_of_next (by intro l; simp [Life.next, hud]) t) ?_ (by rw [hs]) (by omega)
    rw [hheap, Function.update_of_ne (Ne.symm hud)]

end Step

/-! ## Every step keeps the ownership -/

/-- A buffer's requests are those tagged with it. -/
theorem Phase.tagged {s : LoggerState φ} (h : Phase s) {sqe : Sqe φ} (hsqe : sqe ∈ s.submitted) {buf : Nat}
    (h0 : buf ≠ 0) (hmax : buf ≠ int16Max) : sqe.op.buf = some buf ↔ sqe.userData = buf := by
  have hplain : sqe.Plain → (sqe.op.buf = some buf ↔ sqe.userData = buf) := by
    rintro (⟨-, -, -, length, off, hop⟩ | ⟨-, hud, hop⟩)
    · simp [hop, Op.buf]
    · simp [hop, hud, Op.buf, Ne.symm h0]
  cases h with
  | committing _ hs => exact hplain (Or.inl (hs sqe hsqe))
  | flushing _ hs => exact hplain (hs sqe hsqe)
  | draining rest file _ hs hr =>
      rw [hs] at hsqe
      rcases List.mem_append.mp hsqe with hold | hlast
      · exact hplain (hr sqe hold)
      · rw [List.mem_singleton.mp hlast]
        simp [Sqe.finish, Op.buf, Ne.symm hmax]
  | finished _ _ _ hs => simp [hs] at hsqe
  | released _ hs => simp [hs] at hsqe

/-- A request with a buffer is tagged with an address. -/
theorem Phase.buf_ne {s : LoggerState φ} (h : Phase s) {sqe : Sqe φ} (hsqe : sqe ∈ s.submitted) {buf : Nat}
    (hop : sqe.op.buf = some buf) : buf ≠ 0 ∧ buf ≠ int16Max := by
  have hplain : sqe.Plain → buf ≠ 0 ∧ buf ≠ int16Max := by
    rintro (⟨-, h0, hmax, length, off, hw⟩ | ⟨-, -, hw⟩)
    · obtain rfl : sqe.userData = buf := by simpa [hw, Op.buf] using hop
      exact ⟨h0, hmax⟩
    · simp [hw, Op.buf] at hop
  cases h with
  | committing _ hs => exact hplain (Or.inl (hs sqe hsqe))
  | flushing _ hs => exact hplain (hs sqe hsqe)
  | draining rest file _ hs hr =>
      rw [hs] at hsqe
      rcases List.mem_append.mp hsqe with hold | hlast
      · exact hplain (hr sqe hold)
      · rw [List.mem_singleton.mp hlast] at hop
        simp [Sqe.finish, Op.buf] at hop
  | finished _ _ _ hs => simp [hs] at hsqe
  | released _ hs => simp [hs] at hsqe

/-- What a step frees is a buffer. -/
theorem Phase.freed_ne {s : LoggerState φ} (h : Phase s) {cqe : Cqe} {rest : List Cqe}
    (hpc : s.pc = .reaping ∨ (s.pc = .draining ∧ cqe.userData ≠ int16Max)) (hcq : s.cq = cqe :: rest)
    (hud : cqe.userData ≠ 0) : cqe.userData ≠ 0 ∧ cqe.userData ≠ int16Max := by
  rcases hpc with hpc | hpc
  · exact (h.of_committing (Or.inr hpc)).2 cqe (by simp [hcq])
  · exact ⟨hud, hpc.2⟩

variable [DecidableEq φ] {L : Logger φ}

/-- **A step keeps what stands for a buffer.** -/
theorem owned_step {s s' : LoggerState φ} {t o : List (LoggerAction φ)} {e : LoggerEvent} {buf : Nat}
    (h0 : buf ≠ 0) (hmax : buf ≠ int16Max) (hp : Phase s) (h : Owned s t buf) (hstep : Step L s e s' o) :
    Owned s' (t ++ o) buf := by
  cases hstep with
  | commit index hidx hpc hlt hcount hbuf => exact h.allocate hbuf.1 rfl rfl rfl rfl
  | stop hpc => exact h.frame (by rw [List.append_nil]) rfl rfl rfl
  | wait hpc => exact h.frame (by rw [List.append_nil]) rfl rfl rfl
  | spin hpc hcq hud => exact h.frame (by rw [List.append_nil]) rfl rfl rfl
  | delete hpc hcq hud => exact h.delete hcq rfl rfl
  | @synced cqe rest hpc hcq hud =>
      refine h.frame (by rw [List.append_nil]) rfl rfl ?_
      rw [hcq, inCq_cons, hud, if_neg (Ne.symm h0), Nat.add_zero]
  | @finish cqe rest hpc hcq hud =>
      refine h.frame (by rw [List.append_nil]) rfl rfl ?_
      rw [hcq, inCq_cons, hud, if_neg (Ne.symm hmax), Nat.add_zero]
  | flushAll hpc => exact h.frame (by rw [List.append_nil]) rfl (inFlight_syncs _ _ _) rfl
  | dumpMeta hpc hbuf file hfile => exact h.allocate hbuf.1 rfl rfl rfl rfl
  | @dumpSync file hpc =>
      refine h.frame (by rw [List.append_nil]) rfl ?_ rfl
      rw [inFlight_concat, if_neg (by simp [Sqe.finish, Op.buf]), Nat.add_zero]
  | execute before after sqe hsub hdrain =>
      exact h.execute hsub (hp.tagged (by simp [hsub]) h0 hmax) rfl rfl rfl

/-- No action is on the address `0` or `INT16_MAX`. -/
theorem reserved_step {s s' : LoggerState φ} {o : List (LoggerAction φ)} {e : LoggerEvent} {buf : Nat}
    (hbuf : buf = 0 ∨ buf = int16Max) (hp : Phase s) (hstep : Step L s e s' o)
    (t : List (LoggerAction φ)) : lifecycle buf (t ++ o) = lifecycle buf t := by
  have hne : ∀ {b : Nat}, b ≠ 0 ∧ b ≠ int16Max → b ≠ buf := by
    rintro b ⟨h0, hmax⟩ rfl
    exact hbuf.elim h0 hmax
  cases hstep with
  | commit index hidx hpc hlt hcount hfresh =>
      exact lifecycle_of_next (by intro l; simp [Life.next, hne hfresh.ne]) t
  | stop hpc => rw [List.append_nil]
  | wait hpc => rw [List.append_nil]
  | spin hpc hcq hud => rw [List.append_nil]
  | delete hpc hcq hud =>
      exact lifecycle_of_next (by intro l; simp [Life.next, hne (hp.freed_ne hpc hcq hud)]) t
  | synced hpc hcq hud => rw [List.append_nil]
  | finish hpc hcq hud => rw [List.append_nil]
  | flushAll hpc => rw [List.append_nil]
  | dumpMeta hpc hfresh file hfile =>
      exact lifecycle_of_next (by intro l; simp [Life.next, hne hfresh.ne]) t
  | dumpSync hpc => rw [List.append_nil]
  | execute before after sqe hsub hdrain =>
      refine lifecycle_of_next ?_ t
      intro l
      have hop : sqe.op.buf ≠ some buf := fun hop => hne (hp.buf_ne (by simp [hsub]) hop) rfl
      simp [Life.next, hop]

/-- After every run, each address is owned as its life says, and the reserved ones are not touched. -/
theorem owned_run {evs : List LoggerEvent} {s : LoggerState φ} {t : List (LoggerAction φ)}
    (h : L.system.run evs = some (s, t)) (buf : Nat) :
    if buf = 0 ∨ buf = int16Max then lifecycle buf t = some .free else Owned s t buf := by
  have hboth : Phase s ∧
      if buf = 0 ∨ buf = int16Max then lifecycle buf t = some .free else Owned s t buf := by
    refine System.run_induction (P := fun _ s t => Phase s ∧
      if buf = 0 ∨ buf = int16Max then lifecycle buf t = some .free else Owned s t buf) ?_ ?_ h
    · refine ⟨phase_init, ?_⟩
      split
      · rfl
      · exact .free rfl rfl rfl rfl
    · rintro evs s t e s' o - ⟨hp, ho⟩ hstep
      have hst : Step L s e s' o := step_of_system hstep
      refine ⟨phase_step hp hst, ?_⟩
      split
      · rename_i hbuf
        rw [if_pos hbuf] at ho
        rw [reserved_step hbuf hp hst, ho]
      · rename_i hbuf
        rw [if_neg hbuf] at ho
        exact owned_step (fun h0 => hbuf (Or.inl h0)) (fun hmax => hbuf (Or.inr hmax)) hp ho hst
  exact hboth.2

/-- **Every buffer is released exactly once, after its write.** The loop of `commit` never meets a completion
    with tag `0`; nothing ever happens to a buffer out of order; and when the loop of `__dump_logger_meta`
    exits, every buffer that was allocated has been written from and freed, and both queues are empty. -/
theorem buffers_released {evs : List LoggerEvent} {s : LoggerState φ} {t : List (LoggerAction φ)}
    (h : L.system.run evs = some (s, t)) :
    (s.pc = .reaping → ∀ cqe ∈ s.cq, cqe.userData ≠ 0) ∧ (∀ buf, lifecycle buf t ≠ none) ∧
      (s.pc = .released → (∀ buf, lifecycle buf t = some .free) ∧ s.submitted = [] ∧ s.cq = []) := by
  have hp : Phase s := phase_run h
  refine ⟨?_, ?_, ?_⟩
  · intro hpc cqe hcqe
    exact ((hp.of_committing (Or.inr hpc)).2 cqe hcqe).1
  · intro buf
    have ho := owned_run h buf
    split at ho
    · simp [ho]
    · exact ho.lifecycle_ne_none
  · intro hpc
    obtain ⟨hs, hc⟩ := hp.of_released hpc
    refine ⟨?_, hs, hc⟩
    intro buf
    have ho := owned_run h buf
    split at ho
    · exact ho
    · cases ho with
      | free hl => exact hl
      -- a buffer in use would have left something in one of the queues
      | submitted _ _ hs' => simp [hs, inFlight] at hs'
      | completed _ _ _ hc' => simp [hc, inCq] at hc'

/-- A logger with one log of two columns, on a file system where every path is a file of its own. -/
def oneLog : Logger Str where
  path := strBytes "t"
  fileFormat := [.make "a" [1, 1] ["x", "y"]]
  fileAt := id
  disk := fun _ => .empty
  sqEntries := 8

/-- One record is committed, and the logger released; its requests are executed in the order `order`. -/
def oneRecord (res : Int) (order : List LoggerEvent) : List LoggerEvent :=
  [.commit "a" [7, 8] 4096, .peek false, .flushAll, .dumpMeta 5 8192, .dumpSync] ++ order ++
    [.execute 0 res, .execute 0 0, .peek true, .peek true, .peek true, .peek true]

/-- In the order of submission, every request served. -/
theorem oneRecord_released :
    ∃ s t, oneLog.system.run (oneRecord 15 [.execute 0 2, .execute 0 0]) = some (s, t) ∧
      s.pc = .released := System.exists_of_map_run (by decide)

theorem buffers_released_oneRecord :
    ∃ s t, oneLog.system.run (oneRecord 15 [.execute 0 2, .execute 0 0]) = some (s, t) ∧
      s.pc = .released ∧ (∀ buf, lifecycle buf t = some .free) ∧ s.submitted = [] ∧ s.cq = [] := by
  obtain ⟨s, t, hst, hpc⟩ := oneRecord_released
  exact ⟨s, t, hst, hpc, (buffers_released hst).2.2 hpc⟩

end Logger

end StorTrace
