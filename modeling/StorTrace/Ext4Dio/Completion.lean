import StorTrace.Ext4Dio.Program

/-!
# `Ext4Dio.Completion` — is every traced direct I/O reported once and cleaned up?

A direct I/O is **tracked** at its completion when the latest start call on its kiocb was accepted and an
accepted block actor has run for it since. The completion probe applies the task filters again, although
it may run in a worker, and the info tracer clears `dio_filter` only when the reservation succeeds.

`cleanedUp_iff` says exactly which completions of tracked direct I/Os are reported once (or, without a
reservation, not at all) and leave neither map with an entry.
-/

namespace StorTrace.Ext4Dio

namespace DioProgram

variable {σ ε ο : Type} {cfg : DioConfig} {M : Machine σ ε ο} (P : DioProgram cfg M)

/-! ## Tracked completions -/

/-- The iter call on kiocb `k` an event is, accepted or not. -/
def iterOn (k : Ptr) (e : ε) : Option IterCall := (P.iter? e).filter (fun c => c.iocb = k)

/-- `true` for an accepted block actor of the dio, `false` for a completion of it. -/
def dioEvent (c : Completion) (e : ε) : Option Bool :=
  match P.probe e with
  | some (.iomapDioBioActor t dio iocb _) =>
      if dio = c.dio ∧ iocb = c.iocb ∧ passes cfg.filter t = true then some true else none
  | some (.iomapDioComplete _ dio _ _ _ _) => if dio = c.dio then some false else none
  | _ => none

/-- An accepted completion probe that names kiocb `k`. -/
def dropsEntry (k : Ptr) (e : ε) : Bool :=
  match P.completion? e with
  | some c => c.iocb = k && passes cfg.filter c.task
  | none => false

/-- The dio has been acted on and not completed since the latest start call on its kiocb, which was
    accepted. -/
def Tracked (pre : List ε) (c : Completion) : Prop :=
  ∃ w ∈ Run.lastWith (P.iterOn c.iocb) pre, w.2.Accepted cfg ∧
    ∃ d ∈ Run.lastWith (P.dioEvent c) (Run.since pre w), d.2 = true

/-- The latest start call on `k` left an entry, and no accepted completion has named `k` since. -/
def Kept (pre : List ε) (k : Ptr) : Prop :=
  ∃ w ∈ Run.lastWith (P.iterOn k) pre,
    ((P.state (M.exec w.1)).eventCache.lookupElem k ≠ none ∨ (P.state (M.exec w.1)).eventCache.HasRoom) ∧
      ∀ x ∈ Run.since pre w, P.dropsEntry k x = false

instance (pre : List ε) (c : Completion) : Decidable (P.Tracked pre c) :=
  inferInstanceAs (Decidable (∃ w ∈ Run.lastWith (P.iterOn c.iocb) pre, _ ∧
    ∃ d ∈ Run.lastWith (P.dioEvent c) (Run.since pre w), _ = true))

instance (pre : List ε) (k : Ptr) : Decidable (P.Kept pre k) :=
  inferInstanceAs (Decidable (∃ w ∈ Run.lastWith (P.iterOn k) pre, (_ ∨ _) ∧ ∀ x ∈ Run.since pre w, _))

variable {P}

/-- An event that is no start call on `k` keeps its entry, unless it completes it. -/
theorem eventView_act_of_not_iter {s : σ} {e : ε} {k : Ptr} (h : P.iterOn k e = none) :
    (P.dropsEntry k e = true → P.eventView.act s e k = .drop) ∧
      (P.dropsEntry k e = false → (P.eventView.act s e k).Keeps) := by
  unfold iterOn iter? at h
  unfold dropsEntry completion?
  have hiter {c : IterCall} (hc : c.iocb ≠ k) : iterAct cfg (P.state s) c k = .keep := by
    rw [iterAct, CacheAction.onKey_of_ne (Ne.symm hc)]
    split <;> rfl
  cases hp : P.probe e with
  | none => rw [eventView_act_none hp]; simp [CacheAction.Keeps]
  | some p =>
      rw [hp] at h
      rw [eventView_act_some hp]
      cases p with
      | newSyncWrite t inodeId now => simp [DioProbe.completion?, eventAct]
      | newSyncRead t inodeId now => simp [DioProbe.completion?, eventAct]
      | ext4DioWriteIter t iocb inodeId smallName now =>
          have hne : iocb ≠ k := by simpa [DioProbe.iter?, Option.filter] using h
          simp [DioProbe.completion?, eventAct, hiter (c := ⟨.write, t, iocb, inodeId, smallName, now⟩) hne]
      | ext4DioReadIter t iocb inodeId smallName now =>
          have hne : iocb ≠ k := by simpa [DioProbe.iter?, Option.filter] using h
          simp [DioProbe.completion?, eventAct, hiter (c := ⟨.read, t, iocb, inodeId, smallName, now⟩) hne]
      | iomapDioBioActor t dio iocb now =>
          simp only [DioProbe.completion?, eventAct, Option.bind_some]
          constructor
          · intro hdrop
            exact absurd hdrop (by simp)
          intro _
          unfold CacheAction.onKey
          split
          · split <;> trivial
          · trivial
      | iomapDioComplete t dio iocb size now reserve =>
          simp only [DioProbe.completion?, eventAct, Option.bind_some, Bool.and_eq_true,
            decide_eq_true_eq, Bool.and_eq_false_iff, decide_eq_false_iff_not]
          constructor
          · rintro ⟨rfl, hpass⟩
            rw [if_pos hpass, CacheAction.onKey_self]
          · rintro (hne | hpass)
            · rw [CacheAction.onKey_of_ne (Ne.symm hne)]
              split <;> trivial
            · rw [if_neg (by simp [hpass])]
              trivial

/-- An accepted start call leaves an entry if it finds one or finds room. -/
theorem entry_after_iter {pre : List ε} {e : ε} {c : IterCall} (hc : P.iter? e = some c)
    (hacc : c.Accepted cfg) :
    P.eventView.get (M.exec (pre ++ [e])) c.iocb ≠ none ↔
      (P.state (M.exec pre)).eventCache.lookupElem c.iocb ≠ none ∨
        (P.state (M.exec pre)).eventCache.HasRoom := by
  obtain ⟨p, hp, hpi⟩ : ∃ p, P.probe e = some p ∧ p.iter? = some c := by
    unfold iter? at hc
    exact Option.bind_eq_some_iff.mp hc
  have hact : P.eventView.act (M.exec pre) e c.iocb = iterAct cfg (P.state (M.exec pre)) c c.iocb := by
    rw [eventView_act_some hp]
    cases p with
    | ext4DioWriteIter t iocb inodeId smallName now => rw [← Option.some.inj hpi]; rfl
    | ext4DioReadIter t iocb inodeId smallName now => rw [← Option.some.inj hpi]; rfl
    | _ => exact absurd hpi (by simp [DioProbe.iter?])
  rw [CacheView.get_exec_concat, hact, iterAct, if_pos hacc, CacheAction.onKey_self]
  show (CacheAction.apply _ ((P.state (M.exec pre)).eventCache.lookupElem c.iocb)) ≠ none ↔ _
  split
  · next hn => simp [hn]
  · -- nothing is stored: there is an entry already, or no room for one
    next hn =>
    rw [CacheAction.apply_keep]
    tauto

/-- **The entry of a kiocb whose latest start call was accepted** is there exactly if it was kept. -/
theorem entry_iff_kept {pre : List ε} {k : Ptr} {w : List ε × IterCall}
    (hw : Run.lastWith (P.iterOn k) pre = some w) (hacc : w.2.Accepted cfg) :
    (P.state (M.exec pre)).eventCache.lookupElem k ≠ none ↔ P.Kept pre k := by
  obtain ⟨ini, c⟩ := w
  obtain ⟨t, mid, rfl, ht, hmid⟩ := Run.split_of_lastWith hw
  obtain ⟨hti, rfl⟩ : P.iter? t = some c ∧ c.iocb = k := by
    simpa [iterOn, Option.filter_eq_some_iff] using ht
  have hkept : P.Kept (ini ++ t :: mid) c.iocb ↔
      ((P.state (M.exec ini)).eventCache.lookupElem c.iocb ≠ none ∨
        (P.state (M.exec ini)).eventCache.HasRoom) ∧ ∀ x ∈ mid, P.dropsEntry c.iocb x = false := by
    unfold Kept
    rw [hw]
    simp only [Option.mem_some_iff, exists_eq_left', Run.since_split]
  rw [hkept]
  clear hw hkept
  -- the entry is followed from the start call through the events since
  show P.eventView.get (M.exec (ini ++ t :: mid)) c.iocb ≠ none ↔ _
  induction mid using List.reverseRecOn with
  | nil =>
      rw [entry_after_iter hti hacc]
      simp
  | append_singleton mid x ih =>
      have hx := eventView_act_of_not_iter (s := M.exec (ini ++ t :: mid)) (hmid x (by simp))
      have hassoc : ini ++ t :: (mid ++ [x]) = (ini ++ t :: mid) ++ [x] := by simp
      rw [hassoc, CacheView.get_exec_concat]
      have ih := ih (fun y hy => hmid y (by simp [hy]))
      cases hd : P.dropsEntry c.iocb x with
      | true =>
          rw [hx.1 hd]
          simp [hd]
      | false =>
          rw [Ne, (hx.2 hd).apply_eq_none, ← Ne, ih]
          simp [hd, or_imp, forall_and]

/-! ## What a completion emits and leaves -/

/-- A completion emits one record if the filters accept its task, the kiocb has an entry and the
    reservation succeeds; the entry is gone if the filters accept its task. -/
theorem complete_step (pre : List ε) {e : ε} {c : Completion} (hc : P.completion? e = some c) :
    ((M.out pre e).filterMap P.record).length
        = (if passes cfg.filter c.task = true ∧
            (P.state (M.exec pre)).eventCache.lookupElem c.iocb ≠ none ∧ c.reserve = true
          then 1 else 0) ∧
      ((P.state (M.exec (pre ++ [e]))).eventCache.lookupElem c.iocb = none ↔
        (P.state (M.exec pre)).eventCache.lookupElem c.iocb = none ∨ passes cfg.filter c.task = true) := by
  obtain ⟨p, hp, hpc⟩ : ∃ p, P.probe e = some p ∧ p.completion? = some c := by
    unfold completion? at hc
    exact Option.bind_eq_some_iff.mp hc
  cases p with
  | iomapDioComplete t dio iocb size now reserve =>
      obtain rfl := Option.some.inj hpc
      constructor
      · rw [Machine.out, P.record_step, hp]
        show (kpIomapDioComplete cfg (P.state (M.exec pre)) t iocb size now reserve).2.length = _
        unfold kpIomapDioComplete
        by_cases hpass : passes cfg.filter t = true
        · cases (P.state (M.exec pre)).eventCache.lookupElem iocb with
          | none => simp [hpass]
          | some v => cases reserve <;> simp [hpass]
        · simp [hpass]
      · rw [Machine.exec_concat, P.state_step, hp]
        show (dioStep cfg (P.state (M.exec pre))
          (.iomapDioComplete t dio iocb size now reserve)).1.eventCache.lookupElem iocb = none ↔ _
        rw [dioStep_eventCache]
        by_cases hpass : passes cfg.filter t = true
        · simp [eventAct, hpass]
        · simp [eventAct, hpass]
  | _ => exact absurd hpc (by simp [DioProbe.completion?])

end DioProgram

/-! ## The registration of dios -/

/-- The map a program registers its dios in, cleared by a completion that reserves its record. -/
structure DioRegistry {σ ε ο : Type} {cfg : DioConfig} {M : Machine σ ε ο} (P : DioProgram cfg M) where
  uid : σ → Ptr → Option UInt64
  uid_completion : ∀ s e c, P.completion? e = some c →
    (uid (M.step s e).1 c.dio = none ↔
      uid s c.dio = none ∨ (passes cfg.filter c.task = true ∧
        (P.state s).eventCache.lookupElem c.iocb ≠ none ∧ c.reserve = true))

/-- The simple tracer registers nothing. -/
def noRegistry (cfg : DioConfig) : DioRegistry (simpleProgram cfg) where
  uid _ _ := none
  uid_completion _ _ _ _ := by simp

/-- The info tracer registers its dios in `dio_filter`. -/
def dioFilterRegistry (cfg : DioConfig) : DioRegistry (infoProgram cfg) where
  uid s dio := s.dioFilter.lookupElem dio
  uid_completion s e c hc := by
    cases e with
    | kfree t obj iocb size now slot =>
        obtain rfl := Option.some.inj hc
        show (kpKfree cfg s t obj iocb size now slot).1.dioFilter.lookupElem obj = none ↔ _
        show _ ↔ _ ∨ (_ ∧ s.dio.eventCache.lookupElem iocb ≠ none ∧ _)
        unfold kpKfree
        by_cases hp : passes cfg.filter t = true
        · cases s.dio.eventCache.lookupElem iocb with
          | none => simp [hp]
          | some v => cases slot <;> simp [hp]
        · simp [hp]
    | _ => exact absurd hc (by simp [DioProgram.completion?, infoProgram, InfoProbe.dio, DioProbe.completion?])

namespace DioRegistry

variable {σ ε ο : Type} {cfg : DioConfig} {M : Machine σ ε ο} {P : DioProgram cfg M} (R : DioRegistry P)

/-- **Reported once and cleaned up.** The completion of a tracked direct I/O emits one record if the
    reservation succeeds and none otherwise, and leaves neither map with an entry for it. -/
def CleanedUp (pre : List ε) (e : ε) : Prop :=
  ∀ c ∈ P.completion? e, P.Tracked pre c →
    ((M.out pre e).filterMap P.record).length = (if c.reserve then 1 else 0) ∧
      (P.state (M.exec (pre ++ [e]))).eventCache.lookupElem c.iocb = none ∧
      R.uid (M.exec (pre ++ [e])) c.dio = none

/-- The completion runs in an accepted task and finds the entry the start call left; without a
    reservation it need not find one, but must not be registered. -/
def CompletesCleanly (pre : List ε) (e : ε) : Prop :=
  ∀ c ∈ P.completion? e, P.Tracked pre c →
    if c.reserve then passes cfg.filter c.task = true ∧ P.Kept pre c.iocb
    else (P.Kept pre c.iocb → passes cfg.filter c.task = true) ∧ R.uid (M.exec pre) c.dio = none

instance (pre : List ε) (e : ε) : Decidable (R.CleanedUp pre e) :=
  inferInstanceAs (Decidable (∀ c ∈ P.completion? e, _ → _ ∧ _ ∧ _))

instance (pre : List ε) (e : ε) : Decidable (R.CompletesCleanly pre e) :=
  inferInstanceAs (Decidable (∀ c ∈ P.completion? e, _ → if c.reserve then _ else _))

/-- **Exactly these completions are reported once and cleaned up.** -/
theorem cleanedUp_iff {pre : List ε} {e : ε} : R.CleanedUp pre e ↔ R.CompletesCleanly pre e := by
  unfold CleanedUp CompletesCleanly
  refine forall_congr' (fun c => forall_congr' (fun hc => forall_congr' (fun ht => ?_)))
  -- what the step emits and leaves, in terms of the state before it
  obtain ⟨w, hw, hacc, -⟩ := ht
  have hkept := DioProgram.entry_iff_kept hw hacc
  obtain ⟨hlen, hentry⟩ := DioProgram.complete_step pre hc
  have huid := R.uid_completion (M.exec pre) e c hc
  rw [← Machine.exec_concat] at huid
  rw [hlen, hentry, huid, ← hkept]
  cases hres : c.reserve with
  | true =>
      by_cases hp : passes cfg.filter c.task = true <;>
        by_cases hl : (P.state (M.exec pre)).eventCache.lookupElem c.iocb = none <;> simp [hp, hl]
  | false =>
      by_cases hp : passes cfg.filter c.task = true <;>
        by_cases hl : (P.state (M.exec pre)).eventCache.lookupElem c.iocb = none <;> simp [hp, hl]

end DioRegistry

/-- **In both programs, the runs whose tracked direct I/Os are all reported once and cleaned up** are
    those in which every tracked completion runs in an accepted task, finds its entry and, in the info
    tracer, reserves its record. -/
theorem allSteps_cleanedUp_iff (cfg : DioConfig) :
    (∀ evs, Run.AllSteps (noRegistry cfg).CleanedUp evs ↔
      Run.AllSteps (noRegistry cfg).CompletesCleanly evs) ∧
    ∀ evs, Run.AllSteps (dioFilterRegistry cfg).CleanedUp evs ↔
      Run.AllSteps (dioFilterRegistry cfg).CompletesCleanly evs := by
  constructor
  · intro evs
    exact Run.allSteps_congr (fun _ _ => (noRegistry cfg).cleanedUp_iff) evs
  · intro evs
    exact Run.allSteps_congr (fun _ _ => (dioFilterRegistry cfg).cleanedUp_iff) evs

/-! ## A completion in a worker -/

/-- Only process `7` is traced. -/
def onlyPid7 : DioConfig := ⟨{ FilterConfig.off with usingPidFilter := true, tpid := 7 }, false, .empty⟩

/-- An asynchronous write submitted by process `7` and completed in the task `done`. -/
def asyncWrite (done : Task) (slot : Option UInt64) : List InfoProbe :=
  let t : Task := ⟨7, 7, 1, none⟩
  [.ext4DioWriteIter t 1 100 (CharArray.zero 16) 20, .iomapDioBioActor t 5 1 30,
    .kfree done 5 1 4096 40 slot]

/-- Completed in a kernel worker, the write is not reported and its entry stays, in both programs;
    completed without a reservation, it stays registered in `dio_filter`. -/
theorem not_cleanedUp_worker :
    ¬ Run.AllSteps (noRegistry onlyPid7).CleanedUp
        ((asyncWrite ⟨2, 2, 0, none⟩ (some 0)).filterMap InfoProbe.dio) ∧
      ¬ Run.AllSteps (dioFilterRegistry onlyPid7).CleanedUp (asyncWrite ⟨2, 2, 0, none⟩ (some 0)) ∧
      ¬ Run.AllSteps (dioFilterRegistry onlyPid7).CleanedUp (asyncWrite ⟨7, 7, 1, none⟩ none) := by
  decide

end StorTrace.Ext4Dio
