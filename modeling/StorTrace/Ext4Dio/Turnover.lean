import StorTrace.Ext4Dio.Program
import StorTrace.Lib.Turnover

/-!
# `Ext4Dio.Turnover` — what becomes of every direct I/O that was let in

A direct I/O that the filters let in opens an entry in `event_cache`, unless its kiocb has one or the map is full. Its
completion removes the entry and reports it, or loses it when the ring buffer has no room. Nothing else happens to an
entry, so the four add up over every run of both programs.
-/

namespace StorTrace.Ext4Dio

/-- The kiocb whose entry a probe may touch. -/
def DioProbe.key : DioProbe → Option Ptr
  | .newSyncWrite .. => none
  | .newSyncRead .. => none
  | .ext4DioWriteIter _ iocb _ _ _ => some iocb
  | .ext4DioReadIter _ iocb _ _ _ => some iocb
  | .iomapDioBioActor _ _ iocb _ => some iocb
  | .iomapDioComplete _ _ iocb _ _ _ => some iocb

theorem keeps_of_key_ne (cfg : DioConfig) (s : DioState) {p : DioProbe} {k : Ptr} (h : p.key ≠ some k) :
    (eventAct cfg s p k).Keeps := by
  have hiter (c : IterCall) (hc : c.iocb ≠ k) : (iterAct cfg s c k).Keeps := by
    rw [iterAct, CacheAction.onKey_of_ne (Ne.symm hc)]
    split <;> trivial
  cases p with
  | newSyncWrite t inodeId now => trivial
  | newSyncRead t inodeId now => trivial
  | ext4DioWriteIter t iocb inodeId smallName now => exact hiter _ (fun hk => h (congrArg some hk))
  | ext4DioReadIter t iocb inodeId smallName now => exact hiter _ (fun hk => h (congrArg some hk))
  | iomapDioBioActor t dio iocb now =>
      have hk : k ≠ iocb := fun hk => h (congrArg some hk.symm)
      rw [eventAct, CacheAction.onKey_of_ne hk]
      split <;> trivial
  | iomapDioComplete t dio iocb size now reserve =>
      have hk : k ≠ iocb := fun hk => h (congrArg some hk.symm)
      rw [eventAct, CacheAction.onKey_of_ne hk]
      split <;> trivial

/-- An entry goes exactly at an accepted completion of its kiocb. -/
theorem removes_iff {cfg : DioConfig} {s : DioState} {p : DioProbe} :
    (∃ k ∈ p.key, s.eventCache.lookupElem k ≠ none ∧ ¬ (eventAct cfg s p k).Keeps) ↔
      ∃ c ∈ p.completion?, passes cfg.filter c.task = true ∧ s.eventCache.lookupElem c.iocb ≠ none := by
  have hiter (c : IterCall) : ¬ (s.eventCache.lookupElem c.iocb ≠ none ∧ ¬ (iterAct cfg s c c.iocb).Keeps) := by
    rintro ⟨hentry, hkeeps⟩
    refine hkeeps ?_
    unfold iterAct
    split
    · rw [CacheAction.onKey_self, if_neg (fun h => hentry h.1)]
      trivial
    · trivial
  cases p with
  | newSyncWrite t inodeId now => simp [DioProbe.key, DioProbe.completion?]
  | newSyncRead t inodeId now => simp [DioProbe.key, DioProbe.completion?]
  | ext4DioWriteIter t iocb inodeId smallName now =>
      have hkept := hiter ⟨.write, t, iocb, inodeId, smallName, now⟩
      simpa [DioProbe.key, DioProbe.completion?, eventAct] using hkept
  | ext4DioReadIter t iocb inodeId smallName now =>
      have hkept := hiter ⟨.read, t, iocb, inodeId, smallName, now⟩
      simpa [DioProbe.key, DioProbe.completion?, eventAct] using hkept
  | iomapDioBioActor t dio iocb now =>
      by_cases hp : passes cfg.filter t = true <;> simp [DioProbe.key, DioProbe.completion?, eventAct, hp]
  | iomapDioComplete t dio iocb size now reserve =>
      by_cases hp : passes cfg.filter t = true <;> simp [DioProbe.key, DioProbe.completion?, eventAct, hp]

/-- A step sends one record or none. -/
theorem length_dioStep (cfg : DioConfig) (s : DioState) (p : DioProbe) :
    (dioStep cfg s p).2.length = if ∃ c ∈ p.completion?, passes cfg.filter c.task = true ∧ c.reserve = true ∧
      s.eventCache.lookupElem c.iocb ≠ none then 1 else 0 := by
  cases p with
  | iomapDioComplete t dio iocb size now reserve =>
      simp only [dioStep, kpIomapDioComplete, DioProbe.completion?]
      by_cases hp : passes cfg.filter t = true
      · cases hl : s.eventCache.lookupElem iocb with
        | none => simp [hp, hl]
        | some v => cases reserve <;> simp [hp, hl]
      · simp [hp]
  | _ => simp [dioStep, DioProbe.completion?]

namespace DioProgram

variable {σ ε ο : Type} {cfg : DioConfig} {M : Machine σ ε ο} (P : DioProgram cfg M)

/-- `event_cache`, seen key by key. -/
def eventKeys : KeyedView M Ptr SimpleDioEvent where
  toCacheView := P.eventView
  keys s := (P.state s).eventCache.keySet
  mem_keys _ _ := BpfHash.mem_keySet
  key e := (P.probe e).bind DioProbe.key
  keeps_of_ne s e k h := by
    cases hp : P.probe e with
    | none =>
        rw [eventView_act_none hp]
        trivial
    | some p =>
        rw [eventView_act_some hp]
        refine keeps_of_key_ne cfg _ ?_
        simpa [hp] using h

/-- A direct I/O is let in. -/
def Starts (_ : σ) (e : ε) : Prop := ∃ c ∈ P.iter? e, c.Accepted cfg

/-- It gets no entry: its kiocb has one, or the map is full. -/
def Refuses (s : σ) (e : ε) : Prop :=
  ∃ c ∈ P.iter? e, c.Accepted cfg ∧
    ¬ ((P.state s).eventCache.lookupElem c.iocb = none ∧ (P.state s).eventCache.HasRoom)

/-- A completion finds an entry and room for its record. -/
def Reports (s : σ) (e : ε) : Prop :=
  ∃ c ∈ P.completion? e, passes cfg.filter c.task = true ∧ c.reserve = true ∧
    (P.state s).eventCache.lookupElem c.iocb ≠ none

/-- A completion finds an entry, and no room for its record. -/
def Loses (s : σ) (e : ε) : Prop :=
  ∃ c ∈ P.completion? e, passes cfg.filter c.task = true ∧ c.reserve = false ∧
    (P.state s).eventCache.lookupElem c.iocb ≠ none

instance (s : σ) (e : ε) : Decidable (P.Starts s e) := inferInstanceAs (Decidable (∃ c ∈ P.iter? e, _))
instance (s : σ) (e : ε) : Decidable (P.Refuses s e) := inferInstanceAs (Decidable (∃ c ∈ P.iter? e, _ ∧ ¬ (_ ∧ _)))
instance (s : σ) (e : ε) : Decidable (P.Reports s e) := inferInstanceAs (Decidable (∃ c ∈ P.completion? e, _ ∧ _ ∧ _))
instance (s : σ) (e : ε) : Decidable (P.Loses s e) := inferInstanceAs (Decidable (∃ c ∈ P.completion? e, _ ∧ _ ∧ _))

variable {P}

/-- A direct I/O that is let in gets an entry or is refused one. -/
theorem starts_iff (s : σ) (e : ε) : P.Starts s e ↔ P.eventKeys.Stores s e ∨ P.Refuses s e := by
  have hstores : P.eventKeys.Stores s e ↔ ∃ c ∈ P.iter? e, c.Accepted cfg ∧
      (P.state s).eventCache.lookupElem c.iocb = none ∧ (P.state s).eventCache.HasRoom := by
    constructor
    · rintro ⟨k, -, hputs⟩
      obtain ⟨v, hv⟩ := CacheAction.puts_iff.mp hputs
      obtain ⟨c, hc, hacc, rfl, hnone, hroom, -⟩ := eventView_put.mp hv
      exact ⟨c, hc, hacc, hnone, hroom⟩
    · rintro ⟨c, hc, hacc, hnone, hroom⟩
      have hput : P.eventView.act s e c.iocb = .put (c.entry (P.state s)) :=
        eventView_put.mpr ⟨c, hc, hacc, rfl, hnone, hroom, rfl⟩
      refine ⟨c.iocb, ?_, CacheAction.puts_iff.mpr ⟨_, hput⟩⟩
      obtain ⟨p, hp, hpc⟩ := Option.bind_eq_some_iff.mp hc
      show c.iocb ∈ (P.probe e).bind DioProbe.key
      rw [hp]
      cases p with
      | ext4DioWriteIter t iocb inodeId smallName now => rw [← Option.some.inj hpc]; rfl
      | ext4DioReadIter t iocb inodeId smallName now => rw [← Option.some.inj hpc]; rfl
      | _ => exact absurd hpc (by simp [DioProbe.iter?])
  rw [hstores]
  constructor
  · rintro ⟨c, hc, hacc⟩
    by_cases hfree : (P.state s).eventCache.lookupElem c.iocb = none ∧ (P.state s).eventCache.HasRoom
    · exact Or.inl ⟨c, hc, hacc, hfree⟩
    · exact Or.inr ⟨c, hc, hacc, hfree⟩
  · rintro (⟨c, hc, hacc, -⟩ | ⟨c, hc, hacc, -⟩)
    · exact ⟨c, hc, hacc⟩
    · exact ⟨c, hc, hacc⟩

theorem not_refuses_of_stores (s : σ) (e : ε) (h : P.eventKeys.Stores s e) : ¬ P.Refuses s e := by
  obtain ⟨k, -, hputs⟩ := h
  obtain ⟨v, hv⟩ := CacheAction.puts_iff.mp hputs
  obtain ⟨c, hc, -, rfl, hnone, hroom, -⟩ := eventView_put.mp hv
  rintro ⟨c', hc', -, hnot⟩
  obtain rfl := Option.some.inj (hc.symm.trans hc')
  exact hnot ⟨hnone, hroom⟩

/-- An entry goes with its record, or its record is lost. -/
theorem removes_iff_reports (s : σ) (e : ε) : P.eventKeys.Removes s e ↔ P.Reports s e ∨ P.Loses s e := by
  have hremoves : P.eventKeys.Removes s e ↔
      ∃ c ∈ P.completion? e, passes cfg.filter c.task = true ∧ (P.state s).eventCache.lookupElem c.iocb ≠ none := by
    cases hp : P.probe e with
    | none => simp [KeyedView.Removes, eventKeys, completion?, hp]
    | some p =>
        have hact : ∀ k, P.eventView.act s e k = eventAct cfg (P.state s) p k := eventView_act_some hp
        have hcompletion : P.completion? e = p.completion? := by rw [completion?, hp, Option.bind_some]
        rw [hcompletion, ← removes_iff]
        show (∃ k ∈ (P.probe e).bind DioProbe.key, P.eventView.get s k ≠ none ∧ ¬ (P.eventView.act s e k).Keeps) ↔ _
        simp only [hp, Option.bind_some, hact]
        rfl
  rw [hremoves]
  constructor
  · rintro ⟨c, hc, hpass, hentry⟩
    cases hr : c.reserve with
    | true => exact Or.inl ⟨c, hc, hpass, hr, hentry⟩
    | false => exact Or.inr ⟨c, hc, hpass, hr, hentry⟩
  · rintro (⟨c, hc, hpass, -, hentry⟩ | ⟨c, hc, hpass, -, hentry⟩)
    · exact ⟨c, hc, hpass, hentry⟩
    · exact ⟨c, hc, hpass, hentry⟩

theorem not_loses_of_reports (s : σ) (e : ε) (h : P.Reports s e) : ¬ P.Loses s e := by
  obtain ⟨c, hc, -, hreserve, -⟩ := h
  rintro ⟨c', hc', -, hlost, -⟩
  obtain rfl := Option.some.inj (hc.symm.trans hc')
  rw [hreserve] at hlost
  cases hlost

/-- A completion that finds an entry and room sends one record, and nothing else sends any. -/
theorem length_record_step (P : DioProgram cfg M) (s : σ) (e : ε) :
    ((M.step s e).2.filterMap P.record).length = if P.Reports s e then 1 else 0 := by
  rw [P.record_step]
  cases hp : P.probe e with
  | none =>
      have hnot : ¬ P.Reports s e := by simp [Reports, completion?, hp]
      rw [if_neg hnot]
      rfl
  | some p =>
      have hcompletion : P.completion? e = p.completion? := by rw [completion?, hp, Option.bind_some]
      rw [length_dioStep]
      exact if_congr (by rw [Reports, hcompletion]) rfl rfl

/-- **The accounts of a run**: every direct I/O that was let in has been reported, was lost, was refused or is still
    open. -/
structure Accounted (P : DioProgram cfg M) (evs : List ε) : Prop where
  balance : (M.stepsWith P.Starts evs).length =
    ((M.emit evs).filterMap P.record).length + (M.stepsWith P.Loses evs).length + (M.stepsWith P.Refuses evs).length +
      (P.state (M.exec evs)).eventCache.keySet.card
  /-- No more are open than the map has room for. -/
  bound : (P.state (M.exec evs)).eventCache.keySet.card ≤ 8192
  /-- Where none is lost or refused, each of them has its record as soon as it is no longer open. -/
  reported : Run.AllSteps (fun pre e => ¬ P.Loses (M.exec pre) e ∧ ¬ P.Refuses (M.exec pre) e) evs →
    ((M.emit evs).filterMap P.record).length + (P.state (M.exec evs)).eventCache.keySet.card =
      (M.stepsWith P.Starts evs).length

/-- **Both programs keep their accounts over every run.** -/
theorem accounted (P : DioProgram cfg M) (evs : List ε) : P.Accounted evs := by
  have hstarts := Machine.length_stepsWith_add (M := M) starts_iff (not_refuses_of_stores (P := P)) evs
  have hremoves := Machine.length_stepsWith_add (M := M) removes_iff_reports (not_loses_of_reports (P := P)) evs
  have hrecords := Machine.length_filterMap_emit (length_record_step P) evs
  have hbalance := P.eventKeys.balance evs
  have hheld : P.eventKeys.keys (M.exec evs) = (P.state (M.exec evs)).eventCache.keySet := rfl
  rw [hheld] at hbalance
  refine ⟨by omega, BpfHash.card_keySet_le _, ?_⟩
  intro hnone
  have hlost : M.stepsWith P.Loses evs = [] :=
    Machine.stepsWith_eq_nil (hnone.imp (fun _ _ _ _ h => h.1))
  have hrefused : M.stepsWith P.Refuses evs = [] :=
    Machine.stepsWith_eq_nil (hnone.imp (fun _ _ _ _ h => h.2))
  rw [hlost, List.length_nil] at hremoves
  rw [hrefused, List.length_nil] at hstarts
  omega

end DioProgram

/-- **No direct I/O disappears without a cause**, in the simple tracer and in the info tracer, over every run. -/
theorem accounted_traces (cfg : DioConfig) :
    (∀ evs : List DioProbe, (simpleProgram cfg).Accounted evs) ∧ ∀ evs : List InfoProbe, (infoProgram cfg).Accounted evs :=
  ⟨(simpleProgram cfg).accounted, (infoProgram cfg).accounted⟩

end StorTrace.Ext4Dio
