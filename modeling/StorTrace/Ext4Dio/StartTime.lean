import StorTrace.Ext4Dio.Program

/-!
# `Ext4Dio.StartTime` — whose start time does a direct I/O get?

`new_sync_write` leaves its clock reading in a variable that all tasks share; `ext4_dio_write_iter` picks
up whatever is there. Runs are labelled here with the system call each probe fires in, so that "the
`new_sync_write` that led to this `ext4_dio_write_iter`" can be said: it is the one with the same label.
An asynchronous submission has no such call.

The entry gets its own start time exactly when the last accepted `new_sync` of its direction was that of
its own call (`ownStart_iff`).
-/

namespace StorTrace.Ext4Dio

namespace DioProgram

variable {σ ε ο ι : Type} {cfg : DioConfig} {M : Machine σ ε ο} (P : DioProgram cfg M)

/-- The program on events labelled with system calls. -/
def labelled (ι : Type) : DioProgram cfg (M.labelled ι) where
  state := P.state
  probe e := P.probe e.2
  record := P.record
  state_init := P.state_init
  state_step s e := P.state_step s e.2
  record_step s e := P.record_step s e.2

/-- The entry of a kiocb after a labelled run. -/
def entry (evs : List (ι × ε)) (iocb : Ptr) : Option SimpleDioEvent :=
  (P.labelled ι).eventView.get ((M.labelled ι).exec evs) iocb

/-- The call stores an entry: it is accepted, and its kiocb has none. -/
def Stores (s : σ) (c : IterCall) : Prop :=
  c.Accepted cfg ∧ (P.state s).eventCache.lookupElem c.iocb = none ∧ (P.state s).eventCache.HasRoom

instance (s : σ) (c : IterCall) : Decidable (P.Stores s c) := inferInstanceAs (Decidable (_ ∧ _ ∧ _))

/-- The accepted `new_sync` calls of one direction in a run, each with its label and reading. -/
def starts (d : Direction) (evs : List (ι × ε)) : List (ι × TimeStramp) :=
  evs.filterMap (fun x =>
    ((P.probe x.2).bind (fun p => startWrite cfg p d)).map (fun now => (x.1, now)))

/-- **Its own start.** The entry an `ext4_dio_*_iter` stores has the reading of an accepted `new_sync` of
    the same call. -/
def OwnStart (pre : List (ι × ε)) (e : ι × ε) : Prop :=
  ∀ c ∈ P.iter? e.2, P.Stores ((M.labelled ι).exec pre) c →
    ∃ v ∈ P.entry (pre ++ [e]) c.iocb, ∃ w ∈ P.starts c.dir pre, w.1 = e.1 ∧ v.startDio = w.2

/-- The last accepted `new_sync` of the direction was the storing call's own. -/
def LastStartOwn (pre : List (ι × ε)) (e : ι × ε) : Prop :=
  ∀ c ∈ P.iter? e.2, P.Stores ((M.labelled ι).exec pre) c →
    ∃ w ∈ (P.starts c.dir pre).getLast?, w.1 = e.1

section Decidable

variable [DecidableEq ι]

instance (pre : List (ι × ε)) (e : ι × ε) : Decidable (P.OwnStart pre e) :=
  inferInstanceAs (Decidable (∀ c ∈ P.iter? e.2, _ → ∃ v ∈ P.entry (pre ++ [e]) c.iocb,
    ∃ w ∈ P.starts c.dir pre, _ ∧ _))

instance (pre : List (ι × ε)) (e : ι × ε) : Decidable (P.LastStartOwn pre e) :=
  inferInstanceAs (Decidable (∀ c ∈ P.iter? e.2, _ → ∃ w ∈ (P.starts c.dir pre).getLast?, _))

end Decidable

variable {P}

/-- The start variables after a run: the reading of the last accepted `new_sync`, `0` before the first. -/
theorem start_exec (d : Direction) (evs : List (ι × ε)) :
    (P.state ((M.labelled ι).exec evs)).start d
      = (((P.starts d evs).getLast?).map Prod.snd).getD 0 := by
  have hwrite (s : σ) (x : ι × ε) : (P.state ((M.labelled ι).step s x).1).start d
      = ((P.probe x.2).bind (fun p => startWrite cfg p d)).getD ((P.state s).start d) := by
    show (P.state (M.step s x.2).1).start d = _
    rw [P.state_step]
    cases P.probe x.2 with
    | some p => exact start_step cfg (P.state s) p d
    | none => rfl
  have hinit : (P.state (M.labelled ι).init).start d = 0 := by
    show (P.state M.init).start d = 0
    rw [P.state_init]
    cases d <;> rfl
  -- the variable is a register that only the `new_sync` calls write
  have hlast := Machine.register_last (M := M.labelled ι) (fun s => (P.state s).start d) _ hwrite evs
  rw [hlast, hinit, starts, ← List.getLast?_map, List.map_filterMap]
  simp only [Option.map_map, Function.comp_def, Option.map_id']

/-- What a storing call stores. -/
theorem entry_of_stores {pre : List (ι × ε)} {e : ι × ε} {c : IterCall} (hc : P.iter? e.2 = some c)
    (hs : P.Stores ((M.labelled ι).exec pre) c) :
    P.entry (pre ++ [e]) c.iocb = some (c.entry (P.state ((M.labelled ι).exec pre))) := by
  have hput := (eventView_put (P := P.labelled ι) (s := (M.labelled ι).exec pre) (e := e)).mpr
    ⟨c, hc, hs.1, rfl, hs.2.1, hs.2.2, rfl⟩
  rw [entry, CacheView.get_exec_concat, hput]
  rfl

/-- One step: with the call's own `new_sync` last, the entry gets its reading. -/
theorem ownStart_of_lastStartOwn {pre : List (ι × ε)} {e : ι × ε} (h : P.LastStartOwn pre e) :
    P.OwnStart pre e := by
  intro c hc hs
  obtain ⟨w, hw, hlabel⟩ := h c hc hs
  refine ⟨_, entry_of_stores hc hs, w, List.mem_of_getLast? hw, hlabel, ?_⟩
  have hstart := start_exec (P := P) c.dir pre
  rw [Option.mem_def.mp hw] at hstart
  exact hstart

/-- One step, backwards: with distinct readings, the reading identifies the `new_sync`. -/
theorem lastStartOwn_of_ownStart {pre : List (ι × ε)} {e : ι × ε}
    (hd : ∀ d, ((P.starts d pre).map Prod.snd).Nodup) (h : P.OwnStart pre e) : P.LastStartOwn pre e := by
  intro c hc hs
  obtain ⟨v, hv, w, hw, hlabel, heq⟩ := h c hc hs
  rw [entry_of_stores hc hs, Option.mem_some_iff] at hv
  have hstart : (((P.starts c.dir pre).getLast?).map Prod.snd).getD 0 = w.2 := by
    rw [← heq, ← hv]
    exact (start_exec (P := P) c.dir pre).symm
  cases hl : (P.starts c.dir pre).getLast? with
  | none =>
      -- there is a `new_sync` with the entry's reading, so there is a last one
      rw [List.getLast?_eq_none_iff.mp hl] at hw
      exact absurd hw (by simp)
  | some l =>
      rw [hl] at hstart
      have hlw : l = w :=
        List.inj_on_of_nodup_map (hd c.dir) (List.mem_of_getLast? hl) hw hstart
      exact ⟨l, rfl, hlw ▸ hlabel⟩

/-- The calls of a prefix are among those of the run. -/
theorem starts_prefix (d : Direction) (pre post : List (ι × ε)) :
    (P.starts d pre).Sublist (P.starts d (pre ++ post)) := by
  rw [starts, starts, List.filterMap_append]
  exact List.sublist_append_left _ _

/-- **In a run every direct I/O is charged its own start** if each stored entry's own `new_sync` was the
    last one; when no two `new_sync` read the same clock value, only then. -/
theorem ownStart_iff (evs : List (ι × ε)) :
    (Run.AllSteps P.LastStartOwn evs → Run.AllSteps P.OwnStart evs) ∧
      ((∀ d, ((P.starts d evs).map Prod.snd).Nodup) →
        Run.AllSteps P.OwnStart evs → Run.AllSteps P.LastStartOwn evs) := by
  constructor
  · intro h
    exact h.imp (fun _ _ _ _ => ownStart_of_lastStartOwn)
  · intro hd h
    refine h.imp ?_
    intro pre e post hs
    -- the readings of a prefix are distinct too
    have hpre : ∀ d, ((P.starts d pre).map Prod.snd).Nodup := by
      intro d
      have hsub := starts_prefix (P := P) d pre (e :: post)
      rw [← hs] at hsub
      exact (hd d).sublist (hsub.map Prod.snd)
    exact lastStartOwn_of_ownStart hpre

end DioProgram

/-- **Both programs charge every direct I/O its own start in the runs where its `new_sync` was the last,
    and, with distinct readings, in no others.** -/
theorem ownStart_iff_lastStartOwn (cfg : DioConfig) (ι : Type) :
    (∀ evs : List (ι × DioProbe),
      (Run.AllSteps (simpleProgram cfg).LastStartOwn evs → Run.AllSteps (simpleProgram cfg).OwnStart evs) ∧
      ((∀ d, (((simpleProgram cfg).starts d evs).map Prod.snd).Nodup) →
        Run.AllSteps (simpleProgram cfg).OwnStart evs →
        Run.AllSteps (simpleProgram cfg).LastStartOwn evs)) ∧
    ∀ evs : List (ι × InfoProbe),
      (Run.AllSteps (infoProgram cfg).LastStartOwn evs → Run.AllSteps (infoProgram cfg).OwnStart evs) ∧
      ((∀ d, (((infoProgram cfg).starts d evs).map Prod.snd).Nodup) →
        Run.AllSteps (infoProgram cfg).OwnStart evs →
        Run.AllSteps (infoProgram cfg).LastStartOwn evs) :=
  ⟨DioProgram.ownStart_iff, DioProgram.ownStart_iff⟩

/-! ## Two writers -/

/-- Two tasks write two files; each label is the task's system call. -/
def syncA : Nat × InfoProbe := (1, .newSyncWrite ⟨7, 7, 1, none⟩ 100 10)
def syncB : Nat × InfoProbe := (2, .newSyncWrite ⟨8, 8, 1, none⟩ 200 20)
def iterA : Nat × InfoProbe := (1, .ext4DioWriteIter ⟨7, 7, 1, none⟩ 1 100 (CharArray.zero 16) 30)
def iterB : Nat × InfoProbe := (2, .ext4DioWriteIter ⟨8, 8, 1, none⟩ 2 200 (CharArray.zero 16) 40)

/-- The same events as probes of the simple tracer. -/
def simpleEvents (evs : List (Nat × InfoProbe)) : List (Nat × DioProbe) :=
  evs.filterMap (fun x => x.2.dio.map (fun p => (x.1, p)))

/-- One after the other, the two writes get their own starts. -/
theorem ownStart_sequential :
    Run.AllSteps (simpleProgram .off).OwnStart (simpleEvents [syncA, iterA, syncB, iterB]) ∧
      Run.AllSteps (infoProgram .off).OwnStart [syncA, iterA, syncB, iterB] :=
  ⟨((ownStart_iff_lastStartOwn .off Nat).1 _).1 (by decide),
    ((ownStart_iff_lastStartOwn .off Nat).2 _).1 (by decide)⟩

/-- Interleaved, the first is charged the start of the second, in both programs. -/
theorem not_ownStart_interleaved :
    ¬ Run.AllSteps (simpleProgram .off).OwnStart (simpleEvents [syncA, syncB, iterA, iterB]) ∧
      ¬ Run.AllSteps (infoProgram .off).OwnStart [syncA, syncB, iterA, iterB] := by
  decide

end StorTrace.Ext4Dio
