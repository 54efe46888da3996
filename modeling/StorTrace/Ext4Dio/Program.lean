import StorTrace.Ext4Dio.Info
import StorTrace.Lib.Cache

/-!
# `Ext4Dio.Program` — the direct-I/O stages, once for both programs

A `DioProgram` is a machine that contains the simple tracer: its state has a `DioState` that moves by
`dioStep` at the events that are probes of the simple tracer and stands still at the others, and the
simple records it emits are those of `dioStep`. The simple tracer is one trivially; the info tracer is
one because its `kfree` does to the simple part what `iomap_dio_complete` does. What is proved of every
`DioProgram` holds of both.
-/

namespace StorTrace.Ext4Dio

open CacheAction

/-- A machine whose simple part is the simple tracer. -/
structure DioProgram {σ ε ο : Type} (cfg : DioConfig) (M : Machine σ ε ο) where
  state : σ → DioState
  probe : ε → Option DioProbe
  record : ο → Option SimpleDioEvent
  state_init : state M.init = .init
  state_step : ∀ s e, state (M.step s e).1 =
    match probe e with
    | some p => (dioStep cfg (state s) p).1
    | none => state s
  record_step : ∀ s e, (M.step s e).2.filterMap record =
    match probe e with
    | some p => (dioStep cfg (state s) p).2
    | none => []

/-- The simple tracer. -/
def simpleProgram (cfg : DioConfig) : DioProgram cfg (dioTracer cfg) where
  state := id
  probe := some
  record := some
  state_init := rfl
  state_step _ _ := rfl
  record_step _ _ := List.filterMap_some

/-- The probe of the simple tracer an event of the info tracer plays the part of. -/
def InfoProbe.dio : InfoProbe → Option DioProbe
  | .newSyncWrite t inodeId now => some (.newSyncWrite t inodeId now)
  | .newSyncRead t inodeId now => some (.newSyncRead t inodeId now)
  | .ext4DioWriteIter t iocb inodeId smallName now =>
      some (.ext4DioWriteIter t iocb inodeId smallName now)
  | .ext4DioReadIter t iocb inodeId smallName now =>
      some (.ext4DioReadIter t iocb inodeId smallName now)
  | .iomapDioBioActor t dio iocb now => some (.iomapDioBioActor t dio iocb now)
  | .kfree t obj iocb size now slot => some (.iomapDioComplete t obj iocb size now slot.isSome)
  | _ => none

/-- The simple part of a record of the info tracer. -/
def InfoRecord.simple (r : InfoRecord) : Option SimpleDioEvent := r.dioInfo?.map DioInfoEvent.simEvent

/-- A registration moves the simple part as the simple tracer's block-actor probe does. -/
theorem dio_kpIomapDioBioActorInfo (cfg : DioConfig) (s : InfoState) (t : Task) (dio iocb : Ptr)
    (now : TimeStramp) :
    (kpIomapDioBioActorInfo cfg s t dio iocb now).dio = kpIomapDioBioActor cfg s.dio t iocb now := by
  unfold kpIomapDioBioActorInfo kpIomapDioBioActor
  by_cases hp : passes cfg.filter t = true
  · simp only [hp, if_true]
    cases hl : s.dio.eventCache.lookupElem iocb with
    | some v => rfl
    -- the simple tracer writes through a failed lookup, which changes nothing
    | none => rw [BpfHash.modifyElem_of_none hl]
  · simp [hp]

/-- A `kfree` moves the simple part as the simple tracer's completion probe does. -/
theorem dio_kpKfree (cfg : DioConfig) (s : InfoState) (t : Task) (obj iocb : Ptr) (size : Int64)
    (now : TimeStramp) (slot : Option UInt64) :
    (kpKfree cfg s t obj iocb size now slot).1.dio
        = (kpIomapDioComplete cfg s.dio t iocb size now slot.isSome).1 ∧
      (kpKfree cfg s t obj iocb size now slot).2.filterMap InfoRecord.simple
        = (kpIomapDioComplete cfg s.dio t iocb size now slot.isSome).2 := by
  unfold kpKfree kpIomapDioComplete
  by_cases hp : passes cfg.filter t = true
  · simp only [hp, if_true]
    cases s.dio.eventCache.lookupElem iocb with
    | some v => cases slot <;> exact ⟨rfl, rfl⟩
    | none => exact ⟨rfl, rfl⟩
  · simp [hp]

/-- **The request probes move `rq_cache` only.** -/
theorem infoStep_frame (cfg : DioConfig) (s : InfoState) {e : InfoProbe} (h : e.dio = none) :
    (infoStep cfg s e).1.dio = s.dio ∧ (infoStep cfg s e).1.dioFilter = s.dioFilter := by
  have hqueue (t : Task) (rq : Ptr) (h : HctxFields) (now : TimeStramp) (reserve : Bool) :
      (queueRqInfo cfg s t rq h now reserve).1.dio = s.dio ∧
        (queueRqInfo cfg s t rq h now reserve).1.dioFilter = s.dioFilter := by
    unfold queueRqInfo
    split
    · split <;> exact ⟨rfl, rfl⟩
    · exact ⟨rfl, rfl⟩
  cases e with
  | rqQosTrack t rq biPrivate now =>
      simp only [infoStep, kpRqQosTrackInfo]
      split
      · split <;> exact ⟨rfl, rfl⟩
      · exact ⟨rfl, rfl⟩
  | nvmeQueueRq t rq hf now reserve => exact hqueue t rq hf now reserve
  | scsiQueueRq t rq hf now reserve => exact hqueue t rq hf now reserve
  | blkMqStartRequest t rq now =>
      simp only [infoStep, kpBlkMqStartRequest]
      split <;> exact ⟨rfl, rfl⟩
  | blkAccountIoDone rq now sector hctxPtr stats segs reserve =>
      simp only [infoStep, kpBlkAccountIoDoneInfo]
      split
      · split <;> exact ⟨rfl, rfl⟩
      · exact ⟨rfl, rfl⟩
  | scsiSoftirqDone rq now => exact ⟨rfl, rfl⟩
  | scsiEndRequest rq now => exact ⟨rfl, rfl⟩
  | nvmePciCompleteRq rq now => exact ⟨rfl, rfl⟩
  | nvmeCompleteRq rq now => exact ⟨rfl, rfl⟩
  -- the probes of a direct I/O
  | _ => exact absurd h (by simp [InfoProbe.dio])

/-- A request probe sends no simple record. -/
theorem simple_of_request {cfg : DioConfig} {s : InfoState} {e : InfoProbe} (h : e.dio = none) :
    (infoStep cfg s e).2.filterMap InfoRecord.simple = [] := by
  rw [List.filterMap_eq_nil_iff]
  intro r hr
  cases mem_infoStep_iff.mp hr with
  | dioInfo hp hv => exact absurd h (by simp [InfoProbe.dio])
  | _ => rfl

/-- **The info tracer contains the simple tracer.** -/
def infoProgram (cfg : DioConfig) : DioProgram cfg (infoTracer cfg) where
  state := InfoState.dio
  probe := InfoProbe.dio
  record := InfoRecord.simple
  state_init := rfl
  state_step s e := by
    cases e with
    | newSyncWrite t inodeId now => rfl
    | newSyncRead t inodeId now => rfl
    | ext4DioWriteIter t iocb inodeId smallName now => rfl
    | ext4DioReadIter t iocb inodeId smallName now => rfl
    | iomapDioBioActor t dio iocb now => exact dio_kpIomapDioBioActorInfo cfg s t dio iocb now
    | kfree t obj iocb size now slot => exact (dio_kpKfree cfg s t obj iocb size now slot).1
    | _ => exact (infoStep_frame cfg s rfl).1
  record_step s e := by
    cases e with
    | newSyncWrite t inodeId now => rfl
    | newSyncRead t inodeId now => rfl
    | ext4DioWriteIter t iocb inodeId smallName now => rfl
    | ext4DioReadIter t iocb inodeId smallName now => rfl
    | iomapDioBioActor t dio iocb now => rfl
    | kfree t obj iocb size now slot => exact (dio_kpKfree cfg s t obj iocb size now slot).2
    | _ => exact simple_of_request rfl

/-! ## The calls behind the start probes -/

/-- The two directions, each with its own pair of start probes and its own start variable. -/
inductive Direction where
  | write
  | read
deriving DecidableEq

/-- The `enum dio_type` value of a direction. -/
def Direction.type : Direction → UInt32
  | .write => dWrite
  | .read  => dRead

/-- A `new_sync_write` or `new_sync_read`. -/
structure SyncCall where
  dir : Direction
  task : Task
  inodeId : UInt64
  now : TimeStramp
deriving DecidableEq

/-- An `ext4_dio_write_iter` or `ext4_dio_read_iter`. -/
structure IterCall where
  dir : Direction
  task : Task
  iocb : Ptr
  inodeId : UInt64
  smallName : CharArray 16
  now : TimeStramp
deriving DecidableEq

def DioProbe.sync? : DioProbe → Option SyncCall
  | .newSyncWrite t inodeId now => some ⟨.write, t, inodeId, now⟩
  | .newSyncRead t inodeId now => some ⟨.read, t, inodeId, now⟩
  | _ => none

def DioProbe.iter? : DioProbe → Option IterCall
  | .ext4DioWriteIter t iocb inodeId smallName now => some ⟨.write, t, iocb, inodeId, smallName, now⟩
  | .ext4DioReadIter t iocb inodeId smallName now => some ⟨.read, t, iocb, inodeId, smallName, now⟩
  | _ => none

/-- A call of the completion probe. -/
structure Completion where
  task : Task
  dio : Ptr
  iocb : Ptr
  reserve : Bool
deriving DecidableEq

def DioProbe.completion? : DioProbe → Option Completion
  | .iomapDioComplete t dio iocb _ _ reserve => some ⟨t, dio, iocb, reserve⟩
  | _ => none

/-- The call passes the task filters and the inode filter. -/
def SyncCall.Accepted (cfg : DioConfig) (c : SyncCall) : Prop :=
  passes cfg.filter c.task = true ∧ inodeSelected cfg c.inodeId = true

instance (cfg : DioConfig) (c : SyncCall) : Decidable (c.Accepted cfg) :=
  inferInstanceAs (Decidable (_ ∧ _))

/-- The call passes the task filters and the inode filter. -/
def IterCall.Accepted (cfg : DioConfig) (c : IterCall) : Prop :=
  passes cfg.filter c.task = true ∧ inodeSelected cfg c.inodeId = true

instance (cfg : DioConfig) (c : IterCall) : Decidable (c.Accepted cfg) :=
  inferInstanceAs (Decidable (_ ∧ _))

/-- The start variable of a direction. -/
def DioState.start (s : DioState) : Direction → TimeStramp
  | .write => s.dioWriteStart
  | .read  => s.dioReadStart

/-- The entry an accepted call fills. -/
def IterCall.entry (c : IterCall) (s : DioState) : SimpleDioEvent :=
  { SimpleDioEvent.zero with
    startDio := s.start c.dir, startExt4 := c.now, inodeId := c.inodeId, filename := c.smallName
    type := c.dir.type }

/-- The reading a probe stores in the start variable of direction `d`. -/
def startWrite (cfg : DioConfig) (p : DioProbe) (d : Direction) : Option TimeStramp :=
  p.sync?.bind (fun c => if c.dir = d ∧ c.Accepted cfg then some c.now else none)

/-- **Only an accepted `new_sync` writes a start variable.** -/
theorem start_step (cfg : DioConfig) (s : DioState) (p : DioProbe) (d : Direction) :
    (dioStep cfg s p).1.start d = (startWrite cfg p d).getD (s.start d) := by
  have hsync (start : TimeStramp) (t : Task) (inodeId : UInt64) (now : TimeStramp) (dir : Direction) :
      newSync cfg start t inodeId now =
        (if dir = dir ∧ (SyncCall.mk dir t inodeId now).Accepted cfg then some now else none).getD start := by
    unfold newSync SyncCall.Accepted
    by_cases hp : passes cfg.filter t = true <;> by_cases hi : inodeSelected cfg inodeId = true <;>
      simp [hp, hi]
  cases p with
  | newSyncWrite t inodeId now =>
      cases d with
      | write => exact hsync s.dioWriteStart t inodeId now .write
      | read => simp [dioStep, kpNewSyncWrite, startWrite, DioProbe.sync?, DioState.start]
  | newSyncRead t inodeId now =>
      cases d with
      | write => simp [dioStep, kpNewSyncRead, startWrite, DioProbe.sync?, DioState.start]
      | read => exact hsync s.dioReadStart t inodeId now .read
  | ext4DioWriteIter t iocb inodeId smallName now =>
      cases d <;> (simp only [dioStep, kpExt4DioWriteIter, dioIter]; split <;> try split) <;> rfl
  | ext4DioReadIter t iocb inodeId smallName now =>
      cases d <;> (simp only [dioStep, kpExt4DioReadIter, dioIter]; split <;> try split) <;> rfl
  | iomapDioBioActor t dio iocb now =>
      cases d <;> (simp only [dioStep, kpIomapDioBioActor]; split) <;> rfl
  | iomapDioComplete t dio iocb size now reserve =>
      cases d <;> (simp only [dioStep, kpIomapDioComplete]; split <;> try split) <;> rfl

/-! ## The entry of a kiocb -/

/-- The action of an accepted `ext4_dio_*_iter` on the entry of `k`. -/
def iterAct (cfg : DioConfig) (s : DioState) (c : IterCall) (k : Ptr) : CacheAction SimpleDioEvent :=
  if c.Accepted cfg then
    onKey c.iocb k
      (if s.eventCache.lookupElem c.iocb = none ∧ s.eventCache.HasRoom then .put (c.entry s) else .keep)
  else .keep

/-- The action of a probe on the `event_cache` entry of `k`. -/
def eventAct (cfg : DioConfig) (s : DioState) (p : DioProbe) (k : Ptr) : CacheAction SimpleDioEvent :=
  match p with
  | .newSyncWrite .. => .keep
  | .newSyncRead .. => .keep
  | .ext4DioWriteIter t iocb inodeId smallName now =>
      iterAct cfg s ⟨.write, t, iocb, inodeId, smallName, now⟩ k
  | .ext4DioReadIter t iocb inodeId smallName now =>
      iterAct cfg s ⟨.read, t, iocb, inodeId, smallName, now⟩ k
  | .iomapDioBioActor t _ iocb now =>
      if passes cfg.filter t then onKey iocb k (.update (fun v => { v with startBlockIo := now }))
      else .keep
  | .iomapDioComplete t _ iocb _ _ _ => if passes cfg.filter t then onKey iocb k .drop else .keep

/-- A start probe stores the entry of its call, if the kiocb has none. -/
theorem lookup_dioIter (cfg : DioConfig) (s : DioState) (c : IterCall) (k : Ptr) :
    (dioIter cfg s (s.start c.dir) c.dir.type c.task c.iocb c.inodeId c.smallName
      c.now).eventCache.lookupElem k = (iterAct cfg s c k).apply (s.eventCache.lookupElem k) := by
  unfold dioIter iterAct IterCall.Accepted
  by_cases hp : passes cfg.filter c.task = true
  · by_cases hi : inodeSelected cfg c.inodeId = true
    · simp only [hp, hi, if_true, and_self, onKey_apply, BpfHash.lookupElem_update_noexist]
      by_cases hk : k = c.iocb
      · subst hk
        by_cases hn : s.eventCache.lookupElem c.iocb = none ∧ s.eventCache.HasRoom
        · simp [hn]; rfl
        · simp [hn]
      · simp [hk]
    · simp [hp, hi]
  · simp [hp]

/-- **Every probe does to a kiocb's entry what `eventAct` says.** -/
theorem dioStep_eventCache (cfg : DioConfig) (s : DioState) (p : DioProbe) (k : Ptr) :
    (dioStep cfg s p).1.eventCache.lookupElem k =
      (eventAct cfg s p k).apply (s.eventCache.lookupElem k) := by
  cases p with
  | newSyncWrite t inodeId now => rfl
  | newSyncRead t inodeId now => rfl
  | ext4DioWriteIter t iocb inodeId smallName now =>
      exact lookup_dioIter cfg s ⟨.write, t, iocb, inodeId, smallName, now⟩ k
  | ext4DioReadIter t iocb inodeId smallName now =>
      exact lookup_dioIter cfg s ⟨.read, t, iocb, inodeId, smallName, now⟩ k
  | iomapDioBioActor t dio iocb now =>
      simp only [dioStep, kpIomapDioBioActor, eventAct]
      by_cases hp : passes cfg.filter t = true
      · simp only [hp, if_true, onKey_apply, BpfHash.lookupElem_modifyElem, apply_update]
        split
        · next hk => rw [hk]
        · rfl
      · simp [hp]
  | iomapDioComplete t dio iocb size now reserve =>
      simp only [dioStep, kpIomapDioComplete, eventAct]
      by_cases hp : passes cfg.filter t = true
      · simp only [hp, if_true, onKey_apply]
        cases hl : s.eventCache.lookupElem iocb with
        | some v => simp
        | none =>
            by_cases hk : k = iocb
            · subst hk; simp [hl]
            · simp [hk]
      · simp [hp]

/-- An entry is only ever stored by an accepted `ext4_dio_*_iter` that finds none. -/
theorem eventAct_eq_put {cfg : DioConfig} {s : DioState} {p : DioProbe} {k : Ptr} {v : SimpleDioEvent} :
    eventAct cfg s p k = .put v ↔
      ∃ c, p.iter? = some c ∧ c.Accepted cfg ∧ c.iocb = k ∧ s.eventCache.lookupElem k = none ∧
        s.eventCache.HasRoom ∧ v = c.entry s := by
  have hiter (c : IterCall) : iterAct cfg s c k = .put v ↔ c.Accepted cfg ∧ c.iocb = k ∧
      s.eventCache.lookupElem k = none ∧ s.eventCache.HasRoom ∧ v = c.entry s := by
    unfold iterAct
    by_cases ha : c.Accepted cfg
    · rw [if_pos ha, onKey_eq_put]
      constructor
      · rintro ⟨rfl, h⟩
        split at h
        · next hn => exact ⟨ha, rfl, hn.1, hn.2, (CacheAction.put.inj h).symm⟩
        · exact absurd h (by simp)
      · rintro ⟨-, rfl, hn, hr, rfl⟩
        exact ⟨rfl, if_pos ⟨hn, hr⟩⟩
    · simp [ha]
  cases p with
  | newSyncWrite t inodeId now => simp [eventAct, DioProbe.iter?]
  | newSyncRead t inodeId now => simp [eventAct, DioProbe.iter?]
  | ext4DioWriteIter t iocb inodeId smallName now =>
      simp only [eventAct, hiter, DioProbe.iter?, Option.some.injEq, exists_eq_left']
  | ext4DioReadIter t iocb inodeId smallName now =>
      simp only [eventAct, hiter, DioProbe.iter?, Option.some.injEq, exists_eq_left']
  | iomapDioBioActor t dio iocb now =>
      simp only [eventAct, DioProbe.iter?, reduceCtorEq, false_and, exists_false, iff_false]
      split
      · rw [onKey_eq_put]; simp
      · simp
  | iomapDioComplete t dio iocb size now reserve =>
      simp only [eventAct, DioProbe.iter?, reduceCtorEq, false_and, exists_false, iff_false]
      split
      · rw [onKey_eq_put]; simp
      · simp

/-- An entry is only ever rewritten by a block actor, and in one field. -/
theorem eventAct_eq_update {cfg : DioConfig} {s : DioState} {p : DioProbe} {k : Ptr}
    {f : SimpleDioEvent → SimpleDioEvent} (h : eventAct cfg s p k = .update f) :
    ∃ t dio now, p = .iomapDioBioActor t dio k now ∧ passes cfg.filter t = true ∧
      f = fun v => { v with startBlockIo := now } := by
  have hiter (c : IterCall) : iterAct cfg s c k ≠ .update f := by
    unfold iterAct
    split
    · rw [Ne, onKey_eq_update]
      rintro ⟨-, h⟩
      split at h <;> exact absurd h (by simp)
    · simp
  cases p with
  | newSyncWrite t inodeId now => exact absurd h (by simp [eventAct])
  | newSyncRead t inodeId now => exact absurd h (by simp [eventAct])
  | ext4DioWriteIter t iocb inodeId smallName now => exact absurd h (hiter _)
  | ext4DioReadIter t iocb inodeId smallName now => exact absurd h (hiter _)
  | iomapDioBioActor t dio iocb now =>
      simp only [eventAct] at h
      split at h
      · next hp =>
        obtain ⟨rfl, h'⟩ := onKey_eq_update.mp h
        exact ⟨t, dio, now, rfl, hp, (CacheAction.update.inj h').symm⟩
      · exact absurd h (by simp)
  | iomapDioComplete t dio iocb size now reserve =>
      simp only [eventAct] at h
      split at h
      · exact absurd (onKey_eq_update.mp h).2 (by simp)
      · exact absurd h (by simp)

/-- **A record is emitted by an accepted, reserved completion, from the entry of its kiocb.** -/
theorem mem_dioStep_iff {cfg : DioConfig} {s : DioState} {p : DioProbe} {r : SimpleDioEvent} :
    r ∈ (dioStep cfg s p).2 ↔
      ∃ t dio iocb size now v, p = .iomapDioComplete t dio iocb size now true ∧ passes cfg.filter t = true ∧
        s.eventCache.lookupElem iocb = some v ∧ r = v.onComplete t size now := by
  cases p with
  | iomapDioComplete t dio iocb size now reserve =>
      simp only [dioStep, kpIomapDioComplete]
      by_cases hp : passes cfg.filter t = true
      · cases hl : s.eventCache.lookupElem iocb with
        | none => simp [hp, hl]
        | some v => cases reserve <;> simp [hp, hl]
      · simp [hp]
  | _ => simp [dioStep]

/-! ## Every program's view of `event_cache` -/

namespace DioProgram

variable {σ ε ο : Type} {cfg : DioConfig} {M : Machine σ ε ο} (P : DioProgram cfg M)

/-- The program seen through `event_cache`. -/
def eventView : CacheView M Ptr SimpleDioEvent where
  get s k := (P.state s).eventCache.lookupElem k
  act s e k :=
    match P.probe e with
    | some p => eventAct cfg (P.state s) p k
    | none => .keep
  get_init k := by rw [P.state_init]; exact BpfHash.lookupElem_empty k
  get_step s e k := by
    rw [P.state_step]
    cases P.probe e with
    | some p => exact dioStep_eventCache cfg (P.state s) p k
    | none => rfl

/-- The iter call an event is. -/
def iter? (e : ε) : Option IterCall := (P.probe e).bind DioProbe.iter?

/-- The sync call an event is. -/
def sync? (e : ε) : Option SyncCall := (P.probe e).bind DioProbe.sync?

/-- The completion an event is. -/
def completion? (e : ε) : Option Completion := (P.probe e).bind DioProbe.completion?

variable {P}

/-- An event that runs a probe does to an entry what the probe does. -/
theorem eventView_act_some {s : σ} {e : ε} {p : DioProbe} (hp : P.probe e = some p) (k : Ptr) :
    P.eventView.act s e k = eventAct cfg (P.state s) p k := by
  unfold eventView
  simp only [hp]

/-- An event that runs no probe of the simple tracer keeps every entry. -/
theorem eventView_act_none {s : σ} {e : ε} (hp : P.probe e = none) (k : Ptr) :
    P.eventView.act s e k = .keep := by
  unfold eventView
  simp only [hp]

/-- An entry is only ever stored by an accepted `ext4_dio_*_iter` that finds none. -/
theorem eventView_put {s : σ} {e : ε} {k : Ptr} {v : SimpleDioEvent} :
    P.eventView.act s e k = .put v ↔
      ∃ c, P.iter? e = some c ∧ c.Accepted cfg ∧ c.iocb = k ∧
        (P.state s).eventCache.lookupElem k = none ∧ (P.state s).eventCache.HasRoom ∧
        v = c.entry (P.state s) := by
  unfold iter?
  cases hp : P.probe e with
  | some p =>
      rw [eventView_act_some hp]
      exact eventAct_eq_put
  | none => simp [eventView_act_none hp]

/-- An entry is only ever rewritten by an accepted block actor. -/
theorem eventView_update {s : σ} {e : ε} {k : Ptr} {f : SimpleDioEvent → SimpleDioEvent}
    (h : P.eventView.act s e k = .update f) :
    ∃ t dio now, P.probe e = some (.iomapDioBioActor t dio k now) ∧ passes cfg.filter t = true ∧
      f = fun v => { v with startBlockIo := now } := by
  cases hp : P.probe e with
  | some p =>
      rw [eventView_act_some hp] at h
      obtain ⟨t, dio, now, rfl, ht, hf⟩ := eventAct_eq_update h
      exact ⟨t, dio, now, rfl, ht, hf⟩
  | none => exact absurd ((eventView_act_none hp k).symm.trans h) (by simp)

/-- The simple records an event emits. -/
theorem record_out {pre : List ε} {e : ε} {v : SimpleDioEvent} :
    (∃ r ∈ M.out pre e, P.record r = some v) ↔
      ∃ p, P.probe e = some p ∧ v ∈ (dioStep cfg (P.state (M.exec pre)) p).2 := by
  have h := P.record_step (M.exec pre) e
  have hmem : (∃ r ∈ M.out pre e, P.record r = some v) ↔ v ∈ (M.out pre e).filterMap P.record := by
    rw [List.mem_filterMap]
  rw [hmem, Machine.out, h]
  cases P.probe e with
  | some p => simp
  | none => simp

end DioProgram

end StorTrace.Ext4Dio
