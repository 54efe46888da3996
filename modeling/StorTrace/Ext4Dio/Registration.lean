import StorTrace.Ext4Dio.Program

/-!
# `Ext4Dio.Registration` — is a direct I/O reported by the `kfree` of its own `iomap_dio`?

`iomap_dio_bio_actor` registers the `iomap_dio` it is called with in `dio_filter`; `kfree` takes any
object whose first word is a traced kiocb for a direct I/O and submits its record even when the lookup in
`dio_filter` fails, with whatever the reserved slot held as its id.

The **registration** of an address after a run is the kiocb and the id its object is registered with. It
starts with a block actor that really stored an id and ends with the object's `kfree`.

Whether an object is registered cannot be told from the calls alone: the actor looks its kiocb up in
`event_cache`, and `dio_filter` may be full. What the calls tell is the **life** of an object as an `iomap_dio` of a
kiocb, from a block actor on it to its `kfree`. While the kiocb has its entry, a dio with an actor in its life that
was let in and found room is registered (`exists_registration`), and this is what decides whether every record
reports a registered object under its id (`reportsRegistered_iff_freesStored`).
-/

namespace StorTrace.Ext4Dio

open CacheAction

/-! ## What each probe does to `dio_filter` -/

/-- A call of `iomap_dio_bio_actor`. -/
structure ActorCall where
  task : Task
  dio : Ptr
  iocb : Ptr
  now : TimeStramp

/-- A call of `kfree`. -/
structure FreeCall where
  task : Task
  obj : Ptr
  iocb : Ptr
  slot : Option UInt64

def InfoProbe.actor? : InfoProbe → Option ActorCall
  | .iomapDioBioActor t dio iocb now => some ⟨t, dio, iocb, now⟩
  | _ => none

def InfoProbe.free? : InfoProbe → Option FreeCall
  | .kfree t obj iocb _ _ slot => some ⟨t, obj, iocb, slot⟩
  | _ => none

section Calls

variable (cfg : DioConfig) (s : InfoState)

/-- The actor is accepted, its kiocb is traced, and its dio's id can be stored. -/
def ActorCall.Registers (c : ActorCall) : Prop :=
  passes cfg.filter c.task = true ∧ s.dio.eventCache.lookupElem c.iocb ≠ none ∧
    (s.dioFilter.lookupElem c.dio ≠ none ∨ s.dioFilter.HasRoom)

instance (c : ActorCall) : Decidable (c.Registers cfg s) := inferInstanceAs (Decidable (_ ∧ _ ∧ (_ ∨ _)))

/-- The actor is accepted, and there is room for the id of its dio. -/
def ActorCall.Stores (c : ActorCall) : Prop :=
  passes cfg.filter c.task = true ∧ (s.dioFilter.lookupElem c.dio ≠ none ∨ s.dioFilter.HasRoom)

instance (c : ActorCall) : Decidable (c.Stores cfg s) := inferInstanceAs (Decidable (_ ∧ (_ ∨ _)))

theorem registers_iff (c : ActorCall) :
    c.Registers cfg s ↔ c.Stores cfg s ∧ s.dio.eventCache.lookupElem c.iocb ≠ none := by
  unfold ActorCall.Registers ActorCall.Stores
  tauto

/-- The `kfree` is accepted, finds a traced kiocb in the object's first word and gets its record. -/
def FreeCall.Reports (c : FreeCall) : Prop :=
  passes cfg.filter c.task = true ∧ s.dio.eventCache.lookupElem c.iocb ≠ none ∧ c.slot.isSome = true

instance (c : FreeCall) : Decidable (c.Reports cfg s) := inferInstanceAs (Decidable (_ ∧ _ ∧ _))

/-- The action of a probe on the `dio_filter` entry of address `p`. -/
def dioFilterAct (e : InfoProbe) (p : Ptr) : CacheAction UInt64 :=
  match e with
  | .iomapDioBioActor t dio iocb now =>
      if (ActorCall.mk t dio iocb now).Registers cfg s then onKey dio p (.put now) else .keep
  | .kfree t obj iocb _ _ slot =>
      if (FreeCall.mk t obj iocb slot).Reports cfg s then onKey obj p .drop else .keep
  | _ => .keep

end Calls

/-- The actor stores its reading under the dio, if its kiocb is traced and the id fits. -/
theorem lookup_kpIomapDioBioActorInfo (cfg : DioConfig) (s : InfoState) (t : Task) (dio iocb : Ptr)
    (now : TimeStramp) (p : Ptr) :
    (kpIomapDioBioActorInfo cfg s t dio iocb now).dioFilter.lookupElem p =
      (dioFilterAct cfg s (.iomapDioBioActor t dio iocb now) p).apply (s.dioFilter.lookupElem p) := by
  unfold kpIomapDioBioActorInfo dioFilterAct ActorCall.Registers
  by_cases hp : passes cfg.filter t = true
  · cases hl : s.dio.eventCache.lookupElem iocb with
    | none => simp [hp, hl]
    | some v => simp only [hp, hl, if_true, BpfHash.updateElem_any_act, true_and, ne_eq, reduceCtorEq,
        not_false_eq_true]
  · simp [hp]

/-- A `kfree` removes the id of the object only when its record could be reserved. -/
theorem lookup_kpKfree (cfg : DioConfig) (s : InfoState) (t : Task) (obj iocb : Ptr) (size : Int64)
    (now : TimeStramp) (slot : Option UInt64) (p : Ptr) :
    (kpKfree cfg s t obj iocb size now slot).1.dioFilter.lookupElem p =
      (dioFilterAct cfg s (.kfree t obj iocb size now slot) p).apply (s.dioFilter.lookupElem p) := by
  unfold kpKfree dioFilterAct FreeCall.Reports
  by_cases hp : passes cfg.filter t = true
  · cases hl : s.dio.eventCache.lookupElem iocb with
    | none => simp [hp, hl]
    | some v => cases slot <;> simp [hp, hl, onKey_apply]
  · simp [hp]

/-- **Every probe does to an address's entry what `dioFilterAct` says.** -/
theorem infoStep_dioFilter (cfg : DioConfig) (s : InfoState) (e : InfoProbe) (p : Ptr) :
    (infoStep cfg s e).1.dioFilter.lookupElem p = (dioFilterAct cfg s e p).apply (s.dioFilter.lookupElem p) := by
  cases e with
  | newSyncWrite t inodeId now => rfl
  | newSyncRead t inodeId now => rfl
  | ext4DioWriteIter t iocb inodeId smallName now => rfl
  | ext4DioReadIter t iocb inodeId smallName now => rfl
  | iomapDioBioActor t dio iocb now => exact lookup_kpIomapDioBioActorInfo cfg s t dio iocb now p
  | kfree t obj iocb size now slot => exact lookup_kpKfree cfg s t obj iocb size now slot p
  | _ =>
      rw [(infoStep_frame cfg s rfl).2]
      rfl

/-- The info tracer seen through `dio_filter`. -/
def dioFilterView (cfg : DioConfig) : CacheView (infoTracer cfg) Ptr UInt64 where
  get s p := s.dioFilter.lookupElem p
  act s e p := dioFilterAct cfg s e p
  get_init _ := BpfHash.lookupElem_empty _
  get_step := infoStep_dioFilter cfg

/-- An id is only ever stored by a block actor that registers its dio. -/
theorem dioFilterAct_eq_put {cfg : DioConfig} {s : InfoState} {e : InfoProbe} {p : Ptr} {uid : UInt64} :
    dioFilterAct cfg s e p = .put uid ↔
      ∃ c, e.actor? = some c ∧ c.Registers cfg s ∧ c.dio = p ∧ c.now = uid := by
  cases e with
  | iomapDioBioActor t dio iocb now =>
      simp only [dioFilterAct, InfoProbe.actor?, Option.some.injEq, exists_eq_left']
      split
      · next hr =>
        rw [onKey_eq_put, CacheAction.put.injEq, eq_comm (a := p)]
        simp [hr]
      · next hr => simp [hr]
  | kfree t obj iocb size now slot =>
      simp only [dioFilterAct, InfoProbe.actor?]
      split <;> simp [onKey_eq_put]
  | _ => simp [dioFilterAct, InfoProbe.actor?]

/-- Ids are never rewritten in place. -/
theorem dioFilterAct_ne_update {cfg : DioConfig} {s : InfoState} {e : InfoProbe} {p : Ptr}
    {f : UInt64 → UInt64} : dioFilterAct cfg s e p ≠ .update f := by
  cases e with
  | iomapDioBioActor t dio iocb now =>
      simp only [dioFilterAct]
      split <;> simp [onKey_eq_update]
  | kfree t obj iocb size now slot =>
      simp only [dioFilterAct]
      split <;> simp [onKey_eq_update]
  | _ => simp [dioFilterAct]

/-- An id is only ever removed by a `kfree` that reports its object. -/
theorem dioFilterAct_eq_drop {cfg : DioConfig} {s : InfoState} {e : InfoProbe} {p : Ptr} :
    dioFilterAct cfg s e p = .drop ↔ ∃ c, e.free? = some c ∧ c.Reports cfg s ∧ c.obj = p := by
  cases e with
  | iomapDioBioActor t dio iocb now =>
      simp only [dioFilterAct, InfoProbe.free?]
      split <;> simp [onKey_eq_drop]
  | kfree t obj iocb size now slot =>
      simp only [dioFilterAct, InfoProbe.free?, Option.some.injEq, exists_eq_left']
      split
      · next hr =>
        rw [onKey_eq_drop, eq_comm (a := p)]
        simp [hr]
      · next hr => simp [hr]
  | _ => simp [dioFilterAct, InfoProbe.free?]

/-- An id that is there before an event and whose object is not freed by it is there after it, unless the event
    registers its dio anew. -/
theorem lookup_dioFilter_keep {cfg : DioConfig} {pre : List InfoProbe} {e : InfoProbe} {p : Ptr} {uid : UInt64}
    (h : ((infoTracer cfg).exec pre).dioFilter.lookupElem p = some uid) (hf : ∀ c ∈ e.free?, c.obj ≠ p)
    (ha : ∀ c ∈ e.actor?, c.Registers cfg ((infoTracer cfg).exec pre) → c.dio = p → c.now = uid) :
    ((infoTracer cfg).exec (pre ++ [e])).dioFilter.lookupElem p = some uid := by
  have hstep := (dioFilterView cfg).get_exec_concat pre e p
  show (dioFilterView cfg).get _ p = some uid
  rw [hstep]
  cases hact : (dioFilterView cfg).act ((infoTracer cfg).exec pre) e p with
  | keep => exact h
  | update f => exact absurd hact dioFilterAct_ne_update
  | put v =>
      obtain ⟨c, hc, hr, hd, rfl⟩ := dioFilterAct_eq_put.mp hact
      rw [apply_put, ha c hc hr hd]
  | drop =>
      obtain ⟨c, hc, -, hobj⟩ := dioFilterAct_eq_drop.mp hact
      exact absurd hobj (hf c hc)

/-- **The direct-I/O records of a step**: one for a `kfree` that reports, with the freed object's id or, if
    it has none, what the slot held. -/
theorem dioInfo_of_step {cfg : DioConfig} {s : InfoState} {e : InfoProbe} {log : DioInfoEvent}
    (h : log ∈ (infoStep cfg s e).2.filterMap InfoRecord.dioInfo?) :
    ∃ c, e.free? = some c ∧ c.Reports cfg s ∧ some log.dioUid = (s.dioFilter.lookupElem c.obj).or c.slot := by
  obtain ⟨r, hr, hlog⟩ := List.mem_filterMap.mp h
  cases mem_infoStep_iff.mp hr with
  | @dioInfo t obj iocb size now uninit v hp hv =>
      obtain rfl := Option.some.inj hlog
      refine ⟨⟨t, obj, iocb, some uninit⟩, rfl, ⟨hp, by simp [hv], rfl⟩, ?_⟩
      cases s.dioFilter.lookupElem obj <;> rfl
  | _ => exact absurd hlog (by simp [InfoRecord.dioInfo?])

/-- A `kfree` that reports does send a record. -/
theorem exists_dioInfo {cfg : DioConfig} {s : InfoState} {e : InfoProbe} {c : FreeCall}
    (hc : e.free? = some c) (h : c.Reports cfg s) :
    ∃ log, log ∈ (infoStep cfg s e).2.filterMap InfoRecord.dioInfo? := by
  cases e with
  | kfree t obj iocb size now slot =>
      obtain rfl := Option.some.inj hc
      obtain ⟨hp, hl, hs⟩ := h
      obtain ⟨v, hv⟩ := Option.ne_none_iff_exists'.mp hl
      obtain ⟨uninit, rfl⟩ := Option.isSome_iff_exists.mp hs
      have hsent : InfoRecord.dioInfo
          ⟨(s.dioFilter.lookupElem obj).getD uninit, v.onComplete t size now⟩ ∈
            (infoStep cfg s (.kfree t obj iocb size now (some uninit))).2 :=
        mem_infoStep_iff.mpr (.dioInfo hp hv)
      exact ⟨_, List.mem_filterMap.mpr ⟨_, hsent, rfl⟩⟩
  | _ => exact absurd hc (by simp [InfoProbe.free?])

/-! ## The registration of an address -/

/-- What an event does to the registration of the object at `p`: an actor that registers it sets the kiocb
    and the id, and its `kfree` ends it. -/
def dioTouch (cfg : DioConfig) (p : Ptr) (pre : List InfoProbe) (e : InfoProbe) :
    Option (Option (Ptr × UInt64)) :=
  match e with
  | .iomapDioBioActor t dio iocb now =>
      if dio = p ∧ (ActorCall.mk t dio iocb now).Registers cfg ((infoTracer cfg).exec pre) then
        some (some (iocb, now))
      else none
  | .kfree _ obj _ _ _ _ => if obj = p then some none else none
  | _ => none

/-- **The registration of the object at `p`**: its kiocb and its id. -/
def registration (cfg : DioConfig) (pre : List InfoProbe) (p : Ptr) : Option (Ptr × UInt64) :=
  (Run.latest (dioTouch cfg p) pre).join

/-- One more event touches the registration, or leaves it as it is. -/
theorem registration_concat (cfg : DioConfig) (pre : List InfoProbe) (e : InfoProbe) (p : Ptr) :
    registration cfg (pre ++ [e]) p = (dioTouch cfg p pre e).getD (registration cfg pre p) := by
  unfold registration
  rw [Run.latest_concat]
  cases dioTouch cfg p pre e <;> rfl

/-- The registration after one more event: a new one, or the one before if the event leaves it alone. -/
theorem registration_concat_eq_some {cfg : DioConfig} {pre : List InfoProbe} {e : InfoProbe} {p : Ptr}
    {r : Ptr × UInt64} :
    registration cfg (pre ++ [e]) p = some r ↔
      dioTouch cfg p pre e = some (some r) ∨ dioTouch cfg p pre e = none ∧ registration cfg pre p = some r := by
  rw [registration_concat]
  cases dioTouch cfg p pre e with
  | none => simp
  | some t => simp

/-- A registration begins with an actor that registers the object. -/
theorem dioTouch_eq_some {cfg : DioConfig} {pre : List InfoProbe} {e : InfoProbe} {p k : Ptr} {uid : UInt64} :
    dioTouch cfg p pre e = some (some (k, uid)) ↔
      ∃ a, e.actor? = some a ∧ a.dio = p ∧ a.iocb = k ∧ a.now = uid ∧ a.Registers cfg ((infoTracer cfg).exec pre) := by
  cases e with
  | iomapDioBioActor t dio iocb now =>
      simp only [dioTouch, InfoProbe.actor?, Option.some.injEq, exists_eq_left']
      split
      · next h =>
        obtain ⟨rfl, hr⟩ := h
        simp [hr]
      · next h =>
        refine iff_of_false (by simp) ?_
        rintro ⟨hd, -, -, hr⟩
        exact h ⟨hd, hr⟩
  | kfree t obj iocb size now slot =>
      simp only [dioTouch, InfoProbe.actor?]
      split <;> simp
  | _ => simp [dioTouch, InfoProbe.actor?]

/-- What leaves a registration alone. -/
theorem dioTouch_eq_none {cfg : DioConfig} {pre : List InfoProbe} {e : InfoProbe} {p : Ptr} :
    dioTouch cfg p pre e = none ↔
      (∀ a ∈ e.actor?, a.dio = p → ¬ a.Registers cfg ((infoTracer cfg).exec pre)) ∧ ∀ c ∈ e.free?, c.obj ≠ p := by
  cases e with
  | iomapDioBioActor t dio iocb now => simp [dioTouch, InfoProbe.actor?, InfoProbe.free?]
  | kfree t obj iocb size now slot => simp [dioTouch, InfoProbe.actor?, InfoProbe.free?]
  | _ => simp [dioTouch, InfoProbe.actor?, InfoProbe.free?]

/-- **A registered object has its id in `dio_filter`.** -/
theorem lookup_of_registration {cfg : DioConfig} {pre : List InfoProbe} {p iocb : Ptr} {uid : UInt64}
    (h : registration cfg pre p = some (iocb, uid)) :
    ((infoTracer cfg).exec pre).dioFilter.lookupElem p = some uid := by
  induction pre using List.reverseRecOn with
  | nil => exact absurd h (by simp [registration])
  | append_singleton pre e ih =>
      rcases registration_concat_eq_some.mp h with hnew | ⟨hnone, hold⟩
      · -- an id is stored
        obtain ⟨a, ha, rfl, -, rfl, hr⟩ := dioTouch_eq_some.mp hnew
        have hput := dioFilterAct_eq_put.mpr ⟨a, ha, hr, rfl, rfl⟩
        rw [Machine.exec_concat]
        show (infoStep cfg _ e).1.dioFilter.lookupElem a.dio = some a.now
        rw [infoStep_dioFilter, hput, apply_put]
      · obtain ⟨hactor, hfree⟩ := dioTouch_eq_none.mp hnone
        apply lookup_dioFilter_keep (ih hold) hfree
        intro a ha hr hdio
        exact absurd hr (hactor a ha hdio)

/-! ## The life of a dio -/

/-- The kiocb that a direct I/O starts on. -/
def InfoProbe.start? (e : InfoProbe) : Option Ptr := (e.dio.bind DioProbe.iter?).map IterCall.iocb

/-- What an event does to the life of the object at `p` as an `iomap_dio` of kiocb `k`: an actor on the two begins it,
    if it `counts`; an actor on the object for another kiocb, its `kfree` and a new start of the kiocb end it. -/
def lifeTouch (counts : ActorCall → Bool) (p k : Ptr) (e : InfoProbe) : Option Bool :=
  match e with
  | .iomapDioBioActor t dio iocb now =>
      if dio = p then
        if iocb = k then if counts ⟨t, dio, iocb, now⟩ then some true else none
        else some false
      else none
  | .kfree _ obj _ _ _ _ => if obj = p then some false else none
  | e => if e.start? = some k then some false else none

/-- **The object at `p` is a live `iomap_dio` of kiocb `k`**, as far as the calls tell. -/
def LiveDio (pre : List InfoProbe) (p k : Ptr) : Prop :=
  Run.latest (fun _ => lifeTouch (fun _ => true) p k) pre = some true

/-- It is one, and an actor in its life was accepted and found room. -/
def StoredDio (cfg : DioConfig) (pre : List InfoProbe) (p k : Ptr) : Prop :=
  Run.latest (fun pre => lifeTouch (fun c => c.Stores cfg ((infoTracer cfg).exec pre)) p k) pre = some true

/-- A kiocb with an entry in `event_cache`. -/
def Traced (cfg : DioConfig) (pre : List InfoProbe) (k : Ptr) : Prop :=
  ((infoTracer cfg).exec pre).dio.eventCache.lookupElem k ≠ none

instance (pre : List InfoProbe) (p k : Ptr) : Decidable (LiveDio pre p k) := inferInstanceAs (Decidable (_ = _))

instance (cfg : DioConfig) (pre : List InfoProbe) (p k : Ptr) : Decidable (StoredDio cfg pre p k) :=
  inferInstanceAs (Decidable (_ = _))

instance (cfg : DioConfig) (pre : List InfoProbe) (k : Ptr) : Decidable (Traced cfg pre k) :=
  inferInstanceAs (Decidable (_ ≠ _))

section Life

variable {cfg : DioConfig} {counts : ActorCall → Bool} {pre : List InfoProbe} {e : InfoProbe} {p k : Ptr}

/-- A life begins with an actor that counts. -/
theorem lifeTouch_eq_true :
    lifeTouch counts p k e = some true ↔ ∃ a, e.actor? = some a ∧ a.dio = p ∧ a.iocb = k ∧ counts a = true := by
  cases e with
  | iomapDioBioActor t dio iocb now =>
      simp only [lifeTouch, InfoProbe.actor?, Option.some.injEq, exists_eq_left']
      by_cases hd : dio = p
      · by_cases hi : iocb = k <;> simp [hd, hi]
      · simp [hd]
  | kfree t obj iocb size now slot => simp [lifeTouch, InfoProbe.actor?]
  | _ => simp [lifeTouch, InfoProbe.actor?]

/-- What leaves a life alone. -/
theorem lifeTouch_eq_none :
    lifeTouch counts p k e = none ↔
      (∀ a ∈ e.actor?, a.dio = p → a.iocb = k ∧ counts a = false) ∧ (∀ c ∈ e.free?, c.obj ≠ p) ∧
        e.start? ≠ some k := by
  cases e with
  | iomapDioBioActor t dio iocb now =>
      have hstart : (InfoProbe.iomapDioBioActor t dio iocb now).start? = none := rfl
      rw [hstart]
      simp only [lifeTouch, InfoProbe.actor?, InfoProbe.free?]
      by_cases hd : dio = p
      · by_cases hi : iocb = k <;> simp [hd, hi]
      · simp [hd]
  | kfree t obj iocb size now slot =>
      have hstart : (InfoProbe.kfree t obj iocb size now slot).start? = none := rfl
      rw [hstart]
      simp [lifeTouch, InfoProbe.actor?, InfoProbe.free?]
  | _ => simp [lifeTouch, InfoProbe.actor?, InfoProbe.free?]

/-- Only a start traces a kiocb. -/
theorem Traced.of_concat (h : Traced cfg (pre ++ [e]) k) (hstart : e.start? ≠ some k) : Traced cfg pre k := by
  obtain ⟨v, hv⟩ := Option.ne_none_iff_exists'.mp h
  rcases CacheView.act_of_get_concat (V := (infoProgram cfg).eventView) hv with hput | ⟨-, hold⟩ | ⟨_, u, -, hold, -⟩
  · obtain ⟨c, hc, -, rfl, -⟩ := DioProgram.eventView_put.mp hput
    exact absurd (congrArg (Option.map IterCall.iocb) hc) hstart
  · exact fun hnone => Option.some_ne_none v (hold.symm.trans hnone)
  · exact fun hnone => Option.some_ne_none u (hold.symm.trans hnone)

/-- An actor is neither a start nor a `kfree`. -/
theorem start_free_of_actor {a : ActorCall} (ha : e.actor? = some a) : e.start? = none ∧ e.free? = none := by
  cases e with
  | iomapDioBioActor t dio iocb now => exact ⟨rfl, rfl⟩
  | _ => exact absurd ha (by simp [InfoProbe.actor?])

/-- A live dio has had an actor for its kiocb. -/
theorem LiveDio.exists_actor (h : LiveDio pre p k) : ∃ a ∈ pre.filterMap InfoProbe.actor?, a.dio = p ∧ a.iocb = k := by
  obtain ⟨before, e, after, rfl, htouch⟩ := Run.exists_of_latest h
  obtain ⟨a, ha, hdio, hiocb, -⟩ := lifeTouch_eq_true.mp htouch
  exact ⟨a, List.mem_filterMap.mpr ⟨e, by simp, ha⟩, hdio, hiocb⟩

/-- **A dio that was let in is registered for its kiocb**, as long as the kiocb has its entry. -/
theorem exists_registration (h : StoredDio cfg pre p k) (htraced : Traced cfg pre k) :
    ∃ uid, registration cfg pre p = some (k, uid) := by
  induction pre using List.reverseRecOn with
  | nil => exact absurd h (by simp [StoredDio])
  | append_singleton pre e ih =>
      rw [StoredDio, Run.latest_concat_eq_some] at h
      rcases h with htrue | ⟨hnone, hold⟩
      · -- an actor that stores the id, and the entry is older than it
        obtain ⟨a, ha, rfl, rfl, hstores⟩ := lifeTouch_eq_true.mp htrue
        have hpre : Traced cfg pre a.iocb := htraced.of_concat (by simp [(start_free_of_actor ha).1])
        have hregisters := (registers_iff cfg _ a).mpr ⟨of_decide_eq_true hstores, hpre⟩
        exact ⟨a.now, registration_concat_eq_some.mpr (Or.inl (dioTouch_eq_some.mpr ⟨a, ha, rfl, rfl, rfl, hregisters⟩))⟩
      · -- nothing that ends the life; an actor on the dio is one that could not store the id
        obtain ⟨hactor, hfree, hstart⟩ := lifeTouch_eq_none.mp hnone
        obtain ⟨uid, hreg⟩ := ih hold (htraced.of_concat hstart)
        refine ⟨uid, registration_concat_eq_some.mpr (Or.inr ⟨dioTouch_eq_none.mpr ⟨?_, hfree⟩, hreg⟩)⟩
        intro a ha hdio hregisters
        exact absurd ((registers_iff cfg _ a).mp hregisters).1 (of_decide_eq_false (hactor a ha hdio).2)

end Life

/-! ## Records of registered objects -/

section Reports

variable (cfg : DioConfig) (pre : List InfoProbe) (e : InfoProbe)

/-- **Only registered dios are reported**: a direct-I/O record is triggered by freeing an object that is
    registered for the kiocb in its first word, under the id in the record. -/
def ReportsRegistered : Prop :=
  ∀ log ∈ ((infoTracer cfg).out pre e).filterMap InfoRecord.dioInfo?,
    ∃ c ∈ e.free?, registration cfg pre c.obj = some (c.iocb, log.dioUid)

/-- Only a dio carries its kiocb: what a `kfree` that reports frees is a live dio of the kiocb. -/
def FreesLive : Prop :=
  ∀ c ∈ e.free?, c.Reports cfg ((infoTracer cfg).exec pre) → LiveDio pre c.obj c.iocb

/-- The first actor on a dio of a traced kiocb is accepted and finds room. -/
def ActorsStore : Prop :=
  ∀ a ∈ e.actor?, Traced cfg pre a.iocb → ¬ LiveDio pre a.dio a.iocb → a.Stores cfg ((infoTracer cfg).exec pre)

/-- What a `kfree` that reports frees is a live dio of the kiocb, and an actor in its life was accepted and found
    room. -/
def FreesStored : Prop :=
  ∀ c ∈ e.free?, c.Reports cfg ((infoTracer cfg).exec pre) → StoredDio cfg pre c.obj c.iocb

/-- A live dio serves its kiocb only, and a direct I/O starts on a kiocb that has none. -/
structure DiosApart (pre : List InfoProbe) (e : InfoProbe) : Prop where
  actor : ∀ a ∈ e.actor?, ∀ k, LiveDio pre a.dio k → a.iocb = k
  start : ∀ k ∈ e.start?, ∀ p, ¬ LiveDio pre p k

instance : Decidable (ReportsRegistered cfg pre e) :=
  inferInstanceAs (Decidable (∀ log ∈ ((infoTracer cfg).out pre e).filterMap InfoRecord.dioInfo?,
    ∃ c ∈ e.free?, _ = _))

instance : Decidable (FreesLive cfg pre e) := inferInstanceAs (Decidable (∀ c ∈ e.free?, _ → _))

instance : Decidable (ActorsStore cfg pre e) := inferInstanceAs (Decidable (∀ a ∈ e.actor?, _ → ¬ _ → _))

instance : Decidable (FreesStored cfg pre e) := inferInstanceAs (Decidable (∀ c ∈ e.free?, _ → _))

variable {cfg pre e}

/-- One step: the id of a registered object is the one in the record. -/
theorem reportsRegistered_iff :
    ReportsRegistered cfg pre e ↔
      ∀ c ∈ e.free?, c.Reports cfg ((infoTracer cfg).exec pre) →
        ∃ uid, registration cfg pre c.obj = some (c.iocb, uid) := by
  constructor
  · intro h c hc hrep
    obtain ⟨log, hlog⟩ := exists_dioInfo hc hrep
    obtain ⟨c', hc', hreg⟩ := h log hlog
    obtain rfl : c = c' := Option.some.inj (hc.symm.trans hc')
    exact ⟨log.dioUid, hreg⟩
  · intro h log hlog
    obtain ⟨c, hc, hrep, huid⟩ := dioInfo_of_step hlog
    obtain ⟨uid, hreg⟩ := h c hc hrep
    refine ⟨c, hc, ?_⟩
    rw [lookup_of_registration hreg] at huid
    rw [hreg, Option.some.inj huid]

/-- A dio whose life began with an actor that stores was let in. -/
theorem StoredDio.of_live {p k : Ptr} (hactors : Run.AllSteps (ActorsStore cfg) pre) (h : LiveDio pre p k)
    (htraced : Traced cfg pre k) : StoredDio cfg pre p k := by
  induction pre using List.reverseRecOn with
  | nil => exact absurd h (by simp [LiveDio])
  | append_singleton pre e ih =>
      obtain ⟨hactors, hactor⟩ := Run.allSteps_concat.mp hactors
      rw [LiveDio, Run.latest_concat_eq_some] at h
      rw [StoredDio, Run.latest_concat_eq_some]
      rcases h with htrue | ⟨hnone, hold⟩
      · obtain ⟨a, ha, rfl, rfl, -⟩ := lifeTouch_eq_true.mp htrue
        have hpre : Traced cfg pre a.iocb := htraced.of_concat (by simp [(start_free_of_actor ha).1])
        by_cases hstores : a.Stores cfg ((infoTracer cfg).exec pre)
        · exact Or.inl (lifeTouch_eq_true.mpr ⟨a, ha, rfl, rfl, decide_eq_true hstores⟩)
        · -- a later actor of a life, whose first one stored
          have hlive : LiveDio pre a.dio a.iocb := by
            by_contra hnew
            exact hstores (hactor a ha hpre hnew)
          refine Or.inr ⟨lifeTouch_eq_none.mpr ⟨?_, ?_, by simp [(start_free_of_actor ha).1]⟩, ih hactors hlive hpre⟩
          · intro a' ha' _
            obtain rfl : a = a' := Option.some.inj (ha.symm.trans ha')
            exact ⟨rfl, decide_eq_false hstores⟩
          · intro c hc
            rw [(start_free_of_actor ha).2] at hc
            cases hc
      · obtain ⟨hactor', hfree, hstart⟩ := lifeTouch_eq_none.mp hnone
        refine Or.inr ⟨lifeTouch_eq_none.mpr ⟨?_, hfree, hstart⟩, ih hactors hold (htraced.of_concat hstart)⟩
        intro a ha hdio
        exact absurd (hactor' a ha hdio).2 (by simp)

/-- **A registered object is a dio that was let in**, where dios are kept apart. -/
theorem StoredDio.of_registration {p k : Ptr} {uid : UInt64} (hapart : Run.AllSteps DiosApart pre)
    (h : registration cfg pre p = some (k, uid)) : StoredDio cfg pre p k ∧ LiveDio pre p k := by
  induction pre using List.reverseRecOn generalizing uid with
  | nil => exact absurd h (by simp [registration])
  | append_singleton pre e ih =>
      obtain ⟨hapart, hstep⟩ := Run.allSteps_concat.mp hapart
      rw [StoredDio, LiveDio, Run.latest_concat_eq_some, Run.latest_concat_eq_some]
      rcases registration_concat_eq_some.mp h with hnew | ⟨hnone, hold⟩
      · obtain ⟨a, ha, rfl, rfl, -, hregisters⟩ := dioTouch_eq_some.mp hnew
        have hstores := ((registers_iff cfg _ a).mp hregisters).1
        exact ⟨Or.inl (lifeTouch_eq_true.mpr ⟨a, ha, rfl, rfl, decide_eq_true hstores⟩),
          Or.inl (lifeTouch_eq_true.mpr ⟨a, ha, rfl, rfl, rfl⟩)⟩
      · obtain ⟨hstored, hlive⟩ := ih hapart hold
        have hfree := (dioTouch_eq_none.mp hnone).2
        have hstart : e.start? ≠ some k := fun hs => hstep.start k hs p hlive
        -- an actor on the object is one for its kiocb, which goes on with both lives
        have hgoes : ∀ (counts : ActorCall → Bool),
            lifeTouch counts p k e = some true ∨ lifeTouch counts p k e = none := by
          intro counts
          by_cases hcounts : ∃ a, e.actor? = some a ∧ a.dio = p ∧ a.iocb = k ∧ counts a = true
          · exact Or.inl (lifeTouch_eq_true.mpr hcounts)
          · refine Or.inr (lifeTouch_eq_none.mpr ⟨?_, hfree, hstart⟩)
            rintro a ha rfl
            have hiocb : a.iocb = k := hstep.actor a ha k hlive
            exact ⟨hiocb, Bool.eq_false_iff.mpr (fun hc => hcounts ⟨a, ha, rfl, hiocb, hc⟩)⟩
        exact ⟨(hgoes _).imp id (fun hn => ⟨hn, hstored⟩), (hgoes _).imp id (fun hn => ⟨hn, hlive⟩)⟩

end Reports

/-- **When a run reports registered dios only, with their ids.** It does if every `kfree` that reports frees a dio of
    the kiocb that was let in; so it does if only live dios carry a traced kiocb and the first actor on each of them
    is accepted and finds room. Where dios are kept apart, there is no other way. -/
theorem reportsRegistered_iff_freesStored (cfg : DioConfig) (evs : List InfoProbe) :
    (Run.AllSteps (FreesStored cfg) evs → Run.AllSteps (ReportsRegistered cfg) evs) ∧
      (Run.AllSteps (ActorsStore cfg) evs → Run.AllSteps (FreesLive cfg) evs →
        Run.AllSteps (ReportsRegistered cfg) evs) ∧
      (Run.AllSteps DiosApart evs → Run.AllSteps (ReportsRegistered cfg) evs → Run.AllSteps (FreesStored cfg) evs) := by
  have hstored : Run.AllSteps (FreesStored cfg) evs → Run.AllSteps (ReportsRegistered cfg) evs := by
    intro h
    refine h.imp (fun pre e _ _ hstep => reportsRegistered_iff.mpr ?_)
    intro c hc hrep
    exact exists_registration (hstep c hc hrep) hrep.2.1
  refine ⟨hstored, ?_, ?_⟩
  · intro hactors hlive
    refine hstored (hlive.imp (fun pre e post hs hstep => ?_))
    intro c hc hrep
    rw [hs] at hactors
    exact .of_live hactors.prefix (hstep c hc hrep) hrep.2.1
  · intro hapart hreports
    apply hreports.imp
    intro pre e post hs hstep c hc hrep
    obtain ⟨uid, hreg⟩ := reportsRegistered_iff.mp hstep c hc hrep
    rw [hs] at hapart
    exact (StoredDio.of_registration hapart.prefix hreg).1

/-- A read on kiocb `1` has started. -/
def readStart : List InfoProbe :=
  [.newSyncRead ⟨7, 7, 1, none⟩ 100 10, .ext4DioReadIter ⟨7, 7, 1, none⟩ 1 100 (CharArray.zero 16) 20]

/-- It reads two extents with the `iomap_dio` at `5`; an object that carries no traced kiocb is freed meanwhile. -/
def readTwoExtents : List InfoProbe :=
  readStart ++ [.iomapDioBioActor ⟨7, 7, 1, none⟩ 5 1 30, .kfree ⟨8, 8, 1, none⟩ 6 2 0 35 (some 77),
    .iomapDioBioActor ⟨7, 7, 1, none⟩ 5 1 40, .kfree ⟨7, 7, 1, none⟩ 5 1 512 50 (some 77)]

/-- The read is reported, under the reading of its last actor. -/
theorem reportsRegistered_iff_freesStored_read :
    Run.AllSteps (ActorsStore .off) readTwoExtents ∧ Run.AllSteps (FreesLive .off) readTwoExtents ∧
      Run.AllSteps DiosApart readTwoExtents ∧ Run.AllSteps (ReportsRegistered .off) readTwoExtents ∧
      Run.AllSteps (FreesStored .off) readTwoExtents ∧
      ((infoTracer .off).emit readTwoExtents).filterMap InfoRecord.dioInfo? ≠ [] := by
  obtain ⟨-, hcalls, hback⟩ := reportsRegistered_iff_freesStored .off readTwoExtents
  have hactors : Run.AllSteps (ActorsStore .off) readTwoExtents := by decide
  have hlive : Run.AllSteps (FreesLive .off) readTwoExtents := by decide
  have hapart : Run.AllSteps DiosApart readTwoExtents := by
    have hquiet : ∀ (pre : List InfoProbe) (e : InfoProbe), e.actor? = none → e.start? = none → DiosApart pre e :=
      fun pre e ha hs => ⟨by simp [ha], by simp [hs]⟩
    refine ⟨hquiet _ _ rfl rfl, ⟨nofun, ?_⟩, ⟨?_, nofun⟩, hquiet _ _ rfl rfl, ⟨?_, nofun⟩, hquiet _ _ rfl rfl, trivial⟩
    · intro k _ p h
      obtain ⟨a, ha, -⟩ := h.exists_actor
      cases ha
    · intro a _ k h
      obtain ⟨b, hb, -⟩ := h.exists_actor
      cases hb
    · intro a ha k h
      obtain rfl := Option.some.inj ha
      obtain ⟨b, hb, -, rfl⟩ := h.exists_actor
      obtain rfl := List.mem_singleton.mp hb
      rfl
  exact ⟨hactors, hlive, hapart, hcalls hactors hlive, hback hapart (hcalls hactors hlive), by decide⟩

/-! ## A foreign object and a hole -/

/-- While the read is in flight, another object whose first word happens to be the kiocb is freed; it is
    reported as the read, under the id `77` that its slot held. A read of a hole, which never reaches the
    block layer, is reported under such an id too. -/
theorem not_reportsRegistered_foreign :
    ¬ Run.AllSteps (ReportsRegistered .off)
        (readStart ++ [.iomapDioBioActor ⟨7, 7, 1, none⟩ 5 1 30, .kfree ⟨8, 8, 1, none⟩ 6 1 0 40 (some 77)]) ∧
      ¬ Run.AllSteps (ReportsRegistered .off) (readStart ++ [.kfree ⟨7, 7, 1, none⟩ 5 1 512 40 (some 77)]) := by
  decide

end StorTrace.Ext4Dio
