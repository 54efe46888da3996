import StorTrace.Ext4Dio.Registration
import StorTrace.Ext4Dio.Report

/-!
# `Ext4Dio.Join` — are requests joined to the direct I/O they belong to?

An `iomap_dio` is told from later objects at its address by the number of objects freed there before it
(`DioId`). A request belongs to the `iomap_dio` in its bio's `bi_private` when it is tracked; the record of
a direct I/O belongs to the object whose `kfree` sent it.

The tracer joins the two by the id, the clock reading of the **last** block actor at the `kfree` and of the
last one **so far** at the track. `joinsExactly_of_attributable` gives the conditions on the steps of a run
under which equal ids mean the same `iomap_dio`: no other direct I/O has an id that is being registered, no
later extent changes the id of one that already has requests, every registered dio and nothing else is
reported by its `kfree`, and a request the filters reject has no old entry.
-/

namespace StorTrace.Ext4Dio

open CacheAction

/-! ## Direct I/Os and the requests they own -/

/-- An `iomap_dio`: its address, and how many objects at that address were freed before. -/
structure DioId where
  addr : Ptr
  life : Nat
deriving DecidableEq

/-- A call of `__rq_qos_track`. -/
structure TrackCall where
  task : Task
  rq : Ptr
  biPrivate : Ptr

def InfoProbe.track? : InfoProbe → Option TrackCall
  | .rqQosTrack t rq biPrivate _ => some ⟨t, rq, biPrivate⟩
  | _ => none

/-- The number of objects at `p` freed in a run. -/
def life (pre : List InfoProbe) (p : Ptr) : Nat := pre.countP (fun e => e.free?.any (fun c => c.obj = p))

/-- The object at `p` after a run. -/
def dioAt (pre : List InfoProbe) (p : Ptr) : DioId := ⟨p, life pre p⟩

/-- What a track of request `rq` makes its owner: the object its bio's `bi_private` points to. -/
def trackTouch (rq : Ptr) (pre : List InfoProbe) (e : InfoProbe) : Option DioId :=
  (e.track?.filter (fun c => c.rq = rq)).map (fun c => dioAt pre c.biPrivate)

/-- The owner of the request at `rq`. -/
def ownerOf (pre : List InfoProbe) (rq : Ptr) : Option DioId := Run.latest (trackTouch rq) pre

section Records

variable (cfg : DioConfig)

/-- The direct-I/O records an event sends, with the object it frees. -/
def diosAt (pre : List InfoProbe) (e : InfoProbe) : List (DioId × DioInfoEvent) :=
  match e.free? with
  | some c => (((infoTracer cfg).out pre e).filterMap InfoRecord.dioInfo?).map (fun log => (dioAt pre c.obj, log))
  | none => []

/-- **The direct-I/O records of a run, each with its direct I/O.** -/
def dios (evs : List InfoProbe) : List (DioId × DioInfoEvent) := Run.collect (diosAt cfg) evs

/-- The request records an event sends, with the owner of the request it completes. -/
def requestsAt (pre : List InfoProbe) (e : InfoProbe) : List (Option DioId × RqInfoEvent) :=
  match e.done? with
  | some d => (((infoTracer cfg).out pre e).filterMap InfoRecord.rqInfo?).map (fun log => (ownerOf pre d.rq, log))
  | none => []

/-- **The request records of a run, each with the direct I/O that owns the request.** -/
def requests (evs : List InfoProbe) : List (Option DioId × RqInfoEvent) := Run.collect (requestsAt cfg) evs

/-- The id a track gives its request. -/
def tracksAt (pre : List InfoProbe) (e : InfoProbe) : List (DioId × UInt64) :=
  match e.track? with
  | some c =>
      if passes cfg.filter c.task then
        (((infoTracer cfg).exec pre).dioFilter.lookupElem c.biPrivate).toList.map
          (fun uid => (dioAt pre c.biPrivate, uid))
      else []
  | none => []

/-- The ids given to requests in a run, each with the direct I/O that owns the request. -/
def tracked (evs : List InfoProbe) : List (DioId × UInt64) := Run.collect (tracksAt cfg) evs

/-- **Requests are joined to exactly the direct I/O they belong to**: the record of a request carries the
    id of a direct-I/O record if and only if that direct I/O owns it, and those are the pairs the
    post-processor computes. -/
def JoinsExactly (evs : List InfoProbe) : Prop :=
  (∀ d ∈ dios cfg evs, ∀ r ∈ requests cfg evs, d.2.dioUid = r.2.dioUid ↔ r.1 = some d.1) ∧
    ∀ (pmcInv : UInt64) (heatmapRow : Int) (m : Info.InfoModule),
      Info.deliver (.new pmcInv heatmapRow) ((infoTracer cfg).emit evs) = .ok m →
      ∀ i j, (i, j) ∈ m.joinDioPtr ↔
        ∃ d r, (dios cfg evs)[i]? = some d ∧ (requests cfg evs)[j]? = some r ∧ r.1 = some d.1

/-! ## The conditions -/

/-- The reading of a registration is the id of no other registered dio and of no reported one, and the
    requests that carry it already are exactly those of the dio it registers. -/
def FreshId (pre : List InfoProbe) (c : ActorCall) : Prop :=
  (∀ p, ((infoTracer cfg).exec pre).dioFilter.lookupElem p = some c.now → p = c.dio) ∧
    (∀ d ∈ dios cfg pre, d.2.dioUid ≠ c.now) ∧
    ∀ x ∈ tracked cfg pre, x.2 = c.now ↔ x.1 = dioAt pre c.dio

/-- The conditions on one step. -/
structure Attributable (pre : List InfoProbe) (e : InfoProbe) : Prop where
  freshId : ∀ c ∈ e.actor?, c.Registers cfg ((infoTracer cfg).exec pre) → FreshId cfg pre c
  reports : ∀ c ∈ e.free?, c.Reports cfg ((infoTracer cfg).exec pre) ↔
    ((infoTracer cfg).exec pre).dioFilter.lookupElem c.obj ≠ none
  rejected : ∀ c ∈ e.track?, passes cfg.filter c.task = false →
    ((infoTracer cfg).exec pre).rqCache.lookupElem c.rq = none

/-- Only the addresses in the map have to be looked at. -/
instance (m : BpfHash Ptr UInt64 256) (uid : UInt64) (q : Ptr) :
    Decidable (∀ p, m.lookupElem p = some uid → p = q) :=
  decidable_of_iff (m.entries.keys.all (fun p => m.lookupElem p = some uid → p = q) = true) (by
    simp only [List.all_eq_true, decide_eq_true_eq]
    exact ⟨fun h p hp => h p (AList.mem_keys.mp (BpfHash.mem_of_lookupElem hp)) hp, fun h p _ => h p⟩)

instance (pre : List InfoProbe) (c : ActorCall) : Decidable (FreshId cfg pre c) :=
  inferInstanceAs (Decidable (_ ∧ _ ∧ _))

instance (pre : List InfoProbe) (e : InfoProbe) : Decidable (Attributable cfg pre e) :=
  decidable_of_iff
    ((∀ c ∈ e.actor?, c.Registers cfg ((infoTracer cfg).exec pre) → FreshId cfg pre c) ∧
      (∀ c ∈ e.free?, c.Reports cfg ((infoTracer cfg).exec pre) ↔
        ((infoTracer cfg).exec pre).dioFilter.lookupElem c.obj ≠ none) ∧
      ∀ c ∈ e.track?, passes cfg.filter c.task = false →
        ((infoTracer cfg).exec pre).rqCache.lookupElem c.rq = none)
    ⟨fun h => ⟨h.1, h.2.1, h.2.2⟩, fun h => ⟨h.freshId, h.reports, h.rejected⟩⟩

end Records

/-! ## One step -/

section Step

variable {cfg : DioConfig} {pre : List InfoProbe} {e : InfoProbe}

theorem life_concat (pre : List InfoProbe) (e : InfoProbe) (p : Ptr) :
    life (pre ++ [e]) p = life pre p + if e.free?.any (fun c => c.obj = p) then 1 else 0 := by
  rw [life, List.countP_append, List.countP_singleton]
  rfl

theorem life_of_not_free {p : Ptr} (h : ∀ c ∈ e.free?, c.obj ≠ p) : life (pre ++ [e]) p = life pre p := by
  rw [life_concat]
  cases hf : e.free? with
  | none => rfl
  | some c => simp [h c hf]

theorem life_le (pre : List InfoProbe) (e : InfoProbe) (p : Ptr) : life pre p ≤ life (pre ++ [e]) p := by
  rw [life_concat]
  exact Nat.le_add_right _ _

theorem ownerOf_concat (pre : List InfoProbe) (e : InfoProbe) (rq : Ptr) :
    ownerOf (pre ++ [e]) rq = (trackTouch rq pre e).or (ownerOf pre rq) := Run.latest_concat ..

/-- An event is at most one of the calls. -/
theorem calls_of_free {c : FreeCall} (h : e.free? = some c) : e.actor? = none ∧ e.track? = none := by
  cases e with
  | kfree t obj iocb size now slot => exact ⟨rfl, rfl⟩
  | _ => exact absurd h (by simp [InfoProbe.free?])

theorem calls_of_track {c : TrackCall} (h : e.track? = some c) : e.actor? = none ∧ e.free? = none := by
  cases e with
  | rqQosTrack t rq biPrivate now => exact ⟨rfl, rfl⟩
  | _ => exact absurd h (by simp [InfoProbe.track?])

theorem calls_of_actor {c : ActorCall} (h : e.actor? = some c) : e.free? = none ∧ e.track? = none := by
  cases e with
  | iomapDioBioActor t dio iocb now => exact ⟨rfl, rfl⟩
  | _ => exact absurd h (by simp [InfoProbe.actor?])

/-- An id after an event was stored by it, or was there before and its dio is not reported by it. -/
theorem lookup_dioFilter_concat {p : Ptr} {uid : UInt64}
    (h : ((infoTracer cfg).exec (pre ++ [e])).dioFilter.lookupElem p = some uid) :
    (∃ c, e.actor? = some c ∧ c.Registers cfg ((infoTracer cfg).exec pre) ∧ c.dio = p ∧ c.now = uid) ∨
      (((infoTracer cfg).exec pre).dioFilter.lookupElem p = some uid ∧
        ∀ c ∈ e.free?, c.obj = p → ¬ c.Reports cfg ((infoTracer cfg).exec pre)) := by
  rcases CacheView.act_of_get_concat (V := dioFilterView cfg) h with hput | ⟨hkeep, hg⟩ | ⟨f, u, hupd, -, -⟩
  · exact Or.inl (dioFilterAct_eq_put.mp hput)
  · refine Or.inr ⟨hg, ?_⟩
    rintro c hc rfl hrep
    exact absurd (hkeep.symm.trans (dioFilterAct_eq_drop.mpr ⟨c, hc, hrep, rfl⟩)) (by simp)
  · exact absurd hupd dioFilterAct_ne_update

end Step

/-! ## The invariant -/

/-- **Ids identify direct I/Os**: those in `dio_filter`, those requests were tracked with, and those in the
    records. -/
structure Attributed (cfg : DioConfig) (pre : List InfoProbe) : Prop where
  ids : ∀ p q uid, ((infoTracer cfg).exec pre).dioFilter.lookupElem p = some uid →
    ((infoTracer cfg).exec pre).dioFilter.lookupElem q = some uid → p = q
  trackedIds : ∀ x ∈ tracked cfg pre, ∀ p,
    ((infoTracer cfg).exec pre).dioFilter.lookupElem p = some x.2 ↔ x.1 = dioAt pre p
  reportedIds : ∀ d ∈ dios cfg pre, ∀ p,
    ((infoTracer cfg).exec pre).dioFilter.lookupElem p ≠ some d.2.dioUid
  joined : ∀ d ∈ dios cfg pre, ∀ x ∈ tracked cfg pre, d.2.dioUid = x.2 ↔ x.1 = d.1
  trackedLife : ∀ x ∈ tracked cfg pre, x.1.life ≤ life pre x.1.addr
  diosLife : ∀ d ∈ dios cfg pre, d.1.life < life pre d.1.addr
  entries : ∀ rq v, ((infoTracer cfg).exec pre).rqCache.lookupElem rq = some v →
    ∃ o, ownerOf pre rq = some o ∧ (o, v.dioUid) ∈ tracked cfg pre
  requestsTracked : ∀ r ∈ requests cfg pre, ∃ o, r.1 = some o ∧ (o, r.2.dioUid) ∈ tracked cfg pre

namespace Attributed

variable {cfg : DioConfig} {pre : List InfoProbe} {e : InfoProbe}

/-! ### What one step adds -/

theorem mem_tracked_concat {x : DioId × UInt64} :
    x ∈ tracked cfg (pre ++ [e]) ↔ x ∈ tracked cfg pre ∨
      ∃ c, e.track? = some c ∧ passes cfg.filter c.task = true ∧ x.1 = dioAt pre c.biPrivate ∧
        ((infoTracer cfg).exec pre).dioFilter.lookupElem c.biPrivate = some x.2 := by
  rw [tracked, Run.collect_concat, List.mem_append, tracksAt, tracked]
  cases e.track? with
  | none => simp
  | some c =>
      by_cases hp : passes cfg.filter c.task = true
      · cases hl : ((infoTracer cfg).exec pre).dioFilter.lookupElem c.biPrivate with
        | none => simp [hp, hl]
        | some uid =>
            simp only [hp, hl, if_true, Option.toList_some, List.map_singleton, List.mem_singleton,
              Prod.ext_iff, Option.some.injEq, exists_eq_left', true_and]
            rw [eq_comm (a := uid)]
      · simp [hp]

theorem mem_dios_concat {d : DioId × DioInfoEvent} (h : d ∈ dios cfg (pre ++ [e])) :
    d ∈ dios cfg pre ∨ ∃ c, e.free? = some c ∧ d.1 = dioAt pre c.obj ∧
      c.Reports cfg ((infoTracer cfg).exec pre) ∧
      some d.2.dioUid = (((infoTracer cfg).exec pre).dioFilter.lookupElem c.obj).or c.slot := by
  rw [dios, Run.collect_concat, List.mem_append] at h
  refine h.imp id ?_
  intro h
  unfold diosAt at h
  cases hf : e.free? with
  | none => rw [hf] at h; exact absurd h (by simp)
  | some c =>
      rw [hf] at h
      obtain ⟨log, hlog, rfl⟩ := List.mem_map.mp h
      obtain ⟨c', hc', hrep, huid⟩ := dioInfo_of_step hlog
      obtain rfl : c = c' := Option.some.inj (hf.symm.trans hc')
      exact ⟨c, rfl, rfl, hrep, huid⟩

theorem mem_requests_concat {r : Option DioId × RqInfoEvent} (h : r ∈ requests cfg (pre ++ [e])) :
    r ∈ requests cfg pre ∨ ∃ rq u, r.1 = ownerOf pre rq ∧
      ((infoTracer cfg).exec pre).rqCache.lookupElem rq = some u ∧ r.2.dioUid = u.dioUid := by
  rw [requests, Run.collect_concat, List.mem_append] at h
  refine h.imp id ?_
  intro h
  unfold requestsAt at h
  cases hd : e.done? with
  | none => rw [hd] at h; exact absurd h (by simp)
  | some d =>
      rw [hd] at h
      obtain ⟨log, hlog, rfl⟩ := List.mem_map.mp h
      obtain ⟨r, hr, hv⟩ := List.mem_filterMap.mp hlog
      obtain ⟨rq, now, sector, hctxPtr, stats, segs, u, rfl, hu, rfl⟩ := rqInfo_of_step hr hv
      obtain rfl := Option.some.inj hd
      exact ⟨rq, u, rfl, hu, rfl⟩

/-! ### Each part of the invariant after one step -/

theorem dioAt_of_not_free {p : Ptr} (h : ∀ c ∈ e.free?, c.obj ≠ p) : dioAt (pre ++ [e]) p = dioAt pre p := by
  rw [dioAt, life_of_not_free h, dioAt]

/-- A registered object that an event does not report is not freed by it. -/
theorem not_free_of_registered {p : Ptr} {uid : UInt64} (hc : Attributable cfg pre e)
    (hl : ((infoTracer cfg).exec pre).dioFilter.lookupElem p = some uid)
    (hr : ∀ c ∈ e.free?, c.obj = p → ¬ c.Reports cfg ((infoTracer cfg).exec pre)) :
    ∀ c ∈ e.free?, c.obj ≠ p := by
  rintro c hf rfl
  exact hr c hf rfl ((hc.reports c hf).mpr (by rw [hl]; exact Option.some_ne_none uid))

/-- An object that already owned a request is the one at its address after an event only if the event does
    not free it. -/
theorem not_free_of_tracked {x : DioId × UInt64} {p : Ptr} (h : Attributed cfg pre) (hx : x ∈ tracked cfg pre)
    (hlive : x.1 = dioAt (pre ++ [e]) p) : ∀ c ∈ e.free?, c.obj ≠ p := by
  intro c hf ho
  have hlife := h.trackedLife x hx
  have hone : e.free?.any (fun c => c.obj = p) = true := by
    rw [Option.mem_def.mp hf]
    simpa using ho
  rw [hlive, dioAt, life_concat, hone] at hlife
  simp only [if_true] at hlife
  omega

/-- The record of a reported dio carries its registered id. -/
theorem reported_uid {c : FreeCall} {log : DioInfoEvent} (hc : Attributable cfg pre e)
    (hf : e.free? = some c) (hrep : c.Reports cfg ((infoTracer cfg).exec pre))
    (huid : some log.dioUid = (((infoTracer cfg).exec pre).dioFilter.lookupElem c.obj).or c.slot) :
    ((infoTracer cfg).exec pre).dioFilter.lookupElem c.obj = some log.dioUid := by
  obtain ⟨uid, hl⟩ := Option.ne_none_iff_exists'.mp ((hc.reports c hf).mp hrep)
  rw [hl, Option.some_or] at huid
  rw [hl, huid]

/-- A reading that is registered is no other dio's id. -/
theorem dio_of_lookup_now {c : ActorCall} {p : Ptr} (hc : Attributable cfg pre e) (ha : e.actor? = some c)
    (hr : c.Registers cfg ((infoTracer cfg).exec pre))
    (hl : ((infoTracer cfg).exec pre).dioFilter.lookupElem p = some c.now) : p = c.dio :=
  (hc.freshId c ha hr).1 p hl

theorem ids_step (h : Attributed cfg pre) (hc : Attributable cfg pre e) (p q : Ptr) (uid : UInt64)
    (hp : ((infoTracer cfg).exec (pre ++ [e])).dioFilter.lookupElem p = some uid)
    (hq : ((infoTracer cfg).exec (pre ++ [e])).dioFilter.lookupElem q = some uid) : p = q := by
  -- each of the two ids was stored by this event or was there before
  rcases lookup_dioFilter_concat hp with ⟨c, ha, hr, rfl, rfl⟩ | ⟨hp, -⟩ <;>
    rcases lookup_dioFilter_concat hq with ⟨c', ha', hr', rfl, hnow⟩ | ⟨hq, -⟩
  · rw [Option.some.inj (ha.symm.trans ha')]
  · exact (dio_of_lookup_now hc ha hr hq).symm
  · exact dio_of_lookup_now hc ha' hr' (by rw [hnow]; exact hp)
  · exact h.ids p q uid hp hq

theorem trackedIds_step (h : Attributed cfg pre) (hc : Attributable cfg pre e) :
    ∀ x ∈ tracked cfg (pre ++ [e]), ∀ p,
      ((infoTracer cfg).exec (pre ++ [e])).dioFilter.lookupElem p = some x.2 ↔ x.1 = dioAt (pre ++ [e]) p := by
  intro x hx p
  rcases mem_tracked_concat.mp hx with hx | ⟨c, ht, -, hd, hl⟩
  · constructor
    · intro hl
      rcases lookup_dioFilter_concat hl with ⟨c, ha, hr, rfl, hnow⟩ | ⟨hl, hr⟩
      · rw [dioAt_of_not_free (by simp [(calls_of_actor ha).1])]
        exact ((hc.freshId c ha hr).2.2 x hx).mp hnow.symm
      · rw [dioAt_of_not_free (not_free_of_registered hc hl hr)]
        exact (h.trackedIds x hx p).mp hl
    · intro hlive
      have hfree := not_free_of_tracked h hx hlive
      rw [dioAt_of_not_free hfree] at hlive
      -- an actor that registers the dio anew stores the id its requests already carry
      have hsame : ∀ c ∈ e.actor?, c.Registers cfg ((infoTracer cfg).exec pre) → c.dio = p → c.now = x.2 := by
        intro c ha hr ho
        exact (((hc.freshId c ha hr).2.2 x hx).mpr (by rw [hlive, ho])).symm
      exact lookup_dioFilter_keep ((h.trackedIds x hx p).mpr hlive) hfree hsame
  · -- a track changes neither the registrations nor the objects
    obtain ⟨hactor, hfree⟩ := calls_of_track ht
    rw [dioAt_of_not_free (by simp [hfree]), hd]
    constructor
    · intro hl'
      rcases lookup_dioFilter_concat hl' with ⟨c', ha, -⟩ | ⟨hl', -⟩
      · exact absurd (hactor.symm.trans ha) (by simp)
      · rw [h.ids p c.biPrivate x.2 hl' hl]
    · intro hown
      have hp : c.biPrivate = p := congrArg DioId.addr hown
      rw [← hp]
      exact lookup_dioFilter_keep hl (by simp [hfree]) (by simp [hactor])

theorem reportedIds_step (h : Attributed cfg pre) (hc : Attributable cfg pre e) :
    ∀ d ∈ dios cfg (pre ++ [e]), ∀ p,
      ((infoTracer cfg).exec (pre ++ [e])).dioFilter.lookupElem p ≠ some d.2.dioUid := by
  intro d hd p hl
  rcases mem_dios_concat hd with hd | ⟨c, hf, -, hrep, huid⟩
  · rcases lookup_dioFilter_concat hl with ⟨c, ha, hr, -, hnow⟩ | ⟨hl, -⟩
    · exact (hc.freshId c ha hr).2.1 d hd hnow.symm
    · exact h.reportedIds d hd p hl
  · rcases lookup_dioFilter_concat hl with ⟨c', ha, -⟩ | ⟨hl, hr⟩
    · exact absurd ((calls_of_free hf).1.symm.trans ha) (by simp)
    · exact hr c hf (h.ids c.obj p d.2.dioUid (reported_uid hc hf hrep huid) hl) hrep

theorem joined_step (h : Attributed cfg pre) (hc : Attributable cfg pre e) :
    ∀ d ∈ dios cfg (pre ++ [e]), ∀ x ∈ tracked cfg (pre ++ [e]), d.2.dioUid = x.2 ↔ x.1 = d.1 := by
  intro d hd x hx
  rcases mem_dios_concat hd with hd | ⟨c, hf, hdio, hrep, huid⟩
  · rcases mem_tracked_concat.mp hx with hx | ⟨c, -, -, hown, hl⟩
    · exact h.joined d hd x hx
    · -- a direct I/O that has been reported owns no further request
      constructor
      · intro heq
        exact absurd (by rw [heq]; exact hl) (h.reportedIds d hd c.biPrivate)
      · intro heq
        have hlife := h.diosLife d hd
        rw [← heq, hown] at hlife
        exact absurd hlife (Nat.lt_irrefl _)
  · rcases mem_tracked_concat.mp hx with hx | ⟨c', ht, -, -, -⟩
    · rw [hdio, ← h.trackedIds x hx c.obj, reported_uid hc hf hrep huid, Option.some.injEq]
    · exact absurd (ht.symm.trans (calls_of_free hf).2) (by simp)

theorem trackedLife_step (h : Attributed cfg pre) :
    ∀ x ∈ tracked cfg (pre ++ [e]), x.1.life ≤ life (pre ++ [e]) x.1.addr := by
  intro x hx
  rcases mem_tracked_concat.mp hx with hx | ⟨c, -, -, hd, -⟩
  · exact Nat.le_trans (h.trackedLife x hx) (life_le pre e x.1.addr)
  · rw [hd]
    exact life_le pre e c.biPrivate

theorem diosLife_step (h : Attributed cfg pre) :
    ∀ d ∈ dios cfg (pre ++ [e]), d.1.life < life (pre ++ [e]) d.1.addr := by
  intro d hd
  rcases mem_dios_concat hd with hd | ⟨c, hf, hdio, -, -⟩
  · exact Nat.lt_of_lt_of_le (h.diosLife d hd) (life_le pre e d.1.addr)
  · rw [hdio, dioAt, life_concat, hf]
    simp

theorem entries_step (h : Attributed cfg pre) (hc : Attributable cfg pre e) (rq : Ptr) (v : RqInfoEvent)
    (hl : ((infoTracer cfg).exec (pre ++ [e])).rqCache.lookupElem rq = some v) :
    ∃ o, ownerOf (pre ++ [e]) rq = some o ∧ (o, v.dioUid) ∈ tracked cfg (pre ++ [e]) := by
  have hold {u : RqInfoEvent} (hg : ((infoTracer cfg).exec pre).rqCache.lookupElem rq = some u)
      (htouch : trackTouch rq pre e = none) :
      ∃ o, ownerOf (pre ++ [e]) rq = some o ∧ (o, u.dioUid) ∈ tracked cfg (pre ++ [e]) := by
    obtain ⟨o, ho, hmem⟩ := h.entries rq u hg
    exact ⟨o, by rw [ownerOf_concat, htouch, Option.none_or, ho], mem_tracked_concat.mpr (Or.inl hmem)⟩
  rcases CacheView.act_of_get_concat (V := infoRqView cfg) hl with hput | ⟨hkeep, hg⟩ | ⟨f, u, hupd, hg, rfl⟩
  · obtain ⟨t, biPrivate, now, uid, rfl, hp, hd, rfl⟩ := infoRqAct_eq_put hput
    refine ⟨dioAt pre biPrivate, ?_, mem_tracked_concat.mpr (Or.inr ⟨_, rfl, hp, rfl, hd⟩)⟩
    rw [ownerOf_concat]
    simp [trackTouch, InfoProbe.track?, Option.filter]
  · refine hold hg ?_
    cases e with
    | rqQosTrack t rq' biPrivate now =>
        by_cases hk : rq' = rq
        · subst hk
          have hkeep' : infoRqAct cfg ((infoTracer cfg).exec pre) (.rqQosTrack t rq' biPrivate now) rq' = .keep :=
            hkeep
          by_cases hp : passes cfg.filter t = true
          · -- an accepted track replaces the entry or removes it
            simp only [infoRqAct, hp, if_true, onKey_self] at hkeep'
            split at hkeep'
            · split at hkeep' <;> exact absurd hkeep' (by simp)
            · exact absurd hkeep' (by simp)
          · have hnone := hc.rejected ⟨t, rq', biPrivate⟩ rfl (by simpa using hp)
            exact absurd (hg.symm.trans hnone) (by simp)
        · simp [trackTouch, InfoProbe.track?, Option.filter, hk]
    | _ => rfl
  · have huid : (f u).dioUid = u.dioUid := by
      cases infoRqAct_eq_update hupd <;> rfl
    rw [huid]
    refine hold hg ?_
    cases infoRqAct_eq_update hupd <;> rfl

theorem requestsTracked_step (h : Attributed cfg pre) :
    ∀ r ∈ requests cfg (pre ++ [e]), ∃ o, r.1 = some o ∧ (o, r.2.dioUid) ∈ tracked cfg (pre ++ [e]) := by
  intro r hr
  rcases mem_requests_concat hr with hr | ⟨rq, u, hown, hl, huid⟩
  · obtain ⟨o, ho, hmem⟩ := h.requestsTracked r hr
    exact ⟨o, ho, mem_tracked_concat.mpr (Or.inl hmem)⟩
  · obtain ⟨o, ho, hmem⟩ := h.entries rq u hl
    exact ⟨o, hown.trans ho, mem_tracked_concat.mpr (Or.inl (by rw [huid]; exact hmem))⟩

theorem init (cfg : DioConfig) : Attributed cfg [] where
  ids p q uid h := absurd h (by simp [infoTracer, InfoState.init])
  trackedIds x hx := absurd hx (by simp [tracked])
  reportedIds d hd := absurd hd (by simp [dios])
  joined d hd := absurd hd (by simp [dios])
  trackedLife x hx := absurd hx (by simp [tracked])
  diosLife d hd := absurd hd (by simp [dios])
  entries rq v h := absurd h (by simp [infoTracer, InfoState.init])
  requestsTracked r hr := absurd hr (by simp [requests])

/-- **One step preserves the invariant.** -/
theorem step (h : Attributed cfg pre) (hc : Attributable cfg pre e) : Attributed cfg (pre ++ [e]) where
  ids := ids_step h hc
  trackedIds := trackedIds_step h hc
  reportedIds := reportedIds_step h hc
  joined := joined_step h hc
  trackedLife := trackedLife_step h
  diosLife := diosLife_step h
  entries := entries_step h hc
  requestsTracked := requestsTracked_step h

/-- **A run whose steps all meet the conditions preserves it.** -/
theorem run {evs : List InfoProbe} (h : Run.AllSteps (Attributable cfg) evs) : Attributed cfg evs := by
  induction evs using List.reverseRecOn with
  | nil => exact init cfg
  | append_singleton pre e ih =>
      obtain ⟨hpre, he⟩ := Run.allSteps_concat.mp h
      exact step (ih hpre) he

end Attributed

/-! ## The join -/

/-- The records of the ghost lists are those of the run. -/
theorem map_dios (cfg : DioConfig) (evs : List InfoProbe) :
    (dios cfg evs).map Prod.snd = ((infoTracer cfg).emit evs).filterMap InfoRecord.dioInfo? := by
  induction evs using List.reverseRecOn with
  | nil => rfl
  | append_singleton pre e ih =>
      rw [dios, Run.collect_concat, List.map_append, Machine.emit_concat, List.filterMap_append, ← ih, dios]
      congr 1
      unfold diosAt
      cases hf : e.free? with
      | some c => simp [Function.comp_def]
      | none =>
          -- only a `kfree` sends direct-I/O records
          symm
          refine List.eq_nil_iff_forall_not_mem.mpr ?_
          intro log hlog
          obtain ⟨c, hc, -, -⟩ := dioInfo_of_step hlog
          exact absurd (hf.symm.trans hc) (by simp)

/-- The request records of the ghost list are those of the run. -/
theorem map_requests (cfg : DioConfig) (evs : List InfoProbe) :
    (requests cfg evs).map Prod.snd = ((infoTracer cfg).emit evs).filterMap InfoRecord.rqInfo? := by
  induction evs using List.reverseRecOn with
  | nil => rfl
  | append_singleton pre e ih =>
      rw [requests, Run.collect_concat, List.map_append, Machine.emit_concat, List.filterMap_append, ← ih,
        requests]
      congr 1
      unfold requestsAt
      cases hd : e.done? with
      | some c => simp [Function.comp_def]
      | none =>
          -- only a `blk_account_io_done` sends request records
          symm
          refine List.eq_nil_iff_forall_not_mem.mpr ?_
          intro log hlog
          obtain ⟨r, hr, hv⟩ := List.mem_filterMap.mp hlog
          obtain ⟨rq, now, sector, hctxPtr, stats, segs, u, rfl, -, -⟩ := rqInfo_of_step hr hv
          exact absurd hd (by simp [InfoProbe.done?])

/-- Under the invariant equal ids mean the same direct I/O. -/
theorem Attributed.uid_eq_iff {cfg : DioConfig} {evs : List InfoProbe} (h : Attributed cfg evs)
    {d : DioId × DioInfoEvent} {r : Option DioId × RqInfoEvent} (hd : d ∈ dios cfg evs)
    (hr : r ∈ requests cfg evs) : d.2.dioUid = r.2.dioUid ↔ r.1 = some d.1 := by
  obtain ⟨o, ho, hmem⟩ := h.requestsTracked r hr
  rw [ho, Option.some.injEq]
  exact h.joined d hd _ hmem

/-- **In every run whose steps all meet the conditions, requests are joined to exactly the direct I/O they
    belong to.** -/
theorem joinsExactly_of_attributable {cfg : DioConfig} {evs : List InfoProbe}
    (h : Run.AllSteps (Attributable cfg) evs) : JoinsExactly cfg evs := by
  have hinv := Attributed.run h
  constructor
  · intro d hd r hr
    exact hinv.uid_eq_iff hd hr
  intro pmcInv heatmapRow m hm i j
  rw [Info.mem_joinDioPtr hm, ← map_dios, ← map_requests]
  simp only [List.getElem?_map, Option.map_eq_some_iff]
  constructor
  · rintro ⟨-, -, ⟨d, hd, rfl⟩, ⟨r, hr, rfl⟩, heq⟩
    exact ⟨d, r, hd, hr, (hinv.uid_eq_iff (List.mem_of_getElem? hd) (List.mem_of_getElem? hr)).mp heq⟩
  · rintro ⟨d, r, hd, hr, hown⟩
    exact ⟨d.2, r.2, ⟨d, hd, rfl⟩, ⟨r, hr, rfl⟩,
      (hinv.uid_eq_iff (List.mem_of_getElem? hd) (List.mem_of_getElem? hr)).mpr hown⟩

/-! ## Two direct I/Os -/

/-- A read of process `7` with two extents, at `19` and `20`, and a read of process `8` with an extent at
    `other`, each with a request; then the first read reaches one more extent at each of `late`. -/
def twoReads (other : TimeStramp) (late : List TimeStramp) : List InfoProbe :=
  let t : Task := ⟨7, 7, 1, none⟩
  let u : Task := ⟨8, 8, 1, none⟩
  [.ext4DioReadIter t 1 100 (CharArray.zero 16) 10, .ext4DioReadIter u 2 200 (CharArray.zero 16) 10,
    .iomapDioBioActor t 5 1 19, .iomapDioBioActor t 5 1 20, .iomapDioBioActor u 6 2 other,
    .rqQosTrack t 11 5 24, .rqQosTrack u 12 6 24] ++ late.map (.iomapDioBioActor t 5 1) ++
    [.nvmePciCompleteRq 11 30, .blkAccountIoDone 11 31 0 9 8 1 true, .nvmePciCompleteRq 12 32,
      .blkAccountIoDone 12 33 0 9 8 1 true, .kfree t 5 1 4096 40 (some 0), .kfree u 6 2 4096 41 (some 0)]

/-- Registered at different readings, and with no extent after their requests, both reads are joined to
    their requests. -/
theorem joinsExactly_twoReads : JoinsExactly .off (twoReads 22 []) :=
  joinsExactly_of_attributable (by decide)

/-- With a later extent, the request of the first read carries another id than the read; with both reads
    registered at `20`, both requests carry the id of both reads. -/
theorem not_joinsExactly_twoReads :
    ¬ JoinsExactly .off (twoReads 22 [25]) ∧ ¬ JoinsExactly .off (twoReads 20 []) := by
  constructor
  · intro h
    exact absurd h.1 (by decide)
  · intro h
    exact absurd h.1 (by decide)

end StorTrace.Ext4Dio
