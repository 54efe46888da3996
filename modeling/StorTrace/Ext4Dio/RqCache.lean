import StorTrace.Ext4Dio.Info
import StorTrace.Lib.Lifetime

/-!
# `Ext4Dio.RqCache` — the info tracer as a tracer of request lifetimes

`infoRqAct` says what each probe does to a request's `rq_cache` entry, and `infoStep_rqCache` that it does
just that. An entry is opened by a `__rq_qos_track` the filters accept for a registered direct I/O,
stamped by the driver probes, and closed by `blk_account_io_done`.
-/

namespace StorTrace.Ext4Dio

open CacheAction

/-! ## What each probe does to an entry -/

/-- The action of a probe on the `rq_cache` entry of request `k`. -/
def infoRqAct (cfg : DioConfig) (s : InfoState) (e : InfoProbe) (k : Ptr) : CacheAction RqInfoEvent :=
  match e with
  | .rqQosTrack t rq biPrivate now =>
      if passes cfg.filter t then
        -- whatever entry is there is recycled; it is replaced if the dio is known and there is room
        onKey rq k <|
          match s.dioFilter.lookupElem biPrivate with
          | some dioUid =>
              if (s.rqCache.recycleElem rq).HasRoom then .put (newRqInfo dioUid rq now) else .drop
          | none => .drop
      else .keep
  | .nvmeQueueRq t rq _ now _ => if passes cfg.filter t then onKey rq k (.update (·.onQueueRq now)) else .keep
  | .scsiQueueRq t rq _ now _ => if passes cfg.filter t then onKey rq k (.update (·.onQueueRq now)) else .keep
  | .blkMqStartRequest t rq now =>
      if passes cfg.filter t then onKey rq k (.update (·.onStartRequest now)) else .keep
  | .scsiSoftirqDone rq now => onKey rq k (.update (·.onFirstComplete scsiDrive now))
  | .scsiEndRequest rq now => onKey rq k (.update (·.onSecondComplete now))
  | .nvmePciCompleteRq rq now => onKey rq k (.update (·.onFirstComplete nvmeDrive now))
  | .nvmeCompleteRq rq now => onKey rq k (.update (·.onSecondComplete now))
  | .blkAccountIoDone rq now sector hctxPtr stats segs reserve =>
      onKey rq k (if reserve then .drop else .update (·.onAccountIoDone now sector hctxPtr stats segs))
  | _ => .keep

/-- The track probe stores a fresh entry, or leaves none, for the request it accepts. -/
theorem lookup_kpRqQosTrackInfo (cfg : DioConfig) (s : InfoState) (t : Task) (rq biPrivate : Ptr)
    (now : TimeStramp) (k : Ptr) :
    (kpRqQosTrackInfo cfg s t rq biPrivate now).rqCache.lookupElem k =
      (infoRqAct cfg s (.rqQosTrack t rq biPrivate now) k).apply (s.rqCache.lookupElem k) := by
  unfold kpRqQosTrackInfo infoRqAct
  by_cases hp : passes cfg.filter t = true
  · simp only [hp, if_true]
    cases s.dioFilter.lookupElem biPrivate with
    | none => exact s.rqCache.recycleElem_act rq k
    | some dioUid => exact s.rqCache.restoreElem_act rq k (newRqInfo dioUid rq now)
  · simp [hp]

/-- A `queue_rq` probe stamps the entry whether or not its own record could be reserved. -/
theorem lookup_queueRqInfo (cfg : DioConfig) (s : InfoState) (t : Task) (rq : Ptr) (h : HctxFields)
    (now : TimeStramp) (reserve : Bool) (k : Ptr) :
    (queueRqInfo cfg s t rq h now reserve).1.rqCache.lookupElem k =
      (if passes cfg.filter t then onKey rq k (.update (·.onQueueRq now)) else .keep : CacheAction _).apply
        (s.rqCache.lookupElem k) := by
  unfold queueRqInfo
  by_cases hp : passes cfg.filter t = true
  · simp only [hp, if_true, ← BpfHash.modifyElem_act]
    cases hl : s.rqCache.lookupElem rq with
    | none => rw [BpfHash.modifyElem_of_none hl]
    | some log => rfl
  · simp [hp]

/-- The completion probe removes the entry only when its record could be reserved. -/
theorem lookup_kpBlkAccountIoDoneInfo (s : InfoState) (rq : Ptr) (now : TimeStramp) (sector : UInt64)
    (hctxPtr : Ptr) (stats segs : UInt16) (reserve : Bool) (k : Ptr) :
    (kpBlkAccountIoDoneInfo s rq now sector hctxPtr stats segs reserve).1.rqCache.lookupElem k =
      (onKey rq k (if reserve then .drop
        else .update (·.onAccountIoDone now sector hctxPtr stats segs))).apply (s.rqCache.lookupElem k) := by
  rw [← BpfHash.flushElem_act]
  unfold kpBlkAccountIoDoneInfo
  cases hl : s.rqCache.lookupElem rq with
  | none =>
      -- there is nothing to rewrite or to delete
      rw [BpfHash.modifyElem_of_none hl]
      cases reserve with
      | true =>
          by_cases hk : k = rq
          · subst hk; simp [hl]
          · simp [hk]
      | false => rfl
  | some log => cases reserve <;> rfl

/-- **Every probe does to a request's entry what `infoRqAct` says.** -/
theorem infoStep_rqCache (cfg : DioConfig) (s : InfoState) (e : InfoProbe) (k : Ptr) :
    (infoStep cfg s e).1.rqCache.lookupElem k = (infoRqAct cfg s e k).apply (s.rqCache.lookupElem k) := by
  cases e with
  | newSyncWrite t inodeId now => rfl
  | newSyncRead t inodeId now => rfl
  | ext4DioWriteIter t iocb inodeId smallName now => rfl
  | ext4DioReadIter t iocb inodeId smallName now => rfl
  | iomapDioBioActor t dio iocb now =>
      simp only [infoStep, kpIomapDioBioActorInfo, infoRqAct, apply_keep]
      split <;> try split
      all_goals rfl
  | kfree t obj iocb size now slot =>
      simp only [infoStep, kpKfree, infoRqAct, apply_keep]
      split <;> try split
      · cases slot <;> rfl
      all_goals rfl
  | rqQosTrack t rq biPrivate now => exact lookup_kpRqQosTrackInfo cfg s t rq biPrivate now k
  | nvmeQueueRq t rq h now reserve => exact lookup_queueRqInfo cfg s t rq h now reserve k
  | scsiQueueRq t rq h now reserve => exact lookup_queueRqInfo cfg s t rq h now reserve k
  | blkMqStartRequest t rq now =>
      simp only [infoStep, kpBlkMqStartRequest, infoRqAct]
      split
      · exact s.rqCache.modifyElem_act rq k _
      · rfl
  | blkAccountIoDone rq now sector hctxPtr stats segs reserve =>
      exact lookup_kpBlkAccountIoDoneInfo s rq now sector hctxPtr stats segs reserve k
  | _ => exact s.rqCache.modifyElem_act _ k _

/-- The info tracer seen through `rq_cache`. -/
def infoRqView (cfg : DioConfig) : CacheView (infoTracer cfg) Ptr RqInfoEvent where
  get s k := s.rqCache.lookupElem k
  act s e k := infoRqAct cfg s e k
  get_init _ := BpfHash.lookupElem_empty _
  get_step := infoStep_rqCache cfg

/-- An entry is only ever stored by an accepted `__rq_qos_track` of a registered direct I/O. -/
theorem infoRqAct_eq_put {cfg : DioConfig} {s : InfoState} {e : InfoProbe} {k : Ptr} {v : RqInfoEvent}
    (h : infoRqAct cfg s e k = .put v) :
    ∃ t biPrivate now dioUid, e = .rqQosTrack t k biPrivate now ∧ passes cfg.filter t = true ∧
      s.dioFilter.lookupElem biPrivate = some dioUid ∧ v = newRqInfo dioUid k now := by
  cases e with
  | rqQosTrack t rq biPrivate now =>
      simp only [infoRqAct] at h
      split at h
      · next hp =>
        obtain ⟨rfl, h'⟩ := onKey_eq_put.mp h
        split at h'
        · next dioUid hd =>
          split at h'
          · exact ⟨t, biPrivate, now, dioUid, rfl, hp, hd, (CacheAction.put.inj h').symm⟩
          · exact absurd h' (by simp)
        · exact absurd h' (by simp)
      · exact absurd h (by simp)
  | blkAccountIoDone rq now sector hctxPtr stats segs reserve =>
      obtain ⟨rfl, h'⟩ := onKey_eq_put.mp h
      cases reserve <;> exact absurd h' (by simp)
  | nvmeQueueRq t rq hf now reserve =>
      simp only [infoRqAct] at h
      split at h <;> simp [onKey_eq_put] at h
  | scsiQueueRq t rq hf now reserve =>
      simp only [infoRqAct] at h
      split at h <;> simp [onKey_eq_put] at h
  | blkMqStartRequest t rq now =>
      simp only [infoRqAct] at h
      split at h <;> simp [onKey_eq_put] at h
  | _ => simp [infoRqAct, onKey_eq_put] at h

/-- The rewrites of the entry of request `k`: the probe that makes one, and what it writes. -/
inductive InfoRewrite (k : Ptr) : InfoProbe → (RqInfoEvent → RqInfoEvent) → Prop where
  | nvmeQueueRq (t : Task) (h : HctxFields) (now : TimeStramp) (reserve : Bool) :
      InfoRewrite k (.nvmeQueueRq t k h now reserve) (·.onQueueRq now)
  | scsiQueueRq (t : Task) (h : HctxFields) (now : TimeStramp) (reserve : Bool) :
      InfoRewrite k (.scsiQueueRq t k h now reserve) (·.onQueueRq now)
  | startRequest (t : Task) (now : TimeStramp) :
      InfoRewrite k (.blkMqStartRequest t k now) (·.onStartRequest now)
  | softirqDone (now : TimeStramp) :
      InfoRewrite k (.scsiSoftirqDone k now) (·.onFirstComplete scsiDrive now)
  | scsiEnd (now : TimeStramp) : InfoRewrite k (.scsiEndRequest k now) (·.onSecondComplete now)
  | pciComplete (now : TimeStramp) :
      InfoRewrite k (.nvmePciCompleteRq k now) (·.onFirstComplete nvmeDrive now)
  | nvmeComplete (now : TimeStramp) : InfoRewrite k (.nvmeCompleteRq k now) (·.onSecondComplete now)
  | accountIoDone (now : TimeStramp) (sector : UInt64) (hctxPtr : Ptr) (stats segs : UInt16) :
      InfoRewrite k (.blkAccountIoDone k now sector hctxPtr stats segs false)
        (·.onAccountIoDone now sector hctxPtr stats segs)

theorem infoRqAct_eq_update {cfg : DioConfig} {s : InfoState} {e : InfoProbe} {k : Ptr}
    {f : RqInfoEvent → RqInfoEvent} (h : infoRqAct cfg s e k = .update f) : InfoRewrite k e f := by
  have hfiltered {t : Task} {rq : Ptr} {g : RqInfoEvent → RqInfoEvent}
      (h : (if passes cfg.filter t then onKey rq k (.update g) else .keep) = .update f) :
      k = rq ∧ g = f := by
    split at h
    · obtain ⟨rfl, h'⟩ := onKey_eq_update.mp h
      exact ⟨rfl, CacheAction.update.inj h'⟩
    · exact absurd h (by simp)
  have hplain {rq : Ptr} {g : RqInfoEvent → RqInfoEvent} (h : onKey rq k (.update g) = .update f) :
      k = rq ∧ g = f := by
    obtain ⟨rfl, h'⟩ := onKey_eq_update.mp h
    exact ⟨rfl, CacheAction.update.inj h'⟩
  cases e with
  | rqQosTrack t rq biPrivate now =>
      simp only [infoRqAct] at h
      split at h
      · obtain ⟨-, h'⟩ := onKey_eq_update.mp h
        split at h'
        · split at h' <;> exact absurd h' (by simp)
        · exact absurd h' (by simp)
      · exact absurd h (by simp)
  | nvmeQueueRq t rq hf now reserve =>
      obtain ⟨rfl, rfl⟩ := hfiltered h
      exact .nvmeQueueRq t hf now reserve
  | scsiQueueRq t rq hf now reserve =>
      obtain ⟨rfl, rfl⟩ := hfiltered h
      exact .scsiQueueRq t hf now reserve
  | blkMqStartRequest t rq now =>
      obtain ⟨rfl, rfl⟩ := hfiltered h
      exact .startRequest t now
  | scsiSoftirqDone rq now =>
      obtain ⟨rfl, rfl⟩ := hplain h
      exact .softirqDone now
  | scsiEndRequest rq now =>
      obtain ⟨rfl, rfl⟩ := hplain h
      exact .scsiEnd now
  | nvmePciCompleteRq rq now =>
      obtain ⟨rfl, rfl⟩ := hplain h
      exact .pciComplete now
  | nvmeCompleteRq rq now =>
      obtain ⟨rfl, rfl⟩ := hplain h
      exact .nvmeComplete now
  | blkAccountIoDone rq now sector hctxPtr stats segs reserve =>
      cases reserve with
      | true => exact absurd (onKey_eq_update.mp h).2 (by simp)
      | false =>
          obtain ⟨rfl, rfl⟩ := hplain h
          exact .accountIoDone now sector hctxPtr stats segs
  | _ => exact absurd h (by simp [infoRqAct])

/-! ## The lifetimes of requests -/

/-- The request a probe stamps and the clock value it takes (`blk_account_io_done` is handed its reading
    by the kernel). -/
def InfoProbe.stamp : InfoProbe → Option (Ptr × TimeStramp)
  | .rqQosTrack _ rq _ now => some (rq, now)
  | .nvmeQueueRq _ rq _ now _ => some (rq, now)
  | .scsiQueueRq _ rq _ now _ => some (rq, now)
  | .blkMqStartRequest _ rq now => some (rq, now)
  | .scsiSoftirqDone rq now => some (rq, now)
  | .scsiEndRequest rq now => some (rq, now)
  | .nvmePciCompleteRq rq now => some (rq, now)
  | .nvmeCompleteRq rq now => some (rq, now)
  | .blkAccountIoDone rq now _ _ _ _ _ => some (rq, now)
  | _ => none

/-- The clock value the probe stamps request `k` with. -/
def InfoProbe.reading (e : InfoProbe) (k : Ptr) : Option TimeStramp :=
  (e.stamp.filter (·.1 = k)).map Prod.snd

/-- A `__rq_qos_track` on request `k` in a task the filters accept. -/
def AcceptedTrack (cfg : DioConfig) (e : InfoProbe) (k : Ptr) : Prop :=
  match e with
  | .rqQosTrack t rq _ _ => rq = k ∧ passes cfg.filter t = true
  | _ => False

/-- A `blk_account_io_done` on request `k`. -/
def AccountIoDone (e : InfoProbe) (k : Ptr) : Prop :=
  match e with
  | .blkAccountIoDone rq _ _ _ _ _ _ => rq = k
  | _ => False

/-- The completion probe's `bpf_ringbuf_reserve` succeeds. -/
def DoneReserved (e : InfoProbe) : Prop :=
  match e with
  | .blkAccountIoDone _ _ _ _ _ _ reserve => reserve = true
  | _ => False

theorem reading_of_stamp {e : InfoProbe} {k : Ptr} {now : TimeStramp} (h : e.stamp = some (k, now)) :
    e.reading k = some now := by
  simp [InfoProbe.reading, h, Option.filter]

/-- A rewrite stores its own reading in one stamp of the entry. -/
theorem InfoRewrite.stamps_eq_set {e : InfoProbe} {k : Ptr} {f : RqInfoEvent → RqInfoEvent}
    (h : InfoRewrite k e f) :
    ∃ now i, e.stamp = some (k, now) ∧ ∀ v, (f v).stamps = v.stamps.set i now := by
  cases h with
  | nvmeQueueRq t h now reserve => exact ⟨now, 1, rfl, fun _ => rfl⟩
  | scsiQueueRq t h now reserve => exact ⟨now, 1, rfl, fun _ => rfl⟩
  | startRequest t now => exact ⟨now, 2, rfl, fun _ => rfl⟩
  -- the two words of the completion union
  | softirqDone now => exact ⟨now, 3, rfl, fun _ => rfl⟩
  | pciComplete now => exact ⟨now, 3, rfl, fun _ => rfl⟩
  | scsiEnd now => exact ⟨now, 4, rfl, fun _ => rfl⟩
  | nvmeComplete now => exact ⟨now, 4, rfl, fun _ => rfl⟩
  | accountIoDone now sector hctxPtr stats segs => exact ⟨now, 5, rfl, fun _ => rfl⟩

/-- What a rewrite stamps is its own reading. -/
theorem InfoRewrite.stamps {e : InfoProbe} {k : Ptr} {f : RqInfoEvent → RqInfoEvent}
    (h : InfoRewrite k e f) (v : RqInfoEvent) :
    ∀ st ∈ (f v).stamps, st ∈ v.stamps ∨ e.reading k = some st := by
  obtain ⟨now, i, hnow, hset⟩ := h.stamps_eq_set
  intro st hst
  rw [hset] at hst
  rcases List.mem_or_eq_of_mem_set hst with hv | rfl
  · exact Or.inl hv
  · exact Or.inr (reading_of_stamp hnow)

/-- **A request record is emitted by a completion, from the entry of its request.** -/
theorem rqInfo_of_step {cfg : DioConfig} {s : InfoState} {e : InfoProbe} {r : InfoRecord} {v : RqInfoEvent}
    (hr : r ∈ (infoStep cfg s e).2) (hv : r.rqInfo? = some v) :
    ∃ rq now sector hctxPtr stats segs u, e = .blkAccountIoDone rq now sector hctxPtr stats segs true ∧
      s.rqCache.lookupElem rq = some u ∧ v = u.onAccountIoDone now sector hctxPtr stats segs := by
  cases mem_infoStep_iff.mp hr with
  | rqInfo hu => exact ⟨_, _, _, _, _, _, _, rfl, hu, (Option.some.inj hv).symm⟩
  | _ => exact absurd hv (by simp [InfoRecord.rqInfo?])

/-- The info tracer traces request lifetimes. -/
def rqInfoTracer (cfg : DioConfig) : Tracer (infoTracer cfg) Ptr RqInfoEvent TimeStramp where
  toCacheView := infoRqView cfg
  opens := AcceptedTrack cfg
  closes := AccountIoDone
  reserved := DoneReserved
  reading := InfoProbe.reading
  stamps := RqInfoEvent.stamps
  blank := 0
  record := InfoRecord.rqInfo?
  opens_of_put := by
    intro s e k v h
    obtain ⟨t, biPrivate, now, dioUid, rfl, hp, -, rfl⟩ := infoRqAct_eq_put h
    refine ⟨⟨rfl, hp⟩, ?_⟩
    intro st hst
    simp only [RqInfoEvent.stamps, newRqInfo, RqInfoEvent.zero, List.mem_cons, List.not_mem_nil,
      or_false] at hst
    rw [reading_of_stamp rfl, Option.some.injEq]
    tauto
  stamps_update := by
    intro s e k f h v
    exact (infoRqAct_eq_update h).stamps v
  drop_of_reserved := by
    intro s e k hc hr
    cases e with
    | blkAccountIoDone rq now sector hctxPtr stats segs reserve =>
        obtain rfl : rq = k := hc
        obtain rfl : reserve = true := hr
        exact onKey_self rq _
    | _ => exact absurd hc id
  keeps_of_not_reserved := by
    intro s e k hc hr
    cases e with
    | blkAccountIoDone rq now sector hctxPtr stats segs reserve =>
        obtain rfl : rq = k := hc
        obtain rfl : reserve = false := by simpa [DoneReserved] using hr
        show (onKey rq rq (.update _)).Keeps
        rw [onKey_self]; trivial
    | _ => exact absurd hc id
  record_of_close := by
    intro s e r v hr hv
    obtain ⟨rq, now, sector, hctxPtr, stats, segs, u, rfl, hu, rfl⟩ := rqInfo_of_step hr hv
    refine ⟨rq, u, rfl, hu, ?_⟩
    -- the record carries the stamps of the rewrite that a lost record would have left behind
    exact (InfoRewrite.accountIoDone (k := rq) now sector hctxPtr stats segs).stamps u

end StorTrace.Ext4Dio
