import StorTrace.Ext4Dio.Module
import StorTrace.Ext4Dio.Program
import StorTrace.Ext4Dio.RqCache

/-!
# `Ext4Dio.Delivery` — can the info module process everything its kernel side sends?

`proxy` aborts on a request record whose drive no completion probe tagged, and on one whose hardware queue
no earlier record announced. The kernel side tags and announces in handlers of their own: `queue_rq` under
the task filters and with a reservation of its own, the tag only in the handlers of the two known drivers.

`delivers_iff` says exactly which runs are processed to their end.
-/

namespace StorTrace.Ext4Dio

open CacheAction

namespace Info

/-! ## What a delivery needs -/

/-- Deliver ring-buffer records in order. -/
def deliver : InfoModule → List InfoRecord → Except String InfoModule
  | m, [] => .ok m
  | m, r :: rest => proxy m r >>= fun m => deliver m rest

/-- The hardware queue a record announces. -/
def announces : InfoRecord → Option Ptr
  | .dioInfo _ => none
  | .hctx state => some state.hctxPtr
  | .rqInfo _ => none

/-- What `proxy` needs of a record, after the records `pre`: a known type of operation; a known drive and a
    known hardware queue. -/
def Accepts (m : InfoModule) (pre : List InfoRecord) (r : InfoRecord) : Prop :=
  match r with
  | .dioInfo log => log.simEvent.type = dRead ∨ log.simEvent.type = dWrite
  | .hctx _ => True
  | .rqInfo log =>
      (log.rqComp.drive = scsiDrive ∨ log.rqComp.drive = nvmeDrive) ∧
        (m.hctxMapping.find log.rqComp.hctxPtr ≠ none ∨ log.rqComp.hctxPtr ∈ pre.filterMap announces)

instance (m : InfoModule) (pre : List InfoRecord) (r : InfoRecord) : Decidable (Accepts m pre r) :=
  match r with
  | .dioInfo _ => inferInstanceAs (Decidable (_ ∨ _))
  | .hctx _ => inferInstanceAs (Decidable True)
  | .rqInfo _ => inferInstanceAs (Decidable ((_ ∨ _) ∧ (_ ∨ _)))

/-- `proxy` dispatches on the kind of a record: the three sizes are different. -/
theorem proxy_eq (m : InfoModule) (r : InfoRecord) :
    proxy m r =
      match r with
      | .dioInfo log => doMetaDio (doEventDio m log) log
      | .hctx state => .ok (doMetaHctx m state)
      | .rqInfo log => doEventRq m log >>= fun m => doMetaRq m log := by
  cases r with
  | dioInfo log => rfl
  | hctx state => rfl
  | rqInfo log => rfl

/-- `do_meta` knows the two types of operation. -/
theorem opFlag_ok_iff {type : UInt32} : (∃ flag, opFlag type = .ok flag) ↔ type = dRead ∨ type = dWrite := by
  unfold opFlag
  split
  · next h => simp [h]
  · next h =>
    split
    · next h' => simp [h']
    · next h' => simp [h, h']

/-- `do_event` knows the two drives. -/
theorem rqWords_ok_iff {log : RqInfoEvent} :
    (∃ d, rqWords log = .ok d) ↔ log.rqComp.drive = scsiDrive ∨ log.rqComp.drive = nvmeDrive := by
  unfold rqWords
  by_cases hs : log.rqComp.drive = scsiDrive
  · simp [hs]
  · by_cases hn : log.rqComp.drive = nvmeDrive
    · simp [hn, show nvmeDrive ≠ scsiDrive by decide]
    · simp [hs, hn]

/-- The heat map needs the disk behind the hardware queue. -/
theorem heatmapCommit_ok_iff {c : HeatmapCollector} {log : RqInfoEvent} {hctxMap : Hctx2disk} :
    (∃ c', heatmapCommit c log hctxMap = .ok c') ↔ hctxMap.find log.rqComp.hctxPtr ≠ none := by
  unfold heatmapCommit
  cases hctxMap.find log.rqComp.hctxPtr <;> simp

/-- **A record is processed exactly if `Accepts` holds**, and what it adds to the known hardware queues is
    the one it announces. -/
theorem proxy_ok_iff {m : InfoModule} {r : InfoRecord} : (∃ m', proxy m r = .ok m') ↔ Accepts m [] r := by
  rw [proxy_eq]
  cases r with
  | hctx state => exact ⟨fun _ => trivial, fun _ => ⟨_, rfl⟩⟩
  | dioInfo log =>
      show _ ↔ (log.simEvent.type = dRead ∨ log.simEvent.type = dWrite)
      rw [← opFlag_ok_iff]
      constructor
      · rintro ⟨m', h⟩
        obtain ⟨flag, hflag, -⟩ := bind_eq_ok.mp h
        exact ⟨flag, hflag⟩
      · rintro ⟨flag, hflag⟩
        exact ⟨_, bind_eq_ok.mpr ⟨flag, hflag, rfl⟩⟩
  | rqInfo log =>
      show _ ↔ (_ ∧ (m.hctxMapping.find log.rqComp.hctxPtr ≠ none ∨ log.rqComp.hctxPtr ∈ ([] : List Ptr)))
      rw [← rqWords_ok_iff, ← heatmapCommit_ok_iff (c := m.heatmapTrace)]
      simp only [List.not_mem_nil, or_false]
      constructor
      · rintro ⟨m', h⟩
        obtain ⟨m₁, h₁, h₂⟩ := bind_eq_ok.mp h
        obtain ⟨d, hd, hm₁⟩ := bind_eq_ok.mp h₁
        obtain rfl := Except.ok.inj hm₁
        obtain ⟨c, hc, -⟩ := bind_eq_ok.mp h₂
        exact ⟨⟨d, hd⟩, ⟨c, hc⟩⟩
      · rintro ⟨⟨d, hd⟩, ⟨c, hc⟩⟩
        exact ⟨_, bind_eq_ok.mpr ⟨_, bind_eq_ok.mpr ⟨d, hd, rfl⟩, bind_eq_ok.mpr ⟨c, hc, rfl⟩⟩⟩

/-- The hardware queues known after a record: those known before and the one it announces. -/
theorem find_proxy {m m' : InfoModule} {r : InfoRecord} (h : proxy m r = .ok m') (k : Ptr) :
    m'.hctxMapping.find k ≠ none ↔ m.hctxMapping.find k ≠ none ∨ announces r = some k := by
  rw [proxy_eq] at h
  cases r with
  | dioInfo log =>
      obtain ⟨flag, -, hm⟩ := bind_eq_ok.mp h
      rw [← Except.ok.inj hm]
      simp [doEventDio, announces]
  | hctx state =>
      rw [← Except.ok.inj h]
      simp only [announces, Option.some.injEq]
      unfold doMetaHctx
      cases hf : m.hctxMapping.find state.hctxPtr with
      | some disk =>
          refine ⟨Or.inl, ?_⟩
          rintro (h | rfl)
          · exact h
          · simp [hf]
      | none =>
          rw [Hctx2disk.find_insert_ne_none, or_comm, eq_comm]
  | rqInfo log =>
      obtain ⟨m₁, h₁, h₂⟩ := bind_eq_ok.mp h
      obtain ⟨d, -, hm₁⟩ := bind_eq_ok.mp h₁
      obtain ⟨c, -, hm⟩ := bind_eq_ok.mp h₂
      rw [← Except.ok.inj hm, ← Except.ok.inj hm₁]
      simp [announces]

/-- Delivering records, some of which have already been delivered to the module `m₀`. -/
theorem deliver_ok_from {m₀ m : InfoModule} {base recs : List InfoRecord}
    (hm : ∀ k, m.hctxMapping.find k ≠ none ↔
      m₀.hctxMapping.find k ≠ none ∨ k ∈ base.filterMap announces) :
    (∃ m', deliver m recs = .ok m') ↔ Run.AllStepsFrom (Accepts m₀) base recs := by
  induction recs generalizing m base with
  | nil => exact ⟨fun _ => trivial, fun _ => ⟨m, rfl⟩⟩
  | cons r rest ih =>
      have hacc : Accepts m [] r ↔ Accepts m₀ base r := by
        cases r with
        | rqInfo log =>
            show (_ ∧ (m.hctxMapping.find log.rqComp.hctxPtr ≠ none ∨ _ ∈ ([] : List Ptr))) ↔ _
            rw [hm]
            simp [Accepts]
        | _ => rfl
      have hnext {m₁ : InfoModule} (h : proxy m r = .ok m₁) (k : Ptr) :
          m₁.hctxMapping.find k ≠ none ↔
            m₀.hctxMapping.find k ≠ none ∨ k ∈ (base ++ [r]).filterMap announces := by
        rw [find_proxy h, hm, List.filterMap_append, List.mem_append, or_assoc]
        simp
      rw [Run.AllStepsFrom, ← hacc, ← proxy_ok_iff]
      constructor
      · rintro ⟨m', h⟩
        obtain ⟨m₁, h₁, h₂⟩ := bind_eq_ok.mp h
        exact ⟨⟨m₁, h₁⟩, (ih (hnext h₁)).mp ⟨m', h₂⟩⟩
      · rintro ⟨⟨m₁, h₁⟩, hrest⟩
        obtain ⟨m', h₂⟩ := (ih (hnext h₁)).mpr hrest
        exact ⟨m', bind_eq_ok.mpr ⟨m₁, h₁, h₂⟩⟩

/-- **Records are all delivered to a new module exactly if each is accepted after those before it.** -/
theorem deliver_ok_iff {pmcInv : UInt64} {heatmapRow : Int} {recs : List InfoRecord} :
    (∃ m', deliver (.new pmcInv heatmapRow) recs = .ok m') ↔
      Run.AllSteps (Accepts (.new pmcInv heatmapRow)) recs :=
  deliver_ok_from (fun k => by simp)

end Info

/-! ## What the kernel side sends -/

/-- Every entry of `event_cache` has a known type. -/
theorem type_of_entry (cfg : DioConfig) (pre : List InfoProbe) {k : Ptr} {v : SimpleDioEvent}
    (h : ((infoTracer cfg).exec pre).dio.eventCache.lookupElem k = some v) :
    v.type = dRead ∨ v.type = dWrite := by
  have hborn := CacheView.exists_born (V := (infoProgram cfg).eventView) (k := k)
    (Q := fun _ _ _ v => v.type = dRead ∨ v.type = dWrite) ?_ ?_ ?_ h
  · obtain ⟨-, -, -, -, -, -, hq⟩ := hborn
    exact hq
  · -- a start call stores the type of its direction
    intro ini t v hput
    obtain ⟨c, -, -, -, -, -, rfl⟩ := DioProgram.eventView_put.mp hput
    cases hd : c.dir with
    | write => exact Or.inr (by simp [IterCall.entry, hd, Direction.type])
    | read => exact Or.inl (by simp [IterCall.entry, hd, Direction.type])
  · intro _ _ _ _ _ _ hq
    exact hq
  · intro _ _ _ _ f v ha hq
    obtain ⟨t, dio, now, -, -, rfl⟩ := DioProgram.eventView_update ha
    exact hq

/-- A direct-I/O record has a known type. -/
theorem type_of_dioInfo {cfg : DioConfig} {pre : List InfoProbe} {e : InfoProbe} {log : DioInfoEvent}
    (h : .dioInfo log ∈ (infoTracer cfg).out pre e) :
    log.simEvent.type = dRead ∨ log.simEvent.type = dWrite := by
  obtain ⟨p, -, hmem⟩ := (DioProgram.record_out (P := infoProgram cfg)).mp ⟨_, h, rfl⟩
  obtain ⟨t, dio, iocb, size, now, u, rfl, -, hu, hv⟩ := mem_dioStep_iff.mp hmem
  have htype := type_of_entry cfg pre hu
  rw [hv]
  exact htype

/-- A call of `queue_rq` of either driver. -/
structure QueueCall where
  task : Task
  rq : Ptr
  hctx : Ptr
  reserve : Bool

def InfoProbe.queue? : InfoProbe → Option QueueCall
  | .nvmeQueueRq t rq h _ reserve => some ⟨t, rq, h.hctx, reserve⟩
  | .scsiQueueRq t rq h _ reserve => some ⟨t, rq, h.hctx, reserve⟩
  | _ => none

/-- A call of `blk_account_io_done`. -/
structure DoneCall where
  rq : Ptr
  hctx : Ptr
  reserve : Bool

def InfoProbe.done? : InfoProbe → Option DoneCall
  | .blkAccountIoDone rq _ _ hctxPtr _ _ reserve => some ⟨rq, hctxPtr, reserve⟩
  | _ => none

section Requests

variable (cfg : DioConfig)

/-- The hardware queue an event announces: that of an accepted `queue_rq` of a traced request which gets
    its record. -/
def announcedBy (pre : List InfoProbe) (e : InfoProbe) : List Ptr :=
  (e.queue?.filter (fun c => passes cfg.filter c.task ∧
    ((infoTracer cfg).exec pre).rqCache.lookupElem c.rq ≠ none ∧ c.reserve)).toList.map QueueCall.hctx

/-- The hardware queues announced in a run. -/
def announced (pre : List InfoProbe) : List Ptr := Run.collect (announcedBy cfg) pre

/-- `false` for an accepted `__rq_qos_track` of request `rq`, `true` for a completion probe that tags the
    drive of its entry. -/
def tagTouch (rq : Ptr) (e : InfoProbe) : Option Bool :=
  match e with
  | .rqQosTrack t rq' _ _ => if rq' = rq ∧ passes cfg.filter t = true then some false else none
  | .scsiSoftirqDone rq' _ => if rq' = rq then some true else none
  | .nvmePciCompleteRq rq' _ => if rq' = rq then some true else none
  | _ => none

/-- A completion probe of a known driver has fired on `rq` since its latest accepted track. -/
def Tagged (pre : List InfoProbe) (rq : Ptr) : Prop := Run.latest (fun _ => tagTouch cfg rq) pre = some true

/-- **A request the user side can process**: a completion that sends its request's record comes after a
    completion probe tagged its drive, and after its hardware queue was announced. -/
def SendsKnown (pre : List InfoProbe) (e : InfoProbe) : Prop :=
  ∀ d ∈ e.done?, ((infoTracer cfg).exec pre).rqCache.lookupElem d.rq ≠ none → d.reserve = true →
    Tagged cfg pre d.rq ∧ d.hctx ∈ announced cfg pre

instance (pre : List InfoProbe) (rq : Ptr) : Decidable (Tagged cfg pre rq) :=
  inferInstanceAs (Decidable (_ = _))

instance (pre : List InfoProbe) (e : InfoProbe) : Decidable (SendsKnown cfg pre e) :=
  inferInstanceAs (Decidable (∀ d ∈ e.done?, _ → _ → _ ∧ _))

variable {cfg}

/-- A rewrite tags the drive of the entry, or leaves it as it is. -/
theorem InfoRewrite.tag {e : InfoProbe} {k : Ptr} {f : RqInfoEvent → RqInfoEvent} (h : InfoRewrite k e f)
    (cfg : DioConfig) :
    (tagTouch cfg k e = some true ∧
        ∀ v, (f v).rqComp.drive = scsiDrive ∨ (f v).rqComp.drive = nvmeDrive) ∨
      (tagTouch cfg k e = none ∧ ∀ v, (f v).rqComp.drive = v.rqComp.drive) := by
  cases h with
  | softirqDone now => exact Or.inl ⟨if_pos rfl, fun _ => Or.inl rfl⟩
  | pciComplete now => exact Or.inl ⟨if_pos rfl, fun _ => Or.inr rfl⟩
  | _ => exact Or.inr ⟨rfl, fun _ => rfl⟩

/-- A probe that leaves the entry of `k` alone does not tag it. -/
theorem tagTouch_of_keep {s : InfoState} {e : InfoProbe} {k : Ptr} (h : infoRqAct cfg s e k = .keep) :
    tagTouch cfg k e = none := by
  cases e with
  | rqQosTrack t rq biPrivate now =>
      by_contra hne
      obtain ⟨rfl, hp⟩ : rq = k ∧ passes cfg.filter t = true := by
        by_contra hc
        exact hne (if_neg hc)
      simp only [infoRqAct, hp, if_true, onKey_self] at h
      split at h
      · split at h <;> exact absurd h (by simp)
      · exact absurd h (by simp)
  | scsiSoftirqDone rq now =>
      refine if_neg (fun hk => ?_)
      subst hk
      exact absurd h (by simp [infoRqAct])
  | nvmePciCompleteRq rq now =>
      refine if_neg (fun hk => ?_)
      subst hk
      exact absurd h (by simp [infoRqAct])
  | _ => rfl

/-- **The drive of an entry is known exactly if it was tagged.** -/
theorem drive_of_entry {pre : List InfoProbe} {rq : Ptr} {v : RqInfoEvent}
    (h : ((infoTracer cfg).exec pre).rqCache.lookupElem rq = some v) :
    (v.rqComp.drive = scsiDrive ∨ v.rqComp.drive = nvmeDrive) ↔ Tagged cfg pre rq := by
  induction pre using List.reverseRecOn generalizing v with
  | nil => exact absurd h (by simp [infoTracer, InfoState.init])
  | append_singleton pre e ih =>
      unfold Tagged at ih ⊢
      rw [Run.latest_concat]
      rcases CacheView.act_of_get_concat (V := infoRqView cfg) h with hput | ⟨hkeep, hg⟩ | ⟨f, u, hupd, hg, rfl⟩
      · -- a fresh entry has no drive, and its track is the latest touch
        obtain ⟨t, biPrivate, now, dioUid, rfl, hp, -, rfl⟩ := infoRqAct_eq_put hput
        simp [tagTouch, hp, newRqInfo, RqInfoEvent.zero, scsiDrive, nvmeDrive]
      · -- an event that leaves the entry alone leaves its tag
        rw [tagTouch_of_keep hkeep, Option.none_or]
        exact ih hg
      · rcases (infoRqAct_eq_update hupd).tag cfg with ⟨htouch, hdrive⟩ | ⟨htouch, hdrive⟩
        · rw [htouch]
          simp only [Option.some_or, iff_true]
          exact hdrive u
        · rw [htouch, Option.none_or, hdrive]
          exact ih hg

/-- What a `queue_rq` probe sends. -/
theorem announces_queueRqInfo (s : InfoState) (t : Task) (rq : Ptr) (h : HctxFields) (now : TimeStramp)
    (reserve : Bool) :
    (queueRqInfo cfg s t rq h now reserve).2.filterMap Info.announces =
      if passes cfg.filter t = true ∧ s.rqCache.lookupElem rq ≠ none ∧ reserve = true then [h.hctx]
      else [] := by
  unfold queueRqInfo
  by_cases hp : passes cfg.filter t = true
  · cases hl : s.rqCache.lookupElem rq with
    | none => simp [hp]
    | some log => cases reserve <;> simp [hp, Info.announces]
  · simp [hp]

/-- **The hardware queues announced by the records of a run** are those its `queue_rq` calls announced. -/
theorem announces_emit (pre : List InfoProbe) :
    ((infoTracer cfg).emit pre).filterMap Info.announces = announced cfg pre := by
  have hstep (pre : List InfoProbe) (e : InfoProbe) :
      ((infoTracer cfg).out pre e).filterMap Info.announces = announcedBy cfg pre e := by
    unfold announcedBy
    cases e with
    | nvmeQueueRq t rq h now reserve =>
        refine (announces_queueRqInfo _ t rq h now reserve).trans ?_
        simp only [InfoProbe.queue?, Option.filter]
        split <;> simp_all
    | scsiQueueRq t rq h now reserve =>
        refine (announces_queueRqInfo _ t rq h now reserve).trans ?_
        simp only [InfoProbe.queue?, Option.filter]
        split <;> simp_all
    | kfree t obj iocb size now slot =>
        refine List.filterMap_eq_nil_iff.mpr ?_
        intro r hr
        cases mem_infoStep_iff.mp hr with
        | dioInfo hp hv => rfl
    | blkAccountIoDone rq now sector hctxPtr stats segs reserve =>
        refine List.filterMap_eq_nil_iff.mpr ?_
        intro r hr
        cases mem_infoStep_iff.mp hr with
        | rqInfo hu => rfl
    | _ => rfl
  induction pre using List.reverseRecOn with
  | nil => rfl
  | append_singleton pre e ih =>
      rw [Machine.emit_concat, List.filterMap_append, ih, hstep, announced, announced, Run.collect_concat]

/-- The records of an event that is no completion are accepted. -/
theorem accepts_out_of_not_done {m : Info.InfoModule} {base : List InfoRecord} {pre : List InfoProbe}
    {e : InfoProbe} (hd : e.done? = none) :
    Run.AllStepsFrom (Info.Accepts m) base ((infoTracer cfg).out pre e) := by
  rw [Run.allStepsFrom_iff]
  intro a r b hs
  have hr : r ∈ (infoTracer cfg).out pre e := by rw [hs]; simp
  cases r with
  | dioInfo log => exact type_of_dioInfo hr
  | hctx state => trivial
  | rqInfo log =>
      obtain ⟨rq, now, sector, hctxPtr, stats, segs, u, rfl, -, -⟩ := rqInfo_of_step hr rfl
      exact absurd hd (by simp [InfoProbe.done?])

/-- **One step**: its records are accepted, after those before it, exactly if a completion it is sends a
    request that is known. -/
theorem accepts_out_iff {pmcInv : UInt64} {heatmapRow : Int} {pre : List InfoProbe} {e : InfoProbe} :
    Run.AllStepsFrom (Info.Accepts (.new pmcInv heatmapRow)) ((infoTracer cfg).emit pre)
      ((infoTracer cfg).out pre e) ↔ SendsKnown cfg pre e := by
  cases hd : e.done? with
  | none => exact ⟨fun _ d hd' => absurd (hd.symm.trans hd') (by simp), fun _ => accepts_out_of_not_done hd⟩
  | some d =>
      cases e with
      | blkAccountIoDone rq now sector hctxPtr stats segs reserve =>
          have hknown (v : RqInfoEvent) :
              Info.Accepts (.new pmcInv heatmapRow) ((infoTracer cfg).emit pre)
                  (.rqInfo (v.onAccountIoDone now sector hctxPtr stats segs)) ↔
                (v.rqComp.drive = scsiDrive ∨ v.rqComp.drive = nvmeDrive) ∧ hctxPtr ∈ announced cfg pre := by
            rw [← announces_emit]
            simp [Info.Accepts, RqInfoEvent.onAccountIoDone, Info.InfoModule.new]
          show Run.AllStepsFrom _ _ (kpBlkAccountIoDoneInfo ((infoTracer cfg).exec pre) rq now sector hctxPtr
            stats segs reserve).2 ↔ ∀ d ∈ some (DoneCall.mk rq hctxPtr reserve), _
          simp only [Option.mem_some_iff, forall_eq']
          unfold kpBlkAccountIoDoneInfo
          cases hl : ((infoTracer cfg).exec pre).rqCache.lookupElem rq with
          | none => simp [Run.AllStepsFrom]
          | some v =>
              cases reserve with
              | false => simp [Run.AllStepsFrom]
              | true =>
                  -- the one record of the step, accepted if its drive and its queue are known
                  simp only [if_true, Run.AllStepsFrom, and_true, hknown, drive_of_entry hl]
                  simp
      | _ => exact absurd hd (by simp [InfoProbe.done?])

end Requests

/-- **The info module processes everything a run sends exactly when every completion that sends its
    request's record does so after its drive was tagged and its hardware queue announced.** -/
theorem delivers_iff (cfg : DioConfig) (pmcInv : UInt64) (heatmapRow : Int) (evs : List InfoProbe) :
    (∃ m, Info.deliver (.new pmcInv heatmapRow) ((infoTracer cfg).emit evs) = .ok m) ↔
      Run.AllSteps (SendsKnown cfg) evs := by
  rw [Info.deliver_ok_iff, Machine.emit_eq_collect, Run.allSteps_collect]
  refine Run.allSteps_congr ?_ evs
  intro pre e
  rw [← Machine.emit_eq_collect]
  exact accepts_out_iff

/-! ## A worker and an unknown driver -/

/-- A request of a write of process `7`, put into hardware queue `9` by the task `worker` and completed by
    the probes `completion`. -/
def oneRequest (worker : Task) (completion : List InfoProbe) : List InfoProbe :=
  let t : Task := ⟨7, 7, 1, none⟩
  [.ext4DioWriteIter t 1 100 (CharArray.zero 16) 5, .iomapDioBioActor t 5 1 10, .rqQosTrack t 2 5 20,
    .nvmeQueueRq worker 2 ⟨9, 0, 0, 0, 0, CharArray.zero 32⟩ 30 true] ++ completion ++
    [.blkAccountIoDone 2 60 0 9 8 1 true]

/-- With only process `7` traced, a request that a kernel worker puts into its hardware queue makes the
    module abort; so does, without filters, one that neither driver completes. -/
theorem not_delivers_worker :
    (¬ ∃ m, Info.deliver (.new 1 1)
        ((infoTracer ⟨{ FilterConfig.off with usingPidFilter := true, tpid := 7 }, false, .empty⟩).emit
          (oneRequest ⟨2, 2, 0, none⟩ [.nvmePciCompleteRq 2 40, .nvmeCompleteRq 2 50])) = .ok m) ∧
      ¬ ∃ m, Info.deliver (.new 1 1) ((infoTracer .off).emit (oneRequest ⟨7, 7, 1, none⟩ [])) = .ok m := by
  rw [Info.deliver_ok_iff, Info.deliver_ok_iff]
  decide

end StorTrace.Ext4Dio
