import StorTrace.Config.Setup
import StorTrace.BlockTrace.Lifetime
import StorTrace.Ext4Dio.RqCache
import StorTrace.Ext4Dio.Aligned
import StorTrace.Lib.Starts

/-!
# `TaskSelection` — is the selection of a process and of a command name honoured?

The configuration selects by process and by name. `read_config` never sets the flag of the pid filter, so
only the name reaches the programs, and there the filter guards the probes that start an I/O: an entry that
an earlier I/O left behind is completed by the probes of whoever uses its key next.
-/

namespace StorTrace

open BlockTrace (BlkProbe BlkRecord blkTracer)
open Ext4Dio (DioConfig DioProgram InfoProbe InfoRecord IterCall SimpleDioEvent dioTracer infoTracer
  inodeSelected simpleProgram infoProgram)

/-! ## The starts of requests and of direct I/Os -/

/-- A call of `__rq_qos_track` on a request: the task, and the pointer under which the program looks up what the
    request belongs to. -/
structure QosTrack where
  task : Task
  owner : Ptr

/-- A request of the block tracer starts at `__rq_qos_track`, and belongs to a bio. -/
def BlockTrace.BlkProbe.tracked (e : BlkProbe) (k : Ptr) : Option QosTrack :=
  match e with
  | .rqQosTrack t rq bio _ _ => if rq = k then some ⟨t, bio⟩ else none
  | _ => none

/-- So does a request of the info tracer; it belongs to the direct I/O in its bio's `bi_private`. -/
def Ext4Dio.InfoProbe.tracked (e : InfoProbe) (k : Ptr) : Option QosTrack :=
  match e with
  | .rqQosTrack t rq biPrivate _ => if rq = k then some ⟨t, biPrivate⟩ else none
  | _ => none

/-- The requests of the block tracer. -/
def blkRequests (filter : FilterConfig) :
    StartedCache (blkTracer filter) Ptr BlockTrace.RqTraceEvent QosTrack where
  toCacheView := BlockTrace.rqView filter
  start := BlkProbe.tracked
  admits c := passes filter c.task = true
  opens s k c := s.bioPass.lookupElem c.owner ≠ none ∧ (s.rqCache.recycleElem k).HasRoom
  closes := BlockTrace.AccountIoDone
  isRecord r := r.rqTrace? ≠ none
  start_of_put s e k v hput := by
    obtain ⟨t, bio, biOpf, now, bioEnter, rfl, hp, -, -⟩ := BlockTrace.rqAct_eq_put hput
    exact ⟨⟨t, bio⟩, if_pos rfl, hp⟩
  none_of_shut s e k c hstart hadmits hshut := by
    cases e with
    | rqQosTrack t rq bio biOpf now =>
        obtain ⟨rfl, rfl⟩ : rq = k ∧ ⟨t, bio⟩ = c := by simpa [BlkProbe.tracked] using hstart
        simp only [BlockTrace.rqView, BlockTrace.rqAct]
        rw [if_pos hadmits, CacheAction.onKey_self]
        cases hbio : s.bioPass.lookupElem bio with
        | none => rfl
        | some bioEnter =>
            simp only
            rw [if_neg (fun hroom => hshut ⟨by simp [hbio], hroom⟩)]
            rfl
    | _ => exact absurd hstart (by simp [BlkProbe.tracked])
  entry_of_record s e r hr hrec := by
    obtain ⟨v, hv⟩ := Option.ne_none_iff_exists'.mp hrec
    obtain ⟨rq, now, sector, stats, segs, u, rfl, hu, -⟩ := BlockTrace.rqTrace_of_step hr hv
    refine ⟨rq, rfl, ?_⟩
    show (s.rqCache.lookupElem rq) ≠ none
    rw [hu]
    exact Option.some_ne_none u

/-- The requests of the info tracer. -/
def infoRequests (cfg : DioConfig) :
    StartedCache (infoTracer cfg) Ptr Ext4Dio.RqInfoEvent QosTrack where
  toCacheView := Ext4Dio.infoRqView cfg
  start := InfoProbe.tracked
  admits c := passes cfg.filter c.task = true
  opens s k c := s.dioFilter.lookupElem c.owner ≠ none ∧ (s.rqCache.recycleElem k).HasRoom
  closes := Ext4Dio.AccountIoDone
  isRecord r := r.rqInfo? ≠ none
  start_of_put s e k v hput := by
    obtain ⟨t, biPrivate, now, dioUid, rfl, hp, -, -⟩ := Ext4Dio.infoRqAct_eq_put hput
    exact ⟨⟨t, biPrivate⟩, if_pos rfl, hp⟩
  none_of_shut s e k c hstart hadmits hshut := by
    cases e with
    | rqQosTrack t rq biPrivate now =>
        obtain ⟨rfl, rfl⟩ : rq = k ∧ ⟨t, biPrivate⟩ = c := by simpa [InfoProbe.tracked] using hstart
        simp only [Ext4Dio.infoRqView, Ext4Dio.infoRqAct]
        rw [if_pos hadmits, CacheAction.onKey_self]
        cases hdio : s.dioFilter.lookupElem biPrivate with
        | none => rfl
        | some dioUid =>
            simp only
            rw [if_neg (fun hroom => hshut ⟨by simp [hdio], hroom⟩)]
            rfl
    | _ => exact absurd hstart (by simp [InfoProbe.tracked])
  entry_of_record s e r hr hrec := by
    obtain ⟨v, hv⟩ := Option.ne_none_iff_exists'.mp hrec
    obtain ⟨rq, now, sector, hctxPtr, stats, segs, u, rfl, hu, -⟩ := Ext4Dio.rqInfo_of_step hr hv
    refine ⟨rq, rfl, ?_⟩
    show (s.rqCache.lookupElem rq) ≠ none
    rw [hu]
    exact Option.some_ne_none u

/-- The direct I/Os of either program start at `ext4_dio_*_iter`. -/
def dioCalls {σ ε ο : Type} {cfg : DioConfig} {M : Machine σ ε ο} (P : DioProgram cfg M) :
    StartedCache M Ptr SimpleDioEvent IterCall where
  toCacheView := P.eventView
  start e k := (P.iter? e).filter (fun c => c.iocb = k)
  admits c := c.Accepted cfg
  opens s k _ := (P.state s).eventCache.lookupElem k ≠ none ∨ (P.state s).eventCache.HasRoom
  closes e k := ∃ c ∈ P.completion? e, c.iocb = k
  isRecord r := P.record r ≠ none
  start_of_put s e k v hput := by
    obtain ⟨c, hc, hacc, hk, -, -, -⟩ := DioProgram.eventView_put.mp hput
    exact ⟨c, by rw [hc, Option.filter_some_pos (by simpa using hk)], hacc⟩
  none_of_shut s e k c _ _ hshut := by
    obtain ⟨hno, hroom⟩ := not_or.mp hshut
    have hnone : P.eventView.get s k = none := not_not.mp hno
    -- only a put could store an entry, and there is no room for it
    rw [hnone]
    cases ha : P.eventView.act s e k with
    | put v =>
        obtain ⟨-, -, -, -, -, hr, -⟩ := DioProgram.eventView_put.mp ha
        exact absurd hr hroom
    | keep => rfl
    | update f => rfl
    | drop => rfl
  entry_of_record s e r hr hrec := by
    obtain ⟨v, hv⟩ := Option.ne_none_iff_exists'.mp hrec
    have hmem : v ∈ (M.step s e).2.filterMap P.record := List.mem_filterMap.mpr ⟨r, hr, hv⟩
    rw [P.record_step] at hmem
    cases hp : P.probe e with
    | none => rw [hp] at hmem; exact absurd hmem (by simp)
    | some p =>
        rw [hp] at hmem
        obtain ⟨t, dio, iocb, size, now, u, rfl, -, hu, -⟩ := Ext4Dio.mem_dioStep_iff.mp hmem
        refine ⟨iocb, ⟨⟨t, dio, iocb, true⟩, ?_, rfl⟩, ?_⟩
        · rw [DioProgram.completion?, hp]; rfl
        · show (P.state s).eventCache.lookupElem iocb ≠ none
          rw [hu]
          exact Option.some_ne_none u

/-! ## The selection -/

/-- The task is one of the process of the configuration, or a child of it, and has its command name, as far
    as the configuration gives them. -/
def Selected (config : Config) (t : Task) : Prop :=
  (config.pid ≠ -1 → t.tgid = config.pid.toInt ∨ t.parentTgid = config.pid.toInt) ∧
    (config.common ≠ [] → t.comm = some (padCommon config.common))

instance (config : Config) (t : Task) : Decidable (Selected config t) := inferInstanceAs (Decidable (_ ∧ _))

/-- The configuration gives a name, and it is not the task's. -/
def OtherName (config : Config) (t : Task) : Prop :=
  config.common ≠ [] ∧ t.comm ≠ some (padCommon config.common)

/-- The programs of an accepted configuration reject the tasks of another name, and no others. -/
theorem passes_iff_not_otherName {config : Config} {filter : FilterConfig} (h : FilterSpec config filter) (t : Task) :
    passes filter t = true ↔ ¬ OtherName config t := by
  rw [passes_of_config h, OtherName, not_and, not_not]

section Honoured

variable {config : Config} {stIno : Str → Option UInt64} {env : Env}

/-- The task filters of a constructed direct-I/O module. -/
theorem filterSpec_of_construct {load : Env → Except String FilterConfig} {cfg : DioConfig}
    (h : readConfig config .init stIno = .ok env) (hload : ∀ f, load env = .ok f → taskFilter env = .ok f)
    (hc : Ext4Dio.construct load env = .ok cfg) : FilterSpec config cfg.filter := by
  obtain ⟨filter, hf, hc⟩ := bind_eq_ok.mp hc
  obtain ⟨files, -, hc⟩ := bind_eq_ok.mp hc
  rw [← Except.ok.inj hc]
  exact taskFilter_spec (readConfig_spec h) (hload filter hf)

/-- **A constructed module rejects no inode.** -/
theorem inodeSelected_of_construct {load : Env → Except String FilterConfig} {cfg : DioConfig}
    (hc : Ext4Dio.construct load env = .ok cfg) (inodeId : UInt64) : inodeSelected cfg inodeId = true := by
  obtain ⟨filter, -, hc⟩ := bind_eq_ok.mp hc
  obtain ⟨files, -, hc⟩ := bind_eq_ok.mp hc
  rw [← Except.ok.inj hc]
  rfl

/-- The direct I/Os of a run whose starts are screened, by whatever is wanted of a call. -/
theorem dioCalls_startedBy {σ ε ο : Type} {cfg : DioConfig} {M : Machine σ ε ο} (P : DioProgram cfg M)
    (hf : FilterSpec config cfg.filter) (hinode : ∀ inodeId, inodeSelected cfg inodeId = true)
    {wanted : IterCall → Prop} {evs : List ε}
    (h : Run.AllSteps ((dioCalls P).Screened wanted (fun c => OtherName config c.task)) evs) :
    Run.AllSteps ((dioCalls P).StartedBy wanted) evs := by
  refine StartedCache.startedBy_of_screened ?_ h
  intro c
  show _ ∧ _ ↔ _
  rw [passes_iff_not_otherName hf, and_iff_left (hinode c.inodeId)]

/-- **For every accepted configuration and each of the three modules: in a run in which every start by a
    task that is not selected has another name than the configured one and finds no entry of its request
    or kiocb, or has not and gets no entry, everything that ends with a record was started by a selected task.** -/
theorem selected_of_screened (h : readConfig config .init stIno = .ok env) :
    (∀ filter, BlockTrace.bpfLoadAndVerify env = .ok filter → ∀ evs,
      Run.AllSteps ((blkRequests filter).Screened (fun c => Selected config c.task)
        (fun c => OtherName config c.task)) evs →
      Run.AllSteps ((blkRequests filter).StartedBy (fun c => Selected config c.task)) evs) ∧
    (∀ cfg, Ext4Dio.Simple.construct env = .ok cfg → ∀ evs,
      Run.AllSteps ((dioCalls (simpleProgram cfg)).Screened (fun c => Selected config c.task)
        (fun c => OtherName config c.task)) evs →
      Run.AllSteps ((dioCalls (simpleProgram cfg)).StartedBy (fun c => Selected config c.task)) evs) ∧
    ∀ cfg, Ext4Dio.Info.construct env = .ok cfg → ∀ evs,
      Run.AllSteps ((dioCalls (infoProgram cfg)).Screened (fun c => Selected config c.task)
        (fun c => OtherName config c.task)) evs →
      Run.AllSteps ((infoRequests cfg).Screened (fun c => Selected config c.task)
        (fun c => OtherName config c.task)) evs →
      Run.AllSteps ((dioCalls (infoProgram cfg)).StartedBy (fun c => Selected config c.task)) evs ∧
        Run.AllSteps ((infoRequests cfg).StartedBy (fun c => Selected config c.task)) evs := by
  refine ⟨?_, ?_, ?_⟩
  · intro filter hf evs hscreen
    have hspec := taskFilter_spec (readConfig_spec h) (taskFilterOnly_ok hf)
    exact StartedCache.startedBy_of_screened (fun c => passes_iff_not_otherName hspec c.task) hscreen
  · intro cfg hc evs hscreen
    have hspec := filterSpec_of_construct h (fun f hf => hf) hc
    exact dioCalls_startedBy (simpleProgram cfg) hspec (inodeSelected_of_construct hc) hscreen
  · intro cfg hc evs hdio hrq
    have hspec := filterSpec_of_construct h (fun f hf => taskFilterOnly_ok hf) hc
    exact ⟨dioCalls_startedBy (infoProgram cfg) hspec (inodeSelected_of_construct hc) hdio,
      StartedCache.startedBy_of_screened (fun c => passes_iff_not_otherName hspec c.task) hrq⟩

end Honoured

/-! ## A selection by name and a selection by process -/

/-- A configuration that selects the process `pid` and the name `common`, and no files. -/
def selectTask (pid : Int64) (common : Str) : Config where
  name := []
  eventType := "dio"
  traceLevel := "simple"
  filter := ⟨false, 30, "sum"⟩
  loggerIoUringDepth := 32
  pid := pid
  common := common
  files := []
  showBpfInternal := false
  pmcInv := 1000
  heatmapRow := 20

/-- A write of `t`, from its start to its completion. -/
def oneWrite (t : Task) : List Ext4Dio.DioProbe :=
  [.ext4DioWriteIter t 1 100 (CharArray.zero 16) 20, .iomapDioBioActor t 5 1 30,
    .iomapDioComplete t 5 1 4096 60 true]

/-- The same write in the info tracer, with one request. -/
def oneInfoWrite (t : Task) : List InfoProbe :=
  [.ext4DioWriteIter t 1 100 (CharArray.zero 16) 20, .iomapDioBioActor t 5 1 30, .rqQosTrack t 2 5 40,
    .blkAccountIoDone 2 50 0 9 8 1 true, .kfree t 5 1 4096 60 (some 0)]

/-- One request of `t`. -/
def oneBlkRequest (t : Task) : List BlkProbe :=
  [.blkMqSubmitBio t 1 0 10 true, .rqQosTrack t 2 1 0 20, .blkAccountIoDone 2 50 0 8 1 true]

/-- `"db"`. -/
def dbName : Str := [100, 98]

/-- Process `7`, named `"db"`. -/
def dbTask : Task := ⟨7, 7, 1, some (padCommon dbName)⟩

/-- The only request of the run is tracked by its task. -/
theorem tracked_oneBlkRequest {t : Task} {e : BlkProbe} (he : e ∈ oneBlkRequest t) {k : Ptr} {c : QosTrack}
    (hc : e.tracked k = some c) : c.task = t := by
  simp only [oneBlkRequest, List.mem_cons, List.not_mem_nil, or_false] at he
  rcases he with rfl | rfl | rfl
  · cases hc
  · obtain ⟨-, hc⟩ := Option.ite_none_right_eq_some.mp hc
    rw [← Option.some.inj hc]
  · cases hc

/-- So is the only request of the write in the info tracer. -/
theorem tracked_oneInfoWrite {t : Task} {e : InfoProbe} (he : e ∈ oneInfoWrite t) {k : Ptr} {c : QosTrack}
    (hc : e.tracked k = some c) : c.task = t := by
  simp only [oneInfoWrite, List.mem_cons, List.not_mem_nil, or_false] at he
  rcases he with rfl | rfl | rfl | rfl | rfl
  · cases hc
  · cases hc
  · obtain ⟨-, hc⟩ := Option.ite_none_right_eq_some.mp hc
    rw [← Option.some.inj hc]
  · cases hc
  · cases hc

/-- The only iter call of the write is its task's, on inode `100`. -/
theorem start_oneWrite {cfg : DioConfig} {t : Task} {e : Ext4Dio.DioProbe} (he : e ∈ oneWrite t) {k : Ptr}
    {c : IterCall} (hc : (dioCalls (simpleProgram cfg)).start e k = some c) :
    c.task = t ∧ c.inodeId = 100 := by
  obtain ⟨hiter, -⟩ := Option.filter_eq_some_iff.mp hc
  simp only [oneWrite, List.mem_cons, List.not_mem_nil, or_false] at he
  rcases he with rfl | rfl | rfl
  · obtain rfl := Option.some.inj hiter
    exact ⟨rfl, rfl⟩
  · exact absurd hiter (by simp [DioProgram.iter?, simpleProgram, Ext4Dio.DioProbe.iter?])
  · exact absurd hiter (by simp [DioProgram.iter?, simpleProgram, Ext4Dio.DioProbe.iter?])

theorem start_oneInfoWrite {cfg : DioConfig} {t : Task} {e : InfoProbe} (he : e ∈ oneInfoWrite t) {k : Ptr}
    {c : IterCall} (hc : (dioCalls (infoProgram cfg)).start e k = some c) :
    c.task = t ∧ c.inodeId = 100 := by
  obtain ⟨hiter, -⟩ := Option.filter_eq_some_iff.mp hc
  simp only [oneInfoWrite, List.mem_cons, List.not_mem_nil, or_false] at he
  rcases he with rfl | rfl | rfl | rfl | rfl
  · obtain rfl := Option.some.inj hiter
    exact ⟨rfl, rfl⟩
  · exact absurd hiter (by simp [DioProgram.iter?, infoProgram, InfoProbe.dio, Ext4Dio.DioProbe.iter?])
  · exact absurd hiter (by simp [DioProgram.iter?, infoProgram, InfoProbe.dio])
  · exact absurd hiter (by simp [DioProgram.iter?, infoProgram, InfoProbe.dio])
  · exact absurd hiter (by simp [DioProgram.iter?, infoProgram, InfoProbe.dio, Ext4Dio.DioProbe.iter?])

/-- If the write is emitted, it is its own call that was wanted. -/
theorem wanted_of_oneWrite {cfg : DioConfig} {t : Task} {wanted : IterCall → Prop}
    (hemit : (dioTracer cfg).out ((oneWrite t).take 2) (.iomapDioComplete t 5 1 4096 60 true) ≠ [])
    (h : Run.AllSteps ((dioCalls (simpleProgram cfg)).StartedBy wanted) (oneWrite t)) :
    ∃ c, wanted c ∧ c.task = t ∧ c.inodeId = 100 := by
  obtain ⟨r, hr⟩ := List.exists_mem_of_ne_nil _ hemit
  have hlast := Run.allSteps_iff.mp h ((oneWrite t).take 2) _ [] rfl
  obtain ⟨k, -, w, hw, hsel⟩ := hlast r hr (Option.some_ne_none r)
  -- the run has no other start
  obtain ⟨e, mid, hs, he, -⟩ := Run.split_of_lastWith hw
  have hmem : e ∈ oneWrite t := List.mem_of_mem_take (by rw [hs]; simp)
  exact ⟨w.2, hsel, start_oneWrite hmem he⟩

/-- With the name alone, a task of that name is selected in every module. -/
theorem selected_of_screened_name :
    ∃ env, readConfig (selectTask (-1) dbName) .init (fun _ => none) = .ok env ∧
      (∃ filter, BlockTrace.bpfLoadAndVerify env = .ok filter ∧
        Run.AllSteps ((blkRequests filter).StartedBy
          (fun c => Selected (selectTask (-1) dbName) c.task)) (oneBlkRequest dbTask)) ∧
      (∃ cfg, Ext4Dio.Simple.construct env = .ok cfg ∧
        Run.AllSteps ((dioCalls (simpleProgram cfg)).StartedBy
          (fun c => Selected (selectTask (-1) dbName) c.task)) (oneWrite dbTask)) ∧
      ∃ cfg, Ext4Dio.Info.construct env = .ok cfg ∧
        (Run.AllSteps ((dioCalls (infoProgram cfg)).StartedBy
          (fun c => Selected (selectTask (-1) dbName) c.task)) (oneInfoWrite dbTask) ∧
        Run.AllSteps ((infoRequests cfg).StartedBy
          (fun c => Selected (selectTask (-1) dbName) c.task)) (oneInfoWrite dbTask)) := by
  have hdb : Selected (selectTask (-1) dbName) dbTask := by decide
  have hconfig : readConfig (selectTask (-1) dbName) .init (fun _ => none) = .ok _ := rfl
  refine ⟨_, hconfig, ⟨_, rfl, ?_⟩, ⟨_, rfl, ?_⟩, ⟨_, rfl, ?_⟩⟩
  · refine (selected_of_screened hconfig).1 _ rfl _ (StartedCache.screened_of_wanted ?_)
    intro e he k t ht
    rw [tracked_oneBlkRequest he ht]
    exact hdb
  · refine (selected_of_screened hconfig).2.1 _ rfl _ (StartedCache.screened_of_wanted ?_)
    intro e he k c hc
    rw [(start_oneWrite he hc).1]
    exact hdb
  · refine (selected_of_screened hconfig).2.2 _ rfl _ (StartedCache.screened_of_wanted ?_)
      (StartedCache.screened_of_wanted ?_)
    · intro e he k c hc
      rw [(start_oneInfoWrite he hc).1]
      exact hdb
    · intro e he k t ht
      rw [tracked_oneInfoWrite he ht]
      exact hdb

/-- Process `7` without a name of its own. -/
def otherTask : Task := ⟨7, 7, 1, none⟩

/-- **With only process `42` selected, a write of process `7` is logged.** -/
theorem not_selected_process :
    ∃ env cfg, readConfig (selectTask 42 []) .init (fun _ => none) = .ok env ∧
      Ext4Dio.Simple.construct env = .ok cfg ∧
      (∃ m : Ext4Dio.Simple.SimpleModule Unit, Ext4Dio.Simple.deliver (.new 1 none)
          ((dioTracer cfg).emit (oneWrite otherTask)) = .ok m ∧ m.logRows "ext4_dio_simple_event" ≠ []) ∧
      ¬ Run.AllSteps ((dioCalls (simpleProgram cfg)).StartedBy (fun c => Selected (selectTask 42 []) c.task))
        (oneWrite otherTask) := by
  have hconfig : readConfig (selectTask 42 []) .init (fun _ => none) = .ok _ := rfl
  refine ⟨_, ⟨.off, false, .empty⟩, hconfig, rfl, ⟨_, rfl, by decide⟩, ?_⟩
  intro h
  obtain ⟨c, hsel, htask, -⟩ := wanted_of_oneWrite (by decide) h
  rw [htask] at hsel
  exact absurd hsel (by decide)

end StorTrace
