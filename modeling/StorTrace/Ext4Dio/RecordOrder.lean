import StorTrace.Ext4Dio.Aligned
import StorTrace.Ext4Dio.Report
import StorTrace.Lib.Stamped

/-!
# `Ext4Dio.RecordOrder` — do the records of the direct I/Os arrive in time order?

A completion handler reads the clock into `end_block_io` and only then reserves its record, and the ring
buffer delivers records in the order of their reservations. On two processors the one that read the clock
first may reserve second.

The post-processor takes the first row of the table as the origin of `record_time`, and the throughput
collector the first record as `start_time`. `records_in_order` says when that is sound.
-/

namespace StorTrace.Ext4Dio

/-! ## The completion handlers in two steps -/

/-- A call of `iomap_dio_complete(dio)` or, for the info program, of `kfree(dio)`, with what the handler
    reads. -/
structure CompleteCall where
  task : Task
  dio : Ptr
  iocb : Ptr
  size : Int64
  now : TimeStramp
deriving DecidableEq

/-- What a handler holds between reading the clock and reserving a record: its entry, which nobody else
    completes. -/
structure Completing where
  dio : Ptr
  iocb : Ptr
  event : SimpleDioEvent
deriving DecidableEq

section Simple

variable (cfg : DioConfig) (s : DioState)

/-- `kpiomap_dio_complete` up to the reservation. -/
def enterComplete (call : CompleteCall) : DioState × Option Completing :=
  if passes cfg.filter call.task then
    match s.eventCache.lookupElem call.iocb with
    | some v =>
        ({ s with
            eventCache := s.eventCache.modifyElem call.iocb (·.onComplete call.task call.size call.now) },
          some ⟨call.dio, call.iocb, v.onComplete call.task call.size call.now⟩)
    | none => (s, none)
  else (s, none)

/-- `kpiomap_dio_complete` from the reservation on. -/
def leaveComplete (h : Completing) (reserve : Bool) : DioState × List SimpleDioEvent :=
  ({ s with eventCache := s.eventCache.deleteElem h.iocb }, if reserve then [h.event] else [])

/-- **The two steps make up the handler.** -/
theorem kpIomapDioComplete_eq (call : CompleteCall) (reserve : Bool) :
    kpIomapDioComplete cfg s call.task call.iocb call.size call.now reserve =
      match enterComplete cfg s call with
      | (s, some h) => leaveComplete s h reserve
      | (s, none) => (s, []) := by
  unfold kpIomapDioComplete enterComplete
  by_cases hp : passes cfg.filter call.task = true
  · rw [if_pos hp, if_pos hp]
    cases s.eventCache.lookupElem call.iocb with
    | none => rfl
    | some v =>
        simp only [leaveComplete]
        rw [BpfHash.deleteElem_modifyElem]
  · rw [if_neg hp, if_neg hp]

end Simple

section Info

variable (cfg : DioConfig) (s : InfoState)

/-- `kpfree` up to the reservation. -/
def enterKfree (call : CompleteCall) : InfoState × Option Completing :=
  ({ s with dio := (enterComplete cfg s.dio call).1 }, (enterComplete cfg s.dio call).2)

/-- `kpfree` from the reservation on; `slot` is what the reserved record holds as its `dio_uid`. -/
def leaveKfree (h : Completing) (slot : Option UInt64) : InfoState × List InfoRecord :=
  let dio := { s.dio with eventCache := s.dio.eventCache.deleteElem h.iocb }
  match slot with
  | some uninit =>
      ({ s with dio := dio, dioFilter := s.dioFilter.deleteElem h.dio },
        [.dioInfo ⟨(s.dioFilter.lookupElem h.dio).getD uninit, h.event⟩])
  | none => ({ s with dio := dio }, [])

/-- **The two steps make up the handler.** -/
theorem kpKfree_eq (call : CompleteCall) (slot : Option UInt64) :
    kpKfree cfg s call.task call.dio call.iocb call.size call.now slot =
      match enterKfree cfg s call with
      | (s, some h) => leaveKfree s h slot
      | (s, none) => (s, []) := by
  unfold kpKfree enterKfree enterComplete
  by_cases hp : passes cfg.filter call.task = true
  · rw [if_pos hp, if_pos hp]
    cases s.dio.eventCache.lookupElem call.iocb with
    | none => rfl
    | some v =>
        cases slot with
        | none =>
            simp only [leaveKfree]
            rw [BpfHash.deleteElem_modifyElem]
        | some uninit =>
            simp only [leaveKfree]
            rw [BpfHash.deleteElem_modifyElem]
  · rw [if_neg hp, if_neg hp]

end Info

/-! ## Handlers on several processors -/

/-- A probe of the simple program that is no completion. -/
def otherDioStep (cfg : DioConfig) (s : DioState) : DioProbe → Option (DioState × List SimpleDioEvent)
  | .iomapDioComplete .. => none
  | e => some (dioStep cfg s e)

/-- A probe of the info program that is no `kfree`. -/
def otherInfoStep (cfg : DioConfig) (s : InfoState) : InfoProbe → Option (InfoState × List InfoRecord)
  | .kfree .. => none
  | e => some (infoStep cfg s e)

/-- The handler keeps the reading it took. -/
theorem endBlockIo_enterComplete {cfg : DioConfig} {s : DioState} {call : CompleteCall} {h : Completing}
    (hin : (enterComplete cfg s call).2 = some h) : h.event.endBlockIo = call.now := by
  unfold enterComplete at hin
  split at hin
  · split at hin
    · rw [← Option.some.inj hin]
      rfl
    · cases hin
  · cases hin

/-- The simple program. -/
def dioStamper (cfg : DioConfig) :
    Stamper DioState DioProbe CompleteCall Completing Bool SimpleDioEvent Nat where
  init := .init
  start := 0
  time call := call.now.toNat
  other := otherDioStep cfg
  enter := enterComplete cfg
  leave := leaveComplete
  stamp h := h.event.endBlockIo.toNat
  stampOf v := some v.endBlockIo.toNat
  other_stamps := by
    intro s e q h
    cases e with
    | iomapDioComplete => cases h
    | newSyncWrite => rw [← Option.some.inj h]; rfl
    | newSyncRead => rw [← Option.some.inj h]; rfl
    | ext4DioWriteIter => rw [← Option.some.inj h]; rfl
    | ext4DioReadIter => rw [← Option.some.inj h]; rfl
    | iomapDioBioActor => rw [← Option.some.inj h]; rfl
  enter_stamp h := congrArg UInt64.toNat (endBlockIo_enterComplete h)
  leave_stamps s h reserve := by
    cases reserve with
    | true => exact Or.inr rfl
    | false => exact Or.inl rfl

/-- The reading a record of the info program was published under, if it is that of a direct I/O. -/
def InfoRecord.endStamp (r : InfoRecord) : Option Nat := r.dioInfo?.map (·.simEvent.endBlockIo.toNat)

/-- The info program. -/
def infoStamper (cfg : DioConfig) :
    Stamper InfoState InfoProbe CompleteCall Completing (Option UInt64) InfoRecord Nat where
  init := .init
  start := 0
  time call := call.now.toNat
  other := otherInfoStep cfg
  enter := enterKfree cfg
  leave := leaveKfree
  stamp h := h.event.endBlockIo.toNat
  stampOf := InfoRecord.endStamp
  other_stamps := by
    intro s e q h
    rw [List.filterMap_eq_nil_iff]
    intro r hr
    have hq : otherInfoStep cfg s e = some (infoStep cfg s e) := by
      cases e with
      | kfree => cases h
      | _ => rfl
    rw [hq] at h
    rw [← Option.some.inj h] at hr
    -- only a `kfree` sends the record of a direct I/O
    cases mem_infoStep_iff.mp hr with
    | dioInfo => cases hq
    | nvmeHctx => rfl
    | scsiHctx => rfl
    | rqInfo => rfl
  enter_stamp h := congrArg UInt64.toNat (endBlockIo_enterComplete h)
  leave_stamps s h slot := by
    cases slot with
    | some uninit => exact Or.inr rfl
    | none => exact Or.inl rfl

/-! ## What the consumers rely on -/

/-- `record_time[i]`, with `start` the end of the direct I/O in the first row. -/
def recordTime (start : TimeStramp) (row : DioStages) : UInt64 := row.endDioIo - start

/-- **No `record_time` of the table wraps below zero.** -/
def RecordTimesExact (stages : List UInt8 → DioStages) (table : List (List UInt8)) : Prop :=
  ∀ first ∈ table.head?, ∀ row ∈ table,
    ((recordTime (stages first).endDioIo (stages row)).toNat : Int) =
      (stages row).endDioIo.toNat - (stages first).endDioIo.toNat

/-- A `commit` of the time `tp` does not come before the `start_time` of the collector. -/
def CommitInTime (c : TimeThroughputPmc) (tp : TimeStramp) : Prop := (c.align tp).startTime ≤ tp

/-- **The records of the simple tracer are delivered in time order**, and however many of them the module
    has processed, so are the rows it logged and the next `commit`. -/
structure SimpleInOrder (delivered : List SimpleDioEvent) : Prop where
  sorted : delivered.Pairwise (fun v w => v.endBlockIo ≤ w.endBlockIo)
  recordTimes : ∀ {δ : Type} {pmcInv : UInt64} {filter : Option (Simple.QuantileFilter δ)}
    {logs : List SimpleDioEvent} {m : Simple.SimpleModule δ}, logs <+: delivered →
    Simple.deliver (.new pmcInv filter) logs = .ok m → RecordTimesExact .ofSimpleRow m.eventTable
  commits : ∀ {δ : Type} {pmcInv : UInt64} {filter : Option (Simple.QuantileFilter δ)}
    {logs : List SimpleDioEvent} {v : SimpleDioEvent} {m : Simple.SimpleModule δ}, logs ++ [v] <+: delivered →
    Simple.deliver (.new pmcInv filter) logs = .ok m → CommitInTime m.collectors.dioThroughtput v.endBlockIo

/-- **The records of the info tracer** that carry a direct I/O, likewise. -/
structure InfoInOrder (delivered : List InfoRecord) : Prop where
  sorted : (delivered.filterMap InfoRecord.dioInfo?).Pairwise
    (fun log log' => log.simEvent.endBlockIo ≤ log'.simEvent.endBlockIo)
  recordTimes : ∀ {pmcInv : UInt64} {heatmapRow : Int} {recs : List InfoRecord} {m : Info.InfoModule},
    recs <+: delivered → Info.deliver (.new pmcInv heatmapRow) recs = .ok m →
    RecordTimesExact .ofInfoRow m.dioTable
  commits : ∀ {pmcInv : UInt64} {heatmapRow : Int} {recs : List InfoRecord} {log : DioInfoEvent}
    {m : Info.InfoModule}, recs ++ [.dioInfo log] <+: delivered → Info.deliver (.new pmcInv heatmapRow) recs = .ok m →
    CommitInTime m.collectors.dioThroughtput log.simEvent.endBlockIo

/-! ## Rows -/

/-- A table whose rows are those of events in time order. -/
theorem recordTimesExact_of_sorted {stages : List UInt8 → DioStages} {table : List (List UInt8)}
    {vs : List SimpleDioEvent} (hrows : table.map stages = vs.map DioStages.ofEvent)
    (hsorted : vs.Pairwise (fun v w => v.endBlockIo ≤ w.endBlockIo)) : RecordTimesExact stages table := by
  have hends : table.map (fun row => (stages row).endDioIo) = vs.map SimpleDioEvent.endBlockIo := by
    have h := congrArg (List.map DioStages.endDioIo) hrows
    rw [List.map_map, List.map_map] at h
    exact h
  have hpair : (table.map (fun row => (stages row).endDioIo)).Pairwise (· ≤ ·) := by
    rw [hends]
    exact List.pairwise_map.mpr hsorted
  intro first hfirst row hrow
  have hle : (stages first).endDioIo ≤ (stages row).endDioIo := by
    cases table with
    | nil => cases hfirst
    | cons first' rest =>
        obtain rfl : first' = first := Option.some.inj hfirst
        rcases List.mem_cons.mp hrow with rfl | hrow
        · exact UInt64.le_refl _
        · exact List.rel_of_pairwise_cons (List.pairwise_map.mp hpair) hrow
  rw [recordTime, UInt64.toNat_sub_of_le _ _ hle]
  exact Int.ofNat_sub (UInt64.le_iff_toNat_le.mp hle)

/-! ## Commits -/

/-- The `commit`s of direct I/Os to the throughput collector. -/
def throughputOf (c : TimeThroughputPmc) (vs : List SimpleDioEvent) : TimeThroughputPmc :=
  vs.foldl (fun c v => c.commit v.endBlockIo v.dioSize.toUInt64) c

/-- The first `commit` sets the `start_time`. -/
theorem startTime_commit (c : TimeThroughputPmc) (tp data : UInt64) :
    (c.commit tp data).started = true ∧ (c.commit tp data).startTime = (c.align tp).startTime :=
  ⟨TimeThroughputPmc.started_align, rfl⟩

/-- A collector that was started keeps it. -/
theorem startTime_throughputOf {c : TimeThroughputPmc} (hs : c.started = true) (vs : List SimpleDioEvent) :
    (throughputOf c vs).started = true ∧ (throughputOf c vs).startTime = c.startTime := by
  induction vs generalizing c with
  | nil => exact ⟨hs, rfl⟩
  | cons v rest ih =>
      obtain ⟨hs₁, hstart⟩ := startTime_commit c v.endBlockIo v.dioSize.toUInt64
      rw [TimeThroughputPmc.align_of_started hs] at hstart
      obtain ⟨hs', hstart'⟩ := ih hs₁
      exact ⟨hs', hstart'.trans hstart⟩

/-- A collector that has seen events in time order and gets one that is not before them. -/
theorem commitInTime_of_sorted {pmcInv : UInt64} {vs : List SimpleDioEvent} {v : SimpleDioEvent}
    (hsorted : (vs ++ [v]).Pairwise (fun v w => v.endBlockIo ≤ w.endBlockIo)) :
    CommitInTime (throughputOf (.new pmcInv) vs) v.endBlockIo := by
  unfold CommitInTime
  cases vs with
  | nil =>
      show v.endBlockIo ≤ v.endBlockIo
      exact UInt64.le_refl _
  | cons first rest =>
      obtain ⟨hs₁, hstart₁⟩ := startTime_commit (.new pmcInv) first.endBlockIo first.dioSize.toUInt64
      obtain ⟨hs, hstart⟩ := startTime_throughputOf hs₁ rest
      show ((throughputOf ((TimeThroughputPmc.new pmcInv).commit first.endBlockIo first.dioSize.toUInt64)
        rest).align v.endBlockIo).startTime ≤ v.endBlockIo
      rw [TimeThroughputPmc.align_of_started hs, hstart, hstart₁]
      show first.endBlockIo ≤ v.endBlockIo
      exact List.rel_of_pairwise_cons hsorted (by simp)

/-- The simple module commits every direct I/O, selected or not. -/
theorem dioThroughtput_deliver {δ : Type} {m m' : Simple.SimpleModule δ} {logs : List SimpleDioEvent}
    (h : Simple.deliver m logs = .ok m') :
    m'.collectors.dioThroughtput = throughputOf m.collectors.dioThroughtput logs := by
  induction logs generalizing m with
  | nil => rw [← Except.ok.inj h]; rfl
  | cons v rest ih =>
      obtain ⟨m₁, h₁, h₂⟩ := bind_eq_ok.mp h
      obtain ⟨flag, -, hm⟩ := bind_eq_ok.mp h₁
      rw [ih h₂, ← Except.ok.inj hm]
      show throughputOf ((Simple.doEvent m v).1.collectors.dioThroughtput.commit v.endBlockIo v.dioSize.toUInt64) rest = _
      rw [Simple.collectors_doEvent]
      rfl

/-- The info module commits every direct I/O. -/
theorem dioThroughtput_deliver_info {m m' : Info.InfoModule} {recs : List InfoRecord}
    (h : Info.deliver m recs = .ok m') :
    m'.collectors.dioThroughtput = throughputOf m.collectors.dioThroughtput
      ((recs.filterMap InfoRecord.dioInfo?).map DioInfoEvent.simEvent) := by
  induction recs generalizing m with
  | nil => rw [← Except.ok.inj h]; rfl
  | cons r rest ih =>
      obtain ⟨m₁, h₁, h₂⟩ := bind_eq_ok.mp h
      rw [ih h₂]
      rw [Info.proxy_eq] at h₁
      cases r with
      | hctx state => rw [← Except.ok.inj h₁]; rfl
      | dioInfo log =>
          obtain ⟨flag, -, hm⟩ := bind_eq_ok.mp h₁
          rw [← Except.ok.inj hm]
          rfl
      | rqInfo log =>
          obtain ⟨m₂, h₃, h₄⟩ := bind_eq_ok.mp h₁
          obtain ⟨d, -, hm₂⟩ := bind_eq_ok.mp h₃
          obtain ⟨c, -, hm⟩ := bind_eq_ok.mp h₄
          rw [← Except.ok.inj hm, ← Except.ok.inj hm₂]
          rfl

/-! ## From the order of the records to the consumers -/

/-- The event table of the simple module is that of events of the stream, in order. -/
theorem eventTable_deliver {δ : Type} {pmcInv : UInt64} {filter : Option (Simple.QuantileFilter δ)}
    {logs : List SimpleDioEvent} {m : Simple.SimpleModule δ} (h : Simple.deliver (.new pmcInv filter) logs = .ok m) :
    ∃ vs : List SimpleDioEvent, vs.Sublist logs ∧
      m.eventTable.map DioStages.ofSimpleRow = vs.map DioStages.ofEvent := by
  obtain ⟨vs, events, metas, hsub, he, -, hstep⟩ := Simple.logRows_deliver h
  have hrows : m.logRows "ext4_dio_simple_event" = vs.map Simple.eventRow := by
    rw [he, hstep.events]
    rfl
  have hsz : ∀ row ∈ m.logRows "ext4_dio_simple_event", row.length = Simple.sizeofDioSimpleEventLog := by
    rw [hrows, List.forall_mem_map]
    intro v _
    rw [Simple.eventRow, length_wordsBytes]
    rfl
  refine ⟨vs, hsub, ?_⟩
  rw [Simple.SimpleModule.eventTable, Simple.SimpleModule.table, rowsOf_flatten hsz, hrows, List.map_map]
  exact List.map_congr_left (fun v _ => ofSimpleRow_eventRow v)

/-- That of the info module is the table of all its direct I/Os. -/
theorem dioTable_deliver {pmcInv : UInt64} {heatmapRow : Int} {recs : List InfoRecord} {m : Info.InfoModule}
    (h : Info.deliver (.new pmcInv heatmapRow) recs = .ok m) :
    m.dioTable.map DioStages.ofInfoRow =
      ((recs.filterMap InfoRecord.dioInfo?).map DioInfoEvent.simEvent).map DioStages.ofEvent := by
  obtain ⟨events, metas, he, -, hstep⟩ := Info.logRows_deliver_dio h
  have hrows : m.logRows "dio_info_event" = (recs.filterMap InfoRecord.dioInfo?).map Info.eventRow := by
    rw [he, hstep.events]
    rfl
  have hsz : ∀ row ∈ m.logRows "dio_info_event", row.length = Info.sizeofDioInfoEventLog := by
    rw [hrows, List.forall_mem_map]
    intro log _
    rw [Info.eventRow, length_wordsBytes]
    rfl
  rw [Info.InfoModule.dioTable, Info.InfoModule.table, rowsOf_flatten hsz, hrows, List.map_map, List.map_map]
  exact List.map_congr_left (fun log _ => ofInfoRow_eventRow log)

/-- Records in time order are enough for the simple module. -/
theorem simpleInOrder_of_sorted {delivered : List SimpleDioEvent}
    (h : delivered.Pairwise (fun v w => v.endBlockIo ≤ w.endBlockIo)) : SimpleInOrder delivered where
  sorted := h
  recordTimes hpre hm := by
    obtain ⟨vs, hsub, hrows⟩ := eventTable_deliver hm
    exact recordTimesExact_of_sorted hrows (h.sublist (hsub.trans hpre.sublist))
  commits hpre hm := by
    rw [dioThroughtput_deliver hm]
    exact commitInTime_of_sorted (h.sublist hpre.sublist)

/-- And for the info module. -/
theorem infoInOrder_of_sorted {delivered : List InfoRecord}
    (h : (delivered.filterMap InfoRecord.dioInfo?).Pairwise
      (fun log log' => log.simEvent.endBlockIo ≤ log'.simEvent.endBlockIo)) : InfoInOrder delivered where
  sorted := h
  recordTimes hpre hm := by
    refine recordTimesExact_of_sorted (dioTable_deliver hm) ?_
    exact List.pairwise_map.mpr (h.sublist (hpre.sublist.filterMap _))
  commits hpre hm := by
    rw [dioThroughtput_deliver_info hm]
    apply commitInTime_of_sorted
    have hsub := hpre.sublist.filterMap InfoRecord.dioInfo?
    rw [List.filterMap_append] at hsub
    have hevents := (List.pairwise_map (f := DioInfoEvent.simEvent)
      (R := fun v w : SimpleDioEvent => v.endBlockIo ≤ w.endBlockIo)).mpr (h.sublist hsub)
    rw [List.map_append] at hevents
    exact hevents

/-! ## The runs in which nobody is overtaken -/

section Runs

variable {π : Type} [DecidableEq π] {cfg : DioConfig}

theorem sorted_iff_simple {delivered : List SimpleDioEvent} :
    (delivered.filterMap (dioStamper cfg).stampOf).Pairwise (· ≤ ·) ↔
      delivered.Pairwise (fun v w => v.endBlockIo ≤ w.endBlockIo) := by
  have hmap : delivered.filterMap (dioStamper cfg).stampOf = delivered.map (fun v => v.endBlockIo.toNat) :=
    congrFun List.filterMap_eq_map delivered
  rw [hmap, List.pairwise_map]
  exact Iff.rfl

theorem sorted_iff_info {delivered : List InfoRecord} :
    (delivered.filterMap (infoStamper cfg).stampOf).Pairwise (· ≤ ·) ↔
      (delivered.filterMap InfoRecord.dioInfo?).Pairwise
        (fun log log' => log.simEvent.endBlockIo ≤ log'.simEvent.endBlockIo) := by
  have hmap : delivered.filterMap (infoStamper cfg).stampOf =
      (delivered.filterMap InfoRecord.dioInfo?).map (fun log => log.simEvent.endBlockIo.toNat) :=
    (List.map_filterMap ..).symm
  rw [hmap, List.pairwise_map]
  exact Iff.rfl

end Runs

/-- **Records arrive in time order** in every run, on any number of processors, in which no handler reserves
    a record while another one that read the clock before it has not. -/
theorem records_in_order (π : Type) [DecidableEq π] (cfg : DioConfig) :
    (∀ {evs : List (Stamper.Step π DioProbe CompleteCall Bool)} {s : Stamper.State π DioState Completing Nat}
        {delivered : List SimpleDioEvent}, ((dioStamper cfg).system π).run evs = some (s, delivered) →
      Run.AllSteps (((dioStamper cfg).system π).Before ((dioStamper cfg).InOrder π)) evs → SimpleInOrder delivered) ∧
    ∀ {evs : List (Stamper.Step π InfoProbe CompleteCall (Option UInt64))}
        {s : Stamper.State π InfoState Completing Nat} {delivered : List InfoRecord},
      ((infoStamper cfg).system π).run evs = some (s, delivered) →
      Run.AllSteps (((infoStamper cfg).system π).Before ((infoStamper cfg).InOrder π)) evs → InfoInOrder delivered := by
  constructor
  · intro evs s delivered hrun hin
    exact simpleInOrder_of_sorted (sorted_iff_simple.mp (Stamper.run_ordered hrun hin).sorted)
  · intro evs s delivered hrun hin
    exact infoInOrder_of_sorted (sorted_iff_info.mp (Stamper.run_ordered hrun hin).sorted)

/-- **Nothing else puts records out of order**: when every reservation succeeded and no handler is left
    inside, the records are in time order exactly if nobody was overtaken. -/
theorem sorted_iff_nobody_overtaken (π : Type) [DecidableEq π] (cfg : DioConfig) :
    (∀ {evs : List (Stamper.Step π DioProbe CompleteCall Bool)} {s : Stamper.State π DioState Completing Nat}
        {delivered : List SimpleDioEvent}, ((dioStamper cfg).system π).run evs = some (s, delivered) →
      Run.AllSteps (((dioStamper cfg).system π).Before ((dioStamper cfg).Publishes π)) evs →
      (∀ p, s.inside p = none) →
      (delivered.Pairwise (fun v w => v.endBlockIo ≤ w.endBlockIo) ↔
        Run.AllSteps (((dioStamper cfg).system π).Before ((dioStamper cfg).InOrder π)) evs)) ∧
    ∀ {evs : List (Stamper.Step π InfoProbe CompleteCall (Option UInt64))}
        {s : Stamper.State π InfoState Completing Nat} {delivered : List InfoRecord},
      ((infoStamper cfg).system π).run evs = some (s, delivered) →
      Run.AllSteps (((infoStamper cfg).system π).Before ((infoStamper cfg).Publishes π)) evs →
      (∀ p, s.inside p = none) →
      ((delivered.filterMap InfoRecord.dioInfo?).Pairwise
          (fun log log' => log.simEvent.endBlockIo ≤ log'.simEvent.endBlockIo) ↔
        Run.AllSteps (((infoStamper cfg).system π).Before ((infoStamper cfg).InOrder π)) evs) := by
  constructor
  · intro evs s delivered hrun hpub hout
    rw [← sorted_iff_simple]
    exact Stamper.sorted_iff_inOrder hrun hpub hout
  · intro evs s delivered hrun hpub hout
    rw [← sorted_iff_info]
    exact Stamper.sorted_iff_inOrder hrun hpub hout

/-! ## Two overlapping reads -/

/-- A completion of a read with the given kiocb. -/
def readCall (iocb : Ptr) (now : TimeStramp) : CompleteCall := ⟨⟨7, 7, 1, none⟩, iocb + 100, iocb, 4096, now⟩

/-- Two reads, whose handlers read the clock at `10` and at `20` and then reserve in the given order. -/
def overlapping (first second : Bool) : List (Stamper.Step Bool DioProbe CompleteCall Bool) :=
  [.other (.ext4DioReadIter ⟨7, 7, 1, none⟩ 1 100 (CharArray.zero 16) 5),
    .other (.ext4DioReadIter ⟨7, 7, 1, none⟩ 2 100 (CharArray.zero 16) 6),
    .enter false (readCall 1 10), .enter true (readCall 2 20), .leave first true, .leave second true]

/-- The same reads in the info program. -/
def overlappingInfo (first second : Bool) : List (Stamper.Step Bool InfoProbe CompleteCall (Option UInt64)) :=
  [.other (.ext4DioReadIter ⟨7, 7, 1, none⟩ 1 100 (CharArray.zero 16) 5),
    .other (.ext4DioReadIter ⟨7, 7, 1, none⟩ 2 100 (CharArray.zero 16) 6),
    .enter false (readCall 1 10), .enter true (readCall 2 20), .leave first (some 0), .leave second (some 0)]

/-- The records of reads that reserve in the order in which they read the clock. -/
theorem records_in_order_two_reads :
    (∃ s delivered, ((dioStamper .off).system Bool).run (overlapping false true) = some (s, delivered) ∧
      SimpleInOrder delivered) ∧
    ∃ s delivered, ((infoStamper .off).system Bool).run (overlappingInfo false true) = some (s, delivered) ∧
      InfoInOrder delivered := by
  constructor
  · obtain ⟨⟨s, delivered⟩, hrun⟩ := Option.isSome_iff_exists.mp
      (show (((dioStamper .off).system Bool).run (overlapping false true)).isSome = true by decide)
    exact ⟨s, delivered, hrun, (records_in_order Bool .off).1 hrun (by decide)⟩
  · obtain ⟨⟨s, delivered⟩, hrun⟩ := Option.isSome_iff_exists.mp
      (show (((infoStamper .off).system Bool).run (overlappingInfo false true)).isSome = true by decide)
    exact ⟨s, delivered, hrun, (records_in_order Bool .off).2 hrun (by decide)⟩

/-- The handler that read the clock second reserves first. -/
theorem not_in_order_overtaken :
    ¬ ∀ (π : Type) [DecidableEq π] (cfg : DioConfig) (evs : List (Stamper.Step π DioProbe CompleteCall Bool))
      (s : Stamper.State π DioState Completing Nat) (delivered : List SimpleDioEvent),
      ((dioStamper cfg).system π).run evs = some (s, delivered) → SimpleInOrder delivered := by
  intro h
  have hends : (((dioStamper .off).system Bool).run (overlapping true false)).map
      (fun r => r.2.map SimpleDioEvent.endBlockIo) = some [20, 10] := by decide
  obtain ⟨⟨s, delivered⟩, hrun, hmap⟩ := Option.map_eq_some_iff.mp hends
  have hsorted := List.pairwise_map.mpr (h Bool .off _ s delivered hrun).sorted
  rw [hmap] at hsorted
  exact absurd hsorted (by decide)

end StorTrace.Ext4Dio
