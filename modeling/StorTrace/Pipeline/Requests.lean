import StorTrace.Pipeline.DirectIo
import StorTrace.Viewer.Flow

/-!
# `Pipeline.Requests` — from the probes of the info tracer to the requests of each direct I/O

The info tracer logs every direct I/O and every request in logs of their own, and `process_dio_info_event` brings
them together by their ids: it joins the two tables, collects the joined rows of each direct I/O in `dio_rq_map` and
makes an object of their latencies.
-/

namespace StorTrace

/-! ## The join, direct I/O by direct I/O -/

open Grouping in
/-- The joined row of `B` with index `x` has one row of `A` with index `i`, or none. -/
theorem itemsOf_zipIdx {α : Type} (A : List α) (p : α → Prop) [DecidablePred p] (i x : ℕ) :
    itemsOf i ((A.zipIdx.filter (fun a => p a.1)).map (fun a => (a.2, x))) =
      if ∃ a ∈ A[i]?, p a then [x] else [] := by
  induction A using List.reverseRecOn with
  | nil => simp
  | append_singleton A a ih =>
      rw [List.zipIdx_append, List.filter_append, List.map_append, itemsOf, List.filter_append, List.map_append,
        ← itemsOf, ih]
      rcases Nat.lt_trichotomy i A.length with hlt | rfl | hgt
      · rw [List.getElem?_append_left hlt]
        by_cases hp : p a
        · simp [hp, Nat.ne_of_gt hlt]
        · simp [hp]
      · rw [List.getElem?_concat_length, List.getElem?_eq_none (le_refl _)]
        by_cases hp : p a <;> simp [hp]
      · rw [List.getElem?_eq_none (by omega), List.getElem?_eq_none (by simp; omega)]
        by_cases hp : p a
        · simp [hp, Nat.ne_of_lt hgt]
        · simp [hp]

open Grouping in
/-- The rows joined to row `i`: those of its key, in order. -/
theorem itemsOf_hashjoinVector (dInfo rqInfo : List Str) (i : ℕ) :
    itemsOf i (hashjoinVector 0 0 dInfo rqInfo 1) =
      (rqInfo.zipIdx.filter (fun b => ∃ ra ∈ dInfo[i]?, itemk ra 0 = itemk b.1 0)).map Prod.snd := by
  have happend : ∀ l l' : List (ℕ × ℕ), itemsOf i (l ++ l') = itemsOf i l ++ itemsOf i l' := by
    intro l l'
    rw [itemsOf, List.filter_append, List.map_append]
    rfl
  rw [hashjoinVector_one]
  induction rqInfo.zipIdx with
  | nil => rfl
  | cons b rest ih =>
      rw [List.flatMap_cons, happend, ih, itemsOf_zipIdx dInfo (fun ra => itemk ra 0 = itemk b.1 0) i b.2,
        List.filter_cons]
      by_cases hjoin : ∃ ra ∈ dInfo[i]?, itemk ra 0 = itemk b.1 0
      · rw [if_pos hjoin, if_pos (decide_eq_true hjoin)]
        rfl
      · rw [if_neg hjoin, if_neg (by simpa using hjoin)]
        rfl

/-- `dio_rq_map` holds them. -/
theorem lookup_dioRqMap (dInfo rqInfo : List Str) (i : ℕ) :
    (dioRqMap dInfo rqInfo).lookup i =
      if Grouping.itemsOf i (hashjoinVector 0 0 dInfo rqInfo 1) = [] then none
      else some (Grouping.itemsOf i (hashjoinVector 0 0 dInfo rqInfo 1)) := by
  have hfold : ∀ rows done : List ℕ, rows.foldl (fun rows row => rows ++ [row]) done = done ++ rows := by
    intro rows
    induction rows with
    | nil => simp
    | cons row rest ih =>
        intro done
        rw [List.foldl_cons, ih, List.append_assoc, List.singleton_append]
  rw [dioRqMap, Grouping.lookup_groupAll_empty, hfold, List.nil_append]

end StorTrace

namespace StorTrace.Ext4Dio.Info

open Meta Pipeline

/-! ## What the module commits -/

/-- The row of a request; a request of an unknown drive has none. -/
def rqRow (log : RqInfoEvent) : Str :=
  match rqWords log with
  | .ok d => wordsBytes d
  | .error _ => []

/-- An array that fills its row is committed whole. -/
theorem commitWords_eq {name : String} {ws : List UInt64} (h : 8 * ws.length = rowSizeOf formats name) :
    commitWords formats name ws = ⟨name, wordsBytes ws⟩ := congrArg (CommitCall.mk name) (commitWords_row h)

/-- The calls for one record. -/
def callsOf : InfoRecord → List CommitCall
  | .dioInfo log => [⟨"dio_info_event", eventRow log⟩, ⟨"dio_info_event_meta", metaRow log.simEvent⟩]
  | .hctx _ => []
  | .rqInfo log => [⟨"rq_info_event", rqRow log⟩]

/-- The stages of a request, those of the other driver zero. -/
def stagesOf (log : RqInfoEvent) : RqStages :=
  if log.rqComp.drive = scsiDrive then
    ⟨log.queueRq - log.rqBioStart, 0, log.rqComp.path.softirqDone - log.rqComp.rqStart, 0,
      log.rqComp.path.scsiEnd - log.rqComp.path.softirqDone, log.rqComp.accountIo - log.rqComp.path.scsiEnd⟩
  else
    ⟨log.queueRq - log.rqBioStart, log.rqComp.path.pciCompleteRq - log.rqComp.rqStart, 0,
      log.rqComp.path.nvmeCompleteRq - log.rqComp.path.pciCompleteRq, 0,
      log.rqComp.accountIo - log.rqComp.path.nvmeCompleteRq⟩

/-- What the row of a request holds. -/
theorem rqRow_spec {log : RqInfoEvent} {d : List UInt64} (h : rqWords log = .ok d) :
    d.length = 8 ∧ rqRow log = wordsBytes d ∧ itemk (rqRow log) 0 = log.dioUid ∧
      RqStages.ofRow (rqRow log) = stagesOf log := by
  have hrow : rqRow log = wordsBytes d := by rw [rqRow, h]
  rw [hrow]
  unfold rqWords at h
  unfold stagesOf
  split at h
  · next hscsi =>
    rw [if_pos hscsi, ← Except.ok.inj h]
    exact ⟨rfl, rfl, wordAt_wordsBytes _ 0 (by simp), RqStages.ofRow_wordsBytes ..⟩
  · next hscsi =>
    split at h
    · rw [if_neg hscsi, ← Except.ok.inj h]
      exact ⟨rfl, rfl, wordAt_wordsBytes _ 0 (by simp), RqStages.ofRow_wordsBytes ..⟩
    · cases h

variable {m m' : InfoModule} {r : InfoRecord} {recs : List InfoRecord}

/-- **One record**: its calls, and if it is a request its drive is known. -/
theorem commits_proxy (h : proxy m r = .ok m') :
    m'.commits = m.commits ++ callsOf r ∧ ∀ log ∈ r.rqInfo?, ∃ d, rqWords log = .ok d := by
  rw [proxy_eq] at h
  cases r with
  | hctx state =>
      rw [← Except.ok.inj h]
      exact ⟨(List.append_nil _).symm, by simp [InfoRecord.rqInfo?]⟩
  | dioInfo log =>
      obtain ⟨flag, -, hm⟩ := bind_eq_ok.mp h
      have hevent : commitWords formats "dio_info_event" (dioWords log) = ⟨"dio_info_event", eventRow log⟩ :=
        commitWords_eq rfl
      have hmeta : commitWords formats "dio_info_event_meta" (metaWords log.simEvent) =
          ⟨"dio_info_event_meta", metaRow log.simEvent⟩ := commitWords_eq rfl
      rw [← Except.ok.inj hm]
      refine ⟨?_, by simp [InfoRecord.rqInfo?]⟩
      simp [doEventDio, callsOf, hevent, hmeta]
  | rqInfo log =>
      obtain ⟨m₁, h₁, h₂⟩ := bind_eq_ok.mp h
      obtain ⟨d, hd, hm₁⟩ := bind_eq_ok.mp h₁
      obtain ⟨c, -, hm⟩ := bind_eq_ok.mp h₂
      obtain ⟨hlen, hrow, -, -⟩ := rqRow_spec hd
      have hcall : commitWords formats "rq_info_event" d = ⟨"rq_info_event", rqRow log⟩ := by
        rw [hrow]
        exact commitWords_eq (by rw [hlen]; rfl)
      rw [← Except.ok.inj hm, ← Except.ok.inj hm₁]
      refine ⟨by simp [callsOf, hcall], ?_⟩
      intro log' hlog
      obtain rfl := Option.some.inj hlog
      exact ⟨d, hd⟩

/-- **A stream**: the calls for its records, in order, and every request of a known drive. -/
theorem commits_deliver (h : deliver m recs = .ok m') :
    m'.commits = m.commits ++ recs.flatMap callsOf ∧
      ∀ log ∈ recs.filterMap InfoRecord.rqInfo?, ∃ d, rqWords log = .ok d := by
  induction recs generalizing m with
  | nil =>
      rw [← Except.ok.inj h]
      exact ⟨(List.append_nil _).symm, by simp⟩
  | cons r recs ih =>
      obtain ⟨m₁, h₁, h₂⟩ := bind_eq_ok.mp h
      obtain ⟨hcommits, hknown⟩ := commits_proxy h₁
      obtain ⟨hrest, hknown'⟩ := ih h₂
      refine ⟨by rw [hrest, hcommits, List.flatMap_cons, List.append_assoc], ?_⟩
      intro log hlog
      obtain ⟨r', hr', hlog'⟩ := List.mem_filterMap.mp hlog
      rcases List.mem_cons.mp hr' with rfl | hr'
      · exact hknown log hlog'
      · exact hknown' log (List.mem_filterMap.mpr ⟨r', hr', hlog'⟩)

/-- The rows of the three logs. -/
theorem rowsTo_callsOf (recs : List InfoRecord) :
    rowsTo "dio_info_event" (recs.flatMap callsOf) = (recs.filterMap InfoRecord.dioInfo?).map eventRow ∧
      rowsTo "dio_info_event_meta" (recs.flatMap callsOf) =
        (recs.filterMap InfoRecord.dioInfo?).map (fun log => metaRow log.simEvent) ∧
      rowsTo "rq_info_event" (recs.flatMap callsOf) = (recs.filterMap InfoRecord.rqInfo?).map rqRow := by
  induction recs with
  | nil => exact ⟨rfl, rfl, rfl⟩
  | cons r recs ih =>
      have hcons : ∀ name, rowsTo name ((r :: recs).flatMap callsOf) =
          rowsTo name (callsOf r) ++ rowsTo name (recs.flatMap callsOf) := by
        intro name
        rw [List.flatMap_cons, rowsTo, List.filter_append, List.map_append]
        rfl
      rw [hcons, hcons, hcons, ih.1, ih.2.1, ih.2.2]
      cases r with
      | hctx state => exact ⟨rfl, rfl, rfl⟩
      | dioInfo log => exact ⟨rfl, rfl, rfl⟩
      | rqInfo log => exact ⟨rfl, rfl, rfl⟩

theorem callsFit_callsOf (hknown : ∀ log ∈ recs.filterMap InfoRecord.rqInfo?, ∃ d, rqWords log = .ok d) :
    CallsFit formats (recs.flatMap callsOf) := by
  intro c hc
  obtain ⟨r, hr, hc⟩ := List.mem_flatMap.mp hc
  cases r with
  | hctx state => cases hc
  | dioInfo log =>
      simp only [callsOf, List.mem_cons, List.not_mem_nil, or_false] at hc
      rcases hc with rfl | rfl
      · exact ⟨fwfDioInfoEvent, by simp [formats], rfl, length_wordsBytes _⟩
      · exact ⟨fwfDioInfoEventMeta, by simp [formats], rfl, length_wordsBytes _⟩
  | rqInfo log =>
      obtain rfl := List.mem_singleton.mp hc
      obtain ⟨d, hd⟩ := hknown log (List.mem_filterMap.mpr ⟨_, hr, rfl⟩)
      obtain ⟨hlen, hrow, -, -⟩ := rqRow_spec hd
      refine ⟨fwfRqInfoEvent, by simp [formats], rfl, ?_⟩
      rw [hrow, length_wordsBytes, hlen]
      rfl

/-! ## The requests of a direct I/O -/

/-- The requests that carry the id of a direct I/O, with their positions among all. -/
def requestsOf (rqs : List RqInfoEvent) (d : DioInfoEvent) : List (RqInfoEvent × ℕ) :=
  rqs.zipIdx.filter (fun r => r.1.dioUid = d.dioUid)

section Requests

variable {dios : List DioInfoEvent} {rqs : List RqInfoEvent} {i : ℕ}

/-- **The rows joined to a direct I/O are those of its requests**, in order. -/
theorem itemsOf_requests (hknown : ∀ log ∈ rqs, ∃ d, rqWords log = .ok d) :
    Grouping.itemsOf i (hashjoinVector 0 0 (dios.map eventRow) (rqs.map rqRow) 1) =
      (dios[i]?.map (fun d => (requestsOf rqs d).map Prod.snd)).getD [] := by
  have huid : ∀ r ∈ rqs.zipIdx, itemk (rqRow r.1) 0 = r.1.dioUid := by
    intro r hr
    obtain ⟨w, hw⟩ := hknown r.1 (List.fst_mem_of_mem_zipIdx hr)
    exact (rqRow_spec hw).2.2.1
  rw [itemsOf_hashjoinVector, List.getElem?_map, List.zipIdx_map, List.filter_map, List.map_map]
  cases dios[i]? with
  | none => simp
  | some d =>
      have hevent : itemk (eventRow d) 0 = d.dioUid := wordAt_wordsBytes (dioWords d) 0 (by simp [dioWords])
      have hfilter : rqs.zipIdx.filter
          ((fun b => decide (∃ ra ∈ Option.map eventRow (some d), itemk ra 0 = itemk b.1 0)) ∘ Prod.map rqRow id) =
            requestsOf rqs d := by
        apply List.filter_congr
        intro r hr
        simp [huid r hr, hevent, eq_comm]
      rw [hfilter]
      rfl

/-- The object of a direct I/O has the latencies of its requests. -/
theorem rqData_requests (hknown : ∀ log ∈ rqs, ∃ d, rqWords log = .ok d) (d : DioInfoEvent) :
    (rqData (rqs.map rqRow) i ((requestsOf rqs d).map Prod.snd)).Perm
      ((dioIndexKey, .text (stdToString i)) ::
        (requestsOf rqs d).map (fun r => (stdToString r.2, .latency (stageOf (stagesOf r.1))))) := by
  have hnodup : ((requestsOf rqs d).map Prod.snd).Nodup := by
    have hall : (rqs.zipIdx.map Prod.snd).Nodup := by
      rw [List.zipIdx_map_snd]
      exact List.nodup_range'
    exact hall.sublist (List.filter_sublist.map Prod.snd)
  refine (rqData_perm hnodup).trans (List.Perm.of_eq ?_)
  rw [List.map_map]
  refine congrArg (List.cons _) (List.map_congr_left (fun r hr => ?_))
  have hget : rqs[r.2]? = some r.1 := List.mem_zipIdx_iff_getElem?.mp (List.mem_of_mem_filter hr)
  obtain ⟨w, hw⟩ := hknown r.1 (List.mem_of_getElem? hget)
  simp [rqEntry, List.getD_eq_getElem?_getD, hget, (rqRow_spec hw).2.2.2]

end Requests

/-! ## A whole trace -/

/-- What the post-processor makes of a trace with the direct I/Os `dios` and the requests `rqs`. -/
structure Dumps (disk : Disk) (path : Str) (dios : List DioInfoEvent) (rqs : List RqInfoEvent) : Prop where
  load : disk.loadTables path = some (.dioInfo (dios.map eventRow) (dios.map (fun log => metaRow log.simEvent))
    (rqs.map rqRow))
  /-- It reads the first row of a table that may have none, and nothing ends the last file name if its field does not. -/
  defined : processDioEvents .ofInfoRow (dios.map eventRow) (dios.map (fun log => metaRow log.simEvent)) = none ↔
    ∀ last ∈ (dios.map DioInfoEvent.simEvent).getLast?, 0 ∉ last.filename.data
  describes : ∀ json, processDioEvents .ofInfoRow (dios.map eventRow) (dios.map (fun log => metaRow log.simEvent)) =
    some json → Describes json (dios.map DioInfoEvent.simEvent)
  /-- `dio_rq_map` has the requests of each direct I/O that has any, and nothing else. -/
  requests : ∀ i rows, (dioRqMap (dios.map eventRow) (rqs.map rqRow)).lookup i = some rows ↔
    ∃ d, dios[i]? = some d ∧ requestsOf rqs d ≠ [] ∧ rows = (requestsOf rqs d).map Prod.snd
  /-- The object that is dumped for a direct I/O. -/
  latencies : ∀ i d, dios[i]? = some d → (rqData (rqs.map rqRow) i ((requestsOf rqs d).map Prod.snd)).Perm
    ((dioIndexKey, .text (stdToString i)) ::
      (requestsOf rqs d).map (fun r => (stdToString r.2, .latency (stageOf (stagesOf r.1)))))

/-- **A trace of the info tracer, from its probes to the requests of each direct I/O.** Whatever the probes of a run
    that can be processed, and whatever the order in which the ring carries out the writes, the files describe every
    direct I/O, and each has the latencies of exactly the requests that carry its id. -/
theorem dumps_infoTrace {φ : Type} [DecidableEq φ] (cfg : DioConfig) (probes : List InfoProbe) (pmcInv : UInt64)
    (heatmapRow : Int) {m : InfoModule} (h : deliver (.new pmcInv heatmapRow) ((infoTracer cfg).emit probes) = .ok m)
    {L : Logger φ} {disk : Disk} (hformat : L.fileFormat = formats) (hserved : Served L m.commits disk) :
    Dumps disk L.path (((infoTracer cfg).emit probes).filterMap InfoRecord.dioInfo?)
      (((infoTracer cfg).emit probes).filterMap InfoRecord.rqInfo?) := by
  obtain ⟨hcommits, hknown⟩ := commits_deliver h
  obtain ⟨hevents, hmetas, hrqs⟩ := rowsTo_callsOf ((infoTracer cfg).emit probes)
  have hall : m.commits = ((infoTracer cfg).emit probes).flatMap callsOf := hcommits
  have hfit : CallsFit formats m.commits := hall ▸ callsFit_callsOf hknown
  have hload := hserved.dioInfo hformat hfit
  have hlen := hserved.rowsTo_lt (by rw [hformat]; exact hfit) 0 fwfDioInfoEvent (by rw [hformat]; rfl)
  set dios := ((infoTracer cfg).emit probes).filterMap InfoRecord.dioInfo?
  set rqs := ((infoTracer cfg).emit probes).filterMap InfoRecord.rqInfo?
  rw [hall, hevents, hmetas, hrqs] at hload
  have hlen' : dios.length < 0x80000000 := by
    rw [hall] at hlen
    change (rowsTo "dio_info_event" _).length < _ at hlen
    rwa [hevents, List.length_map] at hlen
  have htables : InStep eventRow DioInfoEvent.simEvent (dios.map eventRow)
      (dios.map (fun log => metaRow log.simEvent)) dios := ⟨rfl, rfl⟩
  refine ⟨hload, htables.processDioEvents_eq_none ofInfoRow_eventRow hlen', htables.describes ofInfoRow_eventRow hlen', ?_, ?_⟩
  · intro i rows
    rw [lookup_dioRqMap, itemsOf_requests hknown]
    cases hd : dios[i]? with
    | none => simp
    | some d =>
        by_cases hnil : requestsOf rqs d = []
        · simp [hnil]
        · simpa [hnil] using eq_comm
  · intro i d _
    exact rqData_requests hknown d

/-- The logger of the module, on a file system where every path is a file of its own. -/
def infoLog : Logger Str where
  path := strBytes "t"
  fileFormat := formats
  fileAt := id
  disk := fun _ => .empty
  sqEntries := 8

/-- A write with one request that the driver completes. -/
def servedWrite : List InfoProbe :=
  oneRequest ⟨7, 7, 1, none⟩ [.nvmePciCompleteRq 2 40, .nvmeCompleteRq 2 50] ++
    [.kfree ⟨7, 7, 1, none⟩ 5 1 4096 70 (some 0)]

theorem dumps_infoTrace_write :
    ∃ (m : InfoModule) (disk : Disk), deliver (.new 1 1) ((infoTracer .off).emit servedWrite) = .ok m ∧
      Served infoLog m.commits disk ∧
      Dumps disk infoLog.path (((infoTracer .off).emit servedWrite).filterMap InfoRecord.dioInfo?)
        (((infoTracer .off).emit servedWrite).filterMap InfoRecord.rqInfo?) := by
  obtain ⟨m, hm⟩ : ∃ m, deliver (.new 1 1) ((infoTracer .off).emit servedWrite) = .ok m :=
    deliver_ok_iff.mpr (by decide)
  obtain ⟨hcommits, hknown⟩ := commits_deliver hm
  have hall : m.commits = ((infoTracer .off).emit servedWrite).flatMap callsOf := hcommits
  obtain ⟨disk, hdisk⟩ : ∃ disk, Served infoLog m.commits disk := by
    rw [hall]
    exact exists_served (L := infoLog) (by decide +kernel) registered_infoFormats (callsFit_callsOf hknown) (by decide)
      (by decide) (by decide) (by decide +kernel)
  exact ⟨m, disk, hm, hdisk, dumps_infoTrace .off servedWrite 1 1 hm rfl hdisk⟩

end StorTrace.Ext4Dio.Info
