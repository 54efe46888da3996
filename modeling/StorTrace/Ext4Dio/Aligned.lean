import StorTrace.Ext4Dio.Report
import StorTrace.Ext4Dio.Durations

/-!
# `Ext4Dio.Aligned` — the event log and its meta log hold rows of the same events

`proxy` writes the two rows of a direct I/O in two calls, and the quantile filter of the simple tracer may
drop the event in the first. The post-processor walks the event table and reads the meta table at the same
index, without checking that there is one.
-/

namespace StorTrace.Ext4Dio

/-! ## The post-processor's walk over the two tables -/

/-- `sizeof(struct dio_simple_event_log)`. -/
def Simple.sizeofDioSimpleEventLog : Nat := structSize [(8, 8), (8, 8), (8, 8), (8, 8)]

/-- `sizeof(struct dio_simple_meta_log)` and `sizeof(struct dio_info_event_meta_log)`. -/
def sizeofDioMetaLog : Nat := structSize [(8, 8), (8, 8), (16, 1), (16, 1)]

/-- What `process_dio_simple_event` and `process_dio_info_event` put together for one index; `none` for a name whose
    read runs past the meta table. -/
structure DioReportRow where
  stages : DioStages
  common : Option Str
  file : Option Str
deriving DecidableEq

/-- The memory of a meta table from `table[i]` on. -/
def metaFrom (metas : List (List UInt8)) (i : Nat) : List UInt8 := (metas.drop i).flatten

/-- One round of the loop; `none` when an index is out of range. -/
def reportRow (stages : List UInt8 → DioStages) (events metas : List (List UInt8)) (i : Nat) :
    Option DioReportRow :=
  match events[i]?, metas[i]? with
  | some event, some _ =>
      -- `std::string` of a field reads on until it meets a NUL
      some ⟨stages event, stdString ((metaFrom metas i).drop 16), stdString ((metaFrom metas i).drop 32)⟩
  | _, _ => none

/-- The loop over `d_simple.table` and over `d_info.table`. -/
def processDio (stages : List UInt8 → DioStages) (events metas : List (List UInt8)) :
    Option (List DioReportRow) :=
  (List.range events.length).mapM (reportRow stages events metas)

/-- A loop that is defined collects what each round returns. -/
theorem mapM_eq_some_iff {α β : Type} {f : α → Option β} {l : List α} {bs : List β} :
    l.mapM f = some bs ↔ bs.map some = l.map f := by
  induction l generalizing bs with
  | nil => cases bs <;> simp
  | cons a l ih =>
      rw [List.mapM_cons, List.map_cons]
      constructor
      · intro h
        obtain ⟨b, hb, h⟩ := Option.bind_eq_some_iff.mp h
        obtain ⟨rest, hrest, h⟩ := Option.bind_eq_some_iff.mp h
        obtain rfl := Option.some.inj h
        rw [List.map_cons, hb, ih.mp hrest]
      · intro h
        obtain ⟨b, rest, rfl, hb, hrest⟩ := List.map_eq_cons_iff.mp h
        rw [← hb, ih.mpr hrest]
        rfl

/-- And it is defined if every round is. -/
theorem exists_mapM {α β : Type} {f : α → Option β} {l : List α} (h : ∀ a ∈ l, ∃ b, f a = some b) :
    ∃ bs, l.mapM f = some bs := by
  induction l with
  | nil => exact ⟨[], rfl⟩
  | cons a l ih =>
      obtain ⟨⟨b, hb⟩, hrest⟩ := List.forall_mem_cons.mp h
      obtain ⟨bs, hbs⟩ := ih hrest
      exact ⟨b :: bs, by simp [List.mapM_cons, hb, hbs]⟩

theorem length_of_map_some {β : Type} {n : Nat} {f : Nat → Option β} {bs : List β}
    (h : bs.map some = (List.range n).map f) : bs.length = n := by
  simpa using congrArg List.length h

/-- What round `i` of it returned. -/
theorem getElem?_of_map_some {β : Type} {n : Nat} {f : Nat → Option β} {bs : List β}
    (h : bs.map some = (List.range n).map f) {i : Nat} (hi : i < n) : bs[i]? = f i := by
  have hget := congrArg (·[i]?) h
  simp only [List.getElem?_map, List.getElem?_range hi, Option.map_some] at hget
  obtain ⟨b, hb, heq⟩ := Option.map_eq_some_iff.mp hget
  rw [hb, heq]

/-- A loop that never goes out of range collects what each round returns. -/
theorem mapM_range_eq_some {β : Type} {n : Nat} {f : Nat → Option β} (h : ∀ i < n, ∃ b, f i = some b) :
    ∃ bs, (List.range n).mapM f = some bs ∧ bs.length = n ∧ ∀ i < n, bs[i]? = f i := by
  obtain ⟨bs, hbs⟩ := exists_mapM (fun i hi => h i (List.mem_range.mp hi))
  have hmap := mapM_eq_some_iff.mp hbs
  exact ⟨bs, hbs, length_of_map_some hmap, fun i hi => getElem?_of_map_some hmap hi⟩

/-! ## The rows of an event -/

/-- The row `do_meta` commits. -/
def metaRow (v : SimpleDioEvent) : List UInt8 := wordsBytes (metaWords v)

/-- A meta row is the type, the size and the two names as they stand in the event. -/
theorem metaRow_eq (v : SimpleDioEvent) :
    metaRow v = u64Bytes v.type.toUInt64 ++ u64Bytes v.dioSize.toUInt64 ++ v.common.data ++
      v.filename.data := by
  have hhalves (c : CharArray 16) (rest : List UInt8) :
      u64Bytes (u64OfBytes (c.data.take 8)) ++ (u64Bytes (u64OfBytes (c.data.drop 8)) ++ rest) =
        c.data ++ rest := by
    have hc := c.size_eq
    rw [u64Bytes_u64OfBytes (by rw [List.length_take]; omega),
      u64Bytes_u64OfBytes (by rw [List.length_drop]; omega), ← List.append_assoc, List.take_append_drop]
  have hname := hhalves v.filename []
  simp only [List.append_nil] at hname
  simp only [metaRow, metaWords, wordsBytes, List.flatMap_cons, List.flatMap_nil, List.append_nil,
    List.append_assoc]
  rw [hhalves, hname]

theorem length_metaRow (v : SimpleDioEvent) : (metaRow v).length = sizeofDioMetaLog := by
  rw [metaRow, length_wordsBytes]; rfl

/-- The names of a meta row, with what follows it in the table. -/
theorem drop_metaRow (v : SimpleDioEvent) (rest : List UInt8) :
    (metaRow v ++ rest).drop 16 = v.common.data ++ v.filename.data ++ rest ∧
      (metaRow v ++ rest).drop 32 = v.filename.data ++ rest := by
  have hc := v.common.size_eq
  rw [metaRow_eq]
  constructor
  · have hsplit : u64Bytes v.type.toUInt64 ++ u64Bytes v.dioSize.toUInt64 ++ v.common.data ++
        v.filename.data ++ rest = (u64Bytes v.type.toUInt64 ++ u64Bytes v.dioSize.toUInt64) ++
          (v.common.data ++ v.filename.data ++ rest) := by simp only [List.append_assoc]
    have hlen : (u64Bytes v.type.toUInt64 ++ u64Bytes v.dioSize.toUInt64).length = 16 := by simp
    rw [hsplit, List.drop_left' hlen]
  · rw [List.append_assoc, List.drop_left' (by simp [hc])]

/-- **Two logs are in step with the records `logs`**: row `i` of each is a row of the `i`-th record. -/
structure InStep {α : Type} (eventRow : α → List UInt8) (event : α → SimpleDioEvent)
    (events metas : List (List UInt8)) (logs : List α) : Prop where
  events : events = logs.map eventRow
  metas : metas = logs.map (fun log => metaRow (event log))

namespace InStep

variable {α : Type} {eventRow : α → List UInt8} {event : α → SimpleDioEvent}
  {events metas events' metas' : List (List UInt8)} {logs logs' : List α}

theorem length_events (h : InStep eventRow event events metas logs) : events.length = logs.length := by
  rw [h.events, List.length_map]

theorem length_metas (h : InStep eventRow event events metas logs) : metas.length = logs.length := by
  rw [h.metas, List.length_map]

theorem nil : InStep eventRow event [] [] [] := ⟨List.map_nil.symm, List.map_nil.symm⟩

theorem append (h : InStep eventRow event events metas logs)
    (h' : InStep eventRow event events' metas' logs') :
    InStep eventRow event (events ++ events') (metas ++ metas') (logs ++ logs') where
  events := by rw [h.events, h'.events, List.map_append]
  metas := by rw [h.metas, h'.metas, List.map_append]

/-- The index of a record is one of both tables, and what is read there is the record's. -/
theorem reportRow_eq (h : InStep eventRow event events metas logs) {stages : List UInt8 → DioStages}
    (hstages : ∀ log, stages (eventRow log) = .ofEvent (event log)) {i : Nat} {log : α}
    (hlog : logs[i]? = some log) :
    reportRow stages events metas i =
      some ⟨.ofEvent (event log),
        stdString ((event log).common.data ++ (event log).filename.data ++ metaFrom metas (i + 1)),
        stdString ((event log).filename.data ++ metaFrom metas (i + 1))⟩ := by
  have hevent : events[i]? = some (eventRow log) := by rw [h.events, List.getElem?_map, hlog]; rfl
  have hmeta : metas[i]? = some (metaRow (event log)) := by rw [h.metas, List.getElem?_map, hlog]; rfl
  obtain ⟨hlt, hget⟩ := List.getElem?_eq_some_iff.mp hmeta
  have hfrom : metaFrom metas i = metaRow (event log) ++ metaFrom metas (i + 1) := by
    rw [metaFrom, List.drop_eq_getElem_cons hlt, hget, List.flatten_cons]; rfl
  obtain ⟨hcommon, hfile⟩ := drop_metaRow (event log) (metaFrom metas (i + 1))
  rw [reportRow, hevent, hmeta, hfrom, hcommon, hfile]
  simp only [hstages]

/-- **The walk over tables in step** finds a row for every record. -/
theorem processDio_eq (h : InStep eventRow event events metas logs) {stages : List UInt8 → DioStages}
    (hstages : ∀ log, stages (eventRow log) = .ofEvent (event log)) :
    ∃ rows, processDio stages events metas = some rows ∧ rows.length = logs.length ∧
      ∀ (i : Nat) (log : α), logs[i]? = some log → rows[i]? =
        some ⟨.ofEvent (event log),
          stdString ((event log).common.data ++ (event log).filename.data ++ metaFrom metas (i + 1)),
          stdString ((event log).filename.data ++ metaFrom metas (i + 1))⟩ := by
  have hall : ∀ i < events.length, ∃ row, reportRow stages events metas i = some row := by
    intro i hi
    rw [h.length_events] at hi
    exact ⟨_, h.reportRow_eq hstages (List.getElem?_eq_getElem hi)⟩
  obtain ⟨rows, hrows, hlen, hget⟩ := mapM_range_eq_some hall
  refine ⟨rows, hrows, hlen.trans h.length_events, ?_⟩
  intro i log hlog
  obtain ⟨hlt, -⟩ := List.getElem?_eq_some_iff.mp hlog
  rw [hget i (by rw [h.length_events]; exact hlt)]
  exact h.reportRow_eq hstages hlog

end InStep

/-! ## The simple module -/

namespace Simple

variable {δ : Type}

/-- The module as it is constructed, with or without a quantile filter. -/
def SimpleModule.new (pmcInv : UInt64) (filter : Option (QuantileFilter δ)) : SimpleModule δ :=
  ⟨[], ⟨.new pmcInv, .new, .new⟩, filter⟩

/-- `do_event` leaves the collectors to `do_meta`. -/
theorem collectors_doEvent (m : SimpleModule δ) (log : SimpleDioEvent) :
    (doEvent m log).1.collectors = m.collectors := by
  unfold doEvent
  split
  · rfl
  · split <;> rfl

/-- `proxy` on a stream of records. -/
def deliver : SimpleModule δ → List SimpleDioEvent → Except String (SimpleModule δ)
  | m, [] => .ok m
  | m, log :: rest => proxy m log >>= fun m => deliver m rest

/-- **A stream is processed to its end exactly if every event is a read or a write.** -/
theorem deliver_ok_iff {m : SimpleModule δ} {logs : List SimpleDioEvent} :
    (∃ m', deliver m logs = .ok m') ↔ ∀ v ∈ logs, v.type = dRead ∨ v.type = dWrite := by
  induction logs generalizing m with
  | nil => simp [deliver]
  | cons v rest ih =>
      have hproxy : (∃ m₁, proxy m v = .ok m₁) ↔ v.type = dRead ∨ v.type = dWrite := by
        rw [← Info.opFlag_ok_iff]
        constructor
        · rintro ⟨m₁, h₁⟩
          obtain ⟨flag, hflag, -⟩ := bind_eq_ok.mp h₁
          exact ⟨flag, hflag⟩
        · rintro ⟨flag, hflag⟩
          exact ⟨_, bind_eq_ok.mpr ⟨flag, hflag, rfl⟩⟩
      rw [List.forall_mem_cons, ← hproxy]
      constructor
      · rintro ⟨m', h⟩
        obtain ⟨m₁, h₁, h₂⟩ := bind_eq_ok.mp h
        exact ⟨⟨m₁, h₁⟩, ih.mp ⟨m', h₂⟩⟩
      · rintro ⟨⟨m₁, h₁⟩, hrest⟩
        obtain ⟨m', h₂⟩ := (ih (m := m₁)).mpr hrest
        exact ⟨m', bind_eq_ok.mpr ⟨m₁, h₁, h₂⟩⟩

/-- The rows committed to the log `name`. -/
def SimpleModule.logRows (m : SimpleModule δ) (name : String) : List (List UInt8) :=
  (m.commits.filter (fun c => c.fName = name)).map CommitCall.row

/-- `LogCollecterVector<T>::make_table` on the file of the log `name`, with `sz = sizeof(T)`. -/
def SimpleModule.table (m : SimpleModule δ) (name : String) (sz : Nat) : List (List UInt8) :=
  rowsOf sz (m.logRows name).length (m.logRows name).flatten

/-- `d_simple.table`. -/
def SimpleModule.eventTable (m : SimpleModule δ) : List (List UInt8) :=
  m.table "ext4_dio_simple_event" sizeofDioSimpleEventLog

/-- `d_simple_meta.table`. -/
def SimpleModule.metaTable (m : SimpleModule δ) : List (List UInt8) :=
  m.table "ext4_dio_simple_meta" sizeofDioMetaLog

/-- `process_dio_simple_event`. -/
def SimpleModule.report (m : SimpleModule δ) : Option (List DioReportRow) :=
  processDio .ofSimpleRow m.eventTable m.metaTable

/-- The row of the event log. -/
def eventRow (v : SimpleDioEvent) : List UInt8 := wordsBytes (eventWords v)

/-- **One event**: it is committed to both logs, or dropped from both. -/
theorem logRows_proxy {m m' : SimpleModule δ} {v : SimpleDioEvent} (h : proxy m v = .ok m') :
    ∃ (vs : List SimpleDioEvent) (events metas : List (List UInt8)), vs.Sublist [v] ∧
      m'.logRows "ext4_dio_simple_event" = m.logRows "ext4_dio_simple_event" ++ events ∧
      m'.logRows "ext4_dio_simple_meta" = m.logRows "ext4_dio_simple_meta" ++ metas ∧
      InStep eventRow id events metas vs := by
  have hevent : (commitWords formats "ext4_dio_simple_event" (eventWords v)).row = eventRow v :=
    commitWords_row rfl
  have hmeta : (commitWords formats "ext4_dio_simple_meta" (metaWords v)).row = metaRow v :=
    commitWords_row rfl
  obtain ⟨flag, -, hm⟩ := bind_eq_ok.mp h
  have hm' := Except.ok.inj hm
  -- the answer of `do_event` decides about both rows
  cases hsel : (doEvent m v).2 with
  | true =>
      have hcommits : (doEvent m v).1.commits =
          m.commits ++ [commitWords formats "ext4_dio_simple_event" (eventWords v)] := by
        unfold doEvent at hsel ⊢
        split
        · rfl
        · split <;> simp_all
      refine ⟨[v], [eventRow v], [metaRow v], .refl _, ?_, ?_, ⟨rfl, rfl⟩⟩ <;> rw [← hm'] <;>
        simp [SimpleModule.logRows, hsel, hcommits, commitWords, List.filter_append, ← hevent, ← hmeta]
  | false =>
      have hcommits : (doEvent m v).1.commits = m.commits := by
        unfold doEvent at hsel ⊢
        split
        · simp_all
        · split <;> simp_all
      refine ⟨[], [], [], List.nil_sublist _, ?_, ?_, .nil⟩ <;> rw [← hm'] <;>
        simp [SimpleModule.logRows, hsel, hcommits]

/-- **A stream**: both logs grow by rows of the same events of the stream. -/
theorem logRows_deliver {m m' : SimpleModule δ} {logs : List SimpleDioEvent} (h : deliver m logs = .ok m') :
    ∃ (vs : List SimpleDioEvent) (events metas : List (List UInt8)), vs.Sublist logs ∧
      m'.logRows "ext4_dio_simple_event" = m.logRows "ext4_dio_simple_event" ++ events ∧
      m'.logRows "ext4_dio_simple_meta" = m.logRows "ext4_dio_simple_meta" ++ metas ∧
      InStep eventRow id events metas vs := by
  induction logs generalizing m with
  | nil =>
      rw [← Except.ok.inj h]
      exact ⟨[], [], [], .slnil, (List.append_nil _).symm, (List.append_nil _).symm, .nil⟩
  | cons v rest ih =>
      obtain ⟨m₁, h₁, h₂⟩ := bind_eq_ok.mp h
      obtain ⟨vs, events, metas, hsub, he, hm, hstep⟩ := logRows_proxy h₁
      obtain ⟨vs', events', metas', hsub', he', hm', hstep'⟩ := ih h₂
      refine ⟨vs ++ vs', events ++ events', metas ++ metas', hsub.append hsub', ?_, ?_,
        hstep.append hstep'⟩
      · rw [he', he, List.append_assoc]
      · rw [hm', hm, List.append_assoc]

end Simple

/-! ## The info module -/

namespace Info

/-- `d_info_meta.table`. -/
def InfoModule.dioMetaTable (m : InfoModule) : List (List UInt8) :=
  m.table "dio_info_event_meta" sizeofDioMetaLog

/-- `process_dio_info_event`, as far as it reads the two tables of the direct I/Os. -/
def InfoModule.report (m : InfoModule) : Option (List DioReportRow) :=
  processDio .ofInfoRow m.dioTable m.dioMetaTable

/-- The row of the event log. -/
def eventRow (log : DioInfoEvent) : List UInt8 := wordsBytes (dioWords log)

/-- **One record** adds a row of its direct I/O, if it has one, to both logs. -/
theorem logRows_proxy_dio {m m' : InfoModule} {r : InfoRecord} (h : proxy m r = .ok m') :
    ∃ events metas : List (List UInt8),
      m'.logRows "dio_info_event" = m.logRows "dio_info_event" ++ events ∧
      m'.logRows "dio_info_event_meta" = m.logRows "dio_info_event_meta" ++ metas ∧
      InStep eventRow DioInfoEvent.simEvent events metas r.dioInfo?.toList := by
  rw [proxy_eq] at h
  cases r with
  | hctx state =>
      rw [← Except.ok.inj h]
      exact ⟨[], [], (List.append_nil _).symm, (List.append_nil _).symm, .nil⟩
  | dioInfo log =>
      obtain ⟨flag, -, hm⟩ := bind_eq_ok.mp h
      have hevent : (commitWords formats "dio_info_event" (dioWords log)).row = eventRow log :=
        commitWords_row rfl
      have hmeta : (commitWords formats "dio_info_event_meta" (metaWords log.simEvent)).row =
          metaRow log.simEvent := commitWords_row rfl
      rw [← Except.ok.inj hm]
      refine ⟨[eventRow log], [metaRow log.simEvent], ?_, ?_, ⟨rfl, rfl⟩⟩ <;>
        simp [InfoModule.logRows, doEventDio, commitWords, List.filter_append, ← hevent, ← hmeta]
  | rqInfo log =>
      obtain ⟨m₁, h₁, h₂⟩ := bind_eq_ok.mp h
      obtain ⟨d, -, hm₁⟩ := bind_eq_ok.mp h₁
      obtain ⟨c, -, hm⟩ := bind_eq_ok.mp h₂
      rw [← Except.ok.inj hm, ← Except.ok.inj hm₁]
      refine ⟨[], [], ?_, ?_, .nil⟩ <;>
        simp [InfoModule.logRows, commitWords, List.filter_append]

/-- **A stream**: both logs grow by a row for each direct I/O of the stream, in order. -/
theorem logRows_deliver_dio {m m' : InfoModule} {recs : List InfoRecord} (h : deliver m recs = .ok m') :
    ∃ events metas : List (List UInt8),
      m'.logRows "dio_info_event" = m.logRows "dio_info_event" ++ events ∧
      m'.logRows "dio_info_event_meta" = m.logRows "dio_info_event_meta" ++ metas ∧
      InStep eventRow DioInfoEvent.simEvent events metas (recs.filterMap InfoRecord.dioInfo?) := by
  induction recs generalizing m with
  | nil =>
      rw [← Except.ok.inj h]
      exact ⟨[], [], (List.append_nil _).symm, (List.append_nil _).symm, .nil⟩
  | cons r rest ih =>
      obtain ⟨m₁, h₁, h₂⟩ := bind_eq_ok.mp h
      obtain ⟨events, metas, he, hm, hstep⟩ := logRows_proxy_dio h₁
      obtain ⟨events', metas', he', hm', hstep'⟩ := ih h₂
      have hcons : (r :: rest).filterMap InfoRecord.dioInfo? =
          r.dioInfo?.toList ++ rest.filterMap InfoRecord.dioInfo? := by
        cases hr : r.dioInfo? <;> simp [hr]
      refine ⟨events ++ events', metas ++ metas', ?_, ?_, ?_⟩
      · rw [he', he, List.append_assoc]
      · rw [hm', hm, List.append_assoc]
      · rw [hcons]
        exact hstep.append hstep'

end Info

/-! ## What the report attributes -/

/-- **The rows and the report of one module belong to the events `vs`**: both logs have a row for each of
    them, row `i` of both is of event `i`, every index of the event table is one of the meta table, and the
    strings read there are the event's own names, with what follows them in the table where no NUL ends them. -/
structure RowsAttributed (events metas : List (List UInt8)) (stages : List UInt8 → DioStages)
    (report : Option (List DioReportRow)) (vs : List SimpleDioEvent) : Prop where
  sameLength : events.length = metas.length
  events : events.map stages = vs.map DioStages.ofEvent
  metas : metas = vs.map metaRow
  inRange : ∃ rows, report = some rows ∧ rows.length = vs.length ∧
    ∀ (i : Nat) (v : SimpleDioEvent), vs[i]? = some v → rows[i]? =
      some ⟨.ofEvent v, stdString (v.common.data ++ v.filename.data ++ metaFrom (vs.map metaRow) (i + 1)),
        stdString (v.filename.data ++ metaFrom (vs.map metaRow) (i + 1))⟩

/-- **Names that end within their fields are reported as they are.** -/
theorem RowsAttributed.names {events metas : List (List UInt8)} {stages : List UInt8 → DioStages}
    {report : Option (List DioReportRow)} {vs : List SimpleDioEvent}
    (h : RowsAttributed events metas stages report vs) {i : Nat} {v : SimpleDioEvent} (hv : vs[i]? = some v)
    (hcommon : 0 ∈ v.common.data) (hfile : 0 ∈ v.filename.data) :
    ∃ rows, report = some rows ∧
      rows[i]? = some ⟨.ofEvent v, some (cString v.common.data), some (cString v.filename.data)⟩ := by
  obtain ⟨rows, hrows, -, hget⟩ := h.inRange
  refine ⟨rows, hrows, ?_⟩
  rw [hget i v hv, List.append_assoc, stdString_append hcommon, stdString_append hfile]

/-- Logs in step whose tables are read back attribute every row to its event. -/
theorem InStep.attributed {α : Type} {eventRow : α → List UInt8} {event : α → SimpleDioEvent}
    {events metas : List (List UInt8)} {logs : List α} (h : InStep eventRow event events metas logs)
    {stages : List UInt8 → DioStages} (hstages : ∀ log, stages (eventRow log) = .ofEvent (event log))
    {sz : Nat} (hsz : ∀ log, (eventRow log).length = sz) :
    RowsAttributed events metas stages
      (processDio stages (rowsOf sz events.length events.flatten)
        (rowsOf sizeofDioMetaLog metas.length metas.flatten)) (logs.map event) := by
  have hevents : ∀ row ∈ events, row.length = sz := by
    intro row hrow
    rw [h.events] at hrow
    obtain ⟨log, -, rfl⟩ := List.mem_map.mp hrow
    exact hsz log
  have hmetas : ∀ row ∈ metas, row.length = sizeofDioMetaLog := by
    intro row hrow
    rw [h.metas] at hrow
    obtain ⟨log, -, rfl⟩ := List.mem_map.mp hrow
    exact length_metaRow (event log)
  have hrows : metas = (logs.map event).map metaRow := by rw [h.metas, List.map_map]; rfl
  refine ⟨?_, ?_, hrows, ?_⟩
  · rw [h.length_events, h.length_metas]
  · rw [h.events, List.map_map, List.map_map]
    exact List.map_congr_left (fun log _ => hstages log)
  · rw [rowsOf_flatten hevents, rowsOf_flatten hmetas]
    obtain ⟨rows, hreport, hlen, hget⟩ := h.processDio_eq hstages
    refine ⟨rows, hreport, by rw [hlen, List.length_map], ?_⟩
    intro i v hv
    rw [List.getElem?_map] at hv
    obtain ⟨log, hlog, rfl⟩ := Option.map_eq_some_iff.mp hv
    rw [← hrows]
    exact hget i log hlog

/-- A row of the simple tracer's event log holds the stages of its event. -/
theorem ofSimpleRow_eventRow (v : SimpleDioEvent) : DioStages.ofSimpleRow (Simple.eventRow v) = .ofEvent v := by
  -- the row a module without a filter commits
  let m : Simple.SimpleModule Unit := .new 0 none
  have hcommit : (Simple.doEvent m v).1.commits = m.commits ++ [_] := rfl
  have hrow : (commitWords Simple.formats "ext4_dio_simple_event" (Simple.eventWords v)).row =
      Simple.eventRow v := commitWords_row rfl
  rw [← hrow]
  exact ofSimpleRow_doEvent hcommit

/-- So does a row of the info tracer's. -/
theorem ofInfoRow_eventRow (log : DioInfoEvent) :
    DioStages.ofInfoRow (Info.eventRow log) = .ofEvent log.simEvent := by
  have hcommit : (Info.doEventDio (.new 0 0) log).commits = (Info.InfoModule.new 0 0).commits ++ [_] := rfl
  have hrow : (commitWords Info.formats "dio_info_event" (Info.dioWords log)).row = Info.eventRow log :=
    commitWords_row rfl
  rw [← hrow]
  exact ofInfoRow_doEventDio hcommit

/-- **After every stream of records a module has processed, its event log and its meta log are rows of the
    same events, in the order of the stream**: those the quantile filter let through in the simple tracer,
    every direct I/O in the info tracer. -/
theorem logs_attributed :
    (∀ (δ : Type) (pmcInv : UInt64) (filter : Option (Simple.QuantileFilter δ)) (logs : List SimpleDioEvent)
        (m : Simple.SimpleModule δ), Simple.deliver (.new pmcInv filter) logs = .ok m →
      ∃ vs, vs.Sublist logs ∧ RowsAttributed (m.logRows "ext4_dio_simple_event")
        (m.logRows "ext4_dio_simple_meta") .ofSimpleRow m.report vs) ∧
    (∀ (pmcInv : UInt64) (heatmapRow : Int) (recs : List InfoRecord) (m : Info.InfoModule),
      Info.deliver (.new pmcInv heatmapRow) recs = .ok m →
      RowsAttributed (m.logRows "dio_info_event") (m.logRows "dio_info_event_meta") .ofInfoRow m.report
        ((recs.filterMap InfoRecord.dioInfo?).map DioInfoEvent.simEvent)) := by
  constructor
  · intro δ pmcInv filter logs m h
    obtain ⟨vs, events, metas, hsub, he, hm, hstep⟩ := Simple.logRows_deliver h
    refine ⟨vs, hsub, ?_⟩
    have he' : m.logRows "ext4_dio_simple_event" = events := he
    have hm' : m.logRows "ext4_dio_simple_meta" = metas := hm
    have hsz : ∀ v, (Simple.eventRow v).length = Simple.sizeofDioSimpleEventLog := by
      intro v
      rw [Simple.eventRow, length_wordsBytes]; rfl
    have hattr := hstep.attributed ofSimpleRow_eventRow hsz
    rw [List.map_id] at hattr
    rw [Simple.SimpleModule.report, Simple.SimpleModule.eventTable, Simple.SimpleModule.metaTable,
      Simple.SimpleModule.table, Simple.SimpleModule.table, he', hm']
    exact hattr
  · intro pmcInv heatmapRow recs m h
    obtain ⟨events, metas, he, hm, hstep⟩ := Info.logRows_deliver_dio h
    have he' : m.logRows "dio_info_event" = events := he
    have hm' : m.logRows "dio_info_event_meta" = metas := hm
    have hsz : ∀ log, (Info.eventRow log).length = Info.sizeofDioInfoEventLog := by
      intro log
      rw [Info.eventRow, length_wordsBytes]; rfl
    rw [Info.InfoModule.report, Info.InfoModule.dioTable, Info.InfoModule.dioMetaTable,
      Info.InfoModule.table, Info.InfoModule.table, he', hm']
    exact hstep.attributed ofInfoRow_eventRow hsz

/-! ## A stream with a dropped event -/

/-- A write of process `proc` on the file `file`, with the given time in the block layer. -/
def namedEvent (proc file : UInt8) (latency : UInt64) : SimpleDioEvent :=
  { SimpleDioEvent.zero with
    startDio := 1, startExt4 := 2, startBlockIo := 3, endBlockIo := 3 + latency
    common := ⟨proc :: List.replicate 15 0, rfl⟩, filename := ⟨file :: List.replicate 15 0, rfl⟩ }

/-- A filter that answers with the largest value it has seen. -/
def largestFilter : Simple.QuantileFilter UInt32 := ⟨0, id, max, .blockIo⟩

/-- Of three writes the second is below the quantile, and both logs have the other two; in the info tracer they have
    both direct I/Os. -/
theorem logs_attributed_three :
    (∃ m, Simple.deliver (.new 1 (some largestFilter))
          [namedEvent 97 98 5, namedEvent 99 100 4, namedEvent 101 102 7] = .ok m ∧
      RowsAttributed (m.logRows "ext4_dio_simple_event") (m.logRows "ext4_dio_simple_meta") .ofSimpleRow m.report
        [namedEvent 97 98 5, namedEvent 101 102 7]) ∧
    ∃ m, Info.deliver (.new 1 1) [.dioInfo ⟨7, namedEvent 97 98 5⟩, .dioInfo ⟨8, namedEvent 99 100 4⟩] = .ok m ∧
      RowsAttributed (m.logRows "dio_info_event") (m.logRows "dio_info_event_meta") .ofInfoRow m.report
        [namedEvent 97 98 5, namedEvent 99 100 4] := by
  obtain ⟨m, hm⟩ : ∃ m, Simple.deliver (.new 1 (some largestFilter))
      [namedEvent 97 98 5, namedEvent 99 100 4, namedEvent 101 102 7] = .ok m :=
    Simple.deliver_ok_iff.mpr (by decide)
  obtain ⟨m', hm'⟩ : ∃ m', Info.deliver (.new 1 1)
      [.dioInfo ⟨7, namedEvent 97 98 5⟩, .dioInfo ⟨8, namedEvent 99 100 4⟩] = .ok m' :=
    Info.deliver_ok_iff.mpr (by decide)
  obtain ⟨vs, hsub, hattr⟩ := logs_attributed.1 _ _ _ _ _ hm
  -- the meta log has two rows, which tells the kept events
  have hmetas : m.logRows "ext4_dio_simple_meta" = [metaRow (namedEvent 97 98 5), metaRow (namedEvent 101 102 7)] := by
    have hrun : (Simple.deliver (.new 1 (some largestFilter))
        [namedEvent 97 98 5, namedEvent 99 100 4, namedEvent 101 102 7]).map (·.logRows "ext4_dio_simple_meta") =
          .ok [metaRow (namedEvent 97 98 5), metaRow (namedEvent 101 102 7)] := rfl
    rw [hm] at hrun
    exact Except.ok.inj hrun
  have hkept : ∀ vs ∈ List.sublists [namedEvent 97 98 5, namedEvent 99 100 4, namedEvent 101 102 7],
      [metaRow (namedEvent 97 98 5), metaRow (namedEvent 101 102 7)] = vs.map metaRow →
        vs = [namedEvent 97 98 5, namedEvent 101 102 7] := by decide
  obtain rfl := hkept vs (List.mem_sublists.mpr hsub) (hmetas.symm.trans hattr.metas)
  exact ⟨⟨m, hm, hattr⟩, m', hm', logs_attributed.2 _ _ _ _ hm'⟩

end StorTrace.Ext4Dio
