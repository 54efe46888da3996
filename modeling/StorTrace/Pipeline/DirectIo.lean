import StorTrace.Ext4Dio.QuantileRun
import StorTrace.Ext4Dio.RecordOrder
import StorTrace.Pipeline.Schedule
import StorTrace.Viewer.LatencyPage

/-!
# `Pipeline.DirectIo` — from the probes of the simple tracer to its two files

`process_dio_simple_event` and `process_dio_info_event` turn the tables of the direct I/Os into the files
`dio_record_time.json` and `dio_event_latency.json`. The whole way is followed here: what the probes of a run send,
what the filter lets through of it, what the logger stores, and what is read back and dumped.
-/

namespace StorTrace.Ext4Dio

/-! ## What the post-processor dumps -/

/-- `stramp_seq` and `latency_of_dio_info`; `sum_time` is in both. -/
structure DioJson where
  recordTime : List UInt64
  sumTime : List UInt64
  dioIndex : List ℕ
  commons : List Str
  files : List Str
  kernelCrossing : List UInt64
  fileSystem : List UInt64
  blockIo : List UInt64
deriving DecidableEq

/-- `int length = table.size()`, as the number of rounds of the loops. -/
def intLength (events : List Str) : ℕ := ((events.length : ℤ).bmod (2 ^ 32)).toNat

/-- The columns of the rows, with the times from `start` on. -/
def DioJson.ofRows (start : TimeStramp) (rows : List DioReportRow) (commons files : List Str) : DioJson where
  recordTime := rows.map (fun row => Ext4Dio.recordTime start row.stages)
  sumTime := rows.map (fun row => row.stages.sumTime)
  dioIndex := List.range rows.length
  commons := commons
  files := files
  kernelCrossing := rows.map (fun row => row.stages.kernelCrossing)
  fileSystem := rows.map (fun row => row.stages.fileSystem)
  blockIo := rows.map (fun row => row.stages.blockIo)

/-- `process_dio_simple_event` and `process_dio_info_event`, from the tables of the direct I/Os to what the two files
    are made of. An empty table has no first row, and a name that nothing ends in the meta table cannot be read. -/
def processDioEvents (stages : Str → DioStages) (events metas : List Str) : Option DioJson := do
  let first ← events[0]?
  let rows ← (List.range (intLength events)).mapM (reportRow stages events metas)
  let commons ← rows.mapM DioReportRow.common
  let files ← rows.mapM DioReportRow.file
  return .ofRows (stages first).endDioIo rows commons files

/-- The name fields of event `i`, with the memory behind them in the meta table. -/
def namesFrom (vs : List SimpleDioEvent) (i : ℕ) : Str := (metaFrom (vs.map metaRow) i).drop 16

/-- **The two files describe the events `vs`**: a position for each of them, in order, with the time from the first
    end to its own end, its three stages and their sum, which is all of its time, and the names as `std::string` reads
    them from the meta table, on into what follows a field that has no NUL. -/
structure Describes (json : DioJson) (vs : List SimpleDioEvent) : Prop where
  recordTime : ∀ first ∈ vs.head?, json.recordTime = vs.map (fun v => v.endBlockIo - first.endBlockIo)
  sumTime : json.sumTime = vs.map (fun v => v.endBlockIo - v.startDio)
  dioIndex : json.dioIndex = List.range vs.length
  commons : json.commons.map some = (List.range vs.length).map (fun i => stdString (namesFrom vs i))
  files : json.files.map some = (List.range vs.length).map (fun i => stdString ((namesFrom vs i).drop 16))
  kernelCrossing : json.kernelCrossing = vs.map (fun v => v.startExt4 - v.startDio)
  fileSystem : json.fileSystem = vs.map (fun v => v.startBlockIo - v.startExt4)
  blockIo : json.blockIo = vs.map (fun v => v.endBlockIo - v.startBlockIo)

theorem intLength_eq {events : List Str} (h : events.length < 0x80000000) : intLength events = events.length := by
  unfold intLength
  rw [Int.bmod_eq_of_le (by omega) (by omega)]
  exact Int.toNat_natCast _

theorem sumTime_ofEvent (v : SimpleDioEvent) : (DioStages.ofEvent v).sumTime = v.endBlockIo - v.startDio := by
  show (v.startExt4 - v.startDio) + (v.startBlockIo - v.startExt4) + (v.endBlockIo - v.startBlockIo) = _
  grind

/-! ## Where the names end -/

section Names

variable {vs : List SimpleDioEvent} {v : SimpleDioEvent} {i : ℕ}

/-- The names of an event, and the rows that follow. -/
theorem namesFrom_eq (hv : vs[i]? = some v) :
    namesFrom vs i = v.common.data ++ v.filename.data ++ metaFrom (vs.map metaRow) (i + 1) ∧
      (namesFrom vs i).drop 16 = v.filename.data ++ metaFrom (vs.map metaRow) (i + 1) := by
  obtain ⟨hlt, hget⟩ := List.getElem?_eq_some_iff.mp hv
  have hfrom : metaFrom (vs.map metaRow) i = metaRow v ++ metaFrom (vs.map metaRow) (i + 1) := by
    have hlt' : i < (vs.map metaRow).length := by rwa [List.length_map]
    rw [metaFrom, List.drop_eq_getElem_cons hlt', List.getElem_map, hget, List.flatten_cons]
    rfl
  obtain ⟨hcommon, hfile⟩ := drop_metaRow v (metaFrom (vs.map metaRow) (i + 1))
  exact ⟨by rw [namesFrom, hfrom, hcommon], by rw [namesFrom, List.drop_drop, hfrom, hfile]⟩

/-- A row begins with a type, whose upper half is zero. -/
theorem zero_mem_metaRow (v : SimpleDioEvent) : 0 ∈ metaRow v := by
  have hupper : UInt8.ofNat (v.type.toUInt64.toNat / 0x100000000) = 0 := by
    rw [UInt32.toNat_toUInt64, Nat.div_eq_of_lt v.type.toNat_lt]
    rfl
  have hbyte : UInt8.ofNat (v.type.toUInt64.toNat / 0x100000000) ∈ u64Bytes v.type.toUInt64 :=
    List.mem_map.mpr ⟨_, by simp, rfl⟩
  rw [metaRow_eq, ← hupper]
  exact List.mem_append_left _ (List.mem_append_left _ (List.mem_append_left _ hbyte))

/-- **A file name is read within the table exactly if** its field has a NUL or another row follows. -/
theorem ends_iff (hv : vs[i]? = some v) : 0 ∈ (namesFrom vs i).drop 16 ↔ 0 ∈ v.filename.data ∨ i + 1 < vs.length := by
  rw [(namesFrom_eq hv).2, List.mem_append]
  apply or_congr_right
  constructor
  · intro hmem
    by_contra hlast
    rw [metaFrom, List.drop_eq_nil_of_le (by rw [List.length_map]; omega)] at hmem
    cases hmem
  · intro hlt
    have hrow : (vs.map metaRow)[i + 1]? = some (metaRow vs[i + 1]) := by
      rw [List.getElem?_map, List.getElem?_eq_getElem hlt]
      rfl
    refine List.mem_flatten.mpr ⟨metaRow vs[i + 1], List.mem_of_getElem? (i := 0) ?_, zero_mem_metaRow _⟩
    rw [List.getElem?_drop]
    exact hrow

/-- Where the last file name has a NUL, every name is read within the table. -/
theorem ends_of_last (hlast : ∃ last ∈ vs.getLast?, 0 ∈ last.filename.data) (hlt : i < vs.length) :
    0 ∈ (namesFrom vs i).drop 16 := by
  obtain ⟨last, hlast, hmem⟩ := hlast
  rw [Option.mem_def, List.getLast?_eq_getElem?] at hlast
  rw [ends_iff (List.getElem?_eq_getElem hlt)]
  by_cases hnext : i + 1 < vs.length
  · exact Or.inr hnext
  · obtain rfl : i = vs.length - 1 := by omega
    left
    rwa [Option.some.inj ((List.getElem?_eq_getElem hlt).symm.trans hlast)]

end Names

/-! ## The two files -/

/-- What the rounds find. -/
def shownRows (vs : List SimpleDioEvent) : List DioReportRow :=
  (List.range vs.length).map (fun i =>
    ⟨((vs[i]?).map DioStages.ofEvent).getD ⟨0, 0, 0, 0⟩, stdString (namesFrom vs i), stdString ((namesFrom vs i).drop 16)⟩)

theorem map_stages_shownRows {β : Type} (f : DioStages → β) (vs : List SimpleDioEvent) :
    (shownRows vs).map (fun row => f row.stages) = vs.map (fun v => f (.ofEvent v)) := by
  apply List.ext_getElem?
  intro i
  by_cases hi : i < vs.length
  · simp [shownRows, hi]
  · simp [shownRows, hi]

theorem describes_shownRows {first : SimpleDioEvent} {vs : List SimpleDioEvent} (hfirst : vs.head? = some first)
    {commons files : List Str} (hcommons : (shownRows vs).mapM DioReportRow.common = some commons)
    (hfiles : (shownRows vs).mapM DioReportRow.file = some files) :
    Describes (.ofRows (DioStages.ofEvent first).endDioIo (shownRows vs) commons files) vs where
  recordTime := by
    intro first' hfirst'
    obtain rfl := Option.some.inj (hfirst.symm.trans hfirst')
    exact map_stages_shownRows (Ext4Dio.recordTime (DioStages.ofEvent first).endDioIo) vs
  sumTime := (map_stages_shownRows DioStages.sumTime vs).trans (List.map_congr_left (fun v _ => sumTime_ofEvent v))
  dioIndex := by simp [DioJson.ofRows, shownRows]
  commons := (mapM_eq_some_iff.mp hcommons).trans List.map_map
  files := (mapM_eq_some_iff.mp hfiles).trans List.map_map
  kernelCrossing := map_stages_shownRows _ vs
  fileSystem := map_stages_shownRows _ vs
  blockIo := map_stages_shownRows _ vs

section InStep

variable {α : Type} {eventRow : α → Str} {event : α → SimpleDioEvent} {events metas : List Str} {logs : List α}

/-- One round on tables in step. -/
theorem InStep.reportRow_names (h : InStep eventRow event events metas logs) {stages : Str → DioStages}
    (hstages : ∀ log, stages (eventRow log) = .ofEvent (event log)) {i : ℕ} {log : α} (hlog : logs[i]? = some log) :
    reportRow stages events metas i =
      some ⟨.ofEvent (event log), stdString (namesFrom (logs.map event) i),
        stdString ((namesFrom (logs.map event) i).drop 16)⟩ := by
  have hmetas : metas = (logs.map event).map metaRow := by rw [h.metas, List.map_map]; rfl
  have hevent : (logs.map event)[i]? = some (event log) := by rw [List.getElem?_map, hlog]; rfl
  obtain ⟨hcommon, hfile⟩ := namesFrom_eq hevent
  rw [h.reportRow_eq hstages hlog, hfile, hcommon, hmetas]

/-- **Tables in step**, with at least one row: the two files are made of the rows of all events, if all names can be
    read. -/
theorem InStep.processDioEvents_eq (h : InStep eventRow event events metas logs) {stages : Str → DioStages}
    (hstages : ∀ log, stages (eventRow log) = .ofEvent (event log)) (hlen : logs.length < 0x80000000) {first : α}
    (hfirst : logs[0]? = some first) :
    processDioEvents stages events metas =
      ((shownRows (logs.map event)).mapM DioReportRow.common).bind (fun commons =>
        ((shownRows (logs.map event)).mapM DioReportRow.file).map (fun files =>
          .ofRows (DioStages.ofEvent (event first)).endDioIo (shownRows (logs.map event)) commons files)) := by
  have hlength : intLength events = logs.length := by
    rw [intLength_eq (by rwa [h.length_events]), h.length_events]
  have hevent : events[0]? = some (eventRow first) := by rw [h.events, List.getElem?_map, hfirst]; rfl
  have hrows : (List.range logs.length).mapM (reportRow stages events metas) = some (shownRows (logs.map event)) := by
    have hlen : (shownRows (logs.map event)).length = logs.length := by simp [shownRows]
    rw [← hlen]
    apply mapM_range_eq
    intro i hi
    have hlt : i < logs.length := hlen ▸ hi
    have hlog : logs[i]? = some logs[i] := List.getElem?_eq_getElem hlt
    rw [h.reportRow_names hstages hlog]
    simp [shownRows, hlt]
  unfold processDioEvents
  rw [hevent, hlength, hrows]
  simp only [Option.bind_eq_bind, Option.bind_some, hstages, Option.pure_def]
  cases (shownRows (logs.map event)).mapM DioReportRow.common with
  | none => rfl
  | some commons => cases (shownRows (logs.map event)).mapM DioReportRow.file <;> rfl

/-- **What is dumped describes the events.** -/
theorem InStep.describes (h : InStep eventRow event events metas logs) {stages : Str → DioStages}
    (hstages : ∀ log, stages (eventRow log) = .ofEvent (event log)) (hlen : logs.length < 0x80000000) :
    ∀ json, processDioEvents stages events metas = some json → Describes json (logs.map event) := by
  intro json hjson
  cases hfirst : logs[0]? with
  | none =>
      -- without a row there is no first one
      have hnil : events[0]? = none := by rw [h.events, List.getElem?_map, hfirst]; rfl
      rw [processDioEvents, hnil] at hjson
      cases hjson
  | some first =>
      rw [h.processDioEvents_eq hstages hlen hfirst] at hjson
      obtain ⟨commons, hcommons, hjson⟩ := Option.bind_eq_some_iff.mp hjson
      obtain ⟨files, hfiles, rfl⟩ := Option.map_eq_some_iff.mp hjson
      exact describes_shownRows (by rw [List.head?_map, List.head?_eq_getElem?, hfirst]; rfl) hcommons hfiles

/-- **Nothing is dumped exactly if** there is no event, or the last one has a file name without a NUL. -/
theorem InStep.processDioEvents_eq_none (h : InStep eventRow event events metas logs) {stages : Str → DioStages}
    (hstages : ∀ log, stages (eventRow log) = .ofEvent (event log)) (hlen : logs.length < 0x80000000) :
    processDioEvents stages events metas = none ↔ ∀ last ∈ (logs.map event).getLast?, 0 ∉ last.filename.data := by
  constructor
  · intro hnone last hlast hmem
    obtain ⟨log, hlog, rfl⟩ : ∃ log, logs.getLast? = some log ∧ event log = last := by
      rwa [List.getLast?_map, Option.mem_def, Option.map_eq_some_iff] at hlast
    have hpos : 0 < logs.length := List.length_pos_of_mem (List.mem_of_mem_getLast? hlog)
    have hends : ∀ row ∈ shownRows (logs.map event), (∃ c, row.common = some c) ∧ ∃ f, row.file = some f := by
      intro row hrow
      obtain ⟨i, hi, rfl⟩ := List.mem_map.mp hrow
      have hfile := ends_of_last ⟨_, hlast, hmem⟩ (List.mem_range.mp hi)
      exact ⟨⟨_, stdString_of_mem (List.mem_of_mem_drop hfile)⟩, _, stdString_of_mem hfile⟩
    obtain ⟨commons, hcommons⟩ := exists_mapM (fun row hrow => (hends row hrow).1)
    obtain ⟨files, hfiles⟩ := exists_mapM (fun row hrow => (hends row hrow).2)
    rw [h.processDioEvents_eq hstages hlen (List.getElem?_eq_getElem hpos), hcommons, hfiles] at hnone
    cases hnone
  · intro hlast
    by_contra hsome
    obtain ⟨json, hjson⟩ := Option.ne_none_iff_exists'.mp hsome
    have hdescribes := h.describes hstages hlen json hjson
    cases hlog : (logs.map event).getLast? with
    | none =>
        obtain rfl : logs = [] := List.map_eq_nil_iff.mp (List.getLast?_eq_none_iff.mp hlog)
        rw [h.events] at hsome
        exact hsome rfl
    | some last =>
        -- the name of the last row is not defined
        rw [List.getLast?_eq_getElem?] at hlog
        have hnot : ¬ 0 ∈ (namesFrom (logs.map event) ((logs.map event).length - 1)).drop 16 := by
          rw [ends_iff hlog, not_or]
          exact ⟨hlast last (by rw [List.getLast?_eq_getElem?, hlog]; rfl), by omega⟩
        have hlt := (List.getElem?_eq_some_iff.mp hlog).1
        have hnone : json.files[(logs.map event).length - 1]? = none :=
          (getElem?_of_map_some hdescribes.files hlt).trans (stdString_eq_none_iff.mpr hnot)
        have hlength := length_of_map_some hdescribes.files
        rw [List.getElem?_eq_none_iff] at hnone
        omega

end InStep

/-- **A name that ends within its field is dumped as it is.** -/
theorem Describes.names {json : DioJson} {vs : List SimpleDioEvent} (h : Describes json vs) {i : ℕ}
    {v : SimpleDioEvent} (hv : vs[i]? = some v) :
    (0 ∈ v.common.data → json.commons[i]? = some (cString v.common.data)) ∧
      (0 ∈ v.filename.data → json.files[i]? = some (cString v.filename.data)) := by
  obtain ⟨hlt, -⟩ := List.getElem?_eq_some_iff.mp hv
  obtain ⟨hcommon, hfile⟩ := namesFrom_eq hv
  constructor
  · intro hmem
    rw [getElem?_of_map_some h.commons hlt, hcommon, List.append_assoc, stdString_append hmem]
  · intro hmem
    rw [getElem?_of_map_some h.files hlt, hfile, stdString_append hmem]

/-! ## The page -/

/-- What `json.load` makes of a name of ASCII characters. -/
def nameText (name : Str) : List Char := name.map (fun b => Char.ofNat b.toNat)

/-- `dio_event_latency.json`, as `ext4_simple_dio_latency` reads it. -/
def DioJson.latency (json : DioJson) : LatencyJson where
  kernelCrossing := json.kernelCrossing
  fileSystem := json.fileSystem
  blockIo := json.blockIo
  common := json.commons.map nameText
  file := json.files.map nameText

/-- The row of the page for an event. -/
def latencyRow (v : SimpleDioEvent) : LatencyRow :=
  ⟨.ofEvent v, nameText (cString v.common.data), nameText (cString v.filename.data)⟩

/-- A name that ends within its field, of ASCII characters that get through to the page. -/
structure PlainName (field : Str) : Prop where
  ends : 0 ∈ field
  ascii : ∀ b ∈ cString field, b < 128
  plain : ∀ c ∈ nameText (cString field), GetsThrough c ∧ ¬ JsString.Special c

theorem Describes.latency_eq {json : DioJson} {vs : List SimpleDioEvent} (h : Describes json vs)
    (hnames : ∀ v ∈ vs, PlainName v.common.data ∧ PlainName v.filename.data) :
    json.latency = latencyJson (vs.map latencyRow) := by
  have hcolumn : ∀ {names : List Str} (field : SimpleDioEvent → Str), names.length = vs.length →
      (∀ (i : ℕ) (v : SimpleDioEvent), vs[i]? = some v → names[i]? = some (cString (field v))) →
      names.map nameText = vs.map (fun v => nameText (cString (field v))) := by
    intro names field hlen hget
    apply List.ext_getElem?
    intro i
    rw [List.getElem?_map, List.getElem?_map]
    cases hv : vs[i]? with
    | none =>
        rw [List.getElem?_eq_none_iff] at hv
        rw [List.getElem?_eq_none (by omega)]
        rfl
    | some v =>
        rw [hget i v hv]
        rfl
  have hcommons := hcolumn (fun v => v.common.data) (length_of_map_some h.commons)
    (fun i v hv => (h.names hv).1 (hnames v (List.mem_of_getElem? hv)).1.ends)
  have hfiles := hcolumn (fun v => v.filename.data) (length_of_map_some h.files)
    (fun i v hv => (h.names hv).2 (hnames v (List.mem_of_getElem? hv)).2.ends)
  unfold DioJson.latency latencyJson
  rw [h.kernelCrossing, h.fileSystem, h.blockIo, hcommons, hfiles]
  simp only [List.map_map]
  rfl

/-- **The page shows the events that the files describe**, each in one place, if their names get through. -/
theorem Describes.shown {json : DioJson} {vs : List SimpleDioEvent} (h : Describes json vs) (hne : vs ≠ [])
    (hnames : ∀ v ∈ vs, PlainName v.common.data ∧ PlainName v.filename.data) {s : ℕ} (hs : 1 ≤ s) :
    ∃ obj options, latencyScript (ext4SimpleDioLatency json.latency (pyStr s)) = some (obj, options) ∧
      LatencyShown (vs.map latencyRow) s obj options := by
  have hplain : ∀ row ∈ vs.map latencyRow, ∀ c ∈ row.common ++ row.file, GetsThrough c ∧ ¬ JsString.Special c := by
    intro row hrow c hc
    obtain ⟨v, hv, rfl⟩ := List.mem_map.mp hrow
    obtain ⟨hcommon, hfile⟩ := hnames v hv
    rcases List.mem_append.mp hc with hc | hc
    · exact hcommon.plain c hc
    · exact hfile.plain c hc
  rw [h.latency_eq hnames]
  exact decodesLatency_of_getsThrough (by simpa using hne) hs (fun row hrow c hc => (hplain row hrow c hc).2)
    (fun row hrow c hc => (hplain row hrow c hc).1)

/-! ## What the probes send -/

section Program

variable {σ ε ο : Type} {cfg : DioConfig} {M : Machine σ ε ο} {P : DioProgram cfg M}

/-- Every entry of `event_cache` has the type of the call that stored it. -/
theorem DioProgram.type_of_entry {pre : List ε} {k : Ptr} {v : SimpleDioEvent}
    (h : (P.state (M.exec pre)).eventCache.lookupElem k = some v) : v.type = dRead ∨ v.type = dWrite := by
  have hborn := CacheView.exists_born (V := P.eventView) (k := k)
    (Q := fun _ _ _ v => v.type = dRead ∨ v.type = dWrite) ?_ ?_ ?_ h
  · obtain ⟨-, -, -, -, -, -, hq⟩ := hborn
    exact hq
  · intro ini t v hput
    obtain ⟨c, -, -, -, -, -, rfl⟩ := DioProgram.eventView_put.mp hput
    cases hd : c.dir with
    | write => exact Or.inr (by simp [IterCall.entry, hd, Direction.type])
    | read => exact Or.inl (by simp [IterCall.entry, hd, Direction.type])
  · intro _ _ _ _ _ _ hq
    exact hq
  · intro _ _ _ _ f v ha hq
    obtain ⟨t, dio, now, -, -, rfl⟩ := DioProgram.eventView_update ha
    exact hq

/-- Every record of a direct I/O is one of a read or of a write. -/
theorem DioProgram.type_of_record {pre : List ε} {e : ε} {r : ο} {v : SimpleDioEvent} (hr : r ∈ M.out pre e)
    (hv : P.record r = some v) : v.type = dRead ∨ v.type = dWrite := by
  obtain ⟨p, -, hmem⟩ := DioProgram.record_out.mp ⟨r, hr, hv⟩
  obtain ⟨t, dio, iocb, size, now, u, rfl, -, hu, rfl⟩ := mem_dioStep_iff.mp hmem
  have htype : u.type = dRead ∨ u.type = dWrite := DioProgram.type_of_entry hu
  exact htype

theorem DioProgram.type_of_emit (P : DioProgram cfg M) (evs : List ε) :
    ∀ v ∈ (M.emit evs).filterMap P.record, v.type = dRead ∨ v.type = dWrite := by
  induction evs using List.reverseRecOn with
  | nil => simp [Machine.emit, Machine.emitFrom]
  | append_singleton evs e ih =>
      intro v hv
      rw [Machine.emit_concat, List.filterMap_append, List.mem_append] at hv
      rcases hv with hv | hv
      · exact ih v hv
      · obtain ⟨r, hr, hrecord⟩ := List.mem_filterMap.mp hv
        exact DioProgram.type_of_record hr hrecord

end Program

namespace Simple

open Pipeline

variable {δ φ : Type}

/-- What the probes of a run send is processed to its end. -/
theorem exists_deliver (cfg : DioConfig) (m : SimpleModule δ) (probes : List DioProbe) :
    ∃ m', deliver m ((dioTracer cfg).emit probes) = .ok m' := by
  refine deliver_ok_iff.mpr (fun v hv => (simpleProgram cfg).type_of_emit probes v ?_)
  exact List.mem_filterMap.mpr ⟨v, hv, rfl⟩

/-- Every call of the module fits its logs. -/
theorem callsFit_callsOf (vs : List SimpleDioEvent) : CallsFit formats (vs.flatMap callsOf) := by
  intro c hc
  obtain ⟨v, -, hc⟩ := List.mem_flatMap.mp hc
  simp only [callsOf, List.mem_cons, List.not_mem_nil, or_false] at hc
  rcases hc with rfl | rfl
  · exact ⟨fwfEvent, by simp [formats], rfl, (congrArg List.length (commitWords_row rfl)).trans (length_wordsBytes _)⟩
  · exact ⟨fwfMeta, by simp [formats], rfl, (congrArg List.length (commitWords_row rfl)).trans (length_wordsBytes _)⟩

/-- What the post-processor makes of a trace: the two tables, and of these the two files. -/
structure Dumps (disk : Disk) (path : Str) (vs : List SimpleDioEvent) : Prop where
  load : disk.loadTables path = some (.dioSimple (vs.map eventRow) (vs.map metaRow))
  /-- It reads the first row of a table that may have none, and nothing ends the last file name if its field does not. -/
  defined : processDioEvents .ofSimpleRow (vs.map eventRow) (vs.map metaRow) = none ↔
    ∀ last ∈ vs.getLast?, 0 ∉ last.filename.data
  describes : ∀ json, processDioEvents .ofSimpleRow (vs.map eventRow) (vs.map metaRow) = some json → Describes json vs
  /-- The latency page of the viewer. -/
  shown : ∀ json, processDioEvents .ofSimpleRow (vs.map eventRow) (vs.map metaRow) = some json →
    (∀ v ∈ vs, PlainName v.common.data ∧ PlainName v.filename.data) → ∀ s, 1 ≤ s →
      ∃ obj options, latencyScript (ext4SimpleDioLatency json.latency (pyStr s)) = some (obj, options) ∧
        LatencyShown (vs.map latencyRow) s obj options

/-- **A trace of the simple tracer, from its probes to its page.** Whatever the probes of a run, whatever the filter
    and whatever the order in which the ring carries out the writes, the files describe the events that the filter
    lets through, and the page shows them. -/
theorem dumps_simpleTrace [DecidableEq φ] (cfg : DioConfig) (probes : List DioProbe) (pmcInv : UInt64)
    (filter : Option (QuantileFilter δ)) {m : SimpleModule δ}
    (h : deliver (.new pmcInv filter) ((dioTracer cfg).emit probes) = .ok m) {L : Logger φ} {disk : Disk}
    (hformat : L.fileFormat = formats) (hserved : Served L m.commits disk) :
    Dumps disk L.path (passed filter ((dioTracer cfg).emit probes)) := by
  set vs := passed filter ((dioTracer cfg).emit probes) with hvs
  have hcommits : m.commits = vs.flatMap callsOf := commits_deliver h
  have hfit : CallsFit formats m.commits := hcommits ▸ callsFit_callsOf vs
  have hstep := logRows_passed pmcInv h
  rw [← hvs] at hstep
  have hlen : vs.length < 0x80000000 := by
    have hrows := hserved.rowsTo_lt (by rw [hformat]; exact hfit) 0 fwfEvent (by rw [hformat]; rfl)
    have hlength := hstep.length_events
    exact hlength ▸ hrows
  have hload := hserved.dioSimple hformat hfit
  have hevents : rowsTo "ext4_dio_simple_event" m.commits = vs.map eventRow := hstep.events
  have hmetas : rowsTo "ext4_dio_simple_meta" m.commits = vs.map metaRow := hstep.metas
  rw [hevents, hmetas] at hload
  have htables : InStep eventRow id (vs.map eventRow) (vs.map metaRow) vs := ⟨rfl, rfl⟩
  have hdefined := htables.processDioEvents_eq_none ofSimpleRow_eventRow hlen
  rw [List.map_id] at hdefined
  have hdescribes : ∀ json, processDioEvents .ofSimpleRow (vs.map eventRow) (vs.map metaRow) = some json →
      Describes json vs := by
    intro json hjson
    have hdescribes := htables.describes ofSimpleRow_eventRow hlen json hjson
    rwa [List.map_id] at hdescribes
  refine ⟨hload, hdefined, hdescribes, ?_⟩
  intro json hjson hnames s hs
  refine (hdescribes json hjson).shown ?_ hnames hs
  intro hnil
  rw [hdefined.mpr (by simp [hnil])] at hjson
  cases hjson

/-- The logger of the module, on a file system where every path is a file of its own. -/
def simpleLog : Logger Str where
  path := strBytes "t"
  fileFormat := formats
  fileAt := id
  disk := fun _ => .empty
  sqEntries := 8

/-- Every stream of calls to it can be served. -/
theorem exists_served_simpleLog {calls : List CommitCall} (hfit : CallsFit formats calls)
    (hcalls : calls.length < 0x80000000)
    (hmeta : (Meta.logData formats (callCounts formats calls)).length < 0x80000000) :
    ∃ disk, Served simpleLog calls disk :=
  exists_served (by decide +kernel) registered_simpleFormats hfit hcalls (by decide) (by decide) hmeta

/-- A read on one extent. -/
theorem dumps_simpleTrace_read :
    ∃ (m : SimpleModule Unit) (disk : Disk),
      deliver (.new 1 none) ((dioTracer .off).emit (readRun [30]).events) = .ok m ∧
        Served simpleLog m.commits disk ∧
        Dumps disk simpleLog.path (passed (none : Option (QuantileFilter Unit)) [(readRun [30]).record]) := by
  have hemit : (dioTracer .off).emit (readRun [30]).events = [(readRun [30]).record] := by decide
  obtain ⟨m, hm⟩ := exists_deliver .off (.new 1 (none : Option (QuantileFilter Unit))) (readRun [30]).events
  have hcommits : m.commits = [(readRun [30]).record].flatMap callsOf := by
    rw [hemit] at hm
    exact commits_deliver hm
  obtain ⟨disk, hdisk⟩ := exists_served_simpleLog (hcommits ▸ callsFit_callsOf _) (by rw [hcommits]; decide)
    (by rw [hcommits]; decide +kernel)
  refine ⟨m, disk, hm, hdisk, ?_⟩
  rw [← hemit]
  exact dumps_simpleTrace .off (readRun [30]).events 1 none hm rfl hdisk

end Simple

end StorTrace.Ext4Dio
