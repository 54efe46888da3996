import StorTrace.Collector.HashJoin
import StorTrace.Ext4Dio.Delivery

/-!
# `Ext4Dio.Report` — the tables `process_dio_info_event` loads and joins

The post-processor loads the two logs of the info module as tables of fixed-size rows and joins them on
their first column, the id of the direct I/O.
-/

namespace StorTrace.Ext4Dio

namespace Info

/-- `sizeof(struct dio_info_event_log)`. -/
def sizeofDioInfoEventLog : Nat := structSize [(8, 8), (8, 8), (8, 8), (8, 8), (8, 8)]

/-- `sizeof(struct rq_info_event_log)`. -/
def sizeofRqInfoEventLog : Nat :=
  structSize [(8, 8), (8, 8), (8, 8), (8, 8), (8, 8), (8, 8), (8, 8), (8, 8)]

/-- The rows committed to the log `name`. -/
def InfoModule.logRows (m : InfoModule) (name : String) : List (List UInt8) :=
  (m.commits.filter (fun c => c.fName = name)).map CommitCall.row

/-- `LogCollecterVector<T>::make_table` on the file of the log `name`, with `sz = sizeof(T)`. -/
def InfoModule.table (m : InfoModule) (name : String) (sz : Nat) : List (List UInt8) :=
  rowsOf sz (m.logRows name).length (m.logRows name).flatten

/-- `d_info.table`. -/
def InfoModule.dioTable (m : InfoModule) : List (List UInt8) := m.table "dio_info_event" sizeofDioInfoEventLog

/-- `rq_info.table`. -/
def InfoModule.rqTable (m : InfoModule) : List (List UInt8) := m.table "rq_info_event" sizeofRqInfoEventLog

/-- `join_dio_ptr`. -/
def InfoModule.joinDioPtr (m : InfoModule) : List (Nat × Nat) := hashjoinVector 0 0 m.dioTable m.rqTable 1

/-! ## The ids in the tables -/

/-- The rows a record adds to the two logs have the size of their structs and start with the record's
    id. -/
structure LoggedAs (rows : List (List UInt8)) (sz : Nat) (uids : List UInt64) : Prop where
  size : ∀ row ∈ rows, row.length = sz
  ids : rows.map (itemk · 0) = uids

/-- A record that adds no row to a log adds no id. -/
theorem LoggedAs.nil (sz : Nat) : LoggedAs [] sz [] where
  size row hrow := absurd hrow (by simp)
  ids := rfl

/-- Logging the rows of one record after those of others. -/
theorem LoggedAs.append {rows rows' : List (List UInt8)} {sz : Nat} {uids uids' : List UInt64}
    (h : LoggedAs rows sz uids) (h' : LoggedAs rows' sz uids') :
    LoggedAs (rows ++ rows') sz (uids ++ uids') where
  size row hrow := by
    rcases List.mem_append.mp hrow with hrow | hrow
    · exact h.size row hrow
    · exact h'.size row hrow
  ids := by rw [List.map_append, h.ids, h'.ids]

/-- An array that fills its row is logged under its first word. -/
theorem LoggedAs.words {name : String} {ws : List UInt64} {sz : Nat} {uid : UInt64}
    (hrow : 8 * ws.length = rowSizeOf formats name) (hsz : 8 * ws.length = sz) (huid : ws[0]? = some uid) :
    LoggedAs [(commitWords formats name ws).row] sz [uid] := by
  obtain ⟨hlt, hget⟩ := List.getElem?_eq_some_iff.mp huid
  rw [commitWords_row hrow]
  constructor
  · intro row hr
    rw [List.mem_singleton.mp hr, length_wordsBytes, hsz]
  · rw [List.map_singleton, itemk, wordAt_wordsBytes ws 0 hlt, hget]

/-- **One delivery** adds the row of a direct-I/O record to one log and that of a request record to the
    other. -/
theorem logRows_proxy {m m' : InfoModule} {r : InfoRecord} (h : proxy m r = .ok m') :
    (∃ rows, m'.logRows "dio_info_event" = m.logRows "dio_info_event" ++ rows ∧
        LoggedAs rows sizeofDioInfoEventLog (r.dioInfo?.toList.map DioInfoEvent.dioUid)) ∧
      ∃ rows, m'.logRows "rq_info_event" = m.logRows "rq_info_event" ++ rows ∧
        LoggedAs rows sizeofRqInfoEventLog (r.rqInfo?.toList.map RqInfoEvent.dioUid) := by
  rw [proxy_eq] at h
  cases r with
  | hctx state =>
      rw [← Except.ok.inj h]
      exact ⟨⟨[], (List.append_nil _).symm, .nil _⟩, ⟨[], (List.append_nil _).symm, .nil _⟩⟩
  | dioInfo log =>
      obtain ⟨flag, -, hm⟩ := bind_eq_ok.mp h
      rw [← Except.ok.inj hm]
      refine ⟨⟨[(commitWords formats "dio_info_event" (dioWords log)).row], ?_, .words rfl rfl rfl⟩,
        ⟨[], ?_, LoggedAs.nil _⟩⟩ <;>
        simp [InfoModule.logRows, doEventDio, commitWords, List.filter_append]
  | rqInfo log =>
      obtain ⟨m₁, h₁, h₂⟩ := bind_eq_ok.mp h
      obtain ⟨d, hd, hm₁⟩ := bind_eq_ok.mp h₁
      obtain ⟨c, -, hm⟩ := bind_eq_ok.mp h₂
      -- the arrays of both drives have eight words and start with the id
      have hwords : d.length = 8 ∧ d[0]? = some log.dioUid := by
        unfold rqWords at hd
        split at hd
        · rw [← Except.ok.inj hd]; exact ⟨rfl, rfl⟩
        · split at hd
          · rw [← Except.ok.inj hd]; exact ⟨rfl, rfl⟩
          · cases hd
      rw [← Except.ok.inj hm, ← Except.ok.inj hm₁]
      refine ⟨⟨[], ?_, LoggedAs.nil _⟩, ⟨[(commitWords formats "rq_info_event" d).row], ?_,
        .words (by rw [hwords.1]; rfl) (by rw [hwords.1]; rfl) hwords.2⟩⟩ <;>
        simp [InfoModule.logRows, commitWords, List.filter_append]

/-- **The logs after a delivery** hold a row for each direct-I/O record and each request record, in order,
    under its id. -/
theorem logRows_deliver {m m' : InfoModule} {recs : List InfoRecord} (h : deliver m recs = .ok m') :
    (∃ rows, m'.logRows "dio_info_event" = m.logRows "dio_info_event" ++ rows ∧
        LoggedAs rows sizeofDioInfoEventLog ((recs.filterMap InfoRecord.dioInfo?).map DioInfoEvent.dioUid)) ∧
      ∃ rows, m'.logRows "rq_info_event" = m.logRows "rq_info_event" ++ rows ∧
        LoggedAs rows sizeofRqInfoEventLog ((recs.filterMap InfoRecord.rqInfo?).map RqInfoEvent.dioUid) := by
  have hcons {β : Type} (f : InfoRecord → Option β) (r : InfoRecord) (rest : List InfoRecord) :
      (r :: rest).filterMap f = (f r).toList ++ rest.filterMap f := by
    cases hf : f r <;> simp [hf]
  induction recs generalizing m with
  | nil =>
      rw [← Except.ok.inj h]
      exact ⟨⟨[], (List.append_nil _).symm, .nil _⟩, ⟨[], (List.append_nil _).symm, .nil _⟩⟩
  | cons r rest ih =>
      obtain ⟨m₁, h₁, h₂⟩ := bind_eq_ok.mp h
      obtain ⟨⟨rows₁, hd₁, hl₁⟩, ⟨rows₂, hr₂, hl₂⟩⟩ := logRows_proxy h₁
      obtain ⟨⟨rows₃, hd₃, hl₃⟩, ⟨rows₄, hr₄, hl₄⟩⟩ := ih h₂
      rw [hcons, hcons, List.map_append, List.map_append]
      have hdio : m'.logRows "dio_info_event" = m.logRows "dio_info_event" ++ (rows₁ ++ rows₃) := by
        rw [hd₃, hd₁, List.append_assoc]
      have hrq : m'.logRows "rq_info_event" = m.logRows "rq_info_event" ++ (rows₂ ++ rows₄) := by
        rw [hr₄, hr₂, List.append_assoc]
      exact ⟨⟨rows₁ ++ rows₃, hdio, hl₁.append hl₃⟩, ⟨rows₂ ++ rows₄, hrq, hl₂.append hl₄⟩⟩

/-- The table of a log whose rows have the size of its struct. -/
theorem table_of_loggedAs {m : InfoModule} {name : String} {sz : Nat} {uids : List UInt64}
    (h : LoggedAs (m.logRows name) sz uids) : (m.table name sz).map (itemk · 0) = uids := by
  rw [InfoModule.table, rowsOf_flatten h.size, h.ids]

/-- **The join pairs the `i`-th direct-I/O record with the `j`-th request record of a delivery exactly if
    they carry the same id.** -/
theorem mem_joinDioPtr {pmcInv : UInt64} {heatmapRow : Int} {m : InfoModule} {recs : List InfoRecord}
    (h : deliver (.new pmcInv heatmapRow) recs = .ok m) {i j : Nat} :
    (i, j) ∈ m.joinDioPtr ↔
      ∃ d r, (recs.filterMap InfoRecord.dioInfo?)[i]? = some d ∧
        (recs.filterMap InfoRecord.rqInfo?)[j]? = some r ∧ d.dioUid = r.dioUid := by
  obtain ⟨⟨rows, hd, hl⟩, ⟨rows', hr, hl'⟩⟩ := logRows_deliver h
  have hdio : m.dioTable.map (itemk · 0) = (recs.filterMap InfoRecord.dioInfo?).map DioInfoEvent.dioUid :=
    table_of_loggedAs (by rw [hd]; exact hl)
  have hrq : m.rqTable.map (itemk · 0) = (recs.filterMap InfoRecord.rqInfo?).map RqInfoEvent.dioUid :=
    table_of_loggedAs (by rw [hr]; exact hl')
  -- a row and the record behind it carry the same id
  have hword {α : Type} {rows : List (List UInt8)} {logs : List α} {uid : α → UInt64}
      (heq : rows.map (itemk · 0) = logs.map uid) (n : Nat) (w : UInt64) :
      (∃ row, rows[n]? = some row ∧ itemk row 0 = w) ↔ ∃ log, logs[n]? = some log ∧ uid log = w := by
    have hn := congrArg (fun l => l[n]?) heq
    simp only [List.getElem?_map] at hn
    rw [← Option.map_eq_some_iff, ← Option.map_eq_some_iff, hn]
  rw [InfoModule.joinDioPtr, mem_hashjoinVector_one]
  constructor
  · rintro ⟨ra, rb, ha, hb, heq⟩
    obtain ⟨d, hdi, hdu⟩ := (hword hdio i (itemk ra 0)).mp ⟨ra, ha, rfl⟩
    obtain ⟨r, hrj, hru⟩ := (hword hrq j (itemk ra 0)).mp ⟨rb, hb, heq.symm⟩
    exact ⟨d, r, hdi, hrj, hdu.trans hru.symm⟩
  · rintro ⟨d, r, hdi, hrj, heq⟩
    obtain ⟨ra, ha, hau⟩ := (hword hdio i d.dioUid).mpr ⟨d, hdi, rfl⟩
    obtain ⟨rb, hb, hbu⟩ := (hword hrq j d.dioUid).mpr ⟨r, hrj, heq.symm⟩
    exact ⟨ra, rb, ha, hb, hau.trans hbu.symm⟩

end Info

end StorTrace.Ext4Dio
