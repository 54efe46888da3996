import StorTrace.Ext4Dio.Aligned
import StorTrace.Digestible.Quantile

/-!
# `Ext4Dio.QuantileRun` — which direct I/Os the quantile filter logs

The filter of the simple tracer with its digest in it. What is logged of a stream depends on each event and on
the digest of all events before it, logged or not. Nothing is dropped before the digest is merged for the first
time, and an event at least as slow as all before it is dropped at no time.
-/

namespace StorTrace.Ext4Dio.Simple

open Binary64 Digestible

/-! ## What a filter lets through -/

section Passed

variable {δ : Type}

/-- The events of a stream that a filter lets through. -/
def passedBy (f : QuantileFilter δ) : List SimpleDioEvent → List SimpleDioEvent
  | [] => []
  | log :: rest =>
      if (f.check log).1 then passedBy (f.check log).2 rest else log :: passedBy (f.check log).2 rest

/-- Without a filter, all. -/
def passed (filter : Option (QuantileFilter δ)) (logs : List SimpleDioEvent) : List SimpleDioEvent :=
  match filter with
  | none => logs
  | some f => passedBy f logs

/-- The filter after an event. -/
def nextFilter (filter : Option (QuantileFilter δ)) (log : SimpleDioEvent) : Option (QuantileFilter δ) :=
  filter.map (fun f => (f.check log).2)

theorem passedBy_cons (f : QuantileFilter δ) (log : SimpleDioEvent) (rest : List SimpleDioEvent) :
    passedBy f (log :: rest) =
      if (f.check log).1 then passedBy (f.check log).2 rest else log :: passedBy (f.check log).2 rest := rfl

theorem passed_cons (filter : Option (QuantileFilter δ)) (log : SimpleDioEvent) (rest : List SimpleDioEvent) :
    passed filter (log :: rest) = passed filter [log] ++ passed (nextFilter filter log) rest := by
  cases filter with
  | none => rfl
  | some f =>
      show passedBy f (log :: rest) = passedBy f [log] ++ passedBy (f.check log).2 rest
      rw [passedBy_cons, passedBy_cons f log []]
      split
      · rfl
      · rfl

/-- `do_event` commits what the filter lets through, and says so to `do_meta`. -/
theorem doEvent_eq (m : SimpleModule δ) (log : SimpleDioEvent) :
    doEvent m log =
      (⟨m.commits ++ (passed m.filter [log]).map (fun v => commitWords formats "ext4_dio_simple_event" (eventWords v)),
        m.collectors, nextFilter m.filter log⟩, decide (passed m.filter [log] = [log])) := by
  obtain ⟨commits, collectors, filter⟩ := m
  cases filter with
  | none => simp [doEvent, passed, nextFilter]
  | some f =>
      cases hsel : (f.check log).1 with
      | true => simp [doEvent, passed, passedBy, nextFilter, hsel]
      | false => simp [doEvent, passed, passedBy, nextFilter, hsel]

variable {m m' : SimpleModule δ} {log : SimpleDioEvent} {logs : List SimpleDioEvent}

/-- The calls for one event: its row and its meta row. -/
def callsOf (v : SimpleDioEvent) : List CommitCall :=
  [commitWords formats "ext4_dio_simple_event" (eventWords v), commitWords formats "ext4_dio_simple_meta" (metaWords v)]

theorem passed_singleton (filter : Option (QuantileFilter δ)) (log : SimpleDioEvent) :
    passed filter [log] = [log] ∨ passed filter [log] = [] := by
  cases filter with
  | none => exact Or.inl rfl
  | some f =>
      show passedBy f [log] = [log] ∨ passedBy f [log] = []
      rw [passedBy_cons]
      split
      · exact Or.inr rfl
      · exact Or.inl rfl

/-- **One record**: its value enters the digest, and it is written to both logs or to none. -/
theorem commits_proxy (h : proxy m log = .ok m') :
    m'.commits = m.commits ++ (passed m.filter [log]).flatMap callsOf ∧ m'.filter = nextFilter m.filter log := by
  obtain ⟨flag, -, hm⟩ := bind_eq_ok.mp h
  rw [← Except.ok.inj hm, doEvent_eq]
  rcases passed_singleton m.filter log with hone | hnone
  · simp [hone, callsOf]
  · simp [hnone]

/-- **A stream**: the calls for the events that are let through, in order. -/
theorem commits_deliver (h : deliver m logs = .ok m') :
    m'.commits = m.commits ++ (passed m.filter logs).flatMap callsOf := by
  induction logs generalizing m with
  | nil =>
      rw [← Except.ok.inj h]
      cases m.filter <;> exact (List.append_nil _).symm
  | cons log logs ih =>
      obtain ⟨m₁, h₁, h₂⟩ := bind_eq_ok.mp h
      obtain ⟨hcommits, hfilter⟩ := commits_proxy h₁
      rw [ih h₂, hcommits, hfilter, passed_cons m.filter log logs, List.flatMap_append, List.append_assoc]

/-- The rows of the two logs. -/
theorem rows_callsOf (vs : List SimpleDioEvent) :
    ((vs.flatMap callsOf).filter (fun c => c.fName = "ext4_dio_simple_event")).map CommitCall.row = vs.map eventRow ∧
      ((vs.flatMap callsOf).filter (fun c => c.fName = "ext4_dio_simple_meta")).map CommitCall.row =
        vs.map metaRow := by
  induction vs with
  | nil => exact ⟨rfl, rfl⟩
  | cons v vs ih =>
      have hevent : (commitWords formats "ext4_dio_simple_event" (eventWords v)).row = eventRow v :=
        commitWords_row rfl
      have hmeta : (commitWords formats "ext4_dio_simple_meta" (metaWords v)).row = metaRow v := commitWords_row rfl
      rw [List.flatMap_cons, List.filter_append, List.filter_append, List.map_append, List.map_append, ih.1, ih.2]
      simp [callsOf, commitWords, ← hevent, ← hmeta]

theorem logRows_passed (pmcInv : UInt64) {filter : Option (QuantileFilter δ)}
    (h : deliver (.new pmcInv filter) logs = .ok m) :
    InStep eventRow id (m.logRows "ext4_dio_simple_event") (m.logRows "ext4_dio_simple_meta")
      (passed filter logs) := by
  have hcommits : m.commits = (passed filter logs).flatMap callsOf := commits_deliver h
  obtain ⟨hevents, hmetas⟩ := rows_callsOf (passed filter logs)
  refine ⟨?_, ?_⟩
  · rw [SimpleModule.logRows, hcommits, hevents]
  · rw [SimpleModule.logRows, hcommits, hmetas]
    rfl

end Passed

/-! ## The filter with its digest -/

/-- `struct filter_config`, with the accuracy as the digest takes it. Its `cold_start_iter` is never read. -/
structure FilterConfig where
  quantile : Float
  filterAccuracy : ℕ
  stage : FilterStage

/-- `unsigned int quantile_value = filter->quantile(..)`; what is thrown at a rank out of range ends the program. -/
def digestQuantile (p : Float) (d : Tdigest) : UInt32 :=
  match d.quantile p with
  | .ok quantile => quantile.toUInt32
  | .error _ => 0

section Filter

variable (S : StdSort) (conf : FilterConfig)

/-- The filter with the digest `d`. -/
def digestFilter (d : Tdigest) : QuantileFilter Tdigest :=
  ⟨d, digestQuantile conf.quantile, Tdigest.insertValue S, conf.stage⟩

/-- The digest after the events `before`. -/
def digestAfter (before : List SimpleDioEvent) : Tdigest :=
  insertAll S conf.filterAccuracy (before.map (filterValue conf.stage))

/-- After the events `before`, the filter lets `log` through. -/
def Keeps (before : List SimpleDioEvent) (log : SimpleDioEvent) : Prop :=
  digestQuantile conf.quantile (digestAfter S conf before) ≤ filterValue conf.stage log

instance (before : List SimpleDioEvent) (log : SimpleDioEvent) : Decidable (Keeps S conf before log) :=
  inferInstanceAs (Decidable (_ ≤ _))

/-- The events of a stream that are let through after the events `before`. -/
def kept (before : List SimpleDioEvent) : List SimpleDioEvent → List SimpleDioEvent
  | [] => []
  | log :: rest =>
      if Keeps S conf before log then log :: kept (before ++ [log]) rest else kept (before ++ [log]) rest

end Filter

variable {S : StdSort} {conf : FilterConfig} {before logs rest : List SimpleDioEvent} {log : SimpleDioEvent}

theorem digestAfter_concat (before : List SimpleDioEvent) (log : SimpleDioEvent) :
    digestAfter S conf (before ++ [log]) =
      Tdigest.insertValue S (digestAfter S conf before) (filterValue conf.stage log) := by
  unfold digestAfter
  rw [List.map_append, List.map_cons, List.map_nil, insertAll_concat]

theorem kept_cons (before : List SimpleDioEvent) (log : SimpleDioEvent) (rest : List SimpleDioEvent) :
    kept S conf before (log :: rest) =
      if Keeps S conf before log then log :: kept S conf (before ++ [log]) rest
      else kept S conf (before ++ [log]) rest := rfl

theorem kept_append (before logs rest : List SimpleDioEvent) :
    kept S conf before (logs ++ rest) = kept S conf before logs ++ kept S conf (before ++ logs) rest := by
  induction logs generalizing before with
  | nil => rw [List.append_nil]; rfl
  | cons log logs ih =>
      have hsplit : before ++ (log :: logs) = before ++ [log] ++ logs := by simp
      rw [hsplit, List.cons_append, kept_cons, kept_cons, ih]
      split
      · rw [List.cons_append]
      · rfl

/-- An event that is let through stands behind those of the events before it that were. -/
theorem kept_of_keeps (h : Keeps S conf logs log) :
    kept S conf [] (logs ++ log :: rest) = kept S conf [] logs ++ log :: kept S conf (logs ++ [log]) rest := by
  rw [kept_append, List.nil_append, kept_cons, if_pos h]

/-- The filter with the digest of the events before lets through what is kept. -/
theorem passedBy_digestFilter (before logs : List SimpleDioEvent) :
    passedBy (digestFilter S conf (digestAfter S conf before)) logs = kept S conf before logs := by
  induction logs generalizing before with
  | nil => rfl
  | cons log logs ih =>
      have hnext : ((digestFilter S conf (digestAfter S conf before)).check log).2 =
          digestFilter S conf (digestAfter S conf (before ++ [log])) := by
        rw [digestAfter_concat]
        rfl
      rw [kept_cons, passedBy_cons, hnext, ih]
      by_cases hkeeps : Keeps S conf before log
      · have hsel : ((digestFilter S conf (digestAfter S conf before)).check log).1 = false :=
          decide_eq_false (UInt32.not_lt.mpr hkeeps)
        rw [if_pos hkeeps, hsel, if_neg Bool.false_ne_true]
      · have hsel : ((digestFilter S conf (digestAfter S conf before)).check log).1 = true :=
          decide_eq_true (UInt32.not_le.mp hkeeps)
        rw [if_neg hkeeps, hsel, if_pos rfl]

/-! ## What is never dropped -/

variable {rank : ℚ}

/-- The quantile is zero until the digest is merged for the first time. -/
theorem keeps_cold (hp : value conf.quantile = some rank) (h0 : 0 ≤ rank) (h100 : rank ≤ 100)
    (hlt : before.length < conf.filterAccuracy * Tdigest.bufferMultiplier) (hlen : before.length < 2 ^ 32) :
    Keeps S conf before log := by
  have hcold := (insertAll_cold S conf.filterAccuracy (before.map (filterValue conf.stage))
    (by rwa [List.length_map])).1
  obtain ⟨hw, -⟩ := insertAll_state S conf.filterAccuracy (before.map (filterValue conf.stage))
    (by rwa [List.length_map])
  have hnil : mergedOf S conf.filterAccuracy (before.map (filterValue conf.stage)) = [] := by
    unfold mergedOf
    rw [hcold]
    exact List.take_zero
  rw [hnil] at hw
  have hzero : digestQuantile conf.quantile (digestAfter S conf before) = 0 := by
    unfold digestQuantile digestAfter
    rw [quantile_empty hw hp h0 h100]
    refine UInt32.toNat_inj.mp ?_
    rw [toUInt32_value value_zero (le_refl _) (by norm_num)]
    rfl
  unfold Keeps
  rw [hzero]
  exact zero_le_value _

/-- The quantile, where it is a number, does not exceed a value that no earlier one exceeds. -/
theorem keeps_slowest (hp : value conf.quantile = some rank) (h0 : 0 ≤ rank) (h100 : rank ≤ 100)
    (hlen : before.length < 2 ^ 32)
    (hhole : ¬ Hole (digestAfter S conf before) ((digestAfter S conf before).indexOf conf.quantile))
    (hslow : ∀ v ∈ before, filterValue conf.stage v ≤ filterValue conf.stage log) : Keeps S conf before log := by
  obtain ⟨hw, ho⟩ := insertAll_state S conf.filterAccuracy (before.map (filterValue conf.stage))
    (by rwa [List.length_map])
  have hslow' : ∀ x ∈ mergedOf S conf.filterAccuracy (before.map (filterValue conf.stage)),
      x ≤ filterValue conf.stage log := by
    intro x hx
    obtain ⟨v, hv, rfl⟩ := List.mem_map.mp (List.mem_of_mem_take hx)
    exact hslow v hv
  have hbound : ∀ {r : Float} {v : ℚ}, value r = some v → 0 ≤ v →
      v ≤ (filterValue conf.stage log).toNat → r.toUInt32 ≤ filterValue conf.stage log := by
    intro r v hr hv0 hv
    have hfit : ((filterValue conf.stage log).toNat : ℚ) < 4294967296 := by
      exact_mod_cast (filterValue conf.stage log).toNat_lt
    rw [UInt32.le_iff_toNat_le, toUInt32_value hr hv0 (lt_of_le_of_lt hv hfit)]
    exact Nat.floor_le_of_le hv
  unfold Keeps digestQuantile
  by_cases hne : mergedOf S conf.filterAccuracy (before.map (filterValue conf.stage)) = []
  · rw [hne] at hw
    rw [digestAfter, quantile_empty hw hp h0 h100]
    exact hbound value_zero (le_refl _) (Nat.cast_nonneg _)
  · obtain ⟨r, hr, ⟨-, hhole'⟩ | ⟨-, v, hv, hfound⟩⟩ := quantile_found hw ho hne hp h0 h100
    · exact absurd hhole' hhole
    · rw [digestAfter, hr]
      refine hbound hv (hfound.nonneg hw ho) (le_trans (hfound.le_max hw ho) ?_)
      exact_mod_cast UInt32.le_iff_toNat_le.mp (ho.maxVal.2 hslow')

/-- What the two logs of a filtered module hold of the stream `logs`. -/
structure LogsKept (S : StdSort) (conf : FilterConfig) (logs : List SimpleDioEvent) (m : SimpleModule Tdigest) :
    Prop where
  /-- The rows are those of the events that are let through, in order. -/
  inStep :
    InStep eventRow id (m.logRows "ext4_dio_simple_event") (m.logRows "ext4_dio_simple_meta") (kept S conf [] logs)
  /-- Among them is every event that comes before the first merge, and every event that none before it exceeds,
      unless the quantile is not a number there. -/
  keeps : ∀ before log rest, logs = before ++ log :: rest →
    (before.length < conf.filterAccuracy * Tdigest.bufferMultiplier ∨
      ¬ Hole (digestAfter S conf before) ((digestAfter S conf before).indexOf conf.quantile) ∧
        ∀ v ∈ before, filterValue conf.stage v ≤ filterValue conf.stage log) →
    kept S conf [] logs = kept S conf [] before ++ log :: kept S conf (before ++ [log]) rest

/-- **What the filtered tracer logs**, of every stream of fewer than `2 ^ 32` reads and writes, at a rank between
    `0` and `100`. -/
theorem logsKept_deliver (S : StdSort) (conf : FilterConfig) {rank : ℚ} (hp : value conf.quantile = some rank)
    (h0 : 0 ≤ rank) (h100 : rank ≤ 100) (pmcInv : UInt64) {logs : List SimpleDioEvent} (hlen : logs.length < 2 ^ 32)
    {m : SimpleModule Tdigest}
    (h : deliver (.new pmcInv (some (digestFilter S conf (.new conf.filterAccuracy)))) logs = .ok m) :
    LogsKept S conf logs m := by
  have hpassed : passed (some (digestFilter S conf (.new conf.filterAccuracy))) logs = kept S conf [] logs :=
    passedBy_digestFilter [] logs
  refine ⟨hpassed ▸ logRows_passed pmcInv h, ?_⟩
  rintro before log rest rfl hcases
  have hbefore : before.length < 2 ^ 32 := by
    rw [List.length_append] at hlen
    omega
  rcases hcases with hcold | ⟨hhole, hslow⟩
  · exact kept_of_keeps (keeps_cold hp h0 h100 hcold hbefore)
  · exact kept_of_keeps (keeps_slowest hp h0 h100 hbefore hhole hslow)

/-- Three reads that took 30, 10 and 20 nanoseconds. -/
def threeReads : List SimpleDioEvent :=
  [⟨0, 0, 0, 30, 0, 0, .zero 16, .zero 16, dRead⟩, ⟨0, 0, 0, 10, 0, 0, .zero 16, .zero 16, dRead⟩,
    ⟨0, 0, 0, 20, 0, 0, .zero 16, .zero 16, dRead⟩]

theorem logsKept_deliver_three :
    ∃ m, deliver (.new 1 (some (digestFilter .stable ⟨100, 1, .sum⟩ (.new 1)))) threeReads = .ok m ∧
      LogsKept .stable ⟨100, 1, .sum⟩ threeReads m := by
  have hok : ∃ m, deliver (.new 1 (some (digestFilter .stable ⟨100, 1, .sum⟩ (.new 1)))) threeReads = .ok m :=
    deliver_ok_iff.mpr (by decide)
  obtain ⟨m, hm⟩ := hok
  exact ⟨m, hm, logsKept_deliver .stable ⟨100, 1, .sum⟩ value_hundred (by norm_num) (by norm_num) 1 (by decide) hm⟩

end StorTrace.Ext4Dio.Simple
