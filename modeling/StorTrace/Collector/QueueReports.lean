import StorTrace.Collector.QueueSamples

/-!
# `Collector.QueueReports` — what `HctxStateCollector` reports of each hardware queue

The first record of a queue creates its `HctxState` but is not committed to it, and no branch sets
`queue_num`. `lookup_commits` gives the state of every queue after any stream; `queuesReported_iff` follows:
only a stream without records is reported in full.
-/

namespace StorTrace

open Ext4Dio

/-- The records of queue `q`. -/
def recordsOf (q : Ptr) (recs : List HctxMetadata) : List HctxMetadata := recs.filter (fun r => r.hctxPtr = q)

/-- A commit that is defined does what `commit` does. -/
theorem HctxState.commit_of_commit? {state state' : HctxState} {data : HctxMetadata}
    (h : state.commit? data = some state') : state.commit data = state' := by
  unfold HctxState.commit? at h
  exact Option.some.inj (Option.ite_none_right_eq_some.mp h).2

namespace HctxStateCollector

variable {c c' : HctxStateCollector} {data : HctxMetadata} {recs : List HctxMetadata}

/-! ## The state of each queue -/

/-- What one record makes of the state of its queue. -/
def nextState (interval : UInt64) (state : Option HctxState) (data : HctxMetadata) : Option HctxState :=
  match state with
  | none => some (.new interval data.hctxPtr)
  | some state => state.commit? data

/-- **One record** changes the state of its queue, and no other. -/
theorem lookup_commit? (h : c.commit? data = some c') (q : Ptr) :
    c'.interval = c.interval ∧
      c'.collector.lookup q =
        if data.hctxPtr = q then nextState c.interval (c.collector.lookup q) data else c.collector.lookup q := by
  unfold commit? commit at h
  cases hl : c.collector.lookup data.hctxPtr with
  | none =>
      rw [hl] at h
      rw [← Option.some.inj h]
      refine ⟨rfl, ?_⟩
      by_cases hq : data.hctxPtr = q
      · subst hq
        rw [if_pos rfl, AList.lookup_insert, hl]
        rfl
      · rw [if_neg hq]
        exact AList.lookup_insert_ne (Ne.symm hq)
  | some state =>
      rw [hl] at h
      obtain ⟨state', hs, hc'⟩ := Option.map_eq_some_iff.mp h
      rw [← hc']
      refine ⟨rfl, ?_⟩
      by_cases hq : data.hctxPtr = q
      · subst hq
        rw [if_pos rfl, AList.lookup_insert, hl, nextState, hs, HctxState.commit_of_commit? hs]
      · rw [if_neg hq]
        exact AList.lookup_insert_ne (Ne.symm hq)

/-- What the records of a queue make of its state: the first one only creates it. -/
def finalState (interval : UInt64) (state : Option HctxState) (recs : List HctxMetadata) : Option HctxState :=
  match state, recs with
  | some state, recs => state.commits? recs
  | none, [] => none
  | none, r :: later => (HctxState.new interval r.hctxPtr).commits? later

/-- **The state of every queue after a stream.** -/
theorem lookup_commits? (h : c.commits? recs = some c') (q : Ptr) :
    c'.collector.lookup q = finalState c.interval (c.collector.lookup q) (recordsOf q recs) := by
  induction recs generalizing c with
  | nil =>
      rw [← Option.some.inj h]
      cases hl : c.collector.lookup q <;> rfl
  | cons r rest ih =>
      obtain ⟨c₁, h₁, h₂⟩ := Option.bind_eq_some_iff.mp h
      obtain ⟨hinterval, hlookup⟩ := lookup_commit? h₁ q
      rw [ih h₂, hinterval, hlookup]
      by_cases hq : r.hctxPtr = q
      · have hrecs : recordsOf q (r :: rest) = r :: recordsOf q rest := by simp [recordsOf, hq]
        rw [if_pos hq, hrecs]
        cases hl : c.collector.lookup q with
        | none => rfl
        | some state =>
            show finalState c.interval (state.commit? r) _ = (state.commit? r).bind _
            -- the collector goes on only if the commit was defined
            have hdef : ∃ state', state.commit? r = some state' := by
              rw [← hq] at hl
              unfold commit? at h₁
              rw [hl] at h₁
              obtain ⟨state', hs, -⟩ := Option.map_eq_some_iff.mp h₁
              exact ⟨state', hs⟩
            obtain ⟨state', hs⟩ := hdef
            rw [hs]
            rfl
      · have hrecs : recordsOf q (r :: rest) = recordsOf q rest := by simp [recordsOf, hq]
        rw [if_neg hq, hrecs]

/-! ## The queue number -/

/-- No commit sets `queue_num`. -/
theorem queueNum_commits? {state state' : HctxState} (h : state.commits? recs = some state') :
    state'.queueNum = state.queueNum := by
  induction recs generalizing state with
  | nil => rw [← Option.some.inj h]
  | cons r rest ih =>
      obtain ⟨state₁, h₁, h₂⟩ := Option.bind_eq_some_iff.mp h
      have hstep : state₁.queueNum = state.queueNum := by
        rw [← HctxState.commit_of_commit? h₁]
        show (state.align r).queueNum = state.queueNum
        unfold HctxState.align
        split <;> rfl
      rw [ih h₂, hstep]

/-- **No queue that is reported has a name.** -/
theorem name_of_mem_dumpJson {acc : UInt64} (h : (new acc).commits? recs = some c) {j : HctxJson}
    (hj : j ∈ c.dumpJson) : j.name = none := by
  obtain ⟨⟨q, state⟩, hmem, rfl⟩ := List.mem_map.mp hj
  have hlookup : c.collector.lookup q = some state := AList.mem_lookup_iff.mpr hmem
  rw [lookup_commits? h q] at hlookup
  have hnew : (new acc).collector.lookup q = none := AList.lookup_empty q
  rw [hnew] at hlookup
  have hnum : state.queueNum = none := by
    cases hrecs : recordsOf q recs with
    | nil =>
        rw [hrecs] at hlookup
        cases hlookup
    | cons r later =>
        rw [hrecs] at hlookup
        exact queueNum_commits? hlookup
  show state.queueNum.bind _ = none
  rw [hnum]
  rfl

end HctxStateCollector

/-! ## The reports -/

/-- **The queue of record `r` is reported**: by one JSON record, under its name and node, with the last
    pair of every window of all its records. -/
def Reported (interval : UInt64) (recs : List HctxMetadata) (dump : List HctxJson) (r : HctxMetadata) : Prop :=
  ∃ j, dump.filter (fun j => j.hctxPtr = r.hctxPtr) = [j] ∧
    j.name = some (hctxName r.queueNum r.diskName) ∧ j.numaNode = some r.numaNode ∧
    (∀ k ∈ hctxWindows interval (recordsOf r.hctxPtr recs), k < j.runed.length) ∧
    ∀ i < j.runed.length, j.runed[i]? = some (lastPair interval (recordsOf r.hctxPtr recs) i).1 ∧
      j.queued[i]? = some (lastPair interval (recordsOf r.hctxPtr recs) i).2

/-- **Hardware-queue statistics lose no sample and no queue**: every queue is reported, and different queues
    are written to different files. -/
def QueuesReported (acc : UInt64) (recs : List HctxMetadata) : Prop :=
  ∃ c, (HctxStateCollector.new acc).commits? recs = some c ∧
    (∀ r ∈ recs, Reported (intParam acc) recs c.dumpJson r) ∧
    ∀ r ∈ recs, ∀ r' ∈ recs, (r.queueNum, r.diskName) ≠ (r'.queueNum, r'.diskName) →
      ∀ j ∈ c.dumpJson, ∀ j' ∈ c.dumpJson, j.hctxPtr = r.hctxPtr → j'.hctxPtr = r'.hctxPtr → j.name ≠ j'.name

/-- **Only a stream without records is reported in full.** -/
theorem queuesReported_iff (acc : UInt64) (recs : List HctxMetadata) : QueuesReported acc recs ↔ recs = [] := by
  constructor
  · rintro ⟨c, hc, hrep, -⟩
    cases recs with
    | nil => rfl
    | cons r rest =>
        -- the JSON record of the first queue has no name
        obtain ⟨j, hj, hname, -⟩ := hrep r (by simp)
        have hmem : j ∈ c.dumpJson := by
          have hfilter : j ∈ c.dumpJson.filter (fun j => j.hctxPtr = r.hctxPtr) := by
            rw [hj]
            simp
          exact (List.mem_filter.mp hfilter).1
        rw [HctxStateCollector.name_of_mem_dumpJson hc hmem] at hname
        cases hname
  · rintro rfl
    exact ⟨_, rfl, by simp, by simp⟩

/-- A record of queue `0` of `"vda"` at time `0`: seven requests dispatched and two waiting. -/
def vdaRecord : HctxMetadata := ⟨1, 0, 7, 2, 0, 0, ⟨[118, 100, 97] ++ List.replicate 29 0, rfl⟩⟩

/-- One record of one queue: its queue is reported without a name and without the record. -/
theorem not_queuesReported_one : ¬ QueuesReported 1000 [vdaRecord] := by
  rintro ⟨c, hc, hrep, -⟩
  obtain ⟨j, hj, hname, -⟩ := hrep vdaRecord (by simp)
  have hdump : ((HctxStateCollector.new 1000).commits? [vdaRecord]).map HctxStateCollector.dumpJson =
      some [⟨none, 1, none, List.replicate 30 0, List.replicate 30 0⟩] := by decide
  rw [hc, Option.map_some] at hdump
  rw [Option.some.inj hdump] at hj
  have hj' : j = ⟨none, 1, none, List.replicate 30 0, List.replicate 30 0⟩ := by
    simpa [vdaRecord, eq_comm] using hj
  rw [hj'] at hname
  cases hname

end StorTrace
