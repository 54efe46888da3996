import StorTrace.BlockTrace.RequestRun
import StorTrace.BlockTrace.Report
import StorTrace.Lib.Duration

/-!
# `BlockTrace.Stages` — are the stages of a request true durations?

The two members of the path union share their first word, and `do_event` chooses the member by tags that
different probes set. As long as the last round of the request wrote both the tags and the words, every
stage is the later minus the earlier of two readings. A bypass insert writes the tag `s_type` and the
first word only: after an earlier round it leaves that round's `d_type` and dispatch time behind, and
`dispatch - sched` wraps.
-/

namespace StorTrace.BlockTrace

/-! ## The unions: who wrote last, and who reads -/

/-- The members of the two unions. -/
inductive UnionMember where
  | schedPath
  | directPath
  | scsiPath
  | nvmePath
deriving DecidableEq

/-- The member of the path union a probe writes through. -/
def BlkProbe.pathWrite : BlkProbe → Option UnionMember
  | .blkMqRequestBypassInsert ..  => some .schedPath
  | .blkMqSchedRequestInserted .. => some .schedPath
  | .bfqDispatchRequest ..        => some .schedPath
  | .ddDispatchRequest ..         => some .schedPath
  | .kyberDispatchRequest ..      => some .schedPath
  | .blkMqDequeueFromCtx ..       => some .schedPath
  | .blkMqIssueDirectly ..        => some .directPath
  | _                             => none

/-- The member of the completion union a probe writes through. -/
def BlkProbe.doneWrite : BlkProbe → Option UnionMember
  | .scsiEndRequest .. => some .scsiPath
  | .nvmeCompleteRq .. => some .nvmePath
  | _                  => none

/-- The writes of a round to the path union. -/
def Round.pathWrites : Round → List UnionMember
  | .direct ..    => [.directPath]
  | .bypass ..    => [.schedPath]
  | .scheduled .. => [.schedPath, .schedPath]

theorem Round.filterMap_pathWrite (x : Round) (rq : Ptr) :
    (x.events rq).filterMap BlkProbe.pathWrite = x.pathWrites := by
  cases x with
  | direct now q => obtain ⟨driver, _, _⟩ := q; cases driver <;> rfl
  | bypass now q =>
      cases q with
      | none => rfl
      | some q => obtain ⟨driver, _, _⟩ := q; cases driver <;> rfl
  | scheduled el inserted di dispatched q =>
      obtain ⟨driver, _, _⟩ := q
      cases el <;> cases di <;> cases driver <;> rfl

/-- The members of the path union `do_event` reads: one for the times before the dispatch, one for the
    dispatch. -/
def pathReads (log : RqTraceEvent) : List UnionMember :=
  [if log.rqSub.sType = .noSchedu then .directPath else .schedPath,
    if log.rqSub.dType = .directDispatch then .directPath else .schedPath]

/-- The member of the completion union `do_event` reads. -/
def doneReads (log : RqTraceEvent) : List UnionMember :=
  match log.rqComp.drive with
  | .nvme  => [.nvmePath]
  | .scsi  => [.scsiPath]
  | .error => []

/-- Each union is read only through the member it was last written through. -/
def ReadsLastWritten (evs : List BlkProbe) (log : RqTraceEvent) : Prop :=
  (∀ m ∈ pathReads log, (evs.filterMap BlkProbe.pathWrite).getLast? = some m) ∧
    ∀ m ∈ doneReads log, (evs.filterMap BlkProbe.doneWrite).getLast? = some m

instance (evs : List BlkProbe) (log : RqTraceEvent) : Decidable (ReadsLastWritten evs log) :=
  inferInstanceAs (Decidable (_ ∧ _))

/-- **The stages of every row committed for the run are durations** between readings of the run, read
    through the members last written. -/
def StagesSound (cfg : FilterConfig) (s : BlkState) (r : RequestRun) (bioEnter : TimeStramp)
    (ndebug : Bool) (heap : EventData) : Prop :=
  ∀ log row, .rqTrace log ∈ (blkTracer cfg).emitFrom s r.events →
    committedRow (doEventRq ndebug log heap) = some row →
    (∀ v ∈ stageLatencies (.ofRow row), IsDuration (r.readings bioEnter) v) ∧
      ReadsLastWritten r.events log

/-! ## What the rounds leave in the entry -/

section Rounds

variable {v : RqTraceEvent}

/-- A round leaves the times before it alone. -/
theorem onRound_frame (v : RqTraceEvent) (x : Round) :
    (v.onRound x).rqSub.plug = v.rqSub.plug ∧ (v.onRound x).rqStart = v.rqStart ∧
      (v.onRound x).bioEnter = v.bioEnter := by
  cases x with
  | direct now q => exact ⟨rfl, rfl, rfl⟩
  | bypass now q => cases q <;> exact ⟨rfl, rfl, rfl⟩
  | scheduled el inserted di dispatched q => cases el <;> exact ⟨rfl, rfl, rfl⟩

theorem foldl_onRound_frame (rounds : List Round) (v : RqTraceEvent) :
    (rounds.foldl RqTraceEvent.onRound v).rqSub.plug = v.rqSub.plug ∧
      (rounds.foldl RqTraceEvent.onRound v).rqStart = v.rqStart ∧
      (rounds.foldl RqTraceEvent.onRound v).bioEnter = v.bioEnter := by
  induction rounds generalizing v with
  | nil => exact ⟨rfl, rfl, rfl⟩
  | cons x rest ih =>
      obtain ⟨hp, hs, hb⟩ := onRound_frame v x
      obtain ⟨hp', hs', hb'⟩ := ih (v.onRound x)
      exact ⟨hp'.trans hp, hs'.trans hs, hb'.trans hb⟩

/-- The dispatch tag is set by every round but a bypass insert. -/
theorem foldl_onRound_dType (rounds : List Round) (h : v.rqSub.dType = .unknownDispatch) :
    (rounds.foldl RqTraceEvent.onRound v).rqSub.dType = .unknownDispatch ↔
      ∀ x ∈ rounds, x.isBypass = true := by
  induction rounds using List.reverseRecOn with
  | nil => simp [h]
  | append_singleton rest x ih =>
      rw [List.foldl_append, List.foldl_cons, List.foldl_nil]
      simp only [List.mem_append, List.mem_singleton, or_imp, forall_and, forall_eq, ← ih]
      cases x with
      | direct now q => simp [RqTraceEvent.onRound, RqTraceEvent.onQueueCall,
          RqTraceEvent.onQueueRq, RqTraceEvent.onIssueDirectly, Round.isBypass]
      | bypass now q => cases q <;> simp [RqTraceEvent.onRound, RqTraceEvent.onQueueCall,
          RqTraceEvent.onQueueRq, RqTraceEvent.onBypassInsert, Round.isBypass]
      | scheduled el inserted di dispatched q => cases di <;> simp [RqTraceEvent.onRound,
          RqTraceEvent.onQueueCall, RqTraceEvent.onQueueRq, RqTraceEvent.onDispatch,
          Dispatcher.dType, Round.isBypass]

/-- The drive tag is that of the last `queue_rq`. -/
theorem foldl_onRound_drive (rounds : List Round) (v : RqTraceEvent) :
    (rounds.foldl RqTraceEvent.onRound v).rqComp.drive =
      (((rounds.flatMap Round.queueCalls).getLast?.map (·.driver.driveType)).getD v.rqComp.drive) := by
  induction rounds using List.reverseRecOn with
  | nil => rfl
  | append_singleton rest x ih =>
      rw [List.foldl_append, List.foldl_cons, List.foldl_nil, List.flatMap_append, List.flatMap_singleton]
      cases x with
      | direct now q => simp [RqTraceEvent.onRound, RqTraceEvent.onQueueCall, RqTraceEvent.onQueueRq,
          Round.queueCalls]
      | bypass now q =>
          cases q with
          | none => simpa [RqTraceEvent.onRound, RqTraceEvent.onBypassInsert, Round.queueCalls] using ih
          | some q => simp [RqTraceEvent.onRound, RqTraceEvent.onQueueCall, RqTraceEvent.onQueueRq,
              Round.queueCalls]
      | scheduled el inserted di dispatched q => simp [RqTraceEvent.onRound,
          RqTraceEvent.onQueueCall, RqTraceEvent.onQueueRq, Round.queueCalls]

/-- The dispatch time is that of an earlier round, or was never taken. -/
theorem foldl_onRound_dispatch (rounds : List Round) (h : v.rqSub.path.dispatch = 0) :
    (rounds.foldl RqTraceEvent.onRound v).rqSub.path.dispatch = 0 ∨
      (rounds.foldl RqTraceEvent.onRound v).rqSub.path.dispatch ∈ rounds.flatMap Round.readings := by
  induction rounds using List.reverseRecOn with
  | nil => exact Or.inl h
  | append_singleton rest x ih =>
      rw [List.foldl_append, List.foldl_cons, List.foldl_nil, List.flatMap_append, List.flatMap_singleton]
      cases x with
      | direct now q => exact ih.imp id (List.mem_append_left _)
      | bypass now q => cases q <;> exact ih.imp id (List.mem_append_left _)
      | scheduled el inserted di dispatched q =>
          exact Or.inr (List.mem_append_right _ (List.mem_cons_of_mem _ List.mem_cons_self))

end Rounds

/-! ## A last round that wrote everything -/

/-- The stages of a record of a known drive are durations when the times around them are in order. -/
theorem durations_of_stages {l : List TimeStramp} {log : RqTraceEvent} {heap : EventData}
    (hd : KnownDrive log) (hzero : IsDuration l 0) (halloc : IsDuration l (log.rqStart - log.bioEnter))
    (hplug : IsDuration l (plugStage log heap)) (hsched : IsDuration l (schedulingStage log heap))
    (hdisp : IsDuration l (dispatchStage log))
    (hexec : IsDuration l (log.rqComp.path.word - log.rqSub.queueRq))
    (hverify : IsDuration l (log.rqComp.accountIo - log.rqComp.path.word)) :
    ∀ v ∈ stageValues log heap, IsDuration l v := by
  intro v hv
  simp only [stageValues, List.mem_cons, List.not_mem_nil, or_false] at hv
  rcases hv with rfl | rfl | rfl | rfl | rfl | rfl | rfl | rfl
  · exact halloc
  · exact hplug
  · exact hsched
  · exact hdisp
  -- the stages of the other drive are `0`
  · rcases hd with hd | hd
    · rw [driveStage, if_pos hd]; exact hexec
    · rw [driveStage, hd]; exact hzero
  · rcases hd with hd | hd
    · rw [driveStage, hd]; exact hzero
    · rw [driveStage, if_pos hd]; exact hexec
  · rcases hd with hd | hd
    · rw [driveStage, if_pos hd]; exact hverify
    · rw [driveStage, hd]; exact hzero
  · rcases hd with hd | hd
    · rw [driveStage, hd]; exact hzero
    · rw [driveStage, if_pos hd]; exact hverify

namespace RequestRun

variable {r : RequestRun} {bioEnter : TimeStramp}

/-- The readings of the run without those of the rounds `init`. -/
theorem spine_sublist (bioEnter : TimeStramp) {init : List Round} {x : Round} (hr : r.rounds = init ++ [x]) :
    ([bioEnter, r.trackNow, r.plugNow] ++ x.readings ++ [r.completeNow, r.accountNow]).Sublist
      (r.readings bioEnter) := by
  have hx : x.readings.Sublist (r.rounds.flatMap Round.readings) := by
    rw [hr, List.flatMap_append, List.flatMap_singleton]
    exact List.sublist_append_right _ _
  exact (((List.Sublist.refl _).append hx).append (List.Sublist.refl _))

theorem log_frame (r : RequestRun) (bioEnter : TimeStramp) :
    (r.log bioEnter).rqSub.plug = r.plugNow ∧ (r.log bioEnter).rqStart = r.trackNow ∧
      (r.log bioEnter).bioEnter = bioEnter :=
  foldl_onRound_frame r.rounds _

/-- The record is tagged by the driver that completes it. -/
theorem log_drive (hw : r.WellFormed) {q : QueueCall} (hq : r.queueCalls.getLast? = some q) :
    (r.log bioEnter).rqComp.drive = r.completedBy.driveType := by
  have hd : (r.log bioEnter).rqComp.drive = _ := foldl_onRound_drive r.rounds _
  rw [hd]
  show ((r.queueCalls.getLast?.map (·.driver.driveType)).getD _) = _
  rw [hq, Option.map_some, Option.getD_some, hw.2 q hq]

theorem knownDrive (hw : r.WellFormed) {q : QueueCall} (hq : r.queueCalls.getLast? = some q) :
    KnownDrive (r.log bioEnter) := by
  rw [KnownDrive, log_drive hw hq]
  cases r.completedBy with
  | nvme => exact Or.inl rfl
  | scsi => exact Or.inr rfl

/-- The completion union is read through the member the completion probe wrote. -/
theorem doneReads_log (hw : r.WellFormed) {q : QueueCall} (hq : r.queueCalls.getLast? = some q) :
    ∀ m ∈ doneReads (r.log bioEnter), (r.events.filterMap BlkProbe.doneWrite).getLast? = some m := by
  intro m hm
  rw [doneReads, log_drive hw hq] at hm
  have hlast : r.events.filterMap BlkProbe.doneWrite
      = ([BlkProbe.rqQosTrack r.task r.rq r.bio r.biOpf r.trackNow, .blkAddRqToPlug r.rq r.plugNow]
        ++ r.rounds.flatMap (Round.events r.rq)).filterMap BlkProbe.doneWrite
        ++ (BlkProbe.doneWrite r.completion).toList := by
    rw [events, before, List.filterMap_append, List.filterMap_append]
    simp only [List.filterMap_cons, List.filterMap_nil, done, BlkProbe.doneWrite, List.append_nil]
    unfold completion
    cases r.completedBy <;> rfl
  rw [hlast]
  unfold completion
  cases hc : r.completedBy with
  | nvme => rw [hc] at hm; simp [BlkProbe.doneWrite, List.mem_singleton.mp hm]
  | scsi => rw [hc] at hm; simp [BlkProbe.doneWrite, List.mem_singleton.mp hm]

/-- The path union is last written by the last round. -/
theorem pathWrites_last {init : List Round} {x : Round} (hr : r.rounds = init ++ [x]) :
    (r.events.filterMap BlkProbe.pathWrite).getLast? = (x.pathWrites).getLast? := by
  have hcomp : BlkProbe.pathWrite r.completion = none := by
    unfold completion; cases r.completedBy <;> rfl
  have hdone : BlkProbe.pathWrite r.done = none := rfl
  have hlast : r.events.filterMap BlkProbe.pathWrite
      = ([BlkProbe.rqQosTrack r.task r.rq r.bio r.biOpf r.trackNow, .blkAddRqToPlug r.rq r.plugNow]
        ++ init.flatMap (Round.events r.rq)).filterMap BlkProbe.pathWrite ++ x.pathWrites := by
    rw [← x.filterMap_pathWrite r.rq, ← List.filterMap_append]
    simp only [events, before, hr, List.flatMap_append, List.flatMap_singleton, List.filterMap_append,
      List.filterMap_cons, List.filterMap_nil, hcomp, hdone, List.append_nil, List.append_assoc]
  have hne : x.pathWrites ≠ [] := by cases x <;> simp [Round.pathWrites]
  rw [hlast, List.getLast?_append_of_ne_nil _ hne]

/-- The readings around the last round, in order. -/
theorem spine_pairwise {init : List Round} {x : Round} (hc : (r.readings bioEnter).Pairwise (· < ·))
    (hr : r.rounds = init ++ [x]) :
    ([bioEnter, r.trackNow, r.plugNow] ++ x.readings ++ [r.completeNow, r.accountNow]).Pairwise (· < ·) :=
  hc.sublist (spine_sublist bioEnter hr)

/-- **A last round that reaches its driver**: with the stages up to its `queue_rq` durations, read through
    the members the round wrote, all stages are. -/
theorem durations_of_last {init : List Round} {x : Round} {q : QueueCall} {heap : EventData}
    (hw : r.WellFormed) (hc : (r.readings bioEnter).Pairwise (· < ·)) (hr : r.rounds = init ++ [x])
    (hq : r.queueCalls.getLast? = some q) (hqx : q.now ∈ x.readings)
    (hqueue : (r.log bioEnter).rqSub.queueRq = q.now)
    (hplug : IsDuration (r.readings bioEnter) (plugStage (r.log bioEnter) heap))
    (hsched : IsDuration (r.readings bioEnter) (schedulingStage (r.log bioEnter) heap))
    (hdisp : IsDuration (r.readings bioEnter) (dispatchStage (r.log bioEnter)))
    (hreads : ∀ m ∈ pathReads (r.log bioEnter), x.pathWrites.getLast? = some m) :
    (∀ v ∈ stageValues (r.log bioEnter) heap, IsDuration (r.readings bioEnter) v) ∧
      ReadsLastWritten r.events (r.log bioEnter) := by
  have hord := spine_pairwise hc hr
  have hmem : ∀ t ∈ [bioEnter, r.trackNow, r.plugNow] ++ x.readings ++ [r.completeNow, r.accountNow],
      t ∈ r.readings bioEnter := fun t ht => (spine_sublist bioEnter hr).subset ht
  have mb : bioEnter ∈ r.readings bioEnter := hmem _ (by simp)
  have mc : r.completeNow ∈ r.readings bioEnter := hmem _ (by simp)
  have ma : r.accountNow ∈ r.readings bioEnter := hmem _ (by simp)
  have hstart : bioEnter ≤ r.trackNow := by
    rw [List.append_assoc, List.cons_append, List.pairwise_cons] at hord
    exact UInt64.le_of_lt (hord.1 _ (by simp))
  obtain ⟨-, hend, hrounds⟩ := List.pairwise_append.mp hord
  have hexec : q.now ≤ r.completeNow := UInt64.le_of_lt (hrounds _ (by simp [hqx]) _ (by simp))
  have hverify : r.completeNow ≤ r.accountNow :=
    UInt64.le_of_lt ((List.pairwise_cons.mp hend).1 _ (by simp))
  obtain ⟨-, htrack, hbio⟩ := log_frame r bioEnter
  constructor
  · refine durations_of_stages (knownDrive hw hq) (isDuration_zero mb) ?_ hplug hsched hdisp ?_ ?_
    · rw [htrack, hbio]
      exact isDuration_sub mb (hmem _ (by simp)) hstart
    · rw [hqueue]
      exact isDuration_sub (hmem _ (by simp [hqx])) mc hexec
    · exact isDuration_sub mc ma hverify
  · refine ⟨?_, doneReads_log hw hq⟩
    rw [pathWrites_last hr]
    exact hreads

/-- **A last direct issue**: all stages are durations. -/
theorem durations_of_direct {init : List Round} {now : TimeStramp} {q : QueueCall}
    (hw : r.WellFormed) (hc : (r.readings bioEnter).Pairwise (· < ·))
    (hr : r.rounds = init ++ [.direct now q]) (heap : EventData) :
    (∀ v ∈ stageValues (r.log bioEnter) heap, IsDuration (r.readings bioEnter) v) ∧
      ReadsLastWritten r.events (r.log bioEnter) := by
  have hq : r.queueCalls.getLast? = some q := by simp [queueCalls, hr, Round.queueCalls]
  -- the submit part of the record is what the round left, whatever the rounds before it wrote
  obtain ⟨v, hsub⟩ : ∃ v : RqTraceEvent,
      (r.log bioEnter).rqSub = ((v.onIssueDirectly now).onQueueCall q).rqSub := by
    refine ⟨init.foldl RqTraceEvent.onRound (r.plugged bioEnter), ?_⟩
    simp only [log, entry, hr, List.foldl_append, List.foldl_cons, List.foldl_nil]
    rfl
  have hs : (r.log bioEnter).rqSub.sType = .noSchedu := by rw [hsub]; rfl
  have ht : (r.log bioEnter).rqSub.dType = .directDispatch := by rw [hsub]; rfl
  have hissue : (r.log bioEnter).rqSub.path.direct = now := by rw [hsub]; rfl
  have hqueue : (r.log bioEnter).rqSub.queueRq = q.now := by rw [hsub]; rfl
  have hplug := (log_frame r bioEnter).1
  have hord := spine_pairwise hc hr
  have hmem := fun t => (spine_sublist bioEnter hr).subset (a := t)
  simp only [Round.readings, List.cons_append, List.nil_append, List.pairwise_cons, List.mem_cons,
    List.not_mem_nil, or_false, forall_eq_or_imp, forall_eq] at hord hmem
  obtain ⟨-, -, ⟨hpn, -⟩, ⟨hnq, -⟩, -⟩ := hord
  obtain ⟨mb, -, mp, mn, mq, -⟩ := hmem
  refine durations_of_last hw hc hr hq (by simp [Round.readings]) hqueue ?_ ?_ ?_ ?_
  · rw [plugStage, if_pos hs, hissue, hplug]
    exact isDuration_sub mp mn (UInt64.le_of_lt hpn)
  · rw [schedulingStage, if_pos hs]
    exact isDuration_zero mb
  · rw [dispatchStage, if_pos ht, hqueue, hissue]
    exact isDuration_sub mn mq (UInt64.le_of_lt hnq)
  · rw [pathReads, if_pos hs, if_pos ht]
    simp [Round.pathWrites]

/-- **A last scheduled round**: all stages are durations. -/
theorem durations_of_scheduled {init : List Round} {el : Elevator} {inserted : TimeStramp}
    {di : Dispatcher} {dispatched : TimeStramp} {q : QueueCall} (hw : r.WellFormed)
    (hc : (r.readings bioEnter).Pairwise (· < ·))
    (hr : r.rounds = init ++ [.scheduled el inserted di dispatched q]) (heap : EventData) :
    (∀ v ∈ stageValues (r.log bioEnter) heap, IsDuration (r.readings bioEnter) v) ∧
      ReadsLastWritten r.events (r.log bioEnter) := by
  have hq : r.queueCalls.getLast? = some q := by simp [queueCalls, hr, Round.queueCalls]
  obtain ⟨v, hsub⟩ : ∃ v : RqTraceEvent, (r.log bioEnter).rqSub
      = (((v.onSchedInserted inserted).onDispatch di.dType dispatched).onQueueCall q).rqSub := by
    refine ⟨(init.foldl RqTraceEvent.onRound (r.plugged bioEnter)).onElevator el, ?_⟩
    simp only [log, entry, hr, List.foldl_append, List.foldl_cons, List.foldl_nil]
    rfl
  have hs : (r.log bioEnter).rqSub.sType ≠ .noSchedu ∧ (r.log bioEnter).rqSub.sType ≠ .unknownSchedu := by
    rw [hsub]
    show (if _ then Schedu.kyber else v.rqSub.sType) ≠ .noSchedu ∧ (if _ then _ else _) ≠ _
    -- the tag is `kyber`, or one an insert probe set
    split
    · simp
    · next h => constructor <;> (intro hn; simp [hn] at h)
  have ht : (r.log bioEnter).rqSub.dType ≠ .directDispatch := by
    rw [hsub]
    show di.dType ≠ .directDispatch
    cases di <;> simp [Dispatcher.dType]
  have hins : (r.log bioEnter).rqSub.path.sched = inserted := by rw [hsub]; rfl
  have hdis : (r.log bioEnter).rqSub.path.dispatch = dispatched := by rw [hsub]; rfl
  have hqueue : (r.log bioEnter).rqSub.queueRq = q.now := by rw [hsub]; rfl
  have hplug := (log_frame r bioEnter).1
  have hord := spine_pairwise hc hr
  have hmem := fun t => (spine_sublist bioEnter hr).subset (a := t)
  simp only [Round.readings, List.cons_append, List.nil_append, List.pairwise_cons, List.mem_cons,
    List.not_mem_nil, or_false, forall_eq_or_imp, forall_eq] at hord hmem
  obtain ⟨-, -, ⟨hpi, -⟩, ⟨hid, -⟩, ⟨hdq, -⟩, -⟩ := hord
  obtain ⟨-, -, mp, mi, md, mq, -⟩ := hmem
  refine durations_of_last hw hc hr hq (by simp [Round.readings]) hqueue ?_ ?_ ?_ ?_
  · rw [plugStage, if_neg hs.1, if_pos hs.2, hins, hplug]
    exact isDuration_sub mp mi (UInt64.le_of_lt hpi)
  · rw [schedulingStage, if_neg hs.1, if_pos hs.2, hins, hdis]
    exact isDuration_sub mi md (UInt64.le_of_lt hid)
  · rw [dispatchStage, if_neg ht, hqueue, hdis]
    exact isDuration_sub md mq (UInt64.le_of_lt hdq)
  · rw [pathReads, if_neg hs.1, if_neg ht]
    simp [Round.pathWrites]

/-! ## A last bypass insert -/

/-- The last round is a bypass insert, after a round that was issued directly or dispatched. -/
def FallsBack (r : RequestRun) : Prop :=
  r.rounds.getLast?.any Round.isBypass = true ∧ ∃ x ∈ r.rounds, x.isBypass = false

instance (r : RequestRun) : Decidable r.FallsBack := inferInstanceAs (Decidable (_ ∧ _))

theorem fallsBack_of_bypass {init : List Round} {now : TimeStramp} {q : Option QueueCall}
    (hr : r.rounds = init ++ [.bypass now q]) : r.FallsBack ↔ ∃ x ∈ init, x.isBypass = false := by
  simp [FallsBack, hr, Round.isBypass]

/-- After bypass inserts only, the record carries no dispatch tag and is dropped. -/
theorem not_commits_of_bypasses (h : ∀ x ∈ r.rounds, x.isBypass = true) (ndebug : Bool)
    (heap : EventData) : ¬ Commits ndebug (r.log bioEnter) heap := by
  intro hc
  obtain ⟨row, hrow⟩ := Option.ne_none_iff_exists'.mp hc
  obtain ⟨d, hd, -⟩ := row_doEventRq hrow
  have huntagged : (r.log bioEnter).rqSub.dType = .unknownDispatch :=
    (foldl_onRound_dType r.rounds (v := r.plugged bioEnter) rfl).mpr h
  exact (eventData_ok hd).2.1 huntagged

/-- The word a bypass insert overwrites, the word it leaves, and its tag. -/
theorem log_of_bypass (bioEnter : TimeStramp) {init : List Round} {now : TimeStramp} {q : Option QueueCall}
    (hr : r.rounds = init ++ [.bypass now q]) :
    (r.log bioEnter).rqSub.sType = .bypass ∧ (r.log bioEnter).rqSub.path.sched = now ∧
      (r.log bioEnter).rqSub.path.dispatch
        = (init.foldl RqTraceEvent.onRound (r.plugged bioEnter)).rqSub.path.dispatch := by
  simp only [log, entry, hr, List.foldl_append, List.foldl_cons, List.foldl_nil]
  cases q <;> exact ⟨rfl, rfl, rfl⟩

/-- Everything recorded before the last round is earlier. -/
theorem lt_of_mem_init {init : List Round} {now t : TimeStramp} {q : Option QueueCall}
    (hc : (r.readings bioEnter).Pairwise (· < ·)) (hr : r.rounds = init ++ [.bypass now q])
    (ht : t ∈ bioEnter :: init.flatMap Round.readings) : t < now := by
  have hsplit : r.readings bioEnter
      = ([bioEnter, r.trackNow, r.plugNow] ++ init.flatMap Round.readings)
        ++ (now :: (q.toList.map QueueCall.now ++ [r.completeNow, r.accountNow])) := by
    simp [readings, hr, Round.readings]
  rw [hsplit] at hc
  refine (List.pairwise_append.mp hc).2.2 t ?_ now List.mem_cons_self
  rcases List.mem_cons.mp ht with rfl | ht
  · exact List.mem_append_left _ List.mem_cons_self
  · exact List.mem_append_right _ ht

/-- **A bypass insert after a tagged round makes the stage `scheduling` wrap.** -/
theorem not_duration_of_fallsBack {init : List Round} {now : TimeStramp} {q : Option QueueCall}
    (hc : (r.readings bioEnter).Pairwise (· < ·)) (hr : r.rounds = init ++ [.bypass now q])
    (hclock : ∀ t ∈ r.readings bioEnter, t.toNat < clockLimit) (heap : EventData) :
    ¬ IsDuration (r.readings bioEnter) (schedulingStage (r.log bioEnter) heap) := by
  obtain ⟨hs, hsched, hdisp⟩ := log_of_bypass bioEnter hr
  have hnow : now ∈ r.readings bioEnter := by simp [readings, hr, Round.readings]
  have hlt : (r.log bioEnter).rqSub.path.dispatch < now := by
    rw [hdisp]
    rcases foldl_onRound_dispatch init (v := r.plugged bioEnter) rfl with h0 | hmem
    · -- no round before it was dispatched: the word is still zero
      rw [h0]
      exact UInt64.lt_of_le_of_lt UInt64.zero_le (lt_of_mem_init hc hr List.mem_cons_self)
    · exact lt_of_mem_init hc hr (List.mem_cons_of_mem _ hmem)
  rw [schedulingStage, hs, hsched, if_neg (by decide), if_pos (by decide)]
  exact not_isDuration_of_wrap hlt (hclock now hnow) hclock

/-- A request that falls back is committed: its tags are all set. -/
theorem commits_of_fallsBack (hw : r.WellFormed) (hc : (r.readings bioEnter).Pairwise (· < ·))
    {init : List Round} {now : TimeStramp} {q : Option QueueCall}
    (hr : r.rounds = init ++ [.bypass now q]) (hx : ∃ x ∈ init, x.isBypass = false) (ndebug : Bool)
    (heap : EventData) : Commits ndebug (r.log bioEnter) heap := by
  obtain ⟨hs, -, -⟩ := log_of_bypass bioEnter hr
  obtain ⟨x, hx, hxb⟩ := hx
  have hmem : x ∈ r.rounds := by rw [hr]; exact List.mem_append_left _ hx
  have hqueued : r.queueCalls.getLast? ≠ none := by
    have hq : ∃ y ∈ x.queueCalls, True := by
      cases x with
      | direct now q => exact ⟨q, by simp [Round.queueCalls], trivial⟩
      | bypass now q => exact absurd hxb (by simp [Round.isBypass])
      | scheduled el inserted di dispatched q => exact ⟨q, by simp [Round.queueCalls], trivial⟩
    obtain ⟨y, hy, -⟩ := hq
    rw [Ne, List.getLast?_eq_none_iff]
    exact List.ne_nil_of_mem (List.mem_flatMap.mpr ⟨x, hmem, hy⟩)
  obtain ⟨y, hy⟩ := Option.ne_none_iff_exists'.mp hqueued
  have hplug : 0 < (r.log bioEnter).rqSub.plug := by
    rw [(log_frame r bioEnter).1]
    have hord := hc.sublist (spine_sublist bioEnter hr)
    simp only [List.cons_append, List.nil_append, List.pairwise_cons, List.mem_cons, forall_eq_or_imp]
      at hord
    exact UInt64.lt_of_le_of_lt UInt64.zero_le hord.1.2.1
  refine commits_of_tagged heap hplug (by rw [hs]; decide) ?_ ?_ ?_
  · intro hn
    rw [hs] at hn
    exact absurd hn (by decide)
  · -- the earlier round set the dispatch tag
    intro ht
    have hall := (foldl_onRound_dType r.rounds (v := r.plugged bioEnter) rfl).mp ht
    rw [hall x hmem] at hxb
    exact absurd hxb (by decide)
  · rw [log_drive hw hy]
    cases r.completedBy <;> decide

end RequestRun

/-! ## The main result -/

/-- A run whose record is emitted is judged by that record. -/
theorem stagesSound_iff_of_traced {cfg : FilterConfig} {s : BlkState} {r : RequestRun}
    {bioEnter : TimeStramp} {ndebug : Bool} {heap : EventData}
    (hb : s.bioPass.lookupElem r.bio = some bioEnter) (hfresh : s.rqCache.lookupElem r.rq = none)
    (ht : r.Traced cfg s) :
    StagesSound cfg s r bioEnter ndebug heap ↔
      (Commits ndebug (r.log bioEnter) heap →
        (∀ v ∈ stageValues (r.log bioEnter) heap, IsDuration (r.readings bioEnter) v) ∧
          ReadsLastWritten r.events (r.log bioEnter)) := by
  rw [StagesSound, RequestRun.emitFrom_events hb hfresh, if_pos ht]
  simp only [List.mem_singleton, BlkRecord.rqTrace.injEq, Commits, Option.ne_none_iff_exists']
  constructor
  · rintro h ⟨row, hrow⟩
    rw [← (stageLatencies_row hrow).2]
    exact h _ row rfl hrow
  · rintro h log row rfl hrow
    rw [(stageLatencies_row hrow).2]
    exact h ⟨row, hrow⟩

/-- **The stages of a request are durations exactly when it does not end in a bypass insert after an
    earlier round.** For a strictly increasing clock the condition is enough; for one below `clockLimit` it
    is necessary too. -/
theorem stagesSound_iff_not_fallsBack {cfg : FilterConfig} {s : BlkState} {r : RequestRun}
    {bioEnter : TimeStramp} {ndebug : Bool} {heap : EventData}
    (hb : s.bioPass.lookupElem r.bio = some bioEnter) (hfresh : s.rqCache.lookupElem r.rq = none)
    (hw : r.WellFormed) (hc : (r.readings bioEnter).Pairwise (· < ·)) :
    (¬ (r.Traced cfg s ∧ r.FallsBack) → StagesSound cfg s r bioEnter ndebug heap) ∧
      ((∀ t ∈ r.readings bioEnter, t.toNat < clockLimit) → StagesSound cfg s r bioEnter ndebug heap →
        ¬ (r.Traced cfg s ∧ r.FallsBack)) := by
  obtain ⟨init, x, hr⟩ := (List.eq_nil_or_concat' r.rounds).resolve_left hw.1
  constructor
  · intro hgood
    by_cases ht : r.Traced cfg s
    · rw [stagesSound_iff_of_traced hb hfresh ht]
      intro hcommit
      cases x with
      | direct now q => exact RequestRun.durations_of_direct hw hc hr heap
      | scheduled el inserted di dispatched q => exact RequestRun.durations_of_scheduled hw hc hr heap
      | bypass now q =>
          -- no earlier round tagged the dispatch, so nothing is committed
          have hall : ∀ x ∈ r.rounds, x.isBypass = true := by
            intro x hx
            rw [hr, List.mem_append, List.mem_singleton] at hx
            rcases hx with hx | rfl
            · by_contra hxb
              have hearlier : ∃ x ∈ init, x.isBypass = false := ⟨x, hx, by simpa using hxb⟩
              exact hgood ⟨ht, (RequestRun.fallsBack_of_bypass hr).mpr hearlier⟩
            · rfl
          exact absurd hcommit (RequestRun.not_commits_of_bypasses hall ndebug heap)
    · -- a run that is not traced emits nothing
      intro log row hlog
      rw [RequestRun.emitFrom_events hb hfresh, if_neg ht] at hlog
      exact absurd hlog (by simp)
  · rintro hclock hsound ⟨ht, hfall⟩
    rw [stagesSound_iff_of_traced hb hfresh ht] at hsound
    cases x with
    | direct now q => exact absurd hfall.1 (by simp [hr, Round.isBypass])
    | scheduled el inserted di dispatched q => exact absurd hfall.1 (by simp [hr, Round.isBypass])
    | bypass now q =>
        have hx := (RequestRun.fallsBack_of_bypass hr).mp hfall
        have hcommit := RequestRun.commits_of_fallsBack hw hc hr hx ndebug heap
        have hstages := (hsound hcommit).1
        have hsched : schedulingStage (r.log bioEnter) heap ∈ stageValues (r.log bioEnter) heap := by
          simp [stageValues]
        exact RequestRun.not_duration_of_fallsBack hc hr hclock heap (hstages _ hsched)

/-! ## A failed direct issue -/

/-- The state after a bio was submitted at `10`. -/
def submitted : BlkState :=
  afterProbes .off (blkTracer .off).init [.blkMqSubmitBio ⟨7, 7, 1, none⟩ 1 0 10 true]

/-- A request issued directly at `40`; the driver refuses it at `50`. -/
def refused (rounds : List Round) : RequestRun where
  task := ⟨7, 7, 1, none⟩
  rq := 2
  bio := 1
  biOpf := 1
  trackNow := 20
  plugNow := 30
  rounds := .direct 40 ⟨.nvme, CharArray.zero 32, 50⟩ :: rounds
  completedBy := .nvme
  completeNow := 90
  sector := 0
  statsSectors := 8
  nrPhysSegments := 1
  accountNow := 95
  reserve := true

/-- A refused request that is issued directly again has true stages. -/
theorem stagesSound_reissued :
    StagesSound .off submitted (refused [.direct 60 ⟨.nvme, CharArray.zero 32, 70⟩]) 10 true
      (Vector.replicate 12 0) :=
  (stagesSound_iff_not_fallsBack (by decide) (by decide) (by decide) (by decide)).1 (by decide)

/-- A refused request that is put on the dispatch list instead is well formed, runs on an increasing
    clock, and is logged with a wrapped stage. -/
theorem not_stagesSound_refused :
    let r := refused [.bypass 60 (some ⟨.nvme, CharArray.zero 32, 70⟩)]
    submitted.bioPass.lookupElem r.bio = some 10 ∧ submitted.rqCache.lookupElem r.rq = none ∧
      r.WellFormed ∧ (r.readings 10).Pairwise (· < ·) ∧
      ¬ StagesSound .off submitted r 10 true (Vector.replicate 12 0) := by
  refine ⟨by decide, by decide, by decide, by decide, fun h => ?_⟩
  have hstages := (h ((refused [.bypass 60 (some ⟨.nvme, CharArray.zero 32, 70⟩)]).log 10) _
    (by decide) rfl).1
  -- the stage `scheduling`: the dispatch time no probe took, minus the time of the bypass insert
  exact absurd (hstages (0 - 60) (by decide)) (by decide)

end StorTrace.BlockTrace
