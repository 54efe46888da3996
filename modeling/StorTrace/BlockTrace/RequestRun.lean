import StorTrace.BlockTrace.Lifetime

/-!
# `BlockTrace.RequestRun` — the way of one request through the block layer

After it is plugged, a request goes through one or more **rounds**: it is issued directly, put on the
dispatch list (`blk_mq_request_bypass_insert`), or inserted into a scheduler and dispatched from it, and
the driver's `queue_rq` is called for it. A round whose issue fails is followed by another. The request
is then completed by its driver and accounted for.

`emitFrom_events` computes what the block tracer emits for such a run: nothing, or one record `log` that
is a fold over the rounds.
-/

namespace StorTrace.BlockTrace

/-! ## Rounds -/

/-- The drivers whose `queue_rq` is probed. -/
inductive Driver where
  | nvme
  | scsi
deriving DecidableEq

def Driver.driveType : Driver → DriveType
  | .nvme => .nvme
  | .scsi => .scsi

/-- A call of a driver's `queue_rq`. -/
structure QueueCall where
  driver : Driver
  diskName : CharArray 32
  now : TimeStramp
deriving DecidableEq

def QueueCall.probe (rq : Ptr) (q : QueueCall) : BlkProbe :=
  match q.driver with
  | .nvme => .nvmeQueueRq rq q.diskName q.now
  | .scsi => .scsiQueueRq rq q.diskName q.now

/-- The schedulers a request is inserted into; `kyber` has no insert probe of its own. -/
inductive Elevator where
  | mqDeadline
  | bfq
  | kyber
deriving DecidableEq

def Elevator.insertProbes (rq : Ptr) : Elevator → List BlkProbe
  | .mqDeadline => [.ddInsertRequest rq]
  | .bfq        => [.bfqInsertRequest rq]
  | .kyber      => []

/-- The functions whose return dispatches a request from a queue. -/
inductive Dispatcher where
  | dequeueFromCtx
  | mqDeadline
  | bfq
  | kyber
deriving DecidableEq

def Dispatcher.dType : Dispatcher → Dispatch
  | .dequeueFromCtx => .dequeueCtx
  | .mqDeadline     => .mqDeadline
  | .bfq            => .bfq
  | .kyber          => .kyber

def Dispatcher.probe (rq : Ptr) (now : TimeStramp) : Dispatcher → BlkProbe
  | .dequeueFromCtx => .blkMqDequeueFromCtx rq now
  | .mqDeadline     => .ddDispatchRequest rq now
  | .bfq            => .bfqDispatchRequest rq now
  | .kyber          => .kyberDispatchRequest rq now

/-- One attempt to get the request to its driver. -/
inductive Round where
  | direct (now : TimeStramp) (q : QueueCall)
  | bypass (now : TimeStramp) (q : Option QueueCall)
  | scheduled (elevator : Elevator) (inserted : TimeStramp) (dispatcher : Dispatcher)
      (dispatched : TimeStramp) (q : QueueCall)
deriving DecidableEq

namespace Round

def isBypass : Round → Bool
  | direct ..    => false
  | bypass ..    => true
  | scheduled .. => false

def queueCalls : Round → List QueueCall
  | direct _ q          => [q]
  | bypass _ q          => q.toList
  | scheduled _ _ _ _ q => [q]

/-- The probes that fire in a round. -/
def events (rq : Ptr) : Round → List BlkProbe
  | direct now q    => [.blkMqIssueDirectly rq now, q.probe rq]
  | bypass now q    => .blkMqRequestBypassInsert rq now :: q.toList.map (QueueCall.probe rq)
  | scheduled el inserted di dispatched q =>
      el.insertProbes rq ++ [.blkMqSchedRequestInserted rq inserted, di.probe rq dispatched, q.probe rq]

/-- The clock readings taken in a round. -/
def readings : Round → List TimeStramp
  | direct now q    => [now, q.now]
  | bypass now q    => now :: q.toList.map QueueCall.now
  | scheduled _ inserted _ dispatched q => [inserted, dispatched, q.now]

end Round

/-! ## What a round writes into the entry -/

def RqTraceEvent.onQueueCall (v : RqTraceEvent) (q : QueueCall) : RqTraceEvent :=
  v.onQueueRq q.driver.driveType q.diskName q.now

def RqTraceEvent.onElevator (v : RqTraceEvent) : Elevator → RqTraceEvent
  | .mqDeadline => v.onInsert .mqDeadline
  | .bfq        => v.onInsert .bfq
  | .kyber      => v

def RqTraceEvent.onRound (v : RqTraceEvent) : Round → RqTraceEvent
  | .direct now q => (v.onIssueDirectly now).onQueueCall q
  | .bypass now q => q.toList.foldl RqTraceEvent.onQueueCall (v.onBypassInsert now)
  | .scheduled el inserted di dispatched q =>
      (((v.onElevator el).onSchedInserted inserted).onDispatch di.dType dispatched).onQueueCall q

/-- The state after the probes `evs`. -/
def afterProbes (cfg : FilterConfig) (s : BlkState) (evs : List BlkProbe) : BlkState :=
  evs.foldl (fun s e => (blkStep cfg s e).1) s

section Steps

variable {cfg : FilterConfig} {rq : Ptr}

/-- A probe that rewrites the entry of `rq`, whatever the state. -/
theorem lookup_update {s : BlkState} {e : BlkProbe} {f : RqTraceEvent → RqTraceEvent}
    (h : rqAct cfg s e rq = .update f) :
    (blkStep cfg s e).1.rqCache.lookupElem rq = (s.rqCache.lookupElem rq).map f := by
  rw [blkStep_rqCache, h, CacheAction.apply_update]

/-- A `queue_rq` stamps the entry and tags its drive. -/
theorem lookup_queueCall (s : BlkState) (q : QueueCall) :
    (blkStep cfg s (q.probe rq)).1.rqCache.lookupElem rq =
      (s.rqCache.lookupElem rq).map (·.onQueueCall q) := by
  rw [blkStep_rqCache]
  unfold QueueCall.probe RqTraceEvent.onQueueCall
  cases q.driver <;> simp [rqAct, Driver.driveType]

theorem lookup_dispatcher (s : BlkState) (di : Dispatcher) (now : TimeStramp) :
    (blkStep cfg s (di.probe rq now)).1.rqCache.lookupElem rq =
      (s.rqCache.lookupElem rq).map (·.onDispatch di.dType now) := by
  rw [blkStep_rqCache]
  cases di <;> simp [rqAct, Dispatcher.probe, Dispatcher.dType]

theorem lookup_elevator (s : BlkState) (el : Elevator) :
    (afterProbes cfg s (el.insertProbes rq)).rqCache.lookupElem rq =
      (s.rqCache.lookupElem rq).map (·.onElevator el) := by
  cases el with
  | mqDeadline =>
      exact (blkStep_rqCache cfg s (.ddInsertRequest rq) rq).trans (by simp [rqAct, RqTraceEvent.onElevator])
  | bfq =>
      exact (blkStep_rqCache cfg s (.bfqInsertRequest rq) rq).trans (by simp [rqAct, RqTraceEvent.onElevator])
  | kyber => simp [afterProbes, Elevator.insertProbes, RqTraceEvent.onElevator]

/-- **A round rewrites the request's entry.** -/
theorem lookup_round (cfg : FilterConfig) (rq : Ptr) (s : BlkState) (r : Round) :
    (afterProbes cfg s (r.events rq)).rqCache.lookupElem rq =
      (s.rqCache.lookupElem rq).map (·.onRound r) := by
  cases r with
  | direct now q =>
      show (blkStep cfg (blkStep cfg s (.blkMqIssueDirectly rq now)).1
        (q.probe rq)).1.rqCache.lookupElem rq = _
      rw [lookup_queueCall, lookup_update (e := .blkMqIssueDirectly rq now)
        (CacheAction.onKey_self rq _), Option.map_map]
      rfl
  | bypass now q =>
      cases q with
      | none => exact lookup_update (CacheAction.onKey_self rq _)
      | some q =>
          show (blkStep cfg (blkStep cfg s (.blkMqRequestBypassInsert rq now)).1
            (q.probe rq)).1.rqCache.lookupElem rq = _
          rw [lookup_queueCall, lookup_update (e := .blkMqRequestBypassInsert rq now)
            (CacheAction.onKey_self rq _), Option.map_map]
          rfl
  | scheduled el inserted di dispatched q =>
      rw [Round.events, afterProbes, List.foldl_append]
      show (blkStep cfg (blkStep cfg (blkStep cfg (afterProbes cfg s (el.insertProbes rq))
        (.blkMqSchedRequestInserted rq inserted)).1 (di.probe rq dispatched)).1
        (q.probe rq)).1.rqCache.lookupElem rq = _
      rw [lookup_queueCall, lookup_dispatcher, lookup_update (e := .blkMqSchedRequestInserted rq inserted)
        (CacheAction.onKey_self rq _), lookup_elevator, Option.map_map, Option.map_map, Option.map_map]
      rfl

/-- The rounds rewrite the entry one after the other. -/
theorem lookup_rounds (s : BlkState) (rounds : List Round) :
    (afterProbes cfg s (rounds.flatMap (Round.events rq))).rqCache.lookupElem rq =
      (s.rqCache.lookupElem rq).map (fun v => rounds.foldl RqTraceEvent.onRound v) := by
  induction rounds generalizing s with
  | nil => simp [afterProbes]
  | cons r rest ih =>
      have hr := lookup_round cfg rq s r
      have hrest := ih (afterProbes cfg s (r.events rq))
      rw [List.flatMap_cons, afterProbes, List.foldl_append, ← afterProbes, ← afterProbes, hrest, hr,
        Option.map_map]
      rfl

/-- The probes of a round emit nothing. -/
theorem out_round (s : BlkState) (r : Round) : ∀ e ∈ r.events rq, (blkStep cfg s e).2 = [] := by
  intro e he
  cases r with
  | direct now q =>
      rcases List.mem_cons.mp he with rfl | he
      · rfl
      · rw [List.mem_singleton.mp he]; unfold QueueCall.probe; cases q.driver <;> rfl
  | bypass now q =>
      rcases List.mem_cons.mp he with rfl | he
      · rfl
      · obtain ⟨q, -, rfl⟩ := List.mem_map.mp he
        unfold QueueCall.probe; cases q.driver <;> rfl
  | scheduled el inserted di dispatched q =>
      rcases List.mem_append.mp he with he | he
      · cases el with
        | mqDeadline => rw [List.mem_singleton.mp he]; rfl
        | bfq => rw [List.mem_singleton.mp he]; rfl
        | kyber => exact absurd he (by simp [Elevator.insertProbes])
      · simp only [List.mem_cons, List.not_mem_nil, or_false] at he
        rcases he with rfl | rfl | rfl
        · rfl
        · cases di <;> rfl
        · unfold QueueCall.probe; cases q.driver <;> rfl

end Steps

/-! ## The whole run -/

/-- A request from `__rq_qos_track` to `blk_account_io_done`. -/
structure RequestRun where
  task : Task
  rq : Ptr
  bio : Ptr
  biOpf : UInt32
  trackNow : TimeStramp
  plugNow : TimeStramp
  rounds : List Round
  completedBy : Driver
  completeNow : TimeStramp
  sector : UInt64
  statsSectors : UInt16
  nrPhysSegments : UInt16
  accountNow : TimeStramp
  reserve : Bool
deriving DecidableEq

namespace RequestRun

variable (r : RequestRun)

def queueCalls : List QueueCall := r.rounds.flatMap Round.queueCalls

/-- There is at least one round, and the driver that last took the request completes it. -/
def WellFormed : Prop :=
  r.rounds ≠ [] ∧ ∀ q ∈ r.queueCalls.getLast?, q.driver = r.completedBy

instance : Decidable r.WellFormed :=
  inferInstanceAs (Decidable (_ ∧ ∀ q ∈ r.queueCalls.getLast?, q.driver = r.completedBy))

def completion : BlkProbe :=
  match r.completedBy with
  | .nvme => .nvmeCompleteRq r.rq r.completeNow
  | .scsi => .scsiEndRequest r.rq r.completeNow

/-- The probes before the request is accounted for. -/
def before : List BlkProbe :=
  [.rqQosTrack r.task r.rq r.bio r.biOpf r.trackNow, .blkAddRqToPlug r.rq r.plugNow]
    ++ r.rounds.flatMap (Round.events r.rq) ++ [r.completion]

def done : BlkProbe :=
  .blkAccountIoDone r.rq r.accountNow r.sector r.statsSectors r.nrPhysSegments r.reserve

def events : List BlkProbe := r.before ++ [r.done]

/-- The clock readings taken for the request, in order, after that of its bio. -/
def readings (bioEnter : TimeStramp) : List TimeStramp :=
  [bioEnter, r.trackNow, r.plugNow] ++ r.rounds.flatMap Round.readings ++ [r.completeNow, r.accountNow]

/-- The entry when the request is plugged. -/
def plugged (bioEnter : TimeStramp) : RqTraceEvent :=
  (newTrace bioEnter r.task r.biOpf r.trackNow).onPlug r.plugNow

/-- The entry when the request is accounted for. -/
def entry (bioEnter : TimeStramp) : RqTraceEvent :=
  (r.rounds.foldl RqTraceEvent.onRound (r.plugged bioEnter)).onComplete r.completeNow

/-- The record of the run. -/
def log (bioEnter : TimeStramp) : RqTraceEvent :=
  (r.entry bioEnter).onAccountIoDone r.accountNow r.sector r.statsSectors r.nrPhysSegments

/-- The request is traced and its record reaches the ring buffer. -/
def Traced (cfg : FilterConfig) (s : BlkState) : Prop :=
  passes cfg r.task = true ∧ s.rqCache.HasRoom ∧ r.reserve = true

instance (cfg : FilterConfig) (s : BlkState) : Decidable (r.Traced cfg s) :=
  inferInstanceAs (Decidable (_ ∧ _ ∧ _))

variable {r}

theorem lookup_completion {cfg : FilterConfig} (s : BlkState) :
    (blkStep cfg s r.completion).1.rqCache.lookupElem r.rq =
      (s.rqCache.lookupElem r.rq).map (·.onComplete r.completeNow) := by
  rw [blkStep_rqCache]
  unfold completion
  cases r.completedBy <;> simp [rqAct]

/-- The entry of a request that starts without one. -/
theorem lookup_before (cfg : FilterConfig) {s : BlkState} {bioEnter : TimeStramp}
    (hb : s.bioPass.lookupElem r.bio = some bioEnter) (hfresh : s.rqCache.lookupElem r.rq = none) :
    (afterProbes cfg s r.before).rqCache.lookupElem r.rq =
      if passes cfg r.task = true ∧ s.rqCache.HasRoom then some (r.entry bioEnter) else none := by
  -- there is no old entry to recycle
  have hrec : s.rqCache.recycleElem r.rq = s.rqCache := by simp [BpfHash.recycleElem, hfresh]
  have htrack : (blkStep cfg s (.rqQosTrack r.task r.rq r.bio r.biOpf r.trackNow)).1.rqCache.lookupElem r.rq
      = if passes cfg r.task = true ∧ s.rqCache.HasRoom then
          some (newTrace bioEnter r.task r.biOpf r.trackNow) else none := by
    rw [blkStep_rqCache, hfresh]
    simp only [rqAct, hb, hrec, CacheAction.onKey_self]
    by_cases hp : passes cfg r.task = true <;> by_cases hr : s.rqCache.HasRoom <;> simp [hp, hr]
  unfold before
  rw [afterProbes, List.foldl_append, List.foldl_append, List.foldl_cons, List.foldl_nil,
    lookup_completion, ← afterProbes, lookup_rounds]
  simp only [List.foldl_cons, List.foldl_nil]
  rw [blkStep_rqCache, htrack]
  simp only [rqAct, CacheAction.onKey_self, CacheAction.apply_update]
  split <;> rfl

/-- **What the tracer emits for the run.** -/
theorem emitFrom_events {cfg : FilterConfig} {s : BlkState} {bioEnter : TimeStramp}
    (hb : s.bioPass.lookupElem r.bio = some bioEnter) (hfresh : s.rqCache.lookupElem r.rq = none) :
    (blkTracer cfg).emitFrom s r.events =
      if r.Traced cfg s then [.rqTrace (r.log bioEnter)] else [] := by
  -- nothing is emitted before the request is accounted for
  have hquiet : ∀ s, ∀ e ∈ r.before, (blkStep cfg s e).2 = [] := by
    intro s e he
    simp only [before, List.mem_append, List.mem_cons, List.not_mem_nil, or_false,
      List.mem_flatMap] at he
    rcases he with ((rfl | rfl) | ⟨x, -, hx⟩) | rfl
    · rfl
    · rfl
    · exact out_round s x e hx
    · unfold completion; cases r.completedBy <;> rfl
  rw [events, Machine.emitFrom_append, Machine.emitFrom_quiet _ hquiet, List.nil_append]
  have hl := lookup_before cfg hb hfresh
  show (kpBlkAccountIoDone (afterProbes cfg s r.before) _ _ _ _ _ _).2 ++ [] = _
  rw [List.append_nil, kpBlkAccountIoDone, hl]
  by_cases hpr : passes cfg r.task = true ∧ s.rqCache.HasRoom
  · rw [if_pos hpr]
    by_cases hres : r.reserve = true
    · simp [hres, Traced, hpr, log]
    · simp [hres, Traced]
  · rw [if_neg hpr, if_neg (fun h => hpr ⟨h.1, h.2.1⟩)]

end RequestRun

end StorTrace.BlockTrace
