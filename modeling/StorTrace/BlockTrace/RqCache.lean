import StorTrace.BlockTrace.Probes
import StorTrace.Lib.Lifetime

/-!
# `BlockTrace.RqCache` — what each probe does to a request's entry

`rqAct` says, for every probe and every request, which of the four cache actions the probe performs on
that request's `rq_cache` entry; `blkStep_rqCache` is the proof that it does just that. Nothing later
unfolds a probe again to find out what happens to an entry.
-/

namespace StorTrace.BlockTrace

open CacheAction

/-- The action of a probe on the `rq_cache` entry of request `k`. -/
def rqAct (cfg : FilterConfig) (s : BlkState) (e : BlkProbe) (k : Ptr) : CacheAction RqTraceEvent :=
  match e with
  | .blkMqSubmitBio .. => .keep
  | .rqQosTrack t rq bio biOpf now =>
      if passes cfg t then
        -- whatever entry is there is recycled; it is replaced if the bio is known and there is room
        onKey rq k <|
          match s.bioPass.lookupElem bio with
          | some bioEnter =>
              if (s.rqCache.recycleElem rq).HasRoom then .put (newTrace bioEnter t biOpf now) else .drop
          | none => .drop
      else .keep
  | .blkAddRqToPlug rq now            => onKey rq k (.update (·.onPlug now))
  | .blkMqRequestBypassInsert rq now  => onKey rq k (.update (·.onBypassInsert now))
  | .ddInsertRequest rq               => onKey rq k (.update (·.onInsert .mqDeadline))
  | .bfqInsertRequest rq              => onKey rq k (.update (·.onInsert .bfq))
  | .blkMqSchedRequestInserted rq now => onKey rq k (.update (·.onSchedInserted now))
  | .bfqDispatchRequest rq now        => onKey rq k (.update (·.onDispatch .bfq now))
  | .ddDispatchRequest rq now         => onKey rq k (.update (·.onDispatch .mqDeadline now))
  | .kyberDispatchRequest rq now      => onKey rq k (.update (·.onDispatch .kyber now))
  | .blkMqDequeueFromCtx rq now       => onKey rq k (.update (·.onDispatch .dequeueCtx now))
  | .blkMqIssueDirectly rq now        => onKey rq k (.update (·.onIssueDirectly now))
  | .nvmeQueueRq rq diskName now      => onKey rq k (.update (·.onQueueRq .nvme diskName now))
  | .scsiQueueRq rq diskName now      => onKey rq k (.update (·.onQueueRq .scsi diskName now))
  | .scsiEndRequest rq now            => onKey rq k (.update (·.onComplete now))
  | .nvmeCompleteRq rq now            => onKey rq k (.update (·.onComplete now))
  | .blkAccountIoDone rq now sector stats segs reserve =>
      onKey rq k (if reserve then .drop else .update (·.onAccountIoDone now sector stats segs))

/-- The track probe stores a fresh entry, or leaves none, for the request it accepts. -/
theorem lookup_kpRqQosTrack (cfg : FilterConfig) (s : BlkState) (t : Task) (rq bio : Ptr)
    (biOpf : UInt32) (now : TimeStramp) (k : Ptr) :
    (kpRqQosTrack cfg s t rq bio biOpf now).rqCache.lookupElem k =
      (rqAct cfg s (.rqQosTrack t rq bio biOpf now) k).apply (s.rqCache.lookupElem k) := by
  unfold kpRqQosTrack rqAct
  by_cases hp : passes cfg t = true
  · simp only [hp, if_true]
    cases s.bioPass.lookupElem bio with
    | none => exact s.rqCache.recycleElem_act rq k
    | some bioEnter => exact s.rqCache.restoreElem_act rq k (newTrace bioEnter t biOpf now)
  · simp [hp]

/-- The completion probe removes the entry only when its record could be reserved. -/
theorem lookup_kpBlkAccountIoDone (s : BlkState) (rq : Ptr) (now : TimeStramp) (sector : UInt64)
    (stats segs : UInt16) (reserve : Bool) (k : Ptr) :
    (kpBlkAccountIoDone s rq now sector stats segs reserve).1.rqCache.lookupElem k =
      (onKey rq k (if reserve then .drop
        else .update (·.onAccountIoDone now sector stats segs))).apply (s.rqCache.lookupElem k) := by
  rw [← BpfHash.flushElem_act]
  unfold kpBlkAccountIoDone
  cases hl : s.rqCache.lookupElem rq with
  | none =>
      -- the probe returns early: there is nothing to rewrite or to delete
      rw [BpfHash.modifyElem_of_none hl]
      cases reserve with
      | true =>
          by_cases hk : k = rq
          · subst hk; simp [hl]
          · simp [hk]
      | false => rfl
  | some log => cases reserve <;> rfl

/-- **Every probe does to a request's entry what `rqAct` says.** -/
theorem blkStep_rqCache (cfg : FilterConfig) (s : BlkState) (e : BlkProbe) (k : Ptr) :
    (blkStep cfg s e).1.rqCache.lookupElem k =
      (rqAct cfg s e k).apply (s.rqCache.lookupElem k) := by
  cases e with
  | blkMqSubmitBio t bio biPrivate now reserve =>
      simp only [blkStep, kpBlkMqSubmitBio, rqAct, apply_keep]
      split <;> rfl
  | rqQosTrack t rq bio biOpf now => exact lookup_kpRqQosTrack cfg s t rq bio biOpf now k
  | blkAccountIoDone rq now sector stats segs reserve =>
      exact lookup_kpBlkAccountIoDone s rq now sector stats segs reserve k
  | _ => exact s.rqCache.modifyElem_act _ k _

/-- The block tracer seen through `rq_cache`. -/
def rqView (cfg : FilterConfig) : CacheView (blkTracer cfg) Ptr RqTraceEvent where
  get s k := s.rqCache.lookupElem k
  act s e k := rqAct cfg s e k
  get_init _ := BpfHash.lookupElem_empty _
  get_step := blkStep_rqCache cfg

end StorTrace.BlockTrace
