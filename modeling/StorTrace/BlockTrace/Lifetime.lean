import StorTrace.BlockTrace.RqCache

/-!
# `BlockTrace.Lifetime` — the block tracer as a tracer of request lifetimes

An entry is opened by a `__rq_qos_track` the filters accept, stamped by the other probes on the same
request pointer, and closed by `blk_account_io_done`.
-/

namespace StorTrace.BlockTrace

open CacheAction

/-- The request a probe is about. -/
def BlkProbe.request : BlkProbe → Option Ptr
  | .blkMqSubmitBio ..                => none
  | .rqQosTrack _ rq _ _ _            => some rq
  | .blkAddRqToPlug rq _              => some rq
  | .blkMqRequestBypassInsert rq _    => some rq
  | .ddInsertRequest rq               => some rq
  | .bfqInsertRequest rq              => some rq
  | .blkMqSchedRequestInserted rq _   => some rq
  | .bfqDispatchRequest rq _          => some rq
  | .ddDispatchRequest rq _           => some rq
  | .kyberDispatchRequest rq _        => some rq
  | .blkMqDequeueFromCtx rq _         => some rq
  | .blkMqIssueDirectly rq _          => some rq
  | .nvmeQueueRq rq _ _               => some rq
  | .scsiQueueRq rq _ _               => some rq
  | .scsiEndRequest rq _              => some rq
  | .nvmeCompleteRq rq _              => some rq
  | .blkAccountIoDone rq _ _ _ _ _    => some rq

/-- The clock value a probe stamps with (`blk_account_io_done` is handed its reading by the kernel). -/
def BlkProbe.now : BlkProbe → Option TimeStramp
  | .blkMqSubmitBio _ _ _ now _       => some now
  | .rqQosTrack _ _ _ _ now           => some now
  | .blkAddRqToPlug _ now             => some now
  | .blkMqRequestBypassInsert _ now   => some now
  | .ddInsertRequest _                => none
  | .bfqInsertRequest _               => none
  | .blkMqSchedRequestInserted _ now  => some now
  | .bfqDispatchRequest _ now         => some now
  | .ddDispatchRequest _ now          => some now
  | .kyberDispatchRequest _ now       => some now
  | .blkMqDequeueFromCtx _ now        => some now
  | .blkMqIssueDirectly _ now         => some now
  | .nvmeQueueRq _ _ now              => some now
  | .scsiQueueRq _ _ now              => some now
  | .scsiEndRequest _ now             => some now
  | .nvmeCompleteRq _ now             => some now
  | .blkAccountIoDone _ now _ _ _ _   => some now

/-- The clock value the probe stamps request `k` with. -/
def BlkProbe.reading (e : BlkProbe) (k : Ptr) : Option TimeStramp :=
  if e.request = some k then e.now else none

/-- A `__rq_qos_track` on request `k` in a task the filters accept. -/
def AcceptedTrack (cfg : FilterConfig) (e : BlkProbe) (k : Ptr) : Prop :=
  match e with
  | .rqQosTrack t rq _ _ _ => rq = k ∧ passes cfg t = true
  | _ => False

/-- A `blk_account_io_done` on request `k`. -/
def AccountIoDone (e : BlkProbe) (k : Ptr) : Prop :=
  match e with
  | .blkAccountIoDone rq _ _ _ _ _ => rq = k
  | _ => False

/-- The completion probe's `bpf_ringbuf_reserve` succeeds. -/
def DoneReserved (e : BlkProbe) : Prop :=
  match e with
  | .blkAccountIoDone _ _ _ _ _ reserve => reserve = true
  | _ => False

/-- The stamps of a fresh entry: only the request's start is taken. -/
theorem stamps_newTrace (bioEnter : TimeStramp) (t : Task) (biOpf : UInt32) (now st : TimeStramp)
    (h : st ∈ (newTrace bioEnter t biOpf now).stamps) : st = 0 ∨ st = now := by
  simp only [RqTraceEvent.stamps, newTrace, RqTraceEvent.zero, List.mem_cons, List.not_mem_nil,
    or_false] at h
  tauto

/-- An entry is only ever stored by an accepted `__rq_qos_track`. -/
theorem rqAct_eq_put {cfg : FilterConfig} {s : BlkState} {e : BlkProbe} {k : Ptr} {v : RqTraceEvent}
    (h : rqAct cfg s e k = .put v) :
    ∃ t bio biOpf now bioEnter, e = .rqQosTrack t k bio biOpf now ∧ passes cfg t = true ∧
      s.bioPass.lookupElem bio = some bioEnter ∧ v = newTrace bioEnter t biOpf now := by
  cases e with
  | rqQosTrack t rq bio biOpf now =>
      simp only [rqAct] at h
      split at h
      · next hp =>
        obtain ⟨rfl, h'⟩ := onKey_eq_put.mp h
        split at h'
        · next bioEnter hb =>
          split at h'
          · exact ⟨t, bio, biOpf, now, bioEnter, rfl, hp, hb, (CacheAction.put.inj h').symm⟩
          · exact absurd h' (by simp)
        · exact absurd h' (by simp)
      · exact absurd h (by simp)
  | blkAccountIoDone rq now sector stats segs reserve =>
      obtain ⟨rfl, h'⟩ := onKey_eq_put.mp h
      cases reserve <;> exact absurd h' (by simp)
  | blkMqSubmitBio t bio biPrivate now reserve => exact absurd h (by simp [rqAct])
  | _ => exact absurd (onKey_eq_put.mp h).2 (by simp)

/-- A rewrite that stores the reading of its probe in stamp `i` of the entry of `rq`. -/
theorem stamps_of_onKey {rq k : Ptr} {f g : RqTraceEvent → RqTraceEvent} {now : TimeStramp} (i : Nat)
    (hg : ∀ v, (g v).stamps = v.stamps.set i now) (h : onKey rq k (.update g) = .update f)
    (v : RqTraceEvent) :
    ∀ st ∈ (f v).stamps, st ∈ v.stamps ∨ (if some rq = some k then some now else none) = some st := by
  obtain ⟨rfl, h'⟩ := onKey_eq_update.mp h
  obtain rfl := CacheAction.update.inj h'
  intro st hst
  rw [hg] at hst
  rcases List.mem_or_eq_of_mem_set hst with hv | rfl
  · exact Or.inl hv
  · exact Or.inr (if_pos rfl)

/-- The insert probes tag an entry and stamp nothing. -/
theorem stamps_of_onInsert {rq k : Ptr} {f : RqTraceEvent → RqTraceEvent} {sType : Schedu}
    (h : onKey rq k (.update (·.onInsert sType)) = .update f) (v : RqTraceEvent) :
    (f v).stamps = v.stamps := by
  obtain ⟨-, h'⟩ := onKey_eq_update.mp h
  rw [← CacheAction.update.inj h']
  rfl

/-- **A rewrite stamps an entry with its own reading only.** -/
theorem stamps_of_update {cfg : FilterConfig} {s : BlkState} {e : BlkProbe} {k : Ptr}
    {f : RqTraceEvent → RqTraceEvent} (h : rqAct cfg s e k = .update f) (v : RqTraceEvent) :
    ∀ st ∈ (f v).stamps, st ∈ v.stamps ∨ e.reading k = some st := by
  cases e with
  | blkMqSubmitBio t bio biPrivate now reserve => exact absurd h (by simp [rqAct])
  | rqQosTrack t rq bio biOpf now =>
      simp only [rqAct] at h
      split at h
      · obtain ⟨-, h'⟩ := onKey_eq_update.mp h
        split at h'
        · split at h' <;> exact absurd h' (by simp)
        · exact absurd h' (by simp)
      · exact absurd h (by simp)
  | blkAddRqToPlug rq now => exact stamps_of_onKey 1 (fun _ => rfl) h v
  -- the first word of the path union
  | blkMqRequestBypassInsert rq now => exact stamps_of_onKey 2 (fun _ => rfl) h v
  | blkMqSchedRequestInserted rq now => exact stamps_of_onKey 2 (fun _ => rfl) h v
  | blkMqIssueDirectly rq now => exact stamps_of_onKey 2 (fun _ => rfl) h v
  | ddInsertRequest rq =>
      intro st hst
      rw [stamps_of_onInsert h v] at hst
      exact Or.inl hst
  | bfqInsertRequest rq =>
      intro st hst
      rw [stamps_of_onInsert h v] at hst
      exact Or.inl hst
  -- the second word
  | bfqDispatchRequest rq now => exact stamps_of_onKey 3 (fun _ => rfl) h v
  | ddDispatchRequest rq now => exact stamps_of_onKey 3 (fun _ => rfl) h v
  | kyberDispatchRequest rq now => exact stamps_of_onKey 3 (fun _ => rfl) h v
  | blkMqDequeueFromCtx rq now => exact stamps_of_onKey 3 (fun _ => rfl) h v
  | nvmeQueueRq rq diskName now => exact stamps_of_onKey 4 (fun _ => rfl) h v
  | scsiQueueRq rq diskName now => exact stamps_of_onKey 4 (fun _ => rfl) h v
  | scsiEndRequest rq now => exact stamps_of_onKey 5 (fun _ => rfl) h v
  | nvmeCompleteRq rq now => exact stamps_of_onKey 5 (fun _ => rfl) h v
  | blkAccountIoDone rq now sector stats segs reserve =>
      cases reserve with
      | true => exact absurd (onKey_eq_update.mp h).2 (by simp)
      | false => exact stamps_of_onKey 6 (fun _ => rfl) h v

/-- **A request record is emitted by a completion, from the entry of its request.** -/
theorem rqTrace_of_step {cfg : FilterConfig} {s : BlkState} {e : BlkProbe} {r : BlkRecord}
    {v : RqTraceEvent} (hr : r ∈ (blkStep cfg s e).2) (hv : r.rqTrace? = some v) :
    ∃ rq now sector stats segs u, e = .blkAccountIoDone rq now sector stats segs true ∧
      s.rqCache.lookupElem rq = some u ∧ v = u.onAccountIoDone now sector stats segs := by
  cases e with
  | blkMqSubmitBio t bio biPrivate now reserve =>
      simp only [blkStep, kpBlkMqSubmitBio] at hr
      split at hr
      · split at hr
        · obtain rfl := List.mem_singleton.mp hr
          exact absurd hv (by simp [BlkRecord.rqTrace?])
        · exact absurd hr (by simp)
      · exact absurd hr (by simp)
  | blkAccountIoDone rq now sector stats segs reserve =>
      simp only [blkStep, kpBlkAccountIoDone] at hr
      split at hr
      · next u hu =>
        split at hr
        · next hres =>
          obtain rfl := List.mem_singleton.mp hr
          exact ⟨rq, now, sector, stats, segs, u, by rw [hres], hu, (Option.some.inj hv).symm⟩
        · exact absurd hr (by simp)
      · exact absurd hr (by simp)
  | _ => exact absurd hr (by simp [blkStep])

/-- The block tracer traces request lifetimes. -/
def rqTracer (cfg : FilterConfig) : Tracer (blkTracer cfg) Ptr RqTraceEvent TimeStramp where
  toCacheView := rqView cfg
  opens := AcceptedTrack cfg
  closes := AccountIoDone
  reserved := DoneReserved
  reading := BlkProbe.reading
  stamps := RqTraceEvent.stamps
  blank := 0
  record := BlkRecord.rqTrace?
  opens_of_put := by
    intro s e k v h
    obtain ⟨t, bio, biOpf, now, bioEnter, rfl, hp, -, rfl⟩ := rqAct_eq_put h
    refine ⟨⟨rfl, hp⟩, ?_⟩
    intro st hst
    rcases stamps_newTrace _ _ _ _ _ hst with h0 | h1
    · exact Or.inl h0
    · exact Or.inr (by simp [BlkProbe.reading, BlkProbe.request, BlkProbe.now, h1])
  stamps_update := fun s e k f h v => stamps_of_update h v
  drop_of_reserved := by
    intro s e k hc hr
    cases e with
    | blkAccountIoDone rq now sector stats segs reserve =>
        obtain rfl : rq = k := hc
        obtain rfl : reserve = true := hr
        exact onKey_self rq _
    | _ => exact absurd hc id
  keeps_of_not_reserved := by
    intro s e k hc hr
    cases e with
    | blkAccountIoDone rq now sector stats segs reserve =>
        obtain rfl : rq = k := hc
        obtain rfl : reserve = false := by simpa [DoneReserved] using hr
        show (onKey rq rq (.update _)).Keeps
        rw [onKey_self]; trivial
    | _ => exact absurd hc id
  record_of_close := by
    intro s e r v hr hv
    obtain ⟨rq, now, sector, stats, segs, u, rfl, hu, rfl⟩ := rqTrace_of_step hr hv
    refine ⟨rq, u, rfl, hu, ?_⟩
    exact stamps_of_onKey (g := (·.onAccountIoDone now sector stats segs)) 6 (fun _ => rfl)
      (onKey_self rq _) u

end StorTrace.BlockTrace
