import Mathlib.Data.List.Nodup
import StorTrace.BlockTrace.Probes
import StorTrace.Lib.FillMap

/-!
# `BlockTrace.BioPass` — what `bio_pass` knows about a bio

`kpblk_mq_submit_bio` stores the submission time of a bio, `kp__rq_qos_track` reads it, and nothing ever
deletes it. The block layer also ends bios; no probe sees that, so it is an event of its own here. The map
fills up with the addresses of bios that are long gone, and from then on no new bio gets in.
-/

namespace StorTrace.BlockTrace

/-- An event of the block layer: a probe fires, or a bio ends. -/
inductive BioEvent where
  | probe (p : BlkProbe)
  | bioEnd (bio : Ptr)
deriving DecidableEq

/-- The block tracer among the events of the block layer. -/
def bioTracer (cfg : FilterConfig) : Machine BlkState BioEvent BlkRecord where
  init := (blkTracer cfg).init
  step s e :=
    match e with
    | .probe p => blkStep cfg s p
    -- the program has no probe on the end of a bio
    | .bioEnd _ => (s, [])

/-- A call of `blk_mq_submit_bio`: the bio and the clock reading. -/
def BioEvent.submission? : BioEvent → Option (Task × Ptr × TimeStramp)
  | .probe (.blkMqSubmitBio t bio _ now _) => some (t, bio, now)
  | _ => none

/-- A call of `__rq_qos_track`. -/
structure TrackCall where
  task : Task
  rq : Ptr
  bio : Ptr
  biOpf : UInt32
  now : TimeStramp
deriving DecidableEq

def BioEvent.track? : BioEvent → Option TrackCall
  | .probe (.rqQosTrack t rq bio biOpf now) => some ⟨t, rq, bio, biOpf, now⟩
  | _ => none

/-! ## Bios between submission and completion -/

/-- The bios in flight after one more event. -/
def inFlightStep (bios : List Ptr) (e : BioEvent) : List Ptr :=
  match e with
  | .bioEnd bio => bios.erase bio
  | .probe p =>
      match (BioEvent.probe p).submission? with
      -- a bio that is split is submitted again
      | some (_, bio, _) => bios.insert bio
      | none => bios

/-- The bios that are between submission and completion after `evs`. -/
def inFlight (evs : List BioEvent) : List Ptr := evs.foldl inFlightStep []

/-- At no time of the run are more than `n` bios in flight. -/
def InFlightAtMost (n : Nat) (evs : List BioEvent) : Prop :=
  Run.AllSteps (fun pre e => (inFlight (pre ++ [e])).length ≤ n) evs

/-! ## The contents of the map -/

section Contents

variable (cfg : FilterConfig)

/-- The submission of a bio by a task the filters accept. -/
def submitted? (e : BioEvent) : Option (Ptr × TimeStramp) :=
  e.submission?.bind (fun c => if passes cfg c.1 then some c.2 else none)

/-- The bios submitted by selected tasks, each at its first submission. -/
def firstSubmitted (evs : List BioEvent) : List Ptr := BpfHash.firstKeys (evs.filterMap (submitted? cfg))

/-- The time of the most recent submission of `bio` by a selected task. -/
def lastSubmission (evs : List BioEvent) (bio : Ptr) : Option TimeStramp :=
  BpfHash.lastValue (evs.filterMap (submitted? cfg)) bio

/-- One event: only an accepted submission touches the map. -/
theorem bioPass_step (s : BlkState) (e : BioEvent) :
    ((bioTracer cfg).step s e).1.bioPass =
      match submitted? cfg e with
      | some kv => (s.bioPass.updateElem kv.1 kv.2 .any).1
      | none => s.bioPass := by
  cases e with
  | bioEnd bio => rfl
  | probe p =>
      cases p with
      | blkMqSubmitBio t bio biPrivate now reserve =>
          show (kpBlkMqSubmitBio cfg s t bio biPrivate now reserve).1.bioPass = _
          by_cases hp : passes cfg t = true
          · simp [kpBlkMqSubmitBio, submitted?, BioEvent.submission?, hp]
          · simp [kpBlkMqSubmitBio, submitted?, BioEvent.submission?, hp]
      | rqQosTrack t rq bio biOpf now =>
          show (kpRqQosTrack cfg s t rq bio biOpf now).bioPass = s.bioPass
          unfold kpRqQosTrack
          split
          · split <;> rfl
          · rfl
      | blkAccountIoDone rq now sector stats segs reserve =>
          show (kpBlkAccountIoDone s rq now sector stats segs reserve).1.bioPass = s.bioPass
          unfold kpBlkAccountIoDone
          split
          · split <;> rfl
          · rfl
      | _ => rfl

/-- **The map is the stores of the accepted submissions and nothing else.** -/
theorem bioPass_exec (evs : List BioEvent) :
    ((bioTracer cfg).exec evs).bioPass = BpfHash.fill (evs.filterMap (submitted? cfg)) := by
  induction evs using List.reverseRecOn with
  | nil => rfl
  | append_singleton pre e ih =>
      rw [Machine.exec_concat, bioPass_step, ih, List.filterMap_append]
      cases he : submitted? cfg e with
      | none => rw [List.filterMap_cons_none he, List.filterMap_nil, List.append_nil]
      | some kv => rw [List.filterMap_cons_some he, List.filterMap_nil, BpfHash.fill_concat]

/-- **The map knows the first 32768 bios that selected tasks submitted, and never another one.** -/
theorem lookup_bioPass (evs : List BioEvent) (bio : Ptr) :
    ((bioTracer cfg).exec evs).bioPass.lookupElem bio =
      if bio ∈ (firstSubmitted cfg evs).take 32768 then lastSubmission cfg evs bio else none := by
  rw [bioPass_exec]
  exact (BpfHash.fill_spec (evs.filterMap (submitted? cfg))).2 bio

end Contents

/-! ## The bookkeeping at a `__rq_qos_track` -/

section Tracking

variable (cfg : FilterConfig)

/-- The map holds the bio's most recent submission by a selected task, and a bio that has one gives its
    request an entry with that time. -/
def BookkeepingAt (pre : List BioEvent) (e : BioEvent) (c : TrackCall) : Prop :=
  ((bioTracer cfg).exec pre).bioPass.lookupElem c.bio = lastSubmission cfg pre c.bio ∧
    ∀ bioEnter, lastSubmission cfg pre c.bio = some bioEnter →
      ((bioTracer cfg).exec (pre ++ [e])).rqCache.lookupElem c.rq =
        some (newTrace bioEnter c.task c.biOpf c.now)

/-- The bookkeeping is right whenever `__rq_qos_track` runs for a selected task. -/
def Bookkeeping (pre : List BioEvent) (e : BioEvent) : Prop :=
  ∀ c ∈ e.track?, passes cfg c.task = true → BookkeepingAt cfg pre e c

/-- A bio that a selected task submitted is one of the first 32768 of them, and `rq_cache` has room for its
    request once a stale entry is recycled. -/
def Covered (pre : List BioEvent) (e : BioEvent) : Prop :=
  ∀ c ∈ e.track?, passes cfg c.task = true → c.bio ∈ firstSubmitted cfg pre →
    c.bio ∈ (firstSubmitted cfg pre).take 32768 ∧
      (((bioTracer cfg).exec pre).rqCache.recycleElem c.rq).HasRoom

/-- The request's entry after an accepted `__rq_qos_track`: the lookup of the bio and a free slot decide. -/
theorem lookup_rqCache_track {s : BlkState} {e : BioEvent} {c : TrackCall} (hc : e.track? = some c)
    (hp : passes cfg c.task = true) :
    ((bioTracer cfg).step s e).1.rqCache.lookupElem c.rq =
      if (s.rqCache.recycleElem c.rq).HasRoom then
        (s.bioPass.lookupElem c.bio).map (fun bioEnter => newTrace bioEnter c.task c.biOpf c.now)
      else none := by
  cases e with
  | bioEnd bio => exact absurd hc (by simp [BioEvent.track?])
  | probe p =>
      cases p with
      | rqQosTrack t rq bio biOpf now =>
          obtain rfl : TrackCall.mk t rq bio biOpf now = c := Option.some.inj hc
          show (kpRqQosTrack cfg s t rq bio biOpf now).rqCache.lookupElem rq = _
          unfold kpRqQosTrack
          rw [if_pos hp]
          cases hl : s.bioPass.lookupElem bio with
          | none => simp
          | some bioEnter => simp
      | _ => exact absurd hc (by simp [BioEvent.track?])

/-- **One event**: the bookkeeping is right exactly if its bio is covered. -/
theorem bookkeeping_iff_covered_at (pre : List BioEvent) (e : BioEvent) :
    Bookkeeping cfg pre e ↔ Covered cfg pre e := by
  unfold Bookkeeping Covered BookkeepingAt
  refine forall_congr' (fun c => forall_congr' (fun hc => forall_congr' (fun hp => ?_)))
  have hsub : lastSubmission cfg pre c.bio = none ↔ c.bio ∉ firstSubmitted cfg pre :=
    BpfHash.lastValue_eq_none
  rw [Machine.exec_concat, lookup_rqCache_track cfg hc hp, lookup_bioPass]
  by_cases hmem : c.bio ∈ firstSubmitted cfg pre
  · -- a bio of a selected task
    obtain ⟨bioEnter, hlast⟩ := Option.ne_none_iff_exists'.mp (fun hn => hsub.mp hn hmem)
    rw [hlast]
    by_cases htake : c.bio ∈ (firstSubmitted cfg pre).take 32768
    · by_cases hroom : (((bioTracer cfg).exec pre).rqCache.recycleElem c.rq).HasRoom
      · simp [hmem, htake, hroom]
      · simp [hmem, htake, hroom]
    · simp [hmem, htake]
  · -- no selected task submitted it: the map does not know it, and nothing is asked
    have htake : c.bio ∉ (firstSubmitted cfg pre).take 32768 := fun h => hmem (List.mem_of_mem_take h)
    rw [hsub.mpr hmem, if_neg htake]
    simp [hmem]

/-- **The bookkeeping of a run is right exactly if every bio it tracks is covered.** -/
theorem bookkeeping_iff_covered (evs : List BioEvent) :
    Run.AllSteps (Bookkeeping cfg) evs ↔ Run.AllSteps (Covered cfg) evs :=
  Run.allSteps_congr (bookkeeping_iff_covered_at cfg) evs

end Tracking

/-! ## One bio after the other -/

section OneByOne

/-- The task of the run. -/
def submitter : Task := ⟨7, 7, 1, none⟩

def submitOf (bio : Ptr) : BioEvent := .probe (.blkMqSubmitBio submitter bio 0 bio true)

def trackOf (bio : Ptr) : BioEvent := .probe (.rqQosTrack submitter 2 bio 0 bio)

/-- A bio is submitted, tracked as request `2` and completed. -/
def oneBio (bio : Ptr) : List BioEvent :=
  [submitOf bio, trackOf bio, .probe (.blkAccountIoDone 2 bio 0 8 1 true), .bioEnd bio]

/-- The first `n` addresses, one after the other. -/
def oneByOne (n : Nat) : List BioEvent := (List.range n).flatMap (fun i => oneBio (UInt64.ofNat i))

theorem oneByOne_succ (n : Nat) : oneByOne (n + 1) = oneByOne n ++ oneBio (UInt64.ofNat n) := by
  simp [oneByOne, List.range_succ]

/-- After each bio, none is in flight. -/
theorem inFlight_oneByOne (n : Nat) : inFlight (oneByOne n) = [] := by
  induction n with
  | zero => rfl
  | succ n ih =>
      have hfold : (oneByOne n).foldl inFlightStep [] = [] := ih
      rw [oneByOne_succ, inFlight, List.foldl_append, hfold]
      simp [oneBio, submitOf, trackOf, inFlightStep, BioEvent.submission?]

/-- The bios overlap nowhere. -/
theorem inFlightAtMost_oneByOne (n : Nat) : InFlightAtMost 1 (oneByOne n) := by
  induction n with
  | zero => trivial
  | succ n ih =>
      have hfold : (oneByOne n).foldl inFlightStep [] = [] := inFlight_oneByOne n
      rw [InFlightAtMost, Run.AllSteps, oneByOne_succ, Run.allStepsFrom_append]
      refine ⟨ih, ?_⟩
      simp [Run.AllStepsFrom, oneBio, submitOf, trackOf, inFlight, inFlightStep, BioEvent.submission?, hfold]

/-- Every address is submitted once, in order. -/
theorem submitted_oneByOne (n : Nat) : (oneByOne n).filterMap (submitted? .off) =
    (List.range n).map (fun i => (UInt64.ofNat i, UInt64.ofNat i)) := by
  induction n with
  | zero => rfl
  | succ n ih =>
      rw [oneByOne_succ, List.filterMap_append, ih, List.range_succ, List.map_append]
      simp [oneBio, submitOf, trackOf, submitted?, BioEvent.submission?]

theorem nodup_addresses {n : Nat} (hn : n ≤ 18446744073709551616) :
    ((List.range n).map UInt64.ofNat).Nodup := by
  refine List.Nodup.map_on ?_ List.nodup_range
  intro i hi j hj h
  have hi' := List.mem_range.mp hi
  have hj' := List.mem_range.mp hj
  have hnat := congrArg UInt64.toNat h
  simp only [UInt64.toNat_ofNat'] at hnat
  omega

/-- The bios of the run and the next one: `n + 1` addresses. -/
theorem firstSubmitted_next {n : Nat} (hn : n < 18446744073709551616) :
    firstSubmitted .off (oneByOne n ++ [submitOf (UInt64.ofNat n)]) =
      (List.range (n + 1)).map UInt64.ofNat := by
  have hkvs : (oneByOne n ++ [submitOf (UInt64.ofNat n)]).filterMap (submitted? .off) =
      (List.range (n + 1)).map (fun i => (UInt64.ofNat i, UInt64.ofNat i)) := by
    rw [List.filterMap_append, submitted_oneByOne, List.range_succ, List.map_append]
    simp [submitOf, submitted?, BioEvent.submission?]
  have hkeys : ((List.range (n + 1)).map (fun i => (UInt64.ofNat i, UInt64.ofNat i))).map Prod.fst =
      (List.range (n + 1)).map UInt64.ofNat := by
    rw [List.map_map]; rfl
  rw [firstSubmitted, hkvs, BpfHash.firstKeys_of_nodup, hkeys]
  rw [hkeys]
  exact nodup_addresses (by omega)

/-- The bio after the first 32768 is not covered. -/
theorem not_covered_next {n : Nat} (hn : n = 32768) :
    ¬ Covered .off (oneByOne n ++ [submitOf (UInt64.ofNat n)]) (trackOf (UInt64.ofNat n)) := by
  intro h
  have hfirst := firstSubmitted_next (n := n) (by omega)
  obtain ⟨htake, -⟩ := h ⟨submitter, 2, UInt64.ofNat n, 0, UInt64.ofNat n⟩ rfl rfl (by
    rw [hfirst]
    exact List.mem_map.mpr ⟨n, by simp, rfl⟩)
  rw [hfirst, ← List.map_take, List.take_range] at htake
  obtain ⟨i, hi, heq⟩ := List.mem_map.mp htake
  have hi' := List.mem_range.mp hi
  have hnat := congrArg UInt64.toNat heq
  simp only [UInt64.toNat_ofNat'] at hnat
  omega

/-- The run goes wrong when that bio is tracked. -/
theorem not_bookkeeping_next {n : Nat} (hn : n = 32768) :
    ¬ Run.AllSteps (Bookkeeping .off) (oneByOne (n + 1)) := by
  intro h
  have hsplit : oneByOne (n + 1) = (oneByOne n ++ [submitOf (UInt64.ofNat n)]) ++
      trackOf (UInt64.ofNat n) ::
        [.probe (.blkAccountIoDone 2 (UInt64.ofNat n) 0 8 1 true), .bioEnd (UInt64.ofNat n)] := by
    rw [oneByOne_succ, oneBio, List.append_assoc]
    simp only [List.cons_append, List.nil_append]
  have hstep := Run.allSteps_iff.mp h _ _ _ hsplit
  exact not_covered_next hn ((bookkeeping_iff_covered_at .off _ _).mp hstep)

/-- **At most one bio is in flight at any time, and the 32769th is not known when it is tracked.** -/
theorem not_bookkeeping_oneByOne :
    InFlightAtMost 1 (oneByOne (32768 + 1)) ∧ ¬ Run.AllSteps (Bookkeeping .off) (oneByOne (32768 + 1)) := by
  generalize hn : 32768 = n
  constructor
  · exact inFlightAtMost_oneByOne (n + 1)
  · exact not_bookkeeping_next hn.symm

end OneByOne

end StorTrace.BlockTrace
