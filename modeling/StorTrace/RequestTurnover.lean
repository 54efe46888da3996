import StorTrace.Lib.Turnover
import StorTrace.RequestLifetimes

/-!
# `RequestTurnover` — what becomes of every request that is followed

Both tracers follow a request from the `__rq_qos_track` at which they know its bio. Its entry in `rq_cache` ends with
its record, or at the next accepted `__rq_qos_track` on its pointer, where it is thrown away; a completion that gets
no record leaves it behind. A full map takes no entry. Over every run of either program these add up.
-/

namespace StorTrace

open BlockTrace (BlkState BlkProbe BlkRecord RqTraceEvent blkTracer rqView)
open Ext4Dio (DioConfig InfoState InfoProbe InfoRecord RqInfoEvent infoTracer infoRqView)

/-- A program that follows requests through a map. -/
structure RequestCache {σ ε ο : Type} (M : Machine σ ε ο) (ν : Type) extends KeyedView M Ptr ν where
  /-- An accepted `__rq_qos_track`: its request, and whether its bio is known. -/
  track : σ → ε → Option (Ptr × Bool)
  /-- A `blk_account_io_done`: its request, and whether there is room for its record. -/
  done : ε → Option (Ptr × Bool)
  /-- The map has room for the entry of a request, once a stale one is deleted. -/
  room : σ → Ptr → Bool
  record : ο → Option ν
  track_spec : ∀ s e c, track s e = some c → key e = some c.1 ∧ done e = none ∧ ¬ (act s e c.1).Keeps ∧
    ((act s e c.1).Puts ↔ c.2 = true ∧ room s c.1 = true)
  done_spec : ∀ s e c, done e = some c → key e = some c.1 ∧ ((act s e c.1).Keeps ↔ c.2 = false) ∧
    ¬ (act s e c.1).Puts
  other_spec : ∀ s e k, track s e = none → done e = none → (act s e k).Keeps
  record_step : ∀ s e, ((M.step s e).2.filterMap record).length =
    if ∃ c ∈ done e, c.2 = true ∧ get s c.1 ≠ none then 1 else 0

namespace RequestCache

variable {σ ε ο ν : Type} {M : Machine σ ε ο} (R : RequestCache M ν)

/-- A request is followed from here on. -/
def Follows (s : σ) (e : ε) : Prop := ∃ c ∈ R.track s e, c.2 = true

/-- It gets no entry: the map is full. -/
def Refuses (s : σ) (e : ε) : Prop := ∃ c ∈ R.track s e, c.2 = true ∧ R.room s c.1 = false

/-- The entry that an earlier request left behind is thrown away. -/
def Recycles (s : σ) (e : ε) : Prop := ∃ c ∈ R.track s e, R.get s c.1 ≠ none

/-- A completion finds an entry and room for its record. -/
def Reports (s : σ) (e : ε) : Prop := ∃ c ∈ R.done e, c.2 = true ∧ R.get s c.1 ≠ none

instance (s : σ) (e : ε) : Decidable (R.Follows s e) := inferInstanceAs (Decidable (∃ c ∈ R.track s e, _))
instance (s : σ) (e : ε) : Decidable (R.Refuses s e) := inferInstanceAs (Decidable (∃ c ∈ R.track s e, _ ∧ _))
instance (s : σ) (e : ε) : Decidable (R.Recycles s e) := inferInstanceAs (Decidable (∃ c ∈ R.track s e, _))
instance (s : σ) (e : ε) : Decidable (R.Reports s e) := inferInstanceAs (Decidable (∃ c ∈ R.done e, _ ∧ _))

variable {R}

theorem not_puts_of_keeps {a : CacheAction ν} (h : a.Keeps) : ¬ a.Puts := by
  cases a <;> simp_all [CacheAction.Puts]

/-- An entry is stored for a request that is followed and not refused. -/
theorem stores_iff (s : σ) (e : ε) :
    R.toKeyedView.Stores s e ↔ ∃ c ∈ R.track s e, c.2 = true ∧ R.room s c.1 = true := by
  constructor
  · rintro ⟨k, hk, hputs⟩
    cases htrack : R.track s e with
    | some c =>
        obtain ⟨hkey, -, -, hiff⟩ := R.track_spec s e c htrack
        obtain rfl := Option.some.inj (hkey.symm.trans hk)
        exact ⟨c, rfl, hiff.mp hputs⟩
    | none =>
        cases hdone : R.done e with
        | some c =>
            obtain ⟨hkey, -, hnot⟩ := R.done_spec s e c hdone
            obtain rfl := Option.some.inj (hkey.symm.trans hk)
            exact absurd hputs hnot
        | none => exact absurd hputs (not_puts_of_keeps (R.other_spec s e k htrack hdone))
  · rintro ⟨c, htrack, hroom⟩
    obtain ⟨hkey, -, -, hiff⟩ := R.track_spec s e c htrack
    exact ⟨c.1, hkey, hiff.mpr hroom⟩

theorem follows_iff (s : σ) (e : ε) : R.Follows s e ↔ R.toKeyedView.Stores s e ∨ R.Refuses s e := by
  rw [stores_iff]
  constructor
  · rintro ⟨c, hc, hknown⟩
    cases hroom : R.room s c.1 with
    | true => exact Or.inl ⟨c, hc, hknown, hroom⟩
    | false => exact Or.inr ⟨c, hc, hknown, hroom⟩
  · rintro (⟨c, hc, hknown, -⟩ | ⟨c, hc, hknown, -⟩)
    · exact ⟨c, hc, hknown⟩
    · exact ⟨c, hc, hknown⟩

theorem not_refuses_of_stores (s : σ) (e : ε) (h : R.toKeyedView.Stores s e) : ¬ R.Refuses s e := by
  obtain ⟨c, hc, -, hroom⟩ := (stores_iff s e).mp h
  rintro ⟨c', hc', -, hfull⟩
  obtain rfl := Option.some.inj (hc.symm.trans hc')
  rw [hroom] at hfull
  cases hfull

/-- An entry goes with its record, or it is thrown away. -/
theorem removes_iff (s : σ) (e : ε) : R.toKeyedView.Removes s e ↔ R.Reports s e ∨ R.Recycles s e := by
  constructor
  · rintro ⟨k, hk, hentry, hkeeps⟩
    cases htrack : R.track s e with
    | some c =>
        obtain ⟨hkey, -, -, -⟩ := R.track_spec s e c htrack
        obtain rfl := Option.some.inj (hkey.symm.trans hk)
        exact Or.inr ⟨c, htrack, hentry⟩
    | none =>
        cases hdone : R.done e with
        | some c =>
            obtain ⟨hkey, hiff, -⟩ := R.done_spec s e c hdone
            obtain rfl := Option.some.inj (hkey.symm.trans hk)
            have hroom : c.2 = true := by
              rw [hiff] at hkeeps
              simpa using hkeeps
            exact Or.inl ⟨c, hdone, hroom, hentry⟩
        | none => exact absurd (R.other_spec s e k htrack hdone) hkeeps
  · rintro (⟨c, hdone, hroom, hentry⟩ | ⟨c, htrack, hentry⟩)
    · obtain ⟨hkey, hiff, -⟩ := R.done_spec s e c hdone
      refine ⟨c.1, hkey, hentry, fun hkeeps => ?_⟩
      rw [hiff.mp hkeeps] at hroom
      cases hroom
    · obtain ⟨hkey, -, hnot, -⟩ := R.track_spec s e c htrack
      exact ⟨c.1, hkey, hentry, hnot⟩

theorem not_recycles_of_reports (s : σ) (e : ε) (h : R.Reports s e) : ¬ R.Recycles s e := by
  obtain ⟨c, hdone, -⟩ := h
  rintro ⟨c', htrack, -⟩
  obtain ⟨-, hnone, -, -⟩ := R.track_spec s e c' htrack
  have hsame := hdone.symm.trans hnone
  cases hsame

/-- **The accounts of a run**: every request that was followed has been reported, was thrown away, was refused or still
    has its entry. -/
structure Accounted (R : RequestCache M ν) (n : ℕ) (evs : List ε) : Prop where
  balance : (M.stepsWith R.Follows evs).length =
    ((M.emit evs).filterMap R.record).length + (M.stepsWith R.Recycles evs).length +
      (M.stepsWith R.Refuses evs).length + (R.keys (M.exec evs)).card
  bound : (R.keys (M.exec evs)).card ≤ n

theorem accounted (R : RequestCache M ν) {n : ℕ} (hn : ∀ s, (R.keys s).card ≤ n) (evs : List ε) : R.Accounted n evs := by
  have hfollows := Machine.length_stepsWith_add (M := M) follows_iff (not_refuses_of_stores (R := R)) evs
  have hremoves := Machine.length_stepsWith_add (M := M) removes_iff (not_recycles_of_reports (R := R)) evs
  have hrecords := Machine.length_filterMap_emit (C := R.Reports) R.record_step evs
  have hbalance := R.toKeyedView.balance evs
  exact ⟨by omega, hn _⟩

end RequestCache

/-! ## The block tracer -/

section Blk

open BlockTrace

variable {cfg : FilterConfig} {s : BlkState}

theorem keeps_onKey_update {ν : Type} (rq k : Ptr) (f : ν → ν) : (CacheAction.onKey rq k (.update f)).Keeps := by
  unfold CacheAction.onKey
  split <;> trivial

/-- A probe keeps the entries of all other requests. -/
theorem rqAct_keeps_of_ne {e : BlkProbe} {k : Ptr} (h : e.request ≠ some k) : (rqAct cfg s e k).Keeps := by
  cases e with
  | blkMqSubmitBio t bio biPrivate now reserve => trivial
  | rqQosTrack t rq bio biOpf now =>
      have hk : k ≠ rq := fun hk => h (congrArg some hk.symm)
      rw [rqAct, CacheAction.onKey_of_ne hk]
      split <;> trivial
  | blkAccountIoDone rq now sector stats segs reserve =>
      have hk : k ≠ rq := fun hk => h (congrArg some hk.symm)
      rw [rqAct, CacheAction.onKey_of_ne hk]
      trivial
  | _ => exact keeps_onKey_update _ _ _

/-- An accepted `__rq_qos_track` keeps no entry of its request, and stores one if the bio is known and there is room. -/
theorem rqAct_track {t : Task} {rq bio : Ptr} {biOpf : UInt32} {now : TimeStramp} (hp : passes cfg t = true) :
    ¬ (rqAct cfg s (.rqQosTrack t rq bio biOpf now) rq).Keeps ∧
      ((rqAct cfg s (.rqQosTrack t rq bio biOpf now) rq).Puts ↔
        (s.bioPass.lookupElem bio).isSome = true ∧ decide (s.rqCache.recycleElem rq).HasRoom = true) := by
  rw [rqAct, if_pos hp, CacheAction.onKey_self]
  cases hbio : s.bioPass.lookupElem bio with
  | none => simp [CacheAction.Puts]
  | some bioEnter => by_cases hr : (s.rqCache.recycleElem rq).HasRoom <;> simp [CacheAction.Puts, hr]

/-- A completion keeps the entry exactly if it gets no record. -/
theorem rqAct_done (cfg : FilterConfig) (s : BlkState) (rq : Ptr) (now : TimeStramp) (sector : UInt64)
    (stats segs : UInt16) (reserve : Bool) :
    ((rqAct cfg s (.blkAccountIoDone rq now sector stats segs reserve) rq).Keeps ↔ reserve = false) ∧
      ¬ (rqAct cfg s (.blkAccountIoDone rq now sector stats segs reserve) rq).Puts := by
  rw [rqAct, CacheAction.onKey_self]
  cases reserve with
  | true => exact ⟨by simp, id⟩
  | false => exact ⟨by simp, id⟩

/-- A completion that finds an entry and room sends one request record, and nothing else sends any. -/
theorem length_rqTrace_step (e : BlkProbe) :
    ((blkStep cfg s e).2.filterMap BlkRecord.rqTrace?).length =
      match e with
      | .blkAccountIoDone rq _ _ _ _ reserve => if reserve = true ∧ s.rqCache.lookupElem rq ≠ none then 1 else 0
      | _ => 0 := by
  cases e with
  | blkAccountIoDone rq now sector stats segs reserve =>
      simp only [blkStep, kpBlkAccountIoDone]
      cases hl : s.rqCache.lookupElem rq with
      | none => simp
      | some log => cases reserve <;> simp [BlkRecord.rqTrace?]
  | blkMqSubmitBio t bio biPrivate now reserve =>
      simp only [blkStep, kpBlkMqSubmitBio]
      by_cases hp : passes cfg t = true
      · cases reserve <;> simp [hp, BlkRecord.rqTrace?]
      · simp [hp]
  | _ => rfl

/-- `rq_cache` of the block tracer. -/
def blkRequestCache (cfg : FilterConfig) : RequestCache (blkTracer cfg) RqTraceEvent where
  toCacheView := rqView cfg
  keys s := s.rqCache.keySet
  mem_keys _ _ := BpfHash.mem_keySet
  key := BlkProbe.request
  keeps_of_ne _ _ _ h := rqAct_keeps_of_ne h
  track s e :=
    match e with
    | .rqQosTrack t rq bio _ _ => if passes cfg t then some (rq, (s.bioPass.lookupElem bio).isSome) else none
    | _ => none
  done e :=
    match e with
    | .blkAccountIoDone rq _ _ _ _ reserve => some (rq, reserve)
    | _ => none
  room s rq := decide (s.rqCache.recycleElem rq).HasRoom
  record := BlkRecord.rqTrace?
  track_spec s e c h := by
    cases e with
    | rqQosTrack t rq bio biOpf now =>
        by_cases hp : passes cfg t = true
        · simp only [hp, if_true, Option.some.injEq] at h
          obtain rfl := h
          exact ⟨rfl, rfl, rqAct_track hp⟩
        · simp [hp] at h
    | _ => cases h
  done_spec s e c h := by
    cases e with
    | blkAccountIoDone rq now sector stats segs reserve =>
        obtain rfl := Option.some.inj h
        exact ⟨rfl, rqAct_done cfg s rq now sector stats segs reserve⟩
    | _ => cases h
  other_spec s e k htrack hdone := by
    cases e with
    | blkMqSubmitBio t bio biPrivate now reserve => trivial
    | rqQosTrack t rq bio biOpf now =>
        have hp : ¬ passes cfg t = true := fun hp => by simp [hp] at htrack
        show (rqAct cfg s (.rqQosTrack t rq bio biOpf now) k).Keeps
        rw [rqAct, if_neg hp]
        trivial
    | blkAccountIoDone rq now sector stats segs reserve => cases hdone
    | _ => exact keeps_onKey_update _ _ _
  record_step s e := by
    refine (length_rqTrace_step e).trans ?_
    cases e with
    | blkAccountIoDone rq now sector stats segs reserve => simp [rqView]
    | _ => simp

end Blk

/-! ## The info tracer -/

section Info

open Ext4Dio

variable {cfg : DioConfig} {s : InfoState}

theorem keeps_filtered (cfg : DioConfig) (t : Task) (rq k : Ptr) (f : RqInfoEvent → RqInfoEvent) :
    (if passes cfg.filter t then CacheAction.onKey rq k (.update f) else .keep).Keeps := by
  split
  · exact keeps_onKey_update _ _ _
  · trivial

theorem infoRqAct_keeps_of_ne {e : InfoProbe} {k : Ptr} (h : e.stamp.map Prod.fst ≠ some k) :
    (infoRqAct cfg s e k).Keeps := by
  cases e with
  | rqQosTrack t rq biPrivate now =>
      have hk : k ≠ rq := fun hk => h (congrArg some hk.symm)
      rw [infoRqAct, CacheAction.onKey_of_ne hk]
      split <;> trivial
  | blkAccountIoDone rq now sector hctxPtr stats segs reserve =>
      have hk : k ≠ rq := fun hk => h (congrArg some hk.symm)
      rw [infoRqAct, CacheAction.onKey_of_ne hk]
      trivial
  | nvmeQueueRq t rq hf now reserve => exact keeps_filtered cfg _ _ _ _
  | scsiQueueRq t rq hf now reserve => exact keeps_filtered cfg _ _ _ _
  | blkMqStartRequest t rq now => exact keeps_filtered cfg _ _ _ _
  | scsiSoftirqDone rq now => exact keeps_onKey_update _ _ _
  | scsiEndRequest rq now => exact keeps_onKey_update _ _ _
  | nvmePciCompleteRq rq now => exact keeps_onKey_update _ _ _
  | nvmeCompleteRq rq now => exact keeps_onKey_update _ _ _
  | _ => trivial

theorem infoRqAct_track {t : Task} {rq biPrivate : Ptr} {now : TimeStramp} (hp : passes cfg.filter t = true) :
    ¬ (infoRqAct cfg s (.rqQosTrack t rq biPrivate now) rq).Keeps ∧
      ((infoRqAct cfg s (.rqQosTrack t rq biPrivate now) rq).Puts ↔
        (s.dioFilter.lookupElem biPrivate).isSome = true ∧ decide (s.rqCache.recycleElem rq).HasRoom = true) := by
  rw [infoRqAct, if_pos hp, CacheAction.onKey_self]
  cases hdio : s.dioFilter.lookupElem biPrivate with
  | none => simp [CacheAction.Puts]
  | some dioUid => by_cases hr : (s.rqCache.recycleElem rq).HasRoom <;> simp [CacheAction.Puts, hr]

theorem infoRqAct_done (cfg : DioConfig) (s : InfoState) (rq : Ptr) (now : TimeStramp) (sector : UInt64)
    (hctxPtr : Ptr) (stats segs : UInt16) (reserve : Bool) :
    ((infoRqAct cfg s (.blkAccountIoDone rq now sector hctxPtr stats segs reserve) rq).Keeps ↔ reserve = false) ∧
      ¬ (infoRqAct cfg s (.blkAccountIoDone rq now sector hctxPtr stats segs reserve) rq).Puts := by
  rw [infoRqAct, CacheAction.onKey_self]
  cases reserve with
  | true => exact ⟨by simp, id⟩
  | false => exact ⟨by simp, id⟩

/-- A `queue_rq` sends records of hardware queues only, a `kfree` those of direct I/Os. -/
theorem length_rqInfo_step (e : InfoProbe) :
    ((infoStep cfg s e).2.filterMap InfoRecord.rqInfo?).length =
      match e with
      | .blkAccountIoDone rq _ _ _ _ _ reserve => if reserve = true ∧ s.rqCache.lookupElem rq ≠ none then 1 else 0
      | _ => 0 := by
  have hqueue (t : Task) (rq : Ptr) (hf : HctxFields) (now : TimeStramp) (reserve : Bool) :
      ((queueRqInfo cfg s t rq hf now reserve).2.filterMap InfoRecord.rqInfo?).length = 0 := by
    unfold queueRqInfo
    split
    · split
      · cases reserve <;> rfl
      · rfl
    · rfl
  cases e with
  | blkAccountIoDone rq now sector hctxPtr stats segs reserve =>
      simp only [infoStep, kpBlkAccountIoDoneInfo]
      cases hl : s.rqCache.lookupElem rq with
      | none => simp
      | some log => cases reserve <;> simp [InfoRecord.rqInfo?]
  | kfree t obj iocb size now slot =>
      simp only [infoStep, kpKfree]
      split
      · split
        · cases slot <;> rfl
        · rfl
      · rfl
  | nvmeQueueRq t rq hf now reserve => exact hqueue t rq hf now reserve
  | scsiQueueRq t rq hf now reserve => exact hqueue t rq hf now reserve
  | _ => rfl

/-- `rq_cache` of the info tracer. -/
def infoRequestCache (cfg : DioConfig) : RequestCache (infoTracer cfg) RqInfoEvent where
  toCacheView := infoRqView cfg
  keys s := s.rqCache.keySet
  mem_keys _ _ := BpfHash.mem_keySet
  key e := e.stamp.map Prod.fst
  keeps_of_ne _ _ _ h := infoRqAct_keeps_of_ne h
  track s e :=
    match e with
    | .rqQosTrack t rq biPrivate _ =>
        if passes cfg.filter t then some (rq, (s.dioFilter.lookupElem biPrivate).isSome) else none
    | _ => none
  done e :=
    match e with
    | .blkAccountIoDone rq _ _ _ _ _ reserve => some (rq, reserve)
    | _ => none
  room s rq := decide (s.rqCache.recycleElem rq).HasRoom
  record := InfoRecord.rqInfo?
  track_spec s e c h := by
    cases e with
    | rqQosTrack t rq biPrivate now =>
        by_cases hp : passes cfg.filter t = true
        · simp only [hp, if_true, Option.some.injEq] at h
          obtain rfl := h
          exact ⟨rfl, rfl, infoRqAct_track hp⟩
        · simp [hp] at h
    | _ => cases h
  done_spec s e c h := by
    cases e with
    | blkAccountIoDone rq now sector hctxPtr stats segs reserve =>
        obtain rfl := Option.some.inj h
        exact ⟨rfl, infoRqAct_done cfg s rq now sector hctxPtr stats segs reserve⟩
    | _ => cases h
  other_spec s e k htrack hdone := by
    cases e with
    | rqQosTrack t rq biPrivate now =>
        have hp : ¬ passes cfg.filter t = true := fun hp => by simp [hp] at htrack
        show (infoRqAct cfg s (.rqQosTrack t rq biPrivate now) k).Keeps
        rw [infoRqAct, if_neg hp]
        trivial
    | blkAccountIoDone rq now sector hctxPtr stats segs reserve => cases hdone
    | nvmeQueueRq t rq hf now reserve => exact keeps_filtered cfg _ _ _ _
    | scsiQueueRq t rq hf now reserve => exact keeps_filtered cfg _ _ _ _
    | blkMqStartRequest t rq now => exact keeps_filtered cfg _ _ _ _
    | scsiSoftirqDone rq now => exact keeps_onKey_update _ _ _
    | scsiEndRequest rq now => exact keeps_onKey_update _ _ _
    | nvmePciCompleteRq rq now => exact keeps_onKey_update _ _ _
    | nvmeCompleteRq rq now => exact keeps_onKey_update _ _ _
    | _ => trivial
  record_step s e := by
    refine (length_rqInfo_step e).trans ?_
    cases e with
    | blkAccountIoDone rq now sector hctxPtr stats segs reserve => simp [infoRqView]
    | _ => simp

end Info

/-- **No request disappears without a cause**, in the block tracer and in the info tracer, over every run. -/
theorem accounted_requests (filter : FilterConfig) (cfg : DioConfig) :
    (∀ evs : List BlkProbe, (blkRequestCache filter).Accounted 256 evs) ∧
      ∀ evs : List InfoProbe, (infoRequestCache cfg).Accounted 512 evs :=
  ⟨(blkRequestCache filter).accounted (fun _ => BpfHash.card_keySet_le _),
    (infoRequestCache cfg).accounted (fun _ => BpfHash.card_keySet_le _)⟩

end StorTrace
