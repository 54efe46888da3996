import Mathlib.Data.List.Perm.Basic
import StorTrace.Lib.SortedFold
import StorTrace.Collector.Statistics
import StorTrace.Collector.Windows

/-!
# `Collector.TimeOrder` — statistics of rows that are sorted by time

A time sequence lists the rows of a table by their indices. The statistics made from it depend on the rows
it lists and on their order, not on the indices; and of two orders in which the times do not decrease, they
do not depend on which.
-/

namespace StorTrace

open SortedFold

/-! ## Distributions do not depend on any order -/

theorem maxOf_perm {latency latency' : List UInt64} (h : latency.Perm latency') : maxOf latency = maxOf latency' := by
  refine h.foldl_eq' ?_ 0
  intro x _ y _ z
  simp only [gt_iff_lt, UInt64.lt_iff_toNat_lt, ← UInt64.toNat_inj]
  split_ifs <;> omega

theorem minOf_perm {latency latency' : List UInt64} (h : latency.Perm latency') : minOf latency = minOf latency' := by
  refine h.foldl_eq' ?_ _
  intro x _ y _ z
  simp only [UInt64.lt_iff_toNat_lt, ← UInt64.toNat_inj]
  split_ifs <;> omega

/-- Counting in two buckets. -/
theorem bump_bump (bucket : List Int) (i j : Int) :
    (bump bucket i >>= fun bucket => bump bucket j) = (bump bucket j >>= fun bucket => bump bucket i) := by
  have hlen (k : Nat) : (bucket.modify k (· + 1)).length = bucket.length := List.length_modify ..
  by_cases hi : 0 ≤ i ∧ i < bucket.length
  · by_cases hj : 0 ≤ j ∧ j < bucket.length
    · have hij : bump bucket i = .ok (bucket.modify i.toNat (· + 1)) := if_pos hi
      have hji : bump bucket j = .ok (bucket.modify j.toNat (· + 1)) := if_pos hj
      rw [hij, hji]
      show bump (bucket.modify i.toNat (· + 1)) j = bump (bucket.modify j.toNat (· + 1)) i
      rw [bump, bump, if_pos (by rw [hlen]; exact hj), if_pos (by rw [hlen]; exact hi)]
      by_cases hk : i.toNat = j.toNat
      · rw [hk]
      · rw [List.modify_modify_ne _ _ _ hk]
    · have hji : bump bucket j = .error .undefined := if_neg hj
      have hij : bump bucket i = .ok (bucket.modify i.toNat (· + 1)) := if_pos hi
      rw [hij, hji]
      show bump (bucket.modify i.toNat (· + 1)) j = .error .undefined
      rw [bump, if_neg (by rw [hlen]; exact hj)]
  · have hij : bump bucket i = .error .undefined := if_neg hi
    rw [hij]
    by_cases hj : 0 ≤ j ∧ j < bucket.length
    · have hji : bump bucket j = .ok (bucket.modify j.toNat (· + 1)) := if_pos hj
      rw [hji]
      show Except.error Fault.undefined = bump (bucket.modify j.toNat (· + 1)) i
      rw [bump, if_neg (by rw [hlen]; exact hi)]
    · have hji : bump bucket j = .error .undefined := if_neg hj
      rw [hji]
      rfl

/-- **A distribution does not depend on the order.** -/
theorem getDis_perm {name : String} {latency latency' : List UInt64} (h : latency.Perm latency') :
    getDis name latency = getDis name latency' := by
  have hbuckets (minV step : UInt64) (bucket : List Int) :
      latency.foldlM (fun bucket v => bump bucket (disIndex minV step v)) bucket =
        latency'.foldlM (fun bucket v => bump bucket (disIndex minV step v)) bucket := by
    have hsort (l : List UInt64) : l.Pairwise (fun _ _ => True) := List.pairwise_of_forall (fun _ _ => trivial)
    have hkeep : Keeps (fun _ => True) (fun bucket v => bump bucket (disIndex minV step v)) latency :=
      fun _ _ _ _ _ _ => trivial
    have hcomm : TiesCommute Eq (fun _ => True) (fun _ _ => True)
        (fun bucket v => bump bucket (disIndex minV step v)) latency := by
      intro v _ w _ _ _ bucket _
      show Agree Eq (bump bucket (disIndex minV step v) >>= fun bucket => bump bucket (disIndex minV step w))
        (bump bucket (disIndex minV step w) >>= fun bucket => bump bucket (disIndex minV step v))
      rw [bump_bump]
      exact Agree.refl eq_equivalence _
    exact (agree_foldlM eq_equivalence (hsort latency) (hsort latency') h hkeep hcomm trivial).eq
  unfold getDis
  simp only [maxOf_perm h, minOf_perm h, hbuckets]

/-! ## Commits of one time -/

namespace TimeThroughputPmc

variable {ndebug : Bool} {c c' : TimeThroughputPmc} {tp data : UInt64}

theorem commitDlog_ok (h : c.commitDlog ndebug tp data = .ok c') : c' = c.commit tp data := by
  unfold commitDlog commit? at h
  split at h
  · next heq =>
    rw [Option.ite_none_right_eq_some] at heq
    rw [← Except.ok.inj h, ← Option.some.inj heq.2]
  · cases h

theorem commitDlog_error {f : Fault} (h : c.commitDlog ndebug tp data = .error f) :
    f = commitFault ndebug c.interval ((c.align tp).index tp) := by
  unfold commitDlog at h
  split at h
  · cases h
  · exact (Except.error.inj h).symm

/-- A `commit` starts the clock. -/
theorem started_commit : (c.commit tp data).started = true := started_align

end TimeThroughputPmc

namespace TimeAvgPmc

variable {ndebug : Bool} {c c' : TimeAvgPmc} {tp : UInt64}

/-- The size is that of the array. -/
def SizeEq (c : TimeAvgPmc) : Prop := c.pmcSize = c.pmcData.length

theorem sizeEq_commit? {data : UInt64} (hsize : c.SizeEq) (h : c.commit? tp data = some c') : c'.SizeEq := by
  have hone : c.toPmc.commits? 0 (0, 0) CanCount [(tp, add data)] = some c'.toPmc := by
    show (c.toPmc.commit? 0 (0, 0) CanCount tp (add data)).bind some = _
    rw [Option.bind_fun_some, ← toPmc_commit? c (tp, data), h]
    rfl
  have hstored := ((Pmc.commits?_eq_some (c := c.toPmc) hsize).mp hone).2.2.2.2
  have hdata : c'.pmcData = _ := congrArg Pmc.data hstored
  have hlen : c'.pmcSize = _ := congrArg Pmc.size hstored
  rw [SizeEq, hdata, hlen]
  rfl

theorem sizeEq_commitDlog {data : UInt64} (hsize : c.SizeEq) (h : c.commitDlog ndebug tp data = .ok c') :
    c'.SizeEq := by
  unfold commitDlog at h
  split at h
  · next c₁ hc₁ =>
    rw [← Except.ok.inj h]
    exact sizeEq_commit? hsize hc₁
  · cases h

/-- The window of a time is the same after a `commit` of that time. -/
theorem index_align_commit (c : TimeAvgPmc) (tp data : UInt64) :
    ((c.commit tp data).align tp).index tp = (c.align tp).index tp := by
  have hstarted : (c.commit tp data).started = true := started_align
  rw [align_of_started hstarted]
  rfl

theorem interval_commit (c : TimeAvgPmc) (tp data : UInt64) : (c.commit tp data).interval = c.interval :=
  interval_align

/-- **Samples of one time may change places.** -/
theorem commitDlog_swap (hsize : c.SizeEq) (d₁ d₂ : UInt64) :
    (c.commitDlog ndebug tp d₁ >>= fun c => c.commitDlog ndebug tp d₂) =
      (c.commitDlog ndebug tp d₂ >>= fun c => c.commitDlog ndebug tp d₁) := by
  have hpmc : c.commits? [(tp, d₁), (tp, d₂)] = c.commits? [(tp, d₂), (tp, d₁)] := by
    apply Option.map_injective (fun _ _ => toPmc_injective)
    rw [toPmc_commits?, toPmc_commits?]
    refine Pmc.commits?_swap hsize (fun aq => ?_) (fun aq => Iff.rfl)
    show (aq.1 + d₁ + d₂, aq.2 + 1 + 1) = (aq.1 + d₂ + d₁, aq.2 + 1 + 1)
    rw [UInt64.add_assoc, UInt64.add_comm d₁, UInt64.add_assoc]
  -- whether a `commit` is defined, and how it goes wrong, does not depend on the sample
  let Defined : Prop := PmcDefined 0 (c.align tp).pmcData (c.align tp).pmcSize (0, 0) (c.align tp).interval
    ((c.align tp).index tp) ∧ ((c.align tp).pmcData.getD ((c.align tp).index tp).toNat (0, 0)).2 < intMax
  by_cases hd : Defined
  · have hok (d : UInt64) : c.commit? tp d = some (c.commit tp d) := if_pos hd
    have htwo (d d' : UInt64) : c.commits? [(tp, d), (tp, d')] = (c.commit tp d).commit? tp d' := by
      show (c.commit? tp d).bind (fun c => (c.commit? tp d').bind some) = _
      rw [hok, Option.bind_some, Option.bind_fun_some]
    rw [htwo, htwo] at hpmc
    have hdlog (d : UInt64) : c.commitDlog ndebug tp d = .ok (c.commit tp d) := by
      rw [commitDlog, hok]
    rw [hdlog, hdlog]
    show (c.commit tp d₁).commitDlog ndebug tp d₂ = (c.commit tp d₂).commitDlog ndebug tp d₁
    rw [commitDlog, commitDlog, hpmc]
    simp only [index_align_commit, interval_commit]
  · have hnone (d : UInt64) : c.commit? tp d = none := if_neg hd
    have hdlog (d : UInt64) : c.commitDlog ndebug tp d =
        .error (commitFault ndebug c.interval ((c.align tp).index tp)) := by
      rw [commitDlog, hnone]
    rw [hdlog, hdlog]
    rfl

end TimeAvgPmc

/-! ## The rows a time sequence lists -/

/-- `for(int i = 0; i < v.size(); i++)`, each turn beginning with `v[i]`. -/
theorem foldlM_vecAt {α σ : Type} {step : σ → α → Except Fault σ} (v : List α) (s : σ) :
    (List.range v.length).foldlM (fun s i => vecAt v i >>= step s) s = v.foldlM step s := by
  -- by induction on what is left of the vector
  have hrest (pre rest : List α) (s : σ) :
      (List.range' pre.length rest.length).foldlM (fun s i => vecAt (pre ++ rest) i >>= step s) s =
        rest.foldlM step s := by
    induction rest generalizing pre s with
    | nil => rfl
    | cons a rest ih =>
        have hat : vecAt (pre ++ a :: rest) pre.length = .ok a := by simp [vecAt]
        have hih := ih (pre ++ [a])
        rw [List.length_append, List.length_singleton, List.append_assoc, List.singleton_append] at hih
        rw [List.length_cons, List.range'_succ, List.foldlM_cons, List.foldlM_cons, hat]
        show (step s a >>= _) = _
        exact bind_congr hih
  have hall := hrest [] v s
  rw [List.length_nil, List.nil_append, ← List.range_eq_range'] at hall
  exact hall

section Rows

variable {ρ : Type} (time : ρ → UInt64)

/-- An element of a time sequence refers to a row. -/
def RefersTo (table : List ρ) (t : UInt64 × Nat) (r : ρ) : Prop := table[t.2]? = some r ∧ t.1 = time r

/-- Two orders of the same rows, in both of which the times do not decrease. -/
structure Reordered (rows rows' : List ρ) : Prop where
  perm : rows.Perm rows'
  ordered : rows.Pairwise (fun r r' => time r ≤ time r')
  ordered' : rows'.Pairwise (fun r r' => time r ≤ time r')

variable {time} {table rows rows' : List ρ} {timeSeq timeSeq' : List (UInt64 × Nat)} {ndebug : Bool}
  {pmc : UInt64} {name : String}

theorem map_fst_eq (h : List.Forall₂ (RefersTo time table) timeSeq rows) :
    timeSeq.map Prod.fst = rows.map time := by
  induction h with
  | nil => rfl
  | cons hr _ ih => rw [List.map_cons, List.map_cons, ih, hr.2]

/-- The times are in the same order. -/
theorem Reordered.map_time (h : Reordered time rows rows') : rows.map time = rows'.map time := by
  have hsort : (rows.map time).Pairwise (· ≤ ·) := List.pairwise_map.mpr h.ordered
  have hsort' : (rows'.map time).Pairwise (· ≤ ·) := List.pairwise_map.mpr h.ordered'
  apply List.Perm.eq_of_pairwise _ hsort hsort' (h.perm.map time)
  intro t t' _ _ hle hle'
  exact UInt64.le_antisymm hle hle'

/-! ### Statistics of the times -/

/-- Commits of times only. -/
theorem foldlM_commitDlog {c : TimeThroughputPmc} (h : timeSeq.map Prod.fst = timeSeq'.map Prod.fst) :
    timeSeq.foldlM (fun c t => c.commitDlog ndebug t.1 1) c =
      timeSeq'.foldlM (fun c t => c.commitDlog ndebug t.1 1) c := by
  have hmap (seq : List (UInt64 × Nat)) : seq.foldlM (fun c t => c.commitDlog ndebug t.1 1) c =
      (seq.map Prod.fst).foldlM (fun c tp => TimeThroughputPmc.commitDlog ndebug c tp 1) c := by
    rw [List.foldlM_map]
  rw [hmap, hmap, h]

theorem getIOPmc_congr (h : timeSeq.map Prod.fst = timeSeq'.map Prod.fst) :
    getIOPmc ndebug pmc name timeSeq = getIOPmc ndebug pmc name timeSeq' := by
  rw [getIOPmc, getIOPmc, foldlM_commitDlog h]

theorem getMergeRate_congr (h : timeSeq.map Prod.fst = timeSeq'.map Prod.fst) :
    getMergeRate ndebug pmc timeSeq = getMergeRate ndebug pmc timeSeq' := by
  funext before
  unfold getMergeRate
  simp only [foldlM_commitDlog h]

/-! ### Averages -/

/-- The averages of a column, in terms of the rows. -/
theorem getAvgSeq_eq (h : List.Forall₂ (RefersTo time table) timeSeq rows) (hlen : timeSeq.length = table.length)
    (value : ρ → UInt64) :
    getAvgSeq ndebug pmc name timeSeq (table.map value) =
      rows.foldlM (fun c r => c.commitDlog ndebug (time r) (value r)) (TimeAvgPmc.new pmc) >>=
        fun avgPmc => .ok (avgPmc.getJson name) := by
  have hstep (c : TimeAvgPmc) (t : UInt64 × Nat) (r : ρ) (hr : RefersTo time table t r) :
      (vecAt (table.map value) t.2 >>= fun data => c.commitDlog ndebug t.1 data) =
        c.commitDlog ndebug (time r) (value r) := by
    have hat : vecAt (table.map value) t.2 = .ok (value r) := by simp [vecAt, hr.1]
    rw [hat, hr.2]
    rfl
  have hrows := foldlM_forall₂ h hstep (TimeAvgPmc.new pmc)
  rw [← hrows, ← foldlM_vecAt, hlen]
  unfold getAvgSeq
  rw [List.length_map]
  rfl

/-- **Averages do not depend on the order of rows of one time.** -/
theorem avgs_reordered (h : Reordered time rows rows') (value : ρ → UInt64) :
    rows.foldlM (fun c r => c.commitDlog ndebug (time r) (value r)) (TimeAvgPmc.new pmc) =
      rows'.foldlM (fun c r => c.commitDlog ndebug (time r) (value r)) (TimeAvgPmc.new pmc) := by
  have hkeep : Keeps TimeAvgPmc.SizeEq (fun c r => c.commitDlog ndebug (time r) (value r)) rows :=
    fun r _ c c' hsize hc => TimeAvgPmc.sizeEq_commitDlog hsize hc
  have hcomm : TiesCommute Eq TimeAvgPmc.SizeEq (fun r r' => time r ≤ time r')
      (fun c r => c.commitDlog ndebug (time r) (value r)) rows := by
    intro r _ r' _ hle hle' c hsize
    have htime : time r = time r' := UInt64.le_antisymm hle hle'
    show Agree Eq (c.commitDlog ndebug (time r) (value r) >>= fun c => c.commitDlog ndebug (time r') (value r'))
      (c.commitDlog ndebug (time r') (value r') >>= fun c => c.commitDlog ndebug (time r) (value r))
    rw [htime, TimeAvgPmc.commitDlog_swap hsize]
    exact Agree.refl eq_equivalence _
  have hnew : (TimeAvgPmc.new pmc).SizeEq := by
    show (30 : Int) = ((List.replicate 30 ((0 : UInt64), (0 : Int))).length : Int)
    rw [List.length_replicate]
    rfl
  exact (agree_foldlM eq_equivalence h.ordered h.ordered' h.perm hkeep hcomm hnew).eq

/-! ### Reads and writes -/

/-- A type `get_rw_rate` does not know. -/
def UnknownType (ioType : Int) : Prop := ioType ≠ 0 ∧ ioType ≠ 1

instance : DecidablePred UnknownType := fun _ => inferInstanceAs (Decidable (_ ∧ _))

/-- A row of an unknown type and one of a known type have the same time. -/
def TiedUnknown (time : ρ → UInt64) (ioType : ρ → Int) (rows : List ρ) : Prop :=
  ∃ r ∈ rows, ∃ r' ∈ rows, time r = time r' ∧ UnknownType (ioType r) ∧ ¬ UnknownType (ioType r')

/-- Two faults are the same, if they may not differ. -/
def SameFault (mayDiffer : Prop) (f f' : Fault) : Prop := f = f' ∨ mayDiffer

theorem sameFault_equivalence (mayDiffer : Prop) : Equivalence (SameFault mayDiffer) where
  refl _ := Or.inl rfl
  symm h := h.imp Eq.symm id
  trans h h' := by
    rcases h with rfl | h
    · exact h'
    · exact Or.inr h

/-- Both collectors have started, and have the same clock. -/
structure SameClock (rw : TimeThroughputPmc × TimeThroughputPmc) : Prop where
  started₁ : rw.1.started = true
  started₂ : rw.2.started = true
  startTime : rw.1.startTime = rw.2.startTime
  interval : rw.1.interval = rw.2.interval

/-- A known type is committed to its collector. -/
theorem rwCommit_read (rw : TimeThroughputPmc × TimeThroughputPmc) (tp : UInt64) :
    rwCommit ndebug rw tp 0 = rw.1.commitDlog ndebug tp 1 >>= fun readPmc => .ok (readPmc, rw.2) := rfl

theorem rwCommit_write (rw : TimeThroughputPmc × TimeThroughputPmc) (tp : UInt64) :
    rwCommit ndebug rw tp 1 = rw.2.commitDlog ndebug tp 1 >>= fun writePmc => .ok (rw.1, writePmc) := rfl

/-- An unknown type is skipped, or stops a debug build. -/
theorem rwCommit_unknown {ioType : Int} (h : UnknownType ioType) (rw : TimeThroughputPmc × TimeThroughputPmc)
    (tp : UInt64) :
    rwCommit ndebug rw tp ioType = if ndebug then .ok rw else .error (.fatal "Catching unknown type IO") := by
  rw [rwCommit, if_neg h.1, if_neg h.2]

/-- A read and a write of one time may change places. -/
theorem rwCommit_swap {rw : TimeThroughputPmc × TimeThroughputPmc} (hclock : SameClock rw) (tp : UInt64) :
    (rwCommit ndebug rw tp 0 >>= fun rw => rwCommit ndebug rw tp 1) =
      (rwCommit ndebug rw tp 1 >>= fun rw => rwCommit ndebug rw tp 0) := by
  -- if both go wrong, they go wrong alike
  have hindex : (rw.1.align tp).index tp = (rw.2.align tp).index tp := by
    rw [TimeThroughputPmc.align_of_started hclock.started₁, TimeThroughputPmc.align_of_started hclock.started₂,
      TimeThroughputPmc.index, TimeThroughputPmc.index, hclock.startTime, hclock.interval]
  rw [rwCommit_read, rwCommit_write]
  cases hr : rw.1.commitDlog ndebug tp 1 with
  | ok readPmc =>
      cases hw : rw.2.commitDlog ndebug tp 1 with
      | ok writePmc =>
          show (rw.2.commitDlog ndebug tp 1 >>= fun writePmc => Except.ok (readPmc, writePmc)) =
            (rw.1.commitDlog ndebug tp 1 >>= fun readPmc => Except.ok (readPmc, writePmc))
          rw [hr, hw]
          rfl
      | error f =>
          show (rw.2.commitDlog ndebug tp 1 >>= fun writePmc => Except.ok (readPmc, writePmc)) = .error f
          rw [hw]
          rfl
  | error f =>
      cases hw : rw.2.commitDlog ndebug tp 1 with
      | ok writePmc =>
          show .error f = (rw.1.commitDlog ndebug tp 1 >>= fun readPmc => Except.ok (readPmc, writePmc))
          rw [hr]
          rfl
      | error f' =>
          rw [TimeThroughputPmc.commitDlog_error hr, TimeThroughputPmc.commitDlog_error hw, hindex, hclock.interval]
          rfl

theorem sameClock_rwCommit {rw rw' : TimeThroughputPmc × TimeThroughputPmc} {tp : UInt64} {ioType : Int}
    (hclock : SameClock rw) (h : rwCommit ndebug rw tp ioType = .ok rw') : SameClock rw' := by
  -- a `commit` to a started collector leaves its clock alone
  have hkeep {c c' : TimeThroughputPmc} (hs : c.started = true) (hc : c.commitDlog ndebug tp 1 = .ok c') :
      c'.started = true ∧ c'.startTime = c.startTime ∧ c'.interval = c.interval := by
    rw [TimeThroughputPmc.commitDlog_ok hc]
    refine ⟨TimeThroughputPmc.started_commit, ?_, TimeThroughputPmc.interval_align⟩
    show (c.align tp).startTime = c.startTime
    rw [TimeThroughputPmc.align_of_started hs]
  by_cases hread : ioType = 0
  · subst hread
    rw [rwCommit_read] at h
    obtain ⟨readPmc, hc, hrw⟩ := bind_eq_ok.mp h
    obtain ⟨hs, hstart, hinterval⟩ := hkeep hclock.started₁ hc
    rw [← Except.ok.inj hrw]
    exact ⟨hs, hclock.started₂, hstart.trans hclock.startTime, hinterval.trans hclock.interval⟩
  · by_cases hwrite : ioType = 1
    · subst hwrite
      rw [rwCommit_write] at h
      obtain ⟨writePmc, hc, hrw⟩ := bind_eq_ok.mp h
      obtain ⟨hs, hstart, hinterval⟩ := hkeep hclock.started₂ hc
      rw [← Except.ok.inj hrw]
      exact ⟨hclock.started₁, hs, hclock.startTime.trans hstart.symm, hclock.interval.trans hinterval.symm⟩
    · rw [rwCommit_unknown ⟨hread, hwrite⟩] at h
      split at h
      · rw [← Except.ok.inj h]
        exact hclock
      · cases h

/-- **Two rows of one time may change places**, except that a debug build may find an unknown type before or
    after another fault. -/
theorem rwCommit_ties {ioType ioType' : Int} {mayDiffer : Prop}
    (hdiffer : ndebug = false → (UnknownType ioType ↔ ¬ UnknownType ioType') → mayDiffer)
    {rw : TimeThroughputPmc × TimeThroughputPmc} (hclock : SameClock rw) (tp : UInt64) :
    Agree (SameFault mayDiffer) (rwCommit ndebug rw tp ioType >>= fun rw => rwCommit ndebug rw tp ioType')
      (rwCommit ndebug rw tp ioType' >>= fun rw => rwCommit ndebug rw tp ioType) := by
  have hrefl (x : Except Fault (TimeThroughputPmc × TimeThroughputPmc)) :=
    Agree.refl (sameFault_equivalence mayDiffer) x
  by_cases hu : UnknownType ioType
  · by_cases hu' : UnknownType ioType'
    · simp only [rwCommit_unknown hu, rwCommit_unknown hu']
      exact hrefl _
    · cases ndebug with
      | true =>
          simp only [rwCommit_unknown hu, if_true]
          show Agree _ (rwCommit true rw tp ioType') (rwCommit true rw tp ioType' >>= pure)
          rw [bind_pure]
          exact hrefl _
      | false =>
          have hmay := hdiffer rfl (iff_of_true hu hu')
          simp only [rwCommit_unknown hu]
          cases rwCommit false rw tp ioType' with
          | ok rw' => exact hrefl _
          | error f => exact .error (Or.inr hmay)
  · by_cases hu' : UnknownType ioType'
    · cases ndebug with
      | true =>
          simp only [rwCommit_unknown hu', if_true]
          show Agree _ (rwCommit true rw tp ioType >>= pure) (rwCommit true rw tp ioType)
          rw [bind_pure]
          exact hrefl _
      | false =>
          have hmay := hdiffer rfl (iff_of_false hu (not_not_intro hu'))
          simp only [rwCommit_unknown hu']
          cases rwCommit false rw tp ioType with
          | ok rw' => exact hrefl _
          | error f => exact .error (Or.inr hmay)
    · have hknown {i : Int} (h : ¬ UnknownType i) : i = 0 ∨ i = 1 := by
        by_contra hne
        exact h ⟨fun h0 => hne (Or.inl h0), fun h1 => hne (Or.inr h1)⟩
      rcases hknown hu with rfl | rfl
      · rcases hknown hu' with rfl | rfl
        · exact hrefl _
        · rw [rwCommit_swap hclock]
          exact hrefl _
      · rcases hknown hu' with rfl | rfl
        · rw [rwCommit_swap hclock]
          exact hrefl _
        · exact hrefl _

/-- The rates of reads and writes, in terms of the rows. -/
theorem getRwRate_eq (h : List.Forall₂ (RefersTo time table) timeSeq rows) (ioType : ρ → Int) :
    getRwRate ndebug pmc name timeSeq (table.map ioType) =
      (vecAt (rows.map time) 0 >>= fun first =>
        (TimeThroughputPmc.new pmc).commitDlog ndebug first 1 >>= fun c =>
        rows.foldlM (fun rw r => rwCommit ndebug rw (time r) (ioType r)) (c, c) >>= fun rw =>
        let rates := List.zipWith (fun r w => rwRate r.toFloat32 w.toFloat32) rw.1.pmcData rw.2.pmcData
        .ok ⟨rates.map Prod.fst, rates.map Prod.snd, name⟩) := by
  have hstep (rw : TimeThroughputPmc × TimeThroughputPmc) (t : UInt64 × Nat) (r : ρ)
      (hr : RefersTo time table t r) :
      (vecAt (table.map ioType) t.2 >>= fun i => rwCommit ndebug rw t.1 i) =
        rwCommit ndebug rw (time r) (ioType r) := by
    have hat : vecAt (table.map ioType) t.2 = .ok (ioType r) := by simp [vecAt, hr.1]
    rw [hat, hr.2]
    rfl
  have hrows := foldlM_forall₂ h hstep
  have hfirst : vecAt (rows.map time) 0 = vecAt timeSeq 0 >>= fun first => .ok first.1 := by
    rw [← map_fst_eq h]
    cases timeSeq with
    | nil => rfl
    | cons t rest => rfl
  unfold getRwRate
  rw [hfirst]
  simp only [hrows, bind_assoc]
  refine bind_congr (fun first => ?_)
  show (TimeThroughputPmc.commitDlog ndebug _ first.1 1 >>= fun readPmc =>
    TimeThroughputPmc.commitDlog ndebug _ first.1 1 >>= fun writePmc => _) =
    (TimeThroughputPmc.commitDlog ndebug _ first.1 1 >>= _)
  cases (TimeThroughputPmc.new pmc).commitDlog ndebug first.1 1 with
  | ok c => rfl
  | error f => rfl

/-- **Reads and writes do not depend on the order of rows of one time**, except for the fault of a debug
    build. -/
theorem rwRates_reordered (h : Reordered time rows rows') (ioType : ρ → Int)
    {c : TimeThroughputPmc} (hc : c.started = true) :
    Agree (SameFault (ndebug = false ∧ TiedUnknown time ioType rows))
      (rows.foldlM (fun rw r => rwCommit ndebug rw (time r) (ioType r)) (c, c))
      (rows'.foldlM (fun rw r => rwCommit ndebug rw (time r) (ioType r)) (c, c)) := by
  have hkeep : Keeps SameClock (fun rw r => rwCommit ndebug rw (time r) (ioType r)) rows :=
    fun r _ rw rw' hclock hrw => sameClock_rwCommit hclock hrw
  have hcomm : TiesCommute (SameFault (ndebug = false ∧ TiedUnknown time ioType rows)) SameClock
      (fun r r' => time r ≤ time r') (fun rw r => rwCommit ndebug rw (time r) (ioType r)) rows := by
    intro r hr r' hr' hle hle' rw hclock
    have htime : time r = time r' := UInt64.le_antisymm hle hle'
    show Agree _ (rwCommit ndebug rw (time r) (ioType r) >>= fun rw => rwCommit ndebug rw (time r') (ioType r'))
      (rwCommit ndebug rw (time r') (ioType r') >>= fun rw => rwCommit ndebug rw (time r) (ioType r))
    rw [htime]
    apply rwCommit_ties _ hclock
    intro hdebug hne
    refine ⟨hdebug, ?_⟩
    by_cases hu : UnknownType (ioType r)
    · exact ⟨r, hr, r', hr', htime, hu, hne.mp hu⟩
    · exact ⟨r', hr', r, hr, htime.symm, not_not.mp (fun hu' => hu (hne.mpr hu')), hu⟩
  exact agree_foldlM (sameFault_equivalence _) h.ordered h.ordered' h.perm hkeep hcomm ⟨hc, hc, rfl, rfl⟩

end Rows

end StorTrace
