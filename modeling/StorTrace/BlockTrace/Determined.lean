import StorTrace.BlockTrace.Probes
import StorTrace.BlockTrace.Report

/-!
# `BlockTrace.Determined` — does a record determine its row?

`do_event` fills an array it has just allocated. In a release build the branches for an unknown scheduler
and an unknown drive assign nothing, so the words of the stages they skip are logged with whatever the
allocator returned. Two executions on the same record with different allocations are compared.
-/

namespace StorTrace.BlockTrace

/-- In a release build, `do_event` decides the same and commits the same bytes whatever its array holds
    when it is allocated. -/
def Determined (log : RqTraceEvent) : Prop :=
  ∀ heap heap' : EventData, doEventRq true log heap = doEventRq true log heap'

/-- Both tags that a section of `do_event` switches on are known, or no row is committed at all. -/
def Assigned (log : RqTraceEvent) : Prop :=
  log.rqSub.plug = 0 ∨ log.rqSub.dType = .unknownDispatch ∨
    (log.rqSub.sType ≠ .unknownSchedu ∧ KnownDrive log)

instance (log : RqTraceEvent) : Decidable (Assigned log) := inferInstanceAs (Decidable (_ ∨ _ ∨ (_ ∧ _)))

/-! ## A release build -/

section Release

variable {log : RqTraceEvent}

/-- The word of the direction. -/
def directionWord (log : RqTraceEvent) : UInt64 := if log.rqSub.ioType = .write then 1 else 0

theorem startWords_release (hp : 0 < log.rqSub.plug) (d : EventData) :
    startWords true log d =
      .ok (((d.put 0 log.bioEnter).put 1 (log.rqStart - log.bioEnter)).put 2 (directionWord log)) := by
  unfold startWords directionWord
  rw [if_pos hp]
  split <;> rfl

theorem schedWords_release (d : EventData) :
    schedWords true log d = .ok ((d.put 3 (plugStage log d)).put 4 (schedulingStage log d)) := by
  obtain ⟨d', hd'⟩ : ∃ d', schedWords true log d = .ok d' := by
    unfold schedWords
    split
    · rw [if_neg (by simp)]; exact ⟨_, rfl⟩
    · split <;> exact ⟨_, rfl⟩
  rw [hd', schedWords_ok hd']

theorem dispatchWord_release (hu : log.rqSub.dType ≠ .unknownDispatch) (d : EventData) :
    dispatchWord log d = .ok (d.put 5 (dispatchStage log)) := by
  obtain ⟨d', hd'⟩ : ∃ d', dispatchWord log d = .ok d' := by
    unfold dispatchWord
    split
    · exact ⟨_, rfl⟩
    · exact ⟨_, rfl⟩
  rw [hd', (dispatchWord_ok hd').2]

theorem execWords_release (d : EventData) : ∃ d', execWords true log d = .ok d' := by
  unfold execWords
  cases log.rqComp.drive <;> exact ⟨_, rfl⟩

theorem verifyWords_release (d : EventData) : ∃ d', verifyWords true log d = .ok d' := by
  unfold verifyWords
  cases log.rqComp.drive <;> exact ⟨_, rfl⟩

/-- The array of a committed record, word by word. -/
def committedWords (log : RqTraceEvent) (heap : EventData) : List UInt64 :=
  [log.bioEnter, log.rqStart - log.bioEnter, directionWord log, plugStage log heap,
    schedulingStage log heap, dispatchStage log,
    driveStage log .nvme (log.rqComp.path.nvmeCompleteRq - log.rqSub.queueRq) (heap.get 6),
    driveStage log .scsi (log.rqComp.path.scsiEnd - log.rqSub.queueRq) (heap.get 7),
    driveStage log .nvme (log.rqComp.accountIo - log.rqComp.path.nvmeCompleteRq) (heap.get 8),
    driveStage log .scsi (log.rqComp.accountIo - log.rqComp.path.scsiEnd) (heap.get 9),
    u64OfBytes (log.commonName.data.take 8), u64OfBytes (log.commonName.data.drop 8)]

/-- The words of an array, one by one. -/
theorem toList_eventData (d : EventData) :
    d.toList = [d.get 0, d.get 1, d.get 2, d.get 3, d.get 4, d.get 5, d.get 6, d.get 7, d.get 8, d.get 9,
      d.get 10, d.get 11] := by
  have hofFn : d = Vector.ofFn d.get := by
    apply Vector.ext
    intro k hk
    rw [Vector.getElem_ofFn]
    rfl
  have hlist : d.toList = List.ofFn d.get := by
    rw [hofFn, Vector.toList_ofFn, ← hofFn]
  rw [hlist]
  rfl

/-- **A release build commits a plugged record with a dispatch tag**, and its row is these words. -/
theorem doEventRq_release (hp : 0 < log.rqSub.plug) (hu : log.rqSub.dType ≠ .unknownDispatch)
    (heap : EventData) :
    doEventRq true log heap =
      .ok (commitWords blkFormats "blk_trace_record" (committedWords log heap)) := by
  let d₁ := ((heap.put 0 log.bioEnter).put 1 (log.rqStart - log.bioEnter)).put 2 (directionWord log)
  let d₂ := (d₁.put 3 (plugStage log d₁)).put 4 (schedulingStage log d₁)
  let d₃ := d₂.put 5 (dispatchStage log)
  obtain ⟨d₄, h₄⟩ : ∃ d₄, execWords true log d₃ = .ok d₄ := execWords_release d₃
  obtain ⟨d₅, h₅⟩ : ∃ d₅, verifyWords true log d₄ = .ok d₅ := verifyWords_release d₄
  have e₄ := execWords_ok h₄
  have e₅ := verifyWords_ok h₅
  have hdata : eventData true log heap = .ok (commonWords log d₅) :=
    bind_eq_ok.mpr ⟨d₁, startWords_release hp heap, bind_eq_ok.mpr ⟨d₂, schedWords_release d₁,
      bind_eq_ok.mpr ⟨d₃, dispatchWord_release hu d₂, bind_eq_ok.mpr ⟨d₄, h₄, bind_eq_ok.mpr ⟨d₅, h₅, rfl⟩⟩⟩⟩⟩
  have hwords : (commonWords log d₅).toList = committedWords log heap := by
    rw [toList_eventData]
    simp [commonWords, e₅, e₄, d₃, d₂, d₁, committedWords, plugStage, schedulingStage]
  rw [← hwords]
  exact bind_eq_ok.mpr ⟨_, hdata, rfl⟩

/-- Any other record is dropped. -/
theorem doEventRq_dropped (h : log.rqSub.plug = 0 ∨ log.rqSub.dType = .unknownDispatch) (heap : EventData) :
    doEventRq true log heap = .error .dropped := by
  by_cases hp : log.rqSub.plug = 0
  · have hstart : startWords true log heap = .error .dropped := by
      unfold startWords
      rw [if_neg (by rw [hp]; decide)]
      rfl
    simp [doEventRq, eventData, hstart, bind, Except.bind]
  · have hu := h.resolve_left hp
    have hpos : 0 < log.rqSub.plug := UInt64.pos_iff_ne_zero.mpr hp
    have hdispatch (d : EventData) : dispatchWord log d = .error .dropped := by
      unfold dispatchWord
      rw [if_neg (by rw [hu]; decide), if_pos hu]
    simp [doEventRq, eventData, startWords_release hpos, schedWords_release, hdispatch, bind, Except.bind]

end Release

/-! ## The two executions -/

/-- With both tags known, no word of the array is the allocator's. -/
theorem committedWords_of_tagged {log : RqTraceEvent} (hs : log.rqSub.sType ≠ .unknownSchedu)
    (hd : KnownDrive log) (heap heap' : EventData) : committedWords log heap = committedWords log heap' := by
  have hdrive : log.rqComp.drive ≠ .error := by
    rcases hd with hd | hd <;> rw [hd] <;> decide
  unfold committedWords plugStage schedulingStage driveStage
  simp only [if_pos hs, if_neg hdrive]

/-- Rows are equal only if their words are. -/
theorem committedWords_inj {log : RqTraceEvent} (hp : 0 < log.rqSub.plug)
    (hu : log.rqSub.dType ≠ .unknownDispatch) {heap heap' : EventData}
    (h : doEventRq true log heap = doEventRq true log heap') :
    committedWords log heap = committedWords log heap' := by
  rw [doEventRq_release hp hu, doEventRq_release hp hu] at h
  have hrow (heap : EventData) : (commitWords blkFormats "blk_trace_record" (committedWords log heap)).row =
      wordsBytes (committedWords log heap) := commitWords_row rfl
  have hbytes : wordsBytes (committedWords log heap) = wordsBytes (committedWords log heap') := by
    rw [← hrow, ← hrow, Except.ok.inj h]
  apply List.ext_getElem
  · rfl
  · intro k hk hk'
    rw [← wordAt_wordsBytes _ k hk, ← wordAt_wordsBytes _ k hk', hbytes]

/-- **A record determines its row exactly if both of its tags are known, or it commits none.** -/
theorem determined_iff_assigned (log : RqTraceEvent) : Determined log ↔ Assigned log := by
  constructor
  · intro h
    by_contra hna
    obtain ⟨hp, hu, htags⟩ : log.rqSub.plug ≠ 0 ∧ log.rqSub.dType ≠ .unknownDispatch ∧
        ¬ (log.rqSub.sType ≠ .unknownSchedu ∧ KnownDrive log) := by
      simpa [Assigned, not_or] using hna
    -- allocations that differ in every word
    have hwords := committedWords_inj (UInt64.pos_iff_ne_zero.mpr hp) hu
      (h (Vector.replicate 12 0) (Vector.replicate 12 1))
    have hdiff (k : Fin 12) : (Vector.replicate 12 (0 : UInt64)).get k ≠ (Vector.replicate 12 1).get k := by
      revert k
      decide
    apply htags
    constructor
    · intro hs
      have hplug := congrArg (fun ws => ws[3]?) hwords
      simp only [committedWords, plugStage, hs, List.getElem?_cons_succ, List.getElem?_cons_zero] at hplug
      exact hdiff 3 (Option.some.inj hplug)
    · by_contra hd
      have herror : log.rqComp.drive = .error := by
        cases hdrive : log.rqComp.drive with
        | error => rfl
        | nvme => exact absurd (Or.inl hdrive) hd
        | scsi => exact absurd (Or.inr hdrive) hd
      have hexec := congrArg (fun ws => ws[6]?) hwords
      simp only [committedWords, driveStage, herror, List.getElem?_cons_succ,
        List.getElem?_cons_zero] at hexec
      exact hdiff 6 (Option.some.inj hexec)
  · rintro hassigned heap heap'
    by_cases hp : log.rqSub.plug = 0
    · rw [doEventRq_dropped (.inl hp), doEventRq_dropped (.inl hp)]
    · by_cases hu : log.rqSub.dType = .unknownDispatch
      · rw [doEventRq_dropped (.inr hu), doEventRq_dropped (.inr hu)]
      · obtain ⟨hs, hd⟩ := (hassigned.resolve_left hp).resolve_left hu
        have hpos := UInt64.pos_iff_ne_zero.mpr hp
        rw [doEventRq_release hpos hu, doEventRq_release hpos hu, committedWords_of_tagged hs hd heap heap']

/-! ## Two requests with an unknown tag -/

/-- A plugged request of process `7` on `bio` `1`, from its submission to its completion: `probes` stand
    between the plug and the completion. -/
def pluggedRequest (probes : List BlkProbe) : List BlkProbe :=
  let t : Task := ⟨7, 7, 1, none⟩
  [.blkMqSubmitBio t 1 0 10 true, .rqQosTrack t 2 1 0 20, .blkAddRqToPlug 2 30] ++ probes ++
    [.blkAccountIoDone 2 80 0 8 1 true]

/-- Taken from the software queue, without a scheduler insert. -/
def fromCtx : List BlkProbe :=
  pluggedRequest [.blkMqDequeueFromCtx 2 40, .nvmeQueueRq 2 (CharArray.zero 32) 50, .nvmeCompleteRq 2 70]

/-- Issued directly to a driver that is neither `nvme` nor `scsi`. -/
def otherDriver : List BlkProbe := pluggedRequest [.blkMqIssueDirectly 2 40]

/-- The tracer emits records of both, and neither determines its row. -/
theorem not_determined_untagged :
    (∃ log, .rqTrace log ∈ (blkTracer .off).emit fromCtx ∧ ¬ Determined log) ∧
      ∃ log, .rqTrace log ∈ (blkTracer .off).emit otherDriver ∧ ¬ Determined log := by
  have hundetermined (evs : List BlkProbe) (heap heap' : EventData)
      (h : ∃ r ∈ (blkTracer .off).emit evs, ∃ log ∈ r.rqTrace?,
        doEventRq true log heap ≠ doEventRq true log heap') :
      ∃ log, .rqTrace log ∈ (blkTracer .off).emit evs ∧ ¬ Determined log := by
    obtain ⟨r, hr, log, hlog, hne⟩ := h
    cases r with
    | bioEnter b => exact absurd hlog (by simp [BlkRecord.rqTrace?])
    | rqTrace log' =>
        obtain rfl : log' = log := Option.some.inj hlog
        exact ⟨log', hr, fun hdet => hne (hdet heap heap')⟩
  exact ⟨hundetermined _ (Vector.replicate 12 0) (Vector.replicate 12 1) (by decide),
    hundetermined _ (Vector.replicate 12 0) (Vector.replicate 12 1) (by decide)⟩

end StorTrace.BlockTrace
