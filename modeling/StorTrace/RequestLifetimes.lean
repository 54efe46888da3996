import StorTrace.BlockTrace.Lifetime
import StorTrace.Ext4Dio.RqCache

/-!
# `RequestLifetimes` — do request records keep the lifetimes of a reused request apart?

Both tracers follow requests through a map `rq_cache` keyed by the request pointer, and both delete an
entry at `blk_account_io_done` only when the record could be reserved. An entry that is left behind is
cleared by the next **accepted** `__rq_qos_track` on the pointer, but stamped on by a request whose task
the filters reject.
-/

namespace StorTrace

open BlockTrace (BlkProbe BlkRecord blkTracer rqTracer)
open Ext4Dio (DioConfig InfoProbe InfoRecord infoTracer rqInfoTracer)

/-- **In both programs, no request record mixes two lifetimes and no completion leaves an entry behind,
    exactly in the runs whose completions all reserve their record when they find an entry.** -/
theorem oneLifetime_iff_reserved (filter : FilterConfig) (cfg : DioConfig) :
    (∀ evs : List BlkProbe, Run.AllSteps (rqTracer filter).OneLifetime evs ↔
      Run.AllSteps (rqTracer filter).ClosesReserved evs) ∧
    ∀ evs : List InfoProbe, Run.AllSteps (rqInfoTracer cfg).OneLifetime evs ↔
      Run.AllSteps (rqInfoTracer cfg).ClosesReserved evs :=
  ⟨Tracer.oneLifetime_iff, Tracer.oneLifetime_iff⟩

/-! ## A lost record -/

/-- A completion that leaves an entry behind is not of one lifetime. -/
theorem not_oneLifetime_of_left {σ ε ο κ ν τ : Type} {M : Machine σ ε ο} {T : Tracer M κ ν τ}
    (pre : List ε) {post : List ε} {e : ε} (k : κ) (hc : T.closes e k)
    (hleft : T.get (M.exec (pre ++ [e])) k ≠ none) : ¬ Run.AllSteps T.OneLifetime (pre ++ e :: post) :=
  fun h => hleft ((Run.allSteps_iff.mp h pre e post rfl).2 k hc)

/-- Only process `7` is traced. -/
def onlyProcess7 : FilterConfig := { FilterConfig.off with usingPidFilter := true, tpid := 7 }

/-- Request `2` of process `7`, tracked at `20` and completed at `30`. -/
def blkFirstLife (reserve : Bool) : List BlkProbe :=
  let t : Task := ⟨7, 7, 1, none⟩
  [.blkMqSubmitBio t 1 0 10 true, .rqQosTrack t 2 1 1 20, .blkAccountIoDone 2 30 0 8 1 reserve]

/-- Request `2` of process `8`, from `40` to `60`. -/
def blkSecondLife : List BlkProbe :=
  [.rqQosTrack ⟨8, 8, 1, none⟩ 2 1 1 40, .blkAddRqToPlug 2 50, .blkAccountIoDone 2 60 0 8 1 true]

/-- The same two requests in the info tracer, the first of a direct I/O of process `7`. -/
def infoFirstLife (reserve : Bool) : List InfoProbe :=
  let t : Task := ⟨7, 7, 1, none⟩
  [.ext4DioWriteIter t 1 100 (CharArray.zero 16) 5, .iomapDioBioActor t 5 1 10, .rqQosTrack t 2 5 20,
    .blkAccountIoDone 2 30 0 9 8 1 reserve]

def infoSecondLife : List InfoProbe :=
  [.rqQosTrack ⟨8, 8, 1, none⟩ 2 0 40, .nvmePciCompleteRq 2 50, .blkAccountIoDone 2 60 0 9 8 1 true]

/-- When the first record is lost, the request of process `8` is reported with the start of process `7`'s
    request, in both programs. -/
theorem not_oneLifetime_lostRecord :
    (¬ Run.AllSteps (rqTracer onlyProcess7).OneLifetime (blkFirstLife false ++ blkSecondLife) ∧
      ∃ r ∈ (blkTracer onlyProcess7).emit (blkFirstLife false ++ blkSecondLife),
        ∃ v ∈ r.rqTrace?, (v.rqStart, v.rqSub.plug, v.rqComp.accountIo) = (20, 50, 60)) ∧
    ¬ Run.AllSteps (rqInfoTracer ⟨onlyProcess7, false, .empty⟩).OneLifetime
        (infoFirstLife false ++ infoSecondLife) ∧
      ∃ r ∈ (infoTracer ⟨onlyProcess7, false, .empty⟩).emit (infoFirstLife false ++ infoSecondLife),
        ∃ v ∈ r.rqInfo?, (v.rqBioStart, v.rqComp.path.pciCompleteRq, v.rqComp.accountIo) = (20, 50, 60) := by
  refine ⟨⟨?_, by decide⟩, ?_, by decide⟩
  · exact not_oneLifetime_of_left ((blkFirstLife false).take 2) 2 rfl (by decide)
  · exact not_oneLifetime_of_left ((infoFirstLife false).take 3) 2 rfl (by decide)

end StorTrace
