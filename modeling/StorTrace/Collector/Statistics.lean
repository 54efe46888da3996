import StorTrace.Logger.Format
import StorTrace.Collector.TimeAq

/-!
# `Collector.Statistics` — the statistics of the block report (`get_dis` to `get_merge_rate`)

Distributions and windowed statistics of a log that is in memory. They are made from the end times of the
requests, each with the index of its row, and from columns of the rows.

A statistic that is not made ends in a `Fault`. The windowed collectors report nothing by themselves, so
`commitDlog` is a `commit` that says how it goes wrong in either build.
-/

namespace StorTrace

/-- How a call ends that does not return: with an access outside a vector, an `int` that overflows or a
    division by zero, or, in a debug build, at a `FATAL` line. -/
inductive Fault
  | undefined
  | fatal (msg : String)
deriving DecidableEq

/-- `v[i]`. -/
def vecAt {α : Type} (v : List α) (i : Nat) : Except Fault α :=
  match v[i]? with
  | some a => .ok a
  | none => .error .undefined

/-! ## Commits -/

/-- How a `commit` of index `index` goes wrong: `DLOG_IF(FATAL, index < 0)` comes before the access. -/
def commitFault (ndebug : Bool) (interval : UInt64) (index : Int) : Fault :=
  if ndebug = false ∧ interval ≠ 0 ∧ index < 0 then .fatal "order error" else .undefined

/-- `TimeThroughputPmc::commit`. -/
def TimeThroughputPmc.commitDlog (ndebug : Bool) (c : TimeThroughputPmc) (tp data : UInt64) :
    Except Fault TimeThroughputPmc :=
  match c.commit? tp data with
  | some c' => .ok c'
  | none => .error (commitFault ndebug c.interval ((c.align tp).index tp))

/-- `TimeAvgPmc::commit`. -/
def TimeAvgPmc.commitDlog (ndebug : Bool) (c : TimeAvgPmc) (tp data : UInt64) : Except Fault TimeAvgPmc :=
  match c.commit? tp data with
  | some c' => .ok c'
  | none => .error (commitFault ndebug c.interval ((c.align tp).index tp))

/-! ## Distributions -/

/-- The JSON record of `get_dis`. -/
structure DisJson where
  name : String
  maxValue : UInt64
  minValue : UInt64
  distribution : List Int
deriving DecidableEq

def maxOf (latency : List UInt64) : UInt64 := latency.foldl (fun maxV v => if v > maxV then v else maxV) 0

def minOf (latency : List UInt64) : UInt64 :=
  latency.foldl (fun minV v => if v < minV then v else minV) 0x7fffffffffffffff

/-- The width of a bucket. -/
def disStep (maxV minV : UInt64) : UInt64 :=
  let step := (maxV - minV) / 100
  if step = 0 then 1 else step

/-- The bucket of a value; the last one takes what is left over. -/
def disIndex (minV step v : UInt64) : Int :=
  let index := toInt ((v - minV) / step)
  if index ≥ 100 then 100 else index

/-- `bucket[index]++`; the number of rows is an `int`, so no counter overflows (`getDisRun_eq`). -/
def bump (bucket : List Int) (index : Int) : Except Fault (List Int) :=
  if 0 ≤ index ∧ index < bucket.length then .ok (bucket.modify index.toNat (· + 1)) else .error .undefined

/-- `get_dis`. -/
def getDis (disName : String) (latency : List UInt64) : Except Fault DisJson := do
  let maxV := maxOf latency
  let minV := minOf latency
  let step := disStep maxV minV
  let bucket ← latency.foldlM (fun bucket v => bump bucket (disIndex minV step v)) (List.replicate 101 0)
  return ⟨disName, maxV, minV, bucket⟩

/-! ## Statistics over time -/

section Windowed

variable (ndebug : Bool) (pmc : UInt64) (name : String) (timeSeq : List (UInt64 × Nat))

/-- `get_avg_seq`. -/
def getAvgSeq (latency : List UInt64) : Except Fault AvgsJson := do
  let avgPmc ← (List.range latency.length).foldlM (fun avgPmc i => do
    let t ← vecAt timeSeq i
    let data ← vecAt latency t.2
    avgPmc.commitDlog ndebug t.1 data) (TimeAvgPmc.new pmc)
  return avgPmc.getJson name

/-- `get_IO_pmc`. -/
def getIOPmc : Except Fault SeqJson := do
  let ioPmc ← timeSeq.foldlM (fun ioPmc t => ioPmc.commitDlog ndebug t.1 1) (TimeThroughputPmc.new pmc)
  return ioPmc.getJson name

/-- The JSON record of `get_rw_rate`. -/
structure RwRateJson where
  rRate : List Float32
  wRate : List Float32
  name : String

/-- The body of the loop over the requests, for a request of type `ioType`. -/
def rwCommit (rw : TimeThroughputPmc × TimeThroughputPmc) (tp : UInt64) (ioType : Int) :
    Except Fault (TimeThroughputPmc × TimeThroughputPmc) :=
  if ioType = 0 then do
    let readPmc ← rw.1.commitDlog ndebug tp 1
    return (readPmc, rw.2)
  else if ioType = 1 then do
    let writePmc ← rw.2.commitDlog ndebug tp 1
    return (rw.1, writePmc)
  else if ndebug then .ok rw
  else .error (.fatal "Catching unknown type IO")

/-- The two rates of a window: the read rate is the share of the writes, and the other way around. -/
def rwRate (rCount wCount : Float32) : Float32 × Float32 :=
  let allCount := rCount + wCount
  if rCount > 1 ∧ wCount > 1 then (wCount / allCount, rCount / allCount) else (0, 0)

/-- `get_rw_rate`: both collectors are aligned at the first end time. -/
def getRwRate (ioTypes : List Int) : Except Fault RwRateJson := do
  let first ← vecAt timeSeq 0
  let readPmc ← (TimeThroughputPmc.new pmc).commitDlog ndebug first.1 1
  let writePmc ← (TimeThroughputPmc.new pmc).commitDlog ndebug first.1 1
  let rw ← timeSeq.foldlM (fun rw t => do
    let ioType ← vecAt ioTypes t.2
    rwCommit ndebug rw t.1 ioType) (readPmc, writePmc)
  let rates := List.zipWith (fun r w => rwRate r.toFloat32 w.toFloat32) rw.1.pmcData rw.2.pmcData
  return ⟨rates.map Prod.fst, rates.map Prod.snd, name⟩

/-- The JSON record of `get_merge_rate`. -/
structure MergeRateJson where
  rate : List Float32

/-- The share of the requests of a window that were merged. -/
def mergedShare (all merged : Float32) : Float32 := if all > 1 then (all - merged) / all else 0

/-- `get_merge_rate`: the requests before merging may have fewer windows than those after. -/
def getMergeRate (before : List UInt64) : Except Fault MergeRateJson := do
  let ioBefore ← before.foldlM (fun ioBefore t => ioBefore.commitDlog ndebug t 1) (TimeThroughputPmc.new pmc)
  let first ← vecAt before 0
  let ioAfter ← (TimeThroughputPmc.new pmc).commitDlog ndebug first 1
  let ioAfter ← timeSeq.foldlM (fun ioAfter t => ioAfter.commitDlog ndebug t.1 1) ioAfter
  let rate ← (List.range ioAfter.pmcData.length).mapM (fun i => do
    let all ← vecAt ioBefore.pmcData i
    let merged ← vecAt ioAfter.pmcData i
    return mergedShare all.toFloat32 merged.toFloat32)
  return ⟨rate⟩

end Windowed

end StorTrace
