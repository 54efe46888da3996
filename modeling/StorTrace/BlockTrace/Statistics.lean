import StorTrace.BlockTrace.Report
import StorTrace.Collector.Statistics

/-!
# `BlockTrace.Statistics` — the statistics of the block report (`process_blk_trace_log`)

The rows are spread over columns, the end times are sorted with the indices of their rows, and one JSON file
is dumped after another until one cannot be made. `std::sort` compares times only and is not stable: what it
leaves is any order of the pairs in which the times do not decrease.
-/

namespace StorTrace.BlockTrace

/-- `struct bio_enter_record`. -/
structure BioEnterRecord where
  bioPtr : UInt64
  tp : UInt64
deriving DecidableEq

/-! ## Columns -/

/-- `dis_list`. -/
def disList : List String :=
  ["alloc_request", "plug", "scheduling", "dispatch", "nvme_exec", "scsi_exec", "nvme_verify", "scsi_verify", "sum"]

/-- The vectors `latency[0]` to `latency[8]`. -/
def latencies (table : List BlkTraceRecord) : List (List UInt64) :=
  [table.map (·.allocRequest), table.map (·.plug), table.map (·.scheduling), table.map (·.dispatch),
    table.map (·.nvmeExec), table.map (·.scsiExec), table.map (·.nvmeVerify), table.map (·.scsiVerify),
    latencySums table]

/-- `io_types`. -/
def ioTypes (table : List BlkTraceRecord) : List Int := table.map (fun r => toInt r.ioDirection)

/-- What `std::sort` may leave of `blk_end`. -/
structure SortedByTime (blkEnd sorted : List (TimeStramp × Nat)) : Prop where
  perm : sorted.Perm blkEnd
  ordered : sorted.Pairwise (fun record1 record2 => record1.1 ≤ record2.1)

/-- A row as it stands in memory, `common` last. -/
def BlkTraceRecord.bytes (r : BlkTraceRecord) : List UInt8 :=
  wordsBytes [r.bioEnter, r.allocRequest, r.ioDirection, r.plug, r.scheduling, r.dispatch, r.nvmeExec, r.scsiExec,
    r.nvmeVerify, r.scsiVerify] ++ r.common

/-- `common_name`. A name that has no NUL is read on into the rows that follow. -/
def commonName : List BlkTraceRecord → Option (List (List UInt8))
  | [] => some []
  | r :: rest => do
      let name ← stdString (r.common ++ rest.flatMap BlkTraceRecord.bytes)
      let names ← commonName rest
      return name :: names

/-- Names that end within their fields can be read. -/
theorem commonName_ne_none {table : List BlkTraceRecord} (h : ∀ r ∈ table, 0 ∈ r.common) : commonName table ≠ none := by
  induction table with
  | nil => exact Option.some_ne_none []
  | cons r rest ih =>
      obtain ⟨hr, hrest⟩ := List.forall_mem_cons.mp h
      obtain ⟨names, hnames⟩ := Option.ne_none_iff_exists'.mp (ih hrest)
      simp [commonName, stdString_append hr, hnames]

/-- The loop over the rows is defined: its counter is an `int`, and every name ends within the table. -/
def RowsDefined (table : List BlkTraceRecord) : Prop :=
  (table.length : Int) ≤ intMax ∧ commonName table ≠ none

instance (table : List BlkTraceRecord) : Decidable (RowsDefined table) := inferInstanceAs (Decidable (_ ∧ _))

/-- `before_merge`; the counter of its loop is an `int` as well. -/
def beforeMerge (bioEnter : List BioEnterRecord) : Except Fault (List UInt64) :=
  if (bioEnter.length : Int) ≤ intMax then .ok (bioEnter.map (·.tp)) else .error .undefined

/-! ## Files -/

/-- What is dumped. -/
inductive BlkJson
  | ioPmc (json : SeqJson)
  | dis (json : DisJson)
  | avgs (json : AvgsJson)
  | rwRate (json : RwRateJson)
  | mergeRate (json : MergeRateJson)

/-- The files a run dumped, and what ended it early. -/
structure Dumped where
  files : List (String × BlkJson)
  fault : Option Fault

/-- Dump one file after another, each made when it is its turn. -/
def dumpJsons : List (String × Except Fault BlkJson) → Dumped
  | [] => ⟨[], none⟩
  | (_, .error fault) :: _ => ⟨[], some fault⟩
  | (name, .ok json) :: rest => ⟨(name, json) :: (dumpJsons rest).files, (dumpJsons rest).fault⟩

section Process

variable (ndebug : Bool) (pmcInv : UInt32) (table : List BlkTraceRecord) (bioEnter : List BioEnterRecord)
  (blkEnd : List (TimeStramp × Nat))

/-- The two files of a column. -/
def latencyJsons (name : String) (latency : List UInt64) : List (String × Except Fault BlkJson) :=
  [(name ++ "_dis", (getDis name latency).map .dis),
    (name ++ "_avg", (getAvgSeq ndebug pmcInv.toUInt64 name blkEnd latency).map .avgs)]

/-- The files in the order they are dumped. -/
def blkJsons : List (String × Except Fault BlkJson) :=
  ("sum_io_pmc", (getIOPmc ndebug pmcInv.toUInt64 "sum" blkEnd).map .ioPmc) ::
    (disList.zip (latencies table)).flatMap (fun l => latencyJsons ndebug pmcInv blkEnd l.1 l.2) ++
    [("Read_write_percent",
        (getRwRate ndebug pmcInv.toUInt64 "Read_write_percent" blkEnd (ioTypes table)).map .rwRate),
      ("merge_rate",
        (beforeMerge bioEnter >>= getMergeRate ndebug pmcInv.toUInt64 blkEnd).map .mergeRate)]

/-- `process_blk_trace_log` on the tables it loaded and on what `std::sort` left. -/
def processBlkTraceLog : Dumped :=
  if RowsDefined table then dumpJsons (blkJsons ndebug pmcInv table bioEnter blkEnd)
  else ⟨[], some .undefined⟩

end Process

end StorTrace.BlockTrace
