import StorTrace.BlockTrace.Statistics
import StorTrace.Collector.TimeOrder

/-!
# `BlockTrace.RowOrder` — does the block report depend on the order of the log?

The rows of the log are permuted, and the sort of the end times may leave rows of one end time in any order.
`processBlkTraceLog_perm` says that the same files are dumped, with the same contents, and that a run that
stops early stops at the same file.

There are two exceptions. What a run stops at may be another fault in a debug build: it aborts at a row whose
direction is neither a read nor a write, and that row may come before or after one of the same end time at which the
collector writes outside its array. And a task name without a NUL is read on into the rows that follow, so it may be
the order that decides whether it ends within the table.
-/

namespace StorTrace.BlockTrace

open SortedFold

/-! ## The rows in the order of their end times -/

/-- The end time of a request. -/
def endTime (r : BlkTraceRecord) : TimeStramp := r.bioEnter + (stageLatencies r).foldl (· + ·) 0

/-- The type of a request, as it is looked up. -/
def ioType (r : BlkTraceRecord) : Int := toInt r.ioDirection

variable {table table' : List BlkTraceRecord} {ends ends' : List (TimeStramp × Nat)}

/-- `blk_end` lists the rows of the table. -/
theorem blkEnd_refersTo (table : List BlkTraceRecord) :
    List.Forall₂ (RefersTo endTime table) (blkEnd table) table := by
  have hlen : (blkEnd table).length = table.length := by simp [blkEnd, latencySums]
  rw [List.forall₂_iff_get]
  refine ⟨hlen, ?_⟩
  intro i _ hi
  simp [RefersTo, blkEnd, latencySums, endTime, List.getElem?_eq_getElem hi]

/-- What the sort leaves lists them in the order of their end times. -/
theorem SortedByTime.exists_rows (h : SortedByTime (blkEnd table) ends) :
    ∃ rows, rows.Perm table ∧ rows.Pairwise (fun r r' => endTime r ≤ endTime r') ∧
      List.Forall₂ (RefersTo endTime table) ends rows := by
  obtain ⟨rows, hrows, hperm⟩ := List.perm_comp_forall₂ h.perm (blkEnd_refersTo table)
  refine ⟨rows, hperm, ?_, hrows⟩
  rw [← List.pairwise_map (f := endTime) (R := (· ≤ ·)), ← map_fst_eq hrows]
  exact List.pairwise_map.mpr h.ordered

/-- The columns of the table. -/
def blkColumns : List (BlkTraceRecord → UInt64) :=
  [(·.allocRequest), (·.plug), (·.scheduling), (·.dispatch), (·.nvmeExec), (·.scsiExec), (·.nvmeVerify),
    (·.scsiVerify), fun r => (stageLatencies r).foldl (· + ·) 0]

theorem latencies_eq (table : List BlkTraceRecord) : latencies table = blkColumns.map (fun column => table.map column) :=
  rfl

/-! ## Dumps -/

/-- **The same was dumped**, and a run that stopped early stopped at the same file. The fault is the same
    too, if it may not differ. -/
structure SameDump (mayDiffer : Prop) (d d' : Dumped) : Prop where
  files : d.files = d'.files
  stops : d.fault = none ↔ d'.fault = none
  fault : ¬ mayDiffer → d.fault = d'.fault

theorem SameDump.refl (mayDiffer : Prop) (d : Dumped) : SameDump mayDiffer d d := ⟨rfl, Iff.rfl, fun _ => rfl⟩

/-- Files under the same names, whose contents agree. -/
theorem sameDump_dumpJsons {mayDiffer : Prop} {l l' : List (String × Except Fault BlkJson)}
    (h : List.Forall₂ (fun f f' => f.1 = f'.1 ∧ Agree (SameFault mayDiffer) f.2 f'.2) l l') :
    SameDump mayDiffer (dumpJsons l) (dumpJsons l') := by
  induction h with
  | nil => exact SameDump.refl _ _
  | @cons f f' rest rest' hf _ ih =>
      obtain ⟨name, json⟩ := f
      obtain ⟨name', json'⟩ := f'
      obtain ⟨rfl, hagree⟩ := hf
      cases hagree with
      | ok json =>
          show SameDump _ ⟨(name, json) :: (dumpJsons rest).files, (dumpJsons rest).fault⟩
            ⟨(name, json) :: (dumpJsons rest').files, (dumpJsons rest').fault⟩
          exact ⟨by rw [ih.files], ih.stops, ih.fault⟩
      | @error f f' hff =>
          show SameDump _ ⟨[], some f⟩ ⟨[], some f'⟩
          refine ⟨rfl, by simp, ?_⟩
          intro hno
          show some f = some f'
          rw [hff.resolve_right hno]

/-! ## The report -/

/-- In a debug build, a row of an unknown type ends at the time of one of a known type. -/
def MayDiffer (ndebug : Bool) (table : List BlkTraceRecord) : Prop :=
  ndebug = false ∧ TiedUnknown endTime ioType table

section Report

variable {ndebug : Bool} {pmcInv : UInt32} {rows rows' : List BlkTraceRecord}

/-- The files of a column are the same. -/
theorem latencyJsons_congr (hr : List.Forall₂ (RefersTo endTime table) ends rows)
    (hr' : List.Forall₂ (RefersTo endTime table') ends' rows') (hperm : rows.Perm table) (hperm' : rows'.Perm table')
    (h : Reordered endTime rows rows') (name : String) (column : BlkTraceRecord → UInt64) :
    latencyJsons ndebug pmcInv ends name (table.map column) =
      latencyJsons ndebug pmcInv ends' name (table'.map column) := by
  have htable : table.Perm table' := hperm.symm.trans (h.perm.trans hperm')
  have hlen : ends.length = table.length := hr.length_eq.trans hperm.length_eq
  have hlen' : ends'.length = table'.length := hr'.length_eq.trans hperm'.length_eq
  rw [latencyJsons, latencyJsons, getDis_perm (htable.map column), getAvgSeq_eq hr hlen, getAvgSeq_eq hr' hlen',
    avgs_reordered h]

/-- So are the rates of reads and writes, up to the fault. -/
theorem getRwRate_agree (hr : List.Forall₂ (RefersTo endTime table) ends rows)
    (hr' : List.Forall₂ (RefersTo endTime table') ends' rows') (hperm : rows.Perm table)
    (h : Reordered endTime rows rows') (pmc : UInt64) (name : String) :
    Agree (SameFault (MayDiffer ndebug table)) (getRwRate ndebug pmc name ends (ioTypes table))
      (getRwRate ndebug pmc name ends' (ioTypes table')) := by
  have htied : TiedUnknown endTime ioType rows → TiedUnknown endTime ioType table := by
    rintro ⟨r, hmem, r', hmem', htie⟩
    exact ⟨r, hperm.subset hmem, r', hperm.subset hmem', htie⟩
  have hR := sameFault_equivalence (MayDiffer ndebug table)
  show Agree _ (getRwRate ndebug pmc name ends (table.map ioType)) (getRwRate ndebug pmc name ends' (table'.map ioType))
  rw [getRwRate_eq hr, getRwRate_eq hr', ← h.map_time]
  -- the two runs are the same up to the loop over the rows
  refine (Agree.refl hR _).bind (fun first _ => (Agree.refl hR _).bind (fun c hc => ?_))
  have hstarted : c.started = true := by
    rw [TimeThroughputPmc.commitDlog_ok hc]
    exact TimeThroughputPmc.started_commit
  refine Agree.bind ?_ (fun rw _ => Agree.refl hR _)
  apply (rwRates_reordered h ioType hstarted).mono
  intro f f' hff
  exact hff.imp id (And.imp id htied)

/-- **The order of the log does not matter** to the block report, whichever way the sort orders rows of one
    end time, if it does not decide whether the task names can be read. -/
theorem processBlkTraceLog_perm (bioEnter : List BioEnterRecord) (hperm : table'.Perm table)
    (hnames : commonName table = none ↔ commonName table' = none) (h : SortedByTime (blkEnd table) ends)
    (h' : SortedByTime (blkEnd table') ends') :
    SameDump (MayDiffer ndebug table) (processBlkTraceLog ndebug pmcInv table bioEnter ends)
      (processBlkTraceLog ndebug pmcInv table' bioEnter ends') := by
  obtain ⟨rows, hp, hsort, hr⟩ := h.exists_rows
  obtain ⟨rows', hp', hsort', hr'⟩ := h'.exists_rows
  have hre : Reordered endTime rows rows' := ⟨hp.trans (hperm.symm.trans hp'.symm), hsort, hsort'⟩
  have htimes : ends.map Prod.fst = ends'.map Prod.fst := by
    rw [map_fst_eq hr, map_fst_eq hr', hre.map_time]
  have hdefined : RowsDefined table ↔ RowsDefined table' := by
    rw [RowsDefined, RowsDefined, hperm.length_eq, Ne, Ne, hnames]
  unfold processBlkTraceLog
  by_cases hd : RowsDefined table
  · rw [if_pos hd, if_pos (hdefined.mp hd)]
    apply sameDump_dumpJsons
    have hR := sameFault_equivalence (MayDiffer ndebug table)
    have hrefl (l : List (String × Except Fault BlkJson)) :
        List.Forall₂ (fun f f' => f.1 = f'.1 ∧ Agree (SameFault (MayDiffer ndebug table)) f.2 f'.2) l l :=
      List.forall₂_same.mpr (fun f _ => ⟨rfl, Agree.refl hR _⟩)
    have hcolumns : (disList.zip (latencies table)).flatMap (fun l => latencyJsons ndebug pmcInv ends l.1 l.2) =
        (disList.zip (latencies table')).flatMap (fun l => latencyJsons ndebug pmcInv ends' l.1 l.2) := by
      rw [latencies_eq, latencies_eq, List.zip_map_right, List.zip_map_right, List.flatMap_map, List.flatMap_map]
      exact List.flatMap_congr (fun l _ => latencyJsons_congr hr hr' hp hp' hre l.1 l.2)
    unfold blkJsons
    rw [getIOPmc_congr htimes, getMergeRate_congr htimes, hcolumns]
    refine List.rel_append (hrefl _) (List.Forall₂.cons ⟨rfl, ?_⟩ (hrefl _))
    exact (getRwRate_agree hr hr' hp hre pmcInv.toUInt64 "Read_write_percent").map BlkJson.rwRate
  · rw [if_neg hd, if_neg (fun hd' => hd (hdefined.mpr hd'))]
    exact SameDump.refl _ _

end Report

/-- A row of a task without a name, whose request took no time. -/
def instantRow (bioEnter ioDirection : UInt64) : BlkTraceRecord :=
  ⟨bioEnter, 0, ioDirection, 0, 0, 0, 0, 0, 0, 0, List.replicate 16 0⟩

/-- Two reads that are logged in the order of their end times, and the other way around. -/
theorem processBlkTraceLog_perm_two_reads :
    SameDump (MayDiffer false [instantRow 0 0, instantRow 5 0])
      (processBlkTraceLog false 1 [instantRow 0 0, instantRow 5 0] [⟨1, 0⟩] [(0, 0), (5, 1)])
      (processBlkTraceLog false 1 [instantRow 5 0, instantRow 0 0] [⟨1, 0⟩] [(0, 1), (5, 0)]) :=
  processBlkTraceLog_perm [⟨1, 0⟩] (List.Perm.swap _ _ []) (by decide) ⟨List.Perm.refl _, by decide⟩
    ⟨List.Perm.swap _ _ [], by decide⟩

/-- A read, one that enlarges the array of the reads, then a write past the end of the other array and a row
    of type `7`, both at one end time. -/
def tiedRows : List BlkTraceRecord := [instantRow 0 0, instantRow 40 0, instantRow 100 1, instantRow 100 7]

/-- **The order of the log never matters** to the block report of a build, nor does the order of equal end times. -/
def OrderIndependent (ndebug : Bool) : Prop :=
  ∀ (pmcInv : UInt32) (table table' : List BlkTraceRecord) (bioEnter : List BioEnterRecord)
    (ends ends' : List (TimeStramp × Nat)), table ≠ [] → table'.Perm table → SortedByTime (blkEnd table) ends →
    SortedByTime (blkEnd table') ends' →
    processBlkTraceLog ndebug pmcInv table bioEnter ends = processBlkTraceLog ndebug pmcInv table' bioEnter ends'

/-- A debug build may find either of the two first. -/
theorem not_orderIndependent_tied : ¬ OrderIndependent false := by
  intro h
  have hends : blkEnd tiedRows = [(0, 0), (40, 1), (100, 2), (100, 3)] := by decide
  have hsorted : SortedByTime (blkEnd tiedRows) [(0, 0), (40, 1), (100, 2), (100, 3)] :=
    ⟨by rw [hends], by decide⟩
  have hsorted' : SortedByTime (blkEnd tiedRows) [(0, 0), (40, 1), (100, 3), (100, 2)] := by
    refine ⟨?_, by decide⟩
    rw [hends]
    exact ((List.Perm.swap _ _ []).cons _).cons _
  have hfault : (processBlkTraceLog false 1 tiedRows [] [(0, 0), (40, 1), (100, 2), (100, 3)]).fault =
      some .undefined := by decide +kernel
  have hfault' : (processBlkTraceLog false 1 tiedRows [] [(0, 0), (40, 1), (100, 3), (100, 2)]).fault =
      some (.fatal "Catching unknown type IO") := by decide +kernel
  have hsame := h 1 tiedRows tiedRows [] _ _ (List.cons_ne_nil _ _) (List.Perm.refl _) hsorted hsorted'
  rw [← hsame, hfault] at hfault'
  exact absurd hfault' (by decide)

/-- A row of a task whose name fills its field. -/
def unendedRow : BlkTraceRecord := { instantRow 0 0 with common := List.replicate 16 97 }

/-- Its name ends in a row that follows, or nowhere: one order dumps every file, the other none. -/
theorem not_orderIndependent_unended : ¬ OrderIndependent true := by
  intro h
  have hends : blkEnd [unendedRow, instantRow 5 0] = [(0, 0), (5, 1)] := by decide
  have hends' : blkEnd [instantRow 5 0, unendedRow] = [(5, 0), (0, 1)] := by decide
  have hsorted : SortedByTime (blkEnd [unendedRow, instantRow 5 0]) [(0, 0), (5, 1)] := ⟨by rw [hends], by decide⟩
  have hsorted' : SortedByTime (blkEnd [instantRow 5 0, unendedRow]) [(0, 1), (5, 0)] :=
    ⟨by rw [hends']; exact List.Perm.swap _ _ [], by decide⟩
  have hdone : (processBlkTraceLog true 1 [unendedRow, instantRow 5 0] [⟨1, 0⟩] [(0, 0), (5, 1)]).fault = none := by
    decide +kernel
  have hfault : (processBlkTraceLog true 1 [instantRow 5 0, unendedRow] [⟨1, 0⟩] [(0, 1), (5, 0)]).fault =
      some .undefined := by decide +kernel
  have hsame := h 1 [unendedRow, instantRow 5 0] [instantRow 5 0, unendedRow] [⟨1, 0⟩] _ _ (List.cons_ne_nil _ _)
    (List.Perm.swap _ _ []) hsorted hsorted'
  rw [← hsame, hdone] at hfault
  cases hfault

/-- **In neither build is the report independent of the order.** -/
theorem not_orderIndependent : ¬ OrderIndependent false ∧ ¬ OrderIndependent true :=
  ⟨not_orderIndependent_tied, not_orderIndependent_unended⟩

end StorTrace.BlockTrace
