import StorTrace.Collector.LogCollecter
import StorTrace.Logger.Contents
import StorTrace.Logger.Sync

/-!
# `Logger.Reload` — what was logged is what is loaded

When every write is stored whole, the data files hold the records committed to them, `log_meta` holds its text
(`metaFile_run`), and loading the logs through that text returns the records in commit order
(`reloaded_of_stored`). The files have to be different ones: a log of the name `log_meta` shares its file with the
dump (`not_holds_logMeta`).
-/

namespace StorTrace

namespace Logger

variable {φ : Type} [DecidableEq φ] {L : Logger φ}

/-! ## Writes that are stored -/

/-- If the request executed is a write, it has a file, and the kernel reports all of its bytes stored. -/
def StoresAll (L : Logger φ) (s : LoggerState φ) : LoggerEvent → Prop
  | .execute k res =>
      ∀ sqe ∈ s.submitted[k]?, sqe.op ≠ .fsync → L.fileOf sqe.target ≠ none ∧ sqe.op.length ≤ res.toNat
  | _ => True

instance (s : LoggerState φ) (e : LoggerEvent) : Decidable (StoresAll L s e) :=
  match e with
  | .execute k res =>
      inferInstanceAs (Decidable (∀ sqe ∈ s.submitted[k]?,
        sqe.op ≠ .fsync → L.fileOf sqe.target ≠ none ∧ sqe.op.length ≤ res.toNat))
  | .commit _ _ _ => inferInstanceAs (Decidable True)
  | .peek _ => inferInstanceAs (Decidable True)
  | .flushAll => inferInstanceAs (Decidable True)
  | .dumpMeta _ _ => inferInstanceAs (Decidable True)
  | .dumpSync => inferInstanceAs (Decidable True)

omit [DecidableEq φ] in
/-- An fsync has no bytes to store. -/
theorem StoresAll.storesWhole {s : LoggerState φ} {e : LoggerEvent} (h : StoresAll L s e)
    (file : Target φ) : StoresWhole file s e := by
  cases e with
  | execute k res =>
      intro sqe hsqe _
      by_cases hop : sqe.op = .fsync
      · rw [hop]
        exact Nat.zero_le _
      · exact (h sqe hsqe hop).2
  | _ => trivial

theorem allSteps_storesWhole {evs : List LoggerEvent}
    (h : Run.AllSteps (L.system.Before L.StoresAll) evs) (file : Target φ) :
    Run.AllSteps (L.system.Before (StoresWhole file)) evs := by
  refine h.imp ?_
  intro pre e post _ hall r hr
  exact (hall r hr).storesWhole file

/-! ## The file `log_meta` -/

/-- What `log_meta` holds, or is going to hold; a write to a descriptor that could not be opened stays
    outstanding. -/
inductive MetaFile (L : Logger φ) (s : LoggerState φ) : Prop
  | committing (hpc : s.pc = .idle ∨ s.pc = .reaping)
  | flushed (hpc : s.pc = .flushed (Meta.logData L.fileFormat s.fileCommitCount))
  | dumped (hpc : (∃ file, s.pc = .written file) ∨ s.pc = .draining ∨ s.pc = .released)
      (hfile : FileInv (.fd (some L.logMeta)) L.logMeta (Meta.logData L.fileFormat s.fileCommitCount) s True)
  | failed (hpc : (∃ file, s.pc = .written file) ∨ s.pc = .draining ∨ s.pc = .released)
      (hmem : ∃ sqe ∈ s.submitted, sqe.WritesTo (.fd none))

/-- A request that writes nothing to the file. -/
theorem pendingTo_of_not_writesTo {file : Target φ} {sqe : Sqe φ} (h : ¬ sqe.WritesTo file)
    (heap : Nat → Option Str) : pendingTo file heap sqe = none := by
  by_cases htarget : sqe.target = file
  · by_cases hop : sqe.op = .fsync
    · exact pendingTo_of_fsync hop heap
    · exact absurd ⟨htarget, hop⟩ h
  · exact pendingTo_of_ne htarget heap

/-- `__dump_logger_meta` empties the file and submits its text. -/
theorem fileInv_dump {s s' : LoggerState φ} {file : Target φ} {f : φ} {text : Str} {sqe : Sqe φ}
    (hold : outstandingWrites file s.submitted = 0) (hs : s'.submitted = s.submitted ++ [sqe])
    (hadd : pendingTo file s'.heap sqe = some ⟨0, text⟩) (hf : s'.files f = .empty) :
    FileInv file f text s' True := by
  have hnone : s.submitted.filterMap (pendingTo file s'.heap) = [] := by
    rw [List.filterMap_eq_nil_iff]
    intro q hq
    exact pendingTo_of_not_writesTo ((outstandingWrites_eq_zero file).mp hold q hq) _
  have hstep : Assembly.Step .start True (view file f text s') := by
    rw [view, hs, List.filterMap_append, hnone, hf]
    simp only [List.filterMap_cons, hadd, List.filterMap_nil]
    exact .append [] [] .empty text
  refine ⟨hstep.inv Assembly.inv_start, ?_⟩
  rw [hstep.whole_iff Assembly.inv_start]
  exact iff_of_true ⟨Assembly.whole_start, trivial⟩ trivial

/-- A step that submits nothing and does not touch the file. -/
theorem MetaFile.frame {s s' : LoggerState φ} (h : MetaFile L s)
    (hheap : ∀ sqe ∈ s.submitted, ∀ buf, sqe.op.buf = some buf → s'.heap buf = s.heap buf)
    (hsub : s'.submitted = s.submitted) (hfiles : s'.files = s.files) (hcount : s'.fileCommitCount = s.fileCommitCount)
    (hpc : s'.pc = s.pc ∨ (s.pc = .draining ∧ s'.pc = .released)) : MetaFile L s' := by
  have hlater : (∃ file, s.pc = .written file) ∨ s.pc = .draining ∨ s.pc = .released →
      (∃ file, s'.pc = .written file) ∨ s'.pc = .draining ∨ s'.pc = .released := by
    intro hpc₀
    rcases hpc with hpc | ⟨-, hpc⟩
    · rwa [hpc]
    · exact Or.inr (Or.inr hpc)
  cases h with
  | committing hpc₀ =>
      rcases hpc with hpc | ⟨hpc, -⟩
      · exact .committing (by rwa [hpc])
      · simp [hpc] at hpc₀
  | flushed hpc₀ =>
      rcases hpc with hpc | ⟨hpc, -⟩
      · exact .flushed (by rw [hpc, hcount, hpc₀])
      · simp [hpc] at hpc₀
  | dumped hpc₀ hfile =>
      have happ : s'.submitted = s.submitted ++ [] := by rw [hsub, List.append_nil]
      refine .dumped (hlater hpc₀) ?_
      rw [hcount]
      exact hfile.frame hheap happ (by simp) (by rw [hfiles])
  | failed hpc₀ hmem => exact .failed (hlater hpc₀) (by rwa [hsub])

/-- Opening `log_meta` and submitting its text. -/
theorem metaFile_dumpMeta {evs : List LoggerEvent} {s s' : LoggerState φ} {t : List (LoggerAction φ)} {fd : Int}
    {buf : Nat} {logData : Str} {file : Option φ} (hrun : L.system.run evs = some (s, t)) (h : MetaFile L s)
    (hpc : s.pc = .flushed logData) (hfile : file = if fd < 0 then none else some L.logMeta)
    (hcount : s'.fileCommitCount = s.fileCommitCount)
    (hfiles : s'.files = if fd < 0 then s.files else Function.update s.files L.logMeta .empty)
    (hheap : s'.heap = Function.update s.heap buf (some logData))
    (hsub : s'.submitted = s.submitted ++ [.metaWrite file buf logData.length]) (hpc' : s'.pc = .written file) :
    MetaFile L s' := by
  cases h with
  | committing hpc₀ => simp [hpc] at hpc₀
  | dumped hpc₀ => simp [hpc] at hpc₀
  | failed hpc₀ => simp [hpc] at hpc₀
  | flushed hpc₀ =>
      obtain rfl : logData = Meta.logData L.fileFormat s.fileCommitCount := by simpa [hpc] using hpc₀
      by_cases hfd : fd < 0
      · rw [if_pos hfd] at hfile
        subst hfile
        refine .failed (Or.inl ⟨_, hpc'⟩) ?_
        rw [hsub]
        refine ⟨_, List.mem_append_right _ (List.mem_singleton_self _), ?_⟩
        simp [Sqe.WritesTo, Sqe.metaWrite]
      · rw [if_neg hfd] at hfile hfiles
        subst hfile
        -- so far nothing was written to a descriptor
        have hold : outstandingWrites (.fd (some L.logMeta)) s.submitted = 0 := by
          have hzero := (sync_run hrun).2.1.metaWrites_eq_zero (Or.inr (Or.inr ⟨_, hpc⟩)) (some L.logMeta)
          rw [metaWrites] at hzero
          omega
        refine .dumped (Or.inl ⟨_, hpc'⟩) ?_
        rw [hcount]
        refine fileInv_dump hold hsub ?_ ?_
        · simp [pendingTo, Sqe.metaWrite, hheap]
        · simp [hfiles]

/-- The execution of a request that is stored. -/
theorem MetaFile.execute (hfiles : L.FilesDistinct) {evs : List LoggerEvent} {s s' : LoggerState φ}
    {t : List (LoggerAction φ)} {res : Int} {before after : List (Sqe φ)} {sqe : Sqe φ}
    (hrun : L.system.run evs = some (s, t)) (hall : StoresAll L s (.execute before.length res)) (h : MetaFile L s)
    (hsub : s.submitted = before ++ sqe :: after)
    (hs' : s' = { s with
      submitted := before ++ after
      cq := s.cq ++ [⟨sqe.userData, res⟩]
      files := L.carryOut s sqe res }) : MetaFile L s' := by
  subst hs'
  have hk : s.submitted[before.length]? = some sqe := by
    rw [hsub, List.getElem?_middle]
  cases h with
  | committing hpc₀ => exact .committing hpc₀
  | flushed hpc₀ => exact .flushed hpc₀
  | dumped hpc₀ hfile =>
      have hlen : sqe.target = .fd (some L.logMeta) → sqe.op.length ≤ res.toNat :=
        hall.storesWhole _ sqe hk
      have hexec : FileInv (.fd (some L.logMeta)) L.logMeta
          (Meta.logData L.fileFormat s.fileCommitCount)
          { s with
            submitted := before ++ after
            cq := s.cq ++ [⟨sqe.userData, res⟩]
            files := L.carryOut s sqe res } _ :=
        hfile.execute (backed_run hrun) hsub rfl (fun hf => target_of_meta hfiles hf) rfl rfl rfl
      refine .dumped hpc₀ ⟨hexec.inv, hexec.whole_iff.trans ?_⟩
      exact iff_of_true ⟨trivial, hlen⟩ trivial
  | failed hpc₀ hmem =>
      obtain ⟨q, hq, hw⟩ := hmem
      refine .failed hpc₀ ⟨q, ?_, hw⟩
      -- a write without a file is not stored, so it is not the one executed
      have hne : q ≠ sqe := by
        rintro rfl
        have hfile := (hall q hk hw.2).1
        rw [hw.1] at hfile
        exact hfile rfl
      rw [hsub] at hq
      simp only [List.mem_append, List.mem_cons] at hq ⊢
      tauto

theorem metaFile_step (hfiles : L.FilesDistinct) {evs : List LoggerEvent} {s s' : LoggerState φ}
    {t o : List (LoggerAction φ)} {e : LoggerEvent} (hrun : L.system.run evs = some (s, t))
    (hall : StoresAll L s e) (h : MetaFile L s) (hstep : Step L s e s' o) : MetaFile L s' := by
  have hheap : ∀ sqe ∈ s.submitted, ∀ buf, sqe.op.buf = some buf → s'.heap buf = s.heap buf :=
    fun sqe hsqe buf hop => heap_step hrun hstep hsqe hop
  cases hstep with
  | commit index hidx hpc hlt hcount hbuf => exact .committing (Or.inr rfl)
  | stop hpc => exact .committing (Or.inl rfl)
  | wait hpc => exact h
  | spin hpc hcq hud => exact h
  | delete hpc hcq hud => exact h.frame hheap rfl rfl rfl (Or.inl rfl)
  | synced hpc hcq hud => exact h.frame hheap rfl rfl rfl (Or.inl rfl)
  | finish hpc hcq hud => exact h.frame hheap rfl rfl rfl (Or.inr ⟨hpc, rfl⟩)
  | flushAll hpc => exact .flushed rfl
  | @dumpMeta fd buf logData hpc hbuf file hfile => exact metaFile_dumpMeta hrun h hpc hfile rfl rfl rfl rfl rfl
  | @dumpSync file hpc =>
      cases h with
      | committing hpc₀ => simp [hpc] at hpc₀
      | flushed hpc₀ => simp [hpc] at hpc₀
      | dumped hpc₀ hfile =>
          refine .dumped (Or.inr (Or.inl rfl)) (hfile.frame hheap rfl ?_ rfl)
          intro sqe hsqe
          obtain rfl := List.mem_singleton.mp hsqe
          exact pendingTo_of_fsync rfl _
      | failed _ hmem =>
          obtain ⟨sqe, hsqe, hw⟩ := hmem
          exact .failed (Or.inr (Or.inl rfl)) ⟨sqe, List.mem_append_left _ hsqe, hw⟩
  | @execute res before after sqe hsub hdrain => exact h.execute hfiles hrun hall hsub rfl

/-- When every write is stored whole, `log_meta` holds its text in the end. -/
theorem metaFile_run (hfiles : L.FilesDistinct) {evs : List LoggerEvent} {s : LoggerState φ}
    {t : List (LoggerAction φ)} (hall : Run.AllSteps (L.system.Before L.StoresAll) evs)
    (h : L.system.run evs = some (s, t)) : MetaFile L s := by
  have hrun : Run.AllSteps (L.system.Before L.StoresAll) evs → MetaFile L s := by
    refine System.run_induction
      (P := fun evs s _ => Run.AllSteps (L.system.Before L.StoresAll) evs → MetaFile L s) ?_ ?_ h
    · intro _
      exact .committing (Or.inl rfl)
    · intro evs s t e s' o hrun ih hstep hall
      obtain ⟨hpre, hlast⟩ := (System.allSteps_before_concat hrun).mp hall
      exact metaFile_step hfiles hrun hlast (ih hpre) (step_of_system hstep)
  exact hrun hall

theorem holds_logData (hfiles : L.FilesDistinct) {evs : List LoggerEvent} {s : LoggerState φ}
    {t : List (LoggerAction φ)} (hall : Run.AllSteps (L.system.Before L.StoresAll) evs)
    (h : L.system.run evs = some (s, t)) (hpc : s.pc = .released) :
    (s.files L.logMeta).Holds (Meta.logData L.fileFormat s.fileCommitCount) := by
  have hempty : s.submitted = [] := ((phase_run h).of_released hpc).1
  cases metaFile_run hfiles hall h with
  | committing hpc₀ => simp [hpc] at hpc₀
  | flushed hpc₀ => simp [hpc] at hpc₀
  | dumped _ hfile =>
      have hpend : (view (.fd (some L.logMeta)) L.logMeta (Meta.logData L.fileFormat s.fileCommitCount)
          s).pending = [] := by simp [view, hempty]
      exact (Assembly.holds_iff_whole hfile.inv hpend).mpr (hfile.whole_iff.mpr trivial)
  | failed _ hmem => simp [hempty] at hmem

/-! ## The records of a log, by name -/

/-- The records committed under a name, in commit order. -/
def committedTo (name : String) (evs : List LoggerEvent) : List Str :=
  evs.filterMap (fun e =>
    match e with
    | .commit fName row _ => if fName = name then some row else none
    | _ => none)

/-- With names that differ, a registered name is found where it is registered. -/
theorem fdMap_eq {formats : List FileWithFormat} (h : (formats.map FileWithFormat.fileName).Nodup)
    {index : Nat} {fwf : FileWithFormat} (hfwf : formats[index]? = some fwf) :
    fdMap formats fwf.fileName = index := by
  have hmem : (fwf, index) ∈ formats.zipIdx.filter (fun f => f.1.fileName = fwf.fileName) := by
    rw [List.mem_filter]
    exact ⟨List.mem_zipIdx_iff_getElem?.mpr hfwf, by simp⟩
  obtain ⟨⟨g, j⟩, hlast⟩ : ∃ f,
      (formats.zipIdx.filter (fun f => f.1.fileName = fwf.fileName)).getLast? = some f := by
    cases hl : (formats.zipIdx.filter (fun f => f.1.fileName = fwf.fileName)).getLast? with
    | none => simp [List.getLast?_eq_none_iff.mp hl] at hmem
    | some f => exact ⟨f, rfl⟩
  have hg := List.mem_filter.mp (List.mem_of_getLast? hlast)
  have hj : formats[j]? = some g := List.mem_zipIdx_iff_getElem?.mp hg.1
  have hname : g.fileName = fwf.fileName := by simpa using hg.2
  have hlt : j < (formats.map FileWithFormat.fileName).length := by
    rw [List.length_map]
    exact (List.getElem?_eq_some_iff.mp hj).1
  have hsame : (formats.map FileWithFormat.fileName)[j]? = (formats.map FileWithFormat.fileName)[index]? := by
    rw [List.getElem?_map, List.getElem?_map, hj, hfwf, Option.map_some, Option.map_some, hname]
  rw [fdMap, hlast]
  exact (List.getElem?_inj hlt h).mp hsame

/-- Every commit is to a registered log, of its row size. -/
def CommitsRegistered (L : Logger φ) (evs : List LoggerEvent) : Prop :=
  ∀ e ∈ evs, ∀ fName row buf, e = .commit fName row buf →
    ∃ fwf ∈ L.fileFormat, fwf.fileName = fName ∧ row.length = fwf.rowSize

omit [DecidableEq φ] in
theorem FilesDistinct.names (h : L.FilesDistinct) : (L.fileFormat.map FileWithFormat.fileName).Nodup := by
  have hnodup := (List.nodup_cons.mp h).2
  have hcomp : L.fdSet =
      (L.fileFormat.map FileWithFormat.fileName).map (fun name => L.fileAt (L.filePath (strBytes name))) := by
    rw [fdSet, List.map_map]
    rfl
  rw [hcomp] at hnodup
  exact hnodup.of_map

omit [DecidableEq φ] in
theorem CommitsRegistered.commitsRows {evs : List LoggerEvent} (h : CommitsRegistered L evs)
    (hnames : (L.fileFormat.map FileWithFormat.fileName).Nodup) : CommitsRows L evs := by
  intro e he fName row buf heq
  obtain ⟨fwf, hmem, rfl, hlen⟩ := h e he fName row buf heq
  obtain ⟨index, hfwf⟩ := List.mem_iff_getElem?.mp hmem
  rw [hlen, rowSizeOf, fdMap_eq hnames hfwf, hfwf]
  rfl

omit [DecidableEq φ] in
/-- The commits that reach a log are those under its name. -/
theorem CommitsRegistered.committed_eq {evs : List LoggerEvent} (h : CommitsRegistered L evs)
    (hnames : (L.fileFormat.map FileWithFormat.fileName).Nodup) {index : Nat} {fwf : FileWithFormat}
    (hfwf : L.fileFormat[index]? = some fwf) : committed L index evs = committedTo fwf.fileName evs := by
  apply List.filterMap_congr
  intro e he
  cases e with
  | commit fName row buf =>
      obtain ⟨g, hg, rfl, -⟩ := h _ he fName row buf rfl
      obtain ⟨j, hj⟩ := List.mem_iff_getElem?.mp hg
      have hiff : fdMap L.fileFormat g.fileName = index ↔ g.fileName = fwf.fileName := by
        constructor
        · intro hidx
          rw [fdMap_eq hnames hj] at hidx
          subst hidx
          rw [Option.some.inj (hj.symm.trans hfwf)]
        · intro hname
          rw [hname, fdMap_eq hnames hfwf]
      simp only [hiff]
  | _ => rfl

/-! ## Loading -/

/-- No count exceeds what an `int` holds. -/
theorem fileCommitCount_lt {evs : List LoggerEvent} {s : LoggerState φ} {t : List (LoggerAction φ)}
    (h : L.system.run evs = some (s, t)) (index : Nat) : s.fileCommitCount index < 0x80000000 := by
  refine System.run_induction (P := fun _ s _ => s.fileCommitCount index < 0x80000000) ?_ ?_ h
  · exact Nat.zero_lt_succ _
  · intro evs s t e s' o _ hlt hstep
    cases step_of_system hstep with
    | commit i hidx hpc hlen hcount hbuf =>
        by_cases hi : i = index
        · subst hi
          simp only [Function.update_self]
          omega
        · simpa only [Function.update_of_ne (Ne.symm hi)] using hlt
    | stop hpc => exact hlt
    | wait hpc => exact hlt
    | spin hpc hcq hud => exact hlt
    | delete hpc hcq hud => exact hlt
    | synced hpc hcq hud => exact hlt
    | finish hpc hcq hud => exact hlt
    | flushAll hpc => exact hlt
    | dumpMeta hpc hbuf file hfile => exact hlt
    | dumpSync hpc => exact hlt
    | execute before after sqe hsub hdrain => exact hlt

/-- **A log is loaded as it was written**: the text of `log_meta` has a line under the log's name, which gives its
    name, its row size and the number of `rows`; the file of that name is their concatenation; and
    `make_table` returns them. -/
def Reloaded (L : Logger φ) (s : LoggerState φ) (text : Str) (index : Nat) (fwf : FileWithFormat)
    (rows : List Str) : Prop :=
  ∃ line c, (logMap text)[index]? = some (strBytes fwf.fileName, line) ∧
    LogCollecterVector.new line = some c ∧ c.logName = strBytes fwf.fileName ∧ c.rowSize = fwf.rowSize ∧
    c.n = some (rows.length : Int) ∧ (s.files (L.fileAt (L.filePath c.logName))).Holds rows.flatten ∧
    c.makeTable fwf.rowSize rows.flatten = some rows

/-- **What was logged is what is loaded**, whatever the order in which the writes are carried out. -/
theorem reloaded_of_stored {evs : List LoggerEvent} {s : LoggerState φ} {t : List (LoggerAction φ)}
    (hreg : ∀ fwf ∈ L.fileFormat, fwf.Registered) (hfiles : L.FilesDistinct)
    (hcommits : CommitsRegistered L evs) (hstored : Run.AllSteps (L.system.Before L.StoresAll) evs)
    (h : L.system.run evs = some (s, t)) (hpc : s.pc = .released) :
    ∃ text, (s.files L.logMeta).Holds text ∧ (logMap text).length = L.fileFormat.length ∧
      ∀ index fwf, L.fileFormat[index]? = some fwf →
        Reloaded L s text index fwf (committedTo fwf.fileName evs) := by
  have hempty : s.submitted = [] := ((phase_run h).of_released hpc).1
  have hnames := hfiles.names
  refine ⟨Meta.logData L.fileFormat s.fileCommitCount, holds_logData hfiles hstored h hpc, ?_, ?_⟩
  · simp [logMap, getlines_logData hreg]
  · intro index fwf hfwf
    have hmem : fwf ∈ L.fileFormat := List.mem_of_getElem? hfwf
    have hf : L.fdSet[index]? = some (L.fileAt (L.filePath (strBytes fwf.fileName))) := by
      rw [fdSet, List.getElem?_map, hfwf]
      rfl
    have hd := dataInv_run hfiles hf h
    have hcom := hcommits.committed_eq hnames hfwf
    have hcount : s.fileCommitCount index = (committedTo fwf.fileName evs).length := by
      rw [hd.count, hcom]
    have hrows : ∀ r ∈ committedTo fwf.fileName evs, r.length = fwf.rowSize := by
      rw [← hcom]
      exact (hcommits.commitsRows hnames).length_eq hfwf
    have hholds : (s.files (L.fileAt (L.filePath (strBytes fwf.fileName)))).Holds
        (committedTo fwf.fileName evs).flatten := by
      rw [← hcom]
      have hpend : (view (.fixed index) (L.fileAt (L.filePath (strBytes fwf.fileName)))
          (committed L index evs).flatten s).pending = [] := by simp [view, hempty]
      exact (Assembly.holds_iff_whole hd.file.inv hpend).mpr 
        (hd.file.whole_iff.mpr (allSteps_storesWhole hstored _))
    have hlt := fileCommitCount_lt h index
    have hnew := (hreg fwf hmem).decodable.new_metaLine (s.fileCommitCount index) (by omega)
    have hsize : ((fwf.elemsSize.sum : Nat) : Int) = fwf.rowSize := by
      rw [List.sum_eq_foldl_nat, ← (hreg fwf hmem).rowSize]
    have hn : some (s.fileCommitCount index : Int) = some ((committedTo fwf.fileName evs).length : Int) := by rw [hcount]
    refine ⟨_, _, getElem?_logMap hreg _ hfwf, hnew, rfl, hsize, hn, hholds, ?_⟩
    exact LogCollecterVector.makeTable_flatten hn hsize hrows

theorem reloaded_oneRecord :
    ∃ s t text, oneLog.system.run (oneRecord 15 [.execute 0 2, .execute 0 0]) = some (s, t) ∧
      (s.files oneLog.logMeta).Holds text ∧ (logMap text).length = oneLog.fileFormat.length ∧
        ∀ index fwf, oneLog.fileFormat[index]? = some fwf →
          Reloaded oneLog s text index fwf
            (committedTo fwf.fileName (oneRecord 15 [.execute 0 2, .execute 0 0])) := by
  obtain ⟨s, t, hst, hpc⟩ := oneRecord_released
  have hreg : ∀ fwf ∈ oneLog.fileFormat, fwf.Registered := by
    intro fwf hfwf
    obtain rfl : fwf = .make "a" [1, 1] ["x", "y"] := by simpa [oneLog] using hfwf
    exact ⟨rfl, by decide, rfl, by simp [FileWithFormat.make], by decide +kernel⟩
  have hcommits : CommitsRegistered oneLog (oneRecord 15 [.execute 0 2, .execute 0 0]) := by
    rintro e he fName row buf rfl
    obtain ⟨rfl, rfl, -⟩ : fName = "a" ∧ row = [7, 8] ∧ buf = 4096 := by simpa [oneRecord] using he
    exact ⟨_, List.mem_singleton_self _, rfl, rfl⟩
  obtain ⟨text, htext⟩ := reloaded_of_stored hreg (by decide) hcommits (by decide) hst hpc
  exact ⟨s, t, text, hst, htext⟩

/-- A logger whose one log is called `log_meta`. -/
def logMetaLog : Logger Str := { oneLog with fileFormat := [.make "log_meta" [1] ["x"]] }

/-- One record is committed to it and stored at once. -/
def logMetaRun : List LoggerEvent :=
  [.commit "log_meta" [7] 4096, .peek false, .execute 0 1, .flushAll, .dumpMeta 5 8192, .dumpSync,
    .execute 0 0, .execute 0 17, .execute 0 0, .peek true, .peek true, .peek true, .peek true]

/-- **A log called `log_meta` is overwritten by the dump**, although its format is registered as any other, its
    commit has its row size and every write is stored whole. -/
theorem not_holds_logMeta :
    ∃ s t, logMetaLog.system.run logMetaRun = some (s, t) ∧ s.pc = .released ∧
      (∀ fwf ∈ logMetaLog.fileFormat, fwf.Registered) ∧ CommitsRegistered logMetaLog logMetaRun ∧
      (logMetaLog.fileFormat.map FileWithFormat.fileName).Nodup ∧
      Run.AllSteps (logMetaLog.system.Before logMetaLog.StoresAll) logMetaRun ∧
      ¬ (s.files (logMetaLog.fileAt (logMetaLog.filePath (strBytes "log_meta")))).Holds
        (committedTo "log_meta" logMetaRun).flatten := by
  have hrun : (logMetaLog.system.run logMetaRun).map
      (fun r => (r.1.pc, r.1.files (logMetaLog.fileAt (logMetaLog.filePath (strBytes "log_meta"))) 0)) =
        some (.released, some 108) := by decide
  obtain ⟨⟨s, t⟩, hst, heq⟩ := Option.map_eq_some_iff.mp hrun
  obtain ⟨hpc, hbyte⟩ := Prod.mk.inj heq
  refine ⟨s, t, hst, hpc, ?_, ?_, by decide, by decide, ?_⟩
  · intro fwf hfwf
    obtain rfl : fwf = .make "log_meta" [1] ["x"] := by simpa [logMetaLog] using hfwf
    exact ⟨rfl, by decide, rfl, by simp [FileWithFormat.make], by decide +kernel⟩
  · rintro e he fName row buf rfl
    obtain ⟨rfl, rfl, -⟩ : fName = "log_meta" ∧ row = [7] ∧ buf = 4096 := by simpa [logMetaRun] using he
    exact ⟨_, List.mem_singleton_self _, rfl, rfl⟩
  · -- the file starts with the `l` of its own line
    intro hholds
    have hzero := hholds 0
    rw [hbyte] at hzero
    exact absurd hzero (by decide)

end Logger

end StorTrace
