import StorTrace.Logger.Buffers

/-!
# `Logger.Contents` — what a data file holds when the logger is released

Each file of the logger is an `Assembly` (`view`): a commit appends a record, the execution of a write stores
what the kernel says it stored. The results in `cqe->res` are ignored, so a write that is cut short or fails is a
row lost; the rows below the count are all there exactly if every write stored its whole buffer
(`rowsOnDisk_iff`).
-/

namespace StorTrace

/-- The bytes a request writes. -/
def Op.length : Op → Nat
  | .write _ length _ => length
  | .fsync => 0

namespace Logger

variable {φ : Type}

/-! ## The buffers of outstanding writes -/

/-- Every outstanding write has a buffer of its length. -/
def Backed (s : LoggerState φ) : Prop :=
  ∀ sqe ∈ s.submitted, ∀ buf length off, sqe.op = .write buf length off →
    ∃ data, s.heap buf = some data ∧ data.length = length

variable [DecidableEq φ] {L : Logger φ}

/-- The buffer of an outstanding write is allocated, and no completion stands for it yet. -/
theorem outstanding_buf {evs : List LoggerEvent} {s : LoggerState φ} {t : List (LoggerAction φ)}
    (hrun : L.system.run evs = some (s, t)) {sqe : Sqe φ} (hsqe : sqe ∈ s.submitted) {buf : Nat}
    (hop : sqe.op.buf = some buf) : s.heap buf ≠ none ∧ inCq s.cq buf = 0 := by
  have hne : ¬ (buf = 0 ∨ buf = int16Max) := by
    obtain ⟨h0, hmax⟩ := (phase_run hrun).buf_ne hsqe hop
    exact not_or.mpr ⟨h0, hmax⟩
  have hpos : 0 < inFlight s.submitted buf := by
    rw [inFlight, List.countP_pos_iff]
    exact ⟨sqe, hsqe, by simpa using hop⟩
  have ho := owned_run hrun buf
  rw [if_neg hne] at ho
  cases ho with
  | free _ _ hs => omega
  | submitted _ hheap _ hc => exact ⟨hheap, hc⟩
  | completed _ _ hs => omega

/-- **A step leaves the buffers of outstanding writes as they are.** -/
theorem heap_step {evs : List LoggerEvent} {s s' : LoggerState φ} {t o : List (LoggerAction φ)}
    {e : LoggerEvent} (hrun : L.system.run evs = some (s, t)) (hstep : Step L s e s' o) {sqe : Sqe φ}
    (hsqe : sqe ∈ s.submitted) {buf : Nat} (hop : sqe.op.buf = some buf) : s'.heap buf = s.heap buf := by
  obtain ⟨hheap, hcq⟩ := outstanding_buf hrun hsqe hop
  cases hstep with
  | commit index hidx hpc hlt hcount hbuf =>
      apply Function.update_of_ne
      rintro rfl
      exact hheap hbuf.1
  | dumpMeta hpc hbuf file hfile =>
      apply Function.update_of_ne
      rintro rfl
      exact hheap hbuf.1
  | delete hpc hc hud =>
      apply Function.update_of_ne
      rintro rfl
      rw [hc, inCq_cons, if_pos rfl] at hcq
      omega
  | stop hpc => rfl
  | wait hpc => rfl
  | spin hpc hc hud => rfl
  | synced hpc hc hud => rfl
  | finish hpc hc hud => rfl
  | flushAll hpc => rfl
  | dumpSync hpc => rfl
  | execute before after sqe' hsub hdrain => rfl

/-- What a step submits, if anything, next to what was there. -/
theorem mem_submitted_step {s s' : LoggerState φ} {o : List (LoggerAction φ)} {e : LoggerEvent}
    (hstep : Step L s e s' o) {sqe : Sqe φ} (hsqe : sqe ∈ s'.submitted) (hold : sqe ∉ s.submitted) :
    ∀ buf length off, sqe.op = .write buf length off →
      ∃ data, s'.heap buf = some data ∧ data.length = length := by
  cases hstep with
  | @commit fName row buf index hidx hpc hlt hcount hbuf =>
      rcases List.mem_append.mp hsqe with h | h
      · exact absurd h hold
      · obtain rfl := List.mem_singleton.mp h
        rintro _ _ _ ⟨⟩
        exact ⟨row, Function.update_self _ _ _, rfl⟩
  | @dumpMeta fd buf logData hpc hbuf file hfile =>
      rcases List.mem_append.mp hsqe with h | h
      · exact absurd h hold
      · obtain rfl := List.mem_singleton.mp h
        rintro _ _ _ ⟨⟩
        exact ⟨logData, Function.update_self _ _ _, rfl⟩
  | delete hpc hc hud => exact absurd hsqe hold
  | stop hpc => exact absurd hsqe hold
  | wait hpc => exact absurd hsqe hold
  | spin hpc hc hud => exact absurd hsqe hold
  | synced hpc hc hud => exact absurd hsqe hold
  | finish hpc hc hud => exact absurd hsqe hold
  | flushAll hpc =>
      rcases List.mem_append.mp hsqe with h | h
      · exact absurd h hold
      · obtain ⟨index, -, rfl⟩ := List.mem_map.mp h
        rintro _ _ _ ⟨⟩
  | dumpSync hpc =>
      rcases List.mem_append.mp hsqe with h | h
      · exact absurd h hold
      · obtain rfl := List.mem_singleton.mp h
        rintro _ _ _ ⟨⟩
  | execute before after sqe' hsub hdrain =>
      exact absurd (hsub ▸ List.mem_of_mem_middle hsqe) hold

theorem backed_run {evs : List LoggerEvent} {s : LoggerState φ} {t : List (LoggerAction φ)}
    (h : L.system.run evs = some (s, t)) : Backed s := by
  refine System.run_induction (P := fun _ s _ => Backed s) ?_ ?_ h
  · intro sqe hsqe
    simp [system, init] at hsqe
  · intro evs s t e s' o hrun hb hstep sqe hsqe buf length off hop
    have hst : Step L s e s' o := step_of_system hstep
    by_cases hold : sqe ∈ s.submitted
    · rw [heap_step hrun hst hold (by rw [hop]; rfl)]
      exact hb sqe hold buf length off hop
    · exact mem_submitted_step hst hsqe hold buf length off hop

/-! ## A file and its outstanding writes -/

/-- What a request still has to write to the file. -/
def pendingTo (file : Target φ) (heap : Nat → Option Str) (sqe : Sqe φ) : Option (Write UInt8) :=
  if sqe.target = file then
    match sqe.op with
    | .write buf length off => some ⟨off, ((heap buf).getD []).take length⟩
    | .fsync => none
  else none

/-- **The file `f` as an assembly**: `content` is what it is meant to contain. -/
def view (file : Target φ) (f : φ) (content : Str) (s : LoggerState φ) : Assembly UInt8 :=
  ⟨content, s.submitted.filterMap (pendingTo file s.heap), s.files f⟩

/-- The assembly is in order, and nothing is lost exactly if `whole`. -/
structure FileInv (file : Target φ) (f : φ) (content : Str) (s : LoggerState φ) (whole : Prop) : Prop where
  inv : (view file f content s).Inv
  whole_iff : (view file f content s).Whole ↔ whole

section FileInv

variable {file : Target φ} {f : φ} {content : Str} {s s' : LoggerState φ} {whole : Prop}

theorem pendingTo_of_ne {sqe : Sqe φ} (h : sqe.target ≠ file) (heap : Nat → Option Str) :
    pendingTo file heap sqe = none := if_neg h

theorem pendingTo_of_fsync {sqe : Sqe φ} (h : sqe.op = .fsync) (heap : Nat → Option Str) :
    pendingTo file heap sqe = none := by
  unfold pendingTo
  rw [h]
  exact ite_self none

/-- The outstanding writes depend only on their own buffers. -/
theorem filterMap_pendingTo_congr {submitted : List (Sqe φ)} {heap heap' : Nat → Option Str}
    (h : ∀ sqe ∈ submitted, ∀ buf, sqe.op.buf = some buf → heap' buf = heap buf) :
    submitted.filterMap (pendingTo file heap') = submitted.filterMap (pendingTo file heap) := by
  apply List.filterMap_congr
  intro sqe hsqe
  unfold pendingTo
  cases hop : sqe.op with
  | write buf length off => simp only [h sqe hsqe buf (by rw [hop]; rfl)]
  | fsync => rfl

/-- A step that submits no write to the file, and leaves what it holds. -/
theorem FileInv.frame (h : FileInv file f content s whole) {added : List (Sqe φ)}
    (hheap : ∀ sqe ∈ s.submitted, ∀ buf, sqe.op.buf = some buf → s'.heap buf = s.heap buf)
    (hs : s'.submitted = s.submitted ++ added) (hadd : ∀ sqe ∈ added, pendingTo file s'.heap sqe = none)
    (hf : s'.files f = s.files f) : FileInv file f content s' whole := by
  have hview : view file f content s' = view file f content s := by
    rw [view, hs, List.filterMap_append, filterMap_pendingTo_congr hheap, List.filterMap_eq_nil_iff.mpr hadd,
      List.append_nil, hf, view]
  exact ⟨by rw [hview]; exact h.inv, by rw [hview]; exact h.whole_iff⟩

/-- A step that submits a write of `r` at the end of the content. -/
theorem FileInv.append (h : FileInv file f content s whole) {sqe : Sqe φ} {r : Str}
    (hheap : ∀ sqe ∈ s.submitted, ∀ buf, sqe.op.buf = some buf → s'.heap buf = s.heap buf)
    (hs : s'.submitted = s.submitted ++ [sqe])
    (hadd : pendingTo file s'.heap sqe = some ⟨content.length, r⟩) (hf : s'.files f = s.files f) :
    FileInv file f (content ++ r) s' whole := by
  have hstep : Assembly.Step (view file f content s) True (view file f (content ++ r) s') := by
    rw [view, view, hs, List.filterMap_append, filterMap_pendingTo_congr hheap, hf]
    simp only [List.filterMap_cons, hadd, List.filterMap_nil]
    exact .append _ _ _ _
  refine ⟨hstep.inv h.inv, ?_⟩
  rw [hstep.whole_iff h.inv, h.whole_iff, and_true]

/-- The files a request leaves alone. -/
theorem carryOut_of_ne {sqe : Sqe φ} {res : Int} (h : L.fileOf sqe.target ≠ some f) :
    L.carryOut s sqe res f = s.files f := by
  unfold carryOut
  cases hop : sqe.op with
  | fsync => rfl
  | write buf length off =>
      cases hfile : L.fileOf sqe.target with
      | none => rfl
      | some file' =>
          apply Function.update_of_ne
          rintro rfl
          exact h hfile

theorem carryOut_of_fsync {sqe : Sqe φ} {res : Int} (h : sqe.op = .fsync) :
    L.carryOut s sqe res = s.files := by
  unfold carryOut
  rw [h]

theorem carryOut_of_write {sqe : Sqe φ} {res : Int} {buf length off : Nat}
    (hop : sqe.op = .write buf length off) (hfile : L.fileOf sqe.target = some f) :
    L.carryOut s sqe res f =
      (s.files f).storeAt off ((((s.heap buf).getD []).take length).take res.toNat) := by
  unfold carryOut
  rw [hop, hfile]
  exact Function.update_self _ _ _

/-- **The execution of a request** loses something of the file exactly if it is a write to it that is cut
    short. -/
theorem FileInv.execute (h : FileInv file f content s whole) (hb : Backed s) {before after : List (Sqe φ)}
    {sqe : Sqe φ} (hsub : s.submitted = before ++ sqe :: after) (hfile : L.fileOf file = some f)
    (hown : L.fileOf sqe.target = some f → sqe.target = file) {res : Int} (hheap : s'.heap = s.heap)
    (hs' : s'.submitted = before ++ after) (hf' : s'.files = L.carryOut s sqe res) :
    FileInv file f content s' (whole ∧ (sqe.target = file → sqe.op.length ≤ res.toNat)) := by
  have hsplit : view file f content s =
      ⟨content, before.filterMap (pendingTo file s.heap) ++
        (pendingTo file s.heap sqe).toList ++ after.filterMap (pendingTo file s.heap), s.files f⟩ := by
    rw [view, hsub, List.filterMap_append]
    cases hp : pendingTo file s.heap sqe <;> simp [hp]
  have hview' : view file f content s' =
      ⟨content, before.filterMap (pendingTo file s.heap) ++ after.filterMap (pendingTo file s.heap),
        L.carryOut s sqe res f⟩ := by
    rw [view, hs', List.filterMap_append, hheap, hf']
  -- a request that writes nothing to the file
  have hnone : pendingTo file s.heap sqe = none → L.carryOut s sqe res f = s.files f →
      (sqe.target = file → sqe.op.length ≤ res.toNat) →
      FileInv file f content s' (whole ∧ (sqe.target = file → sqe.op.length ≤ res.toNat)) := by
    intro hp hc hlen
    have hview : view file f content s' = view file f content s := by
      rw [hview', hsplit, hp, hc, Option.toList_none, List.append_nil]
    refine ⟨by rw [hview]; exact h.inv, ?_⟩
    rw [hview, h.whole_iff]
    exact ⟨fun hw => ⟨hw, hlen⟩, And.left⟩
  by_cases htarget : sqe.target = file
  · cases hop : sqe.op with
    | fsync =>
        rw [← hop]
        refine hnone (pendingTo_of_fsync hop _) (by rw [carryOut_of_fsync hop]) ?_
        intro _
        simp [hop, Op.length]
    | write buf length off =>
        obtain ⟨data, hdata, hlen⟩ := hb sqe (by simp [hsub]) buf length off hop
        have hp : pendingTo file s.heap sqe = some ⟨off, data⟩ := by
          unfold pendingTo
          rw [if_pos htarget, hop]
          simp [hdata, ← hlen]
        have hstep : Assembly.Step (view file f content s) (data.length ≤ res.toNat)
            (view file f content s') := by
          rw [hsplit, hview', hp, carryOut_of_write hop (htarget ▸ hfile), hdata, Option.getD_some, ← hlen,
            List.take_length, Option.toList_some, List.append_assoc, List.singleton_append]
          exact .store _ _ _ ⟨off, data⟩ _ _
        refine ⟨hstep.inv h.inv, ?_⟩
        rw [hstep.whole_iff h.inv, h.whole_iff]
        simp [htarget, Op.length, hlen]
  · exact hnone (pendingTo_of_ne htarget _) (carryOut_of_ne (fun hf => htarget (hown hf)))
      (fun h => absurd h htarget)

end FileInv

/-! ## Whose file is whose -/

/-- The logs and `log_meta` are different files. -/
def FilesDistinct (L : Logger φ) : Prop := (L.logMeta :: L.fdSet).Nodup

instance (L : Logger φ) : Decidable L.FilesDistinct := inferInstanceAs (Decidable (List.Nodup _))

/-- The only descriptor in use is that of `log_meta`, or of no file. -/
def OnlyMeta (L : Logger φ) (s : LoggerState φ) : Prop :=
  (∀ sqe ∈ s.submitted, ∀ file, sqe.target = .fd file → file = none ∨ file = some L.logMeta) ∧
    ∀ file, s.pc = .written file → file = none ∨ file = some L.logMeta

theorem onlyMeta_step {s s' : LoggerState φ} {o : List (LoggerAction φ)} {e : LoggerEvent}
    (h : OnlyMeta L s) (hstep : Step L s e s' o) : OnlyMeta L s' := by
  obtain ⟨hs, hw⟩ := h
  cases hstep with
  | commit index hidx hpc hlt hcount hbuf =>
      refine ⟨forall_mem_concat hs ?_, by simp⟩
      rintro file ⟨⟩
  | stop hpc => exact ⟨hs, by simp⟩
  | wait hpc => exact ⟨hs, hw⟩
  | spin hpc hcq hud => exact ⟨hs, hw⟩
  | delete hpc hcq hud => exact ⟨hs, hw⟩
  | synced hpc hcq hud => exact ⟨hs, hw⟩
  | finish hpc hcq hud => exact ⟨hs, by simp⟩
  | flushAll hpc =>
      refine ⟨?_, by simp⟩
      intro sqe hsqe
      rcases List.mem_append.mp hsqe with hold | hnew
      · exact hs sqe hold
      · obtain ⟨index, -, rfl⟩ := List.mem_map.mp hnew
        rintro file ⟨⟩
  | @dumpMeta fd buf logData hpc hbuf file hfile =>
      have hknown : file = none ∨ file = some L.logMeta := by
        rw [hfile]
        split
        · exact Or.inl rfl
        · exact Or.inr rfl
      refine ⟨forall_mem_concat hs ?_, ?_⟩
      · rintro _ ⟨⟩
        exact hknown
      · rintro _ ⟨⟩
        exact hknown
  | dumpSync hpc =>
      refine ⟨forall_mem_concat hs ?_, by simp⟩
      rintro _ ⟨⟩
      exact hw _ hpc
  | execute before after sqe hsub hdrain =>
      refine ⟨?_, hw⟩
      intro q hq
      exact hs q (by rw [hsub]; exact List.mem_of_mem_middle hq)

theorem onlyMeta_run {evs : List LoggerEvent} {s : LoggerState φ} {t : List (LoggerAction φ)}
    (h : L.system.run evs = some (s, t)) : OnlyMeta L s := by
  refine System.run_induction (P := fun _ s _ => OnlyMeta L s) ?_ ?_ h
  · constructor
    · simp [system, init]
    · simp [system, init]
  · intro evs s t e s' o _ hk hstep
    exact onlyMeta_step hk (step_of_system hstep)

omit [DecidableEq φ] in
/-- Only the requests to a log reach its file. -/
theorem OnlyMeta.target_of_log {s : LoggerState φ} (h : OnlyMeta L s) (hfiles : L.FilesDistinct)
    {index : Nat} {f : φ} (hf : L.fdSet[index]? = some f) {sqe : Sqe φ} (hsqe : sqe ∈ s.submitted)
    (hfile : L.fileOf sqe.target = some f) : sqe.target = .fixed index := by
  obtain ⟨hmeta, hnodup⟩ := List.nodup_cons.mp hfiles
  cases htarget : sqe.target with
  | fixed j =>
      rw [htarget] at hfile
      have hj : L.fdSet[j]? = some f := hfile
      have hlt : j < L.fdSet.length := (List.getElem?_eq_some_iff.mp hj).1
      rw [(List.getElem?_inj hlt hnodup).mp (hj.trans hf.symm)]
  | fd file =>
      rw [htarget] at hfile
      have hsome : file = some f := hfile
      rcases h.1 sqe hsqe file htarget with hn | hm
      · simp [hn] at hsome
      · obtain rfl : L.logMeta = f := by simpa [hm] using hsome
        exact absurd (List.mem_of_getElem? hf) hmeta

omit [DecidableEq φ] in
/-- Only the requests of `__dump_logger_meta` reach `log_meta`. -/
theorem target_of_meta (hfiles : L.FilesDistinct) {sqe : Sqe φ}
    (hfile : L.fileOf sqe.target = some L.logMeta) : sqe.target = .fd (some L.logMeta) := by
  obtain ⟨hmeta, -⟩ := List.nodup_cons.mp hfiles
  cases htarget : sqe.target with
  | fixed j =>
      rw [htarget] at hfile
      exact absurd (List.mem_of_getElem? (show L.fdSet[j]? = some L.logMeta from hfile)) hmeta
  | fd file =>
      rw [htarget] at hfile
      have hsome : file = some L.logMeta := hfile
      rw [hsome]

/-! ## The records of a log -/

/-- The records committed to a log, in commit order. -/
def committed (L : Logger φ) (index : Nat) (evs : List LoggerEvent) : List Str :=
  evs.filterMap (fun e =>
    match e with
    | .commit fName row _ => if fdMap L.fileFormat fName = index then some row else none
    | _ => none)

/-- If the request executed goes to the file, the kernel reports all of its bytes stored. -/
def StoresWhole (file : Target φ) (s : LoggerState φ) : LoggerEvent → Prop
  | .execute k res => ∀ sqe ∈ s.submitted[k]?, sqe.target = file → sqe.op.length ≤ res.toNat
  | _ => True

instance (file : Target φ) (s : LoggerState φ) (e : LoggerEvent) : Decidable (StoresWhole file s e) :=
  match e with
  | .execute k res =>
      inferInstanceAs (Decidable (∀ sqe ∈ s.submitted[k]?, sqe.target = file → sqe.op.length ≤ res.toNat))
  | .commit _ _ _ => inferInstanceAs (Decidable True)
  | .peek _ => inferInstanceAs (Decidable True)
  | .flushAll => inferInstanceAs (Decidable True)
  | .dumpMeta _ _ => inferInstanceAs (Decidable True)
  | .dumpSync => inferInstanceAs (Decidable True)

omit [DecidableEq φ] in
theorem committed_concat (index : Nat) (evs : List LoggerEvent) (e : LoggerEvent) :
    committed L index (evs ++ [e]) = committed L index evs ++ committed L index [e] := by
  rw [committed, List.filterMap_append]
  rfl

/-- **The bookkeeping of a log**: its offset is the length of its records, its count their number, and its file
    is missing something exactly if a write was cut short. -/
structure DataInv (L : Logger φ) (index : Nat) (f : φ) (evs : List LoggerEvent) (s : LoggerState φ) :
    Prop where
  off : s.offSetOf index = (committed L index evs).flatten.length
  count : s.fileCommitCount index = (committed L index evs).length
  file : FileInv (.fixed index) f (committed L index evs).flatten s
    (Run.AllSteps (L.system.Before (StoresWhole (.fixed index))) evs)

theorem dataInv_init {index : Nat} {f : φ} (hf : L.fdSet[index]? = some f) : DataInv L index f [] L.init where
  off := rfl
  count := rfl
  file := by
    have hview : view (.fixed index) f (committed L index []).flatten L.init = .start := by
      have hmem : f ∈ L.fdSet := List.mem_of_getElem? hf
      simp [view, init, committed, Assembly.start, hmem]
    refine ⟨by rw [hview]; exact Assembly.inv_start, ?_⟩
    rw [hview]
    exact iff_of_true Assembly.whole_start (Run.allSteps_nil _)

/-- A step that is no commit to the log. -/
theorem DataInv.frame {index : Nat} {f : φ} {evs : List LoggerEvent} {s s' : LoggerState φ} {e : LoggerEvent}
    (h : DataInv L index f evs s) (hoff : s'.offSetOf index = s.offSetOf index)
    (hcount : s'.fileCommitCount index = s.fileCommitCount index) (hcom : committed L index [e] = [])
    {whole : Prop}
    (hcond : Run.AllSteps (L.system.Before (StoresWhole (.fixed index))) (evs ++ [e]) ↔ whole)
    (hfile : FileInv (.fixed index) f (committed L index evs).flatten s' whole) :
    DataInv L index f (evs ++ [e]) s' := by
  have hsame : committed L index (evs ++ [e]) = committed L index evs := by
    rw [committed_concat, hcom, List.append_nil]
  refine ⟨?_, ?_, ?_⟩
  · rw [hoff, hsame, h.off]
  · rw [hcount, hsame, h.count]
  · rw [hsame]
    exact ⟨hfile.inv, hfile.whole_iff.trans hcond.symm⟩

/-- A commit to the log. -/
theorem DataInv.commit {index : Nat} {f : φ} {evs : List LoggerEvent} {s s' : LoggerState φ} {fName : String}
    {row : Str} {buf : Nat} (h : DataInv L index f evs s) (hidx : fdMap L.fileFormat fName = index)
    (hheap : ∀ sqe ∈ s.submitted, ∀ buf, sqe.op.buf = some buf → s'.heap buf = s.heap buf)
    (hcond : Run.AllSteps (L.system.Before (StoresWhole (.fixed index))) (evs ++ [.commit fName row buf]) ↔
      Run.AllSteps (L.system.Before (StoresWhole (.fixed index))) evs)
    (hs' : s' = { s with
      fileCommitCount := Function.update s.fileCommitCount index (s.fileCommitCount index + 1)
      heap := Function.update s.heap buf (some row)
      submitted := s.submitted ++ [.dataWrite index buf row.length (s.offSetOf index)]
      offSetOf := Function.update s.offSetOf index (s.offSetOf index + row.length)
      pc := .reaping }) : DataInv L index f (evs ++ [.commit fName row buf]) s' := by
  subst hs'
  have hcom : committed L index [.commit fName row buf] = [row] := by simp [committed, hidx]
  have hflat : (committed L index (evs ++ [.commit fName row buf])).flatten =
      (committed L index evs).flatten ++ row := by
    rw [committed_concat, hcom, List.flatten_append, List.flatten_singleton]
  refine ⟨?_, ?_, ?_⟩
  · show Function.update s.offSetOf index (s.offSetOf index + row.length) index = _
    rw [Function.update_self, hflat, List.length_append, h.off]
  · show Function.update s.fileCommitCount index (s.fileCommitCount index + 1) index = _
    rw [Function.update_self, committed_concat, hcom, List.length_append, h.count]
    rfl
  · rw [hflat]
    have happ := h.file.append hheap (r := row) rfl ?_ rfl
    · exact ⟨happ.inv, happ.whole_iff.trans hcond.symm⟩
    · simp [pendingTo, Sqe.dataWrite, h.off]

/-- **Every step keeps the bookkeeping of a log.** -/
theorem dataInv_step {index : Nat} {f : φ} (hfiles : L.FilesDistinct) (hf : L.fdSet[index]? = some f)
    {evs : List LoggerEvent} {s s' : LoggerState φ} {t o : List (LoggerAction φ)} {e : LoggerEvent}
    (hrun : L.system.run evs = some (s, t)) (h : DataInv L index f evs s) (hstep : Step L s e s' o) :
    DataInv L index f (evs ++ [e]) s' := by
  have hheap : ∀ sqe ∈ s.submitted, ∀ buf, sqe.op.buf = some buf → s'.heap buf = s.heap buf :=
    fun sqe hsqe buf hop => heap_step hrun hstep hsqe hop
  have hcond : Run.AllSteps (L.system.Before (StoresWhole (.fixed index))) (evs ++ [e]) ↔
      Run.AllSteps (L.system.Before (StoresWhole (.fixed index))) evs ∧ StoresWhole (.fixed index) s e :=
    System.allSteps_before_concat hrun
  have hquiet : StoresWhole (.fixed index) s e →
      (Run.AllSteps (L.system.Before (StoresWhole (.fixed index))) (evs ++ [e]) ↔
        Run.AllSteps (L.system.Before (StoresWhole (.fixed index))) evs) := by
    intro hs
    rw [hcond]
    exact ⟨And.left, fun hall => ⟨hall, hs⟩⟩
  -- what a step adds to the queue, if none of it writes to the log
  have hadded : ∀ added : List (Sqe φ), (∀ sqe ∈ added, pendingTo (.fixed index) s'.heap sqe = none) →
      s'.submitted = s.submitted ++ added → s'.files f = s.files f →
        FileInv (.fixed index) f (committed L index evs).flatten s'
          (Run.AllSteps (L.system.Before (StoresWhole (.fixed index))) evs) :=
    fun added hnone happ hfs => h.file.frame hheap happ hnone hfs
  have hnil : s'.submitted = s.submitted → s'.files f = s.files f →
      FileInv (.fixed index) f (committed L index evs).flatten s'
        (Run.AllSteps (L.system.Before (StoresWhole (.fixed index))) evs) := by
    intro hs hfs
    refine hadded [] (by simp) ?_ hfs
    rw [hs, List.append_nil]
  cases hstep with
  | @commit fName row buf j hj hpc hlt hcount hbuf =>
      by_cases hi : j = index
      · subst hi
        exact h.commit hj hheap (hquiet trivial) rfl
      · have hcom : committed L index [.commit fName row buf] = [] := by
          simp [committed, hj, hi]
        refine h.frame ?_ ?_ hcom (hquiet trivial) (hadded _ ?_ rfl rfl)
        · exact Function.update_of_ne (Ne.symm hi) _ _
        · exact Function.update_of_ne (Ne.symm hi) _ _
        · intro sqe hsqe
          obtain rfl := List.mem_singleton.mp hsqe
          exact pendingTo_of_ne (by simpa [Sqe.dataWrite] using hi) _
  | stop hpc => exact h.frame rfl rfl rfl (hquiet trivial) (hnil rfl rfl)
  | wait hpc => exact h.frame rfl rfl rfl (hquiet trivial) (hnil rfl rfl)
  | spin hpc hcq hud => exact h.frame rfl rfl rfl (hquiet trivial) (hnil rfl rfl)
  | delete hpc hcq hud => exact h.frame rfl rfl rfl (hquiet trivial) (hnil rfl rfl)
  | synced hpc hcq hud => exact h.frame rfl rfl rfl (hquiet trivial) (hnil rfl rfl)
  | finish hpc hcq hud => exact h.frame rfl rfl rfl (hquiet trivial) (hnil rfl rfl)
  | flushAll hpc =>
      refine h.frame rfl rfl rfl (hquiet trivial) (hadded _ ?_ rfl rfl)
      intro sqe hsqe
      obtain ⟨j, -, rfl⟩ := List.mem_map.mp hsqe
      exact pendingTo_of_fsync rfl _
  | @dumpMeta fd buf logData hpc hbuf file hfile =>
      refine h.frame rfl rfl rfl (hquiet trivial) (hadded _ ?_ rfl ?_)
      · intro sqe hsqe
        obtain rfl := List.mem_singleton.mp hsqe
        exact pendingTo_of_ne (by simp [Sqe.metaWrite]) _
      · -- the file that is emptied is `log_meta`
        show (if fd < 0 then s.files else Function.update s.files L.logMeta .empty) f = s.files f
        have hne : f ≠ L.logMeta := by
          rintro rfl
          exact (List.nodup_cons.mp hfiles).1 (List.mem_of_getElem? hf)
        split
        · rfl
        · exact Function.update_of_ne hne _ _
  | @dumpSync file hpc =>
      refine h.frame rfl rfl rfl (hquiet trivial) (hadded _ ?_ rfl rfl)
      intro sqe hsqe
      obtain rfl := List.mem_singleton.mp hsqe
      exact pendingTo_of_fsync rfl _
  | @execute res before after sqe hsub hdrain =>
      have hk : s.submitted[before.length]? = some sqe := by
        rw [hsub, List.getElem?_middle]
      have hfile : FileInv (.fixed index) f (committed L index evs).flatten
          { s with
            submitted := before ++ after
            cq := s.cq ++ [⟨sqe.userData, res⟩]
            files := L.carryOut s sqe res } _ :=
        h.file.execute (backed_run hrun) hsub hf
          ((onlyMeta_run hrun).target_of_log hfiles hf (by simp [hsub])) rfl rfl rfl
      refine h.frame rfl rfl rfl ?_ hfile
      rw [hcond]
      simp [StoresWhole, hk]

theorem dataInv_run {index : Nat} {f : φ} (hfiles : L.FilesDistinct) (hf : L.fdSet[index]? = some f)
    {evs : List LoggerEvent} {s : LoggerState φ} {t : List (LoggerAction φ)}
    (h : L.system.run evs = some (s, t)) : DataInv L index f evs s := by
  refine System.run_induction (P := fun evs s _ => DataInv L index f evs s) (dataInv_init hf) ?_ h
  intro evs s t e s' o hrun hd hstep
  exact dataInv_step hfiles hf hrun hd (step_of_system hstep)

/-! ## What is on disk at the end -/

/-- Every commit copies `row_size` bytes of the log's format, as the tracer modules do. -/
def CommitsRows (L : Logger φ) (evs : List LoggerEvent) : Prop :=
  ∀ e ∈ evs, ∀ fName row buf, e = .commit fName row buf → row.length = rowSizeOf L.fileFormat fName

/-- Every row of the log below its count is in its file, byte for byte. -/
def RowsOnDisk (L : Logger φ) (index : Nat) (evs : List LoggerEvent) (s : LoggerState φ) : Prop :=
  ∃ fwf f, L.fileFormat[index]? = some fwf ∧ L.fdSet[index]? = some f ∧
    ∀ k, k < s.fileCommitCount index →
      ∃ row, (committed L index evs)[k]? = some row ∧ (s.files f).HoldsAt (k * fwf.rowSize) row

omit [DecidableEq φ] in
/-- The records of a log have its row size. -/
theorem CommitsRows.length_eq {evs : List LoggerEvent} (h : CommitsRows L evs) {index : Nat}
    {fwf : FileWithFormat} (hfwf : L.fileFormat[index]? = some fwf) :
    ∀ row ∈ committed L index evs, row.length = fwf.rowSize := by
  intro row hrow
  obtain ⟨e, he, hsome⟩ := List.mem_filterMap.mp hrow
  cases e with
  | commit fName row' buf =>
      simp only [Option.ite_none_right_eq_some, Option.some.injEq] at hsome
      obtain ⟨hidx, rfl⟩ := hsome
      rw [h _ he fName row' buf rfl, rowSizeOf, hidx, hfwf]
      rfl
  | _ => simp at hsome

theorem rowsOnDisk_iff_whole {evs : List LoggerEvent} {s : LoggerState φ} {t : List (LoggerAction φ)}
    (hfiles : L.FilesDistinct) (hrows : CommitsRows L evs) (h : L.system.run evs = some (s, t))
    (hpc : s.pc = .released) {index : Nat} (hidx : index < L.fileFormat.length) :
    RowsOnDisk L index evs s ↔ Run.AllSteps (L.system.Before (StoresWhole (.fixed index))) evs := by
  have hfwf : L.fileFormat[index]? = some L.fileFormat[index] := List.getElem?_eq_getElem hidx
  obtain ⟨f, hf⟩ : ∃ f, L.fdSet[index]? = some f := by
    rw [fdSet, List.getElem?_map, hfwf]
    exact ⟨_, rfl⟩
  have hd := dataInv_run hfiles hf h
  have hsz := hrows.length_eq hfwf
  have hempty : (view (.fixed index) f (committed L index evs).flatten s).pending = [] := by
    simp [view, ((phase_run h).of_released hpc).1]
  rw [← hd.file.whole_iff, ← Assembly.rows_iff_whole hd.file.inv hempty rfl hsz]
  constructor
  · rintro ⟨fwf, f', hfwf', hf', hall⟩ k row hrow
    obtain rfl : L.fileFormat[index] = fwf := Option.some.inj (hfwf.symm.trans hfwf')
    obtain rfl : f = f' := Option.some.inj (hf.symm.trans hf')
    have hk : k < s.fileCommitCount index := by
      rw [hd.count]
      exact (List.getElem?_eq_some_iff.mp hrow).1
    obtain ⟨row', hrow', hat⟩ := hall k hk
    rw [Option.some.inj (hrow.symm.trans hrow')]
    exact hat
  · intro hall
    refine ⟨_, f, hfwf, hf, ?_⟩
    intro k hk
    rw [hd.count] at hk
    exact ⟨_, List.getElem?_eq_getElem hk, hall k _ (List.getElem?_eq_getElem hk)⟩

/-- **The rows below the counts are all on disk exactly if every write to a log stored its whole buffer.** -/
theorem rowsOnDisk_iff {evs : List LoggerEvent} {s : LoggerState φ} {t : List (LoggerAction φ)}
    (hfiles : L.FilesDistinct) (hrows : CommitsRows L evs) (h : L.system.run evs = some (s, t))
    (hpc : s.pc = .released) :
    (∀ index, index < L.fileFormat.length → RowsOnDisk L index evs s) ↔
      ∀ index, index < L.fileFormat.length →
        Run.AllSteps (L.system.Before (StoresWhole (.fixed index))) evs := by
  constructor
  · intro hall index hidx
    exact (rowsOnDisk_iff_whole hfiles hrows h hpc hidx).mp (hall index hidx)
  · intro hall index hidx
    exact (rowsOnDisk_iff_whole hfiles hrows h hpc hidx).mpr (hall index hidx)

theorem rowsOnDisk_oneRecord :
    ∃ s t, oneLog.system.run (oneRecord 15 [.execute 0 2, .execute 0 0]) = some (s, t) ∧
      ∀ index, index < oneLog.fileFormat.length →
        RowsOnDisk oneLog index (oneRecord 15 [.execute 0 2, .execute 0 0]) s := by
  obtain ⟨s, t, hst, hpc⟩ := oneRecord_released
  have hrows : CommitsRows oneLog (oneRecord 15 [.execute 0 2, .execute 0 0]) := by
    intro e he fName row buf heq
    subst heq
    obtain ⟨rfl, rfl, -⟩ : fName = "a" ∧ row = [7, 8] ∧ buf = 4096 := by simpa [oneRecord] using he
    rfl
  refine ⟨s, t, hst, (rowsOnDisk_iff (by decide) hrows hst hpc).mpr ?_⟩
  intro index hidx
  obtain rfl : index = 0 := by
    have hlen : oneLog.fileFormat.length = 1 := rfl
    omega
  decide

/-- The write of the record fails with `EIO`; `log_meta` counts the record all the same. -/
theorem not_rowsOnDisk_oneRecord :
    ∃ s t, oneLog.system.run (oneRecord 15 [.execute 0 (-5), .execute 0 0]) = some (s, t) ∧
      s.pc = .released ∧ s.fileCommitCount 0 = 1 ∧
        ¬ RowsOnDisk oneLog 0 (oneRecord 15 [.execute 0 (-5), .execute 0 0]) s := by
  have hrun : (oneLog.system.run (oneRecord 15 [.execute 0 (-5), .execute 0 0])).map
      (fun r => (r.1.pc, r.1.fileCommitCount 0, r.1.files (strBytes "t/a") 0)) =
        some (.released, 1, none) := by decide
  obtain ⟨⟨s, t⟩, hst, heq⟩ := Option.map_eq_some_iff.mp hrun
  simp only [Prod.mk.injEq] at heq
  obtain ⟨hpc, hcount, hnone⟩ := heq
  refine ⟨s, t, hst, hpc, hcount, ?_⟩
  rintro ⟨fwf, f, -, hf, hall⟩
  obtain rfl : strBytes "t/a" = f := by
    have hfd : oneLog.fdSet[0]? = some (strBytes "t/a") := by decide
    exact Option.some.inj (hfd.symm.trans hf)
  obtain ⟨row, hrow, hat⟩ := hall 0 (by omega)
  obtain rfl : [7, 8] = row := by
    have hcom : (committed oneLog 0 (oneRecord 15 [.execute 0 (-5), .execute 0 0]))[0]? = some [7, 8] := by
      decide
    exact Option.some.inj (hcom.symm.trans hrow)
  -- the first byte of the row is not there
  have hbyte := hat 0 (by decide)
  rw [Nat.zero_mul, hnone] at hbyte
  simp at hbyte

end Logger

end StorTrace
