import StorTrace.Viewer.OutputDir

/-!
# `Viewer.FlowReport` — the requests of a trace, from `main` to the viewer (`query_flow`)

`main` has removed `rq_result` with the output directory, so `process_dio_info_event` finds clean data there. But then
the directory the viewer reads from is new and stays empty: for no name of a trace that is a plain path do the files
get into it (`flows_missing`).
-/

namespace StorTrace

open FileTree FileTree.FileSystem Meta

variable {fs : FileSystem ResultFile} {name : Str}

/-- **The files go elsewhere**: where the output directory is named twice, the last component of the path and its first
    one become one name. -/
theorem not_samePlace_plain (hplain : PlainPath (outPath name)) (i : Nat) : ¬ SamePlace fs (outPath name) i := by
  obtain ⟨m, ms, hm⟩ := List.exists_cons_of_ne_nil (List.splitOn_ne_nil (47 : UInt8) (outPath name))
  obtain ⟨ns, n, hout, htwice⟩ := splitOn_append hm (outPath name)
  have hproper := hplain
  rw [PlainPath, hout, List.forall_mem_append, List.forall_mem_singleton] at hproper
  have hfirst := hplain
  rw [PlainPath, hm, List.forall_mem_cons] at hfirst
  have hnames : ∀ k ∈ (outPath name ++ outPath name).splitOn 47, Proper k := by
    rw [htwice, List.forall_mem_append, List.forall_mem_cons]
    exact ⟨hproper.1, hproper.2.append hfirst.1.1, hfirst.2⟩
  have hrq : Proper rqResultName ∧ (47 : UInt8) ∉ rqResultName := by decide
  have hdump : rqDumpPath (outPath name) = dumpPath (outPath name ++ outPath name) ++ 47 :: rqResultName := by
    simp [rqDumpPath, dumpPath, dirName, rqResult, rqResultName]
  rintro ⟨e, he, he', -⟩
  -- both places, component by component
  have hnil : dumpPath (outPath name ++ outPath name) ≠ [] := List.cons_ne_nil _ _
  rw [hdump, dirAt_slash hnil hrq.2, dirAt_dumpPath] at he
  obtain ⟨p, hp, hpe⟩ := Option.bind_eq_some_iff.mp he
  have hview : fs.dirAt (viewerPath (outPath name) ++ rqResult) =
      (fs.dirAt (viewerPath (outPath name))).bind (fs.enter · rqResultName) :=
    dirAt_slash (viewerPath_outPath_ne_nil name) hrq.2
  rw [hview, dirAt_viewerPath, dirAt_dumpPath] at he'
  obtain ⟨p', hp', hpe'⟩ := Option.bind_eq_some_iff.mp he'
  have hsame : p ++ [rqResultName] = p' ++ [rqResultName] := (enter_proper hrq.1 hpe).symm.trans (enter_proper hrq.1 hpe')
  rw [walk_proper hnames hp, walk_proper hplain hp', htwice, hout] at hsame
  have hlast := (List.cons.inj (List.append_cancel_left (List.append_cancel_left (List.append_cancel_right hsame)))).1
  exact hfirst.1.1 (List.append_right_eq_self.mp hlast)

/-- **No request is found**: after `main` has made the output directory anew, the post-processor comes to its end once it
    has its results for the direct I/Os themselves (of an empty table it gets none, as it reads the first row), and
    `query_flow` raises for every direct I/O with a request. -/
theorem flows_missing {d : Place} {names : List Name} (htrace : TraceDir fs name d) (hnames : Expansion fs d names)
    (strampSeq latency : ResultFile) (dInfo rqInfo : List (List UInt8)) (order : List (Nat × List Nat))
    (hlist : Grouping.Listing (dioRqMap dInfo rqInfo) order) :
    ∃ fs', processDioInfoEvent (setUpOutput fs name (outPath name) names) (outPath name) strampSeq latency rqInfo order =
        .ok fs' ∧
      ∀ i, (∃ b, Joined dInfo rqInfo i b) → queryFlow fs' (outPath name) (stdToString i) = none := by
  obtain ⟨-, -, -, -, -, hplain⟩ := htrace.exists_places
  have hrq : Proper rqResultName ∧ (47 : UInt8) ∉ rqResultName := by decide
  have hout := outPath_ne_nil name
  have hfresh := freshCopy_setUpOutput htrace hnames
  generalize setUpOutput fs name (outPath name) names = fs₁ at hfresh ⊢
  generalize outPlace fs name = d' at hfresh
  have hdir : fs₁.dirAt (outPath name) = some d' := by
    rw [FileSystem.dirAt, hplain.start, ← dirAt_dumpPath]
    exact hfresh.dump
  have hempty : fs₁.node (d' ++ [rqResultName]) = none := by
    rw [hfresh.file, if_neg (by decide)]
  have hclean : fs₁.exists? (dirName (outPath name)) = false := not_exists_slash hout hrq.1 hrq.2 hdir hempty
  refine ⟨_, processDioInfoEvent_eq strampSeq latency rqInfo hclean order, fun i hi => ?_⟩
  obtain ⟨rows, hlookup, -⟩ := exists_rows hi
  have hread := (read_dumpAll rqInfo strampSeq latency hout hclean hlist.nodup (hlist.mem_iff.mpr hlookup)).2
    (not_samePlace_plain hplain i)
  have hkeeps : Keeps (· ≠ rqResultName) fs₁ (fs₁.mkdir (dirName (outPath name))) := keeps_mkdir hout hrq.1 hrq.2
  have hnone : (fs₁.mkdir (dirName (outPath name))).read
      (viewerPath (outPath name) ++ rqResult ++ 47 :: (stdToString i ++ jsonSuffix)) = none := by
    rw [read_rqFile]
    refine Option.bind_eq_none_iff.mpr (fun e he => ?_)
    have hview : (fs₁.mkdir (dirName (outPath name))).dirAt (viewerPath (outPath name) ++ rqResult) =
        ((fs₁.mkdir (dirName (outPath name))).dirAt (viewerPath (outPath name))).bind (FileSystem.enter _ · rqResultName) :=
      dirAt_slash (viewerPath_outPath_ne_nil name) hrq.2
    rw [hview, hkeeps.dirAt hfresh.viewer, Option.bind_some] at he
    rw [enter_proper hrq.1 he, hkeeps.contents _ (rqFile_ne (by decide) rfl), contents]
    -- nothing was in the directory before it was made
    have hfree : fs₁.node (d' ++ [rqResultName] ++ [rqFile i]) = none := by
      by_contra hne
      exact absurd (hempty.symm.trans (fs₁.parent_dir _ _ hne)) (by simp)
    rw [hfree]
  rw [queryFlow, hread, hnone]
  rfl

/-- One direct I/O with one request, in the trace `t`. -/
theorem flows_missing_one_request :
    ∃ fs', processDioInfoEvent (setUpOutput (onlyDir [116]) [116] (outPath [116]) []) (outPath [116]) (.other []) (.other [])
        [zeroRow 64] ((dioRqMap [zeroRow 40] [zeroRow 64]).entries.map (fun e => (e.1, e.2))) = .ok fs' ∧
      queryFlow fs' (outPath [116]) (stdToString 0) = none := by
  have htrace : TraceDir (onlyDir [116] : FileSystem ResultFile) [116] [[116]] :=
    traceDir_onlyDir (by decide) (by decide) (by decide)
  obtain ⟨fs', hrun, hnone⟩ := flows_missing htrace (expansion_onlyDir _) (.other []) (.other []) [zeroRow 40] [zeroRow 64] _
    (Grouping.Listing.refl _)
  exact ⟨fs', hrun, hnone 0 ⟨0, zeroRow 40, zeroRow 64, rfl, rfl, by decide⟩⟩

end StorTrace
