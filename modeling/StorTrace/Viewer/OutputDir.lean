import Mathlib.Data.List.TakeWhile
import StorTrace.Lib.FileCopy
import StorTrace.Viewer.Flow

/-!
# `Viewer.OutputDir` — from the directory of a trace to the one the viewer is started on (`main`)

After the trace, `main` removes the output directory, makes it again and copies every `*.json` of the trace into it. The
directory of the trace itself is never cleared: `mkdir` in the logger leaves an existing one as it is. So the viewer gets
what the modules have written, and also what an earlier trace of the same name has left (`freshCopy_setUpOutput`).
-/

namespace StorTrace

open FileTree FileTree.FileSystem

variable {κ : Type}

/-! ## `main` -/

/-- `*.json`, as the shell matches it. -/
def Matches (n : Name) : Prop := jsonSuffix <:+ n ∧ n.head? ≠ some 46 ∧ (47 : UInt8) ∉ n

instance (n : Name) : Decidable (Matches n) := inferInstanceAs (Decidable (_ ∧ _ ∧ _))

/-- What `*.json` stands for in the directory `d`, in some order. -/
structure Expansion (fs : FileSystem κ) (d : Place) (names : List Name) : Prop where
  nodup : names.Nodup
  mem_iff : ∀ n, n ∈ names ↔ fs.node (d ++ [n]) ≠ none ∧ Matches n

/-- `rm -rf`, `stat`, `mkdir` and `cp`, with `names` for `*.json`. -/
def setUpOutput (fs : FileSystem κ) (path out : Str) (names : List Name) : FileSystem κ :=
  let fs := fs.removeTree out
  if fs.exists? out then fs else (fs.mkdir out).copyFiles path (dumpPath out) names

/-! ## The directories -/

/-- What the shell would not take as it is: blanks, quotes, operators and patterns. A command ends at a NUL. -/
def shellSpecial : List UInt8 := 0 :: strBytes "\t\n \"#$&'()*;<>?[\\\x60\x7b|\x7d~"

/-- One word to the shell, and no option to a command. -/
def ShellWord (path : Str) : Prop := (∀ c ∈ path, c ∉ shellSpecial) ∧ path.head? ≠ some 45

instance (path : Str) : Decidable (ShellWord path) := @instDecidableAnd _ _ (List.decidableBAll _ _) inferInstance

/-- **The directory `d` of the trace `name`**, below the current one; the shell takes the name as it is. -/
structure TraceDir (fs : FileSystem κ) (name : Str) (d : Place) : Prop where
  plain : PlainPath name
  word : ShellWord name
  place : d = fs.cwd ++ name.splitOn 47
  dir : fs.node d = some .dir

/-- The place of the output directory. -/
def outPlace (fs : FileSystem κ) (name : Str) : Place := fs.cwd ++ (outPath name).splitOn 47

/-- **The output directory `d'` is a fresh copy** of the `*.json` in `d`: the post-processor and the viewer find it, it
    has nothing else in it, and nothing has changed elsewhere. -/
structure FreshCopy (fs fs' : FileSystem κ) (name : Str) (d d' : Place) : Prop where
  dump : fs'.dirAt (dumpPath (outPath name)) = some d'
  viewer : fs'.dirAt (viewerPath (outPath name)) = some d'
  file : ∀ n, fs'.node (d' ++ [n]) = if Matches n then (fs.contents (d ++ [n])).map .file else none
  elsewhere : ∀ q, ¬ d' <+: q → fs'.node q = fs.node q

section Paths

variable {fs : FileSystem κ}

/-- A leading slash is no component. -/
theorem walk_viewerPath (out : Str) (d : Place) : fs.walk d ((viewerPath out).splitOn 47) = fs.walk d (out.splitOn 47) := by
  induction out with
  | nil => rfl
  | cons c rest ih =>
      by_cases hc : c = 47
      · subst hc
        have hstrip : viewerPath (47 :: rest) = viewerPath rest := rfl
        have hsplit : (47 :: rest : Str).splitOn 47 = [] :: rest.splitOn 47 :=
          List.splitOn_append_cons_self_of_not_mem (by simp : (47 : UInt8) ∉ []) rest
        rw [hstrip, ih, hsplit]
        rfl
      · have hstrip : viewerPath (c :: rest) = c :: rest := List.dropWhile_cons_of_neg (by simpa using hc)
        rw [hstrip]

theorem dirAt_dumpPath (out : Str) : fs.dirAt (dumpPath out) = fs.walk fs.cwd (out.splitOn 47) := by
  have hsplit : (dumpPath out).splitOn 47 = [46] :: out.splitOn 47 :=
    List.splitOn_append_cons_self_of_not_mem (by decide : (47 : UInt8) ∉ [46]) out
  unfold dirAt
  rw [hsplit]
  rfl

/-- **The post-processor and the viewer mean the same directory.** -/
theorem dirAt_viewerPath (out : Str) : fs.dirAt (viewerPath out) = fs.dirAt (dumpPath out) := by
  have hstart : fs.start (viewerPath out) = fs.cwd := by
    apply if_neg
    intro hhead
    have hnot := List.head?_dropWhile_not (fun c : UInt8 => c = 47) out
    rw [show out.dropWhile (fun c => c = 47) = viewerPath out from rfl, hhead] at hnot
    exact absurd hnot (by simp)
  rw [dirAt_dumpPath, dirAt, hstart, walk_viewerPath]

/-- The output directory of a trace ends in `_dump`, so something is left of its path in the viewer. -/
theorem viewerPath_outPath_ne_nil (name : Str) : viewerPath (outPath name) ≠ [] := by
  intro h
  have hall := List.dropWhile_eq_nil_iff.mp h
  have hunder : (95 : UInt8) ∈ outPath name := by
    rw [outPath, List.mem_append]
    exact Or.inr List.mem_cons_self
  exact absurd (hall 95 hunder) (by decide)

end Paths

/-- The two directories of a trace lie side by side. -/
theorem TraceDir.exists_places {fs : FileSystem κ} {name : Str} {d : Place} (h : TraceDir fs name d) :
    ∃ ns n, (outPath name).splitOn 47 = ns ++ [n ++ [95, 100, 117, 109, 112]] ∧ d = fs.cwd ++ ns ++ [n] ∧
      fs.node (fs.cwd ++ ns) = some .dir ∧ PlainPath (outPath name) := by
  obtain ⟨ns, n, hname, hout⟩ := splitOn_append_suffix (by decide : (47 : UInt8) ∉ [95, 100, 117, 109, 112]) name
  have hplace : d = fs.cwd ++ ns ++ [n] := by rw [h.place, hname, List.append_assoc]
  have hparent : fs.node (fs.cwd ++ ns) = some .dir := by
    apply fs.parent_dir _ n
    rw [← hplace, h.dir]
    exact Option.some_ne_none _
  have hplain := h.plain
  rw [PlainPath, hname, List.forall_mem_append] at hplain
  refine ⟨ns, n, hout, hplace, hparent, ?_⟩
  rw [PlainPath, outPath, hout, List.forall_mem_append, List.forall_mem_singleton]
  refine ⟨hplain.1, ?_⟩
  have hlen : 2 < (n ++ [95, 100, 117, 109, 112]).length := by
    rw [List.length_append]
    exact Nat.lt_of_lt_of_le (by decide : 2 < 5) (Nat.le_add_left _ _)
  refine ⟨?_, ?_, ?_⟩ <;>
  · intro heq
    rw [heq] at hlen
    exact absurd hlen (by decide)

/-- What matches is a name of a file. -/
theorem Matches.proper {n : Name} (h : Matches n) : Proper n ∧ (47 : UInt8) ∉ n := by
  obtain ⟨⟨stem, rfl⟩, -, hslash⟩ := h
  exact ⟨proper_append_jsonSuffix stem, hslash⟩

/-- The names that are copied. -/
theorem Expansion.proper {fs : FileSystem κ} {d : Place} {names : List Name} (h : Expansion fs d names) :
    ∀ n ∈ names, Proper n ∧ (47 : UInt8) ∉ n := fun n hn => ((h.mem_iff n).mp hn).2.proper

section SetUp

variable {fs : FileSystem κ} {name : Str} {d : Place} (h : TraceDir fs name d)

include h

/-- The output directory is neither the directory of the trace nor above it. -/
theorem TraceDir.not_outPlace_prefix (l : Place) : ¬ outPlace fs name <+: d ++ l := by
  obtain ⟨ns, n, hout, hd, -, -⟩ := h.exists_places
  have hplace : outPlace fs name = fs.cwd ++ ns ++ [n ++ [95, 100, 117, 109, 112]] := by
    rw [outPlace, hout, List.append_assoc]
  have hlen : (outPlace fs name).length = d.length := by
    simp only [hplace, hd, List.length_append, List.length_singleton]
  intro hprefix
  have hsame := (List.prefix_of_prefix_length_le hprefix (List.prefix_append d l) hlen.le).eq_of_length hlen
  rw [hplace, hd] at hsame
  have hlast := (List.cons.inj (List.append_cancel_left hsame)).1
  exact absurd (List.append_right_eq_self.mp hlast) (by simp)

theorem TraceDir.not_outPlace_prefix_cwd : ¬ outPlace fs name <+: fs.cwd := by
  obtain ⟨ns, n, hout, -, -, -⟩ := h.exists_places
  intro hprefix
  have hle := hprefix.length_le
  rw [outPlace, hout, List.length_append, List.length_append, List.length_singleton] at hle
  omega

/-- The output path leads to its place wherever the directory above it is. -/
theorem TraceDir.exists_locate : ∃ l : Place × Name, l.1 ++ [l.2] = outPlace fs name ∧ fs.node l.1 = some .dir ∧
    ¬ outPlace fs name <+: l.1 ∧
    ∀ fs' : FileSystem κ, fs'.cwd = fs.cwd → fs'.node l.1 = some .dir → fs'.locate (outPath name) = some l := by
  obtain ⟨ns, n, hout, -, hparent, hplain⟩ := h.exists_places
  refine ⟨(fs.cwd ++ ns, n ++ [95, 100, 117, 109, 112]), by rw [outPlace, hout, List.append_assoc], hparent, ?_, ?_⟩
  · intro hprefix
    have hle := hprefix.length_le
    rw [outPlace, hout, List.length_append, List.length_append, List.length_append, List.length_singleton] at hle
    omega
  · intro fs' hcwd hdir
    rw [← hcwd] at hdir ⊢
    exact locate_plain hplain hout hdir

/-- What `rm -rf` leaves. -/
theorem TraceDir.node_cleared (q : Place) :
    (fs.removeTree (outPath name)).node q = if outPlace fs name <+: q then none else fs.node q := by
  obtain ⟨l, hl, hdir, -, hlocate⟩ := h.exists_locate
  rw [← hl]
  exact node_removeTree (hlocate fs rfl hdir) (by rw [hl]; exact h.not_outPlace_prefix_cwd) q

/-- `stat` finds nothing then. -/
theorem TraceDir.not_exists_cleared : (fs.removeTree (outPath name)).exists? (outPath name) = false := by
  obtain ⟨l, hl, hdir, hnot, hlocate⟩ := h.exists_locate
  obtain ⟨-, -, -, -, -, hplain⟩ := h.exists_places
  have hgone : (fs.removeTree (outPath name)).node (outPlace fs name) = none := by
    rw [h.node_cleared, if_pos (List.prefix_refl _)]
  have hparent : (fs.removeTree (outPath name)).node l.1 = some .dir := by rw [h.node_cleared, if_neg hnot, hdir]
  have hdirAt : (fs.removeTree (outPath name)).dirAt (outPath name) = none := by
    refine Option.eq_none_iff_forall_ne_some.mpr (fun e he => ?_)
    have hplace := walk_proper hplain he
    rw [hplain.start, cwd_removeTree] at hplace
    have hnode := walk_dir (start_dir (outPath name)) he
    rw [hplace] at hnode
    exact absurd (hgone.symm.trans hnode) (by simp)
  rw [exists?, hdirAt, hlocate _ (cwd_removeTree _) hparent]
  show (((fs.removeTree (outPath name)).node (l.1 ++ [l.2])).isSome : Bool) = false
  rw [hl, hgone]
  rfl

/-- And `mkdir` makes the directory. -/
theorem TraceDir.node_made (q : Place) : ((fs.removeTree (outPath name)).mkdir (outPath name)).node q =
    if q = outPlace fs name then some .dir else if outPlace fs name <+: q then none else fs.node q := by
  obtain ⟨l, hl, hdir, hnot, hlocate⟩ := h.exists_locate
  have hparent : (fs.removeTree (outPath name)).node l.1 = some .dir := by rw [h.node_cleared, if_neg hnot, hdir]
  rw [node_mkdir (hlocate _ (cwd_removeTree _) hparent), hl, h.node_cleared]
  by_cases hq : q = outPlace fs name
  · subst hq
    rw [if_pos rfl, if_pos (List.prefix_refl _), if_pos ⟨rfl, rfl⟩]
  · rw [if_neg hq, if_neg (fun hboth => hq hboth.1)]

/-- **`main` makes the output directory anew.** -/
theorem freshCopy_setUpOutput {names : List Name} (hnames : Expansion fs d names) :
    FreshCopy fs (setUpOutput fs name (outPath name) names) name d (outPlace fs name) := by
  obtain ⟨-, -, -, -, -, hplain⟩ := h.exists_places
  have hset : setUpOutput fs name (outPath name) names =
      ((fs.removeTree (outPath name)).mkdir (outPath name)).copyFiles name (dumpPath (outPath name)) names :=
    if_neg (by rw [h.not_exists_cleared]; simp)
  rw [hset]
  have hmade := h.node_made
  have hcwd : ((fs.removeTree (outPath name)).mkdir (outPath name)).cwd = fs.cwd := by rw [cwd_mkdir, cwd_removeTree]
  generalize (fs.removeTree (outPath name)).mkdir (outPath name) = made at hmade hcwd
  -- the two directories of the copy
  have hout : made.dirAt (dumpPath (outPath name)) = some (outPlace fs name) := by
    rw [dirAt_dumpPath, hcwd]
    apply walk_plain hplain
    exact (hmade (outPlace fs name)).trans (if_pos rfl)
  have hplaces : d ≠ outPlace fs name := by
    intro heq
    have hnot := h.not_outPlace_prefix []
    rw [List.append_nil, heq] at hnot
    exact hnot (List.prefix_refl _)
  have htrace : made.dirAt name = some d := by
    have hnode : made.node (made.cwd ++ name.splitOn 47) = some .dir := by
      rw [hcwd, ← h.place, hmade, if_neg hplaces, if_neg (by simpa using h.not_outPlace_prefix []), h.dir]
    rw [dirAt_plain h.plain hnode, hcwd, ← h.place]
  have hcontents (n : Name) : made.contents (d ++ [n]) = fs.contents (d ++ [n]) := by
    have hne : d ++ [n] ≠ outPlace fs name := fun heq => h.not_outPlace_prefix [n] (heq ▸ List.prefix_refl _)
    rw [contents, contents, hmade, if_neg hne, if_neg (h.not_outPlace_prefix [n])]
  have hdump : dumpPath (outPath name) ≠ [] := List.cons_ne_nil _ _
  rw [copyFiles_eq h.plain.ne_nil hdump htrace hout hplaces hnames.proper]
  have hfiles : ∀ f ∈ made.filesOf d names, Proper f.1 ∧ (47 : UInt8) ∉ f.1 :=
    fun f hf => hnames.proper f.1 (mem_filesOf.mp hf).1
  have hdirs : SameDirs made (made.writeFiles (dumpPath (outPath name)) (made.filesOf d names)) := sameDirs_writeFiles _ _
  have hempty (n : Name) : made.node (outPlace fs name ++ [n]) = none := by
    rw [hmade, if_neg (by simp), if_pos (List.prefix_append _ _)]
  refine ⟨by rw [hdirs.dirAt, hout], by rw [hdirs.dirAt, dirAt_viewerPath, hout], ?_, ?_⟩
  · intro n
    by_cases hcopied : ∃ content, Matches n ∧ fs.contents (d ++ [n]) = some content
    · obtain ⟨content, hmatch, hcontent⟩ := hcopied
      have hnode : fs.node (d ++ [n]) ≠ none := by
        intro hnone
        rw [contents, hnone] at hcontent
        cases hcontent
      have hmem : (n, content) ∈ made.filesOf d names :=
        mem_filesOf.mpr ⟨(hnames.mem_iff n).mpr ⟨hnode, hmatch⟩, (hcontents n).trans hcontent⟩
      have hfree : made.isDir (outPlace fs name ++ [n]) = false := by rw [isDir, hempty]
      rw [node_writeFiles_of_mem hdump hfiles (nodup_filesOf hnames.nodup) hmem,
        if_pos ⟨hout, hfree⟩, if_pos hmatch, hcontent, Option.map_some]
    · have hnot : n ∉ (made.filesOf d names).map Prod.fst := by
        intro hmem
        obtain ⟨f, hf, rfl⟩ := List.mem_map.mp hmem
        obtain ⟨hname, hcontent⟩ := mem_filesOf.mp hf
        exact hcopied ⟨f.2, ((hnames.mem_iff f.1).mp hname).2, (hcontents f.1).symm.trans hcontent⟩
      rw [node_writeFiles_of_notMem hdump hfiles hnot, hempty]
      by_cases hmatch : Matches n
      · have hnone : fs.contents (d ++ [n]) = none :=
          Option.eq_none_iff_forall_ne_some.mpr (fun content hcontent => hcopied ⟨content, hmatch, hcontent⟩)
        rw [if_pos hmatch, hnone, Option.map_none]
      · rw [if_neg hmatch]
  · intro q hq
    have hlast : q.dropLast ≠ outPlace fs name := fun heq => hq (heq ▸ List.dropLast_prefix q)
    rw [node_writeFiles_of_ne hdump hout hfiles hlast, hmade,
      if_neg (fun heq : q = outPlace fs name => hq (heq ▸ List.prefix_refl _)), if_neg hq]

end SetUp

/-- **The viewer reads what was in the directory of the trace**, whatever else has been written since. -/
theorem FreshCopy.read_viewer {fs fs' fs'' : FileSystem κ} {name : Str} {d d' : Place} (h : FreshCopy fs fs' name d d')
    {P : Name → Prop} (hkeeps : Keeps P fs' fs'') {n : Name} (hn : P n) (hmatch : Matches n) :
    fs''.read (viewerPath (outPath name) ++ 47 :: n) = fs.contents (d ++ [n]) := by
  obtain ⟨hproper, hslash⟩ := hmatch.proper
  rw [read_slash (viewerPath_outPath_ne_nil name) hproper hslash, hkeeps.dirAt h.viewer, Option.bind_some,
    hkeeps.contents d' hn, contents, h.file, if_pos hmatch]
  cases fs.contents (d ++ [n]) with
  | none => rfl
  | some content => rfl

/-! ## Files of a trace -/

/-- The directory of a trace is found by its name. -/
theorem TraceDir.dirAt {fs : FileSystem κ} {name : Str} {d : Place} (h : TraceDir fs name d) :
    fs.dirAt name = some d := by
  rw [h.place]
  exact dirAt_plain h.plain (h.place ▸ h.dir)

/-- It stays the directory of the trace, whatever is written besides the files that are kept. -/
theorem TraceDir.keeps {fs fs' : FileSystem κ} {name : Str} {d : Place} {P : Name → Prop} (h : TraceDir fs name d)
    (hkeeps : Keeps P fs fs') : TraceDir fs' name d :=
  ⟨h.plain, h.word, by rw [hkeeps.cwd, h.place], hkeeps.dir d h.dir⟩

/-- So it does when files are written into it. -/
theorem TraceDir.writeFiles {fs : FileSystem κ} {name : Str} {d : Place} (h : TraceDir fs name d)
    (files : List (Name × κ)) : TraceDir (fs.writeFiles name files) name d := by
  have hdirs : SameDirs fs (fs.writeFiles name files) := sameDirs_writeFiles _ _
  refine ⟨h.plain, h.word, by rw [hdirs.cwd, h.place], ?_⟩
  rw [← isDir_iff, hdirs.isDir, isDir_iff]
  exact h.dir

/-- A file that is written into it can be read. -/
theorem TraceDir.contents_write {fs : FileSystem κ} {name : Str} {d : Place} (h : TraceDir fs name d) {n : Name}
    (hmatch : Matches n) (hfree : fs.isDir (d ++ [n]) = false) (content : κ) :
    (fs.write (name ++ 47 :: n) content).contents (d ++ [n]) = some content := by
  have hfile : ∀ f ∈ [(n, content)], Proper f.1 ∧ (47 : UInt8) ∉ f.1 := List.forall_mem_singleton.mpr hmatch.proper
  have hnode : (fs.write (name ++ 47 :: n) content).node (d ++ [n]) = _ :=
    (node_writeFiles_of_mem h.plain.ne_nil hfile (List.nodup_singleton _) List.mem_cons_self d).trans
      (if_pos ⟨h.dirAt, hfree⟩)
  rw [contents, hnode]

/-- What `*.json` stands for when nothing but some files has been written. -/
theorem Expansion.writeFiles {fs : FileSystem κ} {name : Str} {d : Place} (htrace : TraceDir fs name d)
    (hempty : Expansion fs d []) {files : List (Name × κ)} (hmatch : ∀ f ∈ files, Matches f.1)
    (hnodup : (files.map Prod.fst).Nodup) : Expansion (fs.writeFiles name files) d (files.map Prod.fst) where
  nodup := hnodup
  mem_iff n := by
    have hfiles : ∀ f ∈ files, Proper f.1 ∧ (47 : UInt8) ∉ f.1 := fun f hf => (hmatch f hf).proper
    have hfree (hn : Matches n) : fs.node (d ++ [n]) = none := by
      by_contra hnode
      exact List.not_mem_nil ((hempty.mem_iff n).mpr ⟨hnode, hn⟩)
    constructor
    · intro hmem
      obtain ⟨f, hf, rfl⟩ := List.mem_map.mp hmem
      have hdir : fs.isDir (d ++ [f.1]) = false := by rw [isDir, hfree (hmatch f hf)]
      refine ⟨?_, hmatch f hf⟩
      rw [node_writeFiles_of_mem htrace.plain.ne_nil hfiles hnodup hf, if_pos ⟨htrace.dirAt, hdir⟩]
      exact Option.some_ne_none _
    · rintro ⟨hnode, hn⟩
      by_contra hnot
      rw [node_writeFiles_of_notMem htrace.plain.ne_nil hfiles hnot] at hnode
      exact hnode (hfree hn)

/-! ## A directory with nothing in it -/

theorem traceDir_onlyDir {name : Name} (hproper : Proper name) (hslash : (47 : UInt8) ∉ name) (hword : ShellWord name) :
    TraceDir (onlyDir name : FileSystem κ) name [name] where
  plain := by
    rw [PlainPath, List.splitOn_eq_singleton hslash]
    exact List.forall_mem_singleton.mpr hproper
  word := hword
  place := by
    rw [List.splitOn_eq_singleton hslash]
    rfl
  dir := if_pos (Or.inr rfl)

theorem expansion_onlyDir (name : Name) : Expansion (onlyDir name : FileSystem κ) [name] [] where
  nodup := List.nodup_nil
  mem_iff n := iff_of_false List.not_mem_nil (fun h => h.1 (node_onlyDir name n))

end StorTrace
