import Mathlib.Data.List.Induction
import StorTrace.Lib.FileTree

/-!
# `Lib.FileCopy` — a directory made anew, with copies of files in it

`rm -rf`, `mkdir` and `cp` on a tree, and what a path finds after them. A plain path has no component that is empty or
a dot, so its place can be read off it (`dirAt_plain`). `Keeps` is what a reader of some names relies on while
something else goes on.
-/

namespace FileTree

namespace FileSystem

variable {κ : Type} {fs fs' : FileSystem κ}

/-! ## Plain paths -/

/-- A relative path, down from the current directory. -/
def PlainPath (path : List UInt8) : Prop := ∀ n ∈ path.splitOn 47, Proper n

instance (path : List UInt8) : Decidable (PlainPath path) := List.decidableBAll _ _

theorem PlainPath.ne_nil {path : List UInt8} (h : PlainPath path) : path ≠ [] := by
  rintro rfl
  exact (h [] List.mem_cons_self).1 rfl

theorem PlainPath.start {path : List UInt8} (h : PlainPath path) : fs.start path = fs.cwd := by
  refine if_neg (fun hhead => ?_)
  obtain ⟨rest, rfl⟩ := List.head?_eq_some_iff.mp hhead
  have hsplit : (47 :: rest : List UInt8).splitOn 47 = [] :: rest.splitOn 47 :=
    List.splitOn_append_cons_self_of_not_mem (by simp : (47 : UInt8) ∉ []) rest
  have hmem : ([] : Name) ∈ (47 :: rest : List UInt8).splitOn 47 := by
    rw [hsplit]
    exact List.mem_cons_self
  exact (h [] hmem).1 rfl

theorem walk_singleton (d : Place) (n : Name) : fs.walk d [n] = fs.enter d n := by
  rw [walk, List.foldlM_cons]
  exact bind_pure _

theorem walk_append (d : Place) (ns ns' : List Name) : fs.walk d (ns ++ ns') = (fs.walk d ns).bind (fs.walk · ns') :=
  List.foldlM_append

/-- **A directory is where its names lead.** -/
theorem walk_plain {d : Place} {ns : List Name} (hns : ∀ n ∈ ns, Proper n) (hdir : fs.node (d ++ ns) = some .dir) :
    fs.walk d ns = some (d ++ ns) := by
  induction ns using List.reverseRecOn with
  | nil => rw [List.append_nil]; rfl
  | append_singleton ns n ih =>
      obtain ⟨hns', hn⟩ := List.forall_mem_append.mp hns
      obtain ⟨hnil, hdot, hdots⟩ := hn n List.mem_cons_self
      rw [← List.append_assoc] at hdir
      have hparent : fs.node (d ++ ns) = some .dir := fs.parent_dir _ _ (by rw [hdir]; simp)
      have hhere : ¬ (n = [] ∨ n = [46]) := not_or.mpr ⟨hnil, hdot⟩
      have henter : fs.enter (d ++ ns) n = some (d ++ ns ++ [n]) := by
        rw [enter, if_neg hhere, if_neg hdots, if_pos (isDir_iff.mpr hdir)]
      rw [walk_append, ih hns' hparent, Option.bind_some, walk_singleton, henter, List.append_assoc]

theorem dirAt_plain {path : List UInt8} (h : PlainPath path) (hdir : fs.node (fs.cwd ++ path.splitOn 47) = some .dir) :
    fs.dirAt path = some (fs.cwd ++ path.splitOn 47) := by
  rw [dirAt, h.start, walk_plain h hdir]

/-- The place of a name in a directory. -/
theorem locate_plain {path : List UInt8} (h : PlainPath path) {ns : List Name} {n : Name}
    (hsplit : path.splitOn 47 = ns ++ [n]) (hdir : fs.node (fs.cwd ++ ns) = some .dir) :
    fs.locate path = some (fs.cwd ++ ns, n) := by
  have hproper := h
  rw [PlainPath, hsplit, List.forall_mem_append, List.forall_mem_singleton] at hproper
  simp only [locate, hsplit, List.getLast?_concat, Option.getD_some, List.dropLast_concat, if_pos hproper.2, h.start,
    walk_plain hproper.1 hdir, Option.map_some]

/-- Where two paths are put together, the last name of the one and the first of the other become one name. -/
theorem splitOn_append {c : UInt8} {path' : List UInt8} {n' : Name} {ns' : List Name} (h' : path'.splitOn c = n' :: ns')
    (path : List UInt8) :
    ∃ ns n, path.splitOn c = ns ++ [n] ∧ (path ++ path').splitOn c = ns ++ (n ++ n') :: ns' := by
  induction path with
  | nil => exact ⟨[], [], rfl, h'⟩
  | cons x rest ih =>
      obtain ⟨ns, n, hrest, hlong⟩ := ih
      rw [List.cons_append, List.splitOn_cons_eq_if_modifyHead, List.splitOn_cons_eq_if_modifyHead, hrest, hlong]
      by_cases hx : (x == c) = true
      · rw [if_pos hx, if_pos hx]
        exact ⟨[] :: ns, n, rfl, rfl⟩
      · rw [if_neg hx, if_neg hx]
        cases ns with
        | nil => exact ⟨[], x :: n, rfl, rfl⟩
        | cons m ns => exact ⟨(x :: m) :: ns, n, rfl, rfl⟩

/-- A suffix belongs to the last name. -/
theorem splitOn_append_suffix {c : UInt8} {suffix : List UInt8} (hsuffix : c ∉ suffix) (path : List UInt8) :
    ∃ ns n, path.splitOn c = ns ++ [n] ∧ (path ++ suffix).splitOn c = ns ++ [n ++ suffix] :=
  splitOn_append (List.splitOn_eq_singleton hsuffix) path

theorem Proper.append {n m : Name} (hn : Proper n) (hm : m ≠ []) : Proper (n ++ m) := by
  obtain ⟨hnil, hdot, -⟩ := hn
  obtain ⟨a, n, rfl⟩ := List.exists_cons_of_ne_nil hnil
  have hrest : n ++ m ≠ [] := fun h => hm (List.append_eq_nil_iff.mp h).2
  refine ⟨List.cons_ne_nil _ _, fun h => hrest (List.cons.inj h).2, fun h => ?_⟩
  -- two dots, of which the second is the whole of `m`
  obtain ⟨rfl, hsecond⟩ := List.cons.inj h
  rcases List.append_eq_singleton_iff.mp hsecond with ⟨rfl, -⟩ | ⟨-, rfl⟩
  · exact hdot rfl
  · exact hm rfl

/-- A directory in a directory that is given by a path. -/
theorem dirAt_slash {path : List UInt8} {n : Name} (hpath : path ≠ []) (hslash : (47 : UInt8) ∉ n) :
    fs.dirAt (path ++ 47 :: n) = (fs.dirAt path).bind (fs.enter · n) := by
  rw [dirAt, splitOn_slash hslash, start_append hpath, walk_append]
  simp only [walk_singleton]
  rfl

/-- A name that is free in a directory. -/
theorem not_exists_slash {path : List UInt8} {n : Name} {d : Place} (hpath : path ≠ []) (hn : Proper n)
    (hslash : (47 : UInt8) ∉ n) (hdir : fs.dirAt path = some d) (hfree : fs.node (d ++ [n]) = none) :
    fs.exists? (path ++ 47 :: n) = false := by
  have hnone : fs.dirAt (path ++ 47 :: n) = none := by
    rw [dirAt_slash hpath hslash, hdir, Option.bind_some]
    refine Option.eq_none_iff_forall_ne_some.mpr (fun e he => ?_)
    have hnode : fs.node (d ++ [n]) = some .dir := by
      rw [← enter_proper hn he]
      exact enter_dir (walk_dir (start_dir path) hdir) he
    exact absurd (hfree.symm.trans hnode) (by simp)
  rw [exists?, hnone, locate_slash hpath hn hslash, hdir, Option.map_some, Option.any_some, hfree]
  rfl

/-! ## Removing -/

/-- Nothing is left at a place or below it. -/
def prune (fs : FileSystem κ) (p : Place) (hroot : p ≠ []) (hcwd : ¬ p <+: fs.cwd) : FileSystem κ where
  node q := if p <+: q then none else fs.node q
  cwd := fs.cwd
  root_dir := by rw [if_neg (fun h => hroot (List.prefix_nil.mp h)), fs.root_dir]
  cwd_dir := by rw [if_neg hcwd, fs.cwd_dir]
  parent_dir d n h := by
    by_cases hp : p <+: d ++ [n]
    · exact absurd (if_pos hp) h
    · rw [if_neg hp] at h
      rw [if_neg (fun hd => hp (hd.trans (List.prefix_append d [n]))), fs.parent_dir d n h]

/-- `rm -rf`; what one is in stays. -/
def removeTree (fs : FileSystem κ) (path : List UInt8) : FileSystem κ :=
  match fs.locate path with
  | none => fs
  | some l => if hcwd : l.1 ++ [l.2] <+: fs.cwd then fs else fs.prune (l.1 ++ [l.2]) (by simp) hcwd

/-- What is anywhere after a tree was removed. -/
theorem node_removeTree {path : List UInt8} {l : Place × Name} (hl : fs.locate path = some l)
    (hcwd : ¬ l.1 ++ [l.2] <+: fs.cwd) (q : Place) :
    (fs.removeTree path).node q = if l.1 ++ [l.2] <+: q then none else fs.node q := by
  unfold removeTree
  rw [hl]
  show (dite _ _ _ : FileSystem κ).node q = _
  rw [dif_neg hcwd]
  rfl

@[simp] theorem cwd_removeTree (path : List UInt8) : (fs.removeTree path).cwd = fs.cwd := by
  unfold removeTree
  split
  · rfl
  · split <;> rfl

/-! ## Copying -/

/-- `cp`: the files of some names, from one directory into another; what is no file is left out. -/
def copyFiles (fs : FileSystem κ) (src dst : List UInt8) (names : List Name) : FileSystem κ :=
  names.foldl (fun fs n =>
    match fs.read (src ++ 47 :: n) with
    | some content => fs.write (dst ++ 47 :: n) content
    | none => fs) fs

/-- The files that are copied. -/
def filesOf (fs : FileSystem κ) (d : Place) (names : List Name) : List (Name × κ) :=
  names.filterMap (fun n => (fs.contents (d ++ [n])).map (fun content => (n, content)))

theorem mem_filesOf {d : Place} {names : List Name} {f : Name × κ} :
    f ∈ fs.filesOf d names ↔ f.1 ∈ names ∧ fs.contents (d ++ [f.1]) = some f.2 := by
  rw [filesOf, List.mem_filterMap]
  constructor
  · rintro ⟨n, hn, hf⟩
    obtain ⟨content, hcontent, rfl⟩ := Option.map_eq_some_iff.mp hf
    exact ⟨hn, hcontent⟩
  · rintro ⟨hn, hf⟩
    exact ⟨f.1, hn, by rw [hf]; rfl⟩

theorem nodup_filesOf {d : Place} {names : List Name} (h : names.Nodup) : ((fs.filesOf d names).map Prod.fst).Nodup := by
  refine List.Nodup.sublist ?_ h
  induction names with
  | nil => exact List.Sublist.refl _
  | cons n rest ih =>
      have hrest := ih (List.nodup_cons.mp h).2
      cases hcontent : fs.contents (d ++ [n]) with
      | none =>
          rw [filesOf, List.filterMap_cons_none (by rw [hcontent]; rfl)]
          exact hrest.cons n
      | some content =>
          rw [filesOf, List.filterMap_cons_some (by rw [hcontent]; rfl)]
          exact hrest.cons_cons n

/-- Files written into one directory change nothing elsewhere. -/
theorem node_writeFiles_of_ne {path : List UInt8} {d : Place} {files : List (Name × κ)} (hpath : path ≠ [])
    (hdir : fs.dirAt path = some d) (hfiles : ∀ f ∈ files, Proper f.1 ∧ (47 : UInt8) ∉ f.1) {q : Place}
    (hq : q.dropLast ≠ d) : (fs.writeFiles path files).node q = fs.node q := by
  induction files generalizing fs with
  | nil => rfl
  | cons f rest ih =>
      obtain ⟨⟨hn, hslash⟩, hrest⟩ := List.forall_mem_cons.mp hfiles
      have hdirs : SameDirs fs (fs.write (path ++ 47 :: f.1) f.2) := sameDirs_write _ _
      have hcons : fs.writeFiles path (f :: rest) = (fs.write (path ++ 47 :: f.1) f.2).writeFiles path rest := rfl
      rw [hcons, ih (by rw [hdirs.dirAt, hdir]) hrest, node_write_slash hpath hn hslash, if_neg]
      rintro ⟨hd, -⟩
      exact hq (Option.some.inj (hd.symm.trans hdir))

section Copy

variable {src dst : List UInt8} {d d' : Place} {names : List Name}

/-- Writing into a directory changes no file of another one. -/
theorem contents_write_of_ne (hdst : fs.dirAt dst = some d') (hpath : dst ≠ []) (hne : d ≠ d') {n : Name} (hn : Proper n)
    (hslash : (47 : UInt8) ∉ n) (content : κ) (m : Name) :
    (fs.write (dst ++ 47 :: n) content).contents (d ++ [m]) = fs.contents (d ++ [m]) := by
  have hfile : ∀ f ∈ [(n, content)], Proper f.1 ∧ (47 : UInt8) ∉ f.1 := List.forall_mem_singleton.mpr ⟨hn, hslash⟩
  have hnode : (fs.write (dst ++ 47 :: n) content).node (d ++ [m]) = fs.node (d ++ [m]) :=
    node_writeFiles_of_ne hpath hdst hfile (by rw [List.dropLast_concat]; exact hne)
  rw [contents, contents, hnode]

/-- **Copying writes the files of the one directory into the other.** -/
theorem copyFiles_eq (hsrc : src ≠ []) (hdst : dst ≠ []) (hd : fs.dirAt src = some d) (hd' : fs.dirAt dst = some d')
    (hne : d ≠ d') (hnames : ∀ n ∈ names, Proper n ∧ (47 : UInt8) ∉ n) :
    fs.copyFiles src dst names = fs.writeFiles dst (fs.filesOf d names) := by
  induction names generalizing fs with
  | nil => rfl
  | cons n rest ih =>
      obtain ⟨⟨hn, hslash⟩, hrest⟩ := List.forall_mem_cons.mp hnames
      have hread : fs.read (src ++ 47 :: n) = fs.contents (d ++ [n]) := by
        rw [read_slash hsrc hn hslash, hd, Option.bind_some]
      cases hcontent : fs.contents (d ++ [n]) with
      | none =>
          have hcopy : fs.copyFiles src dst (n :: rest) = fs.copyFiles src dst rest := by
            rw [copyFiles, List.foldl_cons, hread, hcontent]
            rfl
          have hfiles : fs.filesOf d (n :: rest) = fs.filesOf d rest := by
            rw [filesOf, List.filterMap_cons_none (by rw [hcontent]; rfl)]
            rfl
          rw [hcopy, hfiles, ih hd hd' hrest]
      | some content =>
          have hcopy : fs.copyFiles src dst (n :: rest) = (fs.write (dst ++ 47 :: n) content).copyFiles src dst rest := by
            rw [copyFiles, List.foldl_cons, hread, hcontent]
            rfl
          have hfiles : fs.filesOf d (n :: rest) = (n, content) :: fs.filesOf d rest := by
            rw [filesOf, List.filterMap_cons_some (by rw [hcontent]; rfl)]
            rfl
          have hdirs : SameDirs fs (fs.write (dst ++ 47 :: n) content) := sameDirs_write _ _
          have hlater : (fs.write (dst ++ 47 :: n) content).filesOf d rest = fs.filesOf d rest := by
            unfold filesOf
            refine List.filterMap_congr (fun m _ => ?_)
            rw [contents_write_of_ne hd' hdst hne hn hslash]
          rw [hcopy, hfiles, ih (by rw [hdirs.dirAt, hd]) (by rw [hdirs.dirAt, hd']) hrest, hlater]
          rfl

end Copy

/-! ## What something else keeps -/

/-- **The files of some names are kept**, and so are all directories. -/
structure Keeps (P : Name → Prop) (fs fs' : FileSystem κ) : Prop where
  cwd : fs'.cwd = fs.cwd
  dir : ∀ p, fs.node p = some .dir → fs'.node p = some .dir
  file : ∀ d n, P n → fs'.node (d ++ [n]) = fs.node (d ++ [n])

section Keeps

variable {P : Name → Prop}

theorem Keeps.refl (fs : FileSystem κ) : Keeps P fs fs := ⟨rfl, fun _ h => h, fun _ _ _ => rfl⟩

theorem Keeps.contents (h : Keeps P fs fs') (d : Place) {n : Name} (hn : P n) :
    fs'.contents (d ++ [n]) = fs.contents (d ++ [n]) := by
  rw [FileSystem.contents, FileSystem.contents, h.file d n hn]

/-- A path that leads somewhere leads there still. -/
theorem Keeps.walk (h : Keeps P fs fs') {d d' : Place} {ns : List Name} (hwalk : fs.walk d ns = some d') :
    fs'.walk d ns = some d' := by
  induction ns generalizing d with
  | nil => exact hwalk
  | cons n rest ih =>
      obtain ⟨d₁, h₁, h₂⟩ := Option.bind_eq_some_iff.mp hwalk
      have henter : fs'.enter d n = some d₁ := by
        unfold enter at h₁ ⊢
        by_cases hhere : n = [] ∨ n = [46]
        · rwa [if_pos hhere] at h₁ ⊢
        · rw [if_neg hhere] at h₁ ⊢
          by_cases hup : n = [46, 46]
          · rwa [if_pos hup] at h₁ ⊢
          · rw [if_neg hup, Option.ite_none_right_eq_some] at h₁
            rw [if_neg hup, if_pos (isDir_iff.mpr (h.dir _ (isDir_iff.mp h₁.1)))]
            exact h₁.2
      exact Option.bind_eq_some_iff.mpr ⟨d₁, henter, ih h₂⟩

theorem Keeps.dirAt (h : Keeps P fs fs') {path : List UInt8} {d : Place} (hdir : fs.dirAt path = some d) :
    fs'.dirAt path = some d := by
  have hstart : fs'.start path = fs.start path := by rw [FileSystem.start, FileSystem.start, h.cwd]
  rw [FileSystem.dirAt, hstart]
  exact h.walk hdir

/-- **A directory is made.** -/
theorem keeps_mkdir {path : List UInt8} {n : Name} (hpath : path ≠ []) (hn : Proper n) (hslash : (47 : UInt8) ∉ n) :
    Keeps (· ≠ n) fs (fs.mkdir (path ++ 47 :: n)) := by
  cases hl : fs.locate (path ++ 47 :: n) with
  | none =>
      rw [mkdir_of_locate_none hl]
      exact .refl fs
  | some l =>
      refine ⟨cwd_mkdir _, fun p hp => ?_, fun d m hm => ?_⟩
      · rw [node_mkdir hl, if_neg (fun hfree => absurd (hp.symm.trans hfree.2) (by simp)), hp]
      · rw [node_mkdir hl, if_neg]
        rintro ⟨hplace, -⟩
        rw [locate_slash hpath hn hslash] at hl
        obtain ⟨d', -, rfl⟩ := Option.map_eq_some_iff.mp hl
        exact hm (List.cons.inj (List.append_inj_right' hplace rfl)).1

end Keeps

end FileSystem

end FileTree
