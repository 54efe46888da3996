import Mathlib.Data.List.Basic

/-!
# `Lib.FileTree` — directories, files and paths

A file system is a tree of directories and files with a current directory; there are no symbolic links. A
path is walked component by component, with `.` and `..` and empty components as usual. The operations are
the unchecked ones: `mkdir` and `write` leave the tree as it is where they fail.

`SameDirs` is what a path depends on: two trees with the same directories give every path the same place.
-/

namespace FileTree

/-- A component of a path. -/
abbrev Name := List UInt8

/-- A place in the tree: the names on the way from the root. -/
abbrev Place := List Name

/-- What is at a place. -/
inductive Node (κ : Type) where
  | dir
  | file (content : κ)

/-- A file system: everything lies in directories, up to the root. -/
structure FileSystem (κ : Type) where
  node : Place → Option (Node κ)
  cwd : Place
  root_dir : node [] = some .dir
  cwd_dir : node cwd = some .dir
  parent_dir : ∀ d n, node (d ++ [n]) ≠ none → node d = some .dir

namespace FileSystem

variable {κ : Type}

/-- Is there a directory at a place? -/
def isDir (fs : FileSystem κ) (p : Place) : Bool :=
  match fs.node p with
  | some .dir => true
  | _ => false

theorem isDir_iff {fs : FileSystem κ} {p : Place} : fs.isDir p = true ↔ fs.node p = some .dir := by
  unfold isDir
  cases fs.node p with
  | none => simp
  | some x => cases x <;> simp

/-! ## Paths -/

/-- One component of a path, from the directory `d`. -/
def enter (fs : FileSystem κ) (d : Place) (n : Name) : Option Place :=
  if n = [] ∨ n = [46] then some d
  else if n = [46, 46] then some d.dropLast
  else if fs.isDir (d ++ [n]) then some (d ++ [n])
  else none

/-- Several components. -/
def walk (fs : FileSystem κ) (d : Place) (ns : List Name) : Option Place := ns.foldlM fs.enter d

/-- Where a path starts: at the root if it starts with a slash. -/
def start (fs : FileSystem κ) (path : List UInt8) : Place := if path.head? = some 47 then [] else fs.cwd

/-- The directory a path leads to. -/
def dirAt (fs : FileSystem κ) (path : List UInt8) : Option Place := fs.walk (fs.start path) (path.splitOn 47)

/-- A name that can be given to a new directory or file. -/
def Proper (n : Name) : Prop := n ≠ [] ∧ n ≠ [46] ∧ n ≠ [46, 46]

instance (n : Name) : Decidable (Proper n) := inferInstanceAs (Decidable (_ ∧ _))

/-- The directory and the name of the last component of a path. -/
def locate (fs : FileSystem κ) (path : List UInt8) : Option (Place × Name) :=
  let ns := path.splitOn 47
  let n := ns.getLast?.getD []
  if Proper n then (fs.walk (fs.start path) ns.dropLast).map (fun d => (d, n)) else none

/-- `stat`: does a path lead to a directory or a file? -/
def exists? (fs : FileSystem κ) (path : List UInt8) : Bool :=
  (fs.dirAt path).isSome || (fs.locate path).any (fun l => (fs.node (l.1 ++ [l.2])).isSome)

/-- What the file at a place contains. -/
def contents (fs : FileSystem κ) (p : Place) : Option κ :=
  match fs.node p with
  | some (.file content) => some content
  | _ => none

/-- Open for reading and read. -/
def read (fs : FileSystem κ) (path : List UInt8) : Option κ :=
  (fs.locate path).bind (fun l => fs.contents (l.1 ++ [l.2]))

variable {fs fs' : FileSystem κ}

theorem enter_dir {d d' : Place} {n : Name} (hd : fs.node d = some .dir) (h : fs.enter d n = some d') :
    fs.node d' = some .dir := by
  unfold enter at h
  by_cases h₁ : n = [] ∨ n = [46]
  · rw [if_pos h₁] at h
    rwa [← Option.some.inj h]
  · rw [if_neg h₁] at h
    by_cases h₂ : n = [46, 46]
    · rw [if_pos h₂] at h
      rw [← Option.some.inj h]
      -- the parent of a directory, or the root again
      rcases List.eq_nil_or_concat d with rfl | ⟨d₁, n₁, rfl⟩
      · exact fs.root_dir
      · rw [List.concat_eq_append] at hd ⊢
        rw [List.dropLast_concat]
        exact fs.parent_dir d₁ n₁ (by simp [hd])
    · rw [if_neg h₂, Option.ite_none_right_eq_some] at h
      rw [← Option.some.inj h.2]
      exact isDir_iff.mp h.1

/-- A proper name leads into the directory of that name. -/
theorem enter_proper {d d' : Place} {n : Name} (hn : Proper n) (h : fs.enter d n = some d') : d' = d ++ [n] := by
  obtain ⟨hnil, hdot, hdots⟩ := hn
  have hhere : ¬ (n = [] ∨ n = [46]) := by
    rw [not_or]
    exact ⟨hnil, hdot⟩
  rw [enter, if_neg hhere, if_neg hdots, Option.ite_none_right_eq_some] at h
  exact (Option.some.inj h.2).symm

/-- **Proper names lead down.** -/
theorem walk_proper {d d' : Place} {ns : List Name} (hns : ∀ n ∈ ns, Proper n) (h : fs.walk d ns = some d') :
    d' = d ++ ns := by
  induction ns generalizing d with
  | nil => rw [List.append_nil, Option.some.inj h]
  | cons n rest ih =>
      obtain ⟨hn, hrest⟩ := List.forall_mem_cons.mp hns
      obtain ⟨d₁, h₁, h₂⟩ := Option.bind_eq_some_iff.mp h
      rw [ih hrest h₂, enter_proper hn h₁, List.append_assoc, List.singleton_append]

/-- **A path leads from directory to directory.** -/
theorem walk_dir {d d' : Place} {ns : List Name} (hd : fs.node d = some .dir) (h : fs.walk d ns = some d') :
    fs.node d' = some .dir := by
  induction ns generalizing d with
  | nil => rwa [← Option.some.inj h]
  | cons n rest ih =>
      obtain ⟨d₁, h₁, h₂⟩ := Option.bind_eq_some_iff.mp h
      exact ih (enter_dir hd h₁) h₂

theorem start_dir (path : List UInt8) : fs.node (fs.start path) = some .dir := by
  unfold start
  split
  · exact fs.root_dir
  · exact fs.cwd_dir

theorem locate_dir {path : List UInt8} {l : Place × Name} (h : fs.locate path = some l) :
    fs.node l.1 = some .dir := by
  unfold locate at h
  rw [Option.ite_none_right_eq_some] at h
  obtain ⟨d, hd, rfl⟩ := Option.map_eq_some_iff.mp h.2
  exact walk_dir (start_dir path) hd

/-- One component more. -/
theorem splitOn_slash {path : List UInt8} {n : Name} (hslash : (47 : UInt8) ∉ n) :
    (path ++ 47 :: n).splitOn 47 = path.splitOn 47 ++ [n] := by
  rw [List.splitOn_append_cons_self, List.splitOn_eq_singleton hslash]

theorem start_append {path : List UInt8} (hpath : path ≠ []) (more : List UInt8) :
    fs.start (path ++ more) = fs.start path := by
  obtain ⟨c, rest, rfl⟩ := List.exists_cons_of_ne_nil hpath
  rfl

/-- **A name in a directory** that is given by a path. -/
theorem locate_slash {path : List UInt8} {n : Name} (hpath : path ≠ []) (hn : Proper n) (hslash : (47 : UInt8) ∉ n) :
    fs.locate (path ++ 47 :: n) = (fs.dirAt path).map (fun d => (d, n)) := by
  unfold locate dirAt
  simp only [splitOn_slash hslash, start_append hpath, List.getLast?_concat, Option.getD_some, List.dropLast_concat, if_pos hn]

/-! ## Changes -/

/-- Put something that is not there yet, or a file for a file, into a directory. -/
def put (fs : FileSystem κ) (d : Place) (n : Name) (x : Node κ) (hd : fs.node d = some .dir)
    (hn : fs.isDir (d ++ [n]) = false) : FileSystem κ where
  node p := if p = d ++ [n] then some x else fs.node p
  cwd := fs.cwd
  root_dir := by rw [if_neg (by simp), fs.root_dir]
  cwd_dir := by
    have hne : fs.cwd ≠ d ++ [n] := by
      intro h
      rw [← h, isDir_iff.mpr fs.cwd_dir] at hn
      exact absurd hn (by simp)
    rw [if_neg hne, fs.cwd_dir]
  parent_dir d' n' h := by
    have hd' : fs.node d' = some .dir := by
      by_cases heq : d' ++ [n'] = d ++ [n]
      · rw [(List.append_inj' heq rfl).1]
        exact hd
      · rw [if_neg heq] at h
        exact fs.parent_dir d' n' h
    have hne : d' ≠ d ++ [n] := by
      intro h
      rw [← h, isDir_iff.mpr hd'] at hn
      exact absurd hn (by simp)
    rw [if_neg hne, hd']

/-- `mkdir`, unchecked. -/
def mkdir (fs : FileSystem κ) (path : List UInt8) : FileSystem κ :=
  match h : fs.locate path with
  | none => fs
  | some l =>
      if hn : fs.node (l.1 ++ [l.2]) = none then fs.put l.1 l.2 .dir (locate_dir h) (by rw [isDir, hn]) else fs

/-- Open for writing, write and close, unchecked: an existing file is replaced. -/
def write (fs : FileSystem κ) (path : List UInt8) (content : κ) : FileSystem κ :=
  match h : fs.locate path with
  | none => fs
  | some l => if hn : fs.isDir (l.1 ++ [l.2]) = false then fs.put l.1 l.2 (.file content) (locate_dir h) hn else fs

/-- What is anywhere after a write. -/
theorem node_write {path : List UInt8} {l : Place × Name} (hl : fs.locate path = some l) (content : κ) (p : Place) :
    (fs.write path content).node p =
      if p = l.1 ++ [l.2] ∧ fs.isDir p = false then some (.file content) else fs.node p := by
  unfold write
  split
  · next h => exact absurd (hl.symm.trans h) (by simp)
  · next l' h =>
    obtain rfl := Option.some.inj (hl.symm.trans h)
    by_cases hn : fs.isDir (l.1 ++ [l.2]) = false
    · rw [dif_pos hn]
      show (if p = l.1 ++ [l.2] then some (Node.file content) else fs.node p) = _
      by_cases hp : p = l.1 ++ [l.2]
      · rw [if_pos hp, if_pos ⟨hp, hp ▸ hn⟩]
      · rw [if_neg hp, if_neg (fun h => hp h.1)]
    · rw [dif_neg hn, if_neg]
      rintro ⟨rfl, hn'⟩
      exact hn hn'

/-- A path that leads nowhere is not written to. -/
theorem write_of_locate_none {path : List UInt8} (hl : fs.locate path = none) (content : κ) :
    fs.write path content = fs := by
  unfold write
  split
  · rfl
  · next l h => exact absurd (hl.symm.trans h) (by simp)

/-- What is anywhere after a directory was made. -/
theorem node_mkdir {path : List UInt8} {l : Place × Name} (hl : fs.locate path = some l) (p : Place) :
    (fs.mkdir path).node p = if p = l.1 ++ [l.2] ∧ fs.node p = none then some .dir else fs.node p := by
  unfold mkdir
  split
  · next h => exact absurd (hl.symm.trans h) (by simp)
  · next l' h =>
    obtain rfl := Option.some.inj (hl.symm.trans h)
    by_cases hn : fs.node (l.1 ++ [l.2]) = none
    · rw [dif_pos hn]
      show (if p = l.1 ++ [l.2] then some Node.dir else fs.node p) = _
      by_cases hp : p = l.1 ++ [l.2]
      · rw [if_pos hp, if_pos ⟨hp, hp ▸ hn⟩]
      · rw [if_neg hp, if_neg (fun h => hp h.1)]
    · rw [dif_neg hn, if_neg]
      rintro ⟨rfl, hn'⟩
      exact hn hn'

/-- Nothing is made where the path leads nowhere. -/
theorem mkdir_of_locate_none {path : List UInt8} (hl : fs.locate path = none) : fs.mkdir path = fs := by
  unfold mkdir
  split
  · rfl
  · next l h => exact absurd (hl.symm.trans h) (by simp)

@[simp] theorem cwd_write (path : List UInt8) (content : κ) : (fs.write path content).cwd = fs.cwd := by
  unfold write
  split
  · rfl
  · split <;> rfl

@[simp] theorem cwd_mkdir (path : List UInt8) : (fs.mkdir path).cwd = fs.cwd := by
  unfold mkdir
  split
  · rfl
  · split <;> rfl

/-! ## Paths after changes -/

/-- Two trees with the same directories. -/
structure SameDirs (fs fs' : FileSystem κ) : Prop where
  cwd : fs'.cwd = fs.cwd
  isDir : ∀ p, fs'.isDir p = fs.isDir p

theorem SameDirs.refl (fs : FileSystem κ) : SameDirs fs fs := ⟨rfl, fun _ => rfl⟩

theorem SameDirs.trans {fs₁ fs₂ fs₃ : FileSystem κ} (h : SameDirs fs₁ fs₂) (h' : SameDirs fs₂ fs₃) :
    SameDirs fs₁ fs₃ :=
  ⟨h'.cwd.trans h.cwd, fun p => (h'.isDir p).trans (h.isDir p)⟩

theorem SameDirs.walk (h : SameDirs fs fs') (d : Place) (ns : List Name) : fs'.walk d ns = fs.walk d ns := by
  have henter : fs'.enter = fs.enter := by
    funext d n
    unfold enter
    rw [h.isDir]
  unfold FileSystem.walk
  rw [henter]

theorem SameDirs.start (h : SameDirs fs fs') (path : List UInt8) : fs'.start path = fs.start path := by
  unfold FileSystem.start
  rw [h.cwd]

/-- **Every path leads to the same place.** -/
theorem SameDirs.dirAt (h : SameDirs fs fs') (path : List UInt8) : fs'.dirAt path = fs.dirAt path := by
  unfold FileSystem.dirAt
  rw [h.walk, h.start]

theorem SameDirs.locate (h : SameDirs fs fs') (path : List UInt8) : fs'.locate path = fs.locate path := by
  unfold FileSystem.locate
  simp only [h.walk, h.start]

/-- Writing makes no directory. -/
theorem sameDirs_write (path : List UInt8) (content : κ) : SameDirs fs (fs.write path content) := by
  cases hl : fs.locate path with
  | none =>
      rw [write_of_locate_none hl]
      exact .refl fs
  | some l =>
      refine ⟨cwd_write path content, ?_⟩
      intro p
      by_cases hp : p = l.1 ++ [l.2] ∧ fs.isDir p = false
      · have hnode : (fs.write path content).node p = some (.file content) := by rw [node_write hl, if_pos hp]
        rw [hp.2]
        unfold FileSystem.isDir
        rw [hnode]
      · have hnode : (fs.write path content).node p = fs.node p := by rw [node_write hl, if_neg hp]
        unfold FileSystem.isDir
        rw [hnode]

/-- What is at the place of a path that does not exist. -/
theorem node_of_not_exists {path : List UInt8} (hfree : fs.exists? path = false) {l : Place × Name}
    (hl : fs.locate path = some l) : fs.node (l.1 ++ [l.2]) = none := by
  unfold exists? at hfree
  rw [hl, Bool.or_eq_false_iff] at hfree
  simpa using hfree.2

/-- A directory is made in both trees alike, if its place is free in both. -/
theorem SameDirs.mkdir (h : SameDirs fs fs') {path : List UInt8} (hfree : fs.exists? path = false)
    (hfree' : fs'.exists? path = false) : SameDirs (fs.mkdir path) (fs'.mkdir path) := by
  cases hl : fs.locate path with
  | none =>
      have hl' : fs'.locate path = none := (h.locate path).trans hl
      rw [mkdir_of_locate_none hl, mkdir_of_locate_none hl']
      exact h
  | some l =>
      have hl' : fs'.locate path = some l := (h.locate path).trans hl
      refine ⟨by rw [cwd_mkdir, cwd_mkdir, h.cwd], ?_⟩
      intro p
      have hdirs := h.isDir p
      unfold FileSystem.isDir at hdirs ⊢
      rw [node_mkdir hl, node_mkdir hl']
      by_cases hp : p = l.1 ++ [l.2]
      · subst hp
        rw [if_pos ⟨rfl, node_of_not_exists hfree' hl'⟩, if_pos ⟨rfl, node_of_not_exists hfree hl⟩]
      · rw [if_neg (fun h => hp h.1), if_neg (fun h => hp h.1)]
        exact hdirs

/-- Reading a name in a directory that is given by a path. -/
theorem read_slash {path : List UInt8} {n : Name} (hpath : path ≠ []) (hn : Proper n) (hslash : (47 : UInt8) ∉ n) :
    fs.read (path ++ 47 :: n) = (fs.dirAt path).bind (fun d => fs.contents (d ++ [n])) := by
  unfold read
  rw [locate_slash hpath hn hslash, Option.bind_map]
  rfl

/-! ## Files written into a directory -/

theorem locate_slash_none {path : List UInt8} {n : Name} (hpath : path ≠ []) (hn : Proper n) (hslash : (47 : UInt8) ∉ n)
    (hdir : fs.dirAt path = none) : fs.locate (path ++ 47 :: n) = none := by
  rw [locate_slash hpath hn hslash, hdir, Option.map_none]

/-- What is anywhere after a file was written into the directory of a path. -/
theorem node_write_slash {path : List UInt8} {n : Name} (hpath : path ≠ []) (hn : Proper n) (hslash : (47 : UInt8) ∉ n)
    (content : κ) (p : Place) :
    (fs.write (path ++ 47 :: n) content).node p =
      if fs.dirAt path = some p.dropLast ∧ p = p.dropLast ++ [n] ∧ fs.isDir p = false
      then some (.file content) else fs.node p := by
  cases hd : fs.dirAt path with
  | none =>
      rw [write_of_locate_none (locate_slash_none hpath hn hslash hd), if_neg (fun h => absurd h.1 (by simp))]
  | some d =>
      have hl : fs.locate (path ++ 47 :: n) = some (d, n) := by
        rw [locate_slash hpath hn hslash, hd, Option.map_some]
      rw [node_write hl]
      refine if_congr ?_ rfl rfl
      constructor
      · rintro ⟨hp, hdir⟩
        have hlast : p.dropLast = d := by rw [hp, List.dropLast_concat]
        rw [hlast]
        exact ⟨rfl, hp, hdir⟩
      · rintro ⟨hlast, hp, hdir⟩
        rw [← Option.some.inj hlast] at hp
        exact ⟨hp, hdir⟩

/-- Another name in any directory. -/
theorem node_write_slash_of_ne {path : List UInt8} {n n' : Name} (hpath : path ≠ []) (hn : Proper n)
    (hslash : (47 : UInt8) ∉ n) (hne : n' ≠ n) (content : κ) (d : Place) :
    (fs.write (path ++ 47 :: n) content).node (d ++ [n']) = fs.node (d ++ [n']) := by
  rw [node_write_slash hpath hn hslash, if_neg]
  rintro ⟨-, hp, -⟩
  rw [List.dropLast_concat] at hp
  exact hne (List.cons.inj (List.append_cancel_left hp)).1

/-- Several files, one after the other. -/
def writeFiles (fs : FileSystem κ) (path : List UInt8) (files : List (Name × κ)) : FileSystem κ :=
  files.foldl (fun fs f => fs.write (path ++ 47 :: f.1) f.2) fs

theorem sameDirs_writeFiles (path : List UInt8) (files : List (Name × κ)) : SameDirs fs (fs.writeFiles path files) := by
  induction files generalizing fs with
  | nil => exact .refl fs
  | cons f rest ih => exact (sameDirs_write _ _).trans ih

section Files

variable {path : List UInt8} {files : List (Name × κ)} (hpath : path ≠ [])
  (hfiles : ∀ f ∈ files, Proper f.1 ∧ (47 : UInt8) ∉ f.1)

include hpath hfiles

/-- Other names keep what they have. -/
theorem node_writeFiles_of_notMem {n : Name} (hn : n ∉ files.map Prod.fst) (d : Place) :
    (fs.writeFiles path files).node (d ++ [n]) = fs.node (d ++ [n]) := by
  induction files generalizing fs with
  | nil => rfl
  | cons f rest ih =>
      obtain ⟨hf, hrest⟩ := List.forall_mem_cons.mp hfiles
      rw [List.map_cons, List.mem_cons, not_or] at hn
      have hcons : fs.writeFiles path (f :: rest) = (fs.write (path ++ 47 :: f.1) f.2).writeFiles path rest := rfl
      rw [hcons, ih hrest hn.2, node_write_slash_of_ne hpath hf.1 hf.2 hn.1]

/-- **What is at the place of a file** after all are written: the file, if the path leads to its directory. -/
theorem node_writeFiles_of_mem (hnodup : (files.map Prod.fst).Nodup) {n : Name} {content : κ}
    (hmem : (n, content) ∈ files) (d : Place) :
    (fs.writeFiles path files).node (d ++ [n]) =
      if fs.dirAt path = some d ∧ fs.isDir (d ++ [n]) = false then some (.file content) else fs.node (d ++ [n]) := by
  induction files generalizing fs with
  | nil => exact absurd hmem (by simp)
  | cons f rest ih =>
      obtain ⟨hf, hrest⟩ := List.forall_mem_cons.mp hfiles
      rw [List.map_cons, List.nodup_cons] at hnodup
      have hcons : fs.writeFiles path (f :: rest) = (fs.write (path ++ 47 :: f.1) f.2).writeFiles path rest := rfl
      rcases List.mem_cons.mp hmem with rfl | hmem
      · -- a later file has another name
        rw [hcons, node_writeFiles_of_notMem hpath hrest hnodup.1, node_write_slash hpath hf.1 hf.2]
        refine if_congr ?_ rfl rfl
        rw [List.dropLast_concat]
        exact and_congr_right (fun _ => and_iff_right rfl)
      · have hdirs : SameDirs fs (fs.write (path ++ 47 :: f.1) f.2) := sameDirs_write _ _
        have hne : n ≠ f.1 := by
          rintro rfl
          exact hnodup.1 (List.mem_map.mpr ⟨_, hmem, rfl⟩)
        rw [hcons, ih hrest hnodup.2 hmem, hdirs.dirAt, hdirs.isDir, node_write_slash_of_ne hpath hf.1 hf.2 hne]

end Files

/-! ## A directory with nothing in it -/

/-- One empty directory below the root. -/
def onlyDir (n : Name) : FileSystem κ where
  node p := if p = [] ∨ p = [n] then some .dir else none
  cwd := []
  root_dir := if_pos (Or.inl rfl)
  cwd_dir := if_pos (Or.inl rfl)
  parent_dir d m h := by
    have hplace : d ++ [m] = [] ∨ d ++ [m] = [n] := by
      by_contra hnot
      exact h (if_neg hnot)
    rcases hplace with hnil | hone
    · exact absurd (List.append_eq_nil_iff.mp hnil).2 (by simp)
    · have hone' : d ++ [m] = [] ++ [n] := hone
      exact if_pos (Or.inl (List.append_inj' hone' rfl).1)

theorem node_onlyDir (n m : Name) : (onlyDir n : FileSystem κ).node ([n] ++ [m]) = none := by
  show (if [n, m] = [] ∨ [n, m] = [n] then some (Node.dir : Node κ) else none) = none
  exact if_neg (by simp)

end FileSystem

end FileTree
