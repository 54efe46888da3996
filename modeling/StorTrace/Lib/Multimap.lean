import Mathlib.Data.List.Basic

/-!
# `Lib.Multimap` — an ordered multimap

`std::multimap` keeps its entries sorted by key and entries of one key in the order they were inserted.
An iterator is the list of the entries from its position on. `find` returns the **first** entry of a key.

The result is `find_take_count`: from `find k` the next `count k` entries are those of `k`, and with
`filter_insertAll` those are the inserted entries of `k` in order.
-/

/-- Entries sorted by key. -/
structure Multimap (κ ν : Type) [LE κ] where
  entries : List (κ × ν)
  sorted : entries.Pairwise (fun a b => a.1 ≤ b.1)

namespace Multimap

variable {κ ν : Type} [LE κ] [DecidableLE κ] [Std.IsLinearOrder κ] [DecidableEq κ]

def empty : Multimap κ ν := ⟨[], List.Pairwise.nil⟩

/-- Insert behind every entry whose key is not greater. -/
def insertEntry (k : κ) (v : ν) : List (κ × ν) → List (κ × ν)
  | [] => [(k, v)]
  | e :: rest => if e.1 ≤ k then e :: insertEntry k v rest else (k, v) :: e :: rest

omit [Std.IsLinearOrder κ] [DecidableEq κ] in
/-- Insertion adds one entry. -/
theorem mem_insertEntry {k : κ} {v : ν} {l : List (κ × ν)} {e : κ × ν} :
    e ∈ insertEntry k v l ↔ e = (k, v) ∨ e ∈ l := by
  induction l with
  | nil => simp [insertEntry]
  | cons x rest ih =>
      simp only [insertEntry]
      split
      · simp only [List.mem_cons, ih]
        tauto
      · simp

omit [DecidableEq κ] in
/-- Insertion keeps the entries sorted. -/
theorem sorted_insertEntry {k : κ} {v : ν} {l : List (κ × ν)} (h : l.Pairwise (fun a b => a.1 ≤ b.1)) :
    (insertEntry k v l).Pairwise (fun a b => a.1 ≤ b.1) := by
  induction l with
  | nil => simp [insertEntry]
  | cons x rest ih =>
      obtain ⟨hx, hrest⟩ := List.pairwise_cons.mp h
      simp only [insertEntry]
      split
      · next hle =>
        refine List.pairwise_cons.mpr ⟨?_, ih hrest⟩
        intro b hb
        rcases mem_insertEntry.mp hb with rfl | hb
        · exact hle
        · exact hx b hb
      · next hle =>
        have hlt : k ≤ x.1 := (Std.le_total (a := k) (b := x.1)).resolve_right hle
        refine List.pairwise_cons.mpr ⟨?_, h⟩
        intro b hb
        rcases List.mem_cons.mp hb with rfl | hb
        · exact hlt
        · exact Std.le_trans hlt (hx b hb)

/-- `insert`. -/
def insert (m : Multimap κ ν) (k : κ) (v : ν) : Multimap κ ν :=
  ⟨insertEntry k v m.entries, sorted_insertEntry m.sorted⟩

/-- `find`: the iterator at the first entry of `k`, or the end. -/
def find (m : Multimap κ ν) (k : κ) : List (κ × ν) := m.entries.dropWhile (fun e => e.1 ≠ k)

/-- `count`. -/
def count (m : Multimap κ ν) (k : κ) : Nat := m.entries.countP (fun e => e.1 = k)

/-- `erase` of the iterator `find k`. -/
def eraseFirst (m : Multimap κ ν) (k : κ) : Multimap κ ν :=
  ⟨m.entries.eraseP (fun e => e.1 = k), m.sorted.sublist (List.eraseP_sublist ..)⟩

/-- Insert a list of entries, from first to last. -/
def insertAll (l : List (κ × ν)) (m : Multimap κ ν) : Multimap κ ν :=
  l.foldl (fun m e => m.insert e.1 e.2) m

/-- A new entry comes last among those of its key. -/
theorem filter_insertEntry {k k' : κ} {v : ν} {l : List (κ × ν)} (h : l.Pairwise (fun a b => a.1 ≤ b.1)) :
    (insertEntry k v l).filter (fun e => e.1 = k') =
      l.filter (fun e => e.1 = k') ++ (if k = k' then [(k, v)] else []) := by
  induction l with
  | nil => by_cases hk : k = k' <;> simp [insertEntry, hk]
  | cons x rest ih =>
      obtain ⟨hx, hrest⟩ := List.pairwise_cons.mp h
      simp only [insertEntry]
      split
      · next hle =>
        rw [List.filter_cons, List.filter_cons, ih hrest]
        split <;> simp
      · next hle =>
        by_cases hk : k = k'
        · -- every entry from here on has a greater key
          have hnone : (x :: rest).filter (fun e => e.1 = k') = [] := by
            refine List.filter_eq_nil_iff.mpr (fun e he heq => hle ?_)
            have hek : e.1 = k := (of_decide_eq_true heq).trans hk.symm
            rcases List.mem_cons.mp he with rfl | he
            · rw [hek]; exact Std.le_refl k
            · rw [← hek]; exact hx e he
          rw [List.filter_cons, hnone]
          simp [hk]
        · rw [List.filter_cons]
          simp [hk]

/-- The entries of a key after a list of insertions: the old ones, then the inserted ones, in order. -/
theorem filter_insertAll (l : List (κ × ν)) (m : Multimap κ ν) (k : κ) :
    (insertAll l m).entries.filter (fun e => e.1 = k) =
      m.entries.filter (fun e => e.1 = k) ++ l.filter (fun e => e.1 = k) := by
  induction l generalizing m with
  | nil => simp [insertAll]
  | cons x rest ih =>
      have hins : (m.insert x.1 x.2).entries.filter (fun e => e.1 = k) =
          m.entries.filter (fun e => e.1 = k) ++ (if x.1 = k then [x] else []) :=
        filter_insertEntry m.sorted
      rw [show insertAll (x :: rest) m = insertAll rest (m.insert x.1 x.2) from rfl, ih, hins,
        List.filter_cons, List.append_assoc]
      by_cases hk : x.1 = k <;> simp [hk]

omit [DecidableLE κ] in
/-- In a sorted list whose keys are not below `k`, the entries of `k` come first. -/
theorem take_countP {k : κ} {l : List (κ × ν)} (h : l.Pairwise (fun a b => a.1 ≤ b.1))
    (hk : ∀ e ∈ l, k ≤ e.1) :
    l.take (l.countP (fun e => e.1 = k)) = l.filter (fun e => e.1 = k) := by
  induction l with
  | nil => rfl
  | cons x rest ih =>
      obtain ⟨hx, hrest⟩ := List.pairwise_cons.mp h
      by_cases hxk : x.1 = k
      · rw [List.countP_cons_of_pos (by simpa using hxk), List.filter_cons_of_pos (by simpa using hxk),
          List.take_succ_cons, ih hrest (fun e he => hk e (List.mem_cons_of_mem x he))]
      · -- the first key is already greater
        have hnone : ∀ e ∈ rest, ¬ e.1 = k := by
          intro e he heq
          have hle : x.1 ≤ k := heq ▸ hx e he
          exact hxk (Std.le_antisymm hle (hk x List.mem_cons_self))
        have hfilter : rest.filter (fun e => e.1 = k) = [] := by
          rw [List.filter_eq_nil_iff]
          intro e he
          simpa using hnone e he
        rw [List.countP_cons_of_neg (by simpa using hxk), List.filter_cons_of_neg (by simpa using hxk),
          List.countP_eq_length_filter, hfilter]
        rfl

omit [DecidableLE κ] in
/-- **From `find k` on, the next `count k` entries are the entries of `k`.** -/
theorem find_take_count (m : Multimap κ ν) (k : κ) :
    (m.find k).take (m.count k) = m.entries.filter (fun e => e.1 = k) := by
  unfold find count
  have hs := m.sorted
  generalize m.entries = l at hs ⊢
  induction l with
  | nil => rfl
  | cons x rest ih =>
      obtain ⟨hx, hrest⟩ := List.pairwise_cons.mp hs
      by_cases hxk : x.1 = k
      · -- the iterator stops here, and no later key is smaller
        rw [List.dropWhile_cons_of_neg (by simpa using hxk)]
        refine take_countP hs ?_
        intro e he
        rcases List.mem_cons.mp he with rfl | he
        · rw [hxk]; exact Std.le_refl k
        · rw [← hxk]; exact hx e he
      · rw [List.dropWhile_cons_of_pos (by simpa using hxk),
          List.countP_cons_of_neg (by simpa using hxk), List.filter_cons_of_neg (by simpa using hxk)]
        exact ih hrest

omit [DecidableLE κ] in
/-- There are that many entries. -/
theorem count_le_length_find (m : Multimap κ ν) (k : κ) : m.count k ≤ (m.find k).length := by
  have hlen := congrArg List.length (find_take_count m k)
  have hcount : m.count k = (m.entries.filter (fun e => e.1 = k)).length := List.countP_eq_length_filter
  rw [List.length_take, ← hcount] at hlen
  omega

omit [DecidableLE κ] in
/-- **A walk of `count k` steps from `find k` stays with the entries of `k`.** -/
theorem getElem?_find (m : Multimap κ ν) {k : κ} {n : Nat} (hn : n < m.count k) :
    ∃ e, (m.find k)[n]? = some e ∧ e.1 = k := by
  have hlt : n < (m.find k).length := Nat.lt_of_lt_of_le hn (m.count_le_length_find k)
  have hmem : (m.find k)[n] ∈ (m.find k).take (m.count k) := List.mem_take_iff_getElem.mpr ⟨n, by omega, rfl⟩
  rw [find_take_count] at hmem
  exact ⟨_, List.getElem?_eq_getElem hlt, by simpa using (List.mem_filter.mp hmem).2⟩

omit [DecidableLE κ] [Std.IsLinearOrder κ] in
/-- `find k` is at the first entry of `k`. -/
theorem head?_find (m : Multimap κ ν) (k : κ) : (m.find k).head? = (m.entries.filter (fun e => e.1 = k)).head? := by
  unfold find
  induction m.entries with
  | nil => rfl
  | cons x rest ih =>
      by_cases hxk : x.1 = k
      · rw [List.dropWhile_cons_of_neg (by simpa using hxk), List.filter_cons_of_pos (by simpa using hxk)]
        rfl
      · rw [List.dropWhile_cons_of_pos (by simpa using hxk), List.filter_cons_of_neg (by simpa using hxk), ih]

omit [DecidableLE κ] [Std.IsLinearOrder κ] in
/-- **`erase` of `find k`** takes the first entry of `k` away and leaves the other keys alone. -/
theorem filter_eraseFirst (m : Multimap κ ν) (k k' : κ) :
    (m.eraseFirst k).entries.filter (fun e => e.1 = k') =
      if k = k' then (m.entries.filter (fun e => e.1 = k')).tail else m.entries.filter (fun e => e.1 = k') := by
  show (m.entries.eraseP (fun e => e.1 = k)).filter (fun e => e.1 = k') = _
  induction m.entries with
  | nil => split <;> rfl
  | cons x rest ih =>
      by_cases hxk : x.1 = k
      · rw [List.eraseP_cons_of_pos (by simpa using hxk)]
        by_cases hk : k = k'
        · rw [if_pos hk, List.filter_cons_of_pos (by simpa using hxk.trans hk), List.tail_cons]
        · rw [if_neg hk, List.filter_cons_of_neg (by simpa using fun h => hk (hxk.symm.trans h))]
      · rw [List.eraseP_cons_of_neg (by simpa using hxk), List.filter_cons, List.filter_cons, ih]
        by_cases hxk' : x.1 = k'
        · -- the erased entry is of another key
          have hk : k ≠ k' := fun h => hxk (hxk'.trans h.symm)
          rw [if_neg hk, if_neg hk]
        · simp [hxk']

/-! ## Other values under the same keys -/

section MapVal

variable {ν' : Type} (g : ν → ν')

/-- Change the values. -/
def mapVal (m : Multimap κ ν) : Multimap κ ν' :=
  ⟨m.entries.map (fun e => (e.1, g e.2)), List.pairwise_map.mpr m.sorted⟩

omit [DecidableLE κ] [Std.IsLinearOrder κ] [DecidableEq κ] in
theorem ext_entries {m m' : Multimap κ ν} (h : m.entries = m'.entries) : m = m' := by
  cases m
  cases m'
  cases h
  rfl

omit [DecidableEq κ] in
theorem mapVal_insert (m : Multimap κ ν) (k : κ) (v : ν) :
    (m.insert k v).mapVal g = (m.mapVal g).insert k (g v) := by
  apply ext_entries
  show (insertEntry k v m.entries).map _ = insertEntry k (g v) (m.entries.map _)
  induction m.entries with
  | nil => rfl
  | cons x rest ih =>
      simp only [insertEntry, List.map_cons]
      split
      · rw [List.map_cons, ih]
      · rfl

omit [DecidableEq κ] in
/-- **Inserting other values** gives the multimap of the other values. -/
theorem mapVal_insertAll (l : List (κ × ν)) (m : Multimap κ ν) :
    (insertAll l m).mapVal g = insertAll (l.map (fun e => (e.1, g e.2))) (m.mapVal g) := by
  induction l generalizing m with
  | nil => rfl
  | cons x rest ih =>
      show (insertAll rest (m.insert x.1 x.2)).mapVal g = insertAll _ ((m.mapVal g).insert x.1 (g x.2))
      rw [ih, mapVal_insert]

omit [DecidableLE κ] [Std.IsLinearOrder κ] in
theorem find_mapVal (m : Multimap κ ν) (k : κ) : (m.mapVal g).find k = (m.find k).map (fun e => (e.1, g e.2)) := by
  show (m.entries.map _).dropWhile _ = _
  rw [List.dropWhile_map]
  rfl

omit [DecidableLE κ] [Std.IsLinearOrder κ] in
theorem count_mapVal (m : Multimap κ ν) (k : κ) : (m.mapVal g).count k = m.count k := by
  show (m.entries.map _).countP _ = _
  rw [List.countP_map]
  rfl

omit [DecidableLE κ] [Std.IsLinearOrder κ] in
theorem eraseFirst_mapVal (m : Multimap κ ν) (k : κ) : (m.mapVal g).eraseFirst k = (m.eraseFirst k).mapVal g := by
  apply ext_entries
  show (m.entries.map _).eraseP _ = (m.entries.eraseP _).map _
  rw [List.eraseP_map]
  rfl

end MapVal

end Multimap
