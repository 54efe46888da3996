import StorTrace.Collector.JoinRun

/-!
# `Collector.Matching` — mode `0` of the join is a maximal first-come matching

Each row of `table_B` takes the first row of `table_A` of its key that is left, and the multimap forgets it.
After any prefix of `table_B` the multimap holds, for each key, the occurrences of the key in `table_A` but as
many from the front as the prefix has rows of that key (`FirstCome`).
-/

namespace StorTrace

/-- The indexes of the rows whose column `col` is `k`, from first to last. -/
def occurrences (col : Nat) (rows : List (List UInt8 × Nat)) (k : UInt64) : List Nat :=
  (rows.filter (fun r => itemk r.1 col = k)).map Prod.snd

/-- Column `col` of the row `n`. -/
def keyAt (col : Nat) (table : List (List UInt8)) (n : Nat) : Option UInt64 := table[n]?.map (fun row => itemk row col)

/-! ## Occurrences -/

section Occurrences

variable {col : Nat} {table : List (List UInt8)} {rows : List (List UInt8 × Nat)} {k : UInt64}

theorem mem_occurrences {n : Nat} : n ∈ occurrences col table.zipIdx k ↔ keyAt col table n = some k := by
  simp only [occurrences, List.mem_map, List.mem_filter, decide_eq_true_eq, Prod.exists, List.mem_zipIdx_iff_getElem?,
    keyAt, Option.map_eq_some_iff]
  constructor
  · rintro ⟨row, n', ⟨hrow, hkey⟩, rfl⟩
    exact ⟨row, hrow, hkey⟩
  · rintro ⟨row, hrow, hkey⟩
    exact ⟨row, n, ⟨hrow, hkey⟩, rfl⟩

theorem nodup_occurrences (col : Nat) (table : List (List UInt8)) (k : UInt64) :
    (occurrences col table.zipIdx k).Nodup := by
  have h : (table.zipIdx.map Prod.snd).Nodup := by
    rw [List.zipIdx_map_snd]
    exact List.nodup_range'
  exact h.sublist (List.filter_sublist.map Prod.snd)

theorem occurrences_concat (r : List UInt8 × Nat) :
    occurrences col (rows ++ [r]) k = occurrences col rows k ++ if itemk r.1 col = k then [r.2] else [] := by
  unfold occurrences
  by_cases hr : itemk r.1 col = k
  · simp [List.filter_append, hr]
  · simp [List.filter_append, hr]

end Occurrences

/-! ## Pairing two lists -/

section Zip

variable {α β : Type} {b : β}

/-- An element more on the right finds nobody on the left. -/
theorem zip_concat_of_le {l : List α} {l' : List β} (h : l.length ≤ l'.length) : l.zip (l' ++ [b]) = l.zip l' := by
  induction l generalizing l' with
  | nil => rfl
  | cons a l ih =>
      cases l' with
      | nil => exact absurd h (by simp)
      | cons b' l' => rw [List.cons_append, List.zip_cons_cons, List.zip_cons_cons, ih (Nat.le_of_succ_le_succ h)]

/-- An element more on the right is paired with the next one on the left. -/
theorem zip_concat_of_drop {l : List α} {l' : List β} {a : α} {rest : List α} (h : l.drop l'.length = a :: rest) :
    l.zip (l' ++ [b]) = l.zip l' ++ [(a, b)] := by
  induction l' generalizing l with
  | nil =>
      rw [List.length_nil, List.drop_zero] at h
      rw [h]
      simp
  | cons b' l' ih =>
      cases l with
      | nil => exact absurd h (by simp)
      | cons a' l => rw [List.cons_append, List.zip_cons_cons, List.zip_cons_cons, ih h, List.cons_append]

/-- The left halves of the pairs are elements of the left list, in order. -/
theorem map_fst_zip_sublist (l : List α) (l' : List β) : ((l.zip l').map Prod.fst).Sublist l := by
  rw [List.zip_eq_zip_take_min, List.map_fst_zip (by simp)]
  exact List.take_sublist _ l

theorem map_snd_zip_sublist (l : List α) (l' : List β) : ((l.zip l').map Prod.snd).Sublist l' := by
  rw [List.zip_eq_zip_take_min, List.map_snd_zip (by simp)]
  exact List.take_sublist _ l'

end Zip

/-! ## The invariant -/

/-- **After the rows `pre` of `table_B`**: of each key the multimap has the occurrences that are left, and the
    pairs of the key are those of its first occurrences on both sides. -/
structure FirstCome (i j : Nat) (tableA : List (List UInt8)) (pre : List (List UInt8 × Nat))
    (s : Multimap UInt64 Nat × List (Nat × Nat)) : Prop where
  left : ∀ k, (s.1.entries.filter (fun e => e.1 = k)).map Prod.snd =
    (occurrences i tableA.zipIdx k).drop (occurrences j pre k).length
  keyed : ∀ p ∈ s.2, ∃ k, keyAt i tableA p.1 = some k
  pairs : ∀ k, s.2.filter (fun p => keyAt i tableA p.1 = some k) =
    (occurrences i tableA.zipIdx k).zip (occurrences j pre k)

section Invariant

variable {i j : Nat} {tableA tableB : List (List UInt8)} {pre : List (List UInt8 × Nat)}
  {s : Multimap UInt64 Nat × List (Nat × Nat)}

theorem firstCome_nil (i j : Nat) (tableA : List (List UInt8)) : FirstCome i j tableA [] (joinTable i tableA, []) where
  left k := by
    rw [filter_joinTable, List.filter_map, List.map_map]
    rfl
  keyed p hp := absurd hp List.not_mem_nil
  pairs k := by
    show [] = (occurrences i tableA.zipIdx k).zip []
    rw [List.zip_nil_right]

/-- A row whose key is used up. -/
theorem FirstCome.unpaired (h : FirstCome i j tableA pre s) {r : List UInt8 × Nat}
    (hfind : s.1.find (itemk r.1 j) = []) : FirstCome i j tableA (pre ++ [r]) s := by
  have hempty : s.1.entries.filter (fun e => e.1 = itemk r.1 j) = [] := by
    rw [← List.head?_eq_none_iff, ← Multimap.head?_find, hfind]
    rfl
  have hle : (occurrences i tableA.zipIdx (itemk r.1 j)).length ≤ (occurrences j pre (itemk r.1 j)).length := by
    have hleft := h.left (itemk r.1 j)
    rw [hempty] at hleft
    exact List.drop_eq_nil_iff.mp hleft.symm
  refine ⟨?_, h.keyed, ?_⟩
  · intro k
    rw [h.left k, occurrences_concat]
    split
    · next hk =>
      subst hk
      rw [List.drop_eq_nil_of_le hle, List.drop_eq_nil_of_le (by rw [List.length_append]; omega)]
    · rw [List.append_nil]
  · intro k
    rw [h.pairs k, occurrences_concat]
    split
    · next hk =>
      subst hk
      rw [zip_concat_of_le hle]
    · rw [List.append_nil]

/-- A row that takes the first entry of its key. -/
theorem FirstCome.paired (h : FirstCome i j tableA pre s) {r : List UInt8 × Nat} {e : UInt64 × Nat}
    {iter : List (UInt64 × Nat)} (hfind : s.1.find (itemk r.1 j) = e :: iter) :
    FirstCome i j tableA (pre ++ [r]) (s.1.eraseFirst (itemk r.1 j), s.2 ++ [(e.2, r.2)]) := by
  obtain ⟨rest, hentries⟩ : ∃ rest, s.1.entries.filter (fun e => e.1 = itemk r.1 j) = e :: rest := by
    have hhead := s.1.head?_find (itemk r.1 j)
    rw [hfind, List.head?_cons] at hhead
    exact List.head?_eq_some_iff.mp hhead.symm
  have hdrop : (occurrences i tableA.zipIdx (itemk r.1 j)).drop (occurrences j pre (itemk r.1 j)).length =
      e.2 :: rest.map Prod.snd := by
    rw [← h.left, hentries, List.map_cons]
  have hkey : keyAt i tableA e.2 = some (itemk r.1 j) := by
    refine mem_occurrences.mp (List.mem_of_mem_drop (i := (occurrences j pre (itemk r.1 j)).length) ?_)
    rw [hdrop]
    exact List.mem_cons_self
  refine ⟨?_, ?_, ?_⟩
  · intro k
    show ((s.1.eraseFirst _).entries.filter _).map _ = _
    rw [Multimap.filter_eraseFirst, occurrences_concat]
    split
    · next hk =>
      subst hk
      rw [List.map_tail, h.left, List.length_append, List.length_singleton, List.tail_drop]
    · rw [h.left, List.append_nil]
  · intro p hp
    rcases List.mem_append.mp hp with hp | hp
    · exact h.keyed p hp
    · obtain rfl := List.mem_singleton.mp hp
      exact ⟨_, hkey⟩
  · intro k
    show (s.2 ++ [(e.2, r.2)]).filter _ = _
    rw [List.filter_append, h.pairs k, occurrences_concat]
    split
    · next hk =>
      subst hk
      rw [zip_concat_of_drop hdrop, List.filter_cons_of_pos (by simpa using hkey), List.filter_nil]
    · next hk =>
      have hne : ¬ keyAt i tableA e.2 = some k := fun h => hk (Option.some.inj (hkey.symm.trans h))
      rw [List.append_nil, List.filter_cons_of_neg (by simpa using hne), List.filter_nil, List.append_nil]

/-- **One row of `table_B`** keeps the invariant. -/
theorem FirstCome.joinRow (h : FirstCome i j tableA pre s) (r : List UInt8 × Nat) :
    FirstCome i j tableA (pre ++ [r]) (joinRow j 0 s r) := by
  unfold StorTrace.joinRow
  simp only [if_true]
  cases hfind : s.1.find (itemk r.1 j) with
  | nil => exact h.unpaired hfind
  | cons e iter => exact h.paired hfind

/-- **All rows of `table_B`.** -/
theorem firstCome_foldl (h : FirstCome i j tableA pre s) (rows : List (List UInt8 × Nat)) :
    FirstCome i j tableA (pre ++ rows) (rows.foldl (joinRow j 0) s) := by
  induction rows generalizing pre s with
  | nil => rw [List.append_nil]; exact h
  | cons r rest ih =>
      have hsplit : pre ++ r :: rest = (pre ++ [r]) ++ rest := by simp
      rw [hsplit]
      exact ih (h.joinRow r)

/-- **Mode `0` pairs, for each key, the first occurrences on both sides.** -/
theorem filter_hashjoinVector_zero (i j : Nat) (tableA tableB : List (List UInt8)) (k : UInt64) :
    (hashjoinVector i j tableA tableB 0).filter (fun p => keyAt i tableA p.1 = some k) =
      (occurrences i tableA.zipIdx k).zip (occurrences j tableB.zipIdx k) :=
  (firstCome_foldl (firstCome_nil i j tableA) tableB.zipIdx).pairs k

/-- Every pair has a key. -/
theorem keyed_hashjoinVector_zero (i j : Nat) (tableA tableB : List (List UInt8)) :
    ∀ p ∈ hashjoinVector i j tableA tableB 0, ∃ k, keyAt i tableA p.1 = some k :=
  (firstCome_foldl (firstCome_nil i j tableA) tableB.zipIdx).keyed

/-- The rows of a pair have the same key. -/
theorem keyAt_of_mem_zero {p : Nat × Nat} (hp : p ∈ hashjoinVector i j tableA tableB 0) {k : UInt64}
    (hk : keyAt i tableA p.1 = some k) : keyAt j tableB p.2 = some k := by
  have hmem : p ∈ (hashjoinVector i j tableA tableB 0).filter (fun p => keyAt i tableA p.1 = some k) := by
    rw [List.mem_filter]
    exact ⟨hp, decide_eq_true hk⟩
  rw [filter_hashjoinVector_zero] at hmem
  exact mem_occurrences.mp (List.of_mem_zip hmem).2

end Invariant

/-! ## Nobody is paired twice -/

/-- What is different within each group, and determines the group, is different. -/
theorem nodup_map_of_groups {π κ α : Type} [DecidableEq κ] {l : List π} (key : π → κ) (f : π → α)
    (hgroup : ∀ k, ((l.filter (fun p => key p = k)).map f).Nodup)
    (hkey : ∀ p ∈ l, ∀ q ∈ l, f p = f q → key p = key q) : (l.map f).Nodup := by
  induction l with
  | nil => exact List.nodup_nil
  | cons p rest ih =>
      rw [List.map_cons, List.nodup_cons]
      constructor
      · intro hmem
        obtain ⟨q, hq, heq⟩ := List.mem_map.mp hmem
        have hsame := hkey p List.mem_cons_self q (List.mem_cons_of_mem _ hq) heq.symm
        have hnodup := hgroup (key p)
        rw [List.filter_cons_of_pos (by simp), List.map_cons, List.nodup_cons] at hnodup
        refine hnodup.1 (List.mem_map.mpr ⟨q, ?_, heq⟩)
        rw [List.mem_filter]
        exact ⟨hq, decide_eq_true hsame.symm⟩
      · refine ih ?_ (fun p hp q hq => hkey p (List.mem_cons_of_mem _ hp) q (List.mem_cons_of_mem _ hq))
        intro k
        exact (hgroup k).sublist (((List.sublist_cons_self p rest).filter _).map f)

section Nodup

variable {i j : Nat} {tableA tableB : List (List UInt8)}

/-- The pairs of a key have different rows on both sides. -/
theorem nodup_group (f : Nat × Nat → Nat) (o : Option UInt64)
    (hf : ∀ k, (((occurrences i tableA.zipIdx k).zip (occurrences j tableB.zipIdx k)).map f).Nodup) :
    (((hashjoinVector i j tableA tableB 0).filter (fun p => keyAt i tableA p.1 = o)).map f).Nodup := by
  cases o with
  | none =>
      have hnone : (hashjoinVector i j tableA tableB 0).filter (fun p => keyAt i tableA p.1 = none) = [] := by
        refine List.filter_eq_nil_iff.mpr (fun p hp hp' => ?_)
        obtain ⟨k, hk⟩ := keyed_hashjoinVector_zero i j tableA tableB p hp
        rw [of_decide_eq_true hp'] at hk
        cases hk
      rw [hnone]
      exact List.nodup_nil
  | some k =>
      rw [filter_hashjoinVector_zero]
      exact hf k

/-- **No row of `table_A` is paired twice.** -/
theorem nodup_fst_hashjoinVector_zero (i j : Nat) (tableA tableB : List (List UInt8)) :
    ((hashjoinVector i j tableA tableB 0).map Prod.fst).Nodup := by
  refine nodup_map_of_groups (fun p => keyAt i tableA p.1) Prod.fst (fun o => nodup_group Prod.fst o ?_) ?_
  · intro k
    exact (nodup_occurrences i tableA k).sublist (map_fst_zip_sublist _ _)
  · intro p _ q _ heq
    rw [heq]

/-- **Nor is a row of `table_B`.** -/
theorem nodup_snd_hashjoinVector_zero (i j : Nat) (tableA tableB : List (List UInt8)) :
    ((hashjoinVector i j tableA tableB 0).map Prod.snd).Nodup := by
  refine nodup_map_of_groups (fun p => keyAt i tableA p.1) Prod.snd (fun o => nodup_group Prod.snd o ?_) ?_
  · intro k
    exact (nodup_occurrences j tableB k).sublist (map_snd_zip_sublist _ _)
  · intro p hp q hq heq
    obtain ⟨k, hk⟩ := keyed_hashjoinVector_zero i j tableA tableB p hp
    obtain ⟨k', hk'⟩ := keyed_hashjoinVector_zero i j tableA tableB q hq
    have hb := keyAt_of_mem_zero hp hk
    have hb' := keyAt_of_mem_zero hq hk'
    rw [heq, hb'] at hb
    rw [hk, hk', Option.some.inj hb]

end Nodup

/-! ## The run -/

/-- **A maximal first-come matching**: rows of equal keys are paired, no row twice, as many of each key as both
    tables have, and the `m`-th occurrence in `table_B` with the `m`-th in `table_A`. -/
structure FirstComeMatching (i j : Nat) (tableA tableB : List (List UInt8)) (joinResult : List (Int × Int)) : Prop where
  sameKey : ∀ p ∈ joinResult, SameKey i j tableA tableB p.1 p.2
  nodupA : (joinResult.map Prod.fst).Nodup
  nodupB : (joinResult.map Prod.snd).Nodup
  count : ∀ k, (joinResult.filter (fun p => keyAt i tableA p.1.toNat = some k)).length =
    min (occurrences i tableA.zipIdx k).length (occurrences j tableB.zipIdx k).length
  occurrence : ∀ (k : UInt64) (m a b : Nat), (occurrences i tableA.zipIdx k)[m]? = some a → (occurrences j tableB.zipIdx k)[m]? = some b →
    ((a : Int), (b : Int)) ∈ joinResult

section Zero

variable {i j : Nat} {tableA tableB : List (List UInt8)}

/-- The `m`-th occurrences are paired. -/
theorem mem_hashjoinVector_zero {k : UInt64} {m a b : Nat} (ha : (occurrences i tableA.zipIdx k)[m]? = some a)
    (hb : (occurrences j tableB.zipIdx k)[m]? = some b) : (a, b) ∈ hashjoinVector i j tableA tableB 0 := by
  have hzip : ((occurrences i tableA.zipIdx k).zip (occurrences j tableB.zipIdx k))[m]? = some (a, b) :=
    List.getElem?_zip_eq_some.mpr ⟨ha, hb⟩
  have hmem := List.mem_of_getElem? hzip
  rw [← filter_hashjoinVector_zero, List.mem_filter] at hmem
  exact hmem.1

/-- **Mode `0` is a maximal first-come matching**, for tables whose row indexes are `int`s. -/
theorem hashjoinRun_matching (ndebug : Bool) (i j : Nat) (tableA tableB : List (List UInt8))
    (hA : tableA.length ≤ 2147483648) (hB : tableB.length ≤ 2147483648) :
    ∃ joinResult, hashjoinRun ndebug i j tableA tableB 0 = .ok joinResult ∧
      FirstComeMatching i j tableA tableB joinResult := by
  refine ⟨_, hashjoinRun_zero hA hB, ?_, ?_, ?_, ?_, ?_⟩
  · rintro ⟨a, b⟩ hp
    obtain ⟨m, n, rfl, rfl, hmem⟩ := mem_asInts.mp hp
    obtain ⟨k, hk⟩ := keyed_hashjoinVector_zero i j tableA tableB _ hmem
    obtain ⟨rowA, hrowA, hkeyA⟩ := Option.map_eq_some_iff.mp hk
    obtain ⟨rowB, hrowB, hkeyB⟩ := Option.map_eq_some_iff.mp (keyAt_of_mem_zero hmem hk)
    exact ⟨m, n, rowA, rowB, rfl, rfl, hrowA, hrowB, hkeyA.trans hkeyB.symm⟩
  · have h := (nodup_fst_hashjoinVector_zero i j tableA tableB).map (f := Int.ofNat) (fun _ _ => Int.ofNat.inj)
    rw [asInts, List.map_map]
    rw [List.map_map] at h
    exact h
  · have h := (nodup_snd_hashjoinVector_zero i j tableA tableB).map (f := Int.ofNat) (fun _ _ => Int.ofNat.inj)
    rw [asInts, List.map_map]
    rw [List.map_map] at h
    exact h
  · intro k
    rw [asInts, List.filter_map, List.length_map, ← List.length_zip, ← filter_hashjoinVector_zero]
    rfl
  · intro k m a b ha hb
    exact mem_asInts.mpr ⟨a, b, rfl, rfl, mem_hashjoinVector_zero ha hb⟩

/-- Three rows of one key and two of it on the other side. -/
theorem hashjoinRun_matching_three :
    ∃ joinResult, hashjoinRun false 0 0 (List.replicate 3 (List.replicate 8 1)) (List.replicate 2 (List.replicate 8 1)) 0 =
        .ok joinResult ∧
      FirstComeMatching 0 0 (List.replicate 3 (List.replicate 8 1)) (List.replicate 2 (List.replicate 8 1)) joinResult :=
  hashjoinRun_matching false 0 0 _ _ (by simp) (by simp)

/-- A row of `table_A` whose index is no `int`: its entry leads outside the table. -/
theorem hashjoinRun_late_row (ndebug : Bool) {n : Nat} {row row' : List UInt8} (hne : itemk row 0 ≠ itemk row' 0)
    (hn : toInt (UInt64.ofInt (rowIndex n)) < 0) :
    hashjoinRun ndebug 0 0 (List.replicate n row ++ [row']) [row'] 0 = .error .undefined := by
  have hentries : (joinTable 0 (List.replicate n row ++ [row'])).entries.filter (fun e => e.1 = itemk row' 0) =
      [(itemk row' 0, n)] := by
    have hbefore : ((List.replicate n row).zipIdx.map (fun ele => (itemk ele.1 0, ele.2))).filter
        (fun e => e.1 = itemk row' 0) = [] := by
      refine List.filter_eq_nil_iff.mpr (fun e he heq => ?_)
      obtain ⟨ele, hele, rfl⟩ := List.mem_map.mp he
      have hrow := List.eq_of_mem_replicate (List.mem_of_getElem? (List.mem_zipIdx_iff_getElem?.mp hele))
      have hkey : itemk ele.1 0 = itemk row' 0 := of_decide_eq_true heq
      rw [hrow] at hkey
      exact hne hkey
    rw [filter_joinTable, List.zipIdx_append, List.map_append, List.filter_append, hbefore]
    simp
  have hhead := (joinTable 0 (List.replicate n row ++ [row'])).head?_find (itemk row' 0)
  rw [hentries, List.head?_cons] at hhead
  obtain ⟨iter, hiter⟩ := List.head?_eq_some_iff.mp hhead
  have hfind : (joinTableRun 0 (List.replicate n row ++ [row'])).find (itemk row' 0) =
      storedEntry (itemk row' 0, n) :: iter.map storedEntry := by
    rw [joinTableRun_eq, asStored, Multimap.find_mapVal, hiter]
    rfl
  have houtside : vecAtInt (List.replicate n row ++ [row']) (toInt (UInt64.ofInt (rowIndex n))) = .error .undefined :=
    if_neg (by omega)
  show (joinRowRun ndebug 0 0 _ [row'] 0 (joinTableRun 0 (List.replicate n row ++ [row']), []) (row', 0) >>= pure) >>=
    (fun s => Except.ok s.2) = _
  unfold joinRowRun
  simp only [hfind, if_true, joinPair, storedEntry, houtside]
  rfl

/-- **Not every join is a matching**: the row `2 ^ 31` of `table_A` is the only one of its key. -/
theorem not_hashjoinRun_matching_late_row :
    ¬ ∀ (ndebug : Bool) (i j : Nat) (tableA tableB : List (List UInt8)),
      ∃ joinResult, hashjoinRun ndebug i j tableA tableB 0 = .ok joinResult ∧
        FirstComeMatching i j tableA tableB joinResult := by
  intro h
  obtain ⟨joinResult, hok, -⟩ :=
    h true 0 0 (List.replicate 2147483648 (List.replicate 8 0) ++ [List.replicate 8 1]) [List.replicate 8 1]
  rw [hashjoinRun_late_row true (by decide) (by decide)] at hok
  cases hok

end Zero

end StorTrace
