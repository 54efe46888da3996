import StorTrace.Collector.HashJoin
import StorTrace.Collector.Statistics

/-!
# `Collector.JoinRun` — the join as it runs, and that it is the relational join

`hashjoin_vector` keeps row indexes as `int`s, stores them as 64-bit words and walks the multimap with an
iterator. A read outside a table, a step from the end of the multimap and an assertion that fails end it in a
`Fault`. Up to `2 ^ 31` rows an index is an `int`, and the run is `hashjoinVector` (`hashjoinRun_eq`).
-/

namespace StorTrace

/-! ## The run -/

/-- `v[index]`, with an `int`. -/
def vecAtInt {α : Type} (v : List α) (index : Int) : Except Fault α :=
  if 0 ≤ index then vecAt v index.toNat else .error .undefined

/-- `&ele - &table[0]` as an `int`. -/
def rowIndex (n : Nat) : Int := toInt (UInt64.ofNat n)

section Run

variable (ndebug : Bool) (i j : Nat) (tableA tableB : List (List UInt8))

/-- `join_table`: the row indexes of `table_A`, stored as `u64`, under their keys. -/
def joinTableRun : Multimap UInt64 UInt64 :=
  Multimap.insertAll (tableA.zipIdx.map (fun ele => (itemk ele.1 i, UInt64.ofInt (rowIndex ele.2)))) .empty

/-- The pair of an entry of `join_table` and the row `index_B`; a debug build asserts that the keys are
    equal. -/
def joinPair (indexB : Int) (second : UInt64) : Except Fault (Int × Int) := do
  let indexA := toInt second
  let rowA ← vecAtInt tableA indexA
  let rowB ← vecAtInt tableB indexB
  if ndebug = false ∧ itemk rowA i ≠ itemk rowB j then .error (.fatal "v1 == v2")
  else .ok (indexA, indexB)

/-- `for(int n = 0; n<m; n++, iter++)`; the end of the multimap has no entry and no next one. -/
def joinWalk (pair : UInt64 → Except Fault (Int × Int)) :
    Nat → List (UInt64 × UInt64) → List (Int × Int) → Except Fault (List (Int × Int))
  | 0, _, joinResult => .ok joinResult
  | _ + 1, [], _ => .error .undefined
  | m + 1, e :: iter, joinResult => do
      let p ← pair e.2
      joinWalk pair m iter (joinResult ++ [p])

/-- The number of turns for a key: the count as an `int`. -/
def joinTurns (joinTable : Multimap UInt64 UInt64) (select : UInt64) : Int :=
  toInt (UInt64.ofNat (joinTable.count select))

/-- The body of the loop over `table_B`. -/
def joinRowRun (mode : Int) (s : Multimap UInt64 UInt64 × List (Int × Int)) (ele : List UInt8 × Nat) :
    Except Fault (Multimap UInt64 UInt64 × List (Int × Int)) :=
  let select := itemk ele.1 j
  let iter := s.1.find select
  let pair := joinPair ndebug i j tableA tableB (rowIndex ele.2)
  if mode = 0 then
    match iter with
    | [] => .ok s
    | e :: _ => do
        let p ← pair e.2
        return (s.1.eraseFirst select, s.2 ++ [p])
  else if mode = 1 then do
    let joinResult ← joinWalk pair (joinTurns s.1 select).toNat iter s.2
    return (s.1, joinResult)
  else if ndebug then .ok s
  else .error (.fatal "unkown mode")

/-- `hashjoin_vector(i, j, table_A, table_B, mode)`, as it runs. -/
def hashjoinRun (mode : Int) : Except Fault (List (Int × Int)) := do
  let s ← tableB.zipIdx.foldlM (joinRowRun ndebug i j tableA tableB mode) (joinTableRun i tableA, [])
  return s.2

end Run

/-! ## Indexes that are `int`s -/

theorem rowIndex_of_lt {n : Nat} (h : n < 2147483648) : rowIndex n = n := by
  have hn : (UInt64.ofNat n).toNat = n := by
    rw [UInt64.toNat_ofNat']
    omega
  rw [rowIndex, toInt_of_lt (by rw [hn]; exact h), hn]

/-- An index comes back from the multimap. -/
theorem toInt_ofInt_rowIndex {n : Nat} (h : n < 2147483648) : toInt (UInt64.ofInt (rowIndex n)) = n := by
  rw [rowIndex_of_lt h, toInt_of_lt (by rw [toNat_ofInt_of_lt h]; exact h), toNat_ofInt_of_lt h]

theorem vecAtInt_of_getElem? {α : Type} {v : List α} {n : Nat} {a : α} (h : v[n]? = some a) :
    vecAtInt v n = .ok a := by
  rw [vecAtInt, if_pos (Int.natCast_nonneg n), Int.toNat_natCast, vecAt, h]

/-! ## The run is the join -/

section Refines

variable {ndebug : Bool} {i j : Nat} {tableA tableB : List (List UInt8)}

/-- The indexes as the multimap stores them. -/
def asStored (joinTable : Multimap UInt64 Nat) : Multimap UInt64 UInt64 :=
  joinTable.mapVal (fun n => UInt64.ofInt (rowIndex n))

/-- The pairs as `int`s. -/
def asInts (joinResult : List (Nat × Nat)) : List (Int × Int) := joinResult.map (fun p => ((p.1 : Int), (p.2 : Int)))

/-- The entries of `join_table` are rows of `table_A` under their keys. -/
def RowsOf (i : Nat) (tableA : List (List UInt8)) (joinTable : Multimap UInt64 Nat) : Prop :=
  ∀ e ∈ joinTable.entries, ∃ row, tableA[e.2]? = some row ∧ itemk row i = e.1

theorem joinTableRun_eq (i : Nat) (tableA : List (List UInt8)) : joinTableRun i tableA = asStored (joinTable i tableA) := by
  rw [asStored, joinTable, Multimap.mapVal_insertAll, List.map_map]
  rfl

theorem rowsOf_joinTable (i : Nat) (tableA : List (List UInt8)) : RowsOf i tableA (joinTable i tableA) := by
  intro e he
  have hmem : e ∈ (joinTable i tableA).entries.filter (fun e' => e'.1 = e.1) := by simp [he]
  rw [filter_joinTable, List.mem_filter] at hmem
  obtain ⟨⟨row, n⟩, hrow, rfl⟩ := List.mem_map.mp hmem.1
  exact ⟨row, List.mem_zipIdx_iff_getElem?.mp hrow, rfl⟩

/-- The pair of two rows with equal keys. -/
theorem joinPair_eq_ok {a b : Nat} {rowA rowB : List UInt8} (hA : tableA.length ≤ 2147483648)
    (hB : tableB.length ≤ 2147483648) (ha : tableA[a]? = some rowA) (hb : tableB[b]? = some rowB)
    (hkey : itemk rowA i = itemk rowB j) :
    joinPair ndebug i j tableA tableB (rowIndex b) (UInt64.ofInt (rowIndex a)) = .ok ((a : Int), (b : Int)) := by
  have hlt : a < tableA.length := (List.getElem?_eq_some_iff.mp ha).1
  have hlt' : b < tableB.length := (List.getElem?_eq_some_iff.mp hb).1
  have hskip : ¬ (ndebug = false ∧ itemk rowA i ≠ itemk rowB j) := fun h => h.2 hkey
  have hindexA : toInt (UInt64.ofInt (rowIndex a)) = a := toInt_ofInt_rowIndex (by omega)
  have hindexB : rowIndex b = b := rowIndex_of_lt (by omega)
  unfold joinPair
  simp only [hindexA, hindexB, vecAtInt_of_getElem? ha, vecAtInt_of_getElem? hb]
  exact if_neg hskip

/-- An entry as the multimap stores it. -/
def storedEntry (e : UInt64 × Nat) : UInt64 × UInt64 := (e.1, UInt64.ofInt (rowIndex e.2))

/-- **A walk** over entries that all have a pair. -/
theorem joinWalk_eq_ok (pair : UInt64 → Except Fault (Int × Int)) (b m : Nat) (iter : List (UInt64 × Nat))
    (joinResult : List (Int × Int)) (hm : m ≤ iter.length)
    (hpair : ∀ e ∈ iter.take m, pair (storedEntry e).2 = .ok ((e.2 : Int), (b : Int))) :
    joinWalk pair m (iter.map storedEntry) joinResult =
      .ok (joinResult ++ asInts ((iter.take m).map (fun e => (e.2, b)))) := by
  induction m generalizing iter joinResult with
  | zero =>
      rw [joinWalk, List.take_zero]
      show Except.ok joinResult = .ok (joinResult ++ [])
      rw [List.append_nil]
  | succ m ih =>
      cases iter with
      | nil => exact absurd hm (by simp)
      | cons e iter =>
          rw [List.take_succ_cons] at hpair ⊢
          obtain ⟨he, hrest⟩ := List.forall_mem_cons.mp hpair
          rw [List.map_cons, joinWalk, he]
          show joinWalk pair m (iter.map storedEntry) (joinResult ++ [((e.2 : Int), (b : Int))]) = _
          rw [ih iter _ (Nat.le_of_succ_le_succ hm) hrest, List.append_assoc]
          rfl

/-- An entry of the key of a row of `table_B` has a pair with it. -/
theorem joinPair_entry (ndebug : Bool) {joinTable : Multimap UInt64 Nat} (hA : tableA.length ≤ 2147483648)
    (hB : tableB.length ≤ 2147483648) (hrows : RowsOf i tableA joinTable) {ele : List UInt8 × Nat}
    (hele : ele ∈ tableB.zipIdx) {e : UInt64 × Nat}
    (he : e ∈ joinTable.entries.filter (fun e => e.1 = itemk ele.1 j)) :
    joinPair ndebug i j tableA tableB (rowIndex ele.2) (storedEntry e).2 = .ok ((e.2 : Int), (ele.2 : Int)) := by
  obtain ⟨hmem, hkey⟩ := List.mem_filter.mp he
  obtain ⟨row, hrow, hkey'⟩ := hrows e hmem
  exact joinPair_eq_ok hA hB hrow (List.mem_zipIdx_iff_getElem?.mp hele) (hkey'.trans (of_decide_eq_true hkey))

/-- **One row of `table_B`, mode `0`**: it is joined as `joinRow` says. -/
theorem joinRowRun_zero (hA : tableA.length ≤ 2147483648) (hB : tableB.length ≤ 2147483648)
    {s : Multimap UInt64 Nat × List (Nat × Nat)} (hrows : RowsOf i tableA s.1) {ele : List UInt8 × Nat}
    (hele : ele ∈ tableB.zipIdx) :
    joinRowRun ndebug i j tableA tableB 0 (asStored s.1, asInts s.2) ele =
      .ok (asStored (joinRow j 0 s ele).1, asInts (joinRow j 0 s ele).2) := by
  have hfind : (asStored s.1).find (itemk ele.1 j) =
      (s.1.find (itemk ele.1 j)).map storedEntry := Multimap.find_mapVal _ _ _
  have hhead := s.1.head?_find (itemk ele.1 j)
  unfold joinRowRun joinRow
  simp only [hfind, if_true]
  cases hiter : s.1.find (itemk ele.1 j) with
  | nil => rfl
  | cons e iter =>
      rw [hiter, List.head?_cons] at hhead
      have hpair := joinPair_entry ndebug hA hB hrows hele (List.mem_of_head? hhead.symm)
      simp only [List.map_cons, hpair]
      show Except.ok ((asStored s.1).eraseFirst (itemk ele.1 j), asInts s.2 ++ [((e.2 : Int), (ele.2 : Int))]) = _
      rw [asStored, Multimap.eraseFirst_mapVal, asInts, asInts, List.map_append]
      rfl

/-- Erasing an entry leaves rows of `table_A`. -/
theorem rowsOf_joinRow {s : Multimap UInt64 Nat × List (Nat × Nat)} (hrows : RowsOf i tableA s.1) (ele : List UInt8 × Nat) :
    RowsOf i tableA (joinRow j 0 s ele).1 := by
  unfold joinRow
  simp only [if_true]
  cases s.1.find (itemk ele.1 j) with
  | nil => exact hrows
  | cons e iter => exact fun e' he' => hrows e' (List.mem_of_mem_eraseP he')

/-- The number of turns for a key, if there are fewer than `2 ^ 31` rows. -/
theorem joinTurns_eq (hA : tableA.length < 2147483648) (select : UInt64) :
    joinTurns (asStored (joinTable i tableA)) select = (joinTable i tableA).count select := by
  have hcount : (joinTable i tableA).count select ≤ tableA.length := by
    rw [Multimap.count, List.countP_eq_length_filter, filter_joinTable]
    refine Nat.le_trans (List.length_filter_le _ _) ?_
    rw [List.length_map, List.length_zipIdx]
  rw [joinTurns, asStored, Multimap.count_mapVal]
  exact rowIndex_of_lt (Nat.lt_of_le_of_lt hcount hA)

/-- **One row of `table_B`, mode `1`.** -/
theorem joinRowRun_one (hA : tableA.length < 2147483648) (hB : tableB.length ≤ 2147483648)
    (joinResult : List (Nat × Nat)) {ele : List UInt8 × Nat} (hele : ele ∈ tableB.zipIdx) :
    joinRowRun ndebug i j tableA tableB 1 (asStored (joinTable i tableA), asInts joinResult) ele =
      .ok (asStored (joinRow j 1 (joinTable i tableA, joinResult) ele).1,
        asInts (joinRow j 1 (joinTable i tableA, joinResult) ele).2) := by
  have hfind : (asStored (joinTable i tableA)).find (itemk ele.1 j) =
      ((joinTable i tableA).find (itemk ele.1 j)).map storedEntry := Multimap.find_mapVal _ _ _
  have hturns : (joinTurns (asStored (joinTable i tableA)) (itemk ele.1 j)).toNat =
      (joinTable i tableA).count (itemk ele.1 j) := by
    rw [joinTurns_eq hA, Int.toNat_natCast]
  have hwalk := joinWalk_eq_ok (joinPair ndebug i j tableA tableB (rowIndex ele.2)) ele.2
    ((joinTable i tableA).count (itemk ele.1 j)) ((joinTable i tableA).find (itemk ele.1 j)) (asInts joinResult)
    (Multimap.count_le_length_find _ _) (by
      rw [Multimap.find_take_count]
      exact fun e he => joinPair_entry ndebug (Nat.le_of_lt hA) hB (rowsOf_joinTable i tableA) hele he)
  unfold joinRowRun joinRow
  simp only [hfind, hturns, hwalk, Int.reduceEq, if_true, if_false]
  show Except.ok (asStored (joinTable i tableA), _) = _
  rw [asInts, asInts, asInts, List.map_append]

/-- A loop over rows, each of which is processed as `step` says. -/
theorem foldlM_eq_ok_foldl {σ τ ρ : Type} (step : σ → ρ → σ) (run : τ → ρ → Except Fault τ) (image : σ → τ)
    (inv : σ → Prop) (rows : List ρ)
    (hrow : ∀ s, inv s → ∀ r ∈ rows, run (image s) r = .ok (image (step s r)) ∧ inv (step s r)) {s : σ} (hs : inv s) :
    rows.foldlM run (image s) = .ok (image (rows.foldl step s)) := by
  induction rows generalizing s with
  | nil => rfl
  | cons r rest ih =>
      obtain ⟨hrun, hinv⟩ := hrow s hs r List.mem_cons_self
      rw [List.foldlM_cons, hrun]
      exact ih (fun s hs r hr => hrow s hs r (List.mem_cons_of_mem _ hr)) hinv

/-- **The run is the join, mode `0`.** -/
theorem hashjoinRun_zero (hA : tableA.length ≤ 2147483648) (hB : tableB.length ≤ 2147483648) :
    hashjoinRun ndebug i j tableA tableB 0 = .ok (asInts (hashjoinVector i j tableA tableB 0)) := by
  have hfold := foldlM_eq_ok_foldl (joinRow j 0) (joinRowRun ndebug i j tableA tableB 0)
    (fun s => (asStored s.1, asInts s.2)) (fun s => RowsOf i tableA s.1) tableB.zipIdx
    (fun s hs ele hele => ⟨joinRowRun_zero hA hB hs hele, rowsOf_joinRow hs ele⟩)
    (s := (joinTable i tableA, [])) (rowsOf_joinTable i tableA)
  rw [hashjoinRun, joinTableRun_eq]
  show List.foldlM _ (asStored (joinTable i tableA), asInts []) _ >>= _ = _
  rw [hfold]
  rfl

/-- **Mode `1`.** -/
theorem hashjoinRun_one (hA : tableA.length < 2147483648) (hB : tableB.length ≤ 2147483648) :
    hashjoinRun ndebug i j tableA tableB 1 = .ok (asInts (hashjoinVector i j tableA tableB 1)) := by
  have hfold := foldlM_eq_ok_foldl (joinRow j 1) (joinRowRun ndebug i j tableA tableB 1)
    (fun s => (asStored s.1, asInts s.2)) (fun s => s.1 = joinTable i tableA) tableB.zipIdx
    (by
      rintro ⟨_, joinResult⟩ rfl ele hele
      exact ⟨joinRowRun_one hA hB joinResult hele, rfl⟩)
    (s := (joinTable i tableA, [])) rfl
  rw [hashjoinRun, joinTableRun_eq]
  show List.foldlM _ (asStored (joinTable i tableA), asInts []) _ >>= _ = _
  rw [hfold]
  rfl

end Refines

/-! ## Mode `1` -/

/-- The row `a` of `table_A` and the row `b` of `table_B` have the same key. -/
def SameKey (i j : Nat) (tableA tableB : List (List UInt8)) (a b : Int) : Prop :=
  ∃ (m n : Nat) (rowA rowB : List UInt8), a = m ∧ b = n ∧ tableA[m]? = some rowA ∧ tableB[n]? = some rowB ∧
    itemk rowA i = itemk rowB j

/-- **The relational join**, ordered by the rows of `table_B` and then by those of `table_A`. -/
structure RelationalJoin (i j : Nat) (tableA tableB : List (List UInt8)) (joinResult : List (Int × Int)) : Prop where
  nodup : joinResult.Nodup
  mem_iff : ∀ a b, (a, b) ∈ joinResult ↔ SameKey i j tableA tableB a b
  ordered : joinResult.Pairwise (fun p q => p.2 < q.2 ∨ (p.2 = q.2 ∧ p.1 < q.1))

/-- **The iterator stays with its key**: in each of its turns it is at an entry of the key it was found for. -/
def StaysInRun (i j : Nat) (tableA tableB : List (List UInt8)) : Prop :=
  ∀ row ∈ tableB, ∀ n < (joinTurns (joinTableRun i tableA) (itemk row j)).toNat,
    ∃ e, ((joinTableRun i tableA).find (itemk row j))[n]? = some e ∧ e.1 = itemk row j

section One

variable {i j : Nat} {tableA tableB : List (List UInt8)}

theorem mem_asInts {joinResult : List (Nat × Nat)} {a b : Int} :
    (a, b) ∈ asInts joinResult ↔ ∃ m n : Nat, a = m ∧ b = n ∧ (m, n) ∈ joinResult := by
  simp only [asInts, List.mem_map, Prod.exists, Prod.mk.injEq]
  constructor
  · rintro ⟨m, n, hmem, rfl, rfl⟩
    exact ⟨m, n, rfl, rfl, hmem⟩
  · rintro ⟨m, n, rfl, rfl, hmem⟩
    exact ⟨m, n, hmem, rfl, rfl⟩

/-- Different indexes are different `int`s. -/
theorem nodup_asInts {joinResult : List (Nat × Nat)} (h : joinResult.Nodup) : (asInts joinResult).Nodup := by
  refine h.map ?_
  rintro ⟨a, b⟩ ⟨a', b'⟩ heq
  obtain ⟨ha, hb⟩ := Prod.mk.inj heq
  exact Prod.ext (Int.ofNat.inj ha) (Int.ofNat.inj hb)

/-- The rows of a table come in the order of their indexes. -/
theorem pairwise_zipIdx (table : List (List UInt8)) : table.zipIdx.Pairwise (fun r r' => r.2 < r'.2) := by
  have h : (table.zipIdx.map Prod.snd).Pairwise (· < ·) := by
    rw [List.zipIdx_map_snd]
    exact List.pairwise_lt_range'
  exact List.pairwise_map.mp h

/-- The pairs are ordered by `b`, and for equal `b` by `a`. -/
theorem ordered_hashjoinVector (i j : Nat) (tableA tableB : List (List UInt8)) :
    (hashjoinVector i j tableA tableB 1).Pairwise (fun p q => p.2 < q.2 ∨ (p.2 = q.2 ∧ p.1 < q.1)) := by
  rw [hashjoinVector_one, List.pairwise_flatMap]
  constructor
  · intro b _
    refine List.pairwise_map.mpr (((pairwise_zipIdx tableA).filter _).imp ?_)
    intro a a' hlt
    exact Or.inr ⟨rfl, hlt⟩
  · refine (pairwise_zipIdx tableB).imp ?_
    intro b b' hlt p hp q hq
    obtain ⟨a, -, rfl⟩ := List.mem_map.mp hp
    obtain ⟨a', -, rfl⟩ := List.mem_map.mp hq
    exact Or.inl hlt

/-- **Mode `1` is the relational join**, for tables whose row indexes and counts are `int`s. -/
theorem hashjoinRun_relational (ndebug : Bool) (i j : Nat) (tableA tableB : List (List UInt8))
    (hA : tableA.length < 2147483648) (hB : tableB.length ≤ 2147483648) :
    (∃ joinResult, hashjoinRun ndebug i j tableA tableB 1 = .ok joinResult ∧
      RelationalJoin i j tableA tableB joinResult) ∧ StaysInRun i j tableA tableB := by
  constructor
  · refine ⟨_, hashjoinRun_one hA hB, ?_, ?_, ?_⟩
    · exact nodup_asInts (nodup_hashjoinVector_one i j tableA tableB)
    · intro a b
      simp only [mem_asInts, mem_hashjoinVector_one]
      constructor
      · rintro ⟨m, n, ha, hb, rowA, rowB, hrowA, hrowB, hkey⟩
        exact ⟨m, n, rowA, rowB, ha, hb, hrowA, hrowB, hkey⟩
      · rintro ⟨m, n, rowA, rowB, ha, hb, hrowA, hrowB, hkey⟩
        exact ⟨m, n, ha, hb, rowA, rowB, hrowA, hrowB, hkey⟩
    · refine List.pairwise_map.mpr ((ordered_hashjoinVector i j tableA tableB).imp ?_)
      rintro p q (hlt | ⟨heq, hlt⟩)
      · exact Or.inl (Int.ofNat_lt.mpr hlt)
      · exact Or.inr ⟨congrArg Int.ofNat heq, Int.ofNat_lt.mpr hlt⟩
  · intro row hrow n hn
    rw [joinTableRun_eq, joinTurns_eq hA, Int.toNat_natCast, ← Multimap.count_mapVal (fun n => UInt64.ofInt (rowIndex n))] at hn
    rw [joinTableRun_eq]
    exact Multimap.getElem?_find _ hn

/-- Two rows of one key and one of another. -/
theorem hashjoinRun_relational_three :
    (∃ joinResult, hashjoinRun false 0 0 [List.replicate 8 1, List.replicate 8 2, List.replicate 8 1] [List.replicate 8 1] 1 =
        .ok joinResult ∧
      RelationalJoin 0 0 [List.replicate 8 1, List.replicate 8 2, List.replicate 8 1] [List.replicate 8 1] joinResult) ∧
      StaysInRun 0 0 [List.replicate 8 1, List.replicate 8 2, List.replicate 8 1] [List.replicate 8 1] :=
  hashjoinRun_relational false 0 0 _ _ (by simp) (by simp)

/-- A count of `2 ^ 31` is a negative number of turns: the key of all rows of `table_A` is skipped. -/
theorem hashjoinRun_replicate (ndebug : Bool) {n : Nat} (row : List UInt8) (hn : rowIndex n ≤ 0) :
    hashjoinRun ndebug 0 0 (List.replicate n row) [row] 1 = .ok [] := by
  have hcount : (joinTable 0 (List.replicate n row)).count (itemk row 0) = n := by
    have hall : ((List.replicate n row).zipIdx.map (fun ele => (itemk ele.1 0, ele.2))).filter (fun e => e.1 = itemk row 0) =
        (List.replicate n row).zipIdx.map (fun ele => (itemk ele.1 0, ele.2)) := by
      refine List.filter_eq_self.mpr ?_
      intro e he
      obtain ⟨ele, hele, rfl⟩ := List.mem_map.mp he
      have hrow := List.mem_of_getElem? (List.mem_zipIdx_iff_getElem?.mp hele)
      rw [List.eq_of_mem_replicate hrow]
      exact decide_eq_true rfl
    rw [Multimap.count, List.countP_eq_length_filter, filter_joinTable, hall, List.length_map, List.length_zipIdx,
      List.length_replicate]
  have hturns : (joinTurns (joinTableRun 0 (List.replicate n row)) (itemk row 0)).toNat = 0 := by
    rw [joinTurns, joinTableRun_eq, asStored, Multimap.count_mapVal, hcount]
    exact Int.toNat_of_nonpos hn
  show (joinRowRun ndebug 0 0 (List.replicate n row) [row] 1 (joinTableRun 0 (List.replicate n row), []) (row, 0) >>= pure) >>=
    (fun s => Except.ok s.2) = _
  unfold joinRowRun
  simp only [hturns, Int.reduceEq, if_false, if_true]
  rfl

/-- **Not every join is the relational join**: `2 ^ 31` rows of the same key. -/
theorem not_hashjoinRun_relational_count :
    ¬ ∀ (ndebug : Bool) (i j : Nat) (tableA tableB : List (List UInt8)),
      (∃ joinResult, hashjoinRun ndebug i j tableA tableB 1 = .ok joinResult ∧
        RelationalJoin i j tableA tableB joinResult) ∧ StaysInRun i j tableA tableB := by
  intro h
  obtain ⟨⟨joinResult, hok, hjoin⟩, -⟩ := h true 0 0 (List.replicate 2147483648 (List.replicate 8 0)) [List.replicate 8 0]
  rw [hashjoinRun_replicate true _ (by decide)] at hok
  obtain rfl := Except.ok.inj hok
  have hfirst : (List.replicate 2147483648 (List.replicate 8 (0 : UInt8)))[0]? = some (List.replicate 8 0) :=
    List.getElem?_replicate_of_lt (by decide)
  have hmem := (hjoin.mem_iff 0 0).mpr ⟨0, 0, _, _, rfl, rfl, hfirst, rfl, rfl⟩
  exact absurd hmem (List.not_mem_nil)

end One

end StorTrace
