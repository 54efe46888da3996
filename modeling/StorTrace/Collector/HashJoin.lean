import Mathlib.Data.List.Nodup
import StorTrace.Lib.Layout
import StorTrace.Lib.Multimap

/-!
# `Collector.HashJoin` — joining two log tables on a column (`hashjoin_vector`)

A table is the list of its rows' memory; column `k` of a row is its `k`-th 64-bit word, whatever the row's
type. Mode `0` pairs each row of `B` with the first row of `A` of its key that has no partner yet, mode
`1` with every row of `A` of its key.
-/

namespace StorTrace

/-- `itemk(&ele, k)`. -/
def itemk (ele : List UInt8) (k : Nat) : UInt64 := wordAt ele k

/-- The body of the loop over `table_B`: `ele` is a row and its index. -/
def joinRow (j : Nat) (mode : Int) (s : Multimap UInt64 Nat × List (Nat × Nat))
    (ele : List UInt8 × Nat) : Multimap UInt64 Nat × List (Nat × Nat) :=
  let select := itemk ele.1 j
  let iter := s.1.find select
  if mode = 0 then
    -- the first entry of the key is used up
    match iter with
    | [] => s
    | e :: _ => (s.1.eraseFirst select, s.2 ++ [(e.2, ele.2)])
  else if mode = 1 then
    (s.1, s.2 ++ (iter.take (s.1.count select)).map (fun e => (e.2, ele.2)))
  else s

/-- The table `join_table`: the row indexes of `table_A` under their keys. -/
def joinTable (i : Nat) (tableA : List (List UInt8)) : Multimap UInt64 Nat :=
  Multimap.insertAll (tableA.zipIdx.map (fun ele => (itemk ele.1 i, ele.2))) .empty

/-- `hashjoin_vector(i, j, table_A, table_B, mode)`. -/
def hashjoinVector (i j : Nat) (tableA tableB : List (List UInt8)) (mode : Int) : List (Nat × Nat) :=
  (tableB.zipIdx.foldl (joinRow j mode) (joinTable i tableA, [])).2

/-- The entries of a key in `join_table`. -/
theorem filter_joinTable (i : Nat) (tableA : List (List UInt8)) (k : UInt64) :
    (joinTable i tableA).entries.filter (fun e => e.1 = k) =
      (tableA.zipIdx.map (fun ele => (itemk ele.1 i, ele.2))).filter (fun e => e.1 = k) := by
  rw [joinTable, Multimap.filter_insertAll]
  rfl

/-- **Mode `1`** pairs each row of `B`, in order, with the rows of `A` of its key, in order. -/
theorem hashjoinVector_one (i j : Nat) (tableA tableB : List (List UInt8)) :
    hashjoinVector i j tableA tableB 1 =
      tableB.zipIdx.flatMap (fun b =>
        (tableA.zipIdx.filter (fun a => itemk a.1 i = itemk b.1 j)).map (fun a => (a.2, b.2))) := by
  have hrow (acc : List (Nat × Nat)) (b : List UInt8 × Nat) :
      joinRow j 1 (joinTable i tableA, acc) b =
        (joinTable i tableA, acc ++
          (tableA.zipIdx.filter (fun a => itemk a.1 i = itemk b.1 j)).map (fun a => (a.2, b.2))) := by
    have hpairs : (((joinTable i tableA).find (itemk b.1 j)).take
        ((joinTable i tableA).count (itemk b.1 j))).map (fun e => (e.2, b.2)) =
          (tableA.zipIdx.filter (fun a => itemk a.1 i = itemk b.1 j)).map (fun a => (a.2, b.2)) := by
      rw [Multimap.find_take_count, filter_joinTable, List.filter_map, List.map_map]
      rfl
    rw [← hpairs]
    rfl
  have hfold (rows : List (List UInt8 × Nat)) (acc : List (Nat × Nat)) :
      (rows.foldl (joinRow j 1) (joinTable i tableA, acc)).2 = acc ++ rows.flatMap (fun b =>
        (tableA.zipIdx.filter (fun a => itemk a.1 i = itemk b.1 j)).map (fun a => (a.2, b.2))) := by
    -- the table stays the same from row to row, the pairs accumulate
    induction rows generalizing acc with
    | nil => simp
    | cons b rest ih => rw [List.foldl_cons, hrow, ih, List.flatMap_cons, List.append_assoc]
  rw [hashjoinVector, hfold, List.nil_append]

/-- **Mode `1` is the relational join**: it pairs exactly the rows with equal columns. -/
theorem mem_hashjoinVector_one {i j a b : Nat} {tableA tableB : List (List UInt8)} :
    (a, b) ∈ hashjoinVector i j tableA tableB 1 ↔
      ∃ ra rb, tableA[a]? = some ra ∧ tableB[b]? = some rb ∧ itemk ra i = itemk rb j := by
  simp only [hashjoinVector_one, List.mem_flatMap, List.mem_map, List.mem_filter, Prod.mk.injEq,
    decide_eq_true_eq, Prod.exists, List.mem_zipIdx_iff_getElem?]
  constructor
  · rintro ⟨rb, b', hb, ra, a', ⟨ha, heq⟩, rfl, rfl⟩
    exact ⟨ra, rb, ha, hb, heq⟩
  · rintro ⟨ra, rb, ha, hb, heq⟩
    exact ⟨rb, b, hb, ra, a, ⟨ha, heq⟩, rfl, rfl⟩

/-- No pair comes twice. -/
theorem nodup_hashjoinVector_one (i j : Nat) (tableA tableB : List (List UInt8)) :
    (hashjoinVector i j tableA tableB 1).Nodup := by
  have hindex (table : List (List UInt8)) : (table.zipIdx.map Prod.snd).Nodup := by
    rw [List.zipIdx_map_snd]
    exact List.nodup_range'
  rw [hashjoinVector_one, List.nodup_flatMap]
  constructor
  · intro b _
    -- the rows of `A` have different indexes
    refine List.Nodup.of_map Prod.fst ?_
    rw [List.map_map]
    exact (hindex tableA).sublist (List.filter_sublist.map Prod.snd)
  · refine (List.pairwise_map.mp (hindex tableB)).imp ?_
    intro b b' hne p hp hp'
    obtain ⟨a, -, rfl⟩ := List.mem_map.mp hp
    obtain ⟨a', -, heq⟩ := List.mem_map.mp hp'
    exact hne (Prod.mk.inj heq).2.symm

end StorTrace
