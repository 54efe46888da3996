import StorTrace.Collector.LogCollecter

/-!
# `Collector.TableRead` — a table is loaded with one `read`

`make_table` calls `read` once and does not look at what it returns. One call transfers no more than
`0x7ffff000` bytes and may transfer fewer; the rest of the table stays as `resize` made it, zero.
-/

namespace StorTrace

open Meta

/-! ## `read` -/

/-- The most bytes one `read` transfers. -/
def readMax : Nat := 0x7ffff000

/-- What a `read` of `count` bytes may return, `rest` bytes before the end of a file. -/
structure ReadReturns (count rest transferred : Nat) : Prop where
  le_count : transferred ≤ min count readMax
  le_rest : transferred ≤ rest
  pos : 0 < count → 0 < rest → 0 < transferred

instance (count rest transferred : Nat) : Decidable (ReadReturns count rest transferred) :=
  decidable_of_iff (transferred ≤ min count readMax ∧ transferred ≤ rest ∧ (0 < count → 0 < rest → 0 < transferred))
    ⟨fun h => ⟨h.1, h.2.1, h.2.2⟩, fun h => ⟨h.le_count, h.le_rest, h.pos⟩⟩

namespace LogCollecterVector

/-- `row_size*n`, a `size_t`. -/
def readCount (c : LogCollecterVector) (n : Nat) : Nat := (c.rowSize * n % 18446744073709551616).toNat

/-- `make_table`, when `read` transfers that many bytes of the log's file. -/
def makeTableRead (c : LogCollecterVector) (sizeofT : Nat) (content : Str) (transferred : Nat) : Option (List Str) :=
  match c.n with
  | none => none
  | some n =>
      if n = 0 then some []
      else if (sizeofT : Int) = c.rowSize then
        let bytes := n.toNat * sizeofT
        some (rowsOf sizeofT n.toNat (content.take transferred ++ List.replicate (bytes - transferred) 0))
      else none

/-- `makeTable` is the case of a file that is transferred whole. -/
theorem makeTable_eq_read {c : LogCollecterVector} {sz : Nat} {content : Str}
    (hlen : ∀ n, c.n = some n → content.length ≤ n.toNat * sz) :
    c.makeTable sz content = c.makeTableRead sz content content.length := by
  unfold makeTable makeTableRead
  cases hn : c.n with
  | none => rfl
  | some n => simp only [List.take_length, List.take_of_length_le (hlen n hn)]

variable {c : LogCollecterVector} {sz : Nat} {rows : List Str}

/-- The memory of the table is the file exactly if what was not transferred is zero. -/
theorem take_append_zeros_eq_iff {content : Str} {transferred : Nat} :
    content.take transferred ++ List.replicate (content.length - transferred) 0 = content ↔
      ∀ b ∈ content.drop transferred, b = 0 := by
  conv_lhs => rhs; rw [← List.take_append_drop transferred content]
  rw [List.append_cancel_left_eq, eq_comm, List.eq_replicate_iff, List.length_drop]
  exact and_iff_right rfl

/-- **A table is the file exactly if** every byte that `read` did not transfer is zero. -/
theorem loadsRows_iff (c : LogCollecterVector) (sz : Nat) (rows : List Str) (transferred : Nat)
    (hn : c.n = some (rows.length : Int)) (hsize : c.rowSize = sz) (hrows : ∀ r ∈ rows, r.length = sz)
    (hread : ReadReturns (c.readCount rows.length) rows.flatten.length transferred) :
    c.makeTableRead sz rows.flatten transferred = some rows ↔ ∀ b ∈ rows.flatten.drop transferred, b = 0 := by
  have hlen : rows.flatten.length = rows.length * sz := Contents.length_flatten hrows
  unfold makeTableRead
  rw [hn]
  by_cases hzero : rows = []
  · subst hzero
    simp
  · have hne : ¬ ((rows.length : Int) = 0) := by
      simpa using hzero
    simp only [if_neg hne, if_pos hsize.symm, Int.toNat_natCast, Option.some_inj]
    rw [← take_append_zeros_eq_iff, hlen]
    constructor
    · intro h
      -- the rows of the table, put together again, are its memory
      have hmem := congrArg List.flatten h
      rw [flatten_rowsOf, List.take_of_length_le] at hmem
      · exact hmem
      · rw [List.length_append, List.length_take, List.length_replicate]
        have hle := hread.le_rest
        omega
    · intro h
      rw [h, rowsOf_flatten hrows]

/-- One row of two bytes, the second of which is zero and not transferred. -/
theorem loadsRows_iff_one_row :
    (LogCollecterVector.mk [] [] 2 (some 1)).makeTableRead 2 [[7, 0]].flatten 1 = some [[7, 0]] ↔
      ∀ b ∈ [[(7 : UInt8), 0]].flatten.drop 1, b = 0 :=
  loadsRows_iff ⟨[], [], 2, some 1⟩ 2 [[7, 0]] 1 rfl rfl (by simp) (by decide)

/-- **What lies behind the first `readMax` bytes is never loaded.** -/
theorem zero_of_loadsRows {transferred : Nat} (hn : c.n = some (rows.length : Int)) (hsize : c.rowSize = sz)
    (hrows : ∀ r ∈ rows, r.length = sz)
    (hread : ReadReturns (c.readCount rows.length) rows.flatten.length transferred)
    (h : c.makeTableRead sz rows.flatten transferred = some rows) : ∀ b ∈ rows.flatten.drop readMax, b = 0 := by
  have hle : transferred ≤ readMax := Nat.le_trans hread.le_count (Nat.min_le_right _ _)
  intro b hb
  rw [← Nat.add_sub_cancel' hle, ← List.drop_drop] at hb
  exact (loadsRows_iff c sz rows transferred hn hsize hrows hread).mp h b (List.mem_of_mem_drop hb)

/-- **Not every table is loaded**: `2 ^ 28` rows of eight bytes, of which one `read` leaves out a page. -/
theorem not_loadsRows_large :
    ¬ ∀ (line : Str) (c : LogCollecterVector) (sz : Nat) (rows : List Str) (transferred : Nat),
      LogCollecterVector.new line = some c → c.n = some (rows.length : Int) → c.rowSize = sz →
      (∀ r ∈ rows, r.length = sz) → ReadReturns (c.readCount rows.length) rows.flatten.length transferred →
        c.makeTableRead sz rows.flatten transferred = some rows := by
  intro h
  have hdecodable : (FileWithFormat.make "dio" [8] ["word"]).Decodable :=
    ⟨rfl, by decide, by decide, by decide +kernel, by decide +kernel⟩
  have hline := hdecodable.new_metaLine 268435456 (by decide)
  have hrows : ∀ r ∈ List.replicate 268435456 (List.replicate 8 (1 : UInt8)), r.length = 8 := by
    intro r hr
    rw [List.eq_of_mem_replicate hr]
    rfl
  generalize hall : List.replicate 268435456 (List.replicate 8 (1 : UInt8)) = rows at hrows
  have hcount : rows.length = 268435456 := by rw [← hall, List.length_replicate]
  have hlen : rows.flatten.length = 2147483648 := by rw [Contents.length_flatten hrows, hcount]
  have hread : ReadReturns 2147483648 rows.flatten.length readMax := by
    rw [hlen]
    decide
  have hzero := zero_of_loadsRows (by rw [hcount]) rfl hrows (by rw [hcount]; exact hread)
    (h _ _ 8 rows readMax hline (by rw [hcount]) rfl hrows (by rw [hcount]; exact hread))
  -- the bytes left out are not zero
  have hne : rows.flatten.drop readMax ≠ [] := by
    intro hnil
    have hdrop := List.length_drop (i := readMax) (l := rows.flatten)
    rw [hnil, hlen] at hdrop
    exact absurd hdrop (by decide)
  obtain ⟨b, hb⟩ := List.exists_mem_of_ne_nil _ hne
  obtain ⟨r, hr, hbr⟩ := List.mem_flatten.mp (List.mem_of_mem_drop hb)
  rw [← hall] at hr
  rw [List.eq_of_mem_replicate hr] at hbr
  have hone : b = 1 := List.eq_of_mem_replicate hbr
  rw [hzero b hb] at hone
  exact absurd hone (by decide)

end LogCollecterVector

end StorTrace
