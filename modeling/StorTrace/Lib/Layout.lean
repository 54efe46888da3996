import Mathlib.Data.List.Basic

/-!
# `Lib.Layout` — bytes in memory and on disk

Little-endian machine words, fixed-size `char` arrays, C strings, the size of a C struct, and a file that
is a sequence of fixed-size rows. The laws are the round trips: reading back the words an array was
written as (`wordAt_wordsBytes`), and cutting a file of equal rows into those rows (`rowsOf_flatten`).
-/

/-- A `char[n]` field. -/
structure CharArray (n : Nat) where
  data : List UInt8
  size_eq : data.length = n
deriving DecidableEq

namespace CharArray

/-- All bytes zero, as `memset` leaves them. -/
def zero (n : Nat) : CharArray n := ⟨List.replicate n 0, List.length_replicate⟩

end CharArray

/-- `std::string(p)`: the bytes from `p` up to the first NUL of the memory that follows. -/
def cString (mem : List UInt8) : List UInt8 := mem.takeWhile (· ≠ 0)

/-- A string that ends within `bs` does not depend on what follows. -/
theorem cString_append {bs : List UInt8} (h : 0 ∈ bs) (rest : List UInt8) :
    cString (bs ++ rest) = cString bs := by
  induction bs with
  | nil => exact absurd h (by simp)
  | cons b bs ih =>
      by_cases hb : b = 0
      · simp [cString, hb]
      · have hmem : 0 ∈ bs := (List.mem_cons.mp h).resolve_left (Ne.symm hb)
        have hrest := ih hmem
        simp only [cString] at hrest ⊢
        rw [List.cons_append, List.takeWhile_cons_of_pos (by simpa using hb),
          List.takeWhile_cons_of_pos (by simpa using hb), hrest]

/-- `std::string(p)` on memory that ends somewhere: a read that finds no NUL runs past the end, and is not defined. -/
def stdString (mem : List UInt8) : Option (List UInt8) := if 0 ∈ mem then some (cString mem) else none

theorem stdString_of_mem {mem : List UInt8} (h : 0 ∈ mem) : stdString mem = some (cString mem) := if_pos h

theorem stdString_eq_none_iff {mem : List UInt8} : stdString mem = none ↔ 0 ∉ mem := by simp [stdString]

/-- A string that ends within `bs` is defined, whatever follows. -/
theorem stdString_append {bs : List UInt8} (h : 0 ∈ bs) (rest : List UInt8) :
    stdString (bs ++ rest) = some (cString bs) := by
  rw [stdString_of_mem (List.mem_append_left rest h), cString_append h]

/-! ## Machine words -/

/-- The eight bytes of a `u64`, low byte first. -/
def u64Bytes (w : UInt64) : List UInt8 :=
  [0x1, 0x100, 0x10000, 0x1000000, 0x100000000, 0x10000000000, 0x1000000000000, 0x100000000000000].map
    (fun i => UInt8.ofNat (w.toNat / i))

/-- The `u64` stored in bytes, low byte first. -/
def u64OfBytes (bs : List UInt8) : UInt64 :=
  UInt64.ofNat (bs.foldr (fun b acc => b.toNat + 256 * acc) 0)

@[simp] theorem length_u64Bytes (w : UInt64) : (u64Bytes w).length = 8 := rfl

/-- Reading back the bytes of a word. -/
theorem u64OfBytes_u64Bytes (w : UInt64) : u64OfBytes (u64Bytes w) = w := by
  have hw := w.toNat_lt
  apply UInt64.toNat_inj.mp
  simp only [u64OfBytes, u64Bytes, List.map_cons, List.map_nil, List.foldr_cons, List.foldr_nil,
    UInt64.toNat_ofNat', UInt8.toNat_ofNat']
  omega

/-- Storing the word read from eight bytes. -/
theorem u64Bytes_u64OfBytes {bs : List UInt8} (h : bs.length = 8) : u64Bytes (u64OfBytes bs) = bs := by
  match bs, h with
  | [b₀, b₁, b₂, b₃, b₄, b₅, b₆, b₇], _ =>
      have h₀ := b₀.toNat_lt
      have h₁ := b₁.toNat_lt
      have h₂ := b₂.toNat_lt
      have h₃ := b₃.toNat_lt
      have h₄ := b₄.toNat_lt
      have h₅ := b₅.toNat_lt
      have h₆ := b₆.toNat_lt
      have h₇ := b₇.toNat_lt
      simp only [u64OfBytes, u64Bytes, List.map_cons, List.map_nil, List.foldr_cons, List.foldr_nil,
        UInt64.toNat_ofNat', List.cons.injEq, ← UInt8.toNat_inj, UInt8.toNat_ofNat', and_true]
      omega

/-- The memory image of an array of words. -/
def wordsBytes (ws : List UInt64) : List UInt8 := ws.flatMap u64Bytes

/-- Word `k` of a memory image. -/
def wordAt (bs : List UInt8) (k : Nat) : UInt64 := u64OfBytes ((bs.drop (8 * k)).take 8)

theorem length_wordsBytes (ws : List UInt64) : (wordsBytes ws).length = 8 * ws.length := by
  induction ws with
  | nil => rfl
  | cons w rest ih =>
      rw [wordsBytes, List.flatMap_cons, List.length_append, length_u64Bytes]
      rw [show rest.flatMap u64Bytes = wordsBytes rest from rfl, ih, List.length_cons]
      omega

/-- Dropping whole words from a memory image drops them from the array. -/
theorem drop_wordsBytes (ws : List UInt64) (k : Nat) :
    (wordsBytes ws).drop (8 * k) = wordsBytes (ws.drop k) := by
  induction k generalizing ws with
  | zero => simp
  | succ k ih =>
      cases ws with
      | nil => simp [wordsBytes]
      | cons w rest =>
          rw [List.drop_succ_cons, ← ih rest, show 8 * (k + 1) = 8 + 8 * k by omega,
            ← List.drop_drop, wordsBytes, List.flatMap_cons,
            List.drop_left' (length_u64Bytes w)]
          rfl

/-- **Reading back word `k` of an array of words.** -/
theorem wordAt_wordsBytes (ws : List UInt64) (k : Nat) (h : k < ws.length) :
    wordAt (wordsBytes ws) k = ws[k] := by
  rw [wordAt, drop_wordsBytes, List.drop_eq_getElem_cons h, wordsBytes, List.flatMap_cons,
    List.take_left' (length_u64Bytes _), u64OfBytes_u64Bytes]

/-! ## C structs -/

/-- The next multiple of `a` from `n` on. -/
def roundUp (n a : Nat) : Nat := (n + a - 1) / a * a

/-- `sizeof` a struct whose fields have the given sizes and alignments. -/
def structSize (fields : List (Nat × Nat)) : Nat :=
  roundUp (fields.foldl (fun off f => roundUp off f.2 + f.1) 0)
    (fields.foldl (fun a f => max a f.2) 1)

/-! ## Files of fixed-size rows -/

/-- Row `k` of a file of rows of `sz` bytes. -/
def rowAt (sz : Nat) (file : List UInt8) (k : Nat) : List UInt8 := (file.drop (k * sz)).take sz

/-- The first `n` rows of a file of rows of `sz` bytes. -/
def rowsOf (sz n : Nat) (file : List UInt8) : List (List UInt8) :=
  (List.range n).map (rowAt sz file)

/-- Skipping `k` equal rows of a file. -/
theorem drop_flatten {sz : Nat} {rows : List (List UInt8)} (h : ∀ r ∈ rows, r.length = sz) (k : Nat) :
    rows.flatten.drop (k * sz) = (rows.drop k).flatten := by
  induction k generalizing rows with
  | zero => simp
  | succ k ih =>
      cases rows with
      | nil => simp
      | cons r rest =>
          have hr : r.length = sz := h r (by simp)
          have hrest : ∀ q ∈ rest, q.length = sz := by
            intro q hq
            exact h q (by simp [hq])
          rw [List.drop_succ_cons, ← ih hrest, show (k + 1) * sz = sz + k * sz by rw [Nat.succ_mul, Nat.add_comm],
            ← List.drop_drop, List.flatten_cons, List.drop_left' hr]

/-- **A file that is the concatenation of rows of one size is cut back into those rows.** -/
theorem rowsOf_flatten {sz : Nat} {rows : List (List UInt8)} (h : ∀ r ∈ rows, r.length = sz) :
    rowsOf sz rows.length rows.flatten = rows := by
  apply List.ext_getElem
  · simp [rowsOf]
  · intro k hk hk'
    have hmem : rows[k] ∈ rows := List.getElem_mem hk'
    simp only [rowsOf, List.getElem_map, List.getElem_range, rowAt]
    rw [drop_flatten h, List.drop_eq_getElem_cons hk', List.flatten_cons,
      List.take_left' (h _ hmem)]

/-- The rows of a file, put together again. -/
theorem flatten_rowsOf (sz n : Nat) (file : List UInt8) : (rowsOf sz n file).flatten = file.take (n * sz) := by
  induction n with
  | zero => simp [rowsOf]
  | succ n ih =>
      rw [rowsOf] at ih ⊢
      rw [List.range_succ, List.map_append, List.flatten_append, ih, List.map_singleton, List.flatten_singleton, rowAt,
        Nat.succ_mul, List.take_add]
