import StorTrace.Lib.Layout

/-!
# `Logger.Format` — log formats and the records committed to them

The part of `logger.hpp` the tracer modules use when they write a row: the registered formats, the file
index of a name, and the arguments of one `Logger::commit` call.
-/

namespace StorTrace

/-- `struct file_with_format`. -/
structure FileWithFormat where
  fileName : String
  elemsSize : List Nat
  typeNames : List String
  rowSize : Nat

/-- A format as the modules build it: `row_size` is accumulated from the column sizes. -/
def FileWithFormat.make (fileName : String) (elemsSize : List Nat) (typeNames : List String) :
    FileWithFormat :=
  ⟨fileName, elemsSize, typeNames, elemsSize.foldl (· + ·) 0⟩

/-- `fd_map[name]` after `__register_to_io_uring`: the position of the last format registered under that
    name (a name never registered is inserted by the lookup with `0`). -/
def fdMap (formats : List FileWithFormat) (name : String) : Nat :=
  ((formats.zipIdx.filter (fun f => f.1.fileName = name)).getLast?.map Prod.snd).getD 0

/-- `file_format[fd_map[name]].row_size`. -/
def rowSizeOf (formats : List FileWithFormat) (name : String) : Nat :=
  (formats[fdMap formats name]?.map FileWithFormat.rowSize).getD 0

/-- One call `logger->commit(f_name, rec, length)`, with the `length` bytes it copies. -/
structure CommitCall where
  fName : String
  row : List UInt8
deriving DecidableEq

/-- The call that commits the array `eventData` to the log `name`. -/
def commitWords (formats : List FileWithFormat) (name : String) (eventData : List UInt64) :
    CommitCall :=
  ⟨name, (wordsBytes eventData).take (rowSizeOf formats name)⟩

/-- An array of the size of the row is committed whole. -/
theorem commitWords_row {formats : List FileWithFormat} {name : String} {eventData : List UInt64}
    (h : 8 * eventData.length = rowSizeOf formats name) :
    (commitWords formats name eventData).row = wordsBytes eventData := by
  rw [commitWords, ← h, ← length_wordsBytes, List.take_length]

/-- How a `do_event` ends when it does not commit a row: the record is dropped, or the program aborts. -/
inductive EarlyExit where
  | dropped
  | fatal (msg : String)
deriving DecidableEq

/-- A `do_event` that gets to its end got through each of its parts. -/
theorem bind_eq_ok {ε α β : Type} {x : Except ε α} {f : α → Except ε β} {b : β} :
    x >>= f = .ok b ↔ ∃ a, x = .ok a ∧ f a = .ok b := by
  cases x with
  | error o => simp [bind, Except.bind]
  | ok a => simp [bind, Except.bind]

/-- The row a `do_event` commits, if it does. -/
def committedRow (outcome : Except EarlyExit CommitCall) : Option (List UInt8) :=
  match outcome with
  | .ok call => some call.row
  | .error _ => none

end StorTrace
