import Mathlib.Data.Nat.Digits.Lemmas
import StorTrace.Collector.Heatmap
import StorTrace.Logger.Format

/-!
# `Logger.Meta` — the text of `log_meta`

`__flush_all` writes one line for each registered log: its name, its columns (`fwf_tostring`) and the number of
records committed to it.
-/

namespace StorTrace

/-- The bytes of a string. -/
def strBytes (s : String) : Str := s.toList.flatMap String.utf8EncodeChar

namespace Meta

/-- `' '`, `'\n'`, `'|'` and `'-'`. -/
def space : UInt8 := 32
def newline : UInt8 := 10
def bar : UInt8 := 124
def dash : UInt8 := 45

/-- `'0' + d`. -/
def digit (d : Nat) : UInt8 := UInt8.ofNat (48 + d)

/-- `std::to_string` of a number that is not negative. -/
def stdToString (n : Nat) : Str :=
  if n = 0 then [digit 0] else ((Nat.digits 10 n).map digit).reverse

/-- `std::to_string` of an `int`. -/
def intToString (n : Int) : Str := if n < 0 then dash :: stdToString n.natAbs else stdToString n.natAbs

/-- `type_names[i] + "--" + std::to_string(elems_size[i])`. -/
def column (name : String) (size : Nat) : Str := strBytes name ++ [dash, dash] ++ stdToString size

/-- The columns of a format: a size for each name. -/
def columns (fwf : FileWithFormat) : List Str := List.zipWith column fwf.typeNames fwf.elemsSize

/-- `fwf_tostring`: a `|` after each column. -/
def fwfToString (fwf : FileWithFormat) : Str := (columns fwf).flatMap (· ++ [bar])

/-- The line of a log, without its newline. -/
def metaLine (fwf : FileWithFormat) (count : Nat) : Str :=
  strBytes fwf.fileName ++ [space] ++ fwfToString fwf ++ [space] ++ stdToString count

/-- `log_data`. -/
def logData (fileFormat : List FileWithFormat) (fileCommitCount : Nat → Nat) : Str :=
  fileFormat.zipIdx.flatMap (fun f => metaLine f.1 (fileCommitCount f.2) ++ [newline])

end Meta

end StorTrace
