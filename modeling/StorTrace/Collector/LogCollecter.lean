import Mathlib.Algebra.Order.BigOperators.Group.List
import Mathlib.Data.List.ReduceOption
import StorTrace.Lib.Assembly
import StorTrace.Lib.Text
import StorTrace.Logger.Meta

/-!
# `Collector.LogCollecter` — reading a log back (`LogCollecterVector`, the `log_meta` loop of `main`)

`main` reads `log_meta` line by line and hands each line to a `LogCollecterVector`, which splits it into the
name, the columns and the number of rows, and reads the rows from the log's file. An index past the end of
the split line is undefined behaviour: the constructor has no result there.
-/

namespace StorTrace

open Meta

/-! ## The text functions in use -/

/-- `absl::StrSplit(text, ch)`. -/
def strSplit (ch : UInt8) (text : Str) : List Str := text.splitOn ch

/-- `absl::StrSplit(text, "--")`. -/
def strSplitDashes : Str → List Str
  | [] => [[]]
  | [c] => [[c]]
  | c :: d :: rest =>
      if c = dash ∧ d = dash then [] :: strSplitDashes rest
      else (strSplitDashes (d :: rest)).modifyHead (c :: ·)

/-- `absl::StripSuffix(text, ch)`, for a suffix of one character. -/
def stripSuffix (ch : UInt8) (text : Str) : Str :=
  if text.getLast? = some ch then text.dropLast else text

/-- `std::getline` until it fails: what follows the last newline is a line only if it is not empty. -/
def getlines (text : Str) : List Str :=
  let lines := text.splitOn newline
  if lines.getLast? = some [] then lines.dropLast else lines

/-- `absl::ascii_isspace`. -/
def isSpace (c : UInt8) : Bool := c = space ∨ (9 ≤ c ∧ c ≤ 13)

/-- `absl::ascii_isdigit`. -/
def isDigit (c : UInt8) : Bool := 48 ≤ c ∧ c ≤ 57

/-- `absl::StripAsciiWhitespace`. -/
def stripAscii (text : Str) : Str := ((text.dropWhile isSpace).reverse.dropWhile isSpace).reverse

/-- `absl::SimpleAtoi` into an integer type with the given bounds: white space around the number, a sign (for
    an unsigned type not `-`) and at least one digit. -/
def simpleAtoi (min max : Int) (text : Str) : Option Int :=
  let t := stripAscii text
  let negative := t.head? = some dash
  let digits := if negative ∨ t.head? = some 43 then t.tail else t
  if digits = [] ∨ digits.all isDigit = false ∨ (negative ∧ min = 0) then none
  else
    let value : Int := Text.horner (digits.map (fun c => c.toNat - 48))
    let signed := if negative then -value else value
    if min ≤ signed ∧ signed ≤ max then some signed else none

/-- `SimpleAtoi` into an `int`. -/
def simpleAtoiInt : Str → Option Int := simpleAtoi (-0x80000000) 0x7fffffff

/-- `SimpleAtoi` into a `size_t`. -/
def simpleAtoiSize : Str → Option Int := simpleAtoi 0 0xffffffffffffffff

/-! ## `LogCollecterVector` -/

/-- `class LogCollecterVector`: `n` has no value if its text is no number. -/
structure LogCollecterVector where
  logName : Str
  dataFormat : List (Str × UInt32)
  rowSize : Int
  n : Option Int
deriving DecidableEq

namespace LogCollecterVector

/-- A column, if its size is a number; a column with no `--` has no size to look at. -/
def column (type : Str) : Option (Option (Str × Int)) :=
  match strSplitDashes type with
  | name :: size :: _ => some ((simpleAtoiInt size).map (fun size => (name, size)))
  | _ => none

/-- The constructor. -/
def new (line : Str) : Option LogCollecterVector :=
  match strSplit space line with
  | name :: columns :: count :: _ =>
      ((strSplit bar (stripSuffix bar columns)).mapM column).map (fun types =>
        { logName := name
          dataFormat := types.reduceOption.map (fun type => (type.1, UInt32.ofInt type.2))
          rowSize := (types.reduceOption.map Prod.snd).sum
          n := simpleAtoiSize count })
  | _ => none

/-- `make_table`, on the contents of the log's file: `n` rows, zeroed, then overwritten by what `read` finds. -/
def makeTable (c : LogCollecterVector) (sizeofT : Nat) (content : Str) : Option (List Str) :=
  match c.n with
  | none => none
  | some n =>
      if n = 0 then some []
      else if (sizeofT : Int) = c.rowSize then
        let bytes := n.toNat * sizeofT
        some (rowsOf sizeofT n.toNat (content.take bytes ++ List.replicate (bytes - content.length) 0))
      else none

end LogCollecterVector

/-- The loop of `main` over `log_meta`: each line under its first field. -/
def logMap (text : Str) : List (Str × Str) :=
  (getlines text).map (fun line => ((strSplit space line).headD [], line))

/-! ## The text functions invert what the logger writes -/

theorem isDigit_digit {d : Nat} (h : d < 10) : isDigit (digit d) = true := by
  interval_cases d <;> decide

theorem toNat_digit {d : Nat} (h : d < 10) : (digit d).toNat = 48 + d := by
  rw [digit, UInt8.toNat_ofNat']
  omega

theorem isSpace_of_isDigit {c : UInt8} (h : isDigit c = true) : isSpace c = false := by
  simp only [isDigit, isSpace, space, decide_eq_true_eq, decide_eq_false_iff_not, UInt8.le_iff_toNat_le,
    ← UInt8.toNat_inj] at h ⊢
  simp only [UInt8.reduceToNat] at h ⊢
  omega

/-- What is printed are the decimal digits. -/
theorem stdToString_eq (n : Nat) :
    ∃ ds, stdToString n = ds.map digit ∧ ds ≠ [] ∧ (∀ d ∈ ds, d < 10) ∧ Text.horner ds = n := by
  unfold stdToString
  by_cases h : n = 0
  · subst h
    exact ⟨[0], rfl, by simp, by simp, rfl⟩
  · refine ⟨(Nat.digits 10 n).reverse, ?_, ?_, ?_, Text.horner_digits n⟩
    · rw [if_neg h, List.map_reverse]
    · simpa using Nat.digits_ne_nil_iff_ne_zero.mpr h
    · intro d hd
      exact Nat.digits_lt_base (by decide) (List.mem_reverse.mp hd)

theorem isDigit_of_mem_stdToString {n : Nat} {c : UInt8} (h : c ∈ stdToString n) : isDigit c = true := by
  obtain ⟨ds, heq, -, hlt, -⟩ := stdToString_eq n
  rw [heq] at h
  obtain ⟨d, hd, rfl⟩ := List.mem_map.mp h
  exact isDigit_digit (hlt d hd)

/-- A separator is no digit. -/
theorem notMem_stdToString {c : UInt8} (h : isDigit c = false) (n : Nat) : c ∉ stdToString n := by
  intro hc
  rw [isDigit_of_mem_stdToString hc] at h
  exact absurd h (by decide)

theorem dropWhile_of_forall {α : Type} {p : α → Bool} {xs : List α} (h : ∀ x ∈ xs, p x = false) :
    xs.dropWhile p = xs := by
  cases xs with
  | nil => rfl
  | cons x rest => exact List.dropWhile_cons_of_neg (by simp [h x])

theorem stripAscii_of_digits {text : Str} (h : ∀ c ∈ text, isDigit c = true) : stripAscii text = text := by
  have hspace : ∀ c ∈ text, isSpace c = false := by
    intro c hc
    exact isSpace_of_isDigit (h c hc)
  have hrev : ∀ c ∈ text.reverse, isSpace c = false := by
    intro c hc
    exact hspace c (List.mem_reverse.mp hc)
  rw [stripAscii, dropWhile_of_forall hspace, dropWhile_of_forall hrev, List.reverse_reverse]

/-- The value of the printed digits. -/
theorem horner_stdToString (n : Nat) : Text.horner ((stdToString n).map (fun c => c.toNat - 48)) = n := by
  obtain ⟨ds, heq, -, hlt, hval⟩ := stdToString_eq n
  have hmap : ds.map ((fun c : UInt8 => c.toNat - 48) ∘ digit) = ds := by
    conv_rhs => rw [← List.map_id ds]
    apply List.map_congr_left
    intro d hd
    simp only [Function.comp_apply, toNat_digit (hlt d hd), id_eq]
    omega
  rw [heq, List.map_map, hmap, hval]

theorem stdToString_ne_nil (n : Nat) : stdToString n ≠ [] := by
  obtain ⟨ds, heq, hne, -, -⟩ := stdToString_eq n
  simpa [heq] using hne

/-- **A number within the bounds is read back.** -/
theorem simpleAtoi_stdToString {min max : Int} {n : Nat} (hmin : min ≤ n) (hmax : (n : Int) ≤ max) :
    simpleAtoi min max (stdToString n) = some n := by
  have hdigits : ∀ c ∈ stdToString n, isDigit c = true := fun c hc => isDigit_of_mem_stdToString hc
  have hhead : ∀ {c : UInt8}, isDigit c = false → (stdToString n).head? ≠ some c := by
    intro c hc hh
    exact notMem_stdToString hc n (List.mem_of_mem_head? hh)
  have hnil := stdToString_ne_nil n
  have hvalue := horner_stdToString n
  have hdash : (stdToString n).head? ≠ some dash := hhead (by decide)
  have hplus : (stdToString n).head? ≠ some 43 := hhead (by decide)
  have hall : (stdToString n).all isDigit = true := List.all_eq_true.mpr hdigits
  unfold simpleAtoi
  simp only [stripAscii_of_digits hdigits, hdash, hplus, or_self, if_false, hnil, hall, hvalue]
  simp [hmin, hmax]

theorem strSplitDashes_cons {c : UInt8} (h : c ≠ dash) (text : Str) :
    strSplitDashes (c :: text) = (strSplitDashes text).modifyHead (c :: ·) := by
  cases text with
  | nil => rfl
  | cons d rest => rw [strSplitDashes, if_neg (by simp [h])]

theorem strSplitDashes_of_notMem {text : Str} (h : dash ∉ text) : strSplitDashes text = [text] := by
  induction text with
  | nil => rfl
  | cons c rest ih =>
      obtain ⟨hc, hrest⟩ : dash ≠ c ∧ dash ∉ rest := by simpa using h
      rw [strSplitDashes_cons (Ne.symm hc), ih hrest]
      rfl

/-- A text before which no `--` ends: it has none, and a `-` at its end would make one. -/
def Undashed (text : Str) : Prop := ¬ [dash, dash] <:+: text ∧ text.getLast? ≠ some dash

instance (text : Str) : Decidable (Undashed text) := inferInstanceAs (Decidable (_ ∧ _))

theorem undashed_of_notMem {text : Str} (h : dash ∉ text) : Undashed text :=
  ⟨fun hin => h (hin.subset List.mem_cons_self), fun hlast => h (List.mem_of_getLast? hlast)⟩

theorem Undashed.of_cons {c : UInt8} {text : Str} (h : Undashed (c :: text)) : Undashed text := by
  refine ⟨fun hin => h.1 (List.infix_cons hin), ?_⟩
  cases text with
  | nil => simp
  | cons d rest => exact h.2

/-- **The two sides of `--`.** -/
theorem strSplitDashes_append {a b : Str} (ha : Undashed a) (hb : dash ∉ b) :
    strSplitDashes (a ++ [dash, dash] ++ b) = [a, b] := by
  induction a with
  | nil =>
      rw [List.nil_append, List.cons_append, List.singleton_append, strSplitDashes, if_pos ⟨rfl, rfl⟩,
        strSplitDashes_of_notMem hb]
  | cons c rest ih =>
      have hstep : strSplitDashes (c :: (rest ++ [dash, dash] ++ b)) =
          (strSplitDashes (rest ++ [dash, dash] ++ b)).modifyHead (c :: ·) := by
        cases rest with
        | nil => exact strSplitDashes_cons (by simpa using ha.2) _
        | cons d rest =>
            have hpair : ¬ (c = dash ∧ d = dash) := by
              rintro ⟨rfl, rfl⟩
              exact ha.1 (List.IsPrefix.isInfix ⟨rest, rfl⟩)
            show strSplitDashes (c :: d :: (rest ++ [dash, dash] ++ b)) = _
            rw [strSplitDashes, if_neg hpair]
            rfl
      rw [List.cons_append, List.cons_append, hstep, ih ha.of_cons]
      rfl

theorem stripSuffix_concat (ch : UInt8) (text : Str) : stripSuffix ch (text ++ [ch]) = text := by
  simp [stripSuffix]

/-- Lines that are each ended by a newline are read back. -/
theorem getlines_terminated {lines : List Str} (h : ∀ l ∈ lines, newline ∉ l) :
    getlines (Text.terminated newline lines) = lines := by
  simp [getlines, Text.splitOn_terminated newline h]

/-! ## A line of `log_meta` is read back -/

/-- **A registered format** (`register_log_from_fwf`): a size for each column, the row size their sum, and no
    separator in a name. -/
structure FileWithFormat.Registered (fwf : FileWithFormat) : Prop where
  sizes : fwf.elemsSize.length = fwf.typeNames.length
  columns : fwf.typeNames ≠ []
  rowSize : fwf.rowSize = fwf.elemsSize.foldl (· + ·) 0
  fits : fwf.rowSize < 0x80000000
  plain : ∀ name ∈ fwf.fileName :: fwf.typeNames, ∀ c ∈ [space, newline, bar, dash], c ∉ strBytes name

theorem column_column {name : String} {size : Nat} (hname : Undashed (strBytes name))
    (hsize : size < 0x80000000) :
    LogCollecterVector.column (Meta.column name size) = some (some (strBytes name, (size : Int))) := by
  have hatoi : simpleAtoiInt (stdToString size) = some (size : Int) := by
    apply simpleAtoi_stdToString
    · omega
    · omega
  rw [LogCollecterVector.column, Meta.column,
    strSplitDashes_append hname (notMem_stdToString (by decide) size)]
  simp [hatoi]

/-- A separator other than `-` that is in neither name nor number is not in a column. -/
theorem notMem_column {c : UInt8} {name : String} {size : Nat} (hname : c ∉ strBytes name)
    (hdigit : isDigit c = false) (hdash : c ≠ dash) : c ∉ Meta.column name size := by
  simp [Meta.column, hname, hdash, notMem_stdToString hdigit size]

/-- Nor in any column, if it is in no name. -/
theorem notMem_columns {c : UInt8} {fwf : FileWithFormat} (hdigit : isDigit c = false) (hdash : c ≠ dash)
    (hnames : ∀ name ∈ fwf.typeNames, c ∉ strBytes name) : ∀ col ∈ Meta.columns fwf, c ∉ col := by
  intro col hcol
  rw [Meta.columns, ← List.map_uncurry_zip_eq_zipWith] at hcol
  obtain ⟨⟨name, size⟩, hzip, rfl⟩ := List.mem_map.mp hcol
  exact notMem_column (hnames name (List.of_mem_zip hzip).1) hdigit hdash

/-- Nor in all of them, if it is not the `|` after each. -/
theorem notMem_fwfToString {c : UInt8} {fwf : FileWithFormat} (hsep : isDigit c = false ∧ c ≠ dash ∧ c ≠ bar)
    (hnames : ∀ name ∈ fwf.typeNames, c ∉ strBytes name) : c ∉ Meta.fwfToString fwf := by
  intro hmem
  obtain ⟨col, hcol, hin⟩ := List.mem_flatMap.mp hmem
  rcases List.mem_append.mp hin with hin | hin
  · exact notMem_columns hsep.1 hsep.2.1 hnames col hcol hin
  · exact hsep.2.2 (List.mem_singleton.mp hin)

/-- The columns read back: the names with their sizes. -/
def readColumns (names : List String) (sizes : List Nat) : List (Str × Int) :=
  List.zipWith (fun name (size : Nat) => (strBytes name, (size : Int))) names sizes

theorem mapM_column {names : List String} {sizes : List Nat} (hnames : ∀ name ∈ names, Undashed (strBytes name))
    (hsizes : ∀ size ∈ sizes, size < 0x80000000) :
    (List.zipWith Meta.column names sizes).mapM LogCollecterVector.column =
      some ((readColumns names sizes).map some) := by
  induction names generalizing sizes with
  | nil => rfl
  | cons name names ih =>
      cases sizes with
      | nil => rfl
      | cons size sizes =>
          have hhead := column_column (hnames name (by simp)) (hsizes size (by simp))
          have hrest := ih (fun n hn => hnames n (List.mem_cons_of_mem _ hn))
            (fun m hm => hsizes m (List.mem_cons_of_mem size hm))
          rw [List.zipWith_cons_cons, List.mapM_cons, hhead, hrest]
          rfl

/-- The sizes of the columns add up to the sum of the sizes. -/
theorem sum_readColumns {names : List String} {sizes : List Nat} (h : sizes.length = names.length) :
    ((readColumns names sizes).map Prod.snd).sum = (sizes.sum : Nat) := by
  induction names generalizing sizes with
  | nil =>
      obtain rfl : sizes = [] := by simpa using h
      rfl
  | cons name names ih =>
      cases sizes with
      | nil => simp at h
      | cons size sizes =>
          have hlen : sizes.length = names.length := by simpa using h
          have hrest := ih hlen
          unfold readColumns at hrest ⊢
          rw [List.zipWith_cons_cons, List.map_cons, List.sum_cons, hrest, List.sum_cons]
          push_cast
          rfl

/-- **A format whose line can be decoded**: sizes that add up to an `int`, and no separator in a name. -/
structure FileWithFormat.Decodable (fwf : FileWithFormat) : Prop where
  sizes : fwf.elemsSize.length = fwf.typeNames.length
  columns : fwf.typeNames ≠ []
  fits : fwf.elemsSize.sum < 0x80000000
  fileName : space ∉ strBytes fwf.fileName
  names : ∀ name ∈ fwf.typeNames, space ∉ strBytes name ∧ bar ∉ strBytes name ∧ Undashed (strBytes name)

theorem FileWithFormat.Registered.decodable {fwf : FileWithFormat} (h : fwf.Registered) : fwf.Decodable where
  sizes := h.sizes
  columns := h.columns
  fits := by rw [List.sum_eq_foldl_nat, ← h.rowSize]; exact h.fits
  fileName := h.plain _ List.mem_cons_self space (by simp)
  names name hname :=
    have hplain := h.plain name (List.mem_cons_of_mem _ hname)
    ⟨hplain space (by simp), hplain bar (by simp), undashed_of_notMem (hplain dash (by simp))⟩

section Line

variable {fwf : FileWithFormat} (h : fwf.Decodable)

include h

theorem FileWithFormat.Decodable.size_lt {size : Nat} (hsize : size ∈ fwf.elemsSize) : size < 0x80000000 :=
  Nat.lt_of_le_of_lt (List.le_sum_of_mem hsize) h.fits

theorem FileWithFormat.Decodable.columns_ne_nil : Meta.columns fwf ≠ [] := by
  intro hnil
  have hlen := congrArg List.length hnil
  rw [Meta.columns, List.length_zipWith, h.sizes, Nat.min_self, List.length_nil, List.length_eq_zero_iff] at hlen
  exact h.columns hlen

theorem FileWithFormat.Decodable.space_notMem_fwfToString : space ∉ Meta.fwfToString fwf :=
  notMem_fwfToString (by decide) (fun name hname => (h.names name hname).1)

/-- The fields of a line. -/
theorem FileWithFormat.Decodable.strSplit_metaLine (count : Nat) :
    strSplit space (metaLine fwf count) =
      [strBytes fwf.fileName, Meta.fwfToString fwf, stdToString count] := by
  have hline : metaLine fwf count =
      [space].intercalate [strBytes fwf.fileName, Meta.fwfToString fwf, stdToString count] := by
    simp [metaLine]
  rw [strSplit, hline]
  apply List.splitOn_intercalate
  · intro field hfield
    simp only [List.mem_cons, List.not_mem_nil, or_false] at hfield
    rcases hfield with rfl | rfl | rfl
    · exact h.fileName
    · exact h.space_notMem_fwfToString
    · exact notMem_stdToString (by decide) count
  · simp

/-- The columns of a line. -/
theorem FileWithFormat.Decodable.strSplit_columns :
    strSplit bar (stripSuffix bar (Meta.fwfToString fwf)) = Meta.columns fwf := by
  have hterm : Meta.fwfToString fwf = [bar].intercalate (Meta.columns fwf) ++ [bar] :=
    Text.terminated_eq_concat bar h.columns_ne_nil
  rw [hterm, stripSuffix_concat, strSplit]
  refine List.splitOn_intercalate bar ?_ h.columns_ne_nil
  exact notMem_columns (by decide) (by decide) (fun name hname => (h.names name hname).2.1)

/-- **The line of a log is read back**: its name, its columns, the sum of their sizes and its count. -/
theorem FileWithFormat.Decodable.new_metaLine (count : Nat) (hcount : count ≤ 0xffffffffffffffff) :
    LogCollecterVector.new (metaLine fwf count) = some
      { logName := strBytes fwf.fileName
        dataFormat := (readColumns fwf.typeNames fwf.elemsSize).map (fun type => (type.1, UInt32.ofInt type.2))
        rowSize := (fwf.elemsSize.sum : Nat)
        n := some (count : Int) } := by
  have htypes : (Meta.columns fwf).mapM LogCollecterVector.column =
      some ((readColumns fwf.typeNames fwf.elemsSize).map some) :=
    mapM_column (fun name hname => (h.names name hname).2.2) (fun size hsize => h.size_lt hsize)
  have hatoi : simpleAtoiSize (stdToString count) = some (count : Int) := by
    apply simpleAtoi_stdToString
    · omega
    · omega
  have hreduce : ((readColumns fwf.typeNames fwf.elemsSize).map some).reduceOption =
      readColumns fwf.typeNames fwf.elemsSize := by
    rw [List.reduceOption, List.filterMap_map]
    exact List.filterMap_some
  rw [LogCollecterVector.new, h.strSplit_metaLine]
  simp only [h.strSplit_columns, htypes, hatoi, Option.map_some, hreduce, sum_readColumns h.sizes]

end Line

/-- A size keeps its value as an `unsigned int`. -/
theorem uint32_ofInt_natCast (n : Nat) : UInt32.ofInt (n : Int) = UInt32.ofNat n := by
  apply UInt32.toNat_inj.mp
  rw [UInt32.ofInt, UInt32.toNat_ofNat', UInt32.toNat_ofNat']
  omega

/-- **A line of `log_meta` decodes to the format that produced it**, with the row size the writer uses. -/
theorem new_metaLine_decodes (fwf : FileWithFormat) (count : Nat) (h : fwf.Decodable)
    (hcount : count ≤ 0xffffffffffffffff) :
    ∃ c, LogCollecterVector.new (metaLine fwf count) = some c ∧ c.logName = strBytes fwf.fileName ∧
      c.dataFormat = List.zipWith (fun name size => (strBytes name, UInt32.ofNat size)) fwf.typeNames fwf.elemsSize ∧
      c.rowSize = (fwf.elemsSize.sum : Nat) ∧
      c.rowSize = (FileWithFormat.make fwf.fileName fwf.elemsSize fwf.typeNames).rowSize ∧ c.n = some (count : Int) := by
  refine ⟨_, h.new_metaLine count hcount, rfl, ?_, rfl, ?_, rfl⟩
  · show (readColumns fwf.typeNames fwf.elemsSize).map (fun type => (type.1, UInt32.ofInt type.2)) = _
    rw [readColumns, List.map_zipWith]
    simp only [uint32_ofInt_natCast]
  · show ((fwf.elemsSize.sum : Nat) : Int) = (fwf.elemsSize.foldl (· + ·) 0 : Nat)
    rw [List.sum_eq_foldl_nat]

/-- Two columns, of which one has a `-` in its name. -/
theorem new_metaLine_decodes_two_columns :
    ∃ c, LogCollecterVector.new (metaLine ⟨"dio", [8, 16], ["pid-tgid", "comm"], 24⟩ 3) = some c ∧
      c.logName = strBytes "dio" ∧ c.dataFormat = [(strBytes "pid-tgid", 8), (strBytes "comm", 16)] ∧
      c.rowSize = (24 : Nat) ∧ c.rowSize = (FileWithFormat.make "dio" [8, 16] ["pid-tgid", "comm"]).rowSize ∧
      c.n = some (3 : Nat) := by
  refine new_metaLine_decodes ⟨"dio", [8, 16], ["pid-tgid", "comm"], 24⟩ 3 ?_ (by decide)
  exact ⟨rfl, by decide, by decide, by decide +kernel, by decide +kernel⟩

theorem FileWithFormat.Registered.newline_notMem_metaLine {fwf : FileWithFormat} (h : fwf.Registered) (count : Nat) :
    newline ∉ metaLine fwf count := by
  have hname : newline ∉ strBytes fwf.fileName := h.plain _ List.mem_cons_self newline (by simp)
  have hcols : newline ∉ Meta.fwfToString fwf :=
    notMem_fwfToString (by decide) (fun name hn => h.plain name (List.mem_cons_of_mem _ hn) newline (by simp))
  have hnum : newline ∉ stdToString count := notMem_stdToString (by decide) count
  have hspace : newline ≠ space := by decide
  simp [metaLine, hname, hcols, hnum, hspace]

/-- **The text of `log_meta` is read back**: a line for each log, in order, each under the log's name. -/
theorem getlines_logData {fileFormat : List FileWithFormat} (h : ∀ fwf ∈ fileFormat, fwf.Registered)
    (counts : Nat → Nat) :
    getlines (logData fileFormat counts) =
      fileFormat.zipIdx.map (fun f => metaLine f.1 (counts f.2)) := by
  have hterm : logData fileFormat counts =
      Text.terminated newline (fileFormat.zipIdx.map (fun f => metaLine f.1 (counts f.2))) := by
    rw [logData, Text.terminated, List.flatMap_map]
  rw [hterm]
  apply getlines_terminated
  intro line hline
  obtain ⟨⟨fwf, index⟩, hmem, rfl⟩ := List.mem_map.mp hline
  have hfwf : fwf ∈ fileFormat := List.mem_of_getElem? (List.mem_zipIdx_iff_getElem?.mp hmem)
  exact (h fwf hfwf).newline_notMem_metaLine _

theorem getElem?_logMap {fileFormat : List FileWithFormat} (h : ∀ fwf ∈ fileFormat, fwf.Registered)
    (counts : Nat → Nat) {index : Nat} {fwf : FileWithFormat} (hfwf : fileFormat[index]? = some fwf) :
    (logMap (logData fileFormat counts))[index]? =
      some (strBytes fwf.fileName, metaLine fwf (counts index)) := by
  have hreg : fwf.Registered := h fwf (List.mem_of_getElem? hfwf)
  rw [logMap, getlines_logData h, List.map_map, List.getElem?_map, List.getElem?_zipIdx, hfwf]
  simp [hreg.decodable.strSplit_metaLine]

/-- **`make_table` cuts a file of rows into those rows.** -/
theorem LogCollecterVector.makeTable_flatten {c : LogCollecterVector} {sz : Nat} {rows : List Str}
    (hn : c.n = some (rows.length : Int)) (hsize : c.rowSize = sz) (hrows : ∀ r ∈ rows, r.length = sz) :
    c.makeTable sz rows.flatten = some rows := by
  have hlen : rows.flatten.length = rows.length * sz := Contents.length_flatten hrows
  unfold makeTable
  rw [hn]
  by_cases hzero : rows = []
  · subst hzero
    simp
  · have hne : ¬ ((rows.length : Int) = 0) := by
      simpa using hzero
    simp only [if_neg hne, if_pos hsize.symm, Int.toNat_natCast]
    rw [List.take_of_length_le (by omega), hlen, Nat.sub_self, List.replicate_zero, List.append_nil,
      rowsOf_flatten hrows]

end StorTrace
