import StorTrace.Viewer.LatencyPage

/-!
# `Viewer.Charts` — numbers on their way into a chart (`avg_with_mark.html`, `dis_with_mark.html`)

The server joins the numbers of a result with blanks or commas, and a script takes the text apart again. Nothing in a
number is a separator, a quote or an escape, so the chart has them all, in their order (`splitValue_pyJoin`) — unless
there are none: the empty text is taken apart into one empty part.
-/

namespace StorTrace

open Meta JsString

/-! ## Numbers as texts -/

/-- `str(v)` of an integer. -/
def pyStrInt (v : Int) : List Char := (intToString v).map (fun b => Char.ofNat b.toNat)

/-- `sep.join(str(v) for v in seq)`. -/
def pyJoin (sep : Char) (seq : List Int) : List Char := ([sep] : List Char).intercalate (seq.map pyStrInt)

/-- `'{{ text }}'.split(sep)`. -/
def splitValue (sep : Char) (text : List Char) : Option (List JsText) :=
  (templateValue text).map (·.splitOn (UInt16.ofNat sep.toNat))

/-- The texts of integers in a script. -/
def jsNumbers (seq : List Int) : List JsText := seq.map (fun v => ofText (pyStrInt v))

/-- A natural number is printed as its digits. -/
theorem pyStrInt_natCast (n : Nat) : pyStrInt (n : Int) = pyStr n := by
  rw [pyStrInt, intToString_natCast]
  rfl

/-- The characters of an integer. -/
theorem forall_mem_pyStrInt {P : Char → Prop} (hdash : P '-') (hdigit : ∀ d < 10, P (Char.ofNat (48 + d))) (v : Int) :
    ∀ c ∈ pyStrInt v, P c := by
  have hdigits := forall_mem_pyStr hdigit v.natAbs
  rw [pyStrInt, intToString]
  split
  · exact List.forall_mem_cons.mpr ⟨hdash, hdigits⟩
  · exact hdigits

/-- The characters of a joined text. -/
theorem forall_mem_pyJoin {P : Char → Prop} {sep : Char} (hsep : P sep) (hdash : P '-')
    (hdigit : ∀ d < 10, P (Char.ofNat (48 + d))) (seq : List Int) : ∀ c ∈ pyJoin sep seq, P c := by
  intro c hc
  rcases Text.mem_of_mem_intercalate hc with hc | ⟨text, htext, hc⟩
  · rw [List.mem_singleton.mp hc]
    exact hsep
  · obtain ⟨v, -, rfl⟩ := List.mem_map.mp htext
    exact forall_mem_pyStrInt hdash hdigit v c hc

/-- A joined text arrives in the script as it is. -/
theorem templateValue_pyJoin {sep : Char} (hsep : sep = ',' ∨ sep = ' ') (seq : List Int) :
    templateValue (pyJoin sep seq) = some (ofText (pyJoin sep seq)) := by
  refine templateValue_of_plain ?_ ?_
  · refine forall_mem_pyJoin ?_ (by decide) (by decide) seq
    rcases hsep with rfl | rfl <;> decide
  · refine forall_mem_pyJoin ?_ (by decide) (by decide) seq
    rcases hsep with rfl | rfl <;> decide

/-- **Numbers that were joined are taken apart again.** -/
theorem splitValue_pyJoin {sep : Char} (hsep : sep = ',' ∨ sep = ' ') {seq : List Int} (hne : seq ≠ []) :
    splitValue sep (pyJoin sep seq) = some (jsNumbers seq) := by
  have hcode : sep.toNat < 0xD800 := by rcases hsep with rfl | rfl <;> decide
  have hunits : ofText [sep] = [UInt16.ofNat sep.toNat] := by rcases hsep with rfl | rfl <;> rfl
  have htext : ofText (pyJoin sep seq) = [UInt16.ofNat sep.toNat].intercalate (jsNumbers seq) := by
    rw [pyJoin, ofText, Text.flatMap_intercalate, List.map_map, ← hunits]
    rfl
  have hnot : ∀ v : Int, UInt16.ofNat sep.toNat ∉ ofText (pyStrInt v) := by
    intro v
    rw [ofNat_mem_ofText hcode]
    refine fun hmem => forall_mem_pyStrInt (P := fun c => c ≠ sep) ?_ ?_ v sep hmem rfl
    · rcases hsep with rfl | rfl <;> decide
    · rcases hsep with rfl | rfl <;> decide
  rw [splitValue, templateValue_pyJoin hsep, Option.map_some, htext]
  refine congrArg some (List.splitOn_intercalate _ ?_ (by simpa [jsNumbers]))
  intro text hmem
  obtain ⟨v, -, rfl⟩ := List.mem_map.mp hmem
  exact hnot v

/-! ## Charts over the indices -/

/-- What `avg_with_mark.html` is rendered with. -/
structure AvgPage where
  graphName : List Char
  data : List Char
deriving DecidableEq

/-- The `option` of `avg_with_mark.html`, as far as it depends on the page. -/
structure AvgChart where
  text : JsText
  xAxisData : List Nat
  plotData : List JsText
deriving DecidableEq

/-- The script of `avg_with_mark.html`. -/
def avgWithMark (page : AvgPage) : Option AvgChart := do
  let plotName ← templateValue page.graphName
  let plotData ← splitValue ' ' page.data
  return ⟨plotName, List.range plotData.length, plotData⟩

/-- What `dis_with_mark.html` is rendered with. -/
structure DisPage where
  title : List Char
  mode : List Char
  bucket : List Char
deriving DecidableEq

/-- The `option` of `dis_with_mark.html`, as far as it depends on the page. -/
structure DisChart where
  text : JsText
  subtext : JsText
  xAxisData : List Nat
  value : List JsText
deriving DecidableEq

/-- The script of `dis_with_mark.html`. -/
def disWithMark (page : DisPage) : Option DisChart := do
  let title ← templateValue page.title
  let mode ← templateValue page.mode
  let value ← splitValue ' ' page.bucket
  return ⟨title, mode, List.range value.length, value⟩

/-- A text that a template leaves alone. -/
def Verbatim (text : List Char) : Prop := ∀ c ∈ text, ¬ Special c ∧ Plain c ∧ c ≠ '\x00'

instance (text : List Char) : Decidable (Verbatim text) := List.decidableBAll _ text

theorem Verbatim.templateValue_eq {text : List Char} (h : Verbatim text) : templateValue text = some (ofText text) :=
  templateValue_of_plain (fun c hc => (h c hc).1) (fun c hc => (h c hc).2)

@[simp] theorem length_jsNumbers (seq : List Int) : (jsNumbers seq).length = seq.length := List.length_map _

theorem avgWithMark_pyJoin {graphName : List Char} (hname : Verbatim graphName) {seq : List Int} (hne : seq ≠ []) :
    avgWithMark ⟨graphName, pyJoin ' ' seq⟩ = some ⟨ofText graphName, List.range seq.length, jsNumbers seq⟩ := by
  simp only [avgWithMark, hname.templateValue_eq, splitValue_pyJoin (Or.inr rfl) hne, Option.bind_eq_bind, Option.bind_some,
    length_jsNumbers]
  rfl

theorem disWithMark_pyJoin {title mode : List Char} (htitle : Verbatim title) (hmode : Verbatim mode) {seq : List Int}
    (hne : seq ≠ []) :
    disWithMark ⟨title, mode, pyJoin ' ' seq⟩ =
      some ⟨ofText title, ofText mode, List.range seq.length, jsNumbers seq⟩ := by
  simp only [disWithMark, htitle.templateValue_eq, hmode.templateValue_eq, splitValue_pyJoin (Or.inr rfl) hne,
    Option.bind_eq_bind, Option.bind_some, length_jsNumbers]
  rfl

end StorTrace
