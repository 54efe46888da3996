import StorTrace.Lib.Text

/-!
# `Lib.JsString` — a text put between the quotes of a JavaScript string literal

A JavaScript string is a sequence of UTF-16 code units (`ofText`). A text that a page template puts between the
single quotes of a literal passes through the template's escaping (`htmlEscape`), the tokenizer of the page
(`scriptText`) and the escapes of the literal (`stringValue`). It arrives as it is if none of the three finds
anything to do (`templateValue_of_plain`), and only then does it arrive whole (`plain_of_prefix`).
-/

namespace JsString

/-! ## Code units -/

/-- The UTF-16 code units of a code point. -/
def codeUnits (n : Nat) : List UInt16 :=
  if n < 0x10000 then [.ofNat n]
  else [.ofNat (0xD800 + (n - 0x10000) / 0x400), .ofNat (0xDC00 + (n - 0x10000) % 0x400)]

/-- The code units of a text. -/
def ofText (text : List Char) : List UInt16 := text.flatMap (fun c => codeUnits c.toNat)

@[simp] theorem ofText_nil : ofText [] = [] := rfl

@[simp] theorem ofText_cons (c : Char) (text : List Char) : ofText (c :: text) = codeUnits c.toNat ++ ofText text := rfl

@[simp] theorem ofText_append (text text' : List Char) : ofText (text ++ text') = ofText text ++ ofText text' :=
  List.flatMap_append

theorem length_codeUnits (n : Nat) : (codeUnits n).length = if n < 0x10000 then 1 else 2 := by
  unfold codeUnits
  split <;> rfl

theorem one_le_length_codeUnits (n : Nat) : 1 ≤ (codeUnits n).length := by
  rw [length_codeUnits]
  split <;> omega

theorem length_codeUnits_le (n : Nat) : (codeUnits n).length ≤ 2 := by
  rw [length_codeUnits]
  split <;> omega

theorem length_le_ofText (text : List Char) : text.length ≤ (ofText text).length := by
  induction text with
  | nil => exact Nat.le_refl 0
  | cons c text ih =>
      have hc := one_le_length_codeUnits c.toNat
      rw [ofText_cons, List.length_append, List.length_cons]
      omega

/-- What is left of a text after its first `n` characters. -/
theorem length_ofText_drop (text : List Char) (n : Nat) :
    (ofText (text.drop n)).length + (text.take n).length ≤ (ofText text).length := by
  have hsplit : ofText text = ofText (text.take n) ++ ofText (text.drop n) := by
    rw [← ofText_append, List.take_append_drop]
  have htake := length_le_ofText (text.take n)
  rw [hsplit, List.length_append]
  omega

/-- A table of texts is a table of their units. -/
theorem ofText_table {c d : Char} (hc : c.toNat < 0x10000) (hd : d.toNat < 0x10000) (cols : List (List (List Char))) :
    ofText (Text.table c d cols) = Text.table (.ofNat c.toNat) (.ofNat d.toNat) (cols.map (List.map ofText)) := by
  have hone : ∀ e : Char, e.toNat < 0x10000 → [e].flatMap (fun e => codeUnits e.toNat) = [UInt16.ofNat e.toNat] := by
    intro e he
    rw [List.flatMap_cons, List.flatMap_nil, List.append_nil, codeUnits, if_pos he]
  rw [Text.table, ofText, Text.flatMap_intercalate, hone d hd, List.map_map, Text.table, List.map_map]
  congr 1
  refine List.map_congr_left (fun col _ => ?_)
  rw [Function.comp_apply, Function.comp_apply, Text.flatMap_intercalate, hone c hc]
  rfl

theorem toNat_lt (c : Char) : c.toNat < 0x110000 := by
  have hvalid := c.valid
  simp only [UInt32.isValidChar, Nat.isValidChar] at hvalid
  show c.val.toNat < 0x110000
  omega

/-- A unit below the surrogates stands for one character. -/
theorem ofNat_mem_codeUnits {k n : Nat} (hk : k < 0xD800) (hn : n < 0x110000) :
    UInt16.ofNat k ∈ codeUnits n ↔ n = k := by
  have hunit : ∀ m < 0x10000, UInt16.ofNat k = UInt16.ofNat m ↔ m = k := by
    intro m hm
    rw [← UInt16.toNat_inj, UInt16.toNat_ofNat', UInt16.toNat_ofNat', Nat.mod_eq_of_lt (by omega), Nat.mod_eq_of_lt (by omega)]
    exact eq_comm
  unfold codeUnits
  split
  · next hlt => rw [List.mem_singleton, hunit n hlt]
  · next hlt =>
    rw [List.mem_cons, List.mem_singleton, hunit _ (by omega), hunit _ (by omega)]
    omega

/-- **A character below the surrogates is in a text exactly if its unit is.** -/
theorem ofNat_mem_ofText {c : Char} (hc : c.toNat < 0xD800) {text : List Char} :
    UInt16.ofNat c.toNat ∈ ofText text ↔ c ∈ text := by
  rw [ofText, List.mem_flatMap]
  constructor
  · rintro ⟨d, hd, hunit⟩
    rw [ofNat_mem_codeUnits hc (toNat_lt d), Char.toNat_inj] at hunit
    rwa [← hunit]
  · intro hmem
    exact ⟨c, hmem, (ofNat_mem_codeUnits hc (toNat_lt c)).mpr rfl⟩

/-! ## Escapes -/

/-- The value of a hexadecimal digit. -/
def hexValue (c : Char) : Option Nat :=
  if '0' ≤ c ∧ c ≤ '9' then some (c.toNat - 48)
  else if 'a' ≤ c ∧ c ≤ 'f' then some (c.toNat - 87)
  else if 'A' ≤ c ∧ c ≤ 'F' then some (c.toNat - 55)
  else none

/-- The value of hexadecimal digits. -/
def hexNumber (digits : List Char) : Option Nat := digits.foldlM (fun n c => (hexValue c).map (n * 16 + ·)) 0

/-- `xHH` and `uHHHH`: `n` digits, with the text behind them. -/
def hexEscape (n : Nat) (text : List Char) : Option (List UInt16 × List Char) :=
  if (text.take n).length = n then (hexNumber (text.take n)).map (fun v => (codeUnits v, text.drop n)) else none

/-- `u{H…}`, from the brace on. -/
def braceEscape (text : List Char) : Option (List UInt16 × List Char) :=
  let digits := text.takeWhile (· ≠ '}')
  match text.drop digits.length, hexNumber digits with
  | _ :: rest, some v => if digits ≠ [] ∧ v ≤ 0x10FFFF then some (codeUnits v, rest) else none
  | _, _ => none

def isOctal (c : Char) : Bool := '0' ≤ c ∧ c ≤ '7'

/-- One to three octal digits, of which `c` is the first; the value is below 256. -/
def octalEscape (c : Char) (text : List Char) : List UInt16 × List Char :=
  let digits := (text.take (if c ≤ '3' then 2 else 1)).takeWhile isOctal
  ([.ofNat ((c :: digits).foldl (fun n d => n * 8 + (d.toNat - 48)) 0)], text.drop digits.length)

/-- A letter that stands for a control character, or any other character for itself. -/
def singleEscape (c : Char) : Nat :=
  match c with
  | 'b' => 8
  | 't' => 9
  | 'n' => 10
  | 'v' => 11
  | 'f' => 12
  | 'r' => 13
  | _ => c.toNat

/-- LF, CR, LS and PS. -/
def isLineTerminator (c : Char) : Bool := c = '\n' ∨ c = '\r' ∨ c = '\u2028' ∨ c = '\u2029'

/-- What follows a backslash: the code units it stands for and the text behind it. -/
def escape : List Char → Option (List UInt16 × List Char)
  | [] => none
  | c :: rest =>
      if c = 'x' then hexEscape 2 rest
      else if c = 'u' then
        if rest.head? = some '{' then braceEscape rest.tail else hexEscape 4 rest
      else if isOctal c then some (octalEscape c rest)
      else if c = '\r' ∧ rest.head? = some '\n' then some ([], rest.tail)
      else if isLineTerminator c then some ([], rest)
      else some (codeUnits (singleEscape c), rest)

/-- What one escape does: it makes no more units than it consumes. -/
structure Shrinks (before : List Char) (value : List UInt16) (after : List Char) : Prop where
  units : value.length + (ofText after).length ≤ (ofText before).length
  shorter : after.length ≤ before.length

theorem hexEscape_shrinks {n : Nat} {text rest : List Char} {v : List UInt16} (hn : 2 ≤ n)
    (h : hexEscape n text = some (v, rest)) : Shrinks text v rest := by
  unfold hexEscape at h
  split at h
  · next hlen =>
    obtain ⟨u, -, hu⟩ := Option.map_eq_some_iff.mp h
    cases hu
    have hdrop := length_ofText_drop text n
    have hv := length_codeUnits_le u
    exact ⟨by omega, by rw [List.length_drop]; omega⟩
  · cases h

theorem braceEscape_shrinks {text rest : List Char} {v : List UInt16} (h : braceEscape text = some (v, rest)) :
    Shrinks text v rest := by
  unfold braceEscape at h
  simp only at h
  split at h
  · next c rest' u hdrop _ =>
    split at h
    · next hne =>
      cases h
      have hpos := List.length_pos_iff.mpr hne.1
      have htext := length_ofText_drop text (text.takeWhile (· ≠ '}')).length
      have hc := one_le_length_codeUnits c.toNat
      have hv := length_codeUnits_le u
      have htake : (text.take (text.takeWhile (· ≠ '}')).length).length = (text.takeWhile (· ≠ '}')).length := by
        have hsub : text.takeWhile (· ≠ '}') <+: text := List.takeWhile_prefix _
        rw [List.length_take, Nat.min_eq_left hsub.length_le]
      rw [hdrop, ofText_cons, List.length_append] at htext
      have hlen := congrArg List.length hdrop
      rw [List.length_drop, List.length_cons] at hlen
      exact ⟨by omega, by omega⟩
    · cases h
  · cases h

theorem octalEscape_shrinks (c : Char) (text : List Char) :
    Shrinks (c :: text) (octalEscape c text).1 (octalEscape c text).2 := by
  have hc := one_le_length_codeUnits c.toNat
  have hdrop := length_ofText_drop text ((text.take (if c ≤ '3' then 2 else 1)).takeWhile isOctal).length
  refine ⟨?_, ?_⟩
  · rw [ofText_cons, List.length_append]
    simp only [octalEscape, List.length_singleton]
    omega
  · simp only [octalEscape, List.length_drop, List.length_cons]
    omega

theorem length_singleEscape_le (c : Char) : (codeUnits (singleEscape c)).length ≤ (codeUnits c.toNat).length := by
  unfold singleEscape
  split <;> exact Nat.le_refl _

/-- **An escape makes no more units than it consumes.** -/
theorem escape_shrinks {text rest : List Char} {v : List UInt16} (h : escape text = some (v, rest)) :
    Shrinks text v rest := by
  cases text with
  | nil => cases h
  | cons c tail =>
      have hc := one_le_length_codeUnits c.toNat
      have htail := length_ofText_drop tail 1
      have hunits : (ofText (c :: tail)).length = (codeUnits c.toNat).length + (ofText tail).length := by
        rw [ofText_cons, List.length_append]
      have hwiden : ∀ {text' : List Char}, text'.length ≤ tail.length → (ofText text').length ≤ (ofText tail).length →
          Shrinks text' v rest → Shrinks (c :: tail) v rest := by
        intro text' hlen hle hs
        have h1 := hs.units
        have h2 := hs.shorter
        exact ⟨by omega, by rw [List.length_cons]; omega⟩
      rw [escape] at h
      split at h
      · exact hwiden (Nat.le_refl _) (Nat.le_refl _) (hexEscape_shrinks (Nat.le_refl 2) h)
      · split at h
        · split at h
          · refine hwiden ?_ ?_ (braceEscape_shrinks h)
            · rw [List.length_tail]; omega
            · rw [← List.drop_one]; omega
          · exact hwiden (Nat.le_refl _) (Nat.le_refl _) (hexEscape_shrinks (by decide) h)
        · split at h
          · cases h
            exact octalEscape_shrinks c tail
          · split at h
            · cases h
              refine ⟨?_, ?_⟩
              · rw [hunits, List.length_nil, ← List.drop_one]; omega
              · rw [List.length_tail, List.length_cons]; omega
            · split at h
              · cases h
                exact ⟨by rw [hunits, List.length_nil]; omega, by rw [List.length_cons]; omega⟩
              · cases h
                have hsingle := length_singleEscape_le c
                exact ⟨by rw [hunits]; omega, by rw [List.length_cons]; omega⟩

/-! ## The literal -/

/-- The value of the characters between the quotes, one at a time. -/
def charsValue : Nat → List Char → Option (List UInt16)
  | _, [] => some []
  | 0, _ :: _ => none
  | fuel + 1, c :: rest =>
      if c = '\\' then do
        let (v, rest') ← escape rest
        let vs ← charsValue fuel rest'
        return v ++ vs
      -- the literal ends, or breaks off at the end of its line
      else if c = '\'' ∨ c = '\n' ∨ c = '\r' then none
      else (charsValue fuel rest).map (codeUnits c.toNat ++ ·)

/-- The value of a literal with `text` between its single quotes. -/
def stringValue (text : List Char) : Option (List UInt16) := charsValue text.length text

/-- The fuel does not matter once it is as much as the text is long. -/
theorem charsValue_eq {fuel : Nat} {text : List Char} (h : text.length ≤ fuel) : charsValue fuel text = stringValue text := by
  have hsame : ∀ (k m : Nat) (text : List Char), text.length ≤ k → text.length ≤ m → charsValue k text = charsValue m text := by
    intro k
    induction k with
    | zero =>
        intro m text hk _
        rw [List.eq_nil_of_length_eq_zero (Nat.le_zero.mp hk), charsValue, charsValue]
    | succ k ih =>
        intro m text hk hm
        cases text with
        | nil => rw [charsValue, charsValue]
        | cons c rest =>
            rw [List.length_cons] at hk hm
            obtain ⟨m, rfl⟩ : ∃ m', m = m' + 1 := ⟨m - 1, by omega⟩
            have hrest := ih m rest (by omega) (by omega)
            have hescape : ∀ p, escape rest = some p → charsValue k p.2 = charsValue m p.2 := by
              intro p hp
              have hshort := (escape_shrinks hp).shorter
              exact ih m p.2 (by omega) (by omega)
            rw [charsValue, charsValue, hrest]
            cases hp : escape rest with
            | none => rfl
            | some p => simp only [Option.bind_eq_bind, Option.bind_some, hescape p hp]
  exact hsame fuel text.length text h (Nat.le_refl _)

@[simp] theorem stringValue_nil : stringValue [] = some [] := rfl

theorem stringValue_cons (c : Char) (rest : List Char) :
    stringValue (c :: rest) =
      if c = '\\' then (escape rest).bind (fun p => (stringValue p.2).map (p.1 ++ ·))
      else if c = '\'' ∨ c = '\n' ∨ c = '\r' then none
      else (stringValue rest).map (codeUnits c.toNat ++ ·) := by
  have hescape : ∀ p, escape rest = some p → charsValue rest.length p.2 = stringValue p.2 :=
    fun p hp => charsValue_eq (escape_shrinks hp).shorter
  rw [stringValue, List.length_cons, charsValue]
  cases hp : escape rest with
  | none => rfl
  | some p =>
      simp only [Option.bind_eq_bind, Option.bind_some, hescape p hp]
      cases stringValue p.2 <;> rfl

/-- A character that stands for itself in a literal. -/
def Plain (c : Char) : Prop := c ≠ '\\' ∧ c ≠ '\'' ∧ c ≠ '\n' ∧ c ≠ '\r'

instance : DecidablePred Plain := fun c => inferInstanceAs (Decidable (c ≠ '\\' ∧ c ≠ '\'' ∧ c ≠ '\n' ∧ c ≠ '\r'))

/-- **Plain characters are their own value.** -/
theorem stringValue_of_plain {text : List Char} (h : ∀ c ∈ text, Plain c) : stringValue text = some (ofText text) := by
  induction text with
  | nil => rfl
  | cons c rest ih =>
      obtain ⟨⟨hslash, hquote, hlf, hcr⟩, hrest⟩ := List.forall_mem_cons.mp h
      rw [stringValue_cons, if_neg hslash, if_neg (by simp [hquote, hlf, hcr]), ih hrest]
      rfl

/-- A value has no more units than its text, and fewer unless every character is plain. -/
theorem length_stringValue {text : List Char} {v : List UInt16} (h : stringValue text = some v) :
    v.length ≤ (ofText text).length ∧ ((ofText text).length ≤ v.length → ∀ c ∈ text, Plain c) := by
  -- an escape may be long: the induction is on the length of what is left
  induction hn : text.length using Nat.strongRecOn generalizing text v with
  | ind n ih =>
      subst hn
      cases text with
      | nil => cases h; simp
      | cons c rest =>
          have hc := one_le_length_codeUnits c.toNat
          rw [stringValue_cons] at h
          rw [ofText_cons, List.length_append]
          split at h
          · obtain ⟨⟨w, rest'⟩, hesc, h⟩ := Option.bind_eq_some_iff.mp h
            obtain ⟨vs, hvs : stringValue rest' = some vs, rfl : w ++ vs = v⟩ := Option.map_eq_some_iff.mp h
            obtain ⟨hunits, hshort⟩ := escape_shrinks hesc
            have hle := (ih rest'.length (by rw [List.length_cons]; omega) hvs rfl).1
            rw [List.length_append]
            exact ⟨by omega, fun hge => absurd hge (by omega)⟩
          · next hslash =>
            split at h
            · cases h
            · next hbreak =>
              obtain ⟨vs, hvs, hv⟩ := Option.map_eq_some_iff.mp h
              obtain ⟨hle, hplain⟩ := ih rest.length (by rw [List.length_cons]; omega) hvs rfl
              cases hv
              rw [List.length_append]
              refine ⟨by omega, ?_⟩
              intro hge
              simp only [not_or] at hbreak
              exact List.forall_mem_cons.mpr ⟨⟨hslash, hbreak⟩, hplain (by omega)⟩

/-- **A value as long as its text is the text**, and all of it is plain. -/
theorem plain_of_le_length {text : List Char} {v : List UInt16} (h : stringValue text = some v)
    (hle : (ofText text).length ≤ v.length) : (∀ c ∈ text, Plain c) ∧ v = ofText text := by
  have hplain := (length_stringValue h).2 hle
  rw [stringValue_of_plain hplain] at h
  exact ⟨hplain, (Option.some.inj h).symm⟩

example : stringValue "a\\x41\\u\x7b1F600\x7d".toList = some [97, 65, 0xD83D, 0xDE00] := by decide

/-! ## The text of a page -/

/-- The characters a template escapes. -/
def escapeChar (c : Char) : List Char :=
  match c with
  | '&' => "&amp;".toList
  | '<' => "&lt;".toList
  | '>' => "&gt;".toList
  | '\'' => "&#39;".toList
  | '"' => "&#34;".toList
  | _ => [c]

/-- The escaping of a template. -/
def htmlEscape (text : List Char) : List Char := text.flatMap escapeChar

/-- A character that a template escapes. -/
def Special (c : Char) : Prop := c = '&' ∨ c = '<' ∨ c = '>' ∨ c = '\'' ∨ c = '"'

instance : DecidablePred Special :=
  fun c => inferInstanceAs (Decidable (c = '&' ∨ c = '<' ∨ c = '>' ∨ c = '\'' ∨ c = '"'))

/-- **A text without special characters is not changed by the escaping.** -/
theorem htmlEscape_of_not_special {text : List Char} (h : ∀ c ∈ text, ¬ Special c) : htmlEscape text = text := by
  induction text with
  | nil => rfl
  | cons c rest ih =>
      obtain ⟨hc, hrest⟩ := List.forall_mem_cons.mp h
      have hone : escapeChar c = [c] := by
        unfold escapeChar
        split
        case h_6 => rfl
        all_goals exact absurd (by decide) hc
      rw [htmlEscape, List.flatMap_cons, hone, List.singleton_append]
      exact congrArg (c :: ·) (ih hrest)

/-- The tokenizer's view of a line end: CR and CR LF are LF. -/
def normalizeNewlines : List Char → List Char
  | [] => []
  | c :: rest =>
      if c = '\r' then (if rest.head? = some '\n' then normalizeNewlines rest else '\n' :: normalizeNewlines rest)
      else c :: normalizeNewlines rest

/-- The text of a script element as its source stands in the page: a NUL becomes U+FFFD. -/
def scriptText (text : List Char) : List Char :=
  (normalizeNewlines text).map (fun c => if c = '\x00' then '\uFFFD' else c)

/-- The value of a literal in a script of a page, with `text` put between its quotes by the template, which escapes
    the quotes of either kind. -/
def templateValue (text : List Char) : Option (List UInt16) := stringValue (scriptText (htmlEscape text))

/-- What the tokenizer leaves alone. -/
theorem scriptText_of_notMem {text : List Char} (hcr : '\r' ∉ text) (hnul : '\x00' ∉ text) : scriptText text = text := by
  have hnormal : normalizeNewlines text = text := by
    induction text with
    | nil => rfl
    | cons c rest ih =>
        have hc : c ≠ '\r' := Ne.symm (List.ne_of_not_mem_cons hcr)
        rw [normalizeNewlines, if_neg hc, ih (List.not_mem_of_not_mem_cons hcr) (List.not_mem_of_not_mem_cons hnul)]
  have hkeep : ∀ c ∈ text, (if c = '\x00' then '\uFFFD' else c) = c := by
    intro c hc
    have hne : c ≠ '\x00' := fun heq => hnul (heq ▸ hc)
    exact if_neg hne
  rw [scriptText, hnormal, List.map_congr_left hkeep, List.map_id']

/-- The tokenizer makes no text longer, and leaves no NUL. -/
theorem length_scriptText_le (text : List Char) : (ofText (scriptText text)).length ≤ (ofText text).length := by
  unfold scriptText
  induction text with
  | nil => exact Nat.le_refl 0
  | cons c rest ih =>
      rw [normalizeNewlines, ofText_cons, List.length_append]
      split
      · next hc =>
        rw [hc]
        split
        · omega
        · rw [List.map_cons, ofText_cons, List.length_append]
          exact Nat.add_le_add (Nat.le_refl 1) ih
      · rw [List.map_cons, ofText_cons, List.length_append]
        split
        · next hc =>
          rw [hc]
          exact Nat.add_le_add (Nat.le_refl 1) ih
        · exact Nat.add_le_add (Nat.le_refl _) ih

theorem nul_notMem_scriptText (text : List Char) : '\x00' ∉ scriptText text := by
  rw [scriptText, List.mem_map]
  rintro ⟨c, -, hc⟩
  split at hc
  · exact absurd hc (by decide)
  · next hne => exact hne hc

/-- **A text that nothing on the way takes for its own arrives.** -/
theorem templateValue_of_plain {text : List Char} (hspecial : ∀ c ∈ text, ¬ Special c)
    (hplain : ∀ c ∈ text, Plain c ∧ c ≠ '\x00') : templateValue text = some (ofText text) := by
  have hcr : '\r' ∉ text := fun hc => (hplain _ hc).1.2.2.2 rfl
  have hnul : '\x00' ∉ text := fun hc => (hplain _ hc).2 rfl
  rw [templateValue, htmlEscape_of_not_special hspecial, scriptText_of_notMem hcr hnul]
  exact stringValue_of_plain (fun c hc => (hplain c hc).1)

/-- **A text that arrives whole** had nothing that is changed on the way. -/
theorem plain_of_prefix {text : List Char} {v : List UInt16} (hspecial : ∀ c ∈ text, ¬ Special c)
    (h : templateValue text = some v) (hpre : ofText text <+: v) : ∀ c ∈ text, Plain c ∧ c ≠ '\x00' := by
  rw [templateValue, htmlEscape_of_not_special hspecial] at h
  have hlen := length_scriptText_le text
  have hle := hpre.length_le
  obtain ⟨hplain, hv⟩ := plain_of_le_length h (Nat.le_trans hlen hle)
  have hsame : ofText text = ofText (scriptText text) := by
    rw [← hv]
    refine hpre.eq_of_length_le ?_
    rw [hv]
    exact hlen
  have hmoved : ∀ c : Char, c.toNat < 0xD800 → c ∈ text → c ∈ scriptText text := by
    intro c hc hmem
    rw [← ofNat_mem_ofText hc, ← hsame]
    exact (ofNat_mem_ofText hc).mpr hmem
  have hgone : ∀ c : Char, c.toNat < 0xD800 → ¬ (Plain c ∧ c ≠ '\x00') → c ∉ text := by
    intro c hc hbad hmem
    have hin := hmoved c hc hmem
    exact hbad ⟨hplain c hin, fun heq => nul_notMem_scriptText text (heq ▸ hin)⟩
  intro c hc
  by_contra hbad
  by_cases hsmall : c.toNat < 0xD800
  · exact hgone c hsmall hbad hc
  · refine hbad ⟨⟨?_, ?_, ?_, ?_⟩, ?_⟩
    all_goals
      rintro rfl
      exact hsmall (by decide)

end JsString
