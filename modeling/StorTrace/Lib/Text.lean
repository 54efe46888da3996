import Mathlib.Data.List.Basic
import Mathlib.Data.Nat.Digits.Lemmas

/-!
# `Lib.Text` — fields, lines and decimal numbers

Splitting a text at a separator gives back the parts it was put together from: parts **separated** by it
(Mathlib's `List.splitOn_intercalate`) or each **terminated** by it (`splitOn_terminated`). No part contains the
separator, whatever the text (`notMem_of_mem_splitOn`). A table with two separators is taken apart into its
columns exactly if its entries contain neither (`splitOn_table`, `table_prefix_of_splitOn`). A number is read back
from its decimal digits by Horner's scheme (`horner_digits`).
-/

namespace Text

variable {α : Type}

/-- Every part with the separator after it. -/
def terminated (c : α) (parts : List (List α)) : List α := parts.flatMap (· ++ [c])

@[simp] theorem terminated_nil (c : α) : terminated c [] = [] := rfl

@[simp] theorem terminated_cons (c : α) (p : List α) (parts : List (List α)) :
    terminated c (p :: parts) = p ++ c :: terminated c parts := by
  simp [terminated]

/-- Terminated parts are separated parts, with an empty one at the end. -/
theorem terminated_eq_intercalate (c : α) (parts : List (List α)) :
    terminated c parts = [c].intercalate (parts ++ [[]]) := by
  induction parts with
  | nil => rfl
  | cons p rest ih =>
      rw [terminated_cons, ih, List.cons_append, List.intercalate_cons_of_ne_nil (by simp)]
      simp

theorem terminated_eq_concat (c : α) {parts : List (List α)} (h : parts ≠ []) :
    terminated c parts = [c].intercalate parts ++ [c] := by
  induction parts with
  | nil => exact absurd rfl h
  | cons p rest ih =>
      cases rest with
      | nil => simp
      | cons q rest =>
          rw [terminated_cons, ih (by simp), List.intercalate_cons_cons]
          simp

variable [BEq α] [LawfulBEq α]

/-- **Terminated parts are split back into themselves**, and an empty rest. -/
theorem splitOn_terminated (c : α) {parts : List (List α)} (h : ∀ p ∈ parts, c ∉ p) :
    (terminated c parts).splitOn c = parts ++ [[]] := by
  rw [terminated_eq_intercalate]
  apply List.splitOn_intercalate
  · intro p hp
    rcases List.mem_append.mp hp with hp | hp
    · exact h p hp
    · rw [List.mem_singleton.mp hp]
      simp
  · simp

/-- No part contains the separator. -/
theorem notMem_of_mem_splitOn {c : α} {xs p : List α} (h : p ∈ xs.splitOn c) : c ∉ p := by
  induction xs generalizing p with
  | nil =>
      rw [List.splitOn_nil, List.mem_singleton] at h
      rw [h]
      exact List.not_mem_nil
  | cons x rest ih =>
      rw [List.splitOn_cons_eq_if_modifyHead] at h
      by_cases hx : x = c
      · rw [if_pos (beq_iff_eq.mpr hx)] at h
        rcases List.mem_cons.mp h with rfl | h
        · exact List.not_mem_nil
        · exact ih h
      · rw [if_neg (by rwa [beq_iff_eq])] at h
        cases hs : rest.splitOn c with
        | nil => exact absurd hs (List.splitOn_ne_nil c rest)
        | cons q qs =>
            rw [hs, List.modifyHead_cons] at h
            rcases List.mem_cons.mp h with rfl | h
            · have hq : c ∉ q := ih (by rw [hs]; exact List.mem_cons_self)
              intro hc
              rcases List.mem_cons.mp hc with hc | hc
              · exact hx hc.symm
              · exact hq hc
            · exact ih (by rw [hs]; exact List.mem_cons_of_mem _ h)

omit [BEq α] [LawfulBEq α] in
/-- What separated parts contain: what is in a part, and what separates them. -/
theorem mem_intercalate_of_mem {sep p : List α} {x : α} {parts : List (List α)} (hp : p ∈ parts) (hx : x ∈ p) :
    x ∈ sep.intercalate parts := by
  induction parts with
  | nil => exact absurd hp (by simp)
  | cons q qs ih =>
      cases qs with
      | nil =>
          rw [List.intercalate_singleton]
          rw [List.mem_singleton.mp hp] at hx
          exact hx
      | cons r qs =>
          rw [List.intercalate_cons_cons]
          rcases List.mem_cons.mp hp with rfl | hp
          · simp [hx]
          · simp [ih hp]

omit [BEq α] [LawfulBEq α] in
theorem mem_of_mem_intercalate {sep : List α} {x : α} {parts : List (List α)} (h : x ∈ sep.intercalate parts) :
    x ∈ sep ∨ ∃ p ∈ parts, x ∈ p := by
  induction parts with
  | nil => exact absurd h (by simp)
  | cons q qs ih =>
      cases qs with
      | nil =>
          rw [List.intercalate_singleton] at h
          exact Or.inr ⟨q, List.mem_singleton_self q, h⟩
      | cons r qs =>
          rw [List.intercalate_cons_cons, List.mem_append, List.mem_append] at h
          rcases h with (h | h) | h
          · exact Or.inr ⟨q, List.mem_cons_self, h⟩
          · exact Or.inl h
          · rcases ih h with h | ⟨p, hp, hx⟩
            · exact Or.inl h
            · exact Or.inr ⟨p, List.mem_cons_of_mem q hp, hx⟩

/-- What a part contains is in the text. -/
theorem mem_of_mem_splitOn {c x : α} {xs p : List α} (h : p ∈ xs.splitOn c) (hx : x ∈ p) : x ∈ xs := by
  have hflat : x ∈ [c].intercalate (xs.splitOn c) := mem_intercalate_of_mem h hx
  rwa [List.intercalate_splitOn] at hflat

omit [BEq α] [LawfulBEq α] in
/-- The first parts are the beginning of the text. -/
theorem intercalate_prefix (sep : List α) (parts rest : List (List α)) :
    sep.intercalate parts <+: sep.intercalate (parts ++ rest) := by
  induction parts with
  | nil => exact List.nil_prefix
  | cons p parts ih =>
      cases parts with
      | nil =>
          rw [List.intercalate_singleton]
          cases rest with
          | nil => rw [List.append_nil, List.intercalate_singleton]
          | cons q rest =>
              rw [List.singleton_append, List.intercalate_cons_cons, List.append_assoc]
              exact List.prefix_append p _
      | cons q parts =>
          rw [List.cons_append, List.cons_append, List.intercalate_cons_cons, List.intercalate_cons_cons,
            List.prefix_append_right_inj]
          exact ih

omit [BEq α] [LawfulBEq α] in
/-- What works part by part works on separated parts. -/
theorem map_intercalate {β : Type} {f : List α → List β} (hnil : f [] = []) (happend : ∀ xs ys, f (xs ++ ys) = f xs ++ f ys)
    (sep : List α) (parts : List (List α)) : f (sep.intercalate parts) = (f sep).intercalate (parts.map f) := by
  induction parts with
  | nil => exact hnil
  | cons p rest ih =>
      cases rest with
      | nil => simp
      | cons q rest =>
          rw [List.intercalate_cons_cons, happend, happend, ih, List.map_cons, List.map_cons, List.map_cons,
            List.intercalate_cons_cons]

omit [BEq α] [LawfulBEq α] in
/-- Translating separated parts. -/
theorem flatMap_intercalate {β : Type} (f : α → List β) (sep : List α) (parts : List (List α)) :
    (sep.intercalate parts).flatMap f = (sep.flatMap f).intercalate (parts.map (List.flatMap f)) :=
  map_intercalate List.flatMap_nil (fun _ _ => List.flatMap_append) sep parts

omit [BEq α] [LawfulBEq α] in
/-- Deleting characters from separated parts. -/
theorem filter_intercalate (keep : α → Bool) (sep : List α) (parts : List (List α)) :
    (sep.intercalate parts).filter keep = (sep.filter keep).intercalate (parts.map (List.filter keep)) :=
  map_intercalate List.filter_nil (fun _ _ => List.filter_append _ _) sep parts

omit [BEq α] [LawfulBEq α] in
/-- Parts that are pairs themselves. -/
theorem intercalate_pairs {β : Type} (c : α) (f g : β → List α) (bs : List β) :
    [c].intercalate (bs.map (fun b => f b ++ c :: g b)) = [c].intercalate (bs.flatMap (fun b => [f b, g b])) := by
  induction bs with
  | nil => rfl
  | cons b rest ih =>
      cases rest with
      | nil => simp [List.intercalate_cons_cons]
      | cons b' rest =>
          rw [List.map_cons] at ih
          rw [List.map_cons, List.map_cons, List.intercalate_cons_cons, ih, List.flatMap_cons, List.flatMap_cons]
          simp [List.intercalate_cons_cons]

/-! ## Tables -/

/-- Columns separated by `d`, of entries separated by `c`. -/
def table (c d : α) (cols : List (List (List α))) : List α := [d].intercalate (cols.map [c].intercalate)

/-- **A table without separators in its entries is taken apart into its columns.** -/
theorem splitOn_table {c d : α} (hcd : c ≠ d) {cols : List (List (List α))} (hne : cols ≠ [])
    (hcols : ∀ col ∈ cols, col ≠ []) (h : ∀ col ∈ cols, ∀ p ∈ col, c ∉ p ∧ d ∉ p) :
    ((table c d cols).splitOn d).map (·.splitOn c) = cols := by
  have hsep : ∀ text ∈ cols.map [c].intercalate, d ∉ text := by
    intro text htext hd
    obtain ⟨col, hcol, rfl⟩ := List.mem_map.mp htext
    rcases mem_of_mem_intercalate hd with hd | ⟨p, hp, hd⟩
    · exact hcd (List.mem_singleton.mp hd).symm
    · exact (h col hcol p hp).2 hd
  rw [table, List.splitOn_intercalate d hsep (by simpa using hne), List.map_map]
  have hback : ∀ col ∈ cols, ((·.splitOn c) ∘ [c].intercalate) col = col :=
    fun col hcol => List.splitOn_intercalate c (fun p hp => (h col hcol p hp).1) (hcols col hcol)
  rw [List.map_congr_left hback, List.map_id']

/-- **Columns that a text is taken apart into** have no separators in their entries, and the text begins with
    their table. -/
theorem table_prefix_of_splitOn {c d : α} {v : List α} {cols rest : List (List (List α))}
    (h : (v.splitOn d).map (·.splitOn c) = cols ++ rest) :
    table c d cols <+: v ∧ ∀ col ∈ cols, ∀ p ∈ col, c ∉ p ∧ d ∉ p := by
  constructor
  · have hparts : v.splitOn d = (cols ++ rest).map [c].intercalate := by
      rw [← h, List.map_map]
      have hback : ∀ q ∈ v.splitOn d, ([c].intercalate ∘ (·.splitOn c)) q = q :=
        fun q _ => List.intercalate_splitOn c
      rw [List.map_congr_left hback, List.map_id']
    have hv : v = [d].intercalate (cols.map [c].intercalate ++ rest.map [c].intercalate) := by
      rw [← List.map_append, ← hparts, List.intercalate_splitOn]
    rw [hv]
    exact intercalate_prefix [d] _ _
  · intro col hcol p hp
    have hmem : col ∈ (v.splitOn d).map (·.splitOn c) := by
      rw [h]
      exact List.mem_append_left rest hcol
    obtain ⟨q, hq, rfl⟩ := List.mem_map.mp hmem
    exact ⟨notMem_of_mem_splitOn hp, fun hd => notMem_of_mem_splitOn hq (mem_of_mem_splitOn hp hd)⟩

/-! ## UTF-8 -/

/-- Bytes that encode characters. -/
def IsUtf8 (bs : List UInt8) : Prop := ∃ cs : List Char, bs = cs.flatMap String.utf8EncodeChar

theorem IsUtf8.nil : IsUtf8 [] := ⟨[], rfl⟩

theorem IsUtf8.append {bs bs' : List UInt8} (h : IsUtf8 bs) (h' : IsUtf8 bs') : IsUtf8 (bs ++ bs') := by
  obtain ⟨cs, rfl⟩ := h
  obtain ⟨cs', rfl⟩ := h'
  exact ⟨cs ++ cs', List.flatMap_append.symm⟩

/-- ASCII is UTF-8. -/
theorem isUtf8_of_ascii {bs : List UInt8} (h : bs.all (fun b => b.toNat < 128)) : IsUtf8 bs := by
  have hchar : ∀ n < 128, String.utf8EncodeChar (Char.ofNat n) = [UInt8.ofNat n] := by decide
  induction bs with
  | nil => exact .nil
  | cons b rest ih =>
      rw [List.all_cons, Bool.and_eq_true, decide_eq_true_eq] at h
      have hone : IsUtf8 [b] := by
        refine ⟨[Char.ofNat b.toNat], ?_⟩
        rw [List.flatMap_cons, List.flatMap_nil, hchar _ h.1, UInt8.ofNat_toNat, List.append_nil]
      exact hone.append (ih h.2)

theorem IsUtf8.intercalate {sep : List UInt8} {parts : List (List UInt8)} (hsep : IsUtf8 sep)
    (h : ∀ p ∈ parts, IsUtf8 p) : IsUtf8 (sep.intercalate parts) := by
  induction parts with
  | nil => exact .nil
  | cons p rest ih =>
      obtain ⟨hp, hrest⟩ := List.forall_mem_cons.mp h
      cases rest with
      | nil =>
          rw [List.intercalate_singleton]
          exact hp
      | cons q rest =>
          rw [List.intercalate_cons_cons]
          exact (hp.append hsep).append (ih hrest)

/-! ## Decimal numbers -/

/-- The value of decimal digits, most significant first. -/
def horner (ds : List Nat) : Nat := ds.foldl (fun acc d => acc * 10 + d) 0

/-- **A number is the value of its digits.** -/
theorem horner_digits (n : Nat) : horner (Nat.digits 10 n).reverse = n := by
  have hfold : ∀ ds : List Nat, horner ds.reverse = Nat.ofDigits 10 ds := by
    intro ds
    rw [horner, List.foldl_reverse, Nat.ofDigits_eq_foldr]
    congr 1
    funext d acc
    simp only [Nat.cast_id]
    omega
  rw [hfold, Nat.ofDigits_digits]

end Text
