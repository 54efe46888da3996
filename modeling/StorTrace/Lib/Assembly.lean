import StorTrace.Lib.Layout
import Mathlib.Data.List.Pairwise

/-!
# `Lib.Assembly` — a file assembled from positional writes

Records are appended to the content a file is meant to have, each by a write at its own offset. The writes are
carried out later, in any order, and each may store only the first elements of its data.

What matters is the positions that are **lost**: neither stored nor covered by an outstanding write. `Step`
says what one step can do, `Step.inv` that the bookkeeping stays right, and `Step.whole_iff` that a position
gets lost exactly by a write that is cut short. When nothing is outstanding, a file with no lost position
holds its content (`holds_iff_whole`).
-/

theorem List.mem_of_mem_middle {α : Type} {before after : List α} {x y : α} (h : y ∈ before ++ after) :
    y ∈ before ++ x :: after :=
  ((List.sublist_cons_self x after).append_left before).subset h

theorem List.getElem?_middle {α : Type} (before after : List α) (x : α) :
    (before ++ x :: after)[before.length]? = some x := by
  rw [List.getElem?_append_right (Nat.le_refl _), Nat.sub_self, List.getElem?_cons_zero]

/-- A write of `data` from the position `off` on. -/
structure Write (α : Type) where
  off : Nat
  data : List α
deriving DecidableEq

namespace Write

variable {α : Type}

def Covers (w : Write α) (p : Nat) : Prop := w.off ≤ p ∧ p < w.off + w.data.length

end Write

/-- The elements of a file; `none` where nothing was ever stored (a hole, or the end of the file). -/
abbrev Contents (α : Type) := Nat → Option α

namespace Contents

variable {α : Type}

def empty : Contents α := fun _ => none

/-- Storing `bs` from the position `off` on. -/
def storeAt (f : Contents α) (off : Nat) (bs : List α) : Contents α :=
  fun p => if off ≤ p ∧ p < off + bs.length then bs[p - off]? else f p

/-- The file holds `bs` from the position `off` on. -/
def HoldsAt (f : Contents α) (off : Nat) (bs : List α) : Prop :=
  ∀ j, j < bs.length → f (off + j) = bs[j]?

/-- The file is exactly `content`. -/
def Holds (f : Contents α) (content : List α) : Prop := ∀ p, f p = content[p]?

theorem storeAt_of_mem {f : Contents α} {off p : Nat} {bs : List α} (h₁ : off ≤ p)
    (h₂ : p < off + bs.length) : f.storeAt off bs p = bs[p - off]? := if_pos ⟨h₁, h₂⟩

theorem storeAt_of_notMem {f : Contents α} {off p : Nat} {bs : List α}
    (h : ¬ (off ≤ p ∧ p < off + bs.length)) : f.storeAt off bs p = f p := if_neg h

/-- A store leaves nothing behind exactly where nothing was and nothing is stored. -/
theorem storeAt_eq_none {f : Contents α} {off p : Nat} {bs : List α} :
    f.storeAt off bs p = none ↔ ¬ (off ≤ p ∧ p < off + bs.length) ∧ f p = none := by
  by_cases h : off ≤ p ∧ p < off + bs.length
  · rw [storeAt_of_mem h.1 h.2]
    simp only [List.getElem?_eq_none_iff]
    constructor
    · intro hlen
      omega
    · intro hc
      exact absurd h hc.1
  · rw [storeAt_of_notMem h]
    simp [h]

end Contents

/-- A file under assembly: what it is meant to contain, the outstanding writes, and what is stored. -/
structure Assembly (α : Type) where
  content : List α
  pending : List (Write α)
  file : Contents α

namespace Assembly

variable {α : Type}

/-- Nothing appended yet, to an empty file. -/
def start : Assembly α := ⟨[], [], .empty⟩

/-- What one step can do: append a record, or carry out an outstanding write, up to its first `n` elements.
    The label says whether the step leaves something of a write out. -/
inductive Step : Assembly α → Prop → Assembly α → Prop
  | append (content : List α) (pending : List (Write α)) (file : Contents α) (r : List α) :
      Step ⟨content, pending, file⟩ True
        ⟨content ++ r, pending ++ [⟨content.length, r⟩], file⟩
  | store (content : List α) (before after : List (Write α)) (w : Write α) (file : Contents α) (n : Nat) :
      Step ⟨content, before ++ w :: after, file⟩ (w.data.length ≤ n)
        ⟨content, before ++ after, file.storeAt w.off (w.data.take n)⟩

/-- The outstanding writes carry the content of the places they cover, no two cover the same place, and what
    is stored is content that no outstanding write covers. -/
structure Inv (a : Assembly α) : Prop where
  inside : ∀ w ∈ a.pending, ∀ p, w.Covers p → a.content[p]? = w.data[p - w.off]?
  apart : a.pending.Pairwise (fun v w => ∀ p, ¬ (v.Covers p ∧ w.Covers p))
  stored : ∀ p x, a.file p = some x → a.content[p]? = some x ∧ ∀ w ∈ a.pending, ¬ w.Covers p

/-- A position that is neither stored nor covered by an outstanding write. -/
def Lost (a : Assembly α) (p : Nat) : Prop :=
  p < a.content.length ∧ a.file p = none ∧ ∀ w ∈ a.pending, ¬ w.Covers p

/-- No position is lost. -/
def Whole (a : Assembly α) : Prop := ∀ p, ¬ a.Lost p

theorem inv_start : (start : Assembly α).Inv where
  inside := by simp [start]
  apart := by simp [start]
  stored := by simp [start, Contents.empty]

theorem whole_start : (start : Assembly α).Whole := by
  intro p h
  have hp : p < ([] : List α).length := h.1
  simp at hp

/-- An outstanding write stays within the content. -/
theorem Inv.lt_length {a : Assembly α} (h : a.Inv) {w : Write α} (hw : w ∈ a.pending) {p : Nat}
    (hp : w.Covers p) : p < a.content.length := by
  have hin := h.inside w hw p hp
  have hlt : p - w.off < w.data.length := by
    have h₁ := hp.1
    have h₂ := hp.2
    omega
  rw [List.getElem?_eq_getElem hlt] at hin
  exact (List.getElem?_eq_some_iff.mp hin).1

/-! ## What a step preserves -/

theorem Inv.append {a : Assembly α} (h : a.Inv) (r : List α) :
    Inv ⟨a.content ++ r, a.pending ++ [⟨a.content.length, r⟩], a.file⟩ where
  inside := by
    intro w hw p hp
    rcases List.mem_append.mp hw with hold | hnew
    · rw [List.getElem?_append_left (h.lt_length hold hp)]
      exact h.inside w hold p hp
    · obtain rfl := List.mem_singleton.mp hnew
      exact List.getElem?_append_right hp.1
  apart := by
    rw [List.pairwise_append]
    refine ⟨h.apart, List.pairwise_singleton _ _, ?_⟩
    -- an older write lies within the content the new one comes after
    intro v hv w hw p hp
    obtain rfl := List.mem_singleton.mp hw
    have hlt := h.lt_length hv hp.1
    have hge := hp.2.1
    simp only at hge
    omega
  stored := by
    intro p x hx
    obtain ⟨hc, hfree⟩ := h.stored p x hx
    have hlt := (List.getElem?_eq_some_iff.mp hc).1
    refine ⟨by rw [List.getElem?_append_left hlt]; exact hc, ?_⟩
    intro w hw hp
    rcases List.mem_append.mp hw with hold | hnew
    · exact hfree w hold hp
    · obtain rfl := List.mem_singleton.mp hnew
      have hge := hp.1
      simp only at hge
      omega

theorem lost_append {a : Assembly α} (r : List α) (p : Nat) :
    Lost ⟨a.content ++ r, a.pending ++ [⟨a.content.length, r⟩], a.file⟩ p ↔ a.Lost p := by
  unfold Lost
  simp only [List.length_append, List.mem_append, List.mem_singleton]
  constructor
  · rintro ⟨hlt, hnone, hfree⟩
    have hnew : ¬ Write.Covers ⟨a.content.length, r⟩ p := hfree _ (Or.inr rfl)
    simp only [Write.Covers] at hnew
    refine ⟨by omega, hnone, ?_⟩
    intro w hw
    exact hfree w (Or.inl hw)
  · rintro ⟨hlt, hnone, hfree⟩
    refine ⟨by omega, hnone, ?_⟩
    rintro w (hw | rfl) hp
    · exact hfree w hw hp
    · have hge := hp.1
      simp only at hge
      omega

section Store

variable {content : List α} {before after : List (Write α)} {w : Write α} {file : Contents α} {n : Nat}

/-- The write that is carried out is apart from the others. -/
theorem Inv.apart_of_middle (h : Inv ⟨content, before ++ w :: after, file⟩) :
    (before ++ after).Pairwise (fun v w => ∀ p, ¬ (v.Covers p ∧ w.Covers p)) ∧
      ∀ v ∈ before ++ after, ∀ p, ¬ (w.Covers p ∧ v.Covers p) := by
  have hsymm : ∀ {v w : Write α}, (∀ p, ¬ (v.Covers p ∧ w.Covers p)) → ∀ p, ¬ (w.Covers p ∧ v.Covers p) := by
    intro v w hvw p hp
    exact hvw p ⟨hp.2, hp.1⟩
  have hcons := (List.pairwise_middle hsymm).mp h.apart
  obtain ⟨hw, hrest⟩ := List.pairwise_cons.mp hcons
  exact ⟨hrest, hw⟩

/-- Where the store puts something, the write covers. -/
theorem covers_of_stored {p : Nat} (h : w.off ≤ p ∧ p < w.off + (w.data.take n).length) :
    w.Covers p ∧ p < w.off + n := by
  obtain ⟨h₁, h₂⟩ := h
  rw [List.length_take] at h₂
  exact ⟨⟨h₁, by omega⟩, by omega⟩

theorem Inv.store (h : Inv ⟨content, before ++ w :: after, file⟩) :
    Inv ⟨content, before ++ after, file.storeAt w.off (w.data.take n)⟩ where
  inside := by
    intro v hv p hp
    exact h.inside v (List.mem_of_mem_middle hv) p hp
  apart := h.apart_of_middle.1
  stored := by
    intro p x hx
    by_cases hs : w.off ≤ p ∧ p < w.off + (w.data.take n).length
    · -- stored just now: content that only this write covered
      obtain ⟨hcov, hlt⟩ := covers_of_stored hs
      have hin := h.inside w (by simp) p hcov
      simp only at hx hin ⊢
      rw [Contents.storeAt_of_mem hs.1 hs.2, List.getElem?_take_of_lt (by omega)] at hx
      refine ⟨by rw [hin, hx], ?_⟩
      intro v hv hp
      exact h.apart_of_middle.2 v hv p ⟨hcov, hp⟩
    · simp only at hx ⊢
      rw [Contents.storeAt_of_notMem hs] at hx
      obtain ⟨hc, hfree⟩ := h.stored p x hx
      refine ⟨hc, ?_⟩
      intro v hv
      exact hfree v (List.mem_of_mem_middle hv)

/-- A store loses what its write covers from the cut on, and nothing else. -/
theorem lost_store (h : Inv ⟨content, before ++ w :: after, file⟩) (p : Nat) :
    Lost ⟨content, before ++ after, file.storeAt w.off (w.data.take n)⟩ p ↔
      Lost ⟨content, before ++ w :: after, file⟩ p ∨ (w.Covers p ∧ w.off + n ≤ p) := by
  have hmem : ∀ v, v ∈ before ++ w :: after ↔ v = w ∨ v ∈ before ++ after := by
    intro v
    simp only [List.mem_append, List.mem_cons]
    tauto
  unfold Lost
  simp only [Contents.storeAt_eq_none, hmem]
  constructor
  · rintro ⟨hlt, ⟨hs, hnone⟩, hfree⟩
    by_cases hcov : w.Covers p
    · refine Or.inr ⟨hcov, ?_⟩
      -- a covered place before the cut is stored
      by_contra hcut
      apply hs
      rw [List.length_take]
      have h₁ := hcov.1
      have h₂ := hcov.2
      omega
    · refine Or.inl ⟨hlt, hnone, ?_⟩
      rintro v (rfl | hv)
      · exact hcov
      · exact hfree v hv
  · rintro (⟨hlt, hnone, hfree⟩ | ⟨hcov, hcut⟩)
    · refine ⟨hlt, ⟨?_, hnone⟩, ?_⟩
      · intro hs
        exact hfree w (Or.inl rfl) (covers_of_stored hs).1
      · intro v hv
        exact hfree v (Or.inr hv)
    · refine ⟨h.lt_length (w := w) (by simp) hcov, ⟨?_, ?_⟩, ?_⟩
      · intro hs
        have hbefore := (covers_of_stored hs).2
        omega
      · cases hf : file p with
        | none => rfl
        | some x => exact absurd hcov ((h.stored p x hf).2 w (by simp))
      · intro v hv hp
        exact h.apart_of_middle.2 v hv p ⟨hcov, hp⟩

end Store

/-- **A step keeps the bookkeeping right.** -/
theorem Step.inv {a a' : Assembly α} {full : Prop} (hs : Step a full a') (h : a.Inv) : a'.Inv := by
  cases hs with
  | append content pending file r => exact Inv.append h r
  | store content before after w file n => exact Inv.store h

/-- **A position gets lost exactly by a write that is cut short.** -/
theorem Step.whole_iff {a a' : Assembly α} {full : Prop} (hs : Step a full a') (h : a.Inv) :
    a'.Whole ↔ a.Whole ∧ full := by
  cases hs with
  | append content pending file r =>
      have hl : ∀ p, _ ↔ _ := lost_append (a := ⟨content, pending, file⟩) r
      simp only [Whole, hl, and_true]
  | store content before after w file n =>
      simp only [Whole, lost_store h, not_or]
      constructor
      · intro hw
        refine ⟨fun p => (hw p).1, ?_⟩
        -- otherwise the first element left out is lost
        by_contra hcut
        apply (hw (w.off + n)).2
        exact ⟨⟨by omega, by omega⟩, by omega⟩
      · rintro ⟨hw, hfull⟩ p
        refine ⟨hw p, ?_⟩
        rintro ⟨hcov, hcut⟩
        have hlt := hcov.2
        omega

/-! ## When nothing is outstanding -/

/-- A file with no outstanding write holds its content exactly if nothing is lost. -/
theorem holds_iff_whole {a : Assembly α} (h : a.Inv) (hp : a.pending = []) :
    a.file.Holds a.content ↔ a.Whole := by
  constructor
  · rintro hh p ⟨hlt, hnone, -⟩
    rw [hh p, List.getElem?_eq_none_iff] at hnone
    omega
  · intro hw p
    cases hf : a.file p with
    | some x => exact (h.stored p x hf).1.symm
    | none =>
        symm
        rw [List.getElem?_eq_none_iff]
        by_contra hlt
        exact hw p ⟨by omega, hf, by simp [hp]⟩

end Assembly

/-! ## Files of fixed-size records -/

namespace Contents

variable {α : Type}

/-- Record `k` of a concatenation of records of `sz` elements starts at `k * sz`. -/
theorem getElem?_flatten {sz : Nat} {rows : List (List α)} (h : ∀ r ∈ rows, r.length = sz) {k : Nat}
    {r : List α} (hr : rows[k]? = some r) {j : Nat} (hj : j < sz) :
    rows.flatten[k * sz + j]? = r[j]? := by
  induction rows generalizing k with
  | nil => simp at hr
  | cons q rest ih =>
      have hq : q.length = sz := h q (by simp)
      have hrest : ∀ r ∈ rest, r.length = sz := by
        intro r hr
        exact h r (by simp [hr])
      rw [List.flatten_cons]
      cases k with
      | zero =>
          obtain rfl : q = r := by simpa using hr
          rw [Nat.zero_mul, Nat.zero_add, List.getElem?_append_left (by omega)]
      | succ k =>
          rw [Nat.succ_mul, List.getElem?_append_right (by omega), hq]
          rw [show k * sz + sz + j - sz = k * sz + j by omega]
          exact ih hrest (by simpa using hr)

theorem length_flatten {sz : Nat} {rows : List (List α)} (h : ∀ r ∈ rows, r.length = sz) :
    rows.flatten.length = rows.length * sz := by
  induction rows with
  | nil => simp
  | cons q rest ih =>
      have hq : q.length = sz := h q (by simp)
      have hrest := ih (fun r hr => h r (by simp [hr]))
      rw [List.flatten_cons, List.length_append, hq, hrest, List.length_cons, Nat.succ_mul]
      omega

end Contents

namespace Assembly

variable {α : Type}

/-- **A file of records holds every record at its place exactly if nothing is lost.** -/
theorem rows_iff_whole {a : Assembly α} (h : a.Inv) (hp : a.pending = []) {sz : Nat}
    {rows : List (List α)} (hc : a.content = rows.flatten) (hsz : ∀ r ∈ rows, r.length = sz) :
    (∀ k r, rows[k]? = some r → a.file.HoldsAt (k * sz) r) ↔ a.Whole := by
  rw [← holds_iff_whole h hp, hc]
  constructor
  · intro hrows p
    cases hf : a.file p with
    | some x => rw [← hc]; exact (h.stored p x hf).1.symm
    | none =>
        symm
        rw [List.getElem?_eq_none_iff, Contents.length_flatten hsz]
        by_contra hlt
        have hpos : 0 < sz := by
          rcases Nat.eq_zero_or_pos sz with h0 | h0
          · simp [h0] at hlt
          · exact h0
        -- the place is in record `p / sz`, which the file holds
        have hk : p / sz < rows.length := Nat.div_lt_of_lt_mul (by rw [Nat.mul_comm]; omega)
        have hr : rows[p / sz]? = some rows[p / sz] := List.getElem?_eq_getElem hk
        have hlen : rows[p / sz].length = sz := hsz _ (List.getElem_mem hk)
        have hmod : p % sz < sz := Nat.mod_lt p hpos
        have hat := hrows (p / sz) _ hr (p % sz) (by omega)
        rw [Nat.div_add_mod' p sz, hf, eq_comm, List.getElem?_eq_none_iff] at hat
        omega
  · intro hh k r hr j hj
    have hlen : r.length = sz := hsz r (List.mem_of_getElem? hr)
    rw [hh, Contents.getElem?_flatten hsz hr (by omega)]

end Assembly
