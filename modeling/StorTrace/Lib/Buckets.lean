import Mathlib.Algebra.BigOperators.Ring.Finset

/-!
# `Lib.Buckets` — weights collected in buckets, and buckets laid out in rows

Buckets are laid out between the extremes of a sequence (`best_spec`). Every element of it has a bucket and a
weight. The weights of the buckets add up to the weight of the sequence (`sum_weightIn`). Buckets laid out row
by row in a grid each have exactly one cell (`existsUnique_cell`).
-/

namespace Buckets

section Range

variable {α : Type} (better : α → α → Prop) [DecidableRel better]

/-- The best value of a sequence: `a`, or the first that nothing later is better than. -/
def best (a : α) (vs : List α) : α := vs.foldl (fun m v => if better v m then v else m) a

theorem best_concat (a : α) (vs : List α) (v : α) :
    best better a (vs ++ [v]) = if better v (best better a vs) then v else best better a vs := by
  rw [best, List.foldl_append]
  rfl

variable {better} (le : α → α → Prop)

/-- **The best value** is one of the values, or the one to begin with, and none is above it. -/
theorem best_spec (hrefl : ∀ v, le v v) (htrans : ∀ {u v w}, le u v → le v w → le u w)
    (hbetter : ∀ {v m}, better v m → le m v) (hworse : ∀ {v m}, ¬ better v m → le v m) (a : α) (vs : List α) :
    le a (best better a vs) ∧ (∀ v ∈ vs, le v (best better a vs)) ∧
      (best better a vs = a ∨ best better a vs ∈ vs) := by
  induction vs using List.reverseRecOn with
  | nil => exact ⟨hrefl a, by simp, Or.inl rfl⟩
  | append_singleton pre v ih =>
      obtain ⟨hle, hall, hmem⟩ := ih
      rw [best_concat]
      split
      · next h =>
        refine ⟨htrans hle (hbetter h), ?_, Or.inr (by simp)⟩
        intro u hu
        rcases List.mem_append.mp hu with hu | hu
        · exact htrans (hall u hu) (hbetter h)
        · rw [List.mem_singleton.mp hu]
          exact hrefl v
      · next h =>
        refine ⟨hle, ?_, hmem.imp_right (List.mem_append_left _)⟩
        intro u hu
        rcases List.mem_append.mp hu with hu | hu
        · exact hall u hu
        · rw [List.mem_singleton.mp hu]
          exact hworse h

/-- Looking for the largest machine word, from `a` on. -/
theorem largest_spec (a : UInt64) (vs : List UInt64) :
    a ≤ best (· > ·) a vs ∧ (∀ v ∈ vs, v ≤ best (· > ·) a vs) ∧ (best (· > ·) a vs = a ∨ best (· > ·) a vs ∈ vs) :=
  best_spec (· ≤ ·) UInt64.le_refl UInt64.le_trans UInt64.le_of_lt UInt64.not_lt.mp a vs

/-- Looking for the smallest one. -/
theorem smallest_spec (a : UInt64) (vs : List UInt64) :
    best (· < ·) a vs ≤ a ∧ (∀ v ∈ vs, best (· < ·) a vs ≤ v) ∧ (best (· < ·) a vs = a ∨ best (· < ·) a vs ∈ vs) :=
  best_spec (fun v w => w ≤ v) UInt64.le_refl (fun h h' => UInt64.le_trans h' h) UInt64.le_of_lt UInt64.not_lt.mp a vs

end Range

section Weights

variable {σ : Type} (key weight : σ → Nat)

/-- The weight in bucket `b`. -/
def weightIn (seq : List σ) (b : Nat) : Nat := ((seq.filter (fun s => key s = b)).map weight).sum

@[simp] theorem weightIn_nil (b : Nat) : weightIn key weight [] b = 0 := rfl

theorem weightIn_cons (s : σ) (rest : List σ) (b : Nat) :
    weightIn key weight (s :: rest) b = (if key s = b then weight s else 0) + weightIn key weight rest b := by
  unfold weightIn
  by_cases hs : key s = b
  · simp [hs]
  · simp [hs]

theorem weightIn_concat (s : σ) (pre : List σ) (b : Nat) :
    weightIn key weight (pre ++ [s]) b = weightIn key weight pre b + if key s = b then weight s else 0 := by
  unfold weightIn
  by_cases hs : key s = b
  · simp [List.filter_append, hs]
  · simp [List.filter_append, hs]

/-- **The buckets hold everything.** -/
theorem sum_weightIn {seq : List σ} {n : Nat} (h : ∀ s ∈ seq, key s < n) :
    ∑ b ∈ Finset.range n, weightIn key weight seq b = (seq.map weight).sum := by
  induction seq with
  | nil => simp
  | cons s rest ih =>
      obtain ⟨hs, hrest⟩ := List.forall_mem_cons.mp h
      simp only [weightIn_cons, Finset.sum_add_distrib, ih hrest, Finset.sum_ite_eq, Finset.mem_range, hs, if_true,
        List.map_cons, List.sum_cons]

/-- One bucket does not hold more than everything. -/
theorem weightIn_le (seq : List σ) (b : Nat) : weightIn key weight seq b ≤ (seq.map weight).sum := by
  induction seq with
  | nil => simp
  | cons s rest ih =>
      rw [weightIn_cons, List.map_cons, List.sum_cons]
      split <;> omega

/-- The buckets below `n`. -/
def filled (n : Nat) (seq : List σ) : List Int := (List.range n).map (fun b => (weightIn key weight seq b : Int))

@[simp] theorem length_filled (n : Nat) (seq : List σ) : (filled key weight n seq).length = n := by
  simp [filled]

theorem filled_nil (n : Nat) : filled key weight n [] = List.replicate n 0 := by
  simp [filled, List.map_const']

theorem getElem?_filled {n b : Nat} (seq : List σ) (hb : b < n) :
    (filled key weight n seq)[b]? = some (weightIn key weight seq b : Int) := by
  rw [filled, List.getElem?_map, List.getElem?_range hb, Option.map_some]

/-- **One more element** changes its bucket and no other. -/
theorem modify_filled (n : Nat) (pre : List σ) (s : σ) :
    (filled key weight n pre).modify (key s) (· + weight s) = filled key weight n (pre ++ [s]) := by
  apply List.ext_getElem?
  intro b
  by_cases hb : b < n
  · rw [List.getElem?_modify, getElem?_filled _ _ _ hb, getElem?_filled _ _ _ hb, weightIn_concat]
    by_cases hk : key s = b
    · simp [hk]
    · simp [hk]
  · rw [List.getElem?_eq_none (by simp; omega), List.getElem?_eq_none (by simp; omega)]

/-- **A loop that adds each element to its bucket** leaves the buckets filled: it is enough to look at one
    element after those before it. -/
theorem foldlM_filled {m : Type → Type} [Monad m] [LawfulMonad m] {step : List Int → σ → m (List Int)} {n : Nat}
    (seq pre : List σ) (hstep : ∀ before s after, pre ++ seq = before ++ s :: after →
      step (filled key weight n before) s = pure (filled key weight n (before ++ [s]))) :
    seq.foldlM step (filled key weight n pre) = pure (filled key weight n (pre ++ seq)) := by
  induction seq generalizing pre with
  | nil => rw [List.append_nil, List.foldlM_nil]
  | cons s rest ih =>
      have hsplit : pre ++ s :: rest = (pre ++ [s]) ++ rest := by simp
      rw [List.foldlM_cons, hstep pre s rest rfl, pure_bind, hsplit]
      exact ih (pre ++ [s]) (fun before s' after h => hstep before s' after (hsplit.trans h))

theorem weightIn_append (xs ys : List σ) (b : Nat) :
    weightIn key weight (xs ++ ys) b = weightIn key weight xs b + weightIn key weight ys b := by
  rw [weightIn, List.filter_append, List.map_append, List.sum_append]
  rfl

/-- Where nothing has the key `b`, bucket `b` is empty. -/
theorem weightIn_eq_zero {seq : List σ} {b : Nat} (h : ∀ s ∈ seq, key s ≠ b) : weightIn key weight seq b = 0 := by
  rw [weightIn, List.filter_eq_nil_iff.mpr (fun s hs => by simpa using h s hs)]
  rfl

/-- **A loop that stops where a bucket would hold more than `bound`** comes to its end exactly if none ever does. -/
theorem foldlM_filled_iff {step : List Int → σ → Option (List Int)} {n bound : Nat} {bucket : List Int} (seq pre : List σ)
    (hstep : ∀ before s after, pre ++ seq = before ++ s :: after → step (filled key weight n before) s =
      if weightIn key weight (before ++ [s]) (key s) ≤ bound then some (filled key weight n (before ++ [s])) else none)
    (hpre : ∀ b, weightIn key weight pre b ≤ bound) :
    seq.foldlM step (filled key weight n pre) = some bucket ↔
      (∀ b, weightIn key weight (pre ++ seq) b ≤ bound) ∧ bucket = filled key weight n (pre ++ seq) := by
  induction seq generalizing pre with
  | nil =>
      rw [List.append_nil, List.foldlM_nil]
      exact ⟨fun h => ⟨hpre, (Option.some.inj h).symm⟩, fun h => congrArg some h.2.symm⟩
  | cons s rest ih =>
      have hsplit : pre ++ s :: rest = (pre ++ [s]) ++ rest := by simp
      rw [List.foldlM_cons, hstep pre s rest rfl]
      by_cases hs : weightIn key weight (pre ++ [s]) (key s) ≤ bound
      · have hpre' : ∀ b, weightIn key weight (pre ++ [s]) b ≤ bound := by
          intro b
          by_cases hb : key s = b
          · exact hb ▸ hs
          · rw [weightIn_concat, if_neg hb, Nat.add_zero]
            exact hpre b
        rw [if_pos hs, hsplit]
        exact ih (pre ++ [s]) (fun before s' after h => hstep before s' after (hsplit.trans h)) hpre'
      · rw [if_neg hs]
        refine iff_of_false (fun h => absurd h (by simp)) (fun h => hs ?_)
        have hall := h.1 (key s)
        rw [hsplit, weightIn_append] at hall
        exact Nat.le_trans (Nat.le_add_right _ _) hall

end Weights

/-- A list of one number for each bucket adds up as the buckets do. -/
theorem sum_map_range (f : Nat → Nat) (n : Nat) : ((List.range n).map f).sum = ∑ b ∈ Finset.range n, f b := by
  induction n with
  | zero => rfl
  | succ n ih => rw [List.range_succ, List.map_append, List.sum_append, ih, Finset.sum_range_succ]; simp

/-- **The buckets add up to everything.** -/
theorem sum_filled {σ : Type} {key weight : σ → Nat} {seq : List σ} {n : Nat} (h : ∀ s ∈ seq, key s < n) :
    (filled key weight n seq).sum = ((seq.map weight).sum : Nat) := by
  rw [← sum_weightIn key weight h, ← sum_map_range, filled, Nat.cast_list_sum, List.map_map]
  rfl

/-! ## Rows of a grid -/

/-- **Every bucket has one cell** in a grid of `width` columns that has a row more than full rows are
    needed. -/
theorem existsUnique_cell {width partition b : Nat} (hw : 0 < width) (hb : b < partition) :
    ∃! c : Nat × Nat, c.1 < partition / width + 1 ∧ c.2 < width ∧ c.1 * width + c.2 = b := by
  refine ⟨(b / width, b % width), ⟨?_, Nat.mod_lt b hw, ?_⟩, ?_⟩
  · show b / width < partition / width + 1
    exact Nat.lt_succ_of_le (Nat.div_le_div_right (Nat.le_of_lt hb))
  · show b / width * width + b % width = b
    rw [Nat.mul_comm]
    exact Nat.div_add_mod b width
  · rintro ⟨i, j⟩ ⟨-, hj, hij⟩
    have hcomm : j + width * i = b := by
      rw [← hij, Nat.mul_comm]
      exact Nat.add_comm _ _
    have hi : b / width = i := by
      rw [← hcomm, Nat.add_mul_div_left _ _ hw, Nat.div_eq_of_lt hj, Nat.zero_add]
    have hj' : b % width = j := by
      rw [← hcomm, Nat.add_mul_mod_self_left, Nat.mod_eq_of_lt hj]
    rw [hi, hj']

end Buckets
