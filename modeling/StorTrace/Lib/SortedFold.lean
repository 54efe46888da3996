import Mathlib.Data.List.Forall2

/-!
# `Lib.SortedFold` — folding over what an unstable sort returns

A sort that is not stable may return tied elements in any order. A fold over its result does not depend on
the order, if tied elements may change places in it (`agree_foldlM`).

Steps may fail. Failures are compared by an equivalence, so that a fold whose failures depend on the order
can still be shown to fail either way.
-/

namespace SortedFold

variable {ε σ τ α : Type}

/-- The same value, or errors related by `R`. -/
inductive Agree (R : ε → ε → Prop) : Except ε σ → Except ε σ → Prop
  | ok (s : σ) : Agree R (.ok s) (.ok s)
  | error {e e' : ε} (h : R e e') : Agree R (.error e) (.error e')

namespace Agree

variable {R : ε → ε → Prop} {x y z : Except ε σ}

theorem refl (hR : Equivalence R) (x : Except ε σ) : Agree R x x := by
  cases x with
  | ok s => exact .ok s
  | error e => exact .error (hR.refl e)

theorem symm (hR : Equivalence R) (h : Agree R x y) : Agree R y x := by
  cases h with
  | ok s => exact .ok s
  | error h => exact .error (hR.symm h)

theorem trans (hR : Equivalence R) (h : Agree R x y) (h' : Agree R y z) : Agree R x z := by
  cases h with
  | ok s => exact h'
  | error h =>
      cases h' with
      | error h' => exact .error (hR.trans h h')

/-- Going on alike from computations that agree. -/
theorem bind {k k' : σ → Except ε τ} (h : Agree R x y) (hk : ∀ s, x = .ok s → Agree R (k s) (k' s)) :
    Agree R (x >>= k) (y >>= k') := by
  cases h with
  | ok s => exact hk s rfl
  | error h => exact .error h

theorem map (h : Agree R x y) (f : σ → τ) : Agree R (x.map f) (y.map f) := by
  cases h with
  | ok s => exact .ok (f s)
  | error h => exact .error h

theorem mono {R' : ε → ε → Prop} (h : Agree R x y) (hR : ∀ e e', R e e' → R' e e') : Agree R' x y := by
  cases h with
  | ok s => exact .ok s
  | error h => exact .error (hR _ _ h)

theorem eq (h : Agree Eq x y) : x = y := by
  cases h with
  | ok s => rfl
  | error h => rw [h]

end Agree

section Fold

variable (R : ε → ε → Prop) (Inv : σ → Prop) (le : α → α → Prop) (step : σ → α → Except ε σ)

/-- The steps of `l` keep the invariant. -/
def Keeps (l : List α) : Prop := ∀ a ∈ l, ∀ s s', Inv s → step s a = .ok s' → Inv s'

/-- **Tied elements of `l` may change places**, as long as the invariant holds. -/
def TiesCommute (l : List α) : Prop :=
  ∀ a ∈ l, ∀ b ∈ l, le a b → le b a → ∀ s, Inv s →
    Agree R (step s a >>= fun s => step s b) (step s b >>= fun s => step s a)

variable {R Inv le step} {l l' pre post : List α} {a : α}

theorem Keeps.cons (h : Keeps Inv step (a :: l)) : Keeps Inv step l :=
  fun b hb => h b (List.mem_cons_of_mem a hb)

theorem TiesCommute.cons (h : TiesCommute R Inv le step (a :: l)) : TiesCommute R Inv le step l :=
  fun b hb c hc => h b (List.mem_cons_of_mem a hb) c (List.mem_cons_of_mem a hc)

/-- An element may be moved in front of those it is tied with. -/
theorem agree_foldlM_move (hR : Equivalence R) (hkeep : Keeps Inv step (a :: pre))
    (hcomm : TiesCommute R Inv le step (a :: pre)) (htied : ∀ b ∈ pre, le a b ∧ le b a) {s : σ} (hs : Inv s) :
    Agree R ((pre ++ a :: post).foldlM step s) ((a :: (pre ++ post)).foldlM step s) := by
  induction pre generalizing s with
  | nil => exact Agree.refl hR _
  | cons b rest ih =>
      have hb : b ∈ a :: b :: rest := by simp
      have hsub : ∀ c ∈ a :: rest, c ∈ a :: b :: rest := by
        intro c hc
        rcases List.mem_cons.mp hc with rfl | hc
        · simp
        · simp [hc]
      -- first `a` moves in front of the rest, then it changes places with `b`
      have hrest : Agree R ((b :: (rest ++ a :: post)).foldlM step s) ((b :: a :: (rest ++ post)).foldlM step s) := by
        rw [List.foldlM_cons, List.foldlM_cons]
        refine (Agree.refl hR (step s b)).bind (fun s₁ h₁ => ?_)
        apply ih
        · exact fun c hc => hkeep c (hsub c hc)
        · exact fun c hc d hd => hcomm c (hsub c hc) d (hsub d hd)
        · exact fun c hc => htied c (List.mem_cons_of_mem b hc)
        · exact hkeep b hb s s₁ hs h₁
      have hswap : Agree R ((b :: a :: (rest ++ post)).foldlM step s) ((a :: b :: (rest ++ post)).foldlM step s) := by
        obtain ⟨hab, hba⟩ := htied b (by simp)
        have hfold (c d : α) : (c :: d :: (rest ++ post)).foldlM step s =
            (step s c >>= fun s => step s d) >>= fun s => (rest ++ post).foldlM step s := by
          rw [List.foldlM_cons]
          simp only [List.foldlM_cons, bind_assoc]
        rw [hfold, hfold]
        exact (hcomm b hb a (by simp) hba hab s hs).bind (fun s₁ _ => Agree.refl hR _)
      exact hrest.trans hR hswap

/-- **A fold over sorted elements does not depend on the order of those that are tied.** -/
theorem agree_foldlM (hR : Equivalence R) (hsort : l.Pairwise le) (hsort' : l'.Pairwise le) (hperm : l.Perm l')
    (hkeep : Keeps Inv step l) (hcomm : TiesCommute R Inv le step l) {s : σ} (hs : Inv s) :
    Agree R (l.foldlM step s) (l'.foldlM step s) := by
  -- by induction on the first order, whose head is looked for in the second
  induction l generalizing l' s with
  | nil =>
      rw [hperm.nil_eq]
      exact Agree.refl hR _
  | cons a l ih =>
      obtain ⟨pre, post, rfl⟩ := List.append_of_mem (hperm.subset (List.mem_cons_self (a := a) (l := l)))
      have hrest : l.Perm (pre ++ post) := (hperm.trans List.perm_middle).cons_inv
      have hpre : ∀ b ∈ pre, b ∈ l := fun b hb => hrest.symm.subset (List.mem_append_left post hb)
      -- what the second order has in front of `a` is tied with it
      have htied : ∀ b ∈ pre, le a b ∧ le b a := by
        intro b hb
        exact ⟨List.rel_of_pairwise_cons hsort (hpre b hb),
          (List.pairwise_append.mp hsort').2.2 b hb a (List.mem_cons_self)⟩
      have hsub : ∀ b ∈ a :: pre, b ∈ a :: l := by
        intro b hb
        rcases List.mem_cons.mp hb with rfl | hb
        · simp
        · simp [hpre b hb]
      have hmove : Agree R ((pre ++ a :: post).foldlM step s) ((a :: (pre ++ post)).foldlM step s) := by
        apply agree_foldlM_move hR _ _ htied hs
        · exact fun b hb => hkeep b (hsub b hb)
        · exact fun b hb c hc => hcomm b (hsub b hb) c (hsub c hc)
      refine Agree.trans hR ?_ (hmove.symm hR)
      rw [List.foldlM_cons, List.foldlM_cons]
      refine (Agree.refl hR (step s a)).bind (fun s₁ h₁ => ?_)
      apply ih hsort.of_cons _ hrest hkeep.cons hcomm.cons
      · exact hkeep a (List.mem_cons_self) s s₁ hs h₁
      · exact hsort'.sublist (List.Sublist.append_left (List.sublist_cons_self a post) pre)

/-- A fold over elements that each stand for another is a fold over those. -/
theorem foldlM_forall₂ {β : Type} {r : α → β → Prop} {step' : σ → β → Except ε σ} {l : List α} {m : List β}
    (h : List.Forall₂ r l m) (hstep : ∀ s a b, r a b → step s a = step' s b) (s : σ) :
    l.foldlM step s = m.foldlM step' s := by
  induction h generalizing s with
  | nil => rfl
  | cons hab _ ih =>
      rw [List.foldlM_cons, List.foldlM_cons, hstep s _ _ hab]
      exact bind_congr ih

end Fold

end SortedFold
