import Mathlib.Data.Finset.Card
import StorTrace.Lib.Cache

/-!
# `Lib.Turnover` — what comes into a map, what leaves it, and what it holds

A step that touches the entry of one key at most puts at most one entry into a map and takes at most one out of it; a
step that replaces an entry does both. Over a run the two kinds of steps are counted, and the difference is what the
map holds (`KeyedView.balance`).
-/

/-! ## Counting the steps of a run -/

namespace Machine

variable {σ ε ο : Type} {M : Machine σ ε ο}

/-- The events of a run that happen in a state with `C`. -/
def stepsWith (M : Machine σ ε ο) (C : σ → ε → Prop) [∀ s e, Decidable (C s e)] (evs : List ε) : List ε :=
  Run.collect (fun pre e => if C (M.exec pre) e then [e] else []) evs

section Counting

variable {C D E : σ → ε → Prop} [∀ s e, Decidable (C s e)] [∀ s e, Decidable (D s e)] [∀ s e, Decidable (E s e)]

theorem length_stepsWith_concat (evs : List ε) (e : ε) :
    (M.stepsWith C (evs ++ [e])).length = (M.stepsWith C evs).length + if C (M.exec evs) e then 1 else 0 := by
  rw [stepsWith, Run.collect_concat, List.length_append, ← stepsWith]
  split <;> rfl

/-- Steps of two kinds that exclude each other. -/
theorem length_stepsWith_add (h : ∀ s e, C s e ↔ D s e ∨ E s e) (hnot : ∀ s e, D s e → ¬ E s e) (evs : List ε) :
    (M.stepsWith C evs).length = (M.stepsWith D evs).length + (M.stepsWith E evs).length := by
  induction evs using List.reverseRecOn with
  | nil => rfl
  | append_singleton evs e ih =>
      rw [length_stepsWith_concat, length_stepsWith_concat, length_stepsWith_concat, ih]
      have hkind := h (M.exec evs) e
      by_cases hD : D (M.exec evs) e
      · have hE := hnot _ _ hD
        rw [if_pos (hkind.mpr (Or.inl hD)), if_pos hD, if_neg hE]
        omega
      · by_cases hE : E (M.exec evs) e
        · rw [if_pos (hkind.mpr (Or.inr hE)), if_neg hD, if_pos hE]
          omega
        · rw [if_neg (fun hC => (hkind.mp hC).elim hD hE), if_neg hD, if_neg hE]
          omega

/-- Records of which the steps of one kind emit one, and the others none. -/
theorem length_filterMap_emit {β : Type} {f : ο → Option β}
    (h : ∀ s e, ((M.step s e).2.filterMap f).length = if C s e then 1 else 0) (evs : List ε) :
    ((M.emit evs).filterMap f).length = (M.stepsWith C evs).length := by
  induction evs using List.reverseRecOn with
  | nil => rfl
  | append_singleton evs e ih =>
      rw [emit_concat, List.filterMap_append, List.length_append, ih, out, h, length_stepsWith_concat]

/-- A kind of step that does not occur. -/
theorem stepsWith_eq_nil {evs : List ε} (h : Run.AllSteps (fun pre e => ¬ C (M.exec pre) e) evs) :
    M.stepsWith C evs = [] := by
  induction evs using List.reverseRecOn with
  | nil => rfl
  | append_singleton evs e ih =>
      obtain ⟨hevs, he⟩ := Run.allSteps_concat.mp h
      rw [stepsWith, Run.collect_concat, ← stepsWith, ih hevs, if_neg he]
      rfl

end Counting

end Machine

/-! ## Entries -/

namespace CacheAction

variable {ν : Type}

/-- The action stores a fresh entry. -/
def Puts : CacheAction ν → Prop
  | .put _ => True
  | _ => False

instance : DecidablePred (Puts (ν := ν)) := fun a =>
  match a with
  | .put _ => .isTrue trivial
  | .keep => .isFalse id
  | .update _ => .isFalse id
  | .drop => .isFalse id

instance : DecidablePred (Keeps (ν := ν)) := fun a =>
  match a with
  | .keep => .isTrue trivial
  | .update _ => .isTrue trivial
  | .put _ => .isFalse id
  | .drop => .isFalse id

theorem puts_iff {a : CacheAction ν} : a.Puts ↔ ∃ v, a = .put v := by
  cases a <;> simp [Puts]

end CacheAction

namespace BpfHash

variable {κ ν : Type} [DecidableEq κ] {n : ℕ}

/-- The keys of a map. -/
def keySet (m : BpfHash κ ν n) : Finset κ := m.entries.keys.toFinset

theorem mem_keySet {m : BpfHash κ ν n} {k : κ} : k ∈ m.keySet ↔ m.lookupElem k ≠ none := by
  rw [keySet, List.mem_toFinset, ← AList.mem_keys, Ne, lookupElem_eq_none, not_not]

theorem card_keySet_le (m : BpfHash κ ν n) : m.keySet.card ≤ n :=
  Nat.le_trans (List.toFinset_card_le _) m.bounded

end BpfHash

/-- A machine seen through a map of which an event touches one key at most. -/
structure KeyedView {σ ε ο : Type} (M : Machine σ ε ο) (κ ν : Type) extends CacheView M κ ν where
  keys : σ → Finset κ
  mem_keys : ∀ s k, k ∈ keys s ↔ get s k ≠ none
  key : ε → Option κ
  keeps_of_ne : ∀ s e k, key e ≠ some k → (act s e k).Keeps

namespace KeyedView

variable {σ ε ο κ ν : Type} {M : Machine σ ε ο} (V : KeyedView M κ ν)

/-- The event puts an entry into the map. -/
def Stores (s : σ) (e : ε) : Prop := ∃ k ∈ V.key e, (V.act s e k).Puts

/-- The event takes an entry out of the map, perhaps to replace it. -/
def Removes (s : σ) (e : ε) : Prop := ∃ k ∈ V.key e, V.get s k ≠ none ∧ ¬ (V.act s e k).Keeps

instance (s : σ) (e : ε) : Decidable (V.Stores s e) := inferInstanceAs (Decidable (∃ k ∈ V.key e, _))

instance (s : σ) (e : ε) : Decidable (V.Removes s e) := inferInstanceAs (Decidable (∃ k ∈ V.key e, _ ∧ ¬ _))

variable {V}

theorem mem_keys_step_of_ne {s : σ} {e : ε} {k : κ} (h : V.key e ≠ some k) :
    k ∈ V.keys (M.step s e).1 ↔ k ∈ V.keys s := by
  rw [V.mem_keys, V.mem_keys, V.get_step, Ne, (V.keeps_of_ne s e k h).apply_eq_none]

/-- An entry more or less, for the one key an event touches. -/
theorem card_keys_of_erase [DecidableEq κ] {A B : Finset κ} {k : κ} (h : ∀ j ≠ k, j ∈ A ↔ j ∈ B) :
    A.card + (if k ∈ B then 1 else 0) = B.card + if k ∈ A then 1 else 0 := by
  have herase : A.erase k = B.erase k := by
    ext j
    rw [Finset.mem_erase, Finset.mem_erase]
    exact and_congr_right (h j)
  have hcard := congrArg Finset.card herase
  by_cases hA : k ∈ A <;> by_cases hB : k ∈ B
  · have hA' := Finset.card_erase_add_one hA
    have hB' := Finset.card_erase_add_one hB
    simp only [hA, hB, if_true]
    omega
  · have hA' := Finset.card_erase_add_one hA
    rw [Finset.erase_eq_of_notMem hB] at hcard
    simp only [hA, hB, if_true, if_false]
    omega
  · have hB' := Finset.card_erase_add_one hB
    rw [Finset.erase_eq_of_notMem hA] at hcard
    simp only [hA, hB, if_true, if_false]
    omega
  · rw [Finset.erase_eq_of_notMem hA, Finset.erase_eq_of_notMem hB] at hcard
    simp only [hA, hB, if_false]
    omega

/-- **One event**: what the map holds after it and what left, against what it held and what came in. -/
theorem card_keys_step (s : σ) (e : ε) :
    (V.keys (M.step s e).1).card + (if V.Removes s e then 1 else 0) =
      (V.keys s).card + if V.Stores s e then 1 else 0 := by
  classical
  cases hkey : V.key e with
  | none =>
      have hsame : V.keys (M.step s e).1 = V.keys s := by
        ext k
        exact mem_keys_step_of_ne (by simp [hkey])
      have hremoves : ¬ V.Removes s e := by simp [Removes, hkey]
      have hstores : ¬ V.Stores s e := by simp [Stores, hkey]
      rw [hsame, if_neg hremoves, if_neg hstores]
  | some k =>
      have hothers : ∀ j ≠ k, j ∈ V.keys (M.step s e).1 ↔ j ∈ V.keys s := by
        intro j hj
        refine mem_keys_step_of_ne ?_
        rw [hkey]
        exact fun h => hj (Option.some.inj h).symm
      have hcard := card_keys_of_erase hothers
      have hafter : k ∈ V.keys (M.step s e).1 ↔ (V.act s e k).apply (V.get s k) ≠ none := by
        rw [V.mem_keys, V.get_step]
      have hbefore : k ∈ V.keys s ↔ V.get s k ≠ none := V.mem_keys s k
      have hremoves : V.Removes s e ↔ V.get s k ≠ none ∧ ¬ (V.act s e k).Keeps := by simp [Removes, hkey]
      have hstores : V.Stores s e ↔ (V.act s e k).Puts := by simp [Stores, hkey]
      -- by the four actions on the entry of the key
      cases hact : V.act s e k with
      | keep =>
          rw [hact] at hafter hremoves hstores
          simp only [hafter, hbefore, CacheAction.apply_keep] at hcard
          rw [if_neg (by simp [hremoves]), if_neg (by simp [hstores, CacheAction.Puts])]
          omega
      | update f =>
          rw [hact] at hafter hremoves hstores
          simp only [hafter, hbefore, CacheAction.apply_update, ne_eq, Option.map_eq_none_iff] at hcard
          rw [if_neg (by simp [hremoves]), if_neg (by simp [hstores, CacheAction.Puts])]
          omega
      | put v =>
          rw [hact] at hafter hremoves hstores
          have hin : k ∈ V.keys (M.step s e).1 := hafter.mpr (by simp)
          simp only [hremoves, hstores, CacheAction.not_keeps_put, not_false_eq_true, and_true, ← hbefore,
            CacheAction.Puts, if_true]
          simpa [hin] using hcard
      | drop =>
          rw [hact] at hafter hremoves hstores
          have hout : k ∉ V.keys (M.step s e).1 := fun h => hafter.mp h (by simp)
          simp only [hremoves, hstores, CacheAction.not_keeps_drop, not_false_eq_true, and_true, ← hbefore,
            CacheAction.Puts, if_false]
          simpa [hout] using hcard

/-- **Over a run, what came into the map is what left it and what it holds.** -/
theorem balance (V : KeyedView M κ ν) (evs : List ε) :
    (M.stepsWith V.Stores evs).length = (M.stepsWith V.Removes evs).length + (V.keys (M.exec evs)).card := by
  induction evs using List.reverseRecOn with
  | nil =>
      have hempty : V.keys M.init = ∅ := by
        refine Finset.eq_empty_of_forall_notMem (fun k hk => ?_)
        exact (V.mem_keys _ k).mp hk (V.get_init k)
      show 0 = 0 + (V.keys M.init).card
      rw [hempty]
      rfl
  | append_singleton evs e ih =>
      have hstep := card_keys_step (V := V) (M.exec evs) e
      rw [Machine.length_stepsWith_concat, Machine.length_stepsWith_concat, Machine.exec_concat]
      omega

end KeyedView
