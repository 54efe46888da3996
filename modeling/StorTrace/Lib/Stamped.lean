import Mathlib.Order.Defs.PartialOrder
import Mathlib.Data.Fintype.Basic
import StorTrace.Lib.System

/-!
# `Lib.Stamped` — handlers that read a clock before they publish

On any number of processors handlers run in two steps: a handler **enters**, reading a clock that all
processors share, and later **leaves**, publishing a record under the reading it took, or none. Between the
two steps other processors enter and leave as they like, so records can be published in another order than
the clock was read in.

`run_ordered` says that they are not, if no handler publishes while one with an earlier reading is still
inside.
-/

/-- A program of such handlers: `enter` may find nothing to do, and `other` is what the program does besides.
    The last fields say that a handler keeps the reading it took. -/
structure Stamper (σ ε α η γ ο τ : Type) where
  init : σ
  start : τ
  time : α → τ
  other : σ → ε → Option (σ × List ο)
  enter : σ → α → σ × Option η
  leave : σ → η → γ → σ × List ο
  stamp : η → τ
  stampOf : ο → Option τ
  other_stamps : ∀ {s e q}, other s e = some q → q.2.filterMap stampOf = []
  enter_stamp : ∀ {s a h}, (enter s a).2 = some h → stamp h = time a
  leave_stamps : ∀ s h g, (leave s h g).2.filterMap stampOf = [] ∨ (leave s h g).2.filterMap stampOf = [stamp h]

namespace Stamper

variable {σ ε α η γ ο τ : Type}

/-- The state of the program, the handlers that are inside, and the latest reading. -/
structure State (π σ η τ : Type) where
  kernel : σ
  inside : π → Option η
  now : τ

/-- A step of a processor. -/
inductive Step (π ε α γ : Type)
  | other (e : ε)
  | enter (p : π) (a : α)
  | leave (p : π) (g : γ)
deriving DecidableEq

variable (M : Stamper σ ε α η γ ο τ) (π : Type) [DecidableEq π]

section System

variable [LE τ] [DecidableLE τ]

/-- One step. A processor enters one handler at a time, and no reading is below an earlier one. -/
def step (s : State π σ η τ) : Step π ε α γ → Option (State π σ η τ × List ο)
  | .other e => (M.other s.kernel e).map (fun q => ({ s with kernel := q.1 }, q.2))
  | .enter p a =>
      if (s.inside p).isNone ∧ s.now ≤ M.time a then
        some (⟨(M.enter s.kernel a).1, Function.update s.inside p (M.enter s.kernel a).2, M.time a⟩, [])
      else none
  | .leave p g =>
      (s.inside p).map (fun h =>
        ({ s with kernel := (M.leave s.kernel h g).1, inside := Function.update s.inside p none },
          (M.leave s.kernel h g).2))

/-- The processors `π`, all of them outside. -/
def system : System (State π σ η τ) (Step π ε α γ) ο where
  init := ⟨M.init, fun _ => none, M.start⟩
  step := M.step π

/-- **Nobody is overtaken**: a handler that publishes has no earlier reading than one that is still inside. -/
def InOrder (s : State π σ η τ) : Step π ε α γ → Prop
  | .other _ => True
  | .enter _ _ => True
  | .leave p g => ∀ h ∈ s.inside p, (M.leave s.kernel h g).2.filterMap M.stampOf ≠ [] →
      ∀ q, q ≠ p → ∀ h' ∈ s.inside q, M.stamp h ≤ M.stamp h'

instance [Fintype π] (s : State π σ η τ) (e : Step π ε α γ) : Decidable (M.InOrder π s e) :=
  match e with
  | .other _ => inferInstanceAs (Decidable True)
  | .enter _ _ => inferInstanceAs (Decidable True)
  | .leave p g => inferInstanceAs (Decidable (∀ h ∈ s.inside p, (M.leave s.kernel h g).2.filterMap M.stampOf ≠ [] →
      ∀ q, q ≠ p → ∀ h' ∈ s.inside q, M.stamp h ≤ M.stamp h'))

/-- A handler that leaves publishes its record. -/
def Publishes (s : State π σ η τ) : Step π ε α γ → Prop
  | .other _ => True
  | .enter _ _ => True
  | .leave p g => ∀ h ∈ s.inside p, (M.leave s.kernel h g).2.filterMap M.stampOf ≠ []

end System

variable [Preorder τ] [DecidableLE τ] {M π}

/-- **What holds while nobody is overtaken**: the readings published so far are in order, and none is above
    that of a handler still inside. -/
structure Ordered (M : Stamper σ ε α η γ ο τ) (s : State π σ η τ) (published : List ο) : Prop where
  sorted : (published.filterMap M.stampOf).Pairwise (· ≤ ·)
  published_le_now : ∀ x ∈ published.filterMap M.stampOf, x ≤ s.now
  inside_le_now : ∀ p h, s.inside p = some h → M.stamp h ≤ s.now
  published_le_inside : ∀ x ∈ published.filterMap M.stampOf, ∀ p h, s.inside p = some h → x ≤ M.stamp h

variable {s s' : State π σ η τ} {published o : List ο}

omit [Preorder τ] [DecidableLE τ] in
/-- Who is inside after a processor `p` entered or left. -/
theorem inside_update {inside : π → Option η} {p q : π} {r : Option η} {k : η}
    (h : Function.update inside p r q = some k) : q = p ∧ r = some k ∨ q ≠ p ∧ inside q = some k := by
  by_cases hq : q = p
  · subst hq
    rw [Function.update_self] at h
    exact Or.inl ⟨rfl, h⟩
  · rw [Function.update_of_ne hq] at h
    exact Or.inr ⟨hq, h⟩

omit [Preorder τ] [DecidableLE τ] [DecidableEq π] in
/-- What a handler publishes is its own reading. -/
theorem mem_leave_stamps {k : σ} {h : η} {g : γ} {x : τ} (hx : x ∈ (M.leave k h g).2.filterMap M.stampOf) :
    x = M.stamp h := by
  rcases M.leave_stamps k h g with hnil | hone
  · rw [hnil] at hx
    exact absurd hx (by simp)
  · rw [hone] at hx
    exact List.mem_singleton.mp hx

/-- **One step** in which nobody is overtaken. -/
theorem Ordered.step {e : Step π ε α γ} (h : Ordered M s published) (hin : M.InOrder π s e)
    (hs : M.step π s e = some (s', o)) : Ordered M s' (published ++ o) := by
  cases e with
  | other e =>
      obtain ⟨q, hq, heq⟩ := Option.map_eq_some_iff.mp hs
      obtain ⟨rfl, rfl⟩ := Prod.mk.inj heq
      have hlog : (published ++ q.2).filterMap M.stampOf = published.filterMap M.stampOf := by
        rw [List.filterMap_append, M.other_stamps hq, List.append_nil]
      constructor
      · rw [hlog]; exact h.sorted
      · rw [hlog]; exact h.published_le_now
      · exact h.inside_le_now
      · rw [hlog]; exact h.published_le_inside
  | enter p a =>
      obtain ⟨⟨-, hnow⟩, heq⟩ := Option.ite_none_right_eq_some.mp hs
      obtain ⟨rfl, rfl⟩ := Prod.mk.inj (Option.some.inj heq)
      rw [List.append_nil]
      -- the new reading is the latest one, and all others are as they were
      have hinside {q : π} {k : η} (hk : Function.update s.inside p (M.enter s.kernel a).2 q = some k) :
          M.stamp k = M.time a ∨ s.inside q = some k := by
        rcases inside_update hk with ⟨-, hnew⟩ | ⟨-, hold⟩
        · exact Or.inl (M.enter_stamp hnew)
        · exact Or.inr hold
      refine ⟨h.sorted, ?_, ?_, ?_⟩
      · intro x hx
        exact le_trans (h.published_le_now x hx) hnow
      · intro q k hk
        rcases hinside hk with heq | hk
        · exact le_of_eq heq
        · exact le_trans (h.inside_le_now q k hk) hnow
      · intro x hx q k hk
        rcases hinside hk with heq | hk
        · rw [heq]
          exact le_trans (h.published_le_now x hx) hnow
        · exact h.published_le_inside x hx q k hk
  | leave p g =>
      obtain ⟨k, hk, heq⟩ := Option.map_eq_some_iff.mp hs
      obtain ⟨rfl, rfl⟩ := Prod.mk.inj heq
      have hinside {q : π} {k' : η} (hk' : Function.update s.inside p none q = some k') :
          q ≠ p ∧ s.inside q = some k' := by
        rcases inside_update hk' with ⟨-, hnew⟩ | hold
        · cases hnew
        · exact hold
      have hmem {x : τ} (hx : x ∈ (published ++ (M.leave s.kernel k g).2).filterMap M.stampOf) :
          x ∈ published.filterMap M.stampOf ∨ x ∈ (M.leave s.kernel k g).2.filterMap M.stampOf := by
        rw [List.filterMap_append] at hx
        exact List.mem_append.mp hx
      refine ⟨?_, ?_, ?_, ?_⟩
      · rw [List.filterMap_append, List.pairwise_append]
        refine ⟨h.sorted, ?_, ?_⟩
        · rcases M.leave_stamps s.kernel k g with hnil | hone
          · rw [hnil]
            exact List.Pairwise.nil
          · rw [hone]
            exact List.pairwise_singleton _ _
        · intro x hx y hy
          rw [mem_leave_stamps hy]
          exact h.published_le_inside x hx p k hk
      · intro x hx
        rcases hmem hx with hx | hx
        · exact h.published_le_now x hx
        · rw [mem_leave_stamps hx]
          exact h.inside_le_now p k hk
      · intro q k' hk'
        exact h.inside_le_now q k' (hinside hk').2
      · intro x hx q k' hk'
        obtain ⟨hq, hk'⟩ := hinside hk'
        rcases hmem hx with hx | hx
        · exact h.published_le_inside x hx q k' hk'
        · -- the handler publishes, so it overtakes nobody
          rw [mem_leave_stamps hx]
          exact hin k hk (List.ne_nil_of_mem hx) q hq k' hk'

/-- **In a run in which nobody is overtaken the readings are published in order.** -/
theorem run_ordered {evs : List (Step π ε α γ)} (h : (M.system π).run evs = some (s, published))
    (hin : Run.AllSteps ((M.system π).Before (M.InOrder π)) evs) : Ordered M s published := by
  revert hin
  refine System.run_induction
    (P := fun evs s published => Run.AllSteps ((M.system π).Before (M.InOrder π)) evs → Ordered M s published)
    ?_ ?_ h
  · intro _
    exact ⟨List.Pairwise.nil, by simp, by simp [system], by simp⟩
  · intro evs s t e s' o hrun ih hs hin
    obtain ⟨hpre, he⟩ := (System.allSteps_before_concat hrun).mp hin
    exact (ih hpre).step he hs

/-! ## Being overtaken is the only reason -/

/-- Readings were published out of order, or a handler inside was overtaken. -/
def Unordered (M : Stamper σ ε α η γ ο τ) (s : State π σ η τ) (published : List ο) : Prop :=
  ¬ (published.filterMap M.stampOf).Pairwise (· ≤ ·) ∨
    ∃ x ∈ published.filterMap M.stampOf, ∃ p, ∃ h ∈ s.inside p, ¬ x ≤ M.stamp h

/-- A handler that was overtaken stays so until it publishes. -/
theorem Unordered.step {e : Step π ε α γ} (h : Unordered M s published) (hpub : M.Publishes π s e)
    (hs : M.step π s e = some (s', o)) : Unordered M s' (published ++ o) := by
  rcases h with h | ⟨x, hx, p, k, hk, hlt⟩
  · left
    intro hsorted
    rw [List.filterMap_append] at hsorted
    exact h (List.pairwise_append.mp hsorted).1
  · have hx' : x ∈ (published ++ o).filterMap M.stampOf := by
      rw [List.filterMap_append]
      exact List.mem_append_left _ hx
    cases e with
    | other e =>
        obtain ⟨q, -, heq⟩ := Option.map_eq_some_iff.mp hs
        obtain ⟨rfl, rfl⟩ := Prod.mk.inj heq
        exact Or.inr ⟨x, hx', p, k, hk, hlt⟩
    | enter p' a =>
        obtain ⟨⟨hnone, -⟩, heq⟩ := Option.ite_none_right_eq_some.mp hs
        obtain ⟨rfl, rfl⟩ := Prod.mk.inj (Option.some.inj heq)
        refine Or.inr ⟨x, hx', p, k, ?_, hlt⟩
        have hne : p ≠ p' := by
          rintro rfl
          rw [hk] at hnone
          cases hnone
        show Function.update s.inside p' _ p = some k
        rw [Function.update_of_ne hne]
        exact hk
    | leave p' g =>
        obtain ⟨k', hk', heq⟩ := Option.map_eq_some_iff.mp hs
        obtain ⟨rfl, rfl⟩ := Prod.mk.inj heq
        by_cases hp : p = p'
        · -- the overtaken handler publishes its reading behind the later one
          subst hp
          obtain rfl : k' = k := Option.some.inj (hk'.symm.trans hk)
          left
          rw [List.filterMap_append, (M.leave_stamps s.kernel k' g).resolve_left (hpub k' hk'), List.pairwise_append]
          rintro ⟨-, -, hle⟩
          exact hlt (hle x hx _ (List.mem_singleton_self _))
        · refine Or.inr ⟨x, hx', p, k, ?_, hlt⟩
          show Function.update s.inside p' none p = some k
          rw [Function.update_of_ne hp]
          exact hk

/-- A step that is not in order overtakes somebody. -/
theorem unordered_of_not_inOrder {e : Step π ε α γ} (h : ¬ M.InOrder π s e) (hs : M.step π s e = some (s', o)) :
    Unordered M s' (published ++ o) := by
  cases e with
  | other e => exact absurd trivial h
  | enter p a => exact absurd trivial h
  | leave p g =>
      obtain ⟨k, hk, heq⟩ := Option.map_eq_some_iff.mp hs
      obtain ⟨rfl, rfl⟩ := Prod.mk.inj heq
      simp only [InOrder, not_forall] at h
      obtain ⟨k', hk', hne, q, hq, l, hl, hlt⟩ := h
      obtain rfl : k = k' := Option.some.inj (hk.symm.trans hk')
      refine Or.inr ⟨M.stamp k, ?_, q, l, ?_, hlt⟩
      · rw [List.filterMap_append, (M.leave_stamps s.kernel k g).resolve_left hne]
        exact List.mem_append_right _ (List.mem_singleton_self _)
      · show Function.update s.inside p none q = some l
        rw [Function.update_of_ne hq]
        exact hl

/-- **Of a run after which all handlers are outside and in which each has published**, the readings are in
    order exactly if nobody was overtaken. -/
theorem sorted_iff_inOrder {evs : List (Step π ε α γ)} (h : (M.system π).run evs = some (s, published))
    (hpub : Run.AllSteps ((M.system π).Before (M.Publishes π)) evs) (hout : ∀ p, s.inside p = none) :
    (published.filterMap M.stampOf).Pairwise (· ≤ ·) ↔ Run.AllSteps ((M.system π).Before (M.InOrder π)) evs := by
  constructor
  · have hunordered : Run.AllSteps ((M.system π).Before (M.Publishes π)) evs →
        ¬ Run.AllSteps ((M.system π).Before (M.InOrder π)) evs → Unordered M s published := by
      refine System.run_induction
        (P := fun evs s published => Run.AllSteps ((M.system π).Before (M.Publishes π)) evs →
          ¬ Run.AllSteps ((M.system π).Before (M.InOrder π)) evs → Unordered M s published) ?_ ?_ h
      · intro _ hnot
        exact absurd trivial hnot
      · intro evs s t e s' o hrun ih hs hpub hnot
        obtain ⟨hpre, he⟩ := (System.allSteps_before_concat hrun).mp hpub
        rw [System.allSteps_before_concat hrun] at hnot
        by_cases hin : Run.AllSteps ((M.system π).Before (M.InOrder π)) evs
        · exact unordered_of_not_inOrder (fun hstep => hnot ⟨hin, hstep⟩) hs
        · exact (ih hpre hin).step he hs
    intro hsorted
    by_contra hnot
    rcases hunordered hpub hnot with hns | ⟨x, -, p, k, hk, -⟩
    · exact hns hsorted
    · rw [hout p] at hk
      cases hk
  · intro hin
    exact (run_ordered h hin).sorted

end Stamper
