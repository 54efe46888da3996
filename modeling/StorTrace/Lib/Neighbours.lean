import Mathlib

/-!
# `Lib.Neighbours` — a list cut into runs of neighbours, each of which is made into one element

`Cut made xs bs`: the elements of `bs` are made of the runs of neighbours a pass over `xs` has joined. Where the
cuts fall is left open. What is added up over a run is kept (`Cut.sum_eq`), an order along the list is kept
(`Cut.pairwise`), if an element lies among the run it is made of.
-/

namespace Neighbours

variable {α β κ : Type}

/-- The runs of `xs`, from left to right, are made into the elements of `bs`. -/
inductive Cut (made : List α → β → Prop) : List α → List β → Prop
  | nil : Cut made [] []
  | concat {xs run : List α} {bs : List β} {b : β} (h : Cut made xs bs) (hb : made run b) :
      Cut made (xs ++ run) (bs ++ [b])

variable {made : List α → β → Prop} {xs : List α} {bs : List β}

/-- What is added up over every run is added up over the list. -/
theorem Cut.sum_eq (h : Cut made xs bs) {f : α → ℕ} {g : β → ℕ}
    (hmade : ∀ run b, made run b → g b = (run.map f).sum) : (bs.map g).sum = (xs.map f).sum := by
  induction h with
  | nil => rfl
  | concat h hb ih =>
      rw [List.map_append, List.map_append, List.sum_append, List.sum_append, ih, ← hmade _ _ hb, List.map_singleton,
        List.sum_singleton]

/-- An element is made of a part of the list. -/
theorem Cut.exists_run (h : Cut made xs bs) {b : β} (hb : b ∈ bs) : ∃ run, made run b ∧ ∀ x ∈ run, x ∈ xs := by
  induction h with
  | nil => cases hb
  | concat h hmade ih =>
      rename_i ys run cs c
      rcases List.mem_append.mp hb with hmem | hmem
      · obtain ⟨run', hrun', hsub⟩ := ih hmem
        exact ⟨run', hrun', fun x hx => List.mem_append_left _ (hsub x hx)⟩
      · obtain rfl : b = c := List.mem_singleton.mp hmem
        exact ⟨run, hmade, fun x hx => List.mem_append_right _ hx⟩

/-- `b` lies among the elements of the run, in the order `r` of their keys. -/
def Among (r : κ → κ → Prop) (key : α → κ) (key' : β → κ) (run : List α) (b : β) : Prop :=
  (∃ x ∈ run, r (key x) (key' b)) ∧ ∃ x ∈ run, r (key' b) (key x)

/-- **Joining neighbours keeps the order**, if what is made of a run lies among its elements. -/
theorem Cut.pairwise (h : Cut made xs bs) {r : κ → κ → Prop} {key : α → κ} {key' : β → κ}
    (htrans : ∀ i j k, r i j → r j k → r i k) (hmade : ∀ run b, made run b → Among r key key' run b)
    (hxs : xs.Pairwise (fun x y => r (key x) (key y))) : bs.Pairwise (fun a b => r (key' a) (key' b)) := by
  induction h with
  | nil => exact List.Pairwise.nil
  | concat h hb ih =>
      rename_i ys run cs c
      obtain ⟨hys, -, hcross⟩ := List.pairwise_append.mp hxs
      refine List.pairwise_append.mpr ⟨ih hys, List.pairwise_singleton _ _, ?_⟩
      intro a ha b hmem
      obtain rfl : b = c := List.mem_singleton.mp hmem
      -- from `a` to an element of its run, from there to one of `b`'s run, and to `b`
      obtain ⟨runA, hrunA, hsub⟩ := h.exists_run ha
      obtain ⟨x, hx, hax⟩ := (hmade _ _ hrunA).2
      obtain ⟨y, hy, hyb⟩ := (hmade _ _ hb).1
      exact htrans _ _ _ hax (htrans _ _ _ (hcross x (hsub x hx) y hy) hyb)

end Neighbours
