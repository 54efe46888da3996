import StorTrace.Lib.System
import Mathlib

/-!
# `Lib.Ledger` — work that comes due and work that is done, over the runs of a system

`Balanced work paid due`: in every reachable state a step does `paid` of the work that is open and adds `due` to
it. Over any piece of a run the books balance (`Balanced.balance`), so where nothing comes due the work that is open
bounds what can still be done, and none is open exactly when all of it has been done (`Balanced.countdown`).
-/

namespace System

variable {σ ε ο : Type} {S : System σ ε ο}

/-- Every step from a reachable state keeps the books. -/
structure Balanced (S : System σ ε ο) (work : σ → ℕ) (paid due : ε → ℕ) : Prop where
  step : ∀ {evs : List ε} {s s' : σ} {t o : List ο} {e : ε}, S.run evs = some (s, t) →
    S.step s e = some (s', o) → paid e + work s' = work s + due e

variable {work : σ → ℕ} {paid due : ε → ℕ} {evs more : List ε} {s s' : σ} {t t' : List ο}

/-- **The books balance over every piece of a run.** -/
theorem Balanced.balance (h : S.Balanced work paid due) (hrun : S.run evs = some (s, t))
    (hmore : S.run (evs ++ more) = some (s', t')) :
    (more.map paid).sum + work s' = work s + (more.map due).sum := by
  -- by induction on the piece, the last event first
  induction more using List.reverseRecOn generalizing s' t' with
  | nil =>
      rw [List.append_nil, hrun] at hmore
      obtain ⟨rfl, -⟩ := Prod.mk.inj (Option.some.inj hmore)
      simp
  | append_singleton more e ih =>
      rw [← List.append_assoc] at hmore
      obtain ⟨s₀, t₀, o, hrun₀, hstep, -⟩ := S.run_concat.mp hmore
      have hpiece := ih hrun₀
      have hlast := h.step hrun₀ hstep
      simp only [List.map_append, List.map_cons, List.map_nil, List.sum_append, List.sum_cons, List.sum_nil]
      omega

/-- Over a whole run, from no open work. -/
theorem Balanced.run (h : S.Balanced work paid due) (hinit : work S.init = 0) (hrun : S.run evs = some (s, t)) :
    (evs.map paid).sum + work s = (evs.map due).sum := by
  have hpiece : S.run ([] ++ evs) = some (s, t) := hrun
  have hbalance := h.balance S.run_nil hpiece
  omega

/-- **Where nothing comes due the open work counts down.** -/
theorem Balanced.countdown (h : S.Balanced work paid due) (hrun : S.run evs = some (s, t))
    (hmore : S.run (evs ++ more) = some (s', t')) (hdue : ∀ e ∈ more, due e = 0) :
    (more.map paid).sum + work s' = work s := by
  have hbalance := h.balance hrun hmore
  have hzero : (more.map due).sum = 0 := by
    apply List.sum_eq_zero
    intro n hn
    obtain ⟨e, he, rfl⟩ := List.mem_map.mp hn
    exact hdue e he
  omega

/-- Where every event does one piece of work, events are counted. -/
theorem sum_of_ones (h : ∀ e ∈ more, paid e = 1) : (more.map paid).sum = more.length := by
  induction more with
  | nil => rfl
  | cons e more ih =>
      have hrest := ih (fun x hx => h x (List.mem_cons_of_mem _ hx))
      rw [List.map_cons, List.sum_cons, hrest, h e List.mem_cons_self, List.length_cons, Nat.add_comm]

/-- **Induction over a piece of a run**: where a step from a state with `P` by an event with `C` keeps `P`, and the
    event meets `Q`, a piece whose events meet `C` keeps `P`, and all of them meet `Q`. -/
theorem piece_induction {P : σ → Prop} {C Q : ε → Prop}
    (hstep : ∀ {s e s' o}, P s → C e → S.step s e = some (s', o) → P s' ∧ Q e)
    (hrun : S.run evs = some (s, t)) (hP : P s) (hmore : S.run (evs ++ more) = some (s', t'))
    (hC : ∀ e ∈ more, C e) : P s' ∧ ∀ e ∈ more, Q e := by
  induction more using List.reverseRecOn generalizing s' t' with
  | nil =>
      rw [List.append_nil, hrun] at hmore
      obtain ⟨rfl, -⟩ := Prod.mk.inj (Option.some.inj hmore)
      exact ⟨hP, fun e he => absurd he List.not_mem_nil⟩
  | append_singleton more e ih =>
      rw [← List.append_assoc] at hmore
      obtain ⟨s₀, t₀, o, hrun₀, hlast, -⟩ := S.run_concat.mp hmore
      obtain ⟨hP₀, hQ⟩ := ih hrun₀ (fun e he => hC e (List.mem_append_left _ he))
      obtain ⟨hP', hQe⟩ := hstep hP₀ (hC e (by simp)) hlast
      refine ⟨hP', fun x hx => ?_⟩
      rcases List.mem_append.mp hx with hx | hx
      · exact hQ x hx
      · rw [List.mem_singleton.mp hx]
        exact hQe

end System
