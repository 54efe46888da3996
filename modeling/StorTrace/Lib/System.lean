import StorTrace.Lib.Run

/-!
# `Lib.System` — runs of a system that refuses events

Unlike a `Machine`, a `System` may refuse an event: the event cannot happen in that state. A run is a list of
events none of which is refused, and it leaves a state and the trace of the actions its steps took.

`run_induction` proves a property of every run from its steps; `Before C` is a condition on a step and the
state it is taken in, for use with `Run.AllSteps`.
-/

/-- A system with refusals. -/
structure System (σ ε ο : Type) where
  init : σ
  step : σ → ε → Option (σ × List ο)

namespace System

variable {σ ε ο : Type} (S : System σ ε ο)

/-- One more event, after a state and a trace. -/
def next (r : σ × List ο) (e : ε) : Option (σ × List ο) :=
  (S.step r.1 e).map (fun q => (q.1, r.2 ++ q.2))

/-- The state and the trace the events `evs` lead to, if none of them is refused. -/
def run (evs : List ε) : Option (σ × List ο) := evs.foldlM S.next (S.init, [])

@[simp] theorem run_nil : S.run [] = some (S.init, []) := rfl

/-- A run of one more event is a run and a step. -/
theorem run_concat {evs : List ε} {e : ε} {s' : σ} {t' : List ο} :
    S.run (evs ++ [e]) = some (s', t') ↔
      ∃ s t o, S.run evs = some (s, t) ∧ S.step s e = some (s', o) ∧ t' = t ++ o := by
  rw [run, List.foldlM_append, ← run]
  cases hr : S.run evs with
  | none => simp
  | some r =>
      obtain ⟨s, t⟩ := r
      cases hs : S.step s e with
      | none => simp [next, hs]
      | some q =>
          obtain ⟨s₁, o⟩ := q
          have hnext : S.next (s, t) e = some (s₁, t ++ o) := by simp [next, hs]
          constructor
          · intro h
            have heq : (s₁, t ++ o) = (s', t') := by simpa [hnext] using h
            obtain ⟨rfl, rfl⟩ := Prod.mk.inj heq
            exact ⟨s, t, o, rfl, hs, rfl⟩
          · rintro ⟨s₂, t₂, o₂, hst, hstep, rfl⟩
            obtain ⟨rfl, rfl⟩ : s = s₂ ∧ t = t₂ := by simpa using hst
            obtain ⟨rfl, rfl⟩ : s₁ = s' ∧ o = o₂ := by simpa [hs] using hstep
            simp [hnext]

variable {S}

/-- **A property that holds at the start and is kept by every step holds after every run.** -/
theorem run_induction {P : List ε → σ → List ο → Prop} (hinit : P [] S.init [])
    (hstep : ∀ {evs s t e s' o}, S.run evs = some (s, t) → P evs s t → S.step s e = some (s', o) →
      P (evs ++ [e]) s' (t ++ o))
    {evs : List ε} {s : σ} {t : List ο} (h : S.run evs = some (s, t)) : P evs s t := by
  induction evs using List.reverseRecOn generalizing s t with
  | nil =>
      obtain ⟨rfl, rfl⟩ : S.init = s ∧ [] = t := by simpa using h
      exact hinit
  | append_singleton evs e ih =>
      obtain ⟨s₀, t₀, o, hrun, hs, rfl⟩ := S.run_concat.mp h
      exact hstep hrun (ih hrun) hs

variable (S)

/-- `C` holds of the step `e` and the state in which the events `pre` leave the system. -/
def Before (C : σ → ε → Prop) (pre : List ε) (e : ε) : Prop := ∀ r ∈ S.run pre, C r.1 e

instance (C : σ → ε → Prop) [∀ s e, Decidable (C s e)] (pre : List ε) (e : ε) :
    Decidable (S.Before C pre e) :=
  inferInstanceAs (Decidable (∀ r ∈ S.run pre, C r.1 e))

variable {S}

/-- What is checked of a run can be read off its last state. -/
theorem exists_of_map_run {β : Type} {g : σ → β} {evs : List ε} {b : β}
    (h : (S.run evs).map (fun r => g r.1) = some b) : ∃ s t, S.run evs = some (s, t) ∧ g s = b := by
  obtain ⟨⟨s, t⟩, hrun, hg⟩ := Option.map_eq_some_iff.mp h
  exact ⟨s, t, hrun, hg⟩

theorem before_iff {C : σ → ε → Prop} {pre : List ε} {e : ε} {s : σ} {t : List ο}
    (h : S.run pre = some (s, t)) : S.Before C pre e ↔ C s e := by
  simp [Before, h]

/-- A run of one more event meets a condition if the run does, and the event in the state it leads to. -/
theorem allSteps_before_concat {C : σ → ε → Prop} {evs : List ε} {e : ε} {s : σ} {t : List ο}
    (h : S.run evs = some (s, t)) :
    Run.AllSteps (S.Before C) (evs ++ [e]) ↔ Run.AllSteps (S.Before C) evs ∧ C s e := by
  rw [Run.allSteps_concat, before_iff h]

end System
