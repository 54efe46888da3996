import StorTrace.Lib.Cache

/-!
# `Lib.Starts` — who started what a record is about

A tracer opens an entry for a key when a thing with that key starts, provided its filter admits the start,
and emits a record from the entry when the thing ends. The record says something about a start that the
filter let through, but the thing that ends may be a later one: its own start was rejected and left an old
entry in place.

`StartedCache.startedBy_of_screened` is the condition under which selecting starts selects records: **every
start that is not wanted is rejected and finds no entry of its key, or gets none.**
-/

/-- A machine that opens entries for things that start: `start e k` describes the start of a thing with key
    `k` at the event `e`, and `closes e k` says that one ends there. An admitted start that is not `opens` leaves no
    entry of its key. -/
structure StartedCache {σ ε ο : Type} (M : Machine σ ε ο) (κ ν δ : Type) extends CacheView M κ ν where
  start : ε → κ → Option δ
  admits : δ → Prop
  opens : σ → κ → δ → Prop
  closes : ε → κ → Prop
  isRecord : ο → Prop
  start_of_put : ∀ s e k v, act s e k = .put v → ∃ d, start e k = some d ∧ admits d
  none_of_shut : ∀ s e k d, start e k = some d → admits d → ¬ opens s k d → (act s e k).apply (get s k) = none
  entry_of_record : ∀ s e r, r ∈ (M.step s e).2 → isRecord r → ∃ k, closes e k ∧ get s k ≠ none

namespace StartedCache

variable {σ ε ο κ ν δ : Type} {M : Machine σ ε ο} (C : StartedCache M κ ν δ)

/-- The latest start of a thing with key `k`. -/
def latestStart (k : κ) (pre : List ε) : Option (List ε × δ) := Run.lastWith (fun e => C.start e k) pre

/-- **What ends with a record had a wanted start.** -/
def StartedBy (wanted : δ → Prop) (pre : List ε) (e : ε) : Prop :=
  ∀ r ∈ M.out pre e, C.isRecord r → ∃ k, C.closes e k ∧ ∃ w ∈ C.latestStart k pre, wanted w.2

/-- A start that is not wanted is rejected, and its key has no entry; or it gets none. -/
def Screened (wanted rejected : δ → Prop) (pre : List ε) (e : ε) : Prop :=
  ∀ k d, C.start e k = some d → ¬ wanted d →
    rejected d ∧ C.get (M.exec pre) k = none ∨ ¬ rejected d ∧ ¬ C.opens (M.exec pre) k d

variable {C} {wanted rejected : δ → Prop}

/-- The latest start after one more event. -/
theorem latestStart_concat (k : κ) (pre : List ε) (e : ε) :
    C.latestStart k (pre ++ [e]) =
      match C.start e k with
      | some d => some (pre, d)
      | none => C.latestStart k pre :=
  Run.lastWith_concat pre e

/-- **While every start is screened, an entry belongs to a key whose latest start was wanted.** -/
theorem wanted_of_entry (hrej : ∀ d, C.admits d ↔ ¬ rejected d) {evs : List ε}
    (h : Run.AllSteps (C.Screened wanted rejected) evs) {k : κ} (hk : C.get (M.exec evs) k ≠ none) :
    ∃ w ∈ C.latestStart k evs, wanted w.2 := by
  induction evs using List.reverseRecOn with
  | nil => exact absurd (C.get_init k) hk
  | append_singleton pre e ih =>
      obtain ⟨hpre, he⟩ := Run.allSteps_concat.mp h
      rw [latestStart_concat]
      cases hs : C.start e k with
      | some d =>
          refine ⟨(pre, d), rfl, ?_⟩
          by_contra hw
          rcases he k d hs hw with ⟨hr, hnone⟩ | ⟨hr, hshut⟩
          · -- a rejected start stores nothing, and there was nothing
            obtain ⟨v, hv⟩ := Option.ne_none_iff_exists'.mp hk
            rcases CacheView.act_of_get_concat hv with hp | ⟨-, hg⟩ | ⟨f, u, -, hg, -⟩
            · obtain ⟨d', hd', hadm⟩ := C.start_of_put _ _ _ _ hp
              obtain rfl : d' = d := Option.some.inj (hd'.symm.trans hs)
              exact (hrej d').mp hadm hr
            · exact absurd (hnone.symm.trans hg) (by simp)
            · exact absurd (hnone.symm.trans hg) (by simp)
          · rw [CacheView.get_exec_concat] at hk
            exact hk (C.none_of_shut _ _ _ _ hs ((hrej d).mpr hr) hshut)
      | none =>
          -- the entry was there before
          apply ih hpre
          obtain ⟨v, hv⟩ := Option.ne_none_iff_exists'.mp hk
          rcases CacheView.act_of_get_concat hv with hp | ⟨-, hg⟩ | ⟨f, u, -, hg, -⟩
          · obtain ⟨d, hd, -⟩ := C.start_of_put _ _ _ _ hp
            exact absurd (hs.symm.trans hd) (by simp)
          · rw [hg]; exact Option.some_ne_none v
          · rw [hg]; exact Option.some_ne_none u

/-- **In a run whose starts are all screened, every record is about a thing with a wanted start.** -/
theorem startedBy_of_screened (hrej : ∀ d, C.admits d ↔ ¬ rejected d) {evs : List ε}
    (h : Run.AllSteps (C.Screened wanted rejected) evs) : Run.AllSteps (C.StartedBy wanted) evs := by
  rw [Run.allSteps_iff]
  intro pre e post hs r hr hrec
  obtain ⟨k, hk, hentry⟩ := C.entry_of_record _ _ _ hr hrec
  rw [hs] at h
  exact ⟨k, hk, wanted_of_entry hrej h.prefix hentry⟩

/-- A run whose starts are all wanted is screened. -/
theorem screened_of_wanted {evs : List ε} (h : ∀ e ∈ evs, ∀ k d, C.start e k = some d → wanted d) :
    Run.AllSteps (C.Screened wanted rejected) evs := by
  rw [Run.allSteps_iff]
  intro pre e post hs k d hd hw
  exact absurd (h e (by simp [hs]) k d hd) hw

end StartedCache
