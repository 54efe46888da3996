import StorTrace.Lib.Cache

/-!
# `Lib.Lifetime` — tracing one lifetime of a reused key

A tracer opens an entry for a key when the traced object starts, stamps it while the object lives, and
closes it, emitting the entry as a record, when the object ends. Keys are reused, so an entry that
survives its closing event is stamped on by the **next** object with that key, and the record then mixes
two lifetimes.

`Tracer.oneLifetime_iff` says exactly when that cannot happen: every closing event that finds an entry
must succeed in reserving its record, because the entry is removed on that path only.
-/

/-- A machine that traces the lifetimes of keys through a map of stamped values. `reading e k` is the
    clock value a probe on `k` takes at `e`; `blank` is the value of a stamp not taken yet. -/
structure Tracer {σ ε ο : Type} (M : Machine σ ε ο) (κ ν τ : Type) extends CacheView M κ ν where
  opens : ε → κ → Prop
  closes : ε → κ → Prop
  reserved : ε → Prop
  reading : ε → κ → Option τ
  stamps : ν → List τ
  blank : τ
  record : ο → Option ν
  opens_of_put : ∀ s e k v, act s e k = .put v →
    opens e k ∧ ∀ st ∈ stamps v, st = blank ∨ reading e k = some st
  stamps_update : ∀ s e k f, act s e k = .update f →
    ∀ v, ∀ st ∈ stamps (f v), st ∈ stamps v ∨ reading e k = some st
  drop_of_reserved : ∀ s e k, closes e k → reserved e → act s e k = .drop
  keeps_of_not_reserved : ∀ s e k, closes e k → ¬ reserved e → (act s e k).Keeps
  record_of_close : ∀ s e r v, r ∈ (M.step s e).2 → record r = some v →
    ∃ k u, closes e k ∧ get s k = some u ∧ ∀ st ∈ stamps v, st ∈ stamps u ∨ reading e k = some st

namespace Tracer

variable {σ ε ο κ ν τ : Type} {M : Machine σ ε ο} (T : Tracer M κ ν τ)

/-- The stamps of `v` were all taken by probes on `k` among the events `life` (or not at all). -/
def StampedBy (k : κ) (life : List ε) (v : ν) : Prop :=
  ∀ st ∈ T.stamps v, st = T.blank ∨ ∃ x ∈ life, T.reading x k = some st

/-- **One lifetime.** A record emitted by `e` closes an entry that an opening event `t` created, with no
    closing event of the same key in between, and every stamp of the record was taken by a probe on that
    key from `t` to `e`. After a closing event of a key there is no entry for it. -/
def OneLifetime (pre : List ε) (e : ε) : Prop :=
  (∀ r v, r ∈ M.out pre e → T.record r = some v →
    ∃ k ini t mid, pre = ini ++ t :: mid ∧ T.closes e k ∧
      T.opens t k ∧ T.get (M.exec (ini ++ [t])) k ≠ none ∧
      (∀ x ∈ mid, ¬ T.closes x k) ∧ T.StampedBy k (t :: mid ++ [e]) v) ∧
  ∀ k, T.closes e k → T.get (M.exec (pre ++ [e])) k = none

/-- A closing event that finds an entry reserves its record. -/
def ClosesReserved (pre : List ε) (e : ε) : Prop :=
  ∀ k, T.closes e k → T.get (M.exec pre) k ≠ none → T.reserved e

variable {T}

theorem StampedBy.mono {k : κ} {xs ys : List ε} {v : ν} (h : T.StampedBy k xs v) (hs : xs ⊆ ys) :
    T.StampedBy k ys v := by
  intro st hst
  rcases h st hst with hb | ⟨x, hx, hr⟩
  · exact Or.inl hb
  · exact Or.inr ⟨x, hs hx, hr⟩

/-- New stamps of `w` are readings of `e`; the others are stamps of `v`. -/
theorem StampedBy.snoc {k : κ} {life : List ε} {e : ε} {v w : ν} (h : T.StampedBy k life v)
    (hw : ∀ st ∈ T.stamps w, st ∈ T.stamps v ∨ T.reading e k = some st) :
    T.StampedBy k (life ++ [e]) w := by
  intro st hst
  rcases hw st hst with hv | hr
  · exact h.mono (List.subset_append_left life [e]) st hv
  · exact Or.inr ⟨e, by simp, hr⟩

/-- The provenance of a stamped entry: the event that stored it opened the key, and its stamps were all
    taken since. -/
theorem exists_opened {evs : List ε} {k : κ} {v : ν} (h : T.get (M.exec evs) k = some v) :
    ∃ ini t mid u, evs = ini ++ t :: mid ∧ T.Born k ini t mid u ∧ T.StampedBy k (t :: mid) v := by
  refine CacheView.exists_born (Q := fun _ t mid v => T.StampedBy k (t :: mid) v) ?_ ?_ ?_ h
  · intro ini t v hp st hst
    rcases (T.opens_of_put _ _ _ _ hp).2 st hst with hb | hr
    · exact Or.inl hb
    · exact Or.inr ⟨t, by simp, hr⟩
  · intro ini t mid x v _ hq
    exact hq.mono (by simp)
  · intro ini t mid x f v ha hq
    exact hq.snoc (T.stamps_update _ _ _ _ ha v)

/-- While an entry is kept, and every closing event that finds it reserves its record, its key is not
    closed: the closing event would have removed the entry. -/
theorem not_closes_of_born {ini mid : List ε} {t : ε} {k : κ} {u : ν} (hb : T.Born k ini t mid u)
    (hc : Run.AllSteps T.ClosesReserved (ini ++ t :: mid)) {x : ε} (hx : x ∈ mid) :
    ¬ T.closes x k := by
  intro hcl
  obtain ⟨a, b, hs⟩ := List.append_of_mem hx
  have hpres := hb.present (a := a) (b := x :: b) hs
  have hres : T.reserved x :=
    Run.allSteps_iff.mp hc (ini ++ t :: a) x b (by simp [hs]) k hcl hpres
  have hkeeps := hb.kept a x b hs
  rw [T.drop_of_reserved _ _ _ hcl hres] at hkeeps
  exact CacheAction.not_keeps_drop hkeeps

/-- One step: with every closing event so far reserved, the record it emits is of one lifetime. -/
theorem oneLifetime_of_closesReserved {pre : List ε} {e : ε}
    (hc : Run.AllSteps T.ClosesReserved (pre ++ [e])) : T.OneLifetime pre e := by
  obtain ⟨hpre, he⟩ := Run.allSteps_concat.mp hc
  constructor
  · intro r v hr hv
    obtain ⟨k, u, hcl, hget, hst⟩ := T.record_of_close _ _ _ _ hr hv
    obtain ⟨ini, t, mid, w, rfl, hb, hq⟩ := exists_opened hget
    have hopen : T.opens t k := (T.opens_of_put _ _ _ _ hb.put).1
    have hentry : T.get (M.exec (ini ++ [t])) k ≠ none := hb.present (a := []) (b := mid) rfl
    have hlive : ∀ x ∈ mid, ¬ T.closes x k := by
      intro x hx
      exact not_closes_of_born hb hpre hx
    exact ⟨k, ini, t, mid, rfl, hcl, hopen, hentry, hlive, hq.snoc hst⟩
  · intro k hcl
    rw [CacheView.get_exec_concat]
    by_cases hg : T.get (M.exec pre) k = none
    · -- nothing to remove: an absent entry is dropped or kept absent
      by_cases hres : T.reserved e
      · rw [T.drop_of_reserved _ _ _ hcl hres]; rfl
      · rw [(T.keeps_of_not_reserved (M.exec pre) e k hcl hres).apply_eq_none]; exact hg
    · rw [T.drop_of_reserved _ _ _ hcl (he k hcl hg)]; rfl

/-- **No record of a run mixes two lifetimes, and none leaves an entry behind, exactly when every closing
    event that finds an entry reserves its record.** -/
theorem oneLifetime_iff (evs : List ε) :
    Run.AllSteps T.OneLifetime evs ↔ Run.AllSteps T.ClosesReserved evs := by
  constructor
  · intro h
    refine h.imp ?_
    intro pre e post hs hone k hcl hg
    by_contra hres
    -- a closing event without a reservation keeps the entry it finds
    have hnone := hone.2 k hcl
    rw [CacheView.get_exec_concat,
      (T.keeps_of_not_reserved (M.exec pre) e k hcl hres).apply_eq_none] at hnone
    exact hg hnone
  · intro h
    rw [Run.allSteps_iff]
    intro pre e post hs
    have hrun : Run.AllSteps T.ClosesReserved ((pre ++ [e]) ++ post) := by
      rw [List.append_assoc, List.singleton_append, ← hs]
      exact h
    exact oneLifetime_of_closesReserved hrun.prefix

end Tracer
