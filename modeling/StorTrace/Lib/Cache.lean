import StorTrace.Lib.BpfMap
import StorTrace.Lib.Run

/-!
# `Lib.Cache` — where the entry of a key in a map comes from

A machine that keeps a map from keys to values touches the entry of one key, in one step, in one of four
ways: it leaves it alone, rewrites it in place, stores a fresh value, or removes it (`CacheAction`). A
`CacheView` is a machine together with that description of its steps.

The result is `CacheView.exists_born`: **an entry that is present after a run was stored by one event of
the run and has only been kept or rewritten since**, and whatever invariant the store establishes and the
rewrites preserve holds of it. Every provenance fact about a map is an instance.
-/

/-- What one step does to the entry of one key. -/
inductive CacheAction (ν : Type) where
  | keep
  | update (f : ν → ν)
  | put (v : ν)
  | drop

namespace CacheAction

variable {ν : Type}

/-- The entry after the action. -/
def apply : CacheAction ν → Option ν → Option ν
  | .keep,     o => o
  | .update f, o => o.map f
  | .put v,    _ => some v
  | .drop,     _ => none

/-- The entry stays the one that was there (possibly rewritten in place). -/
def Keeps : CacheAction ν → Prop
  | .keep     => True
  | .update _ => True
  | .put _    => False
  | .drop     => False

@[simp] theorem apply_keep (o : Option ν) : (keep : CacheAction ν).apply o = o := rfl
@[simp] theorem apply_update (f : ν → ν) (o : Option ν) : (update f).apply o = o.map f := rfl
@[simp] theorem apply_put (v : ν) (o : Option ν) : (put v).apply o = some v := rfl
@[simp] theorem apply_drop (o : Option ν) : (drop : CacheAction ν).apply o = none := rfl

@[simp] theorem keeps_keep : (keep : CacheAction ν).Keeps := trivial
@[simp] theorem keeps_update (f : ν → ν) : (update f).Keeps := trivial
@[simp] theorem not_keeps_put (v : ν) : ¬ (put v).Keeps := id
@[simp] theorem not_keeps_drop : ¬ (drop : CacheAction ν).Keeps := id

/-- The action `a` on the entry of `k`, seen from the entry of `k'`. -/
def onKey {κ : Type} [DecidableEq κ] (k k' : κ) (a : CacheAction ν) : CacheAction ν :=
  if k' = k then a else .keep

@[simp] theorem onKey_self {κ : Type} [DecidableEq κ] (k : κ) (a : CacheAction ν) :
    onKey k k a = a := if_pos rfl

theorem onKey_of_ne {κ : Type} [DecidableEq κ] {k k' : κ} (h : k' ≠ k) (a : CacheAction ν) :
    onKey k k' a = .keep := if_neg h

theorem onKey_apply {κ : Type} [DecidableEq κ] (k k' : κ) (a : CacheAction ν) (o : Option ν) :
    (onKey k k' a).apply o = if k' = k then a.apply o else o := by
  unfold onKey; split <;> rfl

theorem onKey_eq_put {κ : Type} [DecidableEq κ] {k k' : κ} {a : CacheAction ν} {v : ν} :
    onKey k k' a = .put v ↔ k' = k ∧ a = .put v := by
  unfold onKey; split <;> simp_all

theorem onKey_eq_update {κ : Type} [DecidableEq κ] {k k' : κ} {a : CacheAction ν} {f : ν → ν} :
    onKey k k' a = .update f ↔ k' = k ∧ a = .update f := by
  unfold onKey; split <;> simp_all

theorem onKey_eq_drop {κ : Type} [DecidableEq κ] {k k' : κ} {a : CacheAction ν} :
    onKey k k' a = .drop ↔ k' = k ∧ a = .drop := by
  unfold onKey; split <;> simp_all

/-- A kept entry stays present, and an absent one stays absent. -/
theorem Keeps.apply_eq_none {a : CacheAction ν} (h : a.Keeps) (o : Option ν) :
    a.apply o = none ↔ o = none := by
  cases a with
  | keep => simp
  | update f => simp
  | put v => exact absurd h (not_keeps_put v)
  | drop => exact absurd h not_keeps_drop

end CacheAction

/-! ## The map operations as actions -/

namespace BpfHash

open CacheAction

variable {κ ν : Type} [DecidableEq κ] {n : Nat} (m : BpfHash κ ν n) (k k' : κ)

/-- A write through the pointer of a lookup of `k` rewrites the entry of `k`. -/
theorem modifyElem_act (f : ν → ν) :
    (m.modifyElem k f).lookupElem k' = (onKey k k' (.update f)).apply (m.lookupElem k') := by
  rw [onKey_apply, lookupElem_modifyElem]
  split
  · next h => rw [h, apply_update]
  · rfl

theorem recycleElem_act :
    (m.recycleElem k).lookupElem k' = (onKey k k' .drop).apply (m.lookupElem k') := by
  rw [onKey_apply, lookupElem_recycleElem, apply_drop]

/-- Storing `v` under `k` after recycling its entry leaves `v`, or nothing when the map is full. -/
theorem restoreElem_act (v : ν) :
    (((m.recycleElem k).updateElem k v .noexist).1).lookupElem k' =
      (onKey k k' (if (m.recycleElem k).HasRoom then .put v else .drop)).apply (m.lookupElem k') := by
  rw [onKey_apply, lookupElem_update_noexist, lookupElem_recycleElem]
  by_cases hk : k' = k
  · subst hk
    by_cases hr : (m.recycleElem k').HasRoom <;> simp [hr]
  · simp [hk]

/-- A `BPF_ANY` store leaves `v` when it succeeds, and changes nothing otherwise. -/
theorem updateElem_any_act (v : ν) :
    (m.updateElem k v .any).1.lookupElem k' =
      (if m.lookupElem k ≠ none ∨ m.HasRoom then onKey k k' (.put v) else .keep).apply
        (m.lookupElem k') := by
  rw [lookupElem_update_any]
  by_cases hr : m.lookupElem k ≠ none ∨ m.HasRoom
  · rw [if_pos hr, if_pos hr, onKey_apply, apply_put]
  · -- the store fails: there was no entry, and there is none now
    have hn : m.lookupElem k = none := by tauto
    rw [if_neg hr, if_neg hr, apply_keep]
    split
    · next h => rw [h, hn]
    · rfl

/-- Rewriting the entry of `k` and then deleting it, or not. -/
theorem flushElem_act (f : ν → ν) (delete : Bool) :
    (if delete then (m.modifyElem k f).deleteElem k else m.modifyElem k f).lookupElem k' =
      (onKey k k' (if delete then .drop else .update f)).apply (m.lookupElem k') := by
  cases delete with
  | true =>
      by_cases hk : k' = k <;> simp [onKey_apply, hk]
  | false => exact modifyElem_act m k k' f

end BpfHash

/-- A machine seen through one of its maps: `get` reads the entry of a key, `act` says what a step does
    to it. -/
structure CacheView {σ ε ο : Type} (M : Machine σ ε ο) (κ ν : Type) where
  get : σ → κ → Option ν
  act : σ → ε → κ → CacheAction ν
  get_init : ∀ k, get M.init k = none
  get_step : ∀ s e k, get (M.step s e).1 k = (act s e k).apply (get s k)

namespace CacheView

variable {σ ε ο κ ν : Type} {M : Machine σ ε ο} (V : CacheView M κ ν)

/-- The entry after one more event. -/
theorem get_exec_concat (pre : List ε) (e : ε) (k : κ) :
    V.get (M.exec (pre ++ [e])) k = (V.act (M.exec pre) e k).apply (V.get (M.exec pre) k) := by
  rw [Machine.exec_concat, V.get_step]

/-- **The entry of `k` was stored by `t`** with value `v`, after the events `ini`, and none of the events
    `mid` that followed stored it anew or removed it. -/
structure Born (k : κ) (ini : List ε) (t : ε) (mid : List ε) (v : ν) : Prop where
  put : V.act (M.exec ini) t k = .put v
  kept : ∀ a x b, mid = a ++ x :: b → (V.act (M.exec (ini ++ t :: a)) x k).Keeps

variable {V}

/-- One more event that keeps the entry. -/
theorem Born.concat {k : κ} {ini mid : List ε} {t x : ε} {v : ν} (h : V.Born k ini t mid v)
    (hx : (V.act (M.exec (ini ++ t :: mid)) x k).Keeps) : V.Born k ini t (mid ++ [x]) v := by
  refine ⟨h.put, ?_⟩
  intro a y b hs
  rcases Run.concat_eq_split.mp hs with ⟨rfl, rfl, rfl⟩ | ⟨rest, rfl, hs'⟩
  · exact hx
  · exact h.kept a y rest hs'

/-- A stored entry that has only been kept is present at every moment since. -/
theorem Born.present {k : κ} {ini mid : List ε} {t : ε} {v : ν} (h : V.Born k ini t mid v)
    {a b : List ε} (hs : mid = a ++ b) : V.get (M.exec (ini ++ t :: a)) k ≠ none := by
  induction a using List.reverseRecOn generalizing b with
  | nil => rw [get_exec_concat, h.put]; exact Option.some_ne_none v
  | append_singleton a x ih =>
      have hk := h.kept a x b (by simp [hs])
      rw [show ini ++ t :: (a ++ [x]) = (ini ++ t :: a) ++ [x] by simp, get_exec_concat, Ne,
        hk.apply_eq_none]
      exact ih (b := x :: b) (by simp [hs])

/-- A present entry that one more event leaves present was kept, or stored anew by it. -/
theorem act_of_get_concat {pre : List ε} {e : ε} {k : κ} {v : ν}
    (h : V.get (M.exec (pre ++ [e])) k = some v) :
    V.act (M.exec pre) e k = .put v ∨
    (V.act (M.exec pre) e k = .keep ∧ V.get (M.exec pre) k = some v) ∨
    ∃ f u, V.act (M.exec pre) e k = .update f ∧ V.get (M.exec pre) k = some u ∧ v = f u := by
  rw [get_exec_concat] at h
  cases ha : V.act (M.exec pre) e k with
  | put w => rw [ha] at h; exact Or.inl (by rw [Option.some.inj h])
  | keep => rw [ha] at h; exact Or.inr (Or.inl ⟨rfl, h⟩)
  | update f =>
      rw [ha] at h
      obtain ⟨u, hu, hv⟩ := Option.map_eq_some_iff.mp h
      exact Or.inr (Or.inr ⟨f, u, rfl, hu, hv.symm⟩)
  | drop => rw [ha] at h; exact absurd h (by simp)

/-- **Provenance.** An entry present after a run was stored by one event `t` and kept by all the events
    `mid` since; an invariant `Q` that the store establishes and that keeping and rewriting preserve
    holds of its value. -/
theorem exists_born {k : κ} {Q : List ε → ε → List ε → ν → Prop}
    (hput : ∀ ini t v, V.act (M.exec ini) t k = .put v → Q ini t [] v)
    (hkeep : ∀ ini t mid x v, V.act (M.exec (ini ++ t :: mid)) x k = .keep →
      Q ini t mid v → Q ini t (mid ++ [x]) v)
    (hupd : ∀ ini t mid x f v, V.act (M.exec (ini ++ t :: mid)) x k = .update f →
      Q ini t mid v → Q ini t (mid ++ [x]) (f v))
    {evs : List ε} {v : ν} (h : V.get (M.exec evs) k = some v) :
    ∃ ini t mid u, evs = ini ++ t :: mid ∧ V.Born k ini t mid u ∧ Q ini t mid v := by
  induction evs using List.reverseRecOn generalizing v with
  | nil => rw [Machine.exec_nil, V.get_init] at h; exact absurd h (by simp)
  | append_singleton pre e ih =>
      rcases act_of_get_concat h with hp | ⟨ha, hg⟩ | ⟨f, w, ha, hg, rfl⟩
      · -- stored by this very event
        have hborn : V.Born k pre e [] v := ⟨hp, fun a x b hs => by simp at hs⟩
        exact ⟨pre, e, [], v, rfl, hborn, hput pre e v hp⟩
      · -- there before, and left alone by this event
        obtain ⟨ini, t, mid, u, rfl, hb, hq⟩ := ih hg
        exact ⟨ini, t, mid ++ [e], u, by simp, hb.concat (by rw [ha]; trivial),
          hkeep ini t mid e v ha hq⟩
      · -- there before, and rewritten by this event
        obtain ⟨ini, t, mid, u, rfl, hb, hq⟩ := ih hg
        exact ⟨ini, t, mid ++ [e], u, by simp, hb.concat (by rw [ha]; trivial),
          hupd ini t mid e f w ha hq⟩

end CacheView
