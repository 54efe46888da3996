import Mathlib.Data.List.Basic
import Mathlib.Data.List.Induction

/-!
# `Lib.Run` — runs of an event machine

A `Machine` consumes one event at a time and emits zero or more records. A **run** is the list of the
events in the order they happened; the state after a run is a left fold (`exec`), the records are the
concatenation of what each step emitted (`emit`).

Statements about "every step of a run" are `AllSteps C evs`: the condition `C pre e` holds of every event
`e` of the run given the events `pre` before it. It is defined by recursion, so it can be decided on a
concrete run, and `allSteps_iff` gives the split form the proofs use.
-/

/-- A deterministic event machine. -/
structure Machine (σ ε ο : Type) where
  init : σ
  step : σ → ε → σ × List ο

namespace Machine

variable {σ ε ο : Type} (M : Machine σ ε ο)

/-- The state after the events `evs`. -/
def exec (evs : List ε) : σ := evs.foldl (fun s e => (M.step s e).1) M.init

/-- The records the event `e` emits after the events `pre`. -/
def out (pre : List ε) (e : ε) : List ο := (M.step (M.exec pre) e).2

/-- The records emitted by the events `evs` from state `s`. -/
def emitFrom (s : σ) : List ε → List ο
  | [] => []
  | e :: rest => (M.step s e).2 ++ emitFrom (M.step s e).1 rest

/-- The records emitted by a run. -/
def emit (evs : List ε) : List ο := M.emitFrom M.init evs

@[simp] theorem exec_nil : M.exec [] = M.init := rfl

@[simp] theorem exec_concat (evs : List ε) (e : ε) :
    M.exec (evs ++ [e]) = (M.step (M.exec evs) e).1 := by
  simp [exec]

/-- The records of `xs ++ ys`: those of `ys` are emitted from the state `xs` lead to. -/
theorem emitFrom_append (s : σ) (xs ys : List ε) :
    M.emitFrom s (xs ++ ys)
      = M.emitFrom s xs ++ M.emitFrom (xs.foldl (fun s e => (M.step s e).1) s) ys := by
  induction xs generalizing s with
  | nil => rfl
  | cons x rest ih => simp only [List.cons_append, emitFrom, ih, List.foldl_cons, List.append_assoc]

/-- Every record is emitted by one of the events. -/
theorem exists_of_mem_emitFrom {s : σ} {xs : List ε} {r : ο} (h : r ∈ M.emitFrom s xs) :
    ∃ s', ∃ e ∈ xs, r ∈ (M.step s' e).2 := by
  induction xs generalizing s with
  | nil => exact absurd h (by simp [emitFrom])
  | cons x rest ih =>
      rcases List.mem_append.mp h with h | h
      · exact ⟨s, x, by simp, h⟩
      · obtain ⟨s', e, he, hr⟩ := ih h
        exact ⟨s', e, by simp [he], hr⟩

/-- Events that emit nothing, whatever the state. -/
theorem emitFrom_quiet {s : σ} {xs : List ε} (h : ∀ s, ∀ e ∈ xs, (M.step s e).2 = []) :
    M.emitFrom s xs = [] := by
  refine List.eq_nil_iff_forall_not_mem.mpr ?_
  intro r hr
  obtain ⟨s', e, he, hr⟩ := M.exists_of_mem_emitFrom hr
  exact absurd hr (by simp [h s' e he])

@[simp] theorem emit_nil : M.emit [] = [] := rfl

theorem emit_concat (evs : List ε) (e : ε) : M.emit (evs ++ [e]) = M.emit evs ++ M.out evs e := by
  unfold emit
  rw [emitFrom_append]
  simp [emitFrom, out, exec]

end Machine

/-! ## Splitting a run at one of its events -/

namespace Run

variable {ε : Type}

/-- A split of `evs ++ [x]` at one event is either at the last event or a split of `evs`. -/
theorem concat_eq_split {evs pre post : List ε} {x e : ε} :
    evs ++ [x] = pre ++ e :: post ↔
      (post = [] ∧ pre = evs ∧ e = x) ∨ ∃ rest, post = rest ++ [x] ∧ evs = pre ++ e :: rest := by
  constructor
  · intro h
    rcases List.eq_nil_or_concat' post with hp | ⟨rest, y, hp⟩
    · subst hp
      obtain ⟨h1, h2⟩ := List.append_inj' h rfl
      exact Or.inl ⟨rfl, h1.symm, by simpa using h2.symm⟩
    · subst hp
      rw [show pre ++ e :: (rest ++ [y]) = (pre ++ e :: rest) ++ [y] by simp] at h
      obtain ⟨h1, h2⟩ := List.append_inj' h rfl
      exact Or.inr ⟨rest, by simpa using h2.symm, h1⟩
  · rintro (⟨rfl, rfl, rfl⟩ | ⟨rest, rfl, rfl⟩) <;> simp

/-! ## The last event of a kind -/

section LastWith

variable {β : Type} (f : ε → Option β)

/-- The scan behind `lastWith`: `pre` has been seen, and `acc` is the answer for it. -/
def lastWithFrom (pre : List ε) (acc : Option (List ε × β)) : List ε → Option (List ε × β)
  | [] => acc
  | e :: rest =>
      lastWithFrom (pre ++ [e]) (match f e with | some b => some (pre, b) | none => acc) rest

/-- **The last event that `f` selects**, as what `f` makes of it and the events before it. -/
def lastWith (evs : List ε) : Option (List ε × β) := lastWithFrom f [] none evs

/-- The events after the one that `lastWith` found. -/
def since (evs : List ε) (w : List ε × β) : List ε := evs.drop (w.1.length + 1)

variable {f}

theorem since_split (ini mid : List ε) (t : ε) (b : β) : since (ini ++ t :: mid) (ini, b) = mid := by
  rw [since, List.drop_append, List.drop_eq_nil_of_le (Nat.le_succ _), List.nil_append]
  simp

/-- The scan of one more event: a selected one is the answer, whatever was found before. -/
theorem lastWithFrom_concat (pre : List ε) (acc : Option (List ε × β)) (evs : List ε) (e : ε) :
    lastWithFrom f pre acc (evs ++ [e]) =
      match f e with
      | some b => some (pre ++ evs, b)
      | none => lastWithFrom f pre acc evs := by
  induction evs generalizing pre acc with
  | nil =>
      simp only [List.nil_append, List.append_nil, lastWithFrom]
  | cons x rest ih =>
      simp only [List.cons_append, lastWithFrom, ih]
      simp

theorem lastWith_concat (evs : List ε) (e : ε) :
    lastWith f (evs ++ [e]) =
      match f e with
      | some b => some (evs, b)
      | none => lastWith f evs :=
  lastWithFrom_concat [] none evs e

/-- The last selected event really is one of the run. -/
theorem split_of_lastWith {evs ini : List ε} {b : β} (h : lastWith f evs = some (ini, b)) :
    ∃ t mid, evs = ini ++ t :: mid ∧ f t = some b ∧ ∀ x ∈ mid, f x = none := by
  induction evs using List.reverseRecOn with
  | nil => exact absurd h (by simp [lastWith, lastWithFrom])
  | append_singleton pre e ih =>
      rw [lastWith_concat] at h
      -- the new event is the last one if it is selected, and changes nothing otherwise
      cases he : f e with
      | some c =>
          rw [he] at h
          obtain ⟨rfl, rfl⟩ : pre = ini ∧ c = b := by simpa using h
          exact ⟨e, [], rfl, he, by simp⟩
      | none =>
          rw [he] at h
          obtain ⟨t, mid, rfl, ht, hmid⟩ := ih h
          refine ⟨t, mid ++ [e], by simp, ht, ?_⟩
          intro x hx
          rcases List.mem_append.mp hx with hx | hx
          · exact hmid x hx
          · rw [List.mem_singleton.mp hx]; exact he

/-- A selected event is the last one, or a later one is. -/
theorem lastWith_of_split (ini mid : List ε) {t : ε} {b : β} (ht : f t = some b) :
    ∃ ini' b', lastWith f (ini ++ t :: mid) = some (ini', b') ∧
      ((ini' = ini ∧ b' = b) ∨
        ∃ a t' c, mid = a ++ t' :: c ∧ ini' = ini ++ t :: a ∧ f t' = some b') := by
  induction mid using List.reverseRecOn with
  | nil =>
      refine ⟨ini, b, ?_, Or.inl ⟨rfl, rfl⟩⟩
      rw [lastWith_concat, ht]
  | append_singleton mid e ih =>
      have hassoc : ini ++ t :: (mid ++ [e]) = (ini ++ t :: mid) ++ [e] := by simp
      cases he : f e with
      | some c =>
          refine ⟨ini ++ t :: mid, c, ?_, Or.inr ⟨mid, e, [], rfl, rfl, he⟩⟩
          rw [hassoc, lastWith_concat, he]
      | none =>
          obtain ⟨ini', b', hl, hwhere⟩ := ih
          refine ⟨ini', b', ?_, hwhere.imp id ?_⟩
          · rw [hassoc, lastWith_concat, he]; exact hl
          · rintro ⟨a, t', c, rfl, hi, ht'⟩
            exact ⟨a, t', c ++ [e], by simp, hi, ht'⟩

end LastWith

/-! ## What the steps of a run contribute -/

section Collect

variable {β : Type} (f : List ε → ε → List β)

/-- What the events of `evs` contribute, where `pre` has already happened. -/
def collectFrom : List ε → List ε → List β
  | _, [] => []
  | pre, e :: rest => f pre e ++ collectFrom (pre ++ [e]) rest

/-- **The contributions of the steps of a run**, each given the events before it, in order. -/
def collect (evs : List ε) : List β := collectFrom f [] evs

@[simp] theorem collect_nil : collect f [] = [] := rfl

theorem collectFrom_concat (pre evs : List ε) (e : ε) :
    collectFrom f pre (evs ++ [e]) = collectFrom f pre evs ++ f (pre ++ evs) e := by
  induction evs generalizing pre with
  | nil => simp [collectFrom]
  | cons x rest ih => simp only [List.cons_append, collectFrom, ih, List.append_assoc, List.nil_append]

theorem collect_concat (evs : List ε) (e : ε) : collect f (evs ++ [e]) = collect f evs ++ f evs e :=
  collectFrom_concat f [] evs e

/-- The contribution of the last step that makes one. -/
def latest (f : List ε → ε → Option β) (evs : List ε) : Option β :=
  (collect (fun pre e => (f pre e).toList) evs).getLast?

@[simp] theorem latest_nil (f : List ε → ε → Option β) : latest f [] = none := rfl

theorem latest_concat (f : List ε → ε → Option β) (evs : List ε) (e : ε) :
    latest f (evs ++ [e]) = (f evs e).or (latest f evs) := by
  unfold latest
  rw [collect_concat]
  cases f evs e with
  | none => simp
  | some b => simp

/-- It is that of the last event, or an earlier one if the last event makes none. -/
theorem latest_concat_eq_some {f : List ε → ε → Option β} {evs : List ε} {e : ε} {b : β} :
    latest f (evs ++ [e]) = some b ↔ f evs e = some b ∨ f evs e = none ∧ latest f evs = some b := by
  rw [latest_concat, Option.or_eq_some_iff]

/-- It is made at one of the events. -/
theorem exists_of_latest {f : List ε → ε → Option β} {evs : List ε} {b : β} (h : latest f evs = some b) :
    ∃ pre e post, evs = pre ++ e :: post ∧ f pre e = some b := by
  induction evs using List.reverseRecOn with
  | nil => exact absurd h (by simp)
  | append_singleton evs e ih =>
      rcases latest_concat_eq_some.mp h with he | ⟨-, hold⟩
      · exact ⟨evs, e, [], rfl, he⟩
      · obtain ⟨pre, x, post, rfl, hx⟩ := ih hold
        exact ⟨pre, x, post ++ [e], by simp, hx⟩

end Collect

/-! ## Every step of a run -/

/-- `C` holds at each event of `rest`, where `pre` has already happened. -/
def AllStepsFrom (C : List ε → ε → Prop) : List ε → List ε → Prop
  | _, [] => True
  | pre, e :: rest => C pre e ∧ AllStepsFrom C (pre ++ [e]) rest

/-- **Every step of the run `evs` meets `C`**, given the events before it. -/
def AllSteps (C : List ε → ε → Prop) (evs : List ε) : Prop := AllStepsFrom C [] evs

instance decidableAllStepsFrom (C : List ε → ε → Prop) [∀ pre e, Decidable (C pre e)] :
    ∀ pre rest, Decidable (AllStepsFrom C pre rest)
  | _, [] => inferInstanceAs (Decidable True)
  | pre, e :: rest =>
      have := decidableAllStepsFrom C (pre ++ [e]) rest
      inferInstanceAs (Decidable (C pre e ∧ AllStepsFrom C (pre ++ [e]) rest))

instance (C : List ε → ε → Prop) [∀ pre e, Decidable (C pre e)] (evs : List ε) :
    Decidable (AllSteps C evs) := decidableAllStepsFrom C [] evs

theorem allStepsFrom_iff {C : List ε → ε → Prop} {base evs : List ε} :
    AllStepsFrom C base evs ↔ ∀ pre e post, evs = pre ++ e :: post → C (base ++ pre) e := by
  induction evs generalizing base with
  | nil => simp [AllStepsFrom]
  | cons x rest ih =>
      simp only [AllStepsFrom, ih]
      constructor
      · rintro ⟨hx, hrest⟩ pre e post hs
        -- the event is the head of the run, or one of its tail
        rcases pre with _ | ⟨y, pre⟩
        · obtain ⟨rfl, rfl⟩ : x = e ∧ rest = post := by simpa using hs
          simpa using hx
        · obtain ⟨rfl, hs'⟩ : x = y ∧ rest = pre ++ e :: post := by simpa using hs
          simpa using hrest pre e post hs'
      · intro h
        refine ⟨by simpa using h [] x rest rfl, ?_⟩
        intro pre e post hs
        simpa using h (x :: pre) e post (by simp [hs])

/-- The split form of `AllSteps`. -/
theorem allSteps_iff {C : List ε → ε → Prop} {evs : List ε} :
    AllSteps C evs ↔ ∀ pre e post, evs = pre ++ e :: post → C pre e := by
  simp [AllSteps, allStepsFrom_iff]

@[simp] theorem allSteps_nil (C : List ε → ε → Prop) : AllSteps C [] := trivial

theorem allSteps_concat {C : List ε → ε → Prop} {evs : List ε} {e : ε} :
    AllSteps C (evs ++ [e]) ↔ AllSteps C evs ∧ C evs e := by
  simp only [allSteps_iff, concat_eq_split]
  constructor
  · intro h
    constructor
    · intro pre x post hs
      exact h pre x (post ++ [e]) (Or.inr ⟨post, rfl, hs⟩)
    · exact h evs e [] (Or.inl ⟨rfl, rfl, rfl⟩)
  -- an event of the longer run is the new one, or one of the shorter run
  · rintro ⟨h, he⟩ pre x post (⟨rfl, rfl, rfl⟩ | ⟨rest, rfl, hs⟩)
    · exact he
    · exact h pre x rest hs

theorem allStepsFrom_append {C : List ε → ε → Prop} {base xs ys : List ε} :
    AllStepsFrom C base (xs ++ ys) ↔ AllStepsFrom C base xs ∧ AllStepsFrom C (base ++ xs) ys := by
  induction xs generalizing base with
  | nil => simp [AllStepsFrom]
  | cons x rest ih => simp only [List.cons_append, AllStepsFrom, ih, and_assoc, List.append_assoc, List.nil_append]

/-- **Every contribution meets `C`, given the contributions before it**, if those of every step do. -/
theorem allSteps_collect {β : Type} {f : List ε → ε → List β} {C : List β → β → Prop} {evs : List ε} :
    AllSteps C (collect f evs) ↔
      AllSteps (fun pre e => AllStepsFrom C (collect f pre) (f pre e)) evs := by
  induction evs using List.reverseRecOn with
  | nil => simp
  | append_singleton evs e ih =>
      rw [collect_concat, allSteps_concat, ← ih]
      unfold AllSteps
      rw [allStepsFrom_append, List.nil_append]

/-- What follows from `C` at each event of the run holds at every step. -/
theorem AllSteps.imp {C D : List ε → ε → Prop} {evs : List ε} (h : AllSteps C evs)
    (hi : ∀ pre e post, evs = pre ++ e :: post → C pre e → D pre e) : AllSteps D evs := by
  rw [allSteps_iff]
  intro pre e post hs
  have hc : C pre e := allSteps_iff.mp h pre e post hs
  exact hi pre e post hs hc

/-- Conditions that agree at every event of a run hold of the same runs. -/
theorem allSteps_congr {C D : List ε → ε → Prop} (h : ∀ pre e, C pre e ↔ D pre e) (evs : List ε) :
    AllSteps C evs ↔ AllSteps D evs := by
  constructor
  · intro hc
    exact hc.imp (fun pre e _ _ => (h pre e).mp)
  · intro hd
    exact hd.imp (fun pre e _ _ => (h pre e).mpr)

/-- A run all of whose steps meet `C` has only prefixes of that kind. -/
theorem AllSteps.prefix {C : List ε → ε → Prop} {a b : List ε} (h : AllSteps C (a ++ b)) :
    AllSteps C a := by
  rw [allSteps_iff]
  intro pre e post hs
  have hsplit : a ++ b = pre ++ e :: (post ++ b) := by rw [hs]; simp
  exact allSteps_iff.mp h pre e (post ++ b) hsplit

/-! ## Every event of one kind is followed by one of another -/

section Followed

variable {P Q : ε → Prop}

/-- Every `P` of the run has a `Q` after it. -/
def Followed (P Q : ε → Prop) : List ε → Prop
  | [] => True
  | e :: rest => (P e → ∃ x ∈ rest, Q x) ∧ Followed P Q rest

instance decidableFollowed [DecidablePred P] [DecidablePred Q] : ∀ evs, Decidable (Followed P Q evs)
  | [] => inferInstanceAs (Decidable True)
  | e :: rest =>
      have := decidableFollowed rest
      inferInstanceAs (Decidable ((P e → ∃ x ∈ rest, Q x) ∧ Followed P Q rest))

@[simp] theorem followed_nil : Followed P Q [] := trivial

/-- The last event is not followed by anything; if it is a `Q`, everything before it is. -/
theorem followed_concat {evs : List ε} {e : ε} :
    Followed P Q (evs ++ [e]) ↔ ¬ P e ∧ (Q e ∨ Followed P Q evs) := by
  induction evs with
  | nil => simp [Followed]
  | cons x rest ih =>
      simp only [List.cons_append, Followed, ih, List.mem_append, List.mem_singleton]
      constructor
      · rintro ⟨hx, hp, hq⟩
        refine ⟨hp, ?_⟩
        by_cases hqe : Q e
        · exact Or.inl hqe
        · refine Or.inr ⟨?_, hq.resolve_left hqe⟩
          intro hpx
          obtain ⟨y, hy | rfl, hqy⟩ := hx hpx
          · exact ⟨y, hy, hqy⟩
          · exact absurd hqy hqe
      · rintro ⟨hp, hqe | ⟨hx, hrest⟩⟩
        · exact ⟨fun _ => ⟨e, Or.inr rfl, hqe⟩, hp, Or.inl hqe⟩
        · refine ⟨?_, hp, Or.inr hrest⟩
          intro hpx
          obtain ⟨y, hy, hqy⟩ := hx hpx
          exact ⟨y, Or.inl hy, hqy⟩

end Followed

end Run

namespace Machine

variable {σ ε ο : Type} {M : Machine σ ε ο}

/-- The records of a run are what its steps emit. -/
theorem emit_eq_collect (evs : List ε) : M.emit evs = Run.collect M.out evs := by
  induction evs using List.reverseRecOn with
  | nil => rfl
  | append_singleton evs e ih => rw [emit_concat, Run.collect_concat, ih]

/-- **A register holds what was written to it last.** `write e` is the value the event stores, if any. -/
theorem register_last {α : Type} (get : σ → α) (write : ε → Option α)
    (hw : ∀ s e, get (M.step s e).1 = (write e).getD (get s)) (evs : List ε) :
    get (M.exec evs) = ((evs.filterMap write).getLast?).getD (get M.init) := by
  induction evs using List.reverseRecOn with
  | nil => rfl
  | append_singleton pre e ih =>
      rw [exec_concat, hw, ih, List.filterMap_append]
      cases he : write e with
      | none => rw [List.filterMap_cons_none he, List.filterMap_nil, List.append_nil]; rfl
      | some v => rw [List.filterMap_cons_some he, List.filterMap_nil, List.getLast?_concat]; rfl

/-! ## Labelled events -/

/-- The same machine on events that carry a label it does not see. -/
def labelled (M : Machine σ ε ο) (ι : Type) : Machine σ (ι × ε) ο where
  init := M.init
  step s e := M.step s e.2

end Machine
