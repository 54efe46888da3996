import StorTrace.Lib.Run
import Mathlib.Data.List.GetD
import Mathlib.Tactic.Ring

/-!
# `Lib.Window` — arrays of windows that are doubled once when a sample is past their end

Samples fall into numbered windows, and an array keeps one cell for each. A sample past the end doubles
the array, **once**, before it is stored. `slack` is how far past the last cell a sample may be before that
happens: `0` for a test that is exact, `1` for a test that is off by one. No array gets more than `limit`
cells.

`fitsAll_iff` says which sequences of windows are all stored inside the array, in terms of the windows
alone; `getD_run` says what the cells hold then.
-/

namespace Window

/-! ## Capacities -/

section Capacity

variable (slack limit : Nat)

/-- The capacity that a sample of window `k` leaves. -/
def grow (cap k : Nat) : Nat := if cap + slack ≤ k then 2 * cap else cap

/-- A sample of window `k` is stored inside an array of `cap` cells: the array may be doubled if it has to
    be, and then has the window. -/
def Fits (cap k : Nat) : Prop := (cap + slack ≤ k → 2 * cap ≤ limit) ∧ k < grow slack cap k

/-- Every sample is stored inside the array that those before it leave. -/
def FitsAll (cap : Nat) : List Nat → Prop
  | [] => True
  | k :: ks => Fits slack limit cap k ∧ FitsAll (grow slack cap k) ks

/-- **Every doubling in reach of `k` has been made**: when `k` lies twice a capacity `b * 2 ^ m` away, or in
    the slack behind that capacity, an earlier sample enlarged the array beyond it. -/
def Reached (b : Nat) (pre : List Nat) (k : Nat) : Prop :=
  ∀ m, 2 * (b * 2 ^ m) ≤ k ∨ (b * 2 ^ m ≤ k ∧ k < b * 2 ^ m + slack) → ∃ k' ∈ pre, b * 2 ^ m + slack ≤ k'

/-- **The capacity after the windows `pre`**, from `b` cells: it is `b` doubled some times, has all those
    windows, and each doubling was caused by one of them. -/
structure CapacityAfter (b : Nat) (pre : List Nat) (cap n : Nat) : Prop where
  eq_mul : cap = b * 2 ^ n
  lt_cap : ∀ k ∈ pre, k < cap
  caused : ∀ m < n, ∃ k ∈ pre, b * 2 ^ m + slack ≤ k

end Capacity

section Fits

variable {slack limit b M cap n k : Nat} {pre ks : List Nat}

theorem CapacityAfter.nil (slack b : Nat) : CapacityAfter slack b [] b 0 where
  eq_mul := by simp
  lt_cap k hk := absurd hk (by simp)
  caused m hm := absurd hm (Nat.not_lt_zero m)

/-- A capacity below twice another one is at most that one. -/
theorem exp_le_of_lt {m : Nat} (h : b * 2 ^ m < 2 * (b * 2 ^ n)) : m ≤ n := by
  have hpow : 2 ^ m < 2 ^ (n + 1) := by
    apply Nat.lt_of_mul_lt_mul_left (a := b)
    calc b * 2 ^ m < 2 * (b * 2 ^ n) := h
      _ = b * 2 ^ (n + 1) := by ring
  exact Nat.lt_succ_iff.mp ((Nat.pow_lt_pow_iff_right (by decide)).mp hpow)

/-- A sample is inside the array exactly if every doubling in its reach has been made. -/
theorem CapacityAfter.lt_grow_iff (h : CapacityAfter slack b pre cap n) (hs : slack ≤ b) :
    k < grow slack cap k ↔ Reached slack b pre k := by
  have hcap : b ≤ cap := by rw [h.eq_mul]; exact Nat.le_mul_of_pos_right b (Nat.two_pow_pos n)
  constructor
  · intro hk m hm
    -- the capacity in question is an earlier one, or the window is not in the array
    have hlt : k < 2 * cap := by
      unfold grow at hk
      split at hk <;> omega
    have hmn : m < n := by
      rcases hm with hm | ⟨hm, hm'⟩
      · have hle : m + 1 ≤ n := by
          apply exp_le_of_lt
          rw [← h.eq_mul]
          calc b * 2 ^ (m + 1) = 2 * (b * 2 ^ m) := by ring
            _ ≤ k := hm
            _ < 2 * cap := hlt
        omega
      · have hle : m ≤ n := by
          apply exp_le_of_lt
          rw [← h.eq_mul]
          exact Nat.lt_of_le_of_lt hm hlt
        refine Nat.lt_of_le_of_ne hle ?_
        rintro rfl
        rw [← h.eq_mul] at hm hm'
        unfold grow at hk
        split at hk <;> omega
    exact h.caused m hmn
  · intro hr
    by_contra hk
    have hout : 2 * cap ≤ k ∨ (cap ≤ k ∧ k < cap + slack) := by
      unfold grow at hk
      split at hk <;> omega
    obtain ⟨k', hk', hle⟩ := hr n (by rw [← h.eq_mul]; exact hout)
    have hlt := h.lt_cap k' hk'
    rw [← h.eq_mul] at hle
    omega

/-- **One sample** that fits keeps track of the capacity. -/
theorem CapacityAfter.grow (h : CapacityAfter slack b pre cap n) (hk : k < grow slack cap k) :
    ∃ n', CapacityAfter slack b (pre ++ [k]) (Window.grow slack cap k) n' := by
  have hmem {k' : Nat} (hk' : k' ∈ pre ++ [k]) : k' ∈ pre ∨ k' = k := by simpa using hk'
  unfold Window.grow at hk ⊢
  by_cases hg : cap + slack ≤ k
  · simp only [if_pos hg] at hk ⊢
    refine ⟨n + 1, ?_, ?_, ?_⟩
    · rw [h.eq_mul]
      ring
    · intro k' hk'
      rcases hmem hk' with hk' | rfl
      · have hlt := h.lt_cap k' hk'
        omega
      · exact hk
    · intro m hm
      rcases Nat.lt_succ_iff_lt_or_eq.mp hm with hm | rfl
      · obtain ⟨k', hk', hle⟩ := h.caused m hm
        exact ⟨k', by simp [hk'], hle⟩
      · -- the new sample caused the last doubling
        exact ⟨k, by simp, by rw [← h.eq_mul]; exact hg⟩
  · simp only [if_neg hg] at hk ⊢
    refine ⟨n, h.eq_mul, ?_, ?_⟩
    · intro k' hk'
      rcases hmem hk' with hk' | rfl
      · exact h.lt_cap k' hk'
      · exact hk
    · intro m hm
      obtain ⟨k', hk', hle⟩ := h.caused m hm
      exact ⟨k', by simp [hk'], hle⟩

/-- A sample fits exactly if every doubling in its reach has been made and it is below the largest
    capacity. -/
theorem CapacityAfter.fits_iff (h : CapacityAfter slack b pre cap n) (hs : slack ≤ b)
    (hM : ∀ m, b * 2 ^ m ≤ limit ↔ m ≤ M) (hcap : cap ≤ limit) :
    Fits slack limit cap k ↔ Reached slack b pre k ∧ k < b * 2 ^ M := by
  rw [Fits, h.lt_grow_iff hs, and_comm]
  refine and_congr_right (fun hr => ?_)
  have hlt := (h.lt_grow_iff hs).mpr hr
  have hn : n ≤ M := (hM n).mp (h.eq_mul ▸ hcap)
  have hpow {m : Nat} (hm : m ≤ M) : b * 2 ^ m ≤ b * 2 ^ M :=
    Nat.mul_le_mul_left b (Nat.pow_le_pow_right (by decide) hm)
  have hdouble : 2 * cap = b * 2 ^ (n + 1) := by rw [h.eq_mul]; ring
  unfold Window.grow at hlt
  constructor
  · intro hd
    split at hlt
    · next hg =>
      have hn' := (hM (n + 1)).mp (hdouble ▸ hd hg)
      exact Nat.lt_of_lt_of_le hlt (hdouble ▸ hpow hn')
    · exact Nat.lt_of_lt_of_le hlt (h.eq_mul ▸ hpow hn)
  · intro hk hg
    rw [hdouble, hM]
    refine Nat.lt_of_le_of_ne hn ?_
    rintro rfl
    rw [← h.eq_mul] at hk
    omega

/-- The samples that come after `pre`. -/
theorem CapacityAfter.fitsAll_iff (h : CapacityAfter slack b pre cap n) (hs : slack ≤ b)
    (hM : ∀ m, b * 2 ^ m ≤ limit ↔ m ≤ M) (hcap : cap ≤ limit) :
    FitsAll slack limit cap ks ↔ Run.AllStepsFrom (fun pre k => Reached slack b pre k ∧ k < b * 2 ^ M) pre ks := by
  induction ks generalizing pre cap n with
  | nil => exact Iff.rfl
  | cons k rest ih =>
      rw [FitsAll, Run.AllStepsFrom, ← h.fits_iff hs hM hcap]
      refine and_congr_right (fun hk => ?_)
      obtain ⟨n', h'⟩ := h.grow hk.2
      apply ih h'
      unfold Window.grow
      split
      · next hg => exact hk.1 hg
      · exact hcap

/-- **Which samples are all stored inside the array**: each has every doubling in its reach made before it,
    and is below the largest capacity. -/
theorem fitsAll_iff (hs : slack ≤ b) (hM : ∀ m, b * 2 ^ m ≤ limit ↔ m ≤ M) :
    FitsAll slack limit b ks ↔ Run.AllSteps (Reached slack b) ks ∧ ∀ k ∈ ks, k < b * 2 ^ M := by
  have hb' : b ≤ limit := by simpa using (hM 0).mpr (Nat.zero_le M)
  rw [(CapacityAfter.nil slack b).fitsAll_iff hs hM hb']
  constructor
  · intro h
    refine ⟨Run.AllSteps.imp h (fun _ _ _ _ hk => hk.1), ?_⟩
    intro k hk
    obtain ⟨pre, post, hsplit⟩ := List.append_of_mem hk
    exact (Run.allSteps_iff.mp h pre k post hsplit).2
  · rintro ⟨h, hlt⟩
    exact h.imp (fun pre k post hsplit hk => ⟨hk, hlt k (by simp [hsplit])⟩)

/-- Which doublings have been made. -/
theorem CapacityAfter.lt_exp_iff (h : CapacityAfter slack b pre cap n) {m : Nat} :
    m < n ↔ ∃ k ∈ pre, b * 2 ^ m + slack ≤ k := by
  constructor
  · intro hm
    exact h.caused m hm
  · rintro ⟨k, hk, hle⟩
    have hlt := h.lt_cap k hk
    rw [h.eq_mul] at hlt
    by_contra hm
    have hpow : b * 2 ^ n ≤ b * 2 ^ m := Nat.mul_le_mul_left b (Nat.pow_le_pow_right (by decide) (Nat.le_of_not_lt hm))
    omega

/-- **Of two arrays** one has at most the cells of the other exactly if each of its doublings was made there
    as well. -/
theorem CapacityAfter.le_iff {pre' : List Nat} {cap' n' : Nat} (hb : 0 < b) (h : CapacityAfter slack b pre cap n)
    (h' : CapacityAfter slack b pre' cap' n') :
    cap ≤ cap' ↔ ∀ m, (∃ k ∈ pre, b * 2 ^ m + slack ≤ k) → ∃ k ∈ pre', b * 2 ^ m + slack ≤ k := by
  simp only [← h.lt_exp_iff, ← h'.lt_exp_iff]
  rw [h.eq_mul, h'.eq_mul, Nat.mul_le_mul_left_iff hb, Nat.pow_le_pow_iff_right (by decide)]
  constructor
  · intro hle m hm
    exact Nat.lt_of_lt_of_le hm hle
  · intro hlt
    by_contra hle
    exact absurd (hlt n' (Nat.lt_of_not_le hle)) (Nat.lt_irrefl n')

/-! ### The two growth tests -/

/-- With an exact test, only a capacity that is skipped keeps a sample out. -/
theorem reached_zero : Reached 0 b pre k ↔ ∀ m, 2 * (b * 2 ^ m) ≤ k → ∃ k' ∈ pre, b * 2 ^ m ≤ k' := by
  simp only [Reached, Nat.add_zero]
  refine forall_congr' (fun m => ?_)
  constructor
  · intro h hm
    exact h (Or.inl hm)
  · rintro h (hm | ⟨hm, hm'⟩)
    · exact h hm
    · omega

/-- **Windows in order** have every doubling made in time exactly if none of the capacities is skipped. -/
theorem allSteps_reached_zero (hsort : ks.Pairwise (· ≤ ·)) :
    Run.AllSteps (Reached 0 b) ks ↔
      ∀ m, (∃ k ∈ ks, 2 * (b * 2 ^ m) ≤ k) → ∃ k ∈ ks, b * 2 ^ m ≤ k ∧ k < 2 * (b * 2 ^ m) := by
  simp only [Run.allSteps_iff, reached_zero]
  constructor
  · rintro h m ⟨k, hk, hle⟩
    -- the first window that is so far away
    obtain ⟨k₁, hfind⟩ := Option.isSome_iff_exists.mp
      (List.find?_isSome.mpr ⟨k, hk, decide_eq_true hle⟩ : (ks.find? (fun k => 2 * (b * 2 ^ m) ≤ k)).isSome)
    obtain ⟨hle₁, pre, post, hsplit, hbefore⟩ := List.find?_eq_some_iff_append.mp hfind
    obtain ⟨k', hk', hle'⟩ := h pre k₁ post hsplit m (of_decide_eq_true hle₁)
    have hlt := hbefore k' hk'
    refine ⟨k', by rw [hsplit]; simp [hk'], hle', ?_⟩
    simpa using hlt
  · rintro h pre k post hsplit m hm
    obtain ⟨k', hk', hle, hlt⟩ := h m ⟨k, by rw [hsplit]; simp, hm⟩
    rw [hsplit, List.pairwise_append] at hsort
    rw [hsplit] at hk'
    rcases List.mem_append.mp hk' with hk' | hk'
    · exact ⟨k', hk', hle⟩
    · -- a window that comes later is not smaller
      rcases List.mem_cons.mp hk' with rfl | hk'
      · omega
      · have hafter := (List.pairwise_cons.mp hsort.2.1).1 k' hk'
        omega

/-- With a test that is off by one and windows in order, so does a window that is itself a capacity. -/
theorem allSteps_reached_one (hsort : ks.Pairwise (· ≤ ·)) :
    Run.AllSteps (Reached 1 b) ks ↔ Run.AllSteps (Reached 0 b) ks ∧ ∀ k ∈ ks, ∀ m, k ≠ b * 2 ^ m := by
  have hle {pre post : List Nat} {k : Nat} (hsplit : ks = pre ++ k :: post) : ∀ k' ∈ pre, k' ≤ k := by
    rw [hsplit, List.pairwise_append] at hsort
    intro k' hk'
    exact hsort.2.2 k' hk' k (by simp)
  constructor
  · intro h
    constructor
    · apply h.imp
      intro pre k post hsplit hr
      rw [reached_zero]
      intro m hm
      obtain ⟨k', hk', hlt⟩ := hr m (Or.inl hm)
      exact ⟨k', hk', by omega⟩
    · rintro k hk m rfl
      obtain ⟨pre, post, hsplit⟩ := List.append_of_mem hk
      -- a later window among the earlier samples
      obtain ⟨k', hk', hlt⟩ := Run.allSteps_iff.mp h pre _ post hsplit m (Or.inr ⟨Nat.le_refl _, by omega⟩)
      have hk'le := hle hsplit k' hk'
      omega
  · rintro ⟨h, hne⟩
    apply h.imp
    intro pre k post hsplit hr m hm
    have hmem {k' : Nat} (hk' : k' ∈ pre) : k' ∈ ks := by rw [hsplit]; simp [hk']
    rcases hm with hm | ⟨hm, hm'⟩
    · obtain ⟨k', hk', hle'⟩ := reached_zero.mp hr m hm
      have hk'ne := hne k' (hmem hk') m
      exact ⟨k', hk', by omega⟩
    · have hkne := hne k (by rw [hsplit]; simp) m
      omega

end Fits

/-! ## Cells -/

section Cells

variable {α : Type} (slack : Nat) (zero : α)

/-- Store a sample: enlarge the array if the test asks for it, then change the cell of window `k`. -/
def store (cells : List α) (k : Nat) (f : α → α) : List α :=
  (if cells.length + slack ≤ k then cells ++ List.replicate cells.length zero else cells).modify k f

/-- Store samples, each a window and what it does to the cell. -/
def run (cells : List α) (us : List (Nat × (α → α))) : List α :=
  us.foldl (fun cells u => store slack zero cells u.1 u.2) cells

/-- What the samples of window `i` make of its cell, in order. -/
def total (us : List (Nat × (α → α))) (i : Nat) (a : α) : α :=
  (us.filter (fun u => u.1 = i)).foldl (fun a u => u.2 a) a

@[simp] theorem total_nil (i : Nat) (a : α) : total [] i a = a := rfl

theorem total_cons (u : Nat × (α → α)) (us : List (Nat × (α → α))) (i : Nat) (a : α) :
    total (u :: us) i a = total us i (if u.1 = i then u.2 a else a) := by
  unfold total
  by_cases hu : u.1 = i
  · simp [hu]
  · simp [hu]

variable {slack zero} {limit : Nat} {cells : List α} {us : List (Nat × (α → α))}

@[simp] theorem length_store (k : Nat) (f : α → α) :
    (store slack zero cells k f).length = grow slack cells.length k := by
  unfold store grow
  by_cases hg : cells.length + slack ≤ k
  · simp [hg]; omega
  · simp [hg]

/-- A sample changes the cell of its window and no other. -/
theorem getD_store {k : Nat} (f : α → α) (hk : k < grow slack cells.length k) (i : Nat) :
    (store slack zero cells k f).getD i zero =
      if k = i then f (cells.getD i zero) else cells.getD i zero := by
  -- reading past the end gives `zero`, as the new cells do
  have hgrown (n : Nat) : (cells ++ List.replicate n zero).getD i zero = cells.getD i zero := by
    by_cases hi : i < cells.length
    · rw [List.getD_append _ _ _ _ hi]
    · rw [List.getD_append_right _ _ _ _ (Nat.le_of_not_lt hi), List.getD_eq_default _ _ (Nat.le_of_not_lt hi)]
      by_cases hn : i - cells.length < n
      · rw [List.getD_eq_getElem _ _ (by simpa using hn), List.getElem_replicate]
      · rw [List.getD_eq_default _ _ (by simpa using hn)]
  have hmodify (l : List α) (hl : k < l.length) :
      (l.modify k f).getD i zero = if k = i then f (l.getD i zero) else l.getD i zero := by
    simp only [List.getD_eq_getElem?_getD, List.getElem?_modify]
    by_cases hki : k = i
    · subst hki
      simp [List.getElem?_eq_getElem hl]
    · simp [hki]
  unfold store
  unfold grow at hk
  split
  · next hg =>
    rw [if_pos hg] at hk
    rw [hmodify _ (by rw [List.length_append, List.length_replicate]; omega), hgrown]
  · next hg =>
    rw [if_neg hg] at hk
    rw [hmodify _ hk]

/-- Two samples of one window are stored as one. -/
theorem store_store {k : Nat} (f g : α → α) (hk : k < grow slack cells.length k) :
    store slack zero (store slack zero cells k f) k g = store slack zero cells k (fun a => g (f a)) := by
  have hno : ¬ (store slack zero cells k f).length + slack ≤ k := by
    rw [length_store]
    omega
  rw [store, if_neg hno, store, store, List.modify_modify_eq]
  rfl

/-- **What the cells hold** after samples that were all stored inside the array. -/
theorem getD_run (h : FitsAll slack limit cells.length (us.map Prod.fst)) (i : Nat) :
    (run slack zero cells us).getD i zero = total us i (cells.getD i zero) := by
  induction us generalizing cells with
  | nil => rfl
  | cons u rest ih =>
      obtain ⟨hu, hrest⟩ := h
      show (run slack zero (store slack zero cells u.1 u.2) rest).getD i zero = _
      rw [ih (by rw [length_store]; exact hrest), getD_store _ hu.2, total_cons]

/-- The array does not shrink. -/
theorem length_le_run : cells.length ≤ (run slack zero cells us).length := by
  induction us generalizing cells with
  | nil => exact Nat.le_refl _
  | cons u rest ih =>
      have hstore : cells.length ≤ (store slack zero cells u.1 u.2).length := by
        rw [length_store, grow]
        split <;> omega
      exact Nat.le_trans hstore ih

/-- The array never gets more than `limit` cells. -/
theorem length_run_le (h : FitsAll slack limit cells.length (us.map Prod.fst)) (hl : cells.length ≤ limit) :
    (run slack zero cells us).length ≤ limit := by
  induction us generalizing cells with
  | nil => exact hl
  | cons u rest ih =>
      obtain ⟨hu, hrest⟩ := h
      have hfit : FitsAll slack limit (store slack zero cells u.1 u.2).length (rest.map Prod.fst) := by
        rw [length_store]
        exact hrest
      refine ih hfit ?_
      rw [length_store, grow]
      split
      · next hg => exact hu.1 hg
      · exact hl

/-- Samples that were stored inside the array have a cell in the final one. -/
theorem lt_length_run (h : FitsAll slack limit cells.length (us.map Prod.fst)) :
    ∀ u ∈ us, u.1 < (run slack zero cells us).length := by
  induction us generalizing cells with
  | nil => intro u hu; exact absurd hu (by simp)
  | cons v rest ih =>
      obtain ⟨hv, hrest⟩ := h
      intro u hu
      rcases List.mem_cons.mp hu with rfl | hu
      · have hstore : u.1 < (store slack zero cells u.1 u.2).length := by rw [length_store]; exact hv.2
        exact Nat.lt_of_lt_of_le hstore length_le_run
      · have hfit : FitsAll slack limit (store slack zero cells v.1 v.2).length (rest.map Prod.fst) := by
          rw [length_store]
          exact hrest
        exact ih hfit u hu

/-- **The capacity after all samples.** -/
theorem CapacityAfter.run {b n : Nat} {pre : List Nat} (hcap : CapacityAfter slack b pre cells.length n)
    (h : FitsAll slack limit cells.length (us.map Prod.fst)) :
    ∃ n', CapacityAfter slack b (pre ++ us.map Prod.fst) (Window.run slack zero cells us).length n' := by
  induction us generalizing cells pre n with
  | nil =>
      rw [List.map_nil, List.append_nil]
      exact ⟨n, hcap⟩
  | cons u rest ih =>
      obtain ⟨hu, hrest⟩ := h
      obtain ⟨n₁, hcap₁⟩ := hcap.grow hu.2
      have hlen : (store slack zero cells u.1 u.2).length = Window.grow slack cells.length u.1 := length_store u.1 u.2
      rw [← hlen] at hcap₁ hrest
      obtain ⟨n', hcap'⟩ := ih hcap₁ hrest
      rw [List.append_assoc] at hcap'
      exact ⟨n', hcap'⟩

end Cells

end Window
