import StorTrace.Lib.Window
import StorTrace.Collector.TimeAq

/-!
# `Collector.Windows` — what the windowed collectors have in common

`TimeAvgPmc`, `TimeThroughputPmc` and `HctxState` keep an array of windows under the same rules and differ
in the growth test, in what a sample does to its element and in the other members they have. A `Pmc` is
such an array with its clock; each class has one inside (`toPmc`), and its `commit?` is that of the `Pmc`.

`commits?_eq_some` says exactly when a sequence of commits is defined, and that it leaves the array
`Window.run` leaves.
-/

namespace StorTrace

/-- A window array, its size and its clock. -/
structure Pmc (α : Type) where
  data : List α
  size : Int
  startTime : UInt64
  interval : UInt64
  started : Bool

namespace Pmc

variable {α : Type} (slack : Nat) (zero : α) (ok : α → Prop) [DecidablePred ok]

/-- The first `commit` sets the origin of the windows. -/
def align (c : Pmc α) (tp : UInt64) : Pmc α :=
  if c.started then c else { c with startTime := tp, started := true }

def index (c : Pmc α) (tp : UInt64) : Int := toInt ((tp - c.startTime) / c.interval)

/-- A `commit` that changes the element of its window by `f`, if that is defined and `ok` holds of the
    element. -/
def commit? (c : Pmc α) (tp : UInt64) (f : α → α) : Option (Pmc α) :=
  let c := c.align tp
  let index := c.index tp
  if PmcDefined slack c.data c.size zero c.interval index ∧ ok (c.data.getD index.toNat zero) then
    let grown := pmcGrow slack c.data c.size zero index
    some { c with size := grown.2, data := pmcWrite grown.1 index f }
  else none

/-- `commit?` of each sample, in order. -/
def commits? (c : Pmc α) (us : List (UInt64 × (α → α))) : Option (Pmc α) :=
  us.foldlM (fun c u => c.commit? slack zero ok u.1 u.2) c

/-- The window of each sample and what the sample does to it. -/
def updates (c : Pmc α) (us : List (UInt64 × (α → α))) : List (Nat × (α → α)) :=
  us.map (fun u => ((c.index u.1).toNat, u.2))

/-- `ok` holds of each element at the moment it is changed. -/
def OkAll : List α → List (Nat × (α → α)) → Prop
  | _, [] => True
  | cells, u :: us => ok (cells.getD u.1 zero) ∧ OkAll (Window.store slack zero cells u.1 u.2) us

variable {slack zero ok} {c c' : Pmc α}

/-- An array whose clock was started keeps its origin. -/
theorem align_of_started {tp : UInt64} (hs : c.started = true) : c.align tp = c := if_pos hs

@[simp] theorem started_align {tp : UInt64} : (c.align tp).started = true := by
  unfold align
  split
  · assumption
  · rfl

@[simp] theorem data_align {tp : UInt64} : (c.align tp).data = c.data := by
  unfold align
  split <;> rfl

@[simp] theorem size_align {tp : UInt64} : (c.align tp).size = c.size := by
  unfold align
  split <;> rfl

@[simp] theorem interval_align {tp : UInt64} : (c.align tp).interval = c.interval := by
  unfold align
  split <;> rfl

/-! ## One commit -/

/-- The growth test of the code is that of the window array. -/
theorem pmcGrow_eq {data : List α} {size index : Int} (hsize : size = data.length) (hi : 0 ≤ index) :
    pmcGrow slack data size zero index =
      (if data.length + slack ≤ index.toNat then data ++ List.replicate data.length zero else data,
        (Window.grow slack data.length index.toNat : Int)) := by
  have hiff : index > size - 1 + slack ↔ data.length + slack ≤ index.toNat := by omega
  unfold pmcGrow Window.grow
  by_cases hg : data.length + slack ≤ index.toNat
  · rw [if_pos (hiff.mpr hg), if_pos hg, if_pos hg]
    have hn : (size * 2).toNat = 2 * data.length := by omega
    have htake : data.take (2 * data.length) = data := List.take_of_length_le (by omega)
    rw [pmcResize, hn, htake, show 2 * data.length - data.length = data.length by omega]
    rw [hsize]
    push_cast
    rw [Int.mul_comm]
  · rw [if_neg (fun h => hg (hiff.mp h)), if_neg hg, if_neg hg, hsize]

/-- A write is defined exactly if the window fits. -/
theorem pmcDefined_iff {data : List α} {size index : Int} {interval : UInt64} (hsize : size = data.length) :
    PmcDefined slack data size zero interval index ↔
      interval ≠ 0 ∧ 0 ≤ index ∧ Window.Fits slack intMax.toNat data.length index.toNat := by
  unfold PmcDefined Window.Fits
  refine and_congr_right (fun _ => ?_)
  by_cases hi : 0 ≤ index
  · have hlen : ((pmcGrow slack data size zero index).1.length : Int) =
        Window.grow slack data.length index.toNat := by
      rw [pmcGrow_eq hsize hi, Window.grow]
      split
      · simp; omega
      · rfl
    have hmax : intMax.toNat = 2147483647 := rfl
    have hmax' : intMax = 2147483647 := rfl
    rw [hlen, hmax, hmax']
    constructor
    · rintro ⟨hd, -, hlt⟩
      exact ⟨hi, fun hg => by have hd' := hd (by omega); omega, by omega⟩
    · rintro ⟨-, hd, hlt⟩
      exact ⟨fun hg => by have hd' := hd (by omega); omega, hi, by omega⟩
  · simp [hi]

/-- The array after samples whose writes are all inside. -/
def stored (slack : Nat) (zero : α) (c : Pmc α) (us : List (Nat × (α → α))) : Pmc α :=
  { c with data := Window.run slack zero c.data us, size := (Window.run slack zero c.data us).length }

/-- **One commit** to a started array whose size is right. -/
theorem commit?_eq_some {tp : UInt64} {f : α → α} (hs : c.started = true) (hsize : c.size = c.data.length) :
    c.commit? slack zero ok tp f = some c' ↔
      (c.interval ≠ 0 ∧ 0 ≤ c.index tp ∧ Window.Fits slack intMax.toNat c.data.length (c.index tp).toNat) ∧
        ok (c.data.getD (c.index tp).toNat zero) ∧ c' = c.stored slack zero [((c.index tp).toNat, f)] := by
  unfold commit?
  simp only [align_of_started hs]
  rw [Option.ite_none_right_eq_some, and_assoc, pmcDefined_iff hsize]
  refine and_congr_right (fun hd => and_congr_right (fun _ => ?_))
  rw [Option.some_inj, pmcGrow_eq hsize hd.2.1, pmcWrite, if_pos hd.2.1, eq_comm, stored, Window.run,
    List.foldl_cons, List.foldl_nil, Window.length_store, Window.store]

/-! ## A sequence of commits -/

/-- Commits to a started array. -/
theorem commits?_started {us : List (UInt64 × (α → α))} (hs : c.started = true)
    (hsize : c.size = c.data.length) (hI : c.interval ≠ 0) :
    c.commits? slack zero ok us = some c' ↔
      (∀ u ∈ us, 0 ≤ c.index u.1) ∧
        Window.FitsAll slack intMax.toNat c.data.length ((c.updates us).map Prod.fst) ∧
        OkAll slack zero ok c.data (c.updates us) ∧ c' = c.stored slack zero (c.updates us) := by
  induction us generalizing c with
  | nil =>
      have hstored : c.stored slack zero [] = c := by
        show { c with size := (c.data.length : Int) } = c
        rw [← hsize]
      show some c = some c' ↔ _ ∧ True ∧ True ∧ c' = c.stored slack zero []
      rw [hstored]
      simp [eq_comm]
  | cons u rest ih =>
      show (c.commit? slack zero ok u.1 u.2).bind (fun c => c.commits? slack zero ok rest) = some c' ↔ _
      rw [Option.bind_eq_some_iff]
      simp only [commit?_eq_some hs hsize]
      -- the clock of the array is the same after the commit, and so are the windows of the rest
      have hrest (c₁ : Pmc α) (h₁ : c₁ = c.stored slack zero [((c.index u.1).toNat, u.2)]) :=
        ih (c := c₁) (by rw [h₁]; exact hs) (by rw [h₁]; rfl) (by rw [h₁]; exact hI)
      have hlen : (c.stored slack zero [((c.index u.1).toNat, u.2)]).data.length =
          Window.grow slack c.data.length (c.index u.1).toNat := Window.length_store _ _
      constructor
      · rintro ⟨c₁, ⟨⟨-, hi, hf⟩, hok, h₁⟩, h⟩
        obtain ⟨his, hfs, hoks, rfl⟩ := (hrest c₁ h₁).mp h
        subst h₁
        rw [hlen] at hfs
        exact ⟨List.forall_mem_cons.mpr ⟨hi, his⟩, ⟨hf, hfs⟩, ⟨hok, hoks⟩, rfl⟩
      · rintro ⟨his, ⟨hf, hfs⟩, ⟨hok, hoks⟩, rfl⟩
        obtain ⟨hi, his⟩ := List.forall_mem_cons.mp his
        refine ⟨_, ⟨⟨hI, hi, hf⟩, hok, rfl⟩, (hrest _ rfl).mpr ⟨his, ?_, hoks, rfl⟩⟩
        rw [hlen]
        exact hfs

/-- A division by zero is not defined. -/
theorem commit?_interval_ne {tp : UInt64} {f : α → α} (h : c.commit? slack zero ok tp f = some c') :
    c.interval ≠ 0 := by
  unfold commit? at h
  rw [Option.ite_none_right_eq_some] at h
  obtain ⟨⟨⟨hI, -⟩, -⟩, -⟩ := h
  have hinterval : (c.align tp).interval = c.interval := interval_align
  rw [← hinterval]
  exact hI

/-- **A sequence of commits is defined exactly if** the interval is not zero, no index is negative, every
    window fits into the array, and every element may be changed. It leaves the array `Window.run` leaves,
    aligned at the first sample. -/
theorem commits?_eq_some {u : UInt64 × (α → α)} {rest : List (UInt64 × (α → α))}
    (hsize : c.size = c.data.length) :
    c.commits? slack zero ok (u :: rest) = some c' ↔
      c.interval ≠ 0 ∧ (∀ v ∈ u :: rest, 0 ≤ (c.align u.1).index v.1) ∧
        Window.FitsAll slack intMax.toNat c.data.length (((c.align u.1).updates (u :: rest)).map Prod.fst) ∧
        OkAll slack zero ok c.data ((c.align u.1).updates (u :: rest)) ∧
        c' = (c.align u.1).stored slack zero ((c.align u.1).updates (u :: rest)) := by
  -- aligning first changes nothing
  have halign : c.commits? slack zero ok (u :: rest) = (c.align u.1).commits? slack zero ok (u :: rest) := by
    show (c.commit? slack zero ok u.1 u.2).bind _ = ((c.align u.1).commit? slack zero ok u.1 u.2).bind _
    rw [commit?, commit?, align_of_started started_align]
  by_cases hI : c.interval = 0
  · constructor
    · intro h
      obtain ⟨c₁, h₁, -⟩ := Option.bind_eq_some_iff.mp h
      exact absurd hI (commit?_interval_ne h₁)
    · rintro ⟨h, -⟩
      exact absurd hI h
  · rw [halign, commits?_started started_align (by rw [data_align, size_align, hsize])
      (by rw [interval_align]; exact hI), data_align]
    simp [hI]

/-- **Samples of one time may change places**, if what they do to an element does not depend on their
    order. -/
theorem commits?_swap {tp : UInt64} {f g : α → α} (hsize : c.size = c.data.length) (hfg : ∀ a, g (f a) = f (g a))
    (hok : ∀ a, ok (f a) ↔ ok (g a)) :
    c.commits? slack zero ok [(tp, f), (tp, g)] = c.commits? slack zero ok [(tp, g), (tp, f)] := by
  ext c'
  rw [commits?_eq_some hsize, commits?_eq_some hsize]
  simp only [updates, List.map_cons, List.map_nil, List.forall_mem_cons, OkAll]
  set k := ((c.align tp).index tp).toNat
  refine and_congr_right (fun _ => and_congr_right (fun _ => and_congr_right (fun hf => ?_)))
  have hk : k < Window.grow slack c.data.length k := hf.1.2
  rw [Window.getD_store f hk, Window.getD_store g hk, stored, stored, data_align]
  simp only [if_true, hok, Window.run, List.foldl_cons, List.foldl_nil]
  rw [Window.store_store f g hk, Window.store_store g f hk, funext hfg]

theorem okAll_true (cells : List α) (us : List (Nat × (α → α))) :
    OkAll slack zero (fun _ => True) cells us := by
  induction us generalizing cells with
  | nil => trivial
  | cons u rest ih => exact ⟨trivial, ih _⟩

end Pmc

/-! ## The array inside a class -/

/-- Folding a step that may fail, through a map that every step commutes with. -/
theorem foldlM_map {σ τ ε ζ : Type} {step : σ → ε → Option σ} {step' : τ → ζ → Option τ} (g : σ → τ)
    (f : ε → ζ) (h : ∀ s e, (step s e).map g = step' (g s) (f e)) (s : σ) (es : List ε) :
    (es.foldlM step s).map g = (es.map f).foldlM step' (g s) := by
  induction es generalizing s with
  | nil => rfl
  | cons e rest ih =>
      show ((step s e).bind _).map g = (step' (g s) (f e)).bind _
      rw [← h]
      cases step s e with
      | none => rfl
      | some s₁ => exact ih s₁

namespace TimeThroughputPmc

def toPmc (c : TimeThroughputPmc) : Pmc UInt64 := ⟨c.pmcData, c.pmcSize, c.startTime, c.interval, c.started⟩

theorem toPmc_injective {c c' : TimeThroughputPmc} (h : c.toPmc = c'.toPmc) : c = c' := by
  cases c
  cases c'
  simpa [toPmc, and_assoc, and_left_comm, and_comm] using h

theorem toPmc_align (c : TimeThroughputPmc) (tp : UInt64) : (c.align tp).toPmc = c.toPmc.align tp := by
  unfold align
  cases hs : c.started with
  | true => simp [toPmc, Pmc.align, hs]
  | false => simp [toPmc, Pmc.align, hs]

/-- `commit` is that of the array inside. -/
theorem toPmc_commit? (c : TimeThroughputPmc) (s : UInt64 × UInt64) :
    (c.commit? s.1 s.2).map toPmc = c.toPmc.commit? 0 0 (fun _ => True) s.1 (· + s.2) := by
  unfold commit? Pmc.commit?
  rw [← toPmc_align]
  simp only [and_true]
  rw [apply_ite (Option.map toPmc)]
  rfl

/-- So are the commits of a sequence. -/
theorem toPmc_commits? (c : TimeThroughputPmc) (seq : List (UInt64 × UInt64)) :
    (c.commits? seq).map toPmc =
      c.toPmc.commits? 0 0 (fun _ => True) (seq.map (fun s => (s.1, (· + s.2)))) :=
  foldlM_map toPmc _ toPmc_commit? c seq

end TimeThroughputPmc

namespace TimeAvgPmc

def toPmc (c : TimeAvgPmc) : Pmc (UInt64 × Int) := ⟨c.pmcData, c.pmcSize, c.startTime, c.interval, c.started⟩

theorem toPmc_injective {c c' : TimeAvgPmc} (h : c.toPmc = c'.toPmc) : c = c' := by
  cases c
  cases c'
  simpa [toPmc, and_assoc, and_left_comm, and_comm] using h

theorem toPmc_align (c : TimeAvgPmc) (tp : UInt64) : (c.align tp).toPmc = c.toPmc.align tp := by
  unfold align
  cases hs : c.started with
  | true => simp [toPmc, Pmc.align, hs]
  | false => simp [toPmc, Pmc.align, hs]

/-- What a sample does to its element. -/
def add (data : UInt64) (aq : UInt64 × Int) : UInt64 × Int := (aq.1 + data, aq.2 + 1)

/-- The number of samples of an element can be increased. -/
def CanCount (aq : UInt64 × Int) : Prop := aq.2 < intMax

instance : DecidablePred CanCount := fun _ => inferInstanceAs (Decidable (_ < _))

/-- `commit` is that of the array inside. -/
theorem toPmc_commit? (c : TimeAvgPmc) (s : UInt64 × UInt64) :
    (c.commit? s.1 s.2).map toPmc = c.toPmc.commit? 0 (0, 0) CanCount s.1 (add s.2) := by
  unfold commit? Pmc.commit?
  rw [← toPmc_align, apply_ite (Option.map toPmc)]
  rfl

/-- So are the commits of a sequence. -/
theorem toPmc_commits? (c : TimeAvgPmc) (seq : List (UInt64 × UInt64)) :
    (c.commits? seq).map toPmc =
      c.toPmc.commits? 0 (0, 0) CanCount (seq.map (fun s => (s.1, add s.2))) :=
  foldlM_map toPmc _ toPmc_commit? c seq

end TimeAvgPmc

end StorTrace
