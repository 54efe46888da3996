import StorTrace.Lib.Layout
import Mathlib.Data.List.AList

/-!
# `Collector.TimeAq` — windowed averages, windowed throughput and counters (`time_aq.hpp`)

A windowed collector adds each sample to the window its time falls in, counted from the first sample. The
window array is doubled once when the index is past its end, whatever the index.

`commit` leaves the array alone when the write would still be outside; `commit?` says whether the call is
defined at all. A collector's name is only printed, so it travels with the JSON record.
-/

namespace StorTrace

/-- A `u64` assigned to an `int`. -/
def toInt (w : UInt64) : Int := w.toUInt32.toInt32.toInt

/-- An argument passed to an `int` parameter and stored in an `unsigned long` member. -/
def intParam (arg : UInt64) : UInt64 := arg.toUInt32.toInt32.toInt64.toUInt64

/-- A small `u64` keeps its value as an `int`. -/
theorem toInt_of_lt {w : UInt64} (h : w.toNat < 2147483648) : toInt w = w.toNat := by
  have h32 : w.toUInt32.toNat = w.toNat := by
    rw [UInt64.toNat_toUInt32]
    omega
  show w.toUInt32.toBitVec.toInt = w.toNat
  rw [BitVec.toInt_eq_toNat_of_lt]
  · show (w.toUInt32.toNat : Int) = w.toNat
    rw [h32]
  · show 2 * w.toUInt32.toNat < 2 ^ 32
    omega

/-- An `int` that is not negative keeps its value as a `u64`. -/
theorem toNat_ofInt_of_lt {n : Nat} (h : n < 2147483648) : (UInt64.ofInt (n : Int)).toNat = n := by
  rw [UInt64.ofInt, UInt64.toNat_ofNat']
  omega

/-- The largest `int`. -/
def intMax : Int := 2147483647

/-! ## The window array -/

section Pmc

variable {α : Type}

/-- `pmc_data[index] = f(pmc_data[index])`. -/
def pmcWrite (pmcData : List α) (index : Int) (f : α → α) : List α :=
  if 0 ≤ index then pmcData.modify index.toNat f else pmcData

/-- `pmc_data.resize(n)`. -/
def pmcResize (pmcData : List α) (n : Int) (zero : α) : List α :=
  pmcData.take n.toNat ++ List.replicate (n.toNat - pmcData.length) zero

variable (slack : Int) (pmcData : List α) (pmcSize : Int) (zero : α) (interval : UInt64) (index : Int)

/-- The array and its size after the growth test; `slack` is how far past the last element the test lets
    the index go. -/
def pmcGrow : List α × Int :=
  if index > pmcSize - 1 + slack then (pmcResize pmcData (pmcSize * 2) zero, pmcSize * 2)
  else (pmcData, pmcSize)

/-- A `commit` is defined: it does not divide by zero, the doubled size is an `int`, and the element it
    writes exists. -/
def PmcDefined : Prop :=
  interval ≠ 0 ∧ (index > pmcSize - 1 + slack → pmcSize * 2 ≤ intMax) ∧
    0 ≤ index ∧ index < (pmcGrow slack pmcData pmcSize zero index).1.length

instance : Decidable (PmcDefined slack pmcData pmcSize zero interval index) :=
  inferInstanceAs (Decidable (_ ∧ _ ∧ _ ∧ _))

end Pmc

/-! ## Averages -/

/-- `class TimeAvgPmc`; an element is a sum and the number of samples in it. -/
structure TimeAvgPmc where
  pmcData : List (UInt64 × Int)
  startTime : UInt64
  interval : UInt64
  pmcSize : Int
  started : Bool
deriving DecidableEq

/-- The JSON record of `TimeAvgPmc::get_json`. -/
structure AvgsJson where
  name : String
  avgs : List UInt64
deriving DecidableEq

namespace TimeAvgPmc

/-- A collector whose member `interval` is given; `start_time` is set by the first `commit`. -/
def ofInterval (interval : UInt64) : TimeAvgPmc := ⟨List.replicate 30 (0, 0), 0, interval, 30, false⟩

/-- The constructor. -/
def new (interval : UInt64) : TimeAvgPmc := ofInterval (intParam interval)

/-- The first `commit` sets the origin of the windows. -/
def align (c : TimeAvgPmc) (tp : UInt64) : TimeAvgPmc :=
  if c.started then c else { c with startTime := tp, started := true }

def index (c : TimeAvgPmc) (tp : UInt64) : Int := toInt ((tp - c.startTime) / c.interval)

def commit (c : TimeAvgPmc) (tp data : UInt64) : TimeAvgPmc :=
  let c := c.align tp
  let index := c.index tp
  let grown := pmcGrow 0 c.pmcData c.pmcSize (0, 0) index
  { c with
    pmcSize := grown.2
    pmcData := pmcWrite grown.1 index (fun aq => (aq.1 + data, aq.2 + 1)) }

/-- `commit`, if it is defined: the number of samples of a window is an `int` too. -/
def commit? (c : TimeAvgPmc) (tp data : UInt64) : Option TimeAvgPmc :=
  let a := c.align tp
  let index := a.index tp
  if PmcDefined 0 a.pmcData a.pmcSize (0, 0) a.interval index ∧
      (a.pmcData.getD index.toNat (0, 0)).2 < intMax then some (c.commit tp data)
  else none

/-- `commit` of each sample, in order. -/
def commits? (c : TimeAvgPmc) (seq : List (UInt64 × UInt64)) : Option TimeAvgPmc :=
  seq.foldlM (fun c s => c.commit? s.1 s.2) c

/-- The average of an element; an element without samples has none. -/
def average (aq : UInt64 × Int) : UInt64 := if aq.2 ≠ 0 then aq.1 / UInt64.ofInt aq.2 else 0

/-- `get_json`. -/
def getJson (c : TimeAvgPmc) (name : String) : AvgsJson := ⟨name, c.pmcData.map average⟩

variable {c : TimeAvgPmc} {tp : UInt64}

/-- A collector that was started keeps its origin. -/
theorem align_of_started (hs : c.started = true) : c.align tp = c := if_pos hs

@[simp] theorem started_align : (c.align tp).started = true := by
  unfold align
  split
  · assumption
  · rfl

@[simp] theorem interval_align : (c.align tp).interval = c.interval := by
  unfold align
  split <;> rfl

end TimeAvgPmc

/-! ## Throughput -/

/-- `class TimeThroughputPmc`. -/
structure TimeThroughputPmc where
  pmcData : List UInt64
  startTime : UInt64
  interval : UInt64
  pmcSize : Int
  started : Bool
deriving DecidableEq

/-- The JSON record of `TimeThroughputPmc::get_json`. -/
structure SeqJson where
  name : String
  seqData : List UInt64
deriving DecidableEq

namespace TimeThroughputPmc

/-- A collector whose member `interval` is given; `start_time` is set by the first `commit`. -/
def ofInterval (interval : UInt64) : TimeThroughputPmc := ⟨List.replicate 30 0, 0, interval, 30, false⟩

/-- The constructor. -/
def new (interval : UInt64) : TimeThroughputPmc := ofInterval (intParam interval)

/-- The first `commit` sets the origin of the windows. -/
def align (c : TimeThroughputPmc) (tp : UInt64) : TimeThroughputPmc :=
  if c.started then c else { c with startTime := tp, started := true }

def index (c : TimeThroughputPmc) (tp : UInt64) : Int := toInt ((tp - c.startTime) / c.interval)

def commit (c : TimeThroughputPmc) (tp data : UInt64) : TimeThroughputPmc :=
  let c := c.align tp
  let index := c.index tp
  let grown := pmcGrow 0 c.pmcData c.pmcSize 0 index
  { c with pmcSize := grown.2, pmcData := pmcWrite grown.1 index (· + data) }

/-- `commit`, if it is defined. -/
def commit? (c : TimeThroughputPmc) (tp data : UInt64) : Option TimeThroughputPmc :=
  let a := c.align tp
  if PmcDefined 0 a.pmcData a.pmcSize 0 a.interval (a.index tp) then some (c.commit tp data) else none

/-- `commit` of each sample, in order. -/
def commits? (c : TimeThroughputPmc) (seq : List (UInt64 × UInt64)) : Option TimeThroughputPmc :=
  seq.foldlM (fun c s => c.commit? s.1 s.2) c

/-- `get_json`. -/
def getJson (c : TimeThroughputPmc) (name : String) : SeqJson := ⟨name, c.pmcData⟩

variable {c : TimeThroughputPmc} {tp : UInt64}

/-- A collector that was started keeps its origin. -/
theorem align_of_started (hs : c.started = true) : c.align tp = c := if_pos hs

@[simp] theorem started_align : (c.align tp).started = true := by
  unfold align
  split
  · assumption
  · rfl

@[simp] theorem interval_align : (c.align tp).interval = c.interval := by
  unfold align
  split <;> rfl

end TimeThroughputPmc

/-! ## Counters -/

/-- `class Counter`. -/
structure Counter where
  countMap : AList (fun _ : List UInt8 => UInt64)
deriving DecidableEq

namespace Counter

def new : Counter := ⟨∅⟩

/-- `commit(key, add_count)`: a key seen for the first time is stored (up to its first NUL) with the
    count `1`. -/
def commit (c : Counter) (key : List UInt8) (addCount : UInt64) : Counter :=
  match c.countMap.lookup key with
  | some count => ⟨c.countMap.insert key (count + addCount)⟩
  | none =>
      -- a key with a NUL inside is looked up whole and stored cut off
      if cString key ∈ c.countMap then c else ⟨c.countMap.insert (cString key) 1⟩

end Counter

end StorTrace
