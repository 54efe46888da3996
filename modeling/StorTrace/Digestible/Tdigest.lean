import StorTrace.Lib.Binary64

/-!
# `Digestible.Tdigest` — the t-digest of the quantile filter (`digestible.h`)

The digest of `unsigned int` values with `unsigned int` weights. Its arithmetic on `double` is that of `Float`,
rounding included; of `log` and `exp` nothing is assumed. `std::sort` may return elements with equal means in any
order.
-/

namespace StorTrace.Digestible

open Binary64 (stdRound)

structure Centroid where
  mean : UInt32
  weight : UInt32
deriving DecidableEq

/-- `operator<`, as `std::less` calls it. -/
def Centroid.less (lhs rhs : Centroid) : Bool := decide (lhs.mean < rhs.mean)

/-- `operator>`, as `std::greater` calls it. -/
def Centroid.greater (lhs rhs : Centroid) : Bool := decide (rhs.mean < lhs.mean)

/-- `std::sort`: some order of the elements in which none comes after one it is less than. -/
structure StdSort where
  sort : (Centroid → Centroid → Bool) → List Centroid → List Centroid
  perm : ∀ lt xs, (sort lt xs).Perm xs
  sorted : ∀ lt xs, (∀ a b, lt a b = true → lt b a = false) →
    (∀ a b c, lt a b = false → lt b c = false → lt a c = false) →
    (sort lt xs).Pairwise (fun a b => lt b a = false)

/-- The sort that keeps equal elements in their order is one of them. -/
def StdSort.stable : StdSort where
  sort lt xs := xs.mergeSort (fun a b => !lt b a)
  perm lt xs := List.mergeSort_perm xs _
  sorted lt xs hasymm htrans := by
    have hle_trans : ∀ a b c, (!lt b a) = true → (!lt c b) = true → (!lt c a) = true := by
      intro a b c hab hbc
      simp only [Bool.not_eq_true'] at hab hbc ⊢
      exact htrans c b a hbc hab
    have hle_total : ∀ a b, ((!lt b a) || (!lt a b)) = true := by
      intro a b
      cases hba : lt b a with
      | false => simp
      | true => simp [hasymm b a hba]
    exact (List.pairwise_mergeSort hle_trans hle_total xs).imp (fun h => by simpa using h)

/-! ## `tdigest_impl` -/

structure TdigestImpl where
  values : List Centroid
  capacity : Nat
  totalWeight : UInt32
deriving DecidableEq

inductive InsertResult where
  | ok
  | needCompress
deriving DecidableEq

def TdigestImpl.new (size : Nat) : TdigestImpl := ⟨[], size, 0⟩

/-- The capacity of a vector of `length` elements after one more: it doubles when the vector is full. -/
def grow (length capacity : Nat) : Nat :=
  if length = capacity then length + max length 1 else capacity

/-- `tdigest_impl::insert`. Its assertion that the weight is not zero is not modelled. -/
def TdigestImpl.insert (d : TdigestImpl) (value weight : UInt32) : TdigestImpl × InsertResult :=
  let values := d.values ++ [⟨value, weight⟩]
  let capacity := grow d.values.length d.capacity
  (⟨values, capacity, d.totalWeight + weight⟩,
    if values.length ≠ capacity then .ok else .needCompress)

def TdigestImpl.reset (d : TdigestImpl) : TdigestImpl := { d with values := [], totalWeight := 0 }

/-- `values.assign`: a vector that is too small gets the length it needs. -/
def TdigestImpl.assign (d : TdigestImpl) (values : List Centroid) : TdigestImpl :=
  { d with values := values, capacity := max d.capacity values.length }

/-! ## The scaling function -/

def Z (compression n : Float) : Float := 4 * Float.log (n / compression) + 24

def normalizerFn (compression n : Float) : Float := compression / Z compression n

def qMin : Float := 1e-15

def qMax : Float := 1 - qMin

/-- The last line of `k`. -/
def kBetween (q normalizer : Float) : Float := Float.log (q / (1 - q)) * normalizer

/-- `k`; its recursive calls are at the bounds, which are not beyond themselves. -/
def k (q normalizer : Float) : Float :=
  if q < qMin then 2 * kBetween qMin normalizer
  else if q > qMax then 2 * kBetween qMax normalizer
  else kBetween q normalizer

/-- `k` is the recursive function of the source. -/
theorem k_eq (q normalizer : Float) :
    k q normalizer =
      if q < qMin then 2 * k qMin normalizer
      else if q > qMax then 2 * k qMax normalizer
      else Float.log (q / (1 - q)) * normalizer := by
  have hmin : ¬ qMin < qMin ∧ ¬ qMin > qMax := by decide
  have hmax : ¬ qMax < qMin ∧ ¬ qMax > qMax := by decide
  have hkmin : k qMin normalizer = kBetween qMin normalizer := by
    unfold k
    rw [if_neg hmin.1, if_neg hmin.2]
  have hkmax : k qMax normalizer = kBetween qMax normalizer := by
    unfold k
    rw [if_neg hmax.1, if_neg hmax.2]
  rw [hkmin, hkmax]
  rfl

def q (k normalizer : Float) : Float :=
  let w := Float.exp (k / normalizer)
  w / (1 + w)

/-! ## `Tdigest` -/

/-- Which of the two digests `active` points to. -/
inductive Side where
  | one
  | two
deriving DecidableEq

structure Tdigest where
  one : TdigestImpl
  two : TdigestImpl
  buffer : TdigestImpl
  active : Side
  minVal : UInt32
  maxVal : UInt32
  runForward : Bool
deriving DecidableEq

namespace Tdigest

/-- `*active`. -/
def activeImpl (d : Tdigest) : TdigestImpl :=
  match d.active with
  | .one => d.one
  | .two => d.two

/-- `inactive` in `merge`. -/
def inactiveImpl (d : Tdigest) : TdigestImpl :=
  match d.active with
  | .one => d.two
  | .two => d.one

/-- `std::numeric_limits<unsigned int>::max()`. -/
def valuesMax : UInt32 := 4294967295

def bufferMultiplier : Nat := 2

/-- The constructor. -/
def new (size : Nat) : Tdigest where
  one := .new size
  two := .new size
  buffer := .new (size * bufferMultiplier)
  active := .one
  minVal := valuesMax
  maxVal := 0
  runForward := true

/-- The variables `compress_fn` captures. -/
structure Compress where
  inactive : TdigestImpl
  k1 : Float
  nextQLimitWeight : Float
  weightSoFar : Float
  weightToAdd : Float
  meanToAdd : Float

/-- `compress_fn`. -/
def compressFn (newTotalWeight : UInt32) (normalizer : Float) (s : Compress) (current : Centroid) : Compress :=
  if s.weightSoFar + s.weightToAdd + current.weight.toFloat ≤ s.nextQLimitWeight then
    let weightToAdd := s.weightToAdd + current.weight.toFloat
    { s with
      weightToAdd := weightToAdd
      meanToAdd :=
        s.meanToAdd + (current.mean.toFloat - s.meanToAdd) * current.weight.toFloat / weightToAdd }
  else
    let weightSoFar := s.weightSoFar + s.weightToAdd
    let newQ := weightSoFar / newTotalWeight.toFloat
    let k1 := k newQ normalizer
    { inactive := (s.inactive.insert (stdRound s.meanToAdd).toUInt32 s.weightToAdd.toUInt32).1
      k1 := k1
      nextQLimitWeight := newTotalWeight.toFloat * q (k1 + 1) normalizer
      weightSoFar := weightSoFar
      weightToAdd := current.weight.toFloat
      meanToAdd := current.mean.toFloat }

/-- The variables before the first call of `compress_fn`. -/
def startCompress (newTotalWeight : UInt32) (normalizer : Float) (inactive : TdigestImpl) (front : Centroid) :
    Compress :=
  let k1 := k 0 normalizer
  { inactive := inactive
    k1 := k1
    nextQLimitWeight := newTotalWeight.toFloat * q (k1 + 1) normalizer
    weightSoFar := 0
    weightToAdd := front.weight.toFloat
    meanToAdd := front.mean.toFloat }

/-- The last group, which is not rounded before it is converted. -/
def Compress.finish (s : Compress) : TdigestImpl :=
  if s.weightToAdd != 0 then (s.inactive.insert s.meanToAdd.toUInt32 s.weightToAdd.toUInt32).1
  else s.inactive

/-- `inactive` after the pass over the sorted inputs. -/
def compress (d : Tdigest) (front : Centroid) (rest : List Centroid) : TdigestImpl :=
  let newTotalWeight := d.buffer.totalWeight + d.activeImpl.totalWeight
  let normalizer := normalizerFn (Float.ofNat d.inactiveImpl.capacity) newTotalWeight.toFloat
  (rest.foldl (compressFn newTotalWeight normalizer)
    (startCompress newTotalWeight normalizer d.inactiveImpl front)).finish

/-- The inputs of a merge, sorted in the direction of this pass. -/
def sortedInputs (S : StdSort) (d : Tdigest) : List Centroid :=
  S.sort (if d.runForward then Centroid.less else Centroid.greater) d.buffer.values

/-- `min_val` after a pass whose smallest input is `least`. -/
def newMin (d : Tdigest) (least : Centroid) : UInt32 :=
  min d.minVal (if least.weight = 1 then least.mean else valuesMax)

/-- `max_val` after a pass whose largest input is `greatest`. -/
def newMax (d : Tdigest) (greatest : Centroid) : UInt32 :=
  max d.maxVal (if greatest.weight = 1 then greatest.mean else 0)

/-- `merge` of the sorted inputs `front :: rest`. -/
def mergeInputs (S : StdSort) (d : Tdigest) (front : Centroid) (rest : List Centroid) : Tdigest :=
  let back := (front :: rest).getLast (List.cons_ne_nil front rest)
  let pass := compress d front rest
  let inactive := if d.runForward then pass else { pass with values := S.sort Centroid.less pass.values }
  { one :=
      match d.active with
      | .one => d.one.reset
      | .two => inactive
    two :=
      match d.active with
      | .one => inactive
      | .two => d.two.reset
    -- the next merge starts from the new digest
    buffer := d.buffer.reset.assign inactive.values
    active :=
      match d.active with
      | .one => .two
      | .two => .one
    minVal := newMin d (if d.runForward then front else back)
    maxVal := newMax d (if d.runForward then back else front)
    runForward := !d.runForward }

def merge (S : StdSort) (d : Tdigest) : Tdigest :=
  match sortedInputs S d with
  | [] => d   -- the buffer is empty: sorting loses nothing
  | front :: rest => mergeInputs S d front rest

/-- `insert(value, weight)`. -/
def insert (S : StdSort) (d : Tdigest) (value weight : UInt32) : Tdigest :=
  let r := d.buffer.insert value weight
  let d := { d with buffer := r.1 }
  match r.2 with
  | .needCompress => merge S d
  | .ok => d

/-- `insert(value)`. -/
def insertValue (S : StdSort) (d : Tdigest) (value : UInt32) : Tdigest := insert S d value 1

end Tdigest

/-! ## `quantile` -/

/-- `lerp`. -/
def lerp (a b t : Float) : Float :=
  if (a ≤ 0 ∧ b ≥ 0) ∨ (a ≥ 0 ∧ b ≤ 0) then t * b + (1 - t) * a
  else if t == 1 then b
  else
    let x := a + t * (b - a)
    if decide (t > 1) = decide (b > a) then (if b < x then x else b)
    else (if x < b then x else b)

/-- `quantile_fn` over the pairs of neighbours, with what `weight_so_far` is before them: the quantile of the
    first pair that brackets the index. -/
def bracket (index : UInt32) : UInt32 → List Centroid → Option UInt32
  | weightSoFar, left :: right :: rest =>
      let deltaWeight := (left.weight + right.weight) / 2
      if weightSoFar + deltaWeight > index then
        let lower := index - weightSoFar
        let upper := weightSoFar + deltaWeight - index
        some ((left.mean * upper + right.mean * lower) / (lower + upper))
      else bracket index (weightSoFar + deltaWeight) (right :: rest)
  | _, _ => none

namespace Tdigest

/-- `quantile` at an index of at least one, of a digest of at least two centroids. -/
def quantileAt (d : Tdigest) (first last : Centroid) (index : UInt32) : Float :=
  let totalWeight := d.activeImpl.totalWeight
  if first.weight > 1 ∧ index < first.weight / 2 then
    lerp d.minVal.toFloat first.mean.toFloat ((index - 1).toFloat / (first.weight / 2 - 1).toFloat)
  else if index > totalWeight - 1 then d.maxVal.toFloat
  else if last.weight > 1 ∧ totalWeight - index ≤ last.weight / 2 then
    d.maxVal.toFloat -
      (totalWeight - index - 1).toFloat / (last.weight / 2 - 1).toFloat * (d.maxVal - last.mean).toFloat
  else
    match bracket index (first.weight / 2) d.activeImpl.values with
    | some quantile => quantile.toFloat
    | none => last.mean.toFloat   -- between the last centroid and `max_val`

/-- `index`. -/
def indexOf (d : Tdigest) (p : Float) : UInt32 := (p / 100 * d.activeImpl.totalWeight.toFloat).toUInt32

def quantile (d : Tdigest) (p : Float) : Except String Float :=
  if p < 0 ∨ p > 100 then .error "Requested quantile must be between 0 and 100."
  else
    match d.activeImpl.values with
    | [] => .ok 0
    | [only] => .ok only.mean.toFloat
    | first :: second :: rest =>
        if d.indexOf p < 1 then .ok d.minVal.toFloat
        else .ok (quantileAt d first ((second :: rest).getLast (List.cons_ne_nil second rest)) (d.indexOf p))

end Tdigest

end StorTrace.Digestible
