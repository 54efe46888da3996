import StorTrace.Digestible.Compress
import Mathlib.Order.Bounds.Basic

/-!
# `Digestible.Samples` — the samples a digest stands for

After any insertions a digest holds every sample once: merged into a centroid, or waiting in the buffer
(`insertAll_weighs`). Its centroids are in ascending order between the smallest and the largest merged sample
(`insertAll_ordered`). Weights are `unsigned int`, so both need fewer than `2 ^ 32` samples.
-/

namespace StorTrace.Digestible

open Neighbours Tdigest

/-! ## The digest between two insertions -/

/-- The digest holds the samples `merged` in its centroids and the samples `pending` in its buffer: every sample
    once, and none of weight zero. -/
structure Weighs (d : Tdigest) (merged pending : List UInt32) : Prop where
  buffer : d.buffer.values = d.activeImpl.values ++ pending.map (fun v => ⟨v, 1⟩)
  bufferWeight : d.buffer.totalWeight.toNat = pending.length
  activeWeight : d.activeImpl.totalWeight.toNat = merged.length
  weights : weightOf d.activeImpl.values = merged.length
  positive : ∀ c ∈ d.activeImpl.values, 0 < c.weight
  inactiveValues : d.inactiveImpl.values = []
  inactiveWeight : d.inactiveImpl.totalWeight = 0

/-- The centroids are in order, between the smallest and the largest of the samples `merged`, which are
    `min_val` and `max_val`. -/
structure Ordered (d : Tdigest) (merged : List UInt32) : Prop where
  sorted : d.activeImpl.values.Pairwise (fun a b => a.mean ≤ b.mean)
  minVal : IsGLB {v | v ∈ merged} d.minVal
  maxVal : IsLUB {v | v ∈ merged} d.maxVal
  bounds : ∀ c ∈ d.activeImpl.values, d.minVal ≤ c.mean ∧ c.mean ≤ d.maxVal

variable {S : StdSort} {d : Tdigest} {merged pending : List UInt32}

theorem weighs_new (size : ℕ) : Weighs (.new size) [] [] :=
  ⟨rfl, rfl, rfl, rfl, by simp [Tdigest.new, activeImpl, TdigestImpl.new], rfl, rfl⟩

theorem weightOf_pending (pending : List UInt32) : weightOf (pending.map (fun v => ⟨v, 1⟩)) = pending.length := by
  induction pending with
  | nil => rfl
  | cons v pending ih =>
      rw [List.map_cons, weightOf_cons, ih, List.length_cons, Nat.add_comm]
      rfl

/-- The inputs of a merge weigh what has been inserted. -/
theorem Weighs.weightOf_inputs (h : Weighs d merged pending) :
    weightOf d.buffer.values = (merged ++ pending).length := by
  rw [h.buffer, weightOf_append, h.weights, weightOf_pending, List.length_append]

theorem Weighs.positive_inputs (h : Weighs d merged pending) : ∀ c ∈ d.buffer.values, 0 < c.weight := by
  intro c hc
  rw [h.buffer] at hc
  rcases List.mem_append.mp hc with hc | hc
  · exact h.positive c hc
  · obtain ⟨v, -, rfl⟩ := List.mem_map.mp hc
    exact (by decide : (0 : UInt32) < 1)

theorem sortedInputs_perm (S : StdSort) (d : Tdigest) : (sortedInputs S d).Perm d.buffer.values := S.perm _ _

/-- The centroids a pass leaves, in ascending order. -/
def passValues (S : StdSort) (d : Tdigest) (front : Centroid) (rest : List Centroid) : List Centroid :=
  if d.runForward then (compress d front rest).values else S.sort Centroid.less (compress d front rest).values

theorem activeImpl_mergeInputs (front : Centroid) (rest : List Centroid) :
    (mergeInputs S d front rest).activeImpl.values = passValues S d front rest ∧
      (mergeInputs S d front rest).activeImpl.totalWeight = (compress d front rest).totalWeight ∧
      (mergeInputs S d front rest).inactiveImpl = d.activeImpl.reset := by
  unfold mergeInputs passValues activeImpl inactiveImpl
  cases d.active <;> cases d.runForward <;> exact ⟨rfl, rfl, rfl⟩

theorem buffer_mergeInputs (front : Centroid) (rest : List Centroid) :
    (mergeInputs S d front rest).buffer.values = passValues S d front rest ∧
      (mergeInputs S d front rest).buffer.totalWeight = 0 := by
  unfold mergeInputs passValues
  cases d.runForward <;> exact ⟨rfl, rfl⟩

theorem passValues_perm (S : StdSort) (d : Tdigest) (front : Centroid) (rest : List Centroid) :
    (passValues S d front rest).Perm (compress d front rest).values := by
  unfold passValues
  split
  · exact List.Perm.refl _
  · exact S.perm _ _

theorem Weighs.pending_eq_nil (h : Weighs d merged pending) (hinputs : sortedInputs S d = []) : pending = [] := by
  have hperm := sortedInputs_perm S d
  rw [hinputs] at hperm
  have hboth := h.buffer.symm.trans hperm.symm.eq_nil
  exact List.map_eq_nil_iff.mp (List.append_eq_nil_iff.mp hboth).2

/-- The pass over the sorted inputs, in a digest between two insertions. -/
theorem Weighs.compress_spec (h : Weighs d merged pending) {front : Centroid} {rest : List Centroid}
    (hinputs : sortedInputs S d = front :: rest) (hlt : (merged ++ pending).length < 2 ^ 32) :
    Cut Made (front :: rest) (compress d front rest).values ∧
      (compress d front rest).totalWeight.toNat = (merged ++ pending).length ∧
      weightOf (front :: rest) = (merged ++ pending).length := by
  have hperm := sortedInputs_perm S d
  rw [hinputs] at hperm
  have hweight : weightOf (front :: rest) = (merged ++ pending).length :=
    (weightOf_perm hperm).trans h.weightOf_inputs
  obtain ⟨hcut, htotal⟩ := Digestible.compress_spec h.inactiveValues h.inactiveWeight
    (fun c hc => h.positive_inputs c (hperm.mem_iff.mp hc)) (by rwa [hweight])
  exact ⟨hcut, htotal.trans hweight, hweight⟩

/-- **A merge moves the pending samples into the centroids.** -/
theorem weighs_merge (h : Weighs d merged pending) (hlt : (merged ++ pending).length < 2 ^ 32) :
    Weighs (merge S d) (merged ++ pending) [] := by
  have hperm := sortedInputs_perm S d
  unfold merge
  cases hinputs : sortedInputs S d with
  | nil =>
      obtain rfl := h.pending_eq_nil hinputs
      rwa [List.append_nil]
  | cons front rest =>
      rw [hinputs] at hperm
      obtain ⟨hcut, htotal, hweight⟩ := h.compress_spec hinputs hlt
      obtain ⟨hvalues, hactive, hinactive⟩ := activeImpl_mergeInputs (S := S) (d := d) front rest
      obtain ⟨hbuffer, hbufferWeight⟩ := buffer_mergeInputs (S := S) (d := d) front rest
      have hpass := passValues_perm S d front rest
      refine ⟨?_, ?_, ?_, ?_, ?_, ?_, ?_⟩
      · show (mergeInputs S d front rest).buffer.values = _
        rw [hbuffer, hvalues, List.map_nil, List.append_nil]
      · show (mergeInputs S d front rest).buffer.totalWeight.toNat = _
        rw [hbufferWeight]
        rfl
      · show (mergeInputs S d front rest).activeImpl.totalWeight.toNat = _
        rw [hactive, htotal]
      · show weightOf (mergeInputs S d front rest).activeImpl.values = _
        rw [hvalues, weightOf_perm hpass, ← hweight]
        exact hcut.sum_eq (fun run b hb => hb.1)
      · intro c hc
        change c ∈ (mergeInputs S d front rest).activeImpl.values at hc
        rw [hvalues, hpass.mem_iff] at hc
        -- some centroid of the run it is made of weighs something
        obtain ⟨run, ⟨hcw, ⟨x, hx, -⟩, -⟩, hsub⟩ := hcut.exists_run hc
        have hxpos := UInt32.lt_iff_toNat_lt.mp (h.positive_inputs x (hperm.mem_iff.mp (hsub x hx)))
        rw [UInt32.lt_iff_toNat_lt, hcw]
        exact lt_of_lt_of_le hxpos (weight_le_weightOf hx)
      · show (mergeInputs S d front rest).inactiveImpl.values = []
        rw [hinactive]
        rfl
      · show (mergeInputs S d front rest).inactiveImpl.totalWeight = 0
        rw [hinactive]
        rfl

/-! ## The order of the centroids -/

theorem le_valuesMax (v : UInt32) : v ≤ valuesMax := by
  have hmax : valuesMax.toNat = 4294967295 := by decide
  have hlt := v.toNat_lt
  rw [UInt32.le_iff_toNat_le, hmax]
  omega

theorem zero_le_value (v : UInt32) : 0 ≤ v := UInt32.le_iff_toNat_le.mpr (Nat.zero_le _)

theorem le_max_values (v w : UInt32) : v ≤ max v w ∧ w ≤ max v w := by
  show v ≤ (if v ≤ w then w else v) ∧ w ≤ (if v ≤ w then w else v)
  split
  · next h => exact ⟨h, UInt32.le_refl w⟩
  · next h => exact ⟨UInt32.le_refl v, UInt32.le_of_lt (UInt32.not_le.mp h)⟩

theorem max_values_le {u v w : UInt32} (hv : v ≤ u) (hw : w ≤ u) : max v w ≤ u := by
  show (if v ≤ w then w else v) ≤ u
  split
  · exact hw
  · exact hv

theorem ordered_new (size : ℕ) : Ordered (.new size) [] where
  sorted := List.Pairwise.nil
  minVal := by
    refine ⟨fun v hv => absurd hv List.not_mem_nil, ?_⟩
    intro v _
    exact le_valuesMax v
  maxVal := by
    refine ⟨fun v hv => absurd hv List.not_mem_nil, ?_⟩
    intro v _
    exact zero_le_value v
  bounds := fun c hc => absurd hc List.not_mem_nil

theorem Weighs.mem_buffer (h : Weighs d merged pending) {c : Centroid} :
    c ∈ d.buffer.values ↔ c ∈ d.activeImpl.values ∨ ∃ v ∈ pending, ⟨v, 1⟩ = c := by
  rw [h.buffer, List.mem_append, List.mem_map]

/-- The smallest input is the only candidate for a new minimum, and only if it is a single sample. -/
theorem newMin_spec (hw : Weighs d merged pending) (ho : Ordered d merged) {least : Centroid}
    (hmem : least ∈ d.buffer.values) (hleast : ∀ x ∈ d.buffer.values, least.mean ≤ x.mean) :
    IsGLB {v | v ∈ merged ++ pending} (newMin d least) ∧ ∀ x ∈ d.buffer.values, newMin d least ≤ x.mean := by
  have hbelow : ∀ x ∈ d.buffer.values, newMin d least ≤ x.mean := by
    intro x hx
    refine UInt32.le_trans ?_ (hleast x hx)
    rcases hw.mem_buffer.mp hmem with hactive | ⟨v, -, rfl⟩
    · exact UInt32.le_trans Std.min_le_left (ho.bounds least hactive).1
    · exact Std.min_le_right
  refine ⟨⟨?_, ?_⟩, hbelow⟩
  · intro v hv
    rcases List.mem_append.mp hv with hv | hv
    · exact UInt32.le_trans Std.min_le_left (ho.minVal.1 hv)
    · exact hbelow ⟨v, 1⟩ (hw.mem_buffer.mpr (Or.inr ⟨v, hv, rfl⟩))
  · intro b hb
    have hmerged : b ≤ d.minVal := ho.minVal.2 (fun v hv => hb (List.mem_append_left _ hv))
    refine Std.le_min_iff.mpr ⟨hmerged, ?_⟩
    split
    · rcases hw.mem_buffer.mp hmem with hactive | ⟨v, hv, rfl⟩
      · exact UInt32.le_trans hmerged (ho.bounds least hactive).1
      · exact hb (List.mem_append_right _ hv)
    · exact le_valuesMax b

/-- The largest input is the only candidate for a new maximum. -/
theorem newMax_spec (hw : Weighs d merged pending) (ho : Ordered d merged) {greatest : Centroid}
    (hmem : greatest ∈ d.buffer.values) (hgreatest : ∀ x ∈ d.buffer.values, x.mean ≤ greatest.mean) :
    IsLUB {v | v ∈ merged ++ pending} (newMax d greatest) ∧ ∀ x ∈ d.buffer.values, x.mean ≤ newMax d greatest := by
  have habove : ∀ x ∈ d.buffer.values, x.mean ≤ newMax d greatest := by
    intro x hx
    refine UInt32.le_trans (hgreatest x hx) ?_
    rcases hw.mem_buffer.mp hmem with hactive | ⟨v, -, rfl⟩
    · exact UInt32.le_trans (ho.bounds greatest hactive).2 (le_max_values _ _).1
    · exact (le_max_values _ _).2
  refine ⟨⟨?_, ?_⟩, habove⟩
  · intro v hv
    rcases List.mem_append.mp hv with hv | hv
    · exact UInt32.le_trans (ho.maxVal.1 hv) (le_max_values _ _).1
    · exact habove ⟨v, 1⟩ (hw.mem_buffer.mpr (Or.inr ⟨v, hv, rfl⟩))
  · intro b hb
    have hmerged : d.maxVal ≤ b := ho.maxVal.2 (fun v hv => hb (List.mem_append_left _ hv))
    refine max_values_le hmerged ?_
    split
    · rcases hw.mem_buffer.mp hmem with hactive | ⟨v, hv, rfl⟩
      · exact UInt32.le_trans (ho.bounds greatest hactive).2 hmerged
      · exact hb (List.mem_append_right _ hv)
    · exact zero_le_value b

/-- `std::sort` with `std::less`. -/
theorem pairwise_less (S : StdSort) (cs : List Centroid) :
    (S.sort Centroid.less cs).Pairwise (fun a b => a.mean ≤ b.mean) := by
  have hsorted := S.sorted Centroid.less cs
    (by
      intro a b hab
      simp only [Centroid.less, decide_eq_true_eq, decide_eq_false_iff_not, UInt32.not_lt] at *
      exact UInt32.le_of_lt hab)
    (by
      intro a b c hab hbc
      simp only [Centroid.less, decide_eq_false_iff_not, UInt32.not_lt] at *
      exact UInt32.le_trans hbc hab)
  exact hsorted.imp (fun h => UInt32.not_lt.mp (of_decide_eq_false h))

/-- `std::sort` with `std::greater`. -/
theorem pairwise_greater (S : StdSort) (cs : List Centroid) :
    (S.sort Centroid.greater cs).Pairwise (fun a b => b.mean ≤ a.mean) := by
  have hsorted := S.sorted Centroid.greater cs
    (by
      intro a b hab
      simp only [Centroid.greater, decide_eq_true_eq, decide_eq_false_iff_not, UInt32.not_lt] at *
      exact UInt32.le_of_lt hab)
    (by
      intro a b c hab hbc
      simp only [Centroid.greater, decide_eq_false_iff_not, UInt32.not_lt] at *
      exact UInt32.le_trans hab hbc)
  exact hsorted.imp (fun h => UInt32.not_lt.mp (of_decide_eq_false h))

/-- The last of a list in order is not below any other. -/
theorem getLast_of_pairwise {r : Centroid → Centroid → Prop} (hrefl : ∀ c, r c c) {front : Centroid}
    {rest : List Centroid} (h : (front :: rest).Pairwise r) :
    ∀ x ∈ front :: rest, r x ((front :: rest).getLast (List.cons_ne_nil front rest)) := by
  intro x hx
  have hsplit := List.dropLast_append_getLast (List.cons_ne_nil front rest)
  rw [← hsplit] at h hx
  rcases List.mem_append.mp hx with hx | hx
  · exact (List.pairwise_append.mp h).2.2 x hx _ (by simp)
  · rw [List.mem_singleton.mp hx]
    exact hrefl _

/-- The smallest and the largest of the sorted inputs stand at their ends. -/
theorem sortedInputs_extremes {front : Centroid} {rest : List Centroid} (h : sortedInputs S d = front :: rest)
    {least greatest : Centroid}
    (hleast : least = if d.runForward then front else (front :: rest).getLast (List.cons_ne_nil front rest))
    (hgreatest : greatest = if d.runForward then (front :: rest).getLast (List.cons_ne_nil front rest) else front) :
    (least ∈ d.buffer.values ∧ ∀ x ∈ d.buffer.values, least.mean ≤ x.mean) ∧
      greatest ∈ d.buffer.values ∧ ∀ x ∈ d.buffer.values, x.mean ≤ greatest.mean := by
  have hmem : ∀ x, x ∈ d.buffer.values ↔ x ∈ front :: rest := fun x => by
    rw [← h, (sortedInputs_perm S d).mem_iff]
  have hlast := List.getLast_mem (List.cons_ne_nil front rest)
  have hfront : front ∈ front :: rest := List.mem_cons_self
  simp only [hmem]
  cases hforward : d.runForward with
  | true =>
      have hsorted : (front :: rest).Pairwise (fun a b => a.mean ≤ b.mean) := by
        rw [← h, sortedInputs, hforward]
        exact pairwise_less S _
      rw [hforward] at hleast hgreatest
      subst hleast hgreatest
      refine ⟨⟨hfront, fun x hx => ?_⟩, hlast, getLast_of_pairwise (fun c => UInt32.le_refl _) hsorted⟩
      rcases List.mem_cons.mp hx with rfl | hx
      · exact UInt32.le_refl _
      · exact (List.pairwise_cons.mp hsorted).1 x hx
  | false =>
      have hsorted : (front :: rest).Pairwise (fun a b => b.mean ≤ a.mean) := by
        rw [← h, sortedInputs, hforward]
        exact pairwise_greater S _
      rw [hforward] at hleast hgreatest
      subst hleast hgreatest
      refine ⟨⟨hlast, getLast_of_pairwise (fun c => UInt32.le_refl _) hsorted⟩, hfront, fun x hx => ?_⟩
      rcases List.mem_cons.mp hx with rfl | hx
      · exact UInt32.le_refl _
      · exact (List.pairwise_cons.mp hsorted).1 x hx

/-- A pass in ascending order leaves ascending centroids; after one in descending order they are sorted. -/
theorem pairwise_passValues {front : Centroid} {rest : List Centroid} (h : sortedInputs S d = front :: rest)
    (hcut : Cut Made (front :: rest) (compress d front rest).values) :
    (passValues S d front rest).Pairwise (fun a b => a.mean ≤ b.mean) := by
  unfold passValues
  cases hforward : d.runForward with
  | true =>
      have hsorted : (front :: rest).Pairwise (fun a b => a.mean ≤ b.mean) := by
        rw [← h, sortedInputs, hforward]
        exact pairwise_less S _
      exact hcut.pairwise (fun i j k => UInt32.le_trans) (fun run c hc => hc.2) hsorted
  | false => exact pairwise_less S _

/-- **Merging keeps the centroids in order**, between the extremes of the samples they stand for. -/
theorem ordered_merge (hw : Weighs d merged pending) (ho : Ordered d merged)
    (hlt : (merged ++ pending).length < 2 ^ 32) : Ordered (merge S d) (merged ++ pending) := by
  have hperm := sortedInputs_perm S d
  unfold merge
  cases hinputs : sortedInputs S d with
  | nil =>
      rw [hw.pending_eq_nil hinputs, List.append_nil]
      exact ho
  | cons front rest =>
      rw [hinputs] at hperm
      have hcut := (hw.compress_spec hinputs hlt).1
      obtain ⟨hleast, hgreatest⟩ := sortedInputs_extremes hinputs rfl rfl
      obtain ⟨hmin, hbelow⟩ := newMin_spec hw ho hleast.1 hleast.2
      obtain ⟨hmax, habove⟩ := newMax_spec hw ho hgreatest.1 hgreatest.2
      have hvalues := (activeImpl_mergeInputs (S := S) (d := d) front rest).1
      refine ⟨?_, hmin, hmax, ?_⟩
      · rw [hvalues]
        exact pairwise_passValues hinputs hcut
      · intro c hc
        rw [hvalues, (passValues_perm S d front rest).mem_iff] at hc
        obtain ⟨run, ⟨-, ⟨x, hx, hxc⟩, ⟨y, hy, hcy⟩⟩, hsub⟩ := hcut.exists_run hc
        exact ⟨UInt32.le_trans (hbelow x (hperm.mem_iff.mp (hsub x hx))) hxc,
          UInt32.le_trans hcy (habove y (hperm.mem_iff.mp (hsub y hy)))⟩

/-! ## Runs of insertions -/

/-- The digest after the samples `values`. -/
def insertAll (S : StdSort) (size : ℕ) (values : List UInt32) : Tdigest :=
  values.foldl (insertValue S) (.new size)

variable {v : UInt32}

/-- A sample waits in the buffer until the next merge. -/
theorem Weighs.append (h : Weighs d merged pending) (hlt : pending.length + 1 < 2 ^ 32) :
    Weighs { d with buffer := (d.buffer.insert v 1).1 } merged (pending ++ [v]) where
  buffer := by
    show d.buffer.values ++ [⟨v, 1⟩] = d.activeImpl.values ++ (pending ++ [v]).map (fun v => ⟨v, 1⟩)
    rw [h.buffer, List.map_append, List.append_assoc]
    rfl
  bufferWeight := by
    show (d.buffer.totalWeight + 1).toNat = _
    rw [UInt32.toNat_add, h.bufferWeight, List.length_append]
    exact Nat.mod_eq_of_lt hlt
  activeWeight := h.activeWeight
  weights := h.weights
  positive := h.positive
  inactiveValues := h.inactiveValues
  inactiveWeight := h.inactiveWeight

theorem Ordered.append (h : Ordered d merged) (buffer : TdigestImpl) : Ordered { d with buffer := buffer } merged :=
  ⟨h.sorted, h.minVal, h.maxVal, h.bounds⟩

/-- **One insertion**: the sample waits, or it is merged with all that wait. -/
theorem insertValue_spec (hw : Weighs d merged pending) (ho : Ordered d merged)
    (hlt : (merged ++ pending).length + 1 < 2 ^ 32) :
    ∃ merged' pending', merged' ++ pending' = merged ++ pending ++ [v] ∧
      Weighs (insertValue S d v) merged' pending' ∧ Ordered (insertValue S d v) merged' := by
  rw [List.length_append] at hlt
  have hw' := hw.append (v := v) (by omega)
  have ho' := ho.append (d.buffer.insert v 1).1
  unfold insertValue Tdigest.insert
  cases hr : (d.buffer.insert v 1).2 with
  | ok =>
      simp only [hr]
      exact ⟨merged, pending ++ [v], (List.append_assoc _ _ _).symm, hw', ho'⟩
  | needCompress =>
      have hlen : (merged ++ (pending ++ [v])).length < 2 ^ 32 := by
        simp only [List.length_append, List.length_cons, List.length_nil]
        omega
      simp only [hr]
      refine ⟨merged ++ (pending ++ [v]), [], ?_, weighs_merge hw' hlen, ordered_merge hw' ho' hlen⟩
      rw [List.append_nil, List.append_assoc]

theorem insertAll_concat (S : StdSort) (size : ℕ) (values : List UInt32) (v : UInt32) :
    insertAll S size (values ++ [v]) = insertValue S (insertAll S size values) v := by
  unfold insertAll
  rw [List.foldl_append]
  rfl

theorem insertAll_spec (S : StdSort) (size : ℕ) {values : List UInt32} (hlt : values.length < 2 ^ 32) :
    ∃ merged pending, merged ++ pending = values ∧ Weighs (insertAll S size values) merged pending ∧
      Ordered (insertAll S size values) merged := by
  -- by induction on the samples, the last one first
  induction values using List.reverseRecOn with
  | nil => exact ⟨[], [], rfl, weighs_new size, ordered_new size⟩
  | append_singleton values v ih =>
      rw [List.length_append, List.length_singleton] at hlt
      obtain ⟨merged, pending, rfl, hw, ho⟩ := ih (by omega)
      obtain ⟨merged', pending', happend, hw', ho'⟩ := insertValue_spec (v := v) hw ho hlt
      refine ⟨merged', pending', happend, ?_, ?_⟩
      · rwa [insertAll_concat]
      · rwa [insertAll_concat]

/-- A sample for which there is room waits. -/
theorem insertValue_of_room (hroom : d.buffer.values.length + 1 < d.buffer.capacity) :
    insertValue S d v =
      { d with buffer := ⟨d.buffer.values ++ [⟨v, 1⟩], d.buffer.capacity, d.buffer.totalWeight + 1⟩ } := by
  have hgrow : grow d.buffer.values.length d.buffer.capacity = d.buffer.capacity := by
    rw [grow, if_neg (by omega)]
  have hins : d.buffer.insert v 1 =
      (⟨d.buffer.values ++ [⟨v, 1⟩], d.buffer.capacity, d.buffer.totalWeight + 1⟩, .ok) := by
    unfold TdigestImpl.insert
    simp only [hgrow]
    rw [if_pos (by rw [List.length_append, List.length_singleton]; omega)]
  unfold insertValue Tdigest.insert
  simp only [hins]

/-- Until the buffer has been filled once, nothing is merged. -/
theorem insertAll_cold (S : StdSort) (size : ℕ) (values : List UInt32) (hlt : values.length < size * bufferMultiplier) :
    (insertAll S size values).activeImpl = .new size ∧
      (insertAll S size values).buffer.capacity = size * bufferMultiplier ∧
      (insertAll S size values).buffer.values.length = values.length := by
  induction values using List.reverseRecOn with
  | nil => exact ⟨rfl, rfl, rfl⟩
  | append_singleton values v ih =>
      rw [List.length_append, List.length_singleton] at hlt
      obtain ⟨hactive, hcapacity, hlength⟩ := ih (by omega)
      rw [insertAll_concat, insertValue_of_room (by rw [hcapacity, hlength]; exact hlt)]
      refine ⟨hactive, hcapacity, ?_⟩
      rw [List.length_append, List.length_append, hlength]
      rfl

/-- The samples that have been merged: the first `size()` ones. -/
def mergedOf (S : StdSort) (size : ℕ) (values : List UInt32) : List UInt32 :=
  values.take (insertAll S size values).activeImpl.totalWeight.toNat

/-- The samples that wait in the buffer. -/
def pendingOf (S : StdSort) (size : ℕ) (values : List UInt32) : List UInt32 :=
  values.drop (insertAll S size values).activeImpl.totalWeight.toNat

theorem insertAll_state (S : StdSort) (size : ℕ) (values : List UInt32) (hlt : values.length < 2 ^ 32) :
    Weighs (insertAll S size values) (mergedOf S size values) (pendingOf S size values) ∧
      Ordered (insertAll S size values) (mergedOf S size values) := by
  obtain ⟨merged, pending, happend, hw, ho⟩ := insertAll_spec S size hlt
  have hmerged : mergedOf S size values = merged := by
    unfold mergedOf
    rw [hw.activeWeight, ← happend, List.take_left]
  have hpending : pendingOf S size values = pending := by
    unfold pendingOf
    rw [hw.activeWeight, ← happend, List.drop_left]
  rw [hmerged, hpending]
  exact ⟨hw, ho⟩

/-- **No sample is lost or counted twice**: after any samples, each of them is merged into one centroid of the
    digest or waits in its buffer, and the weights the digest reports are the numbers of both. -/
theorem insertAll_weighs (S : StdSort) (size : ℕ) (values : List UInt32) (hlt : values.length < 2 ^ 32) :
    Weighs (insertAll S size values) (mergedOf S size values) (pendingOf S size values) :=
  (insertAll_state S size values hlt).1

theorem insertAll_weighs_three : Weighs (insertAll .stable 1 [30, 10, 20]) (mergedOf .stable 1 [30, 10, 20])
    (pendingOf .stable 1 [30, 10, 20]) :=
  insertAll_weighs .stable 1 [30, 10, 20] (by decide)

/-- **The centroids stay in order** between the extremes of the samples merged so far, although every mean is
    rounded, and `min_val` and `max_val` are these extremes. -/
theorem insertAll_ordered (S : StdSort) (size : ℕ) (values : List UInt32) (hlt : values.length < 2 ^ 32) :
    Ordered (insertAll S size values) (mergedOf S size values) :=
  (insertAll_state S size values hlt).2

theorem insertAll_ordered_three :
    Ordered (insertAll .stable 1 [30, 10, 20]) (mergedOf .stable 1 [30, 10, 20]) :=
  insertAll_ordered .stable 1 [30, 10, 20] (by decide)

end StorTrace.Digestible
