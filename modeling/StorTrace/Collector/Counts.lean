import Mathlib.Data.List.TakeWhile
import StorTrace.Collector.TimeAq
import StorTrace.Lib.Grouping
import StorTrace.Logger.Meta

/-!
# `Collector.Counts` — what a `Counter` has counted, and the text it is dumped as

`dump_json` prints `[key,count]` for each entry, in whatever order the hash map iterates over them, and
joins the entries with commas. `Listing` is such an order; no fact below depends on which one it is.
-/

namespace StorTrace

open Meta

namespace Counter

/-- Commit keys, each once. -/
def commits (c : Counter) (keys : List Str) : Counter := keys.foldl (fun c key => c.commit key 1) c

/-- `StrFormat("[%s,%lu]", item.first, item.second)`. -/
def entryText (item : Str × UInt64) : Str := 91 :: (item.1 ++ 44 :: stdToString item.2.toNat) ++ [93]

/-- `result["seq_data"]`, for the entries in the order they are iterated over. -/
def seqData (order : List (Str × UInt64)) : Str := [44].intercalate (order.map entryText)

/-- An order in which `count_map` may be iterated over. -/
def Listing (c : Counter) (order : List (Str × UInt64)) : Prop := Grouping.Listing c.countMap order

/-! ## Counting -/

/-- A key without NUL is counted as one more item of its own. -/
theorem commit_eq_group {c : Counter} {key : Str} (hkey : (0 : UInt8) ∉ key) :
    (c.commit key 1).countMap = Grouping.group (fun _ => 0) (fun n _ => n + 1) c.countMap (key, ()) := by
  have hcut : cString key = key := by
    unfold cString
    rw [List.takeWhile_eq_self_iff]
    intro b hb
    have hne : b ≠ 0 := fun hz => hkey (hz ▸ hb)
    exact decide_eq_true hne
  unfold commit Grouping.group
  cases hl : c.countMap.lookup key with
  | some n => rfl
  | none =>
      have hnot : cString key ∉ c.countMap := by
        rw [hcut]
        exact AList.lookup_eq_none.mp hl
      simp only [hnot, if_false, Option.getD_none]
      rw [hcut]
      rfl

theorem commits_eq_groupAll {c : Counter} {keys : List Str} (hkeys : ∀ key ∈ keys, (0 : UInt8) ∉ key) :
    (c.commits keys).countMap =
      Grouping.groupAll (fun _ => 0) (fun n _ => n + 1) c.countMap (keys.map (fun key => (key, ()))) := by
  induction keys generalizing c with
  | nil => rfl
  | cons key rest ih =>
      obtain ⟨hkey, hrest⟩ := List.forall_mem_cons.mp hkeys
      have hcons : c.commits (key :: rest) = (c.commit key 1).commits rest := rfl
      rw [hcons, ih hrest, commit_eq_group hkey]
      rfl

/-- Counting to `n` from `a`. -/
theorem foldl_count {α : Type} (xs : List α) (a : UInt64) :
    xs.foldl (fun n _ => n + 1) a = a + UInt64.ofNat xs.length := by
  induction xs generalizing a with
  | nil => simp
  | cons x rest ih =>
      rw [List.foldl_cons, ih, List.length_cons, UInt64.ofNat_add, UInt64.add_assoc,
        UInt64.add_comm (UInt64.ofNat rest.length)]
      rfl

/-- The items of a key are as many as the key occurs. -/
theorem length_itemsOf (keys : List Str) (q : Str) :
    (Grouping.itemsOf q (keys.map (fun key => (key, ())))).length = keys.count q := by
  induction keys with
  | nil => rfl
  | cons key rest ih =>
      rw [List.map_cons, Grouping.itemsOf_cons, List.count_cons]
      by_cases h : key = q
      · simp [h, ih]
      · simp [h, ih]

/-- **Each key is counted as often as it was committed**, modulo `2 ^ 64`. -/
theorem lookup_commits {keys : List Str} (hkeys : ∀ key ∈ keys, (0 : UInt8) ∉ key) (q : Str) :
    (new.commits keys).countMap.lookup q = if q ∈ keys then some (UInt64.ofNat (keys.count q)) else none := by
  have hmap : (new.commits keys).countMap =
      Grouping.groupAll (fun _ => 0) (fun n _ => n + 1) ∅ (keys.map (fun key => (key, ()))) :=
    commits_eq_groupAll hkeys
  rw [hmap, Grouping.lookup_groupAll_empty]
  have hmem : Grouping.itemsOf q (keys.map (fun key => (key, ()))) = [] ↔ q ∉ keys := by
    rw [← List.length_eq_zero_iff, length_itemsOf, List.count_eq_zero]
  by_cases hq : q ∈ keys
  · rw [if_neg (fun hnil => hmem.mp hnil hq), if_pos hq, foldl_count, length_itemsOf, UInt64.zero_add]
  · rw [if_pos (hmem.mpr hq), if_neg hq]

/-! ## Iterating over the entries -/

variable {c : Counter} {order : List (Str × UInt64)}

/-- The counts printed under a key. -/
def countOf (order : List (Str × UInt64)) (q : Str) : Nat :=
  ((order.filter (fun e => e.1 = q)).map (fun e => e.2.toNat)).sum

@[simp] theorem countOf_nil (q : Str) : countOf [] q = 0 := rfl

theorem countOf_cons (e : Str × UInt64) (order : List (Str × UInt64)) (q : Str) :
    countOf (e :: order) q = (if e.1 = q then e.2.toNat else 0) + countOf order q := by
  unfold countOf
  by_cases h : e.1 = q
  · simp [h]
  · simp [h]

/-- A key that does not come has no count. -/
theorem countOf_of_notMem {q : Str} (h : q ∉ order.map Prod.fst) : countOf order q = 0 := by
  induction order with
  | nil => rfl
  | cons e rest ih =>
      rw [List.map_cons, List.mem_cons, not_or] at h
      rw [countOf_cons, if_neg (Ne.symm h.1), ih h.2]

/-- **The printed count of a key** is the one in the map. -/
theorem countOf_eq (h : Grouping.Listing c.countMap order) (q : Str) :
    countOf order q = ((c.countMap.lookup q).getD 0).toNat := by
  have hone : ∀ {n : UInt64} {es : List (Str × UInt64)}, (es.map Prod.fst).Nodup → (q, n) ∈ es →
      countOf es q = n.toNat := by
    intro n es hnodup hmem
    induction es with
    | nil => exact absurd hmem (by simp)
    | cons e rest ih =>
        rw [List.map_cons, List.nodup_cons] at hnodup
        rw [countOf_cons]
        rcases List.mem_cons.mp hmem with rfl | hmem
        · rw [if_pos rfl, countOf_of_notMem hnodup.1, Nat.add_zero]
        · have hne : e.1 ≠ q := by
            intro he
            exact hnodup.1 (he ▸ List.mem_map.mpr ⟨_, hmem, rfl⟩)
          rw [if_neg hne, ih hnodup.2 hmem, Nat.zero_add]
  cases hl : c.countMap.lookup q with
  | some n => exact hone h.nodup (h.mem_iff.mpr hl)
  | none =>
      apply countOf_of_notMem
      intro hq
      obtain ⟨⟨q', n⟩, he, rfl⟩ := List.mem_map.mp hq
      rw [h.mem_iff.mp he] at hl
      exact absurd hl (by simp)

/-- After the keys were committed, each is printed with the number of its commits. -/
theorem countOf_commits {keys : List Str} (hkeys : ∀ key ∈ keys, (0 : UInt8) ∉ key)
    (h : (new.commits keys).Listing order) (q : Str) : countOf order q = keys.count q % 18446744073709551616 := by
  rw [countOf_eq h, lookup_commits hkeys]
  by_cases hq : q ∈ keys
  · rw [if_pos hq, Option.getD_some, UInt64.toNat_ofNat']
  · rw [if_neg hq, Option.getD_none, List.count_eq_zero_of_not_mem hq]
    rfl

/-- The keys of the entries are the committed ones. -/
theorem mem_keys_commits {keys : List Str} (hkeys : ∀ key ∈ keys, (0 : UInt8) ∉ key)
    (h : (new.commits keys).Listing order) {q : Str} : q ∈ order.map Prod.fst ↔ q ∈ keys := by
  have hlookup := lookup_commits hkeys q
  constructor
  · intro hq
    obtain ⟨⟨q', n⟩, he, rfl⟩ := List.mem_map.mp hq
    rw [Grouping.Listing.mem_iff h |>.mp he] at hlookup
    by_contra hnot
    rw [if_neg hnot] at hlookup
    exact absurd hlookup (by simp)
  · intro hq
    rw [if_pos hq] at hlookup
    exact List.mem_map.mpr ⟨(q, _), Grouping.Listing.mem_iff h |>.mpr hlookup, rfl⟩

end Counter

end StorTrace
