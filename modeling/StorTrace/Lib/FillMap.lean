import Mathlib.Data.List.Induction
import StorTrace.Lib.BpfMap

/-!
# `Lib.FillMap` — bounded maps that are only stored into

A map nobody deletes from keeps every key it ever took. After any sequence of `BPF_ANY` stores it holds
exactly the first `n` distinct keys of the sequence, each with its last value, and no later key ever gets
in (`lookupElem_fill`).
-/

namespace BpfHash

variable {κ ν : Type} [DecidableEq κ] {n : Nat}

/-- A `BPF_ANY` store adds a key exactly if the key is new and there is room for it. -/
theorem length_keys_update_any (m : BpfHash κ ν n) (k : κ) (v : ν) :
    (m.updateElem k v .any).1.entries.keys.length =
      if m.lookupElem k = none ∧ m.HasRoom then m.entries.keys.length + 1
      else m.entries.keys.length := by
  unfold updateElem
  by_cases h : k ∈ m.entries
  · have hl : m.lookupElem k ≠ none := fun hn => lookupElem_eq_none.mp hn h
    rw [dif_pos h, if_neg (fun hc => hl hc.1)]
    exact length_keys_insert_of_mem v h
  · have hl : m.lookupElem k = none := lookupElem_eq_none.mpr h
    rw [dif_neg h]
    by_cases hr : m.HasRoom
    · rw [dif_pos hr, if_pos ⟨hl, hr⟩]
      exact length_keys_insert_of_notMem v h
    · rw [dif_neg hr, if_neg (fun hc => hr hc.2)]

/-- The map after the stores `kvs`. -/
def fill (kvs : List (κ × ν)) : BpfHash κ ν n :=
  kvs.foldl (fun m kv => (m.updateElem kv.1 kv.2 .any).1) .empty

/-- The keys stored to, each at its first store. -/
def firstKeys (kvs : List (κ × ν)) : List κ := (kvs.map Prod.fst).eraseDups

/-- The value stored last under `k`. -/
def lastValue (kvs : List (κ × ν)) (k : κ) : Option ν :=
  (kvs.filterMap (fun kv => if kv.1 = k then some kv.2 else none)).getLast?

theorem fill_concat (kvs : List (κ × ν)) (kv : κ × ν) :
    (fill (kvs ++ [kv]) : BpfHash κ ν n) = ((fill kvs).updateElem kv.1 kv.2 .any).1 := by
  rw [fill, List.foldl_append]; rfl

theorem mem_firstKeys {kvs : List (κ × ν)} {k : κ} : k ∈ firstKeys kvs ↔ k ∈ kvs.map Prod.fst :=
  List.mem_eraseDups

/-- Only a new key is added, at the end. -/
theorem firstKeys_concat (kvs : List (κ × ν)) (kv : κ × ν) :
    firstKeys (kvs ++ [kv]) =
      if kv.1 ∈ firstKeys kvs then firstKeys kvs else firstKeys kvs ++ [kv.1] := by
  simp only [mem_firstKeys]
  rw [firstKeys, List.map_append, List.eraseDups_append, List.map_singleton]
  by_cases h : kv.1 ∈ kvs.map Prod.fst
  · rw [if_pos h, List.removeAll, List.filter_cons_of_neg (by simpa using h), List.filter_nil,
      List.eraseDups_nil, List.append_nil]
    rfl
  · rw [if_neg h, List.removeAll, List.filter_cons_of_pos (by simpa using h), List.filter_nil]
    rfl

/-- Distinct keys are all first stores. -/
theorem firstKeys_of_nodup {kvs : List (κ × ν)} (h : (kvs.map Prod.fst).Nodup) :
    firstKeys kvs = kvs.map Prod.fst := by
  induction kvs using List.reverseRecOn with
  | nil => rfl
  | append_singleton kvs kv ih =>
      rw [List.map_append, List.nodup_append] at h
      obtain ⟨hnodup, -, hdisj⟩ := h
      have hnew : kv.1 ∉ firstKeys kvs := by
        rw [mem_firstKeys]
        intro hmem
        exact hdisj _ hmem kv.1 (by simp) rfl
      rw [firstKeys_concat, if_neg hnew, ih hnodup, List.map_append]
      rfl

theorem lastValue_concat (kvs : List (κ × ν)) (kv : κ × ν) (k : κ) :
    lastValue (kvs ++ [kv]) k = if kv.1 = k then some kv.2 else lastValue kvs k := by
  unfold lastValue
  rw [List.filterMap_append]
  by_cases h : kv.1 = k <;> simp [h]

/-- A key that was stored to has a last value. -/
theorem lastValue_eq_none {kvs : List (κ × ν)} {k : κ} : lastValue kvs k = none ↔ k ∉ firstKeys kvs := by
  induction kvs using List.reverseRecOn with
  | nil => simp [lastValue, firstKeys]
  | append_singleton kvs kv ih =>
      have hmem : k ∈ firstKeys (kvs ++ [kv]) ↔ k ∈ firstKeys kvs ∨ k = kv.1 := by
        rw [mem_firstKeys, mem_firstKeys, List.map_append]
        simp
      rw [lastValue_concat, hmem]
      by_cases h : kv.1 = k
      · simp [h]
      · simp [h, ih, Ne.symm h]

/-- **The first `n` distinct keys fill the map, and no other key ever gets in.** -/
theorem fill_spec (kvs : List (κ × ν)) :
    (fill kvs : BpfHash κ ν n).entries.keys.length = min n (firstKeys kvs).length ∧
      ∀ k, (fill kvs : BpfHash κ ν n).lookupElem k =
        if k ∈ (firstKeys kvs).take n then lastValue kvs k else none := by
  induction kvs using List.reverseRecOn with
  | nil => exact ⟨by simp [fill, empty, firstKeys], fun k => by simp [fill, firstKeys]⟩
  | append_singleton kvs kv ih =>
      obtain ⟨hlen, hlookup⟩ := ih
      have hroom : (fill kvs : BpfHash κ ν n).HasRoom ↔ (firstKeys kvs).length < n := by
        unfold HasRoom
        rw [hlen]
        omega
      have hnone : (fill kvs : BpfHash κ ν n).lookupElem kv.1 = none ↔ kv.1 ∉ (firstKeys kvs).take n := by
        rw [hlookup]
        by_cases hmem : kv.1 ∈ (firstKeys kvs).take n
        · have hval : lastValue kvs kv.1 ≠ none := fun hn =>
            lastValue_eq_none.mp hn (List.mem_of_mem_take hmem)
          simp [hmem, hval]
        · simp [hmem]
      -- what the store does to the keys and to each lookup
      have hkeys := length_keys_update_any (fill kvs : BpfHash κ ν n) kv.1 kv.2
      have hafter := lookupElem_update_any (fill kvs : BpfHash κ ν n) kv.1 (v := kv.2)
      simp only [hnone, hroom, hlen] at hkeys
      simp only [ne_eq, hnone, hroom, not_not] at hafter
      rw [fill_concat, firstKeys_concat]
      simp only [hkeys, hafter, hlookup, lastValue_concat]
      by_cases hmem : kv.1 ∈ firstKeys kvs
      · rw [if_pos hmem]
        by_cases htake : kv.1 ∈ (firstKeys kvs).take n
        · -- a key of the map: its value is replaced
          refine ⟨by simp [htake], ?_⟩
          intro k
          by_cases hk : k = kv.1
          · simp [hk, htake]
          · simp [hk, Ne.symm hk]
        · -- a key that was refused before: the map is still full
          have hfull : ¬ (firstKeys kvs).length < n := by
            intro hlt
            rw [List.take_of_length_le (by omega)] at htake
            exact htake hmem
          refine ⟨by simp [hfull], ?_⟩
          intro k
          by_cases hk : k = kv.1
          · simp [hk, htake, hfull]
          · simp [hk, Ne.symm hk]
      · rw [if_neg hmem]
        have hnew : kv.1 ∉ (firstKeys kvs).take n := fun h => hmem (List.mem_of_mem_take h)
        by_cases hlt : (firstKeys kvs).length < n
        · -- a new key, and a free slot
          have htake : (firstKeys kvs ++ [kv.1]).take n = firstKeys kvs ++ [kv.1] :=
            List.take_of_length_le (by simp; omega)
          have htake' : (firstKeys kvs).take n = firstKeys kvs := List.take_of_length_le (by omega)
          refine ⟨by simp [hnew, hlt]; omega, ?_⟩
          intro k
          rw [htake, htake']
          by_cases hk : k = kv.1
          · simp [hk, hlt]
          · simp [hk, Ne.symm hk]
        · -- a new key, and the map is full
          have htake : (firstKeys kvs ++ [kv.1]).take n = (firstKeys kvs).take n :=
            List.take_append_of_le_length (by omega)
          refine ⟨by simp [hlt]; omega, ?_⟩
          intro k
          rw [htake]
          by_cases hk : k = kv.1
          · simp [hk, hnew, hlt]
          · simp [hk, Ne.symm hk]

end BpfHash
