import Mathlib.Data.List.AList

/-!
# `Lib.BpfMap` — bounded hash maps with the kernel's update rules

A `BPF_MAP_TYPE_HASH` map holds at most `max_entries` keys. Storing under a key that is already there
always succeeds (unless the caller asked for `BPF_NOEXIST`); storing under a **new** key fails once the
map is full. `BpfHash` is an association list carrying that bound as a field, so an over-full map cannot
be built, and `updateElem` returns the kernel's return code next to the new map.

A handler may also write through the pointer a lookup returned; `modifyElem` is that write.
-/

/-- The `flags` argument of `bpf_map_update_elem`. -/
inductive UpdateFlag where
  | any
  | noexist
deriving DecidableEq, Repr

/-- A hash map from `κ` to `ν` with room for `maxEntries` keys. -/
structure BpfHash (κ ν : Type) [DecidableEq κ] (maxEntries : Nat) where
  entries : AList (fun _ : κ => ν)
  bounded : entries.keys.length ≤ maxEntries

namespace BpfHash

variable {κ ν : Type} [DecidableEq κ] {n : Nat}

/-- The map as loaded: no entries. -/
def empty : BpfHash κ ν n := ⟨∅, Nat.zero_le _⟩

/-- `bpf_map_lookup_elem`. -/
def lookupElem (m : BpfHash κ ν n) (k : κ) : Option ν := m.entries.lookup k

/-- `k` could be stored with the flag `BPF_NOEXIST` or, if it is new, at all. -/
def HasRoom (m : BpfHash κ ν n) : Prop := m.entries.keys.length < n

instance (m : BpfHash κ ν n) : Decidable m.HasRoom := inferInstanceAs (Decidable (_ < _))

/-- Replacing the value of a present key does not change the number of keys. -/
theorem length_keys_insert_of_mem {s : AList (fun _ : κ => ν)} {k : κ} (v : ν) (h : k ∈ s) :
    (s.insert k v).keys.length = s.keys.length := by
  have hk : k ∈ s.keys := AList.mem_keys.mp h
  rw [AList.keys_insert, List.length_cons, List.length_erase_of_mem hk]
  exact Nat.succ_pred_eq_of_pos (List.length_pos_of_mem hk)

/-- A new key adds one. -/
theorem length_keys_insert_of_notMem {s : AList (fun _ : κ => ν)} {k : κ} (v : ν) (h : k ∉ s) :
    (s.insert k v).keys.length = s.keys.length + 1 := by
  have hk : k ∉ s.keys := by
    intro hm
    exact h (AList.mem_keys.mpr hm)
  rw [AList.keys_insert, List.length_cons, List.erase_of_not_mem hk]

theorem length_keys_erase_le (s : AList (fun _ : κ => ν)) (k : κ) :
    (s.erase k).keys.length ≤ s.keys.length := by
  rw [AList.keys_erase]; exact List.length_erase_le

/-- Overwrite the value of a key that is present. -/
def overwrite (m : BpfHash κ ν n) (k : κ) (v : ν) (h : k ∈ m.entries) : BpfHash κ ν n :=
  ⟨m.entries.insert k v, by rw [length_keys_insert_of_mem v h]; exact m.bounded⟩

/-- Store a key that is absent, given a free slot. -/
def addNew (m : BpfHash κ ν n) (k : κ) (v : ν) (h : k ∉ m.entries) (hr : m.HasRoom) : BpfHash κ ν n :=
  ⟨m.entries.insert k v, by rw [length_keys_insert_of_notMem v h]; exact hr⟩

/-- `bpf_map_update_elem`: the new map and the return code (`0`, `-EEXIST` or `-E2BIG`). -/
def updateElem (m : BpfHash κ ν n) (k : κ) (v : ν) (flag : UpdateFlag) : BpfHash κ ν n × Int :=
  if h : k ∈ m.entries then
    -- a present key needs no new slot; `BPF_NOEXIST` refuses to replace it
    match flag with
    | .any => (m.overwrite k v h, 0)
    | .noexist => (m, -17)
  else if hr : m.HasRoom then (m.addNew k v h hr, 0)
  -- a full map takes no new key, whatever the flag
  else (m, -7)

/-- `bpf_map_delete_elem` (its return code is never looked at). -/
def deleteElem (m : BpfHash κ ν n) (k : κ) : BpfHash κ ν n :=
  ⟨m.entries.erase k, Nat.le_trans (length_keys_erase_le _ _) m.bounded⟩

/-- Look `k` up and delete it if it is there. -/
def recycleElem (m : BpfHash κ ν n) (k : κ) : BpfHash κ ν n :=
  if m.lookupElem k ≠ none then m.deleteElem k else m

theorem lookupElem_eq_none {m : BpfHash κ ν n} {k : κ} : m.lookupElem k = none ↔ k ∉ m.entries :=
  AList.lookup_eq_none

theorem mem_of_lookupElem {m : BpfHash κ ν n} {k : κ} {v : ν} (h : m.lookupElem k = some v) :
    k ∈ m.entries :=
  AList.lookup_isSome.mp (Option.isSome_of_eq_some h)

/-- Write through the pointer returned by a lookup of `k`; nothing happens when the lookup fails. -/
def modifyElem (m : BpfHash κ ν n) (k : κ) (f : ν → ν) : BpfHash κ ν n :=
  match h : m.lookupElem k with
  | some v => m.overwrite k (f v) (mem_of_lookupElem h)
  | none => m

/-- A write through a failed lookup changes nothing. -/
theorem modifyElem_of_none {m : BpfHash κ ν n} {k : κ} {f : ν → ν} (h : m.lookupElem k = none) :
    m.modifyElem k f = m := by
  unfold modifyElem
  split
  · next v hv => rw [h] at hv; exact absurd hv (by simp)
  · rfl

/-! ## Lookups after each operation -/

@[simp] theorem lookupElem_empty (k : κ) : (empty : BpfHash κ ν n).lookupElem k = none :=
  AList.lookup_empty k

theorem lookupElem_overwrite (m : BpfHash κ ν n) (k k' : κ) (v : ν) (h : k ∈ m.entries) :
    (m.overwrite k v h).lookupElem k' = if k' = k then some v else m.lookupElem k' := by
  by_cases hk : k' = k
  · subst hk; rw [if_pos rfl]; exact AList.lookup_insert _
  · rw [if_neg hk]; exact AList.lookup_insert_ne hk

theorem lookupElem_addNew (m : BpfHash κ ν n) (k k' : κ) (v : ν) (h : k ∉ m.entries)
    (hr : m.HasRoom) :
    (m.addNew k v h hr).lookupElem k' = if k' = k then some v else m.lookupElem k' := by
  by_cases hk : k' = k
  · subst hk; rw [if_pos rfl]; exact AList.lookup_insert _
  · rw [if_neg hk]; exact AList.lookup_insert_ne hk

@[simp] theorem lookupElem_deleteElem (m : BpfHash κ ν n) (k k' : κ) :
    (m.deleteElem k).lookupElem k' = if k' = k then none else m.lookupElem k' := by
  by_cases hk : k' = k
  · subst hk; rw [if_pos rfl]; exact AList.lookup_erase _ _
  · rw [if_neg hk]; exact AList.lookup_erase_ne hk

@[simp] theorem lookupElem_recycleElem (m : BpfHash κ ν n) (k k' : κ) :
    (m.recycleElem k).lookupElem k' = if k' = k then none else m.lookupElem k' := by
  unfold recycleElem
  by_cases hl : m.lookupElem k = none
  · rw [if_neg (fun h => h hl)]
    by_cases hk : k' = k
    · rw [if_pos hk, hk, hl]
    · rw [if_neg hk]
  · rw [if_pos hl, lookupElem_deleteElem]

@[simp] theorem lookupElem_modifyElem (m : BpfHash κ ν n) (k k' : κ) (f : ν → ν) :
    (m.modifyElem k f).lookupElem k' =
      if k' = k then (m.lookupElem k).map f else m.lookupElem k' := by
  unfold modifyElem
  split
  · next v hl => rw [lookupElem_overwrite, hl, Option.map_some]
  · next hl =>
    by_cases hk : k' = k
    · rw [if_pos hk, hk, hl]; rfl
    · rw [if_neg hk]

/-- An entry that is deleted may as well not have been written. -/
theorem deleteElem_modifyElem (m : BpfHash κ ν n) (k : κ) (f : ν → ν) :
    (m.modifyElem k f).deleteElem k = m.deleteElem k := by
  unfold modifyElem
  split
  · next v hl =>
    have herase : (m.entries.insert k (f v)).erase k = m.entries.erase k := by
      apply AList.ext
      exact List.kerase_cons_eq (β := fun _ : κ => ν) (s := ⟨k, f v⟩) rfl
    simp only [deleteElem, overwrite, herase]
  · rfl

/-- A `BPF_ANY` store is seen under its key when the key was present or a slot was free; every other
    key keeps its value. -/
@[simp] theorem lookupElem_update_any (m : BpfHash κ ν n) (k k' : κ) (v : ν) :
    (m.updateElem k v .any).1.lookupElem k' =
      if k' = k then (if m.lookupElem k ≠ none ∨ m.HasRoom then some v else none)
      else m.lookupElem k' := by
  unfold updateElem
  by_cases h : k ∈ m.entries
  · -- the key is present: its value is replaced
    have hl : m.lookupElem k ≠ none := by
      intro hn
      exact lookupElem_eq_none.mp hn h
    rw [dif_pos h]
    simp only [lookupElem_overwrite, if_pos (Or.inl hl : m.lookupElem k ≠ none ∨ m.HasRoom)]
  · -- the key is new: it is stored if a slot is free
    have hl : m.lookupElem k = none := lookupElem_eq_none.mpr h
    rw [dif_neg h]
    by_cases hr : m.HasRoom
    · simp only [dif_pos hr, lookupElem_addNew, if_pos (Or.inr hr : m.lookupElem k ≠ none ∨ m.HasRoom)]
    · rw [dif_neg hr]
      by_cases hk : k' = k
      · subst hk; simp [hl, hr]
      · rw [if_neg hk]

/-- A `BPF_NOEXIST` store never replaces: a present key keeps its old value. -/
@[simp] theorem lookupElem_update_noexist (m : BpfHash κ ν n) (k k' : κ) (v : ν) :
    (m.updateElem k v .noexist).1.lookupElem k' =
      if k' = k ∧ m.lookupElem k = none ∧ m.HasRoom then some v else m.lookupElem k' := by
  unfold updateElem
  by_cases h : k ∈ m.entries
  · have hl : m.lookupElem k ≠ none := by
      intro hn
      exact lookupElem_eq_none.mp hn h
    rw [dif_pos h, if_neg (fun hc => hl hc.2.1)]
  · have hl : m.lookupElem k = none := lookupElem_eq_none.mpr h
    rw [dif_neg h]
    by_cases hr : m.HasRoom
    · by_cases hk : k' = k
      · simp [lookupElem_addNew, hk, hl, hr]
      · simp [hr, lookupElem_addNew, hk]
    · rw [dif_neg hr, if_neg (fun hc => hr hc.2.2)]

end BpfHash
