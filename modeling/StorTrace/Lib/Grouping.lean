import Mathlib.Data.List.AList

/-!
# `Lib.Grouping` — one accumulator for each key

A stream of pairs is spread over accumulators: each pair goes to the accumulator of its key, which is made
the first time the key is seen. Whatever the interleaving, the accumulator of a key is what that key's own
items make of a fresh one (`lookup_groupAll`).
-/

namespace Grouping

variable {κ α β : Type} [DecidableEq κ] (fresh : κ → β) (add : β → α → β)

/-- Hand one item to the accumulator of its key. -/
def group (m : AList (fun _ : κ => β)) (p : κ × α) : AList (fun _ : κ => β) :=
  m.insert p.1 (add ((m.lookup p.1).getD (fresh p.1)) p.2)

/-- Hand over a whole stream. -/
def groupAll (m : AList (fun _ : κ => β)) (ps : List (κ × α)) : AList (fun _ : κ => β) :=
  ps.foldl (group fresh add) m

/-- The items of a key, in order. -/
def itemsOf (k : κ) (ps : List (κ × α)) : List α := (ps.filter (fun p => p.1 = k)).map Prod.snd

@[simp] theorem itemsOf_nil (k : κ) : itemsOf k ([] : List (κ × α)) = [] := rfl

theorem itemsOf_cons (k : κ) (p : κ × α) (ps : List (κ × α)) :
    itemsOf k (p :: ps) = if p.1 = k then p.2 :: itemsOf k ps else itemsOf k ps := by
  unfold itemsOf
  by_cases h : p.1 = k
  · simp [h]
  · simp [h]

variable {fresh add} {m : AList (fun _ : κ => β)} {ps : List (κ × α)} {k : κ}

theorem itemsOf_ne_nil : itemsOf k ps ≠ [] ↔ k ∈ ps.map Prod.fst := by
  simp [itemsOf, List.mem_map]

/-- An item changes the accumulator of its key, and no other. -/
theorem lookup_group (p : κ × α) :
    (group fresh add m p).lookup k =
      if p.1 = k then some (add ((m.lookup k).getD (fresh k)) p.2) else m.lookup k := by
  unfold group
  by_cases h : p.1 = k
  · subst h
    rw [if_pos rfl, AList.lookup_insert]
  · rw [if_neg h, AList.lookup_insert_ne (Ne.symm h)]

/-- **Each accumulator sees its own items only**, all of them and in order. -/
theorem lookup_groupAll :
    (groupAll fresh add m ps).lookup k =
      if itemsOf k ps = [] then m.lookup k
      else some ((itemsOf k ps).foldl add ((m.lookup k).getD (fresh k))) := by
  -- by induction on the items still to come
  induction ps generalizing m with
  | nil => rw [itemsOf_nil, if_pos rfl]; rfl
  | cons p rest ih =>
      have hcons : groupAll fresh add m (p :: rest) = groupAll fresh add (group fresh add m p) rest := rfl
      rw [hcons, ih, lookup_group, itemsOf_cons]
      by_cases h : p.1 = k
      · simp only [h, if_true, Option.getD_some, List.cons_ne_nil, if_false, List.foldl_cons]
        split
        · next hnil => rw [hnil, List.foldl_nil]
        · rfl
      · simp only [h, if_false]

/-- Starting from no accumulator at all. -/
theorem lookup_groupAll_empty :
    (groupAll fresh add ∅ ps).lookup k =
      if itemsOf k ps = [] then none else some ((itemsOf k ps).foldl add (fresh k)) := by
  rw [lookup_groupAll, AList.lookup_empty, Option.getD_none]

theorem mem_itemsOf {x : α} : x ∈ itemsOf k ps ↔ (k, x) ∈ ps := by
  simp only [itemsOf, List.mem_map, List.mem_filter, decide_eq_true_eq, Prod.exists]
  constructor
  · rintro ⟨k', x', ⟨hmem, rfl⟩, rfl⟩
    exact hmem
  · intro hmem
    exact ⟨k, x, ⟨hmem, rfl⟩, rfl⟩

/-! ## Iterating over the accumulators -/

/-- An order in which a map may be iterated over. -/
def Listing (m : AList (fun _ : κ => β)) (order : List (κ × β)) : Prop :=
  order.Perm (m.entries.map (fun e => (e.1, e.2)))

variable {order : List (κ × β)}

omit [DecidableEq κ] in
theorem Listing.refl (m : AList (fun _ : κ => β)) : Listing m (m.entries.map (fun e => (e.1, e.2))) :=
  List.Perm.refl _

omit [DecidableEq κ] in
/-- Every key comes once. -/
theorem Listing.nodup (h : Listing m order) : (order.map Prod.fst).Nodup := by
  have hkeys : (m.entries.map (fun e => (e.1, e.2))).map Prod.fst = m.keys := by
    rw [List.map_map]
    rfl
  rw [(h.map Prod.fst).nodup_iff, hkeys]
  exact m.nodupKeys

/-- It comes with its accumulator. -/
theorem Listing.mem_iff (h : Listing m order) {b : β} : (k, b) ∈ order ↔ m.lookup k = some b := by
  rw [List.Perm.mem_iff h, ← Option.mem_def, AList.mem_lookup_iff, List.mem_map]
  constructor
  · rintro ⟨e, he, heq⟩
    obtain ⟨rfl, rfl⟩ := Prod.mk.injEq .. ▸ heq
    exact he
  · intro he
    exact ⟨⟨k, b⟩, he, rfl⟩

end Grouping
