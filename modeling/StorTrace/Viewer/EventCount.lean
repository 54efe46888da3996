import StorTrace.Collector.Counts
import StorTrace.Collector.LogCollecter
import StorTrace.Ext4Dio.Aligned

/-!
# `Viewer.EventCount` — the operation counters as the viewer shows them (`file_event_count`, `process_event_count`)

The counters are dumped as one text, `[name+op,count]` joined by commas, with nothing escaped; the viewer
deletes the brackets and splits at `,` and `+`. A Python text is modelled by its UTF-8 bytes: everything that
is deleted or split at is ASCII, and an ASCII byte is part of no other character.

`countersShown_iff` says for which events the viewer's map is the one of the events.
-/

namespace StorTrace

open Meta

/-! ## The viewer -/

/-- `int(text)`: decimal digits are their number. What Python accepts besides is left open (`other`). -/
def pyInt (other : Str → Option Int) (text : Str) : Option Int :=
  if text ≠ [] ∧ text.all isDigit then some (Text.horner (text.map (fun c => c.toNat - 48)) : Nat)
  else other text

/-- `data_map`. -/
abbrev DataMap := AList (fun _ : Str => List Int)

/-- `value`: the count in the place of the operation `"dr"`, `"dw"` or `"fy"`. -/
def opValue (op : Str) (count : Int) : List Int :=
  if op = [100, 114] then [count, 0, 0]
  else if op = [100, 119] then [0, count, 0]
  else if op = [102, 121] then [0, 0, count]
  else [0, 0, 0]

/-- Add `value` to the entry of a name, which is made on first contact. -/
def DataMap.add (m : DataMap) (fileName : Str) (value : List Int) : DataMap :=
  match m.lookup fileName with
  | some old => m.insert fileName (List.zipWith (· + ·) old value)
  | none => m.insert fileName value

/-- The loop over `file_list`, two elements at a time. It fails where Python raises: an element that is not
    two parts around a `+`, a missing count, a count that is no number. -/
def eventLoop (other : Str → Option Int) : DataMap → List Str → Option DataMap
  | m, [] => some m
  | _, [_] => none
  | m, item :: text :: rest =>
      match item.splitOn 43 with
      | [fileName, op] =>
          (pyInt other text).bind (fun count => eventLoop other (m.add fileName (opValue op count)) rest)
      | _ => none

/-- `data_map` after the loop, from `data["seq_data"]`. -/
def eventMap (other : Str → Option Int) (seqData : Str) : Option DataMap :=
  let eventStr := (seqData.filter (· ≠ 91)).filter (· ≠ 93)
  eventLoop other ∅ (eventStr.splitOn 44)

/-- `file_event_count`; `load` is `json.load(open(path + name))["seq_data"]`. -/
def fileEventCount (other : Str → Option Int) (load : String → Option Str) : Option DataMap :=
  (load "/file_dio_op_counter.json").bind (eventMap other)

/-- `process_event_count`. -/
def processEventCount (other : Str → Option Int) (load : String → Option Str) : Option DataMap :=
  (load "/process_dio_op_counter.json").bind (eventMap other)

/-! ## Names in the map -/

/-- A character of a text the viewer does not take apart. -/
def Unmarked (b : UInt8) : Prop := b ≠ 91 ∧ b ≠ 93 ∧ b ≠ 44

/-- A name without `[`, `]`, `,` and `+`. -/
def PlainName (name : Str) : Prop := ∀ b ∈ name, Unmarked b ∧ b ≠ 43

instance (b : UInt8) : Decidable (Unmarked b) := inferInstanceAs (Decidable (_ ∧ _))

instance (name : Str) : Decidable (PlainName name) := List.decidableBAll _ name

section Parser

variable {other : Str → Option Int} {m m' : DataMap}

theorem mem_add {fileName k : Str} {value : List Int} : k ∈ m.add fileName value ↔ k = fileName ∨ k ∈ m := by
  unfold DataMap.add
  split <;> exact AList.mem_insert m

/-- **The loop makes plain names only.** -/
theorem plainName_of_eventLoop {items : List Str} (h : eventLoop other m items = some m')
    (hitems : ∀ item ∈ items, ∀ b ∈ item, Unmarked b) : ∀ k ∈ m', k ∈ m ∨ PlainName k := by
  intro k hk
  induction m, items using eventLoop.induct with
  | case1 m =>
      rw [eventLoop] at h
      rw [← Option.some.inj h] at hk
      exact Or.inl hk
  | case2 m item => exact absurd h (by simp [eventLoop])
  | case3 m item text rest fileName op hsplit ih =>
      rw [eventLoop, hsplit] at h
      obtain ⟨count, -, hrest⟩ := Option.bind_eq_some_iff.mp h
      have hrest' : ∀ item ∈ rest, ∀ b ∈ item, Unmarked b := by
        intro item hitem
        exact hitems item (by simp [hitem])
      rcases ih count hrest hrest' with hin | hplain
      · rcases mem_add.mp hin with rfl | hin
        · right
          have hmem : k ∈ item.splitOn 43 := by
            rw [hsplit]
            exact List.mem_cons_self
          intro b hb
          refine ⟨hitems item List.mem_cons_self b (Text.mem_of_mem_splitOn hmem hb), ?_⟩
          rintro rfl
          exact Text.notMem_of_mem_splitOn hmem hb
        · exact Or.inl hin
      · exact Or.inr hplain
  | case4 m item text rest hsplit =>
      rw [eventLoop] at h
      split at h
      · next fileName op heq => exact absurd heq (hsplit fileName op)
      · exact absurd h (by simp)

/-- **Every name the viewer shows is plain**, whatever the text. -/
theorem plainName_of_eventMap {seqData : Str} (h : eventMap other seqData = some m) : ∀ k ∈ m, PlainName k := by
  intro k hk
  have hitems : ∀ item ∈ (((seqData.filter (· ≠ 91)).filter (· ≠ 93)).splitOn 44), ∀ b ∈ item, Unmarked b := by
    intro item hitem b hb
    have hb' := Text.mem_of_mem_splitOn hitem hb
    simp only [List.mem_filter, decide_eq_true_eq] at hb'
    refine ⟨hb'.1.2, hb'.2, ?_⟩
    rintro rfl
    exact Text.notMem_of_mem_splitOn hitem hb
  rcases plainName_of_eventLoop h hitems k hk with hin | hplain
  · exact absurd hin (AList.notMem_empty k)
  · exact hplain

/-- Nothing can be read from an empty text. -/
theorem eventMap_nil : eventMap other [] = none := rfl

/-! ## Reading entries back -/

/-- A printed count is read back. -/
theorem pyInt_stdToString (n : Nat) : pyInt other (stdToString n) = some (n : Int) := by
  have hall : (stdToString n).all isDigit = true :=
    List.all_eq_true.mpr (fun c hc => isDigit_of_mem_stdToString hc)
  rw [pyInt, if_pos ⟨stdToString_ne_nil n, hall⟩, horner_stdToString]

/-- The accumulators the loop fills: element by element, from zero. -/
def addValues : List Int → List Int → List Int := List.zipWith (· + ·)

theorem add_eq_group (fileName op : Str) (count : Int) :
    m.add fileName (opValue op count) =
      Grouping.group (fun _ => [0, 0, 0]) addValues m (fileName, opValue op count) := by
  have hzero : addValues [0, 0, 0] (opValue op count) = opValue op count := by
    unfold opValue addValues
    split
    · simp
    · split
      · simp
      · split <;> simp
  unfold DataMap.add Grouping.group
  cases m.lookup fileName with
  | some old => rfl
  | none =>
      show m.insert fileName (opValue op count) = m.insert fileName (addValues [0, 0, 0] (opValue op count))
      rw [hzero]

/-- An entry whose key is a plain name and a plain operation around a `+`. -/
def Readable (e : Str × UInt64) : Prop := ∃ name op, e.1 = name ++ 43 :: op ∧ PlainName name ∧ PlainName op

/-- The name and the value the loop reads from an entry. -/
def parsedEntry (e : Str × UInt64) : Str × List Int :=
  ((e.1.splitOn 43).headD [], opValue ((e.1.splitOn 43).getD 1 []) e.2.toNat)

theorem PlainName.notMem_plus {name : Str} (h : PlainName name) : (43 : UInt8) ∉ name :=
  fun hmem => (h 43 hmem).2 rfl

theorem splitOn_key {name op : Str} (hname : PlainName name) (hop : PlainName op) :
    (name ++ 43 :: op).splitOn 43 = [name, op] := by
  rw [List.splitOn_append_cons_self_of_not_mem hname.notMem_plus, List.splitOn_eq_singleton hop.notMem_plus]

/-- **The loop reads each entry** and adds it to the name of its key. -/
theorem eventLoop_entries {es : List (Str × UInt64)} (hes : ∀ e ∈ es, Readable e) :
    eventLoop other m (es.flatMap (fun e => [e.1, stdToString e.2.toNat])) =
      some (Grouping.groupAll (fun _ => [0, 0, 0]) addValues m (es.map parsedEntry)) := by
  induction es generalizing m with
  | nil => rfl
  | cons e rest ih =>
      obtain ⟨⟨name, op, hkey, hname, hop⟩, hrest⟩ := List.forall_mem_cons.mp hes
      have hsplit : e.1.splitOn 43 = [name, op] := by rw [hkey, splitOn_key hname hop]
      have hparsed : parsedEntry e = (name, opValue op e.2.toNat) := by
        rw [parsedEntry, hsplit]
        rfl
      have hcons : (e :: rest).flatMap (fun e => [e.1, stdToString e.2.toNat]) =
          e.1 :: stdToString e.2.toNat :: rest.flatMap (fun e => [e.1, stdToString e.2.toNat]) := rfl
      rw [hcons, eventLoop, hsplit]
      show (pyInt other (stdToString e.2.toNat)).bind _ = _
      rw [pyInt_stdToString, Option.bind_some, ih hrest, List.map_cons, hparsed, add_eq_group]
      rfl

/-- The brackets around an entry are deleted, and nothing else. -/
theorem filter_entryText {e : Str × UInt64} (h : Readable e) :
    ((Counter.entryText e).filter (· ≠ 91)).filter (· ≠ 93) = e.1 ++ 44 :: stdToString e.2.toNat := by
  obtain ⟨name, op, hkey, hname, hop⟩ := h
  have hkeep : ∀ b ∈ e.1 ++ 44 :: stdToString e.2.toNat, b ≠ 91 ∧ b ≠ 93 := by
    intro b hb
    rw [hkey] at hb
    simp only [List.mem_append, List.mem_cons] at hb
    rcases hb with (hb | rfl | hb) | rfl | hb
    · exact ⟨(hname b hb).1.1, (hname b hb).1.2.1⟩
    · decide
    · exact ⟨(hop b hb).1.1, (hop b hb).1.2.1⟩
    · decide
    · constructor
      · rintro rfl
        exact notMem_stdToString (by decide) _ hb
      · rintro rfl
        exact notMem_stdToString (by decide) _ hb
  have hself : ∀ c : UInt8, (∀ b ∈ e.1 ++ 44 :: stdToString e.2.toNat, b ≠ c) →
      (e.1 ++ 44 :: stdToString e.2.toNat).filter (· ≠ c) = e.1 ++ 44 :: stdToString e.2.toNat := by
    intro c hc
    rw [List.filter_eq_self]
    intro b hb
    exact decide_eq_true (hc b hb)
  have hentry : Counter.entryText e = 91 :: ((e.1 ++ 44 :: stdToString e.2.toNat) ++ [93]) := by
    simp [Counter.entryText]
  rw [hentry, List.filter_cons_of_neg (by decide), List.filter_append, hself 91 (fun b hb => (hkeep b hb).1),
    List.filter_append, hself 93 (fun b hb => (hkeep b hb).2)]
  simp

/-- **The dumped text is read back** if every key is a plain name and a plain operation. -/
theorem eventMap_seqData {es : List (Str × UInt64)} (hne : es ≠ []) (hes : ∀ e ∈ es, Readable e) :
    eventMap other (Counter.seqData es) =
      some (Grouping.groupAll (fun _ => [0, 0, 0]) addValues ∅ (es.map parsedEntry)) := by
  have hstr : ((Counter.seqData es).filter (· ≠ 91)).filter (· ≠ 93) =
      ([44] : Str).intercalate (es.flatMap (fun e => [e.1, stdToString e.2.toNat])) := by
    rw [Counter.seqData, Text.filter_intercalate, Text.filter_intercalate, List.map_map, List.map_map,
      ← Text.intercalate_pairs]
    congr 1
    apply List.map_congr_left
    intro e he
    exact filter_entryText (hes e he)
  have hsplit : (([44] : Str).intercalate (es.flatMap (fun e => [e.1, stdToString e.2.toNat]))).splitOn 44 =
      es.flatMap (fun e => [e.1, stdToString e.2.toNat]) := by
    apply List.splitOn_intercalate
    · intro item hitem
      obtain ⟨e, he, hin⟩ := List.mem_flatMap.mp hitem
      obtain ⟨name, op, hkey, hname, hop⟩ := hes e he
      simp only [List.mem_cons, List.not_mem_nil, or_false] at hin
      rcases hin with rfl | rfl
      · rw [hkey]
        simp only [List.mem_append, List.mem_cons]
        rintro (hb | hb | hb)
        · exact (hname 44 hb).1.2.2 rfl
        · exact absurd hb (by decide)
        · exact (hop 44 hb).1.2.2 rfl
      · exact notMem_stdToString (by decide) _
    · cases es with
      | nil => exact absurd rfl hne
      | cons e rest => simp
  unfold eventMap
  simp only [hstr, hsplit]
  exact eventLoop_entries hes

end Parser

/-! ## The counters of a sequence of events -/

open Ext4Dio (SimpleDioEvent DioCollectors dRead dWrite dioRFlag dioWFlag fileName processStr opFlag)

section Events

variable (name : SimpleDioEvent → Str) (logs : List SimpleDioEvent)

/-- The number of reads of `k`. -/
def reads (k : Str) : Nat := (logs.filter (fun log => name log = k ∧ log.type = dRead)).length

/-- The number of writes of `k`. -/
def writes (k : Str) : Nat := (logs.filter (fun log => name log = k ∧ log.type = dWrite)).length

/-- **`data_map` shows the operations**: one entry for each name, with its reads and writes. -/
def ShowsOperations (m : DataMap) : Prop :=
  ∀ k, m.lookup k = if k ∈ logs.map name then some [(reads name logs k : Int), (writes name logs k : Int), 0] else none

/-- The key under which an event is counted. -/
def opKey (log : SimpleDioEvent) : Str := name log ++ if log.type = dRead then dioRFlag else dioWFlag

variable {name logs}

theorem flag_ne : dioRFlag ≠ dioWFlag := by decide

/-- The keys of the reads of `k`. -/
theorem opKey_eq_read {log : SimpleDioEvent} {k : Str} :
    opKey name log = k ++ dioRFlag ↔ name log = k ∧ log.type = dRead := by
  unfold opKey
  by_cases ht : log.type = dRead
  · rw [if_pos ht, List.append_left_inj]
    exact (and_iff_left ht).symm
  · rw [if_neg ht]
    refine iff_of_false ?_ (fun h => ht h.2)
    intro h
    exact flag_ne (List.append_inj_right' h rfl).symm

/-- The keys of the writes of `k`. -/
theorem opKey_eq_write {log : SimpleDioEvent} {k : Str} (htype : log.type = dRead ∨ log.type = dWrite) :
    opKey name log = k ++ dioWFlag ↔ name log = k ∧ log.type = dWrite := by
  unfold opKey
  by_cases ht : log.type = dRead
  · rw [if_pos ht]
    refine iff_of_false ?_ ?_
    · intro h
      exact flag_ne (List.append_inj_right' h rfl)
    · rintro ⟨-, hw⟩
      rw [ht] at hw
      exact absurd hw (by decide)
  · rw [if_neg ht, List.append_left_inj]
    exact (and_iff_left (htype.resolve_left ht)).symm

theorem count_read (k : Str) : (logs.map (opKey name)).count (k ++ dioRFlag) = reads name logs k := by
  rw [List.count_eq_countP, List.countP_map, List.countP_eq_length_filter, reads]
  congr 1
  apply List.filter_congr
  intro log _
  simp only [Function.comp_apply, beq_eq_decide, opKey_eq_read]

theorem count_write (htype : ∀ log ∈ logs, log.type = dRead ∨ log.type = dWrite) (k : Str) :
    (logs.map (opKey name)).count (k ++ dioWFlag) = writes name logs k := by
  rw [List.count_eq_countP, List.countP_map, List.countP_eq_length_filter, writes]
  congr 1
  apply List.filter_congr
  intro log hlog
  simp only [Function.comp_apply, beq_eq_decide, opKey_eq_write (htype log hlog)]

/-! ## From the events to the map -/

/-- An entry that counts the operations of a plain name. -/
def CountsOperation (e : Str × UInt64) : Prop :=
  ∃ k flag, e.1 = k ++ flag ∧ PlainName k ∧ (flag = dioRFlag ∨ flag = dioWFlag)

theorem CountsOperation.readable {e : Str × UInt64} (h : CountsOperation e) : Readable e := by
  obtain ⟨k, flag, hkey, hk, rfl | rfl⟩ := h
  · exact ⟨k, [100, 114], hkey, hk, by decide⟩
  · exact ⟨k, [100, 119], hkey, hk, by decide⟩

/-- A read is parsed as a read of its name. -/
theorem parsedEntry_read {k : Str} (hk : PlainName k) (n : UInt64) :
    parsedEntry (k ++ dioRFlag, n) = (k, [(n.toNat : Int), 0, 0]) := by
  have hsplit : (k ++ dioRFlag).splitOn 43 = [k, [100, 114]] := splitOn_key hk (by decide)
  rw [parsedEntry, hsplit]
  rfl

/-- A write is parsed as a write of its name. -/
theorem parsedEntry_write {k : Str} (hk : PlainName k) (n : UInt64) :
    parsedEntry (k ++ dioWFlag, n) = (k, [0, (n.toNat : Int), 0]) := by
  have hsplit : (k ++ dioWFlag).splitOn 43 = [k, [100, 119]] := splitOn_key hk (by decide)
  rw [parsedEntry, hsplit]
  rfl

/-- **The values of a name add up** to the counts printed under its two keys. -/
theorem foldl_parsedEntry {es : List (Str × UInt64)} (hes : ∀ e ∈ es, CountsOperation e) (k : Str) (a b : Nat) :
    (Grouping.itemsOf k (es.map parsedEntry)).foldl addValues [(a : Int), (b : Int), 0] =
      [((a + Counter.countOf es (k ++ dioRFlag) : Nat) : Int), ((b + Counter.countOf es (k ++ dioWFlag) : Nat) : Int),
        0] := by
  induction es generalizing a b with
  | nil => simp
  | cons e rest ih =>
      obtain ⟨⟨k', flag, hkey, hk', hflag⟩, hrest⟩ := List.forall_mem_cons.mp hes
      obtain ⟨key, n⟩ := e
      obtain rfl : key = k' ++ flag := hkey
      rw [List.map_cons, Grouping.itemsOf_cons, Counter.countOf_cons, Counter.countOf_cons]
      rcases hflag with rfl | rfl
      · have hw : k' ++ dioRFlag ≠ k ++ dioWFlag := fun h => flag_ne (List.append_inj_right' h rfl)
        rw [parsedEntry_read hk', if_neg hw, Nat.zero_add]
        by_cases hname : k' = k
        · subst hname
          rw [if_pos rfl, if_pos rfl, List.foldl_cons]
          have hadd : addValues [(a : Int), (b : Int), 0] [(n.toNat : Int), 0, 0] =
              [((a + n.toNat : Nat) : Int), (b : Int), 0] := by
            simp [addValues]
          rw [hadd, ih hrest, Nat.add_assoc]
        · have hr : k' ++ dioRFlag ≠ k ++ dioRFlag := fun h => hname (List.append_left_inj _ |>.mp h)
          rw [if_neg hname, if_neg hr, ih hrest, Nat.zero_add]
      · have hr : k' ++ dioWFlag ≠ k ++ dioRFlag := fun h => flag_ne (List.append_inj_right' h rfl).symm
        rw [parsedEntry_write hk', if_neg hr, Nat.zero_add]
        by_cases hname : k' = k
        · subst hname
          rw [if_pos rfl, if_pos rfl, List.foldl_cons]
          have hadd : addValues [(a : Int), (b : Int), 0] [0, (n.toNat : Int), 0] =
              [(a : Int), ((b + n.toNat : Nat) : Int), 0] := by
            simp [addValues]
          rw [hadd, ih hrest, Nat.add_assoc]
        · have hw : k' ++ dioWFlag ≠ k ++ dioWFlag := fun h => hname (List.append_left_inj _ |>.mp h)
          rw [if_neg hname, if_neg hw, ih hrest, Nat.zero_add]

variable (other : Str → Option Int) {order : List (Str × UInt64)}

/-- The keys of the events have no NUL if their names have none. -/
theorem notMem_opKey (hz : ∀ log ∈ logs, (0 : UInt8) ∉ name log) : ∀ key ∈ logs.map (opKey name), (0 : UInt8) ∉ key := by
  intro key hkey hmem
  obtain ⟨log, hlog, rfl⟩ := List.mem_map.mp hkey
  rcases List.mem_append.mp hmem with hmem | hmem
  · exact hz log hlog hmem
  · revert hmem
    split <;> decide

/-- **With plain names, the map shows the operations modulo `2 ^ 64`.** -/
theorem exists_eventMap (hz : ∀ log ∈ logs, (0 : UInt8) ∉ name log)
    (htype : ∀ log ∈ logs, log.type = dRead ∨ log.type = dWrite) (hplain : ∀ log ∈ logs, PlainName (name log))
    (hne : logs ≠ []) (horder : (Counter.new.commits (logs.map (opKey name))).Listing order) :
    ∃ m, eventMap other (Counter.seqData order) = some m ∧
      ∀ k, m.lookup k = if k ∈ logs.map name then
          some [((reads name logs k % 18446744073709551616 : Nat) : Int),
            ((writes name logs k % 18446744073709551616 : Nat) : Int), 0]
        else none := by
  have hkeys := notMem_opKey hz
  have hmem {q : Str} := Counter.mem_keys_commits (q := q) hkeys horder
  have hcounts : ∀ e ∈ order, CountsOperation e := by
    intro e he
    obtain ⟨log, hlog, hkey⟩ := List.mem_map.mp (hmem.mp (List.mem_map.mpr ⟨e, he, rfl⟩))
    refine ⟨name log, _, hkey.symm, hplain log hlog, ?_⟩
    split
    · exact Or.inl rfl
    · exact Or.inr rfl
  have hnil : order ≠ [] := by
    rintro rfl
    obtain ⟨log, hlog⟩ := List.exists_mem_of_ne_nil logs hne
    exact absurd (hmem.mpr (List.mem_map.mpr ⟨log, hlog, rfl⟩)) (by simp)
  refine ⟨_, eventMap_seqData hnil (fun e he => (hcounts e he).readable), ?_⟩
  intro k
  rw [Grouping.lookup_groupAll_empty]
  have hname : Grouping.itemsOf k (order.map parsedEntry) ≠ [] ↔ k ∈ logs.map name := by
    rw [Grouping.itemsOf_ne_nil, List.map_map]
    constructor
    · intro hk
      obtain ⟨e, he, rfl⟩ := List.mem_map.mp hk
      obtain ⟨log, hlog, hkey⟩ := List.mem_map.mp (hmem.mp (List.mem_map.mpr ⟨e, he, rfl⟩))
      obtain ⟨key, n⟩ := e
      obtain rfl : opKey name log = key := hkey
      refine List.mem_map.mpr ⟨log, hlog, ?_⟩
      show name log = (parsedEntry (opKey name log, n)).1
      unfold opKey
      split
      · rw [parsedEntry_read (hplain log hlog)]
      · rw [parsedEntry_write (hplain log hlog)]
    · intro hk
      obtain ⟨log, hlog, rfl⟩ := List.mem_map.mp hk
      obtain ⟨⟨key, n⟩, he, hkey⟩ := List.mem_map.mp (hmem.mpr (List.mem_map.mpr ⟨log, hlog, rfl⟩))
      obtain rfl : key = opKey name log := hkey
      refine List.mem_map.mpr ⟨_, he, ?_⟩
      show (parsedEntry (opKey name log, n)).1 = name log
      unfold opKey
      split
      · rw [parsedEntry_read (hplain log hlog)]
      · rw [parsedEntry_write (hplain log hlog)]
  by_cases hk : k ∈ logs.map name
  · have hfold := foldl_parsedEntry hcounts k 0 0
    rw [Nat.zero_add, Nat.zero_add, Counter.countOf_commits hkeys horder, Counter.countOf_commits hkeys horder,
      count_read, count_write htype] at hfold
    rw [if_neg (hname.mpr hk), if_pos hk]
    exact congrArg some hfold
  · rw [if_pos (not_not.mp (fun h => hk (hname.mp h))), if_neg hk]

variable (name logs) in
/-- What the events must be like for their counter to be shown: there is one, no name has one of the four
    marks, and no count wraps. -/
structure Countable : Prop where
  ne_nil : logs ≠ []
  plain : ∀ log ∈ logs, PlainName (name log)
  reads_lt : ∀ k, reads name logs k < 18446744073709551616
  writes_lt : ∀ k, writes name logs k < 18446744073709551616

/-- **A counter is shown as the operations of its events exactly if** they are countable. -/
theorem showsOperations_iff (hz : ∀ log ∈ logs, (0 : UInt8) ∉ name log)
    (htype : ∀ log ∈ logs, log.type = dRead ∨ log.type = dWrite) :
    (∀ order, (Counter.new.commits (logs.map (opKey name))).Listing order →
        ∃ m, eventMap other (Counter.seqData order) = some m ∧ ShowsOperations name logs m) ↔
      Countable name logs := by
  constructor
  · intro h
    obtain ⟨m, hm, hshows⟩ := h _ (Grouping.Listing.refl _)
    have hne : logs ≠ [] := by
      rintro rfl
      exact absurd hm (by rw [show Counter.seqData _ = [] from rfl, eventMap_nil]; simp)
    have hplain : ∀ log ∈ logs, PlainName (name log) := by
      intro log hlog
      -- the name has an entry, and every name in the map is plain
      apply plainName_of_eventMap hm
      rw [← AList.lookup_isSome, hshows, if_pos (List.mem_map.mpr ⟨log, hlog, rfl⟩)]
      rfl
    obtain ⟨m', hm', hmod⟩ := exists_eventMap other hz htype hplain hne (Grouping.Listing.refl _)
    obtain rfl : m = m' := Option.some.inj (hm.symm.trans hm')
    have hcount (k : Str) (hk : k ∈ logs.map name) :
        reads name logs k = reads name logs k % 18446744073709551616 ∧
          writes name logs k = writes name logs k % 18446744073709551616 := by
      have heq := (hshows k).symm.trans (hmod k)
      rw [if_pos hk, if_pos hk] at heq
      simp only [Option.some.injEq, List.cons.injEq, Nat.cast_inj, and_true] at heq
      exact heq
    have hnone {k : Str} {p : SimpleDioEvent → Prop} [DecidablePred p] (hk : k ∉ logs.map name) :
        (logs.filter (fun log => name log = k ∧ p log)).length = 0 := by
      rw [List.length_eq_zero_iff, List.filter_eq_nil_iff]
      intro log hlog
      simp only [decide_eq_true_eq]
      exact fun h => hk (List.mem_map.mpr ⟨log, hlog, h.1⟩)
    refine ⟨hne, hplain, ?_, ?_⟩
    · intro k
      by_cases hk : k ∈ logs.map name
      · have := (hcount k hk).1
        omega
      · rw [reads, hnone hk]
        omega
    · intro k
      by_cases hk : k ∈ logs.map name
      · have := (hcount k hk).2
        omega
      · rw [writes, hnone hk]
        omega
  · intro h order horder
    obtain ⟨m, hm, hmod⟩ := exists_eventMap other hz htype h.plain h.ne_nil horder
    refine ⟨m, hm, ?_⟩
    intro k
    rw [hmod, Nat.mod_eq_of_lt (h.reads_lt k), Nat.mod_eq_of_lt (h.writes_lt k)]

end Events

/-! ## From the tracer to the page -/

/-- The texts `seq_data` in the files that the tracer writes for its two counters when it ends. -/
def counterFiles (fileOrder processOrder : List (Str × UInt64)) : List (String × Str) :=
  [("/file_dio_op_counter.json", Counter.seqData fileOrder),
    ("/process_dio_op_counter.json", Counter.seqData processOrder)]

/-- `json.load(open(path + name))["seq_data"]`; `json` is what the dump of a string by the JSON library is
    read back as. -/
def loadSeqData (json : Str → Option Str) (files : List (String × Str)) (name : String) : Option Str :=
  (files.lookup name).bind json

/-- **The counters shown are the operations seen**, whatever the order in which the entries are dumped. -/
def CountersShown (json : Str → Option Str) (other : Str → Option Int) (c : DioCollectors)
    (logs : List SimpleDioEvent) : Prop :=
  ∀ fileOrder processOrder, c.fileOp.Listing fileOrder → c.commonOp.Listing processOrder →
    (∃ m, fileEventCount other (loadSeqData json (counterFiles fileOrder processOrder)) = some m ∧
        ShowsOperations fileName logs m) ∧
      ∃ m, processEventCount other (loadSeqData json (counterFiles fileOrder processOrder)) = some m ∧
        ShowsOperations processStr logs m

/-- The counters after a stream of events. -/
theorem counters_deliver {δ : Type} {m m' : Ext4Dio.Simple.SimpleModule δ} {logs : List SimpleDioEvent}
    (h : Ext4Dio.Simple.deliver m logs = .ok m') :
    m'.collectors.fileOp = m.collectors.fileOp.commits (logs.map (opKey fileName)) ∧
      m'.collectors.commonOp = m.collectors.commonOp.commits (logs.map (opKey processStr)) := by
  induction logs generalizing m with
  | nil =>
      rw [← Except.ok.inj h]
      exact ⟨rfl, rfl⟩
  | cons log rest ih =>
      obtain ⟨m₁, h₁, h₂⟩ := bind_eq_ok.mp h
      obtain ⟨flag, hflag, hm₁⟩ := bind_eq_ok.mp h₁
      have hflag' : flag = if log.type = dRead then dioRFlag else dioWFlag := by
        unfold opFlag at hflag
        split at hflag
        · next ht => rw [if_pos ht, Except.ok.inj hflag]
        · next ht =>
          split at hflag
          · rw [if_neg ht, Except.ok.inj hflag]
          · exact absurd hflag (by simp)
      obtain ⟨hfile, hprocess⟩ := ih h₂
      rw [hfile, hprocess, ← Except.ok.inj hm₁, Ext4Dio.Simple.collectors_doEvent, hflag']
      exact ⟨rfl, rfl⟩

/-- The dumped text is UTF-8 if the keys are. -/
theorem isUtf8_seqData {order : List (Str × UInt64)} (h : ∀ e ∈ order, Text.IsUtf8 e.1) :
    Text.IsUtf8 (Counter.seqData order) := by
  apply Text.IsUtf8.intercalate (Text.isUtf8_of_ascii (by decide))
  intro text htext
  obtain ⟨e, he, rfl⟩ := List.mem_map.mp htext
  have hcount : Text.IsUtf8 (44 :: stdToString e.2.toNat) := by
    apply Text.isUtf8_of_ascii
    rw [List.all_eq_true]
    intro b hb
    rw [decide_eq_true_eq]
    rcases List.mem_cons.mp hb with rfl | hb
    · decide
    · have hdigit := isDigit_of_mem_stdToString hb
      simp only [isDigit, decide_eq_true_eq, UInt8.le_iff_toNat_le] at hdigit
      have h57 : (57 : UInt8).toNat = 57 := rfl
      omega
  have hopen : Text.IsUtf8 [91] := Text.isUtf8_of_ascii (by decide)
  have hclose : Text.IsUtf8 [93] := Text.isUtf8_of_ascii (by decide)
  exact (hopen.append ((h e he).append hcount)).append hclose

/-- A C string has no NUL. -/
theorem notMem_cString (mem : List UInt8) : (0 : UInt8) ∉ cString mem := by
  intro h
  have hne := List.mem_takeWhile_imp h
  exact absurd hne (by decide)

/-- What a page reads of one counter's file. -/
theorem loadSeqData_bind {json : Str → Option Str} {other : Str → Option Int} {name : SimpleDioEvent → Str}
    {logs : List SimpleDioEvent} {order : List (Str × UInt64)}
    (hjson : ∀ text, Text.IsUtf8 text → json text = some text)
    (hz : ∀ log ∈ logs, (0 : UInt8) ∉ name log) (hutf8 : ∀ log ∈ logs, Text.IsUtf8 (name log))
    (horder : (Counter.new.commits (logs.map (opKey name))).Listing order) (file : String)
    (files : List (String × Str)) (hfile : files.lookup file = some (Counter.seqData order)) :
    (loadSeqData json files file).bind (eventMap other) = eventMap other (Counter.seqData order) := by
  have hkeys : ∀ e ∈ order, Text.IsUtf8 e.1 := by
    intro e he
    have hmem := (Counter.mem_keys_commits (notMem_opKey hz) horder).mp (List.mem_map.mpr ⟨e, he, rfl⟩)
    obtain ⟨log, hlog, hkey⟩ := List.mem_map.mp hmem
    rw [← hkey]
    refine (hutf8 log hlog).append (Text.isUtf8_of_ascii ?_)
    split <;> decide
  rw [loadSeqData, hfile, Option.bind_some, hjson _ (isUtf8_seqData hkeys), Option.bind_some]

/-- **The two counters are shown as the operations of the events exactly if** both are countable. -/
theorem countersShown_iff {δ : Type} (json : Str → Option Str) (other : Str → Option Int)
    (hjson : ∀ text, Text.IsUtf8 text → json text = some text) (pmcInv : UInt64)
    (filter : Option (Ext4Dio.Simple.QuantileFilter δ)) (logs : List SimpleDioEvent)
    (htype : ∀ log ∈ logs, log.type = dRead ∨ log.type = dWrite)
    (hutf8 : ∀ log ∈ logs, Text.IsUtf8 (fileName log) ∧ Text.IsUtf8 (processStr log)) :
    (∃ m, Ext4Dio.Simple.deliver (.new pmcInv filter) logs = .ok m ∧ CountersShown json other m.collectors logs) ↔
      Countable fileName logs ∧ Countable processStr logs := by
  have hzf : ∀ log ∈ logs, (0 : UInt8) ∉ fileName log := fun log _ => notMem_cString _
  have hzp : ∀ log ∈ logs, (0 : UInt8) ∉ processStr log := fun log _ => notMem_cString _
  have huf : ∀ log ∈ logs, Text.IsUtf8 (fileName log) := fun log hlog => (hutf8 log hlog).1
  have hup : ∀ log ∈ logs, Text.IsUtf8 (processStr log) := fun log hlog => (hutf8 log hlog).2
  rw [← showsOperations_iff other hzf htype, ← showsOperations_iff other hzp htype]
  obtain ⟨m, hm⟩ := Ext4Dio.Simple.deliver_ok_iff (m := .new pmcInv filter) |>.mpr htype
  obtain ⟨hfile, hprocess⟩ := counters_deliver hm
  have hfile' : m.collectors.fileOp = Counter.new.commits (logs.map (opKey fileName)) := hfile
  have hprocess' : m.collectors.commonOp = Counter.new.commits (logs.map (opKey processStr)) := hprocess
  constructor
  · rintro ⟨m₁, hm₁, hshown⟩
    obtain rfl : m = m₁ := Except.ok.inj (hm.symm.trans hm₁)
    rw [CountersShown, hfile', hprocess'] at hshown
    constructor
    · intro order horder
      have h := (hshown order _ horder (Grouping.Listing.refl _)).1
      rwa [fileEventCount, loadSeqData_bind hjson hzf huf horder _ _ rfl] at h
    · intro order horder
      have h := (hshown _ order (Grouping.Listing.refl _) horder).2
      rwa [processEventCount, loadSeqData_bind hjson hzp hup horder _ _ rfl] at h
  · rintro ⟨hf, hp⟩
    refine ⟨m, hm, ?_⟩
    rw [CountersShown, hfile', hprocess']
    intro fileOrder processOrder hfo hpo
    rw [fileEventCount, processEventCount, loadSeqData_bind hjson hzf huf hfo _ _ rfl,
      loadSeqData_bind hjson hzp hup hpo _ _ rfl]
    exact ⟨hf fileOrder hfo, hp processOrder hpo⟩

/-- A read of the file `name`, of at most three characters, by the process `p`. -/
def readOf (a b c : UInt8) : SimpleDioEvent :=
  { SimpleDioEvent.zero with
    common := ⟨112 :: List.replicate 15 0, rfl⟩
    filename := ⟨a :: b :: c :: List.replicate 13 0, rfl⟩
    type := dRead }

/-- One read of the file `a` is shown. -/
theorem countersShown_iff_one_read :
    ∃ m, Ext4Dio.Simple.deliver (.new 10 (none : Option (Ext4Dio.Simple.QuantileFilter Unit))) [readOf 97 0 0] = .ok m ∧
      CountersShown some (fun _ => none) m.collectors [readOf 97 0 0] := by
  have hutf8 : ∀ log ∈ [readOf 97 0 0], Text.IsUtf8 (fileName log) ∧ Text.IsUtf8 (processStr log) := by
    intro log hlog
    rw [List.mem_singleton.mp hlog]
    exact ⟨Text.isUtf8_of_ascii (by decide), Text.isUtf8_of_ascii (by decide)⟩
  have hcountable (name : SimpleDioEvent → Str) (hplain : PlainName (name (readOf 97 0 0))) :
      Countable name [readOf 97 0 0] := by
    have hlt (p : SimpleDioEvent → Bool) : ([readOf 97 0 0].filter p).length < 18446744073709551616 :=
      Nat.lt_of_le_of_lt (List.length_filter_le p _) (by simp)
    refine ⟨List.cons_ne_nil _ _, ?_, fun k => hlt _, fun k => hlt _⟩
    intro log hlog
    rw [List.mem_singleton.mp hlog]
    exact hplain
  exact (countersShown_iff some (fun _ => none) (fun _ _ => rfl) 10 none [readOf 97 0 0] (by decide) hutf8).mpr
    ⟨hcountable fileName (by decide), hcountable processStr (by decide)⟩

/-- **Not every sequence of events is shown**: one read of a file `g++` makes the page fail. -/
theorem not_countersShown_plus :
    ¬ ∀ (δ : Type) (json : Str → Option Str) (other : Str → Option Int),
      (∀ text, Text.IsUtf8 text → json text = some text) →
        ∀ (pmcInv : UInt64) (filter : Option (Ext4Dio.Simple.QuantileFilter δ)) (logs : List SimpleDioEvent),
          (∀ log ∈ logs, log.type = dRead ∨ log.type = dWrite) →
            (∀ log ∈ logs, Text.IsUtf8 (fileName log) ∧ Text.IsUtf8 (processStr log)) →
              ∃ m, Ext4Dio.Simple.deliver (.new pmcInv filter) logs = .ok m ∧
                CountersShown json other m.collectors logs := by
  intro h
  have hutf8 : ∀ log ∈ [readOf 103 43 43], Text.IsUtf8 (fileName log) ∧ Text.IsUtf8 (processStr log) := by
    intro log hlog
    rw [List.mem_singleton.mp hlog]
    exact ⟨Text.isUtf8_of_ascii (by decide), Text.isUtf8_of_ascii (by decide)⟩
  obtain ⟨m, hm, hshown⟩ := h Unit some (fun _ => none) (fun _ _ => rfl) 10 none [readOf 103 43 43] (by decide) hutf8
  obtain ⟨files, hfiles, hops⟩ := (hshown _ _ (Grouping.Listing.refl _) (Grouping.Listing.refl _)).1
  -- the name has no place in the map of any text
  have hentry : fileName (readOf 103 43 43) ∈ files := by
    have hmem : fileName (readOf 103 43 43) ∈ [readOf 103 43 43].map fileName := List.mem_singleton.mpr rfl
    rw [← AList.lookup_isSome, hops, if_pos hmem]
    rfl
  exact absurd (plainName_of_eventMap hfiles _ hentry) (by decide)

end StorTrace
