import StorTrace.Ext4Dio.Program

/-!
# `Ext4Dio.LatestIo` — does an emitted event describe the latest I/O on its kiocb?

`ext4_dio_*_iter` stores its entry with `BPF_NOEXIST`. A kiocb whose previous I/O never reached the
completion probe still has an entry, and then the new I/O is recorded under the fields of the old one.
An emitted event describes the latest accepted call on its kiocb exactly when that call found no entry.
-/

namespace StorTrace.Ext4Dio

/-- The fields `ext4_dio_*_iter` records. -/
def SimpleDioEvent.ioFields (v : SimpleDioEvent) :
    TimeStramp × TimeStramp × UInt64 × CharArray 16 × UInt32 :=
  (v.startDio, v.startExt4, v.inodeId, v.filename, v.type)

namespace DioProgram

variable {σ ε ο : Type} {cfg : DioConfig} {M : Machine σ ε ο} (P : DioProgram cfg M)

/-- The accepted iter call on kiocb `k` an event is. -/
def acceptedIter (k : Ptr) (e : ε) : Option IterCall :=
  (P.iter? e).filter (fun c => c.iocb = k ∧ c.Accepted cfg)

/-- The latest accepted iter call on kiocb `k`, with the events before it. -/
def latestIter (k : Ptr) (pre : List ε) : Option (List ε × IterCall) :=
  Run.lastWith (P.acceptedIter k) pre

/-- The latest accepted iter call on `k` recorded the fields of `v`. -/
def RecordedByLatest (pre : List ε) (k : Ptr) (v : SimpleDioEvent) : Prop :=
  ∃ w ∈ P.latestIter k pre, v.ioFields = (w.2.entry (P.state (M.exec w.1))).ioFields

instance (pre : List ε) (k : Ptr) (v : SimpleDioEvent) : Decidable (P.RecordedByLatest pre k v) :=
  inferInstanceAs (Decidable (∃ w ∈ P.latestIter k pre, _ = _))

/-- The latest accepted iter call on `k` had found no entry. -/
def LatestFoundNoEntry (pre : List ε) (k : Ptr) : Prop :=
  ∃ w ∈ P.latestIter k pre, (P.state (M.exec w.1)).eventCache.lookupElem k = none

instance (pre : List ε) (k : Ptr) : Decidable (P.LatestFoundNoEntry pre k) :=
  inferInstanceAs (Decidable (∃ w ∈ P.latestIter k pre, _ = none))

/-- **The latest I/O.** Whatever an event emits for a kiocb has the fields the latest accepted iter call on
    it recorded. -/
def DescribesLatest (pre : List ε) (e : ε) : Prop :=
  ∀ c ∈ P.completion? e, ∀ r ∈ M.out pre e, ∀ v ∈ P.record r, P.RecordedByLatest pre c.iocb v

/-- The latest accepted iter call on a kiocb that an event emits for had found no entry. -/
def LatestFoundNone (pre : List ε) (e : ε) : Prop :=
  ∀ c ∈ P.completion? e, ∀ r ∈ M.out pre e, ∀ v ∈ P.record r, P.LatestFoundNoEntry pre c.iocb

instance (pre : List ε) (e : ε) : Decidable (P.DescribesLatest pre e) :=
  inferInstanceAs (Decidable (∀ c ∈ P.completion? e, ∀ r ∈ M.out pre e, ∀ v ∈ P.record r,
    P.RecordedByLatest pre c.iocb v))

instance (pre : List ε) (e : ε) : Decidable (P.LatestFoundNone pre e) :=
  inferInstanceAs (Decidable (∀ c ∈ P.completion? e, ∀ r ∈ M.out pre e, ∀ v ∈ P.record r,
    P.LatestFoundNoEntry pre c.iocb))

variable {P}

theorem acceptedIter_eq_some {k : Ptr} {e : ε} {c : IterCall} :
    P.acceptedIter k e = some c ↔ P.iter? e = some c ∧ c.iocb = k ∧ c.Accepted cfg := by
  simp [acceptedIter, Option.filter_eq_some_iff]

/-- A block actor does not touch the recorded fields. -/
theorem ioFields_update {s : σ} {e : ε} {k : Ptr} {f : SimpleDioEvent → SimpleDioEvent}
    (h : P.eventView.act s e k = .update f) (v : SimpleDioEvent) : (f v).ioFields = v.ioFields := by
  obtain ⟨t, dio, now, -, -, rfl⟩ := eventView_update h
  rfl

/-- **Provenance of an entry's fields**: an accepted iter call that found no entry recorded them, and the
    entry has been there ever since. -/
theorem exists_iter_of_entry {pre : List ε} {k : Ptr} {v : SimpleDioEvent}
    (h : (P.state (M.exec pre)).eventCache.lookupElem k = some v) :
    ∃ ini t mid c, pre = ini ++ t :: mid ∧ P.acceptedIter k t = some c ∧
      (P.state (M.exec ini)).eventCache.lookupElem k = none ∧
      v.ioFields = (c.entry (P.state (M.exec ini))).ioFields ∧
      ∀ a b, mid = a ++ b → (P.state (M.exec (ini ++ t :: a))).eventCache.lookupElem k ≠ none := by
  have hborn := CacheView.exists_born (V := P.eventView) (k := k)
    (Q := fun ini t _ v => ∀ c, P.iter? t = some c →
      v.ioFields = (c.entry (P.state (M.exec ini))).ioFields) ?_ ?_ ?_ h
  · obtain ⟨ini, t, mid, u, hs, hb, hq⟩ := hborn
    obtain ⟨c, hc, hacc, hk, hn, -, -⟩ := eventView_put.mp hb.put
    refine ⟨ini, t, mid, c, hs, acceptedIter_eq_some.mpr ⟨hc, hk, hacc⟩, hn, hq c hc, ?_⟩
    intro a b hab
    exact hb.present hab
  · -- the call that stores an entry fills its fields
    intro ini t v hput c hc
    obtain ⟨c', hc', -, -, -, -, rfl⟩ := eventView_put.mp hput
    obtain rfl : c' = c := Option.some.inj (hc'.symm.trans hc)
    rfl
  · intro ini t mid x v _ hq
    exact hq
  · intro ini t mid x f v ha hq c hc
    exact (ioFields_update ha v).trans (hq c hc)

/-- An emitted record comes from the entry of the kiocb its event completes. -/
theorem entry_of_record {pre : List ε} {e : ε} {c : Completion} {r : ο} {v : SimpleDioEvent}
    (hc : P.completion? e = some c) (hr : r ∈ M.out pre e) (hv : P.record r = some v) :
    ∃ u, (P.state (M.exec pre)).eventCache.lookupElem c.iocb = some u ∧ v.ioFields = u.ioFields := by
  obtain ⟨p, hp, hmem⟩ := record_out.mp ⟨r, hr, hv⟩
  obtain ⟨t, dio, iocb, size, now, u, rfl, -, hu, rfl⟩ := mem_dioStep_iff.mp hmem
  rw [completion?, hp] at hc
  obtain rfl := Option.some.inj hc
  exact ⟨u, hu, rfl⟩

/-- One step: a latest call that found no entry is the one that stored it. -/
theorem describesLatest_of_foundNone {pre : List ε} {e : ε} (h : P.LatestFoundNone pre e) :
    P.DescribesLatest pre e := by
  intro x hx r hr v hv
  obtain ⟨w, hw, hnone⟩ := h x hx r hr v hv
  refine ⟨w, hw, ?_⟩
  obtain ⟨u, hu, hfields⟩ := entry_of_record hx hr hv
  obtain ⟨ini, t, mid, c, rfl, ht, -, hrec, hpres⟩ := exists_iter_of_entry hu
  obtain ⟨ini', c', hlast, hwhere⟩ := Run.lastWith_of_split ini mid ht
  obtain rfl : w = (ini', c') := Option.some.inj (hw.symm.trans hlast)
  rcases hwhere with ⟨rfl, rfl⟩ | ⟨a, t', b, rfl, rfl, -⟩
  · exact hfields.trans hrec
  · -- a later call would have found the entry
    exact absurd hnone (hpres a (t' :: b) rfl)

/-- One step, backwards: with distinct readings, the recorded reading identifies the call. -/
theorem foundNone_of_describesLatest {pre : List ε} {e : ε}
    (hd : ∀ k, ((pre.filterMap (P.acceptedIter k)).map IterCall.now).Nodup)
    (h : P.DescribesLatest pre e) : P.LatestFoundNone pre e := by
  intro x hx r hr v hv
  obtain ⟨w, hw, hsame⟩ := h x hx r hr v hv
  refine ⟨w, hw, ?_⟩
  obtain ⟨u, hu, hfields⟩ := entry_of_record hx hr hv
  obtain ⟨ini, t, mid, c, rfl, ht, hnone, hrec, -⟩ := exists_iter_of_entry hu
  obtain ⟨ini', c', hlast, hwhere⟩ := Run.lastWith_of_split ini mid ht
  obtain rfl : w = (ini', c') := Option.some.inj (hw.symm.trans hlast)
  rcases hwhere with ⟨rfl, rfl⟩ | ⟨a, t', b, rfl, rfl, ht'⟩
  · exact hnone
  · -- two calls with one reading
    have hnow : c.now = c'.now := by
      have hext4 := congrArg (fun f => f.2.1) ((hfields.trans hrec).symm.trans hsame)
      exact hext4
    have hnodup := hd x.iocb
    simp only [List.filterMap_append, List.filterMap_cons_some ht, List.filterMap_cons_some ht',
      List.map_append, List.map_cons] at hnodup
    have hfirst := (List.nodup_cons.mp (List.nodup_append.mp hnodup).2.1).1
    refine absurd ?_ hfirst
    rw [hnow]
    simp

/-- **In a run every emitted event describes the latest I/O** if the latest call found no entry each
    time; when no two calls on a kiocb read the same clock value, only then. -/
theorem describesLatest_iff (evs : List ε) :
    (Run.AllSteps P.LatestFoundNone evs → Run.AllSteps P.DescribesLatest evs) ∧
      ((∀ k, ((evs.filterMap (P.acceptedIter k)).map IterCall.now).Nodup) →
        Run.AllSteps P.DescribesLatest evs → Run.AllSteps P.LatestFoundNone evs) := by
  constructor
  · intro h
    exact h.imp (fun _ _ _ _ => describesLatest_of_foundNone)
  · intro hd h
    refine h.imp ?_
    intro pre e post hs
    -- the readings of a prefix are distinct too
    have hpre : ∀ k, ((pre.filterMap (P.acceptedIter k)).map IterCall.now).Nodup := by
      intro k
      refine (hd k).sublist (List.Sublist.map _ ?_)
      rw [hs, List.filterMap_append]
      exact List.sublist_append_left _ _
    exact foundNone_of_describesLatest hpre

end DioProgram

/-- **Both programs emit, for every kiocb, the fields of the latest accepted call on it, in the runs where
    that call found no entry, and, with distinct readings, in no others.** -/
theorem describesLatest_iff_foundNone (cfg : DioConfig) :
    (∀ evs : List DioProbe,
      (Run.AllSteps (simpleProgram cfg).LatestFoundNone evs →
        Run.AllSteps (simpleProgram cfg).DescribesLatest evs) ∧
      ((∀ k, ((evs.filterMap ((simpleProgram cfg).acceptedIter k)).map IterCall.now).Nodup) →
        Run.AllSteps (simpleProgram cfg).DescribesLatest evs →
        Run.AllSteps (simpleProgram cfg).LatestFoundNone evs)) ∧
    ∀ evs : List InfoProbe,
      (Run.AllSteps (infoProgram cfg).LatestFoundNone evs →
        Run.AllSteps (infoProgram cfg).DescribesLatest evs) ∧
      ((∀ k, ((evs.filterMap ((infoProgram cfg).acceptedIter k)).map IterCall.now).Nodup) →
        Run.AllSteps (infoProgram cfg).DescribesLatest evs →
        Run.AllSteps (infoProgram cfg).LatestFoundNone evs) :=
  ⟨DioProgram.describesLatest_iff, DioProgram.describesLatest_iff⟩

/-! ## A kiocb that is used twice -/

/-- A write on kiocb `1` that is started and, unless it falls back to buffered I/O, completed; then a read
    of another file on the same kiocb. -/
def reusedKiocb (fallsBack : Bool) : List InfoProbe :=
  let t : Task := ⟨7, 7, 1, none⟩
  [.newSyncWrite t 100 10, .ext4DioWriteIter t 1 100 (CharArray.zero 16) 20] ++
    (if fallsBack then [] else [.kfree t 5 1 4096 30 (some 0)]) ++
    [.newSyncRead t 200 40, .ext4DioReadIter t 1 200 (CharArray.zero 16) 50,
      .kfree t 5 1 512 60 (some 0)]

/-- After a completed write, the read is reported as such. -/
theorem describesLatest_completed :
    Run.AllSteps (simpleProgram .off).DescribesLatest ((reusedKiocb false).filterMap InfoProbe.dio) ∧
      Run.AllSteps (infoProgram .off).DescribesLatest (reusedKiocb false) :=
  ⟨((describesLatest_iff_foundNone .off).1 _).1 (by decide),
    ((describesLatest_iff_foundNone .off).2 _).1 (by decide)⟩

/-- After a write that fell back to buffered I/O, the read is reported as that write, in both programs. -/
theorem not_describesLatest_fallback :
    ¬ Run.AllSteps (simpleProgram .off).DescribesLatest ((reusedKiocb true).filterMap InfoProbe.dio) ∧
      ¬ Run.AllSteps (infoProgram .off).DescribesLatest (reusedKiocb true) := by
  decide

end StorTrace.Ext4Dio
