import StorTrace.BlockTrace.Report
import StorTrace.Collector.HeatmapBuckets
import StorTrace.Ext4Dio.Delivery
import StorTrace.Lib.Grouping

/-!
# `DiskHeatmaps` — whose requests are in the heat map of a disk?

Both modules spread the requests of one stream over a heat map for each disk. A block record names its
disk; a request record of the dio tracer names its hardware queue, and the module keeps for each queue the
disk it was **first** reported with (`do_meta` inserts only a queue it does not know).

`diskHeatmaps_substream` says that each heat map is the one its disk's own requests would have built alone,
under that reading of the disk of a queue.
-/

namespace StorTrace

open Ext4Dio (InfoRecord)
open Ext4Dio.Info (InfoModule)
open BlockTrace (BlkRecord BlkTraceModule EventData)

/-! ## Heat maps of a stream of requests -/

/-- A request as a heat map records it: its sector and its number of sectors. -/
abbrev HeatmapRequest := UInt64 × UInt16

namespace HeatmapCollector

/-- **The heat map of `disk` holds exactly `reqs`**: there is one if there is a request, its data are the
    requests in order, and it is the heat map these requests build alone. -/
structure HoldsExactly (c : HeatmapCollector) (disk : Str) (reqs : List HeatmapRequest) : Prop where
  absent : c.collector.lookup disk = none ↔ reqs = []
  recvData : ∀ h ∈ c.collector.lookup disk, h.recvData = reqs
  alone : ∀ h ∈ c.collector.lookup disk, h = (Heatmap.new c.par disk).commits reqs

/-- Record requests, each under its disk. -/
def commitAll (c : HeatmapCollector) (reqs : List (Str × HeatmapRequest)) : HeatmapCollector :=
  reqs.foldl (fun c r => c.commitTo r.1 r.2.1 r.2.2) c

variable {c : HeatmapCollector}

@[simp] theorem commitAll_nil : c.commitAll [] = c := rfl

theorem commitAll_append (reqs reqs' : List (Str × HeatmapRequest)) :
    c.commitAll (reqs ++ reqs') = (c.commitAll reqs).commitAll reqs' := List.foldl_append

/-- Recording is handing each request to the accumulator of its disk. -/
theorem commitAll_eq (reqs : List (Str × HeatmapRequest)) :
    c.commitAll reqs =
      ⟨c.par, Grouping.groupAll (Heatmap.new c.par) (fun h r => h.commit r.1 r.2) c.collector reqs⟩ := by
  induction reqs generalizing c with
  | nil => rfl
  | cons r rest ih =>
      have hcons : c.commitAll (r :: rest) = (c.commitTo r.1 r.2.1 r.2.2).commitAll rest := rfl
      rw [hcons, ih]
      rfl

/-- **No request leaks**: the heat map of a disk holds the requests that were recorded under that disk. -/
theorem holdsExactly_commitAll (par : Int) (reqs : List (Str × HeatmapRequest)) (disk : Str) :
    ((new par).commitAll reqs).HoldsExactly disk (Grouping.itemsOf disk reqs) := by
  have hlookup : ((new par).commitAll reqs).collector.lookup disk =
      if Grouping.itemsOf disk reqs = [] then none
      else some ((Heatmap.new par disk).commits (Grouping.itemsOf disk reqs)) := by
    rw [commitAll_eq]
    exact Grouping.lookup_groupAll_empty
  have hpar : ((new par).commitAll reqs).par = par := by
    rw [commitAll_eq]
    rfl
  constructor
  · rw [hlookup]
    split
    · next hnil => exact iff_of_true rfl hnil
    · next hne => exact iff_of_false (Option.some_ne_none _) hne
  · intro h hh
    rw [hlookup, Option.mem_def, Option.ite_none_left_eq_some] at hh
    rw [← Option.some.inj hh.2]
    exact (Heatmap.recorded par disk _).recvData
  · intro h hh
    rw [hlookup, Option.mem_def, Option.ite_none_left_eq_some] at hh
    rw [hpar, ← Option.some.inj hh.2]

end HeatmapCollector

/-! ## The info module -/

/-- The disks reported for a hardware queue, in order. -/
def reportedDisks (recs : List InfoRecord) (hctx : Ptr) : List Str :=
  recs.filterMap (fun r =>
    match r with
    | .hctx state => if state.hctxPtr = hctx then some (cString state.diskName.data) else none
    | _ => none)

/-- The disk a hardware queue was first reported with. -/
def firstDisk (recs : List InfoRecord) (hctx : Ptr) : Option Str := (reportedDisks recs hctx).head?

/-- The disk it was most recently reported with. -/
def latestDisk (recs : List InfoRecord) (hctx : Ptr) : Option Str := (reportedDisks recs hctx).getLast?

/-- The requests of `recs`, each with the disk that `diskOf` gives its hardware queue from the records
    delivered before it; `pre` was delivered earlier. -/
def diskRequests (diskOf : List InfoRecord → Ptr → Option Str) :
    List InfoRecord → List InfoRecord → List (Str × HeatmapRequest)
  | _, [] => []
  | pre, r :: rest =>
      let request := r.rqInfo?.bind (fun log =>
        (diskOf pre log.rqComp.hctxPtr).map (fun disk => (disk, log.rqComp.sector, log.rqComp.statsSectors)))
      request.toList ++ diskRequests diskOf (pre ++ [r]) rest

theorem reportedDisks_concat (pre : List InfoRecord) (r : InfoRecord) (hctx : Ptr) :
    reportedDisks (pre ++ [r]) hctx = reportedDisks pre hctx ++ reportedDisks [r] hctx :=
  List.filterMap_append

/-- The disk that was reported first stays the first. -/
theorem firstDisk_concat (pre : List InfoRecord) (r : InfoRecord) (hctx : Ptr) :
    firstDisk (pre ++ [r]) hctx = (firstDisk pre hctx).or (firstDisk [r] hctx) := by
  rw [firstDisk, reportedDisks_concat, List.head?_append, firstDisk, firstDisk]

/-- Inserting a queue that is not known. -/
theorem Hctx2disk.find_insert_of_none {m : Hctx2disk} {hctx : UInt64} (hm : m.find hctx = none)
    (drive : Str) (k : UInt64) : (m.insert hctx drive).find k = if hctx = k then some drive else m.find k := by
  have hnot : hctx ∉ m.hctxMap := AList.lookup_eq_none.mp hm
  unfold insert find
  rw [if_neg hnot]
  by_cases hk : hctx = k
  · subst hk
    rw [if_pos rfl, AList.lookup_insert]
  · rw [if_neg hk, AList.lookup_insert_ne (Ne.symm hk)]

namespace Ext4Dio.Info

variable {m m' : InfoModule} {pre recs : List InfoRecord} {r : InfoRecord}

/-- **One delivery** records at most its own request, under the disk first reported for its queue, and
    keeps `hctxMapping` the map of the first reports. -/
theorem heatmap_proxy (h : proxy m r = .ok m') (hmap : ∀ q, m.hctxMapping.find q = firstDisk pre q) :
    m'.heatmapTrace = m.heatmapTrace.commitAll (diskRequests firstDisk pre [r]) ∧
      ∀ q, m'.hctxMapping.find q = firstDisk (pre ++ [r]) q := by
  rw [proxy_eq] at h
  have hquiet (hr : ∀ q, reportedDisks [r] q = []) (q : Ptr) : firstDisk (pre ++ [r]) q = firstDisk pre q := by
    have hnone : firstDisk [r] q = none := by rw [firstDisk, hr, List.head?_nil]
    rw [firstDisk_concat, hnone, Option.or_none]
  cases r with
  | dioInfo log =>
      obtain ⟨flag, -, hm⟩ := bind_eq_ok.mp h
      rw [← Except.ok.inj hm]
      refine ⟨rfl, ?_⟩
      intro q
      rw [hquiet (fun _ => rfl)]
      exact hmap q
  | hctx state =>
      rw [← Except.ok.inj h]
      refine ⟨rfl, ?_⟩
      intro q
      have hreport : firstDisk [InfoRecord.hctx state] q =
          if state.hctxPtr = q then some (cString state.diskName.data) else none := by
        unfold firstDisk reportedDisks
        by_cases hq : state.hctxPtr = q
        · simp [hq]
        · simp [hq]
      rw [firstDisk_concat, hreport, ← hmap]
      unfold doMetaHctx
      cases hf : m.hctxMapping.find state.hctxPtr with
      | some disk =>
          -- the queue is known and keeps its disk
          by_cases hq : state.hctxPtr = q
          · rw [if_pos hq, ← hq, hf, Option.some_or]
          · rw [if_neg hq, Option.or_none]
      | none =>
          show (m.hctxMapping.insert state.hctxPtr (cString state.diskName.data)).find q = _
          rw [Hctx2disk.find_insert_of_none hf]
          by_cases hq : state.hctxPtr = q
          · rw [if_pos hq, if_pos hq, ← hq, hf, Option.none_or]
          · rw [if_neg hq, if_neg hq, Option.or_none]
  | rqInfo log =>
      obtain ⟨m₁, h₁, h₂⟩ := bind_eq_ok.mp h
      obtain ⟨d, -, hm₁⟩ := bind_eq_ok.mp h₁
      obtain rfl := Except.ok.inj hm₁
      obtain ⟨c, hc, hm'⟩ := bind_eq_ok.mp h₂
      rw [← Except.ok.inj hm']
      refine ⟨?_, ?_⟩
      · show c = _
        have hc' : heatmapCommit m.heatmapTrace log m.hctxMapping = .ok c := hc
        unfold heatmapCommit at hc'
        rw [hmap] at hc'
        cases hdisk : firstDisk pre log.rqComp.hctxPtr with
        | none =>
            rw [hdisk] at hc'
            exact absurd hc' (by simp)
        | some disk =>
            rw [hdisk] at hc'
            rw [← Except.ok.inj hc']
            simp only [diskRequests, InfoRecord.rqInfo?, Option.bind_some, hdisk, Option.map_some, Option.toList_some,
              List.append_nil]
            rfl
      · intro q
        rw [hquiet (fun _ => rfl)]
        exact hmap q

/-- **A whole stream** is recorded under the disks first reported. -/
theorem heatmap_deliver (h : deliver m recs = .ok m') (hmap : ∀ q, m.hctxMapping.find q = firstDisk pre q) :
    m'.heatmapTrace = m.heatmapTrace.commitAll (diskRequests firstDisk pre recs) := by
  -- by induction on the records still to come, with those delivered in `pre`
  induction recs generalizing m pre with
  | nil =>
      rw [← Except.ok.inj h]
      rfl
  | cons r rest ih =>
      obtain ⟨m₁, h₁, h₂⟩ := bind_eq_ok.mp h
      obtain ⟨hheat, hmap₁⟩ := heatmap_proxy h₁ hmap
      have hcons : diskRequests firstDisk pre (r :: rest) =
          diskRequests firstDisk pre [r] ++ diskRequests firstDisk (pre ++ [r]) rest := by
        simp only [diskRequests, List.append_nil]
      rw [ih h₂ hmap₁, hheat, hcons, HeatmapCollector.commitAll_append]

end Ext4Dio.Info

/-! ## The block module -/

/-- The plugged requests among block records, each with the disk its record names. -/
def pluggedRequests (recs : List (EventData × BlkRecord)) : List (Str × HeatmapRequest) :=
  ((BlockTrace.requests recs).filter (fun l => l.2.rqSub.plug ≠ 0)).map (fun l =>
    (cString (l.2.diskName.data ++ l.2.commonName.data), l.2.rqComp.sector, l.2.rqComp.statsSectors))

namespace BlockTrace

variable {ndebug : Bool} {m m' : BlkTraceModule} {recs : List (EventData × BlkRecord)}

/-- **One delivery** records its request, if it was plugged. -/
theorem heatmap_proxy {heap : EventData} {r : BlkRecord} (h : proxy ndebug m heap r = .ok m') :
    m'.heatmapTrace = m.heatmapTrace.commitAll (pluggedRequests [(heap, r)]) := by
  have hreq (log : RqTraceEvent) : requests [(heap, BlkRecord.rqTrace log)] = [(heap, log)] := rfl
  -- a plugged request is recorded whether its row is committed or dropped
  have hmeta (m : BlkTraceModule) {log : RqTraceEvent} (hp : log.rqSub.plug ≠ 0) :
      (doMeta m log).heatmapTrace = m.heatmapTrace.commitAll (pluggedRequests [(heap, .rqTrace log)]) := by
    have hone : pluggedRequests [(heap, BlkRecord.rqTrace log)] =
        [(cString (log.diskName.data ++ log.commonName.data), log.rqComp.sector, log.rqComp.statsSectors)] := by
      simp [pluggedRequests, hreq, hp]
    rw [doMeta, if_pos hp, hone]
    rfl
  obtain ⟨log, rfl, rfl⟩ | ⟨log, rfl, hp, rfl⟩ | ⟨log, call, rfl, hp, -, rfl⟩ | ⟨log, rfl, hp, -, rfl⟩ :=
    BlockTrace.proxy_cases h
  · rfl
  · have hnone : pluggedRequests [(heap, BlkRecord.rqTrace log)] = [] := by
      simp [pluggedRequests, hreq, hp]
    rw [hnone, HeatmapCollector.commitAll_nil]
  · exact hmeta _ hp
  · exact hmeta _ hp

/-- **A whole stream** is recorded under the disks its records name. -/
theorem heatmap_deliver (h : deliver ndebug m recs = .ok m') :
    m'.heatmapTrace = m.heatmapTrace.commitAll (pluggedRequests recs) := by
  induction recs generalizing m with
  | nil =>
      rw [← Except.ok.inj h]
      rfl
  | cons r rest ih =>
      obtain ⟨m₁, h₁, h₂⟩ := bind_eq_ok.mp h
      have hcons : pluggedRequests (r :: rest) = pluggedRequests [r] ++ pluggedRequests rest := by
        rw [pluggedRequests, requests_cons, List.filter_append, List.map_append]
        rfl
      rw [ih h₂, heatmap_proxy h₁, hcons, HeatmapCollector.commitAll_append]

end BlockTrace

/-! ## Every disk, in both modules -/

/-- After every stream the info module processes, the heat map of each disk holds exactly the requests
    whose hardware queue is on that disk according to `diskOf`. -/
def InfoHeatmaps (diskOf : List InfoRecord → Ptr → Option Str) (pmcInv : UInt64) (heatmapRow : Int) : Prop :=
  ∀ (recs : List InfoRecord) (m : InfoModule),
    Ext4Dio.Info.deliver (.new pmcInv heatmapRow) recs = .ok m →
      m.heatmapTrace.par = heatmapRow ∧
        ∀ disk, m.heatmapTrace.HoldsExactly disk (Grouping.itemsOf disk (diskRequests diskOf [] recs))

/-- After every stream the block module processes, the heat map of each disk holds exactly the plugged
    requests that name it. -/
def BlkHeatmaps (heatmapRow : Int) : Prop :=
  ∀ (ndebug : Bool) (recs : List (EventData × BlkRecord)) (m : BlkTraceModule),
    BlockTrace.deliver ndebug ⟨[], .new heatmapRow⟩ recs = .ok m →
      m.heatmapTrace.par = heatmapRow ∧
        ∀ disk, m.heatmapTrace.HoldsExactly disk (Grouping.itemsOf disk (pluggedRequests recs))

/-- **In both modules, the heat map of every disk holds exactly its own requests**; the disk of a hardware
    queue is the one it was first reported with. -/
theorem diskHeatmaps_substream (pmcInv : UInt64) (heatmapRow : Int) :
    InfoHeatmaps firstDisk pmcInv heatmapRow ∧ BlkHeatmaps heatmapRow := by
  have hpar (reqs : List (Str × HeatmapRequest)) : ((HeatmapCollector.new heatmapRow).commitAll reqs).par = heatmapRow := by
    rw [HeatmapCollector.commitAll_eq]
    rfl
  constructor
  · intro recs m h
    have hnew (q : Ptr) : (InfoModule.new pmcInv heatmapRow).hctxMapping.find q = firstDisk [] q :=
      Hctx2disk.find_new q
    have hheat : m.heatmapTrace = (HeatmapCollector.new heatmapRow).commitAll (diskRequests firstDisk [] recs) :=
      Ext4Dio.Info.heatmap_deliver h hnew
    rw [hheat]
    exact ⟨hpar _, HeatmapCollector.holdsExactly_commitAll heatmapRow _⟩
  · intro ndebug recs m h
    have hheat : m.heatmapTrace = (HeatmapCollector.new heatmapRow).commitAll (pluggedRequests recs) :=
      BlockTrace.heatmap_deliver h
    rw [hheat]
    exact ⟨hpar _, HeatmapCollector.holdsExactly_commitAll heatmapRow _⟩

/-- Queue `1` reported with a disk of the name `disk`. -/
def reportOf (disk : UInt8) : InfoRecord :=
  .hctx ⟨1, 0, 0, 0, 0, 0, ⟨disk :: List.replicate 31 0, rfl⟩⟩

/-- A request of eight sectors on queue `1`. -/
def requestAt (sector : UInt64) : InfoRecord :=
  .rqInfo ⟨1, 2, 0, 0, ⟨0, ⟨0, 0⟩, 0, 1, sector, 8, 1, Ext4Dio.nvmeDrive⟩⟩

/-- A block record of a plugged request on disk `a`. -/
def pluggedRequest : BlkRecord :=
  .rqTrace { BlockTrace.RqTraceEvent.zero with
    diskName := ⟨97 :: List.replicate 31 0, rfl⟩
    rqSub := ⟨1, ⟨0, 0⟩, 0, .noSchedu, .directDispatch, .read⟩
    rqComp := ⟨⟨0⟩, 0, 5, 8, 1, .nvme⟩ }

/-- A report and a request in info mode; one plugged request in block mode. -/
theorem diskHeatmaps_substream_one :
    (∃ m, Ext4Dio.Info.deliver (.new 10 1) [reportOf 97, requestAt 5] = .ok m ∧
        m.heatmapTrace.HoldsExactly [97] [(5, 8)]) ∧
      ∃ m, BlockTrace.deliver true ⟨[], .new 1⟩ [(Vector.replicate 12 0, pluggedRequest)] = .ok m ∧
        m.heatmapTrace.HoldsExactly [97] [(5, 8)] := by
  constructor
  · exact ⟨_, rfl, ((diskHeatmaps_substream 10 1).1 [reportOf 97, requestAt 5] _ rfl).2 [97]⟩
  · exact ⟨_, rfl, ((diskHeatmaps_substream 10 1).2 true [(Vector.replicate 12 0, pluggedRequest)] _ rfl).2 [97]⟩

/-- **The disk reported last is not the one that counts**: queue `1` is reported with disk `a`, then with
    disk `b`, and the request that follows is recorded under `a`. -/
theorem not_diskHeatmaps_latest :
    ¬ ∀ (pmcInv : UInt64) (heatmapRow : Int), InfoHeatmaps latestDisk pmcInv heatmapRow ∧ BlkHeatmaps heatmapRow := by
  intro h
  have hb := ((h 10 1).1 [reportOf 97, reportOf 98, requestAt 5] _ rfl).2 [98]
  have hreqs : Grouping.itemsOf [98] (diskRequests latestDisk [] [reportOf 97, reportOf 98, requestAt 5]) =
      [(5, 8)] := by decide
  rw [hreqs] at hb
  exact absurd (hb.absent.mp rfl) (by simp)

end StorTrace
