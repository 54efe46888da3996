import StorTrace.Collector.TimeAq
import StorTrace.Ext4Dio.Event
import StorTrace.Logger.Meta

/-!
# `Collector.HctxState` — the state of each hardware queue over time (`hctx_state.hpp`)

One `HctxState` for each hardware queue keeps the last (`runed`, `queued`) pair of each window. Members
that the constructor leaves unset are `none` until a `commit` sets them; so is whatever is printed from
them.
-/

namespace StorTrace

open Ext4Dio

/-- `class HctxState`. -/
structure HctxState where
  pmcData : List (UInt64 × UInt64)
  diskName : Option (CharArray 32)
  numaNode : Option Int16
  queueNum : Option Int16
  hctxPtr : UInt64
  startTime : UInt64
  pmcSize : Int
  interval : UInt64
  started : Bool
deriving DecidableEq

/-- The JSON record of `HctxState::dump_json`; the columns `runed` and `queued` as numbers. -/
structure HctxJson where
  name : Option Str
  hctxPtr : UInt64
  numaNode : Option Int16
  runed : List UInt64
  queued : List UInt64
deriving DecidableEq

/-- `%d-%s` of a queue number and a disk name. -/
def hctxName (queueNum : Int16) (diskName : CharArray 32) : Str :=
  Meta.intToString queueNum.toInt ++ [Meta.dash] ++ cString diskName.data

namespace HctxState

/-- A collector whose member `interval` is given. -/
def ofInterval (interval hctx : UInt64) : HctxState :=
  ⟨List.replicate 30 (0, 0), none, none, none, hctx, 0, 30, interval, false⟩

/-- The constructor. -/
def new (interval hctx : UInt64) : HctxState := ofInterval (intParam interval) hctx

/-- The first record sets the origin of the windows. -/
def align (c : HctxState) (data : HctxMetadata) : HctxState :=
  if c.started then c
  else { c with
    startTime := data.tp, started := true, numaNode := some data.numaNode
    diskName := some data.diskName }

def index (c : HctxState) (tp : UInt64) : Int := toInt ((tp - c.startTime) / c.interval)

def commit (c : HctxState) (data : HctxMetadata) : HctxState :=
  let c := c.align data
  let index := c.index data.tp
  -- an index equal to the size does not enlarge the array
  let grown := pmcGrow 1 c.pmcData c.pmcSize (0, 0) index
  { c with pmcSize := grown.2, pmcData := pmcWrite grown.1 index (fun _ => (data.runed, data.queued)) }

/-- `commit`, if it is defined. -/
def commit? (c : HctxState) (data : HctxMetadata) : Option HctxState :=
  let a := c.align data
  if PmcDefined 1 a.pmcData a.pmcSize (0, 0) a.interval (a.index data.tp) then some (c.commit data)
  else none

/-- `commit` of each record, in order. -/
def commits? (c : HctxState) (recs : List HctxMetadata) : Option HctxState :=
  recs.foldlM HctxState.commit? c

/-- `dump_json`: the record and, in its `name`, the file it is written to. -/
def dumpJson (c : HctxState) : HctxJson where
  name := c.queueNum.bind (fun queueNum => c.diskName.map (hctxName queueNum))
  hctxPtr := c.hctxPtr
  numaNode := c.numaNode
  runed := c.pmcData.map Prod.fst
  queued := c.pmcData.map Prod.snd

end HctxState

/-- `class HctxStateCollector`. -/
structure HctxStateCollector where
  collector : AList (fun _ : UInt64 => HctxState)
  interval : UInt64
deriving DecidableEq

namespace HctxStateCollector

def new (acc : UInt64) : HctxStateCollector := ⟨∅, acc⟩

/-- The first record of a queue creates its state; the others are committed to it. -/
def commit (c : HctxStateCollector) (data : HctxMetadata) : HctxStateCollector :=
  match c.collector.lookup data.hctxPtr with
  | none => { c with collector := c.collector.insert data.hctxPtr (.new c.interval data.hctxPtr) }
  | some state => { c with collector := c.collector.insert data.hctxPtr (state.commit data) }

/-- `commit`, if it is defined. -/
def commit? (c : HctxStateCollector) (data : HctxMetadata) : Option HctxStateCollector :=
  match c.collector.lookup data.hctxPtr with
  | none => some (c.commit data)
  | some state => (state.commit? data).map (fun _ => c.commit data)

/-- `commit` of each record, in order. -/
def commits? (c : HctxStateCollector) (recs : List HctxMetadata) : Option HctxStateCollector :=
  recs.foldlM HctxStateCollector.commit? c

/-- `dump_json`: a record for each queue. -/
def dumpJson (c : HctxStateCollector) : List HctxJson := c.collector.entries.map (fun s => s.2.dumpJson)

end HctxStateCollector

end StorTrace
