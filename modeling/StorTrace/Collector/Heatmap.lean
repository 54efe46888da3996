import StorTrace.Lib.Layout
import Mathlib.Data.List.AList

/-!
# `Collector.Heatmap` — sector heat maps, one for each disk (`heatmap.hpp`)

`HeatmapCollector` keeps a `Heatmap` for each disk name and hands every request to the one of its disk.
A block-trace record carries its disk name; a request record of the dio tracer carries its hardware
queue, whose disk `Hctx2disk` knows from earlier records.
-/

namespace StorTrace

/-- A C++ `std::string`. -/
abbrev Str := List UInt8

/-- `class Heatmap`, as far as recording goes. -/
structure Heatmap where
  driveName : Str
  max : UInt64
  min : UInt64
  recvData : List (UInt64 × UInt16)
  partition : Int
deriving DecidableEq

namespace Heatmap

/-- The constructor: `max` starts at `0`, `min` at `INT64_MAX`. -/
def new (par : Int) (name : Str) : Heatmap := ⟨name, 0, 0x7fffffffffffffff, [], par * 8⟩

def commit (h : Heatmap) (sector : UInt64) (stats : UInt16) : Heatmap :=
  { h with
    max := if sector > h.max then sector else h.max
    min := if sector < h.min then sector else h.min
    recvData := h.recvData ++ [(sector, stats)] }

end Heatmap

/-- `class Hctx2disk`: hardware queue to disk name. -/
structure Hctx2disk where
  hctxMap : AList (fun _ : UInt64 => Str)

namespace Hctx2disk

def new : Hctx2disk := ⟨∅⟩

def find (m : Hctx2disk) (hctx : UInt64) : Option Str := m.hctxMap.lookup hctx

/-- `hctx_map.insert({hctx, drive})`: a key that is present keeps its value. -/
def insert (m : Hctx2disk) (hctx : UInt64) (drive : Str) : Hctx2disk :=
  if hctx ∈ m.hctxMap then m else ⟨m.hctxMap.insert hctx drive⟩

@[simp] theorem find_new (hctx : UInt64) : new.find hctx = none := AList.lookup_empty hctx

/-- Inserting makes the key known and forgets none. -/
theorem find_insert_ne_none (m : Hctx2disk) (hctx k : UInt64) (drive : Str) :
    (m.insert hctx drive).find k ≠ none ↔ k = hctx ∨ m.find k ≠ none := by
  unfold insert find
  by_cases hm : hctx ∈ m.hctxMap
  · -- nothing is inserted, and the key is known already
    rw [if_pos hm]
    constructor
    · exact Or.inr
    · rintro (rfl | h)
      · intro hn
        exact AList.lookup_eq_none.mp hn hm
      · exact h
  · rw [if_neg hm]
    by_cases hk : k = hctx
    · subst hk; simp
    · simp [hk, AList.lookup_insert_ne hk]

end Hctx2disk

/-- `class HeatmapCollector`. -/
structure HeatmapCollector where
  par : Int
  collector : AList (fun _ : Str => Heatmap)

namespace HeatmapCollector

def new (acc : Int) : HeatmapCollector := ⟨acc, ∅⟩

/-- The common part of the two `commit` overloads: register the disk on first contact, then record. -/
def commitTo (c : HeatmapCollector) (diskName : Str) (sector : UInt64) (stats : UInt16) :
    HeatmapCollector :=
  let heatmap := (c.collector.lookup diskName).getD (Heatmap.new c.par diskName)
  { c with collector := c.collector.insert diskName (heatmap.commit sector stats) }

end HeatmapCollector

end StorTrace
