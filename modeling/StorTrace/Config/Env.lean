import StorTrace.Ext4Dio.Module

/-!
# `Config.Env` — from the configuration file to the environment (`Env.hpp`)

`read_config` turns the parsed JSON document into an `Env`, which every module is constructed from. A field
of the wrong type makes the JSON library throw, so a configuration is a record of typed fields here. A
`LOG(FATAL)` ends the program and is an error.
-/

namespace StorTrace

open Ext4Dio.Simple (FilterStage)

/-- `event_statement::event_type`. -/
inductive EventType where
  | dio
  | fsync
  | blk
deriving DecidableEq

/-- `event_statement::trace_level`. -/
inductive TraceLevel where
  | simple
  | info
deriving DecidableEq

/-- The section `"filter"`. -/
structure FilterSection where
  enable : Bool
  filterAccuracy : Int32
  stage : String
deriving DecidableEq

/-- The configuration file. Numbers are what the JSON library holds before the program narrows them. -/
structure Config where
  name : Str
  eventType : String
  traceLevel : String
  filter : FilterSection
  loggerIoUringDepth : Int32
  pid : Int64
  common : Str
  files : List Str
  showBpfInternal : Bool
  pmcInv : UInt64
  heatmapRow : UInt64
deriving DecidableEq

/-- `struct filter_config`. -/
structure FilterConf where
  filterAccuracy : Int32
  stage : FilterStage
deriving DecidableEq

/-- `struct event_statement`. -/
structure EventStatement where
  name : Str
  depthOfIouring : Int32
  eType : EventType
  tLevel : TraceLevel
deriving DecidableEq

/-- `struct Env`. -/
structure Env where
  traceState : EventStatement
  commonLength : Nat
  targetPid : Int32
  targetCommon : CharArray 16
  filePath : List Str
  inode : List UInt64
  selectPid : Bool
  selectCommon : Bool
  selectFile : Bool
  useFilter : Bool
  pmcInv : UInt32
  heatmapRow : UInt32
  filterConf : FilterConf
  showBpfInternal : Bool
  idToFile : List (UInt64 × Str)
deriving DecidableEq

/-- The global variable `env` before `read_config`: its initialisers, and zero elsewhere. -/
def Env.init : Env where
  traceState := ⟨[], 0, .dio, .simple⟩
  commonLength := 0
  targetPid := 0
  targetCommon := CharArray.zero 16
  filePath := []
  inode := []
  selectPid := false
  selectCommon := false
  selectFile := true
  useFilter := true
  pmcInv := 0
  heatmapRow := 0
  filterConf := ⟨0, .sum⟩
  showBpfInternal := true
  idToFile := []

/-! ## The files -/

/-- `get_inode`: the inode number passes through an `int`. `stIno` is what `open` and `fstat` find at a
    path, if they succeed. -/
def getInode (stIno : Str → Option UInt64) (path : Str) : Except String UInt64 :=
  match stIno path with
  | some ino => .ok ino.toUInt32.toInt32.toInt64.toUInt64
  | none => .error "Error when getting file inode"

/-- `path_to_inode`. -/
def pathToInode (stIno : Str → Option UInt64) (filePath : List Str) : Except String (List UInt64) :=
  if filePath.length = 0 then .error "length != 0" else filePath.mapM (getInode stIno)

/-- `env.id_to_file.try_emplace(inode[i], file_path[i])`: the first file of an inode stays. -/
def tryEmplace (m : List (UInt64 × Str)) (kv : UInt64 × Str) : List (UInt64 × Str) :=
  if kv.1 ∈ m.map Prod.fst then m else m ++ [kv]

/-! ## `read_config`, section by section -/

section ReadConfig

variable (config : Config) (env : Env)

/-- `"event_type"`. -/
def readEventType : Except String EventType :=
  if config.eventType = "dio" then .ok .dio
  else if config.eventType = "blk" then .ok .blk
  else if config.eventType = "buffered_io" then .ok .fsync
  else .error "Unknown event_type select,please check config"

/-- `"trace_level"`. -/
def readTraceLevel : Except String TraceLevel :=
  if config.traceLevel = "simple" then .ok .simple
  else if config.traceLevel = "info" then .ok .info
  else .error "Unknown trace_level,please check config"

/-- `"filter"`. -/
def readFilter : Except String Env :=
  if config.filter.enable = true then
    let conf (stage : FilterStage) : Env :=
      { env with useFilter := true, filterConf := ⟨config.filter.filterAccuracy, stage⟩ }
    if config.filter.stage = "sum" then .ok (conf .sum)
    else if config.filter.stage = "kernel_crossing" then .ok (conf .kernelCrossing)
    else if config.filter.stage = "file_system" then .ok (conf .fileSystem)
    else if config.filter.stage = "block_io" then .ok (conf .blockIo)
    else .error "Unknown filter stage,please check config"
  else .ok { env with useFilter := false }

/-- `"select_target"."pid"`. -/
def readPid : Env :=
  let env := { env with targetPid := config.pid.toInt32 }
  if env.targetPid = -1 then { env with selectPid := false }
  -- the flag that is set here is the one of the command name
  else { env with selectCommon := true }

/-- `memset(&env.target_common, 0, 16)` and the `memcpy` of a name that fits. -/
def padCommon (common : Str) : CharArray 16 where
  data := (common ++ List.replicate 16 0).take 16
  size_eq := by simp

/-- `"select_target"."common"`. -/
def readCommon : Except String Env :=
  let env := { env with commonLength := 16 }
  if config.common = [] then .ok { env with selectCommon := false }
  else if config.common.length > 16 then
    .error "Common_name filter only accept length 16, using prefix"
  else .ok { env with selectCommon := true, targetCommon := padCommon config.common }

/-- `"select_target"."files"`. -/
def readFiles (stIno : Str → Option UInt64) : Except String Env :=
  let env := { env with filePath := config.files }
  if config.files.length = 0 ∨ config.eventType = "blk" then .ok { env with selectFile := false }
  else
    pathToInode stIno config.files >>= fun inode =>
      .ok { env with
        selectFile := true
        inode := inode
        idToFile := (inode.zip config.files).foldl tryEmplace env.idToFile }

/-- The remaining numbers. -/
def readParams : Env :=
  { env with
    showBpfInternal := config.showBpfInternal
    pmcInv := (1000000 * config.pmcInv).toUInt32
    heatmapRow := config.heatmapRow.toUInt32 }

/-- `read_config`. -/
def readConfig (stIno : Str → Option UInt64) : Except String Env := do
  let eType ← readEventType config
  let tLevel ← readTraceLevel config
  let env := { env with traceState := { env.traceState with name := config.name, eType := eType, tLevel := tLevel } }
  let env ← readFilter config env
  let env := { env with
    traceState := { env.traceState with depthOfIouring := config.loggerIoUringDepth } }
  let env ← readCommon config (readPid config env)
  let env ← readFiles config env stIno
  return readParams config env

end ReadConfig

end StorTrace
