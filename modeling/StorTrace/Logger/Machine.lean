import StorTrace.Lib.Assembly
import StorTrace.Lib.System
import StorTrace.Logger.Meta

/-!
# `Logger.Machine` — the logger, its ring and its files (`logger.hpp`)

The user side of `Logger` from the end of `__register_to_io_uring` to the end of the destructor, together with
the kernel side of its ring: requests are executed one at a time, in any order but for a drain, and each leaves
one completion. The user side gives up control at every `io_uring_submit` and `io_uring_peek_cqe`, so
these are the events of the system, next to `execute`.

`allocated`, `executed` and `freed` are what the trace of a run records. Behaviour the language leaves
undefined (an index out of range, an `int` that overflows, a NULL request) is a refused event.
-/

namespace StorTrace

/-- Where a request goes: a registered file (`IOSQE_FIXED_FILE`) or a descriptor, which is no file at all if its
    `open` failed. -/
inductive Target (φ : Type) where
  | fixed (index : Nat)
  | fd (file : Option φ)
deriving DecidableEq

inductive Op where
  | write (buf length off : Nat)
  | fsync
deriving DecidableEq

/-- `struct io_uring_sqe`; `drain` is `IOSQE_IO_DRAIN`. -/
structure Sqe (φ : Type) where
  target : Target φ
  op : Op
  drain : Bool
  userData : Nat
deriving DecidableEq

/-- `struct io_uring_cqe`. -/
structure Cqe where
  userData : Nat
  res : Int
deriving DecidableEq

/-- `INT16_MAX`, the `user_data` of the request that ends `__dump_logger_meta`. -/
def int16Max : Nat := 32767

namespace Sqe

variable {φ : Type}

/-- The write of `commit`. -/
def dataWrite (index buf length off : Nat) : Sqe φ := ⟨.fixed index, .write buf length off, false, buf⟩

/-- The fsync of `__flush_all`. -/
def dataSync (index : Nat) : Sqe φ := ⟨.fixed index, .fsync, false, 0⟩

/-- The write of `__dump_logger_meta`. -/
def metaWrite (file : Option φ) (buf length : Nat) : Sqe φ := ⟨.fd file, .write buf length 0, false, buf⟩

/-- `sqe_finish`. -/
def finish (file : Option φ) : Sqe φ := ⟨.fd file, .fsync, true, int16Max⟩

end Sqe

/-- Where the user side is: outside, in the loop of `commit`, after the `io_uring_submit` of `__flush_all`, after
    the first and after the second one of `__dump_logger_meta`, and past its loop. -/
inductive Pc (φ : Type) where
  | idle
  | reaping
  | flushed (logData : Str)
  | written (file : Option φ)
  | draining
  | released
deriving DecidableEq

structure LoggerState (φ : Type) where
  fileCommitCount : Nat → Nat
  offSetOf : Nat → Nat
  /-- Requests submitted and not executed, oldest first. -/
  submitted : List (Sqe φ)
  /-- Completions not seen, oldest first. -/
  cq : List Cqe
  /-- What is allocated where. -/
  heap : Nat → Option Str
  files : φ → Contents UInt8
  pc : Pc φ

/-- One thing that happens between two points where the user side gives up control. `buf` is what `new` returns,
    `fd` what `open` returns, `res` what the kernel reports. -/
inductive LoggerEvent where
  | commit (fName : String) (row : Str) (buf : Nat)
  | peek (visible : Bool)
  | flushAll
  | dumpMeta (fd : Int) (buf : Nat)
  | dumpSync
  | execute (k : Nat) (res : Int)
deriving DecidableEq

/-- What the trace records. -/
inductive LoggerAction (φ : Type) where
  | allocated (buf : Nat)
  | executed (sqe : Sqe φ) (res : Int)
  | freed (buf : Nat)
deriving DecidableEq

/-- A logger after `__register_to_io_uring`, every `open` of which succeeded. `fileAt` is the file a path names,
    `disk` what the files of the machine held before, `sqEntries` the size of the submission queue. -/
structure Logger (φ : Type) where
  path : Str
  fileFormat : List FileWithFormat
  fileAt : Str → φ
  disk : φ → Contents UInt8
  sqEntries : Nat

namespace Logger

variable {φ : Type} [DecidableEq φ] (L : Logger φ)

/-- `path + "/" + name`. -/
def filePath (name : Str) : Str := L.path ++ [47] ++ name

/-- The files registered with the ring. -/
def fdSet : List φ := L.fileFormat.map (fun item => L.fileAt (L.filePath (strBytes item.fileName)))

def logMeta : φ := L.fileAt (L.filePath (strBytes "log_meta"))

/-- `O_TRUNC` empties the registered files. -/
def init : LoggerState φ where
  fileCommitCount := fun _ => 0
  offSetOf := fun _ => 0
  submitted := []
  cq := []
  heap := fun _ => none
  files := fun f => if f ∈ L.fdSet then .empty else L.disk f
  pc := .idle

/-- The file a request goes to. -/
def fileOf : Target φ → Option φ
  | .fixed index => L.fdSet[index]?
  | .fd file => file

/-- `new char[length]` may return `buf`. -/
def Fresh (s : LoggerState φ) (length buf : Nat) : Prop :=
  s.heap buf = none ∧ buf ≠ 0 ∧ buf ≠ int16Max ∧ length < 0x80000000

instance (s : LoggerState φ) (length buf : Nat) : Decidable (Fresh s length buf) :=
  inferInstanceAs (Decidable (_ ∧ _))

/-- `commit`, up to its `io_uring_submit`. -/
def commit (s : LoggerState φ) (fName : String) (row : Str) (buf : Nat) :
    Option (LoggerState φ × List (LoggerAction φ)) :=
  let index := fdMap L.fileFormat fName
  if s.pc = .idle ∧ index < L.fileFormat.length ∧ s.fileCommitCount index < 0x7fffffff ∧
      1 ≤ L.sqEntries ∧ Fresh s row.length buf then
    some ({ s with
      fileCommitCount := Function.update s.fileCommitCount index (s.fileCommitCount index + 1)
      heap := Function.update s.heap buf (some row)
      submitted := s.submitted ++ [.dataWrite index buf row.length (s.offSetOf index)]
      offSetOf := Function.update s.offSetOf index (s.offSetOf index + row.length)
      pc := .reaping }, [.allocated buf])
  else none

/-- `delete buf` and `io_uring_cqe_seen`, for the completion at the head of the queue. -/
def deleteBuf (s : LoggerState φ) (cqe : Cqe) (rest : List Cqe) :
    LoggerState φ × List (LoggerAction φ) :=
  ({ s with heap := Function.update s.heap cqe.userData none, cq := rest }, [.freed cqe.userData])

/-- One round of the loop of `commit`. -/
def reap (s : LoggerState φ) (visible : Bool) : Option (LoggerState φ × List (LoggerAction φ)) :=
  if visible then
    match s.cq with
    | [] => none
    | cqe :: rest => some (if cqe.userData = 0 then (s, []) else deleteBuf s cqe rest)
  else some ({ s with pc := .idle }, [])

/-- One round of the loop of `__dump_logger_meta`. -/
def drain (s : LoggerState φ) (visible : Bool) : Option (LoggerState φ × List (LoggerAction φ)) :=
  if visible then
    match s.cq with
    | [] => none
    | cqe :: rest =>
        some (if cqe.userData = int16Max then ({ s with cq := rest, pc := .released }, [])
          else if cqe.userData = 0 then ({ s with cq := rest }, [])
          else deleteBuf s cqe rest)
  else some (s, [])

/-- `io_uring_peek_cqe` finds a completion or does not, in whichever loop the user side is. -/
def peek (s : LoggerState φ) (visible : Bool) : Option (LoggerState φ × List (LoggerAction φ)) :=
  match s.pc with
  | .reaping => reap s visible
  | .draining => drain s visible
  | _ => none

/-- `__flush_all`, up to its `io_uring_submit`: a request for each log is taken from the submission queue. -/
def flushAll (s : LoggerState φ) : Option (LoggerState φ × List (LoggerAction φ)) :=
  if s.pc = .idle ∧ L.fileFormat.length ≤ L.sqEntries then
    some ({ s with
      submitted := s.submitted ++ (List.range L.fileFormat.length).map Sqe.dataSync
      pc := .flushed (Meta.logData L.fileFormat s.fileCommitCount) }, [])
  else none

/-- `__dump_logger_meta`, up to its first `io_uring_submit`. Only a descriptor `0` counts as a failed `open`. -/
def dumpMeta (s : LoggerState φ) (fd : Int) (buf : Nat) :
    Option (LoggerState φ × List (LoggerAction φ)) :=
  match s.pc with
  | .flushed logData =>
      if fd ≠ 0 ∧ 1 ≤ L.sqEntries ∧ Fresh s logData.length buf then
        let file := if fd < 0 then none else some L.logMeta
        some ({ s with
          files := if fd < 0 then s.files else Function.update s.files L.logMeta .empty
          heap := Function.update s.heap buf (some logData)
          submitted := s.submitted ++ [.metaWrite file buf logData.length]
          pc := .written file }, [.allocated buf])
      else none
  | _ => none

/-- `__dump_logger_meta`, up to its second `io_uring_submit`. -/
def dumpSync (s : LoggerState φ) : Option (LoggerState φ × List (LoggerAction φ)) :=
  match s.pc with
  | .written file => some ({ s with submitted := s.submitted ++ [.finish file], pc := .draining }, [])
  | _ => none

/-- What a request does to the files when the kernel reports `res`: a write stores the first `res` of its bytes. -/
def carryOut (s : LoggerState φ) (sqe : Sqe φ) (res : Int) : φ → Contents UInt8 :=
  match sqe.op, L.fileOf sqe.target with
  | .write buf length off, some file =>
      Function.update s.files file
        ((s.files file).storeAt off ((((s.heap buf).getD []).take length).take res.toNat))
  | _, _ => s.files

/-- The kernel executes request `k` of those it has, a drained one only if it is the oldest. -/
def execute (s : LoggerState φ) (k : Nat) (res : Int) :
    Option (LoggerState φ × List (LoggerAction φ)) :=
  match s.submitted[k]? with
  | none => none
  | some sqe =>
      if sqe.drain = true → k = 0 then
        some ({ s with
          submitted := s.submitted.eraseIdx k
          cq := s.cq ++ [⟨sqe.userData, res⟩]
          files := L.carryOut s sqe res }, [.executed sqe res])
      else none

/-- **The logger and its ring.** -/
def system : System (LoggerState φ) LoggerEvent (LoggerAction φ) where
  init := L.init
  step s
    | .commit fName row buf => L.commit s fName row buf
    | .peek visible => peek s visible
    | .flushAll => L.flushAll s
    | .dumpMeta fd buf => L.dumpMeta s fd buf
    | .dumpSync => dumpSync s
    | .execute k res => L.execute s k res

end Logger

end StorTrace
