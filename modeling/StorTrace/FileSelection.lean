import StorTrace.TaskSelection

/-!
# `FileSelection` — is the selection of files honoured?

The constructors put the inode numbers of the selected files into `file_filter`, after `get_inode` passed
them through an `int`. The programs look there only while `using_inode_filter` is set, and no user-space
code sets it: a selected file passes, and so does every other one.
-/

namespace StorTrace

open Ext4Dio (DioConfig DioProgram simpleProgram infoProgram inodeSelected)

/-- The inode number is the one of a file of the configuration. -/
def Listed (config : Config) (stIno : Str → Option UInt64) (inodeId : UInt64) : Prop :=
  ∃ path ∈ config.files, stIno path = some inodeId

instance (config : Config) (stIno : Str → Option UInt64) (inodeId : UInt64) :
    Decidable (Listed config stIno inodeId) := inferInstanceAs (Decidable (∃ path ∈ config.files, _))

section Honoured

variable {config : Config} {stIno : Str → Option UInt64} {env : Env}

/-- **For every accepted configuration and both direct-I/O modules: a direct I/O on a listed file passes the
    inode check, and in a run in which every call on another file is one of a task with another name than
    the configured one and finds no entry of its kiocb, or gets no entry, every event is of a direct I/O on a listed
    file.** -/
theorem listed_of_screened (h : readConfig config .init stIno = .ok env) :
    (∀ cfg, Ext4Dio.Simple.construct env = .ok cfg →
      (∀ inodeId, Listed config stIno inodeId → inodeSelected cfg inodeId = true) ∧
      ∀ evs, Run.AllSteps ((dioCalls (simpleProgram cfg)).Screened (fun c => Listed config stIno c.inodeId)
          (fun c => OtherName config c.task)) evs →
        Run.AllSteps ((dioCalls (simpleProgram cfg)).StartedBy (fun c => Listed config stIno c.inodeId)) evs) ∧
    ∀ cfg, Ext4Dio.Info.construct env = .ok cfg →
      (∀ inodeId, Listed config stIno inodeId → inodeSelected cfg inodeId = true) ∧
      ∀ evs, Run.AllSteps ((dioCalls (infoProgram cfg)).Screened (fun c => Listed config stIno c.inodeId)
          (fun c => OtherName config c.task)) evs →
        Run.AllSteps ((dioCalls (infoProgram cfg)).StartedBy (fun c => Listed config stIno c.inodeId)) evs := by
  constructor
  · intro cfg hc
    have hspec := filterSpec_of_construct h (fun f hf => hf) hc
    exact ⟨fun inodeId _ => inodeSelected_of_construct hc inodeId,
      fun evs hscreen => dioCalls_startedBy (simpleProgram cfg) hspec (inodeSelected_of_construct hc) hscreen⟩
  · intro cfg hc
    have hspec := filterSpec_of_construct h (fun f hf => taskFilterOnly_ok hf) hc
    exact ⟨fun inodeId _ => inodeSelected_of_construct hc inodeId,
      fun evs hscreen => dioCalls_startedBy (infoProgram cfg) hspec (inodeSelected_of_construct hc) hscreen⟩

end Honoured

/-! ## A listed file and another one -/

/-- `"ibdata1"`. -/
def ibdata : Str := [105, 98, 100, 97, 116, 97, 49]

/-- A configuration that selects one file. -/
def selectFile : Config := { selectTask (-1) [] with files := [ibdata] }

/-- What `fstat` finds: the file has the inode number `ino`, and there is no other one. -/
def fstatIbdata (ino : UInt64) (path : Str) : Option UInt64 := if path = ibdata then some ino else none

/-- The writes of a run on the listed file (inode `100`) are events of a listed file, in both modules. -/
theorem listed_of_screened_ibdata :
    ∃ env, readConfig selectFile .init (fstatIbdata 100) = .ok env ∧
      (∃ cfg, Ext4Dio.Simple.construct env = .ok cfg ∧
        (∀ inodeId, Listed selectFile (fstatIbdata 100) inodeId → inodeSelected cfg inodeId = true) ∧
        Run.AllSteps ((dioCalls (simpleProgram cfg)).StartedBy
          (fun c => Listed selectFile (fstatIbdata 100) c.inodeId)) (oneWrite otherTask)) ∧
      ∃ cfg, Ext4Dio.Info.construct env = .ok cfg ∧
        (∀ inodeId, Listed selectFile (fstatIbdata 100) inodeId → inodeSelected cfg inodeId = true) ∧
        Run.AllSteps ((dioCalls (infoProgram cfg)).StartedBy
          (fun c => Listed selectFile (fstatIbdata 100) c.inodeId)) (oneInfoWrite otherTask) := by
  have hlisted : Listed selectFile (fstatIbdata 100) 100 := by decide
  have hconfig : readConfig selectFile .init (fstatIbdata 100) = .ok _ := rfl
  refine ⟨_, hconfig, ⟨_, rfl, ?_, ?_⟩, ⟨_, rfl, ?_, ?_⟩⟩
  · exact ((listed_of_screened hconfig).1 _ rfl).1
  · refine ((listed_of_screened hconfig).1 _ rfl).2 _ (StartedCache.screened_of_wanted ?_)
    intro e he k c hc
    rw [(start_oneWrite he hc).2]
    exact hlisted
  · exact ((listed_of_screened hconfig).2 _ rfl).1
  · refine ((listed_of_screened hconfig).2 _ rfl).2 _ (StartedCache.screened_of_wanted ?_)
    intro e he k c hc
    rw [(start_oneInfoWrite he hc).2]
    exact hlisted

/-- **With only the file of inode `50` listed, a write on inode `100` is emitted.** -/
theorem not_listed_other :
    ∃ env cfg, readConfig selectFile .init (fstatIbdata 50) = .ok env ∧
      Ext4Dio.Simple.construct env = .ok cfg ∧
      ¬ Run.AllSteps ((dioCalls (simpleProgram cfg)).StartedBy
        (fun c => Listed selectFile (fstatIbdata 50) c.inodeId)) (oneWrite otherTask) := by
  have hconfig : readConfig selectFile .init (fstatIbdata 50) = .ok _ := rfl
  refine ⟨_, ⟨.off, false, ((BpfHash.empty).updateElem 50 true .noexist).1⟩, hconfig, rfl, ?_⟩
  intro h
  obtain ⟨c, hlisted, -, hinode⟩ := wanted_of_oneWrite (by decide) h
  rw [hinode] at hlisted
  exact absurd hlisted (by decide)

end StorTrace
