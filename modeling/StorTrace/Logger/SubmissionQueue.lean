import Mathlib.Data.Nat.Log
import StorTrace.Logger.Machine

/-!
# `Logger.SubmissionQueue` — does the logger run out of submission entries?

`io_uring_get_sqe` takes an entry of the submission queue and `io_uring_submit` gives all of them back. `commit`
and `__dump_logger_meta` submit after each entry; `__flush_all` takes one for every registered log first.
Nobody checks for `NULL`, which ends a run here with `none`.
-/

namespace StorTrace

/-- The entries of a submission queue, and how many of them are prepared and not submitted. -/
@[ext] structure SubmissionQueue where
  entries : Nat
  prepared : Nat
  prepared_le : prepared ≤ entries
deriving DecidableEq

namespace SubmissionQueue

/-- `io_uring_queue_init(depth, ..)`: as many entries as the next power of two. -/
def queueInit (depth : Nat) : SubmissionQueue := ⟨2 ^ Nat.clog 2 depth, 0, Nat.zero_le _⟩

/-- `io_uring_get_sqe`. -/
def getSqe (q : SubmissionQueue) : Option SubmissionQueue :=
  if h : q.prepared < q.entries then some ⟨q.entries, q.prepared + 1, h⟩ else none

/-- `io_uring_submit`. -/
def submit (q : SubmissionQueue) : SubmissionQueue := ⟨q.entries, 0, Nat.zero_le _⟩

/-! ## The calls of the logger -/

/-- `commit`. -/
def commit (q : SubmissionQueue) : Option SubmissionQueue := q.getSqe.map submit

/-- The loop of `__flush_all` over the registered logs. -/
def fsyncs (fileFormat : List FileWithFormat) (q : SubmissionQueue) : Option SubmissionQueue :=
  fileFormat.foldlM (fun q _ => q.getSqe) q

/-- `__dump_logger_meta`. -/
def dumpLoggerMeta (q : SubmissionQueue) : Option SubmissionQueue := do
  let q ← q.getSqe
  let q ← q.submit.getSqe
  return q.submit

/-- `__flush_all`. -/
def flushAll (fileFormat : List FileWithFormat) (q : SubmissionQueue) : Option SubmissionQueue := do
  let q ← fsyncs fileFormat q
  dumpLoggerMeta q.submit

/-- A logger from its constructor to its destructor; without a depth there is no ring. -/
def lifetime (depth : Nat) (fileFormat : List FileWithFormat) (commits : List CommitCall) : Option SubmissionQueue :=
  if depth = 0 then none
  else do
    let q ← commits.foldlM (fun q _ => q.commit) (queueInit depth)
    flushAll fileFormat q

variable {q q' : SubmissionQueue} {fileFormat : List FileWithFormat}

theorem getSqe_eq_some : q.getSqe = some q' ↔
    q.prepared < q.entries ∧ q'.entries = q.entries ∧ q'.prepared = q.prepared + 1 := by
  unfold getSqe
  split
  · next h =>
    rw [Option.some_inj, SubmissionQueue.ext_iff]
    constructor
    · rintro ⟨he, hp⟩
      exact ⟨h, he.symm, hp.symm⟩
    · rintro ⟨-, he, hp⟩
      exact ⟨he.symm, hp.symm⟩
  · next h => exact iff_of_false (by simp) (fun hq => h hq.1)

/-- With nothing prepared, an entry is taken and given back. -/
theorem getSqe_submit (hq : q.prepared = 0) (hpos : 0 < q.entries) : q.getSqe.map submit = some q := by
  have hlt : q.prepared < q.entries := by rw [hq]; exact hpos
  rw [getSqe, dif_pos hlt, Option.map_some, Option.some_inj, SubmissionQueue.ext_iff]
  exact ⟨rfl, hq.symm⟩

/-- **The loop over the logs** takes an entry for each. -/
theorem fsyncs_eq_some : fsyncs fileFormat q = some q' ↔
    q.prepared + fileFormat.length ≤ q.entries ∧ q'.entries = q.entries ∧
      q'.prepared = q.prepared + fileFormat.length := by
  induction fileFormat generalizing q with
  | nil =>
      show some q = some q' ↔ q.prepared + 0 ≤ q.entries ∧ q'.entries = q.entries ∧ q'.prepared = q.prepared + 0
      rw [Option.some_inj, SubmissionQueue.ext_iff]
      constructor
      · rintro ⟨he, hp⟩
        exact ⟨q.prepared_le, he.symm, hp.symm⟩
      · rintro ⟨-, he, hp⟩
        exact ⟨he.symm, hp.symm⟩
  | cons f rest ih =>
      have hcons : fsyncs (f :: rest) q = q.getSqe.bind (fsyncs rest) := rfl
      rw [hcons, Option.bind_eq_some_iff, List.length_cons]
      constructor
      · rintro ⟨q₁, h₁, h⟩
        obtain ⟨-, he₁, hp₁⟩ := getSqe_eq_some.mp h₁
        obtain ⟨hle, he, hp⟩ := ih.mp h
        rw [he₁, hp₁] at *
        exact ⟨by omega, he, by omega⟩
      · rintro ⟨hle, he, hp⟩
        have hlt : q.prepared < q.entries := by omega
        refine ⟨⟨q.entries, q.prepared + 1, hlt⟩, getSqe_eq_some.mpr ⟨hlt, rfl, rfl⟩, ih.mpr ⟨?_, he, ?_⟩⟩
        · show q.prepared + 1 + rest.length ≤ q.entries
          omega
        · show q'.prepared = q.prepared + 1 + rest.length
          omega

/-- The dump takes one entry at a time. -/
theorem dumpLoggerMeta_submit (hpos : 0 < q.entries) : q.submit.dumpLoggerMeta = some q.submit := by
  have hlt : q.submit.prepared < q.submit.entries := hpos
  unfold dumpLoggerMeta
  rw [getSqe, dif_pos hlt]
  show q.submit.getSqe.bind (fun q => some q.submit) = _
  rw [getSqe, dif_pos hlt]
  rfl

/-- **`__flush_all` gets its entries exactly if** there is one for each log. -/
theorem flushAll_isSome_iff (hq : q.prepared = 0) (hpos : 0 < q.entries) :
    (flushAll fileFormat q).isSome ↔ fileFormat.length ≤ q.entries := by
  unfold flushAll
  rw [Option.isSome_iff_exists]
  constructor
  · rintro ⟨q', h⟩
    obtain ⟨q₁, h₁, -⟩ := Option.bind_eq_some_iff.mp h
    have hle := (fsyncs_eq_some.mp h₁).1
    rwa [hq, Nat.zero_add] at hle
  · intro hle
    have h₁ : fsyncs fileFormat q = some ⟨q.entries, fileFormat.length, hle⟩ := by
      rw [fsyncs_eq_some, hq, Nat.zero_add]
      exact ⟨hle, rfl, rfl⟩
    exact ⟨_, Option.bind_eq_some_iff.mpr ⟨_, h₁, dumpLoggerMeta_submit hpos⟩⟩

/-- Commits leave the queue as it is. -/
theorem foldlM_commit (hq : q.prepared = 0) (hpos : 0 < q.entries) (commits : List CommitCall) :
    commits.foldlM (fun q _ => q.commit) q = some q := by
  induction commits with
  | nil => rfl
  | cons c rest ih =>
      rw [List.foldlM_cons, commit, getSqe_submit hq hpos]
      exact ih

theorem entries_pos (depth : Nat) : 0 < (queueInit depth).entries := Nat.two_pow_pos _

/-- Only the destructor matters. -/
theorem lifetime_eq {depth : Nat} (hdepth : 1 ≤ depth) (commits : List CommitCall) :
    lifetime depth fileFormat commits = flushAll fileFormat (queueInit depth) := by
  unfold lifetime
  rw [if_neg (Nat.ne_of_gt hdepth), foldlM_commit rfl (entries_pos depth)]
  rfl

/-- **No `io_uring_get_sqe` returns `NULL` exactly if** no more logs are registered than the queue has
    entries. -/
theorem neverNull_iff (depth : Nat) (fileFormat : List FileWithFormat) (commits : List CommitCall) (hdepth : 1 ≤ depth) :
    (lifetime depth fileFormat commits).isSome ↔ fileFormat.length ≤ 2 ^ Nat.clog 2 depth := by
  rw [lifetime_eq hdepth]
  exact flushAll_isSome_iff rfl (entries_pos depth)

/-- Three logs and a depth of `3`, which gives four entries. -/
theorem neverNull_iff_three_logs :
    (lifetime 3 [.make "a" [8] ["x"], .make "b" [8] ["x"], .make "c" [8] ["x"]] [⟨"a", [0, 0, 0, 0, 0, 0, 0, 0]⟩]).isSome ↔
      3 ≤ 2 ^ Nat.clog 2 3 :=
  neverNull_iff 3 _ _ (by decide)

/-- **Not every logger gets its entries**: two logs, and a queue of one entry. -/
theorem not_neverNull_two_logs :
    ¬ ∀ (depth : Nat) (fileFormat : List FileWithFormat) (commits : List CommitCall), 1 ≤ depth →
      (lifetime depth fileFormat commits).isSome := by
  intro h
  have hsome := h 1 [.make "a" [8] ["x"], .make "b" [8] ["x"]] [] (by decide)
  rw [lifetime_eq (by decide)] at hsome
  have hle : 2 ≤ 2 ^ Nat.clog 2 1 := (flushAll_isSome_iff rfl (entries_pos 1)).mp hsome
  rw [Nat.clog_one_right] at hle
  exact absurd hle (by decide)

/-! ## The machine takes its entries from the queue -/

/-- The entries that are taken and given back at an event of the machine. -/
def onEvent (fileFormat : List FileWithFormat) (q : SubmissionQueue) : LoggerEvent → Option SubmissionQueue
  | .commit _ _ _ => q.commit
  | .flushAll => (fsyncs fileFormat q).map submit
  | .dumpMeta _ _ => q.getSqe.map submit
  | .dumpSync => q.getSqe.map submit
  | .peek _ => some q
  | .execute _ _ => some q

section Machine

variable {φ : Type} [DecidableEq φ] {L : Logger φ}

/-- The loop of `__flush_all` and its `io_uring_submit`. -/
theorem fsyncs_submit (hq : q.prepared = 0) :
    (fsyncs fileFormat q).map submit = if fileFormat.length ≤ q.entries then some q else none := by
  by_cases hle : fileFormat.length ≤ q.entries
  · have h₁ : fsyncs fileFormat q = some ⟨q.entries, fileFormat.length, hle⟩ := by
      rw [fsyncs_eq_some, hq, Nat.zero_add]
      exact ⟨hle, rfl, rfl⟩
    rw [if_pos hle, h₁, Option.map_some, Option.some_inj, SubmissionQueue.ext_iff]
    exact ⟨rfl, hq.symm⟩
  · rw [if_neg hle, Option.map_eq_none_iff, Option.eq_none_iff_forall_ne_some]
    intro q' h
    have hle' := (fsyncs_eq_some.mp h).1
    rw [hq, Nat.zero_add] at hle'
    exact hle hle'

/-- An event that the machine takes gets its entries. -/
theorem onEvent_of_step (hq : q.prepared = 0) (hpos : 0 < q.entries) (hentries : q.entries = L.sqEntries)
    {s : LoggerState φ} {e : LoggerEvent} {r : LoggerState φ × List (LoggerAction φ)}
    (h : L.system.step s e = some r) : onEvent L.fileFormat q e = some q := by
  cases e with
  | commit fName row buf => exact getSqe_submit hq hpos
  | peek visible => rfl
  | flushAll =>
      have hguard : s.pc = .idle ∧ L.fileFormat.length ≤ L.sqEntries := by
        by_contra hno
        exact absurd (show L.flushAll s = some r from h) (by rw [Logger.flushAll, if_neg hno]; simp)
      show (fsyncs L.fileFormat q).map submit = some q
      rw [fsyncs_submit hq, if_pos (hentries ▸ hguard.2)]
  | dumpMeta fd buf => exact getSqe_submit hq hpos
  | dumpSync => exact getSqe_submit hq hpos
  | execute k res => rfl

/-- **A run of the machine** gets all of its entries, and leaves none prepared. -/
theorem foldlM_onEvent (hq : q.prepared = 0) (hpos : 0 < q.entries) (hentries : q.entries = L.sqEntries)
    {evs : List LoggerEvent} {s : LoggerState φ} {t : List (LoggerAction φ)} (h : L.system.run evs = some (s, t)) :
    evs.foldlM (onEvent L.fileFormat) q = some q := by
  refine System.run_induction (P := fun evs _ _ => evs.foldlM (onEvent L.fileFormat) q = some q) rfl ?_ h
  intro evs s t e s' o _ ih hstep
  rw [List.foldlM_append, ih]
  show (onEvent L.fileFormat q e).bind some = some q
  rw [onEvent_of_step hq hpos hentries hstep, Option.bind_some]

/-- **The machine refuses to flush exactly at a `NULL` entry.** -/
theorem machine_flushAll_isSome_iff (hq : q.prepared = 0) (hentries : q.entries = L.sqEntries) {s : LoggerState φ}
    (hpc : s.pc = .idle) : (L.flushAll s).isSome ↔ (onEvent L.fileFormat q .flushAll).isSome := by
  show _ ↔ ((fsyncs L.fileFormat q).map submit).isSome
  rw [fsyncs_submit hq, hentries, Logger.flushAll]
  by_cases hle : L.fileFormat.length ≤ L.sqEntries
  · rw [if_pos ⟨hpc, hle⟩, if_pos hle]
    exact iff_of_true rfl rfl
  · rw [if_neg (fun h => hle h.2), if_neg hle]
    exact Iff.rfl

end Machine

end SubmissionQueue

end StorTrace
