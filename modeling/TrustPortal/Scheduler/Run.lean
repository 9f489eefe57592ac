import TrustPortal.GitSources.Service
import TrustPortal.Sql.Rows

/-!
# `TrustPortal.Scheduler.Run`: runs and the statements that change them

A run is a row of `collector_run`, `git_sync_runs` or `evidence_store_sync_runs`. The
statements that change a run's status are conditional: each is given here as a function from
the row it finds to the row it writes, `none` when its WHERE clause does not match. The
execution of a run holds an advisory lock of the run's target (`targetLockKeys`).

A run also has counts, details and a trigger, which are written with the columns below and
which no condition reads. Times are in microseconds since 1970.
-/

set_option autoImplicit false

namespace TrustPortal.Scheduler

open TrustPortal.GitSources (Outcome)
open TrustPortal.Sql

/-! ## Kinds of jobs -/

/-- The names in `KINDS`. -/
inductive JobKind
  | collector
  | gitSync
  | evidenceStoreSync
  deriving DecidableEq, Repr

/-- `lock_class`. -/
def JobKind.lockClass : JobKind → Int
  | .collector => 8150
  | .gitSync => 8151
  | .evidenceStoreSync => 8152

/-- One bit of `zlib.crc32`. -/
def crcBit (crc : BitVec 32) : BitVec 32 :=
  if crc.getLsbD 0 then (crc >>> 1) ^^^ 0xedb88320#32 else crc >>> 1

/-- `zlib.crc32`. -/
def crc32 (bytes : List UInt8) : BitVec 32 :=
  let crc := bytes.foldl
    (fun crc byte => crcBit (crcBit (crcBit (crcBit (crcBit (crcBit (crcBit (crcBit
      (crc ^^^ byte.toBitVec.setWidth 32)))))))))
    0xffffffff#32
  crc ^^^ 0xffffffff#32

example : crc32 "123456789".toUTF8.toList = 0xcbf43926#32 := by decide +kernel

/-- `target_lock_key`. -/
def targetLockKey (targetId : String) : Int := (crc32 targetId.toUTF8.toList).toInt

/-- The two keys of the advisory lock of a target. -/
def targetLockKeys (kind : JobKind) (targetId : String) : Int × Int :=
  (kind.lockClass, targetLockKey targetId)

/-! ## Runs -/

/-- The status of a run. -/
inductive Status
  | queued
  | running
  /-- A terminal status. -/
  | ended (outcome : Outcome)
  deriving DecidableEq

/-- `status IN ('queued', 'running')`. -/
def Status.isActive : Status → Bool
  | .queued | .running => true
  | .ended _ => false

/-- The table and the id of a run. -/
abbrev RunId := JobKind × String

/-- A run. `target` is the collector's configuration, the git source or the bucket. -/
structure Run where
  kind : JobKind
  id : String
  target : String
  status : Status
  startedAt : Option Int
  heartbeatAt : Option Int
  finishedAt : Option Int
  executorToken : Option String
  fromCommit : Option String
  toCommit : Option String
  errorMessage : Option String
  deriving DecidableEq

/-- The primary key of a run. -/
def Run.key (run : Run) : RunId := (run.kind, run.id)

/-- The partial unique index `active_index`: one queued or running run for each target. -/
def Run.activeTarget (run : Run) : Option (JobKind × String) :=
  if run.status.isActive then some (run.kind, run.target) else none

/-- The tables of runs, written by the sessions `ι`. -/
abbrev Runs (ι : Type) : Type := Rows ι Run.key Run.activeTarget

/-! ## Statements -/

/-- The row of `enqueue_collector_run`, `enqueue_git_sync` and `enqueue_evidence_store_sync`. -/
def newRun (kind : JobKind) (id target : String) (now : Int) : Run where
  kind
  id
  target
  status := .queued
  startedAt := if kind = .collector then some now else none
  heartbeatAt := none
  finishedAt := none
  executorToken := none
  fromCommit := none
  toCommit := none
  errorMessage := none

/-- The claim of `execute_claimed`. -/
def Run.claim (run : Run) (token : String) (now : Int) : Option Run :=
  if run.status = .queued then
    some { run with
      status := .running
      startedAt := some now
      heartbeatAt := some now
      executorToken := some token }
  else none

/-- `TargetLock.heartbeat`, on a session that holds the lock. -/
def Run.heartbeat (run : Run) (token : String) (now : Int) : Option Run :=
  if run.status = .running ∧ run.executorToken = some token then
    some { run with heartbeatAt := some now }
  else none

/-- What the execution of a run records at its end. -/
structure Result where
  outcome : Outcome
  finishedAt : Int
  error : Option String
  deriving DecidableEq

/-- The outcome of a run, written while the run is `running` under `token`: the UPDATE of a
run in `_record_outcome` and in both `_finish`. -/
def Run.record (run : Run) (token : Option String) (result : Result) : Option Run :=
  if run.status = .running ∧ run.executorToken = token then
    some { run with
      status := .ended result.outcome
      finishedAt := some result.finishedAt
      errorMessage := result.error }
  else none

/-- The message of a failed run, cut to its column. -/
def cutMessage (message : String) : String := String.ofList (message.toList.take 2000)

/-- `_fail_run`. -/
def Run.fail (run : Run) (token message : String) (now : Int) : Option Run :=
  if run.status = .running ∧ run.executorToken = some token then
    some { run with
      status := .ended .failure
      finishedAt := some now
      errorMessage := some (cutMessage message) }
  else none

/-- `_last_sign_of_life`. -/
def Run.lastSignOfLife (run : Run) : Option Int := run.heartbeatAt <|> run.startedAt

/-- A run that the reaper may close. -/
def Run.isStale (run : Run) (cutoff : Int) : Bool :=
  run.status = .running && run.lastSignOfLife.any (· < cutoff)

/-- `REAPED_MESSAGE`. -/
def REAPED_MESSAGE : String :=
  "Interrupted: the process executing this run stopped before it finished"

/-- The UPDATE of `_reap_run`. -/
def Run.reap (run : Run) (cutoff now : Int) : Option Run :=
  if run.isStale cutoff then
    some { run with
      status := .ended .failure
      finishedAt := some now
      errorMessage := some REAPED_MESSAGE }
  else none

/-- The commits of a git sync, written when it starts. -/
def Run.withCommits (run : Run) (fromCommit : Option String) (head : String) : Run :=
  { run with fromCommit, toCommit := some head }

end TrustPortal.Scheduler
