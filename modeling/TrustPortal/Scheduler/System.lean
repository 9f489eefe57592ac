import TrustPortal.Scheduler.Run

/-!
# `TrustPortal.Scheduler.System`: the threads that work on runs and sources

`Portal` has the tables of runs and of git sources and a set of threads: request handlers and
cron jobs that enqueue a run, workers that claim and execute one, reapers, and administrators
that change a source. `Phase` says between which two statements of its code a thread is, and
each definition below is one statement: it does nothing on a thread in another phase, and
nothing while it waits for the lock of a row. `Portal.step` lists them all, so a list of steps
is an interleaving at every statement boundary.

A worker holds the advisory lock of the run's target through a database session of its own,
which the database may end at any time (`loseSession`), and a process may stop at any point
(`crash`). What the execution of a run writes besides the run and its source is left out: its
commits are `commit` in the phase `working`.
-/

set_option autoImplicit false

namespace TrustPortal.Scheduler

open TrustPortal.GitSources
open TrustPortal.Sql

/-! ## Lock and guard -/

/-- `TargetLock` after it was acquired. `connected` says that its database session lives; the
session then holds the lock. -/
structure TargetLock where
  keys : Int × Int
  connected : Bool
  deriving DecidableEq

/-- How a statement of a lock's session ends while the session lives. -/
inductive Answer
  | replied
  /-- A lock or statement timeout, a cancel or a deadlock. -/
  | timedOut
  deriving DecidableEq

/-- The errors of a statement of a lock's session. -/
inductive LockError
  | lockLost
  | ownershipUnknown
  deriving DecidableEq

/-- `TargetLock._execute`. -/
def executeOn {α : Type} (lock : Option TargetLock) (answer : Answer) (value : α) :
    Except LockError α :=
  match lock, answer with
  | some ⟨_, true⟩, .replied => .ok value
  | some ⟨_, true⟩, .timedOut => .error .ownershipUnknown
  | _, _ => .error .lockLost

/-- `TargetLock.ownership`, where `row` is the committed run. -/
def ownership (lock : Option TargetLock) (answer : Answer) (row : Option Run) (token : String) :
    Except LockError (Bool × Option Status) :=
  executeOn lock answer
    (true, (row.filter fun run => run.executorToken = some token).map Run.status)

/-- `TargetLock.holds`. -/
def holds (lock : Option TargetLock) (answer : Answer) : Except LockError Bool :=
  executeOn lock answer true

/-- `_lock_still_held`. -/
def lockStillHeld (lock : Option TargetLock) (answer : Answer) : Bool :=
  match holds lock answer with
  | .ok held => held
  | .error .lockLost => false
  | .error .ownershipUnknown => true

/-- `RunGuard.verify`: the reason why the claim is lost, if it is. `lost` is the reason that the
guard found before, and `row` the committed run. -/
def verifyClaim (lost : Option String) (lock : Option TargetLock) (first second : Answer)
    (row : Option Run) (token : String) : Option String :=
  match lost with
  | some reason => some reason
  | none =>
    let (held, status) := match ownership lock first row token with
      | .ok answer => answer
      | .error .lockLost => (false, none)
      | .error .ownershipUnknown => (lockStillHeld lock second, some .running)
    if !held then some "the executor lost its target lock"
    else if status ≠ some .running then
      some "the run is no longer running under this executor"
    else none

/-! ## Threads -/

/-- A run that a worker claimed, with its executor token. -/
structure Claim where
  run : RunId
  token : String
  deriving DecidableEq

/-- What the execution of a run read when it started. A git sync also has a snapshot of its
source and, once it resolved it, the head of the branch. -/
structure Work where
  claim : Claim
  token : Option String
  source : Option GitSource
  head : Option String
  deriving DecidableEq

/-- Between which statements a thread is. -/
inductive Phase
  /-- Between two tasks. -/
  | idle
  /-- `_enqueue`, before it reads the active run, with so many inserts left. -/
  | enqueuing (kind : JobKind) (target : String) (attempts : Nat)
  /-- `_enqueue`, before an insert. -/
  | inserting (kind : JobKind) (target : String) (attempts : Nat)
  /-- `_enqueue`, before the commit. -/
  | inserted
  /-- `execute_claimed`, before it reads the run. -/
  | reading (run : RunId)
  /-- `execute_claimed`, before it acquires the target lock. -/
  | locking (run : RunId) (target : String)
  /-- `execute_claimed`, before the claim. -/
  | claiming (run : RunId)
  /-- `execute_claimed`, before it commits the claim. -/
  | claimed (claim : Claim)
  /-- The execution, before it reads the run. -/
  | entering (claim : Claim)
  /-- The execution, before it reads the target. -/
  | loading (claim : Claim) (token : Option String) (target : String)
  /-- The execution, between two transactions or in one that leaves the run alone. -/
  | working (work : Work)
  /-- A git sync, before it commits the commits of its run. -/
  | started (work : Work)
  /-- The execution, after the UPDATE of its outcome, which found the run or did not. -/
  | recording (work : Work) (result : Result) (applied : Bool)
  /-- A git sync, after the UPDATE of its source. -/
  | recorded (work : Work) (result : Result)
  /-- `execute_claimed`, before `_fail_run`. -/
  | leaving (claim : Claim) (error : String)
  /-- `_fail_run`, before the commit. -/
  | failing (claim : Claim)
  /-- `execute_claimed`, before it releases the target lock. -/
  | releasing
  /-- `reap_once`, between two runs. -/
  | reaping (cutoff : Int) (stale : List (RunId × String))
  /-- `_reap_run`, before the UPDATE. -/
  | closing (cutoff : Int) (run : RunId) (stale : List (RunId × String))
  /-- `_reap_run`, before the commit. -/
  | closed (cutoff : Int) (stale : List (RunId × String))
  /-- `_reap_run`, before it releases the target lock. -/
  | unlocking (cutoff : Int) (stale : List (RunId × String))
  /-- An administrator's request, after it loaded the source. -/
  | editing (loaded : GitSource)
  /-- An administrator's request, before the UPDATE. -/
  | flushing (loaded edited : GitSource)
  /-- An administrator's request, before the commit. -/
  | flushed
  deriving DecidableEq

/-- The claim of a thread whose run is being executed, under its guard. -/
def Phase.guarded : Phase → Option Claim
  | .entering claim | .loading claim _ _ => some claim
  | .working work | .started work | .recording work _ _ | .recorded work _ => some work.claim
  | _ => none

/-- A thread. `checked` says that the guard let the next commit pass, and `lost` is the guard's
`lost_reason`. -/
structure Thread where
  phase : Phase
  lock : Option TargetLock
  checked : Bool
  lost : Option String
  deriving DecidableEq

/-- A thread of a process that just started. -/
def Thread.idle : Thread := ⟨.idle, none, false, none⟩

/-! ## What the statements write -/

/-- The outcomes an execution may record: a git sync that did not fail resolved its head. -/
def Work.mayRecord (work : Work) (outcome : Outcome) : Bool :=
  work.claim.run.1 ≠ .gitSync || outcome = .failure || work.head.isSome

/-- The head that a git sync records: none when it failed. -/
def Work.recordedHead (work : Work) (result : Result) : Option String :=
  if result.outcome = .failure then none else work.head

/-- The source's sync status and, while it still has the last synced commit that the run
started from, its new one: the UPDATE of the source in `_finish`. -/
def recordSync (source : GitSource) (startedFrom : Option String) (result : Result)
    (head : Option String) : GitSource :=
  match head with
  | none => { source with lastSyncStatus := some result.outcome }
  | some head =>
    if source.lastSyncedCommit = startedFrom then
      { source with
        lastSyncStatus := some result.outcome
        lastSyncedCommit := some head
        lastSyncedAt := some result.finishedAt }
    else { source with lastSyncStatus := some result.outcome }

/-- The error of an execution that returned, for a run it left without a result. -/
def endError : Option String → String
  | some reason => s!"Interrupted: {reason}"
  | none => "Run ended without recording a result"

/-- A column after the UPDATE of an edited object: only a column whose value differs from the
loaded one is in the statement. -/
def column {α : Type} [DecidableEq α] (loaded edited current : α) : α :=
  if edited = loaded then current else edited

/-- The row after the UPDATE of an edited source. -/
def flushSource (loaded edited current : GitSource) : GitSource where
  id := current.id
  role := column loaded.role edited.role current.role
  provider := column loaded.provider edited.provider current.provider
  repository := column loaded.repository edited.repository current.repository
  branch := column loaded.branch edited.branch current.branch
  region := column loaded.region edited.region current.region
  credentialMode := column loaded.credentialMode edited.credentialMode current.credentialMode
  pathMappings := column loaded.pathMappings edited.pathMappings current.pathMappings
  options := column loaded.options edited.options current.options
  lastSyncedCommit :=
    column loaded.lastSyncedCommit edited.lastSyncedCommit current.lastSyncedCommit
  lastSyncedAt := current.lastSyncedAt
  lastSyncStatus := current.lastSyncStatus

/-! ## The portal -/

/-- The table of git sources. -/
abbrev Sources (ι : Type) : Type :=
  Rows ι GitSource.id (fun _ => (none : Option Unit))

/-- The database and the threads. -/
structure Portal (ι : Type) where
  runs : Runs ι
  sources : Sources ι
  threads : ι → Thread

namespace Portal

variable {ι : Type} [DecidableEq ι]

omit [DecidableEq ι] in
/-- A new installation. -/
def empty : Portal ι where
  runs := .ofTable (.empty Run.key) fun _ _ _ ha => nomatch ha
  sources := .ofTable (.empty GitSource.id) fun _ _ _ ha => nomatch ha
  threads := fun _ => .idle

omit [DecidableEq ι] in
/-- Every process stopped: the committed rows stay. -/
def restart (s : Portal ι) : Portal ι :=
  ⟨s.runs.restart, s.sources.restart, fun _ => .idle⟩

/-- The state of thread `t` changes. -/
def setThread (s : Portal ι) (t : ι) (thread : Thread) : Portal ι :=
  { s with threads := Function.update s.threads t thread }

/-- Thread `t` goes on to another phase. -/
def goto (s : Portal ι) (t : ι) (phase : Phase) : Portal ι :=
  s.setThread t { s.threads t with phase, checked := false }

/-- Thread `t` holds another lock, or none. -/
def setLock (s : Portal ι) (t : ι) (lock : Option TargetLock) : Portal ι :=
  s.setThread t { s.threads t with lock }

/-- Thread `t` has a new guard. -/
def startGuard (s : Portal ι) (t : ι) : Portal ι :=
  s.setThread t { s.threads t with lost := none }

/-- `RunGuard._mark_lost`. -/
def markLost (s : Portal ι) (t : ι) (reason : String) : Portal ι :=
  s.setThread t { s.threads t with lost := (s.threads t).lost <|> some reason }

/-- COMMIT of thread `t`. -/
def commitRows (s : Portal ι) (t : ι) : Portal ι :=
  { s with runs := s.runs.commit t, sources := s.sources.commit t }

/-- ROLLBACK of thread `t`. -/
def rollbackRows (s : Portal ι) (t : ι) : Portal ι :=
  { s with runs := s.runs.rollback t, sources := s.sources.rollback t }

/-- No other session holds the advisory lock with these keys: `pg_try_advisory_lock`. -/
def lockFree [Fintype ι] (s : Portal ι) (t : ι) (keys : Int × Int) : Bool :=
  decide (∀ j, j ≠ t → (s.threads j).lock ≠ some ⟨keys, true⟩)

/-! ## Enqueueing -/

/-- A call of `_enqueue`. -/
def enqueue (s : Portal ι) (t : ι) (kind : JobKind) (target : String) : Portal ι :=
  match (s.threads t).phase with
  | .idle => s.goto t (.enqueuing kind target 2)
  | _ => s

/-- `_active_run`, and what `_enqueue` does with its answer. -/
def readActive (s : Portal ι) (t : ι) : Portal ι :=
  match (s.threads t).phase with
  | .enqueuing kind target attempts =>
    if s.runs.committed.rows.any fun run => run.activeTarget = some (kind, target) then
      s.goto t .idle
    else match attempts with
      | 0 => s.goto t .idle
      | left + 1 => s.goto t (.inserting kind target left)
  | _ => s

/-- The INSERT of `_enqueue`. -/
def insert [Fintype ι] (s : Portal ι) (t : ι) (id : String) (now : Int) : Portal ι :=
  match (s.threads t).phase with
  | .inserting kind target attempts =>
    let run := newRun kind id target now
    if (s.runs.get run.key).isSome then s.goto t .idle
    else if s.runs.conflicts run then s.goto t (.enqueuing kind target attempts)
    else match s.runs.write t run with
      | some runs => { s with runs }.goto t .inserted
      | none => s
  | _ => s

/-! ## Execution -/

/-- A call of `execute_claimed`. -/
def execute (s : Portal ι) (t : ι) (run : RunId) : Portal ι :=
  match (s.threads t).phase with
  | .idle => s.goto t (.reading run)
  | _ => s

/-- The read of the run in `execute_claimed`. -/
def readRun (s : Portal ι) (t : ι) : Portal ι :=
  match (s.threads t).phase with
  | .reading id => match s.runs.get id with
    | some run => if run.status = .queued then s.goto t (.locking id run.target)
      else s.goto t .idle
    | none => s.goto t .idle
  | _ => s

/-- `lock.acquire()` of a worker or of the reaper. -/
def acquire [Fintype ι] (s : Portal ι) (t : ι) : Portal ι :=
  match (s.threads t).phase with
  | .locking run target =>
    let keys := targetLockKeys run.1 target
    if s.lockFree t keys then (s.setLock t (some ⟨keys, true⟩)).goto t (.claiming run)
    else s.goto t .idle
  | .reaping cutoff ((run, target) :: stale) =>
    let keys := targetLockKeys run.1 target
    if s.lockFree t keys then (s.setLock t (some ⟨keys, true⟩)).goto t (.closing cutoff run stale)
    else s.goto t (.reaping cutoff stale)
  | _ => s

/-- The claim. A run that is no longer queued is left to whoever has it. -/
def claim [Fintype ι] (s : Portal ι) (t : ι) (token : String) (now : Int) : Portal ι :=
  match (s.threads t).phase with
  | .claiming id => match (s.runs.get id).bind fun run => run.claim token now with
    | none => s.goto t .releasing
    | some run => match s.runs.write t run with
      | some runs => { s with runs }.goto t (.claimed ⟨id, token⟩)
      | none => s
  | _ => s

/-- The execution reads its run. -/
def enter (s : Portal ι) (t : ι) : Portal ι :=
  match (s.threads t).phase with
  | .entering claim => match s.runs.get claim.run with
    | some run => s.goto t (.loading claim run.executorToken run.target)
    | none => s.goto t (.leaving claim "Run raised: the run is gone")
  | _ => s

/-- The execution reads its target: `SourceSnapshot.of` for a git sync. -/
def load (s : Portal ι) (t : ι) : Portal ι :=
  match (s.threads t).phase with
  | .loading claim token target => match claim.run.1 with
    | .gitSync => match s.sources.get target with
      | some source => s.goto t (.working ⟨claim, token, some source, none⟩)
      | none => s.goto t (.leaving claim "Run raised: the source is gone")
    | .collector | .evidenceStoreSync => s.goto t (.working ⟨claim, token, none, none⟩)
  | _ => s

/-- A git sync resolved the head of its branch and writes the commits of its run. -/
def start [Fintype ι] (s : Portal ι) (t : ι) (head : String) : Portal ι :=
  match (s.threads t).phase with
  | .working work => match work.source, s.runs.get work.claim.run with
    | some source, some run =>
      match s.runs.write t (run.withCommits source.lastSyncedCommit head) with
      | some runs => { s with runs }.goto t (.started { work with head := some head })
      | none => s
    | _, _ => s
  | _ => s

/-- The UPDATE of a run's outcome: `_record_outcome` and both `_finish`. -/
def finish [Fintype ι] (s : Portal ι) (t : ι) (result : Result) : Portal ι :=
  match (s.threads t).phase with
  | .working work =>
    if work.mayRecord result.outcome then
      match (s.runs.get work.claim.run).bind fun run => run.record work.token result with
      | none => s.goto t (.recording work result false)
      | some run => match s.runs.write t run with
        | some runs => { s with runs }.goto t (.recording work result true)
        | none => s
    else s
  | _ => s

/-- The UPDATE of the source in `_finish`. -/
def updateSource [Fintype ι] (s : Portal ι) (t : ι) : Portal ι :=
  match (s.threads t).phase with
  | .recording work result true => match work.source with
    | none => s
    | some snapshot => match s.sources.get snapshot.id with
      | none => s.goto t (.recorded work result)
      | some source =>
        match s.sources.write t
            (recordSync source snapshot.lastSyncedCommit result (work.recordedHead result)) with
        | some sources => { s with sources }.goto t (.recorded work result)
        | none => s
  | _ => s

/-- An exception that the execution catches: it goes on to record a failure. -/
def rescue (s : Portal ι) (t : ι) : Portal ι :=
  match (s.threads t).phase with
  | .working work | .started work | .recording work _ _ | .recorded work _ =>
    (s.rollbackRows t).goto t (.working work)
  | _ => s

/-- The execution ends, with a result or an exception: the session is rolled back and the guard
is closed. -/
def leave (s : Portal ι) (t : ι) (error : String) : Portal ι :=
  match (s.threads t).phase.guarded with
  | some claim => (s.rollbackRows t).goto t (.leaving claim error)
  | none => s

/-- `RunGuard._before_commit`. -/
def verify (s : Portal ι) (t : ι) (first second : Answer) : Portal ι :=
  match (s.threads t).phase.guarded with
  | some claim =>
    match verifyClaim (s.threads t).lost (s.threads t).lock first second
        (s.runs.get claim.run) claim.token with
    | none => s.setThread t { s.threads t with checked := true }
    | some reason =>
      ((s.rollbackRows t).markLost t reason).goto t (.leaving claim s!"Interrupted: {reason}")
  | none => s

/-- `_fail_run`. -/
def failRun [Fintype ι] (s : Portal ι) (t : ι) (now : Int) : Portal ι :=
  match (s.threads t).phase with
  | .leaving claim error =>
    match (s.runs.get claim.run).bind fun run => run.fail claim.token error now with
    | none => s.goto t (.failing claim)
    | some run => match s.runs.write t run with
      | some runs => { s with runs }.goto t (.failing claim)
      | none => s
  | _ => s

/-- `lock.release()`. -/
def release (s : Portal ι) (t : ι) : Portal ι :=
  match (s.threads t).phase with
  | .releasing => (s.setLock t none).goto t .idle
  | .unlocking cutoff stale => (s.setLock t none).goto t (.reaping cutoff stale)
  | _ => s

/-! ## Reaping -/

/-- A call of `reap_once`. -/
def reap (s : Portal ι) (t : ι) (cutoff : Int) : Portal ι :=
  match (s.threads t).phase with
  | .idle => s.goto t (.reaping cutoff [])
  | _ => s

/-- `reap_once` reads the stale runs of a kind, or ends. -/
def select (s : Portal ι) (t : ι) (kind : Option JobKind) : Portal ι :=
  match (s.threads t).phase, kind with
  | .reaping cutoff [], some kind =>
    let stale := s.runs.committed.rows.filter fun run => run.kind = kind && run.isStale cutoff
    s.goto t (.reaping cutoff (stale.map fun run => (run.key, run.target)))
  | .reaping _ [], none => s.goto t .idle
  | _, _ => s

/-- The UPDATE of `_reap_run`. -/
def close [Fintype ι] (s : Portal ι) (t : ι) (now : Int) : Portal ι :=
  match (s.threads t).phase with
  | .closing cutoff id stale =>
    match (s.runs.get id).bind fun run => run.reap cutoff now with
    | none => s.goto t (.closed cutoff stale)
    | some run => match s.runs.write t run with
      | some runs => { s with runs }.goto t (.closed cutoff stale)
      | none => s
  | _ => s

/-! ## Administration -/

/-- An administrator's request loads a source. -/
def edit (s : Portal ι) (t : ι) (id : String) : Portal ι :=
  match (s.threads t).phase with
  | .idle => match s.sources.get id with
    | some source => s.goto t (.editing source)
    | none => s
  | _ => s

/-- `apply_config` on the loaded source. -/
def configure (s : Portal ι) (t : ι) (localAllowed : String → Bool) (data : ConfigData) :
    Portal ι :=
  match (s.threads t).phase with
  | .editing loaded => match applyConfig localAllowed loaded data with
    | .ok edited => s.goto t (.flushing loaded edited)
    | .error _ => s.goto t .idle
  | _ => s

/-- `set_last_synced_commit` on the loaded source. -/
def setCommit (s : Portal ι) (t : ι) (commit : String) : Portal ι :=
  match (s.threads t).phase with
  | .editing loaded => match setLastSyncedCommit loaded commit with
    | .ok edited => s.goto t (.flushing loaded edited)
    | .error _ => s.goto t .idle
  | _ => s

/-- The UPDATE of an edited source. -/
def flush [Fintype ι] (s : Portal ι) (t : ι) : Portal ι :=
  match (s.threads t).phase with
  | .flushing loaded edited => match s.sources.get loaded.id with
    | none => s.goto t .idle
    | some current => match s.sources.write t (flushSource loaded edited current) with
      | some sources => { s with sources }.goto t .flushed
      | none => s
  | _ => s

/-! ## Commits and failures -/

/-- COMMIT. Under the guard it is made only after the check; `_record_outcome` rolls back when
its UPDATE did not find the run, and a git sync updates its source before. -/
def commit (s : Portal ι) (t : ι) : Portal ι :=
  match (s.threads t).phase with
  | .inserted | .flushed => (s.commitRows t).goto t .idle
  | .claimed claim => ((s.commitRows t).startGuard t).goto t (.entering claim)
  | .working work | .started work =>
    if (s.threads t).checked then (s.commitRows t).goto t (.working work) else s
  | .recording work _ false =>
    if work.claim.run.1 = .collector then
      (s.rollbackRows t).goto t (.leaving work.claim (endError (s.threads t).lost))
    else if (s.threads t).checked then
      (s.commitRows t).goto t (.leaving work.claim (endError (s.threads t).lost))
    else s
  | .recording work _ true =>
    if (s.threads t).checked && work.claim.run.1 ≠ .gitSync then
      (s.commitRows t).goto t (.leaving work.claim (endError (s.threads t).lost))
    else s
  | .recorded work _ =>
    if (s.threads t).checked then
      (s.commitRows t).goto t (.leaving work.claim (endError (s.threads t).lost))
    else s
  | .failing _ => (s.commitRows t).goto t .releasing
  | .closed cutoff stale => (s.commitRows t).goto t (.unlocking cutoff stale)
  | _ => s

/-- An exception outside the execution: the session is rolled back. A worker and the reaper
release their lock, and the reaper goes on with the next run. -/
def abort (s : Portal ι) (t : ι) : Portal ι :=
  match (s.threads t).phase with
  | .enqueuing _ _ _ | .inserting _ _ _ | .reading _ | .locking _ _ => s.goto t .idle
  | .reaping cutoff (_ :: stale) => s.goto t (.reaping cutoff stale)
  | .claiming _ | .claimed _ | .leaving _ _ | .failing _ =>
    (s.rollbackRows t).goto t .releasing
  | .closing cutoff _ stale | .closed cutoff stale =>
    (s.rollbackRows t).goto t (.unlocking cutoff stale)
  | .inserted | .editing _ | .flushing _ _ | .flushed => (s.rollbackRows t).goto t .idle
  | _ => s

/-- `RunGuard.beat`, by the heartbeat thread of an executing worker. -/
def beat [Fintype ι] (s : Portal ι) (t : ι) (answer : Answer) (now : Int) : Portal ι :=
  match (s.threads t).phase.guarded with
  | none => s
  | some claim =>
    match executeOn (s.threads t).lock answer
        ((s.runs.get claim.run).bind fun run => run.heartbeat claim.token now) with
    | .error .ownershipUnknown => s
    | .error .lockLost => s.markLost t "the executor lost its target lock"
    | .ok none => s.markLost t "the executor lost its target lock or its claim on the run"
    | .ok (some run) => match s.runs.autocommit run with
      | some runs => { s with runs }
      | none => s

/-- The database ends the lock session of thread `t`. -/
def loseSession (s : Portal ι) (t : ι) : Portal ι :=
  s.setLock t ((s.threads t).lock.map fun lock => { lock with connected := false })

/-- The process of thread `t` stops: its sessions end. -/
def crash (s : Portal ι) (t : ι) : Portal ι :=
  (s.rollbackRows t).setThread t .idle

end Portal

/-! ## Runs of the portal -/

/-- The statements. -/
inductive Action
  | enqueue (kind : JobKind) (target : String)
  | readActive
  | insert (id : String) (now : Int)
  | execute (run : RunId)
  | readRun
  | acquire
  | claim (token : String) (now : Int)
  | enter
  | load
  | start (head : String)
  | finish (result : Result)
  | updateSource
  | rescue
  | leave (error : String)
  | verify (first second : Answer)
  | failRun (now : Int)
  | release
  | reap (cutoff : Int)
  | select (kind : Option JobKind)
  | close (now : Int)
  | edit (id : String)
  | configure (localAllowed : String → Bool) (data : ConfigData)
  | setCommit (commit : String)
  | flush
  | commit
  | abort
  | beat (answer : Answer) (now : Int)
  | loseSession
  | crash

/-- A statement of a thread. -/
def Portal.step {ι : Type} [Fintype ι] [DecidableEq ι] (s : Portal ι) (move : ι × Action) :
    Portal ι :=
  match move with
  | (t, .enqueue kind target) => s.enqueue t kind target
  | (t, .readActive) => s.readActive t
  | (t, .insert id now) => s.insert t id now
  | (t, .execute run) => s.execute t run
  | (t, .readRun) => s.readRun t
  | (t, .acquire) => s.acquire t
  | (t, .claim token now) => s.claim t token now
  | (t, .enter) => s.enter t
  | (t, .load) => s.load t
  | (t, .start head) => s.start t head
  | (t, .finish result) => s.finish t result
  | (t, .updateSource) => s.updateSource t
  | (t, .rescue) => s.rescue t
  | (t, .leave error) => s.leave t error
  | (t, .verify first second) => s.verify t first second
  | (t, .failRun now) => s.failRun t now
  | (t, .release) => s.release t
  | (t, .reap cutoff) => s.reap t cutoff
  | (t, .select kind) => s.select t kind
  | (t, .close now) => s.close t now
  | (t, .edit id) => s.edit t id
  | (t, .configure localAllowed data) => s.configure t localAllowed data
  | (t, .setCommit commit) => s.setCommit t commit
  | (t, .flush) => s.flush t
  | (t, .commit) => s.commit t
  | (t, .abort) => s.abort t
  | (t, .beat answer now) => s.beat t answer now
  | (t, .loseSession) => s.loseSession t
  | (t, .crash) => s.crash t

/-- The portal after a list of statements. -/
def Portal.run {ι : Type} [Fintype ι] [DecidableEq ι] (s : Portal ι) (moves : List (ι × Action)) :
    Portal ι :=
  moves.foldl Portal.step s

end TrustPortal.Scheduler
