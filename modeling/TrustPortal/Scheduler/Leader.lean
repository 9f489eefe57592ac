import TrustPortal.Scheduler.Cron
import TrustPortal.Scheduler.Run

/-!
# `TrustPortal.Scheduler.Leader`: the leader that queues scheduled runs

Every process has a `SchedulerService`. One of them holds the leader lock and has a cron job in its
APScheduler for each enabled target with a valid schedule; a job that fires queues a run of the
target, unless one is active. The jobs are in memory, so a fire that comes while nobody leads is
lost with them. The next leader makes up for it: its first reconcile that completes looks at every
schedule for a fire since the last run of the target (`catch_up`).

`System` has the schedules, the runs and the services of all processes. Each step below is one
transaction or one action of a thread: the loop of a service reads the clock, reads the schedules,
sets its jobs and then catches up with one target after the other, and between any two of these
steps jobs fire, their callbacks run, leaders change, sessions are lost, processes stop, targets
change and runs are claimed and end. A service that lost the session of its lock goes on until it
finds out. How `_enqueue` inserts a run among other inserts is in `Scheduler.System`; here it is one
step.

APScheduler is code outside of this repository: `Calendar` is what it computes from a trigger, and
`fire` is its thread, which finds a job due. It may also drop a due fire, where it is later than
`misfire_grace_time` or the callback of an earlier one still runs. Times are in microseconds since
1970.
-/

set_option autoImplicit false

namespace TrustPortal.Scheduler.Leader

open TrustPortal.Python
open TrustPortal.Sql

/-! ## Triggers -/

/-- APScheduler, and the minutes at which its triggers fire. -/
structure Calendar where
  tables : TextTables
  aps : APScheduler
  /-- The minute that a time is in. -/
  minuteAt : Int → aps.Minute
  /-- `trigger.get_next_fire_time(None, time)`. -/
  nextFireTime : Trigger → Int → Option Int

namespace Calendar

variable (cal : Calendar)

/-- A trigger fires at the beginning of its minutes. -/
def firesAt (trigger : Trigger) (time : Int) : Prop :=
  time % 60000000 = 0 ∧ cal.aps.fires (cal.minuteAt time) trigger = true

/-- `get_next_fire_time` gives the first fire that is not before a time. -/
structure Documented : Prop where
  first : ∀ trigger time fire, cal.nextFireTime trigger time = some fire →
    time ≤ fire ∧ cal.firesAt trigger fire
      ∧ ∀ other, time ≤ other → cal.firesAt trigger other → fire ≤ other
  last : ∀ trigger time, cal.nextFireTime trigger time = none →
    ∀ other, time ≤ other → ¬cal.firesAt trigger other

/-- `parse_cron`. -/
def parse (expression : Option Str) : Option Trigger := parseCron cal.tables cal.aps expression

/-- `first_fire_between`. -/
def firstFireBetween (expression : Option Str) (after before : Int) : Option Int :=
  match cal.parse expression with
  | none => none
  | some trigger => (cal.nextFireTime trigger (after + 1)).filter fun fire => fire < before

end Calendar

/-! ## Targets and runs -/

/-- The kind and the id of a target, which make the id of its job. -/
abbrev TargetKey := JobKind × String

/-- A collector's configuration, or a git source. -/
structure Target where
  kind : JobKind
  id : String
  enabled : Bool
  scheduleCron : Option Str
  createdAt : Int
  deriving DecidableEq

/-- The id of the job of a target. -/
def Target.key (target : Target) : TargetKey := (target.kind, target.id)

/-- The collectors and the git sources. -/
abbrev Targets := Table Target.key

/-- What `desired_schedules` says of a target. -/
structure Schedule where
  key : TargetKey
  cron : Str

/-- `desired_schedules`. -/
def desiredSchedules (cal : Calendar) (targets : Targets) : List Schedule :=
  [JobKind.collector, .gitSync].flatMap fun kind => targets.rows.filterMap fun target =>
    match target.scheduleCron with
    | some cron =>
      if target.kind = kind ∧ target.enabled = true ∧ (cal.parse (some cron)).isSome then
        some ⟨target.key, cron⟩
      else none
    | none => none

/-- A run with its `queued_at`. `endedAt` is when its end was committed, which no statement reads. -/
structure QueuedRun where
  run : Run
  queuedAt : Int
  endedAt : Option Int

/-- The key of the target of a run. -/
def QueuedRun.target (queued : QueuedRun) : TargetKey := (queued.run.kind, queued.run.target)

/-- The column `queued_order_column`. -/
def QueuedRun.runTime (queued : QueuedRun) : Option Int :=
  match queued.run.kind with
  | .collector => queued.run.startedAt
  | .gitSync | .evidenceStoreSync => some queued.queuedAt

/-- `_active_run`. -/
def activeRun (runs : List QueuedRun) (key : TargetKey) : Option QueuedRun :=
  runs.find? fun queued => queued.target = key && queued.run.status.isActive

/-- `_enqueue` with the row of `enqueue_collector_run` or `enqueue_git_sync`, which read the clock at
`readAt`. -/
def enqueue (runs : List QueuedRun) (key : TargetKey) (id : String) (readAt : Int) :
    List QueuedRun :=
  match activeRun runs key with
  | some _ => runs
  | none => runs ++ [⟨newRun key.1 id key.2 readAt, readAt, none⟩]

/-- A statement of the execution of a run, or of the reaper. -/
inductive RunChange
  | claim (token : String)
  | heartbeat (token : String)
  | record (token : Option String) (result : Result)
  | fail (token message : String)
  | reap (cutoff : Int)
  | commits (fromCommit : Option String) (head : String)

/-- What a statement that read the clock at `readAt` makes of a run, none where it does not match. -/
def RunChange.apply (run : Run) (readAt : Int) : RunChange → Option Run
  | .claim token => run.claim token readAt
  | .heartbeat token => run.heartbeat token readAt
  | .record token result => run.record token result
  | .fail token message => run.fail token message readAt
  | .reap cutoff => run.reap cutoff readAt
  | .commits fromCommit head => some (run.withCommits fromCommit head)

/-- The run after a statement that was committed at `now`. -/
def QueuedRun.changed (queued : QueuedRun) (run : Run) (now : Int) : QueuedRun :=
  { queued with
    run
    endedAt := if queued.run.status.isActive && !run.status.isActive then some now
      else queued.endedAt }

/-- `SELECT max(run_time)` of the runs of a target, which passes over NULL. -/
def latestRunTime (runs : List QueuedRun) (key : TargetKey) : Option Int :=
  ((runs.filter fun queued => queued.target = key).filterMap QueuedRun.runTime).max?

/-- `enqueue_scheduled`. -/
def enqueueScheduled (targets : Targets) (runs : List QueuedRun) (key : TargetKey) (id : String)
    (now : Int) : List QueuedRun :=
  match targets.get key with
  | some target => if target.enabled then enqueue runs key id now else runs
  | none => runs

/-- The fire that `enqueue_missed_fire` finds. -/
def missedFire (cal : Calendar) (targets : Targets) (runs : List QueuedRun) (key : TargetKey)
    (cron : Str) (til : Int) : Option Int :=
  match targets.get key with
  | some target =>
    if target.enabled then
      let since := (latestRunTime runs key).elim target.createdAt (max target.createdAt)
      cal.firstFireBetween (some cron) since til
    else none
  | none => none

/-- `enqueue_missed_fire`. -/
def enqueueMissedFire (cal : Calendar) (targets : Targets) (runs : List QueuedRun)
    (key : TargetKey) (cron : Str) (til : Int) (id : String) (now : Int) : List QueuedRun :=
  match missedFire cal targets runs key cron til with
  | some _ => enqueueScheduled targets runs key id now
  | none => runs

/-! ## Services -/

/-- A job of APScheduler. -/
structure Job where
  key : TargetKey
  cron : Str
  trigger : Trigger
  nextRun : Option Int

/-- Between which steps of `reconcile` a service is. -/
inductive Duty
  | idle
  /-- Before it reads the schedules. -/
  | reading (now : Int)
  /-- Before it sets the jobs. -/
  | scheduling (now : Int) (desired : List Schedule)
  /-- `catch_up`, before the next target. -/
  | catchingUp (rest : List Schedule)

/-- A `SchedulerService`. `leading` says that it has the connection of the leader lock, and
`firing` has the callbacks `_cron_fire` that were started and have not run. -/
structure Service where
  leading : Bool
  jobs : List Job
  jobSince : TargetKey → Option Int
  catchUpPending : Bool
  duty : Duty
  firing : List TargetKey

namespace Service

/-- A service of a process that has started. -/
def new : Service := ⟨false, [], fun _ => none, false, .idle, []⟩

/-- `_start_leader_duties`. -/
def startLeaderDuties (service : Service) : Service :=
  { service with
    leading := true, jobs := [], jobSince := fun _ => none, catchUpPending := true }

/-- `_step_down`. A callback that was started goes on, and so does a `reconcile` of the loop where
another thread calls `stop`. -/
def stepDown (service : Service) : Service := { service with leading := false, jobs := [] }

/-- The jobs that `reconcile` leaves: those whose schedule is still desired. -/
def wanted (desired : List Schedule) (job : Job) : Bool :=
  desired.any fun schedule => schedule.key = job.key && schedule.cron = job.cron

/-- `reconcile` removes the jobs that are not wanted. -/
def unschedule (service : Service) (desired : List Schedule) : Service :=
  { service with
    jobs := service.jobs.filter (wanted desired)
    jobSince := fun key =>
      if service.jobs.any fun job => job.key = key && !wanted desired job then none
      else service.jobSince key }

/-- `reconcile` adds the job of a schedule, unless there is one or APScheduler refuses it. -/
def addJob (cal : Calendar) (now : Int) (failed : List TargetKey) (service : Service)
    (schedule : Schedule) : Service :=
  if service.jobs.any fun job => job.key = schedule.key then service
  else
    match cal.parse (some schedule.cron) with
    | none => service
    | some trigger =>
      if schedule.key ∈ failed then service
      else
        { service with
          jobs := service.jobs ++
            [⟨schedule.key, schedule.cron, trigger, cal.nextFireTime trigger now⟩]
          jobSince := Function.update service.jobSince schedule.key (some now) }

/-- `reconcile` makes the jobs match the schedules. -/
def setJobs (cal : Calendar) (now : Int) (desired : List Schedule) (failed : List TargetKey)
    (service : Service) : Service :=
  desired.foldl (addJob cal now failed) (service.unschedule desired)

/-- A job after its due fires: the next fire is the first one after now. -/
def advance (cal : Calendar) (now : Int) (jobs : List Job) (i : Nat) (job : Job) : List Job :=
  match cal.nextFireTime job.trigger (now + 1) with
  | some next => jobs.set i { job with nextRun := some next }
  | none => jobs.eraseIdx i

end Service

/-! ## Steps -/

/-- The clock, which all processes read, the targets, the runs, the process whose session holds the
leader lock, and the services. -/
structure System where
  now : Int
  targets : Targets
  runs : List QueuedRun
  leaderLock : Option Nat
  services : Nat → Service

/-- What happens next. `p` is a process. -/
inductive Event
  | wait (time : Int)
  /-- Any change of the targets. -/
  | setTargets (targets : Targets)
  /-- A run that somebody asks for. -/
  | enqueue (key : TargetKey) (id : String) (readAt : Int)
  /-- A statement about the run at a place of the table. -/
  | changeRun (i : Nat) (readAt : Int) (change : RunChange)
  /-- `_try_become_leader`. -/
  | elect (p : Nat)
  /-- The database ends the session of the leader lock. -/
  | loseSession
  /-- `_step_down`, or `stop`. -/
  | stepDown (p : Nat)
  /-- The process stops, and a new one starts in its place. -/
  | crash (p : Nat)
  /-- `reconcile` reads the clock. -/
  | reconcile (p : Nat)
  /-- `reconcile` reads the schedules. -/
  | readSchedules (p : Nat)
  /-- `reconcile` sets the jobs, but those that APScheduler refuses. -/
  | setJobs (p : Nat) (failed : List TargetKey)
  /-- `catch_up` takes the next target, and may fail for it. -/
  | catchUp (p : Nat) (id : String) (failed : Bool)
  /-- `reconcile` raises. -/
  | abort (p : Nat)
  /-- APScheduler finds a job due, and starts its callback or drops the fire. -/
  | fire (p i : Nat) (dropped : Bool)
  /-- `_cron_fire`, which may fail. -/
  | cronFire (p i : Nat) (id : String) (failed : Bool)

namespace System

/-- A system without runs and leaders. -/
def start (now : Int) (targets : Targets) : System :=
  ⟨now, targets, [], none, fun _ => .new⟩

/-- The service of a process becomes another. -/
def setService (s : System) (p : Nat) (service : Service) : System :=
  { s with services := Function.update s.services p service }

/-- The lock is free once the session of a process has ended. -/
def releaseLock (s : System) (p : Nat) : System :=
  { s with leaderLock := if s.leaderLock = some p then none else s.leaderLock }

variable (cal : Calendar)

/-- What one event does. -/
def step (s : System) : Event → System
  | .wait time => { s with now := max s.now time }
  | .setTargets targets => { s with targets }
  | .enqueue key id readAt =>
    if readAt ≤ s.now then { s with runs := Leader.enqueue s.runs key id readAt } else s
  | .changeRun i readAt change =>
    if readAt ≤ s.now then
      match s.runs[i]? with
      | some queued =>
        match change.apply queued.run readAt with
        | some run => { s with runs := s.runs.set i (queued.changed run s.now) }
        | none => s
      | none => s
    else s
  | .elect p =>
    match s.leaderLock, (s.services p).leading, (s.services p).duty with
    | none, false, .idle =>
      { s.setService p (s.services p).startLeaderDuties with leaderLock := some p }
    | _, _, _ => s
  | .loseSession => { s with leaderLock := none }
  | .stepDown p => (s.setService p (s.services p).stepDown).releaseLock p
  | .crash p => (s.setService p .new).releaseLock p
  | .reconcile p =>
    match (s.services p).leading, (s.services p).duty with
    | true, .idle => s.setService p { s.services p with duty := .reading s.now }
    | _, _ => s
  | .readSchedules p =>
    match (s.services p).duty with
    | .reading now =>
      s.setService p { s.services p with duty := .scheduling now (desiredSchedules cal s.targets) }
    | _ => s
  | .setJobs p failed =>
    match (s.services p).duty with
    | .scheduling now desired =>
      -- without its APScheduler the service raises
      if (s.services p).leading then
        let service := (s.services p).setJobs cal now desired failed
        s.setService p
          { service with duty := if service.catchUpPending then .catchingUp desired else .idle }
      else s.setService p { s.services p with duty := .idle }
    | _ => s
  | .catchUp p id failed =>
    match (s.services p).duty with
    | .catchingUp [] =>
      s.setService p { s.services p with duty := .idle, catchUpPending := false }
    | .catchingUp (schedule :: rest) =>
      let runs :=
        match (s.services p).jobSince schedule.key with
        | some since =>
          if failed then s.runs
          else enqueueMissedFire cal s.targets s.runs schedule.key schedule.cron since id s.now
        | none => s.runs
      { s.setService p { s.services p with duty := .catchingUp rest } with runs }
    | _ => s
  | .abort p => s.setService p { s.services p with duty := .idle }
  | .fire p i dropped =>
    match (s.services p).jobs[i]? with
    | some job =>
      if job.nextRun.any (· ≤ s.now) then
        s.setService p
          { s.services p with
            jobs := Service.advance cal s.now (s.services p).jobs i job
            firing := if dropped then (s.services p).firing else (s.services p).firing ++ [job.key] }
      else s
    | none => s
  | .cronFire p i id failed =>
    match (s.services p).firing[i]? with
    | some key =>
      let runs := if failed then s.runs else enqueueScheduled s.targets s.runs key id s.now
      { s.setService p { s.services p with firing := (s.services p).firing.eraseIdx i } with runs }
    | none => s

/-- A sequence of events. -/
def run (s : System) (events : List Event) : System := events.foldl (step cal) s

end System

end TrustPortal.Scheduler.Leader
