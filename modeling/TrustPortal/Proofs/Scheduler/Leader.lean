import TrustPortal.Lib.Run
import TrustPortal.Scheduler.Leader

/-!
# `TrustPortal.Proofs.Scheduler.Leader`: no scheduled fire is lost

A fire of a schedule is covered when some run of the target has not ended before it: a run that was
queued for it, or a later one, or one that was still active at that time. `RunsKept` says that no
statement takes that back, and `missedFire_covers` that `catch_up` covers the fires before the job
of a target was added.

`Leads` is the invariant of a service that leads, about one target whose schedule stays: every fire
since its job was added, and once it has caught up every fire since the target was created, is
covered, or its callback is on the way, or its job is still due. `fires_covered` is the result for
every run of the system, with as many processes, changes of leader, crashes and lost sessions as
there may be.
-/

set_option autoImplicit false

namespace TrustPortal.Proofs.Scheduler.Leader

open TrustPortal.Lib
open TrustPortal.Python
open TrustPortal.Scheduler
open TrustPortal.Scheduler.Leader
open TrustPortal.Sql

/-! ## Runs -/

/-- Some run of a target has not ended before a time. -/
def Covered (runs : List QueuedRun) (key : TargetKey) (time : Int) : Prop :=
  ∃ queued ∈ runs, queued.target = key ∧ ∀ ended, queued.endedAt = some ended → time ≤ ended

/-- What the times of a run say of each other. -/
structure Timed (now : Int) (queued : QueuedRun) : Prop where
  started : ∀ time, queued.runTime = some time → time ≤ now
  active : queued.run.status.isActive = true → queued.endedAt = none
  ended : queued.run.status.isActive = false →
    ∃ ended, queued.endedAt = some ended ∧ ∀ time, queued.runTime = some time → time ≤ ended

/-- The times of all runs. -/
def AllTimed (now : Int) (runs : List QueuedRun) : Prop := ∀ queued ∈ runs, Timed now queued

/-- The runs after a step keep their times, and cover what was covered. -/
structure RunsKept (now : Int) (runs runs' : List QueuedRun) : Prop where
  timed : AllTimed now runs'
  covered : ∀ key time, time ≤ now → Covered runs key time → Covered runs' key time

section
variable {now : Int} {runs runs' : List QueuedRun} {key : TargetKey} {queued : QueuedRun}

theorem RunsKept.refl (h : AllTimed now runs) : RunsKept now runs runs := ⟨h, fun _ _ _ hc => hc⟩

/-- The times of a run hold later too. -/
theorem Timed.mono (h : Timed now queued) {later : Int} (hle : now ≤ later) : Timed later queued :=
  ⟨fun time ht => (h.started time ht).trans hle, h.active, h.ended⟩

/-- A run covers its own time. -/
theorem covered_of_runTime (h : AllTimed now runs) (hmem : queued ∈ runs)
    (hkey : queued.target = key) {time time' : Int} (htime : queued.runTime = some time')
    (hle : time ≤ time') : Covered runs key time := by
  refine ⟨queued, hmem, hkey, fun ended hended => ?_⟩
  cases hactive : queued.run.status.isActive with
  | true => simp [(h queued hmem).active hactive] at hended
  | false =>
    obtain ⟨ended', hended', hall⟩ := (h queued hmem).ended hactive
    rw [hended'] at hended
    cases hended
    exact hle.trans (hall time' htime)

/-- An active run covers every time. -/
theorem covered_of_active (h : AllTimed now runs) (hmem : queued ∈ runs)
    (hkey : queued.target = key) (hactive : queued.run.status.isActive = true) (time : Int) :
    Covered runs key time :=
  ⟨queued, hmem, hkey, fun ended hended => by simp [(h queued hmem).active hactive] at hended⟩

/-- A new run covers every time. -/
theorem timed_new (key : TargetKey) (id : String) {readAt : Int} (hread : readAt ≤ now) :
    Timed now ⟨newRun key.1 id key.2 readAt, readAt, none⟩ where
  started := by
    intro time htime
    obtain ⟨kind, target⟩ := key
    cases kind <;> simp [QueuedRun.runTime, newRun] at htime <;> omega
  active _ := rfl
  ended := by simp [newRun, Status.isActive]

theorem enqueue_kept (h : AllTimed now runs) (key : TargetKey) (id : String) {readAt : Int}
    (hread : readAt ≤ now) : RunsKept now runs (enqueue runs key id readAt) := by
  unfold enqueue
  split
  · exact .refl h
  · refine ⟨?_, ?_⟩
    · intro queued hmem
      rcases List.mem_append.mp hmem with hold | hnew
      · exact h queued hold
      · rw [List.mem_singleton.mp hnew]
        exact timed_new key id hread
    · rintro other time _ ⟨queued, hmem, hcovers⟩
      exact ⟨queued, List.mem_append_left _ hmem, hcovers⟩

/-- After an enqueue the target has an active run. -/
theorem enqueue_covers (h : AllTimed now runs) (key : TargetKey) (id : String) (readAt : Int)
    (time : Int) : Covered (enqueue runs key id readAt) key time := by
  unfold enqueue
  split
  · rename_i queued hactive
    have hfound := List.find?_some hactive
    simp only [Bool.and_eq_true, decide_eq_true_eq] at hfound
    exact covered_of_active h (List.mem_of_find?_eq_some hactive) hfound.1 hfound.2 time
  · exact ⟨_, List.mem_append_right _ (List.mem_singleton_self _), rfl, fun ended hended => by cases hended⟩

theorem enqueueScheduled_kept (h : AllTimed now runs) (targets : Targets) (key : TargetKey)
    (id : String) : RunsKept now runs (enqueueScheduled targets runs key id now) := by
  unfold enqueueScheduled
  split
  · split
    · exact enqueue_kept h key id le_rfl
    · exact .refl h
  · exact .refl h

/-- What a statement about a run can do to it. -/
theorem apply_cases {run run' : Run} {readAt : Int} {change : RunChange}
    (h : change.apply run readAt = some run') :
    run'.kind = run.kind ∧ run'.target = run.target
      ∧ (run'.startedAt = run.startedAt
        ∨ run.status = .queued ∧ run'.startedAt = some readAt)
      ∧ (run.status.isActive = false → run'.status = run.status ∧ run'.startedAt = run.startedAt) := by
  cases change with
  | claim token =>
    simp only [RunChange.apply, Run.claim] at h
    split at h
    · rename_i hqueued
      cases h
      exact ⟨rfl, rfl, .inr ⟨hqueued, rfl⟩, by simp [hqueued, Status.isActive]⟩
    · cases h
  | heartbeat token =>
    simp only [RunChange.apply, Run.heartbeat] at h
    split at h
    · cases h
      exact ⟨rfl, rfl, .inl rfl, fun _ => ⟨rfl, rfl⟩⟩
    · cases h
  | record token result =>
    simp only [RunChange.apply, Run.record] at h
    split at h
    · rename_i hrunning
      cases h
      exact ⟨rfl, rfl, .inl rfl, by simp [hrunning.1, Status.isActive]⟩
    · cases h
  | fail token message =>
    simp only [RunChange.apply, Run.fail] at h
    split at h
    · rename_i hrunning
      cases h
      exact ⟨rfl, rfl, .inl rfl, by simp [hrunning.1, Status.isActive]⟩
    · cases h
  | reap cutoff =>
    simp only [RunChange.apply, Run.reap] at h
    split at h
    · rename_i hstale
      simp only [Run.isStale, Bool.and_eq_true, decide_eq_true_eq] at hstale
      cases h
      exact ⟨rfl, rfl, .inl rfl, by simp [hstale.1, Status.isActive]⟩
    · cases h
  | commits fromCommit head =>
    cases h
    exact ⟨rfl, rfl, .inl rfl, fun _ => ⟨rfl, rfl⟩⟩

/-- A statement about a run keeps the times of the run. -/
theorem timed_changed (h : Timed now queued) {readAt : Int} (hread : readAt ≤ now)
    {change : RunChange} {run : Run} (happly : change.apply queued.run readAt = some run) :
    Timed now (queued.changed run now) := by
  obtain ⟨hkind, -, hstarted, hended⟩ := apply_cases happly
  have htime : ∀ time, (queued.changed run now).runTime = some time → time ≤ now := by
    intro time htime
    simp only [QueuedRun.runTime, QueuedRun.changed, hkind] at htime
    have hbefore := h.started time
    simp only [QueuedRun.runTime] at hbefore
    cases hk : queued.run.kind with
    | collector =>
      simp only [hk] at htime hbefore
      rcases hstarted with hsame | ⟨-, hnew⟩
      · exact hbefore (hsame ▸ htime)
      · rw [hnew] at htime
        cases htime
        exact hread
    | gitSync =>
      simp only [hk] at htime hbefore
      exact hbefore htime
    | evidenceStoreSync =>
      simp only [hk] at htime hbefore
      exact hbefore htime
  refine ⟨htime, ?_, ?_⟩
  · intro hactive
    cases hbefore : queued.run.status.isActive with
    | true =>
      simp only [QueuedRun.changed] at hactive ⊢
      simpa [hactive] using h.active hbefore
    | false =>
      -- an ended run stays ended
      have hsame := (hended hbefore).1
      simp [QueuedRun.changed, hsame, hbefore] at hactive
  · intro hover
    cases hbefore : queued.run.status.isActive with
    | true =>
      refine ⟨now, ?_, htime⟩
      simp only [QueuedRun.changed] at hover ⊢
      simp [hbefore, hover]
    | false =>
      obtain ⟨ended, hsome, hall⟩ := h.ended hbefore
      refine ⟨ended, by simpa [QueuedRun.changed, hbefore] using hsome, fun time htime => hall time ?_⟩
      simpa [QueuedRun.runTime, QueuedRun.changed, hkind, (hended hbefore).2] using htime

theorem changeRun_kept (h : AllTimed now runs) {i : Nat} (hget : runs[i]? = some queued)
    {readAt : Int} (hread : readAt ≤ now) {change : RunChange} {run : Run}
    (happly : change.apply queued.run readAt = some run) :
    RunsKept now runs (runs.set i (queued.changed run now)) := by
  obtain ⟨hkind, htarget, -, -⟩ := apply_cases happly
  have hlt := (List.getElem?_eq_some_iff.mp hget).1
  refine ⟨?_, ?_⟩
  · intro other hmem
    rcases List.mem_or_eq_of_mem_set hmem with hold | rfl
    · exact h other hold
    · exact timed_changed (h queued (List.mem_of_getElem? hget)) hread happly
  · rintro key time hle ⟨other, hmem, hother, hends⟩
    obtain ⟨j, hj⟩ := List.mem_iff_getElem?.mp hmem
    by_cases hij : i = j
    · -- the run that changes: if it ends, it ends now
      subst hij
      rw [hget] at hj
      cases hj
      refine ⟨queued.changed run now, List.mem_of_getElem? (List.getElem?_set_self hlt), ?_, ?_⟩
      · rw [← hother]
        simp [QueuedRun.target, QueuedRun.changed, hkind, htarget]
      · intro ended hended
        simp only [QueuedRun.changed] at hended
        split at hended
        · cases hended
          exact hle
        · exact hends ended hended
    · exact ⟨other, List.mem_of_getElem? ((List.getElem?_set_ne hij).trans hj), hother, hends⟩

end

/-! ## Missed fires -/

/-- An enabled target with a valid schedule. -/
structure Scheduled (cal : Calendar) (target : Target) (cron : Str) (trigger : Trigger) : Prop where
  kind : target.kind = .collector ∨ target.kind = .gitSync
  enabled : target.enabled = true
  expression : target.scheduleCron = some cron
  parsed : cal.parse (some cron) = some trigger

section
variable {cal : Calendar} {now : Int} {targets : Targets} {runs runs' : List QueuedRun}
  {target : Target} {cron : Str} {trigger : Trigger}

/-- The runs of a target up to the last one cover the fires before it. -/
theorem covered_of_latest (h : AllTimed now runs) {key : TargetKey} {latest time : Int}
    (hlatest : latestRunTime runs key = some latest) (hle : time ≤ latest) :
    Covered runs key time := by
  have hmem := List.max?_mem hlatest
  obtain ⟨queued, hqueued, htime⟩ := List.mem_filterMap.mp hmem
  simp only [List.mem_filter, decide_eq_true_eq] at hqueued
  exact covered_of_runTime h hqueued.1 hqueued.2 htime hle

theorem enqueueMissedFire_kept (h : AllTimed now runs) (cal : Calendar) (targets : Targets)
    (key : TargetKey) (cron : Str) (til : Int) (id : String) :
    RunsKept now runs (enqueueMissedFire cal targets runs key cron til id now) := by
  unfold enqueueMissedFire
  split
  · exact enqueueScheduled_kept h targets key id
  · exact .refl h

theorem enqueueScheduled_covers (h : AllTimed now runs) (hget : targets.get target.key = some target)
    (henabled : target.enabled = true) (id : String) (time : Int) :
    Covered (enqueueScheduled targets runs target.key id now) target.key time := by
  simp only [enqueueScheduled, hget, henabled, if_true]
  exact enqueue_covers h target.key id now time

/-- `enqueue_missed_fire` leaves every fire between the creation of the target and a time covered. -/
theorem missedFire_covers (hcal : cal.Documented) (h : AllTimed now runs)
    (hget : targets.get target.key = some target) (hscheduled : Scheduled cal target cron trigger)
    (til : Int) (id : String) {time : Int} (hfires : cal.firesAt trigger time)
    (hcreated : target.createdAt < time) (htil : time < til) :
    Covered (enqueueMissedFire cal targets runs target.key cron til id now) target.key time := by
  unfold enqueueMissedFire
  cases hmissed : missedFire cal targets runs target.key cron til with
  | some fire => exact enqueueScheduled_covers h hget hscheduled.enabled id time
  | none =>
    simp only
    obtain ⟨since, hsince⟩ : ∃ since,
        (latestRunTime runs target.key).elim target.createdAt (max target.createdAt) = since :=
      ⟨_, rfl⟩
    simp only [missedFire, hget, hscheduled.enabled, if_true, hsince, Calendar.firstFireBetween,
      hscheduled.parsed] at hmissed
    by_cases hafter : since < time
    · -- the next fire after `since` is not behind the time, and was found
      cases hnext : cal.nextFireTime trigger (since + 1) with
      | none => exact absurd hfires (hcal.last _ _ hnext time (by omega))
      | some fire =>
        have hfirst := (hcal.first _ _ _ hnext).2.2 time (by omega) hfires
        simp only [hnext, Option.filter_eq_none_iff, Option.some.injEq, decide_eq_true_eq,
          forall_eq'] at hmissed
        omega
    · -- the time is not behind the last run
      cases hlatest : latestRunTime runs target.key with
      | none =>
        rw [hlatest] at hsince
        simp only [Option.elim_none] at hsince
        omega
      | some latest =>
        rw [hlatest] at hsince
        simp only [Option.elim_some] at hsince
        exact covered_of_latest h hlatest (by omega)

end

/-! ## The invariant of a leader -/

/-- A job of the target is due at a time, or was due before. -/
def Awaits (jobs : List Job) (key : TargetKey) (time : Int) : Prop :=
  ∃ job ∈ jobs, job.key = key ∧ ∃ next, job.nextRun = some next ∧ next ≤ time

/-- A fire is covered, or its callback was started, or its job is due. -/
def Handled (runs : List QueuedRun) (service : Service) (key : TargetKey) (time : Int) : Prop :=
  Covered runs key time ∨ key ∈ service.firing ∨ Awaits service.jobs key time

/-- The schedules that were read have the target, with its expression. -/
def Desired (key : TargetKey) (cron : Str) (desired : List Schedule) : Prop :=
  ⟨key, cron⟩ ∈ desired ∧ ∀ schedule ∈ desired, schedule.key = key → schedule.cron = cron

/-- `catch_up` is through with the target. -/
def CaughtUp (service : Service) (key : TargetKey) : Prop :=
  service.catchUpPending = false
    ∨ ∃ rest, service.duty = .catchingUp rest ∧ key ∉ rest.map Schedule.key

/-- What the jobs of a leader are for a target. -/
structure JobsKept (cal : Calendar) (key : TargetKey) (cron : Str) (trigger : Trigger) (now : Int)
    (runs : List QueuedRun) (service : Service) : Prop where
  /-- They have its expression. -/
  jobs : ∀ job ∈ service.jobs, job.key = key → job.cron = cron ∧ job.trigger = trigger
  known : (∃ job ∈ service.jobs, job.key = key) → service.jobSince key ≠ none
  /-- They wait for every fire to come. -/
  next : service.jobSince key ≠ none → ∀ fire, cal.firesAt trigger fire → now < fire →
    Awaits service.jobs key fire
  /-- They have handled every fire since they were added. -/
  since : ∀ time, service.jobSince key = some time → time ≤ now ∧
    ∀ fire, cal.firesAt trigger fire → time ≤ fire → fire ≤ now → Handled runs service key fire

/-- What a step of `reconcile` has read. -/
def DutyKept (key : TargetKey) (cron : Str) (now : Int) (service : Service) : Prop :=
  match service.duty with
  | .idle => True
  | .reading time => time ≤ now
  | .scheduling time desired => time ≤ now ∧ Desired key cron desired
  | .catchingUp rest => service.jobSince key ≠ none
    ∧ ∀ schedule ∈ rest, schedule.key = key → schedule.cron = cron

/-- The invariant of a service that leads, for a target. -/
structure Leads (cal : Calendar) (target : Target) (cron : Str) (trigger : Trigger) (now : Int)
    (runs : List QueuedRun) (service : Service) : Prop where
  kept : JobsKept cal target.key cron trigger now runs service
  duty : DutyKept target.key cron now service
  /-- Once it has caught up, every fire since the target was created is handled. -/
  caught : CaughtUp service target.key → service.jobSince target.key ≠ none ∧
    ∀ fire, cal.firesAt trigger fire → target.createdAt < fire → fire ≤ now →
      Handled runs service target.key fire

/-- A step leaves what a service has for a target. -/
structure Same (key : TargetKey) (service service' : Service) : Prop where
  jobs : ∀ job, job.key = key → (job ∈ service'.jobs ↔ job ∈ service.jobs)
  since : service'.jobSince key = service.jobSince key
  firing : key ∈ service.firing → key ∈ service'.firing

section
variable {cal : Calendar} {now : Int} {runs runs' : List QueuedRun} {service service' : Service}
  {target : Target} {key : TargetKey} {cron : Str} {trigger : Trigger}

theorem Same.refl (key : TargetKey) (service : Service) : Same key service service :=
  ⟨fun _ _ => Iff.rfl, rfl, id⟩

theorem Same.awaits (h : Same key service service') {time : Int}
    (hawaits : Awaits service.jobs key time) : Awaits service'.jobs key time := by
  obtain ⟨job, hmem, hkey, hnext⟩ := hawaits
  exact ⟨job, (h.jobs job hkey).mpr hmem, hkey, hnext⟩

/-- What was handled stays handled. -/
theorem Same.handled (h : Same key service service') (hruns : RunsKept now runs runs') {time : Int}
    (hle : time ≤ now) (hhandled : Handled runs service key time) :
    Handled runs' service' key time := by
  rcases hhandled with hcovered | hfiring | hawaits
  · exact .inl (hruns.covered key time hle hcovered)
  · exact .inr (.inl (h.firing hfiring))
  · exact .inr (.inr (h.awaits hawaits))

/-- A step that leaves what a service has for a target keeps what its jobs are. -/
theorem JobsKept.same (hkept : JobsKept cal key cron trigger now runs service)
    (h : Same key service service') (hruns : RunsKept now runs runs') :
    JobsKept cal key cron trigger now runs' service' where
  jobs job hmem hkey := hkept.jobs job ((h.jobs job hkey).mp hmem) hkey
  known := by
    rintro ⟨job, hmem, hkey⟩
    rw [h.since]
    exact hkept.known ⟨job, (h.jobs job hkey).mp hmem, hkey⟩
  next hsince fire hfires hlt := h.awaits (hkept.next (h.since ▸ hsince) fire hfires hlt)
  since := by
    intro time htime
    obtain ⟨hle, hall⟩ := hkept.since time (h.since ▸ htime)
    exact ⟨hle, fun fire hfires hfrom hnow => h.handled hruns hnow (hall fire hfires hfrom hnow)⟩

/-- A step that leaves what a service has for a target, and its duty, keeps the invariant. -/
theorem Leads.same (hleads : Leads cal target cron trigger now runs service)
    (h : Same target.key service service') (hruns : RunsKept now runs runs')
    (hduty : service'.duty = service.duty) (hpending : service'.catchUpPending = service.catchUpPending) :
    Leads cal target cron trigger now runs' service' where
  kept := hleads.kept.same h hruns
  duty := by
    have hbefore := hleads.duty
    unfold DutyKept at hbefore ⊢
    rw [hduty, h.since]
    exact hbefore
  caught := by
    intro hcaught
    unfold CaughtUp at hcaught
    rw [hduty, hpending] at hcaught
    obtain ⟨hsince, hall⟩ := hleads.caught hcaught
    exact ⟨h.since ▸ hsince,
      fun fire hfires hfrom hnow => h.handled hruns hnow (hall fire hfires hfrom hnow)⟩

/-- The passing of time keeps the invariant: a fire that comes finds its job. -/
theorem Leads.wait (hleads : Leads cal target cron trigger now runs service) {later : Int}
    (hle : now ≤ later) : Leads cal target cron trigger later runs service where
  kept := by
    refine ⟨hleads.kept.jobs, hleads.kept.known,
      fun hsince fire hfires hlt => hleads.kept.next hsince fire hfires (by omega), ?_⟩
    intro time htime
    obtain ⟨hbefore, hall⟩ := hleads.kept.since time htime
    refine ⟨by omega, fun fire hfires hfrom _ => ?_⟩
    by_cases hnow : fire ≤ now
    · exact hall fire hfires hfrom hnow
    · exact .inr (.inr (hleads.kept.next (by simp [htime]) fire hfires (by omega)))
  duty := by
    have hbefore := hleads.duty
    unfold DutyKept at hbefore ⊢
    split at hbefore
    · trivial
    · exact hbefore.trans hle
    · exact ⟨hbefore.1.trans hle, hbefore.2⟩
    · exact hbefore
  caught := by
    intro hcaught
    obtain ⟨hsince, hall⟩ := hleads.caught hcaught
    refine ⟨hsince, fun fire hfires hfrom _ => ?_⟩
    by_cases hnow : fire ≤ now
    · exact hall fire hfires hfrom hnow
    · exact .inr (.inr (hleads.kept.next hsince fire hfires (by omega)))

/-- A service that has just become the leader. -/
theorem Leads.start (service : Service) (hidle : service.duty = .idle) :
    Leads cal target cron trigger now runs service.startLeaderDuties where
  kept := by
    refine ⟨?_, ?_, ?_, ?_⟩ <;> simp [Service.startLeaderDuties]
  duty := by
    simp [DutyKept, Service.startLeaderDuties, hidle]
  caught := by
    simp [CaughtUp, Service.startLeaderDuties, hidle]

end

/-! ## Reconciling -/

section
variable {cal : Calendar} {now : Int} {runs runs' : List QueuedRun} {service service' : Service}
  {target : Target} {key : TargetKey} {cron : Str} {trigger : Trigger}

/-- `desired_schedules` has the target, with its expression. -/
theorem desired_desiredSchedules {targets : Targets} (hget : targets.get target.key = some target)
    (hscheduled : Scheduled cal target cron trigger) :
    Desired target.key cron (desiredSchedules cal targets) := by
  constructor
  · refine List.mem_flatMap.mpr ⟨target.kind, ?_, List.mem_filterMap.mpr
      ⟨target, Table.mem_of_get hget, ?_⟩⟩
    · rcases hscheduled.kind with h | h <;> simp [h]
    · simp [hscheduled.expression, hscheduled.enabled, hscheduled.parsed]
  · intro schedule hmem hkey
    obtain ⟨kind, -, hin⟩ := List.mem_flatMap.mp hmem
    obtain ⟨other, hother, hfound⟩ := List.mem_filterMap.mp hin
    split at hfound
    · rename_i cron' hexpression
      split at hfound
      · cases hfound
        -- the row with the key is the target
        have hsame := Table.eq_of_key hother (Table.mem_of_get hget) hkey
        rw [hsame, hscheduled.expression] at hexpression
        exact (Option.some.inj hexpression).symm
      · cases hfound
    · cases hfound

/-- A job of the target is wanted. -/
theorem wanted_of_desired {desired : List Schedule} (hdesired : Desired key cron desired) {job : Job}
    (hkey : job.key = key) (hcron : job.cron = cron) : Service.wanted desired job = true :=
  List.any_eq_true.mpr ⟨⟨key, cron⟩, hdesired.1, by simp [hkey, hcron]⟩

/-- `reconcile` leaves the jobs of the target. -/
theorem same_unschedule {desired : List Schedule} (hdesired : Desired key cron desired)
    (hkept : JobsKept cal key cron trigger now runs service) :
    Same key service (service.unschedule desired) where
  jobs job hkey := by
    simp only [Service.unschedule, List.mem_filter]
    exact ⟨fun h => h.1, fun h => ⟨h, wanted_of_desired hdesired hkey (hkept.jobs job h hkey).1⟩⟩
  since := by
    simp only [Service.unschedule]
    apply if_neg
    intro hany
    obtain ⟨job, hmem, hunwanted⟩ := List.any_eq_true.mp hany
    simp only [Bool.and_eq_true, decide_eq_true_eq, Bool.not_eq_true'] at hunwanted
    have hwanted := wanted_of_desired hdesired hunwanted.1 (hkept.jobs job hmem hunwanted.1).1
    rw [hunwanted.2] at hwanted
    cases hwanted
  firing h := h

/-- The job of another target changes nothing for the target. -/
theorem same_addJob (cal : Calendar) (service : Service) {schedule : Schedule}
    (hne : schedule.key ≠ key) (time : Int) (failed : List TargetKey) :
    Same key service (Service.addJob cal time failed service schedule) := by
  unfold Service.addJob
  split
  · exact .refl key service
  · split
    · exact .refl key service
    · split
      · exact .refl key service
      · refine ⟨fun job hkey => ?_, by simp [Function.update_of_ne hne.symm], id⟩
        have hother : job.key ≠ schedule.key := fun h => hne (h.symm.trans hkey)
        simp only [List.mem_append, List.mem_singleton]
        constructor
        · rintro (hold | rfl)
          · exact hold
          · exact absurd rfl hother
        · exact .inl

/-- A handled fire stays so when a job is added. -/
theorem handled_addJob {time fire : Int} {failed : List TargetKey} {schedule : Schedule}
    (h : Handled runs service key fire) :
    Handled runs (Service.addJob cal time failed service schedule) key fire := by
  unfold Service.addJob
  split
  · exact h
  · split
    · exact h
    · split
      · exact h
      · rcases h with hcovered | hfiring | ⟨job, hmem, hjob⟩
        · exact .inl hcovered
        · exact .inr (.inl hfiring)
        · exact .inr (.inr ⟨job, List.mem_append_left _ hmem, hjob⟩)

/-- The job of the target is added, unless it is there. -/
theorem kept_addJob (hcal : cal.Documented) (hkept : JobsKept cal key cron trigger now runs service)
    (hparsed : cal.parse (some cron) = some trigger) {time : Int} (hle : time ≤ now)
    {failed : List TargetKey} (hfailed : key ∉ failed) :
    JobsKept cal key cron trigger now runs (Service.addJob cal time failed service ⟨key, cron⟩)
      ∧ (Service.addJob cal time failed service ⟨key, cron⟩).jobSince key ≠ none := by
  have hawaits : ∀ fire, cal.firesAt trigger fire → time ≤ fire →
      Awaits (service.jobs ++ [⟨key, cron, trigger, cal.nextFireTime trigger time⟩]) key fire := by
    intro fire hfires hfrom
    cases hnext : cal.nextFireTime trigger time with
    | none => exact absurd hfires (hcal.last _ _ hnext fire hfrom)
    | some first =>
      exact ⟨_, List.mem_append_right _ (List.mem_singleton_self _), rfl, first, rfl,
        (hcal.first _ _ _ hnext).2.2 fire hfrom hfires⟩
  unfold Service.addJob
  split
  · rename_i hany
    obtain ⟨job, hmem, hkey⟩ := List.any_eq_true.mp hany
    exact ⟨hkept, hkept.known ⟨job, hmem, by simpa using hkey⟩⟩
  · simp only [hparsed]
    refine ⟨⟨?_, ?_, ?_, ?_⟩, by simp⟩
    · intro job hmem hkey
      rcases List.mem_append.mp hmem with hold | hnew
      · exact hkept.jobs job hold hkey
      · rw [List.mem_singleton.mp hnew]
        exact ⟨rfl, rfl⟩
    · simp
    · intro _ fire hfires hlt
      exact hawaits fire hfires (by omega)
    · intro time' htime
      simp only [Function.update_self, Option.some.injEq] at htime
      subst htime
      exact ⟨hle, fun fire hfires hfrom _ => .inr (.inr (hawaits fire hfires hfrom))⟩

/-- Jobs are added for some schedules. -/
theorem kept_addJobs (hcal : cal.Documented) (hparsed : cal.parse (some cron) = some trigger)
    {time : Int} (hle : time ≤ now) {failed : List TargetKey} (hfailed : key ∉ failed)
    {desired : List Schedule} (hcron : ∀ schedule ∈ desired, schedule.key = key → schedule.cron = cron)
    (hkept : JobsKept cal key cron trigger now runs service) (hruns : AllTimed now runs) :
    JobsKept cal key cron trigger now runs (desired.foldl (Service.addJob cal time failed) service)
      ∧ (service.jobSince key ≠ none ∨ key ∈ desired.map Schedule.key →
        (desired.foldl (Service.addJob cal time failed) service).jobSince key ≠ none)
      ∧ ∀ fire, Handled runs service key fire →
        Handled runs (desired.foldl (Service.addJob cal time failed) service) key fire := by
  induction desired generalizing service with
  | nil => exact ⟨hkept, by simp, fun fire h => h⟩
  | cons schedule rest ih =>
    have hrest : ∀ other ∈ rest, other.key = key → other.cron = cron :=
      fun other hmem => hcron other (List.mem_cons_of_mem _ hmem)
    rw [List.foldl_cons]
    by_cases hkey : schedule.key = key
    · have hschedule : schedule = ⟨key, cron⟩ := by
        have hsame := hcron schedule List.mem_cons_self hkey
        cases schedule
        simp only at hkey hsame
        rw [hkey, hsame]
      subst hschedule
      obtain ⟨hnext, hsince⟩ := kept_addJob hcal hkept hparsed hle hfailed
      obtain ⟨hdone, hknown, hhandled⟩ := ih hrest hnext
      exact ⟨hdone, fun _ => hknown (.inl hsince),
        fun fire h => hhandled fire (handled_addJob h)⟩
    · have hsame := same_addJob cal service hkey time failed
      obtain ⟨hdone, hknown, hhandled⟩ := ih hrest (hkept.same hsame (.refl hruns))
      refine ⟨hdone, ?_, fun fire h => hhandled fire (handled_addJob h)⟩
      rintro (hsome | hmem)
      · exact hknown (.inl (by rwa [hsame.since]))
      · rw [List.map_cons, List.mem_cons] at hmem
        exact hknown (.inr (hmem.resolve_left fun h => hkey h.symm))

/-- Adding jobs leaves the callbacks and the pending `catch_up`. -/
theorem catchUpPending_addJobs (time : Int) (failed : List TargetKey) (desired : List Schedule) :
    (desired.foldl (Service.addJob cal time failed) service).catchUpPending = service.catchUpPending := by
  induction desired generalizing service with
  | nil => rfl
  | cons schedule rest ih =>
    rw [List.foldl_cons, ih]
    unfold Service.addJob
    split
    · rfl
    · split
      · rfl
      · split <;> rfl

/-- `reconcile` sets the jobs. -/
theorem Leads.setJobs (hcal : cal.Documented) (hscheduled : Scheduled cal target cron trigger)
    (hruns : AllTimed now runs) (hleads : Leads cal target cron trigger now runs service)
    {time : Int} {desired : List Schedule} (hduty : service.duty = .scheduling time desired)
    {failed : List TargetKey} (hfailed : target.key ∉ failed) :
    Leads cal target cron trigger now runs
      { service.setJobs cal time desired failed with
        duty := if (service.setJobs cal time desired failed).catchUpPending then
          .catchingUp desired else .idle } := by
  obtain ⟨hle, hdesired⟩ : time ≤ now ∧ Desired target.key cron desired := by
    simpa [DutyKept, hduty] using hleads.duty
  have hsame := same_unschedule hdesired hleads.kept
  obtain ⟨hkept, hknown, hhandled⟩ := kept_addJobs hcal hscheduled.parsed hle hfailed hdesired.2
    (hleads.kept.same hsame (.refl hruns)) hruns
  have hsince := hknown (.inr (List.mem_map.mpr ⟨_, hdesired.1, rfl⟩))
  refine ⟨hkept.same ⟨fun _ _ => Iff.rfl, rfl, id⟩ (.refl hruns), ?_, ?_⟩
  · cases hpending : (service.setJobs cal time desired failed).catchUpPending with
    | true => exact ⟨hsince, hdesired.2⟩
    | false => exact trivial
  · intro hcaught
    refine ⟨hsince, fun fire hfires hfrom hnow => ?_⟩
    -- it has caught up before: the target is among the schedules to catch up with
    have hbefore : CaughtUp service target.key := by
      rcases hcaught with hdone | ⟨rest, hrest, hnot⟩
      · left
        simpa [Service.setJobs, catchUpPending_addJobs, Service.unschedule] using hdone
      · simp only at hrest
        split at hrest
        · cases hrest
          exact absurd (List.mem_map.mpr ⟨_, hdesired.1, rfl⟩) hnot
        · cases hrest
    exact hhandled fire (hsame.handled (.refl hruns) hnow
      ((hleads.caught hbefore).2 fire hfires hfrom hnow))

/-- `catch_up` takes the next target. -/
theorem Leads.catchUp (hcal : cal.Documented) (hscheduled : Scheduled cal target cron trigger)
    (hruns : AllTimed now runs) (hleads : Leads cal target cron trigger now runs service)
    {targets : Targets} (hget : targets.get target.key = some target)
    {schedule : Schedule} {rest : List Schedule} (hduty : service.duty = .catchingUp (schedule :: rest))
    (id : String) {failed : Bool} (hfailed : failed = true → schedule.key ≠ target.key) :
    Leads cal target cron trigger now
      (match service.jobSince schedule.key with
        | some since =>
          if failed then runs
          else enqueueMissedFire cal targets runs schedule.key schedule.cron since id now
        | none => runs)
      { service with duty := .catchingUp rest } := by
  obtain ⟨hsince, hcrons⟩ : service.jobSince target.key ≠ none ∧ ∀ other ∈ schedule :: rest,
      other.key = target.key → other.cron = cron := by
    simpa [DutyKept, hduty] using hleads.duty
  have hsame : Same target.key service { service with duty := .catchingUp rest } :=
    ⟨fun _ _ => Iff.rfl, rfl, fun h => h⟩
  obtain ⟨runs', hruns', hkept⟩ : ∃ runs', (match service.jobSince schedule.key with
        | some since =>
          if failed then runs
          else enqueueMissedFire cal targets runs schedule.key schedule.cron since id now
        | none => runs) = runs' ∧ RunsKept now runs runs' := by
    refine ⟨_, rfl, ?_⟩
    split
    · split
      · exact .refl hruns
      · exact enqueueMissedFire_kept hruns cal targets _ _ _ id
    · exact .refl hruns
  rw [hruns']
  refine ⟨hleads.kept.same hsame hkept, ⟨hsince, fun other hmem =>
    hcrons other (List.mem_cons_of_mem _ hmem)⟩, fun hcaught => ⟨hsince, ?_⟩⟩
  intro fire hfires hfrom hnow
  by_cases hkey : schedule.key = target.key
  · -- the target itself: the fires before its job are covered now, the others were handled
    obtain ⟨since, hsome⟩ := Option.ne_none_iff_exists'.mp hsince
    have hcron := hcrons schedule List.mem_cons_self hkey
    have hok : failed = false := by
      cases failed
      · rfl
      · exact absurd hkey (hfailed rfl)
    rw [hkey, hsome, hcron, hok] at hruns'
    simp only [Bool.false_eq_true, if_false] at hruns'
    by_cases hbefore : fire < since
    · left
      rw [← hruns']
      exact missedFire_covers hcal hruns hget hscheduled since id hfires hfrom hbefore
    · exact hsame.handled hkept hnow
        ((hleads.kept.since since hsome).2 fire hfires (by omega) hnow)
  · have hbefore : CaughtUp service target.key := by
      rcases hcaught with hdone | ⟨rest', hrest, hnot⟩
      · exact .inl hdone
      · simp only [Duty.catchingUp.injEq] at hrest
        subst hrest
        refine .inr ⟨_, hduty, ?_⟩
        rw [List.map_cons, List.mem_cons]
        rintro (h | h)
        · exact hkey h.symm
        · exact hnot h
    exact hsame.handled hkept hnow ((hleads.caught hbefore).2 fire hfires hfrom hnow)

/-- `catch_up` ends. -/
theorem Leads.finish (hruns : AllTimed now runs) (hleads : Leads cal target cron trigger now runs service)
    (hduty : service.duty = .catchingUp []) :
    Leads cal target cron trigger now runs { service with duty := .idle, catchUpPending := false } where
  kept := hleads.kept.same ⟨fun _ _ => Iff.rfl, rfl, id⟩ (.refl hruns)
  duty := trivial
  caught _ := hleads.caught (.inr ⟨[], hduty, by simp⟩)

/-- A duty that only reads, or raises. -/
theorem Leads.quiet (hruns : AllTimed now runs) (hleads : Leads cal target cron trigger now runs service)
    {duty : Duty} (hduty : DutyKept target.key cron now { service with duty })
    (hcatching : ∀ rest, duty ≠ .catchingUp rest) :
    Leads cal target cron trigger now runs { service with duty } where
  kept := hleads.kept.same ⟨fun _ _ => Iff.rfl, rfl, id⟩ (.refl hruns)
  duty := hduty
  caught := by
    rintro (hdone | ⟨rest, hrest, -⟩)
    · exact hleads.caught (.inl hdone)
    · exact absurd hrest (hcatching rest)

/-! ## Firing -/

/-- The jobs of other targets stay when a job is advanced. -/
theorem mem_advance_of_ne {jobs : List Job} {i : Nat} {job other : Job} (hget : jobs[i]? = some job)
    (hne : other.key ≠ job.key) :
    other ∈ Service.advance cal now jobs i job ↔ other ∈ jobs := by
  unfold Service.advance
  split
  · constructor
    · intro hmem
      rcases List.mem_or_eq_of_mem_set hmem with hold | rfl
      · exact hold
      · exact absurd rfl hne
    · intro hmem
      obtain ⟨j, hj⟩ := List.mem_iff_getElem?.mp hmem
      have hij : i ≠ j := by
        rintro rfl
        rw [hget] at hj
        cases hj
        exact hne rfl
      exact List.mem_of_getElem? ((List.getElem?_set_ne hij).trans hj)
  · rw [List.mem_eraseIdx_iff_getElem?]
    constructor
    · rintro ⟨j, -, hj⟩
      exact List.mem_of_getElem? hj
    · intro hmem
      obtain ⟨j, hj⟩ := List.mem_iff_getElem?.mp hmem
      refine ⟨j, ?_, hj⟩
      rintro rfl
      rw [hget] at hj
      cases hj
      exact hne rfl

/-- A job that is advanced keeps what it is. -/
theorem mem_advance {jobs : List Job} {i : Nat} {job other : Job}
    (h : other ∈ Service.advance cal now jobs i job) :
    other ∈ jobs ∨ other.key = job.key ∧ other.cron = job.cron ∧ other.trigger = job.trigger := by
  unfold Service.advance at h
  split at h
  · rcases List.mem_or_eq_of_mem_set h with hold | rfl
    · exact .inl hold
    · exact .inr ⟨rfl, rfl, rfl⟩
  · exact .inl (List.mem_of_mem_eraseIdx h)

/-- APScheduler finds a job due. -/
theorem Leads.fire (hcal : cal.Documented) (hruns : AllTimed now runs)
    (hleads : Leads cal target cron trigger now runs service) {i : Nat} {job : Job}
    (hget : service.jobs[i]? = some job) {dropped : Bool}
    (hdropped : dropped = true → job.key ≠ target.key) :
    Leads cal target cron trigger now runs
      { service with
        jobs := Service.advance cal now service.jobs i job
        firing := if dropped then service.firing else service.firing ++ [job.key] } := by
  by_cases hkey : job.key = target.key
  · have hok : dropped = false := by
      cases dropped
      · rfl
      · exact absurd hkey (hdropped rfl)
    have hjob := hleads.kept.jobs job (List.mem_of_getElem? hget) hkey
    -- the callback that was started handles every fire up to now
    have hfiring : ∀ time, Handled runs { service with
        jobs := Service.advance cal now service.jobs i job
        firing := if dropped then service.firing else service.firing ++ [job.key] } target.key time :=
      fun time => .inr (.inl (by simp [hok, hkey]))
    refine ⟨⟨?_, ?_, ?_, ?_⟩, hleads.duty, fun hcaught =>
      ⟨(hleads.caught hcaught).1, fun fire _ _ _ => hfiring fire⟩⟩
    · intro other hmem hother
      rcases mem_advance hmem with hold | ⟨-, hcron, htrigger⟩
      · exact hleads.kept.jobs other hold hother
      · rw [hcron, htrigger]
        exact hjob
    · intro _
      exact hleads.kept.known ⟨job, List.mem_of_getElem? hget, hkey⟩
    · intro _ fire hfires hlt
      unfold Service.advance
      rw [hjob.2]
      cases hnext : cal.nextFireTime trigger (now + 1) with
      | none => exact absurd hfires (hcal.last _ _ hnext fire (by omega))
      | some next =>
        have hlen := (List.getElem?_eq_some_iff.mp hget).1
        exact ⟨_, List.mem_of_getElem? (List.getElem?_set_self hlen), hkey, next, rfl,
          (hcal.first _ _ _ hnext).2.2 fire (by omega) hfires⟩
    · intro time htime
      exact ⟨(hleads.kept.since time htime).1, fun fire _ _ _ => hfiring fire⟩
  · refine hleads.same ⟨fun other hother => ?_, rfl, fun h => ?_⟩ (.refl hruns) rfl rfl
    · exact mem_advance_of_ne hget (fun h => hkey (h.symm.trans hother))
    · simp only
      split
      · exact h
      · exact List.mem_append_left _ h

/-- A callback runs. -/
theorem Leads.cronFire (hscheduled : Scheduled cal target cron trigger) (hruns : AllTimed now runs)
    (hleads : Leads cal target cron trigger now runs service) {targets : Targets}
    (hget : targets.get target.key = some target) {i : Nat} {fired : TargetKey}
    (hfired : service.firing[i]? = some fired) (id : String) {failed : Bool}
    (hfailed : failed = true → fired ≠ target.key) :
    Leads cal target cron trigger now
      (if failed then runs else enqueueScheduled targets runs fired id now)
      { service with firing := service.firing.eraseIdx i } := by
  have hkept : RunsKept now runs
      (if failed then runs else enqueueScheduled targets runs fired id now) := by
    split
    · exact .refl hruns
    · exact enqueueScheduled_kept hruns targets fired id
  by_cases hkey : fired = target.key
  · have hok : failed = false := by
      cases failed
      · rfl
      · exact absurd hkey (hfailed rfl)
    have hcovered : ∀ time, Handled
        (if failed then runs else enqueueScheduled targets runs fired id now)
        { service with firing := service.firing.eraseIdx i } target.key time := by
      intro time
      left
      rw [hok, hkey]
      exact enqueueScheduled_covers hruns hget hscheduled.enabled id time
    refine ⟨⟨hleads.kept.jobs, hleads.kept.known, hleads.kept.next, fun time htime =>
      ⟨(hleads.kept.since time htime).1, fun fire _ _ _ => hcovered fire⟩⟩, hleads.duty,
      fun hcaught => ⟨(hleads.caught hcaught).1, fun fire _ _ _ => hcovered fire⟩⟩
  · refine hleads.same ⟨fun _ _ => Iff.rfl, rfl, fun hmem => ?_⟩ hkept rfl rfl
    rw [List.mem_eraseIdx_iff_getElem?]
    obtain ⟨j, hj⟩ := List.mem_iff_getElem?.mp hmem
    refine ⟨j, ?_, hj⟩
    rintro rfl
    rw [hfired] at hj
    exact hkey (Option.some.inj hj)

end

/-! ## Runs of the system -/

/-- What a step does not do: it does not change the target, and the duties of the process do not fail
for it. Anything may happen to other targets and in other processes. -/
def Undisturbed (target : Target) (p : Nat) (s : System) : Event → Prop
  | .setTargets targets => targets.get target.key = some target
  | .setJobs q failed => q = p → target.key ∉ failed
  | .catchUp q _ failed => q = p → failed = true → ∀ schedule rest,
      (s.services p).duty = .catchingUp (schedule :: rest) → schedule.key ≠ target.key
  | .fire q i dropped => q = p → dropped = true → ∀ job, (s.services p).jobs[i]? = some job →
      job.key ≠ target.key
  | .cronFire q i _ failed => q = p → failed = true → ∀ key, (s.services p).firing[i]? = some key →
      key ≠ target.key
  | _ => True

/-- The invariant of a system, for a target and a process. -/
structure Kept (cal : Calendar) (target : Target) (cron : Str) (trigger : Trigger) (p : Nat)
    (s : System) : Prop where
  timed : AllTimed s.now s.runs
  found : s.targets.get target.key = some target
  leads : (s.services p).leading = true →
    Leads cal target cron trigger s.now s.runs (s.services p)

section
variable {cal : Calendar} {target : Target} {cron : Str} {trigger : Trigger} {p : Nat} {s : System}

/-- Every event but the passing of time keeps the clock, and the runs keep what they cover. -/
theorem runs_step (cal : Calendar) (h : AllTimed s.now s.runs) {event : Event} (hwait : ∀ time, event ≠ .wait time) :
    (s.step cal event).now = s.now ∧ RunsKept s.now s.runs (s.step cal event).runs := by
  have hsame : s.now = s.now ∧ RunsKept s.now s.runs s.runs := ⟨rfl, .refl h⟩
  cases event with
  | wait time => exact absurd rfl (hwait time)
  | setTargets targets => exact hsame
  | enqueue key id readAt =>
    simp only [System.step]
    split
    · exact ⟨rfl, enqueue_kept h key id ‹_›⟩
    · exact hsame
  | changeRun i readAt change =>
    simp only [System.step]
    split
    · split
      · split
        · exact ⟨rfl, changeRun_kept h ‹_› ‹_› ‹_›⟩
        · exact hsame
      · exact hsame
    · exact hsame
  | elect q =>
    simp only [System.step]
    split <;> exact hsame
  | loseSession => exact hsame
  | stepDown q => exact hsame
  | crash q => exact hsame
  | reconcile q =>
    simp only [System.step]
    split <;> exact hsame
  | readSchedules q =>
    simp only [System.step]
    split <;> exact hsame
  | setJobs q failed =>
    simp only [System.step]
    split
    · split <;> exact hsame
    · exact hsame
  | catchUp q id failed =>
    simp only [System.step]
    split
    · exact hsame
    · refine ⟨rfl, ?_⟩
      split
      · split
        · exact .refl h
        · exact enqueueMissedFire_kept h cal _ _ _ _ id
      · exact .refl h
    · exact hsame
  | abort q => exact hsame
  | fire q i dropped =>
    simp only [System.step]
    split
    · split <;> exact hsame
    · exact hsame
  | cronFire q i id failed =>
    simp only [System.step]
    split
    · refine ⟨rfl, ?_⟩
      split
      · exact .refl h
      · exact enqueueScheduled_kept h _ _ id
    · exact hsame

/-- Every event keeps the times of the runs. -/
theorem timed_step (cal : Calendar) (h : AllTimed s.now s.runs) (event : Event) :
    AllTimed (s.step cal event).now (s.step cal event).runs := by
  by_cases hwait : ∃ time, event = .wait time
  · obtain ⟨time, rfl⟩ := hwait
    exact fun queued hmem => (h queued hmem).mono (le_max_left _ _)
  · have hstep := runs_step cal h (fun time heq => hwait ⟨time, heq⟩)
    rw [hstep.1]
    exact hstep.2.timed

/-- An event that leaves the process keeps the invariant. -/
theorem Kept.other (h : Kept cal target cron trigger p s) {event : Event}
    (hwait : ∀ time, event ≠ .wait time)
    (hfound : (s.step cal event).targets.get target.key = some target)
    (hservice : (s.step cal event).services p = s.services p) :
    Kept cal target cron trigger p (s.step cal event) := by
  obtain ⟨hnow, hruns⟩ := runs_step cal h.timed hwait
  refine ⟨timed_step cal h.timed event, hfound, fun hleading => ?_⟩
  rw [hnow, hservice]
  rw [hservice] at hleading
  exact (h.leads hleading).same (.refl _ _) hruns rfl rfl

/-- Another service is left. -/
theorem services_setService_of_ne (service : Service) {q : Nat} (hq : q ≠ p) :
    (s.setService q service).services p = s.services p :=
  Function.update_of_ne hq.symm _ _

theorem services_setService_self (service : Service) :
    (s.setService p service).services p = service :=
  Function.update_self _ _ _

/-- The process that takes a step, if it is the step of one. -/
def processOf : Event → Option Nat
  | .elect q | .stepDown q | .crash q | .reconcile q | .readSchedules q | .abort q => some q
  | .setJobs q _ | .catchUp q _ _ | .fire q _ _ | .cronFire q _ _ _ => some q
  | .wait _ | .setTargets _ | .enqueue .. | .changeRun .. | .loseSession => none

/-- A step that is not the process's own leaves the process. -/
theorem services_step_of_ne {event : Event} (hprocess : processOf event ≠ some p) :
    (s.step cal event).services p = s.services p := by
  have hne : ∀ {q : Nat}, some q ≠ some p → q ≠ p := fun h heq => h (congrArg some heq)
  cases event with
  | wait | setTargets | loseSession => rfl
  | enqueue =>
    simp only [System.step]
    split <;> rfl
  | changeRun =>
    simp only [System.step]
    repeat' split
    all_goals rfl
  | stepDown | crash | abort => exact services_setService_of_ne _ (hne hprocess)
  | elect | reconcile | readSchedules | setJobs | catchUp | fire | cronFire =>
    simp only [System.step]
    repeat' split
    all_goals first
      | rfl
      | exact services_setService_of_ne _ (hne hprocess)

/-- Only an administrator changes the targets. -/
theorem targets_step {event : Event} (htargets : ∀ targets, event ≠ .setTargets targets) :
    (s.step cal event).targets = s.targets := by
  cases event with
  | setTargets targets => exact absurd rfl (htargets targets)
  | wait | stepDown | crash | abort | loseSession => rfl
  | elect | reconcile | readSchedules | setJobs | catchUp | fire | cronFire | enqueue | changeRun =>
    simp only [System.step]
    repeat' split
    all_goals rfl

/-- A step that is not the process's own keeps the invariant. -/
theorem kept_of_other (h : Kept cal target cron trigger p s) {event : Event}
    (hprocess : processOf event ≠ some p) (hok : Undisturbed target p s event) :
    Kept cal target cron trigger p (s.step cal event) := by
  cases event with
  | wait time =>
    exact ⟨timed_step cal h.timed _, h.found, fun hleading => (h.leads hleading).wait (le_max_left _ _)⟩
  | setTargets targets => exact h.other (by simp) hok rfl
  | enqueue | changeRun | elect | loseSession | stepDown | crash | reconcile | readSchedules
  | setJobs | catchUp | abort | fire | cronFire =>
    refine h.other (by simp) ?_ (services_step_of_ne hprocess)
    rw [targets_step (by simp)]
    exact h.found

/-- The service of the process becomes another one. -/
theorem Kept.set (h : Kept cal target cron trigger p s) (service : Service)
    (hleads : service.leading = true → Leads cal target cron trigger s.now s.runs service) :
    Kept cal target cron trigger p (s.setService p service) := by
  refine ⟨h.timed, h.found, fun hleading => ?_⟩
  rw [services_setService_self] at hleading ⊢
  exact hleads hleading

/-- The process becomes the leader. -/
theorem kept_elect (h : Kept cal target cron trigger p s) :
    Kept cal target cron trigger p (s.step cal (.elect p)) := by
  simp only [System.step]
  split
  · rename_i hduty
    have hkept := h.set (s.services p).startLeaderDuties (fun _ => Leads.start (s.services p) hduty)
    exact ⟨hkept.timed, hkept.found, hkept.leads⟩
  · exact h

/-- The process begins to reconcile. -/
theorem kept_reconcile (h : Kept cal target cron trigger p s) :
    Kept cal target cron trigger p (s.step cal (.reconcile p)) := by
  simp only [System.step]
  split
  · rename_i hleading _
    exact h.set _ fun _ => (h.leads hleading).quiet h.timed le_rfl (by simp)
  · exact h

/-- The process reads the schedules. -/
theorem kept_readSchedules (hscheduled : Scheduled cal target cron trigger)
    (h : Kept cal target cron trigger p s) :
    Kept cal target cron trigger p (s.step cal (.readSchedules p)) := by
  simp only [System.step]
  split
  · rename_i now hduty
    refine h.set _ fun hleading => ?_
    have hle : now ≤ s.now := by simpa [DutyKept, hduty] using (h.leads hleading).duty
    exact (h.leads hleading).quiet h.timed ⟨hle, desired_desiredSchedules h.found hscheduled⟩ (by simp)
  · exact h

/-- The process sets its jobs, and that of the target too. -/
theorem kept_setJobs (hcal : cal.Documented) (hscheduled : Scheduled cal target cron trigger)
    (h : Kept cal target cron trigger p s) {failed : List TargetKey} (hok : target.key ∉ failed) :
    Kept cal target cron trigger p (s.step cal (.setJobs p failed)) := by
  simp only [System.step]
  split
  · rename_i now desired hduty
    split
    · rename_i hleading
      exact h.set _ fun _ => (h.leads hleading).setJobs hcal hscheduled h.timed hduty hok
    · rename_i hnot
      exact h.set _ fun hleading => absurd hleading hnot
  · exact h

/-- The process catches up with a schedule, and does not fail for the target. -/
theorem kept_catchUp (hcal : cal.Documented) (hscheduled : Scheduled cal target cron trigger)
    (h : Kept cal target cron trigger p s) (id : String) {failed : Bool}
    (hok : failed = true → ∀ schedule rest,
      (s.services p).duty = .catchingUp (schedule :: rest) → schedule.key ≠ target.key) :
    Kept cal target cron trigger p (s.step cal (.catchUp p id failed)) := by
  have htimed := timed_step cal h.timed (.catchUp p id failed)
  simp only [System.step] at htimed ⊢
  split
  · rename_i hduty
    exact h.set _ fun hleading => (h.leads hleading).finish h.timed hduty
  · rename_i schedule rest hduty
    simp only [hduty] at htimed
    refine ⟨htimed, h.found, fun hleading => ?_⟩
    simp only [services_setService_self] at hleading ⊢
    exact (h.leads hleading).catchUp hcal hscheduled h.timed h.found hduty id
      (fun hfailed => hok hfailed schedule rest hduty)
  · exact h

/-- A job of the process is due, and its fire is not dropped where the job is the target's. -/
theorem kept_fire (hcal : cal.Documented) (h : Kept cal target cron trigger p s) {i : Nat}
    {dropped : Bool} (hok : dropped = true → ∀ job, (s.services p).jobs[i]? = some job →
      job.key ≠ target.key) :
    Kept cal target cron trigger p (s.step cal (.fire p i dropped)) := by
  simp only [System.step]
  split
  · rename_i job hget
    split
    · exact h.set _ fun hleading => (h.leads hleading).fire hcal h.timed hget
        (fun hdropped => hok hdropped job hget)
    · exact h
  · exact h

/-- A callback of the process runs, and does not fail for the target. -/
theorem kept_cronFire (hscheduled : Scheduled cal target cron trigger)
    (h : Kept cal target cron trigger p s) {i : Nat} (id : String) {failed : Bool}
    (hok : failed = true → ∀ key, (s.services p).firing[i]? = some key → key ≠ target.key) :
    Kept cal target cron trigger p (s.step cal (.cronFire p i id failed)) := by
  have htimed := timed_step cal h.timed (.cronFire p i id failed)
  simp only [System.step] at htimed ⊢
  split
  · rename_i fired hfired
    simp only [hfired] at htimed
    refine ⟨htimed, h.found, fun hleading => ?_⟩
    simp only [services_setService_self] at hleading ⊢
    exact (h.leads hleading).cronFire hscheduled h.timed h.found hfired id
      (fun hfailed => hok hfailed fired hfired)
  · exact h

/-- Every event that does not disturb the target keeps the invariant. -/
theorem kept_step (hcal : cal.Documented) (hscheduled : Scheduled cal target cron trigger)
    (event : Event) (h : Kept cal target cron trigger p s)
    (hok : Undisturbed target p s event) : Kept cal target cron trigger p (s.step cal event) := by
  by_cases hprocess : processOf event = some p
  · -- a step of the process itself: one lemma for each of its duties
    cases event with
    | wait | setTargets | enqueue | changeRun | loseSession => cases hprocess
    | elect q =>
      obtain rfl := Option.some.inj hprocess
      exact kept_elect h
    | stepDown q =>
      obtain rfl := Option.some.inj hprocess
      have hkept := h.set (s.services q).stepDown
        (fun hleading => absurd hleading (by simp [Service.stepDown]))
      exact ⟨hkept.timed, hkept.found, hkept.leads⟩
    | crash q =>
      obtain rfl := Option.some.inj hprocess
      have hkept := h.set .new (fun hleading => absurd hleading (by simp [Service.new]))
      exact ⟨hkept.timed, hkept.found, hkept.leads⟩
    | reconcile q =>
      obtain rfl := Option.some.inj hprocess
      exact kept_reconcile h
    | readSchedules q =>
      obtain rfl := Option.some.inj hprocess
      exact kept_readSchedules hscheduled h
    | setJobs q failed =>
      obtain rfl := Option.some.inj hprocess
      exact kept_setJobs hcal hscheduled h (hok rfl)
    | catchUp q id failed =>
      obtain rfl := Option.some.inj hprocess
      exact kept_catchUp hcal hscheduled h id (hok rfl)
    | abort q =>
      obtain rfl := Option.some.inj hprocess
      exact h.set _ fun hleading => (h.leads hleading).quiet h.timed trivial (by simp)
    | fire q i dropped =>
      obtain rfl := Option.some.inj hprocess
      exact kept_fire hcal h (hok rfl)
    | cronFire q i id failed =>
      obtain rfl := Option.some.inj hprocess
      exact kept_cronFire hscheduled h id (hok rfl)
  · exact kept_of_other h hprocess hok

/-- Along every run, the times of the runs are kept. -/
theorem timed_run {now : Int} {targets : Targets} (events : List Event) :
    AllTimed ((System.start now targets).run cal events).now
      ((System.start now targets).run cal events).runs :=
  run_invariant (P := fun s : System => AllTimed s.now s.runs) (fun _ event h _ => timed_step cal h event)
    (along_of_forall (fun _ _ => trivial) _ events) (fun _ hmem => by cases hmem)

end

/-- Take any run of the system up to a state in which a process does not lead, and an enabled target
with a valid schedule, which then stays as it is and for which no step of the process fails. Whenever
the process is a leader that has caught up, with no job of the target due and no callback of it on
the way, every fire of the schedule since the target was created is covered by a run. -/
theorem fires_covered (cal : Calendar) (hcal : cal.Documented) (now : Int) (targets : Targets)
    (before after : List Event) (p : Nat) (target : Target) (cron : Str) (trigger : Trigger)
    (hscheduled : Scheduled cal target cron trigger)
    (hfound : ((System.start now targets).run cal before).targets.get target.key = some target)
    (hidle : (((System.start now targets).run cal before).services p).leading = false)
    (hrun : Along (System.step cal) (Undisturbed target p)
      ((System.start now targets).run cal before) after)
    (s : System) (hs : s = ((System.start now targets).run cal before).run cal after)
    (hleading : (s.services p).leading = true) (hcaught : (s.services p).catchUpPending = false)
    (hfiring : target.key ∉ (s.services p).firing)
    (hdue : ∀ job ∈ (s.services p).jobs, job.key = target.key →
      ∀ next, job.nextRun = some next → s.now < next)
    (fire : Int) (hfires : cal.firesAt trigger fire) (hcreated : target.createdAt < fire)
    (hnow : fire ≤ s.now) : Covered s.runs target.key fire := by
  have hkept : Kept cal target cron trigger p s := by
    rw [hs]
    refine run_invariant (P := Kept cal target cron trigger p)
      (fun s event h hok => kept_step hcal hscheduled event h hok) hrun ⟨timed_run before, hfound, ?_⟩
    intro hleading
    rw [hidle] at hleading
    cases hleading
  rcases ((hkept.leads hleading).caught (.inl hcaught)).2 fire hfires hcreated hnow
    with hcovered | hcallback | ⟨job, hmem, hkey, next, hnext, hle⟩
  · exact hcovered
  · exact absurd hcallback hfiring
  · have := hdue job hmem hkey next hnext
    omega

/-- A calendar for the schedule of every minute. -/
def everyMinute : Calendar where
  tables := .ascii
  aps := ⟨Int, fun _ => 0, fun _ _ => true, fun _ _ _ => true⟩
  minuteAt time := time / 60000000
  nextFireTime _ time := some ((time + 59999999) / 60000000 * 60000000)

theorem everyMinute_fires {trigger : Trigger} {time : Int} (h : everyMinute.firesAt trigger time) :
    time % 60000000 = 0 := h.1

theorem everyMinute_documented : everyMinute.Documented where
  first := by
    intro trigger time fire hfire
    simp only [everyMinute, Option.some.injEq] at hfire
    refine ⟨by omega, ⟨by omega, ?_⟩, fun other hle hother => ?_⟩
    · cases trigger <;> simp [everyMinute, APScheduler.fires, APScheduler.cronFires]
    · have := everyMinute_fires hother
      omega
  last := by
    intro trigger time hnone
    simp [everyMinute] at hnone

/-- A collector that runs every minute. -/
def sampleTarget : Target := ⟨.collector, "c", true, some (str "* * * * *"), 0⟩

/-- The table with this collector. -/
def sampleTargets : Targets := ⟨[sampleTarget], List.nodup_singleton _⟩

/-- The trigger of its schedule. -/
def sampleTrigger : Trigger :=
  .cron [(.minute, str "*"), (.hour, str "*"), (.day, str "*"), (.month, str "*"),
    (.dayOfWeek, str "*")]

/-- A process becomes the leader and sets its jobs. -/
def takeOver (p : Nat) (id : String) : List Event :=
  [.elect p, .reconcile p, .readSchedules p, .setJobs p [], .catchUp p id false, .catchUp p id false]

/-- The first leader stops, and the second one takes over after a minute and a half. -/
def handOver : List Event := .crash 0 :: .wait 90000000 :: takeOver 1 "r"

/-- The fire after one minute, when nobody led, is covered once the second process has taken over. -/
theorem missed_fire_covered :
    Covered (((System.start 0 sampleTargets).run everyMinute (takeOver 0 "q")).run everyMinute
      handOver).runs sampleTarget.key 60000000 := by
  have hparsed : everyMinute.parse (some (str "* * * * *")) = some sampleTrigger := by
    decide +kernel
  have hnext : ((((System.start 0 sampleTargets).run everyMinute (takeOver 0 "q")).run everyMinute
      handOver).services 1).jobs.map Job.nextRun = [some 120000000] := by decide +kernel
  refine fires_covered everyMinute everyMinute_documented 0 sampleTargets (takeOver 0 "q") handOver 1
    sampleTarget (str "* * * * *") sampleTrigger ⟨.inl rfl, rfl, rfl, hparsed⟩ (by decide +kernel)
    (by decide +kernel) ?_ _ rfl (by decide +kernel) (by decide +kernel) (by decide +kernel) ?_
    60000000 ⟨by decide, ?_⟩ (by decide) (by decide +kernel)
  · refine ⟨trivial, trivial, trivial, trivial, trivial, fun _ => List.not_mem_nil, ?_, ?_, trivial⟩
    · intro _ hfailed
      cases hfailed
    · intro _ hfailed
      cases hfailed
  · intro job hmem _ next hjob
    have hin : job.nextRun ∈ [some (120000000 : Int)] := hnext ▸ List.mem_map_of_mem hmem
    rw [hjob] at hin
    simp only [List.mem_singleton, Option.some.injEq] at hin
    subst hin
    decide +kernel
  · decide +kernel

end TrustPortal.Proofs.Scheduler.Leader
