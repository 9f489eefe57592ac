import TrustPortal.Scheduler.System

/-!
# `TrustPortal.Proofs.Scheduler.Threads`: what each thread holds

`PhaseOk` relates a thread's phase to the tables: which row version the thread has written and
not committed, and, for a worker that claimed a run, that the run carries the worker's token.
`Owned` says this of every thread, and that no two threads claimed one run. `next_step` is the
one case analysis over the statements: each keeps `Owned` (`Next.owned`), leaves alone what
the other threads hold, and changes a committed run only as `Follows` allows. `owned_run` is
the invariant over a run from a restart.
-/

set_option autoImplicit false

namespace TrustPortal.Proofs.Scheduler

open TrustPortal.GitSources
open TrustPortal.Scheduler
open TrustPortal.Sql

/-! ## What a run may become -/

/-- What one write makes of a run: the status stays, a queued run is claimed, or a running run
ends. The token only changes with the claim. -/
def Follows (run run' : Run) : Prop :=
  run'.key = run.key ∧ run'.target = run.target ∧
  ((run'.status = run.status ∧ run'.executorToken = run.executorToken) ∨
    (run.status = .queued ∧ run'.status = .running) ∨
    (run.status = .running ∧ (∃ outcome, run'.status = .ended outcome) ∧
      run'.executorToken = run.executorToken))

theorem Follows.refl (run : Run) : Follows run run := ⟨rfl, rfl, .inl ⟨rfl, rfl⟩⟩

section
variable {run run' : Run}

theorem claim_follows {token : String} {now : Int} (h : run.claim token now = some run') :
    Follows run run' := by
  unfold Run.claim at h
  split at h
  · cases h
    exact ⟨rfl, rfl, .inr (.inl ⟨‹_›, rfl⟩)⟩
  · cases h

theorem heartbeat_follows {token : String} {now : Int}
    (h : run.heartbeat token now = some run') : Follows run run' := by
  unfold Run.heartbeat at h
  split at h
  · cases h
    exact ⟨rfl, rfl, .inl ⟨rfl, rfl⟩⟩
  · cases h

theorem record_follows {token : Option String} {result : Result}
    (h : run.record token result = some run') : Follows run run' := by
  unfold Run.record at h
  split at h
  · rename_i hrunning
    cases h
    exact ⟨rfl, rfl, .inr (.inr ⟨hrunning.1, ⟨_, rfl⟩, rfl⟩)⟩
  · cases h

/-- The outcome of a run is recorded while the run is running. -/
theorem record_ends {token : Option String} {result : Result}
    (h : run.record token result = some run') :
    run.status = .running ∧ run'.status = .ended result.outcome := by
  unfold Run.record at h
  split at h
  · rename_i hrunning
    cases h
    exact ⟨hrunning.1, rfl⟩
  · cases h

theorem fail_follows {token message : String} {now : Int}
    (h : run.fail token message now = some run') : Follows run run' := by
  unfold Run.fail at h
  split at h
  · rename_i hrunning
    cases h
    exact ⟨rfl, rfl, .inr (.inr ⟨hrunning.1, ⟨_, rfl⟩, rfl⟩)⟩
  · cases h

theorem reap_follows {cutoff now : Int} (h : run.reap cutoff now = some run') :
    Follows run run' := by
  unfold Run.reap at h
  split at h
  · rename_i hstale
    cases h
    have hrunning : run.status = .running := by
      unfold Run.isStale at hstale
      simp at hstale
      exact hstale.1
    exact ⟨rfl, rfl, .inr (.inr ⟨hrunning, ⟨_, rfl⟩, rfl⟩)⟩
  · cases h

theorem withCommits_follows (run : Run) (fromCommit : Option String) (head : String) :
    Follows run (run.withCommits fromCommit head) :=
  ⟨rfl, rfl, .inl ⟨rfl, rfl⟩⟩

end

/-! ## Phases -/

/-- The claim of a worker whose claim is committed. -/
def holder : Phase → Option Claim
  | .entering claim | .loading claim _ _ | .leaving claim _ | .failing claim => some claim
  | .working work | .started work | .recording work _ _ | .recorded work _ => some work.claim
  | _ => none

/-- The claim of a worker that made one, committed or not. -/
def claimant : Phase → Option Claim
  | .claimed claim => some claim
  | phase => holder phase

/-- What the execution of a run read: the run's token and, for a git sync, its source's id. -/
def reads : Phase → Option (Option String × Option String)
  | .loading claim token target => some (token, if claim.run.1 = .gitSync then some target else none)
  | .working work | .started work | .recording work _ _ | .recorded work _ =>
    some (work.token, work.source.map GitSource.id)
  | _ => none

/-- The run version that a thread has written in its phase. -/
def WritesRun (get : RunId → Option Run) (written : Option Run) : Phase → Prop
  | .inserted => ∃ run, written = some run ∧ run.status = .queued ∧ get run.key = none
  | .claimed claim => ∃ run run' now, get claim.run = some run ∧
      run.claim claim.token now = some run' ∧ written = some run'
  | .started work => ∃ run fromCommit head, get work.claim.run = some run ∧
      written = some (run.withCommits fromCommit head)
  | .recording work result true | .recorded work result => ∃ run run',
      get work.claim.run = some run ∧ run.record work.token result = some run' ∧
      written = some run'
  | .failing claim => written = none ∨ ∃ run run' message now, get claim.run = some run ∧
      run.fail claim.token message now = some run' ∧ written = some run'
  | .closed _ _ => written = none ∨ ∃ run run' cutoff now, get run.key = some run ∧
      run.reap cutoff now = some run' ∧ written = some run'
  | _ => written = none

/-- The source version that a thread has written in its phase. -/
def WritesSource (get : String → Option GitSource) (written : Option GitSource) : Phase → Prop
  | .recorded work result => ∃ snapshot, work.source = some snapshot ∧
      ((written = none ∧ get snapshot.id = none) ∨ ∃ source, get snapshot.id = some source ∧
        written =
          some (recordSync source snapshot.lastSyncedCommit result (work.recordedHead result)))
  | .flushed => ∃ loaded edited current, get loaded.id = some current ∧
      written = some (flushSource loaded edited current)
  | _ => written = none

/-- What the execution of a run read is the run's token and, for a git sync, its target. -/
def ReadsRun (claim : Claim) (run : Run) (token target : Option String) : Prop :=
  token = some claim.token ∧
    ∀ id, target = some id → claim.run.1 = .gitSync ∧ run.target = id

/-- A worker's run carries its token and is no longer queued. -/
def HoldsRun (get : RunId → Option Run) (phase : Phase) : Prop :=
  ∀ claim, holder phase = some claim →
    ∃ run, get claim.run = some run ∧ run.status ≠ .queued ∧
      run.executorToken = some claim.token ∧
      ∀ token target, reads phase = some (token, target) → ReadsRun claim run token target

variable {ι : Type}

/-- A thread's phase fits the tables. -/
structure PhaseOk (runs : Runs ι) (sources : Sources ι) (t : ι) (phase : Phase) : Prop where
  run : WritesRun runs.get (runs.written t) phase
  source : WritesSource sources.get (sources.written t) phase
  holds : HoldsRun runs.get phase

theorem run_key (runs : Runs ι) (k : RunId) (run : Run) (h : runs.get k = some run) :
    run.key = k := Table.key_of_get h

theorem source_key (sources : Sources ι) (k : String) (source : GitSource)
    (h : sources.get k = some source) : source.id = k := Table.key_of_get h

/-- Every thread's phase fits the tables, and a run is claimed by one thread. -/
structure Owned (s : Portal ι) : Prop where
  threads : ∀ t, PhaseOk s.runs s.sources t (s.threads t).phase
  exclusive : ∀ i j claim claim', claimant (s.threads i).phase = some claim →
    claimant (s.threads j).phase = some claim' → claim.run = claim'.run → i = j

/-- A phase in which a thread has written nothing. -/
def quiet : Phase → Bool
  | .inserted | .claimed _ | .started _ | .recording _ _ true | .recorded _ _ => false
  | .failing _ | .closed _ _ | .flushed => false
  | _ => true

theorem writesRun_quiet {get : RunId → Option Run} {written : Option Run} {phase : Phase}
    (h : quiet phase = true) : WritesRun get written phase ↔ written = none := by
  cases phase with
  | recording work result applied => cases applied <;> simp_all [quiet, WritesRun]
  | _ => first | rfl | cases h

theorem writesSource_quiet {get : String → Option GitSource} {written : Option GitSource}
    {phase : Phase} (h : quiet phase = true) : WritesSource get written phase ↔ written = none := by
  cases phase with
  | _ => first | rfl | cases h

/-- A run version that a thread wrote follows the committed run, and is a queued one when there
is none. -/
theorem writesRun_follows {get : RunId → Option Run} (hkey : ∀ k run, get k = some run → run.key = k)
    {written : Run} {phase : Phase} (h : WritesRun get (some written) phase) :
    (get written.key = none ∧ written.status = .queued) ∨
      ∃ run, get written.key = some run ∧ Follows run written := by
  have hof : ∀ {k run}, get k = some run → Follows run written →
      ∃ run, get written.key = some run ∧ Follows run written := by
    intro k run hget hfollows
    refine ⟨run, ?_, hfollows⟩
    rw [hfollows.1, hkey k run hget]
    exact hget
  cases phase with
  | inserted =>
    obtain ⟨run, hrun, hqueued, hnone⟩ := h
    cases hrun
    exact .inl ⟨hnone, hqueued⟩
  | claimed claim =>
    obtain ⟨run, run', now, hget, hclaim, hrun⟩ := h
    cases hrun
    exact .inr (hof hget (claim_follows hclaim))
  | started work =>
    obtain ⟨run, fromCommit, head, hget, hrun⟩ := h
    cases hrun
    exact .inr (hof hget (withCommits_follows run fromCommit head))
  | recording work result applied =>
    cases applied with
    | true =>
      obtain ⟨run, run', hget, hrecord, hrun⟩ := h
      cases hrun
      exact .inr (hof hget (record_follows hrecord))
    | false => cases h
  | recorded work result =>
    obtain ⟨run, run', hget, hrecord, hrun⟩ := h
    cases hrun
    exact .inr (hof hget (record_follows hrecord))
  | failing claim =>
    rcases h with hnone | ⟨run, run', message, now, hget, hfail, hrun⟩
    · cases hnone
    · cases hrun
      exact .inr (hof hget (fail_follows hfail))
  | closed cutoff stale =>
    rcases h with hnone | ⟨run, run', limit, now, hget, hreap, hrun⟩
    · cases hnone
    · cases hrun
      exact .inr (hof hget (reap_follows hreap))
  | _ => cases h

/-! ## Statements of other threads -/

/-- What a thread wrote fits the tables as long as the rows it holds stay. -/
theorem writesRun_kept {get get' : RunId → Option Run}
    (hkey : ∀ k run, get k = some run → run.key = k) {written : Option Run} {phase : Phase}
    (h : WritesRun get written phase)
    (hkept : ∀ row, written = some row → get' row.key = get row.key) :
    WritesRun get' written phase := by
  have hof : ∀ {k run row}, get k = some run → row.key = run.key → written = some row →
      get' k = some run := by
    intro k run row hget hrow hwritten
    have hk := hkept row hwritten
    rw [hrow, hkey k run hget] at hk
    rw [hk, hget]
  cases phase with
  | inserted =>
    obtain ⟨run, hrun, hqueued, hnone⟩ := h
    exact ⟨run, hrun, hqueued, (hkept run hrun).trans hnone⟩
  | claimed claim =>
    obtain ⟨run, run', now, hget, hclaim, hrun⟩ := h
    exact ⟨run, run', now, hof hget (claim_follows hclaim).1 hrun, hclaim, hrun⟩
  | started work =>
    obtain ⟨run, fromCommit, head, hget, hrun⟩ := h
    exact ⟨run, fromCommit, head, hof hget (withCommits_follows run fromCommit head).1 hrun, hrun⟩
  | recording work result applied =>
    cases applied with
    | true =>
      obtain ⟨run, run', hget, hrecord, hrun⟩ := h
      exact ⟨run, run', hof hget (record_follows hrecord).1 hrun, hrecord, hrun⟩
    | false => exact h
  | recorded work result =>
    obtain ⟨run, run', hget, hrecord, hrun⟩ := h
    exact ⟨run, run', hof hget (record_follows hrecord).1 hrun, hrecord, hrun⟩
  | failing claim =>
    rcases h with hnone | ⟨run, run', message, now, hget, hfail, hrun⟩
    · exact .inl hnone
    · exact .inr ⟨run, run', message, now, hof hget (fail_follows hfail).1 hrun, hfail, hrun⟩
  | closed cutoff stale =>
    rcases h with hnone | ⟨run, run', limit, now, hget, hreap, hrun⟩
    · exact .inl hnone
    · exact .inr ⟨run, run', limit, now, hof hget (reap_follows hreap).1 hrun, hreap, hrun⟩
  | _ => exact h

theorem recordSync_id (source : GitSource) (startedFrom : Option String) (result : Result)
    (head : Option String) : (recordSync source startedFrom result head).id = source.id := by
  unfold recordSync
  split
  · rfl
  · split <;> rfl

theorem flushSource_id (loaded edited current : GitSource) :
    (flushSource loaded edited current).id = current.id := rfl

theorem writesSource_kept {get get' : String → Option GitSource}
    (hkey : ∀ k source, get k = some source → source.id = k) {written : Option GitSource}
    {phase : Phase} (h : WritesSource get written phase)
    (hkept : ∀ row, written = some row → get' row.id = get row.id)
    (hnone : ∀ k, get k = none → get' k = none) : WritesSource get' written phase := by
  have hof : ∀ {k source row}, get k = some source → row.id = source.id → written = some row →
      get' k = some source := by
    intro k source row hget hrow hwritten
    have hk := hkept row hwritten
    rw [hrow, hkey k source hget] at hk
    rw [hk, hget]
  cases phase with
  | recorded work result =>
    obtain ⟨snapshot, hsnapshot, ⟨hrow, hget⟩ | ⟨source, hget, hrow⟩⟩ := h
    · exact ⟨snapshot, hsnapshot, .inl ⟨hrow, hnone snapshot.id hget⟩⟩
    · exact ⟨snapshot, hsnapshot, .inr ⟨source, hof hget (recordSync_id _ _ _ _) hrow, hrow⟩⟩
  | flushed =>
    obtain ⟨loaded, edited, current, hget, hrow⟩ := h
    exact ⟨loaded, edited, current, hof hget (flushSource_id loaded edited current) hrow, hrow⟩
  | _ => exact h

/-- A source that a thread wrote is one that it found. -/
theorem get_of_writesSource {get : String → Option GitSource}
    (hkey : ∀ k source, get k = some source → source.id = k) {written : GitSource} {phase : Phase}
    (h : WritesSource get (some written) phase) : ∃ source, get written.id = some source := by
  cases phase with
  | recorded work result =>
    obtain ⟨snapshot, _, ⟨hnone, _⟩ | ⟨source, hget, hrow⟩⟩ := h
    · cases hnone
    · cases hrow
      rw [recordSync_id, hkey _ _ hget]
      exact ⟨source, hget⟩
  | flushed =>
    obtain ⟨loaded, edited, current, hget, hrow⟩ := h
    cases hrow
    rw [flushSource_id, hkey _ _ hget]
    exact ⟨current, hget⟩
  | _ => cases h

/-- A worker keeps its run under every change of the committed runs. -/
theorem holdsRun_follows {get get' : RunId → Option Run} {phase : Phase}
    (h : HoldsRun get phase)
    (hfollows : ∀ k run, get k = some run → ∃ run', get' k = some run' ∧ Follows run run') :
    HoldsRun get' phase := by
  intro claim hclaim
  obtain ⟨run, hget, hqueued, htoken, hread⟩ := h claim hclaim
  obtain ⟨run', hget', _, htarget, hstatus⟩ := hfollows claim.run run hget
  have hread' : ∀ token target, reads phase = some (token, target) →
      ReadsRun claim run' token target := by
    intro token target hreads
    unfold ReadsRun
    rw [htarget]
    exact hread token target hreads
  refine ⟨run', hget', ?_⟩
  rcases hstatus with ⟨hsame, htoken'⟩ | ⟨hwas, _⟩ | ⟨_, ⟨outcome, hended⟩, htoken'⟩
  · exact ⟨hsame ▸ hqueued, htoken'.trans htoken, hread'⟩
  · exact absurd hwas hqueued
  · exact ⟨by simp [hended], htoken'.trans htoken, hread'⟩

/-- A worker's run after a statement, when the worker held it before. -/
theorem holdsRun_of_holder {s : Portal ι} {t : ι} (h : Owned s) {get : RunId → Option Run} {phase : Phase}
    (hfollows : ∀ k run, s.runs.get k = some run → ∃ run', get k = some run' ∧ Follows run run')
    (hholder : ∀ claim, holder phase = some claim → holder (s.threads t).phase = some claim)
    (hreads : ∀ read, reads phase = some read → reads (s.threads t).phase = some read) :
    HoldsRun get phase := by
  intro claim hclaim
  obtain ⟨run, hget, hqueued, htoken, hread⟩ :=
    holdsRun_follows (h.threads t).holds hfollows claim (hholder claim hclaim)
  exact ⟨run, hget, hqueued, htoken, fun token target hread' =>
    hread token target (hreads (token, target) hread')⟩

/-! ## One statement -/

/-- A claim that a thread makes now: the run is queued, and no other thread holds its row. -/
def Fresh (s : Portal ι) (t : ι) (id : RunId) : Prop :=
  (∃ run, s.runs.get id = some run ∧ run.status = .queued) ∧
    ∀ j row, j ≠ t → s.runs.written j = some row → row.key ≠ id

/-- A fresh claim is of a run that no other thread claimed: a committed claim has made the run
leave the queue, and another one holds the row of the run. -/
theorem fresh_ne {s : Portal ι} (h : Owned s) {t j : ι} {id : RunId} {claim : Claim}
    (hfresh : Fresh s t id) (hne : j ≠ t) (hclaim : claimant (s.threads j).phase = some claim) :
    claim.run ≠ id := by
  intro heq
  obtain ⟨⟨run, hget, hqueued⟩, hfree⟩ := hfresh
  have hok := h.threads j
  by_cases hholder : holder (s.threads j).phase = some claim
  · obtain ⟨other, hother, hnot, _⟩ := hok.holds claim hholder
    rw [heq, hget] at hother
    cases hother
    exact hnot hqueued
  · have hrun := hok.run
    cases hphase : (s.threads j).phase with
    | claimed own =>
      rw [hphase] at hclaim hrun
      cases hclaim
      obtain ⟨old, run', now, hold, hmade, hwritten⟩ := hrun
      apply hfree j run' hne hwritten
      rw [(claim_follows hmade).1, run_key s.runs _ _ hold, heq]
    | _ =>
      rw [hphase] at hclaim hholder
      exact absurd hclaim hholder

variable [DecidableEq ι]

/-- What one statement of thread `t` does. -/
structure Next (s s' : Portal ι) (t : ι) : Prop where
  threads : ∀ j, j ≠ t → s'.threads j = s.threads j
  runs : s.runs.Frame s'.runs t
  sources : s.sources.Frame s'.sources t
  follows : ∀ k run, s.runs.get k = some run → ∃ run', s'.runs.get k = some run' ∧ Follows run run'
  changes : ∀ k run', s'.runs.get k = some run' →
    (∃ run, s.runs.get k = some run ∧ run'.status = run.status) ∨ s.runs.written t = some run'
  sourceCommit : (∀ k, s'.sources.get k = s.sources.get k) ∨
    (s'.runs = s.runs.commit t ∧ s'.sources = s.sources.commit t)
  ok : PhaseOk s'.runs s'.sources t (s'.threads t).phase
  claims : ∀ claim, claimant (s'.threads t).phase = some claim →
    claimant (s.threads t).phase = some claim ∨ Fresh s t claim.run

/-- A source read after a statement was read before, or is what its thread wrote. -/
theorem Next.sourceChanges {s s' : Portal ι} {t : ι} (hnext : Next s s' t) {k : String}
    {source' : GitSource} (hget : s'.sources.get k = some source') :
    s.sources.get k = some source' ∨ s.sources.written t = some source' := by
  rcases hnext.sourceCommit with hsame | ⟨_, hcommit⟩
  · rw [hsame] at hget
    exact .inl hget
  · rw [hcommit] at hget
    exact Rows.get_commit_cases hget

/-- No statement adds a source. -/
theorem Next.sources_none {s s' : Portal ι} {t : ι} (hnext : Next s s' t) (h : Owned s)
    (k : String) (hnone : s.sources.get k = none) : s'.sources.get k = none := by
  cases hget' : s'.sources.get k with
  | none => rfl
  | some source' =>
    have hkey := source_key s'.sources k source' hget'
    rcases hnext.sourceChanges hget' with hsame | hwritten
    · rw [hnone] at hsame
      cases hsame
    · have hsource := (h.threads t).source
      rw [hwritten] at hsource
      obtain ⟨source, hget⟩ := get_of_writesSource (source_key s.sources) hsource
      rw [hkey, hnone] at hget
      cases hget

/-- A statement keeps `Owned`. -/
theorem Next.owned {s s' : Portal ι} {t : ι} (h : Owned s) (hnext : Next s s' t) : Owned s' := by
  have hclaims : ∀ j claim claim', j ≠ t → claimant (s.threads j).phase = some claim →
      claimant (s'.threads t).phase = some claim' → claim.run ≠ claim'.run := by
    intro j claim claim' hne hj ht
    rcases hnext.claims claim' ht with hold | hfresh
    · exact fun heq => hne (h.exclusive j t claim claim' hj hold heq)
    · exact fresh_ne h hfresh hne hj
  constructor
  · intro j
    by_cases hj : j = t
    · rw [hj]
      exact hnext.ok
    · have hok := h.threads j
      rw [hnext.threads j hj]
      constructor
      · rw [hnext.runs.written j hj]
        exact writesRun_kept (run_key s.runs) hok.run fun row hrow => hnext.runs.kept j row hj hrow
      · rw [hnext.sources.written j hj]
        exact writesSource_kept (source_key s.sources) hok.source
          (fun row hrow => hnext.sources.kept j row hj hrow) (hnext.sources_none h)
      · exact holdsRun_follows hok.holds hnext.follows
  · intro i j claim claim' hi hj heq
    by_cases hit : i = t
    · by_cases hjt : j = t
      · rw [hit, hjt]
      · rw [hnext.threads j hjt] at hj
        rw [hit] at hi
        exact absurd heq.symm (hclaims j claim' claim hjt hj hi)
    · rw [hnext.threads i hit] at hi
      by_cases hjt : j = t
      · rw [hjt] at hj
        exact absurd heq (hclaims i claim claim' hit hi hj)
      · rw [hnext.threads j hjt] at hj
        exact h.exclusive i j claim claim' hi hj heq

/-! ## Kinds of statements -/

/-- The statement of a thread that waits, or that is in another phase. -/
theorem Next.refl {s : Portal ι} {t : ι} (h : Owned s) : Next s s t where
  threads _ _ := rfl
  runs := .refl s.runs t
  sources := .refl s.sources t
  follows _ run hget := ⟨run, hget, .refl run⟩
  changes _ run hget := .inl ⟨run, hget, rfl⟩
  sourceCommit := .inl fun _ => rfl
  ok := h.threads t
  claims _ hclaim := .inl hclaim

/-- A worker that holds a claim made it. -/
theorem claimant_of_holder {phase : Phase} {claim : Claim} (h : holder phase = some claim) :
    claimant phase = some claim := by
  cases phase with
  | claimed own => cases h
  | _ => exact h

section
variable {s : Portal ι} {t : ι}

/-- A statement with its effect on the tables and on its thread. -/
theorem next_tables {runs : Runs ι} {sources : Sources ι} {thread : Thread}
    (hruns : s.runs.Frame runs t) (hsources : s.sources.Frame sources t)
    (hfollows : ∀ k run, s.runs.get k = some run → ∃ run', runs.get k = some run' ∧ Follows run run')
    (hchanges : ∀ k run', runs.get k = some run' → s.runs.get k = some run' ∨
      s.runs.written t = some run')
    (hsourceCommit : (∀ k, sources.get k = s.sources.get k) ∨
      (runs = s.runs.commit t ∧ sources = s.sources.commit t))
    (hok : PhaseOk runs sources t thread.phase)
    (hclaims : ∀ claim, claimant thread.phase = some claim →
      claimant (s.threads t).phase = some claim ∨ Fresh s t claim.run) :
    Next s ({ s with runs, sources }.setThread t thread) t where
  threads j hj := Function.update_of_ne hj _ _
  runs := hruns
  sources := hsources
  follows := hfollows
  changes k run' hget := (hchanges k run' hget).imp_left fun hsame => ⟨run', hsame, rfl⟩
  sourceCommit := hsourceCommit
  ok := by
    simp only [Portal.setThread, Function.update_self]
    exact hok
  claims claim hclaim := by
    simp only [Portal.setThread, Function.update_self] at hclaim
    exact hclaims claim hclaim

/-- A statement that leaves the tables alone. -/
theorem next_thread {thread : Thread} (hok : PhaseOk s.runs s.sources t thread.phase)
    (hclaims : ∀ claim, claimant thread.phase = some claim →
      claimant (s.threads t).phase = some claim) : Next s (s.setThread t thread) t :=
  next_tables (.refl s.runs t) (.refl s.sources t) (fun _ run hget => ⟨run, hget, .refl run⟩)
    (fun _ _ hget => .inl hget) (.inl fun _ => rfl) hok
    fun claim hclaim => .inl (hclaims claim hclaim)

/-- A statement between two phases in which the thread has written nothing. -/
theorem next_quiet {thread : Thread} (h : Owned s) (hold : quiet (s.threads t).phase = true)
    (hnew : quiet thread.phase = true)
    (hholder : ∀ claim, claimant thread.phase = some claim →
      holder (s.threads t).phase = some claim)
    (hreads : ∀ read, reads thread.phase = some read → reads (s.threads t).phase = some read) : Next s (s.setThread t thread) t := by
  have hok := h.threads t
  apply next_thread
  · constructor
    · exact (writesRun_quiet hnew).mpr ((writesRun_quiet hold).mp hok.run)
    · exact (writesSource_quiet hnew).mpr ((writesSource_quiet hold).mp hok.source)
    · exact holdsRun_of_holder h (fun _ run hget => ⟨run, hget, .refl run⟩)
        (fun claim hclaim => hholder claim (claimant_of_holder hclaim)) hreads
  · exact fun claim hclaim => claimant_of_holder (hholder claim hclaim)

/-- The write of a run. -/
theorem next_write [Fintype ι] {run : Run} {runs : Runs ι} {thread : Thread}
    (hwrite : s.runs.write t run = some runs)
    (hrun : WritesRun s.runs.get (some run) thread.phase)
    (hsource : WritesSource s.sources.get (s.sources.written t) thread.phase)
    (hholds : HoldsRun s.runs.get thread.phase)
    (hclaims : ∀ claim, claimant thread.phase = some claim →
      claimant (s.threads t).phase = some claim ∨ Fresh s t claim.run) :
    Next s ({ s with runs }.setThread t thread) t := by
  have hget : runs.get = s.runs.get := funext fun k => Rows.get_write hwrite
  have hwritten : runs.written t = some run := by rw [Rows.written_write hwrite, if_pos rfl]
  apply next_tables (Rows.frame_write hwrite) (.refl s.sources t) _ _ (.inl fun _ => rfl) _ hclaims
  · intro k old hold
    rw [hget]
    exact ⟨old, hold, .refl old⟩
  · intro k run' hrun'
    rw [hget] at hrun'
    exact .inl hrun'
  · constructor
    · rw [hget, hwritten]
      exact hrun
    · exact hsource
    · rw [hget]
      exact hholds

/-- The write of a source. -/
theorem next_writeSource [Fintype ι] {source : GitSource} {sources : Sources ι} {thread : Thread}
    (hwrite : s.sources.write t source = some sources)
    (hrun : WritesRun s.runs.get (s.runs.written t) thread.phase)
    (hsource : WritesSource s.sources.get (some source) thread.phase)
    (hholds : HoldsRun s.runs.get thread.phase)
    (hclaims : ∀ claim, claimant thread.phase = some claim →
      claimant (s.threads t).phase = some claim) :
    Next s ({ s with sources }.setThread t thread) t := by
  have hget : sources.get = s.sources.get := funext fun k => Rows.get_write hwrite
  have hwritten : sources.written t = some source := by
    rw [Rows.written_write hwrite, if_pos rfl]
  apply next_tables (.refl s.runs t) (Rows.frame_write hwrite)
    (fun _ run hget => ⟨run, hget, .refl run⟩) (fun _ _ hsame => .inl hsame)
    (.inl fun _ => Rows.get_write hwrite)
  · constructor
    · exact hrun
    · rw [hget, hwritten]
      exact hsource
    · exact hholds
  · exact fun claim hclaim => .inl (hclaims claim hclaim)

/-- The committed runs follow each other over a COMMIT. -/
theorem commit_follows (h : Owned s) (t : ι) : ∀ k run, s.runs.get k = some run →
    ∃ run', (s.runs.commit t).get k = some run' ∧ Follows run run' := by
  intro k run hget
  rw [Rows.get_commit]
  split
  · rename_i hkey
    obtain ⟨written, hwritten, hk⟩ := Option.map_eq_some_iff.mp hkey
    have hrun := (h.threads t).run
    rw [hwritten] at hrun ⊢
    refine ⟨written, rfl, ?_⟩
    rcases writesRun_follows (run_key s.runs) hrun with ⟨hnone, _⟩ | ⟨old, hold, hfollows⟩
    · rw [hk, hget] at hnone
      cases hnone
    · rw [hk, hget] at hold
      cases hold
      exact hfollows
  · exact ⟨run, hget, .refl run⟩

/-- A COMMIT. -/
theorem next_commit {thread : Thread} (h : Owned s) (hnew : quiet thread.phase = true)
    (hholds : HoldsRun (s.runs.commit t).get thread.phase)
    (hclaims : ∀ claim, claimant thread.phase = some claim →
      claimant (s.threads t).phase = some claim) :
    Next s ((s.commitRows t).setThread t thread) t := by
  apply next_tables (Rows.frame_commit s.runs t) (Rows.frame_commit s.sources t)
    (commit_follows h t) (fun _ _ => Rows.get_commit_cases) (.inr ⟨rfl, rfl⟩)
  · constructor
    · rw [writesRun_quiet hnew, Rows.written_commit, if_pos rfl]
    · rw [writesSource_quiet hnew, Rows.written_commit, if_pos rfl]
    · exact hholds
  · exact fun claim hclaim => .inl (hclaims claim hclaim)

/-- A ROLLBACK. -/
theorem next_rollback {thread : Thread} (h : Owned s) (hnew : quiet thread.phase = true)
    (hholder : ∀ claim, claimant thread.phase = some claim →
      holder (s.threads t).phase = some claim)
    (hreads : ∀ read, reads thread.phase = some read → reads (s.threads t).phase = some read) :
    Next s ((s.rollbackRows t).setThread t thread) t := by
  have hsame : ∀ k run, s.runs.get k = some run →
      ∃ run', (s.runs.rollback t).get k = some run' ∧ Follows run run' :=
    fun _ run hget => ⟨run, hget, .refl run⟩
  apply next_tables (Rows.frame_rollback s.runs t) (Rows.frame_rollback s.sources t) hsame
    (fun _ _ hget => .inl hget) (.inl fun _ => rfl)
  · constructor
    · rw [writesRun_quiet hnew, Rows.written_rollback, if_pos rfl]
    · rw [writesSource_quiet hnew, Rows.written_rollback, if_pos rfl]
    · exact holdsRun_of_holder h hsame
        (fun claim hclaim => hholder claim (claimant_of_holder hclaim)) hreads
  · exact fun claim hclaim => .inl (claimant_of_holder (hholder claim hclaim))

end

end TrustPortal.Proofs.Scheduler
