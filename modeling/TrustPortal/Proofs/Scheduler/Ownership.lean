import TrustPortal.Proofs.Scheduler.Statements

/-!
# `TrustPortal.Proofs.Scheduler.Ownership`: who ends a run

`run_ownership` is about every list of statements from a restart, so about every interleaving
of enqueues, claims, heartbeats, lost lock sessions, reapers, finishes and crashes. At every
point of it one run of a target is queued or running at most. One statement changes a run's
status only from queued to running or from running to a terminal status, and then the thread
that commits it holds the claim of the run, whose token the run carries, or is the reaper. A
terminal status stays. A thread that executes a run which ended, for one which the reaper
closed, leaves every source's last synced commit alone.

Nothing here rests on the target lock: it is the conditions of the UPDATEs and the row locks
that carry the result. The lock keeps a second worker from starting (`acquire`).
-/

set_option autoImplicit false

namespace TrustPortal.Proofs.Scheduler

open TrustPortal.GitSources
open TrustPortal.Scheduler
open TrustPortal.Sql

variable {ι : Type}

/-- Thread `t` executes the run `k`, which it claimed. -/
def Executes (s : Portal ι) (t : ι) (k : RunId) : Prop :=
  ∃ claim, holder (s.threads t).phase = some claim ∧ claim.run = k

/-- Thread `t` executes `run`, and `run` carries its token. -/
def HoldsToken (s : Portal ι) (t : ι) (run : Run) : Prop :=
  ∃ claim, holder (s.threads t).phase = some claim ∧ claim.run = run.key ∧
    run.executorToken = some claim.token

/-- Thread `t` is the reaper and closes a run. -/
def Reaps (s : Portal ι) (t : ι) : Prop :=
  ∃ cutoff stale, (s.threads t).phase = .closed cutoff stale

/-- A terminal status. -/
def Ended (run : Run) : Prop := ∃ outcome, run.status = .ended outcome

/-- The phases in which a thread has written a terminal status: those after the UPDATE of an
executed run's outcome and after the reaper's. -/
theorem ends_by {get : RunId → Option Run} (hkey : ∀ k run, get k = some run → run.key = k)
    {run written : Run} {phase : Phase} (h : WritesRun get (some written) phase)
    (hget : get written.key = some run) (hnot : ¬ Ended run) (hended : Ended written) :
    (∃ claim, holder phase = some claim ∧ claim.run = written.key) ∨
      ∃ cutoff stale, phase = .closed cutoff stale := by
  have hof : ∀ {k old}, get k = some old → Follows old written → k = written.key :=
    fun hold hfollows => (hkey _ _ hold).symm.trans hfollows.1.symm
  obtain ⟨outcome, hstatus⟩ := hended
  cases phase with
  | inserted =>
    obtain ⟨new, hnew, hqueued, _⟩ := h
    cases hnew
    rw [hqueued] at hstatus
    cases hstatus
  | claimed claim =>
    obtain ⟨old, new, now, _, hclaim, hnew⟩ := h
    cases hnew
    unfold Run.claim at hclaim
    split at hclaim
    · cases hclaim
      cases hstatus
    · cases hclaim
  | started work =>
    -- the commits of a sync leave the status of its run
    obtain ⟨old, fromCommit, head, hold, hnew⟩ := h
    cases hnew
    rw [← hof hold (withCommits_follows old fromCommit head), hold] at hget
    cases hget
    exact absurd ⟨outcome, hstatus⟩ hnot
  | recording work result applied =>
    cases applied with
    | false => cases h
    | true =>
      obtain ⟨old, new, hold, hrecord, hnew⟩ := h
      cases hnew
      exact .inl ⟨work.claim, rfl, hof hold (record_follows hrecord)⟩
  | recorded work result =>
    obtain ⟨old, new, hold, hrecord, hnew⟩ := h
    cases hnew
    exact .inl ⟨work.claim, rfl, hof hold (record_follows hrecord)⟩
  | failing claim =>
    rcases h with hnone | ⟨old, new, message, now, hold, hfail, hnew⟩
    · cases hnone
    · cases hnew
      exact .inl ⟨claim, rfl, hof hold (fail_follows hfail)⟩
  | closed cutoff stale => exact .inr ⟨cutoff, stale, rfl⟩
  | _ => cases h

/-- The thread that executes a run which ended has not written the run's source. -/
theorem source_none_of_ended {get : RunId → Option Run} {sources : String → Option GitSource}
    {run : Run} {written : Option Run} {source : Option GitSource} {phase : Phase} {claim : Claim}
    (hrun : WritesRun get written phase) (hsource : WritesSource sources source phase)
    (hholder : holder phase = some claim) (hget : get claim.run = some run)
    (hended : Ended run) : source = none := by
  cases phase with
  | recorded work result =>
    -- the run was running when the UPDATE of its outcome found it, and its row is held since
    cases hholder
    obtain ⟨old, new, hold, hrecord, _⟩ := hrun
    rw [hget] at hold
    cases hold
    obtain ⟨outcome, hstatus⟩ := hended
    rw [(record_ends hrecord).1] at hstatus
    cases hstatus
  | flushed => cases hholder
  | _ => exact hsource

/-! ## One statement -/

section
variable [DecidableEq ι] [Fintype ι] {s : Portal ι}

/-- How a statement changes the status of a run. -/
theorem status_step (h : Owned s) (move : ι × Action) {k : RunId} {run run' : Run}
    (hget : s.runs.get k = some run) (hget' : (s.step move).runs.get k = some run')
    (hne : run'.status ≠ run.status) :
    (run.status = .queued ∧ run'.status = .running) ∨
      (run.status = .running ∧ Ended run' ∧ (HoldsToken s move.1 run ∨ Reaps s move.1)) := by
  have hnext := next_step h move
  obtain ⟨new, hnew, hfollows⟩ := hnext.follows k run hget
  rw [hget'] at hnew
  cases hnew
  obtain ⟨_, _, ⟨hsame, _⟩ | hclaimed | ⟨hrunning, hended, _⟩⟩ := id hfollows
  · exact absurd hsame hne
  · exact .inl hclaimed
  · refine .inr ⟨hrunning, hended, ?_⟩
    have hnot : ¬ Ended run := by
      rintro ⟨outcome, hstatus⟩
      rw [hrunning] at hstatus
      cases hstatus
    have hkey := run_key s.runs k run hget
    -- the row that ends the run is the one its thread wrote
    have hwritten : s.runs.written move.1 = some run' := by
      rcases hnext.changes k run' hget' with ⟨old, hold, hstatus⟩ | hwritten
      · rw [hget] at hold
        cases hold
        exact absurd hstatus hne
      · exact hwritten
    have hok := h.threads move.1
    have hrow := hok.run
    rw [hwritten] at hrow
    have hgetkey : s.runs.get run'.key = some run := by
      rw [hfollows.1, hkey]
      exact hget
    rcases ends_by (run_key s.runs) hrow hgetkey hnot hended with ⟨claim, hholder, hclaim⟩ | hreap
    · obtain ⟨held, hheld, _, htoken, _⟩ := hok.holds claim hholder
      rw [hclaim, hgetkey] at hheld
      cases hheld
      exact .inl ⟨claim, hholder, hclaim.trans hfollows.1, htoken⟩
    · exact .inr hreap

/-- A thread that executes a run which ended leaves the sources alone. -/
theorem sources_step (h : Owned s) (move : ι × Action) {k : RunId} {run : Run}
    (hexecutes : Executes s move.1 k) (hget : s.runs.get k = some run) (hended : Ended run)
    {id : String} {source' : GitSource} (hsource : (s.step move).sources.get id = some source') :
    s.sources.get id = some source' := by
  obtain ⟨claim, hholder, rfl⟩ := hexecutes
  have hok := h.threads move.1
  have hnone := source_none_of_ended hok.run hok.source hholder hget hended
  rcases (next_step h move).sourceChanges hsource with hsame | hwritten
  · exact hsame
  · rw [hnone] at hwritten
    cases hwritten

/-! ## Runs -/

/-- A run that ended keeps its status. -/
theorem ended_run (h : Owned s) (moves : List (ι × Action)) {k : RunId} {run : Run}
    (hget : s.runs.get k = some run) (hended : Ended run) :
    ∃ run', (s.run moves).runs.get k = some run' ∧ run'.status = run.status := by
  induction moves generalizing s run with
  | nil => exact ⟨run, hget, rfl⟩
  | cons move rest ih =>
    have hnext := next_step h move
    obtain ⟨new, hnew, hfollows⟩ := hnext.follows k run hget
    have hsame : new.status = run.status := by
      by_contra hne
      obtain ⟨outcome, hstatus⟩ := hended
      rcases status_step h move hget hnew hne with ⟨hqueued, _⟩ | ⟨hrunning, _⟩
      · rw [hqueued] at hstatus
        cases hstatus
      · rw [hrunning] at hstatus
        cases hstatus
    obtain ⟨last, hlast, hstatus⟩ := ih (hnext.owned h) hnew (hended.imp fun _ h => hsame.trans h)
    exact ⟨last, hlast, hstatus.trans hsame⟩

/-- What run ownership says of a portal and the statements that follow. -/
structure RunOwnership (s : Portal ι) : Prop where
  /-- One run of a target is queued or running at most. -/
  oneActive : ∀ a b : Run, s.runs.get a.key = some a → s.runs.get b.key = some b →
    a.status.isActive = true → b.status.isActive = true → a.kind = b.kind → a.target = b.target →
    a = b
  /-- A status moves from queued to running and from running to a terminal one. The thread that
  writes the terminal status executes the run, and the run carries its token, or it is the
  reaper. -/
  moves : ∀ (move : ι × Action) (k : RunId) (run : Run), s.runs.get k = some run →
    ∃ run', (s.step move).runs.get k = some run' ∧
      (run'.status = run.status ∨ (run.status = .queued ∧ run'.status = .running) ∨
        (run.status = .running ∧ Ended run' ∧ (HoldsToken s move.1 run ∨ Reaps s move.1)))
  /-- A terminal status never changes. -/
  final : ∀ (moves : List (ι × Action)) (k : RunId) (run : Run), s.runs.get k = some run →
    Ended run → ∃ run', (s.run moves).runs.get k = some run' ∧ run'.status = run.status
  /-- One thread executes a run. -/
  oneHolder : ∀ (i j : ι) (k : RunId), Executes s i k → Executes s j k → i = j
  /-- A thread that executes a run which ended moves no source's last synced commit. -/
  ended : ∀ (move : ι × Action) (k : RunId) (run : Run), Executes s move.1 k →
    s.runs.get k = some run → Ended run → ∀ (id : String) (source source' : GitSource),
    s.sources.get id = some source → (s.step move).sources.get id = some source' →
    source'.lastSyncedCommit = source.lastSyncedCommit

/-- Run ownership at every point of every interleaving. -/
theorem run_ownership (s : Portal ι) (moves : List (ι × Action)) :
    RunOwnership (s.restart.run moves) := by
  have h : Owned (s.restart.run moves) := owned_run (owned_restart s) moves
  generalize s.restart.run moves = mid at h
  constructor
  · intro a b ha hb hactive hactive' hkind htarget
    have hindex : ∀ {run : Run}, run.status.isActive = true →
        run.activeTarget = some (run.kind, run.target) := by
      intro run hrun
      unfold Run.activeTarget
      rw [if_pos hrun]
    have hkey := mid.runs.unique a b (b.kind, b.target) (.inl (Table.mem_of_get ha))
      (.inl (Table.mem_of_get hb)) (by rw [hindex hactive, hkind, htarget]) (hindex hactive')
    rw [hkey, hb] at ha
    exact (Option.some.inj ha).symm
  · intro move k run hget
    obtain ⟨run', hget', _⟩ := (next_step h move).follows k run hget
    refine ⟨run', hget', ?_⟩
    by_cases hsame : run'.status = run.status
    · exact .inl hsame
    · exact .inr (status_step h move hget hget' hsame)
  · exact fun moves k run hget hended => ended_run h moves hget hended
  · rintro i j k ⟨claim, hi, hclaim⟩ ⟨claim', hj, hclaim'⟩
    exact h.exclusive i j claim claim' (claimant_of_holder hi) (claimant_of_holder hj)
      (hclaim.trans hclaim'.symm)
  · intro move k run hexecutes hget hended id source source' hsource hsource'
    have hsame := sources_step h move hexecutes hget hended hsource'
    rw [hsource] at hsame
    cases hsame
    rfl

end

-- A worker loses its lock session, the reaper closes its run, and its outcome finds no run.
set_option maxRecDepth 8000 in
example :
    let s : Portal (Fin 2) := Portal.empty.run
      [ (0, .enqueue .collector "c"), (0, .readActive), (0, .insert "r" 1), (0, .commit)
      , (0, .execute (.collector, "r")), (0, .readRun), (0, .acquire), (0, .claim "t" 2)
      , (0, .commit), (0, .enter), (0, .load), (0, .loseSession)
      , (1, .reap 10), (1, .select (some .collector)), (1, .acquire), (1, .close 11)
      , (1, .commit), (0, .finish ⟨.success, 12, none⟩) ]
    (s.runs.get (.collector, "r")).map Run.status = some (.ended .failure) ∧
      (s.threads 0).phase = .recording ⟨⟨(.collector, "r"), "t"⟩, some "t", none, none⟩
        ⟨.success, 12, none⟩ false := by
  decide +kernel

end TrustPortal.Proofs.Scheduler
