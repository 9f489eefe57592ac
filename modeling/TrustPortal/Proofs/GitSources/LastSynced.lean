import TrustPortal.Lib.Run
import TrustPortal.Proofs.Scheduler.Ownership

/-!
# `TrustPortal.Proofs.GitSources.LastSynced`: the last synced commit under updates

A git sync moves its source's last synced commit only while it still has the value that the
sync started from. An administrator's update that leaves another value survives the sync. An
update that leaves the same value does not: a source without a last synced commit is reset to
nothing by a change of its mappings, and the sync that runs then stores its head
(`first_sync_overwrites_reset`), so the next sync reads only what changed since.

`finish_keeps_commit` says when exactly the COMMIT of a sync keeps the stored value, at every
point of every interleaving, and carries the condition from an update to the end of the sync.
The invariant is `Settled`: the sync's run ended, or the stored value differs from the one it
started from. Another run cannot restore that value while the sync's run is active, because
one run of a source is active at most.
-/

set_option autoImplicit false

namespace TrustPortal.Proofs.GitSources

open TrustPortal.GitSources
open TrustPortal.Scheduler
open TrustPortal.Sql
open TrustPortal.Proofs.Scheduler

variable {ι : Type} [DecidableEq ι] [Fintype ι]

/-! ## The COMMIT of a sync -/

omit [DecidableEq ι] [Fintype ι] in
/-- Thread `t` is about to commit the outcome of a sync and its source's. -/
structure Finishes (s : Portal ι) (t : ι) (work : Work) (result : Result)
    (snapshot : GitSource) : Prop where
  phase : (s.threads t).phase = .recorded work result
  checked : (s.threads t).checked = true
  source : work.source = some snapshot

/-- The last synced commit stored for a source. -/
def storedCommit (s : Portal ι) (id : String) : Option (Option String) :=
  (s.sources.get id).map GitSource.lastSyncedCommit

/-- The COMMIT of thread `t` leaves the last synced commit of a source. -/
def KeepsCommit (s : Portal ι) (t : ι) (id : String) : Prop :=
  storedCommit (s.step (t, .commit)) id = storedCommit s id

/-- The last synced commit that `_finish` writes. -/
theorem recordSync_lastSyncedCommit (source : GitSource) (startedFrom : Option String)
    (result : Result) (head : Option String) :
    (recordSync source startedFrom result head).lastSyncedCommit
      = if source.lastSyncedCommit = startedFrom then head <|> source.lastSyncedCommit
        else source.lastSyncedCommit := by
  unfold recordSync
  cases head with
  | none => simp
  | some head =>
    by_cases hsame : source.lastSyncedCommit = startedFrom
    · simp [hsame]
    · simp [hsame]

section
variable {s : Portal ι} {t : ι} {work : Work} {result : Result} {snapshot : GitSource}

/-- The source after the COMMIT of a sync. -/
theorem commit_of_finishes (h : Owned s) (hfinish : Finishes s t work result snapshot)
    {source : GitSource} (hsource : s.sources.get snapshot.id = some source) :
    (s.step (t, .commit)).sources.get snapshot.id
      = some (recordSync source snapshot.lastSyncedCommit result (work.recordedHead result)) := by
  have hrow := (h.threads t).source
  rw [hfinish.phase] at hrow
  obtain ⟨own, hown, hwritten⟩ := hrow
  rw [hfinish.source] at hown
  cases hown
  rcases hwritten with ⟨_, hnone⟩ | ⟨current, hcurrent, hwritten⟩
  · rw [hnone] at hsource
    cases hsource
  · rw [hsource] at hcurrent
    cases hcurrent
    have hcommit : (s.step (t, .commit)).sources = s.sources.commit t := by
      unfold Portal.step Portal.commit
      simp only [hfinish.phase, hfinish.checked, if_true]
      rfl
    have hkey := source_key s.sources _ _ hsource
    rw [hcommit, Rows.get_commit, hwritten, if_pos]
    rw [Option.map_some, recordSync_id, hkey]

/-- When the COMMIT of a sync keeps the last synced commit of its source: the stored one is not
the one the sync started from, or the sync has no other head to store. -/
theorem keepsCommit_iff (h : Owned s) (hfinish : Finishes s t work result snapshot)
    {source : GitSource} (hsource : s.sources.get snapshot.id = some source) :
    KeepsCommit s t snapshot.id ↔
      source.lastSyncedCommit ≠ snapshot.lastSyncedCommit ∨ work.recordedHead result = none ∨
        work.recordedHead result = source.lastSyncedCommit := by
  unfold KeepsCommit storedCommit
  rw [commit_of_finishes h hfinish hsource, hsource]
  simp only [Option.map_some, Option.some.injEq, recordSync_lastSyncedCommit]
  by_cases hsame : source.lastSyncedCommit = snapshot.lastSyncedCommit
  · rw [if_pos hsame]
    cases hhead : work.recordedHead result with
    | none => simp
    | some head => simp [hsame]
  · simp [hsame]

end

/-! ## From an update to the end of the sync -/

/-- The run `k` syncs the source `id`, and it ended or the stored last synced commit is not
`startedFrom`. -/
def Settled (s : Portal ι) (k : RunId) (id : String) (startedFrom : Option String) : Prop :=
  ∃ run, s.runs.get k = some run ∧ run.target = id ∧
    (Ended run ∨ (run.status.isActive = true ∧
      ∀ source, s.sources.get id = some source → source.lastSyncedCommit ≠ startedFrom))

/-- A statement by which an administrator changes the source `id` leaves another last synced
commit than `startedFrom`. -/
def LeavesOther (id : String) (startedFrom : Option String) (s : Portal ι) (move : ι × Action) :
    Prop :=
  (s.threads move.1).phase = .flushed → ∀ row, (s.step move).sources.get id = some row →
    s.sources.get id ≠ some row → row.lastSyncedCommit ≠ startedFrom

omit [DecidableEq ι] [Fintype ι] in
/-- Two active syncs of one source are one run. -/
theorem active_sync_unique {s : Portal ι} {k k' : RunId} {run run' : Run}
    (hget : s.runs.get k = some run) (hget' : s.runs.get k' = some run')
    (hk : k.1 = .gitSync) (hk' : k'.1 = .gitSync) (htarget : run.target = run'.target)
    (hactive : run.status.isActive = true) (hactive' : run'.status.isActive = true) : k = k' := by
  have hkey := run_key s.runs _ _ hget
  have hkey' := run_key s.runs _ _ hget'
  have hindex : ∀ {row : Run}, row.status.isActive = true →
      row.activeTarget = some (row.kind, row.target) := by
    intro row hrow
    unfold Run.activeTarget
    rw [if_pos hrow]
  have hkind : run.kind = .gitSync := (congrArg Prod.fst hkey).trans hk
  have hkind' : run'.kind = .gitSync := (congrArg Prod.fst hkey').trans hk'
  have hsame := s.runs.unique run run' (.gitSync, run'.target) (.inl (Table.mem_of_get hget))
    (.inl (Table.mem_of_get hget')) (by rw [hindex hactive, hkind, htarget])
    (by rw [hindex hactive', hkind'])
  exact hkey.symm.trans (hsame.trans hkey')

omit [Fintype ι] in
/-- Another sync stores its head only when the run `k` ended: two active runs of the source
would be one. And the COMMIT of the sync itself ends its run. -/
theorem ended_of_recorded {s : Portal ι} {t : ι} (h : Owned s) {work : Work} {result : Result}
    (hphase : (s.threads t).phase = .recorded work result) {k : RunId} {run : Run} {id : String}
    (hk : k.1 = .gitSync) (hget : s.runs.get k = some run) (htarget : run.target = id)
    (hactive : run.status.isActive = true) {row : GitSource}
    (hwritten : s.sources.written t = some row) (hid : row.id = id) :
    ∃ run', (s.runs.commit t).get k = some run' ∧ Ended run' := by
  have hok := h.threads t
  rw [hphase] at hok
  obtain ⟨own, own', hown, hrecord, hrow⟩ := hok.run
  obtain ⟨snapshot, hsnapshot, ⟨hnone, _⟩ | ⟨source, hsource, hsourceRow⟩⟩ := hok.source
  · rw [hnone] at hwritten
    cases hwritten
  rw [hwritten] at hsourceRow
  cases hsourceRow
  rw [recordSync_id, source_key s.sources _ _ hsource] at hid
  -- the sync's run is a running one of the same source
  obtain ⟨held, hheld, _, _, hreads⟩ := hok.holds work.claim rfl
  rw [hown] at hheld
  cases hheld
  obtain ⟨hkind, hownTarget⟩ :=
    (hreads work.token (some snapshot.id) (by simp [reads, hsnapshot])).2 snapshot.id rfl
  have hownActive : own.status.isActive = true := by
    rw [(record_ends hrecord).1]
    rfl
  have hsame := active_sync_unique hget hown hk hkind
    (htarget.trans (hid.symm.trans hownTarget.symm)) hactive hownActive
  refine ⟨own', ?_, ⟨result.outcome, (record_ends hrecord).2⟩⟩
  rw [Rows.get_commit, hrow, if_pos]
  rw [Option.map_some, (record_follows hrecord).1, run_key s.runs _ _ hown, hsame]

/-- `Settled` over a statement. -/
theorem settled_step {s : Portal ι} (h : Owned s) (move : ι × Action) {k : RunId} {id : String}
    {startedFrom : Option String} (hk : k.1 = .gitSync) (hsettled : Settled s k id startedFrom)
    (hleaves : LeavesOther id startedFrom s move) : Settled (s.step move) k id startedFrom := by
  obtain ⟨run, hget, htarget, hcases⟩ := hsettled
  have hnext := next_step h move
  obtain ⟨run', hget', hfollows⟩ := hnext.follows k run hget
  refine ⟨run', hget', hfollows.2.1.trans htarget, ?_⟩
  rcases hcases with hended | ⟨hactive, hother⟩
  · obtain ⟨last, hlast, hstatus⟩ := ended_run h [move] hget hended
    have hsame : (s.step move).runs.get k = some last := hlast
    rw [hget'] at hsame
    cases hsame
    exact .inl (hended.imp fun _ houtcome => hstatus.trans houtcome)
  · by_cases hended : Ended run'
    · exact .inl hended
    · refine .inr ⟨?_, ?_⟩
      · cases hstatus : run'.status with
        | queued => rfl
        | running => rfl
        | ended outcome => exact absurd ⟨outcome, hstatus⟩ hended
      · intro row hrow
        by_cases hsame : s.sources.get id = some row
        · exact hother row hsame
        · have hwritten := (hnext.sourceChanges hrow).resolve_left hsame
          have hsource := (h.threads move.1).source
          rw [hwritten] at hsource
          cases hphase : (s.threads move.1).phase with
          | flushed => exact hleaves hphase row hrow hsame
          | recorded work result =>
            -- the COMMIT of a sync of this source ends the run
            exfalso
            have hid := source_key (s.step move).sources _ _ hrow
            rcases hnext.sourceCommit with hkept | ⟨hcommit, _⟩
            · rw [hkept] at hrow
              exact hsame hrow
            · obtain ⟨last, hlast, hlastEnded⟩ :=
                ended_of_recorded h hphase hk hget htarget hactive hwritten hid
              rw [← hcommit, hget'] at hlast
              cases hlast
              exact hended hlastEnded
          | recording work result applied =>
            rw [hphase] at hsource
            cases hsource
          | _ =>
            rw [hphase] at hsource
            cases hsource

/-- `Settled` over a run. -/
theorem settled_run {s : Portal ι} (h : Owned s) (moves : List (ι × Action)) {k : RunId}
    {id : String} {startedFrom : Option String} (hk : k.1 = .gitSync)
    (hsettled : Settled s k id startedFrom)
    (hleaves : Lib.Along Portal.step (LeavesOther id startedFrom) s moves) :
    Settled (s.run moves) k id startedFrom := by
  have hboth : Owned (s.run moves) ∧ Settled (s.run moves) k id startedFrom := by
    apply Lib.run_invariant (P := fun s => Owned s ∧ Settled s k id startedFrom) _ hleaves
    · exact ⟨h, hsettled⟩
    · rintro s move ⟨howned, hold⟩ hleaves
      exact ⟨(next_step howned move).owned howned, settled_step howned move hk hold hleaves⟩
  exact hboth.2

/-- The target of a run stays. -/
theorem target_run {s : Portal ι} (h : Owned s) (moves : List (ι × Action)) {k : RunId} {run : Run}
    (hget : s.runs.get k = some run) :
    ∃ run', (s.run moves).runs.get k = some run' ∧ run'.target = run.target := by
  induction moves generalizing s run with
  | nil => exact ⟨run, hget, rfl⟩
  | cons move rest ih =>
    have hnext := next_step h move
    obtain ⟨new, hnew, hfollows⟩ := hnext.follows k run hget
    obtain ⟨last, hlast, htarget⟩ := ih (hnext.owned h) hnew
    exact ⟨last, hlast, htarget.trans hfollows.2.1⟩

/-- While the run `k` was running in `s`, thread `u` commits an administrator's update of the
source of `snapshot` there; then come the statements `later`, and thread `t` is about to commit
the outcome of the run, whose sync started from `snapshot`. -/
structure UpdateDuringSync (s : Portal ι) (u : ι) (later : List (ι × Action)) (t : ι) (k : RunId)
    (snapshot row : GitSource) : Prop where
  running : ∃ run, s.runs.get k = some run ∧ run.status = .running
  update : (s.threads u).phase = .flushed
  written : s.sources.written u = some row
  source : row.id = snapshot.id
  finish : ∃ work result, work.claim.run = k ∧
    Finishes ((s.step (u, .commit)).run later) t work result snapshot

/-- An update that left another last synced commit than the one the sync started from survives
the sync, when no later update brought that one back. -/
theorem update_survives {s : Portal ι} (h : Owned s) {u t : ι} {later : List (ι × Action)}
    {k : RunId} {snapshot row : GitSource} (hrace : UpdateDuringSync s u later t k snapshot row)
    (hrow : row.lastSyncedCommit ≠ snapshot.lastSyncedCommit)
    (hlater : Lib.Along Portal.step (LeavesOther snapshot.id snapshot.lastSyncedCommit)
      (s.step (u, .commit)) later) :
    KeepsCommit ((s.step (u, .commit)).run later) t snapshot.id := by
  obtain ⟨⟨run, hget, hrunning⟩, hupdate, hwritten, hid, work, result, rfl, hfinish⟩ := hrace
  have hnext := next_step h (u, .commit)
  have howned := hnext.owned h
  have hlast := owned_run howned later
  obtain ⟨run₁, hget₁, hfollows⟩ := hnext.follows _ run hget
  obtain ⟨run₂, hget₂, htarget⟩ := target_run howned later hget₁
  -- at the end the sync holds its run, which is one of the source of the snapshot
  have hok := hlast.threads t
  rw [hfinish.phase] at hok
  obtain ⟨held, hheld, _, _, hreads⟩ := hok.holds work.claim rfl
  rw [hget₂] at hheld
  cases hheld
  obtain ⟨hk, hheldTarget⟩ := (hreads work.token (some snapshot.id)
    (by simp [reads, hfinish.source])).2 snapshot.id rfl
  have hcommit : s.step (u, .commit) = (s.commitRows u).goto u .idle := by
    unfold Portal.step Portal.commit
    simp only [hupdate]
  have hsources : (s.step (u, .commit)).sources.get snapshot.id = some row := by
    have hcommitted : (s.step (u, .commit)).sources = s.sources.commit u := by
      rw [hcommit]
      rfl
    rw [hcommitted, Rows.get_commit, hwritten, if_pos]
    rw [Option.map_some, hid]
  have hsettled : Settled (s.step (u, .commit)) work.claim.run snapshot.id
      snapshot.lastSyncedCommit := by
    refine ⟨run₁, hget₁, htarget.symm.trans hheldTarget, ?_⟩
    by_cases hended : Ended run₁
    · exact .inl hended
    · refine .inr ⟨?_, ?_⟩
      · cases hstatus : run₁.status with
        | queued => rfl
        | running => rfl
        | ended outcome => exact absurd ⟨outcome, hstatus⟩ hended
      · intro source hsource
        rw [hsources] at hsource
        cases hsource
        exact hrow
  -- the outcome is recorded on a running run, so the stored value still differs
  obtain ⟨last, hlastGet, _, hcases⟩ := settled_run howned later hk hsettled hlater
  obtain ⟨own, own', hown, hrecord, _⟩ := hok.run
  rw [hlastGet] at hown
  cases hown
  rcases hcases with ⟨outcome, hended⟩ | ⟨_, hother⟩
  · rw [(record_ends hrecord).1] at hended
    cases hended
  · cases hsource : ((s.step (u, .commit)).run later).sources.get snapshot.id with
    | none =>
      unfold KeepsCommit storedCommit
      rw [(next_step hlast (t, .commit)).sources_none hlast _ hsource, hsource]
    | some source =>
      exact (keepsCommit_iff hlast hfinish hsource).mpr (.inl (hother source hsource))

/-! ## A first sync -/

/-- A source of the evidence repository with a last synced commit. -/
def evidenceSource (lastSyncedCommit : Option String) : GitSource where
  id := "evidence"
  role := .evidence
  provider := .github
  repository := "portal/evidence"
  branch := "main"
  region := none
  credentialMode := .portalSecret
  pathMappings := none
  options := none
  lastSyncedCommit
  lastSyncedAt := none
  lastSyncStatus := none

/-- A portal with this source. -/
def evidencePortal (lastSyncedCommit : Option String) : Portal (Fin 2) where
  runs := Portal.empty.runs
  sources := .ofTable ⟨[evidenceSource lastSyncedCommit], List.nodup_singleton _⟩
    fun _ _ _ _ _ ha => nomatch ha
  threads := fun _ => .idle

/-- Thread 0 syncs the source and resolves its head, then thread 1 loads the source and changes
its role. -/
def updateMoves : List (Fin 2 × Action) :=
  [ (0, .enqueue .gitSync "evidence"), (0, .readActive), (0, .insert "run" 1), (0, .commit)
  , (0, .execute (.gitSync, "run")), (0, .readRun), (0, .acquire), (0, .claim "token" 2)
  , (0, .commit), (0, .enter), (0, .load), (0, .start "head"), (0, .verify .replied .replied)
  , (0, .commit), (1, .edit "evidence")
  , (1, .configure (fun _ => true)
      ⟨some "governance", none, none, none, none, none, none, none, none⟩) ]

/-- Thread 0 records the outcome of the sync. -/
def finishMoves : List (Fin 2 × Action) :=
  [(0, .finish ⟨.success, 3, none⟩), (0, .updateSource), (0, .verify .replied .replied)]

/-- What the sync read, and the head it resolved. -/
def syncWork (lastSyncedCommit : Option String) : Work :=
  ⟨⟨(.gitSync, "run"), "token"⟩, some "token", some (evidenceSource lastSyncedCommit),
    some "head"⟩

/-! ## When an update survives -/

/-- A sync's COMMIT keeps the last synced commit of its source exactly when the stored one is
not the one the sync started from, or it has no other head to store; and an update during the
sync that leaves another one survives the sync. -/
theorem finish_keeps_commit (s : Portal ι) (moves : List (ι × Action)) :
    (∀ (t : ι) (work : Work) (result : Result) (snapshot source : GitSource),
      Finishes (s.restart.run moves) t work result snapshot →
      (s.restart.run moves).sources.get snapshot.id = some source →
      (KeepsCommit (s.restart.run moves) t snapshot.id ↔
        source.lastSyncedCommit ≠ snapshot.lastSyncedCommit ∨ work.recordedHead result = none ∨
          work.recordedHead result = source.lastSyncedCommit)) ∧
    ∀ (u t : ι) (later : List (ι × Action)) (k : RunId) (snapshot row : GitSource),
      UpdateDuringSync (s.restart.run moves) u later t k snapshot row →
      row.lastSyncedCommit ≠ snapshot.lastSyncedCommit →
      Lib.Along Portal.step (LeavesOther snapshot.id snapshot.lastSyncedCommit)
        ((s.restart.run moves).step (u, .commit)) later →
      KeepsCommit (((s.restart.run moves).step (u, .commit)).run later) t snapshot.id := by
  have h : Owned (s.restart.run moves) := owned_run (owned_restart s) moves
  constructor
  · intro t work result snapshot source hfinish hsource
    exact keepsCommit_iff h hfinish hsource
  · intro u t later k snapshot row hrace hrow hlater
    exact update_survives h hrace hrow hlater

set_option maxRecDepth 8000 in
/-- A reset of a source with a last synced commit survives the sync that started from it. -/
theorem second_sync_keeps_reset :
    (KeepsCommit (((evidencePortal (some "old")).restart.run
      (updateMoves ++ (1, .flush) :: (1, .commit) :: finishMoves))) 0 "evidence" ↔
        none ≠ some "old" ∨ some "head" = none ∨ some "head" = none) ∧
    KeepsCommit ((((evidencePortal (some "old")).restart.run
      (updateMoves ++ [(1, .flush)])).step (1, .commit)).run finishMoves) 0
        (evidenceSource (some "old")).id := by
  constructor
  · exact (finish_keeps_commit (evidencePortal (some "old"))
      (updateMoves ++ (1, .flush) :: (1, .commit) :: finishMoves)).1 0 (syncWork (some "old"))
      ⟨.success, 3, none⟩ (evidenceSource (some "old"))
      { evidenceSource none with role := .governance }
      ⟨by decide +kernel, by decide +kernel, rfl⟩ (by decide +kernel)
  · have hworker : ∀ (s : Portal (Fin 2)) (action : Action),
        (s.threads 0).phase ≠ .flushed → LeavesOther (evidenceSource (some "old")).id
          (evidenceSource (some "old")).lastSyncedCommit s (0, action) :=
      fun s action hphase hflushed => absurd hflushed hphase
    have hrace : UpdateDuringSync
        ((evidencePortal (some "old")).restart.run (updateMoves ++ [(1, .flush)])) 1 finishMoves 0
        (.gitSync, "run") (evidenceSource (some "old"))
        { evidenceSource none with role := .governance } := by
      constructor
      · exact Option.map_eq_some_iff.mp (by decide +kernel)
      · decide +kernel
      · decide +kernel
      · rfl
      · refine ⟨syncWork (some "old"), ⟨.success, 3, none⟩, rfl, ?_⟩
        exact ⟨by decide +kernel, by decide +kernel, rfl⟩
    obtain ⟨_, hsurvives⟩ :=
      finish_keeps_commit (evidencePortal (some "old")) (updateMoves ++ [(1, .flush)])
    apply hsurvives 1 0 finishMoves _ _ _ hrace (by decide)
    unfold finishMoves Lib.Along
    refine ⟨hworker _ _ (by decide +kernel), ?_⟩
    unfold Lib.Along
    refine ⟨hworker _ _ (by decide +kernel), ?_⟩
    unfold Lib.Along
    exact ⟨hworker _ _ (by decide +kernel), trivial⟩

/-- The edit of a source changes what it reads or sets its last synced commit. -/
def Resets (loaded edited : GitSource) : Prop :=
  (∃ localAllowed data, applyConfig localAllowed loaded data = .ok edited ∧
    (repositoryIdentity edited ≠ repositoryIdentity loaded ∨
      readingIdentity edited ≠ readingIdentity loaded)) ∨
    ∃ commit, setLastSyncedCommit loaded commit = .ok edited

/-- The last synced commit that an update leaves survives every sync that was running. -/
def UpdatesSurvive : Prop :=
  ∀ (s : Portal (Fin 2)) (moves later : List (Fin 2 × Action)) (u t : Fin 2) (k : RunId)
    (loaded edited snapshot : GitSource) (work : Work) (result : Result),
    (∃ run, (s.restart.run moves).runs.get k = some run ∧ run.status = .running) →
    ((s.restart.run moves).threads u).phase = .flushing loaded edited → Resets loaded edited →
    loaded.id = snapshot.id → work.claim.run = k →
    Finishes ((s.restart.run moves).run ((u, .flush) :: (u, .commit) :: later)) t work result
      snapshot →
    KeepsCommit ((s.restart.run moves).run ((u, .flush) :: (u, .commit) :: later)) t snapshot.id

set_option maxRecDepth 8000 in
/-- The first sync of a source stores its head although the source's role changed since it
started: the reset to no commit is the value it started from. -/
theorem first_sync_overwrites_reset : ¬ UpdatesSurvive := by
  intro h
  have hkeeps := h (evidencePortal none) updateMoves finishMoves 1 0 (.gitSync, "run")
    (evidenceSource none) { evidenceSource none with role := .governance } (evidenceSource none)
    (syncWork none) ⟨.success, 3, none⟩ (Option.map_eq_some_iff.mp (by decide +kernel))
    (by decide +kernel)
    (.inl ⟨fun _ => true, ⟨some "governance", none, none, none, none, none, none, none, none⟩,
      by decide +kernel, .inr (by decide +kernel)⟩)
    rfl rfl ⟨by decide +kernel, by decide +kernel, rfl⟩
  unfold KeepsCommit storedCommit at hkeeps
  revert hkeeps
  decide +kernel

end TrustPortal.Proofs.GitSources
