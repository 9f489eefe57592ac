import TrustPortal.GitSources.FileWrites
import TrustPortal.Scheduler.System

/-!
# `TrustPortal.GitSources.SyncRun`: a sync from its start to its end

`SyncState` has the row of a source, what its syncs stored and the sync that is going on, if there
is one: the scheduler lets one run of a source execute at a time. A sync starts from a snapshot of
the row (`startSync`), goes through its candidates one at a time (`syncFile`) and records its outcome
(`finishSync`). In between an administrator can change the row, and at any time the process can
stop, which leaves everything that was committed.

The row of the run itself is not here: `Scheduler.System` has it, with the threads that execute runs
and leaves out what an execution writes. `applied` says whether the run is still running under its
executor's token, without which its outcome is not recorded.
-/

set_option autoImplicit false

namespace TrustPortal.GitSources

open TrustPortal.Audit (truthy)

/-! ## Commits -/

/-- `DEFAULT_HISTORY_LIMIT`. -/
def DEFAULT_HISTORY_LIMIT : Nat := 500

/-- `effective_options(source)["record_commits"]`. -/
def GitSource.recordCommits (source : GitSource) : Bool :=
  (source.options.bind Options.recordCommits).getD (source.role = .governance)

/-- `effective_options(source)["history_limit"]`. -/
def GitSource.historyLimit (source : GitSource) : Nat :=
  (source.options.bind Options.historyLimit).getD DEFAULT_HISTORY_LIMIT

/-- The row of a commit, none for one that is recorded or touched no mapped path. -/
def commitRow (provider : GitProvider) (mappings : List Mapping) (known : List String)
    (info : CommitInfo) : Except ProviderError (Option CommitRow) :=
  if known.contains info.commitId then .ok none
  else (provider.commitChangedPaths info).map fun changed =>
    let paths := changed.filter fun path => (classify path mappings).isSome
    if paths.isEmpty then none else some ⟨info, paths⟩

/-- The commits between the last synced one and the head. -/
def readHistory (provider : GitProvider) (lastSynced : Option String) (head : String) (limit : Nat)
    (full : Bool) : Except SyncError (List CommitInfo) :=
  match provider.commitsBetween lastSynced head limit with
  | .ok commits => .ok commits
  | .error (.notFound message) =>
    if !truthy lastSynced then .error (.provider (.notFound message))
    else if !full then .error (.unknownCommit (lastSynced.getD "") message)
    else match provider.commitsBetween none head limit with
      | .ok commits => .ok commits
      | .error error => .error (.provider error)
  | .error error => .error (.provider error)

/-- `record_commits`: the rows, and whether the history may be cut short. -/
def recordCommits (provider : GitProvider) (source : GitSource) (head : String) (full : Bool)
    (commits : Sql.Table CommitRow.commitId) :
    Except SyncError (Sql.Table CommitRow.commitId × Bool) :=
  if !provider.supportsHistory then .ok (commits, false)
  else do
    let history ← readHistory provider source.lastSyncedCommit head source.historyLimit full
    match history.mapM (commitRow provider source.mappings (commits.rows.map CommitRow.commitId)) with
    | .error error => throw (.provider error)
    | .ok rows =>
      match (rows.filterMap id).foldlM Sql.Table.insert commits with
      | some commits => return (commits, decide (source.historyLimit ≤ history.length))
      | none => throw (.database false "UniqueViolation")

/-! ## Runs -/

/-- A sync that is going on. `source` is its `SourceSnapshot`. -/
structure Running where
  source : GitSource
  memberId : Option String
  full : Bool
  head : String
  strategy : Strategy
  todo : List Candidate
  tally : Tally

/-- A source and its sync. -/
structure SyncState (σ : Type) where
  source : GitSource
  store : Store σ
  running : Option Running

/-- The status of a sync that went through its candidates. -/
def Running.outcome (run : Running) : Outcome :=
  if run.tally.counts.errors ≠ 0 ∨ run.tally.counts.flagged ≠ 0
      ∨ run.tally.counts.incomplete ≠ 0 then .incomplete
  else if run.tally.filesChanged = 0 ∧ run.source.lastSyncedCommit = some run.head then .unchanged
  else .success

section
variable {σ : Type} (tools : SyncTools) (importers : Importers σ)

/-- `_finish` of a failed sync. -/
def failSync (s : SyncState σ) (applied : Bool) : SyncState σ :=
  { s with
    source := if applied then { s.source with lastSyncStatus := some .failure } else s.source
    running := none }

/-- The start of `execute_sync_run`: the head and the candidates. -/
def startSync (s : SyncState σ) (provider : GitProvider) (memberId : Option String) (full : Bool) :
    Except SyncError Running :=
  match provider.resolveHead with
  | .error error => .error (.provider error)
  | .ok head =>
    (discoverCandidates tools.tables s.source.mappings s.store.files provider
      s.source.lastSyncedCommit head full).map fun (candidates, strategy) =>
        { source := s.source
          memberId
          full
          head
          strategy
          todo := candidates
          tally := { Tally.empty with filesChanged := candidates.length } }

/-- One turn of the loop over the candidates. -/
def syncFile (s : SyncState σ) (step : FileStep) (applied : Bool) : SyncState σ :=
  match s.running with
  | none => s
  | some run =>
    match run.todo with
    | [] => s
    | candidate :: todo =>
      match fetchAndWrite tools importers run.source.id run.memberId run.head step s.store run.tally
        candidate with
      | .ok (store, tally) => { s with store, running := some { run with todo, tally } }
      | .error .lockLost => { s with running := none }
      | .error _ => failSync s applied

/-- `_finish` of a sync that went through its candidates. The last synced commit moves only while it
is the one that the sync started from. -/
def recordOutcome (source : GitSource) (run : Running) (now : Int) : GitSource :=
  Scheduler.recordSync source run.source.lastSyncedCommit ⟨run.outcome, now, none⟩ (some run.head)

/-- The commits of a sync at its end, where the source records them. -/
def finishHistory (run : Running) (provider : GitProvider)
    (commits : Sql.Table CommitRow.commitId) :
    Except SyncError (Sql.Table CommitRow.commitId × Bool) :=
  if run.source.recordCommits ∧ run.source.lastSyncedCommit ≠ some run.head then
    recordCommits provider run.source run.head run.full commits
  else .ok (commits, false)

/-- What the end of a sync brings along: the answers of the provider, the time, whether the run is
still its executor's and what the transaction of the outcome raises. -/
structure FinishStep where
  provider : GitProvider
  now : Int
  applied : Bool
  outcomeCommit : Option SyncError

/-- The end of `execute_sync_run`, after the last candidate. The commits are recorded before the
outcome, in a transaction of their own. -/
def finishSync (s : SyncState σ) (step : FinishStep) : SyncState σ :=
  match s.running with
  | none => s
  | some run =>
    if run.todo ≠ [] then s
    else
      match finishHistory run step.provider s.store.commits with
      | .error _ => failSync s step.applied
      | .ok (commits, _) =>
        let s : SyncState σ := { s with store := { s.store with commits } }
        match step.outcomeCommit with
        | none =>
          { s with
            source := if step.applied then recordOutcome s.source run step.now else s.source
            running := none }
        | some .lockLost => { s with running := none }
        | some _ => failSync s step.applied

/-! ## Events -/

/-- What happens to a source. -/
inductive SyncEvent
  /-- An administrator updates the source; `localAllowed` has the directories that local sources
  may read. -/
  | update (localAllowed : String → Bool) (data : ConfigData)
  /-- An administrator sets the last synced commit. -/
  | cutover (commit : String)
  | start (provider : GitProvider) (memberId : Option String) (full applied : Bool)
  | file (step : FileStep) (applied : Bool)
  | finish (step : FinishStep)
  /-- The process ends or loses the lock of the run. -/
  | stop

/-- An update that may be refused. -/
def updated {σ : Type} (s : SyncState σ) (source : Except ConfigError GitSource) : SyncState σ :=
  match source with
  | .ok source => { s with source }
  | .error _ => s

/-- What an event does. -/
def syncStep (s : SyncState σ) : SyncEvent → SyncState σ
  | .update localAllowed data => updated s (applyConfig localAllowed s.source data)
  | .cutover commit => updated s (setLastSyncedCommit s.source commit)
  | .start provider memberId full applied =>
    if s.running.isSome then s
    else
      match startSync tools s provider memberId full with
      | .ok run => { s with running := some run }
      | .error _ => failSync s applied
  | .file step applied => syncFile tools importers s step applied
  | .finish step => finishSync s step
  | .stop => { s with running := none }

end

end TrustPortal.GitSources
