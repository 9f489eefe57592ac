import TrustPortal.GitSources.SyncRun
import TrustPortal.Lib.Mirror

/-!
# `TrustPortal.GitSources.Repository`: what a sync is for

A `Repository` has the files of each commit, by their blobs. A provider that keeps the contract of
`GitProvider` answers from it (`Keeps`), though any call may also fail. The id of a blob says what
its content is, whatever the repository.

A sync brings `git_source_files` in step with a commit: `InStep` says when the row of a file is right
for the file. A source whose last synced commit an administrator set has no rows for the files of
that commit, whose contents the portal is taken to have. `Accounted` allows for these.

`SyncHistory` keeps what the row of the source does not have: the heads that syncs have gone for since
the last synced commit was set, and the commit that an administrator set. `tracedStep` runs a source
with its history.

The commits of a repository are a `CommitGraph`.
-/

set_option autoImplicit false

namespace TrustPortal.GitSources

open TrustPortal.Lib
open TrustPortal.Python (Bytes)

/-! ## Repositories -/

/-- The files of the commits of a repository. -/
structure Repository where
  tree : String → List TreeEntry
  nodup : ∀ commit, ((tree commit).map TreeEntry.path).Nodup

/-- The blob of a file at a commit, none where there is no such file. -/
def Repository.blob (repo : Repository) (commit path : String) : Option String :=
  ((repo.tree commit).find? fun entry => entry.path = path).map TreeEntry.blobId

/-- The contract of `GitProvider`, for the answers it gives. -/
structure Keeps (content : String → Bytes) (repo : Repository) (provider : GitProvider) : Prop where
  /-- Every file of the tree. -/
  listTree : ∀ commit tree, provider.listTree commit = .ok tree → tree = repo.tree commit
  /-- The files that differ. -/
  diff : ∀ old new changes, provider.diff old new = .ok changes → ∀ change,
    change ∈ changes ↔
      blobChange change.path (repo.blob old change.path) (repo.blob new change.path) = some change
  /-- The content of a blob. -/
  readBlob : ∀ blob path commit data, provider.readBlob blob path commit = .ok data →
    data = content blob
  /-- The content of a file of the commit. -/
  readFile : ∀ path commit data, provider.readFile path commit none = .ok data →
    ∃ blob, repo.blob commit path = some blob ∧ data = content blob
  /-- Only a file of the commit is too large. -/
  tooLarge : ∀ path commit size limit message,
    provider.readFile path commit none = .error (.tooLarge size limit message) →
      ∃ blob, repo.blob commit path = some blob

/-- A provider of a repository whose branch is at `head`, which answers every question about files. -/
def Repository.serve (repo : Repository) (content : String → Bytes) (head : String) : GitProvider where
  resolveHead := .ok head
  listTree commit := .ok (repo.tree commit)
  diff old new :=
    let paths := ((repo.tree old ++ repo.tree new).map TreeEntry.path).dedup
    .ok (paths.filterMap fun path => blobChange path (repo.blob old path) (repo.blob new path))
  readBlob blob _ _ := .ok (content blob)
  readFile path commit _ := match repo.blob commit path with
    | some blob => .ok (content blob)
    | none => .error (.notFound s!"{path} is not in {commit}")
  supportsHistory := false
  commitsBetween _ _ _ := .ok []
  commitChangedPaths _ := .ok []

/-! ## Rows in step with a commit -/

/-- The row of a file is right for its blob, or says that the file could not be read. The blob of a
file that is too large may not be known. -/
def InStep : Option String → Option SourceFile → Prop
  | some blob, some record =>
    record.status = .error ∨ (record.status ≠ .deleted ∧ record.blobId = some blob)
      ∨ (record.status = .tooLarge ∧ record.blobId = none)
  | some _, none => False
  | none, some record => record.status = .deleted ∨ record.status = .error
  | none, none => True

/-- A file is in step, or has no row and is the one of the commit that an administrator set. -/
def Accounted (repo : Repository) (base : Option String) (path : String) (blob : Option String)
    (record : Option SourceFile) : Prop :=
  InStep blob record ∨ (record = none ∧ ∃ commit, base = some commit ∧ repo.blob commit path = blob)

/-- A path that a source reads. -/
def GitSource.Reads (source : GitSource) (path : String) : Prop :=
  (classify path source.mappings).isSome

/-! ## Commits -/

/-- The commits of a repository. -/
structure CommitGraph where
  /-- The second commit is reachable from the first one, by parents. -/
  reaches : String → String → Prop
  changed : String → List String

/-- The contract of a provider that has a history, for the answers it gives. A list that has as many
commits as it may have can be cut short. -/
structure KeepsHistory (graph : CommitGraph) (provider : GitProvider) : Prop where
  supported : provider.supportsHistory = true
  /-- The commits of a range. -/
  between : ∀ start stop limit commits, provider.commitsBetween start stop limit = .ok commits →
    commits.length < limit → ∀ commit, commit ∈ commits.map CommitInfo.commitId ↔
      graph.reaches stop commit ∧ ∀ first, start = some first → ¬graph.reaches first commit
  /-- The paths that a commit changed. -/
  changed : ∀ info paths, provider.commitChangedPaths info = .ok paths →
    paths = graph.changed info.commitId

/-- `repository_identity`, which says what repository a source reads. -/
abbrev RepositoryIdentity := Provider × String × String × Option String × Option String

/-! ## Histories -/

/-- What happened since the last synced commit was set. -/
structure SyncHistory where
  /-- The heads that syncs have gone for, the newest first. -/
  heads : List String
  /-- The commit that an administrator set, until a sync compares the trees. -/
  base : Option String
  /-- The commit that an administrator set, until a sync starts without a last synced commit. -/
  cutover : Option String

/-- The history of a source to which nothing happened. -/
def SyncHistory.new : SyncHistory := ⟨[], none, none⟩

section
variable {σ : Type} (tools : SyncTools) (importers : Importers σ)

/-- The history after an event that led from `s` to `s'`. -/
def SyncHistory.after (history : SyncHistory) (s s' : SyncState σ) : SyncEvent → SyncHistory
  | .cutover _ =>
    if s'.source = s.source then history
    else ⟨[], s'.source.lastSyncedCommit, s'.source.lastSyncedCommit⟩
  | .start _ _ _ _ =>
    match s.running, s'.running with
    | none, some run => { history with heads := run.head :: history.heads }
    | _, _ => history
  | .finish _ =>
    match s.running with
    | some run =>
      if run.todo = [] ∧ s'.source.lastSyncedCommit = some run.head then
        { heads := []
          base := if run.strategy = .diff then history.base else none
          cutover := if run.source.lastSyncedCommit = none then none else history.cutover }
      else history
    | none => history
  | .update _ _ | .file _ _ | .stop => history

/-- A source and its history after an event. -/
def tracedStep (s : SyncState σ × SyncHistory) (event : SyncEvent) : SyncState σ × SyncHistory :=
  let next := syncStep tools importers s.1 event
  (next, s.2.after s.1 next event)

/-- A source and its history after some events, from a state in which nothing happened. -/
def traced (s : SyncState σ) (events : List SyncEvent) : SyncState σ × SyncHistory :=
  events.foldl (tracedStep tools importers) (s, .new)

end

end TrustPortal.GitSources
