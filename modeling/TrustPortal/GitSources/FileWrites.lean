import TrustPortal.GitSources.Fetch

/-!
# `TrustPortal.GitSources.FileWrites`: the transaction of a file

`processCandidate` writes a candidate that was read: the content of a governance file becomes a
version of it, a dataset file or a decision log goes to its importer, and the row of the file says
what became of it. `fetchAndWrite` reads the file, writes it in a transaction of its own, again
after a deadlock, and records an error of the file otherwise.

What the importers do to the evidence `σ` of the portal is not said here: `Importers` has any three
functions. A failed transaction leaves the store as it was, so a statement that fails is a commit
that fails, and the ids of the two attempts are given with what their commits raise.
-/

set_option autoImplicit false

namespace TrustPortal.GitSources

open TrustPortal.Lib
open TrustPortal.Python (Bytes Str decodeStrict)

/-! ## The importers -/

/-- `ImportCounts`. -/
structure ImportCounts where
  created : Nat
  updated : Nat
  unchanged : Nat
  deleted : Nat
  skipped : Nat
  retired : Nat
  errors : List String

/-- `DecisionLogResult.status`. -/
inductive LogStatus
  | created
  | replaced
  | rejected
  /-- `unchanged` or `kept_existing`. -/
  | kept
  deriving DecidableEq

/-- `DecisionLogResult`. -/
structure LogResult where
  status : LogStatus
  sessionId : Option String
  reason : Option String
  conflict : Bool
  baselined : Bool

/-- The arguments of `import_decision_log`. -/
structure LogCall where
  log : FetchedLog
  submittedBy : Option String
  sourceCommit : String

/-- What `import_decision_log` raises. -/
inductive LogCallError
  /-- `TranscriptLimitError`, before anything is written. -/
  | limit (limit : Nat)
  | raised (error : SyncError)

/-- `import_dataset_file`, `remove_dataset_file` and `import_decision_log`, on evidence `σ`. -/
structure Importers (σ : Type) where
  importDatasetFile (dataset : Dataset) (path : String) (data : Bytes) (sourceId : String)
    (evidence : σ) : Except SyncError (σ × ImportCounts)
  removeDatasetFile (dataset : Dataset) (path : String) (sourceId : String) (evidence : σ) :
    Except SyncError (σ × ImportCounts)
  importDecisionLog (call : LogCall) (evidence : σ) : Except LogCallError (σ × LogResult)

/-! ## The tally -/

/-- The counts of `COUNT_KEYS`. -/
structure Counts where
  created : Nat
  updated : Nat
  unchanged : Nat
  deleted : Nat
  skipped : Nat
  flagged : Nat
  incomplete : Nat
  errors : Nat
  deriving DecidableEq

namespace Counts

/-- All zero. -/
def zero : Counts := ⟨0, 0, 0, 0, 0, 0, 0, 0⟩

/-- Each count added. -/
def add (a b : Counts) : Counts where
  created := a.created + b.created
  updated := a.updated + b.updated
  unchanged := a.unchanged + b.unchanged
  deleted := a.deleted + b.deleted
  skipped := a.skipped + b.skipped
  flagged := a.flagged + b.flagged
  incomplete := a.incomplete + b.incomplete
  errors := a.errors + b.errors

end Counts

/-- `SyncTally`. -/
structure Tally where
  counts : Counts
  byKind : List (Kind × Counts)
  flagged : List (String × Flag)
  /-- The text of an error, by what it says. -/
  errors : List (String × Detail)
  conflicts : List (String × Option String)
  filesChanged : Nat
  retired : Nat
  rebuilt : Nat
  baselined : Nat

namespace Tally

/-- `SyncTally()`. -/
def empty : Tally := ⟨.zero, [], [], [], [], 0, 0, 0, 0⟩

/-- `SyncTally.add`. -/
def add (tally : Tally) (kind : Kind) (values : Counts) : Tally :=
  let bucket := ((Dict.get Prod.fst tally.byKind kind).map Prod.snd).getD .zero
  { tally with
    counts := tally.counts.add values
    byKind := Dict.put Prod.fst tally.byKind (kind, bucket.add values) }

/-- An error of a file. -/
def addError (tally : Tally) (path : String) (detail : Detail) : Tally :=
  { tally with errors := tally.errors ++ [(path, detail)] }

end Tally

/-! ## The store -/

/-- A row of `git_file_versions` of one source, by the path of its file. -/
structure FileVersion where
  id : String
  path : String
  commitId : String
  blobId : String
  sha256 : Str
  size : Nat
  content : Str
  deriving DecidableEq

/-- A row of `git_commits` of one source. -/
structure CommitRow where
  info : CommitInfo
  paths : List String
  deriving DecidableEq

/-- `commit_id`, of which a source has one row. -/
def CommitRow.commitId (row : CommitRow) : String := row.info.commitId

/-- What the syncs of one source write. -/
structure Store (σ : Type) where
  files : SourceFiles
  versions : Sql.Table FileVersion.id
  commits : Sql.Table CommitRow.commitId
  evidence : σ

/-- `(file_id, blob_id)` of `git_file_versions`. -/
def FileVersion.isOf (version : FileVersion) (path blobId : String) : Bool :=
  version.path = path && version.blobId = blobId

section
variable {σ : Type}

/-- The row of a file is written. -/
def Store.putFile (s : Store σ) (record : SourceFile) : Store σ :=
  { s with files := s.files.upsert record }

/-- `_file_record`: the row of the file, with the kind of the candidate. -/
def fileRecord (files : SourceFiles) (candidate : Candidate) : SourceFile :=
  match files.get candidate.path with
  | some record => { record with kind := candidate.kind }
  | none => ⟨candidate.path, candidate.kind, none, none, .ok, none, none, none⟩

/-! ## Writing a file -/

section
variable (tools : SyncTools) (importers : Importers σ) (sourceId : String)
  (memberId : Option String) (head versionId : String)

/-- `_store_content_version`: the store, the current version and whether it is a new one. -/
def storeContentVersion (s : Store σ) (record : SourceFile) (content : Bytes) (blobId : String) :
    Except SyncError (Store σ × String × Bool) :=
  match decodeStrict content with
  | none => .error (.notText record.path)
  | some text =>
    match s.versions.rows.find? fun version => version.isOf record.path blobId with
    | some existing => .ok (s, existing.id, false)
    | none =>
      let version : FileVersion :=
        ⟨versionId, record.path, head, blobId, tools.hash.sha256 content, content.length, text⟩
      match s.versions.insert version with
      | some versions => .ok ({ s with versions }, versionId, true)
      | none => .error (.database false "UniqueViolation")

/-- A deleted file. -/
def writeDeleted (s : Store σ) (tally : Tally) (record : SourceFile) :
    Except SyncError (Store σ × Tally) :=
  let gone : SourceFile :=
    { record with status := .deleted, statusDetail := none, blobId := none, lastCommitId := some head }
  match record.kind with
  | .dataset name =>
    (importers.removeDatasetFile name record.path sourceId s.evidence).map fun (evidence, counts) =>
      ( { s.putFile gone with evidence }
      , tally.add record.kind { Counts.zero with deleted := counts.deleted, skipped := counts.skipped } )
  | .policy | .governanceDocument =>
    .ok (s.putFile gone, tally.add record.kind { Counts.zero with deleted := 1 })
  | .decisionLog | .other _ =>
    .ok (s.putFile gone, tally.add record.kind { Counts.zero with skipped := 1 })

/-- A file that is too large. -/
def writeFlagged (s : Store σ) (tally : Tally) (record : SourceFile) (blobId : Option String)
    (flag : Flag) : Store σ × Tally :=
  let tally := tally.add record.kind { Counts.zero with flagged := 1 }
  ( s.putFile { record with
      status := .tooLarge
      statusDetail := some (.flagged flag)
      blobId
      size := flag.size
      lastCommitId := some head }
  , { tally with flagged := tally.flagged ++ [(record.path, flag)] } )

/-- The content of a governance file. -/
def writeContent (s : Store σ) (tally : Tally) (record : SourceFile) (content : Bytes)
    (blobId : String) : Except SyncError (Store σ × Tally) :=
  (storeContentVersion tools head versionId s record content blobId).map fun (s, version, created) =>
    ( s.putFile { record with currentVersionId := some version }
    , tally.add record.kind
        (if created then { Counts.zero with created := 1 }
          else { Counts.zero with unchanged := 1 }) )

/-- The tally of a dataset file. -/
def tallyDataset (tally : Tally) (record : SourceFile) (counts : ImportCounts) : Tally :=
  let tally := tally.add record.kind { Counts.zero with
    created := counts.created
    updated := counts.updated
    unchanged := counts.unchanged
    deleted := counts.deleted
    skipped := counts.skipped }
  let tally := if counts.retired = 0 then tally else { tally with
    retired := tally.retired + counts.retired
    rebuilt := tally.rebuilt + counts.created }
  let errors := (counts.errors.take 20).map fun message => (record.path, Detail.message message)
  { tally with errors := tally.errors ++ errors }

/-- A dataset file. -/
def writeDataset (s : Store σ) (tally : Tally) (record : SourceFile) (name : Dataset)
    (content : Bytes) : Except SyncError (Store σ × Tally) :=
  (importers.importDatasetFile name record.path content sourceId s.evidence).map
    fun (evidence, counts) =>
      let s := { s with evidence }
      let tally := tallyDataset tally record counts
      match counts.errors with
      | [] => (s.putFile record, tally)
      | first :: rest =>
        ( s.putFile { record with
            status := .incomplete
            statusDetail := some (.skipped (rest.length + 1) first) }
        , tally.add record.kind { Counts.zero with incomplete := 1 } )

/-- The outcome of a decision log that was imported. -/
def writeLogResult (s : Store σ) (tally : Tally) (record : SourceFile) (result : LogResult) :
    Store σ × Tally :=
  match result.status with
  | .rejected =>
    let detail := Detail.rejected result.reason
    ( s.putFile { record with status := .error, statusDetail := some detail }
    , (tally.add record.kind { Counts.zero with errors := 1 }).addError record.path detail )
  | status =>
    let tally := if result.conflict then
        { tally with conflicts := tally.conflicts ++ [(record.path, result.sessionId)] }
      else tally
    let tally := if result.baselined then { tally with baselined := tally.baselined + 1 } else tally
    ( s.putFile record
    , tally.add record.kind (match status with
        | .created => { Counts.zero with created := 1 }
        | .replaced => { Counts.zero with updated := 1 }
        | .rejected | .kept => { Counts.zero with unchanged := 1 }) )

/-- A file that was read. -/
def writeRead (s : Store σ) (tally : Tally) (record : SourceFile) (content : Bytes)
    (blobId : String) (logResult : Option LogResult) : Except SyncError (Store σ × Tally) :=
  let record : SourceFile := { record with
    status := .ok
    statusDetail := none
    blobId := some blobId
    size := some content.length
    lastCommitId := some head }
  match record.kind, logResult with
  | .policy, _ | .governanceDocument, _ =>
    writeContent tools head versionId s tally record content blobId
  | .dataset name, _ => writeDataset importers sourceId s tally record name content
  | .decisionLog, some result => .ok (writeLogResult s tally record result)
  | .decisionLog, none | .other _, _ =>
    .ok (s.putFile record, tally.add record.kind { Counts.zero with skipped := 1 })

/-- The import of a decision log, which comes before the other writes. A transcript over the limits
is a file that is too large. -/
def importLog (s : Store σ) (candidate : Candidate) (fetched : FetchedFile) :
    Except SyncError (Store σ × FetchedFile × Option LogResult) :=
  match candidate.kind, fetched with
  | .decisionLog, .read _ blobId (some log) =>
    match importers.importDecisionLog ⟨log, memberId, head⟩ s.evidence with
    | .ok (evidence, result) => .ok ({ s with evidence }, fetched, some result)
    | .error (.limit limit) =>
      let flag : Flag := ⟨some log.transcript.length, limit, .transcriptContentLimit⟩
      .ok (s, .tooLarge (some blobId) flag, none)
    | .error (.raised error) => .error error
  | _, _ => .ok (s, fetched, none)

/-- `process_candidate`. -/
def processCandidate (s : Store σ) (tally : Tally) (candidate : Candidate)
    (fetched : FetchedFile) : Except SyncError (Store σ × Tally) := do
  let (s, fetched, logResult) ← importLog importers memberId head s candidate fetched
  let record := fileRecord s.files candidate
  if candidate.changeType = .change .deleted then
    writeDeleted importers sourceId head s tally record
  else
    match fetched with
    | .nothing => throw .type
    | .tooLarge blobId flag => return writeFlagged head s tally record blobId flag
    | .read content blobId _ =>
      writeRead tools importers sourceId head versionId s tally record content blobId logResult

end

/-! ## The transaction -/

/-- What a step of a sync brings along: the answers of the provider, the ids of `uuid.uuid4()` and
what the commits of the first and the second attempt and of an error's row raise. -/
structure FileStep where
  provider : GitProvider
  firstId : String
  secondId : String
  firstCommit : Option SyncError
  secondCommit : Option SyncError
  errorCommit : Option SyncError

/-- A commit that may raise. -/
def committed {α : Type} (commit : Option SyncError) (written : Except SyncError α) :
    Except SyncError α :=
  written.bind fun value => match commit with
    | none => .ok value
    | some error => .error error

/-- `_record_file_error`. -/
def recordFileError (s : Store σ) (tally : Tally) (candidate : Candidate) (head : String)
    (error : SyncError) (commit : Option SyncError) : Except SyncError (Store σ × Tally) :=
  let record := fileRecord s.files candidate
  let detail := Detail.raised error
  committed commit (.ok
    ( s.putFile { record with
        status := .error
        statusDetail := some detail
        lastCommitId := some head }
    , (tally.add candidate.kind { Counts.zero with errors := 1 }).addError candidate.path detail ))

/-- An attempt that failed: a lost lock is passed on, anything else is an error of the file. -/
def attemptFailed (s : Store σ) (tally : Tally) (candidate : Candidate) (head : String)
    (commit : Option SyncError) : SyncError → Except SyncError (Store σ × Tally)
  | .lockLost => .error .lockLost
  | error => recordFileError s tally candidate head error commit

/-- `_fetch_and_write`: the store and the tally after the file, or what ends the run. -/
def fetchAndWrite (tools : SyncTools) (importers : Importers σ) (sourceId : String)
    (memberId : Option String) (head : String) (step : FileStep) (s : Store σ) (tally : Tally)
    (candidate : Candidate) : Except SyncError (Store σ × Tally) :=
  match fetchCandidate tools step.provider candidate head with
  | .error error => recordFileError s tally candidate head error step.errorCommit
  | .ok fetched =>
    match committed step.firstCommit (processCandidate tools importers sourceId memberId head
      step.firstId s tally candidate fetched) with
    | .ok written => .ok written
    | .error error =>
      if error.isDeadlock then
        match committed step.secondCommit (processCandidate tools importers sourceId memberId head
          step.secondId s tally candidate fetched) with
        | .ok written => .ok written
        | .error error => attemptFailed s tally candidate head step.errorCommit error
      else attemptFailed s tally candidate head step.errorCommit error

end

end TrustPortal.GitSources
