import TrustPortal.DecisionLog.Import
import TrustPortal.GitSources.Provider
import TrustPortal.GitSources.Service
import TrustPortal.Python.Number
import TrustPortal.Sql.Table

/-!
# `TrustPortal.GitSources.Candidates`: the files a sync looks at

A sync reads a commit of the repository, the branch head, through a `GitProvider`. It works out
which of the mapped files it has to read (`discoverCandidates`): those that differ between the last
synced commit and the head, where the provider can compare the two, or else those whose blob at
the head is not the one in `git_source_files`. Files that failed the last time are read again.
-/

set_option autoImplicit false

namespace TrustPortal.GitSources

open TrustPortal.Audit (truthy)
open TrustPortal.Lib
open TrustPortal.Python (Bytes CodePoint Str str TextTables)

/-! ## Stored files -/

/-- `git_source_files.status`. -/
inductive FileStatus
  | ok
  | incomplete
  | tooLarge
  | error
  | deleted
  deriving DecidableEq

/-- `RETRY_STATUSES`. -/
def FileStatus.isRetried : FileStatus → Bool
  | .error | .incomplete => true
  | .ok | .tooLarge | .deleted => false

/-- Why a file is not read. -/
inductive FlagReason
  /-- `PROVIDER_LIMIT_REASON`. -/
  | providerLimit
  /-- `TRANSCRIPT_LIMIT_REASON`. -/
  | transcriptLimit
  /-- `TRANSCRIPT_CONTENT_LIMIT_REASON`. -/
  | transcriptContentLimit
  /-- `CHUNK_PART_LIMIT_REASON`. -/
  | chunkPartLimit
  deriving DecidableEq

/-- `FetchedFile.too_large`. Its `detail` is the text of the exception. -/
structure Flag where
  size : Option Nat
  limit : Nat
  reason : FlagReason
  deriving DecidableEq

/-- `status_detail`, by what it says. -/
inductive Detail
  | raised (error : SyncError)
  | flagged (flag : Flag)
  /-- `{len(errors)} record(s) skipped: {errors[0]}` -/
  | skipped (count : Nat) (first : String)
  /-- `transcript rejected: {reason}` -/
  | rejected (reason : Option String)
  /-- A message of an importer. -/
  | message (text : String)

/-- A row of `git_source_files` of one source. Its id is a random UUID, which stands for the path:
a source has one row for a path. -/
structure SourceFile where
  path : String
  kind : Kind
  blobId : Option String
  size : Option Nat
  status : FileStatus
  statusDetail : Option Detail
  lastCommitId : Option String
  currentVersionId : Option String

/-- `git_source_files` of one source. -/
abbrev SourceFiles := Sql.Table SourceFile.path

/-! ## Candidates -/

/-- `Candidate.change_type`. -/
inductive CandidateType
  | change (type : ChangeType)
  /-- `R`: the file failed the last time. -/
  | retry
  deriving DecidableEq

/-- `Candidate`. -/
structure Candidate where
  path : String
  kind : Kind
  changeType : CandidateType
  blobId : Option String
  /-- From the listing of the tree. -/
  size : Option Nat
  deriving DecidableEq

/-- `_sort_key`: the datasets in the order of their import, then the decision logs, then the
other files, each by path. -/
def Candidate.sortKey (candidate : Candidate) : Nat × Nat × String :=
  match candidate.kind with
  | .dataset name => (0, name.rank, candidate.path)
  | .decisionLog => (1, 0, candidate.path)
  | .policy | .governanceDocument | .other _ => (2, 0, candidate.path)

/-- The order of `_sort_key`. -/
def Candidate.le (a b : Candidate) : Bool :=
  let (kindA, rankA, pathA) := a.sortKey
  let (kindB, rankB, pathB) := b.sortKey
  kindA < kindB || (kindA = kindB && (rankA < rankB || (rankA = rankB && pathA ≤ pathB)))

/-- `candidates.sort(key=_sort_key)`. -/
def sortCandidates (candidates : List Candidate) : List Candidate :=
  candidates.insertionSort fun a b => Candidate.le a b

/-- `MANIFEST_SUFFIX`. -/
def MANIFEST_SUFFIX : List Char := DecisionLog.MANIFEST_SUFFIX

/-- `\d`. -/
def isDecimal (tables : TextTables) (c : Char) : Bool :=
  (tables.decimal (CodePoint.ofChar c)).isSome

/-- `_PART_RE` without the end of the text: some characters but no line break, `.part-` and four
digits. The name that `(?P<name>.+)` takes. -/
def partStem (tables : TextTables) (text : List Char) : Option (List Char) :=
  let digits := text.drop (text.length - 4)
  if digits.length = 4 && digits.all (isDecimal tables) then
    match DecisionLog.dropSuffix ".part-".toList (text.take (text.length - 4)) with
    | some name => if name ≠ [] && !name.contains '\n' then some name else none
    | none => none
  else none

/-- `_PART_RE.match`, and the path of the manifest. `$` also matches before a line break at the
end. -/
def partManifest (tables : TextTables) (path : String) : Option String :=
  let text := path.toList
  let stem := if text.getLast? = some '\n' then partStem tables text.dropLast
    else partStem tables text
  stem.map fun name => String.ofList (name ++ MANIFEST_SUFFIX)

section
variable (tables : TextTables) (mappings : List Mapping) (stored : SourceFiles)

/-- A changed file that a mapping names. -/
def changedCandidate (change : Change) : Option Candidate :=
  (classify change.path mappings).map fun kind =>
    ⟨change.path, kind, .change change.changeType, change.blobId, none⟩

/-- The manifest of a stored chunked file one of whose parts changed. -/
def manifestCandidate (path : String) : Option Candidate := do
  let kind ← classify path mappings
  let record ← stored.get path
  if record.status = .deleted then none else some ⟨path, kind, .change .modified, none, none⟩

/-- `_candidates_from_changes`. -/
def candidatesFromChanges (changes : List Change) : List Candidate :=
  let out := changes.filterMap (changedCandidate mappings)
  let partsChanged := (changes.filter fun change => (classify change.path mappings).isNone).filterMap
    fun change => partManifest tables change.path
  let manifests := (partsChanged.filter fun path => !(out.map Candidate.path).contains path).dedup
  out ++ (manifests.insertionSort (· ≤ ·)).filterMap (manifestCandidate mappings stored)

/-- A file of the tree, none where it is stored as it is. `full` reads every mapped file. -/
def treeCandidate (full : Bool) (entry : TreeEntry) : Option Candidate :=
  (classify entry.path mappings).bind fun kind =>
    match stored.get entry.path with
    | some record =>
      if !full && record.blobId = some entry.blobId
          && (record.status = .ok || record.status = .tooLarge) then none
      else some ⟨entry.path, kind, .change .modified, some entry.blobId, entry.size⟩
    | none => some ⟨entry.path, kind, .change .added, some entry.blobId, entry.size⟩

/-- A stored file that no mapped file of the tree is. -/
def goneCandidate (seen : List String) (record : SourceFile) : Option Candidate :=
  if !seen.contains record.path && record.status ≠ .deleted then
    some ⟨record.path, record.kind, .change .deleted, none, none⟩
  else none

/-- `_candidates_from_tree`. -/
def candidatesFromTree (full : Bool) (tree : List TreeEntry) : List Candidate :=
  let seen := (tree.filter fun entry => (classify entry.path mappings).isSome).map TreeEntry.path
  tree.filterMap (treeCandidate mappings stored full) ++ stored.rows.filterMap (goneCandidate seen)

/-- A stored file that failed the last time. -/
def retryCandidate (listed : List String) (record : SourceFile) : Option Candidate :=
  if record.status.isRetried && !listed.contains record.path then
    some ⟨record.path, (classify record.path mappings).getD record.kind, .retry, none, none⟩
  else none

/-- The candidates with the files that are retried, in order. -/
def withRetries (candidates : List Candidate) : List Candidate :=
  sortCandidates (candidates
    ++ stored.rows.filterMap (retryCandidate mappings (candidates.map Candidate.path)))

/-- How the candidates were found. -/
inductive Strategy
  | diff
  | tree
  | full
  deriving DecidableEq

/-- The candidates of the difference, none where the trees are compared instead. -/
def diffCandidates (provider : GitProvider) (lastSynced : Option String) (head : String) :
    Except SyncError (Option (List Candidate)) :=
  if truthy lastSynced ∧ lastSynced ≠ some head then
    let last := lastSynced.getD ""
    match provider.diff last head with
    | .ok changes => .ok (some (candidatesFromChanges tables mappings stored changes))
    | .error (.notFound message) => .error (.unknownCommit last message)
    | .error error =>
      if error.isGitSourceError then .ok none else .error (.provider error)
  else .ok none

/-- The candidates of the trees. -/
def treeCandidates (provider : GitProvider) (head : String) (full : Bool) :
    Except SyncError (List Candidate) :=
  match provider.listTree head with
  | .ok tree => .ok (candidatesFromTree mappings stored full tree)
  | .error error => .error (.provider error)

/-- `discover_candidates`. -/
def discoverCandidates (provider : GitProvider) (lastSynced : Option String) (head : String)
    (full : Bool) : Except SyncError (List Candidate × Strategy) :=
  if full then
    (treeCandidates mappings stored provider head true).map fun candidates =>
      (sortCandidates candidates, .full)
  else do
    match ← diffCandidates tables mappings stored provider lastSynced head with
    | some candidates => return (withRetries mappings stored candidates, .diff)
    | none =>
      if lastSynced = some head then return (withRetries mappings stored [], .diff)
      else
        let candidates ← treeCandidates mappings stored provider head false
        return (withRetries mappings stored candidates, .tree)

end

end TrustPortal.GitSources
