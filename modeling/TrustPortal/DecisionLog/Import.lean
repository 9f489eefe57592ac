import TrustPortal.DecisionLog.Session

/-!
# `TrustPortal.DecisionLog.Import`: `import_decision_log`

`importDecisionLog` stores one transcript: it creates the session, extends it, lets the
evidence repository's version win a conflict, records a baseline, keeps what is stored or
rejects the upload. The transaction holds the session's advisory lock, so calls for one
session run one after another and the INSERT of a new session never meets an existing row.

An `ImportCall` has the arguments of the call. `Upload` is what `_import` works with: the
arguments, the digest, the size and the two context variables `_SOURCE_COMMIT` and
`_STORE_OBJECT`.
-/

set_option autoImplicit false

namespace TrustPortal.DecisionLog

open TrustPortal.Sql
open TrustPortal.Audit

/-! ## Arguments -/

/-- `AUTHORITIES`. -/
inductive Authority
  | system
  | store
  | admin
  | member
  deriving DecidableEq, Repr

/-- `authority in SOURCE_AUTHORITIES`. -/
def Authority.isSource : Authority → Bool
  | .system => true
  | .store => true
  | .admin => false
  | .member => false

/-- The arguments of `import_decision_log`. `content` is in hexadecimal. -/
structure ImportCall where
  content : String
  sessionId : Option String
  sourcePath : Option String
  exitReason : Option String
  submittedBy : Option String
  authority : Authority
  dryRun : Bool
  sourceCommit : Option String
  agentType : Option String
  storeObjectId : Option String
  parsed : Option ParsedTranscript
  deriving DecidableEq, Repr

/-- `MAX_TRANSCRIPT_BYTES`. -/
def MAX_TRANSCRIPT_BYTES : Nat := 32 * 1024 * 1024

/-- `JSONL_SUFFIX`. -/
def JSONL_SUFFIX : List Char := ".jsonl".toList

/-- `chunked_files.MANIFEST_SUFFIX`. -/
def MANIFEST_SUFFIX : List Char := ".manifest.json".toList

/-- `text[: -len(suffix)]` of a text that ends with `suffix`. -/
def dropSuffix (suffix text : List Char) : Option (List Char) :=
  if suffix.isSuffixOf text then some (text.take (text.length - suffix.length)) else none

/-- `os.path.basename` of a path, its backslashes read as slashes. -/
def basename (path : List Char) : List Char :=
  ((path.map fun c => if c = '\\' then '/' else c).reverse.takeWhile fun c => c ≠ '/').reverse

/-- `session_id_from_path`: the part of the file name after the first underscore. -/
def sessionIdFromPath (path : Option String) : Option String :=
  if truthy path then
    let base := basename (path.getD "").toList
    let base := (dropSuffix MANIFEST_SUFFIX base).getD base
    match dropSuffix JSONL_SUFFIX base with
    | none => none
    | some stem =>
        let rest := (stem.dropWhile fun c => c ≠ '_').drop 1
        if rest.isEmpty then none else some (String.ofList rest)
  else none

/-- `[A-Za-z0-9]`. -/
def isIdStart (c : Char) : Bool := c.isAlphanum

/-- `[A-Za-z0-9._-]`. -/
def isIdChar (c : Char) : Bool := c.isAlphanum || c = '.' || c = '_' || c = '-'

/-- `SESSION_ID_RE.match`. Python's `$` also matches before a newline at the end. -/
def sessionIdMatch (sid : String) : Bool :=
  let chars := sid.toList
  let body := if chars.getLast? = some '\n' then chars.dropLast else chars
  match body with
  | [] => false
  | first :: rest => isIdStart first && decide (rest.length ≤ 35) && rest.all isIdChar

/-- `sid[:80]!r`, for a text without apostrophes, backslashes and unprintable characters. -/
def shownId (sid : String) : String :=
  let start := String.ofList (sid.toList.take 80)
  s!"'{start}'"

/-- The whitespace `str.strip` removes. -/
def isPythonSpace (c : Char) : Bool :=
  let n := c.toNat
  (9 ≤ n && n ≤ 13) || (28 ≤ n && n ≤ 32) || n = 0x85 || n = 0xa0 || n = 0x1680
    || (0x2000 ≤ n && n ≤ 0x200a) || n = 0x2028 || n = 0x2029 || n = 0x202f || n = 0x205f
    || n = 0x3000

/-- `str.lower` of a character, as far as it leads to `[a-z0-9_-]`: the letters of ASCII and
the Kelvin sign. -/
def lowerChar (c : Char) : Char := if c.toNat = 0x212a then 'k' else c.toLower

/-- `normalize_agent_type`. -/
def normalizeAgentType (agent : Option String) : Option String :=
  agent.bind fun name =>
    let stripped := ((name.toList.dropWhile isPythonSpace).reverse.dropWhile isPythonSpace).reverse
    let label := stripped.map fun c => if c = '-' then '_' else lowerChar c
    if label ≠ [] ∧ label.length ≤ 50 ∧ label.all fun c => c.isLower || c.isDigit || c = '_' then
      some (String.ofList label)
    else none

/-- `clean_metadata`: NUL characters replaced and the text cut to its column's length. -/
def cleanMetadata (length : Nat) (text : Option String) : Option String :=
  text.map fun s =>
    String.ofList ((s.toList.map fun c => if c.toNat = 0 then Char.ofNat 0xfffd else c).take length)

/-- The length of `transcript_path` and `source_path`. -/
def PATH_LENGTH : Nat := 500

/-- What `_import` works with. -/
structure Upload where
  sid : String
  content : String
  sha : String
  size : Nat
  sourcePath : Option String
  exitReason : Option String
  submittedBy : Option String
  authority : Authority
  dryRun : Bool
  namedAgent : Option String
  preparsed : Option ParsedTranscript
  sourceCommit : Option String
  storeObjectId : Option String
  deriving DecidableEq, Repr

/-- The status of a `DecisionLogResult`. -/
inductive ImportStatus
  | created
  | unchanged
  | replaced
  | keptExisting
  | rejected
  deriving DecidableEq, Repr

/-- `DecisionLogResult`. -/
structure ImportResult where
  status : ImportStatus
  sessionId : String
  entries : Nat
  contentSha256 : String
  contentBytes : Nat
  reason : Option String
  forbidden : Bool
  conflict : Bool
  baselined : Bool
  agentType : Option String
  submittedEntries : Option Nat
  deriving DecidableEq, Repr

/-! ## The rules -/

/-- `_repository_entries`: the leading stored entries the repository or the store supplied. -/
def repositoryEntries (session : Session) (stored : Nat) : Nat :=
  match session.repositoryEntries with
  | some count => min count stored
  | none => if session.submittedBy = none then stored else 0

/-- `_may_extend`. -/
def mayExtend (session : Session) (authority : Authority) (submittedBy : Option String) : Bool :=
  match authority with
  | .member =>
      decide (session.submittedBy ≠ none ∧ session.submittedBy = submittedBy
        ∧ session.conflictAt = none)
  | _ => true

/-- `_repository_wins`. -/
def repositoryWins (record : SessionRecord) (session : Session) (count : Nat)
    (comparison : Comparison) : Bool :=
  let repository :=
    if session.repositoryEntries = none ∧ record.hasCurrentVersion = false then 0
    else repositoryEntries session comparison.stored
  match comparison.difference with
  | some difference => decide (repository ≤ difference)
  | none => decide (count < comparison.stored ∧ repository ≤ count)

/-! ## The writes -/

/-- The value a version leaves in a metadata column. -/
def mergeField {α : Type} (replace : Bool) (stored supplied : Option α) : Option α :=
  match supplied with
  | none => stored
  | some value => if replace || stored.isNone then some value else stored

/-- `_apply_session_fields`. -/
def applySessionFields (session : Session) (parsed : ParsedTranscript) (upload : Upload)
    (replace : Bool) : Session :=
  { session with
    model := mergeField replace session.model (cleanMetadata 100 parsed.model)
    cwd := mergeField replace session.cwd (cleanMetadata 500 parsed.cwd)
    gitBranch := mergeField replace session.gitBranch (cleanMetadata 200 parsed.gitBranch)
    startedAt := mergeField replace session.startedAt parsed.startedAt
    exitReason := mergeField replace session.exitReason (cleanMetadata 50 upload.exitReason)
    transcriptPath :=
      mergeField replace session.transcriptPath (cleanMetadata PATH_LENGTH upload.sourcePath)
    endedAt := if parsed.endedAt = none then session.endedAt else parsed.endedAt
    contentSha256 := some upload.sha
    contentBytes := some upload.size }

/-- `_version` for the upload itself. -/
def Upload.version (upload : Upload) (tx : Transaction) (status : VersionStatus) (entries : Nat)
    (digest submittedBy : Option String) : Version where
  id := tx.versionId
  status := status
  contentSha256 := some upload.sha
  contentBytes := some upload.size
  entryCount := entries
  entriesSha256 := digest
  contentGz := none
  reason := none
  sourcePath := cleanMetadata PATH_LENGTH upload.sourcePath
  sourceCommit := upload.sourceCommit
  storeObjectId := upload.storeObjectId
  submittedBy := submittedBy
  receivedAt := tx.now

/-- The row `_insert_session` inserts. -/
def newSession (tx : Transaction) (upload : Upload) (parsed : ParsedTranscript) : Session where
  id := upload.sid
  agentType := upload.namedAgent.getD parsed.agentType
  model := cleanMetadata 100 parsed.model
  cwd := cleanMetadata 500 parsed.cwd
  gitBranch := cleanMetadata 200 parsed.gitBranch
  startedAt := parsed.startedAt
  endedAt := parsed.endedAt
  exitReason := cleanMetadata 50 upload.exitReason
  transcriptPath := cleanMetadata PATH_LENGTH upload.sourcePath
  submittedBy := upload.submittedBy
  importedAt := tx.now
  contentSha256 := some upload.sha
  contentBytes := some upload.size
  replacedAt := none
  repositoryEntries := some (if upload.authority.isSource then parsed.entries.length else 0)
  conflictAt := none
  conflictDetail := none

/-- `_create`. -/
def create (tools : Tools) (tx : Transaction) (upload : Upload) (parsed : ParsedTranscript)
    (record : SessionRecord) : Except ImportError SessionRecord :=
  { record with entries := record.entries ++ parsed.entries }
    |>.saveSession tx (newSession tx upload parsed)
    |>.insertVersion tools tx (upload.version tx .current parsed.entries.length
        (some (entriesDigest tools.sha parsed.entries)) upload.submittedBy)

/-- The session row `_extend` leaves. -/
def extendedSession (tx : Transaction) (upload : Upload) (session : Session)
    (parsed : ParsedTranscript) (stored : Nat) : Session :=
  { applySessionFields session parsed upload (upload.authority = .admin) with
    replacedAt := some tx.now
    repositoryEntries := some (if upload.authority.isSource then parsed.entries.length
      else repositoryEntries session stored) }

/-- `_extend`. -/
def extend (tools : Tools) (tx : Transaction) (upload : Upload) (session : Session)
    (parsed : ParsedTranscript) (comparison : Comparison) (record : SessionRecord) :
    Except ImportError SessionRecord := do
  let stored := comparison.stored
  let content := reconstruct tools session (parsed.entries.take stored) stored
  let digest := comparison.digestWith tools.sha (parsed.entries.drop stored)
  let superseded ← supersedeCurrent tools tx session content comparison.storedSha256 stored
    SUPERSEDED_REASON { record with entries := record.entries ++ parsed.entries.drop stored }
  superseded.saveSession tx (extendedSession tx upload session parsed stored)
    |>.insertVersion tools tx (upload.version tx .current parsed.entries.length (some digest)
        upload.submittedBy)

/-- The first stored entry the repository's version replaces or removes. -/
def conflictCut (count : Nat) (comparison : Comparison) : Nat :=
  comparison.difference.getD count

/-- The `detail` of a conflict. -/
def conflictText (upload : Upload) (count : Nat) (comparison : Comparison) : String :=
  let path := if truthy upload.sourcePath then upload.sourcePath.getD "" else "repository import"
  let stored := comparison.stored
  match comparison.difference with
  | some cut =>
      s!"entry {cut + 1} of the {stored} stored entries differed from the evidence "
        ++ s!"repository's version ({path}); the repository's {count} entries replaced them, and "
        ++ s!"the previous version, with the {stored - cut} entries submitted through the API "
        ++ s!"from entry {cut + 1} on, is kept as a superseded version"
  | none =>
      s!"the evidence repository's version ({path}) has {count} entries and does not contain "
        ++ s!"stored entries {count + 1} to {stored}, which were submitted through the API; they "
        ++ "were removed from the current version, and the previous version, with them, is kept "
        ++ "as a superseded version"

/-- The session row `_adopt_repository_version` leaves. -/
def adoptedSession (tx : Transaction) (upload : Upload) (session : Session)
    (parsed : ParsedTranscript) (detail : String) : Session :=
  { applySessionFields session parsed upload true with
    endedAt := parsed.endedAt
    replacedAt := some tx.now
    repositoryEntries := some parsed.entries.length
    submittedBy := upload.submittedBy
    conflictAt := some tx.now
    conflictDetail := some detail }

/-- `_adopt_repository_version`: the repository's version becomes the stored entries. -/
def adoptRepositoryVersion (tools : Tools) (tx : Transaction) (upload : Upload)
    (session : Session) (parsed : ParsedTranscript) (comparison : Comparison)
    (record : SessionRecord) : Except ImportError SessionRecord := do
  let count := parsed.entries.length
  let cut := conflictCut count comparison
  let detail := conflictText upload count comparison
  let content := reconstruct tools session record.entries comparison.stored
  let digest := comparison.digestWith tools.sha (parsed.entries.drop cut)
  let superseded ← supersedeCurrent tools tx session content comparison.storedSha256
    comparison.stored (CONFLICT_REASON_PREFIX ++ detail)
    { record with entries := record.entries.take cut ++ parsed.entries.drop cut }
  superseded.saveSession tx (adoptedSession tx upload session parsed detail)
    |>.insertVersion tools tx (upload.version tx .current count (some digest) upload.submittedBy)

/-- `_baseline`. -/
def baseline (tools : Tools) (tx : Transaction) (upload : Upload) (session : Session)
    (count : Nat) (digest : String) (record : SessionRecord) :
    Except ImportError SessionRecord :=
  record.saveSession tx
      { session with
        repositoryEntries := some count
        contentSha256 := some upload.sha
        contentBytes := some upload.size }
    |>.insertVersion tools tx (upload.version tx .current count (some digest) none)

/-- `_record_rejected`, once for each distinct content. -/
def recordRejected (tools : Tools) (tx : Transaction) (upload : Upload) (entries : Nat)
    (reason : String) (record : SessionRecord) : Except ImportError SessionRecord :=
  if record.versions.any fun version =>
      version.status = .rejected ∧ version.contentSha256 = some upload.sha then .ok record
  else
    record.insertVersion tools tx
      { upload.version tx .rejected entries none upload.submittedBy with
        contentGz := some (tools.gzipBytes upload.content)
        reason := some reason }

/-- The one-time backfill of a session stored before digests were recorded. -/
def backfill (tx : Transaction) (upload : Upload) (session : Session) (stored : Nat)
    (record : SessionRecord) : SessionRecord :=
  record.saveSession tx
    { session with
      repositoryEntries :=
        if upload.authority = .system then some stored else session.repositoryEntries
      contentSha256 := some upload.sha
      contentBytes := some upload.size }

/-! ## `_import` -/

/-- A write, unless the call is a dry run. -/
def Upload.writes (upload : Upload) (record : SessionRecord)
    (write : Except ImportError SessionRecord) : Except ImportError SessionRecord :=
  if upload.dryRun then .ok record else write

/-- The `result` of `_import`. -/
def Upload.result (upload : Upload) (agentType : Option String) (parsed : Option ParsedTranscript)
    (status : ImportStatus) (entries : Nat) : ImportResult where
  status := status
  sessionId := upload.sid
  entries := entries
  contentSha256 := upload.sha
  contentBytes := upload.size
  reason := none
  forbidden := false
  conflict := false
  baselined := false
  agentType := agentType
  submittedEntries := parsed.map fun transcript => transcript.entries.length

/-- `parsed or parse_transcript(content)`. -/
def Upload.transcript (tools : Tools) (upload : Upload) : Except ImportError ParsedTranscript :=
  match upload.preparsed with
  | some parsed => .ok parsed
  | none =>
      match tools.parse upload.content with
      | .error error => .error (.transcript error)
      | .ok parsed => .ok parsed

/-- `_import` for a session that does not exist. -/
def importNew (tools : Tools) (tx : Transaction) (upload : Upload) (record : SessionRecord) :
    Except ImportError (SessionRecord × ImportResult) := do
  let parsed ← upload.transcript tools
  let written ← upload.writes record (create tools tx upload parsed record)
  return (written, upload.result (some (upload.namedAgent.getD parsed.agentType)) (some parsed)
    .created parsed.entries.length)

/-- The `reject` of `_import`. -/
def reject (tools : Tools) (tx : Transaction) (upload : Upload) (session : Session)
    (parsed : ParsedTranscript) (stored : Nat) (reason : String) (forbidden : Bool)
    (record : SessionRecord) : Except ImportError (SessionRecord × ImportResult) := do
  let written ← upload.writes record
    (recordRejected tools tx upload parsed.entries.length reason record)
  return (written, { upload.result (some session.agentType) (some parsed) .rejected stored with
    reason := some reason
    forbidden := forbidden })

/-- The reason for refusing an extension, with `forbidden`; none when it is accepted. -/
def extensionRefusal (upload : Upload) (session : Session) (parsed : ParsedTranscript)
    (stored : Nat) (record : SessionRecord) : Option (String × Bool) :=
  if !mayExtend session upload.authority upload.submittedBy then some (FORBIDDEN_REASON, true)
  else if upload.authority.isSource then none
  else if 0 < repositoryEntries session stored then some (REPOSITORY_OWNED_REASON, false)
  else
    (latestStoredTimestamp record.entries).bind fun latest =>
      (firstBackdated parsed.entries stored latest).bind fun backdated =>
        (parsed.entries[backdated]?.bind Entry.timestamp).map fun stamp =>
          (s!"entry {backdated + 1} is timestamped {isoformat stamp}, earlier than the latest "
            ++ s!"stored entry ({isoformat latest}); appended entries must not be back-dated",
            false)

/-- `_import` for a stored session, from the comparison on. -/
def importCompared (tools : Tools) (tx : Transaction) (upload : Upload) (session : Session)
    (parsed : ParsedTranscript) (comparison : Comparison) (unbaselined : Bool)
    (record : SessionRecord) : Except ImportError (SessionRecord × ImportResult) :=
  let stored := comparison.stored
  let count := parsed.entries.length
  let result := upload.result (some session.agentType) (some parsed)
  if upload.authority = .system ∧ repositoryWins record session count comparison then do
    let written ← upload.writes record
      (adoptRepositoryVersion tools tx upload session parsed comparison record)
    return (written, { result .replaced count with conflict := true })
  else if comparison.difference = none ∧ unbaselined = true ∧ count = stored then do
    let written ← upload.writes record
      (baseline tools tx upload session stored comparison.storedSha256 record)
    return (written, { result .unchanged stored with baselined := true })
  else
    match comparison.difference with
    | some difference =>
        reject tools tx upload session parsed stored
          (s!"entry {difference + 1} differs from the stored transcript of {stored} entries; "
            ++ "a new export must extend the stored transcript") false record
    | none =>
        if stored < count then
          match extensionRefusal upload session parsed stored record with
          | some (reason, forbidden) =>
              reject tools tx upload session parsed stored reason forbidden record
          | none => do
              let written ← upload.writes record
                (extend tools tx upload session parsed comparison record)
              return (written, result .replaced count)
        else if count = stored ∧ session.contentSha256 = none
            ∧ mayExtend session upload.authority upload.submittedBy = true
            ∧ upload.authority ≠ .store then do
          let written ← upload.writes record (.ok (backfill tx upload session stored record))
          return (written, result .unchanged stored)
        else .ok (record, result .keptExisting stored)

/-- `_import`. -/
def importUpload (tools : Tools) (tx : Transaction) (upload : Upload) (record : SessionRecord) :
    Except ImportError (SessionRecord × ImportResult) :=
  match record.session with
  | none => importNew tools tx upload record
  | some session =>
      let unbaselined := upload.authority.isSource && !record.hasCurrentVersion
      if session.contentSha256 = some upload.sha ∧ unbaselined = false then
        .ok (record, upload.result (some session.agentType) upload.preparsed .unchanged
          record.entries.length)
      else do
        let parsed ← upload.transcript tools
        importCompared tools tx upload session parsed
          (compareWithStored tools record.entries parsed.entries) unbaselined record

/-! ## `import_decision_log` -/

/-- The session id of a call: `session_id or session_id_from_path(source_path)`. -/
def ImportCall.sid (call : ImportCall) : Option String :=
  if truthy call.sessionId then call.sessionId else sessionIdFromPath call.sourcePath

/-- The source commit and the store object a call records. Only a system import has the one,
only a store import the other. -/
def ImportCall.bound (call : ImportCall) : Option String × Option String :=
  (if call.authority = .system then call.sourceCommit else none,
    if call.authority = .store then call.storeObjectId else none)

/-- The message for a repository path that is not the session's file. -/
def pathMessage (path sid : Option String) : String :=
  let path := path.getD "None"
  let sid := sid.getD "None"
  s!"repository path {path} is not session {sid}'s file (<timestamp>_<session id>.jsonl)"

/-- `_import_decision_log` up to the import slot: the checks of the arguments. -/
def ImportCall.upload (tools : Tools) (call : ImportCall) : Except ImportError Upload :=
  let bound := call.bound
  let size := call.content.length / 2
  if decide (call.authority = .store) ≠ truthy call.storeObjectId then
    .error (.value
      "an evidence-store import names its store object, and only the store authority does")
  else if call.authority = .member ∧ truthy call.submittedBy = false then
    .error (.value "a member's upload must name its submitter")
  else if call.authority.isSource = true ∧ (bound.1 ≠ none ∨ bound.2 ≠ none)
      ∧ sessionIdFromPath call.sourcePath ≠ call.sid then
    .error (.value (pathMessage call.sourcePath call.sid))
  else
    match call.sid with
    | none =>
        .error (.value ("cannot determine the session id: pass session_id or a "
          ++ "<timestamp>_<session-id>.jsonl path"))
    | some sid =>
        if sessionIdMatch sid = false then
          .error (.value ("invalid session id " ++ shownId sid))
        else if MAX_TRANSCRIPT_BYTES < size then .error (.tooLarge size)
        else .ok {
          sid := sid
          content := call.content
          sha := tools.sha.hexOfBytes call.content
          size := size
          sourcePath := call.sourcePath
          exitReason := call.exitReason
          submittedBy := call.submittedBy
          authority := call.authority
          dryRun := call.dryRun
          namedAgent := normalizeAgentType call.agentType
          preparsed := call.parsed
          sourceCommit := bound.1
          storeObjectId := bound.2 }

end TrustPortal.DecisionLog
