import TrustPortal.DecisionLog.Entry

/-!
# `TrustPortal.DecisionLog.Session`: the tables of a decision-log session

`SessionRecord` is what the database holds of one session id: the row of
`decision_log_sessions`, the entries, the rows of `decision_log_transcripts` (the versions)
and what the audit log recorded of the session and of its versions. An audit event is the
row that the verifier's query reads: the trigger writes it, in the transaction of the change
and with that transaction's start time.

`insertVersion`, `supersedeCurrent` and `saveSession` are the writes. Each one appends its
audit events.
-/

set_option autoImplicit false

namespace TrustPortal.DecisionLog

open TrustPortal.Sql
open TrustPortal.Audit

/-- A row of `decision_log_sessions`. -/
structure Session where
  id : String
  agentType : String
  model : Option String
  cwd : Option String
  gitBranch : Option String
  startedAt : Option Int
  endedAt : Option Int
  exitReason : Option String
  transcriptPath : Option String
  submittedBy : Option String
  importedAt : Int
  contentSha256 : Option String
  contentBytes : Option Nat
  replacedAt : Option Int
  repositoryEntries : Option Nat
  conflictAt : Option Int
  conflictDetail : Option String
  deriving DecidableEq, Repr

/-- The status of a version. -/
inductive VersionStatus
  | current
  | superseded
  | rejected
  deriving DecidableEq, Repr

/-- A row of `decision_log_transcripts`. `contentGz` is in hexadecimal. -/
structure Version where
  id : String
  status : VersionStatus
  contentSha256 : Option String
  contentBytes : Option Nat
  entryCount : Nat
  entriesSha256 : Option String
  contentGz : Option String
  reason : Option String
  sourcePath : Option String
  sourceCommit : Option String
  storeObjectId : Option String
  submittedBy : Option String
  receivedAt : Int
  deriving DecidableEq, Repr

/-- The action of an audit row. -/
inductive AuditAction
  | insert
  | update
  | delete
  deriving DecidableEq, Repr

/-- An audit row of a version, with the columns the verifier's `_history` reads. The trigger
writes `content_gz` as `sha256:` and a digest. -/
structure VersionEvent where
  recordId : String
  action : AuditAction
  status : VersionStatus
  digest : Option String
  count : Option Nat
  content : Option String
  changedAt : Int
  deriving DecidableEq, Repr

/-- An audit row of a session, with the columns the verifier's `_conflict_times` reads.
`old` is none for an INSERT, which has no old values. -/
structure SessionEvent where
  old : Option (Option Int)
  new : Option Int
  changedAt : Int
  deriving DecidableEq, Repr

/-- What the database holds of one session id. -/
structure SessionRecord where
  session : Option Session
  entries : List Entry
  versions : List Version
  versionEvents : List VersionEvent
  sessionEvents : List SessionEvent
  deriving DecidableEq, Repr

/-- A session id the database has no row of. -/
def SessionRecord.empty : SessionRecord := ⟨none, [], [], [], []⟩

/-- The surroundings of one transaction: what `datetime.now` returns on its host, the database's
`now()` and the ids `uuid.uuid4()` returns for the version it records and for a version that was
never recorded. -/
structure Transaction where
  now : Int
  changedAt : Int
  versionId : String
  historyId : String
  deriving DecidableEq, Repr

/-- What an import raises. A duplicate key is a row with the id of another row. -/
inductive ImportError
  | value (message : String)
  | transcript (error : TranscriptError)
  | tooLarge (size : Nat)
  | duplicateKey (id : String)
  deriving DecidableEq, Repr

/-- `SUPERSEDED_REASON`. -/
def SUPERSEDED_REASON : String := "superseded by a longer export that extends it"

/-- `REPOSITORY_OWNED_REASON`. -/
def REPOSITORY_OWNED_REASON : String :=
  "the evidence repository or the evidence store holds this session; only they may "
    ++ "extend it (the upload is kept as a rejected version)"

/-- `FORBIDDEN_REASON`. -/
def FORBIDDEN_REASON : String :=
  "only the member who submitted this session or a compliance admin may extend it; "
    ++ "the stored transcript is unchanged"

/-- `CONFLICT_REASON_PREFIX`. -/
def CONFLICT_REASON_PREFIX : String := "repository conflict: "

/-- `RECONSTRUCTION_FORMAT`. -/
def RECONSTRUCTION_FORMAT : String := "decision-log-reconstruction/v1"

/-! ## The content of a superseded version -/

/-- A text or None as a JSON value. -/
def jsonText (text : Option String) : Json :=
  match text with
  | some s => .string s
  | none => .null

/-- A member `name` when the text is not empty. -/
def memberWhen (name : String) (text : Option String) : List (String × Json) :=
  if truthy text then [(name, jsonText text)] else []

/-- The objects of a list of JSON values. -/
def objectsOf (items : List Json) : List Json :=
  items.filter fun
    | .object _ => true
    | _ => false

/-- The stored tool calls, as the blocks `_reconstruction_line` adds. -/
def toolBlocks (tools : Tools) (toolCalls : Option String) : List Json :=
  if truthy toolCalls then
    match tools.loads (toolCalls.getD "") with
    | some (.array items) => objectsOf items
    | _ => []
  else []

/-- `_reconstruction_line`. -/
def reconstructionLine (tools : Tools) (session : Session) (first : Bool) (entry : Entry) :
    Json :=
  let content := (match entry.contentText with
      | some text => [Json.object [("type", .string "text"), ("text", .string text)]]
      | none => []) ++ toolBlocks tools entry.toolCalls
  let message := [("role", jsonText entry.role), ("content", .array content)]
    ++ (match entry.messageId with
      | some id => [("id", .string id)]
      | none => [])
    ++ (if first then memberWhen "model" session.model else [])
  let type := if entry.role = some "assistant" then "assistant" else "user"
  .object ([("type", .string type), ("message", .object message)]
    ++ (match entry.timestamp with
      | some timestamp => [("timestamp", .string (isoformat timestamp))]
      | none => [])
    ++ (if first then
          memberWhen "cwd" session.cwd ++ memberWhen "gitBranch" session.gitBranch
        else []))

/-- The lines of a version's entries. -/
def reconstructionLines (tools : Tools) (session : Session) : List Entry → List Json
  | [] => []
  | entry :: rest =>
      reconstructionLine tools session true entry
        :: rest.map (reconstructionLine tools session false)

/-- `_reconstruct`: the gzip of the reconstruction of a version with `count` entries. -/
def reconstruct (tools : Tools) (session : Session) (entries : List Entry) (count : Nat) :
    String :=
  let header := Json.object [("type", .string "decision-log-reconstruction"),
    ("format", .string RECONSTRUCTION_FORMAT), ("session_id", .string session.id),
    ("content_sha256", jsonText session.contentSha256),
    ("content_bytes", match session.contentBytes with
      | some size => .number size 0
      | none => .null),
    ("entries", .number count 0)]
  let lines := header :: reconstructionLines tools session entries
  tools.gzipText (String.join (lines.map fun line => line.text ++ "\n"))

/-! ## The writes -/

/-- `new_values->>'content_gz'`. -/
def contentDigest (tools : Tools) (contentGz : Option String) : Option String :=
  contentGz.map fun content => "sha256:" ++ tools.sha.hexOfBytes content

/-- The audit row of a version's INSERT or UPDATE. -/
def versionEvent (tools : Tools) (tx : Transaction) (action : AuditAction) (version : Version) :
    VersionEvent where
  recordId := version.id
  action := action
  status := version.status
  digest := version.entriesSha256
  count := some version.entryCount
  content := contentDigest tools version.contentGz
  changedAt := tx.changedAt

namespace SessionRecord

/-- `_has_current_version`. -/
def hasCurrentVersion (record : SessionRecord) : Bool :=
  record.versions.any fun version => version.status = .current

/-- INSERT of a version. -/
def insertVersion (tools : Tools) (tx : Transaction) (version : Version)
    (record : SessionRecord) : Except ImportError SessionRecord :=
  if version.id ∈ record.versions.map Version.id then .error (.duplicateKey version.id)
  else .ok { record with
    versions := record.versions ++ [version]
    versionEvents := record.versionEvents ++ [versionEvent tools tx .insert version] }

/-- INSERT or UPDATE of the session row. -/
def saveSession (tx : Transaction) (session : Session) (record : SessionRecord) :
    SessionRecord :=
  { record with
    session := some session
    sessionEvents := record.sessionEvents
      ++ [⟨record.session.map Session.conflictAt, session.conflictAt, tx.changedAt⟩] }

end SessionRecord

/-- A current version as `_supersede_current` leaves it. -/
def Version.supersede (version : Version) (contentGz digest reason : String) : Version :=
  { version with
    status := .superseded
    contentGz := some contentGz
    reason := some reason
    entriesSha256 := match version.entriesSha256 with
      | none => some digest
      | some recorded => some recorded }

/-- A version in the loop of `_supersede_current`, which reads the current ones only. -/
def Version.retire (contentGz digest reason : String) (version : Version) : Version :=
  if version.status = .current then version.supersede contentGz digest reason else version

/-- `_supersede_current`. A session stored before versions were recorded has no current
version and gets a superseded one. -/
def supersedeCurrent (tools : Tools) (tx : Transaction) (session : Session)
    (contentGz digest : String) (count : Nat) (reason : String) (record : SessionRecord) :
    Except ImportError SessionRecord :=
  if record.hasCurrentVersion then
    .ok { record with
      versions := record.versions.map (Version.retire contentGz digest reason)
      versionEvents := record.versionEvents
        ++ (record.versions.filter fun version => version.status = .current).map fun version =>
            versionEvent tools tx .update (version.supersede contentGz digest reason) }
  else
    record.insertVersion tools tx
      { id := tx.historyId
        status := .superseded
        contentSha256 := session.contentSha256
        contentBytes := session.contentBytes
        entryCount := count
        entriesSha256 := some digest
        contentGz := some contentGz
        reason := some reason
        sourcePath := session.transcriptPath
        sourceCommit := none
        storeObjectId := none
        submittedBy := session.submittedBy
        receivedAt := session.replacedAt.getD session.importedAt }

end TrustPortal.DecisionLog
