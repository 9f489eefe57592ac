import TrustPortal.DecisionLog.Import

/-!
# `TrustPortal.DecisionLog.Sync`: runs of imports over the database

`Database` holds the sessions and, of `evidence_store_objects`, the decision-log objects with
the outcome recorded for each. `importDecisionLog` is one call in its own transaction.
`runCall` also records a store import's outcome in the same transaction, as
`_ingest_decision_log` does, and turns a failed call back. Each call brings its `Transaction`: the
time is what the clock of its host says, and no two hosts need to agree.

`Source` lists where the portal's own calls come from: an upload through the API, a file of a
git sync and an object of an evidence-store sync. `Source.call` has the arguments of each.
-/

set_option autoImplicit false

namespace TrustPortal.DecisionLog

open TrustPortal.Sql
open TrustPortal.Audit

/-- The outcomes recorded for a decision-log object. -/
inductive ObjectStatus
  | ingested
  | unchanged
  | rejected
  | tooLarge
  | error
  | erased
  deriving DecidableEq, Repr

/-- A decision-log object of the evidence store: its outcome, the session id of its key and
its body, which is the same at every read of the version. -/
structure StoreObject where
  status : ObjectStatus
  sessionId : String
  content : String
  deriving DecidableEq, Repr

/-- The database. -/
structure Database where
  records : String → SessionRecord
  objects : String → Option StoreObject

/-- The database of a new installation. -/
def Database.empty : Database := ⟨fun _ => .empty, fun _ => none⟩

/-- The database with one session's record replaced. -/
def Database.put (db : Database) (sid : String) (record : SessionRecord) : Database :=
  { db with records := fun id => if id = sid then record else db.records id }

theorem Database.put_records (db : Database) (sid : String) (record : SessionRecord)
    (id : String) :
    (db.put sid record).records id = if id = sid then record else db.records id := rfl

/-- `import_decision_log`, in a transaction that commits when the call returns. -/
def importDecisionLog (tools : Tools) (tx : Transaction) (call : ImportCall) (db : Database) :
    Except ImportError (Database × ImportResult) := do
  let upload ← call.upload tools
  let (record, result) ← importUpload tools tx upload (db.records upload.sid)
  return (db.put upload.sid record, result)

/-- The outcome `_ingest_decision_log` records. -/
def outcomeStatus (result : ImportResult) : ObjectStatus :=
  if result.baselined then .ingested
  else
    match result.status with
    | .created => .ingested
    | .replaced => .ingested
    | .rejected => .rejected
    | _ => .unchanged

/-- The database with the outcome of an object recorded. -/
def Database.recordObject (db : Database) (id : String) (object : StoreObject) : Database :=
  { db with objects := fun other => if other = id then some object else db.objects other }

theorem Database.recordObject_objects (db : Database) (id : String) (object : StoreObject)
    (other : String) :
    (db.recordObject id object).objects other
      = if other = id then some object else db.objects other := rfl

/-- A sync reads an object that has no record, or whose record is an `error`. -/
def Database.reads (db : Database) (id : String) : Bool :=
  match db.objects id with
  | none => true
  | some object => object.status = .error

/-- A store import and the record of its outcome, in one transaction. A call that fails is
recorded as an `error`. -/
def runStoreCall (tools : Tools) (tx : Transaction) (call : ImportCall) (id : String)
    (db : Database) : Database :=
  if db.reads id then
    match importDecisionLog tools tx call db with
    | .error _ => db.recordObject id ⟨.error, call.sid.getD "", call.content⟩
    | .ok (after, result) =>
        if call.dryRun then after
        else after.recordObject id ⟨outcomeStatus result, call.sid.getD "", call.content⟩
  else db

/-- One call of `import_decision_log`. A call that raises is rolled back. -/
def runCall (tools : Tools) (db : Database) (tx : Transaction) (call : ImportCall) : Database :=
  if call.authority = .store then
    match call.storeObjectId with
    | some id => runStoreCall tools tx call id db
    | none => db
  else
    match importDecisionLog tools tx call db with
    | .error _ => db
    | .ok (after, _) => after

/-- A finite sequence of calls. -/
def runCalls (tools : Tools) (db : Database) (calls : List (Transaction × ImportCall)) : Database :=
  calls.foldl (fun db step => runCall tools db step.1 step.2) db

/-! ## The portal's own calls -/

/-- An object a store sync fetched, after its key was classified. -/
structure FetchedObject where
  id : String
  key : String
  sessionId : String
  content : String
  exitReason : Option String
  agent : Option String
  deriving DecidableEq, Repr

/-- Why `check_decision_log` refuses a transcript. -/
inductive ContentRefusal
  | tooLarge (message : String)
  | rejected (message : String)
  deriving DecidableEq, Repr

/-- The refusal for a transcript `parse_transcript` raises on. -/
def refusalOf : TranscriptError → ContentRefusal
  | .limit message => .tooLarge message
  | .invalid message => .rejected message

/-- `check_decision_log`. -/
def checkDecisionLog (tools : Tools) (sessionId content : String) :
    Except ContentRefusal ParsedTranscript :=
  let size := content.length / 2
  if sessionId = "" ∨ sessionIdMatch sessionId = false then
    .error (.rejected ("invalid session id " ++ shownId sessionId))
  else if MAX_TRANSCRIPT_BYTES < size then
    .error (.tooLarge
      s!"the transcript is {size} bytes; the limit is {MAX_TRANSCRIPT_BYTES} bytes")
  else
    match tools.parse content with
    | .error error => .error (refusalOf error)
    | .ok parsed => .ok parsed

/-- Where a transcript comes from. -/
inductive Source
  | upload (sessionId content memberId : String) (admin : Bool)
      (exitReason agent : Option String)
  | gitFile (path content head : String) (memberId exitReason agent : Option String)
  | storeObject (object : FetchedObject)
  deriving DecidableEq, Repr

/-- The bytes of a source's transcript. -/
def Source.content : Source → String
  | .upload _ content _ _ _ _ => content
  | .gitFile _ content _ _ _ _ => content
  | .storeObject object => object.content

/-- The arguments of an upload through the API, `_store_uploaded_transcript`. -/
def uploadCall (sessionId content memberId : String) (admin : Bool)
    (exitReason agent : Option String) : ImportCall where
  content := content
  sessionId := some sessionId
  sourcePath := none
  exitReason := exitReason
  submittedBy := some memberId
  authority := if admin then .admin else .member
  dryRun := false
  sourceCommit := none
  agentType := agent
  storeObjectId := none
  parsed := none

/-- The arguments of a git sync's file, `process_candidate`. `memberId` is the member who
triggered the sync, none for a scheduled one. -/
def gitCall (path content head : String) (memberId exitReason agent : Option String) :
    ImportCall where
  content := content
  sessionId := none
  sourcePath := some path
  exitReason := exitReason
  submittedBy := memberId
  authority := .system
  dryRun := false
  sourceCommit := some head
  agentType := agent
  storeObjectId := none
  parsed := none

/-- The arguments of an object of the evidence store, `_ingest_decision_log`. -/
def storeCall (object : FetchedObject) (parsed : ParsedTranscript) : ImportCall where
  content := object.content
  sessionId := some object.sessionId
  sourcePath := some object.key
  exitReason := cleanMetadata 50 object.exitReason
  submittedBy := none
  authority := .store
  dryRun := false
  sourceCommit := none
  agentType := object.agent
  storeObjectId := some object.id
  parsed := some parsed

/-- The status a refused transcript is recorded with. -/
def refusedStatus : ContentRefusal → ObjectStatus
  | .tooLarge _ => .tooLarge
  | .rejected _ => .rejected

/-- One transcript of the portal's three sources. -/
def runSource (tools : Tools) (db : Database) (tx : Transaction) (source : Source) : Database :=
  match source with
  | .upload sessionId content memberId admin exitReason agent =>
      runCall tools db tx (uploadCall sessionId content memberId admin exitReason agent)
  | .gitFile path content head memberId exitReason agent =>
      runCall tools db tx (gitCall path content head memberId exitReason agent)
  | .storeObject object =>
      if db.reads object.id then
        match checkDecisionLog tools object.sessionId object.content with
        | .error refusal =>
            db.recordObject object.id ⟨refusedStatus refusal, object.sessionId, object.content⟩
        | .ok parsed => runCall tools db tx (storeCall object parsed)
      else db

/-- An interleaving of the three sources. -/
def runSources (tools : Tools) (db : Database) (steps : List (Transaction × Source)) : Database :=
  steps.foldl (fun db step => runSource tools db step.1 step.2) db

end TrustPortal.DecisionLog
