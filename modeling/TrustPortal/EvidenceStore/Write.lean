import TrustPortal.EvidenceStore.Sync

/-!
# `TrustPortal.EvidenceStore.Write`: writing a fetched version

`record` is the INSERT or the UPDATE of a version's record. `writeVersion` is the import of a
fetched version and its record, in the transaction of `transaction`. `write` retries a
deadlock once, records a `Conflict` as `rejected` and every other failure by `recordFailure`.
`syncBucket` runs the batches of a sync, then the re-evaluation of the duplicates.
-/

set_option autoImplicit false

namespace TrustPortal.EvidenceStore

open TrustPortal.Sql
open TrustPortal.Audit
open TrustPortal.DecisionLog (ImportResult)

/-- What one transaction meets: the id of `uuid.uuid4()`, the database's `now()`, the faults
and what the other tables hold. -/
structure Answers where
  objectId : String
  now : Int
  reading : Option Fault
  writing : Option Fault
  committing : Option Fault
  findings : Findings
  imported : ImportResult
  matchedVersion : Option String

/-- The transactions of one write: the first attempt, the one after a deadlock, the record of a
refusal and the record of a failure. -/
structure WriteAnswers where
  first : Answers
  again : Answers
  refused : Answers
  failed : Answers

/-- What a write raises. -/
inductive Failure
  | fault (fault : Fault)
  | conflict (message : String)
  deriving DecidableEq, Repr

/-- A transaction: the database after it, the version as the import left it, and the recorded
status. -/
structure Attempt where
  db : Database
  fetched : Fetched
  result : Except Failure Status

/-- `_detail`. -/
def detailText (fetched : Fetched) (extra : List String) (lead : Option String) :
    Option String :=
  let parts := (lead.toList ++ fetched.notes ++ extra).filter (· ≠ "")
  if parts = [] then none
  else some (String.ofList ((String.intercalate "; " parts).toList.take MAX_DETAIL_TEXT))

/-- `fetched.metadata or None`. -/
def Fetched.metadataOrNone (fetched : Fetched) : Option (List (String × String)) :=
  if fetched.metadata = [] then none else some fetched.metadata

/-- The row `_record` inserts. -/
def Fetched.newRow (fetched : Fetched) (bucket objectId : String) (status : Status)
    (detail : Option String) (attempts : Nat) : StoreObject where
  id := objectId
  bucket := bucket
  key := (storedKey fetched.key).1
  keyEscaped := (storedKey fetched.key).2
  versionId := fetched.versionId
  kind := fetched.kind
  status := status
  sha256 := fetched.sha256
  compositeChecksum := fetched.compositeChecksum
  size := fetched.size
  etag := fetched.etag
  lastModified := fetched.lastModified
  contentType := fetched.contentType
  objectMetadata := fetched.metadataOrNone
  lockMode := fetched.lockMode
  retainUntil := fetched.retainUntil
  syncRunId := fetched.runId
  attempts := attempts
  importInfo := fetched.importInfo
  detail := detail
  erasedAt := none
  erasedBy := none
  erasureReason := none
  acknowledgedAt := none
  acknowledgedBy := none
  acknowledgementReason := none
  acknowledgedFrom := none
  createdAt := 0

/-- The row `_record` updates: a value of `_EVIDENCE` not read this time keeps the recorded
one. -/
def Fetched.updatedRow (fetched : Fetched) (row : StoreObject) (status : Status)
    (detail : Option String) (attempts : Nat) : StoreObject :=
  { row with
    sha256 := fetched.sha256 <|> row.sha256
    compositeChecksum := fetched.compositeChecksum <|> row.compositeChecksum
    size := fetched.size
    etag := fetched.etag <|> row.etag
    lastModified := fetched.lastModified <|> row.lastModified
    contentType := fetched.contentType <|> row.contentType
    objectMetadata := fetched.metadataOrNone <|> row.objectMetadata
    lockMode := fetched.lockMode <|> row.lockMode
    retainUntil := fetched.retainUntil <|> row.retainUntil
    syncRunId := fetched.runId <|> row.syncRunId
    importInfo := fetched.importInfo <|> row.importInfo
    status := status
    detail := detail
    attempts := attempts }

/-- The statement of `_record`. An UPDATE that changes no column is sent as well. -/
def recordStatement (db : Database) (bucket : String) (fetched : Fetched) (objectId : String)
    (status : Status) (detail : Option String) (attempts : Nat) : Statement :=
  match fetched.recordId.bind db.objects.get with
  | none => .insert (fetched.newRow bucket objectId status detail attempts)
  | some row => .update row (fetched.updatedRow row status detail attempts)

/-- The id a version is recorded under: its record's, else a new one. -/
def Fetched.objectId (fetched : Fetched) (answers : Answers) : String :=
  fetched.recordId.getD answers.objectId

/-- `_record`. -/
def record (db : Database) (bucket : String) (fetched : Fetched) (answers : Answers)
    (status : Status) (extra : List String) (attempts : Nat) (lead : Option String) : Attempt :=
  match answers.writing with
  | some fault => ⟨db, fetched, .error (.fault fault)⟩
  | none =>
      match db.send answers.now (recordStatement db bucket fetched (fetched.objectId answers)
          status (detailText fetched extra lead) attempts) with
      | (db, .ok ()) => ⟨db, fetched, .ok status⟩
      | (db, .error fault) => ⟨db, fetched, .error (.fault fault)⟩

/-- The outcome of a decision-log import, as its record names it. -/
def importOutcome (result : ImportResult) : String :=
  if result.baselined then "baselined" else result.status.name

/-- The status a decision-log import is recorded with. -/
def importStatus (result : ImportResult) : Status :=
  if result.baselined then .ingested
  else
    match result.status with
    | .created => .ingested
    | .replaced => .ingested
    | .rejected => .rejected
    | _ => .unchanged

/-- `_ingest_decision_log`, after the import returned. -/
def ingestDecisionLog (db : Database) (bucket : String) (fetched : Fetched) (answers : Answers) :
    Attempt :=
  let result := answers.imported
  let status := importStatus result
  let outcome := importOutcome result
  let info : DecisionLogInfo :=
    { sessionId := result.sessionId
      outcome := if result.status = .rejected then "conflict" else outcome
      entries := result.submittedEntries
      matchedVersion :=
        if result.status ≠ .rejected ∧ status = .unchanged then some answers.matchedVersion
        else none }
  let lead :=
    if result.status = .rejected then
      some ("conflict: " ++ result.reason.getD "None"
        ++ "; not imported (the transcript is kept as a rejected version for "
        ++ "administrator review)")
    else none
  let sidecar := fetched.importInfo.bind ImportInfo.sidecar
  let extra := ["decision log " ++ outcome]
    ++ (sidecar.map fun info => "sidecar read at version " ++ info.versionId).toList
  let fetched :=
    { fetched with
      importInfo := some { fetched.importInfo.getD .empty with decisionLog := some info } }
  record db bucket fetched answers status extra fetched.attempts lead

/-- `_ingest_pentest`. -/
def ingestPentest (checks : Checks) (db : Database) (bucket : String) (fetched : Fetched)
    (answers : Answers) : Attempt :=
  match fetched.checkedPentest with
  | none => ⟨db, fetched, .error (.fault (.other "AttributeError"))⟩
  | some checked =>
      match planPentest checks.tools.sha answers.findings db.objects.rows checked with
      | .error message => ⟨db, fetched, .error (.conflict message)⟩
      | .ok plan =>
          if checked.ids = none then
            record db bucket fetched answers .unchanged [plan.note] fetched.attempts none
          else
            let info := checked.info checks.tools.sha
            let count := checked.keys.length
            match plan.outcome with
            | .duplicate holder =>
                record db bucket
                  { fetched with importInfo := some { info with duplicateOf := some holder } }
                  answers .duplicate
                  ["duplicate: " ++ answers.findings.describeHolder holder
                    ++ s!" holds the same {count} finding(s) for " ++ checked.sourceFile
                    ++ "; not imported"] fetched.attempts none
            | outcome =>
                let names := plan.others.map answers.findings.describeHolder
                let extra :=
                  if plan.others = [] then []
                  else ["conflict: " ++ String.intercalate ", " names
                    ++ " hold(s) different findings for " ++ checked.sourceFile ++ "; both kept"]
                if outcome = .unchanged then
                  record db bucket { fetched with importInfo := some info } answers .unchanged
                    (plan.note :: extra) fetched.attempts none
                else
                  record db bucket { fetched with importInfo := some { info with stored := true } }
                    answers .ingested
                    (s!"findings: {count} created in the store's namespace" :: extra)
                    fetched.attempts none

/-- `write_version`. -/
def writeVersion (checks : Checks) (bucket : String) (fetched : Fetched) (answers : Answers)
    (db : Database) : Attempt :=
  match fetched.status with
  | some status => record db bucket fetched answers status [] fetched.attempts none
  | none =>
      match fetched.kind with
      | .decisionLog => ingestDecisionLog db bucket fetched answers
      | .pentest => ingestPentest checks db bucket fetched answers
      | .document => record db bucket fetched answers .ingested [] fetched.attempts none
      | _ => record db bucket fetched answers .recorded [] fetched.attempts none

/-- A transaction, rolled back when it raises. -/
def transaction (answers : Answers) (fetched : Fetched) (body : Database → Attempt)
    (db : Database) : Attempt :=
  match answers.reading with
  | some fault => ⟨db, fetched, .error (.fault fault)⟩
  | none =>
      let attempt := body db
      match attempt.result, answers.committing with
      | .ok _, none => attempt
      | .ok _, some fault =>
          ⟨attempt.db.rollback db, attempt.fetched, .error (.fault fault)⟩
      | .error failure, _ => ⟨attempt.db.rollback db, attempt.fetched, .error failure⟩

/-- A sync on its way. -/
structure SyncState where
  db : Database
  lost : Bool

/-- The detail of a failed attempt. -/
def failureDetail (attempts : Nat) (cause : String) : String :=
  s!"attempt {attempts} failed ({cause}); read again at every sync"
    ++ (if MAX_ATTEMPTS ≤ attempts then
      s!"; an administrator may acknowledge it after {MAX_ATTEMPTS} failed syncs" else "")

/-- `_record_failure`: one more attempt on the version's `error` record. -/
def recordFailure (bucket : String) (fetched : Fetched) (cause : String) (answers : Answers)
    (db : Database) : SyncState :=
  if fetched.reevaluation then ⟨db, false⟩
  else
    let attempts := fetched.attempts + 1
    let attempt := transaction answers fetched (fun db =>
      record db bucket fetched answers .error [failureDetail attempts cause] attempts none) db
    match attempt.result with
    | .error (.fault .lockLost) => ⟨attempt.db, true⟩
    | _ => ⟨attempt.db, false⟩

/-- The end of a write that raised something else than a `Conflict`. -/
def writeFailed (bucket : String) (fetched : Fetched) (fault : Fault) (answers : Answers)
    (db : Database) : SyncState :=
  match fault with
  | .lockLost => ⟨db, true⟩
  | .deadlock cause => recordFailure bucket fetched cause answers db
  | .other cause => recordFailure bucket fetched cause answers db

/-- The version whose refusal is recorded after a `Conflict`. -/
def Fetched.refusal (fetched : Fetched) (message : String) : Fetched :=
  { fetched with
    status := some .rejected
    attempts := 0
    notes := fetched.notes ++ ["not imported: " ++ DecisionLog.display 300 message]
    checkedPentest := none
    checkedLog := none }

/-- The refused content of a `Conflict`, recorded on its own. -/
def writeRefused (checks : Checks) (bucket : String) (fetched : Fetched) (message : String)
    (answers : WriteAnswers) (db : Database) : SyncState :=
  let attempt := transaction answers.refused (fetched.refusal message)
    (writeVersion checks bucket (fetched.refusal message) answers.refused) db
  match attempt.result with
  | .ok _ => ⟨attempt.db, false⟩
  | .error (.fault fault) => writeFailed bucket attempt.fetched fault answers.failed attempt.db
  | .error (.conflict _) =>
      writeFailed bucket attempt.fetched (.other "Conflict") answers.failed attempt.db

/-- The second attempt of a write, after a deadlock. -/
def writeAgain (checks : Checks) (bucket : String) (fetched : Fetched) (answers : WriteAnswers)
    (db : Database) : SyncState :=
  let attempt := transaction answers.again fetched
    (writeVersion checks bucket fetched answers.again) db
  match attempt.result with
  | .ok _ => ⟨attempt.db, false⟩
  | .error (.conflict message) =>
      writeRefused checks bucket attempt.fetched message answers attempt.db
  | .error (.fault fault) => writeFailed bucket attempt.fetched fault answers.failed attempt.db

/-- `_write`. -/
def write (checks : Checks) (bucket : String) (fetched : Fetched) (answers : WriteAnswers)
    (db : Database) : SyncState :=
  let attempt := transaction answers.first fetched
    (writeVersion checks bucket fetched answers.first) db
  match attempt.result with
  | .ok _ => ⟨attempt.db, false⟩
  | .error (.conflict message) =>
      writeRefused checks bucket attempt.fetched message answers attempt.db
  | .error (.fault (.deadlock _)) =>
      writeAgain checks bucket attempt.fetched answers attempt.db
  | .error (.fault fault) => writeFailed bucket attempt.fetched fault answers.failed attempt.db

/-! ## A sync -/

/-- What the store and the database answer while one version is processed. -/
structure VersionAnswers where
  reply : Reply
  writes : WriteAnswers

/-- `process_version`. -/
def processVersion (checks : Checks) (bucket : String) (runId : Option String) (version : Listed)
    (recorded : Option Recorded) (answers : VersionAnswers) (db : Database) : SyncState :=
  let start := newFetched version recorded runId
  match fetchVersion checks version start answers.reply with
  | (fetched, none) => write checks bucket fetched answers.writes db
  | (fetched, some error) =>
      let cause :=
        if error.missing || error.deleteMarker then "the version is no longer in the store"
        else error.cause
      recordFailure bucket fetched cause answers.writes.failed db

/-- `recorded_versions`: the records of the versions of some keys. -/
def recordedVersions (db : Database) (bucket : String) (keys : List String) :
    List ((String × String) × Recorded) :=
  let stored := keys.map storedKey
  (db.objects.rows.filter fun row =>
    row.bucket = bucket && stored.contains (row.key, row.keyEscaped)).map fun row =>
      ((rawKey row.key row.keyEscaped, row.versionId), ⟨row.id, row.status, row.attempts⟩)

/-- What the batch knows of a version. -/
def knownVersion (known : List ((String × String) × Recorded)) (version : Listed) :
    Option Recorded :=
  known.reverse.lookup (version.key, version.versionId)

/-- `retried`: a recorded version every sync reads again. -/
def retried (status : Status) : Bool := status = .error

/-- One candidate of a batch. -/
def processCandidate (checks : Checks) (bucket : String) (runId : Option String)
    (known : List ((String × String) × Recorded)) (state : SyncState)
    (candidate : Listed × VersionAnswers) : SyncState :=
  if state.lost then state
  else
    match knownVersion known candidate.1 with
    | none => processVersion checks bucket runId candidate.1 none candidate.2 state.db
    | some recorded =>
        if retried recorded.status then
          processVersion checks bucket runId candidate.1 (some recorded) candidate.2 state.db
        else state

/-- `_process_batch`, the keys' first versions. -/
def processBatch (checks : Checks) (bucket : String) (runId : Option String) (state : SyncState)
    (batch : List (Listed × VersionAnswers)) : SyncState :=
  let known := recordedVersions state.db bucket (batch.map fun candidate => candidate.1.key)
  batch.foldl (processCandidate checks bucket runId known) state

/-- A `duplicate` record whose counterpart does not hold exactly the findings it duplicates. -/
def isStale (findings : Findings) (row : StoreObject) : Bool :=
  let info := row.importInfo.getD .empty
  match info.duplicateOf.bind fun holder => findings.held.lookup holder with
  | none => true
  | some facts =>
      !facts.consistent
        || some facts.count ≠ info.findings || some facts.identity ≠ info.identitySha256

/-- `stale_duplicates`. -/
def staleDuplicates (db : Database) (bucket : String) (findings : Findings) : List StoreObject :=
  (((db.objects.rows.filter fun row =>
    row.bucket = bucket && row.kind = .pentest && row.status = .duplicate).insertionSort
      fun a b => a.id ≤ b.id).filter (isStale findings)).take REEVALUATE_LIMIT

/-- The version of a duplicate, before it is read. -/
def duplicateFetched (row : StoreObject) : Fetched :=
  { newFetched ⟨row.key, row.versionId, row.size, none⟩ (some ⟨row.id, row.status, row.attempts⟩)
      none with
    kind := .pentest
    documentKind := none
    sessionId := none
    notes := []
    reevaluation := true }

/-- One stale duplicate, read again and imported now. -/
def reevaluateDuplicate (checks : Checks) (bucket : String)
    (answers : String → BodyReply × WriteAnswers) (state : SyncState) (row : StoreObject) :
    SyncState :=
  if state.lost then state
  else
    match readBody PENTEST_LIMIT (answers row.id).1 with
    | .body content =>
        if some (checks.tools.sha.hexOfBytes content) ≠ row.sha256 then state
        else
          write checks bucket (checkPentestContent checks (duplicateFetched row) content)
            (answers row.id).2 state.db
    | _ => state

/-- What the store and the other tables answer while the duplicates are re-evaluated. -/
structure Reevaluation where
  findings : Findings
  answers : String → BodyReply × WriteAnswers

/-- `reevaluate_duplicates`. -/
def reevaluateDuplicates (checks : Checks) (bucket : String) (reevaluation : Reevaluation)
    (state : SyncState) : SyncState :=
  (staleDuplicates state.db bucket reevaluation.findings).foldl
    (reevaluateDuplicate checks bucket reevaluation.answers) state

/-- A sync: its batches, and the re-evaluation, none when the sync ended before it. -/
structure SyncRun where
  bucket : String
  runId : Option String
  batches : List (List (Listed × VersionAnswers))
  reevaluation : Option Reevaluation

/-- `sync_bucket`. -/
def syncBucket (checks : Checks) (run : SyncRun) (db : Database) : Database :=
  let state := run.batches.foldl (processBatch checks run.bucket run.runId) ⟨db, false⟩
  match run.reevaluation with
  | none => state.db
  | some reevaluation => (reevaluateDuplicates checks run.bucket reevaluation state).db

end TrustPortal.EvidenceStore
