import TrustPortal.EvidenceStore.Keys
import TrustPortal.Sql.Table

/-!
# `TrustPortal.EvidenceStore.Objects`: `evidence_store_objects` and its guard

`StoreObject` is a row of the table. `guardInsert` and `guardUpdate` are the branches of the
trigger `evidence_store_objects_guard` of migration 021. `Database.send` is a statement at the
database: the guard, then the unique constraint. `Database.issued` keeps every statement that
was sent, those of a transaction that was rolled back as well.

A timestamp is in microseconds since 1970. The metadata is a JSON object of texts.
-/

set_option autoImplicit false

namespace TrustPortal.EvidenceStore

open TrustPortal.Sql

/-- `OBJECT_STATUSES`: the outcomes of a recorded version. -/
inductive Status
  | ingested
  | unchanged
  | recorded
  | duplicate
  | rejected
  | nonConforming
  | tooLarge
  | error
  | acknowledged
  | erased
  deriving DecidableEq, Repr

/-- The name of a status. -/
def Status.name : Status → String
  | .ingested => "ingested"
  | .unchanged => "unchanged"
  | .recorded => "recorded"
  | .duplicate => "duplicate"
  | .rejected => "rejected"
  | .nonConforming => "non_conforming"
  | .tooLarge => "too_large"
  | .error => "error"
  | .acknowledged => "acknowledged"
  | .erased => "erased"

/-- The sidecar version a transcript's import read. -/
structure SidecarInfo where
  key : String
  versionId : String
  read : Bool
  deriving DecidableEq, Repr

/-- The outcome of a decision-log import. `matchedVersion` is there for an `unchanged` one. -/
structure DecisionLogInfo where
  sessionId : String
  outcome : String
  entries : Option Nat
  matchedVersion : Option (Option String)
  deriving DecidableEq, Repr

/-- `import_info`. -/
structure ImportInfo where
  sidecar : Option SidecarInfo
  decisionLog : Option DecisionLogInfo
  findings : Option Nat
  identitySha256 : Option String
  duplicateOf : Option String
  stored : Bool
  deriving DecidableEq, Repr

/-- An empty `import_info`. -/
def ImportInfo.empty : ImportInfo := ⟨none, none, none, none, none, false⟩

/-- A row of `evidence_store_objects`. -/
structure StoreObject where
  id : String
  bucket : String
  key : String
  keyEscaped : Bool
  versionId : String
  kind : Kind
  status : Status
  sha256 : Option String
  compositeChecksum : Option String
  size : Nat
  etag : Option String
  lastModified : Option Int
  contentType : Option String
  objectMetadata : Option (List (String × String))
  lockMode : Option String
  retainUntil : Option Int
  syncRunId : Option String
  attempts : Nat
  importInfo : Option ImportInfo
  detail : Option String
  erasedAt : Option Int
  erasedBy : Option String
  erasureReason : Option String
  acknowledgedAt : Option Int
  acknowledgedBy : Option String
  acknowledgementReason : Option String
  acknowledgedFrom : Option Status
  createdAt : Int
  deriving DecidableEq, Repr

/-! ## The guard -/

/-- `identity_kept`. -/
def identityKept (old new : StoreObject) : Bool :=
  new.id = old.id && new.bucket = old.bucket && new.key = old.key
    && new.keyEscaped = old.keyEscaped && new.versionId = old.versionId && new.kind = old.kind
    && new.createdAt = old.createdAt

/-- `evidence_kept`. -/
def evidenceKept (old new : StoreObject) : Bool :=
  new.sha256 = old.sha256 && new.size = old.size
    && new.compositeChecksum = old.compositeChecksum && new.etag = old.etag
    && new.lastModified = old.lastModified && new.contentType = old.contentType
    && new.objectMetadata = old.objectMetadata && new.lockMode = old.lockMode
    && new.retainUntil = old.retainUntil && new.syncRunId = old.syncRunId

/-- `erasure_kept`. -/
def erasureKept (old new : StoreObject) : Bool :=
  new.erasedAt = old.erasedAt && new.erasedBy = old.erasedBy
    && new.erasureReason = old.erasureReason

/-- `acknowledgement_kept`. -/
def acknowledgementKept (old new : StoreObject) : Bool :=
  new.acknowledgedAt = old.acknowledgedAt && new.acknowledgedBy = old.acknowledgedBy
    && new.acknowledgementReason = old.acknowledgementReason
    && new.acknowledgedFrom = old.acknowledgedFrom

/-- `record_kept`. -/
def recordKept (old new : StoreObject) : Bool :=
  new.attempts = old.attempts && new.detail = old.detail && new.importInfo = old.importInfo

/-- A version read again gains its evidence and a status, or one more attempt. -/
def readAgain (old new : StoreObject) : Bool :=
  old.status = .error && new.status ≠ .acknowledged && new.status ≠ .erased
    && (new.status ≠ .error || old.attempts < new.attempts)

/-- A duplicate pentest file is re-evaluated. -/
def reevaluated (old new : StoreObject) : Bool :=
  old.status = .duplicate && [Status.ingested, .unchanged, .duplicate, .rejected].contains new.status
    && evidenceKept old new && new.attempts = old.attempts

/-- An administrator settles a non-conforming upload, a refusal or a persistent error. -/
def settled (old new : StoreObject) : Bool :=
  identityKept old new && evidenceKept old new && erasureKept old new && recordKept old new
    && [Status.nonConforming, .rejected, .tooLarge, .error].contains old.status
    && new.status = .acknowledged && new.acknowledgedFrom = some old.status
    && new.acknowledgedAt.isSome && new.acknowledgedBy.isSome && new.acknowledgementReason.isSome

/-- A documented erasure. -/
def erasedNow (old new : StoreObject) : Bool :=
  identityKept old new && evidenceKept old new && acknowledgementKept old new
    && recordKept old new && old.status ≠ .erased && new.status = .erased
    && new.erasedAt.isSome && new.erasedBy.isSome && new.erasureReason.isSome

/-- The guard's branch for an INSERT: a version is recorded before it is erased or
acknowledged. -/
def guardInsert (new : StoreObject) : Bool :=
  !([Status.erased, .acknowledged].contains new.status || new.erasedAt.isSome
    || new.erasedBy.isSome || new.erasureReason.isSome || new.acknowledgedAt.isSome
    || new.acknowledgedBy.isSome || new.acknowledgementReason.isSome
    || new.acknowledgedFrom.isSome)

/-- The guard's branch for an UPDATE. -/
def guardUpdate (old new : StoreObject) : Bool :=
  (identityKept old new && erasureKept old new && acknowledgementKept old new
      && (readAgain old new || reevaluated old new))
    || settled old new || erasedNow old new

/-! ## Statements -/

/-- A statement of the table. -/
inductive Statement
  | insert (new : StoreObject)
  | update (old new : StoreObject)
  deriving DecidableEq, Repr

/-- The guard accepts a statement. -/
def Statement.admitted : Statement → Bool
  | .insert new => guardInsert new
  | .update old new => guardUpdate old new

/-- The table, and the statements it was sent. -/
structure Database where
  objects : Table StoreObject.id
  issued : List Statement

/-- The database of a new installation. -/
def Database.empty : Database := ⟨Table.empty _, []⟩

/-- What a write can meet: the run's lock is lost, a deadlock, or another error. The text is
`store.describe`'s. -/
inductive Fault
  | lockLost
  | deadlock (cause : String)
  | other (cause : String)
  deriving DecidableEq, Repr

/-- The refusal of the guard, `insufficient_privilege`. -/
def Fault.refused : Fault := .other "ProgrammingError 42501"

/-- A violation of a unique constraint. -/
def Fault.uniqueViolation : Fault := .other "IntegrityError 23505"

/-- Some row records this version, `uq_evidence_store_objects_version`. -/
def Database.versionTaken (db : Database) (row : StoreObject) : Bool :=
  db.objects.rows.any fun other =>
    other.bucket = row.bucket && other.key = row.key && other.keyEscaped = row.keyEscaped
      && other.versionId = row.versionId

/-- The table after a statement. The guard dates an inserted row. -/
def Database.apply (db : Database) (now : Int) : Statement → Except Fault (Table StoreObject.id)
  | .insert new =>
      if guardInsert new = false then .error .refused
      else if db.versionTaken new then .error .uniqueViolation
      else
        match db.objects.insert { new with createdAt := now } with
        | some objects => .ok objects
        | none => .error .uniqueViolation
  | .update old new =>
      if guardUpdate old new = false then .error .refused else .ok (db.objects.put new)

/-- A statement at the database. -/
def Database.send (db : Database) (now : Int) (statement : Statement) :
    Database × Except Fault Unit :=
  match db.apply now statement with
  | .ok objects => (⟨objects, db.issued ++ [statement]⟩, .ok ())
  | .error fault => (⟨db.objects, db.issued ++ [statement]⟩, .error fault)

/-- A change of one row: an INSERT, or an UPDATE of the row with an id. An UPDATE can name any
new value for any column. -/
inductive RowChange
  | insert (new : StoreObject)
  | update (id : String) (new : StoreObject)
  deriving DecidableEq, Repr

/-- The statement a change sends. The guard's OLD is the stored row, and an UPDATE that finds no
row does not reach the guard. -/
def RowChange.statement (db : Database) : RowChange → Option Statement
  | .insert new => some (.insert new)
  | .update id new => (db.objects.get id).map fun old => .update old new

/-- The database after a change at a time. A refused change leaves the rows as they are. -/
def Database.change (db : Database) (step : Int × RowChange) : Database :=
  match step.2.statement db with
  | none => db
  | some statement => (db.send step.1 statement).1

/-- The database after changes one after the other. -/
def Database.changes (db : Database) (steps : List (Int × RowChange)) : Database :=
  steps.foldl Database.change db

/-- ROLLBACK to the table at the start of the transaction. -/
def Database.rollback (db start : Database) : Database := ⟨start.objects, db.issued⟩

end TrustPortal.EvidenceStore
