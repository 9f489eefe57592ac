import TrustPortal.EvidenceStore.Write

/-!
# `TrustPortal.EvidenceStore.Service`: the operations on the records

An administrator acknowledges a record that an import cannot settle (`acknowledge`) or records
a documented erasure (`recordErasure`). Both name a version by its key and version id
(`findObject`). `runOperation` is a sync or one of these; the operations run one at a time.
-/

set_option autoImplicit false

namespace TrustPortal.EvidenceStore

open TrustPortal.Sql

/-- `MAX_REASON`. -/
def MAX_REASON : Nat := 2000

/-- Python's whitespace. -/
def isSpace (c : Char) : Bool :=
  let n := c.toNat
  (9 ≤ n && n ≤ 13) || (28 ≤ n && n ≤ 32) || n = 0x85 || n = 0xa0 || n = 0x1680
    || (0x2000 ≤ n && n ≤ 0x200a) || n = 0x2028 || n = 0x2029 || n = 0x202f || n = 0x205f
    || n = 0x3000

/-- `str.strip`. -/
def strip (text : String) : String :=
  String.ofList ((text.toList.dropWhile isSpace).reverse.dropWhile isSpace).reverse

/-- `_reason`. -/
def reasonText (reason : String) : Except String String :=
  let reason := strip reason
  if reason = "" then .error "a reason is required"
  else if MAX_REASON < reason.length then
    .error s!"the reason is longer than {MAX_REASON} characters"
  else .ok reason

/-- `find_object`: the one record of a key and a version id, in a bucket when one is given. -/
def findObject (db : Database) (key versionId : String) (bucket : Option String) :
    Option StoreObject :=
  let stored := storedKey key
  match db.objects.rows.filter fun row =>
      row.versionId = versionId
        && ((row.key = stored.1 && row.keyEscaped = stored.2)
          || (!stored.2 && row.key = key && row.keyEscaped))
        && (match bucket with
          | some bucket => bucket = "" || row.bucket = bucket
          | none => true) with
  | [row] => some row
  | _ => none

/-- The request of an active compliance admin for one version, the clocks and the faults of its
transaction. -/
structure MarkRequest where
  key : String
  versionId : String
  bucket : Option String
  reason : String
  memberId : String
  clock : Int
  now : Int
  writing : Option Fault
  committing : Option Fault
  deriving DecidableEq, Repr

/-- `acknowledge`: the row it writes. `issues` is what `verify.rederive_issues` finds, or the
error it raises. -/
def acknowledge (row : StoreObject) (request : MarkRequest)
    (issues : Except String (List String)) : Except String StoreObject :=
  let settledRow := fun reason =>
    { row with
      acknowledgedFrom := some row.status
      status := .acknowledged
      acknowledgedAt := some request.clock
      acknowledgedBy := some request.memberId
      acknowledgementReason := some reason }
  match reasonText request.reason with
  | .error message => .error message
  | .ok reason =>
      let attempts := row.attempts
      if row.status = .error ∧ attempts < MAX_ATTEMPTS then
        .error (s!"this version has failed {attempts} sync(s); a sync reads it again, and an "
          ++ s!"error is acknowledged only after {MAX_ATTEMPTS} failed syncs")
      else if row.status = .rejected ∨ row.status = .tooLarge then
        match issues with
        | .error message => .error message
        | .ok [] =>
            .error ("its refusal re-derives from its body: it is a refusal, not a failure to "
              ++ "acknowledge")
        | .ok _ => .ok (settledRow reason)
      else if row.status ≠ .nonConforming ∧ row.status ≠ .error then
        .error ("only a non_conforming version, a refusal that no longer re-derives or a "
          ++ s!"persistent error can be acknowledged (this one is " ++ row.status.name ++ ")")
      else .ok (settledRow reason)

/-- `version_absent`: `HeadObject` must report the version missing. -/
def versionAbsent : Except S3Error Head → Except String Unit
  | .ok _ => .error "the version still exists in the evidence store; erase it there first"
  | .error error =>
      if error.missing then .ok ()
      else
        .error ("the store cannot confirm the version is gone (" ++ error.cause ++ ")")

/-- `record_erasure`: the row it writes. -/
def recordErasure (row : StoreObject) (request : MarkRequest) (head : Except S3Error Head) :
    Except String StoreObject :=
  match reasonText request.reason with
  | .error message => .error message
  | .ok reason =>
      if row.status = .erased then .error "this version is already recorded as erased"
      else
        match versionAbsent head with
        | .error message => .error message
        | .ok () =>
            .ok { row with
              status := .erased
              erasedAt := some request.clock
              erasedBy := some request.memberId
              erasureReason := some reason }

/-- `_mark`: the transaction of an administrator's request. -/
def mark (db : Database) (request : MarkRequest)
    (change : StoreObject → Except String StoreObject) : Database :=
  match findObject db request.key request.versionId request.bucket with
  | none => db
  | some row =>
      match change row, request.writing with
      | .error _, _ => db
      | .ok _, some _ => db
      | .ok new, none =>
          match db.send request.now (.update row new), request.committing with
          | (after, .ok ()), none => after
          | (after, _), _ => after.rollback db

/-- An operation on the records. -/
inductive Operation
  | sync (run : SyncRun)
  | acknowledge (request : MarkRequest) (issues : Except String (List String))
  | recordErasure (request : MarkRequest) (head : Except S3Error Head)

/-- One operation. -/
def runOperation (checks : Checks) (db : Database) : Operation → Database
  | .sync run => syncBucket checks run db
  | .acknowledge request issues => mark db request fun row => acknowledge row request issues
  | .recordErasure request head => mark db request fun row => recordErasure row request head

/-- The operations of a history, one after the other. -/
def runOperations (checks : Checks) (db : Database) (operations : List Operation) : Database :=
  operations.foldl (runOperation checks) db

end TrustPortal.EvidenceStore
