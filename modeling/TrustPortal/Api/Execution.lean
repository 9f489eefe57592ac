import TrustPortal.Sql.Jsonb

/-!
# `TrustPortal.Api.Execution`: recording the results of tests

`recordExecution` is the route for one test and `batchRecordExecution` the one for a list of
them. Both apply the fields of an item to a test record in memory and add evidence rows to
`db.session`, and commit once at their end.

`Work` is that session: the rows the transaction has written, the test record it holds, with
the values assigned to it, and the evidence rows it has not written yet. A record with
another key is read from the database, and everything that is pending is written before that
read. Of the records a request changed it therefore holds the last one only. A value that the
driver or the database refuses is an exception when it is written, not when it is assigned.

A JSON object has each of its names once. `updated_at`, which follows each UPDATE, and the
columns that neither route reads or writes are left out.
-/

set_option autoImplicit false

namespace TrustPortal.Api

open TrustPortal.Sql

/-! ## JSON values in Python -/

/-- `bool(value)`. -/
def isTruthy : Json → Bool
  | .null => false
  | .bool b => b
  | .number mantissa _ => mantissa ≠ 0
  | .string s => s ≠ ""
  | .array items => !items.isEmpty
  | .object members => !members.isEmpty

/-- The items a `for` loop over a value reads; none where the value is not iterable. -/
def iterate : Json → Option (List Json)
  | .array items => some items
  | .object members => some (members.map fun member => .string member.1)
  | .string s => some (s.toList.map fun c => .string (String.singleton c))
  | _ => none

/-- `len(value)`, which exists for the values a loop can read. -/
def size (value : Json) : Option Nat := (iterate value).map List.length

/-- `data.get(name)` of a JSON object. -/
def get (data : List (String × Json)) (name : String) : Json := (data.lookup name).getD .null

/-! ## The tables -/

/-- What a text column gets from the value assigned to it: a text or NULL, unless the value is
refused. -/
inductive Column
  | stored (text : Option String)
  | refused
  deriving DecidableEq, Repr

/-- The columns of `test_records` that the routes write. `finding` and `comment` hold `α`: a
`Column` in memory, a text or NULL in the database. -/
structure TestRecord (α : Type) where
  executionStatus : Option String
  executionOutcome : Option String
  status : Option String
  lastExecutedAt : Option Int
  evidenceStatus : Option String
  finding : α
  comment : α
  deriving DecidableEq, Repr

/-- A new row of `evidence`. `fileData` is in hexadecimal. -/
structure Evidence where
  id : String
  testRecordId : String
  evidenceType : Json
  description : Json
  url : Json
  filePath : Json
  fileData : Option String
  fileName : Json
  fileMimeType : Json
  collectedAt : Int

/-- The two tables. -/
structure Database where
  tests : String → Option (TestRecord (Option String))
  evidence : List Evidence

/-- What the routes use of other libraries: the primary key that `session.get` makes of a JSON
value, none where it raises; the writing of values; `is_http_url`, none where `urlsplit`
raises; and `base64.b64decode`. -/
structure Library where
  key : Json → Option String
  key_string : ∀ value id, key value = some id → key (.string id) = some id
  column : Json → Column
  accepts : Evidence → Bool
  isHttpUrl : String → Option Bool
  b64decode : String → Option String

/-- The clock and the ids of `uuid.uuid4()` when an item is applied. -/
structure Moment where
  now : Int
  ids : Nat → String

/-- A row as it is read from the database. -/
def TestRecord.load (row : TestRecord (Option String)) : TestRecord Column :=
  { row with finding := .stored row.finding, comment := .stored row.comment }

/-- A row as it is written to the database; none where a value is refused. -/
def TestRecord.save (row : TestRecord Column) : Option (TestRecord (Option String)) :=
  match row.finding, row.comment with
  | .stored finding, .stored comment => some { row with finding := finding, comment := comment }
  | _, _ => none

/-- UPDATE of a test record. -/
def Database.putTest (db : Database) (id : String) (row : TestRecord (Option String)) :
    Database :=
  { db with tests := fun other => if other = id then some row else db.tests other }

/-! ## `db.session` -/

/-- `db.session` within a request. -/
structure Work where
  database : Database
  held : Option (String × TestRecord Column)
  added : List Evidence

/-- The session of a new request. -/
def Work.start (db : Database) : Work := ⟨db, none, []⟩

/-- `flush`: the pending rows are written; none where the driver or the database refuses a
value. -/
def Work.flush (lib : Library) (work : Work) : Option Work :=
  if work.added.all lib.accepts then
    let db := { work.database with evidence := work.database.evidence ++ work.added }
    match work.held with
    | none => some ⟨db, none, []⟩
    | some (id, row) => row.save.map fun saved => ⟨db.putTest id saved, some (id, row), []⟩
  else none

/-- `commit`. -/
def Work.commit (lib : Library) (work : Work) : Option Database :=
  (work.flush lib).map Work.database

/-- `session.get(TestRecord, key)`: the record it holds, else the one it reads after a flush. -/
def Work.get (lib : Library) (key : String) (work : Work) : Option Work :=
  if work.held.map Prod.fst = some key then some work
  else (work.flush lib).map fun written =>
    { written with held := (written.database.tests key).map fun row => (key, row.load) }

/-! ## One execution -/

/-- Why an execution is not recorded: a message for the caller, or an exception. -/
inductive Failure
  | message (text : String)
  | raised
  deriving DecidableEq, Repr

/-- `invalid_url_fields` for the column `url` of `evidence`; none where it raises. -/
def invalidUrl (lib : Library) : Json → Option Bool
  | .null => some false
  | .string url => if url = "" then some false else (lib.isHttpUrl url).map not
  | _ => some true

/-- The message for an item without a type or a description. -/
def REQUIRES_MESSAGE : String := "Each evidence item requires evidence_type and description"

/-- The checks of one evidence item, with its decoded file. -/
def checkEvidence (lib : Library) (item : Json) :
    Except Failure (List (String × Json) × Option String) :=
  match item with
  | .object fields =>
      if (fields.lookup "evidence_type").isNone || (fields.lookup "description").isNone then
        .error (.message REQUIRES_MESSAGE)
      else
        match invalidUrl lib (get fields "url") with
        | none => .error .raised
        | some true => .error (.message "Evidence url must be an http(s) URL")
        | some false =>
            match get fields "file_data" with
            | .string text =>
                match lib.b64decode text with
                | none => .error (.message "Invalid base64 in evidence file_data")
                | some bytes => .ok (fields, some bytes)
            | _ => .ok (fields, none)
  | _ => .error (.message REQUIRES_MESSAGE)

/-- The row of a checked evidence item. -/
def evidenceRow (moment : Moment) (testId : String) (index : Nat)
    (decoded : List (String × Json) × Option String) : Evidence where
  id := moment.ids index
  testRecordId := testId
  evidenceType := get decoded.1 "evidence_type"
  description := get decoded.1 "description"
  url := get decoded.1 "url"
  filePath := get decoded.1 "file_path"
  fileData := decoded.2
  fileName := get decoded.1 "file_name"
  fileMimeType := get decoded.1 "file_mime_type"
  collectedAt := moment.now

/-- The first loop of `_create_evidence_items`, over a truthy value. -/
def checkEvidenceItems (lib : Library) (evidence : Json) :
    Except Failure (List (List (String × Json) × Option String)) :=
  match iterate evidence with
  | none => .error .raised
  | some items => items.mapM (checkEvidence lib)

/-- `_create_evidence_items`. -/
def createEvidenceItems (lib : Library) (moment : Moment) (testId : String) (evidence : Json) :
    Except Failure (List Evidence) :=
  (checkEvidenceItems lib evidence).map fun decoded =>
    decoded.mapIdx (evidenceRow moment testId)

/-- `outcome in ("success", "failure")`. -/
def isOutcome : Json → Bool
  | .string outcome => outcome = "success" || outcome = "failure"
  | _ => false

/-- The message for the outcome of an execution, if it has one. -/
def outcomeError (data : List (String × Json)) : Option String :=
  if !isTruthy (get data "outcome") then some "Missing required field: outcome"
  else if !isOutcome (get data "outcome") then some "outcome must be 'success' or 'failure'"
  else none

/-- The text of a valid outcome. -/
def outcomeText (data : List (String × Json)) : String :=
  match get data "outcome" with
  | .string outcome => outcome
  | _ => ""

/-- The column of a field that is written when it is given. -/
def assigned (lib : Library) (data : List (String × Json)) (name : String) (before : Column) :
    Column :=
  match data.lookup name with
  | some value => lib.column value
  | none => before

/-- The assignments of `_apply_execution` before the evidence. -/
def assignResult (lib : Library) (moment : Moment) (data : List (String × Json))
    (test : TestRecord Column) : TestRecord Column :=
  { test with
    executionStatus := some "completed"
    executionOutcome := some (outcomeText data)
    status := some (if outcomeText data = "success" then "passed" else "failed")
    lastExecutedAt := some moment.now
    finding := assigned lib data "finding" test.finding
    comment := assigned lib data "comment" test.comment }

/-- `data.get("evidence", [])`. -/
def suppliedEvidence (data : List (String × Json)) : Json :=
  (data.lookup "evidence").getD (.array [])

/-- `_apply_execution`: the record as it leaves it, and the rows it adds or why it fails. -/
def applyExecution (lib : Library) (moment : Moment) (testId : String)
    (data : List (String × Json)) (test : TestRecord Column) :
    TestRecord Column × Except Failure (List Evidence) :=
  match outcomeError data with
  | some text => (test, .error (.message text))
  | none =>
      let changed := assignResult lib moment data test
      if isTruthy (suppliedEvidence data) then
        match createEvidenceItems lib moment testId (suppliedEvidence data) with
        | .error failure => (changed, .error failure)
        | .ok rows => ({ changed with evidenceStatus := some "submitted" }, .ok rows)
      else (changed, .ok [])

/-! ## The routes -/

/-- The answer for one item of a batch. -/
inductive ItemStatus
  | ok (outcome : String)
  | error (message : String)
  deriving DecidableEq, Repr

/-- An entry of `results`. -/
structure ItemResult where
  testId : Json
  status : ItemStatus

/-- The item was answered `error`. -/
def ItemResult.isError (result : ItemResult) : Bool :=
  match result.status with
  | .error _ => true
  | .ok _ => false

/-- The answer of a route. An exception is answered with status 500. -/
inductive Response
  | executed (created : Nat)
  | results (items : List ItemResult)
  | error (status : Nat) (message : String)
  | raised

/-- The answer has an error status. -/
def Response.isError : Response → Bool
  | .executed _ => false
  | .results _ => false
  | .error _ _ => true
  | .raised => true

/-- What a request did: the database it committed, if it did, and its answer. -/
structure Handled where
  committed : Option Database
  response : Response

/-- `record_execution`, from its body on. The evidence is counted after the commit. -/
def recordExecution (lib : Library) (moment : Moment) (testId : String) (body : Json)
    (db : Database) : Handled :=
  match lib.key (.string testId) with
  | none => ⟨none, .raised⟩
  | some key =>
      match db.tests key with
      | none => ⟨none, .error 404 "Test record not found"⟩
      | some row =>
          if !isTruthy body then ⟨none, .error 400 "Request body required"⟩
          else
            match body with
            | .object data =>
                match applyExecution lib moment key data row.load with
                | (_, .error .raised) => ⟨none, .raised⟩
                | (_, .error (.message text)) => ⟨none, .error 400 text⟩
                | (changed, .ok rows) =>
                    match Work.commit lib ⟨db, some (key, changed), rows⟩ with
                    | none => ⟨none, .raised⟩
                    | some after =>
                        match size (suppliedEvidence data) with
                        | none => ⟨some after, .raised⟩
                        | some count => ⟨some after, .executed count⟩
            | _ => ⟨none, .raised⟩

/-- One round of the loop of `batch_record_execution`; none where it raises. -/
def batchItem (lib : Library) (moment : Moment) (item : Json) (work : Work) :
    Option (Work × ItemResult) :=
  match item with
  | .object data =>
      let testId := get data "test_id"
      if !isTruthy testId then some (work, ⟨.null, .error "Missing test_id"⟩)
      else
        (lib.key testId).bind fun key =>
          (work.get lib key).bind fun found =>
            match found.held with
            | none => some (found, ⟨testId, .error "Test record not found"⟩)
            | some (id, test) =>
                match applyExecution lib moment id data test with
                | (_, .error .raised) => none
                | (changed, .error (.message text)) =>
                    some ({ found with held := some (id, changed) }, ⟨testId, .error text⟩)
                | (changed, .ok rows) =>
                    some ({ found with held := some (id, changed), added := found.added ++ rows },
                      ⟨testId, .ok (outcomeText data)⟩)
  | _ => none

/-- The loop of `batch_record_execution`. -/
def batchItems (lib : Library) : Work → List (Moment × Json) → Option (Work × List ItemResult)
  | work, [] => some (work, [])
  | work, (moment, item) :: rest =>
      (batchItem lib moment item work).bind fun (next, result) =>
        (batchItems lib next rest).map fun (last, results) => (last, result :: results)

/-- `batch_record_execution`, from its list on. -/
def batchExecutions (lib : Library) (steps : List (Moment × Json)) (db : Database) : Handled :=
  match batchItems lib (.start db) steps with
  | none => ⟨none, .raised⟩
  | some (work, results) =>
      match work.commit lib with
      | none => ⟨none, .raised⟩
      | some after => ⟨some after, .results results⟩

/-- `name in value` of a list or a text; none for another value, where it raises. -/
def holdsName (name : String) : Json → Option Bool
  | .array items => some (items.any fun
      | .string s => s = name
      | _ => false)
  | .string s => some (s.toList.tails.any fun tail => name.toList.isPrefixOf tail)
  | _ => none

/-- `batch_record_execution`. `moments` has the moment of each item. -/
def batchRecordExecution (lib : Library) (moments : Nat → Moment) (body : Json) (db : Database) :
    Handled :=
  if !isTruthy body then ⟨none, .error 400 "Missing required field: executions"⟩
  else
    match body with
    | .object data =>
        match data.lookup "executions" with
        | none => ⟨none, .error 400 "Missing required field: executions"⟩
        | some (.array items) =>
            batchExecutions lib (items.mapIdx fun index item => (moments index, item)) db
        | some _ => ⟨none, .error 400 "executions must be an array"⟩
    | other =>
        -- A list or a text that holds the name is not indexed by it.
        match holdsName "executions" other with
        | some false => ⟨none, .error 400 "Missing required field: executions"⟩
        | _ => ⟨none, .raised⟩

end TrustPortal.Api
