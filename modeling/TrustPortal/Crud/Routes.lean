import TrustPortal.Crud.Columns

/-!
# `TrustPortal.Crud.Routes`: the routes of the models

`_register_crud` gives each of eight models the routes list, get, create, update and delete. `handle`
is a request to one of them: `requireApiKey` and `requireWriter` answer before the view runs, and the
views follow. A client member reads systems, vendors and approved policies.

A request is one transaction, so that a commit that is refused leaves the tables as they were. What
the database refuses beyond the columns of a row is a parameter: unknown references, the guard of the
pentest findings, a lost connection. The hooks before a view, which limit the body and check the CSRF
token, only refuse requests and are left out, as are the many-to-many links of policies and vendors,
which a deletion takes with it.
-/

set_option autoImplicit false

namespace TrustPortal.Crud

open TrustPortal.Lib
open TrustPortal.Python
open TrustPortal.EvidenceImport (Item Dataset Model Tools Postgres)

/-! ## Requests and answers -/

/-- `ROLES`. -/
inductive Role
  | human
  | agent
  | client
  deriving DecidableEq, Repr

/-- The member that a request is authenticated as. -/
structure Caller where
  role : Role
  isExpired : Bool
  deriving DecidableEq, Repr

/-- `can_write`. -/
def Caller.canWrite (caller : Caller) : Bool := caller.role = .human || caller.role = .agent

/-- What `request.get_json()` gives: the value, or the status and the description of its error. -/
inductive Body
  | json (value : Value)
  | refused (status : Nat) (description : Str)

/-- The views of a model. -/
inductive Operation
  | list
  | get (id : Str)
  | create (body : Body)
  | update (id : Str) (body : Body)
  | delete (id : Str)

/-- A request: the member that `current_member` resolves and whether a header named it, whether it
comes from a browser, the model and the view, the clock, and `uuid.uuid4()`. -/
structure Request where
  member : Option Caller
  viaHeader : Bool
  browser : Bool
  dataset : Dataset
  operation : Operation
  now : Int
  uuid : Str

/-- What `_serialize` shows of a row. A date-time is its instant. -/
abbrev Shown := List (Str × Item)

/-- A response. -/
inductive Answer
  | listed (rows : List Shown)
  | shown (status : Nat) (row : Shown)
  | deleted (id : Str)
  | error (status : Nat) (text : Str)
  | redirect (endpoint : String) (error : Option String)
  /-- An exception, with status 500. -/
  | raised

/-- `_serialize`. -/
def serialize (model : Model) (record : Record) : Shown :=
  model.columns.map fun column =>
    match column.type, record.values column.name with
    | .binary, cell => (str "has_file", .json (.bool (cell ≠ .null)))
    | _, .item item => (column.name, item)
    | _, .bytes _ => (column.name, .null)

/-! ## Access -/

/-- `plural_name`. -/
def pluralName : Dataset → String
  | .controls => "controls"
  | .systems => "systems"
  | .vendors => "vendors"
  | .policies => "policies"
  | .tests => "tests"
  | .evidence => "evidence"
  | .riskRegister => "risks"
  | .pentestFindings => "pentest-findings"

/-- `required_fields`. -/
def requiredFields : Dataset → List String
  | .controls => ["name", "category"]
  | .systems => ["name"]
  | .vendors => ["name"]
  | .policies => ["title", "category"]
  | .tests => ["name", "control_id"]
  | .evidence => ["test_record_id", "evidence_type"]
  | .riskRegister => ["name"]
  | .pentestFindings => ["layer"]

/-- `request.endpoint`. -/
def Request.endpoint (request : Request) : String :=
  "crud." ++ (match request.operation with
    | .list => "list_"
    | .get _ => "get_"
    | .create _ => "create_"
    | .update .. => "update_"
    | .delete _ => "delete_") ++ pluralName request.dataset

/-- `request.method`. -/
def Request.method (request : Request) : String :=
  match request.operation with
  | .list | .get _ => "GET"
  | .create _ => "POST"
  | .update .. => "PUT"
  | .delete _ => "DELETE"

/-- `CLIENT_ALLOWED_ENDPOINTS`. -/
def CLIENT_ALLOWED_ENDPOINTS : List String :=
  ["api.compliance_score", "api.compliance_journey", "api.list_controls", "api.evidence_gaps",
    "api.get_settings", "crud.list_systems", "crud.get_systems", "crud.list_vendors",
    "crud.get_vendors", "crud.list_policies", "crud.get_policies", "admin.client_report"]

/-- `CLIENT_ALLOWED_METHODS`. -/
def CLIENT_ALLOWED_METHODS : List String := ["GET", "HEAD"]

/-- `client_may_access`. -/
def Request.clientMayAccess (request : Request) : Bool :=
  request.method ∈ CLIENT_ALLOWED_METHODS && request.endpoint ∈ CLIENT_ALLOWED_ENDPOINTS

/-- `require_api_key`: the member the view runs for, or the response. The paths start with `/api/`. -/
def requireApiKey (request : Request) : Except Answer Caller :=
  match request.member with
  | none =>
    if request.browser && !request.viaHeader then .error (.redirect "admin.login" none)
    else if request.viaHeader then .error (.error 401 (str "Invalid or inactive API key"))
    else .error (.error 401 (str "Missing API key"))
  | some caller =>
    if caller.isExpired then
      if request.browser then .error (.redirect "admin.client_login" (some "expired"))
      else .error (.error 401 (str "API key has expired"))
    else if caller.role = .client && !request.clientMayAccess then
      .error (.error 403 (str "Client access is limited to the compliance report"))
    else .ok caller

/-- `require_writer`. -/
def requireWriter (caller : Caller) : Except Answer Unit :=
  if caller.canWrite then .ok ()
  else .error (.error 403 (str "Read-only access: this key cannot modify compliance data"))

/-! ## Reading -/

/-- The tables of the models. -/
abbrev Store := Dataset → Sql.Table Record.id

/-- `_client_filter`: a row that the member may see. -/
def isVisible (caller : Caller) (dataset : Dataset) (record : Record) : Bool :=
  if dataset = .policies && caller.role = .client then
    record.values (str "status") = .item (.json (.str (str "approved")))
  else true

/-- `list_all`. -/
def listAll (caller : Caller) (dataset : Dataset) (store : Store) : Answer :=
  .listed (((store dataset).rows.filter (isVisible caller dataset)).map (serialize dataset.model))

/-- `Not found`. -/
def notFound : Answer := .error 404 (str "Not found")

/-- `get_one`. -/
def getOne (caller : Caller) (dataset : Dataset) (id : Str) (store : Store) : Answer :=
  match ((store dataset).get id).filter (isVisible caller dataset) with
  | some record => .shown 200 (serialize dataset.model record)
  | none => notFound

/-! ## Writing -/

/-- What the routes run with. -/
structure Server where
  tools : Tools
  urls : UrlTables
  pg : Postgres
  /-- The exception for values that a column does not take. -/
  unstorable : Refusal
  /-- What else the database refuses in a transaction that makes the second tables of the first. -/
  refuses : Store → Store → Option Refusal

/-- `STORE_NAMESPACE` and a colon. -/
def STORE_PREFIX : Str := EvidenceImport.STORE_NAMESPACE ++ str ":"

/-- A `source_file` of the namespace of the evidence store. -/
def inStoreNamespace (sourceFile : Cell) : Bool :=
  match sourceFile.text with
  | some text => STORE_PREFIX.isPrefixOf text
  | none => false

/-- `_store_finding`, of a row. -/
def isStoreFinding (dataset : Dataset) (record : Record) : Bool :=
  dataset = .pentestFindings && inStoreNamespace (record.values (str "source_file"))

/-- `_store_finding`, of the values of a request. -/
def namesStore (dataset : Dataset) (data : Data) : Bool :=
  dataset = .pentestFindings && (data.get (str "source_file")).any inStoreNamespace

/-- `STORE_FINDING_ERROR`. -/
def STORE_FINDING_ERROR : Answer := .error 409 (str
  "the evidence store's pentest findings are immutable evidence (re-derived from its write-once objects); they are never created, changed or deleted through the API")

/-- `SERVER_ID_ERROR`. -/
def SERVER_ID_ERROR : Answer := .error 400 (str
  "pentest finding ids are assigned by the server: leave out id (the response carries the new id)")

/-- The response for an exception of `_commit_or_error`. -/
def commitError : Refusal → Answer
  | .unique => .error 409 (str "A record with this id or unique value already exists")
  | .integrity => .error 400 (str
    "The values break a database constraint: a referenced record does not exist or a required value is missing")
  | .data => .error 400 (str "A value does not fit its column")
  | .other => .raised

/-- The values of a body, which must be an object that is not empty. -/
def readBody : Body → Except Answer Data
  | .refused status description => .error (.error status description)
  | .json (.dict (entry :: rest)) =>
    .ok ((entry :: rest).map fun member => (member.1, .item (.json member.2)))
  | .json _ => .error (.error 400 (str "Request body required"))

section
variable (server : Server)

/-- `decode_file_data`, `url_fields_error` and `column_errors`. -/
def checkValues (dataset : Dataset) (data : Data) : Except Answer Data := do
  let data ← (decodeFileData data).mapError (Answer.error 400)
  match Web.urlFieldsError server.urls dataset.model.tableName (jsonMembers data) with
  | none => .error .raised
  | some (some text) => .error (.error 400 (str text))
  | some none => (columnErrors server.tools dataset.model data).mapError (Answer.error 400)

/-- `commit`. -/
def commit (before after : Store) : Except Refusal Store :=
  match server.refuses before after with
  | some refusal => .error refusal
  | none => .ok after

/-- The INSERT of `create`. -/
def insertion (now : Int) (dataset : Dataset) (data : Data) (store : Store) :
    Except Refusal (Record × Store) := do
  let record ← insertRecord server.tools server.pg now dataset.model server.unstorable data
  match (store dataset).insert record with
  | none => .error .unique
  | some rows => (commit server store (Function.update store dataset rows)).map fun after =>
    (record, after)

/-- The UPDATE of `update`. -/
def modification (now : Int) (dataset : Dataset) (record : Record) (data : Data) (store : Store) :
    Except Refusal (Record × Store) := do
  let record ← updateRecord server.tools server.pg now dataset.model server.unstorable record data
  (commit server store (Function.update store dataset ((store dataset).put record))).map fun after =>
    (record, after)

/-- The first required field that a request leaves out. -/
def missingField (dataset : Dataset) (data : Data) : Option String :=
  (requiredFields dataset).find? fun field => (data.get (str field)).isNone

/-- The values with an id. -/
def withId (data : Data) (uuid : Str) : Data :=
  if (data.get (str "id")).isNone then data ++ [(str "id", .item (.json (.str uuid)))] else data

/-- `create`: the row and the tables, or the response. -/
def create (now : Int) (uuid : Str) (dataset : Dataset) (body : Body) (store : Store) :
    Except Answer (Record × Store) := do
  let data ← readBody body
  match missingField dataset data with
  | some field => .error (.error 400 (str "Missing required field: " ++ str field))
  | none =>
    if namesStore dataset data then .error STORE_FINDING_ERROR
    else if dataset = .pentestFindings ∧ (data.get (str "id")).isSome then .error SERVER_ID_ERROR
    else do
      let data ← checkValues server dataset (withId data uuid)
      (insertion server now dataset data store).mapError commitError

/-- `update`: the row and the tables, or the response. -/
def update (now : Int) (dataset : Dataset) (id : Str) (body : Body) (store : Store) :
    Except Answer (Record × Store) :=
  match (store dataset).get id with
  | none => .error notFound
  | some record => do
    let data ← readBody body
    if isStoreFinding dataset record || namesStore dataset data then .error STORE_FINDING_ERROR
    else do
      let data ← checkValues server dataset data
      (modification server now dataset record data store).mapError commitError

end

/-! ## Deleting -/

/-- The relationship to the rows that belong to one of a model: their table, and their column with its
id, which the deletion sets to NULL. -/
def children : Dataset → Option (Dataset × String)
  | .controls => some (.tests, "control_id")
  | .systems => some (.tests, "system_id")
  | .tests => some (.evidence, "test_record_id")
  | _ => none

/-- A row that belongs to one. -/
def belongsTo (name : String) (id : Str) (record : Record) : Bool :=
  record.values (str name) = .item (.json (.str id))

/-- A row without the one it belonged to. -/
def detached (now : Int) (model : Model) (name : String) (record : Record) : Record :=
  { record with values := fun other =>
      if other = str name then .null
      else if (model.column other).any EvidenceImport.Column.onUpdate then .item (.instant now)
      else record.values other }

/-- The table with the rows that belonged to one detached from it, none where their column is NOT
NULL. -/
def detach (now : Int) (dataset : Dataset) (name : String) (id : Str) (store : Store) :
    Option Store :=
  let belonging := (store dataset).rows.filter (belongsTo name id)
  if belonging.isEmpty then some store
  else if (dataset.model.column (str name)).any EvidenceImport.Column.nullable then
    some (Function.update store dataset
      (belonging.foldl (fun rows record => rows.put (detached now dataset.model name record))
        (store dataset)))
  else none

/-- The rows without the one with an id. -/
def without (rows : Sql.Table Record.id) (id : Str) : Sql.Table Record.id where
  rows := rows.rows.filter fun record => record.id ≠ id
  nodup := rows.nodup.sublist (List.filter_sublist.map Record.id)

/-- `delete`: the tables, or the response. Its commit catches nothing. -/
def delete (server : Server) (now : Int) (dataset : Dataset) (id : Str) (store : Store) :
    Except Answer Store :=
  match (store dataset).get id with
  | none => .error notFound
  | some record =>
    if isStoreFinding dataset record then .error STORE_FINDING_ERROR
    else
      let left := match children dataset with
        | none => some store
        | some (other, name) => detach now other name id store
      match left with
      | none => .error .raised
      | some left =>
        (commit server store (Function.update left dataset (without (left dataset) id))).mapError
          fun _ => .raised

/-! ## The routes -/

/-- A response and the tables after a view that shows a row. -/
def showing (status : Nat) (model : Model) (store : Store) :
    Except Answer (Record × Store) → Answer × Store
  | .error answer => (answer, store)
  | .ok (record, after) => (.shown status (serialize model record), after)

/-- A request: the response, and the tables after it. -/
def handle (server : Server) (request : Request) (store : Store) : Answer × Store :=
  match requireApiKey request with
  | .error answer => (answer, store)
  | .ok caller =>
    match request.operation with
    | .list => (listAll caller request.dataset store, store)
    | .get id => (getOne caller request.dataset id store, store)
    | .create body =>
      showing 201 request.dataset.model store (do
        requireWriter caller
        create server request.now request.uuid request.dataset body store)
    | .update id body =>
      showing 200 request.dataset.model store (do
        requireWriter caller
        update server request.now request.dataset id body store)
    | .delete id =>
      match (do
        requireWriter caller
        delete server request.now request.dataset id store) with
      | .error answer => (answer, store)
      | .ok after => (.deleted id, after)

/-- The tables after some requests. -/
def run (server : Server) (store : Store) (requests : List Request) : Store :=
  requests.foldl (fun store request => (handle server request store).2) store

end TrustPortal.Crud
