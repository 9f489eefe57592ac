import TrustPortal.EvidenceImport.Values
import TrustPortal.Lib.Dict
import TrustPortal.Sql.Table

/-!
# `TrustPortal.EvidenceImport.Datasets`: the models and loaders of the datasets

The columns of the models that a dataset is stored in, and how a loader makes a record of an item of
a dataset file: which keys go to which columns, which values are translated, and what goes to
`other_data`. A loader reads the database only to check the references of a record.
-/

set_option autoImplicit false

namespace TrustPortal.EvidenceImport

open TrustPortal.Lib
open TrustPortal.Python

/-! ## Models -/

/-- `DATASET_ORDER`. -/
inductive Dataset
  | controls
  | systems
  | tests
  | policies
  | vendors
  | evidence
  | riskRegister
  | pentestFindings
  deriving DecidableEq, Repr

/-- A model: its table and its columns. -/
structure Model where
  tableName : String
  columns : List Column

/-- The column with a name. -/
def Model.column (model : Model) (name : Str) : Option Column :=
  model.columns.find? fun column => column.name = name

/-- `db.Column(type)`. -/
def column (name : String) (type : ColumnType) : Column where
  name := str name
  type := type
  nullable := true
  primaryKey := false
  default := none
  serverDefault := none
  onUpdate := false

/-- `nullable=False`. -/
def required (name : String) (type : ColumnType) : Column :=
  { column name type with nullable := false }

/-- `default=value`. -/
def withDefault (name : String) (type : ColumnType) (value : Value) : Column :=
  { column name type with default := some (.value value) }

/-- A text of at most this length. -/
abbrev text (length : Nat) : ColumnType := .string (some length)

/-- `db.Text`. -/
abbrev longText : ColumnType := .string none

/-- `id`. -/
def idColumn : Column := { required "id" (text 36) with primaryKey := true }

/-- `other_data`. -/
def otherDataColumn : Column :=
  { column "other_data" .json with serverDefault := some (.dict []) }

/-- `created_at`. -/
def createdAtColumn : Column := { column "created_at" .dateTime with default := some .now }

/-- `updated_at`. -/
def updatedAtColumn : Column :=
  { column "updated_at" .dateTime with default := some .now, onUpdate := true }

/-- `Control`. -/
def Control : Model where
  tableName := "controls"
  columns := [idColumn, required "name" (text 255), column "description" longText,
    required "category" (text 50), withDefault "state" (text 50) (.str (str "adopted")),
    column "control_id_short" (text 50), column "frequency" (text 50),
    column "maturity_level" .integer, column "group_name" (text 255), column "owner_id" (text 36),
    column "owner_name" (text 255), column "soc2_references" .json,
    column "source_category" (text 255), column "trustcloud_id" (text 36), otherDataColumn,
    createdAtColumn, updatedAtColumn]

/-- `System`. -/
def System : Model where
  tableName := "systems"
  columns := [idColumn, required "name" (text 255), column "short_name" (text 100),
    column "purpose" longText, column "risk_score" .float, column "system_type" .json,
    column "provider" (text 255), column "data_classifications" .json,
    column "group_name" (text 255), column "trustcloud_id" (text 36), otherDataColumn,
    createdAtColumn, updatedAtColumn]

/-- `TestRecord`. -/
def TestRecord : Model where
  tableName := "test_records"
  columns := [idColumn, required "control_id" (text 36), required "name" (text 255),
    column "question" longText, column "recommendation" longText,
    withDefault "status" (text 50) (.str (str "pending")),
    withDefault "evidence_status" (text 50) (.str (str "missing")),
    column "last_executed_at" .dateTime, column "due_at" .dateTime, column "system_id" (text 36),
    column "test_type" (text 50), column "execution_status" (text 50),
    column "execution_outcome" (text 50), column "finding" longText, column "comment" longText,
    column "owner_id" (text 36), column "owner_name" (text 255), column "trustcloud_id" (text 36),
    otherDataColumn, createdAtColumn, updatedAtColumn]

/-- `Policy`. -/
def Policy : Model where
  tableName := "policies"
  columns := [idColumn, required "title" (text 255), required "category" (text 50),
    withDefault "version" (text 20) (.str (str "1.0")), column "file_path" (text 500),
    withDefault "status" (text 50) (.str (str "draft")), column "approved_at" .dateTime,
    column "approved_by" (text 255), column "next_review_at" .dateTime,
    column "short_name" (text 50), column "security_group" (text 255),
    column "effective_date" .dateTime, column "group_name" (text 255), column "owner_id" (text 36),
    column "owner_name" (text 255), column "parent_policy_id" (text 36), column "notes" longText,
    column "trustcloud_id" (text 36), otherDataColumn, createdAtColumn, updatedAtColumn]

/-- `Vendor`. -/
def Vendor : Model where
  tableName := "vendors"
  columns := [idColumn, required "name" (text 255),
    withDefault "status" (text 50) (.str (str "active")),
    withDefault "is_subprocessor" .boolean (.bool false), column "classification" .json,
    column "locations" .json, column "group_name" (text 255), column "purpose" longText,
    column "website_url" (text 1000), column "privacy_policy_url" (text 1000),
    column "security_page_url" (text 1000), column "tos_url" (text 1000),
    column "certifications" .json, column "trustcloud_id" (text 36), otherDataColumn,
    createdAtColumn, updatedAtColumn]

/-- `Evidence`. -/
def Evidence : Model where
  tableName := "evidence"
  columns := [idColumn, required "test_record_id" (text 36), required "evidence_type" (text 50),
    column "url" (text 1000), column "file_path" (text 500), column "file_data" .binary,
    column "file_name" (text 255), column "file_mime_type" (text 100),
    column "description" longText, { column "collected_at" .dateTime with default := some .now },
    column "collector_name" (text 100), column "trustcloud_id" (text 36), otherDataColumn,
    createdAtColumn]

/-- `RiskRegister`. -/
def RiskRegister : Model where
  tableName := "risk_register"
  columns := [idColumn, required "name" (text 255), column "description" longText,
    column "likelihood" .integer, column "impact" .integer, column "risk_score" .float,
    column "treatment" (text 50), column "treatment_plan" longText,
    withDefault "status" (text 50) (.str (str "open")), column "owner_id" (text 36),
    column "owner_name" (text 255), column "group_name" (text 255), column "review_date" .dateTime,
    column "trustcloud_id" (text 36), otherDataColumn, createdAtColumn, updatedAtColumn]

/-- `PentestFinding`. -/
def PentestFinding : Model where
  tableName := "pentest_findings"
  columns := [idColumn, column "scan_id" (text 36), required "layer" .integer,
    column "repo" (text 255), column "severity" (text 50), column "summary" longText,
    column "description" longText, column "remediation" longText, column "soc2_controls" .json,
    column "file_path" (text 1000), column "source_file" (text 500), column "timestamp" .dateTime,
    otherDataColumn, createdAtColumn]

/-- `model_class`. -/
def Dataset.model : Dataset → Model
  | .controls => Control
  | .systems => System
  | .tests => TestRecord
  | .policies => Policy
  | .vendors => Vendor
  | .evidence => Evidence
  | .riskRegister => RiskRegister
  | .pentestFindings => PentestFinding

/-- A stored row: its columns by name, and the ids of its many-to-many link. -/
structure Row where
  id : Str
  values : Str → Item
  links : List Str

/-- The tables that the datasets are stored in. -/
abbrev Database := Dataset → Sql.Table Row.id

/-- `ctx.ids(model)`. -/
def idsOf (db : Database) (dataset : Dataset) : List Str := (db dataset).rows.map Row.id

/-- The first row with a text in a column. -/
def firstWith (db : Database) (dataset : Dataset) (name : String) (value : Str) : Option Row :=
  (db dataset).rows.find? fun row => row.values (str name) = .json (.str value)

/-! ## Records -/

/-- A record: the value of each column it mentions. -/
abbrev Fields := List (Str × Item)

/-- `fields.get(name)`. -/
def Fields.get (fields : Fields) (name : Str) : Item :=
  ((Dict.get Prod.fst fields name).map Prod.snd).getD .null

/-- `fields[name] = item`. -/
def Fields.set (fields : Fields) (name : Str) (item : Item) : Fields :=
  Dict.put Prod.fst fields (name, item)

/-- Why a record is skipped, or what is said of it. -/
inductive Problem
  /-- `expected a JSON array, got {name}` -/
  | notArray (typeName : String)
  /-- `expected a JSON object` -/
  | notObject
  /-- `id is missing` -/
  | noId
  /-- `control_id is missing` -/
  | noControl
  /-- `control_id {id!r} not found` -/
  | unknownControl (id : Item)
  /-- `system_id {id!r} not found; stored without a system` -/
  | unknownSystem (id : Item)
  /-- `test_name and control_name must be strings` -/
  | namesNotTexts
  /-- `no test matches test_name={name!r}`, and ` or control_name={name!r}` where it is set -/
  | noTest (testName : Str) (controlName : Option Str)
  /-- `{name} is longer than {length} characters` -/
  | tooLong (name : Str) (length : Nat)
  /-- `{names} must be an http(s) URL` -/
  | badUrl (message : String)
  /-- `duplicate id in file; the last occurrence is imported` -/
  | duplicateId
  /-- `missing required field(s): {names}` -/
  | missingFields (names : List Str)
  /-- `required field(s) set to null: {names}` -/
  | nullFields (names : List Str)
  /-- `{key} is not a list; links left unchanged` -/
  | linksNotList (key : String)
  /-- `{key} entry {id!r} not found; link skipped` -/
  | unknownLink (key : String) (id : Value)
  /-- `not a pentest-evidence/layer<N>/<file>.json path` -/
  | notPentestPath
  /-- `findings is not a list` -/
  | findingsNotList

/-- `LinkSpec`. -/
structure LinkSpec where
  key : String
  target : Dataset

section
variable (tools : Tools)

/-- `str(value)`. -/
def textOf (value : Value) : Str :=
  match value with
  | .str s => s
  | _ => tools.py.strOf value

/-- `_parse_date`. -/
def parseDate (value : Value) : Item :=
  match value with
  | .none => .null
  | _ =>
    let text := strip (textOf tools value)
    if text = [] then .null
    else
      match tools.isoDate text with
      | some t => .instant t
      | none =>
        match tools.strptimeDate text with
        | some t => .instant t
        | none => .null

/-- `_with_owner`. -/
def withOwner (item : Members) : Members :=
  match get item "owner" with
  | .dict owner =>
    setMember (setMember item (str "owner_id") (get owner "id")) (str "owner_name")
      (get owner "name")
  | _ => item

/-- What `_apply_value_map` gives for a value that is mapped. -/
def applyValueMap (maps : List (String × List (String × String))) (name : Str) (value : Value) :
    Option Str :=
  match maps.find? fun map => str map.1 = name, value with
  | some (_, map), .str text => (map.find? fun entry => str entry.1 = text).map fun entry =>
    str entry.2
  | _, _ => none

/-- The value of a column, and the key of `other_data` that keeps the value it was mapped from. -/
def columnValue (maps : List (String × List (String × String))) (column : Column) (value : Value) :
    Item × Option Str :=
  let mapped := applyValueMap maps column.name value
  let new := match mapped with
    | some text => Value.str text
    | none => value
  (if column.type = .dateTime then parseDate tools new else .json new,
    mapped.map fun _ => str "_original_" ++ column.name)

/-- The record so far, and `other_data`. -/
structure Building where
  record : Fields
  other : Members

/-- A key of the item that goes to a column. -/
def Building.addColumn (maps : List (String × List (String × String))) (b : Building)
    (column : Column) (value : Value) : Building :=
  let (item, kept) := columnValue tools maps column value
  ⟨b.record.set column.name item,
    match kept with
    | some key => setMember b.other key value
    | none => b.other⟩

/-- A key of the item that goes to `other_data`. -/
def Building.addOther (b : Building) (key : Str) (value : Value) : Building :=
  ⟨b.record, setMember b.other key value⟩

/-- The record with `other_data`. -/
def Building.finish (b : Building) : Fields := b.record.set (str "other_data") (.json (.dict b.other))

/-- `_build_record`. -/
def buildRecord (model : Model) (fieldMap : List (String × String))
    (maps : List (String × List (String × String))) (item : Members) : Fields :=
  (item.foldl (fun (b : Building) (key, value) =>
    let mapped := fieldMap.find? fun entry => str entry.1 = key
    if mapped.isNone && fieldMap.any fun entry => str entry.2 = key then b.addOther key value
    else
      let name := match mapped with
        | some entry => str entry.2
        | none => key
      match model.column name with
      | some column =>
        if name = str "other_data" then b.addOther key value else b.addColumn tools maps column value
      | none => b.addOther key value) ⟨[], []⟩).finish

/-- `item["system_id"] = item["system"]["id"]`. -/
def withSystem (item : Members) : Members :=
  match get item "system" with
  | .dict system =>
    match find system (str "id") with
    | some id => setMember item (str "system_id") id
    | none => item
  | _ => item

/-- `str(uuid.uuid5(namespace, name))`. -/
abbrev Uuid5 := Str → Str → Str

/-- `EVIDENCE_UUID_NAMESPACE`. -/
def EVIDENCE_UUID_NAMESPACE : Str := str "a1b2c3d4-e5f6-7890-abcd-ef1234567890"

/-- `item.get(name, "")` in a text. -/
def formatted (item : Members) (name : String) : Str :=
  match find item (str name) with
  | some value => textOf tools value
  | none => []

/-- `EvidenceLoader._build_record`. -/
def buildEvidence (uuid5 : Uuid5) (item : Members) : Fields :=
  let id := uuid5 EVIDENCE_UUID_NAMESPACE (formatted tools item "test_name" ++ str "|"
    ++ formatted tools item "file_path" ++ str "|" ++ formatted tools item "collected_at")
  (item.foldl (fun (b : Building) (key, value) =>
    if key = str "test_name" ∨ key = str "control_name" then b.addOther key value
    else
      match Evidence.column key with
      | some column =>
        if key = str "id" ∨ key = str "test_record_id" ∨ key = str "other_data" then
          b.addOther key value
        else b.addColumn tools [] column value
      | none => b.addOther key value) ⟨[(str "id", .json (.str id))], []⟩).finish

/-! ## References -/

/-- A record with its references, and what is said of them. -/
abbrev Resolved := Except Problem (Fields × List Problem)

/-- `value in ids`, none where it raises: a list and an object have no hash. -/
def knownId (ids : List Str) (item : Item) : Option Bool :=
  match item with
  | .json (.str id) => some (id ∈ ids)
  | .json (.list _) => none
  | .json (.dict _) => none
  | _ => some false

/-- `bool(item)`. -/
def Item.truthy : Item → Bool
  | .json value => value.truthy
  | .instant _ => true

/-- `TestsLoader.resolve_references`, none where it raises. -/
def resolveTest (db : Database) (record : Fields) : Option Resolved :=
  let controlId := record.get (str "control_id")
  if !controlId.truthy then some (.error .noControl)
  else do
    -- the `TypeError` of an id without a hash is no `SkipRecord`: it ends the import of the file
    let known ← knownId (idsOf db .controls) controlId
    if known then resolveSystem else return .error (.unknownControl controlId)
where
  /-- The system of the record, which is dropped where it is unknown. -/
  resolveSystem : Option Resolved :=
    let systemId := record.get (str "system_id")
    if !systemId.truthy then some (.ok (record, []))
    else
      (knownId (idsOf db .systems) systemId).map fun known =>
        if known then .ok (record, [])
        else .ok (record.set (str "system_id") .null, [.unknownSystem systemId])

/-- The first test of the control with a name. -/
def testOfControl (db : Database) (name : Str) : Option Row :=
  (firstWith db .controls "name" name).bind fun control =>
    firstWith db .tests "control_id" control.id

/-- `_resolve_test_record_id`. -/
def resolveTestRecordId (db : Database) (testName : Str) (controlName : Option Str) : Option Str :=
  (firstWith db .tests "name" testName <|> testOfControl db testName <|>
    match controlName with
    | some name => if name = [] ∨ name = testName then none else testOfControl db name
    | none => none).map Row.id

/-- `EvidenceLoader.resolve_references`. -/
def resolveEvidence (db : Database) (item : Members) (record : Fields) : Resolved :=
  match (find item (str "test_name")).getD (.str []), get item "control_name" with
  | .str testName, .none => resolveWith testName none
  | .str testName, .str controlName => resolveWith testName (some controlName)
  | _, _ => .error .namesNotTexts
where
  /-- The record of the test with the names. -/
  resolveWith (testName : Str) (controlName : Option Str) : Resolved :=
    match resolveTestRecordId db testName controlName with
    | some id => .ok (record.set (str "test_record_id") (.json (.str id)), [])
    | none => .error (.noTest testName controlName)

end

/-! ## Loaders -/

/-- A loader of a dataset whose file is a list of items. -/
structure Loader where
  model : Model
  link : Option LinkSpec
  build : Members → Fields
  /-- None where it raises. -/
  resolve : Database → Members → Fields → Option Resolved

/-- `BaseLoader.resolve_references`. -/
def noReferences (_ : Database) (_ : Members) (record : Fields) : Option Resolved :=
  some (.ok (record, []))

section
variable (tools : Tools) (uuid5 : Uuid5)

/-- `ControlsLoader`. -/
def ControlsLoader : Loader where
  model := Control
  link := none
  build item := buildRecord tools Control [("tsc_category", "category"),
    ("category", "source_category")] [] (withOwner item)
  resolve := noReferences

/-- `SystemsLoader`. -/
def SystemsLoader : Loader where
  model := System
  link := none
  build := buildRecord tools System [("type", "system_type")] []
  resolve := noReferences

/-- `TestsLoader`. -/
def TestsLoader : Loader where
  model := TestRecord
  link := none
  build item := buildRecord tools TestRecord []
    [("status", [("success", "passed"), ("failure", "failed"), ("not_run", "pending"),
      ("excluded", "not_applicable")]),
      ("evidence_status", [("missing", "missing"), ("up_to_date", "submitted"),
        ("outdated", "outdated"), ("not_required", "submitted"), ("due", "due_soon")])]
    (withSystem (withOwner item))
  resolve db _ record := resolveTest db record

/-- `PoliciesLoader`. -/
def PoliciesLoader : Loader where
  model := Policy
  link := some ⟨"soc2_control_ids", .controls⟩
  build item := buildRecord tools Policy [] [] (withOwner item)
  resolve := noReferences

/-- `VendorsLoader`. -/
def VendorsLoader : Loader where
  model := Vendor
  link := some ⟨"system_ids", .systems⟩
  build := buildRecord tools Vendor [] []
  resolve := noReferences

/-- `EvidenceLoader`. -/
def EvidenceLoader : Loader where
  model := Evidence
  link := none
  build := buildEvidence tools uuid5
  resolve db item record := some (resolveEvidence db item record)

/-- `RiskRegisterLoader`. -/
def RiskRegisterLoader : Loader where
  model := RiskRegister
  link := none
  build item := buildRecord tools RiskRegister [] [] (withOwner item)
  resolve := noReferences

end

end TrustPortal.EvidenceImport
