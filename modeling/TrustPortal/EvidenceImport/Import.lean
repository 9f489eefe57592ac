import TrustPortal.EvidenceImport.Datasets
import TrustPortal.Web.Security

/-!
# `TrustPortal.EvidenceImport.Import`: the import of a dataset file

An import builds an entry for each item of the file, compares each entry with the stored row of its id
(`syncEntry`), and writes what differs. `Plan` is what it hands to the session, and `flush` is what the
database has afterwards. SQLAlchemy leaves a value of `None` out of an INSERT, so that the default of
the column comes in its place, and an UPDATE has only the columns whose new value is not equal to the
old one.

Pentest evidence is one file for several findings. The file is authoritative for the findings it owns,
so that the import deletes those that are no longer in it.
-/

set_option autoImplicit false

namespace TrustPortal.EvidenceImport

open TrustPortal.Lib
open TrustPortal.Python

/-! ## Entries -/

/-- An error line: the item it is about, and the problem. -/
structure ErrorLine where
  index : Option Nat
  problem : Problem

/-- An entry of `_sync_records`: the item and its values. -/
structure Entry where
  index : Nat
  id : Str
  values : Fields

/-- The entries of a file, and what was skipped on the way. -/
structure Built where
  entries : List Entry
  skipped : Nat
  errors : List ErrorLine

section
variable (tools : Tools) (urls : UrlTables)

/-- `coerce_record`, none where it raises. -/
def coerceRecord (model : Model) : Fields → Option Fields
  | [] => some []
  | (name, item) :: rest =>
    match model.column name with
    | some column => do
      let value ← coerceValue tools column.type item
      let behind ← coerceRecord model rest
      return (name, value) :: behind
    | none => coerceRecord model rest

/-- `_check_lengths`: the first column whose text is too long. -/
def checkLengths (model : Model) : Fields → Option Problem
  | [] => none
  | (name, item) :: rest =>
    match (model.column name).map Column.type, item with
    | some (.string (some length)), .json (.str s) =>
      if length ≠ 0 ∧ length < s.length then some (.tooLong name length) else checkLengths model rest
    | _, _ => checkLengths model rest

/-- The JSON values of a record. -/
def jsonValues (fields : Fields) : Members :=
  fields.filterMap fun
    | (name, .json value) => some (name, value)
    | _ => none

/-- `_check_urls`, none where it raises. -/
def checkUrls (model : Model) (values : Fields) : Option (Option Problem) :=
  (Web.urlFieldsError urls model.tableName (jsonValues values)).map fun message =>
    message.map Problem.badUrl

/-- An item that is skipped, or its values and what is said of it. -/
abbrev BuiltItem := Except Problem (Fields × List Problem)

/-- What the loop makes of an item, none where it raises. -/
def buildItem (loader : Loader) (db : Database) (item : Value) : Option BuiltItem :=
  match item with
  | .dict members =>
    let record := loader.build members
    let id := record.get (str "id")
    if id = .null ∨ id = .json (.str []) then some (.error .noId)
    else do
      match ← loader.resolve db members record with
      | .error problem => return .error problem
      | .ok (record, warnings) =>
        let values ← coerceRecord tools loader.model record
        match checkLengths loader.model values with
        | some problem => some (.error problem)
        | none =>
          let bad ← checkUrls urls loader.model values
          match bad with
          | some problem => some (.error problem)
          | none => some (.ok (values, warnings))
  | _ => some (.error .notObject)

/-- The id of a record, which is a text once it is coerced. -/
def idOf (values : Fields) : Str :=
  match values.get (str "id") with
  | .json (.str id) => id
  | _ => []

/-- A round of the loop over the items of a file. -/
def buildStep (loader : Loader) (db : Database) (built : Built) (index : Nat) (item : Value) :
    Option Built :=
  (buildItem tools urls loader db item).map fun
    | .error problem =>
      { built with skipped := built.skipped + 1, errors := built.errors ++ [⟨some index, problem⟩] }
    | .ok (values, warnings) =>
      let entry : Entry := ⟨index, idOf values, values⟩
      let errors := built.errors ++ warnings.map fun problem => ⟨some index, problem⟩
      if entry.id ∈ built.entries.map Entry.id then
        ⟨Dict.put Entry.id built.entries entry, built.skipped + 1,
          errors ++ [⟨some index, .duplicateId⟩]⟩
      else ⟨built.entries ++ [entry], built.skipped, errors⟩

/-- The loop over the items of a file. -/
def buildItems (loader : Loader) (db : Database) (built : Built) (index : Nat) :
    List Value → Option Built
  | [] => some built
  | item :: rest => do
    let built ← buildStep tools urls loader db built index item
    buildItems loader db built (index + 1) rest

end

/-! ## Differences -/

/-- What `_sync_records` hands to the session for an entry. -/
inductive Change
  /-- `db.session.add(model(**values))`. -/
  | create (values : Fields) (links : Option (List Str))
  /-- The attributes and the links of a row that are set. -/
  | update (row : Row) (changes : Fields) (links : Option (List Str))

/-- What an entry comes to. -/
inductive Outcome
  | change (change : Change)
  | unchanged
  | skipped

section
variable (tools : Tools) (model : Model)

/-- `_required_columns`. -/
def requiredColumns : List Str :=
  (model.columns.filter fun column => !column.nullable && !column.primaryKey
    && column.default.isNone && column.serverDefault.isNone).map Column.name

/-- `_BOOKKEEPING_COLUMNS`. -/
def isBookkeeping (name : Str) : Bool := name = str "updated_at"

/-- A column that the stored row and the entry differ in. -/
def differs (row : Row) (name : Str) (new : Item) : Bool :=
  !(name = str "id" || isBookkeeping name)
    && match model.column name with
      | some column => !valuesEqual tools column.type (row.values name) new
      | none => false

/-- `_diff`. -/
def diff (row : Row) (values : Fields) : Fields :=
  let changes := values.filter fun entry => differs tools model row entry.1 entry.2
  if changes.isEmpty || values.get (str "updated_at") = .null then changes
  else Fields.set changes (str "updated_at") (values.get (str "updated_at"))

/-- The ids of a link list that are known, without repetition, and what is said of the others. -/
def linkIds (spec : LinkSpec) (known : List Str) : List Value → List Str × List Problem
  | [] => ([], [])
  | value :: rest =>
    let (ids, problems) := linkIds spec known rest
    match value with
    | .str id =>
      if id ∈ known then (id :: ids.filter fun other => other ≠ id, problems)
      else (ids, .unknownLink spec.key value :: problems)
    | _ => (ids, .unknownLink spec.key value :: problems)

/-- `_sync_links`: the links that are set, none where they stay. -/
def syncLinks (loader : Loader) (db : Database) (current : List Str) (values : Fields) :
    Option (List Str) × List Problem :=
  match loader.link, values.get (str "other_data") with
  | some spec, .json (.dict other) =>
    let wanted := get other spec.key
    if !wanted.truthy then (none, [])
    else
      match wanted with
      | .list items =>
        let (ids, problems) := linkIds spec (idsOf db spec.target) items
        (if ids ⊆ current ∧ current ⊆ ids then none else some ids, problems)
      | _ => (none, [.linksNotList spec.key])
  | _, _ => (none, [])

/-- A round of `_sync_records`. -/
def syncEntry (loader : Loader) (db : Database) (stored : Option Row) (entry : Entry) :
    Outcome × List Problem :=
  match stored with
  | none =>
    let missing := (requiredColumns loader.model).filter fun name => entry.values.get name = .null
    if !missing.isEmpty then (.skipped, [.missingFields missing])
    else
      let (links, problems) := syncLinks loader db [] entry.values
      (.change (.create entry.values links), problems)
  | some row =>
    let nulls := (requiredColumns loader.model).filter fun name =>
      (Dict.get Prod.fst entry.values name).isSome && entry.values.get name = .null
    if !nulls.isEmpty then (.skipped, [.nullFields nulls])
    else
      let changes := diff tools loader.model row entry.values
      let (links, problems) := syncLinks loader db row.links entry.values
      (if changes.isEmpty && links.isNone then .unchanged else .change (.update row changes links),
        problems)

end

/-! ## Writing -/

section
variable (tools : Tools) (pg : Postgres) (now : Int) (model : Model)

/-- What a column has when it is given nothing. -/
def defaultItem (column : Column) : Item :=
  match column.default, column.serverDefault with
  | some (.value v), _ => .json v
  | some .now, _ => .instant now
  | none, some v => .json v
  | none, none => .null

/-- What an INSERT gives a column. `None` is left out of it, but for a column of JSON. -/
def insertItem (values : Fields) (column : Column) : Option Item :=
  match Dict.get Prod.fst values column.name with
  | some (_, item) =>
    if item = .null ∧ column.type ≠ .json then some (defaultItem now column)
    else storedItem tools pg column.type item
  | none => some (defaultItem now column)

/-- The row of an INSERT, none where the database refuses it. -/
def insertRow (values : Fields) (links : Option (List Str)) : Option Row :=
  if model.columns.all fun column => (insertItem tools pg now values column).isSome then
    some ⟨idOf values, fun name =>
      ((model.column name).bind (insertItem tools pg now values)).getD .null, links.getD []⟩
  else none

/-- The columns of an UPDATE: those whose new value is not equal to the old one. -/
def writtenFields (row : Row) (changes : Fields) : Fields :=
  changes.filter fun change => !itemEq tools.numbers (row.values change.1) change.2

/-- What an UPDATE sets: the columns, and the time of the change. -/
def updateFields (row : Row) (changes : Fields) : Fields :=
  let written := writtenFields tools row changes
  let stamped := model.columns.filter fun column =>
    column.onUpdate && (Dict.get Prod.fst written column.name).isNone
  if written.isEmpty then []
  else written ++ stamped.map fun column => (column.name, .instant now)

/-- What a column has after an UPDATE. -/
def updateItem (fields : Fields) (row : Row) (column : Column) : Option Item :=
  match Dict.get Prod.fst fields column.name with
  | some (_, item) => storedItem tools pg column.type item
  | none => some (row.values column.name)

/-- The row of an UPDATE, none where the database refuses it. -/
def updateRow (row : Row) (changes : Fields) (links : Option (List Str)) : Option Row :=
  let fields := updateFields tools now model row changes
  if model.columns.all fun column => (updateItem tools pg fields row column).isSome then
    some ⟨row.id, fun name =>
      ((model.column name).bind (updateItem tools pg fields row)).getD .null, links.getD row.links⟩
  else none

/-- A change in the database. -/
def applyChange (rows : Sql.Table Row.id) (change : Change) : Option (Sql.Table Row.id) :=
  match change with
  | .create values links => (insertRow tools pg now model values links).bind rows.insert
  | .update row changes links => (updateRow tools pg now model row changes links).map rows.put

/-- The rows without those with an id. -/
def deleteIds (rows : Sql.Table Row.id) (ids : List Str) : Sql.Table Row.id where
  rows := rows.rows.filter fun row => row.id ∉ ids
  nodup := rows.nodup.sublist (List.filter_sublist.map Row.id)

/-- The writes of an import. -/
structure Plan where
  changes : List Change
  deletes : List Str

/-- `flush`, none where the database refuses a statement. -/
def flush (rows : Sql.Table Row.id) (plan : Plan) : Option (Sql.Table Row.id) :=
  (plan.changes.foldlM (applyChange tools pg now model) rows).map fun rows =>
    deleteIds rows plan.deletes

end

/-! ## Counts -/

/-- `ImportCounts`. The report has the first 100 errors and the number of the others. -/
structure ImportCounts where
  created : Nat
  updated : Nat
  unchanged : Nat
  deleted : Nat
  skipped : Nat
  retired : Nat
  errors : List ErrorLine

/-- The number of changes of a kind. -/
def createdCount (outcomes : List Outcome) : Nat :=
  outcomes.countP fun
    | .change (.create ..) => true
    | _ => false

/-- The number of changes of a kind. -/
def updatedCount (outcomes : List Outcome) : Nat :=
  outcomes.countP fun
    | .change (.update ..) => true
    | _ => false

/-- The number of unchanged entries. -/
def unchangedCount (outcomes : List Outcome) : Nat :=
  outcomes.countP fun
    | .unchanged => true
    | _ => false

/-- The number of skipped entries. -/
def skippedCount (outcomes : List Outcome) : Nat :=
  outcomes.countP fun
    | .skipped => true
    | _ => false

/-- The changes of the outcomes. -/
def changesOf (outcomes : List Outcome) : List Change :=
  outcomes.filterMap fun
    | .change change => some change
    | _ => none

/-! ## Findings -/

/-- What identifies findings: `hashlib.sha256(text).hexdigest()`. -/
abbrev HexSha256 := Str → Str

/-- `FINDING_UUID_NAMESPACE`. -/
def FINDING_UUID_NAMESPACE : Str := str "b2c3d4e5-f6a7-8901-bcde-f12345678901"

/-- `PENTEST_DIR`. -/
def PENTEST_DIR : Str := str "pentest-evidence"

section
variable (tools : Tools) (sha256 : HexSha256) (uuid5 : Uuid5)

/-- The finding, or `{"message": str(finding)}`. -/
def asFinding (finding : Value) : Members :=
  match finding with
  | .dict members => members
  | _ => [(str "message", .str (textOf tools finding))]

/-- `finding_digest`. -/
def findingDigest (finding : Value) : Str :=
  sha256 (compact escapeCharAscii (sortKeys (.dict (asFinding tools finding))))

/-- `finding_id`, of the digest and its ordinal. -/
def findingId (sourceFile digest : Str) (ordinal : Nat) : Str :=
  uuid5 FINDING_UUID_NAMESPACE
    (str "v2|" ++ sourceFile ++ str "|" ++ digest ++ str "|" ++ natText ordinal)

/-- The digests of findings with their ordinals among the same ones before them. -/
def ordinals (seen : List Str) : List Str → List (Str × Nat)
  | [] => []
  | digest :: rest => (digest, seen.count digest) :: ordinals (seen ++ [digest]) rest

/-- `_LAYER_RE.match`, and the number of the layer; the inner none is the `ValueError` of `int`. The `$`
of the pattern matches before a line break at the end too. -/
def layerOf (part : Str) : Option (Option Integer) :=
  match (str "layer").isPrefixOf? part with
  | some rest =>
    let digits := if rest.getLast? = some (.ofChar '\n') then rest.dropLast else rest
    if digits ≠ [] ∧ digits.all fun c => (tools.tables.decimal c).isSome then
      some (intOfStr tools.tables digits)
    else none
  | none => none

/-- The parts of a path behind the last `pentest-evidence`. -/
def behindPentestDir (parts : List Str) : List Str :=
  (parts.reverse.takeWhile fun part => part ≠ PENTEST_DIR).reverse

/-- `source_file_for`: the source file and the layer. -/
def sourceFileFor (path : Str) : Option (Str × Option Integer) :=
  let parts := ((path.map fun c => if c.is '\\' then CodePoint.ofChar '/' else c).splitOn
    (.ofChar '/')).filter fun part => part ≠ [] ∧ part ≠ str "."
  match behindPentestDir parts with
  | [layer, name] =>
    (layerOf tools layer).bind fun n =>
      if endsWith name (str ".json") then some (layer ++ str "/" ++ name, n) else none
  | _ => none

/-- `a or b`, and so on. -/
def firstTruthy (values : List Value) (last : Value) : Value := (values.find? Value.truthy).getD last

/-- `value.get(name)` of an object, else `None`. -/
def member (value : Value) (name : String) : Value :=
  match value with
  | .dict members => get members name
  | _ => .none

/-- The summary of a finding, in the formats of the layers. -/
def summaryOf (finding : Members) : Value :=
  match firstTruthy [get finding "summary", member (get finding "vulnerability") "summary",
    member (get finding "finding") "title"] ((find finding (str "message")).getD (.str [])) with
  | .none => .none
  | summary =>
    let text := textOf tools summary
    if text = [] then .none else .str (text.take 500)

/-- The remediation of a finding, as a text; none where it is nested too deeply. -/
def remediationOf (finding : Members) : Option Value :=
  match get finding "remediation" with
  | .none => some .none
  | .str s => some (.str s)
  | value => ((sortKeys value).dumps tools.py escapeCharAscii).map Value.str

/-- What the findings of a file share. -/
structure Scan where
  scanId : Value
  layer : Integer
  repo : Value
  timestamp : Item

/-- `_finding_record`. -/
def findingRecord (id sourceFile : Str) (scan : Scan) (finding : Members) : Option Fields :=
  (remediationOf tools finding).map fun remediation =>
    [(str "id", .json (.str id)), (str "scan_id", .json scan.scanId),
      (str "layer", .json (.int scan.layer)), (str "repo", .json scan.repo),
      (str "severity", .json (get finding "severity")),
      (str "summary", .json (summaryOf tools finding)), (str "remediation", .json remediation),
      (str "soc2_controls", .json (get finding "soc2_controls")),
      (str "file_path", .json ((get finding "file_path").orElse
        (member (get finding "dependency") "source_file"))),
      (str "source_file", .json (.str sourceFile)), (str "timestamp", scan.timestamp),
      (str "other_data", .json (.dict finding))]

/-- `_namespaced`. -/
def namespaced (sourceFile : Str) : Option Str → Str
  | none => sourceFile
  | some name => name ++ str ":" ++ sourceFile

/-- `_owned_source_files`. -/
def ownedSourceFiles (sourceFile : Str) : Option Str → List Str
  | none => [sourceFile]
  | some name => [namespaced sourceFile (some name), sourceFile]

/-- The ids of the findings of a file. -/
def findingIds (sourceFile : Str) (findings : List Members) : List Str :=
  (ordinals [] (findings.map fun finding => findingDigest tools sha256 (.dict finding))).map
    fun (digest, ordinal) => findingId uuid5 sourceFile digest ordinal

/-- `build_file_records`, with the records in the namespace. The first none is an exception, the second
one a file without a list of findings. -/
def buildFileRecords (path : Str) (scanData : Value) (name : Option Str) :
    Option (Except Problem (Str × Option (List Fields))) :=
  match sourceFileFor tools path, scanData with
  | none, _ => some (.error .notPentestPath)
  | some (_, none), _ => none
  | some (sourceFile, some layer), .dict scanData =>
    match find scanData (str "findings") with
    | none => some (.ok (sourceFile, none))
    | some (.list items) =>
      let scan : Scan := ⟨(find scanData (str "scan_id")).getD (.str []), layer,
        (find scanData (str "repo")).getD ((find scanData (str "repo_name")).getD (.str [])),
        parseDate tools (get scanData "timestamp")⟩
      let findings := items.map (asFinding tools)
      let stored := namespaced sourceFile name
      let ids := findingIds tools sha256 uuid5 stored findings
      ((ids.zip findings).mapM fun (id, finding) => findingRecord tools id stored scan finding).map
        fun records => .ok (sourceFile, some records)
    | some _ => some (.error .findingsNotList)
  | some _, _ => some (.error .notObject)

/-- A round of the loop over the records of a file. -/
def findingStep (built : Built) (index : Nat) (record : Fields) : Option Built :=
  (coerceRecord tools PentestFinding record).map fun values =>
    match checkLengths PentestFinding values with
    | some problem =>
      { built with skipped := built.skipped + 1, errors := built.errors ++ [⟨some index, problem⟩] }
    | none => { built with entries := built.entries ++ [⟨index, idOf values, values⟩] }

/-- The loop over the records of a file. -/
def findingEntries (built : Built) (index : Nat) : List Fields → Option Built
  | [] => some built
  | record :: rest => do
    let built ← findingStep tools built index record
    findingEntries built (index + 1) rest

end

/-! ## Imports -/

/-- What an import runs with. -/
structure Importer where
  tools : Tools
  urls : UrlTables
  pg : Postgres
  sha256 : HexSha256
  uuid5 : Uuid5

section
variable (importer : Importer)

/-- `_sync_records`: the outcome of each entry, and the error lines. -/
def syncRecords (loader : Loader) (db : Database) (rows : Sql.Table Row.id) (entries : List Entry) :
    List Outcome × List ErrorLine :=
  let results := entries.map fun entry =>
    (entry, syncEntry importer.tools loader db (rows.get entry.id) entry)
  (results.map fun (_, outcome, _) => outcome,
    results.flatMap fun (entry, _, problems) => problems.map fun problem =>
      ⟨some entry.index, problem⟩)

/-- What an import reads of a file: that it is skipped, or the entries, the source files whose findings
the file owns, and the ids that it has. The first of the source files is the file's own. -/
inductive Content
  | skipped (errors : List ErrorLine)
  | entries (built : Built) (owned fileIds : List Str)

/-- The stored findings that a file owns and does not have. -/
def staleRows (rows : Sql.Table Row.id) (owned fileIds : List Str) : List Row :=
  rows.rows.filter fun row =>
    row.id ∉ fileIds ∧ owned.any fun name => row.values (str "source_file") = .json (.str name)

/-- The counts and the writes of an import. -/
def planOf (loader : Loader) (db : Database) (rows : Sql.Table Row.id) :
    Content → ImportCounts × Plan
  | .skipped errors => (⟨0, 0, 0, 0, 1, 0, errors⟩, ⟨[], []⟩)
  | .entries built owned fileIds =>
    let (outcomes, errors) := syncRecords importer loader db rows built.entries
    let stale := staleRows rows owned fileIds
    let retired := stale.countP fun row =>
      row.values (str "source_file") ≠ .json (.str (owned.headD []))
    (⟨createdCount outcomes, updatedCount outcomes, unchangedCount outcomes, stale.length,
      built.skipped + skippedCount outcomes, retired, built.errors ++ errors⟩,
      ⟨changesOf outcomes, stale.map Row.id⟩)

/-- What `_import_list_dataset` reads of a file. -/
def listContent (loader : Loader) (db : Database) (parsed : Value) : Option Content :=
  match parsed with
  | .list items =>
    (buildItems importer.tools importer.urls loader db ⟨[], 0, []⟩ 0 items).map fun built =>
      .entries built [] []
  | _ => some (.skipped [⟨none, .notArray parsed.typeName⟩])

/-- What `_import_pentest_file` reads of a file. -/
def pentestContent (path : Str) (parsed : Value) (name : Option Str) : Option Content := do
  match ← buildFileRecords importer.tools importer.sha256 importer.uuid5 path parsed name with
  | .error problem => return .skipped [⟨none, problem⟩]
  | .ok (_, none) => return .skipped []
  | .ok (sourceFile, some records) =>
    let built ← findingEntries importer.tools ⟨[], 0, []⟩ 0 records
    return .entries built (ownedSourceFiles sourceFile name) (records.map idOf)

/-- The loader of pentest evidence has no links and no references. -/
def PentestFindingsLoader : Loader where
  model := PentestFinding
  link := none
  build _ := []
  resolve := noReferences

/-- `LOADERS_BY_DATASET`, for the datasets whose file is a list of items. -/
def listLoader : Dataset → Option Loader
  | .controls => some (ControlsLoader importer.tools)
  | .systems => some (SystemsLoader importer.tools)
  | .tests => some (TestsLoader importer.tools)
  | .policies => some (PoliciesLoader importer.tools)
  | .vendors => some (VendorsLoader importer.tools)
  | .evidence => some (EvidenceLoader importer.tools importer.uuid5)
  | .riskRegister => some (RiskRegisterLoader importer.tools)
  | .pentestFindings => none

/-- `_parse_json` of the bytes of a file, none for a `ValueError`. -/
def parseJson (data : Bytes) : Option Value := do
  let text ← decodeUtf8 data
  let text := if text.head? = some (.ofNat 0xFEFF) then text.tail else text
  match loads importer.tools.py text with
  | .ok value => some value
  | .error _ => none
where
  /-- `bytes.decode("utf-8")`. -/
  decodeUtf8 (data : Bytes) : Option Str :=
    if encodePass (decode data) = data then some (decode data) else none

/-- `STORE_NAMESPACE`. -/
def STORE_NAMESPACE : Str := str "evidence-store"

/-- What an import reads of the bytes of a file, none where it raises. -/
def readContent (db : Database) (dataset : Dataset) (path : Str) (data : Bytes)
    (name : Option Str) : Option Content :=
  if name = some STORE_NAMESPACE then none
  else do
    let parsed ← parseJson importer data
    match listLoader importer dataset with
    | some loader => listContent importer loader db parsed
    | none => pentestContent importer path parsed name

/-- The loader of a dataset. -/
def loaderFor (dataset : Dataset) : Loader := (listLoader importer dataset).getD PentestFindingsLoader

/-- What an import of a file counts and writes, none where it raises. -/
def planImport (db : Database) (dataset : Dataset) (path : Str) (data : Bytes) (name : Option Str) :
    Option (ImportCounts × Plan) :=
  (readContent importer db dataset path data name).map
    (planOf importer (loaderFor importer dataset) db (db dataset))

/-- `import_dataset_file`, and the commit of its caller: the counts and the database, none where it
raises. -/
def importDatasetFile (now : Int) (db : Database) (dataset : Dataset) (path : Str) (data : Bytes)
    (name : Option Str) : Option (ImportCounts × Database) := do
  let (counts, plan) ← planImport importer db dataset path data name
  let rows ← flush importer.tools importer.pg now dataset.model (db dataset) plan
  return (counts, Function.update db dataset rows)

end

end TrustPortal.EvidenceImport
