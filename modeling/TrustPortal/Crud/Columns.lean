import TrustPortal.EvidenceImport.Import
import TrustPortal.Python.Base64

/-!
# `TrustPortal.Crud.Columns`: the values of a request and of a row

The routes of a model check the values of a request against the columns before anything is written
(`checkValues`), and answer with the first problem. `insertRecord` and `updateRecord` are what
SQLAlchemy and the database make of the values: the default of a column that is not given, the
conversion of a whole number in a column of floats, NOT NULL, and the range of an integer.

The models and their columns are those of `EvidenceImport.Datasets`. A row of them has the bytes of a
file here too, which no dataset file has.
-/

set_option autoImplicit false

namespace TrustPortal.Crud

open TrustPortal.Lib
open TrustPortal.Python
open TrustPortal.EvidenceImport (Item Dataset Model Tools Postgres defaultItem storedItem itemEq)

/-- A value of a request or of a row: an item, or the bytes of a file. -/
inductive Cell
  | item (item : Item)
  | bytes (data : Bytes)
  deriving DecidableEq

/-- `None`, and NULL. -/
def Cell.null : Cell := .item .null

/-- The values of a request, by name. -/
abbrev Data := List (Str × Cell)

/-- `data.get(name)`. -/
def Data.get (data : Data) (name : Str) : Option Cell := (Dict.get Prod.fst data name).map Prod.snd

/-- A text, if the value is one. -/
def Cell.text : Cell → Option Str
  | .item (.json (.str text)) => some text
  | _ => none

/-- A stored row: its columns by name. -/
structure Record where
  id : Str
  values : Str → Cell

/-! ## Checks -/

/-- `base64.b64decode(text)`, none where it raises: `-` and `_` are outside its alphabet. -/
def b64decode (text : Str) : Option Bytes :=
  urlsafeB64decode (text.filter fun c => !(c.is '-' || c.is '_'))

/-- `decode_file_data`: the values with the decoded file, or the problem. -/
def decodeFileData (data : Data) : Except Str Data :=
  match (data.get (str "file_data")).bind Cell.text with
  | none => .ok data
  | some text =>
    match b64decode text with
    | none => .error (str "Invalid base64 in file_data")
    | some bytes => .ok (Dict.put Prod.fst data (str "file_data", .bytes bytes))

/-- The JSON values of a request. -/
def jsonMembers (data : Data) : Members :=
  data.filterMap fun
    | (name, .item (.json value)) => some (name, value)
    | _ => none

/-- `_column_error`: the value that is assigned, or the problem. -/
def columnError (tools : Tools) (column : EvidenceImport.Column) (cell : Cell) : Except Str Cell :=
  if cell = .null then .ok cell
  else
    match column.type, cell with
    | .string length, .item (.json (.str text)) =>
      match length with
      | some length =>
        if length ≠ 0 ∧ length < text.length then
          .error (column.name ++ str " is longer than " ++ natText length ++ str " characters")
        else .ok cell
      | none => .ok cell
    | .string _, _ => .error (column.name ++ str " must be a string")
    | .boolean, .item (.json (.bool _)) => .ok cell
    | .boolean, _ => .error (column.name ++ str " must be true or false")
    | .integer, .item (.json (.int _)) => .ok cell
    | .integer, _ => .error (column.name ++ str " must be an integer")
    | .float, .item (.json (.int _)) => .ok cell
    | .float, .item (.json (.float _)) => .ok cell
    | .float, _ => .error (column.name ++ str " must be a number")
    | .dateTime, .item (.instant _) => .ok cell
    | .dateTime, .item (.json (.str text)) =>
      match tools.isoDate (strip text) with
      | some t => .ok (.item (.instant t))
      | none => .error (column.name ++ str " must be an ISO 8601 date or date-time")
    | .dateTime, _ => .error (column.name ++ str " must be an ISO 8601 date or date-time")
    | .binary, .bytes _ => .ok cell
    | .binary, _ => .error (column.name ++ str " must be base64-encoded data")
    | .json, _ => .ok cell

/-- The value that `column_errors` leaves for a name. Names that are no columns stay as they are. -/
def columnValue (tools : Tools) (model : Model) (name : Str) (cell : Cell) : Except Str Cell :=
  match model.column name with
  | none => .ok cell
  | some column => columnError tools column cell

/-- `column_errors`: the values that are assigned, or the first problem. -/
def columnErrors (tools : Tools) (model : Model) (data : Data) : Except Str Data :=
  data.mapM fun entry => (columnValue tools model entry.1 entry.2).map fun cell => (entry.1, cell)

/-! ## Writing -/

/-- An exception of a commit. -/
inductive Refusal
  /-- An `IntegrityError` for an id or a unique value that exists. -/
  | unique
  /-- Any other `IntegrityError`. -/
  | integrity
  /-- A `DataError`. -/
  | data
  | other
  deriving DecidableEq, Repr

section
variable (tools : Tools) (pg : Postgres) (now : Int)

/-- What a column has after a value was written, none where the driver or the database does not
take it. -/
def storedCell (column : EvidenceImport.Column) (cell : Cell) : Option Cell :=
  match column.type, cell with
  | .binary, .bytes data => some (.bytes data)
  | .float, .item (.json (.int n)) => (tools.numbers.ofInt n).map fun x => .item (.json (.float x))
  | _, .item item => (storedItem tools pg column.type item).map Cell.item
  | _, .bytes _ => none

/-- What an INSERT gives a column. `None` is left out of it, but for a column of JSON. -/
def insertCell (data : Data) (column : EvidenceImport.Column) : Option Cell :=
  match data.get column.name with
  | some cell =>
    if cell = .null ∧ column.type ≠ .json then some (.item (defaultItem now column))
    else storedCell tools pg column cell
  | none => some (.item (defaultItem now column))

/-- What a column has after an UPDATE. -/
def updateCell (data : Data) (record : Record) (column : EvidenceImport.Column) : Option Cell :=
  match data.get column.name with
  | some cell => storedCell tools pg column cell
  | none => some (record.values column.name)

/-- The columns of a row, from what each of them has, or the refusal. `unstorable` is the exception
for a value that a column does not take. -/
def recordValues (model : Model) (unstorable : Refusal) (cells : EvidenceImport.Column → Option Cell) :
    Except Refusal (Str → Cell) :=
  if model.columns.all fun column => (cells column).isSome then
    if model.columns.all fun column => column.nullable || cells column ≠ some .null then
      .ok fun name => ((model.column name).bind cells).getD .null
    else .error .integrity
  else .error unstorable

/-- The row of an INSERT. -/
def insertRecord (model : Model) (unstorable : Refusal) (data : Data) : Except Refusal Record :=
  (recordValues model unstorable (insertCell tools pg now data)).map fun values =>
    ⟨((values (str "id")).text).getD [], values⟩

/-- `a == b`. -/
def cellEq : Cell → Cell → Bool
  | .item a, .item b => itemEq tools.numbers a b
  | .bytes a, .bytes b => a = b
  | _, _ => false

/-- The columns of an UPDATE: those whose new value is not equal to the old one. -/
def writtenColumns (model : Model) (record : Record) (data : Data) : Data :=
  model.columns.filterMap fun column =>
    ((data.get column.name).filter fun cell =>
      column.name ≠ str "id" && !cellEq tools (record.values column.name) cell).map (column.name, ·)

/-- What an UPDATE sets: the columns, and then the time of the change. -/
def updateData (model : Model) (record : Record) (data : Data) : Data :=
  let written := writtenColumns tools model record data
  let stamped := model.columns.filter fun column => column.onUpdate && (written.get column.name).isNone
  if written.isEmpty then []
  else written ++ stamped.map fun column => (column.name, .item (.instant now))

/-- The row of an UPDATE. -/
def updateRecord (model : Model) (unstorable : Refusal) (record : Record) (data : Data) :
    Except Refusal Record :=
  (recordValues model unstorable
    (updateCell tools pg (updateData tools now model record data) record)).map fun values =>
      ⟨record.id, values⟩

end

end TrustPortal.Crud
