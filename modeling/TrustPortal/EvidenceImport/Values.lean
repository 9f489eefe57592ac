import Mathlib.Data.List.Sort
import TrustPortal.Python.Equality
import TrustPortal.Python.Loads
import TrustPortal.Python.Number

/-!
# `TrustPortal.EvidenceImport.Values`: the values of a record

A record of the import has an `Item` for each column it mentions. `coerceValue` makes of a value of
the file what will be written, `valuesEqual` compares it with what is stored, and `storedItem` is what
the database has after a write.

Floats are texts here, so what `float` and `int` make of one another is a parameter, `Numbers`, and
`Postgres` is what the database takes and makes of a value whose type is not the column's.
-/

set_option autoImplicit false

namespace TrustPortal.EvidenceImport

open TrustPortal.Python

/-- A value of a record: a JSON value, or a date-time as its instant in UTC, in microseconds. A naive
date-time is in UTC. -/
inductive Item
  | json (value : Value)
  | instant (t : Int)
  deriving DecidableEq

/-- `None`, and NULL. -/
def Item.null : Item := .json .none

/-! ## JSON texts -/

/-- The order of texts. -/
def textLe : Str → Str → Bool
  | [], _ => true
  | _ :: _, [] => false
  | c :: s, d :: t => decide (c.val < d.val) || (decide (c.val = d.val) && textLe s t)

mutual

/-- The value with the members of every object in the order of their names. -/
def sortKeys : Value → Value
  | .list items => .list (sortItems items)
  | .dict members => .dict ((sortMembers members).insertionSort fun a b => textLe a.1 b.1)
  | value => value

/-- The items with sorted members. -/
def sortItems : List Value → List Value
  | [] => []
  | item :: items => sortKeys item :: sortItems items

/-- The members with sorted members. -/
def sortMembers : List (Str × Value) → List (Str × Value)
  | [] => []
  | (name, value) :: members => (name, sortKeys value) :: sortMembers members

end

mutual

/-- The text of a value with the separators `,` and `:`. -/
def compact (escape : CodePoint → Str) : Value → Str
  | .list items => str "[" ++ join (str ",") (compactItems escape items) ++ str "]"
  | .dict members => str "\x7b" ++ join (str ",") (compactMembers escape members) ++ str "\x7d"
  | value => render escape value

/-- The texts of the items. -/
def compactItems (escape : CodePoint → Str) : List Value → List Str
  | [] => []
  | item :: items => compact escape item :: compactItems escape items

/-- The texts of the members. -/
def compactMembers (escape : CodePoint → Str) : List (Str × Value) → List Str
  | [] => []
  | (name, value) :: members =>
    (renderString escape name ++ str ":" ++ compact escape value) :: compactMembers escape members

end

/-- `_canonical_json`. -/
def canonicalJson (value : Value) : Str := compact escapeChar (sortKeys value)

/-! ## Numbers -/

/-- What `int` and `float` make of one another. -/
structure Numbers where
  /-- `int(x)` where `x.is_integer()`. -/
  whole : FloatText → Option Integer
  /-- `float(n)`, none for an `OverflowError`. -/
  ofInt : Integer → Option FloatText
  /-- `float(text)`, none for a `ValueError`. -/
  ofText : Str → Option FloatText

/-- An `int` of a text, none for a `ValueError`. -/
def intOfStr (tables : TextTables) (text : Str) : Option Integer :=
  (intOf tables (strip text)).bind fun n =>
    if h : digitCount n.natAbs ≤ MAX_STR_DIGITS then some ⟨n, h⟩ else none

/-- 0 and 1. -/
def bit (b : Bool) : Integer := if b then ⟨1, by decide +kernel⟩ else ⟨0, by decide +kernel⟩

/-- `1.0` and `0.0`. -/
def floatBit (b : Bool) : FloatText := if b then ⟨str "1.0", by decide⟩ else ⟨str "0.0", by decide⟩

/-- `x == y` of two floats. -/
def floatEq (x y : FloatText) : Bool :=
  if x = y then x ≠ floatNaN
  else (x.val = str "0.0" || x.val = str "-0.0") && (y.val = str "0.0" || y.val = str "-0.0")

section
variable (numbers : Numbers)

/-- `n == x` of an int and a float. -/
def intFloatEq (n : Int) (x : FloatText) : Bool := ((numbers.whole x).map Integer.value) = some n

/-- `a == b` of two numbers; a bool is the number 0 or 1. -/
def numberEq : Value → Value → Option Bool
  | .bool a, .bool b => some (a == b)
  | .bool a, .int n | .int n, .bool a => some ((bit a).value = n.value)
  | .bool a, .float x | .float x, .bool a => some (intFloatEq numbers (bit a).value x)
  | .int n, .int m => some (n.value = m.value)
  | .int n, .float x | .float x, .int n => some (intFloatEq numbers n.value x)
  | .float x, .float y => some (floatEq x y)
  | _, _ => none

mutual

/-- `a == b`. -/
def valueEq : Value → Value → Bool
  | .none, .none => true
  | .str s, .str t => s = t
  | .list a, .list b => itemsEq a b
  | .dict a, .dict b => a.length = b.length && membersEq a b
  | a, b => (numberEq numbers a b).getD false

/-- The items of two lists are equal. -/
def itemsEq : List Value → List Value → Bool
  | [], [] => true
  | a :: as, b :: bs => valueEq a b && itemsEq as bs
  | _, _ => false

/-- Every member is equal to the one with the same name. -/
def membersEq : List (Str × Value) → List (Str × Value) → Bool
  | [], _ => true
  | (name, a) :: as, bs =>
    (match find bs name with
      | some b => valueEq a b
      | none => false) && membersEq as bs

end

/-- `a == b`. -/
def itemEq : Item → Item → Bool
  | .json a, .json b => valueEq numbers a b
  | .instant t, .instant u => t = u
  | _, _ => false

end

/-! ## Columns -/

/-- The type of a column. -/
inductive ColumnType
  | string (length : Option Nat)
  | integer
  | float
  | boolean
  | json
  | dateTime
  | binary
  deriving DecidableEq, Repr

/-- What a column has when it is given nothing. -/
inductive Default
  | value (v : Value)
  /-- `datetime.now(timezone.utc)`. -/
  | now
  deriving DecidableEq

/-- A column of a model. -/
structure Column where
  name : Str
  type : ColumnType
  nullable : Bool
  primaryKey : Bool
  default : Option Default
  serverDefault : Option Value
  /-- `onupdate`: the time of the change. -/
  onUpdate : Bool

/-- What the interpreter adds. -/
structure Tools where
  py : Interpreter
  numbers : Numbers
  tables : TextTables
  /-- `datetime.fromisoformat`, as an instant. -/
  isoDate : Str → Option Int
  /-- `datetime.strptime(text, "%Y-%m-%d")`, in UTC. -/
  strptimeDate : Str → Option Int

section
variable (tools : Tools)

/-- `coerce_value`, none where it raises. -/
def coerceValue (type : ColumnType) (item : Item) : Option Item :=
  match item with
  | .instant t => some (.instant t)
  | .json .none => some .null
  | .json value =>
    match type with
    | .json | .dateTime | .binary => some (.json value)
    | .string _ =>
      match value with
      | .bool b => some (.json (.str (str (if b then "true" else "false"))))
      | .int _ | .float _ => some (.json (.str (tools.py.strOf value)))
      | .list _ | .dict _ =>
        ((sortKeys value).dumps tools.py escapeCharAscii).map fun text => .json (.str text)
      | _ => some (.json value)
    | .boolean =>
      match value with
      | .int n =>
        some (.json (if n.value = 0 then .bool false else if n.value = 1 then .bool true else value))
      | _ => some (.json value)
    | .integer =>
      match value with
      | .bool b => some (.json (.int (bit b)))
      | .float x =>
        match tools.numbers.whole x with
        | some n => some (.json (.int n))
        | none => some (.json value)
      | .str s =>
        match intOfStr tools.tables s with
        | some n => some (.json (.int n))
        | none => some (.json value)
      | _ => some (.json value)
    | .float =>
      match value with
      | .bool b => some (.json (.float (floatBit b)))
      | .int n => (tools.numbers.ofInt n).map fun x => .json (.float x)
      | .str s =>
        match tools.numbers.ofText s with
        | some x => some (.json (.float x))
        | none => some (.json value)
      | _ => some (.json value)

/-- `values_equal`. -/
def valuesEqual (type : ColumnType) (stored new : Item) : Bool :=
  if stored = .null ∨ new = .null then stored = .null && new = .null
  else
    match type, stored, new with
    | .json, .json a, .json b => canonicalJson a = canonicalJson b
    | _, _, _ => itemEq tools.numbers stored new

end

/-! ## The database -/

/-- What the database takes. -/
structure Postgres where
  /-- A text without NUL and unpaired surrogates. -/
  textOk : Str → Bool
  /-- A JSON value that it stores, and records in the audit log. -/
  jsonOk : Value → Bool
  instantOk : Int → Bool
  /-- A float in a column of integers is rounded, none when it is out of range. -/
  roundFloat : FloatText → Option Integer
  /-- What it reads a text as in a column of integers. -/
  readInteger : Str → Option Integer
  /-- What it reads a text as in a column of floats. -/
  readFloat : Str → Option FloatText

/-- A 32-bit integer. -/
def fits32 (n : Integer) : Bool := decide (-2147483648 ≤ n.value) && decide (n.value < 2147483648)

/-- What a column has after a value was written, none where the database refuses it. A float in a
column of booleans must be 0 or 1. -/
def storedItem (tools : Tools) (pg : Postgres) (type : ColumnType) (item : Item) : Option Item :=
  if item = .null then some .null
  else
    match type, item with
    | .json, .json value => if pg.jsonOk value then some (.json value) else none
    | .string _, .json (.str text) => if pg.textOk text then some (.json (.str text)) else none
    | .boolean, .json (.bool b) => some (.json (.bool b))
    | .boolean, .json (.float x) =>
      if intFloatEq tools.numbers 0 x then some (.json (.bool false))
      else if intFloatEq tools.numbers 1 x then some (.json (.bool true))
      else none
    | .integer, .json (.int n) => if fits32 n then some (.json (.int n)) else none
    | .integer, .json (.float x) => (pg.roundFloat x).map fun n => .json (.int n)
    | .integer, .json (.str s) => (pg.readInteger s).map fun n => .json (.int n)
    | .float, .json (.float x) => some (.json (.float x))
    | .float, .json (.str s) => (pg.readFloat s).map fun x => .json (.float x)
    | .dateTime, .instant t => if pg.instantOk t then some (.instant t) else none
    | _, _ => none

end TrustPortal.EvidenceImport
