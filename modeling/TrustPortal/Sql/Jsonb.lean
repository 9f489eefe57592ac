import TrustPortal.Sql.Value

/-!
# `TrustPortal.Sql.Jsonb`: `jsonb` values and their text

The audit trigger works on `to_jsonb(OLD)` and `to_jsonb(NEW)`, two `jsonb` objects: it
replaces columns by digests, drops bookkeeping columns before it compares, reads the `id`
member and hashes the objects' text. An object is the list of its members in `jsonb`
order, each name once. A number is a decimal numeral, a mantissa and a number of decimal
places: `jsonb` keeps the places in the text and ignores them in `=`.
-/

set_option autoImplicit false

namespace TrustPortal.Sql

/-- A JSON value as `jsonb` holds it. -/
inductive Json
  | null
  | bool (b : Bool)
  | number (mantissa : Int) (places : Nat)
  | string (s : String)
  | array (items : List Json)
  | object (members : List (String × Json))

namespace Json

/-- One character of a JSON string, as PostgreSQL's `escape_json` writes it. -/
def escapeChar (c : Char) : String :=
  if c = '"' then "\\\""
  else if c = '\\' then "\\\\"
  else if c = '\x08' then "\\b"
  else if c = '\x0c' then "\\f"
  else if c = '\n' then "\\n"
  else if c = '\r' then "\\r"
  else if c = '\t' then "\\t"
  else if c.toNat < 32 then
    "\\u00" ++ String.ofList [Nat.digitChar (c.toNat / 16), Nat.digitChar (c.toNat % 16)]
  else String.singleton c

/-- A JSON string literal. -/
def quote (s : String) : String :=
  "\"" ++ String.join (s.toList.map escapeChar) ++ "\""

/-- A decimal numeral. -/
def numeral (mantissa : Int) (places : Nat) : String :=
  let digits := zeroPad (places + 1) mantissa.natAbs
  let whole := String.ofList (digits.toList.take (digits.length - places))
  let sign := if mantissa < 0 then "-" else ""
  if places = 0 then sign ++ whole
  else sign ++ whole ++ "." ++ String.ofList (digits.toList.drop (digits.length - places))

mutual

/-- `jsonb::text`. -/
def text : Json → String
  | .null => "null"
  | .bool b => if b then "true" else "false"
  | .number mantissa places => numeral mantissa places
  | .string s => quote s
  | .array items => "[" ++ String.intercalate ", " (itemTexts items) ++ "]"
  | .object members => "\x7b" ++ String.intercalate ", " (memberTexts members) ++ "\x7d"

/-- The texts of an array's items. -/
def itemTexts : List Json → List String
  | [] => []
  | item :: items => text item :: itemTexts items

/-- The texts of an object's members. -/
def memberTexts : List (String × Json) → List String
  | [] => []
  | (name, value) :: members => (quote name ++ ": " ++ text value) :: memberTexts members

end

mutual

/-- `jsonb` equality. Numbers are equal by value: `1.0 = 1.00`. -/
def same : Json → Json → Bool
  | .null, .null => true
  | .bool a, .bool b => a == b
  | .number m p, .number n q => m * 10 ^ q == n * 10 ^ p
  | .string a, .string b => a == b
  | .array as, .array bs => sameItems as bs
  | .object as, .object bs => sameMembers as bs
  | _, _ => false

/-- Equality of arrays, item by item. -/
def sameItems : List Json → List Json → Bool
  | [], [] => true
  | a :: as, b :: bs => same a b && sameItems as bs
  | _, _ => false

/-- Equality of objects, member by member. -/
def sameMembers : List (String × Json) → List (String × Json) → Bool
  | [], [] => true
  | (m, a) :: as, (n, b) :: bs => m == n && same a b && sameMembers as bs
  | _, _ => false

end

end Json

/-- A `jsonb` object, its members in `jsonb` order. -/
abbrev Members := List (String × Json)

namespace Members

/-- `object -> name`. -/
def get (members : Members) (name : String) : Option Json := members.lookup name

/-- `object ->> name`: a string's own characters, any other value's text, NULL for a JSON
null or an absent member. -/
def getText (members : Members) (name : String) : Option String :=
  match members.get name with
  | none => none
  | some .null => none
  | some (.string s) => some s
  | some value => some value.text

/-- `jsonb_set(object, ARRAY[name], value)` of a member the object has. -/
def set (members : Members) (name : String) (value : Json) : Members :=
  members.map fun member => if member.1 = name then (name, value) else member

/-- `object - name`. -/
def remove (members : Members) (name : String) : Members :=
  members.filter fun member => member.1 ≠ name

/-- The object's text. -/
def text (members : Members) : String := (Json.object members).text

end Members

example : Members.text [("id", .string "c1"), ("score", .number 105 1)]
    = "\x7b\"id\": \"c1\", \"score\": 10.5\x7d" := by
  decide

end TrustPortal.Sql
