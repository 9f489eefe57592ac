import TrustPortal.Python.Text
import Mathlib.Data.Nat.Digits.Defs

/-!
# `TrustPortal.Python.Value`: what `json.loads` returns

A decoded JSON value is None, a bool, an int, a float, a string, a list or a dict whose
members stand in the order they were first set in. An int has at most 4300 decimal digits,
the limit of `int(text)` and `str(number)`, so that `Integer` carries it: a longer literal
never becomes a value, and writing a value never reaches the limit. A float is the text that
`float.__repr__` gives, or `NaN`, `Infinity` or `-Infinity`, which is what the JSON writer
writes for it.
-/

set_option autoImplicit false

namespace TrustPortal.Python

/-! ## Numbers -/

/-- A digit. -/
def CodePoint.isDigit (c : CodePoint) : Bool := decide (0x30 ≤ c.val) && decide (c.val ≤ 0x39)

/-- `sys.get_int_max_str_digits()`. -/
def MAX_STR_DIGITS : Nat := 4300

/-- The number of decimal digits. -/
def digitCount (n : Nat) : Nat := (Nat.digits 10 n).length

/-- A Python `int` that can be read from and written as decimal text. -/
structure Integer where
  value : Int
  short : digitCount value.natAbs ≤ MAX_STR_DIGITS
  deriving DecidableEq

/-- The part of a number literal that has been read. -/
inductive NumberPart
  /-- `-` -/
  | minus
  /-- A whole part that is `0`. -/
  | zero
  /-- A whole part that more digits can follow. -/
  | whole
  /-- The whole part and `.` -/
  | point
  /-- The digits after the point. -/
  | fraction
  /-- `e` or `E`, after a fraction or not. -/
  | mark (fraction : Bool)
  /-- The sign of the exponent. -/
  | sign (fraction : Bool)
  /-- The digits of the exponent. -/
  | exponent
  deriving DecidableEq, Repr

/-- A number literal as far as it has been read: the sign and the whole part, and what stands
after them. -/
structure Number where
  part : NumberPart
  whole : Str
  rest : Str
  deriving DecidableEq, Repr

namespace Number

/-- The first character of a number. -/
def start (c : CodePoint) : Option Number :=
  if c.is '-' then some ⟨.minus, [c], []⟩
  else if c.is '0' then some ⟨.zero, [c], []⟩
  else if c.isDigit then some ⟨.whole, [c], []⟩
  else none

/-- One more character of the number, none where it ends before the character. -/
def extend (n : Number) (c : CodePoint) : Option Number :=
  match n.part with
  | .minus =>
    if c.is '0' then some ⟨.zero, n.whole ++ [c], []⟩
    else if c.isDigit then some ⟨.whole, n.whole ++ [c], []⟩
    else none
  | .zero | .whole =>
    if n.part = .whole ∧ c.isDigit then some ⟨.whole, n.whole ++ [c], []⟩
    else if c.is '.' then some ⟨.point, n.whole, [c]⟩
    else if c.is 'e' || c.is 'E' then some ⟨.mark false, n.whole, [c]⟩
    else none
  | .point =>
    if c.isDigit then some ⟨.fraction, n.whole, n.rest ++ [c]⟩ else none
  | .fraction =>
    if c.isDigit then some ⟨.fraction, n.whole, n.rest ++ [c]⟩
    else if c.is 'e' || c.is 'E' then some ⟨.mark true, n.whole, n.rest ++ [c]⟩
    else none
  | .mark f =>
    if c.isDigit then some ⟨.exponent, n.whole, n.rest ++ [c]⟩
    else if c.is '+' || c.is '-' then some ⟨.sign f, n.whole, n.rest ++ [c]⟩
    else none
  | .sign _ | .exponent =>
    if c.isDigit then some ⟨.exponent, n.whole, n.rest ++ [c]⟩ else none

/-- The number that a whole text is, if it is one. -/
def ofText : Str → Option Number
  | [] => none
  | c :: rest => (start c).bind fun n => rest.foldlM extend n

end Number

/-- The value of a list of digits, the first one the most significant. -/
def digitsValue (digits : Str) : Nat := digits.foldl (fun n d => n * 10 + (d.val - 0x30)) 0

/-- `int(text)` of a whole part. -/
def intOfText (text : Str) : Int :=
  match text with
  | [] => 0
  | c :: digits => if c.is '-' then -(digitsValue digits : Int) else digitsValue (c :: digits)

/-- The decimal digits of a natural number. -/
def natText (n : Nat) : Str :=
  if n = 0 then str "0" else ((Nat.digits 10 n).map fun d => CodePoint.ofNat (0x30 + d)).reverse

namespace Integer

/-- `int.__repr__`. -/
def text (n : Integer) : Str :=
  if n.value < 0 then str "-" ++ natText n.value.natAbs else natText n.value.natAbs

end Integer

/-- What the JSON writer writes for a float: a literal with a fraction or an exponent, or one
of the three names. -/
def isFloatText (text : Str) : Bool :=
  text = str "NaN" || text = str "Infinity" || text = str "-Infinity"
    || (match Number.ofText text with
        | some n => n.part = .fraction || n.part = .exponent
        | none => false)

/-- A Python `float`, by its text. -/
abbrev FloatText := { text : Str // isFloatText text = true }

/-! ## Values -/

/-- A decoded JSON value. -/
inductive Value
  | none
  | bool (b : Bool)
  | int (n : Integer)
  | float (x : FloatText)
  | str (s : Str)
  | list (items : List Value)
  | dict (members : List (Str × Value))

/-- The members of a dict. -/
abbrev Members := List (Str × Value)

namespace Value

/-- `type(value).__name__`. -/
def typeName : Value → String
  | none => "NoneType"
  | bool _ => "bool"
  | int _ => "int"
  | float _ => "float"
  | str _ => "str"
  | list _ => "list"
  | dict _ => "dict"

/-- `bool(value)`. -/
def truthy : Value → Bool
  | none => false
  | bool b => b
  | int n => n.value != 0
  | float x => x.val != Python.str "0.0" && x.val != Python.str "-0.0"
  | str s => !s.isEmpty
  | list items => !items.isEmpty
  | dict members => !members.isEmpty

/-- `value == text`. -/
def isText (value : Value) (text : String) : Bool :=
  match value with
  | str s => s = Python.str text
  | _ => false

mutual

/-- How many arrays and objects stand in one another. -/
def depth : Value → Nat
  | list items => depthItems items + 1
  | dict members => depthMembers members + 1
  | none | bool _ | int _ | float _ | str _ => 0

/-- The depth of the deepest item. -/
def depthItems : List Value → Nat
  | [] => 0
  | item :: items => max item.depth (depthItems items)

/-- The depth of the deepest member. -/
def depthMembers : List (Str × Value) → Nat
  | [] => 0
  | (_, value) :: members => max value.depth (depthMembers members)

end

end Value

/-- `a or b`. -/
def Value.orElse (a b : Value) : Value := if a.truthy then a else b

/-- `members[name]`, none where it is not a key. -/
def find (members : Members) (name : Str) : Option Value :=
  match members with
  | [] => none
  | (key, value) :: rest => if key = name then some value else find rest name

/-- `members.get(name)`. -/
def get (members : Members) (name : String) : Value := (find members (str name)).getD .none

/-- `members[name] = value`: a key keeps its place. -/
def setMember (members : Members) (name : Str) (value : Value) : Members :=
  match members with
  | [] => [(name, value)]
  | (key, old) :: rest =>
    if key = name then (key, value) :: rest else (key, old) :: setMember rest name value

end TrustPortal.Python
