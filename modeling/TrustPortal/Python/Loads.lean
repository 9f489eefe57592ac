import TrustPortal.Python.Value

/-!
# `TrustPortal.Python.Loads`: `json.loads` and `json.dumps`

`loads` reads a text one character at a time: a `Reader` is a stack of the arrays and objects
that are open and what is expected next. So it meets its three ways to fail in the order the
text has them. `malformed` is `json.JSONDecodeError`. `number` is the plain `ValueError` of an
int literal with more than 4300 digits. `recursion` is the `RecursionError` of an array or
object nested deeper than the interpreter lets the scanner go.

`dumps` writes with the separators `, ` and `: `. Its argument says how a character of a
string is written, which is what `ensure_ascii` chooses.

`Python` is what the interpreter adds: how deep the scanner and the writer may go, the float
a literal stands for, `str(value)`, and the two ways `datetime` reads an instant.
-/

set_option autoImplicit false

namespace TrustPortal.Python

/-- What the interpreter decides. An instant is in microseconds since 1970, in UTC. -/
structure Interpreter where
  readerDepth : Nat
  writerDepth : Nat
  /-- `float(literal)`. -/
  float : Str → FloatText
  /-- `str(value)`. -/
  strOf : Value → Str
  /-- `datetime.fromtimestamp(value / 1000, tz=timezone.utc)`, none where it raises. -/
  fromTimestamp : Value → Option Int
  /-- `datetime.fromisoformat(text)` as an instant, none where it or `astimezone` raises. -/
  fromIsoformat : Str → Option Int

/-- What `json.loads` raises. -/
inductive LoadsError
  | malformed
  | number
  | recursion
  deriving DecidableEq, Repr

/-! ## Strings -/

/-- The character that an escape of one character stands for. -/
def unescape (c : CodePoint) : Option CodePoint :=
  if c.is '"' || c.is '\\' || c.is '/' then some c
  else if c.is 'b' then some (.ofNat 8)
  else if c.is 'f' then some (.ofNat 12)
  else if c.is 'n' then some (.ofNat 10)
  else if c.is 'r' then some (.ofNat 13)
  else if c.is 't' then some (.ofNat 9)
  else none

/-- The value of a hexadecimal digit. -/
def hexValue (c : CodePoint) : Option Nat :=
  if c.isDigit then some (c.val - 0x30)
  else if 0x41 ≤ c.val ∧ c.val ≤ 0x46 then some (c.val - 0x37)
  else if 0x61 ≤ c.val ∧ c.val ≤ 0x66 then some (c.val - 0x57)
  else none

/-- A character of a string literal and whether it was written as a `\u` escape. -/
abbrev Piece := CodePoint × Bool

/-- The string that was read: an escaped high surrogate and the escaped low surrogate after it
are one character. -/
def joinSurrogates : List Piece → Str
  | [] => []
  | [(c, _)] => [c]
  | (c, escaped) :: (d, escaped') :: rest =>
    if escaped && escaped' && c.isHighSurrogate && d.isLowSurrogate then
      .ofNat (0x10000 + (c.val - 0xD800) * 0x400 + (d.val - 0xDC00)) :: joinSurrogates rest
    else c :: joinSurrogates ((d, escaped') :: rest)

/-! ## The reader -/

/-- An array or object that is open. -/
inductive Frame
  /-- The items before the one that is read. -/
  | list (items : List Value)
  /-- The members so far; a name comes next. -/
  | dict (members : Members)
  /-- The members so far and the name of the one that is read. -/
  | member (members : Members) (name : Str)

/-- What the reader expects. -/
inductive Mode
  /-- A value. -/
  | value
  /-- A value or the end of an empty array. -/
  | firstItem
  /-- A name or the end of an empty object. -/
  | firstName
  /-- A name. -/
  | name
  /-- The rest of a string; the characters read are in reverse order. -/
  | string (isName : Bool) (units : List Piece)
  /-- The character after a backslash. -/
  | escape (isName : Bool) (units : List Piece)
  /-- The rest of four hexadecimal digits. -/
  | unicode (isName : Bool) (units : List Piece) (count value : Nat)
  /-- The colon after a name. -/
  | colon (name : Str)
  /-- The rest of a literal name. -/
  | literal (rest : Str) (value : Value)
  /-- The rest of a number. -/
  | number (n : Number)
  /-- What follows a value. -/
  | after (value : Value)

/-- The state of the scanner. -/
structure Reader where
  stack : List Frame
  mode : Mode

/-- JSON whitespace. -/
def isJsonSpace (c : CodePoint) : Bool := c.is ' ' || c.is '\t' || c.is '\n' || c.is '\r'

/-- `NaN` -/
def floatNaN : FloatText := ⟨str "NaN", by decide⟩

/-- `Infinity` -/
def floatInfinity : FloatText := ⟨str "Infinity", by decide⟩

/-- `-Infinity` -/
def floatNegInfinity : FloatText := ⟨str "-Infinity", by decide⟩

/-- The int of a whole part. -/
def readInt (whole : Str) : Except LoadsError Value :=
  if h : digitCount (intOfText whole).natAbs ≤ MAX_STR_DIGITS then
    .ok (.int ⟨intOfText whole, h⟩)
  else .error .number

/-- The value of a number that ends here. A point or an exponent mark without digits is not
part of the number: what stands before it is converted, and the text is malformed. -/
def readNumber (py : Interpreter) (n : Number) : Except LoadsError Value :=
  match n.part with
  | .zero | .whole => readInt n.whole
  | .fraction | .exponent => .ok (.float (py.float (n.whole ++ n.rest)))
  | .point | .mark false | .sign false => do
    let _ ← readInt n.whole
    .error .malformed
  | .minus | .mark true | .sign true => .error .malformed

/-- The end of a string. -/
def endString (stack : List Frame) (isName : Bool) (units : List Piece) : Reader :=
  let text := joinSurrogates units.reverse
  ⟨stack, if isName then .colon text else .after (.str text)⟩

/-- An array or object opens. -/
def openFrame (py : Interpreter) (stack : List Frame) (frame : Frame) (mode : Mode) :
    Except LoadsError Reader :=
  if stack.length < py.readerDepth then .ok ⟨frame :: stack, mode⟩ else .error .recursion

/-- The first character of a value. -/
def startValue (py : Interpreter) (stack : List Frame) (c : CodePoint) :
    Except LoadsError Reader :=
  if isJsonSpace c then .ok ⟨stack, .value⟩
  else if c.is '"' then .ok ⟨stack, .string false []⟩
  else if c.is '\x7b' then openFrame py stack (.dict []) .firstName
  else if c.is '[' then openFrame py stack (.list []) .firstItem
  else if c.is 'n' then .ok ⟨stack, .literal (str "ull") .none⟩
  else if c.is 't' then .ok ⟨stack, .literal (str "rue") (.bool true)⟩
  else if c.is 'f' then .ok ⟨stack, .literal (str "alse") (.bool false)⟩
  else if c.is 'N' then .ok ⟨stack, .literal (str "aN") (.float floatNaN)⟩
  else if c.is 'I' then .ok ⟨stack, .literal (str "nfinity") (.float floatInfinity)⟩
  else match Number.start c with
    | some n => .ok ⟨stack, .number n⟩
    | none => .error .malformed

/-- A character after a value. -/
def afterValue (stack : List Frame) (value : Value) (c : CodePoint) : Except LoadsError Reader :=
  if isJsonSpace c then .ok ⟨stack, .after value⟩
  else match stack with
    | .list items :: rest =>
      if c.is ',' then .ok ⟨.list (items ++ [value]) :: rest, .value⟩
      else if c.is ']' then .ok ⟨rest, .after (.list (items ++ [value]))⟩
      else .error .malformed
    | .member members name :: rest =>
      if c.is ',' then .ok ⟨.dict (setMember members name value) :: rest, .name⟩
      else if c.is '\x7d' then .ok ⟨rest, .after (.dict (setMember members name value))⟩
      else .error .malformed
    | _ => .error .malformed

/-- One character. -/
def Reader.step (py : Interpreter) (reader : Reader) (c : CodePoint) : Except LoadsError Reader :=
  match reader.mode with
  | .value => startValue py reader.stack c
  | .firstItem =>
    if isJsonSpace c then .ok reader
    else if c.is ']' then
      match reader.stack with
      | .list items :: rest => .ok ⟨rest, .after (.list items)⟩
      | _ => .error .malformed
    else startValue py reader.stack c
  | .firstName =>
    if isJsonSpace c then .ok reader
    else if c.is '"' then .ok ⟨reader.stack, .string true []⟩
    else if c.is '\x7d' then
      match reader.stack with
      | .dict members :: rest => .ok ⟨rest, .after (.dict members)⟩
      | _ => .error .malformed
    else .error .malformed
  | .name =>
    if isJsonSpace c then .ok reader
    else if c.is '"' then .ok ⟨reader.stack, .string true []⟩
    else .error .malformed
  | .string isName units =>
    if c.is '"' then .ok (endString reader.stack isName units)
    else if c.is '\\' then .ok ⟨reader.stack, .escape isName units⟩
    else if c.val < 0x20 then .error .malformed
    else .ok ⟨reader.stack, .string isName ((c, false) :: units)⟩
  | .escape isName units =>
    if c.is 'u' then .ok ⟨reader.stack, .unicode isName units 0 0⟩
    else match unescape c with
      | some d => .ok ⟨reader.stack, .string isName ((d, false) :: units)⟩
      | none => .error .malformed
  | .unicode isName units count value =>
    match hexValue c with
    | some digit =>
      if count = 3 then
        .ok ⟨reader.stack, .string isName ((.ofNat (value * 16 + digit), true) :: units)⟩
      else .ok ⟨reader.stack, .unicode isName units (count + 1) (value * 16 + digit)⟩
    | none => .error .malformed
  | .colon name =>
    if isJsonSpace c then .ok reader
    else if c.is ':' then
      match reader.stack with
      | .dict members :: rest => .ok ⟨.member members name :: rest, .value⟩
      | _ => .error .malformed
    else .error .malformed
  | .literal rest value =>
    match rest with
    | [] => afterValue reader.stack value c
    | d :: rest =>
      if c = d then
        .ok ⟨reader.stack, if rest.isEmpty then .after value else .literal rest value⟩
      else .error .malformed
  | .number n =>
    if n.part = .minus ∧ c.is 'I' then
      .ok ⟨reader.stack, .literal (str "nfinity") (.float floatNegInfinity)⟩
    else match n.extend c with
      | some n => .ok ⟨reader.stack, .number n⟩
      | none => do
        let value ← readNumber py n
        afterValue reader.stack value c
  | .after value => afterValue reader.stack value c

/-- The end of the text. -/
def Reader.finish (py : Interpreter) (reader : Reader) : Except LoadsError Value :=
  match reader.mode with
  | .after value => if reader.stack.isEmpty then .ok value else .error .malformed
  | .number n => do
    let value ← readNumber py n
    if reader.stack.isEmpty then .ok value else .error .malformed
  | _ => .error .malformed

/-- `json.loads(text)`. -/
def loads (py : Interpreter) (text : Str) : Except LoadsError Value := do
  -- A byte order mark is refused before the scanner runs.
  if text.head? = some (.ofNat 0xFEFF) then .error .malformed
  let reader ← text.foldlM (Reader.step py) ⟨[], .value⟩
  reader.finish py

/-! ## The writer -/

/-- A hexadecimal digit, in lower case. -/
def hexDigit (n : Nat) : CodePoint := .ofChar (Nat.digitChar (n % 16))

/-- `\uXXXX`. -/
def unicodeEscape (n : Nat) : Str :=
  str "\\u" ++ [hexDigit (n / 4096), hexDigit (n / 256), hexDigit (n / 16), hexDigit n]

/-- A character of a JSON string with `ensure_ascii=False`. -/
def escapeChar (c : CodePoint) : Str :=
  if c.is '"' then str "\\\""
  else if c.is '\\' then str "\\\\"
  else if c.val = 10 then str "\\n"
  else if c.val = 13 then str "\\r"
  else if c.val = 9 then str "\\t"
  else if c.val = 12 then str "\\f"
  else if c.val = 8 then str "\\b"
  else if c.val < 0x20 then unicodeEscape c.val
  else [c]

/-- A character of a JSON string with `ensure_ascii=True`. -/
def escapeCharAscii (c : CodePoint) : Str :=
  if c.val < 0x7F then escapeChar c
  else if c.val < 0x10000 then unicodeEscape c.val
  else unicodeEscape (0xD800 + (c.val - 0x10000) / 0x400)
    ++ unicodeEscape (0xDC00 + (c.val - 0x10000) % 0x400)

/-- A JSON string. -/
def renderString (escape : CodePoint → Str) (s : Str) : Str :=
  str "\"" ++ s.flatMap escape ++ str "\""

mutual

/-- The text of a value. -/
def render (escape : CodePoint → Str) : Value → Str
  | .none => str "null"
  | .bool b => if b then str "true" else str "false"
  | .int n => n.text
  | .float x => x.val
  | .str s => renderString escape s
  | .list items => str "[" ++ join (str ", ") (renderItems escape items) ++ str "]"
  | .dict members =>
    str "\x7b" ++ join (str ", ") (renderMembers escape members) ++ str "\x7d"

/-- The texts of an array's items. -/
def renderItems (escape : CodePoint → Str) : List Value → List Str
  | [] => []
  | item :: items => render escape item :: renderItems escape items

/-- The texts of an object's members. -/
def renderMembers (escape : CodePoint → Str) : List (Str × Value) → List Str
  | [] => []
  | (name, value) :: members =>
    (renderString escape name ++ str ": " ++ render escape value) :: renderMembers escape members

end

/-- `json.dumps(value)`, with `ensure_ascii` as `escape` has it; none is a `RecursionError`. -/
def Value.dumps (py : Interpreter) (escape : CodePoint → Str) (value : Value) : Option Str :=
  if value.depth ≤ py.writerDepth then some (render escape value) else Option.none

end TrustPortal.Python
