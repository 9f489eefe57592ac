import TrustPortal.Python.Url
import TrustPortal.Python.Value

/-!
# `TrustPortal.Python.Number`: `int` of a text

`int(text)` reads more than digits: spaces around the number, a sign, an underscore between two
digits, and every decimal digit of Unicode. It raises a `ValueError` on any other text, here
`none`, and on more than 4300 digits.

What the Unicode data say of a character is a parameter, `TextTables`; its laws say what they say
of the ASCII ones.
-/

set_option autoImplicit false

namespace TrustPortal.Python

/-- `text.lower()`, and the value of a decimal digit. -/
structure TextTables where
  lower : Str → Str
  decimal : CodePoint → Option Nat
  lower_ascii : ∀ text : Str, text.all CodePoint.isAscii = true →
    lower text = text.map CodePoint.asciiLower
  decimal_ascii : ∀ c : CodePoint, c.isAscii = true →
    decimal c = if c.isDigit then some (c.val - 0x30) else none

namespace TextTables

/-- The tables of a Unicode without any character outside ASCII. -/
def ascii : TextTables where
  lower text := text.map CodePoint.asciiLower
  decimal c := if c.isDigit then some (c.val - 0x30) else none
  lower_ascii _ _ := rfl
  decimal_ascii _ _ := rfl

end TextTables

/-- A space that `int` takes away: `str.isspace` without the four separators of ASCII. -/
def CodePoint.isIntSpace (c : CodePoint) : Bool :=
  c.isSpace && !(decide (0x1C ≤ c.val) && decide (c.val ≤ 0x1F))

section
variable (tables : TextTables)

/-- The digits of a number with single underscores between them. -/
def intDigits : Str → Option (List Nat)
  | [] => none
  | [c] => (tables.decimal c).map fun d => [d]
  | c :: u :: rest => do
    let d ← tables.decimal c
    let digits ← if u.is '_' then intDigits rest else intDigits (u :: rest)
    return d :: digits

/-- `int(text)` of a number without a sign. -/
def natOf (text : Str) : Option Nat := do
  let digits ← intDigits tables text
  if digits.length ≤ MAX_STR_DIGITS then some (digits.foldl (fun n d => n * 10 + d) 0) else none

/-- `int(text)`, none for a `ValueError`. -/
def intOf (text : Str) : Option Int :=
  let text := ((text.dropWhile CodePoint.isIntSpace).reverse.dropWhile CodePoint.isIntSpace).reverse
  match text with
  | [] => none
  | c :: rest =>
    if c.is '-' then (natOf tables rest).map fun n => -(n : Int)
    else if c.is '+' then (natOf tables rest).map Int.ofNat
    else (natOf tables (c :: rest)).map Int.ofNat

end

/-- `text.split()`. -/
def words (text : Str) : List Str :=
  (text.splitOnP CodePoint.isSpace).filter fun word => !word.isEmpty

end TrustPortal.Python
