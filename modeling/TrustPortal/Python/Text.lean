import Mathlib.Data.List.Basic

/-!
# `TrustPortal.Python.Text`: Python strings and UTF-8

A Python string is a list of code points, and a code point can be a surrogate: `json.loads`
reads one from an escape. A Lean `String` cannot hold it, so strings that come from decoded
JSON are lists here (`Str`).

`encodePass` writes UTF-8 with the `surrogatepass` error handler, so it is total, and a text
without surrogates has the bytes of `str.encode("utf-8")`. `decode` is
`bytes.decode("utf-8", errors="replace")`: each maximal part of a character that is cut off
or that no character starts with is one U+FFFD.
-/

set_option autoImplicit false

namespace TrustPortal.Python

/-- A Unicode code point, surrogates included. -/
structure CodePoint where
  val : Nat
  isLt : val < 0x110000
  deriving DecidableEq, Repr

/-- A Python `str`. -/
abbrev Str := List CodePoint

-- Named, so that every membership test in a list of strings is the same term.
instance : LawfulBEq Str := inferInstanceAs (LawfulBEq (List CodePoint))

/-- A Python `bytes`. -/
abbrev Bytes := List UInt8

namespace CodePoint

theorem ext {c d : CodePoint} (h : c.val = d.val) : c = d := by
  cases c
  cases d
  simpa using h

/-- U+FFFD, the replacement character. -/
def replacement : CodePoint := ⟨0xFFFD, by decide⟩

/-- The code point of a number, U+FFFD where it has none. -/
def ofNat (n : Nat) : CodePoint := if h : n < 0x110000 then ⟨n, h⟩ else replacement

theorem ofNat_val (c : CodePoint) : ofNat c.val = c := by
  rw [ofNat, dif_pos c.isLt]

theorem val_ofNat {n : Nat} (h : n < 0x110000) : (ofNat n).val = n := by
  rw [ofNat, dif_pos h]

/-- The code point of a character. -/
def ofChar (c : Char) : CodePoint := ofNat c.toNat

/-- The code point is this character. -/
def is (c : CodePoint) (char : Char) : Bool := c.val == char.toNat

/-- U+D800 to U+DFFF. -/
def isSurrogate (c : CodePoint) : Bool := decide (0xD800 ≤ c.val) && decide (c.val ≤ 0xDFFF)

/-- U+D800 to U+DBFF. -/
def isHighSurrogate (c : CodePoint) : Bool := decide (0xD800 ≤ c.val) && decide (c.val ≤ 0xDBFF)

/-- U+DC00 to U+DFFF. -/
def isLowSurrogate (c : CodePoint) : Bool := decide (0xDC00 ≤ c.val) && decide (c.val ≤ 0xDFFF)

/-- `str.isspace()` of one character, which `str.strip()` and `\s` use. -/
def isSpace (c : CodePoint) : Bool :=
  decide (9 ≤ c.val ∧ c.val ≤ 13) || decide (0x1C ≤ c.val ∧ c.val ≤ 0x20) || c.val == 0x85
    || c.val == 0xA0 || c.val == 0x1680 || decide (0x2000 ≤ c.val ∧ c.val ≤ 0x200A)
    || c.val == 0x2028 || c.val == 0x2029 || c.val == 0x202F || c.val == 0x205F
    || c.val == 0x3000

/-- A character at which `str.splitlines()` ends a line. -/
def isLineBreak (c : CodePoint) : Bool :=
  decide (0x0A ≤ c.val ∧ c.val ≤ 0x0D) || decide (0x1C ≤ c.val ∧ c.val ≤ 0x1E) || c.val == 0x85
    || c.val == 0x2028 || c.val == 0x2029

end CodePoint

/-- The Python string of a literal. -/
def str (text : String) : Str := text.toList.map CodePoint.ofChar

/-- `text.strip()`. -/
def strip (text : Str) : Str :=
  ((text.dropWhile CodePoint.isSpace).reverse.dropWhile CodePoint.isSpace).reverse

/-- Nothing is dropped from a text whose first character stays. -/
theorem dropWhile_of_head {p : CodePoint → Bool} {text : Str}
    (h : ∀ c, text.head? = some c → p c = false) : text.dropWhile p = text := by
  cases text with
  | nil => rfl
  | cons c rest =>
    exact List.dropWhile_cons_of_neg (by rw [h c rfl]; exact Bool.false_ne_true)

/-- A text without spaces at its ends is left as it is. -/
theorem strip_of_ends {text : Str} (hfirst : ∀ c, text.head? = some c → c.isSpace = false)
    (hlast : ∀ c, text.getLast? = some c → c.isSpace = false) : strip text = text := by
  rw [strip, dropWhile_of_head hfirst, dropWhile_of_head (by rwa [List.head?_reverse]),
    List.reverse_reverse]

/-- The spaces around such a text are taken away. -/
theorem strip_append {lead text trail : Str} (hlead : ∀ c ∈ lead, c.isSpace = true)
    (htrail : ∀ c ∈ trail, c.isSpace = true) (hne : text ≠ [])
    (hfirst : ∀ c, text.head? = some c → c.isSpace = false)
    (hlast : ∀ c, text.getLast? = some c → c.isSpace = false) :
    strip (lead ++ text ++ trail) = text := by
  have hleft : (lead ++ text ++ trail).dropWhile CodePoint.isSpace = text ++ trail := by
    rw [List.append_assoc, List.dropWhile_append_of_pos hlead, dropWhile_of_head]
    rwa [List.head?_append_of_ne_nil _ hne]
  rw [strip, hleft, List.reverse_append,
    List.dropWhile_append_of_pos fun c hc => htrail c (List.mem_reverse.mp hc),
    dropWhile_of_head (by rwa [List.head?_reverse]), List.reverse_reverse]

/-- `separator.join(texts)`. -/
def join (separator : Str) (texts : List Str) : Str := List.intercalate separator texts

/-- `text.endswith(suffix)`. -/
def endsWith (text suffix : Str) : Bool := suffix.isSuffixOf text

/-! ## UTF-8 -/

/-- The UTF-8 bytes of a code point; a surrogate has three, as with `surrogatepass`. -/
def encodeChar (c : CodePoint) : Bytes :=
  if c.val < 0x80 then [UInt8.ofNat c.val]
  else if c.val < 0x800 then
    [UInt8.ofNat (0xC0 + c.val / 0x40), UInt8.ofNat (0x80 + c.val % 0x40)]
  else if c.val < 0x10000 then
    [UInt8.ofNat (0xE0 + c.val / 0x1000), UInt8.ofNat (0x80 + c.val / 0x40 % 0x40),
      UInt8.ofNat (0x80 + c.val % 0x40)]
  else
    [UInt8.ofNat (0xF0 + c.val / 0x40000), UInt8.ofNat (0x80 + c.val / 0x1000 % 0x40),
      UInt8.ofNat (0x80 + c.val / 0x40 % 0x40), UInt8.ofNat (0x80 + c.val % 0x40)]

/-- `text.encode("utf-8", "surrogatepass")`. -/
def encodePass (text : Str) : Bytes := text.flatMap encodeChar

/-- `text.encode("utf-8")`, which raises on a surrogate. -/
def encode (text : Str) : Option Bytes :=
  if text.any CodePoint.isSurrogate then none else some (encodePass text)

/-- A continuation byte. -/
def isTail (b : UInt8) : Bool := decide (0x80 ≤ b.toNat) && decide (b.toNat ≤ 0xBF)

/-- A byte that can follow the first byte of a character of three or four bytes: no surrogate,
no code point above U+10FFFF and no longer form of a shorter character. -/
def isSecond (first b : UInt8) : Bool :=
  isTail b
    && (if first.toNat = 0xE0 then decide (0xA0 ≤ b.toNat)
        else if first.toNat = 0xED then decide (b.toNat ≤ 0x9F)
        else if first.toNat = 0xF0 then decide (0x90 ≤ b.toNat)
        else if first.toNat = 0xF4 then decide (b.toNat ≤ 0x8F)
        else true)

/-- `bytes.decode("utf-8", errors="replace")`. -/
def decode : Bytes → Str
  | [] => []
  | a :: rest =>
    if a.toNat < 0x80 then .ofNat a.toNat :: decode rest
    else if a.toNat < 0xC2 then .replacement :: decode rest
    else if a.toNat < 0xE0 then
      match rest with
      | [] => [.replacement]
      | b :: rest' =>
        if isTail b then .ofNat ((a.toNat - 0xC0) * 0x40 + (b.toNat - 0x80)) :: decode rest'
        else .replacement :: decode (b :: rest')
    else if a.toNat < 0xF0 then
      match rest with
      | [] => [.replacement]
      | b :: rest' =>
        if isSecond a b then
          match rest' with
          | [] => [.replacement]
          | c :: rest'' =>
            if isTail c then
              .ofNat ((a.toNat - 0xE0) * 0x1000 + (b.toNat - 0x80) * 0x40 + (c.toNat - 0x80))
                :: decode rest''
            else .replacement :: decode (c :: rest'')
        else .replacement :: decode (b :: rest')
    else if a.toNat < 0xF5 then
      match rest with
      | [] => [.replacement]
      | b :: rest' =>
        if isSecond a b then
          match rest' with
          | [] => [.replacement]
          | c :: rest'' =>
            if isTail c then
              match rest'' with
              | [] => [.replacement]
              | d :: rest''' =>
                if isTail d then
                  .ofNat ((a.toNat - 0xF0) * 0x40000 + (b.toNat - 0x80) * 0x1000
                    + (c.toNat - 0x80) * 0x40 + (d.toNat - 0x80)) :: decode rest'''
                else .replacement :: decode (d :: rest''')
            else .replacement :: decode (c :: rest'')
        else .replacement :: decode (b :: rest')
    else .replacement :: decode rest

example : decode [0x61, 0xE2, 0x82, 0xAC, 0xF0, 0x9F, 0x98, 0xFF, 0xED, 0xA0, 0x80]
    = [.ofNat 0x61, .ofNat 0x20AC, .replacement, .replacement, .replacement, .replacement,
      .replacement] := by
  decide

end TrustPortal.Python
