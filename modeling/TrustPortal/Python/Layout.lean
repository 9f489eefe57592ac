import TrustPortal.Python.Loads

/-!
# `TrustPortal.Python.Layout`: `json.dumps` with `indent`

`json.dumps(value, indent=n)` puts every item of an array and every member of an object on a line
of its own, `n` spaces further in than the brackets around it. An empty array or object stays
`[]` or `{}`. A `Layout` is what is written between the brackets, the commas and the items, by
how deep the array or object is; it is whitespace in every case, so a reader skips it.

`decodeStrict` is `bytes.decode("utf-8")`, which raises where `decode` writes U+FFFD.
-/

set_option autoImplicit false

namespace TrustPortal.Python

/-- What is written after an opening bracket, after a comma and before a closing bracket. -/
structure Layout where
  opening : Nat → Str
  comma : Nat → Str
  closing : Nat → Str

/-- The separators `, ` and `: ` on one line. -/
def Layout.oneLine : Layout where
  opening _ := []
  comma _ := str " "
  closing _ := []

/-- `newline_indent` at a level. -/
def newlineIndent (width level : Nat) : Str :=
  str "\n" ++ List.replicate (width * level) (.ofChar ' ')

/-- `indent=width`. -/
def Layout.indent (width : Nat) : Layout where
  opening level := newlineIndent width (level + 1)
  comma level := newlineIndent width (level + 1)
  closing level := newlineIndent width level

/-- The texts of the items or members, set apart, between two brackets. -/
def Layout.enclose (layout : Layout) (level : Nat) (texts : List Str) : Str :=
  layout.opening level ++ join (str "," ++ layout.comma level) texts ++ layout.closing level

mutual

/-- The text of a value that stands in `level` arrays and objects. -/
def Layout.render (layout : Layout) (escape : CodePoint → Str) (level : Nat) : Value → Str
  | .none => str "null"
  | .bool b => if b then str "true" else str "false"
  | .int n => n.text
  | .float x => x.val
  | .str s => renderString escape s
  | .list [] => str "[]"
  | .list (item :: items) =>
    str "[" ++ layout.enclose level (layout.renderItems escape (level + 1) (item :: items))
      ++ str "]"
  | .dict [] => str "\x7b\x7d"
  | .dict (member :: members) =>
    str "\x7b" ++ layout.enclose level (layout.renderMembers escape (level + 1) (member :: members))
      ++ str "\x7d"

/-- The texts of an array's items. -/
def Layout.renderItems (layout : Layout) (escape : CodePoint → Str) (level : Nat) :
    List Value → List Str
  | [] => []
  | item :: items => layout.render escape level item :: layout.renderItems escape level items

/-- The texts of an object's members. -/
def Layout.renderMembers (layout : Layout) (escape : CodePoint → Str) (level : Nat) :
    List (Str × Value) → List Str
  | [] => []
  | (name, value) :: members =>
    (renderString escape name ++ str ": " ++ layout.render escape level value)
      :: layout.renderMembers escape level members

end

/-- `json.dumps(value, indent=width)`; none is a `RecursionError`. -/
def Value.dumpsIndent (py : Interpreter) (width : Nat) (value : Value) : Option Str :=
  if value.depth ≤ py.writerDepth then
    some ((Layout.indent width).render escapeCharAscii 0 value)
  else Option.none

example : (Layout.indent 2).render escapeCharAscii 0 (.dict [(str "a", .list [.bool true, .none]),
    (str "b", .dict [])])
    = str "\x7b\n  \"a\": [\n    true,\n    null\n  ],\n  \"b\": \x7b\x7d\n\x7d" := by
  decide +kernel

/-- `bytes.decode("utf-8")`: the text whose bytes these are, none where it raises. -/
def decodeStrict (bytes : Bytes) : Option Str :=
  if encodePass (decode bytes) = bytes then some (decode bytes) else none

example : decodeStrict [0x61, 0xC3, 0xA9] = some (str "aé") ∧ decodeStrict [0x61, 0xC3] = none
    ∧ decodeStrict [0xED, 0xA0, 0x80] = none := by
  decide

end TrustPortal.Python
