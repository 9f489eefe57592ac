import TrustPortal.Python.Text

/-!
# `TrustPortal.Request.JsonLimits`: the limits of a JSON document

`check_json_limits` looks at a JSON text before any parser does. It goes from one structural
character to the next, skips each string as a whole, and counts the arrays and objects that are
open and the values so far. It parses nothing: what is between the structural characters may be
anything.
-/

set_option autoImplicit false

namespace TrustPortal.Request

open TrustPortal.Python

/-- `MAX_JSON_DEPTH` -/
def MAX_JSON_DEPTH : Nat := 32

/-- `MAX_JSON_VALUES` -/
def MAX_JSON_VALUES : Nat := 200000

/-- The arguments of `check_json_limits`; none is no limit. -/
structure Limits where
  maxDepth : Nat := MAX_JSON_DEPTH
  maxValues : Option Nat := some MAX_JSON_VALUES

/-- What `check_json_limits` raises. -/
inductive LimitError
  /-- `BadRequest` -/
  | tooDeep (maxDepth : Nat)
  /-- `RequestEntityTooLarge` -/
  | tooMany (maxValues : Nat)
  deriving DecidableEq, Repr

namespace LimitError

/-- The status of the response. -/
def status : LimitError → Nat
  | tooDeep _ => 400
  | tooMany _ => 413

/-- The description of the error. -/
def description : LimitError → String
  | tooDeep maxDepth => s!"The JSON body is nested deeper than {maxDepth} levels."
  | tooMany maxValues => s!"The JSON body has more than {maxValues} values."

end LimitError

/-! ## Regular expressions -/

/-- A character of `_JSON_STRUCTURAL`. -/
def isStructural (c : CodePoint) : Bool :=
  c.is '"' || c.is '[' || c.is ']' || c.is '\x7b' || c.is '\x7d' || c.is ','

/-- `_JSON_STRUCTURAL.search`: the next structural character and the text after it. -/
def searchStructural : Str → Option (CodePoint × Str)
  | [] => none
  | c :: rest => if isStructural c then some (c, rest) else searchStructural rest

/-- `_JSON_STRING_REST.match`: the text after the closing quote. No character is taken back, so
a string that does not end does not match. -/
def stringRest : Str → Option Str
  | [] => none
  | c :: rest =>
    if c.is '"' then some rest
    else if c.is '\\' then
      match rest with
      | [] => none
      | _ :: rest => stringRest rest
    else stringRest rest

theorem searchStructural_length {text rest : Str} {c : CodePoint}
    (h : searchStructural text = some (c, rest)) : rest.length < text.length := by
  induction text with
  | nil => cases h
  | cons d text ih =>
    rw [searchStructural] at h
    split_ifs at h
    · cases h
      simp
    · exact Nat.lt_succ_of_lt (ih h)

theorem stringRest_length {text rest : Str} (h : stringRest text = some rest) :
    rest.length < text.length := by
  induction text using stringRest.induct with
  | case1 => cases h
  | case2 c text hquote =>
    unfold stringRest at h
    rw [if_pos hquote] at h
    cases h
    simp
  | case3 c hquote hslash =>
    unfold stringRest at h
    rw [if_neg hquote, if_pos hslash] at h
    cases h
  | case4 c hquote hslash d text ih =>
    unfold stringRest at h
    rw [if_neg hquote, if_pos hslash] at h
    have hlength := ih h
    simp only [List.length_cons]
    omega
  | case5 c text hquote hslash ih =>
    unfold stringRest at h
    rw [if_neg hquote, if_neg hslash] at h
    exact Nat.lt_succ_of_lt (ih h)

/-! ## The check -/

/-- The counters of `check_json_limits`. -/
structure Counters where
  values : Nat
  closers : Nat
  depth : Int
  deriving DecidableEq, Repr

/-- A depth that is over the limit is refused. -/
def Limits.checkDepth (limits : Limits) (depth : Int) : Except LimitError Unit :=
  if depth > limits.maxDepth then .error (.tooDeep limits.maxDepth) else .ok ()

/-- A count that is over the limit is refused. -/
def Limits.checkCount (limits : Limits) (count : Nat) : Except LimitError Unit :=
  match limits.maxValues with
  | none => .ok ()
  | some limit => if count > limit then .error (.tooMany limit) else .ok ()

/-- A structural character other than a quote. -/
def Counters.count (limits : Limits) (counters : Counters) (c : CodePoint) :
    Except LimitError Counters :=
  if c.is '[' || c.is '\x7b' then do
    limits.checkDepth (counters.depth + 1)
    limits.checkCount (counters.values + 1)
    .ok { counters with values := counters.values + 1, depth := counters.depth + 1 }
  else if c.is ',' then do
    limits.checkCount (counters.values + 1)
    .ok { counters with values := counters.values + 1 }
  else do
    limits.checkCount (counters.closers + 1)
    .ok { counters with closers := counters.closers + 1, depth := counters.depth - 1 }

/-- The scan of a text from some counters on. -/
def checkFrom (limits : Limits) (counters : Counters) (text : Str) : Except LimitError Unit :=
  match _hsearch : searchStructural text with
  | none => .ok ()
  | some (c, rest) =>
    if c.is '"' then
      match _hstring : stringRest rest with
      | none => .ok ()
      | some rest => checkFrom limits counters rest
    else
      match counters.count limits c with
      | .error error => .error error
      | .ok counters => checkFrom limits counters rest
termination_by text.length
decreasing_by
  · have h := searchStructural_length _hsearch
    have h' := stringRest_length _hstring
    omega
  · exact searchStructural_length _hsearch

/-- `check_json_limits`. -/
def checkJsonLimits (limits : Limits) (text : Str) : Except LimitError Unit :=
  checkFrom limits ⟨0, 0, 0⟩ text

end TrustPortal.Request
