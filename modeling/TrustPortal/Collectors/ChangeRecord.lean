import TrustPortal.Python.Text

/-!
# `TrustPortal.Collectors.ChangeRecord`: the sections of a commit message

`missingSections` goes over the lines of a commit message. A heading line opens a section or ends
one, and a line with text below the heading of a required section is that section's text. A closing
paragraph of git trailers is left out first.
-/

set_option autoImplicit false

namespace TrustPortal.Collectors

open TrustPortal.Python

/-- `REQUIRED_SECTIONS` -/
def REQUIRED_SECTIONS : List Str := [str "Problem", str "Solution", str "Verified"]

/-- `[ \t]` -/
def isBlank (c : CodePoint) : Bool := c.is ' ' || c.is '\t'

/-- `str.lower` of a character, as far as it leads to an ASCII letter: the capitals of ASCII and the
Kelvin sign. -/
def lowerChar (c : CodePoint) : CodePoint :=
  if 0x41 ≤ c.val ∧ c.val ≤ 0x5A then .ofNat (c.val + 0x20)
  else if c.val = 0x212A then .ofChar 'k'
  else c

/-- `text.lower()` -/
def lower (text : Str) : Str := text.map lowerChar

/-- `line.strip()` is empty. -/
def isEmptyLine (line : Str) : Bool := (strip line).isEmpty

/-! ## Headings -/

/-- `_HEADING.match(line)` of a line: the number of `#`, and the title. -/
def heading (line : Str) : Option (Nat × Str) :=
  let rest := line.dropWhile isBlank
  let marks := (rest.takeWhile (CodePoint.is · '#')).length
  let after := rest.dropWhile (CodePoint.is · '#')
  if (marks = 1 ∨ marks = 2) ∧ after.head?.any isBlank then
    some (marks, ((after.dropWhile isBlank).reverse.dropWhile isBlank).reverse)
  else none

example : heading (str "  ## Problem \t") = some (2, str "Problem")
    ∧ heading (str "### Problem") = none ∧ heading (str "#Problem") = none := by
  decide

/-! ## Trailers -/

/-- `[A-Za-z]` -/
def isLetter (c : CodePoint) : Bool :=
  decide (0x41 ≤ c.val ∧ c.val ≤ 0x5A) || decide (0x61 ≤ c.val ∧ c.val ≤ 0x7A)

/-- `[A-Za-z0-9-]` -/
def isKeyChar (c : CodePoint) : Bool :=
  isLetter c || decide (0x30 ≤ c.val ∧ c.val ≤ 0x39) || c.is '-'

/-- The key of `_TRAILER.match(line.strip())`. -/
def trailerKey (line : Str) : Option Str :=
  let text := strip line
  let key := text.takeWhile isKeyChar
  match text.dropWhile isKeyChar with
  | colon :: next :: _ =>
    if key.head?.any isLetter && colon.is ':' && isBlank next then some key else none
  | _ => none

/-- A key that names an attribution. -/
def isAttribution (key : Str) : Bool :=
  endsWith (lower key) (str "-by") || lower key = str "change-id"

/-- `_is_trailer_block` -/
def isTrailerBlock (lines : List Str) : Bool :=
  if lines.isEmpty || lines.any fun line => (trailerKey line).isNone then false
  else lines.any fun line => (trailerKey line).any isAttribution

/-! ## Sections -/

/-- `text.replace("\r\n", "\n")` -/
def replaceCrLf : Str → Str
  | [] => []
  | [c] => [c]
  | c :: d :: rest =>
    if c.is '\r' && d.is '\n' then d :: replaceCrLf rest else c :: replaceCrLf (d :: rest)

/-- The lines of a message. -/
def messageLines (message : Str) : List Str :=
  ((replaceCrLf message).map fun c => if c.is '\r' then .ofChar '\n' else c).splitOn (.ofChar '\n')

/-- `_section_lines`: the lines without the empty ones at the end and without a closing paragraph of
trailers. -/
def sectionLines (message : Str) : List Str :=
  let lines := ((messageLines message).reverse.dropWhile isEmptyLine).reverse
  let paragraph := (lines.reverse.takeWhile fun line => !isEmptyLine line).reverse
  if isTrailerBlock paragraph then
    (lines.reverse.dropWhile fun line => !isEmptyLine line).reverse
  else lines

/-- The section that is read and which sections have text. A title that was never read is one
without text. -/
structure SectionState where
  current : Option Str
  hasText : Str → Bool

/-- One line of `missing_sections`. -/
def SectionState.step (state : SectionState) (line : Str) : SectionState :=
  match heading line with
  | some (level, title) =>
    let title := lower title
    { state with
      current := if level = 2 ∧ title ∈ REQUIRED_SECTIONS.map lower then some title else none }
  | none =>
    match state.current with
    | some title =>
      if isEmptyLine line then state
      else { state with hasText := fun t => t = title || state.hasText t }
    | none => state

/-- `missing_sections`: the required sections that a message lacks or leaves empty. -/
def missingSections (message : Str) : List Str :=
  let state := (sectionLines message).foldl SectionState.step ⟨none, fun _ => false⟩
  REQUIRED_SECTIONS.filter fun name => !state.hasText (lower name)

example : missingSections (str "Fix\n\n## PROBLEM\nA.\n## Solution\nB.\n## Verified\n\nAcked-by: C")
    = [str "Verified"] := by
  decide +kernel

end TrustPortal.Collectors
