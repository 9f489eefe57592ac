import TrustPortal.Proofs.Transcript.Reader
import TrustPortal.Proofs.Transcript.Writer
import TrustPortal.Transcript.Parse

/-!
# `TrustPortal.Proofs.Transcript.Brackets`: brackets and the JSON reader

A scan of brackets outside strings knows how many arrays and objects the JSON reader has open.
`Tracks` relates the two: while the reader has not failed, the count is the height of the stack,
and both agree on what is inside a string (`Tracks.next`). No limit has a part in it.
-/

set_option autoImplicit false

namespace TrustPortal.Proofs.Transcript

open TrustPortal.Lib
open TrustPortal.Python
open TrustPortal.Transcript

section
variable {py : Interpreter} {reader reader' : Reader} {scan scan' : DepthScan} {c : CodePoint}

/-- What the scan takes the reader's place for. -/
def scanMode : Mode → ScanMode
  | .string _ _ | .unicode _ _ _ _ => .string
  | .escape _ _ => .escape
  | .value | .firstItem | .firstName | .name | .colon _ | .literal _ _ | .number _ | .after _ =>
    .outside

/-- The scan stands where the reader does, and the rest of a name holds no bracket. -/
structure Tracks (reader : Reader) (scan : DepthScan) : Prop where
  depth : scan.depth = reader.stack.length
  mode : scan.mode = scanMode reader.mode
  literal : ∀ rest value, reader.mode = .literal rest value → ∀ d ∈ rest, Plain d

/-- Where a character takes the scan, the limit aside. -/
def nextScan (scan : DepthScan) (c : CodePoint) : DepthScan :=
  match scan.mode with
  | .outside =>
    if c.is '"' then ⟨scan.depth, .string⟩
    else if c.is '[' || c.is '\x7b' then ⟨scan.depth + 1, .outside⟩
    else if c.is ']' || c.is '\x7d' then ⟨scan.depth - 1, .outside⟩
    else scan
  | .string =>
    if c.is '"' then ⟨scan.depth, .outside⟩
    else if c.is '\\' then ⟨scan.depth, .escape⟩
    else scan
  | .escape => ⟨scan.depth, .string⟩

/-- A plain character leaves a scan outside strings as it is. -/
theorem next_plain (hc : Plain c) (depth : Int) :
    nextScan ⟨depth, .outside⟩ c = ⟨depth, .outside⟩ := by
  simp [nextScan, hc.quote, hc.brace, hc.bracket, hc.endBracket, hc.endBrace]

/-- A quote outside a string opens one. -/
theorem next_quote (hc : c.is '"' = true) (depth : Int) :
    nextScan ⟨depth, .outside⟩ c = ⟨depth, .string⟩ := by
  simp [nextScan, hc]

/-- An opening bracket is counted. -/
theorem next_open (hc : c.is '\x7b' = true ∨ c.is '[' = true) (depth : Int) :
    nextScan ⟨depth, .outside⟩ c = ⟨depth + 1, .outside⟩ := by
  have hquote : c.is '"' = false := by
    rcases hc with hc | hc <;> exact is_ne hc (by decide)
  have hopen : (c.is '[' || c.is '\x7b') = true := by
    rcases hc with hc | hc <;> simp [hc]
  simp only [nextScan, hquote, hopen, Bool.false_eq_true, if_false, if_true]

/-- A closing bracket is counted down. -/
theorem next_close (hc : c.is ']' = true ∨ c.is '\x7d' = true) (depth : Int) :
    nextScan ⟨depth, .outside⟩ c = ⟨depth - 1, .outside⟩ := by
  have hquote : c.is '"' = false := by
    rcases hc with hc | hc <;> exact is_ne hc (by decide)
  have hopen : (c.is '[' || c.is '\x7b') = false := by
    rcases hc with hc | hc <;> simp [is_ne hc (show _ ≠ '['.toNat by decide),
      is_ne hc (show _ ≠ '\x7b'.toNat by decide)]
  have hclose : (c.is ']' || c.is '\x7d') = true := by
    rcases hc with hc | hc <;> simp [hc]
  simp [nextScan, hquote, hopen, hclose]

/-! ## The relation is kept -/

/-- A state without a name that is being read. -/
private theorem tracks_of {stack : List Frame} {mode : Mode}
    (hmode : ∀ rest value, mode ≠ .literal rest value) :
    Tracks ⟨stack, mode⟩ ⟨stack.length, scanMode mode⟩ :=
  ⟨rfl, rfl, fun rest value h => absurd h (hmode rest value)⟩

private theorem tracks_startValue {stack : List Frame}
    (hs : nextScan ⟨stack.length, .outside⟩ c = scan')
    (h : startValue py stack c = .ok reader') : Tracks reader' scan' := by
  cases startValue_ok h with
  | space hc =>
    cases (next_plain (plain_of_space hc) _).symm.trans hs
    exact tracks_of nofun
  | string hc =>
    cases (next_quote hc _).symm.trans hs
    exact tracks_of nofun
  | object hc =>
    cases (next_open (.inl hc) _).symm.trans hs
    exact ⟨by simp, rfl, nofun⟩
  | array hc =>
    cases (next_open (.inr hc) _).symm.trans hs
    exact ⟨by simp, rfl, nofun⟩
  | literal rest value hc _ _ hrest =>
    cases (next_plain hc _).symm.trans hs
    refine ⟨rfl, rfl, ?_⟩
    rintro rest' value' ⟨⟩
    exact hrest
  | number n hc =>
    cases (next_plain hc _).symm.trans hs
    exact tracks_of nofun

private theorem tracks_afterValue {stack : List Frame} {value : Value}
    (hs : nextScan ⟨stack.length, .outside⟩ c = scan')
    (h : afterValue stack value c = .ok reader') : Tracks reader' scan' := by
  cases afterValue_ok h with
  | space _ hc =>
    cases (next_plain (plain_of_space hc) _).symm.trans hs
    exact tracks_of nofun
  | nextItem _ _ hc | nextMember _ _ _ hc =>
    cases (next_plain hc _).symm.trans hs
    exact ⟨by simp, rfl, nofun⟩
  | endList _ _ hc =>
    cases (next_close (.inl hc) _).symm.trans hs
    exact ⟨by simp, rfl, nofun⟩
  | endDict _ _ _ hc =>
    cases (next_close (.inr hc) _).symm.trans hs
    exact ⟨by simp, rfl, nofun⟩

/-- A character of a number literal is plain. -/
theorem plain_of_numberChar (h : isNumberChar c = true) : Plain c := by
  simp only [isNumberChar, Bool.or_eq_true] at h
  rcases h with ((((h | h) | h) | h) | h) | h
  · exact plain_of_digit h
  all_goals exact plain_of_is h (by decide)

/-- A hexadecimal digit ends no string and starts no escape. -/
private theorem hexValue_inside {digit : Nat} (h : hexValue c = some digit) :
    c.is '"' = false ∧ c.is '\\' = false := by
  constructor
  · cases hc : c.is '"' with
    | false => rfl
    | true =>
      simp only [CodePoint.is, beq_iff_eq] at hc
      simp [hexValue, CodePoint.isDigit, hc] at h
  · cases hc : c.is '\\' with
    | false => rfl
    | true =>
      simp only [CodePoint.is, beq_iff_eq] at hc
      simp [hexValue, CodePoint.isDigit, hc] at h

/-! ### The places outside a string -/

private theorem tracks_firstItem {stack : List Frame}
    (hs : nextScan ⟨stack.length, .outside⟩ c = scan')
    (h : Reader.step py ⟨stack, .firstItem⟩ c = .ok reader') : Tracks reader' scan' := by
  simp only [Reader.step] at h
  split_ifs at h with hspace hend
  · cases h
    cases (next_plain (plain_of_space hspace) _).symm.trans hs
    exact tracks_of (by simp)
  · split at h
    · cases h
      cases (next_close (.inl hend) _).symm.trans hs
      exact ⟨by simp, rfl, (by simp)⟩
    · cases h
  · exact tracks_startValue hs h

private theorem tracks_firstName {stack : List Frame}
    (hs : nextScan ⟨stack.length, .outside⟩ c = scan')
    (h : Reader.step py ⟨stack, .firstName⟩ c = .ok reader') : Tracks reader' scan' := by
  simp only [Reader.step] at h
  split_ifs at h with hspace hquote hend
  · cases h
    cases (next_plain (plain_of_space hspace) _).symm.trans hs
    exact tracks_of (by simp)
  · cases h
    cases (next_quote hquote _).symm.trans hs
    exact tracks_of (by simp)
  · split at h
    · cases h
      cases (next_close (.inr hend) _).symm.trans hs
      exact ⟨by simp, rfl, (by simp)⟩
    · cases h

private theorem tracks_name {stack : List Frame}
    (hs : nextScan ⟨stack.length, .outside⟩ c = scan')
    (h : Reader.step py ⟨stack, .name⟩ c = .ok reader') : Tracks reader' scan' := by
  simp only [Reader.step] at h
  split_ifs at h with hspace hquote
  · cases h
    cases (next_plain (plain_of_space hspace) _).symm.trans hs
    exact tracks_of (by simp)
  · cases h
    cases (next_quote hquote _).symm.trans hs
    exact tracks_of (by simp)

private theorem tracks_colon {stack : List Frame} {name : Str}
    (hs : nextScan ⟨stack.length, .outside⟩ c = scan')
    (h : Reader.step py ⟨stack, .colon name⟩ c = .ok reader') : Tracks reader' scan' := by
  simp only [Reader.step] at h
  split_ifs at h with hspace hcolon
  · cases h
    cases (next_plain (plain_of_space hspace) _).symm.trans hs
    exact tracks_of (by simp)
  · split at h
    · cases h
      cases (next_plain (plain_of_is hcolon (by decide)) _).symm.trans hs
      exact ⟨by simp, rfl, (by simp)⟩
    · cases h

/-- What is left of `true`, `false`, `null` and so on holds no bracket. -/
private theorem tracks_literal {stack : List Frame} {rest : Str} {value : Value}
    (hrest : ∀ d ∈ rest, Plain d) (hs : nextScan ⟨stack.length, .outside⟩ c = scan')
    (h : Reader.step py ⟨stack, .literal rest value⟩ c = .ok reader') : Tracks reader' scan' := by
  simp only [Reader.step] at h
  split at h
  · exact tracks_afterValue hs h
  · next d rest =>
    split_ifs at h with hcd hempty
    all_goals
      cases h
      cases (next_plain (hcd ▸ hrest d List.mem_cons_self) _).symm.trans hs
    · exact tracks_of (by simp)
    · refine ⟨rfl, rfl, ?_⟩
      rintro rest' value' ⟨⟩ e he
      exact hrest e (List.mem_cons_of_mem d he)

private theorem tracks_number {stack : List Frame} {n : Number}
    (hs : nextScan ⟨stack.length, .outside⟩ c = scan')
    (h : Reader.step py ⟨stack, .number n⟩ c = .ok reader') : Tracks reader' scan' := by
  simp only [Reader.step] at h
  split_ifs at h with hinf
  · -- the `I` behind a sign starts `Infinity`
    cases h
    cases (next_plain (plain_of_is hinf.2 (by decide)) _).symm.trans hs
    refine ⟨rfl, rfl, ?_⟩
    rintro rest' value' ⟨⟩
    decide
  · split at h
    · next m hm =>
      cases h
      cases (next_plain (plain_of_numberChar (isNumberChar_of_extend hm)) _).symm.trans hs
      exact tracks_of (by simp)
    · obtain ⟨value, _, hafter⟩ := bind_eq_ok.mp h
      exact tracks_afterValue hs hafter

/-! ### The places in a string -/

private theorem tracks_string {stack : List Frame} {isName : Bool} {pieces : List Piece}
    (hs : nextScan ⟨stack.length, .string⟩ c = scan')
    (h : Reader.step py ⟨stack, .string isName pieces⟩ c = .ok reader') : Tracks reader' scan' := by
  simp only [Reader.step] at h
  simp only [nextScan] at hs
  split_ifs at h with hquote hslash hcontrol
  · rw [if_pos hquote] at hs
    cases h
    cases hs
    cases isName <;> exact tracks_of (by simp)
  · rw [if_neg hquote, if_pos hslash] at hs
    cases h
    cases hs
    exact tracks_of (by simp)
  · rw [if_neg hquote, if_neg hslash] at hs
    cases h
    cases hs
    exact tracks_of (by simp)

private theorem tracks_escape {stack : List Frame} {isName : Bool} {pieces : List Piece}
    (hs : nextScan ⟨stack.length, .escape⟩ c = scan')
    (h : Reader.step py ⟨stack, .escape isName pieces⟩ c = .ok reader') : Tracks reader' scan' := by
  cases hs
  simp only [Reader.step] at h
  split_ifs at h
  · cases h
    exact tracks_of (by simp)
  · split at h
    · cases h
      exact tracks_of (by simp)
    · cases h

private theorem tracks_unicode {stack : List Frame} {isName : Bool} {pieces : List Piece}
    {count digits : Nat} (hs : nextScan ⟨stack.length, .string⟩ c = scan')
    (h : Reader.step py ⟨stack, .unicode isName pieces count digits⟩ c = .ok reader') :
    Tracks reader' scan' := by
  simp only [Reader.step] at h
  split at h
  · next digit hdigit =>
    obtain ⟨hquote, hslash⟩ := hexValue_inside hdigit
    simp only [nextScan, hquote, hslash, Bool.false_eq_true, if_false] at hs
    cases hs
    split_ifs at h
    all_goals
      cases h
      exact tracks_of (by simp)
  · cases h

private theorem tracks_next (htracks : Tracks reader scan) (hs : nextScan scan c = scan')
    (h : reader.step py c = .ok reader') : Tracks reader' scan' := by
  obtain ⟨stack, mode⟩ := reader
  obtain ⟨depth, place⟩ := scan
  obtain ⟨rfl, rfl, hliteral⟩ := htracks
  cases mode with
  | value => exact tracks_startValue hs h
  | firstItem => exact tracks_firstItem hs h
  | firstName => exact tracks_firstName hs h
  | name => exact tracks_name hs h
  | string isName pieces => exact tracks_string hs h
  | escape isName pieces => exact tracks_escape hs h
  | unicode isName pieces count digits => exact tracks_unicode hs h
  | colon name => exact tracks_colon hs h
  | literal rest value => exact tracks_literal (hliteral rest value rfl) hs h
  | number n => exact tracks_number hs h
  | after value => exact tracks_afterValue hs h

/-- Every character keeps the scan where the reader is. -/
theorem Tracks.next (htracks : Tracks reader scan) (h : reader.step py c = .ok reader') :
    Tracks reader' (nextScan scan c) :=
  tracks_next htracks rfl h

end

end TrustPortal.Proofs.Transcript
