import TrustPortal.Python.Loads

/-!
# `TrustPortal.Transcript.Lines`: the lines of a transcript

`byteLines` splits the submitted bytes where `str.splitlines()` would split the decoded text,
and `textLines` is `str.splitlines()` itself. `readLine` decodes and strips one line after its
size is checked, and `checkLineDepth` looks at a line's brackets, the ones in strings aside.

`Failure` is what the parser raises. `TranscriptError` and `TranscriptLimitError` are the
documented ones; `valueError` and `recursionError` come out of the JSON reader and writer.
-/

set_option autoImplicit false

namespace TrustPortal.Transcript

open TrustPortal.Python

/-- `MAX_TRANSCRIPT_ENTRIES` -/
def MAX_TRANSCRIPT_ENTRIES : Nat := 50000

/-- `MAX_ENTRY_BYTES` -/
def MAX_ENTRY_BYTES : Nat := 8 * 1024 * 1024

/-- `MAX_TOOL_CALLS_BYTES` -/
def MAX_TOOL_CALLS_BYTES : Nat := 8 * 1024 * 1024

/-- `MAX_TRANSCRIPT_TOOL_CALLS_BYTES` -/
def MAX_TRANSCRIPT_TOOL_CALLS_BYTES : Nat := 32 * 1024 * 1024

/-- `MAX_LINE_DEPTH` -/
def MAX_LINE_DEPTH : Nat := 64

/-! ## What the parser raises -/

/-- The stored fields that have a length, the keys of `_FIELD_COLUMNS`. -/
inductive Field
  | messageRole
  | messageId
  | model
  | cwd
  | gitBranch
  | payloadId
  | payloadModel
  | payloadCwd
  | payloadGitBranch
  deriving DecidableEq, Repr

namespace Field

/-- The name that an error gives the field. -/
def name : Field → String
  | messageRole => "message.role"
  | messageId => "message.id"
  | model => "model"
  | cwd => "cwd"
  | gitBranch => "gitBranch"
  | payloadId => "payload.id"
  | payloadModel => "payload.model"
  | payloadCwd => "payload.cwd"
  | payloadGitBranch => "payload.git.branch"

/-- `_field_limit`: the length of the field's column. -/
def limit : Field → Nat
  | messageRole => 20
  | messageId | payloadId => 100
  | model | payloadModel => 100
  | cwd | payloadCwd => 500
  | gitBranch | payloadGitBranch => 200

end Field

/-- `TranscriptError` -/
inductive TranscriptError
  | notString (line : Nat) (field : Field) (typeName : String)
  | tooLong (line : Nat) (field : Field)
  | tooDeep (line : Nat)
  deriving DecidableEq, Repr

/-- The text of a `TranscriptError`. -/
def TranscriptError.message : TranscriptError → String
  | notString line field typeName =>
    s!"line {line}: {field.name} must be a string, not {typeName}"
  | tooLong line field => s!"line {line}: {field.name} is longer than {field.limit} characters"
  | tooDeep line => s!"line {line} is nested deeper than {MAX_LINE_DEPTH} levels"

/-- `TranscriptLimitError` and its subclasses. -/
inductive TranscriptLimitError
  | tooManyEntries
  | lineTooLarge (line size : Nat)
  | toolCallsTooLarge (line size : Nat)
  | toolCallsTotal (line size : Nat)
  deriving DecidableEq, Repr

namespace TranscriptLimitError

/-- `exc.limit` -/
def limit : TranscriptLimitError → Nat
  | tooManyEntries => MAX_TRANSCRIPT_ENTRIES
  | lineTooLarge _ _ => MAX_ENTRY_BYTES
  | toolCallsTooLarge _ _ => MAX_TOOL_CALLS_BYTES
  | toolCallsTotal _ _ => MAX_TRANSCRIPT_TOOL_CALLS_BYTES

/-- `exc.size` -/
def size : TranscriptLimitError → Nat
  | tooManyEntries => MAX_TRANSCRIPT_ENTRIES + 1
  | lineTooLarge _ size => size
  | toolCallsTooLarge _ size => size
  | toolCallsTotal _ size => size

/-- The text of a `TranscriptLimitError`. -/
def message (error : TranscriptLimitError) : String :=
  match error with
  | tooManyEntries =>
    s!"the transcript has more than {error.limit} entries; decision-log transcripts are " ++
      s!"limited to {error.limit} entries"
  | lineTooLarge line size =>
    s!"line {line} is {size} bytes; each line (entry) of a decision-log " ++
      s!"transcript is limited to {error.limit} bytes"
  | toolCallsTooLarge line size =>
    s!"line {line}: the entry's tool calls are {size} bytes as stored; each " ++
      s!"entry's tool calls are limited to {error.limit} bytes"
  | toolCallsTotal line size =>
    s!"line {line}: the transcript's tool calls reach {size} bytes as stored; the " ++
      s!"tool calls of a decision-log transcript are limited to {error.limit} bytes in total"

end TranscriptLimitError

/-- What `parse_transcript` raises. -/
inductive Failure
  | invalid (error : TranscriptError)
  | limit (error : TranscriptLimitError)
  | valueError
  | recursionError
  deriving DecidableEq, Repr

/-- A `TranscriptError` or a `TranscriptLimitError`. -/
def Failure.isDocumented : Failure → Bool
  | invalid _ | limit _ => true
  | valueError | recursionError => false

/-! ## Lines -/

/-- What a transcript is given as. -/
inductive Content
  | bytes (content : Bytes)
  | text (content : Str)

/-- A line before it is decoded. -/
inductive RawLine
  | bytes (line : Bytes)
  | text (line : Str)

/-- A line separator of one byte. -/
def isBreakByte (b : UInt8) : Bool :=
  decide (0x0A ≤ b.toNat ∧ b.toNat ≤ 0x0D) || decide (0x1C ≤ b.toNat ∧ b.toNat ≤ 0x1E)

/-- The number of bytes of the line separator that the bytes start with, 0 where they start
with none. -/
def breakLength : Bytes → Nat
  | 0x0D :: 0x0A :: _ => 2
  | 0xC2 :: 0x85 :: _ => 2
  | 0xE2 :: 0x80 :: b :: _ => if b = 0xA8 ∨ b = 0xA9 then 3 else 0
  | b :: _ => if isBreakByte b then 1 else 0
  | [] => 0

/-- The lines of the bytes that follow `line`, the bytes of a line read so far in reverse
order, while `skip` bytes of a separator are left. -/
def byteLinesFrom (line : Bytes) (skip : Nat) : Bytes → List Bytes
  | [] => if line.isEmpty then [] else [line.reverse]
  | b :: rest =>
    match skip with
    | skip + 1 => byteLinesFrom line skip rest
    | 0 =>
      match breakLength (b :: rest) with
      | 0 => byteLinesFrom (b :: line) 0 rest
      | length + 1 => line.reverse :: byteLinesFrom [] length rest

/-- `_byte_lines`. -/
def byteLines (content : Bytes) : List Bytes := byteLinesFrom [] 0 content

/-- `textLines` of the text that follows `line`, read so far in reverse order. -/
def textLinesFrom (line : Str) : Str → List Str
  | [] => if line.isEmpty then [] else [line.reverse]
  | c :: rest =>
    if c.is '\r' then
      match rest with
      | d :: rest' =>
        if d.is '\n' then line.reverse :: textLinesFrom [] rest'
        else line.reverse :: textLinesFrom [] (d :: rest')
      | [] => [line.reverse]
    else if c.isLineBreak then line.reverse :: textLinesFrom [] rest
    else textLinesFrom (c :: line) rest

/-- `str.splitlines()`. -/
def textLines (content : Str) : List Str := textLinesFrom [] content

/-- The lines of a content, in order. -/
def Content.lines : Content → List RawLine
  | .bytes content => (byteLines content).map .bytes
  | .text content => (textLines content).map .text

/-- `_utf8_length`. -/
def utf8Length (text : Str) : Nat :=
  if text.length * 4 ≤ MAX_ENTRY_BYTES ∨ text.length > MAX_ENTRY_BYTES then text.length
  else (encodePass text).length

/-- `_lines`: the stripped text of one line, after its size is checked. -/
def readLine (lineNumber : Nat) : RawLine → Except Failure Str
  | .bytes raw =>
    if raw.length > MAX_ENTRY_BYTES then
      .error (.limit (.lineTooLarge lineNumber raw.length))
    else .ok (strip (decode raw))
  | .text line =>
    if utf8Length line > MAX_ENTRY_BYTES then
      .error (.limit (.lineTooLarge lineNumber (encodePass line).length))
    else .ok (strip line)

/-! ## Depth -/

/-- Where `check_json_limits` stands: between structural characters, in a string, or after a
backslash in a string. -/
inductive ScanMode
  | outside
  | string
  | escape
  deriving DecidableEq, Repr

/-- The scan of `check_json_limits`. -/
structure DepthScan where
  depth : Int
  mode : ScanMode
  deriving DecidableEq, Repr

/-- One character of `check_json_limits(line, max_depth=MAX_LINE_DEPTH, max_values=None)`, none
where it refuses. A string that never ends is read to the end of the line. -/
def DepthScan.step (scan : DepthScan) (c : CodePoint) : Option DepthScan :=
  match scan.mode with
  | .outside =>
    if c.is '"' then some ⟨scan.depth, .string⟩
    else if c.is '[' || c.is '\x7b' then
      if scan.depth + 1 > MAX_LINE_DEPTH then none else some ⟨scan.depth + 1, .outside⟩
    else if c.is ']' || c.is '\x7d' then some ⟨scan.depth - 1, .outside⟩
    else some scan
  | .string =>
    if c.is '"' then some ⟨scan.depth, .outside⟩
    else if c.is '\\' then some ⟨scan.depth, .escape⟩
    else some scan
  | .escape => some ⟨scan.depth, .string⟩

/-- `check_json_limits` lets the line pass. -/
def passesDepth (line : Str) : Bool := (line.foldlM DepthScan.step ⟨0, .outside⟩).isSome

/-- The number of opening brackets, the ones in strings included. -/
def opens (line : Str) : Nat := line.countP fun c => c.is '[' || c.is '\x7b'

/-- `_check_line_depth`, which a line of at most `MAX_LINE_DEPTH` characters skips. -/
def checkLineDepth (lineNumber : Nat) (line : Str) : Except Failure PUnit :=
  if line.length > MAX_LINE_DEPTH ∧ ¬opens line ≤ MAX_LINE_DEPTH ∧ passesDepth line = false then
    .error (.invalid (.tooDeep lineNumber))
  else .ok ()

example : byteLines [0x61, 0x0D, 0x0A, 0x0A, 0xE2, 0x80, 0xA8, 0x62, 0xC2, 0x85, 0x63]
    = [[0x61], [], [], [0x62], [0x63]] := by
  decide

end TrustPortal.Transcript
