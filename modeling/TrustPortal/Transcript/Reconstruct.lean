import TrustPortal.DecisionLog.Entry
import TrustPortal.Transcript.Parse

/-!
# `TrustPortal.Transcript.Reconstruct`: the reconstruction of a stored version

`reconstruct` is the text that `_reconstruct` compresses: a header that names the original
upload, and a line for each stored entry in the shape of a Claude Code transcript. It is none
where the source raises: `json.loads` or `json.dumps` on values that are nested too deep, an int
of more than 4300 digits, or a surrogate in a line that is encoded.

`SessionRow` has the columns of `decision_log_sessions` that a reconstruction reads. Its size is
a `bigint`, which `Integer` holds.
-/

set_option autoImplicit false

namespace TrustPortal.Transcript

open TrustPortal.Python
open TrustPortal.DecisionLog (isoformat)

/-- `RECONSTRUCTION_FORMAT` -/
def RECONSTRUCTION_FORMAT : String := "decision-log-reconstruction/v1"

/-- The columns of a session that its reconstruction reads. -/
structure SessionRow where
  id : Str
  contentSha256 : Option Str
  contentBytes : Option Integer
  model : Option Str
  cwd : Option Str
  gitBranch : Option Str
  deriving DecidableEq

/-- A text or None. -/
def textValue : Option Str → Value
  | some text => .str text
  | none => .none

/-- A member that is left out where there is no value. -/
def memberOf (name : String) : Option Value → Members
  | some value => [(str name, value)]
  | none => []

/-- A text column that counts: it is neither None nor empty. -/
def given (text : Option Str) : Option Value := (text.filter fun t => !t.isEmpty).map .str

/-- A dict. -/
def isDict : Value → Bool
  | .dict _ => true
  | _ => false

/-- The blocks of stored tool calls; none where `json.loads` raises a `RecursionError`. -/
def storedBlocks (py : Interpreter) (toolCalls : Option Str) : Option (List Value) :=
  match toolCalls.filter fun text => !text.isEmpty with
  | none => some []
  | some text =>
    match loads py text with
    | .ok (.list blocks) => some (blocks.filter isDict)
    | .ok _ => some []
    | .error .malformed | .error .number => some []
    | .error .recursion => none

/-- The text block of an entry. -/
def textBlock (text : Str) : Value :=
  .dict [(str "type", .str (str "text")), (str "text", .str text)]

/-- `message` of the line of an entry with these tool calls. -/
def reconstructionMessage (entry : Entry) (first : Bool) (session : SessionRow)
    (blocks : List Value) : Members :=
  [(str "role", textValue entry.role),
    (str "content", .list ((entry.contentText.map textBlock).toList ++ blocks))]
    ++ memberOf "id" (entry.messageId.map .str)
    ++ memberOf "model" (if first then given session.model else none)

/-- The line of an entry with these tool calls. -/
def reconstructionRecord (entry : Entry) (first : Bool) (session : SessionRow)
    (blocks : List Value) : Members :=
  [(str "type", .str (if entry.role = some (str "assistant") then str "assistant" else str "user")),
    (str "message", .dict (reconstructionMessage entry first session blocks))]
    ++ memberOf "timestamp" (entry.timestamp.map fun t => .str (str (isoformat t)))
    ++ memberOf "cwd" (if first then given session.cwd else none)
    ++ memberOf "gitBranch" (if first then given session.gitBranch else none)

/-- `_reconstruction_line`. -/
def reconstructionLine (py : Interpreter) (entry : Entry) (first : Bool) (session : SessionRow) :
    Option Members :=
  (storedBlocks py entry.toolCalls).map (reconstructionRecord entry first session)

/-- The header of a version of `count` entries; none where the count cannot be written. -/
def reconstructionHeader (session : SessionRow) (count : Nat) : Option Members :=
  if h : digitCount (count : Int).natAbs ≤ MAX_STR_DIGITS then
    some [(str "type", .str (str "decision-log-reconstruction")),
      (str "format", .str (str RECONSTRUCTION_FORMAT)),
      (str "session_id", .str session.id),
      (str "content_sha256", textValue session.contentSha256),
      (str "content_bytes", (session.contentBytes.map Value.int).getD .none),
      (str "entries", .int ⟨count, h⟩)]
  else none

/-- What is written for an entry: its line and a line feed in UTF-8. -/
def entryBytes (py : Interpreter) (entry : Entry) (first : Bool) (session : SessionRow) :
    Option Bytes := do
  let record ← reconstructionLine py entry first session
  let line ← Value.dumps py escapeChar (.dict record)
  encode (escapeSurrogates line ++ str "\n")

/-- What is written for the entries. -/
def entriesBytes (py : Interpreter) (session : SessionRow) : Bool → List Entry → Option Bytes
  | _, [] => some []
  | first, entry :: entries => do
    let line ← entryBytes py entry first session
    let rest ← entriesBytes py session false entries
    some (line ++ rest)

/-- The text of `_reconstruct` before it is compressed. -/
def reconstruct (py : Interpreter) (session : SessionRow) (entries : List Entry) :
    Option Bytes := do
  let header ← reconstructionHeader session entries.length
  let line ← Value.dumps py escapeCharAscii (.dict header)
  let first ← encode (line ++ str "\n")
  let rest ← entriesBytes py session true entries
  some (first ++ rest)

end TrustPortal.Transcript
