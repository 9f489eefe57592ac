import TrustPortal.Transcript.Lines

/-!
# `TrustPortal.Transcript.Parse`: `parse_transcript`

A line that decodes to an object is a record. `FormatParse` is one format's parse: the entries
and the metadata so far, and the size of the tool calls. `Parse` is what the loop of
`parse_transcript` keeps: the Claude Code parse until the first Codex record drops it, the
first documented error of that parse, and the Codex parse. `Parse.step` is one record,
`parseTranscript` the whole loop.

An entry's text has no unpaired surrogate left (`cleanText`), and its tool calls are JSON text
(`toolCallsJson`). Where `_claude_record` raises, the source keeps the metadata it had set
before; nothing reads it after that, so `claudeRecord` returns no state then.
-/

set_option autoImplicit false

namespace TrustPortal.Transcript

open TrustPortal.Python

/-! ## Stored values -/

/-- `clean_text`. -/
def cleanText (text : Str) : Str :=
  text.map fun c => if c.val = 0 || c.isSurrogate then .replacement else c

/-- `_string_field`. -/
def stringField (value : Value) (field : Field) (lineNumber : Nat) :
    Except Failure (Option Str) :=
  match value with
  | .none => .ok none
  | .str text =>
    if (cleanText text).length > field.limit then
      .error (.invalid (.tooLong lineNumber field))
    else .ok (some (cleanText text))
  | value => .error (.invalid (.notString lineNumber field value.typeName))

/-- `escape_surrogates`. -/
def escapeSurrogates (text : Str) : Str :=
  text.flatMap fun c => if c.isSurrogate then unicodeEscape c.val else [c]

/-- `tool_calls_json`. -/
def toolCallsJson (py : Interpreter) (blocks : Value) : Except Failure Str :=
  match Value.dumps py escapeChar blocks with
  | some text => .ok (escapeSurrogates text)
  | none => .error .recursionError

/-- `_stored_size`. -/
def storedSize (text : Str) : Nat := (encodePass text).length

/-- `_parse_timestamp`. -/
def parseTimestamp (py : Interpreter) (ts : Value) : Option Int :=
  if ts.truthy then
    match ts with
    | .int _ | .float _ => py.fromTimestamp ts
    | .str text => py.fromIsoformat (text.flatMap fun c => if c.is 'Z' then str "+00:00" else [c])
    | .none | .bool _ | .list _ | .dict _ => none
  else none

/-- A letter of an ASCII word in either case. -/
def sameLetter (c : CodePoint) (letter : Char) : Bool :=
  c.is letter || c.is letter.toUpper

/-- `DONE_PATTERN.match(text)`. -/
def isDone (text : Str) : Bool :=
  match text.dropWhile CodePoint.isSpace with
  | d :: o :: n :: e :: rest =>
    sameLetter d 'd' && sameLetter o 'o' && sameLetter n 'n' && sameLetter e 'e'
      && (match rest with
          | [] => true
          | c :: rest => (c.is '.' || c.isSpace) && rest.all CodePoint.isSpace)
  | _ => false

example : isDone (str " Done.\n") = true ∧ isDone (str "done. ok") = false := by decide

/-! ## What is parsed -/

/-- A stored entry. -/
structure Entry where
  role : Option Str
  contentText : Option Str
  toolCalls : Option Str
  timestamp : Option Int
  messageId : Option Str
  isVerification : Bool
  deriving DecidableEq, Repr

/-- `CLAUDE_CODE_AGENT` and `CODEX_AGENT`. -/
inductive AgentType
  | claudeCode
  | codex
  deriving DecidableEq, Repr

/-- `ParsedTranscript`. -/
structure ParsedTranscript where
  entries : List Entry
  model : Option Str
  cwd : Option Str
  gitBranch : Option Str
  startedAt : Option Int
  endedAt : Option Int
  agentType : AgentType
  deriving DecidableEq, Repr

/-- `note_timestamp`. -/
def ParsedTranscript.noteTimestamp (parsed : ParsedTranscript) (timestamp : Option Int) :
    ParsedTranscript :=
  match timestamp with
  | none => parsed
  | some t => { parsed with startedAt := parsed.startedAt <|> some t, endedAt := some t }

/-- A metadata field is still to be set: None or the empty string. -/
def isUnset (field : Option Str) : Bool :=
  match field with
  | none => true
  | some text => text.isEmpty

/-- `(role, text, tool_calls, timestamp, message_id)`. -/
structure NewEntry where
  role : Option Str
  text : Str
  toolCalls : Option Str
  timestamp : Option Int
  messageId : Option Str

/-- The entry that `_FormatParse.add` appends. -/
def NewEntry.stored (entry : NewEntry) : Entry where
  role := entry.role
  contentText := if entry.text.isEmpty then none else some entry.text
  toolCalls := entry.toolCalls.filter fun text => !text.isEmpty
  timestamp := entry.timestamp
  messageId := entry.messageId
  isVerification := entry.role == some (str "user") && isDone entry.text

/-- `_FormatParse`. -/
structure FormatParse where
  parsed : ParsedTranscript
  toolCallsTotal : Nat
  deriving DecidableEq, Repr

namespace FormatParse

/-- `_FormatParse(agent_type)`. -/
def new (agentType : AgentType) : FormatParse := ⟨⟨[], none, none, none, none, none, agentType⟩, 0⟩

/-- `check_room`. -/
def checkRoom (state : FormatParse) : Except Failure PUnit :=
  if state.parsed.entries.length ≥ MAX_TRANSCRIPT_ENTRIES then .error (.limit .tooManyEntries)
  else .ok ()

/-- The entry at the end, and its tool calls counted. -/
def append (state : FormatParse) (size : Nat) (entry : NewEntry) : FormatParse :=
  { parsed := { state.parsed with entries := state.parsed.entries ++ [entry.stored] }
    toolCallsTotal := state.toolCallsTotal + size }

/-- `add`. -/
def add (state : FormatParse) (lineNumber : Nat) (entry : NewEntry) : Except Failure FormatParse :=
  match entry.toolCalls.filter fun text => !text.isEmpty with
  | none => .ok (state.append 0 entry)
  | some text =>
    let size := storedSize text
    if size > MAX_TOOL_CALLS_BYTES then
      .error (.limit (.toolCallsTooLarge lineNumber size))
    else if state.toolCallsTotal + size > MAX_TRANSCRIPT_TOOL_CALLS_BYTES then
      .error (.limit (.toolCallsTotal lineNumber (state.toolCallsTotal + size)))
    else .ok (state.append size entry)

end FormatParse

/-! ## Claude Code records -/

/-- The text that `_extract_text` takes from one block. -/
def blockText (py : Interpreter) : Value → Option Str
  | .str text => some text
  | .dict block =>
    if (get block "type").isText "text" then
      match find block (str "text") with
      | none | some .none => some []
      | some (.str text) => some text
      | some text => some (py.strOf text)
    else none
  | _ => none

/-- `_extract_text`. The blocks of an object are its names. -/
def extractText (py : Interpreter) : Value → Str
  | .str text => text
  | .list blocks => join (str "\n") (blocks.filterMap (blockText py))
  | .dict members => join (str "\n") (members.map Prod.fst)
  | _ => []

/-- A `tool_use` block. -/
def isToolUse : Value → Bool
  | .dict block => (get block "type").isText "tool_use"
  | _ => false

/-- `_extract_tool_calls`. -/
def extractToolCalls (py : Interpreter) : Value → Except Failure (Option Str)
  | .list blocks =>
    if (blocks.filter isToolUse).isEmpty then .ok none
    else (toolCallsJson py (.list (blocks.filter isToolUse))).map some
  | _ => .ok none

/-- `record["message"]` where it is an object, else no members. -/
def messageOf (record : Members) : Members :=
  match get record "message" with
  | .dict message => message
  | _ => []

/-- `message.get("role", record.get("type"))`. -/
def roleOf (record : Members) : Value :=
  (find (messageOf record) (str "role")).getD (get record "type")

/-- `message.get("content")`, an empty list for None. -/
def contentOf (record : Members) : Value :=
  match get (messageOf record) "content" with
  | .none => .list []
  | content => content

/-- A metadata field after a record that may carry it. -/
def setField (old : Option Str) (value : Value) (field : Field) (lineNumber : Nat) :
    Except Failure (Option Str) :=
  if isUnset old then stringField value field lineNumber else .ok old

/-- `_claude_record`. -/
def claudeRecord (py : Interpreter) (state : FormatParse) (lineNumber : Nat) (record : Members) :
    Except Failure (FormatParse × NewEntry) := do
  state.checkRoom
  let message := messageOf record
  let role ← stringField (roleOf record) .messageRole lineNumber
  let model ← setField state.parsed.model
    (Value.orElse (get message "model") (get record "version")) .model lineNumber
  let cwd ← setField state.parsed.cwd (get record "cwd") .cwd lineNumber
  let gitBranch ← setField state.parsed.gitBranch (get record "gitBranch") .gitBranch lineNumber
  let timestamp := parseTimestamp py (get record "timestamp")
  let parsed := { state.parsed with model := model, cwd := cwd, gitBranch := gitBranch }
  let messageId ← stringField (get message "id") .messageId lineNumber
  let text := cleanText (extractText py (contentOf record))
  let toolCalls ← extractToolCalls py (contentOf record)
  .ok ({ state with parsed := parsed.noteTimestamp timestamp },
    ⟨role, text, toolCalls, timestamp, messageId⟩)

/-! ## Codex records -/

/-- `record["payload"]` where it is an object. -/
def payloadOf (record : Members) : Option Members :=
  match get record "payload" with
  | .dict payload => some payload
  | _ => none

/-- The value is one of these texts. -/
def isAnyText (value : Value) (texts : List String) : Bool := texts.any value.isText

/-- `_is_codex_record`. -/
def isCodexRecord (record : Members) : Bool :=
  isAnyText (get record "type") ["session_meta", "turn_context", "response_item", "event_msg"]
    && (payloadOf record).isSome

/-- `detect_agent_type`. -/
def detectAgentType (records : List Members) : AgentType :=
  if records.any isCodexRecord then .codex else .claudeCode

/-- `_decode_json_string`. -/
def decodeJsonString (py : Interpreter) : Value → Value
  | .str text =>
    match loads py text with
    | .ok value => value
    | .error _ => .str text
  | value => value

/-- The `input` of a Codex tool call. -/
def toolInput (py : Interpreter) (payload : Members) : Value :=
  match find payload (str "arguments"), find payload (str "input") with
  | some arguments, _ => decodeJsonString py arguments
  | none, some input => input
  | none, none => get payload "action"

/-- `_codex_tool_use`. -/
def codexToolUse (py : Interpreter) (payload : Members) (itemType : Str) : Value :=
  .dict [(str "type", .str (str "tool_use")),
    (str "id", Value.orElse (get payload "call_id") (get payload "id")),
    (str "name", Value.orElse (get payload "name") (.str (itemType.take (itemType.length - 5)))),
    (str "input", toolInput py payload)]

/-- The text of a block that `_extract_codex_text` keeps. -/
def codexBlockText : Value → Option Str
  | .dict block =>
    if isAnyText (get block "type") ["input_text", "output_text", "text"] then
      match get block "text" with
      | .str text => some text
      | _ => none
    else none
  | _ => none

/-- `_extract_codex_text`. -/
def extractCodexText : Value → Str
  | .str text => text
  | .list blocks => join (str "\n") (blocks.filterMap codexBlockText)
  | _ => []

/-- `_codex_item`, a message. -/
def codexMessage (state : FormatParse) (payload : Members) (timestamp : Option Int)
    (lineNumber : Nat) : Except Failure (Option NewEntry) :=
  match get payload "role" with
  | .str role =>
    if role = str "user" ∨ role = str "assistant" then do
      state.checkRoom
      let text := cleanText (extractCodexText (get payload "content"))
      let messageId ← stringField (get payload "id") .payloadId lineNumber
      .ok (some ⟨some role, text, none, timestamp, messageId⟩)
    else .ok none
  | _ => .ok none

/-- `_codex_item`, a tool call. -/
def codexToolCall (py : Interpreter) (state : FormatParse) (payload : Members) (itemType : Str)
    (timestamp : Option Int) (lineNumber : Nat) : Except Failure (Option NewEntry) := do
  state.checkRoom
  let messageId ← stringField (get payload "id") .payloadId lineNumber
  let toolCalls ← toolCallsJson py (.list [codexToolUse py payload itemType])
  .ok (some ⟨some (str "assistant"), [], some toolCalls, timestamp, messageId⟩)

/-- `_codex_item`. -/
def codexItem (py : Interpreter) (state : FormatParse) (payload : Members)
    (timestamp : Option Int) (lineNumber : Nat) : Except Failure (Option NewEntry) :=
  match get payload "type" with
  | .str itemType =>
    if itemType = str "message" then codexMessage state payload timestamp lineNumber
    else if endsWith itemType (str "_call") then
      codexToolCall py state payload itemType timestamp lineNumber
    else .ok none
  | _ => .ok none

/-- `payload["git"]["branch"]` where `git` is an object. -/
def gitOf (payload : Members) : Option Value :=
  match get payload "git" with
  | .dict git => some (get git "branch")
  | _ => none

/-- The git branch after a `session_meta` payload. -/
def setGitBranch (old : Option Str) (payload : Members) (lineNumber : Nat) :
    Except Failure (Option Str) :=
  match gitOf payload with
  | some branch => setField old branch .payloadGitBranch lineNumber
  | none => .ok old

/-- The session metadata of a `session_meta` payload. -/
def sessionMeta (parsed : ParsedTranscript) (payload : Members) (lineNumber : Nat) :
    Except Failure ParsedTranscript := do
  let cwd ← setField parsed.cwd (get payload "cwd") .payloadCwd lineNumber
  let gitBranch ← setGitBranch parsed.gitBranch payload lineNumber
  .ok { parsed with cwd := cwd, gitBranch := gitBranch }

/-- The session metadata of a `turn_context` payload. -/
def turnContext (parsed : ParsedTranscript) (payload : Members) (lineNumber : Nat) :
    Except Failure ParsedTranscript := do
  let model ← setField parsed.model (get payload "model") .payloadModel lineNumber
  let cwd ← setField parsed.cwd (get payload "cwd") .payloadCwd lineNumber
  .ok { parsed with model := model, cwd := cwd }

/-- The Codex parse with a timestamp noted. -/
def FormatParse.note (state : FormatParse) (timestamp : Option Int) : FormatParse :=
  { state with parsed := state.parsed.noteTimestamp timestamp }

/-- `_codex_record`. -/
def codexRecord (py : Interpreter) (state : FormatParse) (lineNumber : Nat) (record payload : Members) :
    Except Failure (FormatParse × Option NewEntry) :=
  let timestamp := parseTimestamp py (get record "timestamp")
  let state := state.note timestamp
  if (get record "type").isText "session_meta" then do
    let parsed ← sessionMeta state.parsed payload lineNumber
    .ok ({ state with parsed := parsed }, none)
  else if (get record "type").isText "turn_context" then do
    let parsed ← turnContext state.parsed payload lineNumber
    .ok ({ state with parsed := parsed }, none)
  else if (get record "type").isText "response_item" then do
    let entry ← codexItem py state payload timestamp lineNumber
    .ok (state, entry)
  else .ok (state, none)

/-! ## The loop -/

/-- What `parse_transcript` keeps from one line to the next. -/
structure Parse where
  claude : Option FormatParse
  codex : FormatParse
  claudeError : Option Failure

namespace Parse

/-- Before the first line. -/
def start : Parse := ⟨some (.new .claudeCode), .new .codex, none⟩

/-- A record of type `user` or `assistant`. -/
def isClaudeRecord (record : Members) : Bool := isAnyText (get record "type") ["user", "assistant"]

/-- A failed Claude Code record: a documented error is kept for the end of the transcript and
its entries are released, any other is raised. -/
def refuse (parse : Parse) (claude : FormatParse) (failure : Failure) : Except Failure Parse :=
  if failure.isDocumented then
    .ok { parse with
      claude := some { claude with parsed := { claude.parsed with entries := [] } }
      claudeError := some failure }
  else .error failure

/-- A Claude Code record, while that parse has not failed. -/
def stepClaude (py : Interpreter) (parse : Parse) (claude : FormatParse) (lineNumber : Nat)
    (record : Members) : Except Failure Parse :=
  match claudeRecord py claude lineNumber record with
  | .error failure => parse.refuse claude failure
  | .ok (claude, entry) =>
    match claude.add lineNumber entry with
    | .error failure => parse.refuse claude failure
    | .ok claude => .ok { parse with claude := some claude }

/-- A Codex record, once the transcript is a Codex rollout. -/
def stepCodex (py : Interpreter) (codex : FormatParse) (lineNumber : Nat)
    (record payload : Members) : Except Failure FormatParse := do
  let (codex, entry) ← codexRecord py codex lineNumber record payload
  match entry with
  | some entry => codex.add lineNumber entry
  | none => .ok codex

/-- A record whose payload is an object: it may be the first Codex record, and then it drops
the Claude Code parse; before that only its timestamp counts. -/
def stepPayload (py : Interpreter) (parse : Parse) (lineNumber : Nat)
    (record payload : Members) : Except Failure Parse :=
  if parse.claude.isNone ∨ isCodexRecord record = true then do
    let codex ← stepCodex py parse.codex lineNumber record payload
    .ok ⟨none, codex, none⟩
  else .ok { parse with codex := parse.codex.note (parseTimestamp py (get record "timestamp")) }

/-- One record. -/
def step (py : Interpreter) (parse : Parse) (lineNumber : Nat) (record : Members) :
    Except Failure Parse := do
  let parse ← match payloadOf record with
    | some payload => stepPayload py parse lineNumber record payload
    | none => .ok parse
  match parse.claude, parse.claudeError with
  | some claude, none =>
    if isClaudeRecord record then stepClaude py parse claude lineNumber record else .ok parse
  | _, _ => .ok parse

/-- What is returned after the last line. -/
def finish (parse : Parse) : Except Failure ParsedTranscript :=
  match parse.claude, parse.claudeError with
  | none, _ => .ok parse.codex.parsed
  | some _, some failure => .error failure
  | some claude, none => .ok claude.parsed

end Parse

/-- The record of a stripped line, none where it is ignored. -/
def readRecord (py : Interpreter) (lineNumber : Nat) (line : Str) :
    Except Failure (Option Members) := do
  if line.isEmpty then return none
  checkLineDepth lineNumber line
  match loads py line with
  | .error .malformed => return none
  | .error .number => .error .valueError
  | .error .recursion => .error .recursionError
  | .ok (.dict record) => return some record
  | .ok _ => return none

/-- One line. -/
def Parse.stepLine (py : Interpreter) (parse : Parse) (line : RawLine × Nat) :
    Except Failure Parse := do
  let text ← readLine line.2 line.1
  match ← readRecord py line.2 text with
  | some record => parse.step py line.2 record
  | none => return parse

/-- `parse_transcript`. -/
def parseTranscript (py : Interpreter) (content : Content) : Except Failure ParsedTranscript := do
  let parse ← (content.lines.zipIdx 1).foldlM (Parse.stepLine py) Parse.start
  parse.finish

end TrustPortal.Transcript
