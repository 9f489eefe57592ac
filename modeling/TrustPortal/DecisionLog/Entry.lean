import TrustPortal.Audit.Log

/-!
# `TrustPortal.DecisionLog.Entry`: transcript entries, their digest and their comparison

A session's stored entries are compared with the entries of a new export in order, and both
are hashed in a canonical form. `canonicalEntry` is that form, `Hasher` a `hashlib.sha256()`
object, `entriesDigest` the digest of a version's entries, and `compareWithStored` the
comparison.

A timestamp is an instant in UTC, in microseconds since 1970. The source stores it without a
zone and compares it as UTC. An entry's text has no unpaired surrogate, so `clean_text` and
`escape_surrogates` have nothing to replace but the NUL character.

`Tools` is what the import calls outside the database: the hash, `gzip`, `json.loads` and
`parse_transcript`. The bytes of a transcript are written in hexadecimal.
-/

set_option autoImplicit false

namespace TrustPortal.DecisionLog

open TrustPortal.Sql
open TrustPortal.Audit

/-- One entry: the columns `_ENTRY_COLUMNS`. `parse_transcript` can leave the role None, which
the column refuses. -/
structure Entry where
  role : Option String
  contentText : Option String
  toolCalls : Option String
  timestamp : Option Int
  messageId : Option String
  isVerification : Bool
  deriving DecidableEq, Repr

/-- `ParsedTranscript`. -/
structure ParsedTranscript where
  entries : List Entry
  model : Option String
  cwd : Option String
  gitBranch : Option String
  startedAt : Option Int
  endedAt : Option Int
  agentType : String
  deriving DecidableEq, Repr

/-- What `parse_transcript` raises. -/
inductive TranscriptError
  | invalid (message : String)
  | limit (message : String)
  deriving DecidableEq, Repr

/-- What the import calls outside the database. `gzipText` compresses a text's UTF-8 and
`gzipBytes` bytes in hexadecimal. -/
structure Tools where
  sha : Sha256
  gzipText : String → String
  gzipBytes : String → String
  loads : String → Option Json
  parse : String → Except TranscriptError ParsedTranscript

/-- `datetime.isoformat()` of an instant in UTC. -/
def isoformat (us : Int) : String :=
  let (year, month, day) := civilFromDays (us / 86400000000)
  let time := (us % 86400000000).toNat
  let fraction := if time % 1000000 = 0 then "" else "." ++ zeroPad 6 (time % 1000000)
  yearText year ++ "-" ++ zeroPad 2 month ++ "-" ++ zeroPad 2 day
    ++ "T" ++ zeroPad 2 (time / 3600000000) ++ ":" ++ zeroPad 2 (time / 60000000 % 60)
    ++ ":" ++ zeroPad 2 (time / 1000000 % 60) ++ fraction ++ "+00:00"

/-- `json.dumps` of a text or None. -/
def dumpsText (text : Option String) : String :=
  match text with
  | some s => Json.quote s
  | none => "null"

/-- `_canonical_entry`: a compact JSON array and a newline. -/
def canonicalEntry (entry : Entry) : String :=
  "[" ++ String.intercalate "," [dumpsText entry.role, dumpsText entry.contentText,
    dumpsText entry.toolCalls, dumpsText (entry.timestamp.map isoformat),
    dumpsText entry.messageId, if entry.isVerification then "true" else "false"] ++ "]\n"

/-- A `hashlib.sha256()` object: the text it was fed with. -/
structure Hasher where
  fed : String
  deriving DecidableEq, Repr

namespace Hasher

/-- `hashlib.sha256()`. -/
def new : Hasher := ⟨""⟩

/-- `digest.update(text)`. -/
def update (digest : Hasher) (text : String) : Hasher := ⟨digest.fed ++ text⟩

/-- `digest.update` with each entry in turn. -/
def updateEntries (digest : Hasher) (entries : List Entry) : Hasher :=
  entries.foldl (fun digest entry => digest.update (canonicalEntry entry)) digest

/-- `digest.hexdigest()`. -/
def hexdigest (sha : Sha256) (digest : Hasher) : String := sha.hexOfText digest.fed

end Hasher

/-- `entries_digest`, which `stored_entries_digest` repeats over the stored rows. -/
def entriesDigest (sha : Sha256) (entries : List Entry) : String :=
  (Hasher.new.updateEntries entries).hexdigest sha

/-- `str.isascii()`. -/
def isAscii (text : String) : Bool := text.toList.all fun c => decide (c.toNat < 128)

/-- `"\\u" in stored`. -/
def hasEscape : List Char → Bool
  | '\\' :: 'u' :: _ => true
  | _ :: rest => hasEscape rest
  | [] => false

/-- `same_tool_calls`: equal text, or stored in the earlier form, which escaped every
character outside ASCII. -/
def sameToolCalls (tools : Tools) (stored parsed : Option String) : Bool :=
  if stored = parsed then true
  else
    match stored, parsed with
    | some s, some p =>
        if !isAscii s || !hasEscape s.toList || isAscii p then false
        else (tools.loads s).map Json.text == some p
    | _, _ => false

/-- `_same_entry`. -/
def sameEntry (tools : Tools) (stored parsed : Entry) : Bool :=
  if stored = parsed then true
  else
    decide (stored.role = parsed.role ∧ stored.contentText = parsed.contentText
      ∧ stored.timestamp = parsed.timestamp ∧ stored.messageId = parsed.messageId
      ∧ stored.isVerification = parsed.isVerification)
    && sameToolCalls tools stored.toolCalls parsed.toolCalls

/-- `_Comparison`. `kept` is its `prefix`: a SHA-256 object over the stored entries before the
difference, or before the shorter length when there is none. -/
structure Comparison where
  stored : Nat
  difference : Option Nat
  kept : Hasher
  storedSha256 : String

/-- `digest_with`: the digest of the kept stored entries followed by parsed ones. -/
def Comparison.digestWith (sha : Sha256) (comparison : Comparison) (entries : List Entry) :
    String := (comparison.kept.updateEntries entries).hexdigest sha

/-- The variables of the loop in `_compare_with_stored`. -/
structure CompareState where
  count : Nat
  difference : Option Nat
  kept : Option Hasher
  digest : Hasher

/-- The body of the loop, for one stored row. -/
def compareRow (tools : Tools) (entries : List Entry) (state : CompareState) (row : Entry) :
    CompareState :=
  let checked :=
    match state.kept with
    | some _ => state
    | none =>
        match entries[state.count]? with
        | none => { state with kept := some state.digest }
        | some entry =>
            if sameEntry tools row entry then state
            else { state with difference := some state.count, kept := some state.digest }
  { checked with
      digest := checked.digest.update (canonicalEntry row)
      count := checked.count + 1 }

/-- The loop over the stored rows. -/
def compareRows (tools : Tools) (entries rows : List Entry) : CompareState :=
  rows.foldl (compareRow tools entries) ⟨0, none, none, Hasher.new⟩

/-- `_compare_with_stored`. -/
def compareWithStored (tools : Tools) (rows entries : List Entry) : Comparison :=
  let state := compareRows tools entries rows
  ⟨state.count, state.difference, state.kept.getD state.digest, state.digest.hexdigest tools.sha⟩

/-- `_latest_stored_timestamp`: `max(timestamp)`, NULL without a timestamp. -/
def latestStoredTimestamp (rows : List Entry) : Option Int :=
  (rows.filterMap Entry.timestamp).max?

/-- `_first_backdated`: the first entry from `start` on with a timestamp before `latest`. -/
def firstBackdated (entries : List Entry) (start : Nat) (latest : Int) : Option Nat :=
  ((entries.drop start).findIdx? fun entry =>
    match entry.timestamp with
    | some timestamp => decide (timestamp < latest)
    | none => false).map (start + ·)

end TrustPortal.DecisionLog
