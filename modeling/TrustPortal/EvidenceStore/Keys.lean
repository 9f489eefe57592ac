import TrustPortal.DecisionLog.Import

/-!
# `TrustPortal.EvidenceStore.Keys`: the keys of the evidence store

`classify` says what an object's key is: a decision log, its sidecar, a pentest file, a
document, or none of them. `storedKey` is the form a key is recorded in and `rawKey` gives the
key back.

A key is a text without unpaired surrogates. The Unicode category `Cc` is U+0000 to U+001F and
U+007F to U+009F.
-/

set_option autoImplicit false

namespace TrustPortal.EvidenceStore

/-- The kind of a recorded version. -/
inductive Kind
  | decisionLog
  | sidecar
  | pentest
  | document
  | unmapped
  deriving DecidableEq, Repr

/-- The kind's name, `KINDS`. -/
def Kind.name : Kind → String
  | .decisionLog => "decision_log"
  | .sidecar => "decision_log_sidecar"
  | .pentest => "pentest_evidence"
  | .document => "evidence_document"
  | .unmapped => "unmapped"

/-- `DOCUMENT_PREFIXES`: the prefix of each document kind. -/
def DOCUMENT_PREFIXES : List (String × String) :=
  [("codex-reviews/", "code-review"), ("pentest-reports/", "pentest-report"),
    ("evidence/artifacts/", "evidence-artifact")]

/-- `MAX_KEY_BYTES`. -/
def MAX_KEY_BYTES : Nat := 1024

/-- `_control`: the category `Cc`. -/
def control (c : Char) : Bool :=
  decide (c.toNat < 0x20) || (decide (0x7f ≤ c.toNat) && decide (c.toNat ≤ 0x9f))

/-- A hexadecimal digit in upper case. -/
def upperHex (n : Nat) : Char :=
  if n < 10 then Char.ofNat (48 + n) else Char.ofNat (55 + n)

/-- `%XX` for a character below U+0100. -/
def percentEncoded (c : Char) : List Char :=
  ['%', upperHex (c.toNat / 16), upperHex (c.toNat % 16)]

/-- `stored_key`: the key as recorded, and whether it is escaped. -/
def storedKey (key : String) : String × Bool :=
  if key.toList.any control then
    (String.ofList (key.toList.flatMap fun c =>
      if c = '%' ∨ control c = true then percentEncoded c else [c]), true)
  else (key, false)

/-- The value of a hexadecimal digit in upper case. -/
def upperHexValue (c : Char) : Option Nat :=
  if '0' ≤ c ∧ c ≤ '9' then some (c.toNat - 48)
  else if 'A' ≤ c ∧ c ≤ 'F' then some (c.toNat - 55)
  else none

/-- `_ESCAPED_RE.sub`: each `%XX` is replaced by its character. -/
def unescape : List Char → List Char
  | c :: a :: b :: rest =>
      match upperHexValue a, upperHexValue b with
      | some high, some low =>
          if c = '%' then Char.ofNat (16 * high + low) :: unescape rest
          else c :: unescape (a :: b :: rest)
      | _, _ => c :: unescape (a :: b :: rest)
  | c :: rest => c :: unescape rest
  | [] => []

/-- `raw_key`. -/
def rawKey (key : String) (escaped : Bool) : String :=
  if escaped then String.ofList (unescape key.toList) else key

/-- `key_problem`: why a key is not a clean relative path. -/
def keyProblem (key : String) : Option String :=
  if key = "" then some "the key is empty"
  else if MAX_KEY_BYTES < key.utf8ByteSize then some "the key is longer than 1,024 bytes"
  else if "/".toList.isPrefixOf key.toList then some "the key starts with /"
  else if key.toList.contains '\\' then some "the key contains a backslash"
  else if key.toList.any control then some "the key contains a control character"
  else if (key.toList.splitOn '/').any fun segment => [[], ['.'], ['.', '.']].contains segment then
    some "the key has an empty, . or .. segment"
  else none

/-- What a key is. -/
structure Classified where
  kind : Kind
  documentKind : Option String
  sessionId : Option String
  detail : Option String
  deriving DecidableEq, Repr

/-- A key of no kind. -/
def Classified.unmapped (detail : String) : Classified := ⟨.unmapped, none, none, some detail⟩

/-- The number a run of ASCII digits writes. -/
def digitsValue (digits : List Char) : Nat :=
  digits.foldl (fun n c => 10 * n + (c.toNat - 48)) 0

/-- The days of a month. -/
def daysInMonth (year month : Nat) : Nat :=
  if month = 2 then
    if year % 4 = 0 ∧ (year % 100 ≠ 0 ∨ year % 400 = 0) then 29 else 28
  else if month = 4 ∨ month = 6 ∨ month = 9 ∨ month = 11 then 30 else 31

/-- The form of `TIMESTAMP_FORMAT`, with a `0` for each digit. -/
def timestampShape : List Char := "0000-00-00T000000Z".toList

/-- The characters of a timestamp: a digit where the form has a `0`, else the form's own. -/
def timestampShaped (text : List Char) : Bool :=
  text.length = timestampShape.length
    && (text.zip timestampShape).all fun (c, shape) =>
      if shape = '0' then c.isDigit else c = shape

/-- `datetime.strptime` accepts a text of the form: it is a date and a time of the day. -/
def realTimestamp (text : List Char) : Bool :=
  let year := digitsValue (text.take 4)
  let month := digitsValue ((text.drop 5).take 2)
  let day := digitsValue ((text.drop 8).take 2)
  1 ≤ year && 1 ≤ month && month ≤ 12 && 1 ≤ day && day ≤ daysInMonth year month
    && digitsValue ((text.drop 11).take 2) < 24 && digitsValue ((text.drop 13).take 2) < 60
    && digitsValue ((text.drop 15).take 2) < 60

/-- `[A-Za-z0-9._-]`. -/
def sessionChar (c : Char) : Bool :=
  c.isAlphanum || c = '.' || c = '_' || c = '-'

/-- `_decision_log_match`: the session id of `decision-logs/<timestamp>_<session id><suffix>`
when the timestamp is a real one. -/
def decisionLogMatch (suffix : String) (key : String) : Option String :=
  let start := "decision-logs/".toList
  let chars := key.toList
  let stem := chars.drop start.length
  let timestamp := stem.take timestampShape.length
  let rest := stem.drop timestampShape.length
  let session := (rest.drop 1).take (rest.length - 1 - suffix.length)
  if start.isPrefixOf chars && timestampShaped timestamp && rest.head? = some '_'
      && suffix.toList.isSuffixOf (rest.drop 1) && 1 ≤ session.length && session.length ≤ 100
      && session.all sessionChar && realTimestamp timestamp then
    some (String.ofList session)
  else none

/-- `PENTEST_RE.match`: `pentest-evidence/layer<1-9>/<name>.json`. -/
def pentestMatch (key : String) : Bool :=
  let start := "pentest-evidence/layer".toList
  let chars := key.toList
  let rest := chars.drop start.length
  let file := rest.drop 2
  let name := file.take (file.length - ".json".length)
  start.isPrefixOf chars && (rest.head?.any fun c => '1' ≤ c && c ≤ '9')
    && (rest.drop 1).head? = some '/' && ".json".toList.isSuffixOf file
    && 1 ≤ name.length && name.length ≤ 200 && name.all (· ≠ '/')

/-- `classify`. -/
def classify (key : String) : Classified :=
  match keyProblem key with
  | some problem => .unmapped problem
  | none =>
      match decisionLogMatch ".jsonl" key with
      | some sessionId => ⟨.decisionLog, none, some sessionId, none⟩
      | none =>
          if (decisionLogMatch ".meta.json" key).isSome then ⟨.sidecar, none, none, none⟩
          else if pentestMatch key then ⟨.pentest, none, none, none⟩
          else
            match DOCUMENT_PREFIXES.find? fun entry =>
              entry.1.toList.isPrefixOf key.toList && entry.1.length < key.length with
            | some entry => ⟨.document, some entry.2, none, none⟩
            | none =>
                if "decision-logs/".toList.isPrefixOf key.toList then
                  .unmapped ("not a decision-log key "
                    ++ "(<YYYY-MM-DD>T<HHMMSS>Z_<session id>.jsonl or .meta.json)")
                else if "pentest-evidence/".toList.isPrefixOf key.toList then
                  .unmapped "not a pentest-evidence key (layer<1-9>/<name>.json)"
                else .unmapped "no evidence-store kind maps this key"

example : (classify "pentest-evidence/layer1/scan.json").kind = .pentest := by decide +kernel

/-- `sidecar_key`. -/
def sidecarKey (transcriptKey : String) : String :=
  String.ofList (transcriptKey.toList.take (transcriptKey.length - ".jsonl".length))
    ++ ".meta.json"

end TrustPortal.EvidenceStore
