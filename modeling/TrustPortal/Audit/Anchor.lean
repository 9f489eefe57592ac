import TrustPortal.Audit.Trigger

/-!
# `TrustPortal.Audit.Anchor`: `audit_log_insert_anchor` of migration 016

An archived chain is continued by an ANCHOR row, the first row of an empty table. The row
names the head of the archived chain as its previous hash, and its details name the archive
and its manifest. `insertAnchor` is the function's body: the checks of its arguments in their
order, the check that the table is empty, and the row with the hash of its text.

The regular expressions are those of the source. `[[:cntrl:]]` is read as the C0 and C1
control characters.
-/

set_option autoImplicit false

namespace TrustPortal.Audit

open TrustPortal.Sql

/-- The arguments of `audit_log_insert_anchor`, with `session_user`, `now()` in microseconds
and the number of ids the sequence skipped. -/
structure AnchorCall where
  archiveId : Option String
  archiveSha256 : Option String
  archivedChainHead : Option String
  archivedEntries : Option Int
  manifestKey : Option String
  manifestSha256 : Option String
  note : Option String
  sessionUser : String
  now : Int
  gap : Nat

/-- What `audit_log_insert_anchor` raises: one of its own exceptions, or that of the
`INSERT`. -/
inductive AnchorError
  | raised (message : String)
  | insert (error : TriggerError)
  deriving DecidableEq, Repr

/-- A character of the class `[[:cntrl:]]`. -/
def isControl (c : Char) : Bool :=
  decide (c.toNat < 32) || (decide (127 ≤ c.toNat) && decide (c.toNat < 160))

/-- `p_manifest_key ~ '^archives/[^[:cntrl:]]+[.]manifest[.]json$'`. -/
def isManifestKey (key : String) : Bool :=
  let chars := key.toList
  let start := "archives/".toList
  let ending := ".manifest.json".toList
  start.isPrefixOf chars && ending.isSuffixOf chars
    && decide (start.length + ending.length < chars.length)
    && ((chars.drop start.length).take (chars.length - start.length - ending.length)).all
      fun c => !isControl c

/-- A text of a `jsonb_build_object` value: a string, or null. -/
def jsonText : Option String → Json
  | none => .null
  | some s => .string s

/-- The details of the anchor, in `jsonb` order: shorter names first. -/
def anchorDetails (call : AnchorCall) : Members :=
  [("note", jsonText call.note),
    ("archive_id", jsonText call.archiveId),
    ("anchored_by", .string call.sessionUser),
    ("archive_sha256", jsonText call.archiveSha256),
    ("archived_entries", match call.archivedEntries with
      | none => .null
      | some entries => .number entries 0),
    ("archived_chain_head", jsonText call.archivedChainHead),
    ("archive_manifest_key", jsonText call.manifestKey),
    ("archive_manifest_sha256", jsonText call.manifestSha256)]

/-- `row_data` of the anchor. -/
def anchorData (head recId : String) (now : Timestamptz) (details : String) : Option String :=
  textCat (textCat (textCat (textCat (textCat (textCat (textCat (some head) (some "audit_log"))
    (some recId)) (some "ANCHOR")) (some "")) (toCharUtc now)) (some "")) (some details)

/-- The arguments that passed their checks. -/
structure AnchorArgs where
  archiveId : String
  archiveSha256 : String
  chainHead : String
  manifestKey : String
  manifestSha256 : String

/-- A text argument that must satisfy a test. -/
def required (value : Option String) (test : String → Bool) (message : String) :
    Except AnchorError String :=
  match value with
  | none => .error (.raised message)
  | some s => if test s then .ok s else .error (.raised message)

/-- The checks of the arguments. -/
def checkAnchor (call : AnchorCall) : Except AnchorError AnchorArgs := do
  let archiveId ← required call.archiveId (fun s => decide (s.length ≠ 0) && decide (s.length ≤ 36))
    "archive id must be 1-36 characters"
  let archiveSha256 ← required call.archiveSha256 (fun s => decide (IsHexDigest s))
    "archive sha256 must be 64 lowercase hex characters"
  let chainHead ← required call.archivedChainHead (fun s => decide (IsHexDigest s))
    "archived chain head must be 64 lowercase hex characters"
  let manifestKey ← required call.manifestKey
    (fun s => decide (s.length ≤ 1024) && isManifestKey s)
    "manifest key must be archives/<chain id>/<name>.manifest.json"
  let manifestSha256 ← required call.manifestSha256 (fun s => decide (IsHexDigest s))
    "manifest sha256 must be 64 lowercase hex characters"
  return ⟨archiveId, archiveSha256, chainHead, manifestKey, manifestSha256⟩

/-- `audit_log_insert_anchor`. The result is the ANCHOR row. -/
def insertAnchor (sha : Sha256) (log : AuditLog) (call : AnchorCall) :
    Except AnchorError (NewRow log) := do
  let args ← checkAnchor call
  if log.rows ≠ [] then
    throw (.raised "audit_log is not empty: an anchor must be the first row of the chain")
  let details := (anchorDetails call).text
  let now := Timestamptz.micros call.now
  let data := anchorData args.chainHead args.archiveId now details
  match insertRow log call.gap "audit_log" (some args.archiveId) "ANCHOR" none (some details) none
      now args.chainHead (data.map sha.hexOfText) with
  | .ok row => return row
  | .error e => throw (.insert e)

end TrustPortal.Audit
