import TrustPortal.DecisionLog.Verify
import TrustPortal.EvidenceStore.Plans

/-!
# `TrustPortal.EvidenceStore.Sync`: a sync of the evidence store

A sync reads each version the portal has not recorded, or has recorded as an `error`, and
writes its record in a transaction of its own. `fetchVersion` reads a version from the store,
`writeVersion` writes it, `write` handles what a transaction raises, and `recordFailure` is the
record of a version that could not be read or written.

What the store and the other tables answer comes with the step: `Reply` for a read,
`Answers` for a transaction. A transaction can fail before it plans, before its statement or
after it, with any `Fault`. A commit that fails has not committed. The lost lock of the run
ends the sync.

The counts and lists a run reports are left out. The metadata, the content type and the ETag
of a `Head` are the ones `keys` and `_etag` keep, and its checksum is the one
`store.stored_checksum` reads.
-/

set_option autoImplicit false

namespace TrustPortal.EvidenceStore

open TrustPortal.Sql
open TrustPortal.Audit
open TrustPortal.DecisionLog (Tools ImportResult)

/-- `SIDECAR_LIMIT`. -/
def SIDECAR_LIMIT : Nat := 64 * 1024

/-- `MAX_ATTEMPTS`. -/
def MAX_ATTEMPTS : Nat := 3

/-- `MAX_DETAIL_TEXT`. -/
def MAX_DETAIL_TEXT : Nat := 1000

/-- `REEVALUATE_LIMIT`. -/
def REEVALUATE_LIMIT : Nat := 100

/-- `PENTEST_LIMIT`. -/
def PENTEST_LIMIT : Nat := 16 * 1024 * 1024

/-- `kind_limit`: the size limit of a kind's versions. -/
def kindLimit : Kind → Option Nat
  | .decisionLog => some DecisionLog.MAX_TRANSCRIPT_BYTES
  | .sidecar => some SIDECAR_LIMIT
  | .pentest => some PENTEST_LIMIT
  | .document => some (256 * 1024 * 1024)
  | .unmapped => none

/-- The content checks. `pentest` is `parse_json` and `check_pentest` of a key, a body and a
version id, with the text of a refusal. -/
structure Checks where
  tools : Tools
  pentest : String → String → String → Except String CheckedPentest

/-! ## Reading -/

/-- `ListedVersion`. -/
structure Listed where
  key : String
  versionId : String
  size : Nat
  lastModified : Option Int
  deriving DecidableEq, Repr

/-- `Recorded`: what the portal recorded of a version. -/
structure Recorded where
  id : String
  status : Status
  attempts : Nat
  deriving DecidableEq, Repr

/-- `CheckedDecisionLog`: the session and the metadata of a transcript that passed its check. -/
structure CheckedLog where
  sessionId : String
  exitReason : Option String
  agent : Option String
  deriving DecidableEq, Repr

/-- `Fetched`: a version, read from the store before its transaction. -/
structure Fetched where
  key : String
  versionId : String
  kind : Kind
  documentKind : Option String
  sessionId : Option String
  size : Nat
  etag : Option String
  lastModified : Option Int
  contentType : Option String
  metadata : List (String × String)
  notes : List String
  lockMode : Option String
  retainUntil : Option Int
  sha256 : Option String
  compositeChecksum : Option String
  status : Option Status
  exitReason : Option String
  agent : Option String
  importInfo : Option ImportInfo
  checkedPentest : Option CheckedPentest
  checkedLog : Option CheckedLog
  recordId : Option String
  attempts : Nat
  runId : Option String
  reevaluation : Bool
  deriving DecidableEq, Repr

/-- An error of a call to the store: `store.describe`'s text, `is_missing` and
`is_delete_marker`. -/
structure S3Error where
  cause : String
  missing : Bool
  deleteMarker : Bool
  deriving DecidableEq, Repr

/-- `StoredChecksum`. -/
structure StoredChecksum where
  sha256 : Option String
  composite : Option String
  problem : Option String
  deriving DecidableEq, Repr

/-- What `fetch_version` takes from a `HeadObject` response. -/
structure Head where
  contentLength : Option Nat
  etag : Option String
  lastModified : Option Int
  contentType : Option String
  metadata : List (String × String)
  notes : List String
  lockMode : Option String
  retainUntil : Option Int
  checksum : StoredChecksum
  deriving DecidableEq, Repr

/-- What a `GetObject` answers: the body in hexadecimal, a body that differs from its checksum,
or an error. -/
inductive BodyReply
  | bytes (content : String)
  | checksumMismatch
  | failed (error : S3Error)
  deriving DecidableEq, Repr

/-- What the first version of the sidecar answers. `fields` is none when it cannot be read. -/
structure SidecarReply where
  versionId : String
  size : Nat
  fields : Option (Option String × Option String)
  deriving DecidableEq, Repr

/-- What the store answers while one version is read. -/
structure Reply where
  head : Except S3Error Head
  body : BodyReply
  sidecar : Option SidecarReply

/-- `new_fetched`. -/
def newFetched (version : Listed) (recorded : Option Recorded) (runId : Option String) :
    Fetched :=
  let classified := classify version.key
  { key := version.key
    versionId := version.versionId
    kind := classified.kind
    documentKind := classified.documentKind
    sessionId := classified.sessionId
    size := version.size
    etag := none
    lastModified := version.lastModified
    contentType := none
    metadata := []
    notes := classified.detail.toList
    lockMode := none
    retainUntil := none
    sha256 := none
    compositeChecksum := none
    status := none
    exitReason := none
    agent := none
    importInfo := none
    checkedPentest := none
    checkedLog := none
    recordId := recorded.map Recorded.id
    attempts := (recorded.map Recorded.attempts).getD 0
    runId := runId
    reevaluation := false }

/-- A read of a body within a limit. -/
inductive BodyRead
  | body (content : String)
  | tooLarge
  | mismatch
  | failed (error : S3Error)

/-- `read_version` and `hash_version`: a body over the limit is not read to its end. -/
def readBody (limit : Nat) : BodyReply → BodyRead
  | .bytes content => if limit < content.length / 2 then .tooLarge else .body content
  | .checksumMismatch => .mismatch
  | .failed error => .failed error

/-- `BODY_MISMATCH`. -/
def BODY_MISMATCH : String := "the body's SHA-256 differs from its stored checksum"

/-- The note for a body over its kind's limit. -/
def tooLargeNote (kind : Kind) (limit : Nat) : String :=
  s!"the body is larger than the {kind.name} limit of {limit} bytes"

/-- A version with an outcome that needs no import, and why. -/
def Fetched.decided (fetched : Fetched) (status : Status) (note : String) : Fetched :=
  { fetched with status := some status, notes := fetched.notes ++ [note] }

/-- `_hash_non_conforming`. -/
def hashNonConforming (checks : Checks) (fetched : Fetched) (body : BodyReply) :
    Fetched × Option S3Error :=
  match kindLimit fetched.kind with
  | none => (fetched, none)
  | some limit =>
      if limit < fetched.size then (fetched, none)
      else
        match readBody limit body with
        | .body content =>
            ({ fetched with
                sha256 := some (checks.tools.sha.hexOfBytes content)
                notes := fetched.notes ++ ["SHA-256 computed from the body"] }, none)
        | .tooLarge => ({ fetched with notes := fetched.notes ++ [tooLargeNote fetched.kind limit] },
            none)
        | .mismatch => (fetched, some ⟨"FlexibleChecksumError", false, false⟩)
        | .failed error => (fetched, some error)

/-- `check_pentest_content`. -/
def checkPentestContent (checks : Checks) (fetched : Fetched) (content : String) : Fetched :=
  match checks.pentest fetched.key content fetched.versionId with
  | .ok checked => { fetched with checkedPentest := some checked }
  | .error reason => fetched.decided .rejected ("not imported: " ++ reason)

/-- `check_decision_log_content`. -/
def checkDecisionLogContent (checks : Checks) (fetched : Fetched) (content : String) : Fetched :=
  match DecisionLog.checkDecisionLog checks.tools (fetched.sessionId.getD "") content with
  | .ok _ =>
      { fetched with
        checkedLog := some ⟨fetched.sessionId.getD "",
          DecisionLog.cleanMetadata 50 fetched.exitReason, fetched.agent⟩ }
  | .error (.tooLarge message) =>
      fetched.decided .tooLarge ("transcript over a decision-log limit: " ++ DecisionLog.display 300 message)
  | .error (.rejected message) => fetched.decided .rejected ("not imported: " ++ DecisionLog.display 300 message)

/-- `_sidecar_fields`. -/
def sidecarFields (key : String) :
    Option SidecarReply → Option String × Option String × Option SidecarInfo
  | none => (none, none, none)
  | some reply =>
      if SIDECAR_LIMIT < reply.size then (none, none, some ⟨sidecarKey key, reply.versionId, false⟩)
      else
        match reply.fields with
        | some (exitReason, agent) =>
            (exitReason, agent, some ⟨sidecarKey key, reply.versionId, true⟩)
        | none => (none, none, some ⟨sidecarKey key, reply.versionId, false⟩)

/-- Python's `a or b` of two texts that may be None. -/
def orElseText (a b : Option String) : Option String := if truthy a then a else b

/-- The exit reason and the agent of a transcript: its metadata, else its sidecar. -/
def readSidecar (fetched : Fetched) (sidecar : Option SidecarReply) : Fetched :=
  let exitReason := fetched.metadata.lookup "exit-reason"
  let agent := fetched.metadata.lookup "agent"
  if exitReason = none ∨ agent = none then
    let (exitReason', agent', info) := sidecarFields fetched.key sidecar
    { fetched with
      exitReason := orElseText exitReason exitReason'
      agent := orElseText agent agent'
      importInfo :=
        match info with
        | some info => some { ImportInfo.empty with sidecar := some info }
        | none => fetched.importInfo }
  else { fetched with exitReason := exitReason, agent := agent }

/-- The record of a `HeadObject` response. -/
def Fetched.withHead (fetched : Fetched) (version : Listed) (head : Head) : Fetched :=
  { fetched with
    size := head.contentLength.getD version.size
    etag := head.etag
    lastModified := if head.lastModified = none then version.lastModified else head.lastModified
    contentType := head.contentType
    metadata := head.metadata
    notes := fetched.notes ++ head.notes
    lockMode := head.lockMode
    retainUntil := head.retainUntil
    sha256 := head.checksum.sha256
    compositeChecksum := head.checksum.composite }

/-- What the body of a version decides, once it is read. -/
def checkBody (checks : Checks) (fetched : Fetched) (content : String)
    (sidecar : Option SidecarReply) : Fetched :=
  let digest := checks.tools.sha.hexOfBytes content
  let size := content.length / 2
  let stored := fetched.size
  if fetched.compositeChecksum = none ∧ some digest ≠ fetched.sha256 then
    { fetched.decided .nonConforming BODY_MISMATCH with sha256 := some digest }
  else if size ≠ stored then
    { fetched.decided .nonConforming s!"the body is {size} bytes, not the stored {stored}" with
      sha256 := some digest }
  else
    let fetched := { fetched with sha256 := some digest }
    match fetched.kind with
    | .sidecar => { fetched with status := some .recorded }
    | .pentest => checkPentestContent checks fetched content
    | .decisionLog => checkDecisionLogContent checks (readSidecar fetched sidecar) content
    | _ => fetched

/-- `fetch_version`: what was read, and the error that ended it. -/
def fetchVersion (checks : Checks) (version : Listed) (start : Fetched) (reply : Reply) :
    Fetched × Option S3Error :=
  match reply.head with
  | .error error => (start, some error)
  | .ok head =>
      let fetched := start.withHead version head
      match head.checksum.problem with
      | some problem =>
          hashNonConforming checks (fetched.decided .nonConforming problem) reply.body
      | none =>
          match kindLimit fetched.kind with
          | none => ({ fetched with status := some .recorded }, none)
          | some limit =>
              let size := max fetched.size version.size
              if limit < size then
                (fetched.decided .tooLarge
                  (s!"{size} bytes; the {fetched.kind.name} limit is {limit} bytes (not read)"), none)
              else
                match readBody limit reply.body with
                | .tooLarge => (fetched.decided .tooLarge (tooLargeNote fetched.kind limit), none)
                | .mismatch => (fetched.decided .nonConforming BODY_MISMATCH, none)
                | .failed error => (fetched, some error)
                | .body content => (checkBody checks fetched content reply.sidecar, none)

end TrustPortal.EvidenceStore
