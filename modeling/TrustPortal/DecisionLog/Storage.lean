import TrustPortal.DecisionLog.Sync

/-!
# `TrustPortal.DecisionLog.Storage`: what the database refuses of an import

`importDecisionLog` computes the rows a call writes. The database takes them only when they fit
their columns, the rows they refer to exist, and `decision_log_transcripts_guard`, the trigger of
migrations 018 and 021, accepts the inserted versions. `Stored` has the checks of the table, `takes`
is those of one call, and `importStored` is the call with them: a refused write raises, and its
transaction is rolled back. `Refers` is what the callers see to: the submitter and the store object
of a call are ids of rows, and its commit is a commit's id.

The checks that a row of the importer always passes are left out. `parse_transcript` replaces NUL
characters and bounds an entry's message id and role (a role can be None), and `clean_metadata` cuts
the metadata to their columns' lengths.
-/

set_option autoImplicit false

namespace TrustPortal.DecisionLog

open TrustPortal.Sql
open TrustPortal.Audit

/-- The length of `decision_log_sessions.id`. -/
def SESSION_ID_LENGTH : Nat := 36

/-- `regexp_replace(path, '^.*/', '')`. -/
def pathBase (path : List Char) : List Char := (path.reverse.takeWhile fun c => c ≠ '/').reverse

/-- The guard's path rule: the file is `<timestamp>_<session id>.jsonl`, or its manifest. -/
def namesSession (path sid : String) : Bool :=
  let base := pathBase path.toList
  let base := (dropSuffix MANIFEST_SUFFIX base).getD base
  match dropSuffix JSONL_SUFFIX base with
  | none => false
  | some stem => stem.contains '_' && (stem.dropWhile fun c => c ≠ '_').drop 1 = sid.toList

/-- `decision_log_transcripts_guard` on INSERT. A repository import and a store import have no
submitter, a path, and a commit or a store object. -/
def versionGuard (sid : String) (version : Version) : Bool :=
  match version.sourcePath with
  | none => true
  | some path =>
      if version.submittedBy = none
          ∧ (version.sourceCommit ≠ none ∨ version.storeObjectId ≠ none) then
        namesSession path sid
      else true

/-- A text column refuses a NUL character. -/
def hasNul (text : Option String) : Bool := text.any fun s => s.toList.any fun c => c.toNat = 0

/-- The rows that a session's rows refer to: the ids of `team_members` and of
`evidence_store_objects`. -/
structure OtherRows where
  member : String → Bool
  object : String → Bool

/-- The length of `source_commit`. -/
def SOURCE_COMMIT_LENGTH : Nat := 64

/-- The foreign keys of a version, and the length of its commit. -/
def references (rows : OtherRows) (version : Version) : Bool :=
  version.submittedBy.all rows.member && version.storeObjectId.all rows.object
    && version.sourceCommit.all fun commit => commit.length ≤ SOURCE_COMMIT_LENGTH

/-- The submitter and the store object of a call are rows of the other tables, and its commit fits
its column. -/
structure Refers (rows : OtherRows) (call : ImportCall) : Prop where
  submitter : ∀ id, call.submittedBy = some id → rows.member id = true
  object : ∀ id, call.storeObjectId = some id → rows.object id = true
  commit : ∀ commit, call.sourceCommit = some commit → commit.length ≤ SOURCE_COMMIT_LENGTH

/-- The rows of a session are rows the tables hold: `role` is NOT NULL, an id has at most 36
characters, no text has a NUL character, and the submitter is a member. -/
structure Stored (rows : OtherRows) (sid : String) (record : SessionRecord) : Prop where
  roles : ∀ entry ∈ record.entries, entry.role ≠ none
  id : record.session ≠ none → sid.length ≤ SESSION_ID_LENGTH
  detail : ∀ session, record.session = some session → hasNul session.conflictDetail = false
  submitter : ∀ session, record.session = some session → session.submittedBy.all rows.member = true

/-- The database takes the rows that a call leaves. The versions it inserted are the last ones. -/
def takes (rows : OtherRows) (sid : String) (before after : SessionRecord) : Bool :=
  (after.session = before.session || sid.length ≤ SESSION_ID_LENGTH)
    && !hasNul (after.session.bind Session.conflictDetail)
    && (after.session.bind Session.submittedBy).all rows.member
    && (after.entries.all fun entry => entry.role.isSome)
    && (after.versions.drop before.versions.length).all fun version =>
        sid.length ≤ SESSION_ID_LENGTH && references rows version && versionGuard sid version

end TrustPortal.DecisionLog
