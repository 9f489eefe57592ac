import TrustPortal.DecisionLog.Sync
import Mathlib.Data.List.Sort

/-!
# `TrustPortal.DecisionLog.Verify`: the checks of a stored session

`checkSession` is `_check_session`: it holds a session's versions, in the order received,
against the stored entries and against what the audit log recorded of them.
`checkHistory` looks at one version's audit rows and `conflictStep` at one step from a
version to its successor. `postgres` says that there is an audit log.

`finishDecisionLog` is the check of an object's recorded outcome by the verification of the
evidence store.
-/

set_option autoImplicit false

namespace TrustPortal.DecisionLog

open TrustPortal.Sql
open TrustPortal.Audit

/-- A reported issue. -/
structure Issue where
  versionId : String
  message : String
  deriving DecidableEq, Repr

/-- `issue(version, message)` when the condition holds. -/
def issueWhen (condition : Bool) (version : Version) (message : String) : List Issue :=
  if condition then [⟨version.id, message⟩] else []

/-- `CONFLICT_PREFIX`. -/
def CONFLICT_PREFIX : String := "repository conflict:"

/-- A version of the history: `current` or `superseded`. -/
def Version.inHistory (version : Version) : Bool := version.status ≠ .rejected

/-- `ORDER BY received_at, id`. -/
def Version.receivedBefore (a b : Version) : Bool :=
  a.receivedAt < b.receivedAt || (a.receivedAt = b.receivedAt && a.id ≤ b.id)

/-- The versions of a session's history, in the order received. -/
def historyVersions (record : SessionRecord) : List Version :=
  (record.versions.filter Version.inHistory).insertionSort fun a b => a.receivedBefore b = true

/-- `_history` of one version: its audit rows, in id order. -/
def historyOf (record : SessionRecord) (version : Version) : List VersionEvent :=
  record.versionEvents.filter fun event => event.recordId = version.id

/-- `_check_history`. -/
def checkHistory (tools : Tools) (version : Version) (first : Bool)
    (events : List VersionEvent) : List Issue :=
  match events with
  | [] => [⟨version.id, "the audit log has no record of this version's creation"⟩]
  | created :: changes =>
      if created.action ≠ .insert then
        [⟨version.id, "the audit log has no record of this version's creation"⟩]
      else
        let digests := (events.map VersionEvent.digest).filter truthy
        let recorded :=
          issueWhen (truthy version.entriesSha256
              && digests.head? ≠ some version.entriesSha256) version
            "the version's digest is not the one the audit log recorded"
          ++ issueWhen (created.count ≠ none && created.count ≠ some version.entryCount) version
            "the version's entry count is not the one the audit log recorded"
        let (allowed, supersededBy) :=
          if created.status = .current then
            (decide (changes.length ≤ 1) && changes.all fun event =>
              event.action = .update && event.status = .superseded, changes.getLast?)
          else (created.status = .superseded && first && changes.isEmpty, some created)
        if !allowed then
          recorded ++ [⟨version.id,
            "the version changed after it was recorded (versions are history)"⟩]
        else if version.status = .superseded then
          match supersededBy with
          | none => recorded ++ [⟨version.id,
              "the version is superseded but the audit log never recorded it so"⟩]
          | some event =>
              recorded ++ issueWhen (version.contentGz ≠ none
                  && event.content ≠ contentDigest tools version.contentGz) version
                "the superseded version's content is not the one the audit log recorded"
        else recorded

/-- `_conflict_times`. -/
def conflictTimes (record : SessionRecord) : List Int :=
  (record.sessionEvents.filter fun event =>
    event.new ≠ none && event.old ≠ some event.new).map SessionEvent.changedAt

/-- The supersession, the successor's creation and the session's conflict were recorded in
one transaction. -/
def oneTransaction (record : SessionRecord) (version successor : Version) : Bool :=
  let superseded := (((historyOf record version).drop 1).filter fun event =>
    event.status = .superseded).map VersionEvent.changedAt
  let created := (((historyOf record successor).take 1).filter fun event =>
    event.action = .insert).map VersionEvent.changedAt
  match superseded.getLast?, created.head? with
  | some changed, some start => changed = start && (conflictTimes record).contains start
  | _, _ => false

/-- `(reason or "").startswith(CONFLICT_PREFIX)`. -/
def Version.conflictReason (version : Version) : Bool :=
  CONFLICT_PREFIX.toList.isPrefixOf (version.reason.getD "").toList

/-- `_conflict_step`: a genuine repository conflict, and the issues it reports. -/
def conflictStep (postgres : Bool) (record : SessionRecord) (version successor : Version) :
    Bool × List Issue :=
  if version.status ≠ .superseded || !version.conflictReason then (false, [])
  else if !truthy successor.sourcePath || successor.submittedBy ≠ none then
    (false, [⟨version.id,
      "a repository-conflict step whose successor is not a repository import"⟩])
  else if successor.storeObjectId ≠ none then
    (false, [⟨version.id,
      "a repository-conflict step whose successor is a store import (the evidence store never "
        ++ "replaces entries)"⟩])
  else if postgres && !oneTransaction record version successor then
    (false, [⟨version.id,
      "a repository-conflict step not recorded as one repository import "
        ++ "(supersession, successor and session conflict in one transaction)"⟩])
  else (true, [])

/-- The name of a status. -/
def ObjectStatus.name : ObjectStatus → String
  | .ingested => "ingested"
  | .unchanged => "unchanged"
  | .rejected => "rejected"
  | .tooLarge => "too_large"
  | .error => "error"
  | .erased => "erased"

/-- `STORE_IMPORTED`. -/
def STORE_IMPORTED : List ObjectStatus := [.ingested, .erased]

/-- The checks of one version by itself: its content and its store object. -/
def checkVersion (db : Database) (version : Version) : List Issue :=
  let objectStatus := (version.storeObjectId.bind db.objects).map StoreObject.status
  let shown := (objectStatus.map ObjectStatus.name).getD "no record"
  issueWhen (version.status = .superseded && (version.contentGz = none || !truthy version.reason))
      version "the superseded version has no content or reason"
    ++ issueWhen (version.storeObjectId ≠ none
        && !(objectStatus.any fun status => STORE_IMPORTED.contains status)) version
      s!"the version names a store object that is not recorded as imported ({shown})"

/-- `compare_prefix` at one count. -/
def comparePrefix (tools : Tools) (wanted : List Version) (count : Nat) (digest : Hasher) :
    List Issue :=
  (wanted.filter fun version => version.entryCount = count).flatMap fun version =>
    issueWhen (some (digest.hexdigest tools.sha) ≠ version.entriesSha256) version
      "the superseded version is not a prefix of the current entries"

/-- The loop over the stored rows. -/
def scanPrefixes (tools : Tools) (wanted : List Version) (count : Nat) (digest : Hasher) :
    List Entry → List Issue
  | [] => comparePrefix tools wanted count digest
  | row :: rest =>
      comparePrefix tools wanted count digest
        ++ scanPrefixes tools wanted (count + 1) (digest.update (canonicalEntry row)) rest

/-- The versions that are longer than the stored entries, grouped by their count. -/
def missingVersions (wanted : List Version) (count : Nat) : List Issue :=
  ((wanted.map Version.entryCount).eraseDups.filter fun length => count < length).flatMap
    fun length => (wanted.filter fun version => version.entryCount = length).map fun version =>
      ⟨version.id, "the superseded version is longer than the current entries"⟩

/-- The number of flags up to the last one that is set: `last_conflict + 1`. -/
def afterLast (flags : List Bool) : Nat :=
  flags.length - (flags.reverse.takeWhile fun flag => !flag).length

/-- The checks of the stored entries: the superseded versions since the last conflict are
prefixes, and the current version's digest is theirs. -/
def checkEntries (tools : Tools) (record : SessionRecord) (versions : List Version)
    (start : Nat) (head : Version) : List Issue :=
  let wanted := ((versions.drop start).dropLast).filter fun version =>
    version.status = .superseded && truthy version.entriesSha256
  let count := record.entries.length
  let digest := entriesDigest tools.sha record.entries
  scanPrefixes tools wanted 0 Hasher.new record.entries
    ++ missingVersions wanted count
    ++ issueWhen (truthy head.entriesSha256
        && !(count = head.entryCount && some digest = head.entriesSha256)) head
      "stored entries differ from the version's recorded digest"

/-- `zip(versions, versions[1:])`. -/
def versionSteps (versions : List Version) : List (Version × Version) :=
  versions.zip (versions.drop 1)

/-- `_check_session` of a session with versions: the number of versions without a recorded
digest, and the issues. `last` is `versions[-1]`. -/
def checkSession (tools : Tools) (postgres : Bool) (db : Database) (record : SessionRecord)
    (versions : List Version) (last : Version) : Nat × List Issue :=
  let unrecorded := (versions.filter fun version => version.entriesSha256 = none).length
  let current := (versions.filter fun version => version.status = .current).length
  let steps := versionSteps versions
  let genuine := fun step : Version × Version => (conflictStep postgres record step.1 step.2).1
  let issues :=
    issueWhen (current ≠ 1) last
        s!"the session has {current} current versions (exactly one expected)"
      ++ (if postgres then
            (versions.zipIdx.map fun (version, index) =>
              checkHistory tools version (index = 0) (historyOf record version)).flatten
          else [])
      ++ steps.flatMap (fun step => (conflictStep postgres record step.1 step.2).2)
      ++ versions.flatMap (checkVersion db)
      ++ steps.flatMap (fun step =>
          issueWhen (!genuine step && step.2.entryCount < step.1.entryCount) step.2
            "the entry count decreased along the version history")
  if current ≠ 1 || last.status ≠ .current then (unrecorded, issues)
  else (unrecorded, issues ++ checkEntries tools record versions (afterLast (steps.map genuine)) last)

/-- `verify_decision_logs` of one session. A session without versions is not selected. -/
def verifySession (tools : Tools) (postgres : Bool) (db : Database) (sid : String) :
    Nat × List Issue :=
  let record := db.records sid
  let versions := historyVersions record
  match versions.getLast? with
  | none => (0, [])
  | some last => checkSession tools postgres db record versions last

/-! ## The rows of the entries -/

/-- The instants of a `datetime`: `MINYEAR` is 1 and `MAXYEAR` is 9999. -/
def InDatetime (us : Int) : Prop :=
  1 ≤ (civilFromDays (us / 86400000000)).1 ∧ (civilFromDays (us / 86400000000)).1 ≤ 9999

/-- A row of `decision_log_entries` as `_stored_rows` reads it. The role is NOT NULL, and
`is_verification` can be NULL. -/
structure EntryRow where
  role : String
  contentText : Option String
  toolCalls : Option String
  timestamp : Option Int
  messageId : Option String
  isVerification : Option Bool
  timestamp_valid : ∀ us, timestamp = some us → InDatetime us

/-- `_entry_key` of a row, where `bool` makes NULL False. -/
def EntryRow.key (row : EntryRow) : Entry where
  role := some row.role
  contentText := row.contentText
  toolCalls := row.toolCalls
  timestamp := row.timestamp
  messageId := row.messageId
  isVerification := row.isVerification.getD false

/-- The database after someone wrote other rows for the entries of a session, in id order. -/
def Database.alterEntries (db : Database) (sid : String) (rows : List EntryRow) : Database :=
  { db with records := fun id =>
      if id = sid then { db.records id with entries := rows.map EntryRow.key } else db.records id }

/-- The name of an import's status. -/
def ImportStatus.name : ImportStatus → String
  | .created => "created"
  | .unchanged => "unchanged"
  | .replaced => "replaced"
  | .keptExisting => "kept_existing"
  | .rejected => "rejected"

/-- `NOT_REPRODUCED`. -/
def NOT_REPRODUCED : String :=
  "an administrator acknowledges a refusal that no longer re-derives (evidence-store acknowledge)"

/-- One character of `keys.display`: a control character is escaped. -/
def displayChar (c : Char) : List Char :=
  let n := c.toNat
  if n < 32 ∨ (127 ≤ n ∧ n < 160) then
    ['\\', 'x', Nat.digitChar (n / 16), Nat.digitChar (n % 16)]
  else [c]

/-- `keys.display`. -/
def display (limit : Nat) (text : String) : String :=
  let shown := text.toList.flatMap displayChar
  if shown.length ≤ limit then String.ofList shown
  else String.ofList (shown.take (limit - 3)) ++ "..."

/-- `plan_decision_log`: a dry run of the store's import. -/
def planDecisionLog (tools : Tools) (tx : Transaction) (object : FetchedObject)
    (parsed : ParsedTranscript) (db : Database) : Except ImportError ImportResult :=
  (importDecisionLog tools tx { storeCall object parsed with dryRun := true } db).map Prod.snd

/-- `_finish_decision_log` of an object whose body was read and checked. It raises what the
dry run raises. -/
def finishDecisionLog (tools : Tools) (tx : Transaction) (db : Database) (status : ObjectStatus)
    (object : FetchedObject) (prepared : Except ContentRefusal ParsedTranscript) :
    Except ImportError (List String) :=
  match status, prepared with
  | .tooLarge, .error (.tooLarge _) => .ok []
  | .tooLarge, _ => .ok ["recorded too_large, but its body is within the decision-log limits"]
  | .rejected, .error _ => .ok []
  | .rejected, .ok parsed =>
      (planDecisionLog tools tx object parsed db).map fun result =>
        let status := result.status.name
        if result.status = .rejected then []
        else [s!"recorded rejected, but an import of its body is not refused (it would be {status}); "
          ++ NOT_REPRODUCED]
  | _, .error refusal =>
      let shown := display 200 (match refusal with
        | .tooLarge message => message
        | .rejected message => message)
      .ok [s!"recorded unchanged, but its body is refused ({shown})"]
  | _, .ok parsed =>
      let record := db.records object.sessionId
      if record.session = none then
        .ok ["recorded unchanged, but its session does not exist"]
      else
        let comparison := compareWithStored tools record.entries parsed.entries
        if comparison.difference ≠ none ∨ comparison.stored < parsed.entries.length then
          .ok ["recorded unchanged, but its entries are not identical to, or a prefix of, its "
            ++ "session's stored entries"]
        else .ok []

end TrustPortal.DecisionLog
