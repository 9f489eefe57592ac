import TrustPortal.Audit.Witness
import Mathlib.Data.PNat.Notation

/-!
# `TrustPortal.Audit.VerifyChain`: `verify_chain` and what it calls

`verifyChain` recomputes the hash of every row and checks every link, in chunks by id. It
can stop after `maxRows` rows and go on from `nextAfterId` with the carried hash.
`scanRow` is the body of the loop over the rows of a chunk, and `scanLoop` the loop over
the chunks. `classifyLinks` splits the rows that are not linked to their predecessor into
forks and true breaks.

Two parts are not in the database: the driver, which turns a `timestamptz` into a Python
`datetime` and can refuse one, and `json.loads`. Both are the fields of a `Client`. The
model leaves out the estimated row count, which no other value depends on, and the answer
for a database that is not PostgreSQL.
-/

set_option autoImplicit false

namespace TrustPortal.Audit

open TrustPortal.Sql

/-- The Python side of a query. `isoformat` is none for a timestamp the driver cannot
return, `loads` is none for a text `json.loads` refuses. -/
structure Client where
  isoformat : Timestamptz → Option String
  loads : String → Option Json

/-- A client given by the timestamps and the texts it reads. -/
def Client.ofTables (times : List (Timestamptz × String)) (texts : List (String × Json)) :
    Client where
  isoformat t := times.lookup t
  loads text := texts.lookup text

/-- What `verify_chain` raises. -/
inductive VerifyError
  | auditChain (message : String)
  | unreadable (column : String)
  | outOfFuel
  deriving DecidableEq, Repr

/-- `MAX_DETAILED_FINDINGS`. -/
def MAX_DETAILED_FINDINGS : Nat := 1000

/-- `HEX64.match`. Python's `$` also matches before a newline at the end. -/
def hex64Match (text : String) : Bool :=
  let chars := text.toList
  let body := if chars.getLast? = some '\n' then chars.dropLast else chars
  decide (body.length = 64) && body.all isHexDigit

/-- `ChainStart`. `unhashedEntries` is -1 when no row has a hash. -/
structure ChainStart where
  afterId : Int
  expectedPreviousHash : Option String
  anchor : Option Anchor
  unhashedEntries : Int

/-- `first["changed_at"].isoformat() if first["changed_at"] else None`. -/
def readChangedAt (client : Client) (row : AuditRow) : Except VerifyError (Option String) :=
  match row.changedAt with
  | none => .ok none
  | some t =>
      match client.isoformat t with
      | none => .error (.unreadable "changed_at")
      | some s => .ok (some s)

/-- `json.loads(first["new_values_text"] or "{}")`, whose `get` needs an object. -/
def readDetails (client : Client) (row : AuditRow) :
    Except VerifyError (List (String × Json)) :=
  match if truthy row.newValues then client.loads (row.newValues.getD "")
      else some (.object []) with
  | some (.object members) => .ok members
  | _ => .error (.unreadable "new_values")

/-- The anchor of an ANCHOR row. -/
def readAnchor (row : AuditRow) (details : List (String × Json)) (anchoredAt : Option String) :
    Anchor where
  id := row.id
  archiveId := detail details "archive_id"
  archiveSha256 := detail details "archive_sha256"
  archivedChainHead := row.previousHash
  archivedEntries := detail details "archived_entries"
  archiveManifestKey := detail details "archive_manifest_key"
  archiveManifestSha256 := detail details "archive_manifest_sha256"
  anchoredBy := detail details "anchored_by"
  note := detail details "note"
  anchoredAt := anchoredAt

/-- `find_chain_start`: none for an empty table. -/
def findChainStart (client : Client) (log : AuditLog) :
    Except VerifyError (Option ChainStart) := do
  match log.first with
  | none => return none
  | some first =>
    let anchoredAt ← readChangedAt client first
    if first.action = some "ANCHOR" then
      let details ← readDetails client first
      return some ⟨first.id - 1, first.previousHash,
        some (readAnchor first details anchoredAt), 0⟩
    match log.firstHashed with
    | none => return some ⟨0, some GENESIS_HASH, none, -1⟩
    | some hashed =>
      return some ⟨hashed.id - 1, some GENESIS_HASH, none,
        ((log.rows.filter fun row => decide (row.id < hashed.id)).length : Nat)⟩

/-- `_chain_roots`: genesis, and the archived head of an ANCHOR row that comes first. -/
def chainRoots (log : AuditLog) : List String :=
  match log.first with
  | none => [GENESIS_HASH]
  | some first =>
      if first.action = some "ANCHOR" && truthy first.previousHash then
        [GENESIS_HASH, first.previousHash.getD ""]
      else [GENESIS_HASH]

/-- `_earliest_ids`: the smallest id that holds a hash. The batches of the query do not
change its result. -/
def earliestId (log : AuditLog) (hash : String) : Option Int :=
  ((log.rows.filter fun row => decide (row.rowHash = some hash)).map AuditRow.id).min?

/-- `first_serialized_id`: the smallest id of a `hash_version = 2` row. -/
def firstSerializedId (log : AuditLog) : Option Int :=
  if log.hasHashVersion then
    ((log.rows.filter fun row => decide (row.hashVersion = some 2)).map AuditRow.id).min?
  else none

/-- Whether `classify_links` takes a candidate for a fork: it is not after the first
serialized row, and it points at a root or at an earlier row. -/
def isFork (log : AuditLog) (candidate : Int × Option String) : Bool :=
  let serialized := match firstSerializedId log with
    | none => false
    | some from_ => decide (from_ < candidate.1)
  match candidate.2 with
  | none => false
  | some prev =>
      !serialized && decide (prev ≠ "") && (decide (prev ∈ chainRoots log) ||
        decide ((earliestId log prev).getD candidate.1 < candidate.1))

/-- `classify_links`: the fork ids and the true break ids. -/
def classifyLinks (log : AuditLog) (candidates : List (Int × Option String)) :
    List Int × List Int :=
  ((candidates.filter (isFork log)).map Prod.fst,
    (candidates.filter fun candidate => !isFork log candidate).map Prod.fst)

/-- An entry of `first_details`. -/
structure Finding where
  id : Int
  expectedPreviousHash : Option String
  actualPreviousHash : Option String
  rowHash : Option String
  recomputedHash : Option String
  deriving DecidableEq, Repr

/-- The variables of the scan. -/
structure Scan where
  expected : Option String
  chainHead : Option String
  lastId : Int
  verified : Nat
  contentMismatchIds : List Int
  linkCandidates : List (Int × Option String)
  firstDetails : List Finding

/-- The scan before its first row. -/
def Scan.start (afterId : Int) (expected : Option String) : Scan :=
  ⟨expected, none, afterId, 0, [], [], []⟩

section
variable (sha : Sha256) (withHashVersion : Bool)

/-- `linked`: the row has a hash and names the expected previous hash. -/
def isLinked (expected : Option String) (row : AuditRow) : Bool :=
  row.rowHash.isSome && decide (row.previousHash = expected)

/-- `altered`: the row has a hash and its recomputed hash is another. -/
def isAltered (row : AuditRow) : Bool :=
  row.rowHash.isSome && decide (computedHash sha withHashVersion row ≠ row.rowHash)

/-- The body of the loop over a chunk. -/
def scanRow (scan : Scan) (row : AuditRow) : Scan :=
  let linked := isLinked scan.expected row
  let altered := isAltered sha withHashVersion row
  { expected := if truthy row.rowHash then row.rowHash else scan.expected
    chainHead := if truthy row.rowHash then row.rowHash else scan.chainHead
    lastId := row.id
    verified := scan.verified + 1
    contentMismatchIds :=
      if altered then scan.contentMismatchIds ++ [row.id] else scan.contentMismatchIds
    linkCandidates :=
      if linked then scan.linkCandidates
      else scan.linkCandidates ++ [(row.id, if truthy row.rowHash then row.previousHash
        else none)]
    firstDetails :=
      if (!linked || altered) && decide (scan.firstDetails.length < MAX_DETAILED_FINDINGS) then
        scan.firstDetails ++ [⟨row.id, scan.expected, row.previousHash, row.rowHash,
          computedHash sha withHashVersion row⟩]
      else scan.firstDetails }

/-- The limit of the next chunk, none when `maxRows` rows were read. -/
def scanLimit (maxRows : Option Nat) (chunkSize verified : Nat) : Option Nat :=
  match maxRows with
  | none => some chunkSize
  | some most => if most ≤ verified then none else some (min chunkSize (most - verified))

/-- The loop over the chunks. The result is the last state and `complete`. -/
def scanLoop (log : AuditLog) (maxRows : Option Nat) (chunkSize : Nat) :
    Nat → Scan → Option (Scan × Bool)
  | 0, _ => none
  | fuel + 1, scan =>
      match scanLimit maxRows chunkSize scan.verified with
      | none => some (scan, (log.rowsAfter scan.lastId).isEmpty)
      | some limit =>
          let rows := (log.rowsAfter scan.lastId).take limit
          if rows.isEmpty then some (scan, true)
          else
            let next := rows.foldl (scanRow sha withHashVersion) scan
            if rows.length < limit && maxRows.isNone then some (next, true)
            else scanLoop log maxRows chunkSize fuel next

end

/-- The arguments of `verify_chain`. -/
structure VerifyArgs where
  afterId : Option Int
  expectedPreviousHash : Option String
  maxRows : Option Nat
  chunkSize : Nat
  witnessHeads : Option HeadScan
  anchorVerifier : Option (Anchor → AnchorVerification)

/-- `status`. -/
inductive ChainStatus
  | empty
  | noHashes
  | valid
  | intactWithForks
  | unverified
  | broken
  deriving DecidableEq, Repr

/-- `first_break`. -/
structure FirstBreak where
  id : Option Int
  issue : String
  details : Option Finding
  deriving DecidableEq, Repr

/-- The result of `verify_chain`. The source reports the lengths and the first elements of
the three id lists. -/
structure Verification where
  status : ChainStatus
  unhashedEntries : Int
  verified : Nat
  contentMismatchIds : List Int
  forkIds : List Int
  trueBreakIds : List Int
  breaks : Nat
  witnessMismatches : Nat
  invalidWitnessObjects : Nat
  firstWitnessMismatchId : Option Int
  anchorVerification : Option AnchorVerification
  witness : Option WitnessReport
  firstBreak : Option FirstBreak
  chainHead : Option String
  anchor : Option Anchor
  complete : Bool
  nextAfterId : Option Int
  expectedPreviousHash : Option String

/-- The answer for a table with nothing to verify. -/
def Verification.nothing (status : ChainStatus) : Verification :=
  ⟨status, 0, 0, [], [], [], 0, 0, 0, none, none, none, none, none, none, true, none, none⟩

/-- The order Python compares the pairs of an issue's id and text in. -/
def issueLt (a b : Int × String) : Bool :=
  decide (a.1 < b.1) || (decide (a.1 = b.1) && decide (a.2 < b.2))

/-- `min(issues)`. -/
def firstIssue : List (Int × String) → Option (Int × String)
  | [] => none
  | issue :: issues =>
      some (issues.foldl (fun best next => if issueLt next best then next else best) issue)

/-- The verification of an anchor nobody could check. -/
def uncheckedAnchor : AnchorVerification where
  status := .unverified
  issues := []
  reasons := ["the anchor was not checked against its archive manifest (no witness bucket access)"]
  lineage := []
  issue_of_failed := by simp

/-- The standing of the anchor. -/
def verifyAnchor (args : VerifyArgs) (anchor : Option Anchor) : Option AnchorVerification :=
  anchor.map fun anchor =>
    match args.anchorVerifier with
    | none => uncheckedAnchor
    | some verifier => verifier anchor

/-- `anchor_failed`. -/
def anchorFailed (verification : Option AnchorVerification) : Bool :=
  verification.map AnchorVerification.status == some AnchorStatus.failed

/-- The issue of the first id of a list of findings. -/
def idIssue (ids : List Int) (issue : String) : List (Int × String) :=
  (ids.head?.map fun id => (id, issue)).toList

/-- The result of a scan that ended. -/
def conclude (log : AuditLog) (args : VerifyArgs) (anchor : Option Anchor) (unhashed : Int)
    (scan : Scan) (complete : Bool) : Verification :=
  let (forkIds, trueBreakIds) := classifyLinks log scan.linkCandidates
  let anchorVerification := verifyAnchor args anchor
  let failed := anchorFailed anchorVerification
  let witness := args.witnessHeads.map fun heads =>
    report (resolveForeignChains (checkHeads log heads) anchor anchorVerification)
  let witnessCount := (witness.map WitnessReport.mismatchesCount).getD 0
  let invalidCount := (witness.map WitnessReport.invalidHeadsCount).getD 0
  let continuations := (witness.map WitnessReport.unverifiedContinuationsCount).getD 0
  let mismatches := (witness.map fun w => w.mismatches).getD []
  let mismatchId := (mismatches.filterMap Mismatch.id).min?
  let issues :=
    idIssue scan.contentMismatchIds "Content altered: recomputed hash does not match row_hash"
      ++ idIssue trueBreakIds "True break: previous_hash matches no earlier entry"
      ++ idIssue forkIds ("Fork: previous_hash is an earlier entry's row_hash, "
        ++ "not the immediately preceding entry's")
      ++ (if failed then
          idIssue (anchor.map Anchor.id).toList ("Anchor not verified: "
            ++ ((anchorVerification.bind fun v => v.issues.head?).getD ""))
        else [])
      ++ idIssue mismatchId.toList
          "Witness mismatch: a published chain head is missing or different"
  let firstBreak : Option FirstBreak :=
    match firstIssue issues with
    | some (id, issue) =>
        some ⟨some id, issue, scan.firstDetails.find? fun finding => decide (finding.id = id)⟩
    | none =>
        if witnessCount ≠ 0 then
          some ⟨none, "Witness mismatch: " ++ ((mismatches.head?.map Mismatch.issue).getD ""),
            none⟩
        else if invalidCount ≠ 0 then
          let first := (witness.bind fun w => w.invalidHeads.head?).map fun head =>
            head.key ++ ": " ++ head.reason
          some ⟨none, "Invalid witness objects: " ++ toString invalidCount ++ " (first: "
            ++ first.getD "" ++ ")", none⟩
        else none
  { status :=
      if scan.contentMismatchIds ≠ [] ∨ trueBreakIds ≠ [] ∨ witnessCount ≠ 0 ∨ invalidCount ≠ 0
          ∨ failed then .broken
      else if (anchorVerification.any fun v => decide (v.status ≠ .verified)) ∨ continuations ≠ 0
        then .unverified
      else if forkIds ≠ [] then .intactWithForks
      else .valid
    unhashedEntries := unhashed
    verified := scan.verified
    contentMismatchIds := scan.contentMismatchIds
    forkIds := forkIds
    trueBreakIds := trueBreakIds
    breaks := scan.contentMismatchIds.length + forkIds.length + trueBreakIds.length
      + witnessCount + invalidCount + failed.toNat
    witnessMismatches := witnessCount
    invalidWitnessObjects := invalidCount
    firstWitnessMismatchId := mismatchId
    anchorVerification := anchorVerification
    witness := witness
    firstBreak := firstBreak
    chainHead := scan.chainHead
    anchor := anchor
    complete := complete
    nextAfterId := if complete then none else some scan.lastId
    expectedPreviousHash := if complete then none else scan.expected }

/-- Where a run begins: the scan's first state, the anchor and the number of unhashed rows,
or the answer of a run that has nothing to scan. -/
inductive Beginning
  | done (result : Verification)
  | scan (afterId : Int) (expected : Option String) (anchor : Option Anchor) (unhashed : Int)

/-- The part of `verify_chain` before the scan. -/
def beginning (client : Client) (log : AuditLog) (args : VerifyArgs) :
    Except VerifyError Beginning := do
  match args.afterId with
  | none =>
    match ← findChainStart client log with
    | none => return .done (.nothing .empty)
    | some start =>
      if start.unhashedEntries = -1 then return .done (.nothing .noHashes)
      return .scan start.afterId start.expectedPreviousHash start.anchor start.unhashedEntries
  | some afterId =>
    if !(args.expectedPreviousHash.any fun hash => hex64Match hash) then
      throw (.auditChain "expected_previous_hash (64 hex chars) is required with after_id")
    let start ← findChainStart client log
    return .scan afterId args.expectedPreviousHash (start.bind ChainStart.anchor) 0

/-- `verify_chain`. -/
def verifyChain (sha : Sha256) (client : Client) (log : AuditLog) (args : VerifyArgs) :
    Except VerifyError Verification := do
  match ← beginning client log args with
  | .done result => return result
  | .scan afterId expected anchor unhashed =>
    match scanLoop sha log.hasHashVersion log args.maxRows args.chunkSize (log.rows.length + 1)
        (Scan.start afterId expected) with
    | none => throw .outOfFuel
    | some (scan, complete) => return conclude log args anchor unhashed scan complete

/-- A verification in slices: run `i` reads at most `sizes i` rows and goes on from the
`next_after_id` and `expected_previous_hash` of the run before it, until a run is complete.
The result is none when `fuel` runs were not enough. -/
def verifySlices (sha : Sha256) (client : Client) (log : AuditLog) (args : VerifyArgs)
    (sizes : Nat → ℕ+) :
    Nat → Nat → Option Int → Option String → Except VerifyError (Option (List Verification))
  | 0, _, _, _ => .ok none
  | fuel + 1, i, afterId, expected => do
      let run ← verifyChain sha client log
        { args with
            afterId := afterId
            expectedPreviousHash := expected
            maxRows := some (sizes i) }
      if run.complete then return some [run]
      let runs ← verifySlices sha client log args sizes fuel (i + 1) run.nextAfterId
        run.expectedPreviousHash
      return runs.map (run :: ·)

end TrustPortal.Audit
