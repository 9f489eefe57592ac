import Mathlib.Algebra.GroupWithZero.Nat
import TrustPortal.EvidenceStore.Listing
import TrustPortal.EvidenceStore.Service

/-!
# `TrustPortal.EvidenceStore.Verify`: the records against the store

`verifyRecords` checks the records after an id, page by page, up to a number of records and of
bytes. `outcomeFacts` is what it reads from the database for a page, `outcomeIssues` what that says
against a record, and `checkRecord` what the store says. What is found goes into `Capped` lists,
which keep `MAX_KEPT` entries and count all.

`Store` is what a verification reads, and does not change: the records, the transcripts, what
`_check_record` answers for a record, what `_prepare` and `_finish` answer for the re-derivation
of its outcome, and what `store_holdings` answers for one holder and one version id. A record's
`visited` list is not in the source's report; it holds the records a slice checked.

An id is compared by its characters. `int(size or 0)` is the size.
-/

set_option autoImplicit false

namespace TrustPortal.EvidenceStore

open TrustPortal.Sql
open TrustPortal.Lib

/-- `MAX_REPORTED`. -/
def MAX_REPORTED : Nat := 100

/-- `MAX_KEPT`. -/
def MAX_KEPT : Nat := 1000

/-- `RECORD_PAGE`. -/
def RECORD_PAGE : Nat := 500

/-- `RETENTION_EXPIRED`. -/
def RETENTION_EXPIRED : String := "retention_expired"

/-- `limit` of `display`. -/
def DISPLAY_LIMIT : Nat := 300

/-- `display`: control characters escaped, at most `DISPLAY_LIMIT` characters. -/
def display (key : String) : String :=
  let text := key.toList.flatMap fun c =>
    if control c then ['\\', 'x', Nat.digitChar (c.toNat / 16), Nat.digitChar (c.toNat % 16)]
    else [c]
  if text.length ≤ DISPLAY_LIMIT then String.ofList text
  else String.ofList (text.take (DISPLAY_LIMIT - 3)) ++ "..."

/-! ## Capped lists -/

/-- `Capped`. -/
structure Capped (α : Type) where
  items : List α
  count : Nat
  deriving DecidableEq, Repr

/-- `Capped()`. -/
def Capped.empty {α : Type} : Capped α := ⟨[], 0⟩

/-- `Capped.add`. -/
def Capped.add {α : Type} (capped : Capped α) (item : α) : Capped α :=
  { items := if capped.items.length < MAX_KEPT then capped.items ++ [item] else capped.items
    count := capped.count + 1 }

/-- `Capped.report`. -/
def Capped.report {α : Type} (capped : Capped α) : List α := capped.items.take MAX_REPORTED

/-- Capped lists by their names. -/
abbrev Found (ι α : Type) := ι → Capped α

/-- An entry for each named list, in order. -/
def Found.add {ι α : Type} [DecidableEq ι] (found : Found ι α) (notes : List (ι × α)) :
    Found ι α :=
  notes.foldl (fun found note name =>
    if name = note.1 then (found name).add note.2 else found name) found

/-! ## What is reported of a record -/

/-- The lists of `verify_records`. -/
inductive RecordList
  | failures
  | erased
  | acknowledged
  | pending
  | retentionExpired
  | refusals
  deriving DecidableEq, Repr

/-- What an entry says besides the version it names. -/
inductive Detail
  | issue (status : Status) (text : String)
  | retainUntil (date : Option Int)
  | erasure (erasedAt : Option Int) (reason : Option String)
  | acknowledgement (acknowledgedFrom : Status) (detail : Option String)
  | pending (detail : Option String)
  | refusal (kind : Kind) (status : Status) (detail : Option String)
  deriving DecidableEq, Repr

/-- An entry of a list. -/
structure Entry where
  id : String
  bucket : String
  key : String
  versionId : String
  detail : Detail
  deriving DecidableEq, Repr

/-- `_summary`. -/
def summary (record : StoreObject) (detail : Detail) : Entry :=
  ⟨record.id, record.bucket, display record.key, record.versionId, detail⟩

/-- `_item`. -/
def item (record : StoreObject) (issue : String) : Entry :=
  summary record (.issue record.status issue)

/-- An entry and its list. -/
abbrev Note := RecordList × Entry

/-! ## What a verification reads -/

/-- The category of `_check_record`. -/
inductive Category
  | erased
  | pending
  | acknowledged
  | checked
  deriving DecidableEq, Repr

/-- `StoreHeld`: what the store's namespace holds for one path. -/
structure StoreHeld where
  count : Nat
  identity : String
  consistent : Bool
  extra : Nat
  deriving DecidableEq, Repr

/-- A row of `decision_log_transcripts`. -/
structure TranscriptVersion where
  storeObjectId : String
  sessionId : String
  contentSha256 : Option String
  status : String
  deriving DecidableEq, Repr

/-- What the records are checked against. -/
structure Store where
  objects : Table StoreObject.id
  transcripts : List TranscriptVersion
  /-- `PentestFindingsLoader.source_file_for`'s file, none where it raises `SkipRecord`. -/
  sourceFile : String → Option String
  /-- `store_holdings` of one holder, for the version id of its record. -/
  holding : String → String → Option StoreHeld
  /-- `_check_record`, with `full` or without. -/
  check : Bool → StoreObject → Category × List String
  /-- The issues of `_finish` and the bytes that `_prepare` read. -/
  rederive : StoreObject → List String × Nat

/-- `s3_key`. -/
def StoreObject.s3Key (record : StoreObject) : String := rawKey record.key record.keyEscaped

/-- `_store_holder`. -/
def Store.holder (store : Store) (record : StoreObject) : Option String :=
  (store.sourceFile record.s3Key).map storeHolder

/-! ## Import outcomes -/

/-- `OUTCOMES`, `_ANY_KIND` and the kinds that can be too large. -/
def allowedStatuses (kind : Kind) : List Status :=
  (match kind with
    | .decisionLog => [.ingested, .unchanged]
    | .sidecar => [.recorded]
    | .pentest => [.ingested, .unchanged, .duplicate]
    | .document => [.ingested]
    | .unmapped => [.recorded])
    ++ [.rejected, .nonConforming, .error, .acknowledged, .erased]
    ++ (if kind = .unmapped then [] else [.tooLarge])

/-- `CURRENT_OR_SUPERSEDED`. -/
def CURRENT_OR_SUPERSEDED : List String := ["current", "superseded"]

/-- `outcome_facts`: the transcripts of an object and what the store's namespace holds. -/
structure OutcomeFacts where
  byObject : String → List TranscriptVersion
  holdings : String → Option StoreHeld

/-- The holder and the version id of each ingested pentest record. -/
def Store.holderVersions (store : Store) (records : List StoreObject) : List (String × String) :=
  (records.filter fun r => r.kind = .pentest && r.status = .ingested).filterMap fun r =>
    (store.holder r).map fun holder => (holder, r.versionId)

/-- `outcome_facts`. -/
def Store.outcomeFacts (store : Store) (records : List StoreObject) : OutcomeFacts :=
  let ingested := (records.filter fun r => r.kind = .decisionLog && r.status = .ingested).map
    StoreObject.id
  -- In a dict a later record's version id replaces an earlier one's of the same holder.
  let versions := (store.holderVersions records).reverse
  { byObject := fun id =>
      if ingested.contains id then store.transcripts.filter fun row => row.storeObjectId = id else []
    holdings := fun holder => (versions.lookup holder).bind (store.holding holder) }

/-- `outcome_issues`. -/
def Store.outcomeIssues (store : Store) (record : StoreObject) (facts : OutcomeFacts) :
    List String :=
  let classified := classify record.s3Key
  let kindName := record.kind.name
  let keyKind := classified.kind.name
  let statusName := record.status.name
  if classified.kind ≠ record.kind then
    [s!"the record's kind ({kindName}) is not its key's ({keyKind})"]
  else if ¬(allowedStatuses record.kind).contains record.status then
    [s!"no sync records a {kindName} version as {statusName}"]
  else if record.kind = .decisionLog ∧ record.status = .ingested then
    if (facts.byObject record.id).any fun v =>
        some v.sessionId = classified.sessionId && v.contentSha256 = record.sha256
          && CURRENT_OR_SUPERSEDED.contains v.status then []
    else ["recorded ingested, but no current or superseded transcript version of its session was "
      ++ "imported from it"]
  else if record.kind = .pentest ∧ record.status = .ingested then
    match (store.holder record).bind facts.holdings with
    | none => ["recorded ingested, but the store's namespace holds no findings for its file"]
    | some held =>
      let info := record.importInfo.getD .empty
      let extra := held.extra
      (if info.stored = false || held.consistent = false || info.findings ≠ some held.count
          || info.identitySha256 ≠ some held.identity then
        ["recorded ingested, but the store's namespace does not hold exactly the findings it "
          ++ "imported (their count and identity, recomputed from their content)"]
      else [])
        ++ (if extra = 0 then []
          else [s!"the store's namespace holds {extra} finding(s) for its file that this version "
            ++ "did not import"])
  else []

/-! ## Re-derivation -/

/-- `REDERIVED`. -/
def REDERIVED : List Status := [.unchanged, .duplicate, .rejected, .tooLarge]

/-- `REFUSALS`. -/
def REFUSALS : List Status := [.rejected, .tooLarge]

/-- A limit in a message. -/
def limitText (limit : Option Nat) : String :=
  match limit with
  | some n => toString n
  | none => "None"

/-- `_without_body`: the issues of a re-derivation that needs no body, none where it needs one. -/
def withoutBody (record : StoreObject) (full : Bool) : Option (List String) :=
  let limit := kindLimit record.kind
  let limitName := limitText limit
  let kindName := record.kind.name
  let size := record.size
  if record.status = .tooLarge then
    if limit.any (· < size) then some []
    else if record.kind ≠ .decisionLog then
      some [s!"recorded too_large, but its {size} bytes are within the {kindName} limit of "
        ++ s!"{limitName} bytes"]
    else none
  else if record.status = .rejected ∧ record.kind ≠ .decisionLog
      ∧ record.kind ≠ .pentest then
    some [s!"recorded rejected, but a sync never refuses the content of a {kindName} version"]
  else if (record.kind = .decisionLog ∨ record.kind = .pentest)
      ∧ REDERIVED.contains record.status then none
  else if full ∧ record.status = .ingested ∧ record.kind = .pentest then none
  else some []

/-- `_cost`. -/
def cost (full : Bool) (record : StoreObject) : Nat :=
  (if full && record.sha256.isSome
      && !([Status.erased, Status.error, Status.nonConforming].contains record.status) then
    record.size else 0)
  + (if (withoutBody record full).isNone then
      record.size
        + (if (record.importInfo.getD .empty).sidecar.isSome then SIDECAR_LIMIT else 0)
    else 0)

/-- `_within_budget`: the leading rows whose bytes fit, the first one always where nothing has
been checked yet. `started` says that a row was taken or checked before. -/
def withinBudget (full : Bool) : (started : Bool) → Int → List StoreObject → List StoreObject
  | _, _, [] => []
  | started, remaining, record :: rest =>
    if decide (remaining < cost full record) && started then []
    else record :: withinBudget full true (remaining - cost full record) rest

/-! ## One page -/

/-- What the first loop of a page notes of a record: a refusal, the issues of its outcome, and a
record that does not conform. -/
def Store.outcomeNotes (store : Store) (facts : OutcomeFacts) (record : StoreObject) : List Note :=
  (if REFUSALS.contains record.status then
    [(.refusals, summary record (.refusal record.kind record.status record.detail))] else [])
  ++ (store.outcomeIssues record facts).map (fun issue => (.failures, item record issue))
  ++ (if record.status = .nonConforming then
    [(.failures, item record (strip ("recorded non_conforming: " ++ record.detail.getD "")))]
    else [])

/-- An entry of a page: what the store says of a record, and its re-derivation. -/
structure CheckedRecord where
  record : StoreObject
  category : Category
  issues : List String
  outcome : List String
  rederived : Nat
  bytesRead : Nat
  deriving DecidableEq, Repr

/-- The issues of a version that are failures. -/
def failing (issues : List String) : List String := issues.filter (· ≠ RETENTION_EXPIRED)

/-- One record of a page: its version, and its re-derivation where nothing failed before. -/
def Store.checkRecord (store : Store) (full : Bool) (facts : OutcomeFacts)
    (record : StoreObject) : CheckedRecord :=
  let (category, issues) := store.check full record
  let hashed :=
    if full && (category = .checked || category = .acknowledged) && record.sha256.isSome then
      record.size else 0
  let ready := (store.outcomeIssues record facts).isEmpty && category = .checked
    && (failing issues).isEmpty
  match if ready then withoutBody record full else some [] with
  | some outcome => ⟨record, category, issues, outcome, 0, hashed⟩
  | none =>
    let (outcome, read) := store.rederive record
    ⟨record, category, issues, outcome, 1, hashed + read⟩

/-- What the last loop of a page notes of an entry. -/
def CheckedRecord.notes (entry : CheckedRecord) : List Note :=
  ((entry.issues ++ entry.outcome).map fun issue =>
    if issue = RETENTION_EXPIRED then
      (.retentionExpired, summary entry.record (.retainUntil entry.record.retainUntil))
    else (.failures, item entry.record issue))
  ++ (match entry.category with
    | .erased =>
      if entry.issues.isEmpty then
        [(.erased, summary entry.record
          (.erasure entry.record.erasedAt entry.record.erasureReason))]
      else []
    | .acknowledged =>
      if (failing entry.issues).isEmpty then
        [(.acknowledged, summary entry.record (.acknowledgement
          (entry.record.acknowledgedFrom.getD .nonConforming) entry.record.detail))]
      else []
    | .pending => [(.pending, summary entry.record (.pending entry.record.detail))]
    | .checked => [])

/-- The state of `verify_records`. -/
structure RecordScan where
  after : String
  checked : Nat
  rederived : Nat
  bytesRead : Nat
  planned : Nat
  found : Found RecordList Entry
  visited : List StoreObject

/-- The records of a page that are checked in the store. -/
def toCheck (rows : List StoreObject) : List StoreObject :=
  rows.filter fun record => record.status ≠ .nonConforming

/-- One page. -/
def Store.checkPage (store : Store) (full : Bool) (rows : List StoreObject) (scan : RecordScan) :
    RecordScan :=
  let facts := store.outcomeFacts rows
  let entries := (toCheck rows).map (store.checkRecord full facts)
  { after := (rows.getLast?.map StoreObject.id).getD scan.after
    checked := scan.checked + rows.length
    rederived := scan.rederived + (entries.map CheckedRecord.rederived).sum
    bytesRead := scan.bytesRead + (entries.map CheckedRecord.bytesRead).sum
    planned := scan.planned + (rows.map (cost full)).sum
    found := (scan.found.add (rows.flatMap (store.outcomeNotes facts))).add
      (entries.flatMap CheckedRecord.notes)
    visited := scan.visited ++ rows }

/-! ## The pages -/

/-- `WHERE o.id > :after ORDER BY o.id`. -/
def Store.recordsAfter (store : Store) (after : String) : List StoreObject :=
  rowsAfter StoreObject.id (store.objects.rows.mergeSort fun a b => decide (a.id ≤ b.id)) after

/-- The rows of a page that a slice checks. -/
def pageRows (full : Bool) (maxBytes : Option Int) (scan : RecordScan) (page : List StoreObject) :
    List StoreObject :=
  match maxBytes with
  | none => page
  | some n => withinBudget full (decide (0 < scan.checked)) (n - scan.planned) page

private theorem withinBudget_sublist (full : Bool) : ∀ (started : Bool) (remaining : Int)
    (rows : List StoreObject), (withinBudget full started remaining rows).Sublist rows
  | _, _, [] => List.Sublist.refl _
  | started, remaining, record :: rest => by
    rw [withinBudget]
    split
    · exact List.nil_sublist _
    · exact (withinBudget_sublist full true _ rest).cons_cons record

/-- A page leaves fewer records. -/
theorem length_recordsAfter_checkPage {store : Store} {full : Bool} {maxBytes : Option Int}
    {scan : RecordScan} {limit : Nat}
    (h : pageRows full maxBytes scan ((store.recordsAfter scan.after).take limit) ≠ []) :
    (store.recordsAfter (store.checkPage full
      (pageRows full maxBytes scan ((store.recordsAfter scan.after).take limit)) scan).after).length
      < (store.recordsAfter scan.after).length := by
  have hsub : (pageRows full maxBytes scan ((store.recordsAfter scan.after).take limit)).Sublist
      ((store.recordsAfter scan.after).take limit) := by
    cases maxBytes with
    | none => exact List.Sublist.refl _
    | some n => exact withinBudget_sublist full _ _ _
  generalize pageRows full maxBytes scan ((store.recordsAfter scan.after).take limit) = rows
    at h hsub ⊢
  have hlast := List.getLast?_eq_some_getLast h
  have hmem : rows.getLast h ∈ store.recordsAfter scan.after :=
    List.mem_of_mem_take (hsub.mem (List.getLast_mem h))
  have hafter : (store.checkPage full rows scan).after = (rows.getLast h).id := by
    rw [Store.checkPage, hlast]
    rfl
  rw [hafter]
  exact length_rowsAfter_lt hmem

/-- How many records the next page may hold, where some have been checked. -/
def pageLimit (maxRecords : Option Nat) (checked : Nat) : Nat :=
  match maxRecords with
  | none => RECORD_PAGE
  | some n => min RECORD_PAGE (n - checked)

/-- The loop of `verify_records`: the scan, the id to go on after and whether a budget ended it. -/
def Store.recordLoop (store : Store) (full : Bool) (maxRecords : Option Nat)
    (maxBytes : Option Int) (scan : RecordScan) : RecordScan × Option String × Bool :=
  let limit := pageLimit maxRecords scan.checked
  let page := (store.recordsAfter scan.after).take limit
  let rows := pageRows full maxBytes scan page
  if limit = 0 then (scan, some scan.after, false)
  else if page = [] then (scan, none, false)
  else if _hrows : rows = [] then (scan, some scan.after, true)
  else
    let next := store.checkPage full rows scan
    if rows.length < page.length then (next, some next.after, true)
    else if page.length < limit then (next, none, false)
    else store.recordLoop full maxRecords maxBytes next
termination_by (store.recordsAfter scan.after).length
decreasing_by exact length_recordsAfter_checkPage _hrows

/-- The report of `verify_records`. -/
structure RecordReport where
  checked : Nat
  nextAfterId : Option String
  rederived : Nat
  bytesRead : Nat
  budgetExhausted : Bool
  reported : RecordList → List Entry
  counts : RecordList → Nat
  visited : List StoreObject

/-- `verify_records`. -/
def Store.verifyRecords (store : Store) (full : Bool) (afterId : Option String)
    (maxRecords : Option Nat) (maxBytes : Option Int) : RecordReport :=
  let (scan, next, exhausted) := store.recordLoop full maxRecords maxBytes
    ⟨afterId.getD "", 0, 0, 0, 0, fun _ => Capped.empty, []⟩
  -- No position is named where no record is left.
  let next := next.filter fun after => !(store.recordsAfter after).isEmpty
  { checked := scan.checked
    nextAfterId := next
    rederived := scan.rederived
    bytesRead := scan.bytesRead
    budgetExhausted := exhausted && next.isSome
    reported := fun name => (scan.found name).report
    counts := fun name => (scan.found name).count
    visited := scan.visited }

end TrustPortal.EvidenceStore
