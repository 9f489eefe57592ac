import TrustPortal.EvidenceStore.Verify
import TrustPortal.Python.Base64
import TrustPortal.Python.Layout

/-!
# `TrustPortal.EvidenceStore.VerifyStore`: the verification of the store in slices

`verifyStore` is one call. Without `maxItems` and `maxBytes` it checks everything. With one of
them it checks a slice from the position a cursor names, and its own cursor names the position
to go on at. A position lies in the records or in the listing. `verifyListing` checks the listing
from a prefix and a key on.

`StoreState` is what a verification reads, the bucket's listing and what the checks of the bucket,
the documents, the store's findings and the conflicts report. The texts of their entries stand for
the entries. The `visited` list of a listing is not in the source's report; it holds what a slice
listed: a group, or a prefix that could not be listed.

A text of a cursor with an unpaired surrogate, which no id and no key has, is refused here. The
source hands it to the database or to S3, which refuse it.
-/

set_option autoImplicit false

namespace TrustPortal.EvidenceStore

open TrustPortal.Sql
open TrustPortal.Python (Interpreter Value Str str)

/-! ## The listing -/

/-- `SECOND_VERSION`. -/
def SECOND_VERSION : String := "a later version of a write-once key"

/-- `DELETE_MARKER`. -/
def DELETE_MARKER : String := "a delete marker"

/-- The lists of `verify_listing`. -/
inductive ListingList
  | failures
  | unrecorded
  deriving DecidableEq, Repr

/-- An entry of one of them. -/
structure ListingEntry where
  key : String
  versionId : Option String
  issue : Option String
  size : Option Nat
  deriving DecidableEq, Repr

/-- A version, and an issue with it. -/
def listingIssue (key : String) (versionId : Option String) (issue : String) :
    ListingList × ListingEntry :=
  (.failures, ⟨key, versionId, some issue, none⟩)

/-- What a listing meets: a group of a prefix, or a prefix whose listing fails. -/
inductive ListEvent
  | group (keyGroup : KeyGroup)
  | failed (folder : String) (error : S3Error)
  deriving DecidableEq, Repr

/-- The versions an event counts. -/
def ListEvent.size : ListEvent → Nat
  | .group keyGroup => keyGroup.size
  | .failed _ _ => 0

/-- What `check_batch` notes of some entries of a group: those that are kept, then one entry
without a version for each that is not. -/
def extraNotes (group : KeyGroup) (kept : List ListedVersion) (count : Nat) (issue : String) :
    List (ListingList × ListingEntry) :=
  (kept.map fun entry => listingIssue (display entry.key) (some entry.versionId) issue)
    ++ List.replicate (count - kept.length) (listingIssue (display group.key) none issue)

/-- What `check_batch` notes of a group, given the versions the portal has recorded. -/
def groupNotes (known : List ((String × String) × Recorded)) (group : KeyGroup) :
    List (ListingList × ListingEntry) :=
  extraNotes group group.later group.laterCount SECOND_VERSION
    ++ extraNotes group group.markers group.markerCount DELETE_MARKER
    ++ (match group.first with
      | some first =>
        if known.any fun entry => decide (entry.1 = (first.key, first.versionId)) then []
        else [(.unrecorded, ⟨display first.key, some first.versionId, none, some first.size⟩)]
      | none => [])

/-- What a listing whose reading failed is noted as. -/
def failedNote (folder : String) (error : S3Error) : ListingList × ListingEntry :=
  let cause := error.cause
  listingIssue folder none s!"the listing cannot be read ({cause})"

/-- What a report of `verify_documents`, `verify_store_findings` or `store_conflicts` holds: how
much was checked, the entries and how many there are. -/
structure OnceReport where
  checked : Nat
  entries : List String
  count : Nat
  deriving DecidableEq, Repr

/-- The state of the store and of the database. -/
structure StoreState where
  store : Store
  bucket : String
  listing : BucketListing
  /-- The issues of `check_bucket` and of the retention floors. -/
  bucketIssues : List String
  erasurePrincipals : List String
  documents : OnceReport
  storeFindings : OnceReport
  conflicts : OnceReport

/-- The state of `verify_listing`. -/
structure ListingScan where
  listed : Nat
  found : Found ListingList ListingEntry
  visited : List ListEvent

/-- `check_batch`. -/
def StoreState.checkBatch (state : StoreState) (batch : List KeyGroup) (scan : ListingScan) :
    ListingScan :=
  let firsts := batch.filterMap KeyGroup.first
  let known := recordedVersions ⟨state.store.objects, []⟩ state.bucket
    (firsts.map fun first => first.key)
  { scan with found := scan.found.add (batch.flatMap (groupNotes known)) }

/-- The groups of a prefix: the scan and, where the slice ends, the key of its last group. -/
def StoreState.listGroups (state : StoreState) (maxVersions : Option Nat) :
    List KeyGroup → List KeyGroup → ListingScan → ListingScan × Option String
  | [], batch, scan => (state.checkBatch batch scan, none)
  | group :: groups, batch, scan =>
    let scan := { scan with
      listed := scan.listed + group.size
      visited := scan.visited ++ [.group group] }
    let (scan, batch) :=
      if LIST_PAGE_SIZE ≤ (batch ++ [group]).length then
        (state.checkBatch (batch ++ [group]) scan, [])
      else (scan, batch ++ [group])
    if maxVersions.any (· ≤ scan.listed) then (state.checkBatch batch scan, some group.key)
    else state.listGroups maxVersions groups batch scan

/-- The prefixes: the scan and, where the slice ends, the prefix and the key. -/
def StoreState.listFolders (state : StoreState) (maxVersions : Option Nat) :
    List (Fin PREFIXES.length) → Option String → ListingScan →
      ListingScan × Option (Fin PREFIXES.length × String)
  | [], _, scan => (scan, none)
  | index :: rest, afterKey, scan =>
    let folder := PREFIXES.get index
    let (groups, error) := iterGroups state.listing folder afterKey
    match state.listGroups maxVersions groups [] scan with
    | (scan, some key) => (scan, some (index, key))
    | (scan, none) =>
      let scan := match error with
        | some error =>
          { scan with
            found := scan.found.add [failedNote folder error]
            visited := scan.visited ++ [.failed folder error] }
        | none => scan
      state.listFolders maxVersions rest none scan

/-- The report of `verify_listing`. -/
structure ListingReport where
  listed : Nat
  reported : ListingList → List ListingEntry
  counts : ListingList → Nat
  resume : Option (Fin PREFIXES.length × String)
  visited : List ListEvent

/-- `verify_listing`. -/
def StoreState.verifyListing (state : StoreState) (index : Nat) (afterKey : Option String)
    (maxVersions : Option Nat) : ListingReport :=
  let (scan, resume) := state.listFolders maxVersions ((List.finRange PREFIXES.length).drop index)
    afterKey ⟨0, fun _ => Capped.empty, []⟩
  { listed := scan.listed
    reported := fun name => (scan.found name).report
    counts := fun name => (scan.found name).count
    resume
    visited := scan.visited }

/-! ## The cursor -/

/-- The position a cursor names. -/
inductive Position
  | records (afterId : Option String)
  | listing (index : Fin PREFIXES.length) (afterKey : Option String)
  deriving DecidableEq, Repr

/-- A text or `None`. -/
def optionalText (text : Option String) : Value :=
  match text with
  | some text => .str (str text)
  | none => .none

private theorem prefixIndex_short (index : Fin PREFIXES.length) :
    Python.digitCount (index.val : Int).natAbs ≤ Python.MAX_STR_DIGITS := by
  have hlt : index.val < 10 := index.isLt.trans (by decide)
  rw [Int.natAbs_natCast, Python.digitCount]
  by_cases hzero : index.val = 0
  · simp [hzero]
  · rw [Nat.digits_of_lt 10 _ hzero hlt, List.length_singleton]
    decide

/-- A position as a JSON object, its keys sorted. -/
def Position.value : Position → Value
  | .records afterId =>
    .dict [(str "after_id", optionalText afterId), (str "phase", .str (str "records"))]
  | .listing index afterKey =>
    .dict [(str "after_key", optionalText afterKey), (str "phase", .str (str "listing")),
      (str "prefix", .int ⟨index.val, prefixIndex_short index⟩)]

/-- `encode_cursor`. The text is ASCII, so its UTF-8 is its characters. -/
def encodeCursor (position : Option Position) : Option Str :=
  position.map fun position => Python.urlsafeB64encode
    (Python.encodePass (Python.render Python.escapeCharAscii position.value))

/-- The message of a `ValueError` of `decode_cursor`. -/
def CURSOR_REFUSED : String := "cursor is not one this endpoint returned"

/-- A text of Python as a text, none where it has a surrogate. -/
def textOf (s : Str) : Option String :=
  if s.any Python.CodePoint.isSurrogate then none
  else some (String.ofList (s.map fun c => Char.ofNat c.val))

/-- `isinstance(value, (str, type(None)))`, and the text. -/
def optionalTextOf : Value → Except String (Option String)
  | .none => .ok none
  | .str s =>
    match textOf s with
    | some text => .ok (some text)
    | none => .error CURSOR_REFUSED
  | _ => .error CURSOR_REFUSED

/-- `isinstance(value, int) and 0 <= value < len(PREFIXES)`, and the index. A bool is an int. -/
def prefixIndexOf : Value → Except String (Fin PREFIXES.length)
  | .int n =>
    if h : 0 ≤ n.value ∧ n.value.toNat < PREFIXES.length then .ok ⟨n.value.toNat, h.2⟩
    else .error CURSOR_REFUSED
  | .bool b => .ok (if b then ⟨1, by decide⟩ else ⟨0, by decide⟩)
  | _ => .error CURSOR_REFUSED

/-- `decode_cursor` of a decoded object. -/
def positionOf : Value → Except String Position
  | .dict members =>
    if (Python.get members "phase").isText "listing" then
      match prefixIndexOf (Python.get members "prefix"),
          optionalTextOf (Python.get members "after_key") with
      | .ok index, .ok afterKey => .ok (.listing index afterKey)
      | _, _ => .error CURSOR_REFUSED
    else if (Python.get members "phase").isText "records" then
      match optionalTextOf (Python.get members "after_id") with
      | .ok afterId => .ok (.records afterId)
      | .error refused => .error refused
    else .error CURSOR_REFUSED
  | _ => .error CURSOR_REFUSED

/-- `decode_cursor`. -/
def decodeCursor (py : Interpreter) (cursor : Option Str) : Except String Position :=
  match cursor with
  | none => .ok (.records none)
  | some [] => .ok (.records none)
  | some text =>
    match (Python.urlsafeB64decode text).bind Python.decodeStrict with
    | none => .error CURSOR_REFUSED
    | some text =>
      match Python.loads py text with
      | .ok value => positionOf value
      | .error _ => .error CURSOR_REFUSED

/-! ## One call -/

/-- A result of `verify_store`. -/
structure SliceResult where
  records : Option RecordReport
  listing : Option ListingReport
  documents : Option OnceReport
  storeFindings : Option OnceReport
  storeConflicts : Option OnceReport
  bucketIssues : List String
  failureCount : Nat
  unrecordedCount : Nat
  bytesRead : Nat
  budgetExhausted : Bool
  status : String
  nextCursor : Option Str

/-- The records' part of a slice at a position, none in the listing. -/
def StoreState.recordPart (state : StoreState) (full : Bool) (maxItems : Option Nat)
    (maxBytes : Option Int) : Position → Option RecordReport
  | .records afterId => some (state.store.verifyRecords full afterId maxItems maxBytes)
  | .listing _ _ => none

/-- Where a slice goes on after its records: among the records, or in the listing where the run is
bounded. -/
def positionAfterRecords (bounded : Bool) : Option RecordReport → Option Position
  | none => none
  | some report =>
    match report.nextAfterId with
    | some after => some (.records (some after))
    | none => if bounded then some (.listing ⟨0, by decide⟩ none) else none

/-- The listing's part of a slice: at a position in the listing, and after the records where they
do not name a position. -/
def StoreState.listingPart (state : StoreState) (maxItems : Option Nat) (position : Position)
    (next : Option Position) : Option ListingReport :=
  match position, next with
  | .listing index afterKey, _ => some (state.verifyListing index afterKey maxItems)
  | .records _, none => some (state.verifyListing 0 none maxItems)
  | .records _, some _ => none

/-- The slice is the first one of a run. -/
def Position.first : Position → Bool
  | .records afterId => afterId.getD "" = ""
  | .listing _ _ => false

/-- `verify_store` at a position. -/
def StoreState.verifySlice (state : StoreState) (full : Bool) (maxItems : Option Nat)
    (maxBytes : Option Int) (position : Position) : SliceResult :=
  let once (report : OnceReport) := if position.first then some report else none
  let records := state.recordPart full maxItems maxBytes position
  let afterRecords := positionAfterRecords (maxItems.isSome || maxBytes.isSome) records
  let listing := state.listingPart maxItems position afterRecords
  let next := match listing.bind ListingReport.resume with
    | some (index, key) => some (.listing index (some key))
    | none => afterRecords
  let documents := once state.documents
  let storeFindings := once state.storeFindings
  let failures := state.bucketIssues.length
    + (records.map fun report => report.counts .failures).getD 0
    + (listing.map fun report => report.counts .failures).getD 0
    + (documents.map OnceReport.count).getD 0 + (storeFindings.map OnceReport.count).getD 0
  let unrecorded := (listing.map fun report => report.counts .unrecorded).getD 0
    + (records.map fun report => report.counts .pending).getD 0
  { records, listing, documents, storeFindings
    storeConflicts := once state.conflicts
    bucketIssues := state.bucketIssues
    failureCount := failures
    unrecordedCount := unrecorded
    bytesRead := (records.map RecordReport.bytesRead).getD 0
    budgetExhausted := (records.map RecordReport.budgetExhausted).getD false
      || (listing.bind ListingReport.resume).isSome
    status :=
      if failures ≠ 0 then "broken"
      else if unrecorded ≠ 0 ∨ state.erasurePrincipals ≠ [] then "unverified"
      else "valid"
    nextCursor := encodeCursor next }

/-- `verify_store`. -/
def StoreState.verifyStore (state : StoreState) (py : Interpreter) (full : Bool)
    (cursor : Option Str) (maxItems : Option Nat) (maxBytes : Option Int) :
    Except String SliceResult :=
  (decodeCursor py cursor).map (state.verifySlice full maxItems maxBytes)

end TrustPortal.EvidenceStore
