import TrustPortal.Proofs.EvidenceStore.Cursor
import TrustPortal.Proofs.EvidenceStore.ListingSlices
import TrustPortal.Proofs.Transcript.OnePass

/-!
# `TrustPortal.Proofs.EvidenceStore.VerifySlices`: a run in slices is one run

`Follows` calls `verifyStore` again with each cursor until there is none. `slices_complete` says
that this ends, that the slices check every record and every listed key once, and that what they
count adds up to what one call without bounds counts. The bucket is checked by every slice, so each
slice but one adds the bucket's own issues to the failures a second time. The documents, the
store's findings and the conflicts are in the first slice only. The lists of entries are capped in
each slice: where the unbounded list is complete, the slices' lists together are the same entries.

`slice_facts` is what one slice does at its position. A position leaves records (`recordsAt`) and
events of the listing (`eventsAt`), and the slice does what stands at their start.

The version ids of the ingested pentest records are one for each holder (`OneVersionPerHolder`).
`outcome_facts` keeps one version id for each holder of a page, so with two of them it would matter
which records a page has.
-/

set_option autoImplicit false

namespace TrustPortal.Proofs.EvidenceStore

open TrustPortal.EvidenceStore
open TrustPortal.Sql
open TrustPortal.Lib
open TrustPortal.Python (Interpreter Str)

/-! ## Results -/

/-- What a result counts. -/
inductive CountName
  | checked
  | rederived
  | bytesRead
  | records (name : RecordList)
  | listed
  | listing (name : ListingList)
  | unrecorded
  deriving DecidableEq, Repr

namespace SliceCounts

/-- A count of a result. -/
def count (result : SliceResult) : CountName → Nat
  | .checked => (result.records.map RecordReport.checked).getD 0
  | .rederived => (result.records.map RecordReport.rederived).getD 0
  | .bytesRead => result.bytesRead
  | .records name => (result.records.map fun report => report.counts name).getD 0
  | .listed => (result.listing.map ListingReport.listed).getD 0
  | .listing name => (result.listing.map fun report => report.counts name).getD 0
  | .unrecorded => result.unrecordedCount

/-- The records a result checked. -/
def visitedRecords (result : SliceResult) : List StoreObject :=
  (result.records.map RecordReport.visited).getD []

/-- The events of the listing a result met. -/
def visitedEvents (result : SliceResult) : List ListEvent :=
  (result.listing.map ListingReport.visited).getD []

/-- The key of a group. -/
def eventKey : ListEvent → Option String
  | .group keyGroup => some keyGroup.key
  | .failed _ _ => none

/-- The listed keys a result checked. -/
def visitedKeys (result : SliceResult) : List String :=
  (visitedEvents result).filterMap eventKey

/-- A reported list of the records. -/
def recordEntries (name : RecordList) (result : SliceResult) : List Entry :=
  (result.records.map fun report => report.reported name).getD []

/-- A reported list of the listing. -/
def listingEntries (name : ListingList) (result : SliceResult) : List ListingEntry :=
  (result.listing.map fun report => report.reported name).getD []

end SliceCounts

open SliceCounts

/-- The results of the calls from a cursor on, until a result has no cursor. -/
inductive Follows (call : Option Str → Except String SliceResult) :
    Option Str → List SliceResult → Prop
  | last {cursor : Option Str} {result : SliceResult} (hcall : call cursor = .ok result)
      (hend : result.nextCursor = none) : Follows call cursor [result]
  | more {cursor : Option Str} {result : SliceResult} {next : Str} {results : List SliceResult}
      (hcall : call cursor = .ok result) (hnext : result.nextCursor = some next)
      (rest : Follows call (some next) results) : Follows call cursor (result :: results)

/-! ## One slice -/

section
variable (state : StoreState) (full : Bool)

/-- The records a position leaves. -/
def recordsAt : Position → List StoreObject
  | .records afterId => state.store.recordsAfter (afterId.getD "")
  | .listing _ _ => []

/-- The events of the listing a position leaves. -/
def eventsAt : Position → List ListEvent
  | .records _ => eventsFrom state 0 none
  | .listing index afterKey => eventsFrom state index afterKey

/-- Where a slice goes on. -/
def nextPosition (maxItems : Option Nat) (maxBytes : Option Int) (position : Position) :
    Option Position :=
  let afterRecords := positionAfterRecords (maxItems.isSome || maxBytes.isSome)
    (state.recordPart full maxItems maxBytes position)
  match (state.listingPart maxItems position afterRecords).bind ListingReport.resume with
  | some (index, key) => some (.listing index (some key))
  | none => afterRecords

/-- What a record adds to a count. -/
def recordWeight (record : StoreObject) : CountName → Nat
  | .checked => 1
  | .rederived => recordRederived state.store full record
  | .bytesRead => recordBytes state.store full record
  | .records name => (named name (recordNotes state.store full record)).length
  | .unrecorded => (named .pending (recordNotes state.store full record)).length
  | .listed | .listing _ => 0

/-- What an event of the listing adds to a count. -/
def eventWeight (event : ListEvent) : CountName → Nat
  | .listed => event.size
  | .listing name => (named name (eventNotes state event)).length
  | .unrecorded => (named .unrecorded (eventNotes state event)).length
  | .checked | .rederived | .bytesRead | .records _ => 0

/-- What a slice does with what its position leaves. -/
structure SliceFacts (position : Position) (next : Option Position) (result : SliceResult) :
    Prop where
  records : recordsAt state position = visitedRecords result ++ (next.map (recordsAt state)).getD []
  events : eventsAt state position = visitedEvents result ++ (next.map (eventsAt state)).getD []
  counts : ∀ name, count result name
    = ((visitedRecords result).map fun record => recordWeight state full record name).sum
      + ((visitedEvents result).map fun event => eventWeight state event name).sum
  recordLists : ∃ notes : List Note,
    notes.Perm ((visitedRecords result).flatMap (recordNotes state.store full))
      ∧ ∀ name, recordEntries name result = (named name notes).take MAX_REPORTED
  listingLists : ∀ name, listingEntries name result
    = (named name ((visitedEvents result).flatMap (eventNotes state))).take MAX_REPORTED

end

section
variable {state : StoreState} {full : Bool} {maxItems : Option Nat} {maxBytes : Option Int}

/-- How many entries a list has, from the notes of each record. -/
private theorem length_named_flatMap {α ι β : Type} [DecidableEq ι] (name : ι) (xs : List β)
    (f : β → List (ι × α)) :
    (named name (xs.flatMap f)).length = (xs.map fun x => (named name (f x)).length).sum := by
  rw [named_flatMap, List.length_flatMap]

/-- What a slice of the records alone adds to a count. -/
private theorem recordSlice_weight {report : RecordReport}
    (h : RecordSlice state.store full report) (name : RecordList) :
    report.counts name
      = (report.visited.map fun record =>
          (named name (recordNotes state.store full record)).length).sum := by
  obtain ⟨notes, hnotes, hcounts, -⟩ := h.lists
  rw [hcounts, (named_perm hnotes name).length_eq, length_named_flatMap]

/-- What a result counts and lists, from its two parts. -/
private structure Parts (state : StoreState) (full : Bool) (result : SliceResult) : Prop where
  records : ∀ report ∈ result.records, RecordSlice state.store full report
  listing : ∀ report ∈ result.listing, ListingSlice state report
  bytesRead : result.bytesRead = (result.records.map RecordReport.bytesRead).getD 0
  unrecorded : result.unrecordedCount
    = (result.listing.map fun report => report.counts .unrecorded).getD 0
      + (result.records.map fun report => report.counts .pending).getD 0

private theorem Parts.counts {result : SliceResult} (h : Parts state full result)
    (name : CountName) : count result name
      = ((visitedRecords result).map fun record => recordWeight state full record name).sum
        + ((visitedEvents result).map fun event => eventWeight state event name).sum := by
  have hrecords : ∀ list, (result.records.map fun report => report.counts list).getD 0
      = ((visitedRecords result).map fun record =>
        (named list (recordNotes state.store full record)).length).sum := by
    intro list
    rw [visitedRecords]
    cases hresult : result.records with
    | none => rfl
    | some report => exact recordSlice_weight (h.records report hresult) list
  have hlisting : ∀ list, (result.listing.map fun report => report.counts list).getD 0
      = ((visitedEvents result).map fun event =>
        (named list (eventNotes state event)).length).sum := by
    intro list
    rw [visitedEvents]
    cases hresult : result.listing with
    | none => rfl
    | some report =>
      exact ((h.listing report hresult).counts list).trans (length_named_flatMap ..)
  have hzeroRecords : ((visitedRecords result).map fun _ => 0).sum = 0 := by simp
  have hzeroEvents : ((visitedEvents result).map fun _ => 0).sum = 0 := by simp
  cases name with
  | checked =>
    simp only [count, recordWeight, eventWeight, hzeroEvents, visitedRecords]
    cases hresult : result.records with
    | none => rfl
    | some report => simpa using (h.records report hresult).checked
  | rederived =>
    simp only [count, recordWeight, eventWeight, hzeroEvents, visitedRecords]
    cases hresult : result.records with
    | none => rfl
    | some report => exact (h.records report hresult).rederived
  | bytesRead =>
    simp only [count, recordWeight, eventWeight, hzeroEvents, visitedRecords, h.bytesRead]
    cases hresult : result.records with
    | none => rfl
    | some report => exact (h.records report hresult).bytesRead
  | records list =>
    simp only [count, recordWeight, eventWeight, hzeroEvents, hrecords, Nat.add_zero]
  | listed =>
    simp only [count, recordWeight, eventWeight, hzeroRecords, visitedEvents, Nat.zero_add]
    cases hresult : result.listing with
    | none => rfl
    | some report => exact (h.listing report hresult).listed
  | listing list =>
    simp only [count, recordWeight, eventWeight, hzeroRecords, hlisting, Nat.zero_add]
  | unrecorded =>
    simp only [count, recordWeight, eventWeight, h.unrecorded, hlisting, hrecords]
    omega

private theorem Parts.recordLists {result : SliceResult} (h : Parts state full result) :
    ∃ notes : List Note,
      notes.Perm ((visitedRecords result).flatMap (recordNotes state.store full))
        ∧ ∀ name, recordEntries name result = (named name notes).take MAX_REPORTED := by
  unfold visitedRecords recordEntries
  cases hresult : result.records with
  | none => exact ⟨[], .refl _, fun _ => rfl⟩
  | some report =>
    obtain ⟨notes, hnotes, -, hreported⟩ := (h.records report hresult).lists
    exact ⟨notes, hnotes, hreported⟩

private theorem Parts.listingLists {result : SliceResult} (h : Parts state full result)
    (name : ListingList) : listingEntries name result
      = (named name ((visitedEvents result).flatMap (eventNotes state))).take MAX_REPORTED := by
  unfold visitedEvents listingEntries
  cases hresult : result.listing with
  | none => rfl
  | some report => exact (h.listing report hresult).reported name

/-- The two parts of a slice. -/
private theorem slice_parts (full : Bool) (maxBytes : Option Int) (hone : OneVersionPerHolder state.store)
    (hitems : ∀ n, maxItems = some n → 1 ≤ n) (position : Position) :
    Parts state full (state.verifySlice full maxItems maxBytes position) where
  records := by
    intro report hreport
    cases position with
    | listing _ _ => cases hreport
    | records afterId =>
      obtain rfl := Option.some_inj.mp hreport
      exact (verifyRecords_slice full hone afterId hitems maxBytes).1
  listing := by
    intro report hreport
    have hpart : state.listingPart maxItems position (positionAfterRecords
        (maxItems.isSome || maxBytes.isSome) (state.recordPart full maxItems maxBytes position))
        = some report := hreport
    unfold StoreState.listingPart at hpart
    split at hpart
    · exact Option.some_inj.mp hpart ▸ (verifyListing_slice state _ _ maxItems).1
    · exact Option.some_inj.mp hpart ▸ (verifyListing_slice state _ _ maxItems).1
    · cases hpart
  bytesRead := rfl
  unrecorded := rfl

/-- The position a listing goes on at. -/
private def resumeAt (report : ListingReport) : Option Position :=
  report.resume.map fun (index, key) => .listing index (some key)

private theorem nextPosition_listing (index : Fin PREFIXES.length) (afterKey : Option String) :
    nextPosition state full maxItems maxBytes (.listing index afterKey)
      = resumeAt (state.verifyListing index afterKey maxItems) := by
  show (match (state.verifyListing index afterKey maxItems).resume with
    | some (index, key) => some (Position.listing index (some key))
    | none => none) = _
  rw [resumeAt]
  cases (state.verifyListing index afterKey maxItems).resume <;> rfl

/-- After the records of a slice: more records, the listing from its start, or in an unbounded
call the listing of the slice itself. -/
private theorem nextPosition_records (state : StoreState) (full : Bool) (maxItems : Option Nat)
    (maxBytes : Option Int) (afterId : Option String) :
    let report := state.store.verifyRecords full afterId maxItems maxBytes
    let result := state.verifySlice full maxItems maxBytes (.records afterId)
    let next := nextPosition state full maxItems maxBytes (.records afterId)
    (∃ after, report.nextAfterId = some after ∧ result.listing = none
      ∧ next = some (.records (some after)))
    ∨ (report.nextAfterId = none ∧ (maxItems.isSome || maxBytes.isSome) = true
      ∧ result.listing = none ∧ next = some (.listing ⟨0, by decide⟩ none))
    ∨ (report.nextAfterId = none ∧ maxItems = none ∧ maxBytes = none
      ∧ result.listing = some (state.verifyListing 0 none maxItems)
      ∧ next = resumeAt (state.verifyListing 0 none maxItems)) := by
  intro report result next
  have hafter : positionAfterRecords (maxItems.isSome || maxBytes.isSome)
      (state.recordPart full maxItems maxBytes (.records afterId))
      = positionAfterRecords (maxItems.isSome || maxBytes.isSome) (some report) := rfl
  have hlisting : result.listing = state.listingPart maxItems (.records afterId)
      (positionAfterRecords (maxItems.isSome || maxBytes.isSome) (some report)) := rfl
  have hnext : next = match result.listing.bind ListingReport.resume with
      | some (index, key) => some (Position.listing index (some key))
      | none => positionAfterRecords (maxItems.isSome || maxBytes.isSome) (some report) := rfl
  cases hreport : report.nextAfterId with
  | some after =>
    have hsome : positionAfterRecords (maxItems.isSome || maxBytes.isSome) (some report)
        = some (.records (some after)) := by
      rw [positionAfterRecords, hreport]
    rw [hsome] at hlisting hnext
    rw [show result.listing = none from hlisting] at hnext
    exact .inl ⟨after, rfl, hlisting, hnext⟩
  | none =>
    cases hbounded : (maxItems.isSome || maxBytes.isSome) with
    | true =>
      have hsome : positionAfterRecords (maxItems.isSome || maxBytes.isSome) (some report)
          = some (.listing ⟨0, by decide⟩ none) := by
        rw [positionAfterRecords, hreport, hbounded]
        rfl
      rw [hsome] at hlisting hnext
      rw [show result.listing = none from hlisting] at hnext
      exact .inr (.inl ⟨rfl, rfl, hlisting, hnext⟩)
    | false =>
      rw [Bool.or_eq_false_iff, Option.isSome_eq_false_iff, Option.isSome_eq_false_iff,
        Option.isNone_iff_eq_none, Option.isNone_iff_eq_none] at hbounded
      obtain ⟨rfl, rfl⟩ := hbounded
      have hsome : positionAfterRecords ((none : Option Nat).isSome || (none : Option Int).isSome)
          (some report) = none := by
        rw [positionAfterRecords, hreport]
        rfl
      rw [hsome] at hlisting hnext
      rw [show result.listing = some (state.verifyListing 0 none none) from hlisting] at hnext
      refine .inr (.inr ⟨rfl, rfl, rfl, hlisting, ?_⟩)
      rw [hnext, resumeAt, Option.bind_some]
      cases (state.verifyListing 0 none none).resume <;> rfl

/-- Where a listing goes on no records are left, and the events it has not met. -/
private theorem resumeAt_left (report : ListingReport) :
    ((resumeAt report).map (recordsAt state)).getD [] = []
    ∧ ((resumeAt report).map (eventsAt state)).getD [] = eventsLeft state report.resume := by
  rw [resumeAt]
  cases report.resume <;> exact ⟨rfl, rfl⟩

/-- **One slice.** It checks what stands at the start of what its position leaves, and counts and
lists what that says. -/
theorem slice_facts (full : Bool) (maxBytes : Option Int) (hone : OneVersionPerHolder state.store)
    (hitems : ∀ n, maxItems = some n → 1 ≤ n) (position : Position) :
    SliceFacts state full position (nextPosition state full maxItems maxBytes position)
      (state.verifySlice full maxItems maxBytes position) := by
  have hparts := slice_parts full maxBytes hone hitems position
  suffices hsplit : _ ∧ _ from
    ⟨hsplit.1, hsplit.2, hparts.counts, hparts.recordLists, hparts.listingLists⟩
  cases position with
  | listing index afterKey =>
    rw [nextPosition_listing, (resumeAt_left _).1, (resumeAt_left _).2]
    exact ⟨rfl, (verifyListing_slice state index afterKey maxItems).2.1⟩
  | records afterId =>
    obtain ⟨-, hsplit, -, -⟩ := verifyRecords_slice full hone afterId hitems maxBytes
    have hvisited : visitedRecords (state.verifySlice full maxItems maxBytes (.records afterId))
        = (state.store.verifyRecords full afterId maxItems maxBytes).visited := rfl
    rw [hvisited, visitedEvents]
    rcases nextPosition_records state full maxItems maxBytes afterId with
      ⟨after, hafter, hlisting, hnext⟩ | ⟨hafter, -, hlisting, hnext⟩
      | ⟨hafter, -, -, hlisting, hnext⟩
    · rw [hafter] at hsplit
      rw [hlisting, hnext]
      exact ⟨hsplit, rfl⟩
    · rw [hafter] at hsplit
      rw [hlisting, hnext]
      exact ⟨hsplit, rfl⟩
    · rw [hafter] at hsplit
      rw [hlisting, hnext, (resumeAt_left _).1, (resumeAt_left _).2]
      exact ⟨hsplit, (verifyListing_slice state 0 none maxItems).2.1⟩

/-! ## Runs -/

/-- How much a position leaves. A position among the records leaves the listing as well. -/
private def measureAt (state : StoreState) (position : Position) : Nat :=
  (recordsAt state position).length + (eventsAt state position).length
    + (match position with | .records _ => 1 | .listing _ _ => 0)

/-- A slice makes progress, and no slice but the first is a first one. -/
private theorem slice_progress (full : Bool) (maxBytes : Option Int)
    (hone : OneVersionPerHolder state.store)
    (hitems : ∀ n, maxItems = some n → 1 ≤ n) (position next : Position)
    (hnext : nextPosition state full maxItems maxBytes position = some next) :
    measureAt state next < measureAt state position ∧ next.first = false := by
  have hfacts := slice_facts full maxBytes hone hitems position
  have hrecords := congrArg List.length hfacts.records
  have hevents := congrArg List.length hfacts.events
  rw [hnext, List.length_append] at hrecords hevents
  simp only [Option.map_some, Option.getD_some] at hrecords hevents
  have hlistingProgress : ∀ index afterKey, position = .listing index afterKey →
      measureAt state next < measureAt state position ∧ next.first = false := by
    rintro index afterKey rfl
    obtain ⟨-, -, hprogress, -⟩ := verifyListing_slice state index afterKey maxItems
    rw [nextPosition_listing, resumeAt] at hnext
    obtain ⟨⟨other, key⟩, hresume, rfl⟩ := Option.map_eq_some_iff.mp hnext
    have hpos := List.length_pos_of_ne_nil (hprogress (by rw [hresume]; exact Option.some_ne_none _))
    have hvisited : visitedEvents (state.verifySlice full maxItems maxBytes
        (.listing index afterKey)) = (state.verifyListing index afterKey maxItems).visited := rfl
    rw [hvisited] at hevents
    refine ⟨?_, rfl⟩
    simp only [measureAt] at hrecords hevents ⊢
    omega
  cases position with
  | listing index afterKey => exact hlistingProgress index afterKey rfl
  | records afterId =>
    obtain ⟨-, -, hprogress, -⟩ := verifyRecords_slice full hone afterId hitems maxBytes
    have hvisited : visitedRecords (state.verifySlice full maxItems maxBytes (.records afterId))
        = (state.store.verifyRecords full afterId maxItems maxBytes).visited := rfl
    rcases nextPosition_records state full maxItems maxBytes afterId with
      ⟨after, hafter, -, heq⟩ | ⟨-, -, -, heq⟩ | ⟨-, hmax, -, -, heq⟩
    · obtain rfl := Option.some_inj.mp (hnext.symm.trans heq)
      obtain ⟨hne, hempty⟩ := hprogress after hafter
      have hpos := List.length_pos_of_ne_nil hne
      rw [hvisited] at hrecords
      refine ⟨?_, decide_eq_false hempty⟩
      simp only [measureAt]
      omega
    · obtain rfl := Option.some_inj.mp (hnext.symm.trans heq)
      refine ⟨?_, rfl⟩
      simp only [measureAt]
      omega
    · -- An unbounded call does not stop in the listing.
      have hend := (verifyListing_slice state 0 none maxItems).2.2.2 hmax
      rw [heq, resumeAt, hend] at hnext
      cases hnext

/-- A call is the slice of the position its cursor names. -/
private theorem verifyStore_eq {py : Interpreter} {cursor : Option Str} {position : Position}
    (h : decodeCursor py cursor = .ok position) :
    state.verifyStore py full cursor maxItems maxBytes
      = .ok (state.verifySlice full maxItems maxBytes position) := by
  rw [StoreState.verifyStore, h]
  rfl

/-- The calls that follow the cursors are the slices of the positions. -/
private theorem follows_of_visits {py : Interpreter} (hdepth : 1 ≤ py.readerDepth)
    {position : Position} {ps : List Position}
    (h : Visits (nextPosition state full maxItems maxBytes) position ps) :
    ∀ cursor, decodeCursor py cursor = .ok position →
      Follows (fun cursor => state.verifyStore py full cursor maxItems maxBytes) cursor
        (ps.map (state.verifySlice full maxItems maxBytes)) := by
  induction h with
  | @last position hnext =>
    intro cursor hcursor
    refine .last (verifyStore_eq hcursor) ?_
    show encodeCursor (nextPosition state full maxItems maxBytes position) = none
    rw [hnext]
    rfl
  | @more position next ps hnext _ ih =>
    intro cursor hcursor
    have hencoded : (state.verifySlice full maxItems maxBytes position).nextCursor
        = encodeCursor (some next) := by
      show encodeCursor (nextPosition state full maxItems maxBytes position) = _
      rw [hnext]
    have hdecoded := decodeCursor_encode hdepth next
    exact .more (verifyStore_eq hcursor) hencoded (ih _ hdecoded)

/-- The once-only part of the failures. -/
private def onceFailures (state : StoreState) (position : Position) : Nat :=
  if position.first then state.documents.count + state.storeFindings.count else 0

private theorem failureCount_eq (position : Position) :
    (state.verifySlice full maxItems maxBytes position).failureCount
      = state.bucketIssues.length
        + count (state.verifySlice full maxItems maxBytes position) (.records .failures)
        + count (state.verifySlice full maxItems maxBytes position) (.listing .failures)
        + onceFailures state position := by
  show _ + _ + _ + _ + _ = _ + _ + _ + _
  rw [onceFailures, Nat.add_assoc]
  congr 1
  cases position.first <;> simp

/-- Where no slice after the first is a first one, what the first alone reports is reported once. -/
private theorem once_of_visits (hone : OneVersionPerHolder state.store)
    (hitems : ∀ n, maxItems = some n → 1 ≤ n) {position : Position} {ps : List Position}
    (h : Visits (nextPosition state full maxItems maxBytes) position ps) :
    ∃ rest, ps = position :: rest ∧ ∀ p ∈ rest, p.first = false := by
  have hnext := fun p q hpq =>
    (slice_progress full maxBytes hone hitems p q hpq).2
  cases h with
  | last _ => exact ⟨[], rfl, nofun⟩
  | more hfirst hrest =>
    exact ⟨_, rfl, hrest.forall_of_step (I := fun p => p.first = false)
      (hnext _ _ hfirst) fun p q _ hpq => hnext p q hpq⟩

/-! ## What a whole run checks -/

/-- What the slices weigh, from what they check. -/
private theorem sum_flatMap {α β : Type} (ps : List α) (f : α → List β) (weight : β → Nat) :
    ((ps.flatMap f).map weight).sum = (ps.map fun p => ((f p).map weight).sum).sum := by
  induction ps with
  | nil => rfl
  | cons p ps ih => rw [List.flatMap_cons, List.map_append, List.sum_append, ih, List.map_cons,
      List.sum_cons]

private theorem le_sum_of_mem {α : Type} {ps : List α} (f : α → Nat) {p : α} (h : p ∈ ps) :
    f p ≤ (ps.map f).sum := by
  induction ps with
  | nil => exact absurd h List.not_mem_nil
  | cons q ps ih =>
    rw [List.map_cons, List.sum_cons]
    rcases List.mem_cons.mp h with rfl | h
    · exact Nat.le_add_right _ _
    · exact (ih h).trans (Nat.le_add_left _ _)

private theorem flatMap_perm {α β : Type} {ps : List α} {f g : α → List β}
    (h : ∀ p ∈ ps, (f p).Perm (g p)) : (ps.flatMap f).Perm (ps.flatMap g) := by
  induction ps with
  | nil => exact .refl _
  | cons p ps ih =>
    exact (h p List.mem_cons_self).append (ih fun q hq => h q (List.mem_cons_of_mem _ hq))

/-- A call without bounds has no next position. -/
private theorem unbounded_next (hone : OneVersionPerHolder state.store) :
    nextPosition state full none none (.records none) = none := by
  have hitems : ∀ n, (none : Option Nat) = some n → 1 ≤ n := nofun
  obtain ⟨-, -, -, hnone⟩ := verifyRecords_slice full hone none hitems none
  rcases nextPosition_records state full none none none with
    ⟨after, hafter, -⟩ | ⟨-, hbounded, -⟩ | ⟨-, -, -, -, hnext⟩
  · rw [hnone rfl rfl] at hafter
    cases hafter
  · cases hbounded
  · rw [hnext, resumeAt, (verifyListing_slice state 0 none none).2.2.2 rfl]
    rfl

/-- A run whose slices do what `SliceFacts` says, beside one call without bounds. -/
private structure RunFacts (state : StoreState) (full : Bool) (maxItems : Option Nat)
    (maxBytes : Option Int) (ps : List Position) (unbounded : SliceResult) : Prop where
  slice : ∀ p, SliceFacts state full p (nextPosition state full maxItems maxBytes p)
    (state.verifySlice full maxItems maxBytes p)
  visits : Visits (nextPosition state full maxItems maxBytes) (.records none) ps
  unbounded : SliceFacts state full (.records none) none unbounded

section
variable {ps : List Position} {unbounded : SliceResult}

private theorem RunFacts.records
    (h : RunFacts state full maxItems maxBytes ps unbounded) : (ps.flatMap fun p =>
      visitedRecords (state.verifySlice full maxItems maxBytes p)) = visitedRecords unbounded :=
  (h.visits.flatMap_eq fun p => (h.slice p).records).trans
    (h.unbounded.records.trans (List.append_nil _))

private theorem RunFacts.events
    (h : RunFacts state full maxItems maxBytes ps unbounded) : (ps.flatMap fun p =>
      visitedEvents (state.verifySlice full maxItems maxBytes p)) = visitedEvents unbounded :=
  (h.visits.flatMap_eq fun p => (h.slice p).events).trans
    (h.unbounded.events.trans (List.append_nil _))

private theorem RunFacts.counts (h : RunFacts state full maxItems maxBytes ps unbounded)
    (name : CountName) : (ps.map fun p =>
      count (state.verifySlice full maxItems maxBytes p) name).sum = count unbounded name := by
  rw [h.unbounded.counts, ← h.records, ← h.events, sum_flatMap, sum_flatMap, ← List.sum_map_add]
  congr 1
  exact List.map_congr_left fun p _ => (h.slice p).counts name

/-- Entries that all fit are all reported. -/
private theorem recordEntries_perm {position : Position} {next : Option Position}
    {result : SliceResult} (h : SliceFacts state full position next result) {name : RecordList}
    (hfit : count result (.records name) ≤ MAX_REPORTED) : (recordEntries name result).Perm
      ((visitedRecords result).flatMap fun record =>
        named name (recordNotes state.store full record)) := by
  obtain ⟨notes, hnotes, hreported⟩ := h.recordLists
  have hperm := named_perm hnotes name
  have hcount : count result (.records name)
      = (named name ((visitedRecords result).flatMap (recordNotes state.store full))).length := by
    simp [h.counts, recordWeight, eventWeight, length_named_flatMap]
  rw [hcount] at hfit
  rw [hreported, List.take_of_length_le (hperm.length_eq ▸ hfit), ← named_flatMap]
  exact hperm

private theorem listingEntries_eq {position : Position} {next : Option Position}
    {result : SliceResult} (h : SliceFacts state full position next result) {name : ListingList}
    (hfit : count result (.listing name) ≤ MAX_REPORTED) : listingEntries name result
      = (visitedEvents result).flatMap fun event => named name (eventNotes state event) := by
  have hcount : count result (.listing name)
      = (named name ((visitedEvents result).flatMap (eventNotes state))).length := by
    simp [h.counts, recordWeight, eventWeight, length_named_flatMap]
  rw [hcount] at hfit
  rw [h.listingLists, List.take_of_length_le hfit, named_flatMap]

private theorem RunFacts.recordLists (h : RunFacts state full maxItems maxBytes ps unbounded)
    (name : RecordList) (hfit : count unbounded (.records name) ≤ MAX_REPORTED) : (ps.flatMap fun p =>
      recordEntries name (state.verifySlice full maxItems maxBytes p)).Perm
        (recordEntries name unbounded) := by
  have hslice : ∀ p ∈ ps, (recordEntries name (state.verifySlice full maxItems maxBytes p)).Perm _ :=
    fun p hp => recordEntries_perm (h.slice p) (le_trans
      (le_sum_of_mem (fun p => count (state.verifySlice full maxItems maxBytes p)
        (.records name)) hp) (h.counts (.records name) ▸ hfit))
  refine (flatMap_perm hslice).trans ?_
  rw [← List.flatMap_assoc, h.records]
  exact (recordEntries_perm h.unbounded hfit).symm

private theorem RunFacts.listingLists (h : RunFacts state full maxItems maxBytes ps unbounded)
    (name : ListingList) (hfit : count unbounded (.listing name) ≤ MAX_REPORTED) : (ps.flatMap fun p =>
      listingEntries name (state.verifySlice full maxItems maxBytes p))
        = listingEntries name unbounded := by
  have hslice : ∀ p ∈ ps, listingEntries name (state.verifySlice full maxItems maxBytes p) = _ :=
    fun p hp => listingEntries_eq (h.slice p) (le_trans
      (le_sum_of_mem (fun p => count (state.verifySlice full maxItems maxBytes p)
        (.listing name)) hp) (h.counts (.listing name) ▸ hfit))
  rw [List.flatMap_congr hslice, ← List.flatMap_assoc, h.events]
  exact (listingEntries_eq h.unbounded hfit).symm

/-- The failures: each slice counts the bucket's own. -/
private theorem RunFacts.failureCount (h : RunFacts state full maxItems maxBytes ps unbounded)
    (honce : ∃ rest, ps = .records none :: rest ∧ ∀ p ∈ rest, p.first = false) :
    (ps.map fun p => (state.verifySlice full maxItems maxBytes p).failureCount).sum
      = ps.length * state.bucketIssues.length + count unbounded (.records .failures)
        + count unbounded (.listing .failures) + onceFailures state (.records none) := by
  obtain ⟨rest, hps, hrest⟩ := honce
  have hlater : (rest.map (onceFailures state)).sum = 0 := by
    rw [List.sum_eq_zero]
    intro n hn
    obtain ⟨p, hp, rfl⟩ := List.mem_map.mp hn
    rw [onceFailures, hrest p hp]
    rfl
  have hfirst : (ps.map (onceFailures state)).sum = onceFailures state (.records none) := by
    rw [hps, List.map_cons, List.sum_cons, hlater, Nat.add_zero]
  simp only [failureCount_eq, List.sum_map_add, h.counts, hfirst, List.map_const',
    List.sum_replicate_nat]

/-- What the first slice alone reports is reported once. -/
private theorem once_filterMap {α : Type} {f : SliceResult → Option α} {a : α}
    (hf : ∀ p, f (state.verifySlice full maxItems maxBytes p) = if p.first then some a else none)
    (honce : ∃ rest, ps = .records none :: rest ∧ ∀ p ∈ rest, p.first = false) :
    (ps.map (state.verifySlice full maxItems maxBytes)).filterMap f = [a] := by
  obtain ⟨rest, rfl, hrest⟩ := honce
  have hlater : (rest.map (state.verifySlice full maxItems maxBytes)).filterMap f = [] := by
    rw [List.filterMap_eq_nil_iff]
    intro result hresult
    obtain ⟨p, hp, rfl⟩ := List.mem_map.mp hresult
    rw [hf, hrest p hp]
    rfl
  rw [List.map_cons, List.filterMap_cons_some (hf _), hlater]

end

end

/-! ## The listed keys -/

section
variable {state : StoreState}

/-- The keys of a prefix that can be listed. -/
private def folderKeys (state : StoreState) (index : Fin PREFIXES.length) : List String :=
  if state.listing.refused (PREFIXES.get index) = none then
    keysOf (state.listing.listed (PREFIXES.get index))
  else []

private theorem keys_eventsOf (index : Fin PREFIXES.length) :
    (eventsOf state (PREFIXES.get index) none).filterMap eventKey = folderKeys state index := by
  have hgroups : ∀ groups : List KeyGroup,
      (groups.map ListEvent.group).filterMap eventKey = groups.map KeyGroup.key := by
    intro groups
    rw [List.filterMap_map]
    exact congrFun (List.filterMap_eq_map (f := KeyGroup.key)) groups
  rw [eventsOf, folderKeys, List.filterMap_append, hgroups]
  cases hrefused : state.listing.refused (PREFIXES.get index) with
  | some error =>
    unfold iterGroups
    rw [hrefused]
    rfl
  | none =>
    rw [iterGroups_eq state.listing (folder_ne_empty index) hrefused, Option.getD_none,
      ← groupsOf_rowsAfter, map_key_groupsOf, if_pos rfl]
    refine (List.append_nil _).trans (congrArg keysOf ?_)
    rw [rowsAfter, List.filter_eq_self]
    exact fun entry hentry => decide_eq_true (lt_key_of_listed (folder_ne_empty index) hentry)

private theorem keys_eventsFrom : (eventsFrom state 0 none).filterMap eventKey
    = (List.finRange PREFIXES.length).flatMap (folderKeys state) := by
  have hall : ∀ folders, (eventsIn state folders none).filterMap eventKey
      = folders.flatMap (folderKeys state) := by
    intro folders
    induction folders with
    | nil => rfl
    | cons index rest ih =>
      rw [eventsIn, List.filterMap_append, ih, keys_eventsOf, List.flatMap_cons]
  exact hall _

private theorem mem_folderKeys {index : Fin PREFIXES.length} {key : String} :
    key ∈ folderKeys state index ↔ state.listing.refused (PREFIXES.get index) = none
      ∧ ∃ entry ∈ state.listing.listed (PREFIXES.get index), entry.key = key := by
  rw [folderKeys]
  split
  · rename_i hread
    rw [keysOf, List.mem_dedup, List.mem_map]
    exact ⟨fun h => ⟨hread, h⟩, And.right⟩
  · rename_i hrefused
    exact ⟨fun h => absurd h List.not_mem_nil, fun h => absurd h.1 hrefused⟩

/-- No prefix is the start of another one, so no key is under two. -/
private theorem folder_of_key {i j : Fin PREFIXES.length} {key : String}
    (hi : key ∈ folderKeys state i) (hj : key ∈ folderKeys state j) : i = j := by
  have hstart : ∀ {index : Fin PREFIXES.length}, key ∈ folderKeys state index →
      (PREFIXES.get index).toList <+: key.toList := by
    intro index h
    obtain ⟨-, entry, hentry, rfl⟩ := mem_folderKeys.mp h
    exact List.isPrefixOf_iff_prefix.mp (List.mem_filter.mp hentry).2
  have hapart : ∀ i j : Fin PREFIXES.length,
      (PREFIXES.get i).toList.isPrefixOf (PREFIXES.get j).toList = true → i = j := by decide
  rcases List.prefix_or_prefix_of_prefix (hstart hi) (hstart hj) with h | h
  · exact hapart i j (List.isPrefixOf_iff_prefix.mpr h)
  · exact (hapart j i (List.isPrefixOf_iff_prefix.mpr h)).symm

private theorem nodup_folderKeys :
    ((List.finRange PREFIXES.length).flatMap (folderKeys state)).Nodup := by
  rw [List.nodup_flatMap]
  constructor
  · intro index _
    rw [folderKeys]
    split
    · exact List.nodup_dedup _
    · exact List.nodup_nil
  · refine (List.nodup_finRange _).imp fun hne => ?_
    exact List.disjoint_left.mpr fun key hi hj => hne (folder_of_key hi hj)

end

/-- **A run in slices is one run.** Following the cursors from the start ends. Each record is
checked once, and so is each key of a prefix that can be listed. The counts add up to those of one
call without bounds, and so do the failures but for the bucket's own, which each slice counts.
What is checked once in a run is in the first slice. Lists that are complete in the unbounded call
have the same entries. -/
theorem slices_complete {py : Interpreter} (hdepth : 1 ≤ py.readerDepth) {state : StoreState}
    (hone : OneVersionPerHolder state.store) (full : Bool) {maxItems : Option Nat}
    (hitems : ∀ n, maxItems = some n → 1 ≤ n) (maxBytes : Option Int) :
    ∃ results unbounded,
      Follows (fun cursor => state.verifyStore py full cursor maxItems maxBytes) none results
      ∧ state.verifyStore py full none none none = .ok unbounded
      ∧ unbounded.nextCursor = none
      ∧ (results.flatMap visitedRecords).Perm
        (state.store.objects.rows.filter fun record => decide (record.id ≠ ""))
      ∧ (results.flatMap visitedKeys).Nodup
      ∧ (∀ key, key ∈ results.flatMap visitedKeys ↔ ∃ folder ∈ PREFIXES,
        state.listing.refused folder = none ∧ ∃ entry ∈ state.listing.listed folder, entry.key = key)
      ∧ (∀ name, (results.map fun result => count result name).sum = count unbounded name)
      ∧ (results.map SliceResult.failureCount).sum
        = unbounded.failureCount + (results.length - 1) * state.bucketIssues.length
      ∧ results.filterMap SliceResult.documents = [state.documents]
      ∧ results.filterMap SliceResult.storeFindings = [state.storeFindings]
      ∧ results.filterMap SliceResult.storeConflicts = [state.conflicts]
      ∧ (∀ name, count unbounded (.records name) ≤ MAX_REPORTED →
        (results.flatMap (recordEntries name)).Perm (recordEntries name unbounded))
      ∧ ∀ name, count unbounded (.listing name) ≤ MAX_REPORTED →
        results.flatMap (listingEntries name) = listingEntries name unbounded := by
  obtain ⟨ps, hvisits⟩ := Visits.exists_of_measure (measureAt state)
    (fun p q hpq => (slice_progress full maxBytes hone hitems p q hpq).1)
    (.records none)
  have hfacts := slice_facts full maxBytes hone hitems
  have hunbounded := @slice_facts state none full none hone nofun (.records none)
  rw [unbounded_next hone] at hunbounded
  have hrun : RunFacts state full maxItems maxBytes ps _ := ⟨hfacts, hvisits, hunbounded⟩
  have honce := once_of_visits hone hitems hvisits
  have hkeys : (ps.map (state.verifySlice full maxItems maxBytes)).flatMap visitedKeys
      = (List.finRange PREFIXES.length).flatMap (folderKeys state) := by
    have hall : visitedEvents (state.verifySlice full none none (.records none))
        = eventsFrom state 0 none := (List.append_nil _).symm.trans hunbounded.events.symm
    rw [List.flatMap_map, ← keys_eventsFrom, ← hall, ← hrun.events, List.filterMap_flatMap]
    rfl
  refine ⟨ps.map (state.verifySlice full maxItems maxBytes),
    state.verifySlice full none none (.records none), follows_of_visits hdepth hvisits none rfl,
    rfl, ?_, ?_, hkeys ▸ nodup_folderKeys, fun key => ?_, fun name => ?_, ?_, ?_, ?_, ?_,
    fun name hfit => ?_, fun name hfit => ?_⟩
  · show encodeCursor (nextPosition state full none none (.records none)) = none
    rw [unbounded_next hone]
    rfl
  · rw [List.flatMap_map, hrun.records]
    have hall : visitedRecords (state.verifySlice full none none (.records none))
        = state.store.recordsAfter "" := (List.append_nil _).symm.trans hunbounded.records.symm
    have hnonempty : ∀ record : StoreObject,
        decide ("" < record.id) = decide (record.id ≠ "") := by
      intro record
      rw [decide_eq_decide]
      exact ⟨fun hlt => hlt.ne', fun hne => lt_of_le_of_ne (empty_le_text _) hne.symm⟩
    rw [hall, Store.recordsAfter, rowsAfter, List.filter_congr fun record _ => hnonempty record]
    exact (List.mergeSort_perm _ _).filter _
  · rw [hkeys, List.mem_flatMap]
    constructor
    · rintro ⟨index, -, hmem⟩
      exact ⟨_, List.get_mem _ _, mem_folderKeys.mp hmem⟩
    · rintro ⟨folder, hfolder, hlisted⟩
      obtain ⟨index, rfl⟩ := List.mem_iff_get.mp hfolder
      exact ⟨index, List.mem_finRange _, mem_folderKeys.mpr hlisted⟩
  · rw [List.map_map]
    exact hrun.counts name
  · rw [List.map_map, List.length_map, failureCount_eq]
    refine (hrun.failureCount honce).trans ?_
    obtain ⟨rest, rfl, -⟩ := honce
    rw [List.length_cons, Nat.add_sub_cancel, Nat.succ_mul]
    omega
  · exact once_filterMap (fun _ => rfl) honce
  · exact once_filterMap (fun _ => rfl) honce
  · exact once_filterMap (fun _ => rfl) honce
  · rw [List.flatMap_map]
    exact hrun.recordLists name hfit
  · rw [List.flatMap_map]
    exact hrun.listingLists name hfit

/-- A pentest record that was ingested. -/
private def ingestedPentest (id key versionId : String) : StoreObject where
  id := id
  bucket := "evidence"
  key := key
  keyEscaped := false
  versionId := versionId
  kind := .pentest
  status := .ingested
  sha256 := none
  compositeChecksum := none
  size := 10
  etag := none
  lastModified := none
  contentType := none
  objectMetadata := none
  lockMode := none
  retainUntil := none
  syncRunId := none
  attempts := 1
  importInfo := none
  detail := none
  erasedAt := none
  erasedBy := none
  erasureReason := none
  acknowledgedAt := none
  acknowledgedBy := none
  acknowledgementReason := none
  acknowledgedFrom := none
  createdAt := 0

/-- A bucket whose versioning is off, with two keys of two recorded holders, a log that the portal
has not recorded, and a review under a prefix that cannot be listed. -/
private def twoHolders : StoreState where
  store :=
    { objects := ⟨[ingestedPentest "r1" "pentest-evidence/a" "1",
        ingestedPentest "r2" "pentest-evidence/b" "2"], by decide⟩
      transcripts := []
      sourceFile := fun key =>
        if key = "pentest-evidence/a" then some "a"
        else if key = "pentest-evidence/b" then some "b" else none
      holding := fun _ _ => none
      check := fun _ _ => (.checked, [])
      rederive := fun _ => ([], 0) }
  bucket := "evidence"
  listing :=
    { entries := [⟨⟨"codex-reviews/r", "1", 10, none⟩, false⟩, ⟨⟨"decision-logs/a", "1", 10, none⟩, false⟩,
        ⟨⟨"pentest-evidence/a", "1", 10, none⟩, false⟩, ⟨⟨"pentest-evidence/b", "2", 10, none⟩, false⟩]
      ordered := by decide
      distinct := by decide
      pageLength := fun _ _ => LIST_PAGE_SIZE
      pageLength_pos := fun _ _ => by decide
      refused := fun folder =>
        if folder = "codex-reviews/" then some ⟨"AccessDenied", false, false⟩ else none }
  bucketIssues := ["versioning is not enabled"]
  erasurePrincipals := []
  documents := ⟨0, [], 0⟩
  storeFindings := ⟨0, [], 0⟩
  conflicts := ⟨0, [], 0⟩

/-- Its two records have holders of their own. -/
private theorem oneVersionPerHolder_twoHolders : OneVersionPerHolder twoHolders.store := by
  intro a ha b hb _ _ holder hholder hholder'
  have hrows : ∀ a ∈ twoHolders.store.objects.rows, ∀ b ∈ twoHolders.store.objects.rows,
      twoHolders.store.holder a = twoHolders.store.holder b → a.versionId = b.versionId := by
    decide
  exact hrows a ha b hb (hholder.trans hholder'.symm)

/-- `slices_complete` for that bucket, in slices of one item. -/
theorem slices_complete_unversioned : ∃ results unbounded,
    Follows (fun cursor => twoHolders.verifyStore Transcript.plainInterpreter false cursor (some 1)
      none) none results
    ∧ twoHolders.verifyStore Transcript.plainInterpreter false none none none = .ok unbounded
    ∧ (results.flatMap visitedRecords).Perm twoHolders.store.objects.rows
    ∧ "pentest-evidence/a" ∈ results.flatMap visitedKeys
    ∧ "codex-reviews/r" ∉ results.flatMap visitedKeys
    ∧ (results.map fun result => count result .listed).sum = count unbounded .listed
    ∧ (results.map SliceResult.failureCount).sum
      = unbounded.failureCount + (results.length - 1) := by
  obtain ⟨results, unbounded, hfollows, hcall, -, hrecords, -, hkeys, hcounts, hfailures, -⟩ :=
    @slices_complete Transcript.plainInterpreter (by decide) twoHolders
      oneVersionPerHolder_twoHolders false (some 1) (fun n hn => (Option.some_inj.mp hn).le) none
  have hlisted : ∃ folder ∈ PREFIXES, twoHolders.listing.refused folder = none
      ∧ ∃ entry ∈ twoHolders.listing.listed folder, entry.key = "pentest-evidence/a" := by
    decide
  have hrefused : ¬∃ folder ∈ PREFIXES, twoHolders.listing.refused folder = none
      ∧ ∃ entry ∈ twoHolders.listing.listed folder, entry.key = "codex-reviews/r" := by
    decide
  exact ⟨results, unbounded, hfollows, hcall, hrecords, (hkeys _).mpr hlisted,
    fun hkey => hrefused ((hkeys _).mp hkey), hcounts .listed, by rw [hfailures, show twoHolders.bucketIssues.length = 1 from rfl, Nat.mul_one]⟩

/-- A bucket whose versioning is off, with one key the portal has not recorded. -/
private def unversioned : StoreState where
  store :=
    { objects := Table.empty StoreObject.id
      transcripts := []
      sourceFile := fun _ => none
      holding := fun _ _ => none
      check := fun _ _ => (.checked, [])
      rederive := fun _ => ([], 0) }
  bucket := "evidence"
  listing :=
    { entries := [⟨⟨"decision-logs/a", "1", 10, none⟩, false⟩]
      ordered := List.pairwise_singleton _ _
      distinct := List.nodup_singleton _
      pageLength := fun _ _ => LIST_PAGE_SIZE
      pageLength_pos := fun _ _ => by decide
      refused := fun _ => none }
  bucketIssues := ["versioning is not enabled"]
  erasurePrincipals := []
  documents := ⟨0, [], 0⟩
  storeFindings := ⟨0, [], 0⟩
  conflicts := ⟨0, [], 0⟩

/-- The issue of the bucket is a failure in every slice, and the failures of the slices are more
than those of one call. -/
theorem failures_repeat : ∃ results unbounded,
    Follows (fun cursor => unversioned.verifyStore Transcript.plainInterpreter false cursor (some 1)
      none) none results
    ∧ unversioned.verifyStore Transcript.plainInterpreter false none none none = .ok unbounded
    ∧ (results.map SliceResult.failureCount).sum ≠ unbounded.failureCount := by
  have hvisits : Visits (nextPosition unversioned false (some 1) none) (.records none)
      [.records none, .listing ⟨0, by decide⟩ none,
        .listing ⟨0, by decide⟩ (some "decision-logs/a")] :=
    .more (by decide +kernel) (.more (by decide +kernel) (.last (by decide +kernel)))
  have hstart : decodeCursor Transcript.plainInterpreter none = .ok (.records none) := rfl
  refine ⟨_, unversioned.verifySlice false none none (.records none),
    follows_of_visits (by decide) hvisits none hstart, verifyStore_eq hstart, ?_⟩
  decide +kernel

end TrustPortal.Proofs.EvidenceStore
