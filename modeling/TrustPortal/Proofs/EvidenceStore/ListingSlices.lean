import TrustPortal.Proofs.EvidenceStore.KeyText
import TrustPortal.Proofs.EvidenceStore.RecordSlices

/-!
# `TrustPortal.Proofs.EvidenceStore.ListingSlices`: what a slice of the listing checks

`eventsFrom i key` is what the listing meets from the prefix `i` on, there after `key`: the groups
of each prefix, or its failure. `eventNotes` is what a verification notes of one of them. It does
not depend on the batch a group is checked in: a batch knows the recorded versions of its own keys,
and two keys are never recorded in one form (`rawKey_storedKey`).

`verifyListing_slice` is the result: a slice meets events at the start of those its position
leaves, notes what they say, and stands at the key of its last group where it ends early.
-/

set_option autoImplicit false

namespace TrustPortal.Proofs.EvidenceStore

open TrustPortal.EvidenceStore
open TrustPortal.Sql
open TrustPortal.Lib

/-! ## One event -/

section
variable (state : StoreState)

/-- The recorded versions of some keys. -/
def knownVersions (keys : List String) : List ((String × String) × Recorded) :=
  recordedVersions ⟨state.store.objects, []⟩ state.bucket keys

/-- What a verification notes of an event. -/
def eventNotes : ListEvent → List (ListingList × ListingEntry)
  | .group keyGroup =>
    groupNotes (knownVersions state (keyGroup.first.toList.map fun first => first.key)) keyGroup
  | .failed folder error => [failedNote folder error]

/-- A batch knows a version of one of its keys as the key alone does. -/
private theorem known_iff {keys : List String} {key versionId : String} (hkey : key ∈ keys) :
    (knownVersions state keys).any (fun entry => decide (entry.1 = (key, versionId)))
      = (knownVersions state [key]).any fun entry => decide (entry.1 = (key, versionId)) := by
  have hiff : ∀ wanted : List String, key ∈ wanted →
      ((knownVersions state wanted).any (fun entry => decide (entry.1 = (key, versionId))) = true ↔
        ∃ row ∈ state.store.objects.rows, row.bucket = state.bucket
          ∧ (row.key, row.keyEscaped) = storedKey key ∧ row.versionId = versionId) := by
    intro wanted hwanted
    simp only [knownVersions, recordedVersions, List.any_map, List.any_filter, List.any_eq_true,
      Function.comp_apply, Bool.and_eq_true, decide_eq_true_eq, List.contains_iff_mem,
      List.mem_map, Prod.mk.injEq]
    constructor
    · rintro ⟨row, hrow, ⟨hbucket, other, -, hother⟩, hraw, hversion⟩
      -- The row is recorded in the form of some wanted key, and gives that key back.
      have hsame : other = key := by
        rw [← rawKey_storedKey other, hother, ← hraw]
      exact ⟨row, hrow, hbucket, by rw [← hsame, hother], hversion⟩
    · rintro ⟨row, hrow, hbucket, hstored, hversion⟩
      have hraw := rawKey_storedKey key
      rw [← hstored] at hraw
      exact ⟨row, hrow, ⟨hbucket, key, hwanted, hstored.symm⟩, hraw, hversion⟩
  rw [Bool.eq_iff_iff, hiff keys hkey, hiff [key] (List.mem_singleton_self key)]

/-- A group of a batch is noted as it would be alone. -/
private theorem groupNotes_eq {batch : List KeyGroup} {keyGroup : KeyGroup}
    (h : keyGroup ∈ batch) :
    groupNotes (knownVersions state ((batch.filterMap KeyGroup.first).map fun first => first.key))
      keyGroup = eventNotes state (.group keyGroup) := by
  show _ = groupNotes _ keyGroup
  rw [groupNotes, groupNotes]
  congr 1
  cases hfirst : keyGroup.first with
  | none => rfl
  | some first =>
    have hmem : first.key ∈ (batch.filterMap KeyGroup.first).map fun first => first.key :=
      List.mem_map_of_mem (List.mem_filterMap.mpr ⟨keyGroup, h, hfirst⟩)
    simp only [Option.toList_some, List.map_singleton]
    rw [known_iff state hmem]
    rfl

end

/-! ## The loops -/

/-- What a scan of the listing is after some events. -/
structure Met (state : StoreState) (scan scan' : ListingScan) (events : List ListEvent) :
    Prop where
  visited : scan'.visited = scan.visited ++ events
  listed : scan'.listed = scan.listed + (events.map ListEvent.size).sum
  found : scan'.found = scan.found.add (events.flatMap (eventNotes state))

section
variable {state : StoreState} {scan scan' scan'' : ListingScan} {events events' : List ListEvent}

theorem Met.refl : Met state scan scan [] where
  visited := (List.append_nil _).symm
  listed := rfl
  found := rfl

theorem Met.trans (h : Met state scan scan' events) (h' : Met state scan' scan'' events') :
    Met state scan scan'' (events ++ events') where
  visited := by rw [h'.visited, h.visited, List.append_assoc]
  listed := by rw [h'.listed, h.listed, List.map_append, List.sum_append]; omega
  found := by rw [h'.found, h.found, add_append, List.flatMap_append]

/-- What a batch notes. -/
private theorem checkBatch_found (state : StoreState) (batch : List KeyGroup)
    (scan : ListingScan) : (state.checkBatch batch scan).found
      = scan.found.add ((batch.map ListEvent.group).flatMap (eventNotes state)) := by
  show scan.found.add _ = _
  rw [List.flatMap_map]
  congr 1
  exact List.flatMap_congr fun keyGroup h => groupNotes_eq state h

/-- A scan that has met some events and then a batch of groups it has not checked yet. -/
private structure Pending (state : StoreState) (start scan : ListingScan)
    (events : List ListEvent) (batch : List KeyGroup) : Prop where
  visited : scan.visited = start.visited ++ (events ++ batch.map ListEvent.group)
  listed : scan.listed
    = start.listed + ((events ++ batch.map ListEvent.group).map ListEvent.size).sum
  found : scan.found = start.found.add (events.flatMap (eventNotes state))

section
variable {start : ListingScan} {batch : List KeyGroup}

private theorem Pending.of_met (h : Met state start scan events) :
    Pending state start scan events [] where
  visited := by rw [List.map_nil, List.append_nil]; exact h.visited
  listed := by rw [List.map_nil, List.append_nil]; exact h.listed
  found := h.found

/-- A group more. -/
private theorem Pending.add (keyGroup : KeyGroup)
    (h : Pending state start scan events batch) :
    Pending state start { scan with
      listed := scan.listed + keyGroup.size
      visited := scan.visited ++ [.group keyGroup] } events (batch ++ [keyGroup]) where
  visited := by simp [h.visited]
  listed := by simp [h.listed, ListEvent.size]; omega
  found := h.found

/-- The batch is checked. -/
private theorem Pending.check (h : Pending state start scan events batch) :
    Met state start (state.checkBatch batch scan) (events ++ batch.map ListEvent.group) where
  visited := h.visited
  listed := h.listed
  found := by rw [checkBatch_found, h.found, add_append, List.flatMap_append]

end

/-- Where a slice ends at a group, it is the last one it has seen. -/
def EndsAt (seen rest : List KeyGroup) : Option String → Prop
  | none => rest = []
  | some key => ∃ front last, seen = front ++ [last] ∧ key = last.key

/-- The scan of a prefix: the groups at its start, all of them unless the slice ends at one. -/
private theorem listGroups_met (maxVersions : Option Nat) (groups : List KeyGroup)
    {start : ListingScan} : ∀ {batch : List KeyGroup} {scan : ListingScan}
    {events : List ListEvent}, Pending state start scan events batch →
    ∃ seen rest, groups = seen ++ rest
      ∧ Met state start (state.listGroups maxVersions groups batch scan).1
        (events ++ (batch ++ seen).map ListEvent.group)
      ∧ EndsAt seen rest (state.listGroups maxVersions groups batch scan).2 := by
  induction groups with
  | nil =>
    intro batch scan events h
    exact ⟨[], [], rfl, by rw [List.append_nil]; exact h.check, rfl⟩
  | cons keyGroup groups ih =>
    intro batch scan events h
    have hadd := h.add keyGroup
    -- The group is counted, and the batch is checked where it is full.
    obtain ⟨next, batch', events', hstep, hsame, hnext⟩ : ∃ next batch' events',
        (if LIST_PAGE_SIZE ≤ (batch ++ [keyGroup]).length then
          (state.checkBatch (batch ++ [keyGroup]) { scan with
            listed := scan.listed + keyGroup.size
            visited := scan.visited ++ [.group keyGroup] }, [])
        else ({ scan with
            listed := scan.listed + keyGroup.size
            visited := scan.visited ++ [.group keyGroup] }, batch ++ [keyGroup])) = (next, batch')
        ∧ events' ++ batch'.map ListEvent.group
          = events ++ (batch ++ [keyGroup]).map ListEvent.group
        ∧ Pending state start next events' batch' := by
      split
      · exact ⟨_, [], _, rfl, List.append_nil _, .of_met hadd.check⟩
      · exact ⟨_, _, events, rfl, rfl, hadd⟩
    rw [StoreState.listGroups]
    simp only [hstep]
    by_cases hend : maxVersions.any (fun n => decide (n ≤ next.listed)) = true
    · rw [if_pos hend]
      refine ⟨[keyGroup], groups, rfl, ?_, [], keyGroup, rfl, rfl⟩
      rw [← hsame]
      exact hnext.check
    · rw [if_neg hend]
      obtain ⟨seen, rest, hgroups, hmet, hresume⟩ := ih hnext
      refine ⟨keyGroup :: seen, rest, by rw [hgroups, List.cons_append], ?_, ?_⟩
      · rw [List.map_append, ← List.append_assoc, hsame] at hmet
        simpa using hmet
      · revert hresume
        cases (state.listGroups maxVersions groups batch' next).2 with
        | none => exact id
        | some key =>
          rintro ⟨front, last, hseen, hkey⟩
          exact ⟨keyGroup :: front, last, by rw [hseen, List.cons_append], hkey⟩

/-! ## The prefixes -/

variable (state)

/-- What a prefix meets, from its start on or after a key. -/
def eventsOf (folder : String) (afterKey : Option String) : List ListEvent :=
  (iterGroups state.listing folder afterKey).1.map ListEvent.group
    ++ (iterGroups state.listing folder afterKey).2.toList.map (ListEvent.failed folder)

/-- What some prefixes meet, the first one after a key. -/
def eventsIn : List (Fin PREFIXES.length) → Option String → List ListEvent
  | [], _ => []
  | index :: rest, afterKey => eventsOf state (PREFIXES.get index) afterKey ++ eventsIn rest none

/-- What the listing meets from a prefix on. -/
def eventsFrom (index : Nat) (afterKey : Option String) : List ListEvent :=
  eventsIn state ((List.finRange PREFIXES.length).drop index) afterKey

/-- Where the listing goes on, or nowhere. -/
def eventsLeft (resume : Option (Fin PREFIXES.length × String)) : List ListEvent :=
  (resume.map fun (index, key) => eventsFrom state index (some key)).getD []

variable {state}

theorem folder_ne_empty (index : Fin PREFIXES.length) : PREFIXES.get index ≠ "" := by
  revert index
  decide

/-- A prefix with a group is read, and after the group it meets what comes behind it. -/
private theorem eventsOf_split {index : Fin PREFIXES.length} {afterKey : Option String}
    {front rest : List KeyGroup} {last : KeyGroup}
    (h : (iterGroups state.listing (PREFIXES.get index) afterKey).1 = front ++ last :: rest) :
    (iterGroups state.listing (PREFIXES.get index) afterKey).2 = none
    ∧ eventsOf state (PREFIXES.get index) (some last.key) = rest.map ListEvent.group := by
  cases hrefused : state.listing.refused (PREFIXES.get index) with
  | some error =>
    -- A prefix that is refused has no groups.
    unfold iterGroups at h
    rw [hrefused] at h
    exact absurd h.symm (by simp)
  | none =>
    rw [eventsOf, iterGroups_eq state.listing (folder_ne_empty index) hrefused,
      iterGroups_eq state.listing (folder_ne_empty index) hrefused]
    rw [iterGroups_eq state.listing (folder_ne_empty index) hrefused] at h
    have hordered := groupsOf_ordered (ordered_listed state.listing (PREFIXES.get index))
    rw [Option.getD_some, rowsAfter_split hordered h]
    exact ⟨rfl, List.append_nil _⟩

/-- A prefix whose listing failed is noted. -/
private theorem failed_met (folder : String) (error : Option S3Error) (scan : ListingScan) :
    Met state scan
      (match error with
        | some error =>
          { scan with
            found := scan.found.add [failedNote folder error]
            visited := scan.visited ++ [.failed folder error] }
        | none => scan) (error.toList.map (ListEvent.failed folder)) := by
  cases error with
  | none => exact .refl
  | some error => exact ⟨rfl, rfl, rfl⟩

/-- The scan of some prefixes, from the prefix `i` on. -/
private theorem listFolders_met (state : StoreState) (maxVersions : Option Nat)
    (folders : List (Fin PREFIXES.length)) : ∀ (i : Nat) (afterKey : Option String)
    (scan : ListingScan), folders = (List.finRange PREFIXES.length).drop i →
    ∃ seen, Met state scan (state.listFolders maxVersions folders afterKey scan).1 seen
      ∧ eventsIn state folders afterKey
        = seen ++ eventsLeft state (state.listFolders maxVersions folders afterKey scan).2
      ∧ ((state.listFolders maxVersions folders afterKey scan).2 ≠ none → seen ≠ []) := by
  induction folders with
  | nil =>
    intro i afterKey scan _
    exact ⟨[], .refl, rfl, fun h => absurd rfl h⟩
  | cons index rest ih =>
    intro i afterKey scan hfolders
    have hi : i < (List.finRange PREFIXES.length).length := by
      by_contra hge
      rw [List.drop_eq_nil_of_le (not_lt.mp hge)] at hfolders
      exact absurd hfolders (List.cons_ne_nil _ _)
    have hcons := hfolders
    rw [List.drop_eq_getElem_cons hi, List.cons.injEq] at hcons
    have hindex : index.val = i := by rw [hcons.1, List.getElem_finRange]; rfl
    obtain ⟨seen, tail, hgroups, hmet, hend⟩ := listGroups_met maxVersions
      (iterGroups state.listing (PREFIXES.get index) afterKey).1
      (Pending.of_met (@Met.refl state scan))
    rw [List.nil_append, List.nil_append] at hmet
    rw [StoreState.listFolders]
    simp only
    generalize hresult : state.listGroups maxVersions
      (iterGroups state.listing (PREFIXES.get index) afterKey).1 [] scan = result at hmet hend
    obtain ⟨next, resume⟩ := result
    cases resume with
    | some key =>
      obtain ⟨front, last, hseen, rfl⟩ := hend
      refine ⟨_, hmet, ?_, fun _ => by simp [hseen]⟩
      -- The slice stands behind its last group: in the same prefix, then in the later ones.
      have hbehindLast : (iterGroups state.listing (PREFIXES.get index) afterKey).1
          = front ++ last :: tail := by
        rw [hgroups, hseen, List.append_assoc]
        rfl
      obtain ⟨hread, hbehind⟩ := eventsOf_split hbehindLast
      have hleft : eventsLeft state (some (index, last.key))
          = tail.map ListEvent.group ++ eventsIn state rest none := by
        show eventsIn state ((List.finRange PREFIXES.length).drop index.val) (some last.key) = _
        rw [hindex, ← hfolders, eventsIn, hbehind]
      show eventsOf state _ _ ++ _ = _ ++ eventsLeft state (some (index, last.key))
      rw [hleft, eventsOf, hread, hgroups, List.map_append, List.append_assoc, List.append_assoc]
      rfl
    | none =>
      obtain rfl : tail = [] := hend
      rw [List.append_nil] at hgroups
      obtain ⟨more, hmore, hsplit, hprogress⟩ := ih (i + 1) none _ hcons.2
      refine ⟨_, (hmet.trans (failed_met (PREFIXES.get index)
        (iterGroups state.listing (PREFIXES.get index) afterKey).2 next)).trans hmore, ?_,
        fun h => ?_⟩
      · rw [eventsIn, eventsOf, hsplit, hgroups]
        exact (List.append_assoc _ _ _).symm
      · simp [hprogress h]

/-- Without a bound no prefix ends the scan. -/
private theorem listGroups_unbounded (state : StoreState) (groups : List KeyGroup) : ∀ (batch : List KeyGroup)
    (scan : ListingScan), (state.listGroups none groups batch scan).2 = none := by
  induction groups with
  | nil => exact fun _ _ => rfl
  | cons keyGroup groups ih =>
    intro batch scan
    rw [StoreState.listGroups]
    exact ih _ _

private theorem listFolders_unbounded (folders : List (Fin PREFIXES.length)) :
    ∀ (afterKey : Option String) (scan : ListingScan),
    (state.listFolders none folders afterKey scan).2 = none := by
  induction folders with
  | nil => exact fun _ _ => rfl
  | cons index rest ih =>
    intro afterKey scan
    rw [StoreState.listFolders]
    have hgroups := listGroups_unbounded state
      (iterGroups state.listing (PREFIXES.get index) afterKey).1 [] scan
    simp only
    generalize state.listGroups none (iterGroups state.listing (PREFIXES.get index) afterKey).1 []
      scan = result at hgroups ⊢
    obtain ⟨next, resume⟩ := result
    obtain rfl : resume = none := hgroups
    exact ih none _

/-- What a slice reports of the events it met. -/
structure ListingSlice (state : StoreState) (report : ListingReport) : Prop where
  listed : report.listed = (report.visited.map ListEvent.size).sum
  counts : ∀ name, report.counts name
    = (named name (report.visited.flatMap (eventNotes state))).length
  reported : ∀ name, report.reported name
    = (named name (report.visited.flatMap (eventNotes state))).take MAX_REPORTED

/-- **A slice of the listing.** It meets events at the start of those its position leaves, and its
next position leaves the rest. -/
theorem verifyListing_slice (state : StoreState) (index : Nat) (afterKey : Option String)
    (maxVersions : Option Nat) :
    let report := state.verifyListing index afterKey maxVersions
    ListingSlice state report
    ∧ eventsFrom state index afterKey = report.visited ++ eventsLeft state report.resume
    ∧ (report.resume ≠ none → report.visited ≠ [])
    ∧ (maxVersions = none → report.resume = none) := by
  intro report
  let start : ListingScan := ⟨0, fun _ => Capped.empty, []⟩
  obtain ⟨seen, hmet, hsplit, hprogress⟩ := listFolders_met state maxVersions
    ((List.finRange PREFIXES.length).drop index) index afterKey start rfl
  have hvisited : report.visited = seen := hmet.visited
  refine ⟨⟨?_, fun name => ?_, fun name => ?_⟩, ?_, ?_, ?_⟩
  · rw [hvisited]
    exact hmet.listed.trans (Nat.zero_add _)
  · show ((state.listFolders maxVersions _ afterKey start).1.found name).count = _
    rw [hmet.found, add_empty_eq, hvisited]
  · show ((state.listFolders maxVersions _ afterKey start).1.found name).report = _
    rw [hmet.found, report_eq, hvisited]
  · rw [hvisited]
    exact hsplit
  · rw [hvisited]
    exact hprogress
  · rintro rfl
    exact listFolders_unbounded _ _ _

end

end TrustPortal.Proofs.EvidenceStore
