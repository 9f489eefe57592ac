import Mathlib.Data.List.Dedup
import TrustPortal.EvidenceStore.Listing

/-!
# `TrustPortal.Proofs.EvidenceStore.Groups`: a listing does not show its pages

`groupsOf entries` says what a listing means: one group for each key, in the order of the keys,
with the versions and the delete markers of that key. Neither the pages nor the two lists of a
page enter it.

`iterGroups_eq` is the main fact: `iterGroups` gives the groups of the entries a marker leaves.
A page is sorted by key alone, so it has the entries of each key in the order S3 listed its
versions, and its delete markers (`Alike`). A group depends on nothing else (`groupOf`). The loop
over the pages is therefore one `collect` over a list that is alike what was left
(`exists_alike`).

`groupsOf_rowsAfter` is what a resumed listing rests on: the entries after a key have the groups
after that key.

`groupPages` is the loop over responses given as a list, and `bucket.pages` the responses S3 gives
(`pageGroups_eq_groupPages`). `split_irrelevant` takes them from any split of a listing, into pages
of any length, empty ones too.
-/

set_option autoImplicit false

namespace TrustPortal.Proofs.EvidenceStore

open TrustPortal.EvidenceStore
open TrustPortal.Lib

/-! ## The groups of a listing -/

/-- The group of a key with these entries. -/
def groupOf (key : String) (entries : List ListedVersion) : KeyGroup :=
  let versions := entries.filter fun entry => !entry.deleteMarker
  let markers := entries.filter fun entry => entry.deleteMarker
  { key
    first := versions.getLast?
    later := versions.dropLast.take MAX_GROUP_DETAIL
    laterCount := versions.length - 1
    markers := markers.take MAX_GROUP_DETAIL
    markerCount := markers.length }

/-- The keys of a listing. -/
def keysOf (entries : List ListedVersion) : List String :=
  (entries.map fun entry => entry.key).dedup

/-- The groups of a listing. -/
def groupsOf (entries : List ListedVersion) : List KeyGroup :=
  (keysOf entries).map fun key => groupOf key (entries.filter fun entry => decide (entry.key = key))

/-- Entries stand in the order of their keys. -/
def Ordered (entries : List ListedVersion) : Prop :=
  entries.Pairwise fun a b => a.key ≤ b.key

section
variable {entries others done : List ListedVersion} {key : String} {item : ListedVersion}

/-- A capped list takes an item while it has room. -/
private theorem take_append {α : Type} (kept : List α) (a : α) (n : Nat) :
    (if (kept.take n).length < n then kept.take n ++ [a] else kept.take n)
      = (kept ++ [a]).take n := by
  by_cases h : kept.length < n
  · rw [if_pos (by rw [List.length_take]; omega), List.take_of_length_le h.le,
      List.take_of_length_le (by rw [List.length_append, List.length_singleton]; omega)]
  · rw [if_neg (by rw [List.length_take]; omega), List.take_append_of_le_length (by omega)]

/-- `add` puts an entry behind those of a group. -/
theorem add_groupOf : (groupOf key entries).add item = groupOf key (entries ++ [item]) := by
  cases hmarker : item.deleteMarker with
  | true =>
    have htake := take_append (entries.filter fun entry => entry.deleteMarker) item MAX_GROUP_DETAIL
    simp [KeyGroup.add, groupOf, hmarker, ← htake]
  | false =>
    rcases List.eq_nil_or_concat (entries.filter fun entry => !entry.deleteMarker) with
      hnone | ⟨front, last, hfront⟩
    · simp [KeyGroup.add, groupOf, hmarker, hnone]
    · -- The version that was first becomes the last of the later ones.
      have htake := take_append front last MAX_GROUP_DETAIL
      simp [KeyGroup.add, groupOf, hmarker, hfront, ← htake]

private theorem new_add : (KeyGroup.new item.key).add item = groupOf item.key [item] :=
  @add_groupOf [] item.key item

/-- A group first: the entries of one key, then those of other keys. -/
private theorem groupsOf_append (hdone : done ≠ []) (hkey : ∀ entry ∈ done, entry.key = key)
    (hothers : ∀ entry ∈ others, entry.key ≠ key) :
    groupsOf (done ++ others) = groupOf key done :: groupsOf others := by
  have hnot : key ∉ others.map fun entry => entry.key := by
    intro hmem
    obtain ⟨entry, hentry, heq⟩ := List.mem_map.mp hmem
    exact hothers entry hentry heq
  have hkeys : keysOf (done ++ others) = key :: keysOf others := by
    induction done with
    | nil => exact absurd rfl hdone
    | cons entry rest ih =>
      have hentry := hkey entry List.mem_cons_self
      cases rest with
      | nil =>
        rw [keysOf, List.singleton_append, List.map_cons, hentry, List.dedup_cons_of_notMem hnot]
        rfl
      | cons next rest =>
        -- The key of the entry comes again, and `dedup` keeps its last place.
        have hnext := hkey next (by simp)
        rw [keysOf, List.cons_append, List.map_cons,
          List.dedup_cons_of_mem (by simp [hentry, hnext])]
        exact ih (by simp) fun entry hentry => hkey entry (List.mem_cons_of_mem _ hentry)
  have hsame : (done ++ others).filter (fun entry => decide (entry.key = key)) = done := by
    rw [List.filter_append, List.filter_eq_self.mpr (by simpa using hkey),
      List.filter_eq_nil_iff.mpr (by simpa using hothers), List.append_nil]
  rw [groupsOf, hkeys, List.map_cons, hsame, groupsOf]
  congr 1
  apply List.map_congr_left
  intro other hother
  have hne : other ≠ key := fun heq => hnot (heq ▸ List.mem_dedup.mp hother)
  rw [List.filter_append, List.filter_eq_nil_iff.mpr, List.nil_append]
  intro entry hentry
  simpa [hkey entry hentry] using hne.symm

/-- The groups that a run of `collect` gives, the last one with them. -/
def finish (collected : List KeyGroup × Option KeyGroup) : List KeyGroup :=
  collected.1 ++ collected.2.toList

/-- With a group open, the entries of its key go on with it. -/
private theorem finish_collect_open (h : Ordered entries) (hdone : done ≠ [])
    (hkey : ∀ entry ∈ done, entry.key = key) (hle : ∀ entry ∈ entries, key ≤ entry.key) :
    finish (collect (some (groupOf key done)) entries) = groupsOf (done ++ entries) := by
  induction entries generalizing key done with
  | nil =>
    have hnone : ∀ entry ∈ ([] : List ListedVersion), entry.key ≠ key := nofun
    rw [groupsOf_append hdone hkey hnone]
    rfl
  | cons entry rest ih =>
    rw [Ordered, List.pairwise_cons] at h
    by_cases hsame : key = entry.key
    · rw [collect, if_pos (show (groupOf key done).key = entry.key from hsame), add_groupOf,
        ih h.2 (by simp)
        (by simpa [or_imp, forall_and, hsame] using fun e he => (hkey e he).trans hsame)
        fun other hother => hle other (List.mem_cons_of_mem _ hother)]
      simp
    · -- A later key: the group is complete, and the entry opens the next one.
      have hlt : key < entry.key := lt_of_le_of_ne (hle entry List.mem_cons_self) hsame
      have hothers : ∀ other ∈ entry :: rest, other.key ≠ key := by
        intro other hother
        rcases List.mem_cons.mp hother with rfl | hother
        · exact hlt.ne'
        · exact (lt_of_lt_of_le hlt (h.1 other hother)).ne'
      have hopened : ∀ other ∈ [entry], other.key = entry.key := by simp
      have hrest := ih h.2 (List.cons_ne_nil _ _) hopened h.1
      rw [collect, if_neg (show ¬(groupOf key done).key = entry.key from hsame), new_add,
        groupsOf_append hdone hkey hothers]
      exact congrArg (groupOf key done :: ·) hrest

/-- What a run of `collect` gives. -/
theorem finish_collect (h : Ordered entries) : finish (collect none entries) = groupsOf entries := by
  cases entries with
  | nil => rfl
  | cons entry rest =>
    rw [Ordered, List.pairwise_cons] at h
    rw [collect, new_add]
    exact finish_collect_open h.2 (by simp) (by simp) h.1

/-- Entries one after the other are collected one after the other. -/
private theorem collect_append (group : Option KeyGroup) :
    collect group (entries ++ others)
      = ((collect group entries).1 ++ (collect (collect group entries).2 others).1,
        (collect (collect group entries).2 others).2) := by
  induction entries generalizing group with
  | nil => rfl
  | cons entry rest ih =>
    cases group with
    | none => exact ih _
    | some group =>
      by_cases hsame : group.key = entry.key
      · simp only [List.cons_append, collect, if_pos hsame]
        exact ih _
      · simp only [List.cons_append, collect, if_neg hsame, ih]

end

/-! ## Listings that are alike -/

/-- Two listings have the same entries, and those of a key that are versions, or delete markers,
in the same order. -/
structure Alike (entries others : List ListedVersion) : Prop where
  perm : entries.Perm others
  same : ∀ key marker,
    entries.filter (fun entry => decide (entry.key = key ∧ entry.deleteMarker = marker))
      = others.filter fun entry => decide (entry.key = key ∧ entry.deleteMarker = marker)

section
variable {entries others entries' others' : List ListedVersion}

private theorem Alike.append (h : Alike entries others) (h' : Alike entries' others') :
    Alike (entries ++ entries') (others ++ others') where
  perm := h.perm.append h'.perm
  same key marker := by rw [List.filter_append, List.filter_append, h.same, h'.same]

/-- The versions of a key. -/
private theorem versions_of_key (entries : List ListedVersion) (key : String) :
    (entries.filter fun entry => decide (entry.key = key)).filter
        (fun entry => !entry.deleteMarker)
      = entries.filter fun entry => decide (entry.key = key ∧ entry.deleteMarker = false) := by
  rw [List.filter_filter]
  apply List.filter_congr
  intro entry _
  cases entry.deleteMarker <;> simp

/-- The delete markers of a key. -/
private theorem markers_of_key (entries : List ListedVersion) (key : String) :
    (entries.filter fun entry => decide (entry.key = key)).filter
        (fun entry => entry.deleteMarker)
      = entries.filter fun entry => decide (entry.key = key ∧ entry.deleteMarker = true) := by
  rw [List.filter_filter]
  apply List.filter_congr
  intro entry _
  cases entry.deleteMarker <;> simp

/-- Listings that are alike have the same groups. -/
theorem Alike.groupsOf_eq (h : Alike entries others) (hentries : Ordered entries)
    (hothers : Ordered others) : groupsOf entries = groupsOf others := by
  have hkeys : keysOf entries = keysOf others := by
    rw [keysOf, keysOf]
    congr 1
    have hsorted : (entries.map fun entry => entry.key).Pairwise (· ≤ ·) :=
      List.pairwise_map.mpr hentries
    have hsorted' : (others.map fun entry => entry.key).Pairwise (· ≤ ·) :=
      List.pairwise_map.mpr hothers
    exact (h.perm.map _).eq_of_pairwise (fun a b _ _ hab hba => le_antisymm hab hba) hsorted hsorted'
  rw [groupsOf, groupsOf, hkeys]
  apply List.map_congr_left
  intro key _
  rw [groupOf, groupOf, versions_of_key, markers_of_key, versions_of_key, markers_of_key,
    h.same key false, h.same key true]

/-- A page, sorted, is ordered and alike its entries. -/
private theorem sorted_page (taken : List ListedVersion) (page : ListPage)
    (hversions : page.versions = taken.filter fun entry => !entry.deleteMarker)
    (hmarkers : page.deleteMarkers = taken.filter fun entry => entry.deleteMarker) :
    Ordered page.sorted ∧ Alike page.sorted taken := by
  have htrans : ∀ a b c : ListedVersion, decide (a.key ≤ b.key) = true →
      decide (b.key ≤ c.key) = true → decide (a.key ≤ c.key) = true := by
    simpa using fun (a b c : ListedVersion) => le_trans (a := a.key) (b := b.key) (c := c.key)
  have htotal : ∀ a b : ListedVersion,
      (decide (a.key ≤ b.key) || decide (b.key ≤ a.key)) = true := by
    simpa using fun a b : ListedVersion => le_total a.key b.key
  have hperm : page.sorted.Perm taken := by
    rw [ListPage.sorted, hversions, hmarkers]
    exact (List.mergeSort_perm _ _).trans (List.perm_append_comm.trans
      (List.filter_append_perm (fun entry : ListedVersion => entry.deleteMarker) taken))
  refine ⟨?_, hperm, ?_⟩
  · have hpairs := List.pairwise_mergeSort htrans htotal (page.versions ++ page.deleteMarkers)
    exact hpairs.imp fun hle => of_decide_eq_true hle
  · intro key marker
    -- The sort is stable, and entries of one key stand in any order for it.
    have hboth : (page.versions ++ page.deleteMarkers).filter
        (fun entry => decide (entry.key = key ∧ entry.deleteMarker = marker))
        = taken.filter fun entry => decide (entry.key = key ∧ entry.deleteMarker = marker) := by
      rw [hversions, hmarkers, List.filter_append, List.filter_filter, List.filter_filter]
      cases marker with
      | true =>
        rw [List.filter_eq_nil_iff.mpr (by simp), List.nil_append]
        exact List.filter_congr fun entry _ => by cases entry.deleteMarker <;> simp
      | false =>
        rw [List.filter_eq_nil_iff (p := fun entry : ListedVersion =>
            decide (entry.key = key ∧ entry.deleteMarker = false) && entry.deleteMarker).mpr
            (by simp), List.append_nil]
        exact List.filter_congr fun entry _ => by cases entry.deleteMarker <;> simp
    have hsub : (taken.filter fun entry =>
        decide (entry.key = key ∧ entry.deleteMarker = marker)).Sublist page.sorted := by
      rw [← hboth]
      apply List.sublist_mergeSort htrans htotal
      · refine List.pairwise_iff_forall_sublist.mpr fun {a b} hab => ?_
        have ha := hab.mem (List.mem_cons_self)
        have hb := hab.mem (List.mem_cons_of_mem a List.mem_cons_self)
        have hkeyA : a.key = key := by simpa using (of_decide_eq_true (List.mem_filter.mp ha).2).1
        have hkeyB : b.key = key := by simpa using (of_decide_eq_true (List.mem_filter.mp hb).2).1
        simp [hkeyA, hkeyB]
      · exact List.filter_sublist
    have hself := hsub.filter fun entry =>
      decide (entry.key = key ∧ entry.deleteMarker = marker)
    rw [List.filter_filter] at hself
    simp only [Bool.and_self] at hself
    exact (hself.eq_of_length (hperm.symm.filter _).length_eq).symm

end

/-! ## The pages -/

section
variable (bucket : BucketListing) (folder : String)

/-- What S3 lists under a prefix is ordered. -/
theorem ordered_listed : Ordered (bucket.listed folder) := bucket.ordered.filter _

private theorem ordered_left (marker : Option Marker) : Ordered (bucket.left folder marker) := by
  unfold BucketListing.left
  split
  · exact ordered_listed bucket folder
  · exact (ordered_listed bucket folder).filter _
  · exact (ordered_listed bucket folder).sublist
      ((List.drop_sublist 1 _).trans (List.dropWhile_sublist _))

/-- The pages after a marker are collected as one list that is alike what the marker leaves. -/
private theorem exists_alike (n : Nat) : ∀ (marker : Option Marker) (group : Option KeyGroup),
    (bucket.left folder marker).length = n → ∃ entries, Ordered entries
      ∧ Alike entries (bucket.left folder marker)
      ∧ pageGroups bucket folder marker group = finish (collect group entries) := by
  -- By induction on how much is left: each page leaves less.
  induction n using Nat.strongRecOn with
  | ind n ih =>
    intro marker group hn
    have hpage := sorted_page (bucket.taken folder marker)
      (bucket.listObjectVersions folder marker) rfl rfl
    have hordered := ordered_left bucket folder marker
    rw [pageGroups]
    by_cases htruncated : (bucket.taken folder marker).length < (bucket.left folder marker).length
    · have hne : bucket.left folder marker ≠ [] := by
        intro hnil
        simp [hnil] at htruncated
      obtain ⟨entry, hlast⟩ : ∃ entry, (bucket.taken folder marker).getLast? = some entry :=
        ⟨_, List.getLast?_eq_some_getLast (taken_ne_nil hne)⟩
      have hnext : (bucket.listObjectVersions folder marker).nextMarker
          = some ⟨entry.key, some entry.versionId⟩ := by
        show ((bucket.taken folder marker).getLast?).map _ = _
        rw [hlast]
        rfl
      obtain ⟨entries, hentries, halike, hgroups⟩ := ih _ (hn ▸ length_left_next hnext) _
        (collect group (bucket.listObjectVersions folder marker).sorted).2 rfl
      have hleft := left_next hnext
      refine ⟨(bucket.listObjectVersions folder marker).sorted ++ entries, ?_, ?_, ?_⟩
      · rw [hleft, Ordered, List.pairwise_append] at hordered
        exact List.pairwise_append.mpr ⟨hpage.1, hentries, fun a ha b hb =>
          hordered.2.2 a (hpage.2.perm.mem_iff.mp ha) b (halike.perm.mem_iff.mp hb)⟩
      · rw [hleft]
        exact hpage.2.append halike
      · have htrue : (bucket.listObjectVersions folder marker).isTruncated = true :=
          decide_eq_true htruncated
        simp only [htrue, if_true]
        rw [hnext]
        simp only [hgroups, finish, collect_append, List.append_assoc]
    · have hfalse : (bucket.listObjectVersions folder marker).isTruncated = false :=
        decide_eq_false htruncated
      have hall : bucket.taken folder marker = bucket.left folder marker :=
        (List.take_sublist _ _).eq_of_length_le (not_lt.mp htruncated)
      simp only [hfalse]
      exact ⟨_, hpage.1, hall ▸ hpage.2, rfl⟩

/-- **The pages do not show.** The loop gives the groups of what the marker leaves. -/
theorem pageGroups_eq (marker : Option Marker) :
    pageGroups bucket folder marker none = groupsOf (bucket.left folder marker) := by
  obtain ⟨entries, hentries, halike, hgroups⟩ := exists_alike bucket folder _ marker none rfl
  rw [hgroups, finish_collect hentries]
  exact halike.groupsOf_eq hentries (ordered_left bucket folder marker)

end

/-! ## Going on after a key -/

section
variable {entries : List ListedVersion}

@[simp] theorem groupOf_key (key : String) : (groupOf key entries).key = key := rfl

/-- The groups stand in the order of their keys, one for each. -/
theorem groupsOf_ordered (h : Ordered entries) :
    (groupsOf entries).Pairwise fun a b => a.key < b.key := by
  have hle : (keysOf entries).Pairwise (· ≤ ·) :=
    (List.pairwise_map.mpr h).sublist (List.dedup_sublist _)
  have hne : (keysOf entries).Pairwise (· ≠ ·) := List.nodup_dedup _
  exact List.pairwise_map.mpr ((hle.and hne).imp fun hboth => lt_of_le_of_ne hboth.1 hboth.2)

/-- The keys of the groups are those of the entries. -/
theorem map_key_groupsOf : (groupsOf entries).map KeyGroup.key = keysOf entries := by
  rw [groupsOf, List.map_map]
  exact (List.map_congr_left fun _ _ => rfl).trans (List.map_id _)

private theorem dedup_filter (p : String → Bool) (keys : List String) :
    (keys.filter p).dedup = keys.dedup.filter p := by
  induction keys with
  | nil => rfl
  | cons first rest ih =>
    cases hp : p first with
    | true =>
      rw [List.filter_cons_of_pos hp]
      by_cases hmem : first ∈ rest
      · rw [List.dedup_cons_of_mem (List.mem_filter.mpr ⟨hmem, hp⟩), List.dedup_cons_of_mem hmem,
          ih]
      · rw [List.dedup_cons_of_notMem (by simp [hmem]), List.dedup_cons_of_notMem hmem,
          List.filter_cons_of_pos hp, ih]
    | false =>
      rw [List.filter_cons_of_neg (by simp [hp]), ih]
      by_cases hmem : first ∈ rest
      · rw [List.dedup_cons_of_mem hmem]
      · rw [List.dedup_cons_of_notMem hmem, List.filter_cons_of_neg (by simp [hp])]

/-- The entries after a key have the groups after it. -/
theorem groupsOf_rowsAfter (key : String) :
    groupsOf (rowsAfter (fun entry : ListedVersion => entry.key) entries key)
      = rowsAfter KeyGroup.key (groupsOf entries) key := by
  have hkeys : keysOf (rowsAfter (fun entry : ListedVersion => entry.key) entries key)
      = (keysOf entries).filter fun other => decide (key < other) := by
    rw [keysOf, keysOf, rowsAfter, ← dedup_filter, List.filter_map]
    rfl
  rw [groupsOf, hkeys, groupsOf, rowsAfter.eq_1 KeyGroup.key, List.filter_map]
  apply List.map_congr_left
  intro other hother
  have hlt : key < other := by simpa using (List.mem_filter.mp hother).2
  -- Entries of a later key are all after the key.
  rw [rowsAfter, List.filter_filter]
  congr 1
  apply List.filter_congr
  intro entry _
  by_cases hsame : entry.key = other <;> simp [hsame, hlt]

/-- The empty text comes first. -/
theorem empty_le_text (text : String) : "" ≤ text := by
  rw [String.le_iff_toList_le, String.toList_empty]
  exact not_lt.mp (List.not_lt_nil text.toList)

/-- The keys under a prefix are not empty. -/
theorem lt_key_of_listed {bucket : BucketListing} {folder : String} (hfolder : folder ≠ "")
    {entry : ListedVersion} (h : entry ∈ bucket.listed folder) : "" < entry.key := by
  have hstart : folder.toList.isPrefixOf entry.key.toList = true := (List.mem_filter.mp h).2
  obtain ⟨rest, hrest⟩ := List.isPrefixOf_iff_prefix.mp hstart
  refine lt_of_le_of_ne (empty_le_text _) fun hempty => hfolder ?_
  rw [← hempty, String.toList_empty, List.append_eq_nil_iff] at hrest
  exact String.toList_inj.mp (hrest.1.trans String.toList_empty.symm)

/-- **The groups of a prefix.** From its start on, or after a key. -/
theorem iterGroups_eq (bucket : BucketListing) {folder : String} (hfolder : folder ≠ "")
    (hread : bucket.refused folder = none) (startAfter : Option String) :
    iterGroups bucket folder startAfter
      = (rowsAfter KeyGroup.key (groupsOf (bucket.listed folder)) (startAfter.getD ""), none) := by
  have hall : rowsAfter KeyGroup.key (groupsOf (bucket.listed folder)) ""
      = groupsOf (bucket.listed folder) := by
    rw [← groupsOf_rowsAfter, rowsAfter, List.filter_eq_self.mpr]
    exact fun entry hentry => decide_eq_true (lt_key_of_listed hfolder hentry)
  unfold iterGroups
  rw [hread]
  cases startAfter with
  | none => exact congrArg (·, none) ((pageGroups_eq bucket folder none).trans hall.symm)
  | some key =>
    by_cases hkey : key = ""
    · simp only [pageGroups_eq, hkey]
      exact congrArg (·, none) hall.symm
    · simp only [if_neg hkey, pageGroups_eq, Option.getD_some, ← groupsOf_rowsAfter]
      rfl

end

/-! ## Any split into pages -/

/-- The responses to the requests of `iter_groups`, from a marker on. -/
def pages (bucket : BucketListing) (folder : String) (marker : Option Marker) : List ListPage :=
  let page := bucket.listObjectVersions folder marker
  if page.isTruncated then
    match _hnext : page.nextMarker with
    | some next => page :: pages bucket folder (some next)
    | none => [page]
  else [page]
termination_by (bucket.left folder marker).length
decreasing_by exact length_left_next _hnext

/-- The loop of `iter_groups` over responses, with the group that is open. -/
def groupPages (group : Option KeyGroup) : List ListPage → List KeyGroup
  | [] => group.toList
  | page :: rest =>
    let (groups, last) := collect group page.sorted
    if page.isTruncated then groups ++ groupPages last rest else groups ++ last.toList

/-- A response is collected, and where it is truncated the loop goes on. -/
private theorem groupPages_cons (group : Option KeyGroup) (page : ListPage)
    (rest : List ListPage) : groupPages group (page :: rest)
      = (collect group page.sorted).1 ++ if page.isTruncated
        then groupPages (collect group page.sorted).2 rest
        else (collect group page.sorted).2.toList := by
  simp only [groupPages]
  cases page.isTruncated <;> rfl

/-- The loop reads these responses. -/
theorem pageGroups_eq_groupPages (bucket : BucketListing) (folder : String)
    (marker : Option Marker) (group : Option KeyGroup) :
    pageGroups bucket folder marker group = groupPages group (pages bucket folder marker) := by
  induction hleft : (bucket.left folder marker).length using Nat.strongRecOn
    generalizing marker group with
  | ind n ih =>
    rw [pageGroups, pages]
    cases htruncated : (bucket.listObjectVersions folder marker).isTruncated with
    | false =>
      simp only [Bool.false_eq_true, if_false]
      rw [groupPages_cons, htruncated]
      rfl
    | true =>
      simp only [if_true]
      cases hnext : (bucket.listObjectVersions folder marker).nextMarker with
      | none =>
        simp only
        rw [groupPages_cons, htruncated]
        rfl
      | some next =>
        simp only
        rw [groupPages_cons, htruncated, ih _ (hleft ▸ length_left_next hnext) _ _ rfl]
        rfl

/-- A response with these entries. -/
def pageOf (entries : List ListedVersion) (isTruncated : Bool) : ListPage where
  versions := entries.filter fun entry => !entry.deleteMarker
  deleteMarkers := entries.filter fun entry => entry.deleteMarker
  isTruncated := isTruncated
  nextMarker := entries.getLast?.map fun entry => ⟨entry.key, some entry.versionId⟩

/-- The responses of a split: all but the last one are truncated. -/
def pagesOf : List (List ListedVersion) → List ListPage
  | [] => []
  | [part] => [pageOf part false]
  | part :: next :: parts => pageOf part true :: pagesOf (next :: parts)

/-- The responses of a split are collected as one list that is alike the listing. -/
private theorem exists_alike_split (parts : List (List ListedVersion)) :
    ∀ group : Option KeyGroup, Ordered parts.flatten → ∃ entries, Ordered entries
      ∧ Alike entries parts.flatten
      ∧ groupPages group (pagesOf parts) = finish (collect group entries) := by
  induction parts with
  | nil => exact fun group _ => ⟨[], List.Pairwise.nil, ⟨.refl _, fun _ _ => rfl⟩, rfl⟩
  | cons part rest ih =>
    intro group hordered
    cases rest with
    | nil =>
      obtain ⟨hpage, halike⟩ := sorted_page part (pageOf part false) rfl rfl
      exact ⟨_, hpage, by rw [List.flatten_singleton]; exact halike, rfl⟩
    | cons next parts =>
      obtain ⟨hpage, halike⟩ := sorted_page part (pageOf part true) rfl rfl
      rw [List.flatten_cons, Ordered, List.pairwise_append] at hordered
      obtain ⟨entries, hentries, hrest, hgroups⟩ :=
        ih (collect group (pageOf part true).sorted).2 hordered.2.1
      refine ⟨(pageOf part true).sorted ++ entries, ?_, ?_, ?_⟩
      · exact List.pairwise_append.mpr ⟨hpage, hentries, fun a ha b hb =>
          hordered.2.2 a (halike.perm.mem_iff.mp ha) b (hrest.perm.mem_iff.mp hb)⟩
      · rw [List.flatten_cons]
        exact halike.append hrest
      · rw [pagesOf, groupPages_cons, hgroups, collect_append]
        exact (List.append_assoc ..).symm

/-- **The pages of a split do not show.** -/
theorem groupPages_pagesOf {parts : List (List ListedVersion)} (h : Ordered parts.flatten) :
    groupPages none (pagesOf parts) = groupsOf parts.flatten := by
  obtain ⟨entries, hentries, halike, hgroups⟩ := exists_alike_split parts none h
  rw [hgroups, finish_collect hentries]
  exact halike.groupsOf_eq hentries h

/-- **Listing pages do not matter.** `iter_groups` gives the same groups for every split of what
S3 lists into pages, as for one page. There is one group for each key, in the order of the keys.
It has the version that is listed last, the oldest one, and counts the other versions and the
delete markers. -/
theorem split_irrelevant (bucket : BucketListing) {folder : String}
    (hread : bucket.refused folder = none) :
    ∃ groups, iterGroups bucket folder none = (groups, none)
      ∧ groupPages none (pages bucket folder none) = groups
      ∧ (∀ parts, parts.flatten = bucket.listed folder → groupPages none (pagesOf parts) = groups)
      ∧ groups.Pairwise (fun a b => a.key < b.key)
      ∧ (∀ key, key ∈ groups.map KeyGroup.key
        ↔ ∃ entry ∈ bucket.listed folder, entry.key = key)
      ∧ ∀ group ∈ groups,
        let entries := (bucket.listed folder).filter fun entry => decide (entry.key = group.key)
        let versions := entries.filter fun entry => !entry.deleteMarker
        group.first = versions.getLast? ∧ group.laterCount = versions.length - 1
          ∧ group.markerCount = (entries.filter fun entry => entry.deleteMarker).length := by
  have hordered := ordered_listed bucket folder
  have hloop : pageGroups bucket folder none none = groupsOf (bucket.listed folder) :=
    pageGroups_eq bucket folder none
  refine ⟨groupsOf (bucket.listed folder), ?_, ?_, ?_, groupsOf_ordered hordered, ?_, ?_⟩
  · unfold iterGroups
    rw [hread]
    exact congrArg (·, none) hloop
  · rw [← pageGroups_eq_groupPages, hloop]
  · intro parts hparts
    rw [← hparts] at hordered ⊢
    exact groupPages_pagesOf hordered
  · intro key
    rw [map_key_groupsOf, keysOf, List.mem_dedup, List.mem_map]
  · intro group hgroup
    obtain ⟨key, -, rfl⟩ := List.mem_map.mp hgroup
    exact ⟨rfl, rfl, rfl⟩

/-- A key with a delete marker between its two versions, and another one. -/
private def markedListing : BucketListing where
  entries := [⟨⟨"p/a", "3", 1, none⟩, false⟩, ⟨⟨"p/a", "2", 0, none⟩, true⟩,
    ⟨⟨"p/a", "1", 1, none⟩, false⟩, ⟨⟨"p/b", "1", 1, none⟩, false⟩]
  ordered := by decide
  distinct := by decide
  pageLength := fun _ _ => 1
  pageLength_pos := fun _ _ => Nat.one_pos
  refused := fun _ => none

/-- `split_irrelevant` for that bucket. -/
theorem split_irrelevant_marked : ∃ groups, iterGroups markedListing "p/" none = (groups, none)
    ∧ groups.Pairwise (fun a b => a.key < b.key) := by
  obtain ⟨groups, hgroups, -, -, hordered, -⟩ := @split_irrelevant markedListing "p/" rfl
  exact ⟨groups, hgroups, hordered⟩

end TrustPortal.Proofs.EvidenceStore
