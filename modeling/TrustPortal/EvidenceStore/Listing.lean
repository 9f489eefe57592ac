import Mathlib.Data.String.Basic
import Mathlib.Data.List.Infix
import TrustPortal.EvidenceStore.Sync
import TrustPortal.Lib.Slices

/-!
# `TrustPortal.EvidenceStore.Listing`: the listing of a bucket, grouped by key

S3 lists the versions and delete markers of a bucket in pages. `BucketListing` is what it has to
list: entries in the order of their keys, each named by its key and its version id, and how many
entries it puts into a page, which is its own choice up to `MaxKeys`. `listObjectVersions` is the
page it answers after a marker. A prefix can also be refused.

`iterGroups` reads the pages of a prefix and gives one `KeyGroup` for each key. A page holds the
versions and the delete markers in two lists, and the entries of one key can lie on several pages.
The loop ends because each page leaves fewer entries than the one before (`left_next`).
-/

set_option autoImplicit false

namespace TrustPortal.EvidenceStore

open TrustPortal.Lib

/-- `PREFIXES`. -/
def PREFIXES : List String :=
  ["decision-logs/", "pentest-evidence/", "codex-reviews/", "pentest-reports/",
    "evidence/artifacts/"]

/-- `LIST_PAGE_SIZE`. -/
def LIST_PAGE_SIZE : Nat := 1000

/-- `MAX_GROUP_DETAIL`. -/
def MAX_GROUP_DETAIL : Nat := 20

/-- `ListedVersion`: a version or a delete marker. -/
structure ListedVersion extends Listed where
  deleteMarker : Bool
  deriving DecidableEq, Repr

/-! ## The entries of a key -/

/-- `KeyGroup`: the versions and delete markers of one key, newest first. -/
structure KeyGroup where
  key : String
  first : Option ListedVersion
  later : List ListedVersion
  laterCount : Nat
  markers : List ListedVersion
  markerCount : Nat
  deriving DecidableEq, Repr

/-- `KeyGroup(key)`. -/
def KeyGroup.new (key : String) : KeyGroup := ⟨key, none, [], 0, [], 0⟩

/-- `KeyGroup.add`. -/
def KeyGroup.add (group : KeyGroup) (item : ListedVersion) : KeyGroup :=
  if item.deleteMarker then
    { group with
      markerCount := group.markerCount + 1
      markers :=
        if group.markers.length < MAX_GROUP_DETAIL then group.markers ++ [item]
        else group.markers }
  else
    match group.first with
    | none => { group with first := some item }
    | some first =>
      { group with
        laterCount := group.laterCount + 1
        later := if group.later.length < MAX_GROUP_DETAIL then group.later ++ [first] else group.later
        first := some item }

/-- How many versions and delete markers a group counts. -/
def KeyGroup.size (group : KeyGroup) : Nat :=
  (if group.first.isSome then 1 else 0) + group.laterCount + group.markerCount

/-! ## The pages -/

/-- `KeyMarker` and `VersionIdMarker` of a request. -/
structure Marker where
  key : String
  versionId : Option String
  deriving DecidableEq, Repr

/-- A response of `list_object_versions`. -/
structure ListPage where
  versions : List ListedVersion
  deleteMarkers : List ListedVersion
  isTruncated : Bool
  nextMarker : Option Marker
  deriving DecidableEq, Repr

/-- The entries of a bucket as S3 lists them, the entries it puts into a page after a marker, and
the prefixes it refuses to list. -/
structure BucketListing where
  entries : List ListedVersion
  ordered : entries.Pairwise fun a b => a.key ≤ b.key
  distinct : (entries.map fun entry => (entry.key, entry.versionId)).Nodup
  pageLength : String → Option Marker → Nat
  pageLength_pos : ∀ folder marker, 0 < pageLength folder marker
  refused : String → Option S3Error

namespace BucketListing

variable (bucket : BucketListing) (folder : String) (marker : Option Marker)

/-- The entries under a prefix. -/
def listed : List ListedVersion :=
  bucket.entries.filter fun entry => folder.toList.isPrefixOf entry.key.toList

/-- The entries under a prefix after a marker: those of later keys, or those behind the version
the marker names. -/
def left : List ListedVersion :=
  match marker with
  | none => bucket.listed folder
  | some ⟨key, none⟩ => rowsAfter (fun entry : ListedVersion => entry.key) (bucket.listed folder) key
  | some ⟨key, some versionId⟩ =>
    ((bucket.listed folder).dropWhile fun entry =>
      !decide ((entry.key, entry.versionId) = (key, versionId))).drop 1

/-- The entries of a page. -/
def taken : List ListedVersion :=
  (bucket.left folder marker).take (min LIST_PAGE_SIZE (bucket.pageLength folder marker))

/-- `list_object_versions`. -/
def listObjectVersions : ListPage :=
  let taken := bucket.taken folder marker
  { versions := taken.filter fun entry => !entry.deleteMarker
    deleteMarkers := taken.filter fun entry => entry.deleteMarker
    isTruncated := decide (taken.length < (bucket.left folder marker).length)
    nextMarker := taken.getLast?.map fun entry => ⟨entry.key, some entry.versionId⟩ }

end BucketListing

section
variable {bucket : BucketListing} {folder : String} {marker : Option Marker}

private theorem listed_ordered :
    (bucket.listed folder).Pairwise fun a b : ListedVersion => a.key ≤ b.key :=
  bucket.ordered.filter _

private theorem listed_distinct :
    ((bucket.listed folder).map fun entry : ListedVersion => (entry.key, entry.versionId)).Nodup :=
  bucket.distinct.sublist (List.filter_sublist.map _)

/-- In the order of their keys, the entries of later keys stand at the end. -/
private theorem rowsAfter_suffix {entries : List ListedVersion}
    (h : entries.Pairwise fun a b => a.key ≤ b.key) (key : String) :
    rowsAfter (fun entry : ListedVersion => entry.key) entries key <:+ entries := by
  induction entries with
  | nil => exact List.suffix_rfl
  | cons entry rest ih =>
    rw [List.pairwise_cons] at h
    by_cases hkey : key < entry.key
    · -- From the first entry of a later key on, all are of later keys.
      have hall : rowsAfter (fun entry : ListedVersion => entry.key) (entry :: rest) key
          = entry :: rest := by
        rw [rowsAfter, List.filter_eq_self]
        intro other hother
        rcases List.mem_cons.mp hother with rfl | hother
        · exact decide_eq_true hkey
        · exact decide_eq_true (lt_of_lt_of_le hkey (h.1 other hother))
      rw [hall]
    · rw [rowsAfter, List.filter_cons_of_neg (by simpa using hkey)]
      exact (ih h.2).trans (List.suffix_cons entry rest)

private theorem left_suffix : bucket.left folder marker <:+ bucket.listed folder := by
  unfold BucketListing.left
  split
  · exact List.suffix_rfl
  · exact rowsAfter_suffix listed_ordered _
  · exact (List.drop_suffix 1 _).trans (List.dropWhile_suffix _)

/-- The entry a marker names stands once, so the marker leaves what stands behind it. -/
private theorem left_of_split {before after : List ListedVersion} {entry : ListedVersion}
    (h : bucket.listed folder = before ++ entry :: after) :
    bucket.left folder (some ⟨entry.key, some entry.versionId⟩) = after := by
  have hdistinct := @listed_distinct bucket folder
  rw [h, List.map_append, List.map_cons, List.nodup_append] at hdistinct
  have hbefore : ∀ other ∈ before, (!decide ((other.key, other.versionId)
      = (entry.key, entry.versionId))) = true := by
    intro other hother
    have hne := hdistinct.2.2 _ (List.mem_map_of_mem hother) _ List.mem_cons_self
    simpa [imp_iff_not_or] using hne
  show ((bucket.listed folder).dropWhile _).drop 1 = after
  rw [h, List.dropWhile_append_of_pos hbefore, List.dropWhile_cons_of_neg (by simp)]
  rfl

/-- After a page, its own last entry is the marker and the rest of the entries is left. -/
theorem left_next {next : Marker}
    (hnext : (bucket.listObjectVersions folder marker).nextMarker = some next) :
    bucket.left folder marker = bucket.taken folder marker ++ bucket.left folder (some next) := by
  obtain ⟨entry, hlast, rfl⟩ := Option.map_eq_some_iff.mp hnext
  obtain ⟨front, hfront⟩ := List.getLast?_eq_some_iff.mp hlast
  obtain ⟨before, hbefore⟩ := @left_suffix bucket folder marker
  have hsplit : bucket.left folder marker = bucket.taken folder marker
      ++ (bucket.left folder marker).drop
        (min LIST_PAGE_SIZE (bucket.pageLength folder marker)) :=
    (List.take_append_drop _ _).symm
  have hlisted : bucket.listed folder = (before ++ front) ++ entry
      :: (bucket.left folder marker).drop
        (min LIST_PAGE_SIZE (bucket.pageLength folder marker)) := by
    rw [← hbefore]
    conv_lhs => rw [hsplit, hfront]
    simp
  rw [left_of_split hlisted]
  exact hsplit

/-- A page is empty only where nothing is left. -/
theorem taken_ne_nil (h : bucket.left folder marker ≠ []) : bucket.taken folder marker ≠ [] := by
  have hpos : 0 < min LIST_PAGE_SIZE (bucket.pageLength folder marker) :=
    lt_min (by decide) (bucket.pageLength_pos folder marker)
  rw [BucketListing.taken, Ne, List.take_eq_nil_iff]
  rintro (hzero | hnil)
  · omega
  · exact h hnil

/-- A page with a next marker leaves fewer entries. -/
theorem length_left_next {next : Marker}
    (hnext : (bucket.listObjectVersions folder marker).nextMarker = some next) :
    (bucket.left folder (some next)).length < (bucket.left folder marker).length := by
  obtain ⟨entry, hlast, -⟩ := Option.map_eq_some_iff.mp hnext
  have hpos : 0 < (bucket.taken folder marker).length :=
    List.length_pos_of_mem (List.mem_of_getLast? hlast)
  have hlength := congrArg List.length (left_next hnext)
  rw [List.length_append] at hlength
  omega

end

/-! ## The groups -/

/-- The entries of a page in the order of `entries.sort`: by key, the versions of a key before its
delete markers, each in the order of the page. -/
def ListPage.sorted (page : ListPage) : List ListedVersion :=
  (page.versions ++ page.deleteMarkers).mergeSort fun a b => decide (a.key ≤ b.key)

/-- The entries of a page, added to the group that is open: the groups that are complete and the
one that is open then. -/
def collect (group : Option KeyGroup) : List ListedVersion → List KeyGroup × Option KeyGroup
  | [] => ([], group)
  | item :: items =>
    match group with
    | none => collect (some ((KeyGroup.new item.key).add item)) items
    | some group =>
      if group.key = item.key then collect (some (group.add item)) items
      else
        let (groups, last) := collect (some ((KeyGroup.new item.key).add item)) items
        (group :: groups, last)

/-- The loop of `iter_groups` over the pages from a marker on, with the group that is open. -/
def pageGroups (bucket : BucketListing) (folder : String) (marker : Option Marker)
    (group : Option KeyGroup) : List KeyGroup :=
  let page := bucket.listObjectVersions folder marker
  let (groups, last) := collect group page.sorted
  if page.isTruncated then
    match _hnext : page.nextMarker with
    | some next => groups ++ pageGroups bucket folder (some next) last
    | none => groups ++ last.toList
  else groups ++ last.toList
termination_by (bucket.left folder marker).length
decreasing_by exact length_left_next _hnext

/-- `iter_groups_safely`: the groups of the keys under a prefix after a key, and the error that
ended the listing. -/
def iterGroups (bucket : BucketListing) (folder : String) (startAfter : Option String) :
    List KeyGroup × Option S3Error :=
  match bucket.refused folder with
  | some error => ([], some error)
  | none =>
    let marker := match startAfter with
      | some key => if key = "" then none else some ⟨key, none⟩
      | none => none
    (pageGroups bucket folder marker none, none)

end TrustPortal.EvidenceStore
