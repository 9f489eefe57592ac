import Mathlib.Data.List.Dedup
import TrustPortal.GitSources.Compare

/-!
# `TrustPortal.Proofs.GitSources.Compare`: the compare API and the manifests agree

A report of the compare API is a list of files with a status each. A file has an old side, the
entry that it takes away from the tree, a new side, the entry that it brings, or both: `removed` and
the name that a file was renamed from are old sides, `added`, `copied` and the new name are new
sides, and a modified file is both. `Reports` says that a report is one of the difference of two
trees: an entry that only one tree has, or that differs, is on its side exactly once. So a report
may name files in any way, chains and swaps of names included.

`filter_changes` is the reason why the changes come out right: the sides of one path are at most
two, whatever pairs they belong to, and `_normalize_changes` makes one change of them.
`compare_agrees_iff` is the result. The two ways agree exactly when no submodule is in the report,
since `_changes_from_compare` takes a submodule for a file and the manifests have none.
-/

set_option autoImplicit false

namespace TrustPortal.Proofs.GitSources

open TrustPortal.GitSources
open TrustPortal.Audit (truthy)
open TrustPortal.Lib

/-! ## Trees and reports -/

/-- The entries of a tree, submodules and directories included, each at a path of its own. -/
structure RepoTree where
  items : List TreeItem
  named : ∀ item ∈ items, item.path ≠ "" ∧ item.sha ≠ ""
  nodup : (items.map (·.path)).Nodup

/-- The file or submodule at a path. -/
def RepoTree.entry (tree : RepoTree) (path : String) : Option TreeItem :=
  (Dict.get (·.path) tree.items path).filter fun item => item.type ≠ .tree

/-- The blob of the file at a path. -/
def RepoTree.blob (tree : RepoTree) (path : String) : Option String :=
  ((tree.entry path).filter fun item => item.type = .blob).map (·.sha)

/-- The statuses of the compare API. -/
inductive FileStatus
  | added
  | removed
  | modified
  | renamed
  | copied
  | changed
  | unchanged
  deriving DecidableEq, Repr

/-- The text of a status. -/
def FileStatus.text : FileStatus → String
  | .added => "added"
  | .removed => "removed"
  | .modified => "modified"
  | .renamed => "renamed"
  | .copied => "copied"
  | .changed => "changed"
  | .unchanged => "unchanged"

/-- A file that the compare API reports. -/
structure ReportedFile where
  status : FileStatus
  filename : String
  sha : String
  previousFilename : Option String

/-- The file as the provider receives it. -/
def ReportedFile.file (f : ReportedFile) : CompareFile :=
  ⟨some f.status.text, some f.filename, some f.sha, f.previousFilename⟩

/-- The path whose entry the file takes away. -/
def ReportedFile.oldPath (f : ReportedFile) : Option String :=
  match f.status with
  | .removed | .modified | .changed => some f.filename
  | .renamed => f.previousFilename
  | .added | .copied | .unchanged => none

/-- The path whose entry the file brings. -/
def ReportedFile.newPath (f : ReportedFile) : Option String :=
  match f.status with
  | .added | .modified | .renamed | .copied | .changed => some f.filename
  | .removed | .unchanged => none

/-- The report is one of the difference of the two trees. -/
structure Reports (before after : RepoTree) (files : List ReportedFile) : Prop where
  /-- Each file has a name, and a renamed one its previous name. -/
  named : ∀ f ∈ files, f.filename ≠ ""
    ∧ (f.status = .renamed → ∃ path, f.previousFilename = some path ∧ path ≠ "")
  old : ∀ f ∈ files, ∀ path, f.oldPath = some path → (before.entry path).isSome = true
  new : ∀ f ∈ files, ∀ path, f.newPath = some path →
    ∃ item, after.entry path = some item ∧ item.sha = f.sha
  oldOnce : (files.filterMap ReportedFile.oldPath).Nodup
  newOnce : (files.filterMap ReportedFile.newPath).Nodup
  /-- An entry that differs is on its side. -/
  oldAll : ∀ path, before.entry path ≠ after.entry path → (before.entry path).isSome = true →
    path ∈ files.filterMap ReportedFile.oldPath
  newAll : ∀ path, before.entry path ≠ after.entry path → (after.entry path).isSome = true →
    path ∈ files.filterMap ReportedFile.newPath
  /-- An entry that does not differ is on both sides or on none. -/
  same : ∀ path, before.entry path = after.entry path →
    (path ∈ files.filterMap ReportedFile.oldPath ↔ path ∈ files.filterMap ReportedFile.newPath)

/-- What the provider receives of a report: the trees are a direct comparison, with fewer files than
the limit. -/
structure Direct (data : Comparison) (files : List ReportedFile) : Prop where
  status : data.status = some "ahead" ∨ data.status = some "identical"
  listed : data.files = some (files.map ReportedFile.file)
  short : files.length < COMPARE_FILE_LIMIT

/-- The lists have the same changes, apart from modifications that leave the blob unchanged. -/
def SameChanges (before : RepoTree) (changes exact : List Change) : Prop :=
  ∀ c, c ∈ exact
    ↔ c ∈ changes ∧ ¬(c.changeType = .modified ∧ c.blobId.isSome = true
      ∧ before.blob c.path = c.blobId)

/-- No file of the report is a submodule, before or after. -/
def NoSubmodules (before after : RepoTree) (files : List ReportedFile) : Prop :=
  ∀ path, path ∈ files.filterMap ReportedFile.oldPath
      ∨ path ∈ files.filterMap ReportedFile.newPath →
    ∀ item, before.entry path = some item ∨ after.entry path = some item → item.type ≠ .commit

/-! ## Manifests -/

/-- The manifest of a tree has the blobs of its files. -/
private theorem get_manifest (tree : RepoTree) (path : String) :
    (Dict.get Prod.fst (manifest tree.items) path).map Prod.snd = tree.blob path := by
  have hperm := List.perm_insertionSort (fun a b : String × String => a.1 ≤ b.1)
    ((tree.items.filter fun item => item.type = .blob && item.path ≠ "" && item.sha ≠ "").map
      fun item => (item.path, item.sha))
  have hkeys : ((listTree tree.items).map Prod.fst).Nodup := by
    rw [listTree, (hperm.map Prod.fst).nodup_iff, List.map_map]
    exact tree.nodup.sublist (List.filter_sublist.map _)
  have hdict : manifest tree.items = listTree tree.items := by
    rw [manifest, Dict.foldl_put _ hkeys, List.nil_append]
  have hmem : ∀ sha, (path, sha) ∈ listTree tree.items ↔ tree.blob path = some sha := by
    intro sha
    rw [listTree, hperm.mem_iff, List.mem_map]
    simp only [RepoTree.blob, RepoTree.entry, Option.map_eq_some_iff, Option.filter_eq_some_iff,
      Dict.get_eq_some_iff tree.nodup, List.mem_filter, Bool.and_eq_true, decide_eq_true_eq,
      Prod.mk.injEq]
    constructor
    · rintro ⟨item, ⟨hitem, ⟨htype, _⟩, _⟩, hpath, hsha⟩
      exact ⟨item, ⟨⟨⟨hitem, hpath⟩, by rw [htype]; nofun⟩, htype⟩, hsha⟩
    · rintro ⟨item, ⟨⟨⟨hitem, hpath⟩, _⟩, htype⟩, hsha⟩
      exact ⟨item, ⟨hitem, ⟨htype, (tree.named item hitem).1⟩, (tree.named item hitem).2⟩, hpath,
        hsha⟩
  rw [hdict]
  refine Option.ext fun sha => ?_
  rw [← hmem, Option.map_eq_some_iff]
  constructor
  · rintro ⟨pair, hpair, rfl⟩
    have hfound := (Dict.get_eq_some_iff hkeys).mp hpair
    rw [← hfound.2]
    exact hfound.1
  · exact fun h => ⟨(path, sha), (Dict.get_eq_some_iff hkeys).mpr ⟨h, rfl⟩, rfl⟩

/-- A change of the manifests is one of its path. -/
private theorem blobChange_path {path : String} {old new : Option String} {c : Change}
    (h : blobChange path old new = some c) : c.path = path := by
  cases old with
  | none =>
    cases new with
    | none => cases h
    | some blob => cases h; rfl
  | some oldBlob =>
    cases new with
    | none => cases h; rfl
    | some blob =>
      rw [blobChange] at h
      split_ifs at h
      cases h
      rfl

/-- `_tree_diff` gives each path the change of its blobs. -/
private theorem mem_treeDiff {before after : RepoTree} {c : Change} :
    c ∈ treeDiff before.items after.items
      ↔ blobChange c.path (before.blob c.path) (after.blob c.path) = some c := by
  have hkey : ∀ (tree : RepoTree) {path : String}, (tree.blob path).isSome = true →
      path ∈ (manifest tree.items).map Prod.fst := by
    intro tree path hblob
    rw [← get_manifest, Option.isSome_map] at hblob
    obtain ⟨pair, hpair⟩ := Option.isSome_iff_exists.mp hblob
    rw [← Dict.key_of_get hpair]
    exact List.mem_map_of_mem (List.mem_of_find?_eq_some hpair)
  rw [treeDiff, diffManifests, List.mem_filterMap]
  simp only [get_manifest]
  constructor
  · rintro ⟨path, _, h⟩
    rw [blobChange_path h]
    exact h
  · intro h
    refine ⟨c.path, ?_, h⟩
    rw [List.mem_insertionSort, List.mem_dedup, List.map_append, List.mem_append]
    -- a path without a blob on either side has no change
    by_cases hbefore : (before.blob c.path).isSome = true
    · exact .inl (hkey before hbefore)
    · by_cases hafter : (after.blob c.path).isSome = true
      · exact .inr (hkey after hafter)
      · rw [Option.not_isSome_iff_eq_none.mp hbefore,
          Option.not_isSome_iff_eq_none.mp hafter] at h
        cases h

/-! ## The changes of one path -/

/-- The change takes an entry away. -/
private def takes (c : Change) : Bool := c.changeType ≠ .added

/-- The change brings an entry. -/
private def brings (c : Change) : Bool := c.changeType ≠ .deleted

/-- What is left of the changes of a path. -/
private def merged (changes : List Change) : Option Change :=
  changes.foldl (fun old change => some (mergeChange old change)) none

/-- A change of a path that has an entry before, after or both. -/
private def sideChange (path : String) (old new : Prop) [Decidable old] [Decidable new]
    (blob : Option String) : Option Change :=
  if old then if new then some ⟨path, .modified, blob⟩ else some ⟨path, .deleted, none⟩
  else if new then some ⟨path, .added, blob⟩ else none

/-- A change that is merged keeps its path. -/
private theorem mergeChange_path (old : Option Change) (change : Change) :
    (mergeChange old change).path = change.path := by
  cases old with
  | none => rfl
  | some old =>
    obtain ⟨_, oldType, _⟩ := old
    obtain ⟨_, type, _⟩ := change
    cases oldType <;> cases type <;> rfl

/-- `_normalize_changes` merges the changes of each path. -/
private theorem mem_normalizeChanges {changes : List Change} {c : Change} :
    c ∈ normalizeChanges changes ↔ merged (changes.filter fun x => x.path = c.path) = some c := by
  have hkeys : ((changes.foldl addChange []).map Change.path).Nodup :=
    Dict.nodup_foldl_put changes List.nodup_nil
  rw [normalizeChanges, List.mem_insertionSort]
  calc c ∈ changes.foldl addChange []
      ↔ Dict.get Change.path (changes.foldl addChange []) c.path = some c := by
        rw [Dict.get_eq_some_iff hkeys, and_iff_left rfl]
    _ ↔ _ := by
        rw [show Dict.get Change.path (changes.foldl addChange []) c.path = _ from
          Dict.get_foldl_put mergeChange_path changes]
        rfl

/-- At most one change takes the entry of the path away, and at most one brings one. Whatever their
order is, one change comes out of them. -/
private theorem merged_eq {changes : List Change} {path : String} {blob : Option String}
    {old new : Prop} [Decidable old] [Decidable new]
    (hform : ∀ c ∈ changes, ∃ type, c = ⟨path, type, if type = .deleted then none else blob⟩)
    (hold : changes.countP takes = if old then 1 else 0)
    (hnew : changes.countP brings = if new then 1 else 0) :
    merged changes = sideChange path old new blob := by
  cases changes with
  | nil =>
    have hsides : ¬old ∧ ¬new := by
      constructor
      · intro h; simp [h] at hold
      · intro h; simp [h] at hnew
    rw [sideChange, if_neg hsides.1, if_neg hsides.2]
    rfl
  | cons c rest =>
    obtain ⟨ctype, rfl⟩ := hform c List.mem_cons_self
    cases rest with
    | nil =>
      rw [List.countP_singleton] at hold hnew
      cases ctype <;> by_cases old <;> by_cases new <;>
        simp_all [takes, brings, sideChange, merged, mergeChange]
    | cons d rest =>
      obtain ⟨dtype, rfl⟩ := hform d (by simp)
      cases rest with
      | nil =>
        rw [List.countP_cons, List.countP_singleton] at hold hnew
        cases ctype <;> cases dtype <;> by_cases old <;> by_cases new <;>
          simp_all [takes, brings, sideChange, merged, mergeChange]
      | cons e rest =>
        -- three changes are too many for two sides
        obtain ⟨etype, rfl⟩ := hform e (by simp)
        have hones : (if old then 1 else 0) ≤ 1 ∧ (if new then 1 else 0) ≤ 1 := by
          constructor <;> split_ifs <;> omega
        rw [List.countP_cons, List.countP_cons, List.countP_cons] at hold hnew
        exfalso
        cases ctype <;> cases dtype <;> cases etype <;> simp [takes, brings] at hold hnew <;> omega

/-! ## The changes of a report -/

/-- The changes of a reported file. -/
private def reported (f : ReportedFile) : List Change :=
  match f.status with
  | .removed => [⟨f.filename, .deleted, none⟩]
  | .unchanged => []
  | .renamed => [⟨f.previousFilename.getD "", .deleted, none⟩, ⟨f.filename, .added, some f.sha⟩]
  | .added | .copied => [⟨f.filename, .added, some f.sha⟩]
  | .modified | .changed => [⟨f.filename, .modified, some f.sha⟩]

/-- A text that is not empty is true. -/
private theorem truthy_some {text : String} (h : text ≠ "") : truthy (some text) = true := by
  rw [truthy, decide_eq_true_eq]
  exact h

/-- The provider reads a reported file. -/
private theorem fileChanges_file {f : ReportedFile} (hname : f.filename ≠ "")
    (hprevious : f.status = .renamed → ∃ path, f.previousFilename = some path ∧ path ≠ "")
    (hsha : f.newPath.isSome = true → f.sha ≠ "") : fileChanges f.file = some (reported f) := by
  obtain ⟨status, filename, sha, previousFilename⟩ := f
  have hfilename := truthy_some hname
  cases status with
  | removed => simp [fileChanges, ReportedFile.file, FileStatus.text, hfilename, reported]
  | unchanged => simp [fileChanges, ReportedFile.file, FileStatus.text, hfilename, reported]
  | renamed =>
    obtain ⟨path, rfl, hpath⟩ := hprevious rfl
    simp [fileChanges, ReportedFile.file, FileStatus.text, hfilename, truthy_some (hsha rfl),
      truthy_some hpath, reported]
  | added | copied | modified | changed =>
    simp [fileChanges, ReportedFile.file, FileStatus.text, hfilename, truthy_some (hsha rfl),
      reported]

section
variable {before after : RepoTree} {files : List ReportedFile}

/-- Every file of a report is read. -/
private theorem mapM_fileChanges (h : Reports before after files) :
    (files.map ReportedFile.file).mapM fileChanges = some (files.map reported) := by
  have hread : ∀ f ∈ files, fileChanges f.file = some (reported f) := by
    intro f hf
    refine fileChanges_file (h.named f hf).1 (h.named f hf).2 fun hnew => ?_
    obtain ⟨path, hpath⟩ := Option.isSome_iff_exists.mp hnew
    obtain ⟨item, hitem, hsha⟩ := h.new f hf path hpath
    have hmem := List.mem_of_find?_eq_some (Option.filter_eq_some_iff.mp hitem).1
    exact hsha ▸ (after.named item hmem).2
  clear h
  induction files with
  | nil => rfl
  | cons f rest ih =>
    rw [List.map_cons, List.mapM_cons, hread f List.mem_cons_self,
      ih fun g hg => hread g (List.mem_cons_of_mem f hg)]
    rfl

/-- The changes of a path that take its entry away are as many as the old sides of the path. -/
private theorem countP_takes (hprevious : ∀ f ∈ files, f.status = .renamed →
    ∃ path, f.previousFilename = some path) (path : String) :
    ((files.map reported).flatten.filter fun x => x.path = path).countP takes
      = (files.filterMap ReportedFile.oldPath).count path := by
  induction files with
  | nil => rfl
  | cons f rest ih =>
    have hrest := ih fun g hg => hprevious g (List.mem_cons_of_mem f hg)
    rw [List.map_cons, List.flatten_cons, List.filter_append, List.countP_append, hrest]
    have hfile : ((reported f).filter fun x => x.path = path).countP takes
        = if f.oldPath = some path then 1 else 0 := by
      have hrenamed := hprevious f List.mem_cons_self
      obtain ⟨status, filename, sha, previousFilename⟩ := f
      cases status with
      | renamed =>
        obtain ⟨previous, rfl⟩ := hrenamed rfl
        by_cases hp : previous = path <;> by_cases hf : filename = path <;>
          simp [reported, ReportedFile.oldPath, takes, hp, hf]
      | removed | added | copied | modified | changed | unchanged =>
        by_cases hf : filename = path <;> simp [reported, ReportedFile.oldPath, takes, hf]
    rw [hfile]
    cases hold : f.oldPath with
    | none => simp [hold]
    | some old => by_cases hp : old = path <;> simp [hold, hp, Nat.add_comm]

/-- The changes of a path that bring an entry are as many as the new sides of the path. -/
private theorem countP_brings (path : String) :
    ((files.map reported).flatten.filter fun x => x.path = path).countP brings
      = (files.filterMap ReportedFile.newPath).count path := by
  induction files with
  | nil => rfl
  | cons f rest ih =>
    rw [List.map_cons, List.flatten_cons, List.filter_append, List.countP_append, ih]
    have hfile : ((reported f).filter fun x => x.path = path).countP brings
        = if f.newPath = some path then 1 else 0 := by
      obtain ⟨status, filename, sha, previousFilename⟩ := f
      cases status with
      | renamed =>
        by_cases hp : previousFilename.getD "" = path <;> by_cases hf : filename = path <;>
          simp [reported, ReportedFile.newPath, brings, hp, hf]
      | removed | added | copied | modified | changed | unchanged =>
        by_cases hf : filename = path <;> simp [reported, ReportedFile.newPath, brings, hf]
    rw [hfile]
    cases hnew : f.newPath with
    | none => simp [hnew]
    | some new => by_cases hp : new = path <;> simp [hnew, hp, Nat.add_comm]

/-- The changes of a path carry the blob that the tree has after it. -/
private theorem change_form (h : Reports before after files) {path : String} :
    ∀ c ∈ (files.map reported).flatten.filter fun x => x.path = path, ∃ type,
      c = ⟨path, type, if type = .deleted then none else (after.entry path).map (·.sha)⟩ := by
  intro c hmem
  obtain ⟨hflat, hpath⟩ := List.mem_filter.mp hmem
  rw [decide_eq_true_eq] at hpath
  subst hpath
  obtain ⟨_, hchanges, hc⟩ := List.mem_flatten.mp hflat
  obtain ⟨f, hf, rfl⟩ := List.mem_map.mp hchanges
  -- a change that brings an entry is of the new side, which has the entry's id
  have hnew : ∀ type, type ≠ .deleted → c = ⟨f.filename, type, some f.sha⟩ →
      f.newPath = some f.filename → ∃ type,
        c = ⟨c.path, type, if type = .deleted then none else (after.entry c.path).map (·.sha)⟩ := by
    intro type htype hform hside
    obtain ⟨item, hitem, hsha⟩ := h.new f hf f.filename hside
    refine ⟨type, ?_⟩
    rw [hform, if_neg htype, hitem, Option.map_some, hsha]
  have hold : c = ⟨c.path, .deleted, none⟩ → ∃ type,
      c = ⟨c.path, type, if type = .deleted then none else (after.entry c.path).map (·.sha)⟩ :=
    fun hform => ⟨.deleted, hform⟩
  obtain ⟨status, filename, sha, previousFilename⟩ := f
  cases status with
  | removed =>
    rw [List.mem_singleton.mp hc]
    exact ⟨.deleted, rfl⟩
  | unchanged => cases hc
  | renamed =>
    rcases List.mem_cons.mp hc with hc | hc
    · rw [hc]
      exact ⟨.deleted, rfl⟩
    · exact hnew .added nofun (List.mem_singleton.mp hc) rfl
  | added | copied => exact hnew .added nofun (List.mem_singleton.mp hc) rfl
  | modified | changed => exact hnew .modified nofun (List.mem_singleton.mp hc) rfl

/-- A path has the change of its sides. -/
private theorem filter_changes (h : Reports before after files) {c : Change} :
    c ∈ normalizeChanges (files.map reported).flatten
      ↔ sideChange c.path (c.path ∈ files.filterMap ReportedFile.oldPath)
        (c.path ∈ files.filterMap ReportedFile.newPath) ((after.entry c.path).map (·.sha))
          = some c := by
  have hcount : ∀ {paths : List String}, paths.Nodup → ∀ path,
      paths.count path = if path ∈ paths then 1 else 0 := by
    intro paths hpaths path
    split_ifs with hmem
    · exact List.count_eq_one_of_mem hpaths hmem
    · exact List.count_eq_zero_of_not_mem hmem
  have hprevious : ∀ f ∈ files, f.status = .renamed → ∃ path, f.previousFilename = some path := by
    intro f hf hstatus
    obtain ⟨path, hpath, _⟩ := (h.named f hf).2 hstatus
    exact ⟨path, hpath⟩
  rw [mem_normalizeChanges, merged_eq (change_form h)
    ((countP_takes hprevious c.path).trans (hcount h.oldOnce c.path))
    ((countP_brings c.path).trans (hcount h.newOnce c.path))]

/-! ## The two ways -/

/-- An entry of a tree is a file or a submodule. -/
private theorem entry_type {tree : RepoTree} {path : String} {item : TreeItem}
    (h : tree.entry path = some item) : item.type = .blob ∨ item.type = .commit := by
  have htype := (Option.filter_eq_some_iff.mp h).2
  cases item with
  | mk type path sha => cases type <;> simp_all

/-- The blob of an entry. -/
private theorem blob_of_entry {tree : RepoTree} {path : String} {item : TreeItem}
    (h : tree.entry path = some item) :
    tree.blob path = if item.type = .blob then some item.sha else none := by
  rw [RepoTree.blob, h]
  split_ifs with htype
  · simp [htype]
  · simp [htype]

private theorem blob_of_none {tree : RepoTree} {path : String} (h : tree.entry path = none) :
    tree.blob path = none := by
  rw [RepoTree.blob, h]
  rfl

/-- Blobs that are equal are no change. -/
private theorem blobChange_self (path : String) (blob : Option String) :
    blobChange path blob blob = none := by
  cases blob with
  | none => rfl
  | some blob => exact if_neg (not_not_intro rfl)

/-- The blob of an entry that stands at a path. -/
private def blobOf (item : TreeItem) : Option String :=
  if item.type = .blob then some item.sha else none

/-- The changes that the two ways have of one path agree, apart from modifications that leave the
blob unchanged. -/
private def AgreeAt (path : String) (old new : Option String) (reported : Option Change) : Prop :=
  ∀ c : Change, c.path = path →
    (blobChange path old new = some c ↔ reported = some c
      ∧ ¬(c.changeType = .modified ∧ c.blobId.isSome = true ∧ old = c.blobId))

/-- An entry on both sides is a modification in the report. The manifests have a deletion, an
addition or nothing where a submodule is one of the two. -/
private theorem agreeAt_both {path : String} {i j : TreeItem}
    (hi : i.type = .blob ∨ i.type = .commit) (hj : j.type = .blob ∨ j.type = .commit) :
    AgreeAt path (blobOf i) (blobOf j) (some ⟨path, .modified, some j.sha⟩)
      ↔ i.type ≠ .commit ∧ j.type ≠ .commit := by
  constructor
  · intro hagree
    rcases hi with hi | hi <;> rcases hj with hj | hj
    · simp [hi, hj]
    · have hdeleted := hagree ⟨path, .deleted, none⟩ rfl
      simp [blobOf, hi, hj, blobChange] at hdeleted
    · have hadded := hagree ⟨path, .added, some j.sha⟩ rfl
      simp [blobOf, hi, hj, blobChange] at hadded
    · have hmodified := hagree ⟨path, .modified, some j.sha⟩ rfl
      simp [blobOf, hi, hj, blobChange] at hmodified
  · rintro ⟨hni, hnj⟩ c -
    rw [blobOf, blobOf, if_pos (hi.resolve_right hni), if_pos (hj.resolve_right hnj), blobChange]
    by_cases hsha : i.sha = j.sha
    · -- the report has a modification that leaves the blob
      rw [if_neg (not_not_intro hsha), hsha]
      constructor
      · nofun
      · rintro ⟨hc, hsame⟩
        cases hc
        exact absurd ⟨rfl, rfl, rfl⟩ hsame
    · rw [if_pos hsha]
      constructor
      · intro hc
        refine ⟨hc, ?_⟩
        cases hc
        rintro ⟨_, _, hsame⟩
        exact hsha (Option.some.inj hsame)
      · exact fun hc => hc.1

/-- An entry on the old side alone is a deletion. The manifests have none of a submodule. -/
private theorem agreeAt_old {path : String} {i : TreeItem}
    (hi : i.type = .blob ∨ i.type = .commit) :
    AgreeAt path (blobOf i) none (some ⟨path, .deleted, none⟩) ↔ i.type ≠ .commit := by
  constructor
  · intro hagree hcommit
    have hdeleted := hagree ⟨path, .deleted, none⟩ rfl
    simp [blobOf, hcommit, blobChange] at hdeleted
  · intro hnot c _
    rw [blobOf, if_pos (hi.resolve_right hnot), blobChange]
    constructor
    · intro hc
      refine ⟨hc, ?_⟩
      cases hc
      rintro ⟨hmodified, _⟩
      cases hmodified
    · exact fun hc => hc.1

/-- An entry on the new side alone is an addition. The manifests have none of a submodule. -/
private theorem agreeAt_new {path : String} {j : TreeItem}
    (hj : j.type = .blob ∨ j.type = .commit) :
    AgreeAt path none (blobOf j) (some ⟨path, .added, some j.sha⟩) ↔ j.type ≠ .commit := by
  constructor
  · intro hagree hcommit
    have hadded := hagree ⟨path, .added, some j.sha⟩ rfl
    simp [blobOf, hcommit, blobChange] at hadded
  · intro hnot c _
    rw [blobOf, if_pos (hj.resolve_right hnot), blobChange]
    constructor
    · intro hc
      refine ⟨hc, ?_⟩
      cases hc
      rintro ⟨hmodified, _⟩
      cases hmodified
    · exact fun hc => hc.1

/-- Blobs that are equal are no change, and a path outside the report has none. -/
private theorem agreeAt_same (path : String) (blob : Option String) :
    AgreeAt path blob blob none := by
  intro c _
  rw [blobChange_self]
  constructor
  · nofun
  · rintro ⟨hc, _⟩
    cases hc

/-- A path that is in the report on one side alone has no entry on the other. -/
private theorem Reports.entry_new (h : Reports before after files) {path : String}
    (hold : path ∈ files.filterMap ReportedFile.oldPath)
    (hnew : path ∉ files.filterMap ReportedFile.newPath) : after.entry path = none := by
  by_contra hj
  have hsome := Option.isSome_iff_ne_none.mpr hj
  by_cases heq : before.entry path = after.entry path
  · exact hnew ((h.same path heq).mp hold)
  · exact hnew (h.newAll path heq hsome)

private theorem Reports.entry_old (h : Reports before after files) {path : String}
    (hold : path ∉ files.filterMap ReportedFile.oldPath)
    (hnew : path ∈ files.filterMap ReportedFile.newPath) : before.entry path = none := by
  by_contra hi
  have hsome := Option.isSome_iff_ne_none.mpr hi
  by_cases heq : before.entry path = after.entry path
  · exact hold ((h.same path heq).mpr hnew)
  · exact hold (h.oldAll path heq hsome)

/-- A path outside the report has equal entries. -/
private theorem Reports.entry_same (h : Reports before after files) {path : String}
    (hold : path ∉ files.filterMap ReportedFile.oldPath)
    (hnew : path ∉ files.filterMap ReportedFile.newPath) :
    before.entry path = after.entry path := by
  by_contra hne
  cases hi : before.entry path with
  | some i => exact hold (h.oldAll path hne (by rw [hi]; rfl))
  | none =>
    cases hj : after.entry path with
    | some j => exact hnew (h.newAll path hne (by rw [hj]; rfl))
    | none => exact hne (hi.trans hj.symm)

/-- At one path the two ways agree exactly when the path has no submodule or is not in the
report. -/
private theorem agree_at (h : Reports before after files) (path : String) :
    AgreeAt path (before.blob path) (after.blob path)
        (sideChange path (path ∈ files.filterMap ReportedFile.oldPath)
          (path ∈ files.filterMap ReportedFile.newPath) ((after.entry path).map (·.sha)))
      ↔ (path ∈ files.filterMap ReportedFile.oldPath ∨ path ∈ files.filterMap ReportedFile.newPath →
        ∀ item, before.entry path = some item ∨ after.entry path = some item →
          item.type ≠ .commit) := by
  have hbefore : path ∈ files.filterMap ReportedFile.oldPath →
      ∃ item, before.entry path = some item := by
    intro hmem
    obtain ⟨f, hf, hside⟩ := List.mem_filterMap.mp hmem
    exact Option.isSome_iff_exists.mp (h.old f hf path hside)
  have hafter : path ∈ files.filterMap ReportedFile.newPath →
      ∃ item, after.entry path = some item := by
    intro hmem
    obtain ⟨f, hf, hside⟩ := List.mem_filterMap.mp hmem
    obtain ⟨item, hitem, _⟩ := h.new f hf path hside
    exact ⟨item, hitem⟩
  by_cases hold : path ∈ files.filterMap ReportedFile.oldPath <;>
    by_cases hnew : path ∈ files.filterMap ReportedFile.newPath
  · obtain ⟨i, hi⟩ := hbefore hold
    obtain ⟨j, hj⟩ := hafter hnew
    rw [sideChange, if_pos hold, if_pos hnew, blob_of_entry hi, blob_of_entry hj, hi, hj,
      Option.map_some]
    refine (agreeAt_both (entry_type hi) (entry_type hj)).trans ?_
    simp [hold, or_imp, forall_and]
  · obtain ⟨i, hi⟩ := hbefore hold
    have hj := h.entry_new hold hnew
    rw [sideChange, if_pos hold, if_neg hnew, blob_of_entry hi, blob_of_none hj, hi, hj]
    refine (agreeAt_old (entry_type hi)).trans ?_
    simp [hold]
  · obtain ⟨j, hj⟩ := hafter hnew
    have hi := h.entry_old hold hnew
    rw [sideChange, if_neg hold, if_pos hnew, blob_of_none hi, blob_of_entry hj, hi, hj,
      Option.map_some]
    refine (agreeAt_new (entry_type hj)).trans ?_
    simp [hnew]
  · have hblob : before.blob path = after.blob path := by
      rw [RepoTree.blob, h.entry_same hold hnew, RepoTree.blob]
    rw [sideChange, if_neg hold, if_neg hnew, hblob]
    exact ⟨fun _ hmem => (hmem.elim hold hnew).elim, fun _ => agreeAt_same path _⟩

end

/-- For every report of a direct comparison, the changes of the compare API are those of the
manifests, apart from modifications that leave the blob unchanged, exactly when no file of the
report is a submodule. -/
theorem compare_agrees_iff (before after : RepoTree) (files : List ReportedFile) (data : Comparison)
    (h : Reports before after files) (hdata : Direct data files) :
    ∃ changes, changesFromCompare data = some changes
      ∧ (SameChanges before changes (treeDiff before.items after.items)
        ↔ NoSubmodules before after files) := by
  refine ⟨normalizeChanges (files.map reported).flatten, ?_, ?_⟩
  · have hstatus : ¬(data.status ≠ some "ahead" ∧ data.status ≠ some "identical") := by
      rintro ⟨hahead, hidentical⟩
      exact hdata.status.elim hahead hidentical
    have hshort := hdata.short
    simp only [changesFromCompare, if_neg hstatus, hdata.listed, List.length_map,
      if_neg (Nat.not_le.mpr hshort), mapM_fileChanges h, Option.map_some]
  · constructor
    · intro hsame path
      refine (agree_at h path).mp fun c hc => ?_
      subst hc
      rw [← mem_treeDiff, ← filter_changes h]
      exact hsame c
    · intro hnone c
      rw [mem_treeDiff, filter_changes h]
      exact (agree_at h c.path).mpr (hnone c.path) c rfl

/-- Two files. -/
def twoFiles (a b : String) (ha : a ≠ "") (hb : b ≠ "") : RepoTree where
  items := [⟨.blob, "a.md", a⟩, ⟨.blob, "b.md", b⟩]
  named := by
    intro item hitem
    simp only [List.mem_cons, List.not_mem_nil, or_false] at hitem
    rcases hitem with rfl | rfl
    · exact ⟨show "a.md" ≠ "" by decide, ha⟩
    · exact ⟨show "b.md" ≠ "" by decide, hb⟩
  nodup := show ["a.md", "b.md"].Nodup by decide

/-- Two files that swap their names, each reported as renamed. -/
theorem compare_agrees_swap :
    ∃ changes, changesFromCompare ⟨some "ahead",
        some [⟨some "renamed", some "b.md", some "1", some "a.md"⟩,
          ⟨some "renamed", some "a.md", some "2", some "b.md"⟩]⟩ = some changes
      ∧ (SameChanges (twoFiles "1" "2" (by decide) (by decide)) changes
          (treeDiff (twoFiles "1" "2" (by decide) (by decide)).items
            (twoFiles "2" "1" (by decide) (by decide)).items)
        ↔ NoSubmodules (twoFiles "1" "2" (by decide) (by decide))
            (twoFiles "2" "1" (by decide) (by decide))
            [⟨.renamed, "b.md", "1", some "a.md"⟩, ⟨.renamed, "a.md", "2", some "b.md"⟩]) := by
  refine compare_agrees_iff _ _ [⟨.renamed, "b.md", "1", some "a.md"⟩,
    ⟨.renamed, "a.md", "2", some "b.md"⟩] _ ?_ ⟨.inl rfl, rfl, by decide⟩
  have hother : ∀ (a b : String) (ha : a ≠ "") (hb : b ≠ "") (path : String), path ≠ "a.md" →
      path ≠ "b.md" → (twoFiles a b ha hb).entry path = none := by
    intro a b ha hb path h1 h2
    rw [RepoTree.entry, Dict.get, twoFiles]
    simp [Ne.symm h1, Ne.symm h2]
  constructor
  · intro f hf
    simp only [List.mem_cons, List.not_mem_nil, or_false] at hf
    rcases hf with rfl | rfl
    · exact ⟨by decide, fun _ => ⟨"a.md", rfl, by decide⟩⟩
    · exact ⟨by decide, fun _ => ⟨"b.md", rfl, by decide⟩⟩
  · intro f hf path hpath
    simp only [List.mem_cons, List.not_mem_nil, or_false] at hf
    rcases hf with rfl | rfl <;> (cases hpath; decide)
  · intro f hf path hpath
    simp only [List.mem_cons, List.not_mem_nil, or_false] at hf
    rcases hf with rfl | rfl
    · cases hpath
      exact ⟨⟨.blob, "b.md", "1"⟩, by decide, rfl⟩
    · cases hpath
      exact ⟨⟨.blob, "a.md", "2"⟩, by decide, rfl⟩
  · decide
  · decide
  all_goals
    intro path hdiffer
    by_cases h1 : path = "a.md"
    · subst h1
      revert hdiffer
      decide
    by_cases h2 : path = "b.md"
    · subst h2
      revert hdiffer
      decide
    first
      | exact absurd ((hother _ _ _ _ path h1 h2).trans (hother _ _ _ _ path h1 h2).symm) hdiffer
      | simp [ReportedFile.oldPath, ReportedFile.newPath, h1, h2]

/-- A tree with one file, and with a submodule or without one. -/
def oneFile (submodule : Bool) : RepoTree where
  items := ⟨.blob, "a.md", "1"⟩ :: if submodule then [⟨.commit, "lib", "2"⟩] else []
  named := by cases submodule <;> decide
  nodup := by cases submodule <;> decide

/-- A submodule that is added is a file for the compare API, and nothing for the manifests. -/
theorem submodule_is_added :
    Reports (oneFile false) (oneFile true) [⟨.added, "lib", "2", none⟩]
      ∧ changesFromCompare ⟨some "ahead", some [⟨some "added", some "lib", some "2", none⟩]⟩
        = some [⟨"lib", .added, some "2"⟩]
      ∧ treeDiff (oneFile false).items (oneFile true).items = []
      ∧ ¬SameChanges (oneFile false) [⟨"lib", .added, some "2"⟩]
        (treeDiff (oneFile false).items (oneFile true).items) := by
  have hdiff : treeDiff (oneFile false).items (oneFile true).items = [] := by decide
  have hother : ∀ path, path ≠ "lib" → (oneFile false).entry path = (oneFile true).entry path := by
    intro path hlib
    rw [RepoTree.entry, RepoTree.entry, Dict.get, Dict.get, oneFile, oneFile]
    by_cases hfile : path = "a.md"
    · simp [hfile]
    · simp [Ne.symm hlib, Ne.symm hfile]
  refine ⟨?_, by decide, hdiff, fun h => ?_⟩
  · constructor
    · intro f hf
      rw [List.mem_singleton.mp hf]
      exact ⟨by decide, by simp⟩
    · intro f hf path hpath
      rw [List.mem_singleton.mp hf] at hpath
      cases hpath
    · intro f hf path hpath
      rw [List.mem_singleton.mp hf] at hpath ⊢
      cases hpath
      exact ⟨⟨.commit, "lib", "2"⟩, by decide, rfl⟩
    · decide
    · decide
    all_goals
      intro path hdiffer
      by_cases hlib : path = "lib"
      · subst hlib
        revert hdiffer
        decide
      first
        | exact absurd (hother path hlib) hdiffer
        | simp [ReportedFile.oldPath, ReportedFile.newPath, hlib]
  · have hmem := (h ⟨"lib", .added, some "2"⟩).mpr
      ⟨List.mem_singleton_self _, fun hc => by cases hc.1⟩
    rw [hdiff] at hmem
    cases hmem

end TrustPortal.Proofs.GitSources
