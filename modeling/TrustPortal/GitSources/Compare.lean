import Mathlib.Data.List.Sort
import TrustPortal.Audit.Log
import TrustPortal.Lib.Dict

/-!
# `TrustPortal.GitSources.Compare`: what changed between two commits

The GitHub provider has two ways to tell what changed. `_changes_from_compare` reads the compare
API, which reports the difference of two trees file by file, renames and copies as pairs. Where
that report is not a complete direct difference, `_tree_diff` lists both trees and compares the
manifests, which map each file to its blob.

A tree of the API has an entry for every file, submodule and directory. The manifests have only
the files.
-/

set_option autoImplicit false

namespace TrustPortal.GitSources

open TrustPortal.Audit (truthy)
open TrustPortal.Lib

/-! ## Changes -/

/-- `change_type`: `A`, `M` or `D`. -/
inductive ChangeType
  | added
  | modified
  | deleted
  deriving DecidableEq, Repr

/-- `Change`. -/
structure Change where
  path : String
  changeType : ChangeType
  blobId : Option String
  deriving DecidableEq, Repr

/-- The change that a dictionary gets for the path of a change. -/
def mergeChange (existing : Option Change) (change : Change) : Change :=
  match existing with
  | none => change
  | some old =>
    match old.changeType, change.changeType with
    | .deleted, .added => ⟨change.path, .modified, change.blobId⟩
    | .added, .deleted => ⟨change.path, .modified, old.blobId⟩
    | _, _ => change

/-- One change of the list that `_normalize_changes` goes through. -/
def addChange (merged : List Change) (change : Change) : List Change :=
  Dict.put Change.path merged (mergeChange (Dict.get Change.path merged change.path) change)

/-- `_normalize_changes`. -/
def normalizeChanges (changes : List Change) : List Change :=
  (changes.foldl addChange []).insertionSort fun a b => a.path ≤ b.path

/-! ## Manifests -/

/-- The type of an entry in a tree. -/
inductive ItemType
  | blob
  /-- A submodule. -/
  | commit
  | tree
  deriving DecidableEq, Repr

/-- An entry of a recursive tree listing. -/
structure TreeItem where
  type : ItemType
  path : String
  sha : String
  deriving DecidableEq, Repr

/-- `list_tree`: the files, sorted by path. -/
def listTree (items : List TreeItem) : List (String × String) :=
  ((items.filter fun item => item.type = .blob && item.path ≠ "" && item.sha ≠ "").map
    fun item => (item.path, item.sha)).insertionSort fun a b => a.1 ≤ b.1

/-- The change of one path, from its blobs before and after. -/
def blobChange (path : String) (old new : Option String) : Option Change :=
  match old, new with
  | none, none => none
  | none, some blob => some ⟨path, .added, some blob⟩
  | some _, none => some ⟨path, .deleted, none⟩
  | some oldBlob, some blob => if oldBlob ≠ blob then some ⟨path, .modified, some blob⟩ else none

/-- `_diff_manifests`. -/
def diffManifests (before after : List (String × String)) : List Change :=
  let paths := ((before ++ after).map Prod.fst).dedup.insertionSort (· ≤ ·)
  paths.filterMap fun path => blobChange path ((Dict.get Prod.fst before path).map Prod.snd)
    ((Dict.get Prod.fst after path).map Prod.snd)

/-- `{entry.path: entry.blob_id for entry in list_tree(commit)}` -/
def manifest (items : List TreeItem) : List (String × String) :=
  (listTree items).foldl (Dict.put Prod.fst) []

/-- `_tree_diff` of two listings. -/
def treeDiff (before after : List TreeItem) : List Change :=
  diffManifests (manifest before) (manifest after)

/-! ## The compare API -/

/-- `COMPARE_FILE_LIMIT`. -/
def COMPARE_FILE_LIMIT : Nat := 300

/-- A file of a comparison. -/
structure CompareFile where
  status : Option String
  filename : Option String
  sha : Option String
  previousFilename : Option String
  deriving DecidableEq, Repr

/-- What the compare API answers. -/
structure Comparison where
  status : Option String
  files : Option (List CompareFile)
  deriving DecidableEq, Repr

/-- The changes of one file of a comparison, none where `_changes_from_compare` gives up. -/
def fileChanges (file : CompareFile) : Option (List Change) :=
  let filename := file.filename.getD ""
  if !truthy file.filename then none
  else if file.status = some "removed" then some [⟨filename, .deleted, none⟩]
  else if file.status = some "unchanged" then some []
  else if !truthy file.sha
      || !([some "added", some "copied", some "modified", some "changed", some "renamed"].contains
        file.status) then none
  else if file.status = some "renamed" then
    if !truthy file.previousFilename then none
    else some [⟨file.previousFilename.getD "", .deleted, none⟩, ⟨filename, .added, file.sha⟩]
  else if file.status = some "added" ∨ file.status = some "copied" then
    some [⟨filename, .added, file.sha⟩]
  else some [⟨filename, .modified, file.sha⟩]

/-- `_changes_from_compare`. -/
def changesFromCompare (data : Comparison) : Option (List Change) :=
  if data.status ≠ some "ahead" ∧ data.status ≠ some "identical" then none
  else
    match data.files with
    | none => none
    | some files =>
      if COMPARE_FILE_LIMIT ≤ files.length then none
      else (files.mapM fileChanges).map fun changes => normalizeChanges changes.flatten

end TrustPortal.GitSources
