import Mathlib.Data.List.Sort
import TrustPortal.EvidenceStore.Objects

/-!
# `TrustPortal.EvidenceStore.Plans`: what the import of a pentest file does

`planPentest` decides, from the findings a file holds and from what the database holds, whether
its findings are imported, are already there, are held by another namespace, or conflict.

`Findings` is what the plan and the sync read of `pentest_findings` and `git_sources` at one
moment. Other writers change these tables between two reads.
-/

set_option autoImplicit false

namespace TrustPortal.EvidenceStore

open TrustPortal.Sql
open TrustPortal.Audit

/-- `STORE_NAMESPACE`. -/
def STORE_NAMESPACE : String := "evidence-store"

/-- `PENTEST_PREFIX`. -/
def PENTEST_PREFIX : String := "pentest-evidence/"

/-- `HeldFindings`: the findings one `source_file` holds, recomputed from their content. -/
structure HeldFindings where
  count : Nat
  identity : String
  consistent : Bool
  deriving DecidableEq, Repr

/-- `HeldFindings.matches`. -/
def HeldFindings.holds (held : HeldFindings) (count : Nat) (identity : String) : Bool :=
  held.consistent && held.count = count && held.identity = identity

/-- What the other tables hold: the findings of each `source_file`, the `source_file` of each
finding's id and the name of each git source's id. -/
structure Findings where
  held : List (String × HeldFindings)
  ids : List (String × String)
  sources : List (String × String)
  deriving DecidableEq, Repr

/-- `store_holder`. -/
def storeHolder (sourceFile : String) : String := STORE_NAMESPACE ++ ":" ++ sourceFile

/-- `pentest_holders`, in the order of their names. -/
def Findings.holders (findings : Findings) (sourceFile : String) : List (String × HeldFindings) :=
  (findings.held.filter fun entry =>
    (entry.1 = sourceFile || (":" ++ sourceFile).toList.isSuffixOf entry.1.toList)
      && entry.1 ≠ storeHolder sourceFile).insertionSort fun a b => a.1 ≤ b.1

/-- `CheckedPentest`: the ids of the findings the import inserts, none for a file without a
findings list, and the findings' keys. -/
structure CheckedPentest where
  sourceFile : String
  ids : Option (List String)
  keys : List String
  deriving DecidableEq, Repr

/-- `CheckedPentest.identity`, `identity_digest`. -/
def CheckedPentest.identity (sha : Sha256) (checked : CheckedPentest) : String :=
  sha.hexOfText (String.intercalate "," (checked.keys.insertionSort (· ≤ ·)))

/-- `CheckedPentest.info`. -/
def CheckedPentest.info (sha : Sha256) (checked : CheckedPentest) : ImportInfo :=
  { ImportInfo.empty with
    findings := some checked.keys.length
    identitySha256 := some (checked.identity sha) }

/-- The findings a record imported into the store's namespace, when it did: its `import_info`
says so. -/
def StoreObject.backing (row : StoreObject) : Option (Nat × String) :=
  match row.importInfo with
  | some info =>
      if info.stored then
        match info.findings, info.identitySha256 with
        | some count, some identity => some (count, identity)
        | _, _ => none
      else none
  | none => none

/-- `backing_records` of one file, oldest first. -/
def backingRecords (objects : List StoreObject) (sourceFile : String) : List (Nat × String) :=
  ((objects.filter fun row =>
    row.kind = .pentest && row.keyEscaped = false
      && (row.status = .ingested || row.status = .erased)
      && row.key = PENTEST_PREFIX ++ sourceFile).insertionSort fun a b =>
        a.createdAt < b.createdAt ∨ (a.createdAt = b.createdAt ∧ a.id ≤ b.id)).filterMap
    StoreObject.backing

/-- The outcome of a plan. -/
inductive PlanOutcome
  | insert
  | unchanged
  | duplicate (holder : String)
  deriving DecidableEq, Repr

/-- `PentestPlan`. -/
structure PentestPlan where
  outcome : PlanOutcome
  others : List String
  note : String
  deriving DecidableEq, Repr

/-- `_describe`. -/
def describeNames (names : List String) : String :=
  let sorted := (names.insertionSort (· ≤ ·)).dedup
  let more := sorted.length - 3
  String.intercalate ", " (sorted.take 3) ++ (if 3 < sorted.length then s!" and {more} more" else "")

/-- `_held_ids`: the source files of the stored findings that hold one of the ids. -/
def Findings.heldIds (findings : Findings) (ids : List String) : List String :=
  (findings.ids.filter fun entry => ids.contains entry.1).map Prod.snd

/-- `plan_pentest`. An error is a `Conflict`. -/
def planPentest (sha : Sha256) (findings : Findings) (objects : List StoreObject)
    (checked : CheckedPentest) : Except String PentestPlan :=
  match checked.ids with
  | none => .ok ⟨.unchanged, [], "no findings list: nothing to import"⟩
  | some ids =>
      let holders := findings.holders checked.sourceFile
      let others := holders.map Prod.fst
      let count := checked.keys.length
      let identity := checked.identity sha
      if count = 0 then .ok ⟨.unchanged, others, "no findings to import"⟩
      else
        match backingRecords objects checked.sourceFile with
        | backing :: _ =>
            if backing = (count, identity) then
              .ok ⟨.unchanged, others, "the store's namespace already holds exactly its findings"⟩
            else
              .error ("conflict: the store's namespace already holds different findings for "
                ++ checked.sourceFile
                ++ " (another store object); the store never replaces its findings")
        | [] =>
            match holders.find? fun entry => entry.2.holds count identity with
            | some entry => .ok ⟨.duplicate entry.1, others, ""⟩
            | none =>
                let taken := findings.heldIds ids
                let number := taken.length
                if taken = [] then .ok ⟨.insert, others, ""⟩
                else
                  .error (s!"conflict: {number} of the ids its findings take are already held by "
                    ++ "stored findings (" ++ describeNames taken
                    ++ "); the store never takes over a finding")

/-- `describe_holder`: who holds the findings stored under a `source_file`. -/
def Findings.describeHolder (findings : Findings) (holder : String) : String :=
  if holder.toList.contains ':' then
    let namespaceId := String.ofList (holder.toList.takeWhile (· ≠ ':'))
    match findings.sources.lookup namespaceId with
    | some name => s!"git source {name} ({namespaceId})"
    | none => s!"namespace {namespaceId}"
  else "cli import"

end TrustPortal.EvidenceStore
