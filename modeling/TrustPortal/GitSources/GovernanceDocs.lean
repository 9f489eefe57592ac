import TrustPortal.GitSources.SyncRun

/-!
# `TrustPortal.GitSources.GovernanceDocs`: the documents of policies

A policy names a file. Its page shows the document of that file from what the governance sources
synced: `policyFileState` looks the path up among the rows of policy files, and by the name of the
file where no row has the path. A file is served while its source is enabled and its row is `ok`.

The rows come in the order of their sources. The database orders names by its collation, `collate`.
-/

set_option autoImplicit false

namespace TrustPortal.GitSources

open TrustPortal.Audit (truthy)
open TrustPortal.EvidenceStore (strip)
open TrustPortal.Python (Str)

/-! ## Paths -/

/-- `normalize_policy_path`. -/
def normalizePolicyPath (filePath : Option String) : Option String :=
  if !truthy filePath then none
  else
    let path := (strip (filePath.getD "")).toList.map fun c => if c = '\\' then '/' else c
    let parts := (segments path).filter fun part => part ≠ [] && part ≠ ['.']
    let parts := parts.dropWhile fun part => part = ['.', '.']
    if parts = [] || parts.contains ['.', '.'] then none
    else some (String.ofList (List.intercalate ['/'] parts))

example : normalizePolicyPath (some " ..\\policies/./encryption.md") = some "policies/encryption.md" := by
  decide +kernel

/-! ## Rows -/

/-- A source with the fields that its syncs do not read. Names are unique. -/
structure NamedSource (σ : Type) where
  name : String
  enabled : Bool
  createdAt : Int
  state : SyncState σ

/-- A row of a policy file and its source. -/
structure PolicyRow (σ : Type) where
  source : NamedSource σ
  record : SourceFile

section
variable {σ : Type}

/-- The order of `_policy_records`. -/
def PolicyRow.le (collate : String → String → Bool) (a b : PolicyRow σ) : Bool :=
  a.source.createdAt < b.source.createdAt || (a.source.createdAt = b.source.createdAt
    && if a.source.name = b.source.name then collate a.record.path b.record.path
      else collate a.source.name b.source.name)

/-- `_policy_records`. -/
def policyRecords (collate : String → String → Bool) (sources : List (NamedSource σ)) :
    List (PolicyRow σ) :=
  let governance := sources.filter fun source => source.state.source.role = .governance
  let rows := governance.flatMap fun source =>
    (source.state.store.files.rows.filter fun record => record.kind = .policy).map (⟨source, ·⟩)
  rows.insertionSort fun a b => PolicyRow.le collate a b

/-- `_is_served`. -/
def PolicyRow.isServed (row : PolicyRow σ) : Bool :=
  row.source.enabled && row.record.status = .ok && row.record.currentVersionId.isSome

/-- The filter of the rows that are `ok` with a current version. -/
def PolicyRow.hasDocument (row : PolicyRow σ) : Bool :=
  row.record.status = .ok && row.record.currentVersionId.isSome

/-- The state of a policy's file. -/
inductive PolicyState (α : Type)
  | published (value : α)
  | retired
  | unavailable
  | missing
  deriving DecidableEq

/-- `policy_file_state`. -/
def policyFileState (collate : String → String → Bool) (sources : List (NamedSource σ))
    (filePath : Option String) : PolicyState (PolicyRow σ) :=
  match normalizePolicyPath filePath with
  | none => .missing
  | some path =>
    let rows := policyRecords collate sources
    match rows.filter fun row => row.record.path = path with
    | [] =>
      let name := basename path.toList
      match (rows.filter PolicyRow.hasDocument).filter fun row =>
        basename row.record.path.toList = name with
      | [row] => if row.isServed then .published row else .unavailable
      | _ => .missing
    | record :: others =>
      match (record :: others).find? PolicyRow.isServed with
      | some row => .published row
      | none =>
        if (record :: others).all fun row => row.record.status = .deleted then .retired
        else .unavailable

/-! ## Documents -/

/-- `PolicyDocument`. -/
structure PolicyDocument (μ : Type) where
  path : String
  sourceName : String
  commitId : String
  sha256 : Str
  body : Str
  metadata : μ
  deriving DecidableEq

section
variable {μ : Type} (frontMatter : Str → Option (μ × Str)) (noMetadata : μ)
  (collate : String → String → Bool)

/-- `split_front_matter`; `frontMatter` is `frontmatter.loads`, none where it raises. -/
def splitFrontMatter (text : Str) : μ × Str := (frontMatter text).getD (noMetadata, text)

/-- `_document`. -/
def policyRowDocument (row : PolicyRow σ) : Option (PolicyDocument μ) := do
  let id ← row.record.currentVersionId
  let version ← row.source.state.store.versions.get id
  let (metadata, body) := splitFrontMatter frontMatter noMetadata version.content
  return ⟨row.record.path, row.source.name, version.commitId, version.sha256, body, metadata⟩

/-- `policy_document_state`. -/
def policyDocumentState (sources : List (NamedSource σ)) (filePath : Option String) :
    PolicyState (PolicyDocument μ) :=
  match policyFileState collate sources filePath with
  | .published row =>
    match policyRowDocument frontMatter noMetadata row with
    | some document => .published document
    | none => .missing
  | .retired => .retired
  | .unavailable => .unavailable
  | .missing => .missing

/-- The columns of a policy that its page reads. -/
structure Policy where
  status : String
  filePath : Option String

/-- `policy_detail`: the state of the document, none where the page is not found. `published` says
that the section of the policies is. -/
def policyDetail (published : Bool) (policy : Option Policy) (sources : List (NamedSource σ)) :
    Option (PolicyState (PolicyDocument μ)) :=
  if !published then none
  else match policy with
    | some policy =>
      if policy.status ≠ "approved" then none
      else some (policyDocumentState frontMatter noMetadata collate sources policy.filePath)
    | none => none

end

end

end TrustPortal.GitSources
