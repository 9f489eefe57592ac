import TrustPortal.EvidenceStore.Service
import TrustPortal.GitSources.Mappings

/-!
# `TrustPortal.GitSources.Service`: the configuration of a git source

`applyConfig` is the update of a source's configuration by an administrator, and
`setLastSyncedCommit` the cutover. `applyConfig` clears the last synced commit when the update
changes which repository the source reads (`repositoryIdentity`) or which of its files, and as
what (`readingIdentity`).

A source also has a name, credentials, a schedule and a switch, which an update checks and
stores on their own and which nothing here reads. The option changes are those that
`_validate_options` returns.
-/

set_option autoImplicit false

namespace TrustPortal.GitSources

open TrustPortal.EvidenceStore (strip)

/-! ## Sources -/

/-- `PROVIDERS`. -/
inductive Provider
  | codecommit
  | github
  | localDirectory
  deriving DecidableEq

/-- The values of `CREDENTIAL_MODES`. -/
inductive CredentialMode
  | runtimeRole
  | assumeRole
  | portalSecret
  | storedToken
  | anonymous
  deriving DecidableEq

/-- `CREDENTIAL_MODES`, the default mode first. -/
def CREDENTIAL_MODES : Provider → List CredentialMode
  | .codecommit => [.runtimeRole, .assumeRole]
  | .github => [.portalSecret, .storedToken, .anonymous]
  | .localDirectory => [.anonymous]

/-- `default_credential_mode`. -/
def defaultCredentialMode : Provider → CredentialMode
  | .codecommit => .runtimeRole
  | .github => .portalSecret
  | .localDirectory => .anonymous

/-- A source's `options`, `none` for one that is not set. -/
structure Options where
  recordCommits : Option Bool
  historyLimit : Option Nat
  apiUrl : Option String
  deriving DecidableEq

/-- `options` that are not set. -/
def Options.empty : Options := ⟨none, none, none⟩

/-- `git_sync_runs.status` of a run that ended, also in `git_sources.last_sync_status`. -/
inductive Outcome
  | success
  /-- `partial`. -/
  | incomplete
  | failure
  | unchanged
  deriving DecidableEq

/-- A row of `git_sources`. -/
structure GitSource where
  id : String
  role : Role
  provider : Provider
  repository : String
  branch : String
  region : Option String
  credentialMode : CredentialMode
  pathMappings : Option (List Mapping)
  options : Option Options
  lastSyncedCommit : Option String
  lastSyncedAt : Option Int
  lastSyncStatus : Option Outcome
  deriving DecidableEq

/-- `effective_mappings` of a source. -/
def GitSource.mappings (source : GitSource) : List Mapping :=
  effectiveMappings source.role source.pathMappings

/-- `is_default_github_api_url`. -/
def isDefaultGithubApiUrl : Option String → Bool
  | none => true
  | some url =>
    let trimmed := ((strip url).toList.reverse.dropWhile (· = '/')).reverse
    url = "" || String.ofList (trimmed.map Char.toLower) = "https://api.github.com"

/-- The option `api_url`. -/
def GitSource.apiUrl (source : GitSource) : Option String :=
  (source.options.getD .empty).apiUrl

/-- `repository_identity`: what decides which repository and branch a source reads. -/
def repositoryIdentity (source : GitSource) :
    Provider × String × String × Option String × Option String :=
  ( source.provider
  , source.repository
  , source.branch
  , if source.provider = .codecommit then source.region else none
  , if source.provider ≠ .github || isDefaultGithubApiUrl source.apiUrl then none
    else source.apiUrl )

/-- `reading_identity`: what decides which files a source reads, and as what. -/
def readingIdentity (source : GitSource) : Role × List Mapping := (source.role, source.mappings)

/-! ## Validation -/

/-- `GitSourceConfigError`, by what it refuses. -/
inductive ConfigError
  | unknownRole
  | unknownProvider
  | repositoryRequired
  | codecommitRepository
  | githubRepository
  | localRepository
  | invalidBranch (branch : String)
  | credentialMode
  | emptyMappings
  | invalidPattern (pattern : String)
  | invalidKind (kind : String)
  | unknownDataset (kind : String)
  | apiUrlMode
  | localDirectory
  | invalidCommit
  deriving DecidableEq

/-- A mapping as an administrator writes it. -/
structure MappingText where
  pattern : String
  kind : String
  deriving DecidableEq

/-- The dataset with a name. -/
def datasetNamed : String → Option Dataset
  | "controls" => some .controls
  | "systems" => some .systems
  | "tests" => some .tests
  | "policies" => some .policies
  | "vendors" => some .vendors
  | "evidence" => some .evidence
  | "risk-register" => some .riskRegister
  | "pentest-findings" => some .pentestFindings
  | _ => none

/-- The checks of a kind. `$` in `VALID_KIND` also matches before a line break at the end. -/
def parseKind (text : String) : Except ConfigError Kind :=
  match text with
  | "policy" => .ok .policy
  | "governance_document" => .ok .governanceDocument
  | "decision_log" => .ok .decisionLog
  | "policy\n" | "governance_document\n" | "decision_log\n" => .ok (.other text)
  | _ =>
    let name := text.toList.drop "dataset:".length
    let label := if name.getLast? = some '\n' then name.dropLast else name
    if text.toList.take "dataset:".length = "dataset:".toList && label ≠ []
        && label.all (fun c => c.isLower || c = '-') then
      match datasetNamed (String.ofList name) with
      | some dataset => .ok (.dataset dataset)
      | none => .error (.unknownDataset text)
    else .error (.invalidKind text)

/-- The segments of a path. -/
def segments (path : List Char) : List (List Char) := path.splitOn '/'

/-- The check of one mapping. -/
def validateMapping (item : MappingText) : Except ConfigError Mapping :=
  let pattern := (strip item.pattern).toList.dropWhile (· = '/')
  if pattern = [] || (segments pattern).contains ['.', '.'] then
    .error (.invalidPattern item.pattern)
  else (parseKind item.kind).map fun kind => ⟨String.ofList pattern, kind⟩

/-- `validate_mappings`. -/
def validateMappings : Option (List MappingText) → Except ConfigError (Option (List Mapping))
  | none => .ok none
  | some [] => .error .emptyMappings
  | some items => (items.mapM validateMapping).map some

/-- `[A-Za-z0-9_.-]`. -/
def isNameChar (c : Char) : Bool := c.isAlphanum || c = '_' || c = '.' || c = '-'

/-- `_validate_repository`. -/
def validateRepository (provider : Provider) (repository : String) : Option ConfigError :=
  let text := repository.toList
  match provider with
  | .codecommit =>
    if text ≠ [] && text.length ≤ 100 && text.all isNameChar && !repository.endsWith ".git" then
      none
    else some .codecommitRepository
  | .github =>
    match segments text with
    | [owner, name] =>
      if owner ≠ [] && owner.length ≤ 39 && owner.all (fun c => c.isAlphanum || c = '-')
          && name ≠ [] && name.length ≤ 100 && name.all isNameChar
          && name ≠ ['.'] && name ≠ ['.', '.'] then
        none
      else some .githubRepository
    | _ => some .githubRepository
  | .localDirectory => if repository.startsWith "/" then none else some .localRepository

/-- `..` occurs in a text. -/
def hasDotDot : List Char → Bool
  | '.' :: '.' :: _ => true
  | _ :: rest => hasDotDot rest
  | [] => false

/-- The checks of a branch name. -/
def isBranchName (branch : String) : Bool :=
  match branch.toList with
  | [] => false
  | first :: rest =>
    first.isAlphanum && rest.length ≤ 254
      && rest.all (fun c => c.isAlphanum || c = '.' || c = '_' || c = '/' || c = '-')
      && !hasDotDot branch.toList && !branch.endsWith "." && !branch.endsWith "/"
      && !branch.endsWith ".lock"

/-! ## Updates -/

/-- A change of an option: keep it, remove it or set it. -/
abbrev OptionChange (α : Type) := Option (Option α)

/-- The option changes of an update. -/
structure OptionsData where
  recordCommits : OptionChange Bool
  historyLimit : OptionChange Nat
  apiUrl : OptionChange String
  deriving DecidableEq

/-- The data of an update; `none` for a field that is not in it. -/
structure ConfigData where
  role : Option String
  provider : Option String
  repository : Option String
  branch : Option String
  region : Option (Option String)
  credentialMode : Option (Option CredentialMode)
  enabled : Option Bool
  pathMappings : Option (Option (List MappingText))
  options : Option (Option OptionsData)
  deriving DecidableEq

/-- A stripped text, `none` when nothing is left. -/
def stripped (text : String) : Option String :=
  if strip text = "" then none else some (strip text)

/-- The role with a name. -/
def roleNamed : String → Except ConfigError Role
  | "governance" => .ok .governance
  | "evidence" => .ok .evidence
  | _ => .error .unknownRole

/-- The provider with a name. -/
def providerNamed : String → Except ConfigError Provider
  | "codecommit" => .ok .codecommit
  | "github" => .ok .github
  | "local" => .ok .localDirectory
  | _ => .error .unknownProvider

/-- The repository of an update. -/
def newRepository (text : String) : Except ConfigError String :=
  match stripped text with
  | some repository => .ok repository
  | none => .error .repositoryRequired

/-- The branch of an update. -/
def newBranch (text : String) : Except ConfigError String :=
  let branch := (stripped text).getD "main"
  if isBranchName branch then .ok branch else .error (.invalidBranch branch)

/-- The credential mode of a source after an update. -/
def newCredentialMode (provider : Provider) (current : CredentialMode) :
    Option (Option CredentialMode) → Except ConfigError CredentialMode
  | some chosen =>
    let mode := chosen.getD (defaultCredentialMode provider)
    if mode ∈ CREDENTIAL_MODES provider then .ok mode else .error .credentialMode
  | none => if current ∈ CREDENTIAL_MODES provider then .ok current else .error .credentialMode

/-- `source.options` after the option changes of an update. -/
def newOptions (current : Option Options) : Option (Option OptionsData) → Option Options
  | none => current
  | some none => none
  | some (some changes) =>
    let options := current.getD .empty
    let merged : Options := {
      recordCommits := changes.recordCommits.getD options.recordCommits
      historyLimit := changes.historyLimit.getD options.historyLimit
      apiUrl := changes.apiUrl.getD options.apiUrl }
    if merged = .empty then none else some merged

/-- A field of an update that may fail. -/
def newValue {α β : Type} (current : β) (check : α → Except ConfigError β) :
    Option α → Except ConfigError β
  | none => .ok current
  | some value => check value

/-- `_check_github_api_url`. -/
def checkGithubApiUrl (source : GitSource) : Except ConfigError Unit :=
  if source.provider = .github && !isDefaultGithubApiUrl source.apiUrl
      && source.credentialMode ≠ .storedToken && source.credentialMode ≠ .anonymous then
    .error .apiUrlMode
  else .ok ()

/-- The fields of an update, checked and set one after the other. `localAllowed` says which
directories `LOCAL_SOURCE_ROOTS` lets a source read. -/
def setConfig (localAllowed : String → Bool) (source : GitSource) (data : ConfigData) :
    Except ConfigError GitSource := do
  let role ← newValue source.role roleNamed data.role
  let provider ← newValue source.provider providerNamed data.provider
  let repository ← newValue source.repository newRepository data.repository
  if data.repository.isSome || data.provider.isSome then
    match validateRepository provider repository with
    | some error => .error error
    | none => pure ()
  let branch ← newValue source.branch newBranch data.branch
  let region := data.region.elim source.region fun value => value.bind stripped
  let credentialMode ← newCredentialMode provider source.credentialMode data.credentialMode
  let pathMappings ← newValue source.pathMappings validateMappings data.pathMappings
  let options := newOptions source.options data.options
  let updated : GitSource := { source with
    role, provider, repository, branch, region, credentialMode, pathMappings, options }
  checkGithubApiUrl updated
  if provider = .localDirectory && (data.repository.isSome || data.provider.isSome
      || data.enabled = some true) && !localAllowed repository then
    .error .localDirectory
  pure updated

/-- `apply_config` for an update. -/
def applyConfig (localAllowed : String → Bool) (source : GitSource) (data : ConfigData) :
    Except ConfigError GitSource :=
  (setConfig localAllowed source data).map fun updated =>
    if source.lastSyncedCommit.isSome && (repositoryIdentity updated ≠ repositoryIdentity source
        || readingIdentity updated ≠ readingIdentity source) then
      { updated with lastSyncedCommit := none }
    else updated

/-- A hexadecimal digit as `COMMIT_RE` has it. -/
def isHexDigit (c : Char) : Bool := c.isDigit || ('a' ≤ c && c ≤ 'f')

/-- `COMMIT_RE.match`, on a text without a line break at its end. -/
def isCommitId (commit : String) : Bool :=
  let text := commit.toList
  let digits := if text.take 6 = "local-".toList then text.drop 6 else text
  digits.all isHexDigit && (digits.length = 40 || (digits = text && digits.length = 64))

/-- `set_last_synced_commit`. -/
def setLastSyncedCommit (source : GitSource) (commit : String) : Except ConfigError GitSource :=
  let commit := String.ofList ((strip commit).toList.map Char.toLower)
  if isCommitId commit then .ok { source with lastSyncedCommit := some commit }
  else .error .invalidCommit

end TrustPortal.GitSources
