import Mathlib.Data.List.Basic

/-!
# `TrustPortal.GitSources.Mappings`: path mappings

A mapping pairs a glob with a kind. `classify` gives the kind of a repository path: that of
the first mapping whose pattern matches. `compile` reads a pattern as the pieces of the
regular expression that `_compile` builds, and `matchTokens` says whether that expression
matches: each piece leaves some rests of the path, and the next piece goes on from there.
-/

set_option autoImplicit false

namespace TrustPortal.GitSources

/-! ## Kinds -/

/-- `DATASET_ORDER`, the datasets in the order of their import. -/
inductive Dataset
  | controls
  | systems
  | tests
  | policies
  | vendors
  | evidence
  | riskRegister
  | pentestFindings
  deriving DecidableEq

/-- The place of a dataset in `DATASET_ORDER`. -/
def Dataset.rank : Dataset → Nat
  | .controls => 0
  | .systems => 1
  | .tests => 2
  | .policies => 3
  | .vendors => 4
  | .evidence => 5
  | .riskRegister => 6
  | .pentestFindings => 7

/-- What a repository file is read as. -/
inductive Kind
  | policy
  | governanceDocument
  | dataset (name : Dataset)
  | decisionLog
  /-- Another text. `VALID_KIND` lets the text of a kind through with a line break at its end,
  and no importer knows such a kind. -/
  | other (text : String)
  deriving DecidableEq

/-- `kind in CONTENT_KINDS`. -/
def Kind.isContent : Kind → Bool
  | .policy | .governanceDocument => true
  | .dataset _ | .decisionLog | .other _ => false

/-- A path mapping. -/
structure Mapping where
  pattern : String
  kind : Kind
  deriving DecidableEq

/-! ## Patterns -/

/-- A piece of a compiled pattern. -/
inductive Token
  /-- `(?:.*/)?`, from the pattern text `**/`. -/
  | directories
  /-- `.*`, from `**`. -/
  | anything
  /-- `[^/]*`, from `*`. -/
  | segment
  /-- `[^/]`, from `?`. -/
  | one
  /-- A character for itself. -/
  | literal (c : Char)
  deriving DecidableEq

/-- `_compile`. -/
def compile : List Char → List Token
  | '*' :: '*' :: '/' :: rest => .directories :: compile rest
  | '*' :: '*' :: rest => .anything :: compile rest
  | '*' :: rest => .segment :: compile rest
  | '?' :: rest => .one :: compile rest
  | c :: rest => .literal c :: compile rest
  | [] => []

/-- The rests of `text` after any number of characters other than `stop`. -/
def restsUntil (stop : Char) : List Char → List (List Char)
  | [] => [[]]
  | c :: rest => (c :: rest) :: if c = stop then [] else restsUntil stop rest

/-- The rests of `text` that a piece leaves. In a regular expression `.` does not match a line
break. -/
def Token.rests (text : List Char) : Token → List (List Char)
  | .directories => text :: (restsUntil '\n' text).filterMap fun
    | '/' :: rest => some rest
    | _ => none
  | .anything => restsUntil '\n' text
  | .segment => restsUntil '/' text
  | .one => match text with
    | c :: rest => if c = '/' then [] else [rest]
    | [] => []
  | .literal l => match text with
    | c :: rest => if c = l then [rest] else []
    | [] => []

/-- The compiled pattern matches. `$` also matches before a line break at the end. -/
def matchTokens : List Token → List Char → Bool
  | [], text => text = [] || text = ['\n']
  | token :: tokens, text => (token.rests text).any fun rest => matchTokens tokens rest

/-- `matches`. -/
def pathMatches (path pattern : String) : Bool :=
  matchTokens (compile pattern.toList) path.toList

example : pathMatches "policies/x/y/a.md" "policies/**/*.md" = true := by decide
example : pathMatches "pentest-evidence/layer1/a/b.json" "pentest-evidence/layer*/*.json" = false := by
  decide

/-- `classify`: the kind of a path under a list of mappings. -/
def classify (path : String) (mappings : List Mapping) : Option Kind :=
  (mappings.find? fun mapping => pathMatches path mapping.pattern).map Mapping.kind

/-! ## Defaults -/

/-- `ROLES`. -/
inductive Role
  | governance
  | evidence
  deriving DecidableEq

/-- `DEFAULT_GOVERNANCE_MAPPINGS`. -/
def DEFAULT_GOVERNANCE_MAPPINGS : List Mapping :=
  [ ⟨"policies/**/*.md", .policy⟩
  , ⟨"CLAUDE.md", .governanceDocument⟩
  , ⟨"AGENTS.md", .governanceDocument⟩
  , ⟨"README.md", .governanceDocument⟩
  , ⟨"infrastructure/**", .governanceDocument⟩
  , ⟨"agent-config/**", .governanceDocument⟩ ]

/-- `AUTHORED_EVIDENCE_MAPPINGS`. -/
def AUTHORED_EVIDENCE_MAPPINGS : List Mapping :=
  [ ⟨"controls.json", .dataset .controls⟩
  , ⟨"systems.json", .dataset .systems⟩
  , ⟨"tests.json", .dataset .tests⟩
  , ⟨"policy-index.json", .dataset .policies⟩
  , ⟨"vendors.json", .dataset .vendors⟩
  , ⟨"risk-register.json", .dataset .riskRegister⟩ ]

/-- `DEFAULT_EVIDENCE_MAPPINGS`. -/
def DEFAULT_EVIDENCE_MAPPINGS : List Mapping :=
  AUTHORED_EVIDENCE_MAPPINGS ++
  [ ⟨"evidence/evidence-index.json", .dataset .evidence⟩
  , ⟨"pentest-evidence/layer*/*.json", .dataset .pentestFindings⟩
  , ⟨"decision-logs/*.jsonl", .decisionLog⟩
  , ⟨"decision-logs/*.jsonl.manifest.json", .decisionLog⟩ ]

/-- `default_mappings`. -/
def defaultMappings : Role → List Mapping
  | .governance => DEFAULT_GOVERNANCE_MAPPINGS
  | .evidence => DEFAULT_EVIDENCE_MAPPINGS

/-- `effective_mappings`, from a source's role and its own mappings. -/
def effectiveMappings (role : Role) (pathMappings : Option (List Mapping)) : List Mapping :=
  match pathMappings with
  | none | some [] => defaultMappings role
  | some own => own

end TrustPortal.GitSources
