import TrustPortal.EvidenceStore.Listing
import TrustPortal.Lib.Dict
import TrustPortal.Python.Loads
import TrustPortal.Python.Number

/-!
# `TrustPortal.EvidenceStore.BucketPolicy`: the check of the bucket policy

`checkPolicy` reads the text of a bucket policy and looks for the statements that protect the store:
each action of `REQUIRED_DENIALS` denied under every prefix, to everyone or to everyone but the
principals of the erasure exception, and a `PutObject` without `If-None-Match` denied under every
prefix.

`json.loads` has a hook here that refuses an object with a repeated key. `UniqueReader` is the scanner
with what the hook will say of each object that is open.
-/

set_option autoImplicit false

namespace TrustPortal.EvidenceStore.BucketPolicy

open TrustPortal.Lib
open TrustPortal.Python

/-! ## Reading the text -/

/-- What reading the text raises: `_DuplicateKey`, or one of the other errors. -/
inductive PolicyError
  | duplicateKey (name : Str)
  | invalid
  deriving DecidableEq

/-- The scanner, and the first repeated key of each array and object that is open. -/
structure UniqueReader where
  reader : Reader
  repeated : List (Option Str)

/-- The first repeated key once the member that is open has its value. -/
def withMember (frame : Frame) (repeated : Option Str) : Option Str :=
  match frame with
  | .member members name =>
    if repeated.isNone && (find members name).isSome then some name else repeated
  | _ => repeated

/-- One character. `_unique_keys` is called at the end of an object. -/
def UniqueReader.step (py : Interpreter) (u : UniqueReader) (c : CodePoint) :
    Except PolicyError UniqueReader :=
  match u.reader.step py c with
  | .error _ => .error .invalid
  | .ok reader =>
    if u.reader.stack.length < reader.stack.length then .ok ⟨reader, none :: u.repeated⟩
    else
      match u.reader.stack, u.repeated with
      | frame :: _, repeated :: rest =>
        if reader.stack.length < u.reader.stack.length then
          match withMember frame repeated with
          | some name => .error (.duplicateKey name)
          | none => .ok ⟨reader, rest⟩
        else
          match reader.stack with
          | .dict _ :: _ => .ok ⟨reader, withMember frame repeated :: rest⟩
          | _ => .ok ⟨reader, u.repeated⟩
      | _, _ => .ok ⟨reader, u.repeated⟩

/-- `json.loads(text, object_pairs_hook=_unique_keys)`. -/
def loadPolicy (py : Interpreter) (text : Str) : Except PolicyError Value := do
  if text.head? = some (.ofNat 0xFEFF) then .error .invalid
  let u ← text.foldlM (UniqueReader.step py) ⟨⟨[], .value⟩, []⟩
  match u.reader.finish py with
  | .ok value => .ok value
  | .error _ => .error .invalid

/-! ## The elements of a statement -/

/-- `_as_list`. -/
def asList : Value → List Value
  | .list items => items
  | value => [value]

/-- `_wildcard`, with the letters that are taken for one another. -/
def wildcard (same : CodePoint → CodePoint → Bool) : Str → Str → Bool
  | [], value => value.isEmpty
  | c :: rest, value =>
    if c.is '*' then value.tails.any fun behind => wildcard same rest behind
    else
      match value with
      | [] => false
      | d :: value => (c.is '?' || same c d) && wildcard same rest value

/-- The ASCII letter that `re.IGNORECASE` takes a character for. There are four outside ASCII. -/
def foldLetter (c : CodePoint) : CodePoint :=
  if c.val = 0x130 ∨ c.val = 0x131 then .ofChar 'i'
  else if c.val = 0x17F then .ofChar 's'
  else if c.val = 0x212A then .ofChar 'k'
  else c.asciiLower

/-- `re.IGNORECASE`, for a character of an ASCII text. -/
def ignoreCase (c d : CodePoint) : Bool := foldLetter c = foldLetter d

/-- `_everyone`. -/
def everyone (principal : Value) : Bool :=
  principal.isText "*" ||
    match principal with
    | .dict members => !members.isEmpty && (members.all fun member => member.1 = str "AWS")
        && (asList (get members "AWS")).any fun item => item.isText "*"
    | _ => false

/-- `_covers_action`. -/
def coversAction (statement : Members) (action : Str) : Bool :=
  (asList (get statement "Action")).any fun item =>
    match item with
    | .str pattern => wildcard ignoreCase pattern action
    | _ => false

/-- `REGION_PARTITIONS`. -/
def REGION_PARTITIONS : List (String × String) := [("cn-", "aws-cn"), ("us-gov-", "aws-us-gov")]

/-- `partition_for_region`. -/
def partitionForRegion (region : Option Str) : Str :=
  match REGION_PARTITIONS.find? fun entry =>
    region.any fun name => (str entry.1).isPrefixOf name with
  | some (_, partition) => str partition
  | none => str "aws"

/-- `partition or portal_partition()`. -/
def partitionOr (region partition : Option Str) : Str :=
  match partition with
  | some name => if name = [] then partitionForRegion region else name
  | none => partitionForRegion region

/-- `_ARN_RE.match`: the partition and what follows `:s3:::`. -/
def matchArn (resource : Str) : Option (Str × Str) := do
  let rest ← (str "arn:").isPrefixOf? resource
  let (partition, rest) := rest.span fun c =>
    (decide (0x61 ≤ c.val) && decide (c.val ≤ 0x7A)) || c.is '-'
  let rest ← (str ":s3:::").isPrefixOf? rest
  if (str "aws").isPrefixOf partition then some (partition, rest) else none

/-- `resource_prefixes`. -/
def resourcePrefixes (resource : Value) (bucket partition : Str) : List String :=
  match resource with
  | .str text =>
    match matchArn text with
    | some (arnPartition, rest) =>
      match (bucket ++ str "/").isPrefixOf? rest with
      | some tail =>
        if !endsWith text (str "*") || arnPartition != partition then []
        else
          let literal := tail.dropLast
          if literal.any fun c => c.is '*' || c.is '?' then []
          else PREFIXES.filter fun folder => literal.isPrefixOf (str folder)
      | none => []
    | none => []
  | _ => []

/-- `_covered_prefixes`. -/
def coveredPrefixes (statement : Members) (bucket partition : Str) : List String :=
  (asList (get statement "Resource")).flatMap fun resource =>
    resourcePrefixes resource bucket partition

/-! ## Conditions -/

/-- An entry of a condition block: the operator and the key in lower case, and the values. -/
abbrev ConditionEntry := (Str × Str) × List Value

/-- `str(v).lower() if isinstance(v, bool) else v`. -/
def conditionValue : Value → Value
  | .bool true => .str (str "true")
  | .bool false => .str (str "false")
  | value => value

section
variable (tables : TextTables)

/-- The entries of one operator. -/
def operatorEntries (operator : Str) (entries : Members) : List ConditionEntry :=
  entries.map fun entry =>
    ((tables.lower operator, tables.lower entry.1), (asList entry.2).map conditionValue)

/-- The entries of a condition block in their order, none when it is malformed. -/
def blockEntries : Members → Option (List ConditionEntry)
  | [] => some []
  | (operator, .dict entries) :: rest => do
    let behind ← blockEntries rest
    return operatorEntries tables operator entries ++ behind
  | _ => none

/-- `_conditions`: a later entry takes the place of one with the same operator and key. -/
def conditions (condition : Value) : Option (List ConditionEntry) :=
  match condition with
  | .dict operators =>
    (blockEntries tables operators).map fun entries => entries.foldl (Dict.put Prod.fst) []
  | _ => none

/-- The entry of the erasure exception. -/
def ERASURE_ENTRY : Str × Str := (str "arnnotequals", str "aws:principalarn")

/-- The entry of a `PutObject` without `If-None-Match`. -/
def IF_NONE_MATCH_ENTRY : Str × Str := (str "null", str "s3:if-none-match")

/-- The entry of an operation that creates an object. -/
def CREATION_ENTRY : Str × Str := (str "bool", str "s3:objectcreationoperation")

/-- The texts, none when another value is among them. -/
def allTexts : List Value → Option (List Str)
  | [] => some []
  | .str text :: rest => (allTexts rest).map fun texts => text :: texts
  | _ => none

/-- `_erasure_principals`. -/
def erasurePrincipals (condition : Value) : Option (List Str) :=
  match conditions tables condition with
  | some [(entry, values)] =>
    if entry = ERASURE_ENTRY then (allTexts values).filter fun principals => !principals.isEmpty
    else none
  | _ => none

/-- `values == ["true"]`. -/
def isTrue (values : List Value) : Bool :=
  match values with
  | [value] => value.isText "true"
  | _ => false

/-- `_if_none_match_condition`. -/
def ifNoneMatchCondition (condition : Value) : Bool :=
  !condition.truthy ||
    match conditions tables condition with
    | some found =>
      (match Dict.get Prod.fst found IF_NONE_MATCH_ENTRY with
        | some (_, values) => isTrue values
        | none => false)
      && found.all fun (entry, values) =>
        entry = IF_NONE_MATCH_ENTRY || (entry = CREATION_ENTRY && isTrue values)
    | none => false

end

/-! ## The check -/

/-- The issues. -/
inductive Issue
  /-- `the bucket has no bucket policy` -/
  | noPolicy
  /-- `the bucket policy repeats the key {key!r} in an object` -/
  | repeatedKey (key : Str)
  /-- `the bucket policy is not valid JSON` -/
  | invalid
  /-- `the bucket policy has no statements` -/
  | noStatements
  /-- `the bucket policy does not deny {action} on the bucket's objects to every principal (not under
  {folders})` -/
  | notDenied (action : String) (folders : List String)
  /-- `the erasure exception names a wildcard principal or a policy variable ({principal})` -/
  | wildcardPrincipal (principal : Str)
  /-- `the bucket policy does not deny a PutObject without If-None-Match to every principal (not under
  {folders})` -/
  | unguarded (folders : List String)
  deriving DecidableEq

/-- `REQUIRED_DENIALS`. -/
def REQUIRED_DENIALS : List String :=
  ["s3:DeleteObject", "s3:DeleteObjectVersion", "s3:BypassGovernanceRetention",
    "s3:PutObjectRetention"]

/-- A statement, if the value is an object. -/
def asStatement : Value → Option Members
  | .dict statement => some statement
  | _ => none

/-- The statements of a policy. -/
def statementsOf (policy : Members) : List Members :=
  (match get policy "Statement" with
    | .dict statement => [Value.dict statement]
    | .list items => items
    | _ => []).filterMap asStatement

/-- A statement that is counted: it denies to everyone, and names what it denies. -/
def isDeny (statement : Members) : Bool :=
  (get statement "Effect").isText "Deny" && everyone (get statement "Principal")
    && ["NotAction", "NotResource", "NotPrincipal"].all fun name =>
      (find statement (str name)).isNone

/-- `denies`: the counted statements with the prefixes they cover. -/
def deniesOf (policy : Members) (bucket partition : Str) : List (Members × List String) :=
  ((statementsOf policy).filter isDeny).map fun statement =>
    (statement, coveredPrefixes statement bucket partition)

section
variable (tables : TextTables)

/-- The principals that the counted statements leave out for an action under a prefix, none where one
of the statements has no condition. -/
def exceptedFrom (action : Str) (folder : String) :
    List (Members × List String) → Option (List Str)
  | [] => some []
  | (statement, covered) :: rest =>
    if folder ∉ covered ∨ coversAction statement action = false then exceptedFrom action folder rest
    else if !(get statement "Condition").truthy then none
    else (exceptedFrom action folder rest).map fun excepted =>
      (erasurePrincipals tables (get statement "Condition")).getD [] ++ excepted

/-- The loop over the prefixes for an action: the prefixes where it is not denied, and the principals
so far. -/
def checkAction (denies : List (Members × List String)) (action : Str) (principals : List Str) :
    List String × List Str :=
  PREFIXES.foldl (fun (missing, principals) folder =>
    match exceptedFrom tables action folder denies with
    | none => (missing, principals)
    | some [] => (missing ++ [folder], principals)
    | some excepted => (missing, principals ++ excepted.filter fun p => p ∉ principals))
    ([], principals)

/-- The loop over the actions. -/
def checkActions (denies : List (Members × List String)) : List Issue × List Str :=
  REQUIRED_DENIALS.foldl (fun (issues, principals) action =>
    let (missing, principals) := checkAction tables denies (str action) principals
    (if missing.isEmpty then issues else issues ++ [.notDenied action missing], principals))
    ([], [])

/-- The prefixes where a `PutObject` without `If-None-Match` is not denied. -/
def unguardedPrefixes (denies : List (Members × List String)) : List String :=
  PREFIXES.filter fun folder => !denies.any fun (statement, covered) =>
    folder ∈ covered && coversAction statement (str "s3:PutObject")
      && ifNoneMatchCondition tables (get statement "Condition")

/-- A wildcard or a policy variable. -/
def isWildcard (principal : Str) : Bool := principal.any fun c => c.is '*' || c.is '?' || c.is '$'

/-- What `check_policy` says of the statements of a policy. -/
def checkStatements (policy : Members) (bucket partition : Str) : List Issue × List Str :=
  let denies := deniesOf policy bucket partition
  let (issues, principals) := checkActions tables denies
  let wildcards := (principals.filter isWildcard).map Issue.wildcardPrincipal
  let unguarded := unguardedPrefixes tables denies
  (issues ++ wildcards ++ if unguarded.isEmpty then [] else [.unguarded unguarded], principals)

/-- `check_policy`. -/
def checkPolicy (py : Interpreter) (region : Option Str) (policyText : Option Str) (bucket : Str)
    (partition : Option Str) : List Issue × List Str :=
  let partition := partitionOr region partition
  match policyText with
  | none => ([.noPolicy], [])
  | some text =>
    match loadPolicy py text with
    | .error (.duplicateKey name) => ([.repeatedKey name], [])
    | .error .invalid => ([.invalid], [])
    | .ok (.dict policy) => checkStatements tables policy bucket partition
    | .ok _ => ([.noStatements], [])

end

end TrustPortal.EvidenceStore.BucketPolicy
