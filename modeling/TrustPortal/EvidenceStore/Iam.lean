import TrustPortal.EvidenceStore.BucketPolicy

/-!
# `TrustPortal.EvidenceStore.Iam`: what a bucket policy denies

How IAM evaluates the `Deny` statements of a bucket policy, as it is documented: a statement denies
a request when its principal, its action, its resource and every entry of its condition block match,
and one such statement is enough. Actions, and the operators and keys of a condition, compare without
regard to case.

`Iam` has the parts that the policies of the store do not need: principals other than everyone, the
other condition operators, wildcards in an ARN, and what a policy variable stands for.
-/

set_option autoImplicit false

namespace TrustPortal.EvidenceStore.BucketPolicy

open TrustPortal.Python

/-- The name of an S3 bucket. It has lower-case letters, digits, dots and hyphens, and so no `$`. -/
structure BucketName where
  name : Str
  plain : ∀ c ∈ name, c.is '$' = false

/-- A request about an object. -/
structure Request where
  action : Str
  key : Str
  /-- `aws:PrincipalArn`, none for an anonymous requester. -/
  principalArn : Option Str
  /-- `s3:if-none-match`, the header of a `PutObject`. -/
  ifNoneMatch : Option Str
  /-- `s3:ObjectCreationOperation`. -/
  creating : Bool
  deriving DecidableEq

/-- What IAM decides beyond the statements the store needs. -/
structure Iam where
  /-- A principal element other than everyone names the requester. -/
  named : Value → Request → Bool
  /-- An ARN with or without wildcards matches an ARN. -/
  arnMatches : Str → Str → Bool
  /-- The text with the policy variables replaced. -/
  expand : Request → Str → Str
  /-- An entry of a condition block with another operator or key holds. -/
  other : Str × Str → List Value → Request → Bool
  /-- An ARN without wildcards matches itself only. -/
  arn_plain : ∀ pattern arn : Str, (pattern.any fun c => c.is '*' || c.is '?') = false →
    arnMatches pattern arn = decide (pattern = arn)
  /-- A policy variable starts with `$`. -/
  expand_plain : ∀ (request : Request) (text : Str), (∀ c ∈ text, c.is '$' = false) →
    expand request text = text

/-- The same letter of ASCII, in either case. -/
def sameLetter (c d : CodePoint) : Bool := c.asciiLower = d.asciiLower

/-- The text of a value of a condition: `true` is the same as `"true"`. -/
def valueText : Value → Option Str
  | .str text => some text
  | .bool true => some (str "true")
  | .bool false => some (str "false")
  | _ => none

/-- A boolean condition: one of the values is this one. -/
def holdsFor (values : List Value) (fact : Bool) : Bool :=
  values.any fun value => valueText value = some (str (if fact then "true" else "false"))

section
variable (iam : Iam) (tables : TextTables) (bucket : BucketName) (partition : Str)

/-- An entry of a condition block holds. A negated operator holds for a requester without the key, and
otherwise when none of the values matches. -/
def Iam.entryHolds (operator key : Str) (values : List Value) (request : Request) : Bool :=
  let entry := (tables.lower operator, tables.lower key)
  if entry = (str "arnnotequals", str "aws:principalarn") then
    request.principalArn.all fun arn => values.all fun value => (valueText value).all fun pattern =>
      !iam.arnMatches (iam.expand request pattern) arn
  else if entry = (str "null", str "s3:if-none-match") then
    holdsFor values request.ifNoneMatch.isNone
  else if entry = (str "bool", str "s3:objectcreationoperation") then
    holdsFor values request.creating
  else iam.other entry values request

/-- Every entry of a condition block holds. -/
def Iam.conditionHolds (condition : Value) (request : Request) : Bool :=
  match condition with
  | .dict operators => operators.all fun (operator, entries) =>
      match entries with
      | .dict entries => entries.all fun (key, value) =>
          iam.entryHolds tables operator key (asList value) request
      | _ => true
  | _ => true

/-- The principal element names the requester. -/
def Iam.principalMatches (principal : Value) (request : Request) : Bool :=
  principal.isText "*"
    || (match principal with
      | .dict members => (asList (get members "AWS")).any fun item => item.isText "*"
      | _ => false)
    || iam.named principal request

/-- One of the actions is the one of the request. -/
def actionMatches (actions : Value) (request : Request) : Bool :=
  (asList actions).any fun item =>
    match item with
    | .str pattern => wildcard sameLetter pattern request.action
    | _ => false

/-- The ARN of an object. -/
def objectArn (key : Str) : Str :=
  str "arn:" ++ partition ++ str ":s3:::" ++ bucket.name ++ str "/" ++ key

/-- One of the resources is the one of the request. -/
def Iam.resourceMatches (resources : Value) (request : Request) : Bool :=
  (asList resources).any fun item =>
    match item with
    | .str pattern => wildcard (fun c d => c = d) (iam.expand request pattern)
        (objectArn bucket partition request.key)
    | _ => false

/-- An element of the statement matches, or its negation does not. -/
def elementMatches (statement : Members) (name negated : String) (matchesValue : Value → Bool) :
    Bool :=
  match find statement (str negated) with
  | some value => !matchesValue value
  | none => matchesValue (get statement name)

/-- A statement denies the request. -/
def Iam.denies (statement : Members) (request : Request) : Bool :=
  (get statement "Effect").isText "Deny"
    && elementMatches statement "Principal" "NotPrincipal" (iam.principalMatches · request)
    && elementMatches statement "Action" "NotAction" (actionMatches · request)
    && elementMatches statement "Resource" "NotResource"
      (iam.resourceMatches bucket partition · request)
    && iam.conditionHolds tables (get statement "Condition") request

/-- One of the statements denies the request. -/
def Iam.denied (policy : Members) (request : Request) : Bool :=
  (statementsOf policy).any fun statement => iam.denies tables bucket partition statement request

/-- The request is about an object of the store. -/
def UnderPrefix (request : Request) : Prop := ∃ folder ∈ PREFIXES, str folder <+: request.key

/-- The policy protects the store: what must be denied is denied to all but the principals, and a
`PutObject` that creates an object without `If-None-Match` is denied to all. -/
structure Protects (policy : Members) (principals : List Str) : Prop where
  denials : ∀ request : Request, request.action ∈ REQUIRED_DENIALS.map str → UnderPrefix request →
    (∀ arn, request.principalArn = some arn → arn ∉ principals) →
    iam.denied tables bucket partition policy request = true
  writeOnce : ∀ request : Request, request.action = str "s3:PutObject" → UnderPrefix request →
    request.creating = true → request.ifNoneMatch = none →
    iam.denied tables bucket partition policy request = true

end

end TrustPortal.EvidenceStore.BucketPolicy
