import Mathlib.Algebra.Group.Int.Defs
import TrustPortal.Audit.PublishHead

/-!
# `TrustPortal.Audit.Archive`: an anchor against its archive manifest

`verify_anchor` and what it calls. An anchor names a manifest in the witness bucket, the
manifest an archived chain, and that chain may have begun with an anchor of its own. The
walk goes from manifest to manifest and reads nothing but the bucket, whose content is not
trusted: it may be malformed, and its manifests may name each other in a cycle.

The bucket is a list of object versions, with the requests the service refuses. `sha256`
and `json.loads` are left open; a text that `json.loads` does not take is not JSON. The
model leaves out the parts of the result that only describe it (`manifest_versions`,
`archive`, `archived_chain`, `final_head`, `rehashed`) and the manifest keys of the lineage.
-/

set_option autoImplicit false

namespace TrustPortal.Audit.Archive

open TrustPortal.Sql

/-- `FORMAT`. -/
def FORMAT : String := "trust-portal-archive-manifest/v1"

/-- `MAX_MANIFEST_BYTES`. -/
def MAX_MANIFEST_BYTES : Nat := 64 * 1024

/-- `MAX_LINEAGE`. -/
def MAX_LINEAGE : Nat := 16

/-! ## The bucket -/

/-- A version of an object, as `list_object_versions` lists it and `get_object` reads it. The
version id is `null` for an object that was written while versioning was off. -/
structure ObjectVersion where
  key : String
  versionId : Option String
  isLatest : Bool
  content : ByteArray
  deriving DecidableEq

/-- An S3 failure with its code, a botocore failure with its class, or another exception. -/
inductive ReadError
  | client (code : String)
  | botoCore (name : String)
  | other (name : String) (text : String)
  deriving DecidableEq, Repr

/-- The content of the bucket, and the requests that fail. A key has each version id once and
one current version at most. -/
structure Bucket where
  versions : List ObjectVersion
  listFault : String → Option ReadError
  readFault : String → Option String → Option ReadError
  version_unique : ∀ v ∈ versions, ∀ w ∈ versions,
    v.key = w.key → v.versionId = w.versionId → v = w
  latest_unique : ∀ v ∈ versions, ∀ w ∈ versions,
    v.key = w.key → v.isLatest = true → w.isLatest = true → v = w

namespace Bucket

/-- `_versions` with `exact`: the versions of the object at a key. -/
def versionsAt (bucket : Bucket) (key : String) : Except ReadError (List ObjectVersion) :=
  match bucket.listFault key with
  | some e => .error e
  | none => .ok (bucket.versions.filter fun v => decide (v.key = key))

/-- The versions of the objects under a prefix. -/
def versionsUnder (bucket : Bucket) (start : String) : Except ReadError (List ObjectVersion) :=
  match bucket.listFault start with
  | some e => .error e
  | none => .ok (bucket.versions.filter fun v => start.toList.isPrefixOf v.key.toList)

/-- `get_object`: the version asked for, or the current one. -/
def getObject (bucket : Bucket) (key : String) (versionId : Option String) :
    Except ReadError ObjectVersion :=
  match bucket.readFault key versionId with
  | some e => .error e
  | none =>
      match versionId with
      | some id =>
          match bucket.versions.find? fun v => decide (v.key = key ∧ v.versionId = some id) with
          | some v => .ok v
          | none => .error (.client "NoSuchVersion")
      | none =>
          match bucket.versions.find? fun v => decide (v.key = key ∧ v.isLatest = true) with
          | some v => .ok v
          | none => .error (.client "NoSuchKey")

end Bucket

/-- The version id a listed version is asked for with: none for no version id, an empty one
and `null`. -/
def ObjectVersion.requestId (item : ObjectVersion) : Option String :=
  item.versionId.filter fun id => decide (id ≠ "" ∧ id ≠ "null")

/-! ## The manifest -/

/-- What a check raises: an `ArchiveError`, or what a read raised. -/
inductive Raised
  | archive (message : String)
  | read (error : ReadError)
  deriving DecidableEq, Repr

/-- `_read_version`. -/
def readVersion (bucket : Bucket) (item : ObjectVersion) (limit : Nat) :
    Except Raised ByteArray :=
  match bucket.getObject item.key item.requestId with
  | .error e => .error (.read e)
  | .ok stored =>
      if limit < stored.content.size then
        .error (.archive (item.key ++ " is larger than " ++ toString limit ++ " bytes"))
      else .ok stored.content

/-- Python's truth value of a JSON value. -/
def truthy : Json → Bool
  | .null => false
  | .bool b => b
  | .number mantissa _ => decide (mantissa ≠ 0)
  | .string s => decide (s ≠ "")
  | .array items => !items.isEmpty
  | .object members => !members.isEmpty

/-- Python's `value == n`. -/
def isInt (n : Int) : Json → Bool
  | .number mantissa places => decide (mantissa = n * 10 ^ places)
  | .bool b => decide ((if b then 1 else 0) = n)
  | _ => false

/-- The characters without a newline at the end, before which Python's `$` also matches. -/
def dropNewline (chars : List Char) : List Char :=
  if chars.getLast? = some '\n' then chars.dropLast else chars

/-- `[A-Za-z0-9][A-Za-z0-9._-]{0,35}`. -/
def isName : List Char → Bool
  | [] => false
  | first :: rest =>
      first.isAlphanum && decide (rest.length ≤ 35)
        && rest.all fun c => c.isAlphanum || c == '.' || c == '_' || c == '-'

/-- What stands before a fixed text at the end. -/
def dropEnding (ending chars : List Char) : Option (List Char) :=
  if ending.isSuffixOf chars then some (chars.take (chars.length - ending.length)) else none

/-- `MANIFEST_KEY.match(key)`: its groups. -/
def manifestKeyParts (key : String) : Option (String × String) := do
  let rest ← dropText "archives/".toList (dropNewline key.toList)
  let (cid, rest) ← takeClass isHexDigit 16 rest
  let rest ← dropText ['/'] rest
  let name ← dropEnding ".manifest.json".toList rest
  if isName name then some (String.ofList cid, String.ofList name) else none

/-- `manifest_object_key`. -/
def manifestObjectKey (chain name : String) : String :=
  "archives/" ++ chain ++ "/" ++ name ++ ".manifest.json"

/-- A manifest that `parse_manifest` accepted. -/
structure Manifest where
  archiveId : String
  archiveKey : String
  archiveVersionId : Option String
  archiveSize : Int
  archiveSha256 : String
  chainId : String
  finalRowId : Int
  finalRowHash : String
  entries : Int
  sourceAnchor : Option Members

/-- A string that satisfies a test. -/
def stringWhere (test : String → Bool) : Json → Option String
  | .string s => if test s then some s else none
  | _ => none

/-- An `int` that is no `bool`, not below a bound. -/
def intFrom (least : Int) : Json → Option Int
  | .number n 0 => if least ≤ n then some n else none
  | _ => none

/-- A string or `None`. -/
def stringOrNone : Json → Option (Option String)
  | .null => some none
  | .string s => some (some s)
  | _ => none

/-- A dictionary. -/
def dictionary : Json → Option Members
  | .object members => some members
  | _ => none

/-- A member of the manifest that must satisfy its check. -/
def checked {α : Type} (members : Members) (field : String) (check : Json → Option α) :
    Except Raised α :=
  match check (detail members field) with
  | some value => .ok value
  | none => .error (.archive ("the manifest's " ++ field ++ " is missing or invalid"))

/-- `SOURCE_ANCHOR_FIELDS`. -/
def SOURCE_ANCHOR_FIELDS : List String :=
  ["archive_id", "archive_sha256", "archived_chain_head", "archived_entries",
    "archive_manifest_key", "archive_manifest_sha256"]

/-- The check of `source_anchor`. -/
def checkSource : Json → Except Raised (Option Members)
  | .null => .ok none
  | .object source =>
      if SOURCE_ANCHOR_FIELDS.any fun field =>
          !truthy (detail source field) && !isInt 0 (detail source field) then
        .error (.archive "the manifest's source_anchor is invalid")
      else .ok (some source)
  | _ => .error (.archive "the manifest's source_anchor is invalid")

/-- The members of a JSON object of the manifest's format. -/
def manifestMembers : Option Json → Except Raised Members
  | none => .error (.archive "the manifest is not JSON")
  | some (.object members) =>
      if isText FORMAT (detail members "format") then .ok members
      else .error (.archive "the manifest is not a trust-portal-archive-manifest/v1 object")
  | some _ => .error (.archive "the manifest is not a trust-portal-archive-manifest/v1 object")

/-- `parse_manifest`. -/
def parseManifest (loads : ByteArray → Option Json) (content : ByteArray) :
    Except Raised Manifest := do
  let members ← manifestMembers (loads content)
  let archiveId ← checked members "archive_id"
    (stringWhere fun s => isName (dropNewline s.toList))
  let archiveKey ← checked members "archive_key" (stringWhere fun s =>
    "archives/".toList.isPrefixOf s.toList && decide (s.length ≤ 1024))
  let archiveVersionId ← checked members "archive_version_id" stringOrNone
  let archiveSize ← checked members "archive_size" (intFrom 0)
  let archiveSha256 ← checked members "archive_sha256" (stringWhere hex64Match)
  let chainId ← checked members "chain_id" (stringWhere hex16Match)
  let finalRowId ← checked members "final_row_id" (intFrom 1)
  let finalRowHash ← checked members "final_row_hash" (stringWhere hex64Match)
  let entries ← checked members "entries" (intFrom 0)
  let _ ← checked members "verify" dictionary
  let _ ← checked members "created_at" (stringWhere fun _ => true)
  let sourceAnchor ← checkSource (detail members "source_anchor")
  return {
    archiveId := archiveId
    archiveKey := archiveKey
    archiveVersionId := archiveVersionId
    archiveSize := archiveSize
    archiveSha256 := archiveSha256
    chainId := chainId
    finalRowId := finalRowId
    finalRowHash := finalRowHash
    entries := entries
    sourceAnchor := sourceAnchor }

/-! ## The heads -/

/-- The head of an accepted head object. A `published_at` that is no text is shown as none. -/
def headOf (members : Members) : Head where
  id := match detail members "id" with
    | .number id _ => id
    | _ => 0
  rowHash := match detail members "row_hash" with
    | .string hash => hash
    | _ => ""
  publishedAt := match detail members "published_at" with
    | .string published => some published
    | _ => none

/-- The code or the name that `scan_heads` reports of an unreadable object. -/
def ReadError.name : ReadError → String
  | .client code => if code = "" then "ClientError" else code
  | .botoCore name => name
  | .other name _ => name

/-- `scan_heads`, for one listed version: its head, or the reason why it is invalid. -/
def scanVersion (loads : ByteArray → Option Json) (bucket : Bucket) (item : ObjectVersion) :
    Except String Members :=
  if (keyParts item.key).isNone then .error "key is not of the chain head form"
  else if MAX_HEAD_BYTES < item.content.size then .error "object larger than 4096 bytes"
  else match bucket.getObject item.key item.requestId with
    | .error e => .error ("unreadable (" ++ e.name ++ ")")
    | .ok stored => parseHead loads item.key stored.content

/-- The entry of a listed version among the valid heads. -/
def validEntry (loads : ByteArray → Option Json) (bucket : Bucket) (item : ObjectVersion) :
    Option HeadEntry :=
  match keyParts item.key, scanVersion loads bucket item with
  | some (cid, _), .ok members => some ⟨item.key, cid, headOf members⟩
  | _, _ => none

/-- The entry of a listed version among the invalid objects. -/
def invalidEntry (loads : ByteArray → Option Json) (bucket : Bucket) (item : ObjectVersion) :
    Option InvalidHead :=
  match scanVersion loads bucket item with
  | .ok _ => none
  | .error reason => some ⟨item.key, reason⟩

/-- `scan_heads`. -/
def scanHeads (loads : ByteArray → Option Json) (bucket : Bucket) (start : String) :
    Except ReadError HeadScan :=
  match bucket.versionsUnder start with
  | .error e => .error e
  | .ok items =>
      .ok ⟨items.filterMap (validEntry loads bucket), items.filterMap (invalidEntry loads bucket)⟩

/-! ## The checks of one generation -/

/-- The fields of an anchor that the verification reads. -/
structure AnchorFields where
  archiveId : Json
  archiveSha256 : Json
  archivedChainHead : Json
  archivedEntries : Json
  archiveManifestKey : Json
  archiveManifestSha256 : Json

/-- The fields of the anchor that a manifest records. -/
def AnchorFields.ofSource (source : Members) : AnchorFields where
  archiveId := detail source "archive_id"
  archiveSha256 := detail source "archive_sha256"
  archivedChainHead := detail source "archived_chain_head"
  archivedEntries := detail source "archived_entries"
  archiveManifestKey := detail source "archive_manifest_key"
  archiveManifestSha256 := detail source "archive_manifest_sha256"

/-- What a verification of an anchor works with: the bucket, `sha256` and `json.loads`, and the
arguments `rehash` and `heads`. -/
structure Checks where
  sha : ByteArray → String
  loads : ByteArray → Option Json
  bucket : Bucket
  rehash : Bool
  heads : Option HeadScan

/-- Why a manifest was not read: a finding, or an exception. -/
inductive Halt
  | finding (issue : String)
  | raised (error : Raised)

/-- `_read_version` of each version. -/
def readVersions (bucket : Bucket) : List ObjectVersion → Except Raised (List ByteArray)
  | [] => .ok []
  | item :: items => do
      let content ← readVersion bucket item MAX_MANIFEST_BYTES
      let contents ← readVersions bucket items
      return content :: contents

/-- An exception of a step. -/
def orRaise {ε α : Type} (raised : ε → Raised) : Except ε α → Except Halt α
  | .ok a => .ok a
  | .error e => .error (.raised (raised e))

/-- `MANIFEST_KEY.match(key)` of a value that is no empty one. Anything but a string is a
`TypeError`. -/
def matchKey : Json → Except Halt (String × String × String)
  | .string key =>
      match manifestKeyParts key with
      | some parts => .ok (key, parts)
      | none => .error (.finding ("the anchor's manifest key "
          ++ String.ofList (key.toList.take 200)
          ++ " is not archives/<chain id>/<name>.manifest.json"))
  | _ => .error (.raised (.read (.other "TypeError" "expected string or bytes-like object")))

/-- The first part of `_check_manifest`: the manifest that the anchor names, once every version
read has the pinned digest and the manifest names the chain and the archive of its key. -/
def readManifest (checks : Checks) (anchor : AnchorFields) : Except Halt Manifest := do
  if !truthy anchor.archiveManifestKey || !truthy anchor.archiveManifestSha256 then
    throw (.finding ("the anchor names no archive manifest (it was not created from a manifest "
      ++ "by python -m cli audit-anchor)"))
  let (key, chain, name) ← matchKey anchor.archiveManifestKey
  let versions ← orRaise Raised.read (checks.bucket.versionsAt key)
  let contents ← orRaise id (readVersions checks.bucket versions)
  match contents with
  | [] => throw (.finding ("no archive manifest at " ++ key))
  | content :: _ =>
      if contents.any fun c => !isText (checks.sha c) anchor.archiveManifestSha256 then
        throw (.finding ("the manifest at " ++ key
          ++ " is not the one the anchor names (manifest SHA-256 differs)"))
      let manifest ← orRaise id (parseManifest checks.loads content)
      if manifest.chainId ≠ chain ∨ manifest.archiveId ≠ name then
        throw (.finding ("the manifest at " ++ key
          ++ " names another chain or archive than its key"))
      return manifest

/-- An issue, when there is one. -/
def issueIf (condition : Bool) (issue : String) : List String :=
  if condition then [issue] else []

/-- `_compare`. -/
def compare (anchor : AnchorFields) (manifest : Manifest) : List String :=
  issueIf (!isText manifest.archiveSha256 anchor.archiveSha256)
      "the anchor's archive SHA-256 differs from the manifest's"
    ++ issueIf (!isText manifest.finalRowHash anchor.archivedChainHead)
      ("the anchor's archived chain head (its previous_hash) is not the manifest's "
        ++ "final row hash")
    ++ issueIf (!isText manifest.archiveId anchor.archiveId)
      "the anchor's archive id differs from the manifest's"
    ++ issueIf (!isInt manifest.entries anchor.archivedEntries)
      "the anchor's archived entry count differs from the manifest's"

/-- The version the manifest pins, `archive_version_id` when it is no empty one. -/
def Manifest.pinnedVersion (manifest : Manifest) : Option String :=
  manifest.archiveVersionId.filter fun id => decide (id ≠ "")

/-- `v` is the version a manifest pins, or the current one when it pins none. -/
def Manifest.pins (manifest : Manifest) (v : ObjectVersion) : Bool :=
  match manifest.pinnedVersion with
  | some id => decide (v.versionId = some id)
  | none => v.isLatest

/-- `_check_archive`: its issues. -/
def checkArchive (checks : Checks) (manifest : Manifest) : Except ReadError (List String) :=
  match checks.bucket.versionsAt manifest.archiveKey with
  | .error e => .error e
  | .ok versions =>
      match versions.find? manifest.pins with
      | none =>
          .ok ["the archive object " ++ manifest.archiveKey
            ++ (manifest.pinnedVersion.elim "" fun id => " (version " ++ id ++ ")")
            ++ " is missing"]
      | some chosen =>
          .ok (issueIf (decide ((chosen.content.size : Int) ≠ manifest.archiveSize))
            ("the archive object " ++ manifest.archiveKey ++ " has "
              ++ toString chosen.content.size ++ " bytes; the manifest states "
              ++ toString manifest.archiveSize))

/-- The prefix of a chain's heads. -/
def headsPrefix (chain : String) : String := "chain-heads/" ++ chain ++ "/"

/-- The scan that `_check_final_head` looks at. -/
def chainScan (checks : Checks) (chain : String) : Except ReadError HeadScan :=
  match checks.heads with
  | some scan => .ok scan
  | none => scanHeads checks.loads checks.bucket (headsPrefix chain)

/-- `later[-1]`: the largest id of the heads after a row. -/
def lastLater (entries : List HeadEntry) (id : Int) : Option Int :=
  ((entries.map fun entry => entry.head.id).filter fun other => decide (id < other)).max?

/-- The issues of `_check_final_head` in a scan. -/
def finalHeadIssues (manifest : Manifest) (scan : HeadScan) : List String :=
  let start := headsPrefix manifest.chainId
  let valid := scan.valid.filter fun entry => decide (entry.chainId = manifest.chainId)
  let invalid := scan.invalid.filter fun entry => start.toList.isPrefixOf entry.key.toList
  let published := valid.filter fun entry => decide (entry.head.id = manifest.finalRowId
    ∧ entry.head.rowHash = manifest.finalRowHash)
  let differing := valid.filter fun entry => decide (entry.head.id = manifest.finalRowId
    ∧ entry.head.rowHash ≠ manifest.finalRowHash)
  (match invalid with
    | [] => []
    | first :: _ => [toString invalid.length ++ " invalid witness object(s) under " ++ start
        ++ " (first: " ++ first.key ++ ": " ++ first.reason ++ ")"])
    ++ issueIf published.isEmpty ("the witness never published the archived chain's final head "
      ++ "(row " ++ toString manifest.finalRowId ++ ") under " ++ start)
    ++ issueIf (!differing.isEmpty) ("a published head for row "
      ++ toString manifest.finalRowId ++ " of the archived chain differs from the manifest")
    ++ (match lastLater valid manifest.finalRowId with
      | none => []
      | some id => ["the witness published a head of the archived chain after its final row (row "
          ++ toString id ++ "): the archive does not hold every published row"])

/-- `_check_final_head`: its issues. -/
def checkFinalHead (checks : Checks) (manifest : Manifest) : Except ReadError (List String) :=
  (chainScan checks manifest.chainId).map (finalHeadIssues manifest)

/-- `_rehash`. -/
def rehash (checks : Checks) (manifest : Manifest) : Except ReadError String :=
  (checks.bucket.getObject manifest.archiveKey manifest.pinnedVersion).map
    fun stored => checks.sha stored.content

/-- The last part of `_check_manifest`: its issues, with those already found. -/
def checkBytes (checks : Checks) (manifest : Manifest) (issues : List String) :
    List String × Except Raised (Option Manifest) :=
  if checks.rehash && issues.isEmpty then
    match rehash checks manifest with
    | .error e => (issues, .error (.read e))
    | .ok recomputed =>
        (issues ++ issueIf (decide (recomputed ≠ manifest.archiveSha256))
          "the archive object's bytes do not hash to the manifest's archive_sha256",
          .ok (some manifest))
  else (issues, .ok (some manifest))

/-- `_check_manifest`: the issues it adds, and what it returns or raises. -/
def checkManifest (checks : Checks) (anchor : AnchorFields) :
    List String × Except Raised (Option Manifest) :=
  match readManifest checks anchor with
  | .error (.finding issue) => ([issue], .ok none)
  | .error (.raised e) => ([], .error e)
  | .ok manifest =>
      let compared := compare anchor manifest
      match checkArchive checks manifest with
      | .error e => (compared, .error (.read e))
      | .ok archiveIssues =>
          match checkFinalHead checks manifest with
          | .error e => (compared ++ archiveIssues, .error (.read e))
          | .ok headIssues => checkBytes checks manifest (compared ++ archiveIssues ++ headIssues)

/-! ## The walk -/

/-- What a walk adds to the result, and the exception that ended it. -/
structure Walk where
  issues : List String
  lineage : List Lineage
  raised : Option Raised

/-- The entry of a manifest in the lineage. -/
def Manifest.lineage (manifest : Manifest) : Lineage :=
  ⟨manifest.chainId, manifest.finalRowId, manifest.finalRowHash⟩

/-- `label`. -/
def label (depth : Nat) : String :=
  if depth = 0 then "" else "generation " ++ toString (depth + 1) ++ ": "

/-- The body of `_check_generation`. `next` goes on with the source anchor. -/
def generation (checks : Checks) (depth : Nat) (next : AnchorFields → Walk)
    (anchor : AnchorFields) : Walk :=
  let (issues, outcome) := checkManifest checks anchor
  let labelled := issues.map (label depth ++ ·)
  match outcome with
  | .error e => ⟨labelled, [], some e⟩
  | .ok none => ⟨labelled, [], none⟩
  | .ok (some manifest) =>
      if issues ≠ [] then ⟨labelled, [], none⟩
      else match manifest.sourceAnchor with
        | none => ⟨[], [manifest.lineage], none⟩
        | some source =>
            let walk := next (.ofSource source)
            ⟨walk.issues, manifest.lineage :: walk.lineage, walk.raised⟩

/-- `_check_generation`. `left` generations may follow this one, so the depth is
`MAX_LINEAGE - 1 - left`. -/
def checkGeneration (checks : Checks) : Nat → AnchorFields → Walk
  | 0 => generation checks (MAX_LINEAGE - 1) fun _ =>
      ⟨["the archive lineage is longer than 16 generations"], [], none⟩
  | left + 1 => generation checks (MAX_LINEAGE - 1 - (left + 1)) (checkGeneration checks left)

/-- `ABSENT_CODES`. -/
def ABSENT_CODES : List String := ["NoSuchKey", "NoSuchVersion", "404", "NotFound"]

/-- `_classify_read_failure`: a finding, or the reason of a `_NoAccess`. -/
def classifyReadFailure : ReadError → Except String String
  | .client code =>
      if code ∈ ABSENT_CODES then .ok ("an object the manifest names is missing (" ++ code ++ ")")
      else .error ("cannot read the witness bucket (" ++ (ReadError.client code).name ++ ")")
  | .botoCore name => .error ("cannot read the witness bucket (" ++ name ++ ")")
  | .other name text => .ok ("the anchor could not be checked: " ++ name ++ ": " ++ text)

/-- The result of a check that ended: failed with an issue, else verified. -/
def concludeIssues (issues : List String) (lineage : List Lineage) : AnchorVerification where
  status := if issues = [] then .verified else .failed
  issues := issues
  reasons := []
  lineage := if issues = [] then lineage else []
  issue_of_failed := by
    intro h hissues
    rw [if_pos hissues] at h
    cases h

/-- The result of a check that could not be made. -/
def unverified (issues : List String) (reason : String) : AnchorVerification where
  status := .unverified
  issues := issues
  reasons := [reason]
  lineage := []
  issue_of_failed := by
    intro h
    cases h

/-- The end of `verify_anchor`. -/
def conclude (walk : Walk) : AnchorVerification :=
  match walk.raised with
  | none => concludeIssues walk.issues walk.lineage
  | some (.archive message) => concludeIssues (walk.issues ++ [message]) walk.lineage
  | some (.read e) =>
      match classifyReadFailure e with
      | .ok finding => concludeIssues (walk.issues ++ [finding]) walk.lineage
      | .error reason => unverified walk.issues reason

/-- The arguments of `verify_anchor`, with what makes its client. `bucketName` is `bucket`, and
`client` the bucket it is read through, or the exception of `s3_client`. -/
structure CheckArgs where
  bucketName : Option String
  client : Except ReadError Bucket
  sha : ByteArray → String
  loads : ByteArray → Option Json
  rehash : Bool
  heads : Option HeadScan

/-- The checks that a verification makes with a client. -/
def CheckArgs.checks (args : CheckArgs) (bucket : Bucket) : Checks :=
  ⟨args.sha, args.loads, bucket, args.rehash, args.heads⟩

/-- `verify_anchor`. -/
def verifyAnchor (args : CheckArgs) (anchor : AnchorFields) : AnchorVerification :=
  if args.bucketName.getD "" = "" then
    unverified [] "no witness bucket: the archive manifest was not checked"
  else match args.client with
    | .error e => conclude ⟨[], [], some (.read e)⟩
    | .ok bucket => conclude (checkGeneration (args.checks bucket) (MAX_LINEAGE - 1) anchor)

end TrustPortal.Audit.Archive
