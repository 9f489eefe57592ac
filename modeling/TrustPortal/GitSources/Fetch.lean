import TrustPortal.GitSources.Candidates

/-!
# `TrustPortal.GitSources.Fetch`: reading a candidate

`fetchCandidate` reads what a candidate needs from the provider: the bytes of the file, and of a
decision log its transcript, put together from the parts of a chunked file, with the exit reason
and the agent of its sidecar. A file that is too large to read is not an error: it is returned with
what it exceeds.
-/

set_option autoImplicit false

namespace TrustPortal.GitSources

open TrustPortal.Audit (truthy)
open TrustPortal.DecisionLog (JSONL_SUFFIX MAX_TRANSCRIPT_BYTES dropSuffix)
open TrustPortal.Python (Bytes CodePoint Interpreter LoadsError Str TextTables Value get str)

/-- The interpreter and the library that a sync runs on. `loadsBytes` is `json.loads` of bytes,
which finds out their encoding. -/
structure SyncTools where
  py : Interpreter
  tables : TextTables
  hash : HexDigest
  loadsBytes : Bytes → Except LoadsError Value

/-! ## Paths -/

/-- `posixpath.basename`. -/
def basename (path : List Char) : List Char := (path.reverse.takeWhile fun c => c ≠ '/').reverse

/-- `is_manifest`. -/
def isManifest (path : String) : Bool :=
  match dropSuffix MANIFEST_SUFFIX (basename path.toList) with
  | some name => name ≠ []
  | none => false

/-- `logical_path` of the path of a manifest. -/
def logicalPath (path : String) : String :=
  String.ofList ((dropSuffix MANIFEST_SUFFIX path.toList).getD path.toList)

/-- `posixpath.dirname`. -/
def dirname (path : List Char) : List Char :=
  let head := path.take (path.length - (basename path).length)
  if head.all (· = '/') then head else (head.reverse.dropWhile (· = '/')).reverse

/-- `posixpath.join(directory, name) if directory else name`, of a plain file name. -/
def joinPath (directory name : List Char) : List Char :=
  if directory = [] then name
  else if directory.getLast? = some '/' then directory ++ name
  else directory ++ '/' :: name

/-- A text without surrogates, as it is a part of a path or the digits of a digest. -/
def plainText (text : Str) : String := String.ofList (text.map fun c => Char.ofNat c.val)

/-! ## Contents -/

section
variable (tools : SyncTools) (provider : GitProvider)

/-- `_blob_from_tree`. -/
def blobFromTree (path head : String) (content : Bytes) : Except ProviderError String :=
  (provider.listTree head).map fun tree =>
    match tree.find? fun entry => entry.path = path with
    | some entry => entry.blobId
    | none => plainText (tools.hash.sha256 content)

/-- `_read`. -/
def readCandidate (candidate : Candidate) (head : String) :
    Except ProviderError (Bytes × String) :=
  if truthy candidate.blobId then
    let blob := candidate.blobId.getD ""
    (provider.readBlob blob candidate.path head).map fun content => (content, blob)
  else do
    let content ← provider.readFile candidate.path head none
    let blob ← blobFromTree tools provider candidate.path head content
    return (content, blob)

/-- `read_part`, of the parts in a directory. -/
def readPart (directory : List Char) (head : String) : PartReader := fun _ name maxBytes =>
  let path := String.ofList (joinPath directory (plainText name).toList)
  match provider.readFile path head (some maxBytes) with
  | .ok data => .bytes data
  | .error (.missing type) => .missing type
  | .error _ => .raised

/-- What `_decision_log_content` raises. -/
inductive LogError
  /-- `TranscriptTooLargeError`. -/
  | transcriptTooLarge (size : Nat)
  /-- `ChunkedPartTooLargeError`. -/
  | partTooLarge (declared read : Nat)
  | raised (error : SyncError)

/-- An error of a chunked file in `_decision_log_content`. -/
def LogError.ofFailure : Failure → LogError
  | .partTooLarge _ declared read => .partTooLarge declared read
  | failure => .raised (.chunked failure)

/-- `_decision_log_content`: the transcript and the path it is stored under. -/
def decisionLogContent (path : String) (content : Bytes) (head : String) :
    Except LogError (Bytes × String) :=
  if !isManifest path then
    if content.length > MAX_TRANSCRIPT_BYTES then .error (.transcriptTooLarge content.length)
    else .ok (content, path)
  else
    match parseManifest tools.py (.bytes content) with
    | .error failure => .error (.ofFailure failure)
    | .ok manifest =>
      let logical := logicalPath path
      let expected := str (String.ofList (basename logical.toList))
      if manifest.name ≠ expected then
        .error (.raised (.manifestName path manifest.name expected))
      else if manifest.size > MAX_TRANSCRIPT_BYTES then .error (.transcriptTooLarge manifest.size)
      else
        match (reassemble tools.hash manifest (readPart provider (dirname path.toList) head)).2 with
        | .error failure => .error (.ofFailure failure)
        | .ok transcript => .ok (transcript, logical)

/-! ## Sidecars -/

/-- A text, none for another value. -/
def textValue : Value → Option Str
  | .str text => some text
  | _ => none

/-- `sidecar_fields`. -/
def sidecarFields : Value → Option Str × Option Str
  | .dict members => (textValue (get members "reason"), textValue (get members "agent"))
  | _ => (none, none)

/-- The path of the sidecar of a transcript. -/
def sidecarPath (transcriptPath : String) : String :=
  String.ofList ((dropSuffix JSONL_SUFFIX transcriptPath.toList).getD transcriptPath.toList
    ++ ".meta.json".toList)

/-- `_sidecar`. -/
def sidecar (transcriptPath head : String) : Except SyncError (Option Str × Option Str) :=
  match provider.readFile (sidecarPath transcriptPath) head none with
  | .error (.value _) => .ok (none, none)
  | .error error => if error.isGitSourceError then .ok (none, none) else .error (.provider error)
  | .ok data =>
    match tools.loadsBytes data with
    | .ok value => .ok (sidecarFields value)
    | .error .recursion => .error .recursion
    | .error _ => .ok (none, none)

/-! ## Candidates -/

/-- The decision log of a fetched file. -/
structure FetchedLog where
  transcript : Bytes
  transcriptPath : String
  exitReason : Option Str
  agent : Option Str

/-- `FetchedFile`. -/
inductive FetchedFile
  /-- Of a file that is gone. -/
  | nothing
  | tooLarge (blobId : Option String) (flag : Flag)
  | read (content : Bytes) (blobId : String) (log : Option FetchedLog)

/-- The transcript and the sidecar of a decision log that was read. -/
def fetchLog (candidate : Candidate) (head : String) (content : Bytes) (blobId : String) :
    Except SyncError FetchedFile :=
  match decisionLogContent tools provider candidate.path content head with
  | .error (.transcriptTooLarge size) =>
    .ok (.tooLarge (some blobId) ⟨some size, MAX_TRANSCRIPT_BYTES, .transcriptLimit⟩)
  | .error (.partTooLarge declared read) =>
    .ok (.tooLarge (some blobId) ⟨some read, declared, .chunkPartLimit⟩)
  | .error (.raised error) => .error error
  | .ok (transcript, transcriptPath) =>
    (sidecar tools provider transcriptPath head).map fun (exitReason, agent) =>
      .read content blobId (some ⟨transcript, transcriptPath, exitReason, agent⟩)

/-- `fetch_candidate`. -/
def fetchCandidate (candidate : Candidate) (head : String) : Except SyncError FetchedFile :=
  if candidate.changeType = .change .deleted then .ok .nothing
  else if candidate.kind = .decisionLog ∧ candidate.size.any (· > MAX_TRANSCRIPT_BYTES)
      ∧ isManifest candidate.path = false then
    .ok (.tooLarge candidate.blobId ⟨candidate.size, MAX_TRANSCRIPT_BYTES, .transcriptLimit⟩)
  else
    match readCandidate tools provider candidate head with
    | .error (.tooLarge size limit _) =>
      .ok (.tooLarge candidate.blobId ⟨size, limit, .providerLimit⟩)
    | .error error => .error (.provider error)
    | .ok (content, blobId) =>
      if candidate.kind = .decisionLog then fetchLog tools provider candidate head content blobId
      else .ok (.read content blobId none)

end

end TrustPortal.GitSources
