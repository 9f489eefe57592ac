import TrustPortal.GitSources.ChunkedFiles
import TrustPortal.GitSources.Compare

/-!
# `TrustPortal.GitSources.Provider`: what a sync asks of a repository

A sync reads one branch of a repository through a `GitProvider`. A call can fail and, made again,
answer, so a `GitProvider` has the answers of the provider during one step of a sync, and each step
has its own.

`SyncError` is what a step raises: an error of the provider, of a chunked file, of an importer or of
the database.
-/

set_option autoImplicit false

namespace TrustPortal.GitSources

open TrustPortal.Python (Bytes Str)

/-- What a provider raises. -/
inductive ProviderError
  /-- `NotFoundError`. -/
  | notFound (message : String)
  /-- `FileTooLargeError`. -/
  | tooLarge (size : Option Nat) (limit : Nat) (message : String)
  /-- Another `GitSourceError`. -/
  | refused (message : String)
  /-- An `OSError` or a `LookupError`, by its type. -/
  | missing (type : String)
  /-- A `ValueError`. -/
  | value (text : String)
  /-- Another exception. -/
  | other (text : String)
  deriving DecidableEq

/-- A `GitSourceError`. -/
def ProviderError.isGitSourceError : ProviderError → Bool
  | .notFound _ | .tooLarge _ _ _ | .refused _ => true
  | .missing _ | .value _ | .other _ => false

/-- `TreeEntry`. -/
structure TreeEntry where
  path : String
  blobId : String
  size : Option Nat
  deriving DecidableEq

/-- `CommitInfo`. Times are in seconds since 1970. -/
structure CommitInfo where
  commitId : String
  parentIds : List String
  authorName : Option String
  authorEmail : Option String
  authoredAt : Option Int
  committerName : Option String
  committerEmail : Option String
  committedAt : Option Int
  message : String
  deriving DecidableEq

/-- `GitProvider`, by its answers. -/
structure GitProvider where
  resolveHead : Except ProviderError String
  listTree (commit : String) : Except ProviderError (List TreeEntry)
  diff (fromCommit toCommit : String) : Except ProviderError (List Change)
  readBlob (blob path commit : String) : Except ProviderError Bytes
  readFile (path commit : String) (maxBytes : Option Nat) : Except ProviderError Bytes
  supportsHistory : Bool
  commitsBetween (fromCommit : Option String) (toCommit : String) (limit : Nat) :
    Except ProviderError (List CommitInfo)
  commitChangedPaths (commit : CommitInfo) : Except ProviderError (List String)

/-- What a step of a sync raises. -/
inductive SyncError
  | provider (error : ProviderError)
  /-- `UnknownCommitError`. -/
  | unknownCommit (commit message : String)
  /-- `{path} is not UTF-8 text` -/
  | notText (path : String)
  /-- `manifest {path} describes {name!r}, not {expected!r}` -/
  | manifestName (path : String) (name expected : Str)
  /-- An error of a chunked file. -/
  | chunked (failure : Failure)
  /-- A `RecursionError`. -/
  | recursion
  /-- A `TypeError`. -/
  | type
  /-- An exception of an importer. -/
  | importer (text : String)
  /-- An error of the database; `deadlock` for SQLSTATE 40P01. -/
  | database (deadlock : Bool) (text : String)
  /-- `LockLostError`. -/
  | lockLost

/-- `is_deadlock`. -/
def SyncError.isDeadlock : SyncError → Bool
  | .database deadlock _ => deadlock
  | .provider _ | .unknownCommit _ _ | .notText _ | .manifestName _ _ _ | .chunked _ | .recursion
  | .type | .importer _ | .lockLost => false

end TrustPortal.GitSources
