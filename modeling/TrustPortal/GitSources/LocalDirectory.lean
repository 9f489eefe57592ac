import TrustPortal.GitSources.Mappings
import Mathlib.Data.List.Dedup
import Mathlib.Data.List.Sort
import Mathlib.Data.List.TakeWhile

/-!
# `TrustPortal.GitSources.LocalDirectory`: a directory as a git source

`LocalDirectoryProvider` reads a directory as if it were a repository. `walkPlan` limits what is
walked to the directories that the mapping patterns can match, `walk` is `os.walk` and `scan` is
the manifest.

A tree has names that a file system allows and that are text (`Name`), and a symbolic link stands for
what it resolves to. A file name that is no UTF-8 text, which `os.fsdecode` makes surrogates of, is left
out. The tree is static: a file that a scan has hashed before is hashed again, where the
source keeps the hash while the size and the modification time are the same.
-/

set_option autoImplicit false

namespace TrustPortal.GitSources

/-! ## Directory trees -/

/-- A file name: it is not empty, `.` or `..`, and holds neither `/` nor NUL. -/
def isName (name : List Char) : Bool :=
  name ≠ [] && name ≠ ['.'] && name ≠ ['.', '.'] && name.all fun c => c ≠ '/' && c ≠ '\x00'

/-- A file name. -/
abbrev Name := { name : List Char // isName name = true }

/-- What a directory holds. -/
inductive Node
  | file (content : List UInt8)
  | directory (entries : List (Name × Node))
  /-- A symbolic link, as the names from the root to what it resolves to; none where that is
  nothing or is outside the root. -/
  | link (target : Option (List Name))

/-- The entries of the root of a tree. -/
abbrev Entries := List (Name × Node)

/-- The entry of a directory. -/
def Node.child (node : Node) (part : List Char) : Option (Name × Node) :=
  match node with
  | .directory entries => entries.find? fun entry => entry.1.val = part
  | .file _ | .link _ => none

/-- The node at a path through directories. -/
def Node.get (node : Node) : List Name → Option Node
  | [] => some node
  | name :: names => (node.child name.val).bind fun entry => entry.2.get names

/-- The path of a list of names. -/
def pathText (names : List (List Char)) : List Char := List.intercalate ['/'] names

/-! ## The walk plan -/

/-- `_is_git_component`. -/
def isGitComponent (name : List Char) : Bool := ".git".toList.isPrefixOf name

/-- `SKIP_DIRECTORIES` -/
def SKIP_DIRECTORIES : List String :=
  ["node_modules", "__pycache__", ".venv", "venv", ".tox", ".mypy_cache", ".pytest_cache",
    ".ruff_cache", ".cache", ".terraform", ".next"]

/-- `_skip`. -/
def skip (name : List Char) : Bool :=
  isGitComponent name || SKIP_DIRECTORIES.any fun skipped => skipped.toList = name

/-- The parts of a pattern. `strip("/")` takes away empty parts only. -/
def patternParts (pattern : List Char) : List (List Char) :=
  (pattern.splitOn '/').filter fun part => part ≠ []

/-- A part that `walk_plan` takes for a wildcard. -/
def isWild (part : List Char) : Bool := part.any fun c => c = '*' || c = '?' || c = '['

/-- The leading parts of a pattern without wildcards. -/
def literalParts (pattern : List Char) : List (List Char) :=
  (patternParts pattern).takeWhile fun part => !isWild part

/-- What a pattern adds to the plan, none where the whole root is walked. -/
def planEntry (pattern : List Char) : Option (List Char × Bool) :=
  if (literalParts pattern).length = (patternParts pattern).length then
    some (pathText (literalParts pattern), false)
  else if literalParts pattern ≠ [] then some (pathText (literalParts pattern), true)
  else if (patternParts pattern).length = 1 then some ([], false)
  else none

/-- The order of tuples in a plan. -/
def planLe (a b : List Char × Bool) : Prop := a.1 < b.1 ∨ a.1 = b.1 ∧ (a.2 = true → b.2 = true)

instance : DecidableRel planLe := fun _ _ => inferInstanceAs (Decidable (_ ∨ _))

/-- `walk_plan`: the paths to walk, and whether with the directories below. -/
def walkPlan (patterns : Option (List String)) : List (List Char × Bool) :=
  match patterns with
  | none => [([], true)]
  | some patterns =>
    match patterns.mapM fun pattern => planEntry pattern.toList with
    | none => [([], true)]
    | some plan => plan.dedup.insertionSort planLe

example : walkPlan (some ["*.json", "**/x.md"]) = [([], true)]
    ∧ walkPlan (some ["*.json"]) = [([], false)] := by
  decide

/-! ## Files -/

/-- One component of a path that is resolved. -/
def resolveStep (root : Entries) (here : List Name × Node) (part : List Char) :
    Option (List Name × Node) :=
  match here.2.child part with
  | none => none
  | some (_, .link target) =>
    target.bind fun names => (Node.get (.directory root) names).map fun node => (names, node)
  | some (name, node) => some (here.1 ++ [name], node)

/-- `resolve(strict=True)` of a path in the root: what is there, and its own path. -/
def resolve (root : Entries) (parts : List (List Char)) : Option (List Name × Node) :=
  parts.foldlM (resolveStep root) ([], .directory root)

/-- `_validate_repo_path`. -/
def isRepoPath (path : List Char) : Bool :=
  path ≠ [] && !path.contains '\x00' && path.head? ≠ some '/'
    && (path.splitOn '/').all fun part => part ≠ [] && part ≠ ['.'] && part ≠ ['.', '.']

/-- `_safe_path`, with the content of the file; none where it raises. -/
def safePath (root : Entries) (rel : List Char) : Option (List UInt8) :=
  if isRepoPath rel && !(rel.splitOn '/').any isGitComponent then
    match resolve root (rel.splitOn '/') with
    | some (names, .file content) =>
      if names.any fun name => isGitComponent name.val then none else some content
    | _ => none
  else none

/-- The manifest: the digest and the size of each file. -/
abbrev Manifest := List (List Char × (String × Nat))

/-- `_add`. -/
def Manifest.add (digest : List UInt8 → String) (root : Entries) (manifest : Manifest)
    (rel : List Char) : Manifest :=
  match safePath root rel with
  | some content => (rel, (digest content, content.length)) :: manifest.filter fun item => item.1 ≠ rel
  | none => manifest

/-- The link is followed to a directory. -/
def isDirectoryLink (root : Entries) (target : Option (List Name)) : Bool :=
  match target.bind (Node.get (.directory root)) with
  | some (.directory _) => true
  | _ => false

mutual

/-- The files that `os.walk` finds at an entry. It lists a link to a directory among the
directories and does not go into it. -/
def Node.walk (root : Entries) (recursive : Bool) (name : Name) : Node → List (List Name)
  | .file _ => if isGitComponent name.val then [] else [[name]]
  | .link target =>
    if isDirectoryLink root target || isGitComponent name.val then [] else [[name]]
  | .directory entries =>
    if recursive && !skip name.val then (walk root recursive entries).map (name :: ·) else []

/-- The files that `os.walk` finds in a directory, the git components aside. -/
def walk (root : Entries) (recursive : Bool) : Entries → List (List Name)
  | [] => []
  | (name, node) :: rest => node.walk root recursive name ++ walk root recursive rest

end

/-- The parts of `Path(start)`. -/
def startParts (start : List Char) : List (List Char) :=
  (start.splitOn '/').filter fun part => part ≠ [] && part ≠ ['.']

/-- One path of the plan. -/
def scanStart (digest : List UInt8 → String) (root : Entries) (manifest : Manifest)
    (entry : List Char × Bool) : Manifest :=
  if (startParts entry.1).any skip then manifest
  else match resolve root (startParts entry.1) with
    | some (_, .directory entries) =>
      (walk root entry.2 entries).foldl (fun manifest names =>
        manifest.add digest root (pathText (startParts entry.1 ++ names.map Subtype.val))) manifest
    | _ => manifest.add digest root entry.1

/-- `_scan`. -/
def scan (digest : List UInt8 → String) (root : Entries) (patterns : Option (List String)) :
    Manifest :=
  (walkPlan patterns).foldl (scanStart digest root) []

end TrustPortal.GitSources
