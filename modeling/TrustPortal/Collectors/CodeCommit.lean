import TrustPortal.Collectors.ChangeRecord
import TrustPortal.GitSources.ChunkedFiles

/-!
# `TrustPortal.Collectors.CodeCommit`: the change-management check of a repository

`checkRepository` reads commits of the default branch, breadth-first from its head, and looks at the
messages of those in the window. A commit's date is raised to the latest date among its ancestors,
as far as a walk over the commits that were read finds them (`effectiveDates`).

A `Repository` is what CodeCommit answers about one repository; an answer is the text of an exception
where the call raises. No commit is its own ancestor, which the walk's termination rests on: each
entry of its stack has a weight that pays for all that it pushes.
-/

set_option autoImplicit false

namespace TrustPortal.Collectors

open TrustPortal.Python
open TrustPortal.GitSources (HexDigest)

/-- `CHECK_PREFIX` -/
def CHECK_PREFIX : Str := str "codecommit_change_management"

/-- `CHANGE_MANAGEMENT_TEST` -/
def CHANGE_MANAGEMENT_TEST : Str := str "Change management process"

/-- `MAX_COMMITS_PER_REPO` -/
def MAX_COMMITS_PER_REPO : Nat := 500

/-- `MAX_CHECK_NAME_LENGTH` -/
def MAX_CHECK_NAME_LENGTH : Nat := 128

/-- `SHORT_ID_LENGTH` -/
def SHORT_ID_LENGTH : Nat := 7

/-- `MESSAGE_ID_LIMIT` -/
def MESSAGE_ID_LIMIT : Nat := 10

/-- A commit as CodeCommit returns it, with its dates parsed. -/
structure Commit where
  parents : List Str
  message : Str
  /-- The committer date. -/
  committed : Option Int
  /-- The author date. -/
  authored : Option Int

/-- What CodeCommit answers about a repository. -/
structure Repository where
  name : Str
  /-- `defaultBranch`, none where there is none. -/
  defaultBranch : Except Str (Option Str)
  /-- `commitId` of a branch. -/
  head : Str → Except Str (Option Str)
  commit : Str → Except Str Commit
  /-- No commit is its own ancestor. -/
  acyclic : WellFounded fun p c => ∃ found, commit c = .ok found ∧ p ∈ found.parents

namespace Repository

/-- The parents of a commit; a commit that cannot be read has none. -/
def parents (repo : Repository) (c : Str) : List Str :=
  match repo.commit c with
  | .ok found => found.parents
  | .error _ => []

theorem acyclic_parents (repo : Repository) {p c : Str} (h : p ∈ repo.parents c) :
    ∃ found, repo.commit c = .ok found ∧ p ∈ found.parents := by
  rw [parents] at h
  split at h
  · exact ⟨_, ‹_›, h⟩
  · cases h

/-- How many entries a commit and all that it pushes put on the stack, twice as many at least as
those of its parents together. -/
def weight (repo : Repository) (c : Str) : Nat :=
  2 + ((repo.parents c).attach.map fun p => repo.weight p.val).sum
termination_by repo.acyclic.wrap c
decreasing_by exact repo.acyclic_parents p.property

end Repository

/-- A commit that was read. -/
structure Read (repo : Repository) where
  id : Str
  found : Commit
  fetched : repo.commit id = .ok found

namespace Read

variable {repo : Repository}

/-- `commit["parents"]` -/
def parents (read : Read repo) : List Str := read.found.parents

/-- `commit["dated"]`: the committer date, the author date, or the time of the run. -/
def dated (read : Read repo) (now : Int) : Int :=
  ((read.found.committed <|> read.found.authored).getD now)

end Read

section
variable {repo : Repository}

/-! ## Reading commits -/

/-- `_fetch_commit` -/
def fetchCommit (repo : Repository) (c : Str) : Except Str (Read repo) :=
  match h : repo.commit c with
  | .ok found => .ok ⟨c, found, h⟩
  | .error exc => .error exc

/-- The loop over the parents of a commit: the queue, and all that was ever queued. -/
def pushParents : List Str → List Str → List Str → List Str × List Str
  | [], queue, queued => (queue, queued)
  | p :: parents, queue, queued =>
    if p ∈ queued then pushParents parents queue queued
    else pushParents parents (queue ++ [p]) (p :: queued)

/-- The loop of `_read_commits`, with room for this many more commits. -/
def readLoop (repo : Repository) : Nat → List (Read repo) → List Str → List Str →
    Except Str (List (Read repo) × List Str)
  | 0, commits, queue, _ => .ok (commits, queue)
  | _ + 1, commits, [], _ => .ok (commits, [])
  | room + 1, commits, c :: queue, queued => do
    let read ← fetchCommit repo c
    let pushed := pushParents read.parents queue queued
    readLoop repo room (commits ++ [read]) pushed.1 pushed.2

/-- `_read_commits`: the commits that were read, and the ids left unread. -/
def readCommits (repo : Repository) (head : Str) : Except Str (List (Read repo) × List Str) :=
  readLoop repo MAX_COMMITS_PER_REPO [] [head] [head]

/-! ## Raised dates -/

/-- `commits[c]` -/
def lookupRead (commits : List (Read repo)) (c : Str) : Option (Read repo) :=
  commits.find? fun read => read.id = c

/-- The parents of a commit that were read. -/
def readParents (commits : List (Read repo)) (c : Str) : List Str :=
  match lookupRead commits c with
  | some read => read.parents.filter fun p => (lookupRead commits p).isSome
  | none => []

theorem readParents_sublist (commits : List (Read repo)) (c : Str) :
    (readParents commits c).Sublist (repo.parents c) := by
  rw [readParents]
  split
  · rename_i read hread
    have hid : read.id = c := by simpa using List.find?_some hread
    have hparents : repo.parents c = read.parents := by
      rw [← hid, Repository.parents, read.fetched]
      rfl
    rw [hparents]
    exact List.filter_sublist
  · exact List.nil_sublist _

private theorem sum_le_of_sublist {weights weights' : List Nat} (h : weights.Sublist weights') :
    weights.sum ≤ weights'.sum := by
  induction h with
  | slnil => exact Nat.le_refl 0
  | cons n _ ih => rw [List.sum_cons]; omega
  | cons_cons n _ ih => rw [List.sum_cons, List.sum_cons]; omega

/-- The raised dates so far, by commit. -/
abbrev Effective := List (Str × Int)

/-- An entry of the stack: a commit, and whether its parents are done. -/
abbrev StackEntry := Str × Bool

/-- The weight of an entry. -/
def entryWeight (repo : Repository) (entry : StackEntry) : Nat :=
  if entry.2 then 1 else repo.weight entry.1

private theorem entryWeight_pos (entry : StackEntry) : 0 < entryWeight repo entry := by
  rw [entryWeight]
  split_ifs
  · exact Nat.one_pos
  · rw [Repository.weight]
    omega

/-- `max([commits[c]["dated"]] + [effective[p] for p in parents])` -/
def raisedDate (now : Int) (commits : List (Read repo)) (effective : Effective) (c : Str) : Int :=
  ((readParents commits c).filterMap fun p => effective.lookup p).foldl max
    (((lookupRead commits c).map fun read => read.dated now).getD now)

/-- The parents that are pushed, the last one on top. -/
def pushedParents (commits : List (Read repo)) (effective : Effective) (c : Str) :
    List StackEntry :=
  (((readParents commits c).filter fun p => (effective.lookup p).isNone).map fun p =>
    (p, false)).reverse

/-- Pushing the parents of a commit makes the stack lighter. -/
theorem weight_pushed (commits : List (Read repo)) (effective : Effective) (c : Str) :
    ((pushedParents commits effective c).map (entryWeight repo)).sum + 1 < repo.weight c := by
  have hsum : ((pushedParents commits effective c).map (entryWeight repo)).sum
      = (((readParents commits c).filter fun p => (effective.lookup p).isNone).map
        repo.weight).sum := by
    rw [pushedParents, List.map_reverse, List.sum_reverse, List.map_map]
    rfl
  have hle : (((readParents commits c).filter fun p => (effective.lookup p).isNone).map
      repo.weight).sum ≤ ((repo.parents c).map repo.weight).sum :=
    sum_le_of_sublist ((List.filter_sublist.trans (readParents_sublist commits c)).map repo.weight)
  have hweight : repo.weight c = 2 + ((repo.parents c).map repo.weight).sum := by
    rw [Repository.weight, List.attach_map_val]
  omega

/-- The loop over the stack, the top first. On a history without cycles, the parents of a commit
that comes up again are all there. -/
def raiseDates (now : Int) (commits : List (Read repo)) (effective : Effective) :
    List StackEntry → Effective
  | [] => effective
  | (c, parentsDone) :: stack =>
    if (effective.lookup c).isSome then raiseDates now commits effective stack
    else if parentsDone then
      raiseDates now commits ((c, raisedDate now commits effective c) :: effective) stack
    else raiseDates now commits effective
      (pushedParents commits effective c ++ (c, true) :: stack)
termination_by stack => (stack.map (entryWeight repo)).sum
decreasing_by
  · have hpositive : 0 < entryWeight repo (c, parentsDone) := entryWeight_pos _
    rw [List.map_cons, List.sum_cons]
    omega
  · have hpositive : 0 < entryWeight repo (c, parentsDone) := entryWeight_pos _
    rw [List.map_cons, List.sum_cons]
    omega
  · have hpushed := weight_pushed commits effective c
    have hdone : parentsDone = false := by simpa using ‹¬parentsDone = true›
    subst hdone
    rw [List.map_cons, List.sum_cons, List.map_append, List.sum_append, List.map_cons,
      List.sum_cons]
    show _ + (1 + _) < repo.weight c + _
    omega

/-- `_effective_dates` -/
def effectiveDates (now : Int) (commits : List (Read repo)) : Effective :=
  commits.foldl (fun effective start => raiseDates now commits effective [(start.id, false)]) []

/-! ## The check -/

/-- `status` of a result. -/
inductive Status
  | pass
  | fail
  | error
  deriving DecidableEq, Repr

/-- `detail` of a result. -/
structure Detail where
  repository : Str
  branch : Option Str
  lookbackDays : Int
  windowStart : Int
  commits : Nat
  compliant : Nat
  noncompliant : Nat
  mergeCommits : Nat
  failingCommits : List Str
  commitsRead : Nat
  incomplete : Bool
  maxCommits : Nat

/-- A `CheckResult`. An error has no more detail than the repository. -/
structure CheckResult where
  checkName : Str
  status : Status
  targetTestName : Str
  message : Str
  detail : Str ⊕ Detail
  evidenceDescription : Option Str

/-- `str(n)` -/
def intStr (n : Int) : Str := if n < 0 then str "-" ++ natText n.natAbs else natText n.natAbs

/-- `check_name_for` -/
def checkNameFor (hash : HexDigest) (repository : Str) : Str :=
  let name := CHECK_PREFIX ++ str ":" ++ repository
  if name.length ≤ MAX_CHECK_NAME_LENGTH then name
  else
    let digest := (hash.sha256 (encodePass repository)).take 8
    let keep := MAX_CHECK_NAME_LENGTH - CHECK_PREFIX.length - digest.length - 2
    CHECK_PREFIX ++ str ":" ++ repository.take keep ++ str "~" ++ digest

/-- The commits of a default branch, none of one that is not there. -/
def readBranch (repo : Repository) :
    Except Str (Option Str × List (Read repo) × List Str) := do
  let branch ← repo.defaultBranch
  match branch with
  | none => .ok (none, [], [])
  | some name =>
    match ← repo.head name with
    | none => .ok (branch, [], [])
    | some head => do
      let read ← readCommits repo head
      .ok (branch, read)

/-- The commits in the window. -/
def inWindow (now cutoff : Int) (commits : List (Read repo)) : List (Read repo) :=
  let effective := effectiveDates now commits
  commits.filter fun read => (effective.lookup read.id).any fun date => cutoff ≤ date

/-- The window reaches past the commits that were read. -/
def isIncomplete (window : List (Read repo)) (unread : List Str) : Bool :=
  window.any fun read => read.parents.any fun p => p ∈ unread

/-- The commits with a change of their own. -/
def changes (window : List (Read repo)) : List (Read repo) :=
  window.filter fun read => read.parents.length < 2

/-- The changes without all sections. -/
def failing (window : List (Read repo)) : List (Read repo) :=
  (changes window).filter fun read => !(missingSections read.found.message).isEmpty

/-- The result of a repository whose commits were read. -/
def evaluate (hash : HexDigest) (repo : Repository) (lookbackDays cutoff now : Int)
    (branch : Option Str) (commits : List (Read repo)) (unread : List Str) : CheckResult :=
  let window := inWindow now cutoff commits
  let incomplete := isIncomplete window unread
  let changed := changes window
  let failed := failing window
  let failingIds := failed.map fun read => read.id.take SHORT_ID_LENGTH
  let days := str "in the last " ++ intStr lookbackDays ++ str " days"
  let sections := join (str ", ") (REQUIRED_SECTIONS.map fun name => str "## " ++ name)
  let detail : Detail :=
    { repository := repo.name
      branch := branch
      lookbackDays := lookbackDays
      windowStart := cutoff
      commits := changed.length
      compliant := changed.length - failed.length
      noncompliant := failed.length
      mergeCommits := window.length - changed.length
      failingCommits := failingIds
      commitsRead := commits.length
      incomplete := incomplete
      maxCommits := MAX_COMMITS_PER_REPO }
  let label := match branch with
    | some branch => str "Repo " ++ repo.name ++ str " (" ++ branch ++ str ")"
    | none => str "Repo " ++ repo.name
  let beyond := if incomplete then
      str "; the window reaches beyond the " ++ natText commits.length
        ++ str " commits read, so older commits in it are unchecked (shorten lookback_days)"
    else []
  let evidence := str "CodeCommit repo " ++ repo.name ++ str ": "
  let result := fun (status : Status) (message description : Str) =>
    ({ checkName := checkNameFor hash repo.name
       status := status
       targetTestName := CHANGE_MANAGEMENT_TEST
       message := label ++ str ": " ++ message
       detail := .inr detail
       evidenceDescription := some (evidence ++ description) } : CheckResult)
  if !failed.isEmpty then
    let listed := join (str ", ") (failingIds.take MESSAGE_ID_LIMIT)
    let more := if failingIds.length > MESSAGE_ID_LIMIT then
        str " and " ++ natText (failingIds.length - MESSAGE_ID_LIMIT) ++ str " more"
      else []
    let counts := natText failed.length ++ str " of " ++ natText changed.length ++ str " commits "
    result .fail
      (counts ++ days ++ str " lack " ++ sections ++ str " with text: " ++ listed ++ more ++ beyond)
      (counts ++ days ++ str " lack a structured " ++ sections ++ str " message")
  else if incomplete then
    result .fail
      (str "the " ++ natText changed.length ++ str " commits " ++ days
        ++ str " among those read carry " ++ sections ++ beyond)
      (str "the " ++ days ++ str " window reaches beyond the " ++ natText commits.length
        ++ str " commits read; the change record is verified only for those")
  else if changed.isEmpty then
    result .pass (str "no changes " ++ days) (str "no changes " ++ days)
  else
    result .pass
      (str "all " ++ natText changed.length ++ str " commits " ++ days ++ str " carry " ++ sections)
      (str "all " ++ natText changed.length ++ str " commits " ++ days
        ++ str " carry a structured " ++ sections ++ str " message")

/-- `_check_repository` -/
def checkRepository (hash : HexDigest) (repo : Repository) (lookbackDays cutoff now : Int) :
    CheckResult :=
  match readBranch repo with
  | .ok (branch, commits, unread) =>
    evaluate hash repo lookbackDays cutoff now branch commits unread
  | .error exc =>
    { checkName := checkNameFor hash repo.name
      status := .error
      targetTestName := CHANGE_MANAGEMENT_TEST
      message := str "Error on " ++ repo.name ++ str ": " ++ exc
      detail := .inl repo.name
      evidenceDescription := none }

end

end TrustPortal.Collectors
