import Mathlib.Data.List.Basic
import Mathlib.Logic.Relation

/-!
# `TrustPortal.GitSources.HistoryWalk`: the commits of a range

`commitsBetween` lists what `git log from..to` lists. `_HistoryWalk` takes the newest commit off
a queue, again and again, and queues its parents. A commit that `from` reaches is uninteresting,
which the walk finds out on its way, so it takes a commit back when that comes late.

A `History` is a repository: of a commit the walk reads the parents and the timestamp. The queue
is kept in the order in which `heapq` gives its entries back.
-/

set_option autoImplicit false

namespace TrustPortal.GitSources

/-- A finite history, in which no commit is dated before one of its parents. -/
structure History (α : Type) where
  commits : List α
  /-- `parent_ids` -/
  parents : α → List α
  /-- `_commit_timestamp` -/
  date : α → Int
  closed : ∀ c ∈ commits, ∀ p ∈ parents c, p ∈ commits
  dated : ∀ c, ∀ p ∈ parents c, date p ≤ date c

/-- An entry of the heap: the timestamp with its sign changed, the order of the pushes, the
commit. -/
structure HeapEntry (α : Type) where
  key : Int
  order : Nat
  commit : α
  deriving DecidableEq

/-- The order of tuples. No two entries have the same place in the order of the pushes. -/
def HeapEntry.before {α : Type} (a b : HeapEntry α) : Bool :=
  a.key < b.key || (a.key = b.key && a.order < b.order)

/-- `heapq.heappush`. -/
def heapPush {α : Type} (entry : HeapEntry α) : List (HeapEntry α) → List (HeapEntry α)
  | [] => [entry]
  | first :: rest =>
    if entry.before first then entry :: first :: rest else first :: heapPush entry rest

/-- The state of a `_HistoryWalk`. -/
structure HistoryWalk (α : Type) where
  /-- `_uninteresting` -/
  flags : List (α × Bool)
  queued : List α
  heap : List (HeapEntry α)
  order : Nat
  pendingInteresting : Int
  emitted : List α
  deriving DecidableEq

section
variable {α : Type} [DecidableEq α]

namespace HistoryWalk

/-- `_HistoryWalk.__init__`. -/
def init : HistoryWalk α := ⟨[], [], [], 0, 0, []⟩

/-- `_uninteresting.get(commit_id)`. -/
def flag (walk : HistoryWalk α) (c : α) : Option Bool :=
  (walk.flags.find? fun entry => entry.1 = c).map Prod.snd

/-- `push`. -/
def push (history : History α) (walk : HistoryWalk α) (c : α) (uninteresting : Bool) :
    HistoryWalk α where
  flags := (c, uninteresting) :: walk.flags
  queued := c :: walk.queued
  heap := heapPush ⟨-history.date c, walk.order, c⟩ walk.heap
  order := walk.order + 1
  pendingInteresting := walk.pendingInteresting + if uninteresting then 0 else 1
  emitted := walk.emitted

/-- `_uninteresting[commit_id] = True`, of a commit that has a flag. -/
def setUninteresting (walk : HistoryWalk α) (c : α) : HistoryWalk α :=
  { walk with flags := walk.flags.map fun entry => if entry.1 = c then (c, true) else entry }

/-- The number of commits that are flagged as interesting. -/
def interesting (walk : HistoryWalk α) : Nat := walk.flags.countP fun entry => !entry.2

theorem interesting_setUninteresting {walk : HistoryWalk α} {c : α}
    (h : walk.flag c = some false) : (walk.setUninteresting c).interesting < walk.interesting := by
  obtain ⟨flags, queued, heap, order, pending, emitted⟩ := walk
  simp only [flag, interesting, setUninteresting] at h ⊢
  -- By induction on the flags: others than that of the commit count as before.
  have hle : ∀ flags : List (α × Bool),
      (flags.map fun entry => if entry.1 = c then (c, true) else entry).countP (fun entry => !entry.2)
        ≤ flags.countP fun entry => !entry.2 := by
    intro flags
    induction flags with
    | nil => simp
    | cons entry rest ih =>
      rw [List.map_cons, List.countP_cons, List.countP_cons]
      by_cases hentry : entry.1 = c
      · simp only [hentry, if_true, Bool.not_true, Bool.false_eq_true, if_false]
        omega
      · simp only [hentry, if_false]
        omega
  induction flags with
  | nil => cases h
  | cons entry rest ih =>
    rw [List.map_cons, List.countP_cons, List.countP_cons]
    by_cases hentry : entry.1 = c
    · rw [List.find?_cons_of_pos (by simpa using hentry)] at h
      have hflag : entry.2 = false := Option.some.inj h
      have hrest := hle rest
      simp only [hentry, if_true, hflag, Bool.not_true, Bool.not_false, Bool.false_eq_true, if_false]
      omega
    · rw [List.find?_cons_of_neg (by simpa using hentry)] at h
      have hrest := ih h
      simp only [hentry, if_false]
      omega

/-- A queued commit turns out to be uninteresting. -/
def markQueued (walk : HistoryWalk α) (c : α) : HistoryWalk α :=
  { walk.setUninteresting c with pendingInteresting := walk.pendingInteresting - 1 }

/-- A commit that was taken off the queue turns out to be uninteresting. -/
def takeBack (walk : HistoryWalk α) (c : α) : HistoryWalk α :=
  { walk.setUninteresting c with emitted := walk.emitted.filter fun other => other ≠ c }

/-- `stack.extend(commit.parent_ids)`; the top of the stack is its head. -/
def extendStack (history : History α) (c : α) (stack : List α) : List α :=
  (history.parents c).reverse ++ stack

/-- The loop of `_mark_uninteresting`. -/
def markStack (history : History α) (walk : HistoryWalk α) : List α → HistoryWalk α
  | [] => walk
  | c :: stack =>
    if _hflag : walk.flag c = some false then
      if c ∈ walk.queued then markStack history (walk.markQueued c) stack
      else markStack history (walk.takeBack c) (extendStack history c stack)
    else markStack history walk stack
termination_by stack => (walk.interesting, stack.length)
decreasing_by
  · exact Prod.Lex.left _ _ (interesting_setUninteresting _hflag)
  · exact Prod.Lex.left _ _ (interesting_setUninteresting _hflag)
  · exact Prod.Lex.right _ (Nat.lt_succ_self _)

/-- `_mark_uninteresting`. -/
def markUninteresting (history : History α) (walk : HistoryWalk α) (c : α) : HistoryWalk α :=
  walk.markStack history [c]

/-- A parent of the commit that was taken off the queue. -/
def visitParent (history : History α) (uninteresting : Bool) (walk : HistoryWalk α) (p : α) :
    HistoryWalk α :=
  match walk.flag p with
  | none => walk.push history p uninteresting
  | some _ => if uninteresting then walk.markUninteresting history p else walk

/-- The walk without the first entry of its heap. -/
def pop (walk : HistoryWalk α) (c : α) (heap : List (HeapEntry α)) : HistoryWalk α :=
  { walk with heap := heap, queued := walk.queued.filter fun other => other ≠ c }

/-- The commit is interesting. -/
def emit (walk : HistoryWalk α) (c : α) : HistoryWalk α :=
  { walk with
    pendingInteresting := walk.pendingInteresting - 1
    emitted := walk.emitted ++ [c] }

/-- `run`, for so many turns of its loop; none where they do not suffice. -/
def run (history : History α) (limit : Nat) : Nat → HistoryWalk α → Option (List α)
  | turns, walk =>
    match walk.heap with
    | [] => some (walk.emitted.take limit)
    | entry :: heap =>
      if walk.pendingInteresting ≤ 0 then some (walk.emitted.take limit)
      else match turns with
        | 0 => none
        | turns + 1 =>
          let c := entry.commit
          let uninteresting := walk.flag c = some true
          let walk := if uninteresting then walk.pop c heap else (walk.pop c heap).emit c
          if ¬uninteresting ∧ limit ≤ walk.emitted.length then some (walk.emitted.take limit)
          else run history limit turns
            ((history.parents c).foldl (visitParent history uninteresting) walk)

end HistoryWalk

/-- `commits_between`. Every turn takes another commit off the queue. -/
def commitsBetween (history : History α) (fromCommit : Option α) (toCommit : α) (limit : Int) :
    Option (List α) :=
  if limit ≤ 0 ∨ fromCommit = some toCommit then some []
  else
    let walk := HistoryWalk.init.push history toCommit false
    let walk := match fromCommit with
      | none => walk
      | some c => walk.push history c true
    walk.run history limit.toNat history.commits.length

end

end TrustPortal.GitSources
