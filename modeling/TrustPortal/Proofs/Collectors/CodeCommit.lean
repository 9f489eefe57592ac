import TrustPortal.Collectors.CodeCommit
import TrustPortal.Proofs.GitSources.ChunkedFiles
import TrustPortal.Proofs.Collectors.ChangeRecord
import Mathlib.Logic.Relation
import Mathlib.Order.Basic

/-!
# `TrustPortal.Proofs.Collectors.CodeCommit`: what a passing check says

`readCommits` leaves a parent of a commit that was read either read or queued (`IsReading`), so a
path from the head that leaves the commits read has a last commit on them, and an unread parent.
`effectiveDates` gives every commit that was read the latest date among the commits that a walk over
the commits read finds from it (`mem_inWindow`).

A passing check therefore says that every change in the window carries its sections, and where no
commit is dated before one of its parents, that holds of every commit of the branch. The dates are
raised along the commits read only: an ancestor that was read, but that can only be reached through
a commit that was not, does not count (`sound_iff`).
-/

set_option autoImplicit false

namespace TrustPortal.Proofs.Collectors

open TrustPortal.Python
open TrustPortal.Collectors
open TrustPortal.GitSources (HexDigest)
open TrustPortal.Proofs.GitSources (sampleDigest)

/-- The date of a commit. -/
def commitDate (now : Int) (found : Commit) : Int :=
  (found.committed <|> found.authored).getD now

/-- From a commit to itself or to one of its ancestors. -/
def Reaches (repo : Repository) : Str → Str → Prop :=
  Relation.ReflTransGen fun c p => p ∈ repo.parents c

/-- From a commit to itself or to one of its ancestors, over commits that were read. -/
def ReachesRead {repo : Repository} (commits : List (Read repo)) : Str → Str → Prop :=
  Relation.ReflTransGen fun c p => p ∈ readParents commits c

section
variable {repo : Repository} {now cutoff : Int} {commits : List (Read repo)} {c p : Str}
  {queue queued unread : List Str} {read : Read repo}

/-! ## The commits that were read -/

/-- The ids of the commits that were read. -/
def readIds (commits : List (Read repo)) : List Str := commits.map Read.id

/-- A commit is read once. -/
private theorem read_eq {read other : Read repo} (h : read.id = other.id) : read = other := by
  obtain ⟨id, found, hfetched⟩ := read
  obtain ⟨id', found', hfetched'⟩ := other
  dsimp only at h
  subst h
  obtain rfl : found = found' := Except.ok.inj (hfetched.symm.trans hfetched')
  rfl

private theorem lookupRead_of_mem (h : read ∈ commits) : lookupRead commits read.id = some read := by
  cases hfind : lookupRead commits read.id with
  | none =>
    have := List.find?_eq_none.mp hfind read h
    simp at this
  | some other =>
    have hid : other.id = read.id := by simpa using List.find?_some hfind
    rw [read_eq hid]

private theorem lookupRead_isSome : (lookupRead commits c).isSome = true ↔ c ∈ readIds commits := by
  rw [lookupRead, List.find?_isSome, readIds, List.mem_map]
  simp

private theorem parents_eq (read : Read repo) : repo.parents read.id = read.parents := by
  rw [Repository.parents, read.fetched]
  rfl

/-- The parents of a commit that was read, as far as they were read. -/
private theorem mem_readParents (h : read ∈ commits) :
    p ∈ readParents commits read.id ↔ p ∈ read.parents ∧ p ∈ readIds commits := by
  rw [readParents, lookupRead_of_mem h, List.mem_filter, lookupRead_isSome]

private theorem mem_readIds_of_readParents (h : p ∈ readParents commits c) :
    c ∈ readIds commits ∧ p ∈ readIds commits := by
  rw [readParents] at h
  split at h
  · rename_i read hread
    exact ⟨lookupRead_isSome.mp (by rw [hread]; rfl),
      lookupRead_isSome.mp (List.mem_filter.mp h).2⟩
  · cases h

/-- What is reached over commits read is reached. -/
theorem ReachesRead.reaches (h : ReachesRead commits c p) : Reaches repo c p :=
  Relation.ReflTransGen.mono (fun a _ hp => (readParents_sublist commits a).subset hp) _ _ h

/-! ### The loop -/

/-- What pushing the parents of a commit adds. -/
private theorem pushParents_spec (parents queue queued : List Str) : ∃ new,
    pushParents parents queue queued = (queue ++ new, new.reverse ++ queued)
      ∧ (∀ x ∈ new, x ∈ parents ∧ x ∉ queued) ∧ new.Nodup
      ∧ ∀ x ∈ parents, x ∈ new.reverse ++ queued := by
  induction parents generalizing queue queued with
  | nil => exact ⟨[], by rw [pushParents, List.append_nil]; rfl, nofun, List.nodup_nil, nofun⟩
  | cons p rest ih =>
    rw [pushParents]
    split_ifs with hold
    · obtain ⟨new, hrun, hnew, hnodup, hall⟩ := ih queue queued
      refine ⟨new, hrun, fun x hx => ⟨List.mem_cons_of_mem p (hnew x hx).1, (hnew x hx).2⟩, hnodup,
        fun x hx => ?_⟩
      rcases List.mem_cons.mp hx with rfl | hx
      · exact List.mem_append_right _ hold
      · exact hall x hx
    · obtain ⟨new, hrun, hnew, hnodup, hall⟩ := ih (queue ++ [p]) (p :: queued)
      refine ⟨p :: new, ?_, ?_, ?_, ?_⟩
      · rw [hrun, List.append_assoc, List.singleton_append, List.reverse_cons, List.append_assoc,
          List.singleton_append]
      · rintro x (_ | ⟨_, hx⟩)
        · exact ⟨List.mem_cons_self, hold⟩
        · exact ⟨List.mem_cons_of_mem p (hnew x hx).1,
            fun h => (hnew x hx).2 (List.mem_cons_of_mem p h)⟩
      · exact List.nodup_cons.mpr ⟨fun h => (hnew p h).2 List.mem_cons_self, hnodup⟩
      · intro x hx
        rw [List.reverse_cons, List.append_assoc, List.singleton_append]
        rcases List.mem_cons.mp hx with rfl | hx
        · exact List.mem_append_right _ List.mem_cons_self
        · exact hall x hx

/-- The state of the reader: each commit is queued once, and a parent of a commit that was read is
read or queued. -/
structure IsReading (commits : List (Read repo)) (queue queued : List Str) : Prop where
  nodup : (readIds commits ++ queue).Nodup
  queued : ∀ x, x ∈ queued ↔ x ∈ readIds commits ∨ x ∈ queue
  parents : ∀ read ∈ commits, ∀ p ∈ read.parents, p ∈ readIds commits ∨ p ∈ queue

/-- One commit is read, and its parents are queued. -/
private theorem IsReading.step (h : IsReading commits (c :: queue) queued) (hread : read.id = c) :
    IsReading (commits ++ [read]) (pushParents read.parents queue queued).1
      (pushParents read.parents queue queued).2 := by
  obtain ⟨new, hrun, hnew, hnodup, hall⟩ := pushParents_spec read.parents queue queued
  rw [hrun]
  have hids : readIds (commits ++ [read]) = readIds commits ++ [c] := by
    rw [readIds, readIds, List.map_append, List.map_singleton, hread]
  have hold : ∀ x, x ∈ queued ↔ x ∈ readIds commits ++ [c] ∨ x ∈ queue := by
    intro x
    rw [h.queued, List.mem_cons, List.mem_append, List.mem_singleton, or_assoc]
  refine ⟨?_, fun x => ?_, fun other hother p hp => ?_⟩
  · have hbefore := h.nodup
    rw [← List.singleton_append, ← List.append_assoc] at hbefore
    rw [hids, ← List.append_assoc, List.nodup_append]
    refine ⟨hbefore, hnodup, fun a ha b hb hab => ?_⟩
    subst hab
    exact (hnew a hb).2 ((hold a).mpr (List.mem_append.mp ha))
  · rw [List.mem_append, List.mem_reverse, hold, hids, List.mem_append (s := queue)]
    exact ⟨fun h => h.elim (fun h => .inr (.inr h)) fun h => h.imp id .inl,
      fun h => h.elim (fun h => .inr (.inl h)) fun h => h.elim (fun h => .inr (.inr h)) .inl⟩
  · rw [hids]
    rcases List.mem_append.mp hother with hother | hother
    · rcases h.parents other hother p hp with hp | hp
      · exact .inl (List.mem_append_left _ hp)
      · rcases List.mem_cons.mp hp with rfl | hp
        · exact .inl (List.mem_append_right _ (List.mem_singleton_self _))
        · exact .inr (List.mem_append_left _ hp)
    · obtain rfl := List.mem_singleton.mp hother
      rcases List.mem_append.mp (hall p hp) with hp | hp
      · exact .inr (List.mem_append_right _ (List.mem_reverse.mp hp))
      · exact ((hold p).mp hp).imp id (List.mem_append_left _)

/-- **The reader.** What it ends with is a state of the reader in which the first commit was read. -/
private theorem readLoop_isReading {room : Nat} {out : List (Read repo)}
    (h : IsReading commits queue queued)
    (hrun : readLoop repo room commits queue queued = .ok (out, unread)) :
    (∃ queued', IsReading out unread queued') ∧ (∀ x ∈ readIds commits, x ∈ readIds out)
      ∧ (0 < room → ∀ x ∈ queue.head?, x ∈ readIds out) := by
  induction room generalizing commits queue queued with
  | zero =>
    cases hrun
    exact ⟨⟨queued, h⟩, fun x hx => hx, fun h => absurd h (Nat.lt_irrefl 0)⟩
  | succ room ih =>
    cases queue with
    | nil =>
      cases hrun
      exact ⟨⟨queued, h⟩, fun x hx => hx, fun _ => nofun⟩
    | cons c queue =>
      rw [readLoop] at hrun
      cases hfetch : fetchCommit repo c with
      | error exc => rw [hfetch] at hrun; cases hrun
      | ok read =>
        rw [hfetch] at hrun
        have hid : read.id = c := by
          rw [fetchCommit] at hfetch
          split at hfetch <;> cases hfetch
          rfl
        obtain ⟨hreading, hold, _⟩ := ih (h.step hid) hrun
        have hids : readIds (commits ++ [read]) = readIds commits ++ [c] := by
          rw [readIds, readIds, List.map_append, List.map_singleton, hid]
        rw [hids] at hold
        refine ⟨hreading, fun x hx => hold x (List.mem_append_left _ hx), fun _ x hx => ?_⟩
        cases hx
        exact hold c (List.mem_append_right _ (List.mem_singleton_self c))

private theorem readCommits_isReading {head : Str} {commits : List (Read repo)}
    (h : readCommits repo head = .ok (commits, unread)) :
    (∃ queued, IsReading commits unread queued) ∧ head ∈ readIds commits := by
  have hstart : IsReading ([] : List (Read repo)) [head] [head] :=
    ⟨List.nodup_singleton head, fun x => by simp [readIds], nofun⟩
  obtain ⟨hreading, _, hhead⟩ := readLoop_isReading hstart h
  exact ⟨hreading, hhead (by decide) head rfl⟩

/-! ## The raised dates -/

/-- The latest date among the commits that are reached over commits read. -/
def IsLatest (now : Int) (commits : List (Read repo)) (c : Str) (date : Int) : Prop :=
  (∃ read ∈ commits, ReachesRead commits c read.id ∧ read.dated now = date)
    ∧ ∀ read ∈ commits, ReachesRead commits c read.id → read.dated now ≤ date

/-- Every raised date is the latest one. -/
def AllLatest (now : Int) (commits : List (Read repo)) (effective : Effective) : Prop :=
  ∀ c date, effective.lookup c = some date → IsLatest now commits c date

/-- A commit on the stack whose parents are done has each of them above it or dated. -/
def Ready (commits : List (Read repo)) (effective : Effective) (stack : List StackEntry) : Prop :=
  ∀ above c below, stack = above ++ (c, true) :: below → ∀ p ∈ readParents commits c,
    (effective.lookup p).isSome = true ∨ p ∈ above.map Prod.fst

private theorem foldl_max_spec (dates : List Int) (first : Int) :
    (dates.foldl max first = first ∨ dates.foldl max first ∈ dates)
      ∧ first ≤ dates.foldl max first ∧ ∀ date ∈ dates, date ≤ dates.foldl max first := by
  induction dates generalizing first with
  | nil => exact ⟨.inl rfl, Int.le_refl _, nofun⟩
  | cons date rest ih =>
    obtain ⟨hwhich, hfirst, hrest⟩ := ih (max first date)
    rw [List.foldl_cons]
    refine ⟨?_, (Int.le_max_left _ _).trans hfirst, ?_⟩
    · rcases hwhich with heq | hmem
      · rw [heq]
        rcases Int.le_total first date with h | h
        · exact .inr (by rw [Int.max_eq_right h]; exact List.mem_cons_self)
        · exact .inl (Int.max_eq_left h)
      · exact .inr (List.mem_cons_of_mem date hmem)
    · rintro d (_ | ⟨_, hd⟩)
      · exact (Int.le_max_right _ _).trans hfirst
      · exact hrest d hd

/-- With the parents' dates in place, the raised date of a commit is the latest one. -/
private theorem raisedDate_isLatest {effective : Effective} (hlatest : AllLatest now commits effective)
    (hread : read ∈ commits)
    (hparents : ∀ p ∈ readParents commits read.id, (effective.lookup p).isSome = true) :
    IsLatest now commits read.id (raisedDate now commits effective read.id) := by
  have hself : ((lookupRead commits read.id).map fun read => read.dated now).getD now
      = read.dated now := by
    rw [lookupRead_of_mem hread]
    rfl
  obtain ⟨hwhich, hfirst, hrest⟩ := foldl_max_spec
    ((readParents commits read.id).filterMap fun p => effective.lookup p) (read.dated now)
  rw [raisedDate, hself]
  constructor
  · rcases hwhich with heq | hmem
    · exact ⟨read, hread, .refl, heq.symm⟩
    · obtain ⟨p, hp, hdate⟩ := List.mem_filterMap.mp hmem
      obtain ⟨⟨other, hother, hreach, hdated⟩, _⟩ := hlatest p _ hdate
      exact ⟨other, hother, .head hp hreach, hdated⟩
  · intro other hother hreach
    rcases Relation.ReflTransGen.cases_head hreach with heq | ⟨p, hp, hreach⟩
    · rw [← read_eq heq]
      exact hfirst
    · obtain ⟨date, hdate⟩ := Option.isSome_iff_exists.mp (hparents p hp)
      exact ((hlatest p date hdate).2 other hother hreach).trans
        (hrest date (List.mem_filterMap.mpr ⟨p, hp, hdate⟩))

private theorem lookup_cons_isSome {effective : Effective} {date : Int} :
    (((c, date) :: effective).lookup p).isSome = true
      ↔ p = c ∨ (effective.lookup p).isSome = true := by
  rw [List.lookup_cons]
  cases h : p == c with
  | true => simp [beq_iff_eq.mp h]
  | false => simp [beq_eq_false_iff_ne.mp h]

/-- A raised date is put in place. -/
private theorem AllLatest.cons {effective : Effective} (hlatest : AllLatest now commits effective)
    (hread : read ∈ commits)
    (hparents : ∀ p ∈ readParents commits read.id, (effective.lookup p).isSome = true) :
    AllLatest now commits ((read.id, raisedDate now commits effective read.id) :: effective) := by
  intro d date hd
  rw [List.lookup_cons] at hd
  cases heq : d == read.id with
  | true =>
    rw [heq] at hd
    cases hd
    rw [beq_iff_eq.mp heq]
    exact raisedDate_isLatest hlatest hread hparents
  | false =>
    rw [heq] at hd
    exact hlatest d date hd

/-- The stack below a commit that has its date. -/
private theorem Ready.pop {effective effective' : Effective} {parentsDone : Bool}
    {stack : List StackEntry} (hready : Ready commits effective ((c, parentsDone) :: stack))
    (hkeeps : ∀ d, (effective.lookup d).isSome = true → (effective'.lookup d).isSome = true)
    (hdone : (effective'.lookup c).isSome = true) : Ready commits effective' stack := by
  intro above d below heq p hp
  rcases hready ((c, parentsDone) :: above) d below (by rw [heq]; rfl) p hp with h | h
  · exact .inl (hkeeps p h)
  · rcases List.mem_cons.mp h with rfl | h
    · exact .inl hdone
    · exact .inr h

/-- A parent without a date is pushed. -/
private theorem pushed_of_parent (effective : Effective) (hp : p ∈ readParents commits c) :
    (effective.lookup p).isSome = true
      ∨ p ∈ (pushedParents commits effective c).map Prod.fst := by
  cases hfound : effective.lookup p with
  | some date => exact .inl rfl
  | none =>
    refine .inr (List.mem_map.mpr ⟨(p, false), ?_, rfl⟩)
    rw [pushedParents, List.mem_reverse]
    exact List.mem_map.mpr ⟨p, List.mem_filter.mpr ⟨hp, by rw [hfound]; rfl⟩, rfl⟩

/-- What is pushed are commits read, and their parents are not done. -/
private theorem parent_of_pushed {effective : Effective} {entry : StackEntry}
    (h : entry ∈ pushedParents commits effective c) :
    entry.2 = false ∧ entry.1 ∈ readIds commits := by
  rw [pushedParents, List.mem_reverse] at h
  obtain ⟨p, hp, rfl⟩ := List.mem_map.mp h
  exact ⟨rfl, (mem_readIds_of_readParents (List.mem_filter.mp hp).1).2⟩

/-- The stack with the parents of a commit above it. -/
private theorem Ready.push {effective : Effective} {parentsDone : Bool} {stack : List StackEntry}
    (hready : Ready commits effective ((c, parentsDone) :: stack)) :
    Ready commits effective (pushedParents commits effective c ++ (c, true) :: stack) := by
  intro above d below heq p hp
  rcases List.append_eq_append_iff.mp heq with ⟨between, rfl, hbetween⟩ | ⟨between, hpush, hbelow⟩
  · -- the entry is the commit itself, or below it
    cases between with
    | nil =>
      cases hbetween
      rw [List.append_nil]
      exact pushed_of_parent effective hp
    | cons entry between =>
      obtain ⟨rfl, hstack⟩ := List.cons.inj hbetween
      rcases hready ((c, parentsDone) :: between) d below (by rw [hstack]; rfl) p hp with h | h
      · exact .inl h
      · refine .inr ?_
        rw [List.map_append, List.map_cons]
        exact List.mem_append_right _ h
  · -- none of the entries pushed has its parents done
    cases between with
    | nil =>
      cases hbelow
      rw [List.append_nil] at hpush
      rw [← hpush]
      exact pushed_of_parent effective hp
    | cons entry between =>
      obtain ⟨rfl, _⟩ := List.cons.inj hbelow
      have hfirst := (parent_of_pushed (hpush ▸ List.mem_append_right _ List.mem_cons_self)).1
      cases hfirst

/-- **The walk over the stack.** The dates stay the latest ones, and every commit of the stack gets
its date. -/
private theorem raiseDates_spec (effective : Effective) (stack : List StackEntry)
    (hlatest : AllLatest now commits effective) (hready : Ready commits effective stack)
    (hin : ∀ entry ∈ stack, entry.1 ∈ readIds commits) :
    AllLatest now commits (raiseDates now commits effective stack)
      ∧ (∀ c, (effective.lookup c).isSome = true →
        ((raiseDates now commits effective stack).lookup c).isSome = true)
      ∧ ∀ entry ∈ stack, ((raiseDates now commits effective stack).lookup entry.1).isSome = true := by
  induction effective, stack using @raiseDates.induct repo now commits with
  | case1 effective =>
    rw [raiseDates]
    exact ⟨hlatest, fun _ h => h, nofun⟩
  | case2 effective c parentsDone stack hdone ih =>
    rw [raiseDates, if_pos hdone]
    obtain ⟨hall, hkeeps, hstack⟩ := ih hlatest (hready.pop (fun _ h => h) hdone) fun entry h =>
      hin entry (List.mem_cons_of_mem _ h)
    refine ⟨hall, hkeeps, ?_⟩
    rintro entry (_ | ⟨_, hentry⟩)
    · exact hkeeps c hdone
    · exact hstack entry hentry
  | case3 effective c stack hdone ih =>
    rw [raiseDates, if_neg hdone, if_pos rfl]
    -- Nothing is above the commit, so its parents have their dates.
    have hparents : ∀ p ∈ readParents commits c, (effective.lookup p).isSome = true := by
      intro p hp
      exact (hready [] c stack rfl p hp).elim id fun h => nomatch h
    obtain ⟨read, hread, rfl⟩ := List.mem_map.mp (hin (c, true) List.mem_cons_self)
    obtain ⟨hall, hkeeps, hstack⟩ := ih (hlatest.cons hread hparents)
      (hready.pop (fun _ h => lookup_cons_isSome.mpr (.inr h)) (lookup_cons_isSome.mpr (.inl rfl)))
      fun entry h => hin entry (List.mem_cons_of_mem _ h)
    refine ⟨hall, fun d hd => hkeeps d (lookup_cons_isSome.mpr (.inr hd)), ?_⟩
    rintro entry (_ | ⟨_, hentry⟩)
    · exact hkeeps read.id (lookup_cons_isSome.mpr (.inl rfl))
    · exact hstack entry hentry
  | case4 effective c parentsDone stack hdone hparents ih =>
    rw [raiseDates, if_neg hdone, if_neg hparents]
    have hin' : ∀ entry ∈ pushedParents commits effective c ++ (c, true) :: stack,
        entry.1 ∈ readIds commits := by
      intro entry hentry
      rcases List.mem_append.mp hentry with hentry | hentry
      · exact (parent_of_pushed hentry).2
      · rcases List.mem_cons.mp hentry with rfl | hentry
        · exact hin (c, parentsDone) List.mem_cons_self
        · exact hin entry (List.mem_cons_of_mem _ hentry)
    obtain ⟨hall, hkeeps, hstack⟩ := ih hlatest hready.push hin'
    refine ⟨hall, hkeeps, ?_⟩
    rintro entry (_ | ⟨_, hentry⟩)
    · exact hstack (c, true) (List.mem_append_right _ List.mem_cons_self)
    · exact hstack entry (List.mem_append_right _ (List.mem_cons_of_mem _ hentry))

/-- The walks from some of the commits. -/
private theorem fold_raiseDates (starts : List (Read repo)) (hstarts : ∀ start ∈ starts, start ∈ commits)
    (effective : Effective) (hlatest : AllLatest now commits effective) :
    let result := starts.foldl (fun effective start =>
      raiseDates now commits effective [(start.id, false)]) effective
    AllLatest now commits result
      ∧ (∀ c, (effective.lookup c).isSome = true → (result.lookup c).isSome = true)
      ∧ ∀ start ∈ starts, (result.lookup start.id).isSome = true := by
  induction starts generalizing effective with
  | nil => exact ⟨hlatest, fun _ h => h, nofun⟩
  | cons start rest ih =>
    have hready : Ready commits effective [(start.id, false)] := by
      intro above c below heq
      cases above with
      | nil => cases heq
      | cons entry above => simp at heq
    obtain ⟨hall, hkeeps, hstack⟩ := raiseDates_spec effective [(start.id, false)] hlatest hready
      fun entry hentry => by
        rw [List.mem_singleton.mp hentry]
        exact List.mem_map_of_mem (hstarts start List.mem_cons_self)
    obtain ⟨hall', hkeeps', hrest⟩ := ih (fun other h => hstarts other (List.mem_cons_of_mem _ h)) _
      hall
    refine ⟨hall', fun c h => hkeeps' c (hkeeps c h), ?_⟩
    rintro other (_ | ⟨_, hother⟩)
    · exact hkeeps' start.id (hstack _ List.mem_cons_self)
    · exact hrest other hother

/-- **The window.** A commit that was read is in the window where a walk over the commits read finds
a commit dated in it. -/
theorem mem_inWindow : read ∈ inWindow now cutoff commits ↔ read ∈ commits
    ∧ ∃ other ∈ commits, ReachesRead commits read.id other.id ∧ cutoff ≤ other.dated now := by
  obtain ⟨hlatest, _, hdated⟩ := @fold_raiseDates repo now commits commits (fun _ h => h) []
    (fun c date h => nomatch h)
  rw [inWindow, List.mem_filter]
  refine and_congr_right fun hread => ?_
  obtain ⟨date, hdate⟩ := Option.isSome_iff_exists.mp (hdated read hread)
  have hlookup : (effectiveDates now commits).lookup read.id = some date := hdate
  obtain ⟨⟨latest, hmem, hreach, heq⟩, hmax⟩ := hlatest read.id date hdate
  rw [hlookup, Option.any_some, decide_eq_true_eq]
  constructor
  · exact fun h => ⟨latest, hmem, hreach, heq ▸ h⟩
  · rintro ⟨other, hother, hreach', hcutoff⟩
    exact hcutoff.trans (hmax other hother hreach')

/-! ## The check -/

/-- All required sections. -/
def CarriesAll (message : Str) : Prop := ∀ name ∈ REQUIRED_SECTIONS, Carries name message

private theorem evaluate_pass {hash : HexDigest} {lookbackDays : Int} {branch : Option Str} :
    (evaluate hash repo lookbackDays cutoff now branch commits unread).status = .pass
      ↔ failing (inWindow now cutoff commits) = []
        ∧ isIncomplete (inWindow now cutoff commits) unread = false := by
  unfold evaluate
  dsimp only
  cases hfailing : failing (inWindow now cutoff commits) with
  | nil =>
    cases isIncomplete (inWindow now cutoff commits) unread with
    | true => exact iff_of_false nofun fun h => nomatch h.2
    | false =>
      refine iff_of_true ?_ ⟨rfl, rfl⟩
      cases (changes (inWindow now cutoff commits)).isEmpty <;> rfl
  | cons read rest => exact iff_of_false nofun fun h => nomatch h.1

private theorem failing_eq_nil {window : List (Read repo)} : failing window = []
    ↔ ∀ read ∈ window, read.parents.length < 2 → CarriesAll read.found.message := by
  rw [failing, changes, List.filter_filter, List.filter_eq_nil_iff]
  refine forall₂_congr fun read _ => ?_
  rw [CarriesAll, ← missingSections_eq_nil, Bool.and_eq_true, not_and, decide_eq_true_eq]
  constructor
  · intro h hchange
    by_contra hmissing
    exact h (by simpa using hmissing) hchange
  · intro h hmissing hchange
    rw [h hchange] at hmissing
    cases hmissing

private theorem isIncomplete_eq_false (h : IsReading commits unread queued)
    {window : List (Read repo)} (hwindow : ∀ read ∈ window, read ∈ commits) :
    isIncomplete window unread = false
      ↔ ∀ read ∈ window, ∀ p ∈ read.parents, p ∈ readIds commits := by
  have hread : ∀ read ∈ window, ∀ p ∈ read.parents, p ∉ unread ↔ p ∈ readIds commits := by
    intro read hmem p hp
    constructor
    · exact fun hnot => (h.parents read (hwindow read hmem) p hp).resolve_right hnot
    · intro hin hqueue
      exact (List.nodup_append.mp h.nodup).2.2 p hin p hqueue rfl
  simp only [isIncomplete, List.any_eq_false, List.any_eq_true, decide_eq_true_eq, not_exists,
    not_and]
  exact forall₂_congr fun read hmem => forall₂_congr fun p hp => hread read hmem p hp

/-- A commit that was read, is in the window and has a parent that was not read. -/
def ReachesPast (now cutoff : Int) (commits : List (Read repo)) (read : Read repo) : Prop :=
  read ∈ inWindow now cutoff commits ∧ ∃ p ∈ read.parents, p ∉ readIds commits

/-- A change that was read and lacks a section. -/
def Lacks (commits : List (Read repo)) (read : Read repo) : Prop :=
  read ∈ commits ∧ read.parents.length < 2 ∧ ¬CarriesAll read.found.message

/-- The commit or an ancestor of it was read and is dated in the window. -/
def RaisedInto (now cutoff : Int) (commits : List (Read repo)) (read : Read repo) : Prop :=
  ∃ other ∈ commits, Reaches repo read.id other.id ∧ cutoff ≤ other.dated now

end

/-- No commit is dated before one of its parents. -/
def Ordered (repo : Repository) (now : Int) : Prop :=
  ∀ c found p parent, repo.commit c = .ok found → p ∈ found.parents →
    repo.commit p = .ok parent → commitDate now parent ≤ commitDate now found

/-- What a passing check of a repository says. -/
def Sound (hash : HexDigest) (repo : Repository) (lookbackDays cutoff now : Int) : Prop :=
  (checkRepository hash repo lookbackDays cutoff now).status = .pass →
    (∀ branch commits unread, readBranch repo = .ok (branch, commits, unread) →
      ∀ read ∈ commits, read.parents.length < 2 → RaisedInto now cutoff commits read →
        CarriesAll read.found.message)
    ∧ (Ordered repo now → ∀ branch head, repo.defaultBranch = .ok (some branch) →
      repo.head branch = .ok (some head) →
      ∀ c found, Reaches repo head c → repo.commit c = .ok found → found.parents.length < 2 →
        cutoff ≤ commitDate now found → CarriesAll found.message)

section
variable {repo : Repository} {now cutoff lookbackDays : Int} {hash : HexDigest}
  {commits : List (Read repo)} {unread queued : List Str} {branch : Option Str} {head : Str}

/-- What was read of a branch. -/
private theorem readBranch_cases (h : readBranch repo = .ok (branch, commits, unread)) :
    (commits = [] ∧ unread = []
        ∧ ∀ name head, repo.defaultBranch = .ok (some name) → repo.head name ≠ .ok (some head))
      ∨ ∃ name head, repo.defaultBranch = .ok (some name) ∧ repo.head name = .ok (some head)
        ∧ readCommits repo head = .ok (commits, unread) := by
  rw [readBranch] at h
  cases hbranch : repo.defaultBranch with
  | error exc => rw [hbranch] at h; cases h
  | ok default =>
    rw [hbranch] at h
    cases default with
    | none =>
      cases h
      exact .inl ⟨rfl, rfl, nofun⟩
    | some name =>
      cases hhead : repo.head name with
      | error exc =>
        replace h : ((repo.head name) >>= _) = _ := h
        rw [hhead] at h
        cases h
      | ok found =>
        replace h : ((repo.head name) >>= _) = _ := h
        rw [hhead] at h
        cases found with
        | none =>
          cases h
          refine .inl ⟨rfl, rfl, fun other head hother hfound => ?_⟩
          cases hother
          rw [hhead] at hfound
          cases hfound
        | some head =>
          cases hread : readCommits repo head with
          | error exc =>
            replace h : ((readCommits repo head) >>= _) = _ := h
            rw [hread] at h
            cases h
          | ok read =>
            replace h : ((readCommits repo head) >>= _) = _ := h
            rw [hread] at h
            cases h
            exact .inr ⟨name, head, rfl, hhead, hread⟩

private theorem readBranch_eq {name : Str} (hbranch : repo.defaultBranch = .ok (some name))
    (hhead : repo.head name = .ok (some head)) (hread : readCommits repo head = .ok (commits, unread)) :
    readBranch repo = .ok (some name, commits, unread) := by
  rw [readBranch, hbranch]
  show (repo.head name >>= _) = _
  rw [hhead]
  show (readCommits repo head >>= _) = _
  rw [hread]
  rfl

/-- What was read is a state of the reader. -/
private theorem readBranch_isReading (h : readBranch repo = .ok (branch, commits, unread)) :
    ∃ queued, IsReading commits unread queued := by
  rcases readBranch_cases h with ⟨rfl, rfl, _⟩ | ⟨_, _, _, _, hread⟩
  · exact ⟨[], List.nodup_nil, fun x => by simp [readIds], nofun⟩
  · exact (readCommits_isReading hread).1

/-- When a check passes. -/
private theorem checkRepository_pass (h : readBranch repo = .ok (branch, commits, unread)) :
    (checkRepository hash repo lookbackDays cutoff now).status = .pass
      ↔ ∀ read ∈ inWindow now cutoff commits, ¬Lacks commits read
        ∧ ¬ReachesPast now cutoff commits read := by
  obtain ⟨queued, hreading⟩ := readBranch_isReading h
  have hwindow : ∀ read ∈ inWindow now cutoff commits, read ∈ commits :=
    fun read hread => (mem_inWindow.mp hread).1
  have hcheck : checkRepository hash repo lookbackDays cutoff now
      = evaluate hash repo lookbackDays cutoff now branch commits unread := by
    rw [checkRepository, h]
  rw [hcheck, evaluate_pass, failing_eq_nil, isIncomplete_eq_false hreading hwindow]
  constructor
  · rintro ⟨hcarries, hparents⟩ read hread
    refine ⟨fun hlacks => hlacks.2.2 (hcarries read hread hlacks.2.1), ?_⟩
    rintro ⟨_, p, hp, hnot⟩
    exact hnot (hparents read hread p hp)
  · intro hall
    refine ⟨fun read hread hchange => ?_, fun read hread p hp => ?_⟩
    · by_contra hnot
      exact (hall read hread).1 ⟨hwindow read hread, hchange, hnot⟩
    · by_contra hnot
      exact (hall read hread).2 ⟨hread, p, hp, hnot⟩

/-- On a path from the head, every commit was read, where the path's last commit is dated in the
window and no commit before its parents. -/
private theorem read_of_reaches (hordered : Ordered repo now)
    (hhead : head ∈ readIds commits)
    (hpast : ∀ read ∈ inWindow now cutoff commits, ¬ReachesPast now cutoff commits read)
    {c : Str} {found : Commit} (hreach : Reaches repo head c) (hfound : repo.commit c = .ok found)
    (hdate : cutoff ≤ commitDate now found) : c ∈ readIds commits := by
  -- From the end of the path back: every commit on it is dated in the window.
  have hpath : ∀ {a : Str}, Reaches repo a c → ∃ other, repo.commit a = .ok other
      ∧ commitDate now found ≤ commitDate now other := by
    intro a h
    induction h using Relation.ReflTransGen.head_induction_on with
    | refl => exact ⟨found, hfound, Int.le_refl _⟩
    | head hp _ ih =>
      obtain ⟨parent, hparent, hle⟩ := ih
      obtain ⟨other, hother, hmem⟩ := repo.acyclic_parents hp
      exact ⟨other, hother, hle.trans (hordered _ other _ parent hother hmem hparent)⟩
  induction hreach using Relation.ReflTransGen.head_induction_on with
  | refl => exact hhead
  | head hp hrest ih =>
    refine ih ?_
    obtain ⟨read, hread, rfl⟩ := List.mem_map.mp hhead
    obtain ⟨other, hother, hle⟩ := hpath (.head hp hrest)
    have hsame : other = read.found := Except.ok.inj (hother.symm.trans read.fetched)
    subst hsame
    have hin : read ∈ inWindow now cutoff commits :=
      mem_inWindow.mpr ⟨hread, read, hread, .refl, hdate.trans hle⟩
    by_contra hnot
    rw [parents_eq] at hp
    exact hpast read hin ⟨hin, _, hp, hnot⟩

/-- **A passing check.** It says what it should exactly where no change that was read lacks a section
and has a read ancestor dated in the window that can be reached only through commits left unread, or
where the check does not pass because of another commit. -/
theorem sound_iff (hash : HexDigest) (repo : Repository) (lookbackDays cutoff now : Int) :
    Sound hash repo lookbackDays cutoff now
      ↔ ∀ branch commits unread, readBranch repo = .ok (branch, commits, unread) →
        (∃ read ∈ inWindow now cutoff commits, Lacks commits read
          ∨ ReachesPast now cutoff commits read)
        ∨ ∀ read, Lacks commits read → RaisedInto now cutoff commits read →
          ∃ other ∈ commits, ReachesRead commits read.id other.id ∧ cutoff ≤ other.dated now := by
  constructor
  · intro hsound branch commits unread h
    refine Classical.or_iff_not_imp_left.mpr fun hnone read hlacks hraised => ?_
    have hpass : (checkRepository hash repo lookbackDays cutoff now).status = .pass := by
      rw [checkRepository_pass h]
      exact fun read hread => ⟨fun hlacks => hnone ⟨read, hread, .inl hlacks⟩,
        fun hpast => hnone ⟨read, hread, .inr hpast⟩⟩
    exact absurd ((hsound hpass).1 branch commits unread h read hlacks.1 hlacks.2.1 hraised)
      hlacks.2.2
  · intro hcondition hpass
    constructor
    · intro branch commits unread h read hread hchange hraised
      by_contra hnot
      have hpassed := (checkRepository_pass h).mp hpass
      rcases hcondition branch commits unread h with ⟨other, hother, hbad⟩ | hreach
      · exact hbad.elim (hpassed other hother).1 (hpassed other hother).2
      · have hlacks : Lacks commits read := ⟨hread, hchange, hnot⟩
        have hin : read ∈ inWindow now cutoff commits :=
          mem_inWindow.mpr ⟨hread, hreach read hlacks hraised⟩
        exact (hpassed read hin).1 hlacks
    · intro hordered branch head hbranch hhead c found hreach hfound hchange hdate
      cases hread : readBranch repo with
      | error exc =>
        rw [checkRepository, hread] at hpass
        cases hpass
      | ok result =>
        obtain ⟨name, commits, unread⟩ := result
        have hpassed := (checkRepository_pass hread).mp hpass
        rcases readBranch_cases hread with ⟨_, _, hnone⟩ | ⟨name', head', hbranch', hhead', hcommits⟩
        · exact absurd hhead (hnone branch head hbranch)
        · cases hbranch.symm.trans hbranch'
          cases hhead.symm.trans hhead'
          obtain ⟨_, hfirst⟩ := readCommits_isReading hcommits
          obtain ⟨read, hmem, rfl⟩ := List.mem_map.mp (read_of_reaches hordered hfirst
            (fun read hread => (hpassed read hread).2) hreach hfound hdate)
          have hsame : found = read.found := Except.ok.inj (hfound.symm.trans read.fetched)
          subst hsame
          have hin : read ∈ inWindow now cutoff commits :=
            mem_inWindow.mpr ⟨hmem, read, hmem, .refl, hdate⟩
          by_contra hnot
          exact (hpassed read hin).1 ⟨hmem, hchange, hnot⟩

/-! ## A gap in the commits read -/

/-- The id of a commit of the sample. -/
private def sampleId (n : Nat) : Str := [.ofNat n]

/-- The number of a commit of the sample. -/
private def sampleNumber : Str → Nat
  | [c] => c.val
  | _ => 0

/-- The parents of a commit of the sample. Commit 4 is a merge of 3 and 2, of which 3 comes from 0
and 2 comes from 0 by way of 1; 496 commits are above it. -/
private def sampleParents : Nat → List Str
  | 0 => []
  | 1 | 3 => [sampleId 0]
  | 2 => [sampleId 1]
  | 4 => [sampleId 3, sampleId 2]
  | n + 5 => [sampleId (n + 4)]

/-- A commit of the sample: 1 and 2 are dated before the others, and 2 has no sections. -/
private def sampleCommit (n : Nat) : Commit where
  parents := sampleParents n
  message := if n = 2 then str "x" else
    str "## Problem\na\n## Solution\nb\n## Verified\nc"
  committed := some (if n = 1 ∨ n = 2 then 0 else 100)
  authored := none

private theorem sampleParents_lt {n : Nat} {p : Str} (hn : n < 0x110000)
    (h : p ∈ sampleParents n) : sampleNumber p < n := by
  have hid : ∀ m, m < 0x110000 → sampleNumber (sampleId m) = m := fun m hm => CodePoint.val_ofNat hm
  rcases n with _ | _ | _ | _ | _ | n
  · cases h
  · rw [List.mem_singleton.mp h, hid 0 (by omega)]
    omega
  · rw [List.mem_singleton.mp h, hid 1 (by omega)]
    omega
  · rw [List.mem_singleton.mp h, hid 0 (by omega)]
    omega
  · rcases List.mem_cons.mp h with rfl | h
    · rw [hid 3 (by omega)]
      omega
    · rw [List.mem_singleton.mp h, hid 2 (by omega)]
      omega
  · rw [List.mem_singleton.mp h, hid (n + 4) (by omega)]
    omega

/-- A repository whose head is commit 500. -/
def gapRepository : Repository where
  name := str "sample"
  defaultBranch := .ok (some (str "main"))
  head _ := .ok (some (sampleId 500))
  commit
    | [c] => .ok (sampleCommit c.val)
    | _ => .error (str "CommitDoesNotExistException")
  acyclic := by
    refine Subrelation.wf (r := InvImage (· < ·) sampleNumber) ?_ (InvImage.wf _ wellFounded_lt)
    rintro p c ⟨found, hfound, hp⟩
    match c with
    | [c] =>
      cases hfound
      exact sampleParents_lt c.isLt hp

private theorem sampleId_inj {m n : Nat} (hm : m < 0x110000) (hn : n < 0x110000)
    (h : sampleId m = sampleId n) : m = n := by
  have hnumber := congrArg sampleNumber h
  rwa [show sampleNumber (sampleId m) = m from CodePoint.val_ofNat hm,
    show sampleNumber (sampleId n) = n from CodePoint.val_ofNat hn] at hnumber

private theorem gap_commit {n : Nat} (hn : n < 0x110000) :
    gapRepository.commit (sampleId n) = .ok (sampleCommit n) := by
  show Except.ok (sampleCommit (CodePoint.ofNat n).val) = _
  rw [CodePoint.val_ofNat hn]

/-- A commit of the sample that was read. -/
private def gapRead (n : Nat) (hn : n < 0x110000) : Read gapRepository :=
  ⟨sampleId n, sampleCommit n, gap_commit hn⟩

/-- The reader reads the next commit of the sample. -/
private theorem gap_step {n : Nat} (hn : n < 0x110000) (room : Nat)
    (commits : List (Read gapRepository)) (queue queued : List Str) :
    readLoop gapRepository (room + 1) commits (sampleId n :: queue) queued
      = readLoop gapRepository room (commits ++ [gapRead n hn])
        (pushParents (sampleParents n) queue queued).1
        (pushParents (sampleParents n) queue queued).2 := by
  have hfetch : fetchCommit gapRepository (sampleId n) = .ok (gapRead n hn) := by
    rw [fetchCommit]
    split
    · rename_i found hfound
      cases (gap_commit hn).symm.trans hfound
      rfl
    · rename_i exc hexc
      cases (gap_commit hn).symm.trans hexc
  rw [readLoop, hfetch]
  rfl

/-- The commits above the merge are read one after the other. -/
private theorem gap_chain (count room : Nat) (hcount : count < 500) :
    ∀ (commits : List (Read gapRepository)) (queued : List Str),
      (∀ x ∈ queued, count + 4 ≤ sampleNumber x) →
      ∃ commits' queued', (∀ x ∈ queued', 4 ≤ sampleNumber x)
        ∧ readLoop gapRepository (room + count) commits [sampleId (count + 4)] queued
          = readLoop gapRepository room commits' [sampleId 4] queued' := by
  induction count with
  | zero => exact fun commits queued h => ⟨commits, queued, h, rfl⟩
  | succ count ih =>
    intro commits queued hqueued
    have hnumber : sampleNumber (sampleId (count + 4)) = count + 4 :=
      CodePoint.val_ofNat (by omega)
    have hnew : sampleId (count + 4) ∉ queued := by
      intro h
      have := hqueued _ h
      omega
    obtain ⟨commits', queued', hqueued', hrun⟩ := ih (by omega)
      (commits ++ [gapRead (count + 5) (by omega)]) (sampleId (count + 4) :: queued) (by
        rintro x (_ | ⟨_, hx⟩)
        · omega
        · have := hqueued x hx
          omega)
    refine ⟨commits', queued', hqueued', ?_⟩
    rw [← hrun, ← Nat.add_assoc]
    show readLoop gapRepository (room + count + 1) commits [sampleId (count + 5)] queued = _
    rw [gap_step (by omega)]
    show readLoop gapRepository (room + count) _ (pushParents [sampleId (count + 4)] [] queued).1
      (pushParents [sampleId (count + 4)] [] queued).2 = _
    rw [pushParents, if_neg hnew]
    rfl

/-- What is read of the sample: 2 and 0, and 1 is left. -/
private theorem gap_read : ∃ commits, readBranch gapRepository
      = .ok (some (str "main"), commits, [sampleId 1])
    ∧ sampleId 0 ∈ readIds commits ∧ sampleId 2 ∈ readIds commits := by
  obtain ⟨commits, queued, hqueued, hrun⟩ := gap_chain 496 4 (by decide) [] [sampleId 500]
    (by decide)
  have hnot : ∀ n < 4, sampleId n ∉ queued := by
    intro n hn h
    have hnumber : sampleNumber (sampleId n) = n := CodePoint.val_ofNat (by omega)
    have := hqueued _ h
    omega
  have hne : ∀ m < 5, ∀ n < 5, m ≠ n → sampleId m ≠ sampleId n := fun m hm n hn hmn h =>
    hmn (sampleId_inj (by omega) (by omega) h)
  have hpush : pushParents (sampleParents 4) [] queued
      = ([sampleId 3, sampleId 2], sampleId 2 :: sampleId 3 :: queued) := by
    have h32 := hne 2 (by decide) 3 (by decide) (by decide)
    simp [sampleParents, pushParents, hnot, h32]
  have hpush' : pushParents (sampleParents 3) [sampleId 2] (sampleId 2 :: sampleId 3 :: queued)
      = ([sampleId 2, sampleId 0], sampleId 0 :: sampleId 2 :: sampleId 3 :: queued) := by
    have h02 := hne 0 (by decide) 2 (by decide) (by decide)
    have h03 := hne 0 (by decide) 3 (by decide) (by decide)
    simp [sampleParents, pushParents, hnot, h02, h03]
  have hpush'' : pushParents (sampleParents 2) [sampleId 0]
        (sampleId 0 :: sampleId 2 :: sampleId 3 :: queued)
      = ([sampleId 0, sampleId 1],
        sampleId 1 :: sampleId 0 :: sampleId 2 :: sampleId 3 :: queued) := by
    have h10 := hne 1 (by decide) 0 (by decide) (by decide)
    have h12 := hne 1 (by decide) 2 (by decide) (by decide)
    have h13 := hne 1 (by decide) 3 (by decide) (by decide)
    simp [sampleParents, pushParents, hnot, h10, h12, h13]
  have hreads : readCommits gapRepository (sampleId 500)
      = .ok (commits ++ [gapRead 4 (by decide)] ++ [gapRead 3 (by decide)]
        ++ [gapRead 2 (by decide)] ++ [gapRead 0 (by decide)], [sampleId 1]) := by
    have hroom : readCommits gapRepository (sampleId 500)
        = readLoop gapRepository 4 commits [sampleId 4] queued := hrun
    rw [hroom, gap_step (by decide), hpush, gap_step (by decide), hpush', gap_step (by decide),
      hpush'', gap_step (by decide)]
    rfl
  refine ⟨commits ++ [gapRead 4 (by decide)] ++ [gapRead 3 (by decide)] ++ [gapRead 2 (by decide)]
    ++ [gapRead 0 (by decide)], ?_, ?_, ?_⟩
  · exact readBranch_eq rfl rfl hreads
  · exact List.mem_map_of_mem (f := Read.id) (a := gapRead 0 (by decide)) (by simp)
  · exact List.mem_map_of_mem (f := Read.id) (a := gapRead 2 (by decide)) (by simp)

/-- A commit of the sample that was read is one of the sample. -/
private theorem gap_found (read : Read gapRepository) : ∃ n < 0x110000, read.id = sampleId n
    ∧ read.found = sampleCommit n := by
  obtain ⟨id, found, hfetched⟩ := read
  match id with
  | [c] =>
    cases hfetched
    exact ⟨c.val, c.isLt, by rw [sampleId, CodePoint.ofNat_val], rfl⟩

/-- Commit 1 is the parent of commit 2 alone. -/
private theorem sampleParents_one {n : Nat} (hn : n < 0x110000) (h : sampleId 1 ∈ sampleParents n) :
    n = 2 := by
  have hid : ∀ {m}, m < 0x110000 → sampleId 1 = sampleId m → 1 = m := fun hm heq =>
    sampleId_inj (by decide) hm heq
  rcases n with _ | _ | _ | _ | _ | n
  · cases h
  · exact absurd (hid (by decide) (List.mem_singleton.mp h)) (by decide)
  · rfl
  · exact absurd (hid (by decide) (List.mem_singleton.mp h)) (by decide)
  · rcases List.mem_cons.mp h with h | h
    · exact absurd (hid (by decide) h) (by decide)
    · exact absurd (hid (by decide) (List.mem_singleton.mp h)) (by decide)
  · have := hid (by omega) (List.mem_singleton.mp h)
    omega

/-- **An ancestor beyond the commits read.** Commit 2 lacks its sections, is dated before the window
and comes from commit 0, which was read and is dated in the window. The check passes. -/
theorem gap_passes : ¬Sound sampleDigest gapRepository 30 50 200 := by
  intro hsound
  obtain ⟨commits, hbranch, hzero, htwo⟩ := gap_read
  obtain ⟨queued, hreading⟩ := readBranch_isReading hbranch
  have hone : sampleId 1 ∉ readIds commits := fun hmem =>
    (List.nodup_append.mp hreading.nodup).2.2 _ hmem _ (List.mem_singleton_self _) rfl
  -- From commit 2, no other commit is reached over commits read.
  have houtside : ∀ read ∈ inWindow 200 50 commits, read.id ≠ sampleId 2 := by
    intro read hread hid
    obtain ⟨hmem, other, hother, hreach, hdate⟩ := mem_inWindow.mp hread
    rcases Relation.ReflTransGen.cases_head hreach with heq | ⟨p, hp, _⟩
    · obtain ⟨n, hn, hn', hfound⟩ := gap_found other
      have htwo' : n = 2 := sampleId_inj hn (by decide) (hn'.symm.trans (heq.symm.trans hid))
      rw [Read.dated, hfound, htwo'] at hdate
      exact absurd hdate (by decide)
    · obtain ⟨hparent, hp⟩ := (mem_readParents hmem).mp hp
      rw [← parents_eq, hid] at hparent
      have hparent' : p ∈ [sampleId 1] := hparent
      rw [List.mem_singleton.mp hparent'] at hp
      exact hone hp
  have hpass : (checkRepository sampleDigest gapRepository 30 50 200).status = .pass := by
    rw [checkRepository_pass hbranch]
    intro read hread
    obtain ⟨n, hn, hid, hfound⟩ := gap_found read
    have hne : n ≠ 2 := fun h => houtside read hread (h ▸ hid)
    constructor
    · rintro ⟨_, _, hlacks⟩
      rw [hfound, sampleCommit] at hlacks
      dsimp only at hlacks
      rw [if_neg hne] at hlacks
      exact hlacks (missingSections_eq_nil.mp (by decide +kernel))
    · rintro ⟨_, p, hp, hnot⟩
      obtain hin | hin := hreading.parents read (mem_inWindow.mp hread).1 p hp
      · exact hnot hin
      · rw [Read.parents, hfound, List.mem_singleton.mp hin] at hp
        exact hne (sampleParents_one hn hp)
  obtain ⟨zero, hmem, hid⟩ := List.mem_map.mp hzero
  obtain ⟨two, hmem', hid'⟩ := List.mem_map.mp htwo
  obtain ⟨n, hn, hn', hfound⟩ := gap_found two
  have htwo' : n = 2 := sampleId_inj hn (by decide) (hn'.symm.trans hid')
  obtain ⟨m, hm, hm', hfound'⟩ := gap_found zero
  have hzero' : m = 0 := sampleId_inj hm (by decide) (hm'.symm.trans hid)
  subst htwo' hzero'
  have hraised : RaisedInto 200 50 commits two := by
    refine ⟨zero, hmem, ?_, ?_⟩
    · rw [hid, hid']
      have hone : sampleId 1 ∈ gapRepository.parents (sampleId 2) := List.mem_singleton_self _
      have hzero : sampleId 0 ∈ gapRepository.parents (sampleId 1) := List.mem_singleton_self _
      exact .head hone (.single hzero)
    · rw [Read.dated, hfound']
      decide
  have hcarries := (hsound hpass).1 _ commits _ hbranch two hmem'
    (by rw [Read.parents, hfound]; decide) hraised
  rw [CarriesAll, ← missingSections_eq_nil, hfound] at hcarries
  exact absurd hcarries (by decide +kernel)

end

end TrustPortal.Proofs.Collectors
