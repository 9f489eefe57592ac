import TrustPortal.GitSources.HistoryWalk
import Mathlib.Data.List.Perm.Basic
import Mathlib.Order.Basic

/-!
# `TrustPortal.Proofs.GitSources.HistoryWalk`: what holds during a walk

The walk passes commits by date, newest first (`Inv.newest`). It emits the ones that it does not
know to be reached by `from`, and takes one back when it finds out later.

`Inv` is the invariant while the parents in `todo` of the commit `current` are still to be
visited: what a popped commit owes to its parents is waived for these. Which commits the walk has
passed when it stops is the subject of `TrustPortal.Proofs.GitSources.DateOrder`.
-/

set_option autoImplicit false

namespace TrustPortal.Proofs.GitSources

open TrustPortal.GitSources

section
variable {α : Type} {history : History α} {source : Option α} {target : α}

/-! ## The range -/

/-- A commit is reachable from another. -/
def Reaches (history : History α) : α → α → Prop :=
  Relation.ReflTransGen fun c p => p ∈ history.parents c

/-- `from` reaches the commit. -/
def Excluded (history : History α) (source : Option α) (c : α) : Prop :=
  ∃ s, source = some s ∧ Reaches history s c

/-- `to` reaches the commit and `from` does not. -/
def Wanted (history : History α) (source : Option α) (target c : α) : Prop :=
  Reaches history target c ∧ ¬Excluded history source c

/-- The list has the wanted commits, each once, newest first, cut to the limit. -/
structure IsRange (history : History α) (source : Option α) (target : α) (limit : Nat)
    (result : List α) : Prop where
  wanted : ∀ c ∈ result, Wanted history source target c
  once : result.Nodup
  sorted : result.Pairwise fun a b => history.date b ≤ history.date a
  bounded : result.length ≤ limit
  /-- Only the limit leaves a commit out. -/
  complete : ∀ c, Wanted history source target c → c ∉ result → result.length = limit
  /-- The commits that the limit leaves out are no newer. -/
  newest : ∀ c, Wanted history source target c → c ∉ result →
    ∀ d ∈ result, history.date c ≤ history.date d

/-- A commit is no newer than one that leads to it. -/
theorem date_le {c x : α} (h : Reaches history c x) : history.date x ≤ history.date c := by
  induction h with
  | refl => exact Int.le_refl _
  | tail _ hz ih => exact Int.le_trans (history.dated _ _ hz) ih

/-! ## The heap -/

theorem heapPush_perm (entry : HeapEntry α) (heap : List (HeapEntry α)) :
    (heapPush entry heap).Perm (entry :: heap) := by
  induction heap with
  | nil => exact List.Perm.refl _
  | cons first rest ih =>
    rw [heapPush]
    split_ifs
    · exact List.Perm.refl _
    · exact (ih.cons first).trans (List.Perm.swap entry first rest)

theorem heapPush_sorted {entry : HeapEntry α} {heap : List (HeapEntry α)}
    (h : heap.Pairwise fun a b => a.key ≤ b.key) :
    (heapPush entry heap).Pairwise fun a b => a.key ≤ b.key := by
  induction heap with
  | nil => exact List.pairwise_singleton _ _
  | cons first rest ih =>
    rw [List.pairwise_cons] at h
    rw [heapPush]
    split_ifs with hbefore
    · have hfirst : entry.key ≤ first.key := by
        simp only [HeapEntry.before, Bool.or_eq_true, Bool.and_eq_true, decide_eq_true_eq] at hbefore
        omega
      refine List.pairwise_cons.mpr ⟨fun other hother => ?_, List.pairwise_cons.mpr h⟩
      rcases List.mem_cons.mp hother with rfl | hother
      · exact hfirst
      · exact Int.le_trans hfirst (h.1 other hother)
    · have hfirst : first.key ≤ entry.key := by
        simp only [HeapEntry.before, Bool.or_eq_true, Bool.and_eq_true, decide_eq_true_eq] at hbefore
        omega
      refine List.pairwise_cons.mpr ⟨fun other hother => ?_, ih h.2⟩
      rcases List.mem_cons.mp ((heapPush_perm entry rest).subset hother) with rfl | hother
      · exact hfirst
      · exact h.1 other hother

theorem countP_lt {pred pred' : α → Bool} {l : List α} {c : α} (himp : ∀ x, pred' x = true → pred x = true)
    (hmem : c ∈ l) (hc : pred c = true) (hc' : pred' c = false) : l.countP pred' < l.countP pred := by
  obtain ⟨before, after, rfl⟩ := List.append_of_mem hmem
  have hbefore : before.countP pred' ≤ before.countP pred := List.countP_mono_left fun x _ => himp x
  have hafter : after.countP pred' ≤ after.countP pred := List.countP_mono_left fun x _ => himp x
  rw [List.countP_append, List.countP_append, List.countP_cons_of_pos hc,
    List.countP_cons_of_neg (by simp [hc'])]
  omega

/-- One member that no longer counts. -/
theorem countP_eq_succ {pred pred' : α → Bool} {l : List α} {c : α} (hl : l.Nodup) (hmem : c ∈ l)
    (hc : pred c = true) (hc' : pred' c = false) (hsame : ∀ x, x ≠ c → pred' x = pred x) :
    l.countP pred = l.countP pred' + 1 := by
  obtain ⟨before, after, rfl⟩ := List.append_of_mem hmem
  have hne : ∀ x ∈ before ++ after, x ≠ c := by
    rintro x hx rfl
    exact (List.nodup_cons.mp (List.perm_middle.nodup_iff.mp hl)).1 hx
  have hbefore : before.countP pred' = before.countP pred :=
    List.countP_congr fun x hx => by rw [hsame x (hne x (List.mem_append_left _ hx))]
  have hafter : after.countP pred' = after.countP pred :=
    List.countP_congr fun x hx => by rw [hsame x (hne x (List.mem_append_right _ hx))]
  rw [List.countP_append, List.countP_append, List.countP_cons_of_pos hc,
    List.countP_cons_of_neg (by simp [hc']), hbefore, hafter]
  omega

/-! ## The parts of a walk -/

variable [DecidableEq α] {walk : HistoryWalk α} {c p x : α} {uninteresting : Bool} {current : α}
  {todo stack : List α}

/-- The walk has taken the commit off its queue. -/
def Passed (walk : HistoryWalk α) (c : α) : Prop := walk.flag c ≠ none ∧ c ∉ walk.queued

@[simp] theorem flag_push (x : α) :
    (walk.push history c uninteresting).flag x
      = if c = x then some uninteresting else walk.flag x := by
  by_cases h : c = x
  · simp [HistoryWalk.flag, HistoryWalk.push, h]
  · simp [HistoryWalk.flag, HistoryWalk.push, h]

theorem flag_setUninteresting (h : walk.flag c ≠ none) (x : α) :
    (walk.setUninteresting c).flag x = if x = c then some true else walk.flag x := by
  obtain ⟨flags, queued, heap, order, pending, emitted⟩ := walk
  simp only [HistoryWalk.flag, HistoryWalk.setUninteresting] at h ⊢
  induction flags with
  | nil => exact absurd rfl h
  | cons entry rest ih =>
    rw [List.map_cons]
    by_cases hentry : entry.1 = c
    · rw [if_pos hentry]
      by_cases hx : x = c
      · rw [if_pos hx, List.find?_cons_of_pos (by simp [hx])]
        rfl
      · rw [if_neg hx, List.find?_cons_of_neg (by simpa using fun h => hx h.symm),
          List.find?_cons_of_neg (by simpa [hentry] using fun h => hx h.symm)]
        -- The entries of other commits stay.
        have hrest : ∀ rest : List (α × Bool),
            ((rest.map fun entry => if entry.1 = c then (c, true) else entry).find?
              fun entry => entry.1 = x) = rest.find? fun entry => entry.1 = x := by
          intro rest
          induction rest with
          | nil => rfl
          | cons other others ih =>
            rw [List.map_cons]
            by_cases hother : other.1 = c
            · rw [if_pos hother, List.find?_cons_of_neg (by simpa using fun h => hx h.symm), ih,
                List.find?_cons_of_neg (by simpa [hother] using fun h => hx h.symm)]
            · rw [if_neg hother, List.find?_cons, List.find?_cons, ih]
        rw [hrest]
    · rw [if_neg hentry]
      rw [List.find?_cons_of_neg (by simpa using hentry)] at h
      by_cases hx : entry.1 = x
      · rw [List.find?_cons_of_pos (by simpa using hx), List.find?_cons_of_pos (by simpa using hx),
          if_neg fun heq => hentry (hx.trans heq)]
      · rw [List.find?_cons_of_neg (by simpa using hx), List.find?_cons_of_neg (by simpa using hx)]
        exact ih h

/-! ## The invariant -/

/-- The invariant of a walk. -/
structure Inv (history : History α) (source : Option α) (target : α) (walk : HistoryWalk α)
    (uninteresting : Bool) (current : α) (todo : List α) : Prop where
  sorted : walk.heap.Pairwise fun a b => a.key ≤ b.key
  key : ∀ entry ∈ walk.heap, entry.key = -history.date entry.commit
  queued : (walk.heap.map HeapEntry.commit).Perm walk.queued
  nodup : walk.queued.Nodup
  known : ∀ c ∈ walk.queued, walk.flag c ≠ none
  inside : ∀ c, walk.flag c ≠ none → c ∈ history.commits
  excluded : ∀ c, walk.flag c = some true → Excluded history source c
  reached : ∀ c, walk.flag c = some false → Reaches history target c
  parents : ∀ c, Passed walk c → ∀ p ∈ history.parents c,
    walk.flag p ≠ none ∨ c = current ∧ p ∈ todo
  closed : ∀ c, walk.flag c = some true → c ∉ walk.queued → ∀ p ∈ history.parents c,
    walk.flag p = some true ∨ uninteresting = true ∧ p ∈ todo
  newest : ∀ c, Passed walk c → ∀ q ∈ walk.queued, history.date q ≤ history.date c
  emitted : ∀ c, c ∈ walk.emitted ↔ walk.flag c = some false ∧ c ∉ walk.queued
  once : walk.emitted.Nodup
  order : walk.emitted.Pairwise fun a b => history.date b ≤ history.date a
  pending : walk.pendingInteresting
    = ((walk.queued.countP fun c => walk.flag c = some false : Nat) : Int)
  todoInside : ∀ p ∈ todo, p ∈ history.commits
  todoReached : ∀ p ∈ todo,
    if uninteresting then Excluded history source p else Reaches history target p
  todoOld : ∀ p ∈ todo, walk.flag p = none → ∀ c, Passed walk c → history.date p ≤ history.date c

/-- A parent that is known, and uninteresting if it has to be, is done with. -/
theorem Inv.done (h : Inv history source target walk uninteresting current (p :: todo))
    (hknown : walk.flag p ≠ none) (htrue : uninteresting = true → walk.flag p = some true) :
    Inv history source target walk uninteresting current todo where
  sorted := h.sorted
  key := h.key
  queued := h.queued
  nodup := h.nodup
  known := h.known
  inside := h.inside
  excluded := h.excluded
  reached := h.reached
  parents := by
    intro c hc q hq
    rcases h.parents c hc q hq with hflag | ⟨hcurrent, hmem⟩
    · exact .inl hflag
    · rcases List.mem_cons.mp hmem with rfl | hmem
      · exact .inl hknown
      · exact .inr ⟨hcurrent, hmem⟩
  closed := by
    intro c hc hqueued q hq
    rcases h.closed c hc hqueued q hq with hflag | ⟨hu, hmem⟩
    · exact .inl hflag
    · rcases List.mem_cons.mp hmem with rfl | hmem
      · exact .inl (htrue hu)
      · exact .inr ⟨hu, hmem⟩
  newest := h.newest
  emitted := h.emitted
  once := h.once
  order := h.order
  pending := h.pending
  todoInside := fun q hq => h.todoInside q (List.mem_cons_of_mem p hq)
  todoReached := fun q hq => h.todoReached q (List.mem_cons_of_mem p hq)
  todoOld := fun q hq => h.todoOld q (List.mem_cons_of_mem p hq)

/-- A parent that the walk has not met is queued. -/
theorem Inv.push (h : Inv history source target walk uninteresting current (p :: todo))
    (hnew : walk.flag p = none) :
    Inv history source target (walk.push history p uninteresting) uninteresting current todo := by
  have hnotQueued : p ∉ walk.queued := fun hmem => h.known p hmem hnew
  have hreached := h.todoReached p List.mem_cons_self
  have hold : ∀ {c}, Passed (walk.push history p uninteresting) c → p ≠ c ∧ Passed walk c := by
    rintro c ⟨hflag, hqueued⟩
    have hne : p ≠ c := by
      rintro rfl
      exact hqueued List.mem_cons_self
    rw [flag_push, if_neg hne] at hflag
    exact ⟨hne, hflag, fun hmem => hqueued (List.mem_cons_of_mem p hmem)⟩
  constructor
  case sorted => exact heapPush_sorted h.sorted
  case key =>
    intro entry hentry
    rcases List.mem_cons.mp ((heapPush_perm _ _).subset hentry) with rfl | hentry
    · rfl
    · exact h.key entry hentry
  case queued => exact ((heapPush_perm _ _).map _).trans (h.queued.cons p)
  case nodup => exact List.nodup_cons.mpr ⟨hnotQueued, h.nodup⟩
  case known =>
    intro c hc
    rw [flag_push]
    split_ifs with heq
    · nofun
    · exact h.known c ((List.mem_cons.mp hc).resolve_left fun h => heq h.symm)
  case inside =>
    intro c hc
    rw [flag_push] at hc
    split_ifs at hc with heq
    · exact heq ▸ h.todoInside p List.mem_cons_self
    · exact h.inside c hc
  case excluded =>
    intro c hc
    rw [flag_push] at hc
    split_ifs at hc with heq
    · rw [Option.some.inj hc] at hreached
      exact heq ▸ hreached
    · exact h.excluded c hc
  case reached =>
    intro c hc
    rw [flag_push] at hc
    split_ifs at hc with heq
    · rw [Option.some.inj hc] at hreached
      exact heq ▸ hreached
    · exact h.reached c hc
  case parents =>
    intro c hc q hq
    rw [flag_push]
    split_ifs with heq
    · exact .inl nofun
    · rcases h.parents c (hold hc).2 q hq with hflag | ⟨hcurrent, hmem⟩
      · exact .inl hflag
      · exact .inr ⟨hcurrent, (List.mem_cons.mp hmem).resolve_left fun h => heq h.symm⟩
  case closed =>
    intro c hc hqueued q hq
    obtain ⟨hne, hpassed⟩ := hold ⟨by rw [hc]; nofun, hqueued⟩
    rw [flag_push, if_neg hne] at hc
    rw [flag_push]
    split_ifs with heq
    · rcases h.closed c hc hpassed.2 q hq with hflag | ⟨hu, _⟩
      · rw [← heq, hnew] at hflag
        cases hflag
      · exact .inl (by rw [hu])
    · rcases h.closed c hc hpassed.2 q hq with hflag | ⟨hu, hmem⟩
      · exact .inl hflag
      · exact .inr ⟨hu, (List.mem_cons.mp hmem).resolve_left fun h => heq h.symm⟩
  case newest =>
    intro c hc q hq
    rcases List.mem_cons.mp hq with rfl | hq
    · exact h.todoOld q List.mem_cons_self hnew c (hold hc).2
    · exact h.newest c (hold hc).2 q hq
  case emitted =>
    intro c
    rw [flag_push]
    show c ∈ walk.emitted ↔ _ ∧ c ∉ p :: walk.queued
    rw [h.emitted c, List.mem_cons, not_or]
    split_ifs with heq
    · subst heq
      simp [hnew]
    · exact ⟨fun hc => ⟨hc.1, fun h => heq h.symm, hc.2⟩, fun hc => ⟨hc.1, hc.2.2⟩⟩
  case once => exact h.once
  case order => exact h.order
  case pending =>
    have hcount : walk.queued.countP
        (fun c => (walk.push history p uninteresting).flag c = some false)
        = walk.queued.countP fun c => walk.flag c = some false := by
      refine List.countP_congr fun c hc => ?_
      rw [flag_push, if_neg (show ¬p = c from fun heq => hnotQueued (heq ▸ hc))]
    show walk.pendingInteresting + (if uninteresting then 0 else 1)
      = (((p :: walk.queued).countP _ : Nat) : Int)
    rw [List.countP_cons, hcount, flag_push, if_pos rfl]
    have hpending := h.pending
    cases uninteresting <;> simp <;> omega
  case todoInside => exact fun q hq => h.todoInside q (List.mem_cons_of_mem p hq)
  case todoReached => exact fun q hq => h.todoReached q (List.mem_cons_of_mem p hq)
  case todoOld =>
    intro q hq hflag c hc
    rw [flag_push] at hflag
    split_ifs at hflag
    exact h.todoOld q (List.mem_cons_of_mem p hq) hflag c (hold hc).2

/-! ## Taking back -/

/-- A commit turns out to be uninteresting, and so do the parents in `extra`: all of them if the
walk has passed it. -/
private theorem Inv.set (h : Inv history source target walk true current (c :: todo))
    (hc : walk.flag c = some false) {pending : Int} {emitted extra : List α}
    (hpending : pending
      = ((walk.queued.countP fun x => (walk.setUninteresting c).flag x = some false : Nat) : Int))
    (hemitted : ∀ x, x ∈ emitted ↔ x ∈ walk.emitted ∧ x ≠ c) (hsub : emitted.Sublist walk.emitted)
    (hall : c ∉ walk.queued → ∀ q ∈ history.parents c, q ∈ extra)
    (hextra : ∀ q ∈ extra, q ∈ history.parents c ∧ walk.flag q ≠ none) :
    Inv history source target
      { walk.setUninteresting c with pendingInteresting := pending, emitted := emitted }
      true current (extra ++ todo) := by
  have hknown : walk.flag c ≠ none := by rw [hc]; nofun
  have hexcluded : Excluded history source c := h.todoReached c List.mem_cons_self
  have hflag : ∀ x, (walk.setUninteresting c).flag x
      = if x = c then some true else walk.flag x := flag_setUninteresting hknown
  have hnone : ∀ {x}, (walk.setUninteresting c).flag x ≠ none ↔ walk.flag x ≠ none := by
    intro x
    rw [hflag]
    split_ifs with heq
    · exact iff_of_true nofun (heq ▸ hknown)
    · rfl
  have htrue : ∀ {x}, walk.flag x = some true → (walk.setUninteresting c).flag x = some true := by
    intro x hx
    rw [hflag]
    split_ifs
    · rfl
    · exact hx
  have hpassed : ∀ {x}, Passed { walk.setUninteresting c with
      pendingInteresting := pending, emitted := emitted } x → Passed walk x :=
    fun hx => ⟨hnone.mp hx.1, hx.2⟩
  have hself : (walk.setUninteresting c).flag c = some true := by rw [hflag, if_pos rfl]
  constructor
  case sorted => exact h.sorted
  case key => exact h.key
  case queued => exact h.queued
  case nodup => exact h.nodup
  case known => exact fun x hx => hnone.mpr (h.known x hx)
  case inside => exact fun x hx => h.inside x (hnone.mp hx)
  case excluded =>
    intro x hx
    change (walk.setUninteresting c).flag x = some true at hx
    rw [hflag] at hx
    split_ifs at hx with heq
    · exact heq ▸ hexcluded
    · exact h.excluded x hx
  case reached =>
    intro x hx
    change (walk.setUninteresting c).flag x = some false at hx
    rw [hflag] at hx
    split_ifs at hx
    · cases hx
    · exact h.reached x hx
  case parents =>
    intro x hx q hq
    rcases h.parents x (hpassed hx) q hq with hold | ⟨hcurrent, hmem⟩
    · exact .inl (hnone.mpr hold)
    · rcases List.mem_cons.mp hmem with rfl | hmem
      · exact .inl (hnone.mpr hknown)
      · exact .inr ⟨hcurrent, List.mem_append_right _ hmem⟩
  case closed =>
    intro x hx hqueued q hq
    change (walk.setUninteresting c).flag x = some true at hx
    rw [hflag] at hx
    split_ifs at hx with heq
    · subst heq
      exact .inr ⟨rfl, List.mem_append_left _ (hall hqueued q hq)⟩
    · rcases h.closed x hx hqueued q hq with hold | ⟨_, hmem⟩
      · exact .inl (htrue hold)
      · rcases List.mem_cons.mp hmem with rfl | hmem
        · exact .inl hself
        · exact .inr ⟨rfl, List.mem_append_right _ hmem⟩
  case newest => exact fun x hx => h.newest x (hpassed hx)
  case emitted =>
    intro x
    show x ∈ emitted ↔ (walk.setUninteresting c).flag x = some false ∧ x ∉ walk.queued
    rw [hemitted, h.emitted, hflag]
    split_ifs with heq
    · exact ⟨fun hx => absurd heq hx.2, nofun⟩
    · exact ⟨fun hx => hx.1, fun hx => ⟨hx, heq⟩⟩
  case once => exact h.once.sublist hsub
  case order => exact h.order.sublist hsub
  case pending => exact hpending
  case todoInside =>
    intro q hq
    rcases List.mem_append.mp hq with hq | hq
    · exact history.closed c (h.inside c hknown) q (hextra q hq).1
    · exact h.todoInside q (List.mem_cons_of_mem c hq)
  case todoReached =>
    intro q hq
    rcases List.mem_append.mp hq with hq | hq
    · obtain ⟨s, hs, hreaches⟩ := hexcluded
      exact ⟨s, hs, hreaches.tail (hextra q hq).1⟩
    · exact h.todoReached q (List.mem_cons_of_mem c hq)
  case todoOld =>
    intro q hq hnew x hx
    have hold : walk.flag q = none := not_not.mp fun hne => hnone.mpr hne hnew
    rcases List.mem_append.mp hq with hq | hq
    · exact absurd hold (hextra q hq).2
    · exact h.todoOld q (List.mem_cons_of_mem c hq) hold x (hpassed hx)

/-- The commits that are uninteresting by way of the stack are marked. -/
theorem Inv.markStack (h : Inv history source target walk true current (stack ++ todo))
    (hknown : ∀ c ∈ stack, walk.flag c ≠ none) (hcurrent : walk.flag current = some true) :
    Inv history source target (walk.markStack history stack) true current todo := by
  induction walk, stack using @HistoryWalk.markStack.induct _ _ history with
  | case1 walk => rw [HistoryWalk.markStack]; exact h
  | case2 walk c stack hflag hqueued ih =>
    rw [HistoryWalk.markStack, dif_pos hflag, if_pos hqueued]
    have hset := flag_setUninteresting (hknown c List.mem_cons_self)
    refine ih ?_ ?_ ?_
    · have hemitted : c ∉ walk.emitted := fun hmem => ((h.emitted c).mp hmem).2 hqueued
      refine @Inv.set _ _ _ _ _ _ _ _ _ h hflag _ _ [] ?_ ?_ (List.Sublist.refl _)
        (fun hnot => absurd hqueued hnot) nofun
      · -- One queued commit fewer is interesting.
        have hfewer : walk.queued.countP (fun x => walk.flag x = some false)
            = walk.queued.countP (fun x => (walk.setUninteresting c).flag x = some false) + 1 := by
          refine countP_eq_succ h.nodup hqueued (by simpa using hflag) ?_ fun x hx => ?_
          · rw [hset, if_pos rfl]
            rfl
          · rw [hset, if_neg hx]
        have hpending := h.pending
        omega
      · exact fun x => ⟨fun hx => ⟨hx, fun heq => hemitted (heq ▸ hx)⟩, fun hx => hx.1⟩
    · intro x hx
      show (walk.setUninteresting c).flag x ≠ none
      rw [hset]
      split_ifs
      · nofun
      · exact hknown x (List.mem_cons_of_mem c hx)
    · show (walk.setUninteresting c).flag current = some true
      rw [hset, hcurrent, ite_self]
  | case3 walk c stack hflag hqueued ih =>
    rw [HistoryWalk.markStack, dif_pos hflag, if_neg hqueued]
    have hset := flag_setUninteresting (hknown c List.mem_cons_self)
    have hparents : ∀ q ∈ history.parents c, walk.flag q ≠ none := by
      intro q hq
      refine (h.parents c ⟨hknown c List.mem_cons_self, hqueued⟩ q hq).resolve_right ?_
      rintro ⟨rfl, _⟩
      rw [hflag] at hcurrent
      cases hcurrent
    refine ih ?_ ?_ ?_
    · rw [HistoryWalk.extendStack, List.append_assoc]
      refine @Inv.set _ _ _ _ _ _ _ _ _ h hflag _ _ _ ?_ ?_ List.filter_sublist ?_ ?_
      · have hsame : walk.queued.countP (fun x => (walk.setUninteresting c).flag x = some false)
            = walk.queued.countP fun x => walk.flag x = some false := by
          refine List.countP_congr fun x hx => ?_
          rw [hset, if_neg (show ¬x = c from fun heq => hqueued (heq ▸ hx))]
        rw [hsame]
        exact h.pending
      · intro x
        simp [List.mem_filter]
      · exact fun _ q hq => List.mem_reverse.mpr hq
      · exact fun q hq => ⟨List.mem_reverse.mp hq, hparents q (List.mem_reverse.mp hq)⟩
    · intro x hx
      show (walk.setUninteresting c).flag x ≠ none
      rw [hset]
      split_ifs
      · nofun
      · rcases List.mem_append.mp hx with hx | hx
        · exact hparents x (List.mem_reverse.mp hx)
        · exact hknown x (List.mem_cons_of_mem c hx)
    · show (walk.setUninteresting c).flag current = some true
      rw [hset, hcurrent, ite_self]
  | case4 walk c stack hflag ih =>
    rw [HistoryWalk.markStack, dif_neg hflag]
    have hself := hknown c List.mem_cons_self
    have htrue : walk.flag c = some true := by
      cases hvalue : walk.flag c with
      | none => exact absurd hvalue hself
      | some value =>
        cases value with
        | false => exact absurd hvalue hflag
        | true => rfl
    exact ih (h.done hself fun _ => htrue)
      (fun x hx => hknown x (List.mem_cons_of_mem c hx)) hcurrent

/-! ## One turn -/

/-- The commits that the walk has not met. -/
def unseen (history : History α) (walk : HistoryWalk α) : Nat :=
  history.commits.countP fun c => walk.flag c = none

/-- A walk that goes on knows what it knew, and has no more commits ahead of it. -/
structure GoesOn (history : History α) (walk walk' : HistoryWalk α) : Prop where
  known : ∀ x, walk.flag x ≠ none → walk'.flag x ≠ none
  marked : ∀ x, walk.flag x = some true → walk'.flag x = some true
  ahead : walk'.heap.length + unseen history walk' ≤ walk.heap.length + unseen history walk

theorem GoesOn.refl (history : History α) (walk : HistoryWalk α) : GoesOn history walk walk :=
  ⟨fun _ h => h, fun _ h => h, Nat.le_refl _⟩

theorem GoesOn.trans {walk' walk'' : HistoryWalk α} (h : GoesOn history walk walk')
    (h' : GoesOn history walk' walk'') : GoesOn history walk walk'' :=
  ⟨fun x hx => h'.known x (h.known x hx), fun x hx => h'.marked x (h.marked x hx),
    Nat.le_trans h'.ahead h.ahead⟩

/-- Setting a flag meets no new commit. -/
private theorem goesOn_set {walk' : HistoryWalk α} (hknown : walk.flag c ≠ none)
    (hflags : walk'.flags = (walk.setUninteresting c).flags) (hheap : walk'.heap = walk.heap) :
    GoesOn history walk walk' := by
  have hflag : ∀ x, walk'.flag x = if x = c then some true else walk.flag x := by
    intro x
    rw [← flag_setUninteresting hknown, HistoryWalk.flag, hflags]
    rfl
  have hnone : ∀ x, walk'.flag x = none ↔ walk.flag x = none := by
    intro x
    rw [hflag]
    split_ifs with heq
    · exact iff_of_false (by simp) (heq ▸ hknown)
    · rfl
  refine ⟨fun x hx hn => hx ((hnone x).mp hn), fun x hx => ?_, ?_⟩
  · rw [hflag, hx, ite_self]
  · rw [hheap, unseen, unseen]
    simp only [hnone]
    exact Nat.le_refl _

theorem goesOn_markStack (history : History α) (walk : HistoryWalk α) (stack : List α) :
    GoesOn history walk (walk.markStack history stack) := by
  induction walk, stack using @HistoryWalk.markStack.induct _ _ history with
  | case1 walk => rw [HistoryWalk.markStack]; exact .refl history walk
  | case2 walk c stack hflag hqueued ih =>
    rw [HistoryWalk.markStack, dif_pos hflag, if_pos hqueued]
    have hset : GoesOn history walk (walk.markQueued c) :=
      goesOn_set (by rw [hflag]; simp) rfl rfl
    exact hset.trans ih
  | case3 walk c stack hflag hqueued ih =>
    rw [HistoryWalk.markStack, dif_pos hflag, if_neg hqueued]
    have hset : GoesOn history walk (walk.takeBack c) := goesOn_set (by rw [hflag]; simp) rfl rfl
    exact hset.trans ih
  | case4 walk c stack hflag ih =>
    rw [HistoryWalk.markStack, dif_neg hflag]
    exact ih

theorem goesOn_push (hinside : p ∈ history.commits) (hnew : walk.flag p = none) :
    GoesOn history walk (walk.push history p uninteresting) := by
  have hflag : ∀ x, walk.flag x ≠ none →
      (walk.push history p uninteresting).flag x = walk.flag x := by
    intro x hx
    rw [flag_push, if_neg (show ¬p = x from fun heq => hx (heq ▸ hnew))]
  refine ⟨fun x hx => (hflag x hx).symm ▸ hx, fun x hx => ?_, ?_⟩
  · rw [hflag x (by rw [hx]; nofun), hx]
  · have hfewer : unseen history (walk.push history p uninteresting) < unseen history walk := by
      refine countP_lt (fun x hx => ?_) hinside (by simpa using hnew) ?_
      · simp only [decide_eq_true_eq] at hx ⊢
        by_contra hne
        exact hne (hflag x hne ▸ hx)
      · rw [flag_push, if_pos rfl]
        rfl
    have hlength : (walk.push history p uninteresting).heap.length = walk.heap.length + 1 :=
      (heapPush_perm _ _).length_eq
    omega

/-- A visit of the parents leaves none to be visited. -/
theorem visitParents (h : Inv history source target walk uninteresting current todo)
    (hcurrent : uninteresting = true → walk.flag current = some true) :
    Inv history source target (todo.foldl (HistoryWalk.visitParent history uninteresting) walk)
        uninteresting current []
      ∧ GoesOn history walk (todo.foldl (HistoryWalk.visitParent history uninteresting) walk) := by
  induction todo generalizing walk with
  | nil => exact ⟨h, .refl history walk⟩
  | cons p todo ih =>
    rw [List.foldl_cons]
    have hstep : Inv history source target (walk.visitParent history uninteresting p)
          uninteresting current todo
        ∧ GoesOn history walk (walk.visitParent history uninteresting p) := by
      cases hflag : walk.flag p with
      | none =>
        rw [HistoryWalk.visitParent, hflag]
        exact ⟨h.push hflag, goesOn_push (h.todoInside p List.mem_cons_self) hflag⟩
      | some value =>
        rw [HistoryWalk.visitParent, hflag]
        have hknown : walk.flag p ≠ none := by rw [hflag]; nofun
        cases uninteresting with
        | false => exact ⟨h.done hknown nofun, .refl history walk⟩
        | true =>
          refine ⟨Inv.markStack h ?_ (hcurrent rfl), goesOn_markStack history walk [p]⟩
          exact fun c hc => List.mem_singleton.mp hc ▸ hknown
    obtain ⟨hinv, hgoes⟩ := ih hstep.1 fun hu => hstep.2.marked current (hcurrent hu)
    exact ⟨hinv, hstep.2.trans hgoes⟩

/-- The entry that comes off the heap is that of a queued commit, the newest one. -/
private theorem Inv.first {entry : HeapEntry α} {heap : List (HeapEntry α)} {before : Bool}
    {last : α} (h : Inv history source target walk before last [])
    (hheap : walk.heap = entry :: heap) :
    entry.commit ∈ walk.queued
      ∧ ((heap.map HeapEntry.commit).Perm (walk.queued.filter fun other => other ≠ entry.commit))
      ∧ ∀ q ∈ walk.queued, history.date q ≤ history.date entry.commit := by
  have hperm := h.queued
  rw [hheap, List.map_cons] at hperm
  refine ⟨hperm.subset List.mem_cons_self, ?_, fun q hq => ?_⟩
  · have herase := hperm.erase entry.commit
    rw [List.erase_cons_head, h.nodup.erase_eq_filter] at herase
    refine herase.trans (List.Perm.of_eq (List.filter_congr fun x _ => ?_))
    by_cases heq : x = entry.commit <;> simp [heq]
  · rcases List.mem_cons.mp (hperm.symm.subset hq) with rfl | hmem
    · exact Int.le_refl _
    · obtain ⟨other, hother, rfl⟩ := List.mem_map.mp hmem
      have hsorted := h.sorted
      rw [hheap, List.pairwise_cons] at hsorted
      have hle := hsorted.1 other hother
      rw [h.key entry (hheap ▸ List.mem_cons_self),
        h.key other (hheap ▸ List.mem_cons_of_mem entry hother)] at hle
      omega

/-- A walk that takes a commit off the queue owes a visit to its parents. -/
private theorem Inv.pop {entry : HeapEntry α} {heap : List (HeapEntry α)} {before : Bool}
    {last : α} {walk' : HistoryWalk α} (h : Inv history source target walk before last [])
    (hheap : walk.heap = entry :: heap) (hflags : walk'.flags = walk.flags)
    (hheap' : walk'.heap = heap)
    (hqueued' : walk'.queued = walk.queued.filter fun other => other ≠ entry.commit)
    (hu : walk.flag entry.commit = some uninteresting)
    (hemitted : ∀ c, c ∈ walk'.emitted
      ↔ c ∈ walk.emitted ∨ uninteresting = false ∧ c = entry.commit)
    (honce : walk'.emitted.Nodup)
    (horder : walk'.emitted.Pairwise fun a b => history.date b ≤ history.date a)
    (hpending : walk'.pendingInteresting
      = ((walk'.queued.countP fun c => walk.flag c = some false : Nat) : Int)) :
    Inv history source target walk' uninteresting entry.commit (history.parents entry.commit) := by
  obtain ⟨hmem, hperm, hfirst⟩ := h.first hheap
  have hflag : ∀ x, walk'.flag x = walk.flag x := by
    intro x
    rw [HistoryWalk.flag, hflags]
    rfl
  have hin : ∀ {x}, x ∈ walk'.queued ↔ x ∈ walk.queued ∧ x ≠ entry.commit := by
    intro x
    rw [hqueued', List.mem_filter, decide_eq_true_eq]
  have hpassed : ∀ {x}, Passed walk' x → x = entry.commit ∨ Passed walk x := by
    rintro x ⟨hx, hnot⟩
    by_cases heq : x = entry.commit
    · exact .inl heq
    · exact .inr ⟨hflag x ▸ hx, fun hqueued => hnot (hin.mpr ⟨hqueued, heq⟩)⟩
  have hsorted := h.sorted
  rw [hheap, List.pairwise_cons] at hsorted
  constructor
  case sorted => exact hheap' ▸ hsorted.2
  case key =>
    intro other hother
    exact h.key other (hheap ▸ List.mem_cons_of_mem entry (hheap' ▸ hother))
  case queued => exact hheap' ▸ hqueued' ▸ hperm
  case nodup => exact hqueued' ▸ h.nodup.filter _
  case known => exact fun c hc => hflag c ▸ h.known c (hin.mp hc).1
  case inside => exact fun c hc => h.inside c (hflag c ▸ hc)
  case excluded => exact fun c hc => h.excluded c (hflag c ▸ hc)
  case reached => exact fun c hc => h.reached c (hflag c ▸ hc)
  case parents =>
    intro c hc p hp
    rcases hpassed hc with rfl | hc
    · exact .inr ⟨rfl, hp⟩
    · rcases h.parents c hc p hp with hknown | ⟨_, hnone⟩
      · exact .inl (hflag p ▸ hknown)
      · cases hnone
  case closed =>
    intro c hc hnot p hp
    rw [hflag] at hc
    rw [hflag]
    rcases hpassed ⟨by rw [hflag, hc]; simp, hnot⟩ with rfl | hold
    · rw [hu] at hc
      exact .inr ⟨Option.some.inj hc, hp⟩
    · rcases h.closed c hc hold.2 p hp with htrue | ⟨_, hnone⟩
      · exact .inl htrue
      · cases hnone
  case newest =>
    intro c hc q hq
    rcases hpassed hc with rfl | hc
    · exact hfirst q (hin.mp hq).1
    · exact h.newest c hc q (hin.mp hq).1
  case emitted =>
    intro c
    rw [hemitted, h.emitted, hflag, hin]
    by_cases heq : c = entry.commit
    · subst heq
      rw [hu]
      simp [hmem]
    · simp [heq]
  case once => exact honce
  case order => exact horder
  case pending =>
    have hsame : ∀ c, walk'.flag c = walk.flag c := hflag
    simp only [hsame]
    exact hpending
  case todoInside =>
    exact history.closed entry.commit (h.inside _ (by rw [hu]; simp))
  case todoReached =>
    intro p hp
    cases uninteresting with
    | true =>
      obtain ⟨s, hs, hreaches⟩ := h.excluded entry.commit hu
      exact ⟨s, hs, hreaches.tail hp⟩
    | false => exact (h.reached entry.commit hu).tail hp
  case todoOld =>
    intro p hp _ c hc
    have hparent := history.dated entry.commit p hp
    rcases hpassed hc with rfl | hc
    · exact hparent
    · exact Int.le_trans hparent (h.newest c hc entry.commit hmem)

/-- An uninteresting commit comes off the queue. -/
theorem Inv.popUninteresting {entry : HeapEntry α} {heap : List (HeapEntry α)} {before : Bool}
    {last : α} (h : Inv history source target walk before last [])
    (hheap : walk.heap = entry :: heap) (hu : walk.flag entry.commit = some true) :
    Inv history source target (walk.pop entry.commit heap) true entry.commit
      (history.parents entry.commit) := by
  refine h.pop hheap rfl rfl rfl hu (fun c => ?_) h.once h.order ?_
  · exact ⟨.inl, fun hc => hc.resolve_right nofun⟩
  · have hsame : (walk.queued.filter fun other => other ≠ entry.commit).countP
        (fun c => walk.flag c = some false) = walk.queued.countP fun c => walk.flag c = some false := by
      rw [List.countP_filter]
      refine List.countP_congr fun c _ => ?_
      by_cases hc : c = entry.commit
      · rw [hc, hu]
        simp
      · simp [hc]
    show walk.pendingInteresting = ((List.countP _ (walk.queued.filter _) : Nat) : Int)
    rw [hsame]
    exact h.pending

/-- An interesting commit comes off the queue. -/
theorem Inv.popInteresting {entry : HeapEntry α} {heap : List (HeapEntry α)} {before : Bool}
    {last : α} (h : Inv history source target walk before last [])
    (hheap : walk.heap = entry :: heap) (hu : walk.flag entry.commit = some false) :
    Inv history source target ((walk.pop entry.commit heap).emit entry.commit) false entry.commit
      (history.parents entry.commit) := by
  obtain ⟨hmem, _, hfirst⟩ := h.first hheap
  have hnew : entry.commit ∉ walk.emitted := fun hin => ((h.emitted _).mp hin).2 hmem
  refine h.pop hheap rfl rfl rfl hu (fun c => ?_) ?_ ?_ ?_
  · show c ∈ walk.emitted ++ [entry.commit] ↔ _
    rw [List.mem_append, List.mem_singleton]
    simp
  · exact List.nodup_append.mpr ⟨h.once, by simp, by
      intro a ha b hb heq
      exact hnew (List.mem_singleton.mp hb ▸ heq ▸ ha)⟩
  · refine List.pairwise_append.mpr ⟨h.order, List.pairwise_singleton _ _, ?_⟩
    intro a ha b hb
    obtain rfl := List.mem_singleton.mp hb
    obtain ⟨hflag, hnot⟩ := (h.emitted a).mp ha
    exact h.newest a ⟨by rw [hflag]; nofun, hnot⟩ _ hmem
  · have hfewer : walk.queued.countP (fun c => walk.flag c = some false)
        = (walk.queued.filter fun other => other ≠ entry.commit).countP
          (fun c => walk.flag c = some false) + 1 := by
      rw [List.countP_filter]
      refine countP_eq_succ h.nodup hmem (by simpa using hu) (by simp) fun x hx => ?_
      simp [hx]
    have hpending := h.pending
    show walk.pendingInteresting - 1 = ((List.countP _ (walk.queued.filter _) : Nat) : Int)
    omega

/-! ## Where the walk stops -/

/-- A wanted commit has been emitted, or an interesting commit that leads to it is still queued. -/
theorem Inv.frontier (h : Inv history source target walk uninteresting current [])
    (htarget : walk.flag target ≠ none) (hc : Wanted history source target c) :
    c ∈ walk.emitted ∨ ∃ q ∈ walk.queued, walk.flag q = some false ∧ Reaches history q c := by
  obtain ⟨hreached, hnot⟩ := hc
  have hplace : ∀ {y}, walk.flag y ≠ none → ¬Excluded history source y →
      y ∈ walk.emitted ∨ y ∈ walk.queued ∧ walk.flag y = some false := by
    intro y hy hwanted
    have hfalse : walk.flag y = some false := by
      cases hvalue : walk.flag y with
      | none => exact absurd hvalue hy
      | some value =>
        cases value with
        | false => rfl
        | true => exact absurd (h.excluded y hvalue) hwanted
    by_cases hqueued : y ∈ walk.queued
    · exact .inr ⟨hqueued, hfalse⟩
    · exact .inl ((h.emitted y).mpr ⟨hfalse, hqueued⟩)
  induction hreached with
  | refl =>
    rcases hplace htarget hnot with hemitted | ⟨hqueued, hflag⟩
    · exact .inl hemitted
    · exact .inr ⟨target, hqueued, hflag, .refl⟩
  | @tail y z _ hz ih =>
    have hy : ¬Excluded history source y := by
      rintro ⟨s, hs, hreaches⟩
      exact hnot ⟨s, hs, hreaches.tail hz⟩
    rcases ih hy with hemitted | ⟨q, hq, hflag, hreaches⟩
    · obtain ⟨hfalse, hqueued⟩ := (h.emitted y).mp hemitted
      have hknown : walk.flag z ≠ none :=
        (h.parents y ⟨by rw [hfalse]; nofun, hqueued⟩ z hz).resolve_right fun hnone => by
          cases hnone.2
      rcases hplace hknown hnot with hin | ⟨hin, hflag⟩
      · exact .inl hin
      · exact .inr ⟨z, hin, hflag, .refl⟩
    · exact .inr ⟨q, hq, hflag, hreaches.tail hz⟩

/-- The first commits that are emitted are the range, when those that are not emitted are left out
for the limit and no newer. -/
theorem Inv.isRange (h : Inv history source target walk uninteresting current todo) {limit : Nat}
    (hwanted : ∀ c ∈ walk.emitted, Wanted history source target c)
    (hmissing : ∀ c, Wanted history source target c → c ∉ walk.emitted →
      limit ≤ walk.emitted.length ∧ ∀ d ∈ walk.emitted, history.date c ≤ history.date d) :
    IsRange history source target limit (walk.emitted.take limit) where
  wanted := fun c hc => hwanted c (List.mem_of_mem_take hc)
  once := h.once.sublist (List.take_sublist _ _)
  sorted := h.order.sublist (List.take_sublist _ _)
  bounded := by rw [List.length_take]; exact Nat.min_le_left _ _
  complete := by
    intro c hc hnot
    rw [List.length_take]
    by_cases hin : c ∈ walk.emitted
    · refine Nat.min_eq_left ?_
      by_contra hless
      rw [List.take_of_length_le (by omega)] at hnot
      exact hnot hin
    · exact Nat.min_eq_left (hmissing c hc hin).1
  newest := by
    intro c hc hnot d hd
    by_cases hin : c ∈ walk.emitted
    · have hparts := h.order
      rw [← List.take_append_drop limit walk.emitted] at hparts hin
      exact (List.pairwise_append.mp hparts).2.2 d hd c ((List.mem_append.mp hin).resolve_left hnot)
    · exact (hmissing c hc hin).2 d (List.mem_of_mem_take hd)

end

end TrustPortal.Proofs.GitSources
