import Mathlib.Data.List.Infix
import TrustPortal.Proofs.GitSources.DateOrder

/-!
# `TrustPortal.Proofs.GitSources.RangeWalk`: the walk and the range

`Trail` ties a state of the walk to the commits that it has taken: its flags say which of them are
found, and its heap gives back the next commit of the order. So the run ends at the first stop
(`Visited.run`), and its result is the range exactly when all that `from` reaches is found by then
(`commitsBetween_isRange_iff`). With commits of one second the walk can stop too early
(`oneSecond_shared`), or take a commit back in time (`commitsBetween_takenBack`).
-/

set_option autoImplicit false

namespace TrustPortal.Proofs.GitSources

open TrustPortal.GitSources

section
variable {α : Type} [DecidableEq α] {history : History α} {source : Option α} {target : α}
  {limit : Nat} {seen : List α} {c p : α}

/-! ## A walk and its commits -/

variable {walk : HistoryWalk α} {uninteresting : Bool} {places stack : List α}

/-- The state of a walk that has taken the commits in `seen` and met those in `places`. -/
structure Trail (history : History α) (source : Option α) (walk : HistoryWalk α)
    (seen places : List α) : Prop where
  known : ∀ c, walk.flag c ≠ none ↔ c ∈ places
  queued : ∀ c, c ∈ walk.queued ↔ c ∈ places ∧ c ∉ seen
  inside : ∀ c ∈ seen, c ∈ places
  distinct : seen.Nodup
  found : ∀ c, walk.flag c = some true → Found history source seen c
  sorted : walk.heap.Pairwise fun a b => a.before b = true
  entries : ∀ a ∈ walk.heap, a.commit ∈ places
  fresh : ∀ a ∈ walk.heap, a.order < walk.order
  ordered : ∀ a ∈ walk.heap, ∀ b ∈ walk.heap,
    places.idxOf a.commit < places.idxOf b.commit → a.order < b.order

omit [DecidableEq α] in
/-- The entry that is pushed comes after those of its second. -/
private theorem heapPush_before {entry : HeapEntry α} {heap : List (HeapEntry α)}
    (h : heap.Pairwise fun a b => a.before b = true) (hnew : ∀ a ∈ heap, a.order < entry.order) :
    (heapPush entry heap).Pairwise fun a b => a.before b = true := by
  induction heap with
  | nil => exact List.pairwise_singleton _ _
  | cons first rest ih =>
    rw [List.pairwise_cons] at h
    have hfirst := hnew first List.mem_cons_self
    rw [heapPush]
    split_ifs with hbefore
    · refine List.pairwise_cons.mpr ⟨fun other hother => ?_, List.pairwise_cons.mpr h⟩
      rcases List.mem_cons.mp hother with rfl | hother
      · exact hbefore
      · have hnext := h.1 other hother
        simp only [HeapEntry.before, Bool.or_eq_true, Bool.and_eq_true, decide_eq_true_eq]
          at hbefore hnext ⊢
        omega
    · refine List.pairwise_cons.mpr ⟨fun other hother => ?_,
        ih h.2 fun a ha => hnew a (List.mem_cons_of_mem first ha)⟩
      rcases List.mem_cons.mp ((heapPush_perm entry rest).subset hother) with rfl | hother
      · simp only [HeapEntry.before, Bool.or_eq_true, Bool.and_eq_true, decide_eq_true_eq]
          at hbefore ⊢
        omega
      · exact h.1 other hother

/-- A commit that the walk has not met is queued, as the last one met. -/
theorem Trail.push (h : Trail history source walk seen places) (hnew : walk.flag p = none)
    (hfound : uninteresting = true → Found history source seen p) :
    Trail history source (walk.push history p uninteresting) seen (places ++ [p]) := by
  have hnotIn : p ∉ places := fun hmem => (h.known p).mpr hmem hnew
  have hold : ∀ {x}, x ∈ places → (places ++ [p]).idxOf x = places.idxOf x :=
    fun hx => List.idxOf_append_of_mem hx
  have hlast : (places ++ [p]).idxOf p = places.length := by
    rw [List.idxOf_append_of_notMem hnotIn, List.idxOf_cons_self, Nat.add_zero]
  constructor
  case known =>
    intro c
    rw [flag_push, List.mem_append, List.mem_singleton, ← h.known c]
    split_ifs with heq
    · exact iff_of_true (Option.some_ne_none _) (.inr heq.symm)
    · exact ⟨.inl, fun hc => hc.resolve_right fun h => heq h.symm⟩
  case queued =>
    intro c
    show c ∈ p :: walk.queued ↔ _
    rw [List.mem_cons, h.queued, List.mem_append, List.mem_singleton]
    constructor
    · rintro (rfl | ⟨hmem, hnot⟩)
      · exact ⟨.inr rfl, fun hmem => hnotIn (h.inside c hmem)⟩
      · exact ⟨.inl hmem, hnot⟩
    · rintro ⟨hmem | rfl, hnot⟩
      · exact .inr ⟨hmem, hnot⟩
      · exact .inl rfl
  case inside => exact fun c hc => List.mem_append_left _ (h.inside c hc)
  case distinct => exact h.distinct
  case found =>
    intro c hc
    rw [flag_push] at hc
    split_ifs at hc with heq
    · exact heq ▸ hfound (Option.some.inj hc)
    · exact h.found c hc
  case sorted => exact heapPush_before h.sorted h.fresh
  case entries =>
    intro a ha
    rcases List.mem_cons.mp ((heapPush_perm _ _).subset ha) with rfl | ha
    · exact List.mem_append_right _ List.mem_cons_self
    · exact List.mem_append_left _ (h.entries a ha)
  case fresh =>
    intro a ha
    show a.order < walk.order + 1
    rcases List.mem_cons.mp ((heapPush_perm _ _).subset ha) with rfl | ha
    · exact Nat.lt_succ_self _
    · exact Nat.lt_succ_of_lt (h.fresh a ha)
  case ordered =>
    intro a ha b hb hlt
    rcases List.mem_cons.mp ((heapPush_perm _ _).subset hb) with rfl | hb
    · rcases List.mem_cons.mp ((heapPush_perm _ _).subset ha) with rfl | ha
      · exact absurd hlt (Nat.lt_irrefl _)
      · exact h.fresh a ha
    · rw [hold (h.entries b hb)] at hlt
      have hb' := List.idxOf_lt_length_of_mem (h.entries b hb)
      rcases List.mem_cons.mp ((heapPush_perm _ _).subset ha) with rfl | ha
      · rw [hlast] at hlt
        omega
      · rw [hold (h.entries a ha)] at hlt
        exact h.ordered a ha b hb hlt

/-- A commit that is found is marked. -/
private theorem Trail.set {walk' : HistoryWalk α} (h : Trail history source walk seen places)
    (hknown : walk.flag c ≠ none) (hfound : Found history source seen c)
    (hflags : walk'.flags = (walk.setUninteresting c).flags) (hqueued : walk'.queued = walk.queued)
    (hheap : walk'.heap = walk.heap) (horder : walk'.order = walk.order) :
    Trail history source walk' seen places := by
  have hflag : ∀ x, walk'.flag x = if x = c then some true else walk.flag x := by
    intro x
    rw [← flag_setUninteresting hknown, HistoryWalk.flag, hflags]
    rfl
  constructor
  case known =>
    intro x
    rw [hflag, ← h.known x]
    split_ifs with heq
    · exact iff_of_true (Option.some_ne_none _) (heq ▸ hknown)
    · exact Iff.rfl
  case queued => exact hqueued ▸ h.queued
  case inside => exact h.inside
  case distinct => exact h.distinct
  case found =>
    intro x hx
    rw [hflag] at hx
    split_ifs at hx with heq
    · exact heq ▸ hfound
    · exact h.found x hx
  case sorted => exact hheap ▸ h.sorted
  case entries => exact hheap ▸ h.entries
  case fresh => exact hheap ▸ horder ▸ h.fresh
  case ordered => exact hheap ▸ h.ordered

/-- What is marked by way of a stack of commits that are found is found. -/
theorem Trail.markStack (h : Trail history source walk seen places)
    (hfound : ∀ c ∈ stack, Found history source seen c) :
    Trail history source (walk.markStack history stack) seen places := by
  induction walk, stack using @HistoryWalk.markStack.induct _ _ history with
  | case1 walk => rw [HistoryWalk.markStack]; exact h
  | case2 walk c stack hflag hqueued ih =>
    rw [HistoryWalk.markStack, dif_pos hflag, if_pos hqueued]
    have hset : Trail history source (walk.markQueued c) seen places :=
      h.set (by rw [hflag]; simp) (hfound c List.mem_cons_self) rfl rfl rfl rfl
    exact ih hset fun x hx => hfound x (List.mem_cons_of_mem c hx)
  | case3 walk c stack hflag hqueued ih =>
    rw [HistoryWalk.markStack, dif_pos hflag, if_neg hqueued]
    have hknown : walk.flag c ≠ none := by rw [hflag]; simp
    have hself := hfound c List.mem_cons_self
    have hset : Trail history source (walk.takeBack c) seen places :=
      h.set hknown hself rfl rfl rfl rfl
    have hseen : c ∈ seen := by
      by_contra hnot
      exact hqueued ((h.queued c).mpr ⟨(h.known c).mp hknown, hnot⟩)
    refine ih hset fun x hx => ?_
    rcases List.mem_append.mp hx with hx | hx
    · exact .parent hself hseen (List.mem_reverse.mp hx)
    · exact hfound x (List.mem_cons_of_mem c hx)
  | case4 walk c stack hflag ih =>
    rw [HistoryWalk.markStack, dif_neg hflag]
    exact ih h fun x hx => hfound x (List.mem_cons_of_mem c hx)

/-- A commit that was met before is met again. -/
private theorem Trail.again (h : Trail history source walk seen places) (hmem : p ∈ places) :
    Trail history source walk seen (places ++ [p]) := by
  have hin : ∀ c, c ∈ places ++ [p] ↔ c ∈ places := by
    intro c
    rw [List.mem_append, List.mem_singleton]
    exact ⟨fun hc => hc.elim id fun heq => heq ▸ hmem, .inl⟩
  have hplace : ∀ {x}, x ∈ places → (places ++ [p]).idxOf x = places.idxOf x :=
    fun hx => List.idxOf_append_of_mem hx
  exact { h with
    known := fun c => (h.known c).trans (hin c).symm
    queued := fun c => (h.queued c).trans (and_congr_left' (hin c).symm)
    inside := fun c hc => (hin c).mpr (h.inside c hc)
    entries := fun a ha => (hin _).mpr (h.entries a ha)
    ordered := by
      intro a ha b hb hlt
      rw [hplace (h.entries a ha), hplace (h.entries b hb)] at hlt
      exact h.ordered a ha b hb hlt }

/-- The parents of a commit are met in their order. -/
theorem Trail.visitParents {todo : List α} (h : Trail history source walk seen places)
    (hfound : uninteresting = true → ∀ p ∈ todo, Found history source seen p) :
    Trail history source (todo.foldl (HistoryWalk.visitParent history uninteresting) walk) seen
      (places ++ todo) := by
  induction todo generalizing walk places with
  | nil => rwa [List.append_nil]
  | cons p todo ih =>
    have hstep : Trail history source (walk.visitParent history uninteresting p) seen
        (places ++ [p]) := by
      cases hflag : walk.flag p with
      | none =>
        rw [HistoryWalk.visitParent, hflag]
        exact h.push hflag fun hu => hfound hu p List.mem_cons_self
      | some value =>
        rw [HistoryWalk.visitParent, hflag]
        have hmem : p ∈ places := (h.known p).mp (by rw [hflag]; exact Option.some_ne_none _)
        cases uninteresting with
        | false => exact h.again hmem
        | true =>
          refine Trail.again (Trail.markStack h fun c hc => ?_) hmem
          rw [List.mem_singleton.mp hc]
          exact hfound rfl p List.mem_cons_self
    rw [List.foldl_cons, List.append_cons]
    exact ih hstep fun hu q hq => hfound hu q (List.mem_cons_of_mem p hq)

/-- The commit whose entry comes off the heap is taken. -/
private theorem Trail.pop {entry : HeapEntry α} {heap : List (HeapEntry α)} {walk' : HistoryWalk α}
    (h : Trail history source walk seen places) (hheap : walk.heap = entry :: heap)
    (hmem : entry.commit ∈ walk.queued) (hflags : walk'.flags = walk.flags)
    (hheap' : walk'.heap = heap) (horder : walk'.order = walk.order)
    (hqueued' : walk'.queued = walk.queued.filter fun other => other ≠ entry.commit) :
    Trail history source walk' (seen ++ [entry.commit]) places := by
  obtain ⟨hmet, hnew⟩ := (h.queued _).mp hmem
  have hflag : ∀ x, walk'.flag x = walk.flag x := by
    intro x
    rw [HistoryWalk.flag, hflags]
    rfl
  have hin : ∀ {a}, a ∈ walk'.heap → a ∈ walk.heap := by
    intro a ha
    rw [hheap]
    exact List.mem_cons_of_mem entry (hheap' ▸ ha)
  constructor
  case known => exact fun c => hflag c ▸ h.known c
  case queued =>
    intro c
    rw [hqueued', List.mem_filter, decide_eq_true_eq, h.queued, List.mem_append,
      List.mem_singleton, not_or, and_assoc]
  case inside =>
    intro c hc
    rcases List.mem_append.mp hc with hc | hc
    · exact h.inside c hc
    · exact List.mem_singleton.mp hc ▸ hmet
  case distinct =>
    refine List.nodup_append.mpr ⟨h.distinct, by simp, ?_⟩
    rintro a ha b hb rfl
    exact hnew (List.mem_singleton.mp hb ▸ ha)
  case found =>
    exact fun c hc => (h.found c (hflag c ▸ hc)).mono fun x => List.mem_append_left _
  case sorted =>
    have hsorted := h.sorted
    rw [hheap, List.pairwise_cons] at hsorted
    exact hheap' ▸ hsorted.2
  case entries => exact fun a ha => h.entries a (hin ha)
  case fresh => exact fun a ha => horder ▸ h.fresh a (hin ha)
  case ordered => exact fun a ha b hb => h.ordered a (hin ha) b (hin hb)

/-- A walk at the head of its loop that has taken these commits. -/
structure Visited (history : History α) (source : Option α) (target : α) (walk : HistoryWalk α)
    (seen : List α) : Prop where
  inv : ∃ before last, Inv history source target walk before last []
  trail : Trail history source walk seen (met history source target seen)
  marked : ∀ s, source = some s → walk.flag s = some true

/-- What waits is queued. -/
theorem Visited.waits (h : Visited history source target walk seen) (c : α) :
    Waits history source target seen c ↔ c ∈ walk.queued :=
  (h.trail.queued c).symm

/-- What is found is marked. -/
theorem Visited.found (h : Visited history source target walk seen) (c : α) :
    Found history source seen c ↔ walk.flag c = some true := by
  refine ⟨fun hfound => ?_, h.trail.found c⟩
  obtain ⟨before, last, hinv⟩ := h.inv
  induction hfound with
  | source hs => exact h.marked _ hs
  | @parent c p _ hseen hparent ih =>
    have hnot : c ∉ walk.queued := fun hmem => ((h.trail.queued c).mp hmem).2 hseen
    exact (hinv.closed c ih hnot p hparent).resolve_right fun hnone => by cases hnone.2

/-- A commit that is known is marked or interesting. -/
theorem flag_false (hknown : walk.flag c ≠ none) (hnot : walk.flag c ≠ some true) :
    walk.flag c = some false := by
  cases hvalue : walk.flag c with
  | none => exact absurd hvalue hknown
  | some value =>
    cases value with
    | false => rfl
    | true => exact absurd hvalue hnot

/-- What is emitted was taken and is not found. -/
theorem Visited.emitted (h : Visited history source target walk seen) (c : α) :
    c ∈ walk.emitted ↔ c ∈ seen ∧ ¬Found history source seen c := by
  obtain ⟨before, last, hinv⟩ := h.inv
  rw [hinv.emitted, h.found, h.trail.queued]
  constructor
  · rintro ⟨hflag, hnot⟩
    have hmet := (h.trail.known c).mp (by rw [hflag]; exact Option.some_ne_none _)
    refine ⟨?_, by rw [hflag]; nofun⟩
    by_contra hseen
    exact hnot ⟨hmet, hseen⟩
  · rintro ⟨hseen, hflag⟩
    exact ⟨flag_false ((h.trail.known c).mpr (h.trail.inside c hseen)) hflag, fun hmem => hmem.2 hseen⟩

/-- As many commits are emitted as are listed. -/
theorem Visited.length_emitted (h : Visited history source target walk seen) :
    walk.emitted.length = (listed history source seen).length := by
  classical
  obtain ⟨before, last, hinv⟩ := h.inv
  have hlisted : (listed history source seen).Nodup := h.trail.distinct.filter _
  refine ((List.perm_ext_iff_of_nodup hinv.once hlisted).mpr fun c => ?_).length_eq
  rw [h.emitted, listed, List.mem_filter, decide_eq_true_eq]

/-- All that waits is found where no interesting commit is pending. -/
theorem Visited.pending (h : Visited history source target walk seen) :
    walk.pendingInteresting ≤ 0
      ↔ ∀ c, Waits history source target seen c → Found history source seen c := by
  obtain ⟨before, last, hinv⟩ := h.inv
  have hcount : walk.pendingInteresting ≤ 0
      ↔ walk.queued.countP (fun c => walk.flag c = some false) = 0 := by
    rw [hinv.pending]
    omega
  rw [hcount, List.countP_eq_zero]
  constructor
  · intro hnone c hc
    have hqueued := (h.waits c).mp hc
    by_contra hnot
    refine hnone c hqueued ?_
    rw [h.found] at hnot
    simpa using flag_false (hinv.known c hqueued) hnot
  · intro hfound c hc hflag
    have htrue := (h.found c).mp (hfound c ((h.waits c).mpr hc))
    rw [htrue] at hflag
    cases hflag

/-- The first entry of the heap is that of the next commit. -/
private theorem Visited.isNext {entry : HeapEntry α} {heap : List (HeapEntry α)}
    (h : Visited history source target walk seen) (hheap : walk.heap = entry :: heap) :
    IsNext history source target seen entry.commit := by
  obtain ⟨before, last, hinv⟩ := h.inv
  have hcommits : ∀ d, d ∈ walk.queued → ∃ b ∈ entry :: heap, b.commit = d := fun d hd => by
    obtain ⟨b, hb, hcommit⟩ := List.mem_map.mp (hinv.queued.symm.subset hd)
    exact ⟨b, hheap ▸ hb, hcommit⟩
  refine ⟨(h.waits _).mpr (hinv.queued.subset (List.mem_map_of_mem (hheap ▸ List.mem_cons_self))),
    fun d hd => ?_⟩
  obtain ⟨b, hb, rfl⟩ := hcommits d ((h.waits d).mp hd)
  rcases List.mem_cons.mp hb with rfl | hb
  · exact .inr ⟨rfl, Nat.le_refl _⟩
  have hsorted := h.trail.sorted
  rw [hheap, List.pairwise_cons] at hsorted
  have hbefore := hsorted.1 b hb
  simp only [HeapEntry.before, Bool.or_eq_true, Bool.and_eq_true, decide_eq_true_eq] at hbefore
  have hkey := hinv.key entry (hheap ▸ List.mem_cons_self)
  have hkey' := hinv.key b (hheap ▸ List.mem_cons_of_mem entry hb)
  have hplace := h.trail.ordered b (hheap ▸ List.mem_cons_of_mem entry hb) entry
    (hheap ▸ List.mem_cons_self)
  omega

/-! ## The whole walk -/

/-- The walk without the first entry of its heap; an interesting commit is emitted. -/
def taken (walk : HistoryWalk α) (c : α) (heap : List (HeapEntry α)) : HistoryWalk α :=
  if walk.flag c = some true then walk.pop c heap else (walk.pop c heap).emit c

/-- A turn of the loop. -/
def turn (history : History α) (walk : HistoryWalk α) (c : α) (heap : List (HeapEntry α)) :
    HistoryWalk α :=
  (history.parents c).foldl (HistoryWalk.visitParent history (walk.flag c = some true))
    (taken walk c heap)

/-- The parents of an interesting commit change nothing that is emitted. -/
theorem emitted_visitParents (history : History α) (walk : HistoryWalk α) (todo : List α) :
    (todo.foldl (HistoryWalk.visitParent history false) walk).emitted = walk.emitted := by
  induction todo generalizing walk with
  | nil => rfl
  | cons p todo ih =>
    rw [List.foldl_cons, ih, HistoryWalk.visitParent]
    cases walk.flag p <;> rfl

/-- A turn takes the next commit. -/
theorem Visited.turn {entry : HeapEntry α} {heap : List (HeapEntry α)}
    (h : Visited history source target walk seen) (hheap : walk.heap = entry :: heap) :
    Visited history source target (turn history walk entry.commit heap) (seen ++ [entry.commit])
      ∧ (turn history walk entry.commit heap).heap.length
          + unseen history (turn history walk entry.commit heap)
        < walk.heap.length + unseen history walk
      ∧ (walk.flag entry.commit ≠ some true →
        (turn history walk entry.commit heap).emitted = walk.emitted ++ [entry.commit]) := by
  obtain ⟨before, last, hinv⟩ := h.inv
  have hmem := (h.waits _).mp (h.isNext hheap).waits
  have hlength : walk.heap.length = heap.length + 1 := by rw [hheap, List.length_cons]
  by_cases hu : walk.flag entry.commit = some true
  · have hturn : Proofs.GitSources.turn history walk entry.commit heap
        = (history.parents entry.commit).foldl (HistoryWalk.visitParent history true)
          (walk.pop entry.commit heap) := by
      rw [Proofs.GitSources.turn, taken, if_pos hu, decide_eq_true hu]
    obtain ⟨hnext, hgoes⟩ := visitParents (hinv.popUninteresting hheap hu) fun _ => hu
    rw [hturn]
    refine ⟨⟨⟨_, _, hnext⟩, ?_, fun s hs => hgoes.marked s (h.marked s hs)⟩, ?_, absurd hu⟩
    · rw [met_snoc]
      have hpop : Trail history source (walk.pop entry.commit heap) (seen ++ [entry.commit])
          (met history source target seen) := h.trail.pop hheap hmem rfl rfl rfl rfl
      refine hpop.visitParents fun _ p hp => ?_
      have hfound := ((h.found _).mpr hu).mono fun x hx => List.mem_append_left [entry.commit] hx
      exact .parent hfound (List.mem_append_right _ List.mem_cons_self) hp
    · have hahead := hgoes.ahead
      have hunseen : unseen history (walk.pop entry.commit heap) = unseen history walk := rfl
      have hpop : (walk.pop entry.commit heap).heap.length = heap.length := rfl
      omega
  · have hfalse := flag_false (hinv.known _ hmem) hu
    have hturn : Proofs.GitSources.turn history walk entry.commit heap
        = (history.parents entry.commit).foldl (HistoryWalk.visitParent history false)
          ((walk.pop entry.commit heap).emit entry.commit) := by
      rw [Proofs.GitSources.turn, taken, if_neg hu, decide_eq_false hu]
    obtain ⟨hnext, hgoes⟩ := visitParents (hinv.popInteresting hheap hfalse) nofun
    rw [hturn]
    refine ⟨⟨⟨_, _, hnext⟩, ?_, fun s hs => hgoes.marked s (h.marked s hs)⟩, ?_, fun _ => ?_⟩
    · rw [met_snoc]
      have hpop : Trail history source ((walk.pop entry.commit heap).emit entry.commit)
          (seen ++ [entry.commit]) (met history source target seen) :=
        h.trail.pop hheap hmem rfl rfl rfl rfl
      exact hpop.visitParents nofun
    · have hahead := hgoes.ahead
      have hunseen : unseen history ((walk.pop entry.commit heap).emit entry.commit)
          = unseen history walk := rfl
      have hpop : ((walk.pop entry.commit heap).emit entry.commit).heap.length = heap.length := rfl
      omega
    · rw [emitted_visitParents]
      rfl

/-- A turn of `run`. -/
theorem run_cons {entry : HeapEntry α} {heap : List (HeapEntry α)} (hheap : walk.heap = entry :: heap)
    (hpending : ¬walk.pendingInteresting ≤ 0) (turns : Nat) :
    walk.run history limit (turns + 1)
      = if walk.flag entry.commit ≠ some true ∧ limit ≤ (turn history walk entry.commit heap).emitted.length
        then some ((turn history walk entry.commit heap).emitted.take limit)
        else (turn history walk entry.commit heap).run history limit turns := by
  rw [HistoryWalk.run, hheap]
  dsimp only
  rw [if_neg hpending, turn, taken]
  by_cases hu : walk.flag entry.commit = some true
  · simp only [hu, if_true, not_true_eq_false, false_and, if_false, decide_true, ne_eq]
  · simp only [hu, if_false, not_false_eq_true, true_and, decide_false, ne_eq, emitted_visitParents]

/-- Nothing is pending when the heap is empty. -/
private theorem Visited.pending_nil (h : Visited history source target walk seen)
    (hheap : walk.heap = []) : walk.pendingInteresting ≤ 0 := by
  obtain ⟨before, last, hinv⟩ := h.inv
  have hqueued := hinv.queued
  rw [hheap, List.map_nil] at hqueued
  rw [hinv.pending, hqueued.symm.eq_nil, List.countP_nil]
  exact Int.le_refl 0

omit [DecidableEq α] in
/-- A commit that is found when it is taken lengthens no list. -/
private theorem length_listed (h : Found history source seen c) :
    (listed history source (seen ++ [c])).length ≤ (listed history source seen).length := by
  classical
  have hnext : Found history source (seen ++ [c]) c := h.mono fun x => List.mem_append_left _
  rw [listed, listed, List.filter_append, List.filter_cons_of_neg (by simpa using hnext),
    List.filter_nil, List.append_nil, ← List.countP_eq_length_filter, ← List.countP_eq_length_filter]
  refine List.countP_mono_left fun x _ hx => ?_
  rw [decide_eq_true_eq] at hx ⊢
  exact fun hfound => hx (hfound.mono fun y => List.mem_append_left _)

/-- The run ends at the first stop. Every turn takes a commit off the queue and meets others once,
so as many turns suffice as there are commits. -/
theorem Visited.run {turns : Nat} (h : Visited history source target walk seen)
    (horder : DateOrder history source target seen)
    (hfirst : ∀ before, before <+: seen → before ≠ seen → ¬Stops history source target limit before)
    (hless : walk.emitted.length < limit) (hturns : walk.heap.length + unseen history walk ≤ turns) :
    ∃ last walk', FirstStop history source target limit last
      ∧ Visited history source target walk' last ∧ walk'.emitted.length ≤ limit
      ∧ walk.run history limit turns = some (walk'.emitted.take limit) := by
  induction turns generalizing walk seen with
  | zero =>
    have hheap : walk.heap = [] := List.eq_nil_of_length_eq_zero (by omega)
    have hall := h.pending.mp (h.pending_nil hheap)
    refine ⟨seen, walk, ⟨horder, .inr hall, hfirst⟩, h, Nat.le_of_lt hless, ?_⟩
    unfold HistoryWalk.run
    rw [hheap]
  | succ turns ih =>
    cases hheap : walk.heap with
    | nil =>
      have hall := h.pending.mp (h.pending_nil hheap)
      refine ⟨seen, walk, ⟨horder, .inr hall, hfirst⟩, h, Nat.le_of_lt hless, ?_⟩
      unfold HistoryWalk.run
      rw [hheap]
    | cons entry heap =>
      by_cases hpending : walk.pendingInteresting ≤ 0
      · have hall := h.pending.mp hpending
        refine ⟨seen, walk, ⟨horder, .inr hall, hfirst⟩, h, Nat.le_of_lt hless, ?_⟩
        unfold HistoryWalk.run
        rw [hheap]
        exact if_pos hpending
      · have hgoesOn : ¬Stops history source target limit seen := by
          rintro (hlimit | hall)
          · rw [← h.length_emitted] at hlimit
            omega
          · exact hpending (h.pending.mpr hall)
        obtain ⟨hvisited, hahead, hemitted⟩ := h.turn hheap
        have horder' := DateOrder.snoc horder (h.isNext hheap)
        have hfirst' : ∀ before, before <+: seen ++ [entry.commit] → before ≠ seen ++ [entry.commit] →
            ¬Stops history source target limit before := by
          intro before hpart hne
          have hpart := (List.prefix_concat_iff.mp hpart).resolve_left hne
          by_cases heq : before = seen
          · exact heq ▸ hgoesOn
          · exact hfirst before hpart heq
        rw [run_cons hheap hpending]
        split_ifs with hfull
        · refine ⟨_, _, ⟨horder', .inl (hvisited.length_emitted ▸ hfull.2), hfirst'⟩, hvisited, ?_, rfl⟩
          rw [hemitted hfull.1, List.length_append, List.length_singleton]
          omega
        · refine ih hvisited horder' hfirst' ?_ (by omega)
          by_cases hu : walk.flag entry.commit = some true
          · have hlisted := length_listed ((h.found _).mpr hu)
            rw [← h.length_emitted, ← hvisited.length_emitted] at hlisted
            omega
          · exact Nat.not_le.mp fun hle => hfull ⟨hu, hle⟩

/-- Where the walk stops, it has emitted the range exactly when it has found all that `from`
reaches. -/
private theorem Visited.isRange_iff (h : Visited history source target walk seen)
    (hstop : FirstStop history source target limit seen) (hlength : walk.emitted.length ≤ limit) :
    IsRange history source target limit (walk.emitted.take limit)
      ↔ ∀ c ∈ seen, Excluded history source c → Found history source seen c := by
  obtain ⟨before, last, hinv⟩ := h.inv
  constructor
  · intro hrange c hc hexcluded
    by_contra hnot
    have hemitted := (h.emitted c).mpr ⟨hc, hnot⟩
    rw [← List.take_of_length_le hlength] at hemitted
    exact (hrange.wanted c hemitted).2 hexcluded
  · intro hfound
    refine hinv.isRange (fun c hc => ?_) fun c hc hnot => ?_
    · obtain ⟨hseen, hnot⟩ := (h.emitted c).mp hc
      exact ⟨hinv.reached c ((hinv.emitted c).mp hc).1, fun hexcluded => hnot (hfound c hseen hexcluded)⟩
    · have htarget : walk.flag target ≠ none := (h.trail.known target).mpr List.mem_cons_self
      obtain ⟨q, hq, hflag, hreaches⟩ := (hinv.frontier htarget hc).resolve_left hnot
      rcases hstop.stops with hlimit | hall
      · refine ⟨h.length_emitted ▸ hlimit, fun d hd => ?_⟩
        obtain ⟨hfalse, hqueued⟩ := (hinv.emitted d).mp hd
        exact Int.le_trans (date_le hreaches) (hinv.newest d ⟨by rw [hfalse]; nofun, hqueued⟩ q hq)
      · have htrue := (h.found q).mp (hall q ((h.waits q).mpr hq))
        rw [htrue] at hflag
        cases hflag

/-- A walk that has met nothing, with `target` to be visited. -/
private theorem inv_init (source : Option α) (htarget : target ∈ history.commits) :
    Inv history source target HistoryWalk.init false target [target] where
  sorted := List.Pairwise.nil
  key := nofun
  queued := List.Perm.refl _
  nodup := List.nodup_nil
  known := nofun
  inside := fun _ hc => absurd rfl hc
  excluded := nofun
  reached := nofun
  parents := fun _ hc => absurd rfl hc.1
  closed := nofun
  newest := fun _ hc => absurd rfl hc.1
  emitted := fun _ => ⟨nofun, nofun⟩
  once := List.nodup_nil
  order := List.Pairwise.nil
  pending := rfl
  todoInside := fun _ hp => List.mem_singleton.mp hp ▸ htarget
  todoReached := fun _ hp => List.mem_singleton.mp hp ▸ Relation.ReflTransGen.refl
  todoOld := fun _ _ _ _ hc => absurd rfl hc.1

/-- The first commit of the queue is the only one that is known. -/
private theorem inv_source {s : α} (hs : s ∈ history.commits)
    (h : Inv history (some s) target (HistoryWalk.init.push history target false) false target []) :
    Inv history (some s) target (HistoryWalk.init.push history target false) true target [s] :=
  { h with
    parents := fun c hc p hp => (h.parents c hc p hp).imp_right fun hnone => nomatch hnone.2
    closed := fun c hc hq p hp => (h.closed c hc hq p hp).imp_right fun hnone => nomatch hnone.2
    todoInside := fun p hp => List.mem_singleton.mp hp ▸ hs
    todoReached := fun p hp => ⟨s, rfl, List.mem_singleton.mp hp ▸ Relation.ReflTransGen.refl⟩
    todoOld := by
      intro p _ _ c hc
      have hflag := hc.1
      rw [flag_push] at hflag
      split_ifs at hflag with heq
      · exact absurd (heq ▸ List.mem_cons_self) hc.2
      · exact absurd rfl hflag }

/-- A walk that has met nothing has taken nothing. -/
private theorem trail_init (history : History α) (source : Option α) :
    Trail history source HistoryWalk.init [] [] where
  known := fun _ => ⟨fun h => absurd rfl h, nofun⟩
  queued := fun _ => ⟨nofun, fun h => h.1⟩
  inside := nofun
  distinct := List.nodup_nil
  found := nofun
  sorted := List.Pairwise.nil
  entries := nofun
  fresh := nofun
  ordered := nofun

private theorem unseen_init (history : History α) :
    unseen history HistoryWalk.init = history.commits.length := by
  rw [unseen, List.countP_eq_length]
  exact fun _ _ => rfl

/-- The walk of a range ends at the first stop. -/
private theorem commitsBetween_stops {limit : Int} (htarget : target ∈ history.commits)
    (hsource : ∀ s, source = some s → s ∈ history.commits)
    (hproper : ¬(limit ≤ 0 ∨ source = some target)) :
    ∃ last walk, FirstStop history source target limit.toNat last
      ∧ Visited history source target walk last ∧ walk.emitted.length ≤ limit.toNat
      ∧ commitsBetween history source target limit = some (walk.emitted.take limit.toNat) := by
  have hlimit : 0 < limit.toNat := by
    rw [not_or] at hproper
    omega
  have hfirst : ∀ before, before <+: ([] : List α) → before ≠ [] →
      ¬Stops history source target limit.toNat before :=
    fun before hpart hne => absurd (List.prefix_nil.mp hpart) hne
  have hinv := (inv_init source htarget).push rfl
  have htrail := (trail_init history source).push (show HistoryWalk.init.flag target = none from rfl)
    (show false = true → Found history source [] target from nofun)
  have hahead := (@goesOn_push _ _ _ HistoryWalk.init target false htarget rfl).ahead
  rw [unseen_init, show (HistoryWalk.init : HistoryWalk α).heap.length = 0 from rfl,
    Nat.zero_add] at hahead
  rw [commitsBetween, if_neg hproper]
  cases source with
  | none =>
    have hvisited : Visited history none target (HistoryWalk.init.push history target false) [] :=
      ⟨⟨_, _, hinv⟩, htrail, nofun⟩
    exact hvisited.run .nil hfirst hlimit hahead
  | some s =>
    have hne : s ≠ target := fun heq => hproper (.inr (by rw [heq]))
    have hnew : (HistoryWalk.init.push history target false).flag s = none := by
      rw [flag_push, if_neg (show ¬target = s from fun heq => hne heq.symm)]
      rfl
    have hs := hsource s rfl
    have hvisited : Visited history (some s) target
        ((HistoryWalk.init.push history target false).push history s true) [] := by
      refine ⟨⟨_, _, (inv_source hs hinv).push hnew⟩, htrail.push hnew fun _ => .source rfl, ?_⟩
      rintro _ ⟨rfl⟩
      rw [flag_push, if_pos rfl]
    exact hvisited.run .nil hfirst hlimit (Nat.le_trans (goesOn_push hs hnew).ahead hahead)

/-- **The walk of a range.** It lists the commits that `to` reaches and `from` does not, each once,
newest first, cut to the limit, exactly when at its first stop every commit taken that `from` reaches
is found. -/
theorem commitsBetween_isRange_iff (history : History α) (source : Option α) (target : α)
    (limit : Int) (htarget : target ∈ history.commits)
    (hsource : ∀ s, source = some s → s ∈ history.commits) :
    (∃ result, commitsBetween history source target limit = some result
        ∧ IsRange history source target limit.toNat result)
      ↔ KnownInTime history source target limit.toNat := by
  by_cases hproper : limit ≤ 0 ∨ source = some target
  · have hstops : Stops history source target limit.toNat [] := by
      rcases hproper with hlimit | hsame
      · exact .inl (by rw [Int.toNat_of_nonpos hlimit]; exact Nat.zero_le _)
      · refine .inr fun c hc => .source ?_
        have hmem := hc.1
        rw [met, hsame] at hmem
        have hc : target = c := by simpa [eq_comm] using hmem
        rw [hsame, hc]
    refine iff_of_true ⟨[], by rw [commitsBetween, if_pos hproper], ?_⟩ ?_
    · refine ⟨List.forall_mem_nil _, List.nodup_nil, List.Pairwise.nil, Nat.zero_le _, ?_,
        fun _ _ _ => List.forall_mem_nil _⟩
      rintro c ⟨hreached, hnot⟩ _
      rcases hproper with hlimit | hsame
      · rw [Int.toNat_of_nonpos hlimit]
        rfl
      · exact absurd ⟨target, hsame, hreached⟩ hnot
    · intro seen hstop
      by_cases hnil : seen = []
      · rw [hnil]
        exact List.forall_mem_nil _
      · exact absurd hstops (hstop.first [] List.nil_prefix fun h => hnil h.symm)
  · obtain ⟨last, walk, hstop, hvisited, hlength, hresult⟩ :=
      commitsBetween_stops htarget hsource hproper
    have hrange := hvisited.isRange_iff hstop hlength
    constructor
    · rintro ⟨result, hwalk, hisRange⟩ seen hstop'
      rw [hresult] at hwalk
      obtain rfl := Option.some.inj hwalk
      rw [← hstop.unique hstop']
      exact hrange.mp hisRange
    · exact fun hknown => ⟨_, hresult, hrange.mpr (hknown last hstop)⟩

end

/-! ## Commits of one second -/

/-- Four commits of one second and an older one: 3 has the parents 0 and 4, and 2 leads to 0 by way
of 1. -/
def takenBack : History Nat where
  commits := [0, 1, 2, 3, 4]
  parents c := if c = 3 then [0, 4] else if c = 2 then [1] else if c = 1 then [0] else []
  date c := if c = 4 then 0 else 1
  closed := by decide
  dated := by
    intro c p hp
    have hlate : c ≠ 4 := by
      rintro rfl
      cases hp
    rw [if_neg hlate]
    split_ifs <;> decide

/-- What 2 reaches. -/
private theorem excluded_takenBack {c : Nat} (h : Excluded takenBack (some 2) c) : c ∈ [2, 1, 0] := by
  obtain ⟨s, ⟨⟩, hreaches⟩ := h
  have hparents : ∀ c ∈ [2, 1, 0], ∀ p ∈ takenBack.parents c, p ∈ [2, 1, 0] := by decide
  induction hreaches with
  | refl => decide
  | tail _ hp ih => exact hparents _ ih _ hp

/-- The order in which the commits are taken; 1 comes after 0. -/
private theorem dateOrder_takenBack : DateOrder takenBack (some 2) 3 [3, 2, 0, 1, 4] := by
  have hnext : ∀ {seen : List Nat} {c : Nat}, c ∈ met takenBack (some 2) 3 seen → c ∉ seen →
      (∀ d ∈ met takenBack (some 2) 3 seen, d ∈ seen ∨ takenBack.date d < takenBack.date c
        ∨ takenBack.date d = takenBack.date c ∧ (met takenBack (some 2) 3 seen).idxOf c
          ≤ (met takenBack (some 2) 3 seen).idxOf d) → IsNext takenBack (some 2) 3 seen c :=
    fun hmet hnew hfirst => ⟨⟨hmet, hnew⟩, fun d hd => (hfirst d hd.1).resolve_left hd.2⟩
  have h₁ := DateOrder.snoc .nil (@hnext [] 3 (by decide) (by decide) (by decide))
  have h₂ := DateOrder.snoc h₁ (@hnext [3] 2 (by decide) (by decide) (by decide))
  have h₃ := DateOrder.snoc h₂ (@hnext [3, 2] 0 (by decide) (by decide) (by decide))
  have h₄ := DateOrder.snoc h₃ (@hnext [3, 2, 0] 1 (by decide) (by decide) (by decide))
  exact DateOrder.snoc h₄ (@hnext [3, 2, 0, 1] 4 (by decide) (by decide) (by decide))

/-- While 4 waits the walk goes on, and it finds 0. -/
private theorem knownInTime_takenBack : KnownInTime takenBack (some 2) 3 10 := by
  have hwaits : ∀ before ∈ [3, 2, 0, 1, 4].inits, before ≠ [3, 2, 0, 1, 4] → before.length < 10
      ∧ ∃ c ∈ [3, 4], c ∈ met takenBack (some 2) 3 before ∧ c ∉ before := by
    decide
  have hstop : FirstStop takenBack (some 2) 3 10 [3, 2, 0, 1, 4] := by
    refine ⟨dateOrder_takenBack, .inr fun c hc => ?_, fun before hpart hne hstops => ?_⟩
    · have hall : ∀ c ∈ met takenBack (some 2) 3 [3, 2, 0, 1, 4], c ∈ [3, 2, 0, 1, 4] := by decide
      exact absurd (hall c hc.1) hc.2
    · obtain ⟨hlength, c, hc, hmet, hnew⟩ := hwaits before ((List.mem_inits _ _).mpr hpart) hne
      rcases hstops with hlimit | hall
      · have hle : (listed takenBack (some 2) before).length ≤ before.length :=
          List.length_filter_le _ _
        omega
      · have hnone : ∀ c ∈ [3, 4], c ∉ [2, 1, 0] := by decide
        exact hnone c hc (excluded_takenBack (hall c ⟨hmet, hnew⟩).excluded)
  intro seen hseen c _ hexcluded
  rw [← hstop.unique hseen]
  have h₂ : Found takenBack (some 2) [3, 2, 0, 1, 4] 2 := .source rfl
  have h₁ : Found takenBack (some 2) [3, 2, 0, 1, 4] 1 := .parent h₂ (by decide) (by decide)
  have h₀ : Found takenBack (some 2) [3, 2, 0, 1, 4] 0 := .parent h₁ (by decide) (by decide)
  have hmem := excluded_takenBack hexcluded
  simp only [List.mem_cons, List.not_mem_nil, or_false] at hmem
  rcases hmem with rfl | rfl | rfl
  · exact h₂
  · exact h₁
  · exact h₀

/-- The walk from 2 to 3 lists 0 first and takes it back. -/
theorem commitsBetween_takenBack :
    ∃ result, commitsBetween takenBack (some 2) 3 10 = some result
      ∧ IsRange takenBack (some 2) 3 (10 : Int).toNat result :=
  (commitsBetween_isRange_iff takenBack (some 2) 3 10 (by decide) (by rintro s ⟨⟩; decide)).mpr
    knownInTime_takenBack

/-- Commits of one second: 1 and 3 have the parent 0, and 2 has the parent 1. -/
def oneSecond : History Nat where
  commits := [0, 1, 2, 3]
  parents c := if c = 2 then [1] else if c = 0 then [] else [0]
  date _ := 0
  closed := by decide
  dated _ _ _ := Int.le_refl 0

/-- The walk from 2 to 3 lists 0, which 2 reaches. -/
theorem oneSecond_shared :
    ¬∃ result, commitsBetween oneSecond (some 2) 3 10 = some result
      ∧ IsRange oneSecond (some 2) 3 (10 : Int).toNat result := by
  rintro ⟨result, hresult, hrange⟩
  have hrun : commitsBetween oneSecond (some 2) 3 10 = some [3, 0] := by decide
  rw [hrun] at hresult
  cases hresult
  have hreaches : Reaches oneSecond 2 0 :=
    (Relation.ReflTransGen.single (show 1 ∈ oneSecond.parents 2 by decide)).tail
      (show 0 ∈ oneSecond.parents 1 by decide)
  exact (hrange.wanted 0 (by decide)).2 ⟨2, rfl, hreaches⟩

end TrustPortal.Proofs.GitSources
