import TrustPortal.Proofs.GitSources.HistoryWalk

/-!
# `TrustPortal.Proofs.GitSources.DateOrder`: where the walk stops

The order in which the walk takes commits does not depend on which of them are interesting: it
takes the newest of those it has met, and among commits of one second the one it met first
(`IsNext`). So the commits it has taken are an initial part of one fixed order (`DateOrder`), and
what it knows of them is what a path from `from` through taken commits shows (`Found`).

The walk stops at the first point where it has enough commits or where it knows all commits still
to come to be uninteresting (`FirstStop`). It should know by then of every commit taken that `from`
reaches it (`KnownInTime`). A commit that it does not know of in time has the same date as each
child by which `from` reaches it (`knownInTime_of_separated`).
-/

set_option autoImplicit false

namespace TrustPortal.Proofs.GitSources

open TrustPortal.GitSources

section
variable {α : Type} [DecidableEq α]

/-! ## The order -/

/-- The commits met once those in `seen` are taken, in the order in which they are met. -/
def met (history : History α) (source : Option α) (target : α) (seen : List α) : List α :=
  target :: source.toList ++ seen.flatMap history.parents

/-- A commit that has been met and not been taken. -/
def Waits (history : History α) (source : Option α) (target : α) (seen : List α) (c : α) : Prop :=
  c ∈ met history source target seen ∧ c ∉ seen

/-- The newest commit that waits; of those of one second the one that was met first. -/
structure IsNext (history : History α) (source : Option α) (target : α) (seen : List α) (c : α) :
    Prop where
  waits : Waits history source target seen c
  first : ∀ d, Waits history source target seen d → history.date d < history.date c
    ∨ history.date d = history.date c
      ∧ (met history source target seen).idxOf c ≤ (met history source target seen).idxOf d

/-- The first commits of the order by date. -/
inductive DateOrder (history : History α) (source : Option α) (target : α) : List α → Prop
  | nil : DateOrder history source target []
  | snoc {seen : List α} {c : α} (h : DateOrder history source target seen)
      (hnext : IsNext history source target seen c) : DateOrder history source target (seen ++ [c])

/-- `from` reaches the commit by way of commits that are taken. -/
inductive Found (history : History α) (source : Option α) (seen : List α) : α → Prop
  | source {c : α} (h : source = some c) : Found history source seen c
  | parent {c p : α} (h : Found history source seen c) (hseen : c ∈ seen)
      (hparent : p ∈ history.parents c) : Found history source seen p

open Classical in
/-- The commits taken that are not found to be reached by `from`. -/
noncomputable def listed (history : History α) (source : Option α) (seen : List α) : List α :=
  seen.filter fun c => ¬Found history source seen c

/-- Enough commits are listed, or all that wait are found. -/
def Stops (history : History α) (source : Option α) (target : α) (limit : Nat) (seen : List α) :
    Prop :=
  limit ≤ (listed history source seen).length
    ∨ ∀ c, Waits history source target seen c → Found history source seen c

/-- The first point at which the walk stops. -/
structure FirstStop (history : History α) (source : Option α) (target : α) (limit : Nat)
    (seen : List α) : Prop where
  order : DateOrder history source target seen
  stops : Stops history source target limit seen
  first : ∀ before, before <+: seen → before ≠ seen → ¬Stops history source target limit before

/-- At the first stop every commit taken that `from` reaches is found. -/
def KnownInTime (history : History α) (source : Option α) (target : α) (limit : Nat) : Prop :=
  ∀ seen, FirstStop history source target limit seen →
    ∀ c ∈ seen, Excluded history source c → Found history source seen c

/-- Of every commit that both ends reach, `from` reaches a child that is dated later, unless it is
`from` itself. -/
def Separated (history : History α) (source : Option α) (target : α) : Prop :=
  ∀ c, Reaches history target c → Excluded history source c → source ≠ some c →
    ∃ child, Excluded history source child ∧ c ∈ history.parents child
      ∧ history.date c < history.date child

variable {history : History α} {source : Option α} {target : α} {limit : Nat}
  {seen seen' : List α} {c d p x : α}

omit [DecidableEq α] in
theorem met_snoc (history : History α) (source : Option α) (target : α) (seen : List α) (c : α) :
    met history source target (seen ++ [c]) = met history source target seen ++ history.parents c := by
  rw [met, met, List.flatMap_append, List.flatMap_singleton, List.append_assoc]

/-- Only one commit is next. -/
theorem IsNext.unique (h : IsNext history source target seen c)
    (h' : IsNext history source target seen d) : c = d := by
  have hle := h.first d h'.waits
  have hge := h'.first c h.waits
  refine (List.idxOf_inj h.waits.1).mp ?_
  omega

/-- An initial part of the order. -/
theorem DateOrder.take (h : DateOrder history source target seen) (n : Nat) :
    DateOrder history source target (seen.take n) := by
  induction h with
  | nil => rw [List.take_nil]; exact .nil
  | @snoc seen c h hnext ih =>
    by_cases hn : n ≤ seen.length
    · rw [List.take_append_of_le_length hn]
      exact ih
    · rw [List.take_of_length_le (by rw [List.length_append, List.length_singleton]; omega)]
      exact .snoc h hnext

/-- There is one order. -/
theorem DateOrder.unique (h : DateOrder history source target seen)
    (h' : DateOrder history source target seen') (hlength : seen.length = seen'.length) :
    seen = seen' := by
  induction h generalizing seen' with
  | nil => exact (List.length_eq_zero_iff.mp hlength.symm).symm
  | @snoc seen c _ hnext ih =>
    cases h' with
    | nil => simp at hlength
    | @snoc other d h' hnext' =>
      obtain rfl := ih h' (by simpa using hlength)
      rw [hnext.unique hnext']

/-- The walk stops first at one point. -/
theorem FirstStop.unique (h : FirstStop history source target limit seen)
    (h' : FirstStop history source target limit seen') : seen = seen' := by
  have hshorter : ∀ {a b : List α}, FirstStop history source target limit a →
      FirstStop history source target limit b → a.length ≤ b.length → a = b := by
    intro a b ha hb hle
    have hpart : a = b.take a.length :=
      ha.order.unique (hb.order.take _) (by rw [List.length_take, Nat.min_eq_left hle])
    by_contra hne
    exact hb.first a (hpart ▸ List.take_prefix _ _) hne ha.stops
  rcases Nat.le_total seen.length seen'.length with hle | hle
  · exact hshorter h h' hle
  · exact (hshorter h' h hle).symm

omit [DecidableEq α] in
theorem Found.mono (h : Found history source seen c) (hsub : ∀ x ∈ seen, x ∈ seen') :
    Found history source seen' c := by
  induction h with
  | source h => exact .source h
  | parent _ hseen hparent ih => exact .parent ih (hsub _ hseen) hparent

omit [DecidableEq α] in
theorem Found.excluded (h : Found history source seen c) : Excluded history source c := by
  induction h with
  | source h => exact ⟨_, h, .refl⟩
  | parent _ _ hparent ih =>
    obtain ⟨s, hs, hreaches⟩ := ih
    exact ⟨s, hs, hreaches.tail hparent⟩

/-! ## Dates that differ -/

/-- No commit that waits is newer than one that is taken. -/
theorem DateOrder.newest (h : DateOrder history source target seen) :
    ∀ c ∈ seen, ∀ x, Waits history source target seen x → history.date x ≤ history.date c := by
  induction h with
  | nil => exact List.forall_mem_nil _
  | @snoc seen n _ hnext ih =>
    intro c hc x hx
    have hold : ∀ y, Waits history source target seen y → history.date y ≤ history.date c := by
      intro y hy
      rcases List.mem_append.mp hc with hc | hc
      · exact ih c hc y hy
      · rw [List.mem_singleton.mp hc]
        have hfirst := hnext.first y hy
        omega
    obtain ⟨hmet, hnot⟩ := hx
    rw [met_snoc, List.mem_append] at hmet
    rcases hmet with hmet | hparent
    · exact hold x ⟨hmet, fun hmem => hnot (List.mem_append_left _ hmem)⟩
    · exact Int.le_trans (history.dated n x hparent) (hold n hnext.waits)

/-- A commit that `from` reaches and that is newer than one taken is found, and taken. -/
private theorem DateOrder.found (h : DateOrder history source target seen) (hc : c ∈ seen)
    (hexcluded : Excluded history source x) (hdate : history.date c < history.date x) :
    Found history source seen x ∧ x ∈ seen := by
  obtain ⟨s, hs, hreaches⟩ := hexcluded
  have htaken : ∀ y, y ∈ met history source target seen → history.date c < history.date y →
      y ∈ seen := by
    intro y hmet hy
    by_contra hnot
    have hle := h.newest c hc y ⟨hmet, hnot⟩
    omega
  induction hreaches with
  | refl =>
    refine ⟨.source hs, htaken s ?_ hdate⟩
    rw [met, hs]
    exact List.mem_append_left _ (List.mem_cons_of_mem _ List.mem_cons_self)
  | @tail y z _ hz ih =>
    obtain ⟨hfound, hseen⟩ := ih (Int.lt_of_lt_of_le hdate (history.dated y z hz))
    refine ⟨.parent hfound hseen hz, htaken z ?_ hdate⟩
    exact List.mem_append_right _ (List.mem_flatMap.mpr ⟨y, hseen, hz⟩)

/-- A commit taken that `to` does not reach is found. -/
theorem DateOrder.reached (h : DateOrder history source target seen) :
    ∀ c ∈ seen, Reaches history target c ∨ Found history source seen c := by
  have hmet : ∀ {seen : List α}, (∀ c ∈ seen, Reaches history target c ∨ Found history source seen c) →
      ∀ c ∈ met history source target seen, Reaches history target c ∨ Found history source seen c := by
    intro seen hseen c hc
    rw [met, List.mem_append, List.mem_cons] at hc
    rcases hc with (rfl | hsource) | hparent
    · exact .inl .refl
    · exact .inr (.source (Option.mem_toList.mp hsource))
    · obtain ⟨child, hchild, hparent⟩ := List.mem_flatMap.mp hparent
      rcases hseen child hchild with hreached | hfound
      · exact .inl (hreached.tail hparent)
      · exact .inr (.parent hfound hchild hparent)
  induction h with
  | nil => exact List.forall_mem_nil _
  | @snoc seen n _ hnext ih =>
    intro c hc
    have hold : Reaches history target c ∨ Found history source seen c := by
      rcases List.mem_append.mp hc with hc | hc
      · exact ih c hc
      · rw [List.mem_singleton.mp hc]
        exact hmet ih n hnext.waits.1
    exact hold.imp_right fun hfound => hfound.mono fun x => List.mem_append_left _

/-- A later child is enough to find a shared commit in time. -/
theorem knownInTime_of_separated (h : Separated history source target) (limit : Nat) :
    KnownInTime history source target limit := by
  intro seen hstop c hc hexcluded
  rcases hstop.order.reached c hc with hreached | hfound
  · by_cases hsource : source = some c
    · exact .source hsource
    · obtain ⟨child, hchild, hparent, hdate⟩ := h c hreached hexcluded hsource
      obtain ⟨hfound, hseen⟩ := hstop.order.found hc hchild hdate
      exact .parent hfound hseen hparent
  · exact hfound

end

end TrustPortal.Proofs.GitSources
