import Mathlib.Algebra.BigOperators.Group.List.Basic
import Mathlib.Algebra.GroupWithZero.Nat
import TrustPortal.DecisionLog.Budget
import TrustPortal.Lib.Run

/-!
# `TrustPortal.Proofs.DecisionLog.Budget`: the import budget under every schedule

`Effect` says what one step of a call does to the budget. It takes the charge and leaves the queue
(the call was first in the queue, or the queue was empty), it leaves the queue with nothing taken,
or it waits. `loop_effect` and `acquire_effect` derive it from the two functions of the source.

`Sound` is the invariant at each point where the lock is given back, and `budget_run` the main
result. The queue is compared without the notification flags, which a step of another call sets:
`ImportBudget.calls`. `budget_wakes_head` adds that no wake-up is lost, and `slots_run` that the
threads of `import_slot` return exactly the charges they took.
-/

set_option autoImplicit false

namespace TrustPortal.Proofs.DecisionLog

open TrustPortal.Lib
open TrustPortal.DecisionLog

/-! ## The queue of a budget -/

/-- What a ticket asks for: its number, its charge and its deadline. -/
def call (ticket : Ticket) : Nat × Nat × Option Int :=
  (ticket.number, ticket.charge, ticket.deadline)

/-- The waiting calls, in the order of the queue. -/
def calls (budget : ImportBudget) : List (Nat × Nat × Option Int) := budget.waiting.map call

/-- The waiting calls but one. -/
def callsBut (number : Nat) (budget : ImportBudget) : List (Nat × Nat × Option Int) :=
  (calls budget).filter fun other => other.1 ≠ number

/-- The numbers of the waiting calls. -/
def numbers (budget : ImportBudget) : List Nat := (calls budget).map Prod.fst

section
variable {budget after : ImportBudget} {number charge : Nat}

@[simp] theorem calls_notifyAll (budget : ImportBudget) : calls budget.notifyAll = calls budget := by
  simp only [calls, ImportBudget.notifyAll, List.map_map]
  rfl

@[simp] theorem calls_take (budget : ImportBudget) (charge : Nat) :
    calls (budget.take charge) = calls budget := rfl

@[simp] theorem calls_release (budget : ImportBudget) (charge : Nat) :
    calls (budget.release charge) = calls budget := calls_notifyAll _

@[simp] theorem calls_leave (budget : ImportBudget) (number : Nat) :
    calls (budget.leave number) = callsBut number budget := by
  simp only [ImportBudget.leave, calls_notifyAll]
  simp only [calls, callsBut, List.filter_map]
  rfl

@[simp] theorem calls_wait (budget : ImportBudget) (number : Nat) :
    calls (budget.wait number) = calls budget := by
  simp only [calls, ImportBudget.wait, List.map_map]
  apply List.map_congr_left
  intro ticket _
  simp only [Function.comp_apply]
  split <;> rfl

/-- A call that does not wait is no part of the queue. -/
theorem callsBut_of_not_mem (h : number ∉ numbers budget) : callsBut number budget = calls budget := by
  rw [callsBut, List.filter_eq_self]
  intro other hother
  rw [decide_eq_true_eq]
  rintro rfl
  exact h (List.mem_map_of_mem hother)

theorem numbers_eq (budget : ImportBudget) :
    numbers budget = budget.waiting.map Ticket.number := by
  simp only [numbers, calls, List.map_map]
  rfl

/-- The numbers of the waiting calls but one. -/
theorem numbers_callsBut (number : Nat) (budget : ImportBudget) :
    (callsBut number budget).map Prod.fst = (numbers budget).filter fun other => other ≠ number := by
  simp only [callsBut, numbers, List.filter_map]
  rfl

/-! ## One step of a call -/

/-- What one step of a call does to the budget. -/
inductive Effect (budget after : ImportBudget) (number charge : Nat) : Answer → Prop
  /-- It takes its charge: it is first in the queue, or the queue is empty. -/
  | granted (capacity : after.capacity = budget.capacity)
      (fits : budget.fits charge = true) (used : after.used = budget.used + charge)
      (first : (numbers budget).head? = some number ∨ numbers budget = [])
      (queue : calls after = callsBut number budget) : Effect budget after number charge .granted
  /-- It gives up. -/
  | refused (capacity : after.capacity = budget.capacity) (used : after.used = budget.used)
      (queue : calls after = callsBut number budget) : Effect budget after number charge .refused
  /-- It waits on. -/
  | waits (capacity : after.capacity = budget.capacity) (used : after.used = budget.used)
      (queued : number ∈ numbers budget) (queue : calls after = calls budget) : Effect budget after number charge .waits
  /-- It joins the queue at its end. -/
  | joins (deadline : Option Int) (capacity : after.capacity = budget.capacity)
      (used : after.used = budget.used) (fresh : number ∉ numbers budget)
      (queue : calls after = calls budget ++ [(number, charge, deadline)]) :
      Effect budget after number charge .waits

/-- The three ends of a turn of the loop. -/
theorem loop_effect {ticket : Ticket} (hqueued : ticket.number ∈ numbers budget) (now : Int) :
    Effect budget (budget.loop ticket now).1 ticket.number ticket.charge
      (budget.loop ticket now).2 := by
  unfold ImportBudget.loop
  split
  · split
    · exact .refused rfl rfl (calls_leave _ _)
    · exact .waits rfl rfl hqueued (calls_wait _ _)
  · rename_i hfree
    rw [not_or, not_not, Bool.not_eq_false] at hfree
    obtain ⟨hfirst, hfits⟩ := hfree
    refine .granted rfl hfits rfl (.inl ?_) (calls_leave _ _)
    rw [numbers_eq, List.head?_map, hfirst]

/-- A call that joins the queue is not granted in the same step: it did not fit, or it is not the
first one. -/
private theorem not_granted_on_arrival {deadline : Option Int} {now : Int}
    (hnew : number ∉ numbers budget)
    (hslow : ¬(budget.waiting = [] ∧ budget.fits charge = true)) :
    (ImportBudget.loop { budget with waiting := budget.waiting ++ [⟨number, charge, deadline, false⟩] }
      ⟨number, charge, deadline, false⟩ now).2 ≠ .granted := by
  unfold ImportBudget.loop
  rw [if_pos]
  · split <;> nofun
  · cases hwaiting : budget.waiting with
    | nil =>
      right
      have hfull : budget.fits charge = false := by
        rw [← Bool.not_eq_true]
        intro hfits
        exact hslow ⟨hwaiting, hfits⟩
      exact hfull
    | cons first rest =>
      left
      simp only [List.cons_append, List.head?_cons, Option.map_some, ne_eq, Option.some.injEq]
      rintro rfl
      apply hnew
      rw [numbers_eq, hwaiting]
      exact List.mem_cons_self

/-- The ends of the first step of a call. -/
theorem acquire_effect {timeout : Option Int} {start now : Int} (hnew : number ∉ numbers budget) :
    Effect budget (budget.acquire number charge timeout start now).1 number charge
      (budget.acquire number charge timeout start now).2 := by
  have hbut := callsBut_of_not_mem hnew
  unfold ImportBudget.acquire
  split
  · rename_i hfast
    refine .granted rfl hfast.2 rfl (.inr ?_) hbut.symm
    rw [numbers_eq, hfast.1, List.map_nil]
  · rename_i hslow
    split
    · exact .refused rfl rfl hbut.symm
    · -- the ticket joins the queue, and what the loop then does is seen from before that
      have hqueue : ∀ deadline : Option Int, calls { budget with
          waiting := budget.waiting ++ [⟨number, charge, deadline, false⟩] }
            = calls budget ++ [(number, charge, deadline)] := by
        intro deadline
        simp [calls, call]
      have hqueued : number ∈ numbers { budget with
          waiting := budget.waiting ++ [⟨number, charge, timeout.map (start + ·), false⟩] } := by
        simp [numbers, hqueue]
      have hloop := @loop_effect _ ⟨number, charge, timeout.map (start + ·), false⟩ hqueued now
      have hno := @not_granted_on_arrival budget number charge (timeout.map (start + ·)) now hnew hslow
      generalize ImportBudget.loop _ _ now = result at hloop hno
      obtain ⟨after, answer⟩ := result
      cases hloop with
      | granted => exact absurd rfl hno
      | refused capacity used queue =>
        refine .refused capacity used (queue.trans ?_)
        rw [callsBut, hqueue, List.filter_append, ← callsBut, hbut]
        simp
      | waits capacity used _ queue =>
        exact .joins _ capacity used hnew (queue.trans (hqueue _))
      | joins _ _ _ fresh => exact absurd hqueued fresh

end

/-! ## The invariant -/

/-- What holds at every point where the lock is given back. -/
structure Sound (capacity : Nat) (state : BudgetState) : Prop where
  capacity : state.budget.capacity = capacity
  used : state.budget.used = state.held.sum
  bounded : state.budget.used ≤ state.budget.capacity
  /-- The granted calls and the waiting ones after them are in the order of their arrival. -/
  order : (state.granted ++ numbers state.budget).Pairwise (· < ·)
  arrived : ∀ n ∈ state.granted ++ numbers state.budget ++ state.refused, n < state.arrivals
  settled : ∀ n < state.arrivals,
    n ∈ state.granted ∨ n ∈ state.refused ∨ n ∈ numbers state.budget
  gone : ∀ n ∈ state.refused, n ∉ state.granted ∧ n ∉ numbers state.budget

theorem sound_new (capacity : Nat) : Sound capacity (.new capacity) where
  capacity := rfl
  used := rfl
  bounded := Int.natCast_nonneg capacity
  order := List.Pairwise.nil
  arrived := by simp [BudgetState.new, ImportBudget.new, numbers, calls]
  settled := by simp [BudgetState.new]
  gone := by simp [BudgetState.new]

section
variable {capacity number charge arrivals : Nat} {state : BudgetState} {after : ImportBudget}
  {answer : Answer}

/-- The call of a step is a new one, or it waits. -/
def Calling (state : BudgetState) (number arrivals : Nat) : Prop :=
  (number = state.arrivals ∧ arrivals = state.arrivals + 1)
    ∨ (number ∈ numbers state.budget ∧ arrivals = state.arrivals)

theorem Calling.lt (h : Sound capacity state) (hcall : Calling state number arrivals) :
    number < arrivals ∧ state.arrivals ≤ arrivals := by
  rcases hcall with ⟨rfl, rfl⟩ | ⟨hmem, rfl⟩
  · omega
  · have := h.arrived number (by simp [hmem])
    omega

/-- A call that arrived is the one of the step, or it arrived before. -/
theorem Calling.earlier (hcall : Calling state number arrivals) {n : Nat} (hn : n < arrivals) :
    n = number ∨ n < state.arrivals := by
  rcases hcall with ⟨rfl, rfl⟩ | ⟨_, rfl⟩
  · omega
  · exact .inr hn

/-- The call of a step comes after every granted call. -/
theorem Calling.after_granted (h : Sound capacity state) (hcall : Calling state number arrivals) :
    ∀ n ∈ state.granted, n < number := by
  intro n hn
  rcases hcall with ⟨rfl, rfl⟩ | ⟨hmem, rfl⟩
  · exact h.arrived n (by simp [hn])
  · exact (List.pairwise_append.mp h.order).2.2 n hn number hmem

/-- A granted step. The call is the first one of the queue, so the others arrived later. -/
theorem sound_granted (h : Sound capacity state) (hcall : Calling state number arrivals)
    (hcapacity : after.capacity = state.budget.capacity)
    (hfits : state.budget.fits charge = true) (hused : after.used = state.budget.used + charge)
    (hfirst : (numbers state.budget).head? = some number ∨ numbers state.budget = [])
    (hqueue : calls after = callsBut number state.budget) :
    Sound capacity
      (BudgetState.answered { state with arrivals := arrivals } number charge (after, .granted)) := by
  have hnumbers : numbers after = (numbers state.budget).filter fun other => other ≠ number := by
    rw [numbers, hqueue, numbers_callsBut]
  have hsub : ∀ n ∈ numbers after, n ∈ numbers state.budget := by
    intro n hn
    rw [hnumbers] at hn
    exact (List.mem_filter.mp hn).1
  have hlater : ∀ n ∈ numbers after, number < n := by
    intro n hn
    have hmem := hsub n hn
    rw [hnumbers, List.mem_filter, decide_eq_true_eq] at hn
    rcases hfirst with hhead | hempty
    · obtain ⟨rest, hrest⟩ : ∃ rest, numbers state.budget = number :: rest := by
        cases hlist : numbers state.budget with
        | nil => simp [hlist] at hhead
        | cons first rest =>
          rw [hlist, List.head?_cons, Option.some.injEq] at hhead
          exact ⟨rest, by rw [hhead]⟩
      have horder := (List.pairwise_append.mp h.order).2.1
      rw [hrest] at horder hmem
      rcases List.mem_cons.mp hmem with heq | hin
      · exact absurd heq hn.2
      · exact (List.pairwise_cons.mp horder).1 n hin
    · rw [hempty] at hmem
      cases hmem
  have hlt := hcall.lt h
  refine ⟨hcapacity.trans h.capacity, ?_, ?_, ?_, ?_, ?_, ?_⟩
  · simp only [BudgetState.answered, hused, h.used, List.sum_cons, Int.natCast_add]
    omega
  · simp only [ImportBudget.fits, decide_eq_true_eq] at hfits
    simp only [BudgetState.answered, hused, hcapacity]
    exact hfits
  · show ((state.granted ++ [number]) ++ numbers after).Pairwise (· < ·)
    rw [List.append_assoc, List.pairwise_append]
    obtain ⟨hgranted, hwaiting, hbetween⟩ := List.pairwise_append.mp h.order
    refine ⟨hgranted, ?_, ?_⟩
    · rw [List.singleton_append, List.pairwise_cons]
      refine ⟨hlater, ?_⟩
      rw [hnumbers]
      exact hwaiting.filter _
    · intro n hn m hm
      rcases List.mem_cons.mp hm with rfl | hm
      · exact hcall.after_granted h n hn
      · exact hbetween n hn m (hsub m hm)
  · intro n hn
    simp only [BudgetState.answered, List.mem_append, List.mem_singleton] at hn ⊢
    rcases hn with ((hn | rfl) | hn) | hn
    · exact Nat.lt_of_lt_of_le (h.arrived n (by simp [hn])) hlt.2
    · exact hlt.1
    · exact Nat.lt_of_lt_of_le (h.arrived n (by simp [hsub n hn])) hlt.2
    · exact Nat.lt_of_lt_of_le (h.arrived n (by simp [hn])) hlt.2
  · intro n hn
    simp only [BudgetState.answered, List.mem_append, List.mem_singleton] at hn ⊢
    by_cases hsame : n = number
    · exact .inl (.inr hsame)
    · rcases h.settled n ((hcall.earlier hn).resolve_left hsame) with hg | hr | hw
      · exact .inl (.inl hg)
      · exact .inr (.inl hr)
      · refine .inr (.inr ?_)
        rw [hnumbers, List.mem_filter, decide_eq_true_eq]
        exact ⟨hw, hsame⟩
  · intro n hn
    simp only [BudgetState.answered, List.mem_append, List.mem_singleton] at hn ⊢
    obtain ⟨hnotGranted, hnotWaiting⟩ := h.gone n hn
    refine ⟨?_, fun hw => hnotWaiting (hsub n hw)⟩
    rintro (hg | rfl)
    · exact hnotGranted hg
    · rcases hcall with ⟨hnew, _⟩ | ⟨hmem, _⟩
      · have := h.arrived n (by simp [hn])
        omega
      · exact hnotWaiting hmem

/-- A refused step: the call leaves the queue. -/
theorem sound_refused (h : Sound capacity state) (hcall : Calling state number arrivals)
    (hcapacity : after.capacity = state.budget.capacity) (hused : after.used = state.budget.used)
    (hqueue : calls after = callsBut number state.budget) :
    Sound capacity
      (BudgetState.answered { state with arrivals := arrivals } number charge (after, .refused)) := by
  have hnumbers : numbers after = (numbers state.budget).filter fun other => other ≠ number := by
    rw [numbers, hqueue, numbers_callsBut]
  have hsub : ∀ n ∈ numbers after, n ∈ numbers state.budget ∧ n ≠ number := by
    intro n hn
    rw [hnumbers, List.mem_filter, decide_eq_true_eq] at hn
    exact hn
  have hlt := hcall.lt h
  refine ⟨hcapacity.trans h.capacity, hused.trans h.used, ?_, ?_, ?_, ?_, ?_⟩
  · simp only [BudgetState.answered, hused, hcapacity]
    exact h.bounded
  · show (state.granted ++ numbers after).Pairwise (· < ·)
    rw [hnumbers]
    exact h.order.sublist ((List.Sublist.refl _).append List.filter_sublist)
  · intro n hn
    simp only [BudgetState.answered, List.mem_append, List.mem_singleton] at hn ⊢
    rcases hn with (hn | hn) | hn | rfl
    · exact Nat.lt_of_lt_of_le (h.arrived n (by simp [hn])) hlt.2
    · exact Nat.lt_of_lt_of_le (h.arrived n (by simp [(hsub n hn).1])) hlt.2
    · exact Nat.lt_of_lt_of_le (h.arrived n (by simp [hn])) hlt.2
    · exact hlt.1
  · intro n hn
    simp only [BudgetState.answered, List.mem_append, List.mem_singleton] at hn ⊢
    by_cases hsame : n = number
    · exact .inr (.inl (.inr hsame))
    · rcases h.settled n ((hcall.earlier hn).resolve_left hsame) with hg | hr | hw
      · exact .inl hg
      · exact .inr (.inl (.inl hr))
      · refine .inr (.inr ?_)
        rw [hnumbers, List.mem_filter, decide_eq_true_eq]
        exact ⟨hw, hsame⟩
  · intro n hn
    simp only [BudgetState.answered, List.mem_append, List.mem_singleton] at hn ⊢
    rcases hn with hn | rfl
    · obtain ⟨hnotGranted, hnotWaiting⟩ := h.gone n hn
      exact ⟨hnotGranted, fun hw => hnotWaiting (hsub n hw).1⟩
    · refine ⟨fun hg => ?_, fun hw => (hsub n hw).2 rfl⟩
      have := hcall.after_granted h n hg
      omega

/-- A step that ends in a wait: the call waits on, or it joins the queue. -/
theorem sound_waits (h : Sound capacity state) (hcall : Calling state number arrivals)
    (hcapacity : after.capacity = state.budget.capacity) (hused : after.used = state.budget.used)
    (hnumbers : numbers after = numbers state.budget ∧ number ∈ numbers state.budget
      ∨ numbers after = numbers state.budget ++ [number] ∧ number ∉ numbers state.budget) :
    Sound capacity
      (BudgetState.answered { state with arrivals := arrivals } number charge (after, .waits)) := by
  have hlt := hcall.lt h
  have hmem : ∀ n, n ∈ numbers after ↔ n ∈ numbers state.budget ∨ n = number := by
    intro n
    rcases hnumbers with ⟨hsame, hin⟩ | ⟨hmore, _⟩
    · rw [hsame]
      constructor
      · exact .inl
      · rintro (hn | rfl)
        · exact hn
        · exact hin
    · rw [hmore, List.mem_append, List.mem_singleton]
  refine ⟨hcapacity.trans h.capacity, hused.trans h.used, ?_, ?_, ?_, ?_, ?_⟩
  · simp only [BudgetState.answered, hused, hcapacity]
    exact h.bounded
  · show (state.granted ++ numbers after).Pairwise (· < ·)
    rcases hnumbers with ⟨hsame, _⟩ | ⟨hmore, hnot⟩
    · rw [hsame]
      exact h.order
    · rw [hmore, ← List.append_assoc, List.pairwise_append]
      refine ⟨h.order, List.pairwise_singleton _ _, ?_⟩
      intro n hn m hm
      rw [List.mem_singleton] at hm
      subst hm
      -- a call that joins the queue has just arrived
      rcases hcall with ⟨rfl, _⟩ | ⟨hin, _⟩
      · exact h.arrived n (List.mem_append_left _ hn)
      · exact absurd hin hnot
  · intro n hn
    simp only [BudgetState.answered, List.mem_append, hmem] at hn ⊢
    rcases hn with (hn | hn | rfl) | hn
    · exact Nat.lt_of_lt_of_le (h.arrived n (by simp [hn])) hlt.2
    · exact Nat.lt_of_lt_of_le (h.arrived n (by simp [hn])) hlt.2
    · exact hlt.1
    · exact Nat.lt_of_lt_of_le (h.arrived n (by simp [hn])) hlt.2
  · intro n hn
    simp only [BudgetState.answered, hmem] at hn ⊢
    rcases hcall.earlier hn with rfl | hbefore
    · exact .inr (.inr (.inr rfl))
    · rcases h.settled n hbefore with hg | hr | hw
      · exact .inl hg
      · exact .inr (.inl hr)
      · exact .inr (.inr (.inl hw))
  · intro n hn
    simp only [BudgetState.answered, hmem] at hn ⊢
    obtain ⟨hnotGranted, hnotWaiting⟩ := h.gone n hn
    refine ⟨hnotGranted, ?_⟩
    rintro (hw | rfl)
    · exact hnotWaiting hw
    · rcases hcall with ⟨hnew, _⟩ | ⟨hin, _⟩
      · have := h.arrived n (by simp [hn])
        omega
      · exact hnotWaiting hin

/-- Every step of a call keeps the invariant. -/
theorem sound_answered (h : Sound capacity state) (hcall : Calling state number arrivals)
    (heffect : Effect state.budget after number charge answer) :
    Sound capacity
      (BudgetState.answered { state with arrivals := arrivals } number charge (after, answer)) := by
  cases heffect with
  | granted hcapacity hfits hused hfirst hqueue =>
    exact sound_granted h hcall hcapacity hfits hused hfirst hqueue
  | refused hcapacity hused hqueue => exact sound_refused h hcall hcapacity hused hqueue
  | waits hcapacity hused hqueued hqueue =>
    have hsame : numbers after = numbers state.budget := by rw [numbers, hqueue, numbers]
    exact sound_waits h hcall hcapacity hused (.inl ⟨hsame, hqueued⟩)
  | joins deadline hcapacity hused hfresh hqueue =>
    have hmore : numbers after = numbers state.budget ++ [number] := by
      rw [numbers, hqueue, List.map_append, numbers]
      rfl
    exact sound_waits h hcall hcapacity hused (.inr ⟨hmore, hfresh⟩)

/-- A new call has a number that no waiting call has. -/
theorem fresh_number (h : Sound capacity state) : state.arrivals ∉ numbers state.budget := by
  intro hmem
  have := h.arrived state.arrivals (by simp [hmem])
  omega

/-- The number of a waiting call. -/
theorem ticket_spec {ticket : Ticket} (h : state.ticket number = some ticket) :
    ticket.number = number ∧ number ∈ numbers state.budget := by
  have hnumber : ticket.number = number := by simpa [BudgetState.ticket] using List.find?_some h
  refine ⟨hnumber, ?_⟩
  rw [numbers_eq, ← hnumber]
  exact List.mem_map_of_mem (List.mem_of_find?_eq_some h)

/-! ## Steps and runs -/

/-- A step of a call is an `Effect`. A wake-up of a call that does not wait is no step. -/
theorem step_of_caller (h : Sound capacity state) {event : BudgetEvent}
    (hcaller : state.caller event = some number) :
    state.step event = state ∨ ∃ arrivals charge after answer,
      Calling state number arrivals ∧ Effect state.budget after number charge answer
        ∧ state.step event
          = BudgetState.answered { state with arrivals := arrivals } number charge (after, answer) := by
  cases event with
  | acquire charge timeout start now =>
    cases hcaller
    exact .inr ⟨_, charge, _, _, .inl ⟨rfl, rfl⟩, acquire_effect (fresh_number h), rfl⟩
  | wake other now =>
    cases hcaller
    cases hticket : state.ticket number with
    | none => exact .inl (by simp [BudgetState.step, hticket])
    | some ticket =>
      obtain ⟨rfl, hqueued⟩ := ticket_spec hticket
      exact .inr ⟨_, ticket.charge, _, _, .inr ⟨hqueued, rfl⟩, loop_effect hqueued now,
        by simp [BudgetState.step, hticket]⟩
  | release => cases hcaller

/-- A release of a held charge keeps the invariant. -/
theorem sound_release (h : Sound capacity state) (hheld : charge ∈ state.held) :
    Sound capacity (state.step (.release charge)) := by
  have hnumbers : numbers (state.budget.release charge) = numbers state.budget := by
    simp [numbers]
  have hsum := List.sum_erase hheld
  have hused : (state.budget.release charge).used = (state.held.erase charge).sum := by
    show state.budget.used - charge = _
    rw [h.used]
    omega
  refine ⟨h.capacity, hused, ?_, ?_, ?_, ?_, ?_⟩
  · have hbounded := h.bounded
    show state.budget.used - charge ≤ state.budget.capacity
    omega
  · simpa only [BudgetState.step, hnumbers] using h.order
  · simpa only [BudgetState.step, hnumbers] using h.arrived
  · simpa only [BudgetState.step, hnumbers] using h.settled
  · simpa only [BudgetState.step, hnumbers] using h.gone

/-- Every step keeps the invariant. -/
theorem sound_step (h : Sound capacity state) {event : BudgetEvent} (hmatched : Matched state event) :
    Sound capacity (state.step event) := by
  cases hcaller : state.caller event with
  | some number =>
    rcases step_of_caller h hcaller with hsame | ⟨arrivals, charge, after, answer, hcall, heffect, hstep⟩
    · rw [hsame]
      exact h
    · rw [hstep]
      exact sound_answered h hcall heffect
  | none =>
    cases event with
    | acquire => cases hcaller
    | wake => cases hcaller
    | release charge => exact sound_release h hmatched

/-- Every run keeps the invariant. -/
theorem sound_run (h : Sound capacity state) {events : List BudgetEvent}
    (hrun : Along BudgetState.step Matched state events) :
    Sound capacity (events.foldl BudgetState.step state) :=
  @run_invariant _ _ BudgetState.step Matched (Sound capacity)
    (fun _ _ hs hok => sound_step hs hok) state events hrun h

/-- What a call that is not granted leaves of the budget: the bytes in use, the other waiting calls
in their order, the charges held and the calls that were granted. -/
def leaves (number : Nat) (state : BudgetState) :
    Int × List (Nat × Nat × Option Int) × List Nat × List Nat :=
  (state.budget.used, callsBut number state.budget, state.held, state.granted)

/-- No step of a call changes what it leaves, unless the call is granted. -/
theorem leaves_step (h : Sound capacity state) {event : BudgetEvent}
    (hcaller : state.caller event = some number) (hnot : number ∉ (state.step event).granted) :
    leaves number (state.step event) = leaves number state := by
  rcases step_of_caller h hcaller with hsame | ⟨arrivals, charge, after, answer, _, heffect, hstep⟩
  · rw [hsame]
  · rw [hstep] at hnot ⊢
    cases heffect with
    | granted => simp [BudgetState.answered] at hnot
    | refused _ hused hqueue =>
      simp [leaves, BudgetState.answered, hused, callsBut, hqueue]
    | waits _ hused _ hqueue => simp [leaves, BudgetState.answered, hused, callsBut, hqueue]
    | joins _ _ hused _ hqueue => simp [leaves, BudgetState.answered, hused, callsBut, hqueue]

end

/-- The import budget, in every run of calls, wake-ups, time-outs and releases whose releases each
return the charge of one successful acquire. The bytes in use are the charges held, and between 0
and the capacity. Calls are granted in the order of their arrival, and a call that waits arrived
after all of them. Every call was granted, was refused or waits. A call that is refused is out of
the queue, and none of its steps changed what it leaves. -/
theorem budget_run (capacity : Nat) (events : List BudgetEvent)
    (hrun : Along BudgetState.step Matched (.new capacity) events) :
    let state := events.foldl BudgetState.step (.new capacity)
    (0 ≤ state.budget.used ∧ state.budget.used ≤ capacity)
    ∧ state.budget.used = state.held.sum
    ∧ (state.granted ++ numbers state.budget).Pairwise (· < ·)
    ∧ (∀ n, n < state.arrivals ↔
        n ∈ state.granted ∨ n ∈ state.refused ∨ n ∈ numbers state.budget)
    ∧ (∀ n ∈ state.refused, n ∉ state.granted ∧ n ∉ numbers state.budget)
    ∧ (∀ event n, state.caller event = some n → n ∉ (state.step event).granted →
        leaves n (state.step event) = leaves n state) := by
  intro state
  have h : Sound capacity state := sound_run (sound_new capacity) hrun
  refine ⟨⟨?_, ?_⟩, h.used, h.order, ?_, h.gone, ?_⟩
  · rw [h.used]
    exact Int.natCast_nonneg _
  · rw [← h.capacity]
    exact h.bounded
  · intro n
    refine ⟨h.settled n, ?_⟩
    intro hn
    apply h.arrived n
    simp only [List.mem_append]
    tauto
  · intro event n hcaller hnot
    exact leaves_step h hcaller hnot

/-- `budget_run` at a run of three calls for a budget of 10 bytes. The first one takes 8, the
second one waits for 4 and gives up, the third one waits for 2 behind it and is then granted. -/
theorem budget_run_three :
    let events : List BudgetEvent := [.acquire 8 none 0 0, .acquire 4 (some 5) 0 0,
      .acquire 2 none 1 1, .wake 1 6, .wake 2 7, .release 8]
    let state := events.foldl BudgetState.step (.new 10)
    state.budget.used = 2 ∧ state.granted = [0, 2] ∧ state.refused = [1]
      ∧ state.budget.used = state.held.sum := by
  intro events state
  have hrun : Along BudgetState.step Matched (.new 10) events := by
    simp only [events, Along, Matched, and_true, true_and]
    decide +kernel
  refine ⟨by decide +kernel, by decide +kernel, by decide +kernel, ?_⟩
  exact (budget_run 10 events hrun).2.1

/-! ## Wake-ups -/

/-- The first waiting call, once its charge fits, was notified since it began to wait. -/
def Woken (budget : ImportBudget) : Prop :=
  ∀ ticket, budget.waiting.head? = some ticket → budget.fits ticket.charge = true →
    ticket.notified = true

theorem woken_notifyAll (budget : ImportBudget) : Woken budget.notifyAll := by
  intro ticket hhead _
  simp only [ImportBudget.notifyAll, List.head?_map, Option.map_eq_some_iff] at hhead
  obtain ⟨first, _, rfl⟩ := hhead
  rfl

/-- A call begins to wait: if it is the first one, its charge does not fit. -/
theorem woken_wait {budget : ImportBudget} {number : Nat} (h : Woken budget)
    (hfirst : ∀ ticket, budget.waiting.head? = some ticket → ticket.number = number →
      budget.fits ticket.charge = false) : Woken (budget.wait number) := by
  intro ticket hhead hfits
  simp only [ImportBudget.wait, List.head?_map, Option.map_eq_some_iff] at hhead
  obtain ⟨first, hhead, heq⟩ := hhead
  split at heq
  · rename_i hnumber
    subst heq
    have hsame : budget.fits first.charge = true := hfits
    rw [hfirst first hhead hnumber] at hsame
    cases hsame
  · subst heq
    exact h first hhead hfits

/-- A turn of the loop loses no wake-up. -/
theorem woken_loop {budget : ImportBudget} {ticket : Ticket} {now : Int} (h : Woken budget)
    (hfirst : ∀ first, budget.waiting.head? = some first → first.number = ticket.number →
      first.charge = ticket.charge) : Woken (budget.loop ticket now).1 := by
  unfold ImportBudget.loop
  split
  · rename_i hblocked
    split
    · exact woken_notifyAll _
    · apply woken_wait h
      intro first hhead hnumber
      rcases hblocked with hother | hfull
      · rw [hhead, Option.map_some, hnumber] at hother
        exact absurd rfl hother
      · rw [hfirst first hhead hnumber]
        exact hfull
  · exact woken_notifyAll _

/-- No step loses a wake-up: in every run, a first waiting call whose charge fits was notified. -/
theorem budget_wakes_head (capacity : Nat) (events : List BudgetEvent)
    (hrun : Along BudgetState.step Matched (.new capacity) events) :
    Woken (events.foldl BudgetState.step (.new capacity)).budget := by
  have hstep : ∀ state event, Sound capacity state ∧ Woken state.budget → Matched state event →
      Sound capacity (state.step event) ∧ Woken (state.step event).budget := by
    rintro state event ⟨h, hwoken⟩ hmatched
    refine ⟨sound_step h hmatched, ?_⟩
    have hbudget : ∀ state' number charge (result : ImportBudget × Answer),
        (BudgetState.answered state' number charge result).budget = result.1 := by
      intro state' number charge result
      unfold BudgetState.answered
      split <;> rfl
    cases event with
    | acquire charge timeout start now =>
      simp only [BudgetState.step, hbudget]
      unfold ImportBudget.acquire
      split
      · rename_i hfast
        intro ticket hhead
        simp [ImportBudget.take, hfast.1] at hhead
      · rename_i hslow
        split
        · exact hwoken
        · -- the queue has a first call already, or the new one is the first and does not fit
          cases hwaiting : state.budget.waiting with
          | nil =>
            have hfull : ¬state.budget.fits charge = true := fun hfits => hslow ⟨hwaiting, hfits⟩
            apply woken_loop
            · intro ticket hhead hfits
              cases hhead
              exact absurd hfits hfull
            · intro first hhead _
              cases hhead
              rfl
          | cons first rest =>
            have hfresh := fresh_number h
            rw [numbers_eq, hwaiting] at hfresh
            apply woken_loop
            · intro ticket hhead hfits
              apply hwoken ticket _ hfits
              simpa [hwaiting] using hhead
            · intro other hhead hnumber
              simp only [List.cons_append, List.head?_cons, Option.some.injEq] at hhead
              subst hhead
              refine absurd ?_ hfresh
              rw [show state.arrivals = first.number from hnumber.symm]
              exact List.mem_cons_self
    | wake number now =>
      simp only [BudgetState.step]
      cases hticket : state.ticket number with
      | none => exact hwoken
      | some ticket =>
        simp only [hbudget]
        apply woken_loop hwoken
        intro first hhead hnumber
        obtain ⟨rfl, _⟩ := ticket_spec hticket
        -- the first call has the number, so it is the one that was found
        cases hwaiting : state.budget.waiting with
        | nil => simp [hwaiting] at hhead
        | cons head rest =>
          rw [hwaiting, List.head?_cons, Option.some.injEq] at hhead
          subst hhead
          rw [BudgetState.ticket, hwaiting, List.find?_cons, hnumber] at hticket
          simp only [decide_true, Option.some.injEq] at hticket
          rw [hticket]
    | release charge => exact woken_notifyAll _
  have hnew : Woken (BudgetState.new capacity).budget := by
    intro ticket hhead
    cases hhead
  exact (@run_invariant _ _ BudgetState.step Matched
    (fun state => Sound capacity state ∧ Woken state.budget)
    (fun state event hs hok => hstep state event hs hok) (.new capacity) events hrun
    ⟨sound_new capacity, hnew⟩).2

/-! ## `import_slot` -/

/-- The charges held are those of the threads inside `import_slot`. A thread is inside once, and a
thread that waits is not inside. -/
structure SlotsHeld (slots : SlotState) : Prop where
  held : slots.state.held.Perm (slots.slots.map Slot.charge)
  once : (slots.slots.map Slot.thread).Nodup
  outside : ∀ waits ∈ slots.pending, waits.1 ∉ slots.slots.map Slot.thread

section
variable {slots : SlotState} {event : SlotEvent}

/-- The thread's call ends: it is inside, it is not, or it waits. -/
theorem slotsHeld_answered {thread number charge : Nat} {state : BudgetState}
    {result : ImportBudget × Answer} (h : SlotsHeld slots)
    (hheld : state.held = slots.state.held)
    (houtside : thread ∉ slots.slots.map Slot.thread) :
    SlotsHeld (slots.answered thread number charge (state.answered number charge result) result.2) := by
  obtain ⟨after, answer⟩ := result
  have hothers : ∀ waits ∈ slots.pending.filter fun waits => waits.1 ≠ thread,
      waits ∈ slots.pending ∧ waits.1 ≠ thread := by
    intro waits hwaits
    rwa [List.mem_filter, decide_eq_true_eq] at hwaits
  cases answer with
  | granted =>
    refine ⟨?_, List.nodup_cons.mpr ⟨houtside, h.once⟩, ?_⟩
    · show (charge :: state.held).Perm (charge :: slots.slots.map Slot.charge)
      rw [hheld]
      exact h.held.cons charge
    · intro waits hwaits
      obtain ⟨hmem, hne⟩ := hothers waits hwaits
      show waits.1 ∉ thread :: slots.slots.map Slot.thread
      rw [List.mem_cons, not_or]
      exact ⟨hne, h.outside waits hmem⟩
  | refused =>
    refine ⟨?_, h.once, fun waits hwaits => h.outside waits (hothers waits hwaits).1⟩
    show state.held.Perm _
    rw [hheld]
    exact h.held
  | waits =>
    refine ⟨?_, h.once, ?_⟩
    · show state.held.Perm _
      rw [hheld]
      exact h.held
    · intro waits hwaits
      rcases List.mem_cons.mp hwaits with rfl | hwaits
      · exact houtside
      · exact h.outside waits (hothers waits hwaits).1

/-- Changing how often a block was entered changes neither the threads nor their charges. -/
theorem slotsHeld_nested (h : SlotsHeld slots) (thread : Nat) (count : Slot → Nat) :
    SlotsHeld { slots with slots := slots.slots.map fun slot =>
      if slot.thread = thread then { slot with held := count slot } else slot } := by
  have hmap : ∀ {α : Type} (f : Slot → α), (∀ slot n, f { slot with held := n } = f slot) →
      (slots.slots.map fun slot =>
        if slot.thread = thread then { slot with held := count slot } else slot).map f
        = slots.slots.map f := by
    intro α f hf
    rw [List.map_map]
    apply List.map_congr_left
    intro slot _
    simp only [Function.comp_apply]
    split
    · exact hf slot _
    · rfl
  refine ⟨?_, ?_, ?_⟩
  · rw [hmap Slot.charge fun _ _ => rfl]
    exact h.held
  · rw [hmap Slot.thread fun _ _ => rfl]
    exact h.once
  · rw [hmap Slot.thread fun _ _ => rfl]
    exact h.outside

/-- The thread that is found has its own block. -/
theorem slot_spec {thread : Nat} {slot : Slot} (h : slots.slot thread = some slot) :
    slot.thread = thread ∧ slot ∈ slots.slots :=
  ⟨by simpa [SlotState.slot] using List.find?_some h, List.mem_of_find?_eq_some h⟩

/-- The blocks of the other threads. -/
private theorem perm_others : ∀ {blocks : List Slot} {slot : Slot},
    (blocks.map Slot.thread).Nodup → slot ∈ blocks →
    (blocks.map Slot.charge).Perm (slot.charge
      :: (blocks.filter fun other => other.thread ≠ slot.thread).map Slot.charge) := by
  intro blocks slot honce hmem
  induction blocks with
  | nil => cases hmem
  | cons first rest ih =>
    rw [List.map_cons, List.nodup_cons] at honce
    rcases List.mem_cons.mp hmem with rfl | hin
    · -- no other block is the thread's
      have hrest : rest.filter (fun other => other.thread ≠ slot.thread) = rest := by
        rw [List.filter_eq_self]
        intro other hother
        rw [decide_eq_true_eq]
        intro heq
        exact honce.1 (heq ▸ List.mem_map_of_mem hother)
      rw [List.filter_cons_of_neg (by simp), hrest, List.map_cons]
    · have hne : first.thread ≠ slot.thread := by
        intro heq
        exact honce.1 (heq ▸ List.mem_map_of_mem hin)
      rw [List.filter_cons_of_pos (by simpa using hne), List.map_cons, List.map_cons]
      exact ((ih honce.2 hin).cons first.charge).trans (List.Perm.swap _ _ _)

/-- Every step of a thread keeps the charges, and a release of it is one of a held charge. -/
theorem slotsHeld_step (h : SlotsHeld slots) (event : SlotEvent) :
    SlotsHeld (slots.step event).1 ∧ match (slots.step event).2 with
      | none => (slots.step event).1.state = slots.state
      | some made => Matched slots.state made ∧ (slots.step event).1.state = slots.state.step made := by
  have hstate : ∀ thread number charge state answer,
      (slots.answered thread number charge state answer).state = state := by
    intro thread number charge state answer
    unfold SlotState.answered
    split <;> rfl
  cases event with
  | enter thread timeout size start now =>
    simp only [SlotState.step]
    split
    · exact ⟨h, rfl⟩
    · split
      · exact ⟨slotsHeld_nested h thread _, rfl⟩
      · rename_i hnone
        have houtside : thread ∉ slots.slots.map Slot.thread := by
          intro hmem
          obtain ⟨slot, hslot, hthread⟩ := List.mem_map.mp hmem
          have := List.find?_eq_none.mp hnone slot hslot
          simp [hthread] at this
        exact ⟨slotsHeld_answered h rfl houtside, trivial, hstate _ _ _ _ _⟩
  | wake thread now =>
    simp only [SlotState.step]
    split
    · exact ⟨h, rfl⟩
    · rename_i waits number hfound
      have hthread : waits = thread := by simpa using List.find?_some hfound
      have houtside := h.outside _ (List.mem_of_find?_eq_some hfound)
      simp only at houtside
      split
      · exact ⟨h, rfl⟩
      · rename_i ticket hticket
        have hanswered : slots.state.step (.wake number now)
            = slots.state.answered number ticket.charge (slots.state.budget.loop ticket now) := by
          simp [BudgetState.step, hticket]
        refine ⟨?_, trivial, hstate _ _ _ _ _⟩
        rw [hanswered]
        exact slotsHeld_answered h rfl (hthread ▸ houtside)
  | exit thread =>
    simp only [SlotState.step]
    split
    · exact ⟨h, rfl⟩
    · rename_i slot hslot
      obtain ⟨hthread, hmem⟩ := slot_spec hslot
      subst hthread
      split
      · have hperm := h.held.trans (perm_others h.once hmem)
        have hheld : slot.charge ∈ slots.state.held := hperm.mem_iff.mpr List.mem_cons_self
        refine ⟨⟨?_, ?_, ?_⟩, hheld, rfl⟩
        · show (slots.state.held.erase slot.charge).Perm _
          have := hperm.erase slot.charge
          rwa [List.erase_cons_head] at this
        · exact h.once.sublist (List.filter_sublist.map _)
        · intro waits hwaits hin
          obtain ⟨other, hother, heq⟩ := List.mem_map.mp hin
          exact h.outside waits hwaits (heq ▸ List.mem_map_of_mem (List.mem_of_mem_filter hother))
      · exact ⟨slotsHeld_nested h slot.thread _, rfl⟩

end

/-- The threads of a process: in every run their blocks keep the bytes in use within the capacity,
and these are the charges of the threads inside `import_slot`. Here nothing is assumed of the
releases: a block returns the charge it took, once. -/
theorem slots_run (capacity : Nat) (events : List SlotEvent) :
    let slots := events.foldl (fun slots event => (SlotState.step slots event).1) (.new capacity)
    (0 ≤ slots.state.budget.used ∧ slots.state.budget.used ≤ capacity)
    ∧ slots.state.budget.used = (slots.slots.map Slot.charge).sum := by
  intro slots
  have hstep : ∀ slots event, SlotsHeld slots ∧ Sound capacity slots.state → True →
      SlotsHeld (slots.step event).1 ∧ Sound capacity (slots.step event).1.state := by
    rintro slots event ⟨hheld, hsound⟩ -
    obtain ⟨hheld', hmade⟩ := slotsHeld_step hheld event
    refine ⟨hheld', ?_⟩
    split at hmade
    · rw [hmade]
      exact hsound
    · rw [hmade.2]
      exact sound_step hsound hmade.1
  have hnew : SlotsHeld (.new capacity) := by
    refine ⟨List.Perm.refl _, List.nodup_nil, ?_⟩
    intro waits hwaits
    cases hwaits
  obtain ⟨hheld, hsound⟩ : SlotsHeld slots ∧ Sound capacity slots.state :=
    @run_invariant _ _ (fun slots event => (SlotState.step slots event).1) (fun _ _ => True)
      (fun slots => SlotsHeld slots ∧ Sound capacity slots.state) hstep (.new capacity) events
      (along_of_forall (fun _ _ => trivial) _ _) ⟨hnew, sound_new capacity⟩
  refine ⟨⟨?_, hsound.capacity ▸ hsound.bounded⟩, ?_⟩
  · rw [hsound.used]
    exact Int.natCast_nonneg _
  · rw [hsound.used, hheld.held.sum_eq]

end TrustPortal.Proofs.DecisionLog
