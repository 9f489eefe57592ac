import TrustPortal.DecisionLog.Import

/-!
# `TrustPortal.DecisionLog.Budget`: the import budget of a process

`ImportBudget` is a byte budget that the transcript imports of one process share. Its methods run
under the lock of a condition variable. A thread that waits gives the lock back, so a step of the
system is what a thread does from taking the lock to giving it back: it returns, or it waits.
`ImportBudget.acquire` is the first step of a call and `ImportBudget.loop` each later one, after
its `wait` returned.

`BudgetState` keeps the calls of a run beside the budget: their numbers in the order of arrival,
which were granted and which were refused, and the charges that are held. `SlotState` has the
threads, each with its `import_slot` blocks.

A charge is a number of bytes. A time is in microseconds of `time.monotonic()`.
-/

set_option autoImplicit false

namespace TrustPortal.DecisionLog

/-! ## `ImportBudget` -/

/-- `MIN_IMPORT_CHARGE`. -/
def MIN_IMPORT_CHARGE : Nat := 1024 * 1024

/-- A call of `acquire` that waits. `number` counts the calls by their arrival, and `notified`
says that the condition was notified since the call began to wait. -/
structure Ticket where
  number : Nat
  charge : Nat
  deadline : Option Int
  notified : Bool
  deriving DecidableEq, Repr

/-- `ImportBudget`. -/
structure ImportBudget where
  capacity : Nat
  used : Int
  waiting : List Ticket
  deriving DecidableEq, Repr

/-- How a step of `acquire` ends. -/
inductive Answer
  | granted
  | refused
  | waits
  deriving DecidableEq, Repr

namespace ImportBudget

/-- `ImportBudget(capacity)`. -/
def new (capacity : Nat) : ImportBudget := ⟨capacity, 0, []⟩

/-- `self.used + charge <= self.capacity`. -/
def fits (budget : ImportBudget) (charge : Nat) : Bool := budget.used + charge ≤ budget.capacity

/-- `self.used += charge`. -/
def take (budget : ImportBudget) (charge : Nat) : ImportBudget :=
  { budget with used := budget.used + charge }

/-- `self._changed.notify_all()`. -/
def notifyAll (budget : ImportBudget) : ImportBudget :=
  { budget with waiting := budget.waiting.map fun ticket => { ticket with notified := true } }

/-- The `finally` of `acquire`: the ticket leaves the queue and every waiting call is notified. -/
def leave (budget : ImportBudget) (number : Nat) : ImportBudget :=
  notifyAll { budget with
    waiting := budget.waiting.filter fun ticket => ticket.number ≠ number }

/-- `self._changed.wait(remaining)`: the call waits for the next notification. -/
def wait (budget : ImportBudget) (number : Nat) : ImportBudget :=
  { budget with
    waiting := budget.waiting.map fun ticket =>
      if ticket.number = number then { ticket with notified := false } else ticket }

/-- The loop of `acquire`, from its condition to the next `wait` or to the return. -/
def loop (budget : ImportBudget) (ticket : Ticket) (now : Int) : ImportBudget × Answer :=
  if budget.waiting.head?.map Ticket.number ≠ some ticket.number
      ∨ budget.fits ticket.charge = false then
    if ticket.deadline.any fun deadline => deadline - now ≤ 0 then
      (budget.leave ticket.number, .refused)
    else (budget.wait ticket.number, .waits)
  else ((budget.take ticket.charge).leave ticket.number, .granted)

/-- `acquire`, up to its first `wait` or its return. `start` is the time the deadline counts
from, and `now` the time at the first turn of the loop. -/
def acquire (budget : ImportBudget) (number charge : Nat) (timeout : Option Int)
    (start now : Int) : ImportBudget × Answer :=
  if budget.waiting = [] ∧ budget.fits charge = true then (budget.take charge, .granted)
  else if timeout.any fun seconds => seconds ≤ 0 then (budget, .refused)
  else
    let ticket : Ticket := ⟨number, charge, timeout.map (start + ·), false⟩
    loop { budget with waiting := budget.waiting ++ [ticket] } ticket now

/-- `release`. -/
def release (budget : ImportBudget) (charge : Nat) : ImportBudget :=
  notifyAll { budget with used := budget.used - charge }

end ImportBudget

/-! ## Runs of calls -/

/-- The budget and the calls of a run. `held` are the charges of the successful calls that no
release has returned, `granted` and `refused` the numbers of the calls that returned, in the
order they did. -/
structure BudgetState where
  budget : ImportBudget
  arrivals : Nat
  held : List Nat
  granted : List Nat
  refused : List Nat
  deriving DecidableEq, Repr

/-- A step of the system: a new call, a waiting call whose `wait` returned (because of a
notification, of its time-out or for no reason), or a release. -/
inductive BudgetEvent
  | acquire (charge : Nat) (timeout : Option Int) (start now : Int)
  | wake (number : Nat) (now : Int)
  | release (charge : Nat)
  deriving DecidableEq, Repr

namespace BudgetState

/-- The start of a process. -/
def new (capacity : Nat) : BudgetState := ⟨.new capacity, 0, [], [], []⟩

/-- The end of a step of the call `number`. -/
def answered (state : BudgetState) (number charge : Nat) (step : ImportBudget × Answer) :
    BudgetState :=
  match step.2 with
  | .granted => { state with
      budget := step.1
      held := charge :: state.held
      granted := state.granted ++ [number] }
  | .refused => { state with budget := step.1, refused := state.refused ++ [number] }
  | .waits => { state with budget := step.1 }

/-- The waiting call with a number. -/
def ticket (state : BudgetState) (number : Nat) : Option Ticket :=
  state.budget.waiting.find? fun ticket => ticket.number = number

/-- One step. -/
def step (state : BudgetState) : BudgetEvent → BudgetState
  | .acquire charge timeout start now =>
      { state with arrivals := state.arrivals + 1 }.answered state.arrivals charge
        (state.budget.acquire state.arrivals charge timeout start now)
  | .wake number now =>
      match state.ticket number with
      | none => state
      | some ticket => state.answered number ticket.charge (state.budget.loop ticket now)
  | .release charge =>
      { state with budget := state.budget.release charge, held := state.held.erase charge }

/-- The call that makes a step. -/
def caller (state : BudgetState) : BudgetEvent → Option Nat
  | .acquire _ _ _ _ => some state.arrivals
  | .wake number _ => some number
  | .release _ => none

end BudgetState

/-- A release returns the charge of a successful acquire that no other release has returned. -/
def Matched (state : BudgetState) : BudgetEvent → Prop
  | .release charge => charge ∈ state.held
  | _ => True

/-! ## `import_slot` -/

/-- `import_charge`. -/
def importCharge (size : Option Int) : Nat :=
  match size with
  | none => MAX_TRANSCRIPT_BYTES
  | some size => min (max size.toNat MIN_IMPORT_CHARGE) MAX_TRANSCRIPT_BYTES

/-- A thread inside `import_slot`: `_slot_state.held` and the charge of its outermost block. -/
structure Slot where
  thread : Nat
  held : Nat
  charge : Nat
  deriving DecidableEq, Repr

/-- The threads of a process: those inside `import_slot`, and those that wait for room with the
number of their call. -/
structure SlotState where
  state : BudgetState
  slots : List Slot
  pending : List (Nat × Nat)
  deriving DecidableEq, Repr

/-- What a thread does: it enters a block, its `wait` returns, or it leaves its innermost block. -/
inductive SlotEvent
  | enter (thread : Nat) (timeout : Option Int) (size : Option Int) (start now : Int)
  | wake (thread : Nat) (now : Int)
  | exit (thread : Nat)
  deriving DecidableEq, Repr

namespace SlotState

/-- The start of a process. -/
def new (capacity : Nat) : SlotState := ⟨.new capacity, [], []⟩

/-- The charge of a block, `min(import_charge(size), budget.capacity)`. -/
def charge (slots : SlotState) (size : Option Int) : Nat :=
  min (importCharge size) slots.state.budget.capacity

/-- The block of a thread. -/
def slot (slots : SlotState) (thread : Nat) : Option Slot :=
  slots.slots.find? fun slot => slot.thread = thread

/-- The thread's call has returned or waits: the block is entered with `_slot_state.held = 1`,
`ImportBusyError` is raised, or the thread waits. -/
def answered (slots : SlotState) (thread number charge : Nat) (state : BudgetState)
    (answer : Answer) : SlotState :=
  let others := slots.pending.filter fun call => call.1 ≠ thread
  match answer with
  | .granted => ⟨state, ⟨thread, 1, charge⟩ :: slots.slots, others⟩
  | .refused => ⟨state, slots.slots, others⟩
  | .waits => ⟨state, slots.slots, (thread, number) :: others⟩

/-- One step of a thread, and the event at the budget it makes. A thread that waits does nothing
else, and a thread outside every block has none to leave. -/
def step (slots : SlotState) : SlotEvent → SlotState × Option BudgetEvent
  | .enter thread timeout size start now =>
      if slots.pending.any fun call => call.1 = thread then (slots, none)
      else
        match slots.slot thread with
        | some _ =>
            ({ slots with slots := slots.slots.map fun slot =>
                if slot.thread = thread then { slot with held := slot.held + 1 } else slot }, none)
        | none =>
            let charge := slots.charge size
            let event := BudgetEvent.acquire charge timeout start now
            let number := slots.state.arrivals
            (slots.answered thread number charge (slots.state.step event)
              (slots.state.budget.acquire number charge timeout start now).2, some event)
  | .wake thread now =>
      match slots.pending.find? fun call => call.1 = thread with
      | none => (slots, none)
      | some (_, number) =>
          match slots.state.ticket number with
          | none => (slots, none)
          | some ticket =>
              let event := BudgetEvent.wake number now
              (slots.answered thread number ticket.charge (slots.state.step event)
                (slots.state.budget.loop ticket now).2, some event)
  | .exit thread =>
      match slots.slot thread with
      | none => (slots, none)
      | some slot =>
          if slot.held ≤ 1 then
            let event := BudgetEvent.release slot.charge
            ({ slots with
              state := slots.state.step event
              slots := slots.slots.filter fun other => other.thread ≠ thread }, some event)
          else
            ({ slots with slots := slots.slots.map fun slot =>
                if slot.thread = thread then { slot with held := slot.held - 1 } else slot }, none)

end SlotState

end TrustPortal.DecisionLog
