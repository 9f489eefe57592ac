import TrustPortal.Logging.CloudWatch
import Mathlib.Data.List.Sort

/-!
# `TrustPortal.Logging.Shipper`: the shipping queue between the threads

Any number of threads call `emit`, and one thread at a time is in `flush`, which `_flush_lock`
sees to. A step is one access to what they share: the check of `_queued_bytes` once `emit` has
`_bytes_lock`, the `put_nowait` and the addition under it; in `_drain`, which has no lock while it
takes records, one record taken from the carry slot or the queue, then what is done with it, and
in the end the subtraction under `_bytes_lock`. A step that needs a lock that another thread has
changes nothing: the thread waits.

The calls of `emit` that have formatted their record and wait for the lock are in `waiting`; which
of them is next is part of the event. The records of the calls, the items that were queued or
turned away and the batches are noted in `records`, `accepted`, `refused`, `batches` and `sent`.
No step reads these.
-/

set_option autoImplicit false

namespace TrustPortal.Logging

open TrustPortal.Python

/-- What the `emit` that has `_bytes_lock` does next with its item; free when no `emit` has it. -/
inductive Lock
  | free
  | checking (item : Item)
  | putting (item : Item)
  | adding (item : Item)

/-- Where `flush` is: in `_drain` it has taken the items of `events` and either looks for the next
one, holds one or is at the subtraction; then it ships the sorted batch. `size` in the code is
the sum of the sizes of the items taken. -/
inductive Flushing
  | idle
  | taking (events : List Item)
  | holding (events : List Item) (item : Item)
  | subtracting (events : List Item)
  | shipping (events : List (Int × Str))

/-- The total size of some items. -/
def totalSize (items : List Item) : Nat := (items.map Item.size).sum

/-- `events.append((ts, message))` -/
def Item.event (item : Item) : Int × Str := (item.ts, item.message)

/-- The events of a batch, after `events.sort(key=lambda event: event[0])`. -/
def sortedEvents (items : List Item) : List (Int × Str) :=
  (items.map Item.event).insertionSort fun a b => a.1 ≤ b.1

/-- The handler, the threads in it and what they did so far. -/
structure Shipper where
  buffer : Buffer
  waiting : List Item
  lock : Lock
  flushing : Flushing
  records : List LogRecord
  accepted : List Item
  refused : List Item
  batches : List (List Item)
  sent : List (List (Int × Str))

/-- What happens next. A call of `put_log_events` returns or raises. -/
inductive Event
  | emit (record : LogRecord)
  | acquire (index : Nat)
  | emitStep
  | flush
  | drainStep
  | ship (returns : Bool)

namespace Shipper

/-- A new handler. -/
def start : Shipper := ⟨⟨[], 0, none, 0⟩, [], .free, .idle, [], [], [], [], []⟩

/-- The item of the `emit` that has the lock is dropped, and the lock released. -/
def refuse (s : Shipper) (item : Item) : Shipper :=
  { s with buffer := s.buffer.drop, lock := .free, refused := s.refused ++ [item] }

/-- The next step of the `emit` that has `_bytes_lock`. -/
def emitStep (s : Shipper) : Shipper :=
  match s.lock with
  | .free => s
  | .checking item => if s.buffer.isFull item then s.refuse item else { s with lock := .putting item }
  | .putting item =>
    match s.buffer.putNowait item with
    | none => s.refuse item
    | some buffer =>
      { s with buffer := buffer, lock := .adding item, accepted := s.accepted ++ [item] }
  | .adding item => { s with buffer := s.buffer.addBytes item, lock := .free }

/-- The next step of `_drain`. -/
def drainStep (s : Shipper) : Shipper :=
  match s.flushing with
  | .taking events =>
    if events.length < MAX_BATCH_EVENTS then
      match s.buffer.next with
      -- The carry slot or the queue has given up the item, and `_queued_bytes` still counts it.
      | some (item, buffer) => { s with buffer := buffer, flushing := .holding events item }
      | none => { s with flushing := .subtracting events }
    else { s with flushing := .subtracting events }
  | .holding events item =>
    -- The first item of a batch is taken whatever its size.
    if totalSize events + item.size > MAX_BATCH_BYTES ∧ events ≠ [] then
      { s with
        buffer := { s.buffer with carry := some item }
        flushing := .subtracting events }
    else { s with flushing := .taking (events ++ [item]) }
  | .subtracting events =>
    -- The subtraction waits for the lock.
    match s.lock with
    | .free =>
      let buffer := { s.buffer with queuedBytes := s.buffer.queuedBytes - totalSize events }
      if events = [] then { s with buffer := buffer, flushing := .idle }
      else
        { s with
          buffer := buffer
          flushing := .shipping (sortedEvents events)
          batches := s.batches ++ [events] }
    | _ => s
  | _ => s

/-- One step of a thread. -/
def step (handleError : LogRecord → Except Raised Unit) (s : Shipper) : Event → Shipper
  | .emit record =>
    { s with
      records := s.records ++ [record]
      waiting :=
        match prepare handleError record with
        | .ok (some item) => s.waiting ++ [item]
        | _ => s.waiting }
  | .acquire index =>
    match s.lock, s.waiting[index]? with
    | .free, some item => { s with waiting := s.waiting.eraseIdx index, lock := .checking item }
    | _, _ => s
  | .emitStep => s.emitStep
  | .flush =>
    match s.flushing with
    | .idle => { s with flushing := .taking [] }
    | _ => s
  | .drainStep => s.drainStep
  | .ship returns =>
    match s.flushing with
    | .shipping events =>
      { s with
        flushing := if returns then .taking [] else .idle
        sent := s.sent ++ [events] }
    | _ => s

/-- The handler after some steps. -/
def run (handleError : LogRecord → Except Raised Unit) (s : Shipper) (events : List Event) : Shipper :=
  events.foldl (step handleError) s

/-! ## What is where -/

/-- The items that `_drain` has taken, but not yet subtracted. -/
def taken (s : Shipper) : List Item :=
  match s.flushing with
  | .idle | .shipping _ => []
  | .taking events | .subtracting events => events
  | .holding events item => events ++ [item]

/-- The records in the carry slot and the queue, in the order in which they are taken. -/
def pending (s : Shipper) : List Item := s.buffer.carry.toList ++ s.buffer.queue

/-- The items that are counted, in the order in which they are put in batches. -/
def inside (s : Shipper) : List Item := s.taken ++ s.pending

/-- The items of the calls of `emit` that have not returned and neither queued nor dropped them. -/
def undecided (s : Shipper) : List Item :=
  match s.lock with
  | .checking item | .putting item => item :: s.waiting
  | _ => s.waiting

/-- The property `queued_bytes`, which reads the count under `_bytes_lock`; none while an `emit`
has the lock, so that the reader waits. -/
def queuedBytes (s : Shipper) : Option Int :=
  match s.lock with
  | .free => some s.buffer.queuedBytes
  | _ => none

/-- No `_drain` is under way. -/
def isOutsideDrain (s : Shipper) : Prop :=
  match s.flushing with
  | .idle | .shipping _ => True
  | _ => False

end Shipper

end TrustPortal.Logging
