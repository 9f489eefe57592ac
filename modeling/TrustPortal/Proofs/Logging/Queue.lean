import TrustPortal.Logging.Shipper
import TrustPortal.Proofs.Logging.Emit
import TrustPortal.Lib.Run
import Mathlib.Algebra.Order.BigOperators.Group.List

/-!
# `TrustPortal.Proofs.Logging.Queue`: what the shipping queue does with each record

`Inv` is what every step keeps. The items that `emit` queued are, in that order, the items of the
batches, the items that `_drain` has taken, the one in the carry slot and the queue, so each is at
one place (`order`). `_queued_bytes` is the size of what is not in a batch yet, but for the item
that an `emit` is about to add (`bytes`). That `emit` has the lock, so its item is still inside
(`added`), and there is room for it (`room`).

`shipping_queue` is the result for every interleaving: each record that is formatted is queued or
counted in `dropped`, unless its text cannot be encoded.
-/

set_option autoImplicit false

namespace TrustPortal.Proofs.Logging

open TrustPortal.Python
open TrustPortal.Logging
open TrustPortal.Lib

/-- The item that an `emit` has queued and not yet counted. -/
def uncounted (s : Shipper) : Nat :=
  match s.lock with
  | .adding item => item.size
  | _ => 0

/-- The batch that `_drain` is building. -/
def gathered (s : Shipper) : List Item :=
  match s.flushing with
  | .taking events | .holding events _ | .subtracting events => events
  | _ => []

/-- The batch that `put_log_events` has been called with. -/
def leaving (s : Shipper) : List (List (Int × Str)) :=
  match s.flushing with
  | .shipping events => [events]
  | _ => []

/-- A batch is within the limits of the service. -/
def Within (batch : List Item) : Prop :=
  batch.length ≤ MAX_BATCH_EVENTS ∧ totalSize batch ≤ MAX_BATCH_BYTES

/-- The item that a call of `emit` makes of a record, if it gets to the queue with it. -/
def itemOf (handleError : LogRecord → Except Raised Unit) (record : LogRecord) : Option Item :=
  match prepare handleError record with
  | .ok item? => item?
  | .error _ => none

/-- What every step keeps. -/
structure Inv (handleError : LogRecord → Except Raised Unit) (s : Shipper) : Prop where
  order : s.accepted = s.batches.flatten ++ s.inside
  bytes : s.buffer.queuedBytes + uncounted s = totalSize s.inside
  bound : s.buffer.queuedBytes ≤ MAX_QUEUE_BYTES
  room : ∀ item, s.lock = .putting item ∨ s.lock = .adding item →
    s.buffer.queuedBytes + item.size ≤ MAX_QUEUE_BYTES
  added : ∀ item, s.lock = .adding item → item ∈ s.inside
  slot : ∀ events item, s.flushing = .holding events item →
    s.buffer.carry = none ∧ events.length < MAX_BATCH_EVENTS
  queue : s.buffer.queue.length ≤ MAX_QUEUE_EVENTS
  batch : Within (gathered s)
  batches : ∀ batch ∈ s.batches, batch ≠ [] ∧ Within batch
  sent : s.batches.map sortedEvents = s.sent ++ leaving s
  dropped : s.buffer.dropped = s.refused.length
  decided : (s.accepted ++ s.refused ++ s.undecided).Perm (s.records.filterMap (itemOf handleError))

section
variable {handleError : LogRecord → Except Raised Unit} {s : Shipper} {item : Item}
  {items : List Item}

/-! ## Sizes -/

theorem totalSize_append (items others : List Item) :
    totalSize (items ++ others) = totalSize items + totalSize others := by
  simp [totalSize]

theorem totalSize_singleton (item : Item) : totalSize [item] = item.size := by
  simp [totalSize]

theorem size_le_totalSize (h : item ∈ items) : item.size ≤ totalSize items :=
  List.single_le_sum (fun _ _ => Nat.zero_le _) _ (List.mem_map_of_mem h)

/-! ## Steps -/

/-- A new handler. -/
theorem inv_start : Inv handleError Shipper.start where
  order := rfl
  bytes := rfl
  bound := by decide
  room := nofun
  added := nofun
  slot := nofun
  queue := Nat.zero_le _
  batch := ⟨Nat.zero_le _, Nat.zero_le _⟩
  batches := nofun
  sent := rfl
  dropped := rfl
  decided := .refl _

/-- A call of `emit` comes up to the lock. -/
private theorem inv_emit (h : Inv handleError s) (record : LogRecord) :
    Inv handleError (s.step handleError (.emit record)) := by
  have hrecords : (s.records ++ [record]).filterMap (itemOf handleError)
      = s.records.filterMap (itemOf handleError) ++ (itemOf handleError record).toList := by
    rw [List.filterMap_append]
    cases hitem : itemOf handleError record <;> simp [hitem]
  have hundecided : (s.step handleError (.emit record)).undecided
      = s.undecided ++ (itemOf handleError record).toList := by
    have hwaiting : (s.step handleError (.emit record)).waiting
        = s.waiting ++ (itemOf handleError record).toList := by
      simp only [Shipper.step, itemOf]
      split
      · next heq => rw [heq]; rfl
      · next hne =>
        split
        · next item? heq =>
          cases item? with
          | none => exact (List.append_nil _).symm
          | some item => exact absurd heq (hne item)
        · exact (List.append_nil _).symm
    have hlock : (s.step handleError (.emit record)).lock = s.lock := rfl
    rw [Shipper.undecided, Shipper.undecided, hwaiting, hlock]
    cases s.lock <;> rfl
  exact { h with
    decided := by
      rw [hundecided, ← List.append_assoc]
      show List.Perm _ ((s.records ++ [record]).filterMap (itemOf handleError))
      rw [hrecords]
      exact h.decided.append_right _ }

/-- An `emit` takes the lock. -/
private theorem inv_acquire (h : Inv handleError s) (index : Nat) :
    Inv handleError (s.step handleError (.acquire index)) := by
  obtain ⟨buffer, waiting, lock, flushing, records, accepted, refused, batches, sent⟩ := s
  -- The thread goes on when the lock is free and it is one of those that wait.
  cases lock with
  | free =>
    cases hitem : waiting[index]? with
    | none =>
      simp only [Shipper.step, hitem]
      exact h
    | some item =>
      simp only [Shipper.step, hitem]
      obtain ⟨hindex, hget⟩ := List.getElem?_eq_some_iff.mp hitem
      exact { h with
        room := by rintro _ (h | h) <;> cases h
        added := nofun
        decided := by
          have hperm : (item :: waiting.eraseIdx index).Perm waiting := by
            rw [← hget]
            exact List.getElem_cons_eraseIdx_perm hindex
          exact (hperm.append_left _).trans h.decided }
  | checking _ | putting _ | adding _ => exact h

/-- The `emit` that has the lock drops its item. -/
private theorem inv_refuse (h : Inv handleError s)
    (hlock : s.lock = .checking item ∨ s.lock = .putting item) :
    Inv handleError (s.refuse item) := by
  -- The item moves from the undecided ones to the refused ones, and nothing else moves.
  have hundecided : s.undecided = item :: s.waiting := by
    rw [Shipper.undecided]
    rcases hlock with hlock | hlock <;> rw [hlock]
  have huncounted : uncounted s = 0 := by
    rw [uncounted]
    rcases hlock with hlock | hlock <;> rw [hlock]
  exact { h with
    bytes := by
      have hbytes := h.bytes
      rw [huncounted] at hbytes
      exact hbytes
    room := by rintro _ (h | h) <;> cases h
    added := nofun
    dropped := by
      show s.buffer.dropped + 1 = (s.refused ++ [item]).length
      rw [h.dropped, List.length_append, List.length_singleton]
    decided := by
      have := h.decided
      rw [hundecided] at this
      show (s.accepted ++ (s.refused ++ [item]) ++ s.waiting).Perm _
      rwa [List.append_assoc, List.append_assoc, List.singleton_append, ← List.append_assoc] }

/-- There is room for the item. -/
private theorem inv_admit (h : Inv handleError s) (hlock : s.lock = .checking item)
    (hfull : s.buffer.isFull item = false) :
    Inv handleError { s with lock := .putting item } := by
  rw [Buffer.isFull, decide_eq_false_iff_not, not_lt] at hfull
  have hbytes := h.bytes
  have hdecided := h.decided
  rw [uncounted, hlock] at hbytes
  rw [Shipper.undecided, hlock] at hdecided
  exact { h with
    bytes := hbytes
    room := by
      rintro _ (h | h) <;> cases h
      exact hfull
    added := nofun
    decided := hdecided }

/-- The item is in the queue. -/
private theorem inv_put (h : Inv handleError s) (hlock : s.lock = .putting item)
    (hlength : s.buffer.queue.length < MAX_QUEUE_EVENTS) :
    Inv handleError
      { s with
        buffer := { s.buffer with queue := s.buffer.queue ++ [item] }
        lock := .adding item
        accepted := s.accepted ++ [item] } := by
  have hinside : Shipper.inside
      { s with
        buffer := { s.buffer with queue := s.buffer.queue ++ [item] }
        lock := .adding item
        accepted := s.accepted ++ [item] } = s.inside ++ [item] := by
    simp only [Shipper.inside, Shipper.taken, Shipper.pending, List.append_assoc]
  have hbytes := h.bytes
  have hdecided := h.decided
  rw [uncounted, hlock] at hbytes
  rw [Shipper.undecided, hlock] at hdecided
  replace hbytes : s.buffer.queuedBytes = totalSize s.inside := (add_zero _).symm.trans hbytes
  -- The queue has the item before `_queued_bytes` counts it: `uncounted` makes up for it.
  exact { h with
    order := by
      rw [hinside, ← List.append_assoc, ← h.order]
    bytes := by
      rw [hinside, totalSize_append, totalSize_singleton]
      show s.buffer.queuedBytes + (item.size : Int) = _
      rw [hbytes, Nat.cast_add]
    room := by
      rintro _ (h' | h') <;> cases h'
      exact h.room item (.inl hlock)
    added := by
      rintro _ h'
      cases h'
      rw [hinside]
      exact List.mem_append_right _ (List.mem_singleton_self item)
    queue := by
      show (s.buffer.queue ++ [item]).length ≤ _
      rw [List.length_append, List.length_singleton]
      exact hlength
    decided := by
      refine List.Perm.trans ?_ hdecided
      show (s.accepted ++ [item] ++ s.refused ++ s.waiting).Perm
        (s.accepted ++ s.refused ++ item :: s.waiting)
      rw [List.append_assoc, List.append_assoc, List.append_assoc, List.singleton_append]
      exact List.perm_middle.symm.append_left _ }

/-- The item is counted, and the lock free again. -/
private theorem inv_add (h : Inv handleError s) (hlock : s.lock = .adding item) :
    Inv handleError { s with buffer := s.buffer.addBytes item, lock := .free } := by
  have hbytes := h.bytes
  have hdecided := h.decided
  rw [uncounted, hlock] at hbytes
  rw [Shipper.undecided, hlock] at hdecided
  exact { h with
    bytes := (add_zero _).trans hbytes
    bound := h.room item (.inr hlock)
    room := by rintro _ (h | h) <;> cases h
    added := nofun
    decided := hdecided }

/-- The `emit` that has the lock goes on. -/
private theorem inv_emitStep (h : Inv handleError s) : Inv handleError s.emitStep := by
  unfold Shipper.emitStep
  split
  · exact h
  · next item hlock =>
    split_ifs with hfull
    · exact inv_refuse h (.inl hlock)
    · exact inv_admit h hlock (Bool.eq_false_iff.mpr hfull)
  · next item hlock =>
    rw [Buffer.putNowait]
    split_ifs with hlength
    · exact inv_put h hlock hlength
    · exact inv_refuse h (.inr hlock)
  · next item hlock => exact inv_add h hlock

/-- `_drain` starts. -/
private theorem inv_flush (h : Inv handleError s) :
    Inv handleError (s.step handleError .flush) := by
  unfold Shipper.step
  dsimp only
  split
  · next hidle =>
    have horder := h.order
    have hbytes := h.bytes
    have hadded := h.added
    have hsent := h.sent
    simp only [Shipper.inside, Shipper.taken, hidle] at horder hbytes hadded
    rw [leaving, hidle] at hsent
    exact { h with
      order := horder
      bytes := hbytes
      added := hadded
      slot := nofun
      batch := ⟨Nat.zero_le _, Nat.zero_le _⟩
      sent := hsent }
  · exact h

/-! ## Draining -/

/-- `_drain` goes on from what it has taken to a state with the same items at the same places. -/
private theorem Inv.goOn (h : Inv handleError s) {buffer : Buffer} {flushing : Flushing}
    (hbytes : buffer.queuedBytes = s.buffer.queuedBytes) (hdropped : buffer.dropped = s.buffer.dropped)
    (hqueue : buffer.queue.length ≤ MAX_QUEUE_EVENTS)
    (hinside : Shipper.inside { s with buffer := buffer, flushing := flushing } = s.inside)
    (hslot : ∀ events item, flushing = .holding events item →
      buffer.carry = none ∧ events.length < MAX_BATCH_EVENTS)
    (hbatch : Within (gathered { s with flushing := flushing }))
    (hleaving : leaving { s with flushing := flushing } = leaving s) :
    Inv handleError { s with buffer := buffer, flushing := flushing } := by
  exact { h with
    order := by rw [hinside]; exact h.order
    bytes := by rw [hinside]; show buffer.queuedBytes + _ = _; rw [hbytes]; exact h.bytes
    bound := by show buffer.queuedBytes ≤ _; rw [hbytes]; exact h.bound
    room := by show ∀ item, _ → buffer.queuedBytes + _ ≤ _; rw [hbytes]; exact h.room
    added := by rw [hinside]; exact h.added
    slot := hslot
    queue := hqueue
    batch := hbatch
    sent := h.sent.trans (congrArg (s.sent ++ ·) hleaving.symm)
    dropped := hdropped.trans h.dropped }

/-- `_drain` looks for the next record. -/
private theorem inv_take (h : Inv handleError s) {events : List Item}
    (htaking : s.flushing = .taking events) : Inv handleError s.drainStep := by
  have hbatch := h.batch
  rw [gathered, htaking] at hbatch
  have hleaving : leaving s = [] := by rw [leaving, htaking]
  have htaken : s.taken = events := by rw [Shipper.taken, htaking]
  have hsubtracting : Inv handleError { s with flushing := .subtracting events } := by
    refine h.goOn rfl rfl h.queue ?_ nofun hbatch hleaving.symm
    rw [Shipper.inside, Shipper.inside, htaken]
    rfl
  rw [Shipper.drainStep, htaking]
  dsimp only
  split_ifs with hroom
  · -- The carry slot comes before the queue.
    rw [Buffer.next]
    cases hcarry : s.buffer.carry with
    | some item =>
      refine h.goOn rfl rfl h.queue ?_ ?_ hbatch hleaving.symm
      · rw [Shipper.inside, Shipper.inside, htaken]
        simp [Shipper.taken, Shipper.pending, hcarry]
      · rintro _ _ heq
        cases heq
        exact ⟨rfl, hroom⟩
    | none =>
      cases hqueue : s.buffer.queue with
      | nil => exact hsubtracting
      | cons item queue =>
        have hlength := h.queue
        rw [hqueue, List.length_cons] at hlength
        refine h.goOn rfl rfl (Nat.le_of_succ_le hlength) ?_ ?_ hbatch hleaving.symm
        · rw [Shipper.inside, Shipper.inside, htaken]
          simp [Shipper.taken, Shipper.pending, hcarry, hqueue]
        · rintro _ _ heq
          cases heq
          exact ⟨rfl, hroom⟩
  · exact hsubtracting

/-- `_drain` has a record in hand. -/
private theorem inv_place (h : Inv handleError s) {events : List Item}
    (hholding : s.flushing = .holding events item) : Inv handleError s.drainStep := by
  have hbatch := h.batch
  rw [gathered, hholding] at hbatch
  have hleaving : leaving s = [] := by rw [leaving, hholding]
  have htaken : s.taken = events ++ [item] := by rw [Shipper.taken, hholding]
  obtain ⟨hcarry, hroom⟩ := h.slot events item hholding
  rw [Shipper.drainStep, hholding]
  dsimp only
  split_ifs with hfull
  · -- The record is carried over, ahead of the queue.
    refine h.goOn rfl rfl h.queue ?_ nofun hbatch hleaving.symm
    rw [Shipper.inside, Shipper.inside, htaken]
    simp [Shipper.taken, Shipper.pending, hcarry]
  · refine h.goOn rfl rfl h.queue ?_ nofun ⟨?_, ?_⟩ hleaving.symm
    · rw [Shipper.inside, Shipper.inside, htaken]
      rfl
    · show (events ++ [item]).length ≤ _
      rw [List.length_append, List.length_singleton]
      exact hroom
    · -- An item fits into a batch of its own.
      show totalSize (events ++ [item]) ≤ _
      rw [totalSize_append, totalSize_singleton]
      rcases not_and_or.mp hfull with hfits | hfirst
      · exact Nat.le_of_not_gt hfits
      · rw [not_not.mp hfirst]
        have hsmall := item.small
        rw [MAX_EVENT_BYTES, EVENT_OVERHEAD] at hsmall
        show 0 + item.size ≤ 1000000
        omega

/-- `_drain` subtracts what it has taken. -/
private theorem inv_subtract (h : Inv handleError s) {events : List Item}
    (hsubtracting : s.flushing = .subtracting events) : Inv handleError s.drainStep := by
  have hbatch := h.batch
  rw [gathered, hsubtracting] at hbatch
  rw [Shipper.drainStep, hsubtracting]
  dsimp only
  cases hlock : s.lock with
  | checking _ | putting _ | adding _ => exact h
  | free =>
    -- No `emit` has the lock, so `_queued_bytes` is exactly the size of what is inside.
    have hinside : s.inside = events ++ s.pending := by
      rw [Shipper.inside, Shipper.taken, hsubtracting]
    have hbytes := h.bytes
    rw [uncounted, hlock, hinside, totalSize_append] at hbytes
    replace hbytes : s.buffer.queuedBytes = totalSize events + totalSize s.pending :=
      (add_zero _).symm.trans (hbytes.trans (Nat.cast_add _ _))
    have hbound := h.bound
    have hsent := h.sent
    have horder := h.order
    have hdecided := h.decided
    rw [leaving, hsubtracting, List.append_nil] at hsent
    rw [hinside] at horder
    rw [Shipper.undecided, hlock] at hdecided
    have hlower : s.buffer.queuedBytes - totalSize events ≤ MAX_QUEUE_BYTES := by omega
    have hrest : s.buffer.queuedBytes - totalSize events = totalSize s.pending := by omega
    dsimp only
    split_ifs with hempty
    · exact { h with
        order := by rw [hempty] at horder; exact horder
        bytes := (add_zero _).trans hrest
        bound := hlower
        room := by rintro _ (h | h) <;> cases h
        added := nofun
        slot := nofun
        batch := ⟨Nat.zero_le _, Nat.zero_le _⟩
        decided := hdecided
        sent := hsent.trans (List.append_nil _).symm }
    · exact { h with
        order := by
          show s.accepted = (s.batches ++ [events]).flatten ++ s.pending
          rw [horder, List.flatten_append, List.flatten_singleton, List.append_assoc]
        bytes := (add_zero _).trans hrest
        bound := hlower
        room := by rintro _ (h | h) <;> cases h
        added := nofun
        slot := nofun
        batch := ⟨Nat.zero_le _, Nat.zero_le _⟩
        decided := hdecided
        batches := by
          intro batch hmem
          rcases List.mem_append.mp hmem with hmem | hmem
          · exact h.batches batch hmem
          · rw [List.mem_singleton.mp hmem]
            exact ⟨hempty, hbatch⟩
        sent := by
          show (s.batches ++ [events]).map sortedEvents = s.sent ++ [sortedEvents events]
          rw [List.map_append, hsent]
          rfl }

/-- `_drain` goes on. -/
private theorem inv_drainStep (h : Inv handleError s) : Inv handleError s.drainStep := by
  cases hflushing : s.flushing with
  | idle | shipping _ =>
    rw [Shipper.drainStep, hflushing]
    exact h
  | taking events => exact inv_take h hflushing
  | holding events item => exact inv_place h hflushing
  | subtracting events => exact inv_subtract h hflushing

/-- `put_log_events` returns or raises. -/
private theorem inv_ship (h : Inv handleError s) (returns : Bool) :
    Inv handleError (s.step handleError (.ship returns)) := by
  unfold Shipper.step
  dsimp only
  split
  · next events hshipping =>
    have horder := h.order
    have hbytes := h.bytes
    have hadded := h.added
    have hsent := h.sent
    rw [Shipper.inside, Shipper.taken, hshipping] at horder hbytes
    simp only [Shipper.inside, Shipper.taken, hshipping] at hadded
    rw [leaving, hshipping] at hsent
    cases returns with
    | true =>
      exact { h with
        order := horder
        bytes := hbytes
        added := hadded
        slot := nofun
        batch := ⟨Nat.zero_le _, Nat.zero_le _⟩
        sent := hsent.trans (List.append_nil _).symm }
    | false =>
      exact { h with
        order := horder
        bytes := hbytes
        added := hadded
        slot := nofun
        batch := ⟨Nat.zero_le _, Nat.zero_le _⟩
        sent := hsent.trans (List.append_nil _).symm }
  · exact h

/-- Every step keeps it. -/
theorem inv_step (h : Inv handleError s) (event : Event) :
    Inv handleError (s.step handleError event) := by
  cases event with
  | emit record => exact inv_emit h record
  | acquire index => exact inv_acquire h index
  | emitStep => exact inv_emitStep h
  | flush => exact inv_flush h
  | drainStep => exact inv_drainStep h
  | ship returns => exact inv_ship h returns

/-- What every step keeps, every run keeps. -/
theorem inv_run (h : Inv handleError s) (events : List Event) :
    Inv handleError (s.run handleError events) := by
  have hrun : Along (Shipper.step handleError) (fun _ _ => True) s events :=
    along_of_forall (fun _ _ => trivial) s events
  have hstep : ∀ s event, Inv handleError s → True → Inv handleError (s.step handleError event) :=
    fun _ event hs _ => inv_step hs event
  exact run_invariant hstep hrun h

/-! ## What a run adds -/

/-- The records that `emit` was called with. -/
def emitted (events : List Event) : List LogRecord :=
  events.filterMap fun
    | .emit record => some record
    | _ => none

private theorem records_emitStep (s : Shipper) : s.emitStep.records = s.records := by
  unfold Shipper.emitStep
  split
  · rfl
  · split <;> rfl
  · split <;> rfl
  · rfl

private theorem records_drainStep (s : Shipper) : s.drainStep.records = s.records := by
  unfold Shipper.drainStep
  split
  · split
    · split <;> rfl
    · rfl
  · split <;> rfl
  · split
    · dsimp only
      split <;> rfl
    · rfl
  · rfl

/-- Only a call of `emit` adds a record. -/
private theorem records_step (s : Shipper) (event : Event) :
    (s.step handleError event).records = s.records ++ emitted [event] := by
  cases event with
  | emit record => rfl
  | emitStep => exact (records_emitStep s).trans (List.append_nil _).symm
  | drainStep => exact (records_drainStep s).trans (List.append_nil _).symm
  | acquire index =>
    refine Eq.trans ?_ (List.append_nil _).symm
    simp only [Shipper.step]
    split <;> rfl
  | flush | ship _ =>
    refine Eq.trans ?_ (List.append_nil _).symm
    simp only [Shipper.step]
    split <;> rfl

theorem records_run (events : List Event) :
    (s.run handleError events).records = s.records ++ emitted events := by
  induction events generalizing s with
  | nil => exact (List.append_nil _).symm
  | cons event rest ih =>
    rw [Shipper.run, List.foldl_cons]
    refine ih.trans ?_
    rw [records_step, List.append_assoc]
    exact congrArg _ List.filterMap_append.symm

/-- A later state has the batches of an earlier one and what it had queued, and more behind. -/
structure Extends (s t : Shipper) : Prop where
  batches : s.batches <+: t.batches
  accepted : s.accepted <+: t.accepted

theorem Extends.refl (s : Shipper) : Extends s s := ⟨List.prefix_rfl, List.prefix_rfl⟩

theorem Extends.trans {s t u : Shipper} (h : Extends s t) (h' : Extends t u) : Extends s u :=
  ⟨h.batches.trans h'.batches, h.accepted.trans h'.accepted⟩

private theorem extends_of_eq {s t : Shipper} (hbatches : t.batches = s.batches)
    (haccepted : t.accepted = s.accepted) : Extends s t :=
  ⟨by rw [hbatches], by rw [haccepted]⟩

private theorem extends_step (s : Shipper) (event : Event) :
    Extends s (s.step handleError event) := by
  cases event with
  | emit record => exact extends_of_eq rfl rfl
  | emitStep =>
    show Extends s s.emitStep
    unfold Shipper.emitStep
    split
    · exact .refl s
    · split <;> exact extends_of_eq rfl rfl
    · split
      · exact extends_of_eq rfl rfl
      · exact ⟨List.prefix_rfl, List.prefix_append _ _⟩
    · exact extends_of_eq rfl rfl
  | drainStep =>
    show Extends s s.drainStep
    unfold Shipper.drainStep
    split
    · split
      · split <;> exact extends_of_eq rfl rfl
      · exact extends_of_eq rfl rfl
    · split <;> exact extends_of_eq rfl rfl
    · split
      · dsimp only
        split
        · exact extends_of_eq rfl rfl
        · exact ⟨List.prefix_append _ _, List.prefix_rfl⟩
      · exact .refl s
    · exact .refl s
  | acquire index =>
    simp only [Shipper.step]
    split <;> exact extends_of_eq rfl rfl
  | flush | ship _ =>
    simp only [Shipper.step]
    split <;> exact extends_of_eq rfl rfl

theorem extends_run (events : List Event) : Extends s (s.run handleError events) := by
  induction events generalizing s with
  | nil => exact .refl s
  | cons event rest ih => exact (extends_step s event).trans ih

end

end TrustPortal.Proofs.Logging
