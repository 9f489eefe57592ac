import TrustPortal.Proofs.Logging.Queue

/-!
# `TrustPortal.Proofs.Logging.Shipping`: every record is shipped once or counted

`Sound` says what the queue promises in every state that an interleaving of calls reaches. The
items queued are in the batches and inside, in the order of the queue, and stay where they are put;
and they all get into batches once the thread of `flush` runs on (`shipping_continues`), which
takes a bounded number of steps, since each one lowers `remaining`.

The count of the records is what goes wrong: `emit` neither queues a record whose text cannot be
encoded nor counts it in `dropped`. `shipping_queue` says that it is right when there is no such
record.
-/

set_option autoImplicit false

namespace TrustPortal.Proofs.Logging

open TrustPortal.Python
open TrustPortal.Logging

/-- A record of a logger that is shipped, each of whose parts can be read. -/
def isFormatted (record : LogRecord) : Bool := record.isShipped && (failure record).isNone

/-- Every record that is formatted was queued or counted in `dropped`, or its call of `emit` has
not returned. -/
def Counted (s : Shipper) (records : List LogRecord) : Prop :=
  (records.filter isFormatted).length
    = s.accepted.length + s.buffer.dropped + s.undecided.length

instance (s : Shipper) (records : List LogRecord) : Decidable (Counted s records) :=
  inferInstanceAs (Decidable (_ = _))

/-- A step of the `emit` that has the lock, or of the thread in `flush` while `put_log_events`
returns. -/
def isShipping : Event → Bool
  | .emitStep | .flush | .drainStep | .ship true => true
  | _ => false

section
variable {handleError : LogRecord → Except Raised Unit} {s : Shipper} {record : LogRecord}
  {item : Item}

/-! ## Everything gets into a batch -/

/-- The step that takes the threads on. -/
private def nextStep (s : Shipper) : Event :=
  match s.lock, s.flushing with
  | .free, .idle => .flush
  | .free, .shipping _ => .ship true
  | .free, _ => .drainStep
  | _, _ => .emitStep

/-- A bound on the steps that are left until all items are in batches. An item counts the more, the
less far it is on its way. -/
private def remaining (s : Shipper) : Nat :=
  20 * s.pending.length
    + (match s.flushing with
      | .idle | .shipping _ => 1
      | .taking events => 18 * events.length
      | .holding events _ => 18 * events.length + 19
      | .subtracting events => 8 * events.length + 2)
    + (match s.lock with
      | .free => 0
      | .checking _ => 23
      | .putting _ => 22
      | .adding _ => 1)

private theorem isShipping_nextStep (s : Shipper) : isShipping (nextStep s) = true := by
  unfold nextStep
  split <;> rfl

/-- The `emit` that has the lock comes to its end. -/
private theorem remaining_emitStep (h : s.lock ≠ .free) : remaining s.emitStep < remaining s := by
  obtain ⟨buffer, waiting, lock, flushing, records, accepted, refused, batches, sent⟩ := s
  cases lock with
  | free => exact absurd rfl h
  | checking item =>
    simp only [Shipper.emitStep]
    split_ifs
    · simp only [remaining, Shipper.refuse, Shipper.pending, Buffer.drop]
      omega
    · simp only [remaining, Shipper.pending]
      omega
  | putting item =>
    simp only [Shipper.emitStep, Buffer.putNowait]
    split_ifs
    · simp only [remaining, Shipper.pending, List.length_append, List.length_singleton]
      omega
    · simp only [remaining, Shipper.refuse, Shipper.pending, Buffer.drop]
      omega
  | adding item =>
    simp only [Shipper.emitStep, remaining, Shipper.pending, Buffer.addBytes]
    omega

/-- `_drain` takes the next record, or it has a batch. -/
private theorem remaining_take {events : List Item} (htaking : s.flushing = .taking events)
    (hinside : s.inside ≠ []) : remaining s.drainStep < remaining s := by
  obtain ⟨⟨queue, bytes, carry, dropped⟩, waiting, lock, flushing, records, accepted, refused,
    batches, sent⟩ := s
  cases htaking
  have hpending : events = [] → Shipper.pending ⟨⟨queue, bytes, carry, dropped⟩, waiting, lock,
      .taking events, records, accepted, refused, batches, sent⟩ ≠ [] := by
    rintro rfl
    exact hinside
  have hlength : events ≠ [] → 0 < events.length := List.length_pos_of_ne_nil
  simp only [Shipper.drainStep]
  split_ifs with hroom
  · cases carry with
    | some item =>
      simp only [Buffer.next, remaining, Shipper.pending, Option.toList_some, Option.toList_none,
        List.length_append, List.length_singleton, List.length_nil]
      omega
    | none =>
      cases queue with
      | cons item queue =>
        simp only [Buffer.next, remaining, Shipper.pending, List.length_append, List.length_cons]
        omega
      | nil =>
        -- Nothing is left to take, so the batch has a record.
        have hfirst := hlength fun hempty => hpending hempty rfl
        simp only [Buffer.next, remaining, Shipper.pending]
        omega
  · have hfirst : 0 < events.length := Nat.lt_of_lt_of_le (by decide) (Nat.le_of_not_gt hroom)
    simp only [remaining, Shipper.pending]
    omega

/-- `_drain` puts the record in its hand somewhere. -/
private theorem remaining_place {events : List Item} (hholding : s.flushing = .holding events item) :
    remaining s.drainStep < remaining s := by
  obtain ⟨⟨queue, bytes, carry, dropped⟩, waiting, lock, flushing, records, accepted, refused,
    batches, sent⟩ := s
  cases hholding
  simp only [Shipper.drainStep]
  split_ifs with hfull
  · have hfirst := List.length_pos_of_ne_nil hfull.2
    simp only [remaining, Shipper.pending, Option.toList_some, List.length_append,
      List.length_singleton]
    omega
  · simp only [remaining, Shipper.pending, List.length_append, List.length_singleton]
    omega

/-- `_drain` has subtracted its batch. -/
private theorem remaining_subtract {events : List Item} (hlock : s.lock = .free)
    (hsubtracting : s.flushing = .subtracting events) : remaining s.drainStep < remaining s := by
  obtain ⟨buffer, waiting, lock, flushing, records, accepted, refused, batches, sent⟩ := s
  cases hlock
  cases hsubtracting
  simp only [Shipper.drainStep]
  split_ifs with hempty
  · simp only [remaining, Shipper.pending]
    omega
  · simp only [remaining, Shipper.pending]
    omega

/-- The threads come on. -/
private theorem remaining_nextStep (h : s.lock ≠ .free ∨ s.inside ≠ []) :
    remaining (s.step handleError (nextStep s)) < remaining s := by
  by_cases hlock : s.lock = .free
  · have hinside := h.resolve_left (not_not_intro hlock)
    cases hflushing : s.flushing with
    | idle =>
      rw [nextStep, hlock, hflushing]
      simp only [Shipper.step, hflushing, remaining, Shipper.pending]
      simp
    | shipping events =>
      rw [nextStep, hlock, hflushing]
      simp only [Shipper.step, hflushing, remaining, Shipper.pending]
      simp
    | taking events =>
      rw [nextStep, hlock, hflushing]
      exact remaining_take hflushing hinside
    | holding events item =>
      rw [nextStep, hlock, hflushing]
      exact remaining_place hflushing
    | subtracting events =>
      rw [nextStep, hlock, hflushing]
      exact remaining_subtract hlock hflushing
  · have hnext : nextStep s = .emitStep := by
      rw [nextStep]
      split <;> first | rfl | contradiction
    rw [hnext]
    exact remaining_emitStep hlock

/-- From every state the threads that are under way can put everything in batches. -/
theorem shipping_continues (handleError : LogRecord → Except Raised Unit) (s : Shipper) :
    ∃ more, more.all isShipping = true ∧ (s.run handleError more).inside = [] := by
  by_cases h : s.lock ≠ .free ∨ s.inside ≠ []
  · have hless := @remaining_nextStep handleError s h
    obtain ⟨more, hmore, hinside⟩ :=
      shipping_continues handleError (s.step handleError (nextStep s))
    refine ⟨nextStep s :: more, ?_, hinside⟩
    rw [List.all_cons, isShipping_nextStep, hmore, Bool.true_and]
  · exact ⟨[], rfl, not_not.mp (not_or.mp h).2⟩
  termination_by remaining s

/-! ## Counting -/

/-- A record gets to the queue when it is formatted and its text can be encoded. -/
theorem itemOf_isSome_iff :
    (itemOf handleError record).isSome = true ↔ isFormatted record = true ∧ IsUnicode record := by
  rw [isFormatted, itemOf, prepare]
  cases hshipped : record.isShipped with
  | false => simp
  | true =>
    cases hformat : format record with
    | error raised =>
      rw [format_eq_error_iff.mp hformat]
      cases raised with
      | other => simp
      | exception => cases handleError record <;> simp [Except.map]
    | ok message =>
      rw [format_isOk_iff.mp ⟨message, hformat⟩, ← encode_format_iff hformat]
      cases hencode : encode message with
      | none => simp [hencode]
      | some _ => simp [hencode]

/-- There are as many items as formatted records when the text of each can be encoded. -/
private theorem length_items_iff (records : List LogRecord) :
    (records.filter isFormatted).length = (records.filterMap (itemOf handleError)).length
      ↔ ∀ record ∈ records, isFormatted record = true → IsUnicode record := by
  have hle : ∀ records : List LogRecord, (records.filterMap (itemOf handleError)).length
      ≤ (records.filter isFormatted).length := by
    intro records
    rw [List.length_filterMap_eq_countP, ← List.countP_eq_length_filter]
    exact List.countP_mono_left fun record _ h => (itemOf_isSome_iff.mp h).1
  induction records with
  | nil => simp
  | cons record rest ih =>
    have hrest := hle rest
    refine Iff.trans ?_ ((and_congr_right fun _ => ih).trans List.forall_mem_cons.symm)
    cases hitem : itemOf handleError record with
    | some item =>
      obtain ⟨hformatted, hunicode⟩ := itemOf_isSome_iff.mp (Option.isSome_of_eq_some hitem)
      rw [List.filter_cons_of_pos hformatted, List.filterMap_cons_some hitem]
      simp [hunicode]
    | none =>
      rw [List.filterMap_cons_none hitem]
      cases hformatted : isFormatted record with
      | false =>
        rw [List.filter_cons_of_neg (by simp [hformatted])]
        simp
      | true =>
        -- A formatted record without an item is one too many.
        have hunicode : ¬IsUnicode record := by
          intro hunicode
          have hsome : (itemOf handleError record).isSome = true :=
            itemOf_isSome_iff.mpr ⟨hformatted, hunicode⟩
          rw [hitem] at hsome
          cases hsome
        rw [List.filter_cons_of_pos hformatted, List.length_cons]
        simp only [hunicode, imp_false, not_true_eq_false, false_and, iff_false]
        omega

/-! ## Every interleaving -/

/-- What the queue promises, but for the count of the records. -/
structure Sound (handleError : LogRecord → Except Raised Unit) (s : Shipper) : Prop where
  /-- The count of bytes is within its bounds at every time. -/
  bounds : 0 ≤ s.buffer.queuedBytes ∧ s.buffer.queuedBytes ≤ MAX_QUEUE_BYTES
  /-- Whoever reads the count outside a drain reads the size of the queue and the carry slot. -/
  count : s.isOutsideDrain → ∀ bytes, s.queuedBytes = some bytes → bytes = totalSize s.pending
  /-- Each item queued is in one batch or inside, and the order is that of the queue. -/
  order : s.accepted = s.batches.flatten ++ s.inside
  /-- No step takes a batch or a queued item back. -/
  kept : ∀ more, Extends s (s.run handleError more)
  /-- What is inside gets into batches. -/
  shipped : ∃ more, more.all isShipping = true
    ∧ (s.run handleError more).accepted = (s.run handleError more).batches.flatten
  /-- Batches are within the limits, also with the bytes that their messages have. -/
  limits : ∀ batch ∈ s.batches, batch.length ≤ MAX_BATCH_EVENTS
    ∧ totalSize batch ≤ MAX_BATCH_BYTES
    ∧ (batch.map fun item => (encodePass item.message).length + EVENT_OVERHEAD).sum ≤ MAX_BATCH_BYTES
  /-- What `put_log_events` is called with are the batches in turn, each sorted by time. -/
  sorted : s.batches.map sortedEvents = s.sent ++ leaving s
    ∧ ∀ batch ∈ s.batches, (sortedEvents batch).Pairwise (fun a b => a.1 ≤ b.1)
      ∧ (sortedEvents batch).Perm (batch.map Item.event)

/-- The messages of a batch have no more bytes than are counted. -/
private theorem messageBytes_le (batch : List Item) :
    (batch.map fun item => (encodePass item.message).length + EVENT_OVERHEAD).sum
      ≤ totalSize batch := by
  induction batch with
  | nil => exact Nat.le_refl 0
  | cons item rest ih =>
    rw [List.map_cons, List.sum_cons, totalSize, List.map_cons, List.sum_cons]
    exact Nat.add_le_add item.counted ih

/-- The byte count is never negative: an item that an `emit` has yet to add is still inside. -/
private theorem queuedBytes_nonneg (h : Inv handleError s) : 0 ≤ s.buffer.queuedBytes := by
  have hbytes := h.bytes
  have hless : uncounted s ≤ totalSize s.inside := by
    rw [uncounted]
    split
    · next item hlock => exact size_le_totalSize (h.added item hlock)
    · exact Nat.zero_le _
  omega

theorem Inv.sound (h : Inv handleError s) : Sound handleError s where
  bounds := ⟨queuedBytes_nonneg h, h.bound⟩
  count := by
    intro houtside bytes hread
    have hcount := h.bytes
    have htaken : s.taken = [] := by
      rw [Shipper.isOutsideDrain] at houtside
      rw [Shipper.taken]
      cases hflushing : s.flushing <;> rw [hflushing] at houtside <;> first | rfl | cases houtside
    rw [Shipper.queuedBytes] at hread
    cases hlock : s.lock with
    | free =>
      rw [uncounted, hlock, Shipper.inside, htaken] at hcount
      rw [hlock] at hread
      cases hread
      exact (add_zero _).symm.trans hcount
    | checking _ | putting _ | adding _ =>
      rw [hlock] at hread
      cases hread
  order := h.order
  kept := fun more => extends_run more
  shipped := by
    obtain ⟨more, hmore, hinside⟩ := shipping_continues handleError s
    refine ⟨more, hmore, ?_⟩
    have horder := (inv_run h more).order
    rwa [hinside, List.append_nil] at horder
  limits := by
    intro batch hbatch
    obtain ⟨hlength, hsize⟩ := (h.batches batch hbatch).2
    exact ⟨hlength, hsize, (messageBytes_le batch).trans hsize⟩
  sorted := ⟨h.sent, fun batch _ =>
    ⟨List.pairwise_insertionSort _ _, List.perm_insertionSort _ _⟩⟩

/-- Every interleaving of calls of `emit` with flushes is sound, and every record that is formatted
is queued or counted, if and only if no such record has a surrogate in its texts. -/
theorem shipping_queue (handleError : LogRecord → Except Raised Unit) (events : List Event) :
    Sound handleError (Shipper.start.run handleError events)
      ∧ (Counted (Shipper.start.run handleError events) (emitted events)
        ↔ ∀ record ∈ emitted events, isFormatted record = true → IsUnicode record) := by
  have h : Inv handleError (Shipper.start.run handleError events) := inv_run inv_start events
  refine ⟨h.sound, ?_⟩
  have hrecords : (Shipper.start.run handleError events).records = emitted events :=
    (records_run events).trans (List.nil_append _)
  have hlength := h.decided.length_eq
  rw [hrecords, List.length_append, List.length_append, ← h.dropped] at hlength
  rw [Counted, hlength]
  exact length_items_iff (emitted events)

/-- A record with an unpaired surrogate is neither queued nor counted. -/
theorem record_not_counted :
    ¬∀ events : List Event,
      Counted (Shipper.start.run (fun _ => .ok ()) events) (emitted events) := by
  intro h
  exact absurd (h [.emit surrogateRecord]) (by decide)

/-! ## One call -/

/-- A call of `emit` that no other call or flush comes between leaves what `emit` returns. -/
theorem buffer_run_emit (hwaiting : s.waiting = []) (hlock : s.lock = .free) {after : Buffer}
    (h : emit handleError s.buffer record = .ok after) :
    (s.run handleError [.emit record, .acquire 0, .emitStep, .emitStep, .emitStep]).buffer
      = after := by
  obtain ⟨buffer, waiting, lock, flushing, records, accepted, refused, batches, sent⟩ := s
  cases hwaiting
  cases hlock
  rw [emit] at h
  cases hprepare : prepare handleError record with
  | error _ =>
    rw [hprepare] at h
    cases h
  | ok item? =>
    rw [hprepare] at h
    cases item? with
    | none =>
      cases h
      simp [Shipper.run, Shipper.step, hprepare, Shipper.emitStep]
    | some item =>
      cases h
      simp only [Option.elim_some, Buffer.enqueue, Shipper.run, List.foldl_cons, List.foldl_nil,
        Shipper.step, hprepare, List.nil_append, List.getElem?_cons_zero]
      by_cases hfull : buffer.isFull item = true
      · simp [Shipper.emitStep, Shipper.refuse, hfull]
      · cases hput : buffer.putNowait item with
        | none => simp [Shipper.emitStep, Shipper.refuse, hfull, hput]
        | some _ => simp [Shipper.emitStep, hfull, hput]

end

end TrustPortal.Proofs.Logging
