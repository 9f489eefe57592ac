import TrustPortal.Python.Loads
import TrustPortal.Python.Lossy

/-!
# `TrustPortal.Logging.CloudWatch`: one record on its way into the shipping queue

`format` is `JsonFormatter.format` and `emit` is `CloudWatchLogsHandler.emit`: it formats a
record, encodes and cuts the text, and puts it in the queue unless the queue is full. `prepare`
is `emit` up to `_bytes_lock`, which touches nothing that the threads share, and
`Buffer.enqueue` is what it does under the lock.

A record's message and traceback come out of the caller's objects, so reading them can raise.
`except Exception` catches what is an `Exception`; `Raised.other` stands for the rest, such as a
`KeyboardInterrupt`. Python's own `Handler.handleError` is a parameter: it prints the error to
stderr, if there is one, and can raise as well.
-/

set_option autoImplicit false

namespace TrustPortal.Logging

open TrustPortal.Python

/-- `MAX_BATCH_EVENTS` -/
def MAX_BATCH_EVENTS : Nat := 10000

/-- `MAX_BATCH_BYTES` -/
def MAX_BATCH_BYTES : Nat := 1000000

/-- `MAX_EVENT_BYTES` -/
def MAX_EVENT_BYTES : Nat := 250000

/-- `EVENT_OVERHEAD` -/
def EVENT_OVERHEAD : Nat := 26

/-- `MAX_QUEUE_EVENTS` -/
def MAX_QUEUE_EVENTS : Nat := 50000

/-- `MAX_QUEUE_BYTES` -/
def MAX_QUEUE_BYTES : Nat := 16 * 1024 * 1024

/-- `_NO_SHIP_PREFIXES` -/
def NO_SHIP_PREFIXES : List Str := [str "botocore", str "boto3", str "urllib3", str "s3transfer"]

/-! ## Records -/

/-- What was raised: an `Exception`, or something that is none. -/
inductive Raised
  | exception
  | other
  deriving DecidableEq, Repr

/-- A text of ASCII characters. -/
abbrev AsciiText := { text : Str // ∀ c ∈ text, c.val < 0x80 }

/-- A `logging.LogRecord`, as the handler reads it. `excInfo` is none where `record.exc_info` is
falsy. -/
structure LogRecord where
  name : Str
  levelname : Str
  /-- The time, by `datetime.fromtimestamp(record.created, …).isoformat(…)`. -/
  ts : Except Raised AsciiText
  /-- `int(record.created * 1000)` -/
  millis : Int
  /-- `record.getMessage()` -/
  message : Except Raised Str
  process : Option Integer
  /-- `self.formatException(record.exc_info)` -/
  excInfo : Option (Except Raised Str)

/-- The member `exc_info` of the object, for a record with exception information. -/
def LogRecord.excInfoMember (record : LogRecord) : Except Raised (List (Str × Value)) :=
  match record.excInfo with
  | none => .ok []
  | some text => text.map fun text => [(str "exc_info", .str text)]

/-- `JsonFormatter.format` -/
def format (record : LogRecord) : Except Raised Str := do
  let ts ← record.ts
  let message ← record.message
  let excInfo ← record.excInfoMember
  return render escapeChar (.dict ([
    (str "ts", .str ts.val),
    (str "level", .str record.levelname),
    (str "logger", .str record.name),
    (str "message", .str message),
    (str "pid", record.process.elim .none .int)] ++ excInfo))

/-- The logger's records are shipped. -/
def LogRecord.isShipped (record : LogRecord) : Bool :=
  !NO_SHIP_PREFIXES.any fun start => start.isPrefixOf record.name

/-! ## The queue -/

/-- A record in the queue: its time, its text and the bytes that it counts for. The text has no
more bytes than are counted, and an item fits into a batch of its own. -/
structure Item where
  ts : Int
  message : Str
  size : Nat
  counted : (encodePass message).length + EVENT_OVERHEAD ≤ size
  small : size ≤ MAX_EVENT_BYTES + EVENT_OVERHEAD
  deriving DecidableEq

/-- The item of a text that was encoded, cut to `MAX_EVENT_BYTES`. -/
def Item.ofText (ts : Int) (message : Str) : Item :=
  if h : (encodePass message).length > MAX_EVENT_BYTES then
    let encoded := (encodePass message).take MAX_EVENT_BYTES
    ⟨ts, decodeIgnore encoded, encoded.length + EVENT_OVERHEAD,
      Nat.add_le_add_right (length_encodePass_decodeIgnore encoded) _,
      Nat.add_le_add_right (List.length_take_le _ _) _⟩
  else
    ⟨ts, message, (encodePass message).length + EVENT_OVERHEAD, Nat.le_refl _,
      Nat.add_le_add_right (Nat.le_of_not_gt h) _⟩

/-- What the handler keeps between calls. -/
structure Buffer where
  queue : List Item
  queuedBytes : Int
  carry : Option Item
  dropped : Nat

namespace Buffer

/-- `self._queued_bytes + size > self.MAX_QUEUE_BYTES` -/
def isFull (buffer : Buffer) (item : Item) : Bool :=
  decide (buffer.queuedBytes + item.size > MAX_QUEUE_BYTES)

/-- `self.dropped += 1` -/
def drop (buffer : Buffer) : Buffer := { buffer with dropped := buffer.dropped + 1 }

/-- `self._queue.put_nowait(…)`, none where it raises `queue.Full`. -/
def putNowait (buffer : Buffer) (item : Item) : Option Buffer :=
  if buffer.queue.length < MAX_QUEUE_EVENTS then
    some { buffer with queue := buffer.queue ++ [item] }
  else none

/-- `self._queued_bytes += size` -/
def addBytes (buffer : Buffer) (item : Item) : Buffer :=
  { buffer with queuedBytes := buffer.queuedBytes + item.size }

/-- `self._carry`, or else `self._queue.get_nowait()`: none where that raises `queue.Empty`. -/
def next (buffer : Buffer) : Option (Item × Buffer) :=
  match buffer.carry with
  | some item => some (item, { buffer with carry := none })
  | none =>
    match buffer.queue with
    | [] => none
    | item :: queue => some (item, { buffer with queue := queue })

/-- What `emit` does under `_bytes_lock`. -/
def enqueue (buffer : Buffer) (item : Item) : Buffer :=
  if buffer.isFull item then buffer.drop
  else
    match buffer.putNowait item with
    | none => buffer.drop
    | some buffer => buffer.addBytes item

end Buffer

/-! ## `emit` -/

section
variable (handleError : LogRecord → Except Raised Unit)

/-- `CloudWatchLogsHandler.emit` up to the lock: the item for the queue, none where it returns
without one. The text is encoded outside the `try`, so what that raises leaves `emit`. -/
def prepare (record : LogRecord) : Except Raised (Option Item) :=
  if record.isShipped then
    match format record with
    -- `except Exception`: a record that cannot be formatted is handed to `handleError`.
    | .error .exception => (handleError record).map fun _ => none
    | .error .other => .error .other
    | .ok message =>
      match encode message with
      -- a surrogate in the text
      | none => .error .exception
      | some _ => .ok (some (Item.ofText record.millis message))
  else .ok none

/-- `CloudWatchLogsHandler.emit` -/
def emit (buffer : Buffer) (record : LogRecord) : Except Raised Buffer :=
  (prepare handleError record).map fun item? => item?.elim buffer buffer.enqueue

end

end TrustPortal.Logging
