import TrustPortal.EvidenceStore.Service
import Mathlib.Data.List.Sort

/-!
# `TrustPortal.EvidenceStore.Retention`: retention floors, transaction by transaction

A row of `evidence_store_retention_floors` is a bucket's retention floor until a later row of the
bucket. The first sync of a bucket writes the first one (`recordRetention`), an administrator the
others (`setRetentionFloor`), and the application's database role may insert any row. The trigger
`evidence_store_retention_floors_guard` dates each row by the start of its transaction and refuses
what it must (`retentionFloorsGuard`).

Transactions are at READ COMMITTED: a statement sees what is committed and what its transaction
wrote. The table is audited, so the statement trigger `audit_lock_evidence_store_retention_floors`
takes the audit chain's advisory lock before the guard runs for a row; the lock is kept to the end
of the transaction, and the guard's queries see what is committed by then. A write of any other
audited row takes the same lock (`Event.lockChain`). When a savepoint is rolled back, what was
written since is gone, and the lock is free again if it was taken since. A statement that fails
does the same up to the last savepoint, and then the transaction takes no other statement.

The foreign key of `set_by` and the lengths of the columns are left out: they refuse more rows.
-/

set_option autoImplicit false

namespace TrustPortal.EvidenceStore.Retention

/-! ## Rows -/

/-- A row of `evidence_store_retention_floors`. Times are in microseconds. -/
structure Floor where
  id : String
  bucket : String
  days : Int
  setAt : Int
  setBy : Option String
  reason : String
  createdAt : Int
  deriving DecidableEq, Repr

/-- The columns that an INSERT gives a value; the guard dates the row. -/
structure NewFloor where
  id : String
  bucket : String
  days : Int
  setBy : Option String
  reason : Option String
  deriving DecidableEq, Repr

/-- `pg_catalog.btrim(text)`: the text without the spaces around it. -/
def btrim (text : String) : String :=
  String.ofList ((text.toList.dropWhile (· = ' ')).reverse.dropWhile (· = ' ')).reverse

/-- `NEW.set_by IS NULL OR NEW.reason IS NULL OR pg_catalog.btrim(NEW.reason) = ''` -/
def NewFloor.isUnnamed (new : NewFloor) : Bool :=
  new.setBy.isNone || new.reason.all fun reason => btrim reason = ""

/-- `evidence_store_retention_floors_guard` for an INSERT in a transaction that started at `now`:
what it raises, or nothing. -/
def retentionFloorsGuard (visible : List Floor) (now : Int) (new : NewFloor) : Except String Unit :=
  if visible.any fun floor => floor.bucket = new.bucket && decide (now ≤ floor.setAt) then
    .error ("evidence_store_retention_floors: a floor is later than every floor of its bucket " ++
      "(INSERT refused)")
  else if new.isUnnamed && visible.any fun floor => floor.bucket = new.bucket then
    .error ("evidence_store_retention_floors: the floor changes only by an administrator with a " ++
      "reason (INSERT refused)")
  else .ok ()

/-- The row of an INSERT that the guard, the NOT NULL of `reason`, the CHECK of `days` and the
primary key let through. -/
def accept (visible : List Floor) (now : Int) (new : NewFloor) : Option Floor :=
  match retentionFloorsGuard visible now new, new.reason with
  | .ok (), some reason =>
    -- The trigger sets `set_at` and `created_at` to the start of the transaction.
    if 0 < new.days ∧ ∀ floor ∈ visible, floor.id ≠ new.id then
      some ⟨new.id, new.bucket, new.days, now, new.setBy, reason, now⟩
    else none
  | _, _ => none

/-! ## Reading the floors -/

section
variable (collation : String → String → Bool)

/-- A row is later than another one: by `set_at`, then by `id` in the database's order of
texts. -/
def isLater (later floor : Floor) : Bool :=
  decide (floor.setAt < later.setAt)
    || (decide (floor.setAt = later.setAt) && decide (floor.id ≠ later.id)
      && collation floor.id later.id)

/-- `WHERE bucket = :bucket ORDER BY set_at, id` -/
def inOrder (visible : List Floor) (bucket : String) : List Floor :=
  (visible.filter fun floor => floor.bucket = bucket).insertionSort fun floor later =>
    isLater collation later floor

/-- `service.retention_floor`: the first row in the descending order. -/
def retentionFloor (visible : List Floor) (bucket : String) : Option Floor :=
  (inOrder collation visible bucket).reverse.head?

/-- `verify.retention_floors`: the members of the dict. -/
def retentionFloors (visible : List Floor) : List (String × Int) :=
  (visible.filter fun floor =>
    !visible.any fun later => later.bucket = floor.bucket && isLater collation later floor).map
      fun floor => (floor.bucket, floor.days)

/-- A member of `lowerings`. -/
structure Lowering where
  fromDays : Int
  toDays : Int
  setAt : Int
  setBy : Option String
  reason : String
  deriving DecidableEq, Repr

/-- What `verify.retention_floor_history` returns. -/
structure History where
  lowerings : List Lowering
  issues : List String
  firstDays : Option Int
  deriving DecidableEq, Repr

/-- The rows that lower the floor of the row before them. -/
def lowerings (rows : List Floor) : List Lowering :=
  (rows.zip rows.tail).filterMap fun (earlier, later) =>
    if later.days < earlier.days then
      some ⟨earlier.days, later.days, later.setAt, later.setBy, later.reason⟩
    else none

/-- `verify.retention_floor_history`. `firstRun` is the id of the bucket's first sync run that has
read a retention, with the days. -/
def retentionFloorHistory (visible : List Floor) (firstRun : Option (String × Int))
    (bucket : String) : History :=
  let rows := inOrder collation visible bucket
  ⟨lowerings rows,
    match rows.head?, firstRun with
    | some first, some (runId, runDays) =>
      if first.days ≠ runDays then
        [s!"the bucket's first retention floor ({first.days} days) is not the default retention its " ++
          s!"first sync observed ({runDays} days, run {runId})"]
      else []
    | _, _ => [],
    rows.head?.map Floor.days⟩

/-! ## Writing a floor -/

/-- The row that `record_retention` adds for the period it read: none when there is no period or
the bucket has a floor. -/
def recordRetention (visible : List Floor) (bucket runId : String) (periodDays : Option Int)
    (id : String) : Option NewFloor :=
  match periodDays with
  | none => none
  | some days =>
    if days = 0 ∨ ∃ floor ∈ visible, floor.bucket = bucket then none
    else some ⟨id, bucket, days, none,
      some s!"initialized from the bucket's default retention by sync run {runId}"⟩

/-- `set_retention_floor`: the row it adds, or what it raises. `days` is none where the argument is
no whole number. -/
def setRetentionFloor (visible : List Floor) (bucket : String) (days : Option Int)
    (reason memberId id : String) : Except String NewFloor :=
  match reasonText reason with
  | .error message => .error message
  | .ok reason =>
    -- `bool` is no whole number either.
    match days.filter fun days => decide (1 ≤ days) with
    | none => .error "the floor is a whole number of days, at least 1"
    | some days =>
      match retentionFloor collation visible bucket with
      | none =>
        .error (s!"bucket {bucket} has no retention floor yet; its first sync sets it from the " ++
          "bucket's default retention")
      | some _ => .ok ⟨id, bucket, days, some memberId, some reason⟩

end

/-! ## Transactions -/

/-- What a transaction did between two savepoints: the floors it added, and whether it took the
lock. -/
structure Frame where
  rows : List Floor
  locked : Bool

/-- A transaction: when it started, what it did since the last savepoint and before it (the
innermost savepoint first), whether a statement failed, and the row that `set_retention_floor` is
about to insert. -/
structure Transaction where
  startedAt : Int
  inner : Frame
  outer : List Frame
  failed : Bool
  ready : Option NewFloor

namespace Transaction

/-- The floors that the transaction added, in their order. -/
def rows (t : Transaction) : List Floor := t.outer.reverse.flatMap Frame.rows ++ t.inner.rows

/-- The transaction has the lock. -/
def locked (t : Transaction) : Bool := t.inner.locked || t.outer.any Frame.locked

/-- The row is in the table, for this transaction. -/
def add (t : Transaction) (row : Floor) : Transaction :=
  { t with inner := { t.inner with rows := t.inner.rows ++ [row] } }

/-- A statement failed. -/
def fail (t : Transaction) : Transaction := { t with inner := ⟨[], false⟩, failed := true }

/-- `SAVEPOINT` -/
def savepoint (t : Transaction) : Transaction :=
  { t with inner := ⟨[], false⟩, outer := t.inner :: t.outer }

/-- `RELEASE SAVEPOINT` of the last one. -/
def release (t : Transaction) : Transaction :=
  match t.outer with
  | [] => t
  | frame :: outer =>
    { t with inner := ⟨frame.rows ++ t.inner.rows, frame.locked || t.inner.locked⟩, outer := outer }

/-- `ROLLBACK TO SAVEPOINT` of the last one, which stays. Up to an earlier one is the same again
after the release of the last one. -/
def rollbackTo (t : Transaction) : Transaction :=
  match t.outer with
  | [] => t
  | _ => { t with inner := ⟨[], false⟩, failed := false }

end Transaction

/-- The table, the transaction that has the lock, and the transactions. -/
structure Floors where
  committed : List Floor
  lock : Option Nat
  transactions : Nat → Option Transaction

/-- What happens next. A sync and an administrator run `recordRetention` and `setRetentionFloor`; the
latter reads first, and its INSERT is the `flush`. -/
inductive Event
  | begin (tx : Nat) (now : Int)
  | lockChain (tx : Nat)
  | recordRetention (tx : Nat) (bucket runId : String) (periodDays : Option Int) (id : String)
  | setRetentionFloor (tx : Nat) (bucket : String) (days : Option Int) (reason memberId id : String)
  | flush (tx : Nat)
  | insert (tx : Nat) (new : NewFloor)
  | savepoint (tx : Nat)
  | release (tx : Nat)
  | rollbackTo (tx : Nat)
  | commit (tx : Nat)
  | rollback (tx : Nat)

namespace Floors

/-- An empty table without transactions. -/
def start : Floors := ⟨[], none, fun _ => none⟩

/-- What a statement of a transaction sees; without a transaction, what is committed. -/
def visible (s : Floors) (tx : Nat) : List Floor :=
  s.committed ++ (s.transactions tx).elim [] Transaction.rows

/-- The transaction goes on, and its lock is free when it has lost it. -/
def put (s : Floors) (tx : Nat) (t : Transaction) : Floors :=
  { s with
    lock := if s.lock = some tx ∧ t.locked = false then none else s.lock
    transactions := fun other => if other = tx then some t else s.transactions other }

/-- The transaction ends, and with it its lock. -/
def finish (s : Floors) (tx : Nat) : Floors :=
  { s with
    lock := if s.lock = some tx then none else s.lock
    transactions := fun other => if other = tx then none else s.transactions other }

/-- `pg_advisory_xact_lock` of the audit chain: none while another transaction has it. -/
def lockChain (s : Floors) (tx : Nat) (t : Transaction) : Option (Floors × Transaction) :=
  match s.lock with
  | none =>
    let t := { t with inner := { t.inner with locked := true } }
    some ({ s with lock := some tx }, t)
  | some other => if other = tx then some (s, t) else none

/-- An INSERT of one row: the statement trigger, the guard and the constraints. It waits while
another transaction has the lock. -/
def insert (s : Floors) (tx : Nat) (t : Transaction) (new : NewFloor) : Floors :=
  match s.lockChain tx t with
  | none => s
  | some (s, t) =>
    match accept (s.committed ++ t.rows) t.startedAt new with
    | none => s.put tx t.fail
    | some row => s.put tx (t.add row)

/-- `record_retention`, from the UPDATE of the audited run to the INSERT. -/
def recordRetention (s : Floors) (tx : Nat) (t : Transaction) (bucket runId : String)
    (periodDays : Option Int) (id : String) : Floors :=
  match s.lockChain tx t with
  | none => s
  | some (s, t) =>
    -- The UPDATE has the lock, so no other transaction adds a floor before this INSERT.
    match Retention.recordRetention (s.committed ++ t.rows) bucket runId periodDays id with
    | none => s.put tx t
    | some new => s.insert tx t new

/-- A statement of a transaction: none when there is no such transaction or it has failed. -/
def statement (s : Floors) (tx : Nat) (run : Transaction → Floors) : Floors :=
  match s.transactions tx with
  | none => s
  | some t => if t.failed then s else run t

/-- One step of a transaction. -/
def step (collation : String → String → Bool) (s : Floors) : Event → Floors
  | .begin tx now =>
    match s.transactions tx with
    | none => s.put tx ⟨now, ⟨[], false⟩, [], false, none⟩
    | some _ => s
  | .lockChain tx => s.statement tx fun t => ((s.lockChain tx t).elim s fun (s, t) => s.put tx t)
  | .recordRetention tx bucket runId periodDays id =>
    s.statement tx fun t => s.recordRetention tx t bucket runId periodDays id
  | .setRetentionFloor tx bucket days reason memberId id =>
    s.statement tx fun t =>
      match setRetentionFloor collation (s.visible tx) bucket days reason memberId id with
      | .error _ => s
      | .ok new => s.put tx { t with ready := some new }
  | .flush tx => s.statement tx fun t => t.ready.elim s (s.insert tx { t with ready := none })
  | .insert tx new => s.statement tx fun t => s.insert tx t new
  | .savepoint tx => s.statement tx fun t => s.put tx t.savepoint
  | .release tx => s.statement tx fun t => s.put tx t.release
  | .rollbackTo tx => (s.transactions tx).elim s fun t => s.put tx t.rollbackTo
  | .commit tx =>
    match s.transactions tx with
    | none => s
    | some t =>
      -- The commit of a failed transaction is a rollback.
      if t.failed then s.finish tx else { s.finish tx with committed := s.committed ++ t.rows }
  | .rollback tx => s.finish tx

/-- The table after some steps. -/
def run (collation : String → String → Bool) (s : Floors) (events : List Event) : Floors :=
  events.foldl (step collation) s

end Floors

end TrustPortal.EvidenceStore.Retention
