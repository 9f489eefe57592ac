import TrustPortal.Audit.Log

/-!
# `TrustPortal.Audit.Trigger`: `audit_trigger_func()` of migration 016

The trigger appends one row to `audit_log` for each audited change. `auditTrigger` is its
body: it replaces the digested columns, drops an UPDATE that changes only bookkeeping
columns, reads the last row's hash, and inserts the new row with the hash of its text.

The advisory lock serializes the appends, so a history of the table is a list of calls:
`runTriggers` applies them in order. A call that raises rolls its statement back and leaves
the table as it was, apart from the ids its sequence gave out (`gap`).
-/

set_option autoImplicit false

namespace TrustPortal.Audit

open TrustPortal.Sql

/-- The change an audited table reports: `to_jsonb(OLD)` and `to_jsonb(NEW)`. -/
inductive TriggerOp
  | insert (new : Members)
  | update (old new : Members)
  | delete (old : Members)

namespace TriggerOp

/-- `TG_OP`. -/
def name : TriggerOp → String
  | .insert _ => "INSERT"
  | .update _ _ => "UPDATE"
  | .delete _ => "DELETE"

/-- `to_jsonb(OLD)`, NULL for an INSERT. -/
def old : TriggerOp → Option Members
  | .insert _ => none
  | .update old _ => some old
  | .delete old => some old

/-- `to_jsonb(NEW)`, NULL for a DELETE. -/
def new : TriggerOp → Option Members
  | .insert new => some new
  | .update _ new => some new
  | .delete _ => none

end TriggerOp

/-- One firing of the trigger. `digested` are its arguments, the columns to record as
digests, each with whether the column is a `bytea`. `setting` is
`current_setting('app.current_team_member', true)`, `now` is `now()` in microseconds and
`gap` the number of ids the sequence skipped since the last row.

The last three fields are facts about the schema: a table name has at most 63 bytes, no
audited table digests its `id`, and every `id` is a `VARCHAR(36)` or an integer. -/
structure TriggerCall where
  schema : String
  table : String
  op : TriggerOp
  digested : List (String × Bool)
  setting : Option String
  now : Int
  gap : Nat
  table_fits : table.length ≤ 63
  id_plain : ∀ column ∈ digested, column.1 ≠ "id"
  id_fits : ∀ members, (op.new.or op.old) = some members →
    ∀ t, members.getText "id" = some t → t.length ≤ 36

/-- Why a call raises. -/
inductive TriggerError
  | notPublic (schema table : String)
  | valueTooLong (limit : Nat)
  | undefinedColumn (column : String)
  | nullValue (column : String)
  | sequenceLimit
  deriving DecidableEq, Repr

/-- Assignment to a `VARCHAR(n)`: a longer value is cut when it only loses spaces, and
refused otherwise. -/
def varchar (n : Nat) (s : String) : Except TriggerError String :=
  if s.length ≤ n then .ok s
  else if (s.toList.drop n).all (· == ' ') then .ok (String.ofList (s.toList.take n))
  else .error (.valueTooLong n)

/-- `varchar` on a value that may be NULL. -/
def varcharOrNull (n : Nat) : Option String → Except TriggerError (Option String)
  | none => .ok none
  | some s => (varchar n s).map some

/-- `NULLIF(setting, '')`. -/
def nullifEmpty : Option String → Option String
  | none => none
  | some s => if s = "" then none else some s

/-- One column replaced by `sha256:` and its digest, unless it is absent or null. A `bytea`
is rendered as `\x` and its bytes in hexadecimal. -/
def digestColumn (sha : Sha256) (members : Members) (column : String × Bool) : Members :=
  match members.get column.1 with
  | none => members
  | some .null => members
  | some _ =>
      let value := (members.getText column.1).getD ""
      let digest := if column.2 then sha.hexOfBytes (String.ofList (value.toList.drop 2))
        else sha.hexOfText value
      members.set column.1 (.string ("sha256:" ++ digest))

/-- The loop over the trigger arguments. -/
def digestColumns (sha : Sha256) (digested : List (String × Bool)) (members : Members) :
    Members :=
  digested.foldl (digestColumn sha) members

/-- The bookkeeping columns are not compared. -/
def withoutBookkeeping (members : Members) : Members :=
  (members.remove "updated_at").remove "heartbeat_at"

/-- An UPDATE that changes only bookkeeping columns. -/
def unchangedUpdate (op : TriggerOp) (old new : Option Members) : Bool :=
  match op, old, new with
  | .update _ _, some old, some new =>
      Json.same (.object (withoutBookkeeping old)) (.object (withoutBookkeeping new))
  | _, _, _ => false

/-- `SELECT row_hash … ORDER BY id DESC LIMIT 1`, 64 zeros when it is NULL. -/
def lastRowHash (log : AuditLog) : String := (log.last.bind AuditRow.rowHash).getD GENESIS_HASH

/-- The id the sequence gives next. -/
def nextId (log : AuditLog) (gap : Nat) : Int :=
  (match log.last with
    | none => 0
    | some row => row.id) + 1 + gap

/-- The largest `INTEGER`. -/
def maxInteger : Int := 2147483647

/-- A row that may be appended to a table: its id is larger than every id there. -/
structure NewRow (log : AuditLog) where
  row : AuditRow
  newest : ∀ old ∈ log.rows, old.id < row.id

/-- The table with a new row at its end. -/
def AuditLog.append (log : AuditLog) (new : NewRow log) : AuditLog where
  hasHashVersion := log.hasHashVersion
  rows := log.rows ++ [new.row]
  sorted := List.pairwise_append.mpr
    ⟨log.sorted, by simp, fun old hold _ hnew => by
      rw [List.mem_singleton.mp hnew]
      exact new.newest old hold⟩

/-- In a list sorted by id every id is at most the last one. -/
theorem id_le_getLast {rows : List AuditRow} (h : rows.Pairwise fun a b => a.id < b.id)
    {last row : AuditRow} (hlast : rows.getLast? = some last) (hrow : row ∈ rows) :
    row.id ≤ last.id := by
  obtain ⟨pre, rfl⟩ := List.getLast?_eq_some_iff.mp hlast
  rcases List.mem_append.mp hrow with hmem | hmem
  · exact le_of_lt ((List.pairwise_append.mp h).2.2 row hmem last (by simp))
  · rw [List.mem_singleton.mp hmem]

/-- The id the sequence gives is larger than every id of the table. -/
theorem lt_nextId (log : AuditLog) (gap : Nat) : ∀ old ∈ log.rows, old.id < nextId log gap := by
  intro old hold
  unfold nextId
  cases hlast : log.last with
  | none =>
    rw [AuditLog.last, List.getLast?_eq_none_iff] at hlast
    rw [hlast] at hold
    cases hold
  | some last =>
    have := id_le_getLast log.sorted hlast hold
    show old.id < last.id + 1 + gap
    omega

/-- `INSERT INTO public.audit_log (…)`: the columns' types and NOT NULL constraints, and the
id from the sequence. -/
def insertRow (log : AuditLog) (gap : Nat) (table : String) (recId : Option String)
    (action : String) (old new : Option String) (changedBy : Option String) (now : Timestamptz)
    (prevHash : String) (rowHash : Option String) : Except TriggerError (NewRow log) := do
  if log.hasHashVersion = false then throw (.undefinedColumn "hash_version")
  if maxInteger < nextId log gap then throw .sequenceLimit
  let table ← varchar 100 table
  let recId ← varcharOrNull 36 recId
  let action ← varchar 10 action
  match recId with
  | none => throw (.nullValue "record_id")
  | some recId =>
    return {
      row := {
        id := nextId log gap
        tableName := some table
        recordId := some recId
        action := some action
        oldValues := old
        newValues := new
        changedBy := changedBy
        changedAt := some now
        previousHash := some prevHash
        rowHash := rowHash
        hashVersion := some 2 }
      newest := lt_nextId log gap }

/-- `row_data`, the text the new row's hash is taken from. -/
def rowData (prevHash table : String) (recId : Option String) (op : String)
    (changedBy : Option String) (now : Timestamptz) (old new : Option String) :
    Option String :=
  textCat (textCat (textCat (textCat (textCat (textCat (textCat (some prevHash) (some table))
    recId) (some op)) (coalesceText changedBy)) (toCharUtc now)) (coalesceText old))
    (coalesceText new)

/-- `audit_trigger_func()`. The result is the row to append, or none when the change is not
audited. -/
def auditTrigger (sha : Sha256) (log : AuditLog) (call : TriggerCall) :
    Except TriggerError (Option (NewRow log)) := do
  if call.schema ≠ "public" then throw (.notPublic call.schema call.table)
  let changedBy ← varcharOrNull 36 (nullifEmpty call.setting)
  let oldJson := call.op.old.map (digestColumns sha call.digested)
  let newJson := call.op.new.map (digestColumns sha call.digested)
  if unchangedUpdate call.op oldJson newJson then return none
  let recId := (newJson.or oldJson).bind fun members => members.getText "id"
  let prevHash ← varchar 64 (lastRowHash log)
  let now := Timestamptz.micros call.now
  let data := rowData prevHash call.table recId call.op.name changedBy now
    (oldJson.map Members.text) (newJson.map Members.text)
  let row ← insertRow log call.gap call.table recId call.op.name (oldJson.map Members.text)
    (newJson.map Members.text) changedBy now prevHash (data.map sha.hexOfText)
  return some row

/-- The table after one firing. -/
def afterTrigger (sha : Sha256) (log : AuditLog) (call : TriggerCall) : AuditLog :=
  match auditTrigger sha log call with
  | .ok (some new) => log.append new
  | .ok none => log
  | .error _ => log

/-- The table after a list of firings, one at a time. -/
def runTriggers (sha : Sha256) (log : AuditLog) (calls : List TriggerCall) : AuditLog :=
  calls.foldl (afterTrigger sha) log

end TrustPortal.Audit
