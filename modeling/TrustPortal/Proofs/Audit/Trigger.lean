import TrustPortal.Audit.Trigger
import TrustPortal.Lib.Except

/-!
# `TrustPortal.Proofs.Audit.Trigger`: what the trigger writes

`auditTrigger_spec` says once what a row appended by the trigger is like (`Written`): it
names the last row's hash as its previous hash, its own hash is the digest of its hashed
form, and the hashed form is not NULL. The last fact needs that no assignment cuts a value:
the columns the trigger writes are wide enough for what an audited table can hold.
-/

set_option autoImplicit false

namespace TrustPortal.Proofs.Audit

open TrustPortal.Sql
open TrustPortal.Audit
open TrustPortal.Lib

/-! ## The `id` member is not digested -/

theorem get_set_of_ne (members : Members) {name other : String} (value : Json)
    (h : other ≠ name) : (members.set name value).get other = members.get other := by
  unfold Members.set Members.get
  induction members with
  | nil => rfl
  | cons member rest ih =>
    obtain ⟨key, old⟩ := member
    by_cases hkey : key = name
    · subst hkey
      simp only [List.map_cons, if_true, List.lookup_cons, beq_eq_false_iff_ne.mpr h, ih]
    · simp only [List.map_cons, if_neg hkey, List.lookup_cons, ih]

private theorem get_digestColumns (sha : Sha256) (digested : List (String × Bool))
    (members : Members) {name : String} (h : ∀ column ∈ digested, column.1 ≠ name) :
    (digestColumns sha digested members).get name = members.get name := by
  unfold digestColumns
  induction digested generalizing members with
  | nil => rfl
  | cons column rest ih =>
    rw [List.foldl_cons, ih _ fun c hc => h c (List.mem_cons_of_mem _ hc)]
    unfold digestColumn
    split
    · rfl
    · rfl
    · exact get_set_of_ne _ _ (h column List.mem_cons_self).symm

/-- The record id is that of the row before its columns were digested. -/
private theorem recId_eq (sha : Sha256) (call : TriggerCall) :
    (((call.op.new.map (digestColumns sha call.digested)).or
        (call.op.old.map (digestColumns sha call.digested))).bind
      fun members => members.getText "id")
      = (call.op.new.or call.op.old).bind fun members => members.getText "id" := by
  rw [← Option.map_or]
  cases call.op.new.or call.op.old with
  | none => rfl
  | some members =>
    simp only [Option.map_some, Option.bind_some, Members.getText,
      get_digestColumns sha call.digested members call.id_plain]

/-! ## No assignment cuts a value -/

theorem varchar_of_le {n : Nat} {s : String} (h : s.length ≤ n) : varchar n s = .ok s :=
  if_pos h

theorem length_name_le (op : TriggerOp) : op.name.length ≤ 10 := by
  cases op <;> simp [TriggerOp.name] <;> decide

private theorem varcharOrNull_recId (call : TriggerCall) :
    varcharOrNull 36 ((call.op.new.or call.op.old).bind fun members => members.getText "id")
      = .ok ((call.op.new.or call.op.old).bind fun members => members.getText "id") := by
  cases hmembers : call.op.new.or call.op.old with
  | none => rfl
  | some members =>
    rw [Option.bind_some]
    cases hid : members.getText "id" with
    | none => rfl
    | some t => rw [varcharOrNull, varchar_of_le (call.id_fits members hmembers t hid)]; rfl

/-! ## The row -/

/-- The row is one the trigger appends to `log`. -/
structure Written (sha : Sha256) (log : AuditLog) (row : AuditRow) : Prop where
  hasHashVersion : log.hasHashVersion = true
  hashVersion : row.hashVersion = some 2
  notAnchor : row.action ≠ some "ANCHOR"
  newest : ∀ old ∈ log.rows, old.id < row.id
  previousHash : ∃ prev, varchar 64 (lastRowHash log) = .ok prev ∧ row.previousHash = some prev
  hashed : ∃ t, hashedForm true row = some t ∧ row.rowHash = some (sha.hexOfText t)

theorem name_ne_anchor (op : TriggerOp) : op.name ≠ "ANCHOR" := by
  cases op <;> simp [TriggerOp.name]

/-- `insertRow` of values its columns can hold: the row as given, under the next id. -/
theorem insertRow_eq_ok {log : AuditLog} {gap : Nat} {table : String} {recId : Option String}
    {op : TriggerOp} {old new changedBy : Option String} {now : Timestamptz} {prevHash : String}
    {rowHash : Option String} {result : NewRow log} (htable : table.length ≤ 63)
    (hrecId : varcharOrNull 36 recId = .ok recId)
    (h : insertRow log gap table recId op.name old new changedBy now prevHash rowHash
      = .ok result) :
    log.hasHashVersion = true ∧ nextId log gap ≤ maxInteger ∧ ∃ id, recId = some id ∧
      result.row = ⟨nextId log gap, some table, some id, some op.name, old, new, changedBy,
        some now, some prevHash, rowHash, some 2⟩ := by
  unfold insertRow at h
  simp only [throw_bind, ite_error_eq_ok, varchar_of_le (show table.length ≤ 100 by omega),
    hrecId, varchar_of_le (length_name_le op)] at h
  obtain ⟨hcolumn, hlimit, h⟩ := h
  refine ⟨by simpa using hcolumn, not_lt.mp hlimit, ?_⟩
  cases recId with
  | none => cases h
  | some id =>
    cases h
    exact ⟨id, rfl, rfl⟩

/-- The text the trigger hashes is the text `verify_chain` hashes for the row. -/
theorem rowData_eq_hashedForm {prevHash table id : String} {op : TriggerOp}
    {changedBy old new : Option String} {now : Int} {row : AuditRow} {rowId : Int}
    {rowHash : Option String}
    (hrow : row = ⟨rowId, some table, some id, some op.name, old, new, changedBy,
      some (.micros now), some prevHash, rowHash, some 2⟩) :
    ∃ t, rowData prevHash table (some id) op.name changedBy (.micros now) old new = some t ∧
      hashedForm true row = some t := by
  obtain ⟨time, htime⟩ := toCharUtc_micros now
  subst hrow
  refine ⟨prevHash ++ table ++ id ++ op.name ++ changedBy.getD "" ++ time ++ old.getD ""
    ++ new.getD "", ?_, ?_⟩
  · simp only [rowData, htime, coalesceText_eq, textCat_some]
  · simp only [hashedForm, v2Part, AuditRow.changedAtText, Option.bind_some, htime,
      coalesceText_eq, textCat_some, if_true, Option.getD_some, String.append_assoc]

/-- The row the trigger appends, column by column. -/
theorem auditTrigger_row {sha : Sha256} {log : AuditLog} {call : TriggerCall}
    {new : NewRow log} (h : auditTrigger sha log call = .ok (some new)) :
    log.hasHashVersion = true ∧ nextId log call.gap ≤ maxInteger ∧
      ∃ prev id changedBy oldValues newValues,
      varchar 64 (lastRowHash log) = .ok prev ∧
      new.row = ⟨nextId log call.gap, some call.table, some id, some call.op.name, oldValues,
        newValues, changedBy, some (.micros call.now), some prev,
        (rowData prev call.table (some id) call.op.name changedBy (.micros call.now) oldValues
          newValues).map sha.hexOfText, some 2⟩ := by
  unfold auditTrigger at h
  simp only [throw_bind, ite_error_eq_ok, bind_eq_ok] at h
  obtain ⟨_, changedBy, _, h⟩ := h
  split at h
  · cases h
  · simp only [bind_eq_ok] at h
    obtain ⟨prev, hprev, row, hrow, hresult⟩ := h
    cases hresult
    rw [recId_eq] at hrow
    obtain ⟨hcolumn, hlimit, id, hid, hnew⟩ :=
      insertRow_eq_ok call.table_fits (varcharOrNull_recId call) hrow
    rw [hid] at hnew
    exact ⟨hcolumn, hlimit, prev, id, changedBy, _, _, hprev, hnew⟩

/-- What a row that the trigger appends is like. -/
theorem auditTrigger_spec {sha : Sha256} {log : AuditLog} {call : TriggerCall}
    {new : NewRow log} (h : auditTrigger sha log call = .ok (some new)) :
    Written sha log new.row := by
  obtain ⟨hcolumn, _, prev, id, changedBy, oldValues, newValues, hprev, hnew⟩ :=
    auditTrigger_row h
  obtain ⟨t, hdata, hform⟩ := rowData_eq_hashedForm hnew
  rw [hdata] at hnew
  refine ⟨hcolumn, by rw [hnew], ?_, new.newest, ⟨prev, hprev, by rw [hnew]⟩, t, hform, by
    rw [hnew]; rfl⟩
  rw [hnew]
  exact fun hact => name_ne_anchor call.op (Option.some.inj hact)

end TrustPortal.Proofs.Audit
