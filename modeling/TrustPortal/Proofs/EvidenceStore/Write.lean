import TrustPortal.Proofs.EvidenceStore.Guard

/-!
# `TrustPortal.Proofs.EvidenceStore.Write`: the statements of one write

`Writes recordId db after` says that the guard accepts every statement sent between `db` and
`after`, and that no row but the one of `recordId` changed. `write_writes` shows it of a whole
write, with its second attempt, its refusal and its failure record.

The write of a `Conflict` sets the attempts of the version to 0. `AttemptsKept` is the condition
under which this does not meet the guard: the record has no failed attempt, or the plan does not
conflict, or the transaction that would send the new attempts ends before.
-/

set_option autoImplicit false

namespace TrustPortal.Proofs.EvidenceStore

open TrustPortal.Sql
open TrustPortal.EvidenceStore

/-! ## Statements that leave the other rows -/

/-- The guard accepts every statement sent, and no other row changed. -/
structure Writes (recordId : Option String) (db after : Database) : Prop where
  admitted : ∀ statement ∈ after.issued, statement ∈ db.issued ∨ statement.admitted = true
  frame : ∀ id row, recordId ≠ some id → db.objects.get id = some row →
    after.objects.get id = some row

section
variable {recordId : Option String} {db after last : Database}

theorem writes_refl (recordId : Option String) (db : Database) : Writes recordId db db :=
  ⟨fun _ h => .inl h, fun _ _ _ h => h⟩

theorem Writes.trans (h : Writes recordId db after) (h' : Writes recordId after last) :
    Writes recordId db last := by
  constructor
  · intro statement hmem
    rcases h'.admitted statement hmem with hbefore | hok
    · exact h.admitted statement hbefore
    · exact .inr hok
  · intro id row hid hrow
    exact h'.frame id row hid (h.frame id row hid hrow)

/-- A rollback keeps the statements and restores the rows. -/
theorem Writes.rollback (h : Writes recordId db after) : Writes recordId db (after.rollback db) :=
  ⟨h.admitted, fun _ _ _ hrow => hrow⟩

/-- An accepted statement, at the database. -/
theorem send_writes {now : Int} {statement : Statement} (hadmitted : statement.admitted = true)
    (hid : ∀ old new, statement = .update old new → recordId = some new.id) :
    Writes recordId db (db.send now statement).1 := by
  have hissued : ∀ s ∈ (db.send now statement).1.issued, s ∈ db.issued ∨ s.admitted = true := by
    intro s hs
    have hmem : s ∈ db.issued ++ [statement] := by
      unfold Database.send at hs
      split at hs <;> exact hs
    rcases List.mem_append.mp hmem with hbefore | hnow
    · exact .inl hbefore
    · rw [List.mem_singleton.mp hnow]
      exact .inr hadmitted
  refine ⟨hissued, ?_⟩
  intro id row hne hrow
  unfold Database.send
  split
  · rename_i objects happly
    show objects.get id = some row
    cases statement with
    | insert new =>
      simp only [Database.apply] at happly
      split at happly
      · cases happly
      · split at happly
        · cases happly
        · split at happly
          · rename_i objects' hinsert
            cases happly
            rw [Table.get_insert hinsert, if_neg]
            · exact hrow
            · -- the id of a row that is there is not free for the new one
              intro heq
              unfold Table.insert at hinsert
              split at hinsert
              · cases hinsert
              · rename_i hfree
                apply hfree
                rw [heq, ← Table.key_of_get hrow]
                exact List.mem_map_of_mem (Table.mem_of_get hrow)
          · cases happly
    | update old new =>
      simp only [Database.apply] at happly
      split at happly
      · cases happly
      · cases happly
        rw [Table.get_put, if_neg]
        · exact hrow
        · intro heq
          exact hne (heq ▸ hid old new rfl)
  · exact hrow

end

/-! ## One transaction -/

section
variable {checks : Checks} {bucket : String} {fetched : Fetched} {answers : Answers}
  {db : Database} {status : Status} {extra : List String} {attempts : Nat}
  {lead : Option String}

/-- The guard accepts the record of a version with a status and attempts. -/
def Accepts (db : Database) (fetched : Fetched) (status : Status) (attempts : Nat) : Prop :=
  ∀ bucket objectId detail,
    (recordStatement db bucket fetched objectId status detail attempts).admitted = true

/-- `_record` writes the row of its version only. -/
theorem record_writes
    (haccepts : answers.writing = none → Accepts db fetched status attempts) :
    Writes fetched.recordId db
      (record db bucket fetched answers status extra attempts lead).db := by
  unfold record
  split
  · exact writes_refl _ db
  · rename_i hwriting
    have hsent : Writes fetched.recordId db (db.send answers.now (recordStatement db bucket fetched
        (fetched.objectId answers) status (detailText fetched extra lead) attempts)).1 := by
      apply send_writes (haccepts hwriting bucket _ _)
      intro old new hstatement
      unfold recordStatement at hstatement
      split at hstatement
      · cases hstatement
      · rename_i row hrow
        cases hstatement
        obtain ⟨id, hid, hget⟩ := Option.bind_eq_some_iff.mp hrow
        rw [hid]
        exact congrArg some (Table.key_of_get hget).symm
    split <;> rename_i hsend <;> rw [hsend] at hsent <;> exact hsent

/-- `_record` leaves the fetched version as it is. -/
theorem record_fetched :
    (record db bucket fetched answers status extra attempts lead).fetched = fetched := by
  unfold record
  split
  · rfl
  · split <;> rfl

/-- What `_record` raises for a stored record, when the guard accepts its statement: the
fault it meets. -/
theorem record_fault {row : StoreObject} {failure : Failure}
    (hrow : fetched.recordId.bind db.objects.get = some row)
    (haccepts : answers.writing = none → Accepts db fetched status attempts)
    (h : (record db bucket fetched answers status extra attempts lead).result = .error failure) :
    ∃ fault, failure = .fault fault ∧ answers.writing = some fault := by
  unfold record at h
  split at h
  · rename_i fault hfault
    cases h
    exact ⟨fault, rfl, hfault⟩
  · rename_i hwriting
    have hadmitted := haccepts hwriting bucket (fetched.objectId answers)
      (detailText fetched extra lead)
    simp only [recordStatement, hrow, Statement.admitted] at hadmitted
    simp [Database.send, Database.apply, recordStatement, hrow, hadmitted] at h

/-- `_record` raises no deadlock and no lost lock but the fault it meets. -/
theorem record_raises {failure : Failure}
    (h : (record db bucket fetched answers status extra attempts lead).result = .error failure) :
    ∃ fault, failure = .fault fault
      ∧ (answers.writing = some fault ∨ (answers.writing = none ∧ ∃ cause, fault = .other cause)) := by
  unfold record at h
  split at h
  · rename_i fault hfault
    cases h
    exact ⟨fault, rfl, .inl hfault⟩
  · rename_i hwriting
    split at h
    · cases h
    · rename_i fault hsend
      cases h
      refine ⟨_, rfl, .inr ⟨hwriting, ?_⟩⟩
      unfold Database.send at hsend
      split at hsend
      · cases hsend
      · rename_i fault' happly
        cases hsend
        unfold Database.apply at happly
        split at happly
        · split at happly
          · cases happly
            exact ⟨_, rfl⟩
          · split at happly
            · cases happly
              exact ⟨_, rfl⟩
            · split at happly
              · cases happly
              · cases happly
                exact ⟨_, rfl⟩
        · split at happly
          · cases happly
            exact ⟨_, rfl⟩
          · cases happly

/-- The four ends of a transaction: it fails before it plans, it commits, its commit fails, or
its body raises. -/
theorem transaction_cases (answers : Answers) (fetched : Fetched) (body : Database → Attempt)
    (db : Database) :
    (∃ fault, answers.reading = some fault
      ∧ transaction answers fetched body db = ⟨db, fetched, .error (.fault fault)⟩)
    ∨ (answers.reading = none ∧ answers.committing = none
      ∧ (∃ status, (body db).result = .ok status)
      ∧ transaction answers fetched body db = body db)
    ∨ (answers.reading = none ∧ ∃ fault status, answers.committing = some fault
      ∧ (body db).result = .ok status ∧ transaction answers fetched body db
        = ⟨(body db).db.rollback db, (body db).fetched, .error (.fault fault)⟩)
    ∨ (answers.reading = none ∧ ∃ failure, (body db).result = .error failure
      ∧ transaction answers fetched body db
        = ⟨(body db).db.rollback db, (body db).fetched, .error failure⟩) := by
  unfold transaction
  cases hreading : answers.reading with
  | some fault => exact .inl ⟨fault, rfl, rfl⟩
  | none =>
    cases hresult : (body db).result with
    | error failure => exact .inr (.inr (.inr ⟨rfl, failure, rfl, by simp [hresult]⟩))
    | ok status =>
      cases hcommitting : answers.committing with
      | none => exact .inr (.inl ⟨rfl, rfl, ⟨status, rfl⟩, by simp [hresult]⟩)
      | some fault => exact .inr (.inr (.inl ⟨rfl, fault, status, rfl, rfl, by simp [hresult]⟩))

/-- A transaction whose body writes the row of a version only does so as a whole. -/
theorem transaction_writes {body : Database → Attempt} {recordId : Option String}
    (h : answers.reading = none → Writes recordId db (body db).db) :
    Writes recordId db (transaction answers fetched body db).db := by
  rcases transaction_cases answers fetched body db with ⟨_, _, heq⟩ | ⟨hreading, _, _, heq⟩
    | ⟨hreading, _, _, _, _, heq⟩ | ⟨hreading, _, _, heq⟩ <;> rw [heq]
  · exact writes_refl _ db
  · exact h hreading
  · exact (h hreading).rollback
  · exact (h hreading).rollback

/-- A transaction that raises leaves the table as it was. -/
theorem transaction_restores {body : Database → Attempt} {failure : Failure}
    (h : (transaction answers fetched body db).result = .error failure) :
    (transaction answers fetched body db).db.objects = db.objects := by
  rcases transaction_cases answers fetched body db with ⟨_, _, heq⟩ | ⟨_, _, ⟨status, hok⟩, heq⟩
    | ⟨_, _, _, _, _, heq⟩ | ⟨_, _, _, heq⟩
  · rw [heq]
  · rw [heq, hok] at h
    cases h
  · rw [heq]
    rfl
  · rw [heq]
    rfl

end

/-! ## The version's own transaction -/

section
variable {checks : Checks} {bucket : String} {fetched : Fetched} {answers : Answers}
  {db : Database}

/-- The first fault a transaction meets. -/
def firstFault (answers : Answers) : Option Fault :=
  answers.reading <|> answers.writing <|> answers.committing

/-- The transaction comes to its statement. -/
def Sends (answers : Answers) : Prop := answers.reading = none ∧ answers.writing = none

/-- The plan of the version conflicts with what the database holds. -/
def Conflicts (checks : Checks) (fetched : Fetched) (answers : Answers) (db : Database) : Prop :=
  answers.reading = none ∧ fetched.status = none ∧ fetched.kind = .pentest ∧
    ∃ checked message, fetched.checkedPentest = some checked ∧
      planPentest checks.tools.sha answers.findings db.objects.rows checked = .error message

/-- A status `write_version` records: the one that was decided before, or an import's. -/
def Outcome (fetched : Fetched) (status : Status) : Prop :=
  fetched.status = some status ∨ status ∈ [Status.ingested, .unchanged, .duplicate, .rejected]
    ∨ (status = .recorded ∧ fetched.kind ≠ .pentest)

/-- The version, with the `import_info` an import sets. -/
def withInfo (fetched : Fetched) (info : Option ImportInfo) : Fetched :=
  { fetched with importInfo := info }

/-- The three ends of `write_version`: the plan conflicts, the version was not checked, or the
version is recorded. The import sets its `import_info`. -/
theorem writeVersion_cases {attempt : Attempt}
    (h : writeVersion checks bucket fetched answers db = attempt) :
    (fetched.status = none ∧ fetched.kind = .pentest ∧ ∃ checked message,
      fetched.checkedPentest = some checked
      ∧ planPentest checks.tools.sha answers.findings db.objects.rows checked = .error message
      ∧ attempt = ⟨db, fetched, .error (.conflict message)⟩)
    ∨ attempt = ⟨db, fetched, .error (.fault (.other "AttributeError"))⟩
    ∨ ∃ info status extra lead, Outcome fetched status ∧ attempt
        = record db bucket (withInfo fetched info) answers status extra fetched.attempts lead := by
  unfold writeVersion at h
  split at h
  · rename_i status hstatus
    exact .inr (.inr ⟨fetched.importInfo, status, _, _, .inl hstatus, h.symm⟩)
  · rename_i hstatus
    split at h
    · -- a decision log
      refine .inr (.inr ⟨_, importStatus answers.imported, _, _, .inr (.inl ?_), h.symm⟩)
      unfold importStatus
      split
      · simp
      · split <;> simp
    · rename_i hkind
      unfold ingestPentest at h
      split at h
      · exact .inr (.inl h.symm)
      · rename_i checked hchecked
        split at h
        · rename_i message hplan
          exact .inl ⟨hstatus, hkind, checked, message, hchecked, hplan, h.symm⟩
        · refine .inr (.inr ?_)
          split at h
          · exact ⟨fetched.importInfo, .unchanged, _, _, .inr (.inl (by simp)), h.symm⟩
          · simp only at h
            split at h
            · exact ⟨_, .duplicate, _, _, .inr (.inl (by simp)), h.symm⟩
            · split at h
              · exact ⟨_, .unchanged, _, _, .inr (.inl (by simp)), h.symm⟩
              · exact ⟨_, .ingested, _, _, .inr (.inl (by simp)), h.symm⟩
    · exact .inr (.inr ⟨fetched.importInfo, .ingested, _, _, .inr (.inl (by simp)), h.symm⟩)
    · -- a sidecar or an unmapped key
      rename_i hpentest _
      exact .inr (.inr ⟨fetched.importInfo, .recorded, _, _,
        .inr (.inr ⟨rfl, hpentest⟩), h.symm⟩)

/-! ## A version and its record -/

/-- The three situations in which a version is written. -/
inductive Situation (db : Database) (fetched : Fetched) : Prop
  | fresh (hrecord : fetched.recordId = none)
  | retry (row : StoreObject) (h : Retries db fetched row)
  | duplicate (row : StoreObject) (h : Reevaluates db fetched row)

/-- The stored record of the version. -/
def storedRow (db : Database) (fetched : Fetched) : Option StoreObject :=
  fetched.recordId.bind db.objects.get

/-- A status that the reading decided: not an `error`, and `rejected` for a duplicate. -/
def Decided (fetched : Fetched) : Prop :=
  ∀ status, fetched.status = some status →
    status ∈ [Status.recorded, .rejected, .nonConforming, .tooLarge]
      ∧ (fetched.reevaluation = true → status = .rejected)

theorem Retries.storedRow_eq {row : StoreObject} (h : Retries db fetched row) :
    storedRow db fetched = some row := by
  rw [storedRow, h.recordId]
  exact h.stored

theorem Reevaluates.storedRow_eq {row : StoreObject} (h : Reevaluates db fetched row) :
    storedRow db fetched = some row := by
  rw [storedRow, h.recordId]
  exact h.stored

/-- The situation is the same while the table is. -/
theorem Situation.of_objects {after : Database} (h : Situation db fetched)
    (hobjects : after.objects = db.objects) : Situation after fetched := by
  cases h with
  | fresh hrecord => exact .fresh hrecord
  | retry row h => exact .retry row { h with stored := hobjects ▸ h.stored }
  | duplicate row h => exact .duplicate row { h with stored := hobjects ▸ h.stored }

/-- The situation does not depend on `import_info`. -/
theorem Situation.withInfo (h : Situation db fetched) (info : Option ImportInfo) :
    Situation db (withInfo fetched info) := by
  cases h with
  | fresh hrecord => exact .fresh hrecord
  | retry row h => exact .retry row ⟨h.recordId, h.stored, h.status, h.reevaluation⟩
  | duplicate row h => exact .duplicate row { h with }

/-- The guard accepts an outcome of the version; a duplicate's with its attempts only. -/
theorem Situation.accepts {status : Status} {attempts : Nat} (h : Situation db fetched)
    (hdecided : Decided fetched) (houtcome : Outcome fetched status)
    (hattempts : ∀ row, storedRow db fetched = some row → row.status = .duplicate →
      attempts = row.attempts) : Accepts db fetched status attempts := by
  have hnot : status ≠ .erased ∧ status ≠ .acknowledged ∧ status ≠ .error := by
    rcases houtcome with hstatus | hstatus | ⟨rfl, _⟩
    · have hmem := (hdecided status hstatus).1
      refine ⟨?_, ?_, ?_⟩ <;> rintro rfl <;> simp at hmem
    · refine ⟨?_, ?_, ?_⟩ <;> rintro rfl <;> simp at hstatus
    · simp
  intro bucket objectId detail
  cases h with
  | fresh hrecord => exact admitted_insert hrecord hnot.1 hnot.2.1
  | retry row h =>
    rw [h.admitted hnot.1 hnot.2.1]
    intro herror
    exact absurd herror hnot.2.2
  | duplicate row h =>
    have hmem : status ∈ [Status.ingested, .unchanged, .duplicate, .rejected] := by
      rcases houtcome with hstatus | hstatus | ⟨_, hkind⟩
      · rw [(hdecided status hstatus).2 h.reevaluation]
        simp
      · exact hstatus
      · exact absurd h.kind hkind
    rw [h.admitted hmem]
    exact hattempts row h.storedRow_eq h.status

/-- The version's own transaction writes its row only. -/
theorem versionTransaction_writes (hsituation : Situation db fetched)
    (hdecided : Decided fetched)
    (hattempts : ∀ row, storedRow db fetched = some row → row.status = .duplicate →
      Sends answers → fetched.attempts = row.attempts) :
    Writes fetched.recordId db
      (transaction answers fetched (writeVersion checks bucket fetched answers) db).db := by
  apply transaction_writes
  intro hreading
  rcases @writeVersion_cases checks bucket fetched answers db _ rfl with
    ⟨_, _, _, _, _, _, heq⟩ | heq | ⟨info, status, extra, lead, houtcome, heq⟩ <;> rw [heq]
  · exact writes_refl _ db
  · exact writes_refl _ db
  · show Writes (withInfo fetched info).recordId db _
    apply record_writes
    intro hwriting
    apply (hsituation.withInfo info).accepts hdecided houtcome
    intro row hrow hduplicate
    exact hattempts row hrow hduplicate ⟨hreading, hwriting⟩

/-- The import sets nothing of the version but its `import_info`. -/
theorem versionTransaction_fetched : ∃ info,
    (transaction answers fetched (writeVersion checks bucket fetched answers) db).fetched
      = withInfo fetched info := by
  have hbody : ∃ info,
      (writeVersion checks bucket fetched answers db).fetched = withInfo fetched info := by
    rcases @writeVersion_cases checks bucket fetched answers db _ rfl with
      ⟨_, _, _, _, _, _, heq⟩ | heq | ⟨info, _, _, _, _, heq⟩
    · exact ⟨fetched.importInfo, by rw [heq]; rfl⟩
    · exact ⟨fetched.importInfo, by rw [heq]; rfl⟩
    · exact ⟨info, by rw [heq, record_fetched]⟩
  rcases transaction_cases answers fetched (writeVersion checks bucket fetched answers) db with
    ⟨_, _, heq⟩ | ⟨_, _, _, heq⟩ | ⟨_, _, _, _, _, heq⟩ | ⟨_, _, _, heq⟩ <;> rw [heq]
  · exact ⟨fetched.importInfo, rfl⟩
  · exact hbody
  · exact hbody
  · exact hbody

/-- What `write_version` raises. -/
theorem writeVersion_raises {failure : Failure}
    (h : (writeVersion checks bucket fetched answers db).result = .error failure) :
    (fetched.status = none ∧ fetched.kind = .pentest ∧ (∃ checked message,
      fetched.checkedPentest = some checked ∧
      planPentest checks.tools.sha answers.findings db.objects.rows checked = .error message)
      ∧ ∃ message, failure = .conflict message)
    ∨ ∃ fault, failure = .fault fault ∧ (answers.writing = some fault ∨ ∃ cause, fault = .other cause)
    := by
  rcases @writeVersion_cases checks bucket fetched answers db _ rfl with
    ⟨hstatus, hkind, checked, message, hchecked, hplan, heq⟩ | heq | ⟨info, _, _, _, _, heq⟩
  · rw [heq] at h
    cases h
    exact .inl ⟨hstatus, hkind, ⟨checked, message, hchecked, hplan⟩, message, rfl⟩
  · rw [heq] at h
    cases h
    exact .inr ⟨_, rfl, .inr ⟨_, rfl⟩⟩
  · rw [heq] at h
    obtain ⟨fault, hfault, hmet | ⟨_, hcause⟩⟩ := record_raises h
    · exact .inr ⟨fault, hfault, .inl hmet⟩
    · exact .inr ⟨fault, hfault, .inr hcause⟩

/-- `write_version` comes to its statement before it returns. -/
theorem writing_of_writeVersion {status : Status}
    (h : (writeVersion checks bucket fetched answers db).result = .ok status) :
    answers.writing = none := by
  rcases @writeVersion_cases checks bucket fetched answers db _ rfl with
    ⟨_, _, _, _, _, _, heq⟩ | heq | ⟨_, _, _, _, _, heq⟩
  · rw [heq] at h
    cases h
  · rw [heq] at h
    cases h
  · cases hwriting : answers.writing with
    | none => rfl
    | some fault =>
      rw [heq] at h
      simp [record, hwriting] at h

/-- What the version's own transaction raises: its plan's conflict, the fault it meets, or an
error of the database. -/
theorem versionTransaction_raises {failure : Failure}
    (h : (transaction answers fetched (writeVersion checks bucket fetched answers) db).result
      = .error failure) :
    (Conflicts checks fetched answers db ∧ ∃ message, failure = .conflict message)
    ∨ ∃ fault, failure = .fault fault
      ∧ (firstFault answers = some fault ∨ ∃ cause, fault = .other cause) := by
  rcases transaction_cases answers fetched (writeVersion checks bucket fetched answers) db with
    ⟨fault, hreading, heq⟩ | ⟨_, _, ⟨status, hok⟩, heq⟩ | ⟨hreading, fault, status, hcommit, hok, heq⟩
    | ⟨hreading, failure', herror, heq⟩ <;> rw [heq] at h
  · cases h
    exact .inr ⟨fault, rfl, .inl (by simp [firstFault, hreading])⟩
  · rw [hok] at h
    cases h
  · -- the statement was sent, so nothing was met before the commit
    cases h
    have hwriting := writing_of_writeVersion hok
    exact .inr ⟨fault, rfl, .inl (by simp [firstFault, hreading, hwriting, hcommit])⟩
  · cases h
    rcases writeVersion_raises herror with ⟨hstatus, hkind, ⟨checked, message, hchecked, hplan⟩, hm⟩
      | ⟨fault, hfault, hmet | hcause⟩
    · exact .inl ⟨⟨hreading, hstatus, hkind, checked, message, hchecked, hplan⟩, hm⟩
    · exact .inr ⟨fault, hfault, .inl (by simp [firstFault, hreading, hmet])⟩
    · exact .inr ⟨fault, hfault, .inr hcause⟩

/-- The refusal of an `error` record raises the fault it meets only. -/
theorem refusal_raises {row : StoreObject} {failure : Failure} (hretries : Retries db fetched row)
    (hstatus : fetched.status = some .rejected)
    (h : (transaction answers fetched (writeVersion checks bucket fetched answers) db).result
      = .error failure) : ∃ fault, failure = .fault fault ∧ firstFault answers = some fault := by
  have hbody : writeVersion checks bucket fetched answers db
      = record db bucket fetched answers .rejected [] fetched.attempts none := by
    unfold writeVersion
    rw [hstatus]
  have haccepts : Accepts db fetched .rejected fetched.attempts := by
    intro bucket objectId detail
    rw [hretries.admitted (by simp) (by simp)]
    intro hcontra
    cases hcontra
  rcases transaction_cases answers fetched (writeVersion checks bucket fetched answers) db with
    ⟨fault, hreading, heq⟩ | ⟨_, _, ⟨status, hok⟩, heq⟩ | ⟨hreading, fault, status, hcommit, hok, heq⟩
    | ⟨hreading, failure', herror, heq⟩ <;> rw [heq] at h
  · cases h
    exact ⟨fault, rfl, by simp [firstFault, hreading]⟩
  · rw [hok] at h
    cases h
  · cases h
    have hwriting := writing_of_writeVersion hok
    exact ⟨fault, rfl, by simp [firstFault, hreading, hwriting, hcommit]⟩
  · cases h
    rw [hbody] at herror
    obtain ⟨fault, hfault, hmet⟩ := record_fault hretries.storedRow_eq (fun _ => haccepts) herror
    exact ⟨fault, hfault, by simp [firstFault, hreading, hmet]⟩

end

/-! ## The whole write -/

section
variable {checks : Checks} {bucket : String} {fetched : Fetched} {answers : WriteAnswers}
  {db : Database}

/-- The write meets its plan's conflict, at its first attempt or, after a deadlock, at its
second. -/
def MeetsConflict (checks : Checks) (fetched : Fetched) (answers : WriteAnswers) (db : Database) :
    Prop :=
  Conflicts checks fetched answers.first db
    ∨ ((∃ cause, firstFault answers.first = some (.deadlock cause))
      ∧ Conflicts checks fetched answers.again db)

/-- The attempts of a stored record survive the write: the record has no failed attempt, or the
plan does not conflict. Else a duplicate's refusal is not sent, and the refusal of an `error`
record either commits, or loses the lock, or its failure is not sent. -/
def AttemptsKept (checks : Checks) (fetched : Fetched) (answers : WriteAnswers) (db : Database)
    (row : StoreObject) : Prop :=
  row.attempts ≠ 0 → MeetsConflict checks fetched answers db →
    if row.status = .duplicate then ¬Sends answers.refused
    else firstFault answers.refused = none ∨ firstFault answers.refused = some .lockLost
      ∨ ¬Sends answers.failed

/-- The record of a failure writes the row of its version only. -/
theorem recordFailure_writes {cause : String} {failed : Answers} (hsituation : Situation db fetched)
    (hless : ∀ row, storedRow db fetched = some row → row.status = .error → Sends failed →
      row.attempts ≤ fetched.attempts) :
    Writes fetched.recordId db (recordFailure bucket fetched cause failed db).db := by
  unfold recordFailure
  split
  · exact writes_refl _ db
  · rename_i hfirst
    have hwrites : Writes fetched.recordId db (transaction failed fetched (fun db =>
        record db bucket fetched failed .error [failureDetail (fetched.attempts + 1) cause]
          (fetched.attempts + 1) none) db).db := by
      apply transaction_writes
      intro hreading
      apply record_writes
      intro hwriting bucket objectId detail
      cases hsituation with
      | fresh hrecord => exact admitted_insert hrecord (by simp) (by simp)
      | retry row h =>
        rw [h.admitted (by simp) (by simp)]
        intro _
        have := hless row h.storedRow_eq h.status ⟨hreading, hwriting⟩
        omega
      | duplicate row h => exact absurd h.reevaluation hfirst
    simp only
    split <;> exact hwrites

/-- The end of a failed write writes the row of its version only. -/
theorem writeFailed_writes {fault : Fault} {failed : Answers} (hsituation : Situation db fetched)
    (hless : ∀ row, storedRow db fetched = some row → row.status = .error → fault ≠ .lockLost →
      Sends failed → row.attempts ≤ fetched.attempts) :
    Writes fetched.recordId db (writeFailed bucket fetched fault failed db).db := by
  unfold writeFailed
  cases fault with
  | lockLost => exact writes_refl _ db
  | deadlock cause =>
    apply recordFailure_writes hsituation
    intro row hrow herror
    exact hless row hrow herror (by simp)
  | other cause =>
    apply recordFailure_writes hsituation
    intro row hrow herror
    exact hless row hrow herror (by simp)

theorem Situation.refusal {message : String} (h : Situation db fetched) :
    Situation db (fetched.refusal message) := by
  cases h with
  | fresh hrecord => exact .fresh hrecord
  | retry row h => exact .retry row ⟨h.recordId, h.stored, h.status, h.reevaluation⟩
  | duplicate row h => exact .duplicate row { h with }

theorem decided_refusal (fetched : Fetched) (message : String) :
    Decided (fetched.refusal message) := by
  intro status hstatus
  cases hstatus
  simp

/-- The record of a refusal writes the row of its version only. -/
theorem writeRefused_writes {message : String} (hsituation : Situation db fetched)
    (hkept : ∀ row, storedRow db fetched = some row → row.attempts ≠ 0 →
      if row.status = .duplicate then ¬Sends answers.refused
      else firstFault answers.refused = none ∨ firstFault answers.refused = some .lockLost
        ∨ ¬Sends answers.failed) :
    Writes fetched.recordId db
      (writeRefused checks bucket fetched message answers db).db := by
  have hrefusal : Situation db (fetched.refusal message) := hsituation.refusal
  have hwrites : Writes fetched.recordId db (transaction answers.refused (fetched.refusal message)
      (writeVersion checks bucket (fetched.refusal message) answers.refused) db).db := by
    apply versionTransaction_writes hrefusal (decided_refusal fetched message)
    intro row hrow hduplicate hsends
    show 0 = row.attempts
    by_contra hne
    have hnot := hkept row hrow (Ne.symm hne)
    rw [if_pos hduplicate] at hnot
    exact hnot hsends
  obtain ⟨info, hfetched⟩ := @versionTransaction_fetched checks bucket (fetched.refusal message)
    answers.refused db
  unfold writeRefused
  simp only
  split
  · exact hwrites
  · rename_i fault hresult
    have hobjects := transaction_restores hresult
    apply hwrites.trans
    rw [hfetched]
    apply writeFailed_writes ((hrefusal.of_objects hobjects).withInfo info)
    intro row hrow herror hlost hsends
    show row.attempts ≤ 0
    by_contra hpositive
    have hrow' : storedRow db fetched = some row := by
      rw [← hrow]
      simp only [storedRow, hobjects]
      rfl
    have hne : row.attempts ≠ 0 := by omega
    have hor := hkept row hrow' hne
    rw [if_neg (by simp [herror])] at hor
    -- the refusal of an `error` record fails by the fault it meets
    have hretries : Retries db (fetched.refusal message) row := by
      cases hrefusal with
      | fresh hrecord =>
        rw [storedRow, show fetched.recordId = none from hrecord] at hrow'
        cases hrow'
      | retry row' h =>
        have heq : some row' = some row := h.storedRow_eq.symm.trans hrow'
        cases heq
        exact h
      | duplicate row' h =>
        have heq : some row' = some row := h.storedRow_eq.symm.trans hrow'
        cases heq
        rw [h.status] at herror
        cases herror
    obtain ⟨fault', hfault, hmet⟩ := refusal_raises hretries rfl hresult
    cases hfault
    rw [hmet] at hor
    rcases hor with hnone | hsome | hnot
    · cases hnone
    · cases hsome
      exact hlost rfl
    · exact hnot hsends
  · rename_i hresult
    rcases versionTransaction_raises hresult with ⟨⟨_, hnone, _⟩, _⟩ | ⟨_, hfault, _⟩
    · cases hnone
    · cases hfault

/-- A plan's conflict does not depend on `import_info`, nor on the statements sent before. -/
theorem Conflicts.of_withInfo {after : Database} {info : Option ImportInfo} {second : Answers}
    (hobjects : after.objects = db.objects)
    (h : Conflicts checks (withInfo fetched info) second after) :
    Conflicts checks fetched second db := by
  obtain ⟨hreading, hstatus, hkind, checked, message, hchecked, hplan⟩ := h
  exact ⟨hreading, hstatus, hkind, checked, message, hchecked, hobjects ▸ hplan⟩

/-- The end of the last attempt of a write, `last`, that raised. -/
theorem raised_writes {last : Answers} {failure : Failure} (hsituation : Situation db fetched)
    (hdecided : Decided fetched)
    (hattempts : ∀ row, storedRow db fetched = some row → fetched.attempts = row.attempts)
    (hkept : ∀ row, storedRow db fetched = some row → row.attempts ≠ 0 →
      Conflicts checks fetched last db →
        if row.status = .duplicate then ¬Sends answers.refused
        else firstFault answers.refused = none ∨ firstFault answers.refused = some .lockLost
          ∨ ¬Sends answers.failed)
    (hraised : (transaction last fetched (writeVersion checks bucket fetched last) db).result
      = .error failure) :
    (∀ message, failure = .conflict message → Writes fetched.recordId db
      (writeRefused checks bucket
        (transaction last fetched (writeVersion checks bucket fetched last) db).fetched message
        answers (transaction last fetched (writeVersion checks bucket fetched last) db).db).db)
    ∧ ∀ fault, failure = .fault fault → Writes fetched.recordId db
      (writeFailed bucket
        (transaction last fetched (writeVersion checks bucket fetched last) db).fetched fault
        answers.failed
        (transaction last fetched (writeVersion checks bucket fetched last) db).db).db := by
  have hwrites := @versionTransaction_writes checks bucket fetched last db hsituation hdecided
    fun row hrow _ _ => hattempts row hrow
  have hobjects := transaction_restores hraised
  have hrows : storedRow (transaction last fetched (writeVersion checks bucket fetched last) db).db
      fetched = storedRow db fetched := by
    rw [storedRow, hobjects]
    rfl
  obtain ⟨info, hfetched⟩ := @versionTransaction_fetched checks bucket fetched last db
  have hafter := (hsituation.of_objects hobjects).withInfo info
  rw [hfetched]
  constructor
  · rintro message rfl
    apply hwrites.trans
    apply writeRefused_writes hafter
    intro row hrow hne
    rcases versionTransaction_raises hraised with ⟨hconflicts, _⟩ | ⟨_, hfault, _⟩
    · exact hkept row (hrows ▸ hrow) hne hconflicts
    · cases hfault
  · rintro fault rfl
    apply hwrites.trans
    apply writeFailed_writes hafter
    intro row hrow _ _ _
    show row.attempts ≤ fetched.attempts
    rw [hattempts row (hrows ▸ hrow)]

/-- A write sends statements that the guard accepts, and changes the row of its version only,
when the version has the attempts of its record and these are kept. -/
theorem write_writes (hsituation : Situation db fetched) (hdecided : Decided fetched)
    (hattempts : ∀ row, storedRow db fetched = some row → fetched.attempts = row.attempts)
    (hkept : ∀ row, storedRow db fetched = some row →
      AttemptsKept checks fetched answers db row) :
    Writes fetched.recordId db (write checks bucket fetched answers db).db := by
  have hfirst := @versionTransaction_writes checks bucket fetched answers.first db hsituation
    hdecided fun row hrow _ _ => hattempts row hrow
  have hraised : ∀ failure, (transaction answers.first fetched
      (writeVersion checks bucket fetched answers.first) db).result = .error failure → _ :=
    fun failure => @raised_writes checks bucket fetched answers db answers.first failure hsituation
      hdecided hattempts fun row hrow hne hconflicts => hkept row hrow hne (.inl hconflicts)
  unfold write
  simp only
  split
  · exact hfirst
  · rename_i message hresult
    exact (hraised _ hresult).1 message rfl
  · rename_i cause hresult
    -- a deadlock: the second attempt starts from the same table
    have hobjects := transaction_restores hresult
    obtain ⟨info, hfetched⟩ := @versionTransaction_fetched checks bucket fetched answers.first db
    have hdeadlock : firstFault answers.first = some (.deadlock cause) := by
      rcases versionTransaction_raises hresult with ⟨_, _, hconflict⟩ | ⟨fault, hfault, hmet | ⟨_, hother⟩⟩
      · cases hconflict
      · cases hfault
        exact hmet
      · cases hfault
        cases hother
    rw [hfetched]
    apply hfirst.trans
    generalize (transaction answers.first fetched
      (writeVersion checks bucket fetched answers.first) db).db = after at hobjects ⊢
    have hafter := (hsituation.of_objects hobjects).withInfo info
    have hrows : storedRow after (withInfo fetched info) = storedRow db fetched := by
      simp only [storedRow, hobjects]
      rfl
    have hagain := @versionTransaction_writes checks bucket (withInfo fetched info) answers.again
      after hafter hdecided fun row hrow _ _ => hattempts row (hrows ▸ hrow)
    have hlast : ∀ failure, (transaction answers.again (withInfo fetched info)
        (writeVersion checks bucket (withInfo fetched info) answers.again) after).result
          = .error failure → _ :=
      fun failure => @raised_writes checks bucket (withInfo fetched info) answers after
        answers.again failure hafter hdecided (fun row hrow => hattempts row (hrows ▸ hrow))
        fun row hrow hne hconflicts => hkept row (hrows ▸ hrow) hne
          (.inr ⟨⟨cause, hdeadlock⟩, hconflicts.of_withInfo hobjects⟩)
    unfold writeAgain
    simp only
    split
    · exact hagain
    · rename_i message hresult'
      exact (hlast _ hresult').1 message rfl
    · rename_i fault hresult'
      exact (hlast _ hresult').2 fault rfl
  · rename_i fault _ hresult
    exact (hraised _ hresult).2 fault rfl

end

end TrustPortal.Proofs.EvidenceStore
