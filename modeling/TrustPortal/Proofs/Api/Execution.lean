import TrustPortal.Api.Execution
import Mathlib.Data.List.Basic

/-!
# `TrustPortal.Proofs.Api.Execution`: all or nothing for each item

`shownTest` and `shownEvidence` are what a session shows of the tables, pending values
included. `SameRows` compares two sessions by them, and `Agrees` a session with a database.

An item that is answered `error` leaves the rows as they were unless its evidence is refused:
then the fields of the result are assigned already. The simulation `batchItems_agrees` says
that without such items, and without a value that the database refuses, the session of a
batch agrees with the database to which the accepted items are applied one by one.

`executions_all_or_nothing_iff` has the exact conditions, for a batch and for a single request.
-/

set_option autoImplicit false

namespace TrustPortal.Proofs.Api

open TrustPortal.Sql
open TrustPortal.Api

/-! ## What a session shows -/

/-- The test record with this key, as a session shows it. -/
def shownTest (work : Work) (key : String) : Option (TestRecord Column) :=
  match work.held with
  | some (id, row) => if key = id then some row else (work.database.tests key).map TestRecord.load
  | none => (work.database.tests key).map TestRecord.load

/-- The evidence rows, as a session shows them. -/
def shownEvidence (work : Work) : List Evidence := work.database.evidence ++ work.added

/-- Two sessions show the same rows. -/
structure SameRows (work other : Work) : Prop where
  tests : ∀ key, shownTest other key = shownTest work key
  evidence : shownEvidence other = shownEvidence work

/-- A session shows the rows of a database. -/
structure Agrees (db : Database) (work : Work) : Prop where
  tests : ∀ key, shownTest work key = (db.tests key).map TestRecord.load
  evidence : shownEvidence work = db.evidence

theorem sameRows_refl (work : Work) : SameRows work work := ⟨fun _ => rfl, rfl⟩

theorem agrees_start (db : Database) : Agrees db (.start db) :=
  ⟨fun _ => rfl, List.append_nil _⟩

theorem Agrees.congr {db : Database} {work other : Work} (h : Agrees db work)
    (hsame : SameRows work other) : Agrees db other := by
  refine ⟨?_, hsame.evidence.trans h.evidence⟩
  intro key
  rw [hsame.tests, h.tests]

/-- What is saved loads as the row it was. -/
theorem load_of_save {row : TestRecord Column} {saved : TestRecord (Option String)}
    (h : row.save = some saved) : saved.load = row := by
  cases row with
  | mk executionStatus executionOutcome status lastExecutedAt evidenceStatus finding comment =>
    cases finding with
    | refused => cases h
    | stored text =>
      cases comment with
      | refused => cases h
      | stored other =>
        cases h
        rfl

theorem save_load (row : TestRecord (Option String)) : row.load.save = some row := rfl

/-- Rows that load alike are alike. -/
theorem load_injective {row other : TestRecord (Option String)} (h : row.load = other.load) :
    row = other := by
  have hsave := congrArg TestRecord.save h
  rwa [save_load, save_load, Option.some.injEq] at hsave

/-- A row without a refused value is saved. -/
theorem save_of_stored {row : TestRecord Column} (hfinding : row.finding ≠ .refused)
    (hcomment : row.comment ≠ .refused) : ∃ saved, row.save = some saved := by
  unfold TestRecord.save
  cases hf : row.finding with
  | refused => exact absurd hf hfinding
  | stored finding =>
    cases hc : row.comment with
    | refused => exact absurd hc hcomment
    | stored comment => exact ⟨_, rfl⟩

section
variable {lib : Library} {work other : Work} {key : String} {db : Database}

/-- A flush writes the pending evidence only when all of it is accepted. -/
theorem flush_accepts (h : work.flush lib = some other) :
    ∀ row ∈ work.added, lib.accepts row = true := by
  unfold Work.flush at h
  split at h
  · rename_i haccepts
    exact List.all_eq_true.mp haccepts
  · cases h

/-- After a flush the database has the rows that the session shows. -/
theorem flush_database (h : work.flush lib = some other) :
    (∀ key, (other.database.tests key).map TestRecord.load = shownTest work key)
      ∧ other.database.evidence = shownEvidence work ∧ other.added = []
      ∧ other.held = work.held := by
  unfold Work.flush at h
  split at h
  · dsimp only at h
    split at h
    · rename_i hheld
      cases h
      refine ⟨?_, rfl, rfl, hheld.symm⟩
      intro key
      simp [shownTest, hheld]
    · rename_i id row hheld
      obtain ⟨saved, hsaved, rfl⟩ := Option.map_eq_some_iff.mp h
      refine ⟨?_, rfl, rfl, hheld.symm⟩
      intro key
      by_cases hkey : key = id
      · simp [shownTest, hheld, Database.putTest, hkey, load_of_save hsaved]
      · simp [shownTest, hheld, Database.putTest, hkey]
  · cases h

/-- Reading a record changes none of the rows, and finds the record that the session shows. -/
theorem get_rows (h : work.get lib key = some other) :
    SameRows work other ∧ other.held = (shownTest work key).map fun row => (key, row) := by
  unfold Work.get at h
  split at h
  · rename_i hheld
    cases h
    refine ⟨sameRows_refl work, ?_⟩
    obtain ⟨⟨id, row⟩, hrow, hid⟩ := Option.map_eq_some_iff.mp hheld
    cases hid
    simp [shownTest, hrow]
  · obtain ⟨written, hwritten, rfl⟩ := Option.map_eq_some_iff.mp h
    obtain ⟨htests, hevidence, hadded, _⟩ := flush_database hwritten
    have hshown : (written.database.tests key).map (fun row => (key, row.load))
        = (shownTest work key).map fun row => (key, row) := by
      rw [← htests, Option.map_map]
      rfl
    refine ⟨⟨?_, ?_⟩, hshown⟩
    · intro other
      rw [← htests other]
      unfold shownTest
      dsimp only
      cases hfound : written.database.tests key with
      | none => rfl
      | some row =>
        dsimp only [Option.map_some]
        by_cases hother : other = key
        · rw [if_pos hother, hother, hfound]
          rfl
        · rw [if_neg hother]
    · show written.database.evidence ++ written.added = _
      rw [hadded, List.append_nil, hevidence]

/-- What is pending before a record is read is pending after it or was accepted. -/
theorem get_added (h : work.get lib key = some other) {row : Evidence} (hmem : row ∈ work.added) :
    row ∈ other.added ∨ lib.accepts row = true := by
  unfold Work.get at h
  split at h
  · cases h
    exact .inl hmem
  · obtain ⟨written, hwritten, rfl⟩ := Option.map_eq_some_iff.mp h
    exact .inr (flush_accepts hwritten row hmem)

/-- A commit writes what the session shows. -/
theorem Agrees.commit (h : Agrees db work) {after : Database}
    (hcommit : work.commit lib = some after) : after = db := by
  obtain ⟨written, hwritten, rfl⟩ := Option.map_eq_some_iff.mp hcommit
  obtain ⟨htests, hevidence, _, _⟩ := flush_database hwritten
  have hsame : ∀ key, written.database.tests key = db.tests key := by
    intro key
    have hload : (written.database.tests key).map TestRecord.load
        = (db.tests key).map TestRecord.load := by
      rw [htests, h.tests]
    cases hleft : written.database.tests key with
    | none =>
      rw [hleft, Option.map_none] at hload
      exact (Option.map_eq_none_iff.mp hload.symm).symm
    | some row =>
      rw [hleft, Option.map_some] at hload
      obtain ⟨other, hother, heq⟩ := Option.map_eq_some_iff.mp hload.symm
      rw [hother, load_injective heq]
  cases hdatabase : written.database with
  | mk tests evidence =>
    cases db with
    | mk tests' evidence' =>
      rw [hdatabase] at hsame hevidence
      have htests' : tests = tests' := funext hsame
      have hevidence' : evidence = evidence' := hevidence.trans h.evidence
      rw [htests', hevidence']

end

/-! ## One item -/

/-- The test records a database has. -/
def knownTests (db : Database) (key : String) : Bool := (db.tests key).isSome

/-- The test records a session shows. -/
def shownTests (work : Work) (key : String) : Bool := (shownTest work key).isSome

/-- The item is applied to a test: it names one of the records, and its outcome is valid. -/
structure Applies (lib : Library) (tests : String → Bool) (item : Json)
    (data : List (String × Json)) (key : String) : Prop where
  object : item = .object data
  named : isTruthy (get data "test_id") = true
  keyed : lib.key (get data "test_id") = some key
  found : tests key = true
  outcome : outcomeError data = none

/-- The evidence of an execution is refused with a message. -/
def EvidenceRefused (lib : Library) (data : List (String × Json)) : Prop :=
  isTruthy (suppliedEvidence data) = true
    ∧ ∃ text, checkEvidenceItems lib (suppliedEvidence data) = .error (.message text)

/-- The database accepts the texts of an execution. -/
def TextsAccepted (lib : Library) (data : List (String × Json)) : Prop :=
  ∀ name, name = "finding" ∨ name = "comment" →
    ∀ value, data.lookup name = some value → lib.column value ≠ .refused

/-- What `_apply_execution` can do to a record. -/
inductive ApplyOutcome (lib : Library) (moment : Moment) (key : String)
    (data : List (String × Json)) (test : TestRecord Column) :
    TestRecord Column × Except Failure (List Evidence) → Prop
  | refused (text : String) (houtcome : outcomeError data = some text) :
      ApplyOutcome lib moment key data test (test, .error (.message text))
  | failed (text : String) (houtcome : outcomeError data = none)
      (hevidence : EvidenceRefused lib data) :
      ApplyOutcome lib moment key data test
        (assignResult lib moment data test, .error (.message text))
  | raised (houtcome : outcomeError data = none) (changed : TestRecord Column) :
      ApplyOutcome lib moment key data test (changed, .error .raised)
  | applied (changed : TestRecord Column) (rows : List Evidence)
      (houtcome : outcomeError data = none) (hevidence : ¬EvidenceRefused lib data)
      (hexecuted : changed.lastExecutedAt = some moment.now)
      (hfinding : changed.finding = assigned lib data "finding" test.finding)
      (hcomment : changed.comment = assigned lib data "comment" test.comment) :
      ApplyOutcome lib moment key data test (changed, .ok rows)

/-- The evidence rows are created when every item passes its checks. -/
theorem createEvidenceItems_eq_error {lib : Library} {moment : Moment} {key : String}
    {evidence : Json} {failure : Failure} :
    createEvidenceItems lib moment key evidence = .error failure ↔
      checkEvidenceItems lib evidence = .error failure := by
  unfold createEvidenceItems
  cases checkEvidenceItems lib evidence <;> simp [Except.map]

theorem applyExecution_outcome (lib : Library) (moment : Moment) (key : String)
    (data : List (String × Json)) (test : TestRecord Column) :
    ApplyOutcome lib moment key data test (applyExecution lib moment key data test) := by
  unfold applyExecution
  cases houtcome : outcomeError data with
  | some text => exact .refused text houtcome
  | none =>
    dsimp only
    by_cases htruthy : isTruthy (suppliedEvidence data) = true
    · rw [if_pos htruthy]
      cases hcreated : createEvidenceItems lib moment key (suppliedEvidence data) with
      | error failure =>
        have hchecked := createEvidenceItems_eq_error.mp hcreated
        cases failure with
        | raised => exact .raised houtcome _
        | message text => exact .failed text houtcome ⟨htruthy, text, hchecked⟩
      | ok rows =>
        refine .applied _ rows houtcome ?_ rfl rfl rfl
        rintro ⟨_, text, hchecked⟩
        rw [createEvidenceItems_eq_error.mpr hchecked] at hcreated
        cases hcreated
    · rw [if_neg htruthy]
      exact .applied _ [] houtcome (fun hrefused => htruthy hrefused.1) rfl rfl rfl

/-- What one round of the loop does, when it does not raise. -/
inductive ItemOutcome (lib : Library) (moment : Moment) (item : Json) (work : Work) :
    Work → ItemResult → Prop
  | skipped {other : Work} {result : ItemResult} (hsame : SameRows work other)
      (hadded : ∀ row ∈ work.added, row ∈ other.added ∨ lib.accepts row = true)
      (hresult : result.isError = true)
      (hitem : ∀ data key, ¬Applies lib (shownTests work) item data key) :
      ItemOutcome lib moment item work other result
  | failed (data : List (String × Json)) (key : String) (test : TestRecord Column)
      {found : Work} {result : ItemResult}
      (happlies : Applies lib (shownTests work) item data key)
      (hheld : found.held = some (key, test)) (hsame : SameRows work found)
      (hadded : ∀ row ∈ work.added, row ∈ found.added ∨ lib.accepts row = true)
      (hevidence : EvidenceRefused lib data) (hresult : result.isError = true) :
      ItemOutcome lib moment item work
        { found with held := some (key, assignResult lib moment data test) } result
  | applied (data : List (String × Json)) (key : String) (test changed : TestRecord Column)
      (rows : List Evidence) {found : Work} {result : ItemResult}
      (happlies : Applies lib (shownTests work) item data key)
      (hheld : found.held = some (key, test)) (hsame : SameRows work found)
      (hadded : ∀ row ∈ work.added, row ∈ found.added ∨ lib.accepts row = true)
      (happly : applyExecution lib moment key data test = (changed, .ok rows))
      (hresult : result = ⟨get data "test_id", .ok (outcomeText data)⟩) :
      ItemOutcome lib moment item work
        { found with held := some (key, changed), added := found.added ++ rows } result

theorem batchItem_outcome {lib : Library} {moment : Moment} {item : Json} {work other : Work}
    {result : ItemResult} (h : batchItem lib moment item work = some (other, result)) :
    ItemOutcome lib moment item work other result := by
  unfold batchItem at h
  split at h
  · rename_i data
    dsimp only at h
    split at h
    · rename_i hunnamed
      cases h
      refine .skipped (sameRows_refl work) (fun row hmem => .inl hmem) rfl ?_
      intro data' key happlies
      cases happlies.object
      simp [happlies.named] at hunnamed
    · rename_i hunnamed
      have hnamed : isTruthy (get data "test_id") = true := by simpa using hunnamed
      obtain ⟨key, hkey, h⟩ := Option.bind_eq_some_iff.mp h
      obtain ⟨found, hfound, h⟩ := Option.bind_eq_some_iff.mp h
      obtain ⟨hsame, hheld⟩ := get_rows hfound
      have hadded : ∀ row ∈ work.added, row ∈ found.added ∨ lib.accepts row = true :=
        fun row hmem => get_added hfound hmem
      split at h
      · rename_i hnone
        cases h
        refine .skipped hsame hadded rfl ?_
        intro data' key' happlies
        cases happlies.object
        cases happlies.keyed.symm.trans hkey
        -- The session shows no record with this key.
        have hmissing : shownTest work key = none :=
          Option.map_eq_none_iff.mp (hheld.symm.trans hnone)
        have hexists : (shownTest work key).isSome = true := happlies.found
        rw [hmissing] at hexists
        cases hexists
      · rename_i id test hsome
        obtain ⟨shown, hshown, heq⟩ := Option.map_eq_some_iff.mp (hheld.symm.trans hsome)
        cases heq
        have houtcome := applyExecution_outcome lib moment key data test
        have happlies : outcomeError data = none →
            Applies lib (shownTests work) (.object data) data key := by
          intro hvalid
          refine ⟨rfl, hnamed, hkey, ?_, hvalid⟩
          rw [shownTests, hshown]
          rfl
        split at h
        · cases h
        · rename_i changed text happly
          cases h
          rw [happly] at houtcome
          cases houtcome with
          | refused text hmessage =>
            have hsame' : SameRows work { found with held := some (key, test) } := by
              rw [← hsome]
              exact hsame
            refine .skipped hsame' hadded rfl ?_
            intro data' key' happlies'
            cases happlies'.object
            rw [happlies'.outcome] at hmessage
            cases hmessage
          | failed text hvalid hevidence =>
            exact .failed data key test (happlies hvalid) hsome hsame hadded hevidence rfl
        · rename_i changed rows happly
          cases h
          rw [happly] at houtcome
          cases houtcome with
          | applied _ _ hvalid _ _ _ _ =>
            exact .applied data key test changed rows (happlies hvalid) hsome hsame hadded happly
              rfl
  · cases h

/-! ## The items one by one -/

/-- The items that were answered `ok`, with their moments and keys. -/
def acceptedSteps (lib : Library) :
    List (Moment × Json) → List ItemResult → List (Moment × String × Json)
  | (moment, item) :: steps, result :: results =>
      match result.status, lib.key result.testId with
      | .ok _, some key => (moment, key, item) :: acceptedSteps lib steps results
      | _, _ => acceptedSteps lib steps results
  | _, _ => []

/-- Requests to `record_execution` one after the other, each of which commits. -/
def executeAll (lib : Library) : Database → List (Moment × String × Json) → Option Database
  | db, [] => some db
  | db, (moment, key, item) :: rest =>
      (recordExecution lib moment key item db).committed.bind fun after =>
        executeAll lib after rest

/-- Every item of a batch that is answered `error` leaves the rows as they were. -/
def ErrorsHarmless (lib : Library) : Work → List (Moment × Json) → Prop
  | _, [] => True
  | work, (moment, item) :: rest =>
      ∀ next result, batchItem lib moment item work = some (next, result) →
        (result.isError = true → SameRows work next) ∧ ErrorsHarmless lib next rest

section
variable {lib : Library} {moment : Moment} {item : Json} {work found next : Work}
  {result : ItemResult} {db : Database} {data : List (String × Json)} {key : String}
  {test changed : TestRecord Column} {rows : List Evidence}

/-- The record that a session holds is the one it shows. -/
theorem shownTest_held (h : work.held = some (key, test)) (other : String) :
    shownTest work other
      = if other = key then some test else (work.database.tests other).map TestRecord.load := by
  rw [shownTest, h]

/-- A session shows the records it showed before, and the changed one. -/
theorem applied_shown (hheld : found.held = some (key, test)) (hsame : SameRows work found)
    (changed : TestRecord Column) (rows : List Evidence) (other : String) :
    shownTest { found with held := some (key, changed), added := found.added ++ rows } other
      = if other = key then some changed else shownTest work other := by
  rw [shownTest_held rfl, ← hsame.tests, shownTest_held hheld]
  by_cases hother : other = key
  · rw [if_pos hother, if_pos hother]
  · rw [if_neg hother, if_neg hother, if_neg hother]

/-- A session that holds a record shows the records of a database it agrees with, and that
one. -/
theorem Agrees.held (h : Agrees db work) (hheld : work.held = some (key, test)) :
    (∃ row, db.tests key = some row ∧ row.load = test)
      ∧ ∀ other, other ≠ key → (work.database.tests other).map TestRecord.load
          = (db.tests other).map TestRecord.load := by
  constructor
  · have hshown := h.tests key
    rw [shownTest_held hheld, if_pos rfl] at hshown
    exact Option.map_eq_some_iff.mp hshown.symm
  · intro other hne
    have hshown := h.tests other
    rwa [shownTest_held hheld, if_neg hne] at hshown

/-- The outcome of an item that is applied is not missing, so its body is not empty. -/
theorem isTruthy_of_outcome (h : outcomeError data = none) : isTruthy (.object data) = true := by
  cases data with
  | nil => cases h
  | cons first rest => rfl

/-- An applied execution has a valid outcome. -/
theorem applyExecution_eq_ok
    (h : applyExecution lib moment key data test = (changed, .ok rows)) :
    outcomeError data = none ∧ ¬EvidenceRefused lib data
      ∧ changed.finding = assigned lib data "finding" test.finding
      ∧ changed.comment = assigned lib data "comment" test.comment := by
  have houtcome := applyExecution_outcome lib moment key data test
  rw [h] at houtcome
  cases houtcome with
  | applied _ _ hvalid hevidence _ hfinding hcomment =>
    exact ⟨hvalid, hevidence, hfinding, hcomment⟩

/-- An applied execution has the time of its moment. -/
theorem applyExecution_time
    (h : applyExecution lib moment key data test = (changed, .ok rows)) :
    changed.lastExecutedAt = some moment.now := by
  have houtcome := applyExecution_outcome lib moment key data test
  rw [h] at houtcome
  cases houtcome with
  | applied _ _ _ _ hexecuted _ _ => exact hexecuted

/-- `record_execution` commits what the execution does to its record. -/
theorem recordExecution_committed {row : TestRecord (Option String)}
    (hkey : lib.key (.string key) = some key) (hrow : db.tests key = some row)
    (happly : applyExecution lib moment key data row.load = (changed, .ok rows)) :
    (recordExecution lib moment key (.object data) db).committed
      = Work.commit lib ⟨db, some (key, changed), rows⟩ := by
  have htruthy := isTruthy_of_outcome (applyExecution_eq_ok happly).1
  unfold recordExecution
  rw [hkey]
  dsimp only
  rw [hrow]
  dsimp only
  rw [htruthy, happly]
  dsimp only
  cases Work.commit lib ⟨db, some (key, changed), rows⟩ with
  | none => rfl
  | some after =>
    dsimp only
    cases size (suppliedEvidence data) <;> rfl

/-- The column of an accepted text is not refused. -/
theorem assigned_ne_refused (htexts : TextsAccepted lib data) {name : String}
    (hname : name = "finding" ∨ name = "comment") (before : Option String) :
    assigned lib data name (.stored before) ≠ .refused := by
  unfold assigned
  cases hvalue : data.lookup name with
  | none => exact Column.noConfusion
  | some value => exact htexts name hname value hvalue

/-- One accepted item, in the session of a batch and as a request of its own. -/
theorem agrees_applied (hagrees : Agrees db found) (hheld : found.held = some (key, test))
    (hkey : lib.key (get data "test_id") = some key)
    (happly : applyExecution lib moment key data test = (changed, .ok rows))
    (htexts : TextsAccepted lib data) (haccepts : ∀ row ∈ rows, lib.accepts row = true) :
    ∃ after, (recordExecution lib moment key (.object data) db).committed = some after
      ∧ Agrees after { found with held := some (key, changed), added := found.added ++ rows }
      ∧ knownTests after = knownTests db := by
  obtain ⟨⟨row, hrow, rfl⟩, hothers⟩ := hagrees.held hheld
  obtain ⟨_, _, hfinding, hcomment⟩ := applyExecution_eq_ok happly
  have hsave : ∃ saved, changed.save = some saved := by
    refine save_of_stored ?_ ?_
    · rw [hfinding]
      exact assigned_ne_refused htexts (.inl rfl) row.finding
    · rw [hcomment]
      exact assigned_ne_refused htexts (.inr rfl) row.comment
  obtain ⟨saved, hsaved⟩ := hsave
  have hflush : Work.flush lib ⟨db, some (key, changed), rows⟩ = some
      ⟨{ db with evidence := db.evidence ++ rows }.putTest key saved, some (key, changed), []⟩ := by
    unfold Work.flush
    rw [if_pos (List.all_eq_true.mpr haccepts)]
    simp [hsaved]
  refine ⟨{ db with evidence := db.evidence ++ rows }.putTest key saved, ?_, ⟨?_, ?_⟩, ?_⟩
  · rw [recordExecution_committed (lib.key_string _ key hkey) hrow happly, Work.commit, hflush]
    rfl
  · intro other
    rw [shownTest_held rfl]
    by_cases hother : other = key
    · rw [if_pos hother]
      simp [Database.putTest, hother, load_of_save hsaved]
    · rw [if_neg hother]
      simp [Database.putTest, hother, hothers other hother]
  · show found.database.evidence ++ (found.added ++ rows) = db.evidence ++ rows
    rw [← List.append_assoc]
    exact congrArg (· ++ rows) hagrees.evidence
  · funext other
    by_cases hother : other = key
    · simp [knownTests, Database.putTest, hother, hrow]
    · simp [knownTests, Database.putTest, hother]

/-- The records that a session shows are those of a database it agrees with. -/
theorem Agrees.known (h : Agrees db work) : shownTests work = knownTests db := by
  funext other
  rw [shownTests, h.tests, Option.isSome_map]
  rfl

end

/-! ## A batch -/

/-- An execution that is applied is sound: its evidence is not refused and the database accepts
its texts. -/
structure ItemSound (lib : Library) (tests : String → Bool) (item : Json) : Prop where
  evidence : ∀ data key, Applies lib tests item data key → ¬EvidenceRefused lib data
  texts : ∀ data key, Applies lib tests item data key → TextsAccepted lib data

section
variable {lib : Library} {steps : List (Moment × Json)} {work last : Work}
  {results : List ItemResult} {db after : Database}

/-- The rounds of a batch, one after the other. -/
theorem batchItems_cons {moment : Moment} {item : Json} {rest : List (Moment × Json)}
    (h : batchItems lib work ((moment, item) :: rest) = some (last, results)) :
    ∃ next result later, batchItem lib moment item work = some (next, result)
      ∧ batchItems lib next rest = some (last, later) ∧ results = result :: later := by
  obtain ⟨⟨next, result⟩, hitem, h⟩ := Option.bind_eq_some_iff.mp h
  obtain ⟨⟨last', later⟩, hrest, heq⟩ := Option.map_eq_some_iff.mp h
  cases heq
  exact ⟨next, result, later, hitem, hrest, rfl⟩

/-- In a batch that commits, the database accepts every evidence row that was pending. -/
theorem batchItems_accepts (h : batchItems lib work steps = some (last, results))
    (hcommit : last.commit lib = some after) : ∀ row ∈ work.added, lib.accepts row = true := by
  induction steps generalizing work results with
  | nil =>
    cases h
    obtain ⟨written, hwritten, _⟩ := Option.map_eq_some_iff.mp hcommit
    exact flush_accepts hwritten
  | cons step rest ih =>
    obtain ⟨next, result, later, hitem, hrest, rfl⟩ := batchItems_cons h
    have hnext := ih hrest
    -- A row that is not pending any more has been written.
    intro row hmem
    cases batchItem_outcome hitem with
    | skipped hsame hadded hresult hnot => exact (hadded row hmem).elim (hnext row) id
    | failed data key test happlies hheld hsame hadded hevidence hresult =>
      exact (hadded row hmem).elim (hnext row) id
    | applied data key test changed rows happlies hheld hsame hadded happly hresult =>
      refine (hadded row hmem).elim ?_ id
      intro hfound
      exact hnext row (List.mem_append_left _ hfound)

/-- An accepted item is one of those that are applied one by one. -/
theorem acceptedSteps_ok {moment : Moment} {item testId : Json} {outcome key : String}
    {rest : List (Moment × Json)} (hkey : lib.key testId = some key) :
    acceptedSteps lib ((moment, item) :: rest) (⟨testId, .ok outcome⟩ :: results)
      = (moment, key, item) :: acceptedSteps lib rest results := by
  rw [acceptedSteps]
  dsimp only
  rw [hkey]

/-- The simulation, by induction on the items: the session of a batch agrees with the database
to which the accepted items are applied one by one. -/
theorem batchItems_agrees (hagrees : Agrees db work)
    (hsound : ∀ step ∈ steps, ItemSound lib (knownTests db) step.2)
    (h : batchItems lib work steps = some (last, results))
    (hcommit : last.commit lib = some after) :
    ErrorsHarmless lib work steps
      ∧ executeAll lib db (acceptedSteps lib steps results) = some after := by
  induction steps generalizing work results db with
  | nil =>
    cases h
    exact ⟨trivial, congrArg some (hagrees.commit hcommit).symm⟩
  | cons step rest ih =>
    obtain ⟨moment, item⟩ := step
    obtain ⟨next, result, later, hitem, hrest, rfl⟩ := batchItems_cons h
    have hsound' := hsound (moment, item) List.mem_cons_self
    rw [← hagrees.known] at hsound'
    have hrestSound : ∀ step ∈ rest, ItemSound lib (knownTests db) step.2 :=
      fun step hmem => hsound step (List.mem_cons_of_mem _ hmem)
    have hpending := batchItems_accepts hrest hcommit
    -- The round is the only one from this session.
    have honly : (result.isError = true → SameRows work next) →
        ErrorsHarmless lib next rest → ErrorsHarmless lib work ((moment, item) :: rest) := by
      intro hharmless hlater next' result' hitem'
      rw [hitem] at hitem'
      cases hitem'
      exact ⟨hharmless, hlater⟩
    cases batchItem_outcome hitem with
    | skipped hsame hadded hresult hnot =>
      obtain ⟨hharmless, hall⟩ := ih (hagrees.congr hsame) hrestSound hrest
      refine ⟨honly (fun _ => hsame) hharmless, ?_⟩
      obtain ⟨testId, status⟩ := result
      cases status with
      | ok outcome => cases hresult
      | error message => exact hall
    | failed data key test happlies hheld hsame hadded hevidence hresult =>
      exact absurd hevidence (hsound'.evidence data key happlies)
    | applied data key test changed rows happlies hheld hsame hadded happly hresult =>
      have hfound := hagrees.congr hsame
      have htexts := hsound'.texts data key happlies
      have haccepts : ∀ row ∈ rows, lib.accepts row = true :=
        fun row hmem => hpending row (List.mem_append_right _ hmem)
      obtain ⟨written, hwritten, hagrees', hknown⟩ :=
        agrees_applied hfound hheld happlies.keyed happly htexts haccepts
      rw [← hknown] at hrestSound
      obtain ⟨hharmless, hall⟩ := ih hagrees' hrestSound hrest
      refine ⟨honly (fun herror => ?_) hharmless, ?_⟩
      · rw [hresult] at herror
        cases herror
      · rw [hresult, acceptedSteps_ok happlies.keyed, executeAll, happlies.object, hwritten]
        exact hall

/-- A saved row has no refused value. -/
theorem stored_of_save {row : TestRecord Column} {saved : TestRecord (Option String)}
    (h : row.save = some saved) : row.finding ≠ .refused ∧ row.comment ≠ .refused := by
  rw [← load_of_save h]
  exact ⟨Column.noConfusion, Column.noConfusion⟩

/-- What a session writes, the database accepts. -/
theorem texts_of_commit {key : String} {data : List (String × Json)} {test changed : TestRecord Column}
    {rows : List Evidence} (hfinding : changed.finding = assigned lib data "finding" test.finding)
    (hcomment : changed.comment = assigned lib data "comment" test.comment)
    (h : Work.commit lib ⟨db, some (key, changed), rows⟩ = some after) :
    TextsAccepted lib data := by
  obtain ⟨written, hwritten, _⟩ := Option.map_eq_some_iff.mp h
  unfold Work.flush at hwritten
  split at hwritten
  · obtain ⟨saved, hsaved, _⟩ := Option.map_eq_some_iff.mp hwritten
    obtain ⟨hstored, hstored'⟩ := stored_of_save hsaved
    rw [hfinding] at hstored
    rw [hcomment] at hstored'
    intro name hname value hvalue
    rcases hname with rfl | rfl
    · rwa [assigned, hvalue] at hstored
    · rwa [assigned, hvalue] at hstored'
  · cases hwritten

/-- What `record_execution` commits, the database has accepted. -/
theorem texts_of_committed {moment : Moment} {key : String} {data : List (String × Json)}
    (hvalid : outcomeError data = none)
    (h : (recordExecution lib moment key (.object data) db).committed = some after) :
    TextsAccepted lib data := by
  unfold recordExecution at h
  cases hkey : lib.key (.string key) with
  | none =>
    rw [hkey] at h
    cases h
  | some id =>
    rw [hkey] at h
    dsimp only at h
    cases hrow : db.tests id with
    | none =>
      rw [hrow] at h
      cases h
    | some row =>
      rw [hrow, isTruthy_of_outcome hvalid] at h
      dsimp only at h
      have houtcome := applyExecution_outcome lib moment id data row.load
      generalize applyExecution lib moment id data row.load = applied at h houtcome
      cases houtcome with
      | refused text hmessage => cases h
      | failed text _ hevidence => cases h
      | raised _ changed => cases h
      | applied changed rows _ _ _ hfinding hcomment =>
        cases hcommit : Work.commit lib ⟨db, some (id, changed), rows⟩ with
        | none =>
          rw [if_neg (by decide)] at h
          dsimp only at h
          rw [hcommit] at h
          cases h
        | some written => exact texts_of_commit hfinding hcomment hcommit

/-- The times of the records that a session shows are before those of the items. -/
def TimesBefore (work : Work) (steps : List (Moment × Json)) : Prop :=
  ∀ key row time, shownTest work key = some row → row.lastExecutedAt = some time →
    ∀ step ∈ steps, time < step.1.now

/-- Equal rows have equal times. -/
theorem TimesBefore.congr {other : Work} (h : TimesBefore work steps)
    (hsame : SameRows work other) : TimesBefore other steps := by
  intro key row time hrow
  rw [hsame.tests] at hrow
  exact h key row time hrow

/-- A batch that meets the claim applies sound items only, by induction on the items. -/
theorem sound_of_batch (htimes : TimesBefore work steps)
    (hmoments : steps.Pairwise fun a b => a.1.now < b.1.now)
    (hharmless : ErrorsHarmless lib work steps)
    (h : batchItems lib work steps = some (last, results))
    (hall : executeAll lib db (acceptedSteps lib steps results) = some after) :
    ∀ step ∈ steps, ItemSound lib (shownTests work) step.2 := by
  induction steps generalizing work results db with
  | nil =>
    intro step hmem
    cases hmem
  | cons step rest ih =>
    obtain ⟨moment, item⟩ := step
    obtain ⟨next, result, later, hitem, hrest, rfl⟩ := batchItems_cons h
    obtain ⟨hsame, hlater⟩ := hharmless next result hitem
    have hmoments' := (List.pairwise_cons.mp hmoments).2
    have hfirst := (List.pairwise_cons.mp hmoments).1
    have htimesRest : TimesBefore work rest := fun key row time hrow htime step hmem =>
      htimes key row time hrow htime step (List.mem_cons_of_mem _ hmem)
    cases batchItem_outcome hitem with
    | skipped hsame' hadded hresult hnot =>
      have hall' : executeAll lib db (acceptedSteps lib rest later) = some after := by
        obtain ⟨testId, status⟩ := result
        cases status with
        | ok outcome => cases hresult
        | error message => exact hall
      have htail := ih (htimesRest.congr hsame') hmoments' hlater hrest hall'
      have hknown : shownTests next = shownTests work := by
        funext key
        rw [shownTests, shownTests, hsame'.tests]
      rw [hknown] at htail
      intro step hmem
      rcases List.mem_cons.mp hmem with rfl | hin
      · exact ⟨fun data key happlies => absurd happlies (hnot data key),
          fun data key happlies => absurd happlies (hnot data key)⟩
      · exact htail step hin
    | failed data key test happlies hheld hsame' hadded hevidence hresult =>
      -- The record has got the time of the item, so it is not as it was.
      have hshown := (hsame hresult).tests key
      rw [shownTest_held rfl, if_pos rfl] at hshown
      have hnow := htimes key _ moment.now hshown.symm rfl (moment, item) List.mem_cons_self
      exact absurd hnow (Int.lt_irrefl moment.now)
    | @applied data key test changed rows found _ happlies hheld hsame' hadded happly hresult =>
      rw [hresult, acceptedSteps_ok happlies.keyed, executeAll, happlies.object] at hall
      obtain ⟨written, hwritten, hall'⟩ := Option.bind_eq_some_iff.mp hall
      obtain ⟨hvalid, hevidence, _, _⟩ := applyExecution_eq_ok happly
      have htexts := texts_of_committed hvalid hwritten
      have hshown := applied_shown hheld hsame' changed rows
      have hknown : shownTests
          { found with held := some (key, changed), added := found.added ++ rows }
            = shownTests work := by
        funext other
        rw [shownTests, hshown]
        by_cases hother : other = key
        · rw [if_pos hother, hother]
          exact happlies.found.symm
        · rw [if_neg hother]
          rfl
      have htimesNext : TimesBefore
          { found with held := some (key, changed), added := found.added ++ rows } rest := by
        intro other row time hrow htime
        rw [hshown] at hrow
        by_cases hother : other = key
        · rw [if_pos hother] at hrow
          cases hrow
          rw [applyExecution_time happly] at htime
          cases htime
          exact hfirst
        · rw [if_neg hother] at hrow
          exact htimesRest other row time hrow htime
      have htail := ih htimesNext hmoments' hlater hrest hall'
      rw [hknown] at htail
      intro step hmem
      rcases List.mem_cons.mp hmem with rfl | hin
      · refine ⟨fun data' key' happlies' => ?_, fun data' key' happlies' => ?_⟩
        · cases happlies.object.symm.trans happlies'.object
          exact hevidence
        · cases happlies.object.symm.trans happlies'.object
          exact htexts
      · exact htail step hin

end

/-! ## One request -/

/-- The request is accepted and committed, and then the length of its evidence is taken: `null`,
`false` and `0` have none. -/
def RaisesAfterCommit (lib : Library) (db : Database) (testId : String) (body : Json) : Prop :=
  ∃ data key row, body = .object data ∧ lib.key (.string testId) = some key
    ∧ db.tests key = some row ∧ outcomeError data = none ∧ TextsAccepted lib data
    ∧ isTruthy (suppliedEvidence data) = false ∧ size (suppliedEvidence data) = none

section
variable {lib : Library} {db : Database} {moment : Moment} {testId : String} {body : Json}

/-- Evidence that is created has a length. -/
theorem size_of_created {key : String} {evidence : Json} {rows : List Evidence}
    (h : createEvidenceItems lib moment key evidence = .ok rows) : size evidence ≠ none := by
  unfold createEvidenceItems checkEvidenceItems at h
  cases hitems : iterate evidence with
  | none =>
    rw [hitems] at h
    cases h
  | some items => simp [size, hitems]

/-- A request that commits and is answered with an error. -/
theorem raisesAfterCommit_of_error {after : Database}
    (hcommitted : (recordExecution lib moment testId body db).committed = some after)
    (herror : (recordExecution lib moment testId body db).response.isError = true) :
    RaisesAfterCommit lib db testId body := by
  unfold recordExecution at hcommitted herror
  cases hkey : lib.key (.string testId) with
  | none =>
    rw [hkey] at hcommitted
    cases hcommitted
  | some key =>
    rw [hkey] at hcommitted herror
    dsimp only at hcommitted herror
    cases hrow : db.tests key with
    | none =>
      rw [hrow] at hcommitted
      cases hcommitted
    | some row =>
      rw [hrow] at hcommitted herror
      dsimp only at hcommitted herror
      split at hcommitted
      · cases hcommitted
      · rename_i htruthy
        rw [if_neg htruthy] at herror
        split at hcommitted
        · rename_i data
          dsimp only at herror
          have houtcome := applyExecution_outcome lib moment key data row.load
          have hcreated : ∀ changed rows,
              applyExecution lib moment key data row.load = (changed, .ok rows) →
              isTruthy (suppliedEvidence data) = true → size (suppliedEvidence data) ≠ none := by
            intro changed rows happly hevidence
            unfold applyExecution at happly
            split at happly
            · cases happly
            · dsimp only at happly
              rw [if_pos hevidence] at happly
              split at happly
              · cases happly
              · rename_i hrows
                exact size_of_created hrows
          generalize happly : applyExecution lib moment key data row.load = applied
            at hcommitted herror houtcome
          cases houtcome with
          | refused text hmessage => cases hcommitted
          | failed text _ hevidence => cases hcommitted
          | raised _ changed => cases hcommitted
          | applied changed rows hvalid _ _ hfinding hcomment =>
            dsimp only at hcommitted herror
            cases hcommit : Work.commit lib ⟨db, some (key, changed), rows⟩ with
            | none =>
              rw [hcommit] at hcommitted
              cases hcommitted
            | some written =>
              rw [hcommit] at herror
              dsimp only at herror
              cases hsize : size (suppliedEvidence data) with
              | some count =>
                rw [hsize] at herror
                cases herror
              | none =>
                refine ⟨data, key, row, rfl, hkey, hrow, hvalid,
                  texts_of_commit hfinding hcomment hcommit, ?_, hsize⟩
                cases hevidence : isTruthy (suppliedEvidence data) with
                | false => rfl
                | true => exact absurd hsize (hcreated changed rows happly hevidence)
        · cases hcommitted

/-- Such a request commits, and is answered with an error. -/
theorem error_of_raisesAfterCommit (h : RaisesAfterCommit lib db testId body) :
    ∃ after, recordExecution lib moment testId body db = ⟨some after, .raised⟩ := by
  obtain ⟨data, key, row, rfl, hkey, hrow, hvalid, htexts, hevidence, hsize⟩ := h
  have happly : applyExecution lib moment key data row.load
      = (assignResult lib moment data row.load, .ok []) := by
    simp [applyExecution, hvalid, hevidence]
  obtain ⟨saved, hsaved⟩ : ∃ saved, (assignResult lib moment data row.load).save = some saved :=
    save_of_stored (assigned_ne_refused htexts (.inl rfl) row.finding)
      (assigned_ne_refused htexts (.inr rfl) row.comment)
  have hcommit : Work.commit lib ⟨db, some (key, assignResult lib moment data row.load), []⟩
      = some ({ db with evidence := db.evidence ++ [] }.putTest key saved) := by
    simp [Work.commit, Work.flush, hsaved]
  refine ⟨{ db with evidence := db.evidence ++ [] }.putTest key saved, ?_⟩
  unfold recordExecution
  rw [hkey]
  dsimp only
  rw [hrow]
  dsimp only
  rw [isTruthy_of_outcome hvalid, happly]
  dsimp only
  rw [hcommit]
  dsimp only
  rw [hsize]
  rfl

end

/-! ## All or nothing -/

/-- A batch that is answered with an error has committed nothing. -/
theorem batch_error_commits_nothing (lib : Library) (moments : Nat → Moment) (body : Json)
    (db : Database) (h : (batchRecordExecution lib moments body db).response.isError = true) :
    (batchRecordExecution lib moments body db).committed = none := by
  unfold batchRecordExecution at h ⊢
  split
  · rfl
  · rename_i htruthy
    rw [if_neg htruthy] at h
    split
    · dsimp only at h
      split
      · rfl
      · rename_i items hitems
        rw [hitems] at h
        dsimp only at h
        unfold batchExecutions at h ⊢
        split
        · rfl
        · rename_i work results hbatch
          rw [hbatch] at h
          dsimp only at h
          split
          · rfl
          · rename_i after hcommit
            rw [hcommit] at h
            cases h
      · rfl
    · split <;> rfl

/-- The items of a batch with their moments. -/
def batchSteps (moments : Nat → Moment) (items : List Json) : List (Moment × Json) :=
  items.mapIdx fun index item => (moments index, item)

/-- The items of the steps. -/
theorem mem_batchSteps {moments : Nat → Moment} {items : List Json} {step : Moment × Json} :
    step ∈ batchSteps moments items ↔
      ∃ (i : Nat) (hi : i < items.length), (moments i, items[i]) = step := List.mem_mapIdx

theorem batchSteps_pairwise {moments : Nat → Moment} (items : List Json)
    (hmoments : ∀ i j, i < j → (moments i).now < (moments j).now) :
    (batchSteps moments items).Pairwise fun a b => a.1.now < b.1.now := by
  rw [List.pairwise_iff_getElem]
  intro i j hi hj hij
  simp only [batchSteps, List.getElem_mapIdx]
  exact hmoments i j hij

/-- Take any database. A single request that is answered with an error has committed nothing,
unless it is accepted and its evidence is a value without a length (`null`, `false` or `0`). A
batch that is answered with an error has committed nothing. A batch that commits is all or nothing
(every item answered `error` leaves the rows as they were, and the database committed is the one to
which the other items are applied one by one) when every item that names an existing test and a
valid outcome has evidence that is not refused and texts that the database accepts; and with a clock
that moves on only then. -/
theorem executions_all_or_nothing_iff (lib : Library) (db : Database) :
    (∀ moment testId body,
        let handled := recordExecution lib moment testId body db
        (handled.response.isError = true → handled.committed = none)
          ↔ ¬RaisesAfterCommit lib db testId body)
    ∧ (∀ moments body,
        let handled := batchRecordExecution lib moments body db
        handled.response.isError = true → handled.committed = none)
    ∧ ∀ moments data items after results,
        data.lookup "executions" = some (.array items) →
        batchRecordExecution lib moments (.object data) db = ⟨some after, .results results⟩ →
        let steps := batchSteps moments items
        let allOrNothing := ErrorsHarmless lib (.start db) steps
          ∧ executeAll lib db (acceptedSteps lib steps results) = some after
        ((∀ item ∈ items, ItemSound lib (knownTests db) item) → allOrNothing)
          ∧ ((∀ key row time index, db.tests key = some row → row.lastExecutedAt = some time →
              time < (moments index).now) →
            (∀ i j, i < j → (moments i).now < (moments j).now) →
            allOrNothing → ∀ item ∈ items, ItemSound lib (knownTests db) item) := by
  refine ⟨?_, fun moments body => batch_error_commits_nothing lib moments body db, ?_⟩
  · intro moment testId body
    dsimp only
    constructor
    · intro hnothing hraises
      obtain ⟨after, hhandled⟩ := @error_of_raisesAfterCommit lib db moment testId body hraises
      rw [hhandled] at hnothing
      cases hnothing rfl
    · intro hsound herror
      cases hcommitted : (recordExecution lib moment testId body db).committed with
      | none => rfl
      | some after => exact absurd (raisesAfterCommit_of_error hcommitted herror) hsound
  · intro moments data items after results hitems hbatch steps allOrNothing
    -- The batch that commits is the loop over its list.
    have hrun : batchExecutions lib steps db = ⟨some after, .results results⟩ := by
      unfold batchRecordExecution at hbatch
      split at hbatch
      · cases hbatch
      · dsimp only at hbatch
        rw [hitems] at hbatch
        exact hbatch
    obtain ⟨last, hlast, hcommit⟩ : ∃ last,
        batchItems lib (.start db) steps = some (last, results) ∧ last.commit lib = some after := by
      unfold batchExecutions at hrun
      split at hrun
      · cases hrun
      · rename_i last results' hlast
        split at hrun
        · cases hrun
        · rename_i after' hcommit
          cases hrun
          exact ⟨last, hlast, hcommit⟩
    constructor
    · intro hsound
      refine batchItems_agrees (agrees_start db) ?_ hlast hcommit
      intro step hstep
      obtain ⟨index, hindex, rfl⟩ := mem_batchSteps.mp hstep
      exact hsound items[index] (List.getElem_mem hindex)
    · rintro hbefore hmoments ⟨hharmless, hall⟩
      have htimes : TimesBefore (.start db) steps := by
        intro key row time hrow htime step hstep
        obtain ⟨index, _, rfl⟩ := mem_batchSteps.mp hstep
        obtain ⟨stored, hstored, rfl⟩ := Option.map_eq_some_iff.mp
          (show (db.tests key).map TestRecord.load = some row from hrow)
        exact hbefore key stored time index hstored htime
      have hsound := sound_of_batch htimes (batchSteps_pairwise items hmoments) hharmless hlast hall
      intro item hitem
      obtain ⟨index, hindex, rfl⟩ := List.getElem_of_mem hitem
      rw [← (agrees_start db).known]
      exact hsound (moments index, items[index]) (mem_batchSteps.mpr ⟨index, hindex, rfl⟩)

/-- A library on the values of the examples: keys and texts are strings, and the only URLs are
absolute ones. -/
def sampleLibrary : Library where
  key
    | .string id => some id
    | _ => none
  key_string := by
    intro value id h
    cases value <;> cases h
    rfl
  column
    | .null => .stored none
    | .string text => .stored (some text)
    | _ => .refused
  accepts _ := true
  isHttpUrl url := some ("https://".toList.isPrefixOf url.toList)
  b64decode _ := none

/-- A database with the pending test `t1`. -/
def sampleDatabase : Database where
  tests key := if key = "t1" then some ⟨none, none, some "pending", none, some "missing", none, none⟩
    else none
  evidence := []

/-- The moments of the examples. -/
def sampleMoments (index : Nat) : Moment := ⟨index, fun number => s!"e{index}-{number}"⟩

/-- Two results of `t1`, and between them one of a test that does not exist. -/
def sampleItems : List Json :=
  [.object [("test_id", .string "t1"), ("outcome", .string "failure"), ("finding", .string "late")],
    .object [("test_id", .string "t2"), ("outcome", .string "success")],
    .object [("test_id", .string "t1"), ("outcome", .string "success"),
      ("evidence", .array [.object [("evidence_type", .string "link"),
        ("description", .string "log"), ("url", .string "https://logs.example/1")]])]]

/-- Their evidence and their texts are accepted. -/
private theorem sound_sampleItems :
    ∀ item ∈ sampleItems, ItemSound sampleLibrary (knownTests sampleDatabase) item := by
  have hsound : ∀ data : List (String × Json), ¬EvidenceRefused sampleLibrary data →
      (∀ name ∈ ["finding", "comment"],
        ((data.lookup name).map sampleLibrary.column).all (fun column => column ≠ .refused) = true) →
      ItemSound sampleLibrary (knownTests sampleDatabase) (.object data) := by
    intro data hevidence htexts
    refine ⟨fun other key happlies => ?_, fun other key happlies name hname value hvalue => ?_⟩
    · cases happlies.object
      exact hevidence
    · cases happlies.object
      have haccepted := htexts name (by rcases hname with rfl | rfl <;> decide)
      rw [hvalue] at haccepted
      simpa using haccepted
  intro item hitem
  simp only [sampleItems, List.mem_cons, List.not_mem_nil, or_false] at hitem
  rcases hitem with rfl | rfl | rfl
  · refine hsound _ (fun hrefused => ?_) (by decide)
    cases hrefused.1
  · refine hsound _ (fun hrefused => ?_) (by decide)
    cases hrefused.1
  · refine hsound _ (fun hrefused => ?_) (by decide)
    obtain ⟨_, text, hcheck⟩ := hrefused
    cases hcheck

/-- The batch of these items commits, and it is all or nothing. -/
theorem sample_batch_all_or_nothing : ∃ after results,
    batchRecordExecution sampleLibrary sampleMoments
        (.object [("executions", .array sampleItems)]) sampleDatabase
      = ⟨some after, .results results⟩
    ∧ ErrorsHarmless sampleLibrary (.start sampleDatabase) (batchSteps sampleMoments sampleItems)
    ∧ executeAll sampleLibrary sampleDatabase
        (acceptedSteps sampleLibrary (batchSteps sampleMoments sampleItems) results)
      = some after :=
  ⟨_, _, rfl, ((executions_all_or_nothing_iff sampleLibrary sampleDatabase).2.2 sampleMoments
    [("executions", .array sampleItems)] sampleItems _ _ rfl rfl).1 sound_sampleItems⟩

/-- An evidence item without a description is refused after the result was assigned to the test
record, and the batch commits it. And a single request with `null` for its evidence is answered
with an exception after its commit. -/
theorem refused_evidence_commits_result :
    (∃ after, batchRecordExecution sampleLibrary sampleMoments
          (.object [("executions", .array [.object [("test_id", .string "t1"),
            ("outcome", .string "success"),
            ("evidence", .array [.object [("evidence_type", .string "link")]])]])]) sampleDatabase
        = ⟨some after, .results [⟨.string "t1", .error REQUIRES_MESSAGE⟩]⟩
      ∧ after.tests "t1" ≠ sampleDatabase.tests "t1")
    ∧ ∃ after, recordExecution sampleLibrary (sampleMoments 0) "t1"
          (.object [("outcome", .string "success"), ("evidence", .null)]) sampleDatabase
        = ⟨some after, .raised⟩
      ∧ after.tests "t1" ≠ sampleDatabase.tests "t1" := by
  refine ⟨⟨_, rfl, ?_⟩, ⟨_, rfl, ?_⟩⟩
  · decide
  · decide

end TrustPortal.Proofs.Api
