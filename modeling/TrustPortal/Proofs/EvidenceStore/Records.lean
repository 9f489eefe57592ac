import TrustPortal.Proofs.EvidenceStore.Write
import TrustPortal.Lib.Run

/-!
# `TrustPortal.Proofs.EvidenceStore.Records`: the guard over whole histories

`records_admitted` is the main result: in every history of syncs, acknowledgements and erasures
whose steps meet `OperationOk`, the guard accepts each statement that is sent.

A batch looks its versions up once, at its start. `RecordsKnown` is the invariant of the loop: the
record of a version still to come is as it was then, since each step writes the row of its own
version only. A page of `ListObjectVersions` names a version once (`ListedOnce`). The duplicates
to re-evaluate are read once as well, and the same argument holds.
-/

set_option autoImplicit false

namespace TrustPortal.Proofs.EvidenceStore

open TrustPortal.Sql
open TrustPortal.Lib
open TrustPortal.EvidenceStore

/-! ## What is read of a version -/

/-- Reading a version keeps its record and decides on a few statuses only. -/
structure ReadFrom (start fetched : Fetched) : Prop where
  recordId : fetched.recordId = start.recordId
  attempts : fetched.attempts = start.attempts
  reevaluation : fetched.reevaluation = start.reevaluation
  status : ∀ status, fetched.status = some status →
    status ∈ [Status.recorded, .rejected, .nonConforming, .tooLarge]

section
variable {checks : Checks} {fetched start : Fetched} {content : String}

/-- A version that an outcome is decided for, whatever else is set of it. -/
theorem ReadFrom.decide {other : Fetched} {status : Status} (h : ReadFrom start fetched)
    (hrecord : other.recordId = fetched.recordId) (hattempts : other.attempts = fetched.attempts)
    (hreevaluation : other.reevaluation = fetched.reevaluation)
    (hstatus : other.status = some status)
    (hmem : status ∈ [Status.recorded, .rejected, .nonConforming, .tooLarge]) :
    ReadFrom start other := by
  refine ⟨hrecord.trans h.recordId, hattempts.trans h.attempts,
    hreevaluation.trans h.reevaluation, ?_⟩
  intro status' hdecided
  rw [hstatus] at hdecided
  cases hdecided
  exact hmem

theorem checkPentestContent_read (h : ReadFrom start fetched) :
    ReadFrom start (checkPentestContent checks fetched content) := by
  unfold checkPentestContent
  split
  · exact ⟨h.recordId, h.attempts, h.reevaluation, h.status⟩
  · exact h.decide rfl rfl rfl rfl (by simp)

theorem checkDecisionLogContent_read (h : ReadFrom start fetched) :
    ReadFrom start (checkDecisionLogContent checks fetched content) := by
  unfold checkDecisionLogContent
  split
  · exact ⟨h.recordId, h.attempts, h.reevaluation, h.status⟩
  · exact h.decide rfl rfl rfl rfl (by simp)
  · exact h.decide rfl rfl rfl rfl (by simp)

theorem readSidecar_read {sidecar : Option SidecarReply} (h : ReadFrom start fetched) :
    ReadFrom start (readSidecar fetched sidecar) := by
  unfold readSidecar
  simp only
  split <;> exact ⟨h.recordId, h.attempts, h.reevaluation, h.status⟩

theorem checkBody_read {sidecar : Option SidecarReply} (h : ReadFrom start fetched) :
    ReadFrom start (checkBody checks fetched content sidecar) := by
  have hdigest : ReadFrom start
      { fetched with sha256 := some (checks.tools.sha.hexOfBytes content) } :=
    ⟨h.recordId, h.attempts, h.reevaluation, h.status⟩
  unfold checkBody
  simp only
  split
  · exact h.decide rfl rfl rfl rfl (by simp)
  · split
    · exact h.decide rfl rfl rfl rfl (by simp)
    · split
      · exact hdigest.decide rfl rfl rfl rfl (by simp)
      · exact checkPentestContent_read hdigest
      · exact checkDecisionLogContent_read (readSidecar_read hdigest)
      · exact hdigest

theorem hashNonConforming_read {body : BodyReply} (h : ReadFrom start fetched) :
    ReadFrom start (hashNonConforming checks fetched body).1 := by
  unfold hashNonConforming
  split
  · exact h
  · split
    · exact h
    · split <;> exact ⟨h.recordId, h.attempts, h.reevaluation, h.status⟩

/-- `fetch_version` reads a version. -/
theorem fetchVersion_read {version : Listed} {reply : Reply} (h : start.status = none) :
    ReadFrom start (fetchVersion checks version start reply).1 := by
  have hstart : ReadFrom start start := by
    refine ⟨rfl, rfl, rfl, ?_⟩
    intro status hstatus
    rw [h] at hstatus
    cases hstatus
  unfold fetchVersion
  split
  · exact hstart
  · rename_i head _
    have hhead : ReadFrom start (start.withHead version head) :=
      ⟨rfl, rfl, rfl, hstart.status⟩
    simp only
    split
    · exact hashNonConforming_read (hhead.decide rfl rfl rfl rfl (by simp))
    · split
      · exact hhead.decide rfl rfl rfl rfl (by simp)
      · split
        · exact hhead.decide rfl rfl rfl rfl (by simp)
        · split
          · exact hhead.decide rfl rfl rfl rfl (by simp)
          · exact hhead.decide rfl rfl rfl rfl (by simp)
          · exact hhead
          · exact checkBody_read hhead

end

/-! ## One version of a batch -/

section
variable {checks : Checks} {bucket : String} {runId : Option String} {version : Listed}
  {answers : VersionAnswers} {db : Database}

/-- The condition on a version with an `error` record: when the version is read, the write keeps
the record's attempts. -/
def VersionOk (checks : Checks) (runId : Option String) (version : Listed) (recorded : Recorded)
    (answers : VersionAnswers) (db : Database) : Prop :=
  ∀ row fetched, db.objects.get recorded.id = some row → row.status = .error →
    fetchVersion checks version (newFetched version (some recorded) runId) answers.reply
      = (fetched, none) → AttemptsKept checks fetched answers.writes db row

/-- A version without a record is written with accepted statements, and no row changes. -/
theorem processVersion_fresh :
    Writes none db (processVersion checks bucket runId version none answers db).db := by
  have hread := @fetchVersion_read checks (newFetched version none runId) version answers.reply rfl
  rcases hfetch : fetchVersion checks version (newFetched version none runId) answers.reply
    with ⟨fetched, error⟩
  rw [hfetch] at hread
  have hrecord : fetched.recordId = none := hread.recordId
  have hnone : ∀ row, storedRow db fetched ≠ some row := by
    intro row hrow
    rw [storedRow, hrecord] at hrow
    cases hrow
  unfold processVersion
  simp only [hfetch]
  rw [← hrecord]
  cases error with
  | none =>
    apply write_writes (.fresh hrecord)
    · intro status hstatus
      refine ⟨hread.status status hstatus, ?_⟩
      intro hreevaluation
      rw [hread.reevaluation] at hreevaluation
      cases hreevaluation
    · intro row hrow
      exact absurd hrow (hnone row)
    · intro row hrow
      exact absurd hrow (hnone row)
  | some error =>
    apply recordFailure_writes (.fresh hrecord)
    intro row hrow
    exact absurd hrow (hnone row)

/-- A version with an `error` record is written with accepted statements, and no other row
changes. -/
theorem processVersion_retry {row : StoreObject}
    (hstored : db.objects.get row.id = some row) (hstatus : row.status = .error)
    (hok : VersionOk checks runId version ⟨row.id, row.status, row.attempts⟩ answers db) :
    Writes (some row.id) db (processVersion checks bucket runId version
      (some ⟨row.id, row.status, row.attempts⟩) answers db).db := by
  have hread := @fetchVersion_read checks
    (newFetched version (some ⟨row.id, row.status, row.attempts⟩) runId) version answers.reply rfl
  rcases hfetch : fetchVersion checks version
    (newFetched version (some ⟨row.id, row.status, row.attempts⟩) runId) answers.reply
    with ⟨fetched, error⟩
  rw [hfetch] at hread
  have hretries : Retries db fetched row :=
    ⟨hread.recordId, hstored, hstatus, hread.reevaluation⟩
  have hattempts : ∀ row', storedRow db fetched = some row' → fetched.attempts = row'.attempts := by
    intro row' hrow'
    cases hretries.storedRow_eq.symm.trans hrow'
    exact hread.attempts
  have hrecord : fetched.recordId = some row.id := hread.recordId
  unfold processVersion
  simp only [hfetch]
  rw [← hrecord]
  cases error with
  | none =>
    apply write_writes (.retry row hretries)
    · intro status hdecided
      refine ⟨hread.status status hdecided, ?_⟩
      intro hreevaluation
      rw [hretries.reevaluation] at hreevaluation
      cases hreevaluation
    · exact hattempts
    · intro row' hrow'
      cases hretries.storedRow_eq.symm.trans hrow'
      exact hok row fetched hstored hstatus hfetch
  | some error =>
    apply recordFailure_writes (.retry row hretries)
    intro row' hrow' _ _
    rw [hattempts row' hrow']

end

/-! ## A batch -/

section
variable {checks : Checks} {bucket : String} {runId : Option String}

/-- The versions a batch names: `ListObjectVersions` lists a version once. -/
def ListedOnce (batch : List (Listed × VersionAnswers)) : Prop :=
  (batch.map fun candidate => (candidate.1.key, candidate.1.versionId)).Nodup

/-- What the batch knows of a version: an `error` record, that is read again. -/
def knownError (known : List ((String × String) × Recorded)) (version : Listed) :
    Option Recorded :=
  (knownVersion known version).filter fun recorded => retried recorded.status

/-- The condition on one candidate of a batch. -/
def CandidateOk (checks : Checks) (runId : Option String)
    (known : List ((String × String) × Recorded)) (state : SyncState)
    (candidate : Listed × VersionAnswers) : Prop :=
  state.lost = false → ∀ recorded, knownError known candidate.1 = some recorded →
    VersionOk checks runId candidate.1 recorded candidate.2 state.db

/-- The condition on a batch: it lists a version once, and its candidates meet theirs. -/
def BatchOk (checks : Checks) (bucket : String) (runId : Option String) (state : SyncState)
    (batch : List (Listed × VersionAnswers)) : Prop :=
  ListedOnce batch ∧
    let known := recordedVersions state.db bucket (batch.map fun candidate => candidate.1.key)
    Along (processCandidate checks bucket runId known) (CandidateOk checks runId known) state batch

/-- The records the batch knows of the versions still to come are stored as they were. -/
def RecordsKnown (known : List ((String × String) × Recorded)) (db : Database)
    (batch : List (Listed × VersionAnswers)) : Prop :=
  ∀ candidate ∈ batch, ∀ recorded, knownError known candidate.1 = some recorded →
    ∃ row, db.objects.get row.id = some row ∧ row.status = .error
      ∧ recorded = ⟨row.id, row.status, row.attempts⟩

/-- Different versions have different records. -/
def IdsDiffer (known : List ((String × String) × Recorded)) : Prop :=
  ∀ version version' recorded recorded', knownVersion known version = some recorded →
    knownVersion known version' = some recorded' → recorded.id = recorded'.id →
      (version.key, version.versionId) = (version'.key, version'.versionId)

/-- The guard accepts every statement after a point of the history. -/
def Admitted (db : Database) : Prop := ∀ statement ∈ db.issued, statement.admitted = true

theorem Writes.admitted_of {recordId : Option String} {db after : Database}
    (h : Writes recordId db after) (hadmitted : Admitted db) : Admitted after := by
  intro statement hmem
  rcases h.admitted statement hmem with hbefore | hok
  · exact hadmitted statement hbefore
  · exact hok

/-- One candidate is written with accepted statements, and only the row of its version
changes. -/
theorem processCandidate_writes {known : List ((String × String) × Recorded)} {state : SyncState}
    {candidate : Listed × VersionAnswers}
    (hknown : RecordsKnown known state.db [candidate])
    (hok : CandidateOk checks runId known state candidate) :
    Writes ((knownError known candidate.1).map Recorded.id) state.db
      (processCandidate checks bucket runId known state candidate).db := by
  unfold processCandidate
  split
  · exact writes_refl _ _
  · rename_i hlost
    have hlost' : state.lost = false := by simpa using hlost
    split
    · rename_i hnone
      have herror : knownError known candidate.1 = none := by rw [knownError, hnone]; rfl
      rw [herror]
      exact processVersion_fresh
    · rename_i recorded hsome
      split
      · rename_i hretried
        have herror : knownError known candidate.1 = some recorded := by
          rw [knownError, hsome]
          simp [hretried]
        rw [herror]
        have hversion := hok hlost' recorded herror
        obtain ⟨row, hstored, hstatus, rfl⟩ := hknown candidate (by simp) recorded herror
        exact processVersion_retry hstored hstatus hversion
      · exact writes_refl _ _

/-- A batch's loop sends accepted statements. -/
theorem candidates_admitted {known : List ((String × String) × Recorded)} (hids : IdsDiffer known)
    {batch : List (Listed × VersionAnswers)} {state : SyncState} (honce : ListedOnce batch)
    (hknown : RecordsKnown known state.db batch)
    (hok : Along (processCandidate checks bucket runId known) (CandidateOk checks runId known)
      state batch) (hadmitted : Admitted state.db) :
    Admitted (batch.foldl (processCandidate checks bucket runId known) state).db := by
  -- the loop invariant is `RecordsKnown` for the candidates that are left
  induction batch generalizing state with
  | nil => exact hadmitted
  | cons candidate rest ih =>
    obtain ⟨hfirst, hrest⟩ := hok
    obtain ⟨hnotin, hnodup⟩ := List.nodup_cons.mp honce
    have hwrites : Writes ((knownError known candidate.1).map Recorded.id) state.db
        (processCandidate checks bucket runId known state candidate).db := by
      apply processCandidate_writes _ hfirst
      intro other hother
      rw [List.mem_singleton.mp hother]
      exact hknown candidate (List.mem_cons_self)
    apply ih hnodup _ hrest (hwrites.admitted_of hadmitted)
    intro other hother recorded herror
    obtain ⟨row, hstored, hstatus, heq⟩ := hknown other (List.mem_cons_of_mem _ hother) recorded herror
    refine ⟨row, hwrites.frame row.id row ?_ hstored, hstatus, heq⟩
    intro hsame
    -- a record of its own would make the two candidates one version
    obtain ⟨recorded', herror', hid⟩ := Option.map_eq_some_iff.mp hsame
    have hversion := hids candidate.1 other.1 recorded' recorded
      (Option.eq_some_of_filter_eq_some herror') (Option.eq_some_of_filter_eq_some herror)
      (by rw [hid, heq])
    exact hnotin (List.mem_map.mpr ⟨other, hother, hversion.symm⟩)

/-- What a batch knows of a version is in the table. -/
theorem knownVersion_eq_some {db : Database} {keys : List String} {version : Listed}
    {recorded : Recorded}
    (h : knownVersion (recordedVersions db bucket keys) version = some recorded) :
    ∃ row ∈ db.objects.rows, recorded = ⟨row.id, row.status, row.attempts⟩
      ∧ (rawKey row.key row.keyEscaped, row.versionId) = (version.key, version.versionId) := by
  unfold knownVersion at h
  obtain ⟨before, after, heq, _⟩ := List.lookup_eq_some_iff.mp h
  have hmem : ((version.key, version.versionId), recorded) ∈ recordedVersions db bucket keys := by
    rw [← List.mem_reverse, heq]
    simp
  obtain ⟨row, hrow, hpair⟩ := List.mem_map.mp hmem
  refine ⟨row, List.mem_of_mem_filter hrow, ?_, ?_⟩
  · exact (congrArg Prod.snd hpair).symm
  · exact congrArg Prod.fst hpair

theorem idsDiffer_recordedVersions (db : Database) (bucket : String) (keys : List String) :
    IdsDiffer (recordedVersions db bucket keys) := by
  intro version version' recorded recorded' h h' hid
  obtain ⟨row, hrow, rfl, hversion⟩ := knownVersion_eq_some h
  obtain ⟨row', hrow', rfl, hversion'⟩ := knownVersion_eq_some h'
  have heq : row = row' := Table.eq_of_key hrow hrow' hid
  rw [← hversion, ← hversion', heq]

theorem recordsKnown_recordedVersions (db : Database) (keys : List String)
    (batch : List (Listed × VersionAnswers)) :
    RecordsKnown (recordedVersions db bucket keys) db batch := by
  intro candidate _ recorded herror
  obtain ⟨row, hrow, rfl, _⟩ := knownVersion_eq_some (Option.eq_some_of_filter_eq_some herror)
  refine ⟨row, Table.get_of_mem hrow, ?_, rfl⟩
  have hretried := (Option.filter_eq_some_iff.mp herror).2
  simpa [retried] using hretried

/-- A batch sends accepted statements. -/
theorem processBatch_admitted {state : SyncState} {batch : List (Listed × VersionAnswers)}
    (hok : BatchOk checks bucket runId state batch) (hadmitted : Admitted state.db) :
    Admitted (processBatch checks bucket runId state batch).db :=
  candidates_admitted (idsDiffer_recordedVersions _ _ _) hok.1
    (recordsKnown_recordedVersions _ _ _) hok.2 hadmitted

end

/-! ## The duplicates -/

section
variable {checks : Checks} {bucket : String} {answers : String → BodyReply × WriteAnswers}

/-- The condition on a duplicate: when its body is its own, the write keeps its attempts. -/
def DuplicateOk (checks : Checks) (answers : String → BodyReply × WriteAnswers)
    (state : SyncState) (row : StoreObject) : Prop :=
  state.lost = false → ∀ content, readBody PENTEST_LIMIT (answers row.id).1 = .body content →
    some (checks.tools.sha.hexOfBytes content) = row.sha256 →
    AttemptsKept checks (checkPentestContent checks (duplicateFetched row) content)
      (answers row.id).2 state.db row

/-- A stored duplicate is re-evaluated with accepted statements, and no other row changes. -/
theorem reevaluateDuplicate_writes {state : SyncState} {row : StoreObject}
    (hstored : state.db.objects.get row.id = some row) (hstatus : row.status = .duplicate)
    (hok : DuplicateOk checks answers state row) :
    Writes (some row.id) state.db (reevaluateDuplicate checks bucket answers state row).db := by
  unfold reevaluateDuplicate
  split
  · exact writes_refl _ _
  · rename_i hlost
    split
    · rename_i content hbody
      split
      · exact writes_refl _ _
      · rename_i hsha
        have hkept := hok (by simpa using hlost) content hbody (by simpa using hsha)
        generalize hfetched : checkPentestContent checks (duplicateFetched row) content = fetched
        rw [hfetched] at hkept
        have hreevaluates : Reevaluates state.db fetched row := by
          subst hfetched
          unfold checkPentestContent
          split <;> exact ⟨rfl, hstored, hstatus, rfl, rfl, rfl, rfl, rfl, rfl, rfl, rfl, rfl, rfl, rfl,
            rfl⟩
        have hattempts : fetched.attempts = row.attempts := by
          subst hfetched
          unfold checkPentestContent
          split <;> rfl
        rw [← hreevaluates.recordId]
        apply write_writes (.duplicate row hreevaluates)
        · intro status hdecided
          have hrejected : status = .rejected := by
            subst hfetched
            unfold checkPentestContent at hdecided
            split at hdecided
            · cases hdecided
            · cases hdecided
              rfl
          subst hrejected
          simp
        · intro row' hrow'
          cases hreevaluates.storedRow_eq.symm.trans hrow'
          exact hattempts
        · intro row' hrow'
          cases hreevaluates.storedRow_eq.symm.trans hrow'
          exact hkept
    · exact writes_refl _ _

/-- The re-evaluation's loop sends accepted statements. -/
theorem duplicates_admitted {rows : List StoreObject} {state : SyncState}
    (hnodup : (rows.map StoreObject.id).Nodup)
    (hstored : ∀ row ∈ rows, state.db.objects.get row.id = some row ∧ row.status = .duplicate)
    (hok : Along (reevaluateDuplicate checks bucket answers) (DuplicateOk checks answers) state rows)
    (hadmitted : Admitted state.db) :
    Admitted (rows.foldl (reevaluateDuplicate checks bucket answers) state).db := by
  -- the rows that are left are stored as they were read
  induction rows generalizing state with
  | nil => exact hadmitted
  | cons row rest ih =>
    obtain ⟨hfirst, hrest⟩ := hok
    obtain ⟨hnotin, hnodup⟩ := List.nodup_cons.mp hnodup
    obtain ⟨hrow, hstatus⟩ := hstored row (List.mem_cons_self)
    have hwrites : Writes (some row.id) state.db
        (reevaluateDuplicate checks bucket answers state row).db :=
      reevaluateDuplicate_writes hrow hstatus hfirst
    apply ih hnodup _ hrest (hwrites.admitted_of hadmitted)
    intro other hother
    obtain ⟨hget, hduplicate⟩ := hstored other (List.mem_cons_of_mem _ hother)
    refine ⟨hwrites.frame other.id other ?_ hget, hduplicate⟩
    intro hsame
    apply hnotin
    rw [Option.some.inj hsame]
    exact List.mem_map_of_mem hother

/-- The stale duplicates are different stored rows. -/
theorem staleDuplicates_stored (db : Database) (findings : Findings) :
    ((staleDuplicates db bucket findings).map StoreObject.id).Nodup
    ∧ ∀ row ∈ staleDuplicates db bucket findings,
      db.objects.get row.id = some row ∧ row.status = .duplicate := by
  constructor
  · unfold staleDuplicates
    have hperm := List.perm_insertionSort (fun a b : StoreObject => a.id ≤ b.id)
      (db.objects.rows.filter fun row =>
        row.bucket = bucket && row.kind = .pentest && row.status = .duplicate)
    have hnodup := ((List.filter_sublist (l := db.objects.rows)
      (p := fun row : StoreObject =>
        row.bucket = bucket && row.kind = .pentest && row.status = .duplicate)).map
          StoreObject.id).nodup db.objects.nodup
    have hsorted := (hperm.map StoreObject.id).nodup_iff.mpr hnodup
    exact (((List.take_sublist _ _).trans (List.filter_sublist)).map StoreObject.id).nodup hsorted
  · intro row hrow
    have hmem := List.mem_of_mem_filter (List.mem_of_mem_take hrow)
    rw [List.mem_insertionSort] at hmem
    obtain ⟨hin, hpred⟩ := List.mem_filter.mp hmem
    refine ⟨Table.get_of_mem hin, ?_⟩
    simp only [Bool.and_eq_true, decide_eq_true_eq] at hpred
    exact hpred.2

end

/-! ## Histories -/

section
variable {checks : Checks}

/-- The condition on a sync: its batches and the duplicates it re-evaluates meet theirs. -/
def SyncOk (checks : Checks) (run : SyncRun) (db : Database) : Prop :=
  Along (processBatch checks run.bucket run.runId) (BatchOk checks run.bucket run.runId)
      ⟨db, false⟩ run.batches
  ∧ ∀ reevaluation, run.reevaluation = some reevaluation →
    let state := run.batches.foldl (processBatch checks run.bucket run.runId) ⟨db, false⟩
    Along (reevaluateDuplicate checks run.bucket reevaluation.answers)
      (DuplicateOk checks reevaluation.answers) state
      (staleDuplicates state.db run.bucket reevaluation.findings)

/-- The condition on an operation. -/
def OperationOk (checks : Checks) (db : Database) : Operation → Prop
  | .sync run => SyncOk checks run db
  | .acknowledge _ _ => True
  | .recordErasure _ _ => True

/-- A sync sends accepted statements. -/
theorem syncBucket_admitted {run : SyncRun} {db : Database} (hok : SyncOk checks run db)
    (hadmitted : Admitted db) : Admitted (syncBucket checks run db) := by
  have hbatches : Admitted
      (run.batches.foldl (processBatch checks run.bucket run.runId) ⟨db, false⟩).db := by
    apply run_invariant (P := fun state : SyncState => Admitted state.db) _ hok.1 hadmitted
    intro state batch hstate hbatch
    exact processBatch_admitted hbatch hstate
  unfold syncBucket
  simp only
  split
  · exact hbatches
  · rename_i reevaluation hreevaluation
    obtain ⟨hnodup, hstored⟩ := staleDuplicates_stored _ reevaluation.findings
    exact duplicates_admitted hnodup hstored (hok.2 reevaluation hreevaluation) hbatches

/-- A request of an administrator sends accepted statements. -/
theorem mark_admitted {db : Database} {request : MarkRequest}
    {change : StoreObject → Except String StoreObject}
    (hchange : ∀ row new, change row = .ok new → (Statement.update row new).admitted = true)
    (hadmitted : Admitted db) : Admitted (mark db request change) := by
  unfold mark
  split
  · exact hadmitted
  · rename_i row _
    split
    · exact hadmitted
    · exact hadmitted
    · rename_i new hnew _
      have hsent : Admitted (db.send request.now (.update row new)).1 := by
        intro statement hmem
        have hmem' : statement ∈ db.issued ++ [Statement.update row new] := by
          unfold Database.send at hmem
          split at hmem <;> exact hmem
        rcases List.mem_append.mp hmem' with hbefore | hnow
        · exact hadmitted statement hbefore
        · rw [List.mem_singleton.mp hnow]
          exact hchange row new hnew
      rcases hsend : db.send request.now (.update row new) with ⟨after, result⟩
      rw [hsend] at hsent
      split
      · rename_i hpair _
        cases hpair
        exact hsent
      · rename_i hpair _
        cases hpair
        exact hsent

/-- The guard accepts every statement of a history whose steps meet `OperationOk`. -/
theorem records_admitted (operations : List Operation)
    (hok : Along (runOperation checks) (OperationOk checks) Database.empty operations) :
    ∀ statement ∈ (runOperations checks Database.empty operations).issued,
      statement.admitted = true := by
  apply run_invariant (P := Admitted) _ hok
  · intro statement hmem
    cases hmem
  · intro db operation hdb hstep
    cases operation with
    | sync run => exact syncBucket_admitted hstep hdb
    | acknowledge request issues =>
      exact mark_admitted (fun row new h => (acknowledge_admitted h).1) hdb
    | recordErasure request head =>
      exact mark_admitted (fun row new h => (recordErasure_admitted h).1) hdb

end

/-! ## Two histories of one pentest file -/

/-- The bytes of `{"findings":[{"summary":"a"}]}` in hexadecimal. -/
def findingsA : String := "7b2266696e64696e6773223a5b7b2273756d6d617279223a2261227d5d7d"

/-- The bytes of `{"findings":[{"summary":"b"}]}` in hexadecimal. -/
def findingsB : String := "7b2266696e64696e6773223a5b7b2273756d6d617279223a2262227d5d7d"

/-- The key of the finding `a` and the identity of its set. -/
def keyA : String := "115dc769038f1cb9736a1c8cdf08c8989967d6bb8ee6a6c6bcc760ac54a87e63:0"
def identityA : String := "231b422a44bdd1ea32abe78a73b3d1b3b40944a72b21ad96a0ec5419ac6615a9"

/-- The key of the finding `b` and the identity of its set. -/
def keyB : String := "3f4a110fdff53924a8cd6f25ecf9bea9988838cc4c07bf07d6f61be76ab36c4d:0"
def identityB : String := "9e3cc723af0a539c1accf8af0979baab1f89c55ea47879b1b1df8927513b3b09"

/-- The SHA-256 of the two bodies. -/
def bodyShaA : String := "ed51a2af1b06c83c919bcd50f598d47f0f7781fc9ac65e679150c87a2fc8123d"
def bodyShaB : String := "655badb2f952f49fa07d4086c2642488d9a57d5bc17c7eb8386b9febbda19c1c"

/-- The checks on the two files, as the versions `v1` and `w1`. -/
def sampleChecks : Checks where
  tools :=
    { sha := .ofTables [(keyA, identityA), (keyB, identityB)]
        [(findingsA, bodyShaA), (findingsB, bodyShaB)] (by decide)
      gzipText := fun text => text
      gzipBytes := fun content => content
      loads := fun _ => none
      parse := fun _ => .error (.invalid "unknown transcript") }
  pentest _ content _ :=
    if content = findingsA then
      .ok ⟨"layer1/scan.json", some ["7a4532ce-adaf-546f-889d-d868303cb0a9"], [keyA]⟩
    else if content = findingsB then
      .ok ⟨"layer1/scan.json", some ["226942bc-c82d-576c-bc51-684bc7da5976"], [keyB]⟩
    else .error "unknown file"

/-- A transaction that meets no fault. -/
def sampleAnswers (objectId : String) (findings : Findings) : Answers where
  objectId := objectId
  now := 0
  reading := none
  writing := none
  committing := none
  findings := findings
  imported := ⟨.unchanged, "", 0, "", 0, none, false, false, false, none, none⟩
  matchedVersion := none

/-- A write whose transactions meet no fault. -/
def sampleWrites (objectId : String) (findings : Findings) : WriteAnswers :=
  ⟨sampleAnswers objectId findings, sampleAnswers objectId findings,
    sampleAnswers objectId findings, sampleAnswers objectId findings⟩

/-- The file, as a listing has it. -/
def sampleListed (versionId : String) : Listed :=
  ⟨"pentest-evidence/layer1/scan.json", versionId, 30, none⟩

/-- A read of a body with its stored checksum. -/
def sampleReply (body sha : String) : Reply where
  head := .ok ⟨some 30, none, none, none, [], [], none, none, ⟨some sha, none, none⟩⟩
  body := .bytes body
  sidecar := none

/-- A store that throttles. -/
def throttledReply : Reply := ⟨.error ⟨"ClientError SlowDown", false, false⟩, .checksumMismatch, none⟩

/-- A sync of one version. -/
def sampleSync (bucket runId versionId : String) (reply : Reply) (writes : WriteAnswers) :
    Operation :=
  .sync ⟨bucket, some runId, [[(sampleListed versionId, ⟨reply, writes⟩)]], none⟩

/-- A git source holds the finding `a` for the file. -/
def gitHoldsA : Findings :=
  ⟨[("g1:layer1/scan.json", ⟨1, identityA, true⟩)], [], [("g1", "evidence")]⟩

/-- The first read of `v1` fails and the second one finds a duplicate of a git source. The bucket
is changed, the other bucket's file is imported, and the bucket is changed back. The git source
deletes its finding, so that the duplicate is re-evaluated. -/
def conflictHistory : List Operation :=
  [sampleSync "one" "r1" "v1" throttledReply (sampleWrites "o1" gitHoldsA),
    sampleSync "one" "r2" "v1" (sampleReply findingsA bodyShaA) (sampleWrites "o2" gitHoldsA),
    sampleSync "two" "r3" "w1" (sampleReply findingsB bodyShaB) (sampleWrites "o3" gitHoldsA),
    .sync ⟨"one", some "r4", [], some ⟨⟨[], [], []⟩,
      fun _ => (.bytes findingsA, sampleWrites "o4" ⟨[], [], []⟩)⟩⟩]

set_option maxRecDepth 8000 in
/-- The guard refuses the last statement of the history, and the record stays a duplicate. -/
theorem conflict_refused_by_guard :
    (¬∀ statement ∈ (runOperations sampleChecks .empty conflictHistory).issued,
        statement.admitted = true)
      ∧ ((runOperations sampleChecks .empty conflictHistory).objects.get "o1").map
        StoreObject.status = some .duplicate := by
  decide +kernel

/-- The first read of `v1` fails, and at the second one a stored finding has its finding's id. -/
def retriedHistory : List Operation :=
  [sampleSync "one" "r1" "v1" throttledReply (sampleWrites "o1" ⟨[], [], []⟩),
    sampleSync "one" "r2" "v1" (sampleReply findingsA bodyShaA) (sampleWrites "o2"
      ⟨[], [("7a4532ce-adaf-546f-889d-d868303cb0a9", "layer2/other.json")], []⟩)]

/-- A sync of one version meets its condition when its refusal meets no fault. -/
theorem operationOk_sampleSync {checks : Checks} {db : Database} {bucket runId versionId : String}
    {reply : Reply} {writes : WriteAnswers} (h : firstFault writes.refused = none) :
    OperationOk checks db (sampleSync bucket runId versionId reply writes) := by
  refine ⟨⟨⟨List.nodup_singleton _, ?_, trivial⟩, trivial⟩, ?_⟩
  · intro _ recorded _ row fetched _ hstatus _ _ _
    rw [if_neg (by simp [hstatus])]
    exact .inl h
  · intro reevaluation hnone
    cases hnone

set_option maxRecDepth 8000 in
/-- The refusal of the retried version is accepted. -/
theorem retried_refusal_admitted :
    (runOperations sampleChecks .empty retriedHistory).issued.length = 2
      ∧ ∀ statement ∈ (runOperations sampleChecks .empty retriedHistory).issued,
        statement.admitted = true :=
  ⟨by decide +kernel, records_admitted retriedHistory
    ⟨operationOk_sampleSync rfl, operationOk_sampleSync rfl, trivial⟩⟩

end TrustPortal.Proofs.EvidenceStore
