import TrustPortal.GitSources.Repository
import TrustPortal.Lib.Except

/-!
# `TrustPortal.Proofs.GitSources.FileWrites`: what one file of a sync leaves behind

`fetchAndWrite_cases` takes a step of a sync apart: the row of the file gets an error, or the file
was read and `processCandidate` wrote it. `processCandidate_spec` says what it wrote, for every kind
of file at once: the row of the path and no other (`Wrote`), with the status, the blob and the
version that belong to what was read (`FileOutcome`).

The tally counts every row that will be retried (`Wrote.retried`). So a sync without failures leaves
none.

`effect_step` is the case analysis of the events of a source: only the start of a sync and a turn of
it do anything to the files, the versions or the candidates.
-/

set_option autoImplicit false

namespace TrustPortal.Proofs.GitSources

open TrustPortal.GitSources
open TrustPortal.Lib
open TrustPortal.Python (Bytes decodeStrict)

/-! ## The tally -/

/-- The files that failed or were imported in part. -/
def failures (tally : Tally) : Nat := tally.counts.errors + tally.counts.incomplete

@[simp] theorem failures_add (tally : Tally) (kind : Kind) (values : Counts) :
    failures (tally.add kind values) = failures tally + (values.errors + values.incomplete) := by
  simp [failures, Tally.add, Counts.add]
  omega

@[simp] theorem failures_addError (tally : Tally) (path : String) (detail : Detail) :
    failures (tally.addError path detail) = failures tally := rfl

@[simp] theorem tallyDataset_failures (tally : Tally) (record : SourceFile) (counts : ImportCounts) :
    failures (tallyDataset tally record counts) = failures tally := by
  have hadd : ∀ values : Counts, values.errors = 0 → values.incomplete = 0 →
      failures (tally.add record.kind values) = failures tally := by
    intro values herrors hincomplete
    simp [herrors, hincomplete]
  unfold tallyDataset
  dsimp only
  split <;> exact hadd _ rfl rfl

/-! ## One row -/

section
variable {σ : Type}

/-- A step wrote one row, which is counted where it will be retried. -/
structure Wrote (s s' : Store σ) (tally tally' : Tally) (record : SourceFile) : Prop where
  files : s'.files = s.files.upsert record
  commits : s'.commits = s.commits
  counted : failures tally ≤ failures tally'
  retried : record.status.isRetried = true → failures tally < failures tally'

/-- A version has the content that was read of a file. -/
structure VersionOf (tools : SyncTools) (head path blobId : String) (content : Bytes)
    (version : FileVersion) : Prop where
  path : version.path = path
  commit : version.commitId = head
  blob : version.blobId = blobId
  text : decodeStrict content = some version.content
  sha256 : version.sha256 = tools.hash.sha256 content
  size : version.size = content.length

/-- The version that a governance file got: one more, unless there is one of the blob. -/
structure Stored (tools : SyncTools) (head path blobId : String) (content : Bytes) (s s' : Store σ)
    (current : Option String) : Prop where
  /-- The current version is one of the file and the blob. -/
  current : ∃ version ∈ s'.versions.rows, current = some version.id ∧ version.isOf path blobId
  /-- A new version has the content that was read, and is the first one of the blob. -/
  grew : s'.versions = s.versions ∨ ∃ version, s.versions.insert version = some s'.versions
    ∧ (∀ old ∈ s.versions.rows, old.isOf path blobId = false)
    ∧ VersionOf tools head path blobId content version

/-- What became of a file that was read. -/
inductive FileOutcome (tools : SyncTools) (head : String) (candidate : Candidate)
    (fetched : FetchedFile) (s s' : Store σ) (record : SourceFile) : Prop
  /-- It is gone. -/
  | gone (change : candidate.changeType = .change .deleted) (status : record.status = .deleted)
      (versions : s'.versions = s.versions)
  /-- It is too large, as it was read or as the importer found. -/
  | flagged (change : candidate.changeType ≠ .change .deleted) (status : record.status = .tooLarge)
      (versions : s'.versions = s.versions)
      (blob : (∃ flag, fetched = .tooLarge record.blobId flag) ∨
        ∃ content blobId log, fetched = .read content blobId log ∧ record.blobId = some blobId)
  /-- It is imported, in part or not at all where the status says so. -/
  | imported (change : candidate.changeType ≠ .change .deleted) (content : Bytes) (blobId : String)
      (log : Option FetchedLog) (read : fetched = .read content blobId log)
      (blob : record.blobId = some blobId) (status : record.status ≠ .deleted)
      (kind : candidate.kind.isContent = false) (versions : s'.versions = s.versions)
  /-- Its content is a version. -/
  | stored (change : candidate.changeType ≠ .change .deleted) (content : Bytes) (blobId : String)
      (log : Option FetchedLog) (read : fetched = .read content blobId log)
      (blob : record.blobId = some blobId) (status : record.status = .ok)
      (kind : candidate.kind.isContent = true)
      (version : Stored tools head candidate.path blobId content s s' record.currentVersionId)

@[simp] theorem fileRecord_path (files : SourceFiles) (candidate : Candidate) :
    (fileRecord files candidate).path = candidate.path := by
  unfold fileRecord
  split
  · rename_i record hget
    have hkey := Sql.Table.key_of_get hget
    exact hkey
  · rfl

@[simp] theorem fileRecord_kind (files : SourceFiles) (candidate : Candidate) :
    (fileRecord files candidate).kind = candidate.kind := by
  unfold fileRecord
  split <;> rfl

/-! ## Writing a row -/

/-- A row that will not be retried is written, whatever is counted. -/
theorem wrote_putFile {s : Store σ} {tally tally' : Tally} {record : SourceFile}
    (hstatus : record.status.isRetried = false) (htally : failures tally ≤ failures tally') :
    Wrote s (s.putFile record) tally tally' record where
  files := rfl
  commits := rfl
  counted := htally
  retried := by simp [hstatus]

/-- A row with a failure that is counted. -/
theorem wrote_failure {s : Store σ} {tally tally' : Tally} {record : SourceFile}
    (htally : failures tally < failures tally') :
    Wrote s (s.putFile record) tally tally' record where
  files := rfl
  commits := rfl
  counted := Nat.le_of_lt htally
  retried := fun _ => htally

/-- The evidence is no part of what a row says. -/
theorem Wrote.withEvidence {s s' : Store σ} {tally tally' : Tally} {record : SourceFile}
    (h : Wrote s s' tally tally' record) (evidence : σ) :
    Wrote s { s' with evidence } tally tally' record :=
  ⟨h.files, h.commits, h.counted, h.retried⟩

section
variable {tools : SyncTools} {importers : Importers σ} {sourceId head versionId : String}
  {memberId : Option String} {s s' : Store σ} {tally tally' : Tally} {record : SourceFile}

/-- A deleted file. -/
theorem writeDeleted_spec
    (h : writeDeleted importers sourceId head s tally record = .ok (s', tally')) :
    ∃ gone, Wrote s s' tally tally' gone ∧ gone.path = record.path ∧ gone.kind = record.kind
      ∧ gone.status = .deleted ∧ s'.versions = s.versions := by
  unfold writeDeleted at h
  dsimp only at h
  split at h
  · obtain ⟨⟨evidence, counts⟩, _, heq⟩ := map_eq_ok.mp h
    cases heq
    exact ⟨_, (wrote_putFile rfl (by simp)).withEvidence evidence, rfl, rfl, rfl, rfl⟩
  all_goals
    cases h
    exact ⟨_, wrote_putFile rfl (by simp), rfl, rfl, rfl, rfl⟩

/-- A file that is too large. -/
theorem writeFlagged_spec {blobId : Option String} {flag : Flag}
    (h : writeFlagged head s tally record blobId flag = (s', tally')) :
    ∃ row, Wrote s s' tally tally' row ∧ row.path = record.path ∧ row.kind = record.kind
      ∧ row.blobId = blobId ∧ row.status = .tooLarge ∧ s'.versions = s.versions := by
  unfold writeFlagged at h
  obtain ⟨rfl, rfl⟩ := Prod.mk.inj h
  have hfailures : failures (tally.add record.kind { Counts.zero with flagged := 1 })
      = failures tally := by simp [Counts.zero]
  exact ⟨_, wrote_putFile rfl (Nat.le_of_eq hfailures.symm), rfl, rfl, rfl, rfl, rfl⟩

/-- The content of a governance file is kept, once for each of its blobs. -/
theorem storeContentVersion_spec {content : Bytes} {blobId current : String} {created : Bool}
    (h : storeContentVersion tools head versionId s record content blobId
      = .ok (s', current, created)) :
    Stored tools head record.path blobId content s s' (some current) ∧ s'.files = s.files
      ∧ s'.commits = s.commits := by
  unfold storeContentVersion at h
  split at h
  · cases h
  · rename_i text htext
    split at h
    · -- there is a version of the blob
      rename_i existing hfound
      cases h
      have hof := List.find?_some hfound
      exact ⟨⟨⟨existing, List.mem_of_find?_eq_some hfound, rfl, hof⟩, .inl rfl⟩, rfl, rfl⟩
    · rename_i hnone
      dsimp only at h
      split at h
      · rename_i versions hinsert
        cases h
        refine ⟨⟨⟨_, (Sql.Table.mem_insert hinsert).mpr (.inr rfl), rfl, ?_⟩,
          .inr ⟨_, hinsert, ?_, rfl, rfl, rfl, htext, rfl, rfl⟩⟩, rfl, rfl⟩
        · simp [FileVersion.isOf]
        · intro old hold
          simpa using List.find?_eq_none.mp hnone old hold
      · cases h

/-- A governance file. -/
theorem writeContent_spec {content : Bytes} {blobId : String}
    (hstatus : record.status.isRetried = false)
    (h : writeContent tools head versionId s tally record content blobId = .ok (s', tally')) :
    ∃ row, Wrote s s' tally tally' row ∧ row = { record with currentVersionId := row.currentVersionId }
      ∧ Stored tools head record.path blobId content s s' row.currentVersionId := by
  unfold writeContent at h
  obtain ⟨⟨kept, current, created⟩, hstore, heq⟩ := map_eq_ok.mp h
  cases heq
  obtain ⟨hstored, hfiles, hcommits⟩ := storeContentVersion_spec hstore
  refine ⟨{ record with currentVersionId := some current }, ⟨?_, hcommits, ?_, ?_⟩, rfl, ?_⟩
  · simp [Store.putFile, hfiles]
  · cases created <;> simp
  · simp [hstatus]
  · exact ⟨hstored.current, hstored.grew⟩

/-- A dataset file. -/
theorem writeDataset_spec {name : Dataset} {content : Bytes}
    (hstatus : record.status = .ok)
    (h : writeDataset importers sourceId s tally record name content = .ok (s', tally')) :
    ∃ row, Wrote s s' tally tally' row ∧ row.path = record.path ∧ row.kind = record.kind
      ∧ row.blobId = record.blobId ∧ row.status ≠ .deleted ∧ s'.versions = s.versions := by
  unfold writeDataset at h
  obtain ⟨⟨evidence, counts⟩, _, heq⟩ := map_eq_ok.mp h
  dsimp only at heq
  split at heq
  · cases heq
    exact ⟨record, ⟨rfl, rfl, by simp, by simp [hstatus, FileStatus.isRetried]⟩, rfl, rfl, rfl,
      by simp [hstatus], rfl⟩
  · -- some records were skipped, and the file is counted as incomplete
    rename_i first rest _
    cases heq
    exact ⟨_, ⟨rfl, rfl, by simp, by simp⟩, rfl, rfl, rfl, by simp, rfl⟩

/-- A decision log. -/
theorem writeLogResult_spec {result : LogResult} (hstatus : record.status = .ok)
    (h : writeLogResult s tally record result = (s', tally')) :
    ∃ row, Wrote s s' tally tally' row ∧ row.path = record.path ∧ row.kind = record.kind
      ∧ row.blobId = record.blobId ∧ row.status ≠ .deleted ∧ s'.versions = s.versions := by
  unfold writeLogResult at h
  split at h
  · cases h
    exact ⟨_, wrote_failure (by simp), rfl, rfl, rfl, by simp, rfl⟩
  · rename_i status _
    obtain ⟨rfl, rfl⟩ := Prod.mk.inj h
    refine ⟨record, wrote_putFile (by simp [hstatus, FileStatus.isRetried]) ?_, rfl, rfl, rfl,
      by simp [hstatus], rfl⟩
    simp only [failures_add]
    split <;> split <;> simp [failures]

/-- A file that was read, of any kind. -/
theorem writeRead_spec {content : Bytes} {blobId : String} {logResult : Option LogResult}
    (h : writeRead tools importers sourceId head versionId s tally record content blobId logResult
      = .ok (s', tally')) :
    ∃ row, Wrote s s' tally tally' row ∧ row.path = record.path ∧ row.kind = record.kind
      ∧ row.blobId = some blobId ∧ row.status ≠ .deleted
      ∧ (record.kind.isContent = true → row.status = .ok
          ∧ Stored tools head record.path blobId content s s' row.currentVersionId)
      ∧ (record.kind.isContent = false → s'.versions = s.versions) := by
  unfold writeRead at h
  dsimp only at h
  split at h
  iterate 2
    -- a governance file
    rename_i hkind
    obtain ⟨row, hwrote, hrow, hstored⟩ := writeContent_spec (by rfl) h
    have hok : row.status = .ok := by rw [hrow]
    refine ⟨row, hwrote, by rw [hrow], by rw [hrow], by rw [hrow], by simp [hok], fun _ => ⟨hok, hstored⟩, ?_⟩
    simp [hkind, Kind.isContent]
  · rename_i name hkind
    obtain ⟨row, hwrote, hpath, hk, hblob, hstatus, hversions⟩ := writeDataset_spec (by rfl) h
    exact ⟨row, hwrote, hpath, hk, hblob, hstatus, by simp [hkind, Kind.isContent],
      fun _ => hversions⟩
  · rename_i result hkind
    obtain ⟨row, hwrote, hpath, hk, hblob, hstatus, hversions⟩ :=
      writeLogResult_spec (by rfl) (Except.ok.inj h)
    exact ⟨row, hwrote, hpath, hk, hblob, hstatus, by simp [hkind, Kind.isContent],
      fun _ => hversions⟩
  all_goals
    rename_i hkind
    cases h
    refine ⟨_, wrote_putFile (by rfl) (by simp), rfl, rfl, rfl, by simp, ?_, fun _ => rfl⟩
    simp [hkind, Kind.isContent]

/-- The import of a decision log changes the evidence alone, and may find the file too large. -/
theorem importLog_spec {candidate : Candidate} {fetched fetched' : FetchedFile}
    {result : Option LogResult}
    (h : importLog importers memberId head s candidate fetched = .ok (s', fetched', result)) :
    (∃ evidence, s' = { s with evidence }) ∧ (fetched' = fetched ∨
      ∃ content blobId log flag, fetched = .read content blobId log
        ∧ fetched' = .tooLarge (some blobId) flag) := by
  unfold importLog at h
  split at h
  · split at h
    · cases h
      exact ⟨⟨_, rfl⟩, .inl rfl⟩
    · cases h
      exact ⟨⟨_, rfl⟩, .inr ⟨_, _, _, _, rfl, rfl⟩⟩
    · cases h
  · cases h
    exact ⟨⟨_, rfl⟩, .inl rfl⟩

/-- A candidate that was read is written: its row, as it was read. -/
theorem processCandidate_spec {candidate : Candidate} {fetched : FetchedFile}
    (h : processCandidate tools importers sourceId memberId head versionId s tally candidate fetched
      = .ok (s', tally')) :
    ∃ row, Wrote s s' tally tally' row ∧ row.path = candidate.path ∧ row.kind = candidate.kind
      ∧ FileOutcome tools head candidate fetched s s' row := by
  unfold processCandidate at h
  obtain ⟨⟨imported, fetched', result⟩, hlog, h⟩ := bind_eq_ok.mp h
  obtain ⟨⟨evidence, rfl⟩, hfetched⟩ := importLog_spec hlog
  have hevidence : ∀ row, Wrote { s with evidence } s' tally tally' row →
      Wrote s s' tally tally' row := fun row hw => ⟨hw.files, hw.commits, hw.counted, hw.retried⟩
  dsimp only at h
  split at h
  · rename_i hchange
    obtain ⟨row, hwrote, hpath, hkind, hstatus, hversions⟩ := writeDeleted_spec h
    rw [fileRecord_path] at hpath
    rw [fileRecord_kind] at hkind
    exact ⟨row, hevidence row hwrote, hpath, hkind, .gone hchange hstatus hversions⟩
  · rename_i hchange
    split at h
    · cases h
    · -- too large, before or after the import
      rename_i blobId flag
      obtain ⟨row, hwrote, hpath, hkind, hblob, hstatus, hversions⟩ :=
        writeFlagged_spec (Except.ok.inj h)
      rw [fileRecord_path] at hpath
      rw [fileRecord_kind] at hkind
      refine ⟨row, hevidence row hwrote, hpath, hkind, .flagged hchange hstatus hversions ?_⟩
      rcases hfetched with rfl | ⟨content, blob, log, flag', hread, heq⟩
      · exact .inl ⟨flag, by rw [hblob]⟩
      · cases heq
        exact .inr ⟨content, blob, log, hread, hblob⟩
    · rename_i content blobId log
      have hread : fetched = .read content blobId log := by
        rcases hfetched with rfl | ⟨_, _, _, _, _, heq⟩
        · rfl
        · cases heq
      obtain ⟨row, hwrote, hpath, hkind, hblob, hstatus, hcontent, hother⟩ := writeRead_spec h
      rw [fileRecord_path] at hpath hcontent
      rw [fileRecord_kind] at hkind hcontent hother
      refine ⟨row, hevidence row hwrote, hpath, hkind, ?_⟩
      cases hk : candidate.kind.isContent with
      | false => exact .imported hchange content blobId log hread hblob hstatus hk (hother hk)
      | true =>
        obtain ⟨hok, hstored⟩ := hcontent hk
        exact .stored hchange content blobId log hread hblob hok hk
          ⟨hstored.current, hstored.grew⟩

/-! ## One candidate -/

/-- The row of a candidate that failed. -/
def errorRow (s : Store σ) (candidate : Candidate) (head : String) (error : SyncError) : SourceFile :=
  { fileRecord s.files candidate with
    status := .error
    statusDetail := some (.raised error)
    lastCommitId := some head }

/-- What `fetchAndWrite` did with a candidate: an error is recorded, or what was read is written. -/
inductive Turn (tools : SyncTools) (provider : GitProvider) (head : String) (candidate : Candidate)
    (s s' : Store σ) (tally tally' : Tally) : SourceFile → Prop
  | failed (error : SyncError) (store : s' = s.putFile (errorRow s candidate head error))
      (wrote : Wrote s s' tally tally' (errorRow s candidate head error)) :
      Turn tools provider head candidate s s' tally tally' (errorRow s candidate head error)
  | written (fetched : FetchedFile) (row : SourceFile)
      (fetch : fetchCandidate tools provider candidate head = .ok fetched)
      (wrote : Wrote s s' tally tally' row) (path : row.path = candidate.path)
      (kind : row.kind = candidate.kind)
      (outcome : FileOutcome tools head candidate fetched s s' row) :
      Turn tools provider head candidate s s' tally tally' row

/-- An error that is recorded. -/
theorem recordFileError_spec {provider : GitProvider} {candidate : Candidate} {error : SyncError}
    {commit : Option SyncError}
    (h : recordFileError s tally candidate head error commit = .ok (s', tally')) :
    ∃ row, Turn tools provider head candidate s s' tally tally' row := by
  unfold recordFileError committed at h
  obtain ⟨written, heq, h⟩ := bind_eq_ok.mp h
  cases heq
  cases commit with
  | some error => cases h
  | none =>
    cases h
    exact ⟨_, .failed error rfl (wrote_failure (by simp))⟩

/-- A write that was committed. -/
theorem committed_eq_ok {α : Type} {commit : Option SyncError} {written : Except SyncError α} {a : α}
    (h : committed commit written = .ok a) : written = .ok a := by
  unfold committed at h
  obtain ⟨value, heq, h⟩ := bind_eq_ok.mp h
  cases commit with
  | some error => cases h
  | none => exact heq.trans h

/-- A candidate of a sync that goes on. -/
theorem fetchAndWrite_cases {step : FileStep} {candidate : Candidate}
    (h : fetchAndWrite tools importers sourceId memberId head step s tally candidate
      = .ok (s', tally')) :
    ∃ row, Turn tools step.provider head candidate s s' tally tally' row := by
  have hwritten : ∀ fetched id, fetchCandidate tools step.provider candidate head = .ok fetched →
      processCandidate tools importers sourceId memberId head id s tally candidate fetched
        = .ok (s', tally') → ∃ row, Turn tools step.provider head candidate s s' tally tally' row := by
    intro fetched id hfetch hprocess
    obtain ⟨row, hwrote, hpath, hkind, houtcome⟩ := processCandidate_spec hprocess
    exact ⟨row, .written fetched row hfetch hwrote hpath hkind houtcome⟩
  have hfailed : ∀ error, attemptFailed s tally candidate head step.errorCommit error
      = .ok (s', tally') → ∃ row, Turn tools step.provider head candidate s s' tally tally' row := by
    intro error hattempt
    unfold attemptFailed at hattempt
    split at hattempt
    · cases hattempt
    · exact recordFileError_spec hattempt
  unfold fetchAndWrite at h
  split at h
  · exact recordFileError_spec h
  · rename_i fetched hfetch
    split at h
    · rename_i written hcommitted
      cases h
      exact hwritten fetched _ hfetch (committed_eq_ok hcommitted)
    · split at h
      · -- written again after a deadlock
        split at h
        · rename_i written hcommitted
          cases h
          exact hwritten fetched _ hfetch (committed_eq_ok hcommitted)
        · exact hfailed _ h
      · exact hfailed _ h

/-- Only the row of the candidate's path is written. -/
theorem Turn.wrote {provider : GitProvider} {candidate : Candidate} {row : SourceFile}
    (h : Turn tools provider head candidate s s' tally tally' row) :
    Wrote s s' tally tally' row ∧ row.path = candidate.path ∧ row.kind = candidate.kind := by
  cases h with
  | failed error store wrote =>
    exact ⟨wrote, fileRecord_path _ _, fileRecord_kind _ _⟩
  | written fetched row fetch wrote path kind outcome => exact ⟨wrote, path, kind⟩

end

end

/-! ## Events -/

section
variable {σ : Type}

/-- What an event does to the files, the versions and the sync that is going on. -/
inductive Effect (tools : SyncTools) (s s' : SyncState σ) : SyncEvent → Prop
  /-- No file is written, and the sync goes on or ends. -/
  | none {event : SyncEvent} (files : s'.store.files = s.store.files)
      (versions : s'.store.versions = s.store.versions)
      (running : s'.running = s.running ∨ s'.running = .none) : Effect tools s s' event
  /-- A sync starts. -/
  | started {provider : GitProvider} {memberId : Option String} {full applied : Bool} (run : Running)
      (start : startSync tools s provider memberId full = .ok run)
      (state : s' = { s with running := some run }) :
      Effect tools s s' (.start provider memberId full applied)
  /-- A turn of the sync. -/
  | turn {step : FileStep} {applied : Bool} (run : Running) (candidate : Candidate)
      (todo : List Candidate) (store : Store σ) (tally : Tally) (row : SourceFile)
      (running : s.running = some run) (next : run.todo = candidate :: todo)
      (turn : Turn tools step.provider run.head candidate s.store store run.tally tally row)
      (state : s' = { s with store, running := some { run with todo, tally } }) :
      Effect tools s s' (.file step applied)

/-- Every event has one of these effects. -/
theorem effect_step (tools : SyncTools) (importers : Importers σ) (s : SyncState σ)
    (event : SyncEvent) :
    Effect tools s (syncStep tools importers s event) event := by
  have hupdated : ∀ source event, Effect tools s (updated s source) event := by
    intro source event
    unfold updated
    split
    · exact .none rfl rfl (.inl rfl)
    · exact .none rfl rfl (.inl rfl)
  cases event with
  | update localAllowed data =>
    show Effect tools s (updated s (applyConfig localAllowed s.source data)) _
    exact hupdated _ _
  | cutover commit =>
    show Effect tools s (updated s (setLastSyncedCommit s.source commit)) _
    exact hupdated _ _
  | start provider memberId full applied =>
    show Effect tools s (if s.running.isSome then s else _) _
    split
    · exact .none rfl rfl (.inl rfl)
    · split
      · rename_i run hstart
        exact .started run hstart rfl
      · exact .none rfl rfl (.inr rfl)
  | file step applied =>
    show Effect tools s (syncFile tools importers s step applied) _
    unfold syncFile
    split
    · exact .none rfl rfl (.inl rfl)
    · rename_i run hrun
      split
      · exact .none rfl rfl (.inl rfl)
      · rename_i candidate todo htodo
        split
        · rename_i store tally hwritten
          obtain ⟨row, hturn⟩ := fetchAndWrite_cases hwritten
          exact .turn run candidate todo store tally row hrun htodo hturn rfl
        · exact .none rfl rfl (.inr rfl)
        · exact .none rfl rfl (.inr rfl)
  | finish step =>
    show Effect tools s (finishSync s step) _
    unfold finishSync
    split
    · exact .none rfl rfl (.inl rfl)
    · split
      · exact .none rfl rfl (.inl rfl)
      · split
        · exact .none rfl rfl (.inr rfl)
        · split
          · exact .none rfl rfl (.inr rfl)
          · exact .none rfl rfl (.inr rfl)
          · exact .none rfl rfl (.inr rfl)
  | stop => exact .none rfl rfl (.inr rfl)

end

end TrustPortal.Proofs.GitSources
