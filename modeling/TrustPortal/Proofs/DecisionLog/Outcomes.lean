import TrustPortal.DecisionLog.Sync
import TrustPortal.Lib.Except
import TrustPortal.Proofs.DecisionLog.Compare

/-!
# `TrustPortal.Proofs.DecisionLog.Outcomes`: what one import can do to a session

`ImportOutcome` lists what a call of `_import` that returns can have done, with the tests it
passed on the way: nothing (the same content, a prefix, a dry run), a new session, a recorded
rejection, an extension, the repository's version after a conflict, a baseline or a backfill.
`importUpload_outcome` shows that the list is complete. The invariants of a session are
proved from it, one case for each outcome.

The other lemmas are the specifications of the writes: what each leaves in the session row,
the entries and the versions.
-/

set_option autoImplicit false

namespace TrustPortal.Proofs.DecisionLog

open TrustPortal.Audit
open TrustPortal.DecisionLog
open TrustPortal.Lib

section
variable {tools : Tools} {tx : Transaction} {upload : Upload} {record after : SessionRecord}
  {result : ImportResult} {session : Session} {parsed : ParsedTranscript}

/-! ## The outcomes -/

/-- What a call that returns has done to the session's record. -/
inductive ImportOutcome (tools : Tools) (tx : Transaction) (upload : Upload)
    (record : SessionRecord) : SessionRecord → ImportResult → Prop
  | dryRun {result : ImportResult} (hdry : upload.dryRun = true) :
      ImportOutcome tools tx upload record record result
  | sameContent (session : Session) {result : ImportResult}
      (hsession : record.session = some session)
      (hsame : session.contentSha256 = some upload.sha)
      (hresult : result.status = .unchanged) :
      ImportOutcome tools tx upload record record result
  | kept (session : Session) (parsed : ParsedTranscript) {result : ImportResult}
      (hsession : record.session = some session)
      (hparsed : upload.transcript tools = .ok parsed)
      (hagree : (compareWithStored tools record.entries parsed.entries).difference = none)
      (hlength : parsed.entries.length ≤ record.entries.length)
      (hresult : result.status = .keptExisting) :
      ImportOutcome tools tx upload record record result
  | created (parsed : ParsedTranscript) {after : SessionRecord} {result : ImportResult}
      (hsession : record.session = none)
      (hparsed : upload.transcript tools = .ok parsed)
      (hwrite : create tools tx upload parsed record = .ok after)
      (hwrites : upload.dryRun = false)
      (hresult : result.status = .created) :
      ImportOutcome tools tx upload record after result
  | rejected (session : Session) (count : Nat) (reason : String) {after : SessionRecord}
      {result : ImportResult}
      (hsession : record.session = some session)
      (hwrite : recordRejected tools tx upload count reason record = .ok after)
      (hwrites : upload.dryRun = false)
      (hresult : result.status = .rejected) :
      ImportOutcome tools tx upload record after result
  | extended (session : Session) (parsed : ParsedTranscript) {after : SessionRecord}
      {result : ImportResult}
      (hsession : record.session = some session)
      (hparsed : upload.transcript tools = .ok parsed)
      (hagree : (compareWithStored tools record.entries parsed.entries).difference = none)
      (hlength : record.entries.length < parsed.entries.length)
      (haccepted : extensionRefusal upload session parsed record.entries.length record = none)
      (hwrite : extend tools tx upload session parsed
        (compareWithStored tools record.entries parsed.entries) record = .ok after)
      (hwrites : upload.dryRun = false)
      (hresult : result.status = .replaced) :
      ImportOutcome tools tx upload record after result
  | adopted (session : Session) (parsed : ParsedTranscript) {after : SessionRecord}
      {result : ImportResult}
      (hsession : record.session = some session)
      (hparsed : upload.transcript tools = .ok parsed)
      (hwrites : upload.dryRun = false)
      (hnew : session.contentSha256 = some upload.sha → record.hasCurrentVersion = false)
      (hsystem : upload.authority = .system)
      (hwins : repositoryWins record session parsed.entries.length
        (compareWithStored tools record.entries parsed.entries) = true)
      (hwrite : adoptRepositoryVersion tools tx upload session parsed
        (compareWithStored tools record.entries parsed.entries) record = .ok after)
      (hresult : result.status = .replaced) :
      ImportOutcome tools tx upload record after result
  | baselined (session : Session) (parsed : ParsedTranscript) {after : SessionRecord}
      {result : ImportResult}
      (hsession : record.session = some session)
      (hparsed : upload.transcript tools = .ok parsed)
      (hcurrent : record.hasCurrentVersion = false)
      (hagree : (compareWithStored tools record.entries parsed.entries).difference = none)
      (hlength : parsed.entries.length = record.entries.length)
      (hwrite : baseline tools tx upload session record.entries.length
        (entriesDigest tools.sha record.entries) record = .ok after)
      (hwrites : upload.dryRun = false)
      (hresult : result.baselined = true) :
      ImportOutcome tools tx upload record after result
  | backfilled (session : Session) (parsed : ParsedTranscript) {result : ImportResult}
      (hsession : record.session = some session)
      (hparsed : upload.transcript tools = .ok parsed)
      (hcontent : session.contentSha256 = none)
      (hagree : (compareWithStored tools record.entries parsed.entries).difference = none)
      (hlength : parsed.entries.length = record.entries.length)
      (hwrites : upload.dryRun = false)
      (hresult : result.status = .unchanged) :
      ImportOutcome tools tx upload record
        (backfill tx upload session record.entries.length record) result

/-- A write of a call is the write, or nothing in a dry run. -/
theorem writes_eq_ok {write : Except ImportError SessionRecord}
    (h : upload.writes record write = .ok after) :
    (upload.dryRun = true ∧ after = record) ∨ (upload.dryRun = false ∧ write = .ok after) := by
  unfold Upload.writes at h
  cases hdry : upload.dryRun with
  | true =>
    rw [if_pos hdry, Except.ok.injEq] at h
    exact .inl ⟨rfl, h.symm⟩
  | false =>
    rw [hdry] at h
    exact .inr ⟨rfl, h⟩

/-- A refusal is recorded, or nothing in a dry run. -/
theorem reject_outcome {stored : Nat} {reason : String} {forbidden : Bool}
    (hsession : record.session = some session)
    (h : reject tools tx upload session parsed stored reason forbidden record
      = .ok (after, result)) :
    ImportOutcome tools tx upload record after result := by
  obtain ⟨written, hwrite, hreturn⟩ := bind_eq_ok.mp h
  cases hreturn
  rcases writes_eq_ok hwrite with ⟨hdry, rfl⟩ | ⟨hwrites, hwrite⟩
  · exact .dryRun hdry
  · exact .rejected session _ reason hsession hwrite hwrites rfl

/-- The outcomes of a comparison. -/
theorem importCompared_outcome {unbaselined : Bool}
    (hsession : record.session = some session)
    (hparsed : upload.transcript tools = .ok parsed)
    (hunbaselined : unbaselined = true → record.hasCurrentVersion = false)
    (hnew : session.contentSha256 = some upload.sha → record.hasCurrentVersion = false)
    (h : importCompared tools tx upload session parsed
      (compareWithStored tools record.entries parsed.entries) unbaselined record
        = .ok (after, result)) :
    ImportOutcome tools tx upload record after result := by
  have hspec := compareWithStored_spec tools record.entries parsed.entries
  unfold importCompared at h
  dsimp only at h
  split at h
  · -- The repository's version wins a conflict.
    rename_i hwins
    obtain ⟨written, hwrite, hreturn⟩ := bind_eq_ok.mp h
    cases hreturn
    rcases writes_eq_ok hwrite with ⟨hdry, rfl⟩ | ⟨hwrites, hwrite⟩
    · exact .dryRun hdry
    · exact .adopted session parsed hsession hparsed hwrites hnew hwins.1 hwins.2 hwrite rfl
  · split at h
    · -- A stored session without a current version gets a baseline.
      rename_i hbase
      obtain ⟨hagree, hmissing, hlength⟩ := hbase
      obtain ⟨written, hwrite, hreturn⟩ := bind_eq_ok.mp h
      cases hreturn
      rcases writes_eq_ok hwrite with ⟨hdry, rfl⟩ | ⟨hwrites, hwrite⟩
      · exact .dryRun hdry
      · rw [hspec.stored, hspec.storedSha256] at hwrite
        rw [hspec.stored] at hlength
        exact .baselined session parsed hsession hparsed (hunbaselined hmissing) hagree
          hlength hwrite hwrites rfl
    · split at h
      · exact reject_outcome hsession h
      · rename_i hagree
        rw [hspec.stored] at h
        split at h
        · rename_i hlength
          split at h
          · exact reject_outcome hsession h
          · -- The export extends the stored entries.
            rename_i haccepted
            obtain ⟨written, hwrite, hreturn⟩ := bind_eq_ok.mp h
            cases hreturn
            rcases writes_eq_ok hwrite with ⟨hdry, rfl⟩ | ⟨hwrites, hwrite⟩
            · exact .dryRun hdry
            · exact .extended session parsed hsession hparsed hagree hlength haccepted
                hwrite hwrites rfl
        · rename_i hlength
          split at h
          · -- A session stored before digests were recorded.
            rename_i hfill
            obtain ⟨hcount, hcontent, _⟩ := hfill
            obtain ⟨written, hwrite, hreturn⟩ := bind_eq_ok.mp h
            cases hreturn
            rcases writes_eq_ok hwrite with ⟨hdry, rfl⟩ | ⟨hwrites, hwrite⟩
            · exact .dryRun hdry
            · cases hwrite
              exact .backfilled session parsed hsession hparsed hcontent hagree hcount hwrites rfl
          · cases h
            exact .kept session parsed hsession hparsed hagree (by omega) rfl

/-- Every call that returns has one of the outcomes. -/
theorem importUpload_outcome
    (h : importUpload tools tx upload record = .ok (after, result)) :
    ImportOutcome tools tx upload record after result := by
  unfold importUpload at h
  split at h
  · -- No session with this id exists.
    rename_i hsession
    obtain ⟨parsed, hparsed, h⟩ := bind_eq_ok.mp h
    obtain ⟨written, hwrite, hreturn⟩ := bind_eq_ok.mp h
    cases hreturn
    rcases writes_eq_ok hwrite with ⟨hdry, rfl⟩ | ⟨hwrites, hwrite⟩
    · exact .dryRun hdry
    · exact .created parsed hsession hparsed hwrite hwrites rfl
  · rename_i session hsession
    dsimp only at h
    split at h
    · rename_i hsame
      cases h
      exact .sameContent session hsession hsame.1 rfl
    · rename_i hsame
      obtain ⟨parsed, hparsed, h⟩ := bind_eq_ok.mp h
      refine importCompared_outcome hsession hparsed ?_ ?_ h
      · intro hunbaselined
        simp only [Bool.and_eq_true, Bool.not_eq_true'] at hunbaselined
        exact hunbaselined.2
      · intro hsha
        cases hcurrent : record.hasCurrentVersion with
        | true => exact absurd ⟨hsha, by simp [hcurrent]⟩ hsame
        | false => rfl

end

/-- A dry run changes nothing. -/
theorem ImportOutcome.eq_of_dryRun {tools : Tools} {tx : Transaction} {upload : Upload}
    {record after : SessionRecord} {result : ImportResult}
    (h : ImportOutcome tools tx upload record after result) (hdry : upload.dryRun = true) :
    after = record := by
  cases h with
  | dryRun _ => rfl
  | sameContent session hsession hsame hresult => rfl
  | kept session parsed hsession hparsed hagree hlength hresult => rfl
  | created parsed hsession hparsed hwrite hwrites hresult =>
    exact absurd (hwrites.symm.trans hdry) Bool.false_ne_true
  | rejected session count reason hsession hwrite hwrites hresult =>
    exact absurd (hwrites.symm.trans hdry) Bool.false_ne_true
  | extended session parsed hsession hparsed hagree hlength haccepted hwrite hwrites hresult =>
    exact absurd (hwrites.symm.trans hdry) Bool.false_ne_true
  | adopted session parsed hsession hparsed hwrites hnew hsystem hwins hwrite hresult =>
    exact absurd (hwrites.symm.trans hdry) Bool.false_ne_true
  | baselined session parsed hsession hparsed hcurrent hagree hlength hwrite hwrites hresult =>
    exact absurd (hwrites.symm.trans hdry) Bool.false_ne_true
  | backfilled session parsed hsession hparsed hcontent hagree hlength hwrites hresult =>
    exact absurd (hwrites.symm.trans hdry) Bool.false_ne_true

/-! ## The writes -/

section
variable {tools : Tools} {tx : Transaction} {upload : Upload} {record after : SessionRecord}
  {session : Session} {parsed : ParsedTranscript} {comparison : Comparison}

/-- An INSERT of a version succeeds when its id is new. -/
theorem insertVersion_eq_ok {version : Version} :
    record.insertVersion tools tx version = .ok after ↔
      version.id ∉ record.versions.map Version.id ∧ after = { record with
        versions := record.versions ++ [version]
        versionEvents := record.versionEvents ++ [versionEvent tools tx .insert version] } := by
  rw [SessionRecord.insertVersion, ite_error_eq_ok, Except.ok.injEq, eq_comm (a := after)]

@[simp] theorem saveSession_session : (record.saveSession tx session).session = some session :=
  rfl

@[simp] theorem saveSession_entries : (record.saveSession tx session).entries = record.entries :=
  rfl

@[simp] theorem saveSession_versions :
    (record.saveSession tx session).versions = record.versions := rfl

@[simp] theorem saveSession_versionEvents :
    (record.saveSession tx session).versionEvents = record.versionEvents := rfl

/-- An INSERT of a version leaves the session and the entries. -/
theorem insertVersion_frame {version : Version}
    (h : record.insertVersion tools tx version = .ok after) :
    after.session = record.session ∧ after.entries = record.entries := by
  obtain ⟨_, rfl⟩ := insertVersion_eq_ok.mp h
  exact ⟨rfl, rfl⟩

/-- Superseding leaves the session and the entries. -/
theorem supersedeCurrent_frame {contentGz digest reason : String} {count : Nat}
    (h : supersedeCurrent tools tx session contentGz digest count reason record = .ok after) :
    after.session = record.session ∧ after.entries = record.entries := by
  unfold supersedeCurrent at h
  split at h
  · cases h
    exact ⟨rfl, rfl⟩
  · exact insertVersion_frame h

/-- What `_create` leaves in the session and the entries. -/
theorem create_frame (h : create tools tx upload parsed record = .ok after) :
    after.session = some (newSession tx upload parsed)
      ∧ after.entries = record.entries ++ parsed.entries := insertVersion_frame h

/-- What `_extend` leaves in the session and the entries. -/
theorem extend_frame
    (h : extend tools tx upload session parsed comparison record = .ok after) :
    after.session = some (extendedSession tx upload session parsed comparison.stored)
      ∧ after.entries = record.entries ++ parsed.entries.drop comparison.stored := by
  obtain ⟨superseded, hsuperseded, hinsert⟩ := bind_eq_ok.mp h
  obtain ⟨hsession, hentries⟩ := insertVersion_frame hinsert
  rw [hsession, hentries]
  exact ⟨rfl, (supersedeCurrent_frame hsuperseded).2⟩

/-- What `_adopt_repository_version` leaves in the session and the entries. -/
theorem adoptRepositoryVersion_frame
    (h : adoptRepositoryVersion tools tx upload session parsed comparison record = .ok after) :
    after.session = some (adoptedSession tx upload session parsed
        (conflictText upload parsed.entries.length comparison))
      ∧ after.entries = record.entries.take (conflictCut parsed.entries.length comparison)
        ++ parsed.entries.drop (conflictCut parsed.entries.length comparison) := by
  obtain ⟨superseded, hsuperseded, hinsert⟩ := bind_eq_ok.mp h
  obtain ⟨hsession, hentries⟩ := insertVersion_frame hinsert
  rw [hsession, hentries]
  exact ⟨rfl, (supersedeCurrent_frame hsuperseded).2⟩

/-- What `_record_rejected` leaves in the session and the entries. -/
theorem recordRejected_frame {count : Nat} {reason : String}
    (h : recordRejected tools tx upload count reason record = .ok after) :
    after.session = record.session ∧ after.entries = record.entries := by
  unfold recordRejected at h
  split at h
  · cases h
    exact ⟨rfl, rfl⟩
  · exact insertVersion_frame h

/-- What `_baseline` leaves in the entries. -/
theorem baseline_frame {count : Nat} {digest : String}
    (h : baseline tools tx upload session count digest record = .ok after) :
    after.session = some { session with
        repositoryEntries := some count
        contentSha256 := some upload.sha
        contentBytes := some upload.size }
      ∧ after.entries = record.entries := insertVersion_frame h

end

end TrustPortal.Proofs.DecisionLog
