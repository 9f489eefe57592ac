import TrustPortal.EvidenceStore.Service
import TrustPortal.Lib.Except

/-!
# `TrustPortal.Proofs.EvidenceStore.Guard`: the statements the guard accepts

A version is recorded in one of three situations. It has no record (`recordId` is none), it is
read again because its record is an `error` (`Retries`), or it is a duplicate that is
re-evaluated (`Reevaluates`). For each of them this file says which statements of `_record`
the guard accepts. The rows of an acknowledgement and of an erasure are always accepted.
-/

set_option autoImplicit false

namespace TrustPortal.Proofs.EvidenceStore

open TrustPortal.Sql
open TrustPortal.Lib
open TrustPortal.EvidenceStore

section
variable {db : Database} {fetched : Fetched} {row : StoreObject} {bucket objectId : String}
  {status : Status} {detail : Option String} {attempts : Nat}

/-- The version has an `error` record that the sync reads again. -/
structure Retries (db : Database) (fetched : Fetched) (row : StoreObject) : Prop where
  recordId : fetched.recordId = some row.id
  stored : db.objects.get row.id = some row
  status : row.status = .error
  reevaluation : fetched.reevaluation = false

/-- The version is a stored duplicate, and what was read of it has no evidence column. -/
structure Reevaluates (db : Database) (fetched : Fetched) (row : StoreObject) : Prop where
  recordId : fetched.recordId = some row.id
  stored : db.objects.get row.id = some row
  status : row.status = .duplicate
  reevaluation : fetched.reevaluation = true
  kind : fetched.kind = .pentest
  size : fetched.size = row.size
  metadata : fetched.metadata = []
  sha256 : fetched.sha256 = none
  compositeChecksum : fetched.compositeChecksum = none
  etag : fetched.etag = none
  lastModified : fetched.lastModified = none
  contentType : fetched.contentType = none
  lockMode : fetched.lockMode = none
  retainUntil : fetched.retainUntil = none
  runId : fetched.runId = none

/-- `_record` never changes the identity, the erasure or the acknowledgement of a row. -/
theorem kept_updatedRow (fetched : Fetched) (row : StoreObject) (status : Status)
    (detail : Option String) (attempts : Nat) :
    identityKept row (fetched.updatedRow row status detail attempts) = true
    ∧ erasureKept row (fetched.updatedRow row status detail attempts) = true
    ∧ acknowledgementKept row (fetched.updatedRow row status detail attempts) = true := by
  simp [identityKept, erasureKept, acknowledgementKept, Fetched.updatedRow]

/-- A version without a record is inserted with every status but the two of an
administrator. -/
theorem admitted_insert (hrecord : fetched.recordId = none) (herased : status ≠ .erased)
    (hacknowledged : status ≠ .acknowledged) :
    (recordStatement db bucket fetched objectId status detail attempts).admitted = true := by
  simp [recordStatement, hrecord, Statement.admitted, guardInsert, Fetched.newRow, herased,
    hacknowledged]

/-- An `error` record takes every status but the two of an administrator, and `error` again
with more attempts only. -/
theorem Retries.admitted (h : Retries db fetched row) (herased : status ≠ .erased)
    (hacknowledged : status ≠ .acknowledged) :
    (recordStatement db bucket fetched objectId status detail attempts).admitted = true
      ↔ (status = .error → row.attempts < attempts) := by
  have hkept := kept_updatedRow fetched row status detail attempts
  simp only [recordStatement, h.recordId, Option.bind_some, h.stored, Statement.admitted,
    guardUpdate, hkept.1, hkept.2.1, hkept.2.2]
  by_cases herror : status = .error <;>
    simp [readAgain, reevaluated, settled, erasedNow, h.status, Fetched.updatedRow, herased,
      hacknowledged, herror]

/-- A re-evaluated duplicate takes the outcomes of an import, with its attempts unchanged. -/
theorem Reevaluates.admitted (h : Reevaluates db fetched row)
    (hstatus : status ∈ [Status.ingested, .unchanged, .duplicate, .rejected]) :
    (recordStatement db bucket fetched objectId status detail attempts).admitted = true
      ↔ attempts = row.attempts := by
  have hkept := kept_updatedRow fetched row status detail attempts
  have hevidence : evidenceKept row (fetched.updatedRow row status detail attempts) = true := by
    simp [evidenceKept, Fetched.updatedRow, Fetched.metadataOrNone, h.size, h.metadata, h.sha256,
      h.compositeChecksum, h.etag, h.lastModified, h.contentType, h.lockMode, h.retainUntil,
      h.runId]
  have herased : status ≠ .erased := by rintro rfl; simp at hstatus
  have hacknowledged : status ≠ .acknowledged := by rintro rfl; simp at hstatus
  simp only [recordStatement, h.recordId, Option.bind_some, h.stored, Statement.admitted,
    guardUpdate, hkept.1, hkept.2.1, hkept.2.2, reevaluated, hevidence]
  have hnew : (fetched.updatedRow row status detail attempts).status = status := rfl
  have hattempts : (fetched.updatedRow row status detail attempts).attempts = attempts := rfl
  simp [readAgain, settled, erasedNow, h.status, hnew, hattempts, herased, hacknowledged]
  intro _
  simpa using hstatus

end

section
variable {row new : StoreObject} {request : MarkRequest}

/-- The row an acknowledgement writes. -/
theorem acknowledge_eq_ok {issues : Except String (List String)}
    (h : acknowledge row request issues = .ok new) :
    row.status ∈ [Status.nonConforming, .rejected, .tooLarge, .error] ∧ ∃ reason,
      new = { row with
        acknowledgedFrom := some row.status
        status := .acknowledged
        acknowledgedAt := some request.clock
        acknowledgedBy := some request.memberId
        acknowledgementReason := some reason } := by
  unfold acknowledge at h
  split at h
  · cases h
  · rename_i reason _
    simp only [ite_error_eq_ok] at h
    obtain ⟨_, h⟩ := h
    split at h
    · rename_i hrefused
      split at h
      · cases h
      · cases h
      · cases h
        refine ⟨?_, reason, rfl⟩
        rcases hrefused with hstatus | hstatus <;> simp [hstatus]
    · simp only [ite_error_eq_ok] at h
      obtain ⟨hother, h⟩ := h
      cases h
      refine ⟨?_, reason, rfl⟩
      by_cases hstatus : row.status = .nonConforming
      · simp [hstatus]
      · have herror : row.status = .error := by
          by_contra hne
          exact hother ⟨hstatus, hne⟩
        simp [herror]

/-- The guard accepts every acknowledgement. -/
theorem acknowledge_admitted {issues : Except String (List String)}
    (h : acknowledge row request issues = .ok new) :
    (Statement.update row new).admitted = true ∧ new.id = row.id := by
  obtain ⟨hstatus, reason, rfl⟩ := acknowledge_eq_ok h
  refine ⟨?_, rfl⟩
  have hsettled := List.contains_iff_mem.mpr hstatus
  simp only [Statement.admitted, guardUpdate, settled, hsettled]
  simp [identityKept, evidenceKept, erasureKept, recordKept]

/-- The guard accepts every erasure. -/
theorem recordErasure_admitted {head : Except S3Error Head}
    (h : recordErasure row request head = .ok new) :
    (Statement.update row new).admitted = true ∧ new.id = row.id := by
  unfold recordErasure at h
  split at h
  · cases h
  · simp only [ite_error_eq_ok] at h
    obtain ⟨hstatus, h⟩ := h
    split at h
    · cases h
    · cases h
      refine ⟨?_, rfl⟩
      simp [Statement.admitted, guardUpdate, erasedNow, identityKept, evidenceKept,
        acknowledgementKept, recordKept, hstatus]

end

end TrustPortal.Proofs.EvidenceStore
