import TrustPortal.EvidenceStore.Objects
import TrustPortal.Lib.Run

/-!
# `TrustPortal.Proofs.EvidenceStore.Transitions`: the life of a record under its guard

A row changes only through the UPDATEs that `evidence_store_objects_guard` accepts. There are
four of them, `Transition`: a version is read again, a duplicate is re-evaluated, an
administrator settles a record, and an erasure is documented. `transition_of_guardUpdate` is the
inversion lemma, and everything else is derived from it.

`Later` says how a row and its state after further changes are related, and `Shaped` which
columns a row of each status has. A settled or an erased row is in a combination of columns that
an INSERT may not have (`erased_row_refused_on_insert`), so `Shaped` gives the three kinds of
rows each its own form. `record_life` is the main result.
-/

set_option autoImplicit false

namespace TrustPortal.Proofs.EvidenceStore

open TrustPortal.Sql
open TrustPortal.Lib
open TrustPortal.EvidenceStore

/-! ## What an UPDATE can do -/

/-- The statuses an administrator acknowledges. -/
def acknowledgeable : List Status := [.nonConforming, .rejected, .tooLarge, .error]

/-- The columns of an acknowledgement are the same in both rows. -/
structure SameAcknowledgement (old new : StoreObject) : Prop where
  acknowledgedAt : new.acknowledgedAt = old.acknowledgedAt
  acknowledgedBy : new.acknowledgedBy = old.acknowledgedBy
  acknowledgementReason : new.acknowledgementReason = old.acknowledgementReason
  acknowledgedFrom : new.acknowledgedFrom = old.acknowledgedFrom

/-- The columns of an erasure are the same in both rows. -/
structure SameErasure (old new : StoreObject) : Prop where
  erasedAt : new.erasedAt = old.erasedAt
  erasedBy : new.erasedBy = old.erasedBy
  erasureReason : new.erasureReason = old.erasureReason

theorem sameAcknowledgement_of_kept {old new : StoreObject}
    (h : acknowledgementKept old new = true) : SameAcknowledgement old new := by
  simp only [acknowledgementKept, Bool.and_eq_true, decide_eq_true_eq] at h
  exact ⟨h.1.1.1, h.1.1.2, h.1.2, h.2⟩

theorem sameErasure_of_kept {old new : StoreObject} (h : erasureKept old new = true) :
    SameErasure old new := by
  simp only [erasureKept, Bool.and_eq_true, decide_eq_true_eq] at h
  exact ⟨h.1.1, h.1.2, h.2⟩

/-- The four changes of a stored row. -/
inductive Transition (old new : StoreObject) : Prop
  /-- The version is read again. -/
  | readAgain (identity : identityKept old new = true) (wasError : old.status = .error)
      (notAcknowledged : new.status ≠ .acknowledged) (notErased : new.status ≠ .erased)
      (erasure : SameErasure old new) (acknowledgement : SameAcknowledgement old new)
  /-- The duplicate is re-evaluated. -/
  | reevaluated (identity : identityKept old new = true) (wasDuplicate : old.status = .duplicate)
      (outcome : new.status ∈ [Status.ingested, .unchanged, .duplicate, .rejected])
      (evidence : evidenceKept old new = true)
      (erasure : SameErasure old new) (acknowledgement : SameAcknowledgement old new)
  /-- An administrator settles the record. -/
  | settled (identity : identityKept old new = true) (status : new.status = .acknowledged)
      (acknowledged : old.status ∈ acknowledgeable)
      (acknowledgedFrom : new.acknowledgedFrom = some old.status)
      (acknowledgedAt : new.acknowledgedAt.isSome = true)
      (acknowledgedBy : new.acknowledgedBy.isSome = true)
      (reason : new.acknowledgementReason.isSome = true)
      (evidence : evidenceKept old new = true) (erasure : SameErasure old new)
  /-- An erasure is documented. -/
  | erased (identity : identityKept old new = true) (status : new.status = .erased)
      (notErased : old.status ≠ .erased) (erasedAt : new.erasedAt.isSome = true)
      (erasedBy : new.erasedBy.isSome = true) (reason : new.erasureReason.isSome = true)
      (evidence : evidenceKept old new = true)
      (acknowledgement : SameAcknowledgement old new)

/-- An UPDATE that the guard accepts is one of the four changes. -/
theorem transition_of_guardUpdate {old new : StoreObject} (h : guardUpdate old new = true) :
    Transition old new := by
  simp only [guardUpdate, Bool.or_eq_true, Bool.and_eq_true] at h
  rcases h with (⟨⟨⟨hidentity, herasure⟩, hack⟩, hread | hduplicate⟩ | hsettled) | herased
  · simp only [readAgain, Bool.and_eq_true, decide_eq_true_eq] at hread
    exact .readAgain hidentity hread.1.1.1 hread.1.1.2 hread.1.2 (sameErasure_of_kept herasure)
      (sameAcknowledgement_of_kept hack)
  · simp only [reevaluated, Bool.and_eq_true, decide_eq_true_eq, List.contains_iff_mem] at hduplicate
    obtain ⟨⟨⟨hold, hnew⟩, hevidence⟩, _⟩ := hduplicate
    exact .reevaluated hidentity hold hnew hevidence (sameErasure_of_kept herasure)
      (sameAcknowledgement_of_kept hack)
  · simp only [settled, Bool.and_eq_true, decide_eq_true_eq, List.contains_iff_mem] at hsettled
    obtain ⟨⟨⟨⟨⟨⟨⟨⟨⟨hidentity, hevidence⟩, herasure⟩, _⟩, hold⟩, hnew⟩, hfrom⟩, hat⟩, hby⟩, hreason⟩ :=
      hsettled
    exact .settled hidentity hnew hold hfrom hat hby hreason hevidence
      (sameErasure_of_kept herasure)
  · simp only [erasedNow, Bool.and_eq_true, decide_eq_true_eq] at herased
    obtain ⟨⟨⟨⟨⟨⟨⟨⟨hidentity, hevidence⟩, hack⟩, _⟩, hold⟩, hnew⟩, hat⟩, hby⟩, hreason⟩ := herased
    exact .erased hidentity hnew hold hat hby hreason hevidence (sameAcknowledgement_of_kept hack)

/-! ## A row and what becomes of it -/

/-- A row and the same row after any number of changes. -/
structure Later (old new : StoreObject) : Prop where
  identity : identityKept old new = true
  evidence : old.status ≠ .error → evidenceKept old new = true
  stays : old.status ≠ .error → new.status ≠ .error
  erased : old.status = .erased → new = old

theorem identityKept_refl (row : StoreObject) : identityKept row row = true := by
  simp [identityKept]

theorem evidenceKept_refl (row : StoreObject) : evidenceKept row row = true := by
  simp [evidenceKept]

theorem identityKept_trans {a b c : StoreObject} (hab : identityKept a b = true)
    (hbc : identityKept b c = true) : identityKept a c = true := by
  simp only [identityKept, Bool.and_eq_true, decide_eq_true_eq] at hab hbc ⊢
  simp only [hbc, hab, and_self]

theorem evidenceKept_trans {a b c : StoreObject} (hab : evidenceKept a b = true)
    (hbc : evidenceKept b c = true) : evidenceKept a c = true := by
  simp only [evidenceKept, Bool.and_eq_true, decide_eq_true_eq] at hab hbc ⊢
  simp only [hbc, hab, and_self]

theorem Later.refl (row : StoreObject) : Later row row :=
  ⟨identityKept_refl row, fun _ => evidenceKept_refl row, fun h => h, fun _ => rfl⟩

theorem Later.trans {a b c : StoreObject} (hab : Later a b) (hbc : Later b c) : Later a c := by
  refine ⟨identityKept_trans hab.identity hbc.identity, ?_, ?_, ?_⟩
  · intro ha
    exact evidenceKept_trans (hab.evidence ha) (hbc.evidence (hab.stays ha))
  · intro ha
    exact hbc.stays (hab.stays ha)
  · intro ha
    have hb := hab.erased ha
    subst hb
    exact hbc.erased ha

/-- Each of the four changes keeps what a row can never lose. -/
theorem Transition.later {old new : StoreObject} (h : Transition old new) : Later old new := by
  cases h with
  | readAgain identity wasError =>
    -- the record is an `error`, so it has no evidence to lose yet
    refine ⟨identity, fun hne => absurd wasError hne, fun hne => absurd wasError hne, ?_⟩
    intro herased
    rw [wasError] at herased
    cases herased
  | reevaluated identity wasDuplicate outcome evidence =>
    refine ⟨identity, fun _ => evidence, ?_, ?_⟩
    · intro _ herror
      simp [herror] at outcome
    · intro herased
      rw [wasDuplicate] at herased
      cases herased
  | settled identity status acknowledged _ _ _ _ evidence =>
    refine ⟨identity, fun _ => evidence, ?_, ?_⟩
    · intro _ herror
      rw [status] at herror
      cases herror
    · intro herased
      simp [acknowledgeable, herased] at acknowledged
  | erased identity status notErased _ _ _ evidence =>
    refine ⟨identity, fun _ => evidence, ?_, fun herased => absurd herased notErased⟩
    intro _ herror
    rw [status] at herror
    cases herror

/-! ## The columns of a row -/

/-- No column of an erasure is set. -/
def NoErasure (row : StoreObject) : Prop :=
  row.erasedAt = none ∧ row.erasedBy = none ∧ row.erasureReason = none

/-- No column of an acknowledgement is set. -/
def NoAcknowledgement (row : StoreObject) : Prop :=
  row.acknowledgedAt = none ∧ row.acknowledgedBy = none ∧ row.acknowledgementReason = none
    ∧ row.acknowledgedFrom = none

/-- Every column of an erasure is set. -/
def HasErasure (row : StoreObject) : Prop :=
  row.erasedAt.isSome = true ∧ row.erasedBy.isSome = true ∧ row.erasureReason.isSome = true

/-- Every column of an acknowledgement is set, with a status that may be acknowledged. -/
def HasAcknowledgement (row : StoreObject) : Prop :=
  row.acknowledgedAt.isSome = true ∧ row.acknowledgedBy.isSome = true
    ∧ row.acknowledgementReason.isSome = true
    ∧ ∃ status ∈ acknowledgeable, row.acknowledgedFrom = some status

/-- The columns a row has by its status. A row that is neither acknowledged nor erased is in no
combination that the guard refuses on INSERT. -/
structure Shaped (row : StoreObject) : Prop where
  unsettled : row.status ≠ .acknowledged → row.status ≠ .erased → guardInsert row = true
  acknowledged : row.status = .acknowledged → HasAcknowledgement row ∧ NoErasure row
  erased : row.status = .erased →
    HasErasure row ∧ (HasAcknowledgement row ∨ NoAcknowledgement row)

/-- The combinations of columns the guard accepts on INSERT. -/
theorem guardInsert_iff {row : StoreObject} :
    guardInsert row = true ↔ row.status ≠ .erased ∧ row.status ≠ .acknowledged
      ∧ NoErasure row ∧ NoAcknowledgement row := by
  simp [guardInsert, NoErasure, NoAcknowledgement, and_assoc]

theorem Shaped.of_guardInsert {row : StoreObject} (h : guardInsert row = true) : Shaped row := by
  obtain ⟨herased, hacknowledged, _⟩ := guardInsert_iff.mp h
  exact ⟨fun _ _ => h, fun hstatus => absurd hstatus hacknowledged,
    fun hstatus => absurd hstatus herased⟩

/-- A row that is not erased has no column of an erasure, and if it is not acknowledged none of an
acknowledgement. -/
theorem Shaped.columns {row : StoreObject} (h : Shaped row) (herased : row.status ≠ .erased) :
    NoErasure row ∧ (HasAcknowledgement row ∨ NoAcknowledgement row) := by
  by_cases hacknowledged : row.status = .acknowledged
  · obtain ⟨hhas, hnone⟩ := h.acknowledged hacknowledged
    exact ⟨hnone, .inl hhas⟩
  · obtain ⟨_, _, herasure, hack⟩ := guardInsert_iff.mp (h.unsettled hacknowledged herased)
    exact ⟨herasure, .inr hack⟩

theorem SameErasure.none {old new : StoreObject} (h : SameErasure old new) (hold : NoErasure old) :
    NoErasure new := by
  simpa only [NoErasure, h.erasedAt, h.erasedBy, h.erasureReason] using hold

theorem SameAcknowledgement.none {old new : StoreObject} (h : SameAcknowledgement old new)
    (hold : NoAcknowledgement old) : NoAcknowledgement new := by
  simpa only [NoAcknowledgement, h.acknowledgedAt, h.acknowledgedBy, h.acknowledgementReason,
    h.acknowledgedFrom] using hold

theorem SameAcknowledgement.has {old new : StoreObject} (h : SameAcknowledgement old new)
    (hold : HasAcknowledgement old) : HasAcknowledgement new := by
  simpa only [HasAcknowledgement, h.acknowledgedAt, h.acknowledgedBy, h.acknowledgementReason,
    h.acknowledgedFrom] using hold

/-- A change to a status that is neither acknowledged nor erased leaves a row that could have been
inserted. -/
private theorem shaped_reopened {old new : StoreObject} (h : Shaped old)
    (hold : old.status ≠ .acknowledged) (hold' : old.status ≠ .erased)
    (hnew : new.status ≠ .acknowledged) (hnew' : new.status ≠ .erased)
    (herasure : SameErasure old new) (hack : SameAcknowledgement old new) : Shaped new := by
  obtain ⟨_, _, hnoErasure, hnoAck⟩ := guardInsert_iff.mp (h.unsettled hold hold')
  exact .of_guardInsert
    (guardInsert_iff.mpr ⟨hnew', hnew, herasure.none hnoErasure, hack.none hnoAck⟩)

/-- Each of the four changes keeps the form of a row. -/
theorem Transition.shaped {old new : StoreObject} (h : Transition old new) (hold : Shaped old) :
    Shaped new := by
  cases h with
  | readAgain _ wasError notAcknowledged notErased erasure acknowledgement =>
    exact shaped_reopened hold (by simp [wasError]) (by simp [wasError]) notAcknowledged notErased
      erasure acknowledgement
  | reevaluated _ wasDuplicate outcome _ erasure acknowledgement =>
    refine shaped_reopened hold (by simp [wasDuplicate]) (by simp [wasDuplicate]) ?_ ?_ erasure
      acknowledgement
    · intro hstatus
      simp [hstatus] at outcome
    · intro hstatus
      simp [hstatus] at outcome
  | settled _ status acknowledged acknowledgedFrom acknowledgedAt acknowledgedBy reason _ erasure =>
    have hnotErased : old.status ≠ .erased := by
      intro herased
      simp [acknowledgeable, herased] at acknowledged
    refine ⟨fun hne => absurd status hne, fun _ => ?_, ?_⟩
    · exact ⟨⟨acknowledgedAt, acknowledgedBy, reason, old.status, acknowledged, acknowledgedFrom⟩,
        erasure.none (hold.columns hnotErased).1⟩
    · intro herased
      rw [status] at herased
      cases herased
  | erased _ status notErased erasedAt erasedBy reason _ acknowledgement =>
    refine ⟨fun _ hne => absurd status hne, ?_, fun _ => ⟨⟨erasedAt, erasedBy, reason⟩, ?_⟩⟩
    · intro hacknowledged
      rw [status] at hacknowledged
      cases hacknowledged
    · rcases (hold.columns notErased).2 with hhas | hnone
      · exact .inl (acknowledgement.has hhas)
      · exact .inr (acknowledgement.none hnone)

/-! ## The table -/

section
variable {db : Database}

/-- What a change makes of one row: it inserts it, it changes it by one of the four changes, or it
leaves it. -/
theorem change_row (step : Int × RowChange) (id : String) :
    (db.change step).objects.get id = db.objects.get id
    ∨ (∃ row, db.objects.get id = none ∧ (db.change step).objects.get id = some row
        ∧ guardInsert row = true)
    ∨ ∃ old new, db.objects.get id = some old ∧ (db.change step).objects.get id = some new
        ∧ Transition old new := by
  obtain ⟨now, change⟩ := step
  cases change with
  | insert new =>
    simp only [Database.change, RowChange.statement, Database.send, Database.apply]
    by_cases hguard : guardInsert new = false
    · simp [hguard]
    · rw [Bool.not_eq_false] at hguard
      by_cases htaken : db.versionTaken new = true
      · simp [hguard, htaken]
      · cases hinsert : db.objects.insert { new with createdAt := now } with
        | none => simp [hguard, htaken]
        | some objects =>
          have hget := Table.get_insert hinsert id
          simp only [hguard, htaken, Bool.true_eq_false, Bool.false_eq_true, if_false]
          by_cases hid : new.id = id
          · right; left
            -- the key was free, or the INSERT would have failed
            have hfree : db.objects.get id = none := by
              rw [Table.get_eq_none]
              intro hmem
              rw [Table.insert, dif_pos (by rwa [hid])] at hinsert
              cases hinsert
            refine ⟨{ new with createdAt := now }, hfree, ?_, hguard⟩
            rw [hget, if_pos hid]
          · left
            rw [hget, if_neg hid]
  | update target new =>
    simp only [Database.change, RowChange.statement]
    cases hold : db.objects.get target with
    | none => simp
    | some old =>
      simp only [Option.map_some, Database.send, Database.apply]
      by_cases hguard : guardUpdate old new = false
      · simp [hguard]
      · rw [Bool.not_eq_false] at hguard
        have htransition := transition_of_guardUpdate hguard
        have hid : new.id = old.id := by
          have hidentity := htransition.later.identity
          simp only [identityKept, Bool.and_eq_true, decide_eq_true_eq] at hidentity
          exact hidentity.1.1.1.1.1.1
        have htarget : old.id = target := Table.key_of_get hold
        simp only [hguard, Bool.true_eq_false, if_false, Table.get_put]
        by_cases heq : new.id = id
        · right; right
          have : target = id := by rw [← htarget, ← hid, heq]
          subst this
          exact ⟨old, new, hold, by simp [heq, hold], htransition⟩
        · left
          rw [if_neg heq]

/-- Every row of the table has the form of its status. -/
def AllShaped (db : Database) : Prop := ∀ id row, db.objects.get id = some row → Shaped row

theorem allShaped_change (step : Int × RowChange) (h : AllShaped db) :
    AllShaped (db.change step) := by
  intro id row hrow
  rcases @change_row db step id with hsame | ⟨_, _, hnew, hguard⟩ | ⟨old, new, hold, hnew, ht⟩
  · exact h id row (hsame ▸ hrow)
  · cases hnew.symm.trans hrow
    exact .of_guardInsert hguard
  · cases hnew.symm.trans hrow
    exact ht.shaped (h id old hold)

/-- Every row of one table is a row of the other, later. -/
def RowsLater (db after : Database) : Prop :=
  ∀ id row, db.objects.get id = some row → ∃ row', after.objects.get id = some row' ∧ Later row row'

theorem rowsLater_change (step : Int × RowChange) : RowsLater db (db.change step) := by
  intro id row hrow
  rcases @change_row db step id with hsame | ⟨_, hnone, _⟩ | ⟨old, new, hold, hnew, ht⟩
  · exact ⟨row, hsame ▸ hrow, .refl row⟩
  · rw [hrow] at hnone
    cases hnone
  · cases hold.symm.trans hrow
    exact ⟨new, hnew, ht.later⟩

theorem rowsLater_trans {a b c : Database} (hab : RowsLater a b) (hbc : RowsLater b c) :
    RowsLater a c := by
  intro id row hrow
  obtain ⟨row', hrow', hlater⟩ := hab id row hrow
  obtain ⟨row'', hrow'', hlater'⟩ := hbc id row' hrow'
  exact ⟨row'', hrow'', hlater.trans hlater'⟩

/-- Along a run every row stays, later. -/
theorem rowsLater_changes (db : Database) (steps : List (Int × RowChange)) :
    RowsLater db (db.changes steps) :=
  @run_relation _ _ Database.change RowsLater (fun _ => True)
    (fun _ _ row hrow => ⟨row, hrow, .refl row⟩) (fun _ _ _ hab hbc => rowsLater_trans hab hbc)
    (fun _ _ _ => trivial) (fun _ step _ => rowsLater_change step) db steps trivial

/-- Along a run every row keeps the form of its status. -/
theorem allShaped_changes (steps : List (Int × RowChange)) (h : AllShaped db) :
    AllShaped (db.changes steps) :=
  @run_invariant _ _ Database.change (fun _ _ => True) AllShaped
    (fun _ step hs _ => allShaped_change step hs) db steps
    (along_of_forall (fun _ _ => trivial) db steps) h

theorem allShaped_empty : AllShaped Database.empty := by
  intro id row hrow
  simp [Database.empty, Table.get, Table.empty] at hrow

/-- A row is acknowledged by one change only, from a status that may be acknowledged. -/
theorem acknowledged_from {step : Int × RowChange} {id : String} {row' : StoreObject}
    (hrow' : (db.change step).objects.get id = some row') (hstatus : row'.status = .acknowledged) :
    ∃ row, db.objects.get id = some row ∧ (row' = row
      ∨ row.status ∈ acknowledgeable ∧ row'.acknowledgedFrom = some row.status) := by
  rcases @change_row db step id with hsame | ⟨_, _, hnew, hguard⟩ | ⟨old, new, hold, hnew, ht⟩
  · exact ⟨row', hsame ▸ hrow', .inl rfl⟩
  · cases hnew.symm.trans hrow'
    exact absurd hstatus (guardInsert_iff.mp hguard).2.1
  · cases hnew.symm.trans hrow'
    refine ⟨old, hold, .inr ?_⟩
    cases ht with
    | readAgain _ _ notAcknowledged => exact absurd hstatus notAcknowledged
    | reevaluated _ _ outcome => simp [hstatus] at outcome
    | settled _ _ acknowledged acknowledgedFrom => exact ⟨acknowledged, acknowledgedFrom⟩
    | erased _ status =>
      rw [status] at hstatus
      cases hstatus

/-! ## The main result -/

/-- The life of a record. After any changes, every row has the form of its status. It stays in the
table, and whatever changes follow, its identity columns are the same, its evidence columns are the
same unless its status is `error`, and an erased row is the same row. A row becomes acknowledged
only from one of the four statuses, which `acknowledged_from` then names. -/
theorem record_life (steps : List (Int × RowChange)) :
    let db := Database.empty.changes steps
    (∀ id row, db.objects.get id = some row → Shaped row)
    ∧ (∀ later id row, db.objects.get id = some row →
        ∃ row', (db.changes later).objects.get id = some row' ∧ identityKept row row' = true
          ∧ (row.status ≠ .error → evidenceKept row row' = true)
          ∧ (row.status = .erased → row' = row))
    ∧ (∀ step id row', (db.change step).objects.get id = some row' →
        row'.status = .acknowledged → ∃ row, db.objects.get id = some row ∧ (row' = row
          ∨ row.status ∈ acknowledgeable ∧ row'.acknowledgedFrom = some row.status)) := by
  intro db
  refine ⟨allShaped_changes steps allShaped_empty, ?_, ?_⟩
  · intro later id row hrow
    obtain ⟨row', hrow', hlater⟩ := rowsLater_changes db later id row hrow
    exact ⟨row', hrow', hlater.identity, hlater.evidence, hlater.erased⟩
  · intro step id row' hrow' hstatus
    exact acknowledged_from hrow' hstatus

/-- A version that could not be read. -/
private def unread : StoreObject where
  id := "o"
  bucket := "b"
  key := "k"
  keyEscaped := false
  versionId := "v"
  kind := .unmapped
  status := .error
  sha256 := none
  compositeChecksum := none
  size := 1
  etag := none
  lastModified := none
  contentType := none
  objectMetadata := none
  lockMode := none
  retainUntil := none
  syncRunId := none
  attempts := 1
  importInfo := none
  detail := none
  erasedAt := none
  erasedBy := none
  erasureReason := none
  acknowledgedAt := none
  acknowledgedBy := none
  acknowledgementReason := none
  acknowledgedFrom := none
  createdAt := 0

/-- The same row, erased. -/
private def unreadErased : StoreObject :=
  { unread with
    status := .erased
    erasedAt := some 1
    erasedBy := some "m"
    erasureReason := some "r" }

/-- An INSERT and the erasure of the row. -/
private def erasure : List (Int × RowChange) :=
  [(0, .insert unread), (1, .update "o" unreadErased)]

/-- `record_life` at these changes: an attempt to read the erased version again is refused. -/
theorem record_life_erasure :
    Shaped unreadErased ∧ ((Database.empty.changes erasure).changes
      [(2, .update "o" { unread with attempts := 2 })]).objects.get "o" = some unreadErased := by
  have hrow : (Database.empty.changes erasure).objects.get "o" = some unreadErased := by
    decide +kernel
  refine ⟨(record_life erasure).1 "o" unreadErased hrow, ?_⟩
  obtain ⟨row', hrow', _, _, hsame⟩ := (record_life erasure).2.1
    [(2, .update "o" { unread with attempts := 2 })] "o" unreadErased hrow
  rw [hrow', hsame rfl]

/-- A row can come into a combination of columns that the guard refuses on INSERT: both statements
are accepted, and the row they leave is an erased one. -/
theorem erased_row_refused_on_insert :
    let db := Database.empty.changes erasure
    db.issued.all Statement.admitted = true ∧ db.objects.rows.length = 1
      ∧ db.objects.rows.all (fun row => guardInsert row = false) = true := by
  decide +kernel

end

end TrustPortal.Proofs.EvidenceStore
