import TrustPortal.Proofs.Audit.Start
import TrustPortal.Proofs.Audit.Trigger
import Mathlib.Data.Set.Function

/-!
# `TrustPortal.Proofs.Audit.Content`: which alterations of a row are reported

`verify_chain` reports a row in its content mismatches when the recomputed hash is not the
stored one. The hash is taken over the columns joined without separators. So an alteration
that leaves the joined text as it was is not reported: a character that moves from the end
of one column to the start of the next, `old_values` that become `new_values`, a NULL that
becomes an empty text. `altered_row_reported_iff` shows that these are all of them.

`contentText_ne_of_one_part` is the good half of the picture: an alteration of one part of
the text alone always changes the text.
-/

set_option autoImplicit false

namespace TrustPortal.Proofs.Audit

open TrustPortal.Sql
open TrustPortal.Audit
open TrustPortal.Lib

/-! ## The joined columns -/

/-- The parts of a row's text after its previous hash. -/
def contentParts (row : AuditRow) : List (Option String) :=
  [row.tableName, row.recordId, row.action, v2Part row, coalesceText row.oldValues,
    coalesceText row.newValues]

/-- Parts joined without separators, NULL when a part is. -/
def joinParts : List (Option String) → Option String
  | [] => some ""
  | part :: parts => textCat part (joinParts parts)

/-- The columns of a row after its previous hash, joined without separators. -/
def contentText (row : AuditRow) : Option String := joinParts (contentParts row)

@[simp] theorem textCat_none_left (b : Option String) : textCat none b = none := rfl

@[simp] theorem textCat_none_right (a : Option String) : textCat a none = none := by
  cases a <;> rfl

theorem textCat_assoc (a b c : Option String) :
    textCat (textCat a b) c = textCat a (textCat b c) := by
  cases a <;> cases b <;> cases c <;> simp [String.append_assoc]

@[simp] theorem textCat_empty_right (a : Option String) : textCat a (some "") = a := by
  cases a <;> simp

/-- The text `verify_chain` hashes is the previous hash and the joined columns. -/
theorem hashedForm_eq (row : AuditRow) :
    hashedForm true row = textCat (coalesceText row.previousHash) (contentText row) := by
  simp only [hashedForm, contentText, contentParts, joinParts, if_true, textCat_assoc,
    textCat_empty_right]

/-- A text that is not NULL can be cancelled on the left of `||`. -/
theorem textCat_left_cancel {s : String} {b c : Option String}
    (h : textCat (some s) b = textCat (some s) c) : b = c := by
  cases b <;> cases c <;> simp_all [String.append_right_inj]

/-- A text that is not NULL can be cancelled on the right of `||`. -/
theorem textCat_right_cancel {s : String} {a b : Option String}
    (h : textCat a (some s) = textCat b (some s)) : a = b := by
  cases a <;> cases b <;> simp_all [String.append_left_inj]

theorem joinParts_append (as bs : List (Option String)) :
    joinParts (as ++ bs) = textCat (joinParts as) (joinParts bs) := by
  induction as with
  | nil => cases h : joinParts bs <;> simp [joinParts, h]
  | cons a as ih => simp only [List.cons_append, joinParts, ih, textCat_assoc]

/-- Two lists of parts that differ in one part have different texts, when one of the texts is
not NULL. -/
theorem joinParts_ne_of_one_part {pre post : List (Option String)} {a b : Option String}
    (htext : joinParts (pre ++ a :: post) ≠ none) (hne : b ≠ a) :
    joinParts (pre ++ b :: post) ≠ joinParts (pre ++ a :: post) := by
  intro heq
  simp only [joinParts_append, joinParts] at htext heq
  cases hpre : joinParts pre with
  | none => simp [hpre] at htext
  | some s =>
    cases hpost : joinParts post with
    | none => simp [hpost] at htext
    | some u =>
      rw [hpre, hpost] at heq
      exact hne (textCat_right_cancel (textCat_left_cancel heq))

/-- An alteration of one part of a row's text changes the text. -/
theorem contentText_ne_of_one_part {row altered : AuditRow} (htext : contentText row ≠ none)
    {pre post : List (Option String)} {a b : Option String}
    (hrow : contentParts row = pre ++ a :: post)
    (haltered : contentParts altered = pre ++ b :: post) (hne : b ≠ a) :
    contentText altered ≠ contentText row := by
  rw [contentText, contentText, hrow, haltered]
  exact joinParts_ne_of_one_part (by rwa [contentText, hrow] at htext) hne

/-! ## The alterations that are reported -/

/-- SHA-256 has no collision among the given texts. -/
def CollisionFree (sha : Sha256) (texts : Set String) : Prop := Set.InjOn sha.hexOfText texts

/-- An alteration of a stored row that leaves its id, its previous hash and its hash. -/
structure Alters (row altered : AuditRow) : Prop where
  id : altered.id = row.id
  previousHash : altered.previousHash = row.previousHash
  rowHash : altered.rowHash = row.rowHash

/-- An unbounded run ends and has `id` among its content mismatches. -/
def Reported (sha : Sha256) (client : Client) (log : AuditLog) (chunkSize : Nat)
    (witness : Option HeadScan) (verifier : Option (Anchor → AnchorVerification)) (id : Int) :
    Prop :=
  ∃ run, verifyChain sha client log (unbounded chunkSize witness verifier) = .ok run ∧
    id ∈ run.contentMismatchIds

/-- Overwriting a row of the table puts the new row in its place. -/
theorem mem_overwriteRow {log : AuditLog} {row altered : AuditRow} (hrow : row ∈ log.rows)
    (hid : altered.id = row.id) : altered ∈ (log.overwriteRow altered).rows :=
  List.mem_map.mpr ⟨row, hrow, if_pos hid.symm⟩

/-- A row of the chain is among the altered ids exactly when it is altered. -/
theorem mem_alteredIds {sha : Sha256} {log : AuditLog} {row : AuditRow}
    (hrow : row ∈ chainRows log) :
    row.id ∈ alteredIds sha log.hasHashVersion (chainRows log) ↔
      isAltered sha log.hasHashVersion row = true := by
  constructor
  · intro h
    obtain ⟨other, hother, hid⟩ := List.mem_map.mp h
    obtain ⟨hmem, haltered⟩ := List.mem_filter.mp hother
    rwa [eq_of_id_eq (chainRows_subset hmem) (chainRows_subset hrow) hid] at haltered
  · exact fun h => List.mem_map.mpr ⟨row, List.mem_filter.mpr ⟨hrow, h⟩, rfl⟩

/-- A hashed row of a table is reported exactly when it is altered and the run can read the
table's first row. -/
theorem reported_iff {sha : Sha256} {client : Client} {log : AuditLog} {chunkSize : Nat}
    {witness : Option HeadScan} {verifier : Option (Anchor → AnchorVerification)}
    {row : AuditRow} (hchunk : 0 < chunkSize) (hrow : row ∈ log.rows)
    (hhash : row.rowHash ≠ none) :
    Reported sha client log chunkSize witness verifier row.id ↔
      isAltered sha log.hasHashVersion row = true ∧ StartReadable client log := by
  have hmem := mem_chainRows_of_hashed hrow hhash
  constructor
  · rintro ⟨run, hrun, hid⟩
    have hread : StartReadable client log := by
      by_contra hread
      obtain ⟨column, herror⟩ := verifyChain_unbounded_error sha witness verifier
        chunkSize hread
      rw [hrun] at herror
      cases herror
    obtain ⟨_, _, scan, hok, _, hids, _⟩ := verifyChain_unbounded sha witness verifier
      hchunk hread (List.ne_nil_of_mem hmem)
    rw [hrun] at hok
    cases hok
    exact ⟨(mem_alteredIds hmem).mp (hids ▸ hid), hread⟩
  · rintro ⟨haltered, hread⟩
    obtain ⟨_, _, scan, hok, _, hids, _⟩ := verifyChain_unbounded sha witness verifier
      hchunk hread (List.ne_nil_of_mem hmem)
    exact ⟨_, hok, show row.id ∈ scan.contentMismatchIds from
      hids ▸ (mem_alteredIds hmem).mpr haltered⟩

/-- An alteration of a row the trigger wrote is reported exactly when it changes the text of
the joined columns and leaves the table's first row readable. -/
theorem altered_row_reported_iff {sha : Sha256} {client : Client} {before : AuditLog}
    {call : TriggerCall} {new : NewRow before} (log : AuditLog) (altered : AuditRow)
    {chunkSize : Nat} {witness : Option HeadScan}
    {verifier : Option (Anchor → AnchorVerification)}
    (hwrite : auditTrigger sha before call = .ok (some new)) (hmem : new.row ∈ log.rows)
    (hcolumn : log.hasHashVersion = true) (halters : Alters new.row altered)
    (hchunk : 0 < chunkSize)
    (hsha : CollisionFree sha
      {t | hashedForm true new.row = some t ∨ hashedForm true altered = some t}) :
    Reported sha client (log.overwriteRow altered) chunkSize witness verifier new.row.id ↔
      contentText altered ≠ contentText new.row ∧
        StartReadable client (log.overwriteRow altered) := by
  have hwritten := auditTrigger_spec hwrite
  obtain ⟨t, hform, hhash⟩ := hwritten.hashed
  obtain ⟨prev, _, hprev⟩ := hwritten.previousHash
  have hstored : altered.rowHash = some (sha.hexOfText t) := halters.rowHash.trans hhash
  rw [← halters.id, reported_iff hchunk (mem_overwriteRow hmem halters.id) (by simp [hstored])]
  refine and_congr_left fun _ => ?_
  show isAltered sha log.hasHashVersion altered = true ↔ _
  rw [hcolumn, isAltered, hstored, Option.isSome_some, Bool.true_and, decide_eq_true_eq]
  -- The two hashed forms start with the same previous hash.
  have hforms : hashedForm true altered = some t ↔ contentText altered = contentText new.row := by
    rw [← hform, hashedForm_eq, hashedForm_eq, halters.previousHash, hprev]
    exact ⟨textCat_left_cancel, fun h => by rw [h]⟩
  rw [ne_eq, ne_eq, ← hforms, computedHash]
  refine not_congr ?_
  cases haltered : hashedForm true altered with
  | none => simp
  | some u =>
    rw [Option.map_some, Option.some_inj, Option.some_inj]
    exact ⟨fun h => hsha (.inr haltered) (.inl hform) h, fun h => by rw [h]⟩

/-! ## Two alterations of one row -/

/-- A collision free hash on a finite list of texts, checked pair by pair. -/
theorem CollisionFree.of_list {sha : Sha256} {texts : Set String} (known : List String)
    (hknown : ∀ a ∈ known, ∀ b ∈ known, sha.hexOfText a = sha.hexOfText b → a = b)
    (hsub : ∀ t ∈ texts, t ∈ known) : CollisionFree sha texts :=
  fun a ha b hb => hknown a (hsub a ha) b (hsub b hb)

/-- The status and the findings of a run that ended. -/
def findings (result : Except VerifyError Verification) :
    Option (ChainStatus × List Int × List Int × List Int) :=
  match result with
  | .error _ => none
  | .ok run => some (run.status, run.contentMismatchIds, run.forkIds, run.trueBreakIds)

theorem findings_eq_some {result : Except VerifyError Verification} {status : ChainStatus}
    {mismatches forks breaks : List Int}
    (h : findings result = some (status, mismatches, forks, breaks)) :
    ∃ run, result = .ok run ∧ run.status = status ∧ run.contentMismatchIds = mismatches ∧
      run.forkIds = forks ∧ run.trueBreakIds = breaks := by
  cases result with
  | error e => cases h
  | ok run =>
    simp only [findings, Option.some.injEq, Prod.mk.injEq] at h
    exact ⟨run, rfl, h⟩

/-- An empty table of migration 016. -/
def emptyLog : AuditLog := ⟨true, [], by simp⟩

/-- A member inserts the control `c1`. -/
def controlInsert : TriggerCall where
  schema := "public"
  table := "controls"
  op := .insert [("id", .string "c1")]
  digested := []
  setting := some "m1"
  now := 1790596800123456
  gap := 0
  table_fits := by decide
  id_plain := by simp
  id_fits := by
    intro members h t ht
    cases h
    cases ht
    decide

/-- The row the trigger writes for `controlInsert`. -/
def controlRow : AuditRow where
  id := 1
  tableName := some "controls"
  recordId := some "c1"
  action := some "INSERT"
  oldValues := none
  newValues := some "\x7b\"id\": \"c1\"\x7d"
  changedBy := some "m1"
  changedAt := some (.micros 1790596800123456)
  previousHash := some GENESIS_HASH
  rowHash := some "4143a1523e2f9a8578701da0b4fb4933a602ca5bf7077bd2debb5fc386075b88"
  hashVersion := some 2

/-- `controlRow` with the new record shown as the old one: a deletion in place of an
insertion, but for the action. -/
def controlRowSwapped : AuditRow :=
  { controlRow with oldValues := controlRow.newValues, newValues := none }

/-- `controlRow` under another record id. -/
def controlRowRelabelled : AuditRow := { controlRow with recordId := some "c2" }

/-- The digests of the texts of `controlRow` and `controlRowRelabelled`. -/
def controlSha : Sha256 := .ofDigests
  [("0000000000000000000000000000000000000000000000000000000000000000controlsc1INSERTm1"
      ++ "2026-09-28T12:00:00.123456Z\x7b\"id\": \"c1\"\x7d",
    "4143a1523e2f9a8578701da0b4fb4933a602ca5bf7077bd2debb5fc386075b88"),
   ("0000000000000000000000000000000000000000000000000000000000000000controlsc2INSERTm1"
      ++ "2026-09-28T12:00:00.123456Z\x7b\"id\": \"c1\"\x7d",
    "ac99e5659904dff5365e39084acb2e0c36017c53a9b0c954bff6ec578dcc8e87")] (by decide)

/-- A client that reads the timestamp of `controlRow`. -/
def controlClient : Client := .ofTables
  [(.micros 1790596800123456, "2026-09-28T12:00:00.123456+00:00")] []

/-- The row the trigger writes after `controlRow` when the control `c2` is inserted. -/
def secondControlRow : AuditRow where
  id := 2
  tableName := some "controls"
  recordId := some "c2"
  action := some "INSERT"
  oldValues := none
  newValues := some "\x7b\"id\": \"c2\"\x7d"
  changedBy := some "m1"
  changedAt := some (.micros 1790596800123456)
  previousHash := controlRow.rowHash
  rowHash := some "dd626b5e4c7ed40de8b23e21f783ddcd871d1d0e22d462c00eaf4180f14f0dd3"
  hashVersion := some 2

/-- The digests of the texts of the two rows. -/
def twoControlsSha : Sha256 := .ofDigests
  [("0000000000000000000000000000000000000000000000000000000000000000controlsc1INSERTm1"
      ++ "2026-09-28T12:00:00.123456Z\x7b\"id\": \"c1\"\x7d",
    "4143a1523e2f9a8578701da0b4fb4933a602ca5bf7077bd2debb5fc386075b88"),
   ("4143a1523e2f9a8578701da0b4fb4933a602ca5bf7077bd2debb5fc386075b88"
      ++ "controlsc2INSERTm12026-09-28T12:00:00.123456Z\x7b\"id\": \"c2\"\x7d",
    "dd626b5e4c7ed40de8b23e21f783ddcd871d1d0e22d462c00eaf4180f14f0dd3")] (by decide)

/-- The table with the row of `controlInsert`. -/
def controlLog : AuditLog := afterTrigger controlSha emptyLog controlInsert

/-- The table with both rows. -/
def twoControlsLog : AuditLog := ⟨true, [controlRow, secondControlRow], by decide⟩

set_option maxRecDepth 8000 in
theorem auditTrigger_controlInsert : auditTrigger controlSha emptyLog controlInsert
    = .ok (some ⟨controlRow, by simp [emptyLog]⟩) := by
  rfl

set_option maxRecDepth 8000 in
/-- The alteration of the record id is reported. -/
theorem relabelled_row_reported :
    Reported controlSha controlClient (controlLog.overwriteRow controlRowRelabelled) 20000 none
      none 1 := by
  refine (altered_row_reported_iff controlLog controlRowRelabelled auditTrigger_controlInsert
    (by decide) (by decide) ⟨rfl, rfl, rfl⟩ (by decide) ?_).mpr ⟨by decide, ?_⟩
  · refine .of_list [(hashedForm true controlRow).getD "",
      (hashedForm true controlRowRelabelled).getD ""] (by decide) ?_
    rintro t (h | h) <;> simp only [h, Option.getD_some, List.mem_cons, true_or, or_true]
  · exact .of_first controlRowRelabelled "2026-09-28T12:00:00.123456+00:00" (by decide)
      (by decide) rfl (by decide)

set_option maxRecDepth 8000 in
/-- The alteration that moves the record from the new values to the old ones is not: the run
finds nothing. -/
theorem swapped_values_not_reported :
    Alters controlRow controlRowSwapped ∧
    controlRowSwapped.oldValues ≠ controlRow.oldValues ∧
    auditTrigger controlSha emptyLog controlInsert
      = .ok (some ⟨controlRow, by simp [emptyLog]⟩) ∧
    CollisionFree controlSha
      {t | hashedForm true controlRow = some t ∨ hashedForm true controlRowSwapped = some t} ∧
    (∃ run, verifyChain controlSha controlClient (controlLog.overwriteRow controlRowSwapped)
      (unbounded 20000 none none) = .ok run ∧ run.status = .valid) ∧
    ¬Reported controlSha controlClient (controlLog.overwriteRow controlRowSwapped) 20000 none
      none 1 := by
  obtain ⟨run, hrun, hstatus, hmismatches, _⟩ := findings_eq_some
    (show findings (verifyChain controlSha controlClient
      (controlLog.overwriteRow controlRowSwapped) (unbounded 20000 none none))
      = some (.valid, [], [], []) by decide)
  refine ⟨⟨rfl, rfl, rfl⟩, by decide, auditTrigger_controlInsert, ?_, ⟨run, hrun, hstatus⟩, ?_⟩
  · refine .of_list [(hashedForm true controlRow).getD ""] (by simp) ?_
    have hsame : hashedForm true controlRowSwapped = hashedForm true controlRow := by decide
    rintro t (h | h)
    · simp [h]
    · simp [← hsame, h]
  · rintro ⟨other, hother, hid⟩
    rw [hrun] at hother
    cases hother
    rw [hmismatches] at hid
    cases hid

end TrustPortal.Proofs.Audit
