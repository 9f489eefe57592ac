import TrustPortal.Sql.Jsonb
import Mathlib.Data.List.Sort

/-!
# `TrustPortal.Audit.Log`: the `audit_log` table and the text a row is hashed from

`AuditRow` has the columns of `audit_log` and `AuditLog` is the table, its rows in id order.
`hashedForm` is the text that `_chunk_sql` hashes for a row: the columns one after the
other, with no separator between them. The `hash_version = 2` part has `changed_by` and
`changed_at`. A database from before migration 016 has no `hash_version` column, and every
row there uses the formula without that part.

`Sha256` is PostgreSQL's `sha256`, a primitive of the database. The model only knows that
a digest is 64 lowercase hexadecimal characters.
-/

set_option autoImplicit false

namespace TrustPortal.Audit

open TrustPortal.Sql

/-- A lowercase hexadecimal digit, `[0-9a-f]`. -/
def isHexDigit (c : Char) : Bool :=
  (decide ('0' ≤ c) && decide (c ≤ '9')) || (decide ('a' ≤ c) && decide (c ≤ 'f'))

/-- 64 lowercase hexadecimal characters. -/
def IsHexDigest (s : String) : Prop := s.length = 64 ∧ s.toList.all isHexDigit = true

instance (s : String) : Decidable (IsHexDigest s) := by
  unfold IsHexDigest
  infer_instance

/-- `sha256` with its result in hexadecimal. `hexOfText t` is
`encode(sha256(convert_to(t, 'UTF8')), 'hex')`, and `hexOfBytes h` is
`encode(sha256(decode(h, 'hex')), 'hex')`. -/
structure Sha256 where
  hexOfText : String → String
  hexOfBytes : String → String
  hexOfText_isHexDigest : ∀ t, IsHexDigest (hexOfText t)

/-- SHA-256 given by a table of digests. A text outside the table has the digest of the
empty text. -/
def Sha256.ofDigests (digests : List (String × String))
    (h : ∀ entry ∈ digests, IsHexDigest entry.2) : Sha256 where
  hexOfText t := (digests.lookup t).getD
    "e3b0c44298fc1c149afbf4c8996fb92427ae41e4649b934ca495991b7852b855"
  hexOfBytes _ := "e3b0c44298fc1c149afbf4c8996fb92427ae41e4649b934ca495991b7852b855"
  hexOfText_isHexDigest t := by
    cases hfound : digests.lookup t with
    | none => rw [Option.getD_none]; decide
    | some digest =>
      obtain ⟨pre, post, heq, _⟩ := List.lookup_eq_some_iff.mp hfound
      exact h (t, digest) (heq ▸ by simp)

/-- SHA-256 given by a table of the digests of texts and one of the digests of bytes, with the
bytes in hexadecimal. -/
def Sha256.ofTables (texts bytes : List (String × String))
    (h : ∀ entry ∈ texts, IsHexDigest entry.2) : Sha256 :=
  { Sha256.ofDigests texts h with
    hexOfBytes := fun content => (bytes.lookup content).getD
      "e3b0c44298fc1c149afbf4c8996fb92427ae41e4649b934ca495991b7852b855" }

/-- `GENESIS_HASH`: 64 zeros. -/
def GENESIS_HASH : String := String.ofList (List.replicate 64 '0')

/-- A row of `audit_log`. The migrations declare `table_name`, `record_id`, `action` and
`changed_at` NOT NULL. They may be NULL here, so that a table whose constraints were
dropped is a table of the model too. -/
structure AuditRow where
  id : Int
  tableName : Option String
  recordId : Option String
  action : Option String
  oldValues : Option String
  newValues : Option String
  changedBy : Option String
  changedAt : Option Timestamptz
  previousHash : Option String
  rowHash : Option String
  hashVersion : Option Int
  deriving DecidableEq, Repr

/-- The table `audit_log`. `hasHashVersion` says that the column `hash_version` exists. The
primary key makes the ids distinct, and every query that depends on an order uses
`ORDER BY id`. -/
structure AuditLog where
  hasHashVersion : Bool
  rows : List AuditRow
  sorted : rows.Pairwise fun a b => a.id < b.id

/-- `to_char(changed_at AT TIME ZONE 'UTC', …)` of a row. -/
def AuditRow.changedAtText (row : AuditRow) : Option String := row.changedAt.bind toCharUtc

/-- `_V2_PART`: `changed_by` and `changed_at` of a `hash_version = 2` row, else `''`. -/
def v2Part (row : AuditRow) : Option String :=
  if row.hashVersion = some 2 then textCat (coalesceText row.changedBy) row.changedAtText
  else some ""

/-- The text `_chunk_sql` hashes. It is NULL when one of its parts is. -/
def hashedForm (withHashVersion : Bool) (row : AuditRow) : Option String :=
  let link := textCat (textCat (textCat (coalesceText row.previousHash) row.tableName)
    row.recordId) row.action
  let versioned := if withHashVersion then textCat link (v2Part row) else link
  textCat (textCat versioned (coalesceText row.oldValues)) (coalesceText row.newValues)

/-- The column `computed` of the chunk query. -/
def computedHash (sha : Sha256) (withHashVersion : Bool) (row : AuditRow) : Option String :=
  (hashedForm withHashVersion row).map sha.hexOfText

/-- Python's truth of a text column: neither NULL nor empty. -/
def truthy (text : Option String) : Bool :=
  match text with
  | some s => s ≠ ""
  | none => false

@[simp] theorem truthy_none : truthy none = false := rfl

@[simp] theorem truthy_some (s : String) : truthy (some s) = decide (s ≠ "") := rfl

theorem IsHexDigest.ne_empty {s : String} (h : IsHexDigest s) : s ≠ "" := by
  rintro rfl
  simp [IsHexDigest] at h

theorem Sha256.length_hexOfText (sha : Sha256) (t : String) :
    (sha.hexOfText t).length = 64 := (sha.hexOfText_isHexDigest t).1

@[simp] theorem length_GENESIS_HASH : GENESIS_HASH.length = 64 := by decide

namespace AuditLog

/-- The first row by id. -/
def first (log : AuditLog) : Option AuditRow := log.rows.head?

/-- The last row by id. -/
def last (log : AuditLog) : Option AuditRow := log.rows.getLast?

/-- `SELECT … FROM audit_log WHERE row_hash IS NOT NULL ORDER BY id LIMIT 1`. -/
def firstHashed (log : AuditLog) : Option AuditRow :=
  log.rows.find? fun row => row.rowHash.isSome

/-- The rows with `id > afterId`. -/
def rowsAfter (log : AuditLog) (afterId : Int) : List AuditRow :=
  log.rows.filter fun row => decide (afterId < row.id)

/-- The table after the row with id `id` was removed and the others left as they are. -/
def removeRow (log : AuditLog) (id : Int) : AuditLog where
  hasHashVersion := log.hasHashVersion
  rows := log.rows.filter fun row => decide (row.id ≠ id)
  sorted := log.sorted.filter _

/-- The table after the row with the id of `row` was overwritten with `row` and the others
left as they are. -/
def overwriteRow (log : AuditLog) (row : AuditRow) : AuditLog where
  hasHashVersion := log.hasHashVersion
  rows := log.rows.map fun old => if old.id = row.id then row else old
  sorted := by
    refine log.sorted.map _ fun a b hab => ?_
    split <;> split <;> omega

end AuditLog

end TrustPortal.Audit
