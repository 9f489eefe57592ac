import Mathlib.Data.Fintype.Basic
import Mathlib.Data.Fintype.Option
import Mathlib.Logic.Function.Basic
import TrustPortal.Sql.Table

/-!
# `TrustPortal.Sql.Rows`: a table that several sessions write

`Rows` is a table at isolation level READ COMMITTED. Next to the committed rows it has the row
version that each session has written and not committed yet. Such a version holds the lock of
its row: `exclusive` says that no two sessions hold one row. `index` is a partial unique
index, `none` for a row outside it. It counts the uncommitted versions too, as the database
does: `unique` says that no two rows of one index value are in sight of the index.

`write` is the write of one row by a statement of a session, and `autocommit` one by a session
outside the listed ones, committed at once. They are `none` while another session must end
first (`waits`) and when the index refuses the row (`conflicts`). A session here writes at
most one row of a table in a transaction.
-/

set_option autoImplicit false

namespace TrustPortal.Sql

section
variable {ι κ ρ τ : Type} {key : ρ → κ}

/-- The row versions that the index looks at: the committed and the written ones. -/
def InSight (committed : Table key) (written : ι → Option ρ) (row : ρ) : Prop :=
  row ∈ committed.rows ∨ ∃ i, written i = some row

/-- A table with its uncommitted row versions. -/
structure Rows (ι : Type) {κ ρ τ : Type} (key : ρ → κ) (index : ρ → Option τ) where
  committed : Table key
  written : ι → Option ρ
  exclusive : ∀ i j a b, written i = some a → written j = some b → key a = key b → i = j
  unique : ∀ a b x, InSight committed written a → InSight committed written b →
    index a = some x → index b = some x → key a = key b

/-- A row in sight after session `i` wrote `row` is `row` or was in sight. -/
private theorem inSight_update [DecidableEq ι] {committed : Table key} {written : ι → Option ρ}
    {i : ι} {row a : ρ} (h : InSight committed (Function.update written i (some row)) a) :
    a = row ∨ a ∈ committed.rows ∨ ∃ j, some i ≠ some j ∧ written j = some a := by
  rcases h with hmem | ⟨j, hj⟩
  · exact .inr (.inl hmem)
  · rw [Function.update_apply] at hj
    split at hj
    · exact .inl (Option.some.inj hj).symm
    · rename_i hne
      exact .inr (.inr ⟨j, fun h => hne (Option.some.inj h).symm, hj⟩)

/-- Dropping the version of a session leaves nothing new in sight. -/
private theorem inSight_of_dropped [DecidableEq ι] {committed : Table key}
    {written : ι → Option ρ} {i : ι} {a : ρ}
    (h : InSight committed (Function.update written i none) a) : InSight committed written a := by
  rcases h with hmem | ⟨j, hj⟩
  · exact .inl hmem
  · rw [Function.update_apply] at hj
    split at hj
    · cases hj
    · exact .inr ⟨j, hj⟩

end

namespace Rows

section
variable {ι κ ρ τ : Type} [DecidableEq κ] {key : ρ → κ} {index : ρ → Option τ}

/-- The committed row with a key. -/
def get (t : Rows ι key index) (k : κ) : Option ρ := t.committed.get k

section
variable [DecidableEq ι] (t : Rows ι key index) (i : ι)

omit [DecidableEq κ] in
private theorem exclusive_dropped : ∀ j k a b, Function.update t.written i none j = some a →
    Function.update t.written i none k = some b → key a = key b → j = k := by
  intro j k a b ha hb hkey
  rw [Function.update_apply] at ha hb
  split at ha
  · cases ha
  · split at hb
    · cases hb
    · exact t.exclusive j k a b ha hb hkey

omit [DecidableEq κ] [DecidableEq ι] in
/-- A table of committed rows that meet the index. -/
def ofTable (committed : Table key)
    (h : ∀ a b x, a ∈ committed.rows → b ∈ committed.rows → index a = some x →
      index b = some x → key a = key b) : Rows ι key index where
  committed
  written := fun _ => none
  exclusive := by
    intro i j a b ha
    cases ha
  unique := by
    have hmem : ∀ {a}, InSight committed (fun _ : ι => none) a → a ∈ committed.rows := by
      rintro a (hmem | ⟨j, hj⟩)
      · exact hmem
      · cases hj
    intro a b x ha hb
    exact h a b x (hmem ha) (hmem hb)

/-- COMMIT of session `i`. -/
def commit : Rows ι key index where
  committed := (t.written i).elim t.committed t.committed.upsert
  written := Function.update t.written i none
  exclusive := t.exclusive_dropped i
  unique := by
    -- the version that becomes a committed row was in sight before
    have hsight : ∀ {a}, InSight ((t.written i).elim t.committed t.committed.upsert)
        (Function.update t.written i none) a → InSight t.committed t.written a := by
      rintro a (hmem | hwritten)
      · cases hi : t.written i with
        | none =>
          rw [hi] at hmem
          exact .inl hmem
        | some row =>
          rw [hi] at hmem
          rcases Table.mem_upsert hmem with rfl | hold
          · exact .inr ⟨i, hi⟩
          · exact .inl hold
      · exact inSight_of_dropped (.inr hwritten)
    intro a b x ha hb
    exact t.unique a b x (hsight ha) (hsight hb)

omit [DecidableEq κ] in
/-- ROLLBACK of session `i`. -/
def rollback : Rows ι key index where
  committed := t.committed
  written := Function.update t.written i none
  exclusive := t.exclusive_dropped i
  unique a b x ha hb := t.unique a b x (inSight_of_dropped ha) (inSight_of_dropped hb)

omit [DecidableEq κ] [DecidableEq ι] in
/-- ROLLBACK of every session. -/
def restart (t : Rows ι key index) : Rows ι key index :=
  ofTable t.committed fun a b x ha hb => t.unique a b x (.inl ha) (.inl hb)

end

/-! ## Statements -/

section
variable [DecidableEq τ] (t : Rows ι key index)

/-- The uncommitted version `other` must end before `row` is written: it holds the lock of the
row, or its outcome decides about the index value. -/
def blocks (row other : ρ) : Bool :=
  decide (key other = key row) || ((index row).isSome &&
    (decide (index other = index row) || decide ((t.get (key other)).bind index = index row)))

variable [Fintype ι] [DecidableEq ι]

/-- The write of `row` waits for a session other than `self`. -/
def waits (self : Option ι) (row : ρ) : Bool :=
  decide (∃ j, self ≠ some j ∧ (t.written j).any (t.blocks row) = true)

omit [Fintype ι] [DecidableEq ι] in
/-- The index refuses `row`: a committed row with another key has its index value. -/
def conflicts (row : ρ) : Bool :=
  t.committed.rows.any fun other =>
    decide (key other ≠ key row) && (index row).isSome && decide (index other = index row)

variable {t}

/-- Nothing of another session blocks a write that does not wait. -/
private theorem not_blocks {self : Option ι} {j : ι} {row a : ρ}
    (hwaits : t.waits self row = false) (hne : self ≠ some j) (ha : t.written j = some a) :
    t.blocks row a = false := by
  have hnone := of_decide_eq_false hwaits
  by_contra hblocks
  apply hnone
  refine ⟨j, hne, ?_⟩
  rw [ha]
  simpa using hblocks

/-- The lock of a row that is written is not held by another session. -/
private theorem key_ne_of_waits {self : Option ι} {j : ι} {row a : ρ}
    (hwaits : t.waits self row = false) (hne : self ≠ some j) (ha : t.written j = some a) :
    key a ≠ key row := by
  intro heq
  have hfree := not_blocks hwaits hne ha
  simp [blocks, heq] at hfree

/-- A row with the index value of an admitted row has its key. -/
private theorem key_eq_of_admitted {self : Option ι} {row a : ρ} {x : τ}
    (hadmitted : t.waits self row = false ∧ t.conflicts row = false)
    (hrow : index row = some x) (ha : index a = some x)
    (h : a = row ∨ a ∈ t.committed.rows ∨ ∃ j, self ≠ some j ∧ t.written j = some a) :
    key a = key row := by
  rcases h with rfl | hmem | ⟨j, hne, hj⟩
  · rfl
  · by_contra hkey
    have hno := List.any_eq_false.mp hadmitted.2 a hmem
    simp [hkey, hrow, ha] at hno
  · have hfree := not_blocks hadmitted.1 hne hj
    simp [blocks, hrow, ha] at hfree

/-- The index holds after the write of an admitted row. -/
private theorem unique_of_admitted {self : Option ι} {row : ρ} {sight : ρ → Prop}
    (hadmitted : t.waits self row = false ∧ t.conflicts row = false)
    (hsight : ∀ a, sight a →
      a = row ∨ a ∈ t.committed.rows ∨ ∃ j, self ≠ some j ∧ t.written j = some a) :
    ∀ a b x, sight a → sight b → index a = some x → index b = some x → key a = key b := by
  intro a b x ha hb hxa hxb
  rcases hsight a ha with rfl | ha'
  · exact (key_eq_of_admitted hadmitted hxa hxb (hsight b hb)).symm
  · rcases hsight b hb with rfl | hb'
    · exact key_eq_of_admitted hadmitted hxb hxa (.inr ha')
    · have hold : ∀ {c}, c ∈ t.committed.rows ∨ (∃ j, self ≠ some j ∧ t.written j = some c) →
          InSight t.committed t.written c := by
        rintro c (hc | ⟨j, _, hj⟩)
        · exact .inl hc
        · exact .inr ⟨j, hj⟩
      exact t.unique a b x (hold ha') (hold hb') hxa hxb

variable (t)

/-- The write of a row by session `i`. -/
def write (i : ι) (row : ρ) : Option (Rows ι key index) :=
  if h : t.waits (some i) row = false ∧ t.conflicts row = false then
    some {
      committed := t.committed
      written := Function.update t.written i (some row)
      exclusive := by
        intro j k a b ha hb hkey
        rw [Function.update_apply] at ha hb
        have hfree : ∀ {l c}, l ≠ i → t.written l = some c → key c ≠ key row :=
          fun hne hc => key_ne_of_waits h.1 (fun heq => hne (Option.some.inj heq).symm) hc
        split at ha <;> split at hb
        · rename_i hj hk
          rw [hj, hk]
        · rename_i hj hk
          cases ha
          exact absurd hkey.symm (hfree hk hb)
        · rename_i hj hk
          cases hb
          exact absurd hkey (hfree hj ha)
        · exact t.exclusive j k a b ha hb hkey
      unique := unique_of_admitted h fun _ => inSight_update }
  else none

/-- The write of a row by a session of its own, committed at once. -/
def autocommit (row : ρ) : Option (Rows ι key index) :=
  if h : t.waits none row = false ∧ t.conflicts row = false then
    some {
      committed := t.committed.upsert row
      written := t.written
      exclusive := t.exclusive
      unique := by
        apply unique_of_admitted h
        rintro a (hmem | ⟨j, hj⟩)
        · rcases Table.mem_upsert hmem with rfl | hold
          · exact .inl rfl
          · exact .inr (.inl hold)
        · exact .inr (.inr ⟨j, (Option.some_ne_none j).symm, hj⟩) }
  else none

end

/-! ## What is read after a write -/

section
variable [DecidableEq ι] {t t' : Rows ι key index} {i j : ι} {k : κ} {row : ρ}

/-- After a COMMIT. -/
theorem get_commit : (t.commit i).get k
    = if (t.written i).map key = some k then t.written i else t.get k := by
  show ((t.written i).elim t.committed t.committed.upsert).get k = _
  cases t.written i with
  | none => simp [get]
  | some row => simp [get, Table.get_upsert]

/-- A row read after a COMMIT was read before, or is what the session wrote. -/
theorem get_commit_cases (h : (t.commit i).get k = some row) :
    t.get k = some row ∨ t.written i = some row := by
  rw [get_commit] at h
  split at h
  · exact .inr h
  · exact .inl h

omit [DecidableEq κ] in
/-- The versions that are left after a COMMIT or a ROLLBACK. -/
theorem written_rollback : (t.rollback i).written j = if j = i then none else t.written j := by
  unfold rollback
  exact Function.update_apply t.written i none j

theorem written_commit : (t.commit i).written j = if j = i then none else t.written j := by
  unfold commit
  exact Function.update_apply t.written i none j

/-- After a ROLLBACK. -/
@[simp] theorem get_rollback : (t.rollback i).get k = t.get k := rfl

/-- A COMMIT of another session leaves the row of a version alone. -/
theorem get_commit_of_written (hne : j ≠ i) (hj : t.written j = some row) :
    (t.commit i).get (key row) = t.get (key row) := by
  rw [get_commit, if_neg]
  intro hkey
  obtain ⟨other, hi, hother⟩ := Option.map_eq_some_iff.mp hkey
  exact hne (t.exclusive j i row other hj hi hother.symm)

variable [DecidableEq τ] [Fintype ι]

/-- After a write. -/
theorem get_write (h : t.write i row = some t') : t'.get k = t.get k := by
  unfold write at h
  split at h
  · cases h
    rfl
  · cases h

/-- The versions after a write. -/
theorem written_write (h : t.write i row = some t') :
    t'.written j = if j = i then some row else t.written j := by
  unfold write at h
  split at h
  · cases h
    exact Function.update_apply t.written i (some row) j
  · cases h

/-- A session that writes a row is the only one that holds it. -/
theorem key_ne_of_write (h : t.write i row = some t') {other : ρ} (hne : j ≠ i)
    (hj : t.written j = some other) : key other ≠ key row := by
  unfold write at h
  split at h
  · rename_i hadmitted
    exact key_ne_of_waits hadmitted.1 (fun heq => hne (Option.some.inj heq).symm) hj
  · cases h

/-- After a write that is committed at once. -/
theorem get_autocommit (h : t.autocommit row = some t') :
    t'.get k = if key row = k then some row else t.get k := by
  unfold autocommit at h
  split at h
  · cases h
    exact Table.get_upsert t.committed row k
  · cases h

/-- Such a write leaves the versions of the sessions. -/
theorem written_autocommit (h : t.autocommit row = some t') : t'.written = t.written := by
  unfold autocommit at h
  split at h
  · cases h
    rfl
  · cases h

/-- Such a write is of a row that no session holds. -/
theorem key_ne_of_autocommit (h : t.autocommit row = some t') {other : ρ}
    (hj : t.written j = some other) : key other ≠ key row := by
  unfold autocommit at h
  split at h
  · rename_i hadmitted
    exact key_ne_of_waits hadmitted.1 (Option.some_ne_none j).symm hj
  · cases h

end

end

/-! ## What the other sessions see -/

section
variable {ι κ ρ τ : Type} [DecidableEq κ] {key : ρ → κ} {index : ρ → Option τ}

/-- A statement of session `i` leaves the versions of the other sessions, and the rows that
they hold. -/
structure Frame (t t' : Rows ι key index) (i : ι) : Prop where
  written : ∀ j, j ≠ i → t'.written j = t.written j
  kept : ∀ j row, j ≠ i → t.written j = some row → t'.get (key row) = t.get (key row)

section
variable {t t' : Rows ι key index} {i : ι} {row : ρ}

theorem Frame.refl (t : Rows ι key index) (i : ι) : t.Frame t i :=
  ⟨fun _ _ => rfl, fun _ _ _ _ => rfl⟩

variable [DecidableEq ι]

theorem frame_commit (t : Rows ι key index) (i : ι) : t.Frame (t.commit i) i where
  written j hne := by rw [written_commit, if_neg hne]
  kept _ _ hne hj := get_commit_of_written hne hj

theorem frame_rollback (t : Rows ι key index) (i : ι) : t.Frame (t.rollback i) i where
  written j hne := by rw [written_rollback, if_neg hne]
  kept _ _ _ _ := rfl

variable [DecidableEq τ] [Fintype ι]

theorem frame_write (h : t.write i row = some t') : t.Frame t' i where
  written j hne := by rw [written_write h, if_neg hne]
  kept _ _ _ _ := get_write h

theorem frame_autocommit (h : t.autocommit row = some t') : t.Frame t' i where
  written j _ := by rw [written_autocommit h]
  kept j other _ hj := by rw [get_autocommit h, if_neg (key_ne_of_autocommit h hj).symm]

end

end

end Rows

end TrustPortal.Sql
