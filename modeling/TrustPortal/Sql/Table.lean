import Mathlib.Data.List.Nodup

/-!
# `TrustPortal.Sql.Table`: a table with a primary key

`Table key` is a list of rows with different keys. `get` reads a row by its key, `insert`
adds a row unless its key is taken, `put` is an UPDATE of the row with the same key, and
`upsert` one of the two. The lemmas say what `get` reads after each write.
-/

set_option autoImplicit false

namespace TrustPortal.Sql

/-- The rows of a table whose primary key is `key`. -/
structure Table {κ α : Type} (key : α → κ) where
  rows : List α
  nodup : (rows.map key).Nodup

namespace Table

section
variable {κ α : Type} [DecidableEq κ] {key : α → κ}

/-- The table without rows. -/
def empty (key : α → κ) : Table key := ⟨[], List.nodup_nil⟩

/-- The row with a key. -/
def get (t : Table key) (k : κ) : Option α := t.rows.find? fun row => decide (key row = k)

/-- INSERT: none when the key is taken. -/
def insert (t : Table key) (row : α) : Option (Table key) :=
  if h : key row ∈ t.rows.map key then none
  else some ⟨t.rows ++ [row], by
    rw [List.map_append, List.nodup_append]
    refine ⟨t.nodup, List.nodup_singleton _, ?_⟩
    intro a ha b hb heq
    rw [List.map_singleton, List.mem_singleton] at hb
    exact h (hb ▸ heq ▸ ha)⟩

/-- UPDATE of the row with the key of `row`. -/
def put (t : Table key) (row : α) : Table key where
  rows := t.rows.map fun other => if key other = key row then row else other
  nodup := by
    have hkeys : (t.rows.map fun other => if key other = key row then row else other).map key
        = t.rows.map key := by
      rw [List.map_map]
      apply List.map_congr_left
      intro other _
      simp only [Function.comp_apply]
      split
      · rename_i heq
        exact heq.symm
      · rfl
    rw [hkeys]
    exact t.nodup

/-- A row that is read has the key. -/
theorem key_of_get {t : Table key} {k : κ} {row : α} (h : t.get k = some row) : key row = k := by
  simpa using List.find?_some h

/-- A row that is read is in the table. -/
theorem mem_of_get {t : Table key} {k : κ} {row : α} (h : t.get k = some row) : row ∈ t.rows :=
  List.mem_of_find?_eq_some h

omit [DecidableEq κ] in
/-- Two rows with one key are the same row. -/
theorem eq_of_key {t : Table key} {a b : α} (ha : a ∈ t.rows) (hb : b ∈ t.rows)
    (h : key a = key b) : a = b :=
  List.inj_on_of_nodup_map t.nodup ha hb h

/-- Every row is read by its key. -/
theorem get_of_mem {t : Table key} {row : α} (h : row ∈ t.rows) : t.get (key row) = some row := by
  cases hfound : t.get (key row) with
  | none =>
    have hno := List.find?_eq_none.mp hfound row h
    simp at hno
  | some other =>
    rw [eq_of_key (mem_of_get hfound) h (key_of_get hfound)]

/-- A key that is not read is not taken. -/
theorem get_eq_none {t : Table key} {k : κ} : t.get k = none ↔ k ∉ t.rows.map key := by
  simp [get, List.find?_eq_none]

/-- What is read after an INSERT. -/
theorem get_insert {t t' : Table key} {row : α} (h : t.insert row = some t') (k : κ) :
    t'.get k = if key row = k then some row else t.get k := by
  unfold insert at h
  split at h
  · cases h
  · rename_i hfree
    cases h
    by_cases hk : key row = k
    · have hnone := get_eq_none.mpr hfree
      subst hk
      simp only [get] at hnone ⊢
      rw [List.find?_append, hnone]
      simp
    · simp [get, hk]

/-- The rows after an INSERT. -/
theorem mem_insert {t t' : Table key} {row other : α} (h : t.insert row = some t') :
    other ∈ t'.rows ↔ other ∈ t.rows ∨ other = row := by
  unfold insert at h
  split at h
  · cases h
  · cases h
    simp

/-- The rows after some INSERTs. -/
theorem rows_foldlM_insert {t t' : Table key} {rows : List α}
    (h : rows.foldlM insert t = some t') : t'.rows = t.rows ++ rows := by
  induction rows generalizing t with
  | nil =>
    cases h
    simp
  | cons row rest ih =>
    rw [List.foldlM_cons] at h
    obtain ⟨next, hinsert, hrest⟩ := Option.bind_eq_some_iff.mp h
    rw [ih hrest]
    unfold insert at hinsert
    split at hinsert
    · cases hinsert
    · cases hinsert
      simp

/-- What is read after an UPDATE. -/
theorem get_put (t : Table key) (row : α) (k : κ) :
    (t.put row).get k = if key row = k then (t.get k).map (fun _ => row) else t.get k := by
  simp only [get, put]
  induction t.rows with
  | nil => simp
  | cons other rest ih =>
    simp only [List.map_cons, List.find?_cons]
    by_cases ho : key other = key row
    · by_cases hk : key row = k
      · simp [ho, hk]
      · simp [ho, hk, ih]
    · by_cases hk : key row = k
      · have hok : key other ≠ k := fun h => ho (h.trans hk.symm)
        simpa [ho, hk, hok] using ih
      · have hkr : k ≠ key row := fun h => hk h.symm
        by_cases hok : key other = k
        · simp [hok, hkr, hk]
        · simp [ho, hk, hok, ih]

/-- The row with the key of `row` becomes `row`, whether or not there was one. -/
def upsert (t : Table key) (row : α) : Table key :=
  match t.insert row with
  | some t' => t'
  | none => t.put row

/-- What is read after an UPSERT. -/
theorem get_upsert (t : Table key) (row : α) (k : κ) :
    (t.upsert row).get k = if key row = k then some row else t.get k := by
  unfold upsert
  split
  · rename_i t' hinsert
    exact get_insert hinsert k
  · rename_i hinsert
    -- the key is taken, so the UPDATE finds its row
    have htaken : key row ∈ t.rows.map key := by
      by_contra hfree
      simp [insert, hfree] at hinsert
    rw [get_put]
    split
    · rename_i hk
      obtain ⟨other, hget⟩ := Option.ne_none_iff_exists'.mp
        (fun hnone => get_eq_none.mp hnone htaken)
      rw [← hk, hget]
      rfl
    · rfl

/-- The rows after an UPSERT. -/
theorem mem_upsert {t : Table key} {row other : α} (h : other ∈ (t.upsert row).rows) :
    other = row ∨ other ∈ t.rows := by
  have hget := get_of_mem h
  rw [get_upsert] at hget
  split at hget
  · exact .inl (Option.some.inj hget).symm
  · exact .inr (mem_of_get hget)

end

end Table

end TrustPortal.Sql
