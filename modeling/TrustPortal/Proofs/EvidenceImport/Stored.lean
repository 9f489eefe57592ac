import TrustPortal.EvidenceImport.Import

/-!
# `TrustPortal.Proofs.EvidenceImport.Stored`: the row that an entry leaves

An import writes the values of an entry in a row, and the next one compares them with what the database
has. The two are equal for the values that the column takes as they are (`CellStable`). From this
`diff_insertRow` and `diff_updateRow` say when there is nothing left to do for the entry.
-/

set_option autoImplicit false

namespace TrustPortal.Proofs.EvidenceImport

open TrustPortal.EvidenceImport
open TrustPortal.Lib
open TrustPortal.Python

/-! ## Cells -/

/-- A value that the column takes as it is: no text for a number, no fraction for an integer, and no
`NaN`. -/
def Exact (type : ColumnType) (item : Item) : Prop :=
  match type, item with
  | .integer, .json (.float _) => False
  | .integer, .json (.str _) => False
  | .float, .json (.str _) => False
  | .float, .json (.float x) => x ≠ floatNaN
  | _, _ => True

/-- A column has a default. -/
def hasDefault (column : Column) : Bool := column.default.isSome || column.serverDefault.isSome

/-- The column has the value of the file after an import, from no row or from what the row had. -/
def CellStable (tools : Tools) (column : Column) (old : Option Item) (new : Item) : Prop :=
  match old with
  | none => Exact column.type new
      ∧ (new = .null → column.type = .json ∨ hasDefault column = false)
  | some old => valuesEqual tools column.type old new = true
      ∨ (Exact column.type new ∧ itemEq tools.numbers old new = false)

section
variable {tools : Tools} {pg : Postgres} {type : ColumnType} {old new : Item}

/-- NULL is equal to NULL only. -/
private theorem valuesEqual_null : valuesEqual tools type old .null = true ↔ old = .null := by
  simp [valuesEqual]

/-- Values other than NULL, in a column that is not JSON. -/
private theorem valuesEqual_of_ne (hjson : type ≠ .json) (hold : old ≠ .null) (hnew : new ≠ .null) :
    valuesEqual tools type old new = itemEq tools.numbers old new := by
  unfold valuesEqual
  rw [if_neg (not_or.mpr ⟨hold, hnew⟩)]
  split
  · exact absurd rfl hjson
  · rfl

/-- A float that is left for a column of integers has a fraction. -/
private theorem whole_of_coerced {raw : Item} {x : FloatText}
    (h : coerceValue tools .integer raw = some (.json (.float x))) :
    tools.numbers.whole x = none := by
  cases raw with
  | instant t => cases h
  | json value =>
    cases value with
    | float y =>
      rw [coerceValue] at h
      cases hwhole : tools.numbers.whole y with
      | some n =>
        simp only [hwhole] at h
        cases h
      | none =>
        simp only [hwhole] at h
        cases h
        exact hwhole
    | str s =>
      rw [coerceValue] at h
      cases hint : intOfStr tools.tables s with
      | some n =>
        simp only [hint] at h
        cases h
      | none =>
        simp only [hint] at h
        cases h
    | _ => cases h

/-- What the database has of a value is equal to it when the column takes the value as it is. -/
private theorem valuesEqual_stored {raw stored : Item} (hcoerced : coerceValue tools type raw = some new)
    (hstored : storedItem tools pg type new = some stored) :
    valuesEqual tools type stored new = true ↔ Exact type new := by
  unfold storedItem at hstored
  split_ifs at hstored with hnull
  · subst hnull
    obtain rfl := Option.some.inj hstored
    rw [valuesEqual_null]
    cases type <;> exact iff_of_true rfl trivial
  · split at hstored
    · -- JSON
      split_ifs at hstored
      obtain rfl := Option.some.inj hstored
      refine iff_of_true ?_ trivial
      rw [valuesEqual, if_neg (not_or.mpr ⟨hnull, hnull⟩)]
      exact decide_eq_true rfl
    · -- a text
      split_ifs at hstored
      obtain rfl := Option.some.inj hstored
      refine iff_of_true ?_ trivial
      rw [valuesEqual_of_ne (by rintro ⟨⟩) hnull hnull]
      exact decide_eq_true rfl
    · -- a bool
      obtain rfl := Option.some.inj hstored
      refine iff_of_true ?_ trivial
      rw [valuesEqual_of_ne (by rintro ⟨⟩) hnull hnull]
      exact beq_self_eq_true _
    · -- a float that is 0 or 1
      split_ifs at hstored with hzero hone
      · obtain rfl := Option.some.inj hstored
        refine iff_of_true ?_ trivial
        rw [valuesEqual_of_ne (by rintro ⟨⟩) (by rintro ⟨⟩) hnull]
        exact hzero
      · obtain rfl := Option.some.inj hstored
        refine iff_of_true ?_ trivial
        rw [valuesEqual_of_ne (by rintro ⟨⟩) (by rintro ⟨⟩) hnull]
        exact hone
    · -- an int
      split_ifs at hstored
      obtain rfl := Option.some.inj hstored
      refine iff_of_true ?_ trivial
      rw [valuesEqual_of_ne (by rintro ⟨⟩) hnull hnull]
      exact decide_eq_true rfl
    · -- a float with a fraction, which is rounded
      obtain ⟨n, _, rfl⟩ := Option.map_eq_some_iff.mp hstored
      refine iff_of_false ?_ id
      rw [valuesEqual_of_ne (by rintro ⟨⟩) (by rintro ⟨⟩) hnull]
      show ¬intFloatEq tools.numbers n.value _ = true
      rw [intFloatEq, whole_of_coerced hcoerced]
      exact Bool.false_ne_true
    · -- a text that the database reads as an integer
      obtain ⟨n, _, rfl⟩ := Option.map_eq_some_iff.mp hstored
      refine iff_of_false ?_ id
      rw [valuesEqual_of_ne (by rintro ⟨⟩) (by rintro ⟨⟩) hnull]
      exact Bool.false_ne_true
    · -- a float
      obtain rfl := Option.some.inj hstored
      rw [valuesEqual_of_ne (by rintro ⟨⟩) hnull hnull]
      show floatEq _ _ = true ↔ _ ≠ floatNaN
      rw [floatEq, if_pos rfl, decide_eq_true_eq]
    · -- a text that the database reads as a float
      obtain ⟨x, _, rfl⟩ := Option.map_eq_some_iff.mp hstored
      refine iff_of_false ?_ id
      rw [valuesEqual_of_ne (by rintro ⟨⟩) (by rintro ⟨⟩) hnull]
      exact Bool.false_ne_true
    · -- a date-time
      split_ifs at hstored
      obtain rfl := Option.some.inj hstored
      refine iff_of_true ?_ trivial
      rw [valuesEqual_of_ne (by rintro ⟨⟩) hnull hnull]
      exact decide_eq_true rfl
    · cases hstored

end

/-! ## Rows -/

/-- The columns that an entry is compared in. -/
def Compared (name : Str) : Prop := name ≠ str "id" ∧ isBookkeeping name = false

/-- After an import the row of an entry has the values of the file, from no row or from this one. -/
def EntryStable (tools : Tools) (model : Model) (old : Option Row) (values : Fields) : Prop :=
  ∀ name new column, (name, new) ∈ values → Compared name → model.column name = some column →
    CellStable tools column (old.map fun row => row.values name) new

/-- Different columns of the model with coerced values. -/
structure Coerced (tools : Tools) (model : Model) (values : Fields) : Prop where
  names : (values.map Prod.fst).Nodup
  columns : ∀ name new, (name, new) ∈ values → ∃ column raw, model.column name = some column
    ∧ coerceValue tools column.type raw = some new

/-- Only the time of the last change is stamped, and no default is NULL. -/
structure Regular (model : Model) : Prop where
  onUpdate : ∀ column ∈ model.columns, column.onUpdate = true → isBookkeeping column.name = true
  defaults : ∀ column ∈ model.columns,
    column.default ≠ some (.value .none) ∧ column.serverDefault ≠ some .none

/-- The models of the datasets. -/
theorem regular_model (dataset : Dataset) : Regular dataset.model := by
  cases dataset <;> exact ⟨by decide, by decide⟩

section
variable {tools : Tools} {pg : Postgres} {now : Int} {model : Model} {values : Fields}
  {row row' : Row} {name : Str} {new : Item} {column : Column} {links : Option (List Str)}

private theorem column_mem (h : model.column name = some column) :
    column ∈ model.columns ∧ column.name = name :=
  ⟨List.mem_of_find?_eq_some h, by simpa using List.find?_some h⟩

/-- A default is NULL only where there is none. -/
private theorem defaultItem_eq_null (hmodel : Regular model) (h : column ∈ model.columns) :
    defaultItem now column = .null ↔ hasDefault column = false := by
  obtain ⟨hdefault, hserver⟩ := hmodel.defaults column h
  rw [defaultItem, hasDefault]
  cases hvalue : column.default with
  | some default =>
    rw [hvalue] at hdefault
    refine iff_of_false ?_ (by simp)
    cases default with
    | value v =>
      intro hnull
      exact hdefault (congrArg (some ∘ Default.value) (Item.json.inj hnull))
    | now => rintro ⟨⟩
  | none =>
    cases hserverValue : column.serverDefault with
    | some v =>
      rw [hserverValue] at hserver
      refine iff_of_false ?_ (by simp)
      intro hnull
      exact hserver (congrArg some (Item.json.inj hnull))
    | none => exact iff_of_true rfl rfl

/-- An entry does not differ from a row. -/
private theorem diff_eq_nil : diff tools model row values = []
    ↔ ∀ name new, (name, new) ∈ values → differs tools model row name new = false := by
  have hfilter : (values.filter fun entry => differs tools model row entry.1 entry.2) = []
      ↔ ∀ name new, (name, new) ∈ values → differs tools model row name new = false := by
    rw [List.filter_eq_nil_iff]
    exact ⟨fun h name new hmem => Bool.eq_false_iff.mpr (h (name, new) hmem),
      fun h entry hmem => Bool.eq_false_iff.mp (h entry.1 entry.2 hmem)⟩
  rw [← hfilter, diff]
  generalize (values.filter fun entry => differs tools model row entry.1 entry.2) = changes
  split_ifs
  · rfl
  · refine iff_of_false ?_ ?_
    · rw [Fields.set]
      cases changes with
      | nil => rintro ⟨⟩
      | cons first rest =>
        rw [Dict.put]
        split_ifs <;> rintro ⟨⟩
    · rintro rfl
      exact absurd rfl (by assumption)

/-- A column in which an entry does not differ from a row. -/
private theorem differs_eq_false (hcompared : Compared name)
    (hcolumn : model.column name = some column) : differs tools model row name new = false
      ↔ valuesEqual tools column.type (row.values name) new = true := by
  rw [differs, hcolumn, decide_eq_false hcompared.1, hcompared.2]
  simp

/-- A row has the values of an entry. -/
theorem diff_eq_nil_iff (hvalues : Coerced tools model values) :
    diff tools model row values = [] ↔ ∀ name new column, (name, new) ∈ values → Compared name →
      model.column name = some column →
      valuesEqual tools column.type (row.values name) new = true := by
  rw [diff_eq_nil]
  constructor
  · intro h name new column hmem hcompared hcolumn
    exact (differs_eq_false hcompared hcolumn).mp (h name new hmem)
  · intro h name new hmem
    obtain ⟨column, _, hcolumn, _⟩ := hvalues.columns name new hmem
    by_cases hcompared : Compared name
    · exact (differs_eq_false hcompared hcolumn).mpr (h name new column hmem hcompared hcolumn)
    · rw [Compared, not_and_or, not_not, Bool.not_eq_false] at hcompared
      rcases hcompared with hid | hbookkeeping
      · rw [differs, decide_eq_true hid]
        rfl
      · rw [differs, hbookkeeping, Bool.or_true]
        rfl

/-! ## The row of an INSERT -/

/-- The value of a name. -/
private theorem get_values (hvalues : Coerced tools model values) (hmem : (name, new) ∈ values) :
    Dict.get Prod.fst values name = some (name, new) :=
  (Dict.get_eq_some_iff hvalues.names).mpr ⟨hmem, rfl⟩

/-- The values of the row. -/
theorem insertRow_eq (h : insertRow tools pg now model values links = some row) :
    row.id = idOf values ∧ row.links = links.getD [] ∧ ∀ name column,
      model.column name = some column →
        insertItem tools pg now values column = some (row.values name) := by
  rw [insertRow] at h
  split_ifs at h with hall
  obtain rfl := Option.some.inj h
  refine ⟨rfl, rfl, fun name column hcolumn => ?_⟩
  have hitem := List.all_eq_true.mp hall column (column_mem hcolumn).1
  obtain ⟨item, hitem⟩ := Option.isSome_iff_exists.mp hitem
  rw [hitem]
  show some item = some (((model.column name).bind (insertItem tools pg now values)).getD .null)
  rw [hcolumn, Option.bind_some, hitem]
  rfl

/-- A new row has the value of the file where the column takes it, or takes nothing. -/
private theorem insertItem_stable (hmodel : Regular model) (hvalues : Coerced tools model values)
    (hmem : (name, new) ∈ values) (hcolumn : model.column name = some column) {item : Item}
    (h : insertItem tools pg now values column = some item) :
    valuesEqual tools column.type item new = true ↔ CellStable tools column none new := by
  obtain ⟨_, raw, hcolumn', hcoerced⟩ := hvalues.columns name new hmem
  obtain rfl := Option.some.inj (hcolumn.symm.trans hcolumn')
  obtain ⟨hcolumnMem, hname⟩ := column_mem hcolumn
  rw [insertItem, hname, get_values hvalues hmem] at h
  dsimp only at h
  split_ifs at h with hnull
  · obtain ⟨rfl, hjson⟩ := hnull
    obtain rfl := Option.some.inj h
    rw [valuesEqual_null, defaultItem_eq_null hmodel hcolumnMem]
    have hexact : Exact column.type .null := by cases column.type <;> exact trivial
    exact ⟨fun hnone => ⟨hexact, fun _ => .inr hnone⟩, fun hstable =>
      (hstable.2 rfl).resolve_left hjson⟩
  · rw [valuesEqual_stored hcoerced h]
    refine ⟨fun hexact => ⟨hexact, fun hnew => .inl ?_⟩, And.left⟩
    by_contra hjson
    exact hnull ⟨hnew, hjson⟩

/-- What is left to do for an entry after its INSERT. -/
theorem diff_insertRow (hmodel : Regular model) (hvalues : Coerced tools model values)
    (h : insertRow tools pg now model values links = some row) :
    diff tools model row values = [] ↔ EntryStable tools model none values := by
  obtain ⟨_, _, hitems⟩ := insertRow_eq h
  rw [diff_eq_nil_iff hvalues]
  constructor
  · intro hequal name new column hmem hcompared hcolumn
    exact (insertItem_stable hmodel hvalues hmem hcolumn (hitems name column hcolumn)).mp
      (hequal name new column hmem hcompared hcolumn)
  · intro hstable name new column hmem hcompared hcolumn
    exact (insertItem_stable hmodel hvalues hmem hcolumn (hitems name column hcolumn)).mpr
      (hstable name new column hmem hcompared hcolumn)

/-! ## The row of an UPDATE -/

/-- The differences have different names. -/
private theorem nodup_diff (hvalues : Coerced tools model values) :
    ((diff tools model row values).map Prod.fst).Nodup := by
  have hfilter : ((values.filter fun entry =>
      differs tools model row entry.1 entry.2).map Prod.fst).Nodup :=
    hvalues.names.sublist (List.filter_sublist.map Prod.fst)
  rw [diff]
  split_ifs
  · exact hfilter
  · exact Dict.nodup_put hfilter

/-- The difference in a column. -/
private theorem get_diff (hvalues : Coerced tools model values) (hmem : (name, new) ∈ values)
    (hcompared : Compared name) : Dict.get Prod.fst (diff tools model row values) name
      = if differs tools model row name new = true then some (name, new) else none := by
  have hfilter : Dict.get Prod.fst (values.filter fun entry =>
      differs tools model row entry.1 entry.2) name
        = if differs tools model row name new = true then some (name, new) else none := by
    rw [Dict.get_filter hvalues.names, get_values hvalues hmem]
    rfl
  rw [← hfilter, diff]
  generalize (values.filter fun entry => differs tools model row entry.1 entry.2) = changes
  split_ifs
  · rfl
  · have hother : str "updated_at" ≠ name := by
      rintro rfl
      exact Bool.noConfusion (hcompared.2.symm.trans (decide_eq_true rfl))
    rw [Fields.set, Dict.get_put, if_neg hother]

/-- A column that an UPDATE writes: the values differ, and not only in their texts. -/
private theorem get_written (hvalues : Coerced tools model values) (hmem : (name, new) ∈ values)
    (hcompared : Compared name) :
    Dict.get Prod.fst (writtenFields tools row (diff tools model row values)) name
      = if differs tools model row name new = true ∧ itemEq tools.numbers (row.values name) new = false
        then some (name, new) else none := by
  rw [writtenFields, Dict.get_filter (nodup_diff hvalues), get_diff hvalues hmem hcompared]
  by_cases hdiffers : differs tools model row name new = true
  · simp [hdiffers, Option.filter]
  · simp [hdiffers]

/-- The stamped columns are not compared. -/
private theorem get_updateFields (hmodel : Regular model) (hcompared : Compared name)
    (changes : Fields) : Dict.get Prod.fst (updateFields tools now model row changes) name
      = Dict.get Prod.fst (writtenFields tools row changes) name := by
  rw [updateFields]
  generalize writtenFields tools row changes = written
  split_ifs with hempty
  · rw [List.isEmpty_iff.mp hempty]
  · rw [Dict.get, List.find?_append, Dict.get]
    have hstamped : ((model.columns.filter fun column => column.onUpdate
        && (Dict.get Prod.fst written column.name).isNone).map fun column =>
          ((column.name, .instant now) : Str × Item)).find? (fun a => decide (a.1 = name)) = none := by
      rw [List.find?_eq_none]
      intro entry hmem hname
      obtain ⟨column, hcolumn, rfl⟩ := List.mem_map.mp hmem
      obtain ⟨hcolumn, hstamp⟩ := List.mem_filter.mp hcolumn
      have hbookkeeping := hmodel.onUpdate column hcolumn (Bool.and_eq_true_iff.mp hstamp).1
      rw [show column.name = name from of_decide_eq_true hname, hcompared.2] at hbookkeeping
      cases hbookkeeping
    rw [hstamped, Option.or_none]

/-- The values of the row. -/
theorem updateRow_eq {changes : Fields}
    (h : updateRow tools pg now model row changes links = some row') :
    row'.id = row.id ∧ row'.links = links.getD row.links ∧ ∀ name column,
      model.column name = some column →
        updateItem tools pg (updateFields tools now model row changes) row column
          = some (row'.values name) := by
  rw [updateRow] at h
  split_ifs at h with hall
  obtain rfl := Option.some.inj h
  refine ⟨rfl, rfl, fun name column hcolumn => ?_⟩
  have hitem := List.all_eq_true.mp hall column (column_mem hcolumn).1
  obtain ⟨item, hitem⟩ := Option.isSome_iff_exists.mp hitem
  rw [hitem]
  show some item = some (((model.column name).bind (updateItem tools pg
    (updateFields tools now model row changes) row)).getD .null)
  rw [hcolumn, Option.bind_some, hitem]
  rfl

/-- An updated row has the value of the file where it had it before, or gets it. -/
private theorem updateItem_stable (hmodel : Regular model) (hvalues : Coerced tools model values)
    (hmem : (name, new) ∈ values) (hcompared : Compared name)
    (hcolumn : model.column name = some column) {item : Item}
    (h : updateItem tools pg (updateFields tools now model row (diff tools model row values)) row
      column = some item) :
    valuesEqual tools column.type item new = true
      ↔ CellStable tools column (some (row.values name)) new := by
  obtain ⟨_, raw, hcolumn', hcoerced⟩ := hvalues.columns name new hmem
  obtain rfl := Option.some.inj (hcolumn.symm.trans hcolumn')
  have hsame : differs tools model row name new = false
      ↔ valuesEqual tools column.type (row.values name) new = true := differs_eq_false hcompared hcolumn
  rw [updateItem, (column_mem hcolumn).2, get_updateFields hmodel hcompared,
    get_written hvalues hmem hcompared] at h
  cases hequal : valuesEqual tools column.type (row.values name) new with
  | true =>
    -- the row has the value, and the column is not written
    rw [if_neg (fun hwritten => Bool.noConfusion (hwritten.1.symm.trans (hsame.mpr hequal)))] at h
    obtain rfl := Option.some.inj h
    exact iff_of_true hequal (.inl hequal)
  | false =>
    have hdiffers : differs tools model row name new = true := by
      rw [← Bool.not_eq_false, hsame, hequal]
      exact Bool.false_ne_true
    cases heq : itemEq tools.numbers (row.values name) new with
    | true =>
      -- an UPDATE leaves out what is equal for Python
      rw [if_neg (fun hwritten => Bool.noConfusion (heq.symm.trans hwritten.2))] at h
      obtain rfl := Option.some.inj h
      refine iff_of_false (Bool.eq_false_iff.mp hequal) ?_
      rintro (hequal' | ⟨_, heq'⟩)
      · exact Bool.noConfusion (hequal.symm.trans hequal')
      · exact Bool.noConfusion (heq.symm.trans heq')
    | false =>
      rw [if_pos ⟨hdiffers, heq⟩] at h
      rw [valuesEqual_stored hcoerced h]
      refine ⟨fun hexact => .inr ⟨hexact, heq⟩, ?_⟩
      rintro (hequal' | ⟨hexact, _⟩)
      · exact Bool.noConfusion (hequal.symm.trans hequal')
      · exact hexact

/-- What is left to do for an entry after its UPDATE. -/
theorem diff_updateRow (hmodel : Regular model) (hvalues : Coerced tools model values)
    (h : updateRow tools pg now model row (diff tools model row values) links = some row') :
    diff tools model row' values = [] ↔ EntryStable tools model (some row) values := by
  obtain ⟨_, _, hitems⟩ := updateRow_eq h
  rw [diff_eq_nil_iff hvalues]
  constructor
  · intro hequal name new column hmem hcompared hcolumn
    exact (updateItem_stable hmodel hvalues hmem hcompared hcolumn (hitems name column hcolumn)).mp
      (hequal name new column hmem hcompared hcolumn)
  · intro hstable name new column hmem hcompared hcolumn
    exact (updateItem_stable hmodel hvalues hmem hcompared hcolumn (hitems name column hcolumn)).mpr
      (hstable name new column hmem hcompared hcolumn)

/-- Nothing is left to do for an entry whose row has its values. -/
theorem entryStable_of_diff (hvalues : Coerced tools model values)
    (h : diff tools model row values = []) : EntryStable tools model (some row) values :=
  fun name new column hmem hcompared hcolumn =>
    .inl ((diff_eq_nil_iff hvalues).mp h name new column hmem hcompared hcolumn)

end

end TrustPortal.Proofs.EvidenceImport
