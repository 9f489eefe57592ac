import TrustPortal.Crud.Routes
import TrustPortal.Lib.Except
import TrustPortal.Lib.Run
import TrustPortal.Proofs.EvidenceImport.Idempotent

/-!
# `TrustPortal.Proofs.Crud.Routes`: what the routes of the models leave in the tables

The routes check the values of a request before they write anything, and what they write besides
is defaults and times. So they keep every row well formed (`WellFormed`): each column has a value of
its type or, where that is allowed, NULL (`wellFormed_run`).

The findings of the evidence store are no business of the routes. Whatever is requested, and by
whom, the same ones are in their table afterwards (`store_findings_kept`).

Both follow from `handle_effect`, which says once what a request can do to the tables.
-/

set_option autoImplicit false

namespace TrustPortal.Proofs.Crud

open TrustPortal.Crud
open TrustPortal.EvidenceImport (Column ColumnType Dataset Item Model Postgres Tools defaultItem
  fits32 storedItem)
open TrustPortal.Lib
open TrustPortal.Python

/-! ## Well-formed rows -/

/-- A value of the type of a column, other than NULL. -/
def hasType : ColumnType → Cell → Bool
  | .string length, .item (.json (.str text)) => length.all fun n => n = 0 || text.length ≤ n
  | .integer, .item (.json (.int n)) => fits32 n
  | .float, .item (.json (.float _)) => true
  | .boolean, .item (.json (.bool _)) => true
  | .json, .item (.json _) => true
  | .dateTime, .item (.instant _) => true
  | .binary, .bytes _ => true
  | _, _ => false

/-- NULL, or a value of the type of the column. -/
def Fits (column : Column) (cell : Cell) : Prop := cell = .null ∨ hasType column.type cell = true

/-- A row of a model that the columns allow. -/
structure WellFormed (model : Model) (record : Record) : Prop where
  types : ∀ column ∈ model.columns, Fits column (record.values column.name)
  notNull : ∀ column ∈ model.columns, column.nullable = false →
    record.values column.name ≠ .null
  /-- The row is found by its `id`. -/
  id : record.values (str "id") = .item (.json (.str record.id))

/-- The rows of all tables are well formed. -/
def AllWellFormed (store : Store) : Prop :=
  ∀ dataset, ∀ record ∈ (store dataset).rows, WellFormed dataset.model record

/-- The default of a column is of its type. -/
def goodDefault (column : Column) : Bool :=
  match column.default, column.serverDefault with
  | some (.value v), _ => hasType column.type (.item (.json v))
  | some .now, _ => column.type = .dateTime
  | none, some v => hasType column.type (.item (.json v))
  | none, none => true

/-- What the columns of the models have in common. -/
structure Sound (model : Model) : Prop where
  names : (model.columns.map Column.name).Nodup
  defaults : ∀ column ∈ model.columns, goodDefault column = true
  /-- Only a time is stamped, and never the `id`. -/
  stamped : ∀ column ∈ model.columns, column.onUpdate = true →
    column.type = .dateTime ∧ column.name ≠ str "id"
  id : ∃ column ∈ model.columns, column.name = str "id" ∧ column.nullable = false
    ∧ column.type = .string (some 36)

/-- The models of the routes. -/
theorem sound_model (dataset : Dataset) : Sound dataset.model := by
  cases dataset <;> exact
    ⟨by decide +kernel, by decide +kernel, by decide +kernel,
      EvidenceImport.idColumn, List.mem_cons_self, rfl, rfl, rfl⟩

section
variable {tools : Tools} {pg : Postgres} {now : Int} {model : Model} {column : Column}
  {raw cell stored : Cell} {data values : Data} {record : Record} {unstorable : Refusal}

/-- A column of the model is found by its name. -/
theorem column_of_mem (hmodel : Sound model) (h : column ∈ model.columns) :
    model.column column.name = some column :=
  (Dict.get_eq_some_iff hmodel.names).mpr ⟨h, rfl⟩

/-- A value of a column of texts. -/
theorem text_of_hasType {length : Option Nat} (h : hasType (.string length) cell = true) :
    ∃ text, cell = .item (.json (.str text)) := by
  cases cell with
  | bytes data => cases h
  | item item =>
    cases item with
    | instant t => cases h
    | json value =>
      cases value with
      | str text => exact ⟨text, rfl⟩
      | _ => cases h

/-- What the check of a column lets through. -/
inductive Accepted : ColumnType → Cell → Prop
  | null (type : ColumnType) : Accepted type .null
  | text {length : Option Nat} {text : Str} (h : ∀ n, length = some n → n = 0 ∨ text.length ≤ n) :
      Accepted (.string length) (.item (.json (.str text)))
  | bool (b : Bool) : Accepted .boolean (.item (.json (.bool b)))
  | int (n : Integer) : Accepted .integer (.item (.json (.int n)))
  | whole (n : Integer) : Accepted .float (.item (.json (.int n)))
  | float (x : FloatText) : Accepted .float (.item (.json (.float x)))
  | instant (t : Int) : Accepted .dateTime (.item (.instant t))
  | bytes (data : Bytes) : Accepted .binary (.bytes data)
  | json (cell : Cell) : Accepted .json cell

/-- `_column_error` lets nothing else through. -/
theorem accepted_columnError (h : columnError tools column raw = .ok cell) :
    Accepted column.type cell := by
  obtain ⟨name, type, nullable, primaryKey, default, serverDefault, onUpdate⟩ := column
  unfold columnError at h
  split_ifs at h with hnull
  · cases h
    exact hnull ▸ .null _
  · dsimp only at h ⊢
    split at h
    · rename_i length text
      cases length with
      | none =>
        cases h
        exact .text fun n hn => by cases hn
      | some length =>
        dsimp only at h
        split_ifs at h with hlong
        cases h
        refine .text fun n hn => ?_
        cases hn
        omega
    · cases h
    · cases h
      exact .bool _
    · cases h
    · cases h
      exact .int _
    · cases h
    · cases h
      exact .whole _
    · cases h
      exact .float _
    · cases h
    · cases h
      exact .instant _
    · split at h
      · cases h
        exact .instant _
      · cases h
    · cases h
    · cases h
      exact .bytes _
    · cases h
    · cases h
      exact .json _

/-- A value that the routes let through is stored as one of the type of the column. -/
theorem fits_storedCell (hcheck : Accepted column.type cell)
    (h : storedCell tools pg column cell = some stored) : Fits column stored := by
  obtain ⟨name, type, nullable, primaryKey, default, serverDefault, onUpdate⟩ := column
  unfold Fits
  unfold storedCell storedItem at h
  dsimp only at hcheck h ⊢
  cases hcheck with
  | null =>
    have hstored : some Cell.null = some stored := by
      rw [← h]
      cases type <;> rfl
    exact .inl (Option.some.inj hstored).symm
  | @text length text hlength =>
    obtain ⟨item, hitem, rfl⟩ := Option.map_eq_some_iff.mp h
    rw [if_neg (by simp [Item.null])] at hitem
    dsimp only at hitem
    split_ifs at hitem
    cases hitem
    refine .inr ?_
    cases length with
    | none => rfl
    | some n => simpa [hasType] using hlength n rfl
  | bool b =>
    cases h
    exact .inr rfl
  | int n =>
    obtain ⟨item, hitem, rfl⟩ := Option.map_eq_some_iff.mp h
    rw [if_neg (by simp [Item.null])] at hitem
    dsimp only at hitem
    split_ifs at hitem with hfits
    cases hitem
    exact .inr hfits
  | whole n =>
    obtain ⟨x, _, rfl⟩ := Option.map_eq_some_iff.mp h
    exact .inr rfl
  | float x =>
    cases h
    exact .inr rfl
  | instant t =>
    obtain ⟨item, hitem, rfl⟩ := Option.map_eq_some_iff.mp h
    rw [if_neg (by simp [Item.null])] at hitem
    dsimp only at hitem
    split_ifs at hitem
    cases hitem
    exact .inr rfl
  | bytes data =>
    cases h
    exact .inr rfl
  | json =>
    cases cell with
    | bytes data => cases h
    | item item =>
      obtain ⟨written, hwritten, rfl⟩ := Option.map_eq_some_iff.mp h
      split_ifs at hwritten
      · cases hwritten
        exact .inl rfl
      · cases item with
        | json value =>
          dsimp only at hwritten
          split_ifs at hwritten
          cases hwritten
          exact .inr rfl
        | instant t => cases hwritten

/-! ## Values by name -/

/-- The value of a name in the checked values. -/
theorem get_columnErrors (h : columnErrors tools model data = .ok values) {name : Str}
    (hget : values.get name = some cell) :
    ∃ raw, data.get name = some raw ∧ columnValue tools model name raw = .ok cell := by
  have hall := mapM_eq_ok.mp h
  clear h
  induction hall with
  | nil => cases hget
  | @cons entry entry' rest rest' hentry _ ih =>
    obtain ⟨name', raw⟩ := entry
    obtain ⟨checked, hchecked, hsame⟩ := map_eq_ok.mp hentry
    cases hsame
    by_cases hname : name' = name
    · subst hname
      have hcell : checked = cell := by simpa [Data.get, Dict.get] using hget
      exact ⟨raw, by simp [Data.get, Dict.get], hcell ▸ hchecked⟩
    · have hbehind : Data.get rest' name = some cell := by
        simpa [Data.get, Dict.get, hname] using hget
      obtain ⟨raw', hraw, hvalue⟩ := ih hbehind
      exact ⟨raw', by simpa [Data.get, Dict.get, hname] using hraw, hvalue⟩

/-- Values that the routes let through. -/
def Checked (model : Model) (data : Data) : Prop :=
  ∀ column ∈ model.columns, ∀ cell, data.get column.name = some cell → Accepted column.type cell

/-- `column_errors` lets nothing else through. -/
theorem checked_columnErrors (hmodel : Sound model)
    (h : columnErrors tools model data = .ok values) : Checked model values := by
  intro column hcolumn cell hget
  obtain ⟨raw, _, hvalue⟩ := get_columnErrors h hget
  rw [columnValue, column_of_mem hmodel hcolumn] at hvalue
  exact accepted_columnError hvalue

/-- A value that is found is one of the values. -/
theorem mem_of_get {name : Str} (h : data.get name = some cell) : (name, cell) ∈ data := by
  obtain ⟨entry, hentry, rfl⟩ := Option.map_eq_some_iff.mp h
  have hkey := Dict.key_of_get hentry
  subst hkey
  exact List.mem_of_find?_eq_some hentry

/-- What an UPDATE sets is a checked value of the request or the time of a stamp, and never the
`id`. -/
theorem updateData_cases (hmodel : Sound model) {name : Str}
    (h : (updateData tools now model record data).get name = some cell) :
    name ≠ str "id" ∧ ∃ column ∈ model.columns, column.name = name
      ∧ (data.get name = some cell ∨ (column.type = .dateTime ∧ cell = .item (.instant now))) := by
  unfold updateData at h
  dsimp only at h
  split_ifs at h
  · cases h
  · rcases List.mem_append.mp (mem_of_get h) with hwritten | hstamped
    · obtain ⟨column, hcolumn, hsome⟩ := List.mem_filterMap.mp hwritten
      obtain ⟨value, hvalue, heq⟩ := Option.map_eq_some_iff.mp hsome
      obtain ⟨hget, hchanged⟩ := Option.filter_eq_some_iff.mp hvalue
      cases heq
      simp only [Bool.and_eq_true, decide_eq_true_eq] at hchanged
      exact ⟨hchanged.1, column, hcolumn, rfl, .inl hget⟩
    · obtain ⟨column, hcolumn, heq⟩ := List.mem_map.mp hstamped
      obtain ⟨hmem, hstamp⟩ := List.mem_filter.mp hcolumn
      cases heq
      simp only [Bool.and_eq_true] at hstamp
      obtain ⟨htype, hid⟩ := hmodel.stamped column hmem hstamp.1
      exact ⟨hid, column, hmem, rfl, .inr ⟨htype, rfl⟩⟩

/-! ## Rows that are written -/

/-- A default is of the type of its column. -/
theorem fits_default (h : goodDefault column = true) :
    Fits column (.item (defaultItem now column)) := by
  unfold goodDefault at h
  unfold defaultItem
  cases hdefault : column.default with
  | some given =>
    cases given with
    | value v =>
      simp only [hdefault] at h ⊢
      exact .inr h
    | now =>
      simp only [hdefault, decide_eq_true_eq] at h ⊢
      exact .inr (by rw [h]; rfl)
  | none =>
    cases hserver : column.serverDefault with
    | some v =>
      simp only [hdefault, hserver] at h ⊢
      exact .inr h
    | none => exact .inl rfl

/-- What an INSERT gives a column. -/
theorem fits_insertCell (hmodel : Sound model) (hdata : Checked model data)
    (hcolumn : column ∈ model.columns) (h : insertCell tools pg now data column = some cell) :
    Fits column cell := by
  unfold insertCell at h
  split at h
  · rename_i given hgiven
    split_ifs at h
    · cases h
      exact fits_default (hmodel.defaults column hcolumn)
    · exact fits_storedCell (hdata column hcolumn given hgiven) h
  · cases h
    exact fits_default (hmodel.defaults column hcolumn)

/-- What a column has after an UPDATE. -/
theorem fits_updateCell (hmodel : Sound model) (hdata : Checked model data)
    (hrecord : WellFormed model record) (hcolumn : column ∈ model.columns)
    (h : updateCell tools pg (updateData tools now model record data) record column = some cell) :
    Fits column cell := by
  unfold updateCell at h
  split at h
  · rename_i given hgiven
    obtain ⟨_, other, hother, hname, hvalue⟩ := updateData_cases hmodel hgiven
    have hsame : other = column := by
      have hfound := column_of_mem hmodel hother
      rw [hname, column_of_mem hmodel hcolumn] at hfound
      exact (Option.some.inj hfound).symm
    subst hsame
    refine fits_storedCell ?_ h
    rcases hvalue with hget | ⟨htype, rfl⟩
    · exact hdata _ hcolumn given hget
    · rw [htype]
      exact .instant now
  · cases h
    exact hrecord.types column hcolumn

/-- The columns of a row that is written. -/
theorem recordValues_ok (hmodel : Sound model) {cells : Column → Option Cell} {row : Str → Cell}
    (h : recordValues model unstorable cells = .ok row) (hcolumn : column ∈ model.columns) :
    cells column = some (row column.name)
      ∧ (column.nullable = false → row column.name ≠ .null) := by
  unfold recordValues at h
  split_ifs at h with hall hnulls
  cases h
  obtain ⟨cell, hcell⟩ := Option.isSome_iff_exists.mp (List.all_eq_true.mp hall column hcolumn)
  have hnull := List.all_eq_true.mp hnulls column hcolumn
  simp only [column_of_mem hmodel hcolumn, Option.bind_some, hcell, Option.getD_some, true_and]
  intro hrequired heq
  rw [hcell, heq, hrequired] at hnull
  simp at hnull

/-- A row whose columns fit is well formed. -/
theorem wellFormed_recordValues (hmodel : Sound model) {cells : Column → Option Cell}
    {row : Str → Cell} {id : Str} (h : recordValues model unstorable cells = .ok row)
    (hfits : ∀ column ∈ model.columns, ∀ cell, cells column = some cell → Fits column cell)
    (hid : row (str "id") = .item (.json (.str id))) : WellFormed model ⟨id, row⟩ where
  types column hcolumn := hfits column hcolumn _ (recordValues_ok hmodel h hcolumn).1
  notNull _ hcolumn := (recordValues_ok hmodel h hcolumn).2
  id := hid

/-- The row of an INSERT. -/
theorem wellFormed_insertRecord (hmodel : Sound model) (hdata : Checked model data)
    (h : insertRecord tools pg now model unstorable data = .ok record) :
    WellFormed model record := by
  obtain ⟨row, hrow, rfl⟩ := map_eq_ok.mp h
  have hfits : ∀ column ∈ model.columns, ∀ cell,
      insertCell tools pg now data column = some cell → Fits column cell :=
    fun column hcolumn cell hcell => fits_insertCell hmodel hdata hcolumn hcell
  refine wellFormed_recordValues hmodel hrow hfits ?_
  -- the `id` is not NULL, so it is a text
  obtain ⟨column, hcolumn, hname, hrequired, htype⟩ := hmodel.id
  obtain ⟨hcell, hnotNull⟩ := recordValues_ok hmodel hrow hcolumn
  have hfit := hfits column hcolumn _ hcell
  rw [hname] at hfit hnotNull
  rcases hfit with hnull | htext
  · exact absurd hnull (hnotNull hrequired)
  · rw [htype] at htext
    obtain ⟨text, htext⟩ := text_of_hasType htext
    rw [htext]
    rfl

/-- The row of an UPDATE. -/
theorem wellFormed_updateRecord (hmodel : Sound model) (hdata : Checked model data)
    {record' : Record} (hrecord : WellFormed model record)
    (h : updateRecord tools pg now model unstorable record data = .ok record') :
    WellFormed model record' := by
  obtain ⟨row, hrow, rfl⟩ := map_eq_ok.mp h
  refine wellFormed_recordValues hmodel hrow
    (fun column hcolumn cell hcell => fits_updateCell hmodel hdata hrecord hcolumn hcell) ?_
  -- an UPDATE leaves the `id`
  obtain ⟨column, hcolumn, hname, _⟩ := hmodel.id
  have hcell := (recordValues_ok hmodel hrow hcolumn).1
  unfold updateCell at hcell
  split at hcell
  · rename_i given hgiven
    exact absurd hname (updateData_cases hmodel hgiven).1
  · rw [hname] at hcell
    rw [← Option.some.inj hcell]
    exact hrecord.id

/-- A row that no longer belongs to another one. -/
theorem wellFormed_detached (hmodel : Sound model) {name : String}
    (hnullable : (model.column (str name)).any Column.nullable = true) (hid : str name ≠ str "id")
    (hrecord : WellFormed model record) : WellFormed model (detached now model name record) where
  types column hcolumn := by
    unfold detached
    dsimp only
    split_ifs with hname hstamp
    · exact .inl rfl
    · rw [column_of_mem hmodel hcolumn] at hstamp
      exact .inr (by rw [(hmodel.stamped column hcolumn hstamp).1]; rfl)
    · exact hrecord.types column hcolumn
  notNull column hcolumn hrequired := by
    unfold detached
    dsimp only
    split_ifs with hname hstamp
    · rw [← hname, column_of_mem hmodel hcolumn, Option.any_some, hrequired] at hnullable
      cases hnullable
    · simp [Cell.null, Item.null]
    · exact hrecord.notNull column hcolumn hrequired
  id := by
    have hnot : (model.column (str "id")).any Column.onUpdate = false := by
      obtain ⟨column, hcolumn, hname, _⟩ := hmodel.id
      rw [← hname, column_of_mem hmodel hcolumn, Option.any_some]
      exact Bool.eq_false_iff.mpr fun hstamp => (hmodel.stamped column hcolumn hstamp).2 hname
    unfold detached
    dsimp only
    rw [if_neg hid.symm, if_neg (by simp [hnot])]
    exact hrecord.id

end

/-! ## What a request does -/

section
variable {server : Server} {request : Request} {store after : Store} {dataset : Dataset}
  {data checked : Data} {record : Record} {now : Int}

/-- A request of a member that may write and whose key has not expired. -/
def MayWrite (request : Request) : Prop :=
  ∃ caller, request.member = some caller ∧ caller.isExpired = false ∧ caller.canWrite = true

/-- How a request changes the tables. -/
inductive Effect (server : Server) (store : Store) : Store → Prop
  | created {dataset : Dataset} {data checked : Data} {record : Record} {now : Int} {after : Store}
      (names : namesStore dataset data = false)
      (check : checkValues server dataset data = .ok checked)
      (insertion : insertion server now dataset checked store = .ok (record, after)) :
      Effect server store after
  | updated {dataset : Dataset} {data checked : Data} {old record : Record} {now : Int}
      {after : Store} (stored : old ∈ (store dataset).rows)
      (own : isStoreFinding dataset old = false) (names : namesStore dataset data = false)
      (check : checkValues server dataset data = .ok checked)
      (modification : modification server now dataset old checked store = .ok (record, after)) :
      Effect server store after
  | deleted {dataset : Dataset} {id : Str} {old : Record} {now : Int} {left : Store}
      (stored : (store dataset).get id = some old) (own : isStoreFinding dataset old = false)
      (children : left = store ∨ ∃ other name, children dataset = some (other, name)
        ∧ detach now other name id store = some left) :
      Effect server store (Function.update left dataset (without (left dataset) id))

/-- An `id` says nothing of the evidence store. -/
theorem namesStore_withId (uuid : Str) : namesStore dataset (withId data uuid)
    = namesStore dataset data := by
  have hother : (str "id" = str "source_file") = False := by decide +kernel
  unfold namesStore withId
  split_ifs
  · simp [Data.get, Dict.get, List.find?_append, hother]
  · rfl

/-- `create`. -/
theorem create_cases {uuid : Str} {body : Body}
    (h : create server now uuid dataset body store = .ok (record, after)) :
    Effect server store after := by
  obtain ⟨data, _, h⟩ := bind_eq_ok.mp h
  split at h
  · cases h
  · split_ifs at h with hnames
    obtain ⟨checked, hcheck, h⟩ := bind_eq_ok.mp h
    refine .created ?_ hcheck (mapError_eq_ok.mp h)
    rw [namesStore_withId]
    simpa using hnames

/-- `update`. -/
theorem update_cases {id : Str} {body : Body}
    (h : update server now dataset id body store = .ok (record, after)) :
    Effect server store after := by
  unfold update at h
  split at h
  · cases h
  · rename_i old hget
    obtain ⟨data, _, h⟩ := bind_eq_ok.mp h
    split_ifs at h with hstore
    obtain ⟨checked, hcheck, h⟩ := bind_eq_ok.mp h
    simp only [Bool.or_eq_true, not_or, Bool.not_eq_true] at hstore
    exact .updated (Sql.Table.mem_of_get hget) hstore.1 hstore.2 hcheck (mapError_eq_ok.mp h)

/-- `delete`. -/
theorem delete_cases {id : Str} (h : delete server now dataset id store = .ok after) :
    Effect server store after := by
  unfold delete at h
  split at h
  · cases h
  · rename_i old hget
    split_ifs at h with hstore
    dsimp only at h
    split at h
    · cases h
    · rename_i left hleft
      have hcommit := mapError_eq_ok.mp h
      unfold commit at hcommit
      split at hcommit
      · cases hcommit
      · cases hcommit
        refine @Effect.deleted server store dataset id old now left hget (by simpa using hstore) ?_
        split at hleft
        · exact .inl (Option.some.inj hleft).symm
        · rename_i other name hchildren
          exact .inr ⟨other, name, hchildren, hleft⟩

/-- A request leaves the tables as they are, or it is of a member that may write and changes them in
one of three ways. -/
theorem handle_effect (server : Server) (request : Request) (store : Store) :
    (handle server request store).2 = store
      ∨ (MayWrite request ∧ Effect server store (handle server request store).2) := by
  unfold handle
  cases hauth : requireApiKey request with
  | error answer => exact .inl rfl
  | ok caller =>
    have hmember : request.member = some caller ∧ caller.isExpired = false := by
      unfold requireApiKey at hauth
      split at hauth
      · split_ifs at hauth
      · rename_i found hfound
        split_ifs at hauth with hexpired
        cases hauth
        exact ⟨hfound, by simpa using hexpired⟩
    have hwriter : requireWriter caller = .ok () → MayWrite request := by
      intro h
      unfold requireWriter at h
      split_ifs at h with hwrite
      exact ⟨caller, hmember.1, hmember.2, hwrite⟩
    dsimp only
    cases request.operation with
    | list => exact .inl rfl
    | get id => exact .inl rfl
    | create body =>
      cases hresult : (do
          requireWriter caller
          create server request.now request.uuid request.dataset body store) with
      | error answer => exact .inl (by simp [showing, hresult])
      | ok result =>
        obtain ⟨_, hwrite, hcreate⟩ := bind_eq_ok.mp hresult
        refine .inr ⟨hwriter hwrite, ?_⟩
        simpa [showing, hresult] using create_cases hcreate
    | update id body =>
      cases hresult : (do
          requireWriter caller
          update server request.now request.dataset id body store) with
      | error answer => exact .inl (by simp [showing, hresult])
      | ok result =>
        obtain ⟨_, hwrite, hupdate⟩ := bind_eq_ok.mp hresult
        refine .inr ⟨hwriter hwrite, ?_⟩
        simpa [showing, hresult] using update_cases hupdate
    | delete id =>
      cases hresult : (do
          requireWriter caller
          delete server request.now request.dataset id store) with
      | error answer => exact .inl (by simp [hresult])
      | ok left =>
        obtain ⟨_, hwrite, hdelete⟩ := bind_eq_ok.mp hresult
        refine .inr ⟨hwriter hwrite, ?_⟩
        simpa [hresult] using delete_cases hdelete

/-- A commit that is not refused. -/
theorem commit_ok {before left : Store} (h : commit server before left = .ok after) :
    after = left := by
  unfold commit at h
  split at h
  · cases h
  · cases h
    rfl

/-- The INSERT of a request. -/
theorem insertion_ok (h : insertion server now dataset checked store = .ok (record, after)) :
    insertRecord server.tools server.pg now dataset.model server.unstorable checked = .ok record
      ∧ ∃ rows, (store dataset).insert record = some rows
        ∧ after = Function.update store dataset rows := by
  obtain ⟨written, hwritten, h⟩ := bind_eq_ok.mp h
  split at h
  · cases h
  · rename_i rows hrows
    obtain ⟨committed, hcommit, heq⟩ := map_eq_ok.mp h
    cases heq
    exact ⟨hwritten, rows, hrows, commit_ok hcommit⟩

/-- The UPDATE of a request. -/
theorem modification_ok {old : Record}
    (h : modification server now dataset old checked store = .ok (record, after)) :
    updateRecord server.tools server.pg now dataset.model server.unstorable old checked = .ok record
      ∧ after = Function.update store dataset ((store dataset).put record) := by
  obtain ⟨written, hwritten, h⟩ := bind_eq_ok.mp h
  obtain ⟨committed, hcommit, heq⟩ := map_eq_ok.mp h
  cases heq
  exact ⟨hwritten, commit_ok hcommit⟩

/-- The checks of a request, the last of which is `column_errors`. -/
theorem checkValues_ok (h : checkValues server dataset data = .ok checked) :
    ∃ decoded, decodeFileData data = .ok decoded
      ∧ columnErrors server.tools dataset.model decoded = .ok checked := by
  obtain ⟨decoded, hdecoded, h⟩ := bind_eq_ok.mp h
  split at h
  · cases h
  · cases h
  · exact ⟨decoded, mapError_eq_ok.mp hdecoded, mapError_eq_ok.mp h⟩

/-- The rows after an UPDATE. -/
theorem mem_put {t : Sql.Table Record.id} {row other : Record} (h : other ∈ (t.put row).rows) :
    other = row ∨ other ∈ t.rows := by
  obtain ⟨old, hold, heq⟩ := List.mem_map.mp h
  split_ifs at heq
  · exact .inl heq.symm
  · exact .inr (heq ▸ hold)

/-! ## The rows stay well formed -/

/-- A table with other rows. -/
theorem allWellFormed_update (h : AllWellFormed store) {rows : Sql.Table Record.id}
    (hrows : ∀ record ∈ rows.rows, WellFormed dataset.model record) :
    AllWellFormed (Function.update store dataset rows) := by
  intro other
  by_cases hother : other = dataset
  · subst hother
    rw [Function.update_self]
    exact hrows
  · rw [Function.update_of_ne hother]
    exact h other

/-- The rows that belonged to a row are detached from it, one by one. -/
theorem allWellFormed_detach {name : String} {id : Str} (hid : str name ≠ str "id")
    (h : AllWellFormed store) (hdetach : detach now dataset name id store = some after) :
    AllWellFormed after := by
  unfold detach at hdetach
  dsimp only at hdetach
  split_ifs at hdetach with hempty hnullable
  · cases hdetach
    exact h
  · cases hdetach
    refine allWellFormed_update h ?_
    -- each of them is a row of the table, and so is what it becomes
    refine List.foldlRecOn (motive := fun rows : Sql.Table Record.id =>
      ∀ record ∈ rows.rows, WellFormed dataset.model record) _ _ (h dataset) ?_
    intro rows hrows old hold record hmem
    rcases mem_put hmem with rfl | hkept
    · exact wellFormed_detached (sound_model dataset) hnullable hid
        (h dataset old (List.mem_filter.mp hold).1)
    · exact hrows record hkept

/-- A change keeps the rows well formed. -/
theorem allWellFormed_effect (h : AllWellFormed store) (heffect : Effect server store after) :
    AllWellFormed after := by
  cases heffect with
  | @created dataset data checked record now _ names check insertion =>
    obtain ⟨_, _, hchecked⟩ := checkValues_ok check
    obtain ⟨hrecord, rows, hinsert, rfl⟩ := insertion_ok insertion
    refine allWellFormed_update h fun other hother => ?_
    rcases (Sql.Table.mem_insert hinsert).mp hother with hold | rfl
    · exact h dataset other hold
    · exact wellFormed_insertRecord (sound_model dataset)
        (checked_columnErrors (sound_model dataset) hchecked) hrecord
  | @updated dataset data checked old record now _ stored own names check modification =>
    obtain ⟨_, _, hchecked⟩ := checkValues_ok check
    obtain ⟨hrecord, rfl⟩ := modification_ok modification
    refine allWellFormed_update h fun other hother => ?_
    rcases mem_put hother with rfl | hold
    · exact wellFormed_updateRecord (sound_model dataset)
        (checked_columnErrors (sound_model dataset) hchecked) (h dataset old stored) hrecord
    · exact h dataset other hold
  | @deleted dataset id old now left stored own hchildren =>
    have hleft : AllWellFormed left := by
      rcases hchildren with rfl | ⟨other, name, hchild, hdetach⟩
      · exact h
      · refine allWellFormed_detach ?_ h hdetach
        cases dataset <;> cases hchild <;> decide +kernel
    exact allWellFormed_update hleft fun record hmem =>
      hleft dataset record (List.mem_filter.mp hmem).1

/-- Whatever is requested, the rows stay well formed. -/
theorem wellFormed_run (server : Server) (requests : List Request) (h : AllWellFormed store) :
    AllWellFormed (run server store requests) := by
  have halong : Along (fun store request => (handle server request store).2) (fun _ _ => True) store
      requests := along_of_forall (fun _ _ => trivial) store requests
  refine run_invariant (fun store request hstore _ => ?_) halong h
  rcases handle_effect server request store with hsame | ⟨_, heffect⟩
  · rw [hsame]
    exact hstore
  · exact allWellFormed_effect hstore heffect

/-- A server for texts in ASCII and no dates, which the database refuses nothing else. -/
def asciiServer : Server where
  tools := EvidenceImport.asciiImporter.tools
  urls := EvidenceImport.asciiImporter.urls
  pg := EvidenceImport.asciiImporter.pg
  unstorable := .data
  refuses _ _ := none

/-- Tables without rows. -/
def noRecords : Store := fun _ => Sql.Table.empty Record.id

/-- A request of a person about the controls. -/
def controlRequest (operation : Operation) : Request where
  member := some ⟨.human, false⟩
  viaHeader := true
  browser := false
  dataset := .controls
  operation := operation
  now := 0
  uuid := str "c1"

/-- A control is created and changed, and then its name is to become NULL. -/
def controlRequests : List Request :=
  [controlRequest (.create (.json (.dict
      [(str "name", .str (str "n")), (str "category", .str (str "security"))]))),
    controlRequest (.update (str "c1") (.json (.dict
      [(str "state", .none), (str "maturity_level", .int ⟨3, by decide +kernel⟩)]))),
    controlRequest (.update (str "c1") (.json (.dict [(str "name", .none)])))]

/-- `wellFormed_run` for the control, which keeps its name. -/
theorem wellFormed_run_control :
    ((run asciiServer noRecords controlRequests) .controls).rows.map
        (fun record => (record.values (str "name"), record.values (str "state")))
      = [(.item (.json (.str (str "n"))), .null)]
      ∧ AllWellFormed (run asciiServer noRecords controlRequests) := by
  refine ⟨by decide +kernel, wellFormed_run asciiServer controlRequests fun _ record hmem => ?_⟩
  cases hmem

/-- Requests of members that may not write leave the tables. -/
theorem run_of_readers (server : Server) (requests : List Request)
    (hreaders : ∀ request ∈ requests, ¬MayWrite request) : run server store requests = store := by
  have halong : Along (fun store request => (handle server request store).2)
      (fun _ request => ¬MayWrite request) store requests := along_of_mem hreaders
  refine run_invariant (P := fun after : Store => after = store)
    (fun after request hafter hreader => ?_) halong rfl
  rcases handle_effect server request after with hsame | ⟨hwriter, _⟩
  · exact hsame.trans hafter
  · exact absurd hwriter hreader

/-! ## The findings of the evidence store -/

/-- The findings of the evidence store's namespace. -/
def storeFindings (store : Store) : List Record :=
  (store .pentestFindings).rows.filter (isStoreFinding .pentestFindings)

/-- The column `source_file`. -/
def sourceFile : Column := EvidenceImport.column "source_file" (EvidenceImport.text 500)

/-- The column of a finding's file. -/
theorem column_sourceFile :
    EvidenceImport.PentestFinding.column (str "source_file") = some sourceFile := by
  have hmem : sourceFile ∈ EvidenceImport.PentestFinding.columns := by
    simp [EvidenceImport.PentestFinding, sourceFile]
  exact column_of_mem (sound_model .pentestFindings) hmem

section
variable {tools : Tools} {pg : Postgres} {raw cell stored : Cell}

/-- A source file is stored as it is given. -/
theorem storedCell_sourceFile (h : storedCell tools pg sourceFile cell = some stored)
    (hnot : inStoreNamespace cell = false) : inStoreNamespace stored = false := by
  cases cell with
  | bytes data => cases h
  | item item =>
    obtain ⟨written, hwritten, rfl⟩ := Option.map_eq_some_iff.mp h
    unfold storedItem at hwritten
    split_ifs at hwritten with hnull
    · cases hwritten
      rfl
    · cases item with
      | instant t => cases hwritten
      | json value =>
        cases value with
        | str text =>
          simp only [sourceFile, EvidenceImport.column] at hwritten
          split_ifs at hwritten
          cases hwritten
          exact hnot
        | _ => cases hwritten

/-- `column_errors` leaves a text. -/
theorem columnError_sourceFile (h : columnError tools sourceFile raw = .ok cell) : cell = raw := by
  unfold columnError at h
  split_ifs at h
  · cases h
    rfl
  · cases raw with
    | bytes data => cases h
    | item item =>
      cases item with
      | instant t => cases h
      | json value =>
        cases value with
        | str text =>
          simp only [sourceFile, EvidenceImport.column] at h
          split_ifs at h
          cases h
          rfl
        | _ => cases h

end

/-- Checked values name the namespace only where the request does. -/
theorem sourceFile_checked (hnames : namesStore .pentestFindings data = false)
    (h : checkValues server .pentestFindings data = .ok checked) {cell : Cell}
    (hget : checked.get (str "source_file") = some cell) : inStoreNamespace cell = false := by
  obtain ⟨decoded, hdecoded, hchecked⟩ := checkValues_ok h
  obtain ⟨raw, hraw, hvalue⟩ := get_columnErrors hchecked hget
  rw [columnValue, show Dataset.model .pentestFindings = EvidenceImport.PentestFinding from rfl,
    column_sourceFile] at hvalue
  rw [columnError_sourceFile hvalue]
  -- the decoded file is a value of another name
  have hsame : decoded.get (str "source_file") = data.get (str "source_file") := by
    have hother : (str "file_data" = str "source_file") = False := by decide +kernel
    unfold decodeFileData at hdecoded
    split at hdecoded
    · cases hdecoded
      rfl
    · split at hdecoded
      · cases hdecoded
      · cases hdecoded
        rw [Data.get, Dict.get_put, Data.get]
        simp [hother]
  rw [hsame] at hraw
  simpa [namesStore, hraw] using hnames

/-- A row that is added is outside of the namespace. -/
theorem sourceFile_insertRecord {tools : Tools} {pg : Postgres} {unstorable : Refusal}
    (hdata : ∀ cell, checked.get (str "source_file") = some cell → inStoreNamespace cell = false)
    (h : insertRecord tools pg now EvidenceImport.PentestFinding unstorable checked = .ok record) :
    isStoreFinding .pentestFindings record = false := by
  obtain ⟨row, hrow, rfl⟩ := map_eq_ok.mp h
  have hmem := List.mem_of_find?_eq_some column_sourceFile
  have hcell := (recordValues_ok (sound_model .pentestFindings) hrow hmem).1
  show (true && inStoreNamespace (row sourceFile.name)) = false
  rw [Bool.true_and]
  unfold insertCell at hcell
  split at hcell
  · rename_i given hgiven
    split_ifs at hcell
    · rw [← Option.some.inj hcell]
      rfl
    · exact storedCell_sourceFile hcell (hdata given hgiven)
  · rw [← Option.some.inj hcell]
    rfl

/-- A row that is changed stays outside of the namespace. -/
theorem sourceFile_updateRecord {tools : Tools} {pg : Postgres} {unstorable : Refusal}
    {old : Record} (hold : isStoreFinding .pentestFindings old = false)
    (hdata : ∀ cell, checked.get (str "source_file") = some cell → inStoreNamespace cell = false)
    (h : updateRecord tools pg now EvidenceImport.PentestFinding unstorable old checked
      = .ok record) : isStoreFinding .pentestFindings record = false := by
  obtain ⟨row, hrow, rfl⟩ := map_eq_ok.mp h
  have hmem := List.mem_of_find?_eq_some column_sourceFile
  have hcell := (recordValues_ok (sound_model .pentestFindings) hrow hmem).1
  show (true && inStoreNamespace (row sourceFile.name)) = false
  rw [Bool.true_and]
  unfold updateCell at hcell
  split at hcell
  · rename_i given hgiven
    refine storedCell_sourceFile hcell ?_
    obtain ⟨_, _, _, _, hvalue | ⟨_, rfl⟩⟩ :=
      updateData_cases (sound_model .pentestFindings) hgiven
    · exact hdata given hvalue
    · rfl
  · rw [← Option.some.inj hcell]
    exact (Bool.true_and _).symm.trans hold

/-- An UPDATE of a row that a condition does not select, before and after. -/
theorem filter_put {t : Sql.Table Record.id} {old row : Record} {p : Record → Bool}
    (hold : old ∈ t.rows) (hkey : row.id = old.id) (hnot : p old = false) (hrow : p row = false) :
    (t.put row).rows.filter p = t.rows.filter p := by
  have hsame : ∀ other ∈ t.rows, other.id = row.id → other = old :=
    fun other hother heq => Sql.Table.eq_of_key hother hold (heq.trans hkey)
  simp only [Sql.Table.put, List.filter_map]
  have hfilter : t.rows.filter (p ∘ fun other => if other.id = row.id then row else other)
      = t.rows.filter p := by
    apply List.filter_congr
    intro other hother
    simp only [Function.comp_apply]
    split_ifs with heq
    · rw [hsame other hother heq, hnot, hrow]
    · rfl
  rw [hfilter]
  refine (List.map_congr_left fun other hother => ?_).trans (List.map_id _)
  obtain ⟨hmem, hselected⟩ := List.mem_filter.mp hother
  rw [if_neg]
  · rfl
  · intro heq
    rw [hsame other hmem heq, hnot] at hselected
    cases hselected

/-- A change leaves the findings of the evidence store. -/
theorem storeFindings_effect (heffect : Effect server store after) :
    storeFindings after = storeFindings store := by
  -- a change of another table leaves that of the findings
  have hother : ∀ {dataset : Dataset} (rows : Sql.Table Record.id), dataset ≠ .pentestFindings →
      storeFindings (Function.update store dataset rows) = storeFindings store := by
    intro dataset rows hne
    rw [storeFindings, Function.update_of_ne hne.symm, storeFindings]
  cases heffect with
  | @created dataset data checked record now _ names check insertion =>
    obtain ⟨hrecord, rows, hinsert, rfl⟩ := insertion_ok insertion
    by_cases hdataset : dataset = .pentestFindings
    · subst hdataset
      have hnot := sourceFile_insertRecord (fun _ => sourceFile_checked names check) hrecord
      have hrows := Sql.Table.rows_foldlM_insert
        (show [record].foldlM Sql.Table.insert (store .pentestFindings) = some rows by
          simp [hinsert])
      rw [storeFindings, Function.update_self, hrows, List.filter_append]
      simp [hnot, storeFindings]
    · exact hother rows hdataset
  | @updated dataset data checked old record now _ stored own names check modification =>
    obtain ⟨hrecord, rfl⟩ := modification_ok modification
    by_cases hdataset : dataset = .pentestFindings
    · subst hdataset
      have hnot := sourceFile_updateRecord own (fun _ => sourceFile_checked names check) hrecord
      have hkey : record.id = old.id := by
        obtain ⟨row, _, rfl⟩ := map_eq_ok.mp hrecord
        rfl
      rw [storeFindings, Function.update_self]
      exact filter_put stored hkey own hnot
    · exact hother _ hdataset
  | @deleted dataset id old now left stored own hchildren =>
    have hleft : storeFindings left = storeFindings store := by
      rcases hchildren with rfl | ⟨other, name, hchild, hdetach⟩
      · rfl
      · unfold detach at hdetach
        dsimp only at hdetach
        split_ifs at hdetach
        · rw [Option.some.inj hdetach]
        · rw [← Option.some.inj hdetach]
          refine hother _ ?_
          cases dataset <;> cases hchild <;> decide
    by_cases hdataset : dataset = .pentestFindings
    · subst hdataset
      -- a finding has no rows that belong to it
      obtain rfl : left = store := by
        rcases hchildren with hsame | ⟨_, _, hchild, _⟩
        · exact hsame
        · cases hchild
      rw [storeFindings, Function.update_self, without, List.filter_filter, storeFindings]
      apply List.filter_congr
      intro record hmem
      by_cases hid : record.id = id
      · have hold : record = old :=
          Sql.Table.eq_of_key hmem (Sql.Table.mem_of_get stored)
            (hid.trans (Sql.Table.key_of_get stored).symm)
        rw [hold, own, Bool.false_and]
      · simp [hid]
    · unfold storeFindings at hleft ⊢
      rw [Function.update_of_ne (Ne.symm hdataset)]
      exact hleft

/-- Whatever is requested, and by whom, the findings of the evidence store stay as they are. -/
theorem store_findings_kept (server : Server) (store : Store) (requests : List Request) :
    storeFindings (run server store requests) = storeFindings store := by
  have halong : Along (fun store request => (handle server request store).2) (fun _ _ => True) store
      requests := along_of_forall (fun _ _ => trivial) store requests
  refine run_invariant (P := fun after => storeFindings after = storeFindings store)
    (fun after request hafter _ => ?_) halong rfl
  rcases handle_effect server request after with hsame | ⟨_, heffect⟩
  · rw [hsame]
    exact hafter
  · rw [storeFindings_effect heffect]
    exact hafter

end

end TrustPortal.Proofs.Crud
