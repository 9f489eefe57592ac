import TrustPortal.Proofs.EvidenceImport.Entries

/-!
# `TrustPortal.Proofs.EvidenceImport.Idempotent`: importing a file again

After an import without an error, the next import of the same file compares each entry with the row
that the first one left. `import_again_quiet_iff` says when it finds nothing to do: for every value of
every entry, what the database has after the first import is equal to the value of the file
(`CellStable`). There are four ways in which it is not.

* A new row was given `None` for a column with a default. The INSERT leaves the value out, so that the
  row has the default, and the next import sets the column to NULL.
* A column of integers was given a float with a fraction, which the database rounds, or a text that
  the database reads as a number and `int` does not.
* A column of floats was given `NaN`, which is not equal to itself, or such a text.
* A JSON value is equal to the stored one for Python but not in its canonical text, as `1` and `1.0`
  are. The import counts an update, and SQLAlchemy has nothing to write.

An entry comes first, then the loop over the entries, and then the plan of an import.
-/

set_option autoImplicit false

namespace TrustPortal.Proofs.EvidenceImport

open TrustPortal.EvidenceImport
open TrustPortal.Lib
open TrustPortal.Python

/-! ## An entry -/

/-- The row that an outcome leaves. -/
def Leaves (tools : Tools) (pg : Postgres) (now : Int) (model : Model) (stored : Option Row)
    (outcome : Outcome) (row : Row) : Prop :=
  match outcome with
  | .change (.create values links) => insertRow tools pg now model values links = some row
  | .change (.update old changes links) => updateRow tools pg now model old changes links = some row
  | .unchanged => stored = some row
  | .skipped => False

section
variable {tools : Tools} {pg : Postgres} {now : Int} {loader : Loader} {db db' : Database}
  {stored : Option Row} {row : Row} {entry : Entry} {values : Fields}

/-- The links are looked up in the table that they lead to. -/
private theorem syncLinks_congr
    (hids : ∀ spec, loader.link = some spec → idsOf db' spec.target = idsOf db spec.target)
    (current : List Str) : syncLinks loader db' current values = syncLinks loader db current values := by
  unfold syncLinks
  cases hlink : loader.link with
  | none => rfl
  | some spec =>
    cases values.get (str "other_data") with
    | instant t => rfl
    | json value =>
      cases value with
      | dict other => simp only [hids spec hlink]
      | _ => rfl

/-- Links that were set are not set again. -/
private theorem syncLinks_again (current : List Str) :
    (syncLinks loader db ((syncLinks loader db current values).1.getD current) values).1 = none := by
  cases hagain : (syncLinks loader db current values).1 with
  | none => exact hagain
  | some ids =>
    unfold syncLinks at hagain ⊢
    split at hagain
    · rename_i spec other hlink hother
      dsimp only at hagain ⊢
      split_ifs at hagain ⊢
      split at hagain
      · dsimp only
        split_ifs at hagain
        obtain rfl := Option.some.inj hagain
        simp
      · cases hagain
    · cases hagain

/-- What a stored row without a forbidden NULL comes to. -/
private theorem syncEntry_some
    (hnulls : ((requiredColumns loader.model).filter fun name =>
      (Dict.get Prod.fst entry.values name).isSome && entry.values.get name = .null) = [])
    (hlinks : (syncLinks loader db row.links entry.values).1 = none) :
    (syncEntry tools loader db (some row) entry).1
      = if diff tools loader.model row entry.values = [] then .unchanged
        else .change (.update row (diff tools loader.model row entry.values) none) := by
  unfold syncEntry
  simp only [hnulls, hlinks, List.isEmpty_nil, Bool.not_true, Bool.false_eq_true, if_false,
    Option.isNone_none, Bool.and_true, List.isEmpty_iff]

/-- A list that is not reported is empty. -/
private theorem eq_nil_of_not {l : List Str} (h : ¬(!l.isEmpty) = true) : l = [] :=
  List.isEmpty_iff.mp (by rwa [Bool.not_eq_true, Bool.not_eq_false'] at h)

/-- No value is missing, so that none is a forbidden NULL. -/
private theorem nulls_of_missing
    (h : ((requiredColumns loader.model).filter fun name => entry.values.get name = .null) = []) :
    ((requiredColumns loader.model).filter fun name =>
      (Dict.get Prod.fst entry.values name).isSome && entry.values.get name = .null) = [] := by
  rw [List.filter_eq_nil_iff] at h ⊢
  intro name hname hnull
  exact h name hname (Bool.and_eq_true_iff.mp hnull).2

/-- The next import compares an entry with the row that this one leaves. -/
theorem syncEntry_again (hmodel : Regular loader.model) (hentry : WellBuilt tools loader.model entry)
    (hids : ∀ spec, loader.link = some spec → idsOf db' spec.target = idsOf db spec.target)
    (hrow : Leaves tools pg now loader.model stored (syncEntry tools loader db stored entry).1 row) :
    ∃ left, (left = [] ↔ EntryStable tools loader.model stored entry.values)
      ∧ (syncEntry tools loader db' (some row) entry).1
        = if left = [] then .unchanged else .change (.update row left none) := by
  refine ⟨diff tools loader.model row entry.values, ?_⟩
  unfold syncEntry at hrow
  cases stored with
  | none =>
    dsimp only at hrow
    split_ifs at hrow with hmissing
    · exact hrow.elim
    · have hmissing := eq_nil_of_not hmissing
      have hlinks := (insertRow_eq hrow).2.1
      refine ⟨diff_insertRow hmodel hentry.values hrow,
        syncEntry_some (nulls_of_missing hmissing) ?_⟩
      rw [hlinks, syncLinks_congr hids]
      exact syncLinks_again []
  | some old =>
    dsimp only at hrow
    split_ifs at hrow with hnulls hsame
    · exact hrow.elim
    · -- unchanged
      have hnulls := eq_nil_of_not hnulls
      obtain ⟨hdiff, hlinks⟩ := Bool.and_eq_true_iff.mp hsame
      have hdiff := List.isEmpty_iff.mp hdiff
      have hlinks := Option.isNone_iff_eq_none.mp hlinks
      obtain rfl := Option.some.inj hrow
      rw [← syncLinks_congr hids] at hlinks
      exact ⟨iff_of_true hdiff (entryStable_of_diff hentry.values hdiff), syncEntry_some hnulls hlinks⟩
    · have hnulls := eq_nil_of_not hnulls
      have hlinks := (updateRow_eq hrow).2.1
      refine ⟨diff_updateRow hmodel hentry.values hrow, syncEntry_some hnulls ?_⟩
      rw [hlinks, syncLinks_congr hids]
      exact syncLinks_again old.links

/-! ## The loop over the entries -/

/-- What an entry comes to. -/
private theorem syncEntry_cases (tools : Tools) (loader : Loader) (db : Database)
    (stored : Option Row) (entry : Entry) :
    (syncEntry tools loader db stored entry).1 = .skipped
      ∨ (stored = none
        ∧ ∃ links, (syncEntry tools loader db stored entry).1 = .change (.create entry.values links))
      ∨ ∃ row, stored = some row ∧ ((syncEntry tools loader db stored entry).1 = .unchanged
        ∨ ∃ changes links,
          (syncEntry tools loader db stored entry).1 = .change (.update row changes links)) := by
  unfold syncEntry
  cases stored with
  | none =>
    dsimp only
    split_ifs
    · exact .inl rfl
    · exact .inr (.inl ⟨rfl, _, rfl⟩)
  | some row =>
    dsimp only
    split_ifs
    · exact .inl rfl
    · exact .inr (.inr ⟨row, rfl, .inl rfl⟩)
    · exact .inr (.inr ⟨row, rfl, .inr ⟨_, _, rfl⟩⟩)

/-- A skipped entry is reported. -/
private theorem problems_of_skipped (h : (syncEntry tools loader db stored entry).1 = .skipped) :
    (syncEntry tools loader db stored entry).2 ≠ [] := by
  unfold syncEntry at h ⊢
  cases stored with
  | none =>
    dsimp only at h ⊢
    split_ifs at h ⊢
    exact List.cons_ne_nil _ _
  | some row =>
    dsimp only at h ⊢
    split_ifs at h ⊢
    exact List.cons_ne_nil _ _

/-- The write of an entry leaves its row, and the other rows as they were. -/
private theorem applyChange_entry {t t' : Sql.Table Row.id} (hentry : entry.id = idOf entry.values)
    (hskip : (syncEntry tools loader db (t.get entry.id) entry).1 ≠ .skipped)
    (h : (changesOf [(syncEntry tools loader db (t.get entry.id) entry).1]).foldlM
      (applyChange tools pg now loader.model) t = some t') :
    (∃ row, t'.get entry.id = some row ∧ Leaves tools pg now loader.model (t.get entry.id)
      (syncEntry tools loader db (t.get entry.id) entry).1 row)
    ∧ ∀ id, id ≠ entry.id → t'.get id = t.get id := by
  rcases syncEntry_cases tools loader db (t.get entry.id) entry with
    hskipped | ⟨hfree, links, hcreate⟩ | ⟨old, hstored, hsame | ⟨changes, links, hupdate⟩⟩
  · exact absurd hskipped hskip
  · rw [hcreate] at h ⊢
    have happlied : applyChange tools pg now loader.model t (.create entry.values links) = some t' := by
      simpa [changesOf] using h
    obtain ⟨row, hrow, hinsert⟩ := Option.bind_eq_some_iff.mp happlied
    have hid : row.id = entry.id := (insertRow_eq hrow).1.trans hentry.symm
    refine ⟨⟨row, ?_, hrow⟩, fun id hne => ?_⟩
    · rw [Sql.Table.get_insert hinsert, if_pos hid]
    · rw [Sql.Table.get_insert hinsert, if_neg (fun heq => hne (heq.symm.trans hid))]
  · rw [hsame] at h ⊢
    obtain rfl : t = t' := by simpa [changesOf] using h
    exact ⟨⟨old, hstored, hstored⟩, fun _ _ => rfl⟩
  · rw [hupdate] at h ⊢
    have happlied : applyChange tools pg now loader.model t (.update old changes links) = some t' := by
      simpa [changesOf] using h
    obtain ⟨row, hrow, rfl⟩ := Option.map_eq_some_iff.mp happlied
    have hid : row.id = entry.id := (updateRow_eq hrow).1.trans (Sql.Table.key_of_get hstored)
    refine ⟨⟨row, ?_, hrow⟩, fun id hne => ?_⟩
    · rw [Sql.Table.get_put, if_pos hid, hstored, Option.map_some]
    · rw [Sql.Table.get_put, if_neg (fun heq => hne (heq.symm.trans hid))]

/-- The writes of the entries leave the row of each, and the other rows as they were. -/
private theorem applyChange_entries {rows : Sql.Table Row.id} (entries : List Entry)
    (hids : (entries.map Entry.id).Nodup) (hentries : ∀ entry ∈ entries, entry.id = idOf entry.values)
    (hskip : ∀ entry ∈ entries, (syncEntry tools loader db (rows.get entry.id) entry).1 ≠ .skipped)
    {t t' : Sql.Table Row.id} (hget : ∀ entry ∈ entries, t.get entry.id = rows.get entry.id)
    (h : (changesOf (entries.map fun entry =>
      (syncEntry tools loader db (rows.get entry.id) entry).1)).foldlM
        (applyChange tools pg now loader.model) t = some t') :
    (∀ entry ∈ entries, ∃ row, t'.get entry.id = some row
      ∧ Leaves tools pg now loader.model (rows.get entry.id)
        (syncEntry tools loader db (rows.get entry.id) entry).1 row)
    ∧ ∀ id, id ∉ entries.map Entry.id → t'.get id = t.get id := by
  induction entries generalizing t with
  | nil =>
    obtain rfl := Option.some.inj h
    exact ⟨fun _ hmem => absurd hmem (List.not_mem_nil), fun _ _ => rfl⟩
  | cons entry rest ih =>
    rw [List.map_cons, List.nodup_cons] at hids
    rw [List.forall_mem_cons] at hentries hskip hget
    -- the write of the first entry, and then those of the others
    rw [List.map_cons, changesOf, ← List.singleton_append, List.filterMap_append, List.foldlM_append]
      at h
    obtain ⟨t₁, hfirst, hrest⟩ := Option.bind_eq_some_iff.mp h
    rw [← hget.1] at hfirst hskip
    obtain ⟨⟨row, hrow, hleaves⟩, hothers⟩ := applyChange_entry hentries.1 hskip.1 hfirst
    have hkept : ∀ other ∈ rest, t₁.get other.id = rows.get other.id := by
      intro other hmem
      rw [← hget.2 other hmem]
      apply hothers
      intro heq
      exact hids.1 (heq ▸ List.mem_map_of_mem hmem)
    obtain ⟨hentriesAfter, hafter⟩ := ih hids.2 hentries.2 hskip.2 hkept hrest
    constructor
    · rw [List.forall_mem_cons]
      refine ⟨⟨row, ?_, hget.1 ▸ hleaves⟩, hentriesAfter⟩
      rw [hafter entry.id hids.1, hrow]
    · intro id hid
      rw [List.map_cons, List.mem_cons, not_or] at hid
      rw [hafter id hid.2, hothers id hid.1]

/-- What is read after a DELETE. -/
private theorem get_deleteIds (rows : Sql.Table Row.id) (ids : List Str) (id : Str) :
    (deleteIds rows ids).get id = if id ∈ ids then none else rows.get id := by
  have hfilter : (deleteIds rows ids).get id = (rows.get id).filter fun row => row.id ∉ ids :=
    Dict.get_filter rows.nodup _
  rw [hfilter]
  cases hget : rows.get id with
  | none => simp
  | some row =>
    obtain rfl := Sql.Table.key_of_get hget
    by_cases hid : row.id ∈ ids <;> simp [hid, Option.filter]

end

/-! ## A plan -/

/-- An import has nothing to do. -/
def Quiet (result : ImportCounts × Plan) : Prop :=
  result.1.created = 0 ∧ result.1.updated = 0 ∧ result.1.deleted = 0 ∧ result.2 = ⟨[], []⟩

section
variable {importer : Importer} {now : Int} {loader : Loader} {db db' : Database}
  {rows rows' : Sql.Table Row.id} {built : Built} {owned fileIds : List Str}

/-- The outcomes of the entries. -/
private def outcomesOf (importer : Importer) (loader : Loader) (db : Database)
    (rows : Sql.Table Row.id) (entries : List Entry) : List Outcome :=
  entries.map fun entry => (syncEntry importer.tools loader db (rows.get entry.id) entry).1

/-- What `_sync_records` returns. -/
private theorem syncRecords_fst (entries : List Entry) :
    (syncRecords importer loader db rows entries).1 = outcomesOf importer loader db rows entries := by
  rw [syncRecords, outcomesOf, List.map_map]
  rfl

/-- The counts and the writes of the entries of a file. -/
private theorem planOf_entries : planOf importer loader db rows (.entries built owned fileIds)
    = (⟨createdCount (outcomesOf importer loader db rows built.entries),
        updatedCount (outcomesOf importer loader db rows built.entries),
        unchangedCount (outcomesOf importer loader db rows built.entries),
        (staleRows rows owned fileIds).length,
        built.skipped + skippedCount (outcomesOf importer loader db rows built.entries),
        (staleRows rows owned fileIds).countP fun row =>
          row.values (str "source_file") ≠ .json (.str (owned.headD [])),
        built.errors ++ (syncRecords importer loader db rows built.entries).2⟩,
      ⟨changesOf (outcomesOf importer loader db rows built.entries),
        (staleRows rows owned fileIds).map Row.id⟩) := by
  rw [← syncRecords_fst]
  rfl

/-- Without an error nothing is skipped. -/
private theorem not_skipped (entries : List Entry)
    (h : (syncRecords importer loader db rows entries).2 = []) : ∀ entry ∈ entries,
      (syncEntry importer.tools loader db (rows.get entry.id) entry).1 ≠ .skipped := by
  intro entry hmem hskipped
  apply problems_of_skipped hskipped
  have hproblems := List.flatMap_eq_nil_iff.mp h (entry, syncEntry importer.tools loader db
    (rows.get entry.id) entry) (List.mem_map_of_mem hmem)
  exact List.map_eq_nil_iff.mp hproblems

/-- The findings that are deleted are not of the file. -/
private theorem notMem_staleRows {entry : Entry} (h : owned = [] ∨ entry.id ∈ fileIds) :
    entry.id ∉ (staleRows rows owned fileIds).map Row.id := by
  intro hmem
  obtain ⟨row, hstale, hid⟩ := List.mem_map.mp hmem
  obtain ⟨_, hstale⟩ := List.mem_filter.mp hstale
  obtain ⟨hnotMem, howned⟩ := of_decide_eq_true hstale
  rcases h with rfl | hfile
  · exact Bool.noConfusion howned
  · exact hnotMem (hid ▸ hfile)

/-- The rows after an import: those of the entries, and of the others those that are not deleted. -/
private theorem rows_after (hread : WellRead importer.tools loader.model built owned fileIds)
    (hskip : ∀ entry ∈ built.entries,
      (syncEntry importer.tools loader db (rows.get entry.id) entry).1 ≠ .skipped)
    (hflush : flush importer.tools importer.pg now loader.model rows
      ⟨changesOf (outcomesOf importer loader db rows built.entries),
        (staleRows rows owned fileIds).map Row.id⟩ = some rows') :
    (∀ entry ∈ built.entries, ∃ row, rows'.get entry.id = some row
      ∧ Leaves importer.tools importer.pg now loader.model (rows.get entry.id)
        (syncEntry importer.tools loader db (rows.get entry.id) entry).1 row)
    ∧ ∀ row ∈ rows'.rows, row.id ∉ (staleRows rows owned fileIds).map Row.id
      ∧ (row.id ∉ built.entries.map Entry.id → row ∈ rows.rows) := by
  obtain ⟨t, hchanges, rfl⟩ := Option.map_eq_some_iff.mp hflush
  obtain ⟨hentries, hothers⟩ := applyChange_entries built.entries hread.ids
    (fun entry hmem => (hread.entries entry hmem).id) hskip (fun _ _ => rfl) hchanges
  constructor
  · intro entry hmem
    obtain ⟨row, hrow, hleaves⟩ := hentries entry hmem
    refine ⟨row, ?_, hleaves⟩
    rw [get_deleteIds, if_neg (notMem_staleRows (hread.kept entry hmem)), hrow]
  · intro row hmem
    have hget := Sql.Table.get_of_mem hmem
    rw [get_deleteIds] at hget
    split_ifs at hget with hstale
    refine ⟨hstale, fun hnew => ?_⟩
    rw [hothers row.id hnew] at hget
    exact Sql.Table.mem_of_get hget

/-- Nothing is stale after an import. -/
private theorem staleRows_again (hread : WellRead importer.tools loader.model built owned fileIds)
    (hafter : ∀ row ∈ rows'.rows, row.id ∉ (staleRows rows owned fileIds).map Row.id
      ∧ (row.id ∉ built.entries.map Entry.id → row ∈ rows.rows)) :
    staleRows rows' owned fileIds = [] := by
  rw [staleRows, List.filter_eq_nil_iff]
  intro row hmem hstale
  obtain ⟨hnotMem, howned⟩ := of_decide_eq_true hstale
  obtain ⟨hdeleted, hbefore⟩ := hafter row hmem
  apply hdeleted
  apply List.mem_map_of_mem
  refine List.mem_filter.mpr ⟨hbefore fun hentry => ?_, hstale⟩
  obtain ⟨entry, hentryMem, hid⟩ := List.mem_map.mp hentry
  rcases hread.kept entry hentryMem with rfl | hfile
  · exact Bool.noConfusion howned
  · exact hnotMem (hid ▸ hfile)

/-- What the counts and the changes of outcomes say. -/
private theorem quiet_outcomes {outcomes : List Outcome} (h : ∀ outcome ∈ outcomes,
    outcome = .unchanged ∨ ∃ row changes, outcome = .change (.update row changes none)) :
    createdCount outcomes = 0 ∧ (updatedCount outcomes = 0 ∧ changesOf outcomes = []
      ↔ ∀ outcome ∈ outcomes, outcome = .unchanged) := by
  rw [createdCount, updatedCount, changesOf, List.countP_eq_zero, List.countP_eq_zero,
    List.filterMap_eq_nil_iff]
  refine ⟨fun outcome hmem => ?_, ⟨fun hquiet outcome hmem => ?_, fun hsame => ⟨?_, ?_⟩⟩⟩
  · rcases h outcome hmem with rfl | ⟨row, changes, rfl⟩ <;> exact Bool.false_ne_true
  · rcases h outcome hmem with rfl | ⟨row, changes, rfl⟩
    · rfl
    · exact absurd rfl (hquiet.1 _ hmem)
  · intro outcome hmem
    rw [hsame outcome hmem]
    exact Bool.false_ne_true
  · intro outcome hmem
    rw [hsame outcome hmem]

/-- The next import of the entries of a file. -/
private theorem plan_again (hmodel : Regular loader.model)
    (hread : WellRead importer.tools loader.model built owned fileIds)
    (hlinks : ∀ spec, loader.link = some spec → idsOf db' spec.target = idsOf db spec.target)
    {counts : ImportCounts} {plan : Plan}
    (hplan : planOf importer loader db rows (.entries built owned fileIds) = (counts, plan))
    (herrors : counts.errors = [])
    (hflush : flush importer.tools importer.pg now loader.model rows plan = some rows') :
    Quiet (planOf importer loader db' rows' (.entries built owned fileIds))
      ↔ ∀ entry ∈ built.entries,
        EntryStable importer.tools loader.model (rows.get entry.id) entry.values := by
  rw [planOf_entries] at hplan
  obtain ⟨rfl, rfl⟩ := Prod.mk.inj hplan.symm
  have hskip := not_skipped built.entries (List.append_eq_nil_iff.mp herrors).2
  obtain ⟨hentries, hafter⟩ := rows_after hread hskip hflush
  have hstale := staleRows_again hread hafter
  -- every entry is compared with the row that it left
  have hagain : ∀ entry ∈ built.entries, ∃ row left,
      (left = [] ↔ EntryStable importer.tools loader.model (rows.get entry.id) entry.values)
      ∧ (syncEntry importer.tools loader db' (rows'.get entry.id) entry).1
        = if left = [] then .unchanged else .change (.update row left none) := by
    intro entry hmem
    obtain ⟨row, hrow, hleaves⟩ := hentries entry hmem
    rw [hrow]
    obtain ⟨left, hleft⟩ := syncEntry_again hmodel (hread.entries entry hmem) hlinks hleaves
    exact ⟨row, left, hleft⟩
  have houtcomes : ∀ outcome ∈ outcomesOf importer loader db' rows' built.entries,
      outcome = .unchanged ∨ ∃ row changes, outcome = .change (.update row changes none) := by
    intro outcome hmem
    obtain ⟨entry, hentry, rfl⟩ := List.mem_map.mp hmem
    obtain ⟨row, left, _, houtcome⟩ := hagain entry hentry
    rw [houtcome]
    split_ifs
    · exact .inl rfl
    · exact .inr ⟨row, left, rfl⟩
  obtain ⟨hcreated, hquiet⟩ := quiet_outcomes houtcomes
  have hstable : (∀ outcome ∈ outcomesOf importer loader db' rows' built.entries,
      outcome = .unchanged) ↔ ∀ entry ∈ built.entries,
        EntryStable importer.tools loader.model (rows.get entry.id) entry.values := by
    rw [outcomesOf, List.forall_mem_map]
    refine forall₂_congr fun entry hmem => ?_
    obtain ⟨row, left, hleft, houtcome⟩ := hagain entry hmem
    rw [houtcome, ← hleft]
    split_ifs with hnil
    · exact iff_of_true rfl hnil
    · refine iff_of_false ?_ hnil
      rintro ⟨⟩
  rw [← hstable, ← hquiet, Quiet, planOf_entries, hstale]
  constructor
  · rintro ⟨_, hupdated, _, hplan⟩
    exact ⟨hupdated, congrArg Plan.changes hplan⟩
  · rintro ⟨hupdated, hchanges⟩
    refine ⟨hcreated, hupdated, rfl, ?_⟩
    rw [hchanges]
    rfl

/-! ## The import of a file -/

/-- After an import the rows of the entries of the file have its values. -/
def FileStable (importer : Importer) (db : Database) (dataset : Dataset) (path : Str) (data : Bytes)
    (name : Option Str) : Prop :=
  ∀ built owned fileIds,
    readContent importer db dataset path data name = some (.entries built owned fileIds) →
      ∀ entry ∈ built.entries,
        EntryStable importer.tools dataset.model ((db dataset).get entry.id) entry.values

/-- The ids of the findings of the file are different: `sha256` and `uuid5` do not give two of them
the same. -/
def NoCollision (importer : Importer) (db : Database) (dataset : Dataset) (path : Str) (data : Bytes)
    (name : Option Str) : Prop :=
  ∀ built owned fileIds,
    readContent importer db dataset path data name = some (.entries built owned fileIds) →
      fileIds.Nodup

/-- After an import without an error, the next one of the same file has nothing to do exactly if the
rows have the values of the file. -/
theorem import_again_quiet_iff {dataset : Dataset} {path : Str} {data : Bytes} {name : Option Str}
    {counts : ImportCounts}
    (h : importDatasetFile importer now db dataset path data name = some (counts, db'))
    (herrors : counts.errors = [])
    (hids : NoCollision importer db dataset path data name) :
    (∃ again, planImport importer db' dataset path data name = some again ∧ Quiet again)
      ↔ FileStable importer db dataset path data name := by
  obtain ⟨⟨_, plan⟩, hplan, h⟩ := Option.bind_eq_some_iff.mp h
  obtain ⟨rows', hflush, h⟩ := Option.bind_eq_some_iff.mp h
  obtain ⟨rfl, rfl⟩ := Prod.mk.inj (Option.some.inj h)
  obtain ⟨content, hcontent, hplan⟩ := Option.map_eq_some_iff.mp hplan
  rw [planImport, readContent_update, hcontent, Option.map_some, Function.update_self]
  cases content with
  | skipped errors =>
    -- the file is skipped again
    refine iff_of_true ⟨_, rfl, rfl, rfl, rfl, rfl⟩ ?_
    intro built owned fileIds hentries
    rw [hcontent] at hentries
    cases hentries
  | entries built owned fileIds =>
    have hmodel : (loaderFor importer dataset).model = dataset.model := loaderFor_model
    have hread := readContent_wellRead hcontent (hids built owned fileIds hcontent)
    rw [← hmodel] at hread hflush
    have hlinks : ∀ spec, (loaderFor importer dataset).link = some spec →
        idsOf (Function.update db dataset rows') spec.target = idsOf db spec.target := idsOf_update
    have hquiet := plan_again (hmodel ▸ regular_model dataset) hread hlinks hplan herrors hflush
    rw [hmodel] at hquiet
    constructor
    · rintro ⟨_, hagain, hnothing⟩
      obtain rfl := Option.some.inj hagain
      intro built' owned' fileIds' hcontent'
      obtain ⟨rfl, rfl, rfl⟩ := Content.entries.inj (Option.some.inj (hcontent.symm.trans hcontent'))
      exact hquiet.mp hnothing
    · intro hstable
      exact ⟨_, rfl, hquiet.mpr (hstable built owned fileIds hcontent)⟩

end

/-! ## Two files of controls -/

/-- An importer for texts in ASCII and no dates. -/
def asciiImporter : Importer where
  tools :=
    { py := { readerDepth := 100, writerDepth := 100, float := fun _ => floatNaN, strOf := fun _ => [],
              fromTimestamp := fun _ => none, fromIsoformat := fun _ => none }
      numbers := { whole := fun _ => none, ofInt := fun _ => none, ofText := fun _ => none }
      tables := TextTables.ascii
      isoDate := fun _ => none
      strptimeDate := fun _ => none }
  urls := { lower := id, nfkc := id, isIPv6 := fun _ => false }
  pg :=
    { textOk := fun _ => true, jsonOk := fun _ => true, instantOk := fun _ => true,
      roundFloat := fun _ => none, readInteger := fun _ => none, readFloat := fun _ => none }
  sha256 := id
  uuid5 := fun space text => space ++ text

/-- A database without rows. -/
def noRows : Database := fun _ => Sql.Table.empty Row.id

/-- A control whose state is `null`. -/
def nullStateFile : Bytes :=
  encodePass (str "[\x7b\"id\": \"c1\", \"name\": \"n\", \"tsc_category\": \"security\", \"state\": null\x7d]")

/-- The import gives the control the default state, and the next import sets the state to NULL. -/
theorem null_is_not_quiet : ¬∀ (importer : Importer) (now : Int) (db : Database) (dataset : Dataset)
    (path : Str) (data : Bytes) (name : Option Str) (counts : ImportCounts) (db' : Database),
    importDatasetFile importer now db dataset path data name = some (counts, db') →
      counts.errors = [] →
        ∃ again, planImport importer db' dataset path data name = some again ∧ Quiet again := by
  intro hclaim
  have hrun : ((importDatasetFile asciiImporter 0 noRows .controls [] nullStateFile none).bind
      fun (counts, db') => (planImport asciiImporter db' .controls [] nullStateFile none).map
        fun again => (counts.errors.length, again.1.updated)) = some (0, 1) := by decide +kernel
  obtain ⟨⟨counts, db'⟩, himport, hagain⟩ := Option.bind_eq_some_iff.mp hrun
  obtain ⟨again, hagain, hcounts⟩ := Option.map_eq_some_iff.mp hagain
  obtain ⟨herrors, hupdated⟩ := Prod.mk.inj hcounts
  obtain ⟨again', hagain', _, hnone, _⟩ := hclaim asciiImporter 0 noRows .controls [] nullStateFile none
    counts db' himport (List.length_eq_zero_iff.mp herrors)
  obtain rfl := Option.some.inj (hagain.symm.trans hagain')
  omega

/-- A control with a value for each column that needs one. -/
def controlFile : Bytes :=
  encodePass (str "[\x7b\"id\": \"c1\", \"name\": \"n\", \"tsc_category\": \"security\"\x7d]")

/-- The exact condition for a file that imports. -/
theorem import_again_quiet_iff_control : ∃ counts db',
    importDatasetFile asciiImporter 0 noRows .controls [] controlFile none = some (counts, db')
      ∧ ((∃ again, planImport asciiImporter db' .controls [] controlFile none = some again
          ∧ Quiet again) ↔ FileStable asciiImporter noRows .controls [] controlFile none) := by
  have hrun : (importDatasetFile asciiImporter 0 noRows .controls [] controlFile none).map
      (fun result => result.1.errors.length) = some 0 := by decide +kernel
  obtain ⟨⟨counts, db'⟩, himport, herrors⟩ := Option.map_eq_some_iff.mp hrun
  refine ⟨counts, db', himport, import_again_quiet_iff himport (List.length_eq_zero_iff.mp herrors) ?_⟩
  intro built owned fileIds hcontent
  rw [readContent_fileIds (by decide) hcontent]
  exact List.nodup_nil

end TrustPortal.Proofs.EvidenceImport
