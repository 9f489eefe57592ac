import TrustPortal.Proofs.EvidenceImport.Stored

/-!
# `TrustPortal.Proofs.EvidenceImport.Entries`: the entries of a file

The loaders make records with a value for each of different columns, and the import coerces each value
to the type of its column. So the entries of a file are `WellBuilt`, and `readContent_wellRead` says the
same of what an import reads. What it reads does not depend on the table that it writes
(`readContent_update`).
-/

set_option autoImplicit false

namespace TrustPortal.Proofs.EvidenceImport

open TrustPortal.EvidenceImport
open TrustPortal.Lib
open TrustPortal.Python

/-- An entry has the id of its values, which are in different columns. -/
structure WellBuilt (tools : Tools) (model : Model) (entry : Entry) : Prop where
  id : entry.id = idOf entry.values
  values : Coerced tools model entry.values

/-- The entries of a file have different ids, and the file keeps the findings that it has. -/
structure WellRead (tools : Tools) (model : Model) (built : Built) (owned fileIds : List Str) :
    Prop where
  ids : (built.entries.map Entry.id).Nodup
  entries : ∀ entry ∈ built.entries, WellBuilt tools model entry
  kept : ∀ entry ∈ built.entries, owned = [] ∨ entry.id ∈ fileIds

/-! ## Records -/

section
variable {tools : Tools} {urls : UrlTables} {model : Model} {loader : Loader} {db : Database}

/-- The names of the coerced values. -/
private theorem coerceRecord_names {fields values : Fields}
    (h : coerceRecord tools model fields = some values) :
    (values.map Prod.fst).Sublist (fields.map Prod.fst) := by
  induction fields generalizing values with
  | nil =>
    obtain rfl := Option.some.inj h
    exact List.Sublist.refl _
  | cons field rest ih =>
    obtain ⟨name, item⟩ := field
    unfold coerceRecord at h
    split at h
    · obtain ⟨value, _, h⟩ := Option.bind_eq_some_iff.mp h
      obtain ⟨behind, hbehind, h⟩ := Option.bind_eq_some_iff.mp h
      obtain rfl := Option.some.inj h
      exact (ih hbehind).cons_cons name
    · exact (ih h).cons name

/-- The coerced values. -/
private theorem coerceRecord_columns {fields values : Fields}
    (h : coerceRecord tools model fields = some values) : ∀ name new, (name, new) ∈ values →
      ∃ column raw, model.column name = some column ∧ (name, raw) ∈ fields
        ∧ coerceValue tools column.type raw = some new := by
  induction fields generalizing values with
  | nil =>
    obtain rfl := Option.some.inj h
    exact fun _ _ hmem => absurd hmem List.not_mem_nil
  | cons field rest ih =>
    obtain ⟨name, item⟩ := field
    unfold coerceRecord at h
    split at h
    · rename_i column hcolumn
      obtain ⟨value, hvalue, h⟩ := Option.bind_eq_some_iff.mp h
      obtain ⟨behind, hbehind, h⟩ := Option.bind_eq_some_iff.mp h
      obtain rfl := Option.some.inj h
      intro other new hmem
      rcases List.mem_cons.mp hmem with heq | hmem
      · obtain ⟨rfl, rfl⟩ := Prod.mk.inj heq
        exact ⟨column, item, hcolumn, List.mem_cons_self, hvalue⟩
      · obtain ⟨column', raw, hcolumn', hraw, hnew⟩ := ih hbehind other new hmem
        exact ⟨column', raw, hcolumn', List.mem_cons_of_mem _ hraw, hnew⟩
    · intro other new hmem
      obtain ⟨column', raw, hcolumn', hraw, hnew⟩ := ih h other new hmem
      exact ⟨column', raw, hcolumn', List.mem_cons_of_mem _ hraw, hnew⟩

/-- A coerced record. -/
private theorem coerced_coerceRecord {fields values : Fields}
    (hnames : (fields.map Prod.fst).Nodup) (h : coerceRecord tools model fields = some values) :
    Coerced tools model values where
  names := hnames.sublist (coerceRecord_names h)
  columns name new hmem := by
    obtain ⟨column, raw, hcolumn, _, hnew⟩ := coerceRecord_columns h name new hmem
    exact ⟨column, raw, hcolumn, hnew⟩

/-- A record has a value more. -/
private theorem nodup_set {fields : Fields} (h : (fields.map Prod.fst).Nodup) (name : Str)
    (item : Item) : ((Fields.set fields name item).map Prod.fst).Nodup := Dict.nodup_put h

/-- The records of a loader have different columns. -/
private structure DistinctColumns (loader : Loader) : Prop where
  build : ∀ members, ((loader.build members).map Prod.fst).Nodup
  resolve : ∀ db members record resolved warnings, (record.map Prod.fst).Nodup →
    loader.resolve db members record = some (.ok (resolved, warnings)) →
      (resolved.map Prod.fst).Nodup

/-- `_build_record` sets each column once. -/
private theorem nodup_buildRecord (model : Model) (fieldMap : List (String × String))
    (maps : List (String × List (String × String))) (item : Members) :
    ((buildRecord tools model fieldMap maps item).map Prod.fst).Nodup := by
  apply nodup_set
  apply List.foldlRecOn (motive := fun b : Building => (b.record.map Prod.fst).Nodup)
  · exact List.nodup_nil
  · intro b hb entry _
    dsimp only
    split_ifs
    · exact hb
    · -- `other_data` is not a column to set
      split <;> exact hb
    · split
      · exact nodup_set hb _ _
      · exact hb

/-- `EvidenceLoader._build_record` sets each column once. -/
private theorem nodup_buildEvidence (uuid5 : Uuid5) (item : Members) :
    ((buildEvidence tools uuid5 item).map Prod.fst).Nodup := by
  apply nodup_set
  apply List.foldlRecOn (motive := fun b : Building => (b.record.map Prod.fst).Nodup)
  · exact List.nodup_singleton _
  · intro b hb entry _
    dsimp only
    split_ifs
    · exact hb
    · -- `other_data` is not a column to set
      split <;> exact hb
    · split
      · exact nodup_set hb _ _
      · exact hb

/-- References that are not checked. -/
private theorem nodup_noReferences (db : Database) (members : Members) {record resolved : Fields}
    {warnings : List Problem} (hrecord : (record.map Prod.fst).Nodup)
    (h : noReferences db members record = some (.ok (resolved, warnings))) :
    (resolved.map Prod.fst).Nodup := by
  obtain ⟨rfl, _⟩ := Prod.mk.inj (Except.ok.inj (Option.some.inj h))
  exact hrecord

/-- The system of a record is kept or set to null. -/
private theorem nodup_resolveSystem {record resolved : Fields} {warnings : List Problem}
    (hrecord : (record.map Prod.fst).Nodup)
    (h : resolveTest.resolveSystem db record = some (.ok (resolved, warnings))) :
    (resolved.map Prod.fst).Nodup := by
  unfold resolveTest.resolveSystem at h
  dsimp only at h
  split_ifs at h
  · obtain ⟨rfl, _⟩ := Prod.mk.inj (Except.ok.inj (Option.some.inj h))
    exact hrecord
  · obtain ⟨known, _, h⟩ := Option.map_eq_some_iff.mp h
    split_ifs at h
    · obtain ⟨rfl, _⟩ := Prod.mk.inj (Except.ok.inj h)
      exact hrecord
    · obtain ⟨rfl, _⟩ := Prod.mk.inj (Except.ok.inj h)
      exact nodup_set hrecord _ _

/-- `TestsLoader.resolve_references`. -/
private theorem nodup_resolveTest {record resolved : Fields} {warnings : List Problem}
    (hrecord : (record.map Prod.fst).Nodup)
    (h : resolveTest db record = some (.ok (resolved, warnings))) :
    (resolved.map Prod.fst).Nodup := by
  unfold resolveTest at h
  dsimp only at h
  split_ifs at h
  · cases h
  · obtain ⟨known, _, h⟩ := Option.bind_eq_some_iff.mp h
    split_ifs at h
    · exact nodup_resolveSystem hrecord h
    · cases h

/-- `EvidenceLoader.resolve_references`. -/
private theorem nodup_resolveEvidence {members : Members} {record resolved : Fields}
    {warnings : List Problem} (hrecord : (record.map Prod.fst).Nodup)
    (h : resolveEvidence db members record = .ok (resolved, warnings)) :
    (resolved.map Prod.fst).Nodup := by
  have hwith : ∀ testName controlName,
      resolveEvidence.resolveWith db record testName controlName = .ok (resolved, warnings) →
        (resolved.map Prod.fst).Nodup := by
    intro testName controlName hresolved
    unfold resolveEvidence.resolveWith at hresolved
    split at hresolved
    · obtain ⟨rfl, _⟩ := Prod.mk.inj (Except.ok.inj hresolved)
      exact nodup_set hrecord _ _
    · cases hresolved
  unfold resolveEvidence at h
  split at h
  · exact hwith _ _ h
  · exact hwith _ _ h
  · cases h

/-- The loaders of the datasets whose file is a list. -/
private theorem distinctColumns_listLoader {importer : Importer} {dataset : Dataset}
    (h : listLoader importer dataset = some loader) : DistinctColumns loader := by
  cases dataset with
  | controls =>
    obtain rfl := Option.some.inj h
    exact ⟨fun _ => nodup_buildRecord .., fun db members _ _ _ => nodup_noReferences db members⟩
  | systems =>
    obtain rfl := Option.some.inj h
    exact ⟨fun _ => nodup_buildRecord .., fun db members _ _ _ => nodup_noReferences db members⟩
  | tests =>
    obtain rfl := Option.some.inj h
    exact ⟨fun _ => nodup_buildRecord .., fun _ _ _ _ _ => nodup_resolveTest⟩
  | policies =>
    obtain rfl := Option.some.inj h
    exact ⟨fun _ => nodup_buildRecord .., fun db members _ _ _ => nodup_noReferences db members⟩
  | vendors =>
    obtain rfl := Option.some.inj h
    exact ⟨fun _ => nodup_buildRecord .., fun db members _ _ _ => nodup_noReferences db members⟩
  | evidence =>
    obtain rfl := Option.some.inj h
    exact ⟨fun _ => nodup_buildEvidence .., fun _ _ _ _ _ hrecord h =>
      nodup_resolveEvidence hrecord (Option.some.inj h)⟩
  | riskRegister =>
    obtain rfl := Option.some.inj h
    exact ⟨fun _ => nodup_buildRecord .., fun db members _ _ _ => nodup_noReferences db members⟩
  | pentestFindings => cases h

/-! ## A file with a list -/

/-- The values of an item. -/
private theorem coerced_buildItem (hloader : DistinctColumns loader) {item : Value} {values : Fields}
    {warnings : List Problem}
    (h : buildItem tools urls loader db item = some (.ok (values, warnings))) :
    Coerced tools loader.model values := by
  unfold buildItem at h
  split at h
  · rename_i members
    dsimp only at h
    split_ifs at h
    · cases h
    obtain ⟨result, hresult, h⟩ := Option.bind_eq_some_iff.mp h
    split at h
    · cases h
    · rename_i resolved said
      have hnames := hloader.resolve db members _ resolved said (hloader.build members) hresult
      obtain ⟨coerced, hcoerced, h⟩ := Option.bind_eq_some_iff.mp h
      split at h
      · cases h
      · obtain ⟨bad, _, h⟩ := Option.bind_eq_some_iff.mp h
        split at h
        · cases h
        · obtain ⟨rfl, _⟩ := Prod.mk.inj (Except.ok.inj (Option.some.inj h))
          exact coerced_coerceRecord hnames hcoerced
  · cases h

/-- The entries so far. -/
private def GoodEntries (tools : Tools) (model : Model) (entries : List Entry) : Prop :=
  (entries.map Entry.id).Nodup ∧ ∀ entry ∈ entries, WellBuilt tools model entry

/-- A round of the loop keeps the entries good. -/
private theorem goodEntries_buildStep (hloader : DistinctColumns loader) {built built' : Built}
    {index : Nat} {item : Value} (hgood : GoodEntries tools loader.model built.entries)
    (h : buildStep tools urls loader db built index item = some built') :
    GoodEntries tools loader.model built'.entries := by
  obtain ⟨result, hresult, rfl⟩ := Option.map_eq_some_iff.mp h
  cases result with
  | error problem => exact hgood
  | ok result =>
    obtain ⟨values, warnings⟩ := result
    have hentry : WellBuilt tools loader.model ⟨index, idOf values, values⟩ :=
      ⟨rfl, coerced_buildItem hloader hresult⟩
    dsimp only
    split_ifs with hdup
    · refine ⟨Dict.nodup_put hgood.1, fun entry hmem => ?_⟩
      rcases Dict.mem_put hmem with rfl | hold
      · exact hentry
      · exact hgood.2 entry hold
    · constructor
      · rw [List.map_append, List.map_singleton]
        exact hgood.1.append (List.nodup_singleton _) (List.disjoint_singleton.mpr hdup)
      · intro entry hmem
        rcases List.mem_append.mp hmem with hold | hnew
        · exact hgood.2 entry hold
        · rw [List.mem_singleton.mp hnew]
          exact hentry

/-- The loop keeps the entries good. -/
private theorem goodEntries_buildItems (hloader : DistinctColumns loader) (items : List Value)
    {built built' : Built} {index : Nat}
    (h : buildItems tools urls loader db built index items = some built')
    (hgood : GoodEntries tools loader.model built.entries) :
    GoodEntries tools loader.model built'.entries := by
  induction items generalizing built index with
  | nil =>
    obtain rfl := Option.some.inj h
    exact hgood
  | cons item rest ih =>
    obtain ⟨next, hstep, hrest⟩ := Option.bind_eq_some_iff.mp h
    exact ih hrest (goodEntries_buildStep hloader hgood hstep)

/-! ## A file of findings -/

/-- The columns of a finding. -/
private theorem findingRecord_names {id sourceFile : Str} {scan : Scan} {finding : Members}
    {record : Fields} (h : findingRecord tools id sourceFile scan finding = some record) :
    (record.map Prod.fst).Nodup ∧ idOf record = id := by
  obtain ⟨remediation, _, rfl⟩ := Option.map_eq_some_iff.mp h
  constructor
  · simp only [List.map_cons, List.map_nil]
    decide
  · rfl

/-- The id of a record is a text before it is coerced. -/
private theorem idOf_coerceRecord {record values : Fields} {id : Str}
    (h : coerceRecord tools PentestFinding ((str "id", .json (.str id)) :: record) = some values) :
    idOf values = id := by
  obtain ⟨behind, _, h⟩ := Option.bind_eq_some_iff.mp h
  obtain rfl := Option.some.inj h
  rfl

/-- A round of the loop over the records of a file. -/
private theorem findingStep_entries {built built' : Built} {index : Nat} {record : Fields}
    {id sourceFile : Str} {scan : Scan} {finding : Members}
    (hrecord : findingRecord tools id sourceFile scan finding = some record)
    (h : findingStep tools built index record = some built') :
    built'.entries = built.entries ∨ ∃ entry, built'.entries = built.entries ++ [entry]
      ∧ entry.id = idOf record ∧ WellBuilt tools PentestFinding entry := by
  obtain ⟨values, hvalues, rfl⟩ := Option.map_eq_some_iff.mp h
  obtain ⟨hnames, hid⟩ := findingRecord_names hrecord
  split
  · exact .inl rfl
  · refine .inr ⟨_, rfl, ?_, rfl, coerced_coerceRecord hnames hvalues⟩
    rw [hid]
    obtain ⟨remediation, _, rfl⟩ := Option.map_eq_some_iff.mp hrecord
    exact idOf_coerceRecord hvalues

/-- The loop over the records of a file. -/
private theorem findingEntries_entries {sourceFile : Str} {scan : Scan} (records : List Fields)
    (hrecords : ∀ record ∈ records, ∃ id finding,
      findingRecord tools id sourceFile scan finding = some record)
    {built built' : Built} {index : Nat}
    (h : findingEntries tools built index records = some built') :
    ∃ entries, built'.entries = built.entries ++ entries
      ∧ (entries.map Entry.id).Sublist (records.map idOf)
      ∧ ∀ entry ∈ entries, WellBuilt tools PentestFinding entry := by
  induction records generalizing built index with
  | nil =>
    obtain rfl := Option.some.inj h
    exact ⟨[], (List.append_nil _).symm, List.Sublist.refl _, fun _ hmem =>
      absurd hmem List.not_mem_nil⟩
  | cons record rest ih =>
    rw [List.forall_mem_cons] at hrecords
    obtain ⟨⟨id, finding, hrecord⟩, hrest⟩ := hrecords
    obtain ⟨next, hstep, h⟩ := Option.bind_eq_some_iff.mp h
    obtain ⟨entries, hentries, hids, hgood⟩ := ih hrest h
    rcases findingStep_entries hrecord hstep with hsame | ⟨entry, hentry, hid, hbuilt⟩
    · rw [hsame] at hentries
      exact ⟨entries, hentries, hids.cons _, hgood⟩
    · rw [hentry, List.append_assoc] at hentries
      refine ⟨entry :: entries, hentries, ?_, List.forall_mem_cons.mpr ⟨hbuilt, hgood⟩⟩
      rw [List.map_cons, List.map_cons, hid]
      exact hids.cons_cons _

/-- The records of a file. -/
private theorem findingRecord_of_mem {stored : Str} {scan : Scan} (findings : List (Str × Members))
    {records : List Fields} (h : (findings.mapM fun (id, finding) =>
      findingRecord tools id stored scan finding) = some records) :
    ∀ record ∈ records, ∃ id finding, findingRecord tools id stored scan finding = some record := by
  induction findings generalizing records with
  | nil =>
    rw [List.mapM_nil] at h
    obtain rfl := Option.some.inj h
    exact fun _ hmem => absurd hmem List.not_mem_nil
  | cons finding rest ih =>
    rw [List.mapM_cons] at h
    obtain ⟨first, hfirst, h⟩ := Option.bind_eq_some_iff.mp h
    obtain ⟨others, hothers, h⟩ := Option.bind_eq_some_iff.mp h
    obtain rfl := Option.some.inj h
    rw [List.forall_mem_cons]
    exact ⟨⟨finding.1, finding.2, hfirst⟩, ih hothers⟩

/-- The records that a file gives. -/
private theorem buildFileRecords_records {sha256 : HexSha256} {uuid5 : Uuid5} {path : Str}
    {scanData : Value} {name : Option Str} {sourceFile : Str} {records : List Fields}
    (h : buildFileRecords tools sha256 uuid5 path scanData name
      = some (.ok (sourceFile, some records))) :
    ∃ scan, ∀ record ∈ records, ∃ id finding,
      findingRecord tools id (namespaced sourceFile name) scan finding = some record := by
  unfold buildFileRecords at h
  split at h
  · cases h
  · cases h
  · split at h
    · cases h
    · obtain ⟨built, hbuilt, h⟩ := Option.map_eq_some_iff.mp h
      obtain ⟨rfl, hrecords⟩ := Prod.mk.inj (Except.ok.inj h)
      obtain rfl := Option.some.inj hrecords
      exact ⟨_, findingRecord_of_mem _ hbuilt⟩
    · cases h
  · cases h

end

/-! ## What an import reads -/

section
variable {importer : Importer} {db : Database} {dataset : Dataset} {path : Str} {data : Bytes}
  {name : Option Str} {built : Built} {owned fileIds : List Str}

/-- The model of a loader. -/
theorem loaderFor_model : (loaderFor importer dataset).model = dataset.model := by
  cases dataset <;> rfl

/-- The entries of a list. -/
private theorem wellRead_listContent {loader : Loader} (hloader : DistinctColumns loader)
    {parsed : Value} (h : listContent importer loader db parsed = some (.entries built owned fileIds)) :
    WellRead importer.tools loader.model built owned fileIds := by
  unfold listContent at h
  split at h
  · obtain ⟨built', hbuilt, hcontent⟩ := Option.map_eq_some_iff.mp h
    obtain ⟨rfl, rfl, rfl⟩ := Content.entries.inj hcontent
    have hgood := goodEntries_buildItems hloader _ hbuilt ⟨List.nodup_nil, fun _ hmem =>
      absurd hmem List.not_mem_nil⟩
    exact ⟨hgood.1, hgood.2, fun _ _ => .inl rfl⟩
  · cases h

/-- The entries of a file of findings. -/
private theorem wellRead_pentestContent {parsed : Value} (hids : fileIds.Nodup)
    (h : pentestContent importer path parsed name = some (.entries built owned fileIds)) :
    WellRead importer.tools PentestFinding built owned fileIds := by
  obtain ⟨result, hresult, h⟩ := Option.bind_eq_some_iff.mp h
  split at h
  · cases h
  · cases h
  · rename_i sourceFile records
    obtain ⟨built', hbuilt, h⟩ := Option.bind_eq_some_iff.mp h
    obtain ⟨rfl, rfl, rfl⟩ := Content.entries.inj (Option.some.inj h)
    obtain ⟨scan, hrecords⟩ := buildFileRecords_records hresult
    obtain ⟨entries, hentries, hsub, hgood⟩ := findingEntries_entries records hrecords hbuilt
    rw [List.nil_append] at hentries
    exact ⟨hentries ▸ hids.sublist hsub, hentries ▸ hgood, fun entry hmem =>
      .inr (hsub.subset (List.mem_map_of_mem (hentries ▸ hmem)))⟩

/-- The entries of a file. The ids of findings are different where their hashes are. -/
theorem readContent_wellRead
    (h : readContent importer db dataset path data name = some (.entries built owned fileIds))
    (hids : fileIds.Nodup) : WellRead importer.tools dataset.model built owned fileIds := by
  unfold readContent at h
  split_ifs at h
  obtain ⟨parsed, _, hcontent⟩ := Option.bind_eq_some_iff.mp h
  split at hcontent
  · rename_i loader hloader
    have hmodel : loader.model = dataset.model := by
      rw [← loaderFor_model, loaderFor, hloader, Option.getD_some]
    exact hmodel ▸ wellRead_listContent (distinctColumns_listLoader hloader) hcontent
  · rename_i hloader
    cases dataset with
    | pentestFindings => exact wellRead_pentestContent hids hcontent
    | _ => cases hloader

/-- A file with a list owns no findings. -/
private theorem fileIds_listContent {loader : Loader} {parsed : Value}
    (h : listContent importer loader db parsed = some (.entries built owned fileIds)) :
    fileIds = [] := by
  unfold listContent at h
  split at h
  · obtain ⟨_, _, hcontent⟩ := Option.map_eq_some_iff.mp h
    exact (Content.entries.inj hcontent).2.2.symm
  · cases h

/-- Only findings have ids that are hashes. -/
theorem readContent_fileIds (hdataset : dataset ≠ .pentestFindings)
    (h : readContent importer db dataset path data name = some (.entries built owned fileIds)) :
    fileIds = [] := by
  unfold readContent at h
  split_ifs at h
  obtain ⟨parsed, _, hcontent⟩ := Option.bind_eq_some_iff.mp h
  split at hcontent
  · exact fileIds_listContent hcontent
  · rename_i hloader
    cases dataset with
    | pentestFindings => exact absurd rfl hdataset
    | _ => cases hloader

/-! ## The table that is written -/

variable {rows : Sql.Table Row.id}

/-- A loader looks up the references of a record in other tables. -/
private theorem resolve_update {loader : Loader} (h : listLoader importer dataset = some loader)
    (members : Members) (record : Fields) :
    loader.resolve (Function.update db dataset rows) members record
      = loader.resolve db members record := by
  cases dataset with
  | tests =>
    obtain rfl := Option.some.inj h
    show resolveTest _ record = resolveTest db record
    simp [resolveTest, resolveTest.resolveSystem, idsOf]
  | evidence =>
    obtain rfl := Option.some.inj h
    show some (resolveEvidence _ members record) = some (resolveEvidence db members record)
    simp [resolveEvidence, resolveEvidence.resolveWith, resolveTestRecordId, testOfControl, firstWith]
  | pentestFindings => cases h
  | _ =>
    obtain rfl := Option.some.inj h
    rfl

/-- The links of a loader lead to other tables. -/
theorem idsOf_update (spec : LinkSpec) (h : (loaderFor importer dataset).link = some spec) :
    idsOf (Function.update db dataset rows) spec.target = idsOf db spec.target := by
  cases dataset with
  | policies =>
    obtain rfl := Option.some.inj h
    rfl
  | vendors =>
    obtain rfl := Option.some.inj h
    rfl
  | _ => cases h

/-- The loop over the items of a file. -/
private theorem buildItems_update {loader : Loader} (h : listLoader importer dataset = some loader)
    (items : List Value) (built : Built) (index : Nat) :
    buildItems importer.tools importer.urls loader (Function.update db dataset rows) built index items
      = buildItems importer.tools importer.urls loader db built index items := by
  have hitem : ∀ item, buildItem importer.tools importer.urls loader
      (Function.update db dataset rows) item
        = buildItem importer.tools importer.urls loader db item := by
    intro item
    unfold buildItem
    simp only [resolve_update h]
  induction items generalizing built index with
  | nil => rfl
  | cons item rest ih =>
    rw [buildItems, buildItems, buildStep, buildStep, hitem]
    exact Option.bind_congr fun next _ => ih next (index + 1)

/-- What an import reads does not depend on what it wrote. -/
theorem readContent_update : readContent importer (Function.update db dataset rows) dataset path data
    name = readContent importer db dataset path data name := by
  unfold readContent
  cases hloader : listLoader importer dataset with
  | none => rfl
  | some loader =>
    have hlist : ∀ parsed, listContent importer loader (Function.update db dataset rows) parsed
        = listContent importer loader db parsed := by
      intro parsed
      unfold listContent
      simp only [buildItems_update hloader]
    simp only [hlist]

end

end TrustPortal.Proofs.EvidenceImport
