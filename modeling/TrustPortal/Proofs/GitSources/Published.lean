import TrustPortal.GitSources.GovernanceDocs
import TrustPortal.Proofs.GitSources.SyncOutcome

/-!
# `TrustPortal.Proofs.GitSources.Published`: the page of a policy shows a file of the repository

The text of a governance file is kept as a version of the file. Syncs only ever add versions, one for
each blob of a file (`versions_append_only`), and with a provider that keeps its contract a version
has the content of the file at its commit (`Kept`). The row of a file that is `ok` names the version
of its blob.

So a document on the page of a policy is the text of a file of a repository that an enabled governance
source has had (`Had`), at the commit that the page names (`published_document`). It is the file that
the policy names, or the only one with its name when no source has a row for the path.
-/

set_option autoImplicit false

namespace TrustPortal.Proofs.GitSources

open TrustPortal.GitSources
open TrustPortal.Lib
open TrustPortal.Python (Bytes Str decodeStrict)

/-! ## Versions are only added -/

section
variable {σ : Type} {tools : SyncTools} {importers : Importers σ}

/-- A file has one version of a blob. -/
def OnePerBlob (s : Store σ) : Prop :=
  ∀ v ∈ s.versions.rows, ∀ w ∈ s.versions.rows, v.path = w.path → v.blobId = w.blobId → v = w

/-- What a turn does to the versions: nothing, or one more of what was read. -/
theorem Turn.versions {provider : GitProvider} {head : String} {candidate : Candidate}
    {s s' : Store σ} {tally tally' : Tally} {row : SourceFile}
    (h : Turn tools provider head candidate s s' tally tally' row) :
    s'.versions = s.versions ∨ ∃ fetched data blobId log version,
      fetchCandidate tools provider candidate head = .ok fetched
        ∧ fetched = .read data blobId log ∧ s.versions.insert version = some s'.versions
        ∧ (∀ old ∈ s.versions.rows, old.isOf candidate.path blobId = false)
        ∧ VersionOf tools head candidate.path blobId data version := by
  cases h with
  | failed error store wrote =>
    rw [store]
    exact .inl rfl
  | written fetched row fetch wrote path kind outcome =>
    cases outcome with
    | gone change status versions => exact .inl versions
    | flagged change status versions blob => exact .inl versions
    | imported change data blobId log read blob status kind versions => exact .inl versions
    | stored change data blobId log read blob status kind version =>
      rcases version.grew with hsame | ⟨new, hinsert, hfresh, hnew⟩
      · exact .inl hsame
      · exact .inr ⟨fetched, data, blobId, log, new, fetch, read, hinsert, hfresh, hnew⟩

/-- A turn adds at most one version, of a blob without one. -/
theorem onePerBlob_turn {provider : GitProvider} {head : String} {candidate : Candidate}
    {s s' : Store σ} {tally tally' : Tally} {row : SourceFile} (hone : OnePerBlob s)
    (h : Turn tools provider head candidate s s' tally tally' row) :
    OnePerBlob s' ∧ ∀ v ∈ s.versions.rows, v ∈ s'.versions.rows := by
  rcases h.versions with hsame | ⟨_, _, blobId, _, new, _, _, hinsert, hfresh, hnew⟩
  · unfold OnePerBlob
    rw [hsame]
    exact ⟨hone, fun _ hv => hv⟩
  · have hmem : ∀ v, v ∈ s'.versions.rows ↔ v ∈ s.versions.rows ∨ v = new :=
      fun v => Sql.Table.mem_insert hinsert
    have hno : ∀ old ∈ s.versions.rows, old.path = new.path → old.blobId = new.blobId → False := by
      intro old hold hpath hblob
      have hnot := hfresh old hold
      simp [FileVersion.isOf, hpath, hblob, hnew.path, hnew.blob] at hnot
    refine ⟨?_, fun v hv => (hmem v).mpr (.inl hv)⟩
    intro v hv w hw hpath hblob
    rcases (hmem v).mp hv with hv | rfl
    · rcases (hmem w).mp hw with hw | rfl
      · exact hone v hv w hw hpath hblob
      · exact absurd (hno v hv hpath hblob) id
    · rcases (hmem w).mp hw with hw | rfl
      · exact absurd (hno w hw hpath.symm hblob.symm) id
      · rfl

variable (tools importers) in
/-- Whatever happens to a source, no version of a file is changed or lost, and a file never has two
versions of one blob. -/
theorem versions_append_only (s : SyncState σ) (hone : OnePerBlob s.store)
    (events : List SyncEvent) :
    OnePerBlob (events.foldl (syncStep tools importers) s).store ∧
      ∀ v ∈ s.store.versions.rows,
        v ∈ (events.foldl (syncStep tools importers) s).store.versions.rows := by
  have hstep : ∀ (s : SyncState σ) (event : SyncEvent), OnePerBlob s.store →
      OnePerBlob (syncStep tools importers s event).store ∧
        ∀ v ∈ s.store.versions.rows, v ∈ (syncStep tools importers s event).store.versions.rows := by
    intro s event hone
    cases effect_step tools importers s event with
    | none _ versions _ =>
      unfold OnePerBlob
      rw [versions]
      exact ⟨hone, fun _ hv => hv⟩
    | started run start state =>
      rw [state]
      exact ⟨hone, fun _ hv => hv⟩
    | turn run candidate todo store tally row running next turn state =>
      rw [state]
      exact onePerBlob_turn hone turn
  induction events generalizing s with
  | nil => exact ⟨hone, fun _ hv => hv⟩
  | cons event rest ih =>
    obtain ⟨honeNext, hkept⟩ := hstep s event hone
    obtain ⟨honeLast, hrest⟩ := ih (syncStep tools importers s event) honeNext
    exact ⟨honeLast, fun v hv => hrest v (hkept v hv)⟩

/-- `versions_append_only` for the file that changed: its first version stays. -/
theorem changed_file_keeps_version :
    (sampleAfter (changedEvents.take 3)).store.versions.rows
      ⊆ (sampleAfter changedEvents).store.versions.rows := by
  have hnone : OnePerBlob sampleState.store := by
    intro v hv
    cases hv
  have hfirst := (versions_append_only sampleTools sampleImporters sampleState hnone
    (changedEvents.take 3)).1
  exact (versions_append_only sampleTools sampleImporters (sampleAfter (changedEvents.take 3)) hfirst
    (changedEvents.drop 3)).2

end

/-! ## Versions have the content of their files -/

section
variable {σ : Type} (tools : SyncTools) (importers : Importers σ) (content : String → Bytes)
  (world : RepositoryIdentity → Repository) (had : RepositoryIdentity → Prop)

/-- The providers of an event keep their contract. -/
def Served (s : SyncState σ) : SyncEvent → Prop
  | .start provider _ _ _ => Keeps content (repositoryOf world s.source) provider
  | .file step _ => ∀ run, s.running = some run →
      Keeps content (repositoryOf world run.source) step.provider
  | .update _ _ | .cutover _ | .finish _ | .stop => True

/-- A version is a file of a commit, with its text. -/
structure FileAt (version : FileVersion) : Prop where
  /-- In a repository that the source had. -/
  origin : ∃ identity, had identity
    ∧ (world identity).blob version.commitId version.path = some version.blobId
  text : decodeStrict (content version.blobId) = some version.content
  sha256 : version.sha256 = tools.hash.sha256 (content version.blobId)
  size : version.size = (content version.blobId).length

/-- What a source keeps of its governance files. -/
structure Kept (s : SyncState σ) : Prop where
  versions : ∀ version ∈ s.store.versions.rows, FileAt tools content world had version
  /-- A row that is `ok` names the version of its blob. -/
  rows : ∀ record ∈ s.store.files.rows, record.kind.isContent = true → record.status = .ok →
    ∃ version ∈ s.store.versions.rows, record.currentVersionId = some version.id
      ∧ version.path = record.path ∧ record.blobId = some version.blobId
  /-- The candidates say what the files are at the head, in a repository that the source had. -/
  going : ∀ run, s.running = some run → had (repositoryIdentity run.source)
    ∧ AllRight run.source.mappings (repositoryOf world run.source) run.head run.todo

variable {tools importers content world had}

/-- A turn keeps what is kept. -/
theorem kept_turn {s : SyncState σ} {provider : GitProvider} {run : Running} {candidate : Candidate}
    {todo : List Candidate} {store : Store σ} {tally : Tally} {row : SourceFile}
    (h : Kept tools content world had s) (hrun : s.running = some run)
    (htodo : run.todo = candidate :: todo)
    (hkeep : Keeps content (repositoryOf world run.source) provider)
    (hturn : Turn tools provider run.head candidate s.store store run.tally tally row) :
    Kept tools content world had { s with store, running := some { run with todo, tally } } := by
  obtain ⟨hhad, hall⟩ := h.going run hrun
  have hright : Right run.source.mappings (repositoryOf world run.source) run.head candidate :=
    hall candidate (by simp [htodo])
  have hversions := hturn.versions
  have hkept : ∀ version ∈ s.store.versions.rows, version ∈ store.versions.rows := by
    intro version hv
    rcases hversions with hsame | ⟨_, _, _, _, new, _, _, hinsert, _⟩
    · rw [hsame]
      exact hv
    · exact (Sql.Table.mem_insert hinsert).mpr (.inl hv)
  obtain ⟨hwrote, hpath, hkind⟩ := hturn.wrote
  constructor
  · intro version hv
    dsimp only at hv
    rcases hversions with hsame | ⟨_, data, blobId, log, new, hfetch, rfl, hinsert, _, hnew⟩
    · rw [hsame] at hv
      exact h.versions version hv
    · rcases (Sql.Table.mem_insert hinsert).mp hv with hold | rfl
      · exact h.versions version hold
      · -- what was read is the file at the head
        obtain ⟨hblob, rfl⟩ := fetchCandidate_spec hkeep hright hfetch
        refine ⟨⟨repositoryIdentity run.source, hhad, ?_⟩, ?_, ?_, ?_⟩
        · rw [hnew.commit, hnew.path, hnew.blob]
          exact hblob
        · rw [hnew.blob]
          exact hnew.text
        · rw [hnew.blob]
          exact hnew.sha256
        · rw [hnew.blob]
          exact hnew.size
  · intro record hrecord hcontent hok
    dsimp only at hrecord ⊢
    have hget := hwrote.get record.path
    rw [Sql.Table.get_of_mem hrecord] at hget
    split at hget
    · cases hget
      cases hturn with
      | failed error failedStore wrote => cases hok
      | written fetched row fetch wrote path kind outcome =>
        cases outcome with
        | gone change status versions =>
          rw [status] at hok
          cases hok
        | flagged change status versions blob =>
          rw [status] at hok
          cases hok
        | imported change data blobId log read blob status notContent versions =>
          rw [kind, notContent] at hcontent
          cases hcontent
        | stored change data blobId log read blob status isContent version =>
          obtain ⟨current, hmem, hid, hof⟩ := version.current
          simp only [FileVersion.isOf, Bool.and_eq_true, decide_eq_true_eq] at hof
          exact ⟨current, hmem, hid, hof.1.trans path.symm, by rw [blob, hof.2]⟩
    · obtain ⟨version, hv, hid, hvpath, hblob⟩ :=
        h.rows record (Sql.Table.mem_of_get hget.symm) hcontent hok
      exact ⟨version, hkept version hv, hid, hvpath, hblob⟩
  · intro run' hrun'
    cases hrun'
    exact ⟨hhad, fun other hmem => hall other (by simp [htodo, hmem])⟩

/-- Every event keeps what is kept, where the repository of the source is one that it had. -/
theorem kept_step {s : SyncState σ} {event : SyncEvent} (h : Kept tools content world had s)
    (hserved : Served content world s event ∧ had (repositoryIdentity s.source)) :
    Kept tools content world had (syncStep tools importers s event) := by
  cases effect_step tools importers s event with
  | none files versions running =>
    constructor
    · rw [versions]
      exact h.versions
    · rw [versions, files]
      exact h.rows
    · intro run hrun
      rcases running with hsame | hidle
      · rw [hsame] at hrun
        exact h.going run hrun
      · rw [hidle] at hrun
        cases hrun
  | started run start state =>
    rw [state]
    refine ⟨h.versions, h.rows, ?_⟩
    intro run' hrun'
    cases hrun'
    obtain ⟨hsource, hdiscover⟩ := startSync_spec start
    rw [hsource]
    exact ⟨hserved.2, (discoverCandidates_spec hserved.1 hdiscover).1⟩
  | turn run candidate todo store tally row running next turn state =>
    rw [state]
    exact kept_turn h running next (hserved.1 run running) turn

end

/-! ## The page of a policy -/

section
variable {σ : Type} {collate : String → String → Bool} {sources : List (NamedSource σ)}
  {filePath : Option String} {row : PolicyRow σ}

/-- The rows of policy files are those of the governance sources. -/
theorem mem_policyRecords :
    row ∈ policyRecords collate sources ↔ row.source ∈ sources
      ∧ row.source.state.source.role = .governance
      ∧ row.record ∈ row.source.state.store.files.rows ∧ row.record.kind = .policy := by
  unfold policyRecords
  dsimp only
  rw [List.mem_insertionSort, List.mem_flatMap]
  constructor
  · intro hmem
    obtain ⟨source, hsource, hrow⟩ := hmem
    obtain ⟨record, hrecord, rfl⟩ := List.mem_map.mp hrow
    simp only [List.mem_filter, decide_eq_true_eq] at hsource hrecord
    exact ⟨hsource.1, hsource.2, hrecord.1, hrecord.2⟩
  · intro hmem
    obtain ⟨hsource, hrole, hrecord, hkind⟩ := hmem
    refine ⟨row.source, by simp [hsource, hrole], List.mem_map.mpr ⟨row.record, ?_, rfl⟩⟩
    simp [hrecord, hkind]

/-- A policy names a file by its path or, where no source has a row for the path, by its name. -/
inductive Names (collate : String → String → Bool) (sources : List (NamedSource σ)) (path : String)
    (row : PolicyRow σ) : Prop
  | path (same : row.record.path = path)
  | name (free : ∀ other ∈ policyRecords collate sources, other.record.path ≠ path)
      (name : basename row.record.path.toList = basename path.toList)
      (only : ∀ other ∈ policyRecords collate sources, other.hasDocument = true →
        basename other.record.path.toList = basename path.toList → other = row)

/-- A published file is served, and the policy names it. -/
theorem policyFileState_published
    (h : policyFileState collate sources filePath = .published row) :
    row ∈ policyRecords collate sources ∧ row.isServed = true ∧
      ∃ path, normalizePolicyPath filePath = some path ∧ Names collate sources path row := by
  unfold policyFileState at h
  split at h
  · cases h
  · rename_i path hpath
    dsimp only at h
    split at h
    · -- no row has the path
      rename_i hnone
      split at h
      · rename_i found honly
        split at h
        · rename_i hserved
          cases h
          have hmem : ∀ other, other ∈ policyRecords collate sources → other.hasDocument = true →
              basename other.record.path.toList = basename path.toList → other = row := by
            intro other hother hdocument hname
            have hfound : other ∈ ((policyRecords collate sources).filter PolicyRow.hasDocument).filter
                fun row => basename row.record.path.toList = basename path.toList := by
              simp [hother, hdocument, hname]
            rw [honly] at hfound
            exact List.mem_singleton.mp hfound
          have hrow : row ∈ ((policyRecords collate sources).filter PolicyRow.hasDocument).filter
              fun row => basename row.record.path.toList = basename path.toList := by
            rw [honly]
            exact List.mem_singleton_self row
          simp only [List.mem_filter, decide_eq_true_eq] at hrow
          refine ⟨hrow.1.1, hserved, path, hpath, .name ?_ hrow.2 hmem⟩
          intro other hother heq
          have hfound := List.filter_eq_nil_iff.mp hnone other hother
          simp [heq] at hfound
        · cases h
      · cases h
    · rename_i record others hrows
      split at h
      · rename_i found hfound
        cases h
        have hmem := List.mem_of_find?_eq_some hfound
        rw [← hrows] at hmem
        simp only [List.mem_filter, decide_eq_true_eq] at hmem
        exact ⟨hmem.1, List.find?_some hfound, path, hpath, .path hmem.2⟩
      · split at h <;> cases h

variable (tools : SyncTools) (importers : Importers σ) (content : String → Bytes)
  (world : RepositoryIdentity → Repository)

/-- Providers that keep their contract have served a source through the events since it was created
as `s`. -/
structure Synced (s : SyncState σ) (events : List SyncEvent) (source : NamedSource σ) : Prop where
  idle : s.running = none
  files : s.store.files.rows = []
  versions : s.store.versions.rows = []
  served : Along (syncStep tools importers) (Served content world) s events
  state : source.state = events.foldl (syncStep tools importers) s

/-- A repository that a source has had at some time of its events. -/
def Had (s : SyncState σ) (events : List SyncEvent) (identity : RepositoryIdentity) : Prop :=
  ∃ earlier, earlier <+: events
    ∧ repositoryIdentity (earlier.foldl (syncStep tools importers) s).source = identity

variable {tools importers content world}

/-- What such a source keeps. -/
theorem kept_of_synced {s : SyncState σ} {events : List SyncEvent} {source : NamedSource σ}
    (h : Synced tools importers content world s events source) :
    Kept tools content world (Had tools importers s events) source.state := by
  have hstart : Kept tools content world (Had tools importers s events) s := by
    refine ⟨?_, ?_, ?_⟩
    · rw [h.versions]
      intro version hv
      cases hv
    · rw [h.files]
      intro record hrecord
      cases hrecord
    · intro run hrun
      rw [h.idle] at hrun
      cases hrun
  -- the state before each event is one of the states that `Had` speaks of
  have hserved : Along (syncStep tools importers)
      (fun t event => Served content world t event
        ∧ Had tools importers s events (repositoryIdentity t.source)) s events := by
    refine h.served.and ((along_reached s events).imp ?_)
    intro t _ hreached
    obtain ⟨earlier, hprefix, rfl⟩ := hreached
    exact ⟨earlier, hprefix, rfl⟩
  rw [h.state]
  exact run_invariant (fun _ _ => kept_step) hserved hstart

variable {μ : Type} {frontMatter : Str → Option (μ × Str)} {noMetadata : μ}

/-- What the document on the page of a policy is: the text of `row`, at the commit of the document. -/
structure Shows (tools : SyncTools) (content : String → Bytes)
    (world : RepositoryIdentity → Repository) (had : RepositoryIdentity → Prop)
    (frontMatter : Str → Option (μ × Str)) (noMetadata : μ)
    (row : PolicyRow σ) (document : PolicyDocument μ) : Prop where
  /-- The source is enabled, and the row of the file is `ok`. -/
  served : row.isServed = true
  path : document.path = row.record.path
  source : document.sourceName = row.source.name
  /-- The document is the text of the blob of the row, which the file has at the commit in a
  repository that the source of the row has had. -/
  text : ∃ identity blob text, had identity ∧ row.record.blobId = some blob
    ∧ (world identity).blob document.commitId document.path = some blob
    ∧ decodeStrict (content blob) = some text
    ∧ (document.metadata, document.body) = splitFrontMatter frontMatter noMetadata text
    ∧ document.sha256 = tools.hash.sha256 (content blob)

/-- The document of a row that is served. -/
theorem shows_of_served {had : RepositoryIdentity → Prop}
    (hkept : Kept tools content world had row.source.state)
    (hrow : row ∈ policyRecords collate sources) (hserved : row.isServed = true)
    {document : PolicyDocument μ}
    (h : policyRowDocument frontMatter noMetadata row = some document) :
    Shows tools content world had frontMatter noMetadata row document := by
  obtain ⟨_, _, hrecord, hkind⟩ := mem_policyRecords.mp hrow
  have hok : row.record.status = .ok := by
    simp only [PolicyRow.isServed, Bool.and_eq_true, decide_eq_true_eq] at hserved
    exact hserved.1.2
  obtain ⟨version, hversion, hid, hpath, hblob⟩ :=
    hkept.rows row.record hrecord (by simp [hkind, Kind.isContent]) hok
  have hfile := hkept.versions version hversion
  unfold policyRowDocument at h
  rw [hid] at h
  have hget := Sql.Table.get_of_mem hversion
  simp only [bind, Option.bind, hget, pure, Option.some.injEq] at h
  subst h
  obtain ⟨identity, hhad, horigin⟩ := hfile.origin
  refine ⟨hserved, rfl, rfl, identity, version.blobId, version.content, hhad, hblob, ?_, hfile.text,
    rfl, hfile.sha256⟩
  rw [← hpath]
  exact horigin

/-- A page of a policy that shows a document is one of an approved policy in a published section. The
document is the text of a policy file of an enabled governance source, at a commit of a repository
that the source has had since it was created, and the policy names the file. -/
theorem published_document (sources : List (NamedSource σ)) (created : NamedSource σ → SyncState σ)
    (events : NamedSource σ → List SyncEvent)
    (hsynced : ∀ source ∈ sources,
      Synced tools importers content world (created source) (events source) source)
    (published : Bool) (policy : Option Policy) (document : PolicyDocument μ)
    (h : policyDetail frontMatter noMetadata collate published policy sources
      = some (.published document)) :
    published = true ∧ ∃ named row path, policy = some named ∧ named.status = "approved"
      ∧ row ∈ policyRecords collate sources ∧ normalizePolicyPath named.filePath = some path
      ∧ Names collate sources path row
      ∧ Shows tools content world (Had tools importers (created row.source) (events row.source))
          frontMatter noMetadata row document := by
  unfold policyDetail at h
  split at h
  · cases h
  · rename_i hpublished
    split at h
    · rename_i named
      split at h
      · cases h
      · rename_i happroved
        have hstate := Option.some.inj h
        unfold policyDocumentState at hstate
        split at hstate
        · rename_i row hrow
          split at hstate
          · rename_i shown hshown
            cases hstate
            obtain ⟨hmem, hserved, path, hpath, hnames⟩ := policyFileState_published hrow
            have hkept := kept_of_synced (hsynced row.source (mem_policyRecords.mp hmem).1)
            refine ⟨by simpa using hpublished, named, row, path, rfl, by simpa using happroved, hmem,
              hpath, hnames, shows_of_served hkept hmem hserved hshown⟩
          · cases hstate
        all_goals cases hstate
    · cases h

end

/-! ## A sample -/

/-- The sample source after its first sync. -/
def syncedSource : NamedSource Unit := ⟨"governance", true, 0, sampleAfter (changedEvents.take 3)⟩

theorem synced_syncedSource :
    Synced sampleTools sampleImporters sampleContent (fun _ => sampleRepository) sampleState
      (changedEvents.take 3) syncedSource where
  idle := rfl
  files := rfl
  versions := rfl
  served := ⟨keeps_serve _ _ _, fun _ _ => keeps_serve _ _ _, trivial, trivial⟩
  state := rfl

/-- The document of its file. -/
def syncedDocument : PolicyDocument Unit :=
  ⟨"access.md", "governance", "first", sampleDigits, Python.str "a", ()⟩

/-- `published_document` for a policy that names the file in another directory. -/
theorem published_document_by_name :
    ∃ row, Names (fun a b => a ≤ b) [syncedSource] "policies/access.md" row ∧
      Shows sampleTools sampleContent (fun _ => sampleRepository)
        (Had sampleTools sampleImporters sampleState (changedEvents.take 3)) (fun _ => none) () row
        syncedDocument := by
  have hsynced : ∀ source ∈ [syncedSource],
      Synced sampleTools sampleImporters sampleContent (fun _ => sampleRepository) sampleState
        (changedEvents.take 3) source := by
    intro source hsource
    rw [List.mem_singleton.mp hsource]
    exact synced_syncedSource
  have hpage : policyDetail (fun _ => none) () (fun a b => a ≤ b) true
      (some ⟨"approved", some "../policies/access.md"⟩) [syncedSource]
      = some (.published syncedDocument) := by
    decide +kernel
  obtain ⟨_, named, row, path, hnamed, _, _, hpath, hnames, hshows⟩ :=
    published_document [syncedSource] (fun _ => sampleState) (fun _ => changedEvents.take 3) hsynced
      true _ syncedDocument hpage
  have hnormal : normalizePolicyPath (some "../policies/access.md") = some "policies/access.md" := by
    decide +kernel
  cases hnamed
  rw [hnormal] at hpath
  cases hpath
  exact ⟨row, hnames, hshows⟩

end TrustPortal.Proofs.GitSources
