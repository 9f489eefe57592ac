import TrustPortal.Proofs.GitSources.SyncOutcome

/-!
# `TrustPortal.Proofs.GitSources.Strategies`: a difference finds what the trees find

Where the provider can compare two commits, a sync takes its candidates from the difference and does
not list the tree. Where it cannot, the sync compares the tree of the head with the stored files.

From rows that are exactly those of the last synced commit (`Exact`), both find the same files and
say the same of them (`strategies_agree`), but for the manifests one of whose parts changed, which
only the difference finds. The proof describes the candidates of each strategy by the two commits
alone (`Describes`): the mapped files that differ.
-/

set_option autoImplicit false

namespace TrustPortal.Proofs.GitSources

open TrustPortal.GitSources
open TrustPortal.Lib
open TrustPortal.Python (Bytes)

section
variable {tables : Python.TextTables} {mappings : List Mapping} {repo : Repository} {last head : String}
  {stored : SourceFiles} {provider : GitProvider} {content : String → Bytes}

/-- The stored files are those of a commit. -/
structure Exact (mappings : List Mapping) (repo : Repository) (commit : String)
    (stored : SourceFiles) : Prop where
  /-- A mapped file has its row. -/
  present : ∀ path kind blob, classify path mappings = some kind →
    repo.blob commit path = some blob → ∃ record, stored.get path = some record
      ∧ record.kind = kind ∧ record.blobId = some blob
      ∧ (record.status = .ok ∨ record.status = .tooLarge)
  /-- Another row is one of a file that is gone. -/
  absent : ∀ path record, stored.get path = some record → record.status ≠ .deleted →
    (classify path mappings).isSome = true ∧ (repo.blob commit path).isSome = true

/-- A candidate is a mapped file that differs between two commits, as it is at the second one. -/
structure Describes (mappings : List Mapping) (repo : Repository) (last head : String)
    (candidate : Candidate) : Prop where
  kind : classify candidate.path mappings = some candidate.kind
  differs : repo.blob last candidate.path ≠ repo.blob head candidate.path
  blob : candidate.blobId = repo.blob head candidate.path
  gone : candidate.changeType = .change .deleted ↔ repo.blob head candidate.path = none

/-- Two candidates say the same of a file, but for whether it is new and how large it is. -/
structure Same (a b : Candidate) : Prop where
  path : a.path = b.path
  kind : a.kind = b.kind
  blob : a.blobId = b.blobId
  gone : a.changeType = .change .deleted ↔ b.changeType = .change .deleted

/-- A manifest that is the same at both commits, and one of whose parts is not. -/
structure PartsDiffer (tables : Python.TextTables) (repo : Repository) (last head : String)
    (candidate : Candidate) : Prop where
  same : repo.blob last candidate.path = repo.blob head candidate.path
  type : candidate.changeType = .change .modified
  blob : candidate.blobId = none
  part : ∃ part, repo.blob last part ≠ repo.blob head part
    ∧ partManifest tables part = some candidate.path

/-- Two commits describe a file in one way. -/
theorem Describes.same {a b : Candidate} (ha : Describes mappings repo last head a)
    (hb : Describes mappings repo last head b) (hpath : a.path = b.path) : Same a b where
  path := hpath
  kind := by
    have hkind := ha.kind
    rw [hpath, hb.kind] at hkind
    exact (Option.some.inj hkind).symm
  blob := by rw [ha.blob, hb.blob, hpath]
  gone := by rw [ha.gone, hb.gone, hpath]

/-! ## Rows of a commit -/

/-- Rows of a commit are not retried. -/
theorem Exact.not_retried (h : Exact mappings repo last stored) {record : SourceFile}
    (hrecord : record ∈ stored.rows) : record.status.isRetried = false := by
  have hget := Sql.Table.get_of_mem hrecord
  by_cases hdeleted : record.status = .deleted
  · simp [hdeleted, FileStatus.isRetried]
  · obtain ⟨hmapped, hblob⟩ := h.absent record.path record hget hdeleted
    obtain ⟨kind, hkind⟩ := Option.isSome_iff_exists.mp hmapped
    obtain ⟨blob, hblob⟩ := Option.isSome_iff_exists.mp hblob
    obtain ⟨row, hrow, _, _, hstatus⟩ := h.present record.path kind blob hkind hblob
    rw [hget] at hrow
    cases hrow
    rcases hstatus with hs | hs <;> simp [hs, FileStatus.isRetried]

/-- With rows of a commit, there is nothing to retry. -/
theorem Exact.mem_withRetries (h : Exact mappings repo last stored) {candidates : List Candidate}
    {candidate : Candidate} :
    candidate ∈ withRetries mappings stored candidates ↔ candidate ∈ candidates := by
  rw [GitSources.mem_withRetries]
  constructor
  · intro hmem
    rcases hmem with hmem | ⟨record, hrecord, hretried, _⟩
    · exact hmem
    · rw [h.not_retried hrecord] at hretried
      cases hretried
  · exact Or.inl

/-! ## The two descriptions -/

/-- A change of a difference describes a mapped file. -/
theorem describes_change {change : Change} {candidate : Candidate}
    (hchange : blobChange change.path (repo.blob last change.path) (repo.blob head change.path)
      = some change) (h : changedCandidate mappings change = some candidate) :
    Describes mappings repo last head candidate := by
  obtain ⟨kind, hkind, rfl⟩ := changedCandidate_eq_some.mp h
  obtain ⟨hblob, hgone, hne⟩ := blobChange_new hchange
  exact ⟨hkind, hne, hblob, by simpa using hgone⟩

/-- A candidate of a tree describes a mapped file, when the rows are those of a commit. -/
theorem describes_tree (hexact : Exact mappings repo last stored) {candidate : Candidate}
    (h : candidate ∈ candidatesFromTree mappings stored false (repo.tree head)) :
    Describes mappings repo last head candidate := by
  rcases List.mem_append.mp h with h | h
  · obtain ⟨entry, hentry, hc⟩ := List.mem_filterMap.mp h
    have hhead := Repository.blob_of_mem hentry
    unfold treeCandidate at hc
    obtain ⟨kind, hkind, hc⟩ := Option.bind_eq_some_iff.mp hc
    split at hc
    · rename_i record hget
      split at hc
      · cases hc
      · rename_i hdiffers
        cases hc
        refine ⟨hkind, ?_, hhead.symm, by simp [hhead]⟩
        intro hsame
        -- a file that is the same has a row that says so
        obtain ⟨row, hrow, _, hid, hstatus⟩ := hexact.present entry.path kind entry.blobId hkind
          (hsame.trans hhead)
        rw [hget] at hrow
        cases hrow
        exact hdiffers (by simp [hid, hstatus])
    · rename_i hget
      cases hc
      refine ⟨hkind, ?_, hhead.symm, by simp [hhead]⟩
      intro hsame
      obtain ⟨row, hrow, _⟩ := hexact.present entry.path kind entry.blobId hkind (hsame.trans hhead)
      rw [hget] at hrow
      cases hrow
  · obtain ⟨record, hrecord, hc⟩ := List.mem_filterMap.mp h
    obtain ⟨hseen, hdeleted, rfl⟩ := goneCandidate_eq_some.mp hc
    have hget := Sql.Table.get_of_mem hrecord
    obtain ⟨hmapped, hlast⟩ := hexact.absent record.path record hget hdeleted
    obtain ⟨kind, hkind⟩ := Option.isSome_iff_exists.mp hmapped
    obtain ⟨blob, hblob⟩ := Option.isSome_iff_exists.mp hlast
    obtain ⟨row, hrow, hrowKind, _, _⟩ := hexact.present record.path kind blob hkind hblob
    rw [hget] at hrow
    cases hrow
    have hhead : repo.blob head record.path = none := by
      cases hhead : repo.blob head record.path with
      | none => rfl
      | some new => exact absurd ((mem_mappedPaths hmapped).mpr ⟨new, hhead⟩) hseen
    exact ⟨by rw [hkind, hrowKind], by simp [hblob, hhead], hhead.symm, by simp [hhead]⟩

/-- A mapped file that differs is a candidate of a tree, when the rows are those of a commit. -/
theorem mem_tree_of_differs (hexact : Exact mappings repo last stored) {path : String}
    (hmapped : (classify path mappings).isSome = true)
    (hne : repo.blob last path ≠ repo.blob head path) :
    path ∈ candidatePaths (candidatesFromTree mappings stored false (repo.tree head)) := by
  by_contra hnot
  have hstep := (candidatesFromTree_spec mappings stored repo false head).2 path hmapped hnot
  obtain ⟨kind, hkind⟩ := Option.isSome_iff_exists.mp hmapped
  cases hlast : repo.blob last path with
  | some blob =>
    -- the row has the blob of the last synced commit
    obtain ⟨row, hrow, _, hid, hstatus⟩ := hexact.present path kind blob hkind hlast
    rw [hrow] at hstep
    cases hhead : repo.blob head path with
    | none =>
      rw [hhead] at hstep
      rcases hstep with hs | hs <;> rcases hstatus with hs' | hs' <;> simp [hs] at hs'
    | some new =>
      rw [hhead] at hstep
      rcases hstep with hs | ⟨_, hnew⟩ | ⟨_, hnone⟩
      · rcases hstatus with hs' | hs' <;> simp [hs] at hs'
      · rw [hid] at hnew
        rw [hlast, hhead] at hne
        exact hne hnew
      · rw [hid] at hnone
        cases hnone
  | none =>
    cases hhead : repo.blob head path with
    | none => exact hne (hlast.trans hhead.symm)
    | some new =>
      rw [hhead] at hstep
      cases hget : stored.get path with
      | none =>
        rw [hget] at hstep
        exact hstep
      | some record =>
        rw [hget] at hstep
        have hdeleted : record.status = .deleted := by
          by_contra hs
          have hsome := (hexact.absent path record hget hs).2
          rw [hlast] at hsome
          cases hsome
        rcases hstep with hs | ⟨hs, _⟩ | ⟨hs, _⟩
        · simp [hdeleted] at hs
        · exact hs hdeleted
        · simp [hdeleted] at hs

/-- From the rows of the last synced commit, a difference and the trees find the same files, and a
difference finds besides the manifests one of whose parts changed. -/
theorem strategies_agree (diffing listing : GitProvider) (hdiffing : Keeps content repo diffing)
    (hlisting : Keeps content repo listing) (hexact : Exact mappings repo last stored)
    (diffed listed : List Candidate)
    (hdiff : discoverCandidates tables mappings stored diffing (some last) head false
      = .ok (diffed, .diff))
    (htree : discoverCandidates tables mappings stored listing (some last) head false
      = .ok (listed, .tree)) :
    (∀ candidate ∈ listed, ∃ other ∈ diffed, Same candidate other) ∧
      ∀ candidate ∈ diffed, (∃ other ∈ listed, Same candidate other) ∨
        PartsDiffer tables repo last head candidate := by
  -- the candidates of the difference
  have hdiffs : (∀ path, (classify path mappings).isSome = true →
      repo.blob last path ≠ repo.blob head path → path ∈ candidatePaths diffed) ∧
      ∀ candidate ∈ diffed, Describes mappings repo last head candidate ∨
        PartsDiffer tables repo last head candidate := by
    obtain ⟨_, hcovers, _⟩ := discoverCandidates_spec hdiffing hdiff
    obtain ⟨_, hlast, hcovers⟩ := hcovers rfl
    cases hlast
    refine ⟨hcovers, ?_⟩
    intro candidate hmem
    obtain ⟨_, _, hstrategy, _⟩ | ⟨_, changes, hlast, hchanges, _, rfl⟩ | ⟨_, _, rfl⟩
      | ⟨_, _, hstrategy, _⟩ := discoverCandidates_cases hdiff
    · cases hstrategy
    · cases hlast
      rw [hexact.mem_withRetries] at hmem
      rcases candidatesFromChanges_cases tables mappings stored hmem with hmem | ⟨hnot, hmapped,
          ⟨kind, hc⟩, change, hchange, hpart⟩
      · obtain ⟨change, hchange, hc⟩ := List.mem_filterMap.mp hmem
        exact .inl (describes_change ((hdiffing.diff last head changes hchanges change).mp hchange) hc)
      · right
        have hdiffers := (hdiffing.diff last head changes hchanges change).mp hchange
        refine ⟨?_, by rw [hc], by rw [hc], change.path, (blobChange_new hdiffers).2.2, hpart⟩
        by_contra hne
        exact hnot (mem_changed_of_differs hdiffing hchanges hmapped hne)
    · rw [hexact.mem_withRetries] at hmem
      cases hmem
    · cases hstrategy
  -- the candidates of the tree
  have htrees : (∀ path, (classify path mappings).isSome = true →
      repo.blob last path ≠ repo.blob head path → path ∈ candidatePaths listed) ∧
      ∀ candidate ∈ listed, Describes mappings repo last head candidate := by
    obtain ⟨_, _, hstrategy, _⟩ | ⟨_, _, _, _, hstrategy, _⟩ | ⟨_, hstrategy, _⟩
      | ⟨tree, hlist, _, rfl⟩ := discoverCandidates_cases htree
    · cases hstrategy
    · cases hstrategy
    · cases hstrategy
    · have htree := hlisting.listTree head tree hlist
      subst htree
      constructor
      · intro path hmapped hne
        exact mem_candidatePaths_withRetries (mem_tree_of_differs hexact hmapped hne)
      · intro candidate hmem
        rw [hexact.mem_withRetries] at hmem
        exact describes_tree hexact hmem
  constructor
  · intro candidate hmem
    have hdescribes := htrees.2 candidate hmem
    obtain ⟨other, hother, hpath⟩ := List.mem_map.mp
      (hdiffs.1 candidate.path (by simp [hdescribes.kind]) hdescribes.differs)
    rcases hdiffs.2 other hother with hdescribes' | hmanifest
    · exact ⟨other, hother, hdescribes.same hdescribes' hpath.symm⟩
    · have hsame := hmanifest.same
      rw [hpath] at hsame
      exact absurd hsame hdescribes.differs
  · intro candidate hmem
    rcases hdiffs.2 candidate hmem with hdescribes | hmanifest
    · obtain ⟨other, hother, hpath⟩ := List.mem_map.mp
        (htrees.1 candidate.path (by simp [hdescribes.kind]) hdescribes.differs)
      exact .inl ⟨other, hother, hdescribes.same (htrees.2 other hother) hpath.symm⟩
    · exact .inr hmanifest

end

/-! ## A sample -/

/-- The files after the first sync of the sample. -/
def firstFiles : SourceFiles := (sampleAfter (changedEvents.take 3)).store.files

/-- The sample's provider where it cannot compare commits. -/
def listingProvider (head : String) : GitProvider :=
  { sampleProvider head with diff := fun _ _ => .error (.refused "no comparison") }

theorem keeps_listingProvider (head : String) :
    Keeps sampleContent sampleRepository (listingProvider head) := by
  have h := keeps_serve sampleRepository sampleContent head
  refine ⟨h.listTree, ?_, h.readBlob, h.readFile, h.tooLarge⟩
  intro _ _ _ hdiff
  cases hdiff

/-- The file at the first commit. -/
theorem exact_firstFiles :
    Exact sampleSource.mappings sampleRepository "first" firstFiles := by
  have hrows : firstFiles.rows.map (fun record => (record.path, record.kind, record.blobId,
      record.status)) = [("access.md", .policy, some "one", .ok)] := by decide
  have hrow : ∀ record ∈ firstFiles.rows, record.path = "access.md"
      ∧ record.kind = .policy ∧ record.blobId = some "one" ∧ record.status = .ok := by
    intro record hrecord
    have hmem := List.mem_map_of_mem (f := fun record : SourceFile =>
      (record.path, record.kind, record.blobId, record.status)) hrecord
    rw [hrows, List.mem_singleton] at hmem
    simpa using hmem
  have hsome : (firstFiles.get "access.md").isSome = true := by decide
  constructor
  · intro path kind blob hkind hblob
    obtain ⟨entry, hentry, rfl, rfl⟩ := Repository.mem_of_blob hblob
    have hfile : entry = ⟨"access.md", "one", some 1⟩ := List.mem_singleton.mp hentry
    subst hfile
    obtain ⟨record, hget⟩ := Option.isSome_iff_exists.mp hsome
    obtain ⟨_, hk, hid, hstatus⟩ := hrow record (Sql.Table.mem_of_get hget)
    refine ⟨record, hget, ?_, hid, .inl hstatus⟩
    have hpolicy : classify "access.md" sampleSource.mappings = some .policy := by
      decide
    rw [hk]
    exact Option.some.inj (hpolicy.symm.trans hkind)
  · intro path record hget _
    obtain ⟨hpath, _⟩ := hrow record (Sql.Table.mem_of_get hget)
    have hkey := Sql.Table.key_of_get hget
    rw [← hkey, hpath]
    decide

/-- `strategies_agree` for the file that changed. -/
theorem strategies_agree_changed :
    ∃ other ∈ [(⟨"access.md", .policy, .change .modified, some "two", none⟩ : Candidate)],
      Same ⟨"access.md", .policy, .change .modified, some "two", some 2⟩ other := by
  have hdiff : discoverCandidates .ascii sampleSource.mappings firstFiles (sampleProvider "second")
      (some "first") "second" false
      = .ok ([⟨"access.md", .policy, .change .modified, some "two", none⟩], .diff) := rfl
  have htree : discoverCandidates .ascii sampleSource.mappings firstFiles (listingProvider "second")
      (some "first") "second" false
      = .ok ([⟨"access.md", .policy, .change .modified, some "two", some 2⟩], .tree) := rfl
  exact (strategies_agree (sampleProvider "second") (listingProvider "second")
    (keeps_serve sampleRepository sampleContent "second") (keeps_listingProvider "second")
    exact_firstFiles _ _ hdiff htree).1 _ List.mem_cons_self

end TrustPortal.Proofs.GitSources
