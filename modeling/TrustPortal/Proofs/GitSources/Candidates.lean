import TrustPortal.Proofs.GitSources.FileWrites

/-!
# `TrustPortal.Proofs.GitSources.Candidates`: a sync looks at every file it has to

`discoverCandidates` finds its candidates in three ways. A provider that keeps its contract makes
each of them right: a candidate says what its file is at the head (`Right`), and what
`fetchCandidate` reads of it is the file at the head (`FetchedAs`).

None of the three ways leaves out a file that is not in step (`discoverCandidates_spec`). The
difference of two commits names the mapped files that differ between them. The trees and a full sync
name every mapped file whose row is not in step with the head, whatever was synced before. Each of
them names the files that failed the last time (`discoverCandidates_retries`).
-/

set_option autoImplicit false

namespace TrustPortal.Proofs.GitSources

open TrustPortal.Audit (truthy)
open TrustPortal.GitSources
open TrustPortal.Lib
open TrustPortal.Python (Bytes)

/-! ## Blobs -/

/-- The blob of a file of the tree. -/
theorem Repository.blob_of_mem {repo : Repository} {commit : String} {entry : TreeEntry}
    (h : entry ∈ repo.tree commit) : repo.blob commit entry.path = some entry.blobId := by
  have hget := (Dict.get_eq_some_iff (repo.nodup commit)).mpr ⟨h, rfl⟩
  show ((repo.tree commit).find? _).map _ = _
  rw [show (repo.tree commit).find? (fun other => other.path = entry.path) = some entry from hget]
  rfl

/-- A file with a blob is in the tree. -/
theorem Repository.mem_of_blob {repo : Repository} {commit path blob : String}
    (h : repo.blob commit path = some blob) :
    ∃ entry ∈ repo.tree commit, entry.path = path ∧ entry.blobId = blob := by
  obtain ⟨entry, hfind, hblob⟩ := Option.map_eq_some_iff.mp h
  have hpath := List.find?_some hfind
  exact ⟨entry, List.mem_of_find?_eq_some hfind, by simpa using hpath, hblob⟩

/-- A change names its path. -/
theorem path_of_blobChange {path : String} {old new : Option String} {change : Change}
    (h : blobChange path old new = some change) : change.path = path := by
  unfold blobChange at h
  split at h
  · cases h
  · cases h; rfl
  · cases h; rfl
  · split at h <;> cases h
    rfl

/-- What a change says is the new blob, which is another one. -/
theorem blobChange_new {path : String} {old new : Option String} {change : Change}
    (h : blobChange path old new = some change) :
    change.blobId = new ∧ (change.changeType = .deleted ↔ new = none) ∧ old ≠ new := by
  unfold blobChange at h
  split at h
  · cases h
  · cases h; simp
  · cases h; simp
  · split at h <;> cases h
    simp_all

/-- A difference is a change. -/
theorem blobChange_of_ne (path : String) {old new : Option String} (h : old ≠ new) :
    ∃ change, blobChange path old new = some change := by
  cases old <;> cases new <;> simp_all [blobChange]

/-- The contract can be kept. -/
theorem keeps_serve (repo : Repository) (content : String → Bytes) (head : String) :
    Keeps content repo (repo.serve content head) where
  listTree := by
    rintro commit tree h
    cases h
    rfl
  diff := by
    rintro old new changes h change
    cases h
    rw [List.mem_filterMap]
    constructor
    · intro hmem
      obtain ⟨path, _, hchange⟩ := hmem
      rw [path_of_blobChange hchange]
      exact hchange
    · intro hchange
      refine ⟨change.path, ?_, hchange⟩
      rw [List.mem_dedup, List.map_append, List.mem_append]
      have hmem : ∀ commit blob, repo.blob commit change.path = some blob →
          change.path ∈ (repo.tree commit).map TreeEntry.path := by
        intro commit blob hblob
        obtain ⟨entry, hentry, hpath, _⟩ := Repository.mem_of_blob hblob
        exact List.mem_map.mpr ⟨entry, hentry, hpath⟩
      cases hold : repo.blob old change.path with
      | some blob => exact .inl (hmem old blob hold)
      | none =>
        cases hnew : repo.blob new change.path with
        | some blob => exact .inr (hmem new blob hnew)
        | none =>
          rw [hold, hnew] at hchange
          cases hchange
  readBlob := by
    intro blob path commit data h
    cases h
    rfl
  readFile := by
    intro path commit data h
    unfold Repository.serve at h
    dsimp only at h
    split at h
    · rename_i blob hblob
      cases h
      exact ⟨blob, hblob, rfl⟩
    · cases h
  tooLarge := by
    intro path commit size limit message h
    unfold Repository.serve at h
    dsimp only at h
    split at h <;> cases h

/-! ## Right candidates -/

/-- A candidate says what its file is at a commit, as far as it says anything. -/
structure Right (mappings : List Mapping) (repo : Repository) (head : String)
    (candidate : Candidate) : Prop where
  gone : (classify candidate.path mappings).isSome = true →
    candidate.changeType = .change .deleted → repo.blob head candidate.path = none
  blob : ∀ blob, candidate.blobId = some blob → repo.blob head candidate.path = some blob
  size : candidate.size ≠ none → candidate.blobId ≠ none

/-- What was read is the file at the commit. -/
def FetchedAs (content : String → Bytes) (repo : Repository) (head path : String) :
    FetchedFile → Prop
  | .nothing => True
  | .tooLarge blobId _ => ∃ blob, repo.blob head path = some blob ∧ (blobId = none ∨ blobId = some blob)
  | .read data blobId _ => repo.blob head path = some blobId ∧ data = content blobId

section
variable {tools : SyncTools} {provider : GitProvider} {content : String → Bytes} {repo : Repository}
  {mappings : List Mapping} {head : String} {candidate : Candidate}

/-- The blob of a right candidate may be unknown. -/
theorem Right.blob_eq (h : Right mappings repo head candidate) {blob : String}
    (hblob : repo.blob head candidate.path = some blob) :
    candidate.blobId = none ∨ candidate.blobId = some blob := by
  cases hid : candidate.blobId with
  | none => exact .inl rfl
  | some id => exact .inr ((h.blob id hid).symm.trans hblob)

/-- The blob of a file that was read by its path. -/
theorem blobFromTree_eq (hkeep : Keeps content repo provider) {path blob id : String} {data : Bytes}
    (hblob : repo.blob head path = some blob)
    (h : blobFromTree tools provider path head data = .ok id) : id = blob := by
  unfold blobFromTree at h
  obtain ⟨tree, htree, heq⟩ := map_eq_ok.mp h
  rw [hkeep.listTree head tree htree] at heq
  obtain ⟨entry, hfind, hid⟩ := Option.map_eq_some_iff.mp hblob
  simp only [hfind] at heq
  exact heq.symm.trans hid

/-- The content of a candidate and its blob. -/
theorem readCandidate_spec (hkeep : Keeps content repo provider)
    (hright : Right mappings repo head candidate) {data : Bytes} {blobId : String}
    (h : readCandidate tools provider candidate head = .ok (data, blobId)) :
    repo.blob head candidate.path = some blobId ∧ data = content blobId := by
  unfold readCandidate at h
  split at h
  · -- by the blob of the candidate
    rename_i htruthy
    obtain ⟨read, hread, heq⟩ := map_eq_ok.mp h
    cases heq
    cases hid : candidate.blobId with
    | none => simp [hid, truthy] at htruthy
    | some id =>
      rw [hid] at hread
      exact ⟨hright.blob id hid, hkeep.readBlob _ _ _ _ hread⟩
  · obtain ⟨read, hread, h⟩ := bind_eq_ok.mp h
    obtain ⟨id, hid, heq⟩ := bind_eq_ok.mp h
    cases heq
    obtain ⟨blob, hblob, hdata⟩ := hkeep.readFile _ _ _ hread
    have heq := blobFromTree_eq hkeep hblob hid
    subst heq
    exact ⟨hblob, hdata⟩

/-- A candidate that is too large to read has a file. -/
theorem readCandidate_tooLarge (hkeep : Keeps content repo provider)
    (hright : Right mappings repo head candidate) {size : Option Nat} {limit : Nat} {message : String}
    (h : readCandidate tools provider candidate head = .error (.tooLarge size limit message)) :
    ∃ blob, repo.blob head candidate.path = some blob := by
  unfold readCandidate at h
  split at h
  · rename_i htruthy
    cases hid : candidate.blobId with
    | none => simp [hid, truthy] at htruthy
    | some id => exact ⟨id, hright.blob id hid⟩
  · cases hread : provider.readFile candidate.path head none with
    | ok data =>
      -- the file was read, and the listing of the tree failed
      obtain ⟨blob, hblob, _⟩ := hkeep.readFile _ _ _ hread
      exact ⟨blob, hblob⟩
    | error error =>
      rw [hread] at h
      cases h
      exact hkeep.tooLarge _ _ _ _ _ hread

/-- The transcript and the sidecar do not change what was read. -/
theorem fetchLog_spec {data : Bytes} {blobId : String} {fetched : FetchedFile}
    (hblob : repo.blob head candidate.path = some blobId) (hdata : data = content blobId)
    (h : fetchLog tools provider candidate head data blobId = .ok fetched) :
    FetchedAs content repo head candidate.path fetched := by
  unfold fetchLog at h
  split at h
  · cases h
    exact ⟨blobId, hblob, .inr rfl⟩
  · cases h
    exact ⟨blobId, hblob, .inr rfl⟩
  · cases h
  · obtain ⟨fields, _, heq⟩ := map_eq_ok.mp h
    cases heq
    exact ⟨hblob, hdata⟩

/-- What is fetched of a right candidate is the file at the head. -/
theorem fetchCandidate_spec (hkeep : Keeps content repo provider)
    (hright : Right mappings repo head candidate) {fetched : FetchedFile}
    (h : fetchCandidate tools provider candidate head = .ok fetched) :
    FetchedAs content repo head candidate.path fetched := by
  unfold fetchCandidate at h
  split at h
  · cases h
    trivial
  · split at h
    · -- by the size in the listing
      rename_i hlarge
      cases h
      cases hid : candidate.blobId with
      | none =>
        refine absurd hid (hright.size ?_)
        intro hnone
        simp [hnone] at hlarge
      | some id => exact ⟨id, hright.blob id hid, .inr rfl⟩
    · split at h
      · rename_i hread
        cases h
        obtain ⟨blob, hblob⟩ := readCandidate_tooLarge hkeep hright hread
        exact ⟨blob, hblob, hright.blob_eq hblob⟩
      · cases h
      · rename_i data blobId hread
        obtain ⟨hblob, hdata⟩ := readCandidate_spec hkeep hright hread
        split at h
        · exact fetchLog_spec hblob hdata h
        · cases h
          exact ⟨hblob, hdata⟩

/-- The row that a turn of a sync wrote is in step with the head. -/
theorem Turn.inStep {σ : Type} {s s' : Store σ} {tally tally' : Tally} {row : SourceFile}
    (hkeep : Keeps content repo provider) (hright : Right mappings repo head candidate)
    (hmapped : (classify candidate.path mappings).isSome = true)
    (h : Turn tools provider head candidate s s' tally tally' row) :
    InStep (repo.blob head candidate.path) (some row) := by
  cases h with
  | failed error store wrote =>
    cases repo.blob head candidate.path with
    | none => exact .inr rfl
    | some blob => exact .inl rfl
  | written fetched row fetch wrote path kind outcome =>
    have hof := fetchCandidate_spec hkeep hright fetch
    cases outcome with
    | gone change status versions =>
      rw [hright.gone hmapped change]
      exact .inl status
    | flagged change status versions blob =>
      rcases blob with ⟨flag, rfl⟩ | ⟨data, blobId, log, rfl, hblob⟩
      · obtain ⟨blob, hhead, hnone | hsome⟩ := hof
        · rw [hhead]
          exact .inr (.inr ⟨status, hnone⟩)
        · rw [hhead]
          exact .inr (.inl ⟨by simp [status], hsome⟩)
      · rw [hof.1]
        exact .inr (.inl ⟨by simp [status], hblob⟩)
    | imported change data blobId log read blob status kind versions =>
      subst read
      rw [hof.1]
      exact .inr (.inl ⟨status, blob⟩)
    | stored change data blobId log read blob status kind version =>
      subst read
      rw [hof.1]
      exact .inr (.inl ⟨by simp [status], blob⟩)

end

/-! ## Finding the candidates -/

section
variable {tables : Python.TextTables} {mappings : List Mapping} {stored : SourceFiles}
  {provider : GitProvider} {content : String → Bytes} {repo : Repository}

/-- The paths of some candidates. -/
def candidatePaths (candidates : List Candidate) : List String := candidates.map Candidate.path

/-- Every candidate is right. -/
def AllRight (mappings : List Mapping) (repo : Repository) (head : String)
    (candidates : List Candidate) : Prop :=
  ∀ candidate ∈ candidates, Right mappings repo head candidate

@[simp] theorem mem_sortCandidates {candidates : List Candidate} {candidate : Candidate} :
    candidate ∈ sortCandidates candidates ↔ candidate ∈ candidates :=
  (List.perm_insertionSort _ candidates).mem_iff

theorem mem_candidatePaths_sort {candidates : List Candidate} {path : String} :
    path ∈ candidatePaths (sortCandidates candidates) ↔ path ∈ candidatePaths candidates := by
  simp [candidatePaths]

/-- A change of a mapped file is a candidate. -/
theorem changedCandidate_eq_some {change : Change} {candidate : Candidate} :
    changedCandidate mappings change = some candidate ↔
      ∃ kind, classify change.path mappings = some kind
        ∧ candidate = ⟨change.path, kind, .change change.changeType, change.blobId, none⟩ := by
  unfold changedCandidate
  rw [Option.map_eq_some_iff]
  exact exists_congr fun kind => and_congr_right fun _ => eq_comm

/-- A candidate for a manifest one of whose parts changed says nothing of its blob. -/
theorem manifestCandidate_eq_some {path : String} {candidate : Candidate}
    (h : manifestCandidate mappings stored path = some candidate) :
    ∃ kind, classify path mappings = some kind
      ∧ candidate = ⟨path, kind, .change .modified, none, none⟩ := by
  unfold manifestCandidate at h
  obtain ⟨kind, hkind, h⟩ := Option.bind_eq_some_iff.mp h
  obtain ⟨record, _, h⟩ := Option.bind_eq_some_iff.mp h
  split at h
  · cases h
  · cases h
    exact ⟨kind, hkind, rfl⟩

/-- Every mapped file that differs is a changed file. -/
theorem mem_changed_of_differs (hkeep : Keeps content repo provider) {old head path : String}
    {changes : List Change} (h : provider.diff old head = .ok changes)
    (hmapped : (classify path mappings).isSome = true)
    (hne : repo.blob old path ≠ repo.blob head path) :
    path ∈ candidatePaths (changes.filterMap (changedCandidate mappings)) := by
  obtain ⟨change, hchange⟩ := blobChange_of_ne path hne
  have hpath := path_of_blobChange hchange
  obtain ⟨kind, hkind⟩ := Option.isSome_iff_exists.mp hmapped
  refine List.mem_map.mpr ⟨⟨change.path, kind, .change change.changeType, change.blobId, none⟩,
    ?_, hpath⟩
  refine List.mem_filterMap.mpr ⟨change, ?_, changedCandidate_eq_some.mpr ⟨kind, ?_, rfl⟩⟩
  · rw [hkeep.diff old head changes h change, hpath]
    exact hchange
  · rw [hpath]
    exact hkind

variable (tables mappings stored) in
/-- A candidate of a difference is a changed file, or a manifest that did not change and one of whose
parts did. -/
theorem candidatesFromChanges_cases {changes : List Change} {candidate : Candidate}
    (h : candidate ∈ candidatesFromChanges tables mappings stored changes) :
    candidate ∈ changes.filterMap (changedCandidate mappings) ∨
      (candidate.path ∉ candidatePaths (changes.filterMap (changedCandidate mappings))
        ∧ (classify candidate.path mappings).isSome = true
        ∧ (∃ kind, candidate = ⟨candidate.path, kind, .change .modified, none, none⟩)
        ∧ ∃ change ∈ changes, partManifest tables change.path = some candidate.path) := by
  rcases List.mem_append.mp h with h | h
  · exact .inl h
  · obtain ⟨path, hpath, hc⟩ := List.mem_filterMap.mp h
    obtain ⟨kind, hkind, rfl⟩ := manifestCandidate_eq_some hc
    rw [List.mem_insertionSort, List.mem_dedup, List.mem_filter] at hpath
    obtain ⟨change, hchange, hpart⟩ := List.mem_filterMap.mp hpath.1
    refine .inr ⟨?_, by simp [hkind], ⟨kind, rfl⟩, change, (List.mem_filter.mp hchange).1, hpart⟩
    simpa [candidatePaths] using hpath.2

variable (tables mappings stored) in
/-- The candidates of a difference are right, and every mapped file that differs is one. -/
theorem candidatesFromChanges_spec (hkeep : Keeps content repo provider) {old head : String}
    {changes : List Change} (h : provider.diff old head = .ok changes) :
    AllRight mappings repo head (candidatesFromChanges tables mappings stored changes)
      ∧ ∀ path, (classify path mappings).isSome = true → repo.blob old path ≠ repo.blob head path →
          path ∈ candidatePaths (candidatesFromChanges tables mappings stored changes) := by
  constructor
  · intro candidate hmem
    rcases candidatesFromChanges_cases tables mappings stored hmem with hmem | ⟨_, _, ⟨kind, hc⟩, _⟩
    · obtain ⟨change, hchange, hc⟩ := List.mem_filterMap.mp hmem
      obtain ⟨kind, _, rfl⟩ := changedCandidate_eq_some.mp hc
      obtain ⟨hblob, hgone, _⟩ := blobChange_new ((hkeep.diff old head changes h change).mp hchange)
      refine ⟨?_, fun blob hid => hblob.symm.trans hid, by simp⟩
      intro _ hdeleted
      exact hgone.mp (CandidateType.change.inj hdeleted)
    · rw [hc]
      exact ⟨by simp, by simp, by simp⟩
  · intro path hmapped hne
    rw [candidatePaths, candidatesFromChanges, List.map_append]
    exact List.mem_append_left _ (mem_changed_of_differs hkeep h hmapped hne)

variable (mappings stored) in
/-- A file of the tree is a candidate, unless it is mapped to nothing or stored as it is. -/
theorem treeCandidate_cases (full : Bool) (entry : TreeEntry) :
    (classify entry.path mappings = none ∧ treeCandidate mappings stored full entry = none) ∨
    (∃ record, stored.get entry.path = some record ∧ record.blobId = some entry.blobId
      ∧ (record.status = .ok ∨ record.status = .tooLarge)
      ∧ full = false ∧ treeCandidate mappings stored full entry = none) ∨
    ∃ kind type, classify entry.path mappings = some kind ∧ type ≠ .deleted
      ∧ treeCandidate mappings stored full entry
        = some ⟨entry.path, kind, .change type, some entry.blobId, entry.size⟩ := by
  unfold treeCandidate
  cases hkind : classify entry.path mappings with
  | none => exact .inl ⟨rfl, rfl⟩
  | some kind =>
    right
    rw [Option.bind_some]
    cases hget : stored.get entry.path with
    | none => exact .inr ⟨kind, .added, rfl, by simp, rfl⟩
    | some record =>
      by_cases hstored : (!full && decide (record.blobId = some entry.blobId)
          && (decide (record.status = .ok) || decide (record.status = .tooLarge))) = true
      · left
        simp only [Bool.and_eq_true, Bool.or_eq_true, decide_eq_true_eq, Bool.not_eq_true'] at hstored
        obtain ⟨⟨hfull, hblob⟩, hstatus⟩ := hstored
        refine ⟨record, rfl, hblob, hstatus, hfull, ?_⟩
        show (if _ then none else _) = none
        rw [if_pos (by simp [hfull, hblob, hstatus])]
      · right
        refine ⟨kind, .modified, rfl, by simp, ?_⟩
        show (if _ then none else _) = _
        rw [if_neg hstored]

/-- A stored file that is not among some paths is a candidate, unless it is deleted. -/
theorem goneCandidate_eq_some {seen : List String} {record : SourceFile} {candidate : Candidate} :
    goneCandidate seen record = some candidate ↔ record.path ∉ seen ∧ record.status ≠ .deleted
      ∧ candidate = ⟨record.path, record.kind, .change .deleted, none, none⟩ := by
  unfold goneCandidate
  split
  · rename_i hcond
    simp only [Bool.and_eq_true, Bool.not_eq_true', List.contains_eq_mem, decide_eq_false_iff_not,
      decide_eq_true_eq] at hcond
    simp [hcond, eq_comm]
  · rename_i hcond
    simp only [Bool.and_eq_true, Bool.not_eq_true', List.contains_eq_mem, decide_eq_false_iff_not,
      decide_eq_true_eq] at hcond
    simp
    tauto

/-- The mapped files of a tree. -/
def mappedPaths (mappings : List Mapping) (tree : List TreeEntry) : List String :=
  (tree.filter fun entry => (classify entry.path mappings).isSome).map TreeEntry.path

/-- A mapped file is in the tree where it has a blob. -/
theorem mem_mappedPaths {head path : String} (hmapped : (classify path mappings).isSome = true) :
    path ∈ mappedPaths mappings (repo.tree head) ↔ ∃ blob, repo.blob head path = some blob := by
  constructor
  · intro hmem
    obtain ⟨entry, hentry, rfl⟩ := List.mem_map.mp hmem
    exact ⟨entry.blobId, Repository.blob_of_mem (List.mem_filter.mp hentry).1⟩
  · intro hblob
    obtain ⟨blob, hblob⟩ := hblob
    obtain ⟨entry, hentry, rfl, _⟩ := Repository.mem_of_blob hblob
    exact List.mem_map.mpr ⟨entry, List.mem_filter.mpr ⟨hentry, hmapped⟩, rfl⟩

variable (mappings stored repo) in
/-- The candidates of a tree are right, and every mapped file that is not one is in step. -/
theorem candidatesFromTree_spec (full : Bool) (head : String) :
    AllRight mappings repo head (candidatesFromTree mappings stored full (repo.tree head))
      ∧ ∀ path, (classify path mappings).isSome = true →
          path ∉ candidatePaths (candidatesFromTree mappings stored full (repo.tree head)) →
          InStep (repo.blob head path) (stored.get path) := by
  constructor
  · intro candidate hmem
    rcases List.mem_append.mp hmem with hmem | hmem
    · obtain ⟨entry, hentry, hc⟩ := List.mem_filterMap.mp hmem
      have hblob := Repository.blob_of_mem hentry
      obtain ⟨_, hnone⟩ | ⟨_, _, _, _, _, hnone⟩ | ⟨kind, type, _, htype, hsome⟩ :=
        treeCandidate_cases mappings stored full entry
      · rw [hnone] at hc; cases hc
      · rw [hnone] at hc; cases hc
      · rw [hsome] at hc
        cases hc
        exact ⟨by simp [htype], by simp [hblob], by simp⟩
    · obtain ⟨record, _, hc⟩ := List.mem_filterMap.mp hmem
      obtain ⟨hseen, _, rfl⟩ := goneCandidate_eq_some.mp hc
      refine ⟨?_, by simp, by simp⟩
      intro hmapped _
      cases hblob : repo.blob head record.path with
      | none => rfl
      | some blob => exact absurd ((mem_mappedPaths hmapped).mpr ⟨blob, hblob⟩) hseen
  · intro path hmapped hnot
    have hnot' : ∀ candidate ∈ candidatesFromTree mappings stored full (repo.tree head),
        candidate.path ≠ path := by
      intro candidate hmem heq
      exact hnot (List.mem_map.mpr ⟨candidate, hmem, heq⟩)
    cases hblob : repo.blob head path with
    | some blob =>
      obtain ⟨entry, hentry, rfl, rfl⟩ := Repository.mem_of_blob hblob
      obtain ⟨hunmapped, _⟩ | ⟨record, hget, hid, hstatus, _, _⟩ | ⟨kind, type, _, _, hsome⟩ :=
        treeCandidate_cases mappings stored full entry
      · simp [hunmapped] at hmapped
      · rw [hget]
        refine .inr (.inl ⟨?_, hid⟩)
        rcases hstatus with hs | hs <;> simp [hs]
      · exact absurd rfl (hnot' _ (List.mem_append_left _ (List.mem_filterMap.mpr ⟨entry, hentry, hsome⟩)))
    | none =>
      have hseen : path ∉ mappedPaths mappings (repo.tree head) := by
        rw [mem_mappedPaths hmapped, hblob]
        simp
      cases hget : stored.get path with
      | none => trivial
      | some record =>
        have hpath := Sql.Table.key_of_get hget
        by_cases hdeleted : record.status = .deleted
        · exact .inl hdeleted
        · refine absurd hpath (hnot' _ (List.mem_append_right _ (List.mem_filterMap.mpr
            ⟨record, Sql.Table.mem_of_get hget, goneCandidate_eq_some.mpr ⟨?_, hdeleted, rfl⟩⟩)))
          rw [hpath]
          exact hseen

/-- A file that failed the last time is a candidate of any tree. -/
theorem candidatesFromTree_retries (full : Bool) (tree : List TreeEntry) {record : SourceFile}
    (hrecord : record ∈ stored.rows) (hretried : record.status.isRetried = true) :
    record.path ∈ candidatePaths (candidatesFromTree mappings stored full tree) := by
  rw [candidatePaths, candidatesFromTree, List.map_append, List.mem_append]
  by_cases hseen : record.path ∈ mappedPaths mappings tree
  · left
    obtain ⟨entry, hentry, hpath⟩ := List.mem_map.mp hseen
    obtain ⟨hentry, hmapped⟩ := List.mem_filter.mp hentry
    have hget : stored.get entry.path = some record := by
      rw [hpath]
      exact Sql.Table.get_of_mem hrecord
    obtain ⟨hunmapped, _⟩ | ⟨other, hother, _, hstatus, _, _⟩ | ⟨kind, type, _, _, hsome⟩ :=
      treeCandidate_cases mappings stored full entry
    · simp [hunmapped] at hmapped
    · -- a file that is stored as it is did not fail
      rw [hget] at hother
      cases hother
      rcases hstatus with hs | hs <;> simp [hs, FileStatus.isRetried] at hretried
    · exact List.mem_map.mpr ⟨_, List.mem_filterMap.mpr ⟨entry, hentry, hsome⟩, hpath⟩
  · right
    have hstatus : record.status ≠ .deleted := by
      intro hdeleted
      simp [hdeleted, FileStatus.isRetried] at hretried
    exact List.mem_map.mpr ⟨_, List.mem_filterMap.mpr ⟨record, hrecord,
      goneCandidate_eq_some.mpr ⟨hseen, hstatus, rfl⟩⟩, rfl⟩

/-- A file that failed the last time and is not a candidate. -/
theorem retryCandidate_eq_some {listed : List String} {record : SourceFile} {candidate : Candidate} :
    retryCandidate mappings listed record = some candidate ↔
      record.status.isRetried = true ∧ record.path ∉ listed ∧ candidate
        = ⟨record.path, (classify record.path mappings).getD record.kind, .retry, none, none⟩ := by
  unfold retryCandidate
  split
  · rename_i hcond
    simp only [Bool.and_eq_true, Bool.not_eq_true', List.contains_eq_mem,
      decide_eq_false_iff_not] at hcond
    simp [hcond, eq_comm]
  · rename_i hcond
    simp only [Bool.and_eq_true, Bool.not_eq_true', List.contains_eq_mem,
      decide_eq_false_iff_not] at hcond
    simp
    tauto

/-- The retried files come on top of the candidates. -/
theorem mem_withRetries {candidates : List Candidate} {candidate : Candidate} :
    candidate ∈ withRetries mappings stored candidates ↔ candidate ∈ candidates ∨
      ∃ record ∈ stored.rows, record.status.isRetried = true ∧ record.path ∉ candidatePaths candidates
        ∧ candidate
          = ⟨record.path, (classify record.path mappings).getD record.kind, .retry, none, none⟩ := by
  simp only [withRetries, mem_sortCandidates, List.mem_append, List.mem_filterMap,
    retryCandidate_eq_some]
  rfl

/-- A retried file is right, whatever it is. -/
theorem AllRight.withRetries {head : String} {candidates : List Candidate}
    (h : AllRight mappings repo head candidates) :
    AllRight mappings repo head (withRetries mappings stored candidates) := by
  intro candidate hmem
  rcases mem_withRetries.mp hmem with hmem | ⟨record, _, _, _, rfl⟩
  · exact h candidate hmem
  · exact ⟨by simp, by simp, by simp⟩

theorem mem_candidatePaths_withRetries {candidates : List Candidate} {path : String}
    (h : path ∈ candidatePaths candidates) :
    path ∈ candidatePaths (withRetries mappings stored candidates) := by
  obtain ⟨candidate, hmem, hpath⟩ := List.mem_map.mp h
  exact List.mem_map.mpr ⟨candidate, mem_withRetries.mpr (.inl hmem), hpath⟩

/-- Every file that failed the last time is among the candidates. -/
theorem withRetries_retries {candidates : List Candidate} {record : SourceFile}
    (hrecord : record ∈ stored.rows) (hretried : record.status.isRetried = true) :
    record.path ∈ candidatePaths (withRetries mappings stored candidates) := by
  by_cases hlisted : record.path ∈ candidatePaths candidates
  · exact mem_candidatePaths_withRetries hlisted
  · exact List.mem_map.mpr ⟨_, mem_withRetries.mpr (.inr ⟨record, hrecord, hretried, hlisted, rfl⟩),
      rfl⟩

/-! ## The three ways -/

variable {lastSynced : Option String} {head : String} {full : Bool} {candidates : List Candidate}
  {strategy : Strategy}

/-- The ways to find the candidates, with what each asked the provider. -/
theorem discoverCandidates_cases
    (h : discoverCandidates tables mappings stored provider lastSynced head full
      = .ok (candidates, strategy)) :
    (∃ tree, provider.listTree head = .ok tree ∧ strategy = .full
      ∧ candidates = sortCandidates (candidatesFromTree mappings stored true tree)) ∨
    (∃ last changes, lastSynced = some last ∧ provider.diff last head = .ok changes
      ∧ strategy = .diff ∧ candidates
        = withRetries mappings stored (candidatesFromChanges tables mappings stored changes)) ∨
    (lastSynced = some head ∧ strategy = .diff ∧ candidates = withRetries mappings stored []) ∨
    (∃ tree, provider.listTree head = .ok tree ∧ strategy = .tree ∧ candidates
        = withRetries mappings stored (candidatesFromTree mappings stored false tree)) := by
  have htree : ∀ full cs, treeCandidates mappings stored provider head full = .ok cs →
      ∃ tree, provider.listTree head = .ok tree ∧ cs = candidatesFromTree mappings stored full tree := by
    intro full cs hcs
    unfold treeCandidates at hcs
    split at hcs
    · rename_i tree hlist
      cases hcs
      exact ⟨tree, hlist, rfl⟩
    · cases hcs
  unfold discoverCandidates at h
  split at h
  · obtain ⟨cs, hcs, heq⟩ := map_eq_ok.mp h
    obtain ⟨tree, hlist, rfl⟩ := htree _ _ hcs
    cases heq
    exact .inl ⟨tree, hlist, rfl, rfl⟩
  · obtain ⟨found, hfound, h⟩ := bind_eq_ok.mp h
    cases found with
    | some cs =>
      cases h
      right; left
      unfold diffCandidates at hfound
      split at hfound
      · rename_i hlast
        dsimp only at hfound
        split at hfound
        · rename_i changes hdiff
          cases hfound
          cases hsome : lastSynced with
          | none => simp [hsome, truthy] at hlast
          | some last =>
            rw [hsome] at hdiff
            exact ⟨last, changes, rfl, hdiff, rfl, rfl⟩
        · cases hfound
        · split at hfound <;> cases hfound
      · cases hfound
    | none =>
      dsimp only at h
      split at h
      · rename_i hsame
        cases h
        exact .inr (.inr (.inl ⟨hsame, rfl, rfl⟩))
      · obtain ⟨cs, hcs, heq⟩ := bind_eq_ok.mp h
        obtain ⟨tree, hlist, rfl⟩ := htree _ _ hcs
        cases heq
        exact .inr (.inr (.inr ⟨tree, hlist, rfl, rfl⟩))

/-- The candidates are right. A difference has every mapped file that differs from the last synced
commit, the trees every mapped file that is not in step. -/
theorem discoverCandidates_spec (hkeep : Keeps content repo provider)
    (h : discoverCandidates tables mappings stored provider lastSynced head full
      = .ok (candidates, strategy)) :
    AllRight mappings repo head candidates ∧
    (strategy = .diff → ∃ last, lastSynced = some last ∧
      ∀ path, (classify path mappings).isSome = true → repo.blob last path ≠ repo.blob head path →
        path ∈ candidatePaths candidates) ∧
    (strategy ≠ .diff → ∀ path, (classify path mappings).isSome = true →
      path ∉ candidatePaths candidates → InStep (repo.blob head path) (stored.get path)) := by
  obtain ⟨tree, hlist, rfl, rfl⟩ | ⟨last, changes, rfl, hdiff, rfl, rfl⟩ | ⟨rfl, rfl, rfl⟩
    | ⟨tree, hlist, rfl, rfl⟩ := discoverCandidates_cases h
  · have htree := hkeep.listTree head tree hlist
    subst htree
    obtain ⟨hright, hrest⟩ := candidatesFromTree_spec mappings stored repo true head
    refine ⟨fun candidate hmem => hright candidate (mem_sortCandidates.mp hmem), by simp, ?_⟩
    intro _ path hmapped hnot
    exact hrest path hmapped (fun hmem => hnot (mem_candidatePaths_sort.mpr hmem))
  · obtain ⟨hright, hcovers⟩ := candidatesFromChanges_spec tables mappings stored hkeep hdiff
    refine ⟨hright.withRetries, fun _ => ⟨last, rfl, ?_⟩, by simp⟩
    intro path hmapped hne
    exact mem_candidatePaths_withRetries (hcovers path hmapped hne)
  · have hnone : AllRight mappings repo head [] := by
      intro candidate hmem
      cases hmem
    exact ⟨hnone.withRetries, fun _ => ⟨head, rfl, fun _ _ hne => absurd rfl hne⟩, by simp⟩
  · have htree := hkeep.listTree head tree hlist
    subst htree
    obtain ⟨hright, hrest⟩ := candidatesFromTree_spec mappings stored repo false head
    refine ⟨hright.withRetries, by simp, ?_⟩
    intro _ path hmapped hnot
    exact hrest path hmapped (fun hmem => hnot (mem_candidatePaths_withRetries hmem))

/-- Every file that failed the last time is read again, whatever the provider answers. -/
theorem discoverCandidates_retries
    (h : discoverCandidates tables mappings stored provider lastSynced head full
      = .ok (candidates, strategy)) {record : SourceFile} (hrecord : record ∈ stored.rows)
    (hretried : record.status.isRetried = true) : record.path ∈ candidatePaths candidates := by
  obtain ⟨tree, _, _, rfl⟩ | ⟨_, _, _, _, _, rfl⟩ | ⟨_, _, rfl⟩ | ⟨_, _, _, rfl⟩ :=
    discoverCandidates_cases h
  · exact mem_candidatePaths_sort.mpr (candidatesFromTree_retries true tree hrecord hretried)
  all_goals exact withRetries_retries hrecord hretried

end

end TrustPortal.Proofs.GitSources
