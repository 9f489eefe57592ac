import TrustPortal.Proofs.GitSources.SyncOutcome

/-!
# `TrustPortal.Proofs.GitSources.CommitRecords`: no commit is left out

A sync of a source that records commits asks for the commits between the last synced one and the
head, and keeps those that touched a mapped path. The ranges of the syncs follow each other, also
where a sync was interrupted after it recorded its commits: the next one starts from the same commit
and finds them known.

`Logged` is the invariant: every commit that is reachable from the last synced commit and touched a
path that the source reads is recorded, except for those that were there when an administrator set
the last synced commit. It holds while no list of commits is cut short (`AllRecorded`).
-/

set_option autoImplicit false

namespace TrustPortal.Proofs.GitSources

open TrustPortal.GitSources
open TrustPortal.Lib

/-! ## One sync -/

section
variable {provider : GitProvider} {source : GitSource} {head : String} {full : Bool}
  {commits recorded : Sql.Table CommitRow.commitId} {truncated : Bool} {graph : CommitGraph}

/-- The ids of the recorded commits. -/
def recordedIds (commits : Sql.Table CommitRow.commitId) : List String :=
  commits.rows.map CommitRow.commitId

/-- A commit changed a path that a source reads. -/
def Touches (graph : CommitGraph) (source : GitSource) (commit : String) : Prop :=
  ∃ path ∈ graph.changed commit, source.Reads path

/-- A row of a commit has the paths that the source reads, and at least one. -/
structure RowOf (graph : CommitGraph) (source : GitSource) (row : CommitRow) : Prop where
  some : row.paths ≠ []
  paths : ∀ path, path ∈ row.paths ↔ path ∈ graph.changed row.commitId ∧ source.Reads path

/-- A commit of the history is recorded already, touched nothing, or gets a row. -/
theorem commitRow_cases {known : List String} {info : CommitInfo} {row : Option CommitRow}
    (hkeep : KeepsHistory graph provider)
    (h : commitRow provider source.mappings known info = .ok row) :
    info.commitId ∈ known ∨ (row = none ∧ ¬Touches graph source info.commitId) ∨
      ∃ new, row = some new ∧ new.commitId = info.commitId ∧ RowOf graph source new := by
  unfold commitRow at h
  split at h
  · rename_i hknown
    exact .inl (by simpa using hknown)
  · right
    obtain ⟨paths, hpaths, heq⟩ := map_eq_ok.mp h
    have hchanged := hkeep.changed info paths hpaths
    subst hchanged
    dsimp only at heq
    split at heq
    · rename_i hempty
      left
      refine ⟨heq.symm, ?_⟩
      intro htouches
      obtain ⟨path, hpath, hreads⟩ := htouches
      have hmem : path ∈ (graph.changed info.commitId).filter
          fun path => (classify path source.mappings).isSome :=
        List.mem_filter.mpr ⟨hpath, hreads⟩
      rw [List.isEmpty_iff.mp hempty] at hmem
      cases hmem
    · rename_i hsome
      right
      refine ⟨_, heq.symm, rfl, ⟨?_, ?_⟩⟩
      · simpa [List.isEmpty_iff] using hsome
      · intro path
        exact List.mem_filter

/-- What the recording of the commits of a sync adds. -/
structure Recorded (graph : CommitGraph) (source : GitSource) (head : String)
    (commits recorded : Sql.Table CommitRow.commitId) : Prop where
  /-- No commit is lost. -/
  kept : ∀ row ∈ commits.rows, row ∈ recorded.rows
  /-- A new row is one of its commit. -/
  rows : ∀ row ∈ recorded.rows, row ∈ commits.rows ∨ RowOf graph source row
  /-- Every commit since the last synced one that touched a path has a row. -/
  range : ∀ commit, graph.reaches head commit →
    (∀ last, source.lastSyncedCommit = some last → ¬graph.reaches last commit) →
    Touches graph source commit → commit ∈ recordedIds recorded

/-- The commits that the history of a sync has to have are in it. -/
theorem readHistory_spec (hkeep : KeepsHistory graph provider) {limit : Nat}
    {history : List CommitInfo} {last : Option String}
    (h : readHistory provider last head limit full = .ok history) (hshort : history.length < limit)
    {commit : String} (hreach : graph.reaches head commit)
    (hnew : ∀ c, last = some c → ¬graph.reaches c commit) :
    commit ∈ history.map CommitInfo.commitId := by
  unfold readHistory at h
  split at h
  · rename_i found hfound
    cases h
    exact (hkeep.between _ _ _ _ hfound hshort commit).mpr ⟨hreach, hnew⟩
  · split at h
    · cases h
    · split at h
      · cases h
      · split at h
        · -- the last synced commit is not known, and the sync is a full one
          rename_i found hfound
          cases h
          exact (hkeep.between _ _ _ _ hfound hshort commit).mpr ⟨hreach, by simp⟩
        · cases h
  · cases h

/-- A sync records the commits of its range. -/
theorem recordCommits_spec (hkeep : KeepsHistory graph provider)
    (hshort : ∀ history, readHistory provider source.lastSyncedCommit head source.historyLimit full
      = .ok history → history.length < source.historyLimit)
    (h : recordCommits provider source head full commits = .ok (recorded, truncated)) :
    Recorded graph source head commits recorded := by
  unfold recordCommits at h
  rw [if_neg (by simp [hkeep.supported])] at h
  obtain ⟨history, hhistory, h⟩ := bind_eq_ok.mp h
  split at h
  · cases h
  · rename_i rows hrows
    split at h
    · rename_i inserted hinsert
      cases h
      have hall := mapM_eq_ok.mp hrows
      have hinserted := Sql.Table.rows_foldlM_insert hinsert
      refine ⟨?_, ?_, ?_⟩
      · intro row hrow
        rw [hinserted]
        exact List.mem_append_left _ hrow
      · intro row hrow
        rw [hinserted] at hrow
        rcases List.mem_append.mp hrow with hold | hnew
        · exact .inl hold
        · right
          have hmem : some row ∈ rows := by simpa using hnew
          obtain ⟨i, hi, hget⟩ := List.mem_iff_getElem.mp hmem
          have hinfo := hall.get (by rw [hall.length_eq]; exact hi) hi
          simp only [List.get_eq_getElem, hget] at hinfo
          obtain hknown | ⟨hnone, _⟩ | ⟨new, hsome, _, hrow⟩ := commitRow_cases hkeep hinfo
          · unfold commitRow at hinfo
            rw [if_pos (by simpa using hknown)] at hinfo
            cases hinfo
          · cases hnone
          · cases hsome
            exact hrow
      · intro commit hreach hnew htouches
        have hmem := readHistory_spec hkeep hhistory (hshort history hhistory) hreach hnew
        obtain ⟨info, hinfo, rfl⟩ := List.mem_map.mp hmem
        obtain ⟨i, hi, hget⟩ := List.mem_iff_getElem.mp hinfo
        have hrow := hall.get hi (by rw [← hall.length_eq]; exact hi)
        simp only [List.get_eq_getElem, hget] at hrow
        rw [recordedIds, hinserted, List.map_append, List.mem_append]
        obtain hknown | ⟨_, hno⟩ | ⟨new, hsome, hid, _⟩ := commitRow_cases hkeep hrow
        · exact .inl hknown
        · exact absurd htouches hno
        · right
          refine List.mem_map.mpr ⟨new, ?_, hid⟩
          have hlist : some new ∈ rows := by
            rw [← hsome]
            exact List.getElem_mem _
          simpa using hlist
    · cases h

end

/-! ## Runs -/

section
variable {σ : Type} {tools : SyncTools} {importers : Importers σ}
  {graphs : RepositoryIdentity → CommitGraph}

/-- The graph of a source's repository. -/
abbrev graphOf (graphs : RepositoryIdentity → CommitGraph) (source : GitSource) : CommitGraph :=
  graphs (repositoryIdentity source)

/-- What makes the record of commits complete, at an event:

- the syncs record commits, from a provider that keeps its contract, and the list is not cut short;
- an administrator does not change what the source reads while its first sync is going on, and does
  not set the last synced commit while a sync is. -/
def AllRecorded (graphs : RepositoryIdentity → CommitGraph) (s : SyncState σ × SyncHistory) :
    SyncEvent → Prop
  | .finish step => ∀ run, s.1.running = some run → run.source.recordCommits = true ∧
      KeepsHistory (graphOf graphs run.source) step.provider ∧
      ∀ history, readHistory step.provider run.source.lastSyncedCommit run.head
        run.source.historyLimit run.full = .ok history → history.length < run.source.historyLimit
  | .update localAllowed data => ∀ run updated, s.1.running = some run →
      run.source.lastSyncedCommit = none →
      applyConfig localAllowed s.1.source data = .ok updated →
      repositoryIdentity updated = repositoryIdentity s.1.source
        ∧ readingIdentity updated = readingIdentity s.1.source
  | .cutover _ => s.1.running = none
  | .start _ _ _ _ | .file _ _ | .stop => True

/-- Every commit up to `last` that touched a path of the source is recorded, but for those up to the
commit that an administrator set. -/
def RecordedUpTo (graph : CommitGraph) (source : GitSource) (cutover : Option String)
    (commits : Sql.Table CommitRow.commitId) (last : String) : Prop :=
  ∀ commit, graph.reaches last commit → (∀ c, cutover = some c → ¬graph.reaches c commit) →
    Touches graph source commit → commit ∈ recordedIds commits

/-- What holds of a source whose commits are recorded. -/
structure Logged (graphs : RepositoryIdentity → CommitGraph) (s : SyncState σ × SyncHistory) : Prop where
  recorded : ∀ last, s.1.source.lastSyncedCommit = some last →
    RecordedUpTo (graphOf graphs s.1.source) s.1.source s.2.cutover s.1.store.commits last
  steady : ∀ run, s.1.running = some run → Steady s.1.source run.source

theorem touches_of_reading {graph : CommitGraph} {source other : GitSource}
    (h : readingIdentity source = readingIdentity other) :
    Touches graph source = Touches graph other := by
  funext commit
  rw [Touches, Touches, reads_of_reading h]

/-- A step that records no commit, and leaves the sync or ends it. -/
theorem Logged.congr {s s' : SyncState σ} {history history' : SyncHistory}
    (h : Logged graphs (s, history)) (hsource : SameReading s'.source s.source)
    (hcommits : s'.store.commits = s.store.commits) (hcutover : history'.cutover = history.cutover)
    (hrunning : ∀ run', s'.running = some run' →
      ∃ run, s.running = some run ∧ run'.source = run.source) :
    Logged graphs (s', history') where
  recorded := by
    intro last hlast
    dsimp only at hlast ⊢
    rw [hsource.last] at hlast
    unfold RecordedUpTo
    rw [touches_of_reading hsource.reading, graphOf, hsource.repository, hcommits, hcutover]
    exact h.recorded last hlast
  steady := by
    intro run' hrun'
    obtain ⟨run, hrun, heq⟩ := hrunning run' hrun'
    rw [heq]
    exact (h.steady run hrun).congr hsource

/-- What the end of a sync leaves of the commits. -/
theorem finishSync_commits {s : SyncState σ} (step : FinishStep) {run : Running}
    (hrun : s.running = some run) (htodo : run.todo = []) :
    (finishSync s step).store.commits
      = match finishHistory run step.provider s.store.commits with
        | .ok (commits, _) => commits
        | .error _ => s.store.commits := by
  unfold finishSync
  rw [hrun]
  dsimp only
  rw [if_neg (by simp [htodo])]
  split
  · rename_i error herror
    rw [herror]
    rfl
  · rename_i commits truncated hcommits
    rw [hcommits]
    split <;> rfl

/-- The commits up to the head are recorded where a sync came to its end. -/
theorem recordedUpTo_head {s : SyncState σ} {history : SyncHistory} {step : FinishStep} {run : Running}
    (h : Logged graphs (s, history)) (hrun : s.running = some run)
    (hcomplete : AllRecorded graphs (s, history) (.finish step))
    (hlast : s.source.lastSyncedCommit = run.source.lastSyncedCommit)
    {commits : Sql.Table CommitRow.commitId} {truncated : Bool}
    (hhistory : finishHistory run step.provider s.store.commits = .ok (commits, truncated)) :
    RecordedUpTo (graphOf graphs run.source) run.source
      (if run.source.lastSyncedCommit = none then none else history.cutover) commits run.head := by
  obtain ⟨hrecords, hkeep, hshort⟩ := hcomplete run hrun
  obtain ⟨hrepository, hreading⟩ := (h.steady run hrun).same hlast
  have hknown : ∀ last, run.source.lastSyncedCommit = some last →
      RecordedUpTo (graphOf graphs run.source) run.source history.cutover s.store.commits last := by
    intro last hsome
    have hold := h.recorded last (hlast.trans hsome)
    unfold RecordedUpTo at hold ⊢
    dsimp only at hold
    rw [touches_of_reading hreading, graphOf, hrepository] at hold
    exact hold
  unfold finishHistory at hhistory
  split at hhistory
  · have hadded := recordCommits_spec hkeep hshort hhistory
    intro commit hreach hcutover htouches
    cases hsome : run.source.lastSyncedCommit with
    | none => exact hadded.range commit hreach (by simp [hsome]) htouches
    | some last =>
      rw [hsome, if_neg (by simp)] at hcutover
      by_cases hbefore : (graphOf graphs run.source).reaches last commit
      · -- it was recorded by an earlier sync
        obtain ⟨row, hrow, hid⟩ := List.mem_map.mp (hknown last hsome commit hbefore hcutover htouches)
        exact List.mem_map.mpr ⟨row, hadded.kept row hrow, hid⟩
      · refine hadded.range commit hreach ?_ htouches
        intro c hc
        rw [hsome] at hc
        cases hc
        exact hbefore
  · rename_i hsame
    have hhead : run.source.lastSyncedCommit = some run.head := by
      by_contra hne
      exact hsame ⟨hrecords, hne⟩
    cases hhistory
    rw [hhead, if_neg (by simp)]
    exact hknown run.head hhead

/-- A sync that comes to its end records its commits. -/
theorem Logged.finish {s : SyncState σ} {history : SyncHistory} (h : Logged graphs (s, history))
    (step : FinishStep) (hcomplete : AllRecorded graphs (s, history) (.finish step)) :
    Logged graphs (finishSync s step, history.after s (finishSync s step) (.finish step)) := by
  have hsame : finishSync s step = s → history.after s (finishSync s step) (.finish step) = history →
      Logged graphs (finishSync s step, history.after s (finishSync s step) (.finish step)) := by
    intro hstate hhistory
    rw [hhistory, hstate]
    exact h
  cases hrun : s.running with
  | none =>
    refine hsame ?_ ?_
    · unfold finishSync
      rw [hrun]
    · unfold SyncHistory.after
      rw [hrun]
  | some run =>
    by_cases htodo : run.todo = []
    · obtain ⟨_, hidle, hsource⟩ := finishSync_cases step hrun htodo
      have hcommits := finishSync_commits step hrun htodo
      have hsteady := h.steady run hrun
      have hkept : ∀ row ∈ s.store.commits.rows, row ∈ (finishSync s step).store.commits.rows := by
        intro row hrow
        rw [hcommits]
        split
        · rename_i commits truncated hhistory
          unfold finishHistory at hhistory
          split at hhistory
          · obtain ⟨_, hkeep, hshort⟩ := hcomplete run hrun
            exact (recordCommits_spec hkeep hshort hhistory).kept row hrow
          · cases hhistory
            exact hrow
        · exact hrow
      have hidle' : ∀ run', (finishSync s step).running = some run' →
          Steady (finishSync s step).source run'.source := by
        intro run' hrun'
        rw [hidle] at hrun'
        cases hrun'
      refine ⟨?_, hidle'⟩
      intro last hlast
      dsimp only at hlast ⊢
      rcases hsource with hreads | ⟨hstarted, hmoved, hrepository, hreading⟩
      · -- the last synced commit is what it was
        have hcutover : (history.after s (finishSync s step) (.finish step)).cutover
            = history.cutover := by
          unfold SyncHistory.after
          rw [hrun]
          dsimp only
          split
          · rename_i hhead
            rw [hreads.last] at hhead
            have hstarted : run.source.lastSyncedCommit ≠ none := by
              rcases hsteady.last with heq | hnone
              · rw [← heq, hhead.2]
                simp
              · rw [hnone] at hhead
                cases hhead.2
            exact if_neg hstarted
          · rfl
        rw [hreads.last] at hlast
        unfold RecordedUpTo
        rw [touches_of_reading hreads.reading, graphOf, hreads.repository, hcutover]
        intro commit hreach hbase htouches
        obtain ⟨row, hrow, hid⟩ := List.mem_map.mp (h.recorded last hlast commit hreach hbase htouches)
        exact List.mem_map.mpr ⟨row, hkept row hrow, hid⟩
      · rw [hmoved] at hlast
        cases hlast
        have hcutover : (history.after s (finishSync s step) (.finish step)).cutover
            = if run.source.lastSyncedCommit = none then none else history.cutover := by
          unfold SyncHistory.after
          rw [hrun]
          dsimp only
          rw [if_pos ⟨htodo, hmoved⟩]
        obtain ⟨hrepository', hreading'⟩ := hsteady.same hstarted
        unfold RecordedUpTo
        rw [touches_of_reading (hreading.trans hreading'), graphOf, hrepository, hrepository', hcutover]
        cases hhistory : finishHistory run step.provider s.store.commits with
        | ok result =>
          obtain ⟨commits, truncated⟩ := result
          rw [hhistory] at hcommits
          rw [hcommits]
          exact recordedUpTo_head h hrun hcomplete hstarted hhistory
        | error error =>
          -- a sync that could not record its commits failed
          exfalso
          have hfailed : (finishSync s step).source.lastSyncedCommit = s.source.lastSyncedCommit := by
            unfold finishSync
            rw [hrun]
            dsimp only
            rw [if_neg (by simp [htodo]), hhistory]
            exact (sameReading_failSync s step.applied).last
          have hhead : run.source.lastSyncedCommit = some run.head :=
            hstarted.symm.trans (hfailed.symm.trans hmoved)
          unfold finishHistory at hhistory
          rw [if_neg (fun hboth => hboth.2 hhead)] at hhistory
          cases hhistory
    · refine hsame ?_ ?_
      · unfold finishSync
        rw [hrun]
        exact if_pos htodo
      · unfold SyncHistory.after
        rw [hrun]
        exact if_neg (fun hboth => htodo hboth.1)

/-- Every event of a complete record keeps it. -/
theorem logged_step {s : SyncState σ × SyncHistory} {event : SyncEvent} (h : Logged graphs s)
    (hcomplete : AllRecorded graphs s event) : Logged graphs (tracedStep tools importers s event) := by
  obtain ⟨s, history⟩ := s
  have hgoing : ∀ run', s.running = some run' → ∃ run, s.running = some run ∧ run'.source = run.source :=
    fun run' hrun' => ⟨run', hrun', rfl⟩
  cases event with
  | update localAllowed data =>
    show Logged graphs (updated s (applyConfig localAllowed s.source data), history)
    unfold updated
    split
    · rename_i source hupdate
      refine ⟨?_, fun run hrun => (h.steady run hrun).update hupdate fun hstarted =>
        hcomplete run source hrun hstarted hupdate⟩
      intro last hlast
      dsimp only at hlast ⊢
      rcases applyConfig_lastSynced hupdate with hnone | ⟨hsame, hrepository, hreading⟩
      · rw [hnone] at hlast
        cases hlast
      · rw [hsame] at hlast
        unfold RecordedUpTo
        rw [touches_of_reading hreading, graphOf, hrepository]
        exact h.recorded last hlast
    · exact h
  | cutover commit =>
    show Logged graphs (updated s (setLastSyncedCommit s.source commit),
      history.after s (updated s (setLastSyncedCommit s.source commit)) (.cutover commit))
    unfold updated SyncHistory.after
    split
    · rename_i source hcutover
      obtain ⟨c, rfl⟩ := setLastSyncedCommit_eq hcutover
      dsimp only
      split
      · rename_i hsame
        rw [hsame]
        exact h
      · constructor
        · intro last hlast commit hreach hbase
          cases hlast
          exact absurd hreach (hbase c rfl)
        · intro run hrun
          have hidle : s.running = none := hcomplete
          dsimp only at hrun
          rw [hidle] at hrun
          cases hrun
    · rw [if_pos rfl]
      exact h
  | start provider memberId full applied =>
    unfold tracedStep syncStep SyncHistory.after
    dsimp only
    cases hrun : s.running with
    | some run =>
      simp only [Option.isSome_some, if_true]
      exact h
    | none =>
      simp only [Option.isSome_none, Bool.false_eq_true, if_false]
      cases hstart : startSync tools s provider memberId full with
      | ok run =>
        refine ⟨h.recorded, ?_⟩
        intro run' hrun'
        cases hrun'
        rw [(startSync_spec hstart).1]
        exact Steady.refl _
      | error error =>
        exact h.congr (sameReading_failSync s applied) rfl rfl (fun run' hrun' => by cases hrun')
  | file step applied =>
    show Logged graphs (syncFile tools importers s step applied, history)
    unfold syncFile
    split
    · exact h
    · rename_i run hrun
      split
      · exact h
      · split
        · rename_i store tally hwritten
          obtain ⟨row, hturn⟩ := fetchAndWrite_cases hwritten
          refine h.congr (SameReading.refl _) hturn.wrote.1.commits rfl ?_
          intro run' hrun'
          cases hrun'
          exact ⟨run, hrun, rfl⟩
        · exact h.congr (SameReading.refl _) rfl rfl (fun run' hrun' => by cases hrun')
        · exact h.congr (sameReading_failSync s applied) rfl rfl (fun run' hrun' => by cases hrun')
  | finish step =>
    show Logged graphs (finishSync s step, history.after s (finishSync s step) (.finish step))
    exact h.finish step hcomplete
  | stop =>
    show Logged graphs ({ s with running := none }, history)
    exact h.congr (SameReading.refl _) rfl rfl (fun run' hrun' => by cases hrun')

variable (tools importers) in
/-- In every state of a source whose syncs record commits and never find their list cut short, each
commit up to the last synced one that changed a path the source reads is recorded, but for those up
to the commit that an administrator set. -/
theorem commits_recorded (s : SyncState σ) (hidle : s.running = none)
    (hnew : s.source.lastSyncedCommit = none) (events : List SyncEvent)
    (hrun : Along (tracedStep tools importers) (AllRecorded graphs) (s, .new) events)
    (last commit : String)
    (hlast : (traced tools importers s events).1.source.lastSyncedCommit = some last)
    (hreach : (graphOf graphs (traced tools importers s events).1.source).reaches last commit)
    (hcutover : ∀ c, (traced tools importers s events).2.cutover = some c →
      ¬(graphOf graphs (traced tools importers s events).1.source).reaches c commit)
    (htouches : Touches (graphOf graphs (traced tools importers s events).1.source)
      (traced tools importers s events).1.source commit) :
    commit ∈ recordedIds (traced tools importers s events).1.store.commits := by
  have hstart : Logged graphs (s, .new) := by
    constructor
    · intro last hlast
      dsimp only at hlast
      rw [hnew] at hlast
      cases hlast
    · intro run hrun
      dsimp only at hrun
      rw [hidle] at hrun
      cases hrun
  have hlogged := run_invariant (fun _ _ => logged_step) hrun hstart
  exact hlogged.recorded last hlast commit hreach hcutover htouches

end

/-! ## A sample -/

/-- The second commit of the sample comes after the first one. -/
def sampleReaches (stop commit : String) : Bool :=
  (commit = "first" && (stop = "first" || stop = "second")) || (commit = "second" && stop = "second")

/-- The commits of the sample, which both change its file. -/
def sampleGraph : CommitGraph := ⟨fun stop commit => sampleReaches stop commit = true, fun _ => ["access.md"]⟩

/-- A commit of which only the id is known. -/
def sampleCommit (id : String) : CommitInfo := ⟨id, [], none, none, none, none, none, none, ""⟩

/-- The commits of a range, the newest first. -/
def sampleRange (start : Option String) (stop : String) : List String :=
  ["second", "first"].filter fun commit =>
    sampleReaches stop commit && !start.any fun first => sampleReaches first commit

/-- The sample's provider with its history. -/
def historyProvider (head : String) : GitProvider :=
  { sampleProvider head with
    supportsHistory := true
    commitsBetween := fun start stop limit => .ok (((sampleRange start stop).take limit).map sampleCommit)
    commitChangedPaths := fun _ => .ok ["access.md"] }

theorem keepsHistory_historyProvider (head : String) :
    KeepsHistory sampleGraph (historyProvider head) where
  supported := rfl
  between := by
    intro start stop limit commits h hshort commit
    cases h
    rw [List.length_map, List.length_take] at hshort
    rw [List.take_of_length_le (by omega), List.map_map,
      show CommitInfo.commitId ∘ sampleCommit = id from rfl, List.map_id]
    have hcommits : sampleReaches stop commit = true → commit ∈ ["second", "first"] := by
      intro hreach
      simp only [sampleReaches, Bool.or_eq_true, Bool.and_eq_true, decide_eq_true_eq] at hreach
      rcases hreach with ⟨rfl, _⟩ | ⟨rfl, _⟩ <;> simp
    simp only [sampleRange, List.mem_filter, Bool.and_eq_true, Bool.not_eq_true', sampleGraph]
    cases start with
    | none => simpa using hcommits
    | some first =>
      simp only [Option.any_some, Option.some.injEq, forall_eq', Bool.not_eq_true]
      constructor
      · exact fun hmem => hmem.2
      · exact fun hboth => ⟨hcommits hboth.1, hboth⟩
  changed := by
    intro info paths h
    cases h
    rfl

/-- Two syncs of the sample, with the commits of each. -/
def historyEvents : List SyncEvent :=
  sampleTurns (sampleProvider "first") "1"
    ++ .finish ⟨historyProvider "first", 0, true, none⟩ :: sampleTurns (sampleProvider "second") "2"
    ++ [.finish ⟨historyProvider "second", 0, true, none⟩]

/-- The end of a sync of the sample that records commits. -/
theorem complete_sampleFinish {s : SyncState Unit × SyncHistory} {head : String}
    (h : s.1.running.map (fun run => (run.source.recordCommits, run.source.historyLimit))
      = some (true, 500)) :
    AllRecorded (fun _ => sampleGraph) s (.finish ⟨historyProvider head, 0, true, none⟩) := by
  intro run hrun
  rw [hrun] at h
  obtain ⟨hrecords, hlimit⟩ := Prod.mk.inj (Option.some.inj h)
  refine ⟨hrecords, keepsHistory_historyProvider head, ?_⟩
  intro history hhistory
  cases hhistory
  rw [hlimit, List.length_map, List.length_take]
  have hlength : (sampleRange run.source.lastSyncedCommit run.head).length ≤ 2 :=
    List.length_filter_le _ _
  omega

/-- `commits_recorded` for the first commit, after the second sync. -/
theorem first_commit_stays_recorded :
    "first" ∈ recordedIds (traced sampleTools sampleImporters sampleState historyEvents).1.store.commits := by
  have hcomplete : Along (tracedStep sampleTools sampleImporters) (AllRecorded fun _ => sampleGraph)
      (sampleState, .new) historyEvents :=
    ⟨trivial, trivial, complete_sampleFinish (by decide), trivial, trivial,
      complete_sampleFinish (by decide), trivial⟩
  refine commits_recorded sampleTools sampleImporters sampleState rfl rfl historyEvents hcomplete
    "second" "first" rfl rfl ?_ ⟨"access.md", List.mem_singleton_self _, rfl⟩
  intro c hc
  cases hc

end TrustPortal.Proofs.GitSources
