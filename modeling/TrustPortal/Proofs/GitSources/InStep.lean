import TrustPortal.Lib.Run
import TrustPortal.Proofs.GitSources.Candidates

/-!
# `TrustPortal.Proofs.GitSources.InStep`: the stored files follow the repository

A source is run with its history (`tracedStep`), and at each event the outside of the portal promises
what `Promised` says. `Followed` is the invariant of such a run: every file that the source reads is
accounted for at its last synced commit or at a head that a sync has gone for since, and a sync that
is going on has left to do every file that is not accounted for at its head.

The invariant is one of `Lib.Mirror`: a sync starts with `Within.upTo` or with the comparison of the
trees, a turn of it is a `write`, and its end is `UpTo.within`.

An administrator who changes a source while its first sync is going on is left out (`Promised`): the
sync then ends with a last synced commit whose files it did not read under the new configuration.
-/

set_option autoImplicit false

namespace TrustPortal.Proofs.GitSources

open TrustPortal.GitSources
open TrustPortal.Lib
open TrustPortal.Lib.Mirror
open TrustPortal.Python (Bytes)

/-! ## Updates of the source -/

/-- The fields that an update sets do not include the last synced commit. -/
theorem setConfig_lastSynced {localAllowed : String → Bool} {source updated : GitSource}
    {data : ConfigData} (h : setConfig localAllowed source data = .ok updated) :
    updated.lastSyncedCommit = source.lastSyncedCommit := by
  unfold setConfig at h
  obtain ⟨role, _, h⟩ := bind_eq_ok.mp h
  obtain ⟨provider, _, h⟩ := bind_eq_ok.mp h
  obtain ⟨repository, _, h⟩ := bind_eq_ok.mp h
  dsimp only at h
  split at h
  on_goal 1 => split at h
  on_goal 1 => cases h
  -- the repository is right, or it is not in the update
  all_goals
    obtain ⟨branch, _, h⟩ := bind_eq_ok.mp h
    obtain ⟨mode, _, h⟩ := bind_eq_ok.mp h
    obtain ⟨mappings, _, h⟩ := bind_eq_ok.mp h
    obtain ⟨_, _, h⟩ := bind_eq_ok.mp h
    split at h
    · cases h
    · cases h
      rfl

/-- An update keeps a last synced commit only where the source reads the same files. -/
theorem applyConfig_lastSynced {localAllowed : String → Bool} {source updated : GitSource}
    {data : ConfigData} (h : applyConfig localAllowed source data = .ok updated) :
    updated.lastSyncedCommit = none ∨ (updated.lastSyncedCommit = source.lastSyncedCommit
      ∧ repositoryIdentity updated = repositoryIdentity source
      ∧ readingIdentity updated = readingIdentity source) := by
  unfold applyConfig at h
  obtain ⟨set, hset, heq⟩ := map_eq_ok.mp h
  have hlast := setConfig_lastSynced hset
  split at heq
  · subst heq
    exact .inl rfl
  · rename_i hcond
    subst heq
    cases hsource : source.lastSyncedCommit with
    | none =>
      left
      rw [hlast, hsource]
    | some commit =>
      right
      simp only [hsource, Option.isSome_some, Bool.true_and, Bool.or_eq_true, decide_eq_true_eq,
        not_or, not_not] at hcond
      exact ⟨by rw [hlast, hsource], hcond⟩

/-- A source, and what it was when a sync of it started. -/
structure Steady (source started : GitSource) : Prop where
  /-- The last synced commit is the one the sync started from, unless an update cleared it. -/
  last : source.lastSyncedCommit = started.lastSyncedCommit ∨ source.lastSyncedCommit = none
  /-- The source reads what the sync reads while it has its last synced commit. -/
  same : source.lastSyncedCommit = started.lastSyncedCommit →
    repositoryIdentity source = repositoryIdentity started
      ∧ readingIdentity source = readingIdentity started

theorem Steady.refl (source : GitSource) : Steady source source := ⟨.inl rfl, fun _ => ⟨rfl, rfl⟩⟩

/-- Two sources that read the same files of the same repository from the same commit. -/
structure SameReading (source other : GitSource) : Prop where
  last : source.lastSyncedCommit = other.lastSyncedCommit
  repository : repositoryIdentity source = repositoryIdentity other
  reading : readingIdentity source = readingIdentity other

theorem SameReading.refl (source : GitSource) : SameReading source source := ⟨rfl, rfl, rfl⟩

/-- A source that goes on reading the same. -/
theorem Steady.congr {source source' started : GitSource} (h : Steady source started)
    (hsource : SameReading source' source) : Steady source' started where
  last := by
    rw [hsource.last]
    exact h.last
  same := by
    intro hlast
    rw [hsource.last] at hlast
    rw [hsource.repository, hsource.reading]
    exact h.same hlast

/-- An update of a source, which does not change what the source reads while its first sync is going
on. -/
theorem Steady.update {source updated started : GitSource} {localAllowed : String → Bool}
    {data : ConfigData} (h : Steady source started)
    (hupdate : applyConfig localAllowed source data = .ok updated)
    (hfirst : started.lastSyncedCommit = none →
      repositoryIdentity updated = repositoryIdentity source
        ∧ readingIdentity updated = readingIdentity source) : Steady updated started := by
  rcases applyConfig_lastSynced hupdate with hnone | ⟨hlast, hrepository, hreading⟩
  · cases hstarted : started.lastSyncedCommit with
    | none =>
      obtain ⟨hrepository, hreading⟩ := hfirst hstarted
      refine h.congr ⟨?_, hrepository, hreading⟩
      rcases h.last with heq | hnone'
      · rw [hnone, heq, hstarted]
      · rw [hnone, hnone']
    | some commit =>
      have hne : updated.lastSyncedCommit ≠ started.lastSyncedCommit := by
        rw [hnone, hstarted]
        simp
      exact ⟨.inr hnone, fun heq => absurd heq hne⟩
  · exact h.congr ⟨hlast, hrepository, hreading⟩

/-- A cutover changes the last synced commit alone. -/
theorem setLastSyncedCommit_eq {source updated : GitSource} {commit : String}
    (h : setLastSyncedCommit source commit = .ok updated) :
    ∃ c, updated = { source with lastSyncedCommit := some c } := by
  unfold setLastSyncedCommit at h
  dsimp only at h
  split at h
  · cases h
    exact ⟨_, rfl⟩
  · cases h

/-! ## What is promised, and what holds -/

section
variable {σ : Type} (tools : SyncTools) (importers : Importers σ) (content : String → Bytes)
  (world : RepositoryIdentity → Repository)

/-- The repository of a source. -/
abbrev repositoryOf (source : GitSource) : Repository := world (repositoryIdentity source)

/-- What the outside promises at an event:

- the provider keeps its contract;
- a sync that starts from a difference finds no file that was changed and changed back since the last
  synced commit was set, while another sync had gone for the change;
- an administrator does not change what the source reads while its first sync is going on;
- an administrator sets the last synced commit while no sync is going on, to a commit with which the
  stored files are in step. -/
def Promised (s : SyncState σ × SyncHistory) : SyncEvent → Prop
  | .start provider memberId full _ =>
    Keeps content (repositoryOf world s.1.source) provider ∧
      ∀ run last, startSync tools s.1 provider memberId full = .ok run → run.strategy = .diff →
        s.1.source.lastSyncedCommit = some last →
        NoReturn s.1.source.Reads (repositoryOf world s.1.source).blob last run.head s.2.heads
  | .file step _ => ∀ run, s.1.running = some run →
      Keeps content (repositoryOf world run.source) step.provider
  | .update localAllowed data => ∀ run updated, s.1.running = some run →
      run.source.lastSyncedCommit = none →
      applyConfig localAllowed s.1.source data = .ok updated →
      repositoryIdentity updated = repositoryIdentity s.1.source
        ∧ readingIdentity updated = readingIdentity s.1.source
  | .cutover commit => s.1.running = none ∧ ∀ updated c path record,
      setLastSyncedCommit s.1.source commit = .ok updated → updated.lastSyncedCommit = some c →
      s.1.source.Reads path → s.1.store.files.get path = some record →
      InStep ((repositoryOf world s.1.source).blob c path) (some record)
  | .finish _ | .stop => True

/-- A sync that is going on, on the way to its head. -/
structure Going (s : SyncState σ) (history : SyncHistory) (run : Running) : Prop where
  head : run.head ∈ history.heads
  /-- The candidates say what the files are at the head. -/
  right : AllRight run.source.mappings (repositoryOf world run.source) run.head run.todo
  steady : Steady s.source run.source
  /-- Every file that is not a candidate is accounted for at the head. -/
  upTo : s.source.lastSyncedCommit = run.source.lastSyncedCommit →
    UpTo run.source.Reads
      (Accounted (repositoryOf world run.source) (if run.strategy = .diff then history.base else none))
      (repositoryOf world run.source).blob run.head (candidatePaths run.todo) s.store.files.get

/-- What holds of a source and its history. -/
structure Followed (s : SyncState σ × SyncHistory) : Prop where
  /-- Every file is accounted for at the last synced commit or at a head since. -/
  within : ∀ last, s.1.source.lastSyncedCommit = some last →
    Within s.1.source.Reads (Accounted (repositoryOf world s.1.source) s.2.base)
      (repositoryOf world s.1.source).blob (last :: s.2.heads) s.1.store.files.get
  going : ∀ run, s.1.running = some run → Going world s.1 s.2 run

variable {tools importers content world}
variable {s : SyncState σ} {history : SyncHistory}

/-! ## Steps that write no file -/

theorem reads_of_reading {source other : GitSource}
    (h : readingIdentity source = readingIdentity other) : source.Reads = other.Reads := by
  have hmappings : source.mappings = other.mappings := congrArg Prod.snd h
  funext path
  rw [GitSource.Reads, GitSource.Reads, hmappings]

/-- A sync that goes on while its source reads the same. -/
theorem Going.congr {s' : SyncState σ} {run : Running} (h : Going world s history run)
    (hsource : SameReading s'.source s.source) (hstore : s'.store = s.store) :
    Going world s' history run where
  head := h.head
  right := h.right
  steady := h.steady.congr hsource
  upTo := by
    intro hlast
    rw [hsource.last] at hlast
    rw [hstore]
    exact h.upTo hlast

/-- A step that leaves the files alone, and the sync as it is or ends it. -/
theorem Followed.congr {s' : SyncState σ} (h : Followed world (s, history))
    (hsource : SameReading s'.source s.source) (hstore : s'.store = s.store)
    (hrunning : s'.running = s.running ∨ s'.running = none) : Followed world (s', history) where
  within := by
    intro last hlast
    dsimp only at hlast ⊢
    rw [hsource.last] at hlast
    rw [reads_of_reading hsource.reading, repositoryOf, hsource.repository, hstore]
    exact h.within last hlast
  going := by
    intro run hrun
    dsimp only at hrun ⊢
    rcases hrunning with hsame | hnone
    · rw [hsame] at hrun
      exact (h.going run hrun).congr hsource hstore
    · rw [hnone] at hrun
      cases hrun

/-- A failed sync. -/
theorem sameReading_failSync (s : SyncState σ) (applied : Bool) :
    SameReading (failSync s applied).source s.source := by
  unfold failSync
  cases applied <;> exact ⟨rfl, rfl, rfl⟩

theorem Followed.failSync (h : Followed world (s, history)) (applied : Bool) :
    Followed world (failSync s applied, history) :=
  h.congr (sameReading_failSync s applied) rfl (.inr rfl)

/-- An update clears the last synced commit, or the source reads what it read. -/
theorem Followed.update (h : Followed world (s, history)) {localAllowed : String → Bool}
    {data : ConfigData}
    (hpromise : Promised tools content world (s, history) (.update localAllowed data)) :
    Followed world (updated s (applyConfig localAllowed s.source data), history) := by
  unfold updated
  split
  · rename_i source hupdate
    rcases applyConfig_lastSynced hupdate with hnone | ⟨hlast, hrepository, hreading⟩
    · constructor
      · intro last hlast
        dsimp only at hlast
        rw [hnone] at hlast
        cases hlast
      · intro run hrun
        have hgoing := h.going run hrun
        refine ⟨hgoing.head, hgoing.right, hgoing.steady.update hupdate ?_, ?_⟩
        · intro hstarted
          exact hpromise run source hrun hstarted hupdate
        · intro hsame
          refine hgoing.upTo ?_
          rcases hgoing.steady.last with heq | hcleared
          · exact heq
          · rw [hcleared, ← hsame, hnone]
    · exact h.congr ⟨hlast, hrepository, hreading⟩ rfl (.inl rfl)
  · exact h

/-- A cutover: every stored file is in step with the commit, and the others are its. -/
theorem Followed.cutover (h : Followed world (s, history)) {commit : String}
    (hpromise : Promised tools content world (s, history) (.cutover commit)) :
    Followed world (updated s (setLastSyncedCommit s.source commit),
      history.after s (updated s (setLastSyncedCommit s.source commit)) (.cutover commit)) := by
  obtain ⟨hidle, hstored⟩ := hpromise
  unfold updated SyncHistory.after
  split
  · rename_i source hcutover
    obtain ⟨c, rfl⟩ := setLastSyncedCommit_eq hcutover
    dsimp only
    split
    · rename_i hsame
      rw [hsame]
      exact h
    · constructor
      · intro last hlast path hreads
        cases hlast
        refine ⟨c, by simp, ?_⟩
        cases hget : s.store.files.get path with
        | none => exact .inr ⟨rfl, c, rfl, rfl⟩
        | some record => exact .inl (hstored _ c path record hcutover rfl hreads hget)
      · intro run hrun
        dsimp only at hrun
        rw [hidle] at hrun
        cases hrun
  · rw [if_pos rfl]
    exact h

/-! ## A sync from its start to its end -/

/-- What a sync starts with. -/
theorem startSync_spec {provider : GitProvider} {memberId : Option String} {full : Bool}
    {run : Running} (h : startSync tools s provider memberId full = .ok run) :
    run.source = s.source ∧ discoverCandidates tools.tables s.source.mappings s.store.files provider
      s.source.lastSyncedCommit run.head full = .ok (run.todo, run.strategy) := by
  unfold startSync at h
  split at h
  · cases h
  · obtain ⟨⟨candidates, strategy⟩, hcandidates, heq⟩ := map_eq_ok.mp h
    cases heq
    exact ⟨rfl, hcandidates⟩

/-- A file in step is accounted for. -/
theorem accounted_of_inStep {repo : Repository} {base : Option String} {path : String}
    {blob : Option String} {record : Option SourceFile} (h : InStep blob record) :
    Accounted repo base path blob record := .inl h

/-- A sync that starts has to do every file that is not accounted for at its head. -/
theorem Followed.start (h : Followed world (s, history)) {provider : GitProvider}
    {memberId : Option String} {full applied : Bool} {run : Running}
    (hpromise : Promised tools content world (s, history) (.start provider memberId full applied))
    (hstart : startSync tools s provider memberId full = .ok run) :
    Followed world ({ s with running := some run },
      { history with heads := run.head :: history.heads }) := by
  obtain ⟨hkeep, hreturn⟩ := hpromise
  obtain ⟨hsource, hdiscover⟩ := startSync_spec hstart
  obtain ⟨hright, hdiff, htree⟩ := discoverCandidates_spec hkeep hdiscover
  constructor
  · intro last hlast
    exact (h.within last hlast).attempt run.head
  · intro run' hrun
    cases hrun
    refine ⟨by simp, ?_, ?_, fun _ => ?_⟩
    · rw [hsource]
      exact hright
    · rw [hsource]
      exact Steady.refl _
    rw [hsource]
    split
    · rename_i hstrategy
      obtain ⟨last, hlast, hcovers⟩ := hdiff hstrategy
      exact (h.within last hlast).upTo hcovers (hreturn run last hstart hstrategy hlast)
    · rename_i hstrategy
      intro path hreads hnot
      exact accounted_of_inStep (htree hstrategy path hreads hnot)

/-- What a row that was written leaves of the other rows. -/
theorem Wrote.get {s s' : Store σ} {tally tally' : Tally} {row : SourceFile}
    (h : Wrote s s' tally tally' row) (path : String) :
    s'.files.get path = if row.path = path then some row else s.files.get path := by
  rw [h.files, Sql.Table.get_upsert]

/-- A turn of a sync accounts for its candidate. -/
theorem Followed.file (h : Followed world (s, history)) {step : FileStep} {applied : Bool}
    {run : Running} {candidate : Candidate} {todo : List Candidate} {store : Store σ} {tally : Tally}
    {row : SourceFile} (hrun : s.running = some run) (htodo : run.todo = candidate :: todo)
    (hpromise : Promised tools content world (s, history) (.file step applied))
    (hturn : Turn tools step.provider run.head candidate s.store store run.tally tally row) :
    Followed world ({ s with store, running := some { run with todo, tally } }, history) := by
  have hgoing := h.going run hrun
  have hkeep := hpromise run hrun
  have hright : Right run.source.mappings (repositoryOf world run.source) run.head candidate :=
    hgoing.right candidate (by simp [htodo])
  obtain ⟨hwrote, hpath, _⟩ := hturn.wrote
  have hrow : run.source.Reads candidate.path → ∀ base, Accounted (repositoryOf world run.source) base
      candidate.path ((repositoryOf world run.source).blob run.head candidate.path)
      (store.files.get candidate.path) := by
    intro hreads base
    rw [hwrote.get, if_pos hpath]
    exact accounted_of_inStep (hturn.inStep hkeep hright hreads)
  have hothers : ∀ path, path ≠ candidate.path → store.files.get path = s.store.files.get path := by
    intro path hne
    rw [hwrote.get, if_neg (by rw [hpath]; exact fun heq => hne heq.symm)]
  constructor
  · intro last hlast
    rcases hgoing.steady.last with hsame | hnone
    · -- the source reads what the sync reads
      obtain ⟨hrepository, hreading⟩ := hgoing.steady.same hsame
      refine (h.within last hlast).write (List.mem_cons_of_mem last hgoing.head) ?_ hothers
      dsimp only
      rw [reads_of_reading hreading, repositoryOf, hrepository]
      exact fun hreads => hrow hreads _
    · dsimp only at hlast
      rw [hnone] at hlast
      cases hlast
  · intro run' hrun'
    cases hrun'
    refine ⟨hgoing.head, ?_, hgoing.steady, ?_⟩
    · intro other hmem
      exact hgoing.right other (by simp [htodo, hmem])
    · intro hlast
      have hupTo := hgoing.upTo hlast
      rw [htodo] at hupTo
      exact hupTo.write (fun hreads => hrow hreads _) hothers

/-- The end of a sync whose head becomes the last synced commit, or which leaves it as it is. -/
theorem finishSync_cases (step : FinishStep) {run : Running} (hrun : s.running = some run)
    (htodo : run.todo = []) :
    (finishSync s step).store.files = s.store.files ∧ (finishSync s step).running = none ∧
      (SameReading (finishSync s step).source s.source ∨
        (s.source.lastSyncedCommit = run.source.lastSyncedCommit ∧
          (finishSync s step).source.lastSyncedCommit = some run.head ∧
          repositoryIdentity (finishSync s step).source = repositoryIdentity s.source ∧
          readingIdentity (finishSync s step).source = readingIdentity s.source)) := by
  have hfailed : ∀ t : SyncState σ, t.source = s.source →
      SameReading (failSync t step.applied).source s.source := by
    intro t ht
    have h := sameReading_failSync t step.applied
    rw [ht] at h
    exact h
  unfold finishSync
  rw [hrun]
  dsimp only
  rw [if_neg (by simp [htodo])]
  split
  · exact ⟨rfl, rfl, .inl (hfailed s rfl)⟩
  · split
    · refine ⟨rfl, rfl, ?_⟩
      split
      · unfold recordOutcome Scheduler.recordSync
        dsimp only
        split
        · rename_i hlast
          exact .inr ⟨hlast, rfl, rfl, rfl⟩
        · exact .inl ⟨rfl, rfl, rfl⟩
      · exact .inl (SameReading.refl _)
    · exact ⟨rfl, rfl, .inl (SameReading.refl _)⟩
    · exact ⟨rfl, rfl, .inl (hfailed _ rfl)⟩

/-- A sync that came to its end accounts for every file at its head. -/
theorem Followed.finish (h : Followed world (s, history)) (step : FinishStep) :
    Followed world (finishSync s step, history.after s (finishSync s step) (.finish step)) := by
  unfold SyncHistory.after
  cases hrun : s.running with
  | none =>
    have hsame : finishSync s step = s := by
      unfold finishSync
      rw [hrun]
    rw [hsame]
    exact h
  | some run =>
    by_cases htodo : run.todo = []
    · obtain ⟨hfiles, hidle, hsource⟩ := finishSync_cases step hrun htodo
      have hgoing := h.going run hrun
      dsimp only
      split
      · -- the files are accounted for at the head, which is the last synced commit
        rename_i hhead
        have hlast : s.source.lastSyncedCommit = run.source.lastSyncedCommit := by
          rcases hsource with hsame | ⟨hlast, _⟩
          · rcases hgoing.steady.last with heq | hnone
            · exact heq
            · rw [hsame.last, hnone] at hhead
              cases hhead.2
          · exact hlast
        have hreads : repositoryIdentity (finishSync s step).source = repositoryIdentity s.source
            ∧ readingIdentity (finishSync s step).source = readingIdentity s.source := by
          rcases hsource with hsame | ⟨_, _, hrepository, hreading⟩
          · exact ⟨hsame.repository, hsame.reading⟩
          · exact ⟨hrepository, hreading⟩
        obtain ⟨hrepository, hreading⟩ := hgoing.steady.same hlast
        have hupTo := hgoing.upTo hlast
        rw [htodo] at hupTo
        constructor
        · intro last hmoved
          dsimp only at hmoved ⊢
          rw [hhead.2] at hmoved
          cases hmoved
          rw [reads_of_reading (hreads.2.trans hreading), repositoryOf, hreads.1, hrepository, hfiles]
          exact hupTo.within
        · intro run' hrun'
          dsimp only at hrun'
          rw [hidle] at hrun'
          cases hrun'
      · rename_i hhead
        rcases hsource with hsame | ⟨_, hmoved, _⟩
        · constructor
          · intro last hlast
            dsimp only at hlast ⊢
            rw [hsame.last] at hlast
            rw [reads_of_reading hsame.reading, repositoryOf, hsame.repository, hfiles]
            exact h.within last hlast
          · intro run' hrun'
            dsimp only at hrun'
            rw [hidle] at hrun'
            cases hrun'
        · exact absurd ⟨htodo, hmoved⟩ hhead
    · have hsame : finishSync s step = s := by
        unfold finishSync
        rw [hrun]
        exact if_pos htodo
      rw [hsame]
      dsimp only
      rw [if_neg (by simp [htodo])]
      exact h

/-! ## Runs -/

/-- A turn of the loop: nothing to do, a file, or the end of the sync. -/
theorem Followed.syncFile (h : Followed world (s, history)) {step : FileStep} {applied : Bool}
    (hpromise : Promised tools content world (s, history) (.file step applied)) :
    Followed world (syncFile tools importers s step applied, history) := by
  unfold GitSources.syncFile
  split
  · exact h
  · rename_i run hrun
    split
    · exact h
    · rename_i candidate todo htodo
      split
      · rename_i store tally hwritten
        obtain ⟨row, hturn⟩ := fetchAndWrite_cases hwritten
        exact h.file hrun htodo hpromise hturn
      · exact h.congr (SameReading.refl _) rfl (.inr rfl)
      · exact h.failSync applied

/-- Every event keeps the files accounted for. -/
theorem followed_step {s : SyncState σ × SyncHistory} {event : SyncEvent} (h : Followed world s)
    (hpromise : Promised tools content world s event) :
    Followed world (tracedStep tools importers s event) := by
  obtain ⟨s, history⟩ := s
  cases event with
  | update localAllowed data =>
    show Followed world (updated s (applyConfig localAllowed s.source data), history)
    exact h.update hpromise
  | cutover commit =>
    show Followed world (updated s (setLastSyncedCommit s.source commit),
      history.after s (updated s (setLastSyncedCommit s.source commit)) (.cutover commit))
    exact h.cutover hpromise
  | start provider memberId full applied =>
    unfold tracedStep syncStep SyncHistory.after
    dsimp only
    cases hrun : s.running with
    | some run =>
      simp only [Option.isSome_some, if_true]
      exact h
    | none =>
      simp only [Option.isSome_none, Bool.false_eq_true, if_false]
      cases hstart : startSync tools s provider memberId full with
      | ok run => exact h.start hpromise hstart
      | error error => exact h.failSync applied
  | file step applied =>
    show Followed world (syncFile tools importers s step applied, history)
    exact h.syncFile hpromise
  | finish step =>
    show Followed world (finishSync s step, history.after s (finishSync s step) (.finish step))
    exact h.finish step
  | stop =>
    show Followed world ({ s with running := none }, history)
    exact h.congr (SameReading.refl _) rfl (.inr rfl)

/-- In every run whose events keep what is promised, every file stays accounted for. -/
theorem followed_run {s : SyncState σ × SyncHistory} {events : List SyncEvent} (h : Followed world s)
    (hrun : Along (tracedStep tools importers) (Promised tools content world) s events) :
    Followed world (events.foldl (tracedStep tools importers) s) :=
  run_invariant (fun _ _ => followed_step) hrun h

/-- A source that was not synced and is not being synced has nothing to account for. -/
theorem followed_new {s : SyncState σ} (hidle : s.running = none)
    (hnew : s.source.lastSyncedCommit = none) : Followed world (s, .new) := by
  constructor
  · intro last hlast
    dsimp only at hlast
    rw [hnew] at hlast
    cases hlast
  · intro run hrun
    dsimp only at hrun
    rw [hidle] at hrun
    cases hrun

end

end TrustPortal.Proofs.GitSources
