import TrustPortal.DecisionLog.Verify
import TrustPortal.Proofs.DecisionLog.Repository

/-!
# `TrustPortal.Proofs.DecisionLog.History`: the version history an import writes

`History` is the invariant of a stored session: its history is a list of superseded versions
and one current version, which describes the stored entries; the superseded versions since
the last conflict are prefixes of them; each step to the next version grows, or is a
repository conflict recorded in one transaction (`StepOk`); and the audit log has the
creation and the supersession of each version and nothing else (`Recorded`).

`Replacement` says what an extension and a conflict have in common: the current version is
superseded and a new one takes its place. `History.replace` is the step lemma for it.
`sessionOk_outcome` has the step for every outcome, provided that a call which replaces the current
version is dated after it (`ReceivedInOrder`), and that a conflict names the repository: a source
path and no submitter (`NamesRepository`).
-/

set_option autoImplicit false

namespace TrustPortal.Proofs.DecisionLog

open TrustPortal.Audit
open TrustPortal.DecisionLog
open TrustPortal.Lib

/-! ## Steps of a list of versions -/

theorem versionSteps_concat (versions : List Version) (last new : Version) :
    versionSteps (versions ++ [last] ++ [new]) = versionSteps (versions ++ [last]) ++ [(last, new)] := by
  induction versions with
  | nil => rfl
  | cons first rest ih =>
    cases rest with
    | nil => rfl
    | cons second others =>
      show (first, second) :: versionSteps (second :: others ++ [last] ++ [new]) = _
      rw [ih]
      rfl

/-- A step goes from a version before the last one to a version. -/
theorem mem_of_mem_versionSteps {olds : List Version} {last v w : Version}
    (h : (v, w) ∈ versionSteps (olds ++ [last])) : v ∈ olds ∧ w ∈ olds ++ [last] := by
  induction olds with
  | nil => cases h
  | cons first rest ih =>
    cases rest with
    | nil =>
      have heq : (v, w) = (first, last) := by simpa [versionSteps] using h
      cases heq
      simp
    | cons second others =>
      rcases List.mem_cons.mp (show (v, w) ∈ (first, second)
        :: versionSteps (second :: others ++ [last]) from h) with heq | hrest
      · cases heq
        simp
      · obtain ⟨hv, hw⟩ := ih hrest
        exact ⟨List.mem_cons_of_mem _ hv, List.mem_cons_of_mem _ hw⟩

/-- Replacing the last version changes the last step at its end. -/
theorem versionSteps_replace {olds : List Version} (last : Version) {last' v w : Version}
    (h : (v, w) ∈ versionSteps (olds ++ [last'])) :
    (w ∈ olds ∧ (v, w) ∈ versionSteps (olds ++ [last]))
      ∨ (w = last' ∧ (v, last) ∈ versionSteps (olds ++ [last])) := by
  rcases List.eq_nil_or_concat olds with rfl | ⟨rest, before, rfl⟩
  · cases h
  · rw [List.concat_eq_append] at h ⊢
    rw [versionSteps_concat, List.mem_append] at h
    rw [versionSteps_concat]
    rcases h with hrest | hlast
    · exact .inl ⟨(mem_of_mem_versionSteps hrest).2, List.mem_append_left _ hrest⟩
    · cases List.mem_singleton.mp hlast
      exact .inr ⟨rfl, by simp⟩

/-! ## The superseded versions since the last conflict -/

/-- The superseded versions after the last one that a conflict superseded. -/
def sinceConflict (olds : List Version) : List Version :=
  (olds.reverse.takeWhile fun version => !version.conflictReason).reverse

theorem sinceConflict_concat (olds : List Version) (version : Version) :
    sinceConflict (olds ++ [version])
      = if version.conflictReason then [] else sinceConflict olds ++ [version] := by
  rw [sinceConflict, List.reverse_concat, List.takeWhile_cons]
  cases version.conflictReason with
  | true => rfl
  | false => simp [sinceConflict]

theorem mem_of_mem_sinceConflict {olds : List Version} {version : Version}
    (h : version ∈ sinceConflict olds) : version ∈ olds := by
  rw [sinceConflict, List.mem_reverse] at h
  exact List.mem_reverse.mp ((List.takeWhile_prefix _).subset h)

/-! ## The invariant -/

/-- The audit row of a version's creation. -/
def createdEvent (version : Version) (changedAt : Int) : VersionEvent :=
  ⟨version.id, .insert, .current, version.entriesSha256, some version.entryCount, none, changedAt⟩

/-- The audit row of a version's supersession. -/
def supersededEvent (tools : Tools) (version : Version) (changedAt : Int) : VersionEvent :=
  ⟨version.id, .update, .superseded, version.entriesSha256, some version.entryCount,
    contentDigest tools version.contentGz, changedAt⟩

/-- The audit log has the creation of a current version. -/
def RecordedCurrent (record : SessionRecord) (version : Version) : Prop :=
  ∃ created, historyOf record version = [createdEvent version created]

/-- The audit log has the creation and the supersession of a superseded version. -/
def RecordedSuperseded (tools : Tools) (record : SessionRecord) (version : Version) : Prop :=
  ∃ created changed, historyOf record version
    = [createdEvent version created, supersededEvent tools version changed]

/-- A step of the history: a repository conflict, recorded in one transaction, or a version
that is not shorter. -/
def StepOk (record : SessionRecord) (version successor : Version) : Prop :=
  if version.conflictReason then
    truthy successor.sourcePath = true ∧ successor.submittedBy = none
      ∧ successor.storeObjectId = none ∧ oneTransaction record version successor = true
  else version.entryCount ≤ successor.entryCount

/-- A superseded version of the history. -/
structure SupersededOk (tools : Tools) (record : SessionRecord) (version : Version) : Prop where
  status : version.status = .superseded
  content : version.contentGz ≠ none
  reason : truthy version.reason = true
  digest : ∃ entries, version.entriesSha256 = some (entriesDigest tools.sha entries)
  recorded : RecordedSuperseded tools record version

/-- A version describes the first stored entries. -/
def IsPrefix (tools : Tools) (entries : List Entry) (version : Version) : Prop :=
  version.entryCount ≤ entries.length
    ∧ version.entriesSha256 = some (entriesDigest tools.sha (entries.take version.entryCount))

/-- The history of a stored session ends with its one current version, which describes the stored
entries. Its versions were received one after the other, and the session's conflict with one of
them. -/
structure Headed (tools : Tools) (record : SessionRecord) (session : Session)
    (olds : List Version) (current : Version) : Prop where
  stored : record.session = some session
  versions : record.versions.filter Version.inHistory = olds ++ [current]
  status : current.status = .current
  superseded : ∀ version ∈ olds, version.status = .superseded
  count : current.entryCount = record.entries.length
  digest : current.entriesSha256 = some (entriesDigest tools.sha record.entries)
  content : session.contentSha256 ≠ none
  times : (olds ++ [current]).Pairwise fun a b => a.receivedAt < b.receivedAt
  conflictAt : ∀ time, session.conflictAt = some time →
    ∃ version ∈ olds ++ [current], version.receivedAt = time

/-- The invariant of a stored session. -/
structure History (tools : Tools) (record : SessionRecord) (session : Session)
    (olds : List Version) (current : Version) : Prop where
  stored : record.session = some session
  versions : record.versions.filter Version.inHistory = olds ++ [current]
  status : current.status = .current
  contentGz : current.contentGz = none
  count : current.entryCount = record.entries.length
  digest : current.entriesSha256 = some (entriesDigest tools.sha record.entries)
  content : session.contentSha256 = current.contentSha256 ∧ current.contentSha256 ≠ none
  recorded : RecordedCurrent record current
  superseded : ∀ version ∈ olds, SupersededOk tools record version
  kept : ∀ version ∈ sinceConflict olds, IsPrefix tools record.entries version
  steps : ∀ v w, (v, w) ∈ versionSteps (olds ++ [current]) → StepOk record v w
  ids : (record.versions.map Version.id).Nodup
  eventIds : ∀ event ∈ record.versionEvents, event.recordId ∈ record.versions.map Version.id
  times : (olds ++ [current]).Pairwise fun a b => a.receivedAt < b.receivedAt
  conflictAt : ∀ time, session.conflictAt = some time →
    ∃ version ∈ olds ++ [current], version.receivedAt = time

section
variable {tools : Tools} {record : SessionRecord} {session : Session}
  {olds : List Version} {current : Version}

/-- The history has the current version at its end. -/
theorem History.headed (h : History tools record session olds current) :
    Headed tools record session olds current :=
  { stored := h.stored
    versions := h.versions
    status := h.status
    superseded := fun version hmem => (h.superseded version hmem).status
    count := h.count
    digest := h.digest
    content := by rw [h.content.1]; exact h.content.2
    times := h.times
    conflictAt := h.conflictAt }

theorem Headed.mem_versions (h : Headed tools record session olds current)
    {version : Version} (hmem : version ∈ olds ++ [current]) : version ∈ record.versions := by
  rw [← h.versions] at hmem
  exact (List.mem_filter.mp hmem).1

theorem Headed.current_mem (h : Headed tools record session olds current) :
    current ∈ record.versions := h.mem_versions (by simp)

/-- The session has a current version. -/
theorem Headed.hasCurrentVersion (h : Headed tools record session olds current) :
    record.hasCurrentVersion = true := by
  rw [SessionRecord.hasCurrentVersion, List.any_eq_true]
  exact ⟨current, h.current_mem, by simp [h.status]⟩

/-- The only current version of the history is the last one. -/
theorem Headed.filter_current (h : Headed tools record session olds current) :
    ((olds ++ [current]).filter fun version => version.status = .current) = [current] := by
  have holds : (olds.filter fun version => version.status = .current) = [] := by
    rw [List.filter_eq_nil_iff]
    intro version hmem
    simp [h.superseded version hmem]
  rw [List.filter_append, holds]
  simp [h.status]

/-- The only current version of the session is the last one of its history. -/
theorem Headed.filter_versions (h : Headed tools record session olds current) :
    (record.versions.filter fun version => version.status = .current) = [current] := by
  calc (record.versions.filter fun version => version.status = .current)
      = (record.versions.filter Version.inHistory).filter fun version =>
          version.status = .current := by
        rw [List.filter_filter]
        refine List.filter_congr ?_
        intro version _
        cases hstatus : version.status <;> simp [Version.inHistory, hstatus]
    _ = [current] := by rw [h.versions, h.filter_current]

theorem History.mem_versions (h : History tools record session olds current)
    {version : Version} (hmem : version ∈ olds ++ [current]) : version ∈ record.versions :=
  h.headed.mem_versions hmem

theorem History.current_mem (h : History tools record session olds current) :
    current ∈ record.versions := h.headed.current_mem

/-- A version before the last one has another id. -/
theorem History.id_ne (h : History tools record session olds current)
    {version : Version} (hmem : version ∈ olds) : version.id ≠ current.id := by
  intro heq
  have hversion := h.mem_versions (List.mem_append_left [current] hmem)
  have hsame := List.inj_on_of_nodup_map h.ids hversion h.current_mem heq
  have hstatus := (h.superseded version hmem).status
  rw [hsame, h.status] at hstatus
  cases hstatus

end

/-! ## A new version in the place of the current one -/

/-- The current version of `before` is superseded, and `new` is the current version of
`after`. -/
structure Replacement (tools : Tools) (tx : Transaction) (before after : SessionRecord)
    (contentGz digest reason : String) (new : Version) (session' : Session) : Prop where
  stored : after.session = some session'
  versions : after.versions = before.versions.map (Version.retire contentGz digest reason) ++ [new]
  versionEvents : after.versionEvents = before.versionEvents
    ++ ((before.versions.filter fun version => version.status = .current).map fun version =>
      versionEvent tools tx .update (version.supersede contentGz digest reason))
    ++ [versionEvent tools tx .insert new]
  sessionEvents : after.sessionEvents = before.sessionEvents
    ++ [⟨before.session.map Session.conflictAt, session'.conflictAt, tx.changedAt⟩]
  fresh : new.id ∉ before.versions.map Version.id

@[simp] theorem retire_id (contentGz digest reason : String) (version : Version) :
    (version.retire contentGz digest reason).id = version.id := by
  unfold Version.retire
  split <;> rfl

@[simp] theorem retire_receivedAt (contentGz digest reason : String) (version : Version) :
    (version.retire contentGz digest reason).receivedAt = version.receivedAt := by
  unfold Version.retire
  split <;> rfl

@[simp] theorem retire_inHistory (contentGz digest reason : String) (version : Version) :
    (version.retire contentGz digest reason).inHistory = version.inHistory := by
  unfold Version.retire
  split
  · rename_i hcurrent
    simp [Version.inHistory, Version.supersede, hcurrent]
  · rfl

theorem map_retire_id (contentGz digest reason : String) (versions : List Version) :
    (versions.map (Version.retire contentGz digest reason)).map Version.id
      = versions.map Version.id := by
  rw [List.map_map]
  refine List.map_congr_left ?_
  intro version _
  exact retire_id contentGz digest reason version

section
variable {tools : Tools} {tx : Transaction} {upload : Upload} {before after : SessionRecord}
  {session : Session} {parsed : ParsedTranscript} {comparison : Comparison}

/-- Superseding and inserting, when there is a current version. -/
private theorem replacement_of_supersede {contentGz digest reason : String} {count : Nat}
    {entries : List Entry} {superseded : SessionRecord} {session' : Session} {new : Version}
    (hcurrent : before.hasCurrentVersion = true)
    (hsupersede : supersedeCurrent tools tx session contentGz digest count reason
      { before with entries := entries } = .ok superseded)
    (hinsert : (superseded.saveSession tx session').insertVersion tools tx new = .ok after) :
    Replacement tools tx before after contentGz digest reason new session' := by
  unfold supersedeCurrent at hsupersede
  rw [if_pos (show ({ before with entries := entries } : SessionRecord).hasCurrentVersion = true
    from hcurrent), Except.ok.injEq] at hsupersede
  subst hsupersede
  obtain ⟨hfresh, rfl⟩ := insertVersion_eq_ok.mp hinsert
  rw [saveSession_versions, map_retire_id] at hfresh
  exact ⟨rfl, rfl, rfl, rfl, hfresh⟩

/-- An extension is a replacement. -/
theorem extend_replacement (hcurrent : before.hasCurrentVersion = true)
    (h : extend tools tx upload session parsed comparison before = .ok after) :
    Replacement tools tx before after
      (reconstruct tools session (parsed.entries.take comparison.stored) comparison.stored)
      comparison.storedSha256 SUPERSEDED_REASON
      (upload.version tx .current parsed.entries.length
        (some (comparison.digestWith tools.sha (parsed.entries.drop comparison.stored)))
        upload.submittedBy)
      (extendedSession tx upload session parsed comparison.stored) := by
  obtain ⟨superseded, hsuperseded, hinsert⟩ := bind_eq_ok.mp h
  exact replacement_of_supersede hcurrent hsuperseded hinsert

/-- A conflict is a replacement. -/
theorem adopt_replacement (hcurrent : before.hasCurrentVersion = true)
    (h : adoptRepositoryVersion tools tx upload session parsed comparison before = .ok after) :
    Replacement tools tx before after
      (reconstruct tools session before.entries comparison.stored) comparison.storedSha256
      (CONFLICT_REASON_PREFIX ++ conflictText upload parsed.entries.length comparison)
      (upload.version tx .current parsed.entries.length
        (some (comparison.digestWith tools.sha
          (parsed.entries.drop (conflictCut parsed.entries.length comparison))))
        upload.submittedBy)
      (adoptedSession tx upload session parsed
        (conflictText upload parsed.entries.length comparison)) := by
  obtain ⟨superseded, hsuperseded, hinsert⟩ := bind_eq_ok.mp h
  exact replacement_of_supersede hcurrent hsuperseded hinsert

end

section
variable {tools : Tools} {tx : Transaction} {before after : SessionRecord}
  {session session' : Session} {olds : List Version} {current new : Version}
  {contentGz digest reason : String}

/-- The history after a replacement. -/
theorem Headed.versions_replace (h : Headed tools before session olds current)
    (hr : Replacement tools tx before after contentGz digest reason new session')
    (hnew : new.status = .current) :
    after.versions.filter Version.inHistory
      = olds ++ [current.supersede contentGz digest reason] ++ [new] := by
  have holds : olds.map (Version.retire contentGz digest reason) = olds := by
    calc olds.map (Version.retire contentGz digest reason) = olds.map id := by
          refine List.map_congr_left ?_
          intro version hmem
          rw [Version.retire, if_neg (by simp [h.superseded version hmem]), id]
      _ = olds := List.map_id olds
  have hinHistory : Version.inHistory ∘ Version.retire contentGz digest reason
      = Version.inHistory := by
    funext version
    exact retire_inHistory contentGz digest reason version
  rw [hr.versions, List.filter_append, List.filter_map, hinHistory, h.versions, List.map_append,
    holds, List.map_singleton, Version.retire, if_pos h.status]
  simp [Version.inHistory, hnew]

/-- The audit rows after a replacement. -/
theorem History.events_replace (h : History tools before session olds current)
    (hr : Replacement tools tx before after contentGz digest reason new session')
    (hnew : new.status = .current) (hgz : new.contentGz = none) :
    after.versionEvents = before.versionEvents
      ++ [supersededEvent tools (current.supersede contentGz digest reason) tx.changedAt,
        createdEvent new tx.changedAt] := by
  have hinsert : versionEvent tools tx .insert new = createdEvent new tx.changedAt := by
    simp [versionEvent, createdEvent, contentDigest, hnew, hgz]
  rw [hr.versionEvents, h.headed.filter_versions, hinsert, List.append_assoc]
  rfl

/-- The audit rows of a version are left as they are by rows of other versions. -/
private theorem filter_other {version : Version} {events added : List VersionEvent}
    (h : ∀ event ∈ added, event.recordId ≠ version.id) :
    ((events ++ added).filter fun event => event.recordId = version.id)
      = events.filter fun event => event.recordId = version.id := by
  rw [List.filter_append]
  have hadded : (added.filter fun event => event.recordId = version.id) = [] := by
    rw [List.filter_eq_nil_iff]
    intro event hmem
    simpa using h event hmem
  rw [hadded, List.append_nil]

/-- The audit rows of an older version after a replacement. -/
private theorem historyOf_old (h : History tools before session olds current)
    (hr : Replacement tools tx before after contentGz digest reason new session')
    (hnew : new.status = .current) (hgz : new.contentGz = none) {version : Version}
    (hmem : version ∈ olds) : historyOf after version = historyOf before version := by
  have hversion := h.mem_versions (List.mem_append_left [current] hmem)
  rw [historyOf, h.events_replace hr hnew hgz]
  refine filter_other ?_
  intro event hevent heq
  rcases List.mem_pair.mp hevent with rfl | rfl
  · exact h.id_ne hmem heq.symm
  · exact hr.fresh (List.mem_map.mpr ⟨version, hversion, heq.symm⟩)

/-- The audit rows of the superseded version after a replacement. -/
private theorem historyOf_superseded (h : History tools before session olds current)
    (hr : Replacement tools tx before after contentGz digest reason new session')
    (hnew : new.status = .current) (hgz : new.contentGz = none) :
    historyOf after (current.supersede contentGz digest reason) = historyOf before current
      ++ [supersededEvent tools (current.supersede contentGz digest reason) tx.changedAt] := by
  have hne : new.id ≠ current.id := by
    intro heq
    exact hr.fresh (List.mem_map.mpr ⟨current, h.current_mem, heq.symm⟩)
  rw [historyOf, h.events_replace hr hnew hgz, List.filter_append]
  congr 1
  simp [supersededEvent, createdEvent, Version.supersede, hne]

/-- The audit rows of the new version after a replacement. -/
private theorem historyOf_new (h : History tools before session olds current)
    (hr : Replacement tools tx before after contentGz digest reason new session')
    (hnew : new.status = .current) (hgz : new.contentGz = none) :
    historyOf after new = [createdEvent new tx.changedAt] := by
  have hne : current.id ≠ new.id := by
    intro heq
    exact hr.fresh (List.mem_map.mpr ⟨current, h.current_mem, heq⟩)
  -- No audit row has the id of the new version.
  have hbefore : (before.versionEvents.filter fun event => event.recordId = new.id) = [] := by
    rw [List.filter_eq_nil_iff]
    intro event hevent
    rw [decide_eq_true_eq]
    intro heq
    exact hr.fresh (heq ▸ h.eventIds event hevent)
  rw [historyOf, h.events_replace hr hnew hgz, List.filter_append, hbefore]
  simp [supersededEvent, createdEvent, Version.supersede, hne]

/-- The conflicts the audit log recorded stay recorded. -/
private theorem conflictTimes_replace
    (hr : Replacement tools tx before after contentGz digest reason new session') {time : Int}
    (h : time ∈ conflictTimes before) : time ∈ conflictTimes after := by
  rw [conflictTimes, hr.sessionEvents, List.filter_append, List.map_append]
  exact List.mem_append_left _ h

/-- What was recorded in one transaction stays so, when only rows at the end are added. -/
private theorem oneTransaction_mono {v w v' w' : Version}
    (hv : historyOf after v' = historyOf before v)
    (hw : (historyOf after w').take 1 = (historyOf before w).take 1)
    (htimes : ∀ time, time ∈ conflictTimes before → time ∈ conflictTimes after)
    (h : oneTransaction before v w = true) : oneTransaction after v' w' = true := by
  unfold oneTransaction at h ⊢
  dsimp only at h ⊢
  rw [hv, hw]
  split at h
  · rename_i changed start hchanged hstart
    simp only [Bool.and_eq_true, decide_eq_true_eq, List.contains_iff_mem] at h
    simp only [Bool.and_eq_true, decide_eq_true_eq, List.contains_iff_mem]
    exact ⟨h.1, htimes start h.2⟩
  · cases h

/-- Every version of a session's history was received before the transaction. -/
def ReceivedBefore (tx : Transaction) (record : SessionRecord) : Prop :=
  ∀ version ∈ record.versions, version.inHistory = true → version.receivedAt < tx.now

/-- A version of the history was received before the transaction. -/
theorem Headed.received_lt (h : Headed tools before session olds current)
    (hbefore : ReceivedBefore tx before) {version : Version} (hmem : version ∈ olds ++ [current]) :
    version.receivedAt < tx.now := by
  rw [← h.versions] at hmem
  obtain ⟨hstored, hhistory⟩ := List.mem_filter.mp hmem
  exact hbefore version hstored hhistory

/-- A conflict is recorded in one transaction. -/
private theorem oneTransaction_conflict (h : History tools before session olds current)
    (hr : Replacement tools tx before after contentGz digest reason new session')
    (hnew : new.status = .current) (hgz : new.contentGz = none)
    (hbefore : ReceivedBefore tx before) (hconflict : session'.conflictAt = some tx.now) :
    oneTransaction after (current.supersede contentGz digest reason) new = true := by
  have hsuperseded := historyOf_superseded h hr hnew hgz
  have hcreated := historyOf_new h hr hnew hgz
  obtain ⟨created, hcurrent⟩ := h.recorded
  -- The session's conflict time is new, so the audit log has it.
  have htime : tx.changedAt ∈ conflictTimes after := by
    rw [conflictTimes, hr.sessionEvents, List.filter_append, List.map_append]
    refine List.mem_append_right _ ?_
    have hne : session.conflictAt ≠ some tx.now := by
      intro heq
      obtain ⟨version, hmem, htime⟩ := h.conflictAt tx.now heq
      have := h.headed.received_lt hbefore hmem
      omega
    simp [h.stored, hconflict, hne]
  simp [oneTransaction, hsuperseded, hcreated, hcurrent, supersededEvent, createdEvent, htime]

/-- The steps before the new version after a replacement. -/
private theorem steps_replace (h : History tools before session olds current)
    (hr : Replacement tools tx before after contentGz digest reason new session')
    (hnew : new.status = .current) (hgz : new.contentGz = none) {v w : Version}
    (hmem : (v, w) ∈ versionSteps (olds ++ [current.supersede contentGz digest reason])) :
    StepOk after v w := by
  -- A step to the superseded version was a step to the current one.
  have hstep : ∃ w', (v, w') ∈ versionSteps (olds ++ [current]) ∧ w'.sourcePath = w.sourcePath
      ∧ w'.submittedBy = w.submittedBy ∧ w'.storeObjectId = w.storeObjectId
      ∧ w'.entryCount = w.entryCount
      ∧ (historyOf after w).take 1 = (historyOf before w').take 1 := by
    rcases versionSteps_replace current hmem with ⟨hw, hold⟩ | ⟨rfl, hcurrent⟩
    · refine ⟨w, hold, rfl, rfl, rfl, rfl, ?_⟩
      rw [historyOf_old h hr hnew hgz hw]
    · refine ⟨current, hcurrent, rfl, rfl, rfl, rfl, ?_⟩
      obtain ⟨created, hrecorded⟩ := h.recorded
      rw [historyOf_superseded h hr hnew hgz, hrecorded]
      rfl
  obtain ⟨w', hmem', hpath, hsubmitted, hobject, hcount, htake⟩ := hstep
  have hok := h.steps v w' hmem'
  have hv := (mem_of_mem_versionSteps hmem').1
  unfold StepOk at hok ⊢
  rw [← hpath, ← hsubmitted, ← hobject, ← hcount]
  by_cases hreason : v.conflictReason = true
  · rw [if_pos hreason] at hok ⊢
    obtain ⟨hsource, hmember, hstore, htransaction⟩ := hok
    exact ⟨hsource, hmember, hstore, oneTransaction_mono (historyOf_old h hr hnew hgz hv) htake
      (fun _ => conflictTimes_replace hr) htransaction⟩
  · rw [if_neg hreason] at hok ⊢
    exact hok

/-- What the new version of a replacement says about itself. -/
structure NewCurrent (tools : Tools) (tx : Transaction) (after : SessionRecord)
    (session session' : Session) (new : Version) : Prop where
  status : new.status = .current
  contentGz : new.contentGz = none
  receivedAt : new.receivedAt = tx.now
  count : new.entryCount = after.entries.length
  digest : new.entriesSha256 = some (entriesDigest tools.sha after.entries)
  content : session'.contentSha256 = new.contentSha256 ∧ new.contentSha256 ≠ none
  conflictAt : session'.conflictAt = session.conflictAt ∨ session'.conflictAt = some tx.now

/-- A version that a replacement leaves in the history was received with one of it. -/
private theorem received_supersede {version : Version}
    (h : version ∈ olds ++ [current.supersede contentGz digest reason]) :
    ∃ older ∈ olds ++ [current], older.receivedAt = version.receivedAt := by
  rcases List.mem_append.mp h with hold | hlast
  · exact ⟨version, by simp [hold], rfl⟩
  · rw [List.mem_singleton.mp hlast]
    exact ⟨current, by simp, rfl⟩

/-- A replacement keeps the current version at the end. -/
theorem Headed.replace (h : Headed tools before session olds current)
    (hr : Replacement tools tx before after contentGz digest reason new session')
    (hnew : NewCurrent tools tx after session session' new) (hbefore : ReceivedBefore tx before) :
    Headed tools after session' (olds ++ [current.supersede contentGz digest reason])
      new := by
  refine
    { stored := hr.stored
      versions := h.versions_replace hr hnew.status
      status := hnew.status
      superseded := ?_
      count := hnew.count
      digest := hnew.digest
      content := by rw [hnew.content.1]; exact hnew.content.2
      times := ?_
      conflictAt := ?_ }
  · intro version hmem
    rcases List.mem_append.mp hmem with hold | hlast
    · exact h.superseded version hold
    · rw [List.mem_singleton.mp hlast]
      rfl
  · rw [List.pairwise_append]
    refine ⟨?_, List.pairwise_singleton _ _, ?_⟩
    · have htimes := h.times
      rw [List.pairwise_append] at htimes ⊢
      exact ⟨htimes.1, List.pairwise_singleton _ _, by simpa [Version.supersede] using htimes.2.2⟩
    · intro a ha b hb
      obtain ⟨version, hmem, hsame⟩ := received_supersede ha
      have := h.received_lt hbefore hmem
      rw [List.mem_singleton.mp hb, hnew.receivedAt]
      omega
  · intro time htime
    rcases hnew.conflictAt with hkept | hnow
    · -- The version that was received with the conflict is still there.
      obtain ⟨version, hmem, hversion⟩ := h.conflictAt time (hkept ▸ htime)
      rcases List.mem_append.mp hmem with hold | hlast
      · exact ⟨version, by simp [hold], hversion⟩
      · rw [List.mem_singleton.mp hlast] at hversion
        exact ⟨current.supersede contentGz digest reason, by simp, hversion⟩
    · rw [hnow, Option.some.injEq] at htime
      exact ⟨new, by simp, hnew.receivedAt.trans htime⟩

/-- A replacement keeps the invariant, when the versions since the last conflict are still
prefixes and the new step is in order. -/
theorem History.replace (h : History tools before session olds current)
    (hr : Replacement tools tx before after contentGz digest reason new session')
    (hnew : NewCurrent tools tx after session session' new) (hbefore : ReceivedBefore tx before)
    (hreason : reason ≠ "")
    (hkept : ∀ version ∈ sinceConflict (olds ++ [current.supersede contentGz digest reason]),
      IsPrefix tools after.entries version)
    (hstep : StepOk after (current.supersede contentGz digest reason) new) :
    History tools after session' (olds ++ [current.supersede contentGz digest reason])
      new := by
  have hids : after.versions.map Version.id = before.versions.map Version.id ++ [new.id] := by
    rw [hr.versions, List.map_append, map_retire_id, List.map_singleton]
  have hheaded := h.headed.replace hr hnew hbefore
  refine
    { stored := hheaded.stored
      versions := hheaded.versions
      status := hnew.status
      contentGz := hnew.contentGz
      count := hnew.count
      digest := hnew.digest
      content := hnew.content
      recorded := ⟨tx.changedAt, historyOf_new h hr hnew.status hnew.contentGz⟩
      superseded := ?_
      kept := hkept
      steps := ?_
      ids := ?_
      eventIds := ?_
      times := hheaded.times
      conflictAt := hheaded.conflictAt }
  · intro version hmem
    rcases List.mem_append.mp hmem with hold | hlast
    · have hok := h.superseded version hold
      obtain ⟨created, changed, hrecorded⟩ := hok.recorded
      refine ⟨hok.status, hok.content, hok.reason, hok.digest, created, changed, ?_⟩
      rw [historyOf_old h hr hnew.status hnew.contentGz hold, hrecorded]
    · -- The version that was current until now.
      rw [List.mem_singleton.mp hlast]
      obtain ⟨created, hrecorded⟩ := h.recorded
      refine ⟨rfl, by simp [Version.supersede], by simpa [Version.supersede] using hreason,
        ⟨before.entries, ?_⟩, created, tx.changedAt, ?_⟩
      · rw [Version.supersede, h.digest]
      · rw [historyOf_superseded h hr hnew.status hnew.contentGz, hrecorded]
        simp [createdEvent, Version.supersede, h.digest]
  · intro v w hmem
    rw [versionSteps_concat] at hmem
    rcases List.mem_append.mp hmem with hold | hlast
    · exact steps_replace h hr hnew.status hnew.contentGz hold
    · cases List.mem_singleton.mp hlast
      exact hstep
  · rw [hids, List.nodup_append]
    refine ⟨h.ids, by simp, ?_⟩
    intro a ha b hb heq
    rw [List.mem_singleton.mp hb] at heq
    exact hr.fresh (heq ▸ ha)
  · intro event hmem
    rw [h.events_replace hr hnew.status hnew.contentGz] at hmem
    rw [hids]
    rcases List.mem_append.mp hmem with hold | hadded
    · exact List.mem_append_left _ (h.eventIds event hold)
    · rcases List.mem_pair.mp hadded with rfl | rfl
      · exact List.mem_append_left _ (List.mem_map.mpr ⟨current, h.current_mem, rfl⟩)
      · exact List.mem_append_right _ (List.mem_singleton.mpr rfl)

end

/-! ## The outcomes of an import -/

/-- A record of an installation: no session, or one with the invariant. -/
def SessionOk (tools : Tools) (record : SessionRecord) : Prop :=
  record = .empty ∨ ∃ session olds current, History tools record session olds current

/-- A record of an installation: no session, or one with a current version at the end of its
history. -/
def SessionHeaded (tools : Tools) (record : SessionRecord) : Prop :=
  record = .empty ∨ ∃ session olds current, Headed tools record session olds current

/-- A path that is cut and cleaned is still there. -/
theorem truthy_cleanMetadata {length : Nat} (hlength : 0 < length) {text : Option String}
    (h : truthy text = true) : truthy (cleanMetadata length text) = true := by
  cases text with
  | none => cases h
  | some s =>
    rw [truthy_some, decide_eq_true_eq] at h
    have hs : s.toList ≠ [] := by
      intro hnil
      exact h (String.toList_eq_nil_iff.mp hnil)
    have hclean : ∀ chars : List Char, chars ≠ [] → String.ofList (chars.take length) ≠ "" := by
      intro chars hchars heq
      rw [String.ofList_eq_empty_iff, List.take_eq_nil_iff] at heq
      rcases heq with hzero | hnil
      · omega
      · exact hchars hnil
    simp only [cleanMetadata, Option.map_some, truthy_some, decide_eq_true_eq]
    exact hclean _ (by simpa using hs)

/-- A conflict cuts within the new entries. -/
theorem conflictCut_le_new (tools : Tools) (rows entries : List Entry) :
    conflictCut entries.length (compareWithStored tools rows entries) ≤ entries.length := by
  have hspec := compareWithStored_spec tools rows entries
  unfold conflictCut
  cases hdifference : (compareWithStored tools rows entries).difference with
  | some difference =>
    have := (hspec.differs difference hdifference).entries_lt
    rw [Option.getD_some]
    omega
  | none => exact le_rfl

/-- A version stays a prefix when entries are added. -/
theorem IsPrefix.append {tools : Tools} {entries : List Entry} {version : Version}
    (h : IsPrefix tools entries version) (added : List Entry) :
    IsPrefix tools (entries ++ added) version := by
  obtain ⟨hcount, hdigest⟩ := h
  refine ⟨?_, ?_⟩
  · rw [List.length_append]
    omega
  · rw [List.take_append_of_le_length hcount]
    exact hdigest

section
variable {tools : Tools} {tx : Transaction} {upload : Upload} {before after : SessionRecord}
  {session : Session} {parsed : ParsedTranscript} {olds : List Version} {current : Version}

/-- A new session has the invariant. -/
theorem history_create (hwrite : create tools tx upload parsed .empty = .ok after) :
    SessionOk tools after := by
  obtain ⟨_, rfl⟩ := insertVersion_eq_ok.mp hwrite
  refine .inr ⟨newSession tx upload parsed, [], upload.version tx .current parsed.entries.length
    (some (entriesDigest tools.sha parsed.entries)) upload.submittedBy, ?_⟩
  refine
    { stored := rfl
      versions := rfl
      status := rfl
      contentGz := rfl
      count := rfl
      digest := rfl
      content := ⟨rfl, by simp [Upload.version]⟩
      recorded := ⟨tx.changedAt, ?_⟩
      superseded := by simp
      kept := by simp [sinceConflict]
      steps := by simp [versionSteps]
      ids := by simp [SessionRecord.saveSession, SessionRecord.empty]
      eventIds := by simp [SessionRecord.saveSession, SessionRecord.empty, versionEvent]
      times := List.pairwise_singleton _ _
      conflictAt := by simp [newSession] }
  simp [historyOf, SessionRecord.saveSession, SessionRecord.empty, versionEvent, createdEvent,
    Upload.version, contentDigest]

/-- A recorded rejection keeps the current version at the end: a rejected version is not part of the
history. -/
theorem Headed.reject (h : Headed tools before session olds current) {count : Nat}
    {reason : String} (hwrite : recordRejected tools tx upload count reason before = .ok after) :
    Headed tools after session olds current := by
  unfold recordRejected at hwrite
  split at hwrite
  · cases hwrite
    exact h
  · obtain ⟨_, rfl⟩ := insertVersion_eq_ok.mp hwrite
    refine { h with versions := ?_ }
    rw [List.filter_append, h.versions]
    simp [Version.inHistory, Upload.version]

/-- A recorded rejection keeps the invariant. -/
theorem History.reject (h : History tools before session olds current) {count : Nat}
    {reason : String} (hwrite : recordRejected tools tx upload count reason before = .ok after) :
    History tools after session olds current := by
  have hheaded := h.headed.reject hwrite
  unfold recordRejected at hwrite
  split at hwrite
  · cases hwrite
    exact h
  · obtain ⟨hfresh, hafter⟩ := insertVersion_eq_ok.mp hwrite
    -- The audit rows of the history stay as they are.
    have hrows : ∀ version ∈ olds ++ [current],
        historyOf after version = historyOf before version := by
      intro version hmem
      rw [historyOf, hafter]
      refine filter_other ?_
      intro event hevent heq
      rw [List.mem_singleton.mp hevent] at heq
      exact hfresh (List.mem_map.mpr ⟨version, h.mem_versions hmem, heq.symm⟩)
    subst hafter
    refine
      { stored := h.stored
        versions := hheaded.versions
        status := h.status
        contentGz := h.contentGz
        count := h.count
        digest := h.digest
        content := h.content
        recorded := ?_
        superseded := ?_
        kept := h.kept
        steps := ?_
        ids := ?_
        eventIds := ?_
        times := hheaded.times
        conflictAt := hheaded.conflictAt }
    · obtain ⟨created, hrecorded⟩ := h.recorded
      exact ⟨created, (hrows current (by simp)).trans hrecorded⟩
    · intro version hmem
      have hok := h.superseded version hmem
      obtain ⟨created, changed, hrecorded⟩ := hok.recorded
      exact ⟨hok.status, hok.content, hok.reason, hok.digest, created, changed,
        (hrows version (by simp [hmem])).trans hrecorded⟩
    · intro v w hmem
      obtain ⟨hv, hw⟩ := mem_of_mem_versionSteps hmem
      have hok := h.steps v w hmem
      unfold StepOk at hok ⊢
      by_cases hreason : v.conflictReason = true
      · rw [if_pos hreason] at hok ⊢
        refine ⟨hok.1, hok.2.1, hok.2.2.1, oneTransaction_mono (hrows v (by simp [hv])) ?_
          (fun _ htime => htime) hok.2.2.2⟩
        rw [hrows w hw]
      · rw [if_neg hreason] at hok ⊢
        exact hok
    · rw [List.map_append, List.nodup_append]
      refine ⟨h.ids, by simp, ?_⟩
      intro a ha b hb heq
      rw [List.mem_singleton.mp hb] at heq
      exact hfresh (heq ▸ ha)
    · intro event hmem
      rw [List.map_append]
      rcases List.mem_append.mp hmem with hold | hadded
      · exact List.mem_append_left _ (h.eventIds event hold)
      · rw [List.mem_singleton.mp hadded]
        simp [versionEvent]

/-- An extension is not a conflict. -/
theorem conflictReason_extension (version : Version) (contentGz digest : String) :
    (version.supersede contentGz digest SUPERSEDED_REASON).conflictReason = false := by
  show CONFLICT_PREFIX.toList.isPrefixOf SUPERSEDED_REASON.toList = false
  decide

/-- The version of an extension describes the entries stored after it. -/
theorem newCurrent_extend
    (hagree : (compareWithStored tools before.entries parsed.entries).difference = none)
    (hlength : before.entries.length < parsed.entries.length)
    (hwrite : extend tools tx upload session parsed
      (compareWithStored tools before.entries parsed.entries) before = .ok after) :
    NewCurrent tools tx after session
      (extendedSession tx upload session parsed
        (compareWithStored tools before.entries parsed.entries).stored)
      (upload.version tx .current parsed.entries.length
        (some ((compareWithStored tools before.entries parsed.entries).digestWith tools.sha
          (parsed.entries.drop (compareWithStored tools before.entries parsed.entries).stored)))
        upload.submittedBy) := by
  have hspec := compareWithStored_spec tools before.entries parsed.entries
  have hentries := (extend_frame hwrite).2
  have hcount : after.entries.length = parsed.entries.length := by
    rw [hentries, hspec.stored, List.length_append, List.length_drop]
    omega
  refine ⟨rfl, rfl, rfl, hcount.symm, ?_, ⟨rfl, by simp [Upload.version]⟩, .inl rfl⟩
  show some _ = some _
  rw [hspec.digestWith, hagree, Option.getD_none, hentries, List.take_of_length_le (by omega)]

/-- An extension keeps the invariant. -/
theorem History.extend (h : History tools before session olds current)
    (hbefore : ReceivedBefore tx before)
    (hagree : (compareWithStored tools before.entries parsed.entries).difference = none)
    (hlength : before.entries.length < parsed.entries.length)
    (hwrite : extend tools tx upload session parsed
      (compareWithStored tools before.entries parsed.entries) before = .ok after) :
    SessionOk tools after := by
  have hr := extend_replacement h.headed.hasCurrentVersion hwrite
  have hnew := newCurrent_extend hagree hlength hwrite
  have hentries := (extend_frame hwrite).2
  refine .inr ⟨_, _, _, h.replace hr hnew hbefore (by decide) ?_ ?_⟩
  · intro version hmem
    rw [sinceConflict_concat, conflictReason_extension, if_neg Bool.false_ne_true,
      List.mem_append] at hmem
    rw [hentries]
    refine IsPrefix.append ?_ _
    rcases hmem with hold | hlast
    · exact h.kept version hold
    · -- The version that was current describes all entries stored before.
      rw [List.mem_singleton.mp hlast]
      refine ⟨le_of_eq h.count, ?_⟩
      have htake : before.entries.take current.entryCount = before.entries := by
        rw [h.count, List.take_length]
      simp [Version.supersede, htake, h.digest]
  · rw [StepOk, conflictReason_extension, if_neg Bool.false_ne_true]
    show current.entryCount ≤ parsed.entries.length
    rw [h.count]
    omega

/-- The version of a conflict describes the entries stored after it. -/
theorem newCurrent_adopt
    (hwins : repositoryWins before session parsed.entries.length
      (compareWithStored tools before.entries parsed.entries) = true)
    (hwrite : adoptRepositoryVersion tools tx upload session parsed
      (compareWithStored tools before.entries parsed.entries) before = .ok after) :
    NewCurrent tools tx after session
      (adoptedSession tx upload session parsed (conflictText upload parsed.entries.length
        (compareWithStored tools before.entries parsed.entries)))
      (upload.version tx .current parsed.entries.length
        (some ((compareWithStored tools before.entries parsed.entries).digestWith tools.sha
          (parsed.entries.drop (conflictCut parsed.entries.length
            (compareWithStored tools before.entries parsed.entries)))))
        upload.submittedBy) := by
  have hspec := compareWithStored_spec tools before.entries parsed.entries
  have hentries := (adoptRepositoryVersion_frame hwrite).2
  have hold := conflictCut_le hwins
  have hnew := conflictCut_le_new tools before.entries parsed.entries
  have hcount : after.entries.length = parsed.entries.length := by
    rw [hentries, List.length_append, List.length_take_of_le hold, List.length_drop]
    omega
  refine ⟨rfl, rfl, rfl, hcount.symm, ?_, ⟨rfl, by simp [Upload.version]⟩, .inr rfl⟩
  show some _ = some _
  rw [hspec.digestWith, hentries]
  rfl

/-- A conflict that names the repository keeps the invariant. -/
theorem History.adopt (h : History tools before session olds current)
    (hbefore : ReceivedBefore tx before)
    (hwins : repositoryWins before session parsed.entries.length
      (compareWithStored tools before.entries parsed.entries) = true)
    (hsource : truthy upload.sourcePath = true) (hsubmitted : upload.submittedBy = none)
    (hobject : upload.storeObjectId = none)
    (hwrite : adoptRepositoryVersion tools tx upload session parsed
      (compareWithStored tools before.entries parsed.entries) before = .ok after) :
    SessionOk tools after := by
  have hr := adopt_replacement h.headed.hasCurrentVersion hwrite
  have hreason : (current.supersede (reconstruct tools session before.entries
      (compareWithStored tools before.entries parsed.entries).stored)
      (compareWithStored tools before.entries parsed.entries).storedSha256
      (CONFLICT_REASON_PREFIX ++ conflictText upload parsed.entries.length
        (compareWithStored tools before.entries parsed.entries))).conflictReason = true := by
    rw [Version.conflictReason, List.isPrefixOf_iff_prefix]
    show CONFLICT_PREFIX.toList <+: (CONFLICT_REASON_PREFIX ++ _).toList
    rw [String.toList_append]
    exact (List.isPrefixOf_iff_prefix.mp (by decide)).trans (List.prefix_append _ _)
  refine .inr ⟨_, _, _, h.replace hr (newCurrent_adopt hwins hwrite) hbefore ?_ ?_ ?_⟩
  · intro heq
    have hnil := congrArg String.toList heq
    rw [String.toList_append] at hnil
    exact absurd (List.append_eq_nil_iff.mp hnil).1 (by decide)
  · intro version hmem
    rw [sinceConflict_concat, if_pos hreason] at hmem
    cases hmem
  · rw [StepOk, if_pos hreason]
    exact ⟨truthy_cleanMetadata (by decide) hsource, hsubmitted, hobject,
      oneTransaction_conflict h hr rfl rfl hbefore rfl⟩

end

/-- A call replaces the current version: its transcript extends what is stored, or wins a conflict. -/
def Replaces (tools : Tools) (upload : Upload) (record : SessionRecord) : Prop :=
  ∃ session parsed, record.session = some session ∧ upload.transcript tools = .ok parsed
    ∧ upload.dryRun = false
    ∧ (((compareWithStored tools record.entries parsed.entries).difference = none
          ∧ record.entries.length < parsed.entries.length
          ∧ extensionRefusal upload session parsed record.entries.length record = none)
      ∨ (upload.authority = .system
          ∧ repositoryWins record session parsed.entries.length
            (compareWithStored tools record.entries parsed.entries) = true))

/-- A call that replaces the current version is dated after the session's history. The verifier
reads the versions in the order of these dates. -/
def ReceivedInOrder (tools : Tools) (tx : Transaction) (upload : Upload)
    (record : SessionRecord) : Prop :=
  Replaces tools upload record → ReceivedBefore tx record

/-- Every outcome keeps the current version at the end. -/
theorem sessionHeaded_outcome {tools : Tools} {tx : Transaction} {upload : Upload}
    {before after : SessionRecord} {result : ImportResult} (hok : SessionHeaded tools before)
    (horder : ReceivedInOrder tools tx upload before)
    (h : ImportOutcome tools tx upload before after result) :
    SessionHeaded tools after := by
  have hstored : ∀ session, before.session = some session →
      ∃ olds current, Headed tools before session olds current := by
    intro session hsession
    rcases hok with rfl | ⟨session', olds, current, hheaded⟩
    · cases hsession
    · cases hheaded.stored.symm.trans hsession
      exact ⟨olds, current, hheaded⟩
  cases h with
  | dryRun hdry => exact hok
  | sameContent session hsession hsame hresult => exact hok
  | kept session parsed hsession hparsed hagree hlength hresult => exact hok
  | created parsed hsession hparsed hwrite hwrites hresult =>
    rcases hok with rfl | ⟨session, olds, current, hheaded⟩
    · rcases history_create hwrite with hempty | ⟨session, olds, current, hhistory⟩
      · exact .inl hempty
      · exact .inr ⟨session, olds, current, hhistory.headed⟩
    · rw [hheaded.stored] at hsession
      cases hsession
  | rejected session count reason hsession hwrite hwrites hresult =>
    obtain ⟨olds, current, hheaded⟩ := hstored session hsession
    exact .inr ⟨session, olds, current, hheaded.reject hwrite⟩
  | extended session parsed hsession hparsed hagree hlength haccepted hwrite hwrites hresult =>
    obtain ⟨olds, current, hheaded⟩ := hstored session hsession
    have hbefore := horder ⟨session, parsed, hsession, hparsed, hwrites,
      .inl ⟨hagree, hlength, haccepted⟩⟩
    exact .inr ⟨_, _, _, hheaded.replace (extend_replacement hheaded.hasCurrentVersion hwrite)
      (newCurrent_extend hagree hlength hwrite) hbefore⟩
  | adopted session parsed hsession hparsed hwrites hnew hsystem hwins hwrite hresult =>
    obtain ⟨olds, current, hheaded⟩ := hstored session hsession
    have hbefore := horder ⟨session, parsed, hsession, hparsed, hwrites, .inr ⟨hsystem, hwins⟩⟩
    exact .inr ⟨_, _, _, hheaded.replace (adopt_replacement hheaded.hasCurrentVersion hwrite)
      (newCurrent_adopt hwins hwrite) hbefore⟩
  | baselined session parsed hsession hparsed hcurrent hagree hlength hwrite hwrites hresult =>
    -- Every session of a run has a current version.
    obtain ⟨olds, current, hheaded⟩ := hstored session hsession
    rw [hheaded.hasCurrentVersion] at hcurrent
    cases hcurrent
  | backfilled session parsed hsession hparsed hcontent hagree hlength hwrites hresult =>
    -- Every session of a run has a digest.
    obtain ⟨olds, current, hheaded⟩ := hstored session hsession
    exact absurd hcontent hheaded.content

/-- A conflict that a call wins names the repository: a source path and no submitter. -/
def NamesRepository (tools : Tools) (upload : Upload) (record : SessionRecord) : Prop :=
  ∀ session parsed, record.session = some session → upload.transcript tools = .ok parsed →
    upload.dryRun = false → upload.authority = .system →
    (session.contentSha256 = some upload.sha → record.hasCurrentVersion = false) →
    repositoryWins record session parsed.entries.length
      (compareWithStored tools record.entries parsed.entries) = true →
    upload.submittedBy = none ∧ truthy upload.sourcePath = true

/-- Every outcome keeps the invariant, when a conflict names the repository. -/
theorem sessionOk_outcome {tools : Tools} {tx : Transaction} {upload : Upload}
    {before after : SessionRecord} {result : ImportResult} (hok : SessionOk tools before)
    (horder : ReceivedInOrder tools tx upload before)
    (hobject : upload.authority = .system → upload.storeObjectId = none)
    (hnames : NamesRepository tools upload before)
    (h : ImportOutcome tools tx upload before after result) : SessionOk tools after := by
  -- A record with a session has the invariant of a stored session.
  have hstored : ∀ session, before.session = some session →
      ∃ olds current, History tools before session olds current := by
    intro session hsession
    rcases hok with rfl | ⟨session', olds, current, hhistory⟩
    · cases hsession
    · have hsame := hhistory.stored.symm.trans hsession
      cases hsame
      exact ⟨olds, current, hhistory⟩
  cases h with
  | dryRun hdry => exact hok
  | sameContent session hsession hsame hresult => exact hok
  | kept session parsed hsession hparsed hagree hlength hresult => exact hok
  | created parsed hsession hparsed hwrite hwrites hresult =>
    rcases hok with rfl | ⟨session, olds, current, hhistory⟩
    · exact history_create hwrite
    · rw [hhistory.stored] at hsession
      cases hsession
  | rejected session count reason hsession hwrite hwrites hresult =>
    obtain ⟨olds, current, hhistory⟩ := hstored session hsession
    exact .inr ⟨session, olds, current, hhistory.reject hwrite⟩
  | extended session parsed hsession hparsed hagree hlength haccepted hwrite hwrites hresult =>
    obtain ⟨olds, current, hhistory⟩ := hstored session hsession
    have hbefore := horder ⟨session, parsed, hsession, hparsed, hwrites,
      .inl ⟨hagree, hlength, haccepted⟩⟩
    exact hhistory.extend hbefore hagree hlength hwrite
  | adopted session parsed hsession hparsed hwrites hnew hsystem hwins hwrite hresult =>
    obtain ⟨olds, current, hhistory⟩ := hstored session hsession
    obtain ⟨hsubmitted, hsource⟩ :=
      hnames session parsed hsession hparsed hwrites hsystem hnew hwins
    have hbefore := horder ⟨session, parsed, hsession, hparsed, hwrites, .inr ⟨hsystem, hwins⟩⟩
    exact hhistory.adopt hbefore hwins hsource hsubmitted (hobject hsystem) hwrite
  | baselined session parsed hsession hparsed hcurrent hagree hlength hwrite hwrites hresult =>
    -- Every session of a run has a current version.
    obtain ⟨olds, current, hhistory⟩ := hstored session hsession
    rw [hhistory.headed.hasCurrentVersion] at hcurrent
    cases hcurrent
  | backfilled session parsed hsession hparsed hcontent hagree hlength hwrites hresult =>
    -- Every session of a run has a digest.
    obtain ⟨olds, current, hhistory⟩ := hstored session hsession
    exact absurd (hhistory.content.1.symm.trans hcontent) hhistory.content.2

end TrustPortal.Proofs.DecisionLog
