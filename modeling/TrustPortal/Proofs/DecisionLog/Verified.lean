import TrustPortal.Proofs.DecisionLog.History
import Mathlib.Data.List.TakeWhile

/-!
# `TrustPortal.Proofs.DecisionLog.Verified`: the verifier accepts what the importer writes

`verifySession_clean` shows that `_check_session` reports nothing for a session with the
invariant `History`, with or without an audit log. `ObjectsOk` is the part of the invariant
that spans the sessions: every version from the evidence store names an object recorded as
ingested.

`verifier_accepts_run` is the result for runs of calls. It has two conditions. `NamesRepository`:
the verifier takes a conflict for genuine only when the new version names a source path and no
submitter, and the importer does not look at either. `ReceivedInOrder`: the verifier reads the
versions in the order of `received_at`, which is what the clock of each call's host said.
`false_alarms` has a run that misses each: a member triggers the git sync, and the host of the
second call is a second behind.
-/

set_option autoImplicit false

namespace TrustPortal.Proofs.DecisionLog

open TrustPortal.Audit
open TrustPortal.DecisionLog
open TrustPortal.Lib

/-! ## The parts of the check -/

/-- A digest is a text that Python takes for true. -/
theorem truthy_entriesDigest (sha : Sha256) (entries : List Entry) :
    truthy (some (entriesDigest sha entries)) = true := by
  rw [truthy_some, decide_eq_true_eq]
  exact (sha.hexOfText_isHexDigest _).ne_empty

@[simp] theorem issueWhen_false (version : Version) (message : String) :
    issueWhen false version message = [] := rfl

section
variable {tools : Tools} {record : SessionRecord} {session : Session}
  {olds : List Version} {current : Version}

/-- A session's versions are already in the order received. -/
theorem Headed.historyVersions (h : Headed tools record session olds current) :
    historyVersions record = olds ++ [current] := by
  rw [TrustPortal.DecisionLog.historyVersions, h.versions]
  refine List.Pairwise.insertionSort_eq ?_
  refine h.times.imp ?_
  intro a b hab
  simp [Version.receivedBefore, hab]

/-- The audit log confirms a current version. -/
theorem checkHistory_current {version : Version} {first : Bool} {entries : List Entry}
    (hstatus : version.status = .current)
    (hdigest : version.entriesSha256 = some (entriesDigest tools.sha entries))
    (hrecorded : RecordedCurrent record version) :
    checkHistory tools version first (historyOf record version) = [] := by
  obtain ⟨created, hrows⟩ := hrecorded
  have htruthy := truthy_entriesDigest tools.sha entries
  rw [← hdigest] at htruthy
  rw [hrows]
  simp [checkHistory, createdEvent, hstatus, htruthy]

/-- The audit log confirms a superseded version. -/
theorem checkHistory_superseded {version : Version} {first : Bool}
    (h : SupersededOk tools record version) :
    checkHistory tools version first (historyOf record version) = [] := by
  obtain ⟨created, changed, hrows⟩ := h.recorded
  obtain ⟨entries, hdigest⟩ := h.digest
  have htruthy := truthy_entriesDigest tools.sha entries
  rw [← hdigest] at htruthy
  rw [hrows]
  simp [checkHistory, createdEvent, supersededEvent, h.status, htruthy]

/-- A step of the history is a genuine conflict when its reason says so, and is not
reported. -/
theorem conflictStep_eq {postgres : Bool} {version successor : Version}
    (hversion : version.status = .superseded) (h : StepOk record version successor) :
    conflictStep postgres record version successor = (version.conflictReason, []) := by
  unfold StepOk at h
  cases hreason : version.conflictReason with
  | true =>
    rw [if_pos hreason] at h
    obtain ⟨hsource, hsubmitted, hobject, htransaction⟩ := h
    simp [conflictStep, hversion, hreason, hsource, hsubmitted, hobject, htransaction]
  | false => simp [conflictStep, hreason]

/-- The versions before the last one are the first components of the steps. -/
theorem map_fst_versionSteps (olds : List Version) (current : Version) :
    (versionSteps (olds ++ [current])).map Prod.fst = olds := by
  induction olds using List.reverseRecOn generalizing current with
  | nil => rfl
  | append_singleton rest last ih => rw [versionSteps_concat, List.map_append, ih]; rfl

/-- The flags of the steps are the reasons of the superseded versions. -/
theorem map_conflictStep (h : History tools record session olds current)
    (postgres : Bool) :
    ((versionSteps (olds ++ [current])).map fun step =>
      (conflictStep postgres record step.1 step.2).1) = olds.map Version.conflictReason := by
  calc ((versionSteps (olds ++ [current])).map fun step =>
        (conflictStep postgres record step.1 step.2).1)
      = (versionSteps (olds ++ [current])).map fun step => step.1.conflictReason := ?_
    _ = ((versionSteps (olds ++ [current])).map Prod.fst).map Version.conflictReason := by
        rw [List.map_map]
        rfl
    _ = olds.map Version.conflictReason := by rw [map_fst_versionSteps]
  refine List.map_congr_left ?_
  rintro ⟨v, w⟩ hmem
  have hv := (h.superseded v (mem_of_mem_versionSteps hmem).1).status
  show (conflictStep postgres record v w).1 = v.conflictReason
  rw [conflictStep_eq hv (h.steps v w hmem)]

/-- The versions after the last flag are the superseded ones since the last conflict. -/
theorem drop_afterLast (olds : List Version) (current : Version) :
    ((olds ++ [current]).drop (afterLast (olds.map Version.conflictReason))).dropLast
      = sinceConflict olds := by
  -- The versions up to the last conflict, and those after it.
  have hsplit : (olds.reverse.dropWhile fun version => !version.conflictReason).reverse
      ++ sinceConflict olds = olds := by
    rw [sinceConflict, ← List.reverse_append, List.takeWhile_append_dropWhile, List.reverse_reverse]
  have hlength := congrArg List.length hsplit
  rw [List.length_append] at hlength
  have hflags : afterLast (olds.map Version.conflictReason)
      = (olds.reverse.dropWhile fun version => !version.conflictReason).reverse.length := by
    have hcount : ((olds.map Version.conflictReason).reverse.takeWhile fun flag => !flag).length
        = (sinceConflict olds).length := by
      rw [← List.map_reverse, List.takeWhile_map, List.length_map, sinceConflict,
        List.length_reverse]
      rfl
    rw [afterLast, hcount, List.length_map]
    omega
  calc ((olds ++ [current]).drop (afterLast (olds.map Version.conflictReason))).dropLast
      = (sinceConflict olds ++ [current]).dropLast := by
        rw [hflags]
        nth_rewrite 2 [← hsplit]
        rw [List.append_assoc, List.drop_left]
    _ = sinceConflict olds := List.dropLast_concat

/-- The prefixes are found while the stored rows are read. -/
theorem scanPrefixes_eq_nil {wanted : List Version} {entries : List Entry}
    (h : ∀ version ∈ wanted,
      version.entriesSha256 = some (entriesDigest tools.sha (entries.take version.entryCount)))
    (rest done : List Entry) (hsplit : done ++ rest = entries) :
    scanPrefixes tools wanted done.length (Hasher.new.updateEntries done) rest = [] := by
  have hcompare : ∀ done rest : List Entry, done ++ rest = entries →
      comparePrefix tools wanted done.length (Hasher.new.updateEntries done) = [] := by
    intro done rest hsplit
    rw [comparePrefix, List.flatMap_eq_nil_iff]
    intro version hmem
    obtain ⟨hwanted, hcount⟩ := List.mem_filter.mp hmem
    rw [decide_eq_true_eq] at hcount
    have hdigest := h version hwanted
    rw [hcount, ← hsplit, List.take_left] at hdigest
    rw [hdigest]
    simp [issueWhen, entriesDigest]
  induction rest generalizing done with
  | nil => exact hcompare done [] hsplit
  | cons row rest ih =>
    have hnext := ih (done ++ [row]) (by rw [← hsplit]; simp)
    rw [List.length_append, updateEntries_append, updateEntries_singleton] at hnext
    rw [scanPrefixes, hcompare done (row :: rest) hsplit, List.nil_append]
    exact hnext

/-- No superseded version is longer than the stored entries. -/
theorem missingVersions_eq_nil {wanted : List Version} {count : Nat}
    (h : ∀ version ∈ wanted, version.entryCount ≤ count) : missingVersions wanted count = [] := by
  rw [missingVersions, List.flatMap_eq_nil_iff]
  intro length hmem
  obtain ⟨_, hlonger⟩ := List.mem_filter.mp hmem
  rw [decide_eq_true_eq] at hlonger
  rw [List.map_eq_nil_iff, List.filter_eq_nil_iff]
  intro version hwanted
  have := h version hwanted
  rw [decide_eq_true_eq]
  omega

/-- The stored entries pass the check. -/
theorem checkEntries_eq_nil (h : History tools record session olds current) :
    checkEntries tools record (olds ++ [current]) (afterLast (olds.map Version.conflictReason))
      current = [] := by
  have hkept : ∀ version ∈ (sinceConflict olds).filter fun version =>
      version.status = .superseded && truthy version.entriesSha256,
      IsPrefix tools record.entries version := by
    intro version hmem
    exact h.kept version (List.mem_filter.mp hmem).1
  have hscan := scanPrefixes_eq_nil (fun version hmem => (hkept version hmem).2)
    record.entries [] rfl
  have hmissing := missingVersions_eq_nil fun version hmem => (hkept version hmem).1
  rw [checkEntries, drop_afterLast]
  show scanPrefixes tools _ 0 Hasher.new record.entries ++ _ ++ _ = []
  rw [hmissing, List.append_nil]
  refine List.append_eq_nil_iff.mpr ⟨hscan, ?_⟩
  simp [issueWhen, h.count, h.digest]

/-- The check of a version by itself passes. -/
theorem checkVersion_eq_nil {db : Database} {version : Version}
    (hstatus : version.status = .superseded →
      version.contentGz ≠ none ∧ truthy version.reason = true)
    (hobject : ∀ id, version.storeObjectId = some id →
      ∃ object, db.objects id = some object ∧ object.status = .ingested) :
    checkVersion db version = [] := by
  have hcontent : issueWhen (version.status = .superseded
      && (version.contentGz = none || !truthy version.reason)) version
        "the superseded version has no content or reason" = [] := by
    by_cases hsuperseded : version.status = .superseded
    · obtain ⟨hgz, hreason⟩ := hstatus hsuperseded
      simp [hsuperseded, hgz, hreason]
    · simp [hsuperseded]
  rw [checkVersion, hcontent, List.nil_append]
  cases hid : version.storeObjectId with
  | none => simp
  | some id =>
    obtain ⟨object, hfound, hingested⟩ := hobject id hid
    simp [hfound, hingested, STORE_IMPORTED]

/-- A session with the invariant passes the verifier's check. -/
theorem checkSession_clean {db : Database} (postgres : Bool)
    (h : History tools record session olds current)
    (hobjects : ∀ version ∈ olds ++ [current], ∀ id, version.storeObjectId = some id →
      ∃ object, db.objects id = some object ∧ object.status = .ingested) :
    checkSession tools postgres db record (olds ++ [current]) current = (0, []) := by
  have hunrecorded : ((olds ++ [current]).filter fun version =>
      version.entriesSha256 = none) = [] := by
    rw [List.filter_eq_nil_iff]
    intro version hmem
    rcases List.mem_append.mp hmem with hold | hlast
    · obtain ⟨entries, hdigest⟩ := (h.superseded version hold).digest
      simp [hdigest]
    · simp [List.mem_singleton.mp hlast, h.digest]
  have hhistory : ((olds ++ [current]).zipIdx.map fun place =>
      checkHistory tools place.1 (place.2 = 0) (historyOf record place.1)).flatten = [] := by
    rw [List.flatten_eq_nil_iff]
    intro issues hmem
    obtain ⟨⟨version, index⟩, hindex, rfl⟩ := List.mem_map.mp hmem
    have hversion : version ∈ olds ++ [current] :=
      List.mem_of_getElem? (List.mk_mem_zipIdx_iff_getElem?.mp hindex)
    rcases List.mem_append.mp hversion with hold | hlast
    · exact checkHistory_superseded (h.superseded version hold)
    · rw [List.mem_singleton.mp hlast]
      exact checkHistory_current h.status h.digest h.recorded
  have hsteps : (versionSteps (olds ++ [current])).flatMap (fun step =>
      (conflictStep postgres record step.1 step.2).2) = [] := by
    rw [List.flatMap_eq_nil_iff]
    rintro ⟨v, w⟩ hmem
    have hv := (h.superseded v (mem_of_mem_versionSteps hmem).1).status
    show (conflictStep postgres record v w).2 = []
    rw [conflictStep_eq hv (h.steps v w hmem)]
  have hversions : (olds ++ [current]).flatMap (checkVersion db) = [] := by
    rw [List.flatMap_eq_nil_iff]
    intro version hmem
    refine checkVersion_eq_nil ?_ (hobjects version hmem)
    intro hstatus
    rcases List.mem_append.mp hmem with hold | hlast
    · have hok := h.superseded version hold
      exact ⟨hok.content, hok.reason⟩
    · rw [List.mem_singleton.mp hlast, h.status] at hstatus
      cases hstatus
  have hcounts : (versionSteps (olds ++ [current])).flatMap (fun step =>
      issueWhen (!(conflictStep postgres record step.1 step.2).1
        && step.2.entryCount < step.1.entryCount) step.2
          "the entry count decreased along the version history") = [] := by
    rw [List.flatMap_eq_nil_iff]
    rintro ⟨v, w⟩ hmem
    have hv := (h.superseded v (mem_of_mem_versionSteps hmem).1).status
    have hok := h.steps v w hmem
    show issueWhen (!(conflictStep postgres record v w).1 && w.entryCount < v.entryCount) w _ = []
    rw [conflictStep_eq hv hok]
    cases hreason : v.conflictReason with
    | true => rfl
    | false =>
      rw [StepOk, hreason, if_neg Bool.false_ne_true] at hok
      have hnot : decide (w.entryCount < v.entryCount) = false := by
        rw [decide_eq_false_iff_not]
        omega
      rw [Bool.not_false, Bool.true_and, hnot, issueWhen_false]
  rw [checkSession]
  simp only [hunrecorded, h.headed.filter_current, hhistory, hsteps, hversions, hcounts,
    map_conflictStep h, checkEntries_eq_nil h]
  cases postgres <;> simp [h.status]

end

/-! ## The objects of the evidence store -/

/-- A version of the history names this object. -/
def NamesObject (record : SessionRecord) (id : String) : Prop :=
  ∃ version ∈ record.versions, version.inHistory = true ∧ version.storeObjectId = some id

/-- Every object that a version of a history names is recorded as ingested. -/
def ObjectsOk (db : Database) : Prop :=
  ∀ sid id, NamesObject (db.records sid) id →
    ∃ object, db.objects id = some object ∧ object.status = .ingested

section
variable {tools : Tools} {tx : Transaction} {upload : Upload} {before after : SessionRecord}
  {id : String}

/-- An INSERT of a version adds the object that the version names. -/
theorem namesObject_insert {version : Version}
    (h : before.insertVersion tools tx version = .ok after) (hnames : NamesObject after id) :
    NamesObject before id ∨ (version.inHistory = true ∧ version.storeObjectId = some id) := by
  obtain ⟨_, rfl⟩ := insertVersion_eq_ok.mp h
  obtain ⟨named, hmem, hhistory, hid⟩ := hnames
  rcases List.mem_append.mp hmem with hold | hlast
  · exact .inl ⟨named, hold, hhistory, hid⟩
  · rw [List.mem_singleton.mp hlast] at hhistory hid
    exact .inr ⟨hhistory, hid⟩

/-- Superseding names no new object. -/
theorem namesObject_supersede {session : Session} {contentGz digest reason : String} {count : Nat}
    (h : supersedeCurrent tools tx session contentGz digest count reason before = .ok after)
    (hnames : NamesObject after id) : NamesObject before id := by
  unfold supersedeCurrent at h
  split at h
  · cases h
    obtain ⟨version, hmem, hhistory, hid⟩ := hnames
    obtain ⟨version', hversion, rfl⟩ := List.mem_map.mp hmem
    refine ⟨version', hversion, by simpa using hhistory, ?_⟩
    unfold Version.retire at hid
    split at hid <;> exact hid
  · rcases namesObject_insert h hnames with hbefore | ⟨_, hid⟩
    · exact hbefore
    · cases hid

/-- A new object that a version names is the one of the call, and the call's outcome is that
its object was ingested. -/
theorem namesObject_outcome {result : ImportResult}
    (h : ImportOutcome tools tx upload before after result) (hnames : NamesObject after id) :
    NamesObject before id
      ∨ (upload.storeObjectId = some id ∧ outcomeStatus result = .ingested) := by
  have hingested : result.status = .created ∨ result.status = .replaced →
      outcomeStatus result = .ingested := by
    intro hstatus
    unfold outcomeStatus
    rcases hstatus with hcreated | hreplaced
    · simp [hcreated]
    · simp [hreplaced]
  cases h with
  | dryRun hdry => exact .inl hnames
  | sameContent session hsession hsame hresult => exact .inl hnames
  | kept session parsed hsession hparsed hagree hlength hresult => exact .inl hnames
  | created parsed hsession hparsed hwrite hwrites hresult =>
    rcases namesObject_insert hwrite hnames with hbefore | ⟨_, hid⟩
    · exact .inl hbefore
    · exact .inr ⟨hid, hingested (.inl hresult)⟩
  | rejected session count reason hsession hwrite hwrites hresult =>
    unfold recordRejected at hwrite
    split at hwrite
    · cases hwrite
      exact .inl hnames
    · rcases namesObject_insert hwrite hnames with hbefore | ⟨hhistory, _⟩
      · exact .inl hbefore
      · cases hhistory
  | extended session parsed hsession hparsed hagree hlength haccepted hwrite hwrites hresult =>
    obtain ⟨superseded, hsuperseded, hinsert⟩ := bind_eq_ok.mp hwrite
    rcases namesObject_insert hinsert hnames with hbefore | ⟨_, hid⟩
    · have hnamed : NamesObject superseded id := hbefore
      have hkept := namesObject_supersede hsuperseded hnamed
      exact .inl hkept
    · exact .inr ⟨hid, hingested (.inr hresult)⟩
  | adopted session parsed hsession hparsed hwrites hnew hsystem hwins hwrite hresult =>
    obtain ⟨superseded, hsuperseded, hinsert⟩ := bind_eq_ok.mp hwrite
    rcases namesObject_insert hinsert hnames with hbefore | ⟨_, hid⟩
    · have hnamed : NamesObject superseded id := hbefore
      have hkept := namesObject_supersede hsuperseded hnamed
      exact .inl hkept
    · exact .inr ⟨hid, hingested (.inr hresult)⟩
  | baselined session parsed hsession hparsed hcurrent hagree hlength hwrite hwrites hresult =>
    rcases namesObject_insert hwrite hnames with hbefore | ⟨_, hid⟩
    · exact .inl hbefore
    · exact .inr ⟨hid, by simp [outcomeStatus, hresult]⟩
  | backfilled session parsed hsession hparsed hcontent hagree hlength hwrites hresult =>
    exact .inl hnames

end

section
variable {tools : Tools} {db : Database} {tx : Transaction} {call : ImportCall}

/-- A name of the stored record is one of the written record or of another session. -/
private theorem namesObject_put {upload : Upload} {after : SessionRecord} {sid id : String}
    (h : NamesObject ((db.put upload.sid after).records sid) id) :
    NamesObject after id ∨ NamesObject (db.records sid) id := by
  by_cases hsid : sid = upload.sid
  · left
    simpa [Database.put, hsid] using h
  · right
    simpa [Database.put, hsid] using h

/-- An object that a version names is not read again. -/
private theorem ObjectsOk.not_reads (h : ObjectsOk db) {sid id : String}
    (hnames : NamesObject (db.records sid) id) : db.reads id = false := by
  obtain ⟨object, hfound, hstatus⟩ := h sid id hnames
  simp [Database.reads, hfound, hstatus]

/-- A call keeps the objects in order. -/
theorem objectsOk_call (h : ObjectsOk db) : ObjectsOk (runCall tools db tx call) := by
  have hcases := runCall_cases tools db tx call
  generalize runCall tools db tx call = later at hcases ⊢
  cases hcases with
  | nothing => exact h
  | failed id object hreads hstatus =>
    intro sid other hnames
    have hbefore : NamesObject (db.records sid) other := hnames
    have hne : other ≠ id := by
      rintro rfl
      rw [h.not_reads hbefore] at hreads
      cases hreads
    obtain ⟨found, hfound, hingested⟩ := h sid other hbefore
    exact ⟨found, by simp [Database.recordObject, hne, hfound], hingested⟩
  | returned upload after result hreturned hobject =>
    intro sid other hnames
    rcases namesObject_put hnames with hafter | hbefore
    · rcases hobject with hnone | hdry
      · rcases namesObject_outcome hreturned.outcome hafter with hbefore | ⟨hid, _⟩
        · exact h _ other hbefore
        · rw [hnone] at hid
          cases hid
      · -- A dry run leaves the record as it is.
        have hspec := upload_spec hreturned.accepted
        rw [hreturned.outcome.eq_of_dryRun (hspec.dryRun.trans hdry)] at hafter
        exact h _ other hafter
    · exact h sid other hbefore
  | stored upload after result id hreturned hwrites hobject hreads =>
    intro sid other hnames
    -- The object of the call is named by no version yet.
    have hold : ∀ sid', NamesObject (db.records sid') other →
        ∃ object, ((db.put upload.sid after).recordObject id
          ⟨outcomeStatus result, call.sid.getD "", call.content⟩).objects other = some object
            ∧ object.status = .ingested := by
      intro sid' hbefore
      have hne : other ≠ id := by
        rintro rfl
        rw [h.not_reads hbefore] at hreads
        cases hreads
      obtain ⟨found, hfound, hingested⟩ := h sid' other hbefore
      exact ⟨found, by simp [Database.recordObject, Database.put, hne, hfound], hingested⟩
    rcases namesObject_put hnames with hafter | hbefore
    · rcases namesObject_outcome hreturned.outcome hafter with hbefore | ⟨hid, hingested⟩
      · exact hold _ hbefore
      · rw [hobject, Option.some.injEq] at hid
        subst hid
        exact ⟨⟨outcomeStatus result, call.sid.getD "", call.content⟩,
          by simp [Database.recordObject], hingested⟩
    · exact hold sid hbefore

end

/-! ## Runs -/

/-- What the verifier's check of a session relies on, for every session of the database. -/
structure Verifiable (tools : Tools) (db : Database) : Prop where
  sessions : ∀ sid, SessionOk tools (db.records sid)
  objects : ObjectsOk db

/-- A call whose conflict, if it wins one, names the repository. -/
def NamesRepositoryCall (tools : Tools) (db : Database) (step : Transaction × ImportCall) : Prop :=
  ∀ upload, step.2.upload tools = .ok upload → NamesRepository tools upload (db.records upload.sid)

/-- A call that, if it replaces a session's current version, is dated after the session's history. -/
def ReceivedInOrderCall (tools : Tools) (db : Database) (step : Transaction × ImportCall) : Prop :=
  ∀ upload, step.2.upload tools = .ok upload →
    ReceivedInOrder tools step.1 upload (db.records upload.sid)

/-- Such a call keeps every session verifiable. -/
theorem verifiable_call {tools : Tools} {db : Database} {step : Transaction × ImportCall}
    (h : Verifiable tools db)
    (hstep : NamesRepositoryCall tools db step ∧ ReceivedInOrderCall tools db step) :
    Verifiable tools (callStep tools db step) := by
  refine ⟨sessions_call ?_ h.sessions, objectsOk_call h.objects⟩
  intro upload after result hupload hsession houtcome
  have hspec := upload_spec hupload
  have hobject : upload.authority = .system → upload.storeObjectId = none := by
    intro hsystem
    rw [hspec.storeObjectId, ← hspec.authority, hsystem, if_neg (by decide)]
  exact sessionOk_outcome hsession (hstep.2 upload hupload) hobject (hstep.1 upload hupload) houtcome

/-- Take a run of calls from an empty database. Suppose every call that wins a conflict names
the repository: a source path and no submitter. And suppose every call that replaces a current
version is dated after the session's history. Then every session has one current version,
which describes the stored entries and has the session's content digest; the superseded
versions since the last conflict are prefixes of the stored entries; and the verifier's check
reports nothing. -/
theorem verifier_accepts_run (tools : Tools) (calls : List (Transaction × ImportCall))
    (hnames : Along (callStep tools) (NamesRepositoryCall tools) .empty calls)
    (horder : Along (callStep tools) (ReceivedInOrderCall tools) .empty calls) (sid : String)
    (session : Session) (postgres : Bool)
    (hsession : ((runCalls tools .empty calls).records sid).session = some session) :
    let db := runCalls tools .empty calls
    let record := db.records sid
    ∃ olds current, historyVersions record = olds ++ [current]
      ∧ (record.versions.filter fun version => version.status = .current) = [current]
      ∧ current.entryCount = record.entries.length
      ∧ current.entriesSha256 = some (entriesDigest tools.sha record.entries)
      ∧ session.contentSha256 = current.contentSha256
      ∧ (∀ version ∈ sinceConflict olds, version.status = .superseded
          ∧ IsPrefix tools record.entries version)
      ∧ verifySession tools postgres db sid = (0, []) := by
  intro db record
  have hverifiable : Verifiable tools db :=
    run_invariant (fun _ _ => verifiable_call) (hnames.and horder)
      ⟨fun _ => .inl rfl, fun _ _ ⟨_, hmem, _⟩ => by cases hmem⟩
  rcases hverifiable.sessions sid with hempty | ⟨session', olds, current, h⟩
  · rw [hempty] at hsession
    cases hsession
  · cases h.stored.symm.trans hsession
    refine ⟨olds, current, h.headed.historyVersions, h.headed.filter_versions, h.count, h.digest, h.content.1,
      ?_, ?_⟩
    · intro version hmem
      exact ⟨(h.superseded version (mem_of_mem_sinceConflict hmem)).status, h.kept version hmem⟩
    · have hobjects : ∀ version ∈ olds ++ [current], ∀ id, version.storeObjectId = some id →
          ∃ object, db.objects id = some object ∧ object.status = .ingested := by
        intro version hmem id hid
        have hfilter : version ∈ record.versions.filter Version.inHistory := by
          rw [h.versions]
          exact hmem
        obtain ⟨hstored, hhistory⟩ := List.mem_filter.mp hfilter
        exact hverifiable.objects sid id ⟨version, hstored, hhistory, hid⟩
      rw [verifySession, h.headed.historyVersions, List.getLast?_concat]
      exact checkSession_clean postgres h hobjects

/-! ## Calls that win a conflict -/

/-- A call that cannot win a conflict, or names the repository, meets the condition in every
state: an upload through the API, a store import and a scheduled git sync. -/
theorem namesRepositoryCall_of {tools : Tools} {db : Database} {step : Transaction × ImportCall}
    (h : step.2.authority ≠ .system
      ∨ (step.2.submittedBy = none ∧ truthy step.2.sourcePath = true)) :
    NamesRepositoryCall tools db step := by
  intro upload hupload session parsed _ _ _ hsystem _ _
  have hspec := upload_spec hupload
  rcases h with hother | ⟨hsubmitted, hsource⟩
  · exact absurd (hspec.authority.symm.trans hsystem) hother
  · exact ⟨hspec.submittedBy.trans hsubmitted, by rw [hspec.sourcePath]; exact hsource⟩

/-- A session without versions has no history to be dated after. -/
theorem receivedInOrderCall_empty {tools : Tools} {step : Transaction × ImportCall} :
    ReceivedInOrderCall tools .empty step := by
  intro upload _ _ version hmem
  cases hmem

/-- A call that is dated after the versions of every session is in order. -/
theorem receivedInOrderCall_of {tools : Tools} {db : Database} {step : Transaction × ImportCall}
    {sid : String} (hsid : step.2.sid = some sid)
    (h : ∀ version ∈ (db.records sid).versions, version.receivedAt < step.1.now) :
    ReceivedInOrderCall tools db step := by
  intro upload hupload _ version hmem _
  have hsame := (upload_spec hupload).sid
  rw [hsid, Option.some.injEq] at hsame
  subst hsame
  exact h version hmem

set_option maxRecDepth 8000 in
/-- A member uploads a transcript, and a scheduled git sync finds another one: the conflict
is accepted. -/
theorem scheduled_conflict_accepted :
    let db := runCalls sampleTools .empty [(sampleTransaction 1, sampleUpload transcriptA),
      (sampleTransaction 2, sampleGit transcriptB none)]
    let record := db.records "s1"
    ∃ olds current, historyVersions record = olds ++ [current]
      ∧ (record.versions.filter fun version => version.status = .current) = [current]
      ∧ current.entryCount = record.entries.length
      ∧ current.entriesSha256 = some (entriesDigest sampleTools.sha record.entries)
      ∧ some "f1544e6cc74c0a26e9001c0b6a72316a8b55be36a28e888f63278708d235b44a"
          = current.contentSha256
      ∧ (∀ version ∈ sinceConflict olds, version.status = .superseded
          ∧ IsPrefix sampleTools record.entries version)
      ∧ verifySession sampleTools true db "s1" = (0, []) :=
  verifier_accepts_run sampleTools
    [(sampleTransaction 1, sampleUpload transcriptA), (sampleTransaction 2, sampleGit transcriptB none)]
    ⟨namesRepositoryCall_of (.inl (by decide)), namesRepositoryCall_of (.inr ⟨rfl, by decide⟩),
      trivial⟩
    ⟨receivedInOrderCall_empty,
      @receivedInOrderCall_of _ _ (sampleTransaction 2, sampleGit transcriptB none) "s1" (by decide)
        (by decide), trivial⟩ "s1"
    { id := "s1", agentType := "claude_code", model := none, cwd := none, gitBranch := none,
      startedAt := none, endedAt := none, exitReason := none, transcriptPath := some samplePath,
      submittedBy := none, importedAt := 1,
      contentSha256 := some "f1544e6cc74c0a26e9001c0b6a72316a8b55be36a28e888f63278708d235b44a",
      contentBytes := some 56, replacedAt := some 2, repositoryEntries := some 1,
      conflictAt := some 2, conflictDetail := some (conflictText
        { sid := "s1", content := transcriptB, sha := "", size := 56,
          sourcePath := some samplePath, exitReason := none, submittedBy := none,
          authority := .system, dryRun := false, namedAgent := none, preparsed := none,
          sourceCommit := none, storeObjectId := none } 1 ⟨1, some 0, .new, ""⟩) }
    true (by decide)

set_option maxRecDepth 8000 in
/-- The same conflict, when the member `m2` triggers the git sync: the importer stores it with
`m2` as the submitter, and the verifier reports it. And two scheduled syncs, where the host of the
second one, which extends the session, is a second behind the first. -/
theorem false_alarms :
    verifySession sampleTools true (runCalls sampleTools .empty
        [(sampleTransaction 1, sampleUpload transcriptA),
          (sampleTransaction 2, sampleGit transcriptB (some "m2"))]) "s1"
      = (0, [⟨"v1", "a repository-conflict step whose successor is not a repository import"⟩,
          ⟨"v1", "the superseded version is not a prefix of the current entries"⟩])
    ∧ verifySession exportTools true (runCalls exportTools .empty
        [(sampleTransaction 2, sampleGit transcriptA none),
          (sampleTransaction 1, sampleGit transcriptAB none)]) "s1"
      = (0, [⟨"v2", "the entry count decreased along the version history"⟩]) := by
  constructor
  · rw [runCalls, List.foldl_cons, List.foldl_cons, List.foldl_nil,
      sampleUpload_run sampleTools _ _ transcriptA_small,
      sampleGit_run sampleTools _ _ (some "m2") transcriptB_small]
    decide +kernel
  · rw [runCalls, List.foldl_cons, List.foldl_cons, List.foldl_nil,
      sampleGit_run exportTools _ _ none transcriptA_small,
      sampleGit_run exportTools _ _ none transcriptAB_small]
    decide +kernel

end TrustPortal.Proofs.DecisionLog
