import TrustPortal.Proofs.DecisionLog.History

/-!
# `TrustPortal.Proofs.DecisionLog.Authority`: what an upload through the API can touch

`ApiOutcome` lists what a call of `_import` with the authority of an admin or a member can
have done, with the permission it needed. The order of the checks decides it: a conflict and
a baseline are for the sources only, a difference is refused before the permission is looked
at, and an extension needs the permission, a session without repository entries and a
transcript that is not back-dated.

`api_upload_limits` states the limits over every state of the database. The one write to the
row of a session that the repository supplied is the one-time backfill of a digest, for a
session stored before digests were recorded.
-/

set_option autoImplicit false

namespace TrustPortal.Proofs.DecisionLog

open TrustPortal.Audit
open TrustPortal.DecisionLog
open TrustPortal.Lib

section
variable {tools : Tools} {tx : Transaction} {upload : Upload} {record after : SessionRecord}
  {result : ImportResult} {session : Session} {parsed : ParsedTranscript}

/-! ## The outcomes -/

/-- The transcript's entries are exactly the stored ones, in the sense of the comparison. -/
structure SameTranscript (tools : Tools) (upload : Upload) (rows : List Entry)
    (parsed : ParsedTranscript) : Prop where
  transcript : upload.transcript tools = .ok parsed
  length : parsed.entries.length = rows.length
  covers : Covers (Same tools) rows parsed.entries

/-- What a call of an admin or a member that returns has done to the session's record. -/
inductive ApiOutcome (tools : Tools) (tx : Transaction) (upload : Upload)
    (record : SessionRecord) : SessionRecord → Prop
  | nothing : ApiOutcome tools tx upload record record
  | created (parsed : ParsedTranscript) {after : SessionRecord}
      (hsession : record.session = none)
      (hwrite : create tools tx upload parsed record = .ok after) :
      ApiOutcome tools tx upload record after
  | rejected (session : Session) (count : Nat) (reason : String) {after : SessionRecord}
      (hsession : record.session = some session)
      (hwrite : recordRejected tools tx upload count reason record = .ok after) :
      ApiOutcome tools tx upload record after
  | extended (session : Session) (parsed : ParsedTranscript) {after : SessionRecord}
      (hsession : record.session = some session)
      (haccepted : extensionRefusal upload session parsed record.entries.length record = none)
      (hwrite : extend tools tx upload session parsed
        (compareWithStored tools record.entries parsed.entries) record = .ok after) :
      ApiOutcome tools tx upload record after
  | backfilled (session : Session) (parsed : ParsedTranscript)
      (hsession : record.session = some session)
      (hcontent : session.contentSha256 = none)
      (hsame : SameTranscript tools upload record.entries parsed)
      (hextend : mayExtend session upload.authority upload.submittedBy = true) :
      ApiOutcome tools tx upload record (backfill tx upload session record.entries.length record)

/-- A refusal is recorded, or nothing in a dry run. -/
theorem reject_apiOutcome {stored : Nat} {reason : String} {forbidden : Bool}
    (hsession : record.session = some session)
    (h : reject tools tx upload session parsed stored reason forbidden record
      = .ok (after, result)) :
    ApiOutcome tools tx upload record after := by
  obtain ⟨written, hwrite, hreturn⟩ := bind_eq_ok.mp h
  cases hreturn
  rcases writes_eq_ok hwrite with ⟨_, rfl⟩ | ⟨_, hwrite⟩
  · exact .nothing
  · exact .rejected session _ reason hsession hwrite

/-- The outcomes of a comparison for an admin or a member. -/
theorem importCompared_apiOutcome (hapi : upload.authority.isSource = false)
    (hsession : record.session = some session)
    (hparsed : upload.transcript tools = .ok parsed)
    (h : importCompared tools tx upload session parsed
      (compareWithStored tools record.entries parsed.entries) false record
        = .ok (after, result)) :
    ApiOutcome tools tx upload record after := by
  have hspec := compareWithStored_spec tools record.entries parsed.entries
  have hsystem : upload.authority ≠ .system := by
    intro heq
    rw [heq] at hapi
    cases hapi
  unfold importCompared at h
  dsimp only at h
  rw [if_neg (fun hwins => hsystem hwins.1), if_neg (by simp)] at h
  split at h
  · exact reject_apiOutcome hsession h
  · rename_i hagree
    rw [hspec.stored] at h
    split at h
    · split at h
      · exact reject_apiOutcome hsession h
      · -- The export extends the stored entries.
        rename_i haccepted
        obtain ⟨written, hwrite, hreturn⟩ := bind_eq_ok.mp h
        cases hreturn
        rcases writes_eq_ok hwrite with ⟨_, rfl⟩ | ⟨_, hwrite⟩
        · exact .nothing
        · exact .extended session parsed hsession haccepted hwrite
    · split at h
      · -- A session stored before digests were recorded.
        rename_i hfill
        obtain ⟨hcount, hcontent, hextend, _⟩ := hfill
        obtain ⟨written, hwrite, hreturn⟩ := bind_eq_ok.mp h
        cases hreturn
        rcases writes_eq_ok hwrite with ⟨_, rfl⟩ | ⟨_, hwrite⟩
        · exact .nothing
        · cases hwrite
          exact .backfilled session parsed hsession hcontent
            ⟨hparsed, hcount, hspec.covers hagree hcount.le⟩ hextend
      · cases h
        exact .nothing

/-- Every call of an admin or a member that returns has one of the outcomes. -/
theorem importUpload_apiOutcome (hapi : upload.authority.isSource = false)
    (h : importUpload tools tx upload record = .ok (after, result)) :
    ApiOutcome tools tx upload record after := by
  unfold importUpload at h
  split at h
  · rename_i hsession
    obtain ⟨parsed, hparsed, h⟩ := bind_eq_ok.mp h
    obtain ⟨written, hwrite, hreturn⟩ := bind_eq_ok.mp h
    cases hreturn
    rcases writes_eq_ok hwrite with ⟨_, rfl⟩ | ⟨_, hwrite⟩
    · exact .nothing
    · exact .created parsed hsession hwrite
  · rename_i session hsession
    dsimp only at h
    split at h
    · cases h
      exact .nothing
    · obtain ⟨parsed, hparsed, h⟩ := bind_eq_ok.mp h
      rw [hapi, Bool.false_and] at h
      exact importCompared_apiOutcome hapi hsession hparsed h

/-! ## The limits, one by one -/

/-- The row of a session that a backfill leaves. -/
def backfilledSession (upload : Upload) (session : Session) (stored : Nat) : Session :=
  { session with
    repositoryEntries :=
      if upload.authority = .system then some stored else session.repositoryEntries
    contentSha256 := some upload.sha
    contentBytes := some upload.size }

/-- The row is as it was, or has got the digest of an identical transcript in place of a missing
one. -/
def RowKept (tools : Tools) (upload : Upload) (rows : List Entry) (session : Session)
    (later : Option Session) : Prop :=
  later = some session
    ∨ (session.contentSha256 = none ∧ (∃ parsed, SameTranscript tools upload rows parsed)
        ∧ later = some (backfilledSession upload session rows.length))

/-- Without a back-dated entry, every timestamp from the start on is at least the latest one. -/
theorem firstBackdated_eq_none {entries : List Entry} {start : Nat} {latest : Int}
    (h : firstBackdated entries start latest = none) :
    ∀ entry ∈ entries.drop start, ∀ stamp, entry.timestamp = some stamp → latest ≤ stamp := by
  intro entry hmem stamp hstamp
  rw [firstBackdated, Option.map_eq_none_iff, List.findIdx?_eq_none_iff] at h
  have hentry := h entry hmem
  rw [hstamp] at hentry
  simpa using hentry

/-- The entry that is found back-dated has a timestamp. -/
theorem firstBackdated_eq_some {entries : List Entry} {start index : Nat} {latest : Int}
    (h : firstBackdated entries start latest = some index) :
    ∃ stamp, entries[index]?.bind Entry.timestamp = some stamp := by
  obtain ⟨offset, hoffset, rfl⟩ := Option.map_eq_some_iff.mp h
  obtain ⟨hlt, hfound, _⟩ := List.findIdx?_eq_some_iff_getElem.mp hoffset
  rw [List.getElem_drop] at hfound
  rw [List.length_drop] at hlt
  have hbound : start + offset < entries.length := by omega
  rw [List.getElem?_eq_getElem hbound, Option.bind_some]
  cases hstamp : entries[start + offset].timestamp with
  | some stamp => exact ⟨stamp, rfl⟩
  | none =>
    rw [hstamp] at hfound
    cases hfound

/-- An extension that is accepted: the permission, no repository entries and no back-dated
entry. -/
theorem extensionRefusal_eq_none (hapi : upload.authority.isSource = false)
    (h : extensionRefusal upload session parsed record.entries.length record = none) :
    mayExtend session upload.authority upload.submittedBy = true
      ∧ repositoryEntries session record.entries.length = 0
      ∧ ∀ latest, latestStoredTimestamp record.entries = some latest →
          ∀ entry ∈ parsed.entries.drop record.entries.length, ∀ stamp,
            entry.timestamp = some stamp → latest ≤ stamp := by
  unfold extensionRefusal at h
  split at h
  · cases h
  · rename_i hextend
    rw [if_neg (by simp [hapi])] at h
    split at h
    · cases h
    · rename_i howned
      refine ⟨by simpa using hextend, by omega, ?_⟩
      intro latest hlatest
      rw [hlatest, Option.bind_some, Option.bind_eq_none_iff] at h
      cases hfirst : firstBackdated parsed.entries record.entries.length latest with
      | none => exact firstBackdated_eq_none hfirst
      | some index =>
        -- A back-dated entry would have been the reason for a refusal.
        obtain ⟨stamp, hstamp⟩ := firstBackdated_eq_some hfirst
        have hnone := h index hfirst
        rw [hstamp] at hnone
        cases hnone

/-- A session that the repository or the store has supplied entries of keeps its entries, and its
row up to a backfill. -/
theorem ApiOutcome.owned (h : ApiOutcome tools tx upload record after)
    (hapi : upload.authority.isSource = false) (hsession : record.session = some session)
    (howned : 0 < repositoryEntries session record.entries.length) :
    after.entries = record.entries
      ∧ RowKept tools upload record.entries session after.session := by
  cases h with
  | nothing => exact ⟨rfl, .inl hsession⟩
  | created parsed hnone hwrite =>
    rw [hsession] at hnone
    cases hnone
  | rejected session' count reason hstored hwrite =>
    obtain ⟨hsame, hentries⟩ := recordRejected_frame hwrite
    exact ⟨hentries, .inl (hsame.trans hsession)⟩
  | extended session' parsed hstored haccepted hwrite =>
    -- An extension is refused for such a session.
    cases hsession.symm.trans hstored
    have hnone := (extensionRefusal_eq_none hapi haccepted).2.1
    omega
  | backfilled session' parsed hstored hcontent hsame hextend =>
    cases hsession.symm.trans hstored
    exact ⟨rfl, .inr ⟨hcontent, ⟨parsed, hsame⟩, rfl⟩⟩

/-- The versions are as they were, or one rejected version of the content is added, the first
of it. -/
def AddsRejected (sha : String) (before after : List Version) : Prop :=
  after = before ∨ ∃ version, after = before ++ [version] ∧ version.status = .rejected
    ∧ version.contentSha256 = some sha
    ∧ ∀ other ∈ before, other.status = .rejected → other.contentSha256 ≠ some sha

/-- A rejection is recorded once for each content. -/
theorem recordRejected_versions {count : Nat} {reason : String}
    (h : recordRejected tools tx upload count reason record = .ok after) :
    AddsRejected upload.sha record.versions after.versions := by
  unfold recordRejected at h
  split at h
  · cases h
    exact .inl rfl
  · rename_i hnew
    obtain ⟨_, rfl⟩ := insertVersion_eq_ok.mp h
    refine .inr ⟨_, rfl, rfl, rfl, ?_⟩
    intro other hmem hstatus hsha
    refine hnew (List.any_eq_true.mpr ⟨other, hmem, ?_⟩)
    exact decide_eq_true ⟨hstatus, hsha⟩

/-- A caller who may not extend the session can add a rejected version, and nothing else. -/
theorem ApiOutcome.not_permitted (h : ApiOutcome tools tx upload record after)
    (hapi : upload.authority.isSource = false) (hsession : record.session = some session)
    (hextend : mayExtend session upload.authority upload.submittedBy = false) :
    after.session = some session ∧ after.entries = record.entries
      ∧ AddsRejected upload.sha record.versions after.versions := by
  cases h with
  | nothing => exact ⟨hsession, rfl, .inl rfl⟩
  | created parsed hnone hwrite =>
    rw [hsession] at hnone
    cases hnone
  | rejected session' count reason hstored hwrite =>
    obtain ⟨hsame, hentries⟩ := recordRejected_frame hwrite
    exact ⟨hsame.trans hsession, hentries, recordRejected_versions hwrite⟩
  | extended session' parsed hstored haccepted hwrite =>
    cases hsession.symm.trans hstored
    have hpermitted := (extensionRefusal_eq_none hapi haccepted).1
    exact absurd (hpermitted.symm.trans hextend) (by decide)
  | backfilled session' parsed hstored hcontent hsame hpermitted =>
    cases hsession.symm.trans hstored
    exact absurd (hpermitted.symm.trans hextend) (by decide)

/-- The latest stored timestamp is the largest one. -/
theorem le_latestStoredTimestamp {rows : List Entry} {entry : Entry} {stamp : Int}
    (hmem : entry ∈ rows) (hstamp : entry.timestamp = some stamp) :
    ∃ latest, latestStoredTimestamp rows = some latest ∧ stamp ≤ latest := by
  have hin : stamp ∈ rows.filterMap Entry.timestamp := List.mem_filterMap.mpr ⟨entry, hmem, hstamp⟩
  cases hlatest : latestStoredTimestamp rows with
  | none =>
    rw [latestStoredTimestamp, List.max?_eq_none_iff] at hlatest
    rw [hlatest] at hin
    cases hin
  | some latest => exact ⟨latest, rfl, (List.max?_eq_some_iff.mp hlatest).2 stamp hin⟩

/-- Entries are appended only, and none of them has a timestamp before a stored one. -/
theorem ApiOutcome.appended (h : ApiOutcome tools tx upload record after)
    (hapi : upload.authority.isSource = false)
    (hkeys : record.session = none → record.entries = []) :
    ∃ added, after.entries = record.entries ++ added
      ∧ ∀ entry ∈ added, ∀ stamp, entry.timestamp = some stamp →
          ∀ stored ∈ record.entries, ∀ earlier, stored.timestamp = some earlier →
            earlier ≤ stamp := by
  have hnothing : after.entries = record.entries → ∃ added,
      after.entries = record.entries ++ added ∧ ∀ entry ∈ added, ∀ stamp,
        entry.timestamp = some stamp → ∀ stored ∈ record.entries, ∀ earlier,
          stored.timestamp = some earlier → earlier ≤ stamp := by
    intro heq
    refine ⟨[], by rw [heq, List.append_nil], ?_⟩
    intro entry hmem
    cases hmem
  cases h with
  | nothing => exact hnothing rfl
  | created parsed hnone hwrite =>
    refine ⟨parsed.entries, (create_frame hwrite).2, ?_⟩
    intro entry _ stamp _ stored hstored
    rw [hkeys hnone] at hstored
    cases hstored
  | rejected session count reason hstored hwrite => exact hnothing (recordRejected_frame hwrite).2
  | extended session parsed hstored haccepted hwrite =>
    have hspec := compareWithStored_spec tools record.entries parsed.entries
    have htimes := (extensionRefusal_eq_none hapi haccepted).2.2
    refine ⟨parsed.entries.drop record.entries.length, ?_, ?_⟩
    · rw [(extend_frame hwrite).2, hspec.stored]
    · intro entry hmem stamp hstamp stored hin earlier hearlier
      obtain ⟨latest, hlatest, hle⟩ := le_latestStoredTimestamp hin hearlier
      exact hle.trans (htimes latest hlatest entry hmem stamp hstamp)
  | backfilled session parsed hstored hcontent hsame hextend => exact hnothing rfl

/-- The answers that leave a session's transcript as it is. -/
def LeavesTranscript (result : ImportResult) : Prop :=
  (result.status = .rejected ∨ result.status = .keptExisting ∨ result.status = .unchanged)
    ∧ result.baselined = false

/-- Such an answer, whatever the authority: the entries, the current version and the row, up to a
backfill, are as they were. -/
theorem ImportOutcome.leaves (h : ImportOutcome tools tx upload record after result)
    (hleaves : LeavesTranscript result) (hsession : record.session = some session) :
    after.entries = record.entries
      ∧ (after.versions.filter fun version => version.status = .current)
        = (record.versions.filter fun version => version.status = .current)
      ∧ RowKept tools upload record.entries session after.session := by
  cases h with
  | dryRun hdry => exact ⟨rfl, rfl, .inl hsession⟩
  | sameContent session hstored hsame hresult => exact ⟨rfl, rfl, .inl hsession⟩
  | kept session parsed hstored hparsed hagree hlength hresult => exact ⟨rfl, rfl, .inl hsession⟩
  | created parsed hnone hparsed hwrite hwrites hresult =>
    rw [hsession] at hnone
    cases hnone
  | rejected session' count reason hstored hwrite hwrites hresult =>
    obtain ⟨hsame, hentries⟩ := recordRejected_frame hwrite
    refine ⟨hentries, ?_, .inl (hsame.trans hsession)⟩
    rcases recordRejected_versions hwrite with hversions | ⟨version, hversions, hrejected, _⟩
    · rw [hversions]
    · rw [hversions, List.filter_append]
      simp [hrejected]
  | extended session' parsed hstored hparsed hagree hlength haccepted hwrite hwrites hresult =>
    simp [LeavesTranscript, hresult] at hleaves
  | adopted session' parsed hstored hparsed hwrites hnew hsystem hwins hwrite hresult =>
    simp [LeavesTranscript, hresult] at hleaves
  | baselined session' parsed hstored hparsed hcurrent hagree hlength hwrite hwrites hresult =>
    simp [LeavesTranscript, hresult] at hleaves
  | backfilled session' parsed hstored hparsed hcontent hagree hlength hwrites hresult =>
    cases hsession.symm.trans hstored
    have hspec := compareWithStored_spec tools record.entries parsed.entries
    exact ⟨rfl, rfl, .inr ⟨hcontent, ⟨parsed, hparsed, hlength,
      hspec.covers hagree hlength.le⟩, rfl⟩⟩

end

/-! ## The limits of a call -/

/-- A member's permission: the submitter of a session that is not flagged with a conflict. -/
theorem mayExtend_member {session : Session} {submittedBy : Option String}
    (h : session.submittedBy = none ∨ session.submittedBy ≠ submittedBy
      ∨ session.conflictAt ≠ none) : mayExtend session .member submittedBy = false := by
  rw [mayExtend, decide_eq_false_iff_not]
  rintro ⟨hsubmitted, hsame, hconflict⟩
  rcases h with hnone | hother | hflagged
  · exact hsubmitted hnone
  · exact hother hsame
  · exact hflagged hconflict

/-- Take any state of the database, in which the entries of a session without a row are none,
and any call of `import_decision_log` that returns. Other sessions stay as they are. An
upload of an admin or a member appends entries only, none of them with a timestamp before a
stored one; it leaves the entries of a session with repository-supplied entries, and its row
up to a backfill. An upload of a member to a session of another submitter or with a conflict
can only add one rejected version of its content. And an answer that is `rejected`,
`kept_existing` or `unchanged`, without a baseline, leaves the entries, the current version
and the row, up to a backfill. -/
theorem api_upload_limits (tools : Tools) (tx : Transaction) (call : ImportCall)
    (db after : Database) (result : ImportResult) (upload : Upload)
    (hkeys : ∀ sid, (db.records sid).session = none → (db.records sid).entries = [])
    (hupload : call.upload tools = .ok upload)
    (h : importDecisionLog tools tx call db = .ok (after, result)) :
    let before := db.records upload.sid
    let later := after.records upload.sid
    (∀ sid, sid ≠ upload.sid → after.records sid = db.records sid)
    ∧ (call.authority.isSource = false →
        (∃ added, later.entries = before.entries ++ added
          ∧ ∀ entry ∈ added, ∀ stamp, entry.timestamp = some stamp →
              ∀ stored ∈ before.entries, ∀ earlier, stored.timestamp = some earlier →
                earlier ≤ stamp)
        ∧ ∀ session, before.session = some session →
            0 < repositoryEntries session before.entries.length →
              later.entries = before.entries
                ∧ RowKept tools upload before.entries session later.session)
    ∧ (call.authority = .member → ∀ session, before.session = some session →
        (session.submittedBy = none ∨ session.submittedBy ≠ call.submittedBy
          ∨ session.conflictAt ≠ none) →
        later.session = some session ∧ later.entries = before.entries
          ∧ AddsRejected (tools.sha.hexOfBytes call.content) before.versions later.versions)
    ∧ (LeavesTranscript result → ∀ session, before.session = some session →
        later.entries = before.entries
          ∧ (later.versions.filter fun version => version.status = .current)
            = (before.versions.filter fun version => version.status = .current)
          ∧ RowKept tools upload before.entries session later.session) := by
  obtain ⟨upload', record, hreturned, rfl⟩ := importDecisionLog_eq_ok h
  cases hupload.symm.trans hreturned.accepted
  have hspec := upload_spec hupload
  have hlater : (db.put upload.sid record).records upload.sid = record := by
    rw [Database.put_records, if_pos rfl]
  dsimp only
  rw [hlater]
  refine ⟨?_, ?_, ?_, ?_⟩
  · intro sid hne
    rw [Database.put_records, if_neg hne]
  · intro hapi
    rw [← hspec.authority] at hapi
    have houtcome := importUpload_apiOutcome hapi hreturned.run
    exact ⟨houtcome.appended hapi (hkeys upload.sid), fun session hsession howned =>
      houtcome.owned hapi hsession howned⟩
  · intro hmember session hsession hother
    have hapi : upload.authority.isSource = false := by
      rw [hspec.authority, hmember]
      rfl
    have hextend : mayExtend session upload.authority upload.submittedBy = false := by
      rw [hspec.authority, hmember, hspec.submittedBy]
      exact mayExtend_member hother
    rw [← hspec.sha]
    exact (importUpload_apiOutcome hapi hreturned.run).not_permitted hapi hsession hextend
  · intro hleaves session hsession
    exact hreturned.outcome.leaves hleaves hsession

/-- A session stored before digests, versions and repository entries were recorded, by a
scheduled git sync. -/
def legacyRecord : SessionRecord where
  session := some
    { id := "s1", agentType := "claude_code", model := none, cwd := none, gitBranch := none,
      startedAt := none, endedAt := none, exitReason := none, transcriptPath := some samplePath,
      submittedBy := none, importedAt := 1, contentSha256 := none, contentBytes := none,
      replacedAt := none, repositoryEntries := none, conflictAt := none, conflictDetail := none }
  entries := [userEntry "a"]
  versions := []
  versionEvents := []
  sessionEvents := []

/-- A database with this session only. -/
def legacyDatabase : Database :=
  { Database.empty with records := fun sid => if sid = "s1" then legacyRecord else .empty }

set_option maxRecDepth 8000 in
/-- A member's upload of another transcript is kept as a rejected version. -/
theorem legacy_upload_limits : ∃ after result upload,
    importDecisionLog sampleTools (sampleTransaction 1) (sampleUpload transcriptB) legacyDatabase
        = .ok (after, result)
      ∧ LeavesTranscript result ∧ upload.sid = "s1"
      ∧ let before := legacyDatabase.records upload.sid
        let later := after.records upload.sid
        (∀ sid, sid ≠ upload.sid → after.records sid = legacyDatabase.records sid)
        ∧ (Authority.member.isSource = false →
            (∃ added, later.entries = before.entries ++ added
              ∧ ∀ entry ∈ added, ∀ stamp, entry.timestamp = some stamp →
                  ∀ stored ∈ before.entries, ∀ earlier, stored.timestamp = some earlier →
                    earlier ≤ stamp)
            ∧ ∀ session, before.session = some session →
                0 < repositoryEntries session before.entries.length →
                  later.entries = before.entries
                    ∧ RowKept sampleTools upload before.entries session later.session)
        ∧ (Authority.member = .member → ∀ session, before.session = some session →
            (session.submittedBy = none ∨ session.submittedBy ≠ some "m1"
              ∨ session.conflictAt ≠ none) →
            later.session = some session ∧ later.entries = before.entries
              ∧ AddsRejected (sampleTools.sha.hexOfBytes transcriptB) before.versions
                  later.versions)
        ∧ (LeavesTranscript result → ∀ session, before.session = some session →
            later.entries = before.entries
              ∧ (later.versions.filter fun version => version.status = .current)
                = (before.versions.filter fun version => version.status = .current)
              ∧ RowKept sampleTools upload before.entries session later.session) := by
  refine ⟨_, _, _, rfl, ⟨.inl rfl, rfl⟩, rfl,
    api_upload_limits sampleTools (sampleTransaction 1) (sampleUpload transcriptB) legacyDatabase _ _ _
      ?_ rfl rfl⟩
  intro sid hnone
  by_cases hsid : sid = "s1"
  · rw [hsid] at hnone
    cases hnone
  · show (if sid = "s1" then legacyRecord else SessionRecord.empty).entries = []
    rw [if_neg hsid]
    rfl

set_option maxRecDepth 8000 in
/-- The repository supplied every entry of the session, and an admin's upload of the same
transcript changes its row. -/
theorem admin_upload_changes_row : ∃ session after result,
    (legacyDatabase.records "s1").session = some session
      ∧ 0 < repositoryEntries session (legacyDatabase.records "s1").entries.length
      ∧ importDecisionLog sampleTools (sampleTransaction 1)
          (uploadCall "s1" transcriptA "m1" true none none) legacyDatabase = .ok (after, result)
      ∧ (after.records "s1").session ≠ some session :=
  ⟨_, _, _, rfl, by decide, rfl, by decide⟩

end TrustPortal.Proofs.DecisionLog
