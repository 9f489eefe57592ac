import TrustPortal.Proofs.DecisionLog.Verified

/-!
# `TrustPortal.Proofs.DecisionLog.Unchanged`: objects recorded as unchanged

A store sync records an object as `unchanged` when its entries are the stored ones or a prefix
of them. The verification of the store checks this again at any later time.

`Faithful` is the invariant that links the three writers: the content digest of a session is
the digest of a transcript whose entries the stored ones cover, and the stored entries cover
the entries of every object recorded as unchanged. An extension keeps it, and so does a
conflict that cuts at or after the end of every such object (`CutsAfterUnchanged`).

`unchanged_verified` is the result for every interleaving of the three sources.
`conflict_breaks_unchanged` is a run with a conflict that cuts earlier.
-/

set_option autoImplicit false

namespace TrustPortal.Proofs.DecisionLog

open TrustPortal.Audit
open TrustPortal.DecisionLog
open TrustPortal.Lib

/-- The content digest of a session is the one of a transcript that was given, and the stored
entries cover its entries. -/
def Described (tools : Tools) (given : String → Prop) (entries : List Entry) (session : Session) :
    Prop :=
  ∃ content parsed, given content ∧ session.contentSha256 = some (tools.sha.hexOfBytes content)
    ∧ tools.parse content = .ok parsed ∧ Covers (Same tools) entries parsed.entries

/-- What `_import` got is what was given: the bytes, their digest and, if they were parsed
before, their entries. -/
structure UploadGiven (tools : Tools) (given : String → Prop) (upload : Upload) : Prop where
  content : given upload.content
  sha : upload.sha = tools.sha.hexOfBytes upload.content
  preparsed : ∀ parsed, upload.preparsed = some parsed → tools.parse upload.content = .ok parsed
  writes : upload.dryRun = false

section
variable {tools : Tools} {given : String → Prop} {tx : Transaction} {upload : Upload}
  {before after : SessionRecord} {result : ImportResult} {session : Session}
  {parsed : ParsedTranscript}

/-- The transcript of a call is the one its bytes are parsed to. -/
theorem UploadGiven.parse (h : UploadGiven tools given upload)
    (hparsed : upload.transcript tools = .ok parsed) : tools.parse upload.content = .ok parsed := by
  unfold Upload.transcript at hparsed
  split at hparsed
  · rename_i preparsed hpreparsed
    cases hparsed
    exact h.preparsed _ hpreparsed
  · split at hparsed
    · cases hparsed
    · rename_i hok
      cases hparsed
      exact hok

/-- The entries after an extension cover the new entries. -/
theorem covers_extend
    (hagree : (compareWithStored tools before.entries parsed.entries).difference = none)
    (hlength : before.entries.length < parsed.entries.length)
    (hwrite : extend tools tx upload session parsed
      (compareWithStored tools before.entries parsed.entries) before = .ok after) :
    Covers (Same tools) after.entries parsed.entries := by
  have hspec := compareWithStored_spec tools before.entries parsed.entries
  have hcovers := covers_take_append_drop (sameEntry_refl tools)
    (hspec.agrees hagree).of_length (le_refl before.entries.length) hlength.le
  rw [(extend_frame hwrite).2, hspec.stored]
  rwa [List.take_length] at hcovers

/-- The entries after a conflict cover the repository's entries. -/
theorem covers_adopt
    (hwins : repositoryWins before session parsed.entries.length
      (compareWithStored tools before.entries parsed.entries) = true)
    (hwrite : adoptRepositoryVersion tools tx upload session parsed
      (compareWithStored tools before.entries parsed.entries) before = .ok after) :
    Covers (Same tools) after.entries parsed.entries := by
  have hspec := compareWithStored_spec tools before.entries parsed.entries
  rw [(adoptRepositoryVersion_frame hwrite).2]
  refine covers_take_append_drop (sameEntry_refl tools) ?_ (conflictCut_le hwins)
    (conflictCut_le_new tools before.entries parsed.entries)
  unfold conflictCut
  cases hdifference : (compareWithStored tools before.entries parsed.entries).difference with
  | some difference => exact (hspec.differs difference hdifference).agree
  | none => exact hspec.agrees hdifference

/-- Every outcome leaves a session described by a transcript that was given. -/
theorem described_outcome (hupload : UploadGiven tools given upload)
    (hempty : before.session = none → before.entries = [])
    (hbefore : ∀ session, before.session = some session →
      Described tools given before.entries session)
    (h : ImportOutcome tools tx upload before after result) :
    (after.session = none → after.entries = [])
      ∧ ∀ session, after.session = some session →
          Described tools given after.entries session := by
  -- The session's digest is the one of the new transcript.
  have hnew : ∀ {parsed : ParsedTranscript} {written : Session},
      upload.transcript tools = .ok parsed → after.session = some written →
      written.contentSha256 = some upload.sha → Covers (Same tools) after.entries parsed.entries →
      (after.session = none → after.entries = [])
        ∧ ∀ session, after.session = some session →
            Described tools given after.entries session := by
    intro parsed written hparsed hwritten hsha hcovers
    constructor
    · intro hnone
      rw [hwritten] at hnone
      cases hnone
    · intro session hsession
      cases hwritten.symm.trans hsession
      exact ⟨upload.content, parsed, hupload.content, by rw [hsha, hupload.sha],
        hupload.parse hparsed, hcovers⟩
  cases h with
  | dryRun hdry => exact ⟨hempty, hbefore⟩
  | sameContent session hsession hsame hresult => exact ⟨hempty, hbefore⟩
  | kept session parsed hsession hparsed hagree hlength hresult => exact ⟨hempty, hbefore⟩
  | created parsed hsession hparsed hwrite hwrites hresult =>
    obtain ⟨hafter, hentries⟩ := create_frame hwrite
    refine hnew hparsed hafter rfl ?_
    rw [hentries, hempty hsession, List.nil_append]
    exact covers_refl (sameEntry_refl tools)
  | rejected session count reason hsession hwrite hwrites hresult =>
    obtain ⟨hsame, hentries⟩ := recordRejected_frame hwrite
    rw [hsame, hentries]
    exact ⟨hempty, hbefore⟩
  | extended session parsed hsession hparsed hagree hlength haccepted hwrite hwrites hresult =>
    exact hnew hparsed (extend_frame hwrite).1 rfl (covers_extend hagree hlength hwrite)
  | adopted session parsed hsession hparsed hwrites hnew' hsystem hwins hwrite hresult =>
    exact hnew hparsed (adoptRepositoryVersion_frame hwrite).1 rfl (covers_adopt hwins hwrite)
  | baselined session parsed hsession hparsed hcurrent hagree hlength hwrite hwrites hresult =>
    obtain ⟨hafter, hentries⟩ := baseline_frame hwrite
    refine hnew hparsed hafter rfl ?_
    rw [hentries]
    exact (compareWithStored_spec tools before.entries parsed.entries).covers hagree hlength.le
  | backfilled session parsed hsession hparsed hcontent hagree hlength hwrites hresult =>
    exact hnew hparsed rfl rfl
      ((compareWithStored_spec tools before.entries parsed.entries).covers hagree hlength.le)

/-- A conflict that the call wins cuts at or after the end of these entries. -/
def CutsAfter (tools : Tools) (upload : Upload) (record : SessionRecord) (count : Nat) : Prop :=
  ∀ session parsed, record.session = some session → upload.transcript tools = .ok parsed →
    upload.authority = .system →
    (session.contentSha256 = some upload.sha → record.hasCurrentVersion = false) →
    repositoryWins record session parsed.entries.length
      (compareWithStored tools record.entries parsed.entries) = true →
    count ≤ conflictCut parsed.entries.length
      (compareWithStored tools record.entries parsed.entries)

/-- Every outcome keeps entries covered, when a conflict cuts at or after their end. -/
theorem covers_outcome {entries : List Entry} (hsession : before.session ≠ none)
    (hcovers : Covers (Same tools) before.entries entries)
    (hcut : CutsAfter tools upload before entries.length)
    (h : ImportOutcome tools tx upload before after result) :
    after.session ≠ none ∧ Covers (Same tools) after.entries entries := by
  cases h with
  | dryRun hdry => exact ⟨hsession, hcovers⟩
  | sameContent session hstored hsame hresult => exact ⟨hsession, hcovers⟩
  | kept session parsed hstored hparsed hagree hlength hresult => exact ⟨hsession, hcovers⟩
  | created parsed hnone hparsed hwrite hwrites hresult => exact absurd hnone hsession
  | rejected session count reason hstored hwrite hwrites hresult =>
    obtain ⟨hsame, hentries⟩ := recordRejected_frame hwrite
    rw [hsame, hentries]
    exact ⟨hsession, hcovers⟩
  | extended session parsed hstored hparsed hagree hlength haccepted hwrite hwrites hresult =>
    obtain ⟨hafter, hentries⟩ := extend_frame hwrite
    rw [hafter, hentries]
    exact ⟨by simp, hcovers.append _⟩
  | adopted session parsed hstored hparsed hwrites hnew hsystem hwins hwrite hresult =>
    obtain ⟨hafter, hentries⟩ := adoptRepositoryVersion_frame hwrite
    rw [hafter, hentries]
    exact ⟨by simp, hcovers.splice (hcut session parsed hstored hparsed hsystem hnew hwins) _⟩
  | baselined session parsed hstored hparsed hcurrent hagree hlength hwrite hwrites hresult =>
    obtain ⟨hafter, hentries⟩ := baseline_frame hwrite
    rw [hafter, hentries]
    exact ⟨by simp, hcovers⟩
  | backfilled session parsed hstored hparsed hcontent hagree hlength hwrites hresult =>
    exact ⟨by simp [backfill], hcovers⟩

/-- When the outcome is `unchanged`, the stored entries cover the object's. -/
theorem covers_of_unchanged
    (hcollision : ∀ a b, given a → given b →
      tools.sha.hexOfBytes a = tools.sha.hexOfBytes b → a = b)
    (hupload : UploadGiven tools given upload)
    (hbefore : ∀ session, before.session = some session →
      Described tools given before.entries session)
    (h : ImportOutcome tools tx upload before after result)
    (hunchanged : outcomeStatus result = .unchanged)
    (hparsed : tools.parse upload.content = .ok parsed) :
    after.session ≠ none ∧ Covers (Same tools) after.entries parsed.entries := by
  have hstatus : result.status = .unchanged ∨ result.status = .keptExisting := by
    unfold outcomeStatus at hunchanged
    cases hbase : result.baselined <;> cases hresult : result.status <;>
      simp [hbase, hresult] at hunchanged ⊢
  have hwritten : ∀ status : ImportStatus, status ≠ .unchanged → status ≠ .keptExisting →
      result.status ≠ status := by
    rintro status hne hne' rfl
    rcases hstatus with heq | heq
    · exact hne heq
    · exact hne' heq
  -- The transcript the call compared is the one of the object.
  have hsame : ∀ {parsed' : ParsedTranscript}, upload.transcript tools = .ok parsed' →
      parsed' = parsed := by
    intro parsed' hparsed'
    have heq := (hupload.parse hparsed').symm.trans hparsed
    cases heq
    rfl
  cases h with
  | dryRun hdry => exact absurd (hupload.writes.symm.trans hdry) Bool.false_ne_true
  | sameContent session hsession hsha hresult =>
    -- The stored transcript has the digest of the object, so it is the object's.
    obtain ⟨content, stored, hgiven, hdigest, hstored, hcovers⟩ := hbefore session hsession
    have heq : tools.sha.hexOfBytes content = tools.sha.hexOfBytes upload.content := by
      rw [hsha, hupload.sha, Option.some.injEq] at hdigest
      exact hdigest.symm
    rw [hcollision content upload.content hgiven hupload.content heq, hparsed] at hstored
    cases hstored
    exact ⟨by simp [hsession], hcovers⟩
  | kept session parsed' hsession hparsed' hagree hlength hresult =>
    cases hsame hparsed'
    exact ⟨by simp [hsession],
      (compareWithStored_spec tools before.entries parsed.entries).covers hagree hlength⟩
  | created parsed' hsession hparsed' hwrite hwrites hresult =>
    exact absurd hresult (hwritten .created (by simp) (by simp))
  | rejected session count reason hsession hwrite hwrites hresult =>
    exact absurd hresult (hwritten .rejected (by simp) (by simp))
  | extended session parsed' hsession hparsed' hagree hlength haccepted hwrite hwrites hresult =>
    exact absurd hresult (hwritten .replaced (by simp) (by simp))
  | adopted session parsed' hsession hparsed' hwrites hnew hsystem hwins hwrite hresult =>
    exact absurd hresult (hwritten .replaced (by simp) (by simp))
  | baselined session parsed' hsession hparsed' hcurrent hagree hlength hwrite hwrites hresult =>
    simp [outcomeStatus, hresult] at hunchanged
  | backfilled session parsed' hsession hparsed' hcontent hagree hlength hwrites hresult =>
    cases hsame hparsed'
    exact ⟨by simp [backfill],
      (compareWithStored_spec tools before.entries parsed.entries).covers hagree hlength.le⟩

end

/-! ## Calls and sources -/

/-- The stored entries of the object's session cover the object's entries. -/
def KeptBy (tools : Tools) (db : Database) (object : StoreObject) : Prop :=
  ∃ parsed, checkDecisionLog tools object.sessionId object.content = .ok parsed
    ∧ (db.records object.sessionId).session ≠ none
    ∧ Covers (Same tools) (db.records object.sessionId).entries parsed.entries

/-- The invariant of a database: every session is described by a transcript that was given,
and every object recorded as unchanged is kept. -/
structure Faithful (tools : Tools) (given : String → Prop) (db : Database) : Prop where
  empty : ∀ sid, (db.records sid).session = none → (db.records sid).entries = []
  described : ∀ sid session, (db.records sid).session = some session →
    Described tools given (db.records sid).entries session
  unchanged : ∀ id object, db.objects id = some object → object.status = .unchanged →
    KeptBy tools db object

/-- A conflict that the call wins cuts at or after the end of every object that is recorded as
unchanged for the session. -/
def CutsAfterUnchanged (tools : Tools) (db : Database) (call : ImportCall) : Prop :=
  ∀ upload, call.upload tools = .ok upload →
    ∀ id object parsed, db.objects id = some object → object.status = .unchanged →
      object.sessionId = upload.sid → tools.parse object.content = .ok parsed →
      CutsAfter tools upload (db.records upload.sid) parsed.entries.length

/-- The content check returns what the transcript is parsed to. -/
theorem checkDecisionLog_parse {tools : Tools} {sid content : String}
    {parsed : ParsedTranscript} (h : checkDecisionLog tools sid content = .ok parsed) :
    sid ≠ "" ∧ tools.parse content = .ok parsed := by
  simp only [checkDecisionLog, ite_error_eq_ok] at h
  obtain ⟨hsid, _, h⟩ := h
  refine ⟨fun hempty => hsid (.inl hempty), ?_⟩
  split at h
  · cases h
  · rename_i hparse
    cases h
    exact hparse

section
variable {tools : Tools} {given : String → Prop} {db : Database} {tx : Transaction}
  {call : ImportCall} {upload : Upload} {after : SessionRecord} {result : ImportResult}

/-- A call that returns keeps the invariant, as long as the objects stay as they are. -/
theorem Faithful.put (h : Faithful tools given db) (hupload : UploadGiven tools given upload)
    (hreturned : Returned tools db tx call upload after result)
    (hcuts : CutsAfterUnchanged tools db call) :
    Faithful tools given (db.put upload.sid after) := by
  obtain ⟨hempty, hdescribed⟩ := described_outcome hupload (h.empty upload.sid)
    (h.described upload.sid) hreturned.outcome
  refine ⟨?_, ?_, ?_⟩
  · intro sid
    rw [Database.put_records]
    split
    · exact hempty
    · exact h.empty sid
  · intro sid
    rw [Database.put_records]
    split
    · exact hdescribed
    · exact h.described sid
  · intro id object hfound hunchanged
    obtain ⟨parsed, hcheck, hsession, hcovers⟩ := h.unchanged id object hfound hunchanged
    have hparse := (checkDecisionLog_parse hcheck).2
    refine ⟨parsed, hcheck, ?_⟩
    rw [Database.put_records]
    split
    · rename_i hsid
      rw [hsid] at hsession hcovers
      exact covers_outcome hsession hcovers
        (hcuts upload hreturned.accepted id object parsed hfound hunchanged hsid hparse)
        hreturned.outcome
    · exact ⟨hsession, hcovers⟩

/-- The record of an object that is read keeps the invariant, when the object is kept if its
outcome is `unchanged`. -/
theorem Faithful.recordObject (h : Faithful tools given db) {id : String} {object : StoreObject}
    (hkept : object.status = .unchanged → KeptBy tools db object) :
    Faithful tools given (db.recordObject id object) := by
  refine ⟨h.empty, h.described, ?_⟩
  intro other found hfound hunchanged
  by_cases hid : other = id
  · rw [Database.recordObject_objects, if_pos hid, Option.some.injEq] at hfound
    subst hfound
    exact hkept hunchanged
  · rw [Database.recordObject_objects, if_neg hid] at hfound
    exact h.unchanged other found hfound hunchanged

/-- A call keeps the invariant. -/
theorem faithful_call
    (hcollision : ∀ a b, given a → given b →
      tools.sha.hexOfBytes a = tools.sha.hexOfBytes b → a = b)
    (h : Faithful tools given db)
    (hgiven : ∀ upload, call.upload tools = .ok upload → UploadGiven tools given upload)
    (hchecked : call.authority = .store →
      ∃ parsed, checkDecisionLog tools (call.sid.getD "") call.content = .ok parsed)
    (hcuts : CutsAfterUnchanged tools db call) :
    Faithful tools given (runCall tools db tx call) := by
  have hcases := runCall_cases tools db tx call
  generalize runCall tools db tx call = later at hcases ⊢
  cases hcases with
  | nothing => exact h
  | failed id object hreads hstatus =>
    refine h.recordObject ?_
    intro hunchanged
    rw [hstatus] at hunchanged
    cases hunchanged
  | returned upload after result hreturned hobject =>
    exact h.put (hgiven upload hreturned.accepted) hreturned hcuts
  | stored upload after result id hreturned hwrites hobject hreads =>
    have hupload := hgiven upload hreturned.accepted
    have hspec := upload_spec hreturned.accepted
    refine (h.put hupload hreturned hcuts).recordObject ?_
    intro hunchanged
    have hstore : call.authority = .store := by
      by_contra hother
      rw [hspec.storeObjectId, if_neg hother] at hobject
      cases hobject
    obtain ⟨parsed, hcheck⟩ := hchecked hstore
    have hparse := (checkDecisionLog_parse hcheck).2
    rw [← hspec.content] at hparse
    refine ⟨parsed, hcheck, ?_⟩
    show ((db.put upload.sid after).records (call.sid.getD "")).session
        ≠ none ∧ Covers (Same tools)
          ((db.put upload.sid after).records (call.sid.getD "")).entries
            parsed.entries
    rw [hspec.sid, Option.getD_some, Database.put_records, if_pos rfl]
    exact covers_of_unchanged hcollision hupload (h.described upload.sid) hreturned.outcome
      hunchanged hparse

end

/-- The condition on a step: a conflict that a git sync's file wins cuts at or after the end of
every object recorded as unchanged for the session. -/
def SourceCutsAfter (tools : Tools) (db : Database) (step : Transaction × Source) : Prop :=
  match step.2 with
  | .gitFile path content head memberId exitReason agent =>
      CutsAfterUnchanged tools db (gitCall path content head memberId exitReason agent)
  | _ => True

/-- The step function of a run of the three sources. -/
abbrev sourceStep (tools : Tools) (db : Database) (step : Transaction × Source) : Database :=
  runSource tools db step.1 step.2

/-- Only a system call wins a conflict. -/
theorem cutsAfterUnchanged_of {tools : Tools} {db : Database} {call : ImportCall}
    (h : call.authority ≠ .system) : CutsAfterUnchanged tools db call := by
  intro upload hupload _ _ _ _ _ _ _ _ _ _ _ hsystem
  exact absurd ((upload_spec hupload).authority.symm.trans hsystem) h

/-- A transcript of one of the sources keeps the invariant. -/
theorem faithful_source {tools : Tools} {given : String → Prop} {db : Database}
    {step : Transaction × Source}
    (hcollision : ∀ a b, given a → given b →
      tools.sha.hexOfBytes a = tools.sha.hexOfBytes b → a = b)
    (h : Faithful tools given db) (hgiven : given step.2.content)
    (hcuts : SourceCutsAfter tools db step) : Faithful tools given (sourceStep tools db step) := by
  obtain ⟨tx, source⟩ := step
  -- A call without parsed entries is given what the source has.
  have hplain : ∀ {call : ImportCall}, call.content = source.content → call.parsed = none →
      call.dryRun = false → ∀ upload, call.upload tools = .ok upload →
      UploadGiven tools given upload := by
    intro call hcontent hparsed hdry upload hupload
    have hspec := upload_spec hupload
    refine ⟨?_, ?_, ?_, hspec.dryRun.trans hdry⟩
    · rw [hspec.content, hcontent]
      exact hgiven
    · rw [hspec.sha, hspec.content]
    · intro parsed hsome
      rw [hspec.preparsed, hparsed] at hsome
      cases hsome
  cases source with
  | upload sessionId content memberId admin exitReason agent =>
    have hauthority : (uploadCall sessionId content memberId admin exitReason agent).authority
        = .admin ∨ (uploadCall sessionId content memberId admin exitReason agent).authority
        = .member := by
      cases admin
      · exact .inr rfl
      · exact .inl rfl
    refine faithful_call hcollision h (hplain rfl rfl rfl) ?_ (cutsAfterUnchanged_of ?_)
    · intro hstore
      rcases hauthority with heq | heq <;> rw [heq] at hstore <;> cases hstore
    · intro hsystem
      rcases hauthority with heq | heq <;> rw [heq] at hsystem <;> cases hsystem
  | gitFile path content head memberId exitReason agent =>
    refine faithful_call hcollision h (hplain rfl rfl rfl) ?_ hcuts
    intro hstore
    cases hstore
  | storeObject object =>
    show Faithful tools given (runSource tools db tx (.storeObject object))
    unfold runSource
    dsimp only
    split
    · split
      · rename_i refusal hrefused
        -- A refused transcript is not recorded as unchanged.
        refine h.recordObject ?_
        intro hunchanged
        cases refusal <;> cases hunchanged
      · rename_i parsed hcheck
        obtain ⟨hsid, hparse⟩ := checkDecisionLog_parse hcheck
        have hstore : (storeCall object parsed).authority ≠ .system := Authority.noConfusion
        refine faithful_call hcollision h ?_ ?_ (cutsAfterUnchanged_of hstore)
        · intro upload hupload
          have hspec := upload_spec hupload
          refine ⟨?_, ?_, ?_, hspec.dryRun⟩
          · rw [hspec.content]
            exact hgiven
          · rw [hspec.sha, hspec.content]
          · intro parsed' hsome
            rw [hspec.preparsed] at hsome
            cases hsome
            rw [hspec.content]
            exact hparse
        · intro _
          have hcall : (storeCall object parsed).sid = some object.sessionId := by
            rw [ImportCall.sid, if_pos]
            · rfl
            · simp [storeCall, hsid]
          rw [hcall]
          exact ⟨parsed, hcheck⟩
    · exact h

/-! ## Runs -/

/-- Only an object that a sync reads gets another record. -/
theorem objects_source {tools : Tools} {db : Database} {step : Transaction × Source} {id : String}
    {object : StoreObject} (hfound : db.objects id = some object)
    (hstatus : object.status ≠ .error) :
    (sourceStep tools db step).objects id = some object := by
  have hkept : ∀ other new, db.reads other = true →
      (if id = other then some new else db.objects id) = some object := by
    intro other new hreads
    have hne : id ≠ other := by
      rintro rfl
      simp [Database.reads, hfound, hstatus] at hreads
    rw [if_neg hne, hfound]
  have hcall : ∀ call, (runCall tools db step.1 call).objects id = some object := by
    intro call
    have hcases := runCall_cases tools db step.1 call
    generalize runCall tools db step.1 call = later at hcases ⊢
    cases hcases with
    | nothing => exact hfound
    | failed other new hreads hnew => exact hkept other new hreads
    | returned upload after result hreturned hobject => exact hfound
    | stored upload after result other hreturned hwrites hobject hreads =>
      exact hkept other _ hreads
  show (runSource tools db step.1 step.2).objects id = some object
  unfold runSource
  split
  · exact hcall _
  · exact hcall _
  · split
    · rename_i hreads
      split
      · exact hkept _ _ hreads
      · exact hcall _
    · exact hfound

/-- A covered object passes the verification's check. -/
theorem finishDecisionLog_kept {tools : Tools} {db : Database} {object : StoreObject}
    (h : KeptBy tools db object) (tx : Transaction) (fetched : FetchedObject)
    (hsid : fetched.sessionId = object.sessionId) :
    finishDecisionLog tools tx db .unchanged fetched
      (checkDecisionLog tools object.sessionId object.content) = .ok [] := by
  obtain ⟨parsed, hcheck, hsession, hcovers⟩ := h
  have hspec := compareWithStored_spec tools (db.records object.sessionId).entries parsed.entries
  have hnone := hspec.difference_eq_none hcovers
  have hlength : ¬(compareWithStored tools (db.records object.sessionId).entries
      parsed.entries).stored < parsed.entries.length := by
    rw [hspec.stored]
    exact Nat.not_lt.mpr hcovers.1
  simp [finishDecisionLog, hcheck, hsid, hsession, hnone, hlength]

/-- Take an interleaving of uploads, git syncs and store syncs from an empty database, and an
object recorded as unchanged after it. Suppose that every conflict, up to a later state, cuts
at or after the end of every object recorded as unchanged for its session, and that no two
transcripts of the run have one digest. Then the record is the same in the later state, the
stored entries of the session cover the entries of the object, and the verification's check
of the record reports nothing. -/
theorem unchanged_verified (tools : Tools) (steps later : List (Transaction × Source))
    (id : String) (object : StoreObject)
    (hcollision : ∀ a ∈ (steps ++ later).map fun step => step.2.content,
      ∀ b ∈ (steps ++ later).map fun step => step.2.content,
        tools.sha.hexOfBytes a = tools.sha.hexOfBytes b → a = b)
    (hcuts : Along (sourceStep tools) (SourceCutsAfter tools) .empty (steps ++ later))
    (hobject : (runSources tools .empty steps).objects id = some object)
    (hunchanged : object.status = .unchanged) :
    let db := runSources tools .empty (steps ++ later)
    db.objects id = some object
      ∧ (∃ parsed, tools.parse object.content = .ok parsed
          ∧ Covers (Same tools) (db.records object.sessionId).entries parsed.entries)
      ∧ ∀ tx fetched, fetched.sessionId = object.sessionId →
          finishDecisionLog tools tx db .unchanged fetched
            (checkDecisionLog tools object.sessionId object.content) = .ok [] := by
  intro db
  let given := fun content => content ∈ (steps ++ later).map fun step => step.2.content
  have hkept : db.objects id = some object := by
    show (runSources tools .empty (steps ++ later)).objects id = some object
    rw [runSources, List.foldl_append]
    refine run_invariant (P := fun db : Database => db.objects id = some object) ?_
      (along_of_forall (fun _ _ => trivial) _ later) hobject
    intro db step hfound _
    exact objects_source hfound (by rw [hunchanged]; decide)
  have hfaithful : Faithful tools given db := by
    refine run_invariant (P := Faithful tools given) ?_ (hcuts.and (along_of_mem (q := fun step =>
      given step.2.content) ?_)) ?_
    · intro db step h hstep
      exact faithful_source (fun a b ha hb => hcollision a ha b hb) h hstep.2 hstep.1
    · intro step hmem
      exact List.mem_map.mpr ⟨step, hmem, rfl⟩
    · exact ⟨fun _ _ => rfl, fun _ _ hsome => (by cases hsome), fun _ _ hsome => (by cases hsome)⟩
  have hkeptBy := hfaithful.unchanged id object hkept hunchanged
  refine ⟨hkept, ?_, fun tx fetched => finishDecisionLog_kept hkeptBy tx fetched⟩
  obtain ⟨parsed, hcheck, _, hcovers⟩ := hkeptBy
  exact ⟨parsed, (checkDecisionLog_parse hcheck).2, hcovers⟩

/-- The object of the session `s1` with the message `a`. -/
def sampleObject : FetchedObject := ⟨"o1", samplePath, "s1", transcriptA, none, none⟩

/-- A member's upload, then a store sync of the same transcript. -/
def uploadThenStore : List (Transaction × Source) :=
  [(sampleTransaction 1, .upload "s1" transcriptA "m1" false none none),
    (sampleTransaction 2, .storeObject sampleObject)]

theorem sampleSource_upload (tools : Tools) (db : Database) (tx : Transaction) {content : String}
    (hsize : content.length ≤ MAX_TRANSCRIPT_BYTES) :
    runSource tools db tx (.upload "s1" content "m1" false none none)
      = putUpload tools tx (ImportCall.accepted tools (sampleUpload content) "s1") db :=
  sampleUpload_run tools db tx hsize

theorem sampleSource_git (tools : Tools) (db : Database) (tx : Transaction)
    (memberId : Option String) {content : String} (hsize : content.length ≤ MAX_TRANSCRIPT_BYTES) :
    runSource tools db tx (.gitFile samplePath content "0a1b2c" memberId none none)
      = putUpload tools tx (ImportCall.accepted tools (sampleGit content memberId) "s1") db :=
  sampleGit_run tools db tx memberId hsize

/-- The bytes of the messages `a` and `c` in one transcript. -/
def transcriptAC : String :=
  transcriptA ++ "7b2274797065223a2275736572222c226d657373616765223a7b22726f6c65223a2275736572222c"
    ++ "22636f6e74656e74223a2263227d7d0a"

/-- The gzip of the reconstruction of the version with the messages `a` and `b`. -/
def reconstructionGzAB : String :=
  "1f8b08000000000002ffb58fcb6ec2301045f77c05f2baa8b171c0e1575085669c318d0431b2075414e5df3b0e88c7"
    ++ "aaabaeac39f7ced178507c3d91dacc554bbecb5dec1787b85f24f2b1cf9cce9e05a98fb90a311d81ff287e5e74e966"
    ++ "caa5b0ebdad2cf13931a53cfbbfc0da65e15aeb121b416d12e3d6ad76ad354b5d6b0369278070821a037be09956d5d5"
    ++ "8095d5a7035426d1ae3aa572b5e99b248b5364285a46e9acd381b1e3f3c674a65e928e7c1bea041a57878cbee4241db"
    ++ "e722d30f97707a6506357e8dff62c69bf9173eb85d1e96010000"

/-- The tools on the transcripts with `a`, with `a` and `b`, and with `a` and `c`. The one text that
is compressed is the reconstruction of the version with `a` and `b`. -/
def conflictTools : Tools where
  sha := .ofTables
    [("[\"user\",\"a\",null,null,null,false]\n",
        "e9f8f622ef02668feb06502538d01f71c432e653e81fed1638997c24673e1bfb"),
      ("[\"user\",\"a\",null,null,null,false]\n[\"user\",\"b\",null,null,null,false]\n",
        "30dec6235e01246327658b44b8df12a7361e6ac6576209a8b41a723f9954cddb"),
      ("[\"user\",\"a\",null,null,null,false]\n[\"user\",\"c\",null,null,null,false]\n",
        "1789f5736a865c5c1256d858c85f62727e659abe4916d5dfbc482cfa5600b53e")]
    [(transcriptA, "2cbf97fce9b745d35047e22356924261acea8e84c7db282af57e3530b781d7f8"),
      (transcriptAB, "1b9eb44bb43cb18d1290511a721b9c8abaffbc2c9f04d8f61b934a85ba529280"),
      (transcriptAC, "f9a1836658bfd9fe82db0af126bbc277eb37a41ebb4939901d6945bc72a227fe"),
      (reconstructionGzAB, "9b95a0e08ee5b9f3a2287d1b8b65c6617e7e8031c88d7e54ee1216bc200a0f2a")]
    (by decide)
  gzipText _ := reconstructionGzAB
  gzipBytes := sampleTools.gzipBytes
  loads _ := none
  parse content :=
    if content = transcriptA then .ok (plainTranscript [userEntry "a"])
    else if content = transcriptAB then .ok (plainTranscript [userEntry "a", userEntry "b"])
    else if content = transcriptAC then .ok (plainTranscript [userEntry "a", userEntry "c"])
    else .error (.invalid "unknown transcript")

/-- A member's upload with two messages, then a store sync of the first one. -/
def longUploadThenStore : List (Transaction × Source) :=
  [(sampleTransaction 1, .upload "s1" transcriptAB "m1" false none none),
    (sampleTransaction 2, .storeObject sampleObject)]

/-- A scheduled git sync with another second message. -/
def secondMessageSync : Transaction × Source :=
  (sampleTransaction 3, .gitFile samplePath transcriptAC "0a1b2c" none none none)

theorem longUploadThenStore_run :
    runSources conflictTools .empty longUploadThenStore
      = runSource conflictTools (putUpload conflictTools (sampleTransaction 1)
          (ImportCall.accepted conflictTools (sampleUpload transcriptAB) "s1") .empty)
        (sampleTransaction 2) (.storeObject sampleObject) := by
  have huploaded := sampleSource_upload conflictTools .empty (sampleTransaction 1) transcriptAB_small
  simp only [runSources, longUploadThenStore, List.foldl_cons, List.foldl_nil, huploaded]

set_option maxRecDepth 8000 in
/-- The store sync records the one object of the two steps. -/
theorem longUploadThenStore_objects :
    (runSources conflictTools .empty longUploadThenStore).objects
      = fun id => if id = "o1" then some ⟨.unchanged, "s1", transcriptA⟩ else none := by
  rw [longUploadThenStore_run]
  exact rfl

set_option maxRecDepth 8000 in
/-- The git sync finds the two entries of the upload. -/
theorem longUploadThenStore_entries :
    ((runSources conflictTools .empty longUploadThenStore).records "s1").entries
      = [userEntry "a", userEntry "b"] := by
  rw [longUploadThenStore_run]
  decide +kernel

set_option maxRecDepth 8000 in
theorem parse_transcriptA :
    conflictTools.parse transcriptA = .ok (plainTranscript [userEntry "a"]) := by
  decide +kernel

set_option maxRecDepth 8000 in
theorem parse_transcriptAC :
    conflictTools.parse transcriptAC = .ok (plainTranscript [userEntry "a", userEntry "c"]) := by
  decide +kernel

/-- The conflict of that git sync cuts behind the one entry of the object. -/
theorem secondMessageSync_cutsAfter {db : Database}
    (hobjects : db.objects
      = fun id => if id = "o1" then some ⟨.unchanged, "s1", transcriptA⟩ else none)
    (hentries : (db.records "s1").entries = [userEntry "a", userEntry "b"]) :
    SourceCutsAfter conflictTools db secondMessageSync := by
  intro upload hupload id object parsed hobject _ hsid hparsed
  have hspec := upload_spec hupload
  simp only [hobjects] at hobject
  split at hobject
  · cases hobject
    rw [parse_transcriptA] at hparsed
    cases hparsed
    intro session new _ hnew _ _ _
    rw [Upload.transcript, hspec.preparsed, hspec.content] at hnew
    simp only [gitCall, parse_transcriptAC] at hnew
    cases hnew
    change "s1" = upload.sid at hsid
    rw [← hsid, hentries]
    -- the first difference is at the second entry
    decide +kernel
  · cases hobject

set_option maxRecDepth 8000 in
/-- The conflict replaces the second entry, and the object with the first one still passes the
check. -/
theorem later_conflict_verified :
    let db := runSources conflictTools .empty (longUploadThenStore ++ [secondMessageSync])
    db.objects "o1" = some ⟨.unchanged, "s1", transcriptA⟩
      ∧ (∃ parsed, conflictTools.parse transcriptA = .ok parsed
          ∧ Covers (Same conflictTools) (db.records "s1").entries parsed.entries)
      ∧ ∀ tx fetched, fetched.sessionId = "s1" →
          finishDecisionLog conflictTools tx db .unchanged fetched
            (checkDecisionLog conflictTools "s1" transcriptA) = .ok [] := by
  have hdigests : ((longUploadThenStore ++ [secondMessageSync]).map fun step =>
      conflictTools.sha.hexOfBytes step.2.content).Nodup := by decide +kernel
  have hcollision :
      ∀ a ∈ (longUploadThenStore ++ [secondMessageSync]).map fun step => step.2.content,
        ∀ b ∈ (longUploadThenStore ++ [secondMessageSync]).map fun step => step.2.content,
          conflictTools.sha.hexOfBytes a = conflictTools.sha.hexOfBytes b → a = b := by
    refine List.inj_on_of_nodup_map ?_
    rwa [List.map_map]
  have hrun : longUploadThenStore.foldl (sourceStep conflictTools) .empty
      = runSources conflictTools .empty longUploadThenStore := rfl
  have hcuts : Along (sourceStep conflictTools) (SourceCutsAfter conflictTools) .empty
      (longUploadThenStore ++ [secondMessageSync]) := by
    refine along_append.mpr ⟨⟨trivial, trivial, trivial⟩, ?_, trivial⟩
    rw [hrun]
    exact secondMessageSync_cutsAfter longUploadThenStore_objects longUploadThenStore_entries
  have hobject : (runSources conflictTools .empty longUploadThenStore).objects "o1"
      = some ⟨.unchanged, "s1", transcriptA⟩ := by
    simp only [longUploadThenStore_objects, if_pos]
  -- the object is a variable, so that its session is rewritten and no run is computed
  generalize hfields : (⟨.unchanged, "s1", transcriptA⟩ : StoreObject) = object at hobject ⊢
  have hsid : "s1" = object.sessionId := by rw [← hfields]
  have hcontent : transcriptA = object.content := by rw [← hfields]
  rw [hsid, hcontent]
  exact unchanged_verified conflictTools longUploadThenStore [secondMessageSync] "o1" object
    hcollision hcuts hobject (by rw [← hfields])

set_option maxRecDepth 8000 in
/-- A scheduled git sync finds another transcript: it wins the conflict at the first entry, and
the object that was recorded as unchanged no longer passes the check. -/
theorem conflict_breaks_unchanged :
    let db := runSources sampleTools .empty (uploadThenStore
      ++ [(sampleTransaction 3, .gitFile samplePath transcriptB "0a1b2c" none none none)])
    (runSources sampleTools .empty uploadThenStore).objects "o1"
        = some ⟨.unchanged, "s1", transcriptA⟩
      ∧ db.objects "o1" = some ⟨.unchanged, "s1", transcriptA⟩
      ∧ finishDecisionLog sampleTools (sampleTransaction 4) db .unchanged sampleObject
          (checkDecisionLog sampleTools "s1" transcriptA)
        = .ok ["recorded unchanged, but its entries are not identical to, or a prefix of, its "
            ++ "session's stored entries"] := by
  have huploaded := sampleSource_upload sampleTools .empty (sampleTransaction 1) transcriptA_small
  have hsynced := fun db =>
    sampleSource_git sampleTools db (sampleTransaction 3) none transcriptB_small
  simp only [runSources, uploadThenStore, List.cons_append, List.nil_append, List.foldl_cons,
    List.foldl_nil, huploaded, hsynced]
  decide +kernel

end TrustPortal.Proofs.DecisionLog
