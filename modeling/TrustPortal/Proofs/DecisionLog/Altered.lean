import TrustPortal.Proofs.Audit.Content
import TrustPortal.Proofs.DecisionLog.Canonical
import TrustPortal.Proofs.DecisionLog.Verified

/-!
# `TrustPortal.Proofs.DecisionLog.Altered`: entries that were changed outside the import

The verifier digests the rows it reads and compares with the digest of the current version, which
was taken over the imported entries (`Headed`). `altered_entries_reported` is the result for every
run of imports and every list of rows someone may have put in the place of a session's entries: an
insertion, a deletion, another order or an edit of any field is reported, unless every row still
has the digested values it had.

The digest is not taken over the columns as they are: `_entry_key` makes a NULL flag False. And
the check reads the entries only when the version received last is the current one, so the calls
that replaced a version must be dated after the session's history (`ReceivedInOrder`).
`unreported_alterations` has an alteration that each of these hides.
-/

set_option autoImplicit false

namespace TrustPortal.Proofs.DecisionLog

open TrustPortal.Audit
open TrustPortal.DecisionLog
open TrustPortal.Lib
open TrustPortal.Proofs.Audit

/-! ## The times of the stored entries -/

section
variable {tools : Tools} {tx : Transaction} {upload : Upload} {before after : SessionRecord}
  {result : ImportResult}

/-- The transcripts have the times of a `datetime`. -/
def ParsesDatetimes (tools : Tools) : Prop :=
  ∀ content parsed, tools.parse content = .ok parsed → ∀ entry ∈ parsed.entries, Dated entry

/-- A transcript that was parsed before the call is the one its bytes are parsed to. -/
def ParsedOf (tools : Tools) (call : ImportCall) : Prop :=
  ∀ parsed, call.parsed = some parsed → tools.parse call.content = .ok parsed

/-- The transcript of a call has the times of a `datetime`. -/
theorem dated_transcript {call : ImportCall} {parsed : ParsedTranscript}
    (hparse : ParsesDatetimes tools) (hcall : ParsedOf tools call)
    (hupload : call.upload tools = .ok upload) (hparsed : upload.transcript tools = .ok parsed) :
    ∀ entry ∈ parsed.entries, Dated entry := by
  have hspec := upload_spec hupload
  unfold Upload.transcript at hparsed
  split at hparsed
  · rename_i preparsed hpreparsed
    cases hparsed
    rw [hspec.preparsed] at hpreparsed
    exact hparse call.content _ (hcall _ hpreparsed)
  · split at hparsed
    · cases hparsed
    · rename_i hok
      cases hparsed
      exact hparse upload.content _ hok

/-- An entry that is stored after an import was stored before it, or is one of the transcript. -/
theorem entries_outcome (h : ImportOutcome tools tx upload before after result) {entry : Entry}
    (hmem : entry ∈ after.entries) :
    entry ∈ before.entries
      ∨ ∃ parsed, upload.transcript tools = .ok parsed ∧ entry ∈ parsed.entries := by
  cases h with
  | dryRun hdry => exact .inl hmem
  | sameContent session hsession hsame hresult => exact .inl hmem
  | kept session parsed hsession hparsed hagree hlength hresult => exact .inl hmem
  | created parsed hsession hparsed hwrite hwrites hresult =>
    rw [(create_frame hwrite).2, List.mem_append] at hmem
    exact hmem.imp_right fun hnew => ⟨parsed, hparsed, hnew⟩
  | rejected session count reason hsession hwrite hwrites hresult =>
    rw [(recordRejected_frame hwrite).2] at hmem
    exact .inl hmem
  | extended session parsed hsession hparsed hagree hlength haccepted hwrite hwrites hresult =>
    rw [(extend_frame hwrite).2, List.mem_append] at hmem
    exact hmem.imp_right fun hnew => ⟨parsed, hparsed, List.mem_of_mem_drop hnew⟩
  | adopted session parsed hsession hparsed hwrites hnew hsystem hwins hwrite hresult =>
    rw [(adoptRepositoryVersion_frame hwrite).2, List.mem_append] at hmem
    exact hmem.imp List.mem_of_mem_take fun hnew => ⟨parsed, hparsed, List.mem_of_mem_drop hnew⟩
  | baselined session parsed hsession hparsed hcurrent hagree hlength hwrite hwrites hresult =>
    rw [(baseline_frame hwrite).2] at hmem
    exact .inl hmem
  | backfilled session parsed hsession hparsed hcontent hagree hlength hwrites hresult =>
    exact .inl hmem

end

/-- A record of a run: its history ends with the current version, and the entries have the times of
a `datetime`. -/
def RecordOk (tools : Tools) (record : SessionRecord) : Prop :=
  SessionHeaded tools record ∧ ∀ entry ∈ record.entries, Dated entry

/-- Every call keeps this of every session. -/
theorem recordOk_call {tools : Tools} {db : Database} {step : Transaction × ImportCall}
    (hparse : ParsesDatetimes tools) (horder : ReceivedInOrderCall tools db step)
    (hcall : ParsedOf tools step.2) (h : ∀ sid, RecordOk tools (db.records sid)) (sid : String) :
    RecordOk tools ((callStep tools db step).records sid) := by
  refine @sessions_call tools step.2 db step.1 (RecordOk tools) ?_ h sid
  intro upload after result hupload hrecord houtcome
  refine ⟨sessionHeaded_outcome hrecord.1 (horder upload hupload) houtcome, ?_⟩
  intro entry hmem
  rcases entries_outcome houtcome hmem with hold | ⟨parsed, hparsed, hnew⟩
  · exact hrecord.2 entry hold
  · exact dated_transcript hparse hcall hupload hparsed entry hnew

/-! ## The main result -/

/-- The issue of a session whose entries are not the imported ones. -/
def entriesIssue (version : Version) : Issue :=
  ⟨version.id, "stored entries differ from the version's recorded digest"⟩

/-- The check of a session's entries reports a digest that is not the recorded one. -/
theorem checkSession_reports {tools : Tools} {postgres : Bool} {db : Database}
    {record : SessionRecord} {session : Session} {olds : List Version} {current : Version}
    {entries : List Entry} (h : Headed tools record session olds current)
    (hdigest : entriesDigest tools.sha entries ≠ entriesDigest tools.sha record.entries) :
    entriesIssue current ∈ (checkSession tools postgres db { record with entries := entries }
      (olds ++ [current]) current).2 := by
  have hone : ((olds ++ [current]).filter fun version => version.status = .current).length = 1 := by
    rw [h.filter_current, List.length_singleton]
  have hrecorded : truthy current.entriesSha256 = true := by
    rw [h.digest]
    exact truthy_entriesDigest tools.sha record.entries
  have hnot : some (entriesDigest tools.sha entries) ≠ current.entriesSha256 := by
    rw [h.digest]
    exact fun heq => hdigest (Option.some.inj heq)
  unfold checkSession
  simp only [hone, h.status]
  rw [if_neg (by decide)]
  -- the last check of the entries
  refine List.mem_append_right _ (List.mem_append_right _ ?_)
  show entriesIssue current ∈ issueWhen (truthy current.entriesSha256
    && !(decide (entries.length = current.entryCount)
      && decide (some (entriesDigest tools.sha entries) = current.entriesSha256))) current _
  rw [hrecorded, decide_eq_false hnot, Bool.and_false]
  exact List.mem_singleton.mpr rfl

/-- The canonical text determines a list of entries. And take a run of imports from an empty
database, where every call that replaces a version is dated after the session's history, and write
any rows in the place of a session's entries. If their digested values are not
those of the stored entries, and SHA-256 does not give the two texts one digest, then the verifier
reports the session. -/
theorem altered_entries_reported (tools : Tools) (hparse : ParsesDatetimes tools) :
    Set.InjOn canonicalText {entries | ∀ entry ∈ entries, Dated entry}
    ∧ ∀ (calls : List (Transaction × ImportCall)),
      Along (callStep tools) (ReceivedInOrderCall tools) .empty calls →
      (∀ step ∈ calls, ParsedOf tools step.2) →
      ∀ (sid : String) (session : Session) (postgres : Bool) (rows : List EntryRow),
        let db := runCalls tools .empty calls
        (db.records sid).session = some session →
        rows.map EntryRow.key ≠ (db.records sid).entries →
        CollisionFree tools.sha
          {canonicalText (rows.map EntryRow.key), canonicalText (db.records sid).entries} →
        ∃ version, entriesIssue version
          ∈ (verifySession tools postgres (db.alterEntries sid rows) sid).2 := by
  refine ⟨canonicalText_injOn, ?_⟩
  intro calls horder hcalls sid session postgres rows db hsession hdiffer hsha
  have hrecord : RecordOk tools (db.records sid) := by
    refine run_invariant (P := fun db => ∀ sid, RecordOk tools (db.records sid)) ?_
      (horder.and (along_of_mem hcalls)) ?_ sid
    · intro db step h hstep
      exact recordOk_call hparse hstep.1 hstep.2 h
    · intro sid
      exact ⟨.inl rfl, fun _ hmem => by cases hmem⟩
  obtain ⟨hheaded, hdated⟩ := hrecord
  rcases hheaded with hempty | ⟨session', olds, current, h⟩
  · rw [hempty] at hsession
    cases hsession
  · have hrows : ∀ entry ∈ rows.map EntryRow.key, Dated entry := by
      intro entry hmem
      obtain ⟨row, _, rfl⟩ := List.mem_map.mp hmem
      exact row.timestamp_valid
    have hdigest : entriesDigest tools.sha (rows.map EntryRow.key)
        ≠ entriesDigest tools.sha (db.records sid).entries := by
      intro heq
      rw [entriesDigest_eq, entriesDigest_eq] at heq
      have htext := hsha (Set.mem_insert _ _) (Set.mem_insert_of_mem _ rfl) heq
      exact hdiffer (canonicalText_injOn hrows hdated htext)
    have hrecord : (db.alterEntries sid rows).records sid
        = { db.records sid with entries := rows.map EntryRow.key } := if_pos rfl
    have hversions : historyVersions ((db.alterEntries sid rows).records sid)
        = olds ++ [current] := by
      rw [hrecord]
      exact h.historyVersions
    refine ⟨current, ?_⟩
    rw [verifySession, hversions, List.getLast?_concat, hrecord]
    exact checkSession_reports h hdigest

/-- The sample transcripts have no times. -/
theorem parsesDatetimes_sample : ParsesDatetimes sampleTools := by
  intro content parsed hparsed entry hmem us htime
  simp only [sampleTools] at hparsed
  split at hparsed
  · cases hparsed
    rw [List.mem_singleton.mp hmem] at htime
    cases htime
  · split at hparsed
    · cases hparsed
      rw [List.mem_singleton.mp hmem] at htime
      cases htime
    · cases hparsed

/-- A row of a user's message without a time. -/
def userRow (text : String) (isVerification : Option Bool) : EntryRow where
  role := "user"
  contentText := some text
  toolCalls := none
  timestamp := none
  messageId := none
  isVerification := isVerification
  timestamp_valid := nofun

set_option maxRecDepth 8000 in
/-- Someone writes `b` for the `a` of a member's upload. -/
theorem altered_entry_reported_s1 :
    ∃ version, entriesIssue version ∈ (verifySession sampleTools true
      ((runCalls sampleTools .empty [(sampleTransaction 1, sampleUpload transcriptA)]).alterEntries "s1"
        [userRow "b" (some false)]) "s1").2 := by
  refine (altered_entries_reported sampleTools parsesDatetimes_sample).2
    [(sampleTransaction 1, sampleUpload transcriptA)] ⟨receivedInOrderCall_empty, trivial⟩ ?_ "s1"
    { id := "s1", agentType := "claude_code", model := none, cwd := none, gitBranch := none,
      startedAt := none, endedAt := none, exitReason := none, transcriptPath := none,
      submittedBy := some "m1", importedAt := 1,
      contentSha256 := some "2cbf97fce9b745d35047e22356924261acea8e84c7db282af57e3530b781d7f8",
      contentBytes := some 56, replacedAt := none, repositoryEntries := some 0,
      conflictAt := none, conflictDetail := none }
    true [userRow "b" (some false)] (by decide +kernel) (by decide +kernel) ?_
  · intro step hmem parsed hparsed
    rw [List.mem_singleton.mp hmem] at hparsed
    cases hparsed
  · have hentries : ((runCalls sampleTools .empty
        [(sampleTransaction 1, sampleUpload transcriptA)]).records "s1").entries = [userEntry "a"] := by
      decide +kernel
    rw [hentries]
    intro s hs t ht heq
    rcases hs with rfl | rfl <;> rcases ht with rfl | rfl
    · rfl
    · exact absurd heq (by decide +kernel)
    · exact absurd heq (by decide +kernel)
    · rfl

set_option maxRecDepth 8000 in
/-- The import writes the flag False. Someone makes it NULL, and the verifier reports nothing. And
a scheduled git sync replaces the entry of a member's upload, on a host that is a second behind.
Someone then writes `c` for the stored `b`, and the verifier reports nothing. -/
theorem unreported_alterations :
    let uploaded := runCalls sampleTools .empty [(sampleTransaction 1, sampleUpload transcriptA)]
    let behind := runCalls sampleTools .empty [(sampleTransaction 2, sampleUpload transcriptA),
      (sampleTransaction 1, sampleGit transcriptB none)]
    ((uploaded.records "s1").entries = [(userRow "a" (some false)).key]
        ∧ userRow "a" none ≠ userRow "a" (some false)
        ∧ verifySession sampleTools true (uploaded.alterEntries "s1" [userRow "a" none]) "s1"
          = (0, []))
      ∧ (behind.records "s1").entries = [(userRow "b" (some false)).key]
      ∧ (userRow "c" (some false)).key ≠ (userRow "b" (some false)).key
      ∧ verifySession sampleTools true (behind.alterEntries "s1" [userRow "c" (some false)]) "s1"
        = (0, []) := by
  simp only [runCalls, List.foldl_cons, List.foldl_nil,
    sampleUpload_run sampleTools _ _ transcriptA_small,
    sampleGit_run sampleTools _ _ none transcriptB_small]
  refine ⟨⟨by decide +kernel, ?_, by decide +kernel⟩, by decide +kernel⟩
  intro heq
  cases congrArg EntryRow.isVerification heq

end TrustPortal.Proofs.DecisionLog
