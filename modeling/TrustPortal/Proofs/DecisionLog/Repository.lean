import TrustPortal.Proofs.DecisionLog.Calls

/-!
# `TrustPortal.Proofs.DecisionLog.Repository`: what the repository and the store supplied stays

`repository_entries` counts the leading stored entries that the evidence repository or the
evidence store supplied. `Supplied` says that the count is recorded and that so many entries
are stored. `supplied_outcome` is the step: no outcome lowers the count, and none touches the
entries it counts. A conflict cuts at the count or after it, because `_repository_wins`
compares the cut with the count.

`repository_entries_kept` is the result for runs: from a state of a run on, the entries that
were counted there stay the first entries, in their order.
-/

set_option autoImplicit false

namespace TrustPortal.Proofs.DecisionLog

open TrustPortal.Audit
open TrustPortal.DecisionLog
open TrustPortal.Lib

/-- The record has a session that counts `count` supplied entries, and they are stored. -/
structure Supplied (record : SessionRecord) (count : Nat) : Prop where
  session : ∃ session, record.session = some session ∧ session.repositoryEntries = some count
  stored : count ≤ record.entries.length

/-- The entries counted before are counted after, in the same places. -/
def KeepsSupplied (before after : SessionRecord) : Prop :=
  ∀ count, Supplied before count →
    ∃ count', Supplied after count' ∧ count ≤ count'
      ∧ after.entries.take count = before.entries.take count

theorem keepsSupplied_refl (record : SessionRecord) : KeepsSupplied record record := by
  intro count h
  exact ⟨count, h, le_rfl, rfl⟩

theorem KeepsSupplied.trans {a b c : SessionRecord} (hab : KeepsSupplied a b)
    (hbc : KeepsSupplied b c) : KeepsSupplied a c := by
  intro count h
  obtain ⟨middle, hmiddle, hle, htake⟩ := hab count h
  obtain ⟨last, hlast, hle', htake'⟩ := hbc middle hmiddle
  refine ⟨last, hlast, hle.trans hle', ?_⟩
  -- The first `count` entries are among the first `middle` ones.
  calc c.entries.take count = (c.entries.take middle).take count := by
        rw [List.take_take, Nat.min_eq_left hle]
    _ = (b.entries.take middle).take count := by rw [htake']
    _ = b.entries.take count := by rw [List.take_take, Nat.min_eq_left hle]
    _ = a.entries.take count := htake

section
variable {tools : Tools} {tx : Transaction} {upload : Upload} {before after : SessionRecord}
  {session : Session} {parsed : ParsedTranscript} {count : Nat}

/-- The count of a session that records it. -/
theorem repositoryEntries_of_recorded {stored : Nat}
    (hcount : session.repositoryEntries = some count) (hstored : count ≤ stored) :
    repositoryEntries session stored = count := by
  rw [repositoryEntries, hcount]
  exact Nat.min_eq_left hstored

theorem repositoryEntries_le (session : Session) (stored : Nat) :
    repositoryEntries session stored ≤ stored := by
  unfold repositoryEntries
  split
  · exact Nat.min_le_right _ _
  · split <;> omega

/-- A conflict cuts within the stored entries and within the new ones. -/
theorem conflictCut_le
    (hwins : repositoryWins before session parsed.entries.length
      (compareWithStored tools before.entries parsed.entries) = true) :
    conflictCut parsed.entries.length (compareWithStored tools before.entries parsed.entries)
      ≤ before.entries.length := by
  have hspec := compareWithStored_spec tools before.entries parsed.entries
  unfold conflictCut
  cases hdifference : (compareWithStored tools before.entries parsed.entries).difference with
  | some difference =>
    have := (hspec.differs difference hdifference).rows_lt
    rw [Option.getD_some]
    omega
  | none =>
    simp only [repositoryWins, hdifference, hspec.stored, decide_eq_true_eq] at hwins
    rw [Option.getD_none]
    omega

/-- A version that wins a conflict replaces nothing that was supplied, and supplies at least
as many entries. -/
theorem le_conflictCut (hcount : session.repositoryEntries = some count)
    (hstored : count ≤ before.entries.length)
    (hwins : repositoryWins before session parsed.entries.length
      (compareWithStored tools before.entries parsed.entries) = true) :
    let cut := conflictCut parsed.entries.length
      (compareWithStored tools before.entries parsed.entries)
    count ≤ cut ∧ cut ≤ before.entries.length ∧ cut ≤ parsed.entries.length := by
  have hspec := compareWithStored_spec tools before.entries parsed.entries
  have hrepository := repositoryEntries_of_recorded hcount hstored
  simp only [repositoryWins, hcount, reduceCtorEq, false_and, if_false, hspec.stored,
    hrepository] at hwins
  cases hdifference : (compareWithStored tools before.entries parsed.entries).difference with
  | some difference =>
    have hrows := (hspec.differs difference hdifference).rows_lt
    have hentries := (hspec.differs difference hdifference).entries_lt
    rw [hdifference, decide_eq_true_eq] at hwins
    simp only [conflictCut, hdifference, Option.getD_some]
    omega
  | none =>
    rw [hdifference, decide_eq_true_eq] at hwins
    simp only [conflictCut, hdifference, Option.getD_none]
    omega

/-- An extension leaves the first entries and does not lower the count. -/
theorem keepsSupplied_extend (hsession : before.session = some session)
    (hwrite : extend tools tx upload session parsed
      (compareWithStored tools before.entries parsed.entries) before = .ok after)
    (hlength : before.entries.length < parsed.entries.length) : KeepsSupplied before after := by
  intro count h
  obtain ⟨_, hsome, hcount⟩ := h.session
  rw [hsession] at hsome
  cases hsome
  have hspec := compareWithStored_spec tools before.entries parsed.entries
  obtain ⟨hafter, hentries⟩ := extend_frame hwrite
  rw [hspec.stored] at hafter hentries
  have hstored := h.stored
  have hlengthAfter : after.entries.length = parsed.entries.length := by
    rw [hentries, List.length_append, List.length_drop]
    omega
  have hrepository := repositoryEntries_of_recorded hcount hstored
  have htake : after.entries.take count = before.entries.take count := by
    rw [hentries, List.take_append_of_le_length hstored]
  cases hsource : upload.authority.isSource with
  | true =>
    refine ⟨parsed.entries.length, ⟨⟨_, hafter, ?_⟩, ?_⟩, ?_, htake⟩
    · simp [extendedSession, hsource]
    · omega
    · omega
  | false =>
    refine ⟨count, ⟨⟨_, hafter, ?_⟩, ?_⟩, le_rfl, htake⟩
    · simp [extendedSession, hsource, hrepository]
    · omega

/-- A conflict leaves the supplied entries and does not lower the count. -/
theorem keepsSupplied_adopt (hsession : before.session = some session)
    (hwins : repositoryWins before session parsed.entries.length
      (compareWithStored tools before.entries parsed.entries) = true)
    (hwrite : adoptRepositoryVersion tools tx upload session parsed
      (compareWithStored tools before.entries parsed.entries) before = .ok after) :
    KeepsSupplied before after := by
  intro count h
  obtain ⟨_, hsome, hcount⟩ := h.session
  rw [hsession] at hsome
  cases hsome
  obtain ⟨hafter, hentries⟩ := adoptRepositoryVersion_frame hwrite
  obtain ⟨hcut, hrows, hparsed⟩ := le_conflictCut hcount h.stored hwins
  have hlength : (before.entries.take (conflictCut parsed.entries.length
      (compareWithStored tools before.entries parsed.entries))).length
        = conflictCut parsed.entries.length
            (compareWithStored tools before.entries parsed.entries) :=
    List.length_take_of_le hrows
  refine ⟨parsed.entries.length, ⟨⟨_, hafter, rfl⟩, ?_⟩, hcut.trans hparsed, ?_⟩
  · rw [hentries, List.length_append, hlength, List.length_drop]
    omega
  · rw [hentries, List.take_append_of_le_length (by rw [hlength]; exact hcut), List.take_take,
      Nat.min_eq_left hcut]

end

/-- No outcome of an import lowers the count or touches the entries it counts. -/
theorem supplied_outcome {tools : Tools} {tx : Transaction} {upload : Upload}
    {before after : SessionRecord} {result : ImportResult}
    (h : ImportOutcome tools tx upload before after result) : KeepsSupplied before after := by
  cases h with
  | dryRun hdry => exact keepsSupplied_refl before
  | sameContent session hsession hsame hresult => exact keepsSupplied_refl before
  | kept session parsed hsession hparsed hagree hlength hresult =>
    exact keepsSupplied_refl before
  | created parsed hsession hparsed hwrite hwrites hresult =>
    -- There was no session to count anything.
    intro count h
    obtain ⟨session, hsome, _⟩ := h.session
    rw [hsession] at hsome
    cases hsome
  | rejected session count reason hsession hwrite hwrites hresult =>
    intro count h
    obtain ⟨hsame, hentries⟩ := recordRejected_frame hwrite
    exact ⟨count, ⟨by rw [hsame]; exact h.session, by rw [hentries]; exact h.stored⟩, le_rfl,
      by rw [hentries]⟩
  | extended session parsed hsession hparsed hagree hlength haccepted hwrite hwrites hresult =>
    exact keepsSupplied_extend hsession hwrite hlength
  | adopted session parsed hsession hparsed hwrites hnew hsystem hwins hwrite hresult =>
    exact keepsSupplied_adopt hsession hwins hwrite
  | baselined session parsed hsession hparsed hcurrent hagree hlength hwrite hwrites hresult =>
    intro count h
    obtain ⟨hafter, hentries⟩ := baseline_frame hwrite
    refine ⟨before.entries.length, ⟨⟨_, hafter, rfl⟩, ?_⟩, h.stored, by rw [hentries]⟩
    rw [hentries]
  | backfilled session parsed hsession hparsed hcontent hagree hlength hwrites hresult =>
    intro count h
    obtain ⟨_, hsome, hcount⟩ := h.session
    rw [hsession] at hsome
    cases hsome
    by_cases hsystem : upload.authority = .system
    · refine ⟨before.entries.length, ⟨⟨_, rfl, ?_⟩, le_rfl⟩, h.stored, rfl⟩
      simp [hsystem]
    · refine ⟨count, ⟨⟨_, rfl, ?_⟩, h.stored⟩, le_rfl, rfl⟩
      simp [hsystem, hcount]

/-- The count of a session, where it is recorded, is at most the number of stored entries. -/
def Counted (record : SessionRecord) : Prop :=
  ∀ session, record.session = some session →
    ∀ count, session.repositoryEntries = some count → count ≤ record.entries.length

/-- Every outcome keeps the count within the stored entries. -/
theorem counted_outcome {tools : Tools} {tx : Transaction} {upload : Upload}
    {before after : SessionRecord} {result : ImportResult} (hbefore : Counted before)
    (h : ImportOutcome tools tx upload before after result) : Counted after := by
  cases h with
  | dryRun hdry => exact hbefore
  | sameContent session hsession hsame hresult => exact hbefore
  | kept session parsed hsession hparsed hagree hlength hresult => exact hbefore
  | created parsed hsession hparsed hwrite hwrites hresult =>
    intro session hsome count hcount
    obtain ⟨hafter, hentries⟩ := create_frame hwrite
    rw [hafter] at hsome
    cases hsome
    cases hcount
    rw [hentries, List.length_append]
    split <;> omega
  | rejected session count reason hsession hwrite hwrites hresult =>
    obtain ⟨hsame, hentries⟩ := recordRejected_frame hwrite
    intro session hsome count hcount
    rw [hentries]
    exact hbefore session (hsame ▸ hsome) count hcount
  | extended session parsed hsession hparsed hagree hlength haccepted hwrite hwrites hresult =>
    have hspec := compareWithStored_spec tools before.entries parsed.entries
    obtain ⟨hafter, hentries⟩ := extend_frame hwrite
    rw [hspec.stored] at hafter hentries
    intro session' hsome count hcount
    rw [hafter] at hsome
    cases hsome
    cases hcount
    rw [hentries, List.length_append, List.length_drop]
    split
    · omega
    · have := repositoryEntries_le session before.entries.length
      omega
  | adopted session parsed hsession hparsed hwrites hnew hsystem hwins hwrite hresult =>
    obtain ⟨hafter, hentries⟩ := adoptRepositoryVersion_frame hwrite
    have hrows := conflictCut_le hwins
    intro session' hsome count hcount
    rw [hafter] at hsome
    cases hsome
    cases hcount
    rw [hentries, List.length_append, List.length_take_of_le hrows, List.length_drop]
    omega
  | baselined session parsed hsession hparsed hcurrent hagree hlength hwrite hwrites hresult =>
    obtain ⟨hafter, hentries⟩ := baseline_frame hwrite
    intro session' hsome count hcount
    rw [hafter] at hsome
    cases hsome
    cases hcount
    rw [hentries]
  | backfilled session parsed hsession hparsed hcontent hagree hlength hwrites hresult =>
    intro session' hsome count hcount
    cases hsome
    by_cases hsystem : upload.authority = .system
    · simp only [hsystem, if_true, Option.some.injEq] at hcount
      exact le_of_eq hcount.symm
    · simp only [hsystem, if_false] at hcount
      exact hbefore session hsession count hcount

/-- The count is within the stored entries in every state of a run. -/
theorem counted_run (tools : Tools) (calls : List (Transaction × ImportCall)) (sid : String) :
    Counted ((runCalls tools .empty calls).records sid) := by
  refine run_invariant (P := fun db : Database => Counted (db.records sid)) ?_
    (along_of_forall (fun _ _ => trivial) _ calls) ?_
  · intro db step hcounted _
    rcases runCall_record tools db step.1 step.2 sid with hsame | ⟨upload, result, _, _, houtcome⟩
    · show Counted ((runCall tools db step.1 step.2).records sid)
      rw [hsame]
      exact hcounted
    · exact counted_outcome hcounted houtcome
  · intro session hsome
    cases hsome

/-- One call keeps what was supplied of every session. -/
theorem supplied_call (tools : Tools) (db : Database) (tx : Transaction) (call : ImportCall)
    (sid : String) :
    KeepsSupplied (db.records sid) ((runCall tools db tx call).records sid) := by
  rcases runCall_record tools db tx call sid with hsame | ⟨upload, result, _, _, houtcome⟩
  · rw [hsame]
    exact keepsSupplied_refl _
  · exact supplied_outcome houtcome

/-- Every run keeps what was supplied of every session. -/
theorem supplied_run (tools : Tools) (db : Database) (calls : List (Transaction × ImportCall))
    (sid : String) :
    KeepsSupplied (db.records sid) ((runCalls tools db calls).records sid) := by
  refine run_relation (R := fun before after : Database =>
    KeepsSupplied (before.records sid) (after.records sid)) (P := fun _ => True) ?_ ?_ ?_ ?_
    calls trivial
  · intro db
    exact keepsSupplied_refl _
  · intro a b c hab hbc
    exact hab.trans hbc
  · intro _ _ _
    trivial
  · intro db step _
    exact supplied_call tools db step.1 step.2 sid

/-- Take a run of calls from an empty database, and a session that counts `count` supplied
entries after it. Then, after any further calls by any authority, the session still counts at
least as many, and the first `count` stored entries are the same, in the same order. -/
theorem repository_entries_kept (tools : Tools) (calls later : List (Transaction × ImportCall))
    (sid : String) (session : Session) (count : Nat)
    (hsession : ((runCalls tools .empty calls).records sid).session = some session)
    (hcount : session.repositoryEntries = some count) :
    let before := (runCalls tools .empty calls).records sid
    let after := (runCalls tools .empty (calls ++ later)).records sid
    count ≤ before.entries.length ∧ after.entries.take count = before.entries.take count
      ∧ ∃ session' count', after.session = some session'
          ∧ session'.repositoryEntries = some count' ∧ count ≤ count'
          ∧ count' ≤ after.entries.length := by
  intro before after
  have hcounted : Counted before := counted_run tools calls sid
  have hstored : count ≤ before.entries.length := hcounted session hsession count hcount
  have hkeeps := supplied_run tools (runCalls tools .empty calls) later sid
  obtain ⟨count', hafter, hle, htake⟩ := hkeeps count ⟨⟨session, hsession, hcount⟩, hstored⟩
  have hrun : after = (runCalls tools (runCalls tools .empty calls) later).records sid := by
    show (runCalls tools .empty (calls ++ later)).records sid = _
    rw [runCalls, List.foldl_append]
    rfl
  obtain ⟨session', hsome, hcount'⟩ := hafter.session
  refine ⟨hstored, ?_, session', count', ?_, hcount', hle, ?_⟩
  · rw [hrun, htake]
  · rw [hrun, hsome]
  · rw [hrun]
    exact hafter.stored

/-! ## Three transcripts of one session

A transcript with the one message `a`, one with the message `b`, and one with both. -/

/-- The bytes of `{"type":"user","message":{"role":"user","content":"a"}}` and a newline. -/
def transcriptA : String :=
  "7b2274797065223a2275736572222c226d657373616765223a7b22726f6c65223a2275736572222c"
    ++ "22636f6e74656e74223a2261227d7d0a"

/-- The bytes of `{"type":"user","message":{"role":"user","content":"b"}}` and a newline. -/
def transcriptB : String :=
  "7b2274797065223a2275736572222c226d657373616765223a7b22726f6c65223a2275736572222c"
    ++ "22636f6e74656e74223a2262227d7d0a"

/-- A user's message without a timestamp. -/
def userEntry (text : String) : Entry := ⟨some "user", some text, none, none, none, false⟩

/-- A Claude Code transcript without metadata. -/
def plainTranscript (entries : List Entry) : ParsedTranscript :=
  ⟨entries, none, none, none, none, none, "claude_code"⟩

/-- The gzip of the reconstruction of the version with the message `a`. -/
def reconstructionGzA : String :=
  "1f8b08000000000002ff858fdb0e82300c86ef790ab26b8932181bbe8a3164874e499499ad1809e1dddd88f170e5"
    ++ "55d3af5fffb433c1e906649f1303ba0fbd1b8a8b3b151eb41b02fa516344649313ebfc55e21f717b2f931b2024"
    ++ "a1eb4df2c3caa286306017ce92b22671aa956db9d5d02a5e3353b15dcd81d28a352dad69534a0d5280a835378a"
    ++ "0a2a2de350b16aa7b8280db7e23b554d082186b226c2087cbfb6e592cdef07c7003eed5ce375f294d04cbcbbfc"
    ++ "cc5e79111d3e8b080f4cc3b5c65e92e5b82cd9138816504b3b010000"

/-- The tools on the two transcripts. The one text that is compressed is the reconstruction of
the version with the message `a`. -/
def sampleTools : Tools where
  sha := .ofTables
    [("[\"user\",\"a\",null,null,null,false]\n",
        "e9f8f622ef02668feb06502538d01f71c432e653e81fed1638997c24673e1bfb"),
      ("[\"user\",\"b\",null,null,null,false]\n",
        "6969c4696a8e95d23a946f2dc241f55259c2aadfdc702452a00b4f73ad660ae5")]
    [(transcriptA, "2cbf97fce9b745d35047e22356924261acea8e84c7db282af57e3530b781d7f8"),
      (transcriptB, "f1544e6cc74c0a26e9001c0b6a72316a8b55be36a28e888f63278708d235b44a"),
      (reconstructionGzA, "620cb83d29c0e5ff10b89f6c6e763526817c5f87efc3fc8a302859d34a70b069")]
    (by decide)
  gzipText _ := reconstructionGzA
  gzipBytes _ := "1f8b0800000000000203ab562aa92c4855b2522a2d4e2d52d251ca4d2d2e4e4c070a542b15e5e7"
    ++ "204924e7e795a4e695000592946a6bb9003ff6daa638000000"
  loads _ := none
  parse content :=
    if content = transcriptA then .ok (plainTranscript [userEntry "a"])
    else if content = transcriptB then .ok (plainTranscript [userEntry "b"])
    else .error (.invalid "unknown transcript")

/-- The two messages `a` and `b` in one transcript. -/
def transcriptAB : String := transcriptA ++ transcriptB

/-- The tools on the transcript with one message and the one that extends it. -/
def exportTools : Tools where
  sha := .ofTables
    [("[\"user\",\"a\",null,null,null,false]\n",
        "e9f8f622ef02668feb06502538d01f71c432e653e81fed1638997c24673e1bfb"),
      ("[\"user\",\"a\",null,null,null,false]\n[\"user\",\"b\",null,null,null,false]\n",
        "30dec6235e01246327658b44b8df12a7361e6ac6576209a8b41a723f9954cddb")]
    [(transcriptA, "2cbf97fce9b745d35047e22356924261acea8e84c7db282af57e3530b781d7f8"),
      (transcriptAB, "1b9eb44bb43cb18d1290511a721b9c8abaffbc2c9f04d8f61b934a85ba529280"),
      (reconstructionGzA, "620cb83d29c0e5ff10b89f6c6e763526817c5f87efc3fc8a302859d34a70b069")]
    (by decide)
  gzipText := sampleTools.gzipText
  gzipBytes := sampleTools.gzipBytes
  loads _ := none
  parse content :=
    if content = transcriptA then .ok (plainTranscript [userEntry "a"])
    else if content = transcriptAB then .ok (plainTranscript [userEntry "a", userEntry "b"])
    else .error (.invalid "unknown transcript")

/-- The repository's path of the session `s1`. -/
def samplePath : String := "decision-logs/2026-01-05T090000Z_s1.jsonl"

/-- A git sync's file of the session `s1`. -/
def sampleGit (content : String) (memberId : Option String) : ImportCall :=
  gitCall samplePath content "0a1b2c" memberId none none

/-- A member's upload for the session `s1`. -/
def sampleUpload (content : String) : ImportCall :=
  uploadCall "s1" content "m1" false none none

/-- The transactions of the examples. -/
def sampleTransaction (number : Nat) : Transaction := ⟨number, number, s!"v{number}", s!"w{number}"⟩

/-! The checks of these calls, so that no run below repeats them. -/

set_option maxRecDepth 8000 in
theorem transcript_lengths : transcriptA.length = 112 ∧ transcriptB.length = 112 := by
  decide +kernel

theorem transcriptA_small : transcriptA.length ≤ MAX_TRANSCRIPT_BYTES :=
  transcript_lengths.1.le.trans (by decide)

theorem transcriptB_small : transcriptB.length ≤ MAX_TRANSCRIPT_BYTES :=
  transcript_lengths.2.le.trans (by decide)

theorem transcriptAB_small : transcriptAB.length ≤ MAX_TRANSCRIPT_BYTES := by
  show (transcriptA ++ transcriptB).length ≤ _
  rw [String.length_append, transcript_lengths.1, transcript_lengths.2]
  decide

theorem samplePath_session : sessionIdFromPath (some samplePath) = some "s1" := by
  decide +kernel

theorem sampleGit_upload (tools : Tools) (memberId : Option String) {content : String}
    (hsize : content.length ≤ MAX_TRANSCRIPT_BYTES) :
    (sampleGit content memberId).upload tools
      = .ok (ImportCall.accepted tools (sampleGit content memberId) "s1") := by
  have hsid : (sampleGit content memberId).sid = some "s1" := by
    show (if truthy none = true then none else sessionIdFromPath (some samplePath)) = some "s1"
    rw [samplePath_session]
    rfl
  exact upload_accepted rfl Authority.noConfusion (fun _ => samplePath_session.trans hsid.symm) hsid
    (by decide +kernel) hsize

theorem sampleUpload_upload (tools : Tools) {content : String}
    (hsize : content.length ≤ MAX_TRANSCRIPT_BYTES) :
    (sampleUpload content).upload tools
      = .ok (ImportCall.accepted tools (sampleUpload content) "s1") :=
  upload_accepted rfl (fun _ => (by decide : truthy (some "m1") = true)) Bool.noConfusion rfl
    (by decide +kernel) hsize

theorem sampleGit_run (tools : Tools) (db : Database) (tx : Transaction) (memberId : Option String)
    {content : String} (hsize : content.length ≤ MAX_TRANSCRIPT_BYTES) :
    runCall tools db tx (sampleGit content memberId)
      = putUpload tools tx (ImportCall.accepted tools (sampleGit content memberId) "s1") db :=
  runCall_accepted Authority.noConfusion (sampleGit_upload tools memberId hsize)

theorem sampleUpload_run (tools : Tools) (db : Database) (tx : Transaction)
    {content : String} (hsize : content.length ≤ MAX_TRANSCRIPT_BYTES) :
    runCall tools db tx (sampleUpload content)
      = putUpload tools tx (ImportCall.accepted tools (sampleUpload content) "s1") db :=
  runCall_accepted Authority.noConfusion (sampleUpload_upload tools hsize)

set_option maxRecDepth 8000 in
/-- A scheduled git sync creates the session with one entry. The entry stays when a member
uploads another transcript. -/
theorem repository_entry_kept_s1 :
    let calls := [(sampleTransaction 1, sampleGit transcriptA none)]
    let later := [(sampleTransaction 2, sampleUpload transcriptB)]
    let before := (runCalls sampleTools .empty calls).records "s1"
    let after := (runCalls sampleTools .empty (calls ++ later)).records "s1"
    1 ≤ before.entries.length ∧ after.entries.take 1 = before.entries.take 1
      ∧ ∃ session' count', after.session = some session'
          ∧ session'.repositoryEntries = some count' ∧ 1 ≤ count'
          ∧ count' ≤ after.entries.length :=
  repository_entries_kept sampleTools _ _ "s1"
    { id := "s1", agentType := "claude_code", model := none, cwd := none, gitBranch := none,
      startedAt := none, endedAt := none, exitReason := none, transcriptPath := some samplePath,
      submittedBy := none, importedAt := 1,
      contentSha256 := some "2cbf97fce9b745d35047e22356924261acea8e84c7db282af57e3530b781d7f8",
      contentBytes := some 56, replacedAt := none, repositoryEntries := some 1,
      conflictAt := none, conflictDetail := none }
    1 (by decide) rfl

end TrustPortal.Proofs.DecisionLog
