import TrustPortal.Proofs.Transcript.Entries

/-!
# `TrustPortal.Proofs.Transcript.Documented`: how the parser fails

The parser should raise `TranscriptError` or `TranscriptLimitError` only, and what it returns
should be storable. Three inputs break this.

* An int literal of more than 4300 digits makes `json.loads` raise a plain `ValueError`, which
  is no `JSONDecodeError`, so the loop does not ignore the line.
* The `arguments` of a Codex tool call are decoded without the line's depth check and then
  written, so the writer can meet the interpreter's limit.
* A `message.role` of null is accepted, and the entry has no role.

`documented_iff` says that these are all: the parser does as documented exactly when no line it
reaches has one of the first two (`LineGuarded`), and a Claude Code transcript that it accepts
has none of the third (`RolesGiven`).
-/

set_option autoImplicit false

namespace TrustPortal.Proofs.Transcript

open TrustPortal.Lib
open TrustPortal.Python
open TrustPortal.Transcript

/-- The line is read as this record. -/
def Reads (py : Interpreter) (line : RawLine × Nat) (record : Members) : Prop :=
  ∃ text, readLine line.2 line.1 = .ok text ∧ readRecord py line.2 text = .ok (some record)

/-- The JSON writer can write the tool call of a Codex record that is stored: it is a tool call,
and there is room for its entry, and its id is accepted. -/
def CallWritable (py : Interpreter) (codex : FormatParse) (lineNumber : Nat) (record : Members) :
    Prop :=
  ∀ payload itemType, payloadOf record = some payload →
    (get record "type").isText "response_item" = true → get payload "type" = .str itemType →
    itemType ≠ str "message" → endsWith itemType (str "_call") = true →
    codex.parsed.entries.length < MAX_TRANSCRIPT_ENTRIES →
    (∃ id, stringField (get payload "id") .payloadId lineNumber = .ok id) →
    (Value.list [codexToolUse py payload itemType]).depth ≤ py.writerDepth

/-- The transcript is a Codex rollout from this record on, or was one before. -/
def IsRollout (parse : Parse) (record : Members) : Prop :=
  parse.claude = none ∨ isCodexRecord record = true

/-- A line that the loop reaches holds no int literal that is too long, where the JSON reader
gets to it, and no Codex tool call that is too deep to be written. -/
structure LineGuarded (py : Interpreter) (parse : Parse) (line : RawLine × Nat) : Prop where
  numbers : ∀ text, readLine line.2 line.1 = .ok text → text ≠ [] →
    checkLineDepth line.2 text = .ok () → loads py text ≠ .error .number
  toolCalls : ∀ record, Reads py line record → IsRollout parse record →
    CallWritable py parse.codex line.2 record

/-- In a transcript without a Codex record, whose Claude Code parse has met no error when the
loop ends, the role of every `user` and `assistant` record is given. -/
def RolesGiven (py : Interpreter) (content : Content) : Prop :=
  ∀ parse, (content.lines.zipIdx 1).foldlM (Parse.stepLine py) Parse.start = .ok parse →
    parse.claudeError = none →
    ∀ records, readRecords py content = .ok records →
      detectAgentType (records.map Prod.snd) = .claudeCode →
      ∀ r ∈ records, Parse.isClaudeRecord r.2 = true → roleOf r.2 ≠ .none

section
variable {py : Interpreter} {parse parse' : Parse} {record payload : Members} {lineNumber : Nat}
  {line : RawLine × Nat} {codex state : FormatParse}

/-! ## A Codex record -/

private theorem sessionMeta_documented (parsed : ParsedTranscript) :
    ErrorsIn Documented (sessionMeta parsed payload lineNumber) := by
  refine .bind (setField_documented _ _ _) fun _ _ => .bind ?_ fun _ _ => .ok _
  unfold setGitBranch
  split
  · exact setField_documented _ _ _
  · exact .ok _

private theorem turnContext_documented (parsed : ParsedTranscript) :
    ErrorsIn Documented (turnContext parsed payload lineNumber) :=
  .bind (setField_documented _ _ _) fun _ _ => .bind (setField_documented _ _ _) fun _ _ => .ok _

private theorem codexMessage_documented (timestamp : Option Int) :
    ErrorsIn Documented (codexMessage state payload timestamp lineNumber) := by
  unfold codexMessage
  split
  · refine .ite (fun _ => ?_) fun _ => .ok _
    exact .bind (checkRoom_documented state) fun _ _ =>
      .bind (stringField_documented _ _) fun _ _ => .ok _
  · exact .ok _

/-- A tool call raises only documented errors when it can be written, or is refused before. -/
theorem codexToolCall_documented {itemType : Str} {timestamp : Option Int} :
    ErrorsIn Documented (codexToolCall py state payload itemType timestamp lineNumber)
      ↔ (state.parsed.entries.length < MAX_TRANSCRIPT_ENTRIES →
        (∃ id, stringField (get payload "id") .payloadId lineNumber = .ok id) →
        (Value.list [codexToolUse py payload itemType]).depth ≤ py.writerDepth) := by
  constructor
  · rintro h hroom ⟨id, hid⟩
    by_contra hdeep
    have hrun : codexToolCall py state payload itemType timestamp lineNumber
        = .error .recursionError := by
      rw [codexToolCall, FormatParse.checkRoom, if_neg (Nat.not_le.mpr hroom), hid, toolCallsJson,
        Value.dumps, if_neg hdeep]
      rfl
    cases h _ hrun
  · intro h
    refine .bind (checkRoom_documented state) fun _ hcheck => ?_
    refine .bind (stringField_documented _ _) fun id hid => .bind ?_ fun _ _ => .ok _
    have hroom : state.parsed.entries.length < MAX_TRANSCRIPT_ENTRIES := by
      rw [FormatParse.checkRoom] at hcheck
      split_ifs at hcheck with hfull
      exact Nat.not_le.mp hfull
    rw [toolCallsJson, Value.dumps, if_pos (h hroom ⟨id, hid⟩)]
    exact .ok _

/-- Errors before a record's entry is added are the errors of the record. -/
private theorem errorsIn_stepCodex :
    ErrorsIn Documented (Parse.stepCodex py codex lineNumber record payload)
      ↔ ErrorsIn Documented (codexRecord py codex lineNumber record payload) := by
  constructor
  · intro h failure hfailure
    refine h failure ?_
    rw [Parse.stepCodex, hfailure]
    rfl
  · intro h
    refine .bind h fun next _ => ?_
    obtain ⟨next, entry⟩ := next
    cases entry with
    | none => exact .ok _
    | some entry => exact add_documented next entry

private theorem errorsIn_map {ε α β : Type} {P : ε → Prop} {x : Except ε α} {f : α → β} :
    ErrorsIn P (x.map f) ↔ ErrorsIn P x := by
  constructor
  · intro h e he
    exact h e (by rw [he]; rfl)
  · exact fun h => h.map f

/-- A Codex record raises only documented errors exactly when its tool call can be written. -/
theorem stepCodex_documented (hpayload : payloadOf record = some payload) :
    ErrorsIn Documented (Parse.stepCodex py codex lineNumber record payload)
      ↔ CallWritable py codex lineNumber record := by
  have hentries := noteTimestamp_entries codex.parsed (parseTimestamp py (get record "timestamp"))
  -- A record that is no tool call is writable, and raises documented errors only.
  have hother : (∀ itemType, (get record "type").isText "response_item" = true →
      get payload "type" = .str itemType → itemType ≠ str "message" →
      endsWith itemType (str "_call") ≠ true) → CallWritable py codex lineNumber record := by
    intro h payload' itemType hpayload' hitem htype hmessage hcall
    cases hpayload.symm.trans hpayload'
    exact absurd hcall (h itemType hitem htype hmessage)
  rw [errorsIn_stepCodex, codexRecord]
  have hone : ∀ {a : String}, (get record "type").isText a = true → str a ≠ str "response_item" →
      (get record "type").isText "response_item" ≠ true := by
    intro a ha hne hitem
    cases htype : get record "type" with
    | str t =>
      rw [htype] at ha hitem
      simp only [Value.isText, decide_eq_true_eq] at ha hitem
      exact hne (ha.symm.trans hitem)
    | _ =>
      rw [htype] at ha
      cases ha
  by_cases hsession : (get record "type").isText "session_meta" = true
  · rw [if_pos hsession]
    refine iff_of_true (.bind (sessionMeta_documented _) fun _ _ => .ok _) (hother ?_)
    exact fun _ hitem => absurd hitem (hone hsession (by decide))
  rw [if_neg hsession]
  by_cases hturn : (get record "type").isText "turn_context" = true
  · rw [if_pos hturn]
    refine iff_of_true (.bind (turnContext_documented _) fun _ _ => .ok _) (hother ?_)
    exact fun _ hitem => absurd hitem (hone hturn (by decide))
  rw [if_neg hturn]
  by_cases hitem : (get record "type").isText "response_item" = true
  swap
  · rw [if_neg hitem]
    exact iff_of_true (.ok _) (hother fun _ h => absurd h hitem)
  rw [if_pos hitem]
  have hbind : ∀ {x : Except Failure (Option NewEntry)} (next : FormatParse),
      ErrorsIn Documented (do let entry ← x; .ok (next, entry)) ↔ ErrorsIn Documented x := by
    intro x next
    exact errorsIn_map
  rw [hbind]
  unfold codexItem
  cases htype : get payload "type" with
  | str itemType =>
    dsimp only
    by_cases hmessage : itemType = str "message"
    · rw [if_pos hmessage]
      refine iff_of_true (codexMessage_documented _) (hother ?_)
      intro itemType' _ htype' hne
      cases htype.symm.trans htype'
      exact absurd hmessage hne
    rw [if_neg hmessage]
    by_cases hcall : endsWith itemType (str "_call") = true
    · rw [if_pos hcall, codexToolCall_documented]
      show ((codex.parsed.noteTimestamp _).entries.length < _ → _) ↔ _
      rw [hentries]
      constructor
      · intro h payload' itemType' hpayload' _ htype' _ _
        cases hpayload.symm.trans hpayload'
        cases htype.symm.trans htype'
        exact h
      · exact fun h => h payload itemType hpayload hitem htype hmessage hcall
    · rw [if_neg hcall]
      refine iff_of_true (.ok _) (hother ?_)
      intro itemType' _ htype' _
      cases htype.symm.trans htype'
      exact hcall
  | none | bool _ | int _ | float _ | list _ | dict _ =>
    refine iff_of_true (.ok _) (hother ?_)
    intro itemType' _ htype'
    cases htype.symm.trans htype'

/-! ## A record -/

/-- The held-back error of the loop is documented. -/
def Held (parse : Parse) : Prop := ∀ failure, parse.claudeError = some failure → Documented failure

/-- From the first Codex record on, a record does what it does in the Codex parse. -/
theorem step_rollout (hrollout : IsRollout parse record) (hpayload : payloadOf record = some payload) :
    parse.step py lineNumber record
      = (Parse.stepCodex py parse.codex lineNumber record payload).map
          fun codex => ⟨none, codex, none⟩ := by
  have hcondition : parse.claude.isNone = true ∨ isCodexRecord record = true := by
    rcases hrollout with hnone | hcodex
    · exact .inl (by rw [hnone]; rfl)
    · exact .inr hcodex
  rw [Parse.step, hpayload]
  simp only [Parse.stepPayload, if_pos hcondition]
  cases Parse.stepCodex py parse.codex lineNumber record payload <;> rfl

/-- Before the first Codex record, a record within the depth limit raises nothing. -/
theorem step_before (hwriter : MAX_LINE_DEPTH ≤ py.writerDepth)
    (hdepth : Value.depthMembers record + 1 ≤ MAX_LINE_DEPTH) (hheld : Held parse)
    (hbefore : ¬IsRollout parse record) :
    ∃ parse', parse.step py lineNumber record = .ok parse' ∧ Held parse' := by
  have hdocumented := fun state => @claudeAlone_documented py record lineNumber hwriter hdepth state
  obtain ⟨claude, codex, claudeError⟩ := parse
  obtain ⟨hsome, hcodex⟩ := not_or.mp hbefore
  have hcodex : isCodexRecord record = false := by simpa using hcodex
  cases claude with
  | none => exact absurd rfl hsome
  | some claude =>
    cases claudeError with
    | none =>
      obtain ⟨parse', codex', hstep, _, hnext⟩ := (Stands.running claude codex).step hcodex hdocumented
      refine ⟨parse', hstep, ?_⟩
      intro failure hfailure
      cases hclaude : claudeAlone py claude (lineNumber, record) with
      | ok next =>
        have hnext : Stands parse' (.ok next) codex' := hclaude ▸ hnext
        cases hnext
        cases hfailure
      | error failure' =>
        have hnext : Stands parse' (.error failure') codex' := hclaude ▸ hnext
        cases hnext
        cases hfailure
        exact hdocumented claude _ hclaude
    | some failure =>
      obtain ⟨parse', codex', hstep, _, hnext⟩ :=
        (Stands.failed claude codex failure).step hcodex hdocumented
      refine ⟨parse', hstep, ?_⟩
      have hnext : Stands parse' (.error failure) codex' := hnext
      cases hnext
      exact hheld

/-- A record raises only documented errors exactly when its tool call can be written, if it is
a Codex record of a rollout. -/
theorem step_documented (hwriter : MAX_LINE_DEPTH ≤ py.writerDepth)
    (hdepth : Value.depthMembers record + 1 ≤ MAX_LINE_DEPTH) (hheld : Held parse) :
    ErrorsIn Documented (parse.step py lineNumber record)
      ↔ (IsRollout parse record → CallWritable py parse.codex lineNumber record) := by
  by_cases hrollout : IsRollout parse record
  · cases hpayload : payloadOf record with
    | none =>
      refine iff_of_true ?_ fun _ payload _ h => absurd (hpayload.symm.trans h) nofun
      rw [Parse.step, hpayload]
      have hnone : parse.claude = none := by
        rcases hrollout with hnone | hcodex
        · exact hnone
        · rw [isCodexRecord, hpayload] at hcodex
          simp at hcodex
      simp only [bind, Except.bind, hnone]
      exact .ok _
    | some payload =>
      rw [step_rollout hrollout hpayload, errorsIn_map, stepCodex_documented hpayload]
      exact ⟨fun h _ => h, fun h => h hrollout⟩
  · obtain ⟨parse', hstep, _⟩ := @step_before _ _ _ lineNumber hwriter hdepth hheld hrollout
    rw [hstep]
    exact iff_of_true (.ok _) fun h => absurd h hrollout

/-- A record keeps the held-back error documented. -/
theorem step_held (hwriter : MAX_LINE_DEPTH ≤ py.writerDepth)
    (hdepth : Value.depthMembers record + 1 ≤ MAX_LINE_DEPTH) (hheld : Held parse)
    (h : parse.step py lineNumber record = .ok parse') : Held parse' := by
  by_cases hrollout : IsRollout parse record
  · cases hpayload : payloadOf record with
    | none =>
      have hnone : parse.claude = none := by
        rcases hrollout with hnone | hcodex
        · exact hnone
        · rw [isCodexRecord, hpayload] at hcodex
          simp at hcodex
      rw [Parse.step, hpayload] at h
      simp only [bind, Except.bind, hnone] at h
      cases h
      exact hheld
    | some payload =>
      rw [step_rollout hrollout hpayload] at h
      obtain ⟨codex, _, rfl⟩ := map_eq_ok.mp h
      simp [Held]
  · obtain ⟨next, hstep, hnext⟩ := @step_before _ _ _ lineNumber hwriter hdepth hheld hrollout
    cases hstep.symm.trans h
    exact hnext

/-! ## A line -/

/-- A line that is read as a record steps as the record does. -/
theorem stepLine_reads (h : Reads py line record) :
    Parse.stepLine py parse line = parse.step py line.2 record := by
  obtain ⟨text, htext, hrecord⟩ := h
  rw [Parse.stepLine, htext]
  show (readRecord py line.2 text >>= _) = _
  rw [hrecord]
  rfl

/-- A line that is ignored changes nothing. -/
theorem stepLine_ignored {text : Str} (htext : readLine line.2 line.1 = .ok text)
    (h : readRecord py line.2 text = .ok none) : Parse.stepLine py parse line = .ok parse := by
  rw [Parse.stepLine, htext]
  show (readRecord py line.2 text >>= _) = _
  rw [h]
  rfl

theorem readLine_documented (raw : RawLine) : ErrorsIn Documented (readLine lineNumber raw) := by
  cases raw <;> exact .ite (fun _ => .error rfl) fun _ => .ok _

/-- Reading a line fails otherwise only on an int literal that is too long. -/
theorem readRecord_documented (hreader : MAX_LINE_DEPTH ≤ py.readerDepth) (text : Str) :
    ErrorsIn Documented (readRecord py lineNumber text)
      ↔ (text ≠ [] → checkLineDepth lineNumber text = .ok () → loads py text ≠ .error .number) := by
  rw [readRecord]
  by_cases hempty : text.isEmpty = true
  · rw [if_pos hempty]
    refine iff_of_true (.ok _) fun h => absurd ?_ h
    simpa using hempty
  rw [if_neg hempty]
  have hne : text ≠ [] := by simpa using hempty
  cases hcheck : checkLineDepth lineNumber text with
  | error failure =>
    refine iff_of_true (.error ?_) fun _ h => by cases h
    rw [checkLineDepth] at hcheck
    split_ifs at hcheck
    cases hcheck
    rfl
  | ok _ =>
    have hpass := passesDepth_of_check hcheck
    dsimp only [bind, Except.bind]
    cases hloads : loads py text with
    | ok value =>
      refine iff_of_true ?_ fun _ _ => by simp
      cases value <;> exact .ok _
    | error error =>
      cases error with
      | malformed => exact iff_of_true (.ok _) fun _ _ => by simp
      | number =>
        refine iff_of_false (fun h => ?_) fun h => h hne rfl rfl
        cases h _ rfl
      | recursion => exact absurd hloads (loads_ne_recursion hreader hpass)

/-- A line raises only documented errors exactly when it is guarded. -/
theorem stepLine_documented (hreader : MAX_LINE_DEPTH ≤ py.readerDepth)
    (hwriter : MAX_LINE_DEPTH ≤ py.writerDepth) (hheld : Held parse) :
    ErrorsIn Documented (Parse.stepLine py parse line) ↔ LineGuarded py parse line := by
  cases htext : readLine line.2 line.1 with
  | error failure =>
    refine iff_of_true ?_ (LineGuarded.mk ?_ ?_)
    · rw [Parse.stepLine, htext]
      exact .error (readLine_documented _ _ htext)
    · intro _ h
      cases htext.symm.trans h
    · rintro record ⟨_, h, _⟩
      cases htext.symm.trans h
  | ok text =>
    cases hrecord : readRecord py line.2 text with
    | error failure =>
      have hstep : Parse.stepLine py parse line = .error failure := by
        rw [Parse.stepLine, htext]
        show (readRecord py line.2 text >>= _) = _
        rw [hrecord]
        rfl
      have hiff : ErrorsIn Documented (Parse.stepLine py parse line)
          ↔ ErrorsIn Documented (readRecord py line.2 text) := by
        rw [hstep, hrecord]
        exact ⟨fun h e he => h e (by cases he; rfl), fun h e he => h e (by cases he; rfl)⟩
      rw [hiff, readRecord_documented hreader]
      constructor
      · intro h
        refine ⟨fun text' htext' => ?_, ?_⟩
        · cases htext.symm.trans htext'
          exact h
        · rintro record ⟨text', htext', hread⟩
          cases htext.symm.trans htext'
          cases hrecord.symm.trans hread
      · exact fun h => h.numbers text htext
    | ok found =>
      have hnumbers : ∀ text', readLine line.2 line.1 = .ok text' → text' ≠ [] →
          checkLineDepth line.2 text' = .ok () → loads py text' ≠ .error .number := by
        intro text' htext'
        cases htext.symm.trans htext'
        refine (readRecord_documented hreader text).mp ?_
        rw [hrecord]
        exact .ok _
      cases found with
      | none =>
        rw [stepLine_ignored htext hrecord]
        refine iff_of_true (.ok _) ⟨hnumbers, ?_⟩
        rintro record ⟨text', htext', hread⟩
        cases htext.symm.trans htext'
        cases hrecord.symm.trans hread
      | some record =>
        have hreads : Reads py line record := ⟨text, htext, hrecord⟩
        rw [stepLine_reads hreads, step_documented hwriter (readRecord_depth hrecord) hheld]
        constructor
        · intro h
          refine ⟨hnumbers, ?_⟩
          rintro record' ⟨text', htext', hread⟩
          cases htext.symm.trans htext'
          cases hrecord.symm.trans hread
          exact h
        · exact fun h => h.toolCalls record hreads

/-- A line keeps the held-back error documented. -/
theorem stepLine_held (hwriter : MAX_LINE_DEPTH ≤ py.writerDepth) (hheld : Held parse)
    (h : Parse.stepLine py parse line = .ok parse') : Held parse' := by
  obtain ⟨text, htext, h'⟩ := bind_eq_ok.mp h
  obtain ⟨found, hfound, _⟩ := bind_eq_ok.mp h'
  cases found with
  | none =>
    cases (stepLine_ignored htext hfound).symm.trans h
    exact hheld
  | some record =>
    rw [stepLine_reads ⟨text, htext, hfound⟩] at h
    exact step_held hwriter (readRecord_depth hfound) hheld h

/-- Where the loop ends, every line was read. -/
theorem readRecords_of_ok {lines : List (RawLine × Nat)}
    (h : lines.foldlM (Parse.stepLine py) parse = .ok parse') :
    ∃ records, readRecordsFrom py lines = .ok records := by
  induction lines generalizing parse with
  | nil => exact ⟨[], rfl⟩
  | cons line rest ih =>
    rw [List.foldlM_cons] at h
    obtain ⟨next, hnext, hrest⟩ := bind_eq_ok.mp h
    obtain ⟨text, htext, hnext⟩ := bind_eq_ok.mp hnext
    obtain ⟨found, hfound, _⟩ := bind_eq_ok.mp hnext
    obtain ⟨others, hothers⟩ := ih hrest
    refine ⟨found.elim others fun record => (line.2, record) :: others, ?_⟩
    rw [readRecordsFrom, htext]
    show (readRecord py line.2 text >>= _) = _
    rw [hfound]
    show (readRecordsFrom py rest >>= _) = _
    rw [hothers]
    cases found <;> rfl

/-- A transcript without a Codex record: the loop ends with the Claude Code parse. -/
theorem loop_claude (hwriter : MAX_LINE_DEPTH ≤ py.writerDepth) {content : Content}
    {records : List (Nat × Members)} (hrecords : readRecords py content = .ok records)
    (hagent : detectAgentType (records.map Prod.snd) = .claudeCode) :
    ∃ parse codex, (content.lines.zipIdx 1).foldlM (Parse.stepLine py) Parse.start = .ok parse
      ∧ Stands parse (records.foldlM (claudeAlone py) (.new .claudeCode)) codex := by
  have hread := readUpTo_of_ok hrecords
  have hdocumented := readUpTo_documented hwriter (content.lines.zipIdx 1)
  rw [hread] at hdocumented
  have hnone : ∀ r ∈ records, isCodexRecord r.2 = false := by
    rw [detectAgentType] at hagent
    split_ifs at hagent with hany
    simpa using hany
  obtain ⟨parse, codex, hrun, hstands⟩ :=
    (Stands.running (.new .claudeCode) (.new .codex)).run hnone hdocumented
  refine ⟨parse, codex, ?_, hstands⟩
  rw [foldlM_stepLine, hread]
  show (records.foldlM _ (Parse.mk _ _ none) >>= _) = _
  rw [hrun]
  rfl

/-! ## A transcript -/

/-- The parser raises only documented errors exactly when every line that the loop reaches is
guarded. -/
theorem parse_documented (hreader : MAX_LINE_DEPTH ≤ py.readerDepth)
    (hwriter : MAX_LINE_DEPTH ≤ py.writerDepth) (content : Content) :
    ErrorsIn Documented (parseTranscript py content)
      ↔ AlongOk (Parse.stepLine py) (LineGuarded py) Parse.start (content.lines.zipIdx 1) := by
  have hstart : Held Parse.start := nofun
  have hlines := @errorsIn_foldlM_iff _ _ _ Documented (Parse.stepLine py) (LineGuarded py) Held
    (fun _ _ _ hs => stepLine_held hwriter hs)
    (fun _ _ hs => stepLine_documented hreader hwriter hs) _ (content.lines.zipIdx 1) hstart
  rw [← hlines]
  constructor
  · intro h failure hfailure
    refine h failure ?_
    rw [parseTranscript, hfailure]
    rfl
  · intro h
    refine .bind h fun parse hloop => ?_
    -- What is raised at the end is the error that was held back.
    have hheld : Held parse := @foldlM_invariant _ _ _ (Parse.stepLine py) Held (fun _ => True)
      (fun _ _ _ hs _ => stepLine_held hwriter hs) _ _ _ (fun _ _ => trivial) hstart hloop
    obtain ⟨claude, codex, claudeError⟩ := parse
    rintro failure hfailure
    cases claude <;> cases claudeError <;> cases hfailure
    exact hheld failure rfl

/-- A transcript that is returned can be stored, when the roles of its records are given or it
is a Codex rollout. -/
theorem storable_iff (hwriter : MAX_LINE_DEPTH ≤ py.writerDepth) {content : Content}
    {records : List (Nat × Members)} {parsed : ParsedTranscript}
    (hrecords : readRecords py content = .ok records)
    (hparsed : parseTranscript py content = .ok parsed) :
    Storable parsed ↔ (detectAgentType (records.map Prod.snd) = .claudeCode →
      ∀ r ∈ records, Parse.isClaudeRecord r.2 = true → roleOf r.2 ≠ .none) := by
  have hmeta : ∀ agentType, MetaFits (FormatParse.new agentType).parsed :=
    fun _ => ⟨nofun, nofun, nofun⟩
  have halone := (parseTranscript_of_records hwriter hrecords).symm.trans hparsed
  cases hdetect : detectAgentType (records.map Prod.snd) with
  | codex =>
    rw [hdetect] at halone
    obtain ⟨state, hstate, rfl⟩ := map_eq_ok.mp halone
    obtain ⟨hentries, hfits, hkeep⟩ := entries_codex hstate
    refine iff_of_true ⟨?_, hkeep (hmeta _)⟩ nofun
    rw [hentries]
    exact hfits
  | claudeCode =>
    rw [hdetect] at halone
    obtain ⟨state, hstate, rfl⟩ := map_eq_ok.mp halone
    obtain ⟨hentries, hfits, hkeep⟩ := entries_claude hstate
    have hmem : ∀ entry, entry ∈ state.parsed.entries
        ↔ ∃ r ∈ records, Parse.isClaudeRecord r.2 = true ∧ entry = claudeEntry py r.2 := by
      intro entry
      rw [hentries]
      show entry ∈ [] ++ claudeEntries py (records.map Prod.snd) ↔ _
      rw [List.nil_append, claudeEntries, List.mem_map]
      constructor
      · rintro ⟨record, hrecord, rfl⟩
        obtain ⟨hmem, hclaude⟩ := List.mem_filter.mp hrecord
        obtain ⟨r, hr, rfl⟩ := List.mem_map.mp hmem
        exact ⟨r, hr, hclaude, rfl⟩
      · rintro ⟨r, hr, hclaude, rfl⟩
        exact ⟨r.2, List.mem_filter.mpr ⟨List.mem_map_of_mem hr, hclaude⟩, rfl⟩
    constructor
    · intro h _ r hr hrecord hnull
      exact (h.entries _ ((hmem _).mpr ⟨r, hr, hrecord, rfl⟩)).2 ((hfits r hr hrecord).2.mpr hnull)
    · intro h
      refine ⟨fun entry hentry => ?_, hkeep (hmeta _)⟩
      obtain ⟨r, hr, hrecord, rfl⟩ := (hmem entry).mp hentry
      obtain ⟨hfit, hrole⟩ := hfits r hr hrecord
      exact ⟨hfit, fun hnull => h rfl r hr hrecord (hrole.mp hnull)⟩

/-- A Claude Code transcript is returned when the loop ends without a held-back error. -/
theorem returned_iff (hwriter : MAX_LINE_DEPTH ≤ py.writerDepth) {content : Content}
    {records : List (Nat × Members)} (hrecords : readRecords py content = .ok records)
    (hagent : detectAgentType (records.map Prod.snd) = .claudeCode) {parse : Parse}
    (hloop : (content.lines.zipIdx 1).foldlM (Parse.stepLine py) Parse.start = .ok parse) :
    (∃ parsed, parseTranscript py content = .ok parsed) ↔ parse.claudeError = none := by
  obtain ⟨parse', codex, hrun, hstands⟩ := loop_claude hwriter hrecords hagent
  cases hrun.symm.trans hloop
  have hreturn : parseTranscript py content = parse.finish := by
    rw [parseTranscript, hloop]
    rfl
  rw [hreturn]
  generalize records.foldlM (claudeAlone py) (.new .claudeCode) = claude at hstands
  cases hstands with
  | running claude codex => exact iff_of_true ⟨claude.parsed, rfl⟩ rfl
  | failed claude codex failure =>
    refine iff_of_false ?_ (Option.some_ne_none failure)
    rintro ⟨_, h⟩
    cases h

/-- **What breaks the parser's contract.** The parser raises only documented errors and returns
only transcripts that can be stored exactly when every line that the loop reaches is guarded and
the roles of an accepted Claude Code transcript are given. -/
theorem documented_iff (hreader : MAX_LINE_DEPTH ≤ py.readerDepth)
    (hwriter : MAX_LINE_DEPTH ≤ py.writerDepth) (content : Content) :
    (∀ failure, parseTranscript py content = .error failure → failure.isDocumented = true)
        ∧ (∀ parsed, parseTranscript py content = .ok parsed → Storable parsed)
      ↔ AlongOk (Parse.stepLine py) (LineGuarded py) Parse.start (content.lines.zipIdx 1)
        ∧ RolesGiven py content := by
  refine and_congr (parse_documented hreader hwriter content) ?_
  constructor
  · intro h parse hloop herror records hrecords hagent
    obtain ⟨parsed, hparsed⟩ := (returned_iff hwriter hrecords hagent hloop).mpr herror
    exact (storable_iff hwriter hrecords hparsed).mp (h parsed hparsed) hagent
  · intro h parsed hparsed
    obtain ⟨parse, hloop, _⟩ := bind_eq_ok.mp hparsed
    obtain ⟨records, hrecords⟩ := readRecords_of_ok hloop
    refine (storable_iff hwriter hrecords hparsed).mpr fun hagent => ?_
    have herror := (returned_iff hwriter hrecords hagent hloop).mp ⟨parsed, hparsed⟩
    exact h parse hloop herror records hrecords hagent

/-- A prompt whose role is null. -/
def nullRole : Content :=
  .bytes (encodePass (str "\x7b\"type\":\"user\",\"message\":\x7b\"role\":null\x7d\x7d"))

/-- `documented_iff` for that prompt. -/
theorem documented_iff_nullRole :
    (∀ failure, parseTranscript plainInterpreter nullRole = .error failure →
        failure.isDocumented = true)
        ∧ (∀ parsed, parseTranscript plainInterpreter nullRole = .ok parsed → Storable parsed)
      ↔ AlongOk (Parse.stepLine plainInterpreter) (LineGuarded plainInterpreter) Parse.start
          (nullRole.lines.zipIdx 1)
        ∧ RolesGiven plainInterpreter nullRole :=
  documented_iff (by decide) (by decide) nullRole

/-- The prompt is returned as an entry without a role, which the column refuses. -/
theorem nullRole_not_storable :
    ¬((∀ failure, parseTranscript plainInterpreter nullRole = .error failure →
        failure.isDocumented = true)
      ∧ ∀ parsed, parseTranscript plainInterpreter nullRole = .ok parsed → Storable parsed) := by
  rintro ⟨_, h⟩
  have hroles : ((parseTranscript plainInterpreter nullRole).toOption.map
      fun parsed => parsed.entries.map Entry.role) = some [none] := by
    decide +kernel
  cases hparsed : parseTranscript plainInterpreter nullRole with
  | error failure =>
    rw [hparsed] at hroles
    cases hroles
  | ok parsed =>
    rw [hparsed] at hroles
    have hroles : parsed.entries.map Entry.role = [none] := Option.some.inj hroles
    have hentry : none ∈ parsed.entries.map Entry.role := hroles ▸ List.mem_singleton_self none
    obtain ⟨entry, hmem, hnull⟩ := List.mem_map.mp hentry
    exact ((h parsed hparsed).entries entry hmem).2 hnull

end

end TrustPortal.Proofs.Transcript
