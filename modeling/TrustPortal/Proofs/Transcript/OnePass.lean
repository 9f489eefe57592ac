import Mathlib.Data.Nat.Digits.Lemmas
import TrustPortal.Proofs.Transcript.Depth
import TrustPortal.Proofs.Transcript.Utf8

/-!
# `TrustPortal.Proofs.Transcript.OnePass`: one pass and two

`parse_transcript` does not know the format of a transcript before it has read it, and it reads
it once. The reference reads twice: `detectAgentType` looks at all records, and `parseAlone`
parses them in that one format, each error raised where it occurs. `one_pass` says that the two
agree, in what they return and in what they raise, when every line can be read. A line that cannot
be read ends both: the reference before it has parsed a record, the loop after it has parsed those
of the lines before. So the loop raises the error of a Codex rollout that stands before the line,
where the reference raises that of the line (`number_after_codexError`).

The relation is `Stands`. Before the first Codex record, the loop holds the Codex parse of the
records so far, whose every step only notes a timestamp, and either the Claude Code parse or
the first error of that parse. The first Codex record drops the Claude Code half, and from
there the loop is the Codex parse.

The Claude Code parse raises only documented errors, which the loop can hold back: a record
comes from a line within `MAX_LINE_DEPTH`, so the JSON writer does not meet the interpreter's
limit on its blocks, as long as that limit is no lower.
-/

set_option autoImplicit false

namespace TrustPortal.Proofs.Transcript

open TrustPortal.Lib
open TrustPortal.Python
open TrustPortal.Transcript

/-! ## The reference -/

/-- The records of a content with the numbers of their lines, or what reading a line raises. -/
def readRecordsFrom (py : Interpreter) : List (RawLine × Nat) → Except Failure (List (Nat × Members))
  | [] => .ok []
  | line :: rest => do
    let text ← readLine line.2 line.1
    let record ← readRecord py line.2 text
    let records ← readRecordsFrom py rest
    .ok (match record with
      | some record => (line.2, record) :: records
      | none => records)

/-- The records of a content. -/
def readRecords (py : Interpreter) (content : Content) : Except Failure (List (Nat × Members)) :=
  readRecordsFrom py (content.lines.zipIdx 1)

/-- A record parsed as Claude Code, whatever the other records are. -/
def claudeAlone (py : Interpreter) (state : FormatParse) (record : Nat × Members) :
    Except Failure FormatParse :=
  if Parse.isClaudeRecord record.2 then do
    let (state, entry) ← claudeRecord py state record.1 record.2
    state.add record.1 entry
  else .ok state

/-- A record parsed as Codex, whatever the other records are. -/
def codexAlone (py : Interpreter) (state : FormatParse) (record : Nat × Members) :
    Except Failure FormatParse :=
  match payloadOf record.2 with
  | some payload => Parse.stepCodex py state record.1 record.2 payload
  | none => .ok state

/-- All records parsed in one format. -/
def parseAlone (py : Interpreter) (agentType : AgentType) (records : List (Nat × Members)) :
    Except Failure ParsedTranscript :=
  (match agentType with
    | .claudeCode => records.foldlM (claudeAlone py) (.new .claudeCode)
    | .codex => records.foldlM (codexAlone py) (.new .codex)).map FormatParse.parsed

/-- A content is read, and its records parsed in the format they follow. -/
def twoPasses (py : Interpreter) (content : Content) : Except Failure ParsedTranscript := do
  let records ← readRecords py content
  parseAlone py (detectAgentType (records.map Prod.snd)) records

/-- The records of the lines before the first one that cannot be read, and what reading it
raises. -/
def readUpTo (py : Interpreter) : List (RawLine × Nat) → List (Nat × Members) × Option Failure
  | [] => ([], none)
  | line :: rest =>
    match readLine line.2 line.1 >>= readRecord py line.2 with
    | .error failure => ([], some failure)
    | .ok none => readUpTo py rest
    | .ok (some record) => ((line.2, record) :: (readUpTo py rest).1, (readUpTo py rest).2)

/-- The error of a Codex rollout. -/
def codexError (py : Interpreter) (records : List (Nat × Members)) : Option Failure :=
  match detectAgentType (records.map Prod.snd), records.foldlM (codexAlone py) (.new .codex) with
  | .codex, .error failure => some failure
  | _, _ => none

section
variable {py : Interpreter} {record : Members} {lineNumber : Nat}

/-! ## The lines -/

/-- What reading all lines gives. -/
theorem readRecordsFrom_eq (lines : List (RawLine × Nat)) :
    readRecordsFrom py lines = (readUpTo py lines).2.elim (.ok (readUpTo py lines).1) .error := by
  induction lines with
  | nil => rfl
  | cons line rest ih =>
    have hread : readRecordsFrom py (line :: rest)
        = (readLine line.2 line.1 >>= readRecord py line.2) >>= fun record =>
          readRecordsFrom py rest >>= fun records =>
            .ok (match record with
              | some record => (line.2, record) :: records
              | none => records) := by
      rw [readRecordsFrom]
      cases readLine line.2 line.1 <;> rfl
    rw [hread, readUpTo, ih]
    cases readLine line.2 line.1 >>= readRecord py line.2 with
    | error failure => rfl
    | ok record =>
      cases record with
      | none => cases (readUpTo py rest).2 <;> rfl
      | some record => cases (readUpTo py rest).2 <;> rfl

/-- Where the reading succeeds, it reaches the last line. -/
theorem readUpTo_of_ok {lines : List (RawLine × Nat)} {records : List (Nat × Members)}
    (h : readRecordsFrom py lines = .ok records) : readUpTo py lines = (records, none) := by
  rw [readRecordsFrom_eq] at h
  cases hfailure : (readUpTo py lines).2 with
  | some failure =>
    rw [hfailure] at h
    cases h
  | none =>
    rw [hfailure] at h
    exact Prod.ext (Except.ok.inj h) hfailure

/-- The loop over the lines is the loop over the records before the first line that cannot be read,
and then the error of this line. -/
theorem foldlM_stepLine (lines : List (RawLine × Nat)) (parse : Parse) :
    lines.foldlM (Parse.stepLine py) parse
      = (readUpTo py lines).1.foldlM (fun parse record => parse.step py record.1 record.2) parse
        >>= fun parse => (readUpTo py lines).2.elim (.ok parse) .error := by
  induction lines generalizing parse with
  | nil => rfl
  | cons line rest ih =>
    have hline : Parse.stepLine py parse line
        = (readLine line.2 line.1 >>= readRecord py line.2) >>= fun record =>
          record.elim (.ok parse) fun record => parse.step py line.2 record := by
      rw [Parse.stepLine]
      cases readLine line.2 line.1 with
      | error failure => rfl
      | ok text =>
        show (readRecord py line.2 text >>= _) = (readRecord py line.2 text >>= _)
        congr 1
        funext record
        cases record <;> rfl
    rw [List.foldlM_cons, hline, readUpTo]
    cases readLine line.2 line.1 >>= readRecord py line.2 with
    | error failure => rfl
    | ok record =>
      cases record with
      | none => exact ih parse
      | some record =>
        show (parse.step py line.2 record >>= fun next => rest.foldlM (Parse.stepLine py) next) = _
        rw [List.foldlM_cons, bind_assoc]
        exact congrArg _ (funext ih)

/-- A record comes from a line within the depth limit. -/
theorem readRecord_depth {line : Str} (h : readRecord py lineNumber line = .ok (some record)) :
    Value.depthMembers record + 1 ≤ MAX_LINE_DEPTH := by
  rw [readRecord] at h
  split_ifs at h
  · cases h
  obtain ⟨_, hcheck, h⟩ := bind_eq_ok.mp h
  split at h
  case h_4 r hload =>
    cases h
    exact loads_depth_le (passesDepth_of_check hcheck) hload
  all_goals cases h

/-- Every record that is read is within the depth limit. -/
theorem readUpTo_depth (lines : List (RawLine × Nat)) :
    ∀ r ∈ (readUpTo py lines).1, Value.depthMembers r.2 + 1 ≤ MAX_LINE_DEPTH := by
  induction lines with
  | nil => exact List.forall_mem_nil _
  | cons line rest ih =>
    rw [readUpTo]
    cases hfound : readLine line.2 line.1 >>= readRecord py line.2 with
    | error failure => exact List.forall_mem_nil _
    | ok found =>
      cases found with
      | none => exact ih
      | some record =>
        obtain ⟨text, _, hrecord⟩ := bind_eq_ok.mp hfound
        exact List.forall_mem_cons.mpr ⟨readRecord_depth hrecord, ih⟩

/-! ## The errors of the Claude Code parse -/

theorem depth_find {members : Members} {name : Str} {value : Value}
    (h : find members name = some value) : value.depth ≤ Value.depthMembers members := by
  induction members with
  | nil => cases h
  | cons member rest ih =>
    obtain ⟨key, old⟩ := member
    show value.depth ≤ max old.depth (Value.depthMembers rest)
    rw [find] at h
    by_cases hkey : key = name
    · rw [if_pos hkey] at h
      cases h
      exact le_max_left _ _
    · rw [if_neg hkey] at h
      exact le_trans (ih h) (le_max_right _ _)

theorem depth_get (members : Members) (name : String) :
    (get members name).depth ≤ Value.depthMembers members := by
  show ((find members (str name)).getD .none).depth ≤ _
  cases h : find members (str name) with
  | none => exact Nat.zero_le _
  | some value => exact depth_find h

/-- The blocks that are kept are nested no deeper than all of them. -/
theorem depthItems_filter (keep : Value → Bool) (items : List Value) :
    Value.depthItems (items.filter keep) ≤ Value.depthItems items := by
  induction items with
  | nil => exact Nat.le_refl _
  | cons item rest ih =>
    show _ ≤ max item.depth (Value.depthItems rest)
    by_cases hkeep : keep item = true
    · rw [List.filter_cons_of_pos hkeep]
      show max item.depth _ ≤ _
      omega
    · rw [List.filter_cons_of_neg hkeep]
      omega

/-- A message's content is nested no deeper than the record. -/
theorem depth_contentOf (record : Members) :
    (contentOf record).depth ≤ Value.depthMembers record + 1 := by
  have hmessage : Value.depthMembers (messageOf record) ≤ Value.depthMembers record := by
    have hget := depth_get record "message"
    rw [messageOf]
    split
    · next message hdict =>
      rw [hdict] at hget
      have hdepth : (Value.dict message).depth = Value.depthMembers message + 1 := rfl
      omega
    · exact Nat.zero_le _
  have hget := depth_get (messageOf record) "content"
  rw [contentOf]
  split
  · show 0 + 1 ≤ _
    omega
  · omega

/-- A `TranscriptError` or a `TranscriptLimitError`. -/
def Documented (failure : Failure) : Prop := failure.isDocumented = true

theorem stringField_documented (value : Value) (field : Field) :
    ErrorsIn Documented (stringField value field lineNumber) := by
  unfold stringField
  split
  · exact .ok _
  · exact .ite (fun _ => .error rfl) fun _ => .ok _
  · exact .error rfl

theorem setField_documented (old : Option Str) (value : Value) (field : Field) :
    ErrorsIn Documented (setField old value field lineNumber) :=
  .ite (fun _ => stringField_documented value field) fun _ => .ok _

theorem checkRoom_documented (state : FormatParse) : ErrorsIn Documented state.checkRoom :=
  .ite (fun _ => .error rfl) fun _ => .ok _

theorem add_documented (state : FormatParse) (entry : NewEntry) :
    ErrorsIn Documented (state.add lineNumber entry) := by
  rw [FormatParse.add]
  split
  · exact .ok _
  · exact .ite (fun _ => .error rfl) fun _ => .ite (fun _ => .error rfl) fun _ => .ok _

/-- The tool calls of a record within the writer's limit can be written. -/
theorem extractToolCalls_documented {content : Value} (h : content.depth ≤ py.writerDepth) :
    ErrorsIn Documented (extractToolCalls py content) := by
  unfold extractToolCalls
  split
  · next blocks =>
    refine .ite (fun _ => .ok _) fun _ => .map _ ?_
    have hfilter := depthItems_filter isToolUse blocks
    have hblocks : Value.depthItems blocks + 1 ≤ py.writerDepth := h
    have hdepth : (Value.list (blocks.filter isToolUse)).depth ≤ py.writerDepth := by
      show Value.depthItems (blocks.filter isToolUse) + 1 ≤ _
      omega
    rw [toolCallsJson, Value.dumps, if_pos hdepth]
    exact .ok _
  · exact .ok _

/-- The Claude Code parse of a record within the depth limit raises documented errors only. -/
theorem claudeAlone_documented (hwriter : MAX_LINE_DEPTH ≤ py.writerDepth)
    (hdepth : Value.depthMembers record + 1 ≤ MAX_LINE_DEPTH) (state : FormatParse) :
    ErrorsIn Documented (claudeAlone py state (lineNumber, record)) := by
  refine .ite (fun _ => ?_) fun _ => .ok _
  refine .bind ?_ fun next _ => add_documented next.1 next.2
  refine .bind (checkRoom_documented state) fun _ _ => ?_
  refine .bind (stringField_documented _ _) fun _ _ => ?_
  refine .bind (setField_documented _ _ _) fun _ _ => ?_
  refine .bind (setField_documented _ _ _) fun _ _ => ?_
  refine .bind (setField_documented _ _ _) fun _ _ => ?_
  refine .bind (stringField_documented _ _) fun _ _ => ?_
  have hcontent := le_trans (depth_contentOf record) (le_trans hdepth hwriter)
  exact .bind (extractToolCalls_documented hcontent) fun _ _ => .ok _

/-! ## The relation -/

/-- Before the first Codex record, the loop holds both parses; an error of the Claude Code
parse is held back. -/
inductive Stands : Parse → Except Failure FormatParse → FormatParse → Prop
  | running (claude codex : FormatParse) : Stands ⟨some claude, codex, none⟩ (.ok claude) codex
  | failed (claude codex : FormatParse) (failure : Failure) :
      Stands ⟨some claude, codex, some failure⟩ (.error failure) codex

/-- A documented error is held back. -/
theorem refuse_stands {claude state codex : FormatParse} {failure : Failure}
    (h : Documented failure) :
    ∃ parse, Parse.refuse ⟨some claude, codex, none⟩ state failure = .ok parse
      ∧ Stands parse (.error failure) codex := by
  refine ⟨_, if_pos h, ?_⟩
  exact .failed _ codex failure

/-- A Claude Code record in the loop and alone. -/
theorem stepClaude_stands {claude codex : FormatParse}
    (hdocumented : ErrorsIn Documented (claudeAlone py claude (lineNumber, record)))
    (hrecord : Parse.isClaudeRecord record = true) :
    ∃ parse, Parse.stepClaude py ⟨some claude, codex, none⟩ claude lineNumber record = .ok parse
      ∧ Stands parse (claudeAlone py claude (lineNumber, record)) codex := by
  rw [claudeAlone, if_pos hrecord] at hdocumented ⊢
  unfold Parse.stepClaude
  cases hnext : claudeRecord py claude lineNumber record with
  | error failure =>
    rw [hnext] at hdocumented
    exact refuse_stands (hdocumented failure rfl)
  | ok next =>
    obtain ⟨state, entry⟩ := next
    rw [hnext] at hdocumented
    dsimp only
    show ∃ parse, _ ∧ Stands parse (state.add lineNumber entry) codex
    cases hadd : state.add lineNumber entry with
    | error failure => exact refuse_stands (hdocumented failure hadd)
    | ok claude => exact ⟨_, rfl, .running claude codex⟩

/-- A record that is no Codex record moves the Codex parse by its timestamp only. -/
theorem codexAlone_note {codex : FormatParse} {payload : Members}
    (hpayload : payloadOf record = some payload) (hcodex : isCodexRecord record = false) :
    codexAlone py codex (lineNumber, record)
      = .ok (codex.note (parseTimestamp py (get record "timestamp"))) := by
  have htype : isAnyText (get record "type")
      ["session_meta", "turn_context", "response_item", "event_msg"] = false := by
    rw [isCodexRecord, hpayload, Option.isSome_some, Bool.and_true] at hcodex
    exact hcodex
  simp only [isAnyText, List.any_cons, List.any_nil, Bool.or_false, Bool.or_eq_false_iff] at htype
  obtain ⟨hmeta, hturn, hitem, _⟩ := htype
  simp only [codexAlone, hpayload, Parse.stepCodex, codexRecord, hmeta, hturn, hitem,
    Bool.false_eq_true, if_false]
  rfl

/-- One record before the first Codex record. -/
theorem Stands.step {parse : Parse} {claude : Except Failure FormatParse} {codex : FormatParse}
    (hstands : Stands parse claude codex) (hcodex : isCodexRecord record = false)
    (hdocumented : ∀ state, ErrorsIn Documented (claudeAlone py state (lineNumber, record))) :
    ∃ parse' codex', parse.step py lineNumber record = .ok parse'
      ∧ codexAlone py codex (lineNumber, record) = .ok codex'
      ∧ Stands parse' (claude >>= fun state => claudeAlone py state (lineNumber, record)) codex' := by
  -- What the record's payload does: the Codex half moves, the Claude Code half stays.
  have hpayload : ∃ codex', codexAlone py codex (lineNumber, record) = .ok codex'
      ∧ (∀ state, Parse.step py ⟨some state, codex, none⟩ lineNumber record
        = if Parse.isClaudeRecord record then
            Parse.stepClaude py ⟨some state, codex', none⟩ state lineNumber record
          else .ok ⟨some state, codex', none⟩)
      ∧ ∀ state failure, Parse.step py ⟨some state, codex, some failure⟩ lineNumber record
        = .ok ⟨some state, codex', some failure⟩ := by
    cases hfound : payloadOf record with
    | none =>
      refine ⟨codex, by rw [codexAlone, hfound], fun state => ?_, fun state failure => ?_⟩
      all_goals
        rw [Parse.step, hfound]
        rfl
    | some payload =>
      refine ⟨_, codexAlone_note hfound hcodex, fun state => ?_, fun state failure => ?_⟩
      all_goals
        rw [Parse.step, hfound]
        simp only [Parse.stepPayload, hcodex]
        rfl
  obtain ⟨codex', halone, hrunning, hfailed⟩ := hpayload
  cases hstands with
  | failed state _ failure =>
    exact ⟨_, codex', hfailed state failure, halone, .failed state codex' failure⟩
  | running state _ =>
    rw [hrunning]
    by_cases hrecord : Parse.isClaudeRecord record = true
    · obtain ⟨parse', hparse, hnext⟩ := @stepClaude_stands _ _ _ _ codex' (hdocumented state) hrecord
      rw [if_pos hrecord]
      exact ⟨parse', codex', hparse, halone, hnext⟩
    · have hskip : claudeAlone py state (lineNumber, record) = .ok state := by
        rw [claudeAlone, if_neg hrecord]
      rw [if_neg hrecord]
      refine ⟨_, codex', rfl, halone, ?_⟩
      show Stands _ (claudeAlone py state (lineNumber, record)) codex'
      rw [hskip]
      exact .running state codex'

/-- A Codex rollout: the loop is the Codex parse. -/
theorem step_codex (codex : FormatParse) :
    Parse.step py ⟨none, codex, none⟩ lineNumber record
      = (codexAlone py codex (lineNumber, record)).map fun codex => ⟨none, codex, none⟩ := by
  rw [Parse.step, codexAlone]
  cases payloadOf record with
  | none => rfl
  | some payload =>
    simp only [Parse.stepPayload, Option.isNone_none, true_or, if_true]
    cases Parse.stepCodex py codex lineNumber record payload <;> rfl

/-- The first Codex record. -/
theorem Stands.switch {parse : Parse} {claude : Except Failure FormatParse} {codex : FormatParse}
    (hstands : Stands parse claude codex) (hcodex : isCodexRecord record = true) :
    parse.step py lineNumber record
      = (codexAlone py codex (lineNumber, record)).map fun codex => ⟨none, codex, none⟩ := by
  rw [← step_codex codex]
  have hpayload : (payloadOf record).isSome = true := by
    rw [isCodexRecord, Bool.and_eq_true] at hcodex
    exact hcodex.2
  obtain ⟨payload, hfound⟩ := Option.isSome_iff_exists.mp hpayload
  rw [Parse.step, Parse.step, hfound]
  simp only [Parse.stepPayload, hcodex, or_true, if_true]
  cases hstands <;> rfl

/-! ## The whole loop -/

/-- After the first Codex record. -/
theorem foldlM_codex (records : List (Nat × Members)) (codex : FormatParse) :
    records.foldlM (fun (parse : Parse) record => parse.step py record.1 record.2) ⟨none, codex, none⟩
      = (records.foldlM (codexAlone py) codex).map fun codex => ⟨none, codex, none⟩ := by
  induction records generalizing codex with
  | nil => rfl
  | cons r rest ih =>
    rw [List.foldlM_cons, List.foldlM_cons, step_codex]
    cases codexAlone py codex r with
    | error failure => rfl
    | ok next => exact ih next

/-- Before the first Codex record. -/
theorem Stands.run {records : List (Nat × Members)} {parse : Parse}
    {claude : Except Failure FormatParse} {codex : FormatParse} (hstands : Stands parse claude codex)
    (hcodex : ∀ r ∈ records, isCodexRecord r.2 = false)
    (hdocumented : ∀ r ∈ records, ∀ state, ErrorsIn Documented (claudeAlone py state r)) :
    ∃ parse' codex',
      records.foldlM (fun (parse : Parse) record => parse.step py record.1 record.2) parse = .ok parse'
      ∧ Stands parse' (claude >>= fun state => records.foldlM (claudeAlone py) state) codex' := by
  induction records generalizing parse claude codex with
  | nil =>
    refine ⟨parse, codex, rfl, ?_⟩
    cases hstands
    · exact .running _ codex
    · exact .failed _ codex _
  | cons r rest ih =>
    obtain ⟨next, codex', hstep, _, hnext⟩ :=
      hstands.step (hcodex r List.mem_cons_self) (hdocumented r List.mem_cons_self)
    obtain ⟨parse', codex'', hrun, hlast⟩ := ih hnext
      (fun r' hr' => hcodex r' (List.mem_cons_of_mem r hr'))
      (fun r' hr' => hdocumented r' (List.mem_cons_of_mem r hr'))
    refine ⟨parse', codex'', ?_, ?_⟩
    · rw [List.foldlM_cons, hstep]
      exact hrun
    · cases claude <;> exact hlast

/-- From a state before the first Codex record on, when there is one. -/
theorem Stands.run_codex {records : List (Nat × Members)} {parse : Parse}
    {claude : Except Failure FormatParse} {codex : FormatParse} (hstands : Stands parse claude codex)
    (hcodex : (records.map Prod.snd).any isCodexRecord = true)
    (hdocumented : ∀ r ∈ records, ∀ state, ErrorsIn Documented (claudeAlone py state r)) :
    records.foldlM (fun (parse : Parse) record => parse.step py record.1 record.2) parse
      = (records.foldlM (codexAlone py) codex).map fun codex => ⟨none, codex, none⟩ := by
  induction records generalizing parse claude codex with
  | nil => cases hcodex
  | cons r rest ih =>
    rw [List.foldlM_cons, List.foldlM_cons]
    cases hfirst : isCodexRecord r.2 with
    | true =>
      rw [hstands.switch hfirst]
      cases codexAlone py codex r with
      | error failure => rfl
      | ok next => exact foldlM_codex rest next
    | false =>
      obtain ⟨parse', codex', hstep, halone, hnext⟩ :=
        hstands.step hfirst (hdocumented r List.mem_cons_self)
      rw [List.map_cons, List.any_cons, hfirst, Bool.false_or] at hcodex
      rw [hstep, halone]
      exact ih hnext hcodex fun r' hr' => hdocumented r' (List.mem_cons_of_mem r hr')

/-- The records that are read raise only documented errors in the Claude Code parse. -/
theorem readUpTo_documented (hwriter : MAX_LINE_DEPTH ≤ py.writerDepth)
    (lines : List (RawLine × Nat)) :
    ∀ r ∈ (readUpTo py lines).1, ∀ state, ErrorsIn Documented (claudeAlone py state r) := by
  intro r hr state
  exact claudeAlone_documented hwriter (readUpTo_depth lines r hr) state

/-- The loop over the records, from its start. -/
theorem foldlM_start {records : List (Nat × Members)}
    (hdocumented : ∀ r ∈ records, ∀ state, ErrorsIn Documented (claudeAlone py state r)) :
    (∃ failure, codexError py records = some failure
        ∧ records.foldlM (fun (parse : Parse) record => parse.step py record.1 record.2) Parse.start
          = .error failure)
      ∨ codexError py records = none ∧ ∃ parse,
        records.foldlM (fun (parse : Parse) record => parse.step py record.1 record.2) Parse.start
          = .ok parse
        ∧ parse.finish = parseAlone py (detectAgentType (records.map Prod.snd)) records := by
  have hstands : Stands Parse.start (.ok (.new .claudeCode)) (.new .codex) :=
    .running (.new .claudeCode) (.new .codex)
  cases hcodex : (records.map Prod.snd).any isCodexRecord with
  | true =>
    have hdetect : detectAgentType (records.map Prod.snd) = .codex := if_pos hcodex
    rw [codexError, hdetect, hstands.run_codex hcodex hdocumented, parseAlone]
    cases records.foldlM (codexAlone py) (.new .codex) with
    | error failure => exact .inl ⟨failure, rfl, rfl⟩
    | ok codex => exact .inr ⟨rfl, _, rfl, rfl⟩
  | false =>
    have hdetect : detectAgentType (records.map Prod.snd) = .claudeCode :=
      if_neg (Bool.eq_false_iff.mp hcodex)
    have hnone : ∀ r ∈ records, isCodexRecord r.2 = false := fun r hr => by
      have h := List.any_eq_false.mp hcodex r.2 (List.mem_map_of_mem hr)
      exact (Bool.not_eq_true _).mp h
    obtain ⟨parse, codex, hrun, hlast⟩ := hstands.run hnone hdocumented
    refine .inr ⟨by rw [codexError, hdetect], parse, hrun, ?_⟩
    rw [hdetect, parseAlone]
    generalize hclaude : (Except.ok (FormatParse.new .claudeCode) >>= fun state =>
      records.foldlM (claudeAlone py) state) = claude at hlast
    have hclaude : records.foldlM (claudeAlone py) (.new .claudeCode) = claude := hclaude
    show parse.finish = (records.foldlM (claudeAlone py) (.new .claudeCode)).map FormatParse.parsed
    rw [hclaude]
    cases hlast <;> rfl

/-- The parser does with records that are read what the reference does. -/
theorem parseTranscript_of_records (hwriter : MAX_LINE_DEPTH ≤ py.writerDepth) {content : Content}
    {records : List (Nat × Members)} (h : readRecords py content = .ok records) :
    parseTranscript py content = parseAlone py (detectAgentType (records.map Prod.snd)) records := by
  have hread := readUpTo_of_ok h
  have hdocumented := readUpTo_documented hwriter (content.lines.zipIdx 1)
  rw [hread] at hdocumented
  rw [parseTranscript, foldlM_stepLine, hread]
  rcases foldlM_start hdocumented with ⟨failure, hcodex, hrun⟩ | ⟨_, parse, hrun, hfinish⟩
  · rw [hrun]
    -- The reference raises the error of the Codex rollout.
    unfold codexError at hcodex
    split at hcodex
    · next hdetect halone =>
      obtain rfl := Option.some.inj hcodex
      rw [hdetect, parseAlone, halone]
      rfl
    · cases hcodex
  · rw [hrun]
    exact hfinish

/-- **The one-pass parser and its two-pass reference.** Where every line can be read, parsing in
one pass returns, or raises, what detecting the format over all records and then parsing them in it
does. Otherwise both raise: the reference what reading the line raises, and the parser too, unless
the records before the line are a Codex rollout whose parse has raised. -/
theorem one_pass (hwriter : MAX_LINE_DEPTH ≤ py.writerDepth) (content : Content) :
    ((readUpTo py (content.lines.zipIdx 1)).2 = none →
        parseTranscript py content = twoPasses py content)
      ∧ ∀ failure, (readUpTo py (content.lines.zipIdx 1)).2 = some failure →
        twoPasses py content = .error failure
          ∧ parseTranscript py content
            = .error ((codexError py (readUpTo py (content.lines.zipIdx 1)).1).getD failure) := by
  have hread : readRecords py content = _ := readRecordsFrom_eq (content.lines.zipIdx 1)
  constructor
  · intro hnone
    rw [hnone] at hread
    rw [parseTranscript_of_records hwriter hread, twoPasses, hread]
    rfl
  · intro failure hsome
    rw [hsome] at hread
    refine ⟨by rw [twoPasses, hread]; rfl, ?_⟩
    rw [parseTranscript, foldlM_stepLine, hsome]
    rcases foldlM_start (readUpTo_documented hwriter (content.lines.zipIdx 1)) with
      ⟨other, hcodex, hrun⟩ | ⟨hcodex, parse, hrun, _⟩
    · rw [hrun, hcodex]
      rfl
    · rw [hrun, hcodex]
      rfl

/-- An interpreter for texts without floats and timestamps. -/
def plainInterpreter : Interpreter where
  readerDepth := 990
  writerDepth := 990
  float := fun _ => floatNaN
  strOf := fun _ => []
  fromTimestamp := fun _ => none
  fromIsoformat := fun _ => none

/-- A prompt, and then the first record of a Codex rollout. -/
def promptThenCodex : Content :=
  .text (str "\x7b\"type\":\"user\",\"message\":7\x7d\n\x7b\"type\":\"event_msg\",\"payload\":\x7b\x7d\x7d")

/-- `one_pass` for a prompt that the first Codex record drops. -/
theorem one_pass_promptThenCodex :
    (twoPasses plainInterpreter promptThenCodex).toOption.isSome = true
    ∧ parseTranscript plainInterpreter promptThenCodex
      = twoPasses plainInterpreter promptThenCodex :=
  ⟨by decide +kernel, (one_pass (by decide) promptThenCodex).1 (by decide +kernel)⟩

/-- A line with an int of this many digits. -/
def onesLine (count : Nat) : Str :=
  str "\x7b\"n\":" ++ List.replicate count (.ofChar '1') ++ str "\x7d"

/-- The reader in the int. -/
private theorem foldlM_ones {py : Interpreter} {stack : List Frame} (count : Nat) (whole : Str) :
    (List.replicate count (.ofChar '1')).foldlM (Reader.step py) ⟨stack, .number ⟨.whole, whole, []⟩⟩
      = .ok ⟨stack, .number ⟨.whole, whole ++ List.replicate count (.ofChar '1'), []⟩⟩ := by
  induction count generalizing whole with
  | zero =>
    rw [List.replicate_zero, List.append_nil]
    rfl
  | succ count ih =>
    rw [List.replicate_succ, List.foldlM_cons]
    refine (ih (whole ++ [.ofChar '1'])).trans ?_
    rw [List.append_assoc]
    rfl

/-- So many ones are an int of so many digits. -/
private theorem digits_ones (count : Nat) :
    count < digitCount (intOfText (List.replicate (count + 1) (.ofChar '1'))).natAbs := by
  have hvalue : intOfText (List.replicate (count + 1) (.ofChar '1'))
      = digitsValue (List.replicate (count + 1) (.ofChar '1')) := rfl
  rw [hvalue, Int.natAbs_natCast, digitCount, Nat.lt_digits_length_iff (by decide)]
  induction count with
  | zero => decide
  | succ count ih =>
    have hlast : digitsValue (List.replicate (count + 1 + 1) (.ofChar '1'))
        = digitsValue (List.replicate (count + 1) (.ofChar '1')) * 10 + 1 := by
      rw [List.replicate_succ', digitsValue, List.foldl_append]
      rfl
    rw [hlast, Nat.pow_succ]
    exact Nat.le_add_right_of_le (Nat.mul_le_mul_right 10 (ih rfl))

/-- An int with too many digits ends the reading. -/
private theorem loads_onesLine {count : Nat}
    (hlong : MAX_STR_DIGITS ≤ count) :
    loads plainInterpreter (onesLine (count + 1)) = .error .number := by
  have hopen : (str "\x7b\"n\":").foldlM (Reader.step plainInterpreter) ⟨[], .value⟩
      = .ok ⟨[.member [] (str "n")], .value⟩ := rfl
  have hdigits : (List.replicate (count + 1) (.ofChar '1')).foldlM (Reader.step plainInterpreter)
      ⟨[.member [] (str "n")], .value⟩ = .ok ⟨[.member [] (str "n")],
        .number ⟨.whole, List.replicate (count + 1) (.ofChar '1'), []⟩⟩ := by
    rw [List.replicate_succ, List.foldlM_cons]
    exact foldlM_ones count [.ofChar '1']
  have hend : (str "\x7d").foldlM (Reader.step plainInterpreter) ⟨[.member [] (str "n")],
      .number ⟨.whole, List.replicate (count + 1) (.ofChar '1'), []⟩⟩ = .error .number := by
    rw [show str "\x7d" = [.ofChar '\x7d'] from rfl, List.foldlM_cons]
    show ((readInt (List.replicate (count + 1) (.ofChar '1')) >>= _) >>= _) = _
    rw [readInt, dif_neg (Nat.not_le.mpr (Nat.lt_of_le_of_lt hlong (digits_ones count)))]
    rfl
  have hfold : (onesLine (count + 1)).foldlM (Reader.step plainInterpreter) ⟨[], .value⟩
      = .error .number := by
    rw [onesLine, List.foldlM_append, List.foldlM_append, hopen]
    show (List.foldlM _ _ _ >>= _) = _
    rw [hdigits]
    exact hend
  have hhead : (onesLine (count + 1)).head? ≠ some (.ofNat 0xFEFF) := by
    show some (CodePoint.ofChar '\x7b') ≠ some (.ofNat 0xFEFF)
    decide
  rw [loads, if_neg hhead]
  show (List.foldlM _ _ _ >>= _) = _
  rw [hfold]
  rfl

/-- The line cannot be read. -/
private theorem read_onesLine {count : Nat} (hcount : count ≤ MAX_ENTRY_BYTES / 8)
    (hlong : MAX_STR_DIGITS ≤ count)
    (lineNumber : Nat) :
    (readLine lineNumber (.text (onesLine (count + 1))) >>= readRecord plainInterpreter lineNumber)
      = .error .valueError := by
  have hlength : (onesLine (count + 1)).length = count + 7 := by
    simp [onesLine, str]
  have hsize : ¬utf8Length (onesLine (count + 1)) > MAX_ENTRY_BYTES := by
    rw [utf8Length, hlength]
    have hlimit : MAX_ENTRY_BYTES = 8388608 := rfl
    rw [if_pos (by omega)]
    omega
  have hstrip : strip (onesLine (count + 1)) = onesLine (count + 1) := by
    refine strip_of_ends (fun c hc => ?_) fun c hc => ?_
    · cases hc
      decide
    · rw [onesLine, List.getLast?_append] at hc
      cases hc
      decide
  have hopens : opens (onesLine (count + 1)) ≤ MAX_LINE_DEPTH := by
    rw [opens, onesLine, List.countP_append, List.countP_append, List.countP_replicate,
      if_neg (by decide)]
    decide
  rw [readLine, if_neg hsize, hstrip]
  show readRecord plainInterpreter lineNumber (onesLine (count + 1)) = _
  have hempty : ¬(onesLine (count + 1)).isEmpty = true := Bool.false_ne_true
  rw [readRecord, if_neg hempty, checkLineDepth, if_neg (fun h => h.2.1 hopens)]
  dsimp only [bind, Except.bind]
  rw [loads_onesLine hlong]

/-- A Codex record with a number for a path. -/
def codexLine : Str := str "\x7b\"type\":\"session_meta\",\"payload\":\x7b\"cwd\":7\x7d\x7d"

/-- That record, and then a line with an int of this many digits. -/
def codexThenNumber (count : Nat) : Content :=
  .text (codexLine ++ str "\n" ++ (onesLine count ++ str "\n" ++ []))

/-- The members of the record. -/
private def codexMembers : Members :=
  [(str "type", .str (str "session_meta")), (str "payload", .dict [(str "cwd", .int ⟨7, by decide⟩)])]

/-- The record is read. -/
private theorem read_codexLine :
    (readLine 1 (.text codexLine) >>= readRecord plainInterpreter 1) = .ok (some codexMembers) := by
  rfl

/-- What is read of the content. -/
private theorem readUpTo_codexThenNumber {count : Nat} (hcount : count ≤ MAX_ENTRY_BYTES / 8)
    (hlong : MAX_STR_DIGITS ≤ count) :
    readUpTo plainInterpreter ((codexThenNumber (count + 1)).lines.zipIdx 1)
      = ([(1, codexMembers)], some .valueError) := by
  have hones : ∀ c ∈ onesLine (count + 1), c.isLineBreak = false := by
    intro c hc
    rw [onesLine, List.mem_append, List.mem_append] at hc
    have hplain : ∀ text ∈ ["\x7b\"n\":", "\x7d"], ∀ c ∈ str text, c.isLineBreak = false := by
      decide
    rcases hc with (hc | hc) | hc
    · exact hplain _ (by decide) c hc
    · rw [List.eq_of_mem_replicate hc]
      decide
    · exact hplain _ (by decide) c hc
  have hlines : (codexThenNumber (count + 1)).lines
      = [.text codexLine, .text (onesLine (count + 1))] := by
    rw [codexThenNumber, Content.lines, textLines_cons (by decide), textLines_cons hones]
    rfl
  rw [hlines]
  show readUpTo _ [(_, 1), (_, 2)] = _
  rw [readUpTo, readUpTo, read_codexLine, read_onesLine hcount hlong 2]

/-- The parser raises the error of the first record, before it reads the second line. The reference
reads both lines first. -/
private theorem differ_of_long {count : Nat} (hcount : count ≤ MAX_ENTRY_BYTES / 8)
    (hlong : MAX_STR_DIGITS ≤ count) :
    parseTranscript plainInterpreter (codexThenNumber (count + 1))
        = .error (.invalid (.notString 1 .payloadCwd "int"))
      ∧ twoPasses plainInterpreter (codexThenNumber (count + 1)) = .error .valueError := by
  have hread := readUpTo_codexThenNumber hcount hlong
  constructor
  · rw [parseTranscript, foldlM_stepLine, hread]
    rfl
  · rw [twoPasses, readRecords, readRecordsFrom_eq, hread]
    rfl

/-- The parser and the reference differ on a Codex record that is refused and a line after it that
cannot be read. -/
theorem number_after_codexError :
    parseTranscript plainInterpreter (codexThenNumber 4301)
        = .error (.invalid (.notString 1 .payloadCwd "int"))
      ∧ twoPasses plainInterpreter (codexThenNumber 4301) = .error .valueError :=
  differ_of_long (by decide) (Nat.le_refl MAX_STR_DIGITS)

end

end TrustPortal.Proofs.Transcript
