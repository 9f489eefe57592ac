import TrustPortal.Proofs.Transcript.Fragments
import TrustPortal.Proofs.Transcript.Written

/-!
# `TrustPortal.Proofs.Transcript.Reconstruct`: parsing a reconstruction

`RoundTrips` is what the module promises of a stored version: its reconstruction is written, and
parsing it gives exactly the stored entries. `round_trips_iff` says when that holds of the
entries of a transcript that parses: each entry's line must be `Rereadable`. No text in it holds
U+0085, U+2028 or U+2029, at which the parser ends the line; the line is within the size that
the parser takes; and the tool calls are nested no deeper than a line may be, with no unpaired
high surrogate directly before an unpaired low one, which reading them back would join.

The promise fails on ordinary text: `separator_not_reread` is an answer with one U+2028.
-/

set_option autoImplicit false

namespace TrustPortal.Proofs.Transcript

open TrustPortal.Lib
open TrustPortal.Python
open TrustPortal.Transcript
open TrustPortal.DecisionLog (isoformat)

/-- The line of an entry with these tool calls is read as the entry. -/
structure LineReadable (py : Interpreter) (session : SessionRow) (first : Bool) (entry : Entry)
    (blocks : List Value) : Prop where
  calls : entry.toolCalls
    = if blocks.isEmpty then none else some (toolCallsText (.list blocks))
  uses : ∀ block ∈ blocks, isToolUse block = true
  good : Good NoPair (ReadsBack py) (.list blocks)
  depth : (Value.list blocks).depth + 2 ≤ MAX_LINE_DEPTH
  unbroken : ∀ text ∈ entryTexts entry first session, breaks text = false
  size : (encodePass (lineText entry first session blocks)).length ≤ MAX_ENTRY_BYTES

/-- An entry whose tool calls are those of some blocks, with which its line is read back. -/
def Rereadable (py : Interpreter) (session : SessionRow) (first : Bool) (entry : Entry) : Prop :=
  ∃ blocks, LineReadable py session first entry blocks

/-- Every line of the entries is read back. -/
def LinesRereadable (py : Interpreter) (session : SessionRow) : Bool → List Entry → Prop
  | _, [] => True
  | first, entry :: entries =>
    Rereadable py session first entry ∧ LinesRereadable py session false entries

/-- The reconstruction of the entries is written, and parsing it gives the entries. -/
def RoundTrips (py : Interpreter) (session : SessionRow) (entries : List Entry) : Prop :=
  ∃ text parsed, reconstruct py session entries = some text
    ∧ parseTranscript py (.bytes text) = .ok parsed ∧ parsed.entries = entries

section
variable {py : Interpreter} {entry : Entry} {first : Bool} {session : SessionRow}
  {blocks : List Value} {state : FormatParse} {lineNumber : Nat}

/-! ## A line that is read back -/

private theorem isDict_of_isToolUse {block : Value} (h : isToolUse block = true) :
    isDict block = true := by
  cases block with
  | dict members => rfl
  | none | bool _ | int _ | float _ | str _ | list _ => cases h

/-- Tool calls that are the text of some blocks are decoded to the blocks. -/
theorem storedBlocks_calls (hcalls : entry.toolCalls
      = if blocks.isEmpty then none else some (toolCallsText (.list blocks)))
    (huses : ∀ block ∈ blocks, isToolUse block = true)
    (hgood : Good NoPair (ReadsBack py) (.list blocks))
    (hdepth : (Value.list blocks).depth ≤ py.readerDepth) :
    storedBlocks py entry.toolCalls = some blocks := by
  rw [hcalls]
  cases blocks with
  | nil => rfl
  | cons block rest =>
    have hloads : loads py (toolCallsText (.list (block :: rest))) = .ok (.list (block :: rest)) := by
      rw [toolCallsText, escapeSurrogates_render]
      exact loads_render escapes_stored hgood hdepth
    have hdicts : (block :: rest).filter isDict = block :: rest :=
      List.filter_eq_self.mpr fun b hb => isDict_of_isToolUse (huses b hb)
    have hne : (Option.some (toolCallsText (.list (block :: rest)))).filter (fun t => !t.isEmpty)
        = some (toolCallsText (.list (block :: rest))) := rfl
    show storedBlocks py (some (toolCallsText (.list (block :: rest)))) = _
    rw [storedBlocks, hne]
    dsimp only
    rw [hloads]
    exact congrArg some hdicts

/-- The stored tool calls of the line are decoded to its blocks. -/
theorem LineReadable.stored (h : LineReadable py session first entry blocks)
    (hreader : MAX_LINE_DEPTH ≤ py.readerDepth) :
    storedBlocks py entry.toolCalls = some blocks := by
  have hdepth := h.depth
  exact storedBlocks_calls h.calls h.uses h.good (by omega)

/-- The line is nested within the limit. -/
theorem LineReadable.record_depth (h : LineReadable py session first entry blocks) :
    (Value.dict (reconstructionRecord entry first session blocks)).depth ≤ MAX_LINE_DEPTH :=
  depth_record.2.trans (max_le (by decide) h.depth)

/-- A separator of the tool calls is one of their blocks' strings. -/
theorem breaks_calls (h : entry.toolCalls
      = if blocks.isEmpty then none else some (toolCallsText (.list blocks))) :
    entry.toolCalls.any breaks = (stringsItems blocks).any breaks := by
  rw [h]
  cases blocks with
  | nil => rfl
  | cons block rest => exact breaks_toolCallsText (block :: rest)

/-- The parser does not end the line before the line feed. -/
theorem LineReadable.one_line (h : LineReadable py session first entry blocks) :
    ∀ c ∈ lineText entry first session blocks, c.isLineBreak = false := by
  have htexts : (entryTexts entry first session).any breaks = false :=
    List.any_eq_false.mpr fun text htext => Bool.eq_false_iff.mp (h.unbroken text htext)
  have hline : (lineText entry first session blocks).any CodePoint.isLineBreak = false := by
    rw [lineText, any_isLineBreak_render, breaks_record, ← breaks_calls h.calls,
      ← breaks_entryTexts, htexts]
  exact fun c hc => Bool.eq_false_iff.mpr (List.any_eq_false.mp hline c hc)

/-- The line as a line of JSONL. -/
theorem LineReadable.exists_line (h : LineReadable py session first entry blocks)
    (hfits : EntryFits entry) (hsession : SessionFits session)
    (hreader : MAX_LINE_DEPTH ≤ py.readerDepth) :
    ∃ l : JsonLine py, l.line = lineText entry first session blocks
      ∧ l.record = reconstructionRecord entry first session blocks :=
  ⟨renderedLine hreader (fun _ => escapes_stored) _ (good_record hfits hsession h.good)
    h.record_depth h.size fun c hc => (lineText_chars c hc).2, List.append_nil _, rfl⟩

/-! ### The parser takes it -/

private theorem stringField_text {field : Field} {text : Option Str}
    (h : FieldFits field.limit text) : stringField (textValue text) field lineNumber = .ok text := by
  cases text with
  | none => rfl
  | some text =>
    obtain ⟨hlength, hclean⟩ := h text rfl
    show stringField (.str text) field lineNumber = .ok (some text)
    rw [stringField, cleanText_of_clean hclean, if_neg (Nat.not_lt.mpr hlength)]

private theorem setField_text {field : Field} {text : Option Str} (old : Option Str)
    (h : FieldFits field.limit text) :
    ∃ new, setField old (textValue text) field lineNumber = .ok new := by
  rw [setField, stringField_text h]
  split_ifs <;> exact ⟨_, rfl⟩

/-- A text of the session as the line has it. -/
private theorem given_text {limit : Nat} {text : Option Str} (h : FieldFits limit text) :
    ∃ text', FieldFits limit text'
      ∧ (if first then given text else none).getD .none = textValue text' := by
  cases first with
  | false => exact ⟨none, nofun, rfl⟩
  | true =>
    refine ⟨text.filter fun t => !t.isEmpty, fun t ht => h t (Option.filter_eq_some_iff.mp ht).1, ?_⟩
    rw [if_pos rfl, given]
    cases text.filter fun t => !t.isEmpty <;> rfl

private theorem orElse_textValue (text : Option Str) :
    Value.orElse (textValue text) .none = textValue (text.filter fun t => !t.isEmpty) := by
  cases text with
  | none => rfl
  | some text => cases text <;> rfl

/-- The parser makes an entry of the line, whatever it has read before. -/
theorem LineReadable.claudeRecord (h : LineReadable py session first entry blocks)
    (hfits : EntryFits entry) (hsession : SessionFits session)
    (hwriter : MAX_LINE_DEPTH ≤ py.writerDepth)
    (hroom : state.parsed.entries.length < MAX_TRANSCRIPT_ENTRIES) :
    ∃ next, claudeRecord py state lineNumber (reconstructionRecord entry first session blocks)
      = .ok next := by
  have hcheck : state.checkRoom = .ok () := if_neg (Nat.not_le.mpr hroom)
  have hrole : stringField (roleOf (reconstructionRecord entry first session blocks))
      .messageRole lineNumber = .ok entry.role := by
    rw [roleOf_record]
    exact stringField_text hfits.role
  have hid : stringField (get (messageOf (reconstructionRecord entry first session blocks)) "id")
      .messageId lineNumber = .ok entry.messageId := by
    rw [idOf_record]
    exact stringField_text hfits.messageId
  obtain ⟨model, hmodel, hmodelValue⟩ := @given_text first 100 _ hsession.model
  obtain ⟨cwd, hcwd, hcwdValue⟩ := @given_text first 500 _ hsession.cwd
  obtain ⟨gitBranch, hbranch, hbranchValue⟩ := @given_text first 200 _ hsession.gitBranch
  have hmodel' : FieldFits 100 (model.filter fun t => !t.isEmpty) :=
    fun t ht => hmodel t (Option.filter_eq_some_iff.mp ht).1
  obtain ⟨newModel, hnewModel⟩ := @setField_text lineNumber .model _ state.parsed.model hmodel'
  obtain ⟨newCwd, hnewCwd⟩ := @setField_text lineNumber .cwd _ state.parsed.cwd hcwd
  obtain ⟨newBranch, hnewBranch⟩ :=
    @setField_text lineNumber .gitBranch _ state.parsed.gitBranch hbranch
  have hcalls : ∃ calls, extractToolCalls py
      (contentOf (reconstructionRecord entry first session blocks)) = .ok calls := by
    have hfilter : ((entry.contentText.map textBlock).toList ++ blocks).filter isToolUse
        = blocks := by
      have htext : (entry.contentText.map textBlock).toList.filter isToolUse = [] := by
        cases entry.contentText <;> rfl
      rw [List.filter_append, htext, List.nil_append, List.filter_eq_self.mpr h.uses]
    have hdepth : (Value.list blocks).depth ≤ py.writerDepth := by
      have := h.depth
      omega
    rw [contentOf_record, extractToolCalls, hfilter, toolCallsJson, Value.dumps, if_pos hdepth]
    split_ifs <;> exact ⟨_, rfl⟩
  obtain ⟨calls, hcalls⟩ := hcalls
  refine ⟨_, bind_eq_ok.mpr ⟨(), hcheck, bind_eq_ok.mpr ⟨_, hrole, bind_eq_ok.mpr
    ⟨newModel, ?_, bind_eq_ok.mpr ⟨newCwd, ?_, bind_eq_ok.mpr ⟨newBranch, ?_, bind_eq_ok.mpr
      ⟨_, hid, bind_eq_ok.mpr ⟨calls, hcalls, rfl⟩⟩⟩⟩⟩⟩⟩⟩
  · rw [messageOf_record, get_message.2.2.2, get_record.2.2.2.1, hmodelValue, orElse_textValue]
    exact hnewModel
  · rw [get_record.2.1, hcwdValue]
    exact hnewCwd
  · rw [get_record.2.2.1, hbranchValue]
    exact hnewBranch

/-- An entry within the limits is added. -/
theorem add_succeeds {new : NewEntry} (hcalls : callsSize new.stored ≤ MAX_TOOL_CALLS_BYTES)
    (htotal : state.toolCallsTotal + callsSize new.stored ≤ MAX_TRANSCRIPT_TOOL_CALLS_BYTES) :
    ∃ state', state.add lineNumber new = .ok state' := by
  have hsize : callsSize new.stored
      = ((new.toolCalls.filter fun text => !text.isEmpty).map storedSize).getD 0 := rfl
  unfold FormatParse.add
  cases hfilter : new.toolCalls.filter fun text => !text.isEmpty with
  | none => exact ⟨_, rfl⟩
  | some text =>
    rw [hfilter] at hsize
    change callsSize new.stored = storedSize text at hsize
    dsimp only
    rw [if_neg (by omega), if_neg (by omega)]
    exact ⟨_, rfl⟩

/-- What the timestamps of a transcript are read back from. -/
def ClockReadsBack (py : Interpreter) : Prop :=
  ∀ value t, parseTimestamp py value = some t → py.fromIsoformat (str (isoformat t)) = some t

theorem Origin.clock (horigin : Origin py entry) (hclock : ClockReadsBack py) :
    ∀ t, entry.timestamp = some t → py.fromIsoformat (str (isoformat t)) = some t := by
  intro t ht
  obtain ⟨value, hvalue⟩ := horigin.timestamp t ht
  exact hclock value t hvalue

/-- **One line.** A line that is read back adds its entry to what was parsed before it, where the
limits allow it. -/
theorem LineReadable.step (h : LineReadable py session first entry blocks)
    (horigin : Origin py entry) (hsession : SessionFits session)
    (hwriter : MAX_LINE_DEPTH ≤ py.writerDepth) (hclock : ClockReadsBack py)
    (hstate : Within state) (hentries : EntriesWithin (state.parsed.entries ++ [entry])) :
    ∃ state', claudeAlone py state
        (lineNumber, reconstructionRecord entry first session blocks) = .ok state'
      ∧ Within state' ∧ state'.parsed.entries = state.parsed.entries ++ [entry] := by
  have hcount := hentries.count
  have htotal := hentries.total
  rw [List.length_append, List.length_singleton] at hcount
  rw [List.map_append, List.sum_append, List.map_singleton, List.sum_singleton] at htotal
  have hentry := @claudeEntry_record _ _ first session _ horigin (horigin.clock hclock)
    h.uses
  rw [← h.calls] at hentry
  obtain ⟨⟨next, new⟩, hnext⟩ := @LineReadable.claudeRecord _ _ _ _ _ state lineNumber h
    horigin.fits hsession hwriter (by omega)
  obtain ⟨hnew, hparsed, _⟩ := claudeRecord_ok hnext
  have hsize : callsSize new.stored = callsSize entry := by
    rw [hnew]
    exact congrArg callsSize hentry
  have hkept := (claudeRecord_within hnext).1
  have hcounted := hstate.counted
  have heach := hentries.each entry (List.mem_append_right _ (List.mem_singleton_self entry))
  obtain ⟨state', hadd⟩ := @add_succeeds next lineNumber new (by omega) (by omega)
  have hstep : claudeAlone py state
      (lineNumber, reconstructionRecord entry first session blocks) = .ok state' := by
    rw [claudeAlone, if_pos isClaudeRecord_record]
    exact bind_eq_ok.mpr ⟨_, hnext, hadd⟩
  refine ⟨state', hstep, claudeAlone_within hstate hstep, ?_⟩
  rw [(claudeAlone_ok hstep).1, if_pos isClaudeRecord_record, hentry]

/-- Entries at the start of some keep to the limits as well. -/
theorem EntriesWithin.of_append {entries rest : List Entry} (h : EntriesWithin (entries ++ rest)) :
    EntriesWithin entries := by
  have hcount := h.count
  have htotal := h.total
  rw [List.length_append] at hcount
  rw [List.map_append, List.sum_append] at htotal
  exact ⟨by omega, by omega, fun e he => h.each e (List.mem_append_left _ he)⟩

/-! ## Every line is read back -/

/-- What the lines of the entries are as JSONL. -/
structure EntryLines (py : Interpreter) (session : SessionRow) (first : Bool)
    (entries : List Entry) (lines : List (JsonLine py)) : Prop where
  written : entriesBytes py session first entries = some (encodePass (jsonl lines))
  oneLine : ∀ l ∈ lines, ∀ c ∈ l.line, c.isLineBreak = false ∧ c.isSurrogate = false
  noPayload : ∀ l ∈ lines, payloadOf l.record = none
  parsed : ∀ state number, Within state → EntriesWithin (state.parsed.entries ++ entries) →
    ∃ state', (numbered lines number).foldlM (claudeAlone py) state = .ok state'
      ∧ state'.parsed.entries = state.parsed.entries ++ entries

/-- The lines of entries that are read back, as JSONL. -/
theorem exists_lines {entries : List Entry} (h : LinesRereadable py session first entries)
    (horigin : ∀ entry ∈ entries, Origin py entry) (hsession : SessionFits session)
    (hreader : MAX_LINE_DEPTH ≤ py.readerDepth) (hwriter : MAX_LINE_DEPTH ≤ py.writerDepth)
    (hclock : ClockReadsBack py) : ∃ lines, EntryLines py session first entries lines := by
  induction entries generalizing first with
  | nil =>
    refine ⟨[], rfl, nofun, nofun, fun state number _ _ => ⟨state, rfl, ?_⟩⟩
    exact (List.append_nil _).symm
  | cons entry rest ih =>
    obtain ⟨⟨blocks, hline⟩, hrest⟩ := h
    have hentry := horigin entry List.mem_cons_self
    obtain ⟨lines, hlines⟩ := ih hrest fun e he => horigin e (List.mem_cons_of_mem entry he)
    obtain ⟨l, hl, hrecord⟩ := hline.exists_line hentry.fits hsession hreader
    have hbytes := entryBytes_eq.mpr ⟨blocks, hline.stored hreader,
      hline.record_depth.trans hwriter, rfl⟩
    refine ⟨l :: lines, ?_, ?_, ?_, ?_⟩
    · rw [entriesBytes, hbytes, hlines.written, jsonl_cons, hl,
        encodePass_append (lineText entry first session blocks ++ str "\n")]
      rfl
    · intro l' hl' c hc
      rcases List.mem_cons.mp hl' with rfl | hl'
      · rw [hl] at hc
        exact ⟨hline.one_line c hc, (lineText_chars c hc).1⟩
      · exact hlines.oneLine l' hl' c hc
    · intro l' hl'
      rcases List.mem_cons.mp hl' with rfl | hl'
      · rw [hrecord]
        exact payloadOf_record
      · exact hlines.noPayload l' hl'
    · intro state number hstate hwithin
      have happend : state.parsed.entries ++ entry :: rest
          = state.parsed.entries ++ [entry] ++ rest := by simp
      rw [happend] at hwithin ⊢
      obtain ⟨next, hnext, hnextWithin, hparsed⟩ := @LineReadable.step _ _ _ _ _ state number hline
        hentry hsession hwriter hclock hstate hwithin.of_append
      rw [← hparsed] at hwithin ⊢
      obtain ⟨state', hrun, hentries⟩ := hlines.parsed next (number + 1) hnextWithin hwithin
      refine ⟨state', ?_, hentries⟩
      have hnumbered : numbered (l :: lines) number
          = (number, reconstructionRecord entry first session blocks)
            :: numbered lines (number + 1) := by
        rw [numbered, List.zipIdx_cons, List.map_cons, hrecord]
        rfl
      rw [hnumbered, List.foldlM_cons, hnext]
      exact hrun

/-- Entries whose lines are all read back are read back. -/
theorem round_trips_of_readable {entries : List Entry}
    (h : LinesRereadable py session true entries) (hwithin : EntriesWithin entries)
    (horigin : ∀ entry ∈ entries, Origin py entry) (hsession : SessionFits session)
    (hreader : MAX_LINE_DEPTH ≤ py.readerDepth) (hwriter : MAX_LINE_DEPTH ≤ py.writerDepth)
    (hclock : ClockReadsBack py) : RoundTrips py session entries := by
  obtain ⟨number, hheader⟩ := @reconstructionHeader_some session _ hwithin.count
  obtain ⟨lines, hlines⟩ := exists_lines h horigin hsession hreader hwriter hclock
  have hprintable := ascii_chars (.dict (headerRecord session number))
  obtain ⟨hgood, hdepth⟩ := @header_good py _ hsession number
  obtain ⟨hpayload, hclaude⟩ := header_other session number
  have hlimit : (1 : Nat) ≤ MAX_LINE_DEPTH := by decide
  let header : JsonLine py := renderedLine hreader (fun _ => escapes_ascii) _ hgood
    (hdepth ▸ hlimit) (header_size hsession number) fun c hc => (hprintable c hc).1
  have hline : header.line = render escapeCharAscii (.dict (headerRecord session number)) :=
    List.append_nil _
  have hone : ∀ l ∈ header :: lines, ∀ c ∈ l.line,
      c.isLineBreak = false ∧ c.isSurrogate = false := by
    intro l hl c hc
    rcases List.mem_cons.mp hl with rfl | hl
    · have hc := hprintable c (hline ▸ hc)
      exact ⟨not_break_of_printable hc, printable_not_surrogate hc⟩
    · exact hlines.oneLine l hl c hc
  have hchars : ∀ c ∈ jsonl (header :: lines), c.isSurrogate = false := by
    intro c hc
    obtain ⟨l, hl, hc⟩ := List.mem_flatMap.mp hc
    rcases List.mem_append.mp hc with hc | hc
    · exact (hone l hl c hc).2
    · exact str_not_surrogate "\n" c hc
  have htext : reconstruct py session entries = some (encodePass (jsonl (header :: lines))) := by
    have hdumps : Value.dumps py escapeCharAscii (.dict (headerRecord session number))
        = some (render escapeCharAscii (.dict (headerRecord session number))) :=
      if_pos (by omega)
    have hencode : encode (render escapeCharAscii (.dict (headerRecord session number)) ++ str "\n")
        = some (encodePass (header.line ++ str "\n")) := by
      rw [hline]
      refine encode_of_not_surrogate fun c hc => ?_
      rcases List.mem_append.mp hc with hc | hc
      · exact printable_not_surrogate (hprintable c hc)
      · exact str_not_surrogate "\n" c hc
    rw [reconstruct, hheader]
    show ((Value.dumps py escapeCharAscii _).bind fun line => (encode (line ++ str "\n")).bind fun head =>
      (entriesBytes py session true entries).bind fun rest => some (head ++ rest)) = _
    rw [hdumps, Option.bind_some, hencode, Option.bind_some, hlines.written, Option.bind_some,
      jsonl_cons, encodePass_append (header.line ++ str "\n")]
  have hcarries : Carries (.bytes (encodePass (jsonl (header :: lines)))) (jsonl (header :: lines)) :=
    .inr ⟨_, encode_of_not_surrogate hchars, rfl⟩
  have hkept := parseTranscript_jsonl hwriter (fun l hl c hc => (hone l hl c hc).1) hcarries
  have hdetect : detectAgentType ((header :: lines).map JsonLine.record) = .claudeCode := by
    have hnone : ((header :: lines).map JsonLine.record).any isCodexRecord = false := by
      rw [List.any_eq_false]
      intro record hrecord
      obtain ⟨l, hl, rfl⟩ := List.mem_map.mp hrecord
      have hnone : payloadOf l.record = none := by
        rcases List.mem_cons.mp hl with rfl | hl
        · exact hpayload
        · exact hlines.noPayload l hl
      rw [isCodexRecord, hnone, Option.isSome_none, Bool.and_false]
      exact Bool.false_ne_true
    rw [detectAgentType, hnone]
    rfl
  obtain ⟨state, hrun, hentries⟩ := hlines.parsed (.new .claudeCode) 2 (new_within _) hwithin
  refine ⟨_, state.parsed, htext, ?_, hentries⟩
  have hnumbered : numbered (header :: lines) 1
      = (1, headerRecord session number) :: numbered lines 2 := rfl
  have hskip : claudeAlone py (.new .claudeCode) (1, headerRecord session number)
      = .ok (.new .claudeCode) := by
    rw [claudeAlone, hclaude, if_neg Bool.false_ne_true]
  rw [hkept, hdetect, parseAlone, hnumbered]
  show (List.foldlM (claudeAlone py) _ _).map _ = _
  rw [List.foldlM_cons, hskip]
  show (List.foldlM (claudeAlone py) _ (numbered lines 2)).map _ = _
  rw [hrun]
  rfl

end

end TrustPortal.Proofs.Transcript
