import TrustPortal.Proofs.Transcript.OnePass

/-!
# `TrustPortal.Proofs.Transcript.Entries`: the entries of a transcript

What a record's entry is does not depend on the other records: `claudeEntry` is the entry of a
Claude Code record and `codexEntry` the one of a Codex record, if it is stored. A parse that
succeeds has these entries in the order of the records (`entries_claude`, `entries_codex`), and
each of them fits its columns (`Storable`). The one column that an accepted value can miss is
the role, where a record's `message.role` is null.
-/

set_option autoImplicit false

namespace TrustPortal.Proofs.Transcript

open TrustPortal.Lib
open TrustPortal.Python
open TrustPortal.Transcript

/-! ## One record -/

/-- The stored text of a string field. -/
def fieldText : Value → Option Str
  | .str text => some (cleanText text)
  | _ => none

/-- The tool calls of a list of blocks. -/
def toolCallsText (blocks : Value) : Str := escapeSurrogates (render escapeChar blocks)

/-- The tool calls of a message's content. -/
def contentToolCalls : Value → Option Str
  | .list blocks =>
    if (blocks.filter isToolUse).isEmpty then none
    else some (toolCallsText (.list (blocks.filter isToolUse)))
  | _ => none

/-- What a Claude Code record's entry is made from. -/
def claudeNew (py : Interpreter) (record : Members) : NewEntry where
  role := fieldText (roleOf record)
  text := cleanText (extractText py (contentOf record))
  toolCalls := contentToolCalls (contentOf record)
  timestamp := parseTimestamp py (get record "timestamp")
  messageId := fieldText (get (messageOf record) "id")

/-- The entry of a Claude Code record. -/
def claudeEntry (py : Interpreter) (record : Members) : Entry := (claudeNew py record).stored

/-- What a Codex message's entry is made from, if it is stored. -/
def messageNew (payload : Members) (timestamp : Option Int) : Option NewEntry :=
  match get payload "role" with
  | .str role =>
    if role = str "user" ∨ role = str "assistant" then
      some ⟨some role, cleanText (extractCodexText (get payload "content")), none, timestamp,
        fieldText (get payload "id")⟩
    else none
  | _ => none

/-- What a Codex payload's entry is made from, if it is stored. -/
def payloadNew (py : Interpreter) (payload : Members) (timestamp : Option Int) : Option NewEntry :=
  match get payload "type" with
  | .str itemType =>
    if itemType = str "message" then messageNew payload timestamp
    else if endsWith itemType (str "_call") then
      some ⟨some (str "assistant"), [],
        some (toolCallsText (.list [codexToolUse py payload itemType])), timestamp,
        fieldText (get payload "id")⟩
    else none
  | _ => none

/-- What a Codex record's entry is made from, if it is stored. -/
def codexNew (py : Interpreter) (record : Members) : Option NewEntry :=
  match payloadOf record with
  | none => none
  | some payload =>
    if (get record "type").isText "response_item" then
      payloadNew py payload (parseTimestamp py (get record "timestamp"))
    else none

/-- The entry of a Codex record, if it is stored. -/
def codexEntry (py : Interpreter) (record : Members) : Option Entry :=
  (codexNew py record).map NewEntry.stored

/-! ## What fits a column -/

/-- A text that encodes as UTF-8 and holds no NUL. -/
def Clean (text : Str) : Prop := (encode text).isSome = true ∧ ∀ c ∈ text, c.val ≠ 0

/-- A text or None that fits a column of `limit` characters. -/
def FieldFits (limit : Nat) (field : Option Str) : Prop :=
  ∀ text, field = some text → text.length ≤ limit ∧ Clean text

/-- An entry that fits its columns, the role's NOT NULL aside. -/
structure EntryFits (entry : Entry) : Prop where
  role : FieldFits 20 entry.role
  contentText : ∀ text, entry.contentText = some text → Clean text
  toolCalls : ∀ text, entry.toolCalls = some text → Clean text
  messageId : FieldFits 100 entry.messageId

/-- The metadata fits the columns of the session. -/
structure MetaFits (parsed : ParsedTranscript) : Prop where
  model : FieldFits 100 parsed.model
  cwd : FieldFits 500 parsed.cwd
  gitBranch : FieldFits 200 parsed.gitBranch

/-- A transcript that can be stored. -/
structure Storable (parsed : ParsedTranscript) : Prop where
  entries : ∀ entry ∈ parsed.entries, EntryFits entry ∧ entry.role ≠ none
  session : MetaFits parsed

section
variable {py : Interpreter} {record payload : Members} {lineNumber : Nat} {value : Value}
  {field : Field} {state state' : FormatParse}

theorem clean_of_forall {text : Str} (h : ∀ c ∈ text, c.val ≠ 0 ∧ c.isSurrogate = false) :
    Clean text := by
  refine ⟨?_, fun c hc => (h c hc).1⟩
  rw [encode, if_neg]
  · rfl
  · rw [List.any_eq_true]
    rintro ⟨c, hc, hsurrogate⟩
    rw [(h c hc).2] at hsurrogate
    cases hsurrogate

/-- `clean_text` leaves neither NUL nor a surrogate. -/
theorem cleanText_clean (text : Str) : Clean (cleanText text) := by
  refine clean_of_forall fun c hc => ?_
  obtain ⟨d, _, rfl⟩ := List.mem_map.mp hc
  split_ifs with h
  · decide
  · rw [Bool.or_eq_true, not_or] at h
    exact ⟨by simpa using h.1, by simpa using h.2⟩

theorem printable_not_surrogate {c : CodePoint} (h : Printable c) : c.isSurrogate = false := by
  have hlow : ¬0xD800 ≤ c.val := by
    have := h.2
    omega
  simp [CodePoint.isSurrogate, hlow]

/-- JSON text with its surrogates escaped is UTF-8 without NUL. -/
theorem toolCallsText_clean (blocks : Value) : Clean (toolCallsText blocks) := by
  have hrender : ∀ d ∈ render escapeChar blocks, d.val ≠ 0 := by
    refine render_chars (fun c hc => ?_) blocks fun s _ c _ d hd => ?_
    · have := hc.1
      omega
    · rcases escapeChar_chars c with hprintable | ⟨hself, hlow⟩
      · have := (hprintable d hd).1
        omega
      · rw [hself, List.mem_singleton] at hd
        rw [hd]
        omega
  refine clean_of_forall fun c hc => ?_
  obtain ⟨d, hd, hc⟩ := List.mem_flatMap.mp hc
  split_ifs at hc with hsurrogate
  · have hprintable := unicodeEscape_printable d.val c hc
    refine ⟨?_, printable_not_surrogate hprintable⟩
    have := hprintable.1
    omega
  · rw [List.mem_singleton] at hc
    rw [hc]
    exact ⟨hrender d hd, by simpa using hsurrogate⟩

/-! ## String fields -/

/-- A string field that is accepted is None or a text within the column's length. -/
theorem stringField_ok {text : Option Str} (h : stringField value field lineNumber = .ok text) :
    text = fieldText value ∧ FieldFits field.limit text ∧ (text = none ↔ value = .none) := by
  unfold stringField at h
  split at h
  · cases h
    exact ⟨rfl, nofun, Iff.intro (fun _ => rfl) fun _ => rfl⟩
  · next s =>
    split_ifs at h with hlong
    cases h
    refine ⟨rfl, ?_, nofun, nofun⟩
    rintro t ⟨⟩
    exact ⟨Nat.not_lt.mp hlong, cleanText_clean s⟩
  · cases h

/-- A metadata field stays within its column. -/
theorem setField_fits {old new : Option Str} (h : setField old value field lineNumber = .ok new)
    (hold : FieldFits field.limit old) : FieldFits field.limit new := by
  rw [setField] at h
  split_ifs at h
  · exact (stringField_ok h).2.1
  · cases h
    exact hold

theorem noteTimestamp_entries (parsed : ParsedTranscript) (timestamp : Option Int) :
    (parsed.noteTimestamp timestamp).entries = parsed.entries := by
  cases timestamp <;> rfl

theorem noteTimestamp_fits {parsed : ParsedTranscript} (h : MetaFits parsed)
    (timestamp : Option Int) : MetaFits (parsed.noteTimestamp timestamp) := by
  cases timestamp <;> exact ⟨h.model, h.cwd, h.gitBranch⟩

/-- Tool calls that are written. -/
theorem toolCallsJson_ok {blocks : Value} {text : Str} (h : toolCallsJson py blocks = .ok text) :
    text = toolCallsText blocks := by
  rw [toolCallsJson, Value.dumps] at h
  by_cases hdepth : blocks.depth ≤ py.writerDepth
  · rw [if_pos hdepth] at h
    cases h
    rfl
  · rw [if_neg hdepth] at h
    cases h

/-! ## Claude Code -/

theorem extractToolCalls_ok {content : Value} {toolCalls : Option Str}
    (h : extractToolCalls py content = .ok toolCalls) : toolCalls = contentToolCalls content := by
  unfold extractToolCalls at h
  split at h
  · next blocks =>
    simp only [contentToolCalls]
    split_ifs at h ⊢ with hempty
    · cases h
      rfl
    · obtain ⟨text, htext, rfl⟩ := map_eq_ok.mp h
      rw [toolCallsJson_ok htext]
  · next hlist =>
    cases h
    cases content with
    | list blocks => exact absurd rfl (hlist blocks)
    | none | bool _ | int _ | float _ | str _ | dict _ => rfl

/-- A Claude Code record that is accepted. -/
theorem claudeRecord_ok {entry : NewEntry}
    (h : claudeRecord py state lineNumber record = .ok (state', entry)) :
    entry = claudeNew py record ∧ state'.parsed.entries = state.parsed.entries
      ∧ FieldFits 20 entry.role ∧ (entry.role = none ↔ roleOf record = .none)
      ∧ FieldFits 100 entry.messageId ∧ (MetaFits state.parsed → MetaFits state'.parsed) := by
  obtain ⟨_, _, h⟩ := bind_eq_ok.mp h
  obtain ⟨role, hrole, h⟩ := bind_eq_ok.mp h
  obtain ⟨model, hmodel, h⟩ := bind_eq_ok.mp h
  obtain ⟨cwd, hcwd, h⟩ := bind_eq_ok.mp h
  obtain ⟨gitBranch, hbranch, h⟩ := bind_eq_ok.mp h
  obtain ⟨messageId, hid, h⟩ := bind_eq_ok.mp h
  obtain ⟨toolCalls, hcalls, h⟩ := bind_eq_ok.mp h
  cases h
  obtain ⟨rfl, hrole, hnull⟩ := stringField_ok hrole
  obtain ⟨rfl, hid, _⟩ := stringField_ok hid
  cases extractToolCalls_ok hcalls
  refine ⟨rfl, noteTimestamp_entries _ _, hrole, hnull, hid, fun hmeta => ?_⟩
  have hset : MetaFits { state.parsed with model := model, cwd := cwd, gitBranch := gitBranch } :=
    ⟨setField_fits hmodel hmeta.model, setField_fits hcwd hmeta.cwd,
      setField_fits hbranch hmeta.gitBranch⟩
  exact noteTimestamp_fits hset _

theorem contentToolCalls_clean {content : Value} {text : Str}
    (h : contentToolCalls content = some text) : Clean text := by
  unfold contentToolCalls at h
  split at h
  · split_ifs at h
    cases h
    exact toolCallsText_clean _
  · cases h

/-- An entry that is added. -/
theorem add_ok {entry : NewEntry} (h : state.add lineNumber entry = .ok state') :
    state'.parsed = { state.parsed with entries := state.parsed.entries ++ [entry.stored] } := by
  rw [FormatParse.add] at h
  split at h
  · cases h
    rfl
  · dsimp only at h
    split_ifs at h
    cases h
    rfl

/-- The columns of an entry, from what it is made from. -/
theorem stored_fits {entry : NewEntry} (hrole : FieldFits 20 entry.role) (htext : Clean entry.text)
    (hcalls : ∀ text, entry.toolCalls = some text → Clean text)
    (hid : FieldFits 100 entry.messageId) : EntryFits entry.stored where
  role := hrole
  contentText := by
    intro text h
    rw [NewEntry.stored] at h
    dsimp only at h
    split_ifs at h
    cases h
    exact htext
  toolCalls := by
    intro text h
    exact hcalls text (Option.filter_eq_some_iff.mp h).1
  messageId := hid

/-- A record alone in the Claude Code parse. -/
theorem claudeAlone_ok (h : claudeAlone py state (lineNumber, record) = .ok state') :
    state'.parsed.entries = state.parsed.entries
        ++ (if Parse.isClaudeRecord record then [claudeEntry py record] else [])
      ∧ (Parse.isClaudeRecord record = true → EntryFits (claudeEntry py record)
        ∧ ((claudeEntry py record).role = none ↔ roleOf record = .none))
      ∧ (MetaFits state.parsed → MetaFits state'.parsed) := by
  rw [claudeAlone] at h
  split_ifs at h with hrecord
  · obtain ⟨⟨next, entry⟩, hnext, hadd⟩ := bind_eq_ok.mp h
    obtain ⟨rfl, hentries, hrole, hnull, hid, hmeta⟩ := claudeRecord_ok hnext
    have hparsed := add_ok hadd
    have hfits : EntryFits (claudeEntry py record) :=
      stored_fits hrole (cleanText_clean _) (fun _ => contentToolCalls_clean) hid
    refine ⟨?_, fun _ => ⟨hfits, hnull⟩, fun h => ?_⟩
    · rw [hparsed, if_pos hrecord, ← hentries]
      rfl
    · rw [hparsed]
      obtain ⟨hmodel, hcwd, hbranch⟩ := hmeta h
      exact ⟨hmodel, hcwd, hbranch⟩
  · cases h
    rw [if_neg hrecord, List.append_nil]
    exact ⟨rfl, fun h => absurd h hrecord, id⟩

/-- The entries of the Claude Code parse of some records. -/
def claudeEntries (py : Interpreter) (records : List Members) : List Entry :=
  (records.filter Parse.isClaudeRecord).map (claudeEntry py)

/-- The Claude Code parse has one entry a `user` or `assistant` record, in order. -/
theorem entries_claude {records : List (Nat × Members)}
    (h : records.foldlM (claudeAlone py) state = .ok state') :
    state'.parsed.entries = state.parsed.entries ++ claudeEntries py (records.map Prod.snd)
      ∧ (∀ r ∈ records, Parse.isClaudeRecord r.2 = true → EntryFits (claudeEntry py r.2)
        ∧ ((claudeEntry py r.2).role = none ↔ roleOf r.2 = .none))
      ∧ (MetaFits state.parsed → MetaFits state'.parsed) := by
  induction records generalizing state with
  | nil =>
    cases h
    exact ⟨(List.append_nil _).symm, nofun, id⟩
  | cons r rest ih =>
    rw [List.foldlM_cons] at h
    obtain ⟨next, hnext, hrest⟩ := bind_eq_ok.mp h
    obtain ⟨hentries, hfits, hmeta⟩ := claudeAlone_ok hnext
    obtain ⟨hrest, hothers, hmetas⟩ := ih hrest
    refine ⟨?_, ?_, fun h => hmetas (hmeta h)⟩
    · rw [hrest, hentries, List.append_assoc, claudeEntries, claudeEntries, List.map_cons]
      by_cases hrecord : Parse.isClaudeRecord r.2 = true
      · rw [if_pos hrecord, List.filter_cons_of_pos hrecord]
        rfl
      · rw [if_neg hrecord, List.filter_cons_of_neg hrecord]
        rfl
    · rintro r' (_ | ⟨_, hr'⟩)
      · exact hfits
      · exact hothers r' hr'

/-! ## Codex -/

theorem sessionMeta_ok {parsed parsed' : ParsedTranscript}
    (h : sessionMeta parsed payload lineNumber = .ok parsed') :
    parsed'.entries = parsed.entries ∧ (MetaFits parsed → MetaFits parsed') := by
  obtain ⟨cwd, hcwd, h⟩ := bind_eq_ok.mp h
  obtain ⟨gitBranch, hbranch, h⟩ := bind_eq_ok.mp h
  cases h
  refine ⟨rfl, fun hmeta => ⟨hmeta.model, setField_fits hcwd hmeta.cwd, ?_⟩⟩
  unfold setGitBranch at hbranch
  split at hbranch
  · exact setField_fits hbranch hmeta.gitBranch
  · cases hbranch
    exact hmeta.gitBranch

theorem turnContext_ok {parsed parsed' : ParsedTranscript}
    (h : turnContext parsed payload lineNumber = .ok parsed') :
    parsed'.entries = parsed.entries ∧ (MetaFits parsed → MetaFits parsed') := by
  obtain ⟨model, hmodel, h⟩ := bind_eq_ok.mp h
  obtain ⟨cwd, hcwd, h⟩ := bind_eq_ok.mp h
  cases h
  exact ⟨rfl, fun hmeta =>
    ⟨setField_fits hmodel hmeta.model, setField_fits hcwd hmeta.cwd, hmeta.gitBranch⟩⟩

/-- A role of a Codex message fits its column as it is. -/
theorem codexRole_fits {role : Str} (h : role = str "user" ∨ role = str "assistant") :
    FieldFits 20 (some role) := by
  rintro text ⟨⟩
  rcases h with rfl | rfl
  all_goals exact ⟨by decide, clean_of_forall (by decide)⟩

/-- What a Codex entry must meet. -/
def NewFits (entry : NewEntry) : Prop :=
  FieldFits 20 entry.role ∧ entry.role ≠ none ∧ Clean entry.text
    ∧ (∀ text, entry.toolCalls = some text → Clean text) ∧ FieldFits 100 entry.messageId

/-- A Codex message that is accepted. -/
theorem codexMessage_ok {timestamp : Option Int} {entry : Option NewEntry}
    (h : codexMessage state payload timestamp lineNumber = .ok entry) :
    entry = messageNew payload timestamp ∧ ∀ e, entry = some e → NewFits e := by
  unfold codexMessage at h
  unfold messageNew
  generalize get payload "role" = role at h ⊢
  cases role with
  | str role =>
    dsimp only at h ⊢
    by_cases huser : role = str "user" ∨ role = str "assistant"
    · rw [if_pos huser] at h ⊢
      obtain ⟨_, _, h⟩ := bind_eq_ok.mp h
      obtain ⟨messageId, hid, h⟩ := bind_eq_ok.mp h
      cases h
      obtain ⟨rfl, hid, _⟩ := stringField_ok hid
      refine ⟨rfl, ?_⟩
      rintro e ⟨⟩
      exact ⟨codexRole_fits huser, nofun, cleanText_clean _, nofun, hid⟩
    · rw [if_neg huser] at h ⊢
      cases h
      exact ⟨rfl, nofun⟩
  | none | bool _ | int _ | float _ | list _ | dict _ =>
    cases h
    exact ⟨rfl, nofun⟩

/-- A Codex tool call that is accepted. -/
theorem codexToolCall_ok {itemType : Str} {timestamp : Option Int} {entry : Option NewEntry}
    (h : codexToolCall py state payload itemType timestamp lineNumber = .ok entry) :
    entry = some ⟨some (str "assistant"), [],
        some (toolCallsText (.list [codexToolUse py payload itemType])), timestamp,
        fieldText (get payload "id")⟩
      ∧ ∀ e, entry = some e → NewFits e := by
  have hnil : Clean [] := clean_of_forall nofun
  obtain ⟨_, _, h⟩ := bind_eq_ok.mp h
  obtain ⟨messageId, hid, h⟩ := bind_eq_ok.mp h
  obtain ⟨toolCalls, hcalls, h⟩ := bind_eq_ok.mp h
  cases h
  obtain ⟨rfl, hid, _⟩ := stringField_ok hid
  cases toolCallsJson_ok hcalls
  refine ⟨rfl, ?_⟩
  rintro e ⟨⟩
  refine ⟨codexRole_fits (.inr rfl), nofun, hnil, ?_, hid⟩
  rintro text ⟨⟩
  exact toolCallsText_clean _

/-- A Codex `response_item` that is accepted. -/
theorem codexItem_ok {timestamp : Option Int} {entry : Option NewEntry}
    (h : codexItem py state payload timestamp lineNumber = .ok entry) :
    entry = payloadNew py payload timestamp ∧ ∀ e, entry = some e → NewFits e := by
  unfold codexItem at h
  unfold payloadNew
  generalize get payload "type" = itemType at h ⊢
  cases itemType with
  | str itemType =>
    dsimp only at h ⊢
    split_ifs at h ⊢
    · exact codexMessage_ok h
    · exact codexToolCall_ok h
    · cases h
      exact ⟨rfl, nofun⟩
  | none | bool _ | int _ | float _ | list _ | dict _ =>
    cases h
    exact ⟨rfl, nofun⟩

/-- A Codex record that is accepted. -/
theorem codexRecord_ok {entry : Option NewEntry} (hpayload : payloadOf record = some payload)
    (h : codexRecord py state lineNumber record payload = .ok (state', entry)) :
    entry = codexNew py record ∧ state'.parsed.entries = state.parsed.entries
      ∧ (∀ e, entry = some e → NewFits e) ∧ (MetaFits state.parsed → MetaFits state'.parsed) := by
  have hnote := noteTimestamp_entries state.parsed (parseTimestamp py (get record "timestamp"))
  -- A record of one type is of no other type.
  have hother : ∀ {a : String}, (get record "type").isText a = true → str a ≠ str "response_item" →
      codexNew py record = none := by
    intro a ha hne
    rw [codexNew, hpayload]
    dsimp only
    rw [if_neg]
    intro hitem
    cases htype : get record "type" with
    | str t =>
      rw [htype] at ha hitem
      simp only [Value.isText, decide_eq_true_eq] at ha hitem
      exact hne (ha.symm.trans hitem)
    | _ =>
      rw [htype] at ha
      cases ha
  rw [codexRecord] at h
  split_ifs at h with hsession hturn hitem
  · obtain ⟨parsed, hparsed, h⟩ := bind_eq_ok.mp h
    cases h
    obtain ⟨hentries, hmeta⟩ := sessionMeta_ok hparsed
    exact ⟨(hother hsession (by decide)).symm, hentries.trans hnote, (by simp),
      fun h => hmeta (noteTimestamp_fits h _)⟩
  · obtain ⟨parsed, hparsed, h⟩ := bind_eq_ok.mp h
    cases h
    obtain ⟨hentries, hmeta⟩ := turnContext_ok hparsed
    exact ⟨(hother hturn (by decide)).symm, hentries.trans hnote, (by simp),
      fun h => hmeta (noteTimestamp_fits h _)⟩
  · obtain ⟨found, hfound, h⟩ := bind_eq_ok.mp h
    cases h
    obtain ⟨hentry, hfits⟩ := codexItem_ok hfound
    refine ⟨?_, hnote, hfits, fun h => noteTimestamp_fits h _⟩
    rw [hentry, codexNew, hpayload]
    exact (if_pos hitem).symm
  · cases h
    refine ⟨?_, hnote, (by simp), fun h => noteTimestamp_fits h _⟩
    rw [codexNew, hpayload]
    exact (if_neg hitem).symm

/-- A record alone in the Codex parse. -/
theorem codexAlone_ok (h : codexAlone py state (lineNumber, record) = .ok state') :
    state'.parsed.entries = state.parsed.entries ++ (codexEntry py record).toList
      ∧ (∀ e, codexEntry py record = some e → EntryFits e ∧ e.role ≠ none)
      ∧ (MetaFits state.parsed → MetaFits state'.parsed) := by
  rw [codexAlone] at h
  cases hpayload : payloadOf record with
  | none =>
    rw [hpayload] at h
    cases h
    rw [codexEntry, codexNew, hpayload]
    exact ⟨(List.append_nil _).symm, (by simp), id⟩
  | some payload =>
    rw [hpayload] at h
    obtain ⟨⟨next, entry⟩, hnext, hadd⟩ := bind_eq_ok.mp h
    obtain ⟨rfl, hentries, hfits, hmeta⟩ := codexRecord_ok hpayload hnext
    rw [codexEntry]
    cases hnew : codexNew py record with
    | none =>
      rw [hnew] at hadd
      cases hadd
      exact ⟨hentries.trans (List.append_nil _).symm, (by simp), hmeta⟩
    | some new =>
      rw [hnew] at hadd
      obtain ⟨hrole, hgiven, htext, hcalls, hid⟩ := hfits new hnew
      have hparsed := add_ok hadd
      refine ⟨?_, ?_, fun h => ?_⟩
      · rw [hparsed, ← hentries]
        rfl
      · rintro e ⟨⟩
        exact ⟨stored_fits hrole htext hcalls hid, hgiven⟩
      · rw [hparsed]
        obtain ⟨hmodel, hcwd, hbranch⟩ := hmeta h
        exact ⟨hmodel, hcwd, hbranch⟩

/-- The entries of the Codex parse of some records. -/
def codexEntries (py : Interpreter) (records : List Members) : List Entry :=
  records.filterMap (codexEntry py)

/-- The Codex parse has one entry a stored item, in order. -/
theorem entries_codex {records : List (Nat × Members)}
    (h : records.foldlM (codexAlone py) state = .ok state') :
    state'.parsed.entries = state.parsed.entries ++ codexEntries py (records.map Prod.snd)
      ∧ (∀ e ∈ codexEntries py (records.map Prod.snd), EntryFits e ∧ e.role ≠ none)
      ∧ (MetaFits state.parsed → MetaFits state'.parsed) := by
  induction records generalizing state with
  | nil =>
    cases h
    exact ⟨(List.append_nil _).symm, nofun, id⟩
  | cons r rest ih =>
    rw [List.foldlM_cons] at h
    obtain ⟨next, hnext, hrest⟩ := bind_eq_ok.mp h
    obtain ⟨hentries, hfits, hmeta⟩ := codexAlone_ok hnext
    obtain ⟨hrest, hothers, hmetas⟩ := ih hrest
    rw [codexEntries, List.map_cons, List.filterMap_cons]
    rw [codexEntries] at hrest hothers
    cases hentry : codexEntry py r.2 with
    | none =>
      rw [hentry] at hentries
      refine ⟨?_, hothers, fun h => hmetas (hmeta h)⟩
      rw [hrest, hentries]
      exact congrArg (· ++ _) (List.append_nil _)
    | some entry =>
      rw [hentry] at hentries
      refine ⟨?_, ?_, fun h => hmetas (hmeta h)⟩
      · rw [hrest, hentries, List.append_assoc]
        rfl
      · rintro e (_ | ⟨_, he⟩)
        · exact hfits entry hentry
        · exact hothers e he

end

end TrustPortal.Proofs.Transcript
