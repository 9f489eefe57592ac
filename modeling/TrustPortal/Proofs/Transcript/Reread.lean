import TrustPortal.Proofs.Transcript.Reconstruct

/-!
# `TrustPortal.Proofs.Transcript.Reread`: when a reconstruction is read back

The converse of `round_trips_of_readable`, and both together (`round_trips_iff`). A line of the
reconstruction gives the parser at most one entry: a line that a separator splits gives none,
since no piece of it is an object with a `type` (`fragments_names`), and an unbroken one gives
the entry of its record. So all the entries can only come back when every line is unbroken, and
then each line gives its own entry.
-/

set_option autoImplicit false

namespace TrustPortal.Proofs.Transcript

open TrustPortal.Lib
open TrustPortal.Python
open TrustPortal.Transcript

section
variable {py : Interpreter} {entry : Entry} {first : Bool} {session : SessionRow}
  {blocks : List Value} {record : Members} {lineNumber : Nat} {line text : Str}

/-! ## Lines that were read -/

/-- What a record of a line says of the line. -/
theorem readRecord_ok (h : readRecord py lineNumber line = .ok (some record)) :
    passesDepth line = true ∧ loads py line = .ok (.dict record) := by
  rw [readRecord] at h
  split_ifs at h
  · cases h
  obtain ⟨_, hcheck, h⟩ := bind_eq_ok.mp h
  split at h
  case h_4 r hload =>
    cases h
    exact ⟨passesDepth_of_check hcheck, hload⟩
  all_goals cases h

/-- The records of two parts of the lines. -/
theorem readRecordsFrom_append {lines lines' : List (RawLine × Nat)}
    {records : List (Nat × Members)}
    (h : readRecordsFrom py (lines ++ lines') = .ok records) :
    ∃ before after, readRecordsFrom py lines = .ok before
      ∧ readRecordsFrom py lines' = .ok after ∧ records = before ++ after := by
  induction lines generalizing records with
  | nil => exact ⟨[], records, rfl, h, rfl⟩
  | cons line rest ih =>
    obtain ⟨text, htext, h⟩ := bind_eq_ok.mp h
    obtain ⟨found, hfound, h⟩ := bind_eq_ok.mp h
    obtain ⟨others, hothers, h⟩ := bind_eq_ok.mp h
    obtain ⟨before, after, hbefore, hafter, rfl⟩ := ih hothers
    cases h
    refine ⟨_, after, bind_eq_ok.mpr ⟨text, htext, bind_eq_ok.mpr ⟨found, hfound,
      bind_eq_ok.mpr ⟨before, hbefore, rfl⟩⟩⟩, hafter, ?_⟩
    cases found <;> rfl

/-- Every record comes from a line. -/
theorem readRecordsFrom_mem {lines : List (RawLine × Nat)} {records : List (Nat × Members)}
    (h : readRecordsFrom py lines = .ok records) : ∀ r ∈ records, ∃ raw ∈ lines, ∃ text,
      readLine raw.2 raw.1 = .ok text ∧ readRecord py raw.2 text = .ok (some r.2) := by
  induction lines generalizing records with
  | nil =>
    cases h
    nofun
  | cons line rest ih =>
    obtain ⟨text, htext, h⟩ := bind_eq_ok.mp h
    obtain ⟨found, hfound, h⟩ := bind_eq_ok.mp h
    obtain ⟨others, hothers, h⟩ := bind_eq_ok.mp h
    cases h
    intro r hr
    cases found with
    | none =>
      obtain ⟨raw, hraw, hfrom⟩ := ih hothers r hr
      exact ⟨raw, List.mem_cons_of_mem line hraw, hfrom⟩
    | some record =>
      rcases List.mem_cons.mp hr with rfl | hr
      · exact ⟨line, List.mem_cons_self, text, htext, hfound⟩
      · obtain ⟨raw, hraw, hfrom⟩ := ih hothers r hr
        exact ⟨raw, List.mem_cons_of_mem line hraw, hfrom⟩

/-- A line of bytes that was read. -/
private theorem readLine_bytes_ok (h : readLine lineNumber (.bytes (encodePass line)) = .ok text)
    (hline : ∀ c ∈ line, c.isSurrogate = false) :
    (encodePass line).length ≤ MAX_ENTRY_BYTES ∧ text = strip line := by
  rw [readLine] at h
  split_ifs at h with hsize
  cases h
  rw [decode_encodePass hline]
  exact ⟨Nat.not_lt.mp hsize, rfl⟩

/-- A text that is in braces has no space around it. -/
private theorem strip_braces (hopens : ∃ c rest, text = c :: rest ∧ c.is '\x7b' = true)
    (hcloses : ∃ c rest, text = rest ++ [c] ∧ c.is '\x7d' = true) : strip text = text := by
  obtain ⟨c, rest, hc, hopen⟩ := hopens
  obtain ⟨d, init, hd, hclose⟩ := hcloses
  refine strip_of_ends (fun first hfirst => ?_) fun last hlast => ?_
  · rw [hc] at hfirst
    cases hfirst
    exact not_isSpace_of_is hopen (by decide)
  · rw [hd, List.getLast?_concat] at hlast
    cases hlast
    exact not_isSpace_of_is hclose (by decide)

/-- The pieces of a text have its characters. -/
private theorem mem_of_splitOnP {p : CodePoint → Bool} {piece : Str}
    (h : piece ∈ text.splitOnP p) : ∀ c ∈ piece, c ∈ text := by
  induction text generalizing piece with
  | nil =>
    rw [List.splitOnP_nil, List.mem_singleton] at h
    subst h
    simp
  | cons d rest ih =>
    rw [List.splitOnP_cons_eq_if_modifyHead] at h
    split_ifs at h
    · rcases List.mem_cons.mp h with rfl | h
      · simp
      · exact fun c hc => List.mem_cons_of_mem d (ih h c hc)
    · cases hpieces : rest.splitOnP p with
      | nil => exact absurd hpieces (List.splitOnP_ne_nil p rest)
      | cons head tail =>
        rw [hpieces] at h ih
        rcases List.mem_cons.mp h with rfl | h
        · intro c hc
          rcases List.mem_cons.mp hc with rfl | hc
          · exact List.mem_cons_self
          · exact List.mem_cons_of_mem d (ih List.mem_cons_self c hc)
        · exact fun c hc => List.mem_cons_of_mem d (ih (List.mem_cons_of_mem head h) c hc)

/-! ## The records of one line -/

/-- A name that no member of a record has. -/
private theorem get_of_nameless {name : String} (hname : ¬Nameless (str name))
    (h : ∀ n ∈ record.map Prod.fst, Nameless n) : get record name = .none := by
  have hfind : find record (str name) = none := by
    induction record with
    | nil => rfl
    | cons member rest ih =>
      obtain ⟨key, value⟩ := member
      rw [find, if_neg]
      · exact ih fun n hn => h n (List.mem_cons_of_mem key hn)
      · rintro rfl
        exact hname (h _ List.mem_cons_self)
  rw [Python.get, hfind]
  rfl

private theorem typeless (h : ∀ n ∈ record.map Prod.fst, Nameless n) :
    payloadOf record = none ∧ Parse.isClaudeRecord record = false := by
  have hp : ∀ name : String, (str name).any (fun c => c.is 'p') = true → ¬Nameless (str name) := by
    intro name hany hnameless
    obtain ⟨c, hc, hp⟩ := List.any_eq_true.mp hany
    rw [hnameless c hc] at hp
    cases hp
  constructor
  · rw [payloadOf, get_of_nameless (hp "payload" (by decide)) h]
  · rw [Parse.isClaudeRecord, isAnyText, get_of_nameless (hp "type" (by decide)) h]
    rfl

/-- The raw lines that the parser makes of an entry's line. -/
def piecesOf (line : Str) : List RawLine :=
  ((line.splitOnP CodePoint.isLineBreak).map encodePass).map .bytes

/-- An unbroken line of the JSON text of an object that its text reads as gives the object or
nothing. -/
theorem unbroken_records {escape : CodePoint → Str} {pieces : CodePoint → List Piece}
    (hescape : ∀ py, Escapes py escape pieces NoPair) {members : Members}
    (hgood : Good NoPair (ReadsBack py) (.dict members))
    (hchars : ∀ c ∈ render escape (.dict members), c.isSurrogate = false)
    {records : List (Nat × Members)}
    (h : readRecordsFrom py
      [(.bytes (encodePass (render escape (.dict members))), lineNumber)] = .ok records) :
    records = [] ∨ records = [(lineNumber, members)]
      ∧ (encodePass (render escape (.dict members))).length ≤ MAX_ENTRY_BYTES
      ∧ (Value.dict members).depth ≤ MAX_LINE_DEPTH := by
  obtain ⟨text, htext, h⟩ := bind_eq_ok.mp h
  obtain ⟨found, hfound, h⟩ := bind_eq_ok.mp h
  cases h
  obtain ⟨hsize, rfl⟩ := readLine_bytes_ok htext hchars
  obtain ⟨hopens, hcloses⟩ := render_dict_braces escape members
  rw [strip_braces hopens hcloses] at hfound
  cases found with
  | none => exact .inl rfl
  | some record =>
    obtain ⟨hpass, hloads⟩ := readRecord_ok hfound
    -- A deeper reader reads the object that was written, and what this one reads as well.
    have hdeep := loads_deeper (le_max_left py.readerDepth (Value.dict members).depth) hloads
    have hread : loads { py with readerDepth := max py.readerDepth (Value.dict members).depth }
        (render escape (.dict members)) = .ok (.dict members) :=
      loads_render (hescape _) hgood (le_max_right _ _)
    rw [hread] at hdeep
    cases hdeep
    exact .inr ⟨rfl, hsize, loads_depth_le hpass hloads⟩

/-- A line that a separator splits gives no record of either format. -/
theorem split_records {members : Members}
    (hgood : Good NoPair (ReadsBack py) (.dict members))
    (hbreak : ∃ c ∈ render escapeStored (.dict members), c.isLineBreak = true)
    {records : List (Nat × Members)}
    (h : readRecordsFrom py
      ((piecesOf (render escapeStored (.dict members))).zipIdx lineNumber) = .ok records) :
    ∀ r ∈ records, payloadOf r.2 = none ∧ Parse.isClaudeRecord r.2 = false := by
  intro r hr
  obtain ⟨⟨raw, number⟩, hraw, text, htext, hrecord⟩ := readRecordsFrom_mem h r hr
  have hmem : raw ∈ piecesOf (render escapeStored (.dict members)) :=
    List.fst_mem_of_mem_zipIdx hraw
  obtain ⟨bytes, hbytes, rfl⟩ := List.mem_map.mp hmem
  obtain ⟨piece, hpiece, rfl⟩ := List.mem_map.mp hbytes
  have hchars := stored_chars (.dict members)
  obtain ⟨_, rfl⟩ := readLine_bytes_ok htext fun c hc => (hchars c (mem_of_splitOnP hpiece c hc)).1
  have hhigh : ∀ c ∈ render escapeStored (.dict members), c.isLineBreak = true → 0x80 ≤ c.val :=
    fun c hc => stored_high (hchars c hc).2
  have hline : loads { py with readerDepth := max py.readerDepth (Value.dict members).depth }
      (render escapeStored (.dict members)) = .ok (.dict members) :=
    loads_render escapes_stored hgood (le_max_right _ _)
  exact typeless (fragments_names (le_max_left _ _) hline hbreak hhigh piece hpiece r.2
    (readRecord_ok hrecord).2)

/-! ## The records of an entry -/

/-- The tool calls that the parser makes of a line. -/
theorem claudeEntry_toolCalls :
    (claudeEntry py (reconstructionRecord entry first session blocks)).toolCalls
      = if (blocks.filter isToolUse).isEmpty then none
        else some (toolCallsText (.list (blocks.filter isToolUse))) := by
  rw [claudeEntry, claudeNew, contentOf_record, contentToolCalls_record, NewEntry.stored]
  cases blocks.filter isToolUse <;> rfl

/-- What the lines of some entries give: no Codex record, and at most one entry each; and all of
the entries only where every line is read back. -/
structure Gives (py : Interpreter) (session : SessionRow) (first : Bool) (entries : List Entry)
    (records : List (Nat × Members)) : Prop where
  payload : ∀ r ∈ records, payloadOf r.2 = none
  count : (claudeEntries py (records.map Prod.snd)).length ≤ entries.length
  readable : claudeEntries py (records.map Prod.snd) = entries →
    LinesRereadable py session first entries

/-- **One line.** What the line of an entry gives. -/
theorem entry_gives (hfits : EntryFits entry) (hsession : SessionFits session)
    (hreader : MAX_LINE_DEPTH ≤ py.readerDepth)
    (hfloat : ∀ literal, py.float (py.float literal).val = py.float literal)
    (hblocks : storedBlocks py entry.toolCalls = some blocks) {records : List (Nat × Members)}
    (h : readRecordsFrom py
      ((piecesOf (lineText entry first session blocks)).zipIdx lineNumber) = .ok records) :
    Gives py session first [entry] records := by
  have hgood := storedBlocks_good hfloat hfits.toolCalls hblocks
  have hrecord := @good_record py entry first session blocks hfits hsession hgood
  by_cases hbreak : ∃ c ∈ lineText entry first session blocks, c.isLineBreak = true
  · have hnone := split_records hrecord hbreak h
    have hempty : claudeEntries py (records.map Prod.snd) = [] := by
      rw [claudeEntries, List.filter_eq_nil_iff.mpr]
      · rfl
      · intro record hmem
        obtain ⟨r, hr, rfl⟩ := List.mem_map.mp hmem
        rw [(hnone r hr).2]
        exact Bool.false_ne_true
    refine ⟨fun r hr => (hnone r hr).1, ?_, ?_⟩
    · rw [hempty]
      exact Nat.zero_le _
    · rw [hempty]
      simp
  · have hone : ∀ c ∈ lineText entry first session blocks, c.isLineBreak = false :=
      fun c hc => Bool.eq_false_iff.mpr fun hc' => hbreak ⟨c, hc, hc'⟩
    rw [piecesOf, List.splitOnP_eq_singleton hone] at h
    rcases unbroken_records (fun _ => escapes_stored) hrecord
      (fun c hc => (lineText_chars c hc).1) h with rfl | ⟨rfl, hsize, hdepth⟩
    · exact ⟨by simp, Nat.zero_le _, fun h => by cases h⟩
    have hentries : claudeEntries py [reconstructionRecord entry first session blocks]
        = [claudeEntry py (reconstructionRecord entry first session blocks)] := by
      rw [claudeEntries, List.filter_singleton, isClaudeRecord_record]
      rfl
    refine ⟨?_, ?_, ?_⟩
    · intro r hr
      rw [List.mem_singleton.mp hr]
      exact payloadOf_record
    · show (claudeEntries py [reconstructionRecord entry first session blocks]).length ≤ 1
      rw [hentries]
      exact Nat.le_refl _
    · intro hsame
      have hsame : claudeEntries py [reconstructionRecord entry first session blocks] = [entry] :=
        hsame
      rw [hentries] at hsame
      have hcalls := congrArg Entry.toolCalls (List.cons.inj hsame).1
      rw [claudeEntry_toolCalls] at hcalls
      have huses : ∀ block ∈ blocks.filter isToolUse, isToolUse block = true :=
        fun block hblock => (List.mem_filter.mp hblock).2
      have hlevels := (@depth_record entry first session blocks).1
      have hfilter : (Value.list (blocks.filter isToolUse)).depth ≤ (Value.list blocks).depth :=
        Nat.succ_le_succ (depthItems_filter isToolUse blocks)
      have hsmall : (Value.list (blocks.filter isToolUse)).depth + 2 ≤ MAX_LINE_DEPTH := by omega
      have hstored := storedBlocks_calls hcalls.symm huses (good_filter isToolUse hgood) (by omega)
      -- The tool calls are those of the `tool_use` blocks, so all blocks are.
      have hall : blocks.filter isToolUse = blocks := Option.some.inj (hstored.symm.trans hblocks)
      rw [hall] at hcalls huses hsmall
      have htexts : (entryTexts entry first session).any breaks = false := by
        rw [breaks_entryTexts, breaks_calls hcalls.symm, ← breaks_record, ← any_isLineBreak_render]
        exact List.any_eq_false.mpr fun c hc => Bool.eq_false_iff.mp (hone c hc)
      exact ⟨⟨blocks, hcalls.symm, huses, hgood, hsmall,
        fun text htext => Bool.eq_false_iff.mpr (List.any_eq_false.mp htexts text htext), hsize⟩,
        trivial⟩

/-! ## All records -/

private theorem claudeEntries_append (records records' : List Members) :
    claudeEntries py (records ++ records') = claudeEntries py records ++ claudeEntries py records' := by
  rw [claudeEntries, List.filter_append, List.map_append]
  rfl

/-- What an entry gives and what the entries after it give. -/
theorem Gives.append {entries : List Entry} {before after : List (Nat × Members)}
    (h : Gives py session first [entry] before) (hrest : Gives py session false entries after) :
    Gives py session first (entry :: entries) (before ++ after) := by
  have hcount := h.count
  have hrestCount := hrest.count
  have hsplit : claudeEntries py ((before ++ after).map Prod.snd)
      = claudeEntries py (before.map Prod.snd) ++ claudeEntries py (after.map Prod.snd) := by
    rw [List.map_append, claudeEntries_append]
  refine ⟨?_, ?_, ?_⟩
  · intro r hr
    rcases List.mem_append.mp hr with hr | hr
    · exact h.payload r hr
    · exact hrest.payload r hr
  · rw [hsplit, List.length_append, List.length_cons]
    rw [List.length_singleton] at hcount
    omega
  · rw [hsplit]
    intro hsame
    -- Each line gives at most its own entry, so all of them come back only one by one.
    cases hbefore : claudeEntries py (before.map Prod.snd) with
    | nil =>
      rw [hbefore, List.nil_append] at hsame
      rw [hsame, List.length_cons] at hrestCount
      omega
    | cons first' others =>
      rw [hbefore, List.length_cons, List.length_singleton] at hcount
      obtain rfl : others = [] := List.eq_nil_of_length_eq_zero (by omega)
      rw [hbefore, List.singleton_append] at hsame
      obtain ⟨rfl, htail⟩ := List.cons.inj hsame
      exact ⟨(h.readable hbefore).1, hrest.readable htail⟩

/-- **Every line.** What the lines of the entries give. -/
theorem entries_give {entries : List Entry} (horigin : ∀ entry ∈ entries, Origin py entry)
    (hsession : SessionFits session) (hreader : MAX_LINE_DEPTH ≤ py.readerDepth)
    (hfloat : ∀ literal, py.float (py.float literal).val = py.float literal) {bytes : Bytes}
    (hbytes : entriesBytes py session first entries = some bytes) {records : List (Nat × Members)}
    (h : readRecordsFrom py (((byteLines bytes).map RawLine.bytes).zipIdx lineNumber)
      = .ok records) : Gives py session first entries records := by
  induction entries generalizing first bytes records lineNumber with
  | nil =>
    cases hbytes
    cases h
    exact ⟨nofun, Nat.zero_le _, fun _ => trivial⟩
  | cons entry rest ih =>
    obtain ⟨line, hline, hbytes⟩ := Option.bind_eq_some_iff.mp hbytes
    obtain ⟨others, hothers, hbytes⟩ := Option.bind_eq_some_iff.mp hbytes
    cases hbytes
    obtain ⟨blocks, hblocks, _, rfl⟩ := entryBytes_eq.mp hline
    rw [byteLines_splitOnP lineText_high, List.map_append, List.zipIdx_append] at h
    obtain ⟨before, after, hbefore, hafter, rfl⟩ := readRecordsFrom_append h
    refine Gives.append ?_ (ih (fun e he => horigin e (List.mem_cons_of_mem entry he)) hothers hafter)
    exact entry_gives (horigin entry List.mem_cons_self).fits hsession hreader hfloat hblocks hbefore

/-- Entries that are read back have lines that are all read back. -/
theorem readable_of_round_trips {entries : List Entry} (h : RoundTrips py session entries)
    (horigin : ∀ entry ∈ entries, Origin py entry) (hsession : SessionFits session)
    (hreader : MAX_LINE_DEPTH ≤ py.readerDepth) (hwriter : MAX_LINE_DEPTH ≤ py.writerDepth)
    (hfloat : ∀ literal, py.float (py.float literal).val = py.float literal) :
    LinesRereadable py session true entries := by
  obtain ⟨text, parsed, htext, hparse, rfl⟩ := h
  obtain ⟨header, hheader, htext⟩ := Option.bind_eq_some_iff.mp htext
  obtain ⟨line, hline, htext⟩ := Option.bind_eq_some_iff.mp htext
  obtain ⟨start, hstart, htext⟩ := Option.bind_eq_some_iff.mp htext
  obtain ⟨bytes, hbytes, htext⟩ := Option.bind_eq_some_iff.mp htext
  cases htext
  obtain ⟨number, rfl⟩ : ∃ number, header = headerRecord session number := by
    rw [reconstructionHeader] at hheader
    split_ifs at hheader with hcount
    exact ⟨_, (Option.some.inj hheader).symm⟩
  have hline' : line = render escapeCharAscii (.dict (headerRecord session number)) := by
    rw [Value.dumps] at hline
    split_ifs at hline
    exact (Option.some.inj hline).symm
  have hprintable := ascii_chars (.dict (headerRecord session number))
  have hplain : ∀ c ∈ line, c.isLineBreak = false ∧ c.isSurrogate = false := by
    intro c hc
    have hc := hprintable c (hline' ▸ hc)
    exact ⟨not_break_of_printable hc, printable_not_surrogate hc⟩
  have hstart' : start = encodePass (line ++ str "\n") := by
    rw [encode] at hstart
    split_ifs at hstart
    exact (Option.some.inj hstart).symm
  obtain ⟨records, hrecords, halone⟩ := parsed_alone hwriter hparse
  rw [readRecords, Content.lines, hstart', byteLines_cons fun c hc => (hplain c hc).1,
    List.map_cons, List.zipIdx_cons] at hrecords
  obtain ⟨before, after, hbefore, hafter, rfl⟩ :=
    @readRecordsFrom_append py [(.bytes (encodePass line), 1)] _ _ hrecords
  have hgives := entries_give horigin hsession hreader hfloat hbytes hafter
  -- The header gives no record of either format.
  have hheaderRecords : ∀ r ∈ before, payloadOf r.2 = none
      ∧ Parse.isClaudeRecord r.2 = false := by
    rw [hline'] at hbefore hplain
    rcases unbroken_records (fun _ => escapes_ascii) (header_good hsession number).1
      (fun c hc => (hplain c hc).2) hbefore with rfl | ⟨rfl, _⟩
    · simp
    · intro r hr
      rw [List.mem_singleton.mp hr]
      exact header_other session number
  have hdetect : detectAgentType ((before ++ after).map Prod.snd) = .claudeCode := by
    have hnone : ((before ++ after).map Prod.snd).any isCodexRecord = false := by
      rw [List.any_eq_false]
      intro record hrecord
      obtain ⟨r, hr, rfl⟩ := List.mem_map.mp hrecord
      have hnone : payloadOf r.2 = none := by
        rcases List.mem_append.mp hr with hr | hr
        · exact (hheaderRecords r hr).1
        · exact hgives.payload r hr
      rw [isCodexRecord, hnone, Option.isSome_none, Bool.and_false]
      exact Bool.false_ne_true
    rw [detectAgentType, hnone]
    rfl
  rw [hdetect] at halone
  obtain ⟨state, hstate, rfl⟩ := map_eq_ok.mp halone
  have hnone : claudeEntries py (before.map Prod.snd) = [] := by
    rw [claudeEntries, List.filter_eq_nil_iff.mpr]
    · rfl
    · intro record hmem
      obtain ⟨r, hr, rfl⟩ := List.mem_map.mp hmem
      rw [(hheaderRecords r hr).2]
      exact Bool.false_ne_true
  refine hgives.readable ?_
  rw [(entries_claude hstate).1, List.map_append, claudeEntries_append, hnone]
  rfl

/-- **When a reconstruction is read back.** The reconstruction of the entries of a transcript
that parses is written and parses to exactly these entries if and only if each entry's line is
read back. -/
theorem round_trips_iff {content : Content} {parsed : ParsedTranscript}
    (hreader : MAX_LINE_DEPTH ≤ py.readerDepth) (hwriter : MAX_LINE_DEPTH ≤ py.writerDepth)
    (hfloat : ∀ literal, py.float (py.float literal).val = py.float literal)
    (hclock : ClockReadsBack py) (hsession : SessionFits session)
    (hparse : parseTranscript py content = .ok parsed) :
    RoundTrips py session parsed.entries ↔ LinesRereadable py session true parsed.entries := by
  have horigin := parsed_origin hwriter hparse
  constructor
  · intro h
    exact readable_of_round_trips h horigin hsession hreader hwriter hfloat
  · intro h
    exact round_trips_of_readable h (parsed_within hwriter hparse) horigin hsession hreader hwriter
      hclock

end

/-! ## A prompt -/

/-- A session without metadata. -/
def plainSession : SessionRow := ⟨str "s-1", none, none, none, none, none⟩

theorem plainSession_fits : SessionFits plainSession :=
  ⟨⟨by decide, by decide, by decide⟩, nofun, nofun, nofun, nofun⟩

/-- A prompt whose text is escaped. -/
def escapedPrompt (code : String) : Content :=
  .bytes (encodePass (str ("\x7b\"type\":\"user\",\"message\":\x7b\"content\":\"a\\u" ++ code
    ++ "b\"\x7d\x7d")))

/-- The entries of a content, if it parses. -/
def entriesOf (content : Content) : Option (List Entry) :=
  (parseTranscript plainInterpreter content).toOption.map ParsedTranscript.entries

private theorem parsed_of_entriesOf {content : Content} {entries : List Entry}
    (h : entriesOf content = some entries) : ∃ parsed,
      parseTranscript plainInterpreter content = .ok parsed ∧ parsed.entries = entries := by
  rw [entriesOf] at h
  cases hparse : parseTranscript plainInterpreter content with
  | error failure =>
    rw [hparse] at h
    cases h
  | ok parsed =>
    rw [hparse] at h
    exact ⟨parsed, rfl, Option.some.inj h⟩

/-- The entry of an escaped prompt. -/
def promptEntry (c : CodePoint) : Entry :=
  ⟨some (str "user"), some [.ofChar 'a', c, .ofChar 'b'], none, none, none, false⟩

/-- `round_trips_iff` for a prompt with an escaped letter. -/
theorem round_trips_iff_prompt : ∃ parsed,
    parseTranscript plainInterpreter (escapedPrompt "00e9") = .ok parsed
      ∧ parsed.entries = [promptEntry (.ofNat 0xE9)]
      ∧ (RoundTrips plainInterpreter plainSession parsed.entries
        ↔ LinesRereadable plainInterpreter plainSession true parsed.entries) := by
  have hentries : entriesOf (escapedPrompt "00e9") = some [promptEntry (.ofNat 0xE9)] := by
    decide +kernel
  obtain ⟨parsed, hparse, hparsed⟩ := parsed_of_entriesOf hentries
  refine ⟨parsed, hparse, hparsed, round_trips_iff (by decide) (by decide) (fun _ => rfl) ?_
    plainSession_fits hparse⟩
  intro value t h
  unfold parseTimestamp at h
  split_ifs at h
  cases value <;> cases h

/-- The same prompt with U+2028: parsing its reconstruction gives no entry at all. -/
theorem separator_not_reread : ∃ parsed,
    parseTranscript plainInterpreter (escapedPrompt "2028") = .ok parsed
      ∧ parsed.entries = [promptEntry (.ofNat 0x2028)]
      ∧ ¬RoundTrips plainInterpreter plainSession parsed.entries
      ∧ ((reconstruct plainInterpreter plainSession parsed.entries).bind
        fun text => entriesOf (.bytes text)) = some [] := by
  have hentries : entriesOf (escapedPrompt "2028") = some [promptEntry (.ofNat 0x2028)] := by
    decide +kernel
  have hlost : ((reconstruct plainInterpreter plainSession [promptEntry (.ofNat 0x2028)]).bind
      fun text => entriesOf (.bytes text)) = some [] := by
    decide +kernel
  obtain ⟨parsed, hparse, hparsed⟩ := parsed_of_entriesOf hentries
  refine ⟨parsed, hparse, hparsed, ?_, hparsed ▸ hlost⟩
  rintro ⟨text, parsed', htext, hparse', hsame⟩
  rw [hparsed] at htext hsame
  rw [htext, Option.bind_some, entriesOf, hparse'] at hlost
  have hnone : parsed'.entries = [] := Option.some.inj hlost
  rw [hsame] at hnone
  cases hnone

end TrustPortal.Proofs.Transcript
