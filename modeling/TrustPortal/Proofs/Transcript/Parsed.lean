import TrustPortal.Proofs.Transcript.Documented

/-!
# `TrustPortal.Proofs.Transcript.Parsed`: what every parsed transcript keeps to

`Within` is the invariant of both parses: no more entries than the limit, and tool calls within
their limit for an entry and for the transcript. `Origin` is what every parsed entry owes to the
record it was made from: its columns, the verification flag, which the text decides, and a
timestamp that was read. `parsed_within` and `parsed_origin` are the results for a transcript
that parses.
-/

set_option autoImplicit false

namespace TrustPortal.Proofs.Transcript

open TrustPortal.Lib
open TrustPortal.Python
open TrustPortal.Transcript

/-- The size of an entry's tool calls as stored. -/
def callsSize (entry : Entry) : Nat := (entry.toolCalls.map storedSize).getD 0

/-- The entries of a transcript keep to the parser's limits. -/
structure EntriesWithin (entries : List Entry) : Prop where
  count : entries.length ≤ MAX_TRANSCRIPT_ENTRIES
  total : (entries.map callsSize).sum ≤ MAX_TRANSCRIPT_TOOL_CALLS_BYTES
  each : ∀ entry ∈ entries, callsSize entry ≤ MAX_TOOL_CALLS_BYTES

/-- A parse keeps to the limits and has counted its tool calls. -/
structure Within (state : FormatParse) : Prop where
  entries : EntriesWithin state.parsed.entries
  counted : state.toolCallsTotal = (state.parsed.entries.map callsSize).sum

/-- What an entry owes to the record it was made from. -/
structure Origin (py : Interpreter) (entry : Entry) : Prop where
  fits : EntryFits entry
  contentText : entry.contentText ≠ some []
  toolCalls : entry.toolCalls ≠ some []
  verification : entry.isVerification
    = (entry.role == some (str "user") && isDone (entry.contentText.getD []))
  timestamp : ∀ t, entry.timestamp = some t → ∃ value, parseTimestamp py value = some t

section
variable {py : Interpreter} {record payload : Members} {lineNumber : Nat}
  {state state' : FormatParse} {entry : NewEntry}

/-! ## Limits -/

theorem new_within (agentType : AgentType) : Within (.new agentType) :=
  ⟨⟨Nat.zero_le _, Nat.zero_le _, nofun⟩, rfl⟩

theorem checkRoom_ok (h : state.checkRoom = .ok ()) :
    state.parsed.entries.length < MAX_TRANSCRIPT_ENTRIES := by
  rw [FormatParse.checkRoom] at h
  split_ifs at h with hfull
  exact Nat.not_le.mp hfull

/-- An entry that is added where there is room keeps the limits. -/
theorem add_within (hstate : Within state) (hroom : state.parsed.entries.length < MAX_TRANSCRIPT_ENTRIES)
    (h : state.add lineNumber entry = .ok state') : Within state' := by
  obtain ⟨⟨_, htotal, heach⟩, hcounted⟩ := hstate
  have hsize : callsSize entry.stored
      = ((entry.toolCalls.filter fun text => !text.isEmpty).map storedSize).getD 0 := rfl
  -- The entry at the end, with the size that `add` has checked.
  have happend : ∀ size, callsSize entry.stored = size → size ≤ MAX_TOOL_CALLS_BYTES →
      state.toolCallsTotal + size ≤ MAX_TRANSCRIPT_TOOL_CALLS_BYTES →
      Within (state.append size entry) := by
    rintro size rfl hcalls hlimit
    have hsum : ((state.parsed.entries ++ [entry.stored]).map callsSize).sum
        = (state.parsed.entries.map callsSize).sum + callsSize entry.stored := by simp
    refine ⟨⟨?_, ?_, ?_⟩, ?_⟩
    · show (state.parsed.entries ++ [entry.stored]).length ≤ _
      rw [List.length_append, List.length_singleton]
      omega
    · show ((state.parsed.entries ++ [entry.stored]).map callsSize).sum ≤ _
      omega
    · intro e he
      rcases List.mem_append.mp he with he | he
      · exact heach e he
      · rw [List.mem_singleton.mp he]
        exact hcalls
    · show state.toolCallsTotal + callsSize entry.stored
        = ((state.parsed.entries ++ [entry.stored]).map callsSize).sum
      omega
  unfold FormatParse.add at h
  cases hcalls : entry.toolCalls.filter fun text => !text.isEmpty with
  | none =>
    rw [hcalls] at h hsize
    cases h
    exact happend 0 hsize (Nat.zero_le _) (by omega)
  | some text =>
    rw [hcalls] at h hsize
    dsimp only at h
    split_ifs at h with hlarge hlimit
    cases h
    exact happend _ hsize (Nat.not_lt.mp hlarge) (Nat.not_lt.mp hlimit)

theorem claudeRecord_within (h : claudeRecord py state lineNumber record = .ok (state', entry)) :
    state'.toolCallsTotal = state.toolCallsTotal
      ∧ state.parsed.entries.length < MAX_TRANSCRIPT_ENTRIES := by
  obtain ⟨⟨⟩, hroom, h⟩ := bind_eq_ok.mp h
  obtain ⟨role, _, h⟩ := bind_eq_ok.mp h
  obtain ⟨model, _, h⟩ := bind_eq_ok.mp h
  obtain ⟨cwd, _, h⟩ := bind_eq_ok.mp h
  obtain ⟨gitBranch, _, h⟩ := bind_eq_ok.mp h
  obtain ⟨messageId, _, h⟩ := bind_eq_ok.mp h
  obtain ⟨toolCalls, _, h⟩ := bind_eq_ok.mp h
  cases h
  exact ⟨rfl, checkRoom_ok hroom⟩

/-- A record alone in the Claude Code parse keeps the limits. -/
theorem claudeAlone_within (hstate : Within state)
    (h : claudeAlone py state (lineNumber, record) = .ok state') : Within state' := by
  rw [claudeAlone] at h
  split_ifs at h
  · obtain ⟨⟨next, entry⟩, hnext, hadd⟩ := bind_eq_ok.mp h
    obtain ⟨_, hentries, _⟩ := claudeRecord_ok hnext
    obtain ⟨htotal, hroom⟩ := claudeRecord_within hnext
    refine add_within ⟨?_, ?_⟩ ?_ hadd
    · rw [hentries]
      exact hstate.entries
    · rw [htotal, hentries]
      exact hstate.counted
    · rw [hentries]
      exact hroom
  · cases h
    exact hstate

theorem codexItem_room {timestamp : Option Int}
    (h : codexItem py state payload timestamp lineNumber = .ok (some entry)) :
    state.parsed.entries.length < MAX_TRANSCRIPT_ENTRIES := by
  unfold codexItem at h
  generalize get payload "type" = itemType at h
  cases itemType with
  | str itemType =>
    dsimp only at h
    split_ifs at h
    · unfold codexMessage at h
      generalize get payload "role" = role at h
      cases role with
      | str role =>
        dsimp only at h
        split_ifs at h
        · obtain ⟨⟨⟩, hroom, _⟩ := bind_eq_ok.mp h
          exact checkRoom_ok hroom
        · cases h
      | none | bool _ | int _ | float _ | list _ | dict _ => cases h
    · obtain ⟨⟨⟩, hroom, _⟩ := bind_eq_ok.mp h
      exact checkRoom_ok hroom
    · cases h
  | none | bool _ | int _ | float _ | list _ | dict _ => cases h

theorem codexRecord_within {found : Option NewEntry}
    (h : codexRecord py state lineNumber record payload = .ok (state', found)) :
    state'.toolCallsTotal = state.toolCallsTotal
      ∧ (found.isSome = true → state.parsed.entries.length < MAX_TRANSCRIPT_ENTRIES) := by
  have hnote := noteTimestamp_entries state.parsed (parseTimestamp py (get record "timestamp"))
  rw [codexRecord] at h
  split_ifs at h
  · obtain ⟨parsed, _, h⟩ := bind_eq_ok.mp h
    cases h
    exact ⟨rfl, (by simp)⟩
  · obtain ⟨parsed, _, h⟩ := bind_eq_ok.mp h
    cases h
    exact ⟨rfl, (by simp)⟩
  · obtain ⟨item, hitem, h⟩ := bind_eq_ok.mp h
    cases h
    refine ⟨rfl, fun hsome => ?_⟩
    obtain ⟨entry, rfl⟩ := Option.isSome_iff_exists.mp hsome
    have hroom := codexItem_room hitem
    rwa [FormatParse.note, hnote] at hroom
  · cases h
    exact ⟨rfl, (by simp)⟩

/-- A record alone in the Codex parse keeps the limits. -/
theorem codexAlone_within (hstate : Within state)
    (h : codexAlone py state (lineNumber, record) = .ok state') : Within state' := by
  rw [codexAlone] at h
  cases hpayload : payloadOf record with
  | none =>
    rw [hpayload] at h
    cases h
    exact hstate
  | some payload =>
    rw [hpayload] at h
    obtain ⟨⟨next, found⟩, hnext, hadd⟩ := bind_eq_ok.mp h
    obtain ⟨_, hentries, _⟩ := codexRecord_ok hpayload hnext
    obtain ⟨htotal, hroom⟩ := codexRecord_within hnext
    have hwithin : Within next := by
      refine ⟨?_, ?_⟩
      · rw [hentries]
        exact hstate.entries
      · rw [htotal, hentries]
        exact hstate.counted
    cases found with
    | none =>
      cases hadd
      exact hwithin
    | some entry => exact add_within hwithin (by rw [hentries]; exact hroom rfl) hadd

/-! ## Origins -/

/-- An entry that is stored as it was made. -/
theorem stored_origin {timestamp : Value} (hfits : EntryFits entry.stored)
    (htime : entry.timestamp = parseTimestamp py timestamp) : Origin py entry.stored where
  fits := hfits
  contentText := by
    rw [NewEntry.stored]
    dsimp only
    split_ifs with hempty
    · simp
    · rintro h
      rw [Option.some.inj h] at hempty
      exact hempty rfl
  toolCalls := by
    intro h
    have := (Option.filter_eq_some_iff.mp h).2
    cases this
  verification := by
    rw [NewEntry.stored]
    dsimp only
    split_ifs with hempty
    · rw [List.isEmpty_iff.mp hempty]
      rfl
    · rfl
  timestamp := by
    intro t h
    exact ⟨timestamp, htime ▸ h⟩

/-- The entries of a Claude Code parse owe to their records what `Origin` says. -/
theorem origin_claude {records : List (Nat × Members)}
    (h : records.foldlM (claudeAlone py) (.new .claudeCode) = .ok state') :
    ∀ entry ∈ state'.parsed.entries, Origin py entry := by
  obtain ⟨hentries, hfits, _⟩ := entries_claude h
  intro entry hentry
  rw [hentries] at hentry
  obtain ⟨record, hrecord, rfl⟩ := List.mem_map.mp ((List.nil_append _).symm ▸ hentry)
  obtain ⟨hmem, hclaude⟩ := List.mem_filter.mp hrecord
  obtain ⟨r, hr, rfl⟩ := List.mem_map.mp hmem
  exact stored_origin (hfits r hr hclaude).1 rfl

/-- What a Codex entry is made from has the timestamp of its record. -/
private theorem codexNew_timestamp (h : codexNew py record = some entry) :
    entry.timestamp = parseTimestamp py (get record "timestamp") := by
  unfold codexNew at h
  split at h
  · cases h
  · split_ifs at h
    unfold payloadNew at h
    split at h
    · split_ifs at h
      · unfold messageNew at h
        split at h
        · split_ifs at h
          cases h
          rfl
        · cases h
      · cases h
        rfl
    · cases h

/-- The entries of a Codex parse owe to their records what `Origin` says. -/
theorem origin_codex {records : List (Nat × Members)}
    (h : records.foldlM (codexAlone py) (.new .codex) = .ok state') :
    ∀ entry ∈ state'.parsed.entries, Origin py entry := by
  obtain ⟨hentries, hfits, _⟩ := entries_codex h
  intro entry hentry
  rw [hentries] at hentry
  have hmem : entry ∈ codexEntries py (records.map Prod.snd) := hentry
  obtain ⟨record, hrecord, hsome⟩ := List.mem_filterMap.mp hmem
  obtain ⟨new, hnew, rfl⟩ := Option.map_eq_some_iff.mp hsome
  exact stored_origin (hfits _ hmem).1 (codexNew_timestamp hnew)

/-! ## A transcript -/

/-- A transcript that parses was read, and one format's parse of its records succeeded. -/
theorem parsed_alone (hwriter : MAX_LINE_DEPTH ≤ py.writerDepth) {content : Content}
    {parsed : ParsedTranscript} (h : parseTranscript py content = .ok parsed) :
    ∃ records, readRecords py content = .ok records
      ∧ parseAlone py (detectAgentType (records.map Prod.snd)) records = .ok parsed := by
  obtain ⟨parse, hloop, _⟩ := bind_eq_ok.mp h
  obtain ⟨records, hrecords⟩ := readRecords_of_ok hloop
  exact ⟨records, hrecords, (parseTranscript_of_records hwriter hrecords).symm.trans h⟩

/-- A parsed transcript keeps to the limits. -/
theorem parsed_within (hwriter : MAX_LINE_DEPTH ≤ py.writerDepth) {content : Content}
    {parsed : ParsedTranscript} (h : parseTranscript py content = .ok parsed) :
    EntriesWithin parsed.entries := by
  obtain ⟨records, _, halone⟩ := parsed_alone hwriter h
  generalize detectAgentType (records.map Prod.snd) = agentType at halone
  cases agentType with
  | claudeCode =>
    obtain ⟨state, hstate, rfl⟩ := map_eq_ok.mp halone
    exact (@foldlM_invariant _ _ _ (claudeAlone py) Within (fun _ => True)
      (fun _ _ _ hs _ => claudeAlone_within hs) _ _ _ (fun _ _ => trivial) (new_within _) hstate).entries
  | codex =>
    obtain ⟨state, hstate, rfl⟩ := map_eq_ok.mp halone
    exact (@foldlM_invariant _ _ _ (codexAlone py) Within (fun _ => True)
      (fun _ _ _ hs _ => codexAlone_within hs) _ _ _ (fun _ _ => trivial) (new_within _) hstate).entries

/-- The entries of a parsed transcript owe to their records what `Origin` says. -/
theorem parsed_origin (hwriter : MAX_LINE_DEPTH ≤ py.writerDepth) {content : Content}
    {parsed : ParsedTranscript} (h : parseTranscript py content = .ok parsed) :
    ∀ entry ∈ parsed.entries, Origin py entry := by
  obtain ⟨records, _, halone⟩ := parsed_alone hwriter h
  generalize detectAgentType (records.map Prod.snd) = agentType at halone
  cases agentType with
  | claudeCode =>
    obtain ⟨state, hstate, rfl⟩ := map_eq_ok.mp halone
    exact origin_claude hstate
  | codex =>
    obtain ⟨state, hstate, rfl⟩ := map_eq_ok.mp halone
    exact origin_codex hstate

end

end TrustPortal.Proofs.Transcript
