import TrustPortal.Proofs.Transcript.Entries
import TrustPortal.Proofs.Transcript.Utf8

/-!
# `TrustPortal.Proofs.Transcript.Records`: no record is lost

A `JsonLine` is a line of a JSONL text: the JSON text of an object, with whitespace around it,
within the limits of a line. `jsonl` ends each with a line feed. `records_kept` says that the
parser reads exactly the objects of the lines, in order, and returns exactly one entry for each
`user` or `assistant` record, or for each stored item when one of them is a Codex record.

It needs one thing that JSON does not promise: no character at which `str.splitlines()` ends a
line. A raw U+2028 in a string is well-formed JSON, and the parser splits the line there by
design; both halves are malformed and ignored (`separator_loses_record`).
-/

set_option autoImplicit false

namespace TrustPortal.Proofs.Transcript

open TrustPortal.Lib
open TrustPortal.Python
open TrustPortal.Transcript

/-- A line that holds the JSON text of an object, within the limits of a line. `json.loads` reads
the text: it raises a plain `ValueError` on an int of more than `MAX_STR_DIGITS` digits. -/
structure JsonLine (py : Interpreter) where
  lead : Str
  text : Str
  trail : Str
  record : Members
  leadSpace : ∀ c ∈ lead, isJsonSpace c = true
  trailSpace : ∀ c ∈ trail, isJsonSpace c = true
  opens : ∃ c rest, text = c :: rest ∧ c.is '\x7b' = true
  closes : ∃ c rest, text = rest ++ [c] ∧ c.is '\x7d' = true
  decodes : loads py text = .ok (.dict record)
  depth : passesDepth text = true
  size : (encodePass (lead ++ text ++ trail)).length ≤ MAX_ENTRY_BYTES
  oneLine : ∀ c ∈ lead ++ text ++ trail, c.is '\n' = false

section
variable {py : Interpreter}

/-- The characters of the line. -/
def JsonLine.line (l : JsonLine py) : Str := l.lead ++ l.text ++ l.trail

/-- The lines as JSONL, each ended by a line feed. -/
def jsonl (lines : List (JsonLine py)) : Str := lines.flatMap fun l => l.line ++ str "\n"

/-- The content is this text, or its UTF-8. -/
def Carries (content : Content) (text : Str) : Prop :=
  content = .text text ∨ ∃ bytes, encode text = some bytes ∧ content = .bytes bytes

/-- One entry a Claude Code record, or one a stored Codex item when a Codex record occurs. -/
def expectedEntries (py : Interpreter) (records : List Members) : List Entry :=
  match detectAgentType records with
  | .claudeCode => claudeEntries py records
  | .codex => codexEntries py records

/-- The records of the lines with the numbers of the lines. -/
def numbered (lines : List (JsonLine py)) (first : Nat) : List (Nat × Members) :=
  (lines.zipIdx first).map fun l => (l.2, l.1.record)

/-! ## One line -/

private theorem isSpace_of_json {c : CodePoint} (h : isJsonSpace c = true) : c.isSpace = true := by
  simp only [isJsonSpace, CodePoint.is, Bool.or_eq_true, beq_iff_eq] at h
  rw [CodePoint.isSpace]
  rcases h with ((h | h) | h) | h <;> rw [h] <;> decide

theorem not_isSpace_of_is {c : CodePoint} {a : Char} (h : c.is a = true)
    (ha : 0x21 ≤ a.toNat ∧ a.toNat < 0x7F) : c.isSpace = false := by
  simp only [CodePoint.is, beq_iff_eq] at h
  simp only [CodePoint.isSpace, Bool.or_eq_false_iff, decide_eq_false_iff_not, beq_eq_false_iff_ne]
  omega

/-- The object's text is what is left of the line. -/
theorem JsonLine.strip_line (l : JsonLine py) : strip l.line = l.text := by
  obtain ⟨first, rest, hfirst, hbrace⟩ := l.opens
  obtain ⟨last, init, hlast, hend⟩ := l.closes
  refine strip_append (fun c hc => isSpace_of_json (l.leadSpace c hc))
    (fun c hc => isSpace_of_json (l.trailSpace c hc)) (by rw [hfirst]; exact List.cons_ne_nil _ _)
    (fun c hc => ?_) fun c hc => ?_
  · rw [hfirst] at hc
    cases hc
    exact not_isSpace_of_is hbrace (by decide)
  · rw [hlast, List.getLast?_concat] at hc
    cases hc
    exact not_isSpace_of_is hend (by decide)

/-- The object is the record of the line. -/
theorem JsonLine.readRecord_text (l : JsonLine py) (lineNumber : Nat) :
    readRecord py lineNumber l.text = .ok (some l.record) := by
  obtain ⟨first, rest, hfirst, _⟩ := l.opens
  have hcheck : checkLineDepth lineNumber l.text = .ok () := by
    rw [checkLineDepth, if_neg]
    rintro ⟨_, _, hdeep⟩
    rw [l.depth] at hdeep
    cases hdeep
  rw [readRecord, if_neg (by rw [hfirst]; exact Bool.false_ne_true), hcheck]
  dsimp only [bind, Except.bind]
  rw [l.decodes]
  rfl

/-- A character has a byte. -/
private theorem length_encodeChar (c : CodePoint) : 1 ≤ (encodeChar c).length := by
  rw [encodeChar]
  split_ifs <;> simp

/-- A text has no more characters than bytes. -/
theorem length_le_encodePass (text : Str) : text.length ≤ (encodePass text).length := by
  induction text with
  | nil => exact Nat.le_refl _
  | cons c rest ih =>
    have hchar := length_encodeChar c
    have hrest : (encodePass (c :: rest)).length = (encodeChar c).length + (encodePass rest).length :=
      List.length_append
    rw [hrest, List.length_cons]
    omega

/-- A line of text is read as the object's text. -/
theorem JsonLine.readLine_text (l : JsonLine py) (lineNumber : Nat) :
    readLine lineNumber (.text l.line) = .ok l.text := by
  have hsize : ¬utf8Length l.line > MAX_ENTRY_BYTES := by
    have hline := l.size
    have hlength := length_le_encodePass l.line
    rw [utf8Length]
    rw [JsonLine.line] at hlength ⊢
    split_ifs <;> omega
  rw [readLine, if_neg hsize, l.strip_line]

/-- A line of bytes is read as the object's text. -/
theorem JsonLine.readLine_bytes (l : JsonLine py) (lineNumber : Nat)
    (h : ∀ c ∈ l.line, c.isSurrogate = false) :
    readLine lineNumber (.bytes (encodePass l.line)) = .ok l.text := by
  have hsize : ¬(encodePass l.line).length > MAX_ENTRY_BYTES := Nat.not_lt.mpr l.size
  rw [readLine, if_neg hsize, decode_encodePass h, l.strip_line]

/-! ## All lines -/

/-- Lines that are read as their objects' texts are read as their records. -/
private theorem readRecordsFrom_lines {raw : JsonLine py → RawLine} {lines : List (JsonLine py)}
    (h : ∀ l ∈ lines, ∀ lineNumber, readLine lineNumber (raw l) = .ok l.text) (first : Nat) :
    readRecordsFrom py ((lines.map raw).zipIdx first) = .ok (numbered lines first) := by
  induction lines generalizing first with
  | nil => rfl
  | cons l rest ih =>
    rw [List.map_cons, List.zipIdx_cons, readRecordsFrom, h l List.mem_cons_self first]
    show (readRecord py first l.text >>= _) = _
    rw [l.readRecord_text]
    show (readRecordsFrom py ((rest.map raw).zipIdx (first + 1)) >>= _) = _
    rw [ih fun l' hl' => h l' (List.mem_cons_of_mem l hl')]
    rfl

theorem jsonl_cons (l : JsonLine py) (rest : List (JsonLine py)) :
    jsonl (l :: rest) = l.line ++ str "\n" ++ jsonl rest := rfl

private theorem textLines_jsonl {lines : List (JsonLine py)}
    (h : ∀ l ∈ lines, ∀ c ∈ l.line, c.isLineBreak = false) :
    textLines (jsonl lines) = lines.map JsonLine.line := by
  induction lines with
  | nil => rfl
  | cons l rest ih =>
    rw [jsonl_cons, textLines_cons (h l List.mem_cons_self),
      ih fun l' hl' => h l' (List.mem_cons_of_mem l hl'), List.map_cons]

private theorem byteLines_jsonl {lines : List (JsonLine py)}
    (h : ∀ l ∈ lines, ∀ c ∈ l.line, c.isLineBreak = false) :
    byteLines (encodePass (jsonl lines)) = lines.map fun l => encodePass l.line := by
  induction lines with
  | nil => rfl
  | cons l rest ih =>
    rw [jsonl_cons, encodePass_append, byteLines_cons (h l List.mem_cons_self),
      ih fun l' hl' => h l' (List.mem_cons_of_mem l hl'), List.map_cons]

/-- The parser reads the objects of the lines, in order. -/
theorem readRecords_jsonl {lines : List (JsonLine py)} {content : Content}
    (hunbroken : ∀ l ∈ lines, ∀ c ∈ l.line, c.isLineBreak = false)
    (hcontent : Carries content (jsonl lines)) :
    readRecords py content = .ok (numbered lines 1) := by
  rcases hcontent with rfl | ⟨bytes, hencode, rfl⟩
  · rw [readRecords, Content.lines, textLines_jsonl hunbroken, List.map_map]
    exact readRecordsFrom_lines (fun l _ lineNumber => l.readLine_text lineNumber) 1
  · rw [encode] at hencode
    split_ifs at hencode with hsurrogate
    cases hencode
    rw [readRecords, Content.lines, byteLines_jsonl hunbroken, List.map_map]
    refine readRecordsFrom_lines (fun l hl lineNumber => l.readLine_bytes lineNumber fun c hc => ?_) 1
    cases hc' : c.isSurrogate with
    | false => rfl
    | true =>
      refine absurd (List.any_eq_true.mpr ⟨c, ?_, hc'⟩) hsurrogate
      exact List.mem_flatMap.mpr ⟨l, hl, List.mem_append_left _ hc⟩

private theorem numbered_records (lines : List (JsonLine py)) (first : Nat) :
    (numbered lines first).map Prod.snd = lines.map JsonLine.record := by
  induction lines generalizing first with
  | nil => rfl
  | cons l rest ih =>
    rw [numbered, List.zipIdx_cons, List.map_cons, List.map_cons, List.map_cons]
    exact congrArg _ (ih (first + 1))

/-- The parser does with the lines what parsing their objects in the detected format does. -/
theorem parseTranscript_jsonl (hwriter : MAX_LINE_DEPTH ≤ py.writerDepth) {lines : List (JsonLine py)}
    {content : Content} (hunbroken : ∀ l ∈ lines, ∀ c ∈ l.line, c.isLineBreak = false)
    (hcontent : Carries content (jsonl lines)) :
    parseTranscript py content
      = parseAlone py (detectAgentType (lines.map JsonLine.record)) (numbered lines 1) := by
  rw [parseTranscript_of_records hwriter (readRecords_jsonl hunbroken hcontent), numbered_records]

/-- **No record is lost.** Where no line holds a line separator, the parser does with the lines
what parsing their objects in the detected format does; and when it returns, its entries are
exactly the ones of the objects, in order. -/
theorem records_kept (hwriter : MAX_LINE_DEPTH ≤ py.writerDepth) {lines : List (JsonLine py)}
    {content : Content} (hunbroken : ∀ l ∈ lines, ∀ c ∈ l.line, c.isLineBreak = false)
    (hcontent : Carries content (jsonl lines)) :
    parseTranscript py content
        = parseAlone py (detectAgentType (lines.map JsonLine.record)) (numbered lines 1)
      ∧ ∀ parsed, parseTranscript py content = .ok parsed →
        parsed.entries = expectedEntries py (lines.map JsonLine.record) := by
  have halone := parseTranscript_jsonl hwriter hunbroken hcontent
  refine ⟨halone, fun parsed hparsed => ?_⟩
  rw [halone] at hparsed
  obtain ⟨state, hstate, rfl⟩ := map_eq_ok.mp hparsed
  rw [expectedEntries]
  generalize detectAgentType (lines.map JsonLine.record) = agentType at hstate ⊢
  cases agentType with
  | claudeCode =>
    rw [(entries_claude hstate).1, numbered_records]
    rfl
  | codex =>
    rw [(entries_codex hstate).1, numbered_records]
    rfl

end

/-! ## A prompt -/

/-- A prompt of one character in a record of its own. -/
def promptText (c : CodePoint) : Str :=
  str "\x7b\"type\":\"user\",\"message\":\x7b\"content\":\"" ++ c :: str "\"\x7d\x7d"

/-- The decoded record of a text, if it is an object. -/
def decodedRecord (text : Str) : Option Members :=
  match loads plainInterpreter text with
  | .ok (.dict record) => some record
  | _ => none

/-- A text of an object, as a line of its own. -/
private theorem exists_jsonLine {text : Str} {record : Members}
    (hdecodes : decodedRecord text = some record)
    (hopens : text.head?.any (fun c => c.is '\x7b') = true)
    (hcloses : text.getLast?.any (fun c => c.is '\x7d') = true) (hdepth : passesDepth text = true)
    (hsize : (encodePass text).length ≤ MAX_ENTRY_BYTES)
    (honeLine : ∀ c ∈ text, c.is '\n' = false) :
    ∃ l : JsonLine plainInterpreter, l.line = text ∧ l.record = record := by
  have hloads : loads plainInterpreter text = .ok (.dict record) := by
    rw [decodedRecord] at hdecodes
    split at hdecodes
    · next hloads =>
      cases hdecodes
      exact hloads
    · cases hdecodes
  have hfirst : ∃ c rest, text = c :: rest ∧ c.is '\x7b' = true := by
    cases text with
    | nil => cases hopens
    | cons c rest => exact ⟨c, rest, rfl, hopens⟩
  have hlast : ∃ c rest, text = rest ++ [c] ∧ c.is '\x7d' = true := by
    cases hlast : text.getLast? with
    | none =>
      rw [hlast] at hcloses
      cases hcloses
    | some c =>
      rw [hlast] at hcloses
      obtain ⟨rest, hrest⟩ := List.getLast?_eq_some_iff.mp hlast
      exact ⟨c, rest, hrest, hcloses⟩
  have hplain : ([] : Str) ++ text ++ [] = text := List.append_nil text
  exact ⟨⟨[], text, [], record, nofun, nofun, hfirst, hlast, hloads, hdepth,
    by rwa [hplain], by rwa [hplain]⟩, hplain, rfl⟩

/-- `records_kept` for the UTF-8 of a prompt with a raw non-ASCII character. -/
theorem records_kept_prompt : ∃ l : JsonLine plainInterpreter,
    l.line = promptText (.ofNat 0xE9) ∧
    (parseTranscript plainInterpreter (.bytes (encodePass (jsonl [l])))
        = parseAlone plainInterpreter (detectAgentType ([l].map JsonLine.record)) (numbered [l] 1)
      ∧ ∀ parsed, parseTranscript plainInterpreter (.bytes (encodePass (jsonl [l]))) = .ok parsed →
        parsed.entries = expectedEntries plainInterpreter ([l].map JsonLine.record)) := by
  have hdecoded : (decodedRecord (promptText (.ofNat 0xE9))).isSome = true := by decide +kernel
  obtain ⟨record, hrecord⟩ := Option.isSome_iff_exists.mp hdecoded
  obtain ⟨l, hl, _⟩ := exists_jsonLine hrecord (by decide) (by decide) (by decide) (by decide +kernel)
    (by decide)
  have hencode : encode (jsonl [l]) = some (encodePass (jsonl [l])) := by
    rw [encode, if_neg]
    rw [jsonl, List.flatMap_cons, List.flatMap_nil, hl]
    decide
  refine ⟨l, hl, records_kept (by decide) ?_ (.inr ⟨_, hencode, rfl⟩)⟩
  rintro l' hl'
  rw [List.mem_singleton.mp hl', hl]
  decide

/-- The same prompt with a raw U+2028 is a well-formed line, and it is lost. -/
theorem separator_loses_record : ∃ l : JsonLine plainInterpreter,
    l.line = promptText (.ofNat 0x2028)
    ∧ ((parseTranscript plainInterpreter (.bytes (encodePass (jsonl [l])))).toOption.map
      ParsedTranscript.entries) = some []
    ∧ (expectedEntries plainInterpreter [l.record]).length = 1 := by
  have hdecoded : ((decodedRecord (promptText (.ofNat 0x2028))).map fun record =>
      (expectedEntries plainInterpreter [record]).length) = some 1 := by
    decide +kernel
  cases hrecord : decodedRecord (promptText (.ofNat 0x2028)) with
  | none =>
    rw [hrecord] at hdecoded
    cases hdecoded
  | some record =>
    rw [hrecord] at hdecoded
    obtain ⟨l, hl, rfl⟩ := exists_jsonLine hrecord (by decide) (by decide) (by decide)
      (by decide +kernel) (by decide)
    refine ⟨l, hl, ?_, Option.some.inj hdecoded⟩
    rw [jsonl, List.flatMap_cons, List.flatMap_nil, hl]
    decide +kernel

end TrustPortal.Proofs.Transcript
