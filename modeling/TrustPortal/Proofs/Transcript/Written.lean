import TrustPortal.Proofs.Transcript.Records
import TrustPortal.Proofs.Transcript.Separators

/-!
# `TrustPortal.Proofs.Transcript.Written`: what a reconstruction is written from

`entryBytes_eq` says what is written for an entry: the text of its line, from the blocks that its
tool calls decode to. Those blocks are values that their text reads as (`storedBlocks_good`),
since stored tool calls hold no raw surrogate. `header_line` is the header as a line of its own:
ASCII text, small whatever the session holds, and no record of either format.
-/

set_option autoImplicit false

namespace TrustPortal.Proofs.Transcript

open TrustPortal.Python
open TrustPortal.Transcript

section
variable {py : Interpreter} {entry : Entry} {first : Bool} {session : SessionRow}
  {blocks : List Value} {c : CodePoint}

/-! ## Strings without raw surrogates -/

/-- The first character of joined pieces is the first piece's, or one above U+FFFF. -/
private theorem joinSurrogates_head (c : CodePoint) (escaped : Bool) (rest : List Piece) :
    ∃ d text, joinSurrogates ((c, escaped) :: rest) = d :: text
      ∧ (d = c ∨ d.isLowSurrogate = false) := by
  cases rest with
  | nil => exact ⟨c, [], rfl, .inl rfl⟩
  | cons p rest =>
    obtain ⟨d, escaped'⟩ := p
    rw [joinSurrogates]
    split_ifs with hpair
    · refine ⟨_, _, rfl, .inr ?_⟩
      have hd := d.isLt
      simp only [Bool.and_eq_true, CodePoint.isHighSurrogate, CodePoint.isLowSurrogate,
        decide_eq_true_eq] at hpair
      rw [CodePoint.isLowSurrogate, CodePoint.val_ofNat (by omega), Bool.and_eq_false_iff,
        decide_eq_false_iff_not, decide_eq_false_iff_not]
      omega
    · exact ⟨c, _, rfl, .inl rfl⟩

/-- A surrogate of the pieces was written as an escape. -/
def SurrogateEscaped (p : Piece) : Prop := p.2 = false → p.1.isSurrogate = false

private theorem surrogate_of_high (h : c.isHighSurrogate = true) : c.isSurrogate = true := by
  simp only [CodePoint.isHighSurrogate, CodePoint.isSurrogate, Bool.and_eq_true,
    decide_eq_true_eq] at h ⊢
  omega

private theorem surrogate_of_low (h : c.isLowSurrogate = true) : c.isSurrogate = true := by
  simp only [CodePoint.isLowSurrogate, CodePoint.isSurrogate, Bool.and_eq_true,
    decide_eq_true_eq] at h ⊢
  omega

/-- What was joined has no pair left: the two escapes of a pair are one character. -/
theorem joinSurrogates_noPair (length : Nat) : ∀ pieces : List Piece,
    pieces.length ≤ length → (∀ p ∈ pieces, SurrogateEscaped p) →
    NoPair (joinSurrogates pieces) := by
  -- By induction on the length: a pair takes two pieces at once.
  induction length with
  | zero =>
    intro pieces hlength _
    rw [List.length_eq_zero_iff.mp (Nat.le_zero.mp hlength)]
    exact List.isChain_nil
  | succ length ih =>
    rintro (_ | ⟨⟨c, escaped⟩, _ | ⟨⟨d, escaped'⟩, rest⟩⟩) hlength hpieces
    · exact List.isChain_nil
    · exact List.isChain_singleton _
    · rw [List.length_cons, List.length_cons] at hlength
      rw [joinSurrogates]
      split_ifs with hpair
      · have hrest := ih rest (by omega) fun p hp =>
          hpieces p (List.mem_cons_of_mem _ (List.mem_cons_of_mem _ hp))
        refine List.isChain_cons.mpr ⟨fun e _ => ?_, hrest⟩
        rintro ⟨hhigh, _⟩
        simp only [Bool.and_eq_true, CodePoint.isHighSurrogate, CodePoint.isLowSurrogate,
          decide_eq_true_eq] at hpair
        rw [CodePoint.isHighSurrogate, CodePoint.val_ofNat (by omega)] at hhigh
        simp only [Bool.and_eq_true, decide_eq_true_eq] at hhigh
        omega
      · have hrest := ih ((d, escaped') :: rest) (by rw [List.length_cons]; omega) fun p hp =>
          hpieces p (List.mem_cons_of_mem _ hp)
        refine List.isChain_cons.mpr ⟨fun e he => ?_, hrest⟩
        obtain ⟨head, text, hhead, hcases⟩ := joinSurrogates_head d escaped' rest
        rw [hhead, List.head?_cons, Option.mem_some_iff] at he
        subst he
        rintro ⟨hhigh, hlow⟩
        rcases hcases with rfl | hother
        · -- Both are surrogates, so both were escapes, and a pair of escapes is joined.
          have hc := hpieces _ List.mem_cons_self
          have hd := hpieces _ (List.mem_cons_of_mem _ List.mem_cons_self)
          cases escaped with
          | false => exact absurd (surrogate_of_high hhigh) (by rw [hc rfl]; decide)
          | true =>
            cases escaped' with
            | false => exact absurd (surrogate_of_low hlow) (by rw [hd rfl]; decide)
            | true => exact hpair (by simp [hhigh, hlow])
        · rw [hother] at hlow
          cases hlow

/-- A text without raw surrogates has strings without pairs. -/
private theorem surrogateEscaped_rule : StringRule NoPair SurrogateEscaped where
  join := fun pieces => joinSurrogates_noPair pieces.length pieces (Nat.le_refl _)
  escaped := by
    rintro c ⟨⟩
  unescaped := by
    intro c d h _
    rw [unescape] at h
    split_ifs at h with hself
    all_goals cases h
    · simp only [CodePoint.is, Bool.or_eq_true, beq_iff_eq] at hself
      rw [CodePoint.isSurrogate, Bool.and_eq_false_iff, decide_eq_false_iff_not]
      rcases hself with (hself | hself) | hself <;> rw [hself] <;> exact .inl (by decide)
    all_goals decide

/-- The floats that are read are read back, where reading a literal's float again changes
nothing. -/
theorem readsBack_rule (hfloat : ∀ literal, py.float (py.float literal).val = py.float literal) :
    FloatRule py (ReadsBack py) where
  read := fun literal _ => hfloat literal
  nan := by
    intro h
    cases (show (Number.ofText (str "NaN")).isSome = false by decide).symm.trans h
  infinity := by
    intro h
    cases (show (Number.ofText (str "Infinity")).isSome = false by decide).symm.trans h
  negInfinity := by
    intro h
    cases (show (Number.ofText (str "-Infinity")).isSome = false by decide).symm.trans h

private theorem goodItems_filter {S : Str → Prop} {F : FloatText → Prop} (keep : Value → Bool)
    {items : List Value} (h : GoodItems S F items) : GoodItems S F (items.filter keep) := by
  induction items with
  | nil => trivial
  | cons item rest ih =>
    rw [List.filter_cons]
    split_ifs
    · exact ⟨h.1, ih h.2⟩
    · exact ih h.2

/-- The blocks of some of the items are values that their text reads as. -/
theorem good_filter {S : Str → Prop} {F : FloatText → Prop} (keep : Value → Bool)
    (h : Good S F (.list blocks)) : Good S F (.list (blocks.filter keep)) :=
  goodItems_filter keep h

/-- The blocks of stored tool calls are values that their text reads as. -/
theorem storedBlocks_good
    (hfloat : ∀ literal, py.float (py.float literal).val = py.float literal)
    (hclean : ∀ text, entry.toolCalls = some text → Clean text)
    (h : storedBlocks py entry.toolCalls = some blocks) :
    Good NoPair (ReadsBack py) (.list blocks) := by
  rw [storedBlocks] at h
  split at h
  · cases h
    trivial
  · next text htext =>
    have hclean := hclean text (Option.filter_eq_some_iff.mp htext).1
    cases hloads : loads py text with
    | ok value =>
      have hgood := (loads_fits surrogateEscaped_rule (readsBack_rule hfloat)
        (fun c hc _ => clean_not_surrogate hclean c hc) hloads).1
      rw [hloads] at h
      cases value with
      | list items =>
        cases h
        exact good_filter isDict hgood
      | none | bool _ | int _ | float _ | str _ | dict _ =>
        cases h
        trivial
    | error failure =>
      rw [hloads] at h
      cases failure <;> cases h <;> trivial

/-! ## The line of an entry -/

/-- The text of an entry's line. -/
def lineText (entry : Entry) (first : Bool) (session : SessionRow) (blocks : List Value) : Str :=
  render escapeStored (.dict (reconstructionRecord entry first session blocks))

/-- The line has neither surrogates nor control characters. -/
theorem lineText_chars :
    ∀ c ∈ lineText entry first session blocks, c.isSurrogate = false ∧ 0x20 ≤ c.val :=
  stored_chars _

/-- A separator of the line is one beyond ASCII. -/
theorem lineText_high :
    ∀ c ∈ lineText entry first session blocks, c.isLineBreak = true → 0x80 ≤ c.val := by
  intro c hc
  exact stored_high (lineText_chars c hc).2

/-- A text without surrogates is encoded. -/
theorem encode_of_not_surrogate {text : Str} (h : ∀ c ∈ text, c.isSurrogate = false) :
    encode text = some (encodePass text) := by
  rw [encode, if_neg]
  rintro hany
  obtain ⟨c, hc, hsurrogate⟩ := List.any_eq_true.mp hany
  rw [h c hc] at hsurrogate
  cases hsurrogate

/-- **What is written for an entry.** The text of its line and a line feed, where its tool calls
are read and the line can be written. -/
theorem entryBytes_eq {bytes : Bytes} : entryBytes py entry first session = some bytes
    ↔ ∃ blocks, storedBlocks py entry.toolCalls = some blocks
      ∧ (Value.dict (reconstructionRecord entry first session blocks)).depth ≤ py.writerDepth
      ∧ bytes = encodePass (lineText entry first session blocks ++ str "\n") := by
  have hencode : ∀ blocks, encode (escapeSurrogates (render escapeChar
        (.dict (reconstructionRecord entry first session blocks))) ++ str "\n")
      = some (encodePass (lineText entry first session blocks ++ str "\n")) := by
    intro blocks
    rw [escapeSurrogates_render]
    refine encode_of_not_surrogate fun c hc => ?_
    rcases List.mem_append.mp hc with hc | hc
    · exact (lineText_chars c hc).1
    · exact str_not_surrogate "\n" c hc
  rw [entryBytes, reconstructionLine]
  cases hblocks : storedBlocks py entry.toolCalls with
  | none =>
    constructor
    · nofun
    · rintro ⟨blocks, h, _⟩
      cases h
  | some blocks =>
    show ((Value.dumps py escapeChar _).bind _ = _) ↔ _
    rw [Value.dumps]
    constructor
    · intro h
      split_ifs at h with hdepth
      · rw [Option.bind_some, hencode] at h
        cases h
        exact ⟨blocks, rfl, hdepth, rfl⟩
      · cases h
    · rintro ⟨blocks', hblocks', hdepth, rfl⟩
      cases hblocks'
      rw [if_pos hdepth, Option.bind_some, hencode]

/-- The text of an object is between braces. -/
theorem render_dict_braces (escape : CodePoint → Str) (members : Members) :
    (∃ c rest, render escape (.dict members) = c :: rest ∧ c.is '\x7b' = true)
      ∧ ∃ c rest, render escape (.dict members) = rest ++ [c] ∧ c.is '\x7d' = true :=
  ⟨⟨_, _, rfl, by decide⟩, ⟨_, _, rfl, by decide⟩⟩

private theorem jsonSpace_nil : ∀ c ∈ ([] : Str), isJsonSpace c = true :=
  List.forall_mem_nil _

private theorem oneLine_of_printable {text : Str} (hcontrol : ∀ c ∈ text, 0x20 ≤ c.val) :
    ∀ c ∈ [] ++ text ++ [], c.is '\n' = false := by
  intro c hc
  rw [List.nil_append, List.append_nil] at hc
  have hlow := hcontrol c hc
  rw [CodePoint.is, beq_eq_false_iff_ne]
  have hfeed : '\n'.toNat = 0x0A := rfl
  omega

/-- The text of a value that reads as it, as a line of its own. -/
def renderedLine {S : Str → Prop} {escape : CodePoint → Str} {pieces : CodePoint → List Piece}
    (hreader : MAX_LINE_DEPTH ≤ py.readerDepth) (hescape : ∀ py, Escapes py escape pieces S)
    (record : Members) (hgood : Good S (ReadsBack py) (.dict record))
    (hdepth : (Value.dict record).depth ≤ MAX_LINE_DEPTH)
    (hsize : (encodePass (render escape (.dict record))).length ≤ MAX_ENTRY_BYTES)
    (hcontrol : ∀ c ∈ render escape (.dict record), 0x20 ≤ c.val) : JsonLine py where
  lead := []
  text := render escape (.dict record)
  trail := []
  record := record
  leadSpace := jsonSpace_nil
  trailSpace := jsonSpace_nil
  opens := (render_dict_braces escape record).1
  closes := (render_dict_braces escape record).2
  decodes := loads_render (hescape py) hgood (hdepth.trans hreader)
  depth := passesDepth_render hescape hgood hdepth
  size := by
    rw [List.nil_append, List.append_nil]
    exact hsize
  oneLine := oneLine_of_printable hcontrol

/-! ## The header -/

private theorem length_unicodeEscape (n : Nat) : (unicodeEscape n).length = 6 := rfl

private theorem length_escapeCharAscii (c : CodePoint) : (escapeCharAscii c).length ≤ 12 := by
  have hescape : (escapeChar c).length ≤ 6 := by
    rw [escapeChar]
    split_ifs
    all_goals
      first
        | exact (show _ ≤ 6 by decide)
        | exact le_of_eq (length_unicodeEscape _)
        | simp
  rw [escapeCharAscii]
  split_ifs
  · omega
  · rw [length_unicodeEscape]
    omega
  · rw [List.length_append, length_unicodeEscape, length_unicodeEscape]

/-- A string has at most twelve characters for each of its own. -/
private theorem length_renderString (text : Str) :
    (renderString escapeCharAscii text).length ≤ 12 * text.length + 2 := by
  have hchars : (text.flatMap escapeCharAscii).length ≤ 12 * text.length := by
    induction text with
    | nil => exact Nat.le_refl _
    | cons c rest ih =>
      have hc := length_escapeCharAscii c
      rw [List.flatMap_cons, List.length_append, List.length_cons]
      omega
  rw [renderString, List.length_append, List.length_append]
  have hquote : (str "\"").length = 1 := rfl
  omega

private theorem length_intText (n : Integer) : n.text.length ≤ MAX_STR_DIGITS + 1 := by
  have hnat : (natText n.value.natAbs).length ≤ MAX_STR_DIGITS := by
    have hshort := n.short
    rw [natText]
    split_ifs
    · decide
    · rw [List.length_reverse, List.length_map]
      exact hshort
  have hminus : (str "-").length = 1 := rfl
  rw [Integer.text]
  split_ifs
  · rw [List.length_append]
    omega
  · omega

/-- The header of a version of `count` entries. -/
def headerRecord (session : SessionRow) (count : Integer) : Members :=
  [(str "type", .str (str "decision-log-reconstruction")),
    (str "format", .str (str RECONSTRUCTION_FORMAT)),
    (str "session_id", .str session.id),
    (str "content_sha256", textValue session.contentSha256),
    (str "content_bytes", (session.contentBytes.map Value.int).getD .none),
    (str "entries", .int count)]

/-- A character is escaped to printable ASCII. -/
theorem escapeCharAscii_chars (c : CodePoint) : ∀ d ∈ escapeCharAscii c, Printable d := by
  intro d hd
  rw [escapeCharAscii] at hd
  split_ifs at hd with hascii
  · rcases escapeChar_chars c with hprintable | ⟨hself, hlow⟩
    · exact hprintable d hd
    · rw [hself, List.mem_singleton] at hd
      subst hd
      exact ⟨hlow, hascii⟩
  · exact unicodeEscape_printable _ d hd
  · rcases List.mem_append.mp hd with hd | hd
    · exact unicodeEscape_printable _ d hd
    · exact unicodeEscape_printable _ d hd

/-- ASCII text is JSON text with `ensure_ascii`. -/
theorem ascii_chars (value : Value) : ∀ c ∈ render escapeCharAscii value, Printable c :=
  render_chars (fun _ h => h) value fun _ _ c _ d hd => escapeCharAscii_chars c d hd

/-- ASCII text has one byte a character. -/
theorem length_encodePass_ascii {text : Str} (h : ∀ c ∈ text, c.val < 0x80) :
    (encodePass text).length = text.length := by
  induction text with
  | nil => rfl
  | cons c rest ih =>
    have hc := h c List.mem_cons_self
    rw [encodePass, List.flatMap_cons, encodeChar, if_pos hc, List.length_append,
      List.length_singleton, List.length_cons, ← encodePass,
      ih fun d hd => h d (List.mem_cons_of_mem c hd)]
    omega

/-- The header is small. -/
theorem header_size (hsession : SessionFits session) (count : Integer) :
    (encodePass (render escapeCharAscii (.dict (headerRecord session count)))).length
      ≤ MAX_ENTRY_BYTES := by
  have hid := length_renderString session.id
  have hsha : (render escapeCharAscii (textValue session.contentSha256)).length ≤ 12 * 64 + 4 := by
    cases hsha : session.contentSha256 with
    | none => decide
    | some sha =>
      have hlength := (hsession.contentSha256 sha hsha).1
      have hrender := length_renderString sha
      show (renderString escapeCharAscii sha).length ≤ _
      omega
  have hbytes : (render escapeCharAscii
      ((session.contentBytes.map Value.int).getD .none)).length ≤ MAX_STR_DIGITS + 1 := by
    cases session.contentBytes with
    | none => decide
    | some bytes => exact length_intText bytes
  have hcount := length_intText count
  have hlimit : MAX_STR_DIGITS = 4300 ∧ MAX_ENTRY_BYTES = 8388608 := ⟨rfl, rfl⟩
  have hfit := hsession.id.1
  have hnames : (renderString escapeCharAscii (str "type")).length = 6
      ∧ (renderString escapeCharAscii (str "format")).length = 8
      ∧ (renderString escapeCharAscii (str "session_id")).length = 12
      ∧ (renderString escapeCharAscii (str "content_sha256")).length = 16
      ∧ (renderString escapeCharAscii (str "content_bytes")).length = 15
      ∧ (renderString escapeCharAscii (str "entries")).length = 9
      ∧ (renderString escapeCharAscii (str "decision-log-reconstruction")).length = 29
      ∧ (renderString escapeCharAscii (str RECONSTRUCTION_FORMAT)).length = 32 := by
    decide +kernel
  rw [length_encodePass_ascii fun c hc => (ascii_chars _ c hc).2.trans (by decide), headerRecord,
    render]
  simp only [renderMembers, join, List.intercalate_cons_cons, List.intercalate_singleton,
    List.length_append, render, hnames]
  have hpunctuation : (str ": ").length = 2 ∧ (str ", ").length = 2 ∧ (str "\x7b").length = 1
      ∧ (str "\x7d").length = 1 := by decide
  omega

/-- The header is a value that its text reads as, one level deep. -/
theorem header_good (hsession : SessionFits session) (count : Integer) :
    Good NoPair (ReadsBack py) (.dict (headerRecord session count))
      ∧ (Value.dict (headerRecord session count)).depth = 1 := by
  have hsha : Good NoPair (ReadsBack py) (textValue session.contentSha256)
      ∧ (textValue session.contentSha256).depth = 0 := by
    cases hsha : session.contentSha256 with
    | none => exact ⟨trivial, rfl⟩
    | some sha => exact ⟨noPair_of_clean (hsession.contentSha256 sha hsha).2, rfl⟩
  have hbytes : Good NoPair (ReadsBack py) ((session.contentBytes.map Value.int).getD .none)
      ∧ ((session.contentBytes.map Value.int).getD .none).depth = 0 := by
    cases session.contentBytes <;> exact ⟨trivial, rfl⟩
  have hname : ∀ name, NoPair (str name) := noPair_str
  refine ⟨⟨⟨⟨hname _, hname _⟩, ⟨hname _, hname _⟩, ⟨hname _, noPair_of_clean hsession.id.2⟩,
    ⟨hname _, hsha.1⟩, ⟨hname _, hbytes.1⟩, ⟨hname _, trivial⟩, trivial⟩, ?_⟩, ?_⟩
  · show [str "type", str "format", str "session_id", str "content_sha256", str "content_bytes",
      str "entries"].Nodup
    decide
  · rw [headerRecord, Value.depth]
    simp only [Value.depthMembers, hsha.2, hbytes.2, Value.depth]
    rfl

/-- The header is no record of either format. -/
theorem header_other (session : SessionRow) (count : Integer) :
    payloadOf (headerRecord session count) = none
      ∧ Parse.isClaudeRecord (headerRecord session count) = false := by
  have hpayload : get (headerRecord session count) "payload" = .none := by
    simp [Python.get, headerRecord, find_cons, find, str_inj]
  have htype : get (headerRecord session count) "type"
      = .str (str "decision-log-reconstruction") := by
    simp [Python.get, headerRecord, find_cons]
  constructor
  · rw [payloadOf, hpayload]
  · rw [Parse.isClaudeRecord, isAnyText, htype]
    decide

/-- A version within the limits of a transcript has a header. -/
theorem reconstructionHeader_some {count : Nat} (h : count ≤ MAX_TRANSCRIPT_ENTRIES) :
    ∃ number : Integer, reconstructionHeader session count = some (headerRecord session number) := by
  have hdigits : digitCount (count : Int).natAbs ≤ MAX_STR_DIGITS := by
    have hlimit : count < 10 ^ 5 := lt_of_le_of_lt h (by decide)
    have hlength := Nat.digits_length_le_iff (by decide : 1 < 10) count |>.mpr hlimit
    rw [digitCount, Int.natAbs_natCast]
    exact hlength.trans (by decide)
  exact ⟨⟨count, hdigits⟩, dif_pos hdigits⟩

end

end TrustPortal.Proofs.Transcript
