import TrustPortal.Proofs.Transcript.EntryLine

/-!
# `TrustPortal.Proofs.Transcript.Separators`: line separators in an entry's line

JSON text escapes the control characters, so the only characters of a line at which the parser
ends it are U+0085, U+2028 and U+2029, and each comes from a string that holds it
(`any_isLineBreak_render`). The strings of an entry's line are its texts, the session's texts on
the first line and the strings of its tool calls (`breaks_record`).
-/

set_option autoImplicit false

namespace TrustPortal.Proofs.Transcript

open TrustPortal.Python
open TrustPortal.Transcript
open TrustPortal.DecisionLog (isoformat)

/-- The text holds a separator that JSON text can hold and at which the parser ends a line. -/
def breaks (text : Str) : Bool := text.any fun c => c.isLineBreak && decide (0x80 ≤ c.val)

/-- The texts of an entry's line. -/
def entryTexts (entry : Entry) (first : Bool) (session : SessionRow) : List Str :=
  [entry.role, entry.contentText, entry.toolCalls, entry.messageId].filterMap id
    ++ (if first then [session.model, session.cwd, session.gitBranch].filterMap id else [])

section
variable {py : Interpreter} {entry : Entry} {first : Bool} {session : SessionRow}
  {blocks : List Value} {value : Value} {c : CodePoint} {members members' : Members}

/-! ## Separators in the line -/

/-- Stored JSON text has neither surrogates nor control characters. -/
theorem stored_chars (value : Value) :
    ∀ d ∈ render escapeStored value, d.isSurrogate = false ∧ 0x20 ≤ d.val := by
  refine render_chars (fun c hc => ⟨printable_not_surrogate hc, hc.1⟩) value ?_
  intro s _ c _ d hd
  rw [escapeStored] at hd
  split_ifs at hd with hsurrogate
  · have hprintable := unicodeEscape_printable c.val d hd
    exact ⟨printable_not_surrogate hprintable, hprintable.1⟩
  · rcases escapeChar_chars c with hprintable | ⟨hself, hlow⟩
    · exact ⟨printable_not_surrogate (hprintable d hd), (hprintable d hd).1⟩
    · rw [hself, List.mem_singleton] at hd
      subst hd
      exact ⟨Bool.eq_false_iff.mpr hsurrogate, hlow⟩

theorem not_break_of_printable (h : Printable c) : c.isLineBreak = false := by
  have hlow := h.1
  have hhigh := h.2
  simp only [CodePoint.isLineBreak, Bool.or_eq_false_iff, decide_eq_false_iff_not,
    beq_eq_false_iff_ne]
  omega

/-- A separator that is no control character is one beyond ASCII. -/
theorem stored_high (hlow : 0x20 ≤ c.val) (h : c.isLineBreak = true) : 0x80 ≤ c.val := by
  rw [CodePoint.isLineBreak] at h
  simp only [Bool.or_eq_true, decide_eq_true_eq, beq_iff_eq] at h
  omega

/-- A separator beyond ASCII is written as itself. -/
private theorem escapeStored_break (h : c.isLineBreak = true) (hhigh : 0x80 ≤ c.val) :
    escapeStored c = [c] := by
  have hval : c.val = 0x85 ∨ c.val = 0x2028 ∨ c.val = 0x2029 := by
    rw [CodePoint.isLineBreak] at h
    simp only [Bool.or_eq_true, decide_eq_true_eq, beq_iff_eq] at h
    omega
  have hself : ∀ {n : Nat}, c.val = n → c = .ofNat n := by
    rintro n rfl
    exact (CodePoint.ofNat_val c).symm
  rcases hval with hval | hval | hval
  all_goals
    obtain rfl := hself hval
    decide

/-- A part of a joined text is in it. -/
private theorem mem_of_join {separator : Str} {texts : List Str}
    (h : ∃ text ∈ texts, c ∈ text) : c ∈ join separator texts := by
  obtain ⟨text, htext, hc⟩ := h
  rw [join]
  induction texts with
  | nil => cases htext
  | cons head rest ih =>
    cases rest with
    | nil =>
      rw [List.intercalate_singleton]
      cases List.mem_singleton.mp htext
      exact hc
    | cons second rest =>
      rw [List.intercalate_cons_cons]
      rcases List.mem_cons.mp htext with rfl | htext
      · exact List.mem_append_left _ (List.mem_append_left _ hc)
      · exact List.mem_append_right _ (ih htext)

private theorem mem_renderString {escape : CodePoint → Str} {s : Str} {d : CodePoint} (hc : c ∈ s)
    (hd : d ∈ escape c) : d ∈ renderString escape s :=
  List.mem_append_left _ (List.mem_append_right _ (List.mem_flatMap.mpr ⟨c, hc, hd⟩))

mutual

/-- What a string's characters are escaped to is in the text of the value. -/
theorem mem_render {escape : CodePoint → Str} {d : CodePoint} : ∀ value : Value,
    ∀ s ∈ strings value, ∀ c ∈ s, d ∈ escape c → d ∈ render escape value
  | .none, _, hs, _, _, _ | .bool _, _, hs, _, _, _ | .int _, _, hs, _, _, _
  | .float _, _, hs, _, _, _ => by cases hs
  | .str t, s, hs, c, hc, hd => by
    cases List.mem_singleton.mp hs
    exact mem_renderString hc hd
  | .list items, s, hs, c, hc, hd => by
    have hitem := mem_renderItems items s hs c hc hd
    exact List.mem_append_left _ (List.mem_append_right _ (mem_of_join hitem))
  | .dict members, s, hs, c, hc, hd => by
    have hmember := mem_renderMembers members s hs c hc hd
    exact List.mem_append_left _ (List.mem_append_right _ (mem_of_join hmember))

/-- `mem_render` for the items of an array. -/
theorem mem_renderItems {escape : CodePoint → Str} {d : CodePoint} : ∀ items : List Value,
    ∀ s ∈ stringsItems items, ∀ c ∈ s, d ∈ escape c → ∃ text ∈ renderItems escape items, d ∈ text
  | [], _, hs, _, _, _ => by cases hs
  | item :: items, s, hs, c, hc, hd => by
    rcases List.mem_append.mp hs with hs | hs
    · exact ⟨_, List.mem_cons_self, mem_render item s hs c hc hd⟩
    · obtain ⟨text, htext, hmem⟩ := mem_renderItems items s hs c hc hd
      exact ⟨text, List.mem_cons_of_mem _ htext, hmem⟩

/-- `mem_render` for the members of an object. -/
theorem mem_renderMembers {escape : CodePoint → Str} {d : CodePoint} :
    ∀ members : List (Str × Value), ∀ s ∈ stringsMembers members, ∀ c ∈ s, d ∈ escape c →
      ∃ text ∈ renderMembers escape members, d ∈ text
  | [], _, hs, _, _, _ => by cases hs
  | (name, value) :: members, s, hs, c, hc, hd => by
    rcases List.mem_append.mp hs with hs | hs
    · rcases List.mem_cons.mp hs with rfl | hs
      · have hname := mem_renderString hc hd
        exact ⟨_, List.mem_cons_self, List.mem_append_left _ (List.mem_append_left _ hname)⟩
      · exact ⟨_, List.mem_cons_self, List.mem_append_right _ (mem_render value s hs c hc hd)⟩
    · obtain ⟨text, htext, hmem⟩ := mem_renderMembers members s hs c hc hd
      exact ⟨text, List.mem_cons_of_mem _ htext, hmem⟩

end

/-- Stored JSON text holds a separator where a string of the value does. -/
theorem any_isLineBreak_render (value : Value) :
    (render escapeStored value).any CodePoint.isLineBreak = (strings value).any breaks := by
  rw [Bool.eq_iff_iff, List.any_eq_true, List.any_eq_true]
  constructor
  · rintro ⟨d, hd, hbreak⟩
    by_contra hnone
    have hclean : ∀ d ∈ render escapeStored value, d.isLineBreak = false := by
      refine render_chars (fun _ => not_break_of_printable) value ?_
      intro s hs c hc d hd
      rw [escapeStored] at hd
      split_ifs at hd
      · exact not_break_of_printable (unicodeEscape_printable c.val d hd)
      · rcases escapeChar_chars c with hprintable | ⟨hself, hlow⟩
        · exact not_break_of_printable (hprintable d hd)
        · rw [hself, List.mem_singleton] at hd
          subst hd
          refine Bool.eq_false_iff.mpr fun hbreak => hnone ⟨s, hs, List.any_eq_true.mpr ⟨d, hc, ?_⟩⟩
          simp [hbreak, stored_high hlow hbreak]
    rw [hclean d hd] at hbreak
    cases hbreak
  · rintro ⟨s, hs, hbreaks⟩
    obtain ⟨c, hc, hbreak⟩ := List.any_eq_true.mp hbreaks
    rw [Bool.and_eq_true, decide_eq_true_eq] at hbreak
    refine ⟨c, mem_render value s hs c hc ?_, hbreak.1⟩
    rw [escapeStored_break hbreak.1 hbreak.2]
    exact List.mem_singleton_self c

/-! ## The strings of an entry's line -/

/-- Printable text has no separator. -/
theorem breaks_printable {text : Str} (h : ∀ c ∈ text, Printable c) : breaks text = false := by
  rw [breaks, List.any_eq_false]
  intro c hc
  rw [not_break_of_printable (h c hc), Bool.false_and]
  exact Bool.false_ne_true

private theorem stringsMembers_append (members members' : Members) :
    stringsMembers (members ++ members') = stringsMembers members ++ stringsMembers members' := by
  induction members with
  | nil => rfl
  | cons member rest ih =>
    obtain ⟨key, value⟩ := member
    rw [List.cons_append, stringsMembers, stringsMembers, ih, List.append_assoc]

private theorem stringsItems_append (items items' : List Value) :
    stringsItems (items ++ items') = stringsItems items ++ stringsItems items' := by
  induction items with
  | nil => rfl
  | cons item rest ih =>
    rw [List.cons_append, stringsItems, stringsItems, ih, List.append_assoc]

/-- A member that is left out where there is no text. -/
private theorem breaks_memberOf {name : String} (h : ∀ c ∈ str name, Printable c)
    (text : Option Str) :
    (stringsMembers (memberOf name (text.map .str))).any breaks = text.any breaks := by
  cases text with
  | none => rfl
  | some text => simp [memberOf, stringsMembers, strings, breaks_printable h]

/-- A text of the session counts on the first line. -/
private theorem breaks_given {name : String} (h : ∀ c ∈ str name, Printable c)
    (text : Option Str) :
    (stringsMembers (memberOf name (if first then given text else none))).any breaks
      = (first && text.any breaks) := by
  cases first with
  | false => rfl
  | true =>
    rw [if_pos rfl, given, breaks_memberOf h, Bool.true_and]
    cases text with
    | none => rfl
    | some text =>
      cases text with
      | nil => rfl
      | cons c rest => rfl

private theorem breaks_textValue (text : Option Str) :
    (strings (textValue text)).any breaks = text.any breaks := by
  cases text with
  | none => rfl
  | some text => simp [textValue, strings]

/-- The time of an entry has no separator. -/
private theorem breaks_timestamp (timestamp : Option Int) :
    (stringsMembers (memberOf "timestamp"
      (timestamp.map fun t => .str (str (isoformat t))))).any breaks = false := by
  cases timestamp with
  | none => rfl
  | some t =>
    have htime := breaks_printable fun c hc => (isoformat_printable t c hc).1
    have hname : breaks (str "timestamp") = false := by decide
    simp [memberOf, stringsMembers, strings, htime, hname]

/-- A string of an entry's line that holds a separator is a text of the entry or the session, or
a string of the tool calls. -/
theorem breaks_record :
    (strings (.dict (reconstructionRecord entry first session blocks))).any breaks
      = (entry.role.any breaks || entry.contentText.any breaks || (stringsItems blocks).any breaks
        || entry.messageId.any breaks
        || first && (session.model.any breaks || session.cwd.any breaks
          || session.gitBranch.any breaks)) := by
  have htext : (stringsItems (entry.contentText.map textBlock).toList).any breaks
      = entry.contentText.any breaks := by
    cases entry.contentText with
    | none => rfl
    | some text =>
      have htype : breaks (str "type") = false ∧ breaks (str "text") = false := by decide
      simp [textBlock, stringsItems, strings, stringsMembers, htype]
  have hmessage : (strings (.dict (reconstructionMessage entry first session blocks))).any breaks
      = (entry.role.any breaks || entry.contentText.any breaks || (stringsItems blocks).any breaks
        || entry.messageId.any breaks || first && session.model.any breaks) := by
    have hnames : breaks (str "role") = false ∧ breaks (str "content") = false := by decide
    rw [strings, reconstructionMessage, stringsMembers_append, stringsMembers_append,
      List.any_append, List.any_append, breaks_memberOf (by decide), breaks_given (by decide)]
    simp [stringsMembers, strings, stringsItems_append, breaks_textValue, htext, hnames,
      Bool.or_assoc]
  have htype : ∀ b : Prop, ∀ _ : Decidable b,
      (strings (.str (if b then str "assistant" else str "user"))).any breaks = false := by
    intro b _
    split_ifs <;> decide
  have hnames : breaks (str "type") = false ∧ breaks (str "message") = false := by decide
  rw [strings, reconstructionRecord, stringsMembers_append, stringsMembers_append,
    stringsMembers_append, List.any_append, List.any_append, List.any_append, breaks_timestamp,
    breaks_given (by decide), breaks_given (by decide), stringsMembers, stringsMembers,
    stringsMembers, List.append_nil, List.any_append, List.any_cons, List.any_cons, hnames.1,
    hnames.2, htype, hmessage]
  cases first <;> simp [Bool.or_assoc]

/-- The texts of an entry that hold a separator. -/
theorem breaks_entryTexts : (entryTexts entry first session).any breaks
    = (entry.role.any breaks || entry.contentText.any breaks || entry.toolCalls.any breaks
      || entry.messageId.any breaks
      || first && (session.model.any breaks || session.cwd.any breaks
        || session.gitBranch.any breaks)) := by
  have hsome : ∀ (text : Option Str) (texts : List (Option Str)),
      ((text :: texts).filterMap id).any breaks = (text.any breaks || (texts.filterMap id).any breaks) := by
    intro text texts
    cases text <;> rfl
  have hnil : (([] : List (Option Str)).filterMap id).any breaks = false := rfl
  rw [entryTexts, List.any_append]
  cases first <;> simp only [hsome, hnil, if_true, if_false, List.any_nil, Bool.or_false, Bool.true_and,
    Bool.false_and, Bool.or_assoc, Bool.false_eq_true]

/-- Stored tool calls hold a separator where a string of their blocks does. -/
theorem breaks_toolCallsText (blocks : List Value) :
    breaks (toolCallsText (.list blocks)) = (stringsItems blocks).any breaks := by
  have hbreaks := any_isLineBreak_render (.list blocks)
  have hhigh : ∀ d ∈ render escapeStored (.list blocks),
      (d.isLineBreak && decide (0x80 ≤ d.val)) = d.isLineBreak := by
    intro d hd
    have hlow := (stored_chars (.list blocks) d hd).2
    cases hbreak : d.isLineBreak with
    | false => rfl
    | true => rw [Bool.true_and, decide_eq_true_eq.mpr (stored_high hlow hbreak)]
  rw [toolCallsText, escapeSurrogates_render, breaks, ← strings, ← hbreaks]
  rw [Bool.eq_iff_iff, List.any_eq_true, List.any_eq_true]
  exact exists_congr fun d => and_congr_right fun hd => by rw [hhigh d hd]

end

end TrustPortal.Proofs.Transcript
