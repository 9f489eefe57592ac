import TrustPortal.Proofs.Transcript.Escapes
import TrustPortal.Proofs.Transcript.Parsed
import TrustPortal.Transcript.Reconstruct

/-!
# `TrustPortal.Proofs.Transcript.EntryLine`: the line of one entry

`reconstructionRecord` as a record: what the parser looks up in it (`get_record`, `get_message`),
the entry that the parser makes of it (`claudeEntry_record`), how deep it is
(`depth_record`) and that it is a value that its text reads as (`good_record`). The tool calls
of the entry are given as their blocks.
-/

set_option autoImplicit false

namespace TrustPortal.Proofs.Transcript

open TrustPortal.Python
open TrustPortal.Transcript
open TrustPortal.DecisionLog (isoformat)

section
variable {py : Interpreter} {entry : Entry} {first : Bool} {session : SessionRow}
  {blocks : List Value} {name : String} {members members' : Members}

/-! ## Members -/

/-- The code point of a character is no surrogate. -/
private theorem char_range (c : Char) : c.toNat < 0xD800 ∨ 0xDFFF < c.toNat ∧ c.toNat < 0x110000 :=
  c.valid

theorem ofChar_val (c : Char) : (CodePoint.ofChar c).val = c.toNat :=
  CodePoint.val_ofNat (by have := char_range c; omega)

/-- A literal has no surrogate. -/
theorem str_not_surrogate (text : String) : ∀ c ∈ str text, c.isSurrogate = false := by
  intro c hc
  obtain ⟨a, _, rfl⟩ := List.mem_map.mp hc
  have hrange := char_range a
  rw [CodePoint.isSurrogate, ofChar_val]
  simp only [Bool.and_eq_false_iff, decide_eq_false_iff_not]
  omega

/-- Two literals are the same text when they are the same string. -/
theorem str_inj {a b : String} : str a = str b ↔ a = b := by
  constructor
  · intro h
    refine String.toList_injective (List.map_injective_iff.mpr ?_ h)
    intro c d hcd
    have hval := congrArg CodePoint.val hcd
    rw [ofChar_val, ofChar_val] at hval
    exact Char.toNat_inj.mp hval
  · rintro rfl
    rfl

theorem find_append (members members' : Members) (name : Str) :
    find (members ++ members') name = (find members name).or (find members' name) := by
  induction members with
  | nil => rfl
  | cons member rest ih =>
    obtain ⟨key, value⟩ := member
    rw [List.cons_append, find, find]
    split_ifs
    · rfl
    · exact ih

theorem find_memberOf (key name : String) (value : Option Value) :
    find (memberOf key value) (str name) = if key = name then value else none := by
  cases value with
  | none => simp [memberOf, find]
  | some value => simp [memberOf, find, str_inj]

theorem find_cons (key name : String) (value : Value) (members : Members) :
    find ((str key, value) :: members) (str name)
      = if key = name then some value else find members (str name) := by
  simp [find, str_inj]

/-! ## What the parser looks up -/

theorem get_record_message : get (reconstructionRecord entry first session blocks) "message"
    = .dict (reconstructionMessage entry first session blocks) := by
  simp [Python.get, reconstructionRecord, find_cons]

theorem get_record_type : get (reconstructionRecord entry first session blocks) "type"
    = .str (if entry.role = some (str "assistant") then str "assistant" else str "user") := by
  simp [Python.get, reconstructionRecord, find_cons]

/-- The members of the line that are left out where they are not given. -/
theorem get_record : get (reconstructionRecord entry first session blocks) "timestamp"
      = ((entry.timestamp.map fun t => .str (str (isoformat t))).getD .none)
    ∧ get (reconstructionRecord entry first session blocks) "cwd"
      = (if first then given session.cwd else none).getD .none
    ∧ get (reconstructionRecord entry first session blocks) "gitBranch"
      = (if first then given session.gitBranch else none).getD .none
    ∧ get (reconstructionRecord entry first session blocks) "version" = .none
    ∧ get (reconstructionRecord entry first session blocks) "payload" = .none := by
  simp [Python.get, reconstructionRecord, find_cons, find_append, find_memberOf, find, str_inj]

/-- The members of the message. -/
theorem get_message : find (reconstructionMessage entry first session blocks) (str "role")
      = some (textValue entry.role)
    ∧ get (reconstructionMessage entry first session blocks) "content"
      = .list ((entry.contentText.map textBlock).toList ++ blocks)
    ∧ get (reconstructionMessage entry first session blocks) "id"
      = (entry.messageId.map .str).getD .none
    ∧ get (reconstructionMessage entry first session blocks) "model"
      = (if first then given session.model else none).getD .none := by
  simp [Python.get, reconstructionMessage, find_cons, find_append, find_memberOf, find, str_inj]

/-! ## Timestamps -/

/-- The characters of a time. -/
def TimeText (text : String) : Prop := ∀ c ∈ text.toList, c.isDigit = true ∨ c ∈ "-T:.+".toList

private theorem TimeText.append {a b : String} (ha : TimeText a) (hb : TimeText b) :
    TimeText (a ++ b) := by
  intro c hc
  rw [String.toList_append, List.mem_append] at hc
  exact hc.elim (ha c) (hb c)

private theorem zeroPad_time (width n : Nat) : TimeText (Sql.zeroPad width n) := by
  have hlist : (Sql.zeroPad width n).toList
      = List.replicate (width - (Nat.toDigits 10 n).length) '0' ++ Nat.toDigits 10 n := by
    simp [Sql.zeroPad, ← String.length_toList]
  intro c hc
  rw [hlist, List.mem_append] at hc
  rcases hc with hc | hc
  · rw [(List.mem_replicate.mp hc).2]
    exact .inl rfl
  · exact .inl (Nat.isDigit_of_mem_toDigits (by decide) (by decide) hc)

/-- A text whose characters are checked one by one. -/
private theorem timeText_of_all {text : String}
    (h : text.toList.all (fun c => c.isDigit || "-T:.+".toList.contains c) = true) :
    TimeText text := by
  intro c hc
  simpa only [Bool.or_eq_true, List.contains_iff_mem] using List.all_eq_true.mp h c hc

theorem isoformat_time (t : Int) : TimeText (isoformat t) := by
  have hdash : TimeText "-" := timeText_of_all (by decide)
  have hcolon : TimeText ":" := timeText_of_all (by decide)
  have hfraction : TimeText (if (t % 86400000000).toNat % 1000000 = 0 then ""
      else "." ++ Sql.zeroPad 6 ((t % 86400000000).toNat % 1000000)) := by
    split_ifs
    · exact timeText_of_all (by decide)
    · exact .append (timeText_of_all (by decide)) (zeroPad_time _ _)
  have hT : TimeText "T" := timeText_of_all (by decide)
  have hzone : TimeText "+00:00" := timeText_of_all (by decide)
  have hpair := zeroPad_time 2
  unfold isoformat
  generalize Sql.civilFromDays (t / 86400000000) = date
  obtain ⟨year, month, day⟩ := date
  refine .append (.append ?_ hfraction) hzone
  refine .append (.append (.append (.append (.append ?_ (hpair _)) hcolon) (hpair _)) hcolon) (hpair _)
  refine .append (.append (.append (.append (.append ?_ hdash) (hpair _)) hdash) (hpair _)) hT
  exact zeroPad_time 4 _

theorem isoformat_ne_nil (t : Int) : str (isoformat t) ≠ [] := by
  obtain ⟨start, hstart⟩ : ∃ start, isoformat t = start ++ "+00:00" := by
    unfold isoformat
    generalize Sql.civilFromDays (t / 86400000000) = date
    exact ⟨_, rfl⟩
  rw [hstart, str, String.toList_append, List.map_append]
  exact List.append_ne_nil_of_right_ne_nil _ (by decide)

/-- A time is printable and has no `Z`. -/
theorem isoformat_printable (t : Int) :
    ∀ c ∈ str (isoformat t), Printable c ∧ c.is 'Z' = false := by
  intro c hc
  obtain ⟨a, ha, rfl⟩ := List.mem_map.mp hc
  rw [Printable, CodePoint.is, ofChar_val, beq_eq_false_iff_ne]
  rcases isoformat_time t a ha with hdigit | hother
  · simp only [Char.isDigit, Bool.and_eq_true, decide_eq_true_eq, UInt32.le_iff_toNat_le] at hdigit
    have hval : a.toNat = a.val.toNat := rfl
    have hlow : '0'.val.toNat = 48 := rfl
    have hhigh : '9'.val.toNat = 57 := rfl
    have hz : 'Z'.toNat = 90 := rfl
    omega
  · have hall : "-T:.+".toList.all (fun d =>
        decide ((0x20 ≤ d.toNat ∧ d.toNat < 0x7F) ∧ d.toNat ≠ 'Z'.toNat)) = true := by decide
    exact of_decide_eq_true (List.all_eq_true.mp hall a hother)

/-! ## What the parser makes of it -/

theorem payloadOf_record : payloadOf (reconstructionRecord entry first session blocks) = none := by
  rw [payloadOf, get_record.2.2.2.2]

theorem isClaudeRecord_record :
    Parse.isClaudeRecord (reconstructionRecord entry first session blocks) = true := by
  rw [Parse.isClaudeRecord, isAnyText, get_record_type]
  split_ifs <;> decide

theorem messageOf_record : messageOf (reconstructionRecord entry first session blocks)
    = reconstructionMessage entry first session blocks := by
  rw [messageOf, get_record_message]

theorem roleOf_record : roleOf (reconstructionRecord entry first session blocks)
    = textValue entry.role := by
  rw [roleOf, messageOf_record, get_message.1, Option.getD_some]

theorem contentOf_record : contentOf (reconstructionRecord entry first session blocks)
    = .list ((entry.contentText.map textBlock).toList ++ blocks) := by
  rw [contentOf, messageOf_record, get_message.2.1]

theorem idOf_record : get (messageOf (reconstructionRecord entry first session blocks)) "id"
    = textValue entry.messageId := by
  rw [messageOf_record, get_message.2.2.1]
  cases entry.messageId <;> rfl

/-- A text that encodes has no surrogate. -/
theorem clean_not_surrogate {text : Str} (h : Clean text) : ∀ c ∈ text, c.isSurrogate = false := by
  intro c hc
  cases hsurrogate : c.isSurrogate with
  | false => rfl
  | true =>
    have hencode := h.1
    rw [encode, if_pos (List.any_eq_true.mpr ⟨c, hc, hsurrogate⟩)] at hencode
    cases hencode

/-- A text without NUL and surrogates stays as it is. -/
theorem cleanText_of_clean {text : Str} (h : Clean text) : cleanText text = text := by
  rw [cleanText]
  refine (List.map_congr_left fun c hc => ?_).trans (List.map_id _)
  have hsurrogate : c.isSurrogate = false := clean_not_surrogate h c hc
  rw [if_neg]
  · rfl
  · simp [h.2 c hc, hsurrogate]

/-- A column is read back as it is. -/
theorem fieldText_textValue {limit : Nat} {text : Option Str} (h : FieldFits limit text) :
    fieldText (textValue text) = text := by
  cases text with
  | none => rfl
  | some text => exact congrArg some (cleanText_of_clean (h text rfl).2)

/-- The tool calls of the line are its `tool_use` blocks. -/
theorem contentToolCalls_record :
    contentToolCalls (.list ((entry.contentText.map textBlock).toList ++ blocks))
      = if (blocks.filter isToolUse).isEmpty then none
        else some (toolCallsText (.list (blocks.filter isToolUse))) := by
  have htext : (entry.contentText.map textBlock).toList.filter isToolUse = [] := by
    cases entry.contentText with
    | none => rfl
    | some text => rfl
  rw [contentToolCalls, List.filter_append, htext, List.nil_append]

/-- The text of the line is the text of the entry, where the blocks are `tool_use` blocks. -/
theorem extractText_record (hblocks : ∀ block ∈ blocks, isToolUse block = true) :
    extractText py (.list ((entry.contentText.map textBlock).toList ++ blocks))
      = entry.contentText.getD [] := by
  have hnone : blocks.filterMap (blockText py) = [] := by
    refine List.filterMap_eq_nil_iff.mpr fun block hblock => ?_
    have huse := hblocks block hblock
    cases block with
    | dict members =>
      have htype : get members "type" = .str (str "tool_use") := by
        rw [isToolUse] at huse
        cases htype : get members "type" with
        | str text =>
          rw [htype] at huse
          simp only [Value.isText, decide_eq_true_eq] at huse
          rw [huse]
        | _ =>
          rw [htype] at huse
          cases huse
      rw [blockText, htype, if_neg (by decide)]
    | _ => cases huse
  rw [extractText, List.filterMap_append, hnone, List.append_nil]
  cases entry.contentText with
  | none => rfl
  | some text =>
    show join (str "\n") [text] = text
    rw [join, List.intercalate_singleton]

/-- The timestamp of the line is read back. -/
theorem parseTimestamp_record
    (hclock : ∀ t, entry.timestamp = some t → py.fromIsoformat (str (isoformat t)) = some t) :
    parseTimestamp py (get (reconstructionRecord entry first session blocks) "timestamp")
      = entry.timestamp := by
  rw [get_record.1]
  cases htime : entry.timestamp with
  | none => rfl
  | some t =>
    have hne := isoformat_ne_nil t
    have hreplace : (str (isoformat t)).flatMap
        (fun c => if c.is 'Z' then str "+00:00" else [c]) = str (isoformat t) := by
      refine (List.flatMap_congr fun c hc => ?_).trans (List.flatMap_singleton' _)
      rw [(isoformat_printable t c hc).2]
      rfl
    show parseTimestamp py (.str (str (isoformat t))) = some t
    rw [parseTimestamp, if_pos (by simp [Value.truthy, hne])]
    show py.fromIsoformat _ = _
    rw [hreplace, hclock t htime]

/-- **The entry of the line.** Where the blocks are `tool_use` blocks, the parser makes of the
line the entry that it was written from, with the tool calls of the blocks. -/
theorem claudeEntry_record (horigin : Origin py entry)
    (hclock : ∀ t, entry.timestamp = some t → py.fromIsoformat (str (isoformat t)) = some t)
    (hblocks : ∀ block ∈ blocks, isToolUse block = true) :
    claudeEntry py (reconstructionRecord entry first session blocks)
      = { entry with
          toolCalls := if blocks.isEmpty then none else some (toolCallsText (.list blocks)) } := by
  have hfilter : blocks.filter isToolUse = blocks := List.filter_eq_self.mpr hblocks
  have htext : cleanText (entry.contentText.getD []) = entry.contentText.getD [] := by
    cases htext : entry.contentText with
    | none => rfl
    | some text => exact cleanText_of_clean (horigin.fits.contentText text htext)
  have hempty : ((toolCallsText (.list blocks)).isEmpty) = false := rfl
  rw [claudeEntry, claudeNew, roleOf_record, fieldText_textValue horigin.fits.role, idOf_record,
    fieldText_textValue horigin.fits.messageId, contentOf_record, extractText_record hblocks, htext,
    contentToolCalls_record, hfilter, parseTimestamp_record hclock, NewEntry.stored]
  congr 1
  · cases htext : entry.contentText with
    | none => rfl
    | some text =>
      have hne : text ≠ [] := fun hnil => horigin.contentText (hnil ▸ htext)
      simp [hne]
  · cases blocks with
    | nil => rfl
    | cons block rest => simp [hempty]
  · exact horigin.verification.symm

/-! ## The text of the line -/

/-- A text without surrogates has no pair of them. -/
theorem noPair_of_not_surrogate {text : Str} (h : ∀ c ∈ text, c.isSurrogate = false) :
    NoPair text := by
  induction text with
  | nil => exact List.isChain_nil
  | cons c rest ih =>
    refine List.isChain_cons.mpr ⟨fun d _ => ?_, ih fun d hd => h d (List.mem_cons_of_mem c hd)⟩
    rintro ⟨hhigh, _⟩
    have hc := h c List.mem_cons_self
    simp only [CodePoint.isHighSurrogate, CodePoint.isSurrogate, Bool.and_eq_true,
      Bool.and_eq_false_iff, decide_eq_true_eq, decide_eq_false_iff_not] at hhigh hc
    omega

theorem noPair_str (text : String) : NoPair (str text) :=
  noPair_of_not_surrogate (str_not_surrogate text)

theorem noPair_of_clean {text : Str} (h : Clean text) : NoPair text :=
  noPair_of_not_surrogate (clean_not_surrogate h)

theorem goodMembers_append {S : Str → Prop} {F : FloatText → Prop} (h : GoodMembers S F members)
    (h' : GoodMembers S F members') : GoodMembers S F (members ++ members') := by
  induction members with
  | nil => exact h'
  | cons member rest ih => exact ⟨h.1, ih h.2⟩

private theorem good_memberOf {F : FloatText → Prop} {value : Option Value}
    (h : ∀ v, value = some v → Good NoPair F v) : GoodMembers NoPair F (memberOf name value) := by
  cases value with
  | none => trivial
  | some v => exact ⟨⟨noPair_str name, h v rfl⟩, trivial⟩

private theorem good_textValue {F : FloatText → Prop} {limit : Nat} {text : Option Str}
    (h : FieldFits limit text) : Good NoPair F (textValue text) := by
  cases text with
  | none => trivial
  | some text => exact noPair_of_clean (h text rfl).2

/-- The session's text columns hold what fits them. -/
structure SessionFits (session : SessionRow) : Prop where
  id : session.id.length ≤ 36 ∧ Clean session.id
  contentSha256 : FieldFits 64 session.contentSha256
  model : FieldFits 100 session.model
  cwd : FieldFits 500 session.cwd
  gitBranch : FieldFits 200 session.gitBranch

private theorem good_given {F : FloatText → Prop} {limit : Nat} {text : Option Str}
    (h : FieldFits limit text) (v : Value) (hv : (if first then given text else none) = some v) :
    Good NoPair F v := by
  split_ifs at hv
  obtain ⟨t, ht, rfl⟩ := Option.map_eq_some_iff.mp hv
  exact noPair_of_clean (h t (Option.filter_eq_some_iff.mp ht).1).2

private theorem names_memberOf (name : String) (value : Option Value) :
    List.Sublist ((memberOf name value).map Prod.fst) [str name] := by
  cases value with
  | none => exact List.nil_sublist _
  | some v => exact List.Sublist.refl _

/-- The line is a value that its text reads as, where the blocks are. -/
theorem good_record (hfits : EntryFits entry) (hsession : SessionFits session)
    (hblocks : Good NoPair (ReadsBack py) (.list blocks)) :
    Good NoPair (ReadsBack py) (.dict (reconstructionRecord entry first session blocks)) := by
  have hcontent : GoodItems NoPair (ReadsBack py)
      ((entry.contentText.map textBlock).toList ++ blocks) := by
    cases htext : entry.contentText with
    | none => exact hblocks
    | some text =>
      have hclean := noPair_of_clean (hfits.contentText text htext)
      have hblock : Good NoPair (ReadsBack py) (textBlock text) := by
        refine ⟨⟨⟨noPair_str _, noPair_str _⟩, ⟨noPair_str _, hclean⟩, trivial⟩, ?_⟩
        show [str "type", str "text"].Nodup
        decide
      exact ⟨hblock, hblocks⟩
  have hid : ∀ v, entry.messageId.map Value.str = some v → Good NoPair (ReadsBack py) v := by
    intro v hv
    obtain ⟨id, hid, rfl⟩ := Option.map_eq_some_iff.mp hv
    exact noPair_of_clean (hfits.messageId id hid).2
  have hmessage : Good NoPair (ReadsBack py)
      (.dict (reconstructionMessage entry first session blocks)) := by
    refine ⟨?_, ?_⟩
    · refine goodMembers_append (goodMembers_append ?_ (good_memberOf hid))
        (good_memberOf (good_given hsession.model))
      exact ⟨⟨noPair_str _, good_textValue hfits.role⟩, ⟨noPair_str _, hcontent⟩, trivial⟩
    · have hsub : List.Sublist ((reconstructionMessage entry first session blocks).map Prod.fst)
          [str "role", str "content", str "id", str "model"] := by
        rw [reconstructionMessage, List.map_append, List.map_append]
        exact ((List.Sublist.refl [str "role", str "content"]).append (names_memberOf _ _)).append
          (names_memberOf _ _)
      exact hsub.nodup (by decide)
  have htime : ∀ v, (entry.timestamp.map fun t => Value.str (str (isoformat t))) = some v →
      Good NoPair (ReadsBack py) v := by
    intro v hv
    obtain ⟨t, _, rfl⟩ := Option.map_eq_some_iff.mp hv
    exact noPair_str _
  refine ⟨?_, ?_⟩
  · refine goodMembers_append (goodMembers_append (goodMembers_append ?_ (good_memberOf htime))
      (good_memberOf (good_given hsession.cwd))) (good_memberOf (good_given hsession.gitBranch))
    refine ⟨⟨noPair_str _, ?_⟩, ⟨noPair_str _, hmessage⟩, trivial⟩
    split_ifs
    · exact noPair_str _
    · exact noPair_str _
  · have hsub : List.Sublist ((reconstructionRecord entry first session blocks).map Prod.fst)
        [str "type", str "message", str "timestamp", str "cwd", str "gitBranch"] := by
      rw [reconstructionRecord, List.map_append, List.map_append, List.map_append]
      exact (((List.Sublist.refl [str "type", str "message"]).append (names_memberOf _ _)).append
        (names_memberOf _ _)).append (names_memberOf _ _)
    exact hsub.nodup (by decide)

/-! ### Depth -/

private theorem depthMembers_append (members members' : Members) :
    Value.depthMembers (members ++ members')
      = max (Value.depthMembers members) (Value.depthMembers members') := by
  induction members with
  | nil => exact (Nat.zero_max _).symm
  | cons member rest ih =>
    obtain ⟨key, value⟩ := member
    show max value.depth (Value.depthMembers (rest ++ members')) = _
    rw [ih]
    exact (max_assoc _ _ _).symm

private theorem depth_memberOf {value : Option Value} (h : ∀ v, value = some v → v.depth = 0) :
    Value.depthMembers (memberOf name value) = 0 := by
  cases value with
  | none => rfl
  | some v =>
    show max v.depth 0 = 0
    rw [h v rfl]
    rfl

private theorem depth_given (text : Option Str) (v : Value)
    (hv : (if first then given text else none) = some v) : v.depth = 0 := by
  split_ifs at hv
  obtain ⟨t, _, rfl⟩ := Option.map_eq_some_iff.mp hv
  rfl

/-- The line is nested two levels deeper than the tool calls, and at most four where they are
not. -/
theorem depth_record : (Value.list blocks).depth + 2
      ≤ (Value.dict (reconstructionRecord entry first session blocks)).depth
    ∧ (Value.dict (reconstructionRecord entry first session blocks)).depth
      ≤ max 4 ((Value.list blocks).depth + 2) := by
  have hcontent : Value.depthItems blocks
        ≤ Value.depthItems ((entry.contentText.map textBlock).toList ++ blocks)
      ∧ Value.depthItems ((entry.contentText.map textBlock).toList ++ blocks)
        ≤ max 1 (Value.depthItems blocks) := by
    cases entry.contentText with
    | none => exact ⟨Nat.le_refl _, le_max_right _ _⟩
    | some text => exact ⟨le_max_right _ _, Nat.le_refl _⟩
  have hid : ∀ v, entry.messageId.map Value.str = some v → v.depth = 0 := by
    intro v hv
    obtain ⟨id, _, rfl⟩ := Option.map_eq_some_iff.mp hv
    rfl
  have htime : ∀ v, (entry.timestamp.map fun t => Value.str (str (isoformat t))) = some v →
      v.depth = 0 := by
    intro v hv
    obtain ⟨t, _, rfl⟩ := Option.map_eq_some_iff.mp hv
    rfl
  have hrole : (textValue entry.role).depth = 0 := by cases entry.role <;> rfl
  have hmessage : (Value.dict (reconstructionMessage entry first session blocks)).depth
      = Value.depthItems ((entry.contentText.map textBlock).toList ++ blocks) + 2 := by
    rw [Value.depth, reconstructionMessage, depthMembers_append, depthMembers_append,
      depth_memberOf hid, depth_memberOf (depth_given session.model), Value.depthMembers,
      Value.depthMembers, Value.depthMembers, hrole, Value.depth]
    omega
  have hrecord : (Value.dict (reconstructionRecord entry first session blocks)).depth
      = Value.depthItems ((entry.contentText.map textBlock).toList ++ blocks) + 3 := by
    rw [Value.depth, reconstructionRecord, depthMembers_append, depthMembers_append,
      depthMembers_append, depth_memberOf htime, depth_memberOf (depth_given session.cwd),
      depth_memberOf (depth_given session.gitBranch), Value.depthMembers, Value.depthMembers,
      Value.depthMembers, hmessage, Value.depth]
    omega
  rw [hrecord, Value.depth]
  omega

end

end TrustPortal.Proofs.Transcript
