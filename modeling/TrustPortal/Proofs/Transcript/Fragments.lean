import TrustPortal.Proofs.Transcript.RoundTrip
import TrustPortal.Proofs.Transcript.Utf8
import TrustPortal.Transcript.Parse

/-!
# `TrustPortal.Proofs.Transcript.Fragments`: the pieces of a broken line

JSON text can hold three line separators, all of them inside strings: U+0085, U+2028 and U+2029.
At each the parser ends the line. The first piece ends inside a string, so it is malformed
(`first_fragment`). Every other piece starts inside one. Where the reader of the whole line is
inside a string, the reader of the piece is outside, and the other way around (`Flipped`): what
the second takes for names is what stands between the strings of the line. No record that it can
make of the piece has a name with the letter `p` (`fragment_names`), so it has no type, no
payload and no entry.
-/

set_option autoImplicit false

namespace TrustPortal.Proofs.Transcript

open TrustPortal.Lib
open TrustPortal.Python
open TrustPortal.Transcript

/-- A character that JSON text holds inside strings only, or the letter `p`, which no literal
name has. -/
def Inner (c : CodePoint) : Prop := c.is 'p' = true ∨ c.is '\\' = true ∨ 0x80 ≤ c.val

/-- A text without the letter `p`. -/
def Nameless (s : Str) : Prop := ∀ c ∈ s, c.is 'p' = false

/-- The rest of a literal name is read outside strings. -/
def LiteralOuter (mode : Mode) : Prop :=
  ∀ rest value, mode = .literal rest value → ∀ d ∈ rest, ¬Inner d ∧ d.is '"' = false

instance (c : CodePoint) : Decidable (Inner c) := inferInstanceAs (Decidable (_ ∨ _ ∨ _))

/-- An object has names without the letter `p` only. -/
def ValueNames : Value → Prop
  | .dict members => ∀ name ∈ members.map Prod.fst, Nameless name
  | _ => True

/-- An open object has names without the letter `p` only. -/
def FrameNames : Frame → Prop
  | .list _ => True
  | .dict members => ∀ name ∈ members.map Prod.fst, Nameless name
  | .member members name => (∀ name ∈ members.map Prod.fst, Nameless name) ∧ Nameless name

/-- What is being read is no name with the letter `p`. -/
def ModeNames : Mode → Prop
  | .string _ units => ∀ p ∈ units, p.2 = false ∧ p.1.is 'p' = false
  | .colon name => Nameless name
  | .literal _ value | .after value => ValueNames value
  | _ => True

/-- The reader has seen no name with the letter `p`. -/
structure ReaderNames (reader : Reader) : Prop where
  stack : ∀ frame ∈ reader.stack, FrameNames frame
  mode : ModeNames reader.mode

/-- One reader is in a string where the other is in none. -/
structure Flipped (whole piece : Reader) : Prop where
  wholeLiteral : LiteralOuter whole.mode
  pieceLiteral : LiteralOuter piece.mode
  names : ReaderNames piece
  turn : (∃ isName units, whole.mode = .string isName units) ∧ scanMode piece.mode = .outside
    ∨ scanMode whole.mode = .outside ∧ ∃ isName units, piece.mode = .string isName units

section
variable {py py' : Interpreter} {reader reader' whole whole' piece piece' : Reader}
  {c : CodePoint} {stack : List Frame} {value : Value} {s t : Str}

/-! ## Outside strings -/

/-- A character of a string is none of the characters of JSON text outside strings. -/
private theorem Inner.is_false (h : Inner c) {a : Char} (hascii : a.toNat < 0x80)
    (hp : a.toNat ≠ 0x70) (hslash : a.toNat ≠ 0x5C) : c.is a = false := by
  rw [CodePoint.is, beq_eq_false_iff_ne]
  rintro heq
  rcases h with h | h | h
  · simp only [CodePoint.is, beq_iff_eq] at h
    exact hp (heq.symm.trans h)
  · simp only [CodePoint.is, beq_iff_eq] at h
    exact hslash (heq.symm.trans h)
  · omega

private theorem Inner.not_digit (h : Inner c) : c.isDigit = false := by
  have hval : ¬(0x30 ≤ c.val ∧ c.val ≤ 0x39) := by
    rcases h with h | h | h
    · simp only [CodePoint.is, beq_iff_eq] at h
      rw [h]
      decide
    · simp only [CodePoint.is, beq_iff_eq] at h
      rw [h]
      decide
    · omega
  simp only [CodePoint.isDigit, Bool.and_eq_false_iff, decide_eq_false_iff_not]
  omega

private theorem Inner.not_space (h : Inner c) : isJsonSpace c = false := by
  rw [isJsonSpace, h.is_false (by decide) (by decide) (by decide),
    h.is_false (by decide) (by decide) (by decide), h.is_false (by decide) (by decide) (by decide),
    h.is_false (by decide) (by decide) (by decide)]
  rfl

private theorem startValue_inner (h : Inner c) : startValue py stack c = .error .malformed := by
  have hne : ∀ a : Char, a.toNat < 0x80 → a.toNat ≠ 0x70 → a.toNat ≠ 0x5C → c.is a = false :=
    fun a => h.is_false
  have hstart : Number.start c = none := by
    rw [Number.start, hne '-' (by decide) (by decide) (by decide),
      hne '0' (by decide) (by decide) (by decide), h.not_digit]
    rfl
  rw [startValue, h.not_space, hne '"' (by decide) (by decide) (by decide),
    hne '\x7b' (by decide) (by decide) (by decide), hne '[' (by decide) (by decide) (by decide),
    hne 'n' (by decide) (by decide) (by decide), hne 't' (by decide) (by decide) (by decide),
    hne 'f' (by decide) (by decide) (by decide), hne 'N' (by decide) (by decide) (by decide),
    hne 'I' (by decide) (by decide) (by decide), hstart]
  rfl

private theorem afterValue_inner (h : Inner c) : afterValue stack value c = .error .malformed := by
  have hcomma := h.is_false (show ','.toNat < 0x80 by decide) (by decide) (by decide)
  have hlist := h.is_false (show ']'.toNat < 0x80 by decide) (by decide) (by decide)
  have hdict := h.is_false (show '\x7d'.toNat < 0x80 by decide) (by decide) (by decide)
  match stack with
  | .list _ :: _ | .member _ _ :: _ | .dict _ :: _ | [] =>
    simp [afterValue, h.not_space, hcomma, hlist, hdict]

/-- Outside strings the reader takes no character of a string. -/
theorem step_inner (hc : Inner c) (houtside : scanMode reader.mode = .outside)
    (hliteral : LiteralOuter reader.mode) : reader.step py c ≠ .ok reader' := by
  have hne : ∀ a : Char, a.toNat < 0x80 → a.toNat ≠ 0x70 → a.toNat ≠ 0x5C → c.is a = false :=
    fun a => hc.is_false
  have hquote := hne '"' (by decide) (by decide) (by decide)
  have hlist := hne ']' (by decide) (by decide) (by decide)
  have hdict := hne '\x7d' (by decide) (by decide) (by decide)
  have hcolon := hne ':' (by decide) (by decide) (by decide)
  obtain ⟨stack, mode⟩ := reader
  cases mode with
  | value => simp [Reader.step, startValue_inner hc]
  | firstItem => simp [Reader.step, hc.not_space, hlist, startValue_inner hc]
  | firstName => simp [Reader.step, hc.not_space, hquote, hdict]
  | name => simp [Reader.step, hc.not_space, hquote]
  | colon name => simp [Reader.step, hc.not_space, hcolon]
  | literal rest value =>
    cases rest with
    | nil => simp [Reader.step, afterValue_inner hc]
    | cons d rest =>
      have hd : c ≠ d := by
        rintro rfl
        exact (hliteral _ _ rfl c List.mem_cons_self).1 hc
      simp [Reader.step, hd]
  | number n =>
    have hextend : n.extend c = none := by
      cases hn : n.extend c with
      | none => rfl
      | some m =>
        have hchar := isNumberChar_of_extend hn
        rw [isNumberChar, hc.not_digit, hne '.' (by decide) (by decide) (by decide),
          hne 'e' (by decide) (by decide) (by decide), hne 'E' (by decide) (by decide) (by decide),
          hne '+' (by decide) (by decide) (by decide),
          hne '-' (by decide) (by decide) (by decide)] at hchar
        cases hchar
    have hI := hne 'I' (by decide) (by decide) (by decide)
    simp only [Reader.step, hextend, hI, Bool.false_eq_true, and_false, if_false]
    intro h
    obtain ⟨value, _, hafter⟩ := bind_eq_ok.mp h
    rw [afterValue_inner hc] at hafter
    cases hafter
  | after value => simp [Reader.step, afterValue_inner hc]
  | string | escape | unicode => cases houtside

/-- Outside strings a quote opens one. -/
private theorem step_quote_outside (hc : c.is '"' = true) (houtside : scanMode reader.mode = .outside)
    (hliteral : LiteralOuter reader.mode) (h : reader.step py c = .ok reader') :
    ∃ isName, reader' = ⟨reader.stack, .string isName []⟩ := by
  obtain ⟨stack, mode⟩ := reader
  have hspace : isJsonSpace c = false := by
    cases hs : isJsonSpace c with
    | false => rfl
    | true =>
      rw [(plain_of_space hs).quote] at hc
      cases hc
  have hne : ∀ a : Char, a.toNat ≠ 0x22 → c.is a = false := fun a ha => is_ne hc (Ne.symm ha)
  have hlist := hne ']' (by decide)
  have hcolon := hne ':' (by decide)
  have hstart : startValue py stack c = .ok ⟨stack, .string false []⟩ := by
    rw [startValue, hspace, hc]
    rfl
  have hafter : ∀ value, afterValue stack value c ≠ .ok reader' := by
    intro value h
    cases afterValue_ok h with
    | space _ hc' =>
      rw [hspace] at hc'
      cases hc'
    | nextItem _ _ hc' | nextMember _ _ _ hc' =>
      rw [hc'.quote] at hc
      cases hc
    | endList _ _ hc' => exact absurd (is_unique hc hc') (by decide)
    | endDict _ _ _ hc' => exact absurd (is_unique hc hc') (by decide)
  cases mode with
  | value =>
    cases hstart.symm.trans h
    exact ⟨false, rfl⟩
  | firstItem =>
    simp only [Reader.step, hspace, hlist, Bool.false_eq_true, if_false] at h
    cases hstart.symm.trans h
    exact ⟨false, rfl⟩
  | firstName | name =>
    simp only [Reader.step, hspace, hc, Bool.false_eq_true, if_false, if_true] at h
    cases h
    exact ⟨true, rfl⟩
  | colon name => simp [Reader.step, hspace, hcolon] at h
  | literal rest value =>
    cases rest with
    | nil => exact absurd h (hafter value)
    | cons d rest =>
      simp only [Reader.step] at h
      split_ifs at h with hcd
      all_goals
        have hd := (hliteral _ _ rfl d List.mem_cons_self).2
        rw [← hcd, hc] at hd
        cases hd
  | number n =>
    simp only [Reader.step] at h
    split at h
    · next hinf => exact absurd (is_unique hc hinf.2) (by decide)
    · split at h
      · next m hm =>
        have hplain := plain_of_numberChar (isNumberChar_of_extend hm)
        rw [hplain.quote] at hc
        cases hc
      · obtain ⟨value, _, hvalue⟩ := bind_eq_ok.mp h
        exact absurd hvalue (hafter value)
  | after value => exact absurd h (hafter value)
  | string | escape | unicode => cases houtside

/-- What the characters outside strings keep. -/
structure StaysOutside (reader reader' : Reader) : Prop where
  outside : scanMode reader'.mode = .outside
  literal : LiteralOuter reader'.mode
  names : ReaderNames reader → ReaderNames reader'

private theorem startValue_stays {mode : Mode} (hc : c.is '"' = false)
    (h : startValue py stack c = .ok reader') : StaysOutside ⟨stack, mode⟩ reader' := by
  rw [startValue, hc] at h
  split_ifs at h with hspace _ hbrace hbracket
  case pos => cases h; exact ⟨rfl, by simp [LiteralOuter], fun h => ⟨h.stack, trivial⟩⟩
  case pos => contradiction
  case pos =>
    obtain ⟨_, rfl⟩ := openFrame_ok h
    refine ⟨rfl, by simp [LiteralOuter], fun h => ⟨?_, trivial⟩⟩
    rintro frame (_ | ⟨_, hframe⟩)
    · simp [FrameNames]
    · exact h.stack frame hframe
  case pos =>
    obtain ⟨_, rfl⟩ := openFrame_ok h
    refine ⟨rfl, by simp [LiteralOuter], fun h => ⟨?_, trivial⟩⟩
    rintro frame (_ | ⟨_, hframe⟩)
    · exact trivial
    · exact h.stack frame hframe
  case neg =>
    split at h
    · cases h
      exact ⟨rfl, by simp [LiteralOuter], fun h => ⟨h.stack, trivial⟩⟩
    · cases h
  all_goals
    cases h
    refine ⟨rfl, ?_, fun h => ⟨h.stack, trivial⟩⟩
    rintro rest value ⟨⟩
    decide

private theorem afterValue_stays {mode : Mode} (hvalue : ModeNames mode → ValueNames value)
    (h : afterValue stack value c = .ok reader') : StaysOutside ⟨stack, mode⟩ reader' := by
  have hset : ∀ {members : Members} {name : Str},
      (∀ name ∈ members.map Prod.fst, Nameless name) → Nameless name →
      ∀ n ∈ (setMember members name value).map Prod.fst, Nameless n := by
    intro members name hmembers hname n hn
    rw [setMember_names] at hn
    split_ifs at hn
    · exact hmembers n hn
    · rcases List.mem_append.mp hn with hn | hn
      · exact hmembers n hn
      · rw [List.mem_singleton.mp hn]
        exact hname
  cases afterValue_ok h with
  | space => exact ⟨rfl, nofun, fun h => ⟨h.stack, hvalue h.mode⟩⟩
  | nextItem items rest =>
    refine ⟨rfl, nofun, fun h => ⟨?_, trivial⟩⟩
    rintro frame (_ | ⟨_, hframe⟩)
    · exact trivial
    · exact h.stack frame (List.mem_cons_of_mem _ hframe)
  | endList items rest =>
    exact ⟨rfl, nofun, fun h =>
      ⟨fun frame hframe => h.stack frame (List.mem_cons_of_mem _ hframe), trivial⟩⟩
  | nextMember members name rest =>
    refine ⟨rfl, nofun, fun h => ?_⟩
    obtain ⟨hmembers, hname⟩ := h.stack _ List.mem_cons_self
    refine ⟨?_, trivial⟩
    rintro frame (_ | ⟨_, hframe⟩)
    · exact hset hmembers hname
    · exact h.stack frame (List.mem_cons_of_mem _ hframe)
  | endDict members name rest =>
    refine ⟨rfl, nofun, fun h => ?_⟩
    obtain ⟨hmembers, hname⟩ := h.stack _ List.mem_cons_self
    exact ⟨fun frame hframe => h.stack frame (List.mem_cons_of_mem _ hframe), hset hmembers hname⟩

/-- Outside strings any other character leaves the reader outside. -/
theorem step_stays (hc : c.is '"' = false) (houtside : scanMode reader.mode = .outside)
    (hliteral : LiteralOuter reader.mode) (h : reader.step py c = .ok reader') :
    StaysOutside reader reader' := by
  obtain ⟨stack, mode⟩ := reader
  cases mode with
  | value => exact startValue_stays hc h
  | firstItem =>
    simp only [Reader.step] at h
    split_ifs at h
    · cases h
      exact ⟨rfl, nofun, id⟩
    · split at h
      · cases h
        exact ⟨rfl, nofun, fun h =>
          ⟨fun frame hframe => h.stack frame (List.mem_cons_of_mem _ hframe), trivial⟩⟩
      · cases h
    · exact startValue_stays hc h
  | firstName =>
    simp only [Reader.step, hc, Bool.false_eq_true, if_false] at h
    split_ifs at h
    · cases h
      exact ⟨rfl, nofun, id⟩
    · split at h
      · cases h
        refine ⟨rfl, nofun, fun h => ⟨?_, h.stack _ List.mem_cons_self⟩⟩
        exact fun frame hframe => h.stack frame (List.mem_cons_of_mem _ hframe)
      · cases h
  | name =>
    simp only [Reader.step, hc, Bool.false_eq_true, if_false] at h
    split_ifs at h
    cases h
    exact ⟨rfl, nofun, id⟩
  | colon name =>
    simp only [Reader.step] at h
    split_ifs at h
    · cases h
      exact ⟨rfl, nofun, id⟩
    · split at h
      · cases h
        refine ⟨rfl, nofun, fun h => ⟨?_, trivial⟩⟩
        rintro frame (_ | ⟨_, hframe⟩)
        · exact ⟨h.stack _ List.mem_cons_self, h.mode⟩
        · exact h.stack frame (List.mem_cons_of_mem _ hframe)
      · cases h
  | literal rest value =>
    cases rest with
    | nil => exact afterValue_stays id h
    | cons d rest =>
      simp only [Reader.step] at h
      split_ifs at h with hcd hempty
      · cases h
        exact ⟨rfl, nofun, fun h => ⟨h.stack, h.mode⟩⟩
      · cases h
        refine ⟨rfl, ?_, fun h => ⟨h.stack, h.mode⟩⟩
        rintro rest' value' ⟨⟩ e he
        exact hliteral _ _ rfl e (List.mem_cons_of_mem d he)
  | number n =>
    simp only [Reader.step] at h
    split at h
    · cases h
      refine ⟨rfl, ?_, fun h => ⟨h.stack, trivial⟩⟩
      rintro rest value ⟨⟩
      decide
    · split at h
      · cases h
        exact ⟨rfl, nofun, fun h => ⟨h.stack, trivial⟩⟩
      · obtain ⟨value, hread, hafter⟩ := bind_eq_ok.mp h
        refine afterValue_stays (fun _ => ?_) hafter
        -- A number is no object.
        have hdepth := (@readNumber_ok (fun _ => True) (fun _ => True) _ _ anyFloat _ hread).2
        cases value with
        | dict => cases hdepth
        | _ => trivial
  | after value => exact afterValue_stays id h
  | string | escape | unicode => cases houtside

/-! ## Inside strings -/

/-- The end of a string leaves the reader outside. -/
private theorem endString_outside (stack : List Frame) (isName : Bool) (units : List Piece) :
    scanMode (endString stack isName units).mode = .outside
      ∧ LiteralOuter (endString stack isName units).mode := by
  cases isName <;> exact ⟨rfl, nofun⟩

/-- A string without escapes is the characters it was read from. -/
private theorem join_unescaped {units : List Piece} (h : ∀ p ∈ units, p.2 = false) :
    joinSurrogates units = units.map Prod.fst := by
  induction units with
  | nil => rfl
  | cons p rest ih =>
    obtain ⟨c, escaped⟩ := p
    cases h _ List.mem_cons_self
    cases rest with
    | nil => rfl
    | cons q rest =>
      obtain ⟨d, escaped'⟩ := q
      rw [joinSurrogates, if_neg nofun, ih fun p hp => h p (List.mem_cons_of_mem _ hp)]
      rfl

private theorem endString_names {isName : Bool} {units : List Piece}
    (hstack : ∀ frame ∈ stack, FrameNames frame)
    (hunits : ∀ p ∈ units, p.2 = false ∧ p.1.is 'p' = false) :
    ReaderNames (endString stack isName units) := by
  have htext : Nameless (joinSurrogates units.reverse) := by
    rw [join_unescaped fun p hp => (hunits p (List.mem_reverse.mp hp)).1]
    intro c hc
    obtain ⟨p, hp, rfl⟩ := List.mem_map.mp hc
    exact (hunits p (List.mem_reverse.mp hp)).2
  cases isName with
  | true => exact ⟨hstack, htext⟩
  | false => exact ⟨hstack, trivial⟩

/-- A character keeps one reader in a string where the other is in none. -/
theorem Flipped.step (h : Flipped whole piece) (hwhole : whole.step py' c = .ok whole')
    (hpiece : piece.step py c = .ok piece') : Flipped whole' piece' := by
  obtain ⟨hwliteral, hpliteral, hnames, hturn⟩ := h
  rcases hturn with ⟨⟨isName, units, hmode⟩, houtside⟩ | ⟨houtside, isName, units, hmode⟩
  · -- The whole line is in a string, so a backslash is one the piece cannot have.
    have hslash : c.is '\\' = false := by
      cases hc : c.is '\\' with
      | false => rfl
      | true => exact absurd hpiece (step_inner (.inr (.inl hc)) houtside hpliteral)
    obtain ⟨stack, mode⟩ := whole
    cases hmode
    simp only [Reader.step, hslash, Bool.false_eq_true, if_false] at hwhole
    split_ifs at hwhole with hquote
    · cases hwhole
      obtain ⟨isName', rfl⟩ := step_quote_outside hquote houtside hpliteral hpiece
      obtain ⟨hend, hliteral⟩ := endString_outside stack isName units
      exact ⟨hliteral, nofun, ⟨hnames.stack, nofun⟩, .inr ⟨hend, isName', [], rfl⟩⟩
    · cases hwhole
      have hstays := step_stays (Bool.eq_false_iff.mpr hquote) houtside hpliteral hpiece
      exact ⟨nofun, hstays.literal, hstays.names hnames, .inl ⟨⟨isName, _, rfl⟩, hstays.outside⟩⟩
  · -- The whole line is outside, so the piece's string has no escape and no `p`.
    have hinner : ¬Inner c := fun hc => step_inner hc houtside hwliteral hwhole
    have hslash : c.is '\\' = false := by
      cases hc : c.is '\\' with
      | false => rfl
      | true => exact absurd (.inr (.inl hc)) hinner
    have hp : c.is 'p' = false := by
      cases hc : c.is 'p' with
      | false => rfl
      | true => exact absurd (.inl hc) hinner
    obtain ⟨stack, mode⟩ := piece
    cases hmode
    simp only [Reader.step, hslash, Bool.false_eq_true, if_false] at hpiece
    split_ifs at hpiece with hquote
    · cases hpiece
      obtain ⟨isName', rfl⟩ := step_quote_outside hquote houtside hwliteral hwhole
      obtain ⟨hend, hliteral⟩ := endString_outside stack isName units
      exact ⟨nofun, hliteral, endString_names hnames.stack hnames.mode,
        .inl ⟨⟨isName', [], rfl⟩, hend⟩⟩
    · cases hpiece
      have hstays := step_stays (Bool.eq_false_iff.mpr hquote) houtside hwliteral hwhole
      refine ⟨hstays.literal, nofun, ⟨hnames.stack, ?_⟩, .inr ⟨hstays.outside, isName, _, rfl⟩⟩
      rintro p (_ | ⟨_, hmem⟩)
      · exact ⟨rfl, hp⟩
      · exact hnames.mode p hmem

/-- A text keeps one reader in a string where the other is in none. -/
theorem Flipped.run (h : Flipped whole piece) (hwhole : Runs py' whole t whole')
    (hpiece : Runs py piece t piece') : Flipped whole' piece' := by
  induction t generalizing whole piece with
  | nil =>
    cases hwhole
    cases hpiece
    exact h
  | cons c rest ih =>
    rw [Runs, List.foldlM_cons] at hwhole hpiece
    obtain ⟨nextWhole, hnextWhole, hwhole⟩ := bind_eq_ok.mp hwhole
    obtain ⟨nextPiece, hnextPiece, hpiece⟩ := bind_eq_ok.mp hpiece
    exact ih (h.step hnextWhole hnextPiece) hwhole hpiece

/-! ## Pieces -/

/-- What `str.strip()` takes away. -/
theorem strip_spaces (t : Str) : ∃ lead trail : Str, t = lead ++ strip t ++ trail
    ∧ (∀ c ∈ lead, c.isSpace = true) ∧ ∀ c ∈ trail, c.isSpace = true := by
  have hlead := List.takeWhile_append_dropWhile (p := CodePoint.isSpace) (l := t)
  have htrail := List.takeWhile_append_dropWhile (p := CodePoint.isSpace)
    (l := (t.dropWhile CodePoint.isSpace).reverse)
  refine ⟨t.takeWhile CodePoint.isSpace,
    ((t.dropWhile CodePoint.isSpace).reverse.takeWhile CodePoint.isSpace).reverse, ?_, ?_, ?_⟩
  · rw [List.append_assoc, strip, ← List.reverse_append, htrail, List.reverse_reverse, hlead]
  · exact fun c hc => List.all_eq_true.mp List.all_takeWhile c hc
  · exact fun c hc => List.all_eq_true.mp List.all_takeWhile c (List.mem_reverse.mp hc)

/-- A run over two parts. -/
theorem Runs.split {r r' : Reader} (h : Runs py r (s ++ t) r') :
    ∃ m, Runs py r s m ∧ Runs py m t r' := by
  rw [Runs, List.foldlM_append] at h
  exact bind_eq_ok.mp h

private theorem space_is_false (h : c.isSpace = true) {a : Char}
    (ha : 0x21 ≤ a.toNat ∧ a.toNat < 0x7F) : c.is a = false := by
  rw [CodePoint.is, beq_eq_false_iff_ne]
  intro heq
  rw [CodePoint.isSpace] at h
  simp only [Bool.or_eq_true, decide_eq_true_eq, beq_iff_eq] at h
  omega

/-- Whitespace in a string stays in the string. -/
private theorem string_spaces {isName : Bool} {units : List Piece}
    (hspace : ∀ c ∈ t, c.isSpace = true)
    (h : Runs py ⟨stack, .string isName units⟩ t reader') :
    ∃ units', reader' = ⟨stack, .string isName units'⟩ := by
  induction t generalizing units with
  | nil =>
    cases h
    exact ⟨units, rfl⟩
  | cons c rest ih =>
    have hc := hspace c List.mem_cons_self
    rw [Runs, List.foldlM_cons] at h
    obtain ⟨next, hnext, hrest⟩ := bind_eq_ok.mp h
    simp only [Reader.step, space_is_false hc (show 0x21 ≤ '"'.toNat ∧ _ by decide),
      space_is_false hc (show 0x21 ≤ '\\'.toNat ∧ _ by decide), Bool.false_eq_true, if_false]
      at hnext
    split_ifs at hnext
    cases hnext
    exact ih (fun d hd => hspace d (List.mem_cons_of_mem c hd)) hrest

/-- What the reader ends with. -/
private theorem finish_mode (h : reader.finish py = .ok value) :
    reader.mode = .after value ∨ ∃ n, reader.mode = .number n ∧ readNumber py n = .ok value := by
  obtain ⟨stack, mode⟩ := reader
  cases mode with
  | after top =>
    simp only [Reader.finish] at h
    split_ifs at h
    cases h
    exact .inl rfl
  | number n =>
    simp only [Reader.finish] at h
    obtain ⟨top, hread, htop⟩ := bind_eq_ok.mp h
    split_ifs at htop
    cases htop
    exact .inr ⟨n, rfl, hread⟩
  | _ => cases h

/-- A record that is made of a piece which starts inside a string has no name with the
letter `p`. -/
theorem fragment_names {isName : Bool} {units : List Piece} {record : Members}
    (hrun : Runs py' ⟨stack, .string isName units⟩ t reader')
    (h : loads py (strip t) = .ok (.dict record)) : ∀ name ∈ record.map Prod.fst, Nameless name := by
  obtain ⟨lead, trail, htext, hlead, _⟩ := strip_spaces t
  rw [htext] at hrun
  obtain ⟨middle, hrun, _⟩ := hrun.split
  obtain ⟨first, hfirst, hmiddle⟩ := hrun.split
  obtain ⟨units', rfl⟩ := string_spaces hlead hfirst
  rw [loads] at h
  split_ifs at h
  · cases h
  obtain ⟨piece, hpiece, hfinish⟩ := bind_eq_ok.mp h
  have hstart : Flipped ⟨stack, .string isName units'⟩ ⟨[], .value⟩ :=
    ⟨by simp [LiteralOuter], by simp [LiteralOuter], ⟨by simp, trivial⟩, .inl ⟨⟨_, _, rfl⟩, rfl⟩⟩
  have hflipped := hstart.run hmiddle hpiece
  rcases finish_mode hfinish with hmode | ⟨n, _, hread⟩
  · have hnames := hflipped.names.mode
    rw [hmode] at hnames
    exact hnames
  · cases (@readNumber_ok (fun _ => True) (fun _ => True) _ _ anyFloat _ hread).2

/-- Whitespace after a whole value leaves the reader outside strings. -/
private theorem spaces_after (hspace : ∀ c ∈ t, c.isSpace = true) {isName : Bool}
    {units : List Piece} (hend : (∃ v, reader.mode = .after v) ∨ ∃ n, reader.mode = .number n)
    (h : Runs py reader t reader') : reader'.mode ≠ .string isName units := by
  induction t generalizing reader with
  | nil =>
    cases h
    rcases hend with ⟨v, hv⟩ | ⟨n, hn⟩
    · rw [hv]
      exact nofun
    · rw [hn]
      exact nofun
  | cons c rest ih =>
    have hc := hspace c List.mem_cons_self
    have hne : ∀ a : Char, 0x21 ≤ a.toNat ∧ a.toNat < 0x7F → c.is a = false :=
      fun a => space_is_false hc
    rw [Runs, List.foldlM_cons] at h
    obtain ⟨next, hnext, hrest⟩ := bind_eq_ok.mp h
    refine ih (fun d hd => hspace d (List.mem_cons_of_mem c hd)) (.inl ?_) hrest
    have hafter : ∀ {stack : List Frame} {value : Value}, afterValue stack value c = .ok next →
        ∃ v, next.mode = .after v := by
      intro stack value h
      by_cases hjson : isJsonSpace c = true
      · unfold afterValue at h
        rw [if_pos hjson] at h
        cases h
        exact ⟨_, rfl⟩
      · -- Only a comma goes on with the next item or member.
        cases afterValue_ok h with
        | space _ hc' => exact absurd hc' hjson
        | endList | endDict => exact ⟨_, rfl⟩
        | nextItem | nextMember =>
          simp [afterValue, hjson, hne ',' (by decide), hne ']' (by decide),
            hne '\x7d' (by decide)] at h
    obtain ⟨stack, mode⟩ := reader
    rcases hend with ⟨v, rfl⟩ | ⟨n, rfl⟩
    · exact hafter hnext
    · simp only [Reader.step, hne 'I' (by decide), Bool.false_eq_true, and_false, if_false] at hnext
      split at hnext
      · next m hm =>
        have hchar := isNumberChar_of_extend hm
        have hdigit : c.isDigit = false := by
          rw [CodePoint.isSpace] at hc
          simp only [Bool.or_eq_true, decide_eq_true_eq, beq_iff_eq] at hc
          simp only [CodePoint.isDigit, Bool.and_eq_false_iff, decide_eq_false_iff_not]
          omega
        rw [isNumberChar, hdigit, hne '.' (by decide), hne 'e' (by decide), hne 'E' (by decide),
          hne '+' (by decide), hne '-' (by decide)] at hchar
        cases hchar
      · obtain ⟨value, _, hvalue⟩ := bind_eq_ok.mp hnext
        exact hafter hvalue

/-- Whitespace in front of a value. -/
private theorem spaces_before (hspace : ∀ c ∈ t, c.isSpace = true)
    (h : Runs py ⟨[], .value⟩ t reader') : reader' = ⟨[], .value⟩ := by
  induction t with
  | nil =>
    cases h
    rfl
  | cons c rest ih =>
    have hc := hspace c List.mem_cons_self
    rw [Runs, List.foldlM_cons] at h
    obtain ⟨next, hnext, hrest⟩ := bind_eq_ok.mp h
    have hne : ∀ a : Char, 0x21 ≤ a.toNat ∧ a.toNat < 0x7F → c.is a = false :=
      fun a => space_is_false hc
    have hnone : Number.start c = none := by
      cases hn : Number.start c with
      | none => rfl
      | some n =>
        have hval := start_val hn
        rw [CodePoint.isSpace] at hc
        simp only [Bool.or_eq_true, decide_eq_true_eq, beq_iff_eq] at hc
        omega
    have hstart : startValue py [] c = .ok next := hnext
    rw [startValue, hne '"' (by decide), hne '\x7b' (by decide), hne '[' (by decide),
      hne 'n' (by decide), hne 't' (by decide), hne 'f' (by decide), hne 'N' (by decide),
      hne 'I' (by decide), hnone] at hstart
    simp only [Bool.false_eq_true, if_false] at hstart
    split_ifs at hstart
    cases hstart
    exact ih (fun d hd => hspace d (List.mem_cons_of_mem c hd)) hrest

/-- The piece of a line that ends inside a string is no JSON text. -/
theorem first_fragment {isName : Bool} {units : List Piece}
    (hrun : Runs py ⟨[], .value⟩ t ⟨stack, .string isName units⟩) :
    loads py (strip t) ≠ .ok value := by
  intro h
  obtain ⟨lead, trail, htext, hlead, htrail⟩ := strip_spaces t
  rw [htext, List.append_assoc] at hrun
  obtain ⟨first, hfirst, hrun⟩ := hrun.split
  cases spaces_before hlead hfirst
  obtain ⟨middle, hmiddle, hlast⟩ := hrun.split
  rw [loads] at h
  split_ifs at h
  · cases h
  obtain ⟨piece, hpiece, hfinish⟩ := bind_eq_ok.mp h
  cases hpiece.symm.trans hmiddle
  have hend : (∃ v, middle.mode = .after v) ∨ ∃ n, middle.mode = .number n := by
    rcases finish_mode hfinish with hmode | ⟨n, hmode, _⟩
    · exact .inl ⟨value, hmode⟩
    · exact .inr ⟨n, hmode⟩
  exact spaces_after htrail hend hlast rfl

/-! ## A deeper reader -/

/-- A reader that may go deeper takes the same characters. -/
private theorem step_deeper {n : Nat} (hn : py.readerDepth ≤ n) (h : reader.step py c = .ok reader') :
    reader.step { py with readerDepth := n } c = .ok reader' := by
  have hopen : ∀ {stack : List Frame} {frame : Frame} {mode : Mode},
      openFrame py stack frame mode = .ok reader' →
      openFrame { py with readerDepth := n } stack frame mode = .ok reader' := by
    intro stack frame mode h
    obtain ⟨hroom, rfl⟩ := openFrame_ok h
    exact if_pos (lt_of_lt_of_le hroom hn)
  have hstart : ∀ {stack : List Frame}, startValue py stack c = .ok reader' →
      startValue { py with readerDepth := n } stack c = .ok reader' := by
    intro stack h
    rw [startValue] at h ⊢
    split_ifs at h ⊢
    all_goals first | exact h | exact hopen h
  obtain ⟨stack, mode⟩ := reader
  cases mode with
  | value => exact hstart h
  | firstItem =>
    simp only [Reader.step] at h ⊢
    split_ifs at h ⊢
    · exact h
    · exact h
    · exact hstart h
  | _ => exact h

/-- A reader that may go deeper reads the same value. -/
theorem loads_deeper {n : Nat} (hn : py.readerDepth ≤ n) (h : loads py t = .ok value) :
    loads { py with readerDepth := n } t = .ok value := by
  have hrun : ∀ (t : Str) (r r' : Reader), Runs py r t r' →
      Runs { py with readerDepth := n } r t r' := by
    intro t
    induction t with
    | nil => exact fun _ _ h => h
    | cons c rest ih =>
      intro r r' h
      rw [Runs, List.foldlM_cons] at h
      obtain ⟨next, hnext, hrest⟩ := bind_eq_ok.mp h
      exact .cons (step_deeper hn hnext) (ih next r' hrest)
  rw [loads] at h ⊢
  split_ifs at h ⊢
  · cases h
  obtain ⟨reader, hread, hfinish⟩ := bind_eq_ok.mp h
  exact bind_eq_ok.mpr ⟨reader, hrun t _ _ hread, hfinish⟩

/-! ## A line that is broken -/

/-- The first character that meets a test. -/
private theorem first_break {test : CodePoint → Bool} {t : Str} (h : ∃ c ∈ t, test c = true) :
    ∃ s c rest, t = s ++ c :: rest ∧ (∀ d ∈ s, test d = false) ∧ test c = true := by
  induction t with
  | nil =>
    obtain ⟨_, hc, _⟩ := h
    cases hc
  | cons c rest ih =>
    cases hc : test c with
    | true => exact ⟨[], c, rest, rfl, nofun, hc⟩
    | false =>
      have hrest : ∃ d ∈ rest, test d = true := by
        obtain ⟨d, hd, htest⟩ := h
        rcases List.mem_cons.mp hd with rfl | hd
        · rw [hc] at htest
          cases htest
        · exact ⟨d, hd, htest⟩
      obtain ⟨s, d, after, rfl, hs, hd⟩ := ih hrest
      refine ⟨c :: s, d, after, rfl, ?_, hd⟩
      rintro e (_ | ⟨_, he⟩)
      · exact hc
      · exact hs e he

private theorem step_literal (hliteral : LiteralOuter reader.mode)
    (h : reader.step py c = .ok reader') : LiteralOuter reader'.mode := by
  by_cases houtside : scanMode reader.mode = .outside
  · cases hquote : c.is '"' with
    | true =>
      obtain ⟨isName, rfl⟩ := step_quote_outside hquote houtside hliteral h
      exact nofun
    | false => exact (step_stays hquote houtside hliteral h).literal
  · obtain ⟨stack, mode⟩ := reader
    cases mode with
    | string isName units =>
      simp only [Reader.step] at h
      split_ifs at h
      · cases h
        exact (endString_outside stack isName units).2
      · cases h
        exact nofun
      · cases h
        exact nofun
    | escape isName units =>
      simp only [Reader.step] at h
      split_ifs at h
      · cases h
        exact nofun
      · split at h
        · cases h
          exact nofun
        · cases h
    | unicode isName units count value =>
      simp only [Reader.step] at h
      split at h
      · split_ifs at h
        all_goals
          cases h
          exact nofun
      · cases h
    | _ => exact absurd rfl houtside

/-- A character beyond ASCII stands in a string, as itself. -/
private theorem step_high (hc : 0x80 ≤ c.val) (hliteral : LiteralOuter reader.mode)
    (h : reader.step py c = .ok reader') : ∃ isName units,
      reader.mode = .string isName units ∧ reader' = ⟨reader.stack, .string isName ((c, false) :: units)⟩ := by
  have hinner : Inner c := .inr (.inr hc)
  have hne : ∀ a : Char, a.toNat < 0x80 → c.is a = false := by
    intro a ha
    rw [CodePoint.is, beq_eq_false_iff_ne]
    omega
  obtain ⟨stack, mode⟩ := reader
  cases mode with
  | string isName units =>
    simp only [Reader.step, hne '"' (by decide), hne '\\' (by decide), Bool.false_eq_true, if_false]
      at h
    rw [if_neg (by omega)] at h
    cases h
    exact ⟨isName, units, rfl, rfl⟩
  | escape isName units =>
    have hnone : unescape c = none := by
      rw [unescape, hne '"' (by decide), hne '\\' (by decide), hne '/' (by decide),
        hne 'b' (by decide), hne 'f' (by decide), hne 'n' (by decide), hne 'r' (by decide),
        hne 't' (by decide)]
      rfl
    simp [Reader.step, hne 'u' (by decide), hnone] at h
  | unicode isName units count value =>
    have hnone : hexValue c = none := by
      rw [hexValue, hinner.not_digit, if_neg (by simp), if_neg (by omega), if_neg (by omega)]
    simp [Reader.step, hnone] at h
  | _ => exact absurd h (step_inner hinner rfl hliteral)

variable {line : Str}

/-- The pieces of a text that starts inside a string. -/
private theorem inside_fragments (length : Nat) : ∀ {t : Str} {stack : List Frame} {isName : Bool}
    {units : List Piece}, t.length ≤ length → (∀ c ∈ t, c.isLineBreak = true → 0x80 ≤ c.val) →
    Runs py' ⟨stack, .string isName units⟩ t reader' →
    ∀ piece ∈ t.splitOnP CodePoint.isLineBreak, ∀ record,
      loads py (strip piece) = .ok (.dict record) → ∀ name ∈ record.map Prod.fst, Nameless name := by
  -- By induction on the length: each break leaves a shorter text that starts inside a string.
  induction length with
  | zero =>
    intro t stack isName units hlength _ hrun piece hpiece record h
    cases List.length_eq_zero_iff.mp (Nat.le_zero.mp hlength)
    rw [List.splitOnP_nil, List.mem_singleton] at hpiece
    exact fragment_names hrun (hpiece ▸ h)
  | succ length ih =>
    intro t stack isName units hlength hhigh hrun piece hpiece record h
    by_cases hbreak : ∃ c ∈ t, c.isLineBreak = true
    · obtain ⟨s, c, rest, rfl, hs, hc⟩ := first_break hbreak
      rw [List.splitOnP_append_cons_of_forall_mem hs c hc] at hpiece
      obtain ⟨middle, hbefore, hafter⟩ := hrun.split
      rw [Runs, List.foldlM_cons] at hafter
      obtain ⟨next, hnext, hrest⟩ := bind_eq_ok.mp hafter
      have hstart : LiteralOuter (Reader.mk stack (.string isName units)).mode := by
        simp [LiteralOuter]
      have hliteral := @foldlM_invariant _ _ _ (Reader.step py') (fun r => LiteralOuter r.mode)
        (fun _ => True) (fun _ _ _ hs _ => step_literal hs) _ _ _ (fun _ _ => trivial) hstart hbefore
      obtain ⟨isName', units', hmode, rfl⟩ :=
        step_high (hhigh c (by simp) hc) hliteral hnext
      rcases List.mem_cons.mp hpiece with rfl | hpiece
      · exact fragment_names hbefore h
      · refine ih ?_ (fun d hd => hhigh d (by simp [hd])) hrest piece hpiece record h
        rw [List.length_append, List.length_cons] at hlength
        omega
    · have hnone : ∀ c ∈ t, c.isLineBreak = false := by
        intro c hc
        exact Bool.eq_false_iff.mpr fun h => hbreak ⟨c, hc, h⟩
      rw [List.splitOnP_eq_singleton hnone, List.mem_singleton] at hpiece
      exact fragment_names hrun (hpiece ▸ h)

/-- **The pieces of a broken line.** A record that is made of a piece of a line, broken at the
separators inside its strings, has no name with the letter `p`. -/
theorem fragments_names {depth : Nat} (hdepth : py.readerDepth ≤ depth)
    (hline : loads { py with readerDepth := depth } line = .ok value)
    (hbreak : ∃ c ∈ line, c.isLineBreak = true)
    (hhigh : ∀ c ∈ line, c.isLineBreak = true → 0x80 ≤ c.val) :
    ∀ piece ∈ line.splitOnP CodePoint.isLineBreak, ∀ record,
      loads py (strip piece) = .ok (.dict record) → ∀ name ∈ record.map Prod.fst, Nameless name := by
  intro piece hpiece record h
  rw [loads] at hline
  split_ifs at hline
  · cases hline
  obtain ⟨reader, hread, _⟩ := bind_eq_ok.mp hline
  obtain ⟨s, c, rest, rfl, hs, hc⟩ := first_break hbreak
  rw [List.splitOnP_append_cons_of_forall_mem hs c hc] at hpiece
  obtain ⟨middle, hbefore, hafter⟩ := Runs.split hread
  rw [Runs, List.foldlM_cons] at hafter
  obtain ⟨next, hnext, hrest⟩ := bind_eq_ok.mp hafter
  have hstart : LiteralOuter (Reader.mk [] .value).mode := by simp [LiteralOuter]
  have hliteral := @foldlM_invariant _ _ _ (Reader.step { py with readerDepth := depth })
    (fun r => LiteralOuter r.mode) (fun _ => True) (fun _ _ _ hs _ => step_literal hs) _ _ _
    (fun _ _ => trivial) hstart hbefore
  obtain ⟨isName, units, hmode, rfl⟩ := step_high (hhigh c (by simp) hc) hliteral hnext
  rcases List.mem_cons.mp hpiece with rfl | hpiece
  · obtain ⟨stack, mode⟩ := middle
    cases hmode
    exact absurd (loads_deeper hdepth h) (first_fragment hbefore)
  · refine inside_fragments rest.length (Nat.le_refl _) (fun d hd => hhigh d (by simp [hd])) hrest
      piece hpiece record h

/-! ## The bytes of a broken line -/

/-- A separator beyond ASCII ends a line of bytes. -/
private theorem byteLines_high (hc : c.isLineBreak = true) (hhigh : 0x80 ≤ c.val)
    (hs : ∀ d ∈ s, d.isLineBreak = false) (rest : Bytes) :
    byteLines (encodePass (s ++ [c]) ++ rest) = encodePass s :: byteLines rest := by
  have hval : c.val = 0x85 ∨ c.val = 0x2028 ∨ c.val = 0x2029 := by
    rw [CodePoint.isLineBreak] at hc
    simp only [Bool.or_eq_true, decide_eq_true_eq, beq_iff_eq] at hc
    omega
  have hencode : encodePass [c] = encodeChar c := List.append_nil _
  rw [byteLines, encodePass_append, List.append_assoc, byteLinesFrom_text hs, List.append_nil,
    hencode]
  have hself : ∀ {n : Nat}, c.val = n → c = .ofNat n := by
    rintro n rfl
    exact (CodePoint.ofNat_val c).symm
  rcases hval with hval | hval | hval
  all_goals
    obtain rfl := hself hval
    refine Eq.trans ?_ (congrArg (· :: byteLines rest) (List.reverse_reverse (encodePass s)))
    rfl

/-- The bytes of a line are split where its text is. -/
theorem byteLines_splitOnP (hhigh : ∀ c ∈ line, c.isLineBreak = true → 0x80 ≤ c.val)
    (rest : Bytes) :
    byteLines (encodePass (line ++ str "\n") ++ rest)
      = (line.splitOnP CodePoint.isLineBreak).map encodePass ++ byteLines rest := by
  induction hlength : line.length using Nat.strongRecOn generalizing line with
  | ind length ih =>
    by_cases hbreak : ∃ c ∈ line, c.isLineBreak = true
    · obtain ⟨s, c, after, rfl, hs, hc⟩ := first_break hbreak
      rw [List.splitOnP_append_cons_of_forall_mem hs c hc, List.map_cons, List.cons_append]
      have hafter := ih after.length (by rw [← hlength, List.length_append, List.length_cons]; omega)
        (fun d hd => hhigh d (by simp [hd])) rfl
      have hbytes : encodePass (s ++ c :: after ++ str "\n") ++ rest
          = encodePass (s ++ [c]) ++ (encodePass (after ++ str "\n") ++ rest) := by
        rw [← List.append_assoc, ← encodePass_append]
        congr 2
        simp
      rw [hbytes, byteLines_high hc (hhigh c (by simp) hc) hs, hafter]
    · have hnone : ∀ c ∈ line, c.isLineBreak = false := by
        intro c hc
        exact Bool.eq_false_iff.mpr fun h => hbreak ⟨c, hc, h⟩
      rw [List.splitOnP_eq_singleton hnone, byteLines_cons hnone]
      rfl

end

end TrustPortal.Proofs.Transcript
