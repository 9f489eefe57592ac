import TrustPortal.Proofs.Transcript.Utf8

/-!
# `TrustPortal.Proofs.Transcript.Splitting`: splitting bytes and splitting text

A transcript that comes as bytes is split before it is decoded, and one that comes as text is split by
`str.splitlines()`. `decode_byteLines` says that the lines are the same, for all bytes, also those that
are not UTF-8.

The decoder reads one `Part` at a time: the bytes of a character, or the longest beginning of one that
is cut off, or a byte that starts none. It is cut off only by a byte that does not go on with it, and
every byte that goes on with a character is a continuation byte. No line separator starts with one, so
the decoder stands between two parts at each separator (`decode_append`). In the other direction a part
that decodes to a line separator is the bytes of one (`Part.separator`).
-/

set_option autoImplicit false

namespace TrustPortal.Proofs.Transcript

open TrustPortal.Python
open TrustPortal.Transcript

/-! ## The parts that the decoder reads -/

/-- What the decoder reads as one character: the bytes, the character, and which bytes would go on
with it. -/
inductive Part : Bytes → CodePoint → (UInt8 → Bool) → Prop
  | one (a : UInt8) (h : a.toNat < 0x80) : Part [a] (.ofNat a.toNat) fun _ => false
  /-- A continuation byte, or a byte that is in no character. -/
  | stray (a : UInt8) (h : 0x80 ≤ a.toNat) (ha : a.toNat < 0xC2 ∨ 0xF5 ≤ a.toNat) :
      Part [a] .replacement fun _ => false
  | two (a b : UInt8) (h : 0xC2 ≤ a.toNat) (ha : a.toNat < 0xE0) (hb : isTail b = true) :
      Part [a, b] (.ofNat ((a.toNat - 0xC0) * 0x40 + (b.toNat - 0x80))) fun _ => false
  | twoCut (a : UInt8) (h : 0xC2 ≤ a.toNat) (ha : a.toNat < 0xE0) : Part [a] .replacement isTail
  | three (a b c : UInt8) (h : 0xE0 ≤ a.toNat) (ha : a.toNat < 0xF0) (hb : isSecond a b = true)
      (hc : isTail c = true) :
      Part [a, b, c] (.ofNat ((a.toNat - 0xE0) * 0x1000 + (b.toNat - 0x80) * 0x40 + (c.toNat - 0x80)))
        fun _ => false
  | threeCut (a b : UInt8) (h : 0xE0 ≤ a.toNat) (ha : a.toNat < 0xF0) (hb : isSecond a b = true) :
      Part [a, b] .replacement isTail
  | four (a b c d : UInt8) (h : 0xF0 ≤ a.toNat) (ha : a.toNat < 0xF5) (hb : isSecond a b = true)
      (hc : isTail c = true) (hd : isTail d = true) :
      Part [a, b, c, d] (.ofNat ((a.toNat - 0xF0) * 0x40000 + (b.toNat - 0x80) * 0x1000
        + (c.toNat - 0x80) * 0x40 + (d.toNat - 0x80))) fun _ => false
  | fourCut (a b : UInt8) (h : 0xF0 ≤ a.toNat) (ha : a.toNat < 0xF5) (hb : isSecond a b = true) :
      Part [a, b] .replacement isTail
  | fourCutLast (a b c : UInt8) (h : 0xF0 ≤ a.toNat) (ha : a.toNat < 0xF5) (hb : isSecond a b = true)
      (hc : isTail c = true) : Part [a, b, c] .replacement isTail
  /-- A first byte of three or four that is cut off. -/
  | firstCut (a : UInt8) (h : 0xE0 ≤ a.toNat) (ha : a.toNat < 0xF5) : Part [a] .replacement (isSecond a)

section
variable {part rest : Bytes} {c : CodePoint} {goesOn : UInt8 → Bool} {b : UInt8}

/-- A second byte is a continuation byte. -/
private theorem isTail_of_isSecond {a : UInt8} (h : isSecond a b = true) : isTail b = true := by
  rw [isSecond, Bool.and_eq_true] at h
  exact h.1

/-- Only continuation bytes go on with a part. -/
theorem Part.goesOn_tail (h : Part part c goesOn) (hb : goesOn b = true) : isTail b = true := by
  cases h with
  | one | stray | two | three | four => cases hb
  | twoCut | threeCut | fourCut | fourCutLast => exact hb
  | firstCut => exact isTail_of_isSecond hb

/-- A part has a byte. -/
theorem Part.ne_nil (h : Part part c goesOn) : part ≠ [] := by
  cases h <;> exact List.cons_ne_nil _ _

/-- The decoder reads a part, whatever follows, unless it goes on with it. -/
theorem Part.decode (h : Part part c goesOn) (hrest : ∀ b ∈ rest.head?, goesOn b = false) :
    Python.decode (part ++ rest) = c :: Python.decode rest := by
  cases h with
  | one a h =>
    rw [List.singleton_append, Python.decode.eq_def]
    dsimp only
    rw [if_pos h]
  | stray a h ha =>
    rw [List.singleton_append, Python.decode.eq_def]
    dsimp only
    rw [if_neg (by omega)]
    split_ifs <;> first | rfl | omega
  | two a b h ha hb =>
    rw [List.cons_append, List.singleton_append, Python.decode.eq_def]
    dsimp only
    rw [if_neg (by omega), if_neg (by omega), if_pos ha, if_pos hb]
  | twoCut a h ha =>
    rw [List.singleton_append, Python.decode.eq_def]
    dsimp only
    rw [if_neg (by omega), if_neg (by omega), if_pos ha]
    cases rest with
    | nil => rfl
    | cons b rest => exact if_neg (Bool.eq_false_iff.mp (hrest b rfl))
  | three a b c h ha hb hc =>
    rw [List.cons_append, List.cons_append, List.singleton_append, Python.decode.eq_def]
    dsimp only
    rw [if_neg (by omega), if_neg (by omega), if_neg (by omega), if_pos ha, if_pos hb, if_pos hc]
  | threeCut a b h ha hb =>
    rw [List.cons_append, List.singleton_append, Python.decode.eq_def]
    dsimp only
    rw [if_neg (by omega), if_neg (by omega), if_neg (by omega), if_pos ha, if_pos hb]
    cases rest with
    | nil => rfl
    | cons c rest => exact if_neg (Bool.eq_false_iff.mp (hrest c rfl))
  | four a b c d h ha hb hc hd =>
    rw [List.cons_append, List.cons_append, List.cons_append, List.singleton_append,
      Python.decode.eq_def]
    dsimp only
    rw [if_neg (by omega), if_neg (by omega), if_neg (by omega), if_neg (by omega), if_pos ha,
      if_pos hb, if_pos hc, if_pos hd]
  | fourCut a b h ha hb =>
    rw [List.cons_append, List.singleton_append, Python.decode.eq_def]
    dsimp only
    rw [if_neg (by omega), if_neg (by omega), if_neg (by omega), if_neg (by omega), if_pos ha,
      if_pos hb]
    cases rest with
    | nil => rfl
    | cons c rest => exact if_neg (Bool.eq_false_iff.mp (hrest c rfl))
  | fourCutLast a b c h ha hb hc =>
    rw [List.cons_append, List.cons_append, List.singleton_append, Python.decode.eq_def]
    dsimp only
    rw [if_neg (by omega), if_neg (by omega), if_neg (by omega), if_neg (by omega), if_pos ha,
      if_pos hb, if_pos hc]
    cases rest with
    | nil => rfl
    | cons d rest => exact if_neg (Bool.eq_false_iff.mp (hrest d rfl))
  | firstCut a h ha =>
    rw [List.singleton_append, Python.decode.eq_def]
    dsimp only
    rw [if_neg (by omega), if_neg (by omega), if_neg (by omega)]
    cases rest with
    | nil => split_ifs <;> rfl
    | cons b rest =>
      have hsecond : ¬isSecond a b = true := Bool.eq_false_iff.mp (hrest b rfl)
      split_ifs <;> exact if_neg hsecond

/-- Bytes start with a part that is not gone on with. -/
theorem exists_part (a : UInt8) (rest : Bytes) : ∃ part c goesOn after,
    a :: rest = part ++ after ∧ Part part c goesOn ∧ ∀ b ∈ after.head?, goesOn b = false := by
  by_cases hone : a.toNat < 0x80
  · exact ⟨[a], _, _, rest, rfl, .one a hone, fun _ _ => rfl⟩
  by_cases hstray : a.toNat < 0xC2 ∨ 0xF5 ≤ a.toNat
  · exact ⟨[a], _, _, rest, rfl, .stray a (by omega) hstray, fun _ _ => rfl⟩
  by_cases htwo : a.toNat < 0xE0
  · -- the second byte is there, or the character is cut off
    cases rest with
    | nil => exact ⟨[a], _, _, [], rfl, .twoCut a (by omega) htwo, nofun⟩
    | cons b rest =>
      cases hb : isTail b with
      | true => exact ⟨[a, b], _, _, rest, rfl, .two a b (by omega) htwo hb, fun _ _ => rfl⟩
      | false =>
        refine ⟨[a], _, _, b :: rest, rfl, .twoCut a (by omega) htwo, ?_⟩
        rintro _ ⟨⟩
        exact hb
  cases rest with
  | nil => exact ⟨[a], _, _, [], rfl, .firstCut a (by omega) (by omega), nofun⟩
  | cons b rest =>
    cases hb : isSecond a b with
    | false =>
      refine ⟨[a], _, _, b :: rest, rfl, .firstCut a (by omega) (by omega), ?_⟩
      rintro _ ⟨⟩
      exact hb
    | true =>
      by_cases hthree : a.toNat < 0xF0
      · cases rest with
        | nil => exact ⟨[a, b], _, _, [], rfl, .threeCut a b (by omega) hthree hb, nofun⟩
        | cons c rest =>
          cases hc : isTail c with
          | true =>
            exact ⟨[a, b, c], _, _, rest, rfl, .three a b c (by omega) hthree hb hc, fun _ _ => rfl⟩
          | false =>
            refine ⟨[a, b], _, _, c :: rest, rfl, .threeCut a b (by omega) hthree hb, ?_⟩
            rintro _ ⟨⟩
            exact hc
      · cases rest with
        | nil => exact ⟨[a, b], _, _, [], rfl, .fourCut a b (by omega) (by omega) hb, nofun⟩
        | cons c rest =>
          cases hc : isTail c with
          | false =>
            refine ⟨[a, b], _, _, c :: rest, rfl, .fourCut a b (by omega) (by omega) hb, ?_⟩
            rintro _ ⟨⟩
            exact hc
          | true =>
            cases rest with
            | nil =>
              exact ⟨[a, b, c], _, _, [], rfl, .fourCutLast a b c (by omega) (by omega) hb hc, nofun⟩
            | cons d rest =>
              cases hd : isTail d with
              | true =>
                exact ⟨[a, b, c, d], _, _, rest, rfl, .four a b c d (by omega) (by omega) hb hc hd,
                  fun _ _ => rfl⟩
              | false =>
                refine ⟨[a, b, c], _, _, d :: rest, rfl,
                  .fourCutLast a b c (by omega) (by omega) hb hc, ?_⟩
                rintro _ ⟨⟩
                exact hd

/-- The decoder stands between two parts before a byte that is no continuation byte. -/
theorem decode_append {first second : Bytes} (h : ∀ b ∈ second.head?, isTail b = false) :
    Python.decode (first ++ second) = Python.decode first ++ Python.decode second := by
  -- by length: a part has up to four bytes
  induction hlength : first.length using Nat.strong_induction_on generalizing first with
  | _ n ih =>
    cases first with
    | nil => rfl
    | cons a rest =>
      obtain ⟨part, c, goesOn, after, heq, hpart, hafter⟩ := exists_part a rest
      have hshorter : after.length < n := by
        have hpos := List.length_pos_iff.mpr hpart.ne_nil
        have hsum := congrArg List.length heq
        rw [List.length_append] at hsum
        omega
      have hstops : ∀ b ∈ (after ++ second).head?, goesOn b = false := by
        cases after with
        | nil =>
          intro b hb
          exact Bool.eq_false_iff.mpr fun hgoes =>
            Bool.eq_false_iff.mp (h b hb) (hpart.goesOn_tail hgoes)
        | cons => exact hafter
      rw [heq, List.append_assoc, hpart.decode hstops, hpart.decode hafter, List.cons_append,
        ih after.length hshorter rfl]

/-! ## Line separators -/

/-- The line separators. -/
private theorem isLineBreak_ofNat {n : Nat} (h : (CodePoint.ofNat n).isLineBreak = true) :
    0x0A ≤ n ∧ n ≤ 0x0D ∨ 0x1C ≤ n ∧ n ≤ 0x1E ∨ n = 0x85 ∨ n = 0x2028 ∨ n = 0x2029 := by
  by_cases hn : n < 0x110000
  · rw [CodePoint.isLineBreak, CodePoint.val_ofNat hn] at h
    simp only [Bool.or_eq_true, decide_eq_true_eq, beq_iff_eq] at h
    tauto
  · rw [CodePoint.ofNat, dif_neg hn] at h
    exact absurd h (by decide)

/-- A byte is known by its number. -/
private theorem byte_eq {a b : UInt8} (h : a.toNat = b.toNat) : a = b := UInt8.toNat_inj.mp h

/-- A separator of one byte. -/
private theorem breakLength_byte (h : isBreakByte b = true) (rest : Bytes) :
    breakLength (b :: rest) ≠ 0 := by
  unfold breakLength
  split
  · decide
  · decide
  · next heq =>
    cases heq
    exact absurd h (by decide)
  · next heq =>
    cases heq
    rw [if_pos h]
    decide
  · next heq => cases heq

/-- The bytes of a line separator stay one, whatever follows. -/
private theorem breakLength_append {first : Bytes} (h : breakLength first ≠ 0) (second : Bytes) :
    breakLength (first ++ second) ≠ 0 := by
  unfold breakLength at h
  split at h
  · exact Nat.succ_ne_zero 1
  · exact Nat.succ_ne_zero 1
  · next d r =>
    show (if d = 0xA8 ∨ d = 0xA9 then 3 else 0) ≠ 0
    exact h
  · next b r _ _ _ =>
    cases hb : isBreakByte b with
    | true => exact breakLength_byte hb _
    | false =>
      rw [hb] at h
      exact absurd rfl h
  · exact absurd rfl h

/-- A part that decodes to a line separator is the bytes of one, and the byte of a line feed. -/
theorem Part.separator (h : Part part c goesOn) (hbreak : c.isLineBreak = true) :
    breakLength part ≠ 0 ∧ (c.val = 0x0A → part = [0x0A]) := by
  cases h with
  | one a h =>
    have hvalue := isLineBreak_ofNat hbreak
    constructor
    · apply breakLength_byte
      rw [isBreakByte, Bool.or_eq_true, decide_eq_true_eq, decide_eq_true_eq]
      omega
    · intro hfeed
      rw [CodePoint.val_ofNat (by omega)] at hfeed
      rw [byte_eq (show a.toNat = (0x0A : UInt8).toNat from hfeed)]
  | two a b h ha hb =>
    -- U+0085
    have hvalue := isLineBreak_ofNat hbreak
    rw [isTail, Bool.and_eq_true, decide_eq_true_eq, decide_eq_true_eq] at hb
    have hfirst : a = 0xC2 := byte_eq (show a.toNat = 0xC2 by omega)
    have hsecond : b = 0x85 := byte_eq (show b.toNat = 0x85 by omega)
    subst hfirst hsecond
    decide
  | three a b c h ha hb hc =>
    -- U+2028 and U+2029
    have hvalue := isLineBreak_ofNat hbreak
    have htail := isTail_of_isSecond hb
    rw [isSecond, htail, Bool.true_and] at hb
    rw [isTail, Bool.and_eq_true, decide_eq_true_eq, decide_eq_true_eq] at htail hc
    have hlow : a.toNat = 0xE0 → 0xA0 ≤ b.toNat := by
      intro heq
      rw [if_pos heq] at hb
      exact of_decide_eq_true hb
    have hfirst : a = 0xE2 := byte_eq (show a.toNat = 0xE2 by omega)
    have hsecond : b = 0x80 := byte_eq (show b.toNat = 0x80 by omega)
    have hthird : c = 0xA8 ∨ c = 0xA9 := by
      rcases (show c.toNat = 0xA8 ∨ c.toNat = 0xA9 by omega) with hc | hc
      · exact .inl (byte_eq hc)
      · exact .inr (byte_eq hc)
    subst hfirst hsecond
    rcases hthird with rfl | rfl <;> decide
  | four a b c d h ha hb hc hd =>
    -- a character of four bytes is above them
    have hvalue := isLineBreak_ofNat hbreak
    have htail := isTail_of_isSecond hb
    rw [isSecond, htail, Bool.true_and] at hb
    rw [isTail, Bool.and_eq_true, decide_eq_true_eq, decide_eq_true_eq] at htail
    have hlow : a.toNat = 0xF0 → 0x90 ≤ b.toNat := by
      intro heq
      rw [if_neg (by omega), if_neg (by omega), if_pos heq] at hb
      exact of_decide_eq_true hb
    omega
  | stray | twoCut | threeCut | fourCut | fourCutLast | firstCut => exact absurd hbreak (by decide)

/-- No line separator starts in these bytes, with others behind them. -/
def Unbroken (line after : Bytes) : Prop :=
  ∀ before b behind, line = before ++ b :: behind → breakLength (b :: behind ++ after) = 0

/-- The text of a line has no line separator. -/
private theorem decode_unbroken {line after : Bytes} (h : Unbroken line after) :
    ∀ c ∈ Python.decode line, c.isLineBreak = false := by
  induction hlength : line.length using Nat.strong_induction_on generalizing line with
  | _ n ih =>
    cases line with
    | nil => exact fun _ hmem => absurd hmem List.not_mem_nil
    | cons a rest =>
      obtain ⟨part, c, goesOn, behind, heq, hpart, hbehind⟩ := exists_part a rest
      rw [heq] at h hlength ⊢
      rw [hpart.decode hbehind]
      rw [List.length_append] at hlength
      have hpos := List.length_pos_iff.mpr hpart.ne_nil
      have hlater : Unbroken behind after := by
        intro before b others hsplit
        exact h (part ++ before) b others (by rw [hsplit, List.append_assoc])
      rw [List.forall_mem_cons]
      refine ⟨Bool.eq_false_iff.mpr fun hbreak => ?_, ih behind.length (by omega) hlater rfl⟩
      cases part with
      | nil => exact hpart.ne_nil rfl
      | cons b others =>
        have hzero := h [] b (others ++ behind) rfl
        rw [← List.cons_append, List.append_assoc] at hzero
        exact breakLength_append (hpart.separator hbreak).1 _ hzero

/-! ## Lines of bytes -/

/-- The bytes of a separator are left out. -/
private theorem byteLinesFrom_skip (line : Bytes) (skip : Nat) (bytes : Bytes) :
    byteLinesFrom line skip bytes = byteLinesFrom line 0 (bytes.drop skip) := by
  induction bytes generalizing skip with
  | nil => rw [List.drop_nil, byteLinesFrom, byteLinesFrom]
  | cons b rest ih =>
    cases skip with
    | zero => rfl
    | succ skip => rw [byteLinesFrom, ih, List.drop_succ_cons]

/-- Where the first line ends. -/
private inductive FirstLine (line : Bytes) : Bytes → List Bytes → Prop
  | last (bytes : Bytes) (h : Unbroken bytes []) : FirstLine line bytes
      (if (bytes.reverse ++ line).isEmpty then [] else [line.reverse ++ bytes])
  | ended (first after : Bytes) (h : Unbroken first after) (hbreak : breakLength after ≠ 0) :
      FirstLine line (first ++ after)
        ((line.reverse ++ first) :: byteLines (after.drop (breakLength after)))

/-- The lines of bytes: up to the first separator, and those behind it. -/
private theorem firstLine_byteLines (line bytes : Bytes) :
    FirstLine line bytes (byteLinesFrom line 0 bytes) := by
  induction bytes generalizing line with
  | nil =>
    have hnone : Unbroken [] [] := by
      intro before b behind heq
      cases before <;> cases heq
    have hlast : FirstLine line [] _ := .last [] hnone
    rwa [List.reverse_nil, List.nil_append, List.append_nil] at hlast
  | cons b rest ih =>
    cases hlength : breakLength (b :: rest) with
    | succ length =>
      have hended : FirstLine line ([] ++ b :: rest) _ := .ended [] (b :: rest)
        (by intro before b behind heq; cases before <;> cases heq) (by omega)
      rw [byteLinesFrom, hlength]
      dsimp only
      rw [byteLinesFrom_skip]
      rwa [List.nil_append, List.append_nil, hlength, List.drop_succ_cons] at hended
    | zero =>
      have hrest := ih (b :: line)
      rw [byteLinesFrom, hlength]
      dsimp only
      generalize byteLinesFrom (b :: line) 0 rest = lines at hrest
      cases hrest with
      | last _ hclear =>
        have hclear' : Unbroken (b :: rest) [] := by
          intro before d behind heq
          cases before with
          | nil =>
            obtain ⟨rfl, rfl⟩ := List.cons.inj heq
            rwa [List.append_nil]
          | cons e before =>
            exact hclear before d behind (List.cons.inj heq).2
        have hlast : FirstLine line (b :: rest) _ := .last (b :: rest) hclear'
        simpa using hlast
      | ended first after hclear hbreak =>
        have hclear' : Unbroken (b :: first) after := by
          intro before d behind heq
          cases before with
          | nil =>
            obtain ⟨rfl, rfl⟩ := List.cons.inj heq
            exact hlength
          | cons e before =>
            exact hclear before d behind (List.cons.inj heq).2
        have hended : FirstLine line (b :: first ++ after) _ :=
          .ended (b :: first) after hclear' hbreak
        simpa using hended

/-! ## Lines of text -/

/-- The one-byte separators but the carriage return. -/
private theorem breakByte_char (h : isBreakByte b = true) (hreturn : b ≠ 0x0D) :
    b.toNat < 0x80 ∧ (CodePoint.ofNat b.toNat).is '\r' = false
      ∧ (CodePoint.ofNat b.toNat).isLineBreak = true := by
  rw [isBreakByte, Bool.or_eq_true, decide_eq_true_eq, decide_eq_true_eq] at h
  have hne : b.toNat ≠ 0x0D := fun heq => hreturn (byte_eq heq)
  have hval : (CodePoint.ofNat b.toNat).val = b.toNat := CodePoint.val_ofNat (by omega)
  refine ⟨by omega, ?_, ?_⟩
  · rw [CodePoint.is, hval, beq_eq_false_iff_ne]
    exact hne
  · rw [CodePoint.isLineBreak, hval]
    simp only [Bool.or_eq_true, decide_eq_true_eq]
    omega

/-- A text that starts with a line feed has one as its first byte. -/
private theorem head_of_lineFeed {bytes : Bytes} {text : Str} (h : Python.decode bytes = c :: text)
    (hc : c.is '\n' = true) : ∃ after, bytes = 0x0A :: after := by
  cases bytes with
  | nil => cases h
  | cons a rest =>
    obtain ⟨part, d, goesOn, after, heq, hpart, hafter⟩ := exists_part a rest
    rw [heq, hpart.decode hafter] at h
    obtain ⟨rfl, _⟩ := List.cons.inj h
    have hvalue : d.val = 0x0A := by simpa [CodePoint.is] using hc
    have hbreak : d.isLineBreak = true := by
      rw [CodePoint.isLineBreak, hvalue]
      decide
    exact ⟨after, by rw [heq, (hpart.separator hbreak).2 hvalue, List.singleton_append]⟩

/-- The text of a separator ends a line, and the lines behind it are those of the bytes behind it. -/
private theorem textLinesFrom_break {after : Bytes} (h : breakLength after ≠ 0) (line : Str) :
    textLinesFrom line (Python.decode after)
      = line.reverse :: textLines (Python.decode (after.drop (breakLength after))) := by
  unfold breakLength at h ⊢
  split at h
  · -- a carriage return and a line feed
    next rest =>
    have hreturn : Python.decode (0x0D :: 0x0A :: rest) = .ofNat 0x0D :: Python.decode (0x0A :: rest) :=
      (Part.one 0x0D (by decide)).decode fun _ _ => rfl
    have hfeed : Python.decode (0x0A :: rest) = .ofNat 0x0A :: Python.decode rest :=
      (Part.one 0x0A (by decide)).decode fun _ _ => rfl
    rw [hreturn, hfeed, textLinesFrom.eq_def]
    rfl
  · -- U+0085
    next rest =>
    have hchar : Python.decode (0xC2 :: 0x85 :: rest) = .ofNat 0x85 :: Python.decode rest :=
      (Part.two 0xC2 0x85 (by decide) (by decide) (by decide)).decode fun _ _ => rfl
    rw [hchar, textLinesFrom.eq_def]
    rfl
  · -- U+2028 and U+2029
    next d rest =>
    have hlast : d = 0xA8 ∨ d = 0xA9 := by
      by_contra hnone
      exact h (if_neg hnone)
    rw [if_pos hlast]
    rcases hlast with rfl | rfl
    · have hchar : Python.decode (0xE2 :: 0x80 :: 0xA8 :: rest) = .ofNat 0x2028 :: Python.decode rest :=
        (Part.three 0xE2 0x80 0xA8 (by decide) (by decide) (by decide) (by decide)).decode fun _ _ => rfl
      rw [hchar, textLinesFrom.eq_def]
      rfl
    · have hchar : Python.decode (0xE2 :: 0x80 :: 0xA9 :: rest) = .ofNat 0x2029 :: Python.decode rest :=
        (Part.three 0xE2 0x80 0xA9 (by decide) (by decide) (by decide) (by decide)).decode fun _ _ => rfl
      rw [hchar, textLinesFrom.eq_def]
      rfl
  · next d rest hnotFeed _ _ =>
    have hbyte : isBreakByte d = true := by
      by_contra hnone
      exact h (if_neg hnone)
    rw [if_pos hbyte, List.drop_succ_cons, List.drop_zero]
    by_cases hreturn : d = 0x0D
    · -- a carriage return that no line feed follows
      subst hreturn
      have hchar : Python.decode (0x0D :: rest) = .ofNat 0x0D :: Python.decode rest :=
        (Part.one 0x0D (by decide)).decode fun _ _ => rfl
      rw [hchar, textLinesFrom.eq_def]
      dsimp only
      rw [if_pos (by decide)]
      cases htext : Python.decode rest with
      | nil => rfl
      | cons c text =>
        dsimp only
        rw [if_neg, textLines]
        intro hfeed
        obtain ⟨behind, rfl⟩ := head_of_lineFeed htext hfeed
        exact hnotFeed behind rfl rfl
    · obtain ⟨hlow, hnotReturn, hbreak⟩ := breakByte_char hbyte hreturn
      have hchar : Python.decode (d :: rest) = .ofNat d.toNat :: Python.decode rest :=
        (Part.one d hlow).decode fun _ _ => rfl
      rw [hchar, textLinesFrom.eq_def]
      dsimp only
      rw [if_neg (Bool.eq_false_iff.mp hnotReturn), if_pos hbreak, textLines]
  · exact absurd rfl h

/-- A separator starts with no continuation byte. -/
private theorem head_of_break {after : Bytes} (h : breakLength after ≠ 0) :
    ∀ d ∈ after.head?, isTail d = false := by
  unfold breakLength at h
  split at h
  · rintro _ ⟨⟩
    decide
  · rintro _ ⟨⟩
    decide
  · rintro _ ⟨⟩
    decide
  · next d rest _ _ _ =>
    have hbyte : isBreakByte d = true := by
      by_contra hnone
      exact h (if_neg hnone)
    rintro _ ⟨⟩
    rw [isBreakByte, Bool.or_eq_true, decide_eq_true_eq, decide_eq_true_eq] at hbyte
    rw [isTail, Bool.and_eq_false_iff, decide_eq_false_iff_not]
    omega
  · exact absurd rfl h

/-- **Splitting and decoding.** The decoded lines of the bytes are the lines of the decoded text. -/
theorem decode_byteLines (content : Bytes) :
    (byteLines content).map Python.decode = textLines (Python.decode content) := by
  induction hlength : content.length using Nat.strong_induction_on generalizing content with
  | _ n ih =>
    have hfirst := firstLine_byteLines [] content
    rw [byteLines]
    generalize byteLinesFrom [] 0 content = lines at hfirst
    cases hfirst with
    | last _ hclear =>
      -- one line, unless there are no bytes
      have htext := textLinesFrom_text (decode_unbroken hclear) [] []
      rw [List.append_nil, List.append_nil] at htext
      rw [textLines, htext, textLinesFrom]
      cases content with
      | nil => rfl
      | cons a rest =>
        obtain ⟨part, c, goesOn, after, heq, hpart, hafter⟩ := exists_part a rest
        have hchars : Python.decode (a :: rest) = c :: Python.decode after := by
          rw [heq, hpart.decode hafter]
        rw [if_neg (by simp), if_neg (by simp [hchars]), List.reverse_reverse]
        rfl
    | ended first after hclear hbreak =>
      have hshorter : (after.drop (breakLength after)).length < n := by
        rw [List.length_append] at hlength
        cases after with
        | nil => exact absurd rfl hbreak
        | cons b behind =>
          rw [List.length_drop, List.length_cons]
          rw [List.length_cons] at hlength
          omega
      rw [decode_append (head_of_break hbreak), textLines,
        textLinesFrom_text (decode_unbroken hclear), textLinesFrom_break hbreak, List.map_cons,
        ih _ hshorter _ rfl]
      simp

end

end TrustPortal.Proofs.Transcript
