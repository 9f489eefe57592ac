import TrustPortal.Transcript.Lines

/-!
# `TrustPortal.Proofs.Transcript.Utf8`: decoding and splitting encoded text

The bytes of a character decode to the character, whatever follows (`decode_encodeChar`), and
hold no line separator when the character is none (`byteLinesFrom_char`). So a text without
surrogates and line separators, encoded and ended by a line feed, is one line of the bytes and
decodes to itself.
-/

set_option autoImplicit false

namespace TrustPortal.Proofs.Transcript

open TrustPortal.Python
open TrustPortal.Transcript

section
variable {c : CodePoint} {b : UInt8} {text : Str}

/-! ## Bytes -/

private theorem toNat_ofNat {n : Nat} (h : n < 256) : (UInt8.ofNat n).toNat = n :=
  UInt8.toNat_ofNat_of_lt' h

private theorem isTail_ofNat {n : Nat} (h : n < 0x40) : isTail (UInt8.ofNat (0x80 + n)) = true := by
  rw [isTail, toNat_ofNat (by omega)]
  simp only [Bool.and_eq_true, decide_eq_true_eq]
  omega

/-- The bytes of a character that is no surrogate decode to it, whatever follows. -/
theorem decode_encodeChar (h : c.isSurrogate = false) (rest : Bytes) :
    decode (encodeChar c ++ rest) = c :: decode rest := by
  have hlt := c.isLt
  have hsurrogate : ¬(0xD800 ≤ c.val ∧ c.val ≤ 0xDFFF) := by
    simpa [CodePoint.isSurrogate] using h
  have hself : ∀ n, n = c.val → CodePoint.ofNat n = c := by
    rintro n rfl
    exact CodePoint.ofNat_val c
  rw [encodeChar]
  split_ifs with h1 h2 h3
  · have ha : (UInt8.ofNat c.val).toNat = c.val := toNat_ofNat (by omega)
    rw [List.singleton_append, decode.eq_def]
    dsimp only
    rw [ha, if_pos h1, hself _ rfl]
  · have ha : (UInt8.ofNat (0xC0 + c.val / 0x40)).toNat = 0xC0 + c.val / 0x40 :=
      toNat_ofNat (by omega)
    have hb : (UInt8.ofNat (0x80 + c.val % 0x40)).toNat = 0x80 + c.val % 0x40 :=
      toNat_ofNat (by omega)
    rw [List.cons_append, List.singleton_append, decode.eq_def]
    dsimp only
    rw [ha, if_neg (by omega), if_neg (by omega), if_pos (by omega), if_pos (isTail_ofNat (Nat.mod_lt _ (by decide))), hb, hself _ (by omega)]
  · have ha : (UInt8.ofNat (0xE0 + c.val / 0x1000)).toNat = 0xE0 + c.val / 0x1000 :=
      toNat_ofNat (by omega)
    have hb : (UInt8.ofNat (0x80 + c.val / 0x40 % 0x40)).toNat = 0x80 + c.val / 0x40 % 0x40 :=
      toNat_ofNat (by omega)
    have hc : (UInt8.ofNat (0x80 + c.val % 0x40)).toNat = 0x80 + c.val % 0x40 :=
      toNat_ofNat (by omega)
    have hsecond : isSecond (UInt8.ofNat (0xE0 + c.val / 0x1000))
        (UInt8.ofNat (0x80 + c.val / 0x40 % 0x40)) = true := by
      rw [isSecond, isTail_ofNat (Nat.mod_lt _ (by decide)), ha, hb, Bool.true_and]
      split_ifs <;> simp only [decide_eq_true_eq] <;> omega
    rw [List.cons_append, List.cons_append, List.singleton_append, decode.eq_def]
    dsimp only
    rw [ha, if_neg (by omega), if_neg (by omega), if_neg (by omega), if_pos (by omega), if_pos hsecond, if_pos (isTail_ofNat (Nat.mod_lt _ (by decide))), hb, hc,
      hself _ (by omega)]
  · have ha : (UInt8.ofNat (0xF0 + c.val / 0x40000)).toNat = 0xF0 + c.val / 0x40000 :=
      toNat_ofNat (by omega)
    have hb : (UInt8.ofNat (0x80 + c.val / 0x1000 % 0x40)).toNat = 0x80 + c.val / 0x1000 % 0x40 :=
      toNat_ofNat (by omega)
    have hc : (UInt8.ofNat (0x80 + c.val / 0x40 % 0x40)).toNat = 0x80 + c.val / 0x40 % 0x40 :=
      toNat_ofNat (by omega)
    have hd : (UInt8.ofNat (0x80 + c.val % 0x40)).toNat = 0x80 + c.val % 0x40 :=
      toNat_ofNat (by omega)
    have hsecond : isSecond (UInt8.ofNat (0xF0 + c.val / 0x40000))
        (UInt8.ofNat (0x80 + c.val / 0x1000 % 0x40)) = true := by
      rw [isSecond, isTail_ofNat (Nat.mod_lt _ (by decide)), ha, hb, Bool.true_and]
      split_ifs <;> simp only [decide_eq_true_eq] <;> omega
    rw [List.cons_append, List.cons_append, List.cons_append, List.singleton_append, decode.eq_def]
    dsimp only
    rw [ha, if_neg (by omega), if_neg (by omega), if_neg (by omega), if_neg (by omega),
      if_pos (by omega), if_pos hsecond, if_pos (isTail_ofNat (Nat.mod_lt _ (by decide))),
      if_pos (isTail_ofNat (Nat.mod_lt _ (by decide))), hb, hc, hd, hself _ (by omega)]

/-- Encoded text decodes to itself. -/
theorem decode_encodePass (h : ∀ c ∈ text, c.isSurrogate = false) :
    decode (encodePass text) = text := by
  induction text with
  | nil => rfl
  | cons c rest ih =>
    rw [encodePass, List.flatMap_cons, decode_encodeChar (h c List.mem_cons_self)]
    exact congrArg _ (ih fun d hd => h d (List.mem_cons_of_mem c hd))

theorem encodePass_append (s t : Str) : encodePass (s ++ t) = encodePass s ++ encodePass t :=
  List.flatMap_append

/-! ## Lines of bytes -/

/-- The bytes do not start with a line separator. -/
private theorem breakLength_zero {rest : Bytes} (hbyte : isBreakByte b = false)
    (hnel : ∀ r, b = 0xC2 → rest ≠ 0x85 :: r)
    (hls : ∀ d r, b = 0xE2 → rest = 0x80 :: d :: r → ¬(d = 0xA8 ∨ d = 0xA9)) :
    breakLength (b :: rest) = 0 := by
  unfold breakLength
  split
  · next heq =>
    cases heq
    exact absurd hbyte (by decide)
  · next heq =>
    cases heq
    exact absurd rfl (hnel _ rfl)
  · next d r heq =>
    cases heq
    exact if_neg (hls d r rfl rfl)
  · next heq =>
    cases heq
    rw [hbyte]
    rfl
  · rfl

/-- A byte that starts no line separator belongs to the line. -/
private theorem byteLinesFrom_byte {rest : Bytes} (h : breakLength (b :: rest) = 0) (line : Bytes) :
    byteLinesFrom line 0 (b :: rest) = byteLinesFrom (b :: line) 0 rest := by
  rw [byteLinesFrom, h]

/-- A byte from 0x80 on is no separator of its own. -/
private theorem isBreakByte_high (h : 0x80 ≤ b.toNat) : isBreakByte b = false := by
  rw [isBreakByte]
  simp only [Bool.or_eq_false_iff, decide_eq_false_iff_not]
  omega

/-- A continuation byte starts no line separator. -/
private theorem breakLength_tail {n : Nat} (h : n < 0x40) (rest : Bytes) :
    breakLength (UInt8.ofNat (0x80 + n) :: rest) = 0 := by
  have hval : (UInt8.ofNat (0x80 + n)).toNat = 0x80 + n := toNat_ofNat (by omega)
  refine breakLength_zero (isBreakByte_high (by omega)) (fun r hb => ?_) fun d r hb => ?_
  · have : (UInt8.ofNat (0x80 + n)).toNat = 0xC2 := by rw [hb]; rfl
    omega
  · have : (UInt8.ofNat (0x80 + n)).toNat = 0xE2 := by rw [hb]; rfl
    omega

/-- The bytes of a character that is no line separator belong to the line. -/
theorem byteLinesFrom_char (h : c.isLineBreak = false) (line rest : Bytes) :
    byteLinesFrom line 0 (encodeChar c ++ rest)
      = byteLinesFrom ((encodeChar c).reverse ++ line) 0 rest := by
  have hlt := c.isLt
  simp only [CodePoint.isLineBreak, Bool.or_eq_false_iff, decide_eq_false_iff_not, beq_eq_false_iff_ne]
    at h
  obtain ⟨⟨⟨⟨hlow, hgroup⟩, hnel⟩, hls⟩, hps⟩ := h
  have htail : ∀ n (line rest : Bytes), n < 0x40 →
      byteLinesFrom line 0 (UInt8.ofNat (0x80 + n) :: rest)
        = byteLinesFrom (UInt8.ofNat (0x80 + n) :: line) 0 rest :=
    fun n line rest hn => byteLinesFrom_byte (breakLength_tail hn rest) line
  have hval : ∀ {n : Nat} {b : UInt8}, n < 256 → UInt8.ofNat n = b → n = b.toNat := by
    rintro n b hn rfl
    exact (toNat_ofNat hn).symm
  rw [encodeChar]
  split_ifs with h1 h2 h3
  · -- One byte: a separator of one byte is excluded.
    rw [List.singleton_append]
    have ha : (UInt8.ofNat c.val).toNat = c.val := toNat_ofNat (by omega)
    refine byteLinesFrom_byte (breakLength_zero ?_ (fun r hb => ?_) fun d r hb => ?_) line
    · rw [isBreakByte, ha]
      simp only [Bool.or_eq_false_iff, decide_eq_false_iff_not]
      exact ⟨hlow, hgroup⟩
    · have : c.val = 0xC2 := hval (by omega) hb
      omega
    · have : c.val = 0xE2 := hval (by omega) hb
      omega
  · -- Two bytes: U+0085 is excluded.
    rw [List.cons_append, List.singleton_append, byteLinesFrom_byte, htail _ _ _ (Nat.mod_lt _ (by decide))]
    · rfl
    · refine breakLength_zero (isBreakByte_high ?_) (fun r hb hr => ?_) fun d r hb => ?_
      · rw [toNat_ofNat (by omega)]
        omega
      · have hfirst : 0xC0 + c.val / 0x40 = 0xC2 := hval (by omega) hb
        have hsecond : 0x80 + c.val % 0x40 = 0x85 := hval (by omega) (List.cons.inj hr).1
        omega
      · have : 0xC0 + c.val / 0x40 = 0xE2 := hval (by omega) hb
        omega
  · -- Three bytes: U+2028 and U+2029 are excluded.
    rw [List.cons_append, List.cons_append, List.singleton_append, byteLinesFrom_byte,
      htail _ _ _ (Nat.mod_lt _ (by decide)), htail _ _ _ (Nat.mod_lt _ (by decide))]
    · rfl
    · refine breakLength_zero (isBreakByte_high ?_) (fun r hb => ?_) fun d r hb hr => ?_
      · rw [toNat_ofNat (by omega)]
        omega
      · have : 0xE0 + c.val / 0x1000 = 0xC2 := hval (by omega) hb
        omega
      · have hfirst : 0xE0 + c.val / 0x1000 = 0xE2 := hval (by omega) hb
        have hsecond : 0x80 + c.val / 0x40 % 0x40 = 0x80 :=
          hval (by omega) (List.cons.inj hr).1
        have hthird : UInt8.ofNat (0x80 + c.val % 0x40) = d :=
          (List.cons.inj (List.cons.inj hr).2).1
        rintro (rfl | rfl)
        · have : 0x80 + c.val % 0x40 = 0xA8 := hval (by omega) hthird
          omega
        · have : 0x80 + c.val % 0x40 = 0xA9 := hval (by omega) hthird
          omega
  · rw [List.cons_append, List.cons_append, List.cons_append, List.singleton_append,
      byteLinesFrom_byte, htail _ _ _ (Nat.mod_lt _ (by decide)),
      htail _ _ _ (Nat.mod_lt _ (by decide)), htail _ _ _ (Nat.mod_lt _ (by decide))]
    · rfl
    · refine breakLength_zero (isBreakByte_high ?_) (fun r hb => ?_) fun d r hb => ?_
      · rw [toNat_ofNat (by omega)]
        omega
      · have : 0xF0 + c.val / 0x40000 = 0xC2 := hval (by omega) hb
        omega
      · have : 0xF0 + c.val / 0x40000 = 0xE2 := hval (by omega) hb
        omega

/-- The bytes of a text without line separators belong to the line. -/
theorem byteLinesFrom_text (h : ∀ c ∈ text, c.isLineBreak = false) (line rest : Bytes) :
    byteLinesFrom line 0 (encodePass text ++ rest)
      = byteLinesFrom ((encodePass text).reverse ++ line) 0 rest := by
  induction text generalizing line with
  | nil => rfl
  | cons c t ih =>
    rw [encodePass, List.flatMap_cons, List.append_assoc,
      byteLinesFrom_char (h c List.mem_cons_self)]
    refine (ih (fun d hd => h d (List.mem_cons_of_mem c hd)) _).trans ?_
    rw [List.reverse_append, List.append_assoc]
    rfl

/-- A text without line separators, ended by a line feed, is one line. -/
theorem byteLines_cons (h : ∀ c ∈ text, c.isLineBreak = false) (rest : Bytes) :
    byteLines (encodePass (text ++ str "\n") ++ rest) = encodePass text :: byteLines rest := by
  rw [byteLines, encodePass_append, List.append_assoc, byteLinesFrom_text h, List.append_nil]
  show byteLinesFrom (encodePass text).reverse 0 (0x0A :: rest) = _
  rw [byteLinesFrom]
  show (encodePass text).reverse.reverse :: byteLinesFrom [] 0 rest = _
  rw [List.reverse_reverse, byteLines]

/-! ## Lines of text -/

/-- Characters that are no line separators belong to the line. -/
theorem textLinesFrom_text (h : ∀ c ∈ text, c.isLineBreak = false) (line rest : Str) :
    textLinesFrom line (text ++ rest) = textLinesFrom (text.reverse ++ line) rest := by
  induction text generalizing line with
  | nil => rfl
  | cons c t ih =>
    have hbreak := h c List.mem_cons_self
    have hreturn : c.is '\r' = false := by
      cases hc : c.is '\r' with
      | false => rfl
      | true =>
        simp only [CodePoint.is, beq_iff_eq] at hc
        rw [CodePoint.isLineBreak, hc] at hbreak
        exact absurd hbreak (by decide)
    rw [List.cons_append, textLinesFrom.eq_def]
    dsimp only
    rw [if_neg (by simp [hreturn]), if_neg (by simp [hbreak]),
      ih (fun d hd => h d (List.mem_cons_of_mem c hd)), List.reverse_cons, List.append_assoc]
    rfl

/-- `byteLines_cons` for text. -/
theorem textLines_cons (h : ∀ c ∈ text, c.isLineBreak = false) (rest : Str) :
    textLines (text ++ str "\n" ++ rest) = text :: textLines rest := by
  rw [textLines, List.append_assoc, textLinesFrom_text h, List.append_nil]
  show textLinesFrom text.reverse (.ofChar '\n' :: rest) = _
  rw [textLinesFrom.eq_def]
  dsimp only
  rw [if_neg (by decide), if_pos (by decide), List.reverse_reverse, textLines]

end

end TrustPortal.Proofs.Transcript
