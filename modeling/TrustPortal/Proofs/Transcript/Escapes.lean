import TrustPortal.Proofs.Transcript.RoundTrip
import TrustPortal.Transcript.Parse

/-!
# `TrustPortal.Proofs.Transcript.Escapes`: the two ways the portal writes strings

`escapeStored` is how stored JSON text has the characters of its strings: as themselves where
JSON allows it, a surrogate as its escape. It is what `escape_surrogates` makes of a text that
was written without it (`escapeSurrogates_render`). `escapeCharAscii` is the default of
`json.dumps`. What either writes is read back (`escapes_stored`, `escapes_ascii`), and a value
within `MAX_LINE_DEPTH` passes the depth check as text (`passesDepth_render`).
-/

set_option autoImplicit false

namespace TrustPortal.Proofs.Transcript

open TrustPortal.Python
open TrustPortal.Transcript

/-- A character of a string in stored JSON text. -/
def escapeStored (c : CodePoint) : Str :=
  if c.isSurrogate then unicodeEscape c.val else escapeChar c

/-- A control character without a short escape. -/
def isLongControl (c : CodePoint) : Bool :=
  decide (c.val < 0x20) && !(c.val == 8 || c.val == 9 || c.val == 10 || c.val == 12 || c.val == 13)

/-- What the reader takes from a character of stored text. -/
def piecesStored (c : CodePoint) : List Piece := [(c, c.isSurrogate || isLongControl c)]

/-- The escapes of a character above U+FFFF. -/
def highOf (c : CodePoint) : Nat := 0xD800 + (c.val - 0x10000) / 0x400

/-- The second of the two escapes. -/
def lowOf (c : CodePoint) : Nat := 0xDC00 + (c.val - 0x10000) % 0x400

/-- What the reader takes from a character of ASCII text. -/
def piecesAscii (c : CodePoint) : List Piece :=
  if c.val < 0x7F then [(c, isLongControl c)]
  else if c.val < 0x10000 then [(c, true)]
  else [(.ofNat (highOf c), true), (.ofNat (lowOf c), true)]

section
variable {py : Interpreter} {c : CodePoint} {s : Str} {stack : List Frame} {isName : Bool}
  {units : List Piece}

/-! ## One character -/

private theorem hexValue_hexDigit (n : Nat) : hexValue (hexDigit n) = some (n % 16) := by
  have hdigits : ∀ d < 16, hexValue (hexDigit d) = some d := by decide
  have h := hdigits (n % 16) (Nat.mod_lt _ (by decide))
  rwa [hexDigit, Nat.mod_mod] at h

/-- A digit of an escape before the last one. -/
private theorem step_hexDigit {count : Nat} (h : count ≠ 3) (n value : Nat) :
    Reader.step py ⟨stack, .unicode isName units count value⟩ (hexDigit n)
      = .ok ⟨stack, .unicode isName units (count + 1) (value * 16 + n % 16)⟩ := by
  simp only [Reader.step, hexValue_hexDigit, if_neg h]

/-- The last digit of an escape. -/
private theorem step_lastDigit (n value : Nat) :
    Reader.step py ⟨stack, .unicode isName units 3 value⟩ (hexDigit n)
      = .ok ⟨stack, .string isName ((.ofNat (value * 16 + n % 16), true) :: units)⟩ := by
  simp only [Reader.step, hexValue_hexDigit, if_true]

/-- An escape of four digits is read as its character. -/
theorem unicodeEscape_runs {n : Nat} (h : n < 0x10000) :
    Runs py ⟨stack, .string isName units⟩ (unicodeEscape n)
      ⟨stack, .string isName ((.ofNat n, true) :: units)⟩ := by
  have hslash : Reader.step py ⟨stack, .string isName units⟩ (.ofChar '\\')
      = .ok ⟨stack, .escape isName units⟩ := rfl
  have hu : Reader.step py ⟨stack, .escape isName units⟩ (.ofChar 'u')
      = .ok ⟨stack, .unicode isName units 0 0⟩ := rfl
  refine .cons hslash (.cons hu ?_)
  refine .cons (step_hexDigit (by decide) _ _) (.cons (step_hexDigit (by decide) _ _) ?_)
  refine .cons (step_hexDigit (by decide) _ _) (.single ?_)
  have hvalue : (((0 * 16 + n / 4096 % 16) * 16 + n / 256 % 16) * 16 + n / 16 % 16) * 16 + n % 16
      = n := by
    omega
  rw [step_lastDigit, hvalue]

/-- A short escape is read as its character. -/
private theorem short_runs {letter : Char} (hu : (CodePoint.ofChar letter).is 'u' = false)
    (h : unescape (.ofChar letter) = some c) :
    Runs py ⟨stack, .string isName units⟩ [.ofChar '\\', .ofChar letter]
      ⟨stack, .string isName ((c, false) :: units)⟩ := by
  have hslash : Reader.step py ⟨stack, .string isName units⟩ (.ofChar '\\')
      = .ok ⟨stack, .escape isName units⟩ := rfl
  refine .cons hslash (.single ?_)
  simp [Reader.step, hu, h]

/-- A character as JSON text without `ensure_ascii` has it is read as the character. -/
theorem escapeChar_runs (c : CodePoint) :
    Runs py ⟨stack, .string isName units⟩ (escapeChar c)
      ⟨stack, .string isName ((c, isLongControl c) :: units)⟩ := by
  have hself : ∀ {n : Nat}, c.val = n → c = .ofNat n := by
    rintro n rfl
    exact (CodePoint.ofNat_val c).symm
  rw [escapeChar]
  split_ifs with hquote hslash hn hr ht hf hb hcontrol
  · simp only [CodePoint.is, beq_iff_eq] at hquote
    obtain rfl := hself hquote
    exact short_runs rfl rfl
  · simp only [CodePoint.is, beq_iff_eq] at hslash
    obtain rfl := hself hslash
    exact short_runs rfl rfl
  · obtain rfl := hself hn
    exact short_runs rfl rfl
  · obtain rfl := hself hr
    exact short_runs rfl rfl
  · obtain rfl := hself ht
    exact short_runs rfl rfl
  · obtain rfl := hself hf
    exact short_runs rfl rfl
  · obtain rfl := hself hb
    exact short_runs rfl rfl
  · have hlong : isLongControl c = true := by
      simp [isLongControl, hcontrol, hn, hr, ht, hf, hb]
    have hrun := @unicodeEscape_runs py stack isName units c.val (by omega)
    rw [CodePoint.ofNat_val] at hrun
    rw [hlong]
    exact hrun
  · have hlong : isLongControl c = false := by simp [isLongControl, hcontrol]
    rw [hlong]
    refine .single ?_
    simp [Reader.step, hquote, hslash, hcontrol]

/-! ## Joining -/

/-- Pieces of single characters, or of the two escapes of a character, join to the string. -/
private theorem join_pieces {pieces : CodePoint → List Piece}
    (hpieces : ∀ c, (∃ flag, pieces c = [(c, flag)])
      ∨ 0x10000 ≤ c.val ∧ pieces c = [(.ofNat (highOf c), true), (.ofNat (lowOf c), true)])
    (s : Str) (hs : NoPair s) : joinSurrogates (s.flatMap pieces) = s := by
  induction s with
  | nil => rfl
  | cons c rest ih =>
    obtain ⟨hnext, hrest⟩ := List.isChain_cons.mp hs
    have hjoin := ih hrest
    have hlt := c.isLt
    rw [List.flatMap_cons]
    rcases hpieces c with ⟨flag, hc⟩ | ⟨hc, heq⟩
    · rw [hc, List.singleton_append]
      cases rest with
      | nil => rfl
      | cons d rest =>
        -- The next piece is no low surrogate after a high one.
        have hd := hnext d rfl
        rw [List.flatMap_cons] at hjoin ⊢
        rcases hpieces d with ⟨flag', hd'⟩ | ⟨hd', heq⟩
        · rw [hd', List.singleton_append] at hjoin ⊢
          rw [joinSurrogates, if_neg, hjoin]
          simp only [Bool.and_eq_true, not_and]
          rintro ⟨_, hhigh⟩ hlow
          exact hd ⟨hhigh, hlow⟩
        · have hlow : (CodePoint.ofNat (highOf d)).isLowSurrogate = false := by
            have hval : (CodePoint.ofNat (highOf d)).val = highOf d :=
              CodePoint.val_ofNat (by have := d.isLt; rw [highOf]; omega)
            rw [CodePoint.isLowSurrogate, hval, highOf]
            have := d.isLt
            simp only [Bool.and_eq_false_iff, decide_eq_false_iff_not]
            omega
          rw [heq, List.cons_append] at hjoin ⊢
          rw [joinSurrogates, if_neg (by simp [hlow]), hjoin]
    · have hhigh : (CodePoint.ofNat (highOf c)).val = highOf c :=
        CodePoint.val_ofNat (by rw [highOf]; omega)
      have hlow : (CodePoint.ofNat (lowOf c)).val = lowOf c :=
        CodePoint.val_ofNat (by rw [lowOf]; omega)
      rw [heq, List.cons_append, List.singleton_append, joinSurrogates, if_pos, hjoin, hhigh, hlow]
      · have hself : 0x10000 + (highOf c - 0xD800) * 0x400 + (lowOf c - 0xDC00) = c.val := by
          rw [highOf, lowOf]
          omega
        rw [hself, CodePoint.ofNat_val]
      · rw [CodePoint.isHighSurrogate, CodePoint.isLowSurrogate, hhigh, hlow, highOf, lowOf]
        simp only [Bool.and_self, Bool.true_and, Bool.and_eq_true, decide_eq_true_eq]
        omega

/-! ## Both ways are read back -/

/-- Stored JSON text is read back. -/
theorem escapes_stored : Escapes py escapeStored piecesStored NoPair where
  reads := by
    intro c stack isName units
    rw [escapeStored, piecesStored]
    split_ifs with hsurrogate
    · have hval : c.val < 0x10000 := by
        simp only [CodePoint.isSurrogate, Bool.and_eq_true, decide_eq_true_eq] at hsurrogate
        omega
      have hrun := @unicodeEscape_runs py stack isName units c.val hval
      rw [CodePoint.ofNat_val] at hrun
      rw [hsurrogate]
      exact hrun
    · rw [Bool.eq_false_iff.mpr hsurrogate]
      exact escapeChar_runs c
  joins := join_pieces fun c => .inl ⟨_, rfl⟩

/-- ASCII JSON text is read back. -/
theorem escapes_ascii : Escapes py escapeCharAscii piecesAscii NoPair where
  reads := by
    intro c stack isName units
    have hlt := c.isLt
    rw [escapeCharAscii, piecesAscii]
    split_ifs with hascii hbmp
    · exact escapeChar_runs c
    · have hrun := @unicodeEscape_runs py stack isName units c.val hbmp
      rw [CodePoint.ofNat_val] at hrun
      exact hrun
    · exact (unicodeEscape_runs (by omega)).append (unicodeEscape_runs (by omega))
  joins := by
    refine join_pieces fun c => ?_
    rw [piecesAscii]
    split_ifs with hascii hbmp
    · exact .inl ⟨_, rfl⟩
    · exact .inl ⟨_, rfl⟩
    · exact .inr ⟨by omega, rfl⟩

/-! ## Stored text -/

/-- A replacement that leaves printable ASCII alone leaves printable text alone. -/
private theorem flatMap_printable (f : CodePoint → Str) (h : ∀ c, Printable c → f c = [c])
    {text : Str} (htext : ∀ c ∈ text, Printable c) : text.flatMap f = text := by
  induction text with
  | nil => rfl
  | cons c rest ih =>
    rw [List.flatMap_cons, h c (htext c List.mem_cons_self),
      ih fun d hd => htext d (List.mem_cons_of_mem c hd)]
    rfl

/-- A replacement that leaves printable ASCII alone, in a joined text. -/
private theorem flatMap_join (f : CodePoint → Str) (h : ∀ c, Printable c → f c = [c])
    (texts : List Str) :
    (join (str ", ") texts).flatMap f = join (str ", ") (texts.map (·.flatMap f)) := by
  have hseparator : (str ", ").flatMap f = str ", " := flatMap_printable f h (by decide)
  induction texts with
  | nil => rfl
  | cons first rest ih =>
    cases rest with
    | nil => simp [join]
    | cons second rest =>
      rw [join, join, List.map_cons] at ih
      rw [join, join, List.map_cons, List.map_cons, List.intercalate_cons_cons,
        List.intercalate_cons_cons, List.flatMap_append, List.flatMap_append, ih, hseparator]

private theorem flatMap_renderString (f : CodePoint → Str) (h : ∀ c, Printable c → f c = [c])
    (escape : CodePoint → Str) (s : Str) :
    (renderString escape s).flatMap f = renderString (fun c => (escape c).flatMap f) s := by
  rw [renderString, renderString, List.flatMap_append, List.flatMap_append,
    flatMap_printable f h (by decide), List.flatMap_assoc]

mutual

/-- A replacement that leaves printable ASCII alone changes the escapes of a text only. -/
theorem render_flatMap (f : CodePoint → Str) (h : ∀ c, Printable c → f c = [c])
    (escape : CodePoint → Str) : ∀ value : Value,
    (render escape value).flatMap f = render (fun c => (escape c).flatMap f) value
  | .none => flatMap_printable f h (show ∀ c ∈ str "null", Printable c by decide)
  | .bool true => flatMap_printable f h (show ∀ c ∈ str "true", Printable c by decide)
  | .bool false => flatMap_printable f h (show ∀ c ∈ str "false", Printable c by decide)
  | .int n => flatMap_printable f h (intText_printable n)
  | .float x => flatMap_printable f h (floatText_printable x)
  | .str s => flatMap_renderString f h escape s
  | .list items => by
    rw [render, render, List.flatMap_append, List.flatMap_append, flatMap_join f h,
      flatMap_printable f h (by decide), flatMap_printable f h (by decide),
      renderItems_flatMap f h escape items]
  | .dict members => by
    rw [render, render, List.flatMap_append, List.flatMap_append, flatMap_join f h,
      flatMap_printable f h (by decide), flatMap_printable f h (by decide),
      renderMembers_flatMap f h escape members]

/-- `render_flatMap` for the items of an array. -/
theorem renderItems_flatMap (f : CodePoint → Str) (h : ∀ c, Printable c → f c = [c])
    (escape : CodePoint → Str) : ∀ items : List Value,
    (renderItems escape items).map (·.flatMap f)
      = renderItems (fun c => (escape c).flatMap f) items
  | [] => rfl
  | item :: items => by
    rw [renderItems, renderItems, List.map_cons, render_flatMap f h escape item,
      renderItems_flatMap f h escape items]

/-- `render_flatMap` for the members of an object. -/
theorem renderMembers_flatMap (f : CodePoint → Str) (h : ∀ c, Printable c → f c = [c])
    (escape : CodePoint → Str) : ∀ members : List (Str × Value),
    (renderMembers escape members).map (·.flatMap f)
      = renderMembers (fun c => (escape c).flatMap f) members
  | [] => rfl
  | (name, value) :: members => by
    rw [renderMembers, renderMembers, List.map_cons, List.flatMap_append, List.flatMap_append,
      flatMap_renderString f h, flatMap_printable f h (by decide), render_flatMap f h escape value,
      renderMembers_flatMap f h escape members]

end

/-- Without `ensure_ascii` a surrogate is written as itself. -/
private theorem escapeChar_surrogate (h : c.isSurrogate = true) :
    escapeChar c = [c] ∧ 0xD800 ≤ c.val := by
  rw [CodePoint.isSurrogate, Bool.and_eq_true, decide_eq_true_eq, decide_eq_true_eq] at h
  have hne : ∀ a : Char, a.toNat < 0x80 → c.is a = false := by
    intro a ha
    rw [CodePoint.is, beq_eq_false_iff_ne]
    omega
  refine ⟨?_, h.1⟩
  rw [escapeChar, hne '"' (by decide), hne '\\' (by decide), if_neg (by simp), if_neg (by simp),
    if_neg (by omega), if_neg (by omega), if_neg (by omega), if_neg (by omega), if_neg (by omega),
    if_neg (by omega)]

/-- The surrogates of a text that are escaped afterwards are escaped in its strings. -/
theorem escapeSurrogates_render (value : Value) :
    escapeSurrogates (render escapeChar value) = render escapeStored value := by
  have hplain : ∀ c, Printable c → (if c.isSurrogate then unicodeEscape c.val else [c]) = [c] := by
    intro c hc
    have hlow : ¬0xD800 ≤ c.val := by
      have := hc.2
      omega
    simp [CodePoint.isSurrogate, hlow]
  have hescape : (fun c => (escapeChar c).flatMap
      fun d => if d.isSurrogate then unicodeEscape d.val else [d]) = escapeStored := by
    funext c
    rw [escapeStored]
    rcases escapeChar_chars c with hprintable | ⟨hself, _⟩
    · rw [flatMap_printable _ hplain hprintable]
      split_ifs with hsurrogate
      · -- A surrogate is written as itself.
        obtain ⟨hself, hlow⟩ := escapeChar_surrogate hsurrogate
        have := (hprintable c (by rw [hself]; exact List.mem_singleton_self c)).2
        omega
      · rfl
    · rw [hself]
      simp
  rw [escapeSurrogates, render_flatMap _ hplain, hescape]

/-! ## Depth -/

/-- A value within `MAX_LINE_DEPTH` passes the depth check as text. -/
theorem passesDepth_render {escape : CodePoint → Str} {pieces : CodePoint → List Piece}
    {S : Str → Prop} {value : Value} (hescape : ∀ py, Escapes py escape pieces S)
    (hgood : Good S (ReadsBack py) value) (hdepth : value.depth ≤ MAX_LINE_DEPTH) :
    passesDepth (render escape value) = true := by
  have hloads : loads { py with readerDepth := MAX_LINE_DEPTH } (render escape value) = .ok value :=
    loads_render (hescape _) hgood hdepth
  exact passesDepth_of_loads (Nat.le_refl _) hloads

end

end TrustPortal.Proofs.Transcript
