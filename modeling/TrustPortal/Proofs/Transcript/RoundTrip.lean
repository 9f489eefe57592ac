import TrustPortal.Proofs.Transcript.Depth
import TrustPortal.Proofs.Transcript.Writer
import Mathlib.Data.Nat.Digits.Lemmas

/-!
# `TrustPortal.Proofs.Transcript.RoundTrip`: reading what was written

The text of a value reads as the value again, in any layout (`loads_layout`) and on one line
(`loads_render`). How the characters of a string
are escaped is a parameter (`Escapes`): which pieces the reader takes from each, and for which
strings the pieces join to the string. With the escapes that the portal stores, these are the
strings without a high surrogate directly before a low one (`NoPair`): the reader would join the
two escapes. Three more things that the value must have are what `json.loads` gives
(`loads_fits`): distinct names, floats that their text stands for (`ReadsBack`) and no deeper
nesting than the scanner goes.
-/

set_option autoImplicit false

namespace TrustPortal.Proofs.Transcript

open TrustPortal.Lib
open TrustPortal.Python
open TrustPortal.Transcript

/-- The reader goes from one state to another over a text. -/
def Runs (py : Interpreter) (reader : Reader) (text : Str) (reader' : Reader) : Prop :=
  text.foldlM (Reader.step py) reader = .ok reader'

/-- A value has been read: the reader stands after it, or in a number that ends here. -/
def HasRead (py : Interpreter) (stack : List Frame) (value : Value) (reader : Reader) : Prop :=
  reader = ⟨stack, .after value⟩
    ∨ ∃ n : Number, reader = ⟨stack, .number n⟩ ∧ n.part ≠ .minus ∧ readNumber py n = .ok value

/-- The float is the one that its text stands for, where the text is a number. -/
def ReadsBack (py : Interpreter) (x : FloatText) : Prop :=
  (Number.ofText x.val).isSome = true → py.float x.val = x

/-- No high surrogate stands directly before a low one. -/
def NoPair (s : Str) : Prop :=
  s.IsChain fun c d => ¬(c.isHighSurrogate = true ∧ d.isLowSurrogate = true)

/-- A way to write the characters of a string: what the reader takes from each, and that it
joins to the string where the string meets `S`. -/
structure Escapes (py : Interpreter) (escape : CodePoint → Str) (pieces : CodePoint → List Piece)
    (S : Str → Prop) : Prop where
  reads : ∀ c stack isName units, Runs py ⟨stack, .string isName units⟩ (escape c)
    ⟨stack, .string isName ((pieces c).reverse ++ units)⟩
  joins : ∀ s, S s → joinSurrogates (s.flatMap pieces) = s

section
variable {py : Interpreter} {reader reader' reader'' : Reader} {s t : Str} {c : CodePoint}
  {stack : List Frame} {value : Value}

/-! ## Runs -/

theorem Runs.nil : Runs py reader [] reader := rfl

theorem Runs.cons (h : reader.step py c = .ok reader') (hrest : Runs py reader' t reader'') :
    Runs py reader (c :: t) reader'' := by
  rw [Runs, List.foldlM_cons, h]
  exact hrest

theorem Runs.append (h : Runs py reader s reader') (hrest : Runs py reader' t reader'') :
    Runs py reader (s ++ t) reader'' := by
  rw [Runs, List.foldlM_append, h]
  exact hrest

theorem Runs.single (h : reader.step py c = .ok reader') : Runs py reader [c] reader' :=
  .cons h .nil

/-! ## Numbers -/

/-- The characters that can start a number. -/
theorem start_val {n : Number} (h : Number.start c = some n) :
    c.val = 0x2D ∨ 0x30 ≤ c.val ∧ c.val ≤ 0x39 := by
  rw [Number.start] at h
  split_ifs at h with hminus hzero hdigit
  · simp only [CodePoint.is, beq_iff_eq] at hminus
    exact .inl hminus
  · simp only [CodePoint.is, beq_iff_eq] at hzero
    exact .inr (by rw [hzero]; decide)
  · simp only [CodePoint.isDigit, Bool.and_eq_true, decide_eq_true_eq] at hdigit
    exact .inr hdigit

theorem startValue_number {n : Number} (h : Number.start c = some n) :
    startValue py stack c = .ok ⟨stack, .number n⟩ := by
  have hval := start_val h
  have hother : ∀ a : Char, a.toNat ≠ 0x2D → ¬(0x30 ≤ a.toNat ∧ a.toNat ≤ 0x39) →
      c.is a = false := by
    intro a hminus hdigit
    rw [CodePoint.is, beq_eq_false_iff_ne]
    omega
  have hspace : isJsonSpace c = false := by
    rw [isJsonSpace, hother _ (by decide) (by decide), hother _ (by decide) (by decide),
      hother _ (by decide) (by decide), hother _ (by decide) (by decide)]
    rfl
  rw [startValue, hspace, hother '"' (by decide) (by decide),
    hother '\x7b' (by decide) (by decide), hother '[' (by decide) (by decide),
    hother 'n' (by decide) (by decide), hother 't' (by decide) (by decide),
    hother 'f' (by decide) (by decide), hother 'N' (by decide) (by decide),
    hother 'I' (by decide) (by decide), h]
  rfl

/-- A character that goes on with a number. -/
theorem step_extend {n m : Number} (h : n.extend c = some m) :
    Reader.step py ⟨stack, .number n⟩ c = .ok ⟨stack, .number m⟩ := by
  have hI : c.is 'I' = false := by
    have hchar := isNumberChar_of_extend h
    cases hc : c.is 'I' with
    | false => rfl
    | true =>
      simp only [CodePoint.is, beq_iff_eq] at hc
      rw [isNumberChar, CodePoint.isDigit, CodePoint.is, CodePoint.is, CodePoint.is, CodePoint.is,
        CodePoint.is, hc] at hchar
      exact absurd hchar (by decide)
  simp [Reader.step, hI, h]

/-- A number literal is read as what it is. -/
theorem number_runs {n : Number} (h : Number.ofText t = some n) :
    Runs py ⟨stack, .value⟩ t ⟨stack, .number n⟩ := by
  have hextend : ∀ (t : Str) (m : Number), t.foldlM Number.extend m = some n →
      Runs py ⟨stack, .number m⟩ t ⟨stack, .number n⟩ := by
    intro t
    induction t with
    | nil =>
      rintro m ⟨⟩
      exact .nil
    | cons c rest ih =>
      intro m hm
      rw [List.foldlM_cons] at hm
      obtain ⟨next, hnext, hrest⟩ := Option.bind_eq_some_iff.mp hm
      exact .cons (step_extend hnext) (ih next hrest)
  cases t with
  | nil => cases h
  | cons c rest =>
    obtain ⟨first, hfirst, hrest⟩ := Option.bind_eq_some_iff.mp h
    exact .cons (startValue_number hfirst) (hextend rest first hrest)

/-- The parts of a number are its text. -/
theorem ofText_text {n : Number} (h : Number.ofText t = some n) : n.whole ++ n.rest = t := by
  -- Until a point or an exponent comes, there is no rest.
  have hextend : ∀ {n m : Number} {c : CodePoint}, n.extend c = some m →
      (n.part = .minus ∨ n.part = .zero ∨ n.part = .whole → n.rest = []) →
      m.whole ++ m.rest = n.whole ++ n.rest ++ [c]
        ∧ (m.part = .minus ∨ m.part = .zero ∨ m.part = .whole → m.rest = []) := by
    intro n m c h hrest
    obtain ⟨part, whole, rest⟩ := n
    unfold Number.extend at h
    cases part with
    | minus =>
      cases hrest (.inl rfl)
      dsimp only at h
      split_ifs at h <;> cases h <;> simp
    | zero =>
      cases hrest (.inr (.inl rfl))
      dsimp only at h
      split_ifs at h <;> cases h <;> simp
    | whole =>
      cases hrest (.inr (.inr rfl))
      dsimp only at h
      split_ifs at h <;> cases h <;> simp
    | point | fraction | mark | sign | exponent =>
      dsimp only at h
      split_ifs at h <;> cases h <;> simp
  have hfold : ∀ (t : Str) (m : Number),
      (m.part = .minus ∨ m.part = .zero ∨ m.part = .whole → m.rest = []) →
      t.foldlM Number.extend m = some n → n.whole ++ n.rest = m.whole ++ m.rest ++ t := by
    intro t
    induction t with
    | nil =>
      rintro m _ ⟨⟩
      exact (List.append_nil _).symm
    | cons c rest ih =>
      intro m hm h
      rw [List.foldlM_cons] at h
      obtain ⟨next, hnext, hrest⟩ := Option.bind_eq_some_iff.mp h
      obtain ⟨htext, hshape⟩ := hextend hnext hm
      rw [ih next hshape hrest, htext, List.append_assoc]
      rfl
  cases t with
  | nil => cases h
  | cons c rest =>
    obtain ⟨first, hfirst, hrest⟩ := Option.bind_eq_some_iff.mp h
    have hstart : first.whole = [c] ∧ first.rest = [] := by
      rw [Number.start] at hfirst
      split_ifs at hfirst <;> cases hfirst <;> exact ⟨rfl, rfl⟩
    rw [hfold rest first (fun _ => hstart.2) hrest, hstart.1, hstart.2]
    rfl

/-! ### Ints -/

/-- Digits go on with a whole part. -/
private theorem whole_digits {digits whole : Str} (h : ∀ d ∈ digits, d.isDigit = true) :
    digits.foldlM Number.extend ⟨.whole, whole, []⟩ = some ⟨.whole, whole ++ digits, []⟩ := by
  induction digits generalizing whole with
  | nil => simp
  | cons d rest ih =>
    have hd := h d List.mem_cons_self
    rw [List.foldlM_cons, Number.extend]
    simp only [hd, and_self, if_true, Option.bind_eq_bind, Option.bind_some]
    rw [ih fun e he => h e (List.mem_cons_of_mem d he), List.append_assoc]
    rfl

private theorem isDigit_ofNat {d : Nat} (h : d < 10) : (CodePoint.ofNat (0x30 + d)).isDigit = true := by
  rw [CodePoint.isDigit, CodePoint.val_ofNat (by omega)]
  simp only [Bool.and_eq_true, decide_eq_true_eq]
  omega

/-- The text of a positive number: a digit that is not zero, and more digits. -/
private theorem natText_pos {n : Nat} (h : n ≠ 0) : ∃ c rest, natText n = c :: rest
    ∧ c.isDigit = true ∧ c.is '0' = false ∧ ∀ d ∈ rest, d.isDigit = true := by
  have hne : Nat.digits 10 n ≠ [] := Nat.digits_ne_nil_iff_ne_zero.mpr h
  have hlast := Nat.getLast_digit_ne_zero 10 h
  have hlt : ∀ d ∈ Nat.digits 10 n, d < 10 := fun d hd => Nat.digits_lt_base (by decide) hd
  rw [natText, if_neg h, ← List.dropLast_append_getLast hne, List.map_append,
    List.map_singleton, List.reverse_append, List.reverse_singleton, List.singleton_append]
  refine ⟨_, _, rfl, isDigit_ofNat (hlt _ (List.getLast_mem hne)), ?_, ?_⟩
  · rw [CodePoint.is, CodePoint.val_ofNat (by have := hlt _ (List.getLast_mem hne); omega)]
    rw [beq_eq_false_iff_ne]
    show 0x30 + _ ≠ 0x30
    omega
  · intro d hd
    rw [List.mem_reverse, List.mem_map] at hd
    obtain ⟨e, he, rfl⟩ := hd
    exact isDigit_ofNat (hlt e (List.mem_of_mem_dropLast he))

/-- The value of the digits of a number. -/
private theorem digitsValue_natText (n : Nat) : digitsValue (natText n) = n := by
  have hfold : ∀ digits : List Nat, (∀ d ∈ digits, d < 10) →
      digitsValue ((digits.map fun d => CodePoint.ofNat (0x30 + d)).reverse)
        = Nat.ofDigits 10 digits := by
    intro digits hdigits
    rw [digitsValue, List.foldl_reverse]
    induction digits with
    | nil => rfl
    | cons d rest ih =>
      have hd := hdigits d List.mem_cons_self
      rw [List.map_cons, List.foldr_cons, ih fun e he => hdigits e (List.mem_cons_of_mem d he),
        CodePoint.val_ofNat (by omega), Nat.ofDigits_cons]
      omega
  by_cases h : n = 0
  · subst h
    decide
  · rw [natText, if_neg h, hfold _ fun d hd => Nat.digits_lt_base (by decide) hd,
      Nat.ofDigits_digits]

/-- The text of an int is a whole number, and it stands for the int. -/
private theorem intText (n : Integer) :
    (∃ part, Number.ofText n.text = some ⟨part, n.text, []⟩ ∧ (part = .zero ∨ part = .whole))
      ∧ intOfText n.text = n.value := by
  have hminus : Number.start (.ofChar '-') = some ⟨.minus, str "-", []⟩ := by decide
  by_cases hneg : n.value < 0
  · -- A negative int has a digit other than zero after its sign.
    have hne : n.value.natAbs ≠ 0 := by omega
    obtain ⟨c, rest, htext, hc, hzero, hrest⟩ := natText_pos hne
    have hvalue := digitsValue_natText n.value.natAbs
    rw [Integer.text, if_pos hneg]
    refine ⟨⟨.whole, ?_, .inr rfl⟩, ?_⟩
    · rw [htext]
      show ((Number.start (.ofChar '-')).bind fun m => (c :: rest).foldlM Number.extend m) = _
      rw [hminus]
      show ((Number.extend ⟨.minus, str "-", []⟩ c).bind fun m => rest.foldlM Number.extend m) = _
      have hextend : Number.extend ⟨.minus, str "-", []⟩ c = some ⟨.whole, str "-" ++ [c], []⟩ := by
        simp [Number.extend, hzero, hc]
      rw [hextend, Option.bind_some, whole_digits hrest, List.append_assoc]
      rfl
    · show (if (CodePoint.ofChar '-').is '-' then -(digitsValue (natText n.value.natAbs) : Int)
        else (digitsValue (.ofChar '-' :: natText n.value.natAbs) : Int)) = n.value
      rw [if_pos (by decide), hvalue]
      omega
  · rw [Integer.text, if_neg hneg]
    have hvalue := digitsValue_natText n.value.natAbs
    have hvalue' : (digitsValue (natText n.value.natAbs) : Int) = n.value := by omega
    by_cases hzero : n.value.natAbs = 0
    · have htext : natText n.value.natAbs = str "0" := by rw [hzero]; decide
      rw [htext] at hvalue' ⊢
      exact ⟨⟨.zero, by decide, .inl rfl⟩, hvalue' ▸ by decide⟩
    · obtain ⟨c, rest, htext, hc, hnonzero, hrest⟩ := natText_pos hzero
      have hsign : c.is '-' = false := by
        simp only [CodePoint.isDigit, Bool.and_eq_true, decide_eq_true_eq] at hc
        rw [CodePoint.is, beq_eq_false_iff_ne]
        show c.val ≠ 0x2D
        omega
      rw [htext] at hvalue' ⊢
      refine ⟨⟨.whole, ?_, .inr rfl⟩, ?_⟩
      · have hstart : Number.start c = some ⟨.whole, [c], []⟩ := by
          simp [Number.start, hsign, hnonzero, hc]
        rw [Number.ofText, hstart, Option.bind_some, whole_digits hrest]
        rfl
      · rw [intOfText]
        simp only [hsign, Bool.false_eq_true, if_false]
        exact hvalue'

/-- An int is read. -/
private theorem int_read (n : Integer) :
    ∃ reader, Runs py ⟨stack, .value⟩ n.text reader ∧ HasRead py stack (.int n) reader := by
  obtain ⟨⟨part, htext, hpart⟩, hvalue⟩ := intText n
  refine ⟨_, number_runs htext, .inr ⟨_, rfl, ?_, ?_⟩⟩
  · rcases hpart with rfl | rfl <;> exact nofun
  · have hint : readInt n.text = .ok (.int n) := by
      have hshort : digitCount (intOfText n.text).natAbs ≤ MAX_STR_DIGITS := hvalue ▸ n.short
      have hself : (⟨intOfText n.text, hshort⟩ : Integer) = n := by
        cases n
        exact (Integer.mk.injEq ..).mpr hvalue
      rw [readInt, dif_pos hshort, hself]
    rcases hpart with rfl | rfl <;> exact hint

/-! ## Names and floats -/

/-- The rest of a name is read to its end. -/
private theorem literal_runs {rest : Str} (h : rest ≠ []) :
    Runs py ⟨stack, .literal rest value⟩ rest ⟨stack, .after value⟩ := by
  induction rest with
  | nil => exact absurd rfl h
  | cons d rest ih =>
    cases rest with
    | nil => exact .single (if_pos rfl)
    | cons e rest => exact .cons (if_pos rfl) (ih nofun)

private theorem name_read {first : CodePoint} {rest : Str} (h : rest ≠ [])
    (hstart : startValue py stack first = .ok ⟨stack, .literal rest value⟩) :
    ∃ reader, Runs py ⟨stack, .value⟩ (first :: rest) reader ∧ HasRead py stack value reader :=
  ⟨_, .cons hstart (literal_runs h), .inl rfl⟩

/-- What the text of a float is. -/
private theorem floatText_cases (x : FloatText) :
    x = floatNaN ∨ x = floatInfinity ∨ x = floatNegInfinity
      ∨ ∃ n, Number.ofText x.val = some n ∧ (n.part = .fraction ∨ n.part = .exponent) := by
  obtain ⟨text, h⟩ := x
  have htext := h
  simp only [isFloatText, Bool.or_eq_true, decide_eq_true_eq] at htext
  rcases htext with ((rfl | rfl) | rfl) | htext
  · exact .inl rfl
  · exact .inr (.inl rfl)
  · exact .inr (.inr (.inl rfl))
  · cases hn : Number.ofText text with
    | none =>
      rw [hn] at htext
      cases htext
    | some n =>
      rw [hn] at htext
      exact .inr (.inr (.inr ⟨n, rfl, by simpa using htext⟩))

/-- A float that its text stands for is read. -/
private theorem float_read {x : FloatText} (h : ReadsBack py x) :
    ∃ reader, Runs py ⟨stack, .value⟩ x.val reader ∧ HasRead py stack (.float x) reader := by
  rcases floatText_cases x with rfl | rfl | rfl | ⟨n, hn, hpart⟩
  · exact name_read nofun rfl
  · exact name_read nofun rfl
  · -- The sign of an infinity is read as the sign of a number.
    have hminus : Reader.step py ⟨stack, .value⟩ (.ofChar '-')
        = .ok ⟨stack, .number ⟨.minus, str "-", []⟩⟩ := rfl
    have hI : Reader.step py ⟨stack, .number ⟨.minus, str "-", []⟩⟩ (.ofChar 'I')
        = .ok ⟨stack, .literal (str "nfinity") (.float floatNegInfinity)⟩ := rfl
    exact ⟨_, .cons hminus (.cons hI (literal_runs nofun)), .inl rfl⟩
  · refine ⟨_, number_runs hn, .inr ⟨n, rfl, ?_, ?_⟩⟩
    · rcases hpart with hpart | hpart <;> rw [hpart] <;> exact nofun
    · have hread : readNumber py n = .ok (.float (py.float (n.whole ++ n.rest))) := by
        rw [readNumber]
        rcases hpart with hpart | hpart <;> rw [hpart]
      rw [hread, ofText_text hn, h (by rw [hn]; rfl)]

/-! ## Strings -/

variable {escape : CodePoint → Str} {pieces : CodePoint → List Piece} {S : Str → Prop}

/-- The characters of a string, and the quote after them. -/
theorem string_runs (hescape : Escapes py escape pieces S) (hs : S s) (isName : Bool) :
    Runs py ⟨stack, .string isName []⟩ (s.flatMap escape ++ str "\"")
      ⟨stack, if isName then .colon s else .after (.str s)⟩ := by
  have hchars : ∀ (s : Str) (units : List Piece), Runs py ⟨stack, .string isName units⟩
      (s.flatMap escape) ⟨stack, .string isName ((s.flatMap pieces).reverse ++ units)⟩ := by
    intro s
    induction s with
    | nil => exact fun _ => .nil
    | cons c rest ih =>
      intro units
      have hrest := ih ((pieces c).reverse ++ units)
      rw [← List.append_assoc, ← List.reverse_append] at hrest
      exact (hescape.reads c stack isName units).append hrest
  refine (hchars s []).append (.single ?_)
  have hend : Reader.step py ⟨stack, .string isName ((s.flatMap pieces).reverse ++ [])⟩
      (.ofChar '"') = .ok (endString stack isName ((s.flatMap pieces).reverse ++ [])) := rfl
  refine hend.trans ?_
  rw [endString, List.append_nil, List.reverse_reverse, hescape.joins s hs]

private theorem string_read (hescape : Escapes py escape pieces S) (hs : S s) :
    ∃ reader, Runs py ⟨stack, .value⟩ (renderString escape s) reader
      ∧ HasRead py stack (.str s) reader := by
  have hquote : Reader.step py ⟨stack, .value⟩ (.ofChar '"') = .ok ⟨stack, .string false []⟩ := rfl
  exact ⟨_, .cons hquote (string_runs hescape hs false), .inl rfl⟩

/-! ## Arrays and objects -/

/-- What follows a value that is no part of a number. -/
theorem HasRead.step (h : HasRead py stack value reader) (hc : isNumberChar c = false) :
    reader.step py c = afterValue stack value c := by
  rcases h with rfl | ⟨n, rfl, hpart, hread⟩
  · rfl
  · have hextend : n.extend c = none := by
      cases hn : n.extend c with
      | none => rfl
      | some m =>
        rw [isNumberChar_of_extend hn] at hc
        cases hc
    simp only [Reader.step, hextend, hpart, hread, false_and, if_false]
    rfl

/-- A text that starts with no whitespace and no byte order mark, and does not end an array. -/
def Starts (t : Str) : Prop :=
  ∃ c rest, t = c :: rest ∧ isJsonSpace c = false ∧ c.is ']' = false ∧ c.val < 0x80

private theorem starts_number {n : Number} (h : Number.ofText t = some n) : Starts t := by
  cases t with
  | nil => cases h
  | cons c rest =>
    obtain ⟨first, hfirst, _⟩ := Option.bind_eq_some_iff.mp h
    have hval := start_val hfirst
    have hother : ∀ a : Char, a.toNat ≠ 0x2D → ¬(0x30 ≤ a.toNat ∧ a.toNat ≤ 0x39) →
        c.is a = false := by
      intro a hminus hdigit
      rw [CodePoint.is, beq_eq_false_iff_ne]
      omega
    refine ⟨c, rest, rfl, ?_, hother _ (by decide) (by decide), by omega⟩
    rw [isJsonSpace, hother _ (by decide) (by decide), hother _ (by decide) (by decide),
      hother _ (by decide) (by decide), hother _ (by decide) (by decide)]
    rfl

theorem layoutRender_starts (layout : Layout) (level : Nat) (value : Value) :
    Starts (layout.render escape level value) := by
  cases value with
  | none => exact ⟨_, _, rfl, rfl, rfl, by decide⟩
  | bool b => cases b <;> exact ⟨_, _, rfl, rfl, rfl, by decide⟩
  | int n =>
    obtain ⟨⟨part, htext, _⟩, _⟩ := intText n
    exact starts_number htext
  | float x =>
    rcases floatText_cases x with rfl | rfl | rfl | ⟨n, hn, _⟩
    · exact ⟨_, _, rfl, rfl, rfl, by decide⟩
    · exact ⟨_, _, rfl, rfl, rfl, by decide⟩
    · exact ⟨_, _, rfl, rfl, rfl, by decide⟩
    · exact starts_number hn
  | str s => exact ⟨_, _, rfl, rfl, rfl, by decide⟩
  | list items => cases items <;> exact ⟨_, _, rfl, rfl, rfl, by decide⟩
  | dict members => cases members <;> exact ⟨_, _, rfl, rfl, rfl, by decide⟩

/-- In front of the first item, a value starts as it does after a comma. -/
private theorem firstItem_runs (hstart : Starts t) (h : Runs py ⟨stack, .value⟩ t reader) :
    Runs py ⟨stack, .firstItem⟩ t reader := by
  obtain ⟨c, rest, rfl, hspace, hend, _⟩ := hstart
  have hstep : Reader.step py ⟨stack, .firstItem⟩ c = Reader.step py ⟨stack, .value⟩ c := by
    simp [Reader.step, hspace, hend]
  rw [Runs, List.foldlM_cons, hstep]
  exact h

/-- The text of one more item. -/
private theorem join_cons (separator first second : Str) (rest : List Str) :
    join separator (first :: second :: rest)
      = first ++ (separator ++ join separator (second :: rest)) := by
  rw [join, List.intercalate_cons_cons, List.append_assoc]
  rfl

/-- A joined text starts as its first part does. -/
private theorem starts_join {first : Str} (h : Starts first) (separator : Str) (rest : List Str)
    (t : Str) : Starts (join separator (first :: rest) ++ t) := by
  obtain ⟨c, chars, rfl, hc⟩ := h
  cases rest with
  | nil => exact ⟨c, chars ++ t, by rw [join, List.intercalate_singleton]; rfl, hc⟩
  | cons second rest => exact ⟨c, _, by rw [join_cons]; rfl, hc⟩

/-- A text of whitespace. -/
def Blank (t : Str) : Prop := ∀ c ∈ t, isJsonSpace c = true

/-- A layout of whitespace. -/
structure IsBlank (layout : Layout) : Prop where
  opening : ∀ level, Blank (layout.opening level)
  comma : ∀ level, Blank (layout.comma level)
  closing : ∀ level, Blank (layout.closing level)

/-- Whitespace is skipped where the reader skips each character of it. -/
private theorem blank_runs (hblank : Blank t)
    (hstep : ∀ c, isJsonSpace c = true → reader.step py c = .ok reader) :
    Runs py reader t reader := by
  induction t with
  | nil => exact .nil
  | cons c rest ih =>
    exact .cons (hstep c (hblank c List.mem_cons_self))
      (ih fun d hd => hblank d (List.mem_cons_of_mem c hd))

private theorem value_blank (hblank : Blank t) :
    Runs py ⟨stack, .value⟩ t ⟨stack, .value⟩ :=
  blank_runs hblank fun c hc => by rw [Reader.step, startValue, if_pos hc]

private theorem name_blank (hblank : Blank t) (first : Bool) :
    Runs py ⟨stack, if first then .firstName else .name⟩ t
      ⟨stack, if first then .firstName else .name⟩ :=
  blank_runs hblank fun c hc => by cases first <;> simp [Reader.step, hc]

private theorem not_isNumberChar_of_space (h : isJsonSpace c = true) : isNumberChar c = false := by
  simp only [isJsonSpace, CodePoint.is, Bool.or_eq_true, beq_iff_eq] at h
  have hval : c.val = 32 ∨ c.val = 9 ∨ c.val = 10 ∨ c.val = 13 := by
    rcases h with ((h | h) | h) | h
    · exact .inl h
    · exact .inr (.inl h)
    · exact .inr (.inr (.inl h))
    · exact .inr (.inr (.inr h))
  rcases hval with hval | hval | hval | hval <;>
    (rw [← CodePoint.ofNat_val c, hval]; decide)

private theorem afterValue_space (h : isJsonSpace c = true) :
    afterValue stack value c = .ok ⟨stack, .after value⟩ := by
  unfold afterValue
  rw [if_pos h]

/-- What follows a value and whitespace. -/
private theorem HasRead.run (h : HasRead py stack value reader) (hblank : Blank t)
    (hc : isNumberChar c = false) (hafter : afterValue stack value c = .ok reader') :
    Runs py reader (t ++ [c]) reader' := by
  cases t with
  | nil => exact .single ((h.step hc).trans hafter)
  | cons space rest =>
    have hspace := hblank space List.mem_cons_self
    have hskip : Reader.step py reader space = .ok ⟨stack, .after value⟩ := by
      rw [h.step (not_isNumberChar_of_space hspace), afterValue_space hspace]
    exact .cons hskip (.append (blank_runs (fun d hd => hblank d (List.mem_cons_of_mem _ hd))
      fun d hd => afterValue_space hd) (.single hafter))

private theorem open_list (h : stack.length < py.readerDepth) :
    Reader.step py ⟨stack, .value⟩ (.ofChar '[') = .ok ⟨.list [] :: stack, .firstItem⟩ :=
  if_pos h

private theorem open_dict (h : stack.length < py.readerDepth) :
    Reader.step py ⟨stack, .value⟩ (.ofChar '\x7b') = .ok ⟨.dict [] :: stack, .firstName⟩ :=
  if_pos h

/-- A member's name and the colon, after a comma or at the start of the object. -/
private theorem name_runs (hescape : Escapes py escape pieces S) {members : Members} {name : Str}
    (hname : S name) (first : Bool) :
    Runs py ⟨.dict members :: stack, if first then .firstName else .name⟩
      (renderString escape name ++ str ": ") ⟨.member members name :: stack, .value⟩ := by
  have hquote : Reader.step py ⟨.dict members :: stack, if first then .firstName else .name⟩
      (.ofChar '"') = .ok ⟨.dict members :: stack, .string true []⟩ := by
    cases first <;> rfl
  have hstring : Runs py ⟨.dict members :: stack, if first then .firstName else .name⟩
      (renderString escape name) ⟨.dict members :: stack, .colon name⟩ :=
    .cons hquote (string_runs hescape hname true)
  have hcolon : Reader.step py ⟨.dict members :: stack, .colon name⟩ (.ofChar ':')
      = .ok ⟨.member members name :: stack, .value⟩ := rfl
  exact hstring.append (.cons hcolon (.single rfl))

/-- A name that is new to an object comes last. -/
private theorem setMember_new {members : Members} {name : Str}
    (h : name ∉ members.map Prod.fst) : setMember members name value = members ++ [(name, value)] := by
  induction members with
  | nil => rfl
  | cons member rest ih =>
    obtain ⟨key, old⟩ := member
    rw [List.map_cons, List.mem_cons, not_or] at h
    rw [setMember, if_neg fun hkey => h.1 hkey.symm, ih h.2]
    rfl

/-- The names of an object are distinct, so the next one is new. -/
private theorem new_name {before members : Members} {name : Str}
    (h : ((before ++ (name, value) :: members).map Prod.fst).Nodup) : name ∉ before.map Prod.fst := by
  rw [List.map_append, List.nodup_append] at h
  exact fun hmem => h.2.2 name hmem name List.mem_cons_self rfl

mutual

/-- The text of a value is read as the value. -/
theorem value_read {layout : Layout} (hlayout : IsBlank layout)
    (hescape : Escapes py escape pieces S) : ∀ (value : Value) (level : Nat) (stack : List Frame),
    Good S (ReadsBack py) value → value.depth + stack.length ≤ py.readerDepth →
    ∃ reader, Runs py ⟨stack, .value⟩ (layout.render escape level value) reader
      ∧ HasRead py stack value reader
  | .none, _, _, _, _ => name_read nofun rfl
  | .bool true, _, _, _, _ => name_read nofun rfl
  | .bool false, _, _, _, _ => name_read nofun rfl
  | .int n, _, _, _, _ => int_read n
  | .float _, _, _, h, _ => float_read h
  | .str _, _, _, h, _ => string_read hescape h
  | .list [], _, stack, _, hroom => by
    rw [Value.depth] at hroom
    exact ⟨_, .cons (open_list (by omega)) (.single rfl), .inl rfl⟩
  | .list (item :: items), level, stack, h, hroom => by
    rw [Value.depth] at hroom
    have hitems := items_run hlayout hescape (item :: items) nofun level stack [] h (by omega)
    have hstart := starts_join (@layoutRender_starts escape layout (level + 1) item)
      (str "," ++ layout.comma level) (layout.renderItems escape (level + 1) items)
      (layout.closing level ++ str "]")
    have hopening : Runs py ⟨.list [] :: stack, .firstItem⟩ (layout.opening level)
        ⟨.list [] :: stack, .firstItem⟩ :=
      blank_runs (hlayout.opening level) fun c hc => by simp [Reader.step, hc]
    refine ⟨_, ?_, .inl rfl⟩
    rw [Layout.render, Layout.enclose, List.append_assoc, List.append_assoc, List.append_assoc]
    exact .cons (open_list (by omega)) (hopening.append (firstItem_runs hstart hitems))
  | .dict [], _, stack, _, hroom => by
    rw [Value.depth] at hroom
    exact ⟨_, .cons (open_dict (by omega)) (.single rfl), .inl rfl⟩
  | .dict (member :: members), level, stack, h, hroom => by
    rw [Value.depth] at hroom
    have hmembers := members_run hlayout hescape (member :: members) nofun level stack [] true
      h.1 h.2 (by omega)
    refine ⟨_, ?_, .inl rfl⟩
    rw [Layout.render, Layout.enclose, List.append_assoc, List.append_assoc, List.append_assoc]
    exact .cons (open_dict (by omega)) ((name_blank (hlayout.opening level) true).append hmembers)

/-- The items of an array after the ones that have been read, and the end of the array. -/
theorem items_run {layout : Layout} (hlayout : IsBlank layout)
    (hescape : Escapes py escape pieces S) : ∀ (items : List Value), items ≠ [] →
    ∀ (level : Nat) (stack : List Frame) (before : List Value), GoodItems S (ReadsBack py) items →
    Value.depthItems items + (stack.length + 1) ≤ py.readerDepth →
    Runs py ⟨.list before :: stack, .value⟩
      (join (str "," ++ layout.comma level) (layout.renderItems escape (level + 1) items)
        ++ (layout.closing level ++ str "]"))
      ⟨stack, .after (.list (before ++ items))⟩
  | [], hne, _, _, _, _, _ => absurd rfl hne
  | [item], _, level, stack, before, h, hroom => by
    have hdepth : item.depth ≤ Value.depthItems [item] := le_max_left _ _
    obtain ⟨reader, hrun, hread⟩ := value_read hlayout hescape item (level + 1)
      (.list before :: stack) h.1 (by rw [List.length_cons]; omega)
    rw [Layout.renderItems, Layout.renderItems, join, List.intercalate_singleton]
    exact hrun.append (hread.run (hlayout.closing level) rfl rfl)
  | item :: next :: items, _, level, stack, before, h, hroom => by
    have hdepth : item.depth ≤ Value.depthItems (item :: next :: items) := le_max_left _ _
    have hrest : Value.depthItems (next :: items) ≤ Value.depthItems (item :: next :: items) :=
      le_max_right _ _
    obtain ⟨reader, hrun, hread⟩ := value_read hlayout hescape item (level + 1)
      (.list before :: stack) h.1 (by rw [List.length_cons]; omega)
    have hitems := items_run hlayout hescape (next :: items) nofun level stack (before ++ [item])
      h.2 (by omega)
    rw [List.append_assoc, List.singleton_append] at hitems
    rw [Layout.renderItems] at hitems
    rw [Layout.renderItems, Layout.renderItems, join_cons, List.append_assoc, List.append_assoc,
      List.append_assoc]
    exact hrun.append (.cons ((hread.step rfl).trans rfl)
      ((value_blank (hlayout.comma level)).append hitems))

/-- The members of an object after the ones that have been read, and the end of the object. -/
theorem members_run {layout : Layout} (hlayout : IsBlank layout)
    (hescape : Escapes py escape pieces S) : ∀ (members : List (Str × Value)),
    members ≠ [] → ∀ (level : Nat) (stack : List Frame) (before : Members) (first : Bool),
    GoodMembers S (ReadsBack py) members → ((before ++ members).map Prod.fst).Nodup →
    Value.depthMembers members + (stack.length + 1) ≤ py.readerDepth →
    Runs py ⟨.dict before :: stack, if first then .firstName else .name⟩
      (join (str "," ++ layout.comma level) (layout.renderMembers escape (level + 1) members)
        ++ (layout.closing level ++ str "\x7d"))
      ⟨stack, .after (.dict (before ++ members))⟩
  | [], hne, _, _, _, _, _, _, _ => absurd rfl hne
  | [(name, value)], _, level, stack, before, first, h, hnames, hroom => by
    have hdepth : value.depth ≤ Value.depthMembers [(name, value)] := le_max_left _ _
    have hnew : name ∉ before.map Prod.fst := new_name hnames
    obtain ⟨reader, hrun, hread⟩ := value_read hlayout hescape value (level + 1)
      (.member before name :: stack) h.1.2 (by rw [List.length_cons]; omega)
    have hend : afterValue (.member before name :: stack) value (.ofChar '\x7d')
        = .ok ⟨stack, .after (.dict (setMember before name value))⟩ := rfl
    rw [setMember_new hnew] at hend
    rw [Layout.renderMembers, Layout.renderMembers, join, List.intercalate_singleton,
      List.append_assoc]
    exact (name_runs hescape h.1.1 first).append
      (hrun.append (hread.run (hlayout.closing level) rfl hend))
  | (name, value) :: (name', value') :: members, _, level, stack, before, first, h, hnames,
      hroom => by
    have hdepth : value.depth ≤ Value.depthMembers ((name, value) :: (name', value') :: members) :=
      le_max_left _ _
    have hrest : Value.depthMembers ((name', value') :: members)
        ≤ Value.depthMembers ((name, value) :: (name', value') :: members) := le_max_right _ _
    have hnew : name ∉ before.map Prod.fst := new_name hnames
    obtain ⟨reader, hrun, hread⟩ := value_read hlayout hescape value (level + 1)
      (.member before name :: stack) h.1.2 (by rw [List.length_cons]; omega)
    have hcomma : afterValue (.member before name :: stack) value (.ofChar ',')
        = .ok ⟨.dict (setMember before name value) :: stack, .name⟩ := rfl
    have hmembers := members_run hlayout hescape ((name', value') :: members) nofun level stack
      (before ++ [(name, value)]) false h.2 (by rwa [List.append_assoc]) (by omega)
    rw [List.append_assoc, List.singleton_append, Layout.renderMembers] at hmembers
    have hseparator : Runs py reader (str ",") ⟨.dict (setMember before name value) :: stack, .name⟩ :=
      .single ((hread.step rfl).trans hcomma)
    rw [setMember_new hnew] at hseparator
    rw [Layout.renderMembers, Layout.renderMembers, join_cons]
    simpa only [List.append_assoc] using (name_runs hescape h.1.1 first).append
      (hrun.append (hseparator.append
        ((name_blank (hlayout.comma level) false).append hmembers)))

end

/-- **Reading what was written.** The text of a value, in any layout, reads as the value. -/
theorem loads_layout {layout : Layout} (hlayout : IsBlank layout)
    (hescape : Escapes py escape pieces S) (hgood : Good S (ReadsBack py) value)
    (hdepth : value.depth ≤ py.readerDepth) {tail : Str} (htail : Blank tail) :
    loads py (layout.render escape 0 value ++ tail) = .ok value := by
  obtain ⟨reader, hrun, hread⟩ := value_read hlayout hescape value 0 [] hgood hdepth
  obtain ⟨c, rest, htext, _, _, hascii⟩ := @layoutRender_starts escape layout 0 value
  have hmark : ¬(layout.render escape 0 value ++ tail).head? = some (.ofNat 0xFEFF) := by
    rw [htext, List.cons_append, List.head?_cons, Option.some_inj]
    rintro rfl
    exact absurd hascii (by decide)
  -- After whitespace the reader stands after the value, also where the value is a number.
  have hfinish : ∃ reader', Runs py reader tail reader' ∧ reader'.finish py = .ok value := by
    cases tail with
    | nil =>
      refine ⟨reader, .nil, ?_⟩
      rcases hread with rfl | ⟨n, rfl, _, hvalue⟩
      · rfl
      · show (readNumber py n >>= fun value => _) = _
        rw [hvalue]
        rfl
    | cons space tail =>
      have hspace := htail space List.mem_cons_self
      have hskip : Reader.step py reader space = .ok ⟨[], .after value⟩ := by
        rw [hread.step (not_isNumberChar_of_space hspace), afterValue_space hspace]
      exact ⟨⟨[], .after value⟩, .cons hskip (blank_runs
        (fun d hd => htail d (List.mem_cons_of_mem _ hd)) fun d hd => afterValue_space hd), rfl⟩
  obtain ⟨reader', htail', hvalue⟩ := hfinish
  have hall : Runs py ⟨[], .value⟩ (layout.render escape 0 value ++ tail) reader' :=
    hrun.append htail'
  rw [loads, if_neg hmark]
  show ((layout.render escape 0 value ++ tail).foldlM (Reader.step py) ⟨[], .value⟩ >>= _) = _
  rw [show (layout.render escape 0 value ++ tail).foldlM (Reader.step py) ⟨[], .value⟩
    = .ok reader' from hall]
  exact hvalue

end

/-! ## One line -/

section
variable {py : Interpreter} {value : Value} {escape : CodePoint → Str}
  {pieces : CodePoint → List Piece} {S : Str → Prop}

private theorem oneLine_blank : IsBlank .oneLine where
  opening _ := nofun
  comma _ := show ∀ c ∈ str " ", isJsonSpace c = true by decide
  closing _ := nofun

/-- The text of a value on one line reads as the value. -/
theorem loads_render (hescape : Escapes py escape pieces S) (hgood : Good S (ReadsBack py) value)
    (hdepth : value.depth ≤ py.readerDepth) : loads py (render escape value) = .ok value := by
  have hread := loads_layout oneLine_blank hescape hgood hdepth (fun c hc => absurd hc List.not_mem_nil)
  rwa [List.append_nil, oneLine_render] at hread

end

end TrustPortal.Proofs.Transcript
