import Mathlib.Data.Set.Basic
import Mathlib.Data.List.TakeDrop
import Mathlib.Data.List.TakeWhile
import TrustPortal.Lib.Except
import TrustPortal.Scheduler.Cron

/-!
# `TrustPortal.Proofs.Scheduler.Cron`: the two day fields of a crontab expression

`Crontab field days` is the grammar of the day-of-week field: elements with commas between them,
each a day, an ascending range or `*`, with a step or without. A day is a digit from 0 to 7 or a
name of three letters, a step a decimal number of at least 1, and `?` alone counts as `*`.

`crontabDayOfWeek` reads more than the grammar. It takes spaces away, counts an empty part as `*`,
takes every word that starts with a day name for that day, and reads numbers with `int`, so a
sign, underscores, leading zeros and digits of other scripts pass. `Readable` says which fields
these are, and `endpoint_iff` which texts count as a day in them. A step of more than 4300 digits is the one part of the grammar that `int` refuses.

`dayFields_iff` is the main fact. For a field the code does what crontab(5) says exactly when the
field is of the grammar, with short steps, or not readable. And a trigger of `parse_cron` fires at
the minutes that the other fields match and on the days of crontab(5)'s rule for two day fields.
-/

set_option autoImplicit false

namespace TrustPortal.Proofs.Scheduler

open TrustPortal.Lib
open TrustPortal.Python
open TrustPortal.Scheduler

/-! ## The grammar -/

/-- A day of the week with its number. -/
inductive IsDay : Str → Nat → Prop
  /-- A digit from 0 to 7. -/
  | number (d : Nat) (h : d ≤ 7) : IsDay [.ofNat (0x30 + d)] d
  /-- The first three letters of a name, in capitals or not. -/
  | name (text : Str) (d : Nat) (h : DOW_NAMES[d]? = some (text.map CodePoint.asciiLower)) :
    IsDay text d

/-- A step of at least 1. -/
structure IsStep (text : Str) (step : Nat) : Prop where
  nonempty : text ≠ []
  digits : ∀ c ∈ text, c.isDigit = true
  value : digitsValue text = step
  pos : 1 ≤ step

/-- `*` or an ascending range of days, with its ends. -/
inductive IsRange : Str → Nat → Nat → Prop
  | every : IsRange (str "*") 0 7
  | days {first last : Str} {a b : Nat} (hfirst : IsDay first a) (hlast : IsDay last b)
      (h : a ≤ b) : IsRange (first ++ .ofChar '-' :: last) a b

/-- An element of the field: its text, its first and its last day, and its step. -/
inductive IsElement : Str → Nat → Nat → Nat → Prop
  | day {text : Str} {a : Nat} (h : IsDay text a) : IsElement text a a 1
  | range {text : Str} {a b : Nat} (h : IsRange text a b) : IsElement text a b 1
  /-- A day with a step runs to the end of the week. -/
  | dayStep {text stepText : Str} {a step : Nat} (h : IsDay text a) (hstep : IsStep stepText step) :
    IsElement (text ++ .ofChar '/' :: stepText) a 7 step
  | rangeStep {text stepText : Str} {a b step : Nat} (h : IsRange text a b)
      (hstep : IsStep stepText step) : IsElement (text ++ .ofChar '/' :: stepText) a b step

/-- An element of the grammar. -/
structure CrontabElement where
  text : Str
  first : Nat
  last : Nat
  step : Nat
  ok : IsElement text first last step

/-- The days from the first to the last, a step apart, with 7 for Sunday. -/
def stepDays (first last step : Nat) : Set Nat :=
  {w | ∃ v, first ≤ v ∧ v ≤ last ∧ step ∣ v - first ∧ v % 7 = w}

/-- The field is one of crontab(5) and stands for these days. -/
def Crontab (field : Str) (days : Set Nat) : Prop :=
  (field = str "?" ∧ days = {w | w < 7})
    ∨ ∃ es : List CrontabElement, es ≠ [] ∧ field = join (str ",") (es.map (·.text))
      ∧ days = {w | ∃ e ∈ es, w ∈ stepDays e.first e.last e.step}

/-- The days that a result of `crontab_day_of_week` names. -/
def Names (result : Str) : Set Nat :=
  {w | w < 7 ∧ (result = str "*" ∨ DOW_NAMES.getD w [] ∈ result.splitOn (.ofChar ','))}

section
variable (tables : TextTables)

/-- `crontab_day_of_week` does with the field what crontab(5) says. -/
def Faithful (field : Str) : Prop :=
  (∀ days, Crontab field days →
      ∃ result, crontabDayOfWeek tables field = .ok result ∧ Names result = days)
    ∧ ((¬∃ days, Crontab field days) → ∃ e, crontabDayOfWeek tables field = .error e)

/-! ## What the code reads -/

/-- The text before the first `-`, and the text behind it, are days in ascending order; or the
text has no `-` and is a day. -/
def ReadableBody (body : Str) : Prop :=
  match partition '-' body with
  | (first, true, last) => ∃ a b, endpoint tables first = .ok a ∧ endpoint tables last = .ok b ∧ a ≤ b
  | (_, false, _) => ∃ a, endpoint tables body = .ok a

/-- Before the first `/` there is nothing, a `*` or days, and behind it what `int` reads as a number
of at least 1. -/
def ReadablePart (part : Str) : Prop :=
  match partition '/' part with
  | (body, slash, stepText) =>
    (slash = true → ∃ n, intOf tables stepText = some n ∧ 1 ≤ n)
      ∧ (body = str "*" ∨ body = [] ∨ ReadableBody tables body)

/-- Without the spaces around it the field is `?`, or each of its parts is readable. -/
def Readable (field : Str) : Prop :=
  strip field = str "?" ∨ ∀ part ∈ (strip field).splitOn (.ofChar ','), ReadablePart tables part

end

/-- What the code reads as a day, with spaces around it or not. -/
inductive ReadsDay (tables : TextTables) (token : Str) : Nat → Prop
  | seven (h : strip token = str "7") : ReadsDay tables token 7
  /-- Any word that starts with one of the names. -/
  | word (d : Nat) (h : DOW_NAMES[d]? = some ((tables.lower (strip token)).take 3)) :
    ReadsDay tables token d
  /-- Any other number of a day in the texts that `int` takes: a sign, leading zeros, underscores
  between the digits, digits of other scripts. A 7 that is written so counts as 0. -/
  | number (n : Nat) (hday : n ≤ 7) (hseven : strip token ≠ str "7")
      (hword : (tables.lower (strip token)).take 3 ∉ DOW_NAMES)
      (h : intOf tables (tables.lower (strip token)) = some (n : Int)) : ReadsDay tables token (n % 7)

/-- No step of the field has more than 4300 characters. -/
def ShortSteps (field : Str) : Prop :=
  ∀ part ∈ field.splitOn (.ofChar ','), (partition '/' part).2.2.length ≤ MAX_STR_DIGITS

/-! ## The parts of a field -/

section
variable {tables : TextTables}

/-- The first and the last value of a part, and its step. -/
def partRange (tables : TextTables) (part : Str) : Except CronError (Nat × Nat × Nat) := do
  let (part, step) ← splitStep tables part
  let (start, stop) ← rangeOf tables part step
  if stop < start then .error (.descendingRange part) else .ok (start, stop, step.getD 1)

/-- A part adds the values of its range. -/
private theorem addPart_eq (days : List Nat) (part : Str) :
    addPart tables days part = (partRange tables part).map fun (start, stop, step) =>
      (pyRange start stop step).foldl addDay days := by
  rw [addPart, partRange]
  cases splitStep tables part with
  | error e => rfl
  | ok split =>
    obtain ⟨body, step⟩ := split
    show ((rangeOf tables body step).bind _) = ((rangeOf tables body step).bind _).map _
    cases rangeOf tables body step with
    | error e => rfl
    | ok ends =>
      show (if ends.2 < ends.1 then _ else _) = Except.map _ (if ends.2 < ends.1 then _ else _)
      split_ifs <;> rfl

/-- The text up to a separator that it does not have. -/
private theorem partition_none {sep : Char} {text : Str} (h : ∀ c ∈ text, c.is sep = false) :
    partition sep text = (text, false, []) := by
  have hspan : text.span (fun c => !c.is sep) = (text, []) := by
    rw [List.span_eq_takeWhile_dropWhile,
      List.takeWhile_eq_self_iff.mpr fun c hc => by rw [h c hc, Bool.not_false],
      List.dropWhile_eq_nil_iff.mpr fun c hc => by rw [h c hc, Bool.not_false]]
  rw [partition, hspan]

/-- The text up to the first separator. -/
private theorem partition_append {sep : Char} {a b : Str} (h : ∀ c ∈ a, c.is sep = false)
    {c : CodePoint} (hc : c.is sep = true) : partition sep (a ++ c :: b) = (a, true, b) := by
  have hspan : (a ++ c :: b).span (fun c => !c.is sep) = (a, c :: b) := by
    rw [List.span_eq_takeWhile_dropWhile,
      List.takeWhile_append_of_pos fun d hd => by rw [h d hd, Bool.not_false],
      List.dropWhile_append_of_pos fun d hd => by rw [h d hd, Bool.not_false],
      List.takeWhile_cons_of_neg (by rw [hc]; exact Bool.false_ne_true),
      List.dropWhile_cons_of_neg (by rw [hc]; exact Bool.false_ne_true), List.append_nil]
  rw [partition, hspan]

end

/-! ## Days and steps -/

/-- The texts of days, in the grammar and beyond it. -/
theorem endpoint_iff {tables : TextTables} {token : Str} {d : Nat} :
    endpoint tables token = .ok d ↔ ReadsDay tables token d := by
  have hnames : DOW_NAMES.Nodup := by decide
  constructor
  · intro h
    rw [endpoint] at h
    split_ifs at h with hseven
    · cases h
      exact .seven hseven
    · rw [dowValue] at h
      split_ifs at h with hword
      · cases h
        rw [List.contains_iff_mem] at hword
        refine .word _ ?_
        rw [List.getElem?_eq_getElem (List.idxOf_lt_length_of_mem hword), List.getElem_idxOf]
      · obtain ⟨n, hn, h⟩ := bind_eq_ok.mp h
        split_ifs at h with hday
        cases h
        rw [Scheduler.readInt] at hn
        split at hn
        · next value hvalue =>
          cases hn
          refine .number _ (by omega) hseven (by simpa using hword) ?_
          rw [hvalue, Int.toNat_of_nonneg hday.1]
        · cases hn
  · intro h
    cases h with
    | seven h => rw [endpoint, if_pos h]
    | word d hget =>
      have hword := List.mem_of_getElem? hget
      have hseven : strip token ≠ str "7" := by
        intro hseven
        rw [hseven, tables.lower_ascii _ (by decide)] at hword
        revert hword
        decide
      obtain ⟨hlength, hget⟩ := List.getElem?_eq_some_iff.mp hget
      rw [endpoint, if_neg hseven, dowValue, if_pos (List.contains_iff_mem.mpr hword), ← hget,
        hnames.idxOf_getElem]
    | number n hday hseven hword hn =>
      rw [endpoint, if_neg hseven, dowValue, if_neg (by simpa using hword),
        Scheduler.readInt, hn]
      exact if_pos ⟨by omega, by omega⟩

/-- A letter, a digit, or one of the three marks of the grammar. -/
private def isFieldChar (c : CodePoint) : Bool :=
  c.isAsciiAlpha || c.isDigit || c.is '*' || c.is '-' || c.is '/'

/-- A letter or a digit. -/
private def isDayChar (c : CodePoint) : Bool := c.isAsciiAlpha || c.isDigit

private theorem is_iff {c : CodePoint} {char : Char} : c.is char = true ↔ c.val = char.toNat := by
  rw [CodePoint.is, beq_iff_eq]

/-- The characters of a day. -/
private theorem isDayChar_iff {c : CodePoint} : isDayChar c = true ↔ (65 ≤ c.val ∧ c.val ≤ 90)
    ∨ (97 ≤ c.val ∧ c.val ≤ 122) ∨ (48 ≤ c.val ∧ c.val ≤ 57) := by
  simp only [isDayChar, CodePoint.isAsciiAlpha, CodePoint.isDigit, Bool.or_eq_true,
    Bool.and_eq_true, decide_eq_true_eq]
  omega

/-- A day has no mark of the grammar. -/
private theorem is_false_of_isDayChar {c : CodePoint} (h : isDayChar c = true) {char : Char}
    (hchar : char.toNat < 48) : c.is char = false := by
  rw [isDayChar_iff] at h
  rw [← Bool.not_eq_true, is_iff]
  omega

private theorem isSpace_of_isFieldChar {c : CodePoint} (h : isFieldChar c = true) :
    c.isSpace = false := by
  simp only [isFieldChar, CodePoint.isAsciiAlpha, CodePoint.isDigit, Bool.or_eq_true,
    Bool.and_eq_true, decide_eq_true_eq, is_iff, Char.reduceToNat] at h
  simp only [CodePoint.isSpace, Bool.or_eq_false_iff, decide_eq_false_iff_not, beq_eq_false_iff_ne]
  omega

private theorem isFieldChar_of_isDayChar {c : CodePoint} (h : isDayChar c = true) :
    isFieldChar c = true := by
  rw [isFieldChar, ← isDayChar, h]
  rfl

/-- Nothing is taken from a text without spaces. -/
private theorem strip_self {text : Str} (h : ∀ c ∈ text, c.isSpace = false) : strip text = text :=
  strip_of_ends (fun c hc => h c (List.mem_of_head? hc)) fun c hc => h c (List.mem_of_getLast? hc)

/-- The letters of the names are small. -/
private theorem mem_name {name : Str} (h : name ∈ DOW_NAMES) :
    ∀ c ∈ name, 97 ≤ c.val ∧ c.val ≤ 122 := by
  revert name
  decide

/-- A day consists of letters and digits. -/
private theorem IsDay.chars {text : Str} {d : Nat} (h : IsDay text d) :
    ∀ c ∈ text, isDayChar c = true := by
  intro c hc
  cases h with
  | number d hd =>
    rw [List.mem_singleton] at hc
    rw [hc, isDayChar_iff, CodePoint.val_ofNat (by omega)]
    omega
  | name text d hname =>
    have hlower := mem_name (List.mem_of_getElem? hname) _ (List.mem_map_of_mem hc)
    rw [isDayChar_iff]
    rw [CodePoint.asciiLower] at hlower
    split_ifs at hlower <;> omega

private theorem IsDay.ne_nil {text : Str} {d : Nat} (h : IsDay text d) : text ≠ [] := by
  intro hnil
  cases h with
  | number d hd => cases hnil
  | name text d hname =>
    rw [hnil] at hname
    exact absurd (List.mem_of_getElem? hname) (by decide)

/-- Letters and digits are ASCII. -/
private theorem isAscii_of_isDayChar {c : CodePoint} (h : isDayChar c = true) :
    c.isAscii = true := by
  rw [isDayChar_iff] at h
  rw [CodePoint.isAscii, decide_eq_true_eq]
  omega

section
variable {tables : TextTables}

/-- The digits of a number without underscores. -/
private theorem intDigits_digits {text : Str} (hne : text ≠ [])
    (h : ∀ c ∈ text, c.isDigit = true) :
    intDigits tables text = some (text.map fun c => c.val - 0x30) := by
  have hdecimal : ∀ c ∈ text, tables.decimal c = some (c.val - 0x30) := by
    intro c hc
    have hday : isDayChar c = true := by rw [isDayChar, h c hc, Bool.or_true]
    rw [tables.decimal_ascii c (isAscii_of_isDayChar hday), if_pos (h c hc)]
  induction text with
  | nil => exact absurd rfl hne
  | cons c rest ih =>
    cases rest with
    | nil => rw [intDigits, hdecimal c List.mem_cons_self]; rfl
    | cons u rest =>
      -- a digit is not an underscore
      have hu : u.is '_' = false := by
        have hdigit := h u (by simp)
        rw [CodePoint.isDigit, Bool.and_eq_true, decide_eq_true_eq, decide_eq_true_eq] at hdigit
        rw [← Bool.not_eq_true, is_iff]
        exact fun hval => absurd (hval.symm.trans_le hdigit.2) (by decide)
      have hrest := ih (List.cons_ne_nil u rest) (fun d hd => h d (List.mem_cons_of_mem c hd))
        fun d hd => hdecimal d (List.mem_cons_of_mem c hd)
      simp only [intDigits, hdecimal c List.mem_cons_self, hu, Bool.false_eq_true, if_false, hrest]
      rfl

/-- `int` of decimal digits. -/
private theorem intOf_digits {text : Str} (hne : text ≠ []) (h : ∀ c ∈ text, c.isDigit = true) :
    intOf tables text
      = if text.length ≤ MAX_STR_DIGITS then some (digitsValue text : Int) else none := by
  have hday : ∀ c ∈ text, isDayChar c = true := fun c hc => by
    rw [isDayChar, h c hc, Bool.or_true]
  have hspace : ∀ c ∈ text, c.isIntSpace = false := fun c hc => by
    rw [CodePoint.isIntSpace, isSpace_of_isFieldChar (isFieldChar_of_isDayChar (hday c hc)),
      Bool.false_and]
  have hself : ∀ t : Str, (∀ c ∈ t, c.isIntSpace = false) → t.dropWhile CodePoint.isIntSpace = t :=
    fun t ht => dropWhile_of_head fun c hc => ht c (List.mem_of_head? hc)
  rw [intOf, hself text hspace, hself text.reverse fun c hc => hspace c (List.mem_reverse.mp hc),
    List.reverse_reverse]
  cases text with
  | nil => exact absurd rfl hne
  | cons c rest =>
    have hc := hday c List.mem_cons_self
    show (if c.is '-' = true then _ else if c.is '+' = true then _ else _) = _
    rw [is_false_of_isDayChar hc (by decide), is_false_of_isDayChar hc (by decide),
      if_neg Bool.false_ne_true, if_neg Bool.false_ne_true, natOf, intDigits_digits hne h]
    show (if ((c :: rest).map _).length ≤ MAX_STR_DIGITS then _ else none).map _ = _
    rw [List.length_map, List.foldl_map]
    split_ifs <;> rfl

/-- The code reads a day as its number. -/
private theorem endpoint_day {text : Str} {d : Nat} (h : IsDay text d) :
    endpoint tables text = .ok d := by
  have hstrip : strip text = text :=
    strip_self fun c hc => isSpace_of_isFieldChar (isFieldChar_of_isDayChar (h.chars c hc))
  have hlower : tables.lower text = text.map CodePoint.asciiLower :=
    tables.lower_ascii text (List.all_eq_true.mpr fun c hc => isAscii_of_isDayChar (h.chars c hc))
  rw [endpoint, hstrip]
  cases h with
  | number d hd =>
    have hdigit : (CodePoint.ofNat (0x30 + d)).val = 0x30 + d := CodePoint.val_ofNat (by omega)
    by_cases hseven : d = 7
    · rw [hseven]
      rfl
    · have hne : [CodePoint.ofNat (0x30 + d)] ≠ str "7" := by
        intro heq
        have hval : 0x30 + d = 0x30 + 7 :=
          hdigit.symm.trans (congrArg CodePoint.val (List.cons.inj heq).1)
        exact hseven (Nat.add_left_cancel hval)
      have hread : intOf tables [CodePoint.ofNat (0x30 + d)] = some (d : Int) := by
        rw [intOf_digits (List.cons_ne_nil _ _)]
        · rw [List.length_singleton, if_pos (show 1 ≤ MAX_STR_DIGITS by decide), digitsValue]
          simp [hdigit]
        · intro c hc
          rw [List.mem_singleton.mp hc, CodePoint.isDigit, hdigit, Bool.and_eq_true,
            decide_eq_true_eq, decide_eq_true_eq]
          omega
      have hsmall : [CodePoint.ofNat (0x30 + d)].map CodePoint.asciiLower
          = [CodePoint.ofNat (0x30 + d)] := by
        rw [List.map_singleton, CodePoint.asciiLower, hdigit, if_neg (by omega)]
      have hname : DOW_NAMES.contains ([CodePoint.ofNat (0x30 + d)].take 3) = false := by
        rw [← Bool.not_eq_true, List.contains_iff_mem]
        intro hmem
        have := mem_name hmem _ List.mem_cons_self
        omega
      rw [if_neg hne, dowValue, hstrip, hlower, hsmall]
      simp only [hname, Bool.false_eq_true, if_false, Scheduler.readInt, hread]
      show (if (0 : Int) ≤ d ∧ (d : Int) ≤ 7 then _ else _) = _
      rw [if_pos (by omega), Int.toNat_natCast, Nat.mod_eq_of_lt (by omega)]
  | name text d hname =>
    have hlt : d < DOW_NAMES.length := (List.getElem?_eq_some_iff.mp hname).1
    have hmem : text.map CodePoint.asciiLower ∈ DOW_NAMES := List.mem_of_getElem? hname
    have hthree : ∀ name ∈ DOW_NAMES, name.take 3 = name := by decide
    have hne : text ≠ str "7" := by
      intro heq
      rw [heq] at hmem
      exact absurd hmem (by decide)
    have hindex : DOW_NAMES.idxOf (text.map CodePoint.asciiLower) = d := by
      rw [← (List.getElem?_eq_some_iff.mp hname).2]
      exact List.Nodup.idxOf_getElem (by decide) d hlt
    rw [if_neg hne, dowValue, hstrip, hlower]
    simp only [hthree _ hmem, List.contains_iff_mem.mpr hmem, if_true, hindex]

end

/-! ## Elements -/

/-- The code point of a character is that character. -/
private theorem is_ofChar {char : Char} (h : char.toNat < 0x110000) :
    (CodePoint.ofChar char).is char = true := by
  rw [is_iff, CodePoint.ofChar, CodePoint.val_ofNat h]

/-- The characters of a range. -/
private theorem IsRange.chars {text : Str} {a b : Nat} (h : IsRange text a b) :
    ∀ c ∈ text, isFieldChar c = true ∧ c.is '/' = false := by
  have hday : ∀ {t : Str} {d : Nat}, IsDay t d → ∀ c ∈ t, isFieldChar c = true ∧ c.is '/' = false :=
    fun ht c hc => ⟨isFieldChar_of_isDayChar (ht.chars c hc),
      is_false_of_isDayChar (ht.chars c hc) (by decide)⟩
  cases h with
  | every => decide
  | days hfirst hlast hle =>
    intro c hc
    rcases List.mem_append.mp hc with hc | hc
    · exact hday hfirst c hc
    · rcases List.mem_cons.mp hc with rfl | hc
      · decide
      · exact hday hlast c hc

/-- The characters of an element. -/
private theorem IsElement.chars {text : Str} {a b k : Nat} (h : IsElement text a b k) :
    ∀ c ∈ text, isFieldChar c = true := by
  have hstepText : ∀ {t : Str} {k : Nat}, IsStep t k → ∀ c ∈ t, isFieldChar c = true :=
    fun ht c hc => isFieldChar_of_isDayChar (by rw [isDayChar, ht.digits c hc, Bool.or_true])
  intro c hc
  cases h with
  | day h => exact isFieldChar_of_isDayChar (h.chars c hc)
  | range h => exact (h.chars c hc).1
  | dayStep h hstep =>
    rcases List.mem_append.mp hc with hc | hc
    · exact isFieldChar_of_isDayChar (h.chars c hc)
    · rcases List.mem_cons.mp hc with rfl | hc
      · decide
      · exact hstepText hstep c hc
  | rangeStep h hstep =>
    rcases List.mem_append.mp hc with hc | hc
    · exact (h.chars c hc).1
    · rcases List.mem_cons.mp hc with rfl | hc
      · decide
      · exact hstepText hstep c hc

/-- The last day of `*` is Sunday again. -/
private theorem stepDays_every {k : Nat} : stepDays 0 6 k = stepDays 0 7 k := by
  ext w
  constructor
  · rintro ⟨v, hfirst, hlast, hstep, hw⟩
    exact ⟨v, hfirst, by omega, hstep, hw⟩
  · rintro ⟨v, hfirst, hlast, hstep, hw⟩
    by_cases hv : v = 7
    · exact ⟨0, Nat.le_refl 0, by omega, dvd_zero k, by omega⟩
    · exact ⟨v, hfirst, by omega, hstep, hw⟩

section
variable {tables : TextTables}

/-- A text without `/` has no step. -/
private theorem splitStep_none {text : Str} (h : ∀ c ∈ text, c.is '/' = false) :
    splitStep tables text = .ok (text, none) := by
  rw [splitStep, partition_none h]
  rfl

/-- The step of an element, as far as `int` reads it. -/
private theorem splitStep_step {text stepText : Str} {k : Nat} (h : ∀ c ∈ text, c.is '/' = false)
    (hstep : IsStep stepText k) (hshort : stepText.length ≤ MAX_STR_DIGITS) :
    splitStep tables (text ++ .ofChar '/' :: stepText) = .ok (text, some k) := by
  have hread : readInt tables stepText = .ok (k : Int) := by
    rw [Scheduler.readInt, intOf_digits hstep.nonempty hstep.digits, if_pos hshort, hstep.value]
  have hpos := hstep.pos
  rw [splitStep, partition_append h (is_ofChar (by decide))]
  show (readInt tables stepText).bind _ = _
  rw [hread]
  show (if (k : Int) < 1 then _ else _) = _
  rw [if_neg (by omega), Int.toNat_natCast]

/-- A day has no `-`. -/
private theorem partition_day {text : Str} {a : Nat} (h : IsDay text a) :
    partition '-' text = (text, false, []) :=
  partition_none fun c hc => is_false_of_isDayChar (h.chars c hc) (by decide)

/-- A text that has a letter or a digit is not `*`. -/
private theorem ne_star {c : CodePoint} {text : Str} (hmem : c ∈ text) (h : isDayChar c = true) :
    ¬(text = str "*" ∨ text = []) := by
  rintro (rfl | rfl)
  · rw [List.mem_singleton.mp hmem] at h
    exact absurd h (by decide)
  · cases hmem

/-- The first character of a day. -/
private theorem IsDay.exists_mem {text : Str} {a : Nat} (h : IsDay text a) :
    ∃ c ∈ text, isDayChar c = true := by
  obtain ⟨c, hc⟩ := List.exists_mem_of_ne_nil text h.ne_nil
  exact ⟨c, hc, h.chars c hc⟩

/-- A day alone, or from it to the end of the week. -/
private theorem rangeOf_day {text : Str} {a : Nat} (h : IsDay text a) (step : Option Nat) :
    rangeOf tables text step = .ok (a, if step.isSome then 7 else a) := by
  obtain ⟨c, hmem, hc⟩ := h.exists_mem
  rw [rangeOf, if_neg (ne_star hmem hc), partition_day h]
  show (endpoint tables text).bind _ = _
  rw [endpoint_day h]
  rfl

/-- The ends of a range, as far as they matter. -/
private theorem rangeOf_range {text : Str} {a b : Nat} (h : IsRange text a b) (step : Option Nat) :
    ∃ b', rangeOf tables text step = .ok (a, b') ∧ a ≤ b'
      ∧ ∀ k, stepDays a b' k = stepDays a b k := by
  cases h with
  | every => exact ⟨6, rfl, by omega, fun k => stepDays_every⟩
  | @days first last _ _ hfirst hlast hle =>
    obtain ⟨c, hmem, hc⟩ := hfirst.exists_mem
    refine ⟨b, ?_, hle, fun k => rfl⟩
    rw [rangeOf, if_neg (ne_star (List.mem_append_left _ hmem) hc),
      partition_append (fun d hd => is_false_of_isDayChar (hfirst.chars d hd) (by decide))
        (is_ofChar (by decide))]
    show (endpoint tables first).bind _ = _
    rw [endpoint_day hfirst]
    show (endpoint tables last).bind _ = _
    rw [endpoint_day hlast]
    rfl

/-- The days of an element up to 7. -/
private theorem IsDay.le_seven {text : Str} {a : Nat} (h : IsDay text a) : a ≤ 7 := by
  cases h with
  | number d hd => exact hd
  | name text d hname =>
    have hlt : a < 7 := (List.getElem?_eq_some_iff.mp hname).1
    omega

/-- The code reads an element as crontab(5) does, when `int` reads its step. -/
private theorem partRange_element {text : Str} {a b k : Nat} (h : IsElement text a b k)
    (hshort : (partition '/' text).2.2.length ≤ MAX_STR_DIGITS) :
    ∃ b', partRange tables text = .ok (a, b', k) ∧ stepDays a b' k = stepDays a b k := by
  have hdaySlash : ∀ {t : Str} {d : Nat}, IsDay t d → ∀ c ∈ t, c.is '/' = false :=
    fun ht c hc => is_false_of_isDayChar (ht.chars c hc) (by decide)
  cases h with
  | day h =>
    refine ⟨a, ?_, rfl⟩
    rw [partRange, splitStep_none (hdaySlash h)]
    show (rangeOf tables text none).bind _ = _
    rw [rangeOf_day h]
    show (if a < a then _ else _) = _
    rw [if_neg (Nat.lt_irrefl a)]
    rfl
  | range h =>
    obtain ⟨b', hends, hle, hdays⟩ := @rangeOf_range tables _ _ _ h none
    refine ⟨b', ?_, hdays 1⟩
    rw [partRange, splitStep_none fun c hc => (h.chars c hc).2]
    show (rangeOf tables text none).bind _ = _
    rw [hends]
    show (if b' < a then _ else _) = _
    rw [if_neg (Nat.not_lt.mpr hle)]
    rfl
  | @dayStep text stepText _ _ h hstep =>
    rw [partition_append (hdaySlash h) (is_ofChar (by decide))] at hshort
    refine ⟨7, ?_, rfl⟩
    rw [partRange, splitStep_step (hdaySlash h) hstep hshort]
    show (rangeOf tables text (some k)).bind _ = _
    rw [rangeOf_day h]
    show (if 7 < a then _ else _) = _
    rw [if_neg (Nat.not_lt.mpr h.le_seven)]
    rfl
  | @rangeStep text stepText _ _ _ h hstep =>
    rw [partition_append (fun c hc => (h.chars c hc).2) (is_ofChar (by decide))] at hshort
    obtain ⟨b', hends, hle, hdays⟩ := @rangeOf_range tables _ _ _ h (some k)
    refine ⟨b', ?_, hdays k⟩
    rw [partRange, splitStep_step (fun c hc => (h.chars c hc).2) hstep hshort]
    show (rangeOf tables text (some k)).bind _ = _
    rw [hends]
    show (if b' < a then _ else _) = _
    rw [if_neg (Nat.not_lt.mpr hle)]
    rfl

end

/-! ## Days -/

/-- The values of a range with a step. -/
private theorem mem_pyRange {a b k v : Nat} (hk : 1 ≤ k) :
    v ∈ pyRange a b k ↔ a ≤ v ∧ v ≤ b ∧ k ∣ v - a := by
  rw [pyRange, List.mem_range']
  constructor
  · rintro ⟨i, hi, rfl⟩
    have hle : (i + 1) * k ≤ b + 1 - a + k - 1 := (Nat.le_div_iff_mul_le hk).mp hi
    rw [Nat.add_mul, Nat.one_mul, Nat.mul_comm] at hle
    exact ⟨by omega, by omega, ⟨i, by omega⟩⟩
  · rintro ⟨hfirst, hlast, i, hi⟩
    refine ⟨i, (Nat.le_div_iff_mul_le hk).mpr ?_, by omega⟩
    show (i + 1) * k ≤ _
    rw [Nat.add_mul, Nat.one_mul, Nat.mul_comm, ← hi]
    omega

/-- The days that a list of values adds. -/
private theorem mem_foldl_addDay {values days : List Nat} {w : Nat} :
    w ∈ values.foldl addDay days ↔ w ∈ days ∨ ∃ v ∈ values, v % 7 = w := by
  induction values generalizing days with
  | nil => simp
  | cons v rest ih =>
    have hstep : w ∈ addDay days v ↔ w ∈ days ∨ v % 7 = w := by
      rw [addDay]
      split_ifs with hmem
      · rw [List.contains_iff_mem] at hmem
        exact ⟨Or.inl, fun h => h.elim id fun hw => hw ▸ hmem⟩
      · rw [List.mem_append, List.mem_singleton, @eq_comm Nat w]
    rw [List.foldl_cons, ih, hstep, List.exists_mem_cons_iff, or_assoc]

/-- The days of a range. -/
private theorem mem_foldl_pyRange {days : List Nat} {a b k w : Nat} (hk : 1 ≤ k) :
    w ∈ (pyRange a b k).foldl addDay days ↔ w ∈ days ∨ w ∈ stepDays a b k := by
  rw [mem_foldl_addDay]
  refine or_congr_right ⟨?_, ?_⟩
  · rintro ⟨v, hv, hw⟩
    have hrange := (mem_pyRange hk).mp hv
    exact ⟨v, hrange.1, hrange.2.1, hrange.2.2, hw⟩
  · rintro ⟨v, hfirst, hlast, hstep, hw⟩
    exact ⟨v, (mem_pyRange hk).mpr ⟨hfirst, hlast, hstep⟩, hw⟩

section
variable {tables : TextTables}

/-- A step that a part has is at least 1. -/
private theorem splitStep_pos {part body : Str} {step : Option Nat}
    (h : splitStep tables part = .ok (body, step)) : 1 ≤ step.getD 1 := by
  rw [splitStep] at h
  rcases hsplit : partition '/' part with ⟨body', slash, stepText⟩
  rw [hsplit] at h
  cases slash with
  | false =>
    cases h
    exact Nat.le_refl 1
  | true =>
    obtain ⟨n, hn, h⟩ := bind_eq_ok.mp (show (readInt tables stepText >>= _) = _ from h)
    obtain ⟨hpos, h⟩ := ite_error_eq_ok.mp h
    cases h
    show 1 ≤ n.toNat
    omega

/-- What the code reads of a part is an ascending range. -/
private theorem partRange_ascending {part : Str} {a b k : Nat}
    (h : partRange tables part = .ok (a, b, k)) : a ≤ b ∧ 1 ≤ k := by
  obtain ⟨⟨body, step⟩, hsplit, h⟩ := bind_eq_ok.mp h
  obtain ⟨⟨start, stop⟩, hends, h⟩ := bind_eq_ok.mp h
  obtain ⟨hle, h⟩ := ite_error_eq_ok.mp h
  cases h
  exact ⟨Nat.not_lt.mp hle, splitStep_pos hsplit⟩

/-- The loop ends well when every part is read, and then it has the days of all parts. -/
private theorem foldlM_addPart {parts : List Str} {days : List Nat}
    (h : ∀ part ∈ parts, ∃ r, partRange tables part = .ok r) :
    ∃ result, parts.foldlM (addPart tables) days = .ok result
      ∧ ∀ w, w ∈ result ↔ w ∈ days ∨ ∃ part ∈ parts, ∃ a b k,
        partRange tables part = .ok (a, b, k) ∧ w ∈ stepDays a b k := by
  induction parts generalizing days with
  | nil => exact ⟨days, rfl, by simp⟩
  | cons part rest ih =>
    obtain ⟨⟨a, b, k⟩, hpart⟩ := h part List.mem_cons_self
    obtain ⟨result, hrest, hmem⟩ := @ih ((pyRange a b k).foldl addDay days)
      fun p hp => h p (List.mem_cons_of_mem part hp)
    refine ⟨result, ?_, fun w => ?_⟩
    · rw [List.foldlM_cons, addPart_eq, hpart]
      exact hrest
    · rw [hmem, mem_foldl_pyRange (partRange_ascending hpart).2, List.exists_mem_cons_iff, or_assoc]
      refine or_congr_right (or_congr_left ?_)
      constructor
      · exact fun hw => ⟨a, b, k, hpart, hw⟩
      · rintro ⟨a', b', k', hpart', hw⟩
        rw [hpart] at hpart'
        cases hpart'
        exact hw

/-- The loop ends well only when every part is read. -/
private theorem partRange_of_foldlM {parts : List Str} {days result : List Nat}
    (h : parts.foldlM (addPart tables) days = .ok result) :
    ∀ part ∈ parts, ∃ r, partRange tables part = .ok r := by
  induction parts generalizing days with
  | nil => exact fun _ hmem => absurd hmem List.not_mem_nil
  | cons part rest ih =>
    rw [List.foldlM_cons] at h
    obtain ⟨days', hpart, hrest⟩ := bind_eq_ok.mp h
    rw [addPart_eq] at hpart
    obtain ⟨r, hr, _⟩ := map_eq_ok.mp hpart
    intro p hp
    rcases List.mem_cons.mp hp with rfl | hp
    · exact ⟨r, hr⟩
    · exact ih hrest p hp

end

/-! ## Names -/

/-- The names of the days are different. -/
private theorem name_inj : ∀ w < 7, ∀ d < 7, DOW_NAMES.getD w [] = DOW_NAMES.getD d [] → w = d := by
  decide

/-- A name, of a list of names. -/
private theorem getD_mem_names : ∀ d < 7, DOW_NAMES.getD d [] ∈ DOW_NAMES := by decide

/-- The names with commas between them, taken apart. -/
private theorem splitOn_dayNames {days : List Nat} (hne : days ≠ []) (hlt : ∀ d ∈ days, d < 7) :
    (dayNames days).splitOn (.ofChar ',') = days.map fun d => DOW_NAMES.getD d [] := by
  refine List.splitOn_intercalate (CodePoint.ofChar ',') (fun name hname hcomma => ?_)
    (by simpa using hne)
  obtain ⟨d, hd, rfl⟩ := List.mem_map.mp hname
  exact absurd (mem_name (getD_mem_names d (hlt d hd)) _ hcomma) (by decide)

/-- A list of names names its days. -/
private theorem names_dayNames {days : List Nat} (hne : days ≠ []) (hlt : ∀ d ∈ days, d < 7) :
    Names (dayNames days) = {w | w ∈ days} := by
  have hstar : dayNames days ≠ str "*" := by
    intro heq
    have hsplit := splitOn_dayNames hne hlt
    rw [heq] at hsplit
    -- one of the names would be the star
    have hmem : str "*" ∈ days.map fun d => DOW_NAMES.getD d [] := by
      rw [← hsplit]
      decide
    obtain ⟨d, hd, hname⟩ := List.mem_map.mp hmem
    have := mem_name (hname ▸ getD_mem_names d (hlt d hd)) (.ofChar '*') (by decide)
    exact absurd this (by decide)
  ext w
  constructor
  · rintro ⟨hw, hnamed | hnamed⟩
    · exact absurd hnamed hstar
    · rw [splitOn_dayNames hne hlt] at hnamed
      obtain ⟨d, hd, hname⟩ := List.mem_map.mp hnamed
      exact name_inj d (hlt d hd) w hw hname ▸ hd
  · intro hw
    refine ⟨hlt w hw, Or.inr ?_⟩
    rw [splitOn_dayNames hne hlt]
    exact List.mem_map_of_mem hw

/-- `*` names every day. -/
private theorem names_star : Names (str "*") = {w | w < 7} :=
  Set.ext fun _ => ⟨fun h => h.1, fun h => ⟨h, Or.inl rfl⟩⟩

/-! ## The fields that the code reads -/

/-- A text without a separator in it is what stands before it. -/
private theorem eq_of_partition {sep : Char} {text before behind : Str}
    (h : partition sep text = (before, false, behind)) : before = text := by
  rw [partition, List.span_eq_takeWhile_dropWhile] at h
  cases hdrop : text.dropWhile fun c => !c.is sep with
  | nil =>
    rw [hdrop] at h
    cases h
    have happend := List.takeWhile_append_dropWhile (p := fun c => !c.is sep) (l := text)
    rwa [hdrop, List.append_nil] at happend
  | cons c rest =>
    rw [hdrop] at h
    cases h

section
variable {tables : TextTables}

/-- `_dow_value` gives a day from 0 to 6. -/
private theorem dowValue_lt {token : Str} {d : Nat} (h : dowValue tables token = .ok d) : d < 7 := by
  rw [dowValue] at h
  split_ifs at h with hname
  · cases h
    exact List.idxOf_lt_length_of_mem (List.contains_iff_mem.mp hname)
  · obtain ⟨n, hn, h⟩ := bind_eq_ok.mp h
    split_ifs at h with hrange
    cases h
    exact Nat.mod_lt _ (by decide)

/-- An end of a range is at most 7. -/
private theorem endpoint_le {token : Str} {d : Nat} (h : endpoint tables token = .ok d) : d ≤ 7 := by
  rw [endpoint] at h
  split_ifs at h with hseven
  · cases h
    exact Nat.le_refl 7
  · exact Nat.le_of_lt (dowValue_lt h)

/-- The step of a part is read when `int` reads it as a number of at least 1. -/
private theorem splitStep_ok_iff {part body stepText : Str} {slash : Bool}
    (hsplit : partition '/' part = (body, slash, stepText)) :
    (∃ step, splitStep tables part = .ok (body, step))
      ↔ (slash = true → ∃ n, intOf tables stepText = some n ∧ 1 ≤ n) := by
  cases slash with
  | false =>
    rw [splitStep, hsplit, eq_of_partition hsplit]
    exact ⟨fun _ hslash => absurd hslash Bool.false_ne_true, fun _ => ⟨none, rfl⟩⟩
  | true =>
    rw [splitStep, hsplit]
    constructor
    · rintro ⟨step, h⟩ _
      obtain ⟨n, hn, h⟩ := bind_eq_ok.mp (show (readInt tables stepText >>= _) = _ from h)
      obtain ⟨hpos, _⟩ := ite_error_eq_ok.mp h
      rw [Scheduler.readInt] at hn
      cases hint : intOf tables stepText with
      | none =>
        rw [hint] at hn
        cases hn
      | some m =>
        rw [hint] at hn
        cases hn
        exact ⟨n, rfl, by omega⟩
    · intro h
      obtain ⟨n, hint, hpos⟩ := h rfl
      refine ⟨some n.toNat, ?_⟩
      show (readInt tables stepText >>= _) = _
      rw [Scheduler.readInt, hint]
      exact if_neg (by omega)

/-- The text in front of the step is all that the part keeps. -/
private theorem splitStep_body {part body body' stepText : Str} {slash : Bool} {step : Option Nat}
    (hsplit : partition '/' part = (body, slash, stepText))
    (h : splitStep tables part = .ok (body', step)) : body' = body := by
  rw [splitStep, hsplit] at h
  cases slash with
  | false =>
    cases h
    exact (eq_of_partition hsplit).symm
  | true =>
    obtain ⟨n, hn, h⟩ := bind_eq_ok.mp (show (readInt tables stepText >>= _) = _ from h)
    obtain ⟨hpos, h⟩ := ite_error_eq_ok.mp h
    cases h
    rfl

/-- The values of a body ascend when it is empty, a `*` or readable days. -/
private theorem rangeOf_ok_iff {body : Str} {step : Option Nat} :
    (∃ a b, rangeOf tables body step = .ok (a, b) ∧ a ≤ b)
      ↔ body = str "*" ∨ body = [] ∨ ReadableBody tables body := by
  by_cases hstar : body = str "*" ∨ body = []
  · rw [rangeOf, if_pos hstar]
    exact ⟨fun _ => hstar.elim Or.inl fun h => .inr (.inl h), fun _ => ⟨0, 6, rfl, by decide⟩⟩
  · rw [rangeOf, if_neg hstar, ← or_assoc, or_iff_right hstar, ReadableBody]
    rcases partition '-' body with ⟨first, _ | _, last⟩
    · constructor
      · rintro ⟨a, b, h, hle⟩
        obtain ⟨start, hstart, _⟩ := bind_eq_ok.mp h
        exact ⟨start, hstart⟩
      · rintro ⟨start, hstart⟩
        refine ⟨start, if step.isSome then 7 else start, ?_, ?_⟩
        · show (endpoint tables body >>= _) = _
          rw [hstart]
          rfl
        · split_ifs
          · exact endpoint_le hstart
          · exact Nat.le_refl start
    · constructor
      · rintro ⟨a, b, h, hle⟩
        obtain ⟨start, hstart, h⟩ := bind_eq_ok.mp h
        obtain ⟨stop, hstop, h⟩ := bind_eq_ok.mp h
        cases h
        exact ⟨a, b, hstart, hstop, hle⟩
      · rintro ⟨a, b, hstart, hstop, hle⟩
        refine ⟨a, b, ?_, hle⟩
        show (endpoint tables first >>= fun start => endpoint tables last >>= _) = _
        rw [hstart]
        show (endpoint tables last >>= _) = _
        rw [hstop]
        rfl

/-- A part has a range when it is readable. -/
private theorem partRange_ok_iff {part : Str} :
    (∃ r, partRange tables part = .ok r) ↔ ReadablePart tables part := by
  rw [ReadablePart]
  rcases hsplit : partition '/' part with ⟨body, slash, stepText⟩
  show _ ↔ (slash = true → _) ∧ _
  rw [← splitStep_ok_iff hsplit]
  constructor
  · rintro ⟨r, h⟩
    obtain ⟨⟨body', step⟩, hstep, h⟩ := bind_eq_ok.mp h
    obtain ⟨⟨a, b⟩, hends, h⟩ := bind_eq_ok.mp h
    obtain ⟨hle, _⟩ := ite_error_eq_ok.mp h
    cases splitStep_body hsplit hstep
    exact ⟨⟨step, hstep⟩, rangeOf_ok_iff.mp ⟨a, b, hends, Nat.not_lt.mp hle⟩⟩
  · rintro ⟨⟨step, hstep⟩, hbody⟩
    obtain ⟨a, b, hends, hle⟩ := (@rangeOf_ok_iff tables body step).mpr hbody
    refine ⟨(a, b, step.getD 1), ?_⟩
    rw [partRange, hstep]
    show (rangeOf tables body step >>= _) = _
    rw [hends]
    exact if_neg (Nat.not_lt.mpr hle)

/-- A field that is a `*` or a `?` is every day. -/
private theorem crontabDayOfWeek_star {field : Str}
    (h : strip field = str "*" ∨ strip field = str "?") :
    crontabDayOfWeek tables field = .ok (str "*") := by
  rw [crontabDayOfWeek, if_pos h]

/-- Any other field whose parts are read gives the names of their days. -/
private theorem crontabDayOfWeek_parts {field : Str}
    (hstar : ¬(strip field = str "*" ∨ strip field = str "?"))
    (h : ∀ part ∈ (strip field).splitOn (.ofChar ','), ∃ r, partRange tables part = .ok r) :
    ∃ days, days ≠ [] ∧ (∀ d ∈ days, d < 7)
      ∧ crontabDayOfWeek tables field = .ok (dayNames days)
      ∧ ∀ w, w ∈ days ↔ ∃ part ∈ (strip field).splitOn (.ofChar ','), ∃ a b k,
        partRange tables part = .ok (a, b, k) ∧ w ∈ stepDays a b k := by
  obtain ⟨days, hdays, hmem⟩ := @foldlM_addPart tables _ [] h
  simp only [List.not_mem_nil, false_or] at hmem
  refine ⟨days.insertionSort (· ≤ ·), ?_, fun d hd => ?_, ?_, fun w => ?_⟩
  · -- the first part has a first day
    obtain ⟨part, hpart⟩ := List.exists_mem_of_ne_nil ((strip field).splitOn (.ofChar ','))
      (List.splitOn_ne_nil _ _)
    obtain ⟨⟨a, b, k⟩, hr⟩ := h part hpart
    have hfirst : a % 7 ∈ days := (hmem (a % 7)).mpr ⟨part, hpart, a, b, k, hr, a, Nat.le_refl a,
      (partRange_ascending hr).1, by rw [Nat.sub_self]; exact dvd_zero k, rfl⟩
    exact List.ne_nil_of_mem ((List.mem_insertionSort (· ≤ ·)).mpr hfirst)
  · obtain ⟨_, _, a, b, k, _, v, _, _, _, rfl⟩ := (hmem d).mp ((List.mem_insertionSort (· ≤ ·)).mp hd)
    exact Nat.mod_lt v (by decide)
  · rw [crontabDayOfWeek, if_neg hstar, hdays]
    rfl
  · rw [List.mem_insertionSort, hmem]

/-- The code raises no error exactly on the readable fields. -/
private theorem crontabDayOfWeek_ok_iff {field : Str} :
    (∃ result, crontabDayOfWeek tables field = .ok result) ↔ Readable tables field := by
  by_cases hstar : strip field = str "*" ∨ strip field = str "?"
  · refine ⟨fun _ => ?_, fun _ => ⟨str "*", crontabDayOfWeek_star hstar⟩⟩
    rcases hstar with h | h
    · refine .inr fun part hpart => ?_
      rw [h] at hpart
      have hsplit : (str "*").splitOn (.ofChar ',') = [str "*"] := by decide
      rw [hsplit, List.mem_singleton] at hpart
      exact partRange_ok_iff.mp ⟨(0, 6, 1), hpart ▸ rfl⟩
    · exact .inl h
  · constructor
    · rintro ⟨result, h⟩
      rw [crontabDayOfWeek, if_neg hstar] at h
      obtain ⟨days, hdays, _⟩ := bind_eq_ok.mp h
      exact .inr fun part hpart => partRange_ok_iff.mp (partRange_of_foldlM hdays part hpart)
    · rintro (h | h)
      · exact absurd (.inr h) hstar
      · obtain ⟨days, _, _, hresult, _⟩ := crontabDayOfWeek_parts hstar
          fun part hpart => partRange_ok_iff.mpr (h part hpart)
        exact ⟨dayNames days, hresult⟩

end

/-! ## The fields of the grammar -/

/-- The days from Sunday to Saturday. -/
private theorem stepDays_all : stepDays 0 6 1 = {w | w < 7} := by
  ext w
  constructor
  · rintro ⟨v, _, _, _, rfl⟩
    exact Nat.mod_lt v (by decide)
  · intro hw
    exact ⟨w, Nat.zero_le w, Nat.le_of_lt_succ hw, one_dvd _, Nat.mod_eq_of_lt hw⟩

/-- The characters of a join are those of the texts and of the separator. -/
private theorem mem_join {sep : Str} {texts : List Str} {c : CodePoint}
    (h : c ∈ join sep texts) : c ∈ sep ∨ ∃ text ∈ texts, c ∈ text := by
  induction texts with
  | nil => cases h
  | cons text rest ih =>
    cases rest with
    | nil =>
      rw [join, List.intercalate_singleton] at h
      exact .inr ⟨text, List.mem_cons_self, h⟩
    | cons next rest =>
      rw [join, List.intercalate_cons_cons, List.mem_append, List.mem_append] at h
      rcases h with (h | h) | h
      · exact .inr ⟨text, List.mem_cons_self, h⟩
      · exact .inl h
      · exact (ih h).imp_right fun ⟨t, ht, hc⟩ => ⟨t, List.mem_cons_of_mem text ht, hc⟩

/-- The parts of a field of the grammar are its elements, and no space is around it. -/
private theorem elements_parts {es : List CrontabElement} (hne : es ≠ []) :
    strip (join (str ",") (es.map (·.text))) = join (str ",") (es.map (·.text))
      ∧ (join (str ",") (es.map (·.text))).splitOn (.ofChar ',') = es.map (·.text) := by
  constructor
  · refine strip_self fun c hc => ?_
    rcases mem_join hc with hc | ⟨text, htext, hc⟩
    · rw [List.mem_singleton.mp hc]
      rfl
    · obtain ⟨e, _, rfl⟩ := List.mem_map.mp htext
      exact isSpace_of_isFieldChar (e.ok.chars c hc)
  · refine List.splitOn_intercalate (CodePoint.ofChar ',') (fun text htext hcomma => ?_)
      (by simpa using hne)
    obtain ⟨e, _, rfl⟩ := List.mem_map.mp htext
    exact absurd (e.ok.chars _ hcomma) (by decide)

section
variable {tables : TextTables}

/-- The days of a field whose parts are read, a `*` included. -/
private theorem crontabDayOfWeek_names {field : Str} (hmark : strip field ≠ str "?")
    (h : ∀ part ∈ (strip field).splitOn (.ofChar ','), ∃ r, partRange tables part = .ok r) :
    ∃ result, crontabDayOfWeek tables field = .ok result
      ∧ Names result = {w | ∃ part ∈ (strip field).splitOn (.ofChar ','), ∃ a b k,
        partRange tables part = .ok (a, b, k) ∧ w ∈ stepDays a b k} := by
  by_cases hstar : strip field = str "*"
  · refine ⟨str "*", crontabDayOfWeek_star (.inl hstar), ?_⟩
    have hsplit : (str "*").splitOn (.ofChar ',') = [str "*"] := by decide
    have hpart : partRange tables (str "*") = .ok (0, 6, 1) := rfl
    rw [names_star, ← stepDays_all, hstar, hsplit]
    ext w
    constructor
    · exact fun hw => ⟨str "*", List.mem_singleton_self _, 0, 6, 1, hpart, hw⟩
    · rintro ⟨part, hmem, a, b, k, hread, hw⟩
      rw [List.mem_singleton.mp hmem, hpart] at hread
      cases hread
      exact hw
  · obtain ⟨days, hne, hlt, hresult, hmem⟩ :=
      crontabDayOfWeek_parts (not_or.mpr ⟨hstar, hmark⟩) h
    exact ⟨dayNames days, hresult, (names_dayNames hne hlt).trans (Set.ext hmem)⟩

/-- A field of the grammar with short steps gets the days of crontab(5). -/
private theorem crontab_ok {field : Str} {days : Set Nat} (h : Crontab field days)
    (hshort : ShortSteps field) :
    ∃ result, crontabDayOfWeek tables field = .ok result ∧ Names result = days := by
  rcases h with ⟨rfl, rfl⟩ | ⟨es, hne, rfl, rfl⟩
  · exact ⟨str "*", crontabDayOfWeek_star (.inr (by decide)), names_star⟩
  · obtain ⟨hstrip, hsplit⟩ := elements_parts hne
    rw [ShortSteps, hsplit] at hshort
    have hread : ∀ e ∈ es, ∃ b', partRange tables e.text = .ok (e.first, b', e.step)
        ∧ stepDays e.first b' e.step = stepDays e.first e.last e.step := fun e he =>
      partRange_element e.ok (hshort e.text (List.mem_map_of_mem he))
    have hmark : join (str ",") (es.map (·.text)) ≠ str "?" := by
      intro hmark
      rw [hmark, show (str "?").splitOn (.ofChar ',') = [str "?"] by decide] at hsplit
      obtain ⟨e, he, htext⟩ : ∃ e ∈ es, e.text = str "?" :=
        List.mem_map.mp (hsplit ▸ List.mem_singleton_self (str "?"))
      exact absurd (e.ok.chars (.ofChar '?') (htext ▸ List.mem_singleton_self _)) (by decide)
    obtain ⟨result, hresult, hnames⟩ := @crontabDayOfWeek_names tables
      (join (str ",") (es.map (·.text))) (by rwa [hstrip]) (by
        rw [hstrip, hsplit]
        intro part hpart
        obtain ⟨e, he, rfl⟩ := List.mem_map.mp hpart
        exact (hread e he).imp' _ fun _ => And.left)
    refine ⟨result, hresult, hnames.trans (Set.ext fun w => ?_)⟩
    rw [hstrip, hsplit]
    constructor
    · rintro ⟨part, hpart, a, b, k, hrange, hw⟩
      obtain ⟨e, he, rfl⟩ := List.mem_map.mp hpart
      obtain ⟨b', hrange', hdays⟩ := hread e he
      rw [hrange'] at hrange
      cases hrange
      exact ⟨e, he, hdays ▸ hw⟩
    · rintro ⟨e, he, hw⟩
      obtain ⟨b', hrange, hdays⟩ := hread e he
      exact ⟨e.text, List.mem_map_of_mem he, e.first, b', e.step, hrange, hdays ▸ hw⟩

/-- `?` has no step. -/
private theorem shortSteps_mark : ShortSteps (str "?") := by
  intro part hpart
  rw [show (str "?").splitOn (.ofChar ',') = [str "?"] by decide, List.mem_singleton] at hpart
  rw [hpart]
  exact Nat.zero_le _

/-- `int` reads only short steps. -/
private theorem shortSteps_of_readable {field : Str} {days : Set Nat} (h : Crontab field days)
    (hread : Readable tables field) : ShortSteps field := by
  rcases h with ⟨rfl, _⟩ | ⟨es, hne, rfl, _⟩
  · exact shortSteps_mark
  · obtain ⟨hstrip, hsplit⟩ := elements_parts hne
    rw [Readable, hstrip, hsplit] at hread
    rcases hread with hread | hread
    · rw [hread]
      exact shortSteps_mark
    intro part hpart
    rw [hsplit] at hpart
    have hstep := hread part hpart
    rw [ReadablePart] at hstep
    -- a step that `int` reads has at most 4300 digits
    have hdigits : ∀ {t stepText : Str} {k : Nat}, (∀ c ∈ t, c.is '/' = false) → IsStep stepText k →
        part = t ++ .ofChar '/' :: stepText → (partition '/' part).2.2.length ≤ MAX_STR_DIGITS := by
      intro t stepText k ht hdigits htext
      rw [htext, partition_append ht (is_ofChar (by decide))] at hstep ⊢
      obtain ⟨n, hn, _⟩ := hstep.1 rfl
      rw [intOf_digits hdigits.nonempty hdigits.digits] at hn
      split_ifs at hn with hle
      exact hle
    have hnone : (∀ c ∈ part, c.is '/' = false) →
        (partition '/' part).2.2.length ≤ MAX_STR_DIGITS := by
      intro ht
      rw [partition_none ht]
      exact Nat.zero_le _
    obtain ⟨e, he, htext⟩ := List.mem_map.mp hpart
    obtain ⟨text, a, b, k, ok⟩ := e
    change text = part at htext
    subst htext
    cases ok with
    | day h => exact hnone fun c hc => is_false_of_isDayChar (h.chars c hc) (by decide)
    | range h => exact hnone fun c hc => (h.chars c hc).2
    | dayStep h hk =>
      exact hdigits (fun c hc => is_false_of_isDayChar (h.chars c hc) (by decide)) hk rfl
    | rangeStep h hk => exact hdigits (fun c hc => (h.chars c hc).2) hk rfl

/-- The code does what crontab(5) says exactly with the fields of the grammar whose steps are
short, and with those that it does not read. -/
private theorem faithful_iff {field : Str} :
    Faithful tables field ↔ ((∃ days, Crontab field days) → ShortSteps field)
      ∧ (Readable tables field → ∃ days, Crontab field days) := by
  constructor
  · intro ⟨hvalid, hother⟩
    constructor
    · rintro ⟨days, h⟩
      obtain ⟨result, hresult, _⟩ := hvalid days h
      exact shortSteps_of_readable h (crontabDayOfWeek_ok_iff.mp ⟨result, hresult⟩)
    · intro hread
      by_contra hnone
      obtain ⟨e, he⟩ := hother hnone
      obtain ⟨result, hresult⟩ := crontabDayOfWeek_ok_iff.mpr hread
      rw [he] at hresult
      cases hresult
  · intro ⟨hshort, hread⟩
    constructor
    · exact fun days h => crontab_ok h (hshort ⟨days, h⟩)
    · intro hnone
      cases hresult : crontabDayOfWeek tables field with
      | error e => exact ⟨e, rfl⟩
      | ok result => exact absurd (hread (crontabDayOfWeek_ok_iff.mp ⟨result, hresult⟩)) hnone

end

/-! ## Triggers -/

section
variable {tables : TextTables} {aps : APScheduler}

/-- The weekday of the minute is one that the result names. -/
private theorem isMatch_result (h : aps.Documented) {field result : Str}
    (hresult : crontabDayOfWeek tables field = .ok result) (t : aps.Minute) :
    aps.accepts .dayOfWeek result = true
      ∧ (aps.isMatch .dayOfWeek result t = true ↔ aps.weekday t ∈ Names result) := by
  by_cases hstar : strip field = str "*" ∨ strip field = str "?"
  · rw [crontabDayOfWeek_star hstar] at hresult
    cases hresult
    rw [names_star]
    exact ⟨(h.star .dayOfWeek t).1, fun _ => h.weekday_lt t, fun _ => (h.star .dayOfWeek t).2⟩
  · have hread := (crontabDayOfWeek_ok_iff.mp ⟨result, hresult⟩).resolve_left
      fun hmark => hstar (.inr hmark)
    obtain ⟨days, hne, hlt, hdays, _⟩ := crontabDayOfWeek_parts hstar
      fun part hpart => partRange_ok_iff.mpr (hread part hpart)
    rw [hresult] at hdays
    cases hdays
    rw [names_dayNames hne hlt]
    exact h.names days t hne hlt

/-- The words of a text have no space. -/
private theorem isSpace_of_mem_words {text word : Str} (h : word ∈ words text) :
    ∀ c ∈ word, c.isSpace = false := by
  have hpiece := (List.mem_filter.mp h).1
  clear h
  induction text generalizing word with
  | nil =>
    rw [List.splitOnP_nil, List.mem_singleton] at hpiece
    rw [hpiece]
    exact fun c hc => absurd hc List.not_mem_nil
  | cons d rest ih =>
    rw [List.splitOnP_cons_eq_if_modifyHead] at hpiece
    split_ifs at hpiece with hspace
    · rcases List.mem_cons.mp hpiece with rfl | hpiece
      · exact fun c hc => absurd hc List.not_mem_nil
      · exact ih hpiece
    · cases hpieces : rest.splitOnP CodePoint.isSpace with
      | nil => exact absurd hpieces (List.splitOnP_ne_nil CodePoint.isSpace rest)
      | cons head tail =>
        rw [hpieces] at hpiece ih
        rcases List.mem_cons.mp hpiece with rfl | hpiece
        · intro c hc
          rcases List.mem_cons.mp hc with rfl | hc
          · exact Bool.eq_false_iff.mpr hspace
          · exact ih List.mem_cons_self c hc
        · exact ih (List.mem_cons_of_mem head hpiece)

/-- A day field is restricted when it does not start with `*` or `?`. -/
def Restricted (field : Str) : Prop :=
  ∀ c, field.head? = some c → c.is '*' = false ∧ c.is '?' = false

/-- crontab(5)'s rule for the two day fields, at a minute whose day of the month matches, or whose
day of the week does: one of them where both fields are restricted, both otherwise. -/
def DayRule (day dayOfWeek : Str) (monthDay weekday : Prop) : Prop :=
  (Restricted day ∧ Restricted dayOfWeek ∧ (monthDay ∨ weekday))
    ∨ (¬(Restricted day ∧ Restricted dayOfWeek) ∧ monthDay ∧ weekday)

/-- What the code asks of a word of the expression. -/
private theorem dayRestricted_iff {text word : Str} (h : word ∈ words text) :
    dayRestricted word = true ↔ Restricted word := by
  rw [dayRestricted, strip_self (isSpace_of_mem_words h), Restricted]
  cases word with
  | nil => simp
  | cons c rest => simp

/-- A trigger of `parse_cron` fires on the days of the rule, at the minutes of the other
fields. -/
private theorem parseCron_fires (h : aps.Documented) {expression : Option Str} {trigger : Trigger}
    (hparse : parseCron tables aps expression = some trigger) :
    ∃ text minute hour day month dayOfWeek result, expression = some text
      ∧ words text = [minute, hour, day, month, dayOfWeek]
      ∧ crontabDayOfWeek tables dayOfWeek = .ok result
      ∧ ∀ t, aps.fires t trigger = true ↔ aps.isMatch .minute minute t = true
        ∧ aps.isMatch .hour hour t = true ∧ aps.isMatch .month month t = true
        ∧ DayRule day dayOfWeek (aps.isMatch .day day t = true) (aps.weekday t ∈ Names result) := by
  rw [parseCron] at hparse
  split at hparse
  · rename_i minute hour day month dayOfWeek hmap
    obtain ⟨text, rfl, hwords⟩ := Option.map_eq_some_iff.mp hmap
    cases hresult : crontabDayOfWeek tables dayOfWeek with
    | error e =>
      rw [hresult] at hparse
      cases hparse
    | ok result =>
      refine ⟨text, minute, hour, day, month, dayOfWeek, result, rfl, hwords, hresult, fun t => ?_⟩
      have hweekday := (isMatch_result h hresult t).2
      have hday : dayRestricted day = true ↔ Restricted day :=
        @dayRestricted_iff text day (by rw [hwords]; simp)
      have hdow : dayRestricted dayOfWeek = true ↔ Restricted dayOfWeek :=
        @dayRestricted_iff text dayOfWeek (by rw [hwords]; simp)
      rw [DayRule, ← hday, ← hdow, ← hweekday]
      simp only [hresult, Bool.and_eq_true] at hparse
      split_ifs at hparse with hboth
      · -- two triggers, one for each day field
        simp only [APScheduler.cronTrigger, Option.bind_eq_bind, Option.bind_eq_some_iff] at hparse
        obtain ⟨first, hfirst, second, hsecond, htrigger⟩ := hparse
        split_ifs at hfirst hsecond
        cases hfirst
        cases hsecond
        cases htrigger
        simp only [APScheduler.fires, APScheduler.cronFires, List.all_cons, List.all_nil,
          Bool.and_true, Bool.or_eq_true, Bool.and_eq_true]
        tauto
      · obtain ⟨fields, hfields, htrigger⟩ := Option.map_eq_some_iff.mp hparse
        rw [APScheduler.cronTrigger] at hfields
        split_ifs at hfields
        cases hfields
        cases htrigger
        simp only [APScheduler.fires, APScheduler.cronFires, List.all_cons, List.all_nil,
          Bool.and_true, Bool.and_eq_true]
        tauto
  · cases hparse

end

/-- For every field, the code does what crontab(5) says exactly when the field is of the grammar
with short steps, or is not readable. And every trigger of `parse_cron` fires by crontab(5)'s rule
for the two day fields, with the days that the day-of-week field stands for. -/
theorem dayFields_iff (tables : TextTables) (aps : APScheduler) (h : aps.Documented) :
    (∀ field, Faithful tables field ↔ ((∃ days, Crontab field days) → ShortSteps field)
        ∧ (Readable tables field → ∃ days, Crontab field days))
      ∧ ∀ expression trigger, parseCron tables aps expression = some trigger →
        ∃ text minute hour day month dayOfWeek result, expression = some text
          ∧ words text = [minute, hour, day, month, dayOfWeek]
          ∧ crontabDayOfWeek tables dayOfWeek = .ok result
          ∧ (∀ days, Crontab dayOfWeek days → Names result = days)
          ∧ ∀ t, aps.fires t trigger = true ↔ aps.isMatch .minute minute t = true
            ∧ aps.isMatch .hour hour t = true ∧ aps.isMatch .month month t = true
            ∧ DayRule day dayOfWeek (aps.isMatch .day day t = true)
              (aps.weekday t ∈ Names result) := by
  refine ⟨fun field => faithful_iff, fun expression trigger hparse => ?_⟩
  obtain ⟨text, minute, hour, day, month, dayOfWeek, result, hexpression, hwords, hresult, hfires⟩ :=
    parseCron_fires h hparse
  refine ⟨text, minute, hour, day, month, dayOfWeek, result, hexpression, hwords, hresult,
    fun days hdays => ?_, hfires⟩
  have hread := crontabDayOfWeek_ok_iff.mp ⟨result, hresult⟩
  obtain ⟨result', hresult', hnames⟩ := @crontab_ok tables _ _ hdays
    (shortSteps_of_readable hdays hread)
  rw [hresult] at hresult'
  cases hresult'
  exact hnames

/-- The numbers of a minute in the calendar. -/
structure Clock where
  minute : Nat
  hour : Nat
  day : Nat
  month : Nat
  weekday : Fin 7

/-- APScheduler, as far as its fields are single numbers, lists of day names and `*`. -/
def numberScheduler : APScheduler where
  Minute := Clock
  weekday t := t.weekday
  accepts field text := text = str "*" || (match field with
    | .dayOfWeek => (text.splitOn (.ofChar ',')).all fun name => DOW_NAMES.contains name
    | _ => !text.isEmpty && text.all CodePoint.isDigit)
  isMatch field text t := text = str "*" || (match field with
    | .minute => text = natText t.minute
    | .hour => text = natText t.hour
    | .day => text = natText t.day
    | .month => text = natText t.month
    | .dayOfWeek => (text.splitOn (.ofChar ',')).contains (DOW_NAMES.getD t.weekday []))

/-- It reads `*` and day names as APScheduler does. -/
private theorem numberScheduler_documented : numberScheduler.Documented where
  weekday_lt t := t.weekday.isLt
  star field t := ⟨rfl, rfl⟩
  names days t hne hlt := by
    have hnames : numberScheduler.isMatch .dayOfWeek (dayNames days) t = true
        ↔ numberScheduler.weekday t ∈ Names (dayNames days) := by
      show (decide _ || List.contains _ _) = true ↔ (t.weekday : Nat) < 7 ∧ _
      rw [Bool.or_eq_true, decide_eq_true_eq, List.contains_iff_mem]
      exact ⟨fun h => ⟨t.weekday.isLt, h⟩, fun h => h.2⟩
    constructor
    · show (decide _ || List.all _ _) = true
      rw [Bool.or_eq_true, splitOn_dayNames hne hlt, List.all_eq_true]
      refine .inr fun name hname => ?_
      obtain ⟨d, hd, rfl⟩ := List.mem_map.mp hname
      exact List.contains_iff_mem.mpr (getD_mem_names d (hlt d hd))
    · rw [hnames, names_dayNames hne hlt]
      exact Iff.rfl

/-- The two triggers that `parse_cron` joins for the first of a month and for Mondays. -/
def firstOrMonday : Trigger :=
  .either [(.minute, str "0"), (.hour, str "3"), (.day, str "1"), (.month, str "*")]
    [(.minute, str "0"), (.hour, str "3"), (.month, str "*"), (.dayOfWeek, str "mon")]

/-- `0 3 1 * 1` has two restricted day fields: its trigger fires on the first of a month, and on
Mondays. -/
theorem dayFields_either :
    parseCron .ascii numberScheduler (some (str "0 3 1 * 1")) = some firstOrMonday
      ∧ ∃ result, crontabDayOfWeek .ascii (str "1") = .ok result
        ∧ ∀ t : Clock, numberScheduler.fires t firstOrMonday = true
          ↔ numberScheduler.isMatch .minute (str "0") t = true
            ∧ numberScheduler.isMatch .hour (str "3") t = true
            ∧ numberScheduler.isMatch .month (str "*") t = true
            ∧ DayRule (str "1") (str "1") (numberScheduler.isMatch .day (str "1") t = true)
              ((t.weekday : Nat) ∈ Names result) := by
  have hparse : parseCron .ascii numberScheduler (some (str "0 3 1 * 1")) = some firstOrMonday := by
    decide +kernel
  refine ⟨hparse, ?_⟩
  obtain ⟨text, minute, hour, day, month, dayOfWeek, result, htext, hwords, hresult, _, hfires⟩ :=
    (dayFields_iff .ascii numberScheduler numberScheduler_documented).2 _ _ hparse
  cases htext
  have hfields : words (str "0 3 1 * 1") = [str "0", str "3", str "1", str "*", str "1"] := by decide
  rw [hfields] at hwords
  cases hwords
  exact ⟨result, hresult, hfires⟩

/-- An element has a character. -/
private theorem IsElement.ne_nil {text : Str} {a b k : Nat} (h : IsElement text a b k) :
    text ≠ [] := by
  cases h with
  | day h => exact h.ne_nil
  | range h =>
    cases h with
    | every => decide
    | days => exact List.append_ne_nil_of_right_ne_nil _ (List.cons_ne_nil _ _)
  | dayStep => exact List.append_ne_nil_of_right_ne_nil _ (List.cons_ne_nil _ _)
  | rangeStep => exact List.append_ne_nil_of_right_ne_nil _ (List.cons_ne_nil _ _)

/-- A field with a comma at its end is not one of crontab(5), and the code makes every day of
it. -/
theorem trailing_comma_is_every_day :
    (¬∃ days, Crontab (str "1,") days)
      ∧ crontabDayOfWeek .ascii (str "1,") = .ok (str "sun,mon,tue,wed,thu,fri,sat")
      ∧ ¬Faithful .ascii (str "1,") := by
  have hnone : ¬∃ days, Crontab (str "1,") days := by
    rintro ⟨days, ⟨hmark, _⟩ | ⟨es, hne, hfield, _⟩⟩
    · exact absurd hmark (by decide)
    · have hsplit := (elements_parts hne).2
      rw [← hfield, show (str "1,").splitOn (.ofChar ',') = [str "1", []] by decide] at hsplit
      obtain ⟨e, _, he⟩ : ∃ e ∈ es, e.text = [] := List.mem_map.mp (hsplit ▸ by simp)
      exact e.ok.ne_nil he
  have hcode : crontabDayOfWeek .ascii (str "1,") = .ok (str "sun,mon,tue,wed,thu,fri,sat") := by
    decide +kernel
  refine ⟨hnone, hcode, fun h => ?_⟩
  obtain ⟨e, he⟩ := h.2 hnone
  rw [hcode] at he
  cases he

end TrustPortal.Proofs.Scheduler
