import Mathlib.Algebra.Group.Int.Defs
import Mathlib.Algebra.Group.Nat.Defs
import TrustPortal.Audit.PublishHead

/-!
# `TrustPortal.Proofs.Audit.HeadKey`: the reader takes the writer's key apart

`object_key` writes fixed separators between digits of fixed widths, and the row id at the
end. `keyParts_objectKey` shows that `HEAD_KEY` matches such a key and that its first and
last groups are the chain id and the row id, for every chain id of 16 hexadecimal digits,
every second from 1970 to 9999 and every positive row id that a 64-bit integer holds.
-/

set_option autoImplicit false

namespace TrustPortal.Proofs.Audit

open TrustPortal.Sql
open TrustPortal.Audit

/-! ## Digits -/

theorem decimalValue_of_isDigit {c : Char} (h : c.isDigit = true) :
    decimalValue c = some (c.toNat - 48) := by
  have hrange : 48 ≤ c.toNat ∧ c.toNat ≤ 57 := by
    simpa [Char.isDigit, UInt32.le_iff_toNat_le] using h
  have hfirst : (decide (48 ≤ c.toNat) && decide (c.toNat < 48 + 10)) = true := by
    simp only [Bool.and_eq_true, decide_eq_true_eq]
    omega
  unfold decimalValue decimalZeros
  rw [List.find?_cons_of_pos (by exact hfirst)]
  rfl

theorem isDecimal_of_isDigit {c : Char} (h : c.isDigit = true) : isDecimal c = true := by
  rw [isDecimal, decimalValue_of_isDigit h]
  rfl

theorem isDecimal_of_mem_toDigits {n : Nat} {c : Char} (h : c ∈ Nat.toDigits 10 n) :
    isDecimal c = true :=
  isDecimal_of_isDigit (Nat.isDigit_of_mem_toDigits (by decide) (by decide) h)

/-- The number of a numeral's digits is the number. -/
theorem decimalNat_toDigits (n : Nat) : decimalNat (Nat.toDigits 10 n) = n := by
  have hfold : ∀ (digits : List Char) (start : Nat), (∀ c ∈ digits, c.isDigit = true) →
      digits.foldl (fun m c => 10 * m + (decimalValue c).getD 0) start
        = Nat.ofDigitChars 10 digits start := by
    intro digits
    induction digits with
    | nil => intro start _; rw [Nat.ofDigitChars_nil]; rfl
    | cons c rest ih =>
      intro start hdigits
      rw [List.foldl_cons, ih _ fun d hd => hdigits d (List.mem_cons_of_mem _ hd),
        Nat.ofDigitChars_cons, decimalValue_of_isDigit (hdigits c List.mem_cons_self)]
      rfl
  rw [decimalNat, hfold _ _ fun c hc => Nat.isDigit_of_mem_toDigits (by decide) (by decide) hc,
    Nat.ofDigitChars_ten_toDigits]

/-- A positive numeral starts with a digit other than 0. -/
theorem head_toDigits {n : Nat} (h : 0 < n) :
    ∃ c rest, Nat.toDigits 10 n = c :: rest ∧ '1' ≤ c ∧ c ≤ '9' := by
  induction n using Nat.strongRecOn with
  | ind n ih =>
    by_cases hsmall : n < 10
    · refine ⟨n.digitChar, [], Nat.toDigits_of_lt_base hsmall, ?_⟩
      have hall : ∀ m < 10, 0 < m → '1' ≤ Nat.digitChar m ∧ Nat.digitChar m ≤ '9' := by decide
      exact hall n hsmall h
    · obtain ⟨c, rest, hdigits, hfirst⟩ := ih (n / 10) (by omega) (by omega)
      exact ⟨c, rest ++ [Nat.digitChar (n % 10)], by
        rw [Nat.toDigits_of_base_le (by decide) (by omega), hdigits, List.cons_append], hfirst⟩

/-- A text of `n` digits. -/
def Digits (n : Nat) (s : String) : Prop :=
  s.toList.length = n ∧ s.toList.all Char.isDigit = true

theorem Digits.all {n : Nat} {s : String} (h : Digits n s) {isIn : Char → Bool}
    (hdigit : ∀ c : Char, c.isDigit = true → isIn c = true) : s.toList.all isIn = true := by
  rw [List.all_eq_true]
  exact fun c hc => hdigit c (List.all_eq_true.mp h.2 c hc)

/-- A padded number is as long as its width. -/
theorem digits_zeroPad {width n : Nat} (hwidth : 0 < width) (h : n < 10 ^ width) :
    Digits width (zeroPad width n) := by
  have hlen : (Nat.toDigits 10 n).length ≤ width :=
    (Nat.length_toDigits_le_iff (by decide) hwidth).mpr h
  have hlist : (zeroPad width n).toList
      = List.replicate (width - (Nat.toDigits 10 n).length) '0' ++ Nat.toDigits 10 n := by
    simp [zeroPad, ← String.length_toList]
  rw [Digits, hlist, List.length_append, List.length_replicate, List.all_eq_true]
  refine ⟨by omega, fun c hc => ?_⟩
  rcases List.mem_append.mp hc with hzero | hdigit
  · rw [List.eq_of_mem_replicate hzero]
    decide
  · exact Nat.isDigit_of_mem_toDigits (by decide) (by decide) hdigit

/-- A year of a clock has four digits. -/
theorem digits_year (stamp : Stamp) : Digits 4 (toString stamp.year) := by
  obtain ⟨hlow, hhigh⟩ := stamp.year_valid
  have hle := (Nat.length_toDigits_le_iff (by decide) (by decide)).mpr
    (show stamp.year < 10 ^ 4 by omega)
  have hgt : ¬(Nat.toDigits 10 stamp.year).length ≤ 3 := fun hshort => by
    have := (Nat.length_toDigits_le_iff (by decide) (by decide)).mp hshort
    omega
  rw [Digits, Nat.toString_eq_repr, Nat.toList_repr, List.all_eq_true]
  exact ⟨by omega, fun c hc => Nat.isDigit_of_mem_toDigits (by decide) (by decide) hc⟩

/-- The numbers of a second, with their widths. -/
structure StampDigits (stamp : Stamp) : Prop where
  year : Digits 4 (toString stamp.year)
  month : Digits 2 (zeroPad 2 stamp.month)
  day : Digits 2 (zeroPad 2 stamp.day)
  hour : Digits 2 (zeroPad 2 stamp.hour)
  minute : Digits 2 (zeroPad 2 stamp.minute)
  second : Digits 2 (zeroPad 2 stamp.second)

theorem stampDigits (stamp : Stamp) : StampDigits stamp := by
  have hmonth := stamp.month_valid
  have hday := stamp.day_valid
  have hdays := daysInMonth_le stamp.year stamp.month
  have hhour := stamp.hour_valid
  have hminute := stamp.minute_valid
  have hsecond := stamp.second_valid
  exact ⟨digits_year stamp, digits_zeroPad (by decide) (by omega),
    digits_zeroPad (by decide) (by omega), digits_zeroPad (by decide) (by omega),
    digits_zeroPad (by decide) (by omega), digits_zeroPad (by decide) (by omega)⟩

/-! ## The parts of the key -/

theorem dropText_append (text rest : List Char) : dropText text (text ++ rest) = some rest := by
  induction text with
  | nil => rfl
  | cons c cs ih => rw [List.cons_append, dropText, if_pos rfl, ih]

theorem takeClass_append {isIn : Char → Bool} {n : Nat} {chars : List Char} (rest : List Char)
    (hlen : chars.length = n) (hall : chars.all isIn = true) :
    takeClass isIn n (chars ++ rest) = some (chars, rest) := by
  subst hlen
  unfold takeClass
  rw [List.take_left, List.drop_left, hall]
  simp

/-- The reader finds the row id at the end of the key. -/
theorem readRowId_toDigits {n : Nat} (hpos : 0 < n) (hfits : n < 10 ^ 19) :
    readRowId (Nat.toDigits 10 n ++ ".json".toList) = some (n : Int) := by
  have hall : ∀ c ∈ Nat.toDigits 10 n, isDecimal c = true := fun c hc =>
    isDecimal_of_mem_toDigits hc
  have hstop : (".json".toList).takeWhile isDecimal = []
      ∧ (".json".toList).dropWhile isDecimal = ".json".toList := by decide
  have htake : (Nat.toDigits 10 n ++ ".json".toList).takeWhile isDecimal
      = Nat.toDigits 10 n := by
    rw [List.takeWhile_append_of_pos hall, hstop.1, List.append_nil]
  have hdrop : (Nat.toDigits 10 n ++ ".json".toList).dropWhile isDecimal = ".json".toList := by
    rw [List.dropWhile_append_of_pos hall, hstop.2]
  obtain ⟨c, rest, hdigits, hlow, hhigh⟩ := head_toDigits hpos
  have hfirst : ((Nat.toDigits 10 n).head?.any fun c => decide ('1' ≤ c) && decide (c ≤ '9'))
      = true := by
    rw [hdigits]
    simp [hlow, hhigh]
  have hlen : (Nat.toDigits 10 n).length ≤ 19 :=
    (Nat.length_toDigits_le_iff (by decide) (by decide)).mpr hfits
  simp only [readRowId, htake, hdrop, hfirst, decimalNat_toDigits, hlen, decide_true,
    Bool.true_or, Bool.and_self, if_true]

/-- The text of a chain id: 16 hexadecimal digits. -/
def IsChainId (cid : String) : Prop :=
  cid.toList.length = 16 ∧ cid.toList.all isHexDigit = true

/-- The key as the list of the parts the reader takes, one after the other. -/
private theorem toList_key (cid year month day hour minute second id : String) :
    ("chain-heads/" ++ cid ++ "/" ++ year ++ "/" ++ month ++ "/" ++ day ++ "/"
      ++ (year ++ month ++ day ++ "T" ++ hour ++ minute ++ second ++ "Z") ++ "-" ++ id
      ++ ".json").toList
    = "chain-heads/".toList ++ (cid.toList ++ (['/'] ++ (year.toList ++ (['/']
      ++ (month.toList ++ (['/'] ++ (day.toList ++ (['/']
      ++ ((year.toList ++ month.toList ++ day.toList) ++ (['T']
      ++ ((hour.toList ++ minute.toList ++ second.toList) ++ (['Z', '-']
      ++ (id.toList ++ ".json".toList))))))))))))) := by
  simp only [String.toList_append, List.append_assoc, show "/".toList = ['/'] from rfl,
    show "T".toList = ['T'] from rfl, show "Z".toList = ['Z'] from rfl,
    show "-".toList = ['-'] from rfl, List.cons_append, List.nil_append]

/-- `HEAD_KEY` matches the key of a head, with its chain id and its row id. -/
theorem keyParts_objectKey {head : HeadRecord} (hcid : IsChainId head.chainId)
    (hpos : 1 ≤ head.id) (hfits : head.id < 10 ^ 19) :
    keyParts (objectKey head) = some (head.chainId, head.id) := by
  obtain ⟨n, hn⟩ := Int.eq_ofNat_of_zero_le (show 0 ≤ head.id by omega)
  obtain ⟨hyear, hmonth, hday, hhour, hminute, hsecond⟩ := stampDigits head.publishedAt
  have hid : (toString head.id).toList = Nat.toDigits 10 n := by
    rw [hn]
    show (Int.repr (Int.ofNat n)).toList = _
    rw [Int.repr]
    exact Nat.toList_repr
  have hkey : (objectKey head).toList = _ := toList_key head.chainId
    (toString head.publishedAt.year) (zeroPad 2 head.publishedAt.month)
    (zeroPad 2 head.publishedAt.day) (zeroPad 2 head.publishedAt.hour)
    (zeroPad 2 head.publishedAt.minute) (zeroPad 2 head.publishedAt.second) (toString head.id)
  rw [hid] at hkey
  have decimal {n : Nat} {s : String} (h : Digits n s) : s.toList.all isDecimal = true :=
    h.all fun c hc => isDecimal_of_isDigit hc
  have hdate : ((toString head.publishedAt.year).toList
      ++ (zeroPad 2 head.publishedAt.month).toList
      ++ (zeroPad 2 head.publishedAt.day).toList).length = 8 ∧
      ((toString head.publishedAt.year).toList ++ (zeroPad 2 head.publishedAt.month).toList
        ++ (zeroPad 2 head.publishedAt.day).toList).all isDecimal = true := by
    simp only [List.length_append, List.all_append, hyear.1, hmonth.1, hday.1, decimal hyear,
      decimal hmonth, decimal hday, Bool.and_self, and_self]
  have htime : ((zeroPad 2 head.publishedAt.hour).toList
      ++ (zeroPad 2 head.publishedAt.minute).toList
      ++ (zeroPad 2 head.publishedAt.second).toList).length = 6 ∧
      ((zeroPad 2 head.publishedAt.hour).toList ++ (zeroPad 2 head.publishedAt.minute).toList
        ++ (zeroPad 2 head.publishedAt.second).toList).all isDecimal = true := by
    simp only [List.length_append, List.all_append, hhour.1, hminute.1, hsecond.1,
      decimal hhour, decimal hminute, decimal hsecond, Bool.and_self, and_self]
  have hrow := @readRowId_toDigits n (by omega) (by
    have := hfits
    rw [hn] at this
    exact_mod_cast this)
  unfold keyParts
  rw [hkey, dropText_append]
  simp only [Option.bind_eq_bind, Option.bind_some, dropText_append,
    takeClass_append _ hcid.1 hcid.2, takeClass_append _ hyear.1 (decimal hyear),
    takeClass_append _ hmonth.1 (decimal hmonth), takeClass_append _ hday.1 (decimal hday),
    takeClass_append _ hdate.1 hdate.2, takeClass_append _ htime.1 htime.2, hrow]
  rw [String.ofList_toList, hn]
  rfl

end TrustPortal.Proofs.Audit
